import Mathlib.Data.List.Forall2
import LinuxNet.Lib.StepSystem
import LinuxNet.WebServer.Replies

/-!
# Several requests on one connection

A `Session` is one connection and the bytes its client has sent; `main` calls
`read` and `write` when the event the descriptor is armed for comes, and a
worker calls `process` in between.  `init()` clears the buffer once a response
is sent, so that bytes received behind the end of a request are lost.
`replies_of_drained` is about the runs in which `read` takes no such bytes:
then the server queues one reply for each request, in order.
-/

namespace LinuxNet.WebServer

open LinuxNet.CString LinuxNet.CInt LinuxNet.StepSystem

inductive SessionPhase where
  | armed (interest : Interest)
  | queued
  | closed
  deriving DecidableEq, Repr

/-- A response that was queued, and the files it was made from. -/
structure Reply where
  fs : FileSystem
  pages : Nat → List UInt8
  response : List UInt8

structure Session where
  conn : Conn
  /-- What the client has sent and `recv` has not delivered. -/
  input : List UInt8
  phase : SessionPhase
  replies : List Reply

inductive SessionStep where
  | read (blocks : List (List UInt8)) (last : RecvEnd)
  | process (fs : FileSystem) (pages : Nat → List UInt8)
  | write (pages : Nat → List UInt8) (outcomes : List WritevOutcome)

/-- The event that the last call of `modfd` asks for. -/
def Conn.armedFor (c : Conn) : Option Interest :=
  match c.trace.getLast? with
  | some (.epollMod _ interest) => some interest
  | _ => none

/-- How a `recv` loop can end on a socket that works and that the client does
not close: with `EAGAIN`, or, when there is no room left, with the 0 that a
`recv` of no bytes may return. -/
def Conn.EndsWith
    (c : Conn) (blocks : List (List UInt8)) (last : RecvEnd) : Prop :=
  last = .eagain ∨
    last = .closed ∧
      c.readIdx + blocks.flatten.length = readBufferSize

instance (c : Conn) (blocks : List (List UInt8)) (last : RecvEnd) :
    Decidable (c.EndsWith blocks last) :=
  inferInstanceAs (Decidable (_ ∨ _))

namespace Session

def start
    (slot : Conn) (sockfd : Int) (address : SockAddr)
    (input : List UInt8) : Session where
  conn := slot.initWith sockfd address
  input := input
  phase := .armed .epollIn
  replies := []

/-- One handler of `main` or of a worker. -/
def step (s : Session) : SessionStep → Option Session
  | .read blocks last =>
      if s.phase = .armed .epollIn ∧ blocks.flatten <+: s.input ∧
          s.conn.Receivable blocks ∧ s.conn.EndsWith blocks last then
        let input := s.input.drop blocks.flatten.length
        match s.conn.read blocks last with
        | (true, c) => some { s with conn := c, input := input, phase := .queued }
        | (false, c) =>
            some
              { s with
                conn := c.closeConn, input := input, phase := .closed }
      else
        none
  | .process fs pages =>
      if s.phase = .queued then
        match s.conn.processRead fs with
        | (.noRequest, _) =>
            some
              { s with conn := s.conn.process fs, phase := .armed .epollIn }
        | (code, c) =>
            if (c.processWrite code).1 then
              some
                { s with
                  conn := s.conn.process fs
                  phase := .armed .epollOut
                  replies :=
                    s.replies ++
                      [⟨fs, pages, (c.processWrite code).2.offered pages⟩] }
            else
              some { s with conn := s.conn.process fs, phase := .closed }
      else
        none
  | .write pages outcomes =>
      if s.phase = .armed .epollOut then
        let call := s.conn.write pages outcomes
        match call.ret, call.conn.armedFor with
        | some true, some interest =>
            some { s with conn := call.conn, phase := .armed interest }
        | some false, _ =>
            some { s with conn := call.conn.closeConn, phase := .closed }
        | _, _ => none
      else
        none

end Session

def bytesOf (requests : List KeepAliveRequest) : List UInt8 :=
  requests.flatMap KeepAliveRequest.bytes

def Reply.Answers (reply : Reply) (request : KeepAliveRequest) : Prop :=
  reply.response = replyTo reply.fs reply.pages request.target

namespace Session

/-- `read` takes no byte behind the request in progress and is not stopped by
a full buffer, no requested file is empty, and `writev` fails with `EAGAIN`
only. -/
def OneAtATime
    (requests : List KeepAliveRequest) (s : Session) : SessionStep → Prop
  | .read blocks last =>
      last = .eagain ∧
        ∀ request, requests[s.replies.length]? = some request →
          s.conn.readIdx + blocks.flatten.length ≤ request.bytes.length
  | .process fs _ =>
      ∀ request, requests[s.replies.length]? = some request →
        fs.NoEmptyFile request.target
  | .write _ outcomes => WritevOutcome.error ∉ outcomes

/-- A request for `/` that keeps the connection. -/
def keepRootBytes : List UInt8 :=
  ascii "GET / HTTP/1.1" ++ crlf ++ ascii "Connection: keep-alive" ++ crlf ++
    crlf

theorem headOf_keepRoot :
    HeadOf keepRootBytes (ascii "/") [ascii "Connection: keep-alive"] [] :=
  headOf_of_one_header (by decide) Conn.requestLine_getRoot (by decide)
    (by decide) (by decide)

def keepRoot : KeepAliveRequest where
  bytes := keepRootBytes
  target := ascii "/"
  headers := [ascii "Connection: keep-alive"]
  isHead := headOf_keepRoot
  keepsAlive :=
    ⟨ascii "Connection: keep-alive", List.mem_singleton.mpr rfl, by decide,
      by decide⟩
  bodyless := by decide

/-- The bytes to come, when a part of a request has been received: nothing,
or the rest of that request and the requests behind it. -/
inductive Ahead :
    List KeepAliveRequest → List UInt8 → List UInt8 → Prop
  | idle : Ahead [] [] []
  | within {request : KeepAliveRequest} {part more : List UInt8}
      (later : List KeepAliveRequest)
      (split : request.bytes = part ++ more) (missing : more ≠ []) :
      Ahead (request :: later) part (more ++ bytesOf later)

theorem bytes_ne_nil (request : KeepAliveRequest) : request.bytes ≠ [] := by
  obtain ⟨line, after, shape, _⟩ := request.isHead
  rw [shape]
  simp

theorem ahead_bytesOf (requests : List KeepAliveRequest) :
    Ahead requests [] (bytesOf requests) := by
  cases requests with
  | nil => exact .idle
  | cons request later => exact .within later rfl (bytes_ne_nil request)

def InProgress
    (rest : List KeepAliveRequest) (received input : List UInt8) : Prop :=
  Ahead rest received input ∨
    ∃ request later, rest = request :: later ∧
      request.bytes = received ∧ input = bytesOf later

theorem Ahead.length_part_lt
    {rest : List KeepAliveRequest} {part input : List UInt8}
    (ahead : Ahead rest part input)
    (fits : ∀ request ∈ rest, request.bytes.length ≤ readBufferSize) :
    part.length < readBufferSize := by
  cases ahead with
  | idle => decide
  | within later split missing =>
      have bound := fits _ List.mem_cons_self
      have left := List.length_pos_of_ne_nil missing
      rw [split, List.length_append] at bound
      omega

/-- The part that was received is a proper part of a request: of the one in
progress, or, when none is, of any. -/
theorem Ahead.exists_split
    {rest : List KeepAliveRequest} {part input : List UInt8}
    (ahead : Ahead rest part input)
    (fits : ∀ request ∈ rest, request.bytes.length ≤ readBufferSize) :
    ∃ request more, KeepAliveRequest.bytes request = part ++ more ∧
      more ≠ [] ∧ request.bytes.length ≤ readBufferSize := by
  cases ahead with
  | idle =>
      exact ⟨keepRoot, keepRootBytes, rfl, by decide, by decide⟩
  | within later split missing =>
      exact ⟨_, _, split, missing, fits _ List.mem_cons_self⟩

theorem Ahead.receive
    {rest : List KeepAliveRequest} {part input block : List UInt8}
    (ahead : Ahead rest part input) (arrived : block <+: input)
    (inside : ∀ request, rest.head? = some request →
      part.length + block.length ≤ request.bytes.length) :
    InProgress rest (part ++ block) (input.drop block.length) := by
  cases ahead with
  | idle =>
      have nothing := List.prefix_nil.mp arrived
      subst nothing
      exact .inl .idle
  | @within request part more later split missing =>
      have bound := inside request rfl
      rw [split, List.length_append] at bound
      obtain ⟨left, rfl⟩ :=
        List.prefix_of_prefix_length_le arrived
          (List.prefix_append more (bytesOf later)) (by omega)
      rw [List.append_assoc, List.drop_left]
      by_cases complete : left = []
      · subst complete
        refine .inr ⟨request, later, rfl, ?_, rfl⟩
        rw [split, List.append_nil]
      · exact
          .inl (.within later (by rw [split, List.append_assoc]) complete)

/-! ## What every step keeps -/

/-- Where the server stands with the requests that it has not answered. -/
inductive Stands (s : Session) (rest : List KeepAliveRequest) : Prop
  | reading {c d : Conn} {part : List UInt8} {trace : List Event}
      (phase : s.phase = .armed .epollIn) (conn : s.conn = d.traced trace)
      (reading : Conn.Reading c part d) (ahead : Ahead rest part s.input)
  | received {c d : Conn} {part block : List UInt8} {trace : List Event}
      (phase : s.phase = .queued)
      (conn : s.conn = (d.receive block).traced trace)
      (reading : Conn.Reading c part d)
      (progress : InProgress rest (part ++ block) s.input)
  | sending
      (phase : s.phase = .armed .epollOut) (pending : s.conn.writeIdx ≠ 0)
      (linger : s.conn.linger = true) (input : s.input = bytesOf rest)

/-- The replies answer the first requests, in order. -/
def Kept (requests : List KeepAliveRequest) (s : Session) : Prop :=
  ∃ answered rest, requests = answered ++ rest ∧
    List.Forall₂ Reply.Answers s.replies answered ∧ Stands s rest

theorem kept_start
    (slot : Conn) (sockfd : Int) (address : SockAddr)
    (requests : List KeepAliveRequest) :
    (start slot sockfd address (bytesOf requests)).Kept requests := by
  refine ⟨[], requests, rfl, .nil, ?_⟩
  exact
    .reading
      (c := (({ slot with sockfd := sockfd, address := address }.emit
        (.epollAdd sockfd)).emit (.userCount 1)))
      rfl rfl (Conn.reading_init _) (ahead_bytesOf requests)

section Steps

variable {s next : Session} {requests answered rest : List KeepAliveRequest}

theorem next_request
    (replied : List.Forall₂ Reply.Answers s.replies answered)
    (split : requests = answered ++ rest) :
    requests[s.replies.length]? = rest.head? := by
  rw [replied.length_eq, split, List.getElem?_append_right (Nat.le_refl _),
    Nat.sub_self, List.head?_eq_getElem?]

theorem length_bytes_le
    {request : KeepAliveRequest} (member : request ∈ requests)
    (fits : (bytesOf requests).length ≤ readBufferSize) :
    request.bytes.length ≤ readBufferSize := by
  obtain ⟨before, after, rfl⟩ := List.append_of_mem member
  unfold bytesOf at fits
  simp only [List.flatMap_append, List.flatMap_cons,
    List.length_append] at fits
  omega

theorem stands_read
    {blocks : List (List UInt8)} {last : RecvEnd}
    (fits : ∀ request ∈ requests, request.bytes.length ≤ readBufferSize)
    (split : requests = answered ++ rest)
    (replied : List.Forall₂ Reply.Answers s.replies answered)
    (stands : Stands s rest)
    (careful : s.OneAtATime requests (.read blocks last))
    (stepped : s.step (.read blocks last) = some next) :
    next.replies = s.replies ∧ Stands next rest := by
  obtain ⟨drained, inside⟩ := careful
  rw [next_request replied split] at inside
  simp only [step] at stepped
  split at stepped
  · next enabled =>
      obtain ⟨phase, arrived, receivable, _⟩ := enabled
      cases stands with
      | received isQueued => rw [phase] at isQueued; cases isQueued
      | sending isOut => rw [phase] at isOut; cases isOut
      | @reading c d part trace _ conn reading ahead =>
          obtain ⟨inHead, readIdx, _⟩ := reading.head
          have framed : s.conn.Framed := by
            rw [conn]
            exact inHead.framed.traced trace
          have sameIdx : s.conn.readIdx = part.length := by
            rw [conn]
            exact readIdx
          have room : s.conn.readIdx < readBufferSize := by
            rw [sameIdx]
            refine ahead.length_part_lt (fun request member => ?_)
            exact fits request (split ▸ List.mem_append_right answered member)
          have isTrue : (s.conn.read blocks last).1 = true :=
            (Conn.read_fst s.conn blocks last).mpr ⟨room, drained⟩
          have received :
              (s.conn.read blocks last).2 =
                s.conn.receive blocks.flatten := by
            unfold Conn.read
            rw [if_neg (by omega)]
            exact Conn.foldl_receive framed receivable.2
          have shape :
              s.conn.read blocks last =
                (true, s.conn.receive blocks.flatten) :=
            Prod.ext isTrue received
          rw [shape] at stepped
          cases stepped
          have nextConn :
              s.conn.receive blocks.flatten =
                (d.receive blocks.flatten).traced trace := by
            rw [conn]
            rfl
          refine ⟨rfl, .received rfl nextConn reading ?_⟩
          refine ahead.receive arrived (fun request first => ?_)
          rw [← sameIdx]
          exact inside request first
  · cases stepped

theorem process_of_waits
    {c d : Conn} {fs : FileSystem}
    (waits : c.processRead fs = (.noRequest, d)) :
    c.process fs = d.modfd .epollIn := by
  unfold Conn.process
  rw [waits]

theorem process_of_written
    {c d : Conn} {fs : FileSystem} {code : HttpCode}
    (answers : c.processRead fs = (code, d)) (answered : code ≠ .noRequest)
    (written : (d.processWrite code).1 = true) :
    c.process fs = (d.processWrite code).2.modfd .epollOut := by
  unfold Conn.process
  rw [answers]
  rcases shape : d.processWrite code with ⟨ret, e⟩
  rw [shape] at written
  cases written
  cases code <;> simp_all

theorem kept_process
    {fs : FileSystem} {pages : Nat → List UInt8}
    (fits : ∀ request ∈ requests, request.bytes.length ≤ readBufferSize)
    (split : requests = answered ++ rest)
    (replied : List.Forall₂ Reply.Answers s.replies answered)
    (stands : Stands s rest)
    (careful : s.OneAtATime requests (.process fs pages))
    (stepped : s.step (.process fs pages) = some next) :
    next.Kept requests := by
  have restFits :
      ∀ request ∈ rest, request.bytes.length ≤ readBufferSize :=
    fun request member =>
      fits request (split ▸ List.mem_append_right answered member)
  simp only [step] at stepped
  split at stepped
  · next queued =>
      cases stands with
      | reading phase => rw [queued] at phase; cases phase
      | sending phase => rw [queued] at phase; cases phase
      | @received c d part block trace _ conn reading progress =>
          rcases progress with ahead | ⟨request, later, rfl, whole, input⟩
          · obtain ⟨request, more, shape, missing, bound⟩ :=
              ahead.exists_split restFits
            obtain ⟨waits, stillReading⟩ :=
              reading.waits shape missing bound fs
            have partFits : (part ++ block).length ≤ readBufferSize := by
              rw [shape, List.length_append] at bound
              omega
            obtain ⟨after, same⟩ :=
              Conn.processRead_traced (reading.framed partFits) fs trace
            rw [← conn, waits] at same
            rw [same] at stepped
            cases stepped
            have processed :
                s.conn.process fs =
                  ((d.receive block).processRead fs).2.traced
                    (after ++ [.epollMod _ .epollIn]) :=
              process_of_waits same
            exact
              ⟨answered, rest, split, replied,
                .reading rfl processed stillReading ahead⟩
          · have bound := restFits request List.mem_cons_self
            rw [whole] at bound
            obtain ⟨e, looks, looked⟩ :=
              Conn.processRead_whole fs c request (whole ▸ bound)
            have nonempty : fs.NoEmptyFile request.target := by
              refine careful request ?_
              rw [next_request replied split]
              rfl
            obtain ⟨after, same⟩ :=
              Conn.processRead_traced (reading.framed bound) fs trace
            rw [← conn, reading.processRead_eq bound, ← whole, looked]
              at same
            obtain ⟨answers, replies⟩ :=
              looks.replies pages nonempty after
            generalize (e.doRequest fs).1 = code at same answers replies
            generalize (e.doRequest fs).2.traced after = f
              at same replies
            have processed :=
              process_of_written same answers replies.written
            rw [same] at stepped
            split at stepped
            · next isWaiting =>
                cases isWaiting
                exact absurd rfl answers
            · next isPair =>
                cases isPair
                rw [if_pos replies.written] at stepped
                cases stepped
                refine
                  ⟨answered ++ [request], later, ?_, ?_, ?_⟩
                · rw [split, List.append_assoc]
                  rfl
                · exact
                    List.rel_append replied
                      (.cons replies.offered_eq .nil)
                · refine .sending rfl ?_ ?_ input
                  · rw [processed]
                    exact replies.pending
                  · rw [processed]
                    exact replies.linger_eq
  · cases stepped

/-- A connection that is to be kept is not dropped unless `writev` fails. -/
theorem writeLoop_ret_ne_false
    (pages : Nat → List UInt8) {outcomes : List WritevOutcome} {c : Conn}
    {toSend haveSend : Int} (linger : c.linger = true)
    (works : WritevOutcome.error ∉ outcomes) :
    (Conn.writeLoop pages outcomes c toSend haveSend).ret ≠ some false := by
  induction outcomes generalizing c toSend haveSend with
  | nil =>
      intro impossible
      cases impossible
  | cons outcome rest inductionHypothesis =>
      rw [List.mem_cons, not_or] at works
      cases outcome with
      | eagain =>
          intro impossible
          cases impossible
      | error => exact absurd rfl works.1
      | accepted temp =>
          unfold Conn.writeLoop
          simp only
          split
          · rw [Conn.unmap_linger]
            show (if c.linger = true then _ else _ : WriteCall).ret ≠ _
            rw [if_pos linger]
            intro impossible
            cases impossible
          · exact inductionHypothesis linger works.2

theorem armedFor_modfd (c : Conn) (interest : Interest) :
    (c.modfd interest).armedFor = some interest := by
  simp [Conn.armedFor, Conn.modfd, Conn.emit]

theorem stands_write
    {pages : Nat → List UInt8} {outcomes : List WritevOutcome}
    (stands : Stands s rest)
    (careful : s.OneAtATime requests (.write pages outcomes))
    (stepped : s.step (.write pages outcomes) = some next) :
    next.replies = s.replies ∧ Stands next rest := by
  have works : WritevOutcome.error ∉ outcomes := careful
  simp only [step] at stepped
  split at stepped
  · next isOut =>
      cases stands with
      | reading phase => rw [isOut] at phase; cases phase
      | received phase => rw [isOut] at phase; cases phase
      | sending phase pending linger input =>
          have notFalse : (s.conn.write pages outcomes).ret ≠ some false := by
            unfold Conn.write
            rw [if_neg pending]
            exact writeLoop_ret_ne_false pages linger works
          rcases returned : (s.conn.write pages outcomes).ret with _ | _ | _
          · rw [returned] at stepped
            cases stepped
          · exact absurd returned notFalse
          · obtain ⟨interest, isSome, returns⟩ :=
              Conn.writeReturns_write pages returned
            rw [returned] at stepped
            generalize (s.conn.write pages outcomes).conn = c
              at stepped returns
            cases returns with
            | idle empty => exact absurd empty pending
            | error => cases isSome
            | dropped => cases isSome
            | @again d _ sends =>
                rw [armedFor_modfd] at stepped
                cases stepped
                refine ⟨rfl, .sending rfl ?_ ?_ input⟩
                · show d.writeIdx ≠ 0
                  rw [sends.writeIdx_eq]
                  exact pending
                · show d.linger = true
                  rw [sends.linger_eq]
                  exact linger
            | @kept d _ sends _ =>
                rw [armedFor_modfd] at stepped
                cases stepped
                have nextConn :
                    d.unmap.init.modfd .epollIn =
                      (d.unmap.modfd .epollIn).init.traced
                        (d.unmap.modfd .epollIn).trace := rfl
                refine
                  ⟨rfl, .reading rfl nextConn (Conn.reading_init _) ?_⟩
                show Ahead rest [] s.input
                rw [input]
                exact ahead_bytesOf rest
  · cases stepped

/-- Every careful step keeps the replies in order, where each request fits
into the buffer. -/
theorem kept_step_of_each
    (requests : List KeepAliveRequest)
    (fits : ∀ request ∈ requests, request.bytes.length ≤ readBufferSize)
    (s : Session) (label : SessionStep) (next : Session)
    (kept : s.Kept requests) (careful : s.OneAtATime requests label)
    (stepped : s.step label = some next) : next.Kept requests := by
  obtain ⟨answered, rest, split, replied, stands⟩ := kept
  cases label with
  | read blocks last =>
      obtain ⟨same, nextStands⟩ :=
        stands_read fits split replied stands careful stepped
      exact ⟨answered, rest, split, same ▸ replied, nextStands⟩
  | process fs pages =>
      exact kept_process fits split replied stands careful stepped
  | write pages outcomes =>
      obtain ⟨same, nextStands⟩ := stands_write stands careful stepped
      exact ⟨answered, rest, split, same ▸ replied, nextStands⟩

/-- Every careful step keeps the replies in order. -/
theorem kept_step
    (requests : List KeepAliveRequest)
    (fits : (bytesOf requests).length ≤ readBufferSize)
    (s : Session) (label : SessionStep) (next : Session)
    (kept : s.Kept requests) (careful : s.OneAtATime requests label)
    (stepped : s.step label = some next) : next.Kept requests :=
  kept_step_of_each requests
    (fun _ member => length_bytes_le member fits) s label next kept careful
    stepped

end Steps

theorem eq_nil_of_bytesOf_eq_nil
    {requests : List KeepAliveRequest} (empty : bytesOf requests = []) :
    requests = [] := by
  cases requests with
  | nil => rfl
  | cons request later =>
      exact absurd (List.append_eq_nil_iff.mp empty).1 (bytes_ne_nil request)

theorem Stands.eq_nil_of_drained
    {s : Session} {rest : List KeepAliveRequest} (stands : Stands s rest)
    (drained : s.input = []) (idle : s.phase ≠ .queued) : rest = [] := by
  cases stands with
  | received phase => exact absurd phase idle
  | sending _ _ _ input =>
      exact eq_nil_of_bytesOf_eq_nil (input.symm.trans drained)
  | reading _ _ _ ahead =>
      rw [drained] at ahead
      generalize none : [] = input at ahead
      cases ahead with
      | idle => rfl
      | within later split missing =>
          exact absurd (List.append_eq_nil_iff.mp none.symm).1 missing

/-- Several requests on one connection: in a run in which `read` takes no byte
behind the request in progress and is not stopped by a full buffer, no
requested file is empty, and `writev` fails with `EAGAIN` only, the server
has queued exactly one reply for each request, in order, once it has received
and processed all bytes. -/
theorem replies_of_drained
    (slot : Conn) (sockfd : Int) (address : SockAddr)
    {requests : List KeepAliveRequest} {labels : List SessionStep}
    {s : Session}
    (fits : (bytesOf requests).length ≤ readBufferSize)
    (careful :
      StepsMeet step (OneAtATime requests)
        (start slot sockfd address (bytesOf requests)) labels)
    (ran :
      run step (start slot sockfd address (bytesOf requests)) labels =
        some s)
    (drained : s.input = []) (idle : s.phase ≠ .queued) :
    s.replies.length = requests.length ∧
      List.Forall₂ Reply.Answers s.replies requests := by
  obtain ⟨answered, rest, split, replied, stands⟩ :=
    guarded_run_keeps (OneAtATime requests) (Kept requests)
      (kept_step requests fits)
      (kept_start slot sockfd address requests) careful ran
  rw [stands.eq_nil_of_drained drained idle, List.append_nil] at split
  rw [split]
  exact ⟨replied.length_eq, replied⟩

/-- A request arrives in one segment and is answered before more arrives. -/
def serve
    (request : KeepAliveRequest) (fs : FileSystem)
    (pages : Nat → List UInt8) (sent : Nat) : List SessionStep :=
  [.read [request.bytes] .eagain, .process fs pages,
    .write pages [.accepted sent]]

theorem careful_serve
    (requests : List KeepAliveRequest) (request : KeepAliveRequest)
    (s : Session) {fs : FileSystem}
    (first : requests[s.replies.length]? = some request)
    (fresh : s.conn.readIdx = 0)
    (nonempty : ∀ target, fs.NoEmptyFile target)
    (pages : Nat → List UInt8) (sent : Nat) :
    StepsMeet step (OneAtATime requests) s (serve request fs pages sent) := by
  refine
    ⟨⟨rfl, fun other same => ?_⟩,
      fun _ _ => ⟨fun other _ => nonempty other.target,
        fun _ _ => ⟨by simp [OneAtATime], fun _ _ => trivial⟩⟩⟩
  rw [first] at same
  cases same
  simp [fresh]

/-- Two requests for `/`, each in a segment of its own. -/
theorem replies_one_by_one :
    ∃ s,
      run step
          (start Conn.zeroed 5 ⟨0, 0⟩ (bytesOf [keepRoot, keepRoot]))
          (serve keepRoot Conn.noFiles (fun _ => []) 119 ++
            serve keepRoot Conn.noFiles (fun _ => []) 119) = some s ∧
        s.replies.length = 2 ∧
        List.Forall₂ Reply.Answers s.replies [keepRoot, keepRoot] := by
  have once :
      (run step
          (start Conn.zeroed 5 ⟨0, 0⟩ (bytesOf [keepRoot, keepRoot]))
          (serve keepRoot Conn.noFiles (fun _ => []) 119)).map
        (fun s => (s.replies.length, s.conn.readIdx)) = some (1, 0) := by
    decide +kernel
  have twice :
      (run step
          (start Conn.zeroed 5 ⟨0, 0⟩ (bytesOf [keepRoot, keepRoot]))
          (serve keepRoot Conn.noFiles (fun _ => []) 119 ++
            serve keepRoot Conn.noFiles (fun _ => []) 119)).map
        (fun s => (s.input, s.phase)) = some ([], .armed .epollIn) := by
    decide +kernel
  obtain ⟨middle, ranOnce, facts⟩ := Option.map_eq_some_iff.mp once
  obtain ⟨replied, fresh⟩ := Prod.mk.inj facts
  obtain ⟨s, ran, facts⟩ := Option.map_eq_some_iff.mp twice
  obtain ⟨drained, phase⟩ := Prod.mk.inj facts
  have nonempty : ∀ target, Conn.noFiles.NoEmptyFile target :=
    fun _ _ serves => nomatch serves.1
  have careful :=
    append_stepsMeet
      (careful_serve [keepRoot, keepRoot] keepRoot
        (start Conn.zeroed 5 ⟨0, 0⟩ (bytesOf [keepRoot, keepRoot]))
        rfl rfl nonempty (fun _ => []) 119)
      ranOnce
      (careful_serve [keepRoot, keepRoot] keepRoot middle
        (by rw [replied]; rfl) fresh nonempty (fun _ => []) 119)
  exact
    ⟨s, ran,
      replies_of_drained Conn.zeroed 5 ⟨0, 0⟩ (by decide) careful ran drained
        (by rw [phase]; decide)⟩

/-- The same two requests in one segment get one reply: the second is gone
when the first response is sent. -/
theorem request_lost_behind_another :
    ∃ s,
      run step
          (start Conn.zeroed 5 ⟨0, 0⟩ (bytesOf [keepRoot, keepRoot]))
          [.read [bytesOf [keepRoot, keepRoot]] .eagain,
            .process Conn.noFiles (fun _ => []),
            .write (fun _ => []) [.accepted 119]] = some s ∧
        s.input = [] ∧ s.phase = .armed .epollIn ∧
        s.replies.length = 1 := by
  have ran :
      (run step
          (start Conn.zeroed 5 ⟨0, 0⟩ (bytesOf [keepRoot, keepRoot]))
          [.read [bytesOf [keepRoot, keepRoot]] .eagain,
            .process Conn.noFiles (fun _ => []),
            .write (fun _ => []) [.accepted 119]]).map
        (fun s => (s.input, s.phase, s.replies.length)) =
      some ([], .armed .epollIn, 1) := by
    decide +kernel
  obtain ⟨s, ran, facts⟩ := Option.map_eq_some_iff.mp ran
  obtain ⟨drained, others⟩ := Prod.mk.inj facts
  obtain ⟨phase, replied⟩ := Prod.mk.inj others
  exact ⟨s, ran, drained, phase, replied⟩

end Session

end LinuxNet.WebServer
