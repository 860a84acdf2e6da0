import LinuxNet.Lib.HttpMessage
import LinuxNet.WebServer.KeepAlive
import LinuxNet.WebServer.Transfer
import LinuxNet.WebServer.WriteBuffer

/-!
# What the client reads on a kept connection

The bytes that the socket took are read as HTTP messages.  `messageTo` says
which message a request should get.  As long as every `writev` that takes
bytes takes the whole response, the client reads the answers to its requests,
in order and with nothing in between.
-/

namespace LinuxNet.WebServer

open LinuxNet.CString LinuxNet.CInt LinuxNet.Decimal LinuxNet.HttpMessage
  LinuxNet.StepSystem

/-- The status line for a result of `process_read`, without its end. -/
def startLineFor : HttpCode → List UInt8
  | .fileRequest => ascii "HTTP/1.1 200 OK"
  | .badRequest => ascii "HTTP/1.1 400 Bad Request"
  | .forbiddenRequest => ascii "HTTP/1.1 403 Forbidden"
  | .noResource => ascii "HTTP/1.1 404 Not Found"
  | .internalError => ascii "HTTP/1.1 500 Internal Error"
  | _ => []

def keptMessage (code : HttpCode) (body : List UInt8) : Message where
  startLine := startLineFor code
  fields :=
    [ascii "Content-Length: " ++ decimal body.length,
      ascii "Connection: keep-alive"]
  body := body

def messageTo
    (fs : FileSystem) (pages : Nat → List UInt8) (target : List UInt8) :
    Message :=
  match fs.stat (fileName target) with
  | none => keptMessage .noResource error404Form
  | some fileStat =>
      if fileStat.stMode &&& 0o4 = 0 then
        keptMessage .forbiddenRequest error403Form
      else if fileStat.stMode &&& 0o170000 = 0o40000 then
        keptMessage .badRequest error400Form
      else
        match fs.mmap (fileName target) fileStat.stSize with
        | none => keptMessage .fileRequest []
        | some address =>
            keptMessage .fileRequest
              ((pages address).take fileStat.stSize.toNat)

/-- A file that the target names has from 1 to `INT_MAX` bytes, and all of
them can be mapped. -/
def FileSystem.MapsWhole
    (fs : FileSystem) (pages : Nat → List UInt8) (target : List UInt8) :
    Prop :=
  ∀ fileStat, fs.Serves (fileName target) fileStat →
    0 < fileStat.stSize ∧ fileStat.stSize ≤ intMax ∧
      ∃ address, fs.mmap (fileName target) fileStat.stSize = some address ∧
        fileStat.stSize.toNat ≤ (pages address).length

theorem FileSystem.MapsWhole.noEmptyFile
    {fs : FileSystem} {pages : Nat → List UInt8} {target : List UInt8}
    (maps : fs.MapsWhole pages target) : fs.NoEmptyFile target := by
  intro fileStat serves empty
  have positive := (maps fileStat serves).1
  omega

theorem statusLine_eq
    {code : HttpCode} (answered : Answered code) :
    statusLine code = startLineFor code ++ crlf := by
  rcases answered with rfl | rfl | rfl | rfl | rfl <;> decide

theorem feed_notMem_startLineFor (code : HttpCode) :
    10 ∉ startLineFor code := by
  cases code <;> decide

theorem render_keptMessage
    {code : HttpCode} (answered : Answered code) (body : List UInt8) :
    render (keptMessage code body) =
      statusLine code ++ Conn.headersText true body.length ++ body := by
  have connection :
      ascii "Connection: keep-alive" =
        ascii "Connection: " ++ ascii "keep-alive" := by
    decide
  rw [statusLine_eq answered]
  simp [render, renderLines, keptMessage, Conn.headersText, crlf, connection]

theorem delimited_keptMessage (code : HttpCode) (body : List UInt8) :
    (keptMessage code body).Delimited := by
  have label :
      ascii "Content-Length: " ++ decimal body.length =
        lengthName ++ 58 :: 32 :: decimal body.length := by
    have front : ascii "Content-Length: " = lengthName ++ [58, 32] := by
      decide
    rw [front]
    simp
  refine ⟨⟨feed_notMem_startLineFor code, ?_⟩, ?_⟩
  · intro field member
    rcases List.mem_pair.mp member with rfl | rfl
    · rw [label]
      refine ⟨by simp [lengthName], ?_⟩
      have digits := feed_notMem_decimal body.length
      simp [lengthName, digits]
    · exact ⟨by decide, by decide⟩
  · unfold keptMessage
    simp only [label]
    rw [bodyLength_of_first]
    exact decimalValue_decimal_natCast body.length

variable {fs : FileSystem} {pages : Nat → List UInt8}

theorem errorReply_eq
    {code : HttpCode} (answered : Answered code) :
    errorReply code = render (keptMessage code (bodyFor code [])) :=
  (render_keptMessage answered (bodyFor code [])).symm

/-- The reply to a request is the message that answers it. -/
theorem replyTo_eq_render
    {target : List UInt8} (maps : fs.MapsWhole pages target) :
    replyTo fs pages target = render (messageTo fs pages target) := by
  unfold replyTo messageTo
  cases stat : fs.stat (fileName target) with
  | none => exact errorReply_eq (.inr (.inl rfl))
  | some fileStat =>
      simp only
      split
      · exact errorReply_eq (.inr (.inr (.inl rfl)))
      · next readable =>
          split
          · exact errorReply_eq (.inl rfl)
          · next notDirectory =>
              obtain ⟨positive, bounded, address, mapped, whole⟩ :=
                maps fileStat ⟨stat, readable, notDirectory⟩
              have fits : Fits fileStat.stSize :=
                ⟨by simp only [intMin]; omega, bounded⟩
              have length :
                  (((pages address).take fileStat.stSize.toNat).length :
                    Int) = fileStat.stSize := by
                rw [List.length_take]
                omega
              simp only [mapped]
              rw [render_keptMessage (.inr (.inr (.inr (.inr rfl)))),
                length, toInt_of_fits fits]

theorem delimited_messageTo
    (fs : FileSystem) (pages : Nat → List UInt8) (target : List UInt8) :
    (messageTo fs pages target).Delimited := by
  unfold messageTo
  repeat' split
  all_goals exact delimited_keptMessage _ _

namespace Conn

variable {c d e : Conn} {code : HttpCode} {log : ResponseLog}

theorem Since.sentBytes_eq
    (since : Since (fun event => event.sentBytes = []) c d) :
    sentBytes d.trace = sentBytes c.trace := by
  obtain ⟨events, shape, unsent⟩ := since
  have nothing : sentBytes events = [] := List.flatMap_eq_nil_iff.mpr unsent
  rw [shape, sentBytes_append, nothing, List.append_nil]

theorem ReadsOnly.sentBytes_eq (reads : ReadsOnly c d) :
    sentBytes d.trace = sentBytes c.trace := by
  refine Since.sentBytes_eq (Since.mono (fun event parsing => ?_) reads.trace_eq)
  cases event <;> first | rfl | cases parsing

theorem PrintsOnly.sentBytes_eq (prints : PrintsOnly c d) :
    sentBytes d.trace = sentBytes c.trace := by
  obtain ⟨sizes, shape⟩ := prints.trace_eq
  refine Since.sentBytes_eq ⟨sizes.map Event.vsnprintf, shape, ?_⟩
  rintro event member
  obtain ⟨size, _, rfl⟩ := List.mem_map.mp member
  rfl

theorem Answers.sentBytes_eq (answers : Answers fs c d code e) :
    sentBytes e.trace = sentBytes d.trace := by
  rcases answers with ⟨_, rfl⟩ | ⟨_, requested⟩
  · rfl
  · cases requested with
    | missing stat => rfl
    | refused stat codeEq => rfl
    | unmapped serves failed => rfl
    | mapped serves succeeded => simp [Event.sentBytes]

theorem sentBytes_modfd (c : Conn) (interest : Interest) :
    sentBytes (c.modfd interest).trace = sentBytes c.trace := by
  simp [modfd, Event.sentBytes]

theorem sentBytes_closeConn (c : Conn) :
    sentBytes c.closeConn.trace = sentBytes c.trace := by
  unfold closeConn
  split
  · simp [emit, Event.sentBytes]
  · rfl

/-- A worker sends nothing. -/
theorem sentBytes_process (framed : c.Framed) (fs : FileSystem) :
    sentBytes (c.process fs).trace = sentBytes c.trace := by
  obtain ⟨interest, ends⟩ := processEnds_process framed fs
  generalize c.process fs = last at ends
  cases ends with
  | waits framed reads =>
      rw [sentBytes_modfd, reads.sentBytes_eq]
  | answers reads answers framed written =>
      rw [sentBytes_modfd, (processWrite_printsOnly _ _).sentBytes_eq,
        answers.sentBytes_eq, reads.sentBytes_eq]
  | fails reads answers framed unwritten =>
      rw [sentBytes_modfd, sentBytes_closeConn,
        (processWrite_printsOnly _ _).sentBytes_eq, answers.sentBytes_eq,
        reads.sentBytes_eq]

theorem Holds.processRead
    (holds : c.Holds log) (framed : c.Framed) (fs : FileSystem) :
    (c.processRead fs).2.Holds log := by
  obtain ⟨d, _, reads, ended⟩ := processRead_cases framed fs
  have read := holds.of_eq reads.writeBuf_eq reads.writeIdx_eq
  rcases ended with waits | refused | ⟨_, requested⟩
  · rw [waits]
    exact read
  · rw [refused]
    exact read
  · rw [requested]
    have lookedUp := requested_doRequest fs d
    exact read.of_eq lookedUp.writeBuf_eq lookedUp.writeIdx_eq

theorem exists_queued_of_writeError
    {status : Int} {title form : List UInt8}
    (written : (c.writeError status title form).1 = true) :
    ∃ next : Conn, (c.writeError status title form).2 = next.queueBuffer := by
  rw [writeError_eq] at written ⊢
  split at written
  · next added =>
      rw [if_pos added]
      exact ⟨_, rfl⟩
  · cases written

/-- A response that is queued begins with the write buffer. -/
theorem exists_queued_of_written
    (written : (c.processWrite code).1 = true) :
    ∃ next : Conn, (c.processWrite code).2 = next.queueBuffer ∨
      (c.processWrite code).2 = next.queueFile := by
  cases code with
  | internalError | badRequest | noResource | forbiddenRequest =>
      obtain ⟨next, isBuffer⟩ := exists_queued_of_writeError written
      exact ⟨next, .inl isBuffer⟩
  | fileRequest =>
      rw [processWrite_file_eq] at written ⊢
      split at written
      · next nonempty =>
          rw [if_pos nonempty]
          exact ⟨_, .inr rfl⟩
      · cases written
  | noRequest | getRequest | closedConnection => cases written

/-- The bytes that count are among those offered. -/
theorem writeIdx_le_length_offered
    (holds : c.Holds log) (pages : Nat → List UInt8)
    (written : (c.processWrite code).1 = true) :
    (c.processWrite code).2.writeIdx ≤
      ((c.processWrite code).2.offered pages).length := by
  have after := holds.processWrite code
  have size := after.size_eq
  have below := after.writeIdx_lt
  obtain ⟨next, isBuffer | isFile⟩ := exists_queued_of_written written
  · rw [isBuffer] at size below ⊢
    have sizeNext : next.writeBuf.length = writeBufferSize := size
    have belowNext : next.writeIdx < writeBufferSize - 1 := below
    show next.writeIdx ≤ _
    rw [offered_queueBuffer, Conn.written, List.length_take]
    omega
  · rw [isFile] at size below ⊢
    have sizeNext : next.writeBuf.length = writeBufferSize := size
    have belowNext : next.writeIdx < writeBufferSize - 1 := below
    show next.writeIdx ≤
      (next.writeBuf.take next.writeIdx ++ _).length
    rw [List.length_append, List.length_take]
    omega

/-- Of the mapped files only the one of the response counts. -/
theorem offered_eq_of_written
    {pages others : Nat → List UInt8}
    (written : (c.processWrite code).1 = true)
    (same : ∀ address,
      (c.processWrite code).2.fileAddress = .mapping address →
        pages address = others address) :
    (c.processWrite code).2.offered pages =
      (c.processWrite code).2.offered others := by
  obtain ⟨next, isBuffer | isFile⟩ := exists_queued_of_written written
  · rw [isBuffer, offered_queueBuffer, offered_queueBuffer]
  · rw [isFile] at same ⊢
    have sameNext :
        ∀ address, next.fileAddress = .mapping address →
          pages address = others address :=
      same
    simp only [offered, queueFile, iovecBytes]
    cases mapped : next.fileAddress with
    | null | mapFailed => rfl
    | mapping address => simp [sameNext address mapped]

/-- A `writev` that takes the whole response ends the call. -/
theorem write_whole
    (pending : c.writeIdx ≠ 0)
    (inside : c.writeIdx ≤ (c.offered pages).length)
    (linger : c.linger = true) (rest : List WritevOutcome) :
    c.write pages (.accepted (c.offered pages).length :: rest) =
      ⟨some true,
        ((c.emit (.sent (c.offered pages))).emit
          .responseSent).unmap.init.modfd .epollIn, rest⟩ := by
  have done :
      (c.writeIdx : Int) - (c.offered pages).length ≤
        0 + (c.offered pages).length := by
    omega
  unfold write
  rw [if_neg pending]
  unfold writeLoop
  simp only [List.take_length]
  rw [if_pos done, unmap_linger]
  exact if_pos linger

end Conn

/-- The message that the reply should be, for a request. -/
def Reply.messageTo (reply : Reply) (request : KeepAliveRequest) : Message :=
  WebServer.messageTo reply.fs reply.pages request.target

namespace Session

variable {requests answered rest : List KeepAliveRequest} {base : List UInt8}
  {s next : Session}

/-- `read` takes no byte behind the request in progress and is not stopped by
a full buffer, the requested files can be mapped whole and do not change
before they are sent, and `writev` takes the whole response or fails with
`EAGAIN`. -/
def TakenWhole
    (requests : List KeepAliveRequest) (s : Session) : SessionStep → Prop
  | .read blocks last => s.OneAtATime requests (.read blocks last)
  | .process fs pages =>
      ∀ request, requests[s.replies.length]? = some request →
        fs.MapsWhole pages request.target
  | .write pages outcomes =>
      (∀ reply address, s.replies.getLast? = some reply →
        s.conn.fileAddress = .mapping address →
          pages address = reply.pages address) ∧
        ∀ outcome ∈ outcomes, outcome = .eagain ∨
          outcome = .accepted (s.conn.offered pages).length

theorem TakenWhole.oneAtATime
    {label : SessionStep} (taken : s.TakenWhole requests label) :
    s.OneAtATime requests label := by
  cases label with
  | read blocks last => exact taken
  | process fs pages =>
      exact fun request isNext => (taken request isNext).noEmptyFile
  | write pages outcomes =>
      intro fails
      rcases taken.2 _ fails with impossible | impossible <;> cases impossible

/-- The socket has taken the replies in order, but for the one that the
vectors hold. -/
inductive Sent (base : List UInt8) (s : Session) : Prop
  | idle (phase : s.phase ≠ .armed .epollOut)
      (sent :
        sentBytes s.conn.trace = base ++ s.replies.flatMap Reply.response)
  | sending {earlier : List Reply} {reply : Reply}
      (phase : s.phase = .armed .epollOut)
      (replies : s.replies = earlier ++ [reply])
      (offered : ∀ pages,
        (∀ address, s.conn.fileAddress = .mapping address →
          pages address = reply.pages address) →
            s.conn.offered pages = reply.response)
      (inside : s.conn.writeIdx ≤ reply.response.length)
      (sent :
        sentBytes s.conn.trace = base ++ earlier.flatMap Reply.response)

/-- What a run keeps, beside the order of the replies. -/
structure Wired
    (requests : List KeepAliveRequest) (base : List UInt8) (s : Session) :
    Prop where
  kept : s.Kept requests
  holds : ∃ log, s.conn.Holds log
  sent : Sent base s
  whole : ∀ (index : Nat) (reply : Reply) (request : KeepAliveRequest),
    s.replies[index]? = some reply → requests[index]? = some request →
      reply.fs.MapsWhole reply.pages request.target

theorem Stands.framed
    (stands : Stands s rest) (reads : s.phase ≠ .armed .epollOut)
    (fits : ∀ request ∈ rest, request.bytes.length ≤ readBufferSize) :
    s.conn.Framed := by
  cases stands with
  | sending phase => exact absurd phase reads
  | reading _ conn reading =>
      rw [conn]
      exact reading.head.1.framed.traced _
  | @received c d part block trace _ conn reading progress =>
      rw [conn]
      refine (reading.framed ?_).traced trace
      rcases progress with ahead | ⟨request, later, rfl, whole, _⟩
      · exact (ahead.length_part_lt fits).le
      · rw [← whole]
        exact fits request List.mem_cons_self

/-- No connection is dropped. -/
theorem Kept.ne_closed (kept : s.Kept requests) : s.phase ≠ .closed := by
  intro closed
  obtain ⟨_, _, _, _, stands⟩ := kept
  cases stands with
  | reading phase => rw [closed] at phase; cases phase
  | received phase => rw [closed] at phase; cases phase
  | sending phase => rw [closed] at phase; cases phase

theorem wired_start
    (slot : Conn) (sockfd : Int) (address : SockAddr)
    (requests : List KeepAliveRequest) :
    (start slot sockfd address (bytesOf requests)).Wired requests
      (sentBytes slot.trace) where
  kept := kept_start slot sockfd address requests
  holds := ⟨_, Conn.holds_init _⟩
  sent := by
    refine .idle (fun impossible => by cases impossible) ?_
    simp [start, Conn.initWith, Conn.init, Conn.emit, Event.sentBytes]
  whole := fun index reply request isReply => nomatch isReply

/-! ## Steps -/

theorem wired_read
    {blocks : List (List UInt8)} {last : RecvEnd}
    (wired : s.Wired requests base) (keeps : next.Kept requests)
    (framed : s.phase = .armed .epollIn → s.conn.Framed)
    (stepped : s.step (.read blocks last) = some next) :
    next.Wired requests base := by
  obtain ⟨_, holds, sent, whole⟩ := wired
  simp only [step] at stepped
  split at stepped
  · next enabled =>
      obtain ⟨phase, _, receivable, _⟩ := enabled
      obtain ⟨log, holds⟩ := holds
      have unchanged :
          sentBytes (s.conn.read blocks last).2.trace =
              sentBytes s.conn.trace ∧
            (s.conn.read blocks last).2.Holds log := by
        rcases Conn.read_snd (framed phase) receivable last with same | block
        · rw [same]
          exact ⟨rfl, holds⟩
        · rw [block]
          exact ⟨rfl, holds.of_eq rfl rfl⟩
      cases sent with
      | sending isOut => rw [phase] at isOut; cases isOut
      | idle _ sent =>
          rcases returned : s.conn.read blocks last with ⟨_ | _, c⟩
          · rw [returned] at stepped
            cases stepped
            exact absurd rfl keeps.ne_closed
          · rw [returned] at stepped unchanged
            cases stepped
            exact
              { kept := keeps
                holds := ⟨log, unchanged.2⟩
                sent :=
                  .idle (fun impossible => by cases impossible)
                    (unchanged.1.trans sent)
                whole := whole }
  · cases stepped

theorem wired_process
    {fs : FileSystem} {pages : Nat → List UInt8}
    (wired : s.Wired requests base) (keeps : next.Kept requests)
    (framed : s.phase = .queued → s.conn.Framed)
    (taken : s.TakenWhole requests (.process fs pages))
    (stepped : s.step (.process fs pages) = some next) :
    next.Wired requests base := by
  obtain ⟨_, holds, sent, whole⟩ := wired
  simp only [step] at stepped
  split at stepped
  · next queued =>
      have frame := framed queued
      have unsent := Conn.sentBytes_process frame fs
      obtain ⟨log, holds⟩ := holds
      have read := holds.processRead frame fs
      cases sent with
      | sending isOut => rw [queued] at isOut; cases isOut
      | idle _ sent =>
          split at stepped
          · next c waits =>
              cases stepped
              rw [waits] at read
              have processed := process_of_waits waits
              refine
                { kept := keeps
                  holds := ⟨log, ?_⟩
                  sent :=
                    .idle (fun impossible => by cases impossible)
                      (unsent.trans sent)
                  whole := whole }
              show (s.conn.process fs).Holds log
              rw [processed]
              exact read.of_eq rfl rfl
          · next code c answers result =>
              rw [result] at read
              split at stepped
              · next written =>
                  cases stepped
                  have processed :=
                    process_of_written result answers written
                  have nextHolds :
                      ∃ log, (s.conn.process fs).Holds log := by
                    rw [processed]
                    exact ⟨_, (read.processWrite code).of_eq rfl rfl⟩
                  refine
                    { kept := keeps
                      holds := nextHolds
                      sent := ?_
                      whole := ?_ }
                  · refine
                      @Sent.sending base _ s.replies _ rfl rfl ?_ ?_
                        (unsent.trans sent)
                    · show ∀ others : Nat → List UInt8, _ →
                        (s.conn.process fs).offered others = _
                      rw [processed]
                      intro others same
                      exact Conn.offered_eq_of_written written same
                    · show (s.conn.process fs).writeIdx ≤ _
                      rw [processed]
                      exact
                        Conn.writeIdx_le_length_offered read pages written
                  · intro index reply request isReply isRequest
                    rw [List.getElem?_append] at isReply
                    split at isReply
                    · exact whole index reply request isReply isRequest
                    · next behind =>
                        rw [List.getElem?_singleton] at isReply
                        split at isReply
                        · next isFirst =>
                            cases isReply
                            have isLast : index = s.replies.length := by
                              omega
                            exact taken request (isLast ▸ isRequest)
                        · cases isReply
              · cases stepped
                exact absurd rfl keeps.ne_closed
  · cases stepped

theorem wired_write
    {pages : Nat → List UInt8} {outcomes : List WritevOutcome}
    (wired : s.Wired requests base) (keeps : next.Kept requests)
    (taken : s.TakenWhole requests (.write pages outcomes))
    (stepped : s.step (.write pages outcomes) = some next) :
    next.Wired requests base := by
  obtain ⟨⟨_, _, _, _, stands⟩, holds, sent, whole⟩ := wired
  obtain ⟨samePages, takes⟩ := taken
  simp only [step] at stepped
  split at stepped
  · next isOut =>
      cases stands with
      | reading phase => rw [isOut] at phase; cases phase
      | received phase => rw [isOut] at phase; cases phase
      | sending _ pending linger _ =>
          cases sent with
          | idle phase => exact absurd isOut phase
          | @sending earlier reply _ replies offered inside sent =>
              have isLast : s.replies.getLast? = some reply := by
                rw [replies, List.getLast?_concat]
              have isResponse :=
                offered pages fun address =>
                  samePages reply address isLast
              cases outcomes with
              | nil =>
                  unfold Conn.write at stepped
                  rw [if_neg pending] at stepped
                  cases stepped
              | cons outcome later =>
                  rcases takes outcome List.mem_cons_self with rfl | rfl
                  · unfold Conn.write at stepped
                    rw [if_neg pending] at stepped
                    simp only [Conn.writeLoop, armedFor_modfd] at stepped
                    cases stepped
                    exact
                      { kept := keeps
                        holds :=
                          holds.imp fun _ holds => holds.of_eq rfl rfl
                        sent :=
                          .sending rfl replies offered inside
                            ((Conn.sentBytes_modfd _ _).trans sent)
                        whole := whole }
                  · rw [← isResponse] at inside
                    rw [Conn.write_whole pending inside linger] at stepped
                    simp only [armedFor_modfd] at stepped
                    cases stepped
                    generalize shape :
                      (s.conn.emit (.sent (s.conn.offered pages))).emit
                        .responseSent = d at keeps
                    refine
                      { kept := keeps
                        holds :=
                          ⟨_, (Conn.holds_init d.unmap).of_eq rfl rfl⟩
                        sent :=
                          .idle (fun impossible => by cases impossible) ?_
                        whole := whole }
                    refine (Conn.sentBytes_modfd _ _).trans ?_
                    refine (sentBytes_unmap d).1.trans ?_
                    rw [← shape, replies, isResponse]
                    simp [sent, Event.sentBytes]
  · cases stepped

theorem wired_step
    (requests : List KeepAliveRequest)
    (fits : ∀ request ∈ requests, request.bytes.length ≤ readBufferSize)
    (base : List UInt8) (s : Session) (label : SessionStep) (next : Session)
    (wired : s.Wired requests base) (taken : s.TakenWhole requests label)
    (stepped : s.step label = some next) : next.Wired requests base := by
  have keeps :=
    kept_step_of_each requests fits s label next wired.kept
      taken.oneAtATime stepped
  have framed : s.phase ≠ .armed .epollOut → s.conn.Framed := by
    intro reads
    obtain ⟨answered, rest, split, _, stands⟩ := wired.kept
    refine stands.framed reads fun request member => ?_
    exact fits request (split ▸ List.mem_append_right answered member)
  cases label with
  | read blocks last =>
      refine wired_read wired keeps (fun phase => framed ?_) stepped
      rw [phase]
      exact nofun
  | process fs pages =>
      refine wired_process wired keeps (fun phase => framed ?_) taken stepped
      rw [phase]
      exact nofun
  | write pages outcomes => exact wired_write wired keeps taken stepped

theorem flatMap_response_eq
    {replies : List Reply}
    (answers :
      List.Forall₂
        (fun reply request =>
          Reply.response reply = render (reply.messageTo request))
        replies answered) :
    replies.flatMap Reply.response =
      (List.zipWith Reply.messageTo replies answered).flatMap render := by
  induction answers with
  | nil => rfl
  | cons same _ inductionHypothesis =>
      rw [List.flatMap_cons, List.zipWith_cons_cons, List.flatMap_cons,
        same, inductionHypothesis]

theorem delimited_of_mem_zipWith
    {replies : List Reply} {message : Message}
    (member : message ∈ List.zipWith Reply.messageTo replies answered) :
    message.Delimited := by
  obtain ⟨index, _, rfl⟩ := List.mem_iff_getElem.mp member
  rw [List.getElem_zipWith]
  exact delimited_messageTo _ _ _

/-- A request that is answered without a file, by one `writev`. -/
theorem takenWhole_serve
    (requests : List KeepAliveRequest) (request : KeepAliveRequest)
    (s : Session) {fs : FileSystem} {pages : Nat → List UInt8}
    (first : requests[s.replies.length]? = some request)
    (fresh : s.conn.readIdx = 0)
    (maps : ∀ target, fs.MapsWhole pages target) {sent : Nat}
    (offers : ∀ middle,
      run step s [.read [request.bytes] .eagain, .process fs pages] =
        some middle →
          middle.conn.fileAddress = .null ∧
            (middle.conn.offered pages).length = sent) :
    StepsMeet step (TakenWhole requests) s
      (serve request fs pages sent) := by
  refine
    ⟨⟨rfl, fun other same => ?_⟩,
      fun middle received => ⟨fun other _ => maps other.target,
        fun last processed => ⟨?_, fun _ _ => trivial⟩⟩⟩
  · rw [first] at same
    cases same
    simp [fresh]
  · have ran :
        run step s [.read [request.bytes] .eagain, .process fs pages] =
          some last := by
      simp [run, received, processed]
    obtain ⟨isNull, length⟩ := offers last ran
    refine ⟨fun reply address _ mapped => ?_, fun outcome member => ?_⟩
    · rw [isNull] at mapped
      cases mapped
    · rw [List.mem_singleton.mp member, length]
      exact .inr rfl

end Session

end LinuxNet.WebServer
