import LinuxNet.WebServer.HeadGrammar
import LinuxNet.WebServer.Response

/-!
# What the handlers leave behind

One inversion lemma for each method that `main` and the workers call on a
connection: `do_request`, `write` and `process`.  They give the fields that
matter outside the connection, its descriptor and its mapping, and the events
that concern these two.  `processRead_eq` separates the parsing of a request
from the file system: `process_read` is the same function for all file
systems, followed by `do_request` when a request is complete.
-/

namespace LinuxNet.WebServer

open LinuxNet.CString LinuxNet.CInt

/-- Events that concern no descriptor and no mapping. -/
def Event.IsQuiet : Event → Prop
  | .store _ | .scan _ _ | .sum _ | .vsnprintf _ | .sent _
  | .responseSent => True
  | _ => False

theorem Event.IsParsing.isQuiet
    {event : Event} (parsing : event.IsParsing) : event.IsQuiet := by
  cases event <;> trivial

/-- `FILENAME_LEN - len - 1`. -/
def urlRoom : Nat := filenameLen - docRoot.length - 1

/-- `stat` finds a file that everyone may read and that is no directory. -/
def FileSystem.Serves
    (fs : FileSystem) (path : List UInt8) (fileStat : FileStat) : Prop :=
  fs.stat path = some fileStat ∧ fileStat.stMode &&& 0o4 ≠ 0 ∧
    fileStat.stMode &&& 0o170000 ≠ 0o40000

namespace Conn

def Since (kind : Event → Prop) (c d : Conn) : Prop :=
  ∃ events, d.trace = c.trace ++ events ∧ ∀ event ∈ events, kind event

section Since

variable {kind : Event → Prop} {c d e : Conn}

theorem Since.of_trace_eq (trace_eq : d.trace = c.trace) :
    Since kind c d :=
  ⟨[], by rw [trace_eq, List.append_nil], by simp⟩

theorem Since.single
    {event : Event} (ofKind : kind event)
    (trace_eq : d.trace = c.trace ++ [event]) : Since kind c d :=
  ⟨[event], trace_eq, by simpa using ofKind⟩

theorem Since.trans (first : Since kind c d) (second : Since kind d e) :
    Since kind c e := by
  obtain ⟨events, shape, ofKind⟩ := first
  obtain ⟨later, laterShape, laterOfKind⟩ := second
  refine
    ⟨events ++ later, by rw [laterShape, shape, List.append_assoc],
      fun event member => ?_⟩
  rcases List.mem_append.mp member with inFirst | inSecond
  · exact ofKind event inFirst
  · exact laterOfKind event inSecond

theorem Since.mono
    {wider : Event → Prop} (implies : ∀ event, kind event → wider event)
    (since : Since kind c d) : Since wider c d := by
  obtain ⟨events, shape, ofKind⟩ := since
  exact ⟨events, shape, fun event member => implies event (ofKind event member)⟩

end Since

structure Quiet (c d : Conn) : Prop where
  sockfd_eq : d.sockfd = c.sockfd
  fileAddress_eq : d.fileAddress = c.fileAddress
  fileStat_eq : d.fileStat = c.fileStat
  since : Since Event.IsQuiet c d

theorem Quiet.of_trace_eq
    {c d : Conn} (sockfd_eq : d.sockfd = c.sockfd)
    (fileAddress_eq : d.fileAddress = c.fileAddress)
    (fileStat_eq : d.fileStat = c.fileStat)
    (trace_eq : d.trace = c.trace) : Quiet c d where
  sockfd_eq := sockfd_eq
  fileAddress_eq := fileAddress_eq
  fileStat_eq := fileStat_eq
  since := .of_trace_eq trace_eq

theorem Quiet.refl (c : Conn) : Quiet c c :=
  .of_trace_eq rfl rfl rfl rfl

/-- `process_read` is quiet unless it stores outside `m_read_buf`. -/
theorem ReadsOnly.quiet
    {c d : Conn} (reads : ReadsOnly c d) (inside : StoresInside c d) :
    Quiet c d where
  sockfd_eq := (reads.socket_eq inside).1
  fileAddress_eq := reads.fileAddress_eq
  fileStat_eq := reads.fileStat_eq
  since :=
    Since.mono (fun _ parsing => Event.IsParsing.isQuiet parsing)
      reads.trace_eq

theorem PrintsOnly.quiet {c d : Conn} (prints : PrintsOnly c d) :
    Quiet c d where
  sockfd_eq := prints.sockfd_eq
  fileAddress_eq := prints.fileAddress_eq
  fileStat_eq := prints.fileStat_eq
  since := by
    obtain ⟨sizes, shape⟩ := prints.trace_eq
    refine ⟨sizes.map Event.vsnprintf, shape, fun event member => ?_⟩
    obtain ⟨size, _, rfl⟩ := List.mem_map.mp member
    trivial

theorem quiet_init (c : Conn) : Quiet c c.init :=
  .of_trace_eq rfl rfl rfl rfl

/-- The blocks that `recv` can deliver: no empty ones, and no more than the
length asked for. -/
def Receivable (c : Conn) (blocks : List (List UInt8)) : Prop :=
  [] ∉ blocks ∧ c.readIdx + blocks.flatten.length ≤ readBufferSize

instance (c : Conn) (blocks : List (List UInt8)) :
    Decidable (c.Receivable blocks) :=
  inferInstanceAs (Decidable (_ ∧ _))

theorem foldl_receive
    {c : Conn} (framed : c.Framed) {blocks : List (List UInt8)}
    (room : c.Room blocks.flatten) :
    blocks.foldl receive c = c.receive blocks.flatten := by
  induction blocks generalizing c with
  | nil =>
      exact (receive_nil c).symm
  | cons block blocks inductionHypothesis =>
      have inside : c.readIdx ≤ c.readBuf.length := by
        rw [framed.length_eq]
        exact framed.readIdx_le
      unfold Room at room
      rw [List.flatten_cons, List.length_append] at room
      have firstRoom : c.Room block := by
        unfold Room
        omega
      have laterRoom : (c.receive block).Room blocks.flatten := by
        show c.readIdx + block.length + blocks.flatten.length ≤
          readBufferSize
        omega
      rw [List.foldl_cons,
        inductionHypothesis (framed.receive firstRoom) laterRoom,
        receive_append c block blocks.flatten inside, List.flatten_cons]

/-- `read` returns true when it was not called on a full buffer and the
socket was drained. -/
theorem read_fst (c : Conn) (blocks : List (List UInt8)) (last : RecvEnd) :
    (c.read blocks last).1 = true ↔
      c.readIdx < readBufferSize ∧ last = .eagain := by
  unfold read
  split
  · simp
    omega
  · simp
    omega

theorem read_snd
    {c : Conn} (framed : c.Framed) {blocks : List (List UInt8)}
    (receivable : c.Receivable blocks) (last : RecvEnd) :
    (c.read blocks last).2 = c ∨
      (c.read blocks last).2 = c.receive blocks.flatten := by
  unfold read
  split
  · exact .inl rfl
  · exact .inr (foldl_receive framed receivable.2)

theorem Framed.read
    {c : Conn} (framed : c.Framed) {blocks : List (List UInt8)}
    (receivable : c.Receivable blocks) (last : RecvEnd) :
    (c.read blocks last).2.Framed := by
  rcases read_snd framed receivable last with same | received
  · rw [same]
    exact framed
  · rw [received]
    exact framed.receive receivable.2

theorem quiet_read
    {c : Conn} (framed : c.Framed) {blocks : List (List UInt8)}
    (receivable : c.Receivable blocks) (last : RecvEnd) :
    Quiet c (c.read blocks last).2 := by
  rcases read_snd framed receivable last with same | received
  · rw [same]
    exact .refl c
  · rw [received]
    exact .of_trace_eq rfl rfl rfl rfl

/-- What `do_request` answers and leaves behind. -/
inductive Requested (fs : FileSystem) (c : Conn) : HttpCode → Conn → Prop
  | missing (stat : fs.stat (cstr c.realFileFor 0) = none) :
      Requested fs c .noResource { c with realFile := c.realFileFor }
  | refused {code : HttpCode} {fileStat : FileStat}
      (stat : fs.stat (cstr c.realFileFor 0) = some fileStat)
      (codeEq : code = .forbiddenRequest ∨ code = .badRequest) :
      Requested fs c code
        { c with realFile := c.realFileFor, fileStat := fileStat }
  | unmapped {fileStat : FileStat}
      (serves : fs.Serves (cstr c.realFileFor 0) fileStat)
      (failed : fs.mmap (cstr c.realFileFor 0) fileStat.stSize = none) :
      Requested fs c .fileRequest
        { c with
          realFile := c.realFileFor, fileStat := fileStat
          fileAddress := .mapFailed }
  | mapped {fileStat : FileStat} {address : Nat}
      (serves : fs.Serves (cstr c.realFileFor 0) fileStat)
      (succeeded :
        fs.mmap (cstr c.realFileFor 0) fileStat.stSize = some address) :
      Requested fs c .fileRequest
        { c with
          realFile := c.realFileFor, fileStat := fileStat
          fileAddress := .mapping address
          trace := c.trace ++ [.mmap address fileStat.stSize] }

theorem requested_doRequest (fs : FileSystem) (c : Conn) :
    Requested fs c (c.doRequest fs).1 (c.doRequest fs).2 := by
  unfold doRequest
  simp only
  cases stat : fs.stat (cstr c.realFileFor 0) with
  | none => exact .missing stat
  | some fileStat =>
      simp only
      split
      · exact .refused stat (.inl rfl)
      · next readable =>
          split
          · exact .refused stat (.inr rfl)
          · next notDirectory =>
              have serves : fs.Serves (cstr c.realFileFor 0) fileStat :=
                ⟨stat, readable, notDirectory⟩
              cases mapped :
                fs.mmap (cstr c.realFileFor 0) fileStat.stSize with
              | none => exact .unmapped serves mapped
              | some address => exact .mapped serves mapped

section Requested

variable {fs : FileSystem} {c d : Conn} {code : HttpCode}

theorem Requested.sockfd_eq (requested : Requested fs c code d) :
    d.sockfd = c.sockfd := by
  cases requested <;> rfl

theorem Requested.writeIdx_eq (requested : Requested fs c code d) :
    d.writeIdx = c.writeIdx := by
  cases requested <;> rfl

theorem Requested.writeBuf_eq (requested : Requested fs c code d) :
    d.writeBuf = c.writeBuf := by
  cases requested <;> rfl

theorem Requested.answered (requested : Requested fs c code d) :
    Answered code := by
  cases requested with
  | missing stat => exact .inr (.inl rfl)
  | refused stat codeEq =>
      rcases codeEq with rfl | rfl
      · exact .inr (.inr (.inl rfl))
      · exact .inl rfl
  | unmapped serves failed => exact .inr (.inr (.inr (.inr rfl)))
  | mapped serves succeeded => exact .inr (.inr (.inr (.inr rfl)))

end Requested

/-- The object after some calls of `writev`: they add to the trace only. -/
def Sends (c d : Conn) : Prop :=
  ∃ events : List Event, (∀ event ∈ events, event.IsQuiet) ∧
    d = { c with trace := c.trace ++ events }

theorem Sends.refl (c : Conn) : Sends c c :=
  ⟨[], by simp, by simp⟩

theorem Sends.emit
    {c d : Conn} {event : Event} (quiet : event.IsQuiet)
    (sends : Sends (c.emit event) d) : Sends c d := by
  obtain ⟨events, allQuiet, rfl⟩ := sends
  refine ⟨event :: events, ?_, by simp [Conn.emit]⟩
  intro member inside
  rcases List.mem_cons.mp inside with rfl | later
  · exact quiet
  · exact allQuiet member later

theorem Sends.quiet {c d : Conn} (sends : Sends c d) : Quiet c d := by
  obtain ⟨events, allQuiet, rfl⟩ := sends
  exact ⟨rfl, rfl, rfl, events, rfl, allQuiet⟩

theorem Sends.writeIdx_eq {c d : Conn} (sends : Sends c d) :
    d.writeIdx = c.writeIdx := by
  obtain ⟨events, _, rfl⟩ := sends
  rfl

theorem Sends.linger_eq {c d : Conn} (sends : Sends c d) :
    d.linger = c.linger := by
  obtain ⟨events, _, rfl⟩ := sends
  rfl

/-- The returns of `write`: the interest its descriptor is armed for when it
returns true, `none` when it returns false, and the object it leaves. -/
inductive WriteReturns (c : Conn) : Option Interest → Conn → Prop
  | idle (empty : c.writeIdx = 0) :
      WriteReturns c (some .epollIn) (c.modfd .epollIn).init
  | again {d : Conn} (pending : c.writeIdx ≠ 0) (sends : Sends c d) :
      WriteReturns c (some .epollOut) (d.modfd .epollOut)
  | error {d : Conn} (pending : c.writeIdx ≠ 0) (sends : Sends c d) :
      WriteReturns c none d.unmap
  | kept {d : Conn} (pending : c.writeIdx ≠ 0) (sends : Sends c d)
      (linger : c.linger = true) :
      WriteReturns c (some .epollIn) (d.unmap.init.modfd .epollIn)
  | dropped {d : Conn} (pending : c.writeIdx ≠ 0) (sends : Sends c d)
      (linger : c.linger = false) :
      WriteReturns c none (d.unmap.modfd .epollIn)

theorem WriteReturns.sends
    {c d e : Conn} {ret : Option Interest} (pending : c.writeIdx ≠ 0)
    (sends : ∀ last, Sends d last → Sends c last)
    (linger_eq : d.linger = c.linger) (writeIdx_eq : d.writeIdx = c.writeIdx)
    (returns : WriteReturns d ret e) : WriteReturns c ret e := by
  cases returns with
  | idle empty => exact absurd (writeIdx_eq ▸ empty) pending
  | again _ later => exact .again pending (sends _ later)
  | error _ later => exact .error pending (sends _ later)
  | kept _ later linger =>
      exact .kept pending (sends _ later) (linger_eq ▸ linger)
  | dropped _ later linger =>
      exact .dropped pending (sends _ later) (linger_eq ▸ linger)

theorem unmap_linger (c : Conn) : c.unmap.linger = c.linger := by
  unfold unmap
  split <;> rfl

theorem writeReturns_writeLoop
    (pages : Nat → List UInt8) {outcomes : List WritevOutcome} {c : Conn}
    {toSend haveSend : Int} {ret : Bool} (pending : c.writeIdx ≠ 0)
    (returned : (writeLoop pages outcomes c toSend haveSend).ret = some ret) :
    ∃ interest, ret = interest.isSome ∧
      WriteReturns c interest
        (writeLoop pages outcomes c toSend haveSend).conn := by
  induction outcomes generalizing c toSend haveSend with
  | nil =>
      cases returned
  | cons outcome rest inductionHypothesis =>
      cases outcome with
      | eagain =>
          cases returned
          exact ⟨_, rfl, .again pending (.refl c)⟩
      | error =>
          cases returned
          exact ⟨_, rfl, .error pending (.refl c)⟩
      | accepted temp =>
          have quietSent :
              (Event.sent ((c.offered pages).take temp)).IsQuiet := trivial
          have quietDone : Event.responseSent.IsQuiet := trivial
          unfold writeLoop at returned ⊢
          simp only at returned ⊢
          split at returned
          · next enough =>
              rw [if_pos enough]
              have sends :
                  Sends c
                    ((c.emit (.sent ((c.offered pages).take temp))).emit
                      .responseSent) :=
                .emit quietSent (.emit quietDone (.refl _))
              split at returned
              · next linger =>
                  cases returned
                  rw [if_pos linger]
                  rw [unmap_linger] at linger
                  exact ⟨_, rfl, .kept pending sends linger⟩
              · next linger =>
                  cases returned
                  rw [if_neg linger]
                  rw [unmap_linger] at linger
                  exact
                    ⟨_, rfl,
                      .dropped pending sends (Bool.eq_false_iff.mpr linger)⟩
          · next more =>
              rw [if_neg more]
              have stillPending :
                  (c.emit
                    (.sent ((c.offered pages).take temp))).writeIdx ≠ 0 :=
                pending
              obtain ⟨interest, retEq, later⟩ :=
                inductionHypothesis stillPending returned
              exact
                ⟨interest, retEq,
                  later.sends pending (fun last => Sends.emit quietSent)
                    rfl rfl⟩

theorem writeReturns_write
    (pages : Nat → List UInt8) {c : Conn} {outcomes : List WritevOutcome}
    {ret : Bool} (returned : (c.write pages outcomes).ret = some ret) :
    ∃ interest, ret = interest.isSome ∧
      WriteReturns c interest (c.write pages outcomes).conn := by
  unfold write at returned ⊢
  split at returned
  · next empty =>
      rw [if_pos empty]
      cases returned
      exact ⟨_, rfl, .idle empty⟩
  · next pending =>
      rw [if_neg pending]
      exact writeReturns_writeLoop pages pending returned

/-! ## `process_read` and the file system -/

theorem doRequest_noFiles (c : Conn) :
    c.doRequest noFiles =
      (.noResource, { c with realFile := c.realFileFor }) :=
  rfl

theorem drop_realFileFor (c : Conn) :
    c.realFileFor.drop (docRoot.length + urlRoom) =
      c.realFile.drop (docRoot.length + urlRoom) := by
  have copied : (c.urlText.take urlRoom).length ≤ urlRoom :=
    List.length_take_le _ _
  unfold realFileFor
  refine List.drop_left' ?_
  show
    (docRoot ++ c.urlText.take urlRoom ++
      List.replicate (urlRoom - (c.urlText.take urlRoom).length) 0).length =
    _
  rw [List.length_append, List.length_append, List.length_replicate]
  omega

theorem realFileFor_renamed (c : Conn) :
    { c with realFile := c.realFileFor }.realFileFor = c.realFileFor := by
  have rest := drop_realFileFor c
  generalize named : c.realFileFor = name at rest
  show
    docRoot ++ c.urlText.take urlRoom ++ List.replicate _ 0 ++
        name.drop (docRoot.length + urlRoom) =
      name
  rw [rest]
  exact named

/-- The last byte of `m_real_file`, which `do_request` leaves alone, is the
NUL of `init`. -/
def EndsInNul (c : Conn) : Prop :=
  c.realFile.drop (docRoot.length + urlRoom) = [0]

/-- `m_real_file` is the root and what fits of the target. -/
theorem cstr_realFileFor_of_endsInNul
    {c : Conn} (ends : c.EndsInNul) :
    cstr c.realFileFor 0 = docRoot ++ c.urlText.take urlRoom := by
  have nulFree : 0 ∉ docRoot ++ c.urlText.take urlRoom := by
    rw [List.mem_append, not_or]
    refine ⟨by decide, fun member => ?_⟩
    have inside := List.mem_of_mem_take member
    unfold urlText at inside
    split at inside
    · cases inside
    · exact cstr_nul_free _ _ inside
  have shape :
      c.realFileFor.drop 0 =
        (docRoot ++ c.urlText.take urlRoom) ++
          0 :: List.replicate (urlRoom - (c.urlText.take urlRoom).length)
            0 := by
    show
      docRoot ++ c.urlText.take urlRoom ++
          List.replicate (urlRoom - (c.urlText.take urlRoom).length) 0 ++
          c.realFile.drop (docRoot.length + urlRoom) = _
    rw [ends, List.append_assoc, ← List.replicate_succ',
      List.replicate_succ]
  exact cstr_eq_of_drop_eq shape nulFree

theorem doRequest_renamed (fs : FileSystem) (c : Conn) :
    { c with realFile := c.realFileFor }.doRequest fs = c.doRequest fs := by
  unfold doRequest
  rw [realFileFor_renamed]

def answeredBy (fs : FileSystem) : HttpCode × Conn → HttpCode × Conn
  | (.noResource, c) => c.doRequest fs
  | result => result

def Turn.answeredBy (fs : FileSystem) : Turn → Turn
  | .done code c =>
      .done (Conn.answeredBy fs (code, c)).1 (Conn.answeredBy fs (code, c)).2
  | turn => turn

theorem answeredBy_doRequest (fs : FileSystem) (c : Conn) :
    answeredBy fs (c.doRequest noFiles) = c.doRequest fs := by
  rw [doRequest_noFiles]
  exact doRequest_renamed fs c

theorem dispatchLine_eq (fs : FileSystem) (c : Conn) :
    c.dispatchLine fs = Turn.answeredBy fs (c.dispatchLine noFiles) := by
  have request :
      ∀ d : Conn,
        Turn.done (d.doRequest fs).1 (d.doRequest fs).2 =
          Turn.answeredBy fs
            (.done (d.doRequest noFiles).1 (d.doRequest noFiles).2) := by
    intro d
    show
      _ =
        Turn.done (answeredBy fs (d.doRequest noFiles)).1
          (answeredBy fs (d.doRequest noFiles)).2
    rw [answeredBy_doRequest]
  unfold dispatchLine
  simp only
  split
  · split <;> rfl
  · split
    · rfl
    · exact request _
    · rfl
  · split
    · exact request _
    · rfl

theorem turn_fileSystem (fs : FileSystem) (lineStatus : LineStatus) (c : Conn) :
    c.turn fs lineStatus = Turn.answeredBy fs (c.turn noFiles lineStatus) := by
  unfold turn
  split
  · exact dispatchLine_eq fs _
  · rfl

theorem processReadLoop_fileSystem
    (fs : FileSystem) (fuel : Nat) (lineStatus : LineStatus) (c : Conn) :
    processReadLoop fs fuel lineStatus c =
      answeredBy fs (processReadLoop noFiles fuel lineStatus c) := by
  induction fuel generalizing lineStatus c with
  | zero => rfl
  | succ fuel inductionHypothesis =>
      unfold processReadLoop
      rw [turn_fileSystem fs]
      cases c.turn noFiles lineStatus with
      | again next d => exact inductionHypothesis next d
      | done code d => rfl

/-- `process_read` parses in the same way whatever the files. -/
theorem processRead_fileSystem (fs : FileSystem) (c : Conn) :
    c.processRead fs = answeredBy fs (c.processRead noFiles) :=
  processReadLoop_fileSystem fs _ _ _

/-- The path that `process_read` looks up, if a request is complete. -/
def requestedPath (c : Conn) : Option (List UInt8) :=
  match c.processRead noFiles with
  | (.noResource, d) => some (cstr d.realFile 0)
  | _ => none

/-- `process_read` asks for more bytes, refuses the request, or looks up the
requested path. -/
theorem processRead_cases
    {c : Conn} (framed : c.Framed) (fs : FileSystem) :
    ∃ d, d.Framed ∧ ReadsOnly c d ∧
      (c.processRead fs = (.noRequest, d) ∨
        c.processRead fs = (.badRequest, d) ∨
        c.requestedPath = some (cstr d.realFileFor 0) ∧
          c.processRead fs = d.doRequest fs) := by
  obtain ⟨d, dFramed, reads, ended⟩ :=
    returns_cases framed (returns_processRead framed noFiles)
  refine ⟨d, dFramed, reads, ?_⟩
  rw [processRead_fileSystem fs]
  rcases result : c.processRead noFiles with ⟨code, last⟩
  rw [result] at ended
  rcases ended with ⟨codeEq | codeEq, lastEq⟩ | requested
  · subst codeEq lastEq
    exact .inl rfl
  · subst codeEq lastEq
    exact .inr (.inl rfl)
  · refine .inr (.inr ⟨?_, ?_⟩)
    · rw [doRequest_noFiles] at requested
      unfold requestedPath
      rw [result, requested]
    · exact (congrArg (answeredBy fs) requested).trans
        (answeredBy_doRequest fs d)

/-- What is stored up to an object in between is stored up to the last one. -/
theorem StoresInside.of_since
    {kind laterKind : Event → Prop} {c d e : Conn}
    (inside : StoresInside c e) (first : Since kind c d)
    (later : Since laterKind d e) : StoresInside c d := by
  obtain ⟨events, shape, _⟩ := first
  obtain ⟨more, moreShape, _⟩ := later
  have whole : e.trace = c.trace ++ (events ++ more) := by
    rw [moreShape, shape, List.append_assoc]
  rw [storesInside_iff whole, List.forall_mem_append] at inside
  exact (storesInside_iff shape).mpr inside.1

/-- The results of `process_read` that `process_write` gets, for an object
that has come to `d` when the request is looked up. -/
def Answers
    (fs : FileSystem) (c d : Conn) (code : HttpCode) (e : Conn) : Prop :=
  code = .badRequest ∧ e = d ∨
    c.requestedPath = some (cstr d.realFileFor 0) ∧ Requested fs d code e

/-- The three ways through `process`: the interest the descriptor is armed
for, `none` when it is closed, and the object left. -/
inductive ProcessEnds (fs : FileSystem) (c : Conn) :
    Option Interest → Conn → Prop
  | waits {d : Conn} (framed : d.Framed) (reads : ReadsOnly c d) :
      ProcessEnds fs c (some .epollIn) (d.modfd .epollIn)
  | answers {d e : Conn} {code : HttpCode} (reads : ReadsOnly c d)
      (answers : Answers fs c d code e) (framed : e.Framed)
      (written : (e.processWrite code).1 = true) :
      ProcessEnds fs c (some .epollOut)
        ((e.processWrite code).2.modfd .epollOut)
  | fails {d e : Conn} {code : HttpCode} (reads : ReadsOnly c d)
      (answers : Answers fs c d code e) (framed : e.Framed)
      (unwritten : (e.processWrite code).1 = false) :
      ProcessEnds fs c none
        ((e.processWrite code).2.closeConn.modfd .epollOut)

theorem processEnds_process
    {c : Conn} (framed : c.Framed) (fs : FileSystem) :
    ∃ interest, ProcessEnds fs c interest (c.process fs) := by
  obtain ⟨d, dFramed, reads, ended⟩ := processRead_cases framed fs
  unfold process
  rcases result : c.processRead fs with ⟨code, last⟩
  rw [result] at ended
  have answer :
      ∀ (returned : Bool) (next : Conn),
        last.processWrite code = (returned, next) →
          Answers fs c d code last → last.Framed →
            ∃ interest, ProcessEnds fs c interest
              (if returned then
                next.modfd .epollOut
              else
                next.closeConn.modfd .epollOut) := by
    intro returned next shape answers lastFramed
    cases returned with
    | false =>
        have unwritten := ProcessEnds.fails reads answers lastFramed
        rw [shape] at unwritten
        exact ⟨_, unwritten rfl⟩
    | true =>
        have written := ProcessEnds.answers reads answers lastFramed
        rw [shape] at written
        exact ⟨_, written rfl⟩
  rcases ended with waiting | refused | ⟨path, requested⟩
  · cases waiting
    exact ⟨_, .waits dFramed reads⟩
  · cases refused
    rcases shape : d.processWrite .badRequest with ⟨returned, next⟩
    have ends := answer returned next shape (.inl ⟨rfl, rfl⟩) dFramed
    simp only [shape]
    cases returned with
    | false => exact ends
    | true => exact ends
  · have requestedAs := requested_doRequest fs d
    have lastFramed := dFramed.doRequest fs
    rw [← requested] at requestedAs lastFramed
    rcases shape : last.processWrite code with ⟨returned, next⟩
    have ends :=
      answer returned next shape (.inr ⟨path, requestedAs⟩) lastFramed
    split
    · next same =>
        cases same
        rcases requestedAs.answered with h | h | h | h | h <;> cases h
    · next same =>
        cases same
        cases returned with
        | false =>
            rw [shape]
            exact ends
        | true =>
            rw [shape]
            exact ends

end Conn

end LinuxNet.WebServer
