import LinuxNet.WebServer.Segmentation
import LinuxNet.WebServer.Handlers
import LinuxNet.WebServer.TraceFree

/-!
# The reply to a request

A `KeepAliveRequest` is a head of the grammar that asks to keep the
connection and announces no body.  `replyTo` says what the server should send
for its target, in terms of the file system alone.  A connection that has
received the whole request, in any number of calls, queues that reply; one
that has received a part of it asks for more bytes.
-/

namespace LinuxNet.WebServer

open LinuxNet.CString LinuxNet.CInt

/-- A request without a body that asks to keep the connection. -/
structure KeepAliveRequest where
  bytes : List UInt8
  target : List UInt8
  headers : List (List UInt8)
  isHead : HeadOf bytes target headers []
  keepsAlive : KeepsAlive headers
  bodyless : contentLengthOf headers = 0

/-- The path of a target, cut to the length of `m_real_file`. -/
def fileName (target : List UInt8) : List UInt8 :=
  docRoot ++ target.take (filenameLen - docRoot.length - 1)

/-- The reply of a kept connection for a result other than a file. -/
def errorReply (code : HttpCode) : List UInt8 :=
  statusLine code ++ Conn.headersText true (bodyFor code []).length ++
    bodyFor code []

def replyTo
    (fs : FileSystem) (pages : Nat → List UInt8) (target : List UInt8) :
    List UInt8 :=
  match fs.stat (fileName target) with
  | none => errorReply .noResource
  | some fileStat =>
      if fileStat.stMode &&& 0o4 = 0 then
        errorReply .forbiddenRequest
      else if fileStat.stMode &&& 0o170000 = 0o40000 then
        errorReply .badRequest
      else
        statusLine .fileRequest ++
          Conn.headersText true (toInt fileStat.stSize) ++
          match fs.mmap (fileName target) fileStat.stSize with
          | none => []
          | some address => (pages address).take fileStat.stSize.toNat

def FileSystem.NoEmptyFile (fs : FileSystem) (target : List UInt8) : Prop :=
  ∀ fileStat, fs.Serves (fileName target) fileStat → fileStat.stSize ≠ 0

namespace Conn

theorem HeadRun.readsOnly
    {fs : FileSystem} {c last : Conn} (run : HeadRun fs c last)
    (head : c.InHead) : ReadsOnly c last := by
  induction run with
  | refl c => exact .refl c
  | @turn c next last state_ne turned rest inductionHypothesis =>
      have first := (Conn.turn_again head.framed turned).2.1
      by_cases state : next.checkState = .content
      · cases rest with
        | refl => exact first
        | turn state_ne _ _ => exact absurd state state_ne
      · exact first.trans (inductionHypothesis (head.again turned state))

/-- The object that looks up the file of a request. -/
structure Looks (request : KeepAliveRequest) (c e : Conn) : Prop where
  framed : e.Framed
  reads : ReadsOnly c e
  urlText_eq : e.urlText = request.target
  linger_eq : e.linger = true
  unread_eq : e.unread = []

/-- A fresh connection that receives the whole request looks up its file. -/
theorem processRead_whole
    (fs : FileSystem) (c : Conn) (request : KeepAliveRequest)
    (fits : request.bytes.length ≤ readBufferSize) :
    ∃ e, Looks request (c.init.receive request.bytes) e ∧
      (c.init.receive request.bytes).processRead fs = e.doRequest fs := by
  have startHead := (init_receive_atLine c fits).1.toInHead
  obtain ⟨d, blank⟩ := blankLineAt_of_headOf fs c fits request.isHead
  obtain ⟨target, headers, isHead, _, urlText, lingers, length, _⟩ :=
    headOf_of_blankLineAt fits blank
  obtain ⟨rfl, unread⟩ := HeadOf.unique request.isHead isHead
  have sameTarget := HeadOf.target_unique request.isHead isHead
  obtain ⟨e, run, state, fetch, nul⟩ := blank
  have eHead : e.InHead := run.inHead startHead (by rw [state]; decide)
  have blankTurn := blank_turn fs eHead state fetch nul
  rw [length, request.bodyless, if_neg (by decide)] at blankTurn
  have fetched := fetchLine_in_head eHead .lineOk
  rw [fetch] at fetched
  have dEq : d = e.passed (scanLine e.unread) := congrArg Prod.snd fetched
  have dFramed : d.Framed := by
    rw [dEq]
    exact eHead.framed.passed
  have reads : ReadsOnly (c.init.receive request.bytes) d := by
    rw [dEq]
    exact (run.readsOnly startHead).trans (.passed e _)
  refine ⟨d.entered, ?_, ?_⟩
  · exact
      { framed := dFramed.entered
        reads := reads.trans (.entered d)
        urlText_eq := urlText.trans sameTarget.symm
        linger_eq := lingers.mpr request.keepsAlive
        unread_eq := unread.symm }
  · rw [processRead_eq_iff startHead.framed, run.returns_iff]
    exact .done blankTurn

/-- In an object whose path has not been written since `init`, the path is
the one that the target names. -/
theorem cstr_realFileFor
    {e : Conn} (blank : e.realFile = List.replicate filenameLen 0) :
    cstr e.realFileFor 0 = fileName e.urlText := by
  have ends : e.EndsInNul := by
    unfold EndsInNul
    rw [blank, List.drop_replicate]
    rfl
  exact cstr_realFileFor_of_endsInNul ends

theorem Looks.path_eq
    {request : KeepAliveRequest} {c e : Conn}
    (looks : Looks request (c.init.receive request.bytes) e) :
    cstr e.realFileFor 0 = fileName request.target := by
  rw [cstr_realFileFor looks.reads.realFile_eq, looks.urlText_eq]

/-- `process_write` queues the reply for a result of `process_read`, on a
connection that is to be kept. -/
structure Replies
    (pages : Nat → List UInt8) (result : HttpCode × Conn)
    (reply : List UInt8) : Prop where
  written : (result.2.processWrite result.1).1 = true
  offered_eq : (result.2.processWrite result.1).2.offered pages = reply
  pending : (result.2.processWrite result.1).2.writeIdx ≠ 0
  linger_eq : (result.2.processWrite result.1).2.linger = true

section Replies

variable {pages : Nat → List UInt8} {c : Conn} {code : HttpCode}

theorem headersText_ne_nil (linger : Bool) (length : Int) :
    headersText linger length ≠ [] := by
  simp [headersText, crlf]

theorem replies_error
    (answered : Answered code) (notFile : code ≠ .fileRequest)
    (size : c.writeBuf.length = writeBufferSize) (empty : c.writeIdx = 0)
    (linger : c.linger = true) :
    Replies pages (code, c) (errorReply code) := by
  obtain ⟨next, queued, idxEq, writtenEq⟩ :=
    processWrite_errorResponse answered notFile size empty
  have lingerEq := (processWrite_printsOnly c code).linger_eq
  rw [linger] at writtenEq lingerEq
  refine ⟨by rw [queued], ?_, ?_, lingerEq⟩
  · rw [queued]
    exact (offered_queueBuffer pages next).trans writtenEq
  · rw [queued]
    show next.writeIdx ≠ 0
    rw [idxEq, writtenEq]
    simp [headersText_ne_nil]

/-- The bytes of the mapping that `m_file_address` designates. -/
def mappedBytes (pages : Nat → List UInt8) (c : Conn) : List UInt8 :=
  match c.fileAddress with
  | .mapping address => (pages address).take c.fileStat.stSize.toNat
  | _ => []

theorem replies_file
    (size : c.writeBuf.length = writeBufferSize) (empty : c.writeIdx = 0)
    (linger : c.linger = true) (nonempty : c.fileStat.stSize ≠ 0) :
    Replies pages (.fileRequest, c)
      (statusLine .fileRequest ++
        headersText true (toInt c.fileStat.stSize) ++
        c.mappedBytes pages) := by
  obtain ⟨next, queued, idxEq, writtenEq, addressEq, statEq⟩ :=
    processWrite_fileRequest size empty nonempty
  have lingerEq := (processWrite_printsOnly c .fileRequest).linger_eq
  rw [linger] at writtenEq lingerEq
  refine ⟨by rw [queued], ?_, ?_, lingerEq⟩
  · rw [queued, ← writtenEq]
    show next.written ++ next.queueFile.iovecBytes pages next.queueFile.iv1 = _
    unfold mappedBytes
    rw [← addressEq, ← statEq]
    simp only [queueFile, iovecBytes]
    cases next.fileAddress <;> rfl
  · rw [queued]
    show next.writeIdx ≠ 0
    rw [idxEq, writtenEq]
    simp [headersText_ne_nil]

/-- The reply does not depend on the trace. -/
theorem Looks.replies
    {request : KeepAliveRequest} {fs : FileSystem} {e : Conn}
    (looks : Looks request (c.init.receive request.bytes) e)
    (pages : Nat → List UInt8) (nonempty : fs.NoEmptyFile request.target) (trace : List Event) :
    (e.doRequest fs).1 ≠ .noRequest ∧
      Replies pages ((e.doRequest fs).1, (e.doRequest fs).2.traced trace)
        (replyTo fs pages request.target) := by
  have path := looks.path_eq
  have size : e.writeBuf.length = writeBufferSize := by
    rw [looks.reads.writeBuf_eq]
    exact List.length_replicate
  have empty : e.writeIdx = 0 := looks.reads.writeIdx_eq
  have linger := looks.linger_eq
  have missing : HttpCode.noResource ≠ .fileRequest := by decide
  have forbidden : HttpCode.forbiddenRequest ≠ .fileRequest := by decide
  have bad : HttpCode.badRequest ≠ .fileRequest := by decide
  refine ⟨doRequest_code_ne fs e, ?_⟩
  unfold doRequest replyTo
  simp only [path]
  cases stat : fs.stat (fileName request.target) with
  | none => exact replies_error (.inr (.inl rfl)) missing size empty linger
  | some fileStat =>
      simp only
      split
      · exact
          replies_error (.inr (.inr (.inl rfl))) forbidden size empty
            linger
      · next readable =>
          split
          · exact replies_error (.inl rfl) bad size empty linger
          · next notDirectory =>
              have someBytes := nonempty fileStat ⟨stat, readable, notDirectory⟩
              cases fs.mmap (fileName request.target) fileStat.stSize with
              | none => exact replies_file size empty linger someBytes
              | some address => exact replies_file size empty linger someBytes

end Replies

/-! ## A part of the request -/

/-- A part of a request does not hold a whole head. -/
theorem not_headOf_part
    {request : KeepAliveRequest} {part more target rest : List UInt8}
    {headers : List (List UInt8)} (split : request.bytes = part ++ more)
    (missing : more ≠ []) : ¬ HeadOf part target headers rest := by
  intro isHead
  have whole := HeadOf.append isHead more
  rw [← split] at whole
  obtain ⟨_, same⟩ := HeadOf.unique request.isHead whole
  exact missing (List.append_eq_nil_iff.mp same.symm).2

/-- A fresh connection that receives a part of a request waits. -/
theorem processRead_part
    (c : Conn) {request : KeepAliveRequest} {part more : List UInt8}
    (split : request.bytes = part ++ more) (missing : more ≠ [])
    (fits : request.bytes.length ≤ readBufferSize) :
    ((c.init.receive part).processRead noFiles).1 = .noRequest := by
  have partFits : part.length ≤ readBufferSize := by
    rw [split, List.length_append] at fits
    omega
  have head := (init_receive_atLine c partFits).1.toInHead
  have room : (c.init.receive part).Room more := by
    show 0 + part.length + more.length ≤ readBufferSize
    rw [split, List.length_append] at fits
    omega
  cases headEnd noFiles head with
  | body mid run state framed texts atLine =>
      obtain ⟨target, headers, isHead, _⟩ :=
        headOf_of_body c partFits state run
      exact absurd isHead (not_headOf_part split missing)
  | returned mid run midHead code last turned =>
      have returns : Returns noFiles .lineOk (c.init.receive part) code last :=
        run.returns_iff.mpr (.done turned)
      rw [(processRead_eq_iff head.framed noFiles).mpr returns]
      by_cases found : (scanLine mid.unread).1 = .lineOk
      · -- with the rest of the request the same turn would end the call
        have midRoom : mid.Room more := by
          unfold Room
          rw [(run.readsOnly head).readIdx_eq]
          exact room
        have turnedWhole :
            (mid.receive more).turn noFiles .lineOk =
              .done code (last.receive more) := by
          rw [turn_receive_of_found midHead midRoom found, turned]
          rfl
        have wholeReturns :
            Returns noFiles .lineOk ((c.init.receive part).receive more)
              code (last.receive more) :=
          (run.receive head room).returns_iff.mpr (.done turnedWhole)
        rw [receive_append c.init part more (Nat.zero_le _), ← split]
          at wholeReturns
        obtain ⟨e, looks, whole⟩ := processRead_whole noFiles c request fits
        have wholeFramed := (init_receive_atLine c fits).1.framed
        rw [processRead_eq_iff wholeFramed] at whole
        obtain ⟨_, same⟩ := wholeReturns.unique whole
        have lastFramed := midHead.framed.returns (.done turned)
        have unread : (last.receive more).unread = last.unread ++ more :=
          unread_receive lastFramed
        rw [same, doRequest_noFiles] at unread
        have empty : e.unread = last.unread ++ more := unread
        rw [looks.unread_eq] at empty
        exact absurd (List.append_eq_nil_iff.mp empty.symm).2 missing
      · have turnEq := turn_eq midHead.framed noFiles .lineOk
        rw [if_neg (fun atHand => midHead.state_ne atHand.1),
          if_neg found, turned] at turnEq
        injection turnEq with codeEq _

/-- The connection has received a part of a request since `init`, and each
`process_read` returned `NO_REQUEST`. -/
structure Reading (c : Conn) (part : List UInt8) (d : Conn) : Prop where
  after : After noFiles c.init part d
  state_ne : d.checkState ≠ .content

theorem reading_init (c : Conn) : Reading c [] c.init := by
  have nothing : ([] : List UInt8).length ≤ readBufferSize :=
    Nat.zero_le _
  have head := (init_receive_atLine c nothing).1.toInHead
  rw [receive_nil] at head
  refine ⟨.head head ?_ ?_ rfl (fun block room => ?_), head.state_ne⟩
  · show Fits 0
    decide
  · have empty : c.init.unread = [] := rfl
    rw [empty]
    decide
  · exact ⟨_, .refl _, head.state_ne, rfl⟩

section Reading

variable {c d : Conn} {part block : List UInt8}

theorem Reading.head (reading : Reading c part d) :
    d.InHead ∧ d.readIdx = part.length ∧
      ∀ block, c.init.Room (part ++ block) →
        Resumes noFiles (c.init.receive (part ++ block)) (d.receive block) := by
  cases reading.after with
  | head inHead fits stopped readIdx_eq resumes =>
      exact ⟨inHead, readIdx_eq.trans (Nat.zero_add _), resumes⟩
  | body mid initial more bodyStart split run waiting =>
      exact absurd waiting.same.state reading.state_ne

theorem Reading.framed
    (reading : Reading c part d)
    (fits : (part ++ block).length ≤ readBufferSize) :
    (d.receive block).Framed := by
  obtain ⟨inHead, readIdx, _⟩ := reading.head
  refine inHead.framed.receive ?_
  unfold Room
  rw [readIdx, ← List.length_append]
  exact fits

/-- `process_read` does what it does on the whole in a fresh connection. -/
theorem Reading.processRead_eq
    (reading : Reading c part d)
    (fits : (part ++ block).length ≤ readBufferSize) (fs : FileSystem) :
    (d.receive block).processRead fs =
      (c.init.receive (part ++ block)).processRead fs := by
  obtain ⟨inHead, _, resumes⟩ := reading.head
  have room : c.init.Room (part ++ block) := by
    show 0 + (part ++ block).length ≤ readBufferSize
    omega
  have wholeFramed := (init_receive_atLine c fits).1.framed
  have returns := returns_processRead (reading.framed fits) noFiles
  rw [← (resumes block room).returns_iff] at returns
  have same := (processRead_eq_iff wholeFramed noFiles).mpr returns
  rw [processRead_fileSystem fs, processRead_fileSystem fs (c.init.receive _),
    same]

/-- After a part of the request the connection waits for the rest. -/
theorem Reading.waits
    {request : KeepAliveRequest} {more : List UInt8}
    (reading : Reading c part d)
    (split : request.bytes = part ++ block ++ more) (missing : more ≠ [])
    (fits : request.bytes.length ≤ readBufferSize) (fs : FileSystem) :
    ((d.receive block).processRead fs).1 = .noRequest ∧
      Reading c (part ++ block) ((d.receive block).processRead fs).2 := by
  have partFits : (part ++ block).length ≤ readBufferSize := by
    rw [split, List.length_append] at fits
    omega
  have waits := processRead_part c split missing fits
  rw [← reading.processRead_eq partFits] at waits
  rcases result : (d.receive block).processRead noFiles with ⟨code, next⟩
  rw [result] at waits
  have codeEq : code = .noRequest := waits
  subst codeEq
  rw [processRead_fileSystem fs, result]
  refine ⟨rfl, ?_⟩
  show Reading c (part ++ block) next
  have room : c.init.Room (part ++ block) := by
    show 0 + (part ++ block).length ≤ readBufferSize
    omega
  have initHead := (reading_init c).head.1
  have initFits : Fits c.init.contentLength := by
    show Fits 0
    decide
  have after :=
    reading.after.step initHead initFits room
      ((processRead_eq_iff (reading.framed partFits) noFiles).mp result)
  refine ⟨after, fun inBody => ?_⟩
  cases after with
  | head inHead _ _ _ _ => exact inHead.state_ne inBody
  | body mid initial later bodyStart shape run waiting =>
      have initialFits : initial.length ≤ readBufferSize := by
        rw [shape, List.length_append] at partFits
        omega
      obtain ⟨target, headers, isHead, _⟩ :=
        headOf_of_body c initialFits bodyStart.state run
      rw [shape, List.append_assoc] at split
      refine not_headOf_part split ?_ isHead
      simp [missing]

end Reading

end Conn

end LinuxNet.WebServer
