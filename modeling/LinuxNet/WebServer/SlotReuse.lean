import LinuxNet.WebServer.Response
import LinuxNet.WebServer.Leftovers

/-!
# A reused object leaks nothing

An `http_conn` serves one request after the other and one connection after
the other.  After `init()` it is called with the bytes of a client, and its
owner sees what the calls return and what they print and queue.  Whatever
went through the object before, all of this is as with an object that has
just been constructed.
-/

namespace LinuxNet.WebServer

open LinuxNet.CString LinuxNet.CInt LinuxNet.Decimal

namespace Conn

section Calls

variable {c d : Conn} {left : Leftovers}

theorem receive_leftovers (blocks : List (List UInt8))
    (differs : DiffersIn left c d) :
    DiffersIn left (blocks.foldl receive c) (blocks.foldl receive d) := by
  induction blocks generalizing c d with
  | nil => exact differs
  | cons block blocks inductionHypothesis =>
      obtain ⟨trace, rfl⟩ := differs
      exact inductionHypothesis ⟨trace, rfl⟩

theorem read_leftovers (blocks : List (List UInt8)) (last : RecvEnd)
    (differs : DiffersIn left c d) :
    AlikeBut left (c.read blocks last) (d.read blocks last) := by
  have sameEnd : d.readIdx = c.readIdx := by
    obtain ⟨trace, rfl⟩ := differs
    rfl
  unfold read
  rw [sameEnd]
  exact
    AlikeBut.ite rfl ⟨rfl, differs⟩
      ⟨rfl, receive_leftovers blocks differs⟩

theorem addResponse_leftovers (formatted : List UInt8)
    (differs : DiffersIn left c d) :
    AlikeBut left (c.addResponse formatted) (d.addResponse formatted) := by
  obtain ⟨trace, rfl⟩ := differs
  refine AlikeBut.ite rfl ⟨rfl, _, rfl⟩ ?_
  exact AlikeBut.ite rfl ⟨rfl, _, rfl⟩ ⟨rfl, _, rfl⟩

theorem addLinger_leftovers (differs : DiffersIn left c d) :
    AlikeBut left c.addLinger d.addLinger := by
  have sameLinger : d.linger = c.linger := by
    obtain ⟨trace, rfl⟩ := differs
    rfl
  unfold addLinger
  rw [sameLinger]
  exact addResponse_leftovers _ differs

theorem addHeaders_leftovers (contentLength : Int)
    (differs : DiffersIn left c d) :
    AlikeBut left (c.addHeaders contentLength)
      (d.addHeaders contentLength) := by
  have first : AlikeBut left (c.addContentLength (toInt contentLength))
      (d.addContentLength (toInt contentLength)) :=
    addResponse_leftovers _ differs
  have second := addLinger_leftovers first.2
  have third := addResponse_leftovers crlf second.2
  refine ⟨?_, third.2⟩
  exact
    congrArg₂ and (congrArg₂ and first.1 second.1) third.1

theorem head_leftovers (status : Int) (title : List UInt8)
    (contentLength : Int) (differs : DiffersIn left c d) :
    DiffersIn left (c.head status title contentLength)
      (d.head status title contentLength) :=
  (addHeaders_leftovers contentLength
    (addResponse_leftovers _ differs).2).2

end Calls

/-- The `iovec`s that `m_iv_count` counts. -/
def queued (c : Conn) : List Iovec :=
  [c.iv0, c.iv1].take c.ivCount

/-- What `process_write` makes of two objects that differ in the leftovers
only: the same result and the same queue, in such objects again. -/
def WriteAlike (result other : Bool × Conn) : Prop :=
  other.1 = result.1 ∧
    Alike result.2 other.2 ∧
      (result.1 = true → other.2.queued = result.2.queued)

section Responses

variable {c d : Conn}

theorem queueBuffer_alike (alike : Alike c d) :
    WriteAlike (true, c.queueBuffer) (true, d.queueBuffer) := by
  obtain ⟨left, rfl⟩ := alike
  refine ⟨rfl, ⟨{ left with iv0 := _, ivCount := 1 }, rfl⟩, fun _ => rfl⟩

theorem queueFile_alike (alike : Alike c d) (file : SameFile c d) :
    WriteAlike (true, c.queueFile) (true, d.queueFile) := by
  obtain ⟨left, rfl⟩ := alike
  refine ⟨rfl, ⟨{ left with iv0 := _, iv1 := _, ivCount := 2 }, rfl⟩, ?_⟩
  intro _
  have sameStat : left.fileStat = c.fileStat := file.1
  have sameAddress : left.fileAddress = c.fileAddress := file.2
  show
    [⟨.writeBuf, c.writeIdx⟩,
      ⟨.file left.fileAddress, left.fileStat.stSize.toNat⟩] =
        c.queueFile.queued
  rw [sameStat, sameAddress]
  rfl

theorem SameFile.printed {c' d' : Conn} (file : SameFile c d)
    (here : PrintsOnly c c') (there : PrintsOnly d d') : SameFile c' d' := by
  refine ⟨?_, ?_⟩
  · rw [there.fileStat_eq, here.fileStat_eq]
    exact file.1
  · rw [there.fileAddress_eq, here.fileAddress_eq]
    exact file.2

theorem writeError_alike (alike : Alike c d) (status : Int)
    (title form : List UInt8) :
    WriteAlike (c.writeError status title form)
      (d.writeError status title form) := by
  have printed :=
    addResponse_leftovers form
      (head_leftovers status title form.length alike.differsIn)
  rw [writeError_eq, writeError_eq]
  have same :
      ((d.head status title form.length).addContent form).1 =
        ((c.head status title form.length).addContent form).1 := printed.1
  rw [same]
  split
  · exact queueBuffer_alike printed.2.alike
  · exact ⟨rfl, printed.2.alike, fun queues => by cases queues⟩

theorem processWrite_alike (alike : Alike c d) (ret : HttpCode)
    (file : ret = .fileRequest → SameFile c d) :
    WriteAlike (c.processWrite ret) (d.processWrite ret) := by
  cases ret with
  | internalError | badRequest | noResource | forbiddenRequest =>
      unfold processWrite
      exact writeError_alike alike _ _ _
  | noRequest | getRequest | closedConnection =>
      exact ⟨rfl, alike, fun queues => by cases queues⟩
  | fileRequest =>
      have known := file rfl
      rw [processWrite_file_eq, processWrite_file_eq, known.1]
      split
      · have headed :=
          head_leftovers 200 ok200Title c.fileStat.stSize alike.differsIn
        have headsKnown :
            SameFile (c.head 200 ok200Title c.fileStat.stSize)
              (d.head 200 ok200Title c.fileStat.stSize) :=
          known.printed (head_printsOnly c _ _ _) (head_printsOnly d _ _ _)
        exact queueFile_alike headed.alike headsKnown
      · have printed :=
          addResponse_leftovers okString
            (head_leftovers 200 ok200Title okString.length alike.differsIn)
        exact ⟨rfl, printed.2.alike, fun queues => by cases queues⟩

end Responses

/-! ## The calls after `init()` -/

/-- A call on the object: `read`, with what its `recv`s deliver,
`process_read`, in the file system as it is then, or `process_write`. -/
inductive Call where
  | read (blocks : List (List UInt8)) (last : RecvEnd)
  | processRead (fs : FileSystem)
  | processWrite (ret : HttpCode)

/-- The results of a call; a `process_write` that returns true has queued
`iovec`s. -/
inductive Answer where
  | read (more : Bool)
  | code (code : HttpCode)
  | written (ret : Bool) (queue : List Iovec)
  /-- `process` passes on a code of `process_read` only: there is no call with
  a `FILE_REQUEST` that `process_read` has not returned. -/
  | notMade
  deriving DecidableEq, Repr

structure Observation where
  answer : Answer
  written : List UInt8
  linger : Bool
  deriving DecidableEq, Repr

/-- An object, and whether `process_read` has returned `FILE_REQUEST` since
`init()`. -/
structure Use where
  conn : Conn
  fileFound : Bool

namespace Use

def make (use : Use) : Call → Answer × Use
  | .read blocks last =>
      let (more, c) := use.conn.read blocks last
      (.read more, { use with conn := c })
  | .processRead fs =>
      let (code, c) := use.conn.processRead fs
      (.code code,
        { conn := c
          fileFound := use.fileFound || decide (code = .fileRequest) })
  | .processWrite ret =>
      if ret = .fileRequest ∧ use.fileFound = false then
        (.notMade, use)
      else
        let (ret, c) := use.conn.processWrite ret
        (.written ret (if ret then c.queued else []), { use with conn := c })

def observed : Use → List Call → List Observation
  | _, [] => []
  | use, call :: calls =>
      let (answer, use) := use.make call
      ⟨answer, use.conn.written, use.conn.linger⟩ :: use.observed calls

theorem observed_cons (use : Use) (call : Call) (calls : List Call) :
    use.observed (call :: calls) =
      ⟨(use.make call).1, (use.make call).2.conn.written,
        (use.make call).2.conn.linger⟩ :: (use.make call).2.observed calls :=
  rfl

/-- Two objects in use that differ in the leftovers only, and name the same
file as soon as one has been found. -/
structure Alike (use other : Use) : Prop where
  conn : Conn.Alike use.conn other.conn
  fileFound : other.fileFound = use.fileFound
  file : use.fileFound = true → SameFile use.conn other.conn

theorem Alike.afterCall
    {use other : Use} (alike : Alike use other) (call : Call) :
    (other.make call).1 = (use.make call).1 ∧
      Alike (use.make call).2 (other.make call).2 := by
  cases call with
  | read blocks last =>
      have there := read_leftovers blocks last alike.conn.differsIn
      have here :=
        read_leftovers blocks last (differsIn_leftovers use.conn)
      refine
        ⟨congrArg Answer.read there.1, there.2.alike, alike.fileFound, ?_⟩
      intro found
      exact (here.carries there).file (alike.file found)
  | processRead fs =>
      obtain ⟨code, objects, files, _⟩ := processRead_alike alike.conn fs
      refine ⟨congrArg Answer.code code, objects, ?_, ?_⟩
      · exact congrArg₂ (fun found code => found || decide (code = _))
          alike.fileFound code
      · intro found
        rcases Bool.or_eq_true_iff.mp found with before | now
        · exact files (.inr (alike.file before))
        · exact files (.inl (of_decide_eq_true now))
  | processWrite ret =>
      unfold Use.make
      simp only
      rw [alike.fileFound]
      split
      · exact ⟨rfl, alike⟩
      · next made =>
          have known : ret = .fileRequest → SameFile use.conn other.conn := by
            intro isFile
            refine alike.file ?_
            cases found : use.fileFound with
            | true => rfl
            | false => exact absurd ⟨isFile, found⟩ made
          obtain ⟨same, objects, queues⟩ :=
            processWrite_alike alike.conn ret known
          have sameQueue :
              (if (other.conn.processWrite ret).1 then
                (other.conn.processWrite ret).2.queued else []) =
              (if (use.conn.processWrite ret).1 then
                (use.conn.processWrite ret).2.queued else []) := by
            rw [same]
            split
            · next written => exact queues written
            · rfl
          refine ⟨congrArg₂ Answer.written same sameQueue, objects, rfl, ?_⟩
          intro found
          exact
            (alike.file found).printed (processWrite_printsOnly use.conn ret)
              (processWrite_printsOnly other.conn ret)

theorem Alike.observed
    {use other : Use} (alike : Alike use other) (calls : List Call) :
    other.observed calls = use.observed calls := by
  induction calls generalizing use other with
  | nil => rfl
  | cons call calls inductionHypothesis =>
      obtain ⟨sameAnswer, later⟩ := alike.afterCall call
      have sameWritten :
          (other.make call).2.conn.written = (use.make call).2.conn.written := by
        obtain ⟨left, same⟩ := later.conn
        rw [same]
        rfl
      have sameLinger :
          (other.make call).2.conn.linger = (use.make call).2.conn.linger := by
        obtain ⟨left, same⟩ := later.conn
        rw [same]
        rfl
      rw [observed_cons, observed_cons, sameAnswer, sameWritten, sameLinger,
        inductionHypothesis later]

end Use

/-- What the owner of an object sees of a sequence of calls after
`init()`. -/
def observedFrom (c : Conn) (calls : List Call) : List Observation :=
  Use.observed { conn := c, fileFound := false } calls

theorem observedFrom_alike {c d : Conn} (alike : Alike c d)
    (calls : List Call) : observedFrom d calls = observedFrom c calls :=
  have uses : Use.Alike ⟨c, false⟩ ⟨d, false⟩ :=
    { conn := alike
      fileFound := rfl
      file := fun found => by cases found }
  uses.observed calls

/-- Whatever object is initialised again, be it for the next request or for
the next connection, its owner sees what he would see of another object that
has just been constructed, with whatever its memory held, and initialised. -/
theorem slot_reuse_leaks_nothing
    (used constructed : Conn) (sockfd newSockfd : Int)
    (address newAddress : SockAddr) (calls : List Call) :
    observedFrom used.init calls =
        observedFrom (constructed.initWith newSockfd newAddress) calls ∧
      observedFrom (used.initWith sockfd address) calls =
        observedFrom (constructed.initWith newSockfd newAddress) calls := by
  have keptAlive :
      Alike (constructed.initWith newSockfd newAddress) used.init :=
    ⟨used.init.leftovers, rfl⟩
  have newConnection :
      Alike (constructed.initWith newSockfd newAddress)
        (used.initWith sockfd address) :=
    ⟨(used.initWith sockfd address).leftovers, rfl⟩
  exact
    ⟨observedFrom_alike keptAlive calls,
      observedFrom_alike newConnection calls⟩

end Conn

end LinuxNet.WebServer
