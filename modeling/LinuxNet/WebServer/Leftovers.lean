import LinuxNet.WebServer.Writer

/-!
# What `init` leaves alone

`init()` resets the fields that a request is parsed into and printed from.
The other fields, and the trace, keep what the last request or the last
connection left in them.  Two objects that differ in these fields only are
read, parsed and answered alike, and they still differ in these fields only:
no function looks at a leftover before it has been written again.
-/

namespace LinuxNet.WebServer

open LinuxNet.CString LinuxNet.CInt LinuxNet.Decimal

/-- The fields that `init()` does not write. -/
structure Leftovers where
  sockfd : Int
  address : SockAddr
  fileAddress : FileAddress
  fileStat : FileStat
  iv0 : Iovec
  iv1 : Iovec
  ivCount : Nat
  trace : List Event

namespace Conn

def leftovers (c : Conn) : Leftovers where
  sockfd := c.sockfd
  address := c.address
  fileAddress := c.fileAddress
  fileStat := c.fileStat
  iv0 := c.iv0
  iv1 := c.iv1
  ivCount := c.ivCount
  trace := c.trace

def withLeftovers (c : Conn) (left : Leftovers) : Conn :=
  { c with
    sockfd := left.sockfd
    address := left.address
    fileAddress := left.fileAddress
    fileStat := left.fileStat
    iv0 := left.iv0
    iv1 := left.iv1
    ivCount := left.ivCount
    trace := left.trace }

/-- The second object has the given leftovers and some trace; in everything
else it is the first one. -/
def DiffersIn (left : Leftovers) (c d : Conn) : Prop :=
  ∃ trace : List Event, d = c.withLeftovers { left with trace := trace }

/-- The same result, in objects that differ in the leftovers only. -/
def AlikeBut {α : Type} (left : Leftovers) (result other : α × Conn) : Prop :=
  other.1 = result.1 ∧ DiffersIn left result.2 other.2

/-- The leftovers decide no branch: the two conditions agree, mostly by
computation. -/
theorem AlikeBut.ite {α : Type} {left : Leftovers}
    {result other result' other' : α × Conn} {condition condition' : Prop}
    [Decidable condition] [Decidable condition']
    (same : condition = condition')
    (yes : AlikeBut left result other)
    (no : AlikeBut left result' other') :
    AlikeBut left (if condition then result else result')
      (if condition' then other else other') := by
  subst same
  by_cases holds : condition
  · rw [if_pos holds, if_pos holds]
    exact yes
  · rw [if_neg holds, if_neg holds]
    exact no

section Parsers

variable {c d : Conn} {left : Leftovers}

theorem parseLineFrom_leftovers (remaining : Nat)
    (differs : DiffersIn left c d) :
    AlikeBut left (parseLineFrom remaining c) (parseLineFrom remaining d) := by
  induction remaining generalizing c d with
  | zero => exact ⟨rfl, differs⟩
  | succ remaining inductionHypothesis =>
      obtain ⟨trace, rfl⟩ := differs
      have later :=
        inductionHypothesis (c := { c with checkedIdx := c.checkedIdx + 1 })
          ⟨trace, rfl⟩
      refine AlikeBut.ite rfl ?_ (AlikeBut.ite rfl ?_ later)
      · refine AlikeBut.ite rfl ⟨rfl, _, rfl⟩ ?_
        exact AlikeBut.ite rfl ⟨rfl, _, rfl⟩ ⟨rfl, _, rfl⟩
      · exact AlikeBut.ite rfl ⟨rfl, _, rfl⟩ ⟨rfl, _, rfl⟩

theorem fetchLine_leftovers (lineStatus : LineStatus)
    (differs : DiffersIn left c d) :
    AlikeBut left (c.fetchLine lineStatus) (d.fetchLine lineStatus) := by
  have line : AlikeBut left c.parseLine d.parseLine := by
    have scanned := parseLineFrom_leftovers (c.readIdx - c.checkedIdx) differs
    obtain ⟨trace, rfl⟩ := differs
    exact scanned
  obtain ⟨trace, rfl⟩ := differs
  exact AlikeBut.ite rfl ⟨rfl, _, rfl⟩ line

theorem parseTarget_leftovers (url : Nat) (differs : DiffersIn left c d) :
    AlikeBut left (c.parseTarget url) (d.parseTarget url) := by
  obtain ⟨trace, rfl⟩ := differs
  have sameBuf :
      ((c.withLeftovers { left with trace := trace }).scan url).readBuf =
        (c.scan url).readBuf := rfl
  unfold parseTarget
  simp only [sameBuf]
  by_cases absolute :
      strncasecmp (c.scan url).readBuf url (ascii "http://") = true
  · simp only [if_pos absolute]
    cases strchr (c.scan url).readBuf (url + 7) 47 with
    | none => exact ⟨rfl, _, rfl⟩
    | some path => exact AlikeBut.ite rfl ⟨rfl, _, rfl⟩ ⟨rfl, _, rfl⟩
  · simp only [if_neg absolute]
    exact AlikeBut.ite rfl ⟨rfl, _, rfl⟩ ⟨rfl, _, rfl⟩

theorem parseVersion_leftovers (url : Nat) (differs : DiffersIn left c d) :
    AlikeBut left (c.parseVersion url) (d.parseVersion url) := by
  obtain ⟨trace, rfl⟩ := differs
  have sameBuf :
      ((c.withLeftovers { left with trace := trace }).scan url).readBuf =
        (c.scan url).readBuf := rfl
  unfold parseVersion
  simp only [sameBuf]
  cases strpbrk (c.scan url).readBuf url isBlank with
  | none => exact ⟨rfl, _, rfl⟩
  | some blank =>
      refine AlikeBut.ite rfl ?_ ⟨rfl, _, rfl⟩
      exact parseTarget_leftovers url ⟨_, rfl⟩

theorem parseRequestLine_leftovers (text : Nat)
    (differs : DiffersIn left c d) :
    AlikeBut left (c.parseRequestLine text) (d.parseRequestLine text) := by
  obtain ⟨trace, rfl⟩ := differs
  have sameBuf :
      ((c.withLeftovers { left with trace := trace }).scan text).readBuf =
        (c.scan text).readBuf := rfl
  unfold parseRequestLine
  simp only [sameBuf]
  cases strpbrk (c.scan text).readBuf text isBlank with
  | none => exact ⟨rfl, _, rfl⟩
  | some blank =>
      refine AlikeBut.ite rfl ?_ ⟨rfl, _, rfl⟩
      exact parseVersion_leftovers _ ⟨_, rfl⟩

theorem parseHeaders_leftovers (text : Nat) (differs : DiffersIn left c d) :
    AlikeBut left (c.parseHeaders text) (d.parseHeaders text) := by
  obtain ⟨trace, rfl⟩ := differs
  refine AlikeBut.ite rfl ?_ ?_
  · exact AlikeBut.ite rfl ⟨rfl, _, rfl⟩ ⟨rfl, _, rfl⟩
  refine AlikeBut.ite rfl ?_ ?_
  · exact AlikeBut.ite rfl ⟨rfl, _, rfl⟩ ⟨rfl, _, rfl⟩
  refine AlikeBut.ite rfl ⟨rfl, _, rfl⟩ ?_
  exact AlikeBut.ite rfl ⟨rfl, _, rfl⟩ ⟨rfl, _, rfl⟩

end Parsers

/-! ## `process_read` -/

def Alike (c d : Conn) : Prop :=
  ∃ left : Leftovers, d = c.withLeftovers left

def SameFile (c d : Conn) : Prop :=
  d.fileStat = c.fileStat ∧ d.fileAddress = c.fileAddress

def SameSocket (c d : Conn) : Prop :=
  d.sockfd = c.sockfd ∧ d.address = c.address

/-- What the first two objects share, the second two share. -/
structure Carries (c d c' d' : Conn) : Prop where
  file : SameFile c d → SameFile c' d'
  socket : SameSocket c d → SameSocket c' d'

/-- What `process_read` makes of two objects that differ in the leftovers
only: the same code, in such objects again.  They name the same file if the
code is `FILE_REQUEST`, and also if they did before. -/
structure ReadAlike (c d : Conn) (result other : HttpCode × Conn) : Prop where
  code_eq : other.1 = result.1
  alike : Alike result.2 other.2
  file :
    result.1 = .fileRequest ∨ SameFile c d → SameFile result.2 other.2
  socket : SameSocket c d → SameSocket result.2 other.2

variable {c d : Conn}

theorem Alike.differsIn (alike : Alike c d) : DiffersIn d.leftovers c d := by
  obtain ⟨left, rfl⟩ := alike
  exact ⟨_, rfl⟩

theorem differsIn_leftovers (c : Conn) : DiffersIn c.leftovers c c :=
  ⟨_, rfl⟩

theorem DiffersIn.alike {left : Leftovers} (differs : DiffersIn left c d) :
    Alike c d := by
  obtain ⟨trace, same⟩ := differs
  exact ⟨_, same⟩

theorem DiffersIn.file {left : Leftovers} (differs : DiffersIn left c d) :
    d.fileStat = left.fileStat ∧ d.fileAddress = left.fileAddress := by
  obtain ⟨trace, rfl⟩ := differs
  exact ⟨rfl, rfl⟩

theorem DiffersIn.socket {left : Leftovers} (differs : DiffersIn left c d) :
    d.sockfd = left.sockfd ∧ d.address = left.address := by
  obtain ⟨trace, rfl⟩ := differs
  exact ⟨rfl, rfl⟩

/-- A function that leaves the leftovers alone keeps what the two objects
share. -/
theorem AlikeBut.carries {α : Type} {result other : α × Conn}
    (kept : AlikeBut c.leftovers result result)
    (alike : AlikeBut d.leftovers result other) :
    Carries c d result.2 other.2 := by
  obtain ⟨statKept, addressKept⟩ := kept.2.file
  obtain ⟨statThere, addressThere⟩ := alike.2.file
  obtain ⟨sockfdKept, peerKept⟩ := kept.2.socket
  obtain ⟨sockfdThere, peerThere⟩ := alike.2.socket
  refine ⟨fun file => ⟨?_, ?_⟩, fun socket => ⟨?_, ?_⟩⟩
  · rw [statThere, statKept]
    exact file.1
  · rw [addressThere, addressKept]
    exact file.2
  · rw [sockfdThere, sockfdKept]
    exact socket.1
  · rw [peerThere, peerKept]
    exact socket.2

/-- A store hits both objects alike, their sockets included. -/
theorem store_alike (alike : Alike c d) (index : Int) (byte : UInt8) :
    Alike (c.store index byte) (d.store index byte) ∧
      Carries c d (c.store index byte) (d.store index byte) := by
  obtain ⟨left, rfl⟩ := alike
  cases index with
  | ofNat position =>
      exact
        ⟨⟨{ left with trace := left.trace ++ [.store position] }, rfl⟩,
          fun file => file, fun socket => socket⟩
  | negSucc back =>
      refine
        ⟨⟨((c.withLeftovers left).store (.negSucc back) byte).leftovers,
          rfl⟩, fun file => file, fun socket => ?_⟩
      obtain ⟨sockfd, address⟩ := socket
      have sameSockfd : left.sockfd = c.sockfd := sockfd
      have sameAddress : left.address = c.address := address
      refine ⟨?_, congrArg (SockAddr.store · _ byte) sameAddress⟩
      show ite _ (setByte left.sockfd _ byte) left.sockfd = _
      rw [sameSockfd]
      rfl

theorem ReadAlike.ofNoFile {code : HttpCode} {c' d' : Conn}
    (noFile : code ≠ .fileRequest) (alike : Alike c' d')
    (carries : Carries c d c' d') :
    ReadAlike c d (code, c') (code, d') := by
  refine ⟨rfl, alike, ?_, carries.socket⟩
  rintro (isFile | known)
  · exact absurd isFile noFile
  · exact carries.file known

theorem doRequest_alike (alike : Alike c d) (fs : FileSystem) :
    ReadAlike c d (c.doRequest fs) (d.doRequest fs) := by
  obtain ⟨left, rfl⟩ := alike
  have sameName : (c.withLeftovers left).realFileFor = c.realFileFor := rfl
  unfold doRequest
  simp only [sameName]
  cases fs.stat (cstr c.realFileFor 0) with
  | none =>
      exact
        .ofNoFile (by decide) ⟨_, rfl⟩
          ⟨fun file => file, fun socket => socket⟩
  | some fileStat =>
      simp only
      split
      · exact
          .ofNoFile (by decide) ⟨{ left with fileStat := fileStat }, rfl⟩
            ⟨fun file => ⟨rfl, file.2⟩, fun socket => socket⟩
      split
      · exact
          .ofNoFile (by decide) ⟨{ left with fileStat := fileStat }, rfl⟩
            ⟨fun file => ⟨rfl, file.2⟩, fun socket => socket⟩
      cases fs.mmap (cstr c.realFileFor 0) fileStat.stSize with
      | none =>
          simp only
          exact
            ⟨rfl,
              ⟨{ left with fileStat := fileStat, fileAddress := .mapFailed },
                rfl⟩,
              fun _ => ⟨rfl, rfl⟩, fun socket => socket⟩
      | some address =>
          simp only
          exact
            ⟨rfl,
              ⟨{ left with
                  fileStat := fileStat
                  fileAddress := .mapping address
                  trace := left.trace ++ [.mmap address fileStat.stSize] },
                rfl⟩,
              fun _ => ⟨rfl, rfl⟩, fun socket => socket⟩

/-- Two turns that lead to the same, in objects that differ in the leftovers
only. -/
inductive TurnsAlike (c d : Conn) : Turn → Turn → Prop
  | again (lineStatus : LineStatus) (c' d' : Conn) (alike : Alike c' d')
      (carries : Carries c d c' d') :
      TurnsAlike c d (.again lineStatus c') (.again lineStatus d')
  | done (code : HttpCode) (c' d' : Conn)
      (alike : ReadAlike c d (code, c') (code, d')) :
      TurnsAlike c d (.done code c') (.done code d')

/-- What two pairs of objects share, the results of `process_read` share. -/
theorem ReadAlike.after {c' d' : Conn} {result other : HttpCode × Conn}
    (carries : Carries c d c' d') (reads : ReadAlike c' d' result other) :
    ReadAlike c d result other :=
  { reads with
    file := fun known => reads.file (known.imp_right carries.file)
    socket := fun socket => reads.socket (carries.socket socket) }

theorem doRequest_turnsAlike {c' d' : Conn} (alike : Alike c' d')
    (carries : Carries c d c' d') (fs : FileSystem) :
    TurnsAlike c d (.done (c'.doRequest fs).1 (c'.doRequest fs).2)
      (.done (d'.doRequest fs).1 (d'.doRequest fs).2) := by
  have reads := (doRequest_alike alike fs).after carries
  rw [reads.code_eq]
  exact .done _ _ _ ⟨rfl, reads.alike, reads.file, reads.socket⟩

def lineTaken (c : Conn) : Conn :=
  { c with startLine := c.checkedIdx }.scan c.startLine

theorem dispatchLine_of_requestLine
    (fs : FileSystem) (state : c.checkState = .requestLine) :
    c.dispatchLine fs =
      if (c.lineTaken.parseRequestLine c.startLine).1 = .badRequest then
        .done .badRequest (c.lineTaken.parseRequestLine c.startLine).2
      else
        .again .lineOk (c.lineTaken.parseRequestLine c.startLine).2 := by
  have takenState : c.lineTaken.checkState = .requestLine := state
  unfold dispatchLine
  simp only
  rw [← lineTaken, takenState]
  rcases c.lineTaken.parseRequestLine c.startLine with ⟨code, d⟩
  cases code <;> simp

theorem dispatchLine_of_header
    (fs : FileSystem) (state : c.checkState = .header) :
    c.dispatchLine fs =
      if (c.lineTaken.parseHeaders c.startLine).1 = .badRequest then
        .done .badRequest (c.lineTaken.parseHeaders c.startLine).2
      else if (c.lineTaken.parseHeaders c.startLine).1 = .getRequest then
        .done ((c.lineTaken.parseHeaders c.startLine).2.doRequest fs).1
          ((c.lineTaken.parseHeaders c.startLine).2.doRequest fs).2
      else
        .again .lineOk (c.lineTaken.parseHeaders c.startLine).2 := by
  have takenState : c.lineTaken.checkState = .header := state
  unfold dispatchLine
  simp only
  rw [← lineTaken, takenState]
  rcases c.lineTaken.parseHeaders c.startLine with ⟨code, d⟩
  cases code <;> simp

theorem dispatchLine_of_content
    (fs : FileSystem) (state : c.checkState = .content) :
    c.dispatchLine fs =
      if (c.lineTaken.parseContent c.startLine).1 = .getRequest then
        .done ((c.lineTaken.parseContent c.startLine).2.doRequest fs).1
          ((c.lineTaken.parseContent c.startLine).2.doRequest fs).2
      else
        .again .lineOpen (c.lineTaken.parseContent c.startLine).2 := by
  have takenState : c.lineTaken.checkState = .content := state
  unfold dispatchLine
  simp only
  rw [← lineTaken, takenState]
  rcases c.lineTaken.parseContent c.startLine with ⟨code, d⟩
  cases code <;> simp

/-- A line parser that leaves the leftovers alone. -/
theorem parse_lineTaken
    {parse : Conn → HttpCode × Conn} (alike : Alike c d)
    (parsesAlike : ∀ {left : Leftovers} {c d : Conn}, DiffersIn left c d →
      AlikeBut left (parse c) (parse d)) :
    (parse d.lineTaken).1 = (parse c.lineTaken).1 ∧
      Alike (parse c.lineTaken).2 (parse d.lineTaken).2 ∧
        Carries c d (parse c.lineTaken).2 (parse d.lineTaken).2 := by
  obtain ⟨left, rfl⟩ := alike
  have there :
      DiffersIn (c.withLeftovers left).lineTaken.leftovers c.lineTaken
        (c.withLeftovers left).lineTaken := ⟨_, rfl⟩
  have parsedThere := parsesAlike there
  have parsedHere := parsesAlike (differsIn_leftovers c.lineTaken)
  have carries := parsedHere.carries parsedThere
  exact
    ⟨parsedThere.1, parsedThere.2.alike, carries.file, carries.socket⟩

/-- `parse_content`, whose store may hit the socket. -/
theorem parseContent_lineTaken (alike : Alike c d) :
    (d.lineTaken.parseContent c.startLine).1 =
        (c.lineTaken.parseContent c.startLine).1 ∧
      Alike (c.lineTaken.parseContent c.startLine).2
          (d.lineTaken.parseContent c.startLine).2 ∧
        Carries c d (c.lineTaken.parseContent c.startLine).2
          (d.lineTaken.parseContent c.startLine).2 := by
  obtain ⟨left, rfl⟩ := alike
  have checked :
      Alike (c.lineTaken.emit (.sum (c.contentLength + c.checkedIdx)))
        ((c.withLeftovers left).lineTaken.emit
          (.sum (c.contentLength + c.checkedIdx))) :=
    ⟨((c.withLeftovers left).lineTaken.emit
      (.sum (c.contentLength + c.checkedIdx))).leftovers, rfl⟩
  obtain ⟨stored, carries⟩ :=
    store_alike checked (c.startLine + c.contentLength) 0
  have here :
      c.lineTaken.parseContent c.startLine =
        if toInt (c.contentLength + c.checkedIdx) ≤ c.readIdx then _ else _ :=
    rfl
  have there :
      (c.withLeftovers left).lineTaken.parseContent c.startLine =
        if toInt (c.contentLength + c.checkedIdx) ≤ c.readIdx then _ else _ :=
    rfl
  rw [here, there]
  split
  · exact ⟨rfl, stored, carries.file, carries.socket⟩
  · exact ⟨rfl, checked, fun file => file, fun socket => socket⟩

theorem dispatchLine_alike (alike : Alike c d) (fs : FileSystem) :
    TurnsAlike c d (c.dispatchLine fs) (d.dispatchLine fs) := by
  have sameState : d.checkState = c.checkState := by
    obtain ⟨left, rfl⟩ := alike
    rfl
  have sameStart : d.startLine = c.startLine := by
    obtain ⟨left, rfl⟩ := alike
    rfl
  cases state : c.checkState with
  | requestLine =>
      obtain ⟨code, objects, carries⟩ :=
        parse_lineTaken alike (parseRequestLine_leftovers c.startLine)
      rw [dispatchLine_of_requestLine fs state,
        dispatchLine_of_requestLine fs (sameState.trans state), sameStart,
        code]
      split
      · exact .done _ _ _ (.ofNoFile (by decide) objects carries)
      · exact .again _ _ _ objects carries
  | header =>
      obtain ⟨code, objects, carries⟩ :=
        parse_lineTaken alike (parseHeaders_leftovers c.startLine)
      rw [dispatchLine_of_header fs state,
        dispatchLine_of_header fs (sameState.trans state), sameStart, code]
      split
      · exact .done _ _ _ (.ofNoFile (by decide) objects carries)
      split
      · exact doRequest_turnsAlike objects carries fs
      · exact .again _ _ _ objects carries
  | content =>
      obtain ⟨code, objects, carries⟩ :=
        parseContent_lineTaken alike
      rw [dispatchLine_of_content fs state,
        dispatchLine_of_content fs (sameState.trans state), sameStart, code]
      split
      · exact doRequest_turnsAlike objects carries fs
      · exact .again _ _ _ objects carries

theorem TurnsAlike.after {c' d' : Conn} {turn other : Turn}
    (before : Carries c d c' d')
    (turns : TurnsAlike c' d' turn other) : TurnsAlike c d turn other := by
  cases turns with
  | again lineStatus _ _ alike later =>
      exact
        .again lineStatus _ _ alike
          ⟨fun file => later.file (before.file file),
            fun socket => later.socket (before.socket socket)⟩
  | done code _ _ reads => exact .done code _ _ (reads.after before)

theorem turn_alike (alike : Alike c d) (fs : FileSystem)
    (lineStatus : LineStatus) :
    TurnsAlike c d (c.turn fs lineStatus) (d.turn fs lineStatus) := by
  have there := fetchLine_leftovers lineStatus alike.differsIn
  -- compared with itself, the object keeps its own leftovers
  have here := fetchLine_leftovers lineStatus (differsIn_leftovers c)
  have carries := here.carries there
  unfold turn
  generalize c.fetchLine lineStatus = fetched at there carries
  generalize d.fetchLine lineStatus = fetchedThere at there carries
  rcases fetched with ⟨lineStatus, c'⟩
  rcases fetchedThere with ⟨statusThere, d'⟩
  obtain ⟨same, differs⟩ := there
  cases same
  cases lineStatus with
  | lineOk => exact (dispatchLine_alike differs.alike fs).after carries
  | lineBad | lineOpen =>
      exact .done _ _ _ (.ofNoFile (by decide) differs.alike carries)

theorem processReadLoop_alike (alike : Alike c d) (fs : FileSystem)
    (fuel : Nat) (lineStatus : LineStatus) :
    ReadAlike c d (processReadLoop fs fuel lineStatus c)
      (processReadLoop fs fuel lineStatus d) := by
  induction fuel generalizing c d lineStatus with
  | zero =>
      exact
        .ofNoFile (by decide) alike
          ⟨fun file => file, fun socket => socket⟩
  | succ fuel inductionHypothesis =>
      have turns := turn_alike alike fs lineStatus
      unfold processReadLoop
      generalize c.turn fs lineStatus = turn at turns
      generalize d.turn fs lineStatus = other at turns
      cases turns with
      | again lineStatus c' d' alike carries =>
          exact (inductionHypothesis alike lineStatus).after carries
      | done code c' d' alike => exact alike

/-- `process_read` cannot tell two objects apart that differ in the leftovers
only. -/
theorem processRead_alike (alike : Alike c d) (fs : FileSystem) :
    ReadAlike c d (c.processRead fs) (d.processRead fs) := by
  have sameBound : d.turnBound = c.turnBound := by
    obtain ⟨left, rfl⟩ := alike
    rfl
  unfold processRead
  rw [sameBound]
  exact processReadLoop_alike alike fs c.turnBound .lineOk

end Conn

end LinuxNet.WebServer
