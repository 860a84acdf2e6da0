import LinuxNet.WebServer.LineParsers

/-!
# The turns of `process_read`

What one turn of the loop can do, said once.  `Edit` lists the elementary
steps of the two line parsers; whatever each of these keeps, the parsers keep.
`turn_eq` takes a turn apart into the scan for a line and the work on it.
`Returns` is the loop without its bound on the turns, and
`processRead_eq_iff` shows that the bound is never reached.
-/

namespace LinuxNet.WebServer

open LinuxNet.CString LinuxNet.CInt

/-- The event is no store outside `m_read_buf`. -/
def Event.IsInside : Event → Prop
  | .store index => 0 ≤ index ∧ index < readBufferSize
  | _ => True

instance Event.decidableIsInside : DecidablePred Event.IsInside
  | .store _ => inferInstanceAs (Decidable (_ ∧ _))
  | .scan _ _ | .sum _ | .vsnprintf _ | .mmap _ _ | .munmap _ _
  | .epollAdd _ | .epollMod _ _ | .epollDel _ | .close _ | .sent _
  | .responseSent | .userCount _ => .isTrue trivial

/-- The events of `process_read` before `do_request`. -/
def Event.IsParsing : Event → Prop
  | .store _ | .scan _ _ | .sum _ => True
  | _ => False

namespace Conn

/-- The second object comes from the first by steps of the line parsers on a
line that occupies the array from `first` to its terminator at `stop`: scans
and NULs inside the line, and changes of the parse results, `m_url` and
`m_host` moving into the line or staying. -/
inductive Edit (first stop : Nat) : Conn → Conn → Prop
  | refl (c : Conn) : Edit first stop c c
  | scanned {c d : Conn} (start : Nat)
      (inside : first ≤ start ∧ start ≤ stop)
      (rest : Edit first stop (c.scanned start) d) :
      Edit first stop c d
  | store {c d : Conn} (index : Nat)
      (inside : first ≤ index ∧ index < stop)
      (rest : Edit first stop (c.store (index : Int) 0) d) :
      Edit first stop c d
  | parsed {c d : Conn}
      (checkState : CheckState) (method : Method)
      (url version host : Option Nat) (contentLength : Int)
      (linger : Bool)
      (urlInside :
        ∀ index, url = some index →
          c.url = some index ∨ first ≤ index ∧ index ≤ stop)
      (hostInside :
        ∀ index, host = some index →
          c.host = some index ∨ first ≤ index ∧ index ≤ stop)
      (contentLengthFits : contentLength = c.contentLength ∨
        Fits contentLength)
      (rest : Edit first stop
        { c with
          checkState := checkState, method := method, url := url,
          version := version, host := host,
          contentLength := contentLength, linger := linger } d) :
      Edit first stop c d

namespace Edit

variable {first stop : Nat} {c d : Conn}

/-- What the elementary steps keep, the parsers keep. -/
theorem keeps
    (property : Conn → Prop)
    (scans : ∀ c start, first ≤ start ∧ start ≤ stop →
      property c → property (c.scanned start))
    (stores : ∀ c (index : Nat), first ≤ index ∧ index < stop →
      property c → property (c.store (index : Int) 0))
    (parses : ∀ c checkState method url version host contentLength linger,
      (∀ index, url = some index →
        c.url = some index ∨ first ≤ index ∧ index ≤ stop) →
      (∀ index, host = some index →
        c.host = some index ∨ first ≤ index ∧ index ≤ stop) →
      (contentLength = c.contentLength ∨ Fits contentLength) →
      property c →
      property
        { c with
          checkState := checkState, method := method, url := url,
          version := version, host := host,
          contentLength := contentLength, linger := linger })
    (edit : Edit first stop c d) (initially : property c) :
    property d := by
  induction edit with
  | refl => exact initially
  | scanned start inside _ inductionHypothesis =>
      exact inductionHypothesis (scans _ start inside initially)
  | store index inside _ inductionHypothesis =>
      exact inductionHypothesis (stores _ index inside initially)
  | parsed checkState method url version host contentLength linger
      urlInside hostInside contentLengthFits _ inductionHypothesis =>
      exact inductionHypothesis
        (parses _ checkState method url version host contentLength linger
          urlInside hostInside contentLengthFits initially)

end Edit

theorem pathOffset_le
    {word : List UInt8} {offset : Nat}
    (found : pathOffset word = some offset) : offset ≤ word.length := by
  unfold pathOffset at found
  split at found
  · obtain ⟨index, indexEq, rfl⟩ := Option.map_eq_some_iff.mp found
    obtain ⟨inside, _, _⟩ := List.findIdx?_eq_some_iff_getElem.mp indexEq
    rw [List.length_drop] at inside
    omega
  · cases found
    exact Nat.zero_le _

theorem targetOn_edit
    (c : Conn) {first stop url : Nat} {word : List UInt8}
    (inside : first ≤ url) (ends : url + word.length ≤ stop) :
    Edit first stop c (c.targetOn url word).2 := by
  have path :
      ∀ index, (pathOffset word).map (url + ·) = some index →
        first ≤ index ∧ index ≤ stop := by
    intro index found
    obtain ⟨offset, offsetEq, rfl⟩ := Option.map_eq_some_iff.mp found
    have bound := pathOffset_le offsetEq
    omega
  have pathSet :
      ∀ (c : Conn) (checkState : CheckState), Edit first stop c
        { c with
          checkState := checkState
          url := (pathOffset word).map (url + ·) } :=
    fun c checkState =>
      .parsed checkState _ _ _ _ _ _
        (fun index found => .inr (path index found))
        (fun _ same => .inl same) (.inl rfl) (.refl _)
  unfold targetOn
  refine .scanned url (by omega) ?_
  by_cases absolute : SameIgnoringCase (word.take 7) httpPrefix
  · have isHttp : HasName httpPrefix word := absolute
    have long : 7 ≤ word.length := length_of_hasName isHttp
    simp only [if_pos absolute]
    refine .scanned (url + 7) (by omega) ?_
    generalize (c.scanned url).scanned (url + 7) = d
    split
    · exact pathSet d d.checkState
    · split
      · exact pathSet d d.checkState
      · exact pathSet d .header
  · simp only [if_neg absolute]
    generalize c.scanned url = d
    split
    · exact pathSet d d.checkState
    · split
      · exact pathSet d d.checkState
      · exact pathSet d .header

theorem versionOn_edit
    (c : Conn) {first stop url : Nat} {tail : List UInt8}
    (inside : first ≤ url) (ends : url + tail.length ≤ stop) :
    Edit first stop c (c.versionOn url tail).2 := by
  unfold versionOn
  refine .scanned url (by omega) ?_
  cases found : tail.findIdx? isBlank with
  | none =>
      exact .parsed _ _ _ _ _ _ _ (fun _ same => .inl same)
        (fun _ same => .inl same) (.inl rfl) (.refl _)
  | some blank =>
      obtain ⟨within, _, _⟩ := List.findIdx?_eq_some_iff_getElem.mp found
      have skipped := blanks_le (tail.drop (blank + 1))
      rw [List.length_drop] at skipped
      refine .store (url + blank) (by omega) ?_
      refine .scanned (url + blank + 1) (by omega) ?_
      refine .parsed c.checkState c.method c.url
        (some (url + (blank + 1 + blanks (tail.drop (blank + 1)))))
        c.host c.contentLength c.linger
        (fun _ same => .inl same) (fun _ same => .inl same) (.inl rfl) ?_
      refine .scanned
        (url + (blank + 1 + blanks (tail.drop (blank + 1))))
        (by omega) ?_
      simp only
      split
      · refine targetOn_edit _ inside ?_
        rw [List.length_take]
        omega
      · exact .refl _

theorem requestLineOn_edit
    (c : Conn) (text : Nat) (line : List UInt8) :
    Edit text (text + line.length) c (c.requestLineOn text line).2 := by
  unfold requestLineOn
  refine .scanned text (by omega) ?_
  cases found : line.findIdx? isBlank with
  | none =>
      exact .parsed _ _ none _ _ _ _ (by simp)
        (fun _ same => .inl same) (.inl rfl) (.refl _)
  | some blank =>
      obtain ⟨within, _, _⟩ := List.findIdx?_eq_some_iff_getElem.mp found
      have skipped := blanks_le (line.drop (blank + 1))
      rw [List.length_drop] at skipped
      refine .store (text + blank) (by omega) ?_
      refine .scanned (text + blank + 1) (by omega) ?_
      refine .parsed c.checkState c.method
        (some (text + (blank + 1 + blanks (line.drop (blank + 1)))))
        c.version c.host c.contentLength c.linger ?_ (fun _ same => .inl same) (.inl rfl) ?_
      · rintro index same
        cases same
        omega
      refine .scanned text (by omega) ?_
      simp only
      split
      · refine .parsed c.checkState .get
          (some (text + (blank + 1 + blanks (line.drop (blank + 1)))))
          c.version c.host c.contentLength c.linger (fun _ same => .inl same)
          (fun _ same => .inl same) (.inl rfl) ?_
        refine versionOn_edit _ (by omega) ?_
        rw [List.length_drop]
        omega
      · exact .refl _

theorem headersOn_edit
    (c : Conn) (text : Nat) (line : List UInt8) :
    Edit text (text + line.length) c (c.headersOn text line).2 := by
  unfold headersOn
  split
  · split
    · exact .parsed .content _ _ _ _ _ _ (fun _ same => .inl same)
        (fun _ same => .inl same) (.inl rfl) (.refl _)
    · exact .refl _
  refine .scanned text (by omega) ?_
  split
  · rename_i named
    have name := length_of_hasName named
    have value := valueOffset_le named
    refine .scanned (text + connectionName.length) (by omega) ?_
    refine .scanned (text + valueOffset connectionName line)
      (by omega) ?_
    simp only
    split
    · exact .parsed _ _ _ _ _ _ true (fun _ same => .inl same)
        (fun _ same => .inl same) (.inl rfl) (.refl _)
    · exact .refl _
  split
  · rename_i named
    have name := length_of_hasName named
    have value := valueOffset_le named
    refine .scanned (text + contentLengthName.length) (by omega) ?_
    refine .scanned (text + valueOffset contentLengthName line)
      (by omega) ?_
    exact .parsed _ _ _ _ _ _ _ (fun _ same => .inl same)
      (fun _ same => .inl same) (.inr (fits_toInt _)) (.refl _)
  split
  · rename_i named
    have name := length_of_hasName named
    have value := valueOffset_le named
    refine .scanned (text + hostName.length) (by omega) ?_
    refine .parsed _ _ _ _ _ _ _ (fun _ same => .inl same) ?_
      (.inl rfl) (.refl _)
    rintro index same
    cases same
    omega
  · exact .scanned text (by omega) (.refl _)

/-! ## A line is found -/

theorem passed_lineOk (c : Conn) (count : Nat) :
    c.passed (.lineOk, count + 2) =
      { c with
        readBuf :=
          (c.readBuf.set (c.checkedIdx + count) 0).set
            (c.checkedIdx + count + 1) 0
        checkedIdx := c.checkedIdx + count + 2
        trace :=
          c.trace ++
            [.store (c.checkedIdx + count : Nat),
              .store (c.checkedIdx + count + 1 : Nat)] } := by
  have first : c.checkedIdx + (count + 2) - 2 = c.checkedIdx + count := by
    omega
  simp only [passed, store_natCast, first, List.append_assoc]
  rfl

theorem passed_of_ne
    (c : Conn) {status : LineStatus} (notOk : status ≠ .lineOk)
    (count : Nat) :
    c.passed (status, count) =
      { c with checkedIdx := c.checkedIdx + count } := by
  cases status with
  | lineOk => exact absurd rfl notOk
  | lineBad | lineOpen => rfl

theorem getD_set_ne
    {memory : List UInt8} {index other : Nat} {byte : UInt8}
    (written : byte ≠ 0) (kept : memory.getD other 0 ≠ byte) :
    (memory.set index 0).getD other 0 ≠ byte := by
  rw [List.getD_eq_getElem?_getD] at kept ⊢
  rw [List.getElem?_set]
  split
  · split
    · simpa using Ne.symm written
    · simpa using Ne.symm written
  · exact kept

/-- A NUL in the array, wherever it is put, keeps the frame. -/
theorem Framed.set_nul
    {c : Conn} (framed : c.Framed) (index : Nat) :
    { c with readBuf := c.readBuf.set index 0 }.Framed where
  length_eq := by
    rw [List.length_set]
    exact framed.length_eq
  startLine_le := framed.startLine_le
  checkedIdx_le := framed.checkedIdx_le
  readIdx_le := framed.readIdx_le
  behind := framed.behind.imp_right (getD_set_ne (by decide))

theorem Framed.store
    {c : Conn} (framed : c.Framed) (index : Int) :
    (c.store index 0).Framed := by
  obtain ⟨sockfd, address, memory, shape, rfl | ⟨position, _, rfl⟩⟩ :=
    store_frame c index 0
  · rw [shape]
    exact { framed with }
  · rw [shape]
    exact { framed.set_nul position with }

theorem Framed.edit
    {first stop : Nat} {c d : Conn} (framed : c.Framed)
    (edit : Edit first stop c d) : d.Framed :=
  edit.keeps Conn.Framed
    (fun _ _ _ framed => { framed with })
    (fun _ index _ framed => framed.store index)
    (fun _ _ _ _ _ _ _ _ _ _ _ framed => { framed with })
    framed

theorem Scannable.passed
    {c : Conn} (scannable : c.Scannable) :
    (c.passed (scanLine c.unread)).Scannable := by
  have total := scannable.length_unread
  have bound := scannable.inside
  have result := scanResult c.unread
  generalize remaining : c.unread = bytes at result total
  generalize scanLine bytes = scanned at result
  cases result with
  | found rest clean =>
      rename_i line
      simp only [List.length_append, List.length_cons] at total
      rw [passed_lineOk]
      constructor
      · rw [List.length_set, List.length_set]
        exact bound
      · right
        have inside : c.checkedIdx + line.length + 1 < c.readBuf.length := by
          omega
        simp [List.getD_eq_getElem?_getD, inside]
  | atEnd clean =>
      have shape : c.unread = bytes ++ [] := by
        rw [remaining, List.append_nil]
      exact scannable.skip shape clean
  | atReturn clean | bareReturn _ clean _ | bareFeed _ clean =>
      exact scannable.skip remaining clean

/-- The scanner keeps the frame. -/
theorem Framed.passed
    {c : Conn} (framed : c.Framed) :
    (c.passed (scanLine c.unread)).Framed := by
  have scannable := framed.scannable.passed
  have total := length_unread framed
  have ordered := framed.startLine_le
  have inOrder := framed.checkedIdx_le
  have result := scanResult c.unread
  generalize remaining : c.unread = bytes at result total scannable
  generalize scanLine bytes = scanned at result scannable
  have stopped :
      ∀ (line rest : List UInt8) (status : LineStatus),
        bytes = line ++ rest → status ≠ .lineOk →
          (c.passed (status, line.length)).Scannable →
            (c.passed (status, line.length)).Framed := by
    intro line rest status shape notOk scannable
    have length := congrArg List.length shape
    rw [List.length_append] at length
    rw [passed_of_ne c notOk] at scannable ⊢
    exact
      { length_eq := framed.length_eq
        startLine_le := Nat.le_add_right_of_le ordered
        checkedIdx_le := by
          show c.checkedIdx + line.length ≤ c.readIdx
          omega
        readIdx_le := framed.readIdx_le
        behind := scannable.behind }
  cases result with
  | found rest clean =>
      rename_i line
      have nulsFramed :=
        (framed.set_nul (c.checkedIdx + line.length)).set_nul
          (c.checkedIdx + line.length + 1)
      rw [passed_lineOk] at scannable ⊢
      refine
        { length_eq := nulsFramed.length_eq
          startLine_le := ?_
          checkedIdx_le := ?_
          readIdx_le := framed.readIdx_le
          behind := scannable.behind }
      · show c.startLine ≤ c.checkedIdx + line.length + 2
        omega
      · show c.checkedIdx + line.length + 2 ≤ c.readIdx
        simp only [List.length_append, List.length_cons] at total
        omega
  | atEnd _ =>
      exact stopped _ [] _ (by simp) (by decide) scannable
  | atReturn _ | bareReturn _ _ _ | bareFeed _ _ =>
      exact stopped _ _ _ rfl (by decide) scannable

theorem unread_set_of_lt
    {c : Conn} {index : Nat} {byte : UInt8}
    (below : index < c.checkedIdx) :
    { c with readBuf := c.readBuf.set index byte }.unread = c.unread := by
  simp only [unread, List.take_set]
  rw [List.drop_set_of_lt below]

/-- The scanner leaves the bytes it does not pass. -/
theorem unread_passed (c : Conn) :
    (c.passed (scanLine c.unread)).unread =
      c.unread.drop (scanLine c.unread).2 := by
  have result := scanResult c.unread
  generalize remaining : c.unread = bytes at result
  generalize scanLine bytes = scanned at result
  have moved :
      ∀ count, { c with checkedIdx := c.checkedIdx + count }.unread =
        bytes.drop count := by
    intro count
    rw [← remaining]
    simp only [unread, List.drop_drop]
  cases result with
  | found rest clean =>
      rename_i line
      rw [passed_lineOk, ← moved (line.length + 2)]
      simp only [unread, List.take_set]
      rw [List.drop_set_of_lt (by omega), List.drop_set_of_lt (by omega)]
      rfl
  | atEnd clean | atReturn clean | bareReturn _ clean _
  | bareFeed _ clean =>
      exact moved _

/-- Behind a line that was found there is a NUL. -/
theorem passed_nul
    {c : Conn} (framed : c.Framed)
    (found : (scanLine c.unread).1 = .lineOk) :
    c.checkedIdx + 2 ≤ (c.passed (scanLine c.unread)).checkedIdx ∧
      ∀ index, index + 2 = (c.passed (scanLine c.unread)).checkedIdx →
        (c.passed (scanLine c.unread)).readBuf.getD index 0 = 0 ∧
        (c.passed (scanLine c.unread)).readBuf.getD (index + 1) 0 = 0 := by
  have after := framed.passed
  have scanned : scanLine c.unread = (.lineOk, (scanLine c.unread).2) := by
    rw [← found]
  obtain ⟨line, rest, _, _, passedEq⟩ := scanLine_eq_lineOk scanned
  rw [passedEq] at scanned
  have inside := Nat.le_trans after.checkedIdx_le after.readIdx_le
  rw [scanned, passed_lineOk] at inside ⊢
  have bound : c.checkedIdx + line.length + 2 ≤ readBufferSize := inside
  have size := framed.length_eq
  refine ⟨by simp only; omega, ?_⟩
  intro index indexEq
  have same : index = c.checkedIdx + line.length := by
    simp only at indexEq
    omega
  subst same
  simp only [List.getD_eq_getElem?_getD, List.getElem?_set,
    List.length_set, size]
  rw [if_neg (by omega)]
  simp only [if_true]
  exact ⟨by rw [if_pos (by omega)]; rfl, by rw [if_pos (by omega)]; rfl⟩

/-- A line that was found is a string at `m_start_line` that ends in front of
`m_checked_idx`. -/
theorem passed_string
    {c : Conn} (framed : c.Framed)
    (found : (scanLine c.unread).1 = .lineOk) :
    ∃ line,
      StringAt (c.passed (scanLine c.unread)).readBuf c.startLine line ∧
        c.startLine + line.length + 2 ≤
          (c.passed (scanLine c.unread)).checkedIdx := by
  have after := framed.passed
  obtain ⟨advanced, nuls⟩ := passed_nul framed found
  have ordered := framed.startLine_le
  have inside := Nat.le_trans after.checkedIdx_le after.readIdx_le
  rw [← after.length_eq] at inside
  obtain ⟨string, ends⟩ :=
    StringAt.of_getD_eq_zero (c.passed (scanLine c.unread)).readBuf
      c.startLine ((c.passed (scanLine c.unread)).checkedIdx - 2)
      (by omega) (by omega) (nuls _ (by omega)).1
  exact ⟨_, string, by omega⟩

@[simp]
theorem passed_startLine (c : Conn) (scan : LineStatus × Nat) :
    (c.passed scan).startLine = c.startLine := by
  unfold passed
  split <;> rfl

@[simp]
theorem passed_checkState (c : Conn) (scan : LineStatus × Nat) :
    (c.passed scan).checkState = c.checkState := by
  unfold passed
  split <;> rfl

@[simp]
theorem passed_readIdx (c : Conn) (scan : LineStatus × Nat) :
    (c.passed scan).readIdx = c.readIdx := by
  unfold passed
  split <;> rfl

/-- A turn scans for a line, unless the content state has one at hand, and
works on the line it finds. -/
theorem turn_eq
    {c : Conn} (framed : c.Framed) (fs : FileSystem)
    (lineStatus : LineStatus) :
    c.turn fs lineStatus =
      if c.checkState = .content ∧ lineStatus = .lineOk then
        c.dispatchLine fs
      else if (scanLine c.unread).1 = .lineOk then
        (c.passed (scanLine c.unread)).dispatchLine fs
      else
        .done .noRequest (c.passed (scanLine c.unread)) := by
  unfold turn fetchLine
  by_cases atHand : c.checkState = .content ∧ lineStatus = .lineOk
  · simp only [if_pos atHand]
  · simp only [if_neg atHand, parseLine_eq framed]
    cases (scanLine c.unread).1 <;> simp

def entered (c : Conn) : Conn :=
  { c with startLine := c.checkedIdx }.scanned c.startLine

theorem dispatchLine_requestLine
    {c : Conn} {line : List UInt8} (fs : FileSystem)
    (state : c.checkState = .requestLine)
    (string : StringAt c.readBuf c.startLine line) :
    c.dispatchLine fs =
      if (c.entered.requestLineOn c.startLine line).1 = .badRequest then
        .done .badRequest (c.entered.requestLineOn c.startLine line).2
      else
        .again .lineOk (c.entered.requestLineOn c.startLine line).2 := by
  unfold dispatchLine
  simp only [scan_eq (c := { c with startLine := c.checkedIdx })
    string.terminated]
  have enteredState :
      ({ c with startLine := c.checkedIdx }.scanned
        c.startLine).checkState = .requestLine := state
  have isEntered :
      { c with startLine := c.checkedIdx }.scanned c.startLine =
        c.entered := rfl
  rw [enteredState]
  simp only [isEntered, parseRequestLine_eq (c := c.entered) string]
  rcases c.entered.requestLineOn c.startLine line with ⟨code, d⟩
  cases code <;> simp

theorem headersOn_code (c : Conn) (text : Nat) (line : List UInt8) :
    (c.headersOn text line).1 = .noRequest ∨
      (c.headersOn text line).1 = .getRequest := by
  unfold headersOn
  repeat' split
  all_goals simp

theorem dispatchLine_header
    {c : Conn} {line : List UInt8} (fs : FileSystem)
    (state : c.checkState = .header)
    (string : StringAt c.readBuf c.startLine line) :
    c.dispatchLine fs =
      if (c.entered.headersOn c.startLine line).1 = .getRequest then
        .done ((c.entered.headersOn c.startLine line).2.doRequest fs).1
          ((c.entered.headersOn c.startLine line).2.doRequest fs).2
      else
        .again .lineOk (c.entered.headersOn c.startLine line).2 := by
  unfold dispatchLine
  simp only [scan_eq (c := { c with startLine := c.checkedIdx })
    string.terminated]
  have enteredState :
      ({ c with startLine := c.checkedIdx }.scanned
        c.startLine).checkState = .header := state
  have isEntered :
      { c with startLine := c.checkedIdx }.scanned c.startLine =
        c.entered := rfl
  rw [enteredState]
  simp only [isEntered, parseHeaders_eq (c := c.entered) string]
  have codes := headersOn_code c.entered c.startLine line
  generalize c.entered.headersOn c.startLine line = result at codes
  rcases result with ⟨code, d⟩
  rcases codes with rfl | rfl <;> simp

def bodyChecked (c : Conn) : Conn :=
  ({ c with startLine := c.checkedIdx }.scan c.startLine).emit
    (.sum (c.contentLength + c.checkedIdx))

def bodyCut (c : Conn) : Conn :=
  c.bodyChecked.store (c.startLine + c.contentLength) 0

/-- What the store behind a body leaves alone. -/
theorem bodyCut_frame (c : Conn) :
    ∃ (sockfd : Int) (address : SockAddr) (memory : List UInt8),
      c.bodyCut =
        { c.bodyChecked with
          sockfd := sockfd, address := address, readBuf := memory
          trace :=
            c.bodyChecked.trace ++ [.store (c.startLine + c.contentLength)] } ∧
        (memory = c.readBuf ∨
          ∃ position : Nat,
            c.startLine + c.contentLength = position ∧
              memory = c.readBuf.set position 0) :=
  store_frame c.bodyChecked (c.startLine + c.contentLength) 0

theorem dispatchLine_content
    {c : Conn} (fs : FileSystem) (state : c.checkState = .content) :
    c.dispatchLine fs =
      if toInt (c.contentLength + c.checkedIdx) ≤ c.readIdx then
        .done (c.bodyCut.doRequest fs).1 (c.bodyCut.doRequest fs).2
      else
        .again .lineOpen c.bodyChecked := by
  unfold dispatchLine
  simp only
  have enteredState :
      ({ c with startLine := c.checkedIdx }.scan
        c.startLine).checkState = .content := state
  have content :
      ({ c with startLine := c.checkedIdx }.scan
          c.startLine).parseContent c.startLine =
        if toInt (c.contentLength + c.checkedIdx) ≤ c.readIdx then
          (HttpCode.getRequest, c.bodyCut)
        else
          (HttpCode.noRequest, c.bodyChecked) := rfl
  rw [enteredState]
  simp only [content]
  by_cases complete : toInt (c.contentLength + c.checkedIdx) ≤ c.readIdx
  · rw [if_pos complete, if_pos complete]
  · rw [if_neg complete, if_neg complete]

/-! ## The loop -/

inductive Returns (fs : FileSystem) :
    LineStatus → Conn → HttpCode → Conn → Prop
  | done {lineStatus : LineStatus} {c last : Conn} {code : HttpCode}
      (turned : c.turn fs lineStatus = .done code last) :
      Returns fs lineStatus c code last
  | again {lineStatus nextStatus : LineStatus} {c next last : Conn}
      {code : HttpCode}
      (turned : c.turn fs lineStatus = .again nextStatus next)
      (rest : Returns fs nextStatus next code last) :
      Returns fs lineStatus c code last

theorem Returns.unique
    {fs : FileSystem} {lineStatus : LineStatus} {c last other : Conn}
    {code otherCode : HttpCode}
    (first : Returns fs lineStatus c code last)
    (second : Returns fs lineStatus c otherCode other) :
    code = otherCode ∧ last = other := by
  induction first with
  | done turned =>
      cases second with
      | done turnedToo =>
          rw [turned] at turnedToo
          cases turnedToo
          exact ⟨rfl, rfl⟩
      | again turnedToo _ =>
          rw [turned] at turnedToo
          cases turnedToo
  | again turned _ inductionHypothesis =>
      cases second with
      | done turnedToo =>
          rw [turned] at turnedToo
          cases turnedToo
      | again turnedToo rest =>
          rw [turned] at turnedToo
          cases turnedToo
          exact inductionHypothesis rest

/-- Nothing has been stored outside `m_read_buf` between the two objects. -/
def StoresInside (c d : Conn) : Prop :=
  ∀ event ∈ d.trace.drop c.trace.length, event.IsInside

instance decidableStoresInside (c d : Conn) : Decidable (StoresInside c d) :=
  inferInstanceAs (Decidable (∀ event ∈ _, _))

theorem storesInside_iff
    {c d : Conn} {events : List Event} (shape : d.trace = c.trace ++ events) :
    StoresInside c d ↔ ∀ event ∈ events, event.IsInside := by
  unfold StoresInside
  rw [shape, List.drop_left]

/-- What `process_read` and its parsers leave alone, and the kinds of events
they cause.  The descriptor and the address stand in front of `m_read_buf`,
where a store can hit them. -/
structure ReadsOnly (c d : Conn) : Prop where
  socket_eq : StoresInside c d → d.sockfd = c.sockfd ∧ d.address = c.address
  readIdx_eq : d.readIdx = c.readIdx
  writeBuf_eq : d.writeBuf = c.writeBuf
  writeIdx_eq : d.writeIdx = c.writeIdx
  realFile_eq : d.realFile = c.realFile
  fileAddress_eq : d.fileAddress = c.fileAddress
  fileStat_eq : d.fileStat = c.fileStat
  iv0_eq : d.iv0 = c.iv0
  iv1_eq : d.iv1 = c.iv1
  ivCount_eq : d.ivCount = c.ivCount
  trace_eq : ∃ events, d.trace = c.trace ++ events ∧
    ∀ event ∈ events, event.IsParsing

theorem ReadsOnly.refl (c : Conn) : ReadsOnly c c :=
  ⟨fun _ => ⟨rfl, rfl⟩, rfl, rfl, rfl, rfl, rfl, rfl, rfl, rfl, rfl, [],
    by simp, by simp⟩

theorem ReadsOnly.trans
    {c d e : Conn} (first : ReadsOnly c d) (second : ReadsOnly d e) :
    ReadsOnly c e := by
  obtain ⟨events, shape, parsing⟩ := first.trace_eq
  obtain ⟨more, moreShape, moreParsing⟩ := second.trace_eq
  have whole : e.trace = c.trace ++ (events ++ more) := by
    rw [moreShape, shape, List.append_assoc]
  have socket :
      StoresInside c e → e.sockfd = c.sockfd ∧ e.address = c.address := by
    intro inside
    rw [storesInside_iff whole, List.forall_mem_append] at inside
    obtain ⟨sockfd, address⟩ :=
      first.socket_eq ((storesInside_iff shape).mpr inside.1)
    obtain ⟨laterSockfd, laterAddress⟩ :=
      second.socket_eq ((storesInside_iff moreShape).mpr inside.2)
    exact ⟨laterSockfd.trans sockfd, laterAddress.trans address⟩
  exact
    { socket_eq := socket
      readIdx_eq := second.readIdx_eq.trans first.readIdx_eq
      writeBuf_eq := second.writeBuf_eq.trans first.writeBuf_eq
      writeIdx_eq := second.writeIdx_eq.trans first.writeIdx_eq
      realFile_eq := second.realFile_eq.trans first.realFile_eq
      fileAddress_eq := second.fileAddress_eq.trans first.fileAddress_eq
      fileStat_eq := second.fileStat_eq.trans first.fileStat_eq
      iv0_eq := second.iv0_eq.trans first.iv0_eq
      iv1_eq := second.iv1_eq.trans first.iv1_eq
      ivCount_eq := second.ivCount_eq.trans first.ivCount_eq
      trace_eq :=
        ⟨events ++ more, whole,
          fun event member =>
            (List.mem_append.mp member).elim (parsing event)
              (moreParsing event)⟩ }

theorem ReadsOnly.emit
    (c : Conn) {event : Event} (parsing : event.IsParsing) :
    ReadsOnly c (c.emit event) :=
  ⟨fun _ => ⟨rfl, rfl⟩, rfl, rfl, rfl, rfl, rfl, rfl, rfl, rfl, rfl, [event],
    rfl, by simpa using parsing⟩

theorem ReadsOnly.store (c : Conn) (index : Int) (byte : UInt8) :
    ReadsOnly c (c.store index byte) := by
  have socket :
      StoresInside c (c.store index byte) →
        (c.store index byte).sockfd = c.sockfd ∧
          (c.store index byte).address = c.address := by
    intro inside
    rw [storesInside_iff (store_trace c index byte)] at inside
    obtain ⟨lower, _⟩ := inside (.store index) List.mem_cons_self
    obtain ⟨position, rfl⟩ := Int.eq_ofNat_of_zero_le lower
    exact ⟨rfl, rfl⟩
  have trace := store_trace c index byte
  obtain ⟨sockfd, address, memory, shape, _⟩ := store_frame c index byte
  rw [shape] at socket trace ⊢
  exact
    ⟨socket, rfl, rfl, rfl, rfl, rfl, rfl, rfl, rfl, rfl, [.store index],
      trace, by simp [Event.IsParsing]⟩

theorem ReadsOnly.edit
    {first stop : Nat} {c d : Conn} (edit : Edit first stop c d) :
    ReadsOnly c d :=
  edit.keeps (ReadsOnly c)
    (fun _ _ _ before => before.trans (.emit _ trivial))
    (fun _ index _ before => before.trans (.store _ index 0))
    (fun _ _ _ _ _ _ _ _ _ _ _ before => { before with })
    (.refl c)

theorem ReadsOnly.advance
    {c d : Conn} (reads : ReadsOnly c d) (checkedIdx : Nat) :
    ReadsOnly c { d with checkedIdx := checkedIdx } :=
  { reads with }

theorem ReadsOnly.passed (c : Conn) (scan : LineStatus × Nat) :
    ReadsOnly c (c.passed scan) := by
  unfold Conn.passed
  have moved := (ReadsOnly.refl c).advance (c.checkedIdx + scan.2 - 2)
  split
  · have first := moved.trans (.store _ (c.checkedIdx + scan.2 - 2 : Nat) 0)
    have second :=
      (first.advance (c.checkedIdx + scan.2 - 2 + 1)).trans
        (.store _ (c.checkedIdx + scan.2 - 2 + 1 : Nat) 0)
    exact second.advance (c.checkedIdx + scan.2 - 2 + 1 + 1)
  · exact (ReadsOnly.refl c).advance (c.checkedIdx + scan.2)

theorem ReadsOnly.entered (c : Conn) : ReadsOnly c c.entered :=
  { ReadsOnly.refl c with
    socket_eq := fun _ => ⟨rfl, rfl⟩
    trace_eq := ⟨[.scan c.startLine true], rfl, by simp [Event.IsParsing]⟩ }

/-- All that a turn can be: no line is found; a request line or a header line
is parsed; or the body is checked, with the line at hand or one found. -/
inductive TurnShape (fs : FileSystem) (lineStatus : LineStatus) (c : Conn) :
    Turn → Prop
  | stopped
      (noneAtHand : ¬ (c.checkState = .content ∧ lineStatus = .lineOk))
      (noLine : (scanLine c.unread).1 ≠ .lineOk) :
      TurnShape fs lineStatus c
        (.done .noRequest (c.passed (scanLine c.unread)))
  | requestLine {line : List UInt8}
      (state : c.checkState = .requestLine)
      (found : (scanLine c.unread).1 = .lineOk)
      (string :
        StringAt (c.passed (scanLine c.unread)).readBuf c.startLine line)
      (ends : c.startLine + line.length + 2 ≤
        (c.passed (scanLine c.unread)).checkedIdx) :
      TurnShape fs lineStatus c
        (if ((c.passed (scanLine c.unread)).entered.requestLineOn
            c.startLine line).1 = .badRequest then
          .done .badRequest
            ((c.passed (scanLine c.unread)).entered.requestLineOn
              c.startLine line).2
        else
          .again .lineOk
            ((c.passed (scanLine c.unread)).entered.requestLineOn
              c.startLine line).2)
  | header {line : List UInt8}
      (state : c.checkState = .header)
      (found : (scanLine c.unread).1 = .lineOk)
      (string :
        StringAt (c.passed (scanLine c.unread)).readBuf c.startLine line)
      (ends : c.startLine + line.length + 2 ≤
        (c.passed (scanLine c.unread)).checkedIdx) :
      TurnShape fs lineStatus c
        (if ((c.passed (scanLine c.unread)).entered.headersOn
            c.startLine line).1 = .getRequest then
          .done
            (((c.passed (scanLine c.unread)).entered.headersOn
              c.startLine line).2.doRequest fs).1
            (((c.passed (scanLine c.unread)).entered.headersOn
              c.startLine line).2.doRequest fs).2
        else
          .again .lineOk
            ((c.passed (scanLine c.unread)).entered.headersOn
              c.startLine line).2)
  | content (d : Conn)
      (state : c.checkState = .content)
      (fetched :
        lineStatus = .lineOk ∧ d = c ∨
          lineStatus ≠ .lineOk ∧ (scanLine c.unread).1 = .lineOk ∧
            d = c.passed (scanLine c.unread)) :
      TurnShape fs lineStatus c
        (if toInt (d.contentLength + d.checkedIdx) ≤ d.readIdx then
          .done (d.bodyCut.doRequest fs).1 (d.bodyCut.doRequest fs).2
        else
          .again .lineOpen d.bodyChecked)

theorem turnShape
    {c : Conn} (framed : c.Framed) (fs : FileSystem)
    (lineStatus : LineStatus) :
    TurnShape fs lineStatus c (c.turn fs lineStatus) := by
  rw [turn_eq framed]
  by_cases atHand : c.checkState = .content ∧ lineStatus = .lineOk
  · rw [if_pos atHand, dispatchLine_content fs atHand.1]
    exact .content c atHand.1 (.inl ⟨atHand.2, rfl⟩)
  rw [if_neg atHand]
  by_cases found : (scanLine c.unread).1 = .lineOk
  · rw [if_pos found]
    obtain ⟨line, string, ends⟩ := passed_string framed found
    cases state : c.checkState with
    | requestLine =>
        have sameState :
            (c.passed (scanLine c.unread)).checkState = .requestLine := by
          rw [passed_checkState, state]
        rw [dispatchLine_requestLine fs sameState
          (by rw [passed_startLine]; exact string), passed_startLine]
        exact .requestLine state found string ends
    | header =>
        have sameState :
            (c.passed (scanLine c.unread)).checkState = .header := by
          rw [passed_checkState, state]
        rw [dispatchLine_header fs sameState
          (by rw [passed_startLine]; exact string), passed_startLine]
        exact .header state found string ends
    | content =>
        have sameState :
            (c.passed (scanLine c.unread)).checkState = .content := by
          rw [passed_checkState, state]
        have notOk : lineStatus ≠ .lineOk :=
          fun isOk => atHand ⟨state, isOk⟩
        rw [dispatchLine_content fs sameState]
        exact .content _ state (.inr ⟨notOk, found, rfl⟩)
  · rw [if_neg found]
    exact .stopped atHand found

/-- The object whose body a turn checks, with the line at hand or one found. -/
def Fetched (lineStatus : LineStatus) (c d : Conn) : Prop :=
  lineStatus = .lineOk ∧ d = c ∨
    lineStatus ≠ .lineOk ∧ (scanLine c.unread).1 = .lineOk ∧
      d = c.passed (scanLine c.unread)

theorem Fetched.state
    {lineStatus : LineStatus} {c d : Conn}
    (fetched : Fetched lineStatus c d) (state : c.checkState = .content) :
    d.checkState = .content := by
  rcases fetched with ⟨_, rfl⟩ | ⟨_, _, rfl⟩
  · exact state
  · rw [passed_checkState, state]

/-- The turns in the body: no line is found, or the check finds the body
complete or incomplete. -/
inductive ContentTurn
    (fs : FileSystem) (lineStatus : LineStatus) (c : Conn) : Turn → Prop
  | stopped (noLine : (scanLine c.unread).1 ≠ .lineOk) :
      ContentTurn fs lineStatus c
        (.done .noRequest (c.passed (scanLine c.unread)))
  | complete {d : Conn} (fetched : Fetched lineStatus c d)
      (small : toInt (d.contentLength + d.checkedIdx) ≤ d.readIdx) :
      ContentTurn fs lineStatus c
        (.done (d.bodyCut.doRequest fs).1 (d.bodyCut.doRequest fs).2)
  | incomplete {d : Conn} (fetched : Fetched lineStatus c d)
      (notSmall : ¬ toInt (d.contentLength + d.checkedIdx) ≤ d.readIdx) :
      ContentTurn fs lineStatus c (.again .lineOpen d.bodyChecked)

theorem contentTurn
    {c : Conn} (framed : c.Framed) (state : c.checkState = .content)
    (fs : FileSystem) (lineStatus : LineStatus) :
    ContentTurn fs lineStatus c (c.turn fs lineStatus) := by
  have shape := turnShape framed fs lineStatus
  generalize c.turn fs lineStatus = outcome at shape ⊢
  cases shape with
  | stopped _ noLine => exact .stopped noLine
  | requestLine otherState => rw [state] at otherState; cases otherState
  | header otherState => rw [state] at otherState; cases otherState
  | content d _ fetched =>
      split
      · next small => exact .complete fetched small
      · next notSmall => exact .incomplete fetched notSmall

def turnsLeft (lineStatus : LineStatus) (c : Conn) : Nat :=
  c.readIdx - c.checkedIdx +
    if c.checkState = .content ∧ lineStatus = .lineOk then 1 else 0

theorem Edit.indices
    {first stop : Nat} {c d : Conn} (edit : Edit first stop c d) :
    d.checkedIdx = c.checkedIdx ∧ d.startLine = c.startLine :=
  edit.keeps
    (fun e => e.checkedIdx = c.checkedIdx ∧ e.startLine = c.startLine)
    (fun _ _ _ same => same) (fun _ _ _ same => same)
    (fun _ _ _ _ _ _ _ _ _ _ _ same => same) ⟨rfl, rfl⟩

/-- Edits in front of `m_checked_idx` leave the bytes that are not passed. -/
theorem Edit.unread_eq
    {first stop : Nat} {c d : Conn} (edit : Edit first stop c d)
    (below : stop ≤ c.checkedIdx) : d.unread = c.unread := by
  have same :
      d.unread = c.unread ∧ d.checkedIdx = c.checkedIdx :=
    edit.keeps
      (fun e => e.unread = c.unread ∧ e.checkedIdx = c.checkedIdx)
      (fun _ _ _ same => same)
      (fun e index inside same => by
        refine ⟨?_, same.2⟩
        rw [← same.1, store_natCast]
        exact unread_set_of_lt (c := e) (by omega))
      (fun _ _ _ _ _ _ _ _ _ _ _ same => same) ⟨rfl, rfl⟩
  exact same.1

theorem Framed.entered {c : Conn} (framed : c.Framed) :
    c.entered.Framed :=
  { framed with startLine_le := Nat.le_refl _ }

theorem Framed.bodyChecked {c : Conn} (framed : c.Framed) :
    c.bodyChecked.Framed :=
  { framed with startLine_le := Nat.le_refl _ }

theorem ReadsOnly.bodyChecked (c : Conn) : ReadsOnly c c.bodyChecked :=
  { ReadsOnly.refl c with
    socket_eq := fun _ => ⟨rfl, rfl⟩
    trace_eq := ⟨[_, _], List.append_assoc _ _ _, by
      simp [Event.IsParsing]⟩ }

private theorem turnsLeft_lt
    {lineStatus nextStatus : LineStatus} {c next : Conn}
    (framed : c.Framed) (found : (scanLine c.unread).1 = .lineOk)
    (readIdxEq : next.readIdx = c.readIdx)
    (checkedIdxEq :
      next.checkedIdx = (c.passed (scanLine c.unread)).checkedIdx) :
    turnsLeft nextStatus next < turnsLeft lineStatus c := by
  have advanced := (passed_nul framed found).1
  have inside := framed.passed.checkedIdx_le
  rw [passed_readIdx] at inside
  unfold turnsLeft
  rw [readIdxEq, checkedIdxEq]
  split <;> omega

/-- A line parser that is done with its line has come closer to the end of the
bytes. -/
theorem turn_again_of_edit
    {lineStatus nextStatus : LineStatus} {c next : Conn} {first stop : Nat}
    (framed : c.Framed) (found : (scanLine c.unread).1 = .lineOk)
    (edit : Edit first stop (c.passed (scanLine c.unread)).entered next) :
    next.Framed ∧ ReadsOnly c next ∧
      turnsLeft nextStatus next < turnsLeft lineStatus c := by
  have enteredReads :=
    (ReadsOnly.passed c (scanLine c.unread)).trans
      (.entered (c.passed (scanLine c.unread)))
  have reads := enteredReads.trans (.edit edit)
  exact
    ⟨framed.passed.entered.edit edit, reads,
      turnsLeft_lt framed found reads.readIdx_eq edit.indices.1⟩

/-- A turn that goes on keeps the frame and comes closer to the end of the
bytes. -/
theorem turn_again
    {fs : FileSystem} {lineStatus nextStatus : LineStatus} {c next : Conn}
    (framed : c.Framed)
    (turned : c.turn fs lineStatus = .again nextStatus next) :
    next.Framed ∧ ReadsOnly c next ∧
      turnsLeft nextStatus next < turnsLeft lineStatus c := by
  have shape := turnShape framed fs lineStatus
  rw [turned] at shape
  generalize result : Turn.again nextStatus next = outcome at shape
  have passedReads := ReadsOnly.passed c (scanLine c.unread)
  cases shape with
  | stopped _ _ =>
      cases result
  | @requestLine line state found string ends =>
      have edit :=
        requestLineOn_edit (c.passed (scanLine c.unread)).entered
          c.startLine line
      split at result
      · cases result
      · cases result
        exact turn_again_of_edit framed found edit
  | @header line state found string ends =>
      have edit :=
        headersOn_edit (c.passed (scanLine c.unread)).entered
          c.startLine line
      split at result
      · cases result
      · cases result
        exact turn_again_of_edit framed found edit
  | content d state fetched =>
      split at result
      · cases result
      · cases result
        rcases fetched with ⟨isOk, rfl⟩ | ⟨_, found, rfl⟩
        · refine ⟨framed.bodyChecked, .bodyChecked d, ?_⟩
          unfold turnsLeft
          rw [if_neg (by simp), if_pos ⟨state, isOk⟩]
          show d.readIdx - d.checkedIdx + 0 < _
          omega
        · exact
            ⟨framed.passed.bodyChecked,
              passedReads.trans (.bodyChecked _),
              turnsLeft_lt framed found (passed_readIdx c _) rfl⟩

/-- A turn that returns has found no line, has met a bad request, or runs
`do_request`. -/
theorem turn_done
    {fs : FileSystem} {lineStatus : LineStatus} {c last : Conn}
    {code : HttpCode} (framed : c.Framed)
    (turned : c.turn fs lineStatus = .done code last) :
    ∃ d, d.Framed ∧ ReadsOnly c d ∧
      ((code = .noRequest ∨ code = .badRequest) ∧ last = d ∨
        (code, last) = d.doRequest fs) := by
  have shape := turnShape framed fs lineStatus
  rw [turned] at shape
  generalize result : Turn.done code last = outcome at shape
  have passedReads := ReadsOnly.passed c (scanLine c.unread)
  have enteredReads :=
    passedReads.trans (.entered (c.passed (scanLine c.unread)))
  cases shape with
  | stopped _ _ =>
      cases result
      exact ⟨_, framed.passed, passedReads, .inl ⟨.inl rfl, rfl⟩⟩
  | @requestLine line state found string ends =>
      have edit :=
        requestLineOn_edit (c.passed (scanLine c.unread)).entered
          c.startLine line
      split at result
      · cases result
        exact
          ⟨_, framed.passed.entered.edit edit,
            enteredReads.trans (.edit edit), .inl ⟨.inr rfl, rfl⟩⟩
      · cases result
  | @header line state found string ends =>
      have edit :=
        headersOn_edit (c.passed (scanLine c.unread)).entered
          c.startLine line
      split at result
      · cases result
        exact
          ⟨_, framed.passed.entered.edit edit,
            enteredReads.trans (.edit edit), .inr rfl⟩
      · cases result
  | content d state fetched =>
      have dFramed : d.Framed ∧ ReadsOnly c d := by
        rcases fetched with ⟨_, rfl⟩ | ⟨_, _, rfl⟩
        · exact ⟨framed, .refl d⟩
        · exact ⟨framed.passed, passedReads⟩
      split at result
      · cases result
        exact
          ⟨d.bodyCut, dFramed.1.bodyChecked.store _,
            dFramed.2.trans
              ((ReadsOnly.bodyChecked d).trans (.store _ _ 0)), .inr rfl⟩
      · cases result

/-- The loop returns, within the turns that can follow. -/
theorem returns_processReadLoop
    {c : Conn} (fs : FileSystem) (fuel : Nat) (lineStatus : LineStatus)
    (framed : c.Framed) (enough : turnsLeft lineStatus c < fuel) :
    Returns fs lineStatus c
      (processReadLoop fs fuel lineStatus c).1
      (processReadLoop fs fuel lineStatus c).2 := by
  induction fuel generalizing lineStatus c with
  | zero =>
      omega
  | succ fuel inductionHypothesis =>
      rw [processReadLoop]
      cases turned : c.turn fs lineStatus with
      | done code last =>
          exact .done turned
      | again nextStatus next =>
          obtain ⟨nextFramed, _, closer⟩ := turn_again framed turned
          exact .again turned
            (inductionHypothesis nextStatus nextFramed (by omega))

theorem turnsLeft_lt_turnBound (lineStatus : LineStatus) (c : Conn) :
    turnsLeft lineStatus c < c.turnBound := by
  unfold turnsLeft turnBound
  split <;> omega

/-- The bound on the turns of `process_read` is never reached. -/
theorem returns_processRead
    {c : Conn} (framed : c.Framed) (fs : FileSystem) :
    Returns fs .lineOk c (c.processRead fs).1 (c.processRead fs).2 :=
  returns_processReadLoop fs c.turnBound .lineOk framed
    (turnsLeft_lt_turnBound .lineOk c)

theorem processRead_eq_iff
    {c last : Conn} {code : HttpCode} (framed : c.Framed)
    (fs : FileSystem) :
    c.processRead fs = (code, last) ↔ Returns fs .lineOk c code last := by
  have returns := returns_processRead framed fs
  constructor
  · intro same
    rw [same] at returns
    exact returns
  · intro other
    obtain ⟨codeEq, lastEq⟩ := returns.unique other
    exact Prod.ext codeEq lastEq

/-- `process_read` asks for more bytes, reports a bad request, or ends in
`do_request`. -/
theorem returns_cases
    {fs : FileSystem} {lineStatus : LineStatus} {c last : Conn}
    {code : HttpCode} (framed : c.Framed)
    (returns : Returns fs lineStatus c code last) :
    ∃ d, d.Framed ∧ ReadsOnly c d ∧
      ((code = .noRequest ∨ code = .badRequest) ∧ last = d ∨
        (code, last) = d.doRequest fs) := by
  induction returns with
  | done turned =>
      exact turn_done framed turned
  | again turned _ inductionHypothesis =>
      obtain ⟨nextFramed, reads, _⟩ := turn_again framed turned
      obtain ⟨d, dFramed, later, result⟩ := inductionHypothesis nextFramed
      exact ⟨d, dFramed, reads.trans later, result⟩

theorem Framed.doRequest
    {c : Conn} (framed : c.Framed) (fs : FileSystem) :
    (c.doRequest fs).2.Framed := by
  unfold Conn.doRequest
  simp only
  repeat' split
  all_goals exact { framed with }

theorem Framed.returns
    {fs : FileSystem} {lineStatus : LineStatus} {c last : Conn}
    {code : HttpCode} (framed : c.Framed)
    (returns : Returns fs lineStatus c code last) : last.Framed := by
  obtain ⟨d, dFramed, _, ⟨_, rfl⟩ | requested⟩ :=
    returns_cases framed returns
  · exact dFramed
  · have after := dFramed.doRequest fs
    rw [← requested] at after
    exact after

end Conn

end LinuxNet.WebServer
