import LinuxNet.WebServer.Turns

/-!
# The head of a request can be resumed at every byte

More bytes may arrive before a turn or after it: as long as the parser is in
the head of a request, a turn that finds its line commutes with `receive`,
and a turn that finds none is taken up again where the scanner stopped.
-/

namespace LinuxNet.WebServer

open LinuxNet.CString LinuxNet.CInt

namespace Conn

/-! ## Receiving bytes -/

theorem receive_append (c : Conn) (first second : List UInt8) :
    c.readIdx ≤ c.readBuf.length →
    (c.receive first).receive second = c.receive (first ++ second) := by
  intro inside
  have received :
      (c.readBuf.take c.readIdx ++ first).length =
        c.readIdx + first.length := by
    rw [List.length_append, List.length_take, Nat.min_eq_left inside]
  have split :
      (c.readBuf.take c.readIdx ++ first ++
          c.readBuf.drop (c.readIdx + first.length)).take
            (c.readIdx + first.length) =
        c.readBuf.take c.readIdx ++ first := by
    rw [List.take_append_of_le_length (by omega),
      List.take_of_length_le (by omega)]
  have later :
      (c.readBuf.take c.readIdx ++ first ++
          c.readBuf.drop (c.readIdx + first.length)).drop
            (c.readIdx + first.length + second.length) =
        c.readBuf.drop (c.readIdx + (first ++ second).length) := by
    rw [List.drop_append, List.drop_eq_nil_of_le (by omega),
      List.nil_append, List.drop_drop, received, List.length_append]
    congr 1
    omega
  unfold receive
  simp only [split, later]
  simp only [List.length_append, Nat.add_assoc, List.append_assoc]

theorem receive_nil (c : Conn) : c.receive [] = c := by
  simp [receive]

theorem receive_set
    {c : Conn} (block : List UInt8) (index : Nat) (framed : c.Framed)
    (inside : index < c.readIdx) (byte : UInt8) :
    { c.receive block with
        readBuf := (c.receive block).readBuf.set index byte } =
      { c with readBuf := c.readBuf.set index byte }.receive block := by
  have length := framed.length_eq
  have bound := framed.readIdx_le
  have changed :
      (c.readBuf.take c.readIdx ++ block ++
          c.readBuf.drop (c.readIdx + block.length)).set index byte =
        (c.readBuf.set index byte).take c.readIdx ++ block ++
          (c.readBuf.set index byte).drop
            (c.readIdx + block.length) := by
    rw [List.append_assoc, List.set_append_left _ _
      (by rw [List.length_take]; omega), List.take_set,
      List.drop_set_of_lt (by omega), List.append_assoc]
  unfold receive
  simp only [changed]

section Receive

variable {c : Conn} {block : List UInt8}

/-- There is room for the block in `m_read_buf`. -/
def Room (c : Conn) (block : List UInt8) : Prop :=
  c.readIdx + block.length ≤ readBufferSize

theorem receive_take
    {stop : Nat} (framed : c.Framed) (before : stop ≤ c.readIdx) :
    (c.receive block).readBuf.take stop = c.readBuf.take stop := by
  have length := framed.length_eq
  have bound := framed.readIdx_le
  simp only [receive, List.append_assoc]
  rw [List.take_append_of_le_length
    (by rw [List.length_take]; omega), List.take_take,
    Nat.min_eq_left before]

theorem Framed.receive
    (framed : c.Framed) (room : c.Room block) :
    (c.receive block).Framed where
  length_eq := by
    have length := framed.length_eq
    have bound := framed.readIdx_le
    unfold Room at room
    simp only [Conn.receive, List.length_append, List.length_take,
      List.length_drop]
    omega
  startLine_le := framed.startLine_le
  checkedIdx_le := Nat.le_add_right_of_le framed.checkedIdx_le
  readIdx_le := room
  behind := by
    rcases Nat.eq_zero_or_pos c.checkedIdx with first | later
    · exact .inl first
    refine framed.behind.imp_right fun different => ?_
    have inside := framed.checkedIdx_le
    have same :
        (c.receive block).readBuf[c.checkedIdx - 1]? =
          c.readBuf[c.checkedIdx - 1]? := by
      rw [← List.getElem?_take_of_lt
          (show c.checkedIdx - 1 < c.readIdx by omega),
        receive_take framed (Nat.le_refl _),
        List.getElem?_take_of_lt
          (show c.checkedIdx - 1 < c.readIdx by omega)]
    rw [List.getD_eq_getElem?_getD] at different ⊢
    show ¬ (c.receive block).readBuf[c.checkedIdx - 1]?.getD 0 = 13
    rw [same]
    exact different

theorem unread_receive
    (framed : c.Framed) :
    (c.receive block).unread = c.unread ++ block := by
  have length := framed.length_eq
  have bound := framed.readIdx_le
  have inside := framed.checkedIdx_le
  unfold unread
  have received :
      (c.receive block).readBuf.take (c.receive block).readIdx =
        c.readBuf.take c.readIdx ++ block := by
    simp only [receive]
    rw [List.take_append_of_le_length
      (by simp only [List.length_append, List.length_take]; omega)]
    exact List.take_of_length_le
      (by simp only [List.length_append, List.length_take]; omega)
  rw [received]
  show (c.readBuf.take c.readIdx ++ block).drop c.checkedIdx = _
  exact List.drop_append_of_le_length
    (by rw [List.length_take, length]; omega)

theorem receive_scanned (start : Nat) :
    (c.receive block).scanned start = (c.scanned start).receive block :=
  rfl

theorem receive_store
    {index : Nat} (framed : c.Framed) (inside : index < c.readIdx)
    (byte : UInt8) :
    (c.receive block).store (index : Int) byte =
      (c.store (index : Int) byte).receive block := by
  rw [store_natCast, store_natCast]
  have changed := receive_set block index framed inside byte
  exact
    congrArg
      (fun d : Conn =>
        { d with trace := c.trace ++ [Event.store index] }) changed

/-- The scanner stores inside the bytes received. -/
theorem receive_passed (framed : c.Framed) :
    (c.receive block).passed (scanLine c.unread) =
      (c.passed (scanLine c.unread)).receive block := by
  have total := length_unread framed
  have result := scanResult c.unread
  generalize remaining : c.unread = bytes at result total
  generalize scanLine bytes = scanned at result
  cases result with
  | @found line rest clean =>
      simp only [List.length_append, List.length_cons] at total
      rw [passed_lineOk, passed_lineOk]
      have first :=
        receive_set block (c.checkedIdx + line.length) framed (by omega) 0
      have second :=
        receive_set block (c.checkedIdx + line.length + 1)
          (framed.set_nul (c.checkedIdx + line.length))
          (by show _ < c.readIdx; omega) 0
      rw [← first] at second
      exact
        congrArg
          (fun d : Conn =>
            { d with
              checkedIdx := c.checkedIdx + line.length + 2
              trace :=
                c.trace ++
                  [Event.store (c.checkedIdx + line.length : Nat),
                    Event.store (c.checkedIdx + line.length + 1 : Nat)] })
          second
  | atEnd _ | atReturn _ | bareReturn _ _ _ | bareFeed _ _ =>
      rfl

theorem targetOn_receive (url : Nat) (word : List UInt8) :
    (c.receive block).targetOn url word =
      ((c.targetOn url word).1,
        (c.targetOn url word).2.receive block) := by
  unfold targetOn
  by_cases absolute : SameIgnoringCase (word.take 7) httpPrefix
  · simp only [if_pos absolute]
    cases pathOffset word with
    | none => rfl
    | some offset =>
        simp only
        split <;> rfl
  · simp only [if_neg absolute]
    cases pathOffset word with
    | none => rfl
    | some offset =>
        simp only
        split <;> rfl

theorem versionOn_receive
    {url : Nat} {tail : List UInt8} (framed : c.Framed)
    (inside : url + tail.length < c.readIdx) :
    (c.receive block).versionOn url tail =
      ((c.versionOn url tail).1,
        (c.versionOn url tail).2.receive block) := by
  unfold versionOn
  cases found : tail.findIdx? isBlank with
  | none => rfl
  | some blank =>
      obtain ⟨within, _, _⟩ := List.findIdx?_eq_some_iff_getElem.mp found
      have framedScan : (c.scanned url).Framed := { framed with }
      simp only [receive_scanned]
      rw [receive_store framedScan
        (show url + blank < (c.scanned url).readIdx by
          show url + blank < c.readIdx
          omega)]
      split
      · exact
          targetOn_receive
            (c :=
              { ((c.scanned url).store (url + blank : Nat) 0).scanned _ with
                version := some _ }.scanned _) _ _
      · rfl

theorem requestLineOn_receive
    {text : Nat} {line : List UInt8} (framed : c.Framed)
    (inside : text + line.length < c.readIdx) :
    (c.receive block).requestLineOn text line =
      ((c.requestLineOn text line).1,
        (c.requestLineOn text line).2.receive block) := by
  unfold requestLineOn
  cases found : line.findIdx? isBlank with
  | none => rfl
  | some blank =>
      obtain ⟨within, _, _⟩ := List.findIdx?_eq_some_iff_getElem.mp found
      have skipped := blanks_le (line.drop (blank + 1))
      rw [List.length_drop] at skipped
      have framedScan : (c.scanned text).Framed := { framed with }
      simp only [receive_scanned]
      rw [receive_store framedScan
        (show text + blank < (c.scanned text).readIdx by
          show text + blank < c.readIdx
          omega)]
      have storedFramed := framedScan.store (text + blank : Nat)
      have storedIdx :
          ((c.scanned text).store (text + blank : Nat) 0).readIdx =
            c.readIdx := rfl
      generalize (c.scanned text).store (text + blank : Nat) 0 = stored
        at storedFramed storedIdx ⊢
      split
      · refine
          versionOn_receive
            (c :=
              { { stored.scanned _ with url := some _ }.scanned _ with
                method := .get }) ?_ ?_
        · exact { storedFramed with }
        · show _ < stored.readIdx
          rw [storedIdx, List.length_drop]
          omega
      · rfl

theorem headersOn_receive (text : Nat) (line : List UInt8) :
    (c.receive block).headersOn text line =
      ((c.headersOn text line).1,
        (c.headersOn text line).2.receive block) := by
  have sameLength :
      (c.receive block).contentLength = c.contentLength := rfl
  unfold headersOn
  rw [sameLength]
  split
  · split <;> rfl
  simp only
  split
  · split <;> rfl
  split
  · rfl
  split <;> rfl

end Receive

/-- `m_url` and `m_host` point in front of an index that has a NUL before
it. -/
structure Texts (c : Conn) (stop : Nat) : Prop where
  url_lt : ∀ url, c.url = some url → url < stop
  host_lt : ∀ host, c.host = some host → host < stop
  nul : 0 < stop → c.readBuf.getD (stop - 1) 0 = 0

theorem getD_set_nul
    {memory : List UInt8} {index other : Nat}
    (nul : memory.getD other 0 = 0) :
    (memory.set index 0).getD other 0 = 0 := by
  rw [List.getD_eq_getElem?_getD] at nul ⊢
  rw [List.getElem?_set]
  split
  · split <;> rfl
  · exact nul

theorem Texts.store
    {c : Conn} {stop : Nat} (texts : Texts c stop) (index : Int) :
    Texts (c.store index 0) stop := by
  obtain ⟨sockfd, address, memory, shape, rfl | ⟨position, _, rfl⟩⟩ :=
    store_frame c index 0
  · rw [shape]
    exact { texts with }
  · rw [shape]
    exact
      { url_lt := texts.url_lt
        host_lt := texts.host_lt
        nul := fun positive => getD_set_nul (texts.nul positive) }

theorem Texts.edit
    {c d : Conn} {first ends stop : Nat} (texts : Texts c stop)
    (edit : Edit first ends c d) (below : ends < stop) :
    Texts d stop :=
  edit.keeps (Texts · stop)
    (fun _ _ _ texts => { texts with })
    (fun _ index _ texts => texts.store index)
    (fun _ _ _ _ _ _ _ _ urlInside hostInside _ texts =>
      { url_lt := fun url same =>
          (urlInside url same).elim (texts.url_lt url)
            (fun inside => by omega)
        host_lt := fun host same =>
          (hostInside host same).elim (texts.host_lt host)
            (fun inside => by omega)
        nul := texts.nul })
    texts

/-- The texts do not depend on what stands behind them. -/
theorem Texts.texts_eq
    {c d : Conn} {stop : Nat} (texts : Texts c stop)
    (inside : stop ≤ c.readBuf.length)
    (urlEq : d.url = c.url) (hostEq : d.host = c.host)
    (agree : d.readBuf.take stop = c.readBuf.take stop) :
    d.urlText = c.urlText ∧ d.hostText = c.hostText := by
  have same :
      ∀ start, start < stop → cstr d.readBuf start = cstr c.readBuf start := by
    intro start below
    obtain ⟨string, ends⟩ :=
      StringAt.of_getD_eq_zero c.readBuf start (stop - 1) (by omega)
        (by omega) (texts.nul (by omega))
    exact (string.of_take_eq (by omega) agree).cstr_eq
  constructor
  · unfold urlText
    rw [urlEq]
    cases found : c.url with
    | none => rfl
    | some url => exact same url (texts.url_lt url found)
  · unfold hostText
    rw [hostEq]
    cases found : c.host with
    | none => rfl
    | some host =>
        simp only [Option.map_some]
        rw [same host (texts.host_lt host found)]

theorem doRequest_receive
    {c : Conn} {block : List UInt8}
    (sameUrl : (c.receive block).urlText = c.urlText) (fs : FileSystem) :
    (c.receive block).doRequest fs =
      ((c.doRequest fs).1, (c.doRequest fs).2.receive block) := by
  have sameFile : (c.receive block).realFileFor = c.realFileFor := by
    unfold realFileFor
    rw [sameUrl]
    rfl
  unfold doRequest
  rw [sameFile]
  simp only
  cases fs.stat (cstr c.realFileFor 0) with
  | none => rfl
  | some fileStat =>
      simp only
      split
      · rfl
      split
      · rfl
      cases fs.mmap (cstr c.realFileFor 0) fileStat.stSize <;> rfl

structure InHead (c : Conn) : Prop where
  framed : c.Framed
  texts : Texts c c.startLine
  state_ne : c.checkState ≠ .content

theorem texts_passed_entered
    {c : Conn} (framed : c.Framed) (texts : Texts c c.startLine)
    (found : (scanLine c.unread).1 = .lineOk) :
    Texts (c.passed (scanLine c.unread)).entered
      (c.passed (scanLine c.unread)).checkedIdx := by
  obtain ⟨advanced, nuls⟩ := passed_nul framed found
  have ordered := framed.startLine_le
  have scanned : scanLine c.unread = (.lineOk, (scanLine c.unread).2) := by
    rw [← found]
  obtain ⟨line, rest, _, _, passedEq⟩ := scanLine_eq_lineOk scanned
  have sameTexts :
      (c.passed (scanLine c.unread)).url = c.url ∧
        (c.passed (scanLine c.unread)).host = c.host := by
    rw [scanned, passedEq, passed_lineOk]
    exact ⟨rfl, rfl⟩
  refine ⟨?_, ?_, ?_⟩
  · intro url same
    have below := texts.url_lt url (sameTexts.1 ▸ same)
    omega
  · intro host same
    have below := texts.host_lt host (sameTexts.2 ▸ same)
    omega
  · intro positive
    have last :=
      (nuls ((c.passed (scanLine c.unread)).checkedIdx - 2)
        (by omega)).2
    have index :
        (c.passed (scanLine c.unread)).checkedIdx - 2 + 1 =
          (c.passed (scanLine c.unread)).checkedIdx - 1 := by
      omega
    rw [index] at last
    exact last

/-- A turn in the head that finds its line works on it. -/
theorem InHead.turn_eq_dispatchLine
    {c : Conn} (head : c.InHead) (found : (scanLine c.unread).1 = .lineOk)
    (fs : FileSystem) (lineStatus : LineStatus) :
    c.turn fs lineStatus =
      (c.passed (scanLine c.unread)).dispatchLine fs := by
  rw [turn_eq head.framed, if_neg (fun atHand => head.state_ne atHand.1),
    if_pos found]

/-- A line parser of the head leaves the texts in front of the next line. -/
theorem InHead.texts_of_edit
    {c next : Conn} {first stop : Nat} (head : c.InHead)
    (found : (scanLine c.unread).1 = .lineOk)
    (edit : Edit first stop (c.passed (scanLine c.unread)).entered next)
    (below : stop < (c.passed (scanLine c.unread)).checkedIdx) :
    Texts next next.startLine ∧ next.startLine = next.checkedIdx := by
  have texts := texts_passed_entered head.framed head.texts found
  obtain ⟨checkedEq, startEq⟩ := edit.indices
  refine ⟨?_, startEq.trans checkedEq.symm⟩
  rw [startEq]
  exact texts.edit edit below

/-- A turn in the head that goes on leaves the texts in front of the next
line. -/
theorem InHead.turn_again
    {fs : FileSystem} {lineStatus nextStatus : LineStatus} {c next : Conn}
    (head : c.InHead)
    (turned : c.turn fs lineStatus = .again nextStatus next) :
    nextStatus = .lineOk ∧ next.Framed ∧ Texts next next.startLine ∧
      next.startLine = next.checkedIdx := by
  have nextFramed := (Conn.turn_again head.framed turned).1
  have shape := turnShape head.framed fs lineStatus
  rw [turned] at shape
  generalize result : Turn.again nextStatus next = outcome at shape
  cases shape with
  | stopped _ _ => cases result
  | @requestLine line state found string ends =>
      have edit :=
        requestLineOn_edit (c.passed (scanLine c.unread)).entered
          c.startLine line
      split at result
      · cases result
      · cases result
        exact
          ⟨rfl, nextFramed, head.texts_of_edit found edit (by omega)⟩
  | @header line state found string ends =>
      have edit :=
        headersOn_edit (c.passed (scanLine c.unread)).entered
          c.startLine line
      split at result
      · cases result
      · cases result
        exact
          ⟨rfl, nextFramed, head.texts_of_edit found edit (by omega)⟩
  | content d state fetched => exact absurd state head.state_ne

theorem texts_receive
    {c : Conn} {block : List UInt8} {stop : Nat} (framed : c.Framed)
    (texts : Texts c stop) (inside : stop ≤ c.readIdx) :
    Texts (c.receive block) stop where
  url_lt := texts.url_lt
  host_lt := texts.host_lt
  nul := by
    intro positive
    have agree : (c.receive block).readBuf.take stop = c.readBuf.take stop :=
      receive_take framed inside
    have same :
        (c.receive block).readBuf[stop - 1]? = c.readBuf[stop - 1]? := by
      rw [← List.getElem?_take_of_lt (show stop - 1 < stop by omega),
        agree, List.getElem?_take_of_lt (show stop - 1 < stop by omega)]
    have nul := texts.nul positive
    rw [List.getD_eq_getElem?_getD] at nul ⊢
    rw [same]
    exact nul

theorem InHead.receive
    {c : Conn} {block : List UInt8} (head : c.InHead)
    (room : c.Room block) : (c.receive block).InHead where
  framed := head.framed.receive room
  texts :=
    texts_receive head.framed head.texts
      (Nat.le_trans head.framed.startLine_le head.framed.checkedIdx_le)
  state_ne := head.state_ne

def Turn.receive (turn : Turn) (block : List UInt8) : Turn :=
  match turn with
  | .again lineStatus c => .again lineStatus (c.receive block)
  | .done code c => .done code (c.receive block)

theorem receive_entered (c : Conn) (block : List UInt8) :
    (c.receive block).entered = c.entered.receive block :=
  rfl

theorem receive_startLine (c : Conn) (block : List UInt8) :
    (c.receive block).startLine = c.startLine :=
  rfl

theorem turn_receive_of_found
    {fs : FileSystem} {lineStatus : LineStatus} {c : Conn}
    {block : List UInt8} (head : c.InHead) (room : c.Room block)
    (found : (scanLine c.unread).1 = .lineOk) :
    (c.receive block).turn fs lineStatus =
      Turn.receive (c.turn fs lineStatus) block := by
  have framed := head.framed
  have sameScan : scanLine (c.receive block).unread = scanLine c.unread := by
    rw [unread_receive framed]
    exact scanLine_append_of_lineOk found block
  have notAtHand :
      ¬ (c.checkState = .content ∧ lineStatus = .lineOk) :=
    fun atHand => head.state_ne atHand.1
  have notAtHandReceived :
      ¬ ((c.receive block).checkState = .content ∧
        lineStatus = .lineOk) := notAtHand
  obtain ⟨line, string, ends⟩ := passed_string framed found
  have bound := framed.passed.checkedIdx_le
  have passedRoom :
      c.startLine + line.length < (c.passed (scanLine c.unread)).readIdx := by
    omega
  have texts := texts_passed_entered framed head.texts found
  have passedFramed := framed.passed
  have startEq := passed_startLine c (scanLine c.unread)
  have stateEq := passed_checkState c (scanLine c.unread)
  rw [turn_eq (framed.receive room), turn_eq framed,
    if_neg notAtHand, if_neg notAtHandReceived, sameScan, if_pos found,
    if_pos found, receive_passed framed]
  generalize c.passed (scanLine c.unread) = d at *
  rw [← startEq] at string ends passedRoom
  -- the line is the same string with more bytes behind it
  have received :
      StringAt (d.receive block).readBuf (d.receive block).startLine line :=
    string.of_take_eq (by omega)
      (receive_take passedFramed (Nat.le_refl _))
  have enteredFramed := passedFramed.entered
  cases state : c.checkState with
  | content => exact absurd state head.state_ne
  | requestLine =>
      have dState : d.checkState = .requestLine := stateEq.trans state
      rw [dispatchLine_requestLine fs dState string,
        dispatchLine_requestLine fs (c := d.receive block) dState received,
        receive_entered, receive_startLine,
        requestLineOn_receive enteredFramed passedRoom]
      simp only
      split <;> rfl
  | header =>
      have dState : d.checkState = .header := stateEq.trans state
      have edit := headersOn_edit d.entered d.startLine line
      rw [dispatchLine_header fs dState string,
        dispatchLine_header fs (c := d.receive block) dState received,
        receive_entered, receive_startLine, headersOn_receive]
      simp only
      split
      · have lastFramed := enteredFramed.edit edit
        have lastTexts := texts.edit edit (by omega)
        have sameUrl :=
          (lastTexts.texts_eq
            (d := (d.entered.headersOn d.startLine line).2.receive block)
            (by
              have length := lastFramed.length_eq
              have inside := passedFramed.readIdx_le
              omega)
            rfl rfl
            (receive_take lastFramed
              (by
                rw [(ReadsOnly.edit edit).readIdx_eq]
                exact bound))).1
        rw [doRequest_receive sameUrl]
        rfl
      · rfl
theorem passed_add (c : Conn) (count : Nat) (scan : LineStatus × Nat) :
    { c with checkedIdx := c.checkedIdx + count }.passed scan =
      c.passed (scan.1, count + scan.2) := by
  rcases scan with ⟨status, more⟩
  cases status <;> simp only [passed, Nat.add_assoc]

/-- A turn that finds no line is taken up again where it stopped. -/
theorem turn_receive_of_stopped
    {fs : FileSystem} {lineStatus : LineStatus} {c : Conn}
    {block : List UInt8} (head : c.InHead) (room : c.Room block)
    (noLine : (scanLine c.unread).1 ≠ .lineOk) :
    (c.receive block).turn fs lineStatus =
      ((c.passed (scanLine c.unread)).receive block).turn fs .lineOk := by
  have framed := head.framed
  have stoppedRoom : (c.passed (scanLine c.unread)).Room block := by
    unfold Room
    rw [passed_readIdx]
    exact room
  have notAtHand :
      ¬ ((c.receive block).checkState = .content ∧
        lineStatus = .lineOk) :=
    fun atHand => head.state_ne atHand.1
  have notAtHandLater :
      ¬ (((c.passed (scanLine c.unread)).receive block).checkState =
          .content ∧ LineStatus.lineOk = LineStatus.lineOk) := by
    rintro ⟨state, _⟩
    have same := passed_checkState c (scanLine c.unread)
    exact head.state_ne (same.symm.trans state)
  have later :
      ((c.passed (scanLine c.unread)).receive block).unread =
        (c.unread ++ block).drop (scanLine c.unread).2 := by
    rw [unread_receive framed.passed, unread_passed,
      List.drop_append_of_le_length (scanLine_le c.unread)]
  have resumed := scanLine_append_of_stopped noLine block
  have stopped :
      ∀ scan,
        ((c.passed (scanLine c.unread)).receive block).passed scan =
          (c.receive block).passed
            (scan.1, (scanLine c.unread).2 + scan.2) := by
    intro scan
    have scanned :
        scanLine c.unread =
          ((scanLine c.unread).1, (scanLine c.unread).2) := rfl
    rw [scanned, passed_of_ne c noLine]
    exact passed_add (c.receive block) _ scan
  rw [turn_eq (framed.receive room),
    turn_eq (framed.passed.receive stoppedRoom),
    if_neg notAtHand, if_neg notAtHandLater, later,
    unread_receive framed, resumed, stopped]

/-- Turns in the head of a request, the last of which may enter the body. -/
inductive HeadRun (fs : FileSystem) : Conn → Conn → Prop
  | refl (c : Conn) : HeadRun fs c c
  | turn {c next last : Conn}
      (state_ne : c.checkState ≠ .content)
      (turned : c.turn fs .lineOk = .again .lineOk next)
      (rest : HeadRun fs next last) :
      HeadRun fs c last

theorem HeadRun.returns_iff
    {fs : FileSystem} {c last e : Conn} {code : HttpCode}
    (run : HeadRun fs c last) :
    Returns fs .lineOk c code e ↔ Returns fs .lineOk last code e := by
  induction run with
  | refl c => rfl
  | turn _ turned _ inductionHypothesis =>
      rw [← inductionHypothesis]
      constructor
      · intro returns
        cases returns with
        | done turnedToo =>
            rw [turned] at turnedToo
            cases turnedToo
        | again turnedToo rest =>
            rw [turned] at turnedToo
            cases turnedToo
            exact rest
      · exact fun returns => .again turned returns

theorem InHead.again
    {fs : FileSystem} {c next : Conn} (head : c.InHead)
    (turned : c.turn fs .lineOk = .again .lineOk next)
    (state_ne : next.checkState ≠ .content) : next.InHead := by
  obtain ⟨_, framed, texts, _⟩ := head.turn_again turned
  exact ⟨framed, texts, state_ne⟩

theorem scanLine_lineOk_of_again
    {fs : FileSystem} {lineStatus nextStatus : LineStatus} {c next : Conn}
    (head : c.InHead)
    (turned : c.turn fs lineStatus = .again nextStatus next) :
    (scanLine c.unread).1 = .lineOk := by
  by_contra noLine
  rw [turn_eq head.framed, if_neg (fun atHand => head.state_ne atHand.1),
    if_neg noLine] at turned
  cases turned

/-- The run of the head is the same when more bytes have been received. -/
theorem HeadRun.receive
    {fs : FileSystem} {c last : Conn} {block : List UInt8}
    (run : HeadRun fs c last) (head : c.InHead) (room : c.Room block) :
    HeadRun fs (c.receive block) (last.receive block) := by
  induction run with
  | refl c => exact .refl _
  | @turn c next last state_ne turned rest inductionHypothesis =>
      have found := scanLine_lineOk_of_again head turned
      have turnedReceived :
          (c.receive block).turn fs .lineOk =
            .again .lineOk (next.receive block) := by
        rw [turn_receive_of_found head room found, turned]
        rfl
      have nextRoom : next.Room block := by
        unfold Room
        rw [(Conn.turn_again head.framed turned).2.1.readIdx_eq]
        exact room
      refine .turn state_ne turnedReceived ?_
      by_cases state : next.checkState = .content
      · cases rest with
        | refl c => exact .refl _
        | turn state_ne _ _ => exact absurd state state_ne
      · exact inductionHypothesis (head.again turned state) nextRoom

/-- Where the run of the head ends: it enters the body, or a turn in the head
returns. -/
inductive HeadEnd (fs : FileSystem) (c : Conn) : Prop
  | body (mid : Conn) (run : HeadRun fs c mid)
      (state : mid.checkState = .content)
      (framed : mid.Framed) (texts : Texts mid mid.startLine)
      (atLine : mid.startLine = mid.checkedIdx)
  | returned (mid : Conn) (run : HeadRun fs c mid) (head : mid.InHead)
      (code : HttpCode) (last : Conn)
      (turned : mid.turn fs .lineOk = .done code last)

theorem headEnd {c : Conn} (fs : FileSystem) (head : c.InHead) :
    HeadEnd fs c := by
  -- the bytes left shrink from turn to turn
  generalize bound : turnsLeft .lineOk c = count
  induction count using Nat.strongRecOn generalizing c with
  | ind count inductionHypothesis =>
      cases turned : c.turn fs .lineOk with
      | done code last =>
          exact .returned c (.refl c) head code last turned
      | again nextStatus next =>
          obtain ⟨rfl, framed, texts, atLine⟩ := head.turn_again turned
          have closer := (Conn.turn_again head.framed turned).2.2
          by_cases state : next.checkState = .content
          · exact
              .body next (.turn head.state_ne turned (.refl next)) state
                framed texts atLine
          · have nextHead : next.InHead := ⟨framed, texts, state⟩
            cases inductionHypothesis _ (bound ▸ closer) nextHead rfl with
            | body mid run state framed texts atLine =>
                exact
                  .body mid (.turn head.state_ne turned run) state framed
                    texts atLine
            | returned mid run midHead code last turnedMid =>
                exact
                  .returned mid (.turn head.state_ne turned run) midHead
                    code last turnedMid

end Conn

end LinuxNet.WebServer
