import LinuxNet.WebServer.HeadGrammar

/-!
# The line scanner in the body

While a body is awaited the line scanner runs over the part that has arrived
and moves `m_checked_idx`, from which `parse_content` counts the length of
the body.  `bodyPassed` is how far it gets and `lastLine` where the last line
ending it meets is; `body_call` says in these terms what one call of
`process_read` does in the content state.
-/

namespace LinuxNet.WebServer

open LinuxNet.CString LinuxNet.CInt

/-- The number of bytes that the scanner passes, line after line. -/
def bodyPassed : List UInt8 → Nat
  | 13 :: 10 :: rest => bodyPassed rest + 2
  | byte :: rest =>
      if byte = 13 ∨ byte = 10 then 0 else bodyPassed rest + 1
  | [] => 0

/-- Where the last line ending that the scanner meets stops; 0 if it meets
none. -/
def lastLine : List UInt8 → Nat
  | 13 :: 10 :: rest => lastLine rest + 2
  | byte :: rest =>
      if byte = 13 ∨ byte = 10 ∨ lastLine rest = 0 then 0
      else lastLine rest + 1
  | [] => 0

theorem bodyPassed_clean_append
    {line : List UInt8} (clean : Clean line) (rest : List UInt8) :
    bodyPassed (line ++ rest) = line.length + bodyPassed rest := by
  induction line with
  | nil => simp
  | cons byte line inductionHypothesis =>
      obtain ⟨notReturn, notFeed, cleanLine⟩ :=
        (clean_cons_iff byte line).mp clean
      rw [List.cons_append, bodyPassed.eq_2 _ _
        (fun _ same _ => notReturn same)]
      rw [if_neg (by simp [notReturn, notFeed]),
        inductionHypothesis cleanLine]
      simp only [List.length_cons]
      omega

theorem lastLine_clean_append
    {line : List UInt8} (clean : Clean line) (rest : List UInt8) :
    lastLine (line ++ rest) =
      if lastLine rest = 0 then 0 else line.length + lastLine rest := by
  induction line with
  | nil => simp
  | cons byte line inductionHypothesis =>
      obtain ⟨notReturn, notFeed, cleanLine⟩ :=
        (clean_cons_iff byte line).mp clean
      rw [List.cons_append, lastLine.eq_2 _ _
        (fun _ same _ => notReturn same),
        inductionHypothesis cleanLine]
      simp only [List.length_cons, notReturn, notFeed, false_or]
      split <;> split <;> omega

/-- A line that is found is passed, and the scan goes on behind it. -/
theorem scan_of_lineOk
    {bytes : List UInt8} {count : Nat}
    (scanned : scanLine bytes = (.lineOk, count)) :
    bodyPassed bytes = count + bodyPassed (bytes.drop count) ∧
      lastLine bytes = count + lastLine (bytes.drop count) ∧
      0 < count := by
  obtain ⟨line, rest, rfl, clean, rfl⟩ := scanLine_eq_lineOk scanned
  have behind :
      (line ++ 13 :: 10 :: rest).drop (line.length + 2) = rest := by
    rw [← List.drop_drop, List.drop_left]
    rfl
  rw [behind, bodyPassed_clean_append clean, lastLine_clean_append clean]
  simp only [bodyPassed, lastLine]
  refine ⟨by omega, ?_, by omega⟩
  split <;> omega

/-- Where no line is found the scanner stops. -/
theorem scan_of_stopped
    {bytes : List UInt8} (stopped : (scanLine bytes).1 ≠ .lineOk) :
    bodyPassed bytes = (scanLine bytes).2 ∧ lastLine bytes = 0 := by
  have result := scanResult bytes
  generalize scanLine bytes = scanned at result stopped
  cases result with
  | found _ clean => exact absurd rfl stopped
  | atEnd clean =>
      have passed := bodyPassed_clean_append clean []
      have last := lastLine_clean_append clean []
      simp only [List.append_nil] at passed last
      rw [passed, last]
      simp [bodyPassed, lastLine]
  | atReturn clean =>
      rw [bodyPassed_clean_append clean, lastLine_clean_append clean]
      simp [bodyPassed, lastLine]
  | @bareReturn line next rest clean bare =>
      rw [bodyPassed_clean_append clean, lastLine_clean_append clean,
        bodyPassed.eq_2 _ _ (fun _ _ same => bare (List.cons.inj same).1),
        lastLine.eq_2 _ _ (fun _ _ same => bare (List.cons.inj same).1)]
      simp
  | bareFeed rest clean =>
      rw [bodyPassed_clean_append clean, lastLine_clean_append clean,
        bodyPassed.eq_2 _ _ (fun _ same _ => absurd same (by decide)),
        lastLine.eq_2 _ _ (fun _ same _ => absurd same (by decide))]
      simp

/-- The scan of a body line by line: what holds where the scan stops, and of
bytes that start with a line once it holds behind the line, holds of all
bytes. -/
theorem scan_induction
    {motive : List UInt8 → Prop}
    (stopped : ∀ bytes, (scanLine bytes).1 ≠ .lineOk → motive bytes)
    (line : ∀ bytes, (scanLine bytes).1 = .lineOk →
      motive (bytes.drop (scanLine bytes).2) → motive bytes)
    (bytes : List UInt8) : motive bytes := by
  generalize size : bytes.length = length
  induction length using Nat.strongRecOn generalizing bytes with
  | ind length inductionHypothesis =>
      by_cases found : (scanLine bytes).1 = .lineOk
      · have scanned :
            scanLine bytes = (.lineOk, (scanLine bytes).2) := by
          rw [← found]
        have positive := (scan_of_lineOk scanned).2.2
        have bound := scanLine_le bytes
        refine line bytes found (inductionHypothesis _ ?_ _ rfl)
        rw [List.length_drop]
        omega
      · exact stopped bytes found

theorem bodyPassed_le (bytes : List UInt8) :
    bodyPassed bytes ≤ bytes.length := by
  induction bytes using scan_induction with
  | stopped bytes found =>
      have bound := scanLine_le bytes
      have passed := (scan_of_stopped found).1
      omega
  | line bytes found later =>
      have scanned : scanLine bytes = (.lineOk, (scanLine bytes).2) := by
        rw [← found]
      obtain ⟨passed, _, positive⟩ := scan_of_lineOk scanned
      have bound := scanLine_le bytes
      rw [List.length_drop] at later
      omega

theorem lastLine_le (bytes : List UInt8) :
    lastLine bytes ≤ bodyPassed bytes := by
  induction bytes using scan_induction with
  | stopped bytes found =>
      have last := (scan_of_stopped found).2
      omega
  | line bytes found later =>
      have scanned : scanLine bytes = (.lineOk, (scanLine bytes).2) := by
        rw [← found]
      obtain ⟨passed, last, positive⟩ := scan_of_lineOk scanned
      omega

/-- The scan of more bytes goes on where the scan of the first ones
stopped. -/
theorem bodyPassed_append (bytes more : List UInt8) :
    bodyPassed (bytes ++ more) =
        bodyPassed bytes +
          bodyPassed ((bytes ++ more).drop (bodyPassed bytes)) ∧
      lastLine (bytes ++ more) =
        if lastLine ((bytes ++ more).drop (bodyPassed bytes)) = 0 then
          lastLine bytes
        else
          bodyPassed bytes +
            lastLine ((bytes ++ more).drop (bodyPassed bytes)) := by
  induction bytes using scan_induction with
  | stopped bytes found =>
      obtain ⟨passed, last⟩ := scan_of_stopped found
      have resumed := scanLine_append_of_stopped found more
      rw [← passed] at resumed
      by_cases foundMore :
          (scanLine ((bytes ++ more).drop (bodyPassed bytes))).1 =
            .lineOk
      · have scannedLater :
            scanLine ((bytes ++ more).drop (bodyPassed bytes)) =
              (.lineOk,
                (scanLine
                  ((bytes ++ more).drop (bodyPassed bytes))).2) := by
          rw [← foundMore]
        rw [foundMore] at resumed
        obtain ⟨passedMore, lastMore, _⟩ := scan_of_lineOk resumed
        obtain ⟨passedLater, lastLater, positive⟩ :=
          scan_of_lineOk scannedLater
        rw [← List.drop_drop] at passedMore lastMore
        refine ⟨by omega, ?_⟩
        rw [if_neg (by omega)]
        omega
      · obtain ⟨passedLater, lastLater⟩ := scan_of_stopped foundMore
        have stopped : (scanLine (bytes ++ more)).1 ≠ .lineOk := by
          rw [resumed]
          exact foundMore
        obtain ⟨passedMore, lastMore⟩ := scan_of_stopped stopped
        rw [resumed] at passedMore
        simp only at passedMore
        rw [if_pos lastLater, lastMore, last]
        exact ⟨by omega, rfl⟩
  | line bytes found later =>
      have scanned : scanLine bytes = (.lineOk, (scanLine bytes).2) := by
        rw [← found]
      have scannedMore :
          scanLine (bytes ++ more) = (.lineOk, (scanLine bytes).2) := by
        rw [scanLine_append_of_lineOk found, ← found]
      obtain ⟨passed, last, positive⟩ := scan_of_lineOk scanned
      obtain ⟨passedMore, lastMore, _⟩ := scan_of_lineOk scannedMore
      have bound := scanLine_le bytes
      obtain ⟨laterPassed, laterLast⟩ := later
      rw [List.drop_append_of_le_length bound] at passedMore lastMore
      have shift :
          (bytes ++ more).drop (bodyPassed bytes) =
            (bytes.drop (scanLine bytes).2 ++ more).drop
              (bodyPassed (bytes.drop (scanLine bytes).2)) := by
        rw [passed, ← List.drop_drop,
          List.drop_append_of_le_length bound]
      rw [shift, passedMore, lastMore, laterPassed, laterLast]
      refine ⟨by omega, ?_⟩
      split <;> omega

namespace Conn

/-! ## A call in the content state -/

/-- In the content state the second object comes from the first: the head is
unchanged, in the array up to an index. -/
structure SameHead (stop : Nat) (c d : Conn) : Prop where
  framed : d.Framed
  state : d.checkState = .content
  le_startLine : stop ≤ d.startLine
  readIdx_eq : d.readIdx = c.readIdx
  url_eq : d.url = c.url
  host_eq : d.host = c.host
  linger_eq : d.linger = c.linger
  contentLength_eq : d.contentLength = c.contentLength
  realFile_eq : d.realFile = c.realFile
  take_eq : d.readBuf.take stop = c.readBuf.take stop

theorem SameHead.refl
    {stop : Nat} {c : Conn} (framed : c.Framed)
    (state : c.checkState = .content) (below : stop ≤ c.startLine) :
    SameHead stop c c :=
  ⟨framed, state, below, rfl, rfl, rfl, rfl, rfl, rfl, rfl⟩

theorem SameHead.trans
    {stop : Nat} {c d e : Conn} (first : SameHead stop c d)
    (second : SameHead stop d e) : SameHead stop c e where
  framed := second.framed
  state := second.state
  le_startLine := second.le_startLine
  readIdx_eq := second.readIdx_eq.trans first.readIdx_eq
  url_eq := second.url_eq.trans first.url_eq
  host_eq := second.host_eq.trans first.host_eq
  linger_eq := second.linger_eq.trans first.linger_eq
  contentLength_eq :=
    second.contentLength_eq.trans first.contentLength_eq
  realFile_eq := second.realFile_eq.trans first.realFile_eq
  take_eq := second.take_eq.trans first.take_eq

theorem SameHead.passed
    {stop : Nat} {c : Conn} (framed : c.Framed)
    (state : c.checkState = .content) (below : stop ≤ c.startLine) :
    SameHead stop c (c.passed (scanLine c.unread)) := by
  obtain ⟨urlEq, hostEq, lingerEq, lengthEq⟩ :=
    passed_fields c (scanLine c.unread)
  have reads := ReadsOnly.passed c (scanLine c.unread)
  have ordered := framed.startLine_le
  have agree :
      (c.passed (scanLine c.unread)).readBuf.take c.checkedIdx =
        c.readBuf.take c.checkedIdx := by
    refine passed_take (scanLine c.unread) (fun isOk => ?_)
    have scanned :
        scanLine c.unread = (.lineOk, (scanLine c.unread).2) := by
      rw [← isOk]
    obtain ⟨_, _, _, _, passedEq⟩ := scanLine_eq_lineOk scanned
    omega
  exact
    { framed := framed.passed
      state := (passed_checkState c _).trans state
      le_startLine := by
        rw [passed_startLine]
        exact below
      readIdx_eq := reads.readIdx_eq
      url_eq := urlEq
      host_eq := hostEq
      linger_eq := lingerEq
      contentLength_eq := lengthEq
      realFile_eq := reads.realFile_eq
      take_eq := by
        have shorter := congrArg (List.take stop) agree
        rwa [List.take_take, List.take_take,
          Nat.min_eq_left (Nat.le_trans below ordered)] at shorter }

theorem SameHead.bodyChecked
    {stop : Nat} {c : Conn} (framed : c.Framed)
    (state : c.checkState = .content) (below : stop ≤ c.startLine) :
    SameHead stop c c.bodyChecked :=
  ⟨framed.bodyChecked, state, Nat.le_trans below framed.startLine_le,
    rfl, rfl, rfl, rfl, rfl, rfl, rfl⟩

theorem SameHead.bodyCut
    {stop : Nat} {c : Conn} (framed : c.Framed)
    (state : c.checkState = .content) (below : stop ≤ c.startLine)
    (positive : 0 ≤ c.contentLength) :
    SameHead stop c c.bodyCut := by
  obtain ⟨index, indexEq⟩ :
      ∃ index : Nat, (c.startLine : Int) + c.contentLength = index :=
    ⟨(c.startLine + c.contentLength).toNat, by omega⟩
  have checked := SameHead.bodyChecked framed state below
  unfold Conn.bodyCut
  rw [indexEq, store_natCast]
  exact
    { framed := { framed.bodyChecked.set_nul index with }
      state := state
      le_startLine := checked.le_startLine
      readIdx_eq := rfl
      url_eq := rfl
      host_eq := rfl
      linger_eq := rfl
      contentLength_eq := rfl
      realFile_eq := rfl
      take_eq := by
        show (c.readBuf.set index 0).take stop = c.readBuf.take stop
        exact List.take_set_of_le (by omega) }

/-- The body is found complete: `do_request` runs, on the head as it was. -/
def BodyDone
    (fs : FileSystem) (stop : Nat) (c : Conn) (code : HttpCode)
    (last : Conn) : Prop :=
  ∃ e, SameHead stop c e ∧ (code, last) = e.doRequest fs

/-- The body is found incomplete, the scanner having passed what it can. -/
structure BodyOpen
    (stop : Nat) (c : Conn) (code : HttpCode) (last : Conn) : Prop where
  code_eq : code = .noRequest
  same : SameHead stop c last
  checkedIdx_eq : last.checkedIdx = c.checkedIdx + bodyPassed c.unread
  unread_eq : last.unread = c.unread.drop (bodyPassed c.unread)

/-- A line ending of the body makes the sum of `parse_content` overflow. -/
def LineOverflows (c : Conn) : Prop :=
  0 < lastLine c.unread ∧
    intMax < c.contentLength + c.checkedIdx + lastLine c.unread

theorem unread_bodyChecked (c : Conn) : c.bodyChecked.unread = c.unread :=
  rfl

theorem passed_checkedIdx
    {c : Conn} (found : (scanLine c.unread).1 = .lineOk) :
    (c.passed (scanLine c.unread)).checkedIdx =
      c.checkedIdx + (scanLine c.unread).2 := by
  have scanned : scanLine c.unread = (.lineOk, (scanLine c.unread).2) := by
    rw [← found]
  obtain ⟨line, rest, _, _, passedEq⟩ := scanLine_eq_lineOk scanned
  rw [passedEq] at scanned
  rw [scanned, passed_lineOk]
  rfl

/-- A sum beyond the bytes received looks small enough only by
overflowing. -/
theorem toInt_le_iff
    {total : Int} {readIdx : Nat} (beyond : readIdx < total)
    (once : total ≤ 2 * intMax) :
    toInt total ≤ readIdx ↔ intMax < total := by
  constructor
  · intro small
    by_contra fits
    have same : toInt total = total := by
      refine toInt_of_fits ⟨?_, by omega⟩
      simp only [intMin]
      omega
    omega
  · intro exceeds
    have negative := toInt_neg_of_overflow exceeds once
    omega

/-- A line ending of a body that is known to be incomplete: the check behind
it succeeds only by an overflow. -/
theorem bodyLine_complete_iff
    {stop : Nat} {c : Conn} (framed : c.Framed)
    (state : c.checkState = .content) (below : stop ≤ c.startLine)
    (positive : 0 < c.contentLength) (bounded : c.contentLength ≤ intMax)
    (incomplete : (c.readIdx : Int) < c.contentLength + c.checkedIdx)
    (found : (scanLine c.unread).1 = .lineOk) :
    SameHead stop c (c.passed (scanLine c.unread)) ∧
      (toInt
          ((c.passed (scanLine c.unread)).contentLength +
            (c.passed (scanLine c.unread)).checkedIdx) ≤
          (c.passed (scanLine c.unread)).readIdx ↔
        intMax < c.contentLength + c.checkedIdx +
          (scanLine c.unread).2) := by
  have same := SameHead.passed framed state below
  have inside := framed.passed.checkedIdx_le
  have bound := framed.passed.readIdx_le
  refine ⟨same, ?_⟩
  rw [same.contentLength_eq, same.readIdx_eq]
  rw [same.readIdx_eq] at inside bound
  rw [passed_checkedIdx found] at inside ⊢
  rw [toInt_le_iff (by omega)
    (by simp only [intMax, readBufferSize] at *; omega)]
  push_cast
  rw [← Int.add_assoc]

/-- The scan over the lines of a body that is known to be incomplete. -/
theorem body_lines
    {fs : FileSystem} (stop : Nat) {c last : Conn} {code : HttpCode}
    (framed : c.Framed) (state : c.checkState = .content)
    (below : stop ≤ c.startLine) (positive : 0 < c.contentLength)
    (bounded : c.contentLength ≤ intMax)
    (incomplete : (c.readIdx : Int) < c.contentLength + c.checkedIdx)
    (returns : Returns fs .lineOpen c code last) :
    (c.LineOverflows → BodyDone fs stop c code last) ∧
      (¬ c.LineOverflows → BodyOpen stop c code last) := by
  -- each line ending met is checked against the same bytes received
  generalize statusEq : LineStatus.lineOpen = lineStatus at returns
  induction returns with
  | @done lineStatus c last code turned =>
      subst statusEq
      have turn := contentTurn framed state fs .lineOpen
      rw [turned] at turn
      cases turn with
      | stopped noLine =>
          obtain ⟨passedEq, lastEq⟩ := scan_of_stopped noLine
          refine ⟨fun overflows => ?_, fun _ => ?_⟩
          · have positiveLine := overflows.1
            omega
          · have scanned :
                scanLine c.unread =
                  ((scanLine c.unread).1, (scanLine c.unread).2) := rfl
            refine ⟨rfl, .passed framed state below, ?_, ?_⟩
            · rw [passedEq, scanned, passed_of_ne c noLine]
            · rw [passedEq, unread_passed]
      | complete fetched small =>
          rcases fetched with ⟨isOk, _⟩ | ⟨_, found, rfl⟩
          · cases isOk
          obtain ⟨same, complete⟩ :=
            bodyLine_complete_iff framed state below positive bounded
              incomplete found
          refine ⟨fun _ => ?_, fun fits => ?_⟩
          · exact
              ⟨_,
                same.trans
                  (.bodyCut same.framed same.state same.le_startLine
                    (by rw [same.contentLength_eq]; omega)), rfl⟩
          · have exceeds := complete.mp small
            have scanned :
                scanLine c.unread =
                  (.lineOk, (scanLine c.unread).2) := by
              rw [← found]
            obtain ⟨_, lastEq, positiveLine⟩ := scan_of_lineOk scanned
            exact absurd ⟨by omega, by omega⟩ fits
  | @again lineStatus nextStatus c next last code turned rest
      inductionHypothesis =>
      subst statusEq
      have turn := contentTurn framed state fs .lineOpen
      rw [turned] at turn
      cases turn with
      | incomplete fetched notSmall =>
          rcases fetched with ⟨isOk, _⟩ | ⟨_, found, rfl⟩
          · cases isOk
          obtain ⟨same, complete⟩ :=
            bodyLine_complete_iff framed state below positive bounded
              incomplete found
          have scanned :
              scanLine c.unread = (.lineOk, (scanLine c.unread).2) := by
            rw [← found]
          obtain ⟨passedEq, lastEq, positiveLine⟩ := scan_of_lineOk scanned
          rw [complete] at notSmall
          have checked :=
            SameHead.bodyChecked same.framed same.state
              same.le_startLine
          have whole := same.trans checked
          have unreadEq :
              (c.passed (scanLine c.unread)).bodyChecked.unread =
                c.unread.drop (scanLine c.unread).2 := by
            rw [unread_bodyChecked, unread_passed]
          have checkedIdxEq :
              (c.passed (scanLine c.unread)).bodyChecked.checkedIdx =
                c.checkedIdx + (scanLine c.unread).2 :=
            passed_checkedIdx found
          obtain ⟨overflowing, fitting⟩ :=
            inductionHypothesis checked.framed checked.state
              checked.le_startLine
              (by rw [whole.contentLength_eq]; exact positive)
              (by rw [whole.contentLength_eq]; exact bounded)
              (by
                rw [whole.contentLength_eq, whole.readIdx_eq,
                  checkedIdxEq]
                omega)
              rfl
          have sameOverflow :
              (c.passed (scanLine c.unread)).bodyChecked.LineOverflows ↔
                c.LineOverflows := by
            unfold LineOverflows
            rw [whole.contentLength_eq, checkedIdxEq, unreadEq, lastEq]
            omega
          rw [sameOverflow] at overflowing fitting
          refine ⟨fun overflows => ?_, fun fits => ?_⟩
          · obtain ⟨e, sameHead, done⟩ := overflowing overflows
            exact ⟨e, whole.trans sameHead, done⟩
          · have opened := fitting fits
            refine
              ⟨opened.code_eq, whole.trans opened.same, ?_, ?_⟩
            · rw [opened.checkedIdx_eq, checkedIdxEq, unreadEq]
              omega
            · rw [opened.unread_eq, unreadEq, passedEq,
                List.drop_drop]

/-- The check of `parse_content` finds the body complete. -/
def BodySmall (c : Conn) : Prop :=
  toInt (c.contentLength + c.checkedIdx) ≤ c.readIdx

/-- One call of `process_read` in the content state: a first check, and then
the lines. -/
theorem body_call
    {fs : FileSystem} (stop : Nat) {c last : Conn} {code : HttpCode}
    (framed : c.Framed) (state : c.checkState = .content)
    (below : stop ≤ c.startLine) (positive : 0 < c.contentLength)
    (bounded : c.contentLength ≤ intMax)
    (returns : Returns fs .lineOk c code last) :
    (c.BodySmall ∨ c.LineOverflows → BodyDone fs stop c code last) ∧
      (¬ (c.BodySmall ∨ c.LineOverflows) → BodyOpen stop c code last) := by
  have turnEq := turn_eq framed fs .lineOk
  rw [if_pos ⟨state, rfl⟩, dispatchLine_content fs state] at turnEq
  by_cases small : c.BodySmall
  · have complete :
        toInt (c.contentLength + c.checkedIdx) ≤ c.readIdx := small
    rw [if_pos complete] at turnEq
    have done :
        code = (c.bodyCut.doRequest fs).1 ∧
          last = (c.bodyCut.doRequest fs).2 := by
      cases returns with
      | done turned =>
          rw [turnEq] at turned
          cases turned
          exact ⟨rfl, rfl⟩
      | again turned _ =>
          rw [turnEq] at turned
          cases turned
    refine ⟨fun _ => ?_, fun neither => absurd (.inl small) neither⟩
    exact
      ⟨c.bodyCut, .bodyCut framed state below (by omega),
        Prod.ext done.1 done.2⟩
  · have notComplete :
        ¬ toInt (c.contentLength + c.checkedIdx) ≤ c.readIdx := small
    rw [if_neg notComplete] at turnEq
    have incomplete : (c.readIdx : Int) < c.contentLength + c.checkedIdx := by
      by_contra complete
      have inside := framed.readIdx_le
      refine small ?_
      unfold BodySmall
      rw [toInt_of_fits ⟨by simp only [intMin]; omega, by
        simp only [intMax, readBufferSize] at *
        omega⟩]
      omega
    have checked := SameHead.bodyChecked framed state below
    have rest : Returns fs .lineOpen c.bodyChecked code last := by
      cases returns with
      | done turned =>
          rw [turnEq] at turned
          cases turned
      | again turned rest =>
          rw [turnEq] at turned
          cases turned
          exact rest
    obtain ⟨overflowing, fitting⟩ :=
      body_lines stop checked.framed checked.state checked.le_startLine
        positive bounded incomplete rest
    refine ⟨?_, ?_⟩
    · rintro (isSmall | overflows)
      · exact absurd isSmall small
      · obtain ⟨e, sameHead, done⟩ := overflowing overflows
        exact ⟨e, checked.trans sameHead, done⟩
    · intro neither
      have opened := fitting (fun overflows => neither (.inr overflows))
      exact
        ⟨opened.code_eq, checked.trans opened.same, opened.checkedIdx_eq,
          opened.unread_eq⟩

end Conn

end LinuxNet.WebServer
