import LinuxNet.WebServer.Reader

/-!
# The line scanner

`parse_line` depends on the bytes between `m_checked_idx` and `m_read_idx`
only.  `scanLine` is that dependence as a function of a list: the status, and
how many bytes the scanner passes.  A line that is found stays found when
more bytes arrive, and a scan that stopped goes on where it stopped, so the
scanner can be resumed at every byte.

The branch of `parse_line` for a line feed behind a carriage return of an
earlier scan never finds one: the scanner does not pass a carriage return
that it does not overwrite.
-/

namespace LinuxNet.WebServer

open LinuxNet.CString

/-- The line has no carriage return and no line feed. -/
def Clean (line : List UInt8) : Prop :=
  13 ∉ line ∧ 10 ∉ line

instance (line : List UInt8) : Decidable (Clean line) := by
  unfold Clean
  infer_instance

def scanLine : List UInt8 → LineStatus × Nat
  | [] => (.lineOpen, 0)
  | byte :: rest =>
      if byte = 13 then
        match rest with
        | [] => (.lineOpen, 0)
        | next :: _ => if next = 10 then (.lineOk, 2) else (.lineBad, 0)
      else if byte = 10 then
        (.lineBad, 0)
      else
        ((scanLine rest).1, (scanLine rest).2 + 1)

@[simp]
theorem clean_nil : Clean [] := by
  simp [Clean]

theorem clean_cons_iff (byte : UInt8) (line : List UInt8) :
    Clean (byte :: line) ↔ byte ≠ 13 ∧ byte ≠ 10 ∧ Clean line := by
  simp only [Clean, List.mem_cons, not_or]
  constructor
  · rintro ⟨⟨first, second⟩, third, fourth⟩
    exact ⟨Ne.symm first, Ne.symm third, second, fourth⟩
  · rintro ⟨first, third, second, fourth⟩
    exact ⟨⟨Ne.symm first, second⟩, Ne.symm third, fourth⟩

theorem scanLine_cons_of_ne
    {byte : UInt8} (notReturn : byte ≠ 13) (notFeed : byte ≠ 10)
    (rest : List UInt8) :
    scanLine (byte :: rest) =
      ((scanLine rest).1, (scanLine rest).2 + 1) := by
  rw [scanLine.eq_def]
  simp [notReturn, notFeed]

theorem scanLine_clean_append
    {line : List UInt8} (clean : Clean line) (rest : List UInt8) :
    scanLine (line ++ rest) =
      ((scanLine rest).1, line.length + (scanLine rest).2) := by
  induction line with
  | nil =>
      simp
  | cons byte line inductionHypothesis =>
      obtain ⟨notReturn, notFeed, cleanLine⟩ :=
        (clean_cons_iff byte line).mp clean
      rw [List.cons_append, scanLine_cons_of_ne notReturn notFeed,
        inductionHypothesis cleanLine]
      simp only [List.length_cons, Prod.mk.injEq, true_and]
      omega

/-- A scan stops behind a clean stretch: at the end of the bytes, at a
carriage return that is the last byte, at a line ending, or at a bare
carriage return or line feed. -/
inductive ScanResult : List UInt8 → LineStatus × Nat → Prop
  | atEnd {line : List UInt8} (clean : Clean line) :
      ScanResult line (.lineOpen, line.length)
  | atReturn {line : List UInt8} (clean : Clean line) :
      ScanResult (line ++ [13]) (.lineOpen, line.length)
  | found {line : List UInt8} (rest : List UInt8) (clean : Clean line) :
      ScanResult (line ++ 13 :: 10 :: rest) (.lineOk, line.length + 2)
  | bareReturn {line : List UInt8} {next : UInt8} (rest : List UInt8)
      (clean : Clean line) (bare : next ≠ 10) :
      ScanResult (line ++ 13 :: next :: rest) (.lineBad, line.length)
  | bareFeed {line : List UInt8} (rest : List UInt8)
      (clean : Clean line) :
      ScanResult (line ++ 10 :: rest) (.lineBad, line.length)

theorem exists_clean_prefix (bytes : List UInt8) :
    ∃ line rest, bytes = line ++ rest ∧ Clean line ∧
      ∀ byte tail, rest = byte :: tail → byte = 13 ∨ byte = 10 := by
  induction bytes with
  | nil =>
      exact ⟨[], [], rfl, clean_nil, by simp⟩
  | cons byte bytes inductionHypothesis =>
      by_cases special : byte = 13 ∨ byte = 10
      · refine ⟨[], byte :: bytes, rfl, clean_nil, ?_⟩
        intro first tail shape
        injection shape with same _
        rwa [← same]
      · obtain ⟨notReturn, notFeed⟩ := not_or.mp special
        obtain ⟨line, rest, shape, clean, starts⟩ := inductionHypothesis
        exact
          ⟨byte :: line, rest, by rw [shape]; rfl,
            (clean_cons_iff byte line).mpr
              ⟨notReturn, notFeed, clean⟩, starts⟩

theorem scanResult (bytes : List UInt8) :
    ScanResult bytes (scanLine bytes) := by
  obtain ⟨line, rest, rfl, clean, starts⟩ := exists_clean_prefix bytes
  rw [scanLine_clean_append clean]
  match rest with
  | [] =>
      simpa [scanLine] using ScanResult.atEnd clean
  | byte :: tail =>
      rcases starts byte tail rfl with rfl | rfl
      · match tail with
        | [] =>
            simpa [scanLine] using ScanResult.atReturn clean
        | next :: tail =>
            by_cases feed : next = 10
            · subst feed
              simpa [scanLine] using ScanResult.found tail clean
            · simpa [scanLine, feed] using
                ScanResult.bareReturn tail clean feed
      · simpa [scanLine] using ScanResult.bareFeed tail clean

theorem scanLine_found
    {line : List UInt8} (clean : Clean line) (rest : List UInt8) :
    scanLine (line ++ 13 :: 10 :: rest) = (.lineOk, line.length + 2) := by
  rw [scanLine_clean_append clean]
  simp [scanLine]

theorem scanLine_eq_lineOk
    {bytes : List UInt8} {count : Nat}
    (scanned : scanLine bytes = (.lineOk, count)) :
    ∃ line rest, bytes = line ++ 13 :: 10 :: rest ∧ Clean line ∧
      count = line.length + 2 := by
  have result := scanResult bytes
  rw [scanned] at result
  cases result with
  | found rest clean =>
      exact ⟨_, rest, rfl, clean, rfl⟩

theorem scanLine_le (bytes : List UInt8) :
    (scanLine bytes).2 ≤ bytes.length := by
  have result := scanResult bytes
  generalize scanLine bytes = scanned at result
  cases result <;> simp

/-- A scan that found a line, or that there is none, does not look at what
comes later. -/
theorem scanLine_append_of_ne_open
    {bytes : List UInt8} (decided : (scanLine bytes).1 ≠ .lineOpen)
    (more : List UInt8) :
    scanLine (bytes ++ more) = scanLine bytes := by
  have result := scanResult bytes
  generalize scanLine bytes = scan at result decided ⊢
  cases result with
  | atEnd _ | atReturn _ => exact absurd rfl decided
  | found rest clean =>
      rw [List.append_assoc]
      exact scanLine_found clean (rest ++ more)
  | bareReturn rest clean bare =>
      rw [List.append_assoc, scanLine_clean_append clean]
      simp [scanLine, bare]
  | bareFeed rest clean =>
      rw [List.append_assoc, scanLine_clean_append clean]
      simp [scanLine]

theorem scanLine_append_of_lineOk
    {bytes : List UInt8} (ok : (scanLine bytes).1 = .lineOk)
    (more : List UInt8) :
    scanLine (bytes ++ more) = scanLine bytes := by
  apply scanLine_append_of_ne_open
  rw [ok]
  decide

/-- A scan that found no line goes on where it stopped. -/
theorem scanLine_append_of_stopped
    {bytes : List UInt8} (stopped : (scanLine bytes).1 ≠ .lineOk)
    (more : List UInt8) :
    scanLine (bytes ++ more) =
      ((scanLine ((bytes ++ more).drop (scanLine bytes).2)).1,
        (scanLine bytes).2 +
          (scanLine ((bytes ++ more).drop (scanLine bytes).2)).2) := by
  obtain ⟨line, rest, shape, clean, passed⟩ :
      ∃ line rest, bytes = line ++ rest ∧ Clean line ∧
        (scanLine bytes).2 = line.length := by
    have result := scanResult bytes
    generalize scanLine bytes = scanned at result stopped
    cases result with
    | atEnd clean =>
        exact ⟨_, [], by simp, clean, rfl⟩
    | found _ clean =>
        exact absurd rfl stopped
    | atReturn clean | bareReturn _ clean _ | bareFeed _ clean =>
        exact ⟨_, _, rfl, clean, rfl⟩
  rw [passed]
  subst shape
  rw [List.append_assoc, List.drop_left, scanLine_clean_append clean]

/-! ## `parse_line` is `scanLine` -/

namespace Conn

def unread (c : Conn) : List UInt8 :=
  (c.readBuf.take c.readIdx).drop c.checkedIdx

/-- The indices stand in order inside the array, and the byte in front of
`m_checked_idx` is no carriage return. -/
structure Framed (c : Conn) : Prop where
  length_eq : c.readBuf.length = readBufferSize
  startLine_le : c.startLine ≤ c.checkedIdx
  checkedIdx_le : c.checkedIdx ≤ c.readIdx
  readIdx_le : c.readIdx ≤ readBufferSize
  behind : c.checkedIdx = 0 ∨ c.readBuf.getD (c.checkedIdx - 1) 0 ≠ 13

/-- What `parse_line` needs of the frame: the bytes received are inside the
array, and the byte in front of `m_checked_idx` is no carriage return. -/
structure Scannable (c : Conn) : Prop where
  inside : c.readIdx ≤ c.readBuf.length
  behind : c.checkedIdx = 0 ∨ c.readBuf.getD (c.checkedIdx - 1) 0 ≠ 13

/-- The connection after a scan: a line that was found has lost its line
ending to two NULs. -/
def passed (c : Conn) (scan : LineStatus × Nat) : Conn :=
  match scan.1 with
  | .lineOk =>
      let c := { c with checkedIdx := c.checkedIdx + scan.2 - 2 }
      let c := c.store c.checkedIdx 0
      let c := { c with checkedIdx := c.checkedIdx + 1 }
      let c := c.store c.checkedIdx 0
      { c with checkedIdx := c.checkedIdx + 1 }
  | _ => { c with checkedIdx := c.checkedIdx + scan.2 }

theorem Framed.scannable {c : Conn} (framed : c.Framed) : c.Scannable where
  inside := by
    rw [framed.length_eq]
    exact framed.readIdx_le
  behind := framed.behind

theorem Scannable.length_unread {c : Conn} (scannable : c.Scannable) :
    c.unread.length = c.readIdx - c.checkedIdx := by
  have bound := scannable.inside
  simp only [unread, List.length_drop, List.length_take]
  omega

theorem length_unread {c : Conn} (framed : c.Framed) :
    c.unread.length = c.readIdx - c.checkedIdx :=
  framed.scannable.length_unread

theorem Scannable.unread_eq_cons
    {c : Conn} (scannable : c.Scannable)
    (more : c.checkedIdx < c.readIdx) :
    c.unread =
      c.readBuf.getD c.checkedIdx 0 ::
        { c with checkedIdx := c.checkedIdx + 1 }.unread := by
  have bound := scannable.inside
  have inside : c.checkedIdx < (c.readBuf.take c.readIdx).length := by
    rw [List.length_take]
    omega
  unfold unread
  rw [List.drop_eq_getElem_cons inside, List.getElem_take,
    List.getD_eq_getElem?_getD,
    List.getElem?_eq_getElem (by omega)]
  rfl

theorem getD_eq_of_unread_eq
    {c : Conn} (line : List UInt8) {rest : List UInt8} {byte : UInt8}
    (shape : c.unread = line ++ byte :: rest) :
    c.readBuf.getD (c.checkedIdx + line.length) 0 = byte := by
  have here : c.unread[line.length]? = some byte := by
    rw [shape]
    simp
  unfold unread at here
  rw [List.getElem?_drop, List.getElem?_take] at here
  rw [List.getD_eq_getElem?_getD]
  split at here
  · rw [here]
    rfl
  · simp at here

/-- A clean stretch ends with no carriage return. -/
theorem Scannable.skip
    {c : Conn} (scannable : c.Scannable) {line rest : List UInt8}
    (shape : c.unread = line ++ rest) (clean : Clean line) :
    { c with checkedIdx := c.checkedIdx + line.length }.Scannable where
  inside := scannable.inside
  behind := by
    rcases List.eq_nil_or_concat line with rfl | ⟨before, byte, rfl⟩
    · exact scannable.behind
    · right
      have here :
          c.readBuf.getD (c.checkedIdx + before.length) 0 = byte := by
        have split : c.unread = before ++ byte :: rest := by
          rw [shape]
          simp
        exact getD_eq_of_unread_eq before split
      simp only [List.length_concat, Nat.add_succ_sub_one]
      rw [here]
      rintro rfl
      exact clean.1 (by simp)

private theorem parseLineFrom_eq
    {c : Conn} (scannable : c.Scannable) :
    parseLineFrom c.unread.length c =
      ((scanLine c.unread).1, c.passed (scanLine c.unread)) := by
  -- induction on the bytes left, the connection moving past one byte a time
  generalize remaining : c.unread = bytes
  induction bytes generalizing c with
  | nil =>
      simp [parseLineFrom, scanLine, passed]
  | cons byte rest inductionHypothesis =>
      have total := scannable.length_unread
      rw [remaining, List.length_cons] at total
      have here : c.readBuf.getD c.checkedIdx 0 = byte := by
        simpa using getD_eq_of_unread_eq [] remaining
      have later :
          { c with checkedIdx := c.checkedIdx + 1 }.unread = rest := by
        have split := scannable.unread_eq_cons (by omega)
        rw [remaining] at split
        exact (List.cons.inj split).2.symm
      rw [List.length_cons, parseLineFrom, scanLine.eq_def]
      simp only [here]
      by_cases isReturn : byte = 13
      · subst isReturn
        cases rest with
        | nil =>
            have last : c.checkedIdx + 1 = c.readIdx := by
              simp only [List.length_nil] at total
              omega
            simp [last, passed]
        | cons next rest =>
            have notLast : c.checkedIdx + 1 ≠ c.readIdx := by
              simp only [List.length_cons] at total
              omega
            have there : c.readBuf.getD (c.checkedIdx + 1) 0 = next :=
              getD_eq_of_unread_eq [13] remaining
            rw [if_pos rfl, if_neg notLast, if_pos rfl, there]
            by_cases isFeed : next = 10
            · simp [isFeed, passed]
            · simp [isFeed, passed]
      · by_cases isFeed : byte = 10
        · have behind :
              ¬ (1 < c.checkedIdx ∧
                c.readBuf.getD (c.checkedIdx - 1) 0 = 13) := by
            rintro ⟨positive, equal⟩
            rcases scannable.behind with first | different
            · omega
            · exact different equal
          simp only [isFeed, if_neg behind]
          simp [passed]
        · have scannableNext :
              { c with checkedIdx := c.checkedIdx + 1 }.Scannable :=
            { inside := scannable.inside
              behind := by
                right
                rw [Nat.add_sub_cancel, here]
                exact isReturn }
          rw [if_neg isReturn, if_neg isFeed, if_neg isReturn,
            if_neg isFeed, inductionHypothesis scannableNext later]
          simp only [passed, Prod.mk.injEq, true_and]
          cases (scanLine rest).1 <;>
            simp [store, Nat.add_assoc, Nat.add_comm 1]

/-- `parse_line` scans the bytes not yet passed. -/
theorem Scannable.parseLine_eq {c : Conn} (scannable : c.Scannable) :
    c.parseLine =
      ((scanLine c.unread).1, c.passed (scanLine c.unread)) := by
  rw [parseLine, ← scannable.length_unread]
  exact parseLineFrom_eq scannable

theorem parseLine_eq {c : Conn} (framed : c.Framed) :
    c.parseLine =
      ((scanLine c.unread).1, c.passed (scanLine c.unread)) :=
  framed.scannable.parseLine_eq

end Conn

end LinuxNet.WebServer
