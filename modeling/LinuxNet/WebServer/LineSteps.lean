import Mathlib.Algebra.Ring.Nat
import LinuxNet.Lib.Resumption
import LinuxNet.WebServer.Resume

/-!
# `parse_line` in steps

`parse_line` is called again each time that `m_read_idx` has grown, until it
finds a line or that there is none.  It does not matter how `m_read_idx`
grows: the calls together find what one call finds that sees all the bytes.
A call that returns `LINE_OPEN` has passed a clean stretch only, and never a
carriage return that it could not judge yet.
-/

namespace LinuxNet.WebServer

open LinuxNet.CString LinuxNet.Resumption

namespace Conn

/-- `m_read_idx` is raised, over bytes that the array holds already. -/
def raise (c : Conn) (count : Nat) : Conn :=
  { c with readIdx := c.readIdx + count }

def upTo (c : Conn) (readIdx : Nat) : Conn :=
  { c with readIdx := readIdx }

/-- A call of `parse_line`, and another one behind each step that raises
`m_read_idx`, until one returns something other than `LINE_OPEN`. -/
def inSteps : Scanner Conn LineStatus Nat where
  scan := parseLine
  waits := fun status => decide (status = .lineOpen)
  more := raise

/-- The same with blocks of bytes that `recv` delivers between the calls. -/
def inBlocks : Scanner Conn LineStatus (List UInt8) where
  scan := parseLine
  waits := fun status => decide (status = .lineOpen)
  more := receive

/-- The first carriage return or line feed received, at or behind
`m_checked_idx`, is a carriage return at the index, and a line feed received
stands directly behind it. -/
structure LineEndsAt (c : Conn) (index : Nat) : Prop where
  checkedIdx_le : c.checkedIdx ≤ index
  received : index + 1 < c.readIdx
  isReturn : c.readBuf[index]? = some 13
  isFeed : c.readBuf[index + 1]? = some 10
  isFirst :
    ∀ place, c.checkedIdx ≤ place → place < index →
      c.readBuf[place]? ≠ some 13 ∧ c.readBuf[place]? ≠ some 10

/-- A line is found where one ends; its line ending becomes two NULs, and
`m_checked_idx` goes just past them.  Nothing else changes the buffer. -/
structure Finds (c : Conn) (found : LineStatus × Conn) : Prop where
  lineOk_iff : found.1 = .lineOk ↔ ∃ index, c.LineEndsAt index
  ended :
    ∀ index, c.LineEndsAt index →
      found.2.readBuf = (c.readBuf.set index 0).set (index + 1) 0 ∧
        found.2.checkedIdx = index + 2
  unchanged : found.1 ≠ .lineOk → found.2.readBuf = c.readBuf

/-- The same status, `m_checked_idx` and buffer. -/
structure SameFind (found once : LineStatus × Conn) : Prop where
  status_eq : found.1 = once.1
  checkedIdx_eq : found.2.checkedIdx = once.2.checkedIdx
  readBuf_eq : found.2.readBuf = once.2.readBuf

/-! ## Where a line ends -/

theorem getElem?_unread (c : Conn) (place : Nat) :
    c.unread[place]? =
      if c.checkedIdx + place < c.readIdx then
        c.readBuf[c.checkedIdx + place]?
      else
        none := by
  unfold unread
  rw [List.getElem?_drop, List.getElem?_take]

/-- The place where a line ends, in the terms of the scanner. -/
theorem LineEndsAt.exists_unread_eq
    {c : Conn} {index : Nat} (ends : c.LineEndsAt index) :
    ∃ line rest, c.unread = line ++ 13 :: 10 :: rest ∧ Clean line ∧
      index = c.checkedIdx + line.length := by
  obtain ⟨place, rfl⟩ := Nat.exists_eq_add_of_le ends.checkedIdx_le
  have received := ends.received
  have isReturn : c.unread[place]? = some 13 := by
    rw [getElem?_unread, if_pos (by omega)]
    exact ends.isReturn
  have isFeed : c.unread[place + 1]? = some 10 := by
    rw [getElem?_unread, if_pos (by omega)]
    exact ends.isFeed
  have clean : ∀ byte ∈ c.unread.take place, byte ≠ 13 ∧ byte ≠ 10 := by
    intro byte member
    obtain ⟨earlier, here⟩ := List.mem_iff_getElem?.mp member
    rw [List.getElem?_take] at here
    split at here
    · next before =>
        rw [getElem?_unread, if_pos (by omega)] at here
        have other :=
          ends.isFirst (c.checkedIdx + earlier) (by omega) (by omega)
        rw [here] at other
        exact ⟨fun same => other.1 (congrArg some same),
          fun same => other.2 (congrArg some same)⟩
    · cases here
  obtain ⟨returnInside, returnEq⟩ := List.getElem?_eq_some_iff.mp isReturn
  obtain ⟨feedInside, feedEq⟩ := List.getElem?_eq_some_iff.mp isFeed
  refine
    ⟨c.unread.take place, c.unread.drop (place + 2), ?_,
      ⟨fun member => (clean 13 member).1 rfl,
        fun member => (clean 10 member).2 rfl⟩, ?_⟩
  · calc
      c.unread = c.unread.take place ++ c.unread.drop place :=
        (List.take_append_drop place c.unread).symm
      _ = c.unread.take place ++
            13 :: 10 :: c.unread.drop (place + 2) := by
        rw [List.drop_eq_getElem_cons returnInside, returnEq,
          List.drop_eq_getElem_cons feedInside, feedEq]
  · rw [List.length_take_of_le (Nat.le_of_lt returnInside)]

theorem lineEndsAt_of_unread_eq
    {c : Conn} {line rest : List UInt8}
    (shape : c.unread = line ++ 13 :: 10 :: rest) (clean : Clean line) :
    c.LineEndsAt (c.checkedIdx + line.length) := by
  have here :
      ∀ place byte, (line ++ 13 :: 10 :: rest)[place]? = some byte →
        c.checkedIdx + place < c.readIdx ∧
          c.readBuf[c.checkedIdx + place]? = some byte := by
    intro place byte found
    rw [← shape, getElem?_unread] at found
    split at found
    · next received => exact ⟨received, found⟩
    · cases found
  have isReturn := here line.length 13 (by simp)
  have isFeed := here (line.length + 1) 10 (by simp)
  refine
    { checkedIdx_le := Nat.le_add_right _ _
      received := isFeed.1
      isReturn := isReturn.2
      isFeed := isFeed.2
      isFirst := ?_ }
  intro place atLeast before
  obtain ⟨earlier, rfl⟩ := Nat.exists_eq_add_of_le atLeast
  have inside : earlier < line.length := by omega
  have byteHere :=
    here earlier _
      ((List.getElem?_append_left inside).trans
        (List.getElem?_eq_getElem inside))
  rw [byteHere.2]
  have member := List.getElem_mem inside
  constructor
  · intro same
    rw [Option.some.inj same] at member
    exact clean.1 member
  · intro same
    rw [Option.some.inj same] at member
    exact clean.2 member

/-- What one call of `parse_line` finds. -/
theorem Scannable.finds {c : Conn} (scannable : c.Scannable) :
    c.Finds c.parseLine := by
  rw [scannable.parseLine_eq]
  refine
    { lineOk_iff := ⟨?_, ?_⟩
      ended := ?_
      unchanged := ?_ }
  · intro found
    have scanned :
        scanLine c.unread = (.lineOk, (scanLine c.unread).2) := by
      rw [← found]
    obtain ⟨line, rest, shape, clean, _⟩ := scanLine_eq_lineOk scanned
    exact ⟨_, lineEndsAt_of_unread_eq shape clean⟩
  · rintro ⟨index, ends⟩
    obtain ⟨line, rest, shape, clean, _⟩ := ends.exists_unread_eq
    rw [shape, scanLine_found clean]
  · intro index ends
    obtain ⟨line, rest, shape, clean, rfl⟩ := ends.exists_unread_eq
    rw [shape, scanLine_found clean, passed_lineOk]
    exact ⟨rfl, rfl⟩
  · intro notFound
    have stopped := passed_of_ne c notFound (scanLine c.unread).2
    have same := congrArg readBuf stopped
    exact same

/-- The connection after a clean part of the unread bytes was passed. -/
def HasSkipped (d c : Conn) : Prop :=
  ∃ line rest, c.unread = line ++ rest ∧ Clean line ∧
    d = { c with checkedIdx := c.checkedIdx + line.length }

theorem HasSkipped.refl (c : Conn) : HasSkipped c c :=
  ⟨[], c.unread, rfl, clean_nil, rfl⟩

/-- A clean part that was passed makes no difference to `parse_line`. -/
theorem HasSkipped.parseLine_eq
    {c d : Conn} (skipped : HasSkipped d c) (scannable : c.Scannable) :
    d.parseLine = c.parseLine := by
  obtain ⟨line, rest, shape, clean, rfl⟩ := skipped
  have later :
      { c with checkedIdx := c.checkedIdx + line.length }.unread = rest := by
    unfold unread at shape ⊢
    rw [← List.drop_drop, shape, List.drop_left]
  rw [(scannable.skip shape clean).parseLine_eq, scannable.parseLine_eq,
    later, shape, scanLine_clean_append clean]
  rw [passed_add]

/-- A call that waits for more has passed a clean part. -/
theorem Scannable.hasSkipped
    {c : Conn} (scannable : c.Scannable)
    (waiting : c.parseLine.1 = .lineOpen) : HasSkipped c.parseLine.2 c := by
  rw [scannable.parseLine_eq] at waiting ⊢
  have result := scanResult c.unread
  generalize remaining : c.unread = bytes at result waiting
  generalize scanLine bytes = scanned at result waiting
  cases result with
  | atEnd clean => exact ⟨bytes, [], by simp [remaining], clean, rfl⟩
  | atReturn clean => exact ⟨_, [13], remaining, clean, rfl⟩
  | found _ _ | bareReturn _ _ _ | bareFeed _ _ => cases waiting

theorem HasSkipped.parseLine
    {c d : Conn} (skipped : HasSkipped d c) (scannable : c.Scannable)
    (waiting : d.parseLine.1 = .lineOpen) :
    HasSkipped d.parseLine.2 c := by
  rw [skipped.parseLine_eq scannable] at waiting ⊢
  exact scannable.hasSkipped waiting

theorem unread_raise (c : Conn) (count : Nat) :
    ∃ more, (c.raise count).unread = c.unread ++ more := by
  unfold unread raise
  rw [List.take_add, List.drop_append]
  exact ⟨_, rfl⟩

theorem foldl_raise (steps : List Nat) (c : Conn) :
    steps.foldl raise c = c.upTo (c.readIdx + steps.sum) := by
  induction steps generalizing c with
  | nil => rfl
  | cons step later inductionHypothesis =>
      rw [List.foldl_cons, inductionHypothesis, List.sum_cons]
      simp only [raise, upTo, Nat.add_assoc]

theorem Scannable.upTo
    {c : Conn} (scannable : c.Scannable) {readIdx : Nat}
    (inside : readIdx ≤ c.readBuf.length) : (c.upTo readIdx).Scannable where
  inside := inside
  behind := scannable.behind

/-- What `parse_line` has found stays found. -/
theorem Scannable.parseLine_raise
    {c : Conn} (scannable : c.Scannable) {count : Nat}
    (room : c.readIdx + count ≤ c.readBuf.length)
    (decided : c.parseLine.1 ≠ .lineOpen) :
    (c.raise count).parseLine =
      (c.parseLine.1, c.parseLine.2.raise count) := by
  have raised : (c.raise count).Scannable := scannable.upTo room
  obtain ⟨more, unreadEq⟩ := unread_raise c count
  rw [scannable.parseLine_eq] at decided ⊢
  rw [raised.parseLine_eq, unreadEq,
    scanLine_append_of_ne_open decided more]
  generalize scanLine c.unread = scan
  rcases scan with ⟨status, passed⟩
  cases status <;> rfl

/-- The steps leave `m_read_idx` inside the array, and what the calls have
passed is clean. -/
structure StepsAhead (steps : List Nat) (d c : Conn) : Prop where
  scannable : c.Scannable
  skipped : HasSkipped d c
  room : c.readIdx + steps.sum ≤ c.readBuf.length

theorem inSteps_resumable : inSteps.Resumable StepsAhead where
  agrees := fun ahead => ahead.skipped.parseLine_eq ahead.scannable
  passes := fun ahead waiting =>
    ⟨ahead.scannable,
      ahead.skipped.parseLine ahead.scannable (of_decide_eq_true waiting),
      ahead.room⟩
  moves := fun {step later d c} ahead => by
    have room := ahead.room
    rw [List.sum_cons] at room
    obtain ⟨line, rest, shape, clean, rfl⟩ := ahead.skipped
    obtain ⟨more, unreadEq⟩ := unread_raise c step
    refine
      { scannable := ahead.scannable.upTo (by omega)
        skipped :=
          ⟨line, rest ++ more, ?_, clean, rfl⟩
        room := ?_ }
    · show (c.raise step).unread = _
      rw [unreadEq, shape, List.append_assoc]
    · show c.readIdx + step + later.sum ≤ c.readBuf.length
      omega
  settles := fun {step later d c} ahead decided => by
    have room := ahead.room
    rw [List.sum_cons] at room
    exact
      ahead.scannable.parseLine_raise (by omega)
        fun waiting => decided (decide_eq_true waiting)

theorem SameFind.finds
    {c : Conn} {found once : LineStatus × Conn} (same : SameFind found once)
    (finds : c.Finds once) : c.Finds found where
  lineOk_iff := by
    rw [same.status_eq]
    exact finds.lineOk_iff
  ended := fun index ends => by
    rw [same.readBuf_eq, same.checkedIdx_eq]
    exact finds.ended index ends
  unchanged := fun notFound => by
    rw [same.status_eq] at notFound
    rw [same.readBuf_eq]
    exact finds.unchanged notFound

theorem Scannable.parseLine
    {c : Conn} (scannable : c.Scannable) : c.parseLine.2.Scannable := by
  rw [scannable.parseLine_eq]
  exact scannable.passed

theorem Scannable.readIdx_parseLine
    {c : Conn} (scannable : c.Scannable) :
    c.parseLine.2.readIdx = c.readIdx := by
  rw [scannable.parseLine_eq]
  exact passed_readIdx c (scanLine c.unread)

theorem Scannable.finds_upTo
    {c : Conn} (scannable : c.Scannable) {last : Nat}
    (inside : last ≤ c.readBuf.length) {found : LineStatus × Conn}
    (same : SameFind found (c.upTo last).parseLine) :
    SameFind found (c.upTo last).parseLine ∧ (c.upTo last).Finds found :=
  ⟨same, same.finds (scannable.upTo inside).finds⟩

/-- The steps are those behind which a call is made, and those that are not
needed. -/
theorem inSteps_splits
    {c : Conn} (scannable : c.Scannable) (steps : List Nat)
    (inside : c.readIdx + steps.sum ≤ c.readBuf.length) :
    ∃ added unused, steps = added ++ unused ∧
      inSteps.resume steps c =
        (c.upTo (c.readIdx + added.sum)).parseLine ∧
      (c.upTo (c.readIdx + steps.sum)).parseLine =
        ((inSteps.resume steps c).1,
          unused.foldl raise (inSteps.resume steps c).2) := by
  have ahead : StepsAhead steps c c := ⟨scannable, .refl c, inside⟩
  obtain ⟨added, unused, split⟩ := inSteps_resumable.splits ahead
  have resumed : inSteps.resume steps c = (added.foldl raise c).parseLine :=
    split.resume_eq
  have all :
      (steps.foldl raise c).parseLine =
        ((inSteps.resume steps c).1,
          unused.foldl raise (inSteps.resume steps c).2) :=
    inSteps_resumable.scan_all ahead split
  rw [foldl_raise] at resumed all
  exact ⟨added, unused, split.pieces_eq, resumed, all⟩

/-- The calls of `parse_line` behind the steps that raise `m_read_idx` find
what one call finds with the last `m_read_idx`, be it the one of the last call
that is made or the one behind all the steps: a line where one ends, and
otherwise an unchanged buffer.  What they leave can be scanned again. -/
theorem parseLine_is_resumable
    (c : Conn) (steps : List Nat)
    (inside : c.readIdx + steps.sum ≤ c.readBuf.length)
    (behind :
      c.checkedIdx = 0 ∨ c.readBuf.getD (c.checkedIdx - 1) 0 ≠ 13) :
    (inSteps.resume steps c).2.Scannable ∧
      ∀ last,
        last = (inSteps.resume steps c).2.readIdx ∨
            last = c.readIdx + steps.sum →
          SameFind (inSteps.resume steps c) (c.upTo last).parseLine ∧
            (c.upTo last).Finds (inSteps.resume steps c) := by
  have scannable : c.Scannable := ⟨by omega, behind⟩
  obtain ⟨added, unused, split, resumed, all⟩ :=
    inSteps_splits scannable steps inside
  generalize inSteps.resume steps c = found at resumed all ⊢
  have total := congrArg List.sum split
  rw [List.sum_append] at total
  have stopped : (c.upTo (c.readIdx + added.sum)).Scannable :=
    scannable.upTo (by omega)
  have stoppedAt : found.2.readIdx = c.readIdx + added.sum := by
    rw [resumed]
    exact stopped.readIdx_parseLine
  refine ⟨by rw [resumed]; exact stopped.parseLine, ?_⟩
  rintro last (rfl | rfl)
  · apply scannable.finds_upTo (by omega)
    rw [stoppedAt, ← resumed]
    exact ⟨rfl, rfl, rfl⟩
  · apply scannable.finds_upTo inside
    rw [all, foldl_raise]
    exact ⟨rfl, rfl, rfl⟩

def splitLine : Conn :=
  (zeroed.receive (ascii "GET /\r\nHost")).upTo 6

/-- The first call stops at the carriage return, the second one finds the
line. -/
theorem parseLine_is_resumable_split :
    splitLine.parseLine.1 = .lineOpen ∧
      (inSteps.resume [1, 3] splitLine).1 = .lineOk ∧
      (inSteps.resume [1, 3] splitLine).2.Scannable ∧
      ∀ last,
        last = (inSteps.resume [1, 3] splitLine).2.readIdx ∨
            last = splitLine.readIdx + [1, 3].sum →
          SameFind (inSteps.resume [1, 3] splitLine)
              (splitLine.upTo last).parseLine ∧
            (splitLine.upTo last).Finds
              (inSteps.resume [1, 3] splitLine) :=
  ⟨by decide +kernel, by decide +kernel,
    parseLine_is_resumable splitLine [1, 3] (by decide +kernel)
      (Or.inl rfl)⟩

/-- There is room for all the blocks, and what the calls have passed is
clean. -/
structure BlocksAhead (blocks : List (List UInt8)) (d c : Conn) : Prop where
  framed : c.Framed
  skipped : HasSkipped d c
  room : c.Room blocks.flatten

theorem BlocksAhead.room_head
    {block : List UInt8} {later : List (List UInt8)} {d c : Conn}
    (ahead : BlocksAhead (block :: later) d c) : c.Room block := by
  have room := ahead.room
  unfold Room at room ⊢
  rw [List.flatten_cons, List.length_append] at room
  omega

theorem inBlocks_resumable : inBlocks.Resumable BlocksAhead where
  agrees := fun ahead => ahead.skipped.parseLine_eq ahead.framed.scannable
  passes := fun ahead waiting =>
    ⟨ahead.framed,
      ahead.skipped.parseLine ahead.framed.scannable
        (of_decide_eq_true waiting),
      ahead.room⟩
  moves := fun {block later d c} ahead => by
    have room := ahead.room
    obtain ⟨line, rest, shape, clean, rfl⟩ := ahead.skipped
    refine
      { framed := ahead.framed.receive ahead.room_head
        skipped := ⟨line, rest ++ block, ?_, clean, rfl⟩
        room := ?_ }
    · show (c.receive block).unread = _
      rw [unread_receive ahead.framed, shape, List.append_assoc]
    · unfold Room at room ⊢
      rw [List.flatten_cons, List.length_append] at room
      show c.readIdx + block.length + _ ≤ _
      omega
  settles := fun {block later d c} ahead decided => by
    have scannable := ahead.framed.scannable
    have received := (ahead.framed.receive ahead.room_head).scannable
    have settled : (scanLine c.unread).1 ≠ .lineOpen := by
      intro waiting
      apply decided
      show decide (c.parseLine.1 = .lineOpen) = true
      rw [scannable.parseLine_eq, waiting]
      rfl
    show (c.receive block).parseLine =
      (c.parseLine.1, c.parseLine.2.receive block)
    rw [received.parseLine_eq, scannable.parseLine_eq,
      unread_receive ahead.framed,
      scanLine_append_of_ne_open settled block,
      receive_passed ahead.framed]

/-- Bytes may come between the calls of `parse_line`: the calls find what one
call finds behind all the bytes, and leave what it leaves but for the bytes
that have not come yet. -/
theorem parseLine_between_blocks
    {c : Conn} (framed : c.Framed) (blocks : List (List UInt8))
    (room : c.Room blocks.flatten) :
    ∃ received unused, blocks = received ++ unused ∧
      inBlocks.resume blocks c = (received.foldl receive c).parseLine ∧
      (blocks.foldl receive c).parseLine =
        ((inBlocks.resume blocks c).1,
          unused.foldl receive (inBlocks.resume blocks c).2) := by
  have ahead : BlocksAhead blocks c c := ⟨framed, .refl c, room⟩
  obtain ⟨received, unused, split⟩ := inBlocks_resumable.splits ahead
  exact
    ⟨received, unused, split.pieces_eq, split.resume_eq,
      inBlocks_resumable.scan_all ahead split⟩

end Conn

end LinuxNet.WebServer
