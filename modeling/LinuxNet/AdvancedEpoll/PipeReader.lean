import LinuxNet.Lib.EdgeTriggered
import LinuxNet.Wrap.Readn

/-!
# The edge-triggered pipe

The child of `test_ET.c` writes two lines at a time into a pipe.  The parent
has the other end in an edge-triggered epoll instance and reads half of what
one `Write` of the child brings for each report, so it falls behind and never
catches up.
-/

namespace LinuxNet.AdvancedEpoll

open LinuxNet.EdgeTriggered LinuxNet.StepSystem LinuxNet.Wrap

/-- One half of `buf`, as the child fills it. -/
def filledHalf (ch : UInt8) : List UInt8 :=
  (List.replicate blockSize ch).set (blockSize - 1) 10

inductive ParentAt where
  | waits
  | reads
  | writes (buf : List UInt8)
  deriving DecidableEq, Repr

inductive PipeLabel where
  | childWrites
  | epollWait
  | read
  | write
  deriving DecidableEq, Repr

/-- The child's next letter, the pipe, the parent, and what the parent has
printed. -/
structure PipeReader where
  ch : UInt8
  pipe : Source UInt8
  parentAt : ParentAt
  printed : List UInt8

namespace PipeReader

def start : PipeReader :=
  ⟨97, .fresh, .waits, []⟩

/-- `Write` of the child puts all ten bytes into the pipe at once, and `Read`
of the parent takes as many as there are, up to half of `buf`. -/
def step (reader : PipeReader) : PipeLabel → Option PipeReader
  | .childWrites =>
      (reader.pipe.arrive
        (filledHalf reader.ch ++ filledHalf (reader.ch + 1))).map fun pipe =>
          { reader with ch := reader.ch + 1 + 1, pipe := pipe }
  | .epollWait =>
      if reader.parentAt = .waits then
        reader.pipe.report.map fun pipe =>
          { reader with pipe := pipe, parentAt := .reads }
      else
        none
  | .read =>
      if reader.parentAt = .reads ∧ reader.pipe.unread ≠ [] then
        some
          { reader with
            pipe := reader.pipe.take blockSize
            parentAt := .writes (reader.pipe.unread.take blockSize) }
      else
        none
  | .write =>
      match reader.parentAt with
      | .writes buf =>
          some
            { reader with
              parentAt := .waits, printed := reader.printed ++ buf }
      | .waits | .reads => none

end PipeReader

def lineOf (index : Nat) : List UInt8 :=
  filledHalf (97 + UInt8.ofNat index)

def linesFrom (first count : Nat) : List UInt8 :=
  (List.range' first count).flatMap lineOf

theorem length_filledHalf (ch : UInt8) :
    (filledHalf ch).length = blockSize := by
  unfold filledHalf
  rw [List.length_set, List.length_replicate]

theorem linesFrom_succ (first count : Nat) :
    linesFrom first (count + 1) = lineOf first ++ linesFrom (first + 1) count := by
  unfold linesFrom
  rw [List.range'_succ, List.flatMap_cons]

theorem linesFrom_append (first count more : Nat) :
    linesFrom first (count + more) =
      linesFrom first count ++ linesFrom (first + count) more := by
  unfold linesFrom
  rw [← List.flatMap_append, List.range'_append_1]

theorem length_linesFrom (first count : Nat) :
    (linesFrom first count).length = blockSize * count := by
  induction count generalizing first with
  | zero => rfl
  | succ count inductionHypothesis =>
      have line : (lineOf first).length = blockSize := length_filledHalf _
      rw [linesFrom_succ, List.length_append, line, inductionHypothesis]
      simp only [blockSize]
      omega

theorem linesFrom_one (first : Nat) : linesFrom first 1 = lineOf first := by
  rw [linesFrom_succ]
  exact List.append_nil _

/-- One read takes one line. -/
theorem take_linesFrom {first count : Nat} (positive : 0 < count) :
    (linesFrom first count).take blockSize = lineOf first ∧
      (linesFrom first count).drop blockSize =
        linesFrom (first + 1) (count - 1) := by
  obtain ⟨count, rfl⟩ := Nat.exists_eq_succ_of_ne_zero (Nat.ne_of_gt positive)
  have line : blockSize = (lineOf first).length :=
    (length_filledHalf _).symm
  rw [linesFrom_succ, line, List.take_left, List.drop_left]
  exact ⟨rfl, rfl⟩

namespace PipeReader

structure Progress (past : List PipeLabel) (reader : PipeReader) : Prop where
  ch_eq : reader.ch = 97 + UInt8.ofNat (2 * past.count .childWrites)
  running : reader.pipe.ended = false
  consumed_eq : reader.pipe.consumed = linesFrom 0 (past.count .read)
  unread_eq :
    reader.pipe.unread =
      linesFrom (past.count .read)
        (2 * past.count .childWrites - past.count .read)
  printed_eq : reader.printed = linesFrom 0 (past.count .write)
  /-- A report takes at least one arrival. -/
  reported :
    past.count .epollWait + reader.pipe.ready.toNat ≤
      past.count .childWrites
  parentAt_eq :
    match reader.parentAt with
    | .waits =>
        past.count .write = past.count .epollWait ∧
          past.count .read = past.count .epollWait
    | .reads =>
        past.count .write + 1 = past.count .epollWait ∧
          past.count .read + 1 = past.count .epollWait
    | .writes buf =>
        past.count .write + 1 = past.count .epollWait ∧
          past.count .read = past.count .epollWait ∧
            buf = lineOf (past.count .write)

theorem progress_start : Progress [] start where
  ch_eq := rfl
  running := rfl
  consumed_eq := rfl
  unread_eq := rfl
  printed_eq := rfl
  reported := Nat.le_refl 0
  parentAt_eq := ⟨rfl, rfl⟩

variable {past : List PipeLabel} {reader next : PipeReader}

theorem count_concat (past : List PipeLabel) (label other : PipeLabel) :
    (past ++ [label]).count other =
      past.count other + if label = other then 1 else 0 := by
  rw [List.count_append, List.count_singleton]
  simp

theorem progress_childWrites
    (progress : Progress past reader)
    (stepped : reader.step .childWrites = some next) :
    Progress (past ++ [.childWrites]) next := by
  obtain ⟨ch, running, consumed, unread, printed, reported, place⟩ :=
    progress
  obtain ⟨pipe, arrived, rfl⟩ := Option.map_eq_some_iff.mp stepped
  obtain ⟨_, _, rfl⟩ := Source.arrive_eq_some arrived
  have bound :
      past.count .read ≤ 2 * past.count .childWrites := by
    cases standing : reader.parentAt <;> rw [standing] at place <;>
      simp only at place <;> omega
  have lines :
      filledHalf reader.ch ++ filledHalf (reader.ch + 1) =
        linesFrom (2 * past.count .childWrites) 2 := by
    rw [linesFrom_append _ 1 1, linesFrom_one, linesFrom_one, ch]
    unfold lineOf
    rw [UInt8.ofNat_add, UInt8.add_assoc]
    rfl
  constructor
  · rw [count_concat, if_pos rfl, Nat.mul_add, UInt8.ofNat_add,
      ← UInt8.add_assoc, ← ch, UInt8.add_assoc]
    rfl
  · exact running
  · rw [count_concat]
    exact consumed
  · rw [count_concat, count_concat, if_pos rfl]
    show reader.pipe.unread ++ _ = _
    have split :
        2 * (past.count .childWrites + 1) - past.count .read =
          2 * past.count .childWrites - past.count .read + 2 := by
      omega
    have next :
        past.count .read +
            (2 * past.count .childWrites - past.count .read) =
          2 * past.count .childWrites := by
      omega
    simp only [reduceCtorEq, if_false, Nat.add_zero]
    rw [split, linesFrom_append, next, unread, lines]
  · rw [count_concat]
    exact printed
  · simp only [count_concat, reduceCtorEq, if_false, if_true,
      Bool.toNat_true]
    omega
  · simp only [count_concat, reduceCtorEq, if_false, Nat.add_zero]
    exact place

theorem progress_epollWait
    (progress : Progress past reader)
    (stepped : reader.step .epollWait = some next) :
    Progress (past ++ [.epollWait]) next := by
  obtain ⟨ch, running, consumed, unread, printed, reported, place⟩ :=
    progress
  obtain ⟨waits, stepped⟩ := Option.ite_none_right_eq_some.mp stepped
  obtain ⟨pipe, isReported, rfl⟩ := Option.map_eq_some_iff.mp stepped
  obtain ⟨ready, _, rfl⟩ := Source.report_eq_some isReported
  rw [waits] at place
  rw [ready, Bool.toNat_true] at reported
  constructor <;>
    simp only [count_concat, reduceCtorEq, if_false, if_true, Nat.add_zero,
      Bool.toNat_false]
  · exact ch
  · exact running
  · exact consumed
  · exact unread
  · exact printed
  · exact reported
  · exact ⟨by omega, by omega⟩

theorem progress_read
    (progress : Progress past reader)
    (stepped : reader.step .read = some next) :
    Progress (past ++ [.read]) next := by
  obtain ⟨ch, running, consumed, unread, printed, reported, place⟩ :=
    progress
  obtain ⟨⟨reads, _⟩, stepped⟩ := Option.ite_none_right_eq_some.mp stepped
  cases stepped
  rw [reads] at place
  obtain ⟨writes, isNext⟩ := place
  have positive :
      0 < 2 * past.count .childWrites - past.count .read := by
    omega
  obtain ⟨line, later⟩ := @take_linesFrom (past.count .read) _ positive
  constructor <;>
    simp only [count_concat, reduceCtorEq, if_false, if_true, Nat.add_zero]
  · exact ch
  · exact running
  · show reader.pipe.consumed ++ reader.pipe.unread.take blockSize = _
    rw [consumed, unread, line, linesFrom_append, linesFrom_one,
      Nat.zero_add]
  · show reader.pipe.unread.drop blockSize = _
    rw [unread, later]
    rfl
  · exact printed
  · exact reported
  · refine ⟨writes, isNext, ?_⟩
    rw [unread, line]
    congr 1
    omega

theorem progress_write
    (progress : Progress past reader)
    (stepped : reader.step .write = some next) :
    Progress (past ++ [.write]) next := by
  obtain ⟨ch, running, consumed, unread, printed, reported, place⟩ :=
    progress
  simp only [step] at stepped
  split at stepped
  · next buf writes =>
      cases stepped
      rw [writes] at place
      obtain ⟨isNext, reads, rfl⟩ := place
      constructor <;>
        simp only [count_concat, reduceCtorEq, if_false, if_true,
          Nat.add_zero]
      · exact ch
      · exact running
      · exact consumed
      · exact unread
      · rw [printed, linesFrom_append, linesFrom_one, Nat.zero_add]
      · exact reported
      · exact ⟨isNext, reads⟩
  · cases stepped
  · cases stepped

theorem progress_step
    (past : List PipeLabel) (reader : PipeReader) (label : PipeLabel)
    (next : PipeReader) (progress : Progress past reader)
    (stepped : reader.step label = some next) :
    Progress (past ++ [label]) next := by
  cases label with
  | childWrites => exact progress_childWrites progress stepped
  | epollWait => exact progress_epollWait progress stepped
  | read => exact progress_read progress stepped
  | write => exact progress_write progress stepped

/-- The parent prints the child's lines in order, and at most one for two that
the child has written: whatever the order of the steps, at least half of what
went into the pipe stays there. -/
theorem half_stays_in_the_pipe
    {labels : List PipeLabel} {last : PipeReader}
    (ran : run step start labels = some last) :
    last.printed = linesFrom 0 (labels.count .write) ∧
      last.pipe.sent = linesFrom 0 (2 * labels.count .childWrites) ∧
        last.printed.length ≤ last.pipe.consumed.length ∧
          2 * last.pipe.consumed.length ≤ last.pipe.sent.length := by
  have progress := run_keeps_history Progress progress_step progress_start ran
  rw [List.nil_append] at progress
  obtain ⟨_, _, consumed, unread, printed, reported, place⟩ := progress
  have bounds :
      labels.count .write ≤ labels.count .read ∧
        labels.count .read ≤ labels.count .childWrites := by
    cases standing : last.parentAt <;> rw [standing] at place <;>
      simp only at place <;> omega
  have sent :
      last.pipe.sent = linesFrom 0 (2 * labels.count .childWrites) := by
    have split :
        2 * labels.count .childWrites =
          labels.count .read +
            (2 * labels.count .childWrites - labels.count .read) := by
      omega
    unfold Source.sent
    rw [consumed, unread, split, linesFrom_append, Nat.zero_add,
      Nat.add_sub_cancel_left]
  refine ⟨printed, sent, ?_, ?_⟩
  · rw [printed, consumed, length_linesFrom, length_linesFrom]
    exact Nat.mul_le_mul_left _ bounds.1
  · rw [sent, consumed, length_linesFrom, length_linesFrom]
    simp only [blockSize]
    omega

/-- The child writes twice before the parent looks. -/
theorem half_stays_in_the_pipe_twice :
    ∃ last,
      run step start
          [.childWrites, .childWrites, .epollWait, .read, .write] =
        some last ∧
        last.printed = linesFrom 0 1 ∧
          last.pipe.sent = linesFrom 0 4 ∧
            last.printed.length ≤ last.pipe.consumed.length ∧
              2 * last.pipe.consumed.length ≤ last.pipe.sent.length :=
  ⟨_, rfl,
    @half_stays_in_the_pipe
      [.childWrites, .childWrites, .epollWait, .read, .write] _ rfl⟩

end PipeReader

end LinuxNet.AdvancedEpoll
