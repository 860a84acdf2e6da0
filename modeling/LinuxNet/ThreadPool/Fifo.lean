import LinuxNet.Lib.Ring
import LinuxNet.ThreadPool.Moves

/-!
# The ring of tasks is a first-in first-out queue

`Queues` says that the ring holds a list of tasks from `queue_front` on and
that the tasks put into the ring are the tasks taken from it followed by this
list.  Two moves change the ring, and the rules of the ring buffer apply to
both.
-/

namespace LinuxNet.ThreadPool

open LinuxNet.StepSystem

namespace Pool

/-- The ring holds these tasks, and they are the ones not yet taken. -/
structure Queues (cfg : Config) (s : Pool) (waiting : List Task) :
    Prop where
  capacity : (s.taskQueue.length : Int) = cfg.queueMaxSize
  size : s.queueSize = waiting.length
  front_nonneg : 0 ≤ s.queueFront
  front_lt : s.queueFront < cfg.queueMaxSize
  rear : s.queueRear = (s.queueFront + s.queueSize) % cfg.queueMaxSize
  holds : Ring.Holds s.taskQueue s.queueFront.toNat waiting
  inOrder : s.enqueued = s.taken ++ waiting

variable {cfg : Config} {s next : Pool} {waiting : List Task}

theorem queues_created
    (positive : 1 ≤ cfg.queueMaxSize) (isCreated : Created cfg s) :
    s.Queues cfg [] := by
  obtain ⟨garbage, length, rfl⟩ := isCreated
  exact
    { capacity := by
        exact length
      size := rfl
      front_nonneg := Int.le_refl 0
      front_lt := by
        show 0 < cfg.queueMaxSize
        omega
      rear := (Int.zero_emod _).symm
      holds := Ring.holds_empty _ _
      inOrder := rfl }

theorem Queues.positive (queues : s.Queues cfg waiting) :
    0 < cfg.queueMaxSize := by
  have nonneg := queues.front_nonneg
  have below := queues.front_lt
  omega

/-- C's remainder of a number that is not negative. -/
theorem tmod_of_nonneg {value : Int} (nonneg : 0 ≤ value) :
    value.tmod cfg.queueMaxSize = value % cfg.queueMaxSize :=
  Int.tmod_eq_emod_of_nonneg nonneg

theorem Queues.rear_nonneg (queues : s.Queues cfg waiting) :
    0 ≤ s.queueRear := by
  have positive := queues.positive
  rw [queues.rear]
  exact Int.emod_nonneg _ (by omega)

theorem Queues.rear_lt (queues : s.Queues cfg waiting) :
    s.queueRear < cfg.queueMaxSize := by
  rw [queues.rear]
  exact Int.emod_lt_of_pos _ queues.positive

theorem Queues.size_le (queues : s.Queues cfg waiting) :
    s.queueSize ≤ cfg.queueMaxSize := by
  have fits := queues.holds.fits
  rw [queues.size, ← queues.capacity]
  exact Int.ofNat_le.mpr fits

/-- A position of the ring as an index of its array. -/
theorem Queues.toNat_emod
    (queues : s.Queues cfg waiting) (value : Nat) :
    (((s.queueFront + value) % cfg.queueMaxSize : Int)).toNat =
      (s.queueFront.toNat + value) % s.taskQueue.length := by
  have nonneg := queues.front_nonneg
  obtain ⟨front, isFront⟩ := Int.eq_ofNat_of_zero_le nonneg
  rw [isFront, ← queues.capacity, Int.toNat_natCast, ← Int.natCast_add,
    ← Int.natCast_emod, Int.toNat_natCast]

theorem queues_takeTask
    {index : Nat} (queues : s.Queues cfg waiting)
    (notEmpty : s.queueSize ≠ 0) :
    ∃ rest, (s.takeTask cfg index).Queues cfg rest := by
  cases waiting with
  | nil => exact absurd queues.size notEmpty
  | cons task rest =>
      have size := queues.size
      have positive := queues.positive
      have nonneg := queues.front_nonneg
      have below := queues.front_lt
      have capacity := queues.capacity
      rw [List.length_cons] at size
      obtain ⟨isFront, popped⟩ := queues.holds.pop
      have frontInside : s.queueFront.toNat < s.taskQueue.length := by
        omega
      rw [Nat.mod_eq_of_lt frontInside] at isFront
      have frontTask : s.frontTask = task := by
        unfold Pool.frontTask
        rw [List.getD_eq_getElem?_getD, isFront]
        rfl
      have advanced :
          (s.queueFront + 1).tmod cfg.queueMaxSize =
            (s.queueFront + 1) % cfg.queueMaxSize :=
        tmod_of_nonneg (by omega)
      have newFront :
          ((s.queueFront + 1).tmod cfg.queueMaxSize).toNat =
            (s.queueFront.toNat + 1) % s.taskQueue.length := by
        rw [advanced]
        exact queues.toNat_emod 1
      refine ⟨rest, ?_⟩
      exact
        { capacity := capacity
          size := by
            show s.queueSize - 1 = rest.length
            omega
          front_nonneg := by
            show 0 ≤ (s.queueFront + 1).tmod cfg.queueMaxSize
            rw [advanced]
            exact Int.emod_nonneg _ (by omega)
          front_lt := by
            show (s.queueFront + 1).tmod cfg.queueMaxSize < _
            rw [advanced]
            exact Int.emod_lt_of_pos _ positive
          rear := by
            show s.queueRear =
              ((s.queueFront + 1).tmod cfg.queueMaxSize +
                (s.queueSize - 1)) % cfg.queueMaxSize
            rw [advanced, Int.emod_add_emod, queues.rear]
            congr 1
            omega
          holds := by
            show Ring.Holds s.taskQueue
              ((s.queueFront + 1).tmod cfg.queueMaxSize).toNat rest
            rw [newFront]
            exact popped
          inOrder := by
            show s.enqueued = s.taken ++ [s.frontTask] ++ rest
            rw [queues.inOrder, frontTask, List.append_assoc,
              List.singleton_append] }

/-- The fields that `threadpool_add` sets when it adds a task. -/
theorem queues_enqueue
    {task : Task} {producers : List ProducerPc} {workers : List WorkerPc}
    (queues : s.Queues cfg waiting) (room : s.queueSize ≠ cfg.queueMaxSize) :
    Queues cfg
      { s with
        taskQueue := s.taskQueue.set s.queueRear.toNat task
        queueRear := (s.queueRear + 1).tmod cfg.queueMaxSize
        queueSize := s.queueSize + 1
        producers := producers
        enqueued := s.enqueued ++ [task]
        workers := workers }
      (waiting ++ [task]) := by
  have size := queues.size
  have capacity := queues.capacity
  have bound := queues.size_le
  have roomLeft : waiting.length < s.taskQueue.length := by
    omega
  have isRear :
      s.queueRear.toNat =
        (s.queueFront.toNat + waiting.length) % s.taskQueue.length := by
    rw [queues.rear, size]
    exact queues.toNat_emod waiting.length
  exact
    { capacity := by
        show ((s.taskQueue.set s.queueRear.toNat task).length : Int) = _
        rw [List.length_set]
        exact capacity
      size := by
        show s.queueSize + 1 = ((waiting ++ [task]).length : Int)
        rw [List.length_append, List.length_singleton]
        omega
      front_nonneg := queues.front_nonneg
      front_lt := queues.front_lt
      rear := by
        show (s.queueRear + 1).tmod cfg.queueMaxSize =
          (s.queueFront + (s.queueSize + 1)) % cfg.queueMaxSize
        have nonneg := queues.rear_nonneg
        rw [tmod_of_nonneg (by omega), queues.rear, Int.emod_add_emod,
          Int.add_assoc]
      holds := by
        show Ring.Holds (s.taskQueue.set s.queueRear.toNat task)
          s.queueFront.toNat (waiting ++ [task])
        rw [isRear]
        exact queues.holds.push roomLeft task
      inOrder := by
        show s.enqueued ++ [task] = s.taken ++ (waiting ++ [task])
        rw [queues.inOrder, List.append_assoc] }

theorem queues_step
    {label : PoolStep} (holds : ∃ waiting, s.Queues cfg waiting)
    (stepped : s.step cfg label = some next) :
    ∃ waiting, next.Queues cfg waiting := by
  obtain ⟨waiting, queues⟩ := holds
  cases moves_of_step stepped with
  | @takes _ waitExit _ notEmpty _ =>
      have waited :
          Queues cfg { s with waitExitThreadNum := waitExit } waiting :=
        { queues with }
      exact queues_takeTask waited notEmpty
  | enqueues _ room _ _ => exact ⟨_, queues_enqueue queues room⟩
  | @grows findsAlive _ _ _ _ _ _ =>
      have grown :=
        grow_keeps cfg findsAlive (fun s => s.Queues cfg waiting)
          (fun _ _ _ before => { before with }) queues
      exact ⟨waiting, { grown with }⟩
  | sleeps | leaves | shrinks | blocks | starts | calls | finishes | ends
  | wakesUp | called | producerSleeps | refused | producerBlocks
  | producerWakesUp | adjusts | asksToExit | signals | shuts | adjustJoined
  | broadcasts | joinsThreads | joined | frees | freed =>
      exact ⟨waiting, { queues with }⟩

/-- In every reachable state the indices of the ring are in range and agree
with its size, and the tasks in the ring are those put in and not yet taken,
in order: tasks are taken first in, first out, each at most once and as they
were put in. -/
theorem ring_is_fifo
    (cfg : Config) (s : Pool) (positive : 1 ≤ cfg.queueMaxSize)
    (reachable : Reachable (Created cfg) (step cfg) s) :
    (0 ≤ s.queueSize ∧ s.queueSize ≤ cfg.queueMaxSize) ∧
      (0 ≤ s.queueFront ∧ s.queueFront < cfg.queueMaxSize) ∧
      (0 ≤ s.queueRear ∧ s.queueRear < cfg.queueMaxSize) ∧
      s.queueRear = (s.queueFront + s.queueSize) % cfg.queueMaxSize ∧
      ∃ waiting : List Task,
        s.enqueued = s.taken ++ waiting ∧ s.queueSize = waiting.length ∧
          ∀ offset : Nat, offset < waiting.length →
            s.taskQueue[
                ((s.queueFront + offset) % cfg.queueMaxSize).toNat]? =
              waiting[offset]? := by
  obtain ⟨first, labels, isCreated, ran⟩ := reachable
  obtain ⟨waiting, queues⟩ :=
    run_keeps (fun s => ∃ waiting, s.Queues cfg waiting)
      (fun _ _ _ holds stepped => queues_step holds stepped)
      ⟨[], queues_created positive isCreated⟩ ran
  have size := queues.size
  refine
    ⟨⟨by omega, queues.size_le⟩, ⟨queues.front_nonneg, queues.front_lt⟩,
      ⟨queues.rear_nonneg, queues.rear_lt⟩, queues.rear, waiting,
      queues.inOrder, size, fun offset offsetLt => ?_⟩
  rw [queues.toNat_emod offset]
  exact queues.holds.entry offset offsetLt

def twoTasks : Pool :=
  { created ⟨1, 1, 2⟩ [⟨0, 0⟩, ⟨0, 0⟩] with
    taskQueue := [⟨4, 5⟩, ⟨4, 6⟩]
    queueSize := 2
    producers := [.returned ⟨4, 5⟩ 0, .returned ⟨4, 6⟩ 0]
    enqueued := [⟨4, 5⟩, ⟨4, 6⟩] }

theorem ring_is_fifo_two_tasks :
    twoTasks.queueRear =
        (twoTasks.queueFront + twoTasks.queueSize) % 2 ∧
      ∃ waiting : List Task,
        twoTasks.enqueued = twoTasks.taken ++ waiting ∧
          twoTasks.queueSize = waiting.length ∧
          ∀ offset : Nat, offset < waiting.length →
            twoTasks.taskQueue[
                ((twoTasks.queueFront + offset) % 2).toNat]? =
              waiting[offset]? :=
  (ring_is_fifo ⟨1, 1, 2⟩ twoTasks (by decide)
    ⟨created ⟨1, 1, 2⟩ [⟨0, 0⟩, ⟨0, 0⟩],
      [.add ⟨4, 5⟩, .producer 0 0, .add ⟨4, 6⟩, .producer 1 0],
      ⟨_, rfl, rfl⟩, rfl⟩).2.2.2

end Pool

end LinuxNet.ThreadPool
