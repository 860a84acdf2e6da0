import LinuxNet.ThreadPool.Census

/-!
# A queued task and the workers that sleep

`threadpool_add` wakes one worker for its task.  But a worker that wakes up
first looks at `wait_exit_thread_num`, which `threadpool_adjust` sets to 10
whatever the number of workers it can wake; what is left of it makes workers
leave that a task was meant to wake.  A task is never left with all workers
asleep exactly in the runs where a worker that leaves on demand leaves an
empty queue, or another worker awake.
-/

namespace LinuxNet.ThreadPool

open LinuxNet.StepSystem LinuxNet.Threads

/-- The worker has not left its loop and is not in `pthread_cond_wait`. -/
def WorkerPc.isAwake : WorkerPc → Bool
  | .blocked | .exits | .ended => false
  | _ => true

theorem isAwake_wake {pc : WorkerPc} (awake : pc.isAwake = true) :
    pc.wake.isAwake = true := by
  cases pc <;> first | rfl | cases awake

theorem waits_mem_of_set
    {workers : List WorkerPc} {index : Nat} {new : WorkerPc}
    (member : .waits ∈ workers.set index new)
    (notWaits : new.isWaits = false) : .waits ∈ workers := by
  rcases List.mem_or_eq_of_mem_set member with before | same
  · exact before
  · rw [← same] at notWaits
    cases notWaits

theorem Signalled.waits_mem
    {workers after : List WorkerPc} (signalled : Signalled workers after)
    (member : .waits ∈ after) : .waits ∈ workers := by
  cases signalled with
  | nobody _ => exact member
  | waiter _ => exact waits_mem_of_set member rfl

theorem waits_mem_of_map
    {workers : List WorkerPc}
    (member : .waits ∈ workers.map WorkerPc.wake) : .waits ∈ workers := by
  obtain ⟨pc, before, same⟩ := List.mem_map.mp member
  cases pc with
  | waits => exact before
  | locks | blocked | woken | starts | calls | finishes | exits | ended =>
      cases same

namespace Pool

variable {cfg : Config} {s next : Pool}

def Awake (s : Pool) : Prop :=
  ∃ pc ∈ s.workers, pc.isAwake = true

/-- While the pool is open and the lock is free, a queued task finds a worker
awake. -/
def Attended (s : Pool) : Prop :=
  s.shutdown = false → s.lock = false → 0 < s.queueSize → s.Awake

/-- A worker that leaves on demand while a task is queued leaves another
worker awake. -/
def LeavesAnotherAwake (cfg : Config) (s : Pool) : PoolStep → Prop
  | .worker index =>
      s.LeavesOnDemand cfg index → s.shutdown = false → 0 < s.queueSize →
        ∃ other pc, other ≠ index ∧ s.workers[other]? = some pc ∧
          pc.isAwake = true
  | _ => True

/-- What carries `Attended` from step to step. -/
structure Serves (cfg : Config) (s : Pool) : Prop where
  exclusive : s.Exclusive
  counted : s.Counted cfg
  /-- A worker goes to sleep only on an empty queue. -/
  idle : s.shutdown = false → .waits ∈ s.workers → s.queueSize ≤ 0
  served : s.shutdown = false → 0 < s.queueSize → s.Awake

theorem awake_set
    {index : Nat} {old new : WorkerPc} (isAt : s.workers[index]? = some old)
    (awake : new.isAwake = true) (same : next.workers = s.workers.set index new) :
    next.Awake := by
  refine ⟨new, ?_, awake⟩
  rw [same]
  exact mem_set_self isAt new

/-- A worker that was asleep anyway moves. -/
theorem Awake.set_other
    {index : Nat} {old new : WorkerPc} (awake : s.Awake)
    (isAt : s.workers[index]? = some old) (asleep : old.isAwake = false)
    (same : next.workers = s.workers.set index new) : next.Awake := by
  obtain ⟨pc, member, isAwake⟩ := awake
  refine ⟨pc, ?_, isAwake⟩
  rw [same]
  apply mem_set_of_ne isAt member
  rintro rfl
  rw [asleep] at isAwake
  cases isAwake

theorem Awake.signalled
    {workers : List WorkerPc} (awake : s.Awake)
    (signalled : Signalled s.workers workers)
    (same : next.workers = workers) : next.Awake := by
  cases signalled with
  | nobody _ =>
      unfold Awake
      rw [same]
      exact awake
  | waiter isAt => exact awake_set isAt rfl same

theorem Awake.woken
    (awake : s.Awake) (same : next.workers = s.workers.map WorkerPc.wake) :
    next.Awake := by
  obtain ⟨pc, member, isAwake⟩ := awake
  refine ⟨pc.wake, ?_, isAwake_wake isAwake⟩
  rw [same]
  exact List.mem_map_of_mem member

/-- A signal for a task finds somebody: a waiter, or else a worker that has
not left and does not sleep. -/
theorem Serves.awake_signalled
    {workers : List WorkerPc} (serves : s.Serves cfg)
    (positive : 1 ≤ cfg.minThreadNum) (isOpen : s.shutdown = false)
    (signalled : Signalled s.workers workers)
    (same : next.workers = workers) : next.Awake := by
  cases signalled with
  | nobody noWaiter =>
      have counted := serves.counted.eq isOpen
      have enough := serves.counted.enough
      have active : 0 < s.workers.countP WorkerPc.isActive := by
        omega
      obtain ⟨pc, member, isActive⟩ := List.countP_pos_iff.mp active
      refine ⟨pc, ?_, ?_⟩
      · rw [same]
        exact member
      · cases pc with
        | blocked => exact absurd member noWaiter
        | exits | ended => cases isActive
        | locks | waits | woken | starts | calls | finishes => rfl
  | waiter isAt => exact awake_set isAt rfl same

/-! ## The invariant -/

theorem serves_created
    (positive : 1 ≤ cfg.minThreadNum) (isCreated : Created cfg s) :
    s.Serves cfg := by
  have exclusive := exclusive_created isCreated
  have counted := counted_created (by omega) isCreated
  obtain ⟨garbage, _, rfl⟩ := isCreated
  refine ⟨exclusive, counted, fun _ member => ?_, fun _ impossible => ?_⟩
  · cases (List.mem_replicate.mp member).2
  · exact absurd impossible (Int.lt_irrefl 0)

/-- The two facts about the queue, for a step that keeps the others. -/
theorem idle_and_served_step
    {label : PoolStep} (positive : 1 ≤ cfg.minThreadNum)
    (serves : s.Serves cfg) (met : s.LeavesAnotherAwake cfg label)
    (stepped : s.step cfg label = some next) :
    (next.shutdown = false → .waits ∈ next.workers → next.queueSize ≤ 0) ∧
      (next.shutdown = false → 0 < next.queueSize → next.Awake) := by
  have idle := serves.idle
  have served := serves.served
  cases moves_of_step stepped with
  | sleeps _ empty _ =>
      have none : s.queueSize ≤ 0 := Int.le_of_eq empty
      exact
        ⟨fun _ _ => none,
          fun _ queued => absurd queued (Int.not_lt.mpr none)⟩
  | leaves _ isShut =>
      constructor
      · intro isOpen
        rw [isShut] at isOpen
        cases isOpen
      · intro isOpen
        rw [isShut] at isOpen
        cases isOpen
  | takes tests _ _ =>
      obtain ⟨old, isAt, _, _⟩ := tests.exists_awake
      constructor
      · intro _ member
        have before := waits_mem_of_set member rfl
        exact absurd before (serves.exclusive.free tests.free)
      · intro _ _
        exact awake_set isAt rfl rfl
  | shrinks free isAt asked above =>
      constructor
      · intro _ member
        have before := waits_mem_of_set member rfl
        exact absurd before (serves.exclusive.free free)
      · intro isOpen queued
        obtain ⟨other, pc, different, isOther, awake⟩ :=
          met ⟨free, isAt, asked, above⟩ isOpen queued
        exact
          ⟨pc, mem_of_at (at_set_of_ne different isOther .exits), awake⟩
  | blocks isAt =>
      constructor
      · intro _ member
        exact absurd member (serves.exclusive.alone isAt).2
      · intro isOpen queued
        have none := idle isOpen (mem_of_at isAt)
        exact absurd queued (Int.not_lt.mpr none)
  | starts isAt | calls isAt | finishes isAt | wakesUp isAt =>
      constructor
      · intro isOpen member
        exact idle isOpen (waits_mem_of_set member rfl)
      · intro _ _
        exact awake_set isAt rfl rfl
  | ends isAt =>
      constructor
      · intro isOpen member
        exact idle isOpen (waits_mem_of_set member rfl)
      · intro isOpen queued
        exact (served isOpen queued).set_other isAt rfl rfl
  | refused _ isShut =>
      constructor
      · intro isOpen
        rw [isShut] at isOpen
        cases isOpen
      · intro isOpen
        rw [isShut] at isOpen
        cases isOpen
  | enqueues tests _ isOpen signalled =>
      constructor
      · intro _ member
        have before := signalled.waits_mem member
        exact absurd before (serves.exclusive.free tests.free)
      · intro _ _
        exact serves.awake_signalled positive isOpen signalled rfl
  | signals _ signalled =>
      constructor
      · intro isOpen member
        exact idle isOpen (signalled.waits_mem member)
      · intro isOpen queued
        exact (served isOpen queued).signalled signalled rfl
  | broadcasts _ _ =>
      constructor
      · intro isOpen member
        exact idle isOpen (waits_mem_of_map member)
      · intro isOpen queued
        exact (served isOpen queued).woken rfl
  | @grows findsAlive _ _ _ _ _ _ =>
      refine
        grow_keeps cfg findsAlive
          (fun t =>
            (t.shutdown = false → .waits ∈ t.workers → t.queueSize ≤ 0) ∧
              (t.shutdown = false → 0 < t.queueSize → t.Awake))
          ?_ ⟨idle, served⟩
      rintro t slot _ ⟨idleBefore, servedBefore⟩
      constructor
      · intro isOpen member
        rcases List.mem_append.mp member with before | added
        · exact idleBefore isOpen before
        · cases List.mem_singleton.mp added
      · intro isOpen queued
        obtain ⟨pc, before, awake⟩ := servedBefore isOpen queued
        exact ⟨pc, List.mem_append_left _ before, awake⟩
  | shuts _ =>
      constructor
      · intro isOpen
        cases isOpen
      · intro isOpen
        cases isOpen
  | called | producerSleeps | producerBlocks | producerWakesUp | adjusts
  | asksToExit | adjustJoined | joinsThreads | joined | frees | freed =>
      exact ⟨idle, served⟩

theorem serves_step
    {label : PoolStep} (positive : 1 ≤ cfg.minThreadNum)
    (serves : s.Serves cfg) (met : s.LeavesAnotherAwake cfg label)
    (stepped : s.step cfg label = some next) : next.Serves cfg := by
  obtain ⟨idle, served⟩ := idle_and_served_step positive serves met stepped
  exact
    { exclusive := exclusive_step serves.exclusive stepped
      counted := counted_step serves.counted stepped
      idle := idle
      served := served }

theorem Serves.attended (serves : s.Serves cfg) : s.Attended :=
  fun isOpen _ queued => serves.served isOpen queued

/-- A worker that leaves on demand is gone, and the lock is free. -/
theorem leavesAnotherAwake_of_attended
    {label : PoolStep} (stepped : s.step cfg label = some next)
    (attended : next.Attended) : s.LeavesAnotherAwake cfg label := by
  cases label with
  | worker index =>
      intro leaves isOpen queued
      have left :
          s.step cfg (.worker index) =
            some
              { s with
                waitExitThreadNum := s.waitExitThreadNum - 1
                liveThreadNum := s.liveThreadNum - 1
                workers := s.workers.set index .exits } := by
        simp only [step, workerStep, leaves.isAt, leaves.free,
          Bool.false_eq_true, if_false, afterWait, if_pos leaves.asked,
          if_pos leaves.above]
      rw [left] at stepped
      cases stepped
      obtain ⟨pc, member, awake⟩ := attended isOpen leaves.free queued
      obtain ⟨other, isOther⟩ := List.mem_iff_getElem?.mp member
      rcases at_set_cases isOther with ⟨_, rfl⟩ | ⟨different, before⟩
      · cases awake
      · exact ⟨other, pc, different, before, awake⟩
  | add | producer | adjust | destroy | wakeWorker | wakeProducer =>
      trivial

/-- While the pool is open, a queued task is never left with the lock free
and every worker asleep, exactly in the runs where each worker that leaves on
demand leaves an empty queue or another worker awake. -/
theorem attended_throughout_iff
    (cfg : Config) (first last : Pool) (labels : List PoolStep)
    (positive : 1 ≤ cfg.minThreadNum) (isCreated : Created cfg first)
    (ran : run (step cfg) first labels = some last) :
    Throughout (step cfg) Attended first labels ↔
      StepsMeet (step cfg) (LeavesAnotherAwake cfg) first labels :=
  throughout_iff_stepsMeet (Serves cfg)
    (fun _ serves => serves.attended)
    (fun _ _ _ serves met stepped => serves_step positive serves met stepped)
    (fun _ _ _ _ stepped attended =>
      leavesAnotherAwake_of_attended stepped attended)
    (serves_created positive isCreated) ran

theorem attended_throughout_one_task :
    Throughout (step ⟨1, 1, 1⟩) Attended (created ⟨1, 1, 1⟩ [⟨0, 0⟩])
      [.add ⟨4, 5⟩, .producer 0 0] :=
  (attended_throughout_iff ⟨1, 1, 1⟩ _ _ _ (by decide) ⟨_, rfl, rfl⟩ rfl).mpr
    ⟨trivial, fun _ _ => ⟨trivial, fun _ _ => trivial⟩⟩

/-- The only workers are 0, 1 and 2.  Ten tasks make the manager create the
last two, and worker 0 calls the tasks and falls asleep.  Then the manager
asks ten workers to leave: one does, and the other two go to sleep after it.
The next task wakes one of them, which leaves. -/
def leavingRun : List PoolStep :=
  (List.range 10).flatMap
      (fun i => [.add ⟨4, i⟩, .producer i 0]) ++
    List.replicate 6 (.adjust (fun _ => false) 0) ++
    List.replicate 42 (.worker 0) ++
    List.replicate 17 (.adjust (fun _ => false) 0) ++
    [.worker 0, .worker 1, .worker 1, .worker 2, .worker 2, .add ⟨4, 10⟩,
      .producer 10 1, .worker 1]

/-- With one to three workers and room for ten tasks, a queued task is left
with every worker asleep. -/
theorem task_left_to_sleepers :
    ¬ ∀ (cfg : Config) (s : Pool),
        1 ≤ cfg.minThreadNum → Reachable (Created cfg) (step cfg) s →
          s.Attended := by
  intro claimed
  have left :
      (run (step ⟨1, 3, 10⟩)
          (created ⟨1, 3, 10⟩ (List.replicate 10 ⟨0, 0⟩)) leavingRun).any
        (fun s =>
          s.shutdown == false && s.lock == false && decide (0 < s.queueSize)
            && s.workers.all (fun pc => !pc.isAwake)) = true := by
    decide +kernel
  obtain ⟨last, ran, asleep⟩ := (Option.any_eq_true _ _).mp left
  simp only [Bool.and_eq_true, beq_iff_eq, decide_eq_true_eq,
    List.all_eq_true, Bool.not_eq_true'] at asleep
  obtain ⟨⟨⟨isOpen, free⟩, queued⟩, nobody⟩ := asleep
  obtain ⟨pc, member, awake⟩ :=
    claimed ⟨1, 3, 10⟩ last (by decide)
      ⟨_, leavingRun, ⟨_, rfl, rfl⟩, ran⟩ isOpen free queued
  rw [nobody pc member] at awake
  cases awake

end Pool

end LinuxNet.ThreadPool
