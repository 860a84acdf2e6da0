import LinuxNet.ThreadPool.Census

/-!
# The counters of the pool

While the pool is open: `live_thread_num` counts the workers that have not
left and stays between the two bounds, `busy_thread_num` counts those that
call a task, and `wait_exit_thread_num` stays between 0 and
`DEFAULT_THREAD_VARY`.  `threadpool_adjust` works with values that are old
when it uses them, but tests again under the lock before each thread that it
creates, and a slot that it fills belongs to no running worker.
-/

namespace LinuxNet.ThreadPool

open LinuxNet.StepSystem LinuxNet.Threads

/-- The worker has counted itself in as busy and not yet out. -/
def WorkerPc.isBusy : WorkerPc → Bool
  | .calls _ | .finishes => true
  | _ => false

theorem isBusy_wake :
    WorkerPc.isBusy ∘ WorkerPc.wake = WorkerPc.isBusy := by
  funext pc
  cases pc <;> rfl

namespace Pool

variable {cfg : Config} {s next : Pool}

def BusyCounted (s : Pool) : Prop :=
  (s.workers.countP WorkerPc.isBusy : Int) = s.busyThreadNum

theorem busyCounted_created (isCreated : Created cfg s) : s.BusyCounted := by
  obtain ⟨garbage, _, rfl⟩ := isCreated
  show ((List.replicate cfg.minThreadNum.toNat WorkerPc.locks).countP _ : Int) =
    0
  rw [List.countP_replicate]
  rfl

theorem BusyCounted.frame
    (counted : s.BusyCounted)
    (same :
      next.workers.countP WorkerPc.isBusy =
        s.workers.countP WorkerPc.isBusy)
    (busy : next.busyThreadNum = s.busyThreadNum) : next.BusyCounted := by
  unfold BusyCounted
  rw [same, busy]
  exact counted

/-- A worker moves, and `busy_thread_num` with it. -/
theorem BusyCounted.worker
    {index : Nat} {old new : WorkerPc} (counted : s.BusyCounted)
    (isAt : s.workers[index]? = some old)
    (workers : next.workers = s.workers.set index new)
    (busy :
      next.busyThreadNum + old.isBusy.toNat =
        s.busyThreadNum + new.isBusy.toNat) : next.BusyCounted := by
  have moved := countP_set_add WorkerPc.isBusy isAt new
  unfold BusyCounted at counted ⊢
  rw [workers]
  omega

/-- A worker that tests the queue is not busy. -/
theorem Tests.exists_idle
    {index : Nat} {waitExit : Int} (tests : s.Tests index waitExit) :
    ∃ old : WorkerPc, s.workers[index]? = some old ∧ old.isBusy = false := by
  rcases tests.isAt with ⟨isAt, _⟩ | ⟨isAt, _⟩
  · exact ⟨_, isAt, rfl⟩
  · exact ⟨_, isAt, rfl⟩

theorem busyCounted_step
    {label : PoolStep} (counted : s.BusyCounted)
    (stepped : s.step cfg label = some next) : next.BusyCounted := by
  cases moves_of_step stepped with
  | sleeps tests _ _ | leaves tests _ | takes tests _ _ =>
      obtain ⟨old, isAt, idle⟩ := tests.exists_idle
      refine counted.worker isAt rfl ?_
      rw [idle]
      rfl
  | shrinks _ isAt _ _ | blocks isAt | calls isAt | ends isAt
  | wakesUp isAt =>
      exact counted.worker isAt rfl rfl
  | starts isAt =>
      refine counted.worker isAt rfl ?_
      exact Int.add_zero _
  | finishes isAt =>
      refine counted.worker isAt rfl ?_
      show s.busyThreadNum - 1 + 1 = s.busyThreadNum + 0
      omega
  | enqueues _ _ _ signalled | signals _ signalled =>
      exact counted.frame (signalled.countP_eq rfl) rfl
  | refused _ _ | broadcasts _ _ =>
      apply counted.frame
      · show (s.workers.map WorkerPc.wake).countP _ = _
        rw [List.countP_map, isBusy_wake]
      · rfl
  | @grows findsAlive _ _ _ _ _ _ =>
      refine
        BusyCounted.frame
          (grow_keeps cfg findsAlive BusyCounted (fun _ slot _ before => ?_)
            counted) rfl rfl
      refine before.frame ?_ rfl
      show (_ ++ [WorkerPc.locks]).countP _ = _
      rw [List.countP_append]
      rfl
  | called | producerSleeps | producerBlocks | producerWakesUp | adjusts
  | asksToExit | shuts | adjustJoined | joinsThreads | joined | frees
  | freed =>
      exact counted.frame rfl rfl

/-- `wait_exit_thread_num` stays, goes down by one from a positive value, or
is set. -/
def ExitsAsked (before after : Int) : Prop :=
  after = before ∨ 0 < before ∧ after = before - 1 ∨
    after = defaultThreadVary

theorem testQueue_waitExitThreadNum (cfg : Config) (s : Pool) (index : Nat) :
    (s.testQueue cfg index).waitExitThreadNum = s.waitExitThreadNum := by
  unfold testQueue
  split
  · rfl
  · split <;> rfl

theorem afterWait_waitExitThreadNum
    (cfg : Config) (s : Pool) (index : Nat) :
    ExitsAsked s.waitExitThreadNum
      (s.afterWait cfg index).waitExitThreadNum := by
  unfold afterWait
  split
  · next asked =>
      refine .inr (.inl ⟨asked, ?_⟩)
      simp only
      split
      · rfl
      · exact testQueue_waitExitThreadNum cfg _ index
  · exact .inl (testQueue_waitExitThreadNum cfg s index)

theorem exitsAsked_worker
    {index : Nat} (stepped : s.workerStep cfg index = some next) :
    ExitsAsked s.waitExitThreadNum next.waitExitThreadNum := by
  unfold workerStep at stepped
  split at stepped
  · obtain ⟨_, entered⟩ := free_of_entered stepped
    cases entered
    exact .inl (testQueue_waitExitThreadNum cfg s index)
  · cases stepped
    exact .inl rfl
  · obtain ⟨_, entered⟩ := free_of_entered stepped
    cases entered
    exact afterWait_waitExitThreadNum cfg s index
  · cases stepped
    exact .inl rfl
  · cases stepped
    exact .inl rfl
  · cases stepped
    exact .inl rfl
  · cases stepped
    exact .inl rfl
  · cases stepped

theorem exitsAsked_step
    {label : PoolStep} (stepped : s.step cfg label = some next) :
    ExitsAsked s.waitExitThreadNum next.waitExitThreadNum := by
  by_cases isWorker : ∃ index, label = .worker index
  · obtain ⟨index, rfl⟩ := isWorker
    exact exitsAsked_worker stepped
  · cases moves_of_step stepped with
    | sleeps | leaves | takes | shrinks | blocks | starts | calls | finishes
    | ends => exact absurd ⟨_, rfl⟩ isWorker
    | asksToExit => exact .inr (.inr rfl)
    | @grows findsAlive _ _ _ _ _ _ =>
        exact
          .inl
            (grow_keeps cfg findsAlive
              (fun t => t.waitExitThreadNum = s.waitExitThreadNum)
              (fun _ _ _ before => before) rfl)
    | wakesUp | called | producerSleeps | refused | enqueues
    | producerBlocks | producerWakesUp | adjusts | signals | shuts
    | adjustJoined | broadcasts | joinsThreads | joined | frees | freed =>
        exact .inl rfl

/-- The counters agree with the workers, within the bounds of the pool. -/
structure CountersInBounds (cfg : Config) (s : Pool) : Prop where
  min_le : cfg.minThreadNum ≤ s.liveThreadNum
  le_max : s.liveThreadNum ≤ cfg.maxThreadNum
  live_eq : s.liveThreadNum = s.workers.countP WorkerPc.isActive
  busy_nonneg : 0 ≤ s.busyThreadNum
  busy_le : s.busyThreadNum ≤ s.liveThreadNum
  waitExit_nonneg : 0 ≤ s.waitExitThreadNum
  waitExit_le : s.waitExitThreadNum ≤ defaultThreadVary

/-- `threadpool_adjust` overwrites no slot whose worker has not ended. -/
def KeepsRunning (cfg : Config) (s : Pool) : Prop :=
  ∀ findsAlive waiter next,
    s.step cfg (.adjust findsAlive waiter) = some next →
      ∀ (slot worker : Nat),
        s.threads[slot]? = some (some worker) →
          next.threads[slot]? ≠ some (some worker) →
            s.workers[worker]? = some .ended

structure Tallied (cfg : Config) (s : Pool) : Prop where
  counted : s.Counted cfg
  busyCounted : s.BusyCounted
  le_max : s.liveThreadNum ≤ cfg.maxThreadNum
  waitExit_nonneg : 0 ≤ s.waitExitThreadNum
  waitExit_le : s.waitExitThreadNum ≤ defaultThreadVary

theorem tallied_created
    (nonneg : 0 ≤ cfg.minThreadNum)
    (ordered : cfg.minThreadNum ≤ cfg.maxThreadNum)
    (isCreated : Created cfg s) : s.Tallied cfg := by
  have counted := counted_created nonneg isCreated
  have busyCounted := busyCounted_created isCreated
  obtain ⟨garbage, _, rfl⟩ := isCreated
  exact
    ⟨counted, busyCounted, ordered, Int.le_refl 0, by
      show (0 : Int) ≤ (10 : Nat)
      decide⟩

theorem liveThreadNum_le_step
    {label : PoolStep} (bounded : s.liveThreadNum ≤ cfg.maxThreadNum)
    (stepped : s.step cfg label = some next) :
    next.liveThreadNum ≤ cfg.maxThreadNum := by
  cases moves_of_step stepped with
  | shrinks =>
      show s.liveThreadNum - 1 ≤ cfg.maxThreadNum
      omega
  | @grows findsAlive _ _ _ _ _ _ =>
      exact
        grow_keeps_below cfg findsAlive
          (fun t => t.liveThreadNum ≤ cfg.maxThreadNum)
          (fun t slot below _ _ => Int.add_one_le_of_lt below) bounded
  | sleeps | leaves | takes | blocks | starts | calls | finishes | ends
  | wakesUp | called | producerSleeps | refused | enqueues | producerBlocks
  | producerWakesUp | adjusts | asksToExit | signals | shuts | adjustJoined
  | broadcasts | joinsThreads | joined | frees | freed =>
      exact bounded

theorem tallied_step
    {label : PoolStep} (tallied : s.Tallied cfg)
    (stepped : s.step cfg label = some next) : next.Tallied cfg := by
  have nonneg := tallied.waitExit_nonneg
  have le := tallied.waitExit_le
  have vary : (defaultThreadVary : Int) = 10 := rfl
  have asked :
      0 ≤ next.waitExitThreadNum ∧
        next.waitExitThreadNum ≤ defaultThreadVary := by
    rcases exitsAsked_step stepped with same | ⟨positive, same⟩ | same
    · omega
    · omega
    · omega
  exact
    ⟨counted_step tallied.counted stepped,
      busyCounted_step tallied.busyCounted stepped,
      liveThreadNum_le_step tallied.le_max stepped, asked.1, asked.2⟩

theorem Tallied.inBounds
    (tallied : s.Tallied cfg) (isOpen : s.shutdown = false) :
    s.CountersInBounds cfg := by
  have live := tallied.counted.eq isOpen
  have busy : _ = s.busyThreadNum := tallied.busyCounted
  have busyActive :
      s.workers.countP WorkerPc.isBusy ≤
        s.workers.countP WorkerPc.isActive := by
    apply List.countP_mono_left
    intro pc _ isBusy
    cases pc with
    | calls | finishes => rfl
    | locks | waits | blocked | woken | starts | exits | ended =>
        cases isBusy
  exact
    { min_le := tallied.counted.enough
      le_max := tallied.le_max
      live_eq := live.symm
      busy_nonneg := by omega
      busy_le := by omega
      waitExit_nonneg := tallied.waitExit_nonneg
      waitExit_le := tallied.waitExit_le }

/-! ## The slots -/

/-- The slots that the loop over the slots has changed belonged to workers
that have ended, and the workers it has created are new. -/
def GrownFrom (s t : Pool) : Prop :=
  (∃ count, t.workers = s.workers ++ List.replicate count .locks) ∧
    ∀ (slot worker : Nat),
      s.threads[slot]? = some (some worker) →
        t.threads[slot]? = some (some worker) ∨
          s.workers[worker]? = some .ended

theorem grownFrom_createThread
    {t : Pool} {findsAlive : Nat → Bool} {slot : Nat}
    (vacant : t.isVacant findsAlive slot = true) (grown : GrownFrom s t) :
    GrownFrom s (t.createThread slot) := by
  obtain ⟨⟨count, workers⟩, kept⟩ := grown
  constructor
  · refine ⟨count + 1, ?_⟩
    show t.workers ++ [.locks] = _
    rw [workers, List.append_assoc, ← List.replicate_succ']
  · intro other worker inSlot
    rcases kept other worker inSlot with stays | ended
    · by_cases same : other = slot
      · subst same
        obtain ⟨entry, isEntry, ended⟩ := ended_of_isVacant vacant
        rw [stays] at isEntry
        cases isEntry
        have endedNow := ended worker rfl
        rw [workers] at endedNow
        right
        by_cases old : worker < s.workers.length
        · rw [List.getElem?_append_left old] at endedNow
          exact endedNow
        · rw [List.getElem?_append_right (by omega)] at endedNow
          have isNew := List.mem_of_getElem? endedNow
          cases (List.mem_replicate.mp isNew).2
      · exact .inl (at_set_of_ne same stays _)
    · exact .inr ended

theorem keepsRunning (cfg : Config) (s : Pool) : s.KeepsRunning cfg := by
  intro findsAlive waiter next stepped slot worker inSlot overwritten
  cases moves_of_step stepped with
  | grows =>
      have grown :
          GrownFrom s (s.grow cfg findsAlive) :=
        grow_keeps cfg findsAlive (GrownFrom s)
          (fun _ _ vacant before => grownFrom_createThread vacant before)
          ⟨⟨0, (List.append_nil _).symm⟩, fun _ _ same => .inl same⟩
      exact (grown.2 slot worker inSlot).resolve_left overwritten
  | adjusts | asksToExit | signals => exact absurd inSlot overwritten

/-- In every state that a pool with `0 <= min_thread_num <= max_thread_num`
reaches before `shutdown` is set, the counters are in bounds, and
`threadpool_adjust` overwrites no slot whose worker has not ended. -/
theorem counters_in_bounds
    {first : Pool} {labels : List PoolStep}
    (nonneg : 0 ≤ cfg.minThreadNum)
    (ordered : cfg.minThreadNum ≤ cfg.maxThreadNum)
    (isCreated : Created cfg first)
    (ran : run (step cfg) first labels = some s)
    (isOpen : s.shutdown = false) :
    s.CountersInBounds cfg ∧ s.KeepsRunning cfg := by
  have tallied : s.Tallied cfg :=
    run_keeps (Tallied cfg)
      (fun _ _ _ tallied stepped => tallied_step tallied stepped)
      (tallied_created nonneg ordered isCreated) ran
  exact ⟨tallied.inBounds isOpen, keepsRunning cfg s⟩

/-- A pool of one worker that is calling a task. -/
theorem counters_in_bounds_one_task :
    ∃ first s : Pool,
      Created ⟨1, 2, 1⟩ first ∧
        run (step ⟨1, 2, 1⟩) first
            [.add ⟨7, 8⟩, .producer 0 0, .worker 0, .worker 0] = some s ∧
        s.busyThreadNum = 1 ∧
        s.CountersInBounds ⟨1, 2, 1⟩ ∧ s.KeepsRunning ⟨1, 2, 1⟩ := by
  have isCreated :
      Created ⟨1, 2, 1⟩ (created ⟨1, 2, 1⟩ [⟨0, 0⟩]) :=
    ⟨[⟨0, 0⟩], rfl, rfl⟩
  have ran :
      run (step ⟨1, 2, 1⟩) (created ⟨1, 2, 1⟩ [⟨0, 0⟩])
          [.add ⟨7, 8⟩, .producer 0 0, .worker 0, .worker 0] =
        some (_ : Pool) := rfl
  exact
    ⟨_, _, isCreated, ran, rfl,
      counters_in_bounds (by decide) (by decide) isCreated ran rfl⟩

/-- For a negative `min_thread_num` a pool without workers is returned whose
`live_thread_num` is negative. -/
theorem counters_out_of_bounds :
    ∃ first : Pool,
      Created ⟨-1, 3, 10⟩ first ∧ first.shutdown = false ∧
        first.liveThreadNum = -1 ∧ first.workers = [] ∧
        ¬ first.CountersInBounds ⟨-1, 3, 10⟩ := by
  refine
    ⟨created ⟨-1, 3, 10⟩ (List.replicate 10 ⟨0, 0⟩), ⟨_, rfl, rfl⟩, rfl,
      rfl, rfl, ?_⟩
  intro inBounds
  exact absurd inBounds.live_eq (by decide)

end Pool

end LinuxNet.ThreadPool
