import LinuxNet.ThreadPool.Moves

/-!
# Who holds the lock, and how many workers are left

Two facts about every state.  The lock is held between steps exactly when one
thread is about to sleep, and no two threads ever are.  And the workers that
have not left are as many as `live_thread_num` says; only a worker that finds
the pool shut leaves without counting itself out.
-/

namespace LinuxNet.ThreadPool

open LinuxNet.Threads

def WorkerPc.isWaits : WorkerPc → Bool
  | .waits => true
  | _ => false

def ProducerPc.isWaits : ProducerPc → Bool
  | .waits _ => true
  | _ => false

/-- The worker has not left its loop. -/
def WorkerPc.isActive : WorkerPc → Bool
  | .exits | .ended => false
  | _ => true

theorem workerIsWaits_wake :
    WorkerPc.isWaits ∘ WorkerPc.wake = WorkerPc.isWaits := by
  funext pc
  cases pc <;> rfl

theorem producerIsWaits_wake :
    ProducerPc.isWaits ∘ ProducerPc.wake = ProducerPc.isWaits := by
  funext pc
  cases pc <;> rfl

theorem isActive_wake :
    WorkerPc.isActive ∘ WorkerPc.wake = WorkerPc.isActive := by
  funext pc
  cases pc <;> rfl

/-- A count that does not tell a waiter from one that was woken. -/
theorem Signalled.countP_eq
    {workers after : List WorkerPc} {place : WorkerPc → Bool}
    (signalled : Signalled workers after)
    (same : place .woken = place .blocked) :
    after.countP place = workers.countP place := by
  cases signalled with
  | nobody _ => rfl
  | waiter isAt =>
      have counted := countP_set_add place isAt .woken
      rw [same] at counted
      exact Nat.add_right_cancel counted

namespace Pool

variable {cfg : Config} {s next : Pool}

theorem Tests.exists_awake
    {index : Nat} {waitExit : Int} (tests : s.Tests index waitExit) :
    ∃ old : WorkerPc, s.workers[index]? = some old ∧
      old.isWaits = false ∧ old.isActive = true := by
  rcases tests.isAt with ⟨isAt, _⟩ | ⟨isAt, _⟩
  · exact ⟨_, isAt, rfl, rfl⟩
  · exact ⟨_, isAt, rfl, rfl⟩

theorem TestsRoom.exists_awake
    {index : Nat} {task : Task} (tests : s.TestsRoom index task) :
    ∃ old : ProducerPc, s.producers[index]? = some old ∧
      old.isWaits = false := by
  rcases tests.isAt with isAt | isAt
  · exact ⟨_, isAt, rfl⟩
  · exact ⟨_, isAt, rfl⟩

/-! ## The lock -/

/-- The lock is held by the one thread that is about to sleep. -/
def Exclusive (s : Pool) : Prop :=
  s.workers.countP WorkerPc.isWaits + s.producers.countP ProducerPc.isWaits =
    s.lock.toNat

/-- A worker moves, and the lock with it. -/
theorem Exclusive.worker
    {index : Nat} {old new : WorkerPc} (exclusive : s.Exclusive)
    (isAt : s.workers[index]? = some old)
    (workers : next.workers = s.workers.set index new)
    (producers :
      next.producers.countP ProducerPc.isWaits =
        s.producers.countP ProducerPc.isWaits)
    (lock :
      next.lock.toNat + old.isWaits.toNat =
        s.lock.toNat + new.isWaits.toNat) :
    next.Exclusive := by
  have counted := countP_set_add WorkerPc.isWaits isAt new
  unfold Exclusive at exclusive ⊢
  rw [workers, producers]
  omega

theorem Exclusive.producer
    {index : Nat} {old new : ProducerPc} (exclusive : s.Exclusive)
    (isAt : s.producers[index]? = some old)
    (producers : next.producers = s.producers.set index new)
    (workers :
      next.workers.countP WorkerPc.isWaits =
        s.workers.countP WorkerPc.isWaits)
    (lock :
      next.lock.toNat + old.isWaits.toNat =
        s.lock.toNat + new.isWaits.toNat) :
    next.Exclusive := by
  have counted := countP_set_add ProducerPc.isWaits isAt new
  unfold Exclusive at exclusive ⊢
  rw [producers, workers]
  omega

theorem Exclusive.free
    (exclusive : s.Exclusive) (free : s.lock = false) :
    .waits ∉ s.workers := by
  intro member
  have counted : 0 < s.workers.countP WorkerPc.isWaits :=
    List.countP_pos_iff.mpr ⟨_, member, rfl⟩
  unfold Exclusive at exclusive
  rw [free, Bool.toNat_false] at exclusive
  omega

/-- A worker that is about to sleep is the only one. -/
theorem Exclusive.alone
    {index : Nat} (exclusive : s.Exclusive)
    (isAt : s.workers[index]? = some .waits) :
    s.lock = true ∧ .waits ∉ s.workers.set index .blocked := by
  have counted := countP_set_add WorkerPc.isWaits isAt .blocked
  have waits : WorkerPc.waits.isWaits.toNat = 1 := rfl
  have blocked : WorkerPc.blocked.isWaits.toNat = 0 := rfl
  rw [waits, blocked] at counted
  unfold Exclusive at exclusive
  have bound := Bool.toNat_le s.lock
  refine ⟨?_, fun member => ?_⟩
  · cases held : s.lock with
    | true => rfl
    | false =>
        rw [held, Bool.toNat_false] at exclusive
        omega
  · have another :
        0 < (s.workers.set index .blocked).countP WorkerPc.isWaits :=
      List.countP_pos_iff.mpr ⟨_, member, rfl⟩
    omega

theorem exclusive_createThread
    (exclusive : s.Exclusive) (slot : Nat) :
    (s.createThread slot).Exclusive := by
  show (s.workers ++ [WorkerPc.locks]).countP WorkerPc.isWaits + _ = _
  rw [List.countP_append]
  exact exclusive

theorem exclusive_created (isCreated : Created cfg s) : s.Exclusive := by
  obtain ⟨garbage, _, rfl⟩ := isCreated
  show (List.replicate cfg.minThreadNum.toNat WorkerPc.locks).countP _ +
    _ = _
  rw [List.countP_replicate]
  rfl

theorem exclusive_step
    {label : PoolStep} (exclusive : s.Exclusive)
    (stepped : s.step cfg label = some next) : next.Exclusive := by
  cases moves_of_step stepped with
  | sleeps tests _ _ =>
      obtain ⟨old, isAt, notWaits, _⟩ := tests.exists_awake
      refine exclusive.worker isAt rfl rfl ?_
      rw [notWaits, tests.free]
      rfl
  | leaves tests _ =>
      obtain ⟨old, isAt, notWaits, _⟩ := tests.exists_awake
      refine exclusive.worker isAt rfl rfl ?_
      rw [notWaits]
      rfl
  | takes tests _ _ =>
      obtain ⟨old, isAt, notWaits, _⟩ := tests.exists_awake
      refine exclusive.worker isAt rfl ?_ ?_
      · show (s.producers.map ProducerPc.wake).countP _ = _
        rw [List.countP_map, producerIsWaits_wake]
      · rw [notWaits]
        rfl
  | shrinks _ isAt _ _ | starts isAt | calls isAt | finishes isAt
  | ends isAt | wakesUp isAt =>
      exact exclusive.worker isAt rfl rfl rfl
  | blocks isAt =>
      refine exclusive.worker isAt rfl rfl ?_
      rw [(exclusive.alone isAt).1]
      rfl
  | called task =>
      show _ + (s.producers ++ [ProducerPc.locks task]).countP _ = _
      rw [List.countP_append]
      exact exclusive
  | producerSleeps tests _ _ =>
      obtain ⟨old, isAt, notWaits⟩ := tests.exists_awake
      refine exclusive.producer isAt rfl rfl ?_
      rw [notWaits, tests.free]
      rfl
  | refused tests _ =>
      obtain ⟨old, isAt, notWaits⟩ := tests.exists_awake
      refine exclusive.producer isAt rfl ?_ ?_
      · show (s.workers.map WorkerPc.wake).countP _ = _
        rw [List.countP_map, workerIsWaits_wake]
      · rw [notWaits]
        rfl
  | enqueues tests _ _ signalled =>
      obtain ⟨old, isAt, notWaits⟩ := tests.exists_awake
      refine exclusive.producer isAt rfl ?_ ?_
      · exact signalled.countP_eq rfl
      · rw [notWaits]
        rfl
  | @producerBlocks _ _ task isAt =>
      have held : s.lock = true := by
        have counted : 0 < s.producers.countP ProducerPc.isWaits :=
          List.countP_pos_iff.mpr ⟨_, mem_of_at isAt, rfl⟩
        cases held : s.lock with
        | true => rfl
        | false =>
            unfold Exclusive at exclusive
            rw [held, Bool.toNat_false] at exclusive
            omega
      refine exclusive.producer isAt rfl rfl ?_
      rw [held]
      rfl
  | producerWakesUp isAt => exact exclusive.producer isAt rfl rfl rfl
  | signals _ signalled =>
      show List.countP _ _ + _ = _
      rw [signalled.countP_eq rfl]
      exact exclusive
  | broadcasts _ _ =>
      show (s.workers.map WorkerPc.wake).countP _ + _ = _
      rw [List.countP_map, workerIsWaits_wake]
      exact exclusive
  | @grows findsAlive _ _ _ _ _ _ =>
      exact
        grow_keeps cfg findsAlive Exclusive
          (fun _ slot _ before => exclusive_createThread before slot)
          exclusive
  | adjusts | asksToExit | shuts | adjustJoined | joinsThreads | joined
  | frees | freed =>
      exact exclusive

/-- At most `live_thread_num` workers have not left, and exactly as many
while the pool is open. -/
structure Counted (cfg : Config) (s : Pool) : Prop where
  le : (s.workers.countP WorkerPc.isActive : Int) ≤ s.liveThreadNum
  eq :
    s.shutdown = false →
      (s.workers.countP WorkerPc.isActive : Int) = s.liveThreadNum
  enough : cfg.minThreadNum ≤ s.liveThreadNum

theorem counted_created
    (nonneg : 0 ≤ cfg.minThreadNum) (isCreated : Created cfg s) :
    s.Counted cfg := by
  obtain ⟨garbage, _, rfl⟩ := isCreated
  have counted :
      ((created cfg garbage).workers.countP WorkerPc.isActive : Int) =
        cfg.minThreadNum := by
    show
      ((List.replicate cfg.minThreadNum.toNat WorkerPc.locks).countP
        WorkerPc.isActive : Int) = _
    rw [List.countP_replicate]
    exact Int.toNat_of_nonneg nonneg
  exact ⟨Int.le_of_eq counted, fun _ => counted, Int.le_refl _⟩

/-- The same workers are active. -/
theorem Counted.frame
    (counted : s.Counted cfg)
    (active :
      next.workers.countP WorkerPc.isActive =
        s.workers.countP WorkerPc.isActive)
    (live : next.liveThreadNum = s.liveThreadNum)
    (shutdown : next.shutdown = false → s.shutdown = false) :
    next.Counted cfg where
  le := by
    rw [active, live]
    exact counted.le
  eq := by
    intro isOpen
    rw [active, live]
    exact counted.eq (shutdown isOpen)
  enough := by
    rw [live]
    exact counted.enough

theorem Counted.worker
    {index : Nat} {old new : WorkerPc} (counted : s.Counted cfg)
    (isAt : s.workers[index]? = some old)
    (workers : next.workers = s.workers.set index new)
    (live : next.liveThreadNum = s.liveThreadNum)
    (shutdown : next.shutdown = s.shutdown)
    (same : new.isActive = old.isActive) : next.Counted cfg := by
  apply counted.frame
  · have moved := countP_set_add WorkerPc.isActive isAt new
    rw [same] at moved
    rw [workers]
    exact Nat.add_right_cancel moved
  · exact live
  · intro isOpen
    rw [← shutdown]
    exact isOpen

theorem counted_leaves
    {index : Nat} {old : WorkerPc} (counted : s.Counted cfg)
    (isAt : s.workers[index]? = some old) (isActive : old.isActive = true)
    (isShut : s.shutdown = true) (waitExit : Int) :
    Counted cfg
      { s with
        waitExitThreadNum := waitExit
        workers := s.workers.set index .exits } := by
  have moved := countP_set_add WorkerPc.isActive isAt .exits
  have exits : WorkerPc.exits.isActive = false := rfl
  rw [isActive, exits, Bool.toNat_false, Bool.toNat_true] at moved
  have le := counted.le
  refine ⟨?_, fun isOpen => ?_, counted.enough⟩
  · show ((s.workers.set index .exits).countP _ : Int) ≤ s.liveThreadNum
    omega
  · rw [isShut] at isOpen
    cases isOpen

theorem counted_shrinks
    {index : Nat} (counted : s.Counted cfg)
    (isAt : s.workers[index]? = some .woken)
    (above : cfg.minThreadNum < s.liveThreadNum) (waitExit : Int) :
    Counted cfg
      { s with
        waitExitThreadNum := waitExit
        liveThreadNum := s.liveThreadNum - 1
        workers := s.workers.set index .exits } := by
  have moved := countP_set_add WorkerPc.isActive isAt .exits
  have exits : WorkerPc.exits.isActive = false := rfl
  have woken : WorkerPc.woken.isActive = true := rfl
  rw [woken, exits, Bool.toNat_false, Bool.toNat_true] at moved
  have le := counted.le
  refine ⟨?_, fun isOpen => ?_, ?_⟩
  · show ((s.workers.set index .exits).countP _ : Int) ≤ s.liveThreadNum - 1
    omega
  · have eq := counted.eq isOpen
    show ((s.workers.set index .exits).countP _ : Int) = s.liveThreadNum - 1
    omega
  · show cfg.minThreadNum ≤ s.liveThreadNum - 1
    omega

theorem counted_createThread
    (counted : s.Counted cfg) (slot : Nat) :
    (s.createThread slot).Counted cfg := by
  have added :
      (s.workers ++ [WorkerPc.locks]).countP WorkerPc.isActive =
        s.workers.countP WorkerPc.isActive + 1 := by
    rw [List.countP_append]
    rfl
  have le := counted.le
  have enough := counted.enough
  refine ⟨?_, fun isOpen => ?_, ?_⟩
  · show ((s.workers ++ [WorkerPc.locks]).countP _ : Int) ≤
      s.liveThreadNum + 1
    omega
  · have eq := counted.eq isOpen
    show ((s.workers ++ [WorkerPc.locks]).countP _ : Int) =
      s.liveThreadNum + 1
    omega
  · show cfg.minThreadNum ≤ s.liveThreadNum + 1
    omega

theorem counted_step
    {label : PoolStep} (counted : s.Counted cfg)
    (stepped : s.step cfg label = some next) : next.Counted cfg := by
  cases moves_of_step stepped with
  | sleeps tests _ _ | takes tests _ _ =>
      obtain ⟨old, isAt, _, isActive⟩ := tests.exists_awake
      exact counted.worker isAt rfl rfl rfl isActive.symm
  | leaves tests isShut =>
      obtain ⟨old, isAt, _, isActive⟩ := tests.exists_awake
      exact counted_leaves counted isAt isActive isShut _
  | shrinks _ isAt _ above => exact counted_shrinks counted isAt above _
  | blocks isAt | starts isAt | calls isAt | finishes isAt | ends isAt
  | wakesUp isAt =>
      exact counted.worker isAt rfl rfl rfl rfl
  | enqueues _ _ _ signalled | signals _ signalled =>
      exact counted.frame (signalled.countP_eq rfl) rfl id
  | refused _ _ | broadcasts _ _ =>
      apply counted.frame
      · show (s.workers.map WorkerPc.wake).countP _ = _
        rw [List.countP_map, isActive_wake]
      · rfl
      · exact id
  | @grows findsAlive _ _ _ _ _ _ =>
      have grown :=
        grow_keeps cfg findsAlive (Counted cfg)
          (fun _ slot _ before => counted_createThread before slot) counted
      exact grown.frame rfl rfl id
  | shuts _ =>
      refine counted.frame rfl rfl ?_
      intro isOpen
      cases isOpen
  | called | producerSleeps | producerBlocks | producerWakesUp | adjusts
  | asksToExit | adjustJoined | joinsThreads | joined | frees | freed =>
      exact counted.frame rfl rfl id

end Pool

end LinuxNet.ThreadPool
