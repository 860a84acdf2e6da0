import LinuxNet.ThreadPool.Fifo

/-!
# What becomes of an accepted task

A task that `threadpool_add` puts into the ring is in one place at a time: in
the ring, in the hands of one worker, or called.  `threadpool_destroy` does
not drain the ring.  Once `shutdown` is set nothing is put in or taken any
more, and the workers leave; what they had taken they have then called, and
what is in the ring stays there.
-/

namespace LinuxNet.ThreadPool

open LinuxNet.StepSystem LinuxNet.Threads

/-- The task that a worker has taken and not yet called. -/
def WorkerPc.hand : WorkerPc → Option Task
  | .starts task | .calls task => some task
  | _ => none

def WorkerPc.holds (task : Task) (pc : WorkerPc) : Bool :=
  pc.hand == some task

/-- The call of `threadpool_add` for the task has returned 0. -/
def ProducerPc.succeeded (task : Task) (pc : ProducerPc) : Bool :=
  pc == .returned task 0

theorem holds_wake (task : Task) :
    WorkerPc.holds task ∘ WorkerPc.wake = WorkerPc.holds task := by
  funext pc
  cases pc <;> rfl

theorem succeeded_wake (task : Task) :
    ProducerPc.succeeded task ∘ ProducerPc.wake =
      ProducerPc.succeeded task := by
  funext pc
  cases pc <;> rfl

theorem holds_iff_eq (task other : Task) (pc : WorkerPc)
    (hand : pc.hand = some other) :
    (pc.holds task).toNat = [other].count task := by
  unfold WorkerPc.holds
  rw [hand, List.count_singleton]
  by_cases same : other = task
  · subst same
    simp
  · simp [same]

namespace Pool

variable {cfg : Config} {s next : Pool}

/-- Every task taken was called, or is in the hands of one worker. -/
def Conserved (s : Pool) : Prop :=
  ∀ task,
    s.called.count task + s.workers.countP (WorkerPc.holds task) =
      s.taken.count task

/-- A worker moves on and keeps its hand. -/
theorem Conserved.moved
    {index : Nat} {old new : WorkerPc} (conserved : s.Conserved)
    (isAt : s.workers[index]? = some old)
    (workers : next.workers = s.workers.set index new)
    (called : next.called = s.called) (taken : next.taken = s.taken)
    (sameHand : new.hand = old.hand) : next.Conserved := by
  intro task
  have counted := countP_set_add (WorkerPc.holds task) isAt new
  have same : new.holds task = old.holds task := by
    unfold WorkerPc.holds
    rw [sameHand]
  rw [same] at counted
  rw [called, taken, workers, ← conserved task]
  omega

theorem Tests.exists_handless
    {index : Nat} {waitExit : Int} (tests : s.Tests index waitExit) :
    ∃ old : WorkerPc, s.workers[index]? = some old ∧ old.hand = none := by
  rcases tests.isAt with ⟨isAt, _⟩ | ⟨isAt, _⟩
  · exact ⟨_, isAt, rfl⟩
  · exact ⟨_, isAt, rfl⟩

theorem Conserved.woken
    (conserved : s.Conserved) (called : next.called = s.called)
    (taken : next.taken = s.taken)
    (workers : next.workers = s.workers.map WorkerPc.wake) :
    next.Conserved := by
  intro task
  rw [called, taken, workers, List.countP_map, holds_wake]
  exact conserved task

theorem Conserved.signalled
    {workers : List WorkerPc} (conserved : s.Conserved)
    (signalled : Signalled s.workers workers)
    (called : next.called = s.called) (taken : next.taken = s.taken)
    (same : next.workers = workers) : next.Conserved := by
  cases signalled with
  | nobody _ =>
      intro task
      rw [called, taken, same]
      exact conserved task
  | waiter isAt => exact conserved.moved isAt same called taken rfl

theorem conserved_takeTask
    {index : Nat} {old : WorkerPc} (conserved : s.Conserved)
    (isAt : s.workers[index]? = some old) (handless : old.hand = none) :
    (s.takeTask cfg index).Conserved := by
  intro task
  have counted :=
    countP_set_add (WorkerPc.holds task) isAt (.starts s.frontTask)
  have empty : old.holds task = false := by
    unfold WorkerPc.holds
    rw [handless]
    rfl
  rw [empty, holds_iff_eq task s.frontTask (.starts s.frontTask) rfl,
    Bool.toNat_false] at counted
  show s.called.count task +
      (s.workers.set index (.starts s.frontTask)).countP
        (WorkerPc.holds task) =
    (s.taken ++ [s.frontTask]).count task
  rw [List.count_append, ← conserved task]
  omega

theorem conserved_calls
    {index : Nat} {task : Task} (conserved : s.Conserved)
    (isAt : s.workers[index]? = some (.calls task)) :
    Conserved
      { s with
        workers := s.workers.set index .finishes
        called := s.called ++ [task] } := by
  intro other
  have counted := countP_set_add (WorkerPc.holds other) isAt .finishes
  have empty : WorkerPc.finishes.holds other = false := rfl
  rw [empty, holds_iff_eq other task (.calls task) rfl,
    Bool.toNat_false] at counted
  show (s.called ++ [task]).count other +
      (s.workers.set index .finishes).countP (WorkerPc.holds other) =
    s.taken.count other
  rw [List.count_append, ← conserved other]
  omega

theorem conserved_createThread
    (conserved : s.Conserved) (slot : Nat) :
    (s.createThread slot).Conserved := by
  intro task
  show s.called.count task +
      (s.workers ++ [WorkerPc.locks]).countP (WorkerPc.holds task) = _
  rw [List.countP_append]
  exact conserved task

theorem conserved_step
    {label : PoolStep} (conserved : s.Conserved)
    (stepped : s.step cfg label = some next) : next.Conserved := by
  cases moves_of_step stepped with
  | sleeps tests _ _ | leaves tests _ =>
      obtain ⟨old, isAt, handless⟩ := tests.exists_handless
      exact conserved.moved isAt rfl rfl rfl handless.symm
  | @takes _ waitExit tests _ _ =>
      obtain ⟨old, isAt, handless⟩ := tests.exists_handless
      have counted : Conserved { s with waitExitThreadNum := waitExit } :=
        conserved
      exact conserved_takeTask counted isAt handless
  | shrinks _ isAt _ _ | blocks isAt | starts isAt | finishes isAt
  | ends isAt | wakesUp isAt =>
      exact conserved.moved isAt rfl rfl rfl rfl
  | calls isAt => exact conserved_calls conserved isAt
  | enqueues _ _ _ signalled =>
      exact conserved.signalled signalled rfl rfl rfl
  | signals _ signalled =>
      exact conserved.signalled signalled rfl rfl rfl
  | refused _ _ | broadcasts _ _ => exact conserved.woken rfl rfl rfl
  | @grows findsAlive _ _ _ _ _ _ =>
      exact
        grow_keeps cfg findsAlive Conserved
          (fun _ slot _ before => conserved_createThread before slot)
          conserved
  | called | producerSleeps | producerBlocks | producerWakesUp | adjusts
  | asksToExit | shuts | adjustJoined | joinsThreads | joined | frees
  | freed =>
      exact conserved

/-- While the pool is open, a call of `threadpool_add` returns 0 only after
it has put its task into the ring. -/
def Accepts (s : Pool) : Prop :=
  s.shutdown = false →
    ∀ task,
      s.producers.countP (ProducerPc.succeeded task) =
        s.enqueued.count task

theorem Accepts.moved
    {index : Nat} {old new : ProducerPc} (accepts : s.Accepts)
    (isAt : s.producers[index]? = some old)
    (producers : next.producers = s.producers.set index new)
    (shutdown : next.shutdown = s.shutdown)
    (enqueued : next.enqueued = s.enqueued)
    (before : ∀ task, old.succeeded task = false)
    (after : ∀ task, new.succeeded task = false) : next.Accepts := by
  intro isOpen task
  have counted := countP_set_add (ProducerPc.succeeded task) isAt new
  rw [before, after] at counted
  rw [shutdown] at isOpen
  rw [enqueued, producers, ← accepts isOpen task]
  exact counted

theorem TestsRoom.exists_unfinished
    {index : Nat} {task : Task} (tests : s.TestsRoom index task) :
    ∃ old : ProducerPc, s.producers[index]? = some old ∧
      ∀ other, old.succeeded other = false := by
  rcases tests.isAt with isAt | isAt
  · exact ⟨_, isAt, fun _ => rfl⟩
  · exact ⟨_, isAt, fun _ => rfl⟩

theorem accepts_step
    {label : PoolStep} (accepts : s.Accepts)
    (stepped : s.step cfg label = some next) : next.Accepts := by
  cases moves_of_step stepped with
  | takes _ _ _ =>
      intro isOpen task
      show (s.producers.map ProducerPc.wake).countP _ = _
      rw [List.countP_map, succeeded_wake]
      exact accepts isOpen task
  | called task =>
      intro isOpen other
      show (s.producers ++ [ProducerPc.locks task]).countP _ = _
      rw [List.countP_append]
      exact accepts isOpen other
  | producerSleeps tests _ _ =>
      obtain ⟨old, isAt, before⟩ := tests.exists_unfinished
      exact accepts.moved isAt rfl rfl rfl before (fun _ => rfl)
  | producerBlocks isAt | producerWakesUp isAt =>
      exact
        accepts.moved isAt rfl rfl rfl (fun _ => rfl) (fun _ => rfl)
  | refused _ isShut =>
      intro isOpen
      rw [isShut] at isOpen
      cases isOpen
  | @enqueues index _ task _ tests _ isOpen _ =>
      obtain ⟨old, isAt, before⟩ := tests.exists_unfinished
      intro _ other
      have counted :=
        countP_set_add (ProducerPc.succeeded other) isAt (.returned task 0)
      rw [before] at counted
      show (s.producers.set index (.returned task 0)).countP
          (ProducerPc.succeeded other) =
        (s.enqueued ++ [task]).count other
      have added :
          ((ProducerPc.returned task 0).succeeded other).toNat =
            [task].count other := by
        rw [List.count_singleton]
        by_cases same : task = other
        · subst same
          simp [ProducerPc.succeeded]
        · simp [ProducerPc.succeeded, same]
      rw [List.count_append, ← accepts isOpen other, ← added, ← counted]
      rfl
  | @grows findsAlive _ _ _ _ _ _ =>
      exact
        grow_keeps cfg findsAlive Accepts (fun _ _ _ before => before) accepts
  | shuts _ =>
      intro isOpen
      cases isOpen
  | sleeps | leaves | shrinks | blocks | starts | calls | finishes | ends
  | wakesUp | adjusts | asksToExit | signals | adjustJoined | broadcasts
  | joinsThreads | joined | frees | freed =>
      exact accepts

/-- After `shutdown` nothing is put into the ring or taken from it. -/
theorem shut_step
    {label : PoolStep} (isShut : s.shutdown = true)
    (stepped : s.step cfg label = some next) :
    next.shutdown = true ∧ next.taken = s.taken ∧
      next.enqueued = s.enqueued := by
  cases moves_of_step stepped with
  | sleeps _ _ isOpen | takes _ _ isOpen | producerSleeps _ _ isOpen
  | enqueues _ _ isOpen _ =>
      rw [isShut] at isOpen
      cases isOpen
  | @grows findsAlive _ _ _ _ _ _ =>
      exact
        grow_keeps cfg findsAlive
          (fun t => t.shutdown = true ∧ t.taken = s.taken ∧
            t.enqueued = s.enqueued)
          (fun _ _ _ before => before) ⟨isShut, rfl, rfl⟩
  | shuts _ => exact ⟨rfl, rfl, rfl⟩
  | leaves | shrinks | blocks | starts | calls | finishes | ends | wakesUp
  | called | refused | producerBlocks | producerWakesUp | adjusts
  | asksToExit | signals | adjustJoined | broadcasts | joinsThreads | joined
  | frees | freed =>
      exact ⟨isShut, rfl, rfl⟩

theorem shut_run
    {labels : List PoolStep} (isShut : s.shutdown = true)
    (ran : run (step cfg) s labels = some next) :
    next.taken = s.taken ∧ next.enqueued = s.enqueued :=
  (run_keeps
    (fun t => t.shutdown = true ∧ t.taken = s.taken ∧
      t.enqueued = s.enqueued)
    (fun _ _ _ before stepped => by
      obtain ⟨shut, taken, enqueued⟩ := shut_step before.1 stepped
      exact ⟨shut, taken.trans before.2.1, enqueued.trans before.2.2⟩)
    ⟨isShut, rfl, rfl⟩ ran).2

theorem conserved_created (isCreated : Created cfg s) : s.Conserved := by
  obtain ⟨garbage, _, rfl⟩ := isCreated
  intro task
  show [].count task +
    (List.replicate cfg.minThreadNum.toNat WorkerPc.locks).countP _ = _
  rw [List.countP_replicate]
  rfl

def Unused (s : Pool) : Prop :=
  s.queueSize = 0 ∧ s.enqueued = [] ∧ s.taken = []

theorem unused_step
    {label : PoolStep} (noRoom : cfg.queueMaxSize = 0) (unused : s.Unused)
    (stepped : s.step cfg label = some next) : next.Unused := by
  cases moves_of_step stepped with
  | @takes _ _ _ notEmpty _ => exact absurd unused.1 notEmpty
  | enqueues _ room _ _ => exact absurd (unused.1.trans noRoom.symm) room
  | @grows findsAlive _ _ _ _ _ _ =>
      exact
        grow_keeps cfg findsAlive Unused (fun _ _ _ before => before) unused
  | sleeps | leaves | shrinks | blocks | starts | calls | finishes | ends
  | wakesUp | called | producerSleeps | refused | producerBlocks
  | producerWakesUp | adjusts | asksToExit | signals | shuts | adjustJoined
  | broadcasts | joinsThreads | joined | frees | freed =>
      exact unused

/-- The tasks put into the ring are those taken from it and those in it. -/
theorem waiting_of_reachable
    (reachable : Reachable (Created cfg) (step cfg) s) :
    ∃ waiting : List Task,
      s.queueSize = waiting.length ∧ s.enqueued = s.taken ++ waiting := by
  obtain ⟨first, labels, isCreated, ran⟩ := reachable
  by_cases noRoom : cfg.queueMaxSize = 0
  · have unused : s.Unused :=
      run_keeps Unused
        (fun _ _ _ before stepped => unused_step noRoom before stepped)
        (by
          obtain ⟨garbage, _, rfl⟩ := isCreated
          exact ⟨rfl, rfl, rfl⟩)
        ran
    obtain ⟨size, enqueued, taken⟩ := unused
    exact ⟨[], size, by rw [enqueued, taken, List.append_nil]⟩
  · have positive : 1 ≤ cfg.queueMaxSize := by
      obtain ⟨garbage, length, _⟩ := isCreated
      omega
    obtain ⟨waiting, queues⟩ :=
      run_keeps (fun s => ∃ waiting, s.Queues cfg waiting)
        (fun _ _ _ before stepped => queues_step before stepped)
        ⟨[], queues_created positive isCreated⟩ ran
    exact ⟨waiting, queues.size, queues.inOrder⟩

/-- An accepted task is in one place, and `threadpool_destroy` does not drain
the ring.  The tasks put into the ring are those of the calls that returned
0 while the pool was open.  Each of them is called, in the hands of a worker
or in the ring.  Once `shutdown` is set, no task goes into the ring or out of
it any more, and when the workers have ended the tasks taken are the tasks
called. -/
theorem accepted_task_in_one_place
    (cfg : Config) (s : Pool)
    (reachable : Reachable (Created cfg) (step cfg) s) :
    (s.shutdown = false →
        ∀ task,
          s.producers.countP (ProducerPc.succeeded task) =
            s.enqueued.count task) ∧
      (∃ waiting : List Task,
        s.queueSize = waiting.length ∧ s.enqueued = s.taken ++ waiting ∧
          ∀ task,
            s.called.count task + s.workers.countP (WorkerPc.holds task) +
                waiting.count task =
              s.enqueued.count task) ∧
      (s.shutdown = true →
        ∀ (labels : List PoolStep) (last : Pool),
          run (step cfg) s labels = some last →
            last.taken = s.taken ∧ last.enqueued = s.enqueued) ∧
      ((∀ pc ∈ s.workers, pc = .ended) → s.called.Perm s.taken) := by
  obtain ⟨waiting, size, inOrder⟩ := waiting_of_reachable reachable
  obtain ⟨first, labels, isCreated, ran⟩ := reachable
  obtain ⟨conserved, accepts⟩ :=
    run_keeps (fun s => s.Conserved ∧ s.Accepts)
      (fun _ _ _ before stepped =>
        ⟨conserved_step before.1 stepped, accepts_step before.2 stepped⟩)
      ⟨conserved_created isCreated, by
        obtain ⟨garbage, _, rfl⟩ := isCreated
        exact fun _ _ => rfl⟩
      ran
  refine
    ⟨accepts, ⟨waiting, size, inOrder, fun task => ?_⟩,
      fun isShut labels last later => shut_run isShut later, fun ended => ?_⟩
  · rw [conserved task, inOrder, List.count_append]
  · apply List.perm_iff_count.mpr
    intro task
    have nobody : s.workers.countP (WorkerPc.holds task) = 0 := by
      apply List.countP_eq_zero.mpr
      intro pc member
      rw [ended pc member]
      exact Bool.false_ne_true
    rw [← conserved task, nobody, Nat.add_zero]

/-- `threadpool_destroy` returns while one task is in the ring, and a second
call of `threadpool_add` has been told that the pool is shut. -/
def droppedTasks : Pool :=
  { created ⟨1, 1, 2⟩ [⟨0, 0⟩, ⟨0, 0⟩] with
    taskQueue := [⟨4, 5⟩, ⟨0, 0⟩]
    queueRear := 1
    queueSize := 1
    shutdown := true
    workers := [.ended]
    producers := [.returned ⟨4, 5⟩ 0, .returned ⟨4, 6⟩ 0]
    adjust := .ended
    destroy := .returned
    enqueued := [⟨4, 5⟩] }

theorem accepted_task_in_one_place_dropped :
    ∃ waiting : List Task,
      droppedTasks.queueSize = waiting.length ∧
        droppedTasks.enqueued = droppedTasks.taken ++ waiting ∧
        ∀ task,
          droppedTasks.called.count task +
                droppedTasks.workers.countP (WorkerPc.holds task) +
              waiting.count task =
            droppedTasks.enqueued.count task :=
  (accepted_task_in_one_place ⟨1, 1, 2⟩ droppedTasks
    ⟨created ⟨1, 1, 2⟩ [⟨0, 0⟩, ⟨0, 0⟩],
      [.add ⟨4, 5⟩, .producer 0 0, .destroy, .add ⟨4, 6⟩, .producer 1 0,
        .worker 0, .worker 0, .adjust (fun _ => false) 0, .destroy, .destroy,
        .destroy, .destroy, .destroy, .destroy],
      ⟨_, rfl, rfl⟩, rfl⟩).2.1

/-- Two calls of `threadpool_add` return 0, `threadpool_destroy` returns, and
neither task has been called. -/
theorem destroy_drops_accepted_tasks :
    ¬ ∀ (cfg : Config) (s : Pool),
        Reachable (Created cfg) (step cfg) s → s.destroy = .returned →
          ∀ task,
            s.called.count task =
              s.producers.countP (ProducerPc.succeeded task) := by
  intro claimed
  have counted :=
    claimed ⟨1, 1, 2⟩ droppedTasks
      ⟨created ⟨1, 1, 2⟩ [⟨0, 0⟩, ⟨0, 0⟩],
        [.add ⟨4, 5⟩, .producer 0 0, .destroy, .add ⟨4, 6⟩, .producer 1 0,
          .worker 0, .worker 0, .adjust (fun _ => false) 0, .destroy,
          .destroy, .destroy, .destroy, .destroy, .destroy],
        ⟨_, rfl, rfl⟩, rfl⟩
      rfl ⟨4, 5⟩
  revert counted
  decide

end Pool

end LinuxNet.ThreadPool
