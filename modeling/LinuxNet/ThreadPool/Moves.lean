import LinuxNet.ThreadPool.Pool

/-!
# What one step of the pool can do

`Moves` lists the outcomes of a step, each with its guard and the state it
leads to, and `moves_of_step` shows that there are no others.  The invariants
of the pool are derived from this list and never unfold a step.
-/

namespace LinuxNet.ThreadPool

open LinuxNet.StepSystem LinuxNet.Threads

/-- One waiting worker has been woken, or nobody was waiting. -/
inductive Signalled (workers : List WorkerPc) : List WorkerPc → Prop
  | nobody (noWaiter : .blocked ∉ workers) : Signalled workers workers
  | waiter {index : Nat} (isAt : workers[index]? = some .blocked) :
      Signalled workers (workers.set index .woken)

namespace Pool

/-- A worker that tests the queue: it comes from the top of its loop or from
a wait, where it may have counted `wait_exit_thread_num` down. -/
structure Tests (s : Pool) (index : Nat) (waitExitThreadNum : Int) :
    Prop where
  free : s.lock = false
  isAt :
    s.workers[index]? = some .locks ∧
        waitExitThreadNum = s.waitExitThreadNum ∨
      s.workers[index]? = some .woken ∧
        waitExitThreadNum ≤ s.waitExitThreadNum

/-- A call of `threadpool_add` that tests the queue. -/
structure TestsRoom (s : Pool) (index : Nat) (task : Task) : Prop where
  free : s.lock = false
  isAt :
    s.producers[index]? = some (.locks task) ∨
      s.producers[index]? = some (.woken task)

/-- The worker takes the branch that ends it on demand. -/
structure LeavesOnDemand (cfg : Config) (s : Pool) (index : Nat) :
    Prop where
  free : s.lock = false
  isAt : s.workers[index]? = some .woken
  asked : 0 < s.waitExitThreadNum
  above : cfg.minThreadNum < s.liveThreadNum

inductive Moves (cfg : Config) (s : Pool) : PoolStep → Pool → Prop
  -- `threadpool_thread`
  | sleeps {index : Nat} {waitExit : Int}
      (tests : s.Tests index waitExit) (empty : s.queueSize = 0)
      (isOpen : s.shutdown = false) :
      Moves cfg s (.worker index)
        { s with
          waitExitThreadNum := waitExit
          lock := true
          workers := s.workers.set index .waits }
  | leaves {index : Nat} {waitExit : Int}
      (tests : s.Tests index waitExit) (isShut : s.shutdown = true) :
      Moves cfg s (.worker index)
        { s with
          waitExitThreadNum := waitExit
          workers := s.workers.set index .exits }
  | takes {index : Nat} {waitExit : Int}
      (tests : s.Tests index waitExit) (notEmpty : s.queueSize ≠ 0)
      (isOpen : s.shutdown = false) :
      Moves cfg s (.worker index)
        (takeTask cfg { s with waitExitThreadNum := waitExit } index)
  | shrinks {index : Nat} (free : s.lock = false)
      (isAt : s.workers[index]? = some .woken)
      (asked : 0 < s.waitExitThreadNum)
      (above : cfg.minThreadNum < s.liveThreadNum) :
      Moves cfg s (.worker index)
        { s with
          waitExitThreadNum := s.waitExitThreadNum - 1
          liveThreadNum := s.liveThreadNum - 1
          workers := s.workers.set index .exits }
  | blocks {index : Nat} (isAt : s.workers[index]? = some .waits) :
      Moves cfg s (.worker index)
        { s with lock := false, workers := s.workers.set index .blocked }
  | starts {index : Nat} {task : Task}
      (isAt : s.workers[index]? = some (.starts task)) :
      Moves cfg s (.worker index)
        { s with
          busyThreadNum := s.busyThreadNum + 1
          workers := s.workers.set index (.calls task) }
  | calls {index : Nat} {task : Task}
      (isAt : s.workers[index]? = some (.calls task)) :
      Moves cfg s (.worker index)
        { s with
          workers := s.workers.set index .finishes
          called := s.called ++ [task] }
  | finishes {index : Nat} (isAt : s.workers[index]? = some .finishes) :
      Moves cfg s (.worker index)
        { s with
          busyThreadNum := s.busyThreadNum - 1
          workers := s.workers.set index .locks }
  | ends {index : Nat} (isAt : s.workers[index]? = some .exits) :
      Moves cfg s (.worker index)
        { s with workers := s.workers.set index .ended }
  | wakesUp {index : Nat} (isAt : s.workers[index]? = some .blocked) :
      Moves cfg s (.wakeWorker index)
        { s with workers := s.workers.set index .woken }
  -- `threadpool_add`
  | called (task : Task) :
      Moves cfg s (.add task)
        { s with producers := s.producers ++ [.locks task] }
  | producerSleeps {index waiter : Nat} {task : Task}
      (tests : s.TestsRoom index task)
      (full : s.queueSize = cfg.queueMaxSize) (isOpen : s.shutdown = false) :
      Moves cfg s (.producer index waiter)
        { s with
          lock := true
          producers := s.producers.set index (.waits task) }
  | refused {index waiter : Nat} {task : Task}
      (tests : s.TestsRoom index task) (isShut : s.shutdown = true) :
      Moves cfg s (.producer index waiter)
        { s with
          producers := s.producers.set index (.returned task 0)
          workers := s.workers.map WorkerPc.wake }
  | enqueues {index waiter : Nat} {task : Task} {workers : List WorkerPc}
      (tests : s.TestsRoom index task)
      (room : s.queueSize ≠ cfg.queueMaxSize) (isOpen : s.shutdown = false)
      (signalled : Signalled s.workers workers) :
      Moves cfg s (.producer index waiter)
        { s with
          taskQueue := s.taskQueue.set s.queueRear.toNat task
          queueRear := (s.queueRear + 1).tmod cfg.queueMaxSize
          queueSize := s.queueSize + 1
          producers := s.producers.set index (.returned task 0)
          enqueued := s.enqueued ++ [task]
          workers := workers }
  | producerBlocks {index waiter : Nat} {task : Task}
      (isAt : s.producers[index]? = some (.waits task)) :
      Moves cfg s (.producer index waiter)
        { s with
          lock := false
          producers := s.producers.set index (.blocked task) }
  | producerWakesUp {index : Nat} {task : Task}
      (isAt : s.producers[index]? = some (.blocked task)) :
      Moves cfg s (.wakeProducer index)
        { s with producers := s.producers.set index (.woken task) }
  -- `threadpool_adjust`
  | adjusts {findsAlive : Nat → Bool} {waiter : Nat} {adjust : AdjustPc}
      (running : s.adjust ≠ .ended)
      (ends : adjust = .ended → s.shutdown = true) :
      Moves cfg s (.adjust findsAlive waiter) { s with adjust := adjust }
  | grows {findsAlive : Nat → Bool} {waiter : Nat}
      {queueSize liveThreadNum busyThreadNum : Int}
      (isAt : s.adjust = .grows queueSize liveThreadNum busyThreadNum)
      (free : s.lock = false) :
      Moves cfg s (.adjust findsAlive waiter)
        { grow cfg findsAlive s with
          adjust := .shrinks liveThreadNum busyThreadNum }
  | asksToExit {findsAlive : Nat → Bool} {waiter : Nat}
      (running : s.adjust ≠ .ended) (free : s.lock = false) :
      Moves cfg s (.adjust findsAlive waiter)
        { s with
          waitExitThreadNum := defaultThreadVary
          adjust := .signals defaultThreadVary }
  | signals {findsAlive : Nat → Bool} {waiter left : Nat}
      {workers : List WorkerPc} (isAt : s.adjust = .signals (left + 1))
      (signalled : Signalled s.workers workers) :
      Moves cfg s (.adjust findsAlive waiter)
        { s with adjust := .signals left, workers := workers }
  -- `threadpool_destroy`
  | shuts (isAt : s.destroy = .uncalled) :
      Moves cfg s .destroy
        { s with shutdown := true, destroy := .joinsAdjust }
  | adjustJoined (isAt : s.destroy = .joinsAdjust)
      (adjustEnded : s.adjust = .ended) :
      Moves cfg s .destroy { s with destroy := .broadcasts 0 }
  | broadcasts {i : Nat} (isAt : s.destroy = .broadcasts i)
      (below : (i : Int) < s.liveThreadNum) :
      Moves cfg s .destroy
        { s with
          destroy := .broadcasts (i + 1)
          workers := s.workers.map WorkerPc.wake }
  | joinsThreads {i : Nat} (isAt : s.destroy = .broadcasts i)
      (finished : s.liveThreadNum ≤ i) :
      Moves cfg s .destroy { s with destroy := .joins 0 }
  | joined {i worker : Nat} (isAt : s.destroy = .joins i)
      (below : (i : Int) < s.liveThreadNum)
      (stored : s.threads[i]? = some (some worker))
      (workerEnded : s.workers[worker]? = some .ended) :
      Moves cfg s .destroy { s with destroy := .joins (i + 1) }
  | frees {i : Nat} (isAt : s.destroy = .joins i)
      (finished : s.liveThreadNum ≤ i) :
      Moves cfg s .destroy { s with destroy := .frees }
  | freed (isAt : s.destroy = .frees) (free : s.lock = false) :
      Moves cfg s .destroy { s with destroy := .returned }

variable {cfg : Config} {s next : Pool}

/-- A section is entered only when nobody has the lock. -/
theorem free_of_entered
    {entered : Option Pool}
    (stepped : (if s.lock = true then none else entered) = some next) :
    s.lock = false ∧ entered = some next := by
  cases free : s.lock with
  | true =>
      rw [free] at stepped
      cases stepped
  | false =>
      rw [free] at stepped
      exact ⟨rfl, stepped⟩

theorem signalled_of_signalNotEmpty
    {waiter : Nat} (signals : s.signalNotEmpty waiter = some next) :
    ∃ workers, Signalled s.workers workers ∧
      next = { s with workers := workers } := by
  unfold signalNotEmpty at signals
  by_cases someone : .blocked ∈ s.workers
  · rw [if_pos someone] at signals
    split at signals
    · next isAt =>
        cases signals
        exact ⟨_, .waiter isAt, rfl⟩
    · cases signals
  · rw [if_neg someone] at signals
    cases signals
    exact ⟨_, .nobody someone, rfl⟩

theorem moves_testQueue
    {index : Nat} {waitExit : Int} (tests : s.Tests index waitExit) :
    Moves cfg s (.worker index)
      (testQueue cfg { s with waitExitThreadNum := waitExit } index) := by
  unfold testQueue
  by_cases idle : s.queueSize = 0 ∧ s.shutdown = false
  · rw [if_pos idle]
    exact .sleeps tests idle.1 idle.2
  · rw [if_neg idle]
    by_cases isShut : s.shutdown = true
    · rw [if_pos isShut]
      exact .leaves tests isShut
    · rw [if_neg isShut]
      have isOpen := Bool.eq_false_iff.mpr isShut
      exact .takes tests (fun empty => idle ⟨empty, isOpen⟩) isOpen

theorem moves_afterWait
    {index : Nat} (free : s.lock = false)
    (isAt : s.workers[index]? = some .woken) :
    Moves cfg s (.worker index) (s.afterWait cfg index) := by
  unfold afterWait
  by_cases asked : 0 < s.waitExitThreadNum
  · rw [if_pos asked]
    by_cases above : cfg.minThreadNum < s.liveThreadNum
    · simp only [if_pos above]
      exact .shrinks free isAt asked above
    · simp only [if_neg above]
      exact moves_testQueue ⟨free, .inr ⟨isAt, by omega⟩⟩
  · rw [if_neg asked]
    exact moves_testQueue ⟨free, .inr ⟨isAt, Int.le_refl _⟩⟩

theorem moves_worker
    {index : Nat} (stepped : s.workerStep cfg index = some next) :
    Moves cfg s (.worker index) next := by
  unfold workerStep at stepped
  split at stepped
  · next isAt =>
      obtain ⟨free, entered⟩ := free_of_entered stepped
      cases entered
      exact moves_testQueue ⟨free, .inl ⟨isAt, rfl⟩⟩
  · next isAt =>
      cases stepped
      exact .blocks isAt
  · next isAt =>
      obtain ⟨free, entered⟩ := free_of_entered stepped
      cases entered
      exact moves_afterWait free isAt
  · next task isAt =>
      cases stepped
      exact .starts isAt
  · next task isAt =>
      cases stepped
      exact .calls isAt
  · next isAt =>
      cases stepped
      exact .finishes isAt
  · next isAt =>
      cases stepped
      exact .ends isAt
  · cases stepped

theorem moves_testRoom
    {index waiter : Nat} {task : Task} (tests : s.TestsRoom index task)
    (stepped : s.testRoom cfg index waiter task = some next) :
    Moves cfg s (.producer index waiter) next := by
  unfold testRoom at stepped
  by_cases full : s.queueSize = cfg.queueMaxSize ∧ s.shutdown = false
  · rw [if_pos full] at stepped
    cases stepped
    exact .producerSleeps tests full.1 full.2
  · rw [if_neg full] at stepped
    by_cases isShut : s.shutdown = true
    · rw [if_pos isShut] at stepped
      cases stepped
      exact .refused tests isShut
    · rw [if_neg isShut] at stepped
      have isOpen := Bool.eq_false_iff.mpr isShut
      obtain ⟨workers, signalled, rfl⟩ := signalled_of_signalNotEmpty stepped
      exact
        .enqueues tests (fun isFull => full ⟨isFull, isOpen⟩) isOpen signalled

theorem moves_producer
    {index waiter : Nat}
    (stepped : s.producerStep cfg index waiter = some next) :
    Moves cfg s (.producer index waiter) next := by
  unfold producerStep at stepped
  split at stepped
  · next task isAt =>
      obtain ⟨free, entered⟩ := free_of_entered stepped
      exact moves_testRoom ⟨free, .inl isAt⟩ entered
  · next task isAt =>
      cases stepped
      exact .producerBlocks isAt
  · next task isAt =>
      obtain ⟨free, entered⟩ := free_of_entered stepped
      exact moves_testRoom ⟨free, .inr isAt⟩ entered
  · cases stepped

theorem moves_adjust
    {findsAlive : Nat → Bool} {waiter : Nat}
    (stepped : s.adjustStep cfg findsAlive waiter = some next) :
    Moves cfg s (.adjust findsAlive waiter) next := by
  have goesOn : ∀ {adjust : AdjustPc},
      s.adjust ≠ .ended → adjust ≠ .ended →
        Moves cfg s (.adjust findsAlive waiter)
          { s with adjust := adjust } :=
    fun running after => .adjusts running (fun ends => absurd ends after)
  unfold adjustStep at stepped
  split at stepped
  · next isAt =>
      have running : s.adjust ≠ .ended := by
        rw [isAt]
        decide
      by_cases isOpen : s.shutdown = false
      · rw [if_pos isOpen] at stepped
        cases stepped
        exact goesOn running (by decide)
      · rw [if_neg isOpen] at stepped
        cases stepped
        exact .adjusts running (fun _ => by simpa using isOpen)
  · next isAt =>
      cases stepped
      exact goesOn (by rw [isAt]; decide) (by decide)
  · next isAt =>
      obtain ⟨_, entered⟩ := free_of_entered stepped
      cases entered
      exact goesOn (by rw [isAt]; decide) (by simp)
  · next queueSize liveThreadNum isAt =>
      cases stepped
      exact goesOn (by rw [isAt]; simp) (by simp)
  · next queueSize liveThreadNum busyThreadNum isAt =>
      split at stepped
      · obtain ⟨isFree, entered⟩ := free_of_entered stepped
        cases entered
        exact .grows isAt isFree
      · cases stepped
        exact goesOn (by rw [isAt]; simp) (by simp)
  · next liveThreadNum busyThreadNum isAt =>
      split at stepped
      · obtain ⟨isFree, entered⟩ := free_of_entered stepped
        cases entered
        exact .asksToExit (by rw [isAt]; simp) isFree
      · cases stepped
        exact goesOn (by rw [isAt]; simp) (by simp)
  · next isAt =>
      cases stepped
      exact goesOn (by rw [isAt]; simp) (by simp)
  · next left isAt =>
      obtain ⟨workers, signalled, rfl⟩ := signalled_of_signalNotEmpty stepped
      exact .signals isAt signalled
  · cases stepped

theorem moves_destroy (stepped : s.destroyStep = some next) :
    Moves cfg s .destroy next := by
  unfold destroyStep at stepped
  split at stepped
  · next isAt =>
      cases stepped
      exact .shuts isAt
  · next isAt =>
      split at stepped
      · next adjustEnded =>
          cases stepped
          exact .adjustJoined isAt adjustEnded
      · cases stepped
  · next i isAt =>
      split at stepped
      · next below =>
          cases stepped
          exact .broadcasts isAt below
      · next finished =>
          cases stepped
          exact .joinsThreads isAt (Int.not_lt.mp finished)
  · next i isAt =>
      split at stepped
      · next below =>
          split at stepped
          · next worker stored =>
              split at stepped
              · next workerEnded =>
                  cases stepped
                  exact .joined isAt below stored workerEnded
              · cases stepped
          · cases stepped
      · next finished =>
          cases stepped
          exact .frees isAt (Int.not_lt.mp finished)
  · next isAt =>
      obtain ⟨free, entered⟩ := free_of_entered stepped
      cases entered
      exact .freed isAt free
  · cases stepped

/-- Every step is one of the list. -/
theorem moves_of_step
    {label : PoolStep} (stepped : s.step cfg label = some next) :
    Moves cfg s label next := by
  cases label with
  | add task =>
      cases stepped
      exact .called task
  | producer index waiter => exact moves_producer stepped
  | worker index => exact moves_worker stepped
  | adjust findsAlive waiter => exact moves_adjust stepped
  | destroy => exact moves_destroy stepped
  | wakeWorker index =>
      simp only [step] at stepped
      split at stepped
      · next isAt =>
          cases stepped
          exact .wakesUp isAt
      · cases stepped
  | wakeProducer index =>
      simp only [step] at stepped
      split at stepped
      · next task isAt =>
          cases stepped
          exact .producerWakesUp isAt
      · cases stepped

/-- What one `pthread_create` keeps, the section that creates threads keeps.
It creates one only below `max_thread_num`. -/
theorem grow_keeps_below
    (cfg : Config) (findsAlive : Nat → Bool) (property : Pool → Prop)
    (keeps :
      ∀ s slot, s.liveThreadNum < cfg.maxThreadNum →
        s.isVacant findsAlive slot = true → property s →
          property (s.createThread slot))
    {s : Pool} (initially : property s) :
    property (s.grow cfg findsAlive) := by
  have loop :
      ∀ (left i add : Nat) (s : Pool), property s →
        property (growFrom cfg findsAlive left i add s) := by
    intro left
    induction left with
    | zero =>
        intro i add s holds
        exact holds
    | succ left inductionHypothesis =>
        intro i add s holds
        unfold growFrom
        by_cases wanted :
            add < defaultThreadVary ∧ s.liveThreadNum < cfg.maxThreadNum
        · rw [if_pos wanted]
          by_cases vacant : s.isVacant findsAlive i = true
          · rw [if_pos vacant]
            apply inductionHypothesis
            exact keeps s i wanted.2 vacant holds
          · rw [if_neg vacant]
            apply inductionHypothesis
            exact holds
        · rw [if_neg wanted]
          exact holds
  exact loop _ _ _ s initially

theorem grow_keeps
    (cfg : Config) (findsAlive : Nat → Bool) (property : Pool → Prop)
    (keeps :
      ∀ s slot, s.isVacant findsAlive slot = true → property s →
        property (s.createThread slot))
    {s : Pool} (initially : property s) :
    property (s.grow cfg findsAlive) :=
  grow_keeps_below cfg findsAlive property
    (fun s slot _ vacant holds => keeps s slot vacant holds) initially

/-- A slot that is filled is empty, or its worker has ended. -/
theorem ended_of_isVacant
    {findsAlive : Nat → Bool} {slot : Nat}
    (vacant : s.isVacant findsAlive slot = true) :
    ∃ entry, s.threads[slot]? = some entry ∧
      ∀ old, entry = some old → s.workers[old]? = some .ended := by
  unfold isVacant at vacant
  split at vacant
  · next isEmpty =>
      refine ⟨none, isEmpty, fun _ impossible => ?_⟩
      cases impossible
  · next old isStored =>
      refine ⟨some old, isStored, fun other same => ?_⟩
      cases same
      have notAlive : s.isThreadAlive findsAlive old = false :=
        Bool.not_eq_true' _ ▸ vacant
      exact bne_eq_false_iff_eq.mp (Bool.or_eq_false_iff.mp notAlive).2
  · cases vacant

theorem grow_frame (cfg : Config) (findsAlive : Nat → Bool) (s : Pool) :
    (s.grow cfg findsAlive).producers = s.producers ∧
      (s.grow cfg findsAlive).shutdown = s.shutdown ∧
      (s.grow cfg findsAlive).destroy = s.destroy :=
  grow_keeps cfg findsAlive
    (fun t => t.producers = s.producers ∧ t.shutdown = s.shutdown ∧
      t.destroy = s.destroy)
    (fun _ _ _ before => before) ⟨rfl, rfl, rfl⟩

end Pool

end LinuxNet.ThreadPool
