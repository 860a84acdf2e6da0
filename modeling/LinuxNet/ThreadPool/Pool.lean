import LinuxNet.Lib.StepSystem
import LinuxNet.Lib.Threads

/-!
# The thread pool of `thread_pool.c`

The threads of the pool, of its callers and of its manager take turns.  A
section under `pool -> lock` is one step, and a thread that goes to sleep
takes two: it tests its condition and keeps the lock, and then
`pthread_cond_wait` gives the lock back and puts it to sleep.  So the lock is
held between two steps only by a thread that is about to sleep.  What the
program does without the lock (the manager's signals, the steps of
`threadpool_destroy`) comes in steps of its own.

A sleeping thread may also wake up by itself.  `pthread_create` succeeds in
`threadpool_adjust`, where its result is not looked at.
-/

namespace LinuxNet.ThreadPool

/-- `DEFAULT_THREAD_VARY`. -/
def defaultThreadVary : Nat := 10
/-- `MIN_WAIT_TASK_NUM`. -/
def minWaitTaskNum : Int := 10

/-- `threadpool_task_t`: two addresses. -/
structure Task where
  function : Nat
  arg : Nat
  deriving DecidableEq, Repr

/-- The arguments of `threadpool_create`, which the pool keeps. -/
structure Config where
  minThreadNum : Int
  maxThreadNum : Int
  queueMaxSize : Int

/-- Where a worker stands in `threadpool_thread`. -/
inductive WorkerPc where
  /-- Before `pthread_mutex_lock`, at the top of the outer loop. -/
  | locks
  /-- The queue was empty; it has the lock and calls `pthread_cond_wait`. -/
  | waits
  /-- In the waiting set of `queue_not_empty`. -/
  | blocked
  /-- Out of the waiting set, but without the lock yet. -/
  | woken
  /-- It has a task, `busy_thread_num ++` comes next. -/
  | starts (task : Task)
  | calls (task : Task)
  /-- The task is done, `busy_thread_num --` comes next. -/
  | finishes
  /-- Past its last section, before `pthread_exit`. -/
  | exits
  | ended
  deriving DecidableEq, Repr

/-- Where a call of `threadpool_add` stands. -/
inductive ProducerPc where
  | locks (task : Task)
  /-- The queue was full; it has the lock and calls `pthread_cond_wait`. -/
  | waits (task : Task)
  /-- In the waiting set of `queue_not_full`. -/
  | blocked (task : Task)
  | woken (task : Task)
  | returned (task : Task) (value : Int)
  deriving DecidableEq, Repr

/-- Where `threadpool_adjust` stands, with its local variables. -/
inductive AdjustPc where
  | tests
  | sleeps
  | reads
  | readsBusy (queueSize liveThreadNum : Int)
  | grows (queueSize liveThreadNum busyThreadNum : Int)
  | shrinks (liveThreadNum busyThreadNum : Int)
  /-- This many signals are still to be sent. -/
  | signals (left : Nat)
  | ended
  deriving DecidableEq, Repr

/-- Where `threadpool_destroy` stands, with its loop variable. -/
inductive DestroyPc where
  | uncalled
  | joinsAdjust
  | broadcasts (i : Nat)
  | joins (i : Nat)
  /-- In `threadpool_free`. -/
  | frees
  | returned
  deriving DecidableEq, Repr

/-- The fields of `threadpool_t`, its threads, and what was put into the
ring, taken from it and called so far.  A slot of `threads` holds a worker,
or 0 as `none`. -/
structure Pool where
  lock : Bool
  threads : List (Option Nat)
  taskQueue : List Task
  liveThreadNum : Int
  busyThreadNum : Int
  waitExitThreadNum : Int
  queueFront : Int
  queueRear : Int
  queueSize : Int
  shutdown : Bool
  workers : List WorkerPc
  producers : List ProducerPc
  adjust : AdjustPc
  destroy : DestroyPc
  enqueued : List Task
  taken : List Task
  called : List Task
  deriving DecidableEq

/-- One step, with the choices of the environment. -/
inductive PoolStep where
  /-- `threadpool_add` is called. -/
  | add (task : Task)
  /-- A call of `threadpool_add` goes on; a signal wakes the given waiter. -/
  | producer (index waiter : Nat)
  | worker (index : Nat)
  /-- The manager goes on; `pthread_kill` finds the threads alive for which
  the test holds, and a signal wakes the given waiter. -/
  | adjust (findsAlive : Nat → Bool) (waiter : Nat)
  /-- `threadpool_destroy` is called, or goes on. -/
  | destroy
  | wakeWorker (index : Nat)
  | wakeProducer (index : Nat)

def WorkerPc.wake : WorkerPc → WorkerPc
  | .blocked => .woken
  | pc => pc

def ProducerPc.wake : ProducerPc → ProducerPc
  | .blocked task => .woken task
  | pc => pc

namespace Pool

/-- The pool that `threadpool_create` returns; the ring is not initialised. -/
def created (cfg : Config) (garbage : List Task) : Pool where
  lock := false
  threads :=
    (List.range cfg.minThreadNum.toNat).map some ++
      List.replicate (cfg.maxThreadNum.toNat - cfg.minThreadNum.toNat) none
  taskQueue := garbage
  liveThreadNum := cfg.minThreadNum
  busyThreadNum := 0
  waitExitThreadNum := 0
  queueFront := 0
  queueRear := 0
  queueSize := 0
  shutdown := false
  workers := List.replicate cfg.minThreadNum.toNat .locks
  producers := []
  adjust := .tests
  destroy := .uncalled
  enqueued := []
  taken := []
  called := []

/-- The states a run starts from.  For a negative `queue_max_size` the `malloc`
of the ring fails, and `threadpool_create` returns no pool. -/
def Created (cfg : Config) (s : Pool) : Prop :=
  ∃ garbage : List Task,
    (garbage.length : Int) = cfg.queueMaxSize ∧ s = created cfg garbage

/-- `pthread_cond_signal(&(pool -> queue_not_empty))` wakes the given
waiter, or nobody when nobody waits. -/
def signalNotEmpty (s : Pool) (waiter : Nat) : Option Pool :=
  if .blocked ∈ s.workers then
    match s.workers[waiter]? with
    | some .blocked =>
        some { s with workers := s.workers.set waiter .woken }
    | _ => none
  else
    some s

def broadcastNotEmpty (s : Pool) : Pool :=
  { s with workers := s.workers.map WorkerPc.wake }

def broadcastNotFull (s : Pool) : Pool :=
  { s with producers := s.producers.map ProducerPc.wake }

def frontTask (s : Pool) : Task :=
  s.taskQueue.getD s.queueFront.toNat ⟨0, 0⟩

def takeTask (cfg : Config) (s : Pool) (index : Nat) : Pool :=
  broadcastNotFull
    { s with
      queueFront := (s.queueFront + 1).tmod cfg.queueMaxSize
      queueSize := s.queueSize - 1
      workers := s.workers.set index (.starts s.frontTask)
      taken := s.taken ++ [s.frontTask] }

def testQueue (cfg : Config) (s : Pool) (index : Nat) : Pool :=
  if s.queueSize = 0 ∧ s.shutdown = false then
    { s with lock := true, workers := s.workers.set index .waits }
  else if s.shutdown = true then
    { s with workers := s.workers.set index .exits }
  else
    s.takeTask cfg index

/-- From the return of `pthread_cond_wait` on, with the lock. -/
def afterWait (cfg : Config) (s : Pool) (index : Nat) : Pool :=
  if 0 < s.waitExitThreadNum then
    let s := { s with waitExitThreadNum := s.waitExitThreadNum - 1 }
    if cfg.minThreadNum < s.liveThreadNum then
      { s with
        liveThreadNum := s.liveThreadNum - 1
        workers := s.workers.set index .exits }
    else
      s.testQueue cfg index
  else
    s.testQueue cfg index

def workerStep (cfg : Config) (s : Pool) (index : Nat) : Option Pool :=
  match s.workers[index]? with
  | some .locks => if s.lock then none else some (s.testQueue cfg index)
  | some .waits =>
      some { s with lock := false, workers := s.workers.set index .blocked }
  | some .woken => if s.lock then none else some (s.afterWait cfg index)
  | some (.starts task) =>
      some
        { s with
          busyThreadNum := s.busyThreadNum + 1
          workers := s.workers.set index (.calls task) }
  | some (.calls task) =>
      some
        { s with
          workers := s.workers.set index .finishes
          called := s.called ++ [task] }
  | some .finishes =>
      some
        { s with
          busyThreadNum := s.busyThreadNum - 1
          workers := s.workers.set index .locks }
  | some .exits => some { s with workers := s.workers.set index .ended }
  | _ => none

/-- The section from the reset of the argument to the unlock; what it resets
it then overwrites. -/
def enqueue (cfg : Config) (s : Pool) (index waiter : Nat) (task : Task) :
    Option Pool :=
  signalNotEmpty
    { s with
      taskQueue := s.taskQueue.set s.queueRear.toNat task
      queueRear := (s.queueRear + 1).tmod cfg.queueMaxSize
      queueSize := s.queueSize + 1
      producers := s.producers.set index (.returned task 0)
      enqueued := s.enqueued ++ [task] } waiter

def testRoom (cfg : Config) (s : Pool) (index waiter : Nat) (task : Task) :
    Option Pool :=
  if s.queueSize = cfg.queueMaxSize ∧ s.shutdown = false then
    some
      { s with lock := true, producers := s.producers.set index (.waits task) }
  else if s.shutdown = true then
    some
      (broadcastNotEmpty
        { s with producers := s.producers.set index (.returned task 0) })
  else
    s.enqueue cfg index waiter task

def producerStep (cfg : Config) (s : Pool) (index waiter : Nat) :
    Option Pool :=
  match s.producers[index]? with
  | some (.locks task) =>
      if s.lock then none else s.testRoom cfg index waiter task
  | some (.waits task) =>
      some
        { s with
          lock := false
          producers := s.producers.set index (.blocked task) }
  | some (.woken task) =>
      if s.lock then none else s.testRoom cfg index waiter task
  | _ => none

/-! ## `threadpool_adjust` -/

/-- `is_thread_alive`: a thread that has not ended is found alive. -/
def isThreadAlive (s : Pool) (findsAlive : Nat → Bool) (worker : Nat) : Bool :=
  findsAlive worker || s.workers[worker]? != some .ended

/-- A slot that `threadpool_adjust` fills. -/
def isVacant (s : Pool) (findsAlive : Nat → Bool) (slot : Nat) : Bool :=
  match s.threads[slot]? with
  | some none => true
  | some (some worker) => !s.isThreadAlive findsAlive worker
  | none => false

/-- `pthread_create` into a slot, and `live_thread_num ++`. -/
def createThread (s : Pool) (slot : Nat) : Pool :=
  { s with
    threads := s.threads.set slot (some s.workers.length)
    liveThreadNum := s.liveThreadNum + 1
    workers := s.workers ++ [.locks] }

/-- The loop over the slots from `i` on, by the number of slots left. -/
def growFrom (cfg : Config) (findsAlive : Nat → Bool) :
    Nat → Nat → Nat → Pool → Pool
  | 0, _, _, s => s
  | left + 1, i, add, s =>
      if add < defaultThreadVary ∧ s.liveThreadNum < cfg.maxThreadNum then
        if s.isVacant findsAlive i then
          growFrom cfg findsAlive left (i + 1) (add + 1) (s.createThread i)
        else
          growFrom cfg findsAlive left (i + 1) add s
      else
        s

def grow (cfg : Config) (findsAlive : Nat → Bool) (s : Pool) : Pool :=
  growFrom cfg findsAlive cfg.maxThreadNum.toNat 0 0 s

def adjustStep
    (cfg : Config) (s : Pool) (findsAlive : Nat → Bool) (waiter : Nat) :
    Option Pool :=
  match s.adjust with
  | .tests =>
      if s.shutdown = false then
        some { s with adjust := .sleeps }
      else
        some { s with adjust := .ended }
  | .sleeps => some { s with adjust := .reads }
  | .reads =>
      if s.lock then
        none
      else
        some { s with adjust := .readsBusy s.queueSize s.liveThreadNum }
  | .readsBusy queueSize liveThreadNum =>
      some
        { s with adjust := .grows queueSize liveThreadNum s.busyThreadNum }
  | .grows queueSize liveThreadNum busyThreadNum =>
      if minWaitTaskNum ≤ queueSize ∧ liveThreadNum < cfg.maxThreadNum then
        if s.lock then
          none
        else
          some
            { grow cfg findsAlive s with
              adjust := .shrinks liveThreadNum busyThreadNum }
      else
        some { s with adjust := .shrinks liveThreadNum busyThreadNum }
  | .shrinks liveThreadNum busyThreadNum =>
      if busyThreadNum * 2 < liveThreadNum ∧
          cfg.minThreadNum < liveThreadNum then
        if s.lock then
          none
        else
          some
            { s with
              waitExitThreadNum := defaultThreadVary
              adjust := .signals defaultThreadVary }
      else
        some { s with adjust := .tests }
  | .signals 0 => some { s with adjust := .tests }
  | .signals (left + 1) =>
      signalNotEmpty { s with adjust := .signals left } waiter
  | .ended => none

def destroyStep (s : Pool) : Option Pool :=
  match s.destroy with
  | .uncalled => some { s with shutdown := true, destroy := .joinsAdjust }
  | .joinsAdjust =>
      if s.adjust = .ended then
        some { s with destroy := .broadcasts 0 }
      else
        none
  | .broadcasts i =>
      if (i : Int) < s.liveThreadNum then
        some (broadcastNotEmpty { s with destroy := .broadcasts (i + 1) })
      else
        some { s with destroy := .joins 0 }
  | .joins i =>
      if (i : Int) < s.liveThreadNum then
        match s.threads[i]? with
        | some (some worker) =>
            if s.workers[worker]? = some .ended then
              some { s with destroy := .joins (i + 1) }
            else
              none
        -- no thread is stored there
        | _ => none
      else
        some { s with destroy := .frees }
  | .frees => if s.lock then none else some { s with destroy := .returned }
  | .returned => none

def step (cfg : Config) (s : Pool) : PoolStep → Option Pool
  | .add task => some { s with producers := s.producers ++ [.locks task] }
  | .producer index waiter => s.producerStep cfg index waiter
  | .worker index => s.workerStep cfg index
  | .adjust findsAlive waiter => s.adjustStep cfg findsAlive waiter
  | .destroy => s.destroyStep
  | .wakeWorker index =>
      match s.workers[index]? with
      | some .blocked =>
          some { s with workers := s.workers.set index .woken }
      | _ => none
  | .wakeProducer index =>
      match s.producers[index]? with
      | some (.blocked task) =>
          some { s with producers := s.producers.set index (.woken task) }
      | _ => none

end Pool

end LinuxNet.ThreadPool
