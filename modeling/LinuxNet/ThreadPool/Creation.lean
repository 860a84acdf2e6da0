import LinuxNet.ThreadPool.Moves

/-!
# `threadpool_create` and what its failures leave behind

`threadpool_create` runs while the workers that it has started run already.
When one of its calls fails it hands the half-made pool to `threadpool_free`,
which goes by two pointers, one of them perhaps not yet assigned, and neither
knows which of the locks and conditions exist nor waits for a worker.
`cleaned_up_iff` lists the failures that it is up to.
-/

namespace LinuxNet.ThreadPool

open LinuxNet.StepSystem LinuxNet.Threads

/-- The mutexes and conditions of a pool. -/
inductive Object where
  | lock
  | threadCounter
  | queueNotEmpty
  | queueNotFull
  deriving DecidableEq, Repr

def objects : List Object :=
  [.lock, .threadCounter, .queueNotEmpty, .queueNotFull]

/-- What `threadpool_create` allocates. -/
inductive Block where
  | pool
  | threads
  | taskQueue
  deriving DecidableEq, Repr

/-- The value of a pointer: what `malloc` leaves in a field may be any. -/
inductive Pointer where
  | null
  | block (block : Block)
  | wild (address : Nat)
  deriving DecidableEq, Repr

inductive Cleanup where
  | locks (object : Object)
  | destroys (object : Object)
  deriving DecidableEq, Repr

def Cleanup.object : Cleanup → Object
  | .locks object | .destroys object => object

/-- What `threadpool_free` does when `threads` is set. -/
def cleanups : List Cleanup :=
  [.locks .lock, .destroys .lock, .locks .threadCounter,
    .destroys .threadCounter, .destroys .queueNotEmpty,
    .destroys .queueNotFull]

/-- Where `threadpool_create` stands. -/
inductive CreatePc where
  | allocatesPool
  | allocatesThreads
  | allocatesQueue
  | initialises (left : List Object)
  /-- In the loop over the workers. -/
  | creates (i : Nat)
  | createsAdjust
  /-- In `threadpool_free`. -/
  | freesQueue
  | freesThreads
  | cleans (left : List Cleanup)
  | freesPool
  /-- A pool or `NULL` is returned. -/
  | returned (created : Bool)
  deriving DecidableEq, Repr

/-- A call of `threadpool_create`: its two pointers into the heap, the fields
and workers of the pool, and what was allocated, freed, initialised, and
locked or destroyed by `threadpool_free`. -/
structure Creation where
  pc : CreatePc
  threads : Pointer
  taskQueue : Pointer
  pool : Pool
  allocated : List Block
  freed : List Pointer
  initialised : List Object
  used : List Object

inductive CreationStep where
  /-- `threadpool_create` goes on; the call it makes succeeds or fails. -/
  | create (succeeds : Bool)
  | worker (index : Nat)
  | wakeWorker (index : Nat)

namespace Creation

/-- The fields as `threadpool_create` assigns them, before there are
workers. -/
def assigned (cfg : Config) : Pool where
  lock := false
  threads := List.replicate cfg.maxThreadNum.toNat none
  taskQueue := []
  liveThreadNum := cfg.minThreadNum
  busyThreadNum := 0
  waitExitThreadNum := 0
  queueFront := 0
  queueRear := 0
  queueSize := 0
  shutdown := false
  workers := []
  producers := []
  adjust := .tests
  destroy := .uncalled
  enqueued := []
  taken := []
  called := []

/-- Before the first `malloc`; the two pointers are what it will leave in the
fields. -/
def start (cfg : Config) (threads taskQueue : Pointer) : Creation where
  pc := .allocatesPool
  threads := threads
  taskQueue := taskQueue
  pool := assigned cfg
  allocated := []
  freed := []
  initialised := []
  used := []

/-- `free` on a pointer that is not `NULL`. -/
def freedBy (pointer : Pointer) : List Pointer :=
  if pointer = .null then [] else [pointer]

def createStep (cfg : Config) (s : Creation) (succeeds : Bool) :
    Option Creation :=
  match s.pc with
  | .allocatesPool =>
      if succeeds then
        some { s with pc := .allocatesThreads, allocated := [.pool] }
      else
        -- `threadpool_free(NULL)`
        some { s with pc := .returned false }
  | .allocatesThreads =>
      -- a negative number asks for too many bytes
      if succeeds ∧ 0 ≤ cfg.maxThreadNum then
        some
          { s with
            pc := .allocatesQueue
            threads := .block .threads
            allocated := s.allocated ++ [.threads] }
      else
        some { s with pc := .freesQueue, threads := .null }
  | .allocatesQueue =>
      if succeeds ∧ 0 ≤ cfg.queueMaxSize then
        some
          { s with
            pc := .initialises objects
            taskQueue := .block .taskQueue
            allocated := s.allocated ++ [.taskQueue] }
      else
        some { s with pc := .freesQueue, taskQueue := .null }
  | .initialises [] => some { s with pc := .creates 0 }
  | .initialises (object :: left) =>
      if succeeds then
        some
          { s with
            pc := .initialises left
            initialised := s.initialised ++ [object] }
      else
        some { s with pc := .freesQueue }
  | .creates i =>
      if (i : Int) < cfg.minThreadNum then
        if succeeds then
          some
            { s with
              pc := .creates (i + 1)
              pool :=
                { s.pool with
                  threads := s.pool.threads.set i (some i)
                  workers := s.pool.workers ++ [.locks] } }
        else
          some { s with pc := .freesQueue }
      else
        some { s with pc := .createsAdjust }
  | .createsAdjust =>
      if succeeds then
        some { s with pc := .returned true }
      else
        some { s with pc := .freesQueue }
  | .freesQueue =>
      some
        { s with
          pc := .freesThreads, freed := s.freed ++ freedBy s.taskQueue }
  | .freesThreads =>
      if s.threads = .null then
        some { s with pc := .freesPool }
      else
        some
          { s with
            pc := .cleans cleanups, freed := s.freed ++ freedBy s.threads }
  | .cleans [] => some { s with pc := .freesPool }
  | .cleans (.locks .lock :: left) =>
      if s.pool.lock then
        none
      else
        some
          { s with
            pc := .cleans left
            used := s.used ++ [.lock]
            pool := { s.pool with lock := true } }
  | .cleans (cleanup :: left) =>
      some { s with pc := .cleans left, used := s.used ++ [cleanup.object] }
  | .freesPool =>
      some
        { s with
          pc := .returned false, freed := s.freed ++ [.block .pool] }
  | .returned _ => none

def step (cfg : Config) (s : Creation) : CreationStep → Option Creation
  | .create succeeds => s.createStep cfg succeeds
  | .worker index =>
      (s.pool.workerStep cfg index).map fun pool => { s with pool := pool }
  | .wakeWorker index =>
      (s.pool.step cfg (.wakeWorker index)).map fun pool =>
        { s with pool := pool }

def AllEnded (s : Creation) : Prop :=
  ∀ pc ∈ s.pool.workers, pc = .ended

/-- The blocks that were allocated have been freed and nothing else, only
mutexes and conditions that exist were locked and destroyed, and no worker is
left. -/
structure CleanedUp (s : Creation) : Prop where
  freed : s.freed.Perm (s.allocated.map .block)
  used : ∀ object ∈ s.used, object ∈ s.initialised
  ended : s.AllEnded

/-- When a call fails there is nothing to clean up that `threadpool_free`
cannot: no pool at all; the array of threads, with `NULL` found in
`task_queue`; the first worker; or the manager of a pool without workers. -/
def FailsCleanly (cfg : Config) (s : Creation) : CreationStep → Prop
  | .create succeeds =>
      match s.pc with
      | .allocatesThreads =>
          ¬ (succeeds = true ∧ 0 ≤ cfg.maxThreadNum) → s.taskQueue = .null
      | .allocatesQueue => succeeds = true ∧ 0 ≤ cfg.queueMaxSize
      | .initialises (_ :: _) => succeeds = true
      | .creates i =>
          (i : Int) < cfg.minThreadNum → succeeds = false → i = 0
      | .createsAdjust => succeeds = false → cfg.minThreadNum ≤ 0
      | _ => True
  | _ => True

/-- The worker is in the loop around `pthread_cond_wait`. -/
def IsIdle : WorkerPc → Prop
  | .locks | .waits | .blocked | .woken => True
  | _ => False

/-- No task has come, nobody is asked to leave, and all workers wait for
tasks. -/
structure Idle (p : Pool) : Prop where
  empty : p.queueSize = 0
  isOpen : p.shutdown = false
  unasked : p.waitExitThreadNum ≤ 0
  workers : ∀ pc ∈ p.workers, IsIdle pc

variable {cfg : Config} {p q : Pool}

theorem Idle.moved
    {index : Nat} {new : WorkerPc} (idle : Idle p) (isIdle : IsIdle new) :
    ∀ pc ∈ p.workers.set index new, IsIdle pc :=
  forall_set idle.workers isIdle

/-- A worker has nothing to do but to wait. -/
theorem idle_worker
    {index : Nat} (idle : Idle p)
    (stepped : p.workerStep cfg index = some q) :
    Idle q ∧ q.workers.length = p.workers.length ∧ p.workers ≠ [] := by
  have elsewhere :
      ∀ pc, ¬ IsIdle pc → p.workers[index]? = some pc → False :=
    fun pc notIdle isAt => notIdle (idle.workers pc (mem_of_at isAt))
  have nonempty :
      ∀ pc, p.workers[index]? = some pc → p.workers ≠ [] := by
    intro pc isAt none
    rw [none] at isAt
    cases isAt
  cases Pool.moves_worker stepped with
  | @sleeps _ waitExit tests _ _ =>
      have unasked := idle.unasked
      rcases tests.isAt with ⟨isAt, same⟩ | ⟨isAt, less⟩
      · exact
          ⟨⟨idle.empty, idle.isOpen, same ▸ unasked, idle.moved trivial⟩,
            List.length_set, nonempty _ isAt⟩
      · exact
          ⟨⟨idle.empty, idle.isOpen, Int.le_trans less unasked,
              idle.moved trivial⟩,
            List.length_set, nonempty _ isAt⟩
  | leaves _ isShut =>
      rw [idle.isOpen] at isShut
      cases isShut
  | takes _ notEmpty _ => exact absurd idle.empty notEmpty
  | shrinks _ _ asked _ =>
      have unasked := idle.unasked
      omega
  | blocks isAt =>
      exact
        ⟨⟨idle.empty, idle.isOpen, idle.unasked, idle.moved trivial⟩,
          List.length_set, nonempty _ isAt⟩
  | starts isAt | calls isAt | finishes isAt | ends isAt =>
      exact (elsewhere _ id isAt).elim

theorem idle_wakeWorker
    {index : Nat} (idle : Idle p)
    (stepped : p.step cfg (.wakeWorker index) = some q) :
    Idle q ∧ q.workers.length = p.workers.length ∧ p.workers ≠ [] := by
  cases Pool.moves_of_step stepped with
  | wakesUp isAt =>
      refine
        ⟨⟨idle.empty, idle.isOpen, idle.unasked, idle.moved trivial⟩,
          List.length_set, fun none => ?_⟩
      rw [none] at isAt
      cases isAt

/-- All blocks are there, and `threadpool_free` has not been called. -/
structure Stocked (s : Creation) : Prop where
  allocated : s.allocated = [.pool, .threads, .taskQueue]
  threads : s.threads = .block .threads
  taskQueue : s.taskQueue = .block .taskQueue
  freed : s.freed = []
  used : s.used = []

def Done (cfg : Config) (s : Creation) : Prop :=
  match s.pc with
  | .allocatesPool =>
      s.allocated = [] ∧ s.freed = [] ∧ s.used = [] ∧ s.initialised = [] ∧
        s.pool.workers = []
  | .allocatesThreads =>
      s.allocated = [.pool] ∧ s.freed = [] ∧ s.used = [] ∧
        s.initialised = [] ∧ s.pool.workers = []
  | .allocatesQueue =>
      s.allocated = [.pool, .threads] ∧ s.threads = .block .threads ∧
        s.freed = [] ∧ s.used = [] ∧ s.initialised = [] ∧
        s.pool.workers = []
  | .initialises left =>
      s.Stocked ∧ s.initialised ++ left = objects ∧ s.pool.workers = []
  | .creates i =>
      s.Stocked ∧ s.initialised = objects ∧ s.pool.workers.length = i ∧
        i ≤ cfg.minThreadNum.toNat
  | .createsAdjust =>
      s.Stocked ∧ s.initialised = objects ∧
        s.pool.workers.length = cfg.minThreadNum.toNat
  | .freesQueue | .freesThreads => s.used = []
  | .cleans _ | .freesPool | .returned _ => True

structure Progress (cfg : Config) (s : Creation) : Prop where
  idle : Idle s.pool
  done : s.Done cfg

/-- The cleaning that is still to come will be complete. -/
def WillBeClean (s : Creation) : Prop :=
  match s.pc with
  | .freesQueue =>
      (s.freed ++ freedBy s.taskQueue ++ freedBy s.threads ++
          [Pointer.block .pool]).Perm (s.allocated.map .block) ∧
        (s.threads ≠ .null → ∀ object, object ∈ s.initialised) ∧
        s.AllEnded
  | .freesThreads =>
      (s.freed ++ freedBy s.threads ++ [Pointer.block .pool]).Perm
          (s.allocated.map .block) ∧
        (s.threads ≠ .null → ∀ object, object ∈ s.initialised) ∧
        s.AllEnded
  | .cleans left =>
      (s.freed ++ [Pointer.block .pool]).Perm (s.allocated.map .block) ∧
        (∀ object ∈ s.used ++ left.map Cleanup.object,
          object ∈ s.initialised) ∧
        s.AllEnded
  | .freesPool =>
      (s.freed ++ [Pointer.block .pool]).Perm (s.allocated.map .block) ∧
        (∀ object ∈ s.used, object ∈ s.initialised) ∧ s.AllEnded
  | .returned false => s.CleanedUp
  | _ => True

/-- No call has failed so far. -/
def GoesOn : CreatePc → Prop
  | .allocatesPool | .allocatesThreads | .allocatesQueue | .initialises _
  | .creates _ | .createsAdjust => True
  | .freesQueue | .freesThreads | .cleans _ | .freesPool | .returned _ =>
      False

variable {s next : Creation}

theorem willBeClean_of_goesOn
    {pc : CreatePc} (isAt : s.pc = pc) (goesOn : GoesOn pc) :
    s.WillBeClean := by
  unfold WillBeClean
  rw [isAt]
  cases pc with
  | allocatesPool | allocatesThreads | allocatesQueue | initialises
  | creates | createsAdjust => trivial
  | freesQueue | freesThreads | cleans | freesPool | returned =>
      exact goesOn.elim

theorem progress_start (cfg : Config) (threads taskQueue : Pointer) :
    (start cfg threads taskQueue).Progress cfg where
  idle := ⟨rfl, rfl, Int.le_refl 0, by simp [start, assigned]⟩
  done := ⟨rfl, rfl, rfl, rfl, rfl⟩

/-- While all workers are idle, none is left only if there is none. -/
theorem allEnded_iff (idle : Idle s.pool) :
    s.AllEnded ↔ s.pool.workers = [] := by
  constructor
  · intro ended
    apply List.eq_nil_iff_forall_not_mem.mpr
    intro pc member
    have isIdle := idle.workers pc member
    rw [ended pc member] at isIdle
    exact isIdle
  · intro none pc member
    rw [none] at member
    cases member

/-- Steps of the workers. -/
theorem Progress.worker
    (progress : s.Progress cfg)
    (moved : Idle q ∧ q.workers.length = s.pool.workers.length ∧
      s.pool.workers ≠ []) :
    ({ s with pool := q } : Creation).Progress cfg ∧
      (({ s with pool := q } : Creation).WillBeClean ↔ s.WillBeClean) := by
  obtain ⟨idle, length, nonempty⟩ := moved
  have stillNonempty : q.workers ≠ [] := by
    rw [← List.length_pos_iff, length, List.length_pos_iff]
    exact nonempty
  have notEnded : ¬ s.AllEnded := by
    rw [allEnded_iff progress.idle]
    exact nonempty
  have stillNotEnded : ¬ ({ s with pool := q } : Creation).AllEnded := by
    rw [allEnded_iff (s := { s with pool := q }) idle]
    exact stillNonempty
  have done := progress.done
  rcases s with
    ⟨pc, threads, taskQueue, pool, allocated, freed, initialised, used⟩
  cases pc with
  | allocatesPool | allocatesThreads =>
      exact absurd done.2.2.2.2 nonempty
  | allocatesQueue => exact absurd done.2.2.2.2.2 nonempty
  | initialises left => exact absurd done.2.2 nonempty
  | creates i =>
      obtain ⟨stocked, initialised, count, bound⟩ := done
      exact
        ⟨⟨idle, { stocked with }, initialised, length.trans count, bound⟩,
          Iff.rfl⟩
  | createsAdjust =>
      obtain ⟨stocked, initialised, count⟩ := done
      exact
        ⟨⟨idle, { stocked with }, initialised, length.trans count⟩, Iff.rfl⟩
  | freesQueue | freesThreads | cleans | freesPool =>
      exact
        ⟨⟨idle, done⟩,
          iff_of_false (fun clean => stillNotEnded clean.2.2)
            (fun clean => notEnded clean.2.2)⟩
  | returned created =>
      cases created with
      | false =>
          exact
            ⟨⟨idle, done⟩,
              iff_of_false
                (fun clean => stillNotEnded (CleanedUp.ended clean))
                (fun clean => notEnded (CleanedUp.ended clean))⟩
      | true => exact ⟨⟨idle, done⟩, Iff.rfl⟩

/-! ## The steps of `threadpool_create` -/

/-- After a step the invariant holds, and the cleaning is as complete as it
was, unless the step has spoilt it. -/
def StepsTo (cfg : Config) (s next : Creation) (succeeds : Bool) : Prop :=
  next.Progress cfg ∧
    (next.WillBeClean ↔
      s.WillBeClean ∧ s.FailsCleanly cfg (.create succeeds))

theorem Stocked.willBeClean_iff
    (stocked : s.Stocked) (idle : Idle s.pool) :
    ({ s with pc := .freesQueue } : Creation).WillBeClean ↔
      (∀ object, object ∈ s.initialised) ∧ s.pool.workers = [] := by
  have freed :
      (s.freed ++ freedBy s.taskQueue ++ freedBy s.threads ++
          [Pointer.block .pool]).Perm (s.allocated.map .block) := by
    rw [stocked.allocated, stocked.threads, stocked.taskQueue, stocked.freed]
    decide
  have notNull : s.threads ≠ .null := by
    rw [stocked.threads]
    decide
  show _ ∧ (s.threads ≠ .null → ∀ object, object ∈ s.initialised) ∧ _ ↔ _
  rw [and_iff_right freed, forall_prop_of_true notNull]
  exact and_congr_right fun _ => allEnded_iff idle

theorem mem_objects (object : Object) : object ∈ objects := by
  cases object <;> decide

theorem freedBy_perm_iff (pointer : Pointer) :
    (freedBy pointer ++ [Pointer.block .pool]).Perm [.block .pool] ↔
      pointer = .null := by
  unfold freedBy
  by_cases isNull : pointer = .null
  · rw [if_pos isNull]
    exact iff_of_true (List.Perm.refl _) isNull
  · rw [if_neg isNull]
    exact iff_of_false (fun perm => nomatch perm.length_eq) isNull

section Steps

variable {succeeds : Bool}

theorem stepsTo_allocatesPool
    (progress : s.Progress cfg) (isAt : s.pc = .allocatesPool)
    (stepped : s.createStep cfg succeeds = some next) :
    StepsTo cfg s next succeeds := by
  have done := progress.done
  unfold Done at done
  rw [isAt] at done
  obtain ⟨allocated, freed, used, initialised, none⟩ := done
  have before : s.WillBeClean := willBeClean_of_goesOn isAt trivial
  have clean : s.FailsCleanly cfg (.create succeeds) := by
    unfold FailsCleanly
    simp only [isAt]
  simp only [createStep, isAt] at stepped
  split at stepped
  · cases stepped
    exact
      ⟨⟨progress.idle, rfl, freed, used, initialised, none⟩,
        iff_of_true trivial ⟨before, clean⟩⟩
  · cases stepped
    refine ⟨⟨progress.idle, trivial⟩, iff_of_true ?_ ⟨before, clean⟩⟩
    refine ⟨?_, ?_, (allEnded_iff progress.idle).mpr none⟩
    · show s.freed.Perm (s.allocated.map .block)
      rw [freed, allocated]
      exact List.Perm.refl _
    · show ∀ object ∈ s.used, _
      rw [used]
      simp

theorem stepsTo_allocatesThreads
    (progress : s.Progress cfg) (isAt : s.pc = .allocatesThreads)
    (stepped : s.createStep cfg succeeds = some next) :
    StepsTo cfg s next succeeds := by
  have done := progress.done
  unfold Done at done
  rw [isAt] at done
  obtain ⟨allocated, freed, used, initialised, none⟩ := done
  have before : s.WillBeClean := willBeClean_of_goesOn isAt trivial
  have clean_iff :
      s.FailsCleanly cfg (.create succeeds) ↔
        (¬ (succeeds = true ∧ 0 ≤ cfg.maxThreadNum) →
          s.taskQueue = .null) := by
    unfold FailsCleanly
    simp only [isAt]
  unfold StepsTo
  rw [clean_iff]
  simp only [createStep, isAt] at stepped
  split at stepped
  · next enough =>
      cases stepped
      refine
        ⟨⟨progress.idle, ?_, rfl, freed, used, initialised, none⟩,
          iff_of_true trivial ⟨before, fun fails => absurd enough fails⟩⟩
      show s.allocated ++ [.threads] = _
      rw [allocated]
      rfl
  · next fails =>
      cases stepped
      refine ⟨⟨progress.idle, used⟩, ?_⟩
      rw [and_iff_right before, forall_prop_of_true fails,
        ← freedBy_perm_iff]
      show
        (s.freed ++ freedBy s.taskQueue ++ [] ++
              [Pointer.block .pool]).Perm (s.allocated.map .block) ∧
            (Pointer.null ≠ .null → _) ∧ s.AllEnded ↔ _
      rw [freed, allocated, List.append_nil, List.nil_append]
      constructor
      · exact fun clean => clean.1
      · exact fun perm =>
          ⟨perm, fun impossible => absurd rfl impossible,
            (allEnded_iff progress.idle).mpr none⟩

theorem stepsTo_allocatesQueue
    (progress : s.Progress cfg) (isAt : s.pc = .allocatesQueue)
    (stepped : s.createStep cfg succeeds = some next) :
    StepsTo cfg s next succeeds := by
  have done := progress.done
  unfold Done at done
  rw [isAt] at done
  obtain ⟨allocated, threads, freed, used, initialised, none⟩ := done
  have before : s.WillBeClean := willBeClean_of_goesOn isAt trivial
  have clean_iff :
      s.FailsCleanly cfg (.create succeeds) ↔
        succeeds = true ∧ 0 ≤ cfg.queueMaxSize := by
    unfold FailsCleanly
    simp only [isAt]
  unfold StepsTo
  rw [clean_iff]
  simp only [createStep, isAt] at stepped
  split at stepped
  · next enough =>
      cases stepped
      refine
        ⟨⟨progress.idle, ⟨?_, threads, rfl, freed, used⟩, ?_, none⟩,
          iff_of_true trivial ⟨before, enough⟩⟩
      · show s.allocated ++ [.taskQueue] = _
        rw [allocated]
        rfl
      · show s.initialised ++ objects = objects
        rw [initialised]
        rfl
  · next fails =>
      cases stepped
      refine
        ⟨⟨progress.idle, used⟩,
          iff_of_false (fun clean => ?_) (fun clean => fails clean.2)⟩
      have notNull : s.threads ≠ .null := by
        rw [threads]
        decide
      have isThere : Object.lock ∈ s.initialised :=
        clean.2.1 notNull .lock
      rw [initialised] at isThere
      cases isThere

theorem stepsTo_initialises
    {left : List Object} (progress : s.Progress cfg)
    (isAt : s.pc = .initialises left)
    (stepped : s.createStep cfg succeeds = some next) :
    StepsTo cfg s next succeeds := by
  have done := progress.done
  unfold Done at done
  rw [isAt] at done
  obtain ⟨stocked, initialised, none⟩ := done
  have before : s.WillBeClean := willBeClean_of_goesOn isAt trivial
  cases left with
  | nil =>
      have clean : s.FailsCleanly cfg (.create succeeds) := by
        unfold FailsCleanly
        simp only [isAt]
      simp only [createStep, isAt] at stepped
      cases stepped
      rw [List.append_nil] at initialised
      refine
        ⟨⟨progress.idle, { stocked with }, initialised, ?_, Nat.zero_le _⟩,
          iff_of_true trivial ⟨before, clean⟩⟩
      exact List.length_eq_zero_iff.mpr none
  | cons object left =>
      have clean_iff :
          s.FailsCleanly cfg (.create succeeds) ↔ succeeds = true := by
        unfold FailsCleanly
        simp only [isAt]
      unfold StepsTo
      rw [clean_iff]
      simp only [createStep, isAt] at stepped
      split at stepped
      · next works =>
          cases stepped
          refine
            ⟨⟨progress.idle, { stocked with }, ?_, none⟩,
              iff_of_true trivial ⟨before, works⟩⟩
          show s.initialised ++ [object] ++ left = objects
          rw [← initialised, List.append_assoc]
          rfl
      · next fails =>
          cases stepped
          refine
            ⟨⟨progress.idle, stocked.used⟩,
              iff_of_false ?_ (fun clean => fails clean.2)⟩
          rw [stocked.willBeClean_iff progress.idle]
          rintro ⟨all, _⟩
          have nodup : (s.initialised ++ object :: left).Nodup := by
            rw [initialised]
            decide
          exact
            (List.nodup_append.mp nodup).2.2 object (all object) object
              (by simp) rfl

theorem stepsTo_creates
    {i : Nat} (progress : s.Progress cfg) (isAt : s.pc = .creates i)
    (stepped : s.createStep cfg succeeds = some next) :
    StepsTo cfg s next succeeds := by
  have done := progress.done
  unfold Done at done
  rw [isAt] at done
  obtain ⟨stocked, initialised, count, bound⟩ := done
  have before : s.WillBeClean := willBeClean_of_goesOn isAt trivial
  have clean_iff :
      s.FailsCleanly cfg (.create succeeds) ↔
        ((i : Int) < cfg.minThreadNum → succeeds = false → i = 0) := by
    unfold FailsCleanly
    simp only [isAt]
  unfold StepsTo
  rw [clean_iff]
  simp only [createStep, isAt] at stepped
  split at stepped
  · next below =>
      split at stepped
      · next works =>
          cases stepped
          have idle := progress.idle
          refine
            ⟨⟨⟨idle.empty, idle.isOpen, idle.unasked, ?_⟩,
                { stocked with }, initialised, ?_, by omega⟩,
              iff_of_true trivial ⟨before, fun _ fails => ?_⟩⟩
          · intro pc member
            rcases List.mem_append.mp member with old | new
            · exact idle.workers pc old
            · rw [List.mem_singleton.mp new]
              trivial
          · show (s.pool.workers ++ [_]).length = i + 1
            rw [List.length_append, count]
            rfl
          · rw [works] at fails
            cases fails
      · next fails =>
          cases stepped
          refine ⟨⟨progress.idle, stocked.used⟩, ?_⟩
          rw [stocked.willBeClean_iff progress.idle, initialised,
            and_iff_right mem_objects, and_iff_right before,
            forall_prop_of_true below,
            forall_prop_of_true (Bool.eq_false_iff.mpr fails), ← count,
            List.length_eq_zero_iff]
  · next finished =>
      cases stepped
      exact
        ⟨⟨progress.idle, { stocked with }, initialised,
            by
              show s.pool.workers.length = _
              omega⟩,
          iff_of_true trivial ⟨before, fun below => absurd below finished⟩⟩

theorem stepsTo_createsAdjust
    (progress : s.Progress cfg) (isAt : s.pc = .createsAdjust)
    (stepped : s.createStep cfg succeeds = some next) :
    StepsTo cfg s next succeeds := by
  have done := progress.done
  unfold Done at done
  rw [isAt] at done
  obtain ⟨stocked, initialised, count⟩ := done
  have before : s.WillBeClean := willBeClean_of_goesOn isAt trivial
  have clean_iff :
      s.FailsCleanly cfg (.create succeeds) ↔
        (succeeds = false → cfg.minThreadNum ≤ 0) := by
    unfold FailsCleanly
    simp only [isAt]
  unfold StepsTo
  rw [clean_iff]
  simp only [createStep, isAt] at stepped
  split at stepped
  · next works =>
      cases stepped
      refine
        ⟨⟨progress.idle, trivial⟩,
          iff_of_true trivial ⟨before, fun fails => ?_⟩⟩
      rw [works] at fails
      cases fails
  · next fails =>
      cases stepped
      refine ⟨⟨progress.idle, stocked.used⟩, ?_⟩
      rw [stocked.willBeClean_iff progress.idle, initialised,
        and_iff_right mem_objects, and_iff_right before,
        forall_prop_of_true (Bool.eq_false_iff.mpr fails),
        ← List.length_eq_zero_iff, count]
      omega

theorem stepsTo_freesQueue
    (progress : s.Progress cfg) (isAt : s.pc = .freesQueue)
    (stepped : s.createStep cfg succeeds = some next) :
    StepsTo cfg s next succeeds := by
  have done := progress.done
  unfold Done at done
  rw [isAt] at done
  simp only [createStep, isAt] at stepped
  cases stepped
  refine ⟨⟨progress.idle, done⟩, ?_⟩
  simp only [WillBeClean, FailsCleanly, isAt, and_true]
  exact Iff.rfl

theorem stepsTo_freesThreads
    (progress : s.Progress cfg) (isAt : s.pc = .freesThreads)
    (stepped : s.createStep cfg succeeds = some next) :
    StepsTo cfg s next succeeds := by
  have used : s.used = [] := by
    have done := progress.done
    unfold Done at done
    rw [isAt] at done
    exact done
  simp only [createStep, isAt] at stepped
  split at stepped
  · next isNull =>
      cases stepped
      refine ⟨⟨progress.idle, trivial⟩, ?_⟩
      simp only [WillBeClean, FailsCleanly, isAt, and_true, used, freedBy,
        isNull, if_true, List.append_nil]
      simp
      exact fun _ => Iff.rfl
  · next notNull =>
      cases stepped
      refine ⟨⟨progress.idle, trivial⟩, ?_⟩
      have all :
          (∀ object ∈ cleanups.map Cleanup.object,
              object ∈ s.initialised) ↔
            ∀ object, object ∈ s.initialised := by
        constructor
        · intro each object
          apply each
          cases object <;> decide
        · exact fun each object _ => each object
      simp only [WillBeClean, FailsCleanly, isAt, and_true, used,
        List.nil_append]
      rw [all, forall_prop_of_true notNull]
      exact Iff.rfl

/-- An object is locked or destroyed. -/
theorem stepsTo_cleans_cons
    {cleanup : Cleanup} {left : List Cleanup} (idle : Idle q)
    (isAt : s.pc = .cleans (cleanup :: left))
    (workers : q.workers = s.pool.workers) :
    StepsTo cfg s
      { s with
        pc := .cleans left
        used := s.used ++ [cleanup.object]
        pool := q } succeeds := by
  refine ⟨⟨idle, trivial⟩, ?_⟩
  simp only [WillBeClean, FailsCleanly, isAt, and_true, List.map_cons,
    List.append_assoc, List.singleton_append, AllEnded, workers]

theorem stepsTo_cleans
    {left : List Cleanup} (progress : s.Progress cfg)
    (isAt : s.pc = .cleans left)
    (stepped : s.createStep cfg succeeds = some next) :
    StepsTo cfg s next succeeds := by
  have idle := progress.idle
  cases left with
  | nil =>
      simp only [createStep, isAt] at stepped
      cases stepped
      refine ⟨⟨idle, trivial⟩, ?_⟩
      simp only [WillBeClean, FailsCleanly, isAt, and_true, List.map_nil,
        List.append_nil]
      exact Iff.rfl
  | cons cleanup left =>
      unfold createStep at stepped
      rw [isAt] at stepped
      by_cases isLock : cleanup = .locks .lock
      · subst isLock
        simp only at stepped
        split at stepped
        · cases stepped
        · cases stepped
          exact
            stepsTo_cleans_cons (q := { s.pool with lock := true })
              { idle with } isAt rfl
      · have stepped :
            some
                { s with
                  pc := .cleans left
                  used := s.used ++ [cleanup.object] } =
              some next := by
          cases cleanup with
          | locks object =>
              cases object with
              | lock => exact absurd rfl isLock
              | threadCounter | queueNotEmpty | queueNotFull =>
                  exact stepped
          | destroys object => exact stepped
        cases stepped
        exact stepsTo_cleans_cons idle isAt rfl

theorem stepsTo_freesPool
    (progress : s.Progress cfg) (isAt : s.pc = .freesPool)
    (stepped : s.createStep cfg succeeds = some next) :
    StepsTo cfg s next succeeds := by
  simp only [createStep, isAt] at stepped
  cases stepped
  refine ⟨⟨progress.idle, trivial⟩, ?_⟩
  simp only [WillBeClean, FailsCleanly, isAt, and_true]
  constructor
  · exact fun clean => ⟨clean.freed, clean.used, clean.ended⟩
  · exact fun clean => ⟨clean.1, clean.2.1, clean.2.2⟩

theorem stepsTo_create
    (progress : s.Progress cfg)
    (stepped : s.createStep cfg succeeds = some next) :
    StepsTo cfg s next succeeds := by
  cases isAt : s.pc with
  | allocatesPool => exact stepsTo_allocatesPool progress isAt stepped
  | allocatesThreads => exact stepsTo_allocatesThreads progress isAt stepped
  | allocatesQueue => exact stepsTo_allocatesQueue progress isAt stepped
  | initialises left => exact stepsTo_initialises progress isAt stepped
  | creates i => exact stepsTo_creates progress isAt stepped
  | createsAdjust => exact stepsTo_createsAdjust progress isAt stepped
  | freesQueue => exact stepsTo_freesQueue progress isAt stepped
  | freesThreads => exact stepsTo_freesThreads progress isAt stepped
  | cleans left => exact stepsTo_cleans progress isAt stepped
  | freesPool => exact stepsTo_freesPool progress isAt stepped
  | returned created =>
      simp only [createStep, isAt] at stepped
      cases stepped

end Steps

theorem step_willBeClean_iff
    (s : Creation) (label : CreationStep) (next : Creation)
    (progress : s.Progress cfg) (stepped : s.step cfg label = some next) :
    next.Progress cfg ∧
      (next.WillBeClean ↔ s.WillBeClean ∧ s.FailsCleanly cfg label) := by
  cases label with
  | create succeeds => exact stepsTo_create progress stepped
  | worker index =>
      obtain ⟨pool, worked, rfl⟩ := Option.map_eq_some_iff.mp stepped
      obtain ⟨kept, same⟩ := progress.worker (idle_worker progress.idle worked)
      exact ⟨kept, same.trans (and_iff_left trivial).symm⟩
  | wakeWorker index =>
      obtain ⟨pool, woken, rfl⟩ := Option.map_eq_some_iff.mp stepped
      obtain ⟨kept, same⟩ :=
        progress.worker (idle_wakeWorker progress.idle woken)
      exact ⟨kept, same.trans (and_iff_left trivial).symm⟩

/-- When `threadpool_create` returns `NULL`, it has cleaned up exactly when
the call that failed was the first one, or the allocation of the array of
threads while `NULL` was found in `task_queue`, or the creation of the first
worker, or that of the manager of a pool without workers. -/
theorem cleaned_up_iff
    {threads taskQueue : Pointer} {labels : List CreationStep}
    {last : Creation}
    (ran : run (step cfg) (start cfg threads taskQueue) labels = some last)
    (failed : last.pc = .returned false) :
    last.CleanedUp ↔
      StepsMeet (step cfg) (FailsCleanly cfg) (start cfg threads taskQueue)
        labels := by
  have clean_iff : last.WillBeClean ↔ last.CleanedUp := by
    unfold WillBeClean
    rw [failed]
  rw [← clean_iff,
    run_good_iff (FailsCleanly cfg) (Progress cfg) WillBeClean
      step_willBeClean_iff (progress_start cfg threads taskQueue) ran]
  exact and_iff_right trivial

/-! ## The pool that is returned -/

/-- The fields when so many workers were started and none has run yet. -/
def withWorkers (cfg : Config) (i : Nat) : Pool :=
  { assigned cfg with
    threads :=
      (List.range i).map some ++
        List.replicate (cfg.maxThreadNum.toNat - i) none
    workers := List.replicate i .locks }

def Built (cfg : Config) (s : Creation) : Prop :=
  match s.pc with
  | .allocatesPool | .allocatesThreads | .allocatesQueue | .initialises _ =>
      s.pool = withWorkers cfg 0
  | .creates i => s.pool = withWorkers cfg i ∧ i ≤ cfg.minThreadNum.toNat
  | .createsAdjust | .returned true =>
      s.pool = withWorkers cfg cfg.minThreadNum.toNat
  | _ => True

theorem threads_set (i left : Nat) :
    ((List.range i).map some ++ List.replicate (left + 1) none).set i
        (some i) =
      (List.range (i + 1)).map some ++ List.replicate left none := by
  have atEnd : ((List.range i).map some).length = i := by simp
  rw [List.set_append_right _ _ (Nat.le_of_eq atEnd), atEnd, Nat.sub_self,
    List.replicate_succ, List.set_cons_zero, List.range_succ,
    List.map_append, List.append_assoc]
  rfl

theorem withWorkers_succ
    {i : Nat} (below : i < cfg.maxThreadNum.toNat) :
    ({ withWorkers cfg i with
        threads := (withWorkers cfg i).threads.set i (some i)
        workers := (withWorkers cfg i).workers ++ [.locks] } : Pool) =
      withWorkers cfg (i + 1) := by
  obtain ⟨left, room⟩ :
      ∃ left, cfg.maxThreadNum.toNat - i = left + 1 :=
    ⟨cfg.maxThreadNum.toNat - i - 1, by omega⟩
  have less : cfg.maxThreadNum.toNat - (i + 1) = left := by omega
  have threads :
      (withWorkers cfg i).threads.set i (some i) =
        (withWorkers cfg (i + 1)).threads := by
    unfold withWorkers
    rw [room, less]
    exact threads_set i left
  have workers :
      (withWorkers cfg i).workers ++ [.locks] =
        (withWorkers cfg (i + 1)).workers :=
    List.replicate_succ'.symm
  rw [threads, workers]
  rfl

/-- A call that succeeds. -/
theorem built_create
    (ordered : cfg.minThreadNum ≤ cfg.maxThreadNum) (built : s.Built cfg)
    (stepped : s.createStep cfg true = some next) : next.Built cfg := by
  rcases s with
    ⟨pc, threads, taskQueue, pool, allocated, freed, initialised, used⟩
  cases pc with
  | allocatesPool =>
      cases stepped
      exact built
  | allocatesThreads | allocatesQueue =>
      simp only [createStep] at stepped
      split at stepped
      · cases stepped
        exact built
      · cases stepped
        trivial
  | initialises left =>
      cases left with
      | nil =>
          cases stepped
          exact ⟨built, Nat.zero_le _⟩
      | cons object left =>
          cases stepped
          exact built
  | creates i =>
      obtain ⟨same, bound⟩ : pool = withWorkers cfg i ∧ _ := built
      subst same
      simp only [createStep] at stepped
      split at stepped
      · next below =>
          cases stepped
          exact ⟨withWorkers_succ (by omega), by omega⟩
      · next finished =>
          cases stepped
          have all : i = cfg.minThreadNum.toNat := by omega
          exact congrArg (withWorkers cfg) all
  | createsAdjust =>
      cases stepped
      exact built
  | freesQueue =>
      cases stepped
      trivial
  | freesThreads =>
      simp only [createStep] at stepped
      split at stepped
      · cases stepped
        trivial
      · cases stepped
        trivial
  | cleans left =>
      cases left with
      | nil =>
          cases stepped
          trivial
      | cons cleanup left =>
          cases cleanup with
          | locks object =>
              cases object with
              | lock =>
                  simp only [createStep] at stepped
                  split at stepped
                  · cases stepped
                  · cases stepped
                    trivial
              | threadCounter | queueNotEmpty | queueNotFull =>
                  cases stepped
                  trivial
          | destroys object =>
              cases stepped
              trivial
  | freesPool =>
      cases stepped
      trivial
  | returned created => cases stepped

theorem built_run
    (ordered : cfg.minThreadNum ≤ cfg.maxThreadNum) {calls : Nat}
    {last : Creation} (built : s.Built cfg)
    (ran :
      run (step cfg) s (List.replicate calls (.create true)) =
        some last) : last.Built cfg := by
  induction calls generalizing s with
  | zero =>
      cases ran
      exact built
  | succ calls inductionHypothesis =>
      obtain ⟨next, stepped, rest⟩ :=
        (run_cons_eq_some_iff s last _ _).mp ran
      exact inductionHypothesis (built_create ordered built stepped) rest

/-- Where every call succeeds before a worker runs, the pool is the one that
the runs of the pool start from. -/
theorem created_of_run
    (ordered : cfg.minThreadNum ≤ cfg.maxThreadNum)
    {threads taskQueue : Pointer} {calls : Nat} {last : Creation}
    (ran :
      run (step cfg) (start cfg threads taskQueue)
        (List.replicate calls (.create true)) = some last)
    (created : last.pc = .returned true) (garbage : List Task) :
    { last.pool with taskQueue := garbage } =
      Pool.created cfg garbage := by
  have built : (start cfg threads taskQueue).Built cfg := rfl
  have same := built_run ordered built ran
  unfold Built at same
  rw [created] at same
  rw [same]
  rfl

def secondWorkerFails : List CreationStep :=
  List.replicate 9 (.create true) ++ List.replicate 11 (.create false)

/-- The first worker goes on to lock a mutex in the pool that is gone. -/
theorem not_cleaned_up :
    ∃ last,
      run (step ⟨2, 4, 10⟩) (start ⟨2, 4, 10⟩ .null .null)
          secondWorkerFails = some last ∧
        last.pc = .returned false ∧ last.pool.workers = [.locks] ∧
        ¬ last.CleanedUp := by
  refine ⟨_, rfl, rfl, rfl, fun clean => ?_⟩
  have ended := clean.ended .locks (by decide)
  cases ended

def firstWorkerFails : List CreationStep :=
  List.replicate 8 (.create true) ++ List.replicate 11 (.create false)

theorem cleaned_up_first_worker :
    ∃ last,
      run (step ⟨2, 4, 10⟩) (start ⟨2, 4, 10⟩ .null .null)
          firstWorkerFails = some last ∧
        (last.CleanedUp ↔
          StepsMeet (step ⟨2, 4, 10⟩) (FailsCleanly ⟨2, 4, 10⟩)
            (start ⟨2, 4, 10⟩ .null .null) firstWorkerFails) := by
  have ran :
      run (step ⟨2, 4, 10⟩) (start ⟨2, 4, 10⟩ .null .null)
        firstWorkerFails = some _ := rfl
  exact ⟨_, ran, cleaned_up_iff ran rfl⟩

end Creation

end LinuxNet.ThreadPool
