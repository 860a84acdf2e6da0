import Mathlib.Tactic.ByContra
import LinuxNet.Lib.StepSystem
import LinuxNet.Lib.Threads

/-!
# The pool and its detached workers

The life of a `threadpool` object, from its constructor to its destructor,
with the workers it starts.  The workers are detached: nobody waits for them,
neither the constructor when it throws half-way nor the destructor after it
has set `m_stop`.  `pool_lifetime` says when this goes well: when each worker
that was started has ended before the object goes.  Otherwise some
continuation of the run lets a worker use the members of an object that is
gone.

A section under `m_queuelocker`, a `post` and a `wait` are one step each.
-/

namespace LinuxNet.WebServer

open LinuxNet.StepSystem LinuxNet.Threads

inductive OwnerPc where
  /-- At `new pthread_t[thread_number]`. -/
  | allocating
  /-- At `pthread_create` of an iteration, or at the end of the loop. -/
  | creating (iteration : Nat)
  | detaching (iteration : Nat)
  /-- The constructor is about to throw. -/
  | failing
  | ready
  /-- In `append`, behind the section of the queue. -/
  | posting
  /-- In the destructor, behind `m_stop = true`. -/
  | stopped
  /-- The constructor has thrown or the destructor has returned. -/
  | gone
  deriving DecidableEq, Repr

inductive DetachedPc (T : Type) where
  /-- At the condition of the loop. -/
  | checking
  | waiting
  /-- `wait` has returned, the section of the queue comes next. -/
  | waited
  | processing (request : T)
  | ended

/-- The object, its owner and its workers.  `touched` tells whether a worker
has used a member of an object that was gone. -/
structure Lifetime (T : Type) where
  threadNumber : Int
  maxRequests : Int
  stop : Bool
  workqueue : List (Option T)
  queuestat : Nat
  owner : OwnerPc
  workers : List (DetachedPc T)
  touched : Bool

inductive LifetimeStep (T : Type) where
  | allocate (succeeds : Bool)
  | create (succeeds : Bool)
  | detach (succeeds : Bool)
  /-- The loop ends, and the constructor returns. -/
  | construct
  | throw
  | push (request : Option T)
  | post
  /-- The body of the destructor. -/
  | destroy
  /-- The members are destroyed, and the destructor returns. -/
  | release
  | check (worker : Nat)
  /-- `wait` returns, with a token or because a signal interrupted it. -/
  | wait (worker : Nat) (interrupted : Bool)
  | pop (worker : Nat)
  /-- `process` returns. -/
  | finish (worker : Nat)

namespace Lifetime

variable {T : Type}

/-- The constructor is entered. -/
def start (threadNumber maxRequests : Int) : Lifetime T where
  threadNumber := threadNumber
  maxRequests := maxRequests
  stop := false
  workqueue := []
  queuestat := 0
  owner := .allocating
  workers := []
  touched := false

def touch (s : Lifetime T) (worker : Nat) (pc : DetachedPc T) : Lifetime T :=
  { s with
    workers := s.workers.set worker pc
    touched := s.touched || decide (s.owner = .gone) }

/-- The section of `run`. -/
def pop (s : Lifetime T) (worker : Nat) : Lifetime T :=
  match s.workqueue with
  | [] => s.touch worker .checking
  | none :: rest => { s.touch worker .checking with workqueue := rest }
  | some request :: rest =>
      { s.touch worker (.processing request) with workqueue := rest }

def step (s : Lifetime T) : LifetimeStep T → Option (Lifetime T)
  | .allocate succeeds =>
      if s.owner = .allocating then
        -- a negative number throws `std::bad_array_new_length`
        if succeeds ∧ 0 ≤ s.threadNumber then
          some { s with owner := .creating 0 }
        else
          some { s with owner := .gone }
      else
        none
  | .create succeeds =>
      match s.owner with
      | .creating iteration =>
          if (iteration : Int) < s.threadNumber then
            if succeeds then
              some
                { s with
                  owner := .detaching iteration
                  workers := s.workers ++ [.checking] }
            else
              some { s with owner := .failing }
          else
            none
      | _ => none
  | .detach succeeds =>
      match s.owner with
      | .detaching iteration =>
          if succeeds then
            some { s with owner := .creating (iteration + 1) }
          else
            some { s with owner := .failing }
      | _ => none
  | .construct =>
      match s.owner with
      | .creating iteration =>
          if (iteration : Int) < s.threadNumber then
            none
          else
            some { s with owner := .ready }
      | _ => none
  | .throw =>
      if s.owner = .failing then some { s with owner := .gone } else none
  | .push request =>
      if s.owner = .ready then
        -- `size()` is compared with the limit modulo `2 ^ 64`
        if (s.maxRequests % 18446744073709551616).toNat <
            s.workqueue.length then
          some s
        else
          some
            { s with
              workqueue := s.workqueue ++ [request]
              owner := .posting }
      else
        none
  | .post =>
      if s.owner = .posting then
        some { s with queuestat := s.queuestat + 1, owner := .ready }
      else
        none
  | .destroy =>
      if s.owner = .ready then
        some { s with stop := true, owner := .stopped }
      else
        none
  | .release =>
      if s.owner = .stopped then some { s with owner := .gone } else none
  | .check worker =>
      match s.workers[worker]? with
      | some .checking =>
          some (s.touch worker (if s.stop then .ended else .waiting))
      | _ => none
  | .wait worker interrupted =>
      match s.workers[worker]? with
      | some .waiting =>
          if interrupted then
            some (s.touch worker .waited)
          else if 0 < s.queuestat then
            some { s.touch worker .waited with queuestat := s.queuestat - 1 }
          else
            none
      | _ => none
  | .pop worker =>
      match s.workers[worker]? with
      | some .waited => some (s.pop worker)
      | _ => none
  | .finish worker =>
      match s.workers[worker]? with
      | some (.processing _) =>
          some { s with workers := s.workers.set worker .checking }
      | _ => none

/-- No worker has used a member of an object that was gone. -/
def Untouched (s : Lifetime T) : Prop :=
  s.touched = false

def AllEnded (s : Lifetime T) : Prop :=
  ∀ pc ∈ s.workers, pc = .ended

/-- When the object goes, all its workers have ended. -/
def GoesLast (s : Lifetime T) : LifetimeStep T → Prop
  | .throw | .release => s.AllEnded
  | _ => True

variable {s next : Lifetime T}

/-- Nothing went wrong so far, and no worker is left when the object is
gone. -/
structure Safe (s : Lifetime T) : Prop where
  untouched : s.touched = false
  allEnded : s.owner = .gone → s.AllEnded
  unstarted : s.owner = .allocating → s.workers = []

theorem safe_start (threadNumber maxRequests : Int) :
    (start threadNumber maxRequests : Lifetime T).Safe :=
  ⟨rfl, (fun gone => nomatch gone), fun _ => rfl⟩

/-- Nothing can be wrong before the object is gone. -/
theorem safe_of_ne
    (untouched : s.touched = false) (notGone : s.owner ≠ .gone)
    (notAllocating : s.owner ≠ .allocating) : s.Safe :=
  ⟨untouched, fun gone => absurd gone notGone,
    fun allocating => absurd allocating notAllocating⟩

/-- A worker that has not ended keeps the object from being gone. -/
theorem Safe.not_gone
    {worker : Nat} {pc : DetachedPc T} (safe : s.Safe)
    (isAt : s.workers[worker]? = some pc) (alive : pc ≠ .ended) :
    s.owner ≠ .gone ∧ s.owner ≠ .allocating := by
  constructor
  · exact fun gone => alive (safe.allEnded gone pc (mem_of_at isAt))
  · intro allocating
    rw [safe.unstarted allocating] at isAt
    cases isAt

theorem Safe.touch
    {worker : Nat} {pc : DetachedPc T} (safe : s.Safe)
    (isAt : s.workers[worker]? = some pc) (alive : pc ≠ .ended)
    (new : DetachedPc T) : (s.touch worker new).Safe := by
  obtain ⟨notGone, notAllocating⟩ := safe.not_gone isAt alive
  refine safe_of_ne ?_ notGone notAllocating
  show (s.touched || decide (s.owner = .gone)) = false
  rw [safe.untouched, decide_eq_false notGone]
  rfl

theorem safe_step
    {label : LifetimeStep T} (safe : s.Safe) (goesLast : s.GoesLast label)
    (stepped : s.step label = some next) : next.Safe := by
  have untouched := safe.untouched
  cases label with
  | allocate succeeds =>
      simp only [step] at stepped
      split at stepped
      · next allocating =>
          have none := safe.unstarted allocating
          split at stepped
          · cases stepped
            exact safe_of_ne untouched (by simp) (by simp)
          · cases stepped
            refine ⟨untouched, fun _ pc member => ?_, fun _ => none⟩
            have inEmpty : pc ∈ s.workers := member
            rw [none] at inEmpty
            cases inEmpty
      · cases stepped
  | create succeeds =>
      simp only [step] at stepped
      split at stepped
      · split at stepped
        · split at stepped
          · cases stepped
            exact safe_of_ne untouched (by simp) (by simp)
          · cases stepped
            exact safe_of_ne untouched (by simp) (by simp)
        · cases stepped
      · cases stepped
  | detach succeeds =>
      simp only [step] at stepped
      split at stepped
      · split at stepped
        · cases stepped
          exact safe_of_ne untouched (by simp) (by simp)
        · cases stepped
          exact safe_of_ne untouched (by simp) (by simp)
      · cases stepped
  | construct =>
      simp only [step] at stepped
      split at stepped
      · split at stepped
        · cases stepped
        · cases stepped
          exact safe_of_ne untouched (by simp) (by simp)
      · cases stepped
  | throw | release =>
      simp only [step] at stepped
      split at stepped
      · cases stepped
        exact
          ⟨untouched, fun _ => goesLast,
            (fun allocating => nomatch allocating)⟩
      · cases stepped
  | push request =>
      simp only [step] at stepped
      split at stepped
      · split at stepped
        · cases stepped
          exact safe
        · cases stepped
          exact safe_of_ne untouched (by simp) (by simp)
      · cases stepped
  | post | destroy =>
      simp only [step] at stepped
      split at stepped
      · cases stepped
        exact safe_of_ne untouched (by simp) (by simp)
      · cases stepped
  | check worker =>
      simp only [step] at stepped
      split at stepped
      · next isAt =>
          cases stepped
          exact safe.touch isAt (by simp) _
      · cases stepped
  | wait worker interrupted =>
      simp only [step] at stepped
      split at stepped
      · next isAt =>
          have waited := safe.touch isAt (by simp) .waited
          split at stepped
          · cases stepped
            exact waited
          · split at stepped
            · cases stepped
              exact { waited with }
            · cases stepped
      · cases stepped
  | pop worker =>
      simp only [step] at stepped
      split at stepped
      · next isAt =>
          cases stepped
          unfold pop
          split
          · exact safe.touch isAt (by simp) .checking
          · exact { safe.touch isAt (by simp) .checking with }
          · next request rest _ =>
              exact { safe.touch isAt (by simp) (.processing request) with }
      · cases stepped
  | finish worker =>
      simp only [step] at stepped
      split at stepped
      · next isAt =>
          cases stepped
          obtain ⟨notGone, notAllocating⟩ := safe.not_gone isAt (by simp)
          exact safe_of_ne untouched notGone notAllocating
      · cases stepped

/-! ## Runs in which a worker is left -/

/-- The object is gone, and a worker is left or has used it already. -/
def Doomed (s : Lifetime T) : Prop :=
  s.owner = .gone ∧ (s.touched = true ∨ ∃ pc ∈ s.workers, pc ≠ .ended)

theorem doomed_of_touch
    (gone : s.owner = .gone) (worker : Nat) (pc : DetachedPc T) :
    (s.touch worker pc).touched = true := by
  show (s.touched || decide (s.owner = .gone)) = true
  rw [decide_eq_true gone, Bool.or_true]

theorem pop_touched (gone : s.owner = .gone) (worker : Nat) :
    (s.pop worker).touched = true ∧ (s.pop worker).owner = .gone := by
  unfold pop
  split
  · exact ⟨doomed_of_touch gone worker .checking, gone⟩
  · exact ⟨doomed_of_touch gone worker .checking, gone⟩
  · next request rest _ =>
      exact ⟨doomed_of_touch gone worker (.processing request), gone⟩

theorem doomed_step
    {label : LifetimeStep T} (doomed : s.Doomed)
    (stepped : s.step label = some next) : next.Doomed := by
  obtain ⟨gone, left⟩ := doomed
  cases label with
  | allocate | throw | push | post | destroy | release =>
      simp only [step, gone, reduceCtorEq, if_false] at stepped
  | create | detach | construct =>
      simp only [step, gone, reduceCtorEq] at stepped
  | check worker =>
      simp only [step] at stepped
      split at stepped
      · cases stepped
        exact ⟨gone, .inl (doomed_of_touch gone _ _)⟩
      · cases stepped
  | wait worker interrupted =>
      simp only [step] at stepped
      split at stepped
      · split at stepped
        · cases stepped
          exact ⟨gone, .inl (doomed_of_touch gone worker .waited)⟩
        · split at stepped
          · cases stepped
            exact ⟨gone, .inl (doomed_of_touch gone worker .waited)⟩
          · cases stepped
      · cases stepped
  | pop worker =>
      simp only [step] at stepped
      split at stepped
      · cases stepped
        obtain ⟨touched, stillGone⟩ := pop_touched gone worker
        exact ⟨stillGone, .inl touched⟩
      · cases stepped
  | finish worker =>
      simp only [step] at stepped
      split at stepped
      · next isAt =>
          cases stepped
          exact
            ⟨gone, .inr ⟨.checking, mem_set_self isAt .checking, by simp⟩⟩
      · cases stepped

theorem doomed_of_not_goesLast
    {label : LifetimeStep T} (stepped : s.step label = some next)
    (broken : ¬ s.GoesLast label) : next.Doomed := by
  have left :
      ¬ s.AllEnded → ∃ pc ∈ s.workers, pc ≠ .ended := by
    intro notAll
    obtain ⟨pc, notEnded⟩ := Classical.not_forall.mp notAll
    exact ⟨pc, Classical.not_imp.mp notEnded⟩
  cases label with
  | throw | release =>
      simp only [step] at stepped
      split at stepped
      · cases stepped
        exact ⟨rfl, .inr (left broken)⟩
      · cases stepped
  | allocate | create | detach | construct | push | post | destroy | check
  | wait | pop | finish => exact absurd trivial broken

theorem exists_run_of_step
    {label : LifetimeStep T} (stepped : s.step label = some next)
    (touched : next.touched = true) :
    ∃ later last, run step s later = some last ∧ last.touched = true := by
  refine ⟨[label], next, ?_, touched⟩
  rw [run_cons_eq_some_iff]
  exact ⟨next, stepped, rfl⟩

theorem exists_touched_of_checking
    {worker : Nat} (gone : s.owner = .gone)
    (isAt : s.workers[worker]? = some .checking) :
    ∃ later last, run step s later = some last ∧ last.touched = true := by
  have stepped :
      s.step (.check worker) =
        some (s.touch worker (if s.stop then .ended else .waiting)) := by
    simp only [step, isAt]
  exact exists_run_of_step stepped (doomed_of_touch gone worker _)

/-- A worker that is left will use the object that is gone. -/
theorem exists_touched_of_doomed (doomed : s.Doomed) :
    ∃ later last, run step s later = some last ∧ last.touched = true := by
  obtain ⟨gone, touched | ⟨pc, member, alive⟩⟩ := doomed
  · exact ⟨[], s, rfl, touched⟩
  obtain ⟨worker, isAt⟩ := List.mem_iff_getElem?.mp member
  cases pc with
  | ended => exact absurd rfl alive
  | checking => exact exists_touched_of_checking gone isAt
  | waiting =>
      have stepped :
          s.step (.wait worker true) = some (s.touch worker .waited) := by
        simp only [step, isAt, if_true]
      exact exists_run_of_step stepped (doomed_of_touch gone worker .waited)
  | waited =>
      have stepped : s.step (.pop worker) = some (s.pop worker) := by
        simp only [step, isAt]
      exact exists_run_of_step stepped (pop_touched gone worker).1
  | processing request =>
      have finished :
          s.step (.finish worker) =
            some { s with workers := s.workers.set worker .checking } := by
        simp only [step, isAt]
      obtain ⟨later, last, ran, touched⟩ :
          ∃ later last,
            run step
                { s with workers := s.workers.set worker .checking } later =
              some last ∧ last.touched = true :=
        exists_touched_of_checking gone (at_set_self isAt .checking)
      refine ⟨.finish worker :: later, last, ?_, touched⟩
      rw [run_cons_eq_some_iff]
      exact ⟨_, finished, ran⟩

/-- In a run in which all workers have ended whenever the constructor throws
or the destructor returns, no worker uses the members of an object that is
gone.  A run in which one is left goes on to a state in which it has used
them. -/
theorem pool_lifetime
    {threadNumber maxRequests : Int} {labels : List (LifetimeStep T)}
    {last : Lifetime T}
    (ran : run step (start threadNumber maxRequests) labels = some last) :
    (StepsMeet step GoesLast (start threadNumber maxRequests) labels →
        Throughout step Untouched (start threadNumber maxRequests)
          labels) ∧
      (¬ StepsMeet step GoesLast (start threadNumber maxRequests) labels →
        ∃ later final, run step last later = some final ∧
          ¬ final.Untouched) := by
  constructor
  · exact
      throughout_of_keeps Safe (fun _ safe => safe.untouched)
        (fun _ _ _ safe goesLast stepped => safe_step safe goesLast stepped)
        (safe_start threadNumber maxRequests)
  · intro broken
    have doomed : last.Doomed :=
      doomed_of_not_stepsMeet Doomed
        (fun _ _ _ stepped broken => doomed_of_not_goesLast stepped broken)
        (fun _ _ _ doomed stepped => doomed_step doomed stepped) ran broken
    obtain ⟨later, final, ranLater, touched⟩ :=
      exists_touched_of_doomed doomed
    refine ⟨later, final, ranLater, fun untouched => ?_⟩
    rw [untouched] at touched
    cases touched

/-- A pool of two workers; the second thread is not created. -/
def secondFails : List (LifetimeStep Nat) :=
  [.allocate true, .create true, .detach true, .create false, .throw]

/-- The constructor throws, and the first worker looks at `m_stop`. -/
theorem pool_lifetime_broken :
    ∃ last final : Lifetime Nat,
      run step (start 2 10000) secondFails = some last ∧
        run step last [.check 0] = some final ∧ ¬ final.Untouched :=
  ⟨_, _, rfl, rfl, fun untouched => nomatch untouched⟩

/-- A pool of one worker, which comes to the end of its loop before the
destructor returns. -/
def oneWorker : List (LifetimeStep Nat) :=
  [.allocate true, .create true, .detach true, .construct, .destroy, .check 0,
    .release]

theorem pool_lifetime_one_worker :
    ∃ last : Lifetime Nat,
      run step (start 1 10000) oneWorker = some last ∧
        StepsMeet step GoesLast (start 1 10000) oneWorker ∧
        ((StepsMeet step GoesLast (start 1 10000) oneWorker →
            Throughout step Untouched (start 1 10000) oneWorker) ∧
          (¬ StepsMeet step GoesLast (start 1 10000) oneWorker →
            ∃ later final, run step last later = some final ∧
              ¬ final.Untouched)) := by
  have ran :
      run step (start 1 10000) oneWorker = some (_ : Lifetime Nat) := rfl
  refine ⟨_, ran, ?_, pool_lifetime ran⟩
  by_contra broken
  have doomed :=
    doomed_of_not_stepsMeet Doomed
      (fun _ _ _ stepped broken => doomed_of_not_goesLast stepped broken)
      (fun _ _ _ doomed stepped => doomed_step doomed stepped) ran broken
  obtain ⟨_, touched | ⟨pc, member, alive⟩⟩ := doomed
  · cases touched
  · have one : pc ∈ [DetachedPc.ended] := member
    exact alive (List.mem_singleton.mp one)

end Lifetime

end LinuxNet.WebServer
