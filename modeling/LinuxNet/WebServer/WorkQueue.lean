import LinuxNet.Lib.StepSystem
import LinuxNet.Lib.Threads

/-!
# The request queue of `threadpool`

Calls of `append` and workers in `run` over one queue and one semaphore.  A
section under `m_queuelocker`, a `post` and a `wait` are one step each.  The
pool is not destroyed, so `m_stop` stays false, and `sem_post` does not
overflow.

The number of requests in the queue is bounded by the tokens: those in the
semaphore, those of the workers that have waited and not yet popped, and
those that a call of `append` still has to post.
-/

namespace LinuxNet.WebServer

open LinuxNet.StepSystem LinuxNet.Threads

/-- Where a call of `append` stands.  A request is a pointer, null is
`none`. -/
inductive AppendPc (T : Type) where
  | called (request : Option T)
  /-- The request is in the queue, `post` comes next. -/
  | pushed
  | returned (appended : Bool)

/-- Where a worker in `run` stands. -/
inductive RunPc (T : Type) where
  | waiting
  /-- `wait` has returned, the section of the queue comes next. -/
  | waited
  | processing (request : T)

structure Threadpool (T : Type) where
  maxRequests : Int
  workqueue : List (Option T)
  queuestat : Nat
  appends : List (AppendPc T)
  workers : List (RunPc T)
  pushed : List (Option T)
  popped : List (Option T)

/-- A step of the environment, of a call of `append` or of a worker. -/
inductive PoolStep (T : Type) where
  | call (request : Option T)
  | push (index : Nat)
  | post (index : Nat)
  /-- `wait` returns, with a token or because a signal interrupted it. -/
  | wait (worker : Nat) (interrupted : Bool)
  | pop (worker : Nat)
  /-- `process` returns. -/
  | finish (worker : Nat)

namespace Threadpool

variable {T : Type}

/-- `m_max_requests` as the comparison with `size()` converts it, modulo
`2 ^ 64`. -/
def limit (s : Threadpool T) : Nat :=
  (s.maxRequests % 18446744073709551616).toNat

/-- The section of `append`. -/
def push (s : Threadpool T) (index : Nat) (request : Option T) :
    Threadpool T :=
  if s.limit < s.workqueue.length then
    { s with appends := s.appends.set index (.returned false) }
  else
    { s with
      workqueue := s.workqueue ++ [request]
      appends := s.appends.set index .pushed
      pushed := s.pushed ++ [request] }

/-- The section of `run`. -/
def pop (s : Threadpool T) (worker : Nat) : Threadpool T :=
  match s.workqueue with
  | [] => { s with workers := s.workers.set worker .waiting }
  | request :: rest =>
      { s with
        workqueue := rest
        workers :=
          s.workers.set worker
            (match request with
            | none => .waiting
            | some request => .processing request)
        popped := s.popped ++ [request] }

def step (s : Threadpool T) : PoolStep T → Option (Threadpool T)
  | .call request => some { s with appends := s.appends ++ [.called request] }
  | .push index =>
      match s.appends[index]? with
      | some (.called request) => some (s.push index request)
      | _ => none
  | .post index =>
      match s.appends[index]? with
      | some .pushed =>
          some
            { s with
              queuestat := s.queuestat + 1
              appends := s.appends.set index (.returned true) }
      | _ => none
  | .wait worker interrupted =>
      match s.workers[worker]? with
      | some .waiting =>
          if interrupted then
            some { s with workers := s.workers.set worker .waited }
          else if 0 < s.queuestat then
            some
              { s with
                queuestat := s.queuestat - 1
                workers := s.workers.set worker .waited }
          else
            none
      | _ => none
  | .pop worker =>
      match s.workers[worker]? with
      | some .waited => some (s.pop worker)
      | _ => none
  | .finish worker =>
      match s.workers[worker]? with
      | some (.processing _) =>
          some { s with workers := s.workers.set worker .waiting }
      | _ => none

/-- A new pool with its workers, and no call of `append` yet. -/
def Started (s : Threadpool T) : Prop :=
  ∃ (maxRequests : Int) (threadNumber : Nat),
    s = ⟨maxRequests, [], 0, [], List.replicate threadNumber .waiting, [], []⟩

end Threadpool

def AppendPc.isPushed {T : Type} : AppendPc T → Bool
  | .pushed => true
  | _ => false

def RunPc.isWaited {T : Type} : RunPc T → Bool
  | .waited => true
  | _ => false

namespace Threadpool

variable {T : Type} {s next : Threadpool T}

def tokens (s : Threadpool T) : Nat :=
  s.queuestat + s.workers.countP RunPc.isWaited +
    s.appends.countP AppendPc.isPushed

/-- Nothing is lost between `append` and `run`. -/
structure Accounted (s : Threadpool T) : Prop where
  inOrder : s.pushed = s.popped ++ s.workqueue
  covered : s.workqueue.length ≤ s.tokens

theorem accounted_of_started (started : s.Started) : s.Accounted := by
  obtain ⟨maxRequests, threadNumber, rfl⟩ := started
  exact ⟨rfl, Nat.zero_le _⟩

theorem accounted_push
    {index : Nat} {request : Option T} (accounted : s.Accounted)
    (isAt : s.appends[index]? = some (.called request)) :
    (s.push index request).Accounted := by
  have covered := accounted.covered
  unfold tokens at covered
  unfold push
  by_cases full : s.limit < s.workqueue.length
  · rw [if_pos full]
    have counted := countP_set_add AppendPc.isPushed isAt (.returned false)
    refine ⟨accounted.inOrder, ?_⟩
    unfold tokens
    simp only [AppendPc.isPushed, Bool.toNat_false] at counted ⊢
    omega
  · rw [if_neg full]
    have counted := countP_set_add AppendPc.isPushed isAt .pushed
    refine ⟨?_, ?_⟩
    · show s.pushed ++ [request] = s.popped ++ (s.workqueue ++ [request])
      rw [accounted.inOrder, List.append_assoc]
    · unfold tokens
      simp only [AppendPc.isPushed, Bool.toNat_false, Bool.toNat_true,
        List.length_append, List.length_singleton] at counted ⊢
      omega

theorem accounted_post
    {index : Nat} (accounted : s.Accounted)
    (isAt : s.appends[index]? = some .pushed) :
    Accounted
      { s with
        queuestat := s.queuestat + 1
        appends := s.appends.set index (.returned true) } := by
  have covered := accounted.covered
  have counted := countP_set_add AppendPc.isPushed isAt (.returned true)
  unfold tokens at covered
  refine ⟨accounted.inOrder, ?_⟩
  unfold tokens
  simp only [AppendPc.isPushed, Bool.toNat_false, Bool.toNat_true]
    at counted ⊢
  omega

/-- A worker that has waited brings its token along, if it took one. -/
theorem accounted_wait
    {worker queuestat : Nat} (accounted : s.Accounted)
    (isAt : s.workers[worker]? = some .waiting)
    (taken : s.queuestat ≤ queuestat + 1) :
    Accounted
      { s with
        queuestat := queuestat
        workers := s.workers.set worker .waited } := by
  have covered := accounted.covered
  have counted := countP_set_add RunPc.isWaited isAt .waited
  unfold tokens at covered
  refine ⟨accounted.inOrder, ?_⟩
  unfold tokens
  simp only [RunPc.isWaited, Bool.toNat_false, Bool.toNat_true]
    at counted ⊢
  omega

/-- A pop uses up one token and one request, if there is one. -/
theorem accounted_pop
    {worker : Nat} (accounted : s.Accounted)
    (isAt : s.workers[worker]? = some .waited) :
    (s.pop worker).Accounted := by
  have covered := accounted.covered
  have inOrder := accounted.inOrder
  unfold tokens at covered
  unfold pop
  cases queue : s.workqueue with
  | nil =>
      rw [queue] at inOrder
      exact ⟨inOrder, Nat.zero_le _⟩
  | cons request rest =>
      have moved :
          ∀ after : RunPc T, after.isWaited = false →
            (s.workers.set worker after).countP RunPc.isWaited + 1 =
              s.workers.countP RunPc.isWaited := by
        intro after elsewhere
        have counted := countP_set_add RunPc.isWaited isAt after
        rw [elsewhere] at counted
        exact counted
      rw [queue] at inOrder covered
      refine ⟨?_, ?_⟩
      · show s.pushed = s.popped ++ [request] ++ rest
        rw [inOrder, List.append_assoc, List.singleton_append]
      · unfold tokens
        simp only [List.length_cons] at covered ⊢
        cases request with
        | none =>
            have counted := moved .waiting rfl
            simp only
            omega
        | some request =>
            have counted := moved (.processing request) rfl
            simp only
            omega

theorem accounted_finish
    {worker : Nat} {request : T} (accounted : s.Accounted)
    (isAt : s.workers[worker]? = some (.processing request)) :
    Accounted { s with workers := s.workers.set worker .waiting } := by
  have covered := accounted.covered
  have counted := countP_set_add RunPc.isWaited isAt .waiting
  unfold tokens at covered
  refine ⟨accounted.inOrder, ?_⟩
  unfold tokens
  simp only [RunPc.isWaited, Bool.toNat_false] at counted ⊢
  omega

theorem accounted_step
    {label : PoolStep T} (accounted : s.Accounted)
    (stepped : s.step label = some next) : next.Accounted := by
  cases label with
  | call request =>
      cases stepped
      refine ⟨accounted.inOrder, ?_⟩
      have covered := accounted.covered
      simp only [tokens, List.countP_append] at covered ⊢
      omega
  | push index =>
      simp only [step] at stepped
      split at stepped
      · next request isAt =>
          cases stepped
          exact accounted_push accounted isAt
      · cases stepped
  | post index =>
      simp only [step] at stepped
      split at stepped
      · next isAt =>
          cases stepped
          exact accounted_post accounted isAt
      · cases stepped
  | wait worker interrupted =>
      simp only [step] at stepped
      split at stepped
      · next isAt =>
          split at stepped
          · cases stepped
            exact accounted_wait accounted isAt (Nat.le_succ _)
          · split at stepped
            · cases stepped
              exact accounted_wait accounted isAt (by omega)
            · cases stepped
      · cases stepped
  | pop worker =>
      simp only [step] at stepped
      split at stepped
      · next isAt =>
          cases stepped
          exact accounted_pop accounted isAt
      · cases stepped
  | finish worker =>
      simp only [step] at stepped
      split at stepped
      · next request isAt =>
          cases stepped
          exact accounted_finish accounted isAt
      · cases stepped

/-- In every reachable state the requests popped are the requests pushed, in
order and up to the ones in the queue; and while there is a request in the
queue, a token is in the semaphore, or with a worker that will pop, or with a
call of `append` that will post. -/
theorem popped_in_order_and_token_left
    (s : Threadpool T) (reachable : Reachable Started step s) :
    s.pushed = s.popped ++ s.workqueue ∧
      (s.workqueue ≠ [] →
        0 < s.queuestat ∨
          (∃ worker : Nat, s.workers[worker]? = some .waited) ∨
            ∃ index : Nat, s.appends[index]? = some .pushed) := by
  obtain ⟨first, labels, started, ran⟩ := reachable
  have accounted : s.Accounted :=
    run_keeps Accounted
      (fun _ _ _ holds stepped => accounted_step holds stepped)
      (accounted_of_started started) ran
  refine ⟨accounted.inOrder, fun notEmpty => ?_⟩
  have covered := accounted.covered
  have length := List.length_pos_iff.mpr notEmpty
  unfold tokens at covered
  by_cases posted : 0 < s.queuestat
  · exact Or.inl posted
  by_cases waited : 0 < s.workers.countP RunPc.isWaited
  · obtain ⟨pc, member, isWaited⟩ := List.countP_pos_iff.mp waited
    obtain ⟨worker, isAt⟩ := List.mem_iff_getElem?.mp member
    cases pc with
    | waited => exact Or.inr (Or.inl ⟨worker, isAt⟩)
    | waiting | processing => cases isWaited
  · have pending : 0 < s.appends.countP AppendPc.isPushed := by
      omega
    obtain ⟨pc, member, isPushed⟩ := List.countP_pos_iff.mp pending
    obtain ⟨index, isAt⟩ := List.mem_iff_getElem?.mp member
    cases pc with
    | pushed => exact Or.inr (Or.inr ⟨index, isAt⟩)
    | called | returned => cases isPushed

def onePushed : Threadpool Nat :=
  ⟨10, [some 7], 0, [.pushed], [.waiting], [some 7], []⟩

theorem popped_in_order_one_pushed :
    onePushed.pushed = onePushed.popped ++ onePushed.workqueue ∧
      (onePushed.workqueue ≠ [] →
        0 < onePushed.queuestat ∨
          (∃ worker : Nat, onePushed.workers[worker]? = some .waited) ∨
            ∃ index : Nat, onePushed.appends[index]? = some .pushed) :=
  popped_in_order_and_token_left onePushed
    ⟨⟨10, [], 0, [], [.waiting], [], []⟩, [.call (some 7), .push 0],
      ⟨10, 1, rfl⟩, rfl⟩

end Threadpool

end LinuxNet.WebServer
