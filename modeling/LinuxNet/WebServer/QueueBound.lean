import LinuxNet.Lib.CInt
import LinuxNet.WebServer.WorkQueue

/-!
# The bound on the request queue

The constructor of `threadpool` writes `std::exception();` where it means to
throw, so it returns pools for any arguments but a negative number of threads,
for which `new` throws.  `append` refuses a request only behind more than
`m_max_requests` others.  `queue_bounded_iff` says which runs keep the bound
that the constructor and `append` are there for.
-/

namespace LinuxNet.WebServer

open LinuxNet.CInt LinuxNet.StepSystem LinuxNet.Threads

namespace Threadpool

variable {T : Type}

/-- The constructor, when every thread is created and detached: the pool it
returns, or nothing when it throws. -/
def construct (threadNumber maxRequests : Int) : Option (Threadpool T) :=
  -- the exceptions made of non-positive arguments are not thrown
  if threadNumber < 0 then
    -- `std::bad_array_new_length`
    none
  else
    some
      ⟨maxRequests, [], 0, [],
        List.replicate threadNumber.toNat .waiting, [], []⟩

/-- The limit is positive, and the queue within it. -/
def Bounded (s : Threadpool T) : Prop :=
  0 < s.maxRequests ∧ (s.workqueue.length : Int) ≤ s.maxRequests

/-- `append` returns false exactly on a full queue, and then it leaves the
queue and the semaphore alone. -/
def AppendsInBound (s : Threadpool T) : PoolStep T → Prop
  | .push index =>
      ∀ next, s.step (.push index) = some next →
        (next.appends[index]? = some (.returned false) ↔
          (s.workqueue.length : Int) = s.maxRequests) ∧
        (next.appends[index]? = some (.returned false) →
          next.workqueue = s.workqueue ∧ next.queuestat = s.queuestat)
  | _ => True

/-- `append` finds fewer requests in the queue than the limit. -/
def HasRoom (s : Threadpool T) : PoolStep T → Prop
  | .push _ => (s.workqueue.length : Int) < s.maxRequests
  | _ => True

variable {s next : Threadpool T} {maxRequests : Int}

/-- What a step does to the queue: `append` may add a request, and the others
make it no longer. -/
theorem length_step
    {label : PoolStep T} (stepped : s.step label = some next) :
    next.maxRequests = s.maxRequests ∧
      ((∃ index request, label = .push index ∧
          s.appends[index]? = some (.called request) ∧
          next = s.push index request) ∨
        next.workqueue.length ≤ s.workqueue.length ∧ s.HasRoom label) := by
  cases label with
  | call request =>
      cases stepped
      exact ⟨rfl, .inr ⟨Nat.le_refl _, trivial⟩⟩
  | push index =>
      simp only [step] at stepped
      split at stepped
      · next request isAt =>
          cases stepped
          refine ⟨?_, .inl ⟨index, request, rfl, isAt, rfl⟩⟩
          unfold push
          split <;> rfl
      · cases stepped
  | post index =>
      simp only [step] at stepped
      split at stepped
      · cases stepped
        exact ⟨rfl, .inr ⟨Nat.le_refl _, trivial⟩⟩
      · cases stepped
  | wait worker interrupted =>
      simp only [step] at stepped
      split at stepped
      · split at stepped
        · cases stepped
          exact ⟨rfl, .inr ⟨Nat.le_refl _, trivial⟩⟩
        · split at stepped
          · cases stepped
            exact ⟨rfl, .inr ⟨Nat.le_refl _, trivial⟩⟩
          · cases stepped
      · cases stepped
  | pop worker =>
      simp only [step] at stepped
      split at stepped
      · cases stepped
        unfold pop
        cases queue : s.workqueue with
        | nil => exact ⟨rfl, .inr ⟨by simp, trivial⟩⟩
        | cons request rest => exact ⟨rfl, .inr ⟨by simp, trivial⟩⟩
      · cases stepped
  | finish worker =>
      simp only [step] at stepped
      split at stepped
      · cases stepped
        exact ⟨rfl, .inr ⟨Nat.le_refl _, trivial⟩⟩
      · cases stepped

/-- A positive limit is compared as it is. -/
theorem limit_eq
    (fits : Fits s.maxRequests) (positive : 0 < s.maxRequests) :
    (s.limit : Int) = s.maxRequests := by
  obtain ⟨lower, upper⟩ := fits
  simp only [intMin, intMax] at lower upper
  unfold limit
  omega

structure Within (maxRequests : Int) (s : Threadpool T) : Prop where
  maxRequests_eq : s.maxRequests = maxRequests
  bounded : s.Bounded

theorem within_step
    {label : PoolStep T} (within : s.Within maxRequests)
    (room : s.HasRoom label) (stepped : s.step label = some next) :
    next.Within maxRequests := by
  obtain ⟨same, pushed | ⟨shorter, _⟩⟩ := length_step stepped
  · obtain ⟨index, request, rfl, isAt, rfl⟩ := pushed
    have below : (s.workqueue.length : Int) < s.maxRequests := room
    refine ⟨same.trans within.maxRequests_eq, ?_, ?_⟩
    · rw [same]
      exact within.bounded.1
    · rw [same]
      have length :
          (s.push index request).workqueue.length ≤
            s.workqueue.length + 1 := by
        unfold push
        split
        · exact Nat.le_succ _
        · simp
      omega
  · have bounded := within.bounded
    refine ⟨same.trans within.maxRequests_eq, ?_, ?_⟩
    · rw [same]
      exact bounded.1
    · rw [same]
      have bound := bounded.2
      omega

/-- A push on a full queue goes through. -/
theorem hasRoom_of_bounded
    {label : PoolStep T} (fits : Fits maxRequests)
    (within : s.Within maxRequests) (stepped : s.step label = some next)
    (bounded : next.Bounded) : s.HasRoom label := by
  obtain ⟨same, pushed | ⟨_, room⟩⟩ := length_step stepped
  · obtain ⟨index, request, rfl, isAt, rfl⟩ := pushed
    have bound := within.bounded.2
    have limit :=
      limit_eq (by rw [within.maxRequests_eq]; exact fits) within.bounded.1
    have notRefused : ¬ s.limit < s.workqueue.length := by omega
    have after := bounded.2
    rw [same] at after
    unfold push at after
    rw [if_neg notRefused] at after
    simp only [List.length_append, List.length_singleton] at after
    show (s.workqueue.length : Int) < s.maxRequests
    omega
  · exact room

/-- With room in the queue `append` does not refuse. -/
theorem appendsInBound_of_hasRoom
    {label : PoolStep T} (fits : Fits maxRequests)
    (within : s.Within maxRequests) (room : s.HasRoom label) :
    s.AppendsInBound label := by
  cases label with
  | call | post | wait | pop | finish => trivial
  | push index =>
      intro next stepped
      have below : (s.workqueue.length : Int) < s.maxRequests := room
      have limit :=
        limit_eq (by rw [within.maxRequests_eq]; exact fits)
          within.bounded.1
      have notRefused : ¬ s.limit < s.workqueue.length := by omega
      simp only [step] at stepped
      split at stepped
      · next request isAt =>
          cases stepped
          unfold push
          rw [if_neg notRefused]
          simp only [at_set_self isAt]
          constructor
          · exact iff_of_false (by simp) (by omega)
          · intro refused
            cases refused
      · cases stepped

/-- A pool that the constructor returns keeps its bound in a run, and
`append` refuses exactly on a full queue, when the limit is positive and no
call of `append` finds the queue full. -/
theorem queue_bounded_iff
    {threadNumber maxRequests : Int} {first last : Threadpool T}
    {labels : List (PoolStep T)} (fits : Fits maxRequests)
    (constructed : construct threadNumber maxRequests = some first)
    (ran : run step first labels = some last) :
    (Throughout step Bounded first labels ∧
        StepsMeet step AppendsInBound first labels) ↔
      0 < maxRequests ∧ StepsMeet step HasRoom first labels := by
  have start :
      first.maxRequests = maxRequests ∧ first.workqueue = [] := by
    unfold construct at constructed
    split at constructed
    · cases constructed
    · cases constructed
      exact ⟨rfl, rfl⟩
  have within (positive : 0 < maxRequests) : first.Within maxRequests := by
    refine ⟨start.1, ?_⟩
    unfold Bounded
    rw [start.1, start.2]
    exact ⟨positive, Int.le_of_lt positive⟩
  have throughout_iff (positive : 0 < maxRequests) :
      Throughout step Bounded first labels ↔
        StepsMeet step HasRoom first labels :=
    throughout_iff_stepsMeet (Within maxRequests)
      (fun _ within => within.bounded)
      (fun _ _ _ within room stepped => within_step within room stepped)
      (fun _ _ _ within stepped bounded =>
        hasRoom_of_bounded fits within stepped bounded)
      (within positive) ran
  constructor
  · rintro ⟨throughout, _⟩
    have positive := throughout.head.1
    rw [start.1] at positive
    exact ⟨positive, (throughout_iff positive).mp throughout⟩
  · rintro ⟨positive, room⟩
    refine ⟨(throughout_iff positive).mpr room, ?_⟩
    exact
      stepsMeet_of_keeps (Within maxRequests)
        (fun _ _ within room => appendsInBound_of_hasRoom fits within room)
        (fun _ _ _ within room stepped => within_step within room stepped)
        (within positive) room

/-- Two requests and no worker that takes one. -/
def twoRequests : List (PoolStep Nat) :=
  [.call (some 7), .push 0, .call (some 8), .push 1]

/-- A queue for two holds two. -/
theorem queue_bounded_two :
    ∃ first last : Threadpool Nat,
      construct 1 2 = some first ∧
        run step first twoRequests = some last ∧
        ((Throughout step Bounded first twoRequests ∧
            StepsMeet step AppendsInBound first twoRequests) ↔
          0 < (2 : Int) ∧ StepsMeet step HasRoom first twoRequests) := by
  have constructed : construct 1 2 = some (_ : Threadpool Nat) := rfl
  exact ⟨_, _, rfl, rfl, queue_bounded_iff (by decide) constructed rfl⟩

/-- A queue for one takes two requests, and a pool is returned for a queue of
minus one. -/
theorem queue_not_bounded :
    (∃ first last : Threadpool Nat,
      construct 1 1 = some first ∧
        run step first twoRequests = some last ∧
        last.workqueue.length = 2 ∧ ¬ last.Bounded) ∧
      ∃ first : Threadpool Nat,
        construct 1 (-1) = some first ∧ ¬ first.Bounded := by
  constructor
  · exact
      ⟨_, _, rfl, rfl, rfl, fun bounded => absurd bounded.2 (by decide)⟩
  · exact ⟨_, rfl, fun bounded => absurd bounded.1 (by decide)⟩

end Threadpool

end LinuxNet.WebServer
