import LinuxNet.ThreadPool.Shutdown

/-!
# The threads that `threadpool_destroy` joins

`threadpool_destroy` joins the first `live_thread_num` slots of `threads`,
but a worker that leaves on demand leaves its slot wherever it is.  Every
worker that has not ended is in some slot.  The pool is freed under no
worker's feet if none of the slots behind the first `live_thread_num` ones
still holds a running worker when the joins begin, or when a worker leaves on
demand during the joins.
-/

namespace LinuxNet.ThreadPool

open LinuxNet.StepSystem LinuxNet.Threads

/-- `threadpool_free` has been entered. -/
def DestroyPc.pastJoins : DestroyPc → Bool
  | .frees | .returned => true
  | _ => false

namespace Pool

variable {cfg : Config} {s next : Pool}

/-- Every worker that has not ended is stored in a slot. -/
def Stored (s : Pool) : Prop :=
  ∀ (worker : Nat) pc, s.workers[worker]? = some pc → pc ≠ .ended →
    ∃ slot : Nat, s.threads[slot]? = some (some worker)

/-- The slots of the range hold no worker that has not ended. -/
def EndedIn (s : Pool) (range : Nat → Prop) : Prop :=
  ∀ slot worker : Nat, range slot →
    s.threads[slot]? = some (some worker) →
      s.workers[worker]? = some .ended

/-- No worker comes back: one that had ended is where it was, and no worker
that had not been there is there. -/
structure Outlives (s next : Pool) : Prop where
  threads : next.threads = s.threads
  ended :
    ∀ worker : Nat, s.workers[worker]? = some .ended →
      next.workers[worker]? = some .ended
  running :
    ∀ (worker : Nat) pc, next.workers[worker]? = some pc → pc ≠ .ended →
      ∃ old, s.workers[worker]? = some old ∧ old ≠ .ended

theorem Outlives.of_eq
    (threads : next.threads = s.threads)
    (workers : next.workers = s.workers) : s.Outlives next where
  threads := threads
  ended := by
    intro worker isAt
    rw [workers]
    exact isAt
  running := by
    intro worker pc isAt notEnded
    rw [workers] at isAt
    exact ⟨pc, isAt, notEnded⟩

/-- A worker that has not ended moves. -/
theorem Outlives.of_set
    {index : Nat} {old new : WorkerPc}
    (isAt : s.workers[index]? = some old) (notEnded : old ≠ .ended)
    (threads : next.threads = s.threads)
    (workers : next.workers = s.workers.set index new) :
    s.Outlives next where
  threads := threads
  ended := by
    intro worker isEnded
    rw [workers]
    apply at_set_of_ne _ isEnded
    rintro rfl
    rw [isAt] at isEnded
    cases isEnded
    exact notEnded rfl
  running := by
    intro worker pc after running
    rw [workers] at after
    rcases at_set_cases after with ⟨rfl, _⟩ | ⟨_, before⟩
    · exact ⟨old, isAt, notEnded⟩
    · exact ⟨pc, before, running⟩

theorem wake_eq_ended_iff {pc : WorkerPc} :
    pc.wake = .ended ↔ pc = .ended := by
  cases pc <;> simp [WorkerPc.wake]

theorem Outlives.of_wake
    (threads : next.threads = s.threads)
    (workers : next.workers = s.workers.map WorkerPc.wake) :
    s.Outlives next where
  threads := threads
  ended := by
    intro worker isEnded
    rw [workers, List.getElem?_map, isEnded]
    rfl
  running := by
    intro worker pc after running
    rw [workers, List.getElem?_map, Option.map_eq_some_iff] at after
    obtain ⟨old, before, rfl⟩ := after
    exact ⟨old, before, fun ended => running (wake_eq_ended_iff.mpr ended)⟩

theorem Outlives.of_signalled
    {workers : List WorkerPc} (signalled : Signalled s.workers workers)
    (threads : next.threads = s.threads)
    (same : next.workers = workers) : s.Outlives next := by
  cases signalled with
  | nobody _ => exact .of_eq threads same
  | waiter isAt => exact .of_set isAt (by decide) threads same

theorem Stored.outlives (stored : s.Stored) (outlives : s.Outlives next) :
    next.Stored := by
  intro worker pc isAt running
  obtain ⟨old, before, wasRunning⟩ := outlives.running worker pc isAt running
  rw [outlives.threads]
  exact stored worker old before wasRunning

theorem EndedIn.outlives
    {range : Nat → Prop} (endedIn : s.EndedIn range)
    (outlives : s.Outlives next) : next.EndedIn range := by
  intro slot worker inRange inSlot
  rw [outlives.threads] at inSlot
  exact outlives.ended worker (endedIn slot worker inRange inSlot)

/-- A slot that is filled is empty, or its worker has ended. -/
theorem stored_createThread
    {findsAlive : Nat → Bool} {slot : Nat} (stored : s.Stored)
    (vacant : s.isVacant findsAlive slot = true) :
    (s.createThread slot).Stored := by
  intro worker pc isAt running
  obtain ⟨entry, isEntry, ended⟩ := ended_of_isVacant vacant
  by_cases isNew : worker = s.workers.length
  · subst isNew
    exact ⟨slot, at_set_self isEntry _⟩
  · have old : s.workers[worker]? = some pc := by
      have bound := lt_length_of_at isAt
      rw [show (s.createThread slot).workers = s.workers ++ [.locks] from rfl,
        List.length_append, List.length_singleton] at bound
      have inside : worker < s.workers.length := by omega
      rw [show (s.createThread slot).workers = s.workers ++ [.locks] from rfl,
        List.getElem?_append_left inside] at isAt
      exact isAt
    obtain ⟨other, inOther⟩ := stored worker pc old running
    refine ⟨other, at_set_of_ne ?_ inOther _⟩
    rintro rfl
    rw [isEntry] at inOther
    cases inOther
    rw [ended worker rfl] at old
    cases old
    exact running rfl

theorem stored_created
    (isCreated : Created cfg s) : s.Stored := by
  obtain ⟨garbage, _, rfl⟩ := isCreated
  intro worker pc isAt _
  have bound := lt_length_of_at isAt
  rw [show (created cfg garbage).workers =
    List.replicate cfg.minThreadNum.toNat .locks from rfl,
    List.length_replicate] at bound
  refine ⟨worker, ?_⟩
  show (_ ++ _ : List (Option Nat))[worker]? = _
  rw [List.getElem?_append_left (by simpa using bound), List.getElem?_map,
    List.getElem?_range bound]
  rfl

/-! ## The joins -/

/-- When the joins begin, the slots behind the first `live_thread_num` ones
hold no worker that has not ended, and a worker that leaves on demand during
the joins leaves it so. -/
def JoinsSurvivors (cfg : Config) (s : Pool) : PoolStep → Prop
  | .destroy =>
      ∀ i : Nat, s.destroy = .broadcasts i → s.liveThreadNum ≤ i →
        s.EndedIn fun slot => s.liveThreadNum ≤ slot
  | .worker index =>
      ∀ i : Nat, s.destroy = .joins i → s.LeavesOnDemand cfg index →
        s.EndedIn fun slot => s.liveThreadNum - 1 ≤ slot
  | _ => True

/-- While `threadpool_destroy` joins the workers, those behind
`live_thread_num` and in the slots already joined have ended; behind the loop
all have. -/
structure Joins (s : Pool) : Prop where
  closing : s.Closing
  stored : s.Stored
  behind :
    ∀ i : Nat, s.destroy = .joins i →
      s.EndedIn fun slot => s.liveThreadNum ≤ slot
  joined : ∀ i : Nat, s.destroy = .joins i → s.EndedIn fun slot => slot < i
  gone : s.destroy.pastJoins = true → ∀ pc ∈ s.workers, pc = .ended

theorem joins_of_notJoins
    (closing : s.Closing) (stored : s.Stored)
    (before : s.destroy.pastBroadcasts = false) : s.Joins where
  closing := closing
  stored := stored
  behind := by
    intro i isAt
    rw [isAt] at before
    cases before
  joined := by
    intro i isAt
    rw [isAt] at before
    cases before
  gone := by
    intro past
    cases isAt : s.destroy with
    | frees | returned =>
        rw [isAt] at before
        cases before
    | uncalled | joinsAdjust | broadcasts | joins =>
        rw [isAt] at past
        cases past

theorem joins_created (isCreated : Created cfg s) : s.Joins := by
  apply joins_of_notJoins
  · exact closing_created isCreated
  · exact stored_created isCreated
  · obtain ⟨garbage, _, rfl⟩ := isCreated
    rfl

/-- A step of a worker, a producer or the manager that creates no thread. -/
theorem Joins.outlives
    (joins : s.Joins) (closing : next.Closing) (outlives : s.Outlives next)
    (destroy : next.destroy = s.destroy)
    (behind :
      ∀ i : Nat, s.destroy = .joins i →
        s.EndedIn fun slot => next.liveThreadNum ≤ slot) :
    next.Joins where
  closing := closing
  stored := joins.stored.outlives outlives
  behind := by
    intro i isAt
    rw [destroy] at isAt
    exact (behind i isAt).outlives outlives
  joined := by
    intro i isAt
    rw [destroy] at isAt
    exact (joins.joined i isAt).outlives outlives
  gone := by
    intro past pc member
    rw [destroy] at past
    obtain ⟨worker, isAt⟩ := List.mem_iff_getElem?.mp member
    by_cases ended : pc = .ended
    · exact ended
    · obtain ⟨old, before, running⟩ := outlives.running worker pc isAt ended
      exact absurd (joins.gone past old (mem_of_at before)) running

/-- The last slot to be looked at has been joined. -/
theorem Joins.all_ended
    {i : Nat} (joins : s.Joins) (isAt : s.destroy = .joins i)
    (finished : s.liveThreadNum ≤ i) : ∀ pc ∈ s.workers, pc = .ended := by
  intro pc member
  obtain ⟨worker, isWorker⟩ := List.mem_iff_getElem?.mp member
  by_cases running : pc = .ended
  · exact running
  · obtain ⟨slot, inSlot⟩ := joins.stored worker pc isWorker running
    have ended : s.workers[worker]? = some .ended := by
      by_cases inside : slot < i
      · exact joins.joined i isAt slot worker inside inSlot
      · exact joins.behind i isAt slot worker (by omega) inSlot
    rw [isWorker] at ended
    cases ended
    rfl

theorem joins_step
    {label : PoolStep} (joins : s.Joins)
    (met : s.JoinsSurvivors cfg label)
    (stepped : s.step cfg label = some next) : next.Joins := by
  have closing := closing_step joins.closing stepped
  have behind := joins.behind
  cases moves_of_step stepped with
  | sleeps tests _ _ | leaves tests _ | takes tests _ _ =>
      obtain ⟨old, isAt, _, active⟩ := tests.exists_awake
      have running : old ≠ .ended := by
        rintro rfl
        cases active
      exact joins.outlives closing (.of_set isAt running rfl rfl) rfl behind
  | shrinks free isAt asked above =>
      apply joins.outlives closing (.of_set isAt (by decide) rfl rfl) rfl
      intro i isJoins
      exact met i isJoins ⟨free, isAt, asked, above⟩
  | blocks isAt | finishes isAt | ends isAt | wakesUp isAt =>
      exact
        joins.outlives closing (.of_set isAt (by decide) rfl rfl) rfl behind
  | starts isAt | calls isAt =>
      exact
        joins.outlives closing (.of_set isAt (by simp) rfl rfl) rfl behind
  | refused _ _ =>
      exact joins.outlives closing (.of_wake rfl rfl) rfl behind
  | enqueues _ _ _ signalled | signals _ signalled =>
      exact
        joins.outlives closing (.of_signalled signalled rfl rfl) rfl behind
  | called | producerSleeps | producerBlocks | producerWakesUp | adjusts
  | asksToExit =>
      exact joins.outlives closing (.of_eq rfl rfl) rfl behind
  | @grows findsAlive _ _ _ _ isAt _ =>
      have stored : (grow cfg findsAlive s).Stored :=
        grow_keeps cfg findsAlive Stored
          (fun _ _ vacant before => stored_createThread before vacant)
          joins.stored
      apply joins_of_notJoins closing stored
      apply Bool.eq_false_iff.mpr
      intro past
      cases closing.adjustEnded (DestroyPc.adjustJoined_of_pastBroadcasts past)
  | shuts _ | adjustJoined _ _ =>
      exact joins_of_notJoins closing joins.stored rfl
  | broadcasts _ _ =>
      apply joins_of_notJoins closing _ rfl
      exact joins.stored.outlives (.of_wake rfl rfl)
  | joinsThreads isAt finished =>
      refine ⟨closing, joins.stored, fun i _ => ?_, fun i isJoins => ?_,
        fun past => ?_⟩
      · exact met _ isAt finished
      · cases isJoins
        intro slot _ below
        exact absurd below (Nat.not_lt_zero slot)
      · cases past
  | @joined i worker isAt below inSlot ended =>
      refine ⟨closing, joins.stored, fun j _ => ?_, fun j isJoins => ?_,
        fun past => ?_⟩
      · exact behind i isAt
      · cases isJoins
        intro slot other below other_inSlot
        by_cases same : slot = i
        · subst same
          rw [inSlot] at other_inSlot
          cases other_inSlot
          exact ended
        · exact joins.joined i isAt slot other (by omega) other_inSlot
      · cases past
  | frees isAt finished =>
      refine ⟨closing, joins.stored, fun j isJoins => ?_,
        fun j isJoins => ?_, fun _ => ?_⟩
      · cases isJoins
      · cases isJoins
      · exact joins.all_ended isAt finished
  | freed isAt _ =>
      have past : s.destroy.pastJoins = true := by
        rw [isAt]
        rfl
      refine ⟨closing, joins.stored, fun j isJoins => ?_,
        fun j isJoins => ?_, fun _ => ?_⟩
      · cases isJoins
      · cases isJoins
      · exact joins.gone past

/-- In the runs that meet the guard no thread of the pool is left when
`threadpool_free` is entered, and none comes after. -/
theorem no_thread_left_of_joinsSurvivors
    (cfg : Config) (first last : Pool) (labels : List PoolStep)
    (isCreated : Created cfg first)
    (met : StepsMeet (step cfg) (JoinsSurvivors cfg) first labels)
    (ran : run (step cfg) first labels = some last)
    (past : last.destroy.pastJoins = true) :
    last.adjust = .ended ∧ ∀ pc ∈ last.workers, pc = .ended := by
  have joins : last.Joins :=
    guarded_run_keeps (JoinsSurvivors cfg) Joins
      (fun _ _ _ before holds stepped => joins_step before holds stepped)
      (joins_created isCreated) met ran
  refine ⟨joins.closing.adjustEnded ?_, joins.gone past⟩
  cases isAt : last.destroy with
  | frees | returned => rfl
  | uncalled | joinsAdjust | broadcasts | joins =>
      rw [isAt] at past
      cases past

/-- The pool of one worker at the entry of `threadpool_free`. -/
def joinedWorker : Pool :=
  { created ⟨1, 1, 1⟩ [⟨0, 0⟩] with
    shutdown := true
    workers := [.ended]
    adjust := .ended
    destroy := .frees }

theorem no_thread_left_one_worker :
    joinedWorker.adjust = .ended ∧ ∀ pc ∈ joinedWorker.workers, pc = .ended :=
  no_thread_left_of_joinsSurvivors ⟨1, 1, 1⟩
    (created ⟨1, 1, 1⟩ [⟨0, 0⟩]) joinedWorker
    [.destroy, .adjust (fun _ => false) 0, .worker 0, .worker 0, .destroy,
      .destroy, .destroy, .destroy, .destroy]
    ⟨_, rfl, rfl⟩
    (by
      refine stepsMeet_cons ?_ rfl (stepsMeet_cons trivial rfl
        (stepsMeet_cons ?_ rfl (stepsMeet_cons ?_ rfl (stepsMeet_cons ?_ rfl
          (stepsMeet_cons ?_ rfl (stepsMeet_cons ?_ rfl
            (stepsMeet_cons ?_ rfl (stepsMeet_cons ?_ rfl trivial))))))))
      · intro i isAt
        cases isAt
      · intro i isAt
        cases isAt
      · intro i isAt
        cases isAt
      · intro i isAt
        cases isAt
      · intro i isAt finished
        cases isAt
        exact absurd finished (by decide)
      · intro i isAt _ slot worker behind inSlot
        have inside : slot < 1 := lt_length_of_at inSlot
        exact absurd behind (Int.not_le.mpr (Int.ofNat_lt.mpr inside))
      · intro i isAt
        cases isAt
      · intro i isAt
        cases isAt)
    rfl rfl

/-- The only workers are 0 and 1: ten tasks make the manager create worker 1.
Worker 0 calls the tasks, falls asleep and is told to leave.  Worker 1 takes
one more task and is in the middle of it when the pool is freed. -/
def survivingRun : List PoolStep :=
  (List.range 10).flatMap
      (fun i => [.add ⟨4, i⟩, .producer i 0]) ++
    List.replicate 6 (.adjust (fun _ => false) 0) ++
    List.replicate 42 (.worker 0) ++
    List.replicate 17 (.adjust (fun _ => false) 0) ++
    [.worker 0, .worker 0, .add ⟨4, 10⟩, .producer 10 0, .worker 1,
      .worker 1, .destroy, .adjust (fun _ => false) 0] ++
    List.replicate 5 .destroy

/-- With one or two workers and room for ten tasks, a worker is in the middle
of a task when the pool is freed. -/
theorem worker_left_at_free :
    ¬ ∀ (cfg : Config) (s : Pool),
        cfg.minThreadNum ≤ cfg.maxThreadNum →
          Reachable (Created cfg) (step cfg) s →
            s.destroy.pastJoins = true → ∀ pc ∈ s.workers, pc = .ended := by
  intro claimed
  have left :
      (run (step ⟨1, 2, 10⟩)
          (created ⟨1, 2, 10⟩ (List.replicate 10 ⟨0, 0⟩)) survivingRun).any
        (fun s =>
          s.destroy.pastJoins && s.workers.contains (.calls ⟨4, 10⟩)) =
        true := by
    decide +kernel
  obtain ⟨last, ran, isLeft⟩ := (Option.any_eq_true _ _).mp left
  obtain ⟨past, member⟩ := (Bool.and_eq_true _ _).mp isLeft
  have ended :=
    claimed ⟨1, 2, 10⟩ last (by decide)
      ⟨_, survivingRun, ⟨_, rfl, rfl⟩, ran⟩ past _
      (List.contains_iff_mem.mp member)
  cases ended

end Pool

end LinuxNet.ThreadPool
