import LinuxNet.ThreadPool.Accepted
import LinuxNet.ThreadPool.Census

/-!
# Who still sleeps after `threadpool_destroy`'s broadcasts

Once `shutdown` is set, nothing signals `queue_not_full` any more: the only
broadcast stands behind the removal of a task, and no worker removes one.  A
producer that sleeps there sleeps on.  A worker that has tested the queue
before and goes to sleep after the last broadcast sleeps on as well.  Without
these two orders of events nobody sleeps when the broadcasts are over.
-/

namespace LinuxNet.ThreadPool

open LinuxNet.StepSystem LinuxNet.Threads

/-- The worker is in `pthread_cond_wait`, or has the lock and calls it. -/
def WorkerPc.isAsleep : WorkerPc → Bool
  | .waits | .blocked => true
  | _ => false

def ProducerPc.isAsleep : ProducerPc → Bool
  | .waits _ | .blocked _ => true
  | _ => false

def DestroyPc.adjustJoined : DestroyPc → Bool
  | .uncalled | .joinsAdjust => false
  | _ => true

def DestroyPc.pastBroadcasts : DestroyPc → Bool
  | .joins _ | .frees | .returned => true
  | _ => false

def PoolStep.isRemaining : PoolStep → Bool
  | .producer _ _ | .worker _ | .adjust _ _ | .destroy => true
  | .add _ | .wakeWorker _ | .wakeProducer _ => false

theorem WorkerPc.isActive_of_isAsleep
    {pc : WorkerPc} (asleep : pc.isAsleep = true) : pc.isActive = true := by
  cases pc <;> first | rfl | cases asleep

theorem WorkerPc.isAsleep_wake
    {pc : WorkerPc} (awake : pc.isAsleep = false) :
    pc.wake.isAsleep = false := by
  cases pc <;> first | rfl | cases awake

theorem DestroyPc.adjustJoined_of_pastBroadcasts
    {pc : DestroyPc} (past : pc.pastBroadcasts = true) :
    pc.adjustJoined = true := by
  cases pc <;> first | rfl | cases past

/-- A broadcast leaves asleep only who has not gone to sleep yet. -/
theorem WorkerPc.isAsleep_wake_of_ne
    {pc : WorkerPc} (different : pc ≠ .waits) :
    pc.wake.isAsleep = false := by
  cases pc <;> first | rfl | exact absurd rfl different

theorem Signalled.forall_mem
    {workers after : List WorkerPc} {property : WorkerPc → Prop}
    (signalled : Signalled workers after) (woken : property .woken)
    (before : ∀ pc ∈ workers, property pc) : ∀ pc ∈ after, property pc := by
  cases signalled with
  | nobody _ => exact before
  | waiter _ => exact forall_set before woken

namespace Pool

variable {cfg : Config} {s next : Pool}

structure Closing (s : Pool) : Prop where
  shut : s.destroy ≠ .uncalled → s.shutdown = true
  adjustEnded : s.destroy.adjustJoined = true → s.adjust = .ended

theorem closing_created (isCreated : Created cfg s) : s.Closing := by
  obtain ⟨garbage, _, rfl⟩ := isCreated
  constructor
  · intro impossible
    exact absurd rfl impossible
  · intro impossible
    cases impossible

theorem Closing.shut_of_adjustJoined
    (closing : s.Closing) (joined : s.destroy.adjustJoined = true) :
    s.shutdown = true := by
  apply closing.shut
  intro uncalled
  rw [uncalled] at joined
  cases joined

theorem closing_step
    {label : PoolStep} (closing : s.Closing)
    (stepped : s.step cfg label = some next) : next.Closing := by
  have shut : next.destroy = s.destroy → next.destroy ≠ .uncalled →
      next.shutdown = true := by
    intro same called
    rw [same] at called
    exact (shut_step (closing.shut called) stepped).1
  cases moves_of_step stepped with
  | adjusts isRunning _ | asksToExit isRunning _ =>
      refine ⟨shut rfl, fun joined => ?_⟩
      exact absurd (closing.adjustEnded joined) isRunning
  | @grows findsAlive _ _ _ _ isAt _ =>
      have same := (grow_frame cfg findsAlive s).2.2
      refine ⟨shut same, fun joined => ?_⟩
      have ended := closing.adjustEnded (same ▸ joined)
      rw [isAt] at ended
      cases ended
  | signals isAt _ =>
      refine ⟨shut rfl, fun joined => ?_⟩
      have ended := closing.adjustEnded joined
      rw [isAt] at ended
      cases ended
  | shuts _ =>
      refine ⟨fun _ => rfl, fun impossible => ?_⟩
      cases impossible
  | adjustJoined isAt ended =>
      have isShut := closing.shut (by rw [isAt]; decide)
      exact ⟨fun _ => isShut, fun _ => ended⟩
  | broadcasts isAt _ | joinsThreads isAt _ | joined isAt _ _ _
  | frees isAt _ | freed isAt _ =>
      have joined : s.destroy.adjustJoined = true := by
        rw [isAt]
        rfl
      have isShut := closing.shut_of_adjustJoined joined
      exact ⟨fun _ => isShut, fun _ => closing.adjustEnded joined⟩
  | sleeps | leaves | takes | shrinks | blocks | starts | calls | finishes
  | ends | wakesUp | called | producerSleeps | refused | enqueues
  | producerBlocks | producerWakesUp =>
      exact ⟨shut rfl, closing.adjustEnded⟩

/-! ## Nobody goes to sleep any more -/

/-- The loop of broadcasts is over, or its test will fail. -/
def BroadcastsDone (s : Pool) : Prop :=
  s.destroy.pastBroadcasts = true ∨
    ∃ i, s.destroy = .broadcasts i ∧ s.liveThreadNum ≤ i

/-- No producer sleeps when `shutdown` is set, and at the last broadcast no
worker is between its test and its sleep.  Where a worker that leaves on
demand makes the last broadcast the last, no worker has gone to sleep after
it. -/
def RousesSleepers (cfg : Config) (s : Pool) : PoolStep → Prop
  | .destroy =>
      (s.destroy = .uncalled → ∀ pc ∈ s.producers, pc.isAsleep = false) ∧
        ∀ i : Nat, s.destroy = .broadcasts i →
          s.liveThreadNum = i + 1 → .waits ∉ s.workers
  | .worker index =>
      ∀ i : Nat, s.destroy = .broadcasts i → s.liveThreadNum = i + 1 →
        s.LeavesOnDemand cfg index → .blocked ∉ s.workers
  | _ => True

/-- From the moment `shutdown` is set no producer sleeps, and no worker does
once the broadcasts are done. -/
structure Rouses (cfg : Config) (s : Pool) : Prop where
  exclusive : s.Exclusive
  counted : s.Counted cfg
  closing : s.Closing
  producers : s.shutdown = true → ∀ pc ∈ s.producers, pc.isAsleep = false
  workers : s.BroadcastsDone → ∀ pc ∈ s.workers, pc.isAsleep = false

theorem BroadcastsDone.adjustJoined (done : s.BroadcastsDone) :
    s.destroy.adjustJoined = true := by
  rcases done with past | ⟨i, isAt, _⟩
  · exact DestroyPc.adjustJoined_of_pastBroadcasts past
  · rw [isAt]
    rfl

theorem BroadcastsDone.shut
    (done : s.BroadcastsDone) (closing : s.Closing) : s.shutdown = true :=
  closing.shut_of_adjustJoined done.adjustJoined

theorem rouses_created
    (nonneg : 0 ≤ cfg.minThreadNum) (isCreated : Created cfg s) :
    s.Rouses cfg where
  exclusive := exclusive_created isCreated
  counted := counted_created nonneg isCreated
  closing := closing_created isCreated
  producers := by
    obtain ⟨garbage, _, rfl⟩ := isCreated
    intro _ pc member
    cases member
  workers := by
    obtain ⟨garbage, _, rfl⟩ := isCreated
    intro done
    cases done.adjustJoined

theorem producers_step
    {label : PoolStep} (rouses : s.Rouses cfg)
    (met : s.RousesSleepers cfg label)
    (stepped : s.step cfg label = some next) :
    next.shutdown = true → ∀ pc ∈ next.producers, pc.isAsleep = false := by
  have before := rouses.producers
  cases moves_of_step stepped with
  | takes _ _ isOpen | producerSleeps _ _ isOpen | enqueues _ _ isOpen _ =>
      intro isShut
      rw [show s.shutdown = true from isShut] at isOpen
      cases isOpen
  | called task =>
      intro isShut pc member
      rcases List.mem_append.mp member with old | new
      · exact before isShut pc old
      · cases List.mem_singleton.mp new
        rfl
  | refused _ isShut =>
      intro _
      exact forall_set (before isShut) rfl
  | producerBlocks isAt =>
      intro isShut
      cases before isShut _ (mem_of_at isAt)
  | producerWakesUp isAt =>
      intro isShut
      exact forall_set (before isShut) rfl
  | @grows findsAlive _ _ _ _ _ _ =>
      obtain ⟨producers, shutdown, _⟩ := grow_frame cfg findsAlive s
      intro isShut
      show ∀ pc ∈ (grow cfg findsAlive s).producers, _
      rw [producers]
      exact before (shutdown ▸ isShut)
  | shuts isAt => exact fun _ => met.1 isAt
  | sleeps | leaves | shrinks | blocks | starts | calls | finishes | ends
  | wakesUp | adjusts | asksToExit | signals | adjustJoined | broadcasts
  | joinsThreads | joined | frees | freed =>
      exact before

/-- Nobody sleeps, and one worker moves to a place where it does not. -/
theorem Rouses.moved
    {index : Nat} {new : WorkerPc} (rouses : s.Rouses cfg)
    (done : s.BroadcastsDone) (awake : new.isAsleep = false) :
    ∀ pc ∈ s.workers.set index new, pc.isAsleep = false :=
  forall_set (rouses.workers done) awake

theorem workers_step
    {label : PoolStep} (rouses : s.Rouses cfg)
    (met : s.RousesSleepers cfg label)
    (stepped : s.step cfg label = some next) :
    next.BroadcastsDone → ∀ pc ∈ next.workers, pc.isAsleep = false := by
  have before := rouses.workers
  cases moves_of_step stepped with
  | sleeps _ _ isOpen | takes _ _ isOpen =>
      intro done
      have isShut := rouses.closing.shut_of_adjustJoined done.adjustJoined
      rw [isShut] at isOpen
      cases isOpen
  | leaves _ _ | starts _ | calls _ | finishes _ | ends _ | wakesUp _ =>
      exact fun done => rouses.moved done rfl
  | shrinks free isAt asked above =>
      intro done
      rcases done with past | ⟨i, isBroadcasts, finished⟩
      · exact rouses.moved (Or.inl past) rfl
      · by_cases last : s.liveThreadNum = i + 1
        · have noBlocked :=
            met i isBroadcasts last ⟨free, isAt, asked, above⟩
          have noWaits := rouses.exclusive.free free
          refine forall_set (fun pc member => ?_) rfl
          cases pc with
          | waits => exact absurd member noWaits
          | blocked => exact absurd member noBlocked
          | locks | woken | starts | calls | finishes | exits | ended => rfl
        · have bound : s.liveThreadNum - 1 ≤ i := finished
          exact rouses.moved (Or.inr ⟨i, isBroadcasts, by omega⟩) rfl
  | blocks isAt =>
      intro done
      cases before done _ (mem_of_at isAt)
  | refused _ _ =>
      intro done pc member
      obtain ⟨old, oldMember, rfl⟩ := List.mem_map.mp member
      exact WorkerPc.isAsleep_wake (before done old oldMember)
  | enqueues _ _ _ signalled | signals _ signalled =>
      intro done
      exact signalled.forall_mem rfl (before done)
  | @grows findsAlive _ _ _ _ isAt _ =>
      intro done
      have joined : (grow cfg findsAlive s).destroy.adjustJoined = true :=
        done.adjustJoined
      rw [(grow_frame cfg findsAlive s).2.2] at joined
      have ended := rouses.closing.adjustEnded joined
      rw [isAt] at ended
      cases ended
  | shuts _ =>
      intro done
      cases done.adjustJoined
  | adjustJoined _ _ =>
      intro done pc member
      rcases done with impossible | ⟨i, isBroadcasts, finished⟩
      · cases impossible
      · cases isBroadcasts
        cases asleep : pc.isAsleep with
        | false => rfl
        | true =>
            have active : 0 < s.workers.countP WorkerPc.isActive :=
              List.countP_pos_iff.mpr
                ⟨pc, member, WorkerPc.isActive_of_isAsleep asleep⟩
            have counted := rouses.counted.le
            have none : s.liveThreadNum ≤ 0 := finished
            omega
  | @broadcasts i isAt below =>
      intro done pc member
      obtain ⟨old, oldMember, rfl⟩ := List.mem_map.mp member
      apply WorkerPc.isAsleep_wake_of_ne
      rintro rfl
      rcases done with impossible | ⟨j, isBroadcasts, finished⟩
      · cases impossible
      · cases isBroadcasts
        have bound : s.liveThreadNum ≤ ((i + 1 : Nat) : Int) := finished
        exact met.2 i isAt (by omega) oldMember
  | @joinsThreads i isAt finished =>
      exact fun _ => before (Or.inr ⟨i, isAt, finished⟩)
  | joined isAt _ _ _ | frees isAt _ | freed isAt _ =>
      have past : s.destroy.pastBroadcasts = true := by
        rw [isAt]
        rfl
      exact fun _ => before (Or.inl past)
  | called | producerSleeps | producerBlocks | producerWakesUp | adjusts
  | asksToExit =>
      exact before

theorem rouses_step
    {label : PoolStep} (rouses : s.Rouses cfg)
    (met : s.RousesSleepers cfg label)
    (stepped : s.step cfg label = some next) : next.Rouses cfg where
  exclusive := exclusive_step rouses.exclusive stepped
  counted := counted_step rouses.counted stepped
  closing := closing_step rouses.closing stepped
  producers := producers_step rouses met stepped
  workers := workers_step rouses met stepped

theorem Rouses.nobody_asleep
    (rouses : s.Rouses cfg) (past : s.destroy.pastBroadcasts = true) :
    (∀ pc ∈ s.workers, pc.isAsleep = false) ∧
      ∀ pc ∈ s.producers, pc.isAsleep = false := by
  have done : s.BroadcastsDone := Or.inl past
  exact ⟨rouses.workers done, rouses.producers (done.shut rouses.closing)⟩

/-- Whoever sleeps will be woken by steps that the other threads still
have. -/
structure NobodyStranded (cfg : Config) (s : Pool) : Prop where
  worker :
    ∀ index : Nat, s.workers[index]? = some .blocked →
      ∃ labels last, (∀ label ∈ labels, label.isRemaining = true) ∧
        run (step cfg) s labels = some last ∧
          last.workers[index]? ≠ some .blocked
  producer :
    ∀ (index : Nat) task, s.producers[index]? = some (.blocked task) →
      ∃ labels last, (∀ label ∈ labels, label.isRemaining = true) ∧
        run (step cfg) s labels = some last ∧
          last.producers[index]? ≠ some (.blocked task)

/-- In the runs that meet the guard nobody is left asleep behind the
broadcasts of `threadpool_destroy`. -/
theorem nobodyStranded_of_rousesSleepers
    (cfg : Config) (first last : Pool) (labels : List PoolStep)
    (nonneg : 0 ≤ cfg.minThreadNum) (isCreated : Created cfg first)
    (met : StepsMeet (step cfg) (RousesSleepers cfg) first labels)
    (ran : run (step cfg) first labels = some last)
    (past : last.destroy.pastBroadcasts = true) :
    NobodyStranded cfg last := by
  have rouses : last.Rouses cfg :=
    guarded_run_keeps (RousesSleepers cfg) (Rouses cfg)
      (fun _ _ _ before holds stepped => rouses_step before holds stepped)
      (rouses_created nonneg isCreated) met ran
  obtain ⟨workers, producers⟩ := rouses.nobody_asleep past
  constructor
  · intro index isAt
    cases workers _ (mem_of_at isAt)
  · intro index task isAt
    cases producers _ (mem_of_at isAt)

/-- The pool of one worker, which slept, after the broadcasts. -/
def rousedWorker : Pool :=
  { created ⟨1, 1, 1⟩ [⟨0, 0⟩] with
    shutdown := true
    workers := [.woken]
    adjust := .ended
    destroy := .joins 0 }

theorem nobodyStranded_one_worker : NobodyStranded ⟨1, 1, 1⟩ rousedWorker :=
  nobodyStranded_of_rousesSleepers ⟨1, 1, 1⟩
    (created ⟨1, 1, 1⟩ [⟨0, 0⟩]) rousedWorker
    [.worker 0, .worker 0, .destroy, .adjust (fun _ => false) 0, .destroy,
      .destroy, .destroy]
    (by decide) ⟨_, rfl, rfl⟩
    (by
      refine stepsMeet_cons ?_ rfl (stepsMeet_cons ?_ rfl
        (stepsMeet_cons ?_ rfl (stepsMeet_cons trivial rfl
          (stepsMeet_cons ?_ rfl (stepsMeet_cons ?_ rfl
            (stepsMeet_cons ?_ rfl trivial))))))
      · intro i isAt
        cases isAt
      · intro i isAt
        cases isAt
      · constructor
        · intro _ pc member
          cases member
        · intro i isAt
          cases isAt
      · constructor
        · intro isAt
          cases isAt
        · intro i isAt
          cases isAt
      · constructor
        · intro isAt
          cases isAt
        · intro _ _ _
          decide
      · constructor
        · intro isAt
          cases isAt
        · intro _ _ _
          decide)
    rfl rfl

/-- Once the pool is shut no step but a spurious wake-up wakes a producer. -/
theorem blocked_step
    {label : PoolStep} {index : Nat} {task : Task}
    (remaining : label.isRemaining = true) (isShut : s.shutdown = true)
    (isAt : s.producers[index]? = some (.blocked task))
    (stepped : s.step cfg label = some next) :
    next.producers[index]? = some (.blocked task) := by
  cases moves_of_step stepped with
  | takes _ _ isOpen | producerSleeps _ _ isOpen | enqueues _ _ isOpen _ =>
      rw [isShut] at isOpen
      cases isOpen
  | refused tests _ =>
      apply at_set_of_ne _ isAt
      rintro rfl
      rcases tests.isAt with other | other
      · rw [isAt] at other
        cases other
      · rw [isAt] at other
        cases other
  | producerBlocks other =>
      apply at_set_of_ne _ isAt
      rintro rfl
      rw [isAt] at other
      cases other
  | called | producerWakesUp | wakesUp => cases remaining
  | @grows findsAlive _ _ _ _ _ _ =>
      show (grow cfg findsAlive s).producers[index]? = _
      rw [(grow_frame cfg findsAlive s).1]
      exact isAt
  | sleeps | leaves | shrinks | blocks | starts | calls | finishes | ends
  | adjusts | asksToExit | signals | shuts | adjustJoined | broadcasts
  | joinsThreads | joined | frees | freed =>
      exact isAt

theorem blocked_run
    {labels : List PoolStep} {index : Nat} {task : Task}
    (remaining : ∀ label ∈ labels, label.isRemaining = true)
    (isShut : s.shutdown = true)
    (isAt : s.producers[index]? = some (.blocked task))
    (ran : run (step cfg) s labels = some next) :
    next.producers[index]? = some (.blocked task) := by
  induction labels generalizing s with
  | nil =>
      cases ran
      exact isAt
  | cons label labels inductionHypothesis =>
      obtain ⟨middle, stepped, rest⟩ :=
        (run_cons_eq_some_iff s next label labels).mp ran
      have isRemaining := remaining label (List.mem_cons_self ..)
      apply inductionHypothesis
      · exact fun later member =>
          remaining later (List.mem_cons_of_mem label member)
      · exact (shut_step isShut stepped).1
      · exact blocked_step isRemaining isShut isAt stepped
      · exact rest

/-- The second task waits for room when the pool is shut, and the broadcasts
are over. -/
def strandedProducer : Pool :=
  { created ⟨1, 1, 1⟩ [⟨0, 0⟩] with
    taskQueue := [⟨4, 5⟩]
    queueSize := 1
    shutdown := true
    producers := [.returned ⟨4, 5⟩ 0, .blocked ⟨4, 6⟩]
    adjust := .ended
    destroy := .joins 0
    enqueued := [⟨4, 5⟩] }

theorem producer_stranded_by_shutdown :
    ¬ ∀ (cfg : Config) (s : Pool),
        0 ≤ cfg.minThreadNum → 1 ≤ cfg.queueMaxSize →
          Reachable (Created cfg) (step cfg) s →
            s.destroy.pastBroadcasts = true → NobodyStranded cfg s := by
  intro claimed
  have stranded :=
    claimed ⟨1, 1, 1⟩ strandedProducer (by decide) (by decide)
      ⟨created ⟨1, 1, 1⟩ [⟨0, 0⟩],
        [.add ⟨4, 5⟩, .producer 0 0, .add ⟨4, 6⟩, .producer 1 0,
          .producer 1 0, .destroy, .adjust (fun _ => false) 0, .destroy,
          .destroy, .destroy],
        ⟨_, rfl, rfl⟩, rfl⟩
      rfl
  obtain ⟨labels, last, remaining, ran, isWoken⟩ :=
    stranded.producer 1 ⟨4, 6⟩ rfl
  exact isWoken (blocked_run remaining rfl rfl ran)

end Pool

end LinuxNet.ThreadPool
