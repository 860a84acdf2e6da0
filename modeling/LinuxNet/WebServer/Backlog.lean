import LinuxNet.Lib.StepSystem

/-!
# The listen queue and the edge-triggered listening descriptor

`addfd` registers `listenfd` with `EPOLLET`: an arrival makes one edge
pending, however many are pending already, and `main` calls `accept` once for
each edge reported.  The queue is as long as the edges pending and the
reports at hand, unless a client arrives at a pending edge or `accept` fails
and leaves a client behind; from then on a client waits for ever.
-/

namespace LinuxNet.WebServer

open LinuxNet.StepSystem

/-- The source of an event that `epoll_wait` reports. -/
inductive Source where
  | listenfd
  | client (sockfd : Nat)
  deriving DecidableEq, Repr

/-- `MAX_EVENT_NUMBER`. -/
def maxEventNumber : Nat := 100000

/-- What `accept` does with the first connection of the queue: hand it over,
drop it because the client has aborted it, or fail and leave it there. -/
inductive AcceptResult where
  | connection
  | aborted
  | failed
  deriving DecidableEq, Repr

/-- The clients in the listen queue, whether an edge is pending on
`listenfd`, and the events reported that `main` has not handled. -/
structure Listener where
  backlog : Nat
  edge : Bool
  events : List Source
  deriving DecidableEq, Repr

/-- The steps of the clients and of the loop of `main`. -/
inductive ListenLabel where
  /-- The kernel completes the connection of a client. -/
  | arrive
  /-- `epoll_wait` returns these events. -/
  | wait (ready : List Source)
  /-- `epoll_wait` returns -1 with `EINTR`. -/
  | interrupted
  /-- `main` handles the next event of the loop; for `listenfd` it calls
  `accept` once. -/
  | handle (result : AcceptResult)
  deriving DecidableEq, Repr

namespace Listener

/-- The state after `addfd(epollfd, listenfd, false)`, when some clients have
connected since `listen`. -/
def start (early : Nat) : Listener where
  backlog := early
  edge := decide (0 < early)
  events := []

/-- `accept`, if it can have this result. -/
def accept (s : Listener) : AcceptResult → Option Listener
  | .failed => some s
  | .connection | .aborted =>
      match s.backlog with
      | 0 => none
      | backlog + 1 => some { s with backlog := backlog }

def step (s : Listener) : ListenLabel → Option Listener
  | .arrive => some { s with backlog := s.backlog + 1, edge := true }
  | .wait ready =>
      if s.events = [] ∧ ready ≠ [] ∧ ready.length ≤ maxEventNumber ∧
          ready.count .listenfd ≤ s.edge.toNat then
        some
          { s with
            edge := s.edge && !ready.contains .listenfd
            events := ready }
      else
        none
  | .interrupted => if s.events = [] then some s else none
  | .handle result =>
      match s.events with
      | [] => none
      | .client _ :: events => some { s with events := events }
      | .listenfd :: events => { s with events := events }.accept result

/-- `main` is about to call `epoll_wait` and will wait for another client. -/
def Blocks (s : Listener) : Prop :=
  s.events = [] ∧ s.edge = false

/-- Clients arrive one at a time: no edge is pending when one arrives.  And
`accept` leaves no client behind. -/
def OneByOne (s : Listener) : ListenLabel → Prop
  | .arrive => s.edge = false
  | .handle .failed => ∀ events, s.events = .listenfd :: events → s.backlog = 0
  | _ => True

/-- Every client in the queue has its edge, pending or reported. -/
def Noticed (s : Listener) : Prop :=
  s.backlog = s.edge.toNat + s.events.count .listenfd

theorem noticed_start {early : Nat} (single : early ≤ 1) :
    (start early).Noticed := by
  unfold Noticed start
  by_cases none : early = 0
  · subst none
    rfl
  · have one : early = 1 := by omega
    subst one
    rfl

theorem noticed_wait
    {s next : Listener} {ready : List Source} (noticed : s.Noticed)
    (stepped : s.step (.wait ready) = some next) : next.Noticed := by
  simp only [step] at stepped
  split at stepped
  · next possible =>
      obtain ⟨handled, _, _, reported⟩ := possible
      cases stepped
      unfold Noticed at noticed ⊢
      rw [handled, List.count_nil, Nat.add_zero] at noticed
      rw [noticed]
      by_cases member : Source.listenfd ∈ ready
      · -- the edge was pending and is now reported
        have positive := List.count_pos_iff.mpr member
        have atMostOne := Bool.toNat_le s.edge
        have contains : ready.contains .listenfd = true := by
          simpa using member
        rw [contains, Bool.not_true, Bool.and_false, Bool.toNat_false]
        show s.edge.toNat = 0 + ready.count .listenfd
        omega
      · have contains : ready.contains .listenfd = false := by
          simpa using member
        rw [contains, List.count_eq_zero.mpr member, Bool.not_false,
          Bool.and_true, Nat.add_zero]
  · cases stepped

theorem noticed_handle
    {s next : Listener} {result : AcceptResult} (noticed : s.Noticed)
    (oneByOne : s.OneByOne (.handle result))
    (stepped : s.step (.handle result) = some next) : next.Noticed := by
  simp only [step] at stepped
  unfold Noticed at noticed ⊢
  split at stepped
  · cases stepped
  · next sockfd events first =>
      cases stepped
      rw [first, List.count_cons_of_ne (by simp)] at noticed
      exact noticed
  · next events first =>
      rw [first, List.count_cons_self] at noticed
      cases result with
      | failed =>
          have empty : s.backlog = 0 := oneByOne events first
          omega
      | connection | aborted =>
          simp only [accept] at stepped
          split at stepped
          · cases stepped
          · next backlog length =>
              cases stepped
              rw [length] at noticed
              simp only
              omega

theorem noticed_step
    (s : Listener) (label : ListenLabel) (next : Listener)
    (noticed : s.Noticed) (oneByOne : s.OneByOne label)
    (stepped : s.step label = some next) : next.Noticed := by
  cases label with
  | arrive =>
      have noEdge : s.edge = false := oneByOne
      cases stepped
      unfold Noticed at noticed ⊢
      rw [noEdge, Bool.toNat_false] at noticed
      rw [Bool.toNat_true]
      show s.backlog + 1 = 1 + s.events.count .listenfd
      omega
  | wait ready => exact noticed_wait noticed stepped
  | interrupted =>
      simp only [step] at stepped
      split at stepped
      · cases stepped
        exact noticed
      · cases stepped
  | handle result => exact noticed_handle noticed oneByOne stepped

/-- No connection is forgotten when clients arrive one at a time: whenever
`main` blocks, the listen queue is empty. -/
theorem backlog_empty
    {early : Nat} {labels : List ListenLabel} {last : Listener}
    (single : early ≤ 1)
    (oneByOne : StepsMeet step OneByOne (start early) labels)
    (ran : run step (start early) labels = some last)
    (blocks : last.Blocks) : last.backlog = 0 := by
  have noticed :=
    guarded_run_keeps OneByOne Noticed noticed_step (noticed_start single)
      oneByOne ran
  obtain ⟨handled, noEdge⟩ := blocks
  unfold Noticed at noticed
  rw [handled, noEdge] at noticed
  exact noticed

/-- A second client that arrives when the first one has been reported is
accepted as well. -/
theorem backlog_empty_after_two :
    ∃ last,
      run step (start 0)
          [.arrive, .wait [.listenfd], .arrive, .handle .connection,
            .wait [.listenfd], .handle .connection] = some last ∧
        last.backlog = 0 := by
  have ran :
      run step (start 0)
          [.arrive, .wait [.listenfd], .arrive, .handle .connection,
            .wait [.listenfd], .handle .connection] =
        some ⟨0, false, []⟩ := by
    decide
  refine ⟨_, ran, backlog_empty (Nat.zero_le 1) ?_ ran ⟨rfl, rfl⟩⟩
  exact
    stepsMeet_cons rfl rfl <| stepsMeet_cons trivial rfl <|
      stepsMeet_cons rfl rfl <| stepsMeet_cons trivial rfl <|
      stepsMeet_cons trivial rfl <| stepsMeet_cons trivial rfl trivial

/-- Two clients arrive before `main` wakes up: one of them is forgotten. -/
theorem backlog_forgets :
    ∃ last,
      run step (start 0)
          [.arrive, .arrive, .wait [.listenfd], .handle .connection] =
        some last ∧
      last.Blocks ∧ last.backlog = 1 :=
  ⟨⟨1, false, []⟩, by decide, ⟨rfl, rfl⟩, rfl⟩

end Listener

end LinuxNet.WebServer
