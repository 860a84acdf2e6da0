import LinuxNet.Lib.DrainLoop

/-!
# The children of the multi-process server

`main` installs `catch_child` before its first `fork`.  The kernel keeps one
pending bit for SIGCHLD, whatever the number of children that have exited, and
holds the signal back while `catch_child` runs.  `catch_child` reaps until
`waitpid` finds no exited child; one that exits behind that call sets the bit,
and the handler runs again after it has returned.
-/

namespace LinuxNet.MulProcess

open LinuxNet.StepSystem LinuxNet.DrainLoop

/-- What `fork` returns in the parent. -/
structure Child where
  pid : Nat
  positive : 0 < pid
  deriving DecidableEq, Repr

/-- What happens to a call of `accept`. -/
inductive Accepted where
  | client
  | interrupted
  | fails
  deriving DecidableEq, Repr

/-- Where `main` of the parent stands. -/
inductive MainAt where
  | sigaction
  | accept
  | fork
  | close
  | exited
  deriving DecidableEq, Repr

/-- Who does the next step: `main`, a child, the kernel or `catch_child`. -/
inductive Event where
  | sigaction (succeeds : Bool)
  | accept (accepted : Accepted)
  | fork (child : Option Child)
  | close
  | childExits (child : Child)
  | childStops
  | deliver
  | waitpid (child : Option Child)
  | handlerReturns
  deriving DecidableEq, Repr

structure Server where
  mainAt : MainAt
  running : List Child
  exited : List Child
  pending : Bool
  handler : Worker
  deriving DecidableEq, Repr

namespace Server

def start : Server :=
  ⟨.sigaction, [], [], false, .away⟩

/-- `main` is there, and no handler has interrupted it. -/
def RunsMain (server : Server) (mainAt : MainAt) : Prop :=
  server.mainAt = mainAt ∧ server.handler = .away

instance (server : Server) (mainAt : MainAt) :
    Decidable (server.RunsMain mainAt) := by
  unfold RunsMain
  infer_instance

/-- `Accept`, which calls `accept` again after a signal and ends the program
where it fails for another reason. -/
def accept (server : Server) (accepted : Accepted) : Server :=
  match accepted with
  | .client => { server with mainAt := .fork }
  | .interrupted => server
  | .fails => { server with mainAt := .exited }

/-- `pid = fork()`.  The kernel gives no number twice that is still taken. -/
def fork (server : Server) (child : Option Child) : Option Server :=
  match child with
  | none => some { server with mainAt := .exited }
  | some child =>
      if child ∈ server.running ∨ child ∈ server.exited then
        none
      else
        some
          { server with
            mainAt := .close
            running := child :: server.running }

/-- `waitpid(-1, NULL, WNOHANG)`: any exited child, 0 where there is none, or
−1 where there are no children at all. -/
def waitpid (server : Server) (child : Option Child) :
    Option (Int × Server) :=
  match child with
  | some child =>
      if child ∈ server.exited then
        some
          (child.pid, { server with exited := server.exited.erase child })
      else
        none
  | none =>
      if server.exited = [] then
        some (if server.running = [] then -1 else 0, server)
      else
        none

/-- One turn of `while (waitpid(..) > 0)`. -/
def catchChild (server : Server) (child : Option Child) : Option Server :=
  (server.waitpid child).map fun returned =>
    if 0 < returned.1 then
      returned.2
    else
      { returned.2 with handler := .leaves }

def step (server : Server) (event : Event) : Option Server :=
  if server.mainAt = .exited then
    none
  else
    match event with
    | .sigaction succeeds =>
        if server.RunsMain .sigaction then
          some
            { server with
              mainAt := if succeeds then .accept else .exited }
        else
          none
    | .accept accepted =>
        if server.RunsMain .accept then
          some (server.accept accepted)
        else
          none
    | .fork child =>
        if server.RunsMain .fork then
          server.fork child
        else
          none
    | .close =>
        if server.RunsMain .close then
          some { server with mainAt := .accept }
        else
          none
    | .childExits child =>
        if child ∈ server.running then
          some
            { server with
              running := server.running.erase child
              exited := server.exited ++ [child]
              pending := true }
        else
          none
    -- `SA_NOCLDSTOP` is not set, so a child that stops raises the signal too.
    | .childStops =>
        if server.running = [] then
          none
        else
          some { server with pending := true }
    | .deliver =>
        if server.pending = true ∧ server.handler = .away then
          some { server with pending := false, handler := .drains }
        else
          none
    | .waitpid child =>
        if server.handler = .drains then
          server.catchChild child
        else
          none
    | .handlerReturns =>
        if server.handler = .leaves then
          some { server with handler := .away }
        else
          none

/-- What the server looks like from its zombies. -/
def notice (server : Server) : Notice :=
  ⟨!server.exited.isEmpty, server.pending, server.handler⟩

/-! ## No zombie is forgotten -/

variable {server next : Server}

/-- The steps of `main` and of a child that goes on leave the zombies as they
are. -/
theorem moves_of_same
    (exited : next.exited = server.exited)
    (pending : next.pending = server.pending)
    (handler : next.handler = server.handler) :
    Moves server.notice next.notice := by
  unfold notice
  rw [exited, pending, handler]
  exact .stays _

theorem moves_of_fork
    {child : Option Child} (forked : server.fork child = some next) :
    Moves server.notice next.notice := by
  unfold fork at forked
  cases child with
  | none =>
      cases forked
      exact moves_of_same rfl rfl rfl
  | some child =>
      by_cases taken : child ∈ server.running ∨ child ∈ server.exited
      · simp only [if_pos taken] at forked
        cases forked
      · simp only [if_neg taken] at forked
        cases forked
        exact moves_of_same rfl rfl rfl

/-- A turn of the handler takes a zombie, or there is none. -/
theorem catchChild_cases
    {child : Option Child} (turned : server.catchChild child = some next) :
    (∃ reaped, reaped ∈ server.exited ∧
        next = { server with exited := server.exited.erase reaped }) ∨
      server.exited = [] ∧ next = { server with handler := .leaves } := by
  unfold catchChild waitpid at turned
  cases child with
  | none =>
      by_cases empty : server.exited = []
      · simp only [if_pos empty, Option.map_some, Option.some.injEq] at turned
        have notPositive :
            ¬ (0 : Int) < if server.running = [] then -1 else 0 := by
          split
          · decide
          · decide
        rw [if_neg notPositive] at turned
        exact Or.inr ⟨empty, turned.symm⟩
      · simp only [if_neg empty, Option.map_none] at turned
        cases turned
  | some child =>
      by_cases member : child ∈ server.exited
      · simp only [if_pos member, Option.map_some, Option.some.injEq] at turned
        have positive : (0 : Int) < child.pid :=
          Int.natCast_pos.mpr child.positive
        rw [if_pos positive] at turned
        exact Or.inl ⟨child, member, turned.symm⟩
      · simp only [if_neg member, Option.map_none] at turned
        cases turned

theorem moves_of_catchChild
    {child : Option Child} (drains : server.handler = .drains)
    (turned : server.catchChild child = some next) :
    Moves server.notice next.notice := by
  rcases catchChild_cases turned with ⟨reaped, member, rfl⟩ | ⟨empty, rfl⟩
  · have waiting : (!server.exited.isEmpty) = true := by
      rw [List.isEmpty_eq_false_iff_exists_mem.mpr ⟨reaped, member⟩]
      rfl
    unfold notice
    rw [waiting, drains]
    exact .takes _ _
  · unfold notice
    rw [empty, drains]
    exact .findsNone _

theorem step_moves
    {event : Event} (stepped : server.step event = some next) :
    Moves server.notice next.notice := by
  unfold step at stepped
  split at stepped
  · cases stepped
  · cases event with
    | sigaction succeeds =>
        obtain ⟨_, same⟩ := Option.ite_none_right_eq_some.mp stepped
        cases same
        exact moves_of_same rfl rfl rfl
    | accept accepted =>
        obtain ⟨_, same⟩ := Option.ite_none_right_eq_some.mp stepped
        cases same
        cases accepted with
        | client => exact moves_of_same rfl rfl rfl
        | interrupted => exact moves_of_same rfl rfl rfl
        | fails => exact moves_of_same rfl rfl rfl
    | fork child =>
        obtain ⟨_, forked⟩ := Option.ite_none_right_eq_some.mp stepped
        exact moves_of_fork forked
    | close =>
        obtain ⟨_, same⟩ := Option.ite_none_right_eq_some.mp stepped
        cases same
        exact moves_of_same rfl rfl rfl
    | childExits child =>
        obtain ⟨_, same⟩ := Option.ite_none_right_eq_some.mp stepped
        cases same
        exact .arrives server.notice _
    | childStops =>
        obtain ⟨_, same⟩ := Option.ite_none_left_eq_some.mp stepped
        cases same
        exact .arrives server.notice _
    | deliver =>
        obtain ⟨⟨pending, away⟩, same⟩ :=
          Option.ite_none_right_eq_some.mp stepped
        cases same
        unfold notice
        rw [pending, away]
        exact .starts _
    | waitpid child =>
        obtain ⟨drains, turned⟩ := Option.ite_none_right_eq_some.mp stepped
        exact moves_of_catchChild drains turned
    | handlerReturns =>
        obtain ⟨leaves, same⟩ := Option.ite_none_right_eq_some.mp stepped
        cases same
        unfold notice
        rw [leaves]
        exact .returns _ _

theorem announced_of_events
    {events : List Event} (ran : run step start events = some server) :
    Announced server.notice :=
  announced_of_run notice (fun _ _ _ => step_moves)
    (fun impossible => by cases impossible) ran

/-- In no reachable state is there an exited child while SIGCHLD is not
pending and `catch_child` does not run. -/
theorem no_zombie_is_forgotten
    (events : List Event) (server : Server)
    (ran : run step start events = some server) :
    ¬ (server.exited ≠ [] ∧ server.pending = false ∧
      server.handler = .away) := by
  rintro ⟨zombies, clear, away⟩
  have waiting : server.notice.waiting = true := by
    simp [notice, zombies]
  exact (announced_of_events ran).not_forgotten waiting clear away

/-- Two children exit before the signal is delivered once, and a third one
between the last `waitpid` and the return of the handler. -/
def lateExit : List Event :=
  [.sigaction true, .accept .client, .fork (some ⟨7, by decide⟩), .close,
    .accept .client, .fork (some ⟨8, by decide⟩), .close, .accept .client,
    .fork (some ⟨9, by decide⟩), .close, .childExits ⟨7, by decide⟩,
    .childExits ⟨8, by decide⟩, .deliver, .waitpid (some ⟨8, by decide⟩),
    .waitpid (some ⟨7, by decide⟩), .waitpid none,
    .childExits ⟨9, by decide⟩, .handlerReturns]

theorem no_zombie_is_forgotten_late :
    ¬ ([(⟨9, by decide⟩ : Child)] ≠ [] ∧ true = false ∧
      Worker.away = .away) :=
  no_zombie_is_forgotten lateExit
    ⟨.accept, [], [⟨9, by decide⟩], true, .away⟩ rfl

/-- A step of the kernel or of `catch_child`. -/
def OfHandler : Event → Prop
  | .deliver | .waitpid _ | .handlerReturns => True
  | _ => False

/-- The zombies are gone, and nothing has happened to `main` and to the other
children. -/
structure Reaped (before after : Server) : Prop where
  none_exited : after.exited = []
  away : after.handler = .away
  mainAt_eq : after.mainAt = before.mainAt
  running_eq : after.running = before.running

/-- The kernel and the handler alone lead to a state without zombies. -/
def Reaps (server : Server) : Prop :=
  ∃ events last, (∀ event ∈ events, OfHandler event) ∧
    run step server events = some last ∧ Reaped server last

theorem reaps_of_none_exited
    (empty : server.exited = []) (away : server.handler = .away) :
    server.Reaps := by
  refine ⟨[], server, ?_, rfl, ⟨empty, away, rfl, rfl⟩⟩
  intro event impossible
  cases impossible

theorem reaps_of_step
    (event : Event) (byHandler : OfHandler event)
    (stepped : server.step event = some next)
    (mainAt : next.mainAt = server.mainAt)
    (running : next.running = server.running) (reaps : next.Reaps) :
    server.Reaps := by
  obtain ⟨events, last, others, ran, reaped⟩ := reaps
  refine
    ⟨event :: events, last, List.forall_mem_cons.mpr ⟨byHandler, others⟩, ?_,
      ⟨reaped.none_exited, reaped.away, reaped.mainAt_eq.trans mainAt,
        reaped.running_eq.trans running⟩⟩
  exact
    (run_cons_eq_some_iff server last event events).mpr ⟨next, stepped, ran⟩

theorem step_handlerReturns
    (alive : server.mainAt ≠ .exited) (leaves : server.handler = .leaves) :
    server.step .handlerReturns = some { server with handler := .away } := by
  rw [step, if_neg alive]
  exact if_pos leaves

theorem step_deliver
    (alive : server.mainAt ≠ .exited) (pending : server.pending = true)
    (away : server.handler = .away) :
    server.step .deliver =
      some { server with pending := false, handler := .drains } := by
  rw [step, if_neg alive]
  exact if_pos ⟨pending, away⟩

/-- As long as no other child exits, the handler takes one zombie after the
other, and returns. -/
theorem reaps_of_drains
    (alive : server.mainAt ≠ .exited) (drains : server.handler = .drains) :
    server.Reaps := by
  generalize zombies : server.exited = exited
  induction exited generalizing server with
  | nil =>
      have stepped :
          server.step (.waitpid none) =
            some { server with handler := .leaves } := by
        rw [step, if_neg alive]
        by_cases alone : server.running = []
        · simp [drains, catchChild, waitpid, zombies, alone]
        · simp [drains, catchChild, waitpid, zombies, alone]
      have left : Reaps { server with handler := .leaves } :=
        reaps_of_step .handlerReturns trivial
          (step_handlerReturns alive rfl) rfl rfl
          (reaps_of_none_exited zombies rfl)
      exact reaps_of_step (.waitpid none) trivial stepped rfl rfl left
  | cons child exited inductionHypothesis =>
      have positive : child.pid ≠ 0 := Nat.ne_of_gt child.positive
      have stepped :
          server.step (.waitpid (some child)) =
            some { server with exited := exited } := by
        rw [step, if_neg alive]
        simp [drains, catchChild, waitpid, positive, zombies]
      have later : Reaps { server with exited := exited } :=
        inductionHypothesis alive drains rfl
      exact
        reaps_of_step (.waitpid (some child)) trivial stepped rfl rfl later

theorem reaps_of_away
    (announced : Announced server.notice)
    (alive : server.mainAt ≠ .exited) (away : server.handler = .away) :
    server.Reaps := by
  by_cases empty : server.exited = []
  · exact reaps_of_none_exited empty away
  · have waiting : server.notice.waiting = true := by
      simp [notice, empty]
    rcases announced waiting with pending | drains
    · exact
        reaps_of_step .deliver trivial (step_deliver alive pending away) rfl rfl
          (reaps_of_drains alive rfl)
    · rw [show server.notice.worker = server.handler from rfl, away] at drains
      cases drains

/-- From every state that the server reaches and survives, the kernel and the
handler alone lead to one without zombies. -/
theorem reaps_of_run
    {events : List Event} (ran : run step start events = some server)
    (alive : server.mainAt ≠ .exited) : server.Reaps := by
  have announced := announced_of_events ran
  generalize handlerEq : server.handler = handler
  cases handler with
  | away => exact reaps_of_away announced alive handlerEq
  | drains => exact reaps_of_drains alive handlerEq
  | leaves =>
      have returned : Announced (notice { server with handler := .away }) := by
        apply announced.move
        unfold notice
        rw [handlerEq]
        exact .returns _ _
      exact
        reaps_of_step .handlerReturns trivial
          (step_handlerReturns alive handlerEq) rfl rfl
          (reaps_of_away returned alive rfl)

end Server

end LinuxNet.MulProcess
