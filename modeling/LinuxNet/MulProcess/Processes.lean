import LinuxNet.MulProcess.Children

/-!
# The process table of the multi-process server

As long as the parent lives, the processes that the kernel counts as running
are the children that have not died, and `catch_child` is all that it takes for
the kernel to have no others.
-/

namespace LinuxNet.MulProcess

open LinuxNet.StepSystem LinuxNet.Threads

/-- The process of a child, as long as it runs. -/
def Proc.process (proc : Proc) : Option Child :=
  if proc.running then some proc.pid else none

namespace Family

variable {listenFd : Nat} {family next : Family} {number : Nat}
variable {proc new : Proc} {server : Server}

/-- What a step is for the parent and its zombies. -/
def serverEvents (family : Family) : Label → List Event
  | .accept _ => [.accept .client]
  | .fork child => [.fork (some child)]
  | .close => [.close]
  | .parent event => [event]
  | .child number .dies =>
      match family.procs[number]? with
      | some proc =>
          if family.server.mainAt = .exited then
            []
          else
            [.childExits proc.pid]
      | none => []
  | .arrives _ _ | .finishes _ | .child _ _ => []

/-- The kernel's processes are the children that have not died. -/
def Lists (family : Family) : Prop :=
  family.server.mainAt ≠ .exited →
    family.server.running.Perm (family.procs.filterMap Proc.process)

theorem release_server (family : Family) (conn : Nat) :
    (family.release conn).server = family.server ∧
      (family.release conn).procs = family.procs := by
  unfold release
  split
  · exact ⟨rfl, rfl⟩
  · exact ⟨rfl, rfl⟩

theorem releaseAll_server (family : Family) (conns : List Nat) :
    (family.releaseAll conns).server = family.server ∧
      (family.releaseAll conns).procs = family.procs := by
  induction conns generalizing family with
  | nil => exact ⟨rfl, rfl⟩
  | cons conn conns inductionHypothesis =>
      obtain ⟨server, procs⟩ := release_server family conn
      obtain ⟨later, laterProcs⟩ := inductionHypothesis (family.release conn)
      exact ⟨later.trans server, laterProcs.trans procs⟩

/-- A step that neither begins nor ends a process. -/
theorem Lists.of_same
    (lists : family.Lists)
    (alive : next.server.mainAt ≠ .exited → family.server.mainAt ≠ .exited)
    (running : next.server.running = family.server.running)
    (procs :
      next.procs.filterMap Proc.process =
        family.procs.filterMap Proc.process) : next.Lists := by
  intro stillAlive
  rw [running, procs]
  exact lists (alive stillAlive)

theorem alive_of_step
    {event : Event} (stepped : family.server.step event = some server) :
    family.server.mainAt ≠ .exited := by
  unfold Server.step at stepped
  exact (Option.ite_none_left_eq_some.mp stepped).1

def runningBehind (running : List Child) : Event → List Child
  | .fork (some child) => child :: running
  | .childExits child => running.erase child
  | _ => running

/-- Only `fork` and the end of a child change what runs. -/
theorem running_of_step
    {event : Event} (stepped : family.server.step event = some server) :
    server.running = runningBehind family.server.running event := by
  unfold Server.step at stepped
  obtain ⟨_, stepped⟩ := Option.ite_none_left_eq_some.mp stepped
  cases event with
  | accept accepted =>
      obtain ⟨_, isNext⟩ := Option.ite_none_right_eq_some.mp stepped
      cases isNext
      cases accepted with
      | _ => rfl
  | fork child =>
      obtain ⟨_, forked⟩ := Option.ite_none_right_eq_some.mp stepped
      cases child with
      | none =>
          cases forked
          rfl
      | some child =>
          obtain ⟨_, isNext⟩ := Option.ite_none_left_eq_some.mp forked
          cases isNext
          rfl
  | childStops =>
      obtain ⟨_, isNext⟩ := Option.ite_none_left_eq_some.mp stepped
      cases isNext
      rfl
  | waitpid child =>
      obtain ⟨_, turned⟩ := Option.ite_none_right_eq_some.mp stepped
      rcases Server.catchChild_cases turned with ⟨_, _, rfl⟩ | ⟨_, rfl⟩
      · rfl
      · rfl
  | _ =>
      obtain ⟨_, isNext⟩ := Option.ite_none_right_eq_some.mp stepped
      cases isNext
      rfl

theorem running_of_quiet
    {event : Event} (isQuiet : quiet event = true)
    (stepped : family.server.step event = some server) :
    server.running = family.server.running := by
  have running := running_of_step stepped
  cases event with
  | fork child =>
      cases child with
      | none => exact running
      | some child => cases isQuiet
  | childExits child => cases isQuiet
  | _ => exact running

/-- A step of the family in the model of the parent and its zombies. -/
structure Parented (family : Family) (label : Label) (next : Family) :
    Prop where
  ran :
    run Server.step family.server (family.serverEvents label) =
      some next.server
  lists : family.Lists → next.Lists

theorem parented_parent
    {event : Event} (happened : family.parent event = some next) :
    Parented family (.parent event) next := by
  obtain ⟨isQuiet, happened⟩ := Option.ite_none_right_eq_some.mp happened
  obtain ⟨server, stepped, isNext⟩ := Option.map_eq_some_iff.mp happened
  have running := running_of_quiet isQuiet stepped
  have alive := alive_of_step stepped
  have same : next.server = server ∧ next.procs = family.procs := by
    split at isNext
    · cases isNext
      exact releaseAll_server _ _
    · cases isNext
      exact ⟨rfl, rfl⟩
  constructor
  · rw [same.1]
    exact run_singleton_eq_some_iff.mpr stepped
  · intro lists
    refine lists.of_same (fun _ => alive) ?_ ?_
    · rw [same.1, running]
    · rw [same.2]

/-- What a child does but for dying leaves the parent and the processes
alone. -/
theorem child_keeps
    (isAt : family.procs[number]? = some proc) {call : ChildCall}
    (lives : call ≠ .dies)
    (called : family.child number proc call = some next) :
    next.server = family.server ∧
      next.procs.filterMap Proc.process =
        family.procs.filterMap Proc.process := by
  cases call with
  | closeListen =>
      obtain ⟨_, isNext⟩ := Option.ite_none_right_eq_some.mp called
      cases isNext
      exact ⟨rfl, filterMap_set_of_eq isAt rfl⟩
  | read returned =>
      obtain ⟨_, isRead⟩ := Option.ite_none_right_eq_some.mp called
      obtain ⟨conn, _, isRead⟩ := Option.bind_eq_some_iff.mp isRead
      cases returned with
      | items count =>
          obtain ⟨_, isNext⟩ := Option.ite_none_right_eq_some.mp isRead
          cases isNext
          exact ⟨rfl, filterMap_set_of_eq isAt rfl⟩
      | zero =>
          obtain ⟨_, isNext⟩ := Option.ite_none_right_eq_some.mp isRead
          cases isNext
          exact ⟨rfl, filterMap_set_of_eq isAt rfl⟩
      | error =>
          cases isRead
          exact ⟨rfl, rfl⟩
  | write count =>
      simp only [Family.child] at called
      split at called
      · obtain ⟨conn, _, rfl⟩ := Option.map_eq_some_iff.mp called
        exact ⟨rfl, filterMap_set_of_eq isAt rfl⟩
      all_goals cases called
  | close =>
      obtain ⟨_, isNext⟩ := Option.ite_none_right_eq_some.mp called
      cases isNext
      obtain ⟨server, procs⟩ :=
        releaseAll_server (family.setChild number (childClosed proc))
          (proc.fds.lookup proc.clientFd).toList
      refine ⟨server, ?_⟩
      rw [procs]
      exact filterMap_set_of_eq isAt rfl
  | dies => exact absurd rfl lives

@[simp]
theorem server_withServer_setChild :
    ((family.withServer server).setChild number proc).server = server :=
  rfl

theorem serverEvents_child
    (family : Family) (number : Nat) {call : ChildCall}
    (lives : call ≠ .dies) :
    family.serverEvents (.child number call) = [] := by
  cases call with
  | dies => exact absurd rfl lives
  | _ => rfl

theorem parented_child
    (isAt : family.procs[number]? = some proc) {call : ChildCall}
    (lives : call ≠ .dies)
    (called : family.child number proc call = some next) :
    Parented family (.child number call) next := by
  obtain ⟨server, processes⟩ := child_keeps isAt lives called
  constructor
  · rw [serverEvents_child family number lives, server]
    rfl
  · intro lists
    refine lists.of_same (fun alive => ?_) ?_ processes
    · rw [← server]
      exact alive
    · rw [server]

/-- The parent loses the process of a child that dies, or has gone before. -/
theorem parented_dies
    (isAt : family.procs[number]? = some proc)
    (running : proc.running = true)
    (called : family.child number proc .dies = some next) :
    Parented family (.child number .dies) next := by
  obtain ⟨server, heard, rfl⟩ := Option.map_eq_some_iff.mp called
  obtain ⟨isServer, procs⟩ :=
    releaseAll_server
      ((family.withServer server).setChild number (childGone proc))
      (proc.fds.map Prod.snd)
  have events :
      family.serverEvents (.child number .dies) =
        if family.server.mainAt = .exited then []
        else [.childExits proc.pid] := by
    simp only [serverEvents, isAt]
  unfold hear at heard
  by_cases exited : family.server.mainAt = .exited
  · rw [if_pos exited] at heard events
    cases heard
    constructor
    · rw [events, isServer]
      rfl
    · intro _ alive
      rw [isServer] at alive
      exact absurd exited alive
  · rw [if_neg exited] at heard events
    constructor
    · rw [events, isServer]
      exact run_singleton_eq_some_iff.mpr heard
    · intro lists _
      rw [isServer, procs]
      have gone :
          (family.procs.filterMap Proc.process).Perm
            (proc.pid ::
              (family.procs.set number (childGone proc)).filterMap
                Proc.process) :=
        filterMap_perm_cons_set isAt (if_pos running) rfl
      have erased := ((lists exited).trans gone).erase proc.pid
      rw [List.erase_cons_head] at erased
      rw [server_withServer_setChild, running_of_step heard]
      exact erased

theorem parented_step
    {label : Label} (stepped : family.step listenFd label = some next) :
    Parented family label next := by
  cases label with
  | arrives conn bytes =>
      obtain ⟨channel, _, rfl⟩ := Option.map_eq_some_iff.mp stepped
      exact ⟨rfl, id⟩
  | finishes conn =>
      cases stepped
      exact ⟨rfl, id⟩
  | accept clientFd =>
      obtain ⟨_, accepted⟩ := Option.ite_none_left_eq_some.mp stepped
      obtain ⟨server, taken, rfl⟩ := Option.map_eq_some_iff.mp accepted
      exact
        ⟨run_singleton_eq_some_iff.mpr taken, fun lists =>
          lists.of_same (fun _ => alive_of_step taken)
            (running_of_step taken) rfl⟩
  | fork child =>
      obtain ⟨server, forked, rfl⟩ := Option.map_eq_some_iff.mp stepped
      refine ⟨run_singleton_eq_some_iff.mpr forked, fun lists _ => ?_⟩
      have before := lists (alive_of_step forked)
      simp only [born_fields, withServer_fields, server_withServer,
        List.filterMap_append]
      rw [running_of_step forked]
      exact (before.cons child).trans (List.perm_append_singleton ..).symm
  | close =>
      obtain ⟨server, closed, rfl⟩ := Option.map_eq_some_iff.mp stepped
      obtain ⟨isServer, procs⟩ :=
        releaseAll_server (family.withServer server).parentClosed
          (family.parentFds.lookup family.clientFd).toList
      constructor
      · rw [isServer]
        exact run_singleton_eq_some_iff.mpr closed
      · intro lists
        refine lists.of_same (fun _ => alive_of_step closed) ?_ ?_
        · rw [isServer]
          exact running_of_step closed
        · rw [procs]
          rfl
  | parent event => exact parented_parent stepped
  | child number call =>
      simp only [step] at stepped
      split at stepped
      · next proc isAt =>
          obtain ⟨running, called⟩ :=
            Option.ite_none_right_eq_some.mp stepped
          by_cases dies : call = .dies
          · subst dies
            exact parented_dies isAt running called
          · exact parented_child isAt dies called
      · cases stepped

def serverSimulation (listenFd : Nat) :
    Simulation (step listenFd) Server.step where
  view := Family.server
  acts := serverEvents
  Valid := Lists
  valid_step := fun lists stepped => (parented_step stepped).lists lists
  run_acts := fun _ stepped => (parented_step stepped).ran

theorem lists_start : start.Lists :=
  fun _ => .refl _

/-- The signal and its handler are steps of the family, and leave `main` and
the children where they are. -/
theorem step_ofHandler
    {event : Event} (ofHandler : Server.OfHandler event)
    (stepped : family.server.step event = some server) :
    family.step listenFd (.parent event) =
        some (family.withServer server) ∧
      server.mainAt = family.server.mainAt := by
  have alive := alive_of_step stepped
  have isQuiet : quiet event = true := by
    cases event with
    | deliver => rfl
    | waitpid child => rfl
    | handlerReturns => rfl
    | _ => exact ofHandler.elim
  have same : server.mainAt = family.server.mainAt := by
    unfold Server.step at stepped
    rw [if_neg alive] at stepped
    cases event with
    | deliver =>
        obtain ⟨_, isNext⟩ := Option.ite_none_right_eq_some.mp stepped
        cases isNext
        rfl
    | waitpid child =>
        obtain ⟨_, turned⟩ := Option.ite_none_right_eq_some.mp stepped
        rcases Server.catchChild_cases turned with ⟨_, _, rfl⟩ | ⟨_, rfl⟩
        · rfl
        · rfl
    | handlerReturns =>
        obtain ⟨_, isNext⟩ := Option.ite_none_right_eq_some.mp stepped
        cases isNext
        rfl
    | _ => exact ofHandler.elim
  have happened : family.parent event = some (family.withServer server) := by
    unfold Family.parent
    rw [if_pos isQuiet, stepped, Option.map_some, same, if_neg alive]
  exact ⟨happened, same⟩

theorem run_ofHandler
    {events : List Event} {last : Server}
    (ofHandler : ∀ event ∈ events, Server.OfHandler event)
    (ran : run Server.step family.server events = some last) :
    run (step listenFd) family (events.map .parent) =
      some (family.withServer last) := by
  induction events generalizing family with
  | nil =>
      cases ran
      rfl
  | cons event events inductionHypothesis =>
      obtain ⟨here, others⟩ := List.forall_mem_cons.mp ofHandler
      obtain ⟨server, stepped, rest⟩ :=
        (run_cons_eq_some_iff family.server last event events).mp ran
      have first :
          family.step listenFd (.parent event) =
            some (family.withServer server) :=
        (step_ofHandler here stepped).1
      rw [List.map_cons, run_cons_eq_some_iff]
      exact ⟨family.withServer server, first, inductionHypothesis others rest⟩

/-- From every state that the parent is alive in, its signals and their handler
alone lead to one in which the kernel has no other processes for the server
than the children that have not died; nothing else changes. -/
theorem processes_are_the_children
    {labels : List Label} {last : Family}
    (ran : run (step listenFd) start labels = some last)
    (alive : last.server.mainAt ≠ .exited) :
    ∃ (events : List Event) (settled : Server),
      (∀ event ∈ events, Server.OfHandler event) ∧
        run (step listenFd) last (events.map .parent) =
            some (last.withServer settled) ∧
          settled.mainAt = last.server.mainAt ∧
            settled.exited = [] ∧
              settled.running.Perm (last.procs.filterMap Proc.process) := by
  have lists : last.Lists :=
    (serverSimulation listenFd).valid_run lists_start ran
  have seen := (serverSimulation listenFd).run_translated lists_start ran
  obtain ⟨events, settled, ofHandler, reaped, reapedLast⟩ :=
    Server.reaps_of_run seen alive
  refine
    ⟨events, settled, ofHandler, run_ofHandler ofHandler reaped,
      reapedLast.mainAt_eq, reapedLast.none_exited, ?_⟩
  rw [reapedLast.running_eq]
  exact lists alive

/-- The first child has died, and the handler has not run. -/
def firstGone : List Label :=
  reusedNumber ++ [.child 0 .dies]

theorem processes_are_the_children_first :
    ∃ last,
      run (step 3) start firstGone = some last ∧
        last.server.mainAt ≠ .exited ∧
          ∃ (events : List Event) (settled : Server),
            (∀ event ∈ events, Server.OfHandler event) ∧
              run (step 3) last (events.map .parent) =
                  some (last.withServer settled) ∧
                settled.mainAt = last.server.mainAt ∧
                  settled.exited = [] ∧
                    settled.running.Perm
                      (last.procs.filterMap Proc.process) :=
  ⟨_, rfl, nofun, @processes_are_the_children 3 firstGone _ rfl nofun⟩

end Family

end LinuxNet.MulProcess
