import LinuxNet.Reactor.TableInvariant

/-!
# The descriptors of the clients

A descriptor that `accept` returned stays with the server until it is closed.
In both reactors each of them is the descriptor of exactly one registered
slot, and no slot is registered for −1, as long as `acceptconn` serves what
`accept` returns and `recvdata` closes what it gives up.
-/

namespace LinuxNet.Reactor

open LinuxNet.StepSystem

/-- The server, and the descriptors that `accept` returned and that were not
closed since. -/
structure Server where
  world : World
  clients : Int → Bool

/-- The descriptor that `accept` returns in a step. -/
def Label.acceptedFd : Label → Option Int
  | .test (.accept (.connection fd _) _) => some fd
  | _ => none

def Server.step
    (program : Program) (server : Server) (label : Label) : Option Server :=
  (program.step server.world label).map fun next =>
    { world := next
      clients := fun fd =>
        (server.clients fd || label.acceptedFd == some fd) &&
          next.kernel.isOpen fd }

def Server.start
    (program : Program) (lfd : Nat) (now : Int) (others : Nat → Bool) :
    Server :=
  ⟨program.start lfd now others, fun _ => false⟩

/-- Every open descriptor of a client is that of exactly one slot with status
1, and no slot with status 1 has −1. -/
structure NoLeak (program : Program) (server : Server) : Prop where
  served :
    ∀ fd, server.clients fd = true →
      ∃! place, place ≤ program.maxEvents ∧
        (server.world.slots place).status = 1 ∧
          (server.world.slots place).fd = fd
  valid :
    ∀ place, place ≤ program.maxEvents →
      (server.world.slots place).status = 1 →
        (server.world.slots place).fd ≠ -1

/-- `my_reactor.c` needs a descriptor from `accept` wherever a slot is free,
and no failure of `recv`; both need a free slot for each descriptor, and
`epoll_reactor_server.c` that `fcntl` succeeds. -/
def Serves (program : Program) (server : Server) : Label → Prop
  | .test (.accept .failed _) =>
      program = .epollReactor ∨ server.world.Full program
  | .test (.accept (.connection _ nonblocking) _) =>
      ¬ server.world.Full program ∧
        (program = .myReactor ∨ nonblocking = true)
  | .test (.recv result _) => ¬ Abandoned program result
  | _ => True

variable {program : Program}

/-- A slot of a connection is registered for the descriptor. -/
def Held (program : Program) (slots : Nat → MyEvent) (fd : Int) : Prop :=
  ∃ place, place < program.maxEvents ∧ (slots place).status = 1 ∧
    (slots place).fd = fd

theorem held_update_of_status
    {slots : Nat → MyEvent} {place : Nat}
    (inTable : place < program.maxEvents) {slot : MyEvent}
    (status : slot.status = 1)
    (same : (slots place).status = 1 → slot.fd = (slots place).fd)
    (fd : Int) :
    Held program (Function.update slots place slot) fd ↔
      fd = slot.fd ∨ Held program slots fd := by
  constructor
  · rintro ⟨other, otherInTable, otherStatus, otherFd⟩
    by_cases samePlace : other = place
    · subst samePlace
      rw [Function.update_self] at otherFd
      exact .inl otherFd.symm
    · rw [Function.update_of_ne samePlace] at otherStatus otherFd
      exact .inr ⟨other, otherInTable, otherStatus, otherFd⟩
  · rintro (rfl | ⟨other, otherInTable, otherStatus, otherFd⟩)
    · refine ⟨place, inTable, ?_⟩
      rw [Function.update_self]
      exact ⟨status, rfl⟩
    · refine ⟨other, otherInTable, ?_⟩
      by_cases samePlace : other = place
      · subst samePlace
        rw [Function.update_self]
        exact ⟨status, (same otherStatus).trans otherFd⟩
      · rw [Function.update_of_ne samePlace]
        exact ⟨otherStatus, otherFd⟩

theorem isOpen_of_held
    {listener : MyEvent} {slots : Nat → MyEvent} {kernel : Kernel}
    (table : TableInvariant program listener slots kernel) {fd : Int}
    (held : Held program slots fd) : kernel.isOpen fd = true := by
  obtain ⟨place, inTable, status, rfl⟩ := held
  exact table.isOpen_of_status (Nat.le_of_lt inTable) status

theorem held_update_of_free
    {listener : MyEvent} {slots : Nat → MyEvent} {kernel : Kernel}
    (table : TableInvariant program listener slots kernel) {place : Nat}
    (inTable : place < program.maxEvents)
    (status : (slots place).status = 1) (fd : Int) :
    Held program
        (Function.update slots place { slots place with status := 0 })
        fd ↔
      Held program slots fd ∧ fd ≠ (slots place).fd := by
  constructor
  · rintro ⟨other, otherInTable, otherStatus, otherFd⟩
    by_cases samePlace : other = place
    · subst samePlace
      rw [Function.update_self] at otherStatus
      exact absurd otherStatus Nat.zero_ne_one
    · rw [Function.update_of_ne samePlace] at otherStatus otherFd
      refine ⟨⟨other, otherInTable, otherStatus, otherFd⟩, ?_⟩
      intro same
      have equal :=
        table.place_eq (Nat.le_of_lt inTable) (Nat.le_of_lt otherInTable)
          status otherStatus (otherFd.trans same)
      exact samePlace equal.symm
  · rintro ⟨⟨other, otherInTable, otherStatus, rfl⟩, different⟩
    refine ⟨other, otherInTable, ?_⟩
    have samePlace : other ≠ place := by
      rintro rfl
      exact different rfl
    rw [Function.update_of_ne samePlace]
    exact ⟨otherStatus, rfl⟩

theorem giveSlot_status
    (program : Program) (fd now : Int) (slot : MyEvent) :
    (giveSlot program fd now slot).slot.status = 1 := by
  rw [giveSlot_eq]

theorem giveSlot_fd
    (program : Program) (fd now : Int) (slot : MyEvent) :
    (giveSlot program fd now slot).slot.fd = fd := by
  rw [giveSlot_eq]

/-- A step leaves the slots alone, settles a registered slot or accepts. -/
inductive Turn
    (program : Program) (server next : Server) (label : Label) : Prop
  | keeps (serves : Serves program server label)
      (accepted : label.acceptedFd = none)
      (slots : next.world.slots = server.world.slots)
      (isOpen : next.world.kernel.isOpen = server.world.kernel.isOpen) :
      Turn program server next label
  | settles {place : Nat} {effect : Effect} {abandoned : Prop}
      (serves : Serves program server label ↔ ¬ abandoned)
      (accepted : label.acceptedFd = none)
      (inTable : place < program.maxEvents)
      (status : (server.world.slots place).status = 1)
      (shape :
        RearmsOrReleases (server.world.slots place) effect abandoned)
      (slots :
        next.world.slots =
          Function.update server.world.slots place effect.slot)
      (kernel :
        next.world.kernel =
          server.world.kernel.calls place effect.calls) :
      Turn program server next label
  | accepts {now : Int} {result : AcceptResult} {world : World}
      (isAccept : label = .test (.accept result now))
      (accepted : Accepts program server.world now result world)
      (slots : next.world.slots = world.slots)
      (kernel : next.world.kernel = world.kernel) :
      Turn program server next label

theorem turn_of_same
    {server next : Server} {label : Label} {world : World}
    (serves : Serves program server label)
    (accepted : label.acceptedFd = none) (after : world = next.world)
    (slots : world.slots = server.world.slots)
    (kernel : world.kernel = server.world.kernel) :
    Turn program server next label := by
  rw [after] at slots kernel
  exact .keeps serves accepted slots (congrArg Kernel.isOpen kernel)

theorem turn_of_invoked
    {server next : Server} {event : Ready} {outcome : Outcome}
    {world : World} (live : Live program server.world event)
    (invoked : Invoked program server.world event outcome world)
    (slots : next.world.slots = world.slots)
    (kernel : next.world.kernel = world.kernel) :
    Turn program server next (.test outcome) := by
  cases invoked with
  | receives connection =>
      exact
        .settles Iff.rfl rfl (Nat.lt_of_le_of_ne live.inTable connection)
          live.status (recvdata_rearmsOrReleases _ _ live.status) slots
          kernel
  | sends connection =>
      exact
        .settles (iff_of_true trivial not_false) rfl
          (Nat.lt_of_le_of_ne live.inTable connection) live.status
          (senddata_rearmsOrReleases _ _ live.status) slots kernel
  | accepts accepted => exact .accepts rfl accepted slots kernel
  | quiet => exact .keeps trivial rfl slots (congrArg Kernel.isOpen kernel)

theorem turn_of_check
    {listener : MyEvent} {server next : Server} {left : Nat} {now : Int}
    (invariant : WorldInvariant program listener server.world)
    (checked : next.world = server.world.check program left now) :
    Turn program server next .check := by
  have inTable := checkPlace_lt invariant
  unfold World.check at checked
  generalize
    (if server.world.checkpos = program.maxEvents then 0
      else server.world.checkpos) = place
    at inTable checked
  by_cases expired :
      (server.world.slots place).status = 1 ∧
        60 ≤ now - (server.world.slots place).lastActive
  · simp only [if_pos expired] at checked
    have shape := expire_rearmsOrReleases program expired.1
    refine
      .settles (iff_of_true trivial not_false) rfl inTable expired.1
        shape ?_ ?_
    · rw [checked]
      rfl
    · rw [checked]
      rfl
  · simp only [if_neg expired] at checked
    exact turn_of_same trivial rfl checked.symm rfl rfl

theorem turn_of_step
    {listener : MyEvent} (isListener : listener.callBack = .acceptconn)
    {server next : Server} {label : Label}
    (invariant : WorldInvariant program listener server.world)
    (stepped : program.step server.world label = some next.world) :
    Turn program server next label := by
  cases label with
  | clock now =>
      rw [Program.step] at stepped
      split at stepped
      · exact turn_of_same trivial rfl (Option.some.inj stepped) rfl rfl
      · cases stepped
  | check =>
      rw [Program.step] at stepped
      split at stepped
      · exact turn_of_check invariant (Option.some.inj stepped).symm
      · cases stepped
  | wait events =>
      rw [Program.step] at stepped
      split at stepped
      · exact turn_of_same trivial rfl (Option.some.inj stepped) rfl rfl
      · cases stepped
  | waitFails =>
      rw [Program.step] at stepped
      split at stepped
      · exact turn_of_same trivial rfl (Option.some.inj stepped) rfl rfl
      · cases stepped
  | test outcome =>
      rw [Program.step] at stepped
      split at stepped
      · rename_i second event rest stage
        obtain ⟨world, tested, after⟩ := Option.map_eq_some_iff.mp stepped
        have underway := invariant.underway
        rw [stage] at underway
        have slots : next.world.slots = world.slots := by rw [← after]
        have kernel : next.world.kernel = world.kernel := by rw [← after]
        rcases invoked_of_test isListener invariant.table
            (live_of_underway underway) tested with
          ⟨rfl, rfl⟩ | ⟨live, invoked⟩
        · exact
            .keeps trivial rfl slots (congrArg Kernel.isOpen kernel)
        · exact turn_of_invoked live invoked slots kernel
      · cases stepped

/-! ## A step that serves -/

structure ServerInvariant
    (program : Program) (listener : MyEvent) (server : Server) : Prop where
  world : WorldInvariant program listener server.world
  negative : server.world.kernel.isOpen (-1) = false
  tracked :
    ∀ fd, server.clients fd = true ↔ Held program server.world.slots fd

theorem noLeak_of_serverInvariant
    {listener : MyEvent} {server : Server}
    (invariant : ServerInvariant program listener server) :
    NoLeak program server := by
  obtain ⟨world, negative, tracked⟩ := invariant
  constructor
  · intro fd client
    obtain ⟨place, inTable, status, sameFd⟩ := (tracked fd).mp client
    have inArray := Nat.le_of_lt inTable
    refine ⟨place, ⟨inArray, status, sameFd⟩, ?_⟩
    rintro other ⟨otherInArray, otherStatus, otherFd⟩
    exact
      world.table.place_eq otherInArray inArray otherStatus status
        (sameFd.trans otherFd.symm)
  · intro place inArray status same
    have isOpen := world.table.isOpen_of_status inArray status
    rw [same, negative] at isOpen
    cases isOpen

theorem acceptChecked_of_serves
    {server : Server} {label : Label}
    (serves : Serves program server label) :
    AcceptChecked program server.world label := by
  cases label with
  | test outcome =>
      cases outcome with
      | accept result now =>
          cases result with
          | failed => exact serves
          | connection fd nonblocking => trivial
      | recv result now => trivial
      | send result now => trivial
      | quiet => trivial
  | clock now => trivial
  | check => trivial
  | wait events => trivial
  | waitFails => trivial

/-- No call but `accept` opens a descriptor. -/
theorem isOpen_of_calls
    {place : Nat} {kernel : Kernel} {calls : List KernelCall} {fd : Int}
    (isOpen : (kernel.calls place calls).isOpen fd = true) :
    kernel.isOpen fd = true := by
  induction calls generalizing kernel with
  | nil => exact isOpen
  | cons call calls inductionHypothesis =>
      have before := inductionHypothesis isOpen
      cases call with
      | add other mask =>
          rw [Kernel.call] at before
          split at before
          · exact before
          · exact before
      | del other => exact before
      | unset other => exact before
      | close other =>
          by_cases same : fd = other
          · subst same
            have closed := Function.update_self fd false kernel.isOpen
            cases closed.symm.trans before
          · have kept :=
              Function.update_of_ne same false kernel.isOpen
            exact kept.symm.trans before

/-- A new descriptor is not negative. -/
theorem negative_of_turn
    {server next : Server} {label : Label}
    (turn : Turn program server next label)
    (negative : server.world.kernel.isOpen (-1) = false) :
    next.world.kernel.isOpen (-1) = false := by
  have opensOther :
      ∀ fd : Nat, (server.world.opens fd).kernel.isOpen (-1) = false := by
    intro fd
    have different : (-1 : Int) ≠ fd := by omega
    show Function.update server.world.kernel.isOpen fd true (-1) = false
    rw [Function.update_of_ne different]
    exact negative
  rw [← Bool.not_eq_true] at negative ⊢
  intro isOpen
  cases turn with
  | keeps serves accepted slots same =>
      rw [same] at isOpen
      exact negative isOpen
  | settles serves accepted inTable status shape slots kernel =>
      rw [kernel] at isOpen
      exact negative (isOpen_of_calls isOpen)
  | accepts isAccept accepted slots kernel =>
      rw [kernel] at isOpen
      cases accepted with
      | nothing ignored => exact negative isOpen
      | unchecked unchecked free =>
          exact negative (isOpen_of_calls isOpen)
      | @leaves fd nonblocking closed unserved =>
          cases (opensOther fd).symm.trans isOpen
      | @gives fd nonblocking place closed served free =>
          have before :
              (server.world.opens fd).kernel.isOpen (-1) = true :=
            isOpen_of_calls isOpen
          cases (opensOther fd).symm.trans before

/-- What is held after a step that serves: what was held or accepted, and is
still open. -/
theorem held_of_turn
    {listener : MyEvent} {server next : Server} {label : Label}
    (table :
      TableInvariant program listener server.world.slots
        server.world.kernel)
    (nextTable :
      TableInvariant program listener next.world.slots next.world.kernel)
    (turn : Turn program server next label)
    (serves : Serves program server label) (fd : Int) :
    Held program next.world.slots fd ↔
      (Held program server.world.slots fd ∨
        label.acceptedFd = some fd) ∧
        next.world.kernel.isOpen fd = true := by
  have isOpen :
      Held program next.world.slots fd →
        next.world.kernel.isOpen fd = true :=
    isOpen_of_held nextTable
  cases turn with
  | keeps _ accepted slots same =>
      rw [slots] at isOpen ⊢
      rw [accepted]
      constructor
      · intro held
        exact ⟨.inl held, isOpen held⟩
      · rintro ⟨held | impossible, _⟩
        · exact held
        · cases impossible
  | @settles place effect abandoned met accepted inTable status shape slots
      kernel =>
      rw [slots] at isOpen ⊢
      rw [accepted]
      cases shape with
      | rearms kept sameFd newStatus fits calls =>
          have held_iff :=
            held_update_of_status inTable newStatus
              (fun _ => sameFd) fd
          constructor
          · intro held
            refine ⟨.inl ?_, isOpen held⟩
            rcases held_iff.mp held with rfl | before
            · exact ⟨place, inTable, status, sameFd.symm⟩
            · exact before
          · rintro ⟨held | impossible, _⟩
            · exact held_iff.mpr (.inr held)
            · cases impossible
      | releases kept freed calls =>
          rw [freed] at isOpen ⊢
          have held_iff := held_update_of_free table inTable status fd
          constructor
          · intro held
            exact ⟨.inl (held_iff.mp held).1, isOpen held⟩
          · rintro ⟨held | impossible, stillOpen⟩
            · refine held_iff.mpr ⟨held, ?_⟩
              rintro rfl
              rw [kernel, calls_release place _ _ calls] at stillOpen
              have closed :=
                Function.update_self (server.world.slots place).fd false
                  server.world.kernel.isOpen
              cases closed.symm.trans stillOpen
            · cases impossible
      | abandons leaked freed calls => exact absurd leaked (met.mp serves)
  | @accepts now result world isAccept accepted slots kernel =>
      subst isAccept
      rw [slots] at isOpen ⊢
      cases accepted with
      | nothing ignored =>
          constructor
          · intro held
            exact ⟨.inl held, isOpen held⟩
          · rintro ⟨held | impossible, _⟩
            · exact held
            · cases impossible
      | unchecked unchecked free =>
          rcases serves with rfl | full
          · cases unchecked
          · cases full.symm.trans free
      | leaves closed unserved =>
          rcases unserved with full | ⟨rfl, rfl⟩
          · exact absurd full serves.1
          · rcases serves.2 with impossible | impossible
            · cases impossible
            · cases impossible
      | @gives new nonblocking place closed served search =>
          obtain ⟨_, inTable, free⟩ := firstFree_spec search
          rw [Nat.zero_add] at inTable
          have held_iff :=
            held_update_of_status inTable
              (giveSlot_status program new now (server.world.slots place))
              (fun registered =>
                absurd (free.symm.trans registered) Nat.zero_ne_one) fd
          rw [giveSlot_fd] at held_iff
          constructor
          · intro held
            refine ⟨?_, isOpen held⟩
            rcases held_iff.mp held with rfl | before
            · exact .inr rfl
            · exact .inl before
          · rintro ⟨held | isNew, _⟩
            · exact held_iff.mpr (.inr held)
            · exact held_iff.mpr (.inl (Option.some.inj isNew).symm)

/-- Where the step leaves no leak, it served. -/
theorem serves_of_noLeak
    {listener : MyEvent} {server next : Server} {label : Label}
    (invariant : ServerInvariant program listener server)
    (turn : Turn program server next label)
    (clients :
      ∀ fd, next.clients fd =
        ((server.clients fd || label.acceptedFd == some fd) &&
          next.world.kernel.isOpen fd))
    (noLeak : NoLeak program next) : Serves program server label := by
  have table := invariant.world.table
  cases turn with
  | keeps serves accepted slots same => exact serves
  | @settles place effect abandoned met accepted inTable status shape slots
      kernel =>
      cases shape with
      | rearms kept sameFd newStatus fits calls => exact met.mpr kept
      | releases kept freed calls => exact met.mpr kept
      | abandons leaked freed calls =>
          -- The descriptor is still open, and its slot was the only one.
          have inArray := Nat.le_of_lt inTable
          have client :
              server.clients (server.world.slots place).fd = true :=
            (invariant.tracked _).mpr ⟨place, inTable, status, rfl⟩
          have stillOpen :
              next.world.kernel.isOpen (server.world.slots place).fd =
                true := by
            rw [kernel, calls]
            exact table.isOpen_of_status inArray status
          have stillClient :
              next.clients (server.world.slots place).fd = true := by
            rw [clients, client, stillOpen]
            rfl
          obtain ⟨other, ⟨otherInArray, otherStatus, otherFd⟩, _⟩ :=
            noLeak.served _ stillClient
          rw [slots, freed] at otherStatus otherFd
          by_cases samePlace : other = place
          · subst samePlace
            rw [Function.update_self] at otherStatus
            exact absurd otherStatus Nat.zero_ne_one
          · rw [Function.update_of_ne samePlace] at otherStatus otherFd
            have equal :=
              table.place_eq inArray otherInArray status otherStatus
                otherFd
            exact absurd equal.symm samePlace
  | @accepts now result world isAccept accepted slots kernel =>
      subst isAccept
      cases accepted with
      | nothing ignored => exact ignored
      | @unchecked unchecked place free =>
          obtain ⟨_, inTable, _⟩ := firstFree_spec free
          rw [Nat.zero_add] at inTable
          have given :
              next.world.slots place =
                (giveSlot program (-1) now
                  (server.world.slots place)).slot := by
            rw [slots]
            exact Function.update_self ..
          have valid := noLeak.valid place (Nat.le_of_lt inTable)
          rw [given, giveSlot_status, giveSlot_fd] at valid
          exact absurd rfl (valid rfl)
      | @leaves fd nonblocking closed unserved =>
          have nowOpen : next.world.kernel.isOpen fd = true := by
            rw [kernel]
            exact Function.update_self ..
          have client : next.clients fd = true := by
            rw [clients, nowOpen, Bool.and_true, Bool.or_eq_true]
            exact .inr (beq_self_eq_true _)
          obtain ⟨place, ⟨inArray, status, sameFd⟩, _⟩ :=
            noLeak.served fd client
          rw [slots] at status sameFd
          have isOpen := table.isOpen_of_status inArray status
          have opened : server.world.kernel.isOpen fd = true := by
            rw [← sameFd]
            exact isOpen
          exact absurd opened closed
      | gives closed served free =>
          refine ⟨fun full => ?_, served⟩
          cases full.symm.trans free

theorem server_step
    {server next : Server} {label : Label}
    (stepped : server.step program label = some next) :
    program.step server.world label = some next.world ∧
      ∀ fd, next.clients fd =
        ((server.clients fd || label.acceptedFd == some fd) &&
          next.world.kernel.isOpen fd) := by
  obtain ⟨world, worldStepped, rfl⟩ := Option.map_eq_some_iff.mp stepped
  exact ⟨worldStepped, fun _ => rfl⟩

theorem serving_step_keeps
    {listener : MyEvent} (isListener : listener.callBack = .acceptconn)
    (listenerWaits : listener.events = epollin)
    {server next : Server} {label : Label}
    (invariant : ServerInvariant program listener server)
    (serves : Serves program server label)
    (stepped : server.step program label = some next) :
    ServerInvariant program listener next := by
  obtain ⟨worldStepped, clients⟩ := server_step stepped
  have turn := turn_of_step isListener invariant.world worldStepped
  have world :=
    step_keeps_world isListener listenerWaits invariant.world
      (acceptChecked_of_serves serves) worldStepped
  refine ⟨world, negative_of_turn turn invariant.negative, fun fd => ?_⟩
  rw [clients, Bool.and_eq_true, Bool.or_eq_true, beq_iff_eq,
    invariant.tracked,
    held_of_turn invariant.world.table world.table turn serves]

theorem serverInvariant_start
    (program : Program) (lfd : Nat) (now : Int) (others : Nat → Bool) :
    ServerInvariant program (listeningSlot lfd now)
      (Server.start program lfd now others) := by
  have world := start_invariant program lfd now others
  refine ⟨world, ?_, fun fd => ?_⟩
  · have opened :
        ∀ fd : Int, (Server.start program lfd now others).world.kernel.isOpen
          fd = true → 0 ≤ fd := by
      intro fd isOpen
      have before :
          Function.update (openAmong others) lfd true fd = true :=
        isOpen_of_calls isOpen
      by_cases same : fd = lfd
      · rw [same]
        exact Int.natCast_nonneg lfd
      · rw [Function.update_of_ne same] at before
        unfold openAmong at before
        rw [Bool.and_eq_true, decide_eq_true_eq] at before
        exact before.1
    rw [← Bool.not_eq_true]
    intro isOpen
    exact absurd (opened _ isOpen) (by decide)
  · constructor
    · intro impossible
      cases impossible
    · rintro ⟨place, inTable, status, _⟩
      have free :
          (Server.start program lfd now others).world.slots place =
            MyEvent.zeroed :=
        Function.update_of_ne (Nat.ne_of_lt inTable) ..
      rw [free] at status
      exact absurd status Nat.zero_ne_one

theorem throughout_iff_of_serverInvariant
    {listener : MyEvent} (isListener : listener.callBack = .acceptconn)
    (listenerWaits : listener.events = epollin)
    {server last : Server} {labels : List Label}
    (invariant : ServerInvariant program listener server)
    (ran : run (Server.step program) server labels = some last) :
    Throughout (Server.step program) (NoLeak program) server labels ↔
      StepsMeet (Server.step program) (Serves program) server labels :=
  throughout_iff_stepsMeet (ServerInvariant program listener)
    (fun _ invariant => noLeak_of_serverInvariant invariant)
    (fun _ _ _ invariant serves stepped =>
      serving_step_keeps isListener listenerWaits invariant serves stepped)
    (fun _ _ _ invariant stepped noLeak =>
      have taken := server_step stepped
      serves_of_noLeak invariant
        (turn_of_step isListener invariant.world taken.1) taken.2 noLeak)
    invariant ran

/-- No descriptor of a client leaks and no slot is registered for −1, after
any number of steps, exactly when every step serves. -/
theorem descriptors_kept_iff
    (program : Program) (lfd : Nat) (now : Int) (others : Nat → Bool)
    (labels : List Label) (last : Server)
    (ran :
      run (Server.step program) (Server.start program lfd now others)
        labels = some last) :
    Throughout (Server.step program) (NoLeak program)
        (Server.start program lfd now others) labels ↔
      StepsMeet (Server.step program) (Serves program)
        (Server.start program lfd now others) labels :=
  throughout_iff_of_serverInvariant rfl rfl
    (serverInvariant_start program lfd now others) ran

def loopRound (now : Int) (fd : Nat) (outcome : Outcome) : List Label :=
  .clock now :: List.replicate 100 .check ++
    [.wait [(fd, epollin)], .test outcome]

set_option maxRecDepth 100000 in
/-- The first connection. -/
theorem descriptors_kept_first_connection :
    Throughout (Server.step .epollReactor) (NoLeak .epollReactor)
        (Server.start .epollReactor 4 0 fun fd => fd == 3)
        (loopRound 1 4 (.accept (.connection 5 true) 2)) ↔
      StepsMeet (Server.step .epollReactor) (Serves .epollReactor)
        (Server.start .epollReactor 4 0 fun fd => fd == 3)
        (loopRound 1 4 (.accept (.connection 5 true) 2)) :=
  descriptors_kept_iff .epollReactor 4 0 (fun fd => fd == 3)
    (loopRound 1 4 (.accept (.connection 5 true) 2)) _ rfl

def NeverLeaks (program : Program) : Prop :=
  ∀ (lfd : Nat) (now : Int) (others : Nat → Bool) (labels : List Label)
    (last : Server),
    run (Server.step program) (Server.start program lfd now others) labels =
        some last →
      Throughout (Server.step program) (NoLeak program)
        (Server.start program lfd now others) labels

theorem served_of_neverLeaks
    (never : NeverLeaks program) {lfd : Nat} {now : Int}
    {others : Nat → Bool} {initial : List Label} {label : Label}
    {last : Server}
    (ran :
      run (Server.step program) (Server.start program lfd now others)
        (initial ++ [label]) = some last) :
    ∃ server, run (Server.step program)
        (Server.start program lfd now others) initial = some server ∧
      Serves program server label := by
  have invariant := serverInvariant_start program lfd now others
  have throughout := never lfd now others _ last ran
  have meets :=
    (throughout_iff_of_serverInvariant rfl rfl invariant ran).mp throughout
  exact guard_of_stepsMeet meets ran

set_option maxRecDepth 100000 in
/-- `fcntl` fails in the one program, and `recv` in the other. -/
theorem not_neverLeaks :
    ¬ NeverLeaks .epollReactor ∧ ¬ NeverLeaks .myReactor := by
  constructor
  · intro never
    obtain ⟨_, _, _, impossible | impossible⟩ :=
      served_of_neverLeaks never
        (show run (Server.step .epollReactor)
            (Server.start .epollReactor 4 0 fun fd => fd == 3)
            (.clock 1 :: List.replicate 100 .check ++ [.wait [(4, 1)]] ++
              [.test (.accept (.connection 5 false) 2)]) = some _ from rfl)
    · cases impossible
    · cases impossible
  · intro never
    obtain ⟨_, _, closes⟩ :=
      served_of_neverLeaks never
        (show run (Server.step .myReactor)
            (Server.start .myReactor 4 0 fun fd => fd == 3)
            (loopRound 1 4 (.accept (.connection 5 true) 2) ++
              .test .quiet :: .clock 3 :: List.replicate 100 .check ++
                [.wait [(5, 1)]] ++ [.test (.recv .failed 4)]) = some _
          from rfl)
    exact closes ⟨rfl, rfl⟩

end LinuxNet.Reactor
