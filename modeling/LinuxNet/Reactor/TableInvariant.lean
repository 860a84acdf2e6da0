import LinuxNet.Reactor.EventTable

/-!
# The invariant of the slot table

A slot has status 1 exactly while the interest list holds its descriptor with
a pointer to it.  Within a batch no two events point to the same slot, and the
only callbacks that free a slot run for the event that points to it; so the
events that are left still point to the connections that they were reported
for.
-/

namespace LinuxNet.Reactor

open LinuxNet.Registry
open LinuxNet.StepSystem

/-- The descriptor and the mask of a slot that is being listened to. -/
def listed
    (program : Program) (slots : Nat → MyEvent) (place : Nat) :
    Option (Int × Nat) :=
  if place ≤ program.maxEvents ∧ (slots place).status = 1 then
    some ((slots place).fd, (slots place).events)
  else
    none

/-- The callback of a slot goes with its mask. -/
inductive CallBackFits (slot : MyEvent) : Prop
  | unused (events : slot.events = 0) : CallBackFits slot
  | receives (events : slot.events = epollin)
      (callBack : slot.callBack = .recvdata) : CallBackFits slot
  | sends (events : slot.events = epollout)
      (callBack : slot.callBack = .senddata) : CallBackFits slot

structure TableInvariant
    (program : Program) (listener : MyEvent) (slots : Nat → MyEvent)
    (kernel : Kernel) : Prop where
  matched : Matched (listed program slots) kernel.interest
  opened :
    ∀ fd entry, kernel.interest fd = some entry → kernel.isOpen fd = true
  status : ∀ place, (slots place).status = 0 ∨ (slots place).status = 1
  fits : ∀ place, place < program.maxEvents → CallBackFits (slots place)
  listening : slots program.maxEvents = listener

theorem Program.maxEvents_pos (program : Program) : 0 < program.maxEvents := by
  cases program <;> decide

variable {program : Program}

theorem listed_eq_some_iff
    (slots : Nat → MyEvent) (place : Nat) (fd : Int) (mask : Nat) :
    listed program slots place = some (fd, mask) ↔
      place ≤ program.maxEvents ∧ (slots place).status = 1 ∧
        (slots place).fd = fd ∧ (slots place).events = mask := by
  unfold listed
  by_cases inUse : place ≤ program.maxEvents ∧ (slots place).status = 1
  · rw [if_pos inUse, Option.some_inj, Prod.mk.injEq]
    exact ⟨fun same => ⟨inUse.1, inUse.2, same⟩, fun all => all.2.2⟩
  · rw [if_neg inUse]
    constructor
    · intro impossible
      cases impossible
    · intro all
      exact absurd ⟨all.1, all.2.1⟩ inUse

theorem listed_of_status
    {slots : Nat → MyEvent} {place : Nat}
    (inTable : place ≤ program.maxEvents)
    (status : (slots place).status = 1) :
    listed program slots place =
      some ((slots place).fd, (slots place).events) :=
  if_pos ⟨inTable, status⟩

theorem listed_of_free
    {slots : Nat → MyEvent} {place : Nat}
    (status : (slots place).status = 0) :
    listed program slots place = none := by
  unfold listed
  rw [if_neg]
  intro inUse
  rw [status] at inUse
  exact absurd inUse.2 Nat.zero_ne_one

theorem listed_update_of_status
    (slots : Nat → MyEvent) {place : Nat} {slot : MyEvent}
    (inTable : place ≤ program.maxEvents) (status : slot.status = 1) :
    listed program (Function.update slots place slot) =
      Function.update (listed program slots) place
        (some (slot.fd, slot.events)) := by
  funext other
  by_cases same : other = place
  · subst same
    unfold listed
    rw [Function.update_self, Function.update_self,
      if_pos ⟨inTable, status⟩]
  · unfold listed
    rw [Function.update_of_ne same, Function.update_of_ne same]

theorem listed_update_of_free
    (slots : Nat → MyEvent) {place : Nat} {slot : MyEvent}
    (status : slot.status = 0) :
    listed program (Function.update slots place slot) =
      Function.update (listed program slots) place none := by
  funext other
  by_cases same : other = place
  · subst same
    rw [Function.update_self]
    apply listed_of_free
    rw [Function.update_self]
    exact status
  · unfold listed
    rw [Function.update_of_ne same, Function.update_of_ne same]

theorem TableInvariant.place_eq
    {listener : MyEvent} {slots : Nat → MyEvent} {kernel : Kernel}
    (table : TableInvariant program listener slots kernel)
    {place other : Nat} (inTable : place ≤ program.maxEvents)
    (otherInTable : other ≤ program.maxEvents)
    (status : (slots place).status = 1)
    (otherStatus : (slots other).status = 1)
    (same : (slots other).fd = (slots place).fd) : place = other := by
  have held := listed_of_status inTable status
  have otherHeld := listed_of_status otherInTable otherStatus
  rw [same] at otherHeld
  exact table.matched.place_eq held otherHeld

theorem TableInvariant.isOpen_of_status
    {listener : MyEvent} {slots : Nat → MyEvent} {kernel : Kernel}
    (table : TableInvariant program listener slots kernel) {place : Nat}
    (inTable : place ≤ program.maxEvents)
    (status : (slots place).status = 1) :
    kernel.isOpen (slots place).fd = true := by
  have held := listed_of_status inTable status
  exact table.opened _ _ ((table.matched _ _ _).mp held)

/-- A slot below the listening one is registered, anew or with another
mask. -/
theorem TableInvariant.put
    {listener : MyEvent} {slots : Nat → MyEvent} {kernel : Kernel}
    (invariant : TableInvariant program listener slots kernel)
    {place : Nat} (inTable : place < program.maxEvents) {slot : MyEvent}
    (status : slot.status = 1) (fits : CallBackFits slot)
    (placeFree :
      ∀ entry, listed program slots place = some entry → entry.1 = slot.fd)
    (keyFree :
      ∀ entry, kernel.interest slot.fd = some entry → entry.1 = place) :
    TableInvariant program listener (Function.update slots place slot)
      { isOpen := Function.update kernel.isOpen slot.fd true
        interest :=
          Function.update kernel.interest slot.fd
            (some (place, slot.events)) } where
  matched := by
    rw [listed_update_of_status slots (Nat.le_of_lt inTable) status]
    exact invariant.matched.put slot.events placeFree keyFree
  opened := by
    intro fd entry registered
    by_cases same : fd = slot.fd
    · subst same
      exact Function.update_self ..
    · have before : kernel.interest fd = some entry := by
        rw [← registered]
        exact (Function.update_of_ne same ..).symm
      show Function.update kernel.isOpen slot.fd true fd = true
      rw [Function.update_of_ne same]
      exact invariant.opened fd entry before
  status := by
    intro other
    by_cases same : other = place
    · subst same
      rw [Function.update_self]
      exact .inr status
    · rw [Function.update_of_ne same]
      exact invariant.status other
  fits := by
    intro other below
    by_cases same : other = place
    · subst same
      rw [Function.update_self]
      exact fits
    · rw [Function.update_of_ne same]
      exact invariant.fits other below
  listening := by
    rw [Function.update_of_ne (Nat.ne_of_gt inTable)]
    exact invariant.listening

/-- A slot below the listening one is freed; its descriptor may be closed. -/
theorem TableInvariant.remove
    {listener : MyEvent} {slots : Nat → MyEvent} {kernel : Kernel}
    (invariant : TableInvariant program listener slots kernel)
    {place : Nat} (inTable : place < program.maxEvents)
    (status : (slots place).status = 1) {isOpen : Int → Bool}
    (same : ∀ fd, fd ≠ (slots place).fd → isOpen fd = kernel.isOpen fd) :
    TableInvariant program listener
      (Function.update slots place { slots place with status := 0 })
      { isOpen
        interest :=
          Function.update kernel.interest (slots place).fd none } where
  matched := by
    rw [listed_update_of_free slots rfl]
    exact
      invariant.matched.remove
        (listed_of_status (Nat.le_of_lt inTable) status)
  opened := by
    intro fd entry registered
    by_cases sameFd : fd = (slots place).fd
    · subst sameFd
      have removed := Function.update_self (slots place).fd none
        kernel.interest
      cases registered.symm.trans removed
    · have before : kernel.interest fd = some entry := by
        rw [← registered]
        exact (Function.update_of_ne sameFd ..).symm
      show isOpen fd = true
      rw [same fd sameFd]
      exact invariant.opened fd entry before
  status := by
    intro other
    by_cases samePlace : other = place
    · subst samePlace
      rw [Function.update_self]
      exact .inl rfl
    · rw [Function.update_of_ne samePlace]
      exact invariant.status other
  fits := by
    intro other below
    by_cases samePlace : other = place
    · subst samePlace
      rw [Function.update_self]
      cases invariant.fits other below with
      | unused events => exact .unused events
      | receives events callBack => exact .receives events callBack
      | sends events callBack => exact .sends events callBack
    · rw [Function.update_of_ne samePlace]
      exact invariant.fits other below
  listening := by
    rw [Function.update_of_ne (Nat.ne_of_gt inTable)]
    exact invariant.listening

/-- A descriptor is opened that no slot gets. -/
theorem TableInvariant.openOther
    {listener : MyEvent} {slots : Nat → MyEvent} {kernel : Kernel}
    (invariant : TableInvariant program listener slots kernel) (fd : Int) :
    TableInvariant program listener slots
      { kernel with isOpen := Function.update kernel.isOpen fd true } where
  matched := invariant.matched
  opened := by
    intro other entry registered
    by_cases same : other = fd
    · subst same
      exact Function.update_self ..
    · show Function.update kernel.isOpen fd true other = true
      rw [Function.update_of_ne same]
      exact invariant.opened other entry registered
  status := invariant.status
  fits := invariant.fits
  listening := invariant.listening

/-- The slot is registered with another mask, or it is freed and its
descriptor closed, unless that is abandoned. -/
inductive RearmsOrReleases
    (slot : MyEvent) (effect : Effect) (abandoned : Prop) : Prop
  | rearms (kept : ¬ abandoned) (fd : effect.slot.fd = slot.fd)
      (status : effect.slot.status = 1) (fits : CallBackFits effect.slot)
      (calls :
        effect.calls =
          [.del slot.fd, .add effect.slot.fd effect.slot.events]) :
      RearmsOrReleases slot effect abandoned
  | releases (kept : ¬ abandoned)
      (freed : effect.slot = { slot with status := 0 })
      (calls :
        effect.calls = [.del slot.fd, .close slot.fd] ∨
          effect.calls = [.close slot.fd, .del slot.fd]) :
      RearmsOrReleases slot effect abandoned
  | abandons (leaked : abandoned)
      (freed : effect.slot = { slot with status := 0 })
      (calls : effect.calls = [.del slot.fd]) :
      RearmsOrReleases slot effect abandoned

/-- `recvdata` does not close the descriptor. -/
def Abandoned (program : Program) (result : RecvResult) : Prop :=
  program = .myReactor ∧ result = .failed

theorem recvdata_rearmsOrReleases
    (result : RecvResult) (now : Int) {slot : MyEvent}
    (registered : slot.status = 1) :
    RearmsOrReleases slot (recvdata program slot.fd result now slot)
      (Abandoned program result) := by
  have ended :
      result = .closed ∨ result = .failed →
        (recvdata program slot.fd result now slot).slot =
          { slot with status := 0 } :=
    fun ends =>
      (recvdata_without_data program slot.fd now ends registered).1
  cases result with
  | data bytes =>
      have kept : ¬ Abandoned program (.data bytes) := by
        rintro ⟨_, impossible⟩
        cases impossible
      rw [recvdata_data program slot.fd bytes now registered]
      exact .rearms kept rfl rfl (.sends rfl rfl) rfl
  | closed =>
      have kept : ¬ Abandoned program .closed := by
        rintro ⟨_, impossible⟩
        cases impossible
      refine .releases kept (ended (.inl rfl)) (.inl ?_)
      simp only [recvdata, Effect.andThen, receive,
        eventdel_of_registered registered, closeFd]
      cases program <;> rfl
  | failed =>
      cases program with
      | epollReactor =>
          have kept : ¬ Abandoned .epollReactor .failed := by
            rintro ⟨impossible, _⟩
            cases impossible
          refine .releases kept (ended (.inr rfl)) (.inl ?_)
          simp only [recvdata, Effect.andThen, receive,
            eventdel_of_registered registered, closeFd]
          rfl
      | myReactor =>
          refine .abandons ⟨rfl, rfl⟩ (ended (.inr rfl)) ?_
          simp only [recvdata, Effect.andThen, receive,
            eventdel_of_registered registered]
          rfl

theorem senddata_rearmsOrReleases
    (result : SendResult) (now : Int) {slot : MyEvent}
    (registered : slot.status = 1) :
    RearmsOrReleases slot (senddata program slot.fd result now slot)
      False := by
  cases result with
  | accepts count =>
      rw [senddata_accepts program slot.fd count now registered]
      exact .rearms not_false rfl rfl (.receives rfl rfl) rfl
  | failed =>
      refine
        .releases not_false
          (senddata_failed program slot.fd now registered).1
          (.inl ?_)
      simp only [senddata, Effect.andThen, transmit,
        eventdel_of_registered registered, closeFd]
      cases program <;> rfl

theorem expire_rearmsOrReleases
    (program : Program) {slot : MyEvent} (registered : slot.status = 1) :
    RearmsOrReleases slot (expire program slot) False := by
  refine
    .releases not_false (expire_of_registered program registered).1 ?_
  simp only [expire, Effect.andThen, closeFd,
    eventdel_of_registered registered]
  cases program with
  | epollReactor => exact .inr rfl
  | myReactor => exact .inl rfl

/-- `eventdel` and `eventadd` on an open descriptor. -/
theorem calls_rearm
    (place mask : Nat) {fd : Int} {kernel : Kernel}
    (isOpen : kernel.isOpen fd = true) :
    kernel.calls place [.del fd, .add fd mask] =
      { isOpen := Function.update kernel.isOpen fd true
        interest :=
          Function.update kernel.interest fd (some (place, mask)) } := by
  have free :
      kernel.isOpen fd = true ∧
        Function.update kernel.interest fd none fd = none :=
    ⟨isOpen, Function.update_self ..⟩
  have sameOpen : Function.update kernel.isOpen fd true = kernel.isOpen := by
    rw [← isOpen]
    exact Function.update_eq_self fd kernel.isOpen
  have added :
      kernel.calls place [.del fd, .add fd mask] =
        { isOpen := kernel.isOpen
          interest :=
            Function.update (Function.update kernel.interest fd none) fd
              (some (place, mask)) } :=
    if_pos free
  rw [added, Function.update_idem, sameOpen]

/-- `eventdel` and `close` in either order. -/
theorem calls_release
    (place : Nat) (fd : Int) (kernel : Kernel) {calls : List KernelCall}
    (order :
      calls = [.del fd, .close fd] ∨ calls = [.close fd, .del fd]) :
    kernel.calls place calls =
      { isOpen := Function.update kernel.isOpen fd false
        interest := Function.update kernel.interest fd none } := by
  have removedTwice :=
    Function.update_idem (a := fd) none none kernel.interest
  rcases order with rfl | rfl
  · exact
      congrArg (Kernel.mk (Function.update kernel.isOpen fd false))
        removedTwice
  · exact
      congrArg (Kernel.mk (Function.update kernel.isOpen fd false))
        removedTwice

theorem TableInvariant.rearmOrRelease
    {listener : MyEvent} {slots : Nat → MyEvent} {kernel : Kernel}
    (invariant : TableInvariant program listener slots kernel)
    {place : Nat} (inTable : place < program.maxEvents)
    (status : (slots place).status = 1) {effect : Effect}
    {abandoned : Prop}
    (shape : RearmsOrReleases (slots place) effect abandoned) :
    TableInvariant program listener
      (Function.update slots place effect.slot)
      (kernel.calls place effect.calls) := by
  have held := listed_of_status (Nat.le_of_lt inTable) status
  have registered :=
    (invariant.matched place (slots place).fd (slots place).events).mp held
  cases shape with
  | rearms _ fd newStatus fits calls =>
      rw [← fd] at registered held calls
      rw [calls, calls_rearm place _ (invariant.opened _ _ registered)]
      apply invariant.put inTable newStatus fits
      · intro entry other
        cases held.symm.trans other
        rfl
      · intro entry other
        cases registered.symm.trans other
        rfl
  | releases _ freed calls =>
      rw [freed, calls_release place _ kernel calls]
      apply invariant.remove inTable status
      intro fd different
      exact Function.update_of_ne different ..
  | abandons _ freed calls =>
      rw [freed, calls]
      exact invariant.remove inTable status fun _ _ => rfl

/-- A free slot is given to a descriptor that was not open. -/
theorem TableInvariant.give
    {listener : MyEvent} {slots : Nat → MyEvent} {kernel : Kernel}
    (invariant : TableInvariant program listener slots kernel)
    {place : Nat} {fd : Int} (inTable : place < program.maxEvents)
    (free : (slots place).status = 0)
    (closed : ¬ kernel.isOpen fd = true) {slot : MyEvent}
    (fdEq : slot.fd = fd) (status : slot.status = 1)
    (events : slot.events = epollin) (fits : CallBackFits slot) :
    TableInvariant program listener (Function.update slots place slot)
      (Kernel.calls place
        { kernel with isOpen := Function.update kernel.isOpen fd true }
        [.add fd epollin]) := by
  have unregistered : kernel.interest fd = none := by
    cases registered : kernel.interest fd with
    | none => rfl
    | some entry => exact absurd (invariant.opened fd entry registered) closed
  have added :
      Kernel.calls place
          { kernel with isOpen := Function.update kernel.isOpen fd true }
          [.add fd epollin] =
        { isOpen := Function.update kernel.isOpen slot.fd true
          interest :=
            Function.update kernel.interest slot.fd
              (some (place, slot.events)) } := by
    rw [fdEq, events]
    exact if_pos ⟨Function.update_self .., unregistered⟩
  rw [added]
  apply invariant.put inTable status fits
  · intro entry held
    cases (listed_of_free free).symm.trans held
  · intro entry registered
    rw [fdEq] at registered
    cases unregistered.symm.trans registered

/-! ## The events of a batch -/

/-- The slot of the event is still that of the connection it was reported
for. -/
structure Live
    (program : Program) (world : World) (event : Ready) : Prop where
  inTable : event.slot ≤ program.maxEvents
  status : (world.slots event.slot).status = 1
  holder : world.holder event.slot = event.holder

theorem Live.withStage
    {world : World} {event : Ready} (live : Live program world event)
    (stage : Stage) : Live program { world with stage } event :=
  ⟨live.inTable, live.status, live.holder⟩

/-- The events of a batch point to different slots, and those that are left
are live.  The event between its two tests may have freed its slot, which
then waited for `EPOLLIN`. -/
inductive Underway (program : Program) (world : World) : Stage → Prop
  | checking (left : Nat) (now : Int) :
      Underway program world (.checking left now)
  | waiting : Underway program world .waiting
  | ended : Underway program world .ended
  | first {ready : List Ready} (distinct : (ready.map Ready.slot).Nodup)
      (live : ∀ event ∈ ready, Live program world event) :
      Underway program world (.dispatching false ready)
  | second {event : Ready} {rest : List Ready}
      (distinct : ((event :: rest).map Ready.slot).Nodup)
      (head :
        Live program world event ∨
          (world.slots event.slot).events = epollin)
      (live : ∀ other ∈ rest, Live program world other) :
      Underway program world (.dispatching true (event :: rest))

structure WorldInvariant
    (program : Program) (listener : MyEvent) (world : World) : Prop where
  table : TableInvariant program listener world.slots world.kernel
  checkpos : world.checkpos ≤ program.maxEvents
  underway : Underway program world world.stage
  directed : world.misdirected = false

structure Tested
    (program : Program) (listener : MyEvent) (world next : World)
    (event : Ready) : Prop where
  table : TableInvariant program listener next.slots next.kernel
  checkpos : next.checkpos = world.checkpos
  directed : next.misdirected = world.misdirected
  others :
    ∀ other : Ready, other.slot ≠ event.slot →
      Live program world other → Live program next other
  head :
    Live program next event ∨
      (next.slots event.slot).events = (world.slots event.slot).events

theorem tested_refl
    {listener : MyEvent} {world : World}
    (table : TableInvariant program listener world.slots world.kernel)
    (event : Ready) : Tested program listener world world event :=
  ⟨table, rfl, rfl, fun _ _ live => live, .inr rfl⟩

/-- A callback of a connection changes its own slot only. -/
theorem tested_of_rearmsOrReleases
    {listener : MyEvent} {world : World} {event : Ready}
    (table : TableInvariant program listener world.slots world.kernel)
    (live : Live program world event)
    (connection : event.slot ≠ program.maxEvents)
    {effect : Effect} {abandoned : Prop}
    (shape : RearmsOrReleases (world.slots event.slot) effect abandoned) :
    Tested program listener world (world.apply event.slot effect) event where
  table :=
    table.rearmOrRelease (Nat.lt_of_le_of_ne live.inTable connection)
      live.status shape
  checkpos := rfl
  directed := rfl
  others := by
    intro other different otherLive
    refine ⟨otherLive.inTable, ?_, otherLive.holder⟩
    show (Function.update world.slots event.slot effect.slot
      other.slot).status = 1
    rw [Function.update_of_ne different]
    exact otherLive.status
  head := by
    have same :
        (world.apply event.slot effect).slots event.slot = effect.slot :=
      Function.update_self ..
    rw [same]
    cases shape with
    | rearms _ fd status fits calls =>
        refine .inl ⟨live.inTable, ?_, live.holder⟩
        rw [same]
        exact status
    | releases _ freed calls =>
        rw [freed]
        exact .inr rfl
    | abandons _ freed calls =>
        rw [freed]
        exact .inr rfl

theorem firstFree_spec
    {slots : Nat → MyEvent} {place left found : Nat}
    (search : firstFree slots place left = some found) :
    place ≤ found ∧ found < place + left ∧ (slots found).status = 0 := by
  induction left generalizing place with
  | zero => cases search
  | succ left inductionHypothesis =>
      rw [firstFree] at search
      by_cases free : (slots place).status = 0
      · rw [if_pos free] at search
        cases search
        exact ⟨Nat.le_refl _, by omega, free⟩
      · rw [if_neg free] at search
        obtain ⟨lower, upper, status⟩ := inductionHypothesis search
        exact ⟨by omega, by omega, status⟩

def World.Full (program : Program) (world : World) : Prop :=
  firstFree world.slots 0 program.maxEvents = none

/-- What `acceptconn` can do. -/
inductive Accepts
    (program : Program) (world : World) (now : Int) :
    AcceptResult → World → Prop
  | nothing (ignored : program = .epollReactor ∨ world.Full program) :
      Accepts program world now .failed world
  | unchecked (unchecked : program = .myReactor) {place : Nat}
      (free : firstFree world.slots 0 program.maxEvents = some place) :
      Accepts program world now .failed (world.give program place (-1) now)
  | leaves {fd : Nat} {nonblocking : Bool}
      (closed : ¬ world.kernel.isOpen fd = true)
      (unserved :
        world.Full program ∨
          program = .epollReactor ∧ nonblocking = false) :
      Accepts program world now (.connection fd nonblocking)
        (world.opens fd)
  | gives {fd : Nat} {nonblocking : Bool} {place : Nat}
      (closed : ¬ world.kernel.isOpen fd = true)
      (served : program = .myReactor ∨ nonblocking = true)
      (free : firstFree world.slots 0 program.maxEvents = some place) :
      Accepts program world now (.connection fd nonblocking)
        ((world.opens fd).give program place fd now)

theorem accepts_of_acceptconn
    {world next : World} {now : Int} {result : AcceptResult}
    (accepted : world.acceptconn program now result = some next) :
    Accepts program world now result next := by
  cases search : firstFree world.slots 0 program.maxEvents with
  | none =>
      cases result with
      | failed =>
          cases program with
          | epollReactor =>
              cases accepted
              exact .nothing (.inl rfl)
          | myReactor =>
              simp only [World.acceptconn, search] at accepted
              cases accepted
              exact .nothing (.inr search)
      | connection fd nonblocking =>
          simp only [World.acceptconn, search] at accepted
          split at accepted
          · cases accepted
          · rename_i closed
            cases accepted
            exact .leaves closed (.inl search)
  | some place =>
      cases result with
      | failed =>
          cases program with
          | epollReactor =>
              cases accepted
              exact .nothing (.inl rfl)
          | myReactor =>
              simp only [World.acceptconn, search] at accepted
              cases accepted
              exact .unchecked rfl search
      | connection fd nonblocking =>
          simp only [World.acceptconn, search] at accepted
          split at accepted
          · cases accepted
          · rename_i closed
            by_cases served : program = .myReactor ∨ nonblocking = true
            · rw [if_pos served] at accepted
              cases accepted
              exact .gives closed served search
            · rw [if_neg served] at accepted
              cases accepted
              refine .leaves closed (.inr ?_)
              cases program with
              | epollReactor =>
                  refine ⟨rfl, ?_⟩
                  cases nonblocking with
                  | false => rfl
                  | true => exact absurd (.inr rfl) served
              | myReactor => exact absurd (.inl rfl) served

/-- `accept` fails only where no slot is given to its result. -/
def AcceptChecked (program : Program) (world : World) : Label → Prop
  | .test (.accept .failed _) =>
      program = .epollReactor ∨ world.Full program
  | _ => True

theorem acceptChecked_epollReactor (world : World) (label : Label) :
    AcceptChecked .epollReactor world label := by
  unfold AcceptChecked
  split
  · exact .inl rfl
  · trivial

/-- A new connection gets a slot with status 0, which no live event points
to. -/
theorem tested_of_accepts
    {listener : MyEvent} {world next : World} {event : Ready}
    (table : TableInvariant program listener world.slots world.kernel)
    {result : AcceptResult} {now : Int}
    (checked : AcceptChecked program world (.test (.accept result now)))
    (accepted : Accepts program world now result next)
    (live : Live program world event) :
    Tested program listener world next event := by
  cases accepted with
  | nothing ignored => exact tested_refl table event
  | unchecked unchecked free =>
      rcases checked with rfl | full
      · cases unchecked
      · cases full.symm.trans free
  | @leaves fd nonblocking closed unserved =>
      exact
        ⟨table.openOther fd, rfl, rfl,
          fun _ _ live => ⟨live.inTable, live.status, live.holder⟩,
          .inr rfl⟩
  | @gives fd nonblocking place closed served search =>
      obtain ⟨_, inTable, free⟩ := firstFree_spec search
      rw [Nat.zero_add] at inTable
      rw [World.give, giveSlot_eq]
      have keepsLive :
          ∀ other : Ready, Live program world other →
            other.slot ≠ place := by
        intro other otherLive same
        have status := otherLive.status
        rw [same, free] at status
        exact absurd status Nat.zero_ne_one
      refine
        ⟨table.give inTable free closed rfl rfl rfl (.receives rfl rfl),
          rfl, rfl, ?_, ?_⟩
      · intro other _ otherLive
        have different := keepsLive other otherLive
        refine ⟨otherLive.inTable, ?_, ?_⟩
        · show (Function.update world.slots place _ other.slot).status = 1
          rw [Function.update_of_ne different]
          exact otherLive.status
        · show Function.update world.holder place _ other.slot =
            other.holder
          rw [Function.update_of_ne different]
          exact otherLive.holder
      · have different := keepsLive event live
        refine .inr (congrArg MyEvent.events ?_)
        exact Function.update_of_ne different ..

/-! ## One test -/

/-- A slot that passes a test waits for that event. -/
theorem events_of_selects
    {world : World} {second : Bool} {event : Ready}
    (fits : CallBackFits (world.slots event.slot))
    (selects : world.Selects second event) :
    (world.slots event.slot).events =
      if second = true then epollout else epollin := by
  have selected := selects.2
  cases fits with
  | unused events =>
      rw [events, Nat.zero_and] at selected
      exact absurd rfl selected
  | receives events callBack =>
      rw [events] at selected ⊢
      cases second with
      | false => rfl
      | true => exact absurd (by decide) selected
  | sends events callBack =>
      rw [events] at selected ⊢
      cases second with
      | false => exact absurd (by decide) selected
      | true => rfl

inductive Invoked
    (program : Program) (world : World) (event : Ready) :
    Outcome → World → Prop
  | receives {result : RecvResult} {now : Int}
      (connection : event.slot ≠ program.maxEvents) :
      Invoked program world event (.recv result now)
        (world.apply event.slot
          (recvdata program (world.slots event.slot).fd result now
            (world.slots event.slot)))
  | sends {result : SendResult} {now : Int}
      (connection : event.slot ≠ program.maxEvents) :
      Invoked program world event (.send result now)
        (world.apply event.slot
          (senddata program (world.slots event.slot).fd result now
            (world.slots event.slot)))
  | accepts {result : AcceptResult} {now : Int} {next : World}
      (accepted : Accepts program world now result next) :
      Invoked program world event (.accept result now) next
  | quiet : Invoked program world event .quiet world

theorem invoked_of_invoke
    {listener : MyEvent} (isListener : listener.callBack = .acceptconn)
    {world next : World} {event : Ready}
    (table : TableInvariant program listener world.slots world.kernel)
    {outcome : Outcome}
    (invoked : world.invoke program event outcome = some next) :
    Invoked program world event outcome next := by
  have connection :
      (world.slots event.slot).callBack ≠ .acceptconn →
        event.slot ≠ program.maxEvents := by
    intro different same
    apply different
    rw [same, table.listening]
    exact isListener
  cases outcome with
  | recv result now =>
      rw [World.invoke] at invoked
      by_cases enabled :
          (world.slots event.slot).callBack = .recvdata ∧ result.Possible
      · rw [if_pos enabled] at invoked
        cases invoked
        apply Invoked.receives
        apply connection
        rw [enabled.1]
        decide
      · rw [if_neg enabled] at invoked
        cases invoked
  | send result now =>
      rw [World.invoke] at invoked
      by_cases enabled :
          (world.slots event.slot).callBack = .senddata ∧
            result.Possible (world.slots event.slot).len
      · rw [if_pos enabled] at invoked
        cases invoked
        apply Invoked.sends
        apply connection
        rw [enabled.1]
        decide
      · rw [if_neg enabled] at invoked
        cases invoked
  | accept result now =>
      rw [World.invoke] at invoked
      by_cases enabled : (world.slots event.slot).callBack = .acceptconn
      · rw [if_pos enabled] at invoked
        exact .accepts (accepts_of_acceptconn invoked)
      · rw [if_neg enabled] at invoked
        cases invoked
  | quiet =>
      rw [World.invoke] at invoked
      by_cases enabled : (world.slots event.slot).callBack = .null
      · rw [if_pos enabled] at invoked
        cases invoked
        exact .quiet
      · rw [if_neg enabled] at invoked
        cases invoked

/-- Where a callback runs, its slot is live. -/
theorem invoked_of_test
    {listener : MyEvent} (isListener : listener.callBack = .acceptconn)
    {world next : World} {second : Bool} {event : Ready}
    (table : TableInvariant program listener world.slots world.kernel)
    (state :
      Live program world event ∨
        second = true ∧ (world.slots event.slot).events = epollin)
    {outcome : Outcome}
    (tested : world.test program second event outcome = some next) :
    outcome = .quiet ∧ next = world ∨
      Live program world event ∧
        Invoked program world event outcome next := by
  rw [World.test] at tested
  by_cases selects : world.Selects second event
  · rw [if_pos selects] at tested
    rcases state with live | ⟨isSecond, waits⟩
    · have directed : ¬ world.Misdirects event := by
        rintro (status | holder)
        · exact status live.status
        · exact holder live.holder
      have unchanged :
          { world with
            misdirected :=
              world.misdirected || decide (world.Misdirects event) } =
            world := by
        rw [decide_eq_false directed, Bool.or_false]
      rw [unchanged] at tested
      exact .inr ⟨live, invoked_of_invoke isListener table tested⟩
    · have selected := selects.2
      rw [isSecond, waits] at selected
      exact absurd (by decide) selected
  · rw [if_neg selects] at tested
    by_cases quiet : outcome = .quiet
    · rw [if_pos quiet] at tested
      cases tested
      exact .inl ⟨quiet, rfl⟩
    · rw [if_neg quiet] at tested
      cases tested

theorem tested_of_invoked
    {listener : MyEvent} {world next : World} {event : Ready}
    (table : TableInvariant program listener world.slots world.kernel)
    (live : Live program world event) {outcome : Outcome}
    (checked : AcceptChecked program world (.test outcome))
    (invoked : Invoked program world event outcome next) :
    Tested program listener world next event := by
  cases invoked with
  | receives connection =>
      exact
        tested_of_rearmsOrReleases table live connection
          (recvdata_rearmsOrReleases _ _ live.status)
  | sends connection =>
      exact
        tested_of_rearmsOrReleases table live connection
          (senddata_rearmsOrReleases _ _ live.status)
  | accepts accepted => exact tested_of_accepts table checked accepted live
  | quiet => exact tested_refl table event

theorem tested_of_test
    {listener : MyEvent} (isListener : listener.callBack = .acceptconn)
    {world next : World} {second : Bool} {event : Ready}
    (table : TableInvariant program listener world.slots world.kernel)
    (state :
      Live program world event ∨
        second = true ∧ (world.slots event.slot).events = epollin)
    {outcome : Outcome}
    (checked : AcceptChecked program world (.test outcome))
    (tested : world.test program second event outcome = some next) :
    Tested program listener world next event := by
  rcases invoked_of_test isListener table state tested with
    ⟨_, rfl⟩ | ⟨live, invoked⟩
  · exact tested_refl table event
  · exact tested_of_invoked table live checked invoked

/-- The first event that is left is live, unless its first test freed its
slot. -/
theorem live_of_underway
    {world : World} {second : Bool} {event : Ready} {rest : List Ready}
    (underway :
      Underway program world (.dispatching second (event :: rest))) :
    Live program world event ∨
      second = true ∧ (world.slots event.slot).events = epollin := by
  cases underway with
  | first distinct live => exact .inl (live event List.mem_cons_self)
  | second distinct head live =>
      rcases head with alive | waits
      · exact .inl alive
      · exact .inr ⟨rfl, waits⟩

/-- A first test that runs a callback runs it on a slot that waits for
`EPOLLIN`; otherwise it changes nothing. -/
theorem events_of_first_test
    {listener : MyEvent} (isListener : listener.events = epollin)
    {world next : World} {event : Ready}
    (table : TableInvariant program listener world.slots world.kernel)
    (live : Live program world event) {outcome : Outcome}
    (tested : world.test program false event outcome = some next) :
    (world.slots event.slot).events = epollin ∨ next = world := by
  by_cases selects : world.Selects false event
  · left
    by_cases listens : event.slot = program.maxEvents
    · rw [listens, table.listening]
      exact isListener
    · have inTable := Nat.lt_of_le_of_ne live.inTable listens
      exact events_of_selects (table.fits event.slot inTable) selects
  · right
    rw [World.test, if_neg selects] at tested
    by_cases quiet : outcome = .quiet
    · rw [if_pos quiet] at tested
      cases tested
      rfl
    · rw [if_neg quiet] at tested
      cases tested

theorem test_keeps
    {listener : MyEvent} (isListener : listener.callBack = .acceptconn)
    (listenerWaits : listener.events = epollin)
    {world next : World} {outcome : Outcome}
    (invariant : WorldInvariant program listener world)
    (checked : AcceptChecked program world (.test outcome))
    (stepped : program.step world (.test outcome) = some next) :
    WorldInvariant program listener next := by
  obtain ⟨table, checkpos, underway, directed⟩ := invariant
  rw [Program.step] at stepped
  split at stepped
  · rename_i second event rest stage
    obtain ⟨after, tested, rfl⟩ := Option.map_eq_some_iff.mp stepped
    rw [stage] at underway
    have notInRest :
        ((event :: rest).map Ready.slot).Nodup →
          ∀ other ∈ rest, other.slot ≠ event.slot := by
      intro distinct other member same
      have apart := (List.nodup_cons.mp distinct).1
      rw [← same] at apart
      exact apart (List.mem_map_of_mem member)
    have shape :=
      tested_of_test isListener table (live_of_underway underway) checked
        tested
    cases underway with
    | first distinct live =>
        have head := live event List.mem_cons_self
        refine
          ⟨shape.table, shape.checkpos.trans_le checkpos, ?_,
            shape.directed.trans directed⟩
        refine .second distinct ?_ ?_
        · rcases events_of_first_test listenerWaits table head tested with
            waits | same
          · rcases shape.head with kept | sameEvents
            · exact .inl (kept.withStage _)
            · exact .inr (sameEvents.trans waits)
          · rw [same]
            exact .inl (head.withStage _)
        · intro other member
          have kept :=
            shape.others other (notInRest distinct other member)
              (live other (List.mem_cons_of_mem event member))
          exact kept.withStage _
    | second distinct head live =>
        refine
          ⟨shape.table, shape.checkpos.trans_le checkpos, ?_,
            shape.directed.trans directed⟩
        refine .first (List.nodup_cons.mp distinct).2 ?_
        intro other member
        have kept :=
          shape.others other (notInRest distinct other member)
            (live other member)
        exact kept.withStage _
  · cases stepped

/-- The check never comes to the listening slot. -/
theorem checkPlace_lt
    {listener : MyEvent} {world : World}
    (invariant : WorldInvariant program listener world) :
    (if world.checkpos = program.maxEvents then 0 else world.checkpos) <
      program.maxEvents := by
  by_cases atEnd : world.checkpos = program.maxEvents
  · rw [if_pos atEnd]
    exact program.maxEvents_pos
  · rw [if_neg atEnd]
    exact Nat.lt_of_le_of_ne invariant.checkpos atEnd

theorem check_keeps
    {listener : MyEvent} {world next : World}
    (invariant : WorldInvariant program listener world)
    (stepped : program.step world .check = some next) :
    WorldInvariant program listener next := by
  rw [Program.step] at stepped
  split at stepped
  · rename_i left now stage
    cases stepped
    have inTable := checkPlace_lt invariant
    unfold World.check
    generalize
      (if world.checkpos = program.maxEvents then 0 else world.checkpos) = place
      at inTable ⊢
    have underway :
        ∀ after : World,
          Underway program after
            (if left = 0 then .waiting else .checking (left - 1) now) := by
      intro after
      by_cases isLast : left = 0
      · rw [if_pos isLast]
        exact .waiting
      · rw [if_neg isLast]
        exact .checking (left - 1) now
    by_cases expired :
        (world.slots place).status = 1 ∧
          60 ≤ now - (world.slots place).lastActive
    · simp only [if_pos expired]
      have kept :=
        invariant.table.rearmOrRelease inTable expired.1
          (expire_rearmsOrReleases program expired.1)
      exact ⟨kept, inTable, underway _, invariant.directed⟩
    · simp only [if_neg expired]
      exact ⟨invariant.table, inTable, underway _, invariant.directed⟩
  · cases stepped

theorem report_eq_some
    {world : World} {event : Nat × Nat} {ready : Ready}
    (reported : world.report event = some ready) :
    ∃ mask, world.kernel.interest event.1 = some (ready.slot, mask) ∧
      ready.holder = world.holder ready.slot := by
  unfold World.report at reported
  obtain ⟨entry, registered, rfl⟩ := Option.map_eq_some_iff.mp reported
  exact ⟨entry.2, registered, rfl⟩

theorem live_of_report
    {listener : MyEvent} {world : World} {event : Nat × Nat}
    {ready : Ready}
    (table : TableInvariant program listener world.slots world.kernel)
    (reported : world.report event = some ready) :
    Live program world ready := by
  obtain ⟨mask, registered, holder⟩ := report_eq_some reported
  have held := (table.matched ready.slot event.1 mask).mpr registered
  obtain ⟨inTable, status, _⟩ := (listed_eq_some_iff ..).mp held
  exact ⟨inTable, status, holder.symm⟩

/-- Reports for different descriptors point to different slots. -/
theorem nodup_reports
    {listener : MyEvent} {world : World}
    (table : TableInvariant program listener world.slots world.kernel)
    {events : List (Nat × Nat)}
    (distinct : (events.map Prod.fst).Nodup) :
    ((events.filterMap world.report).map Ready.slot).Nodup := by
  induction events with
  | nil => exact List.nodup_nil
  | cons event events inductionHypothesis =>
      obtain ⟨apart, distinctRest⟩ := List.nodup_cons.mp distinct
      have rest := inductionHypothesis distinctRest
      rw [List.filterMap_cons]
      cases reported : world.report event with
      | none => exact rest
      | some ready =>
          refine List.nodup_cons.mpr ⟨?_, rest⟩
          intro member
          obtain ⟨other, otherMember, same⟩ := List.mem_map.mp member
          obtain ⟨otherEvent, inEvents, otherReported⟩ :=
            List.mem_filterMap.mp otherMember
          obtain ⟨mask, registered, _⟩ := report_eq_some reported
          obtain ⟨otherMask, otherRegistered, _⟩ :=
            report_eq_some otherReported
          have held :=
            (table.matched ready.slot event.1 mask).mpr registered
          have otherHeld :=
            (table.matched other.slot otherEvent.1 otherMask).mpr
              otherRegistered
          rw [same, held] at otherHeld
          have sameFd : event.1 = otherEvent.1 :=
            Int.ofNat.inj (Prod.mk.inj (Option.some.inj otherHeld)).1
          rw [sameFd] at apart
          exact apart (List.mem_map_of_mem inEvents)

theorem wait_keeps
    {listener : MyEvent} {world next : World} {events : List (Nat × Nat)}
    (invariant : WorldInvariant program listener world)
    (stepped : program.step world (.wait events) = some next) :
    WorldInvariant program listener next := by
  rw [Program.step] at stepped
  split at stepped
  · rename_i enabled
    cases stepped
    refine
      ⟨invariant.table, invariant.checkpos, .first ?_ ?_,
        invariant.directed⟩
    · exact nodup_reports invariant.table enabled.2.1
    · intro ready member
      obtain ⟨event, _, reported⟩ := List.mem_filterMap.mp member
      exact (live_of_report invariant.table reported).withStage _
  · cases stepped

theorem step_keeps_world
    {listener : MyEvent} (isListener : listener.callBack = .acceptconn)
    (listenerWaits : listener.events = epollin)
    {world next : World} {label : Label}
    (invariant : WorldInvariant program listener world)
    (checked : AcceptChecked program world label)
    (stepped : program.step world label = some next) :
    WorldInvariant program listener next := by
  cases label with
  | clock now =>
      rw [Program.step] at stepped
      split at stepped
      · cases stepped
        exact
          ⟨invariant.table, invariant.checkpos, .checking 99 now,
            invariant.directed⟩
      · cases stepped
  | check => exact check_keeps invariant stepped
  | wait events => exact wait_keeps invariant stepped
  | waitFails =>
      rw [Program.step] at stepped
      split at stepped
      · cases stepped
        exact
          ⟨invariant.table, invariant.checkpos, .ended,
            invariant.directed⟩
      · cases stepped
  | test outcome =>
      exact test_keeps isListener listenerWaits invariant checked stepped

/-- The listening slot after `initlistensocket`. -/
def listeningSlot (lfd : Nat) (now : Int) : MyEvent where
  fd := lfd
  events := epollin
  callBack := .acceptconn
  status := 1
  buf := List.replicate maxBufsize 0
  len := 0
  lastActive := now

theorem start_table
    (program : Program) (lfd : Nat) (now : Int) (others : Nat → Bool) :
    TableInvariant program (listeningSlot lfd now)
      (Function.update (fun _ => MyEvent.zeroed) program.maxEvents
        (listeningSlot lfd now))
      { isOpen := Function.update (openAmong others) lfd true
        interest :=
          Function.update (fun _ => none) lfd
            (some (program.maxEvents, epollin)) } where
  matched := by
    have empty :
        listed program (fun _ => MyEvent.zeroed) =
          fun _ => (none : Option (Int × Nat)) := by
      funext place
      exact listed_of_free rfl
    rw [listed_update_of_status _ (Nat.le_refl _) rfl, empty]
    apply matched_empty.put
    · intro entry impossible
      cases impossible
    · intro entry impossible
      cases impossible
  opened := by
    intro fd entry registered
    by_cases same : fd = lfd
    · subst same
      exact Function.update_self ..
    · have nothing :=
        Function.update_of_ne same (some (program.maxEvents, epollin))
          (fun _ => none)
      cases nothing.symm.trans registered
  status := by
    intro place
    by_cases same : place = program.maxEvents
    · subst same
      rw [Function.update_self]
      exact .inr rfl
    · rw [Function.update_of_ne same]
      exact .inl rfl
  fits := by
    intro place inTable
    rw [Function.update_of_ne (Nat.ne_of_lt inTable)]
    exact .unused rfl
  listening := Function.update_self ..

theorem start_invariant
    (program : Program) (lfd : Nat) (now : Int) (others : Nat → Bool) :
    WorldInvariant program (listeningSlot lfd now)
      (program.start lfd now others) := by
  have listens :
      initListen program lfd now =
        ⟨listeningSlot lfd now, [.add lfd epollin],
          [⟨0, maxBufsize⟩]⟩ := by
    cases program <;> rfl
  have added :
      Kernel.calls program.maxEvents
          ⟨Function.update (openAmong others) lfd true, fun _ => none⟩
          [.add lfd epollin] =
        { isOpen := Function.update (openAmong others) lfd true
          interest :=
            Function.update (fun _ => none) lfd
              (some (program.maxEvents, epollin)) } :=
    if_pos ⟨Function.update_self .., rfl⟩
  have table := start_table program lfd now others
  rw [← added] at table
  rw [Program.start, listens]
  refine ⟨table, Nat.zero_le _, .first List.nodup_nil ?_, rfl⟩
  intro event impossible
  cases impossible

/-- The slots, the open descriptors and the interest list agree, and the
callbacks run on the slots that they were meant for. -/
structure TableAgrees (listener : MyEvent) (world : World) : Prop where
  registered :
    ∀ place, place < maxEvents →
      ((world.slots place).status = 1 ↔
        world.kernel.isOpen (world.slots place).fd = true ∧
          world.kernel.interest (world.slots place).fd =
            some (place, (world.slots place).events))
  distinct :
    ∀ place other, place ≤ maxEvents → other ≤ maxEvents →
      (world.slots place).status = 1 → (world.slots other).status = 1 →
        (world.slots place).fd = (world.slots other).fd → place = other
  callBack :
    ∀ place, place < maxEvents →
      ((world.slots place).events = epollin →
        (world.slots place).callBack = .recvdata) ∧
      ((world.slots place).events = epollout →
        (world.slots place).callBack = .senddata)
  listening :
    world.slots maxEvents = listener ∧
      world.kernel.isOpen listener.fd = true ∧
        world.kernel.interest listener.fd =
          some (maxEvents, listener.events)
  directed : world.misdirected = false

theorem agrees_of_worldInvariant
    {listener : MyEvent} (status : listener.status = 1) {world : World}
    (invariant : WorldInvariant .epollReactor listener world) :
    TableAgrees listener world := by
  obtain ⟨table, _, _, directed⟩ := invariant
  have registered :
      ∀ place, place ≤ maxEvents → (world.slots place).status = 1 →
        world.kernel.isOpen (world.slots place).fd = true ∧
          world.kernel.interest (world.slots place).fd =
            some (place, (world.slots place).events) := by
    intro place inTable inUse
    have held := listed_of_status inTable inUse
    have owned := (table.matched _ _ _).mp held
    exact ⟨table.isOpen_of_status inTable inUse, owned⟩
  refine ⟨?_, ?_, ?_, ?_, directed⟩
  · intro place inTable
    constructor
    · exact registered place (Nat.le_of_lt inTable)
    · rintro ⟨_, owned⟩
      have held := (table.matched _ _ _).mpr owned
      exact ((listed_eq_some_iff ..).mp held).2.1
  · intro place other inTable otherInTable inUse otherInUse same
    exact table.place_eq inTable otherInTable inUse otherInUse same.symm
  · intro place inTable
    cases table.fits place inTable with
    | unused events =>
        rw [events]
        exact
          ⟨fun impossible => absurd impossible (by decide),
            fun impossible => absurd impossible (by decide)⟩
    | receives events callBack =>
        rw [events]
        exact
          ⟨fun _ => callBack,
            fun impossible => absurd impossible (by decide)⟩
    | sends events callBack =>
        rw [events]
        exact
          ⟨fun impossible => absurd impossible (by decide),
            fun _ => callBack⟩
  · have listening : world.slots maxEvents = listener := table.listening
    have listenerHeld :=
      registered maxEvents (Nat.le_refl _) (by rw [listening, status])
    rw [listening] at listenerHeld
    exact ⟨listening, listenerHeld⟩

/-- The table agrees in every state that the server reaches, whatever the
system calls return. -/
theorem table_agrees
    (lfd : Nat) (now : Int) (others : Nat → Bool) (labels : List Label)
    (last : World)
    (ran : run World.step (World.start lfd now others) labels = some last) :
    TableAgrees (listeningSlot lfd now) last :=
  agrees_of_worldInvariant rfl
    (run_keeps (WorldInvariant .epollReactor (listeningSlot lfd now))
      (fun _ _ _ invariant stepped =>
        step_keeps_world rfl rfl invariant (acceptChecked_epollReactor _ _)
          stepped)
      (start_invariant .epollReactor lfd now others) ran)

set_option maxRecDepth 100000 in
/-- The first round of checks, and the first connection. -/
theorem table_agrees_first_connection :
    ∃ last,
      run World.step (World.start 4 0 fun fd => fd == 3)
          (.clock 1 :: List.replicate 100 .check ++
            [.wait [(4, 1)], .test (.accept (.connection 5 true) 2),
              .test .quiet, .clock 3]) =
          some last ∧
        TableAgrees (listeningSlot 4 0) last :=
  ⟨_, rfl,
    table_agrees 4 0 (fun fd => fd == 3)
      (.clock 1 :: List.replicate 100 .check ++
        [.wait [(4, 1)], .test (.accept (.connection 5 true) 2),
          .test .quiet, .clock 3]) _ rfl⟩

end LinuxNet.Reactor
