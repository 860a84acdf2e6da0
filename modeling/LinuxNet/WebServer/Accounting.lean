import Mathlib.Data.Finset.Card
import LinuxNet.WebServer.Ownership

/-!
# The descriptors and `m_user_count`

A `Ledger` is kept beside the server: every descriptor that `accept` returns
and every event of a handler is written into a log, and the ledger reads off
it which descriptors were accepted, which were initialised, and which were
closed.  `close_conn` has `m_sockfd` as its only guard, and it is enough as
long as `m_sockfd` is not overwritten: `accounting` says that `m_user_count`
is the number of descriptors that are initialised and not closed, and that no
descriptor is closed that is not open.  A negative `Content-Length` of the
right size makes `parse_content` overwrite it.
-/

namespace LinuxNet.WebServer

open LinuxNet.StepSystem

/-- What `accept` returns and what the handlers do. -/
inductive Entry where
  | accepted (fd : Int)
  | performed (event : Event)

/-- The descriptors accepted and not closed, and those that `init(sockfd,
addr)` has added to epoll and that are not closed. -/
structure Ledger where
  held : Finset Int
  live : Finset Int

namespace Ledger

def empty : Ledger := ⟨∅, ∅⟩

def note (ledger : Ledger) : Entry → Ledger
  | .accepted fd => { ledger with held := insert fd ledger.held }
  | .performed (.epollAdd fd) =>
      { ledger with live := insert fd ledger.live }
  | .performed (.close fd) =>
      ⟨ledger.held.erase fd, ledger.live.erase fd⟩
  | .performed _ => ledger

def after (ledger : Ledger) (log : List Entry) : Ledger :=
  log.foldl note ledger

/-- A `close` meets a descriptor that is accepted and not closed. -/
def Allows (ledger : Ledger) : Entry → Prop
  | .performed (.close fd) => fd ∈ ledger.held
  | _ => True

/-- Every `close` of a log meets a descriptor that is not closed yet. -/
def ClosesOnce (ledger : Ledger) : List Entry → Prop
  | [] => True
  | entry :: log => ledger.Allows entry ∧ (ledger.note entry).ClosesOnce log

variable {ledger : Ledger}

theorem after_append (ledger : Ledger) (log later : List Entry) :
    ledger.after (log ++ later) = (ledger.after log).after later :=
  List.foldl_append

theorem closesOnce_append (ledger : Ledger) (log later : List Entry) :
    ledger.ClosesOnce (log ++ later) ↔
      ledger.ClosesOnce log ∧ (ledger.after log).ClosesOnce later := by
  induction log generalizing ledger with
  | nil =>
      exact (and_iff_right trivial).symm
  | cons entry log inductionHypothesis =>
      rw [List.cons_append, ClosesOnce, ClosesOnce, inductionHypothesis,
        and_assoc]
      rfl

theorem note_touches
    {fd : Nat} {event : Event} (touches : event.Touches fd) :
    ledger.note (.performed event) = ledger ∧
      ledger.Allows (.performed event) := by
  cases event with
  | epollAdd | epollDel | close | userCount => exact touches.elim
  | store | scan | sum | vsnprintf | mmap | munmap | sent | responseSent
  | epollMod => exact ⟨rfl, trivial⟩

/-- Events that touch at most the registration of a descriptor are not
written down. -/
theorem after_touches
    (ledger : Ledger) {fd : Nat} {events : List Event}
    (touches : ∀ event ∈ events, event.Touches fd) :
    ledger.after (events.map .performed) = ledger ∧
      ledger.ClosesOnce (events.map .performed) := by
  induction events with
  | nil =>
      exact ⟨rfl, trivial⟩
  | cons event events inductionHypothesis =>
      rw [List.forall_mem_cons] at touches
      obtain ⟨noted, allowed⟩ := note_touches touches.1
      obtain ⟨same, later⟩ := inductionHypothesis touches.2
      rw [List.map_cons]
      refine ⟨?_, allowed, ?_⟩
      · show (ledger.note _).after _ = ledger
        rw [noted, same]
      · rw [noted]
        exact later

end Ledger

def Event.change : Event → Int
  | .userCount change => change
  | _ => 0

def changes : List Event → Int
  | [] => 0
  | event :: events => event.change + changes events

theorem changes_append (events later : List Event) :
    changes (events ++ later) = changes events + changes later := by
  induction events with
  | nil =>
      exact (Int.zero_add _).symm
  | cons event events inductionHypothesis =>
      rw [List.cons_append, changes, changes, inductionHypothesis,
        Int.add_assoc]

theorem Event.Touches.change_eq
    {fd : Nat} {event : Event} (touches : event.Touches fd) :
    event.change = 0 := by
  cases event with
  | epollAdd | epollDel | close | userCount => exact touches.elim
  | store | scan | sum | vsnprintf | mmap | munmap | sent | responseSent
  | epollMod => rfl

theorem changes_touches
    {fd : Nat} {events : List Event}
    (touches : ∀ event ∈ events, event.Touches fd) : changes events = 0 := by
  induction events with
  | nil =>
      rfl
  | cons event events inductionHypothesis =>
      rw [List.forall_mem_cons] at touches
      rw [changes, touches.1.change_eq, Int.zero_add]
      exact inductionHypothesis touches.2

theorem Shared.userCount_apply (shared : Shared) (event : Event) :
    (shared.apply event).userCount = shared.userCount + event.change := by
  cases event with
  | epollAdd sockfd | epollMod sockfd interest =>
      cases sockfd with
      | ofNat fd =>
          simp only [apply, Event.change, Int.add_zero]
          split <;> rfl
      | negSucc fd => exact (Int.add_zero _).symm
  | epollDel sockfd | close sockfd =>
      cases sockfd <;> exact (Int.add_zero _).symm
  | userCount change => rfl
  | store | scan | sum | vsnprintf | mmap | munmap | sent | responseSent =>
      exact (Int.add_zero _).symm

theorem Shared.userCount_after (shared : Shared) (events : List Event) :
    (shared.after events).userCount = shared.userCount + changes events := by
  induction events generalizing shared with
  | nil =>
      exact (Int.add_zero _).symm
  | cons event events inductionHypothesis =>
      show ((shared.apply event).after events).userCount = _
      rw [inductionHypothesis, userCount_apply, changes, Int.add_assoc]

/-- The slot of `users` whose method a step calls. -/
def Label.slot : Label → Option Nat
  | .accept connfd _ => some connfd
  | .hangUp sockfd | .epollIn sockfd _ _ | .epollOut sockfd _ => some sockfd
  | .dequeue => none
  | .process request _ | .overrun request _ _ => some request

namespace Server

def eventsAt (s next : Server) (fd : Nat) : List Event :=
  (next.users fd).trace.drop (s.users fd).trace.length

/-- What a step writes into the log.  A client that is turned away is closed
in `show_error`. -/
def entries (s next : Server) (label : Label) : List Entry :=
  match label with
  | .accept connfd _ =>
      .accepted connfd ::
        (if maxFd ≤ s.shared.userCount then
          [.performed (.close connfd)]
        else
          (s.eventsAt next connfd).map .performed)
  | .hangUp sockfd | .epollIn sockfd _ _ | .epollOut sockfd _ =>
      (s.eventsAt next sockfd).map .performed
  | .dequeue => []
  | .process request _ | .overrun request _ _ =>
      (s.eventsAt next request).map .performed

end Server

structure Logged where
  server : Server
  log : List Entry

namespace Logged

def start (users : Nat → Conn) : Logged := ⟨.start users, []⟩

def step (pool : Pool) (pages : Nat → List UInt8) (s : Logged)
    (label : Label) : Option Logged :=
  (s.server.step pool pages label).map fun next =>
    ⟨next, s.log ++ s.server.entries next label⟩

end Logged

namespace Server

variable {pool : Pool} {pages : Nat → List UInt8}
variable {s next : Server} {label : Label} {fd : Nat}

theorem At.opened_eq
    {place : Place} (isAt : s.At fd place) :
    s.shared.opened fd = decide (place ≠ .closed) := by
  cases place with
  | closed => exact isAt.1
  | armed | queued | taken | stranded => exact Held.opened isAt

/-- A method is called on the slot of the step. -/
theorem Move.slot_eq
    {place newPlace : Place} {c : Conn}
    (move : Move pool s fd label place c newPlace) :
    label.slot = some fd ∨ place ≠ .closed ∧ newPlace ≠ .closed := by
  cases move with
  | dequeue => exact .inr ⟨by decide, by decide⟩
  | accept | hangUp | read | refused | readFails | written | writeFails
  | processed | processFails => exact .inl rfl

/-- Outside the slot of the step nothing is opened or closed. -/
theorem opened_of_moves
    (placed : s.Placed) (moves : Moves pool s label next)
    (other : label.slot ≠ some fd) :
    next.shared.opened fd = s.shared.opened fd := by
  obtain ⟨place, isAt⟩ := placed fd
  rcases moves fd place isAt with ⟨_, stays⟩ | ⟨newPlace, move, moved⟩
  · rw [stays.opened_eq, isAt.opened_eq]
  · obtain ⟨before, after⟩ := move.slot_eq.resolve_left other
    rw [moved.opened_eq, isAt.opened_eq, decide_eq_true before,
      decide_eq_true after]

/-! ## What a step writes down -/

/-- The events of a method on its slot, with the descriptor before and after:
none that counts, or those that end in `close_conn`. -/
inductive Effect (fd : Nat) : Bool → List Event → Bool → Prop
  | keeps {opened : Bool} {events : List Event}
      (touches : ∀ event ∈ events, event.Touches fd) :
      Effect fd opened events opened
  | closes {events later : List Event}
      (touches : ∀ event ∈ events, event.Touches fd)
      (calm : ∀ event ∈ later, event.Touches fd) :
      Effect fd true
        (events ++ ([.epollDel fd, .close fd, .userCount (-1)] ++ later))
        false

def HasEffect (fd : Nat) (opened : Bool) (c d : Conn) (after : Bool) :
    Prop :=
  ∃ events, d.trace = c.trace ++ events ∧ Effect fd opened events after

theorem hasEffect_touches
    {opened : Bool} {c d : Conn}
    (since : Conn.Since (Event.Touches fd) c d) :
    HasEffect fd opened c d opened := by
  obtain ⟨events, shape, touches⟩ := since
  exact ⟨events, shape, .keeps touches⟩

theorem hasEffect_arms
    {opened : Bool} {interest : Interest} {c d : Conn}
    (arms : Conn.Arms fd interest c d) : HasEffect fd opened c d opened := by
  obtain ⟨e, calm, ending⟩ := arms.since
  have modfd : (Event.epollMod fd interest).Touches fd := rfl
  exact hasEffect_touches (calm.touches.trans (.single modfd ending))

theorem hasEffect_closes
    {c d : Conn} (closes : Conn.Closes fd c d) :
    HasEffect fd true c d false := by
  obtain ⟨e, f, ⟨events, shape, touches⟩, ending, later⟩ := closes.since
  obtain ⟨laterEvents, laterShape, calm⟩ :=
    (later.touches : Conn.Since (Event.Touches fd) f d)
  refine ⟨_, ?_, .closes touches calm⟩
  rw [laterShape, ending, shape, List.append_assoc, List.append_assoc]

theorem Move.hasEffect
    {place newPlace : Place} {c : Conn} (isAt : s.At fd place)
    (notAccept : ∀ address, label ≠ .accept fd address)
    (move : Move pool s fd label place c newPlace) :
    HasEffect fd (decide (place ≠ .closed)) (s.users fd) c
      (decide (newPlace ≠ .closed)) := by
  cases move with
  | accept address => exact absurd rfl (notAccept address)
  | hangUp interest =>
      have same : Conn.Since (Event.Touches fd) (s.users fd) (s.users fd) :=
        .of_trace_eq rfl
      exact hasEffect_closes (same.closes (Held.sockfd isAt))
  | @read blocks last receivable drained room
  | @refused blocks last receivable drained full =>
      have quiet := Conn.quiet_read (Held.framed isAt) receivable last
      exact hasEffect_touches quiet.calm.touches
  | @readFails blocks last receivable failed =>
      have quiet := Conn.quiet_read (Held.framed isAt) receivable last
      exact
        hasEffect_closes
          (quiet.calm.touches.closes
            (quiet.sockfd_eq.trans (Held.sockfd isAt)))
  | written returns =>
      exact hasEffect_arms (returns.arms (Held.sockfd isAt))
  | writeFails returns =>
      exact hasEffect_closes (returns.closes (Held.sockfd isAt))
  | dequeue =>
      exact hasEffect_touches (.of_trace_eq rfl)
  | processed inside ends =>
      exact hasEffect_arms (ends.arms inside (Held.sockfd isAt))
  | processFails inside ends =>
      exact hasEffect_closes (ends.closes inside (Held.sockfd isAt))

/-- The events of a step that accepts no client have one of the two
effects. -/
theorem effect_of_moves
    (placed : s.Placed) (moves : Moves pool s label next) (fd : Nat)
    (notAccept : ∀ address, label ≠ .accept fd address) :
    Effect fd (s.shared.opened fd) (s.eventsAt next fd)
      (next.shared.opened fd) := by
  obtain ⟨place, isAt⟩ := placed fd
  unfold eventsAt
  rcases moves fd place isAt with ⟨same, stays⟩ | ⟨newPlace, move, moved⟩
  · rw [same, stays.opened_eq, isAt.opened_eq, List.drop_length]
    exact .keeps (by simp)
  · obtain ⟨events, shape, effect⟩ := move.hasEffect isAt notAccept
    rw [shape, List.drop_left, moved.opened_eq, isAt.opened_eq]
    exact effect

/-- What a method adds to `m_user_count`. -/
theorem userCount_perform (s : Server) (fd : Nat) (c : Conn) :
    (s.perform fd c).shared.userCount =
      s.shared.userCount + changes (s.eventsAt (s.perform fd c) fd) := by
  have users : (s.perform fd c).users fd = c := Function.update_self ..
  unfold eventsAt
  rw [users]
  exact Shared.userCount_after _ _

theorem userCount_step
    (slot : label.slot = some fd)
    (notAccept : ∀ address, label ≠ .accept fd address)
    (stepped : s.step pool pages label = some next) :
    next.shared.userCount =
      s.shared.userCount + changes (s.eventsAt next fd) := by
  cases label with
  | accept connfd address =>
      cases slot
      exact absurd rfl (notAccept address)
  | dequeue => cases slot
  | hangUp sockfd =>
      cases slot
      simp only [step] at stepped
      split at stepped
      · cases stepped
        exact userCount_perform (s.deliver fd _) fd _
      · cases stepped
  | epollIn sockfd blocks last =>
      cases slot
      simp only [step] at stepped
      split at stepped
      · split at stepped
        · cases stepped
          exact userCount_perform (s.deliver fd .epollIn) fd _
        · cases stepped
          exact userCount_perform (s.deliver fd .epollIn) fd _
      · cases stepped
  | epollOut sockfd outcomes =>
      cases slot
      simp only [step] at stepped
      split at stepped
      · split at stepped
        · cases stepped
          exact userCount_perform (s.deliver fd .epollOut) fd _
        · cases stepped
          exact userCount_perform (s.deliver fd .epollOut) fd _
        · cases stepped
      · cases stepped
  | process request fs =>
      cases slot
      simp only [step] at stepped
      split at stepped
      · cases stepped
        exact
          userCount_perform
            { s with taken := s.taken.erase fd } fd _
      · cases stepped
  | overrun request fs users =>
      cases slot
      simp only [step] at stepped
      split at stepped
      · cases stepped
        have events :
            s.eventsAt
                ((({ s with taken := s.taken.erase fd } : Server).perform fd
                  ((s.users fd).process fs)).overwrite fd users) fd =
              s.eventsAt
                (({ s with taken := s.taken.erase fd } : Server).perform fd
                  ((s.users fd).process fs)) fd := by
          unfold eventsAt overwrite
          simp only [if_true]
        rw [events]
        exact
          userCount_perform
            { s with taken := s.taken.erase fd } fd _
      · cases stepped

/-- The outcomes of `accept`: the client is turned away, or its slot is
initialised. -/
theorem step_accept
    {address : SockAddr} (placed : s.Placed)
    (stepped : s.step pool pages (.accept fd address) = some next) :
    s.shared.opened fd = false ∧
      (maxFd ≤ s.shared.userCount ∧ next = s ∨
        s.shared.userCount < maxFd ∧
          next.shared.opened = Function.update s.shared.opened fd true ∧
          next.shared.userCount = s.shared.userCount + 1 ∧
          s.eventsAt next fd = [.epollAdd fd, .userCount 1]) := by
  simp only [step] at stepped
  split at stepped
  · cases stepped
  · next closed =>
      rw [Bool.not_eq_true] at closed
      refine ⟨closed, ?_⟩
      split at stepped
      · next busy =>
          cases stepped
          exact .inl ⟨busy, rfl⟩
      · next free =>
          obtain ⟨place, isAt⟩ := placed fd
          have isClosed := isAt.eq_closed closed
          subst isClosed
          have unregistered : (s.shared.accept fd).epoll fd = none :=
            isAt.2.1
          have effect :=
            Conn.shared_initWith (s.users fd) address unregistered
          cases stepped
          refine .inr ⟨by omega, ?_, ?_, ?_⟩
          · show ((s.shared.accept fd).after _).opened = _
            rw [effect]
            rfl
          · show ((s.shared.accept fd).after _).userCount = _
            rw [effect]
            rfl
          · unfold eventsAt
            show (Function.update s.users fd _ fd).trace.drop _ = _
            rw [Function.update_self]
            show ((_ ++ [_]) ++ [_]).drop _ = _
            rw [List.append_assoc, List.drop_left]
            rfl

end Server

/-! ## Runs -/

namespace Logged

/-- The descriptors of the log that are initialised and not closed. -/
def ledger (s : Logged) : Ledger :=
  Ledger.empty.after s.log

/-- The log agrees with the open descriptors of the server. -/
structure Balanced (s : Logged) : Prop where
  placed : s.server.Placed
  held_eq : s.ledger.held = s.ledger.live
  mem_live :
    ∀ fd : Int, fd ∈ s.ledger.live ↔
      ∃ index : Nat, fd = index ∧ s.server.shared.opened index = true
  userCount_eq : s.server.shared.userCount = s.ledger.live.card
  closesOnce : Ledger.empty.ClosesOnce s.log

variable {pool : Pool} {pages : Nat → List UInt8}

theorem balanced_start (users : Nat → Conn) : (start users).Balanced where
  placed := (Server.owned_start users).placed
  held_eq := rfl
  mem_live := by
    intro fd
    constructor
    · intro member
      cases member
    · rintro ⟨index, _, opened⟩
      cases opened
  userCount_eq := rfl
  closesOnce := trivial

theorem Balanced.mem_live_natCast
    {s : Logged} (balanced : s.Balanced) (fd : Nat) :
    (fd : Int) ∈ s.ledger.live ↔ s.server.shared.opened fd = true := by
  rw [balanced.mem_live]
  constructor
  · rintro ⟨index, same, opened⟩
    have sameFd : fd = index := by omega
    rw [sameFd]
    exact opened
  · exact fun opened => ⟨fd, rfl, opened⟩

theorem ledger_append (next : Server) (s : Logged) (log : List Entry) :
    (⟨next, s.log ++ log⟩ : Logged).ledger = s.ledger.after log :=
  Ledger.after_append _ _ _

/-- A step whose entries leave the ledger alone. -/
theorem Balanced.same
    {s : Logged} {next : Server} {log : List Entry}
    (balanced : s.Balanced) (placed : next.Placed)
    (same : s.ledger.after log = s.ledger)
    (closesOnce : s.ledger.ClosesOnce log)
    (opened : next.shared.opened = s.server.shared.opened)
    (userCount : next.shared.userCount = s.server.shared.userCount) :
    (⟨next, s.log ++ log⟩ : Logged).Balanced where
  placed := placed
  held_eq := by
    rw [ledger_append, same]
    exact balanced.held_eq
  mem_live := by
    rw [ledger_append, same]
    simp only [opened]
    exact balanced.mem_live
  userCount_eq := by
    rw [ledger_append, same, userCount]
    exact balanced.userCount_eq
  closesOnce :=
    (Ledger.closesOnce_append _ _ _).mpr ⟨balanced.closesOnce, closesOnce⟩

/-- A step that initialises a closed descriptor. -/
theorem Balanced.opens
    {s : Logged} {next : Server} {log : List Entry} {fd : Nat}
    (balanced : s.Balanced) (placed : next.Placed)
    (closed : s.server.shared.opened fd = false)
    (after :
      s.ledger.after log =
        ⟨insert ↑fd s.ledger.held, insert ↑fd s.ledger.live⟩)
    (closesOnce : s.ledger.ClosesOnce log)
    (opened :
      next.shared.opened =
        Function.update s.server.shared.opened fd true)
    (userCount :
      next.shared.userCount = s.server.shared.userCount + 1) :
    (⟨next, s.log ++ log⟩ : Logged).Balanced where
  placed := placed
  held_eq := by
    rw [ledger_append, after]
    exact congrArg (insert (fd : Int)) balanced.held_eq
  mem_live := by
    intro other
    rw [ledger_append, after]
    show other ∈ insert (fd : Int) s.ledger.live ↔ _
    rw [Finset.mem_insert, balanced.mem_live, opened]
    constructor
    · rintro (rfl | ⟨index, rfl, isOpen⟩)
      · exact ⟨fd, rfl, Function.update_self ..⟩
      · refine ⟨index, rfl, ?_⟩
        have ne : index ≠ fd := by
          rintro rfl
          rw [closed] at isOpen
          cases isOpen
        rw [Function.update_of_ne ne]
        exact isOpen
    · rintro ⟨index, rfl, isOpen⟩
      by_cases same : index = fd
      · exact .inl (congrArg _ same)
      · rw [Function.update_of_ne same] at isOpen
        exact .inr ⟨index, rfl, isOpen⟩
  userCount_eq := by
    have fresh : (fd : Int) ∉ s.ledger.live := by
      rw [balanced.mem_live_natCast, closed]
      decide
    rw [ledger_append, after, userCount, balanced.userCount_eq]
    show _ = ((insert (fd : Int) s.ledger.live).card : Int)
    rw [Finset.card_insert_of_notMem fresh]
    rfl
  closesOnce :=
    (Ledger.closesOnce_append _ _ _).mpr ⟨balanced.closesOnce, closesOnce⟩

/-- A step that closes an open descriptor. -/
theorem Balanced.closes
    {s : Logged} {next : Server} {log : List Entry} {fd : Nat}
    (balanced : s.Balanced) (placed : next.Placed)
    (isOpen : s.server.shared.opened fd = true)
    (after :
      s.ledger.after log =
        ⟨s.ledger.held.erase fd, s.ledger.live.erase fd⟩)
    (closesOnce : s.ledger.ClosesOnce log)
    (opened :
      next.shared.opened =
        Function.update s.server.shared.opened fd false)
    (userCount :
      next.shared.userCount = s.server.shared.userCount + -1) :
    (⟨next, s.log ++ log⟩ : Logged).Balanced where
  placed := placed
  held_eq := by
    rw [ledger_append, after]
    exact congrArg (Finset.erase · (fd : Int)) balanced.held_eq
  mem_live := by
    intro other
    rw [ledger_append, after]
    show other ∈ s.ledger.live.erase (fd : Int) ↔ _
    rw [Finset.mem_erase, balanced.mem_live, opened]
    constructor
    · rintro ⟨ne, index, rfl, otherOpen⟩
      have notSame : index ≠ fd := fun same => ne (congrArg _ same)
      refine ⟨index, rfl, ?_⟩
      rw [Function.update_of_ne notSame]
      exact otherOpen
    · rintro ⟨index, rfl, otherOpen⟩
      have ne : index ≠ fd := by
        rintro rfl
        rw [Function.update_self] at otherOpen
        cases otherOpen
      rw [Function.update_of_ne ne] at otherOpen
      exact ⟨by omega, index, rfl, otherOpen⟩
  userCount_eq := by
    have member : (fd : Int) ∈ s.ledger.live :=
      (balanced.mem_live_natCast fd).mpr isOpen
    have counted := Finset.card_erase_add_one member
    rw [ledger_append, after, userCount, balanced.userCount_eq]
    show _ = ((s.ledger.live.erase (fd : Int)).card : Int)
    omega
  closesOnce :=
    (Ledger.closesOnce_append _ _ _).mpr ⟨balanced.closesOnce, closesOnce⟩

/-- Only the slot of a step is opened or closed. -/
theorem opened_eq_update
    {s next : Server} {label : Label} {fd : Nat} (placed : s.Placed)
    (moves : Server.Moves pool s label next)
    (slot : label.slot = some fd) :
    next.shared.opened =
      Function.update s.shared.opened fd (next.shared.opened fd) := by
  funext other
  by_cases same : other = fd
  · rw [same, Function.update_self]
  · rw [Function.update_of_ne same]
    apply Server.opened_of_moves placed moves
    rw [slot]
    exact fun slotEq => same (Option.some.inj slotEq).symm

/-- A method that is called on a slot in use. -/
theorem Balanced.handler
    {s : Logged} {next : Server} {label : Label} {fd : Nat}
    (balanced : s.Balanced) (slot : label.slot = some fd)
    (notAccept : ∀ address, label ≠ .accept fd address)
    (inside : s.server.StoresInside label)
    (stepped : s.server.step pool pages label = some next) :
    (⟨next, s.log ++ (s.server.eventsAt next fd).map .performed⟩ :
      Logged).Balanced := by
  have placed := balanced.placed
  have moves := Server.step_moves placed inside stepped
  have nextPlaced := Server.placed_step _ _ _ placed inside stepped
  have effect := Server.effect_of_moves placed moves fd notAccept
  have userCount := Server.userCount_step slot notAccept stepped
  have opened := opened_eq_update placed moves slot
  generalize before : s.server.shared.opened fd = isOpen at effect
  generalize next.shared.opened fd = stillOpen at effect opened
  generalize s.server.eventsAt next fd = events at effect userCount ⊢
  cases effect with
  | keeps touches =>
      obtain ⟨same, closesOnce⟩ :=
        Ledger.after_touches s.ledger touches
      rw [← before, Function.update_eq_self] at opened
      rw [changes_touches touches, Int.add_zero] at userCount
      exact balanced.same nextPlaced same closesOnce opened userCount
  | @closes events later touches calm =>
      have member : (fd : Int) ∈ s.ledger.held := by
        rw [balanced.held_eq]
        exact (balanced.mem_live_natCast fd).mpr before
      obtain ⟨same, closesOnce⟩ :=
        Ledger.after_touches s.ledger touches
      obtain ⟨laterSame, laterClosesOnce⟩ :=
        Ledger.after_touches
          ⟨s.ledger.held.erase fd, s.ledger.live.erase fd⟩ calm
      rw [changes_append, changes_append, changes_touches touches,
        changes_touches calm, Int.add_zero, Int.zero_add] at userCount
      refine balanced.closes nextPlaced before ?_ ?_ opened userCount
      · rw [List.map_append, List.map_append, Ledger.after_append,
          Ledger.after_append, same]
        exact laterSame
      · rw [List.map_append, List.map_append, Ledger.closesOnce_append,
          Ledger.closesOnce_append, same]
        exact
          ⟨closesOnce, ⟨trivial, member, trivial, trivial⟩, laterClosesOnce⟩

theorem balanced_step
    (s : Logged) (label : Label) (next : Logged) (balanced : s.Balanced)
    (inside : s.server.StoresInside label)
    (loggedStep : s.step pool pages label = some next) : next.Balanced := by
  obtain ⟨server, stepped, rfl⟩ := Option.map_eq_some_iff.mp loggedStep
  have placed := balanced.placed
  have moves := Server.step_moves placed inside stepped
  have nextPlaced := Server.placed_step _ _ _ placed inside stepped
  cases label with
  | accept connfd address =>
      obtain ⟨closed, ⟨busy, same⟩ | ⟨free, opened, userCount, events⟩⟩ :=
        Server.step_accept placed stepped
      · have fresh : (connfd : Int) ∉ s.ledger.live := by
          rw [balanced.mem_live_natCast, closed]
          decide
        have notHeld : (connfd : Int) ∉ s.ledger.held := by
          rw [balanced.held_eq]
          exact fresh
        simp only [Server.entries]
        rw [if_pos busy]
        refine
          balanced.same nextPlaced ?_
            ⟨trivial, Finset.mem_insert_self _ _, trivial⟩
            (by rw [same]) (by rw [same])
        show
          (⟨(insert (connfd : Int) s.ledger.held).erase connfd,
            s.ledger.live.erase connfd⟩ : Ledger) = s.ledger
        rw [Finset.erase_insert notHeld, Finset.erase_eq_of_notMem fresh]
      · simp only [Server.entries]
        rw [if_neg (by omega), events]
        exact
          balanced.opens nextPlaced closed rfl
            ⟨trivial, trivial, trivial, trivial⟩ opened userCount
  | hangUp sockfd =>
      exact balanced.handler rfl (by simp) inside stepped
  | epollIn sockfd blocks last =>
      exact balanced.handler rfl (by simp) inside stepped
  | epollOut sockfd outcomes =>
      exact balanced.handler rfl (by simp) inside stepped
  | process request fs =>
      exact balanced.handler rfl (by simp) inside stepped
  | overrun request fs users => exact inside.elim
  | dequeue =>
      have opened : server.shared.opened = s.server.shared.opened := by
        funext fd
        exact Server.opened_of_moves placed moves (by simp [Label.slot])
      have userCount :
          server.shared.userCount = s.server.shared.userCount := by
        simp only [Server.step] at stepped
        split at stepped
        · cases stepped
        · split at stepped
          · cases stepped
            rfl
          · cases stepped
      exact balanced.same nextPlaced rfl trivial opened userCount

/-- No `process()` stores outside `m_read_buf`. -/
def StoresInside (s : Logged) (label : Label) : Prop :=
  s.server.StoresInside label

/-- In every run in which no `process()` stores outside `m_read_buf`,
`m_user_count` is the number of descriptors that were initialised and not
closed since, each of these is the `m_sockfd` of its slot of `users`, and no
descriptor is closed twice. -/
theorem accounting
    {users : Nat → Conn} {labels : List Label} {last : Logged}
    (inside :
      StepsMeet (step pool pages) StoresInside (start users) labels)
    (ran : run (step pool pages) (start users) labels = some last) :
    last.server.shared.userCount = last.ledger.live.card ∧
      (∀ fd ∈ last.ledger.live,
        ∃ index : Nat, fd = index ∧ (last.server.users index).sockfd = fd) ∧
      Ledger.empty.ClosesOnce last.log := by
  have balanced :=
    guarded_run_keeps StoresInside Balanced balanced_step
      (balanced_start users) inside ran
  refine ⟨balanced.userCount_eq, fun fd member => ?_, balanced.closesOnce⟩
  obtain ⟨index, rfl, isOpen⟩ := (balanced.mem_live fd).mp member
  obtain ⟨place, isAt⟩ := balanced.placed index
  refine ⟨index, rfl, ?_⟩
  cases place with
  | closed =>
      rw [isAt.1] at isOpen
      cases isOpen
  | armed | queued | taken | stranded => exact Server.Held.sockfd isAt

/-- Two clients come, one of them hangs up, and a third one gets its
descriptor. -/
theorem accounting_reuse :
    ∃ last : Logged,
      run (step {} fun _ => []) (start fun _ => Conn.zeroed)
          [.accept 5 ⟨0, 0⟩, .accept 6 ⟨0, 0⟩, .hangUp 5,
            .accept 5 ⟨0, 1⟩] = some last ∧
        last.ledger.live = {5, 6} ∧
        last.server.shared.userCount = last.ledger.live.card ∧
        (∀ fd ∈ last.ledger.live,
          ∃ index : Nat,
            fd = index ∧ (last.server.users index).sockfd = fd) ∧
        Ledger.empty.ClosesOnce last.log := by
  have ran :
      (run (step {} fun _ => []) (start fun _ => Conn.zeroed)
          [.accept 5 ⟨0, 0⟩, .accept 6 ⟨0, 0⟩, .hangUp 5,
            .accept 5 ⟨0, 1⟩]).map (fun s => s.ledger.live) =
        some {5, 6} := by
    decide +kernel
  obtain ⟨last, ran, live⟩ := Option.map_eq_some_iff.mp ran
  have inside :
      StepsMeet (step {} fun _ => []) StoresInside (start fun _ => Conn.zeroed)
        [.accept 5 ⟨0, 0⟩, .accept 6 ⟨0, 0⟩, .hangUp 5, .accept 5 ⟨0, 1⟩] :=
    ⟨trivial, fun _ _ => ⟨trivial, fun _ _ => ⟨trivial, fun _ _ =>
      ⟨trivial, fun _ _ => trivial⟩⟩⟩⟩
  exact ⟨last, ran, live, accounting inside ran⟩

/-- The NUL behind the body of this request of 39 bytes is stored 20 bytes in
front of `m_read_buf`. -/
def lengthBack : List UInt8 :=
  ascii "GET / HTTP/1.1\r\nContent-Length: -59\r\n\r\n"

def emptyFiles : FileSystem :=
  ⟨fun _ => some ⟨0o100644, 0⟩, fun _ _ => none⟩

/-- The store makes `m_sockfd` 0: `close_conn` closes the descriptor 0 and
counts the client out, whose own descriptor stays open. -/
theorem accounting_lost_to_store :
    ∃ last : Logged,
      run (step {} fun _ => []) (start fun _ => Conn.zeroed)
          [.accept 5 ⟨0, 0⟩, .epollIn 5 [lengthBack] .eagain, .dequeue,
            .process 5 emptyFiles] = some last ∧
        last.ledger.live = {5} ∧ last.server.shared.opened 5 = true ∧
        (last.server.users 5).sockfd = -1 ∧
        last.server.shared.userCount = 0 ∧
        ¬ (last.server.shared.userCount = last.ledger.live.card ∧
          (∀ fd ∈ last.ledger.live,
            ∃ index : Nat,
              fd = index ∧ (last.server.users index).sockfd = fd) ∧
          Ledger.empty.ClosesOnce last.log) := by
  have ran :
      (run (step {} fun _ => []) (start fun _ => Conn.zeroed)
          [.accept 5 ⟨0, 0⟩, .epollIn 5 [lengthBack] .eagain, .dequeue,
            .process 5 emptyFiles]).map
          (fun s =>
            (s.ledger.live, s.server.shared.opened 5,
              (s.server.users 5).sockfd, s.server.shared.userCount)) =
        some ({5}, true, -1, 0) := by
    decide +kernel
  obtain ⟨last, ran, observed⟩ := Option.map_eq_some_iff.mp ran
  simp only [Prod.mk.injEq] at observed
  obtain ⟨live, opened, sockfd, userCount⟩ := observed
  refine ⟨last, ran, live, opened, sockfd, userCount, fun ⟨counted, _⟩ => ?_⟩
  rw [userCount, live] at counted
  cases counted

end Logged

end LinuxNet.WebServer
