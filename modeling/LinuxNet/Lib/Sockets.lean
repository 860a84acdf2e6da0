import LinuxNet.Lib.EchoService

/-!
# Connections behind descriptors

A process knows the connections that it has accepted by the numbers of their
descriptors, and such a number is given out again once it is closed.  The
connections themselves are counted as they are accepted.
-/

namespace LinuxNet.EchoService

open LinuxNet.StepSystem

variable {α β : Type}

/-- What a call of `read` returns: a number of items, 0 or −1. -/
inductive ReadReturn where
  | items (count : Nat)
  | zero
  | error
  deriving DecidableEq, Repr

/-- The connection behind each open descriptor, the number of the next
connection, and what has passed over each. -/
structure Sockets (α β : Type) where
  peerOf : Nat → Option Nat
  next : Nat
  channels : Nat → Channel α β

namespace Sockets

def none : Sockets α β :=
  ⟨fun _ => .none, 0, fun _ => .fresh⟩

def update
    (sockets : Sockets α β) (conn : Nat) (channel : Channel α β) :
    Sockets α β :=
  { sockets with channels := Function.update sockets.channels conn channel }

def arrive (sockets : Sockets α β) (conn : Nat) (items : List α) :
    Option (Sockets α β) :=
  ((sockets.channels conn).arrive items).map (sockets.update conn)

def finish (sockets : Sockets α β) (conn : Nat) : Sockets α β :=
  sockets.update conn (sockets.channels conn).finish

def joined (sockets : Sockets α β) (fd : Nat) : Sockets α β :=
  ⟨Function.update sockets.peerOf fd (some sockets.next), sockets.next + 1,
    Function.update sockets.channels sockets.next
      ((sockets.channels sockets.next).move .opened)⟩

/-- The descriptor is free, and its connection ends up in some place. -/
def vacated (sockets : Sockets α β) (fd conn : Nat) (place : Place) :
    Sockets α β :=
  ⟨Function.update sockets.peerOf fd .none, sockets.next,
    Function.update sockets.channels conn
      ((sockets.channels conn).move place)⟩

/-- The connection behind the descriptor is closed. -/
def parted (sockets : Sockets α β) (fd conn : Nat) : Sockets α β :=
  sockets.vacated fd conn .closed

/-- `accept` returns a descriptor that is not open. -/
def accept (sockets : Sockets α β) (fd : Nat) : Option (Sockets α β) :=
  match sockets.peerOf fd with
  | some _ => .none
  | .none =>
      some (sockets.joined fd)

/-- `read` returns the given number of items. -/
def read (sockets : Sockets α β) (fd count : Nat) :
    Option (List α × Sockets α β) :=
  (sockets.peerOf fd).bind fun conn =>
    if (sockets.channels conn).Readable count then
      some
        ((sockets.channels conn).incoming.take count,
          sockets.update conn ((sockets.channels conn).take count))
    else
      .none

/-- `read` returns 0. -/
def AtEnd (sockets : Sockets α β) (fd : Nat) : Prop :=
  ∃ conn ∈ sockets.peerOf fd, (sockets.channels conn).AtEnd

instance (sockets : Sockets α β) (fd : Nat) :
    Decidable (sockets.AtEnd fd) := by
  unfold AtEnd
  infer_instance

/-- The connection takes some items from a `write`; there is no connection
behind a descriptor that is not open. -/
def write (sockets : Sockets α β) (fd : Nat) (items : List β) :
    Sockets α β :=
  match sockets.peerOf fd with
  | .none => sockets
  | some conn => sockets.update conn ((sockets.channels conn).put items)

/-- `close`, which fails where the descriptor is not open. -/
def close (sockets : Sockets α β) (fd : Nat) : Option (Sockets α β) :=
  (sockets.peerOf fd).map (sockets.parted fd)

/-- `close` before the end of the stream. -/
def drop (sockets : Sockets α β) (fd : Nat) : Option (Sockets α β) :=
  (sockets.peerOf fd).map fun conn => sockets.vacated fd conn .dropped

def IsOpen (sockets : Sockets α β) (fd : Nat) : Prop :=
  ∃ conn, sockets.peerOf fd = some conn

/-- Each open descriptor has a connection of its own, which is open. -/
structure Coherent (sockets : Sockets α β) : Prop where
  below : ∀ {fd conn}, sockets.peerOf fd = some conn → conn < sockets.next
  distinct :
    ∀ {fd other conn}, sockets.peerOf fd = some conn →
      sockets.peerOf other = some conn → fd = other
  opened :
    ∀ {conn}, (sockets.channels conn).place = .opened ↔
      ∃ fd, sockets.peerOf fd = some conn
  waiting :
    ∀ {conn}, sockets.next ≤ conn →
      (sockets.channels conn).place = .backlog

/-- The descriptors are what they were. -/
structure Kept (sockets later : Sockets α β) : Prop where
  coherent : later.Coherent
  peerOf_eq : later.peerOf = sockets.peerOf
  next_eq : later.next = sockets.next

theorem coherent_none : (none : Sockets α β).Coherent where
  below := nofun
  distinct := nofun
  opened := ⟨nofun, nofun⟩
  waiting := fun _ => rfl

section

variable {sockets later : Sockets α β} {fd conn count : Nat}

@[simp]
theorem channels_update_self (channel : Channel α β) :
    (sockets.update conn channel).channels conn = channel := by
  unfold update
  exact Function.update_self ..

theorem channels_update_of_ne
    {other : Nat} (different : other ≠ conn) (channel : Channel α β) :
    (sockets.update conn channel).channels other = sockets.channels other := by
  unfold update
  exact Function.update_of_ne different ..

/-- A connection that stays where it is leaves the descriptors coherent. -/
theorem Coherent.update
    (coherent : sockets.Coherent) {channel : Channel α β}
    (place : channel.place = (sockets.channels conn).place) :
    (sockets.update conn channel).Coherent := by
  have places :
      ∀ other, ((sockets.update conn channel).channels other).place =
        (sockets.channels other).place := by
    intro other
    by_cases same : other = conn
    · rw [same, channels_update_self, place]
    · rw [channels_update_of_ne same]
  refine ⟨coherent.below, coherent.distinct, ?_, ?_⟩
  · intro other
    rw [places]
    exact coherent.opened
  · intro other above
    rw [places]
    exact coherent.waiting above

@[simp]
theorem peerOf_joined :
    (sockets.joined fd).peerOf =
      Function.update sockets.peerOf fd (some sockets.next) :=
  rfl

@[simp]
theorem next_joined : (sockets.joined fd).next = sockets.next + 1 :=
  rfl

@[simp]
theorem channels_joined :
    (sockets.joined fd).channels =
      Function.update sockets.channels sockets.next
        ((sockets.channels sockets.next).move .opened) :=
  rfl

@[simp]
theorem peerOf_parted :
    (sockets.parted fd conn).peerOf =
      Function.update sockets.peerOf fd .none :=
  rfl

theorem accept_eq_some
    (accepted : sockets.accept fd = some later) :
    sockets.peerOf fd = .none ∧
      later = sockets.joined fd := by
  unfold accept at accepted
  split at accepted
  · cases accepted
  · next free =>
      cases accepted
      exact ⟨free, rfl⟩

theorem accept_of_free (free : sockets.peerOf fd = .none) :
    sockets.accept fd = some (sockets.joined fd) := by
  unfold accept
  rw [free]

theorem read_eq_some
    {items : List α} (isRead : sockets.read fd count = some (items, later)) :
    ∃ conn, sockets.peerOf fd = some conn ∧
      (sockets.channels conn).Readable count ∧
        items = (sockets.channels conn).incoming.take count ∧
          later = sockets.update conn ((sockets.channels conn).take count) := by
  obtain ⟨conn, isPeer, isRead⟩ := Option.bind_eq_some_iff.mp isRead
  obtain ⟨readable, isRead⟩ := Option.ite_none_right_eq_some.mp isRead
  cases isRead
  exact ⟨conn, isPeer, readable, rfl, rfl⟩

theorem Coherent.kept (coherent : sockets.Coherent) : sockets.Kept sockets :=
  ⟨coherent, rfl, rfl⟩

/-- Reading and writing leave the descriptors alone. -/
theorem Coherent.arrive
    (coherent : sockets.Coherent) {items : List α}
    (arrived : sockets.arrive conn items = some later) :
    sockets.Kept later := by
  obtain ⟨channel, isChannel, rfl⟩ := Option.map_eq_some_iff.mp arrived
  obtain ⟨_, isChannel⟩ := Option.ite_none_left_eq_some.mp isChannel
  cases isChannel
  exact ⟨coherent.update rfl, rfl, rfl⟩

theorem Coherent.finish
    (coherent : sockets.Coherent) (conn : Nat) :
    sockets.Kept (sockets.finish conn) :=
  ⟨coherent.update rfl, rfl, rfl⟩

theorem Coherent.read
    (coherent : sockets.Coherent) {items : List α}
    (isRead : sockets.read fd count = some (items, later)) :
    sockets.Kept later := by
  obtain ⟨peer, _, _, rfl, rfl⟩ := read_eq_some isRead
  exact ⟨coherent.update rfl, rfl, rfl⟩

theorem Coherent.write
    (coherent : sockets.Coherent) (fd : Nat) (items : List β) :
    sockets.Kept (sockets.write fd items) := by
  unfold Sockets.write
  split
  · exact coherent.kept
  · exact ⟨coherent.update rfl, rfl, rfl⟩

/-- The other descriptors stay. -/
theorem peerOf_joined_of_free
    {other peer : Nat} (free : sockets.peerOf fd = .none)
    (isPeer : sockets.peerOf other = some peer) :
    (sockets.joined fd).peerOf other = some peer := by
  have different : other ≠ fd := by
    rintro rfl
    rw [free] at isPeer
    cases isPeer
  rw [peerOf_joined, Function.update_of_ne different]
  exact isPeer

theorem peerOf_parted_of_ne
    {other peer : Nat} (isClosed : sockets.peerOf fd = some conn)
    (different : peer ≠ conn) (isPeer : sockets.peerOf other = some peer) :
    (sockets.parted fd conn).peerOf other = some peer := by
  have otherFd : other ≠ fd := by
    rintro rfl
    exact different (Option.some.inj (isPeer.symm.trans isClosed))
  rw [peerOf_parted, Function.update_of_ne otherFd]
  exact isPeer

theorem isOpen_joined {other : Nat} :
    (sockets.joined fd).IsOpen other ↔ other = fd ∨ sockets.IsOpen other := by
  unfold IsOpen
  rw [peerOf_joined]
  by_cases same : other = fd
  · simp [same]
  · simp [same, Function.update_of_ne]

theorem isOpen_vacated {place : Place} {other : Nat} :
    (sockets.vacated fd conn place).IsOpen other ↔
      other ≠ fd ∧ sockets.IsOpen other := by
  unfold IsOpen vacated
  by_cases same : other = fd
  · simp [same]
  · simp [same, Function.update_of_ne]

theorem isOpen_parted {other : Nat} :
    (sockets.parted fd conn).IsOpen other ↔
      other ≠ fd ∧ sockets.IsOpen other :=
  isOpen_vacated

theorem write_of_peer
    (isPeer : sockets.peerOf fd = some conn) (items : List β) :
    sockets.write fd items =
      sockets.update conn ((sockets.channels conn).put items) := by
  unfold write
  rw [isPeer]

theorem write_of_not_isOpen
    (closed : ¬ sockets.IsOpen fd) (items : List β) :
    sockets.write fd items = sockets := by
  unfold write
  split
  · rfl
  · next conn isPeer => exact absurd ⟨conn, isPeer⟩ closed

@[simp]
theorem write_nil (sockets : Sockets α β) (fd : Nat) :
    sockets.write fd [] = sockets := by
  unfold write
  split
  · rfl
  · next conn isPeer =>
      have same : (sockets.channels conn).put [] = sockets.channels conn := by
        simp [Channel.put]
      rw [same, update, Function.update_eq_self]

theorem close_of_peer (isPeer : sockets.peerOf fd = some conn) :
    sockets.close fd = some (sockets.parted fd conn) := by
  unfold close
  rw [isPeer]
  rfl

theorem Coherent.accept
    (coherent : sockets.Coherent)
    (accepted : sockets.accept fd = some later) : later.Coherent := by
  obtain ⟨free, rfl⟩ := accept_eq_some accepted
  constructor
  · intro other conn isPeer
    rw [peerOf_joined] at isPeer
    by_cases same : other = fd
    · subst same
      rw [Function.update_self] at isPeer
      cases isPeer
      exact Nat.lt_succ_self _
    · rw [Function.update_of_ne same] at isPeer
      exact Nat.lt_succ_of_lt (coherent.below isPeer)
  · intro first second conn isFirst isSecond
    rw [peerOf_joined] at isFirst isSecond
    by_cases one : first = fd
    · by_cases two : second = fd
      · rw [one, two]
      · subst one
        rw [Function.update_self] at isFirst
        cases isFirst
        rw [Function.update_of_ne two] at isSecond
        exact absurd (coherent.below isSecond) (Nat.lt_irrefl _)
    · rw [Function.update_of_ne one] at isFirst
      by_cases two : second = fd
      · subst two
        rw [Function.update_self] at isSecond
        cases isSecond
        exact absurd (coherent.below isFirst) (Nat.lt_irrefl _)
      · rw [Function.update_of_ne two] at isSecond
        exact coherent.distinct isFirst isSecond
  · intro conn
    rw [peerOf_joined, channels_joined]
    by_cases same : conn = sockets.next
    · subst same
      refine iff_of_true ?_ ⟨fd, Function.update_self fd _ _⟩
      rw [Function.update_self]
      rfl
    · rw [Function.update_of_ne same, coherent.opened]
      constructor
      · rintro ⟨other, isPeer⟩
        refine ⟨other, ?_⟩
        rw [Function.update_of_ne]
        · exact isPeer
        · rintro rfl
          rw [free] at isPeer
          cases isPeer
      · rintro ⟨other, isPeer⟩
        by_cases new : other = fd
        · rw [new, Function.update_self] at isPeer
          exact absurd (Option.some.inj isPeer).symm same
        · rw [Function.update_of_ne new] at isPeer
          exact ⟨other, isPeer⟩
  · intro conn above
    rw [next_joined] at above
    rw [channels_joined, Function.update_of_ne (Nat.ne_of_gt above)]
    exact coherent.waiting (Nat.le_of_succ_le above)

theorem Coherent.vacated
    (coherent : sockets.Coherent) (isPeer : sockets.peerOf fd = some conn)
    {place : Place} (left : place ≠ .opened) :
    (sockets.vacated fd conn place).Coherent := by
  have others :
      ∀ {other peer}, Function.update sockets.peerOf fd .none other =
        some peer → other ≠ fd ∧ sockets.peerOf other = some peer := by
    intro other peer isPeer
    have different : other ≠ fd := by
      rintro rfl
      rw [Function.update_self] at isPeer
      cases isPeer
    rw [Function.update_of_ne different] at isPeer
    exact ⟨different, isPeer⟩
  constructor
  · intro other peer isOther
    exact coherent.below (others isOther).2
  · intro first second peer isFirst isSecond
    exact coherent.distinct (others isFirst).2 (others isSecond).2
  · intro peer
    unfold Sockets.vacated
    by_cases same : peer = conn
    · subst same
      refine iff_of_false ?_ ?_
      · simp only [Function.update_self]
        exact left
      · rintro ⟨other, isOther⟩
        obtain ⟨different, isOther⟩ := others isOther
        exact different (coherent.distinct isOther isPeer)
    · simp only [Function.update_of_ne same]
      rw [coherent.opened]
      constructor
      · rintro ⟨other, isOther⟩
        refine ⟨other, ?_⟩
        rw [Function.update_of_ne]
        · exact isOther
        · rintro rfl
          exact same (Option.some.inj (isOther.symm.trans isPeer))
      · rintro ⟨other, isOther⟩
        exact ⟨other, (others isOther).2⟩
  · intro peer above
    have different : peer ≠ conn := by
      rintro rfl
      exact absurd (coherent.below isPeer) (Nat.not_lt.mpr above)
    unfold Sockets.vacated
    simp only [Function.update_of_ne different]
    exact coherent.waiting above

theorem Coherent.close
    (coherent : sockets.Coherent) (isPeer : sockets.peerOf fd = some conn)
    (closed : sockets.close fd = some later) : later.Coherent := by
  rw [close_of_peer isPeer] at closed
  cases closed
  exact coherent.vacated isPeer nofun

end

/-! ## The connections as a service -/

def service (sockets : Sockets α β) (hands : Nat → Hand α) : Service α β :=
  .of sockets.channels hands

/-- Nothing is in hand but for the connection behind one descriptor. -/
def inHand (sockets : Sockets α β) (fd : Nat) (hand : Hand α) :
    Nat → Hand α :=
  match sockets.peerOf fd with
  | .none => fun _ => .nothing
  | some conn => Function.update (fun _ => .nothing) conn hand

def onPeer (sockets : Sockets α β) (fd : Nat) (act : Act α) :
    List (Nat × Act α) :=
  match sockets.peerOf fd with
  | .none => []
  | some conn => [(conn, act)]

section

variable {convert : α → β} {sockets later : Sockets α β}
variable {hands : Nat → Hand α} {fd conn count : Nat}

theorem inHand_of_peer
    (isPeer : sockets.peerOf fd = some conn) (hand : Hand α) :
    sockets.inHand fd hand =
      Function.update (fun _ => .nothing) conn hand := by
  unfold inHand
  rw [isPeer]

/-- Which connection it is depends on the descriptors alone. -/
theorem inHand_congr
    (same : later.peerOf = sockets.peerOf) (fd : Nat) (hand : Hand α) :
    later.inHand fd hand = sockets.inHand fd hand := by
  unfold inHand
  rw [same]

theorem onPeer_of_peer
    (isPeer : sockets.peerOf fd = some conn) (act : Act α) :
    sockets.onPeer fd act = [(conn, act)] := by
  unfold onPeer
  rw [isPeer]

theorem step_service
    {act : Act α} {channel : Channel α β} {hand : Hand α}
    (stepped :
      Session.step convert ⟨sockets.channels conn, hands conn⟩ act =
        some ⟨channel, hand⟩)
    (channels :
      later.channels = Function.update sockets.channels conn channel) :
    Service.step convert (sockets.service hands) (conn, act) =
      some (later.service (Function.update hands conn hand)) := by
  unfold service
  rw [channels]
  exact Service.step_of stepped

theorem step_service_of_same_hand
    {act : Act α} {channel : Channel α β}
    (stepped :
      Session.step convert ⟨sockets.channels conn, hands conn⟩ act =
        some ⟨channel, hands conn⟩)
    (channels :
      later.channels = Function.update sockets.channels conn channel) :
    Service.step convert (sockets.service hands) (conn, act) =
      some (later.service hands) := by
  unfold service
  rw [channels]
  exact Service.step_of_same_hand stepped

theorem service_arrive
    {items : List α} (arrived : sockets.arrive conn items = some later) :
    Service.step convert (sockets.service hands) (conn, .arrives items) =
      some (later.service hands) := by
  obtain ⟨channel, isChannel, rfl⟩ := Option.map_eq_some_iff.mp arrived
  exact step_service_of_same_hand (Session.step_arrives isChannel) rfl

theorem service_finish :
    Service.step convert (sockets.service hands) (conn, .finishes) =
      some ((sockets.finish conn).service hands) :=
  step_service_of_same_hand rfl rfl

theorem service_accept (coherent : sockets.Coherent) :
    Service.step convert (sockets.service hands) (sockets.next, .accepts) =
      some ((sockets.joined fd).service hands) :=
  step_service_of_same_hand
    (Session.step_accepts (coherent.waiting (Nat.le_refl _))) rfl

theorem service_read
    (coherent : sockets.Coherent) {items : List α}
    (isRead : sockets.read fd count = some (items, later))
    (isPeer : sockets.peerOf fd = some conn)
    (free : hands conn = .nothing) :
    Service.step convert (sockets.service hands) (conn, .reads count) =
      some (later.service (Function.update hands conn (.items items))) := by
  obtain ⟨peer, isPeer', readable, rfl, rfl⟩ := read_eq_some isRead
  cases Option.some.inj (isPeer'.symm.trans isPeer)
  refine step_service ?_ rfl
  rw [free]
  exact Session.step_reads (coherent.opened.mpr ⟨fd, isPeer⟩) readable

theorem service_readEnd
    (coherent : sockets.Coherent) (atEnd : sockets.AtEnd fd)
    (isPeer : sockets.peerOf fd = some conn)
    (free : hands conn = .nothing) :
    Service.step convert (sockets.service hands) (conn, .readsEnd) =
      some (sockets.service (Function.update hands conn .theEnd)) := by
  obtain ⟨peer, isPeer', atEnd⟩ := atEnd
  cases Option.some.inj (isPeer'.symm.trans isPeer)
  refine step_service ?_ (Function.update_eq_self _ _).symm
  rw [free]
  exact Session.step_readsEnd (coherent.opened.mpr ⟨fd, isPeer⟩) atEnd

theorem service_write
    (isPeer : sockets.peerOf fd = some conn) {held : List α}
    (inHand : hands conn = .items held) (count : Nat) :
    Service.step convert (sockets.service hands) (conn, .writes count) =
      some
        ((sockets.write fd ((held.map convert).take count)).service
          (Function.update hands conn .nothing)) := by
  rw [write_of_peer isPeer]
  refine step_service ?_ rfl
  rw [inHand]
  rfl

theorem service_close (theEnd : hands conn = .theEnd) :
    Service.step convert (sockets.service hands) (conn, .closes) =
      some
        ((sockets.parted fd conn).service
          (Function.update hands conn .nothing)) := by
  refine step_service ?_ rfl
  rw [theEnd]
  rfl

theorem service_drop
    (coherent : sockets.Coherent) (isPeer : sockets.peerOf fd = some conn) :
    Service.step convert (sockets.service hands) (conn, .drops) =
      some
        ((sockets.vacated fd conn .dropped).service
          (Function.update hands conn .nothing)) :=
  step_service (Session.step_drops (coherent.opened.mpr ⟨fd, isPeer⟩)) rfl

theorem stepsMeet_onPeer_of_lossless
    {act : Act α} (lossless : Service.Lossless act)
    (service : Service α β) :
    StepsMeet (Service.step convert) Service.Complete service
      (sockets.onPeer fd act) := by
  apply stepsMeet_of_forall_mem
  intro label member service
  unfold onPeer at member
  split at member
  · cases member
  · cases List.mem_singleton.mp member
    exact Service.complete_of_lossless lossless service _

/-! A process that is in the middle of at most one connection. -/

theorem service_read_first
    (coherent : sockets.Coherent) {items : List α}
    (isRead : sockets.read fd count = some (items, later)) :
    run (Service.step convert) (sockets.service fun _ => .nothing)
        (sockets.onPeer fd (.reads count)) =
      some (later.service (later.inHand fd (.items items))) := by
  obtain ⟨conn, isPeer, _⟩ := read_eq_some isRead
  rw [onPeer_of_peer isPeer, run_singleton_eq_some_iff,
    inHand_congr (coherent.read isRead).peerOf_eq, inHand_of_peer isPeer]
  exact service_read coherent isRead isPeer rfl

theorem service_readEnd_first
    (coherent : sockets.Coherent) (atEnd : sockets.AtEnd fd) :
    run (Service.step convert) (sockets.service fun _ => .nothing)
        (sockets.onPeer fd .readsEnd) =
      some (sockets.service (sockets.inHand fd .theEnd)) := by
  obtain ⟨conn, isPeer, _⟩ := id atEnd
  have isPeer : sockets.peerOf fd = some conn := isPeer
  rw [onPeer_of_peer isPeer, run_singleton_eq_some_iff,
    inHand_of_peer isPeer]
  exact service_readEnd coherent atEnd isPeer rfl

theorem service_write_last
    (isPeer : sockets.peerOf fd = some conn) (held : List α) (count : Nat) :
    run (Service.step convert)
        (sockets.service (sockets.inHand fd (.items held)))
        (sockets.onPeer fd (.writes count)) =
      some
        ((sockets.write fd ((held.map convert).take count)).service
          fun _ => .nothing) := by
  rw [onPeer_of_peer isPeer, run_singleton_eq_some_iff,
    inHand_of_peer isPeer,
    service_write isPeer (Function.update_self conn _ _) count,
    Function.update_idem, Function.update_eq_self]

/-- The write is complete where all that is in hand is taken. -/
theorem stepsMeet_write_last_iff
    (isPeer : sockets.peerOf fd = some conn) (held : List α) (count : Nat) :
    StepsMeet (Service.step convert) Service.Complete
        (sockets.service (sockets.inHand fd (.items held)))
        (sockets.onPeer fd (.writes count)) ↔
      held.length ≤ count := by
  rw [onPeer_of_peer isPeer, stepsMeet_singleton_iff, inHand_of_peer isPeer]
  unfold Service.Complete service Service.of Session.Complete
  simp only [Function.update_self]
  rfl

theorem service_close_last (isPeer : sockets.peerOf fd = some conn) :
    run (Service.step convert)
        (sockets.service (sockets.inHand fd .theEnd))
        (sockets.onPeer fd .closes) =
      some ((sockets.parted fd conn).service fun _ => .nothing) := by
  rw [onPeer_of_peer isPeer, run_singleton_eq_some_iff,
    inHand_of_peer isPeer, service_close (Function.update_self conn _ _),
    Function.update_idem, Function.update_eq_self]

end

end Sockets

end LinuxNet.EchoService
