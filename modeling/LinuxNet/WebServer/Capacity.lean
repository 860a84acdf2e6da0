import LinuxNet.Lib.LowestFree
import LinuxNet.WebServer.Accounting

/-!
# `MAX_FD` and the numbers of the descriptors

`users` has `MAX_FD` slots and is indexed by what `accept` returns; `main`
compares `m_user_count` with `MAX_FD`.  The other descriptors of the process,
the standard streams, the listening socket, the epoll instance and the files
that the workers open, have numbers too, and so has a client whose `m_sockfd`
was overwritten, so that `close_conn` closed another descriptor.
`in_table_iff` says when every index lies in the table: as long as
`m_user_count` and the descriptors below `MAX_FD` that it does not count are
together fewer than `MAX_FD`.
-/

namespace LinuxNet.WebServer

open LinuxNet.StepSystem LinuxNet.LowestFree

/-- The server, the descriptors of the process that are no clients, and the
descriptors that have indexed `users` so far. -/
structure Process where
  logged : Logged
  others : Finset Nat
  indexed : List Nat

inductive ProcessLabel where
  | server (label : Label)
  /-- Anything else in the process opens a descriptor. -/
  | openOther (fd : Nat)
  | closeOther (fd : Nat)

/-- The length of `users`. -/
def tableSize : Nat := 65536

theorem lt_maxFd_iff (fd : Nat) : (fd : Int) < maxFd ↔ fd < tableSize := by
  show (fd : Int) < (tableSize : Nat) ↔ _
  omega

def closes (entries : List Entry) (fd : Nat) : Bool :=
  entries.any fun entry =>
    match entry with
    | .performed (.close closed) => closed = fd
    | _ => false

namespace Process

def start (users : Nat → Conn) (others : Finset Nat) : Process :=
  ⟨.start users, others, []⟩

def InUse (s : Process) (fd : Nat) : Prop :=
  s.logged.server.shared.opened fd = true ∨ fd ∈ s.others

instance (s : Process) : DecidablePred s.InUse :=
  fun _ => inferInstanceAs (Decidable (_ ∨ _))

/-- `m_user_count >= MAX_FD`. -/
def IsBusy (s : Process) : Prop :=
  maxFd ≤ s.logged.server.shared.userCount

instance (s : Process) : Decidable s.IsBusy :=
  inferInstanceAs (Decidable (_ ≤ _))

/-- The server takes a step.  `close_conn` may close a descriptor that is no
client, when `m_sockfd` has been overwritten. -/
def afterServer (s : Process) (label : Label) (next : Logged) : Process :=
  { s with
    logged := next
    others :=
      s.others.filter fun fd =>
        closes (s.logged.server.entries next.server label) fd = false }

/-- One step; a new descriptor is the lowest that is not in use. -/
def step (pool : Pool) (pages : Nat → List UInt8) (s : Process) :
    ProcessLabel → Option Process
  | .server (.accept connfd address) =>
      if Lowest s.InUse connfd then
        (s.logged.step pool pages (.accept connfd address)).map fun next =>
          { s.afterServer (.accept connfd address) next with
            indexed :=
              if s.IsBusy then s.indexed else connfd :: s.indexed }
      else
        none
  | .server label =>
      (s.logged.step pool pages label).map (s.afterServer label)
  | .openOther fd =>
      if Lowest s.InUse fd then
        some { s with others := insert fd s.others }
      else
        none
  | .closeOther fd =>
      if fd ∈ s.others then
        some { s with others := s.others.erase fd }
      else
        none

/-- Every index into `users` has been one of the table. -/
def InTable (s : Process) : Prop :=
  ∀ connfd ∈ s.indexed, (connfd : Int) < maxFd

/-- The descriptors in the range of the table that are no clients. -/
def othersInRange (s : Process) : Finset Nat :=
  s.others.filter fun fd => (fd : Int) < maxFd

/-- The descriptors in the range of the table that `accept` has returned. -/
def clientsInRange (s : Process) : Finset Nat :=
  usedBelow (fun fd => s.logged.server.shared.opened fd = true) tableSize

/-- How many descriptors in the range of the table `m_user_count` does not
count: those that are no clients, and the clients that were counted out when
`close_conn` closed another descriptor. -/
def uncounted (s : Process) : Int :=
  s.othersInRange.card +
    (s.clientsInRange.card - s.logged.server.shared.userCount)

/-- A client that is not turned away finds a number left in the range of the
table. -/
def RoomLeft (s : Process) : ProcessLabel → Prop
  | .server (.accept _ _) =>
      ¬ s.IsBusy →
        s.logged.server.shared.userCount + s.uncounted < maxFd
  | _ => True

/-- No `process()` stores outside `m_read_buf`. -/
def StoresInside (s : Process) : ProcessLabel → Prop
  | .server label => s.logged.StoresInside label
  | _ => True

/-- The clients and the other descriptors are apart, and every client has
indexed the table. -/
structure Accounted (s : Process) : Prop where
  apart : ∀ fd ∈ s.others, s.logged.server.shared.opened fd = false
  indexed :
    ∀ fd, s.logged.server.shared.opened fd = true → fd ∈ s.indexed

variable {pool : Pool} {pages : Nat → List UInt8} {s : Process}

theorem accounted_start
    (users : Nat → Conn) (others : Finset Nat) :
    (start users others).Accounted where
  apart := fun _ _ => rfl
  indexed := by
    intro fd opened
    cases opened

/-- The numbers in use in the range of the table are the clients and the
other descriptors there. -/
theorem Accounted.card_usedBelow (accounted : s.Accounted) :
    ((usedBelow s.InUse tableSize).card : Int) =
      s.logged.server.shared.userCount + s.uncounted := by
  have parts :
      usedBelow s.InUse tableSize = s.clientsInRange ∪ s.othersInRange := by
    ext fd
    rw [Finset.mem_union, mem_usedBelow, clientsInRange, mem_usedBelow,
      othersInRange, Finset.mem_filter]
    rw [lt_maxFd_iff, and_comm (b := fd < tableSize)]
    exact and_or_left
  have apart : Disjoint s.clientsInRange s.othersInRange := by
    rw [Finset.disjoint_left]
    intro fd client other
    have opened := (mem_usedBelow.mp client).2
    rw [accounted.apart fd (Finset.mem_filter.mp other).1] at opened
    cases opened
  rw [parts, Finset.card_union_of_disjoint apart, uncounted]
  omega

/-- A lowest free number is in the table exactly when there is room. -/
theorem Accounted.lt_maxFd_iff
    (accounted : s.Accounted) {fd : Nat} (lowest : Lowest s.InUse fd) :
    (fd : Int) < maxFd ↔
      s.logged.server.shared.userCount + s.uncounted < maxFd := by
  rw [WebServer.lt_maxFd_iff, lowest.lt_iff tableSize,
    ← accounted.card_usedBelow, ← WebServer.lt_maxFd_iff]

/-- While the log balances, `m_user_count` counts all clients in the table. -/
theorem Accounted.uncounted_eq
    (accounted : s.Accounted) (balanced : s.logged.Balanced)
    (inTable : s.InTable) : s.uncounted = s.othersInRange.card := by
  have clients :
      s.logged.ledger.live = s.clientsInRange.image (Nat.cast : Nat → Int) := by
    ext fd
    rw [balanced.mem_live, Finset.mem_image]
    constructor
    · rintro ⟨index, rfl, opened⟩
      have below : index < tableSize :=
        (WebServer.lt_maxFd_iff index).mp
          (inTable index (accounted.indexed index opened))
      exact ⟨index, mem_usedBelow.mpr ⟨below, opened⟩, rfl⟩
    · rintro ⟨index, member, rfl⟩
      exact ⟨index, rfl, (mem_usedBelow.mp member).2⟩
  have injective : Function.Injective (Nat.cast : Nat → Int) :=
    fun _ _ same => Int.ofNat.inj same
  have counted := balanced.userCount_eq
  rw [clients, Finset.card_image_of_injective _ injective] at counted
  rw [uncounted, counted]
  omega

end Process

/-- No event opens a descriptor. -/
theorem Shared.opened_of_apply
    {shared : Shared} {event : Event} {fd : Nat}
    (opened : (shared.apply event).opened fd = true) :
    shared.opened fd = true := by
  unfold Shared.apply at opened
  split at opened
  · split at opened <;> exact opened
  · split at opened <;> exact opened
  · exact opened
  · next closed =>
      by_cases same : fd = closed
      · rw [same] at opened
        simp at opened
      · simpa [Function.update_of_ne same] using opened
  · exact opened
  · exact opened

theorem Shared.opened_of_after
    {shared : Shared} {events : List Event} {fd : Nat}
    (opened : (shared.after events).opened fd = true) :
    shared.opened fd = true := by
  induction events generalizing shared with
  | nil => exact opened
  | cons event events inductionHypothesis =>
      exact Shared.opened_of_apply (inductionHypothesis opened)

namespace Server

variable {pool : Pool} {pages : Nat → List UInt8}
variable {s next : Server} {label : Label} {fd : Nat}

theorem opened_of_deliver
    {sockfd : Nat} {interest : Interest} {c : Conn}
    (opened :
      ((s.deliver sockfd interest).perform sockfd c).shared.opened fd =
        true) :
    s.shared.opened fd = true := by
  have before : (s.deliver sockfd interest).shared.opened fd = true :=
    Shared.opened_of_after opened
  exact before

/-- A descriptor becomes a client only in `accept`. -/
theorem opened_before
    (stepped : s.step pool pages label = some next)
    (opened : next.shared.opened fd = true) :
    s.shared.opened fd = true ∨
      (∃ address, label = .accept fd address) ∧
        s.shared.userCount < maxFd := by
  cases label with
  | accept connfd address =>
      simp only [step] at stepped
      split at stepped
      · cases stepped
      split at stepped
      · cases stepped
        exact .inl opened
      · next free =>
          cases stepped
          have before : (s.shared.accept connfd).opened fd = true :=
            Shared.opened_of_after opened
          by_cases same : fd = connfd
          · subst same
            exact .inr ⟨⟨address, rfl⟩, Int.not_le.mp free⟩
          · left
            rw [← before]
            exact (Function.update_of_ne same ..).symm
  | hangUp sockfd =>
      simp only [step] at stepped
      split at stepped
      · cases stepped
        exact .inl (opened_of_deliver opened)
      · cases stepped
  | epollIn sockfd blocks last =>
      simp only [step] at stepped
      split at stepped
      · split at stepped
        · cases stepped
          exact .inl (opened_of_deliver opened)
        · cases stepped
          exact .inl (opened_of_deliver opened)
      · cases stepped
  | epollOut sockfd outcomes =>
      simp only [step] at stepped
      split at stepped
      · split at stepped
        · cases stepped
          exact .inl (opened_of_deliver opened)
        · cases stepped
          exact .inl (opened_of_deliver opened)
        · cases stepped
      · cases stepped
  | dequeue =>
      simp only [step] at stepped
      split at stepped
      · cases stepped
      split at stepped
      · cases stepped
        exact .inl opened
      · cases stepped
  | process request fs | overrun request fs users =>
      simp only [step] at stepped
      split at stepped
      · cases stepped
        exact .inl (Shared.opened_of_after opened)
      · cases stepped

end Server

namespace Process

variable {pool : Pool} {pages : Nat → List UInt8} {s next : Process}

/-- A step of the server that is no `accept`. -/
theorem Accounted.server
    {label : Label} {logged : Logged} (accounted : s.Accounted)
    (notAccept : ∀ connfd address, label ≠ .accept connfd address)
    (stepped : s.logged.step pool pages label = some logged) :
    (s.afterServer label logged).Accounted := by
  have before :
      ∀ fd, logged.server.shared.opened fd = true →
        s.logged.server.shared.opened fd = true := by
    intro fd opened
    obtain ⟨server, serverStepped, rfl⟩ :=
      Option.map_eq_some_iff.mp stepped
    rcases Server.opened_before serverStepped opened with
      opened | ⟨⟨address, same⟩, _⟩
    · exact opened
    · exact absurd same (notAccept fd address)
  refine ⟨fun fd other => ?_, fun fd opened => ?_⟩
  · have isOther : fd ∈ s.others := (Finset.mem_filter.mp other).1
    rw [Bool.eq_false_iff]
    intro opened
    have closed := accounted.apart fd isOther
    rw [before fd opened] at closed
    cases closed
  · exact accounted.indexed fd (before fd opened)

theorem Accounted.accept
    {connfd : Nat} {address : SockAddr} {logged : Logged}
    (accounted : s.Accounted) (lowest : Lowest s.InUse connfd)
    (stepped :
      s.logged.step pool pages (.accept connfd address) = some logged) :
    ({ s.afterServer (.accept connfd address) logged with
        indexed := if s.IsBusy then s.indexed else connfd :: s.indexed } :
      Process).Accounted := by
  have before :
      ∀ fd, logged.server.shared.opened fd = true →
        s.logged.server.shared.opened fd = true ∨
          fd = connfd ∧ ¬ s.IsBusy := by
    intro fd opened
    obtain ⟨server, serverStepped, rfl⟩ :=
      Option.map_eq_some_iff.mp stepped
    rcases Server.opened_before serverStepped opened with
      opened | ⟨⟨other, same⟩, free⟩
    · exact .inl opened
    · cases same
      exact .inr ⟨rfl, Int.not_le.mpr free⟩
  refine ⟨fun fd other => ?_, fun fd opened => ?_⟩
  · have isOther : fd ∈ s.others := (Finset.mem_filter.mp other).1
    rw [Bool.eq_false_iff]
    intro opened
    rcases before fd opened with opened | ⟨rfl, _⟩
    · have closed := accounted.apart fd isOther
      rw [opened] at closed
      cases closed
    · exact lowest.1 (.inr isOther)
  · show fd ∈ ite _ _ _
    rcases before fd opened with opened | ⟨rfl, free⟩
    · have member := accounted.indexed fd opened
      split
      · exact member
      · exact List.mem_cons_of_mem _ member
    · rw [if_neg free]
      exact List.mem_cons_self

/-- A step indexes inside the table exactly when it finds room. -/
theorem step_inTable_iff
    (s : Process) (label : ProcessLabel) (next : Process)
    (accounted : s.Accounted)
    (stepped : s.step pool pages label = some next) :
    next.Accounted ∧ (next.InTable ↔ s.InTable ∧ s.RoomLeft label) := by
  cases label with
  | openOther fd =>
      simp only [step] at stepped
      split at stepped
      · next lowest =>
          cases stepped
          refine
            ⟨⟨?_, accounted.indexed⟩, (and_iff_left trivial).symm⟩
          intro other member
          rcases Finset.mem_insert.mp member with rfl | member
          · exact Bool.eq_false_iff.mpr fun opened => lowest.1 (.inl opened)
          · exact accounted.apart other member
      · cases stepped
  | closeOther fd =>
      simp only [step] at stepped
      split at stepped
      · cases stepped
        refine ⟨⟨?_, accounted.indexed⟩, (and_iff_left trivial).symm⟩
        exact fun other member =>
          accounted.apart other (Finset.mem_of_mem_erase member)
      · cases stepped
  | server label =>
      cases label with
      | accept connfd address =>
          simp only [step] at stepped
          split at stepped
          · next lowest =>
              obtain ⟨logged, loggedStep, rfl⟩ :=
                Option.map_eq_some_iff.mp stepped
              refine ⟨accounted.accept lowest loggedStep, ?_⟩
              by_cases busy : s.IsBusy
              · have roomLeft : s.RoomLeft (.server (.accept connfd address)) :=
                  fun free => absurd busy free
                rw [and_iff_left roomLeft]
                simp only [InTable, if_pos busy]
              · simp only [InTable, if_neg busy, List.forall_mem_cons]
                rw [and_comm]
                refine and_congr_right fun inTable => ?_
                rw [accounted.lt_maxFd_iff lowest]
                exact ⟨fun room _ => room, fun room => room busy⟩
          · cases stepped
      | hangUp | epollIn | epollOut | dequeue | process | overrun =>
          obtain ⟨logged, loggedStep, rfl⟩ :=
            Option.map_eq_some_iff.mp stepped
          exact
            ⟨accounted.server (by simp) loggedStep,
              (and_iff_left trivial).symm⟩

/-- Without a store outside `m_read_buf` the log of the server balances. -/
theorem balanced_step
    (s : Process) (label : ProcessLabel) (next : Process)
    (balanced : s.logged.Balanced) (inside : s.StoresInside label)
    (stepped : s.step pool pages label = some next) :
    next.logged.Balanced := by
  cases label with
  | openOther fd | closeOther fd =>
      simp only [step] at stepped
      split at stepped
      · cases stepped
        exact balanced
      · cases stepped
  | server label =>
      have logged :
          ∃ later, s.logged.step pool pages label = some later ∧
            next.logged = later := by
        cases label with
        | accept connfd address =>
            simp only [step] at stepped
            split at stepped
            · obtain ⟨later, loggedStep, rfl⟩ :=
                Option.map_eq_some_iff.mp stepped
              exact ⟨later, loggedStep, rfl⟩
            · cases stepped
        | hangUp | epollIn | epollOut | dequeue | process | overrun =>
            obtain ⟨later, loggedStep, rfl⟩ :=
              Option.map_eq_some_iff.mp stepped
            exact ⟨later, loggedStep, rfl⟩
      obtain ⟨later, loggedStep, same⟩ := logged
      rw [same]
      exact Logged.balanced_step _ _ _ balanced inside loggedStep

/-- In a run every index into `users` is smaller than `MAX_FD` exactly when
each client that was not turned away found fewer than `MAX_FD` numbers below
`MAX_FD` in use, those that `m_user_count` does not count included.  While no
`process()` stores outside `m_read_buf`, these are the descriptors that are no
clients. -/
theorem in_table_iff
    {users : Nat → Conn} {others : Finset Nat} {labels : List ProcessLabel}
    {last : Process}
    (ran : run (step pool pages) (start users others) labels = some last) :
    (last.InTable ↔
        StepsMeet (step pool pages) RoomLeft (start users others) labels) ∧
      (StepsMeet (step pool pages) StoresInside (start users others) labels →
        last.InTable → last.uncounted = last.othersInRange.card) := by
  have always :=
    run_good_iff RoomLeft Accounted InTable step_inTable_iff
      (accounted_start users others) ran
  constructor
  · rw [always]
    apply and_iff_right
    intro connfd member
    cases member
  · intro inside inTable
    have accounted :=
      run_keeps Accounted
        (fun s label next accounted stepped =>
          (step_inTable_iff s label next accounted stepped).1)
        (accounted_start users others) ran
    have balanced :=
      guarded_run_keeps StoresInside (fun s => s.logged.Balanced)
        balanced_step (Logged.balanced_start users) inside ran
    exact accounted.uncounted_eq balanced inTable

/-! ## A full table -/

def fiveOthers : Finset Nat := {0, 1, 2, 3, 4}

def arrivals (count : Nat) : List ProcessLabel :=
  (List.range count).map fun client =>
    .server (.accept (client + 5) ⟨0, 0⟩)

/-- Some clients have connected, on the numbers from five on. -/
structure Filled (count : Nat) (s : Process) : Prop where
  accounted : s.Accounted
  balanced : s.logged.Balanced
  others : s.others = fiveOthers
  opened :
    ∀ fd, s.logged.server.shared.opened fd = true ↔
      5 ≤ fd ∧ fd < count + 5
  userCount : s.logged.server.shared.userCount = count
  indexed : s.indexed = (List.range count).reverse.map (· + 5)

theorem Filled.lowest
    {count : Nat} (filled : Filled count s) : Lowest s.InUse (count + 5) := by
  have inUse :
      ∀ fd, s.InUse fd ↔ 5 ≤ fd ∧ fd < count + 5 ∨ fd ∈ fiveOthers := by
    intro fd
    unfold InUse
    rw [filled.opened, filled.others]
  have isFive : ∀ fd, fd ∈ fiveOthers ↔ fd < 5 := by
    intro fd
    simp only [fiveOthers, Finset.mem_insert, Finset.mem_singleton]
    omega
  constructor
  · rw [inUse, isFive]
    omega
  · intro lower below
    rw [inUse, isFive]
    omega

theorem run_arrivals
    (users : Nat → Conn) (count : Nat) (below : (count : Int) ≤ maxFd) :
    ∃ s, run (step pool pages) (start users fiveOthers) (arrivals count) =
        some s ∧ Filled count s := by
  induction count with
  | zero =>
      refine
        ⟨start users fiveOthers, rfl, accounted_start users fiveOthers,
          Logged.balanced_start users, rfl, fun fd => ?_, rfl, rfl⟩
      constructor
      · intro opened
        cases opened
      · omega
  | succ count inductionHypothesis =>
      obtain ⟨s, ran, filled⟩ := inductionHypothesis (by omega)
      have lowest := filled.lowest
      have free : ¬ s.IsBusy := by
        unfold IsBusy
        rw [filled.userCount]
        omega
      have closed :
          s.logged.server.shared.opened (count + 5) = false := by
        rw [Bool.eq_false_iff]
        exact fun opened => lowest.1 (.inl opened)
      have notBusy : ¬ maxFd ≤ s.logged.server.shared.userCount := free
      obtain ⟨server, serverStepped⟩ :
          ∃ server,
            s.logged.server.step pool pages (.accept (count + 5) ⟨0, 0⟩) =
              some server := by
        simp only [Server.step]
        rw [if_neg (by rw [closed]; decide), if_neg notBusy]
        exact ⟨_, rfl⟩
      obtain ⟨_, ⟨busy, _⟩ | ⟨_, opened, userCount, events⟩⟩ :=
        Server.step_accept filled.balanced.placed serverStepped
      · exact absurd busy notBusy
      have loggedStepped :
          s.logged.step pool pages (.accept (count + 5) ⟨0, 0⟩) =
            some
              ⟨server,
                s.logged.log ++
                  s.logged.server.entries server
                    (.accept (count + 5) ⟨0, 0⟩)⟩ := by
        unfold Logged.step
        rw [serverStepped]
        rfl
      have stepped :
          s.step pool pages (.server (.accept (count + 5) ⟨0, 0⟩)) = _ :=
        if_pos lowest
      rw [loggedStepped] at stepped
      have accounted := filled.accounted.accept lowest loggedStepped
      have inside :
          s.logged.server.StoresInside (.accept (count + 5) ⟨0, 0⟩) := trivial
      have balanced :=
        Logged.balanced_step _ _ _ filled.balanced inside loggedStepped
      have others :
          (s.others.filter fun fd =>
            closes
              (s.logged.server.entries server
                (.accept (count + 5) ⟨0, 0⟩)) fd = false) = fiveOthers := by
        have entries :
            s.logged.server.entries server (.accept (count + 5) ⟨0, 0⟩) =
              [.accepted (count + 5 : Nat),
                .performed (.epollAdd (count + 5 : Nat)),
                .performed (.userCount 1)] := by
          simp only [Server.entries]
          rw [if_neg notBusy, events]
          rfl
        rw [← filled.others]
        apply Finset.filter_true_of_mem
        intro fd _
        rw [entries]
        rfl
      refine ⟨_, ?_, accounted, balanced, others, fun fd => ?_, ?_, ?_⟩
      · unfold arrivals
        rw [List.range_succ, List.map_append, run_append_eq_some_iff]
        refine ⟨s, ran, ?_⟩
        rw [List.map_singleton, run_cons_eq_some_iff]
        exact ⟨_, stepped, rfl⟩
      · show server.shared.opened fd = true ↔ _
        rw [opened]
        by_cases same : fd = count + 5
        · rw [same, Function.update_self]
          exact iff_of_true rfl (by omega)
        · rw [Function.update_of_ne same, filled.opened]
          omega
      · show server.shared.userCount = _
        rw [userCount, filled.userCount]
        rfl
      · show ite _ _ _ = _
        rw [if_neg free, filled.indexed, List.range_succ,
          List.reverse_append]
        rfl

/-- The check lets the client pass that gets the number 65536: with it there
are 65532 clients only. -/
theorem in_table_fails :
    ∃ labels last,
      run (step {} fun _ => []) (start (fun _ => Conn.zeroed) fiveOthers)
          labels = some last ∧
        65536 ∈ last.indexed ∧ ¬ last.InTable := by
  obtain ⟨last, ran, filled⟩ :
      ∃ last,
        run (step {} fun _ => []) (start (fun _ => Conn.zeroed) fiveOthers)
            (arrivals 65532) = some last ∧ Filled 65532 last :=
    run_arrivals (fun _ => Conn.zeroed) 65532 (by decide)
  have member : 65536 ∈ last.indexed := by
    rw [filled.indexed, List.mem_map]
    refine ⟨65531, ?_, rfl⟩
    rw [List.mem_reverse, List.mem_range]
    decide
  exact
    ⟨arrivals 65532, last, ran, member,
      fun inTable => absurd (inTable _ member) (by decide)⟩

/-- The first client is in the table. -/
theorem in_table_one_client :
    ∃ last,
      run (step {} fun _ => []) (start (fun _ => Conn.zeroed) fiveOthers)
          (arrivals 1) = some last ∧
        5 ∈ last.indexed ∧
        (last.InTable ↔
          StepsMeet (step {} fun _ => []) RoomLeft
            (start (fun _ => Conn.zeroed) fiveOthers) (arrivals 1)) ∧
        (StepsMeet (step {} fun _ => []) StoresInside
            (start (fun _ => Conn.zeroed) fiveOthers) (arrivals 1) →
          last.InTable → last.uncounted = last.othersInRange.card) := by
  obtain ⟨last, ran, filled⟩ :
      ∃ last,
        run (step {} fun _ => []) (start (fun _ => Conn.zeroed) fiveOthers)
            (arrivals 1) = some last ∧ Filled 1 last :=
    run_arrivals (fun _ => Conn.zeroed) 1 (by decide)
  refine ⟨last, ran, ?_, in_table_iff ran⟩
  rw [filled.indexed]
  decide

end Process

end LinuxNet.WebServer
