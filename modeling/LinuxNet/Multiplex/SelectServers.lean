import Mathlib.Data.Finset.Card
import LinuxNet.Lib.CString
import LinuxNet.Lib.CountedScan
import LinuxNet.Lib.StepSystem

/-!
# The two select servers

`server.c` scans the descriptor numbers from the listening one up to
`max_fd`, `server_1.c` scans an array of clients with holes up to `max_idx`.
Both count `ret_nready` down for the ready clients alone, so both scans
handle every ready client, and the two keep the same set of descriptors.
-/

namespace LinuxNet.Multiplex

open LinuxNet.CString LinuxNet.CountedScan LinuxNet.StepSystem

/-- `FD_SETSIZE`. -/
def fdSetSize : Nat := 1024

/-- What `Read` returns for a client. -/
inductive SelectRead where
  | data (bytes : List UInt8)
  | closed
  | failed
  deriving DecidableEq, Repr

/-- The system calls on the clients; `drop` is `Close` with `FD_CLR`. -/
inductive SelectEffect where
  | read (fd : Nat)
  | write (fd : Nat) (bytes : List UInt8)
  | drop (fd : Nat)
  deriving DecidableEq, Repr

/-- What the environment decides in one round: the descriptors that `select`
leaves in the set, the one that `Accept` returns, and what `Read` returns for
each client. -/
structure SelectRound where
  ready : Finset Nat
  accepted : Nat
  reads : Nat → SelectRead

/-- `select` reports a subset, and `accept` returns a descriptor that is not
open, above the listening one and below `FD_SETSIZE`. -/
def SelectRound.Possible
    (round : SelectRound) (listenFd : Nat) (allRset : Finset Nat) : Prop :=
  round.ready ⊆ allRset ∧
    (listenFd ∈ round.ready →
      round.accepted ∉ allRset ∧ listenFd < round.accepted ∧
        round.accepted < fdSetSize)

instance (round : SelectRound) (listenFd : Nat) (allRset : Finset Nat) :
    Decidable (round.Possible listenFd allRset) := by
  unfold SelectRound.Possible
  infer_instance

def serveClient (reads : Nat → SelectRead) (fd : Nat) : List SelectEffect :=
  match reads fd with
  | .closed => [.read fd, .drop fd]
  | .data bytes => [.read fd, .write 1 bytes, .write fd (bytes.map toupper)]
  | .failed => [.read fd]

/-- The set after `FD_CLR` of what was dropped. -/
def clearDropped (allRset : Finset Nat) :
    List SelectEffect → Finset Nat
  | [] => allRset
  | .drop fd :: effects => clearDropped (allRset.erase fd) effects
  | .read _ :: effects => clearDropped allRset effects
  | .write _ _ :: effects => clearDropped allRset effects

/-- The variables of `main`, with the calls of the last round. -/
structure PlainServer where
  allRset : Finset Nat
  retRset : Finset Nat
  maxFd : Nat
  effects : List SelectEffect

namespace PlainServer

def start (listenFd : Nat) : PlainServer :=
  ⟨{listenFd}, ∅, listenFd, []⟩

/-- `FD_SET(client_fd, &all_rset)` and the new `max_fd`. -/
def acceptClient (server : PlainServer) (clientFd : Nat) : PlainServer :=
  { server with
    allRset := insert clientFd server.allRset
    maxFd := if server.maxFd < clientFd then clientFd else server.maxFd }

def serveReady
    (server : PlainServer) (listenFd : Nat) (reads : Nat → SelectRead)
    (nready : Int) : PlainServer :=
  let scanned :=
    scan (fun fd => decide (fd ∈ server.retRset))
      (fun fd => ⟨fd, serveClient reads fd, false⟩) nready
      (List.range' (listenFd + 1) (server.maxFd - listenFd))
  { server with
    allRset := clearDropped server.allRset scanned.effects
    effects := scanned.effects }

/-- One turn of the loop in `main`, for a result of `select` that is
possible. -/
def round (listenFd : Nat) (server : PlainServer) (round : SelectRound) :
    Option PlainServer :=
  if round.Possible listenFd server.allRset then
    let nready : Int := round.ready.card
    let server := { server with retRset := round.ready, effects := [] }
    if nready ≤ 0 then
      some server
    else if listenFd ∈ round.ready then
      let server := server.acceptClient round.accepted
      if nready - 1 = 0 then
        some server
      else
        some (server.serveReady listenFd round.reads (nready - 1))
    else
      some (server.serveReady listenFd round.reads nready)
  else
    none

end PlainServer

/-- The variables of `main`, with the calls of the last round.  In `clients`
no descriptor stands for −1. -/
structure SlotServer where
  allRset : Finset Nat
  retRset : Finset Nat
  clients : List (Option Nat)
  maxIdx : Int
  maxFd : Nat
  effects : List SelectEffect

namespace SlotServer

def start (listenFd : Nat) : SlotServer :=
  ⟨{listenFd}, ∅, List.replicate fdSetSize none, -1, listenFd, []⟩

/-- The new client in the first free slot; there is no value where the
program ends with `too many clients`. -/
def acceptClient (server : SlotServer) (clientFd : Nat) :
    Option SlotServer :=
  match server.clients.findIdx? fun slot => slot.isNone with
  | none => none
  | some index =>
      some
        { server with
          allRset := insert clientFd server.allRset
          clients := server.clients.set index (some clientFd)
          maxIdx :=
            if server.maxIdx < index then (index : Int) else server.maxIdx
          maxFd :=
            if server.maxFd < clientFd then clientFd else server.maxFd }

/-- The slot of a ready client after `Read`. -/
def handleSlot (reads : Nat → SelectRead) (slot : Option Nat) :
    Handled (Option Nat) SelectEffect :=
  match slot with
  | none => ⟨none, [], false⟩
  | some fd =>
      ⟨if reads fd = .closed then none else some fd, serveClient reads fd,
        false⟩

def scanned (server : SlotServer) : List (Option Nat) :=
  server.clients.take (server.maxIdx + 1).toNat

def serveReady
    (server : SlotServer) (reads : Nat → SelectRead) (nready : Int) :
    SlotServer :=
  let result :=
    scan (fun slot => slot.any fun fd => decide (fd ∈ server.retRset))
      (handleSlot reads) nready server.scanned
  { server with
    allRset := clearDropped server.allRset result.effects
    clients :=
      result.items ++ server.clients.drop (server.maxIdx + 1).toNat
    effects := result.effects }

/-- One turn of the loop in `main`, for a result of `select` that is
possible. -/
def round (listenFd : Nat) (server : SlotServer) (round : SelectRound) :
    Option SlotServer :=
  if round.Possible listenFd server.allRset then
    let nready : Int := round.ready.card
    let server := { server with retRset := round.ready, effects := [] }
    if nready ≤ 0 then
      some server
    else if listenFd ∈ round.ready then
      (server.acceptClient round.accepted).map fun server =>
        if nready - 1 = 0 then
          server
        else
          server.serveReady round.reads (nready - 1)
    else
      some (server.serveReady round.reads nready)
  else
    none

end SlotServer

/-- The descriptors that `Read` is called for. -/
def readFds (effects : List SelectEffect) : List Nat :=
  effects.filterMap fun effect =>
    match effect with
    | .read fd => some fd
    | .write _ _ => none
    | .drop _ => none

/-- The ready clients are read from, each of them once, and no others. -/
structure ReadsEachOnce
    (listenFd : Nat) (ready : Finset Nat) (effects : List SelectEffect) :
    Prop where
  once : (readFds effects).Nodup
  exactly :
    ∀ fd, fd ∈ readFds effects ↔ fd ∈ ready ∧ fd ≠ listenFd

/-- The entries of `clients` that are not negative, in their order. -/
def held (clients : List (Option Nat)) : List Nat :=
  clients.filterMap id

/-- What the two servers have in common after each round. -/
structure Agree
    (listenFd : Nat) (plain : PlainServer) (slots : SlotServer) :
    Prop where
  allRset_eq : slots.allRset = plain.allRset
  maxFd_eq : slots.maxFd = plain.maxFd
  retRset_eq : slots.retRset = plain.retRset
  plainReads : ReadsEachOnce listenFd plain.retRset plain.effects
  slotReads : ReadsEachOnce listenFd slots.retRset slots.effects
  distinct : (held slots.clients).Nodup
  below :
    ∀ (index fd : Nat), slots.clients[index]? = some (some fd) →
      (index : Int) ≤ slots.maxIdx
  exactly :
    ∀ fd, fd ∈ held slots.clients ↔ fd ∈ slots.allRset ∧ fd ≠ listenFd

/-- The part of the agreement that each half of a round keeps, with what it
rests on. -/
structure Coupled
    (listenFd : Nat) (plain : PlainServer) (slots : SlotServer) :
    Prop where
  allRset_eq : slots.allRset = plain.allRset
  maxFd_eq : slots.maxFd = plain.maxFd
  retRset_eq : slots.retRset = plain.retRset
  distinct : (held slots.clients).Nodup
  below :
    ∀ (index fd : Nat), slots.clients[index]? = some (some fd) →
      (index : Int) ≤ slots.maxIdx
  exactly :
    ∀ fd, fd ∈ held slots.clients ↔ fd ∈ slots.allRset ∧ fd ≠ listenFd
  size : slots.clients.length = fdSetSize
  bounds :
    ∀ fd ∈ plain.allRset, fd ≠ listenFd →
      listenFd < fd ∧ fd < fdSetSize ∧ fd ≤ plain.maxFd

theorem mem_clearDropped
    (allRset : Finset Nat) (effects : List SelectEffect) (fd : Nat) :
    fd ∈ clearDropped allRset effects ↔
      fd ∈ allRset ∧ SelectEffect.drop fd ∉ effects := by
  induction effects generalizing allRset with
  | nil => simp [clearDropped]
  | cons effect effects inductionHypothesis =>
      cases effect with
      | read other => simp [clearDropped, inductionHypothesis]
      | write other bytes => simp [clearDropped, inductionHypothesis]
      | drop other =>
          rw [clearDropped, inductionHypothesis, Finset.mem_erase,
            List.mem_cons, not_or]
          constructor
          · rintro ⟨⟨different, member⟩, kept⟩
            exact
              ⟨member, fun same => different (SelectEffect.drop.inj same),
                kept⟩
          · rintro ⟨member, different, kept⟩
            exact
              ⟨⟨fun same => different (congrArg _ same), member⟩, kept⟩

theorem readFds_serve (reads : Nat → SelectRead) (fds : List Nat) :
    readFds (fds.flatMap (serveClient reads)) = fds := by
  induction fds with
  | nil => rfl
  | cons fd fds inductionHypothesis =>
      have first : readFds (serveClient reads fd) = [fd] := by
        unfold serveClient
        cases reads fd <;> rfl
      unfold readFds at *
      rw [List.flatMap_cons, List.filterMap_append, first,
        inductionHypothesis]
      rfl

theorem drop_mem_serve_iff
    (reads : Nat → SelectRead) (fds : List Nat) (fd : Nat) :
    SelectEffect.drop fd ∈ fds.flatMap (serveClient reads) ↔
      fd ∈ fds ∧ reads fd = .closed := by
  rw [List.mem_flatMap]
  constructor
  · rintro ⟨other, member, isDrop⟩
    unfold serveClient at isDrop
    cases result : reads other with
    | closed =>
        rw [result] at isDrop
        simp only [List.mem_cons, List.not_mem_nil, or_false] at isDrop
        rcases isDrop with impossible | same
        · cases impossible
        · cases same
          exact ⟨member, result⟩
    | data bytes =>
        rw [result] at isDrop
        simp at isDrop
    | failed =>
        rw [result] at isDrop
        simp at isDrop
  · rintro ⟨member, result⟩
    refine ⟨fd, member, ?_⟩
    unfold serveClient
    rw [result]
    exact List.mem_cons_of_mem _ (List.mem_singleton_self _)

theorem mem_held {clients : List (Option Nat)} {fd : Nat} :
    fd ∈ held clients ↔ some fd ∈ clients := by
  unfold held
  rw [List.mem_filterMap]
  constructor
  · rintro ⟨slot, member, same⟩
    rw [id] at same
    rwa [same] at member
  · exact fun member => ⟨some fd, member, rfl⟩

theorem held_append (first second : List (Option Nat)) :
    held (first ++ second) = held first ++ held second :=
  List.filterMap_append

theorem held_set_perm
    {clients : List (Option Nat)} {index : Nat}
    (inside : index < clients.length) (free : clients[index] = none)
    (fd : Nat) :
    (held (clients.set index (some fd))).Perm (fd :: held clients) := by
  have shape :
      clients = clients.take index ++ none :: clients.drop (index + 1) := by
    rw [← free, List.getElem_cons_drop, List.take_append_drop]
  have old :
      held clients =
        held (clients.take index) ++ held (clients.drop (index + 1)) := by
    have split := congrArg held shape
    rw [held_append] at split
    exact split
  rw [List.set_eq_take_append_cons_drop, if_pos inside, held_append, old]
  exact List.perm_middle

/-- Only empty slots stand above `max_idx`. -/
theorem held_drop
    {clients : List (Option Nat)} {maxIdx : Int}
    (below :
      ∀ (index fd : Nat), clients[index]? = some (some fd) →
        (index : Int) ≤ maxIdx) :
    held (clients.drop (maxIdx + 1).toNat) = [] := by
  unfold held
  rw [List.filterMap_eq_nil_iff]
  intro slot member
  cases slot with
  | none => rfl
  | some fd =>
      obtain ⟨offset, inside, same⟩ := List.getElem_of_mem member
      rw [List.getElem_drop] at same
      have bound := below ((maxIdx + 1).toNat + offset) fd
      rw [List.length_drop] at inside
      rw [List.getElem?_eq_getElem (by omega), same] at bound
      have high := bound rfl
      omega

theorem held_take
    {clients : List (Option Nat)} {maxIdx : Int}
    (below :
      ∀ (index fd : Nat), clients[index]? = some (some fd) →
        (index : Int) ≤ maxIdx) :
    held (clients.take (maxIdx + 1).toNat) = held clients := by
  have split :=
    held_append (clients.take (maxIdx + 1).toNat)
      (clients.drop (maxIdx + 1).toNat)
  rw [List.take_append_drop, held_drop below, List.append_nil] at split
  exact split.symm

/-- The slots hold at most one descriptor for each number that a client can
have. -/
theorem exists_free
    {clients : List (Option Nat)} (size : clients.length = fdSetSize)
    (distinct : (held clients).Nodup) (fd : Nat) (inside : fd < fdSetSize)
    (new : fd ∉ held clients) (bounds : ∀ old ∈ held clients, old < fdSetSize) :
    ∃ index, (clients.findIdx? fun slot => slot.isNone) = some index := by
  cases found : clients.findIdx? fun slot => slot.isNone with
  | some index => exact ⟨index, rfl⟩
  | none =>
      have full := List.findIdx?_eq_none_iff.mp found
      have lengthEq : (held clients).length = fdSetSize := by
        rw [← size]
        unfold held
        rw [List.length_filterMap_eq_countP, List.countP_eq_length]
        intro slot member
        have isFull := full slot member
        cases slot with
        | none => cases isFull
        | some old => rfl
      have subset : (fd :: held clients) ⊆ List.range fdSetSize := by
        intro other member
        rw [List.mem_range]
        rcases List.mem_cons.mp member with rfl | old
        · exact inside
        · exact bounds other old
      have shorter :=
        (List.subperm_of_subset (List.nodup_cons.mpr ⟨new, distinct⟩)
          subset).length_le
      rw [List.length_cons, lengthEq, List.length_range] at shorter
      omega

section ScanSlots

variable (ready : Finset Nat) (reads : Nat → SelectRead)
  (slots : List (Option Nat))

theorem countP_slots :
    slots.countP (fun slot => slot.any fun fd => decide (fd ∈ ready)) =
      (held slots).countP fun fd => decide (fd ∈ ready) := by
  induction slots with
  | nil => rfl
  | cons slot slots inductionHypothesis =>
      cases slot with
      | none => simpa [held] using inductionHypothesis
      | some fd =>
          unfold held at *
          rw [List.countP_cons, inductionHypothesis, List.filterMap_cons_some
            (show id (some fd) = some fd from rfl), List.countP_cons]
          rfl

theorem effects_slots :
    (slots.filter fun slot =>
        slot.any fun fd => decide (fd ∈ ready)).flatMap
        (fun slot => (SlotServer.handleSlot reads slot).effects) =
      ((held slots).filter fun fd => decide (fd ∈ ready)).flatMap
        (serveClient reads) := by
  induction slots with
  | nil => rfl
  | cons slot slots inductionHypothesis =>
      cases slot with
      | none => simpa [held] using inductionHypothesis
      | some fd =>
          unfold held at *
          rw [List.filterMap_cons_some
            (show id (some fd) = some fd from rfl)]
          by_cases isReady : fd ∈ ready
          · simp only [List.filter_cons, Option.any_some, isReady,
              decide_true, if_true, List.flatMap_cons, inductionHypothesis]
            rfl
          · simpa [List.filter_cons, isReady] using inductionHypothesis

/-- A client stays unless it is ready and `Read` returned 0. -/
theorem held_slots :
    held
        (slots.map fun slot =>
          if (slot.any fun fd => decide (fd ∈ ready)) = true then
            (SlotServer.handleSlot reads slot).item
          else
            slot) =
      (held slots).filter fun fd =>
        !(decide (fd ∈ ready) && decide (reads fd = .closed)) := by
  induction slots with
  | nil => rfl
  | cons slot slots inductionHypothesis =>
      cases slot with
      | none => simpa [held] using inductionHypothesis
      | some fd =>
          unfold held at *
          by_cases isReady : fd ∈ ready
          · by_cases closed : reads fd = .closed
            · simpa [SlotServer.handleSlot, isReady, closed]
                using inductionHypothesis
            · simpa [SlotServer.handleSlot, isReady, closed]
                using inductionHypothesis
          · simpa [isReady] using inductionHypothesis

end ScanSlots

/-! ## Serving the ready clients -/

/-- The ready clients in the order in which `server.c` comes to them. -/
def plainOrder (listenFd : Nat) (plain : PlainServer) : List Nat :=
  (List.range' (listenFd + 1) (plain.maxFd - listenFd)).filter fun fd =>
    decide (fd ∈ plain.retRset)

/-- The ready clients in the order in which `server_1.c` comes to them. -/
def slotOrder (slots : SlotServer) : List Nat :=
  (held slots.clients).filter fun fd => decide (fd ∈ slots.retRset)

theorem length_of_same_members
    {fds : List Nat} {set : Finset Nat} (nodup : fds.Nodup)
    (same : ∀ fd, fd ∈ fds ↔ fd ∈ set) : fds.length = set.card := by
  rw [← List.toFinset_card_of_nodup nodup]
  congr 1
  ext fd
  rw [List.mem_toFinset, same]

theorem readsEachOnce_serve
    {listenFd : Nat} {ready : Finset Nat} {fds : List Nat}
    (nodup : fds.Nodup)
    (same : ∀ fd, fd ∈ fds ↔ fd ∈ ready ∧ fd ≠ listenFd)
    (reads : Nat → SelectRead) :
    ReadsEachOnce listenFd ready (fds.flatMap (serveClient reads)) := by
  constructor
  · rwa [readFds_serve]
  · intro fd
    rw [readFds_serve, same]

namespace Coupled

variable {listenFd : Nat} {plain : PlainServer} {slots : SlotServer}

theorem mem_plainOrder
    (coupled : Coupled listenFd plain slots)
    (subset : plain.retRset ⊆ plain.allRset) (fd : Nat) :
    fd ∈ plainOrder listenFd plain ↔ fd ∈ plain.retRset ∧ fd ≠ listenFd := by
  unfold plainOrder
  rw [List.mem_filter, List.mem_range'_1, decide_eq_true_iff]
  constructor
  · rintro ⟨range, isReady⟩
    exact ⟨isReady, by omega⟩
  · rintro ⟨isReady, different⟩
    have bounds := coupled.bounds fd (subset isReady) different
    exact ⟨by omega, isReady⟩

theorem mem_slotOrder
    (coupled : Coupled listenFd plain slots)
    (subset : plain.retRset ⊆ plain.allRset) (fd : Nat) :
    fd ∈ slotOrder slots ↔ fd ∈ plain.retRset ∧ fd ≠ listenFd := by
  unfold slotOrder
  rw [List.mem_filter, coupled.exactly, decide_eq_true_iff,
    coupled.retRset_eq, coupled.allRset_eq]
  constructor
  · rintro ⟨⟨_, different⟩, isReady⟩
    exact ⟨isReady, different⟩
  · rintro ⟨isReady, different⟩
    exact ⟨⟨subset isReady, different⟩, isReady⟩

theorem nodup_plainOrder (listenFd : Nat) (plain : PlainServer) :
    (plainOrder listenFd plain).Nodup :=
  List.Nodup.filter _ (List.nodup_range' 1)

theorem nodup_slotOrder (coupled : Coupled listenFd plain slots) :
    (slotOrder slots).Nodup :=
  List.Nodup.filter _ coupled.distinct

/-- The counter of a scan that finds all of the ready clients. -/
def Counts (listenFd : Nat) (ready : Finset Nat) (count : Nat) : Prop :=
  (ready.erase listenFd).card = count + 1

theorem plain_serveReady
    (coupled : Coupled listenFd plain slots)
    (subset : plain.retRset ⊆ plain.allRset) {count : Nat}
    (counted : Counts listenFd plain.retRset count)
    (reads : Nat → SelectRead) :
    plain.serveReady listenFd reads (count + 1 : Nat) =
      { plain with
        allRset :=
          clearDropped plain.allRset
            ((plainOrder listenFd plain).flatMap (serveClient reads))
        effects :=
          (plainOrder listenFd plain).flatMap (serveClient reads) } := by
  have enough :
      (List.range' (listenFd + 1) (plain.maxFd - listenFd)).countP
          (fun fd => decide (fd ∈ plain.retRset)) ≤ count + 1 := by
    rw [List.countP_eq_length_filter, ← counted]
    apply Nat.le_of_eq
    apply length_of_same_members (nodup_plainOrder listenFd plain)
    intro fd
    rw [coupled.mem_plainOrder subset, Finset.mem_erase, and_comm]
  unfold PlainServer.serveReady
  rw [scan_of_enough (fun _ => rfl) count _ enough]
  rfl

theorem slots_serveReady
    (coupled : Coupled listenFd plain slots)
    (subset : plain.retRset ⊆ plain.allRset) {count : Nat}
    (counted : Counts listenFd plain.retRset count)
    (reads : Nat → SelectRead) :
    slots.serveReady reads (count + 1 : Nat) =
      { slots with
        allRset :=
          clearDropped slots.allRset
            ((slotOrder slots).flatMap (serveClient reads))
        clients :=
          (slots.scanned.map fun slot =>
            if (slot.any fun fd => decide (fd ∈ slots.retRset)) = true then
              (SlotServer.handleSlot reads slot).item
            else
              slot) ++
            slots.clients.drop (slots.maxIdx + 1).toNat
        effects := (slotOrder slots).flatMap (serveClient reads) } := by
  have continues :
      ∀ slot, (SlotServer.handleSlot reads slot).ends = false := by
    intro slot
    cases slot <;> rfl
  have scannedHeld : held slots.scanned = held slots.clients :=
    held_take coupled.below
  have enough :
      slots.scanned.countP
          (fun slot => slot.any fun fd => decide (fd ∈ slots.retRset)) ≤
        count + 1 := by
    rw [countP_slots, scannedHeld, List.countP_eq_length_filter, ← counted]
    apply Nat.le_of_eq
    apply length_of_same_members coupled.nodup_slotOrder
    intro fd
    rw [coupled.mem_slotOrder subset, Finset.mem_erase, and_comm]
  unfold SlotServer.serveReady slotOrder
  rw [scan_of_enough continues count _ enough, effects_slots, scannedHeld]

/-- The slots after the scan hold the clients that stay. -/
theorem held_after
    (coupled : Coupled listenFd plain slots) (reads : Nat → SelectRead) :
    held
        ((slots.scanned.map fun slot =>
            if (slot.any fun fd => decide (fd ∈ slots.retRset)) = true then
              (SlotServer.handleSlot reads slot).item
            else
              slot) ++
          slots.clients.drop (slots.maxIdx + 1).toNat) =
      (held slots.clients).filter fun fd =>
        !(decide (fd ∈ slots.retRset) && decide (reads fd = .closed)) := by
  have scannedHeld : held slots.scanned = held slots.clients :=
    held_take coupled.below
  rw [held_append, held_drop coupled.below, List.append_nil, held_slots,
    scannedHeld]

theorem serveReady
    (coupled : Coupled listenFd plain slots)
    (subset : plain.retRset ⊆ plain.allRset) {count : Nat}
    (counted : Counts listenFd plain.retRset count)
    (reads : Nat → SelectRead) :
    Coupled listenFd (plain.serveReady listenFd reads (count + 1 : Nat))
      (slots.serveReady reads (count + 1 : Nat)) := by
  rw [coupled.plain_serveReady subset counted,
    coupled.slots_serveReady subset counted]
  have dropped :
      ∀ fd,
        SelectEffect.drop fd ∉
            (slotOrder slots).flatMap (serveClient reads) ↔
          SelectEffect.drop fd ∉
            (plainOrder listenFd plain).flatMap (serveClient reads) := by
    intro fd
    rw [drop_mem_serve_iff, drop_mem_serve_iff, coupled.mem_slotOrder subset,
      coupled.mem_plainOrder subset]
  have heldAfter := coupled.held_after reads
  constructor
  · ext fd
    rw [mem_clearDropped, mem_clearDropped, coupled.allRset_eq, dropped]
  · exact coupled.maxFd_eq
  · exact coupled.retRset_eq
  · rw [heldAfter]
    exact coupled.distinct.filter _
  · intro index fd found
    by_contra beyond
    have notBelow : ¬ (index : Int) ≤ slots.maxIdx := beyond
    have above : (slots.maxIdx + 1).toNat ≤ index := by omega
    have lengthLe :
        (slots.scanned.map fun slot =>
            if (slot.any fun fd => decide (fd ∈ slots.retRset)) = true then
              (SlotServer.handleSlot reads slot).item
            else
              slot).length ≤ index := by
      rw [List.length_map, SlotServer.scanned, List.length_take]
      omega
    rw [List.getElem?_append_right lengthLe] at found
    have member := mem_held.mpr (List.mem_of_getElem? found)
    rw [held_drop coupled.below] at member
    cases member
  · intro fd
    rw [heldAfter, List.mem_filter, coupled.exactly, mem_clearDropped,
      drop_mem_serve_iff, coupled.mem_slotOrder subset, coupled.retRset_eq,
      Bool.not_eq_true', Bool.and_eq_false_iff, decide_eq_false_iff_not,
      decide_eq_false_iff_not]
    tauto
  · rw [List.length_append, List.length_map, SlotServer.scanned,
      List.length_take, List.length_drop, coupled.size]
    omega
  · intro fd member
    exact coupled.bounds fd (mem_clearDropped _ _ fd |>.mp member).1

theorem acceptClient
    (coupled : Coupled listenFd plain slots) {clientFd : Nat}
    (new : clientFd ∉ plain.allRset) (above : listenFd < clientFd)
    (inside : clientFd < fdSetSize) :
    ∃ next, slots.acceptClient clientFd = some next ∧
      next.effects = slots.effects ∧
      Coupled listenFd (plain.acceptClient clientFd) next := by
  have notHeld : clientFd ∉ held slots.clients := by
    rw [coupled.exactly, coupled.allRset_eq]
    exact fun member => new member.1
  have heldInside : ∀ old ∈ held slots.clients, old < fdSetSize := by
    intro old member
    rw [coupled.exactly, coupled.allRset_eq] at member
    exact (coupled.bounds old member.1 member.2).2.1
  obtain ⟨index, found⟩ :=
    exists_free coupled.size coupled.distinct clientFd inside notHeld
      heldInside
  obtain ⟨bound, isFree, _⟩ := List.findIdx?_eq_some_iff_getElem.mp found
  have perm :=
    held_set_perm bound (Option.isNone_iff_eq_none.mp isFree) clientFd
  unfold SlotServer.acceptClient
  rw [found]
  refine ⟨_, rfl, rfl, ?_⟩
  constructor
  · show insert clientFd slots.allRset = insert clientFd plain.allRset
    rw [coupled.allRset_eq]
  · show (if slots.maxFd < clientFd then clientFd else slots.maxFd) =
      (if plain.maxFd < clientFd then clientFd else plain.maxFd)
    rw [coupled.maxFd_eq]
  · exact coupled.retRset_eq
  · exact perm.nodup_iff.mpr
      (List.nodup_cons.mpr ⟨notHeld, coupled.distinct⟩)
  · intro other fd stored
    rw [List.getElem?_set] at stored
    by_cases same : index = other
    · subst same
      show (index : Int) ≤
        if slots.maxIdx < index then (index : Int) else slots.maxIdx
      split <;> omega
    · rw [if_neg same] at stored
      have old := coupled.below other fd stored
      show (other : Int) ≤
        if slots.maxIdx < index then (index : Int) else slots.maxIdx
      split <;> omega
  · intro fd
    rw [perm.mem_iff, List.mem_cons, coupled.exactly, Finset.mem_insert]
    constructor
    · rintro (rfl | ⟨member, different⟩)
      · exact ⟨Or.inl rfl, Nat.ne_of_gt above⟩
      · exact ⟨Or.inr member, different⟩
    · rintro ⟨rfl | member, different⟩
      · exact Or.inl rfl
      · exact Or.inr ⟨member, different⟩
  · rw [List.length_set, coupled.size]
  · intro fd member different
    show listenFd < fd ∧ fd < fdSetSize ∧
      fd ≤ if plain.maxFd < clientFd then clientFd else plain.maxFd
    rcases Finset.mem_insert.mp member with rfl | old
    · refine ⟨above, inside, ?_⟩
      split <;> omega
    · have bounds := coupled.bounds fd old different
      refine ⟨bounds.1, bounds.2.1, ?_⟩
      split <;> omega

/-! ## One round -/

theorem select
    (coupled : Coupled listenFd plain slots) (ready : Finset Nat) :
    Coupled listenFd { plain with retRset := ready, effects := [] }
      { slots with retRset := ready, effects := [] } :=
  ⟨coupled.allRset_eq, coupled.maxFd_eq, rfl, coupled.distinct,
    coupled.below, coupled.exactly, coupled.size, coupled.bounds⟩

end Coupled

theorem readsEachOnce_nil
    {listenFd : Nat} {ready : Finset Nat}
    (none : (ready.erase listenFd).card = 0) :
    ReadsEachOnce listenFd ready [] := by
  rw [Finset.card_eq_zero] at none
  constructor
  · exact List.nodup_nil
  · intro fd
    apply iff_of_false
    · exact List.not_mem_nil
    · rintro ⟨member, different⟩
      have both := Finset.mem_erase.mpr ⟨different, member⟩
      rw [none] at both
      cases both

/-- The servers after a round: coupled, each having read from the ready
clients once. -/
def Related
    (listenFd : Nat) (plain : PlainServer) (slots : SlotServer) : Prop :=
  Coupled listenFd plain slots ∧
    ReadsEachOnce listenFd plain.retRset plain.effects ∧
      ReadsEachOnce listenFd slots.retRset slots.effects

section Round

variable {listenFd : Nat} {plain : PlainServer} {slots : SlotServer}

theorem related_of_idle
    (coupled : Coupled listenFd plain slots)
    (plainIdle : plain.effects = []) (slotsIdle : slots.effects = [])
    (none : (plain.retRset.erase listenFd).card = 0) :
    Related listenFd plain slots := by
  refine ⟨coupled, ?_, ?_⟩
  · rw [plainIdle]
    exact readsEachOnce_nil none
  · rw [slotsIdle, coupled.retRset_eq]
    exact readsEachOnce_nil none

theorem related_of_served
    (coupled : Coupled listenFd plain slots)
    (subset : plain.retRset ⊆ plain.allRset) {count : Nat}
    (counted : Coupled.Counts listenFd plain.retRset count)
    (reads : Nat → SelectRead) :
    Related listenFd (plain.serveReady listenFd reads (count + 1 : Nat))
      (slots.serveReady reads (count + 1 : Nat)) := by
  refine ⟨coupled.serveReady subset counted reads, ?_, ?_⟩
  · rw [coupled.plain_serveReady subset counted]
    exact
      readsEachOnce_serve (Coupled.nodup_plainOrder listenFd plain)
        (coupled.mem_plainOrder subset) reads
  · rw [coupled.slots_serveReady subset counted]
    apply readsEachOnce_serve coupled.nodup_slotOrder _ reads
    intro fd
    rw [coupled.mem_slotOrder subset, coupled.retRset_eq]

/-- The part of a round behind `Accept`. -/
theorem related_of_counter
    (coupled : Coupled listenFd plain slots)
    (plainIdle : plain.effects = []) (slotsIdle : slots.effects = [])
    (subset : plain.retRset ⊆ plain.allRset) {nready : Int}
    (counter : nready = (plain.retRset.erase listenFd).card)
    (reads : Nat → SelectRead) :
    Related listenFd
      (if nready = 0 then plain
        else plain.serveReady listenFd reads nready)
      (if nready = 0 then slots else slots.serveReady reads nready) := by
  subst counter
  cases counted : (plain.retRset.erase listenFd).card with
  | zero =>
      have zero : ((0 : Nat) : Int) = 0 := rfl
      rw [if_pos zero, if_pos zero]
      exact related_of_idle coupled plainIdle slotsIdle counted
  | succ count =>
      rw [if_neg (by omega), if_neg (by omega)]
      exact related_of_served coupled subset counted reads

/-- A round keeps the servers related. -/
theorem related_round
    (coupled : Coupled listenFd plain slots) (round : SelectRound) :
    Option.Rel (Related listenFd) (plain.round listenFd round)
      (slots.round listenFd round) := by
  have samePossible :
      round.Possible listenFd slots.allRset ↔
        round.Possible listenFd plain.allRset := by
    rw [coupled.allRset_eq]
  unfold PlainServer.round SlotServer.round
  by_cases possible : round.Possible listenFd plain.allRset
  · rw [if_pos possible, if_pos (samePossible.mpr possible)]
    obtain ⟨subset, accepts⟩ := possible
    have selected := coupled.select round.ready
    by_cases quiet : (round.ready.card : Int) ≤ 0
    · have none : (round.ready.erase listenFd).card = 0 := by
        have fewer := Finset.card_erase_le (s := round.ready) (a := listenFd)
        omega
      rw [if_pos quiet, if_pos quiet]
      exact .some (related_of_idle selected rfl rfl none)
    · rw [if_neg quiet, if_neg quiet]
      by_cases listens : listenFd ∈ round.ready
      · rw [if_pos listens, if_pos listens]
        obtain ⟨new, above, inside⟩ := accepts listens
        have erased := Finset.card_erase_of_mem listens
        have counter :
            (round.ready.card : Int) - 1 =
              (round.ready.erase listenFd).card := by
          omega
        obtain ⟨next, accepted, idle, coupledNext⟩ :=
          selected.acceptClient new above inside
        rw [accepted, Option.map_some, ← apply_ite some]
        exact
          .some (related_of_counter coupledNext rfl idle
            (Finset.Subset.trans subset (Finset.subset_insert _ _)) counter
            round.reads)
      · rw [if_neg listens, if_neg listens]
        have counter :
            (round.ready.card : Int) =
              (round.ready.erase listenFd).card := by
          rw [Finset.erase_eq_of_notMem listens]
        have nonzero : ¬ (round.ready.card : Int) = 0 := by omega
        have served :=
          related_of_counter selected rfl rfl subset counter round.reads
        rw [if_neg nonzero, if_neg nonzero] at served
        exact .some served
  · rw [if_neg possible, if_neg (fun other => possible (samePossible.mp other))]
    exact .none

end Round

theorem coupled_start (listenFd : Nat) :
    Coupled listenFd (PlainServer.start listenFd)
      (SlotServer.start listenFd) := by
  have empty : held (SlotServer.start listenFd).clients = [] := by
    show held (List.replicate fdSetSize none) = []
    unfold held
    rw [List.filterMap_replicate_of_none rfl]
  constructor
  · rfl
  · rfl
  · rfl
  · rw [empty]
    exact List.nodup_nil
  · intro index fd stored
    have member := mem_held.mpr (List.mem_of_getElem? stored)
    rw [empty] at member
    cases member
  · intro fd
    rw [empty]
    apply iff_of_false List.not_mem_nil
    rintro ⟨member, different⟩
    exact different (Finset.mem_singleton.mp member)
  · exact List.length_replicate
  · intro fd member different
    exact absurd (Finset.mem_singleton.mp member) different

theorem Related.agree
    {listenFd : Nat} {plain : PlainServer} {slots : SlotServer}
    (related : Related listenFd plain slots) : Agree listenFd plain slots := by
  obtain ⟨coupled, plainReads, slotReads⟩ := related
  exact
    ⟨coupled.allRset_eq, coupled.maxFd_eq, coupled.retRset_eq, plainReads,
      slotReads, coupled.distinct, coupled.below, coupled.exactly⟩

/-- After each round the two servers watch the same descriptors and have read
from each ready client once, and the clients of `server_1.c` are those
descriptors without the listening one. -/
theorem servers_agree (listenFd : Nat) (rounds : List SelectRound) :
    Option.Rel (Agree listenFd)
      (run (PlainServer.round listenFd) (PlainServer.start listenFd) rounds)
      (run (SlotServer.round listenFd) (SlotServer.start listenFd)
        rounds) := by
  have initially :
      Related listenFd (PlainServer.start listenFd)
        (SlotServer.start listenFd) :=
    related_of_idle (coupled_start listenFd) rfl rfl
      (Nat.le_zero.mp (Finset.card_erase_le))
  have related :=
    run_rel (Related listenFd)
      (fun _ _ round both => related_round both.1 round) initially rounds
  generalize run (PlainServer.round listenFd) _ rounds = plain at related ⊢
  generalize run (SlotServer.round listenFd) _ rounds = slots at related ⊢
  cases related with
  | none => exact .none
  | some both => exact .some both.agree

/-- A client that connects on 4 while 3 listens, and leaves. -/
example :
    (run (PlainServer.round 3) (PlainServer.start 3)
        [⟨{3}, 4, fun _ => .closed⟩, ⟨{4}, 4, fun _ => .closed⟩]).map
        (fun server => (server.allRset, server.effects)) =
      some ({3}, [.read 4, .drop 4]) := by
  decide

end LinuxNet.Multiplex
