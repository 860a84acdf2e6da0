import Mathlib.Data.List.Forall2
import Mathlib.Data.List.GetD
import LinuxNet.Lib.CString
import LinuxNet.Lib.CountedScan

/-!
# One result of `poll` in the poll server

The loop over the clients counts `ret_nready` down for every slot that is in
use, and not only for those that `poll` reported.  It visits the first slots
in use, as many as there are clients to read from, so a ready client is left
out as soon as one that is not ready stands before it.
-/

namespace LinuxNet.Multiplex

open LinuxNet.CString LinuxNet.CountedScan

/-- `MAX_CLIENTS`. -/
def maxClients : Nat := 1024

/-- An entry of `clients`: no descriptor stands for −1, and the bit says
whether `revents` has `POLLIN`. -/
structure PollFd where
  fd : Option Nat
  pollin : Bool
  deriving DecidableEq, Repr

def PollFd.empty : PollFd := ⟨none, false⟩

/-- `clients[index]`. -/
def entryAt (entries : List PollFd) (index : Nat) : PollFd :=
  entries.getD index .empty

def occupied (entries : List PollFd) (index : Nat) : Bool :=
  (entryAt entries index).fd.isSome

/-- `clients` and `max_idx` between two calls of `poll`.  The bits in
`revents` are arbitrary. -/
structure ClientTable where
  entries : List PollFd
  maxIdx : Nat
  size : entries.length = maxClients
  inside : maxIdx < maxClients
  listening : occupied entries 0 = true
  below : ∀ index, occupied entries index = true → index ≤ maxIdx

/-- What `Read` returns; `reset` is −1 with `ECONNRESET`, `failed` is −1 with
another error. -/
inductive ReadResult where
  | data (bytes : List UInt8)
  | closed
  | reset
  | failed
  deriving DecidableEq, Repr

/-- The system calls on the clients, with the slot that is read for. -/
inductive PollEffect where
  | read (index fd : Nat)
  | write (fd : Nat) (bytes : List UInt8)
  | close (fd : Nat)
  deriving DecidableEq, Repr

def handleClient (reads : Nat → ReadResult) (slot : PollFd × Nat) :
    Handled (PollFd × Nat) PollEffect :=
  match slot.1.fd with
  | none => ⟨slot, [], false⟩
  | some fd =>
      if slot.1.pollin then
        match reads slot.2 with
        | .closed =>
            ⟨({ slot.1 with fd := none }, slot.2),
              [.read slot.2 fd, .close fd], false⟩
        | .data bytes =>
            ⟨slot,
              [.read slot.2 fd, .write 1 bytes,
                .write fd (bytes.map toupper)], false⟩
        | .reset =>
            ⟨({ slot.1 with fd := none }, slot.2),
              [.read slot.2 fd, .close fd], false⟩
        | .failed => ⟨slot, [.read slot.2 fd], true⟩
      else
        ⟨slot, [], false⟩

/-- The state after one result of `poll`, the calls made, and whether the
program ended. -/
structure PollOutcome where
  entries : List PollFd
  maxIdx : Nat
  effects : List PollEffect
  exited : Bool

def scanClients
    (reads : Nat → ReadResult) (nready : Int) (entries : List PollFd)
    (maxIdx : Nat) : PollOutcome :=
  let scanned :=
    scan (fun slot : PollFd × Nat => slot.1.fd.isSome) (handleClient reads)
      nready ((entries.zipIdx.take (maxIdx + 1)).drop 1)
  ⟨entries.take 1 ++ scanned.items.map Prod.fst ++ entries.drop (maxIdx + 1),
    maxIdx, scanned.effects, scanned.ended⟩

def freeIndex (entries : List PollFd) : Option Nat :=
  ((entries.drop 1).findIdx? fun entry => entry.fd.isNone).map (· + 1)

namespace ClientTable

/-- `poll` reports `POLLIN` for the chosen ones among the slots in use. -/
def reported
    (table : ClientTable) (chosen : Nat → Bool) (index : Nat) : Bool :=
  occupied table.entries index && chosen index

/-- `clients` after `poll(clients, max_idx + 1, -1)`. -/
def polled (table : ClientTable) (chosen : Nat → Bool) : List PollFd :=
  table.entries.mapIdx fun index entry =>
    if index ≤ table.maxIdx then
      { entry with pollin := table.reported chosen index }
    else
      entry

/-- The value that `poll` returns. -/
def nready (table : ClientTable) (chosen : Nat → Bool) : Int :=
  (List.range (table.maxIdx + 1)).countP (table.reported chosen)

/-- One turn of the loop in `main`.  `accepted` is the result of `Accept`,
which does not return where `accept` fails for good. -/
def handlePoll
    (table : ClientTable) (chosen : Nat → Bool) (accepted : Option Nat)
    (reads : Nat → ReadResult) : PollOutcome :=
  let entries := table.polled chosen
  let nready := table.nready chosen
  if nready ≤ 0 then
    ⟨entries, table.maxIdx, [], false⟩
  else if (entryAt entries 0).pollin then
    match accepted with
    | none => ⟨entries, table.maxIdx, [], true⟩
    | some clientFd =>
        match freeIndex entries with
        | none => ⟨entries, table.maxIdx, [], true⟩
        | some index =>
            let entries :=
              entries.set index
                { entryAt entries index with fd := some clientFd }
            let maxIdx :=
              if table.maxIdx < index then index else table.maxIdx
            if nready - 1 = 0 then
              ⟨entries, maxIdx, [], false⟩
            else
              scanClients reads (nready - 1) entries maxIdx
  else
    scanClients reads nready entries table.maxIdx

end ClientTable

/-- The slots that `Read` is called for. -/
def readIndices (effects : List PollEffect) : List Nat :=
  effects.filterMap fun effect =>
    match effect with
    | .read index _ => some index
    | .write _ _ => none
    | .close _ => none

def slotAt (entries : List PollFd) (index : Nat) : PollFd × Nat :=
  (entryAt entries index, index)

def usedSlots (entries : List PollFd) (maxIdx : Nat) : List Nat :=
  (List.range' 1 maxIdx).filter (occupied entries)

/-- `Read` fails for the slot in such a way that the program ends. -/
def readEnds
    (entries : List PollFd) (reads : Nat → ReadResult) (index : Nat) : Bool :=
  (handleClient reads (slotAt entries index)).ends

theorem slots_eq
    {entries : List PollFd} {maxIdx : Nat} (inside : maxIdx < entries.length) :
    (entries.zipIdx.take (maxIdx + 1)).drop 1 =
      (List.range' 1 maxIdx).map (slotAt entries) := by
  apply List.ext_getElem
  · simp only [List.length_drop, List.length_take, List.length_zipIdx,
      List.length_map, List.length_range']
    omega
  · intro index left right
    simp only [List.length_map, List.length_range'] at right
    have bound : 1 + index < entries.length := by omega
    simp only [List.getElem_drop, List.getElem_take, List.getElem_zipIdx,
      List.getElem_map, List.getElem_range', slotAt, entryAt, Nat.zero_add,
      Nat.one_mul, List.getD_eq_getElem?_getD,
      List.getElem?_eq_getElem bound, Option.getD_some]

theorem mem_usedSlots
    {entries : List PollFd} {maxIdx index : Nat} :
    index ∈ usedSlots entries maxIdx ↔
      1 ≤ index ∧ index ≤ maxIdx ∧ occupied entries index = true := by
  unfold usedSlots
  rw [List.mem_filter, List.mem_range'_1]
  constructor
  · rintro ⟨⟨low, high⟩, used⟩
    exact ⟨low, by omega, used⟩
  · rintro ⟨low, high, used⟩
    exact ⟨⟨low, by omega⟩, used⟩

theorem nodup_usedSlots (entries : List PollFd) (maxIdx : Nat) :
    (usedSlots entries maxIdx).Nodup :=
  List.Nodup.filter _ List.nodup_range'

/-- The slots come in the order of their indices. -/
theorem pairwise_usedSlots_iff
    {entries : List PollFd} {maxIdx : Nat} {relation : Nat → Nat → Prop} :
    (usedSlots entries maxIdx).Pairwise relation ↔
      ∀ first second, first ∈ usedSlots entries maxIdx →
        second ∈ usedSlots entries maxIdx → first < second →
          relation first second :=
  pairwise_iff_of_increasing
    (List.Pairwise.filter _ (List.pairwise_lt_range' 1))

/-! ## What is read -/

theorem mem_readIndices_flatMap
    {α : Type} {items : List α} {effects : α → List PollEffect}
    {index : Nat} :
    index ∈ readIndices (items.flatMap effects) ↔
      ∃ item ∈ items, index ∈ readIndices (effects item) := by
  simp only [readIndices, List.mem_filterMap, List.mem_flatMap]
  constructor
  · rintro ⟨effect, ⟨item, member, inEffects⟩, isRead⟩
    exact ⟨item, member, effect, inEffects, isRead⟩
  · rintro ⟨item, member, effect, inEffects, isRead⟩
    exact ⟨effect, ⟨item, member, inEffects⟩, isRead⟩

theorem mem_readIndices_handleClient
    {reads : Nat → ReadResult} {entry : PollFd} {slot index : Nat} :
    index ∈ readIndices (handleClient reads (entry, slot)).effects ↔
      index = slot ∧ entry.fd.isSome = true ∧ entry.pollin = true := by
  unfold handleClient
  cases fd : entry.fd with
  | none => simp [readIndices]
  | some fd =>
      cases pollin : entry.pollin with
      | false => simp [readIndices]
      | true => cases reads slot <;> simp [readIndices]

theorem readEnds_iff
    {entries : List PollFd} {reads : Nat → ReadResult} {index : Nat} :
    readEnds entries reads index = true ↔
      occupied entries index = true ∧
        (entryAt entries index).pollin = true ∧
          reads index = .failed := by
  unfold readEnds handleClient occupied slotAt
  cases fd : (entryAt entries index).fd with
  | none => simp
  | some fd =>
      cases pollin : (entryAt entries index).pollin with
      | false => simp
      | true => cases reads index <;> simp

/-- `Read` is called for the first slots in use, as many as the counter says,
where `poll` reported them, up to a call that ends the program. -/
theorem mem_reads_scanClients
    {reads : Nat → ReadResult} {entries : List PollFd} {maxIdx : Nat}
    (inside : maxIdx < entries.length) (count index : Nat) :
    index ∈
        readIndices
          (scanClients reads (count + 1 : Nat) entries maxIdx).effects ↔
      index ∈
          untilEnd (readEnds entries reads)
            ((usedSlots entries maxIdx).take (count + 1)) ∧
        (entryAt entries index).pollin = true := by
  have reached :
      (scanClients reads (count + 1 : Nat) entries maxIdx).effects =
        (untilEnd (readEnds entries reads)
          ((usedSlots entries maxIdx).take (count + 1))).flatMap
            fun index => (handleClient reads (slotAt entries index)).effects := by
    unfold scanClients
    simp only [scan_effects]
    rw [slots_eq inside, List.filter_map, ← List.map_take, untilEnd_map,
      List.flatMap_map]
    rfl
  rw [reached, mem_readIndices_flatMap]
  constructor
  · rintro ⟨slot, member, isRead⟩
    obtain ⟨rfl, _, pollin⟩ := mem_readIndices_handleClient.mp isRead
    exact ⟨member, pollin⟩
  · rintro ⟨member, pollin⟩
    have used :=
      (mem_usedSlots.mp
        (List.mem_of_mem_take (untilEnd_subset _ _ member))).2.2
    exact
      ⟨index, member, mem_readIndices_handleClient.mpr ⟨rfl, used, pollin⟩⟩

/-- Where the counter is the number of wanted slots, all of them are in use
and `revents` tells them among the slots that are visited, the slots read for
are the wanted ones exactly when each slot in use in front of a wanted one is
wanted as well and `Read` does not end the program there. -/
theorem scanClients_serves_iff
    {reads : Nat → ReadResult} {entries : List PollFd} {maxIdx count : Nat}
    {wanted : Nat → Bool} (inside : maxIdx < entries.length)
    (counted : (List.range' 1 maxIdx).countP wanted = count + 1)
    (used :
      ∀ index, wanted index = true →
        index ≤ maxIdx ∧ occupied entries index = true)
    (shown :
      ∀ index ∈ (usedSlots entries maxIdx).take (count + 1),
        (entryAt entries index).pollin = wanted index) :
    (∀ index,
        index ∈
            readIndices
              (scanClients reads (count + 1 : Nat) entries maxIdx).effects ↔
          1 ≤ index ∧ wanted index = true) ↔
      ∀ first second, 1 ≤ first → first < second →
        wanted second = true → occupied entries first = true →
          wanted first = true ∧ reads first ≠ .failed := by
  have sameCount :
      (usedSlots entries maxIdx).countP wanted = count + 1 := by
    unfold usedSlots
    rw [List.countP_filter, ← counted]
    apply List.countP_congr
    intro index _
    rw [Bool.and_eq_true]
    exact and_iff_left_of_imp fun isWanted => (used index isWanted).2
  have sameEnds :
      untilEnd (readEnds entries reads)
          ((usedSlots entries maxIdx).take (count + 1)) =
        untilEnd
          (fun index => wanted index && decide (reads index = .failed))
          ((usedSlots entries maxIdx).take (count + 1)) := by
    apply untilEnd_congr
    intro index member
    have isUsed := (mem_usedSlots.mp (List.mem_of_mem_take member)).2.2
    rw [Bool.eq_iff_iff, readEnds_iff, shown index member, Bool.and_eq_true,
      decide_eq_true_iff]
    exact and_iff_right isUsed
  have reachedWanted :
      (∀ index,
          index ∈
              readIndices
                (scanClients reads (count + 1 : Nat) entries maxIdx).effects ↔
            1 ≤ index ∧ wanted index = true) ↔
        ∀ index ∈ usedSlots entries maxIdx, wanted index = true →
          index ∈
            untilEnd
              (fun index => wanted index && decide (reads index = .failed))
              ((usedSlots entries maxIdx).take
                ((usedSlots entries maxIdx).countP wanted)) := by
    rw [sameCount, ← sameEnds]
    constructor
    · intro exact index member isWanted
      exact
        ((mem_reads_scanClients inside count index).mp
          ((exact index).mpr ⟨(mem_usedSlots.mp member).1, isWanted⟩)).1
    · intro reached index
      rw [mem_reads_scanClients inside count index]
      constructor
      · rintro ⟨member, pollin⟩
        have taken := untilEnd_subset _ _ member
        rw [shown index taken] at pollin
        exact
          ⟨(mem_usedSlots.mp (List.mem_of_mem_take taken)).1, pollin⟩
      · rintro ⟨low, isWanted⟩
        obtain ⟨high, isUsed⟩ := used index isWanted
        have member :=
          reached index (mem_usedSlots.mpr ⟨low, high, isUsed⟩) isWanted
        rw [shown index (untilEnd_subset _ _ member)]
        exact ⟨member, isWanted⟩
  rw [reachedWanted,
    reaches_wanted_iff wanted _ (nodup_usedSlots entries maxIdx),
    pairwise_usedSlots_iff]
  constructor
  · intro ordered first second low less isWanted isUsed
    obtain ⟨high, secondUsed⟩ := used second isWanted
    obtain ⟨firstWanted, continues⟩ :=
      ordered first second (mem_usedSlots.mpr ⟨low, by omega, isUsed⟩)
        (mem_usedSlots.mpr ⟨by omega, high, secondUsed⟩) less isWanted
    refine ⟨firstWanted, fun fails => ?_⟩
    rw [firstWanted, decide_eq_true fails] at continues
    cases continues
  · intro ordered first second firstMember _ less isWanted
    obtain ⟨low, _, isUsed⟩ := mem_usedSlots.mp firstMember
    obtain ⟨firstWanted, continues⟩ :=
      ordered first second low less isWanted isUsed
    refine ⟨firstWanted, ?_⟩
    rw [decide_eq_false continues, Bool.and_false]

theorem occupied_lt_length
    {entries : List PollFd} {index : Nat}
    (used : occupied entries index = true) : index < entries.length := by
  by_contra beyond
  unfold occupied entryAt at used
  rw [List.getD_eq_default _ _ (Nat.le_of_not_lt beyond)] at used
  cases used

theorem occupied_eq
    {entries : List PollFd} {index : Nat} (inside : index < entries.length) :
    occupied entries index = entries[index].fd.isSome := by
  unfold occupied entryAt
  rw [List.getD_eq_getElem _ _ inside]

theorem freeIndex_eq_some
    {entries : List PollFd} {index : Nat}
    (free : freeIndex entries = some index) :
    1 ≤ index ∧ index < entries.length ∧ occupied entries index = false ∧
      ∀ before, 1 ≤ before → before < index →
        occupied entries before = true := by
  unfold freeIndex at free
  obtain ⟨offset, found, rfl⟩ := Option.map_eq_some_iff.mp free
  obtain ⟨inside, isFree, earlier⟩ :=
    List.findIdx?_eq_some_iff_getElem.mp found
  rw [List.length_drop] at inside
  rw [List.getElem_drop] at isFree
  refine ⟨Nat.le_add_left 1 offset, by omega, ?_, ?_⟩
  · rw [occupied_eq (by omega)]
    simpa [Nat.add_comm 1 offset] using isFree
  · intro before low less
    have used := earlier (before - 1) (by omega)
    rw [List.getElem_drop] at used
    rw [occupied_eq (by omega)]
    simpa [Nat.add_sub_cancel' low, Option.isSome_iff_ne_none] using used

theorem entryAt_set
    {entries : List PollFd} {index : Nat} (inside : index < entries.length)
    (entry : PollFd) (other : Nat) :
    entryAt (entries.set index entry) other =
      if index = other then entry else entryAt entries other := by
  unfold entryAt
  rw [List.getD_eq_getElem?_getD, List.getD_eq_getElem?_getD,
    List.getElem?_set]
  by_cases same : index = other
  · rw [if_pos same, if_pos same, if_pos inside]
    rfl
  · rw [if_neg same, if_neg same]

/-- Which slot is free depends on the descriptors alone. -/
theorem freeIndex_congr
    {entries other : List PollFd}
    (same : entries.map PollFd.fd = other.map PollFd.fd) :
    freeIndex entries = freeIndex other := by
  have byFd :
      ∀ list : List PollFd,
        (list.drop 1).findIdx? (fun entry => entry.fd.isNone) =
          ((list.map PollFd.fd).drop 1).findIdx? fun fd => fd.isNone := by
    intro list
    rw [← List.map_drop, List.findIdx?_map]
    rfl
  unfold freeIndex
  rw [byFd, byFd, same]

/-- A slot that is in use was in use before. -/
def OnlyFreed (before after : PollFd) : Prop :=
  after.fd.isSome = true → before.fd.isSome = true

theorem onlyFreed_refl (entry : PollFd) : OnlyFreed entry entry := id

theorem handleClient_onlyFreed
    (reads : Nat → ReadResult) (slot : PollFd × Nat) :
    OnlyFreed slot.1 (handleClient reads slot).item.1 := by
  intro used
  unfold handleClient at used
  cases fd : slot.1.fd with
  | none =>
      rw [fd] at used
      rw [← fd]
      exact used
  | some fd => rfl

theorem occupied_of_onlyFreed
    {before after : List PollFd}
    (freed : List.Forall₂ OnlyFreed before after) {index : Nat}
    (used : occupied after index = true) : occupied before index = true := by
  induction freed generalizing index with
  | nil => exact used
  | cons first _ inductionHypothesis =>
      cases index with
      | zero => exact first used
      | succ index => exact inductionHypothesis used

/-- The loop over the clients frees slots, and does nothing else to the
table. -/
theorem scanClients_onlyFreed
    (reads : Nat → ReadResult) (nready : Int) (entries : List PollFd)
    (maxIdx : Nat) :
    List.Forall₂ OnlyFreed entries
      (scanClients reads nready entries maxIdx).entries := by
  have unchanged :
      ∀ list : List PollFd, List.Forall₂ OnlyFreed list list :=
    fun list => List.forall₂_same.mpr fun entry _ => onlyFreed_refl entry
  have visited :
      ((entries.zipIdx.take (maxIdx + 1)).drop 1).map Prod.fst =
        (entries.take (maxIdx + 1)).drop 1 := by
    rw [List.map_drop, List.map_take, List.zipIdx_map_fst]
  have scanned :
      List.Forall₂ OnlyFreed
        (((entries.zipIdx.take (maxIdx + 1)).drop 1).map Prod.fst)
        ((scan (fun slot : PollFd × Nat => slot.1.fd.isSome)
          (handleClient reads) nready
          ((entries.zipIdx.take (maxIdx + 1)).drop 1)).items.map
            Prod.fst) := by
    rw [List.forall₂_map_left_iff, List.forall₂_map_right_iff]
    exact
      forall₂_scan (fun slot => onlyFreed_refl slot.1)
        (handleClient_onlyFreed reads) nready _
  rw [visited] at scanned
  have whole :
      entries =
        entries.take 1 ++ (entries.take (maxIdx + 1)).drop 1 ++
          entries.drop (maxIdx + 1) := by
    have first : (entries.take (maxIdx + 1)).take 1 = entries.take 1 := by
      rw [List.take_take, Nat.min_eq_left (by omega)]
    rw [← first, List.take_append_drop, List.take_append_drop]
  have joined :=
    List.rel_append (List.rel_append (unchanged (entries.take 1)) scanned)
      (unchanged (entries.drop (maxIdx + 1)))
  dsimp only at joined
  rw [← whole] at joined
  exact joined

theorem occupied_scanClients_zero
    (reads : Nat → ReadResult) (nready : Int) (entries : List PollFd)
    (maxIdx : Nat) :
    occupied (scanClients reads nready entries maxIdx).entries 0 =
      occupied entries 0 := by
  cases entries with
  | nil => rfl
  | cons entry entries => rfl

namespace ClientTable

variable (table : ClientTable) (chosen : Nat → Bool)

theorem reported_le
    {table : ClientTable} {chosen : Nat → Bool} {index : Nat}
    (isReported : table.reported chosen index = true) :
    index ≤ table.maxIdx ∧ occupied table.entries index = true := by
  unfold reported at isReported
  rw [Bool.and_eq_true] at isReported
  exact ⟨table.below index isReported.1, isReported.1⟩

theorem length_polled : (table.polled chosen).length = maxClients := by
  unfold polled
  rw [List.length_mapIdx, table.size]

theorem entryAt_polled {index : Nat} (inside : index < maxClients) :
    entryAt (table.polled chosen) index =
      if index ≤ table.maxIdx then
        { entryAt table.entries index with
          pollin := table.reported chosen index }
      else
        entryAt table.entries index := by
  have bound : index < table.entries.length := by rwa [table.size]
  unfold entryAt polled
  rw [List.getD_eq_getElem?_getD, List.getD_eq_getElem?_getD,
    List.getElem?_mapIdx, List.getElem?_eq_getElem bound]
  rfl

theorem occupied_polled (index : Nat) :
    occupied (table.polled chosen) index = occupied table.entries index := by
  by_cases inside : index < maxClients
  · unfold occupied
    rw [table.entryAt_polled chosen inside]
    split <;> rfl
  · have bound : table.entries.length ≤ index := by
      rw [table.size]
      exact Nat.le_of_not_lt inside
    have polledBound : (table.polled chosen).length ≤ index := by
      rw [table.length_polled chosen]
      exact Nat.le_of_not_lt inside
    unfold occupied entryAt
    rw [List.getD_eq_default _ _ bound, List.getD_eq_default _ _ polledBound]

theorem freeIndex_polled :
    freeIndex (table.polled chosen) = freeIndex table.entries := by
  apply freeIndex_congr
  unfold polled
  apply List.ext_getElem
  · simp
  · intro index _ _
    simp only [List.getElem_map, List.getElem_mapIdx]
    split <;> rfl

theorem nready_eq :
    table.nready chosen =
      (if table.reported chosen 0 then 1 else 0 : Nat) +
        (List.range' 1 table.maxIdx).countP (table.reported chosen) := by
  unfold nready
  rw [List.range_eq_range', List.range'_succ, List.countP_cons]
  push_cast
  omega

/-- The condition under which the ready clients, and no others, are read
from. -/
structure ServesAll
    (table : ClientTable) (chosen : Nat → Bool) (accepted : Option Nat)
    (reads : Nat → ReadResult) : Prop where
  accepts :
    table.reported chosen 0 = true →
      ∀ index, 1 ≤ index → table.reported chosen index = true →
        accepted.isSome ∧ (freeIndex table.entries).isSome
  inOrder :
    ∀ first second, 1 ≤ first → first < second →
      table.reported chosen second = true →
        (occupied table.entries first = true ∨
          table.reported chosen 0 = true ∧
            freeIndex table.entries = some first) →
          table.reported chosen first = true ∧ reads first ≠ .failed

variable {table : ClientTable} {chosen : Nat → Bool}
  {accepted : Option Nat} {reads : Nat → ReadResult}

/-- `clients` after the accepted descriptor was stored. -/
def filled
    (table : ClientTable) (chosen : Nat → Bool) (index clientFd : Nat) :
    List PollFd :=
  (table.polled chosen).set index
    { entryAt (table.polled chosen) index with fd := some clientFd }

theorem listening_pollin :
    (entryAt (table.polled chosen) 0).pollin = table.reported chosen 0 := by
  rw [table.entryAt_polled chosen (by decide), if_pos (Nat.zero_le _)]

theorem handlePoll_of_quiet
    (quiet : table.reported chosen 0 = false) {count : Nat}
    (counted :
      (List.range' 1 table.maxIdx).countP (table.reported chosen) =
        count + 1) :
    table.handlePoll chosen accepted reads =
      scanClients reads (count + 1 : Nat) (table.polled chosen)
        table.maxIdx := by
  have nready : table.nready chosen = (count + 1 : Nat) := by
    rw [nready_eq, counted, quiet, if_neg Bool.false_ne_true]
    omega
  unfold handlePoll
  rw [nready, if_neg (by omega), listening_pollin, quiet,
    if_neg Bool.false_ne_true]

section Listening

variable (listens : table.reported chosen 0 = true) {count : Nat}
  (counted :
    (List.range' 1 table.maxIdx).countP (table.reported chosen) = count)
include listens counted

theorem nready_of_listens : table.nready chosen = (count + 1 : Nat) := by
  rw [nready_eq, counted, listens, if_pos rfl]
  omega

/-- The program ends where `Accept` does not return, or no slot is free. -/
theorem handlePoll_of_refused
    (refused : accepted = none ∨ freeIndex table.entries = none) :
    (table.handlePoll chosen accepted reads).effects = [] := by
  unfold handlePoll
  rw [nready_of_listens listens counted, if_neg (by omega),
    listening_pollin, listens, if_pos rfl, freeIndex_polled]
  rcases refused with rfl | full
  · rfl
  · rw [full]
    cases accepted <;> rfl

theorem handlePoll_of_filled
    {index : Nat} (free : freeIndex table.entries = some index)
    (clientFd : Nat) :
    table.handlePoll chosen (some clientFd) reads =
      if count = 0 then
        ⟨table.filled chosen index clientFd, max table.maxIdx index, [],
          false⟩
      else
        scanClients reads count (table.filled chosen index clientFd)
          (max table.maxIdx index) := by
  have higher :
      (if table.maxIdx < index then index else table.maxIdx) =
        max table.maxIdx index := by
    split <;> omega
  have lower : ((count + 1 : Nat) : Int) - 1 = (count : Nat) := by omega
  unfold handlePoll filled
  rw [nready_of_listens listens counted, if_neg (by omega),
    listening_pollin, listens, if_pos rfl, freeIndex_polled, free]
  simp only [lower, higher, Int.natCast_eq_zero]

end Listening

section Filled

variable {index clientFd : Nat}
  (free : freeIndex table.entries = some index)
include free

theorem lt_of_free : index < maxClients := by
  have inside := (freeIndex_eq_some free).2.1
  rwa [table.size] at inside

theorem entryAt_filled (other : Nat) :
    entryAt (table.filled chosen index clientFd) other =
      if index = other then
        { entryAt (table.polled chosen) index with fd := some clientFd }
      else
        entryAt (table.polled chosen) other := by
  apply entryAt_set
  rw [length_polled]
  exact lt_of_free free

theorem occupied_filled_iff (other : Nat) :
    occupied (table.filled chosen index clientFd) other = true ↔
      occupied table.entries other = true ∨ index = other := by
  unfold occupied
  rw [entryAt_filled free]
  by_cases same : index = other
  · rw [if_pos same]
    exact iff_of_true rfl (Or.inr same)
  · rw [if_neg same]
    rw [or_iff_left same]
    exact Eq.congr_left (table.occupied_polled chosen other)

/-- The free slot is at most one behind the last one. -/
theorem free_le : index ≤ table.maxIdx + 1 := by
  obtain ⟨low, _, _, used⟩ := freeIndex_eq_some free
  by_contra beyond
  have isUsed := used (index - 1) (by omega) (by omega)
  have bound := table.below (index - 1) isUsed
  omega

theorem not_reported_free : table.reported chosen index = false := by
  have isFree := (freeIndex_eq_some free).2.2.1
  unfold reported
  rw [isFree, Bool.false_and]

/-- The slot of the accepted client adds nothing to the ready ones. -/
theorem countP_filled :
    (List.range' 1 (max table.maxIdx index)).countP
        (table.reported chosen) =
      (List.range' 1 table.maxIdx).countP (table.reported chosen) := by
  have bound := free_le free
  by_cases last : index ≤ table.maxIdx
  · rw [Nat.max_eq_left last]
  · have same : index = 1 + table.maxIdx := by omega
    have notReady : table.reported chosen index = false :=
      not_reported_free free
    rw [same] at notReady ⊢
    rw [Nat.max_eq_right (by omega), Nat.add_comm 1 table.maxIdx,
      List.range'_1_concat, List.countP_append, List.countP_singleton,
      notReady]
    rfl

/-- The slots visited are old ones where the accepted client got a new
slot. -/
theorem pollin_filled
    {visited count : Nat}
    (counted :
      (List.range' 1 table.maxIdx).countP (table.reported chosen) = count)
    (member :
      visited ∈
        (usedSlots (table.filled chosen index clientFd)
          (max table.maxIdx index)).take count) :
    (entryAt (table.filled chosen index clientFd) visited).pollin =
      table.reported chosen visited := by
  have bound := free_le free
  have inside := lt_of_free free
  obtain ⟨low, high, used⟩ := mem_usedSlots.mp (List.mem_of_mem_take member)
  have old : visited ≤ table.maxIdx := by
    by_contra new
    have same : index = table.maxIdx + 1 := by omega
    have split :
        usedSlots (table.filled chosen index clientFd)
            (max table.maxIdx index) =
          usedSlots (table.filled chosen index clientFd) table.maxIdx ++
            [1 + table.maxIdx].filter
              (occupied (table.filled chosen index clientFd)) := by
      unfold usedSlots
      rw [Nat.max_eq_right (by omega), same, List.range'_1_concat,
        List.filter_append]
    have enough :
        count ≤
          (usedSlots (table.filled chosen index clientFd)
            table.maxIdx).length := by
      unfold usedSlots
      rw [← counted, ← List.countP_eq_length_filter]
      apply List.countP_mono_left
      intro slot _ isReported
      exact
        (occupied_filled_iff free slot).mpr
          (Or.inl (reported_le isReported).2)
    rw [split, List.take_append_of_le_length enough] at member
    have below := (mem_usedSlots.mp (List.mem_of_mem_take member)).2.1
    omega
  have polledPollin :
      (entryAt (table.polled chosen) visited).pollin =
        table.reported chosen visited := by
    have visitedInside : visited < maxClients :=
      Nat.lt_of_le_of_lt old table.inside
    rw [table.entryAt_polled chosen visitedInside, if_pos old]
  rw [entryAt_filled free]
  by_cases same : index = visited
  · rw [if_pos same, same]
    exact polledPollin
  · rw [if_neg same]
    exact polledPollin

end Filled

def scanned
    (table : ClientTable) (reads : Nat → ReadResult) (nready : Int) :
    ClientTable where
  entries := (scanClients reads nready table.entries table.maxIdx).entries
  maxIdx := table.maxIdx
  size := by
    rw [← (scanClients_onlyFreed reads nready table.entries
      table.maxIdx).length_eq, table.size]
  inside := table.inside
  listening := by
    rw [occupied_scanClients_zero]
    exact table.listening
  below := fun index used =>
    table.below index
      (occupied_of_onlyFreed (scanClients_onlyFreed reads nready _ _) used)

/-- The table that `poll` leaves. -/
def polledTable (table : ClientTable) (chosen : Nat → Bool) :
    ClientTable where
  entries := table.polled chosen
  maxIdx := table.maxIdx
  size := table.length_polled chosen
  inside := table.inside
  listening := by
    rw [occupied_polled]
    exact table.listening
  below := by
    intro index used
    rw [occupied_polled] at used
    exact table.below index used

def filledTable
    (table : ClientTable) (chosen : Nat → Bool) (clientFd : Nat)
    {index : Nat} (free : freeIndex table.entries = some index) :
    ClientTable where
  entries := table.filled chosen index clientFd
  maxIdx := max table.maxIdx index
  size := by
    unfold filled
    rw [List.length_set, length_polled]
  inside := Nat.max_lt.mpr ⟨table.inside, lt_of_free free⟩
  listening := (occupied_filled_iff free 0).mpr (Or.inl table.listening)
  below := by
    intro other used
    rcases (occupied_filled_iff free other).mp used with old | same
    · exact Nat.le_trans (table.below other old) (Nat.le_max_left _ _)
    · rw [← same]
      exact Nat.le_max_right _ _

/-- A turn of the loop in `main` leads from a table to a table, whatever is
ready and whatever `Accept` and `Read` return. -/
theorem exists_nextTable
    (table : ClientTable) (chosen : Nat → Bool) (accepted : Option Nat)
    (reads : Nat → ReadResult) :
    ∃ next : ClientTable,
      next.entries =
          (table.handlePoll chosen accepted reads).entries ∧
        next.maxIdx = (table.handlePoll chosen accepted reads).maxIdx := by
  unfold handlePoll
  dsimp only
  split
  · exact ⟨table.polledTable chosen, rfl, rfl⟩
  split
  · cases accepted with
    | none => exact ⟨table.polledTable chosen, rfl, rfl⟩
    | some clientFd =>
        cases free : freeIndex table.entries with
        | none =>
            rw [freeIndex_polled, free]
            exact ⟨table.polledTable chosen, rfl, rfl⟩
        | some index =>
            have higher :
                (if table.maxIdx < index then index else table.maxIdx) =
                  max table.maxIdx index := by
              split <;> omega
            rw [freeIndex_polled, free]
            dsimp only
            rw [higher]
            split
            · exact ⟨table.filledTable chosen clientFd free, rfl, rfl⟩
            · exact
                ⟨(table.filledTable chosen clientFd free).scanned reads _,
                  rfl, rfl⟩
  · exact ⟨(table.polledTable chosen).scanned reads _, rfl, rfl⟩

/-! ## The clients that are read from -/

theorem reported_iff_mem
    {index : Nat} (isReported : table.reported chosen index = true)
    (low : 1 ≤ index) : index ∈ List.range' 1 table.maxIdx := by
  have high := (reported_le isReported).1
  rw [List.mem_range'_1]
  omega

theorem effects_of_none_ready
    (none :
      (List.range' 1 table.maxIdx).countP (table.reported chosen) = 0) :
    (table.handlePoll chosen accepted reads).effects = [] := by
  cases listens : table.reported chosen 0 with
  | false =>
      have nready : table.nready chosen = 0 := by
        rw [nready_eq, none, listens, if_neg Bool.false_ne_true]
        rfl
      unfold handlePoll
      rw [nready, if_pos (Int.le_refl 0)]
  | true =>
      cases accepted with
      | none => exact handlePoll_of_refused listens none (Or.inl rfl)
      | some clientFd =>
          cases free : freeIndex table.entries with
          | none => exact handlePoll_of_refused listens none (Or.inr free)
          | some index =>
              rw [handlePoll_of_filled listens none free, if_pos rfl]

theorem serves_of_quiet
    (quiet : table.reported chosen 0 = false) {count : Nat}
    (counted :
      (List.range' 1 table.maxIdx).countP (table.reported chosen) =
        count + 1) :
    (∀ index,
        index ∈
            readIndices (table.handlePoll chosen accepted reads).effects ↔
          1 ≤ index ∧ table.reported chosen index = true) ↔
      table.ServesAll chosen accepted reads := by
  have inside : table.maxIdx < (table.polled chosen).length := by
    rw [length_polled]
    exact table.inside
  have shown :
      ∀ index ∈
          (usedSlots (table.polled chosen) table.maxIdx).take (count + 1),
        (entryAt (table.polled chosen) index).pollin =
          table.reported chosen index := by
    intro index member
    have high := (mem_usedSlots.mp (List.mem_of_mem_take member)).2.1
    rw [table.entryAt_polled chosen (Nat.lt_of_le_of_lt high table.inside),
      if_pos high]
  rw [handlePoll_of_quiet quiet counted,
    scanClients_serves_iff inside counted _ shown]
  · constructor
    · intro ordered
      constructor
      · intro listens
        rw [quiet] at listens
        cases listens
      · rintro first second low less isReported (used | ⟨listens, _⟩)
        · exact ordered first second low less isReported
            (by rw [occupied_polled]; exact used)
        · rw [quiet] at listens
          cases listens
    · intro serves first second low less isReported used
      rw [occupied_polled] at used
      exact serves.inOrder first second low less isReported (Or.inl used)
  · intro index isReported
    rw [occupied_polled]
    exact reported_le isReported

theorem serves_of_filled
    (listens : table.reported chosen 0 = true) {count index : Nat}
    (counted :
      (List.range' 1 table.maxIdx).countP (table.reported chosen) =
        count + 1)
    (free : freeIndex table.entries = some index) (clientFd : Nat) :
    (∀ slot,
        slot ∈
            readIndices
              (table.handlePoll chosen (some clientFd) reads).effects ↔
          1 ≤ slot ∧ table.reported chosen slot = true) ↔
      table.ServesAll chosen (some clientFd) reads := by
  have inside :
      max table.maxIdx index <
        (table.filled chosen index clientFd).length := by
    unfold filled
    rw [List.length_set, length_polled]
    exact Nat.max_lt.mpr ⟨table.inside, lt_of_free free⟩
  rw [handlePoll_of_filled listens counted free,
    if_neg (Nat.succ_ne_zero count),
    scanClients_serves_iff inside ((countP_filled free).trans counted) _
      fun slot member => pollin_filled free counted member]
  · constructor
    · intro ordered
      constructor
      · intro _ _ _ _
        exact ⟨rfl, by rw [free]; rfl⟩
      · intro first second low less isReported used
        apply ordered first second low less isReported
        rw [occupied_filled_iff free]
        rcases used with used | ⟨_, isFree⟩
        · exact Or.inl used
        · rw [free] at isFree
          exact Or.inr (Option.some.inj isFree)
    · intro serves first second low less isReported used
      apply serves.inOrder first second low less isReported
      rcases (occupied_filled_iff free first).mp used with used | rfl
      · exact Or.inl used
      · exact Or.inr ⟨listens, free⟩
  · intro slot isReported
    obtain ⟨high, used⟩ := reported_le isReported
    exact
      ⟨Nat.le_trans high (Nat.le_max_left _ _),
        (occupied_filled_iff free slot).mpr (Or.inl used)⟩

theorem serves_of_refused
    (listens : table.reported chosen 0 = true) {count : Nat}
    (counted :
      (List.range' 1 table.maxIdx).countP (table.reported chosen) =
        count + 1)
    (refused : accepted = none ∨ freeIndex table.entries = none) :
    (∀ index,
        index ∈
            readIndices (table.handlePoll chosen accepted reads).effects ↔
          1 ≤ index ∧ table.reported chosen index = true) ↔
      table.ServesAll chosen accepted reads := by
  obtain ⟨ready, member, isReported⟩ :=
    List.countP_pos_iff.mp
      (show 0 <
        (List.range' 1 table.maxIdx).countP (table.reported chosen) by
          omega)
  have low := (List.mem_range'_1.mp member).1
  rw [handlePoll_of_refused listens counted refused]
  apply iff_of_false
  · intro exact
    cases (exact ready).mpr ⟨low, isReported⟩
  · intro serves
    obtain ⟨returned, isFree⟩ :=
      serves.accepts listens ready low isReported
    rcases refused with rfl | full
    · cases returned
    · rw [full] at isFree
      cases isFree

/-- Handling a result of `poll` reads from the ready clients and from no
others exactly when a new connection can be taken in, no client that is not
ready stands in front of a ready one, and no `Read` in front of the last one
ends the program. -/
theorem handlePoll_reads_iff
    (table : ClientTable) (chosen : Nat → Bool) (accepted : Option Nat)
    (reads : Nat → ReadResult) :
    (∀ index,
        index ∈
            readIndices (table.handlePoll chosen accepted reads).effects ↔
          1 ≤ index ∧ table.reported chosen index = true) ↔
      table.ServesAll chosen accepted reads := by
  cases counted :
      (List.range' 1 table.maxIdx).countP (table.reported chosen) with
  | zero =>
      have none :
          ∀ index, 1 ≤ index → ¬ table.reported chosen index = true :=
        fun index low isReported =>
          List.countP_eq_zero.mp counted index
            (reported_iff_mem isReported low) isReported
      rw [effects_of_none_ready counted]
      apply iff_of_true
      · intro index
        apply iff_of_false
        · exact List.not_mem_nil
        · exact fun ready => none index ready.1 ready.2
      · constructor
        · exact fun _ index low isReported =>
            absurd isReported (none index low)
        · intro first second low less isReported
          exact absurd isReported (none second (by omega))
  | succ count =>
      cases listens : table.reported chosen 0 with
      | false => exact serves_of_quiet listens counted
      | true =>
          cases accepted with
          | none => exact serves_of_refused listens counted (Or.inl rfl)
          | some clientFd =>
              cases free : freeIndex table.entries with
              | none => exact serves_of_refused listens counted (Or.inr free)
              | some index =>
                  exact serves_of_filled listens counted free clientFd

/-- `clients` with the listening descriptor 3 and clients on 4 and 5. -/
def twoClients : ClientTable where
  entries :=
    ⟨some 3, false⟩ :: ⟨some 4, false⟩ :: ⟨some 5, false⟩ ::
      List.replicate 1021 PollFd.empty
  maxIdx := 2
  size := by
    rw [List.length_cons, List.length_cons, List.length_cons,
      List.length_replicate]
    rfl
  inside := by decide
  listening := rfl
  below := by
    intro index used
    by_contra beyond
    obtain ⟨offset, rfl⟩ : ∃ offset, index = offset + 3 :=
      ⟨index - 3, by omega⟩
    have empty :
        occupied
            (⟨some 3, false⟩ :: ⟨some 4, false⟩ :: ⟨some 5, false⟩ ::
              List.replicate 1021 PollFd.empty) (offset + 3) =
          occupied (List.replicate 1021 PollFd.empty) offset := rfl
    rw [empty] at used
    have inside := occupied_lt_length used
    rw [occupied_eq inside, List.getElem_replicate] at used
    cases used

/-- Only the client on 5 is ready, and the loop leaves after the one on 4. -/
theorem ready_client_is_skipped :
    ¬ ∀ (table : ClientTable) (chosen : Nat → Bool) (accepted : Option Nat)
        (reads : Nat → ReadResult) (index : Nat),
        index ∈
            readIndices (table.handlePoll chosen accepted reads).effects ↔
          1 ≤ index ∧ table.reported chosen index = true := by
  intro always
  have read :=
    (always twoClients (fun index => index == 2) none
      (fun _ => .data [104, 105]) 2).mpr ⟨by decide, rfl⟩
  have quiet :
      twoClients.reported (fun index => index == 2) 0 = false := rfl
  have counted :
      (List.range' 1 twoClients.maxIdx).countP
        (twoClients.reported fun index => index == 2) = 0 + 1 := rfl
  have inside :
      twoClients.maxIdx <
        (twoClients.polled fun index => index == 2).length := by
    rw [length_polled]
    exact twoClients.inside
  rw [handlePoll_of_quiet quiet counted, mem_reads_scanClients inside] at read
  have visited := untilEnd_subset _ _ read.1
  have first :
      (usedSlots (twoClients.polled fun index => index == 2)
        twoClients.maxIdx).take (0 + 1) = [1] := by
    have used :
        occupied (twoClients.polled fun index => index == 2) 1 = true := by
      rw [occupied_polled]
      rfl
    show ((1 :: List.range' 2 1).filter _).take 1 = [1]
    rw [List.filter_cons_of_pos used]
    rfl
  rw [first] at visited
  exact absurd visited (by decide)

end ClientTable

end LinuxNet.Multiplex
