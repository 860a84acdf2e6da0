import LinuxNet.Lib.EchoRounds
import LinuxNet.Multiplex.PollServer

/-!
# The clients of the poll server

In a turn of `main` the loop over the array `clients` comes to the first slots
in use, as many as there are ready clients; those that it does not come to
wait for another turn.  What it does to a client is the same as in the other
servers, but that a connection that was reset is closed as well.  A `Write`
that SIGPIPE meets ends the program in the middle of a turn.
-/

namespace LinuxNet.Multiplex

open LinuxNet.CString LinuxNet.CountedScan LinuxNet.EchoService
open LinuxNet.StepSystem

section Loop

def visitedSlots
    (reads : Nat → ReadResult) (entries : List PollFd)
    (maxIdx count : Nat) : List Nat :=
  untilEnd (readEnds entries reads) ((usedSlots entries maxIdx).take count)

variable {reads : Nat → ReadResult} {entries : List PollFd}
variable {maxIdx : Nat}

theorem mem_visitedSlots
    {count index : Nat}
    (member : index ∈ visitedSlots reads entries maxIdx count) :
    1 ≤ index ∧ index ≤ maxIdx ∧ occupied entries index = true :=
  mem_usedSlots.mp (List.mem_of_mem_take (untilEnd_subset _ _ member))

theorem slotAt_injective (entries : List PollFd) :
    Function.Injective (slotAt entries) :=
  fun _ _ same => congrArg Prod.snd same

theorem visited_eq
    (inside : maxIdx < entries.length) (count : Nat) :
    visited (fun slot : PollFd × Nat => slot.1.fd.isSome)
        (handleClient reads) count ((entries.zipIdx.take (maxIdx + 1)).drop 1) =
      (visitedSlots reads entries maxIdx count).map (slotAt entries) := by
  unfold visited visitedSlots
  rw [slots_eq inside, List.filter_map, ← List.map_take, untilEnd_map]
  rfl

theorem mem_visited_iff
    (inside : maxIdx < entries.length) (count index : Nat) :
    slotAt entries index ∈
        visited (fun slot : PollFd × Nat => slot.1.fd.isSome)
          (handleClient reads) count
          ((entries.zipIdx.take (maxIdx + 1)).drop 1) ↔
      index ∈ visitedSlots reads entries maxIdx count := by
  rw [visited_eq inside]
  exact List.mem_map_of_injective (slotAt_injective entries)

theorem effects_scanClients
    (inside : maxIdx < entries.length) (count : Nat) :
    (scanClients reads (count + 1 : Nat) entries maxIdx).effects =
      (visitedSlots reads entries maxIdx (count + 1)).flatMap fun index =>
        (handleClient reads (slotAt entries index)).effects := by
  have reached :
      visited (fun slot : PollFd × Nat => slot.1.fd.isSome)
          (handleClient reads) (count + 1)
          ((entries.zipIdx.take (maxIdx + 1)).drop 1) =
        (visitedSlots reads entries maxIdx (count + 1)).map
          (slotAt entries) :=
    visited_eq inside (count + 1)
  unfold visited at reached
  unfold scanClients
  simp only [scan_effects]
  rw [reached, List.flatMap_map]

theorem exited_scanClients
    (inside : maxIdx < entries.length) (count : Nat) :
    (scanClients reads (count + 1 : Nat) entries maxIdx).exited =
      (visitedSlots reads entries maxIdx (count + 1)).any
        (readEnds entries reads) := by
  unfold scanClients
  simp only [scan_ended]
  rw [visited_eq inside, List.any_map]
  rfl

/-- An array with other entries from 1 up to some index. -/
theorem entryAt_replaced
    (inside : maxIdx < entries.length) {after : Nat → PollFd}
    (others :
      ∀ index, ¬ (1 ≤ index ∧ index ≤ maxIdx) →
        after index = entryAt entries index)
    (index : Nat) :
    entryAt
        (entries.take 1 ++ (List.range' 1 maxIdx).map after ++
          entries.drop (maxIdx + 1)) index =
      after index := by
  have first : (entries.take 1).length = 1 := by
    rw [List.length_take]
    omega
  have middle :
      (entries.take 1 ++ (List.range' 1 maxIdx).map after).length =
        1 + maxIdx := by
    rw [List.length_append, first, List.length_map, List.length_range']
  unfold entryAt at others ⊢
  rw [List.getD_eq_getElem?_getD]
  rcases Nat.lt_or_ge maxIdx index with above | within
  · rw [others index (by omega), List.getElem?_append_right (by omega),
      middle, List.getElem?_drop, List.getD_eq_getElem?_getD]
    congr 2
    omega
  · rw [List.getElem?_append_left (by omega)]
    cases index with
    | zero =>
        rw [others 0 (by omega), List.getElem?_append_left (by omega),
          List.getElem?_take_of_lt (Nat.one_pos), List.getD_eq_getElem?_getD]
    | succ index =>
        rw [List.getElem?_append_right (by omega), first,
          List.getElem?_map, List.getElem?_range' (by omega)]
        rw [Option.map_some, Option.getD_some]
        congr 1
        omega

/-- The loop changes the slots that it handles. -/
theorem entryAt_scanClients
    (inside : maxIdx < entries.length) (count index : Nat) :
    entryAt (scanClients reads (count + 1 : Nat) entries maxIdx).entries
        index =
      if index ∈ visitedSlots reads entries maxIdx (count + 1) then
        (handleClient reads (slotAt entries index)).item.1
      else
        entryAt entries index := by
  have nodup :
      ((entries.zipIdx.take (maxIdx + 1)).drop 1).Nodup := by
    rw [slots_eq inside]
    exact List.Nodup.map (slotAt_injective entries) List.nodup_range'
  have items :
      (scan (fun slot : PollFd × Nat => slot.1.fd.isSome)
          (handleClient reads) (count + 1 : Nat)
          ((entries.zipIdx.take (maxIdx + 1)).drop 1)).items.map Prod.fst =
        (List.range' 1 maxIdx).map fun other =>
          if other ∈ visitedSlots reads entries maxIdx (count + 1) then
            (handleClient reads (slotAt entries other)).item.1
          else
            entryAt entries other := by
    rw [scan_items nodup, List.map_map]
    conv_lhs => rw [slots_eq inside, List.map_map]
    refine List.map_congr_left fun other _ => ?_
    simp only [← slots_eq inside, Function.comp_apply, mem_visited_iff inside]
    split <;> rfl
  simp only [scanClients]
  rw [items]
  refine entryAt_replaced inside (fun other outside => ?_) index
  refine if_neg fun member => outside ?_
  exact ⟨(mem_visitedSlots member).1, (mem_visitedSlots member).2.1⟩

end Loop

/-- The array when the loop over the clients begins, and how many clients are
ready. -/
structure Prepared where
  entries : List PollFd
  maxIdx : Nat
  count : Nat

namespace Prepared

/-- The loop, which does not begin where no client is ready. -/
def serve (prepared : Prepared) (reads : Nat → ReadResult) : PollOutcome :=
  if prepared.count = 0 then
    ⟨prepared.entries, prepared.maxIdx, [], false⟩
  else
    scanClients reads prepared.count prepared.entries prepared.maxIdx

def visited (prepared : Prepared) (reads : Nat → ReadResult) : List Nat :=
  visitedSlots reads prepared.entries prepared.maxIdx prepared.count

variable {prepared : Prepared} {reads : Nat → ReadResult}

theorem visited_of_none (none : prepared.count = 0) :
    prepared.visited reads = [] := by
  unfold visited visitedSlots
  rw [none, List.take_zero]
  rfl

theorem effects_serve
    (inside : prepared.maxIdx < prepared.entries.length) :
    (prepared.serve reads).effects =
      (prepared.visited reads).flatMap fun index =>
        (handleClient reads (slotAt prepared.entries index)).effects := by
  cases counted : prepared.count with
  | zero =>
      rw [visited_of_none counted, serve, if_pos counted]
      rfl
  | succ count =>
      rw [serve, if_neg (by omega), visited, counted]
      exact effects_scanClients inside count

theorem exited_serve
    (inside : prepared.maxIdx < prepared.entries.length) :
    (prepared.serve reads).exited =
      (prepared.visited reads).any (readEnds prepared.entries reads) := by
  cases counted : prepared.count with
  | zero =>
      rw [visited_of_none counted, serve, if_pos counted]
      rfl
  | succ count =>
      rw [serve, if_neg (by omega), visited, counted]
      exact exited_scanClients inside count

theorem entryAt_serve
    (inside : prepared.maxIdx < prepared.entries.length) (index : Nat) :
    entryAt (prepared.serve reads).entries index =
      if index ∈ prepared.visited reads then
        (handleClient reads (slotAt prepared.entries index)).item.1
      else
        entryAt prepared.entries index := by
  cases counted : prepared.count with
  | zero =>
      rw [visited_of_none counted, serve, if_pos counted,
        if_neg List.not_mem_nil]
  | succ count =>
      rw [serve, if_neg (by omega), visited, counted]
      exact entryAt_scanClients inside count index

end Prepared

/-- What `Accept` and the calls of `Read` return in a turn, what the clients
take of what is written to them, and for which descriptors a `Write` is met
with SIGPIPE. -/
structure PollTurn where
  chosen : Nat → Bool
  accepted : Option Nat
  reads : Nat → ReadResult
  taken : Nat → Nat
  gone : Nat → Bool

namespace ClientTable

variable {table : ClientTable} {turn : PollTurn}

def readyClients (table : ClientTable) (turn : PollTurn) : Nat :=
  (List.range' 1 table.maxIdx).countP (table.reported turn.chosen)

/-- The part of a turn in front of the loop over the clients; there is none
where the program ends. -/
def prepare (table : ClientTable) (turn : PollTurn) : Option Prepared :=
  if table.reported turn.chosen 0 then
    turn.accepted.bind fun clientFd =>
      (freeIndex table.entries).map fun index =>
        ⟨table.filled turn.chosen index clientFd, max table.maxIdx index,
          table.readyClients turn⟩
  else
    some ⟨table.polled turn.chosen, table.maxIdx, table.readyClients turn⟩

/-- A turn of `main`. -/
def outcome (table : ClientTable) (turn : PollTurn) : PollOutcome :=
  table.handlePoll turn.chosen turn.accepted turn.reads

theorem outcome_of_prepare
    {prepared : Prepared} (isPrepared : table.prepare turn = some prepared) :
    table.outcome turn = prepared.serve turn.reads := by
  unfold prepare at isPrepared
  split at isPrepared
  · next listens =>
      obtain ⟨clientFd, accepted, isPrepared⟩ :=
        Option.bind_eq_some_iff.mp isPrepared
      obtain ⟨index, free, rfl⟩ := Option.map_eq_some_iff.mp isPrepared
      unfold outcome
      rw [accepted, handlePoll_of_filled listens rfl free]
      rfl
  · next notReported =>
      cases isPrepared
      have quiet := eq_false_of_ne_true notReported
      unfold outcome Prepared.serve
      cases counted : table.readyClients turn with
      | zero =>
          have nready : table.nready turn.chosen = 0 := by
            have none :
                (List.range' 1 table.maxIdx).countP
                  (table.reported turn.chosen) = 0 :=
              counted
            rw [nready_eq, none, quiet, if_neg Bool.false_ne_true]
            rfl
          unfold handlePoll
          rw [nready, if_pos (Int.le_refl 0), if_pos rfl]
      | succ count =>
          rw [handlePoll_of_quiet quiet counted, if_neg (Nat.succ_ne_zero _)]

theorem outcome_of_refused
    (refused : table.prepare turn = none) :
    (turn.accepted = none ∨ freeIndex table.entries = none) ∧
      (table.outcome turn).entries = table.polled turn.chosen ∧
        (table.outcome turn).effects = [] ∧
          (table.outcome turn).exited = true := by
  unfold prepare at refused
  split at refused
  · next listens =>
      have cause : turn.accepted = none ∨ freeIndex table.entries = none := by
        cases accepted : turn.accepted with
        | none => exact Or.inl rfl
        | some clientFd =>
            rw [accepted, Option.bind_some, Option.map_eq_none_iff] at refused
            exact Or.inr refused
      refine ⟨cause, ?_⟩
      unfold outcome handlePoll
      rw [nready_of_listens listens rfl, if_neg (by omega),
        listening_pollin, listens, if_pos rfl, freeIndex_polled]
      rcases cause with none | full
      · rw [none]
        exact ⟨rfl, rfl, rfl⟩
      · rw [full]
        cases turn.accepted <;> exact ⟨rfl, rfl, rfl⟩
  · cases refused

/-- What stands in the array when the loop over the clients begins. -/
structure Prepares
    (table : ClientTable) (turn : PollTurn) (prepared : Prepared) :
    Prop where
  inside : prepared.maxIdx < prepared.entries.length
  zero : (entryAt prepared.entries 0).fd = (entryAt table.entries 0).fd
  others :
    (table.reported turn.chosen 0 = false ∧
        ∀ index, (entryAt prepared.entries index).fd =
          (entryAt table.entries index).fd) ∨
      table.reported turn.chosen 0 = true ∧
        ∃ clientFd index, turn.accepted = some clientFd ∧ 1 ≤ index ∧
          (entryAt table.entries index).fd = none ∧
            ∀ other, (entryAt prepared.entries other).fd =
              if index = other then some clientFd
              else (entryAt table.entries other).fd

theorem fd_polled (index : Nat) :
    (entryAt (table.polled turn.chosen) index).fd =
      (entryAt table.entries index).fd := by
  by_cases inside : index < maxClients
  · rw [table.entryAt_polled turn.chosen inside]
    split <;> rfl
  · have bound : table.entries.length ≤ index := by
      rw [table.size]
      exact Nat.le_of_not_lt inside
    have polledBound : (table.polled turn.chosen).length ≤ index := by
      rw [table.length_polled turn.chosen]
      exact Nat.le_of_not_lt inside
    unfold entryAt
    rw [List.getD_eq_default _ _ bound, List.getD_eq_default _ _ polledBound]

theorem prepares
    {prepared : Prepared} (isPrepared : table.prepare turn = some prepared) :
    Prepares table turn prepared := by
  unfold prepare at isPrepared
  split at isPrepared
  · next listens =>
      obtain ⟨clientFd, accepted, isPrepared⟩ :=
        Option.bind_eq_some_iff.mp isPrepared
      obtain ⟨index, free, rfl⟩ := Option.map_eq_some_iff.mp isPrepared
      obtain ⟨low, _, isFree, _⟩ := freeIndex_eq_some free
      have fds : ∀ other,
          (entryAt (table.filled turn.chosen index clientFd) other).fd =
            if index = other then some clientFd
            else (entryAt table.entries other).fd := by
        intro other
        rw [entryAt_filled free]
        split
        · rfl
        · exact fd_polled other
      refine
        ⟨?_, (fds 0).trans (if_neg (by omega)),
          Or.inr ⟨listens, clientFd, index, accepted, low, ?_, fds⟩⟩
      · have size := (table.filledTable turn.chosen clientFd free).size
        exact
          Nat.lt_of_lt_of_eq
            (table.filledTable turn.chosen clientFd free).inside size.symm
      · exact Option.not_isSome_iff_eq_none.mp (by
          intro used
          rw [occupied, used] at isFree
          cases isFree)
  · next quiet =>
      cases isPrepared
      exact
        ⟨Nat.lt_of_lt_of_eq table.inside (table.length_polled _).symm,
          fd_polled 0, Or.inl ⟨eq_false_of_ne_true quiet, fd_polled⟩⟩

def next (table : ClientTable) (turn : PollTurn) : ClientTable where
  entries := (table.outcome turn).entries
  maxIdx := (table.outcome turn).maxIdx
  size := by
    obtain ⟨next, entries, _⟩ :=
      exists_nextTable table turn.chosen turn.accepted turn.reads
    exact entries ▸ next.size
  inside := by
    obtain ⟨next, _, maxIdx⟩ :=
      exists_nextTable table turn.chosen turn.accepted turn.reads
    exact maxIdx ▸ next.inside
  listening := by
    obtain ⟨next, entries, _⟩ :=
      exists_nextTable table turn.chosen turn.accepted turn.reads
    exact entries ▸ next.listening
  below := by
    obtain ⟨next, entries, maxIdx⟩ :=
      exists_nextTable table turn.chosen turn.accepted turn.reads
    exact entries ▸ maxIdx ▸ next.below

end ClientTable

/-- `sizeof(buf)`. -/
def pollBufSize : Nat := 4096

def ReadResult.count : ReadResult → Nat
  | data bytes => bytes.length
  | closed | reset | failed => 0

/-- `main` and the connections that it has accepted. -/
structure PollSystem where
  table : ClientTable
  sockets : Sockets UInt8 UInt8
  exited : Bool

/-- A client sends or ends its stream, or `main` takes a turn.  What arrives
in the middle of a turn might have arrived before it. -/
inductive PollLabel where
  | arrives (conn : Nat) (bytes : List UInt8)
  | finishes (conn : Nat)
  | turn (turn : PollTurn)

/-- No `Read` returns more than the buffer holds, and the descriptors up to
the listening one are in use. -/
def PollTurn.Possible
    (turn : PollTurn) (listenFd : Nat) (table : ClientTable) : Prop :=
  (∀ index < table.maxIdx + 1, (turn.reads index).count ≤ pollBufSize) ∧
    ∀ clientFd ∈ turn.accepted, listenFd < clientFd

instance PollTurn.decidablePossible
    (turn : PollTurn) (listenFd : Nat) (table : ClientTable) :
    Decidable (turn.Possible listenFd table) := by
  unfold PollTurn.Possible
  infer_instance

/-- SIGPIPE meets a `Write` of what was read from the descriptor, be it the one
to the output. -/
def PollTurn.signals
    (turn : PollTurn) (fd : Nat) : Bool :=
  turn.gone 1 || turn.gone fd

/-- `Accept`, where `poll` reports the listening descriptor. -/
def acceptPolled
    (table : ClientTable) (turn : PollTurn) (sockets : Sockets UInt8 UInt8) :
    Option (Sockets UInt8 UInt8) :=
  if table.reported turn.chosen 0 then
    match turn.accepted with
    | none => some sockets
    | some clientFd => sockets.accept clientFd
  else
    some sockets

/-- The calls on the clients, with what they return, and whether SIGPIPE has
ended the program in the middle of them.  A connection that is reset has not
come to its end. -/
def performPolled (turn : PollTurn) :
    Sockets UInt8 UInt8 → List PollEffect →
      Option (Sockets UInt8 UInt8 × Bool)
  | sockets, [] => some (sockets, false)
  | sockets, .read index fd :: effects =>
      match turn.reads index with
      | .data bytes =>
          (sockets.read fd bytes.length).bind fun read =>
            if read.1 = bytes then performPolled turn read.2 effects else none
      | .closed =>
          if sockets.AtEnd fd then performPolled turn sockets effects
          else none
      | .reset =>
          if sockets.AtEnd fd then none
          else performPolled turn sockets effects
      | .failed => performPolled turn sockets effects
  | sockets, .write fd bytes :: effects =>
      if turn.gone fd then
        some (sockets, true)
      else
        performPolled turn (sockets.write fd (bytes.take (turn.taken fd)))
          effects
  | sockets, .close fd :: effects =>
      (if sockets.AtEnd fd then sockets.close fd
        else sockets.drop fd).bind fun sockets =>
          performPolled turn sockets effects

namespace PollSystem

/-- `clients` in front of the loop in `main`, which does not set `revents`. -/
def firstEntries (listenFd : Nat) (revents : Nat → Bool) : List PollFd :=
  ⟨some listenFd, revents 0⟩ ::
    (List.range' 1 1023).map fun index => ⟨none, revents index⟩

theorem eq_zero_of_occupied
    {first : PollFd} {others : List PollFd} {index : Nat}
    (free : ∀ entry ∈ others, entry.fd = none)
    (used : occupied (first :: others) index = true) : index = 0 := by
  cases index with
  | zero => rfl
  | succ index =>
      have behind : occupied others index = true := used
      have inside := occupied_lt_length behind
      rw [occupied_eq inside, free _ (List.getElem_mem inside)] at behind
      cases behind

theorem occupied_firstEntries
    {listenFd index : Nat} {revents : Nat → Bool}
    (used : occupied (firstEntries listenFd revents) index = true) :
    index = 0 := by
  refine eq_zero_of_occupied (fun entry member => ?_) used
  obtain ⟨_, _, rfl⟩ := List.mem_map.mp member
  rfl

def firstTable (listenFd : Nat) (revents : Nat → Bool) : ClientTable where
  entries := firstEntries listenFd revents
  maxIdx := 0
  size := by
    rw [firstEntries, List.length_cons, List.length_map, List.length_range']
    rfl
  inside := by decide
  listening := rfl
  below := fun _ used => Nat.le_of_eq (occupied_firstEntries used)

def start (listenFd : Nat) (revents : Nat → Bool) : PollSystem :=
  ⟨firstTable listenFd revents, .none, false⟩

def step (listenFd : Nat) (system : PollSystem) :
    PollLabel → Option PollSystem
  | .arrives conn bytes =>
      (system.sockets.arrive conn bytes).map fun sockets =>
        { system with sockets := sockets }
  | .finishes conn =>
      some { system with sockets := system.sockets.finish conn }
  | .turn turn =>
      if system.exited = false ∧ turn.Possible listenFd system.table then
        (acceptPolled system.table turn system.sockets).bind fun sockets =>
          (performPolled turn sockets
            (system.table.outcome turn).effects).map fun performed =>
              ⟨system.table.next turn, performed.1,
                (system.table.outcome turn).exited || performed.2⟩
      else
        none

/-- The clients in the array, each in one slot. -/
structure Holds
    (entries : List PollFd) (sockets : Sockets UInt8 UInt8) : Prop where
  exactly :
    ∀ fd, (∃ index, 1 ≤ index ∧ (entryAt entries index).fd = some fd) ↔
      sockets.IsOpen fd
  once :
    ∀ {index other fd}, 1 ≤ index → 1 ≤ other →
      (entryAt entries index).fd = some fd →
        (entryAt entries other).fd = some fd → index = other

/-- As long as the program runs, the array holds the open clients. -/
structure Valid (listenFd : Nat) (system : PollSystem) : Prop where
  coherent : system.sockets.Coherent
  above : ∀ {fd}, system.sockets.IsOpen fd → listenFd < fd
  listening : (entryAt system.table.entries 0).fd = some listenFd
  holds : system.exited = false → Holds system.table.entries system.sockets

section Dealings

variable {turn : PollTurn} {entries : List PollFd}
variable {sockets later : Sockets UInt8 UInt8} {killed : Bool}

def fdAt (entries : List PollFd) (index : Nat) : Nat :=
  (entryAt entries index).fd.getD 0

/-- What the loop does to the client in a slot.  Of what was read in front of
SIGPIPE nothing is sent back. -/
def dealingAt
    (turn : PollTurn) (entries : List PollFd) (index : Nat) :
    Dealing UInt8 :=
  if (entryAt entries index).pollin then
    match turn.reads index with
    | .data bytes =>
        .sendsBack bytes
          (if turn.signals (fdAt entries index) then 0
          else turn.taken (fdAt entries index))
    | .closed => .parts
    | .reset => .drops
    | .failed => .passes
  else
    .passes

/-- The program does not survive what it does to the client in a slot. -/
def killsAt (turn : PollTurn) (entries : List PollFd) (index : Nat) : Bool :=
  (entryAt entries index).pollin &&
    match turn.reads index with
    | .data _ => turn.signals (fdAt entries index)
    | .closed | .reset | .failed => false

def dealings
    (turn : PollTurn) (entries : List PollFd) (slots : List Nat) :
    List (Nat × Dealing UInt8) :=
  slots.map fun index => (fdAt entries index, dealingAt turn entries index)

/-- What was read from a client goes to the output and, in capital letters,
back to the client, unless SIGPIPE meets one of the two calls. -/
theorem deal_of_data
    (coherent : sockets.Coherent) (output : ¬ sockets.IsOpen 1)
    {index fd : Nat} {bytes : List UInt8} {effects : List PollEffect}
    (result : turn.reads index = .data bytes)
    (performed :
      performPolled turn sockets
          (.read index fd :: .write 1 bytes ::
            .write fd (bytes.map toupper) :: effects) =
        some (later, killed)) :
    ∃ middle,
      sockets.deal toupper fd
          (.sendsBack bytes
            (if turn.signals fd then 0 else turn.taken fd)) =
        some middle ∧
        if turn.signals fd then
          later = middle ∧ killed = true
        else
          performPolled turn middle effects = some (later, killed) := by
  simp only [performPolled, result] at performed
  obtain ⟨⟨items, read⟩, isRead, performed⟩ :=
    Option.bind_eq_some_iff.mp performed
  obtain ⟨same, performed⟩ := Option.ite_none_right_eq_some.mp performed
  have stillOutput : ¬ read.IsOpen 1 := by
    unfold Sockets.IsOpen
    rw [(coherent.read isRead).peerOf_eq]
    exact output
  rw [Sockets.write_of_not_isOpen stillOutput] at performed
  have dealt :
      ∀ taken, sockets.deal toupper fd (.sendsBack bytes taken) =
        some (read.write fd ((bytes.map toupper).take taken)) := by
    intro taken
    simp only [Sockets.deal, isRead, Option.bind_some]
    rw [if_pos same]
  refine ⟨_, dealt _, ?_⟩
  by_cases signalled : turn.signals fd = true
  · have either : turn.gone 1 = true ∨ turn.gone fd = true :=
      (Bool.or_eq_true _ _).mp signalled
    simp only [if_pos signalled, List.take_zero, Sockets.write_nil]
    by_cases outputGone : turn.gone 1 = true
    · rw [if_pos outputGone] at performed
      cases performed
      exact ⟨rfl, rfl⟩
    · rw [if_neg outputGone, if_pos (either.resolve_left outputGone)]
        at performed
      cases performed
      exact ⟨rfl, rfl⟩
  · have neither : ¬ turn.gone 1 = true ∧ ¬ turn.gone fd = true :=
      not_or.mp fun either =>
        signalled ((Bool.or_eq_true _ _).mpr either)
    simp only [if_neg signalled]
    rw [if_neg neither.1, if_neg neither.2] at performed
    exact performed

/-- The calls for a client are one dealing; descriptor 1 is not a client. -/
theorem deal_of_performed
    (coherent : sockets.Coherent) (output : ¬ sockets.IsOpen 1)
    {index fd : Nat} (holds : (entryAt entries index).fd = some fd)
    {effects : List PollEffect}
    (performed :
      performPolled turn sockets
          ((handleClient turn.reads (slotAt entries index)).effects ++
            effects) = some (later, killed)) :
    ∃ middle,
      sockets.deal toupper (fdAt entries index)
          (dealingAt turn entries index) = some middle ∧
        if killsAt turn entries index then
          later = middle ∧ killed = true
        else
          performPolled turn middle effects = some (later, killed) := by
  have isFd : fdAt entries index = fd := by
    unfold fdAt
    rw [holds]
    rfl
  unfold dealingAt killsAt
  cases pollin : (entryAt entries index).pollin with
  | false =>
      simp only [handleClient, slotAt, holds, pollin, Bool.false_eq_true,
        if_false, List.nil_append] at performed
      rw [if_neg Bool.false_ne_true, Bool.false_and]
      exact ⟨sockets, rfl, performed⟩
  | true =>
      rw [if_pos rfl, isFd, Bool.true_and]
      cases result : turn.reads index with
      | data bytes =>
          simp only [handleClient, slotAt, holds, pollin, if_true, result,
            List.cons_append, List.nil_append] at performed
          exact deal_of_data coherent output result performed
      | closed =>
          simp only [handleClient, slotAt, holds, pollin, if_true, result,
            List.cons_append, List.nil_append, performPolled] at performed
          obtain ⟨atEnd, performed⟩ :=
            Option.ite_none_right_eq_some.mp performed
          obtain ⟨middle, closed, performed⟩ :=
            Option.bind_eq_some_iff.mp performed
          rw [if_pos atEnd] at closed
          refine ⟨middle, ?_, performed⟩
          simp only [Sockets.deal]
          rw [if_pos atEnd, closed]
      | reset =>
          simp only [handleClient, slotAt, holds, pollin, if_true, result,
            List.cons_append, List.nil_append, performPolled] at performed
          obtain ⟨notEnd, performed⟩ :=
            Option.ite_none_left_eq_some.mp performed
          obtain ⟨middle, dropped, performed⟩ :=
            Option.bind_eq_some_iff.mp performed
          rw [if_neg notEnd] at dropped
          exact ⟨middle, dropped, performed⟩
      | failed =>
          simp only [handleClient, slotAt, holds, pollin, if_true, result,
            List.cons_append, List.nil_append, performPolled] at performed
          exact ⟨sockets, rfl, performed⟩

/-- The loop comes to an end behind SIGPIPE. -/
theorem dealAll_of_performed
    (coherent : sockets.Coherent) (output : ¬ sockets.IsOpen 1)
    {slots : List Nat} (used : ∀ index ∈ slots, occupied entries index = true)
    (performed :
      performPolled turn sockets
          (slots.flatMap fun index =>
            (handleClient turn.reads (slotAt entries index)).effects) =
        some (later, killed)) :
    sockets.dealAll toupper
          (dealings turn entries
            (untilEnd (killsAt turn entries) slots)) = some later ∧
      killed = slots.any (killsAt turn entries) := by
  induction slots generalizing sockets with
  | nil =>
      cases performed
      exact ⟨rfl, rfl⟩
  | cons index slots inductionHypothesis =>
      obtain ⟨here, others⟩ := List.forall_mem_cons.mp used
      obtain ⟨fd, holds⟩ := Option.isSome_iff_exists.mp here
      rw [List.flatMap_cons] at performed
      obtain ⟨middle, isDealt, performed⟩ :=
        deal_of_performed coherent output holds performed
      unfold dealings
      rw [untilEnd, List.any_cons]
      cases kills : killsAt turn entries index with
      | true =>
          rw [kills, if_pos rfl] at performed
          obtain ⟨rfl, rfl⟩ := performed
          rw [if_pos rfl, List.map_singleton, Sockets.dealAll, isDealt]
          exact ⟨rfl, rfl⟩
      | false =>
          rw [kills, if_neg Bool.false_ne_true] at performed
          have dealt := Sockets.dealt_deal isDealt
          rw [if_neg Bool.false_ne_true, List.map_cons, Sockets.dealAll,
            isDealt, Bool.false_or]
          refine
            inductionHypothesis (dealt.coherent coherent) ?_ others performed
          intro isOpen
          exact output ((dealt.isOpen_iff coherent 1).mp isOpen).1

/-- The client leaves its slot where its connection is closed. -/
theorem fd_handleClient
    {index : Nat} (reads : Nat → ReadResult)
    (sameReads : turn.reads = reads) :
    (handleClient reads (slotAt entries index)).item.1.fd =
      if (dealingAt turn entries index).Leaves then none
      else (entryAt entries index).fd := by
  subst sameReads
  unfold dealingAt
  cases holds : (entryAt entries index).fd with
  | none =>
      simp only [handleClient, slotAt, holds]
      exact (ite_self _).symm
  | some fd =>
      cases pollin : (entryAt entries index).pollin with
      | false =>
          simp [handleClient, slotAt, holds, pollin, Dealing.Leaves]
      | true =>
          cases result : turn.reads index
          all_goals
            simp [handleClient, slotAt, holds, pollin, result, Dealing.Leaves]

end Dealings

/-! ## The invariant -/

section Turn

variable {listenFd : Nat} {system next : PollSystem} {turn : PollTurn}
variable {joined : Sockets UInt8 UInt8} {killed : Bool}
variable {prepared : Prepared}

structure Turned
    (listenFd : Nat) (system : PollSystem) (turn : PollTurn)
    (joined : Sockets UInt8 UInt8) (killed : Bool) (next : PollSystem) :
    Prop where
  running : system.exited = false
  possible : turn.Possible listenFd system.table
  joins : acceptPolled system.table turn system.sockets = some joined
  performed :
    performPolled turn joined (system.table.outcome turn).effects =
      some (next.sockets, killed)
  table_eq : next.table = system.table.next turn
  exited_eq :
    next.exited = ((system.table.outcome turn).exited || killed)

theorem turned_of_step
    (stepped : system.step listenFd (.turn turn) = some next) :
    ∃ joined killed, Turned listenFd system turn joined killed next := by
  obtain ⟨⟨running, possible⟩, stepped⟩ :=
    Option.ite_none_right_eq_some.mp stepped
  obtain ⟨joined, joins, stepped⟩ := Option.bind_eq_some_iff.mp stepped
  obtain ⟨⟨sockets, killed⟩, performed, rfl⟩ :=
    Option.map_eq_some_iff.mp stepped
  exact ⟨joined, killed, running, possible, joins, performed, rfl, rfl⟩

/-- `Accept` is called at most once in a turn. -/
theorem Turned.accept
    (turned : Turned listenFd system turn joined killed next) :
    joined = system.sockets ∧
        (system.table.reported turn.chosen 0 = false ∨
          turn.accepted = none) ∨
      system.table.reported turn.chosen 0 = true ∧
        ∃ clientFd, turn.accepted = some clientFd ∧
          system.sockets.accept clientFd = some joined := by
  have joins := turned.joins
  unfold acceptPolled at joins
  split at joins
  · next listens =>
      split at joins
      · next none =>
          cases joins
          exact Or.inl ⟨rfl, Or.inr none⟩
      · next clientFd accepted => exact Or.inr ⟨listens, clientFd, accepted, joins⟩
  · next quiet =>
      cases joins
      exact Or.inl ⟨rfl, Or.inl (eq_false_of_ne_true quiet)⟩

/-- The connections behind `Accept`. -/
structure Joined (listenFd : Nat) (sockets : Sockets UInt8 UInt8) : Prop where
  coherent : sockets.Coherent
  above : ∀ {fd}, sockets.IsOpen fd → listenFd < fd

theorem Valid.isJoined
    (valid : Valid listenFd system)
    (turned : Turned listenFd system turn joined killed next) :
    Joined listenFd joined := by
  rcases turned.accept with ⟨rfl, _⟩ | ⟨_, clientFd, accepted, joins⟩
  · exact ⟨valid.coherent, valid.above⟩
  · refine ⟨valid.coherent.accept joins, fun {fd} isOpen => ?_⟩
    obtain ⟨_, rfl⟩ := Sockets.accept_eq_some joins
    rcases Sockets.isOpen_joined.mp isOpen with rfl | old
    · exact turned.possible.2 fd accepted
    · exact valid.above old

theorem Joined.output
    (isJoined : Joined listenFd joined) (positive : 0 < listenFd) :
    ¬ joined.IsOpen 1 :=
  fun isOpen => Nat.not_lt.mpr positive (isJoined.above isOpen)

/-- A client is stored in a free slot. -/
theorem Holds.stored
    {entries after : List PollFd} {sockets : Sockets UInt8 UInt8}
    {clientFd index : Nat} (holds : Holds entries sockets)
    (closed : sockets.peerOf clientFd = none) (low : 1 ≤ index)
    (free : (entryAt entries index).fd = none)
    (fds :
      ∀ other, (entryAt after other).fd =
        if index = other then some clientFd
        else (entryAt entries other).fd) :
    Holds after (sockets.joined clientFd) := by
  have notHeld :
      ∀ {other}, 1 ≤ other → (entryAt entries other).fd ≠ some clientFd := by
    intro other otherLow held
    obtain ⟨conn, isPeer⟩ := (holds.exactly clientFd).mp ⟨other, otherLow, held⟩
    rw [closed] at isPeer
    cases isPeer
  refine ⟨fun fd => ?_, ?_⟩
  · rw [Sockets.isOpen_joined, ← holds.exactly]
    constructor
    · rintro ⟨other, otherLow, held⟩
      rw [fds] at held
      by_cases same : index = other
      · rw [if_pos same] at held
        exact Or.inl (Option.some.inj held).symm
      · rw [if_neg same] at held
        exact Or.inr ⟨other, otherLow, held⟩
    · rintro (rfl | ⟨other, otherLow, held⟩)
      · exact ⟨index, low, (fds index).trans (if_pos rfl)⟩
      · refine ⟨other, otherLow, (fds other).trans ?_⟩
        rw [if_neg]
        · exact held
        · rintro rfl
          rw [free] at held
          cases held
  · intro one other fd oneLow otherLow isOne isOther
    rw [fds] at isOne isOther
    by_cases first : index = one
    · by_cases second : index = other
      · exact first.symm.trans second
      · rw [if_pos first] at isOne
        rw [if_neg second, ← isOne] at isOther
        exact absurd isOther (notHeld otherLow)
    · rw [if_neg first] at isOne
      by_cases second : index = other
      · rw [if_pos second] at isOther
        rw [← isOther] at isOne
        exact absurd isOne (notHeld oneLow)
      · rw [if_neg second] at isOther
        exact holds.once oneLow otherLow isOne isOther

/-- A new client stands in its slot before the loop begins. -/
theorem Valid.holds_prepared
    (valid : Valid listenFd system)
    (turned : Turned listenFd system turn joined killed next)
    (isPrepared : system.table.prepare turn = some prepared) :
    Holds prepared.entries joined := by
  have holds := valid.holds turned.running
  rcases (ClientTable.prepares isPrepared).others with
    ⟨quiet, same⟩ | ⟨listens, clientFd, index, accepted, low, free, fds⟩
  · rcases turned.accept with ⟨rfl, _⟩ | ⟨listens, _⟩
    · exact
        ⟨fun fd => by simp only [same, holds.exactly],
          fun {index other fd} low otherLow isFd otherFd =>
            holds.once low otherLow ((same index).symm.trans isFd)
              ((same other).symm.trans otherFd)⟩
    · rw [quiet] at listens
      cases listens
  · rcases turned.accept with ⟨_, quiet | none⟩ | ⟨_, other, same, joins⟩
    · rw [listens] at quiet
      cases quiet
    · rw [accepted] at none
      cases none
    · cases Option.some.inj (accepted.symm.trans same)
      obtain ⟨closed, rfl⟩ := Sockets.accept_eq_some joins
      exact holds.stored closed low free fds

/-- The slots that the loop comes to, SIGPIPE included. -/
def reached (prepared : Prepared) (turn : PollTurn) : List Nat :=
  untilEnd (killsAt turn prepared.entries) (prepared.visited turn.reads)

theorem Valid.performed
    (valid : Valid listenFd system) (positive : 0 < listenFd)
    (turned : Turned listenFd system turn joined killed next)
    (isPrepared : system.table.prepare turn = some prepared) :
    joined.dealAll toupper
          (dealings turn prepared.entries (reached prepared turn)) =
        some next.sockets ∧
      killed =
        (prepared.visited turn.reads).any
          (killsAt turn prepared.entries) := by
  have isJoined := valid.isJoined turned
  have inside := (ClientTable.prepares isPrepared).inside
  have performed := turned.performed
  rw [ClientTable.outcome_of_prepare isPrepared,
    Prepared.effects_serve inside] at performed
  exact
    dealAll_of_performed isJoined.coherent (isJoined.output positive)
      (fun index member => (mem_visitedSlots member).2.2) performed

theorem exists_dealing_iff
    {entries : List PollFd} {slots : List Nat} {fd : Nat} :
    (∃ dealing, (fd, dealing) ∈ dealings turn entries slots ∧
        dealing.Leaves) ↔
      ∃ index ∈ slots, fdAt entries index = fd ∧
        (dealingAt turn entries index).Leaves := by
  unfold dealings
  constructor
  · rintro ⟨dealing, member, leaves⟩
    obtain ⟨index, inSlots, same⟩ := List.mem_map.mp member
    cases same
    exact ⟨index, inSlots, rfl, leaves⟩
  · rintro ⟨index, inSlots, rfl, leaves⟩
    exact ⟨_, List.mem_map.mpr ⟨index, inSlots, rfl⟩, leaves⟩

/-- The loop keeps the clients that stay in their slots. -/
theorem Holds.served
    {sockets later : Sockets UInt8 UInt8}
    (holds : Holds prepared.entries sockets) (coherent : sockets.Coherent)
    (inside : prepared.maxIdx < prepared.entries.length)
    (dealt :
      sockets.dealAll toupper
          (dealings turn prepared.entries (prepared.visited turn.reads)) =
        some later) :
    Holds (prepared.serve turn.reads).entries later := by
  have fds : ∀ index,
      (entryAt (prepared.serve turn.reads).entries index).fd =
        if index ∈ prepared.visited turn.reads ∧
            (dealingAt turn prepared.entries index).Leaves then
          none
        else
          (entryAt prepared.entries index).fd := by
    intro index
    rw [Prepared.entryAt_serve inside]
    by_cases handled : index ∈ prepared.visited turn.reads
    · rw [if_pos handled, fd_handleClient turn.reads rfl]
      simp only [handled, true_and]
    · rw [if_neg handled, if_neg fun both => handled both.1]
  have stays : ∀ {index fd},
      (entryAt (prepared.serve turn.reads).entries index).fd = some fd →
        (entryAt prepared.entries index).fd = some fd ∧
          ¬ (index ∈ prepared.visited turn.reads ∧
            (dealingAt turn prepared.entries index).Leaves) := by
    intro index fd held
    rw [fds] at held
    obtain ⟨notLeft, held⟩ := Option.ite_none_left_eq_some.mp held
    exact ⟨held, notLeft⟩
  refine ⟨fun fd => ?_, fun low otherLow isFd otherFd => ?_⟩
  · rw [Sockets.isOpen_dealAll_iff coherent dealt, exists_dealing_iff,
      ← holds.exactly]
    constructor
    · rintro ⟨index, low, held⟩
      obtain ⟨held, notLeft⟩ := stays held
      refine ⟨⟨index, low, held⟩, ?_⟩
      rintro ⟨other, handled, isFd, leaves⟩
      obtain ⟨otherLow, _, used⟩ := mem_visitedSlots handled
      obtain ⟨otherFd, otherHeld⟩ := Option.isSome_iff_exists.mp used
      have same : otherFd = fd := by
        unfold fdAt at isFd
        rw [otherHeld] at isFd
        exact isFd
      subst same
      cases holds.once low otherLow held otherHeld
      exact notLeft ⟨handled, leaves⟩
    · rintro ⟨⟨index, low, held⟩, notLeft⟩
      refine ⟨index, low, (fds index).trans ?_⟩
      rw [if_neg]
      · exact held
      · rintro ⟨handled, leaves⟩
        refine notLeft ⟨index, handled, ?_, leaves⟩
        unfold fdAt
        rw [held]
        rfl
  · exact holds.once low otherLow (stays isFd).1 (stays otherFd).1

theorem entries_next
    (turned : Turned listenFd system turn joined killed next) :
    next.table.entries = (system.table.outcome turn).entries :=
  congrArg ClientTable.entries turned.table_eq

theorem Valid.step_turn
    (valid : Valid listenFd system) (positive : 0 < listenFd)
    (turned : Turned listenFd system turn joined killed next) :
    Valid listenFd next := by
  have isJoined := valid.isJoined turned
  have entries := entries_next turned
  cases isPrepared : system.table.prepare turn with
  | none =>
      obtain ⟨_, kept, idle, exits⟩ :=
        ClientTable.outcome_of_refused isPrepared
      have performed := turned.performed
      rw [idle] at performed
      cases performed
      refine ⟨isJoined.coherent, isJoined.above, ?_, fun running => ?_⟩
      · rw [entries, kept, ClientTable.fd_polled]
        exact valid.listening
      · rw [turned.exited_eq, exits, Bool.true_or] at running
        cases running
  | some prepared =>
      have prepares := ClientTable.prepares isPrepared
      obtain ⟨dealt, isKilled⟩ := valid.performed positive turned isPrepared
      rw [ClientTable.outcome_of_prepare isPrepared] at entries
      refine ⟨isJoined.coherent.dealAll dealt, fun {fd} isOpen => ?_, ?_, ?_⟩
      · exact
          isJoined.above
            ((Sockets.isOpen_dealAll_iff isJoined.coherent dealt fd).mp
              isOpen).1
      · have notHandled : 0 ∉ prepared.visited turn.reads :=
          fun handled => Nat.not_succ_le_zero 0 (mem_visitedSlots handled).1
        rw [entries, Prepared.entryAt_serve prepares.inside,
          if_neg notHandled, prepares.zero]
        exact valid.listening
      · intro running
        rw [turned.exited_eq, Bool.or_eq_false_iff] at running
        have same : reached prepared turn = prepared.visited turn.reads :=
          untilEnd_of_none (isKilled ▸ running.2)
        rw [same] at dealt
        rw [entries]
        exact
          (valid.holds_prepared turned isPrepared).served isJoined.coherent
            prepares.inside dealt

theorem Valid.of_kept
    {sockets : Sockets UInt8 UInt8} (valid : Valid listenFd system)
    (kept : system.sockets.Kept sockets) :
    Valid listenFd { system with sockets := sockets } := by
  have same : ∀ fd, sockets.IsOpen fd ↔ system.sockets.IsOpen fd := by
    intro fd
    unfold Sockets.IsOpen
    rw [kept.peerOf_eq]
  refine
    ⟨kept.coherent, fun isOpen => valid.above ((same _).mp isOpen),
      valid.listening, fun running => ?_⟩
  have holds := valid.holds running
  exact
    ⟨fun fd => (holds.exactly fd).trans (same fd).symm, holds.once⟩

theorem Valid.step
    {label : PollLabel} (positive : 0 < listenFd)
    (valid : Valid listenFd system)
    (stepped : system.step listenFd label = some next) :
    Valid listenFd next := by
  cases label with
  | arrives conn bytes =>
      obtain ⟨sockets, arrived, rfl⟩ := Option.map_eq_some_iff.mp stepped
      exact valid.of_kept (valid.coherent.arrive arrived)
  | finishes conn =>
      cases stepped
      exact valid.of_kept (valid.coherent.finish conn)
  | turn turn =>
      obtain ⟨joined, killed, turned⟩ := turned_of_step stepped
      exact valid.step_turn positive turned

theorem valid_start (listenFd : Nat) (revents : Nat → Bool) :
    Valid listenFd (start listenFd revents) := by
  refine ⟨Sockets.coherent_none, nofun, rfl, fun _ => ?_⟩
  have empty : ∀ index fd, 1 ≤ index →
      (entryAt (firstEntries listenFd revents) index).fd ≠ some fd := by
    intro index fd low held
    have used : occupied (firstEntries listenFd revents) index = true := by
      unfold occupied
      rw [held]
      rfl
    exact absurd (occupied_firstEntries used) (Nat.ne_of_gt low)
  refine ⟨fun fd => iff_of_false ?_ nofun, fun low _ held _ => ?_⟩
  · rintro ⟨index, low, held⟩
    exact empty index fd low held
  · exact absurd held (empty _ _ low)

end Turn

/-! ## The end of the program -/

section Exit

variable {listenFd : Nat} {system next : PollSystem} {turn : PollTurn}
variable {joined : Sockets UInt8 UInt8} {killed : Bool}
variable {prepared : Prepared}

/-- What ends the program in a turn: a new connection that `Accept` fails for
or that finds every slot taken by an open client, or, for a client that `poll`
reports and that the loop comes to, a `Read` that fails or a `Write` of what
was read that SIGPIPE meets. -/
def Fatal (system : PollSystem) (turn : PollTurn) : Prop :=
  system.table.reported turn.chosen 0 = true ∧
      (turn.accepted = none ∨
        ∀ index, 1 ≤ index → index < maxClients →
          ∃ fd, (entryAt system.table.entries index).fd = some fd ∧
            system.sockets.IsOpen fd) ∨
    ∃ prepared, system.table.prepare turn = some prepared ∧
      ∃ index ∈ reached prepared turn,
        system.table.reported turn.chosen index = true ∧
          (turn.reads index = .failed ∨
            (∃ bytes, turn.reads index = .data bytes) ∧
              turn.signals (fdAt prepared.entries index) = true)

theorem killsAt_eq_true
    {entries : List PollFd} {index : Nat}
    (kills : killsAt turn entries index = true) :
    (entryAt entries index).pollin = true ∧
      (∃ bytes, turn.reads index = .data bytes) ∧
        turn.signals (fdAt entries index) = true := by
  obtain ⟨pollin, kills⟩ := Bool.and_eq_true_iff.mp kills
  refine ⟨pollin, ?_⟩
  cases result : turn.reads index with
  | data bytes =>
      rw [result] at kills
      exact ⟨⟨bytes, rfl⟩, kills⟩
  | closed | reset | failed =>
      rw [result] at kills
      cases kills

/-- The bits that the loop looks at are those that `poll` has just set. -/
theorem pollin_visited
    {table : ClientTable} {index : Nat}
    (isPrepared : table.prepare turn = some prepared)
    (handled : index ∈ prepared.visited turn.reads) :
    (entryAt prepared.entries index).pollin =
      table.reported turn.chosen index := by
  have member := untilEnd_subset _ _ handled
  unfold ClientTable.prepare at isPrepared
  split at isPrepared
  · obtain ⟨clientFd, _, isPrepared⟩ := Option.bind_eq_some_iff.mp isPrepared
    obtain ⟨free, isFree, rfl⟩ := Option.map_eq_some_iff.mp isPrepared
    exact ClientTable.pollin_filled isFree rfl member
  · cases isPrepared
    have high := (mem_visitedSlots handled).2.1
    rw [table.entryAt_polled turn.chosen
      (Nat.lt_of_le_of_lt high table.inside), if_pos high]

/-- No slot is free where each holds a client. -/
theorem occupied_of_full
    {entries : List PollFd} (full : freeIndex entries = none) {index : Nat}
    (low : 1 ≤ index) (inside : index < entries.length) :
    occupied entries index = true := by
  unfold freeIndex at full
  rw [Option.map_eq_none_iff, List.findIdx?_eq_none_iff] at full
  have member : entries[index] ∈ entries.drop 1 := by
    refine List.mem_iff_getElem.mpr ⟨index - 1, ?_, ?_⟩
    · rw [List.length_drop]
      omega
    · rw [List.getElem_drop]
      congr 1
      omega
  rw [occupied_eq inside]
  have used := full _ member
  rwa [Option.isNone_eq_false_iff] at used

theorem Valid.fatal_of_exits
    (valid : Valid listenFd system) (positive : 0 < listenFd)
    (turned : Turned listenFd system turn joined killed next)
    (exits : next.exited = true) : system.Fatal turn := by
  have holds := valid.holds turned.running
  rw [turned.exited_eq] at exits
  cases isPrepared : system.table.prepare turn with
  | none =>
      have listens : system.table.reported turn.chosen 0 = true := by
        unfold ClientTable.prepare at isPrepared
        by_contra quiet
        rw [if_neg quiet] at isPrepared
        cases isPrepared
      refine Or.inl ⟨listens, ?_⟩
      rcases (ClientTable.outcome_of_refused isPrepared).1 with none | full
      · exact Or.inl none
      · refine Or.inr fun index low inside => ?_
        have used :=
          occupied_of_full full low
            (Nat.lt_of_lt_of_eq inside system.table.size.symm)
        obtain ⟨fd, held⟩ := Option.isSome_iff_exists.mp used
        exact ⟨fd, held, (holds.exactly fd).mp ⟨index, low, held⟩⟩
  | some prepared =>
      have inside := (ClientTable.prepares isPrepared).inside
      obtain ⟨_, isKilled⟩ := valid.performed positive turned isPrepared
      rw [ClientTable.outcome_of_prepare isPrepared,
        Prepared.exited_serve inside] at exits
      refine Or.inr ⟨prepared, isPrepared, ?_⟩
      -- SIGPIPE comes before a `Read` that fails behind it
      cases signalled : killed with
      | true =>
          rw [isKilled] at signalled
          obtain ⟨index, inReached, kills⟩ := exists_mem_untilEnd signalled
          obtain ⟨pollin, read, signals⟩ := killsAt_eq_true kills
          have handled := untilEnd_subset _ _ inReached
          rw [pollin_visited isPrepared handled] at pollin
          exact ⟨index, inReached, pollin, Or.inr ⟨read, signals⟩⟩
      | false =>
          rw [signalled, Bool.or_false, List.any_eq_true] at exits
          obtain ⟨index, handled, ends⟩ := exits
          obtain ⟨_, pollin, fails⟩ := readEnds_iff.mp ends
          rw [pollin_visited isPrepared handled] at pollin
          have inReached : index ∈ reached prepared turn := by
            unfold reached
            rw [untilEnd_of_none (isKilled ▸ signalled)]
            exact handled
          exact ⟨index, inReached, pollin, Or.inl fails⟩

/-- Behind its end the program takes no turn. -/
theorem no_turn_of_exited
    {labels : List PollLabel} {last : PollSystem}
    (exited : system.exited = true)
    (ran : run (step listenFd) system labels = some last)
    (turn : PollTurn) : .turn turn ∉ labels := by
  induction labels generalizing system with
  | nil => exact List.not_mem_nil
  | cons label labels inductionHypothesis =>
      obtain ⟨next, stepped, rest⟩ :=
        (run_cons_eq_some_iff system last label labels).mp ran
      have quiet :
          next.exited = true ∧ PollLabel.turn turn ≠ label := by
        cases label with
        | arrives conn bytes =>
            obtain ⟨sockets, _, rfl⟩ := Option.map_eq_some_iff.mp stepped
            exact ⟨exited, nofun⟩
        | finishes conn =>
            cases stepped
            exact ⟨exited, nofun⟩
        | turn other =>
            obtain ⟨joined, killed, turned⟩ := turned_of_step stepped
            rw [turned.running] at exited
            cases exited
      intro member
      rcases List.mem_cons.mp member with same | later
      · exact quiet.2 same
      · exact inductionHypothesis quiet.1 rest later

end Exit

def firstTurn : PollTurn :=
  ⟨fun index => index == 0, some 4, fun _ => .failed, fun _ => 0,
    fun _ => false⟩

/-- A client that connects, sends `ab` and ends its stream. -/
def firstClient : List PollLabel :=
  [.turn firstTurn, .arrives 0 [97, 98], .finishes 0]

/-- `revents` as `main` finds them, with every bit set. -/
def dirty : Nat → Bool :=
  fun _ => true

/-- A turn in which no client is ready. -/
theorem step_of_idle
    {listenFd : Nat} {system : PollSystem} {turn : PollTurn}
    {prepared : Prepared} {sockets : Sockets UInt8 UInt8}
    (running : system.exited = false)
    (possible : turn.Possible listenFd system.table)
    (joins : acceptPolled system.table turn system.sockets = some sockets)
    (isPrepared : system.table.prepare turn = some prepared)
    (none : prepared.count = 0) :
    system.step listenFd (.turn turn) =
      some ⟨system.table.next turn, sockets, false⟩ := by
  have isOutcome :
      system.table.outcome turn =
        ⟨prepared.entries, prepared.maxIdx, [], false⟩ := by
    rw [ClientTable.outcome_of_prepare isPrepared, Prepared.serve, if_pos none]
  simp only [step]
  rw [if_pos ⟨running, possible⟩, joins, isOutcome]
  rfl

theorem possible_firstTurn :
    firstTurn.Possible 3 (firstTable 3 dirty) := by
  refine ⟨fun _ _ => Nat.zero_le _, fun _ accepted => ?_⟩
  cases accepted
  decide

theorem step_firstTurn :
    (start 3 dirty).step 3 (.turn firstTurn) =
      some
        ⟨(firstTable 3 dirty).next firstTurn, Sockets.none.joined 4,
          false⟩ := by
  have someClient :
      ∃ prepared, (firstTable 3 dirty).prepare firstTurn = some prepared ∧
        prepared.count = 0 :=
    ⟨_, rfl, rfl⟩
  obtain ⟨prepared, isPrepared, none⟩ := someClient
  exact step_of_idle rfl possible_firstTurn rfl isPrepared none

theorem run_firstClient :
    ∃ last, run (step 3) (start 3 dirty) firstClient = some last := by
  rw [firstClient, run, step_firstTurn]
  exact ⟨_, rfl⟩

section Echo

variable {listenFd : Nat} {system next : PollSystem} {turn : PollTurn}
variable {joined : Sockets UInt8 UInt8} {killed : Bool} {label : PollLabel}

/-- The connections; between two turns `main` has nothing in hand. -/
def view (system : PollSystem) : Service UInt8 UInt8 :=
  system.sockets.service fun _ => .nothing

def acceptActs (system : PollSystem) (turn : PollTurn) :
    List (Nat × Act UInt8) :=
  if system.table.reported turn.chosen 0 ∧ turn.accepted.isSome then
    [(system.sockets.next, .accepts)]
  else
    []

def loopActs
    (system : PollSystem) (turn : PollTurn) (joined : Sockets UInt8 UInt8) :
    List (Nat × Act UInt8) :=
  match system.table.prepare turn with
  | none => []
  | some prepared =>
      joined.dealAllActs toupper
        (dealings turn prepared.entries (reached prepared turn))

def acts (system : PollSystem) : PollLabel → List (Nat × Act UInt8)
  | .arrives conn bytes => [(conn, .arrives bytes)]
  | .finishes conn => [(conn, .finishes)]
  | .turn turn =>
      match acceptPolled system.table turn system.sockets with
      | none => []
      | some joined => system.acceptActs turn ++ system.loopActs turn joined

/-- Each client takes all that is written to it in the turn, and SIGPIPE does
not keep it from that; descriptor 1 is the output of the program. -/
def TakesAll (system : PollSystem) : PollLabel → Prop
  | .turn turn =>
      ∀ fd bytes, .write fd bytes ∈ (system.table.outcome turn).effects →
        fd ≠ 1 → turn.signals fd = false ∧ bytes.length ≤ turn.taken fd
  | .arrives _ _ | .finishes _ => True

theorem run_acceptActs
    (valid : Valid listenFd system)
    (turned : Turned listenFd system turn joined killed next) :
    run (Service.step toupper) system.view (system.acceptActs turn) =
      some (joined.service fun _ => .nothing) := by
  unfold acceptActs
  rcases turned.accept with
    ⟨rfl, quiet | none⟩ | ⟨listens, clientFd, accepted, joins⟩
  · rw [quiet, if_neg fun both => Bool.false_ne_true both.1]
    rfl
  · rw [none, if_neg fun both => Bool.false_ne_true both.2]
    rfl
  · obtain ⟨_, rfl⟩ := Sockets.accept_eq_some joins
    rw [accepted, if_pos ⟨listens, rfl⟩, run_singleton_eq_some_iff]
    exact Sockets.service_accept valid.coherent

theorem stepsMeet_acceptActs
    (system : PollSystem) (turn : PollTurn) (service : Service UInt8 UInt8) :
    StepsMeet (Service.step toupper) Service.Complete service
      (system.acceptActs turn) := by
  apply stepsMeet_of_forall_mem
  intro act member service
  unfold acceptActs at member
  split at member
  · cases List.mem_singleton.mp member
    have lossless : Service.Lossless (.accepts : Act UInt8) := trivial
    exact Service.complete_of_lossless lossless service _
  · cases member

theorem Valid.run_loopActs
    (valid : Valid listenFd system) (positive : 0 < listenFd)
    (turned : Turned listenFd system turn joined killed next) :
    run (Service.step toupper) (joined.service fun _ => .nothing)
        (system.loopActs turn joined) =
      some next.view := by
  unfold loopActs
  cases isPrepared : system.table.prepare turn with
  | none =>
      have performed := turned.performed
      rw [(ClientTable.outcome_of_refused isPrepared).2.2.1] at performed
      cases performed
      rfl
  | some prepared =>
      exact
        Sockets.run_dealAllActs (valid.isJoined turned).coherent
          (valid.performed positive turned isPrepared).1

theorem Valid.run_acts
    (valid : Valid listenFd system) (positive : 0 < listenFd)
    (stepped : system.step listenFd label = some next) :
    run (Service.step toupper) system.view (system.acts label) =
      some next.view := by
  cases label with
  | arrives conn bytes =>
      obtain ⟨sockets, arrived, rfl⟩ := Option.map_eq_some_iff.mp stepped
      rw [acts, run_singleton_eq_some_iff]
      exact Sockets.service_arrive arrived
  | finishes conn =>
      cases stepped
      rw [acts, run_singleton_eq_some_iff]
      exact Sockets.service_finish
  | turn turn =>
      obtain ⟨joined, killed, turned⟩ := turned_of_step stepped
      simp only [acts, turned.joins]
      rw [run_append_eq_some_iff]
      exact
        ⟨_, run_acceptActs valid turned, valid.run_loopActs positive turned⟩

/-- What is written to a client that the loop handles is taken whole where all
of its dealing is. -/
theorem whole_dealingAt_iff
    {entries : List PollFd} {index fd : Nat} (client : fd ≠ 1)
    (holds : (entryAt entries index).fd = some fd)
    (read : ∀ bytes taken,
      dealingAt turn entries index = .sendsBack bytes taken → bytes ≠ []) :
    (dealingAt turn entries index).Whole ↔
      ∀ other bytes,
        .write other bytes ∈
            (handleClient turn.reads (slotAt entries index)).effects →
          other ≠ 1 →
            turn.signals other = false ∧
              bytes.length ≤ turn.taken other := by
  have isFd : fdAt entries index = fd := by
    unfold fdAt
    rw [holds]
    rfl
  unfold dealingAt at read ⊢
  cases pollin : (entryAt entries index).pollin with
  | false => simp [handleClient, slotAt, holds, pollin, Dealing.Whole]
  | true =>
      rw [pollin, if_pos rfl] at read
      rw [if_pos rfl]
      cases result : turn.reads index with
      | data bytes =>
          rw [result] at read
          have nonempty := read bytes _ rfl
          simp only [isFd, handleClient, slotAt, holds, pollin, if_true,
            result, Dealing.Whole]
          have whole_iff :
              bytes.length ≤
                  (if turn.signals fd = true then 0 else turn.taken fd) ↔
                turn.signals fd = false ∧ bytes.length ≤ turn.taken fd := by
            by_cases signalled : turn.signals fd = true
            · rw [if_pos signalled, Nat.le_zero, List.length_eq_zero_iff]
              exact
                iff_of_false nonempty fun both =>
                  Bool.false_ne_true (both.1.symm.trans signalled)
            · rw [if_neg signalled]
              exact
                (and_iff_right (eq_false_of_ne_true signalled)).symm
          rw [whole_iff]
          constructor
          · intro whole other written member different
            simp only [List.mem_cons, List.not_mem_nil, or_false] at member
            rcases member with impossible | same | same
            · cases impossible
            · cases same
              exact absurd rfl different
            · cases same
              rw [List.length_map]
              exact whole
          · intro whole
            have written := whole fd (bytes.map toupper) (by simp) client
            rwa [List.length_map] at written
      | closed | reset | failed =>
          simp [handleClient, slotAt, holds, pollin, result, Dealing.Whole]

/-- A client that SIGPIPE was met with has not got its answer. -/
theorem not_whole_of_kills
    {entries : List PollFd} {index : Nat}
    (read : ∀ bytes taken,
      dealingAt turn entries index = .sendsBack bytes taken → bytes ≠ [])
    (kills : killsAt turn entries index = true) :
    ¬ (dealingAt turn entries index).Whole := by
  obtain ⟨pollin, ⟨bytes, result⟩, signals⟩ := killsAt_eq_true kills
  have isDealing : dealingAt turn entries index = .sendsBack bytes 0 := by
    unfold dealingAt
    rw [pollin, if_pos rfl, result]
    simp only [if_pos signals]
  rw [isDealing]
  intro whole
  exact
    read bytes 0 isDealing
      (List.length_eq_zero_iff.mp (Nat.le_zero.mp whole))

/-- The clients whom the loop comes to take all, SIGPIPE or not, exactly when
those whom it would come to without SIGPIPE take what is written to them. -/
theorem whole_reached_iff
    {turn : PollTurn} {prepared : Prepared}
    (clients :
      ∀ index ∈ prepared.visited turn.reads,
        ∃ fd, (entryAt prepared.entries index).fd = some fd ∧ fd ≠ 1)
    (read :
      ∀ index ∈ reached prepared turn, ∀ bytes taken,
        dealingAt turn prepared.entries index = .sendsBack bytes taken →
          bytes ≠ []) :
    (∀ index ∈ reached prepared turn,
        (dealingAt turn prepared.entries index).Whole) ↔
      ∀ other bytes,
        .write other bytes ∈
            (prepared.visited turn.reads).flatMap (fun index =>
              (handleClient turn.reads
                (slotAt prepared.entries index)).effects) →
          other ≠ 1 →
            turn.signals other = false ∧
              bytes.length ≤ turn.taken other := by
  have each :
      ∀ index ∈ reached prepared turn,
        (dealingAt turn prepared.entries index).Whole ↔
          ∀ other bytes,
            .write other bytes ∈
                (handleClient turn.reads
                  (slotAt prepared.entries index)).effects →
              other ≠ 1 →
                turn.signals other = false ∧
                  bytes.length ≤ turn.taken other := by
    intro index inReached
    obtain ⟨fd, held, client⟩ :=
      clients index (untilEnd_subset _ _ inReached)
    exact whole_dealingAt_iff client held (read index inReached)
  constructor
  · intro whole
    have survives :
        (prepared.visited turn.reads).any
          (killsAt turn prepared.entries) = false := by
      by_contra killing
      obtain ⟨index, inReached, kills⟩ :=
        exists_mem_untilEnd (eq_true_of_ne_false killing)
      exact
        not_whole_of_kills (read index inReached) kills
          (whole index inReached)
    have same : reached prepared turn = prepared.visited turn.reads :=
      untilEnd_of_none survives
    rw [same] at whole each
    intro other bytes member
    obtain ⟨index, handled, member⟩ := List.mem_flatMap.mp member
    exact (each index handled).mp (whole index handled) other bytes member
  · intro takes index inReached
    refine (each index inReached).mpr fun other bytes member => ?_
    exact
      takes other bytes
        (List.mem_flatMap.mpr
          ⟨index, untilEnd_subset _ _ inReached, member⟩)

theorem Valid.takesAll_iff
    (valid : Valid listenFd system) (positive : 0 < listenFd)
    (stepped : system.step listenFd label = some next) :
    system.TakesAll label ↔
      StepsMeet (Service.step toupper) Service.Complete system.view
        (system.acts label) := by
  cases label with
  | arrives conn bytes =>
      rw [acts, stepsMeet_singleton_iff]
      exact Iff.rfl
  | finishes conn =>
      rw [acts, stepsMeet_singleton_iff]
      exact Iff.rfl
  | turn turn =>
      obtain ⟨joined, killed, turned⟩ := turned_of_step stepped
      simp only [acts, turned.joins]
      rw [stepsMeet_append_iff (run_acceptActs valid turned),
        and_iff_right (stepsMeet_acceptActs system turn _)]
      simp only [TakesAll, loopActs]
      cases isPrepared : system.table.prepare turn with
      | none =>
          rw [(ClientTable.outcome_of_refused isPrepared).2.2.1]
          exact iff_of_true nofun trivial
      | some prepared =>
          have isJoined := valid.isJoined turned
          have holds := valid.holds_prepared turned isPrepared
          have inside := (ClientTable.prepares isPrepared).inside
          obtain ⟨dealt, _⟩ := valid.performed positive turned isPrepared
          rw [ClientTable.outcome_of_prepare isPrepared,
            Prepared.effects_serve inside]
          rw [← Sockets.whole_dealAll_iff isJoined.coherent dealt, dealings,
            List.forall_mem_map]
          have read :
              ∀ index ∈ reached prepared turn, ∀ bytes taken,
                dealingAt turn prepared.entries index =
                    .sendsBack bytes taken →
                  bytes ≠ [] := by
            intro index inReached bytes taken isDealing
            have member :
                (fdAt prepared.entries index,
                    Dealing.sendsBack bytes taken) ∈
                  dealings turn prepared.entries (reached prepared turn) :=
              List.mem_map.mpr ⟨index, inReached, by rw [isDealing]⟩
            exact Sockets.ne_nil_of_dealAll dealt member
          have clients :
              ∀ index ∈ prepared.visited turn.reads,
                ∃ fd, (entryAt prepared.entries index).fd = some fd ∧
                  fd ≠ 1 := by
            intro index handled
            obtain ⟨low, _, used⟩ := mem_visitedSlots handled
            obtain ⟨fd, held⟩ := Option.isSome_iff_exists.mp used
            have isOpen := (holds.exactly fd).mp ⟨index, low, held⟩
            refine ⟨fd, held, ?_⟩
            rintro rfl
            exact isJoined.output positive isOpen
          exact (whole_reached_iff clients read).symm

def simulation (listenFd : Nat) (positive : 0 < listenFd) :
    Simulation (step listenFd) (Service.step toupper) where
  view := view
  acts := acts
  Valid := Valid listenFd
  valid_step := fun valid stepped => valid.step positive stepped
  run_acts := fun valid stepped => valid.run_acts positive stepped

end Echo

/-- Between two turns the clients of the poll server have got back what was
read from them, in capital letters and in order, and no byte of another
client, if and only if every `Write` so far was taken whole; then a client
whose connection was closed at its end has got back all of it. -/
theorem echoed_by_poll_iff
    {listenFd : Nat} (positive : 0 < listenFd) {revents : Nat → Bool}
    {labels : List PollLabel} {last : PollSystem}
    (ran :
      run (step listenFd) (start listenFd revents) labels = some last) :
    ((∀ conn, (last.view conn).Exact toupper) ↔
        StepsMeet (step listenFd) TakesAll (start listenFd revents) labels) ∧
      (StepsMeet (step listenFd) TakesAll (start listenFd revents) labels →
        ∀ conn, (last.sockets.channels conn).place = .closed →
          (last.sockets.channels conn).ended = true ∧
            (last.sockets.channels conn).returned =
              (last.sockets.channels conn).sent.map toupper) :=
  served_iff (simulation listenFd positive)
    (fun valid stepped => valid.takesAll_iff positive stepped)
    (valid_start listenFd revents) rfl ran

theorem echoed_by_poll_iff_first :
    ∃ last, run (step 3) (start 3 dirty) firstClient = some last ∧
      ((∀ conn, (last.view conn).Exact toupper) ↔
        StepsMeet (step 3) TakesAll (start 3 dirty) firstClient) ∧
      (StepsMeet (step 3) TakesAll (start 3 dirty) firstClient →
        ∀ conn, (last.sockets.channels conn).place = .closed →
          (last.sockets.channels conn).ended = true ∧
            (last.sockets.channels conn).returned =
              (last.sockets.channels conn).sent.map toupper) := by
  obtain ⟨last, ran⟩ := run_firstClient
  exact ⟨last, ran, echoed_by_poll_iff (by decide) ran⟩

end PollSystem

end LinuxNet.Multiplex
