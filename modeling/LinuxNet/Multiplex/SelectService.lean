import LinuxNet.Lib.EchoRounds
import LinuxNet.Multiplex.SelectServers

/-!
# The clients of the two select servers

In each turn of `main` at most one client is accepted, and each ready client
is read from once and gets its answer.  The two servers come to the ready
clients in different orders: `server.c` in the order of the descriptors and
`server_1.c` in the order of the slots.
-/

namespace LinuxNet.Multiplex

open LinuxNet.CString LinuxNet.CountedScan LinuxNet.EchoService
open LinuxNet.StepSystem

/-- `sizeof(buf)`. -/
def selectBufSize : Nat := 4096

def SelectRead.count : SelectRead → Nat
  | data bytes => bytes.length
  | closed | failed => 0

/-- No `Read` returns more than the buffer holds. -/
def SelectRound.Fits (round : SelectRound) : Prop :=
  ∀ fd ∈ round.ready, (round.reads fd).count ≤ selectBufSize

instance (round : SelectRound) : Decidable round.Fits := by
  unfold SelectRound.Fits
  infer_instance

/-- The descriptors that are watched when the turn comes to the clients. -/
def SelectRound.watchedWith
    (round : SelectRound) (listenFd : Nat) (allRset : Finset Nat) :
    Finset Nat :=
  if listenFd ∈ round.ready then insert round.accepted allRset else allRset

/-- What a turn does: each ready client is read from once and gets what
belongs to it, and those that have left are not watched any more. -/
structure Serves
    (listenFd : Nat) (round : SelectRound) (allRset later : Finset Nat)
    (effects : List SelectEffect) : Prop where
  possible : round.Possible listenFd allRset
  once : ReadsEachOnce listenFd round.ready effects
  calls : effects = (readFds effects).flatMap (serveClient round.reads)
  later_eq :
    later = clearDropped (round.watchedWith listenFd allRset) effects

structure SelectProgram (listenFd : Nat) (σ : Type) where
  start : σ
  round : σ → SelectRound → Option σ
  effects : σ → List SelectEffect
  allRset : σ → Finset Nat
  Valid : σ → Prop
  valid_start : Valid start
  allRset_start : allRset start = {listenFd}
  serves :
    ∀ {server now next},
      Valid server → round server now = some next →
        Valid next ∧
          Serves listenFd now (allRset server) (allRset next) (effects next)

section Calls

variable {listenFd : Nat}

/-- The calls are those for some clients, one after the other. -/
def InTurn (reads : Nat → SelectRead) (effects : List SelectEffect) : Prop :=
  ∃ order : List Nat, effects = order.flatMap (serveClient reads)

theorem InTurn.calls
    {reads : Nat → SelectRead} {effects : List SelectEffect}
    (inTurn : InTurn reads effects) :
    effects = (readFds effects).flatMap (serveClient reads) := by
  obtain ⟨order, rfl⟩ := inTurn
  rw [readFds_serve]

theorem exists_count {nready : Int} (positive : ¬ nready ≤ 0) :
    ∃ count : Nat, nready = (count + 1 : Nat) :=
  ⟨(nready - 1).toNat, by omega⟩

theorem inTurn_scan
    {α : Type} {counts : α → Bool} {reads : Nat → SelectRead}
    {handle : α → Handled α SelectEffect} (name : α → Option Nat)
    (handled :
      ∀ item, (handle item).effects =
        (name item).elim [] (serveClient reads))
    {nready : Int} (positive : ¬ nready ≤ 0) (items : List α) :
    InTurn reads (scan counts handle nready items).effects := by
  obtain ⟨count, rfl⟩ := exists_count positive
  rw [scan_effects]
  generalize
    untilEnd (fun item => (handle item).ends)
      ((items.filter counts).take (count + 1)) = visited
  refine ⟨visited.filterMap name, ?_⟩
  induction visited with
  | nil => rfl
  | cons item visited inductionHypothesis =>
      rw [List.flatMap_cons, inductionHypothesis, handled]
      cases isNamed : name item with
      | none =>
          rw [List.filterMap_cons_none isNamed]
          rfl
      | some fd =>
          rw [List.filterMap_cons_some isNamed, List.flatMap_cons]
          rfl

theorem PlainServer.inTurn_serveReady
    {plain : PlainServer} {reads : Nat → SelectRead} {nready : Int}
    (positive : ¬ nready ≤ 0) :
    InTurn reads (plain.serveReady listenFd reads nready).effects :=
  inTurn_scan some (fun _ => rfl) positive _

theorem SlotServer.inTurn_serveReady
    {slots : SlotServer} {reads : Nat → SelectRead} {nready : Int}
    (positive : ¬ nready ≤ 0) :
    InTurn reads (slots.serveReady reads nready).effects := by
  refine inTurn_scan id (fun slot => ?_) positive _
  cases slot <;> rfl

/-- The calls of a turn in their order, and the set behind it: the one with
the new client, without the clients that were dropped. -/
structure Turns
    (listenFd : Nat) (round : SelectRound)
    (allRset later retRset : Finset Nat) (effects : List SelectEffect) :
    Prop where
  possible : round.Possible listenFd allRset
  retRset_eq : retRset = round.ready
  inTurn : InTurn round.reads effects
  later_eq :
    later = clearDropped (round.watchedWith listenFd allRset) effects

theorem turns_of_idle
    {round : SelectRound} {allRset later : Finset Nat}
    (possible : round.Possible listenFd allRset)
    (same : later = round.watchedWith listenFd allRset) :
    Turns listenFd round allRset later round.ready [] :=
  ⟨possible, rfl, ⟨[], rfl⟩, same⟩

theorem SelectRound.watchedWith_of_quiet
    {round : SelectRound} (quiet : listenFd ∉ round.ready)
    (allRset : Finset Nat) : round.watchedWith listenFd allRset = allRset :=
  if_neg quiet

theorem SelectRound.watchedWith_of_listens
    {round : SelectRound} (listens : listenFd ∈ round.ready)
    (allRset : Finset Nat) :
    round.watchedWith listenFd allRset = insert round.accepted allRset :=
  if_pos listens

theorem SelectRound.not_listens
    {round : SelectRound} (quiet : (round.ready.card : Int) ≤ 0) :
    listenFd ∉ round.ready := by
  have empty : round.ready = ∅ := Finset.card_eq_zero.mp (by omega)
  rw [empty]
  exact Finset.notMem_empty _

theorem PlainServer.turns
    {plain next : PlainServer} {round : SelectRound}
    (stepped : plain.round listenFd round = some next) :
    Turns listenFd round plain.allRset next.allRset next.retRset
      next.effects := by
  unfold PlainServer.round at stepped
  obtain ⟨possible, stepped⟩ := Option.ite_none_right_eq_some.mp stepped
  by_cases quiet : (round.ready.card : Int) ≤ 0
  · rw [if_pos quiet] at stepped
    cases stepped
    exact
      turns_of_idle possible
        (SelectRound.watchedWith_of_quiet (SelectRound.not_listens quiet)
          _).symm
  · rw [if_neg quiet] at stepped
    by_cases listens : listenFd ∈ round.ready
    · rw [if_pos listens] at stepped
      have watched := SelectRound.watchedWith_of_listens listens plain.allRset
      split at stepped
      · cases stepped
        exact turns_of_idle possible watched.symm
      · cases stepped
        refine ⟨possible, rfl, inTurn_serveReady (by omega), ?_⟩
        rw [watched]
        rfl
    · rw [if_neg listens] at stepped
      cases stepped
      refine ⟨possible, rfl, inTurn_serveReady quiet, ?_⟩
      rw [SelectRound.watchedWith_of_quiet listens]
      rfl

theorem SlotServer.turns
    {slots next : SlotServer} {round : SelectRound}
    (stepped : slots.round listenFd round = some next) :
    Turns listenFd round slots.allRset next.allRset next.retRset
      next.effects := by
  unfold SlotServer.round at stepped
  obtain ⟨possible, stepped⟩ := Option.ite_none_right_eq_some.mp stepped
  by_cases quiet : (round.ready.card : Int) ≤ 0
  · rw [if_pos quiet] at stepped
    cases stepped
    exact
      turns_of_idle possible
        (SelectRound.watchedWith_of_quiet (SelectRound.not_listens quiet)
          _).symm
  · rw [if_neg quiet] at stepped
    by_cases listens : listenFd ∈ round.ready
    · rw [if_pos listens] at stepped
      obtain ⟨joined, accepted, rfl⟩ := Option.map_eq_some_iff.mp stepped
      have watched := SelectRound.watchedWith_of_listens listens slots.allRset
      unfold SlotServer.acceptClient at accepted
      split at accepted
      · cases accepted
      · cases accepted
        split
        · exact turns_of_idle possible watched.symm
        · refine ⟨possible, rfl, inTurn_serveReady (by omega), ?_⟩
          rw [watched]
          rfl
    · rw [if_neg listens] at stepped
      cases stepped
      refine ⟨possible, rfl, inTurn_serveReady quiet, ?_⟩
      rw [SelectRound.watchedWith_of_quiet listens]
      rfl

theorem Turns.serves
    {round : SelectRound} {allRset later retRset : Finset Nat}
    {effects : List SelectEffect}
    (turns : Turns listenFd round allRset later retRset effects)
    (once : ReadsEachOnce listenFd retRset effects) :
    Serves listenFd round allRset later effects :=
  ⟨turns.possible, turns.retRset_eq ▸ once, turns.inTurn.calls,
    turns.later_eq⟩

end Calls

section Programs

variable (listenFd : Nat)

def plainProgram : SelectProgram listenFd PlainServer where
  start := .start listenFd
  round := PlainServer.round listenFd
  effects := PlainServer.effects
  allRset := PlainServer.allRset
  Valid := fun plain => ∃ slots, Coupled listenFd plain slots
  valid_start := ⟨_, coupled_start listenFd⟩
  allRset_start := rfl
  serves := by
    rintro plain now next ⟨slots, coupled⟩ stepped
    have both := related_round coupled now
    rw [stepped] at both
    generalize slots.round listenFd now = nextSlots at both
    cases both with
    | some related =>
        exact
          ⟨⟨_, related.1⟩,
            (PlainServer.turns stepped).serves related.2.1⟩

def slotProgram : SelectProgram listenFd SlotServer where
  start := .start listenFd
  round := SlotServer.round listenFd
  effects := SlotServer.effects
  allRset := SlotServer.allRset
  Valid := fun slots => ∃ plain, Coupled listenFd plain slots
  valid_start := ⟨_, coupled_start listenFd⟩
  allRset_start := rfl
  serves := by
    rintro slots now next ⟨plain, coupled⟩ stepped
    have both := related_round coupled now
    rw [stepped] at both
    generalize plain.round listenFd now = nextPlain at both
    cases both with
    | some related =>
        exact
          ⟨⟨_, related.1⟩,
            (SlotServer.turns stepped).serves related.2.2⟩

end Programs

/-- A server and the connections that it has accepted. -/
structure SelectSystem (σ : Type) where
  server : σ
  sockets : Sockets UInt8 UInt8

/-- A client sends or ends its stream, or `main` takes a turn, in which each
client takes some bytes of what is written to it. -/
inductive SelectLabel where
  | arrives (conn : Nat) (bytes : List UInt8)
  | finishes (conn : Nat)
  | turn (round : SelectRound) (taken : Nat → Nat)

/-- `Accept`, where `select` reports the listening descriptor. -/
def acceptReady
    (listenFd : Nat) (round : SelectRound) (sockets : Sockets UInt8 UInt8) :
    Option (Sockets UInt8 UInt8) :=
  if listenFd ∈ round.ready then
    sockets.accept round.accepted
  else
    some sockets

def perform (reads : Nat → SelectRead) (taken : Nat → Nat) :
    Sockets UInt8 UInt8 → List SelectEffect →
      Option (Sockets UInt8 UInt8)
  | sockets, [] => some sockets
  | sockets, .read fd :: effects =>
      match reads fd with
      | .data bytes =>
          (sockets.read fd bytes.length).bind fun read =>
            if read.1 = bytes then
              perform reads taken read.2 effects
            else
              none
      | .closed =>
          if sockets.AtEnd fd then perform reads taken sockets effects
          else none
      | .failed => perform reads taken sockets effects
  | sockets, .write fd bytes :: effects =>
      perform reads taken (sockets.write fd (bytes.take (taken fd))) effects
  | sockets, .drop fd :: effects =>
      (sockets.close fd).bind fun sockets =>
        perform reads taken sockets effects

namespace SelectSystem

variable {listenFd : Nat} {σ : Type}

def start (program : SelectProgram listenFd σ) : SelectSystem σ :=
  ⟨program.start, .none⟩

def turn
    (program : SelectProgram listenFd σ) (system : SelectSystem σ)
    (round : SelectRound) (taken : Nat → Nat) :
    Option (SelectSystem σ) :=
  if round.Fits then
    (program.round system.server round).bind fun server =>
      (acceptReady listenFd round system.sockets).bind fun sockets =>
        (perform round.reads taken sockets (program.effects server)).map
          fun sockets => ⟨server, sockets⟩
  else
    none

def step (program : SelectProgram listenFd σ) (system : SelectSystem σ) :
    SelectLabel → Option (SelectSystem σ)
  | .arrives conn bytes =>
      (system.sockets.arrive conn bytes).map fun sockets =>
        ⟨system.server, sockets⟩
  | .finishes conn => some ⟨system.server, system.sockets.finish conn⟩
  | .turn round taken => system.turn program round taken

/-- The set that is watched is the listening descriptor and the open
clients. -/
structure Valid
    (program : SelectProgram listenFd σ) (system : SelectSystem σ) :
    Prop where
  server : program.Valid system.server
  coherent : system.sockets.Coherent
  watched :
    ∀ fd, fd ∈ program.allRset system.server ↔
      fd = listenFd ∨ system.sockets.IsOpen fd
  above : ∀ {fd}, system.sockets.IsOpen fd → listenFd < fd

/-- What a turn is to a client. -/
def dealingFor
    (reads : Nat → SelectRead) (taken : Nat → Nat) (fd : Nat) :
    Dealing UInt8 :=
  match reads fd with
  | .data bytes => .sendsBack bytes (taken fd)
  | .closed => .parts
  | .failed => .passes

def dealings
    (reads : Nat → SelectRead) (taken : Nat → Nat) (fds : List Nat) :
    List (Nat × Dealing UInt8) :=
  fds.map fun fd => (fd, dealingFor reads taken fd)

section Dealings

variable {reads : Nat → SelectRead} {taken : Nat → Nat} {fd : Nat}
variable {sockets : Sockets UInt8 UInt8}

/-- The calls for a ready client are one dealing; descriptor 1 is not a
client. -/
theorem perform_serveClient
    (coherent : sockets.Coherent) (output : ¬ sockets.IsOpen 1) (fd : Nat)
    (effects : List SelectEffect) :
    perform reads taken sockets (serveClient reads fd ++ effects) =
      (sockets.deal toupper fd (dealingFor reads taken fd)).bind
        fun sockets => perform reads taken sockets effects := by
  unfold serveClient dealingFor
  cases result : reads fd with
  | data bytes =>
      simp only [List.cons_append, List.nil_append, perform, result,
        Sockets.deal, Option.bind_assoc]
      cases isRead : sockets.read fd bytes.length with
      | none => rfl
      | some read =>
          obtain ⟨items, later⟩ := read
          have same := (coherent.read isRead).peerOf_eq
          have stillOutput : ¬ later.IsOpen 1 := by
            unfold Sockets.IsOpen
            rw [same]
            exact output
          simp only [Option.bind_some, Sockets.write_of_not_isOpen stillOutput]
          split <;> rfl
  | closed =>
      simp only [List.cons_append, List.nil_append, perform, result,
        Sockets.deal]
      split <;> rfl
  | failed =>
      simp only [List.cons_append, List.nil_append, perform, result,
        Sockets.deal, Option.bind_some]

theorem perform_serve
    (coherent : sockets.Coherent) (output : ¬ sockets.IsOpen 1)
    (fds : List Nat) :
    perform reads taken sockets (fds.flatMap (serveClient reads)) =
      sockets.dealAll toupper (dealings reads taken fds) := by
  induction fds generalizing sockets with
  | nil => rfl
  | cons fd fds inductionHypothesis =>
      rw [List.flatMap_cons, perform_serveClient coherent output]
      unfold dealings
      rw [List.map_cons, Sockets.dealAll]
      cases isDealt : sockets.deal toupper fd (dealingFor reads taken fd) with
      | none => rfl
      | some middle =>
          have dealt := Sockets.dealt_deal isDealt
          refine inductionHypothesis (dealt.coherent coherent) ?_
          intro isOpen
          exact output ((dealt.isOpen_iff coherent 1).mp isOpen).1

end Dealings

section Turn

variable {program : SelectProgram listenFd σ} {system next : SelectSystem σ}
variable {round : SelectRound} {taken : Nat → Nat}
variable {joined : Sockets UInt8 UInt8}

def acceptActs
    (listenFd : Nat) (round : SelectRound) (sockets : Sockets UInt8 UInt8) :
    List (Nat × Act UInt8) :=
  if listenFd ∈ round.ready then [(sockets.next, .accepts)] else []

structure Turned
    (program : SelectProgram listenFd σ) (system : SelectSystem σ)
    (round : SelectRound) (taken : Nat → Nat) (next : SelectSystem σ)
    (joined : Sockets UInt8 UInt8) : Prop where
  isRound : program.round system.server round = some next.server
  joins : acceptReady listenFd round system.sockets = some joined
  performed :
    perform round.reads taken joined (program.effects next.server) =
      some next.sockets

theorem turned_of_step
    (stepped : system.step program (.turn round taken) = some next) :
    ∃ joined, Turned program system round taken next joined := by
  obtain ⟨_, stepped⟩ := Option.ite_none_right_eq_some.mp stepped
  obtain ⟨server, isRound, stepped⟩ := Option.bind_eq_some_iff.mp stepped
  obtain ⟨joined, joins, stepped⟩ := Option.bind_eq_some_iff.mp stepped
  obtain ⟨sockets, performed, rfl⟩ := Option.map_eq_some_iff.mp stepped
  exact ⟨joined, isRound, joins, performed⟩

/-- Behind `Accept` the open clients are what is watched with the new one. -/
structure Joined
    (listenFd : Nat) (allRset : Finset Nat) (round : SelectRound)
    (sockets : Sockets UInt8 UInt8) : Prop where
  coherent : sockets.Coherent
  watched :
    ∀ fd, fd ∈ round.watchedWith listenFd allRset ↔
      fd = listenFd ∨ sockets.IsOpen fd
  above : ∀ {fd}, sockets.IsOpen fd → listenFd < fd

theorem Valid.isJoined
    (valid : Valid program system)
    (possible : round.Possible listenFd (program.allRset system.server))
    (joins : acceptReady listenFd round system.sockets = some joined) :
    Joined listenFd (program.allRset system.server) round joined := by
  unfold acceptReady at joins
  split at joins
  · next listens =>
      obtain ⟨_, isAbove, _⟩ := possible.2 listens
      have coherent := valid.coherent.accept joins
      obtain ⟨_, rfl⟩ := Sockets.accept_eq_some joins
      refine ⟨coherent, fun fd => ?_, fun {fd} isOpen => ?_⟩
      · rw [SelectRound.watchedWith_of_listens listens, Finset.mem_insert,
          valid.watched, Sockets.isOpen_joined]
        exact or_left_comm
      · rcases Sockets.isOpen_joined.mp isOpen with rfl | old
        · exact isAbove
        · exact valid.above old
  · next quiet =>
      cases joins
      refine ⟨valid.coherent, fun fd => ?_, valid.above⟩
      rw [SelectRound.watchedWith_of_quiet quiet, valid.watched]

theorem Joined.output
    {allRset : Finset Nat} (isJoined : Joined listenFd allRset round joined)
    (positive : 0 < listenFd) : ¬ joined.IsOpen 1 :=
  fun isOpen => Nat.not_lt.mpr positive (isJoined.above isOpen)

theorem Valid.performed
    (valid : Valid program system) (positive : 0 < listenFd)
    (turned : Turned program system round taken next joined) :
    joined.dealAll toupper
        (dealings round.reads taken (readFds (program.effects next.server))) =
      some next.sockets := by
  have serves := (program.serves valid.server turned.isRound).2
  have isJoined := valid.isJoined serves.possible turned.joins
  rw [← perform_serve isJoined.coherent (isJoined.output positive),
    ← serves.calls]
  exact turned.performed

theorem leaves_dealingFor_iff
    {reads : Nat → SelectRead} {fd : Nat} :
    (dealingFor reads taken fd).Leaves ↔ reads fd = .closed := by
  unfold dealingFor
  cases reads fd <;> simp [Dealing.Leaves]

theorem whole_dealingFor_iff
    {reads : Nat → SelectRead} {fd : Nat} :
    (dealingFor reads taken fd).Whole ↔ (reads fd).count ≤ taken fd := by
  unfold dealingFor
  cases reads fd <;> simp [Dealing.Whole, SelectRead.count]

theorem exists_dealing_iff
    {reads : Nat → SelectRead} {fds : List Nat} {fd : Nat} :
    (∃ dealing, (fd, dealing) ∈ dealings reads taken fds ∧ dealing.Leaves) ↔
      fd ∈ fds ∧ reads fd = .closed := by
  unfold dealings
  constructor
  · rintro ⟨dealing, member, leaves⟩
    obtain ⟨other, inFds, same⟩ := List.mem_map.mp member
    cases same
    exact ⟨inFds, leaves_dealingFor_iff.mp leaves⟩
  · rintro ⟨inFds, closed⟩
    exact
      ⟨_, List.mem_map.mpr ⟨fd, inFds, rfl⟩,
        leaves_dealingFor_iff.mpr closed⟩

theorem Valid.turn
    (valid : Valid program system) (positive : 0 < listenFd)
    (turned : Turned program system round taken next joined) :
    Valid program next := by
  obtain ⟨server, serves⟩ := program.serves valid.server turned.isRound
  have isJoined := valid.isJoined serves.possible turned.joins
  have dealt := valid.performed positive turned
  have isOpen_iff : ∀ fd,
      next.sockets.IsOpen fd ↔
        joined.IsOpen fd ∧
          ¬ (fd ∈ readFds (program.effects next.server) ∧
            round.reads fd = .closed) := by
    intro fd
    rw [Sockets.isOpen_dealAll_iff isJoined.coherent dealt,
      exists_dealing_iff]
  refine
    ⟨server, isJoined.coherent.dealAll dealt, fun fd => ?_,
      fun {fd} isOpen => isJoined.above ((isOpen_iff fd).mp isOpen).1⟩
  rw [serves.later_eq, mem_clearDropped, isJoined.watched, isOpen_iff]
  have dropped :
      SelectEffect.drop fd ∈ program.effects next.server ↔
        fd ∈ readFds (program.effects next.server) ∧
          round.reads fd = .closed := by
    conv_lhs => rw [serves.calls]
    exact drop_mem_serve_iff _ _ _
  rw [dropped]
  constructor
  · rintro ⟨same | isOpen, kept⟩
    · exact Or.inl same
    · exact Or.inr ⟨isOpen, kept⟩
  · rintro (same | both)
    · refine ⟨Or.inl same, fun gone => ?_⟩
      exact ((serves.once.exactly fd).mp gone.1).2 same
    · exact ⟨Or.inr both.1, both.2⟩

theorem Valid.step
    {label : SelectLabel} (positive : 0 < listenFd)
    (valid : Valid program system)
    (stepped : system.step program label = some next) :
    Valid program next := by
  have keeps :
      ∀ {sockets}, system.sockets.Kept sockets →
        Valid program ⟨system.server, sockets⟩ := by
    intro sockets kept
    have same : ∀ fd, sockets.IsOpen fd ↔ system.sockets.IsOpen fd := by
      intro fd
      unfold Sockets.IsOpen
      rw [kept.peerOf_eq]
    exact
      ⟨valid.server, kept.coherent,
        fun fd => (valid.watched fd).trans (or_congr_right (same fd).symm),
        fun isOpen => valid.above ((same _).mp isOpen)⟩
  cases label with
  | arrives conn bytes =>
      obtain ⟨sockets, arrived, rfl⟩ := Option.map_eq_some_iff.mp stepped
      exact keeps (valid.coherent.arrive arrived)
  | finishes conn =>
      cases stepped
      exact keeps (valid.coherent.finish conn)
  | turn round taken =>
      obtain ⟨joined, turned⟩ := turned_of_step stepped
      exact valid.turn positive turned

theorem valid_start (program : SelectProgram listenFd σ) :
    Valid program (start program) := by
  refine ⟨program.valid_start, Sockets.coherent_none, fun fd => ?_, nofun⟩
  have none : ¬ (Sockets.none : Sockets UInt8 UInt8).IsOpen fd := nofun
  unfold start
  rw [program.allRset_start, Finset.mem_singleton]
  exact (or_iff_left none).symm

end Turn

/-! ## The servers serve alike -/

/-- After the same run the connections are the same behind both servers; what
each of them watches is the listening descriptor and the open clients, and the
clients of `server_1.c` are these, each in one slot. -/
structure Alike
    (listenFd : Nat) (plain : SelectSystem PlainServer)
    (slots : SelectSystem SlotServer) : Prop where
  sockets_eq : slots.sockets = plain.sockets
  allRset_eq : slots.server.allRset = plain.server.allRset
  watched :
    ∀ fd, fd ∈ plain.server.allRset ↔
      fd = listenFd ∨ plain.sockets.IsOpen fd
  distinct : (held slots.server.clients).Nodup
  exactly :
    ∀ fd, fd ∈ held slots.server.clients ↔ slots.sockets.IsOpen fd

/-- Both servers deal with the same clients, the one in another order. -/
structure Paired
    (listenFd : Nat) (plain : SelectSystem PlainServer)
    (slots : SelectSystem SlotServer) : Prop where
  coupled : Coupled listenFd plain.server slots.server
  sockets_eq : slots.sockets = plain.sockets
  valid : Valid (plainProgram listenFd) plain

section Alike

variable {plain : SelectSystem PlainServer} {slots : SelectSystem SlotServer}

theorem perm_of_once
    {ready : Finset Nat} {first second : List SelectEffect}
    (one : ReadsEachOnce listenFd ready first)
    (two : ReadsEachOnce listenFd ready second) :
    (readFds first).Perm (readFds second) :=
  (List.perm_ext_iff_of_nodup one.once two.once).mpr fun fd =>
    (one.exactly fd).trans (two.exactly fd).symm

/-- The order of the ready clients makes no difference to them. -/
theorem perform_eq
    {round : SelectRound} {taken : Nat → Nat} {allRset : Finset Nat}
    {joined : Sockets UInt8 UInt8} {firstLater secondLater : Finset Nat}
    {first second : List SelectEffect} (positive : 0 < listenFd)
    (isJoined : Joined listenFd allRset round joined)
    (one : Serves listenFd round allRset firstLater first)
    (two : Serves listenFd round allRset secondLater second) :
    perform round.reads taken joined first =
      perform round.reads taken joined second := by
  have output := isJoined.output positive
  rw [one.calls, two.calls, perform_serve isJoined.coherent output,
    perform_serve isJoined.coherent output]
  refine Sockets.dealAll_perm isJoined.coherent ?_ ?_ ?_
  · intro entry member
    obtain ⟨fd, inOrder, rfl⟩ := List.mem_map.mp member
    obtain ⟨ready, different⟩ := (one.once.exactly fd).mp inOrder
    have watched : fd ∈ round.watchedWith listenFd allRset := by
      unfold SelectRound.watchedWith
      split
      · exact Finset.mem_insert_of_mem (one.possible.1 ready)
      · exact one.possible.1 ready
    exact ((isJoined.watched fd).mp watched).resolve_left different
  · unfold dealings
    rw [List.map_map]
    exact (List.map_id _).symm ▸ one.once.once
  · exact (perm_of_once one.once two.once).map _

/-- The part of a turn behind the servers' own variables. -/
theorem Paired.clients
    (paired : Paired listenFd plain slots) (positive : 0 < listenFd)
    {round : SelectRound} (taken : Nat → Nat) {nextPlain : PlainServer}
    {nextSlots : SlotServer}
    (isPlain : plain.server.round listenFd round = some nextPlain)
    (isSlots : slots.server.round listenFd round = some nextSlots) :
    Option.Rel (Paired listenFd)
      ((acceptReady listenFd round plain.sockets).bind fun sockets =>
        (perform round.reads taken sockets nextPlain.effects).map
          fun sockets => ⟨nextPlain, sockets⟩)
      ((acceptReady listenFd round slots.sockets).bind fun sockets =>
        (perform round.reads taken sockets nextSlots.effects).map
          fun sockets => ⟨nextSlots, sockets⟩) := by
  have rounds := related_round paired.coupled round
  rw [isPlain, isSlots] at rounds
  cases rounds with
  | some related =>
      have serves := (PlainServer.turns isPlain).serves related.2.1
      have slotsServe := (SlotServer.turns isSlots).serves related.2.2
      rw [paired.coupled.allRset_eq] at slotsServe
      rw [paired.sockets_eq]
      cases joins : acceptReady listenFd round plain.sockets with
      | none => exact .none
      | some joined =>
          have isJoined := paired.valid.isJoined serves.possible joins
          rw [Option.bind_some, Option.bind_some,
            ← perform_eq positive isJoined serves slotsServe]
          cases performed :
              perform round.reads taken joined nextPlain.effects with
          | none => exact .none
          | some sockets =>
              have turned :
                  Turned (plainProgram listenFd) plain round taken
                    ⟨nextPlain, sockets⟩ joined :=
                ⟨isPlain, joins, performed⟩
              exact .some ⟨related.1, rfl, paired.valid.turn positive turned⟩

theorem Paired.turn
    (paired : Paired listenFd plain slots) (positive : 0 < listenFd)
    (round : SelectRound) (taken : Nat → Nat) :
    Option.Rel (Paired listenFd)
      (plain.turn (plainProgram listenFd) round taken)
      (slots.turn (slotProgram listenFd) round taken) := by
  have rounds := related_round paired.coupled round
  simp only [SelectSystem.turn, plainProgram, slotProgram]
  by_cases fits : round.Fits
  · rw [if_pos fits, if_pos fits]
    cases isPlain : plain.server.round listenFd round with
    | none =>
        rw [isPlain] at rounds
        generalize slots.server.round listenFd round = other at rounds
        cases rounds with
        | none => exact .none
    | some nextPlain =>
        cases isSlots : slots.server.round listenFd round with
        | none =>
            rw [isPlain, isSlots] at rounds
            cases rounds
        | some nextSlots =>
            exact paired.clients positive taken isPlain isSlots
  · rw [if_neg fits, if_neg fits]
    exact .none

theorem Paired.step
    (paired : Paired listenFd plain slots) (positive : 0 < listenFd)
    (label : SelectLabel) :
    Option.Rel (Paired listenFd)
      (plain.step (plainProgram listenFd) label)
      (slots.step (slotProgram listenFd) label) := by
  cases label with
  | arrives conn bytes =>
      have valid :
          ∀ {next}, plain.step (plainProgram listenFd)
              (.arrives conn bytes) = some next →
            Valid (plainProgram listenFd) next :=
        paired.valid.step positive
      simp only [SelectSystem.step] at valid ⊢
      rw [paired.sockets_eq]
      cases arrived : plain.sockets.arrive conn bytes with
      | none => exact .none
      | some sockets =>
          rw [arrived] at valid
          exact .some ⟨paired.coupled, rfl, valid rfl⟩
  | finishes conn =>
      have stepped :
          plain.step (plainProgram listenFd) (.finishes conn) =
            some ⟨plain.server, plain.sockets.finish conn⟩ :=
        rfl
      have valid := paired.valid.step positive stepped
      refine .some ⟨paired.coupled, ?_, valid⟩
      exact congrArg (fun sockets => sockets.finish conn) paired.sockets_eq
  | turn round taken => exact paired.turn positive round taken

theorem Paired.alike (paired : Paired listenFd plain slots) :
    Alike listenFd plain slots := by
  refine
    ⟨paired.sockets_eq, paired.coupled.allRset_eq, paired.valid.watched,
      paired.coupled.distinct, fun fd => ?_⟩
  rw [paired.coupled.exactly, paired.coupled.allRset_eq, paired.sockets_eq]
  have watched :
      fd ∈ plain.server.allRset ↔ fd = listenFd ∨ plain.sockets.IsOpen fd :=
    paired.valid.watched fd
  rw [watched]
  constructor
  · rintro ⟨same | isOpen, different⟩
    · exact absurd same different
    · exact isOpen
  · intro isOpen
    exact ⟨Or.inr isOpen, Nat.ne_of_gt (paired.valid.above isOpen)⟩

end Alike

/-- Whatever the clients do, the two select servers get equally far and have
done the same to every client, although they come to the ready clients in
different orders; both watch the listening descriptor and the open clients,
and `server_1.c` has each of these in one slot. -/
theorem select_servers_serve_alike
    (positive : 0 < listenFd) (labels : List SelectLabel) :
    Option.Rel (Alike listenFd)
      (run (step (plainProgram listenFd)) (start (plainProgram listenFd))
        labels)
      (run (step (slotProgram listenFd)) (start (slotProgram listenFd))
        labels) := by
  have initially :
      Paired listenFd (start (plainProgram listenFd))
        (start (slotProgram listenFd)) :=
    ⟨coupled_start listenFd, rfl, valid_start (plainProgram listenFd)⟩
  have paired :=
    run_rel (Paired listenFd)
      (fun _ _ label pair => pair.step positive label) initially labels
  generalize run (step (plainProgram listenFd)) _ labels = plain at paired ⊢
  generalize run (step (slotProgram listenFd)) _ labels = slots at paired ⊢
  cases paired with
  | none => exact .none
  | some pair => exact .some pair.alike

/-- A client that connects, sends `ab` together with another one that
connects, gets `AB` and leaves. -/
def twoClients : List SelectLabel :=
  [.turn ⟨{3}, 4, fun _ => .failed⟩ fun _ => 0, .arrives 0 [97, 98],
    .turn ⟨{3, 4}, 5, fun _ => .data [97, 98]⟩ fun _ => 2, .finishes 0,
    .arrives 1 [99],
    .turn ⟨{4, 5}, 0, fun fd => if fd = 4 then .closed else .data [99]⟩
      fun _ => 1]

theorem select_servers_serve_alike_two_clients :
    (run (step (plainProgram 3)) (start (plainProgram 3)) twoClients).isSome =
        true ∧
      Option.Rel (Alike 3)
        (run (step (plainProgram 3)) (start (plainProgram 3)) twoClients)
        (run (step (slotProgram 3)) (start (slotProgram 3)) twoClients) :=
  ⟨rfl, select_servers_serve_alike (by decide) twoClients⟩

/-! ## The echo -/

section Echo

variable {program : SelectProgram listenFd σ} {system next : SelectSystem σ}
variable {label : SelectLabel}

/-- The connections; between two turns the server has nothing in hand. -/
def view (system : SelectSystem σ) : Service UInt8 UInt8 :=
  system.sockets.service fun _ => .nothing

def acts (program : SelectProgram listenFd σ) (system : SelectSystem σ) :
    SelectLabel → List (Nat × Act UInt8)
  | .arrives conn bytes => [(conn, .arrives bytes)]
  | .finishes conn => [(conn, .finishes)]
  | .turn round taken =>
      match program.round system.server round,
        acceptReady listenFd round system.sockets with
      | some server, some sockets =>
          acceptActs listenFd round system.sockets ++
            sockets.dealAllActs toupper
              (dealings round.reads taken (readFds (program.effects server)))
      | _, _ => []

/-- Each client takes all that is written to it in the turn. -/
def TakesAll (listenFd : Nat) (_ : SelectSystem σ) : SelectLabel → Prop
  | .turn round taken =>
      ∀ fd ∈ round.ready, fd ≠ listenFd →
        (round.reads fd).count ≤ taken fd
  | .arrives _ _ | .finishes _ => True

theorem run_acceptActs
    {round : SelectRound} {sockets joined : Sockets UInt8 UInt8}
    (coherent : sockets.Coherent)
    (joins : acceptReady listenFd round sockets = some joined) :
    run (Service.step toupper) (sockets.service fun _ => .nothing)
        (acceptActs listenFd round sockets) =
      some (joined.service fun _ => .nothing) := by
  unfold acceptReady at joins
  unfold acceptActs
  split at joins
  · next listens =>
      obtain ⟨_, rfl⟩ := Sockets.accept_eq_some joins
      rw [if_pos listens, run_singleton_eq_some_iff]
      exact Sockets.service_accept coherent
  · next quiet =>
      cases joins
      rw [if_neg quiet]
      rfl

theorem stepsMeet_acceptActs
    (round : SelectRound) (sockets : Sockets UInt8 UInt8)
    (service : Service UInt8 UInt8) :
    StepsMeet (Service.step toupper) Service.Complete service
      (acceptActs listenFd round sockets) := by
  apply stepsMeet_of_forall_mem
  intro act member service
  unfold acceptActs at member
  split at member
  · cases List.mem_singleton.mp member
    have lossless : Service.Lossless (.accepts : Act UInt8) := trivial
    exact Service.complete_of_lossless lossless service _
  · cases member

theorem Valid.run_acts
    (valid : Valid program system) (positive : 0 < listenFd)
    (stepped : system.step program label = some next) :
    run (Service.step toupper) system.view (system.acts program label) =
      some next.view := by
  cases label with
  | arrives conn bytes =>
      obtain ⟨sockets, arrived, rfl⟩ := Option.map_eq_some_iff.mp stepped
      rw [acts, run_singleton_eq_some_iff]
      exact Sockets.service_arrive arrived
  | finishes conn =>
      cases stepped
      rw [acts, run_singleton_eq_some_iff]
      exact Sockets.service_finish
  | turn round taken =>
      obtain ⟨joined, turned⟩ := turned_of_step stepped
      have serves := (program.serves valid.server turned.isRound).2
      have isJoined := valid.isJoined serves.possible turned.joins
      simp only [acts, turned.isRound, turned.joins]
      rw [run_append_eq_some_iff]
      exact
        ⟨_, run_acceptActs valid.coherent turned.joins,
          Sockets.run_dealAllActs isJoined.coherent
            (valid.performed positive turned)⟩

theorem Valid.takesAll_iff
    (valid : Valid program system) (positive : 0 < listenFd)
    (stepped : system.step program label = some next) :
    system.TakesAll listenFd label ↔
      StepsMeet (Service.step toupper) Service.Complete system.view
        (system.acts program label) := by
  cases label with
  | arrives conn bytes =>
      rw [acts, stepsMeet_singleton_iff]
      exact Iff.rfl
  | finishes conn =>
      rw [acts, stepsMeet_singleton_iff]
      exact Iff.rfl
  | turn round taken =>
      obtain ⟨joined, turned⟩ := turned_of_step stepped
      have serves := (program.serves valid.server turned.isRound).2
      have isJoined := valid.isJoined serves.possible turned.joins
      have whole :=
        Sockets.whole_dealAll_iff isJoined.coherent
          (valid.performed positive turned)
      simp only [acts, turned.isRound, turned.joins]
      have first :
          run (Service.step toupper) system.view
              (acceptActs listenFd round system.sockets) =
            some (joined.service fun _ => .nothing) :=
        run_acceptActs valid.coherent turned.joins
      rw [stepsMeet_append_iff first, ← whole,
        and_iff_right (stepsMeet_acceptActs round system.sockets _)]
      unfold dealings
      rw [List.forall_mem_map]
      constructor
      · intro takes fd inOrder
        obtain ⟨ready, different⟩ := (serves.once.exactly fd).mp inOrder
        exact whole_dealingFor_iff.mpr (takes fd ready different)
      · intro takes fd ready different
        exact
          whole_dealingFor_iff.mp
            (takes fd ((serves.once.exactly fd).mpr ⟨ready, different⟩))

def simulation
    (program : SelectProgram listenFd σ) (positive : 0 < listenFd) :
    Simulation (step program) (Service.step toupper) where
  view := view
  acts := acts program
  Valid := Valid program
  valid_step := fun valid stepped => valid.step positive stepped
  run_acts := fun valid stepped => valid.run_acts positive stepped

/-- The clients have back what was read from them exactly where each answer
was taken whole, and then those that have left have all of it. -/
def Echoes
    (program : SelectProgram listenFd σ) (labels : List SelectLabel)
    (last : SelectSystem σ) : Prop :=
  ((∀ conn, (last.view conn).Exact toupper) ↔
      StepsMeet (step program) (TakesAll listenFd) (start program) labels) ∧
    (StepsMeet (step program) (TakesAll listenFd) (start program) labels →
      ∀ conn, (last.sockets.channels conn).place = .closed →
        (last.sockets.channels conn).ended = true ∧
          (last.sockets.channels conn).returned =
            (last.sockets.channels conn).sent.map toupper)

theorem echoes_of_run
    (positive : 0 < listenFd) {labels : List SelectLabel}
    {last : SelectSystem σ}
    (ran : run (step program) (start program) labels = some last) :
    Echoes program labels last :=
  served_iff (simulation program positive)
    (fun valid stepped => valid.takesAll_iff positive stepped)
    (valid_start program) rfl ran

end Echo

/-- Between two turns of either select server the clients have got back what
was read from them, in capital letters and in order, and no byte of another
client, if and only if every `Write` so far was taken whole; then a client
whose connection was closed has ended its stream and has got back all of
it. -/
theorem echoed_by_select_iff
    (positive : 0 < listenFd) (labels : List SelectLabel) :
    (∀ last,
        run (step (plainProgram listenFd)) (start (plainProgram listenFd))
            labels = some last →
          Echoes (plainProgram listenFd) labels last) ∧
      ∀ last,
        run (step (slotProgram listenFd)) (start (slotProgram listenFd))
            labels = some last →
          Echoes (slotProgram listenFd) labels last :=
  ⟨fun _ ran => echoes_of_run positive ran,
    fun _ ran => echoes_of_run positive ran⟩

theorem echoed_by_select_iff_two_clients :
    ∃ plain slots,
      run (step (plainProgram 3)) (start (plainProgram 3)) twoClients =
          some plain ∧
        run (step (slotProgram 3)) (start (slotProgram 3)) twoClients =
            some slots ∧
          Echoes (plainProgram 3) twoClients plain ∧
            Echoes (slotProgram 3) twoClients slots :=
  ⟨_, _, rfl, rfl,
    (echoed_by_select_iff (by decide) twoClients).1 _ rfl,
    (echoed_by_select_iff (by decide) twoClients).2 _ rfl⟩

end SelectSystem

end LinuxNet.Multiplex
