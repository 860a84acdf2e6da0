import LinuxNet.Lib.Pairing
import LinuxNet.WebServer.Ownership

/-!
# Mappings and their release

`do_request` maps a file, `unmap` releases it, and closing the connection is
the deadline.  The trace of a slot of `users` balances with `m_file_address`
as long as no hang-up meets a mapped file, every file looked up can be mapped,
and no store hits `m_file_address` of a neighbour; then a file is mapped only
while its connection is armed for `EPOLLOUT` with a response to send, and
`write` releases it on every way that ends the response.
-/

namespace LinuxNet.WebServer

open LinuxNet.StepSystem LinuxNet.Pairing

/-- A mapping is acquired and released with its address and its length. -/
def Event.mappingAction : Event → Action (FileAddress × Int)
  | .mmap address length => .acquire (.mapping address, length)
  | .munmap address length => .release (address, length)
  | .close _ => .deadline
  | _ => .other

/-- Events without a part in the life of a mapping. -/
def Event.IsUnmapping (event : Event) : Prop :=
  event.mappingAction = .other

theorem Event.IsQuiet.isUnmapping
    {event : Event} (quiet : event.IsQuiet) : event.IsUnmapping := by
  cases event <;> first | rfl | cases quiet

namespace Conn

/-- The mapping that `m_file_address` and `m_file_stat` describe. -/
def mapping (c : Conn) : Option (FileAddress × Int) :=
  if c.fileAddress = .null then
    none
  else
    some (c.fileAddress, c.fileStat.stSize)

/-- The mapping described is the one that the trace leaves. -/
def Balanced (c : Conn) : Prop :=
  heldAfter Event.mappingAction none c.trace = some c.mapping

section Balanced

variable {c d : Conn}

theorem mapping_eq_none (null : c.fileAddress = .null) :
    c.mapping = none :=
  if_pos null

theorem Balanced.since
    (balanced : c.Balanced) (since : Since Event.IsUnmapping c d)
    (same : d.mapping = c.mapping) : d.Balanced := by
  obtain ⟨events, shape, indifferent⟩ := since
  unfold Balanced at balanced ⊢
  rw [shape, same]
  exact
    heldAfter_append_iff.mpr
      ⟨c.mapping, balanced, heldAfter_indifferent indifferent⟩

theorem Balanced.quiet (balanced : c.Balanced) (quiet : Quiet c d) :
    d.Balanced := by
  have same : d.mapping = c.mapping := by
    unfold mapping
    rw [quiet.fileAddress_eq, quiet.fileStat_eq]
  exact
    balanced.since (quiet.since.mono fun _ isQuiet => isQuiet.isUnmapping)
      same

theorem Balanced.modfd (balanced : c.Balanced) (interest : Interest) :
    (c.modfd interest).Balanced := by
  have unmapping : (Event.epollMod c.sockfd interest).IsUnmapping := rfl
  exact balanced.since (.single unmapping rfl) rfl

theorem unmap_fileAddress (c : Conn) : c.unmap.fileAddress = .null := by
  unfold unmap
  split
  · rfl
  · next null => exact not_not.mp null

theorem Balanced.unmap (balanced : c.Balanced) : c.unmap.Balanced := by
  unfold Conn.unmap
  split
  · next mapped =>
      have held : c.mapping = some (c.fileAddress, c.fileStat.stSize) :=
        if_neg mapped
      unfold Balanced at balanced ⊢
      rw [held] at balanced
      refine heldAfter_append_iff.mpr ⟨_, balanced, ?_⟩
      exact
        heldAfter_cons_iff.mpr ⟨none, advance_release_iff.mpr ⟨rfl, rfl⟩, rfl⟩
  · exact balanced

theorem Balanced.closeConn
    (balanced : c.Balanced) (null : c.fileAddress = .null) :
    c.closeConn.Balanced := by
  by_cases isOpen : c.sockfd ≠ -1
  · rw [closeConn_of_open isOpen]
    unfold Balanced at balanced ⊢
    rw [mapping_eq_none null] at balanced
    refine heldAfter_append_iff.mpr ⟨none, balanced, ?_⟩
    exact (congrArg some (mapping_eq_none null).symm)
  · unfold Conn.closeConn
    rw [if_neg isOpen]
    exact balanced

end Balanced

end Conn

/-- A slot at its place: the trace balances, a file is mapped only while a
response waits to be sent, and the write buffer of a connection that reads is
empty. -/
structure Tidy (place : Place) (c : Conn) : Prop where
  balanced : c.Balanced
  sending : c.fileAddress ≠ .null →
    place = .armed .epollOut ∧ c.writeIdx ≠ 0
  reading : place ≠ .closed → place ≠ .armed .epollOut →
    c.writeIdx = 0 ∧ c.writeBuf.length = writeBufferSize

section Tidy

variable {c d e : Conn} {place : Place}

theorem Tidy.null_of_ne
    (tidy : Tidy place c) (ne : place ≠ .armed .epollOut) :
    c.fileAddress = .null := by
  by_cases null : c.fileAddress = .null
  · exact null
  · exact absurd (tidy.sending null).1 ne

/-- Without a mapping, a slot that is closed or sends is tidy. -/
theorem Tidy.of_null
    (balanced : c.Balanced) (null : c.fileAddress = .null)
    (done : place = .closed ∨ place = .armed .epollOut) :
    Tidy place c where
  balanced := balanced
  sending := fun mapped => absurd null mapped
  reading := fun notClosed notSending => by
    rcases done with closed | sending
    · exact absurd closed notClosed
    · exact absurd sending notSending

/-- A slot without a mapping may be closed. -/
theorem Tidy.closeConn
    (balanced : c.Balanced) (null : c.fileAddress = .null) :
    Tidy .closed c.closeConn := by
  refine .of_null (balanced.closeConn null) ?_ (.inl rfl)
  unfold Conn.closeConn
  split <;> exact null

theorem Tidy.reads
    (balanced : c.Balanced) (null : c.fileAddress = .null)
    (empty : c.writeIdx = 0) (size : c.writeBuf.length = writeBufferSize) :
    Tidy place c where
  balanced := balanced
  sending := fun mapped => absurd null mapped
  reading := fun _ _ => ⟨empty, size⟩

/-- The re-initialised object, armed for the next request. -/
theorem Tidy.initialised (balanced : c.Balanced) (null : c.fileAddress = .null) :
    Tidy place c.init :=
  .reads (balanced.quiet (Conn.quiet_init c)) null rfl List.length_replicate

theorem Tidy.modfd (tidy : Tidy place c) (interest : Interest) :
    Tidy place (c.modfd interest) :=
  { tidy with balanced := tidy.balanced.modfd interest }

theorem tidy_initWith
    (tidy : Tidy .closed c) (sockfd : Int) (address : SockAddr) :
    Tidy (.armed .epollIn) (c.initWith sockfd address) := by
  have null := tidy.null_of_ne (fun impossible => nomatch impossible)
  have events :
      Conn.Since Event.IsUnmapping c (c.initWith sockfd address) := by
    refine ⟨[.epollAdd sockfd, .userCount 1], ?_, ?_⟩
    · show (c.trace ++ [_]) ++ [_] = _
      rw [List.append_assoc]
      rfl
    · intro event member
      simp only [List.mem_cons, List.not_mem_nil, or_false] at member
      rcases member with rfl | rfl <;> rfl
  exact .reads (tidy.balanced.since events rfl) null rfl List.length_replicate

theorem tidy_written
    {interest : Interest} (tidy : Tidy (.armed .epollOut) c)
    (returns : Conn.WriteReturns c (some interest) d) :
    Tidy (.armed interest) d := by
  cases returns with
  | idle empty =>
      have null : c.fileAddress = .null := by
        by_cases null : c.fileAddress = .null
        · exact null
        · exact absurd empty (tidy.sending null).2
      exact .initialised (tidy.balanced.modfd _) null
  | @again d pending sends =>
      have quiet := sends.quiet
      have balanced := (tidy.balanced.quiet quiet).modfd .epollOut
      refine ⟨balanced, fun mapped => ⟨rfl, ?_⟩, ?_⟩
      · show d.writeIdx ≠ 0
        rw [sends.writeIdx_eq]
        exact pending
      · exact fun _ ne => absurd rfl ne
  | @kept d pending sends linger =>
      have balanced := (tidy.balanced.quiet sends.quiet).unmap
      exact
        (Tidy.initialised balanced (Conn.unmap_fileAddress d)).modfd .epollIn

theorem tidy_writeFails
    (tidy : Tidy (.armed .epollOut) c)
    (returns : Conn.WriteReturns c none d) : Tidy .closed d.closeConn := by
  cases returns with
  | @error d pending sends =>
      exact
        .closeConn (tidy.balanced.quiet sends.quiet).unmap
          (Conn.unmap_fileAddress d)
  | @dropped d pending sends linger =>
      exact
        .closeConn ((tidy.balanced.quiet sends.quiet).unmap.modfd .epollIn)
          (Conn.unmap_fileAddress d)

end Tidy

/-- The files that a request may name can be mapped, and are not empty. -/
def Mappable (fs : FileSystem) (c : Conn) : Prop :=
  ∀ path fileStat, c.requestedPath = some path →
    fs.Serves path fileStat →
      fileStat.stSize ≠ 0 ∧ fs.mmap path fileStat.stSize ≠ none

section Process

variable {fs : FileSystem} {c d e : Conn} {code : HttpCode}

/-- A request that maps a file is answered with the file. -/
theorem writeIdx_fileRequest
    (size : e.writeBuf.length = writeBufferSize) (empty : e.writeIdx = 0)
    (nonempty : e.fileStat.stSize ≠ 0) :
    (e.processWrite .fileRequest).1 = true ∧
      (e.processWrite .fileRequest).2.writeIdx ≠ 0 := by
  obtain ⟨next, queued, idxEq, writtenEq, _, _⟩ :=
    processWrite_fileRequest size empty nonempty
  rw [queued]
  refine ⟨rfl, ?_⟩
  show next.writeIdx ≠ 0
  rw [idxEq, writtenEq, List.length_append]
  have status : (statusLine .fileRequest).length = 17 := by decide
  omega

/-- After `process_write` the trace balances, and a mapped file goes with a
response. -/
theorem tidy_processWrite
    (tidy : Tidy .taken c) (mappable : Mappable fs c)
    (reads : Conn.ReadsOnly c d) (inside : Conn.StoresInside c d)
    (answers : Conn.Answers fs c d code e) :
    (e.processWrite code).2.Balanced ∧
      ((e.processWrite code).2.fileAddress ≠ .null →
        (e.processWrite code).1 = true ∧
          (e.processWrite code).2.writeIdx ≠ 0) := by
  have null : c.fileAddress = .null :=
    tidy.null_of_ne (fun impossible => nomatch impossible)
  obtain ⟨empty, size⟩ :=
    tidy.reading (fun impossible => nomatch impossible)
      (fun impossible => nomatch impossible)
  have dNull : d.fileAddress = .null := reads.fileAddress_eq.trans null
  have dBalanced := tidy.balanced.quiet (reads.quiet inside)
  have prints := (Conn.processWrite_printsOnly e code).quiet
  have quietly :
      e.Balanced → e.fileAddress = .null →
        (e.processWrite code).2.Balanced ∧
          ((e.processWrite code).2.fileAddress ≠ .null →
            (e.processWrite code).1 = true ∧
              (e.processWrite code).2.writeIdx ≠ 0) := by
    intro balanced eNull
    refine ⟨balanced.quiet prints, fun mapped => ?_⟩
    rw [prints.fileAddress_eq] at mapped
    exact absurd eNull mapped
  have unmapped :
      e.trace = d.trace → e.fileAddress = d.fileAddress → e.Balanced := by
    intro trace_eq fileAddress_eq
    refine dBalanced.since (.of_trace_eq trace_eq) ?_
    rw [Conn.mapping_eq_none dNull,
      Conn.mapping_eq_none (fileAddress_eq.trans dNull)]
  rcases answers with ⟨rfl, rfl⟩ | ⟨path, requested⟩
  · exact quietly dBalanced dNull
  · cases requested with
    | missing stat => exact quietly (unmapped rfl rfl) dNull
    | refused stat codeEq => exact quietly (unmapped rfl rfl) dNull
    | @unmapped fileStat serves failed =>
        exact absurd failed (mappable _ _ path serves).2
    | @mapped fileStat address serves succeeded =>
        have nonempty := (mappable _ _ path serves).1
        refine ⟨Conn.Balanced.quiet ?_ prints, fun _ => ?_⟩
        · unfold Conn.Balanced at dBalanced ⊢
          rw [Conn.mapping_eq_none dNull] at dBalanced
          exact
            heldAfter_append_iff.mpr
              ⟨none, dBalanced,
                heldAfter_cons_iff.mpr
                  ⟨_, advance_acquire_iff.mpr ⟨rfl, rfl⟩, rfl⟩⟩
        · refine writeIdx_fileRequest ?_ ?_ nonempty
          · exact (congrArg List.length reads.writeBuf_eq).trans size
          · exact reads.writeIdx_eq.trans empty

theorem tidy_processed
    {interest : Interest} (tidy : Tidy .taken c) (mappable : Mappable fs c)
    (inside : Conn.StoresInside c d)
    (ends : Conn.ProcessEnds fs c (some interest) d) :
    Tidy (.armed interest) d := by
  cases ends with
  | @waits d framed reads =>
      have null : c.fileAddress = .null :=
        tidy.null_of_ne (fun impossible => nomatch impossible)
      obtain ⟨empty, size⟩ :=
        tidy.reading (fun impossible => nomatch impossible)
          (fun impossible => nomatch impossible)
      have later : Conn.Since (fun _ => True) d (d.modfd .epollIn) :=
        .single trivial rfl
      have quiet := reads.quiet (inside.of_since reads.trace_eq later)
      refine Tidy.modfd ?_ .epollIn
      refine
        .reads (tidy.balanced.quiet quiet)
          (reads.fileAddress_eq.trans null) (reads.writeIdx_eq.trans empty) ?_
      rw [reads.writeBuf_eq]
      exact size
  | @answers d e code reads answers framed written =>
      obtain ⟨balanced, mapped⟩ :=
        tidy_processWrite tidy mappable reads
          (answers.inside reads inside (.single trivial rfl)) answers
      exact
        ⟨balanced.modfd .epollOut, fun isMapped => ⟨rfl, (mapped isMapped).2⟩,
          fun _ ne => absurd rfl ne⟩

theorem tidy_processFails
    (tidy : Tidy .taken c) (mappable : Mappable fs c)
    (inside : Conn.StoresInside c d)
    (ends : Conn.ProcessEnds fs c none d) : Tidy .closed d := by
  cases ends with
  | @fails d e code reads answers framed unwritten =>
      obtain ⟨balanced, mapped⟩ :=
        tidy_processWrite tidy mappable reads
          (answers.inside reads inside
            ((Conn.since_closeConn _).trans (.single trivial rfl)))
          answers
      have null : (e.processWrite code).2.fileAddress = .null := by
        by_cases null : (e.processWrite code).2.fileAddress = .null
        · exact null
        · rw [(mapped null).1] at unwritten
          cases unwritten
      exact (Tidy.closeConn balanced null).modfd .epollOut

end Process

/-! ## Runs of the server -/

namespace Server

section Runs

variable {pool : Pool} {pages : Nat → List UInt8}

/-- No hang-up meets a mapped file, every file looked up can be mapped, and
no `process()` stores outside `m_read_buf`. -/
def HandlesMappings (s : Server) : Label → Prop
  | .hangUp sockfd => (s.users sockfd).fileAddress = .null
  | .process request fs =>
      Mappable fs (s.users request) ∧ s.StoresInside (.process request fs)
  | .overrun _ _ _ => False
  | _ => True

theorem HandlesMappings.inside
    {s : Server} {label : Label} (handles : HandlesMappings s label) :
    s.StoresInside label := by
  cases label with
  | process request fs => exact handles.2
  | overrun request fs users => exact handles
  | accept | hangUp | epollIn | epollOut | dequeue => trivial

theorem tidy_move
    {s : Server} {fd : Nat} {label : Label} {place newPlace : Place} {c : Conn}
    (framed : place ≠ .closed → (s.users fd).Framed)
    (handles : HandlesMappings s label) (tidy : Tidy place (s.users fd))
    (move : Move pool s fd label place c newPlace) : Tidy newPlace c := by
  have idle :
      place ≠ .closed → place ≠ .armed .epollOut →
        ∀ {d : Conn} {other : Place}, Conn.Quiet (s.users fd) d →
          d.writeIdx = (s.users fd).writeIdx →
            d.writeBuf = (s.users fd).writeBuf → Tidy other d := by
    intro notClosed notSending d other quiet writeIdx_eq writeBuf_eq
    obtain ⟨empty, size⟩ := tidy.reading notClosed notSending
    refine
      .reads (tidy.balanced.quiet quiet)
        (quiet.fileAddress_eq.trans (tidy.null_of_ne notSending))
        (writeIdx_eq.trans empty) ?_
    rw [writeBuf_eq]
    exact size
  have received :
      ∀ {blocks : List (List UInt8)} {last : RecvEnd} {other : Place},
        (s.users fd).Receivable blocks → place = .armed .epollIn →
          Tidy other ((s.users fd).read blocks last).2 := by
    intro blocks last other receivable isReading
    have notClosed : place ≠ .closed := by
      rw [isReading]
      exact fun impossible => nomatch impossible
    have notSending : place ≠ .armed .epollOut := by
      rw [isReading]
      exact fun impossible => nomatch impossible
    have quiet := Conn.quiet_read (framed notClosed) receivable last
    rcases Conn.read_snd (framed notClosed) receivable last with same | block
    · rw [same] at quiet ⊢
      exact idle notClosed notSending quiet rfl rfl
    · rw [block] at quiet ⊢
      exact idle notClosed notSending quiet rfl rfl
  cases move with
  | accept address => exact tidy_initWith tidy fd address
  | hangUp interest => exact .closeConn tidy.balanced handles
  | read receivable drained room => exact received receivable rfl
  | refused receivable drained full => exact received receivable rfl
  | @readFails blocks last receivable failed =>
      have after :
          Tidy .stranded ((s.users fd).read blocks last).2 :=
        received receivable rfl
      exact
        .closeConn after.balanced
          (after.null_of_ne (fun impossible => nomatch impossible))
  | written returns => exact tidy_written tidy returns
  | writeFails returns => exact tidy_writeFails tidy returns
  | dequeue =>
      exact
        idle (fun impossible => nomatch impossible)
          (fun impossible => nomatch impossible) (.refl _) rfl rfl
  | processed inside ends =>
      exact tidy_processed tidy handles.1 inside ends
  | processFails inside ends =>
      exact tidy_processFails tidy handles.1 inside ends

def AllTidy (s : Server) : Prop :=
  ∀ fd, ∃ place, s.At fd place ∧ Tidy place (s.users fd)

theorem allTidy_start
    {users : Nat → Conn}
    (zeroed :
      ∀ fd, (users fd).fileAddress = .null ∧ (users fd).trace = []) :
    (start users).AllTidy := by
  intro fd
  obtain ⟨null, trace⟩ := zeroed fd
  refine ⟨.closed, ⟨rfl, rfl, rfl, rfl⟩, .of_null ?_ null (.inl rfl)⟩
  show heldAfter _ none (users fd).trace = some (users fd).mapping
  rw [trace, Conn.mapping_eq_none null]
  rfl

theorem allTidy_step
    (s : Server) (label : Label) (next : Server) (tidy : s.AllTidy)
    (handles : HandlesMappings s label)
    (stepped : s.step pool pages label = some next) : next.AllTidy :=
  everywhere_step Tidy (fun handles => handles.inside)
    (fun handles framed slot move => tidy_move framed handles slot move)
    s label next tidy handles stepped

/-- Mappings are paired: when no hang-up meets a mapped file, every file
looked up can be mapped and no `process()` stores outside `m_read_buf`, each
mapping of a slot is released once, with its address and its length, before
the next one and before the connection is closed, and nothing else is
released. -/
theorem mappings_paired
    {users : Nat → Conn} {labels : List Label} {last : Server}
    (zeroed :
      ∀ fd, (users fd).fileAddress = .null ∧ (users fd).trace = [])
    (handles :
      StepsMeet (step pool pages) HandlesMappings (start users) labels)
    (ran : run (step pool pages) (start users) labels = some last)
    (fd : Nat) :
    Paired Event.mappingAction (last.users fd).trace := by
  have tidy :=
    guarded_run_keeps HandlesMappings AllTidy allTidy_step
      (allTidy_start zeroed) handles ran
  obtain ⟨place, _, slot⟩ := tidy fd
  exact paired_of_heldAfter slot.balanced

def oneFile : FileSystem :=
  ⟨fun _ => some ⟨0o100644, 5⟩, fun _ _ => some 3⟩

theorem mappable_oneFile (c : Conn) : Mappable oneFile c := by
  intro path fileStat _ serves
  cases serves.1
  exact ⟨by decide, fun impossible => nomatch impossible⟩

def mapsFile : List Label :=
  [.accept 5 ⟨0, 0⟩, .epollIn 5 [Conn.getRoot] .eagain, .dequeue,
    .process 5 oneFile]

/-- When the response is sent, the mapping is released. -/
theorem mappings_paired_sent :
    ∃ last,
      run (step {} fun _ => ascii "hello") (start fun _ => Conn.zeroed)
          (mapsFile ++ [.epollOut 5 [.accepted 62]]) = some last ∧
        Paired Event.mappingAction (last.users 5).trace := by
  have isSome :
      (run (step {} fun _ => ascii "hello") (start fun _ => Conn.zeroed)
        (mapsFile ++ [.epollOut 5 [.accepted 62]])).isSome := by
    decide +kernel
  obtain ⟨last, ran⟩ := Option.isSome_iff_exists.mp isSome
  have taken :
      (run (step {} fun _ => ascii "hello") (start fun _ => Conn.zeroed)
        [.accept 5 ⟨0, 0⟩, .epollIn 5 [Conn.getRoot] .eagain, .dequeue]).map
          (fun s =>
            decide
              (Conn.StoresInside (s.users 5)
                ((s.users 5).process oneFile))) = some true := by
    decide +kernel
  obtain ⟨middle, reached, decided⟩ := Option.map_eq_some_iff.mp taken
  have inside :
      Conn.StoresInside (middle.users 5)
        ((middle.users 5).process oneFile) :=
    of_decide_eq_true decided
  have meets :
      StepsMeet (step {} fun _ => ascii "hello") HandlesMappings
        (start fun _ => Conn.zeroed)
        [.accept 5 ⟨0, 0⟩, .epollIn 5 [Conn.getRoot] .eagain, .dequeue] :=
    ⟨trivial, fun _ _ => ⟨trivial, fun _ _ => ⟨trivial, fun _ _ => trivial⟩⟩⟩
  have later :
      StepsMeet (step {} fun _ => ascii "hello") HandlesMappings middle
        [.process 5 oneFile, .epollOut 5 [.accepted 62]] :=
    ⟨⟨mappable_oneFile _, inside⟩,
      fun _ _ => ⟨trivial, fun _ _ => trivial⟩⟩
  exact
    ⟨last, ran,
      mappings_paired (fun _ => ⟨rfl, rfl⟩)
        (append_stepsMeet meets reached later) ran 5⟩

/-- When the client hangs up instead, the connection is closed and the
mapping is not released. -/
theorem mapping_lost_on_hangUp :
    ∃ last,
      run (step {} fun _ => ascii "hello") (start fun _ => Conn.zeroed)
          (mapsFile ++ [.hangUp 5]) = some last ∧
        ¬ Paired Event.mappingAction (last.users 5).trace := by
  have unpaired :
      (run (step {} fun _ => ascii "hello") (start fun _ => Conn.zeroed)
        (mapsFile ++ [.hangUp 5])).map
          (fun last =>
            (heldAfter Event.mappingAction none
              (last.users 5).trace).isSome) = some false := by
    decide +kernel
  obtain ⟨last, ran, stops⟩ := Option.map_eq_some_iff.mp unpaired
  refine ⟨last, ran, fun paired => ?_⟩
  rw [(paired_iff_heldAfter _).mp paired] at stops
  cases stops

end Runs

end Server

end LinuxNet.WebServer
