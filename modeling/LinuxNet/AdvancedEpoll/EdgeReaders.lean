import LinuxNet.Lib.EdgeTriggered
import LinuxNet.Wrap.Readn

/-!
# Two readers of an edge-triggered socket

The reader of `test_ET_blocking.c` calls `Readn` once for each report of its
socket, and falls behind, as a report stands for any number of arrivals and a
block is all that it takes.  The one of `test_ET_nonblocking.c` calls `Readn`
until it fails.  It never sleeps on unread bytes.  Either of them loses the
bytes that `Readn` has taken when a `read` fails inside a block.
-/

namespace LinuxNet.AdvancedEpoll

open LinuxNet.DrainLoop LinuxNet.EdgeTriggered LinuxNet.StepSystem
open LinuxNet.Wrap

/-- Whether `client_fd` has `O_NONBLOCK`. -/
inductive Mode where
  | blocking
  | nonblocking
  deriving DecidableEq, Repr

/-- Where `main` stands: in `epoll_wait`; in `Readn`, with the calls of `read`
that it has made; in front of `Write`; or behind the inner loop. -/
inductive MainAt where
  | waits
  | readn (calls : List SocketRead)
  | writes (buf : List UInt8)
  | leaves
  deriving DecidableEq, Repr

/-- The client sends, closes or resets the connection, the ready list is
looked through in vain, or `main` goes on. -/
inductive ReaderLabel where
  | arrives (bytes : List UInt8)
  | finishes
  | resets
  | settles
  | epollWait
  | read (returned : SocketRead)
  | write
  | leaves
  deriving DecidableEq, Repr

structure EdgeReader where
  socket : Source UInt8
  mainAt : MainAt
  printed : List UInt8

/-- The bytes that `Readn` has put into `buf`. -/
def storedBy (calls : List SocketRead) : List UInt8 :=
  calls.flatMap fun call =>
    match call with
    | .takes bytes => bytes
    | .atEnd | .eintr | .eagain => []

namespace EdgeReader

/-- Behind `epoll_ctl`, on a socket on which nothing has arrived. -/
def start : EdgeReader :=
  ⟨.fresh, .waits, []⟩

/-- `read` with room for some bytes.  A socket returns the error of a reset
once, behind the bytes that have arrived; one that blocks does not return
`EAGAIN`. -/
def answer (mode : Mode) (socket : Source UInt8) (room : Nat) :
    SocketRead → Option (Source UInt8)
  | .takes bytes =>
      if bytes ≠ [] ∧ bytes.length ≤ room ∧ bytes <+: socket.unread then
        some (socket.take bytes.length)
      else
        none
  | .atEnd =>
      if socket.ended = true ∧ socket.broken = false ∧ socket.unread = [] then
        some socket
      else
        none
  | .eintr => some socket
  -- `ECONNRESET` is to `Readn` what `EAGAIN` is
  | .eagain =>
      if socket.unread = [] ∧
          (socket.ended = true ∧ socket.broken = true ∨
            mode = .nonblocking ∧ socket.ended = false) then
        some socket.mend
      else
        none

/-- What `main` does with the value of `Readn`. -/
def afterReadn (mode : Mode) (block : Block) : MainAt :=
  match mode with
  -- `Write` of −1 bytes fails with `EFAULT`
  | .blocking => .writes (if block.value < 0 then [] else block.stored)
  | .nonblocking =>
      if 0 < block.value then .writes block.stored else .leaves

def step (mode : Mode) (reader : EdgeReader) :
    ReaderLabel → Option EdgeReader
  | .arrives bytes =>
      (reader.socket.arrive bytes).map fun socket =>
        { reader with socket := socket }
  | .finishes =>
      reader.socket.finish.map fun socket => { reader with socket := socket }
  | .resets =>
      reader.socket.fail.map fun socket => { reader with socket := socket }
  | .settles =>
      reader.socket.settle.map fun socket => { reader with socket := socket }
  | .epollWait =>
      if reader.mainAt = .waits then
        reader.socket.report.map fun socket =>
          { reader with socket := socket, mainAt := .readn [] }
      else
        none
  | .read returned =>
      match reader.mainAt with
      | .readn calls =>
          (answer mode reader.socket (blockSize - (storedBy calls).length)
            returned).map fun socket =>
              { reader with
                socket := socket
                mainAt :=
                  match readn blockSize (calls ++ [returned]) with
                  | some block => afterReadn mode block
                  | none => .readn (calls ++ [returned]) }
      | .waits | .writes _ | .leaves => none
  | .write =>
      match reader.mainAt with
      | .writes buf =>
          some
            { reader with
              printed := reader.printed ++ buf
              mainAt :=
                match mode with
                | .blocking => .waits
                | .nonblocking => .readn [] }
      | .waits | .readn _ | .leaves => none
  | .leaves =>
      if reader.mainAt = .leaves then
        some { reader with mainAt := .waits }
      else
        none

/-! ## `Readn` call by call -/

@[simp]
theorem storedBy_takes (calls : List SocketRead) (bytes : List UInt8) :
    storedBy (calls ++ [.takes bytes]) = storedBy calls ++ bytes := by
  simp [storedBy]

@[simp]
theorem storedBy_eintr (calls : List SocketRead) :
    storedBy (calls ++ [.eintr]) = storedBy calls := by
  simp [storedBy]

/-- `Readn` is in its loop behind these calls. -/
structure Underway (calls : List SocketRead) : Prop where
  short : (storedBy calls).length < blockSize
  goesOn :
    ∀ rest, readn blockSize (calls ++ rest) =
      readnLoop rest (blockSize - (storedBy calls).length) (storedBy calls)

theorem underway_nil : Underway [] :=
  ⟨by decide, fun _ => rfl⟩

variable {mode : Mode} {reader next : EdgeReader} {label : ReaderLabel}
variable {calls : List SocketRead} {bytes : List UInt8}

/-- The loop goes round once more. -/
theorem Underway.loop
    (underway : Underway calls) (rest : List SocketRead) :
    ∃ nleft, blockSize - (storedBy calls).length = nleft + 1 ∧
      readn blockSize (calls ++ rest) =
        readnLoop rest (nleft + 1) (storedBy calls) := by
  have short := underway.short
  refine ⟨blockSize - (storedBy calls).length - 1, by omega, ?_⟩
  rw [underway.goesOn]
  congr 1
  omega

theorem Underway.readn_none (underway : Underway calls) :
    readn blockSize calls = none := by
  obtain ⟨nleft, _, loops⟩ := underway.loop []
  rw [List.append_nil] at loops
  rw [loops]
  rfl

theorem Underway.eintr (underway : Underway calls) :
    Underway (calls ++ [.eintr]) := by
  refine ⟨by rw [storedBy_eintr]; exact underway.short, fun rest => ?_⟩
  obtain ⟨nleft, left, loops⟩ := underway.loop (.eintr :: rest)
  rw [List.append_assoc, List.singleton_append, loops, storedBy_eintr, left]
  rfl

theorem Underway.takes
    (underway : Underway calls) (nonempty : bytes ≠ [])
    (fits : bytes.length ≤ blockSize - (storedBy calls).length)
    (rest : List SocketRead) :
    readn blockSize (calls ++ [.takes bytes] ++ rest) =
      readnLoop rest (blockSize - (storedBy (calls ++ [.takes bytes])).length)
        (storedBy (calls ++ [.takes bytes])) := by
  have positive := List.length_pos_iff.mpr nonempty
  obtain ⟨nleft, left, loops⟩ := underway.loop (.takes bytes :: rest)
  rw [List.append_assoc, List.singleton_append, loops, storedBy_takes,
    readnLoop, if_pos ⟨positive, by omega⟩, List.length_append]
  congr 1
  omega

theorem Underway.part
    (underway : Underway calls) (nonempty : bytes ≠ [])
    (fits : bytes.length < blockSize - (storedBy calls).length) :
    Underway (calls ++ [.takes bytes]) := by
  refine ⟨?_, underway.takes nonempty (by omega)⟩
  rw [storedBy_takes, List.length_append]
  omega

theorem Underway.whole
    (underway : Underway calls) (nonempty : bytes ≠ [])
    (fits : bytes.length = blockSize - (storedBy calls).length) :
    (storedBy calls ++ bytes).length = blockSize ∧
      readn blockSize (calls ++ [.takes bytes]) =
        some ⟨blockSize, storedBy calls ++ bytes, []⟩ := by
  have short := underway.short
  have full : (storedBy calls ++ bytes).length = blockSize := by
    rw [List.length_append]
    omega
  refine ⟨full, ?_⟩
  have loops := underway.takes nonempty (by omega) []
  rw [List.append_nil, storedBy_takes] at loops
  rw [loops, full, Nat.sub_self, readnLoop, full]

theorem Underway.atEnd (underway : Underway calls) :
    readn blockSize (calls ++ [.atEnd]) =
      some ⟨(storedBy calls).length, storedBy calls, []⟩ := by
  obtain ⟨nleft, _, loops⟩ := underway.loop [.atEnd]
  rw [loops]
  rfl

theorem Underway.eagain (underway : Underway calls) :
    readn blockSize (calls ++ [.eagain]) =
      some ⟨-1, storedBy calls, []⟩ := by
  obtain ⟨nleft, _, loops⟩ := underway.loop [.eagain]
  rw [loops]
  rfl

/-- Where `main` stands behind a `Readn` that has failed. -/
def behindFailure : Mode → MainAt
  | .blocking => .writes []
  | .nonblocking => .leaves

inductive Took (mode : Mode) :
    EdgeReader → ReaderLabel → EdgeReader → Prop
  | arrives {reader : EdgeReader} {bytes : List UInt8}
      {socket : Source UInt8}
      (arrived : reader.socket.arrive bytes = some socket) :
      Took mode reader (.arrives bytes) { reader with socket := socket }
  | finishes {reader : EdgeReader} {socket : Source UInt8}
      (finished : reader.socket.finish = some socket) :
      Took mode reader .finishes { reader with socket := socket }
  | resets {reader : EdgeReader} {socket : Source UInt8}
      (failed : reader.socket.fail = some socket) :
      Took mode reader .resets { reader with socket := socket }
  | settles {reader : EdgeReader} {socket : Source UInt8}
      (settled : reader.socket.settle = some socket) :
      Took mode reader .settles { reader with socket := socket }
  | reported {socket later : Source UInt8} {printed : List UInt8}
      (reported : socket.report = some later) :
      Took mode ⟨socket, .waits, printed⟩ .epollWait
        ⟨later, .readn [], printed⟩
  | part {socket : Source UInt8} {calls : List SocketRead}
      {printed bytes : List UInt8} (isPrefix : bytes <+: socket.unread)
      (nonempty : bytes ≠ []) (underway : Underway (calls ++ [.takes bytes])) :
      Took mode ⟨socket, .readn calls, printed⟩ (.read (.takes bytes))
        ⟨socket.take bytes.length, .readn (calls ++ [.takes bytes]), printed⟩
  | whole {socket : Source UInt8} {calls : List SocketRead}
      {printed bytes : List UInt8} (isPrefix : bytes <+: socket.unread)
      (nonempty : bytes ≠ [])
      (full : (storedBy calls ++ bytes).length = blockSize) :
      Took mode ⟨socket, .readn calls, printed⟩ (.read (.takes bytes))
        ⟨socket.take bytes.length, .writes (storedBy calls ++ bytes),
          printed⟩
  | interrupted {socket : Source UInt8} {calls : List SocketRead}
      {printed : List UInt8} (underway : Underway (calls ++ [.eintr])) :
      Took mode ⟨socket, .readn calls, printed⟩ (.read .eintr)
        ⟨socket, .readn (calls ++ [.eintr]), printed⟩
  | ended {socket : Source UInt8} {calls : List SocketRead}
      {printed : List UInt8} (isEnd : socket.ended = true)
      (unbroken : socket.broken = false) (nothing : socket.unread = []) :
      Took mode ⟨socket, .readn calls, printed⟩ (.read .atEnd)
        ⟨socket,
          if mode = .nonblocking ∧ storedBy calls = [] then
            .leaves
          else
            .writes (storedBy calls), printed⟩
  | dry {socket : Source UInt8} {calls : List SocketRead}
      {printed : List UInt8} (nothing : socket.unread = [])
      (cause :
        socket.ended = true ∧ socket.broken = true ∨
          mode = .nonblocking ∧ socket.ended = false) :
      Took mode ⟨socket, .readn calls, printed⟩ (.read .eagain)
        ⟨socket.mend, behindFailure mode, printed⟩
  | written {socket : Source UInt8} {printed buf : List UInt8} :
      Took mode ⟨socket, .writes buf, printed⟩ .write
        ⟨socket,
          match mode with
          | .blocking => .waits
          | .nonblocking => .readn [], printed ++ buf⟩
  | left {socket : Source UInt8} {printed : List UInt8} :
      Took mode ⟨socket, .leaves, printed⟩ .leaves
        ⟨socket, .waits, printed⟩

/-- `Readn` has been left in its loop. -/
def Valid (reader : EdgeReader) : Prop :=
  ∀ calls, reader.mainAt = .readn calls → Underway calls

theorem took_read
    (valid : reader.Valid) {returned : SocketRead}
    (stepped : reader.step mode (.read returned) = some next) :
    Took mode reader (.read returned) next := by
  obtain ⟨socket, mainAt, printed⟩ := reader
  simp only [step] at stepped
  split at stepped
  · next calls =>
      have underway := valid calls rfl
      obtain ⟨later, answered, rfl⟩ := Option.map_eq_some_iff.mp stepped
      cases returned with
      | takes bytes =>
          obtain ⟨⟨nonempty, fits, isPrefix⟩, isLater⟩ :=
            Option.ite_none_right_eq_some.mp answered
          cases isLater
          rcases Nat.lt_or_eq_of_le fits with short | full
          · have later := underway.part nonempty short
            rw [later.readn_none]
            exact .part isPrefix nonempty later
          · obtain ⟨whole, returns⟩ := underway.whole nonempty full
            have place :
                afterReadn mode ⟨blockSize, storedBy calls ++ bytes, []⟩ =
                  .writes (storedBy calls ++ bytes) := by
              cases mode <;> rfl
            rw [returns]
            simp only [place]
            exact .whole isPrefix nonempty whole
      | atEnd =>
          obtain ⟨⟨isEnd, unbroken, nothing⟩, isLater⟩ :=
            Option.ite_none_right_eq_some.mp answered
          cases isLater
          have place :
              afterReadn mode
                  ⟨(storedBy calls).length, storedBy calls, []⟩ =
                if mode = .nonblocking ∧ storedBy calls = [] then
                  .leaves
                else
                  .writes (storedBy calls) := by
            cases mode with
            | blocking => rfl
            | nonblocking =>
                cases storedBy calls <;> simp [afterReadn]
          rw [underway.atEnd]
          simp only [place]
          exact .ended isEnd unbroken nothing
      | eintr =>
          cases answered
          rw [underway.eintr.readn_none]
          exact .interrupted underway.eintr
      | eagain =>
          obtain ⟨⟨nothing, cause⟩, isLater⟩ :=
            Option.ite_none_right_eq_some.mp answered
          cases isLater
          have place :
              afterReadn mode ⟨-1, storedBy calls, []⟩ =
                behindFailure mode := by
            cases mode <;> rfl
          rw [underway.eagain]
          simp only [place]
          exact .dry nothing cause
  · cases stepped
  · cases stepped
  · cases stepped

theorem Valid.took
    (valid : reader.Valid)
    (stepped : reader.step mode label = some next) :
    Took mode reader label next := by
  cases label with
  | arrives bytes =>
      obtain ⟨socket, arrived, rfl⟩ := Option.map_eq_some_iff.mp stepped
      exact .arrives arrived
  | finishes =>
      obtain ⟨socket, finished, rfl⟩ := Option.map_eq_some_iff.mp stepped
      exact .finishes finished
  | resets =>
      obtain ⟨socket, failed, rfl⟩ := Option.map_eq_some_iff.mp stepped
      exact .resets failed
  | settles =>
      obtain ⟨socket, settled, rfl⟩ := Option.map_eq_some_iff.mp stepped
      exact .settles settled
  | epollWait =>
      obtain ⟨socket, mainAt, printed⟩ := reader
      obtain ⟨waits, stepped⟩ := Option.ite_none_right_eq_some.mp stepped
      obtain ⟨later, isReported, rfl⟩ := Option.map_eq_some_iff.mp stepped
      cases waits
      exact .reported isReported
  | read returned => exact took_read valid stepped
  | write =>
      obtain ⟨socket, mainAt, printed⟩ := reader
      cases mainAt with
      | writes buf =>
          cases stepped
          exact .written
      | waits => cases stepped
      | readn calls => cases stepped
      | leaves => cases stepped
  | leaves =>
      obtain ⟨socket, mainAt, printed⟩ := reader
      obtain ⟨leaves, stepped⟩ := Option.ite_none_right_eq_some.mp stepped
      cases leaves
      cases stepped
      exact .left

theorem Took.valid (took : Took mode reader label next)
    (valid : reader.Valid) : next.Valid := by
  intro calls place
  cases took with
  | arrives arrived => exact valid calls place
  | finishes finished => exact valid calls place
  | resets failed => exact valid calls place
  | settles settled => exact valid calls place
  | reported isReported =>
      cases place
      exact underway_nil
  | part isPrefix nonempty underway =>
      cases place
      exact underway
  | whole isPrefix nonempty full => cases place
  | interrupted underway =>
      cases place
      exact underway
  | ended isEnd unbroken nothing =>
      simp only at place
      split at place <;> cases place
  | dry nothing cause => cases mode <;> cases place
  | written =>
      cases mode with
      | blocking => cases place
      | nonblocking =>
          cases place
          exact underway_nil
  | left => cases place

/-- What `main` has taken from the socket and not printed, and can still
print. -/
def hand (reader : EdgeReader) : List UInt8 :=
  match reader.mainAt with
  | .readn calls => storedBy calls
  | .writes buf => buf
  | .waits | .leaves => []

theorem unread_ne_nil
    {socket : Source UInt8} (isPrefix : bytes <+: socket.unread)
    (nonempty : bytes ≠ []) : socket.unread ≠ [] := by
  intro nothing
  rw [nothing] at isPrefix
  exact nonempty (List.prefix_nil.mp isPrefix)

theorem consumed_take
    {socket : Source UInt8} (isPrefix : bytes <+: socket.unread) :
    (socket.take bytes.length).consumed = socket.consumed ++ bytes := by
  unfold Source.take
  rw [← List.prefix_iff_eq_take.mp isPrefix]

/-- Everything that was taken has been printed or is at hand. -/
def Exact (reader : EdgeReader) : Prop :=
  reader.printed ++ reader.hand = reader.socket.consumed

/-- Where a `read` fails, the bytes so far are whole blocks. -/
def DryOnBorder (reader : EdgeReader) (label : ReaderLabel) : Prop :=
  label = .read .eagain →
    reader.socket.consumed.length % blockSize = 0

/-- Nothing is printed that was not taken, and only whole blocks are as long
as a `read` may fail. -/
structure Sound (reader : EdgeReader) : Prop where
  valid : reader.Valid
  sublist : (reader.printed ++ reader.hand).Sublist reader.socket.consumed
  blocks :
    reader.socket.MayFail →
      reader.printed.length % blockSize = 0 ∧
        ∀ buf, reader.mainAt = .writes buf → buf.length % blockSize = 0

theorem valid_start : start.Valid :=
  nofun

theorem sound_start : start.Sound :=
  ⟨valid_start, List.Sublist.refl _, fun _ => ⟨rfl, nofun⟩⟩

/-- A step that only brings news or goes on. -/
theorem Sound.same
    (sound : reader.Sound) (valid : next.Valid)
    (printed : next.printed = reader.printed)
    (hand : next.hand = reader.hand)
    (consumed : next.socket.consumed = reader.socket.consumed)
    (different : label ≠ .read .eagain)
    (blocks :
      next.socket.MayFail → reader.socket.MayFail ∧
        (next.mainAt = reader.mainAt ∨ ∀ buf, next.mainAt ≠ .writes buf)) :
    next.Sound ∧ (next.Exact ↔ reader.Exact ∧ reader.DryOnBorder label) := by
  refine ⟨⟨valid, ?_, fun mayFail => ?_⟩, ?_⟩
  · rw [printed, hand, consumed]
    exact sound.sublist
  · obtain ⟨before, place⟩ := blocks mayFail
    obtain ⟨whole, buffers⟩ := sound.blocks before
    rw [printed]
    refine ⟨whole, fun buf writes => ?_⟩
    rcases place with same | other
    · exact buffers buf (same ▸ writes)
    · exact absurd writes (other buf)
  · unfold Exact
    rw [printed, hand, consumed]
    exact (and_iff_left fun same => absurd same different).symm

/-- A step that takes some bytes and keeps them. -/
theorem Sound.kept
    (sound : reader.Sound) (valid : next.Valid)
    (printed : next.printed = reader.printed)
    (hand : next.hand = reader.hand ++ bytes)
    (consumed : next.socket.consumed = reader.socket.consumed ++ bytes)
    (different : label ≠ .read .eagain)
    (before : next.socket.MayFail → reader.socket.MayFail)
    (buffers :
      ∀ buf, next.mainAt = .writes buf → buf.length = blockSize) :
    next.Sound ∧ (next.Exact ↔ reader.Exact ∧ reader.DryOnBorder label) := by
  refine ⟨⟨valid, ?_, fun mayFail => ?_⟩, ?_⟩
  · rw [printed, hand, consumed, ← List.append_assoc]
    exact sound.sublist.append (List.Sublist.refl _)
  · rw [printed]
    refine ⟨(sound.blocks (before mayFail)).1, fun buf writes => ?_⟩
    rw [buffers buf writes]
    rfl
  · unfold Exact
    rw [printed, hand, consumed, ← List.append_assoc,
      List.append_left_inj]
    exact (and_iff_left fun same => absurd same different).symm

@[simp]
theorem hand_behindFailure (socket : Source UInt8) (printed : List UInt8) :
    hand ⟨socket, behindFailure mode, printed⟩ = [] := by
  cases mode <;> rfl

/-- A failing `read` loses what `Readn` has taken, which is nothing exactly
where whole blocks have been taken. -/
theorem Sound.dry
    {socket : Source UInt8} {printed : List UInt8}
    (sound : Sound ⟨socket, .readn calls, printed⟩)
    (mayFail : socket.MayFail) (mode : Mode) :
    Sound ⟨socket.mend, behindFailure mode, printed⟩ ∧
      (Exact ⟨socket.mend, behindFailure mode, printed⟩ ↔
        Exact ⟨socket, .readn calls, printed⟩ ∧
          DryOnBorder ⟨socket, .readn calls, printed⟩ (.read .eagain)) := by
  obtain ⟨valid, sublist, blocks⟩ := sound
  have short := (valid calls rfl).short
  have whole : printed.length % blockSize = 0 := (blocks mayFail).1
  have sublist : (printed ++ storedBy calls).Sublist socket.consumed :=
    sublist
  have fewer := sublist.length_le
  rw [List.length_append] at fewer
  refine ⟨⟨?_, ?_, fun _ => ⟨whole, fun buf writes => ?_⟩⟩, ?_⟩
  · intro others place
    cases mode <;> cases place
  · rw [hand_behindFailure, List.append_nil]
    exact (List.sublist_append_left _ _).trans sublist
  · cases mode <;> cases writes
    rfl
  · unfold Exact
    rw [hand_behindFailure, List.append_nil]
    show printed = socket.consumed ↔
      printed ++ storedBy calls = socket.consumed ∧ (_ → _)
    constructor
    · intro same
      rw [← same] at fewer
      have nothing : storedBy calls = [] :=
        List.eq_nil_of_length_eq_zero (by omega)
      rw [nothing, List.append_nil]
      refine ⟨same, fun _ => ?_⟩
      show socket.consumed.length % blockSize = 0
      rw [← same]
      exact whole
    · rintro ⟨same, border⟩
      have border : socket.consumed.length % blockSize = 0 := border rfl
      have lengths := congrArg List.length same
      rw [List.length_append] at lengths
      have nothing : storedBy calls = [] := by
        apply List.eq_nil_of_length_eq_zero
        simp only [blockSize] at short whole border
        omega
      rw [nothing, List.append_nil] at same
      exact same

/-- What is printed is exact behind a step where it was before and the step
does not fail inside a block. -/
theorem Took.sound
    (took : Took mode reader label next) (sound : reader.Sound) :
    next.Sound ∧ (next.Exact ↔ reader.Exact ∧ reader.DryOnBorder label) := by
  have valid := took.valid sound.valid
  cases took with
  | arrives arrived =>
      obtain ⟨_, _, rfl⟩ := Source.arrive_eq_some arrived
      exact
        sound.same valid rfl rfl rfl nofun fun before => ⟨before, .inl rfl⟩
  | finishes finished =>
      obtain ⟨running, rfl⟩ := Source.finish_eq_some finished
      exact
        sound.same valid rfl rfl rfl nofun fun _ => ⟨.inl running, .inl rfl⟩
  | resets failed =>
      obtain ⟨running, rfl⟩ := Source.fail_eq_some failed
      exact
        sound.same valid rfl rfl rfl nofun fun _ => ⟨.inl running, .inl rfl⟩
  | settles settled =>
      obtain ⟨_, _, _, rfl⟩ := Source.settle_eq_some settled
      exact
        sound.same valid rfl rfl rfl nofun fun before => ⟨before, .inl rfl⟩
  | reported isReported =>
      obtain ⟨_, _, rfl⟩ := Source.report_eq_some isReported
      exact
        sound.same valid rfl rfl rfl nofun
          fun before => ⟨before, .inr nofun⟩
  | part isPrefix nonempty underway =>
      exact
        sound.kept valid rfl (storedBy_takes _ _) (consumed_take isPrefix)
          nofun id nofun
  | whole isPrefix nonempty full =>
      refine
        sound.kept valid rfl rfl (consumed_take isPrefix) nofun id ?_
      intro buf writes
      cases writes
      exact full
  | interrupted underway =>
      exact
        sound.same valid rfl (storedBy_eintr _) rfl nofun
          fun before => ⟨before, .inr nofun⟩
  | @ended socket calls printed isEnd unbroken nothing =>
      refine sound.same valid rfl ?_ rfl nofun fun mayFail => ?_
      · unfold hand
        by_cases empty : mode = .nonblocking ∧ storedBy calls = []
        · simp only [if_pos empty]
          exact empty.2.symm
        · simp only [if_neg empty]
      · have mayFail : socket.ended = false ∨ socket.broken = true :=
          mayFail
        rw [isEnd, unbroken] at mayFail
        rcases mayFail with impossible | impossible <;> cases impossible
  | dry nothing cause =>
      refine sound.dry ?_ mode
      exact
        cause.elim (fun failed => .inr failed.2)
          (fun running => .inl running.2)
  | @written socket printed buf =>
      refine ⟨⟨valid, ?_, fun mayFail => ?_⟩, ?_⟩
      · have sublist : (printed ++ buf).Sublist socket.consumed :=
          sound.sublist
        cases mode <;>
          simpa only [hand, storedBy, List.flatMap_nil, List.append_nil]
            using sublist
      · obtain ⟨whole, buffers⟩ := sound.blocks mayFail
        have whole : printed.length % blockSize = 0 := whole
        have last := buffers buf rfl
        refine ⟨?_, fun other writes => ?_⟩
        · show (printed ++ buf).length % blockSize = 0
          rw [List.length_append, Nat.add_mod, whole, last]
          rfl
        · cases mode <;> cases writes
      · have isExact :
            (Exact ⟨socket, .writes buf, printed⟩ ∧
              DryOnBorder ⟨socket, .writes buf, printed⟩ .write) ↔
                printed ++ buf = socket.consumed :=
          and_iff_left nofun
        rw [isExact]
        cases mode <;>
          simp only [Exact, hand, storedBy, List.flatMap_nil,
            List.append_nil]
  | left =>
      exact
        sound.same valid rfl rfl rfl nofun
          fun before => ⟨before, .inr nofun⟩

theorem sound_run
    {labels : List ReaderLabel} {last : EdgeReader}
    (ran : run (step mode) start labels = some last) :
    last.Sound ∧
      (last.Exact ↔ StepsMeet (step mode) DryOnBorder start labels) := by
  have steps :
      ∀ (reader : EdgeReader) (label : ReaderLabel) (next : EdgeReader),
        reader.Sound → reader.step mode label = some next →
          next.Sound ∧
            (next.Exact ↔ reader.Exact ∧ reader.DryOnBorder label) :=
    fun _ _ _ sound stepped => (sound.valid.took stepped).sound sound
  refine
    ⟨run_keeps Sound
      (fun reader label next sound stepped =>
        (steps reader label next sound stepped).1) sound_start ran, ?_⟩
  rw [run_good_iff DryOnBorder Sound Exact steps sound_start ran]
  exact and_iff_right rfl

/-! ## The reader that blocks -/

/-- How much of `buf` there is left to fill. -/
def room (reader : EdgeReader) : Nat :=
  match reader.mainAt with
  | .readn calls => blockSize - (storedBy calls).length
  | .waits | .writes _ | .leaves => 0

def isNews : ReaderLabel → Bool
  | .arrives _ | .finishes | .resets => true
  | .settles | .epollWait | .read _ | .write | .leaves => false

/-- With the room in `buf` so many blocks have been taken, or all bytes up to
the end of the stream. -/
def Due (reader : EdgeReader) (blocks : Nat) : Prop :=
  reader.socket.consumed.length + reader.room = blockSize * blocks ∨
    reader.socket.ended = true ∧ reader.socket.unread = [] ∧
      reader.socket.consumed.length + reader.room ≤ blockSize * blocks

/-- At the end of the stream it does not matter how much of the last block
there was. -/
theorem Due.atEnd
    {socket later : Source UInt8} {printed stored : List UInt8} {blocks : Nat}
    (due : Due ⟨socket, .readn calls, printed⟩ blocks)
    (isEnd : later.ended = true) (nothing : later.unread = [])
    (same : later.consumed = socket.consumed) :
    Due ⟨later, .writes stored, printed⟩ blocks := by
  refine .inr ⟨isEnd, nothing, ?_⟩
  have most :
      socket.consumed.length + room ⟨socket, .readn calls, printed⟩ ≤
        blockSize * blocks := by
    rcases due with exactly | ⟨_, _, most⟩
    · exact Nat.le_of_eq exactly
    · exact most
  show later.consumed.length + 0 ≤ blockSize * blocks
  rw [same]
  omega

/-- As long as the stream goes on, the blocks have been taken whole. -/
theorem Due.of_running
    {blocks : Nat} (due : reader.Due blocks)
    (runs : reader.socket.ended = false) :
    reader.socket.consumed.length + reader.room = blockSize * blocks := by
  rcases due with same | ⟨isEnd, _⟩
  · exact same
  · rw [runs] at isEnd
    cases isEnd

theorem Took.due
    (took : Took .blocking reader label next) {blocks : Nat}
    (due : reader.Due blocks) (running : reader.mainAt ≠ .leaves) :
    next.mainAt ≠ .leaves ∧
      next.Due (blocks + if label = .epollWait then 1 else 0) := by
  cases took with
  | arrives arrived =>
      obtain ⟨runs, _, rfl⟩ := Source.arrive_eq_some arrived
      exact ⟨running, .inl (due.of_running runs)⟩
  | finishes finished =>
      obtain ⟨runs, rfl⟩ := Source.finish_eq_some finished
      exact ⟨running, .inl (due.of_running runs)⟩
  | resets failed =>
      obtain ⟨runs, rfl⟩ := Source.fail_eq_some failed
      exact ⟨running, .inl (due.of_running runs)⟩
  | settles settled =>
      obtain ⟨_, _, _, rfl⟩ := Source.settle_eq_some settled
      exact ⟨running, due⟩
  | @reported socket later printed isReported =>
      obtain ⟨_, _, rfl⟩ := Source.report_eq_some isReported
      refine ⟨nofun, ?_⟩
      rw [if_pos rfl]
      rcases due with same | ⟨isEnd, nothing, most⟩
      · have same : socket.consumed.length = blockSize * blocks := same
        refine .inl ?_
        show socket.consumed.length + blockSize = blockSize * (blocks + 1)
        rw [same, Nat.mul_add, Nat.mul_one]
      · have most : socket.consumed.length ≤ blockSize * blocks := most
        refine .inr ⟨isEnd, nothing, ?_⟩
        show socket.consumed.length + blockSize ≤ blockSize * (blocks + 1)
        rw [Nat.mul_add, Nat.mul_one]
        omega
  | @part socket calls printed bytes isPrefix nonempty underway =>
      refine ⟨nofun, ?_⟩
      rcases due with same | ⟨_, nothing, _⟩
      · have short := underway.short
        have same :
            socket.consumed.length +
                (blockSize - (storedBy calls).length) =
              blockSize * blocks :=
          same
        refine .inl ?_
        show (socket.take bytes.length).consumed.length +
            (blockSize - (storedBy (calls ++ [.takes bytes])).length) =
          blockSize * blocks
        rw [consumed_take isPrefix, List.length_append, ← same]
        rw [storedBy_takes, List.length_append] at short ⊢
        omega
      · exact absurd nothing (unread_ne_nil isPrefix nonempty)
  | @whole socket calls printed bytes isPrefix nonempty full =>
      refine ⟨nofun, ?_⟩
      rcases due with same | ⟨_, nothing, _⟩
      · have same :
            socket.consumed.length +
                (blockSize - (storedBy calls).length) =
              blockSize * blocks :=
          same
        refine .inl ?_
        show (socket.take bytes.length).consumed.length =
          blockSize * blocks
        rw [consumed_take isPrefix, List.length_append, ← same]
        rw [List.length_append] at full
        omega
      · exact absurd nothing (unread_ne_nil isPrefix nonempty)
  | @interrupted socket calls printed underway =>
      refine ⟨nofun, ?_⟩
      unfold Due room at due ⊢
      simp only [storedBy_eintr]
      exact due
  | ended isEnd unbroken nothing =>
      rw [if_neg fun impossible => nomatch impossible.1]
      exact ⟨nofun, due.atEnd isEnd nothing rfl⟩
  | dry nothing cause =>
      rcases cause with ⟨isEnd, _⟩ | ⟨impossible, _⟩
      · exact ⟨nofun, due.atEnd isEnd nothing rfl⟩
      · cases impossible
  | written => exact ⟨nofun, due⟩
  | left => exact absurd rfl running

/-- A report takes the socket off the list, and only news puts it there. -/
theorem Took.reported_le
    (took : Took mode reader label next) {reports news : Nat}
    (bound : reports + reader.socket.ready.toNat ≤ news) :
    (reports + if label = .epollWait then 1 else 0) +
        next.socket.ready.toNat ≤
      news + (isNews label).toNat := by
  cases took with
  | arrives arrived =>
      obtain ⟨_, _, rfl⟩ := Source.arrive_eq_some arrived
      simp only [reduceCtorEq, if_false, isNews, Bool.toNat_true]
      omega
  | finishes finished =>
      obtain ⟨_, rfl⟩ := Source.finish_eq_some finished
      simp only [reduceCtorEq, if_false, isNews, Bool.toNat_true]
      omega
  | resets failed =>
      obtain ⟨_, rfl⟩ := Source.fail_eq_some failed
      simp only [reduceCtorEq, if_false, isNews, Bool.toNat_true]
      omega
  | settles settled =>
      obtain ⟨_, _, _, rfl⟩ := Source.settle_eq_some settled
      simp only [reduceCtorEq, if_false, isNews, Bool.toNat_false]
      omega
  | reported isReported =>
      obtain ⟨ready, _, rfl⟩ := Source.report_eq_some isReported
      simp only [ready, Bool.toNat_true] at bound
      simp only [if_true, isNews, Bool.toNat_false]
      omega
  | _ =>
      simp only [reduceCtorEq, if_false, isNews, Bool.toNat_false]
      exact bound

structure BlockByBlock
    (past : List ReaderLabel) (reader : EdgeReader) : Prop where
  valid : reader.Valid
  running : reader.mainAt ≠ .leaves
  due : reader.Due (past.count .epollWait)
  reported :
    past.count .epollWait + reader.socket.ready.toNat ≤ past.countP isNews

theorem blockByBlock_step
    (past : List ReaderLabel) (reader : EdgeReader) (label : ReaderLabel)
    (next : EdgeReader) (before : BlockByBlock past reader)
    (stepped : reader.step .blocking label = some next) :
    BlockByBlock (past ++ [label]) next := by
  have took := before.valid.took stepped
  have count :
      (past ++ [label]).count .epollWait =
        past.count .epollWait + if label = .epollWait then 1 else 0 := by
    rw [List.count_append, List.count_singleton]
    simp
  have news :
      (past ++ [label]).countP isNews =
        past.countP isNews + (isNews label).toNat := by
    rw [List.countP_append, List.countP_singleton]
    cases isNews label <;> rfl
  obtain ⟨running, due⟩ := took.due before.due before.running
  refine ⟨took.valid before.valid, running, ?_, ?_⟩
  · rw [count]
    exact due
  · rw [count, news]
    exact took.reported_le before.reported

/-- The reader that blocks takes one block of the stream for each report: while
it waits it has taken as many blocks as were reported to it, or the whole
stream, and there were no more reports than times at which something arrived.
It has printed what it has taken, in order, if and only if no `read` has failed
inside a block. -/
theorem one_block_for_a_report
    {labels : List ReaderLabel} {last : EdgeReader}
    (ran : run (step .blocking) start labels = some last)
    (waits : last.mainAt = .waits) :
    last.socket.consumed =
        last.socket.sent.take (blockSize * labels.count .epollWait) ∧
      (last.printed = last.socket.consumed ↔
        StepsMeet (step .blocking) DryOnBorder start labels) ∧
        labels.count .epollWait ≤ labels.countP isNews := by
  have begins : BlockByBlock [] start :=
    ⟨valid_start, nofun, .inl rfl, Nat.le_refl 0⟩
  have blocks := run_keeps_history BlockByBlock blockByBlock_step begins ran
  rw [List.nil_append] at blocks
  obtain ⟨_, isExact⟩ := sound_run ran
  have due := blocks.due
  unfold Due room at due
  rw [waits, Nat.add_zero] at due
  refine ⟨?_, ?_, ?_⟩
  · unfold Source.sent
    rcases due with same | ⟨_, nothing, most⟩
    · exact (List.take_left' same).symm
    · rw [nothing, List.append_nil, List.take_of_length_le most]
  · rw [← isExact]
    unfold Exact hand
    rw [waits, List.append_nil]
  · have bound := blocks.reported
    omega

/-- Seven bytes and a reset, and two of the bytes are lost. -/
def resetInside : List ReaderLabel :=
  [.arrives [1, 2, 3, 4, 5, 6, 7], .epollWait, .read (.takes [1, 2, 3, 4, 5]),
    .write, .resets, .epollWait, .read (.takes [6, 7]), .read .eagain, .write]

theorem one_block_for_a_report_reset :
    ∃ last,
      run (step .blocking) start resetInside = some last ∧
        last.socket.consumed = last.socket.sent.take (blockSize * 2) ∧
          (last.printed = last.socket.consumed ↔
            StepsMeet (step .blocking) DryOnBorder start resetInside) ∧
            2 ≤ 2 :=
  ⟨_, rfl, @one_block_for_a_report resetInside _ rfl rfl⟩

def worker : MainAt → Worker
  | .waits => .away
  | .readn _ | .writes _ => .drains
  | .leaves => .leaves

/-- Unread bytes are announced behind a step. -/
theorem Took.announced
    (took : Took .nonblocking reader label next)
    (announced :
      Announced (reader.socket.notice (worker reader.mainAt))) :
    Announced (next.socket.notice (worker next.mainAt)) := by
  cases took with
  | arrives arrived =>
      exact announced.move (Source.moves_arrive arrived _)
  | finishes finished =>
      exact announced.move (Source.moves_finish finished _)
  | resets failed =>
      exact announced.move (Source.moves_fail failed _)
  | settles settled => exact Source.announced_settle settled _
  | reported isReported =>
      exact announced.move (Source.moves_report isReported)
  | part isPrefix nonempty underway =>
      exact
        announced.move
          (Source.moves_take (unread_ne_nil isPrefix nonempty) _)
  | whole isPrefix nonempty full =>
      exact
        announced.move
          (Source.moves_take (unread_ne_nil isPrefix nonempty) _)
  | interrupted underway => exact announced
  | ended isEnd unbroken nothing =>
      simp only
      split
      · exact announced.move (Source.moves_findsNone nothing)
      · exact announced
  | dry nothing cause =>
      exact announced.move (Source.moves_findsNone nothing)
  | written => exact announced
  | left => exact announced.move Source.moves_returns

/-- The reader that does not block never sleeps on unread bytes: while it
waits and its socket is not on the ready list, it has taken everything that
the client has sent; and everything has been printed if and only if the bytes
sent were whole blocks whenever a call of `read` found none left and failed,
be it with `EAGAIN` or with the error of a reset. -/
theorem asleep_with_all_taken
    {labels : List ReaderLabel} {last : EdgeReader}
    (ran : run (step .nonblocking) start labels = some last)
    (waits : last.mainAt = .waits) (quiet : last.socket.ready = false) :
    last.socket.unread = [] ∧
      (last.printed = last.socket.sent ↔
        StepsMeet (step .nonblocking) DryOnBorder start labels) := by
  have announced :
      last.Valid ∧
        Announced (last.socket.notice (worker last.mainAt)) := by
    have begins : Announced (start.socket.notice .away) := by
      intro impossible
      cases impossible
    refine
      run_keeps
        (fun reader : EdgeReader => reader.Valid ∧
          Announced (reader.socket.notice (worker reader.mainAt)))
        ?_ ⟨valid_start, begins⟩ ran
    rintro reader label next ⟨valid, announced⟩ stepped
    have took := valid.took stepped
    exact ⟨took.valid valid, took.announced announced⟩
  have nothing : last.socket.unread = [] := by
    refine Source.unread_eq_nil ?_ quiet
    have isAnnounced := announced.2
    rw [waits] at isAnnounced
    exact isAnnounced
  obtain ⟨_, isExact⟩ := sound_run ran
  refine ⟨nothing, ?_⟩
  rw [← isExact]
  unfold Exact hand Source.sent
  rw [waits, nothing, List.append_nil, List.append_nil]

/-- Seven bytes, of which five are printed. -/
theorem asleep_with_all_taken_seven :
    ∃ last,
      run (step .nonblocking) start
          [.arrives [1, 2, 3, 4, 5, 6, 7], .epollWait,
            .read (.takes [1, 2, 3, 4, 5]), .write, .read (.takes [6, 7]),
            .read .eagain, .leaves] = some last ∧
        last.socket.unread = [] ∧
          (last.printed = last.socket.sent ↔
            StepsMeet (step .nonblocking) DryOnBorder start
              [.arrives [1, 2, 3, 4, 5, 6, 7], .epollWait,
                .read (.takes [1, 2, 3, 4, 5]), .write,
                .read (.takes [6, 7]), .read .eagain, .leaves]) :=
  ⟨_, rfl, asleep_with_all_taken rfl rfl rfl⟩

end EdgeReader

end LinuxNet.AdvancedEpoll
