import Mathlib.Data.List.GetD
import LinuxNet.Lib.StepSystem

/-!
# The line reader with a static buffer

`my_read` reads ahead into a static buffer that all descriptors share.  A
call of `Readline` that finds bytes of another descriptor there returns them
as its own.  Where each call finds the buffer empty, or filled from its own
descriptor, the calls on a descriptor return its lines as if there were no
others.
-/

namespace LinuxNet.Wrap

open LinuxNet.StepSystem

/-- What a call of `read` does.  A number of bytes is given unless the stream
is at its end, where `read` returns 0. -/
inductive ReadCall where
  | gives (count : Nat)
  | eintr
  | fails
  deriving DecidableEq, Repr

/-- `sizeof(read_buf)`. -/
def readBufSize : Nat := 100

/-- The static variables of `my_read`; `source` is the descriptor that the
buffer was filled from, which the program does not store. -/
structure ReadAhead where
  readBuf : List UInt8
  readPtr : Nat
  readCnt : Int
  source : Nat

/-- The bytes of each descriptor that are still to be read, and the static
variables. -/
structure World where
  streams : Nat → List UInt8
  ahead : ReadAhead

/-- What `my_read` returns. -/
inductive MyRead where
  | byte (byte : UInt8)
  | atEnd
  | failed
  deriving DecidableEq, Repr

/-- A result with the calls of `read` that are left and the state. -/
structure Outcome (α : Type) where
  result : α
  calls : List ReadCall
  world : World

/-- The state after `read` put the next bytes of a stream into `read_buf`. -/
def World.refill (world : World) (fd count : Nat) : World where
  streams other :=
    if other = fd then (world.streams fd).drop count
    else world.streams other
  ahead :=
    { readBuf :=
        (world.streams fd).take count ++ world.ahead.readBuf.drop count
      readPtr := 0
      readCnt := count
      source := fd }

/-- `read(fd, read_buf, sizeof(read_buf))`, repeated after `EINTR`; the
result is `read_cnt`. -/
def fill (fd : Nat) : List ReadCall → World → Option (Outcome Int)
  | [], _ => none
  | .eintr :: calls, world => fill fd calls world
  | .fails :: calls, world =>
      some
        ⟨-1, calls,
          { world with ahead := { world.ahead with readCnt := -1 } }⟩
  | .gives count :: calls, world =>
      if world.streams fd = [] then
        some
          ⟨0, calls, { world with ahead := { world.ahead with readCnt := 0 } }⟩
      else if 1 ≤ count ∧ count ≤ readBufSize ∧
          count ≤ (world.streams fd).length then
        some ⟨count, calls, world.refill fd count⟩
      else
        none

/-- `read_cnt --; *ptr = *read_ptr ++`. -/
def takeByte (calls : List ReadCall) (world : World) : Outcome MyRead :=
  ⟨.byte (world.ahead.readBuf.getD world.ahead.readPtr 0), calls,
    { world with
      ahead :=
        { world.ahead with
          readPtr := world.ahead.readPtr + 1
          readCnt := world.ahead.readCnt - 1 } }⟩

def myRead (fd : Nat) (calls : List ReadCall) (world : World) :
    Option (Outcome MyRead) :=
  if world.ahead.readCnt ≤ 0 then
    (fill fd calls world).map fun filled =>
      if filled.result < 0 then
        ⟨.failed, filled.calls, filled.world⟩
      else if filled.result = 0 then
        ⟨.atEnd, filled.calls, filled.world⟩
      else
        takeByte filled.calls filled.world
  else
    some (takeByte calls world)

/-- Why the loop of `Readline` ended. -/
inductive LineEnd where
  | newline
  | atEnd
  | full
  | failed
  deriving DecidableEq, Repr

/-- The bytes stored before the terminator. -/
structure Stored where
  ends : LineEnd
  bytes : List UInt8
  deriving DecidableEq, Repr

/-- The loop of `Readline`, with `left` turns to go. -/
def readlineLoop (fd : Nat) :
    Nat → List ReadCall → World → Option (Outcome Stored)
  | 0, calls, world => some ⟨⟨.full, []⟩, calls, world⟩
  | left + 1, calls, world =>
      (myRead fd calls world).bind fun read =>
        match read.result with
        | .byte byte =>
            if byte = 10 then
              some ⟨⟨.newline, [10]⟩, read.calls, read.world⟩
            else
              (readlineLoop fd left read.calls read.world).map fun rest =>
                ⟨⟨rest.result.ends, byte :: rest.result.bytes⟩, rest.calls,
                  rest.world⟩
        | .atEnd => some ⟨⟨.atEnd, []⟩, read.calls, read.world⟩
        | .failed => some ⟨⟨.failed, []⟩, read.calls, read.world⟩

/-- The value of `Readline`, where `n` is one more than the bytes stored
unless a newline ended the loop. -/
def Stored.value (stored : Stored) : Int :=
  match stored.ends with
  | .newline => stored.bytes.length
  | .atEnd => (stored.bytes.length + 1 : Nat) - 1
  | .full => stored.bytes.length + 1
  | .failed => -1

def readline (fd maxlen : Nat) (calls : List ReadCall) (world : World) :
    Option (Outcome Stored) :=
  readlineLoop fd (maxlen - 1) calls world

/-- A call of `Readline` with what the calls of `read` in it do; none of them
fails. -/
structure Call where
  fd : Nat
  maxlen : Nat
  calls : List ReadCall
  succeeds : ReadCall.fails ∉ calls

structure Returned where
  fd : Nat
  maxlen : Nat
  stored : Stored
  deriving DecidableEq, Repr

structure System where
  world : World
  log : List Returned

namespace System

def start (streams : Nat → List UInt8) : System :=
  ⟨⟨streams, ⟨List.replicate readBufSize 0, 0, 0, 0⟩⟩, []⟩

def step (system : System) (call : Call) : Option System :=
  (readline call.fd call.maxlen call.calls system.world).map fun returned =>
    ⟨returned.world,
      system.log ++ [⟨call.fd, call.maxlen, returned.result⟩]⟩

end System

def callsOn (fd : Nat) (log : List Returned) : List Returned :=
  log.filter fun returned => returned.fd = fd

def bytesOn (fd : Nat) (log : List Returned) : List UInt8 :=
  (callsOn fd log).flatMap fun returned => returned.stored.bytes

/-- The next line of a stream, of less than `left + 1` bytes. -/
def takeLine : Nat → List UInt8 → Stored × List UInt8
  | 0, stream => (⟨.full, []⟩, stream)
  | _ + 1, [] => (⟨.atEnd, []⟩, [])
  | left + 1, byte :: stream =>
      if byte = 10 then
        (⟨.newline, [10]⟩, stream)
      else
        let rest := takeLine left stream
        (⟨rest.1.ends, byte :: rest.1.bytes⟩, rest.2)

/-- What calls with the given sizes store one after the other when the stream
is theirs alone, and what they leave of it. -/
def alone : List UInt8 → List Nat → List Stored × List UInt8
  | stream, [] => ([], stream)
  | stream, maxlen :: maxlens =>
      let line := takeLine (maxlen - 1) stream
      let rest := alone line.2 maxlens
      (line.1 :: rest.1, rest.2)

/-- The calls on each descriptor return what they return when it is read
alone, and the bytes of a prefix of its stream. -/
def Separate (streams : Nat → List UInt8) (system : System) : Prop :=
  ∀ fd,
    (callsOn fd system.log).map Returned.stored =
        (alone (streams fd)
          ((callsOn fd system.log).map Returned.maxlen)).1 ∧
      bytesOn fd system.log <+: streams fd

/-! ## What is left for a descriptor -/

/-- The bytes between `read_ptr` and the end of what was read. -/
def ReadAhead.buffered (ahead : ReadAhead) : List UInt8 :=
  (ahead.readBuf.drop ahead.readPtr).take ahead.readCnt.toNat

/-- `read_cnt` does not reach beyond the buffer. -/
def ReadAhead.Sound (ahead : ReadAhead) : Prop :=
  ahead.readPtr + ahead.readCnt.toNat ≤ ahead.readBuf.length

/-- The buffer is empty, or was filled from the descriptor. -/
def ReadAhead.Mine (ahead : ReadAhead) (fd : Nat) : Prop :=
  ahead.readCnt ≤ 0 ∨ ahead.source = fd

instance (ahead : ReadAhead) (fd : Nat) : Decidable (ahead.Mine fd) := by
  unfold ReadAhead.Mine
  infer_instance

/-- The bytes that the next calls on a descriptor should return. -/
def World.pending (world : World) (fd : Nat) : List UInt8 :=
  (if world.ahead.source = fd then world.ahead.buffered else []) ++
    world.streams fd

theorem ReadAhead.buffered_of_empty
    {ahead : ReadAhead} (empty : ahead.readCnt ≤ 0) :
    ahead.buffered = [] := by
  unfold ReadAhead.buffered
  rw [Int.toNat_of_nonpos empty, List.take_zero]

theorem World.pending_of_empty
    {world : World} (empty : world.ahead.readCnt ≤ 0) (fd : Nat) :
    world.pending fd = world.streams fd := by
  unfold World.pending
  rw [ReadAhead.buffered_of_empty empty, ite_self, List.nil_append]

theorem World.pending_other
    {world : World} {fd other : Nat} (mine : world.ahead.Mine fd)
    (different : other ≠ fd) :
    world.pending other = world.streams other := by
  rcases mine with empty | source
  · exact World.pending_of_empty empty other
  · unfold World.pending
    rw [if_neg (by rw [source]; exact Ne.symm different), List.nil_append]

/-- What a call of `my_read` or `Readline` on a descriptor leaves behind: the
buffer is its own, and nothing is taken from the others. -/
structure Keeps (fd : Nat) (world : World) {α : Type} (outcome : Outcome α) :
    Prop where
  sound : outcome.world.ahead.Sound
  mine : outcome.world.ahead.Mine fd
  succeeds : ReadCall.fails ∉ outcome.calls
  others :
    ∀ other, other ≠ fd →
      outcome.world.pending other = world.pending other

section OneCall

variable {fd : Nat} {world : World}

theorem buffered_refill
    {count : Nat} (available : count ≤ (world.streams fd).length) :
    (world.refill fd count).ahead.buffered =
      (world.streams fd).take count := by
  unfold ReadAhead.buffered World.refill
  rw [Int.toNat_natCast, List.drop_zero, List.take_append_of_le_length,
    List.take_take, Nat.min_self]
  rw [List.length_take]
  omega

theorem sound_refill
    {count : Nat} (available : count ≤ (world.streams fd).length) :
    (world.refill fd count).ahead.Sound := by
  show 0 + (count : Int).toNat ≤
    ((world.streams fd).take count ++
      world.ahead.readBuf.drop count).length
  rw [Int.toNat_natCast, List.length_append,
    List.length_take_of_le available]
  omega

theorem pending_refill
    {count : Nat} (available : count ≤ (world.streams fd).length)
    (empty : world.ahead.readCnt ≤ 0) (other : Nat) :
    (world.refill fd count).pending other = world.pending other := by
  rw [World.pending_of_empty empty]
  unfold World.pending
  rw [buffered_refill available]
  by_cases same : other = fd
  · subst same
    show (if other = other then _ else _) ++
      (if other = other then _ else _) = _
    rw [if_pos rfl, if_pos rfl, List.take_append_drop]
  · show (if fd = other then _ else _) ++ (if other = fd then _ else _) = _
    rw [if_neg (Ne.symm same), if_neg same, List.nil_append]

/-- `fill` on an empty buffer moves bytes of the descriptor into it, or finds
the stream at its end. -/
theorem fill_spec
    {calls : List ReadCall} (sound : world.ahead.Sound)
    (empty : world.ahead.readCnt ≤ 0) (succeeds : ReadCall.fails ∉ calls)
    {filled : Outcome Int} (fills : fill fd calls world = some filled) :
    Keeps fd world filled ∧
      filled.world.pending fd = world.pending fd ∧
        (filled.result = 0 ∧ world.pending fd = [] ∨
          0 < filled.result ∧
            filled.world.ahead.readCnt = filled.result ∧
              filled.world.ahead.source = fd) := by
  induction calls with
  | nil => cases fills
  | cons call calls inductionHypothesis =>
      rw [List.mem_cons, not_or] at succeeds
      cases call with
      | eintr => exact inductionHypothesis succeeds.2 fills
      | fails => exact absurd rfl succeeds.1
      | gives count =>
          rw [fill] at fills
          by_cases atEnd : world.streams fd = []
          · rw [if_pos atEnd] at fills
            cases fills
            have pendingEq :
                ∀ other,
                  World.pending
                      { world with
                        ahead := { world.ahead with readCnt := 0 } } other =
                    world.pending other := by
              intro other
              rw [World.pending_of_empty (Int.le_refl 0),
                World.pending_of_empty empty]
            refine ⟨⟨?_, Or.inl (Int.le_refl 0), succeeds.2,
              fun other _ => pendingEq other⟩, pendingEq fd, Or.inl ⟨rfl, ?_⟩⟩
            · unfold ReadAhead.Sound at *
              show world.ahead.readPtr + 0 ≤ world.ahead.readBuf.length
              omega
            · rw [World.pending_of_empty empty, atEnd]
          · rw [if_neg atEnd] at fills
            by_cases fits : 1 ≤ count ∧ count ≤ readBufSize ∧
                count ≤ (world.streams fd).length
            · rw [if_pos fits] at fills
              cases fills
              refine ⟨⟨sound_refill fits.2.2, Or.inr rfl, succeeds.2,
                fun other _ => pending_refill fits.2.2 empty other⟩,
                pending_refill fits.2.2 empty fd, Or.inr ⟨?_, rfl, rfl⟩⟩
              show (0 : Int) < count
              omega
            · rw [if_neg fits] at fills
              cases fills

/-- A byte in the buffer is the next one that is due. -/
theorem takeByte_spec
    {calls : List ReadCall} (sound : world.ahead.Sound)
    (filled : 0 < world.ahead.readCnt) (source : world.ahead.source = fd)
    (succeeds : ReadCall.fails ∉ calls) :
    Keeps fd world (takeByte calls world) ∧
      ∃ byte, (takeByte calls world).result = .byte byte ∧
        world.pending fd =
          byte :: (takeByte calls world).world.pending fd := by
  obtain ⟨count, countEq⟩ :
      ∃ count : Nat, world.ahead.readCnt = (count + 1 : Nat) :=
    ⟨world.ahead.readCnt.toNat - 1, by omega⟩
  have inside : world.ahead.readPtr < world.ahead.readBuf.length := by
    unfold ReadAhead.Sound at sound
    omega
  have left : world.ahead.readCnt - 1 = (count : Nat) := by omega
  have after :
      (takeByte calls world).world.ahead.buffered =
        (world.ahead.readBuf.drop (world.ahead.readPtr + 1)).take count := by
    show List.take (world.ahead.readCnt - 1).toNat _ = _
    rw [left, Int.toNat_natCast]
    rfl
  have first :
      world.ahead.buffered =
        world.ahead.readBuf.getD world.ahead.readPtr 0 ::
          (takeByte calls world).world.ahead.buffered := by
    rw [after]
    unfold ReadAhead.buffered
    rw [countEq, Int.toNat_natCast, List.drop_eq_getElem_cons inside,
      List.take_succ_cons, List.getD_eq_getElem _ _ inside]
  refine ⟨⟨?_, Or.inr source, succeeds, ?_⟩, _, rfl, ?_⟩
  · unfold ReadAhead.Sound at sound
    show world.ahead.readPtr + 1 + (world.ahead.readCnt - 1).toNat ≤
      world.ahead.readBuf.length
    omega
  · intro other different
    have mine : world.ahead.Mine fd := Or.inr source
    have mineAfter : (takeByte calls world).world.ahead.Mine fd :=
      Or.inr source
    rw [World.pending_other mine different,
      World.pending_other mineAfter different]
    rfl
  · unfold World.pending
    rw [if_pos source, first]
    show _ = _ :: ((if world.ahead.source = fd then _ else _) ++ _)
    rw [if_pos source]
    rfl

theorem Keeps.trans
    {α β : Type} {first : Outcome α} {second : Outcome β}
    (keeps : Keeps fd world first) (later : Keeps fd first.world second) :
    Keeps fd world second :=
  ⟨later.sound, later.mine, later.succeeds, fun other different =>
    (later.others other different).trans (keeps.others other different)⟩

/-- `my_read` returns the next byte that is due, or the end. -/
theorem myRead_spec
    {calls : List ReadCall} (sound : world.ahead.Sound)
    (mine : world.ahead.Mine fd) (succeeds : ReadCall.fails ∉ calls)
    {read : Outcome MyRead} (reads : myRead fd calls world = some read) :
    Keeps fd world read ∧
      ((∃ byte, read.result = .byte byte ∧
          world.pending fd = byte :: read.world.pending fd) ∨
        read.result = .atEnd ∧ world.pending fd = [] ∧
          read.world.pending fd = []) := by
  unfold myRead at reads
  by_cases empty : world.ahead.readCnt ≤ 0
  · rw [if_pos empty] at reads
    obtain ⟨filled, fills, rfl⟩ := Option.map_eq_some_iff.mp reads
    obtain ⟨keeps, same, atEnd | ⟨positive, countEq, source⟩⟩ :=
      fill_spec sound empty succeeds fills
    · obtain ⟨isZero, nothing⟩ := atEnd
      rw [if_neg (by omega), if_pos isZero]
      refine ⟨⟨keeps.sound, keeps.mine, keeps.succeeds, keeps.others⟩,
        Or.inr ⟨rfl, nothing, ?_⟩⟩
      exact same.trans nothing
    · rw [if_neg (by omega), if_neg (by omega)]
      obtain ⟨later, byte, isByte, due⟩ :=
        takeByte_spec keeps.sound (by omega) source keeps.succeeds
      exact ⟨keeps.trans later, Or.inl ⟨byte, isByte, same.symm.trans due⟩⟩
  · rw [if_neg empty] at reads
    cases reads
    obtain ⟨keeps, due⟩ :=
      takeByte_spec sound (Int.not_le.mp empty) (mine.resolve_left empty)
        succeeds
    exact ⟨keeps, Or.inl due⟩

/-- The loop of `Readline` returns the next line that is due. -/
theorem readlineLoop_spec
    (left : Nat) {calls : List ReadCall} (sound : world.ahead.Sound)
    (mine : world.ahead.Mine fd) (succeeds : ReadCall.fails ∉ calls)
    {line : Outcome Stored}
    (reads : readlineLoop fd left calls world = some line) :
    Keeps fd world line ∧
      takeLine left (world.pending fd) =
        (line.result, line.world.pending fd) := by
  induction left generalizing calls world line with
  | zero =>
      cases reads
      exact ⟨⟨sound, mine, succeeds, fun _ _ => rfl⟩, rfl⟩
  | succ left inductionHypothesis =>
      rw [readlineLoop] at reads
      obtain ⟨read, first, reads⟩ := Option.bind_eq_some_iff.mp reads
      obtain ⟨keeps, ⟨byte, isByte, due⟩ | ⟨atEnd, nothing, left⟩⟩ :=
        myRead_spec sound mine succeeds first
      · rw [isByte] at reads
        rw [due, takeLine]
        by_cases newline : byte = 10
        · simp only [if_pos newline] at reads ⊢
          cases reads
          exact ⟨⟨keeps.sound, keeps.mine, keeps.succeeds, keeps.others⟩, rfl⟩
        · simp only [if_neg newline] at reads ⊢
          obtain ⟨rest, later, rfl⟩ := Option.map_eq_some_iff.mp reads
          obtain ⟨keepsLater, restEq⟩ :=
            inductionHypothesis keeps.sound keeps.mine keeps.succeeds later
          have both := keeps.trans keepsLater
          rw [restEq]
          exact ⟨⟨both.sound, both.mine, both.succeeds, both.others⟩, rfl⟩
      · rw [atEnd] at reads
        cases reads
        rw [nothing, left]
        exact ⟨⟨keeps.sound, keeps.mine, keeps.succeeds, keeps.others⟩, rfl⟩

end OneCall

theorem bytes_append_rest (left : Nat) (stream : List UInt8) :
    (takeLine left stream).1.bytes ++ (takeLine left stream).2 = stream := by
  induction left generalizing stream with
  | zero => rfl
  | succ left inductionHypothesis =>
      cases stream with
      | nil => rfl
      | cons byte stream =>
          rw [takeLine]
          by_cases newline : byte = 10
          · rw [if_pos newline, newline]
            rfl
          · rw [if_neg newline]
            exact congrArg (byte :: ·) (inductionHypothesis stream)

theorem alone_concat
    (stream : List UInt8) (maxlens : List Nat) (maxlen : Nat) :
    alone stream (maxlens ++ [maxlen]) =
      ((alone stream maxlens).1 ++
          [(takeLine (maxlen - 1) (alone stream maxlens).2).1],
        (takeLine (maxlen - 1) (alone stream maxlens).2).2) := by
  induction maxlens generalizing stream with
  | nil => rfl
  | cons other maxlens inductionHypothesis =>
      rw [List.cons_append, alone, inductionHypothesis]
      rfl

theorem flatMap_alone (stream : List UInt8) (maxlens : List Nat) :
    (alone stream maxlens).1.flatMap Stored.bytes ++
        (alone stream maxlens).2 = stream := by
  induction maxlens generalizing stream with
  | nil => rfl
  | cons maxlen maxlens inductionHypothesis =>
      rw [alone, List.flatMap_cons, List.append_assoc, inductionHypothesis,
        bytes_append_rest]

/-- The calls on each descriptor returned its lines, and the rest is what is
due. -/
structure Follows (streams : Nat → List UInt8) (system : System) : Prop where
  sound : system.world.ahead.Sound
  follows :
    ∀ fd,
      alone (streams fd) ((callsOn fd system.log).map Returned.maxlen) =
        ((callsOn fd system.log).map Returned.stored,
          system.world.pending fd)

theorem Follows.separate
    {streams : Nat → List UInt8} {system : System}
    (follows : Follows streams system) : Separate streams system := by
  intro fd
  have line := follows.follows fd
  have whole :=
    flatMap_alone (streams fd)
      ((callsOn fd system.log).map Returned.maxlen)
  rw [line, List.flatMap_map] at whole
  exact ⟨by rw [line], system.world.pending fd, whole⟩

theorem follows_start (streams : Nat → List UInt8) :
    Follows streams (System.start streams) := by
  constructor
  · exact Nat.zero_le _
  · intro fd
    show ([], streams fd) = ([], (System.start streams).world.pending fd)
    rw [World.pending_of_empty (Int.le_refl 0)]
    rfl

/-- A call that stores something finds the buffer empty, or filled from its
own descriptor. -/
def FindsOwnBytes (system : System) (call : Call) : Prop :=
  call.maxlen ≤ 1 ∨ system.world.ahead.Mine call.fd

theorem callsOn_concat (fd : Nat) (log : List Returned) (returned : Returned) :
    callsOn fd (log ++ [returned]) =
      callsOn fd log ++ if returned.fd = fd then [returned] else [] := by
  unfold callsOn
  rw [List.filter_append, List.filter_cons, List.filter_nil]
  by_cases same : returned.fd = fd
  · rw [if_pos same, if_pos (decide_eq_true same)]
  · rw [if_neg same, if_neg (fun shown => same (of_decide_eq_true shown))]

/-- What a call on a descriptor does to what is due on each of them. -/
theorem readline_spec
    {system : System} {call : Call} (sound : system.world.ahead.Sound)
    (own : FindsOwnBytes system call) {line : Outcome Stored}
    (reads :
      readline call.fd call.maxlen call.calls system.world = some line) :
    line.world.ahead.Sound ∧
      takeLine (call.maxlen - 1) (system.world.pending call.fd) =
          (line.result, line.world.pending call.fd) ∧
        ∀ other, other ≠ call.fd →
          line.world.pending other = system.world.pending other := by
  unfold readline at reads
  rcases own with short | mine
  · rw [Nat.sub_eq_zero_of_le short] at reads ⊢
    cases reads
    exact ⟨sound, rfl, fun _ _ => rfl⟩
  · obtain ⟨keeps, taken⟩ :=
      readlineLoop_spec _ sound mine call.succeeds reads
    exact ⟨keeps.sound, taken, keeps.others⟩

theorem Follows.step
    {streams : Nat → List UInt8} {system next : System} {call : Call}
    (follows : Follows streams system) (own : FindsOwnBytes system call)
    (stepped : system.step call = some next) : Follows streams next := by
  obtain ⟨line, reads, rfl⟩ := Option.map_eq_some_iff.mp stepped
  obtain ⟨sound, taken, others⟩ := readline_spec follows.sound own reads
  refine ⟨sound, fun fd => ?_⟩
  have before := follows.follows fd
  show alone (streams fd)
      ((callsOn fd (system.log ++ [_])).map Returned.maxlen) =
    ((callsOn fd (system.log ++ [_])).map Returned.stored,
      line.world.pending fd)
  rw [callsOn_concat]
  by_cases same : call.fd = fd
  · subst same
    rw [if_pos rfl, List.map_append, List.map_append]
    show alone _ (_ ++ [call.maxlen]) = (_ ++ [line.result], _)
    rw [alone_concat, before, taken]
  · rw [if_neg same, List.append_nil, before,
      others fd (Ne.symm same)]

theorem mine_after_readline
    {system next : System} {call : Call} (sound : system.world.ahead.Sound)
    (mine : system.world.ahead.Mine call.fd)
    (stepped : system.step call = some next) :
    next.world.ahead.Sound ∧ next.world.ahead.Mine call.fd := by
  obtain ⟨line, reads, rfl⟩ := Option.map_eq_some_iff.mp stepped
  obtain ⟨keeps, _⟩ := readlineLoop_spec _ sound mine call.succeeds reads
  exact ⟨keeps.sound, keeps.mine⟩

/-- Calls on one descriptor alone always find its own bytes. -/
theorem findsOwnBytes_of_one_descriptor
    (fd : Nat) {system : System} (sound : system.world.ahead.Sound)
    (mine : system.world.ahead.Mine fd) (calls : List Call)
    (single : ∀ call ∈ calls, call.fd = fd) :
    StepsMeet System.step FindsOwnBytes system calls := by
  induction calls generalizing system with
  | nil => trivial
  | cons call calls inductionHypothesis =>
      have same := single call List.mem_cons_self
      subst same
      refine ⟨Or.inr mine, fun next stepped => ?_⟩
      obtain ⟨nextSound, nextMine⟩ := mine_after_readline sound mine stepped
      exact inductionHypothesis nextSound nextMine fun other member =>
        single other (List.mem_cons_of_mem call member)

/-- Where each call finds its own bytes in the buffer, or none, the calls on
each descriptor return what they would return alone. -/
theorem separate_of_findsOwnBytes
    (streams : Nat → List UInt8) (calls : List Call)
    (own : StepsMeet System.step FindsOwnBytes (System.start streams) calls) :
    Throughout System.step (Separate streams) (System.start streams)
      calls :=
  throughout_of_keeps (Follows streams) (fun _ => Follows.separate)
    (fun _ _ _ => Follows.step) (follows_start streams) own

/-- `"ab\ncd\n"` on descriptor 3 and `"x\n"` on descriptor 4. -/
def twoStreams (fd : Nat) : List UInt8 :=
  if fd = 3 then [97, 98, 10, 99, 100, 10]
  else if fd = 4 then [120, 10]
  else []

/-- Three calls: the third one refills the buffer that the second one has
used up. -/
def orderlyCalls : List Call :=
  [⟨3, 80, [.gives 6], by decide⟩, ⟨3, 80, [], by decide⟩,
    ⟨4, 80, [.eintr, .gives 2], by decide⟩]

theorem separate_of_findsOwnBytes_orderly :
    Throughout System.step (Separate twoStreams) (System.start twoStreams)
      orderlyCalls := by
  apply separate_of_findsOwnBytes twoStreams orderlyCalls
  refine ⟨Or.inr (Or.inl (Int.le_refl 0)), fun next stepped => ?_⟩
  cases stepped
  refine ⟨Or.inr (Or.inr rfl), fun next stepped => ?_⟩
  cases stepped
  refine ⟨Or.inr (Or.inl (Int.le_refl 0)), fun next stepped => ?_⟩
  cases stepped
  trivial

/-- A call on descriptor 3 reads both of its lines ahead, and the call on
descriptor 4 returns the second one. -/
theorem lines_are_mixed :
    ¬ ∀ (streams : Nat → List UInt8) (calls : List Call) (last : System),
        run System.step (System.start streams) calls = some last →
          Separate streams last := by
  intro always
  have separate :=
    always twoStreams [⟨3, 80, [.gives 6], by decide⟩, ⟨4, 80, [], by decide⟩]
      _ rfl
  have isPrefix := (separate 4).2
  revert isPrefix
  decide

end LinuxNet.Wrap
