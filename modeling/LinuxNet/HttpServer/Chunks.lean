import LinuxNet.Lib.Buffer
import LinuxNet.HttpServer.LineReader

/-!
# The stream in chunks

`get_line` with its array and its loop variables: `ch` is the byte that is
stored and the flag that ends the loop.  Where the whole stream is available
and then at its end, the calls up to the first one that returns 0 store the
stream with one LF for every end of a line, and nothing is lost where a line
is longer than the array.
-/

namespace LinuxNet.HttpServer

open LinuxNet.Buffer

/-- The array and the variables of `get_line`. -/
structure Reading where
  buf : List UInt8
  i : Nat
  ch : UInt8
  sock : Sock
  deriving DecidableEq, Repr

namespace Reading

def turn (outcomes : Nat → RecvOutcome) (reading : Reading) : Reading :=
  let taken := recv outcomes false reading.ch reading.sock
  if 0 < taken.value then
    let stored :=
      if taken.ch = 13 then afterReturn outcomes taken.sock else taken
    { buf := reading.buf.set reading.i stored.ch
      i := reading.i + 1
      ch := stored.ch
      sock := stored.sock }
  else
    { reading with ch := 10, sock := taken.sock }

/-- `while ((i < size - 1) && (ch != '\n'))`. -/
def loop (outcomes : Nat → RecvOutcome) (size : Nat) :
    Nat → Reading → Reading
  | 0, reading => reading
  | fuel + 1, reading =>
      if reading.i < size - 1 ∧ reading.ch ≠ 10 then
        loop outcomes size fuel (reading.turn outcomes)
      else
        reading

end Reading

/-- `get_line(sock, buf, size)`, which returns `i`.  Every turn but the last
one advances `i`. -/
def getLineInto
    (outcomes : Nat → RecvOutcome) (size : Nat) (buf : List UInt8)
    (sock : Sock) : Reading :=
  let reading := Reading.loop outcomes size size ⟨buf, 0, 0, sock⟩
  { reading with buf := reading.buf.set reading.i 0 }

/-- What a call returned, and the array behind it. -/
structure Chunk where
  value : Nat
  buf : List UInt8
  deriving DecidableEq, Repr

def Chunk.bytes (chunk : Chunk) : List UInt8 :=
  chunk.buf.take chunk.value

/-- The calls up to the first one that returns 0. -/
def chunks (outcomes : Nat → RecvOutcome) (size : Nat) :
    Nat → List UInt8 → Sock → Option (List Chunk)
  | 0, _, _ => none
  | fuel + 1, buf, sock =>
      let reading := getLineInto outcomes size buf sock
      if reading.i = 0 then
        some []
      else
        (chunks outcomes size fuel reading.buf reading.sock).map
          (⟨reading.i, reading.buf⟩ :: ·)

/-- One LF for each CR LF and for each CR alone. -/
def unixLines : List UInt8 → List UInt8
  | 13 :: 10 :: rest => 10 :: unixLines rest
  | byte :: rest => (if byte = 13 then 10 else byte) :: unixLines rest
  | [] => []

section Array

variable {outcomes : Nat → RecvOutcome} {reading : Reading}

theorem loop_of_feed
    (size fuel : Nat) (ended : reading.ch = 10) :
    Reading.loop outcomes size fuel reading = reading := by
  cases fuel with
  | zero => rfl
  | succ fuel => exact if_neg fun goesOn => goesOn.2 ended

theorem turn_of_silent (silent : Silent outcomes reading.sock) :
    reading.turn outcomes =
      { reading with ch := 10, sock := reading.sock.asked } := by
  obtain ⟨value, atMost, received⟩ := silent.recv_eq false reading.ch
  rw [Reading.turn, received, if_neg (Int.not_lt.mpr atMost)]

theorem turn_of_byte
    {byte : UInt8} (arrives : Arrives outcomes reading.sock byte)
    (notReturn : byte ≠ 13) :
    reading.turn outcomes =
      ⟨reading.buf.set reading.i byte, reading.i + 1, byte,
        reading.sock.taken⟩ := by
  rw [Reading.turn, arrives.recv_eq reading.ch]
  simp only [if_true, Int.one_pos, if_neg notReturn]

theorem turn_of_return (arrives : Arrives outcomes reading.sock 13) :
    reading.turn outcomes =
      ⟨reading.buf.set reading.i 10, reading.i + 1, 10,
        (afterReturn outcomes reading.sock.taken).sock⟩ := by
  rw [Reading.turn, arrives.recv_eq reading.ch]
  simp only [if_true, Int.one_pos,
    (afterReturn_spec outcomes reading.sock.taken).1]

theorem loop_succ
    {size : Nat} (fuel : Nat) (below : reading.i < size - 1)
    (goesOn : reading.ch ≠ 10) :
    Reading.loop outcomes size (fuel + 1) reading =
      Reading.loop outcomes size fuel (reading.turn outcomes) :=
  if_pos ⟨below, goesOn⟩

/-- The loop stores what `getLineFrom` takes. -/
theorem loop_eq
    {size : Nat} (room : Nat) {fuel : Nat} (enough : room ≤ fuel)
    (reading : Reading) (position : reading.i + room = size - 1)
    (goesOn : reading.ch ≠ 10)
    (inside : reading.i + room ≤ reading.buf.length) :
    ∃ ch, Reading.loop outcomes size fuel reading =
      ⟨placed reading.buf reading.i
          (getLineFrom outcomes room reading.sock).buf,
        reading.i + (getLineFrom outcomes room reading.sock).buf.length, ch,
        (getLineFrom outcomes room reading.sock).sock⟩ := by
  induction room generalizing reading fuel with
  | zero =>
      have full : ¬ (reading.i < size - 1 ∧ reading.ch ≠ 10) := by
        omega
      refine ⟨reading.ch, ?_⟩
      rw [getLineFrom, placed_nil]
      cases fuel with
      | zero => rfl
      | succ fuel => exact if_neg full
  | succ room inductionHypothesis =>
      obtain ⟨less, rfl⟩ : ∃ less, fuel = less + 1 := ⟨fuel - 1, by omega⟩
      have here : reading.i < reading.buf.length := by omega
      rw [loop_succ less (by omega) goesOn]
      rcases silent_or_arrives outcomes reading.sock with
        silent | ⟨byte, arrives⟩
      · rw [turn_of_silent silent, loop_of_feed size less rfl,
          getLineFrom_of_silent silent, placed_nil]
        exact ⟨10, rfl⟩
      · by_cases isReturn : byte = 13
        · subst isReturn
          rw [turn_of_return arrives, loop_of_feed size less rfl,
            getLineFrom_of_return arrives, placed_singleton here]
          exact ⟨10, rfl⟩
        · rw [turn_of_byte arrives isReturn]
          by_cases isFeed : byte = 10
          · subst isFeed
            rw [loop_of_feed size less rfl, getLineFrom_of_feed arrives,
              placed_singleton here]
            exact ⟨10, rfl⟩
          · rw [getLineFrom_of_byte arrives isReturn isFeed]
            have stillInside :
                reading.i + 1 + room ≤
                  (reading.buf.set reading.i byte).length := by
              rw [List.length_set]
              omega
            obtain ⟨ch, looped⟩ :=
              inductionHypothesis (Nat.le_of_succ_le_succ enough)
                ⟨reading.buf.set reading.i byte, reading.i + 1, byte,
                  reading.sock.taken⟩
                (show reading.i + 1 + room = size - 1 by omega) isFeed
                stillInside
            refine ⟨ch, ?_⟩
            rw [looped, placed_cons here, List.length_cons]
            simp only [Reading.mk.injEq, true_and, and_true]
            omega

/-- The array after a call: the line, the NUL, and what was there before. -/
theorem getLineInto_eq
    (outcomes : Nat → RecvOutcome) (size : Nat) (buf : List UInt8)
    (sock : Sock) (inside : size ≤ buf.length) :
    (getLineInto outcomes size buf sock).i =
        (getLine outcomes size sock).buf.length ∧
      (getLineInto outcomes size buf sock).sock =
          (getLine outcomes size sock).sock ∧
        (getLineInto outcomes size buf sock).buf =
          (placed buf 0 (getLine outcomes size sock).buf).set
            (getLine outcomes size sock).buf.length 0 := by
  obtain ⟨ch, looped⟩ :=
    loop_eq (size - 1) (Nat.sub_le size 1) ⟨buf, 0, 0, sock⟩
      (Nat.zero_add (size - 1)) (by decide : (0 : UInt8) ≠ 10)
      (by show 0 + (size - 1) ≤ buf.length; omega)
  simp only [Nat.zero_add] at looped
  unfold getLineInto getLine
  rw [looped]
  exact ⟨rfl, rfl, rfl⟩

end Array

theorem unixLines_byte
    {byte : UInt8} (notReturn : byte ≠ 13) (stream : List UInt8) :
    unixLines (byte :: stream) = byte :: unixLines stream := by
  rw [unixLines]
  · rw [if_neg notReturn]
  · rintro rest rfl
    exact absurd rfl notReturn

/-- A line of at most `room` bytes, and the rest of the stream. -/
structure TakesLine
    (room : Nat) (stream line rest : List UInt8) : Prop where
  unix_eq : unixLines stream = line ++ unixLines rest
  fits : line.length ≤ room
  shorter : rest.length + line.length ≤ stream.length
  feed_last : ∀ text tail, line = text ++ 10 :: tail → tail = []
  ends : line.getLast? = some 10 ∨ line.length = room ∨ rest = []

theorem TakesLine.cons
    {room : Nat} {stream line rest : List UInt8} {byte : UInt8}
    (takes : TakesLine room stream line rest) (notReturn : byte ≠ 13)
    (notFeed : byte ≠ 10) :
    TakesLine (room + 1) (byte :: stream) (byte :: line) rest := by
  constructor
  · rw [unixLines_byte notReturn, takes.unix_eq]
    rfl
  · exact Nat.succ_le_succ takes.fits
  · have shorter := takes.shorter
    rw [List.length_cons, List.length_cons]
    omega
  · intro text tail same
    cases text with
    | nil => exact absurd (List.cons.inj same).1 notFeed
    | cons first text => exact takes.feed_last text tail (List.cons.inj same).2
  · rcases takes.ends with feed | full | atEnd
    · apply Or.inl
      rw [List.getLast?_cons, feed]
      rfl
    · exact Or.inr (Or.inl (congrArg (· + 1) full))
    · exact Or.inr (Or.inr atEnd)

/-- A line that is one LF. -/
theorem takesLine_feed
    {stream rest : List UInt8} (room : Nat)
    (unix : unixLines stream = 10 :: unixLines rest)
    (shorter : rest.length + 1 ≤ stream.length) :
    TakesLine (room + 1) stream [10] rest := by
  refine ⟨unix, Nat.le_add_left 1 room, shorter, ?_, Or.inl rfl⟩
  intro text tail same
  cases text with
  | nil => exact (List.cons.inj same).2.symm
  | cons first text =>
      have impossible := (List.cons.inj same).2
      exact absurd impossible.symm (by simp)

/-- Behind a CR: the LF that follows is taken with it. -/
theorem takesLine_return (room : Nat) (stream : List UInt8) (calls : Nat) :
    ∃ line rest later,
      Line.mk [10]
          (afterReturn allAvailable
            (Sock.taken ⟨13 :: stream, calls⟩)).sock =
          ⟨line, ⟨rest, later⟩⟩ ∧
        TakesLine (room + 1) (13 :: stream) line rest := by
  rw [show Sock.taken ⟨13 :: stream, calls⟩ = ⟨stream, calls + 1⟩ from rfl]
  by_cases feed : stream.head? = some 10
  · obtain ⟨rest, rfl⟩ := List.head?_eq_some_iff.mp feed
    have ends :
        ReturnEnds allAvailable ⟨10 :: rest, calls + 1⟩
          ⟨rest, calls + 1 + 1 + 1⟩ :=
      .feed ⟨rfl, rfl⟩ ⟨rfl, rfl⟩
    refine ⟨[10], rest, _, congrArg (Line.mk [10]) ends.sock_eq, ?_⟩
    apply takesLine_feed room rfl
    simp only [List.length_cons]
    omega
  · have ends :
        ReturnEnds allAvailable ⟨stream, calls + 1⟩
          ⟨stream, calls + 1 + 1⟩ :=
      .alone fun arrives => feed arrives.2
    have alone : unixLines (13 :: stream) = 10 :: unixLines stream := by
      rw [unixLines]
      · rfl
      · rintro rest _ rfl
        exact feed rfl
    refine ⟨[10], stream, _, congrArg (Line.mk [10]) ends.sock_eq, ?_⟩
    exact takesLine_feed room alone (Nat.le_refl _)

theorem takesLine_getLineFrom
    (room : Nat) (stream : List UInt8) (calls : Nat) :
    ∃ line rest later,
      getLineFrom allAvailable room ⟨stream, calls⟩ =
          ⟨line, ⟨rest, later⟩⟩ ∧
        TakesLine room stream line rest := by
  induction room generalizing stream calls with
  | zero =>
      refine ⟨[], stream, calls, rfl, rfl, Nat.le_refl 0, Nat.le_refl _, ?_,
        Or.inr (Or.inl rfl)⟩
      intro text tail impossible
      simp at impossible
  | succ room inductionHypothesis =>
      cases stream with
      | nil =>
          have silent : Silent allAvailable ⟨[], calls⟩ := Or.inr rfl
          refine ⟨[], [], calls + 1, getLineFrom_of_silent silent room, ?_⟩
          refine
            ⟨rfl, Nat.zero_le _, Nat.le_refl 0, ?_, Or.inr (Or.inr rfl)⟩
          intro text tail impossible
          simp at impossible
      | cons byte stream =>
          have arrives : Arrives allAvailable ⟨byte :: stream, calls⟩ byte :=
            ⟨rfl, rfl⟩
          by_cases isReturn : byte = 13
          · subst isReturn
            rw [getLineFrom_of_return arrives]
            exact takesLine_return room stream calls
          · by_cases isFeed : byte = 10
            · subst isFeed
              rw [getLineFrom_of_feed arrives]
              refine ⟨[10], stream, calls + 1, rfl, ?_⟩
              exact
                takesLine_feed room (unixLines_byte isReturn stream)
                  (Nat.le_refl _)
            · rw [getLineFrom_of_byte arrives isReturn isFeed]
              obtain ⟨line, rest, later, lineEq, takes⟩ :=
                inductionHypothesis stream (calls + 1)
              refine
                ⟨byte :: line, rest, later, ?_, takes.cons isReturn isFeed⟩
              rw [show Sock.taken ⟨byte :: stream, calls⟩ =
                ⟨stream, calls + 1⟩ from rfl, lineEq]

/-! ## The whole stream -/

/-- A call that stored something: at most `size - 1` bytes, as many as it
returned, with a NUL behind them inside the array, and no LF but the last
one. -/
structure IsChunk (size : Nat) (chunk : Chunk) : Prop where
  positive : 0 < chunk.value
  fits : chunk.value ≤ size - 1
  length_eq : chunk.bytes.length = chunk.value
  terminated : chunk.buf[chunk.value]? = some 0
  feed_last : ∀ text tail, chunk.bytes = text ++ 10 :: tail → tail = []

/-- What a call leaves in the array, as a chunk. -/
theorem bytes_of_placed
    (buf line : List UInt8) :
    Chunk.bytes
        ⟨line.length, (placed buf 0 line).set line.length 0⟩ = line := by
  exact take_placed_set buf line 0

theorem isChunk_of_takesLine
    {size : Nat} {buf stream line rest : List UInt8} (two : 2 ≤ size)
    (inside : size ≤ buf.length)
    (takes : TakesLine (size - 1) stream line rest) (nonempty : line ≠ []) :
    IsChunk size
      ⟨line.length, (placed buf 0 line).set line.length 0⟩ := by
  have fits := takes.fits
  constructor
  · exact List.length_pos_iff.mpr nonempty
  · exact fits
  · rw [bytes_of_placed]
  · apply getElem?_placed_set
    omega
  · rw [bytes_of_placed]
    exact takes.feed_last

structure Chunked
    (size : Nat) (stream : List UInt8) (result : List Chunk) : Prop where
  concat_eq : result.flatMap Chunk.bytes = unixLines stream
  isChunk : ∀ chunk ∈ result, IsChunk size chunk
  ends :
    ∀ before chunk later, result = before ++ chunk :: later →
      chunk.bytes.getLast? = some 10 ∨ chunk.value = size - 1 ∨ later = []

theorem Chunked.eq_nil
    {size : Nat} {result : List Chunk} (chunked : Chunked size [] result) :
    result = [] := by
  cases result with
  | nil => rfl
  | cons chunk later =>
      have first := chunked.isChunk chunk List.mem_cons_self
      have nothing := chunked.concat_eq
      rw [List.flatMap_cons, unixLines, List.append_eq_nil_iff] at nothing
      have length := first.length_eq
      rw [nothing.1, List.length_nil] at length
      exact absurd first.positive (by omega)

theorem Chunked.cons
    {size : Nat} {stream line rest : List UInt8} {chunk : Chunk}
    {result : List Chunk}
    (takes : TakesLine (size - 1) stream line rest)
    (isChunk : IsChunk size chunk) (bytes : chunk.bytes = line)
    (later : Chunked size rest result) :
    Chunked size stream (chunk :: result) := by
  constructor
  · rw [List.flatMap_cons, later.concat_eq, bytes, takes.unix_eq]
  · exact List.forall_mem_cons.mpr ⟨isChunk, later.isChunk⟩
  · intro before other tail same
    cases before with
    | nil =>
        obtain ⟨rfl, rfl⟩ := List.cons.inj same
        rw [bytes, ← isChunk.length_eq, bytes]
        rcases takes.ends with feed | full | atEnd
        · exact Or.inl feed
        · exact Or.inr (Or.inl full)
        · subst atEnd
          exact Or.inr (Or.inr later.eq_nil)
    | cons first before =>
        exact later.ends before other tail (List.cons.inj same).2

/-- The calls of `get_line` up to the first one that returns 0 return the
stream with one LF for every end of a line, in chunks that fit into the array;
a chunk without its LF is full, or the last one. -/
theorem chunks_of_stream
    (size : Nat) (two : 2 ≤ size) (buf : List UInt8)
    (inside : size ≤ buf.length) (stream : List UInt8) (calls : Nat) :
    ∃ fuel result,
      chunks allAvailable size fuel buf ⟨stream, calls⟩ = some result ∧
        Chunked size stream result := by
  induction length : stream.length using Nat.strong_induction_on
    generalizing stream buf calls with
  | h length inductionHypothesis =>
      subst length
      obtain ⟨line, rest, later, lineEq, takes⟩ :=
        takesLine_getLineFrom (size - 1) stream calls
      obtain ⟨iEq, sockEq, bufEq⟩ :=
        getLineInto_eq allAvailable size buf ⟨stream, calls⟩ inside
      have taken :
          getLine allAvailable size ⟨stream, calls⟩ = ⟨line, ⟨rest, later⟩⟩ :=
        lineEq
      rw [taken] at iEq sockEq bufEq
      by_cases empty : line = []
      · subst empty
        have nothing : unixLines stream = [] := by
          rcases takes.ends with feed | full | atEnd
          · cases feed
          · rw [List.length_nil] at full
            omega
          · rw [takes.unix_eq, atEnd]
            rfl
        refine ⟨0 + 1, [], ?_, ?_⟩
        · rw [chunks, iEq]
          rfl
        · refine ⟨nothing.symm, ?_, ?_⟩
          · intro chunk impossible
            cases impossible
          · intro before chunk tail impossible
            simp at impossible
      · have positive := List.length_pos_iff.mpr empty
        have shorter := takes.shorter
        have fits := takes.fits
        have stillInside :
            size ≤ ((placed buf 0 line).set line.length 0).length := by
          rw [List.length_set, length_placed (by omega)]
          exact inside
        obtain ⟨fuel, result, called, chunked⟩ :=
          inductionHypothesis rest.length (by omega) _ stillInside rest later
            rfl
        refine
          ⟨fuel + 1,
            ⟨line.length, (placed buf 0 line).set line.length 0⟩ :: result,
            ?_, ?_⟩
        · rw [chunks, iEq, sockEq, bufEq]
          simp only [if_neg (Nat.ne_of_gt positive), called, Option.map_some]
        · exact
            Chunked.cons takes
              (isChunk_of_takesLine two inside takes empty)
              (bytes_of_placed buf line) chunked

/-- A CR at the border of an array of three bytes, and one at the end of the
stream. -/
theorem chunks_of_stream_small :
    ∃ fuel result,
      chunks allAvailable 3 fuel [1, 1, 1] ⟨[65, 13, 13, 10, 66, 67, 13], 0⟩ =
          some result ∧
        Chunked 3 [65, 13, 13, 10, 66, 67, 13] result :=
  chunks_of_stream 3 (by decide) [1, 1, 1] (by decide)
    [65, 13, 13, 10, 66, 67, 13] 0

end LinuxNet.HttpServer
