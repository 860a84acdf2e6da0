import LinuxNet.Lib.Buffer
import LinuxNet.Wrap.Readline

/-!
# `Readline` as a line splitter

One descriptor is read to its end by calls of `Readline` with the same buffer.
The calls split the stream at its LFs and where the buffer is full, and lose
nothing.  The count `n` starts at 1: it is one too high where the buffer is
full, and there alone, so the returned value is right exactly when every line
of the stream fits with its end.
-/

namespace LinuxNet.Wrap

open LinuxNet.Buffer

/-- The returned value, the place that `ptr` has come to, and the buffer. -/
structure LineRead where
  value : Int
  ptr : Nat
  buf : List UInt8
  deriving DecidableEq, Repr

def LineRead.bytes (line : LineRead) : List UInt8 :=
  line.buf.take line.ptr

/-- The loop of `Readline` with its count, its pointer and its buffer, and
`left` turns to go. -/
def readlineIntoLoop (fd : Nat) :
    Nat → List ReadCall → World → Int → Nat → List UInt8 →
      Option (Outcome LineRead)
  | 0, calls, world, n, ptr, buf =>
      some ⟨⟨n, ptr, buf.set ptr 0⟩, calls, world⟩
  | left + 1, calls, world, n, ptr, buf =>
      (myRead fd calls world).bind fun read =>
        match read.result with
        | .byte byte =>
            if byte = 10 then
              some
                ⟨⟨n, ptr + 1, (buf.set ptr byte).set (ptr + 1) 0⟩,
                  read.calls, read.world⟩
            else
              readlineIntoLoop fd left read.calls read.world (n + 1)
                (ptr + 1) (buf.set ptr byte)
        | .atEnd =>
            some ⟨⟨n - 1, ptr, buf.set ptr 0⟩, read.calls, read.world⟩
        | .failed => some ⟨⟨-1, ptr, buf⟩, read.calls, read.world⟩

/-- `Readline(fd, buf, maxlen)`. -/
def readlineInto
    (fd maxlen : Nat) (calls : List ReadCall) (world : World)
    (buf : List UInt8) : Option (Outcome LineRead) :=
  readlineIntoLoop fd (maxlen - 1) calls world 1 0 buf

def readLines (fd maxlen : Nat) :
    Nat → List ReadCall → World → List UInt8 → Option (List LineRead)
  | 0, _, _, _ => none
  | fuel + 1, calls, world, buf =>
      (readlineInto fd maxlen calls world buf).bind fun read =>
        if read.result.value = 0 then
          some []
        else
          (readLines fd maxlen fuel read.calls read.world
            read.result.buf).map (read.result :: ·)

/-- The calls of `read` give the stream in chunks, with interruptions at any
points, and its end a number of times. -/
inductive Chunking : Nat → List UInt8 → List ReadCall → Prop
  | done (calls : List ReadCall) (noError : ReadCall.fails ∉ calls) :
      Chunking 0 [] calls
  | atEnd {ends : Nat} {calls : List ReadCall} (count : Nat)
      (later : Chunking ends [] calls) :
      Chunking (ends + 1) [] (.gives count :: calls)
  | eintr {ends : Nat} {stream : List UInt8} {calls : List ReadCall}
      (later : Chunking ends stream calls) :
      Chunking ends stream (.eintr :: calls)
  | gives {ends : Nat} {stream : List UInt8} {calls : List ReadCall}
      (count : Nat) (positive : 1 ≤ count) (fits : count ≤ readBufSize)
      (available : count ≤ stream.length)
      (later : Chunking ends (stream.drop count) calls) :
      Chunking ends stream (.gives count :: calls)

/-- One call of a faithful splitter: its value is the number of bytes that it
stored, with a NUL behind them and no LF but the last one. -/
structure FaithfulLine (maxlen : Nat) (line : LineRead) : Prop where
  fits : line.bytes.length ≤ maxlen - 1
  terminated : line.buf[line.bytes.length]? = some 0
  feed_last : ∀ text tail, line.bytes = text ++ 10 :: tail → tail = []
  value_eq : line.value = line.bytes.length

def SplitsFaithfully
    (fd maxlen : Nat) (calls : List ReadCall) (world : World)
    (buf : List UInt8) : Prop :=
  ∃ fuel lines, readLines fd maxlen fuel calls world buf = some lines ∧
    lines.flatMap LineRead.bytes = world.streams fd ∧
      ∀ line ∈ lines, FaithfulLine maxlen line

/-- Every line of the stream fits into the buffer together with its LF and the
NUL. -/
def LinesFit (maxlen : Nat) (stream : List UInt8) : Prop :=
  ∀ line ∈ stream.splitOn 10, line.length < maxlen - 1

/-- What the bytes of a line make of the buffer. -/
def Stored.lineRead
    (stored : Stored) (ptr : Nat) (buf : List UInt8) : LineRead where
  value :=
    match stored.ends with
    | .newline | .atEnd => (ptr + stored.bytes.length : Nat)
    | .full => (ptr + stored.bytes.length + 1 : Nat)
    | .failed => -1
  ptr := ptr + stored.bytes.length
  buf :=
    match stored.ends with
    | .newline | .atEnd | .full =>
        (placed buf ptr stored.bytes).set (ptr + stored.bytes.length) 0
    | .failed => placed buf ptr stored.bytes

theorem lineRead_cons
    {ptr : Nat} {buf : List UInt8} (inside : ptr < buf.length)
    (byte : UInt8) (ends : LineEnd) (bytes : List UInt8) :
    Stored.lineRead ⟨ends, bytes⟩ (ptr + 1) (buf.set ptr byte) =
      Stored.lineRead ⟨ends, byte :: bytes⟩ ptr buf := by
  have position : ptr + 1 + bytes.length = ptr + (byte :: bytes).length := by
    rw [List.length_cons]
    omega
  unfold Stored.lineRead
  simp only [placed_cons inside, position]

theorem lineRead_newline
    {ptr : Nat} {buf : List UInt8} (inside : ptr < buf.length) :
    Stored.lineRead ⟨.newline, [10]⟩ ptr buf =
      ⟨ptr + 1, ptr + 1, (buf.set ptr 10).set (ptr + 1) 0⟩ := by
  unfold Stored.lineRead
  rw [placed_singleton inside]
  rfl

theorem readlineIntoLoop_eq
    (fd left : Nat) (calls : List ReadCall) (world : World) {n : Int}
    {ptr : Nat} (counts : n = ptr + 1) {buf : List UInt8}
    (inside : ptr + left < buf.length) :
    readlineIntoLoop fd left calls world n ptr buf =
      (readlineLoop fd left calls world).map fun line =>
        ⟨line.result.lineRead ptr buf, line.calls, line.world⟩ := by
  induction left generalizing calls world n ptr buf with
  | zero =>
      rw [readlineIntoLoop, readlineLoop, counts]
      simp [Stored.lineRead]
  | succ left inductionHypothesis =>
      rw [readlineIntoLoop, readlineLoop, Option.map_bind]
      congr 1
      funext read
      rw [Function.comp_apply]
      have here : ptr < buf.length := by omega
      cases result : read.result with
      | byte byte =>
          by_cases newline : byte = 10
          · simp only [if_pos newline, Option.map_some]
            rw [newline, counts, lineRead_newline here]
          · have stillInside : ptr + 1 + left < (buf.set ptr byte).length := by
              rw [List.length_set]
              omega
            have countsOn : n + 1 = ((ptr + 1 : Nat) : Int) + 1 := by omega
            simp only [if_neg newline]
            rw [inductionHypothesis read.calls read.world countsOn
              stillInside, Option.map_map]
            congr 1
            funext line
            simp only [Function.comp, lineRead_cons here]
      | atEnd => simp [Stored.lineRead, counts]
      | failed => simp [Stored.lineRead]

/-- `Readline` with its buffer stores the line that it takes. -/
theorem readlineInto_eq
    (fd : Nat) {maxlen : Nat} (positive : 1 ≤ maxlen)
    (calls : List ReadCall) (world : World) {buf : List UInt8}
    (inside : maxlen ≤ buf.length) :
    readlineInto fd maxlen calls world buf =
      (readline fd maxlen calls world).map fun line =>
        ⟨line.result.lineRead 0 buf, line.calls, line.world⟩ :=
  readlineIntoLoop_eq fd (maxlen - 1) calls world rfl (by omega)

/-- What a call of `Readline` with room for `left` bytes takes. -/
inductive Taken (left : Nat) : List UInt8 → Stored → List UInt8 → Prop
  | newline {text rest : List UInt8} (noFeed : 10 ∉ text)
      (fits : text.length < left) :
      Taken left (text ++ 10 :: rest) ⟨.newline, text ++ [10]⟩ rest
  | atEnd {text : List UInt8} (noFeed : 10 ∉ text)
      (fits : text.length < left) : Taken left text ⟨.atEnd, text⟩ []
  | full {text rest : List UInt8} (noFeed : 10 ∉ text)
      (fills : text.length = left) :
      Taken left (text ++ rest) ⟨.full, text⟩ rest

theorem Taken.cons
    {left : Nat} {stream rest : List UInt8} {stored : Stored}
    {byte : UInt8} (notFeed : byte ≠ 10)
    (taken : Taken left stream stored rest) :
    Taken (left + 1) (byte :: stream) ⟨stored.ends, byte :: stored.bytes⟩
      rest := by
  have longer : ∀ {text : List UInt8}, 10 ∉ text → 10 ∉ byte :: text :=
    fun noFeed member =>
      (List.mem_cons.mp member).elim (fun same => notFeed same.symm) noFeed
  cases taken with
  | newline noFeed fits =>
      exact .newline (longer noFeed) (Nat.succ_lt_succ fits)
  | atEnd noFeed fits => exact .atEnd (longer noFeed) (Nat.succ_lt_succ fits)
  | full noFeed fills =>
      exact .full (longer noFeed) (congrArg (· + 1) fills)

theorem taken_takeLine (left : Nat) (stream : List UInt8) :
    Taken left stream (takeLine left stream).1 (takeLine left stream).2 := by
  induction left generalizing stream with
  | zero => exact .full List.not_mem_nil rfl
  | succ left inductionHypothesis =>
      cases stream with
      | nil => exact .atEnd List.not_mem_nil (Nat.succ_pos left)
      | cons byte stream =>
          rw [takeLine]
          by_cases newline : byte = 10
          · subst newline
            rw [if_pos rfl]
            exact .newline List.not_mem_nil (Nat.succ_pos left)
          · rw [if_neg newline]
            exact (inductionHypothesis stream).cons newline

/-- What is in the buffer where no call of `read` has failed. -/
theorem Taken.bytes_lineRead
    {left : Nat} {stream rest : List UInt8} {stored : Stored}
    (taken : Taken left stream stored rest) (buf : List UInt8) :
    (stored.lineRead 0 buf).bytes = stored.bytes := by
  have kept := take_placed_set buf stored.bytes 0
  rw [← Nat.zero_add stored.bytes.length] at kept
  cases taken with
  | newline noFeed fits => exact kept
  | atEnd noFeed fits => exact kept
  | full noFeed fills => exact kept

theorem Taken.length_le
    {left : Nat} {stream rest : List UInt8} {stored : Stored}
    (taken : Taken left stream stored rest) : stored.bytes.length ≤ left := by
  cases taken with
  | newline noFeed fits =>
      rw [List.length_append]
      exact fits
  | atEnd noFeed fits => exact Nat.le_of_lt fits
  | full noFeed fills => exact Nat.le_of_eq fills

theorem Taken.terminated
    {left : Nat} {stream rest : List UInt8} {stored : Stored}
    (taken : Taken left stream stored rest) {buf : List UInt8}
    (inside : left < buf.length) :
    (stored.lineRead 0 buf).buf[stored.bytes.length]? = some 0 := by
  have nul :=
    getElem?_placed_set (Nat.lt_of_le_of_lt taken.length_le inside) 0
  cases taken with
  | newline noFeed fits => simpa [Stored.lineRead] using nul
  | atEnd noFeed fits => simpa [Stored.lineRead] using nul
  | full noFeed fills => simpa [Stored.lineRead] using nul

theorem feed_last_of_not_mem
    {text : List UInt8} (noFeed : 10 ∉ text) :
    ∀ before tail, text ++ [10] = before ++ 10 :: tail → tail = [] := by
  intro before tail same
  induction text generalizing before with
  | nil =>
      cases before with
      | nil => exact (List.cons.inj same).2.symm
      | cons first before =>
          exact absurd (List.cons.inj same).2 (by simp)
  | cons byte text inductionHypothesis =>
      rw [List.mem_cons, not_or] at noFeed
      cases before with
      | nil => exact absurd (List.cons.inj same).1.symm noFeed.1
      | cons first before =>
          exact inductionHypothesis noFeed.2 before (List.cons.inj same).2

/-- A call is faithful exactly where it has not filled the buffer. -/
theorem Taken.faithful_iff
    {maxlen : Nat} {stream rest : List UInt8} {stored : Stored}
    (taken : Taken (maxlen - 1) stream stored rest) (two : 2 ≤ maxlen)
    {buf : List UInt8} (inside : maxlen ≤ buf.length) :
    FaithfulLine maxlen (stored.lineRead 0 buf) ↔ stored.ends ≠ .full := by
  have bytes := taken.bytes_lineRead buf
  have fits := taken.length_le
  have nul := taken.terminated (show maxlen - 1 < buf.length by omega)
  constructor
  · intro faithful full
    have value := faithful.value_eq
    rw [bytes] at value
    simp only [Stored.lineRead, full] at value
    omega
  · intro notFull
    cases taken with
    | newline noFeed short =>
        refine ⟨by rw [bytes]; exact fits, by rw [bytes]; exact nul, ?_, ?_⟩
        · rw [bytes]
          exact feed_last_of_not_mem noFeed
        · rw [bytes]
          simp [Stored.lineRead]
    | atEnd noFeed short =>
        refine ⟨by rw [bytes]; exact fits, by rw [bytes]; exact nul, ?_, ?_⟩
        · rw [bytes]
          rintro text tail same
          apply absurd _ noFeed
          rw [show stream = text ++ 10 :: tail from same]
          simp
        · rw [bytes]
          simp [Stored.lineRead]
    | full noFeed fills => exact absurd rfl notFull

inductive Lines (maxlen : Nat) : List UInt8 → List LineRead → Prop
  | nil : Lines maxlen [] []
  | cons {stream rest : List UInt8} {stored : Stored} {buf : List UInt8}
      {later : List LineRead} (nonempty : stream ≠ [])
      (taken : Taken (maxlen - 1) stream stored rest)
      (inside : maxlen ≤ buf.length) (lines : Lines maxlen rest later) :
      Lines maxlen stream (stored.lineRead 0 buf :: later)

theorem Lines.flatMap_bytes
    {maxlen : Nat} {stream : List UInt8} {reads : List LineRead}
    (lines : Lines maxlen stream reads) :
    reads.flatMap LineRead.bytes = stream := by
  induction lines with
  | nil => rfl
  | cons nonempty taken inside _ inductionHypothesis =>
      rw [List.flatMap_cons, inductionHypothesis, taken.bytes_lineRead]
      cases taken with
      | newline noFeed fits => simp
      | atEnd noFeed fits => exact List.append_nil _
      | full noFeed fills => rfl

/-- A text without LF at the front of a stream is a part of its first line. -/
theorem exists_long_line
    {text : List UInt8} (noFeed : 10 ∉ text) (rest : List UInt8) :
    ∃ line ∈ (text ++ rest).splitOn 10, text.length ≤ line.length := by
  by_cases feed : 10 ∈ rest
  · obtain ⟨more, tail, rfl, notEarlier⟩ := List.eq_append_cons_of_mem feed
    have noFeedThere : 10 ∉ text ++ more := by
      rw [List.mem_append, not_or]
      exact ⟨noFeed, notEarlier⟩
    rw [← List.append_assoc,
      List.splitOn_append_cons_self_of_not_mem noFeedThere]
    refine ⟨text ++ more, List.mem_cons_self, ?_⟩
    rw [List.length_append]
    exact Nat.le_add_right _ _
  · have noFeedThere : 10 ∉ text ++ rest := by
      rw [List.mem_append, not_or]
      exact ⟨noFeed, feed⟩
    rw [List.splitOn_eq_singleton noFeedThere]
    refine ⟨text ++ rest, List.mem_singleton_self _, ?_⟩
    rw [List.length_append]
    exact Nat.le_add_right _ _

theorem linesFit_nil {maxlen : Nat} (two : 2 ≤ maxlen) :
    LinesFit maxlen [] := by
  intro line member
  rw [List.splitOn_nil] at member
  rw [List.mem_singleton.mp member, List.length_nil]
  omega

/-- Every line fits exactly when its first part does, if it has not filled the
buffer, and the later ones do. -/
theorem Taken.linesFit_iff
    {maxlen : Nat} {stream rest : List UInt8} {stored : Stored}
    (taken : Taken (maxlen - 1) stream stored rest) (two : 2 ≤ maxlen) :
    LinesFit maxlen stream ↔ stored.ends ≠ .full ∧ LinesFit maxlen rest := by
  unfold LinesFit
  cases taken with
  | newline noFeed fits =>
      rw [List.splitOn_append_cons_self_of_not_mem noFeed,
        List.forall_mem_cons]
      apply and_congr_left
      intro _
      exact iff_of_true fits (by simp)
  | atEnd noFeed fits =>
      rw [List.splitOn_eq_singleton noFeed]
      apply iff_of_true
      · intro line member
        rw [List.mem_singleton.mp member]
        exact fits
      · exact ⟨by simp, linesFit_nil two⟩
  | full noFeed fills =>
      apply iff_of_false
      · intro fit
        obtain ⟨line, member, long⟩ := exists_long_line noFeed rest
        have short := fit line member
        omega
      · intro both
        exact both.1 rfl

theorem Lines.faithful_iff
    {maxlen : Nat} (two : 2 ≤ maxlen) {stream : List UInt8}
    {reads : List LineRead} (lines : Lines maxlen stream reads) :
    (∀ line ∈ reads, FaithfulLine maxlen line) ↔ LinesFit maxlen stream := by
  induction lines with
  | nil =>
      apply iff_of_true _ (linesFit_nil two)
      intro line impossible
      cases impossible
  | cons nonempty taken inside _ inductionHypothesis =>
      rw [List.forall_mem_cons, inductionHypothesis,
        taken.faithful_iff two inside, taken.linesFit_iff two]

section OneDescriptor

variable {fd ends : Nat} {world : World} {calls : List ReadCall}

theorem Chunking.noError
    {stream : List UInt8} (chunking : Chunking ends stream calls) :
    ReadCall.fails ∉ calls := by
  induction chunking with
  | done calls noError => exact noError
  | atEnd count later inductionHypothesis =>
      exact
        List.not_mem_cons_of_ne_of_not_mem (by simp) inductionHypothesis
  | eintr later inductionHypothesis =>
      exact
        List.not_mem_cons_of_ne_of_not_mem (by simp) inductionHypothesis
  | gives count positive fits available later inductionHypothesis =>
      exact
        List.not_mem_cons_of_ne_of_not_mem (by simp) inductionHypothesis

/-- What is left of the chunks: a call that has come to the end of the stream
has used up one of the ends. -/
inductive ChunksLeft (fd ends : Nat) (world : World) (calls : List ReadCall)
    (found : Bool) : Prop
  | atEnd (isEnd : found = true) (stream : world.streams fd = [])
      (chunking : Chunking ends [] calls) : ChunksLeft fd ends world calls found
  | inside (notEnd : found = false)
      (chunking : Chunking (ends + 1) (world.streams fd) calls) :
      ChunksLeft fd ends world calls found

theorem fill_of_chunking
    (chunking : Chunking (ends + 1) (world.streams fd) calls) :
    ∃ filled, fill fd calls world = some filled ∧ 0 ≤ filled.result ∧
      ChunksLeft fd ends filled.world filled.calls
        (decide (filled.result = 0)) := by
  generalize streamEq : world.streams fd = stream at chunking
  generalize totalEq : ends + 1 = total at chunking
  induction chunking with
  | done calls noError => cases totalEq
  | atEnd count later _ =>
      cases totalEq
      refine ⟨_, if_pos streamEq, Int.le_refl 0, ?_⟩
      exact .atEnd (decide_eq_true rfl) streamEq later
  | eintr later inductionHypothesis =>
      exact inductionHypothesis streamEq totalEq
  | @gives _ _ calls count positive fits available later _ =>
      subst streamEq totalEq
      have notEmpty : world.streams fd ≠ [] := by
        apply List.ne_nil_of_length_pos
        omega
      have filled :
          fill fd (.gives count :: calls) world =
            some ⟨count, calls, world.refill fd count⟩ := by
        rw [fill, if_neg notEmpty, if_pos ⟨positive, fits, available⟩]
      refine ⟨_, filled, Int.natCast_nonneg count, ?_⟩
      apply ChunksLeft.inside
      · apply decide_eq_false
        show ¬ (count : Int) = 0
        omega
      · have streams :
            (world.refill fd count).streams fd =
              (world.streams fd).drop count :=
          if_pos rfl
        rw [streams]
        exact later

theorem myRead_of_chunking
    (chunking : Chunking (ends + 1) (world.streams fd) calls) :
    ∃ read, myRead fd calls world = some read ∧ read.result ≠ .failed ∧
      ChunksLeft fd ends read.world read.calls
        (decide (read.result = .atEnd)) := by
  unfold myRead
  by_cases empty : world.ahead.readCnt ≤ 0
  · rw [if_pos empty]
    obtain ⟨filled, fills, nonneg, left⟩ := fill_of_chunking chunking
    rw [fills, Option.map_some, if_neg (Int.not_lt.mpr nonneg)]
    by_cases atEnd : filled.result = 0
    · rw [if_pos atEnd]
      rw [decide_eq_true atEnd] at left
      exact ⟨_, rfl, by simp, left⟩
    · rw [if_neg atEnd]
      rw [decide_eq_false atEnd] at left
      refine ⟨_, rfl, by simp [takeByte], ?_⟩
      cases left with
      | atEnd impossible => cases impossible
      | inside _ chunking => exact .inside rfl chunking
  · rw [if_neg empty]
    exact ⟨_, rfl, by simp [takeByte], .inside rfl chunking⟩

theorem readlineLoop_of_chunking
    (left : Nat)
    (chunking : Chunking (ends + 1) (world.streams fd) calls) :
    ∃ line, readlineLoop fd left calls world = some line ∧
      ChunksLeft fd ends line.world line.calls
        (decide (line.result.ends = .atEnd)) := by
  induction left generalizing world calls with
  | zero => exact ⟨_, rfl, .inside rfl chunking⟩
  | succ left inductionHypothesis =>
      obtain ⟨read, reads, notFailed, after⟩ := myRead_of_chunking chunking
      rw [readlineLoop, reads, Option.bind_some]
      cases result : read.result with
      | failed => exact absurd result notFailed
      | atEnd =>
          rw [result] at after
          exact ⟨_, rfl, after⟩
      | byte byte =>
          rw [result] at after
          cases after with
          | atEnd impossible => cases impossible
          | inside _ chunking =>
              by_cases newline : byte = 10
              · simp only [if_pos newline]
                exact ⟨_, rfl, .inside rfl chunking⟩
              · simp only [if_neg newline]
                obtain ⟨line, taken, later⟩ := inductionHypothesis chunking
                rw [taken]
                exact ⟨_, rfl, later⟩

end OneDescriptor

/-- A call returns 0 exactly at the end of the stream. -/
theorem Taken.value_eq_zero_iff
    {left : Nat} (positive : 1 ≤ left) {stream rest : List UInt8}
    {stored : Stored} (taken : Taken left stream stored rest)
    (buf : List UInt8) :
    (stored.lineRead 0 buf).value = 0 ↔ stream = [] := by
  cases taken with
  | newline noFeed fits =>
      apply iff_of_false
      · show ¬ ((_ : Nat) : Int) = 0
        rw [List.length_append, List.length_singleton]
        omega
      · simp
  | atEnd noFeed fits =>
      show ((0 + stream.length : Nat) : Int) = 0 ↔ _
      rw [← List.length_eq_zero_iff]
      omega
  | @full text rest noFeed fills =>
      apply iff_of_false
      · show ¬ ((0 + text.length + 1 : Nat) : Int) = 0
        omega
      · intro empty
        have lengths := congrArg List.length empty
        rw [List.length_append, List.length_nil] at lengths
        omega

theorem length_buf_lineRead
    {left : Nat} {stream rest : List UInt8} {stored : Stored}
    (taken : Taken left stream stored rest) {buf : List UInt8}
    (inside : left < buf.length) :
    (stored.lineRead 0 buf).buf.length = buf.length := by
  have fits := taken.length_le
  have same : (placed buf 0 stored.bytes).length = buf.length :=
    length_placed (by omega)
  unfold Stored.lineRead
  cases taken with
  | newline noFeed fits => simpa using same
  | atEnd noFeed fits => simpa using same
  | full noFeed fills => simpa using same

/-! ## All calls up to the end -/

section AllCalls

variable {fd maxlen : Nat} {world : World} {calls : List ReadCall}
  {buf : List UInt8}

/-- One call of `Readline` takes the next line that is due. -/
theorem taken_of_readlineLoop
    {left : Nat} (sound : world.ahead.Sound) (mine : world.ahead.Mine fd)
    (noError : ReadCall.fails ∉ calls) {line : Outcome Stored}
    (reads : readlineLoop fd left calls world = some line) :
    Keeps fd world line ∧
      Taken left (world.pending fd) line.result (line.world.pending fd) := by
  obtain ⟨keeps, lineEq⟩ := readlineLoop_spec left sound mine noError reads
  have next := taken_takeLine left (world.pending fd)
  rw [lineEq] at next
  exact ⟨keeps, next⟩

theorem lines_of_readLines
    (two : 2 ≤ maxlen) {fuel : Nat} (inside : maxlen ≤ buf.length)
    (sound : world.ahead.Sound) (mine : world.ahead.Mine fd)
    (noError : ReadCall.fails ∉ calls) {lines : List LineRead}
    (ran : readLines fd maxlen fuel calls world buf = some lines) :
    Lines maxlen (world.pending fd) lines := by
  induction fuel generalizing calls world buf lines with
  | zero => cases ran
  | succ fuel inductionHypothesis =>
      rw [readLines, readlineInto_eq fd (by omega) calls world inside] at ran
      obtain ⟨read, reads, ran⟩ := Option.bind_eq_some_iff.mp ran
      obtain ⟨line, loopEq, rfl⟩ := Option.map_eq_some_iff.mp reads
      obtain ⟨keeps, taken⟩ :=
        taken_of_readlineLoop sound mine noError loopEq
      have atEnd := taken.value_eq_zero_iff (by omega) buf
      by_cases zero : (line.result.lineRead 0 buf).value = 0
      · rw [if_pos zero] at ran
        cases ran
        rw [atEnd.mp zero]
        exact .nil
      · rw [if_neg zero] at ran
        obtain ⟨later, ranLater, rfl⟩ := Option.map_eq_some_iff.mp ran
        have stillInside :
            maxlen ≤ (line.result.lineRead 0 buf).buf.length := by
          rw [length_buf_lineRead taken (by omega)]
          exact inside
        have rest :=
          inductionHypothesis stillInside keeps.sound keeps.mine
            keeps.succeeds ranLater
        exact .cons (fun empty => zero (atEnd.mpr empty)) taken inside rest

theorem Taken.shorter
    {left : Nat} (positive : 1 ≤ left) {stream rest : List UInt8}
    {stored : Stored} (taken : Taken left stream stored rest)
    (nonempty : stream ≠ []) : rest.length < stream.length := by
  cases taken with
  | newline noFeed fits =>
      rw [List.length_append, List.length_cons]
      omega
  | atEnd noFeed fits => exact List.length_pos_iff.mpr nonempty
  | full noFeed fills =>
      rw [List.length_append]
      omega

/-- After a call there are chunks left for the later ones. -/
theorem chunking_of_left
    {ends : Nat} {line : Outcome Stored} {left : Nat} {stream : List UInt8}
    (taken : Taken left stream line.result (line.world.pending fd))
    (enough : 1 ≤ ends)
    (chunksLeft :
      ChunksLeft fd ends line.world line.calls
        (decide (line.result.ends = .atEnd))) :
    ∃ fewer, Chunking (fewer + 1) (line.world.streams fd) line.calls ∧
      (line.world.pending fd ≠ [] → 1 ≤ fewer) := by
  cases chunksLeft with
  | inside _ chunking => exact ⟨ends, chunking, fun _ => enough⟩
  | atEnd isEnd empty chunking =>
      obtain ⟨fewer, rfl⟩ : ∃ fewer, ends = fewer + 1 :=
        ⟨ends - 1, by omega⟩
      rw [empty]
      refine ⟨fewer, chunking, fun more => ?_⟩
      have atEnd := of_decide_eq_true isEnd
      generalize line.result = stored at taken atEnd
      generalize line.world.pending fd = rest at taken more
      cases taken with
      | newline noFeed fits => cases atEnd
      | atEnd noFeed fits => exact absurd rfl more
      | full noFeed fills => cases atEnd

/-- The calls come to one that returns 0. -/
theorem readLines_of_chunking
    (two : 2 ≤ maxlen) {ends : Nat} (inside : maxlen ≤ buf.length)
    (sound : world.ahead.Sound) (mine : world.ahead.Mine fd)
    (chunking : Chunking (ends + 1) (world.streams fd) calls)
    (enough : world.pending fd ≠ [] → 1 ≤ ends) :
    ∃ fuel lines, readLines fd maxlen fuel calls world buf = some lines := by
  induction length : (world.pending fd).length using Nat.strongRecOn
    generalizing ends calls world buf with
  | ind length inductionHypothesis =>
      subst length
      obtain ⟨line, loopEq, chunksLeft⟩ :=
        readlineLoop_of_chunking (maxlen - 1) chunking
      obtain ⟨keeps, taken⟩ :=
        taken_of_readlineLoop sound mine chunking.noError loopEq
      have reads :
          readlineInto fd maxlen calls world buf =
            some ⟨line.result.lineRead 0 buf, line.calls, line.world⟩ := by
        rw [readlineInto_eq fd (by omega) calls world inside]
        exact Option.map_eq_some_iff.mpr ⟨line, loopEq, rfl⟩
      have atEnd := taken.value_eq_zero_iff (by omega) buf
      by_cases zero : (line.result.lineRead 0 buf).value = 0
      · refine ⟨0 + 1, [], ?_⟩
        rw [readLines, reads, Option.bind_some, if_pos zero]
      · have nonempty : world.pending fd ≠ [] :=
          fun empty => zero (atEnd.mpr empty)
        obtain ⟨fewer, chunkingLater, enoughLater⟩ :=
          chunking_of_left taken (enough nonempty) chunksLeft
        have stillInside :
            maxlen ≤ (line.result.lineRead 0 buf).buf.length := by
          rw [length_buf_lineRead taken (by omega)]
          exact inside
        obtain ⟨fuel, later, ran⟩ :=
          inductionHypothesis _ (taken.shorter (by omega) nonempty)
            stillInside keeps.sound keeps.mine chunkingLater enoughLater rfl
        refine ⟨fuel + 1, line.result.lineRead 0 buf :: later, ?_⟩
        rw [readLines, reads, Option.bind_some, if_neg zero]
        exact Option.map_eq_some_iff.mpr ⟨later, ran, rfl⟩

end AllCalls

section FromTheStart

variable {streams : Nat → List UInt8} {fd maxlen : Nat} {buf : List UInt8}
  {calls : List ReadCall}

theorem lines_from_start
    (two : 2 ≤ maxlen) {fuel : Nat} (inside : maxlen ≤ buf.length)
    (noError : ReadCall.fails ∉ calls) {lines : List LineRead}
    (ran :
      readLines fd maxlen fuel calls (System.start streams).world buf =
        some lines) : Lines maxlen (streams fd) lines := by
  have split :=
    lines_of_readLines two inside (Nat.zero_le _)
      (Or.inl (Int.le_refl 0)) noError ran
  rw [World.pending_of_empty (Int.le_refl 0)] at split
  exact split

theorem linesFit_of_splitsFaithfully
    (two : 2 ≤ maxlen) (inside : maxlen ≤ buf.length)
    (noError : ReadCall.fails ∉ calls)
    (splits :
      SplitsFaithfully fd maxlen calls (System.start streams).world buf) :
    LinesFit maxlen (streams fd) := by
  obtain ⟨fuel, lines, ran, _, faithful⟩ := splits
  have split := lines_from_start two inside noError ran
  exact (split.faithful_iff two).mp faithful

theorem splitsFaithfully_of_linesFit
    (two : 2 ≤ maxlen) (inside : maxlen ≤ buf.length)
    (chunking : Chunking 2 (streams fd) calls)
    (fit : LinesFit maxlen (streams fd)) :
    SplitsFaithfully fd maxlen calls (System.start streams).world buf := by
  have fresh :
      Chunking (1 + 1) ((System.start streams).world.streams fd) calls :=
    chunking
  obtain ⟨fuel, lines, ran⟩ :=
    readLines_of_chunking two inside (Nat.zero_le _)
      (Or.inl (Int.le_refl 0)) fresh (fun _ => Nat.le_refl 1)
  have split := lines_from_start two inside chunking.noError ran
  exact
    ⟨fuel, lines, ran, split.flatMap_bytes, (split.faithful_iff two).mpr fit⟩

end FromTheStart

/-- The calls on one descriptor split its stream faithfully exactly when every
line fits into the buffer together with its LF and the NUL. -/
theorem splits_faithfully_iff
    (streams : Nat → List UInt8) (fd maxlen : Nat) (two : 2 ≤ maxlen)
    (buf : List UInt8) (inside : maxlen ≤ buf.length)
    (calls : List ReadCall) (chunking : Chunking 2 (streams fd) calls) :
    SplitsFaithfully fd maxlen calls (System.start streams).world buf ↔
      LinesFit maxlen (streams fd) :=
  ⟨linesFit_of_splitsFaithfully two inside chunking.noError,
    splitsFaithfully_of_linesFit two inside chunking⟩

/-- `"ab\ncd"` on descriptor 3. -/
def twoLines (fd : Nat) : List UInt8 :=
  if fd = 3 then [97, 98, 10, 99, 100] else []

theorem chunking_twoLines :
    Chunking 2 (twoLines 3)
      [.gives 4, .eintr, .gives 1, .gives 1, .eintr, .gives 1] := by
  apply Chunking.gives 4 (by decide) (by decide) (by decide)
  apply Chunking.eintr
  apply Chunking.gives 1 (by decide) (by decide) (by decide)
  apply Chunking.atEnd 1
  apply Chunking.eintr
  apply Chunking.atEnd 1
  exact Chunking.done [] List.not_mem_nil

theorem splits_faithfully_iff_twoLines :
    SplitsFaithfully 3 4
        [.gives 4, .eintr, .gives 1, .gives 1, .eintr, .gives 1]
        (System.start twoLines).world [0, 0, 0, 0] ↔
      LinesFit 4 (twoLines 3) :=
  splits_faithfully_iff twoLines 3 4 (by decide) [0, 0, 0, 0] (by decide) _
    chunking_twoLines

/-- A buffer of three bytes is full behind `"ab"`, and the call returns 3. -/
theorem not_splits_faithfully :
    ¬ ∀ (streams : Nat → List UInt8) (fd maxlen : Nat), 2 ≤ maxlen →
        ∀ (buf : List UInt8), maxlen ≤ buf.length →
          ∀ calls : List ReadCall, Chunking 2 (streams fd) calls →
            SplitsFaithfully fd maxlen calls (System.start streams).world
              buf := by
  intro always
  have fit :=
    linesFit_of_splitsFaithfully (by decide) (by decide)
      chunking_twoLines.noError
      (always twoLines 3 3 (by decide) [0, 0, 0] (by decide) _
        chunking_twoLines)
  have short := fit [97, 98] (by decide)
  exact absurd short (by decide)

end LinuxNet.Wrap
