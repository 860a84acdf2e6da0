import LinuxNet.Lib.Accesses
import LinuxNet.HttpServer.LinkRoundTrip

/-!
# The decoder with every access to its memory

`decode_str` and `strdecode` have two pointers into the same memory.  Where
`to` does not start beyond `from`, it never gets ahead of it: a turn advances
`to` by one and `from` by one or three.  The two digits of an escape are read
only behind a `%` and a digit, so no turn looks beyond the terminator.
-/

namespace LinuxNet.HttpServer

open LinuxNet.CString LinuxNet.Accesses

/-- The memory, the two pointers, and the accesses so far. -/
structure Decoding where
  memory : List UInt8
  toIdx : Nat
  fromIdx : Nat
  trace : List Access

namespace Decoding

/-- `from[offset]`. -/
def byteAt (decoding : Decoding) (offset : Nat) : UInt8 :=
  decoding.memory.getD (decoding.fromIdx + offset) 0

/-- `from[0] == '%' && isxdigit(from[1]) && isxdigit(from[2])`. -/
def isEscape (decoding : Decoding) : Bool :=
  decoding.byteAt 0 == 37 && isxdigit (decoding.byteAt 1) &&
    isxdigit (decoding.byteAt 2)

def testedOffsets (decoding : Decoding) : List Nat :=
  if decoding.byteAt 0 = 37 then
    if isxdigit (decoding.byteAt 1) then [0, 1, 2] else [0, 1]
  else
    [0]

def turnOffsets (decoding : Decoding) : List Nat :=
  0 :: decoding.testedOffsets ++
    if decoding.isEscape then [1, 2] else [0]

def reads (decoding : Decoding) (offsets : List Nat) : List Access :=
  readsOf (offsets.map (decoding.fromIdx + ·))

/-- `*to = ..`, after the reads. -/
def store (decoding : Decoding) (offsets : List Nat) (byte : UInt8) :
    Decoding :=
  { decoding with
    memory := decoding.memory.set decoding.toIdx byte
    trace :=
      decoding.trace ++ decoding.reads offsets ++ [.write decoding.toIdx] }

def advance (decoding : Decoding) (count : Nat) : Decoding :=
  { decoding with
    toIdx := decoding.toIdx + 1
    fromIdx := decoding.fromIdx + count }

/-- The body of the loop and `++to, ++from`. -/
def turn (decoding : Decoding) : Decoding :=
  if decoding.isEscape then
    (decoding.store decoding.turnOffsets
      (hexit (decoding.byteAt 1) * 16 + hexit (decoding.byteAt 2))).advance 3
  else
    (decoding.store decoding.turnOffsets (decoding.byteAt 0)).advance 1

/-- The loop, and `*to = '\0'` behind it. -/
def loop : Nat → Decoding → Option Decoding
  | 0, _ => none
  | fuel + 1, decoding =>
      if decoding.byteAt 0 = 0 then
        some (decoding.store [0] 0)
      else
        loop fuel decoding.turn

end Decoding

/-- `decode_str(to, from)` of the epoll server. -/
def decodeStrAt
    (fuel : Nat) (memory : List UInt8) (toIdx fromIdx : Nat) :
    Option Decoding :=
  Decoding.loop fuel ⟨memory, toIdx, fromIdx, []⟩

/-- `strdecode(to, from)` of the libevent server. -/
def strdecodeAt
    (fuel : Nat) (memory : List UInt8) (toIdx fromIdx : Nat) :
    Option Decoding :=
  Decoding.loop fuel ⟨memory, toIdx, fromIdx, []⟩

/-! ## One turn -/

namespace Decoding

section OneTurn

variable {decoding : Decoding} {text : List UInt8}

@[simp]
theorem toIdx_turned (offsets : List Nat) (byte : UInt8) (count : Nat) :
    ((decoding.store offsets byte).advance count).toIdx =
      decoding.toIdx + 1 :=
  rfl

@[simp]
theorem fromIdx_turned (offsets : List Nat) (byte : UInt8) (count : Nat) :
    ((decoding.store offsets byte).advance count).fromIdx =
      decoding.fromIdx + count :=
  rfl

@[simp]
theorem memory_turned (offsets : List Nat) (byte : UInt8) (count : Nat) :
    ((decoding.store offsets byte).advance count).memory =
      decoding.memory.set decoding.toIdx byte :=
  rfl

theorem byteAt_eq
    (string : StringAt decoding.memory decoding.fromIdx text)
    {offset : Nat} (inside : offset ≤ text.length) :
    decoding.byteAt offset = text.getD offset 0 :=
  string.getD_eq offset inside

theorem length_pos_of_byteAt
    (string : StringAt decoding.memory decoding.fromIdx text)
    (goesOn : decoding.byteAt 0 ≠ 0) : 1 ≤ text.length := by
  rw [byteAt_eq string (Nat.zero_le _)] at goesOn
  cases text with
  | nil => exact absurd rfl goesOn
  | cons byte rest => exact Nat.le_add_left 1 rest.length

/-- Behind a digit there is still the terminator. -/
theorem two_le_length_of_digit
    (string : StringAt decoding.memory decoding.fromIdx text)
    (goesOn : decoding.byteAt 0 ≠ 0)
    (digit : isxdigit (decoding.byteAt 1) = true) : 2 ≤ text.length := by
  have one := length_pos_of_byteAt string goesOn
  rw [byteAt_eq string one] at digit
  cases text with
  | nil => exact absurd one (by decide)
  | cons first rest =>
      cases rest with
      | nil =>
          exact absurd (show isxdigit 0 = true from digit) (by decide)
      | cons second rest => exact Nat.le_add_left 2 rest.length

theorem isEscape_iff :
    decoding.isEscape = true ↔
      decoding.byteAt 0 = 37 ∧ isxdigit (decoding.byteAt 1) = true ∧
        isxdigit (decoding.byteAt 2) = true := by
  unfold isEscape
  rw [Bool.and_eq_true, Bool.and_eq_true, beq_iff_eq, and_assoc]

/-- No turn looks beyond the terminator. -/
theorem turnOffsets_le
    (string : StringAt decoding.memory decoding.fromIdx text)
    (goesOn : decoding.byteAt 0 ≠ 0) :
    ∀ offset ∈ decoding.turnOffsets, offset ≤ text.length := by
  have one := length_pos_of_byteAt string goesOn
  have tested :
      ∀ offset ∈ decoding.testedOffsets, offset ≤ text.length := by
    intro offset member
    unfold testedOffsets at member
    by_cases percent : decoding.byteAt 0 = 37
    · rw [if_pos percent] at member
      by_cases digit : isxdigit (decoding.byteAt 1) = true
      · have two := two_le_length_of_digit string goesOn digit
        rw [if_pos digit] at member
        simp only [List.mem_cons, List.not_mem_nil, or_false] at member
        omega
      · rw [if_neg digit] at member
        simp only [List.mem_cons, List.not_mem_nil, or_false] at member
        omega
    · rw [if_neg percent, List.mem_singleton] at member
      omega
  intro offset member
  unfold turnOffsets at member
  rcases List.mem_append.mp member with early | late
  · rcases List.mem_cons.mp early with first | member
    · omega
    · exact tested offset member
  · by_cases escape : decoding.isEscape = true
    · have two :=
        two_le_length_of_digit string goesOn (isEscape_iff.mp escape).2.1
      rw [if_pos escape] at late
      simp only [List.mem_cons, List.not_mem_nil, or_false] at late
      omega
    · rw [if_neg escape, List.mem_singleton] at late
      omega

/-- What the loop leaves: the decoded text and a NUL from `to` on, and a trace
that reads the string only. -/
structure Decodes
    (decoding : Decoding) (text : List UInt8) (final : Decoding) :
    Prop where
  memory_eq :
    final.memory =
      decoding.memory.take decoding.toIdx ++ decodeFrom text ++
        0 :: decoding.memory.drop
          (decoding.toIdx + (decodeFrom text).length + 1)
  trace_eq :
    ∃ trace, final.trace = decoding.trace ++ trace ∧
      ReadsOnly
          (fun index =>
            decoding.fromIdx ≤ index ∧
              index ≤ decoding.fromIdx + text.length) trace ∧
        (decoding.toIdx ≤ decoding.fromIdx → ReadsFirst trace)

theorem decodes_nil
    (inside : decoding.toIdx < decoding.memory.length) :
    Decodes decoding [] (decoding.store [0] 0) := by
  constructor
  · show decoding.memory.set decoding.toIdx 0 = _
    rw [List.set_eq_take_append_cons_drop, if_pos inside]
    simp [decodeFrom]
  · refine
      ⟨decoding.reads [0] ++ [.write decoding.toIdx], ?_, ?_, fun _ => ?_⟩
    · exact List.append_assoc _ _ _
    · apply ReadsOnly.append
      · apply readsOnly_readsOf
        intro place member
        rw [List.mem_singleton.mp member]
        exact ⟨Nat.le_refl _, Nat.le_refl _⟩
      · intro index impossible
        cases List.mem_singleton.mp impossible
    · apply ReadsFirst.reads_append
      exact ⟨List.not_mem_nil, trivial⟩

/-- A turn stores one byte and consumes a part of the text; the later turns
read only what is behind that part. -/
theorem decodes_of_turn
    {final : Decoding} {rest : List UInt8} {byte : UInt8} {count : Nat}
    {offsets : List Nat} (positive : 1 ≤ count)
    (split : text.length = rest.length + count)
    (offsetsInside : ∀ offset ∈ offsets, offset ≤ text.length)
    (decodes : decodeFrom text = byte :: decodeFrom rest)
    (inside : decoding.toIdx < decoding.memory.length)
    (later :
      Decodes ((decoding.store offsets byte).advance count) rest final) :
    Decodes decoding text final := by
  constructor
  · have sameEnd :
        decoding.toIdx + 1 + (decodeFrom rest).length + 1 =
          decoding.toIdx + (decodeFrom text).length + 1 := by
      rw [decodes, List.length_cons]
      omega
    rw [later.memory_eq, decodes]
    simp only [toIdx_turned, memory_turned]
    rw [take_succ_set inside, List.drop_set_of_lt (by omega), sameEnd,
      decodes]
    simp
  · obtain ⟨trace, traceEq, reads, readsFirst⟩ := later.trace_eq
    simp only [fromIdx_turned, toIdx_turned] at reads readsFirst
    rw [Nat.add_assoc, Nat.add_comm count, ← split] at reads
    refine
      ⟨decoding.reads offsets ++ .write decoding.toIdx :: trace, ?_, ?_, ?_⟩
    · rw [traceEq]
      show decoding.trace ++ decoding.reads offsets ++
        [.write decoding.toIdx] ++ trace = _
      simp only [List.append_assoc, List.cons_append, List.nil_append]
    · apply ReadsOnly.append
      · apply readsOnly_readsOf
        intro place member
        obtain ⟨offset, isOffset, rfl⟩ := List.mem_map.mp member
        have bound := offsetsInside offset isOffset
        exact ⟨Nat.le_add_right _ _, Nat.add_le_add_left bound _⟩
      · intro index member
        have isRead : .read index ∈ trace := by
          simpa using member
        have within := reads index isRead
        exact ⟨by omega, within.2⟩
    · intro notAhead
      apply ReadsFirst.reads_append
      apply ReadsFirst.write_cons
      · exact readsFirst (Nat.add_le_add notAhead positive)
      · refine reads.mono ?_
        intro index within
        omega

/-- The pointer `to` is behind the string that is left, or beyond it. -/
def Apart (toIdx fromIdx : Nat) (text : List UInt8) : Prop :=
  toIdx ≤ fromIdx ∨ fromIdx + text.length < toIdx

theorem stringAt_set_beyond
    {memory : List UInt8} {start index : Nat} {byte : UInt8}
    (string : StringAt memory start text)
    (beyond : start + text.length < index) :
    StringAt (memory.set index byte) start text :=
  string.of_take_eq (Nat.lt_succ_self _)
    (List.take_set_of_le beyond)

/-- The rest of the string is the same after a turn. -/
theorem stringAt_of_turn
    (offsets : List Nat) (byte : UInt8) {rest : List UInt8} {count : Nat}
    (string : StringAt decoding.memory decoding.fromIdx text)
    (apart : Apart decoding.toIdx decoding.fromIdx text)
    (positive : 1 ≤ count) (within : count ≤ text.length)
    (restEq : text.drop count = rest) :
    StringAt ((decoding.store offsets byte).advance count).memory
        ((decoding.store offsets byte).advance count).fromIdx rest ∧
      Apart ((decoding.store offsets byte).advance count).toIdx
        ((decoding.store offsets byte).advance count).fromIdx rest := by
  have suffix := string.suffix count within
  have lengths := congrArg List.length restEq
  rw [List.length_drop] at lengths
  rw [restEq] at suffix
  rcases apart with behind | beyond
  · constructor
    · exact suffix.set_of_lt (by omega)
    · exact Or.inl (Nat.add_le_add behind positive)
  · constructor
    · apply stringAt_set_beyond suffix
      omega
    · apply Or.inr
      show decoding.fromIdx + count + rest.length < decoding.toIdx + 1
      omega

end OneTurn

end Decoding

theorem length_decodeFrom_le (text : List UInt8) :
    (decodeFrom text).length ≤ text.length := by
  induction text using decodeFrom.induct with
  | case1 first second third rest escape inductionHypothesis =>
      rw [decodeFrom, if_pos escape]
      simp only [List.length_cons]
      omega
  | case2 first second third rest plain inductionHypothesis =>
      rw [decodeFrom, if_neg plain]
      simp only [List.length_cons] at inductionHypothesis ⊢
      omega
  | case3 first rest short inductionHypothesis =>
      rw [decodeFrom]
      · exact Nat.succ_le_succ inductionHypothesis
      · exact short
  | case4 => exact Nat.le_refl 0

/-- Without two digits behind it, the first byte is no escape. -/
theorem not_isEscape_of_short
    {decoding : Decoding} {first : UInt8} {rest : List UInt8}
    (string : StringAt decoding.memory decoding.fromIdx (first :: rest))
    (short :
      ∀ second third later, rest = second :: third :: later → False) :
    ¬ decoding.isEscape = true := by
  rw [Decoding.isEscape_iff]
  rintro ⟨percent, high, low⟩
  have goesOn : decoding.byteAt 0 ≠ 0 := by
    rw [percent]
    decide
  have two := Decoding.two_le_length_of_digit string goesOn high
  cases rest with
  | nil => exact absurd (show 2 ≤ 1 from two) (by decide)
  | cons second rest =>
      cases rest with
      | nil =>
          rw [Decoding.byteAt_eq string (Nat.le_refl 2)] at low
          exact absurd (show isxdigit 0 = true from low) (by decide)
      | cons third rest => exact short second third rest rfl

/-- The loop comes back, having decoded the text. -/
def LoopDecodes
    (fuel : Nat) (decoding : Decoding) (text : List UInt8) : Prop :=
  ∃ final, Decoding.loop fuel decoding = some final ∧
    Decoding.Decodes decoding text final

theorem byteAt_zero
    {decoding : Decoding} {first : UInt8} {rest : List UInt8}
    (string : StringAt decoding.memory decoding.fromIdx (first :: rest)) :
    decoding.byteAt 0 = first ∧ first ≠ 0 := by
  constructor
  · exact Decoding.byteAt_eq string (Nat.zero_le _)
  · rintro rfl
    exact string.nul_free List.mem_cons_self

/-- A turn that stores `byte` for the next `count` bytes of the string. -/
theorem loopDecodes_of_turn
    {decoding : Decoding} {first byte : UInt8} {rest later : List UInt8}
    {count fuel : Nat}
    (string : StringAt decoding.memory decoding.fromIdx (first :: rest))
    (apart :
      Decoding.Apart decoding.toIdx decoding.fromIdx (first :: rest))
    (room :
      decoding.toIdx + (first :: rest).length < decoding.memory.length)
    (enough : (first :: rest).length < fuel)
    (positive : 1 ≤ count) (within : count ≤ (first :: rest).length)
    (laterEq : (first :: rest).drop count = later)
    (turnEq :
      decoding.turn =
        (decoding.store decoding.turnOffsets byte).advance count)
    (decodes : decodeFrom (first :: rest) = byte :: decodeFrom later)
    (inductionHypothesis :
      ∀ (next : Decoding) {fewer : Nat},
        StringAt next.memory next.fromIdx later →
          Decoding.Apart next.toIdx next.fromIdx later →
            next.toIdx + later.length < next.memory.length →
              later.length < fewer → LoopDecodes fewer next later) :
    LoopDecodes fuel decoding (first :: rest) := by
  obtain ⟨less, rfl⟩ : ∃ less, fuel = less + 1 := ⟨fuel - 1, by omega⟩
  obtain ⟨firstByte, nonzero⟩ := byteAt_zero string
  have goesOn : decoding.byteAt 0 ≠ 0 := by
    rw [firstByte]
    exact nonzero
  have split : (first :: rest).length = later.length + count := by
    rw [← laterEq, List.length_drop]
    omega
  obtain ⟨suffix, stillApart⟩ :=
    Decoding.stringAt_of_turn decoding.turnOffsets byte string apart
      positive within laterEq
  have stillRoom :
      decoding.toIdx + 1 + later.length <
        (decoding.memory.set decoding.toIdx byte).length := by
    rw [List.length_set]
    omega
  obtain ⟨final, looped, finalDecodes⟩ :=
    inductionHypothesis _ suffix stillApart stillRoom
      (show later.length < less by omega)
  refine ⟨final, ?_, ?_⟩
  · rw [Decoding.loop, if_neg goesOn, turnEq]
    exact looped
  · exact
      Decoding.decodes_of_turn positive split
        (Decoding.turnOffsets_le string goesOn) decodes (by omega)
        finalDecodes

/-- At most one turn for each byte of the string is enough. -/
theorem loopDecodes_of_stringAt
    (text : List UInt8) (decoding : Decoding) {fuel : Nat}
    (string : StringAt decoding.memory decoding.fromIdx text)
    (apart : Decoding.Apart decoding.toIdx decoding.fromIdx text)
    (room : decoding.toIdx + text.length < decoding.memory.length)
    (enough : text.length < fuel) : LoopDecodes fuel decoding text := by
  induction text using decodeFrom.induct generalizing decoding fuel with
  | case1 first second third rest escape inductionHypothesis =>
      have three : 3 ≤ (first :: second :: third :: rest).length :=
        Nat.le_add_left 3 rest.length
      have secondEq : decoding.byteAt 1 = second :=
        Decoding.byteAt_eq string (Nat.le_trans (by decide) three)
      have thirdEq : decoding.byteAt 2 = third :=
        Decoding.byteAt_eq string (Nat.le_trans (by decide) three)
      have isEscape : decoding.isEscape = true := by
        rw [Decoding.isEscape_iff, (byteAt_zero string).1, secondEq, thirdEq]
        exact escape
      apply loopDecodes_of_turn string apart room enough (by decide) three
        rfl
      · rw [Decoding.turn, if_pos isEscape, secondEq, thirdEq]
      · rw [decodeFrom, if_pos escape]
        rfl
      · exact inductionHypothesis
  | case2 first second third rest plain inductionHypothesis =>
      have two : 2 ≤ (first :: second :: third :: rest).length :=
        Nat.le_add_left 2 (rest.length + 1)
      have noEscape : ¬ decoding.isEscape = true := by
        rw [Decoding.isEscape_iff, (byteAt_zero string).1,
          Decoding.byteAt_eq string (Nat.le_trans (by decide) two),
          Decoding.byteAt_eq string two]
        exact plain
      apply loopDecodes_of_turn string apart room enough (Nat.le_refl 1)
        (Nat.le_trans (by decide) two) rfl
      · rw [Decoding.turn, if_neg noEscape, (byteAt_zero string).1]
      · rw [decodeFrom, if_neg plain]
        rfl
      · exact inductionHypothesis
  | case3 first rest short inductionHypothesis =>
      have noEscape := not_isEscape_of_short string short
      apply loopDecodes_of_turn string apart room enough (Nat.le_refl 1)
        (Nat.le_add_left 1 rest.length) rfl
      · rw [Decoding.turn, if_neg noEscape, (byteAt_zero string).1]
      · rw [decodeFrom]
        · rfl
        · exact short
      · exact inductionHypothesis
  | case4 =>
      obtain ⟨less, rfl⟩ : ∃ less, fuel = less + 1 := ⟨fuel - 1, by omega⟩
      have atEnd : decoding.byteAt 0 = 0 :=
        Decoding.byteAt_eq string (Nat.le_refl 0)
      refine ⟨decoding.store [0] 0, ?_, Decoding.decodes_nil room⟩
      rw [Decoding.loop, if_pos atEnd]

/-- Without the trace, the loop is the decoder that `http_request` calls. -/
theorem loop_of_decodeInPlace
    {fuel : Nat} {decoding : Decoding} {result : List UInt8}
    (decoded :
      decodeInPlace fuel decoding.memory decoding.toIdx decoding.fromIdx =
        some result) :
    ∃ final, Decoding.loop fuel decoding = some final ∧
      final.memory = result := by
  induction fuel generalizing decoding with
  | zero => cases decoded
  | succ fuel inductionHypothesis =>
      rw [decodeInPlace] at decoded
      by_cases outside : decoding.memory.length ≤ decoding.fromIdx
      · rw [if_pos outside] at decoded
        cases decoded
      · have first :
            decoding.memory.getD decoding.fromIdx 0 = decoding.byteAt 0 :=
          rfl
        have second :
            decoding.memory.getD (decoding.fromIdx + 1) 0 =
              decoding.byteAt 1 :=
          rfl
        have third :
            decoding.memory.getD (decoding.fromIdx + 2) 0 =
              decoding.byteAt 2 :=
          rfl
        rw [if_neg outside, first, second, third] at decoded
        rw [Decoding.loop]
        by_cases atEnd : decoding.byteAt 0 = 0
        · rw [if_pos atEnd] at decoded ⊢
          cases decoded
          exact ⟨_, rfl, rfl⟩
        · rw [if_neg atEnd] at decoded ⊢
          apply inductionHypothesis
          by_cases escape : decoding.isEscape = true
          · rw [if_pos (Decoding.isEscape_iff.mp escape)] at decoded
            rw [Decoding.turn, if_pos escape]
            exact decoded
          · rw [if_neg fun parts => escape (Decoding.isEscape_iff.mpr parts)]
              at decoded
            rw [Decoding.turn, if_neg escape]
            exact decoded

/-- The decoder has stored the decoded text with its terminator at `to`, and
left everything else as it was. -/
def StoresDecoded
    (memory text : List UInt8) (toIdx : Nat) (final : Decoding) : Prop :=
  final.memory =
    memory.take toIdx ++ decodeFrom text ++
      0 :: memory.drop (toIdx + (decodeFrom text).length + 1)

/-- The string at `from` and the buffer at `to`, as long as the string, have
no place in common. -/
structure SeparateBuffer
    (memory text : List UInt8) (toIdx fromIdx : Nat) : Prop where
  string : StringAt memory fromIdx text
  room : toIdx + text.length < memory.length
  separate :
    toIdx + text.length < fromIdx ∨ fromIdx + text.length < toIdx

/-- A decoder that comes back from a call in place, has read the string and
its terminator only, and no place that it had written before, and leaves what
it leaves in a separate buffer. -/
structure SafeInPlace
    (decode : Nat → List UInt8 → Nat → Nat → Option Decoding)
    (memory text : List UInt8) (start : Nat) : Prop where
  terminates :
    ∃ final, decode (text.length + 1) memory start start = some final ∧
      ReadsOnly
          (fun index => start ≤ index ∧ index ≤ start + text.length)
          final.trace ∧
        ReadsFirst final.trace ∧
          StoresDecoded memory text start final
  apart :
    ∀ other toIdx fromIdx, SeparateBuffer other text toIdx fromIdx →
      ∃ final,
        decode (text.length + 1) other toIdx fromIdx = some final ∧
          StoresDecoded other text toIdx final
  shorter : (decodeFrom text).length ≤ text.length

theorem safeInPlace_loop
    {memory text : List UInt8} {start : Nat}
    (string : StringAt memory start text) :
    SafeInPlace
      (fun fuel memory toIdx fromIdx =>
        Decoding.loop fuel ⟨memory, toIdx, fromIdx, []⟩)
      memory text start := by
  constructor
  · have room : start + text.length < memory.length :=
      lt_length_of_stringAt string
    obtain ⟨final, looped, decodes⟩ :=
      loopDecodes_of_stringAt text ⟨memory, start, start, []⟩ string
        (Or.inl (Nat.le_refl start)) room (Nat.lt_succ_self _)
    obtain ⟨trace, traceEq, reads, readsFirst⟩ := decodes.trace_eq
    rw [List.nil_append] at traceEq
    rw [← traceEq] at reads readsFirst
    exact
      ⟨final, looped, reads, readsFirst (Nat.le_refl start),
        decodes.memory_eq⟩
  · intro other toIdx fromIdx buffer
    have apart : Decoding.Apart toIdx fromIdx text := by
      rcases buffer.separate with below | above
      · exact Or.inl (by omega)
      · exact Or.inr above
    obtain ⟨final, looped, decodes⟩ :=
      loopDecodes_of_stringAt text ⟨other, toIdx, fromIdx, []⟩
        buffer.string apart buffer.room (Nat.lt_succ_self _)
    exact ⟨final, looped, decodes.memory_eq⟩
  · exact length_decodeFrom_le text

/-- Both servers decode safely in place. -/
theorem decode_in_place
    (memory text : List UInt8) (start : Nat)
    (string : StringAt memory start text) :
    SafeInPlace decodeStrAt memory text start ∧
      SafeInPlace strdecodeAt memory text start :=
  ⟨safeInPlace_loop string, safeInPlace_loop string⟩

/-- `"/%00%4"` behind a byte, with two bytes behind it. -/
theorem decode_in_place_escapes :
    SafeInPlace decodeStrAt [65, 47, 37, 48, 48, 37, 52, 0, 66, 67]
        [47, 37, 48, 48, 37, 52] 1 ∧
      SafeInPlace strdecodeAt [65, 47, 37, 48, 48, 37, 52, 0, 66, 67]
        [47, 37, 48, 48, 37, 52] 1 :=
  decode_in_place [65, 47, 37, 48, 48, 37, 52, 0, 66, 67]
    [47, 37, 48, 48, 37, 52] 1
    (StringAt.of_drop_eq
      (show _ = [47, 37, 48, 48, 37, 52] ++ 0 :: [66, 67] from rfl)
      (by decide))

end LinuxNet.HttpServer
