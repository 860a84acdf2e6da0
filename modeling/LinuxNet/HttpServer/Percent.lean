import LinuxNet.Lib.CString

/-!
# Percent-encoding in the two HTTP servers

`encode_str` and `strencode` print a name into a buffer that may be too short
for it; `decode_str` and `strdecode` read it back.  A byte is printed only
when an escape and the terminator still fit, so what is printed is the
encoding of a prefix of the name, and the decoder undoes it byte by byte.
-/

namespace LinuxNet.HttpServer

open LinuxNet.CString

/-- The bytes of `"/_.-~"`. -/
def unescapedMarks : List UInt8 := [47, 95, 46, 45, 126]

/-- `isalnum(*from) || strchr("/_.-~", *from) != 0`, for a byte that is not
NUL. -/
def isUnescaped (byte : UInt8) : Bool :=
  isalnum byte || unescapedMarks.contains byte

/-- A digit of `%02x`. -/
def hexDigit (value : Nat) : UInt8 :=
  UInt8.ofNat (if value < 10 then 48 + value else 87 + value)

/-- The buffer `to` with the pointer into it, and the places written so
far. -/
structure Output where
  memory : List UInt8
  toIdx : Nat
  tolen : Nat
  writes : List Nat
  deriving DecidableEq

namespace Output

def put (output : Output) (offset : Nat) (byte : UInt8) : Output :=
  { output with
    memory := output.memory.set (output.toIdx + offset) byte
    writes := output.writes ++ [output.toIdx + offset] }

/-- `sprintf(to, "%%%02x", (int) *from & 0xff)`. -/
def putEscape (output : Output) (byte : UInt8) : Output :=
  (((output.put 0 37).put 1 (hexDigit (byte.toNat / 16))).put 2
    (hexDigit (byte.toNat % 16))).put 3 0

def advance (output : Output) (count : Nat) : Output :=
  { output with toIdx := output.toIdx + count, tolen := output.tolen + count }

end Output

/-- The loop over the bytes of `from`.  `tolen` and `tosize` are of type `int`
in the source and have no bound here; both servers pass 1024, and `tolen` stays
below it. -/
def encodeFrom (tosize : Nat) : List UInt8 → Output → Output
  | [], output => output.put 0 0
  | byte :: rest, output =>
      if output.tolen + 4 < tosize then
        if isUnescaped byte then
          encodeFrom tosize rest ((output.put 0 byte).advance 1)
        else
          encodeFrom tosize rest ((output.putEscape byte).advance 3)
      else
        output.put 0 0

/-- `encode_str` of the epoll server. -/
def encodeStr (memory : List UInt8) (tosize : Nat) (source : List UInt8) :
    Output :=
  encodeFrom tosize source ⟨memory, 0, 0, []⟩

/-- `strencode` of the libevent server. -/
def strencode (memory : List UInt8) (tosize : Nat) (source : List UInt8) :
    Output :=
  encodeFrom tosize source ⟨memory, 0, 0, []⟩

def hexit (byte : UInt8) : UInt8 :=
  if 48 ≤ byte ∧ byte ≤ 57 then byte - 48
  else if 97 ≤ byte ∧ byte ≤ 102 then byte - 97 + 10
  else if 65 ≤ byte ∧ byte ≤ 70 then byte - 65 + 10
  else 0

/-- The bytes that the decoders store, the terminator left out.  They may
decode in place: the place they store to is never beyond the place they
read. -/
def decodeFrom : List UInt8 → List UInt8
  | first :: second :: third :: rest =>
      if first = 37 ∧ isxdigit second = true ∧ isxdigit third = true then
        (hexit second * 16 + hexit third) :: decodeFrom rest
      else
        first :: decodeFrom (second :: third :: rest)
  | first :: rest => first :: decodeFrom rest
  | [] => []

/-- `decode_str` of the epoll server. -/
def decodeStr (source : List UInt8) : List UInt8 :=
  decodeFrom source

/-- `strdecode` of the libevent server. -/
def strdecode (source : List UInt8) : List UInt8 :=
  decodeFrom source

def escapeByte (byte : UInt8) : List UInt8 :=
  if isUnescaped byte then
    [byte]
  else
    [37, hexDigit (byte.toNat / 16), hexDigit (byte.toNat % 16)]

/-- A byte of an encoded name. -/
def isEncoded (byte : UInt8) : Bool :=
  isUnescaped byte || byte == 37

/-- Two hexadecimal digits stand behind every `%`. -/
def CompleteEscapes : List UInt8 → Prop
  | [] => True
  | byte :: rest =>
      (byte = 37 →
        ∃ high low tail, rest = high :: low :: tail ∧
          isxdigit high = true ∧ isxdigit low = true) ∧
        CompleteEscapes rest

theorem hexDigit_spec :
    ∀ value < 16,
      isxdigit (hexDigit value) = true ∧ isUnescaped (hexDigit value) = true ∧
        (hexit (hexDigit value)).toNat = value := by
  decide

theorem hexit_hexDigits (byte : UInt8) :
    hexit (hexDigit (byte.toNat / 16)) * 16 +
        hexit (hexDigit (byte.toNat % 16)) = byte := by
  have bound := byte.toNat_lt
  have high := (hexDigit_spec (byte.toNat / 16) (by omega)).2.2
  have low := (hexDigit_spec (byte.toNat % 16) (by omega)).2.2
  apply UInt8.toNat_inj.mp
  rw [UInt8.toNat_add, UInt8.toNat_mul, high, low]
  show (byte.toNat / 16 * 16 % 256 + byte.toNat % 16) % 256 = byte.toNat
  omega

theorem length_escapeByte_le (byte : UInt8) :
    (escapeByte byte).length ≤ 3 := by
  unfold escapeByte
  split <;> simp

theorem isEncoded_of_mem_escapeByte
    {byte printed : UInt8} (member : printed ∈ escapeByte byte) :
    isEncoded printed = true := by
  have bound := byte.toNat_lt
  unfold escapeByte at member
  unfold isEncoded
  by_cases plain : isUnescaped byte = true
  · rw [if_pos plain] at member
    rw [List.mem_singleton.mp member, plain]
    rfl
  · rw [if_neg plain] at member
    simp only [List.mem_cons, List.not_mem_nil, or_false] at member
    rcases member with rfl | rfl | rfl
    · rfl
    · rw [(hexDigit_spec (byte.toNat / 16) (by omega)).2.1]
      rfl
    · rw [(hexDigit_spec (byte.toNat % 16) (by omega)).2.1]
      rfl

theorem decodeFrom_cons
    {byte : UInt8} (different : byte ≠ 37) (rest : List UInt8) :
    decodeFrom (byte :: rest) = byte :: decodeFrom rest := by
  cases rest with
  | nil => rfl
  | cons second rest =>
      cases rest with
      | nil => rfl
      | cons third rest =>
          rw [decodeFrom, if_neg (fun escape => different escape.1)]

theorem isUnescaped_ne_percent
    {byte : UInt8} (plain : isUnescaped byte = true) : byte ≠ 37 := by
  rintro rfl
  exact absurd plain (by decide)

theorem decodeFrom_escapeByte (byte : UInt8) (rest : List UInt8) :
    decodeFrom (escapeByte byte ++ rest) = byte :: decodeFrom rest := by
  have bound := byte.toNat_lt
  unfold escapeByte
  by_cases plain : isUnescaped byte = true
  · rw [if_pos plain]
    exact decodeFrom_cons (isUnescaped_ne_percent plain) rest
  · rw [if_neg plain]
    have high := (hexDigit_spec (byte.toNat / 16) (by omega)).1
    have low := (hexDigit_spec (byte.toNat % 16) (by omega)).1
    simp only [List.cons_append, List.nil_append]
    rw [decodeFrom, if_pos ⟨rfl, high, low⟩, hexit_hexDigits]

/-- The decoder undoes the encoding of any string. -/
theorem decodeFrom_flatMap_escapeByte (source : List UInt8) :
    decodeFrom (source.flatMap escapeByte) = source := by
  induction source with
  | nil => rfl
  | cons byte rest inductionHypothesis =>
      rw [List.flatMap_cons, decodeFrom_escapeByte, inductionHypothesis]

theorem completeEscapes_escapeByte
    (byte : UInt8) {rest : List UInt8} (complete : CompleteEscapes rest) :
    CompleteEscapes (escapeByte byte ++ rest) := by
  have bound := byte.toNat_lt
  unfold escapeByte
  by_cases plain : isUnescaped byte = true
  · rw [if_pos plain]
    exact ⟨fun same => absurd same (isUnescaped_ne_percent plain), complete⟩
  · rw [if_neg plain]
    obtain ⟨highHex, highPlain, _⟩ :=
      hexDigit_spec (byte.toNat / 16) (by omega)
    obtain ⟨lowHex, lowPlain, _⟩ :=
      hexDigit_spec (byte.toNat % 16) (by omega)
    refine ⟨fun _ => ⟨_, _, rest, rfl, highHex, lowHex⟩, ?_, ?_, complete⟩
    · exact fun same => absurd same (isUnescaped_ne_percent highPlain)
    · exact fun same => absurd same (isUnescaped_ne_percent lowPlain)

theorem completeEscapes_flatMap (source : List UInt8) :
    CompleteEscapes (source.flatMap escapeByte) := by
  induction source with
  | nil => trivial
  | cons byte rest inductionHypothesis =>
      rw [List.flatMap_cons]
      exact completeEscapes_escapeByte byte inductionHypothesis

/-! ## Printing into the buffer -/

/-- The text stands at the start of the buffer, and nothing was written
outside its first `tosize` bytes. -/
structure Printed (tosize : Nat) (text : List UInt8) (output : Output) :
    Prop where
  toIdx_eq : output.toIdx = text.length
  tolen_eq : output.tolen = text.length
  below : text.length < tosize
  room : tosize ≤ output.memory.length
  printed : output.memory.take text.length = text
  inside : ∀ index ∈ output.writes, index < tosize

variable {tosize : Nat} {text : List UInt8} {output : Output}

theorem Printed.exists_tail (printed : Printed tosize text output) :
    ∃ tail, output.memory = text ++ tail ∧
      tosize ≤ text.length + tail.length := by
  refine ⟨output.memory.drop text.length, ?_, ?_⟩
  · have whole := List.take_append_drop text.length output.memory
    rw [printed.printed] at whole
    exact whole.symm
  · have room := printed.room
    rw [List.length_drop]
    omega

/-- `*to = *from; ++ to; ++ tolen`. -/
theorem Printed.putByte
    (printed : Printed tosize text output) (byte : UInt8)
    (fits : text.length + 4 < tosize) :
    Printed tosize (text ++ [byte]) ((output.put 0 byte).advance 1) := by
  obtain ⟨tail, shape, room⟩ := printed.exists_tail
  have toEq := printed.toIdx_eq
  have tolenEq := printed.tolen_eq
  cases tail with
  | nil =>
      rw [List.length_nil] at room
      omega
  | cons old tail =>
      have stored :
          output.memory.set (output.toIdx + 0) byte =
            (text ++ [byte]) ++ tail := by
        rw [shape, toEq]
        simp
      constructor
      · simp [Output.put, Output.advance, toEq]
      · simp [Output.put, Output.advance, tolenEq]
      · rw [List.length_append, List.length_singleton]
        omega
      · show tosize ≤ (output.memory.set (output.toIdx + 0) byte).length
        rw [List.length_set]
        exact printed.room
      · show (output.memory.set (output.toIdx + 0) byte).take _ = _
        rw [stored, List.take_left]
      · intro index member
        rcases List.mem_append.mp member with before | same
        · exact printed.inside index before
        · rw [List.mem_singleton.mp same, toEq]
          omega

theorem exists_four_of_length
    {tail : List UInt8} (long : 4 ≤ tail.length) :
    ∃ first second third fourth rest,
      tail = first :: second :: third :: fourth :: rest := by
  rcases tail with _ | ⟨first, _ | ⟨second, _ | ⟨third, _ | ⟨fourth, rest⟩⟩⟩⟩
  · simp at long
  · simp at long
  · simp at long
  · simp at long
  · exact ⟨first, second, third, fourth, rest, rfl⟩

/-- `sprintf`, which also stores a NUL behind the escape. -/
theorem Printed.putEscape
    (printed : Printed tosize text output) (byte : UInt8)
    (fits : text.length + 4 < tosize) :
    Printed tosize
      (text ++
        [37, hexDigit (byte.toNat / 16), hexDigit (byte.toNat % 16)])
      ((output.putEscape byte).advance 3) := by
  obtain ⟨tail, shape, room⟩ := printed.exists_tail
  have toEq := printed.toIdx_eq
  have tolenEq := printed.tolen_eq
  obtain ⟨first, second, third, fourth, tail, rfl⟩ :=
    exists_four_of_length (show 4 ≤ tail.length by omega)
  have stored :
      (output.putEscape byte).memory =
        (text ++
          [37, hexDigit (byte.toNat / 16), hexDigit (byte.toNat % 16)]) ++
          0 :: tail := by
    simp only [Output.putEscape, Output.put, shape, toEq]
    simp
  constructor
  · simp [Output.putEscape, Output.put, Output.advance, toEq]
  · simp [Output.putEscape, Output.put, Output.advance, tolenEq]
  · simp only [List.length_append, List.length_cons, List.length_nil]
    omega
  · show tosize ≤ (output.putEscape byte).memory.length
    simp only [Output.putEscape, Output.put, List.length_set]
    exact printed.room
  · show (output.putEscape byte).memory.take _ = _
    rw [stored, List.take_left]
  · intro index member
    simp only [Output.putEscape, Output.put, Output.advance,
      List.append_assoc, List.cons_append, List.nil_append, List.mem_append,
      List.mem_cons, List.not_mem_nil, or_false] at member
    rcases member with before | rfl | rfl | rfl | rfl
    · exact printed.inside index before
    · omega
    · omega
    · omega
    · omega

/-- `*to = '\0'`. -/
theorem Printed.terminate
    (printed : Printed tosize text output) (nulFree : 0 ∉ text) :
    StringAt (output.put 0 0).memory 0 text ∧
      ∀ index ∈ (output.put 0 0).writes, index < tosize := by
  obtain ⟨tail, shape, room⟩ := printed.exists_tail
  have toEq := printed.toIdx_eq
  have below := printed.below
  constructor
  · cases tail with
    | nil =>
        rw [List.length_nil] at room
        omega
    | cons old tail =>
        apply StringAt.of_drop_eq _ nulFree
        · exact tail
        · show (output.memory.set (output.toIdx + 0) 0).drop 0 = _
          rw [shape, toEq]
          simp
  · intro index member
    rcases List.mem_append.mp member with before | same
    · exact printed.inside index before
    · rw [List.mem_singleton.mp same, toEq]
      exact below

theorem zero_not_mem_flatMap_escapeByte (source : List UInt8) :
    0 ∉ source.flatMap escapeByte := by
  intro member
  obtain ⟨byte, _, printed⟩ := List.mem_flatMap.mp member
  exact absurd (isEncoded_of_mem_escapeByte printed) (by decide)

/-- The loop prints the encoding of a prefix of what it is given, all of it
where three bytes for each are left. -/
theorem encodeFrom_spec
    (source done : List UInt8)
    (printed : Printed tosize (done.flatMap escapeByte) output) :
    ∃ count, count ≤ source.length ∧
      StringAt (encodeFrom tosize source output).memory 0
        ((done ++ source.take count).flatMap escapeByte) ∧
      (∀ index ∈ (encodeFrom tosize source output).writes,
        index < tosize) ∧
      ((done.flatMap escapeByte).length + 3 * source.length + 1 < tosize →
        count = source.length) := by
  induction source generalizing done output with
  | nil =>
      obtain ⟨string, inside⟩ :=
        printed.terminate (zero_not_mem_flatMap_escapeByte done)
      refine ⟨0, Nat.le_refl 0, ?_, inside, fun _ => rfl⟩
      rw [List.take_nil, List.append_nil]
      exact string
  | cons byte rest inductionHypothesis =>
      have printedLonger :
          ∀ {next : Output},
            Printed tosize (done.flatMap escapeByte ++ escapeByte byte)
              next →
              Printed tosize ((done ++ [byte]).flatMap escapeByte) next := by
        intro next longer
        rw [List.flatMap_append, List.flatMap_singleton]
        exact longer
      have lengthLe := length_escapeByte_le byte
      have recursion :
          ∀ {next : Output},
            Printed tosize ((done ++ [byte]).flatMap escapeByte) next →
              ∃ count, count ≤ (byte :: rest).length ∧
                StringAt (encodeFrom tosize rest next).memory 0
                  ((done ++ (byte :: rest).take count).flatMap escapeByte) ∧
                (∀ index ∈ (encodeFrom tosize rest next).writes,
                  index < tosize) ∧
                ((done.flatMap escapeByte).length +
                    3 * (byte :: rest).length + 1 < tosize →
                  count = (byte :: rest).length) := by
        intro next longer
        obtain ⟨count, countLe, string, inside, whole⟩ :=
          inductionHypothesis (done ++ [byte]) longer
        refine ⟨count + 1, Nat.succ_le_succ countLe, ?_, inside, ?_⟩
        · rw [List.take_succ_cons]
          rw [List.append_assoc, List.singleton_append] at string
          exact string
        · intro room
          rw [List.flatMap_append, List.flatMap_singleton,
            List.length_append] at whole
          rw [List.length_cons] at room ⊢
          rw [whole (by omega)]
      rw [encodeFrom, printed.tolen_eq]
      by_cases fits : (done.flatMap escapeByte).length + 4 < tosize
      · rw [if_pos fits]
        by_cases plain : isUnescaped byte = true
        · rw [if_pos plain]
          apply recursion
          apply printedLonger
          rw [escapeByte, if_pos plain]
          exact printed.putByte byte fits
        · rw [if_neg plain]
          apply recursion
          apply printedLonger
          rw [escapeByte, if_neg plain]
          exact printed.putEscape byte fits
      · rw [if_neg fits]
        obtain ⟨string, inside⟩ :=
          printed.terminate (zero_not_mem_flatMap_escapeByte done)
        refine ⟨0, Nat.zero_le _, ?_, inside, fun room => ?_⟩
        · rw [List.take_zero, List.append_nil]
          exact string
        · rw [List.length_cons] at room
          omega

/-- What is left in a buffer of `tosize` bytes for the string `source`, and
what a decoder makes of it. -/
structure Encodes
    (tosize : Nat) (source : List UInt8)
    (decode : List UInt8 → List UInt8) (output : Output) : Prop where
  inside : ∀ index ∈ output.writes, index < tosize
  terminated : Terminated output.memory 0
  alphabet : ∀ byte ∈ cstr output.memory 0, isEncoded byte = true
  escapes : CompleteEscapes (cstr output.memory 0)
  decoded : decode (cstr output.memory 0) <+: source
  whole :
    3 * source.length + 1 < tosize →
      decode (cstr output.memory 0) = source

theorem encodes_encodeFrom
    (memory source : List UInt8) (tosize : Nat) (positive : 1 ≤ tosize)
    (room : tosize ≤ memory.length) :
    Encodes tosize source decodeFrom
      (encodeFrom tosize source ⟨memory, 0, 0, []⟩) := by
  have initially : Printed tosize ([].flatMap escapeByte) ⟨memory, 0, 0, []⟩ :=
    ⟨rfl, rfl, positive, room, rfl, fun _ impossible => by cases impossible⟩
  obtain ⟨count, _, string, inside, whole⟩ :=
    encodeFrom_spec source [] initially
  rw [List.nil_append] at string
  refine ⟨inside, string.terminated, ?_, ?_, ?_, ?_⟩
  · rw [string.cstr_eq]
    intro byte member
    obtain ⟨_, _, printed⟩ := List.mem_flatMap.mp member
    exact isEncoded_of_mem_escapeByte printed
  · rw [string.cstr_eq]
    exact completeEscapes_flatMap _
  · rw [string.cstr_eq, decodeFrom_flatMap_escapeByte]
    exact List.take_prefix count source
  · intro longEnough
    rw [string.cstr_eq, decodeFrom_flatMap_escapeByte]
    rw [List.flatMap_nil, List.length_nil, Nat.zero_add] at whole
    rw [whole longEnough, List.take_length]

/-- In both servers the encoder stays in its buffer and leaves a well formed
string, and the decoder makes a prefix of the source of it, or the whole
source where the buffer has room for an escape for every byte. -/
theorem decode_undoes_encode
    (memory source : List UInt8) (tosize : Nat) (positive : 1 ≤ tosize)
    (room : tosize ≤ memory.length) :
    Encodes tosize source decodeStr (encodeStr memory tosize source) ∧
      Encodes tosize source strdecode (strencode memory tosize source) :=
  ⟨encodes_encodeFrom memory source tosize positive room,
    encodes_encodeFrom memory source tosize positive room⟩

/-- The percent sign and a letter fit, the byte 200 does not. -/
theorem decode_undoes_encode_truncated :
    Encodes 8 [37, 65, 200] decodeStr
        (encodeStr (List.replicate 8 1) 8 [37, 65, 200]) ∧
      Encodes 8 [37, 65, 200] strdecode
        (strencode (List.replicate 8 1) 8 [37, 65, 200]) :=
  decode_undoes_encode (List.replicate 8 1) [37, 65, 200] 8 (by decide)
    (by decide)

end LinuxNet.HttpServer
