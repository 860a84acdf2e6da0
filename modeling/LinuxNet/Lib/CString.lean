import Mathlib.Data.List.TakeWhile

/-!
# C strings in a byte array

A byte array is a list of bytes and a pointer into it is an index.  The C
string at an index runs up to the first NUL at or after it.  The `<string.h>`
functions below take the array and the index, as their C namesakes take a
pointer, and depend on the array through that C string only.

The lemmas say what a store does to a C string: a store below its start or
beyond its terminator leaves it alone, and a NUL stored inside it cuts it.
-/

namespace LinuxNet.CString

/-- The C string that starts at an index, its terminator left out. -/
def cstr (memory : List UInt8) (start : Nat) : List UInt8 :=
  (memory.drop start).takeWhile (· ≠ 0)

/-- A NUL stands at or after the index, inside the array. -/
def Terminated (memory : List UInt8) (start : Nat) : Prop :=
  0 ∈ memory.drop start

instance (memory : List UInt8) (start : Nat) :
    Decidable (Terminated memory start) := by
  unfold Terminated
  infer_instance

/-- `tolower` in the C locale. -/
def lower (byte : UInt8) : UInt8 :=
  if 65 ≤ byte ∧ byte ≤ 90 then byte + 32 else byte

/-- Equality of two byte strings up to the case of their letters. -/
def SameIgnoringCase (left right : List UInt8) : Prop :=
  left.map lower = right.map lower

instance (left right : List UInt8) :
    Decidable (SameIgnoringCase left right) := by
  unfold SameIgnoringCase
  infer_instance

/-- `strpbrk`: the first byte of the string that the set accepts. -/
def strpbrk
    (memory : List UInt8) (start : Nat) (accept : UInt8 → Bool) :
    Option Nat :=
  ((cstr memory start).findIdx? accept).map (start + ·)

/-- `strchr`, for a byte other than NUL. -/
def strchr
    (memory : List UInt8) (start : Nat) (byte : UInt8) : Option Nat :=
  strpbrk memory start (· == byte)

/-- `strspn`: how many bytes the set accepts before the first it does not. -/
def strspn
    (memory : List UInt8) (start : Nat) (accept : UInt8 → Bool) : Nat :=
  ((cstr memory start).takeWhile accept).length

/-- `strcasecmp(..) == 0`. -/
def strcasecmp
    (memory : List UInt8) (start : Nat) (text : List UInt8) : Bool :=
  decide (SameIgnoringCase (cstr memory start) text)

/-- `strncasecmp(.., n) == 0`, `n` being the length of the text. -/
def strncasecmp
    (memory : List UInt8) (start : Nat) (text : List UInt8) : Bool :=
  decide
    (SameIgnoringCase ((cstr memory start).take text.length) text)

/-- `isspace` in the C locale. -/
def isspace (byte : UInt8) : Bool :=
  byte == 32 || (9 ≤ byte && byte ≤ 13)

/-- `isdigit`. -/
def isdigit (byte : UInt8) : Bool :=
  48 ≤ byte && byte ≤ 57

/-- `isxdigit`. -/
def isxdigit (byte : UInt8) : Bool :=
  isdigit byte || (65 ≤ byte && byte ≤ 70) || (97 ≤ byte && byte ≤ 102)

/-- `isalnum` in the C locale: no byte from 128 on, whatever the sign of
`char`. -/
def isalnum (byte : UInt8) : Bool :=
  isdigit byte || (65 ≤ byte && byte ≤ 90) || (97 ≤ byte && byte ≤ 122)

/-- `toupper` in the C locale. -/
def toupper (byte : UInt8) : UInt8 :=
  if 97 ≤ byte ∧ byte ≤ 122 then byte - 32 else byte

def digitsValue (digits : List UInt8) : Nat :=
  digits.foldl (fun value byte => 10 * value + (byte - 48).toNat) 0

/-- `atol` on the bytes of a C string: leading white space, a sign, and the
longest run of digits; `strtol` stops at the ends of the 64-bit `long`. -/
def atol (text : List UInt8) : Int :=
  match text.dropWhile isspace with
  | [] => 0
  | byte :: rest =>
      if byte = 45 then
        max (-9223372036854775808)
          (-(digitsValue (rest.takeWhile isdigit) : Int))
      else if byte = 43 then
        min 9223372036854775807
          (digitsValue (rest.takeWhile isdigit) : Int)
      else
        min 9223372036854775807
          (digitsValue ((byte :: rest).takeWhile isdigit) : Int)

theorem cstr_nul_free (memory : List UInt8) (start : Nat) :
    0 ∉ cstr memory start := by
  intro member
  have kept := List.mem_takeWhile_imp member
  simp at kept

/-- A string is known once it is seen in front of a NUL. -/
theorem cstr_eq_of_drop_eq
    {memory text tail : List UInt8} {start : Nat}
    (shape : memory.drop start = text ++ 0 :: tail)
    (nulFree : 0 ∉ text) :
    cstr memory start = text := by
  have kept : ∀ byte ∈ text, decide (byte ≠ 0) = true := by
    intro byte member
    have different : byte ≠ 0 := by
      rintro rfl
      exact nulFree member
    simpa using different
  unfold cstr
  rw [shape, List.takeWhile_append_of_pos kept]
  simp

/-- A terminated string is followed by its NUL. -/
theorem exists_drop_eq_of_terminated
    {memory : List UInt8} {start : Nat}
    (terminated : Terminated memory start) :
    ∃ tail, memory.drop start = cstr memory start ++ 0 :: tail := by
  obtain ⟨before, tail, shape, first⟩ :=
    List.eq_append_cons_of_mem terminated
  exact ⟨tail, by rw [cstr_eq_of_drop_eq shape first, shape]⟩

theorem terminated_of_drop_eq
    {memory text tail : List UInt8} {start : Nat}
    (shape : memory.drop start = text ++ 0 :: tail) :
    Terminated memory start := by
  unfold Terminated
  rw [shape]
  simp

/-- A suffix of a terminated string is the string at the index of that
suffix. -/
theorem cstr_add
    {memory : List UInt8} {start count : Nat}
    (terminated : Terminated memory start)
    (inside : count ≤ (cstr memory start).length) :
    cstr memory (start + count) = (cstr memory start).drop count ∧
      Terminated memory (start + count) := by
  obtain ⟨tail, shape⟩ := exists_drop_eq_of_terminated terminated
  have later :
      memory.drop (start + count) =
        (cstr memory start).drop count ++ 0 :: tail := by
    rw [← List.drop_drop, shape, List.drop_append_of_le_length inside]
  have nulFree : 0 ∉ (cstr memory start).drop count :=
    fun member => cstr_nul_free memory start (List.mem_of_mem_drop member)
  exact
    ⟨cstr_eq_of_drop_eq later nulFree, terminated_of_drop_eq later⟩

/-- Arrays that agree up to the terminator hold the same string. -/
theorem cstr_eq_of_take_eq
    {memory changed : List UInt8} {start bound : Nat}
    (terminated : Terminated memory start)
    (inside : start + (cstr memory start).length < bound)
    (agree : changed.take bound = memory.take bound) :
    cstr changed start = cstr memory start ∧
      Terminated changed start := by
  obtain ⟨tail, shape⟩ := exists_drop_eq_of_terminated terminated
  have window :
      (changed.take bound).drop start =
        cstr memory start ++
          0 :: tail.take (bound - start - (cstr memory start).length - 1) := by
    rw [agree, List.drop_take, shape, List.take_append,
      List.take_of_length_le (by omega)]
    obtain ⟨room, roomEq⟩ :
        ∃ room, bound - start - (cstr memory start).length = room + 1 :=
      ⟨bound - start - (cstr memory start).length - 1, by omega⟩
    rw [roomEq]
    simp
  have bounded : start < (changed.take bound).length := by
    by_contra beyond
    rw [List.drop_eq_nil_of_le (by omega)] at window
    simp at window
  have whole :
      changed.drop start =
        cstr memory start ++
          0 :: (tail.take (bound - start - (cstr memory start).length - 1) ++
            changed.drop bound) := by
    calc
      changed.drop start =
          (changed.take bound ++ changed.drop bound).drop start := by
        rw [List.take_append_drop]
      _ = (changed.take bound).drop start ++ changed.drop bound := by
        rw [List.drop_append_of_le_length (by omega)]
      _ = _ := by
        rw [window]
        simp
  exact
    ⟨cstr_eq_of_drop_eq whole (cstr_nul_free memory start),
      terminated_of_drop_eq whole⟩

theorem cstr_set_of_lt
    {memory : List UInt8} {start index : Nat} {byte : UInt8}
    (below : index < start) :
    cstr (memory.set index byte) start = cstr memory start := by
  unfold cstr
  rw [List.drop_set, if_pos below]

theorem terminated_set_of_lt
    {memory : List UInt8} {start index : Nat} {byte : UInt8}
    (below : index < start) :
    Terminated (memory.set index byte) start ↔
      Terminated memory start := by
  unfold Terminated
  rw [List.drop_set, if_pos below]

/-- A NUL stored inside a string, or over its terminator, ends it there. -/
theorem cstr_set_nul
    {memory : List UInt8} {start count : Nat}
    (terminated : Terminated memory start)
    (inside : count ≤ (cstr memory start).length) :
    cstr (memory.set (start + count) 0) start =
        (cstr memory start).take count ∧
      Terminated (memory.set (start + count) 0) start := by
  obtain ⟨tail, shape⟩ := exists_drop_eq_of_terminated terminated
  have cut :
      (memory.set (start + count) 0).drop start =
        (cstr memory start).take count ++
          0 :: (cstr memory start ++ 0 :: tail).drop (count + 1) := by
    rw [List.drop_set, if_neg (by omega), shape, Nat.add_sub_cancel_left,
      List.set_eq_take_append_cons_drop,
      if_pos (by simp; omega), List.take_append_of_le_length inside]
  have nulFree : 0 ∉ (cstr memory start).take count :=
    fun member => cstr_nul_free memory start (List.mem_of_mem_take member)
  exact ⟨cstr_eq_of_drop_eq cut nulFree, terminated_of_drop_eq cut⟩

/-! ## A string at an index -/

/-- The index points to a terminated string with the given bytes. -/
structure StringAt
    (memory : List UInt8) (start : Nat) (text : List UInt8) : Prop where
  terminated : Terminated memory start
  cstr_eq : cstr memory start = text

namespace StringAt

variable {memory text : List UInt8} {start : Nat}

theorem of_drop_eq
    {tail : List UInt8}
    (shape : memory.drop start = text ++ 0 :: tail) (nulFree : 0 ∉ text) :
    StringAt memory start text :=
  ⟨terminated_of_drop_eq shape, cstr_eq_of_drop_eq shape nulFree⟩

theorem suffix
    (string : StringAt memory start text) (count : Nat)
    (inside : count ≤ text.length) :
    StringAt memory (start + count) (text.drop count) := by
  have within : count ≤ (cstr memory start).length := by
    rwa [string.cstr_eq]
  obtain ⟨shape, ends⟩ := cstr_add string.terminated within
  exact ⟨ends, by rw [shape, string.cstr_eq]⟩

theorem of_take_eq
    {changed : List UInt8} {bound : Nat}
    (string : StringAt memory start text)
    (inside : start + text.length < bound)
    (agree : changed.take bound = memory.take bound) :
    StringAt changed start text := by
  obtain ⟨same, ends⟩ :=
    cstr_eq_of_take_eq string.terminated
      (by rw [string.cstr_eq]; exact inside) agree
  exact ⟨ends, same.trans string.cstr_eq⟩

theorem set_of_lt
    {index : Nat} {byte : UInt8}
    (string : StringAt memory start text) (below : index < start) :
    StringAt (memory.set index byte) start text :=
  ⟨(terminated_set_of_lt below).mpr string.terminated,
    (cstr_set_of_lt below).trans string.cstr_eq⟩

theorem set_nul
    (string : StringAt memory start text) (count : Nat)
    (inside : count ≤ text.length) :
    StringAt (memory.set (start + count) 0) start (text.take count) := by
  have within : count ≤ (cstr memory start).length := by
    rwa [string.cstr_eq]
  obtain ⟨cut, ends⟩ := cstr_set_nul string.terminated within
  exact ⟨ends, by rw [cut, string.cstr_eq]⟩

/-- The byte at an offset, the terminator included. -/
theorem getD_eq
    (string : StringAt memory start text) (count : Nat)
    (inside : count ≤ text.length) :
    memory.getD (start + count) 0 = text.getD count 0 := by
  obtain ⟨tail, shape⟩ := exists_drop_eq_of_terminated string.terminated
  rw [string.cstr_eq] at shape
  have shifted :
      memory.getD (start + count) 0 =
        (memory.drop start).getD count 0 := by
    simp [List.getD_eq_getElem?_getD, List.getElem?_drop]
  rw [shifted, shape, List.getD_eq_getElem?_getD,
    List.getD_eq_getElem?_getD]
  by_cases within : count < text.length
  · rw [List.getElem?_append_left within]
  · have atEnd : count = text.length := by omega
    subst atEnd
    simp

/-- A NUL at or after the start ends the string there or before. -/
theorem of_getD_eq_zero
    (memory : List UInt8) (start index : Nat) (after : start ≤ index)
    (inside : index < memory.length)
    (nul : memory.getD index 0 = 0) :
    StringAt memory start (cstr memory start) ∧
      start + (cstr memory start).length ≤ index := by
  have here : (memory.drop start)[index - start]? = some 0 := by
    rw [List.getElem?_drop, Nat.add_sub_cancel' after,
      List.getElem?_eq_getElem inside]
    rw [List.getD_eq_getElem?_getD, List.getElem?_eq_getElem inside] at nul
    simpa using nul
  have string : StringAt memory start (cstr memory start) :=
    ⟨List.mem_of_getElem? here, rfl⟩
  refine ⟨string, ?_⟩
  by_contra beyond
  have early : index - start < (cstr memory start).length := by omega
  have same := string.getD_eq _ (Nat.le_of_lt early)
  rw [Nat.add_sub_cancel' after, nul, List.getD_eq_getElem?_getD,
    List.getElem?_eq_getElem early] at same
  have member : 0 ∈ cstr memory start := by
    have found := List.getElem_mem early
    simp only [Option.getD_some] at same
    rwa [← same] at found
  exact cstr_nul_free memory start member

theorem nul_free (string : StringAt memory start text) : 0 ∉ text := by
  rw [← string.cstr_eq]
  exact cstr_nul_free memory start

end StringAt

end LinuxNet.CString
