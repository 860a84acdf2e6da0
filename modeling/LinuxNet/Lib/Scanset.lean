import LinuxNet.Lib.Accesses
import LinuxNet.Lib.CString

/-!
# Scansets

`sscanf` with a format of conversions `%[^..]` and a blank between each two of
them.  A conversion stores the bytes up to the first one of its set, and a
NUL; it fails where there is no byte to store, and the later ones are not
tried then.  No conversion knows the size of its array.
-/

namespace LinuxNet.Scanset

open LinuxNet.CString LinuxNet.Accesses

/-- The bytes that a field ends in front of, and the size of the array for
it. -/
structure Conversion where
  stops : UInt8 → Bool
  size : Nat

def field (stops : UInt8 → Bool) (text : List UInt8) : List UInt8 :=
  text.takeWhile fun byte => !stops byte

/-- What follows a field and the white space behind it. -/
def behind (stops : UInt8 → Bool) (text : List UInt8) : List UInt8 :=
  (text.dropWhile fun byte => !stops byte).dropWhile isspace

def scanFields : List Conversion → List UInt8 → List (List UInt8)
  | [], _ => []
  | conversion :: later, text =>
      if field conversion.stops text = [] then
        []
      else
        field conversion.stops text ::
          scanFields later (behind conversion.stops text)

/-- `sscanf` takes a string, and looks for its end first. -/
def sourceReads (memory : List UInt8) : List Access :=
  readsOf (List.range ((cstr memory 0).length + 1))

/-- A field is stored with a NUL behind it. -/
def fieldWrites (text : List UInt8) : List Access :=
  writesOf (List.range (text.length + 1))

/-- `sscanf` reads inside the source, and each conversion writes inside its
array. -/
structure StaysInside
    (conversions : List Conversion) (memory : List UInt8) : Prop where
  reads : ReadsOnly (· < memory.length) (sourceReads memory)
  writes :
    ∀ stored ∈ conversions.zip (scanFields conversions (cstr memory 0)),
      WritesOnly (· < stored.1.size) (fieldWrites stored.2)

/-- Every field is shorter than its array. -/
def FieldsFit : List Conversion → List UInt8 → Prop
  | [], _ => True
  | conversion :: later, text =>
      field conversion.stops text ≠ [] →
        (field conversion.stops text).length < conversion.size ∧
          FieldsFit later (behind conversion.stops text)

variable {conversions : List Conversion} {memory : List UInt8}

theorem forall_mem_range_lt_iff {count bound : Nat} :
    (∀ place ∈ List.range (count + 1), place < bound) ↔ count < bound := by
  constructor
  · intro inside
    exact inside count (List.mem_range.mpr (Nat.lt_succ_self count))
  · intro below place member
    have bounded := List.mem_range.mp member
    omega

theorem reads_inside_iff :
    ReadsOnly (· < memory.length) (sourceReads memory) ↔
      Terminated memory 0 := by
  unfold sourceReads
  rw [readsOnly_readsOf_iff, forall_mem_range_lt_iff]
  constructor
  · intro shorter
    by_contra absent
    have whole : cstr memory 0 = memory := by
      unfold cstr
      rw [List.drop_zero, List.takeWhile_eq_self_iff]
      intro byte member
      rw [decide_eq_true_iff]
      rintro rfl
      exact absent member
    rw [whole] at shorter
    exact Nat.lt_irrefl _ shorter
  · intro terminated
    obtain ⟨tail, shape⟩ := exists_drop_eq_of_terminated terminated
    rw [List.drop_zero] at shape
    have lengths := congrArg List.length shape
    rw [List.length_append, List.length_cons] at lengths
    omega

theorem writes_inside_iff {size : Nat} {text : List UInt8} :
    WritesOnly (· < size) (fieldWrites text) ↔ text.length < size := by
  unfold fieldWrites
  rw [writesOnly_writesOf_iff, forall_mem_range_lt_iff]

theorem forall_writes_inside_iff (text : List UInt8) :
    (∀ stored ∈ conversions.zip (scanFields conversions text),
        WritesOnly (· < stored.1.size) (fieldWrites stored.2)) ↔
      FieldsFit conversions text := by
  induction conversions generalizing text with
  | nil => exact iff_of_true (fun _ impossible => by cases impossible) trivial
  | cons conversion later inductionHypothesis =>
      rw [scanFields, FieldsFit]
      by_cases empty : field conversion.stops text = []
      · rw [if_pos empty, List.zip_nil_right]
        exact
          iff_of_true (fun _ impossible => by cases impossible)
            (fun nonempty => absurd empty nonempty)
      · rw [if_neg empty, List.zip_cons_cons, List.forall_mem_cons,
          inductionHypothesis, writes_inside_iff]
        exact ⟨fun fits _ => fits, fun fits => fits empty⟩

theorem staysInside_iff :
    StaysInside conversions memory ↔
      Terminated memory 0 ∧ FieldsFit conversions (cstr memory 0) := by
  rw [← reads_inside_iff, ← forall_writes_inside_iff]
  exact ⟨fun inside => ⟨inside.reads, inside.writes⟩,
    fun inside => ⟨inside.1, inside.2⟩⟩

theorem getElem?_scanFields_zero
    (conversion : Conversion) (later : List Conversion)
    (text : List UInt8) :
    (scanFields (conversion :: later) text)[0]? =
      if field conversion.stops text = [] then
        none
      else
        some (field conversion.stops text) := by
  rw [scanFields]
  split
  · rfl
  · rfl

theorem getElem?_scanFields_succ
    (conversion : Conversion) (later : List Conversion)
    (text : List UInt8) (index : Nat) :
    (scanFields (conversion :: later) text)[index + 1]? =
      if field conversion.stops text = [] then
        none
      else
        (scanFields later (behind conversion.stops text))[index]? := by
  rw [scanFields]
  split
  · rfl
  · rfl

/-! ## The parts of a text -/

theorem length_field_le (stops : UInt8 → Bool) (text : List UInt8) :
    (field stops text).length ≤ text.length :=
  (List.takeWhile_prefix _).length_le

theorem drop_length_field (stops : UInt8 → Bool) (text : List UInt8) :
    text.drop (field stops text).length =
      text.dropWhile fun byte => !stops byte := by
  have parts :
      field stops text ++ (text.dropWhile fun byte => !stops byte) = text :=
    List.takeWhile_append_dropWhile
  have dropped := congrArg (List.drop (field stops text).length) parts
  rw [List.drop_left] at dropped
  exact dropped.symm

theorem length_behind_le (stops : UInt8 → Bool) (text : List UInt8) :
    (field stops text).length + (behind stops text).length ≤
      text.length := by
  have parts := congrArg List.length
    (List.takeWhile_append_dropWhile (l := text)
      (p := fun byte => !stops byte))
  have shorter : (behind stops text).length ≤ _ :=
    List.length_dropWhile_le isspace _
  rw [List.length_append] at parts
  unfold field
  omega

theorem nul_free_field
    (stops : UInt8 → Bool) {text : List UInt8} (nulFree : 0 ∉ text) :
    0 ∉ field stops text :=
  fun member => nulFree ((List.takeWhile_prefix _).subset member)

theorem nul_free_behind
    (stops : UInt8 → Bool) {text : List UInt8} (nulFree : 0 ∉ text) :
    0 ∉ behind stops text :=
  fun member =>
    nulFree
      ((List.dropWhile_suffix _).subset
        ((List.dropWhile_suffix isspace).subset member))

theorem field_append
    {stops : UInt8 → Bool} {word : List UInt8} {byte : UInt8}
    (inside : ∀ letter ∈ word, stops letter = false)
    (ends : stops byte = true) (rest : List UInt8) :
    field stops (word ++ byte :: rest) = word := by
  have kept : ∀ letter ∈ word, (!stops letter) = true := by
    intro letter member
    rw [inside letter member]
    rfl
  unfold field
  rw [List.takeWhile_append_of_pos kept, List.takeWhile_cons, ends]
  exact List.append_nil word

theorem behind_append
    {stops : UInt8 → Bool} {word : List UInt8} {byte : UInt8}
    (inside : ∀ letter ∈ word, stops letter = false)
    (ends : stops byte = true) (white : isspace byte = true)
    (rest : List UInt8) :
    behind stops (word ++ byte :: rest) = rest.dropWhile isspace := by
  have kept : ∀ letter ∈ word, (!stops letter) = true := by
    intro letter member
    rw [inside letter member]
    rfl
  unfold behind
  rw [List.dropWhile_append_of_pos kept, List.dropWhile_cons, ends]
  exact List.dropWhile_cons_of_pos white

/-- A field that ends at white space begins wherever something is left. -/
theorem field_eq_nil_iff
    {stops other : UInt8 → Bool} {text : List UInt8}
    (white : ∀ byte, stops byte → isspace byte) :
    field stops (behind other text) = [] ↔ behind other text = [] := by
  constructor
  · intro empty
    cases rest : behind other text with
    | nil => rfl
    | cons byte tail =>
        exfalso
        have visible : ¬ isspace byte = true := by
          have head := List.head?_dropWhile_not isspace
            (text.dropWhile fun byte => !other byte)
          rw [show List.dropWhile isspace _ = _ from rest] at head
          simpa using head
        rw [rest] at empty
        unfold field at empty
        rw [List.takeWhile_cons] at empty
        split at empty
        · cases empty
        · next ends =>
            apply visible
            apply white
            simpa using ends
  · intro empty
    rw [empty]
    rfl

/-- The fields of three conversions of which the last two end at white space:
the first one, the second one where something is behind the first, and a third
one only where something is behind both. -/
structure Words
    (conversions : List Conversion) (first second third : UInt8 → Bool)
    (text : List UInt8) : Prop where
  first_eq : (scanFields conversions text)[0]? = some (field first text)
  second_eq :
    (scanFields conversions text)[1]? =
      if behind first text = [] then
        none
      else
        some (field second (behind first text))
  third_iff :
    ∀ word, (scanFields conversions text)[2]? = some word ↔
      behind second (behind first text) ≠ [] ∧
        word = field third (behind second (behind first text))

theorem words_of_three
    (first second third : Conversion) {text : List UInt8}
    (whiteSecond : ∀ byte, second.stops byte → isspace byte)
    (whiteThird : ∀ byte, third.stops byte → isspace byte)
    (nonempty : field first.stops text ≠ []) :
    Words [first, second, third] first.stops second.stops third.stops
      text := by
  have noSecond_iff :
      field second.stops (behind first.stops text) = [] ↔
        behind first.stops text = [] :=
    field_eq_nil_iff whiteSecond
  have noThird_iff :
      field third.stops (behind second.stops (behind first.stops text)) =
          [] ↔
        behind second.stops (behind first.stops text) = [] :=
    field_eq_nil_iff whiteThird
  constructor
  · rw [getElem?_scanFields_zero, if_neg nonempty]
  · rw [getElem?_scanFields_succ, if_neg nonempty, getElem?_scanFields_zero]
    simp only [noSecond_iff]
  · intro word
    rw [getElem?_scanFields_succ, if_neg nonempty, getElem?_scanFields_succ,
      getElem?_scanFields_zero]
    simp only [noSecond_iff, noThird_iff]
    by_cases noSecond : behind first.stops text = []
    · rw [if_pos noSecond, noSecond]
      exact iff_of_false nofun fun both => both.1 rfl
    · rw [if_neg noSecond]
      split
      · next noThird => exact iff_of_false nofun fun both => both.1 noThird
      · next someThird =>
          rw [Option.some.injEq, eq_comm]
          exact (and_iff_right someThird).symm

/-- Three conversions of which the last two end at white space. -/
theorem fieldsFit_three_iff
    (first second third : Conversion) (text : List UInt8)
    (whiteSecond : ∀ byte, second.stops byte → isspace byte)
    (whiteThird : ∀ byte, third.stops byte → isspace byte)
    (room : 0 < third.size) (nonempty : field first.stops text ≠ []) :
    FieldsFit [first, second, third] text ↔
      (field first.stops text).length < first.size ∧
        (behind first.stops text ≠ [] →
          (field second.stops (behind first.stops text)).length <
            second.size) ∧
          (field third.stops
            (behind second.stops (behind first.stops text))).length <
              third.size := by
  simp only [FieldsFit, and_true, ne_eq, nonempty, not_false_eq_true,
    true_implies, field_eq_nil_iff whiteSecond, field_eq_nil_iff whiteThird]
  apply and_congr_right
  intro _
  by_cases noSecond : behind first.stops text = []
  · rw [noSecond]
    exact iff_of_true (fun absent => absurd rfl absent)
      ⟨fun absent => absurd rfl absent, room⟩
  · simp only [noSecond, not_false_eq_true, true_implies]
    apply and_congr_right
    intro _
    by_cases noThird : behind second.stops (behind first.stops text) = []
    · rw [noThird]
      exact iff_of_true (fun absent => absurd rfl absent) room
    · exact ⟨fun fits => fits noThird, fun fits _ => fits⟩

theorem one_le_length_scanFields_iff
    {first : Conversion} {later : List Conversion} {text : List UInt8} :
    1 ≤ (scanFields (first :: later) text).length ↔
      field first.stops text ≠ [] := by
  rw [scanFields]
  split
  · next empty => exact iff_of_false (by decide) (not_not_intro empty)
  · next nonempty =>
      rw [List.length_cons]
      exact iff_of_true (Nat.le_add_left 1 _) nonempty

theorem two_le_length_scanFields_iff
    (first second : Conversion) (later : List Conversion)
    (text : List UInt8)
    (white : ∀ byte, second.stops byte → isspace byte)
    (nonempty : field first.stops text ≠ []) :
    2 ≤ (scanFields (first :: second :: later) text).length ↔
      behind first.stops text ≠ [] := by
  rw [scanFields, if_neg nonempty, List.length_cons, Nat.succ_le_succ_iff,
    one_le_length_scanFields_iff, ne_eq, field_eq_nil_iff white]

end LinuxNet.Scanset
