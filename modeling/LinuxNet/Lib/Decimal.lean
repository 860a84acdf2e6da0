import Mathlib.Algebra.Group.Nat.Defs
import LinuxNet.Lib.CString

/-!
# Decimal numbers as bytes

`decimal` is what `%d` prints, `decimalValue` reads a digit string back.  A
printed number that is not negative reads back as itself, a negative one is
no digit string.
-/

namespace LinuxNet.Decimal

open LinuxNet.CString

def natDigits (value : Nat) : List UInt8 :=
  (Nat.toDigits 10 value).map fun digit => UInt8.ofNat digit.toNat

/-- `%d`. -/
def decimal (value : Int) : List UInt8 :=
  if value < 0 then
    45 :: natDigits value.natAbs
  else
    natDigits value.natAbs

/-- The number that a non-empty string of digits denotes. -/
def decimalValue (digits : List UInt8) : Option Nat :=
  if digits ≠ [] ∧ digits.all isdigit then
    some (digitsValue digits)
  else
    none

private theorem toNat_of_isDigit
    {digit : Char} (isDigit : digit.isDigit = true) :
    48 ≤ digit.toNat ∧ digit.toNat ≤ 57 := by
  simp only [Char.isDigit, Bool.and_eq_true, decide_eq_true_eq,
    ge_iff_le, UInt32.le_iff_toNat_le] at isDigit
  exact isDigit

private theorem isdigit_ofNat
    {digit : Char} (isDigit : digit.isDigit = true) :
    isdigit (UInt8.ofNat digit.toNat) = true := by
  obtain ⟨lower, upper⟩ := toNat_of_isDigit isDigit
  simp only [isdigit, Bool.and_eq_true, decide_eq_true_eq,
    UInt8.le_iff_toNat_le, UInt8.toNat_ofNat']
  constructor
  · rw [Nat.mod_eq_of_lt (by omega)]
    exact lower
  · rw [Nat.mod_eq_of_lt (by omega)]
    exact upper

private theorem sub_ofNat
    {digit : Char} (isDigit : digit.isDigit = true) :
    (UInt8.ofNat digit.toNat - 48).toNat = digit.toNat - 48 := by
  obtain ⟨lower, upper⟩ := toNat_of_isDigit isDigit
  rw [UInt8.toNat_sub_of_le]
  · simp only [UInt8.toNat_ofNat', UInt8.reduceToNat]
    omega
  · simp only [UInt8.le_iff_toNat_le, UInt8.toNat_ofNat',
      UInt8.reduceToNat]
    omega

private theorem foldl_map_ofNat
    (digits : List Char) (all : ∀ digit ∈ digits, digit.isDigit = true) :
    ∀ value : Nat,
      (digits.map fun digit => UInt8.ofNat digit.toNat).foldl
          (fun value byte => 10 * value + (byte - 48).toNat) value =
        Nat.ofDigitChars 10 digits value := by
  induction digits with
  | nil =>
      intro value
      simp
  | cons digit rest inductionHypothesis =>
      intro value
      rw [List.map_cons, List.foldl_cons,
        sub_ofNat (all digit List.mem_cons_self),
        inductionHypothesis
          (fun tested member => all tested (List.mem_cons_of_mem _ member)),
        Nat.ofDigitChars_cons]
      rfl

private theorem isDigit_of_mem_toDigits (value : Nat) :
    ∀ digit ∈ Nat.toDigits 10 value, digit.isDigit = true :=
  fun _ member =>
    Nat.isDigit_of_mem_toDigits (by decide) (by decide) member

theorem natDigits_ne_nil (value : Nat) : natDigits value ≠ [] := by
  simp [natDigits, Nat.toDigits_ne_nil]

theorem isdigit_of_mem_natDigits
    {value : Nat} {byte : UInt8} (member : byte ∈ natDigits value) :
    isdigit byte = true := by
  simp only [natDigits, List.mem_map] at member
  obtain ⟨digit, digitMember, rfl⟩ := member
  exact isdigit_ofNat (isDigit_of_mem_toDigits value digit digitMember)

/-- A printed number consists of digits, after a sign if there is one. -/
theorem isdigit_or_minus_of_mem_decimal
    {value : Int} {byte : UInt8} (member : byte ∈ decimal value) :
    isdigit byte = true ∨ byte = 45 := by
  unfold decimal at member
  split at member
  · rcases List.mem_cons.mp member with equal | digitMember
    · exact Or.inr equal
    · exact Or.inl (isdigit_of_mem_natDigits digitMember)
  · exact Or.inl (isdigit_of_mem_natDigits member)

/-- Printing and reading back. -/
theorem decimalValue_natDigits (value : Nat) :
    decimalValue (natDigits value) = some value := by
  have allDigits : (natDigits value).all isdigit = true := by
    rw [List.all_eq_true]
    exact fun _ member => isdigit_of_mem_natDigits member
  have readBack : digitsValue (natDigits value) = value := by
    calc
      digitsValue (natDigits value) =
          Nat.ofDigitChars 10 (Nat.toDigits 10 value) 0 :=
        foldl_map_ofNat _ (isDigit_of_mem_toDigits value) 0
      _ = value := Nat.ofDigitChars_ten_toDigits
  rw [decimalValue, if_pos ⟨natDigits_ne_nil value, allDigits⟩, readBack]

theorem decimalValue_decimal_ofNat (value : Nat) :
    decimalValue (decimal value) = some value := by
  rw [decimal, if_neg (by omega)]
  exact decimalValue_natDigits value

/-- A printed number is read back as a natural number only if it is that
number. -/
theorem decimalValue_decimal_eq_some
    {value : Int} {result : Nat}
    (read : decimalValue (decimal value) = some result) :
    value = result := by
  by_cases negative : value < 0
  · rw [decimal, if_pos negative, decimalValue,
      if_neg (by simp [isdigit])] at read
    cases read
  · rw [decimal, if_neg negative, decimalValue_natDigits] at read
    simp only [Option.some.injEq] at read
    omega

theorem length_natDigits_le
    {value digits : Nat} (positive : 0 < digits)
    (bound : value < 10 ^ digits) :
    (natDigits value).length ≤ digits := by
  rw [natDigits, List.length_map]
  exact (Nat.length_toDigits_le_iff (by decide) positive).mpr bound

theorem length_decimal_le
    {value : Int} {digits : Nat} (positive : 0 < digits)
    (bound : value.natAbs < 10 ^ digits) :
    (decimal value).length ≤ digits + 1 := by
  have magnitude := length_natDigits_le positive bound
  unfold decimal
  split
  · rw [List.length_cons]
    exact Nat.succ_le_succ magnitude
  · exact Nat.le_succ_of_le magnitude

end LinuxNet.Decimal
