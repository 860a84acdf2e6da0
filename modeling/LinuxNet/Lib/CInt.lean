/-!
# The C types `int`, `size_t` and `ssize_t`

`int` has 32 bits here.  A wider value converted to it is reduced modulo
`2 ^ 32` into the signed range, which is what the compilers in use document;
the sum of two `int`s is reduced in the same way when it overflows.  `size_t`
and `ssize_t` have 64 bits, and no object is larger than the second one can
say.
-/

namespace LinuxNet.CInt

/-- `INT_MAX`. -/
def intMax : Int := 2147483647

/-- `INT_MIN`. -/
def intMin : Int := -2147483648

/-- Conversion of an integer to `int`. -/
def toInt (value : Int) : Int :=
  value.bmod 4294967296

/-- The value is representable as an `int`. -/
def Fits (value : Int) : Prop :=
  intMin ≤ value ∧ value ≤ intMax

instance (value : Int) : Decidable (Fits value) := by
  unfold Fits
  infer_instance

theorem fits_toInt (value : Int) : Fits (toInt value) := by
  have lower := Int.le_bmod (x := value) (m := 4294967296) (by decide)
  have upper := Int.bmod_lt (x := value) (m := 4294967296) (by decide)
  simp only [Fits, intMin, intMax, toInt]
  omega

/-- A representable value is converted to itself. -/
theorem toInt_of_fits {value : Int} (fits : Fits value) :
    toInt value = value := by
  simp only [Fits, intMin, intMax] at fits
  simp only [toInt]
  rw [Int.bmod_eq_iff (by decide)]
  omega

theorem toInt_eq_self_iff (value : Int) :
    toInt value = value ↔ Fits value := by
  constructor
  · intro same
    rw [← same]
    exact fits_toInt value
  · exact toInt_of_fits

/-- A sum that runs over the upper end once comes back negative. -/
theorem toInt_of_overflow
    {value : Int} (exceeds : intMax < value) (once : value ≤ 2 * intMax) :
    toInt value = value - 4294967296 := by
  simp only [intMax] at exceeds once
  simp only [toInt]
  rw [Int.bmod_eq_iff (by decide)]
  omega

theorem toInt_neg_of_overflow
    {value : Int} (exceeds : intMax < value) (once : value ≤ 2 * intMax) :
    toInt value < 0 := by
  rw [toInt_of_overflow exceeds once]
  simp only [intMax] at once
  omega

/-- An `int` after one of its four bytes, the low one at position 0, has been
overwritten. -/
def setByte (value : Int) (position : Nat) (byte : UInt8) : Int :=
  toInt
    (value +
      (byte.toNat - value / Int.pow 256 position % 256) *
        Int.pow 256 position)

/-- `PTRDIFF_MAX`, which is `SSIZE_MAX`. -/
def ssizeMax : Nat := 9223372036854775807

/-- Conversion to `size_t`, where its arithmetic ends up as well. -/
def toSize (value : Int) : Nat :=
  (value % 18446744073709551616).toNat

/-- Conversion to `ssize_t`. -/
def toSsize (value : Int) : Int :=
  value.bmod 18446744073709551616

theorem toSize_natCast {count : Nat} (small : count ≤ ssizeMax) :
    toSize count = count := by
  simp only [ssizeMax] at small
  simp only [toSize]
  omega

theorem toSize_sub
    {total count : Nat} (small : total ≤ ssizeMax) (within : count ≤ total) :
    toSize (total - count) = total - count := by
  rw [← Int.ofNat_sub within]
  exact toSize_natCast (Nat.le_trans (Nat.sub_le total count) small)

theorem toSsize_natCast {count : Nat} (small : count ≤ ssizeMax) :
    toSsize count = count := by
  simp only [ssizeMax] at small
  simp only [toSsize]
  rw [Int.bmod_eq_iff (by decide)]
  omega

end LinuxNet.CInt
