import Mathlib.Data.Finset.Card
import Mathlib.Data.Finset.Range

/-!
# The lowest free number

Numbers are handed out from below: a new one is the least that is not in use.
It lies below a bound exactly when fewer numbers than the bound are in use
below it, so a count of what is in use bounds the numbers handed out only when
it counts everything.
-/

namespace LinuxNet.LowestFree

variable {inUse : Nat → Prop}

def Lowest (inUse : Nat → Prop) (number : Nat) : Prop :=
  ¬ inUse number ∧ ∀ lower, lower < number → inUse lower

instance [DecidablePred inUse] (number : Nat) :
    Decidable (Lowest inUse number) :=
  inferInstanceAs (Decidable (_ ∧ _))

variable [DecidablePred inUse]

def usedBelow (inUse : Nat → Prop) [DecidablePred inUse] (bound : Nat) :
    Finset Nat :=
  (Finset.range bound).filter inUse

theorem mem_usedBelow {bound number : Nat} :
    number ∈ usedBelow inUse bound ↔ number < bound ∧ inUse number := by
  rw [usedBelow, Finset.mem_filter, Finset.mem_range]

/-- The lowest free number is below a bound exactly when not all numbers
below the bound are in use. -/
theorem Lowest.lt_iff
    {number : Nat} (lowest : Lowest inUse number) (bound : Nat) :
    number < bound ↔ (usedBelow inUse bound).card < bound := by
  constructor
  · intro below
    have within : usedBelow inUse bound ⊆ Finset.range bound :=
      Finset.filter_subset _ _
    have proper : usedBelow inUse bound ⊂ Finset.range bound := by
      rw [Finset.ssubset_iff_of_subset within]
      refine ⟨number, Finset.mem_range.mpr below, fun member => ?_⟩
      exact lowest.1 (mem_usedBelow.mp member).2
    have fewer := Finset.card_lt_card proper
    rw [Finset.card_range] at fewer
    exact fewer
  · intro fewer
    by_contra beyond
    have all : usedBelow inUse bound = Finset.range bound := by
      apply Finset.filter_true_of_mem
      intro lower member
      have below := Finset.mem_range.mp member
      exact lowest.2 lower (by omega)
    rw [all, Finset.card_range] at fewer
    exact absurd fewer (Nat.lt_irrefl bound)

end LinuxNet.LowestFree
