import Mathlib.Logic.Function.Basic

/-!
# A table and a registry that point to each other

A place of a table may hold a key with some data, and the registry tells for
a key the place that holds it, with the same data.  The two match as long as
an entry is put in, changed or taken out on both sides.
-/

namespace LinuxNet.Registry

variable {π κ δ : Type}

/-- A place holds a key with data exactly when the registry says so. -/
def Matched (held : π → Option (κ × δ)) (owner : κ → Option (π × δ)) : Prop :=
  ∀ place key data,
    held place = some (key, data) ↔ owner key = some (place, data)

section

variable {held : π → Option (κ × δ)} {owner : κ → Option (π × δ)}

/-- No two places hold one key. -/
theorem Matched.place_eq
    (matched : Matched held owner) {place other : π} {key : κ}
    {data otherData : δ} (first : held place = some (key, data))
    (second : held other = some (key, otherData)) : place = other := by
  have owned := (matched place key data).mp first
  have otherOwned := (matched other key otherData).mp second
  rw [owned] at otherOwned
  cases otherOwned
  rfl

theorem matched_empty :
    Matched (fun _ : π => (none : Option (κ × δ)))
      (fun _ : κ => (none : Option (π × δ))) := by
  intro place key data
  constructor
  · intro impossible
    cases impossible
  · intro impossible
    cases impossible

variable [DecidableEq π] [DecidableEq κ]

/-- An entry is put in at a free place under a free key, or the data of an
entry change. -/
theorem Matched.put
    (matched : Matched held owner) {place : π} {key : κ} (data : δ)
    (placeFree : ∀ entry, held place = some entry → entry.1 = key)
    (keyFree : ∀ entry, owner key = some entry → entry.1 = place) :
    Matched (Function.update held place (some (key, data)))
      (Function.update owner key (some (place, data))) := by
  intro other otherKey otherData
  by_cases samePlace : other = place
  · subst samePlace
    rw [Function.update_self]
    by_cases sameKey : otherKey = key
    · subst sameKey
      rw [Function.update_self, Option.some_inj, Option.some_inj,
        Prod.mk.injEq, Prod.mk.injEq]
      exact ⟨fun same => ⟨rfl, same.2⟩, fun same => ⟨rfl, same.2⟩⟩
    · rw [Function.update_of_ne sameKey, ← matched]
      constructor
      · intro same
        cases same
        exact absurd rfl sameKey
      · intro holds
        exact absurd (placeFree _ holds) sameKey
  · rw [Function.update_of_ne samePlace]
    by_cases sameKey : otherKey = key
    · subst sameKey
      rw [Function.update_self, matched]
      constructor
      · intro owned
        exact absurd (keyFree _ owned) samePlace
      · intro same
        cases same
        exact absurd rfl samePlace
    · rw [Function.update_of_ne sameKey]
      exact matched other otherKey otherData

/-- An entry is taken out. -/
theorem Matched.remove
    (matched : Matched held owner) {place : π} {key : κ} {data : δ}
    (holds : held place = some (key, data)) :
    Matched (Function.update held place none)
      (Function.update owner key none) := by
  have owned := (matched place key data).mp holds
  intro other otherKey otherData
  by_cases samePlace : other = place
  · subst samePlace
    rw [Function.update_self]
    by_cases sameKey : otherKey = key
    · subst sameKey
      rw [Function.update_self]
      constructor
      · intro impossible
        cases impossible
      · intro impossible
        cases impossible
    · rw [Function.update_of_ne sameKey, ← matched, holds]
      constructor
      · intro impossible
        cases impossible
      · intro same
        cases same
        exact absurd rfl sameKey
  · rw [Function.update_of_ne samePlace]
    by_cases sameKey : otherKey = key
    · subst sameKey
      rw [Function.update_self, matched, owned]
      constructor
      · intro same
        cases same
        exact absurd rfl samePlace
      · intro impossible
        cases impossible
    · rw [Function.update_of_ne sameKey]
      exact matched other otherKey otherData

end

end LinuxNet.Registry
