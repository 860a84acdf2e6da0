import Mathlib.Data.Nat.ModEq

/-!
# A ring buffer as a queue

A queue lies in an array from a front position on, wrapping around at the
end.  Adding an element writes the first free position, and taking one moves
the front; both are the operations of a list.
-/

namespace LinuxNet.Ring

variable {α : Type} {slots : List α} {front : Nat} {queue : List α}

/-- The positions from `front` on hold the queue, in order. -/
structure Holds (slots : List α) (front : Nat) (queue : List α) : Prop where
  fits : queue.length ≤ slots.length
  entry :
    ∀ offset, offset < queue.length →
      slots[(front + offset) % slots.length]? = queue[offset]?

theorem holds_empty (slots : List α) (front : Nat) :
    Holds slots front [] :=
  ⟨Nat.zero_le _, fun _ impossible => absurd impossible (Nat.not_lt_zero _)⟩

/-- Different offsets below the capacity are different positions. -/
theorem position_injective
    {capacity first second : Nat} (front : Nat)
    (firstLt : first < capacity) (secondLt : second < capacity)
    (same : (front + first) % capacity = (front + second) % capacity) :
    first = second := by
  have congruent : first ≡ second [MOD capacity] :=
    Nat.ModEq.add_left_cancel' front same
  unfold Nat.ModEq at congruent
  rwa [Nat.mod_eq_of_lt firstLt, Nat.mod_eq_of_lt secondLt] at congruent

/-- Writing the position behind the last element adds to the queue. -/
theorem Holds.push
    (holds : Holds slots front queue) (room : queue.length < slots.length)
    (added : α) :
    Holds (slots.set ((front + queue.length) % slots.length) added) front
      (queue ++ [added]) := by
  have inside : (front + queue.length) % slots.length < slots.length :=
    Nat.mod_lt _ (by omega)
  refine ⟨?_, fun offset offsetLt => ?_⟩
  · rw [List.length_append, List.length_set, List.length_singleton]
    exact room
  · rw [List.length_append, List.length_singleton] at offsetLt
    rw [List.length_set]
    by_cases isLast : offset = queue.length
    · subst isLast
      rw [List.getElem?_set_self inside, List.getElem?_concat_length]
    · have earlier : offset < queue.length := by
        omega
      have apart :
          (front + queue.length) % slots.length ≠
            (front + offset) % slots.length := by
        intro same
        exact isLast
          (position_injective front (earlier.trans room) room same.symm)
      rw [List.getElem?_set_ne apart, List.getElem?_append_left earlier]
      exact holds.entry offset earlier

/-- The front position holds the first element, and moving the front on
takes it from the queue. -/
theorem Holds.pop
    {first : α} {rest : List α} (holds : Holds slots front (first :: rest)) :
    slots[front % slots.length]? = some first ∧
      Holds slots ((front + 1) % slots.length) rest := by
  have fits := holds.fits
  rw [List.length_cons] at fits
  refine ⟨?_, ⟨by omega, fun offset offsetLt => ?_⟩⟩
  · simpa using holds.entry 0 (by rw [List.length_cons]; omega)
  · have entry := holds.entry (offset + 1) (by rw [List.length_cons]; omega)
    rw [List.getElem?_cons_succ] at entry
    rw [← entry, Nat.mod_add_mod, Nat.add_right_comm, Nat.add_assoc]

end LinuxNet.Ring
