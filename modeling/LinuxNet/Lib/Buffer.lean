import Mathlib.Data.List.Basic

/-!
# Bytes placed into an array

`placed` is the array after a text was stored in it from an index on, place by
place.  The lemmas follow a loop that stores one element in each turn.
-/

namespace LinuxNet.Buffer

variable {α : Type} {buf text : List α} {start : Nat}

def placed (buf : List α) (start : Nat) (text : List α) : List α :=
  buf.take start ++ text ++ buf.drop (start + text.length)

@[simp]
theorem placed_nil (buf : List α) (start : Nat) :
    placed buf start [] = buf := by
  simp [placed]

theorem placed_singleton (inside : start < buf.length) (element : α) :
    placed buf start [element] = buf.set start element := by
  rw [List.set_eq_take_append_cons_drop, if_pos inside]
  simp [placed]

/-- One element, and the rest of the text behind it. -/
theorem placed_cons
    (inside : start < buf.length) (element : α) (text : List α) :
    placed (buf.set start element) (start + 1) text =
      placed buf start (element :: text) := by
  unfold placed
  rw [List.drop_set_of_lt (by omega), List.length_cons,
    List.set_eq_take_append_cons_drop, if_pos inside, List.take_append,
    List.length_take_of_le (Nat.le_of_lt inside), Nat.add_sub_cancel_left,
    List.take_of_length_le (by rw [List.length_take]; omega)]
  simp [Nat.add_comm, Nat.add_left_comm]

theorem length_placed (fits : start + text.length ≤ buf.length) :
    (placed buf start text).length = buf.length := by
  simp only [placed, List.length_append, List.length_take, List.length_drop]
  omega

/-- What stands in front of the text stays. -/
theorem take_placed_start (within : start ≤ buf.length) (text : List α) :
    (placed buf start text).take start = buf.take start := by
  unfold placed
  rw [List.append_assoc]
  exact List.take_left' (List.length_take_of_le within)

theorem take_placed_append
    (within : start ≤ buf.length) (text tail : List α) :
    (placed buf start (text ++ tail)).take (start + text.length) =
      buf.take start ++ text := by
  unfold placed
  rw [← List.append_assoc, List.append_assoc]
  exact
    List.take_left'
      (by rw [List.length_append, List.length_take_of_le within])

theorem take_placed_zero (buf text : List α) :
    (placed buf 0 text).take text.length = text := by
  simp [placed]

/-- A terminator behind the text leaves the text alone. -/
theorem take_placed_set (buf text : List α) (terminator : α) :
    ((placed buf 0 text).set text.length terminator).take text.length =
      text := by
  rw [List.take_set_of_le (Nat.le_refl _), take_placed_zero]

theorem getElem?_placed_set
    (fits : text.length < buf.length) (terminator : α) :
    ((placed buf 0 text).set text.length terminator)[text.length]? =
      some terminator := by
  rw [List.getElem?_set_self]
  rw [length_placed (by omega)]
  exact fits

end LinuxNet.Buffer
