/-!
# Logs of bounded length

A log takes a text as a whole or refuses it: it stays below its capacity.
The log after any number of texts is the concatenation of those it took, in
order.
-/

namespace LinuxNet

universe u

/-- Entries that stay below the capacity. -/
structure BoundedLog (α : Type u) (capacity : Nat) where
  entries : List α
  short : entries.length < capacity

namespace BoundedLog

variable {α : Type u} {capacity : Nat}

def empty (positive : 0 < capacity) : BoundedLog α capacity where
  entries := []
  short := positive

def push (log : BoundedLog α capacity) (text : List α) :
    Bool × BoundedLog α capacity :=
  if fits : (log.entries ++ text).length < capacity then
    (true, ⟨log.entries ++ text, fits⟩)
  else
    (false, log)

/-- Texts one after the other, with what became of each. -/
def pushAll :
    List (List α) → BoundedLog α capacity →
      List Bool × BoundedLog α capacity
  | [], log => ([], log)
  | text :: later, log =>
      ((log.push text).1 :: (pushAll later (log.push text).2).1,
        (pushAll later (log.push text).2).2)

def accepted (texts : List (List α)) (results : List Bool) : List α :=
  ((texts.zip results).filter Prod.snd).flatMap Prod.fst

theorem accepted_cons_true
    (text : List α) (texts : List (List α)) (results : List Bool) :
    accepted (text :: texts) (true :: results) =
      text ++ accepted texts results :=
  rfl

theorem accepted_cons_false
    (text : List α) (texts : List (List α)) (results : List Bool) :
    accepted (text :: texts) (false :: results) = accepted texts results :=
  rfl

variable (log : BoundedLog α capacity) (text : List α)

theorem push_of_fits (fits : (log.entries ++ text).length < capacity) :
    log.push text = (true, ⟨log.entries ++ text, fits⟩) :=
  dif_pos fits

theorem push_of_not_fits
    (full : ¬ (log.entries ++ text).length < capacity) :
    log.push text = (false, log) :=
  dif_neg full

/-- A text that is refused leaves the log alone. -/
theorem push_eq_self_of_refused
    (refused : (log.push text).1 = false) : (log.push text).2 = log := by
  by_cases fits : (log.entries ++ text).length < capacity
  · rw [push_of_fits log text fits] at refused
    cases refused
  · rw [push_of_not_fits log text fits]

/-- Which texts are taken says what the log has become. -/
theorem entries_pushAll (texts : List (List α)) :
    (pushAll texts log).2.entries =
      log.entries ++ accepted texts (pushAll texts log).1 := by
  induction texts generalizing log with
  | nil => exact (List.append_nil log.entries).symm
  | cons text texts inductionHypothesis =>
      rw [pushAll]
      simp only [inductionHypothesis]
      by_cases fits : (log.entries ++ text).length < capacity
      · rw [push_of_fits log text fits, accepted_cons_true,
          ← List.append_assoc]
      · rw [push_of_not_fits log text fits, accepted_cons_false]

end BoundedLog

end LinuxNet
