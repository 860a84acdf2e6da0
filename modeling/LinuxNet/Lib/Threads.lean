/-!
# A table of threads

The threads of one kind are a list of program counters, and a thread moves by
an update of its entry.  The lemmas say what such an update does to a count,
to a property of all entries, and to the entries themselves.
-/

namespace LinuxNet.Threads

variable {α : Type} {threads : List α} {index : Nat} {old : α}

theorem lt_length_of_at (isAt : threads[index]? = some old) :
    index < threads.length :=
  (List.getElem?_eq_some_iff.mp isAt).1

theorem mem_of_at (isAt : threads[index]? = some old) : old ∈ threads :=
  List.mem_of_getElem? isAt

theorem at_set_self (isAt : threads[index]? = some old) (new : α) :
    (threads.set index new)[index]? = some new :=
  List.getElem?_set_self (lt_length_of_at isAt)

theorem mem_set_self (isAt : threads[index]? = some old) (new : α) :
    new ∈ threads.set index new :=
  mem_of_at (at_set_self isAt new)

/-- A count loses the old place of the thread and gains the new one. -/
theorem countP_set_add
    (place : α → Bool) (isAt : threads[index]? = some old) (new : α) :
    (threads.set index new).countP place + (place old).toNat =
      threads.countP place + (place new).toNat := by
  obtain ⟨inside, entry⟩ := List.getElem?_eq_some_iff.mp isAt
  have counted : (place old).toNat ≤ threads.countP place := by
    cases counts : place old with
    | false => exact Nat.zero_le _
    | true => exact List.countP_pos_iff.mpr ⟨old, mem_of_at isAt, counts⟩
  have indicator :
      ∀ pc, (if place pc = true then 1 else 0) = (place pc).toNat := by
    intro pc
    cases place pc <;> rfl
  rw [List.countP_set inside, entry, indicator, indicator]
  omega

/-- An entry after the move is the new one, or was there before. -/
theorem at_set_cases
    {new pc : α} {other : Nat}
    (isAt : (threads.set index new)[other]? = some pc) :
    (other = index ∧ pc = new) ∨
      (other ≠ index ∧ threads[other]? = some pc) := by
  by_cases same : other = index
  · subst same
    have inside : other < threads.length := by
      have bound := lt_length_of_at isAt
      rwa [List.length_set] at bound
    rw [List.getElem?_set_self inside] at isAt
    cases isAt
    exact Or.inl ⟨rfl, rfl⟩
  · rw [List.getElem?_set_ne (Ne.symm same)] at isAt
    exact Or.inr ⟨same, isAt⟩

/-- The other threads stay where they are. -/
theorem at_set_of_ne
    {pc : α} {other : Nat} (different : other ≠ index)
    (isAt : threads[other]? = some pc) (new : α) :
    (threads.set index new)[other]? = some pc := by
  rw [List.getElem?_set_ne (Ne.symm different)]
  exact isAt

theorem forall_set
    {property : α → Prop} {new : α}
    (initially : ∀ pc ∈ threads, property pc) (moved : property new) :
    ∀ pc ∈ threads.set index new, property pc := by
  intro pc member
  rcases List.mem_or_eq_of_mem_set member with before | rfl
  · exact initially pc before
  · exact moved

/-- A thread that is elsewhere is still there. -/
theorem mem_set_of_ne
    {pc : α} (isAt : threads[index]? = some old) (member : pc ∈ threads)
    (different : pc ≠ old) (new : α) : pc ∈ threads.set index new := by
  obtain ⟨other, isOther⟩ := List.mem_iff_getElem?.mp member
  have indexNe : other ≠ index := by
    rintro rfl
    rw [isAt] at isOther
    cases isOther
    exact different rfl
  exact mem_of_at (at_set_of_ne indexNe isOther new)

/-- What is read off the threads stays as it is where it is the same for the
one that moves. -/
theorem filterMap_set_of_eq
    {β : Type} {reading : α → Option β} {new : α}
    (isAt : threads[index]? = some old) (same : reading new = reading old) :
    (threads.set index new).filterMap reading =
      threads.filterMap reading := by
  induction threads generalizing index with
  | nil => rfl
  | cons pc threads inductionHypothesis =>
      cases index with
      | zero =>
          cases isAt
          rw [List.set_cons_zero, List.filterMap_cons, List.filterMap_cons,
            same]
      | succ index =>
          rw [List.set_cons_succ, List.filterMap_cons, List.filterMap_cons,
            inductionHypothesis isAt]

/-- It loses what was read off the one that moves. -/
theorem filterMap_perm_cons_set
    {β : Type} {reading : α → Option β} {new : α} {value : β}
    (isAt : threads[index]? = some old) (read : reading old = some value)
    (gone : reading new = none) :
    (threads.filterMap reading).Perm
      (value :: (threads.set index new).filterMap reading) := by
  induction threads generalizing index with
  | nil => cases isAt
  | cons pc threads inductionHypothesis =>
      cases index with
      | zero =>
          cases isAt
          rw [List.set_cons_zero, List.filterMap_cons_some read,
            List.filterMap_cons_none gone]
      | succ index =>
          have later := inductionHypothesis isAt
          rw [List.set_cons_succ]
          cases here : reading pc with
          | none =>
              rw [List.filterMap_cons_none here, List.filterMap_cons_none here]
              exact later
          | some other =>
              rw [List.filterMap_cons_some here, List.filterMap_cons_some here]
              exact (later.cons other).trans (.swap ..)

end LinuxNet.Threads
