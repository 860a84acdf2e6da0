import LinuxNet.Lib.StepSystem

/-!
# Resources acquired and released along a trace

Each event of a trace may acquire a resource, release one, or be a deadline
by which none may be held.  `Paired` says in terms of positions that every
acquisition is followed by its release, and every release preceded by its
acquisition, with nothing but indifferent events in between.  `advance` checks
this on the fly, remembering only the resource held, and
`paired_iff_heldAfter` shows that the two agree.
-/

namespace LinuxNet.Pairing

open LinuxNet.StepSystem

inductive Action (ρ : Type) where
  | acquire (resource : ρ)
  | release (resource : ρ)
  | deadline
  | other
  deriving DecidableEq

variable {ρ ε : Type} [DecidableEq ρ] {action : ε → Action ρ}

/-- The resource held after an action, if the action is in order. -/
def advance (held : Option ρ) : Action ρ → Option (Option ρ)
  | .acquire resource => if held = none then some (some resource) else none
  | .release resource => if held = some resource then some none else none
  | .deadline => if held = none then some none else none
  | .other => some held

section Advance

variable {held next : Option ρ} {resource : ρ}

theorem advance_acquire_iff :
    advance held (.acquire resource) = some next ↔
      held = none ∧ next = some resource := by
  by_cases free : held = none <;> simp [advance, free, eq_comm]

theorem advance_release_iff :
    advance held (.release resource) = some next ↔
      held = some resource ∧ next = none := by
  by_cases owned : held = some resource <;> simp [advance, owned, eq_comm]

theorem advance_deadline_iff :
    advance held .deadline = some next ↔ held = none ∧ next = none := by
  by_cases free : held = none <;> simp [advance, free, eq_comm]

theorem advance_other_iff :
    advance held .other = some next ↔ next = held := by
  simp [advance, eq_comm]

end Advance

def heldAfter (action : ε → Action ρ) :
    Option ρ → List ε → Option (Option ρ) :=
  run fun held event => advance held (action event)

omit [DecidableEq ρ] in
def Indifferent (action : ε → Action ρ) (events : List ε) : Prop :=
  ∀ event ∈ events, action event = .other

/-- Every acquisition is released before anything else happens, and every
release follows its acquisition. -/
structure Paired (action : ε → Action ρ) (trace : List ε) : Prop where
  released :
    ∀ before event after resource, trace = before ++ event :: after →
      action event = .acquire resource →
        Indifferent action after ∨
          ∃ middle last rest, after = middle ++ last :: rest ∧
            Indifferent action middle ∧ action last = .release resource
  acquired :
    ∀ before event after resource, trace = before ++ event :: after →
      action event = .release resource →
        ∃ initial first middle, before = initial ++ first :: middle ∧
          action first = .acquire resource ∧ Indifferent action middle

theorem heldAfter_cons_iff
    {held last : Option ρ} {event : ε} {events : List ε} :
    heldAfter action held (event :: events) = some last ↔
      ∃ next, advance held (action event) = some next ∧
        heldAfter action next events = some last :=
  run_cons_eq_some_iff held last event events

theorem heldAfter_append_iff
    {held last : Option ρ} {events later : List ε} :
    heldAfter action held (events ++ later) = some last ↔
      ∃ middle, heldAfter action held events = some middle ∧
        heldAfter action middle later = some last :=
  run_append_eq_some_iff held last events later

theorem heldAfter_indifferent
    {held : Option ρ} {events : List ε}
    (indifferent : Indifferent action events) :
    heldAfter action held events = some held := by
  induction events with
  | nil =>
      rfl
  | cons event events inductionHypothesis =>
      unfold Indifferent at indifferent inductionHypothesis
      rw [List.forall_mem_cons] at indifferent
      refine heldAfter_cons_iff.mpr ⟨held, ?_, ?_⟩
      · rw [indifferent.1]
        rfl
      · exact inductionHypothesis indifferent.2

omit [DecidableEq ρ] in
theorem Indifferent.cons
    {event : ε} {events : List ε} (other : action event = .other)
    (indifferent : Indifferent action events) :
    Indifferent action (event :: events) := by
  unfold Indifferent at indifferent ⊢
  rw [List.forall_mem_cons]
  exact ⟨other, indifferent⟩

/-- A resource that is held is the next one released. -/
theorem released_of_held
    {resource : ρ} {events : List ε} {last : Option ρ}
    (inOrder : heldAfter action (some resource) events = some last) :
    Indifferent action events ∨
      ∃ middle event rest, events = middle ++ event :: rest ∧
        Indifferent action middle ∧ action event = .release resource := by
  induction events with
  | nil =>
      exact .inl (by simp [Indifferent])
  | cons event events inductionHypothesis =>
      obtain ⟨next, advanced, later⟩ := heldAfter_cons_iff.mp inOrder
      cases does : action event with
      | acquire other =>
          rw [does] at advanced
          cases (advance_acquire_iff.mp advanced).1
      | deadline =>
          rw [does] at advanced
          cases (advance_deadline_iff.mp advanced).1
      | release other =>
          rw [does] at advanced
          cases (advance_release_iff.mp advanced).1
          exact .inr ⟨[], event, events, rfl, by simp [Indifferent], does⟩
      | other =>
          rw [does] at advanced
          cases advance_other_iff.mp advanced
          rcases inductionHypothesis later with
            indifferent | ⟨middle, released, rest, shape, indifferent, isLast⟩
          · exact .inl (indifferent.cons does)
          · exact
              .inr ⟨event :: middle, released, rest, by rw [shape]; rfl,
                indifferent.cons does, isLast⟩

/-- A resource that is held was held at the start or is the last one
acquired. -/
theorem acquired_of_held
    {resource : ρ} {events : List ε} {held : Option ρ}
    (inOrder : heldAfter action held events = some (some resource)) :
    held = some resource ∧ Indifferent action events ∨
      ∃ initial event middle, events = initial ++ event :: middle ∧
        action event = .acquire resource ∧ Indifferent action middle := by
  induction events generalizing held with
  | nil =>
      cases inOrder
      exact .inl ⟨rfl, by simp [Indifferent]⟩
  | cons event events inductionHypothesis =>
      obtain ⟨next, advanced, later⟩ := heldAfter_cons_iff.mp inOrder
      rcases inductionHypothesis later with
        ⟨nextEq, indifferent⟩ | ⟨initial, first, middle, shape, isFirst⟩
      · rw [nextEq] at advanced
        cases does : action event with
        | acquire other =>
            rw [does] at advanced
            cases (advance_acquire_iff.mp advanced).2
            exact .inr ⟨[], event, events, rfl, does, indifferent⟩
        | release other =>
            rw [does] at advanced
            cases (advance_release_iff.mp advanced).2
        | deadline =>
            rw [does] at advanced
            cases (advance_deadline_iff.mp advanced).2
        | other =>
            rw [does] at advanced
            cases advance_other_iff.mp advanced
            exact .inl ⟨rfl, indifferent.cons does⟩
      · exact
          .inr ⟨event :: initial, first, middle, by rw [shape]; rfl, isFirst⟩

/-- What the check accepts is paired. -/
theorem paired_of_heldAfter
    {trace : List ε} {held : Option ρ}
    (inOrder : heldAfter action none trace = some held) :
    Paired action trace where
  released := by
    intro before event after resource shape does
    rw [shape] at inOrder
    obtain ⟨middle, _, later⟩ := heldAfter_append_iff.mp inOrder
    obtain ⟨next, advanced, rest⟩ := heldAfter_cons_iff.mp later
    rw [does] at advanced
    obtain ⟨_, rfl⟩ := advance_acquire_iff.mp advanced
    exact released_of_held rest
  acquired := by
    intro before event after resource shape does
    rw [shape] at inOrder
    obtain ⟨middle, earlier, later⟩ := heldAfter_append_iff.mp inOrder
    obtain ⟨next, advanced, rest⟩ := heldAfter_cons_iff.mp later
    rw [does] at advanced
    obtain ⟨rfl, _⟩ := advance_release_iff.mp advanced
    rcases acquired_of_held earlier with ⟨impossible, _⟩ | found
    · cases impossible
    · exact found

omit [DecidableEq ρ] in
/-- The first event that is not indifferent is found at one place only. -/
theorem first_unique
    {middle otherMiddle rest otherRest : List ε} {event other : ε}
    (same : middle ++ event :: rest = otherMiddle ++ other :: otherRest)
    (indifferent : Indifferent action middle)
    (otherIndifferent : Indifferent action otherMiddle)
    (relevant : action event ≠ .other)
    (otherRelevant : action other ≠ .other) : event = other := by
  induction middle generalizing otherMiddle with
  | nil =>
      cases otherMiddle with
      | nil =>
          cases same
          rfl
      | cons head tail =>
          cases same
          exact absurd (otherIndifferent _ List.mem_cons_self) relevant
  | cons head tail inductionHypothesis =>
      cases otherMiddle with
      | nil =>
          cases same
          exact absurd (indifferent _ List.mem_cons_self) otherRelevant
      | cons otherHead otherTail =>
          simp only [List.cons_append, List.cons.injEq] at same
          exact
            inductionHypothesis same.2
              (fun event member =>
                indifferent event (List.mem_cons_of_mem _ member))
              (fun event member =>
                otherIndifferent event (List.mem_cons_of_mem _ member))

/-- In a paired trace the check never stops. -/
theorem heldAfter_of_paired
    {trace before after : List ε} {held : Option ρ}
    (paired : Paired action trace) (shape : trace = before ++ after)
    (inOrder : heldAfter action none before = some held) :
    ∃ last, heldAfter action none trace = some last := by
  induction after generalizing before held with
  | nil =>
      rw [List.append_nil] at shape
      exact ⟨held, shape ▸ inOrder⟩
  | cons event after inductionHypothesis =>
      have nextShape : trace = (before ++ [event]) ++ after := by
        rw [shape, List.append_assoc]
        rfl
      have continues :
          ∀ next, advance held (action event) = some next →
            ∃ last, heldAfter action none trace = some last := by
        intro next advanced
        have laterHeld : heldAfter action none (before ++ [event]) = some next :=
          heldAfter_append_iff.mpr
            ⟨held, inOrder, heldAfter_cons_iff.mpr ⟨next, advanced, rfl⟩⟩
        exact inductionHypothesis nextShape laterHeld
      -- a resource held before the event can only be released by it
      have onlyReleased :
          ∀ resource, held = some resource → action event ≠ .other →
            action event = .release resource := by
        intro resource isHeld relevant
        rw [isHeld] at inOrder
        rcases acquired_of_held inOrder with
          ⟨impossible, _⟩ | ⟨initial, first, middle, split, isFirst, quiet⟩
        · cases impossible
        · have whole : trace = initial ++ first :: (middle ++ event :: after) := by
            rw [shape, split, List.append_assoc]
            rfl
          rcases paired.released _ _ _ _ whole isFirst with
            indifferent | ⟨_, last, _, found, lastQuiet, isLast⟩
          · exact absurd (indifferent event (by simp)) relevant
          · have same :=
              first_unique found quiet lastQuiet relevant
                (by rw [isLast]; exact fun impossible => nomatch impossible)
            rw [same]
            exact isLast
      cases does : action event with
      | other =>
          exact continues held (by rw [does]; rfl)
      | acquire resource =>
          cases held with
          | none => exact continues (some resource) (by rw [does]; rfl)
          | some other =>
              have released := onlyReleased other rfl (by simp [does])
              rw [does] at released
              cases released
      | deadline =>
          cases held with
          | none => exact continues none (by rw [does]; rfl)
          | some other =>
              have released := onlyReleased other rfl (by simp [does])
              rw [does] at released
              cases released
      | release resource =>
          obtain ⟨initial, first, middle, split, isFirst, quiet⟩ :=
            paired.acquired _ _ _ _ shape does
          rw [split] at inOrder
          obtain ⟨start, _, later⟩ := heldAfter_append_iff.mp inOrder
          obtain ⟨next, advanced, rest⟩ := heldAfter_cons_iff.mp later
          rw [isFirst] at advanced
          rw [heldAfter_indifferent quiet] at rest
          obtain ⟨_, rfl⟩ := advance_acquire_iff.mp advanced
          cases rest
          refine continues none ?_
          rw [does]
          exact advance_release_iff.mpr ⟨rfl, rfl⟩

theorem paired_iff_heldAfter (trace : List ε) :
    Paired action trace ↔ (heldAfter action none trace).isSome := by
  rw [Option.isSome_iff_exists]
  constructor
  · intro paired
    exact heldAfter_of_paired paired (List.nil_append trace).symm rfl
  · rintro ⟨held, inOrder⟩
    exact paired_of_heldAfter inOrder

end LinuxNet.Pairing
