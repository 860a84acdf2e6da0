/-!
# Runs of a labelled step function

A system is given by a partial step function `step : σ → ε → Option σ`: the
label carries every choice of the environment, and `none` means that the
label is not enabled.  This module knows nothing of any particular system.
It packages the two inductions that the developments below use: an invariant
kept by each step is kept by each run, and a run whose steps all meet a
guard keeps what the guarded steps keep.
-/

namespace LinuxNet.StepSystem

variable {σ ε : Type} {step : σ → ε → Option σ}

/-- Follow a list of labels, stopping at the first one that is not enabled. -/
def run (step : σ → ε → Option σ) : σ → List ε → Option σ
  | state, [] => some state
  | state, label :: labels =>
      match step state label with
      | none => none
      | some next => run step next labels

/-- Every step taken along the labels meets the guard in the state before it. -/
def StepsMeet
    (step : σ → ε → Option σ) (guard : σ → ε → Prop) :
    σ → List ε → Prop
  | _, [] => True
  | state, label :: labels =>
      guard state label ∧
        ∀ next, step state label = some next →
          StepsMeet step guard next labels

/-- The states that some run from a start state reaches. -/
def Reachable
    (start : σ → Prop) (step : σ → ε → Option σ) (state : σ) : Prop :=
  ∃ first labels, start first ∧ run step first labels = some state

@[simp]
theorem run_nil (state : σ) : run step state [] = some state :=
  rfl

theorem run_cons_eq_some_iff
    (state last : σ) (label : ε) (labels : List ε) :
    run step state (label :: labels) = some last ↔
      ∃ next, step state label = some next ∧
        run step next labels = some last := by
  rw [run]
  cases stepped : step state label with
  | none => simp
  | some next => simp

theorem run_append_eq_some_iff
    (state last : σ) (initial suffix : List ε) :
    run step state (initial ++ suffix) = some last ↔
      ∃ middle, run step state initial = some middle ∧
        run step middle suffix = some last := by
  induction initial generalizing state with
  | nil =>
      simp
  | cons label labels inductionHypothesis =>
      simp only [List.cons_append, run_cons_eq_some_iff,
        inductionHypothesis]
      constructor
      · rintro ⟨next, stepped, middle, ran, finished⟩
        exact ⟨middle, ⟨next, stepped, ran⟩, finished⟩
      · rintro ⟨middle, ⟨next, stepped, ran⟩, finished⟩
        exact ⟨next, stepped, middle, ran, finished⟩

theorem stepsMeet_cons
    {guard : σ → ε → Prop} {state next : σ} {label : ε}
    {labels : List ε} (met : guard state label)
    (stepped : step state label = some next)
    (later : StepsMeet step guard next labels) :
    StepsMeet step guard state (label :: labels) := by
  refine ⟨met, fun other otherStepped => ?_⟩
  rw [stepped] at otherStepped
  cases otherStepped
  exact later

theorem append_stepsMeet
    {guard : σ → ε → Prop} {state middle : σ}
    {initial suffix : List ε}
    (meets : StepsMeet step guard state initial)
    (ran : run step state initial = some middle)
    (later : StepsMeet step guard middle suffix) :
    StepsMeet step guard state (initial ++ suffix) := by
  induction initial generalizing state with
  | nil =>
      cases ran
      exact later
  | cons label labels inductionHypothesis =>
      obtain ⟨next, stepped, rest⟩ :=
        (run_cons_eq_some_iff state middle label labels).mp ran
      exact
        stepsMeet_cons meets.1 stepped
          (inductionHypothesis (meets.2 next stepped) rest)

theorem guard_of_stepsMeet
    {guard : σ → ε → Prop} {state last : σ} {label : ε}
    {initial : List ε}
    (meets : StepsMeet step guard state (initial ++ [label]))
    (ran : run step state (initial ++ [label]) = some last) :
    ∃ middle, run step state initial = some middle ∧
      guard middle label := by
  induction initial generalizing state with
  | nil => exact ⟨state, rfl, meets.1⟩
  | cons first initial inductionHypothesis =>
      obtain ⟨next, stepped, rest⟩ :=
        (run_cons_eq_some_iff state last first (initial ++ [label])).mp ran
      obtain ⟨middle, reached, met⟩ :=
        inductionHypothesis (meets.2 next stepped) rest
      exact
        ⟨middle,
          (run_cons_eq_some_iff state middle first initial).mpr
            ⟨next, stepped, reached⟩,
          met⟩

theorem StepsMeet.and
    {guard other : σ → ε → Prop} {state : σ} {labels : List ε}
    (meets : StepsMeet step guard state labels)
    (meetsOther : StepsMeet step other state labels) :
    StepsMeet step (fun s label => guard s label ∧ other s label) state
      labels := by
  induction labels generalizing state with
  | nil => trivial
  | cons label labels inductionHypothesis =>
      exact
        ⟨⟨meets.1, meetsOther.1⟩, fun next stepped =>
          inductionHypothesis (meets.2 next stepped)
            (meetsOther.2 next stepped)⟩

/-- A guard that always holds is met by every run. -/
theorem stepsMeet_of_forall
    {guard : σ → ε → Prop}
    (always : ∀ state label, guard state label)
    (state : σ) (labels : List ε) :
    StepsMeet step guard state labels := by
  induction labels generalizing state with
  | nil =>
      trivial
  | cons label labels inductionHypothesis =>
      exact ⟨always state label,
        fun next _ => inductionHypothesis next⟩

/-- What every guarded step keeps, every guarded run keeps. -/
theorem guarded_run_keeps
    (guard : σ → ε → Prop) (invariant : σ → Prop)
    (keeps :
      ∀ state label next,
        invariant state → guard state label →
          step state label = some next → invariant next)
    {state last : σ} {labels : List ε}
    (initially : invariant state)
    (meets : StepsMeet step guard state labels)
    (ran : run step state labels = some last) :
    invariant last := by
  induction labels generalizing state with
  | nil =>
      cases ran
      exact initially
  | cons label labels inductionHypothesis =>
      obtain ⟨next, stepped, rest⟩ :=
        (run_cons_eq_some_iff state last label labels).mp ran
      exact inductionHypothesis
        (keeps state label next initially meets.1 stepped)
        (meets.2 next stepped) rest

/-- What every step keeps, every run keeps. -/
theorem run_keeps
    (invariant : σ → Prop)
    (keeps :
      ∀ state label next,
        invariant state → step state label = some next →
          invariant next)
    {state last : σ} {labels : List ε}
    (initially : invariant state)
    (ran : run step state labels = some last) :
    invariant last :=
  guarded_run_keeps (fun _ _ => True) invariant
    (fun state label next holds _ => keeps state label next holds)
    initially
    (stepsMeet_of_forall (fun _ _ => trivial) state labels) ran

/-- An invariant may speak of the labels that have been followed. -/
theorem run_keeps_history
    (invariant : List ε → σ → Prop)
    (keeps :
      ∀ past state label next,
        invariant past state → step state label = some next →
          invariant (past ++ [label]) next)
    {past : List ε} {state last : σ} {labels : List ε}
    (initially : invariant past state)
    (ran : run step state labels = some last) :
    invariant (past ++ labels) last := by
  induction labels generalizing past state with
  | nil =>
      cases ran
      rw [List.append_nil]
      exact initially
  | cons label labels inductionHypothesis =>
      obtain ⟨next, stepped, rest⟩ :=
        (run_cons_eq_some_iff state last label labels).mp ran
      rw [List.append_cons]
      exact
        inductionHypothesis (keeps past state label next initially stepped)
          rest

/-- What holds at the end of a run and not at its start came with one of its
steps. -/
theorem exists_step_of_run
    (property : σ → Prop) {state last : σ} {labels : List ε}
    (absent : ¬ property state) (ran : run step state labels = some last)
    (holds : property last) :
    ∃ initial label rest before next,
      labels = initial ++ label :: rest ∧
        run step state initial = some before ∧ ¬ property before ∧
          step before label = some next ∧ property next := by
  induction labels generalizing state with
  | nil =>
      cases ran
      exact absurd holds absent
  | cons label labels inductionHypothesis =>
      obtain ⟨next, stepped, rest⟩ :=
        (run_cons_eq_some_iff state last label labels).mp ran
      by_cases there : property next
      · exact ⟨[], label, labels, state, next, rfl, rfl, absent, stepped, there⟩
      · obtain ⟨initial, cause, later, before, after, rfl, reached, others⟩ :=
          inductionHypothesis there rest
        refine ⟨label :: initial, cause, later, before, after, rfl, ?_, others⟩
        exact
          (run_cons_eq_some_iff state before label initial).mpr
            ⟨next, stepped, reached⟩

/-- The label of that step. -/
theorem exists_cause_of_run
    {cause : ε → Prop} (invariant property : σ → Prop)
    (keeps :
      ∀ state label next,
        invariant state → step state label = some next → invariant next)
    (comes :
      ∀ state label next,
        invariant state → step state label = some next → property next →
          property state ∨ cause label)
    {state last : σ} {labels : List ε} (initially : invariant state)
    (absent : ¬ property state) (ran : run step state labels = some last)
    (holds : property last) : ∃ label ∈ labels, cause label := by
  obtain ⟨initial, label, rest, before, next, rfl, reached, notYet, stepped,
    there⟩ := exists_step_of_run property absent ran holds
  have kept := run_keeps invariant keeps initially reached
  refine ⟨label, List.mem_append_right _ List.mem_cons_self, ?_⟩
  exact (comes before label next kept stepped there).resolve_left notYet

/-- When a step that breaks the guard leads to a doomed state, and doom stays,
a run with a step that breaks the guard ends in a doomed state. -/
theorem doomed_of_not_stepsMeet
    {guard : σ → ε → Prop} (doomed : σ → Prop)
    (breaks :
      ∀ state label next, step state label = some next →
        ¬ guard state label → doomed next)
    (keeps :
      ∀ state label next, doomed state →
        step state label = some next → doomed next)
    {state last : σ} {labels : List ε}
    (ran : run step state labels = some last)
    (broken : ¬ StepsMeet step guard state labels) : doomed last := by
  induction labels generalizing state with
  | nil => exact absurd trivial broken
  | cons label labels inductionHypothesis =>
      obtain ⟨next, stepped, rest⟩ :=
        (run_cons_eq_some_iff state last label labels).mp ran
      by_cases met : guard state label
      · apply inductionHypothesis rest
        exact fun later => broken (stepsMeet_cons met stepped later)
      · exact
          run_keeps doomed keeps (breaks state label next stepped met) rest

/-- Two systems whose steps keep them related on the same labels stay related
along runs; neither comes to a label that is not enabled before the other. -/
theorem run_rel
    {τ : Type} {other : τ → ε → Option τ} (related : σ → τ → Prop)
    (steps :
      ∀ state partner label, related state partner →
        Option.Rel related (step state label) (other partner label))
    {state : σ} {partner : τ} (initially : related state partner)
    (labels : List ε) :
    Option.Rel related (run step state labels)
      (run other partner labels) := by
  induction labels generalizing state partner with
  | nil => exact .some initially
  | cons label labels inductionHypothesis =>
      have stepped := steps state partner label initially
      rw [run, run]
      cases first : step state label with
      | none =>
          rw [first] at stepped
          cases second : other partner label with
          | none => exact .none
          | some next =>
              rw [second] at stepped
              cases stepped
      | some next =>
          rw [first] at stepped
          cases second : other partner label with
          | none =>
              rw [second] at stepped
              cases stepped
          | some partnerNext =>
              rw [second] at stepped
              cases stepped with
              | some kept => exact inductionHypothesis kept

/-- When a step stays good exactly from a good state and under a guard, the
good runs are the guarded ones from a good state. -/
theorem run_good_iff
    (guard : σ → ε → Prop) (invariant good : σ → Prop)
    (steps :
      ∀ state label next,
        invariant state → step state label = some next →
          invariant next ∧ (good next ↔ good state ∧ guard state label))
    {state last : σ} {labels : List ε}
    (initially : invariant state)
    (ran : run step state labels = some last) :
    good last ↔ good state ∧ StepsMeet step guard state labels := by
  induction labels generalizing state with
  | nil =>
      cases ran
      exact (and_iff_left trivial).symm
  | cons label labels inductionHypothesis =>
      obtain ⟨next, stepped, rest⟩ :=
        (run_cons_eq_some_iff state last label labels).mp ran
      obtain ⟨kept, isGood⟩ := steps state label next initially stepped
      rw [inductionHypothesis kept rest, isGood, and_assoc]
      constructor
      · rintro ⟨stateGood, met, later⟩
        exact ⟨stateGood, stepsMeet_cons met stepped later⟩
      · rintro ⟨stateGood, met, later⟩
        exact ⟨stateGood, met, later next stepped⟩

def Throughout
    (step : σ → ε → Option σ) (property : σ → Prop) : σ → List ε → Prop
  | state, [] => property state
  | state, label :: labels =>
      property state ∧
        ∀ next, step state label = some next →
          Throughout step property next labels

theorem Throughout.head
    {property : σ → Prop} {state : σ} {labels : List ε}
    (throughout : Throughout step property state labels) :
    property state := by
  cases labels with
  | nil => exact throughout
  | cons label labels => exact throughout.1

theorem throughout_of_keeps
    {property : σ → Prop} {guard : σ → ε → Prop} (invariant : σ → Prop)
    (implies : ∀ state, invariant state → property state)
    (keeps :
      ∀ state label next,
        invariant state → guard state label →
          step state label = some next → invariant next)
    {state : σ} {labels : List ε} (initially : invariant state)
    (meets : StepsMeet step guard state labels) :
    Throughout step property state labels := by
  induction labels generalizing state with
  | nil => exact implies state initially
  | cons label labels inductionHypothesis =>
      refine ⟨implies state initially, fun next stepped => ?_⟩
      apply inductionHypothesis
      · exact keeps state label next initially meets.1 stepped
      · exact meets.2 next stepped

/-- Guarded steps meet whatever the guard and the invariant imply. -/
theorem stepsMeet_of_keeps
    {guard implied : σ → ε → Prop} (invariant : σ → Prop)
    (implies :
      ∀ state label, invariant state → guard state label →
        implied state label)
    (keeps :
      ∀ state label next,
        invariant state → guard state label →
          step state label = some next → invariant next)
    {state : σ} {labels : List ε} (initially : invariant state)
    (meets : StepsMeet step guard state labels) :
    StepsMeet step implied state labels := by
  induction labels generalizing state with
  | nil => trivial
  | cons label labels inductionHypothesis =>
      refine ⟨implies state label initially meets.1, fun next stepped => ?_⟩
      apply inductionHypothesis
      · exact keeps state label next initially meets.1 stepped
      · exact meets.2 next stepped

/-- When a step that breaks the guard also breaks the property, the property
holds throughout a run exactly when all steps of the run meet the guard. -/
theorem throughout_iff_stepsMeet
    {property : σ → Prop} {guard : σ → ε → Prop} (invariant : σ → Prop)
    (implies : ∀ state, invariant state → property state)
    (keeps :
      ∀ state label next,
        invariant state → guard state label →
          step state label = some next → invariant next)
    (needed :
      ∀ state label next,
        invariant state → step state label = some next →
          property next → guard state label)
    {state last : σ} {labels : List ε} (initially : invariant state)
    (ran : run step state labels = some last) :
    Throughout step property state labels ↔
      StepsMeet step guard state labels := by
  constructor
  · intro throughout
    induction labels generalizing state with
    | nil => trivial
    | cons label labels inductionHypothesis =>
        obtain ⟨next, stepped, rest⟩ :=
          (run_cons_eq_some_iff state last label labels).mp ran
        have later := throughout.2 next stepped
        have met := needed state label next initially stepped later.head
        apply stepsMeet_cons met stepped
        apply inductionHypothesis
        · exact keeps state label next initially met stepped
        · exact rest
        · exact later
  · exact throughout_of_keeps invariant implies keeps initially

end LinuxNet.StepSystem
