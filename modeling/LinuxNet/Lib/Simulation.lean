import LinuxNet.Lib.StepSystem

/-!
# Steps that are runs of another system

A simulation looks at each state of one system as a state of another one and
at each step as a run there, which may be empty.  Runs then correspond to
runs, and a guard of one system to a guard of the other.
-/

namespace LinuxNet.StepSystem

variable {σ ε τ β : Type} {step : σ → ε → Option σ}
variable {abstract : τ → β → Option τ}

/-- Steps along two lists of labels, the one behind the other. -/
theorem stepsMeet_append_iff
    {guard : σ → ε → Prop} {state middle : σ} {initial suffix : List ε}
    (ran : run step state initial = some middle) :
    StepsMeet step guard state (initial ++ suffix) ↔
      StepsMeet step guard state initial ∧
        StepsMeet step guard middle suffix := by
  induction initial generalizing state with
  | nil =>
      cases ran
      exact (and_iff_right trivial).symm
  | cons label labels inductionHypothesis =>
      obtain ⟨next, stepped, rest⟩ :=
        (run_cons_eq_some_iff state middle label labels).mp ran
      constructor
      · rintro ⟨met, later⟩
        obtain ⟨first, second⟩ :=
          (inductionHypothesis rest).mp (later next stepped)
        exact ⟨stepsMeet_cons met stepped first, second⟩
      · rintro ⟨first, second⟩
        exact append_stepsMeet first ran second

theorem run_singleton_eq_some_iff
    {state next : σ} {label : ε} :
    run step state [label] = some next ↔ step state label = some next := by
  rw [run_cons_eq_some_iff]
  simp

theorem stepsMeet_singleton_iff
    {guard : σ → ε → Prop} {state : σ} {label : ε} :
    StepsMeet step guard state [label] ↔ guard state label :=
  and_iff_left fun _ _ => trivial

theorem stepsMeet_of_forall_mem
    {guard : σ → ε → Prop} {labels : List ε}
    (always : ∀ label ∈ labels, ∀ state, guard state label) (state : σ) :
    StepsMeet step guard state labels := by
  induction labels generalizing state with
  | nil => trivial
  | cons label labels inductionHypothesis =>
      obtain ⟨here, later⟩ := List.forall_mem_cons.mp always
      exact ⟨here state, fun next _ => inductionHypothesis later next⟩

structure Simulation
    (step : σ → ε → Option σ) (abstract : τ → β → Option τ) where
  view : σ → τ
  acts : σ → ε → List β
  Valid : σ → Prop
  valid_step :
    ∀ {state label next},
      Valid state → step state label = some next → Valid next
  run_acts :
    ∀ {state label next},
      Valid state → step state label = some next →
        run abstract (view state) (acts state label) = some (view next)

namespace Simulation

variable (simulation : Simulation step abstract)

def translated : σ → List ε → List β
  | _, [] => []
  | state, label :: labels =>
      simulation.acts state label ++
        match step state label with
        | none => []
        | some next => translated next labels

variable {simulation} {state next last : σ} {label : ε} {labels : List ε}

theorem translated_cons (stepped : step state label = some next) :
    simulation.translated state (label :: labels) =
      simulation.acts state label ++ simulation.translated next labels := by
  rw [translated, stepped]

theorem valid_run
    (valid : simulation.Valid state)
    (ran : run step state labels = some last) : simulation.Valid last :=
  run_keeps simulation.Valid
    (fun _ _ _ holds stepped => simulation.valid_step holds stepped) valid ran

/-- A run is seen as a run. -/
theorem run_translated
    (valid : simulation.Valid state)
    (ran : run step state labels = some last) :
    run abstract (simulation.view state)
        (simulation.translated state labels) =
      some (simulation.view last) := by
  induction labels generalizing state with
  | nil =>
      cases ran
      rfl
  | cons label labels inductionHypothesis =>
      obtain ⟨next, stepped, rest⟩ :=
        (run_cons_eq_some_iff state last label labels).mp ran
      rw [translated_cons stepped, run_append_eq_some_iff]
      exact
        ⟨simulation.view next, simulation.run_acts valid stepped,
          inductionHypothesis (simulation.valid_step valid stepped) rest⟩

/-- Where each step meets its guard exactly when the steps it stands for do,
so does each run. -/
theorem stepsMeet_iff
    {guard : σ → ε → Prop} {abstractGuard : τ → β → Prop}
    (guards :
      ∀ {state label next},
        simulation.Valid state → step state label = some next →
          (guard state label ↔
            StepsMeet abstract abstractGuard (simulation.view state)
              (simulation.acts state label)))
    (valid : simulation.Valid state)
    (ran : run step state labels = some last) :
    StepsMeet step guard state labels ↔
      StepsMeet abstract abstractGuard (simulation.view state)
        (simulation.translated state labels) := by
  induction labels generalizing state with
  | nil => exact Iff.rfl
  | cons label labels inductionHypothesis =>
      obtain ⟨next, stepped, rest⟩ :=
        (run_cons_eq_some_iff state last label labels).mp ran
      have later :=
        inductionHypothesis (simulation.valid_step valid stepped) rest
      rw [translated_cons stepped,
        stepsMeet_append_iff (simulation.run_acts valid stepped),
        ← guards valid stepped, ← later]
      constructor
      · rintro ⟨met, others⟩
        exact ⟨met, others next stepped⟩
      · rintro ⟨met, others⟩
        exact stepsMeet_cons met stepped others

end Simulation

end LinuxNet.StepSystem
