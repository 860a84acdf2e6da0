import LinuxNet.Lib.StepSystem

/-!
# Work that one bit announces

Pieces of work arrive at any time.  An arrival sets a bit, and the bit is the
same however many arrivals set it.  A worker starts when the bit is set,
clears it first, takes one piece after the other until it finds none, and
leaves.  Nothing is said here about what the work is; a system has such a
worker when each of its steps looks like a move below.
-/

namespace LinuxNet.DrainLoop

open LinuxNet.StepSystem

inductive Worker where
  | away
  | drains
  | leaves
  deriving DecidableEq, Repr

/-- Whether work is there, the bit, and the worker. -/
structure Notice where
  waiting : Bool
  bit : Bool
  worker : Worker
  deriving DecidableEq, Repr

/-- What a step may look like.  A piece that is taken may have been the last
one or not; work that arrives while the worker leaves sets the bit again. -/
inductive Moves : Notice → Notice → Prop
  | stays (notice : Notice) : Moves notice notice
  | arrives (notice : Notice) (waiting : Bool) :
      Moves notice ⟨waiting, true, notice.worker⟩
  | starts (waiting : Bool) :
      Moves ⟨waiting, true, .away⟩ ⟨waiting, false, .drains⟩
  | takes (bit left : Bool) :
      Moves ⟨true, bit, .drains⟩ ⟨left, bit, .drains⟩
  | findsNone (bit : Bool) :
      Moves ⟨false, bit, .drains⟩ ⟨false, bit, .leaves⟩
  | returns (waiting bit : Bool) :
      Moves ⟨waiting, bit, .leaves⟩ ⟨waiting, bit, .away⟩

/-- The bit is set for the work, or the worker has not looked for the last
time. -/
def Announced (notice : Notice) : Prop :=
  notice.waiting = true → notice.bit = true ∨ notice.worker = .drains

theorem Announced.move
    {before after : Notice} (announced : Announced before)
    (moves : Moves before after) : Announced after := by
  cases moves with
  | stays => exact announced
  | arrives waiting => exact fun _ => Or.inl rfl
  | starts waiting => exact fun _ => Or.inr rfl
  | takes bit left => exact fun _ => Or.inr rfl
  | findsNone bit => exact fun impossible => Bool.noConfusion impossible
  | returns waiting bit =>
      intro there
      rcases announced there with set | drains
      · exact Or.inl set
      · cases drains

/-- Work never waits without the bit and without the worker. -/
theorem Announced.not_forgotten
    {notice : Notice} (announced : Announced notice)
    (waiting : notice.waiting = true) (clear : notice.bit = false) :
    notice.worker ≠ .away := by
  intro away
  rcases announced waiting with set | drains
  · rw [clear] at set
    cases set
  · rw [away] at drains
    cases drains

/-- A system whose steps look like moves keeps its work announced. -/
theorem announced_of_run
    {σ ε : Type} {step : σ → ε → Option σ} (view : σ → Notice)
    (moves :
      ∀ state label next, step state label = some next →
        Moves (view state) (view next))
    {state last : σ} {labels : List ε} (initially : Announced (view state))
    (ran : run step state labels = some last) : Announced (view last) :=
  run_keeps (fun state => Announced (view state))
    (fun state label next announced stepped =>
      announced.move (moves state label next stepped))
    initially ran

end LinuxNet.DrainLoop
