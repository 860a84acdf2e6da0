/-!
# Scans that are taken up again

A scan looks at a state, and leaves a verdict and another state.  While the
verdict waits for input, another piece of it is added and the scan is taken up
again where it stopped.  If what a waiting scan has passed does not matter to
a later one, this is as good as a single scan of all the pieces added, and if
more input does not change a verdict that does not wait, as good as a single
scan of all the pieces there are.
-/

namespace LinuxNet.Resumption

universe u v w

variable {σ : Type u} {ρ : Type v} {α : Type w}

/-- A scan, the verdicts that wait for input, and a state with another piece
of input. -/
structure Scanner (σ : Type u) (ρ : Type v) (α : Type w) where
  scan : σ → ρ × σ
  waits : ρ → Bool
  more : σ → α → σ

namespace Scanner

variable (scanner : Scanner σ ρ α)

/-- Scan, and take up the scan again with each piece until a verdict does not
wait. -/
def resume : List α → σ → ρ × σ
  | [], state => scanner.scan state
  | piece :: later, state =>
      if scanner.waits (scanner.scan state).1 then
        resume later (scanner.more (scanner.scan state).2 piece)
      else
        scanner.scan state

/-- `Ahead later state behind` says that `state` has passed a part of what
`behind` has still to pass, with the pieces `later` to come for both. -/
structure Resumable (Ahead : List α → σ → σ → Prop) : Prop where
  agrees :
    ∀ {later state behind}, Ahead later state behind →
      scanner.scan state = scanner.scan behind
  passes :
    ∀ {later state behind}, Ahead later state behind →
      scanner.waits (scanner.scan state).1 →
        Ahead later (scanner.scan state).2 behind
  moves :
    ∀ {piece later state behind}, Ahead (piece :: later) state behind →
      Ahead later (scanner.more state piece) (scanner.more behind piece)
  settles :
    ∀ {piece later state behind}, Ahead (piece :: later) state behind →
      ¬ scanner.waits (scanner.scan behind).1 →
        scanner.scan (scanner.more behind piece) =
          ((scanner.scan behind).1,
            scanner.more (scanner.scan behind).2 piece)

/-- The pieces that a resumed scan adds, and those that it does not need. -/
structure Splits
    (pieces : List α) (state behind : σ) (added unused : List α) : Prop where
  pieces_eq : pieces = added ++ unused
  resume_eq :
    scanner.resume pieces state =
      scanner.scan (added.foldl scanner.more behind)
  unused_eq_nil :
    scanner.waits (scanner.resume pieces state).1 → unused = []

variable {scanner} {Ahead : List α → σ → σ → Prop}
  {pieces : List α} {state behind : σ}

/-- More input does not change a verdict that does not wait. -/
theorem Resumable.scan_foldl_more
    (resumable : scanner.Resumable Ahead)
    (ahead : Ahead pieces state behind)
    (settled : ¬ scanner.waits (scanner.scan behind).1) :
    scanner.scan (pieces.foldl scanner.more behind) =
      ((scanner.scan behind).1,
        pieces.foldl scanner.more (scanner.scan behind).2) := by
  induction pieces generalizing state behind with
  | nil => rfl
  | cons piece later inductionHypothesis =>
      have scanned := resumable.settles ahead settled
      have settledLater :
          ¬ scanner.waits
            (scanner.scan (scanner.more behind piece)).1 := by
        rw [scanned]
        exact settled
      have last := inductionHypothesis (resumable.moves ahead) settledLater
      rw [scanned] at last
      exact last

theorem Resumable.splits
    (resumable : scanner.Resumable Ahead)
    (ahead : Ahead pieces state behind) :
    ∃ added unused, scanner.Splits pieces state behind added unused := by
  induction pieces generalizing state behind with
  | nil =>
      exact
        ⟨[], [],
          { pieces_eq := rfl
            resume_eq := resumable.agrees ahead
            unused_eq_nil := fun _ => rfl }⟩
  | cons piece later inductionHypothesis =>
      by_cases waiting : scanner.waits (scanner.scan state).1 = true
      · have resumed :
            scanner.resume (piece :: later) state =
              scanner.resume later
                (scanner.more (scanner.scan state).2 piece) := by
          rw [resume, if_pos waiting]
        have passed := resumable.passes ahead waiting
        obtain ⟨added, unused, split⟩ :=
          inductionHypothesis (resumable.moves passed)
        exact
          ⟨piece :: added, unused,
            { pieces_eq := congrArg (piece :: ·) split.pieces_eq
              resume_eq := resumed.trans split.resume_eq
              unused_eq_nil := by
                rw [resumed]
                exact split.unused_eq_nil }⟩
      · have resumed :
            scanner.resume (piece :: later) state = scanner.scan state := by
          rw [resume, if_neg waiting]
        exact
          ⟨[], piece :: later,
            { pieces_eq := rfl
              resume_eq := resumed.trans (resumable.agrees ahead)
              unused_eq_nil := by
                rw [resumed]
                exact fun waits => absurd waits waiting }⟩

theorem Resumable.foldl_moves
    (resumable : scanner.Resumable Ahead) {added later : List α}
    (ahead : Ahead (added ++ later) state behind) :
    Ahead later (added.foldl scanner.more state)
      (added.foldl scanner.more behind) := by
  induction added generalizing state behind with
  | nil => exact ahead
  | cons piece added inductionHypothesis =>
      exact inductionHypothesis (resumable.moves ahead)

/-- A single scan of all the pieces ends with the same verdict, and leaves the
state of the resumed scan with the pieces that this one does not need. -/
theorem Resumable.scan_all
    (resumable : scanner.Resumable Ahead)
    (ahead : Ahead pieces state behind) {added unused : List α}
    (split : scanner.Splits pieces state behind added unused) :
    scanner.scan (pieces.foldl scanner.more behind) =
      ((scanner.resume pieces state).1,
        unused.foldl scanner.more (scanner.resume pieces state).2) := by
  rw [split.pieces_eq] at ahead
  have aheadLater := resumable.foldl_moves ahead
  rw [split.pieces_eq, List.foldl_append, ← split.pieces_eq,
    split.resume_eq]
  by_cases waiting :
      scanner.waits (scanner.resume pieces state).1 = true
  · rw [split.unused_eq_nil waiting]
    rfl
  · rw [split.resume_eq] at waiting
    exact resumable.scan_foldl_more aheadLater waiting

end Scanner

end LinuxNet.Resumption
