import Mathlib.Logic.Function.Basic
import LinuxNet.Lib.StepSystem

/-!
# Events that were fetched together

A loop fetches events in batches, at most one for each watched number, and
handles them one after the other.  While it does so it may watch further
numbers, and it forgets a number only as it handles the event of that number.
So no event of a batch is ever stale, although a number may have been
forgotten and watched anew since the batch was fetched.
-/

namespace LinuxNet.EventBatch

open LinuxNet.StepSystem

/-- The watched numbers, and the events that are still to be handled. -/
structure Batch where
  watched : Nat → Bool
  pending : List Nat

inductive Moves : Batch → Batch → Prop
  | stays (batch : Batch) : Moves batch batch
  | fetches {watched : Nat → Bool} {ready : List Nat}
      (distinct : ready.Nodup)
      (reported : ∀ fd ∈ ready, watched fd = true) :
      Moves ⟨watched, []⟩ ⟨watched, ready⟩
  | watches (watched : Nat → Bool) (fd : Nat) (pending : List Nat) :
      Moves ⟨watched, pending⟩
        ⟨Function.update watched fd true, pending⟩
  | handles (watched : Nat → Bool) (fd : Nat) (later : List Nat) :
      Moves ⟨watched, fd :: later⟩ ⟨watched, later⟩
  | forgets (watched : Nat → Bool) (fd : Nat) (later : List Nat) :
      Moves ⟨watched, fd :: later⟩
        ⟨Function.update watched fd false, later⟩

/-- Each event is for a watched number of its own. -/
structure Fresh (batch : Batch) : Prop where
  distinct : batch.pending.Nodup
  watched : ∀ fd ∈ batch.pending, batch.watched fd = true

theorem fresh_nil (watched : Nat → Bool) : Fresh ⟨watched, []⟩ :=
  ⟨List.nodup_nil, nofun⟩

theorem Fresh.move
    {before after : Batch} (fresh : Fresh before)
    (moves : Moves before after) : Fresh after := by
  cases moves with
  | stays => exact fresh
  | fetches distinct reported => exact ⟨distinct, reported⟩
  | watches watched fd pending =>
      refine ⟨fresh.distinct, fun other member => ?_⟩
      by_cases same : other = fd
      · rw [same]
        exact Function.update_self fd true watched
      · have before := fresh.watched other member
        simpa only [Function.update_of_ne same] using before
  | handles watched fd later =>
      exact
        ⟨(List.nodup_cons.mp fresh.distinct).2,
          fun other member =>
            fresh.watched other (List.mem_cons_of_mem fd member)⟩
  | forgets watched fd later =>
      obtain ⟨once, distinct⟩ := List.nodup_cons.mp fresh.distinct
      refine ⟨distinct, fun other member => ?_⟩
      have different : other ≠ fd := by
        rintro rfl
        exact once member
      have before :=
        fresh.watched other (List.mem_cons_of_mem fd member)
      simpa only [Function.update_of_ne different] using before

/-- No event is added but by fetching, so what is pending was pending. -/
theorem Moves.pending_suffix
    {before after : Batch} (moves : Moves before after)
    (busy : before.pending ≠ []) : after.pending <:+ before.pending := by
  cases moves with
  | stays => exact List.suffix_refl _
  | fetches => exact absurd rfl busy
  | watches watched fd pending => exact List.suffix_refl _
  | handles watched fd later => exact List.suffix_cons fd later
  | forgets watched fd later => exact List.suffix_cons fd later

end LinuxNet.EventBatch
