import LinuxNet.Lib.DrainLoop

/-!
# A stream that is announced once

The reading end of a stream comes onto a ready list when something arrives,
and leaves it when it is reported, however much has been left unread by then.
A reader that goes on until it finds nothing never sleeps on unread items; the
list is the bit of a worker that drains.
-/

namespace LinuxNet.EdgeTriggered

open LinuxNet.DrainLoop

variable {α : Type}

structure Source (α : Type) where
  consumed : List α
  unread : List α
  ended : Bool
  /-- The stream has ended by an error that no read has returned yet. -/
  broken : Bool
  /-- The stream is on the ready list. -/
  ready : Bool
  deriving DecidableEq, Repr

namespace Source

def fresh : Source α :=
  ⟨[], [], false, false, false⟩

def sent (source : Source α) : List α :=
  source.consumed ++ source.unread

def arrive (source : Source α) (items : List α) : Option (Source α) :=
  if source.ended = true ∨ items = [] then
    none
  else
    some { source with unread := source.unread ++ items, ready := true }

def finish (source : Source α) : Option (Source α) :=
  if source.ended = true then
    none
  else
    some { source with ended := true, ready := true }

/-- The stream ends by an error. -/
def fail (source : Source α) : Option (Source α) :=
  if source.ended = true then
    none
  else
    some { source with ended := true, broken := true, ready := true }

def mend (source : Source α) : Source α :=
  { source with broken := false }

/-- A read may fail, now or later. -/
def MayFail (source : Source α) : Prop :=
  source.ended = false ∨ source.broken = true

def Readable (source : Source α) : Prop :=
  source.unread ≠ [] ∨ source.ended = true

instance [DecidableEq α] (source : Source α) :
    Decidable source.Readable := by
  unfold Readable
  infer_instance

def report [DecidableEq α] (source : Source α) : Option (Source α) :=
  if source.ready = true ∧ source.Readable then
    some { source with ready := false }
  else
    none

/-- The stream leaves the list without a report, for want of anything to
report. -/
def settle [DecidableEq α] (source : Source α) : Option (Source α) :=
  if source.ready = true ∧ ¬ source.Readable then
    some { source with ready := false }
  else
    none

def take (source : Source α) (count : Nat) : Source α :=
  { source with
    consumed := source.consumed ++ source.unread.take count
    unread := source.unread.drop count }

section

variable {source later : Source α} {items : List α}

theorem arrive_eq_some (arrived : source.arrive items = some later) :
    source.ended = false ∧ items ≠ [] ∧
      later =
        { source with unread := source.unread ++ items, ready := true } := by
  obtain ⟨neither, isLater⟩ := Option.ite_none_left_eq_some.mp arrived
  cases isLater
  obtain ⟨running, nonempty⟩ := not_or.mp neither
  exact ⟨Bool.eq_false_iff.mpr running, nonempty, rfl⟩

theorem finish_eq_some (finished : source.finish = some later) :
    source.ended = false ∧
      later = { source with ended := true, ready := true } := by
  obtain ⟨running, isLater⟩ := Option.ite_none_left_eq_some.mp finished
  cases isLater
  exact ⟨Bool.eq_false_iff.mpr running, rfl⟩

theorem fail_eq_some (failed : source.fail = some later) :
    source.ended = false ∧
      later =
        { source with ended := true, broken := true, ready := true } := by
  obtain ⟨running, isLater⟩ := Option.ite_none_left_eq_some.mp failed
  cases isLater
  exact ⟨Bool.eq_false_iff.mpr running, rfl⟩

theorem report_eq_some [DecidableEq α]
    (reported : source.report = some later) :
    source.ready = true ∧ source.Readable ∧
      later = { source with ready := false } := by
  obtain ⟨⟨ready, readable⟩, isLater⟩ :=
    Option.ite_none_right_eq_some.mp reported
  cases isLater
  exact ⟨ready, readable, rfl⟩

theorem settle_eq_some [DecidableEq α]
    (settled : source.settle = some later) :
    source.ready = true ∧ source.unread = [] ∧ source.ended = false ∧
      later = { source with ready := false } := by
  obtain ⟨⟨ready, nothing⟩, isLater⟩ :=
    Option.ite_none_right_eq_some.mp settled
  cases isLater
  obtain ⟨unread, running⟩ := not_or.mp nothing
  exact
    ⟨ready, Classical.not_not.mp unread, Bool.eq_false_iff.mpr running, rfl⟩

/-- The unread items as work, and the list as the bit that announces it. -/
def notice (source : Source α) (worker : Worker) : Notice :=
  ⟨!source.unread.isEmpty, source.ready, worker⟩

theorem moves_arrive
    (arrived : source.arrive items = some later) (worker : Worker) :
    Moves (source.notice worker) (later.notice worker) := by
  obtain ⟨_, _, rfl⟩ := arrive_eq_some arrived
  exact .arrives _ _

theorem moves_finish
    (finished : source.finish = some later) (worker : Worker) :
    Moves (source.notice worker) (later.notice worker) := by
  obtain ⟨_, rfl⟩ := finish_eq_some finished
  exact .arrives _ _

theorem moves_fail
    (failed : source.fail = some later) (worker : Worker) :
    Moves (source.notice worker) (later.notice worker) := by
  obtain ⟨_, rfl⟩ := fail_eq_some failed
  exact .arrives _ _

theorem moves_report [DecidableEq α]
    (reported : source.report = some later) :
    Moves (source.notice .away) (later.notice .drains) := by
  obtain ⟨ready, _, rfl⟩ := report_eq_some reported
  unfold notice
  rw [ready]
  exact .starts _

theorem announced_settle [DecidableEq α]
    (settled : source.settle = some later) (worker : Worker) :
    Announced (later.notice worker) := by
  obtain ⟨_, nothing, _, rfl⟩ := settle_eq_some settled
  intro waiting
  simp [notice, nothing] at waiting

theorem moves_take (nonempty : source.unread ≠ []) (count : Nat) :
    Moves (source.notice .drains) ((source.take count).notice .drains) := by
  have waiting : (!source.unread.isEmpty) = true := by simpa using nonempty
  unfold notice
  rw [waiting]
  exact .takes _ _

theorem moves_findsNone (nothing : source.unread = []) :
    Moves (source.notice .drains) (source.notice .leaves) := by
  unfold notice
  rw [nothing]
  exact .findsNone _

theorem moves_returns :
    Moves (source.notice .leaves) (source.notice .away) :=
  .returns _ _

/-- Nothing is unread where the reader is away and the list is empty. -/
theorem unread_eq_nil
    (announced : Announced (source.notice .away))
    (quiet : source.ready = false) : source.unread = [] := by
  cases items : source.unread with
  | nil => rfl
  | cons item items =>
      have waiting : (source.notice .away).waiting = true := by
        simp [notice, *]
      exact absurd rfl (announced.not_forgotten waiting quiet)

end

end Source

end LinuxNet.EdgeTriggered
