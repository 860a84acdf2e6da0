import Mathlib.Data.List.Count
import Mathlib.Data.List.Forall2
import Mathlib.Data.List.Nodup
import Mathlib.Data.List.Pairwise

/-!
# A scan that a counter ends

A loop over an array handles the items that count, counts down for each of
them and leaves when its counter reaches zero.  Handling an item touches
nothing but the item, has effects, and may end the program.  The counter is
meant to be the number of items that still need handling.  Where exactly
those count, the loop handles all of them; where others count as well, it
handles the first ones only.
-/

namespace LinuxNet.CountedScan

variable {α β : Type}

/-- What stands in the place of an item that was handled, the effects, and
whether the program ends. -/
structure Handled (α β : Type) where
  item : α
  effects : List β
  ends : Bool

structure Scanned (α β : Type) where
  items : List α
  effects : List β
  ended : Bool

def scan (counts : α → Bool) (handle : α → Handled α β) :
    Int → List α → Scanned α β
  | _, [] => ⟨[], [], false⟩
  | left, item :: items =>
      if counts item then
        let handled := handle item
        if handled.ends then
          ⟨handled.item :: items, handled.effects, true⟩
        else if left - 1 = 0 then
          ⟨handled.item :: items, handled.effects, false⟩
        else
          let rest := scan counts handle (left - 1) items
          ⟨handled.item :: rest.items, handled.effects ++ rest.effects,
            rest.ended⟩
      else
        let rest := scan counts handle left items
        ⟨item :: rest.items, rest.effects, rest.ended⟩

/-- The items up to the first one that ends the program. -/
def untilEnd (ends : α → Bool) : List α → List α
  | [] => []
  | item :: items =>
      if ends item then [item] else item :: untilEnd ends items

variable {counts : α → Bool} {handle : α → Handled α β}

section OneTurn

variable {item : α}

theorem scan_of_not_counts
    (skipped : ¬ counts item = true) (left : Int) (items : List α) :
    scan counts handle left (item :: items) =
      ⟨item :: (scan counts handle left items).items,
        (scan counts handle left items).effects,
        (scan counts handle left items).ended⟩ := by
  rw [scan, if_neg skipped]

theorem scan_of_ends
    (isCounted : counts item = true) (ends : (handle item).ends = true)
    (left : Int) (items : List α) :
    scan counts handle left (item :: items) =
      ⟨(handle item).item :: items, (handle item).effects, true⟩ := by
  rw [scan, if_pos isCounted]
  exact if_pos ends

theorem scan_of_last
    (isCounted : counts item = true) (continues : (handle item).ends = false)
    (items : List α) :
    scan counts handle (0 + 1 : Nat) (item :: items) =
      ⟨(handle item).item :: items, (handle item).effects, false⟩ := by
  rw [scan, if_pos isCounted]
  simp only [continues, Bool.false_eq_true, if_false]
  exact if_pos rfl

theorem scan_of_more
    (isCounted : counts item = true) (continues : (handle item).ends = false)
    (count : Nat) (items : List α) :
    scan counts handle (count + 1 + 1 : Nat) (item :: items) =
      ⟨(handle item).item ::
          (scan counts handle (count + 1 : Nat) items).items,
        (handle item).effects ++
          (scan counts handle (count + 1 : Nat) items).effects,
        (scan counts handle (count + 1 : Nat) items).ended⟩ := by
  have lower : ((count + 1 + 1 : Nat) : Int) - 1 = (count + 1 : Nat) := by
    omega
  have nonzero : ((count + 1 : Nat) : Int) ≠ 0 := by omega
  rw [scan, if_pos isCounted, lower]
  simp only [continues, Bool.false_eq_true, if_false, if_neg nonzero]

end OneTurn

/-- The loop handles the first items that count, as many as its counter
says, up to one that ends the program. -/
theorem scan_effects
    (counts : α → Bool) (handle : α → Handled α β) (count : Nat)
    (items : List α) :
    (scan counts handle (count + 1 : Nat) items).effects =
      (untilEnd (fun item => (handle item).ends)
        ((items.filter counts).take (count + 1))).flatMap
          fun item => (handle item).effects := by
  induction items generalizing count with
  | nil => rfl
  | cons item items inductionHypothesis =>
      by_cases isCounted : counts item = true
      · rw [List.filter_cons_of_pos isCounted, List.take_succ_cons, untilEnd]
        cases ends : (handle item).ends with
        | true =>
            rw [scan_of_ends isCounted ends, if_pos rfl,
              List.flatMap_singleton]
        | false =>
            rw [if_neg Bool.false_ne_true, List.flatMap_cons]
            cases count with
            | zero =>
                rw [scan_of_last isCounted ends]
                exact (List.append_nil _).symm
            | succ count =>
                rw [scan_of_more isCounted ends, ← inductionHypothesis count]
      · rw [scan_of_not_counts isCounted, List.filter_cons_of_neg isCounted]
        exact inductionHypothesis count

/-- Every item stays in its place, handled or as it was. -/
theorem forall₂_scan
    {relation : α → α → Prop} (same : ∀ item, relation item item)
    (handled : ∀ item, relation item (handle item).item) (left : Int)
    (items : List α) :
    List.Forall₂ relation items (scan counts handle left items).items := by
  induction items generalizing left with
  | nil => exact .nil
  | cons item items inductionHypothesis =>
      have unchanged : List.Forall₂ relation items items :=
        List.forall₂_same.mpr fun other _ => same other
      rw [scan]
      split
      · dsimp only
        split
        · exact .cons (handled item) unchanged
        · split
          · exact .cons (handled item) unchanged
          · exact .cons (handled item) (inductionHypothesis (left - 1))
      · exact .cons (same item) (inductionHypothesis left)

/-- A counter that is large enough never ends the loop. -/
theorem scan_of_enough
    (continues : ∀ item, (handle item).ends = false) (count : Nat)
    (items : List α) (enough : items.countP counts ≤ count + 1) :
    scan counts handle (count + 1 : Nat) items =
      ⟨items.map fun item =>
          if counts item then (handle item).item else item,
        (items.filter counts).flatMap fun item => (handle item).effects,
        false⟩ := by
  induction items generalizing count with
  | nil => rfl
  | cons item items inductionHypothesis =>
      by_cases isCounted : counts item = true
      · rw [List.countP_cons_of_pos isCounted] at enough
        rw [List.filter_cons_of_pos isCounted, List.map_cons,
          if_pos isCounted, List.flatMap_cons]
        cases count with
        | zero =>
            have none : ∀ other ∈ items, ¬ counts other = true :=
              List.countP_eq_zero.mp (by omega)
            have unchanged :
                (items.map fun item =>
                  if counts item then (handle item).item else item) =
                    items.map id :=
              List.map_congr_left fun other member => if_neg (none other member)
            rw [scan_of_last isCounted (continues item), unchanged,
              List.map_id, List.filter_eq_nil_iff.mpr none, List.flatMap_nil,
              List.append_nil]
        | succ count =>
            rw [scan_of_more isCounted (continues item),
              inductionHypothesis count (by omega)]
      · rw [List.countP_cons_of_neg isCounted] at enough
        rw [scan_of_not_counts isCounted, List.filter_cons_of_neg isCounted,
          inductionHypothesis count enough, List.map_cons,
          if_neg isCounted]

theorem length_le_of_wanted_mem
    {wanted : α → Bool} {items : List α} (nodup : items.Nodup) (count : Nat)
    (reached : ∀ item ∈ items, wanted item = true → item ∈ items.take count) :
    items.countP wanted ≤ count := by
  have subset : items.filter wanted ⊆ items.take count := by
    intro item member
    obtain ⟨member, isWanted⟩ := List.mem_filter.mp member
    exact reached item member isWanted
  have shorter :=
    (List.subperm_of_subset (nodup.filter wanted) subset).length_le
  rw [List.countP_eq_length_filter]
  exact Nat.le_trans shorter (List.length_take_le count items)

/-- Where the first items, as many as are wanted, hold every wanted one, no
unwanted item comes before a wanted one. -/
theorem pairwise_of_wanted_mem_take
    {wanted : α → Bool} {items : List α} (nodup : items.Nodup)
    (reached :
      ∀ item ∈ items, wanted item = true →
        item ∈ items.take (items.countP wanted)) :
    items.Pairwise fun first second =>
      wanted second = true → wanted first = true := by
  induction items with
  | nil => exact List.Pairwise.nil
  | cons item items inductionHypothesis =>
      obtain ⟨notMember, nodupRest⟩ := List.nodup_cons.mp nodup
      have later :
          ∀ {less : Nat},
            (∀ other ∈ item :: items, wanted other = true →
              other ∈ (item :: items).take (less + 1)) →
              ∀ other ∈ items, wanted other = true →
                other ∈ items.take less := by
        intro less reached other member otherWanted
        rcases List.mem_cons.mp
            (reached other (List.mem_cons_of_mem item member) otherWanted)
          with rfl | later
        · exact absurd member notMember
        · exact later
      rw [List.pairwise_cons]
      by_cases isWanted : wanted item = true
      · rw [List.countP_cons_of_pos isWanted] at reached
        exact
          ⟨fun _ _ _ => isWanted,
            inductionHypothesis nodupRest (later reached)⟩
      · rw [List.countP_cons_of_neg isWanted] at reached
        have none : ∀ other ∈ items, ¬ wanted other = true := by
          apply List.countP_eq_zero.mp
          cases count : items.countP wanted with
          | zero => rfl
          | succ less =>
              rw [count] at reached
              have bound := length_le_of_wanted_mem nodupRest less
                (later reached)
              omega
        refine ⟨fun other member wantedLater => ?_, ?_⟩
        · exact absurd wantedLater (none other member)
        · exact List.pairwise_of_forall_mem_list fun _ _ other member
            wantedLater => absurd wantedLater (none other member)

theorem take_countP_eq_filter
    {wanted : α → Bool} {items : List α}
    (inOrder :
      items.Pairwise fun first second =>
        wanted second = true → wanted first = true) :
    items.take (items.countP wanted) = items.filter wanted := by
  induction items with
  | nil => rfl
  | cons item items inductionHypothesis =>
      obtain ⟨first, rest⟩ := List.pairwise_cons.mp inOrder
      by_cases isWanted : wanted item = true
      · rw [List.countP_cons_of_pos isWanted, List.take_succ_cons,
          List.filter_cons_of_pos isWanted, inductionHypothesis rest]
      · have none : ∀ other ∈ items, ¬ wanted other = true :=
          fun other member otherWanted =>
            isWanted (first other member otherWanted)
        rw [List.countP_cons_of_neg isWanted, List.countP_eq_zero.mpr none,
          List.take_zero, List.filter_cons_of_neg isWanted,
          List.filter_eq_nil_iff.mpr none]

/-! ## Reaching the end -/

theorem untilEnd_subset
    (ends : α → Bool) (items : List α) : untilEnd ends items ⊆ items := by
  induction items with
  | nil => exact List.Subset.refl []
  | cons item items inductionHypothesis =>
      rw [untilEnd]
      split
      · exact List.cons_subset_cons item (List.nil_subset items)
      · exact List.cons_subset_cons item inductionHypothesis

theorem untilEnd_of_none
    {ends : α → Bool} {items : List α} (none : items.any ends = false) :
    untilEnd ends items = items := by
  induction items with
  | nil => rfl
  | cons item items inductionHypothesis =>
      rw [List.any_cons, Bool.or_eq_false_iff] at none
      rw [untilEnd, none.1, if_neg Bool.false_ne_true,
        inductionHypothesis none.2]

theorem exists_mem_untilEnd
    {ends : α → Bool} {items : List α} (one : items.any ends = true) :
    ∃ item ∈ untilEnd ends items, ends item = true := by
  induction items with
  | nil => cases one
  | cons item items inductionHypothesis =>
      rw [untilEnd]
      cases isEnd : ends item with
      | true => exact ⟨item, List.mem_singleton_self item, isEnd⟩
      | false =>
          rw [List.any_cons, isEnd, Bool.false_or] at one
          obtain ⟨other, member, otherEnds⟩ := inductionHypothesis one
          rw [if_neg Bool.false_ne_true]
          exact ⟨other, List.mem_cons_of_mem item member, otherEnds⟩

def visited
    (counts : α → Bool) (handle : α → Handled α β) (count : Nat)
    (items : List α) : List α :=
  untilEnd (fun item => (handle item).ends) ((items.filter counts).take count)

theorem visited_of_not_counts
    {item : α} (skipped : ¬ counts item = true) (count : Nat)
    (items : List α) :
    visited counts handle count (item :: items) =
      visited counts handle count items := by
  unfold visited
  rw [List.filter_cons_of_neg skipped]

theorem visited_of_ends
    {item : α} (isCounted : counts item = true)
    (ends : (handle item).ends = true) (count : Nat) (items : List α) :
    visited counts handle (count + 1) (item :: items) = [item] := by
  unfold visited
  rw [List.filter_cons_of_pos isCounted, List.take_succ_cons, untilEnd,
    if_pos ends]

theorem visited_of_continues
    {item : α} (isCounted : counts item = true)
    (continues : (handle item).ends = false) (count : Nat) (items : List α) :
    visited counts handle (count + 1) (item :: items) =
      item :: visited counts handle count items := by
  unfold visited
  rw [List.filter_cons_of_pos isCounted, List.take_succ_cons, untilEnd,
    continues, if_neg Bool.false_ne_true]

theorem visited_zero (items : List α) :
    visited counts handle 0 items = [] := by
  unfold visited
  rw [List.take_zero]
  rfl

/-- The loop replaces the items that it handles. -/
theorem scan_items
    [DecidableEq α] {items : List α} (nodup : items.Nodup) (count : Nat) :
    (scan counts handle (count + 1 : Nat) items).items =
      items.map fun item =>
        if item ∈ visited counts handle (count + 1) items then
          (handle item).item
        else
          item := by
  induction items generalizing count with
  | nil => rfl
  | cons item items inductionHypothesis =>
      obtain ⟨notMember, nodupRest⟩ := List.nodup_cons.mp nodup
      have apart : ∀ other ∈ items, other ≠ item :=
        fun other member same => notMember (same ▸ member)
      have alone :
          (items.map fun other =>
            if other ∈ [item] then (handle other).item else other) =
              items := by
        refine (List.map_congr_left fun other member => ?_).trans
          (List.map_id items)
        exact if_neg fun same => apart other member (List.mem_singleton.mp same)
      rw [List.map_cons]
      by_cases isCounted : counts item = true
      · cases ends : (handle item).ends with
        | true =>
            rw [scan_of_ends isCounted ends, visited_of_ends isCounted ends,
              alone, if_pos (List.mem_singleton_self item)]
        | false =>
            rw [visited_of_continues isCounted ends]
            cases count with
            | zero =>
                rw [scan_of_last isCounted ends, visited_zero, alone,
                  if_pos (List.mem_singleton_self item)]
            | succ count =>
                rw [scan_of_more isCounted ends,
                  inductionHypothesis nodupRest count,
                  if_pos List.mem_cons_self]
                refine congrArg _ (List.map_congr_left fun other member => ?_)
                simp only [List.mem_cons, apart other member, false_or]
      · have notVisited :
            item ∉ visited counts handle (count + 1) items := by
          intro member
          exact
            notMember
              (List.mem_of_mem_filter
                (List.mem_of_mem_take (untilEnd_subset _ _ member)))
        rw [scan_of_not_counts isCounted, visited_of_not_counts isCounted,
          inductionHypothesis nodupRest count, if_neg notVisited]

theorem scan_ended (count : Nat) (items : List α) :
    (scan counts handle (count + 1 : Nat) items).ended =
      (visited counts handle (count + 1) items).any
        fun item => (handle item).ends := by
  induction items generalizing count with
  | nil => rfl
  | cons item items inductionHypothesis =>
      by_cases isCounted : counts item = true
      · cases ends : (handle item).ends with
        | true =>
            rw [scan_of_ends isCounted ends, visited_of_ends isCounted ends,
              List.any_cons, ends, Bool.true_or]
        | false =>
            rw [visited_of_continues isCounted ends, List.any_cons, ends,
              Bool.false_or]
            cases count with
            | zero =>
                rw [scan_of_last isCounted ends, visited_zero]
                rfl
            | succ count =>
                rw [scan_of_more isCounted ends, inductionHypothesis count]
      · rw [scan_of_not_counts isCounted, visited_of_not_counts isCounted,
          inductionHypothesis count]

/-- Every item is reached exactly when none but the last ends the program. -/
theorem mem_untilEnd_iff
    (ends : α → Bool) {items : List α} (nodup : items.Nodup) :
    (∀ item ∈ items, item ∈ untilEnd ends items) ↔
      items.Pairwise fun first _ => ends first = false := by
  induction items with
  | nil => simp
  | cons item items inductionHypothesis =>
      obtain ⟨notMember, nodupRest⟩ := List.nodup_cons.mp nodup
      rw [List.pairwise_cons, ← inductionHypothesis nodupRest, untilEnd]
      cases isEnd : ends item with
      | true =>
          rw [if_pos rfl]
          constructor
          · intro reached
            have none : ∀ other ∈ items, False := by
              intro other member
              have same :=
                List.mem_singleton.mp
                  (reached other (List.mem_cons_of_mem item member))
              exact notMember (same ▸ member)
            exact
              ⟨fun other member => (none other member).elim,
                fun other member => (none other member).elim⟩
          · rintro ⟨none, _⟩ other member
            rcases List.mem_cons.mp member with rfl | later
            · exact List.mem_singleton_self _
            · exact absurd (none other later) (Ne.symm Bool.false_ne_true)
      | false =>
          rw [if_neg Bool.false_ne_true]
          constructor
          · intro reached
            refine ⟨fun _ _ => rfl, fun other member => ?_⟩
            rcases List.mem_cons.mp
                (reached other (List.mem_cons_of_mem item member))
              with rfl | later
            · exact absurd member notMember
            · exact later
          · rintro ⟨_, reached⟩ other member
            rcases List.mem_cons.mp member with rfl | later
            · exact List.mem_cons_self
            · exact List.mem_cons_of_mem item (reached other later)

theorem untilEnd_map
    {γ : Type} (ends : α → Bool) (name : γ → α) (items : List γ) :
    untilEnd ends (items.map name) =
      (untilEnd (fun item => ends (name item)) items).map name := by
  induction items with
  | nil => rfl
  | cons item items inductionHypothesis =>
      rw [List.map_cons, untilEnd, untilEnd, inductionHypothesis]
      split <;> rfl

theorem untilEnd_congr
    {ends other : α → Bool} {items : List α}
    (same : ∀ item ∈ items, ends item = other item) :
    untilEnd ends items = untilEnd other items := by
  induction items with
  | nil => rfl
  | cons item items inductionHypothesis =>
      rw [untilEnd, untilEnd, same item List.mem_cons_self,
        inductionHypothesis fun later member =>
          same later (List.mem_cons_of_mem item member)]

/-- The loop reaches every wanted item exactly when each item in front of a
wanted one is wanted as well and does not end the program. -/
theorem reaches_wanted_iff
    (wanted ends : α → Bool) {items : List α} (nodup : items.Nodup) :
    (∀ item ∈ items, wanted item = true →
        item ∈ untilEnd ends (items.take (items.countP wanted))) ↔
      items.Pairwise fun first second =>
        wanted second = true →
          wanted first = true ∧ ends first = false := by
  constructor
  · intro reached
    have inOrder :=
      pairwise_of_wanted_mem_take nodup fun item member isWanted =>
        untilEnd_subset ends _ (reached item member isWanted)
    rw [take_countP_eq_filter inOrder] at reached
    have goesOn :=
      (mem_untilEnd_iff ends (nodup.filter wanted)).mp fun item member =>
        reached item (List.mem_filter.mp member).1
          (List.mem_filter.mp member).2
    rw [List.pairwise_filter] at goesOn
    exact (inOrder.and goesOn).imp fun both isWanted =>
      ⟨both.1 isWanted, both.2 (both.1 isWanted) isWanted⟩
  · intro ordered
    have inOrder := ordered.imp fun both isWanted => (both isWanted).1
    rw [take_countP_eq_filter inOrder]
    intro item member isWanted
    apply (mem_untilEnd_iff ends (nodup.filter wanted)).mpr
    · rw [List.pairwise_filter]
      exact ordered.imp fun both _ isWanted => (both isWanted).2
    · exact List.mem_filter.mpr ⟨member, isWanted⟩

/-- In an increasing list the order of two members is the order of their
places. -/
theorem pairwise_iff_of_increasing
    {items : List Nat} {relation : Nat → Nat → Prop}
    (increasing : items.Pairwise (· < ·)) :
    items.Pairwise relation ↔
      ∀ first second, first ∈ items → second ∈ items → first < second →
        relation first second := by
  constructor
  · intro ordered first second firstMember secondMember less
    have either :
        items.Pairwise fun left right =>
          (left < right → relation left right) ∧
            (right < left → relation right left) :=
      (increasing.and ordered).imp fun both =>
        ⟨fun _ => both.2, fun more => absurd both.1 (Nat.lt_asymm more)⟩
    have symmetric :
        Std.Symm fun left right =>
          (left < right → relation left right) ∧
            (right < left → relation right left) :=
      ⟨fun _ _ both => ⟨both.2, both.1⟩⟩
    exact (either.forall firstMember secondMember (Nat.ne_of_lt less)).1 less
  · intro ordered
    exact (List.Pairwise.and_mem.mp increasing).imp fun both =>
      ordered _ _ both.1 both.2.1 both.2.2

end LinuxNet.CountedScan
