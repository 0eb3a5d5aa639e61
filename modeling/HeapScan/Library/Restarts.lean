import Mathlib.Algebra.Order.Monoid.Unbundled.Basic
import Mathlib.Algebra.Ring.Nat
import Mathlib.Data.List.Basic

/-!
# Repairing the first item and starting again

A loop goes through a list of items.  At the first item that is not settled it changes the
state and starts again from the first item; it ends when all items are settled.  A change
may unsettle the items before.  The loop ends all the same when every change that does not
use up some of a weight settles its item for good: the items before stay held, in a sense
that only changes using up weight can end.
-/

namespace Restarts

universe u v

variable {State : Type u} {Item : Type v}

/-- The loop changes the state `count` times and then ends. -/
inductive Repairs (items : List Item) (settled : State → Item → Prop)
    (repair : State → Item → State) : ℕ → State → State → Prop where
  | done {state : State} (all : ∀ item ∈ items, settled state item) :
      Repairs items settled repair 0 state state
  | again {state final : State} {before after : List Item} {item : Item} {count : ℕ}
      (split : items = before ++ item :: after)
      (settledBefore : ∀ earlier ∈ before, settled state earlier)
      (unsettled : ¬ settled state item)
      (rest : Repairs items settled repair count (repair state item) final) :
      Repairs items settled repair (count + 1) state final

/-- What makes the loop end. -/
structure Progress (items : List Item) (settled held : State → Item → Prop)
    (repair : State → Item → State) (weight : State → ℕ) (invariant : State → Prop) : Prop where
  keeps : ∀ state item, item ∈ items → invariant state → ¬ settled state item →
    invariant (repair state item)
  advances : ∀ state before item after, items = before ++ item :: after → invariant state →
    (∀ earlier ∈ before, settled state earlier) → ¬ settled state item →
      weight (repair state item) < weight state ∨
        weight (repair state item) ≤ weight state ∧ ¬ held state item ∧
          ∀ earlier ∈ before ++ [item], held (repair state item) earlier

variable {items : List Item} {settled held : State → Item → Prop}
  {repair : State → Item → State} {weight : State → ℕ} {invariant : State → Prop}

theorem Repairs.all_settled {count : ℕ} {state final : State}
    (repairs : Repairs items settled repair count state final) :
    ∀ item ∈ items, settled final item := by
  induction repairs with
  | done all => exact all
  | again _ _ _ _ step => exact step

/-- The first item of a list that does not have a property. -/
theorem exists_first {holds : Item → Prop} (fails : ¬ ∀ item ∈ items, holds item) :
    ∃ before item after, items = before ++ item :: after ∧
      (∀ earlier ∈ before, holds earlier) ∧ ¬ holds item := by
  induction items with
  | nil => simp at fails
  | cons first rest step =>
      by_cases here : holds first
      · have restFails : ¬ ∀ item ∈ rest, holds item := fun all =>
          fails (List.forall_mem_cons.mpr ⟨here, all⟩)
        rcases step restFails with ⟨before, item, after, rfl, holdsBefore, failing⟩
        exact ⟨first :: before, item, after, rfl, List.forall_mem_cons.mpr ⟨here, holdsBefore⟩,
          failing⟩
      · exact ⟨[], first, rest, rfl, by simp, here⟩

theorem Progress.repairs_of_held (progress : Progress items settled held repair weight invariant)
    {limit left : ℕ} {state : State} (holds : invariant state) (light : weight state ≤ limit)
    (heldSoFar : ∀ item ∈ items.take (items.length - left), held state item) :
    ∃ count final, count ≤ limit * (items.length + 1) + left ∧ invariant final ∧
      Repairs items settled repair count state final := by
  generalize measured : limit * (items.length + 1) + left = measure
  induction measure using Nat.strong_induction_on generalizing limit left state with
  | h measure step =>
      by_cases all : ∀ item ∈ items, settled state item
      · exact ⟨0, state, Nat.zero_le _, holds, .done all⟩
      rcases exists_first all with ⟨before, item, after, split, settledBefore, unsettled⟩
      have listed : item ∈ items := by simp [split]
      have counted : items.length = before.length + (after.length + 1) := by simp [split]
      have kept := progress.keeps state item listed holds unsettled
      suffices ∃ limit' left', weight (repair state item) ≤ limit' ∧
          limit' * (items.length + 1) + left' < measure ∧
          ∀ earlier ∈ items.take (items.length - left'), held (repair state item) earlier by
        rcases this with ⟨limit', left', lighter, smaller, heldNow⟩
        rcases step _ smaller kept lighter heldNow rfl with ⟨count, final, bound, holds', rest⟩
        exact ⟨count + 1, final, by omega, holds', .again split settledBefore unsettled rest⟩
      rcases progress.advances state before item after split holds settledBefore unsettled with
        lighter | ⟨asLight, unheld, heldNow⟩
      · -- Weight is used up, so everything may have to be settled again.
        rcases limit with _ | limit
        · omega
        refine ⟨limit, items.length, by omega, ?_, by simp⟩
        rw [Nat.succ_mul] at measured
        omega
      · -- The item was not held, so the items held so far stand before it.
        have beyond : items.length - left ≤ before.length := by
          refine Nat.not_lt.mp fun inside => unheld (heldSoFar item ?_)
          rw [split, List.take_append, List.mem_append]
          right
          rcases Nat.exists_eq_succ_of_ne_zero (Nat.sub_ne_zero_of_lt (split ▸ inside)) with
            ⟨more, isMore⟩
          rw [isMore]
          exact List.mem_cons_self
        refine ⟨limit, after.length, by omega, by omega, ?_⟩
        have firstPart : items.take (items.length - after.length) = before ++ [item] := by
          have isLength : items.length - after.length = (before ++ [item]).length := by
            simp only [List.length_append, List.length_singleton]
            omega
          have parts : items = (before ++ [item]) ++ after := by simp [split]
          rw [isLength, parts, List.take_left]
        rw [firstPart]
        exact heldNow

/-- The loop ends, after a number of changes that the weight and the items bound. -/
theorem Progress.exists_repairs (progress : Progress items settled held repair weight invariant)
    {state : State} (holds : invariant state) :
    ∃ count final, count ≤ weight state * (items.length + 1) + items.length ∧ invariant final ∧
      Repairs items settled repair count state final :=
  progress.repairs_of_held holds (Nat.le_refl _) (by simp)

end Restarts
