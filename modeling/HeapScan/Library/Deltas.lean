import Mathlib.Data.List.Chain
import Mathlib.Data.List.Pairwise

/-!
# Positions that are told from one another

The items of a list stand at increasing positions, and each tells how many positions are left
out between the item before it and itself.  When the positions move and their order is kept,
new distances put every item where its position has moved.
-/

namespace Deltas

universe u v

variable {α : Type u}

/-- The positions of the items, the first of which is not in front of `next`. -/
def positions (offset : α → ℕ) : ℕ → List α → List ℕ
  | _, [] => []
  | next, item :: rest => (next + offset item) :: positions offset (next + offset item + 1) rest

/-- The items with the distances that they have where the positions have moved. -/
def relocate (offset : α → ℕ) (update : ℕ → α → α) (move : ℕ → ℕ) : ℕ → ℕ → List α → List α
  | _, _, [] => []
  | next, newNext, item :: rest =>
      update (move (next + offset item) - newNext) item ::
        relocate offset update move (next + offset item + 1) (move (next + offset item) + 1) rest

variable {offset : α → ℕ} {update : ℕ → α → α} {move : ℕ → ℕ}

theorem le_of_mem_positions {next position : ℕ} {items : List α}
    (listed : position ∈ positions offset next items) : next ≤ position := by
  induction items generalizing next with
  | nil => simp [positions] at listed
  | cons item rest step =>
      rcases List.mem_cons.mp listed with rfl | later
      · exact Nat.le_add_right _ _
      · have bound := step later
        omega

@[simp]
theorem length_relocate (next newNext : ℕ) (items : List α) :
    (relocate offset update move next newNext items).length = items.length := by
  induction items generalizing next newNext with
  | nil => rfl
  | cons item rest step => simp [relocate, step]

/-- What does not depend on the distances is told of each item as it is updated. -/
theorem map_relocate {β : Type v} {view updated : α → β}
    (updates : ∀ distance item, view (update distance item) = updated item) (next newNext : ℕ)
    (items : List α) :
    (relocate offset update move next newNext items).map view = items.map updated := by
  induction items generalizing next newNext with
  | nil => rfl
  | cons item rest step => simp only [relocate, List.map_cons, updates, step]

/-- The items stand where their positions have moved. -/
theorem positions_relocate (updates : ∀ distance item, offset (update distance item) = distance)
    {next newNext : ℕ} {items : List α}
    (increasing : ∀ first ∈ positions offset next items, newNext ≤ move first ∧
      ∀ second ∈ positions offset next items, first < second → move first < move second) :
    positions offset newNext (relocate offset update move next newNext items) =
      (positions offset next items).map move := by
  induction items generalizing next newNext with
  | nil => rfl
  | cons item rest step =>
      have here := increasing _ List.mem_cons_self
      have placed :
          newNext + (move (next + offset item) - newNext) = move (next + offset item) := by
        omega
      simp only [relocate, positions, updates, placed, List.map_cons]
      refine congrArg _ (step fun first listed => ?_)
      have firstListed := List.mem_cons_of_mem (next + offset item) listed
      refine ⟨here.2 first firstListed (le_of_mem_positions listed), fun second later => ?_⟩
      exact (increasing first firstListed).2 second (List.mem_cons_of_mem _ later)

end Deltas
