import Mathlib.Algebra.BigOperators.Group.List.Basic
import Mathlib.Algebra.Ring.Int.Defs
import Mathlib.Algebra.Ring.Nat

/-!
# Relocating consecutive items

Items stand one behind another, each at a position and with a size that may depend on the
position.  When items grow, what stands behind them moves: a place is shifted by the growth
of every item that ends at the place or before it.  The order of the items is kept as long
as no item grows by less than minus its size.
-/

namespace Relocation

universe u

variable {α : Type u} {size : ℕ → α → ℕ}

/-- The items fill the positions from `position` to `stop`. -/
def Chain (size : ℕ → α → ℕ) : ℕ → List (ℕ × α) → ℕ → Prop
  | position, [], stop => position = stop
  | position, (start, item) :: rest, stop =>
      start = position ∧ Chain size (start + size start item) rest stop

/-- Where an item starts, or the last one ends. -/
def Boundary (items : List (ℕ × α)) (stop place : ℕ) : Prop :=
  place = stop ∨ ∃ item, (place, item) ∈ items

/-- How far `place` moves when each item grows by `growth`. -/
def shift (size : ℕ → α → ℕ) (growth : ℕ → α → ℤ) (items : List (ℕ × α)) (place : ℕ) : ℤ :=
  (items.map fun entry =>
    if entry.1 + size entry.1 entry.2 ≤ place then growth entry.1 entry.2 else 0).sum

section Chains

variable {position stop : ℕ} {items before after : List (ℕ × α)} {start : ℕ} {item : α}

theorem Chain.le_stop (chain : Chain size position items stop) : position ≤ stop := by
  induction items generalizing position with
  | nil => exact chain.le
  | cons entry rest step =>
      rw [← chain.1]
      exact (Nat.le_add_right _ _).trans (step chain.2)

theorem Chain.append_iff :
    Chain size position (before ++ after) stop ↔
      ∃ middle, Chain size position before middle ∧ Chain size middle after stop := by
  induction before generalizing position with
  | nil =>
      constructor
      · intro chain
        exact ⟨position, rfl, chain⟩
      · rintro ⟨middle, rfl, chain⟩
        exact chain
  | cons entry rest step =>
      constructor
      · rintro ⟨begins, chain⟩
        rcases step.mp chain with ⟨middle, first, second⟩
        exact ⟨middle, ⟨begins, first⟩, second⟩
      · rintro ⟨middle, ⟨begins, first⟩, second⟩
        exact ⟨begins, step.mpr ⟨middle, first, second⟩⟩

/-- An item of the chain parts it where the item starts. -/
theorem Chain.split (chain : Chain size position (before ++ (start, item) :: after) stop) :
    Chain size position before start ∧ Chain size (start + size start item) after stop := by
  rcases Chain.append_iff.mp chain with ⟨middle, first, rfl, second⟩
  exact ⟨first, second⟩

theorem Chain.bounds (chain : Chain size position items stop) (listed : (start, item) ∈ items) :
    position ≤ start ∧ start + size start item ≤ stop := by
  rcases List.append_of_mem listed with ⟨before, after, rfl⟩
  have parts := chain.split
  exact ⟨parts.1.le_stop, parts.2.le_stop⟩

theorem Chain.boundary_le (chain : Chain size position items stop) {place : ℕ}
    (boundary : Boundary items stop place) : place ≤ stop := by
  rcases boundary with rfl | ⟨item, listed⟩
  · exact Nat.le_refl _
  · exact (Nat.le_add_right _ _).trans (chain.bounds listed).2

/-- With sizes that are positive, an item starts only once. -/
theorem Chain.eq_of_mem (positive : ∀ start item, 0 < size start item)
    (chain : Chain size position items stop) {other : α}
    (listed : (start, item) ∈ items) (otherListed : (start, other) ∈ items) : item = other := by
  induction items generalizing position with
  | nil => simp at listed
  | cons entry rest step =>
      have begins := chain.1
      have sizePositive := positive entry.1 entry.2
      have later {held : α} (found : (start, held) ∈ rest) : entry.1 < start := by
        have bound := (chain.2.bounds found).1
        omega
      rcases List.mem_cons.mp listed with rfl | inRest
      · rcases List.mem_cons.mp otherListed with same | otherInRest
        · exact (Prod.ext_iff.mp same).2.symm
        · exact absurd (later otherInRest) (Nat.lt_irrefl _)
      · rcases List.mem_cons.mp otherListed with rfl | otherInRest
        · exact absurd (later inRest) (Nat.lt_irrefl _)
        · exact step chain.2 inRest otherInRest

/-- Of two items that start at different positions one ends before the other starts. -/
theorem Chain.ends_before (chain : Chain size position items stop) {later : ℕ} {other : α}
    (listed : (start, item) ∈ items) (otherListed : (later, other) ∈ items)
    (ordered : start < later) : start + size start item ≤ later := by
  rcases List.append_of_mem listed with ⟨before, after, rfl⟩
  have parts := chain.split
  rcases List.mem_append.mp otherListed with inBefore | inAfter
  · have bound := parts.1.bounds inBefore
    omega
  · rcases List.mem_cons.mp inAfter with same | inAfter
    · have sameStart := congrArg Prod.fst same
      dsimp only at sameStart
      omega
    · exact (parts.2.bounds inAfter).1

variable {β : Type*} (contents : ℕ × α → List β)

theorem flatMap_of_none {selected : ℕ × α → Prop} [DecidablePred selected]
    (none : ∀ entry ∈ items, ¬ selected entry) :
    (items.flatMap fun entry => if selected entry then contents entry else []) = [] := by
  rw [List.flatMap_eq_nil_iff]
  intro entry listed
  exact if_neg (none entry listed)

/-- What the items that start at a position contain is what the one item there contains. -/
theorem Chain.flatMap_start (positive : ∀ start item, 0 < size start item)
    (chain : Chain size position items stop) (listed : (start, item) ∈ items) :
    (items.flatMap fun entry => if entry.1 = start then contents entry else []) =
      contents (start, item) := by
  rcases List.append_of_mem listed with ⟨before, after, rfl⟩
  have parts := chain.split
  have sizePositive := positive start item
  rw [List.flatMap_append, List.flatMap_cons, if_pos rfl,
    @flatMap_of_none _ before _ contents (fun entry => entry.1 = start),
    @flatMap_of_none _ after _ contents (fun entry => entry.1 = start), List.nil_append,
    List.append_nil]
  · intro entry found
    have bound := (parts.2.bounds found).1
    omega
  · intro entry found
    have bound := (parts.1.bounds found).2
    have entryPositive := positive entry.1 entry.2
    omega

/-- What the items that end at the end of an item contain is what the item contains. -/
theorem Chain.flatMap_end (positive : ∀ start item, 0 < size start item)
    (chain : Chain size position items stop) (listed : (start, item) ∈ items) :
    (items.flatMap fun entry =>
      if entry.1 + size entry.1 entry.2 = start + size start item then contents entry else []) =
      contents (start, item) := by
  rcases List.append_of_mem listed with ⟨before, after, rfl⟩
  have parts := chain.split
  have sizePositive := positive start item
  rw [List.flatMap_append, List.flatMap_cons, if_pos rfl,
    @flatMap_of_none _ before _ contents (fun entry =>
      entry.1 + size entry.1 entry.2 = start + size start item),
    @flatMap_of_none _ after _ contents (fun entry =>
      entry.1 + size entry.1 entry.2 = start + size start item), List.nil_append, List.append_nil]
  · intro entry found
    have bound := (parts.2.bounds found).1
    have entryPositive := positive entry.1 entry.2
    omega
  · intro entry found
    have bound := (parts.1.bounds found).2
    omega

end Chains

section Shifts

variable {growth : ℕ → α → ℤ} {position stop start place : ℕ} {item : α}
  {items before after : List (ℕ × α)}

@[simp]
theorem shift_nil : shift size growth [] place = 0 := rfl

theorem shift_append :
    shift size growth (before ++ after) place =
      shift size growth before place + shift size growth after place := by
  simp [shift]

theorem shift_cons {entry : ℕ × α} :
    shift size growth (entry :: after) place =
      (if entry.1 + size entry.1 entry.2 ≤ place then growth entry.1 entry.2 else 0) +
        shift size growth after place := by
  simp [shift]

/-- Growths that agree on the items ending at the place or before it shift it alike. -/
theorem shift_congr {other : ℕ → α → ℤ}
    (alike : ∀ entry ∈ items, entry.1 + size entry.1 entry.2 ≤ place →
      growth entry.1 entry.2 = other entry.1 entry.2) :
    shift size growth items place = shift size other items place := by
  refine congrArg List.sum (List.map_congr_left fun entry found => ?_)
  split
  · rename_i ends
    exact alike entry found ends
  · rfl

/-- Two places behind all items move alike. -/
theorem Chain.shift_behind (chain : Chain size position items stop) {later : ℕ}
    (behind : stop ≤ place) (laterBehind : stop ≤ later) :
    shift size growth items place = shift size growth items later := by
  refine congrArg List.sum (List.map_congr_left fun entry found => ?_)
  have bound := (chain.bounds found).2
  rw [if_pos (by omega), if_pos (by omega)]

variable (positive : ∀ start item, 0 < size start item)

include positive

/-- What starts at the place or behind it does not move it. -/
theorem shift_eq_zero (chain : Chain size position items stop) (behind : place ≤ position) :
    shift size growth items place = 0 := by
  induction items generalizing position with
  | nil => rfl
  | cons entry rest step =>
      have begins := chain.1
      have sizePositive := positive entry.1 entry.2
      rw [shift_cons, if_neg (by omega), step chain.2 (by omega), Int.add_zero]

/-- The shift at the start of an item comes from the items before it. -/
theorem Chain.shift_start (chain : Chain size position (before ++ (start, item) :: after) stop) :
    shift size growth (before ++ (start, item) :: after) start =
      shift size growth before start := by
  have parts := chain.split
  have sizePositive := positive start item
  rw [shift_append, shift_cons, if_neg (by dsimp only; omega),
    shift_eq_zero positive parts.2 (by omega)]
  omega

/-- From the start of an item to its end the shift changes by the growth of the item. -/
theorem Chain.shift_next (chain : Chain size position items stop)
    (listed : (start, item) ∈ items) :
    shift size growth items (start + size start item) =
      shift size growth items start + growth start item := by
  rcases List.append_of_mem listed with ⟨before, after, rfl⟩
  have parts := chain.split
  rw [chain.shift_start positive, shift_append, shift_cons, if_pos (Nat.le_refl _),
    shift_eq_zero positive parts.2 (Nat.le_refl _),
    parts.1.shift_behind (Nat.le_add_right _ _) (Nat.le_refl _)]
  dsimp only
  omega

/-- When one item grows further, what stands behind it moves by as much. -/
theorem Chain.shift_grow (chain : Chain size position items stop) {other : ℕ → α → ℤ} {added : ℤ}
    (listed : (start, item) ∈ items) (grown : other start item = growth start item + added)
    (alike : ∀ entry ∈ items, entry.1 ≠ start →
      other entry.1 entry.2 = growth entry.1 entry.2) (place : ℕ) :
    shift size other items place = shift size growth items place +
      if start + size start item ≤ place then added else 0 := by
  rcases List.append_of_mem listed with ⟨before, after, rfl⟩
  have parts := chain.split
  have sizePositive := positive start item
  have beforeAlike : shift size other before place = shift size growth before place := by
    refine shift_congr fun entry found _ => alike entry (List.mem_append_left _ found) ?_
    have bound := (parts.1.bounds found).2
    have entryPositive := positive entry.1 entry.2
    omega
  have afterAlike : shift size other after place = shift size growth after place := by
    refine shift_congr fun entry found _ => alike entry
      (List.mem_append_right _ (List.mem_cons_of_mem _ found)) ?_
    have bound := (parts.2.bounds found).1
    omega
  rw [shift_append, shift_append, shift_cons, shift_cons, beforeAlike, afterAlike]
  dsimp only
  split <;> omega

/-- With growths that are bounded, a place moves by at most the bound for every place before it. -/
theorem Chain.shift_le (chain : Chain size position items stop) {bound : ℕ}
    (grows : ∀ entry ∈ items, growth entry.1 entry.2 ≤ bound) :
    shift size growth items place ≤ bound * (stop - position : ℕ) := by
  induction items generalizing position with
  | nil => exact Int.natCast_nonneg (bound * (stop - position))
  | cons entry rest step =>
      have begins := chain.1
      have sizePositive := positive entry.1 entry.2
      have ends := chain.2.le_stop
      have grown := grows entry List.mem_cons_self
      have restBound := step chain.2 fun held found => grows held (List.mem_cons_of_mem _ found)
      have more : bound * (stop - (entry.1 + size entry.1 entry.2)) + bound ≤
          bound * (stop - position) := by
        rw [← Nat.mul_succ]
        exact Nat.mul_le_mul_left bound (by omega)
      rw [shift_cons]
      split <;> omega

section Order

variable (grows : ∀ entry ∈ items, -(size entry.1 entry.2 : ℤ) < growth entry.1 entry.2)

include grows

/-- No boundary moves in front of where the items begin, and none behind it onto it. -/
theorem Chain.position_lt_moved (chain : Chain size position items stop)
    (boundary : Boundary items stop place) (behind : position < place) :
    (position : ℤ) < place + shift size growth items place := by
  induction items generalizing position with
  | nil =>
      rcases boundary with rfl | ⟨item, listed⟩
      · exact absurd chain behind.ne
      · simp at listed
  | cons entry rest step =>
      have begins := chain.1
      have grown := grows entry List.mem_cons_self
      have restGrows : ∀ held ∈ rest, -(size held.1 held.2 : ℤ) < growth held.1 held.2 :=
        fun held found => grows held (List.mem_cons_of_mem _ found)
      have inRest : Boundary rest stop place := by
        rcases boundary with rfl | ⟨item, listed⟩
        · exact Or.inl rfl
        · rcases List.mem_cons.mp listed with rfl | found
          · exact absurd begins behind.ne'
          · exact Or.inr ⟨item, found⟩
      have ends : entry.1 + size entry.1 entry.2 ≤ place := by
        rcases inRest with rfl | ⟨item, found⟩
        · exact chain.2.le_stop
        · exact (chain.2.bounds found).1
      rw [shift_cons, if_pos ends]
      rcases Nat.lt_or_ge (entry.1 + size entry.1 entry.2) place with later | sooner
      · have moved := step restGrows chain.2 inRest later
        omega
      · rw [shift_eq_zero positive chain.2 sooner]
        omega

/-- Boundaries keep their order. -/
theorem Chain.moved_lt_moved (chain : Chain size position items stop) {later : ℕ}
    (boundary : Boundary items stop place) (laterBoundary : Boundary items stop later)
    (ordered : place < later) :
    (place : ℤ) + shift size growth items place < later + shift size growth items later := by
  have inside : later ≤ stop := by
    rcases laterBoundary with rfl | ⟨item, found⟩
    · exact Nat.le_refl _
    · exact (Nat.le_add_right _ _).trans (chain.bounds found).2
  rcases boundary with rfl | ⟨item, listed⟩
  · omega
  rcases List.append_of_mem listed with ⟨before, after, rfl⟩
  have parts := chain.split
  have fromItem : Chain size place ((place, item) :: after) stop := ⟨rfl, parts.2⟩
  have laterInRest : Boundary ((place, item) :: after) stop later := by
    rcases laterBoundary with rfl | ⟨other, found⟩
    · exact Or.inl rfl
    · rcases List.mem_append.mp found with inBefore | inRest
      · have bound := (parts.1.bounds inBefore).2
        omega
      · exact Or.inr ⟨other, inRest⟩
  have moved := fromItem.position_lt_moved positive
    (fun entry found => grows entry (List.mem_append_right _ found)) laterInRest ordered
  rw [chain.shift_start positive, shift_append,
    parts.1.shift_behind ordered.le (Nat.le_refl place)]
  omega

end Order

end Shifts

end Relocation
