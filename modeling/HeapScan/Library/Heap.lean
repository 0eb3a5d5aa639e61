import Mathlib.Logic.Function.Basic
import Mathlib.Data.List.Forall2
import Mathlib.Data.List.Nodup
import Mathlib.Data.List.Perm.Subperm

/-!
# A heap of cells and the linked chains in it

Allocation takes the next unused address, so an address names one allocation
for ever; a freed cell holds nothing, and reading or writing it fails.  A
`Segment` is a run of cells, each linked to the next, from one pointer to
another, with the list of the addresses it passes; a NULL-terminated list is a
segment that ends in `none`.
-/

universe u v

/-- Cells of one type, with the address that the next allocation takes. -/
structure Heap (α : Type u) where
  cell : ℕ → Option α
  fresh : ℕ
  unused : ∀ address, fresh ≤ address → cell address = none

namespace Heap

variable {α : Type u} {β : Type v}

/-- The heap before any allocation. -/
def empty : Heap α where
  cell _ := none
  fresh := 0
  unused _ _ := rfl

/-- Allocate a cell that holds `value`; the address is `heap.fresh`. -/
def alloc (heap : Heap α) (value : α) : Heap α where
  cell := Function.update heap.cell heap.fresh (some value)
  fresh := heap.fresh + 1
  unused address le := by
    rw [Function.update_of_ne (by omega)]
    exact heap.unused address (by omega)

theorem lt_fresh_of_cell {heap : Heap α} {address : ℕ} {value : α}
    (held : heap.cell address = some value) : address < heap.fresh := by
  by_contra notLess
  rw [heap.unused address (by omega)] at held
  cases held

/-- Apply `change` to a live cell. -/
def modify (heap : Heap α) (address : ℕ) (change : α → α) : Option (Heap α) :=
  match held : heap.cell address with
  | none => none
  | some value => some
      { cell := Function.update heap.cell address (some (change value))
        fresh := heap.fresh
        unused := fun other le => by
          have := lt_fresh_of_cell held
          rw [Function.update_of_ne (by omega)]
          exact heap.unused other le }

/-- Free a live cell. -/
def free (heap : Heap α) (address : ℕ) : Option (Heap α) :=
  match heap.cell address with
  | none => none
  | some _ => some
      { cell := Function.update heap.cell address none
        fresh := heap.fresh
        unused := fun other le => by
          by_cases same : other = address
          · rw [same, Function.update_self]
          · rw [Function.update_of_ne same]
            exact heap.unused other le }

/-- Apply `change` to every live cell. -/
def map (heap : Heap α) (change : α → α) : Heap α where
  cell address := (heap.cell address).map change
  fresh := heap.fresh
  unused address le := by rw [heap.unused address le, Option.map_none]

@[simp]
theorem alloc_fresh (heap : Heap α) (value : α) :
    (heap.alloc value).fresh = heap.fresh + 1 := rfl

@[simp]
theorem alloc_cell_fresh (heap : Heap α) (value : α) :
    (heap.alloc value).cell heap.fresh = some value := by
  simp [alloc]

theorem alloc_cell_of_ne (heap : Heap α) (value : α) {address : ℕ}
    (other : address ≠ heap.fresh) : (heap.alloc value).cell address = heap.cell address := by
  simp [alloc, other]

/-- Allocation changes no live cell. -/
theorem alloc_cell_of_live {heap : Heap α} (value : α) {address : ℕ} {held : α}
    (live : heap.cell address = some held) :
    (heap.alloc value).cell address = some held := by
  rw [alloc_cell_of_ne _ _ (Nat.ne_of_lt (lt_fresh_of_cell live)), live]

theorem modify_eq_none {heap : Heap α} {address : ℕ} (change : α → α)
    (dead : heap.cell address = none) : heap.modify address change = none := by
  unfold modify
  split
  · rfl
  · simp_all

/-- Modifying a live cell succeeds and changes that cell only. -/
theorem exists_modify {heap : Heap α} {address : ℕ} {value : α} (change : α → α)
    (live : heap.cell address = some value) :
    ∃ next, heap.modify address change = some next ∧ next.fresh = heap.fresh ∧
      next.cell = Function.update heap.cell address (some (change value)) := by
  unfold modify
  split
  · simp_all
  · rename_i found held
    rw [live] at held
    cases held
    exact ⟨_, rfl, rfl, rfl⟩

/-- What a modification that succeeds has done. -/
theorem modify_eq_some {heap next : Heap α} {address : ℕ} {change : α → α}
    (modified : heap.modify address change = some next) :
    ∃ value, heap.cell address = some value ∧
      next.cell = Function.update heap.cell address (some (change value)) := by
  cases held : heap.cell address with
  | none =>
      rw [modify_eq_none change held] at modified
      cases modified
  | some value =>
      rcases exists_modify change held with ⟨_, result, -, cells⟩
      rw [modified, Option.some.injEq] at result
      exact ⟨value, rfl, result ▸ cells⟩

/-- Freeing a live cell succeeds and empties that cell only. -/
theorem exists_free {heap : Heap α} {address : ℕ} {value : α}
    (live : heap.cell address = some value) :
    ∃ next, heap.free address = some next ∧ next.fresh = heap.fresh ∧
      next.cell = Function.update heap.cell address none := by
  unfold free
  split
  · simp_all
  · exact ⟨_, rfl, rfl, rfl⟩

theorem modify_fresh {heap next : Heap α} {address : ℕ} {change : α → α}
    (modified : heap.modify address change = some next) : next.fresh = heap.fresh := by
  unfold modify at modified
  split at modified <;> cases modified
  rfl

theorem free_fresh {heap next : Heap α} {address : ℕ} (freed : heap.free address = some next) :
    next.fresh = heap.fresh := by
  unfold free at freed
  split at freed <;> cases freed
  rfl

/-- Freeing fills no cell. -/
theorem held_of_free {heap next : Heap α} {address other : ℕ} {value : α}
    (freed : heap.free address = some next) (held : next.cell other = some value) :
    heap.cell other = some value := by
  unfold free at freed
  split at freed
  · cases freed
  · cases freed
    simp only at held
    by_cases same : other = address
    · rw [same, Function.update_self] at held
      cases held
    · rwa [Function.update_of_ne same] at held

/-- From `start`, following `link` passes exactly `addresses` and arrives at `stop`. -/
def Segment (heap : Heap α) (link : α → Option ℕ) : Option ℕ → List ℕ → Option ℕ → Prop
  | start, [], stop => start = stop
  | start, address :: rest, stop =>
      start = some address ∧
        ∃ value, heap.cell address = some value ∧ heap.Segment link (link value) rest stop

section Segment

variable {heap other : Heap α} {link : α → Option ℕ}

@[simp]
theorem segment_nil {start stop : Option ℕ} : heap.Segment link start [] stop ↔ start = stop :=
  Iff.rfl

theorem segment_cons {start stop : Option ℕ} {address : ℕ} {rest : List ℕ} :
    heap.Segment link start (address :: rest) stop ↔
      start = some address ∧
        ∃ value, heap.cell address = some value ∧ heap.Segment link (link value) rest stop :=
  Iff.rfl

theorem Segment.live {start stop : Option ℕ} {addresses : List ℕ}
    (segment : heap.Segment link start addresses stop) {address : ℕ}
    (passed : address ∈ addresses) : ∃ value, heap.cell address = some value := by
  induction addresses generalizing start with
  | nil => simp at passed
  | cons first rest ih =>
      rcases segment with ⟨_, value, held, remaining⟩
      rcases List.mem_cons.mp passed with rfl | later
      · exact ⟨value, held⟩
      · exact ih remaining later

/-- The links from a pointer to the end of a list pass one sequence of cells. -/
theorem Segment.unique {start : Option ℕ} {addresses others : List ℕ}
    (segment : heap.Segment link start addresses none)
    (same : heap.Segment link start others none) :
    addresses = others := by
  induction addresses generalizing start others with
  | nil =>
      cases others with
      | nil => rfl
      | cons other others =>
          rw [segment_nil.mp segment] at same
          cases same.1
  | cons first rest ih =>
      rcases segment with ⟨rfl, value, held, remaining⟩
      cases others with
      | nil => cases segment_nil.mp same
      | cons other others =>
          rcases same with ⟨atOther, found, foundHeld, otherRemaining⟩
          cases atOther
          rw [held, Option.some.injEq] at foundHeld
          rw [ih remaining (foundHeld ▸ otherRemaining)]

/-- No segment without repetition is longer than the heap. -/
theorem Segment.length_le_fresh {start stop : Option ℕ} {addresses : List ℕ}
    (segment : heap.Segment link start addresses stop) (distinct : addresses.Nodup) :
    addresses.length ≤ heap.fresh := by
  have inRange : addresses ⊆ List.range heap.fresh := by
    intro address passed
    rcases segment.live passed with ⟨value, held⟩
    exact List.mem_range.mpr (lt_fresh_of_cell held)
  simpa using (List.subperm_of_subset distinct inRange).length_le

/-- A segment depends only on the cells it passes. -/
theorem Segment.congr {start stop : Option ℕ} {addresses : List ℕ}
    (agree : ∀ address ∈ addresses, other.cell address = heap.cell address)
    (segment : heap.Segment link start addresses stop) :
    other.Segment link start addresses stop := by
  induction addresses generalizing start with
  | nil => exact segment
  | cons first rest ih =>
      rcases segment with ⟨atFirst, value, held, remaining⟩
      refine ⟨atFirst, value, ?_, ?_⟩
      · rw [agree first (by simp), held]
      · exact ih (fun address passed => agree address (by simp [passed])) remaining

theorem segment_append {start stop : Option ℕ} {before after : List ℕ} :
    heap.Segment link start (before ++ after) stop ↔
      ∃ middle, heap.Segment link start before middle ∧
        heap.Segment link middle after stop := by
  induction before generalizing start with
  | nil => simp
  | cons first rest ih =>
      simp only [List.cons_append, segment_cons]
      constructor
      · rintro ⟨atFirst, value, held, remaining⟩
        rcases ih.mp remaining with ⟨middle, reached, continued⟩
        exact ⟨middle, ⟨atFirst, value, held, reached⟩, continued⟩
      · rintro ⟨middle, ⟨atFirst, value, held, reached⟩, continued⟩
        exact ⟨atFirst, value, held, ih.mpr ⟨middle, reached, continued⟩⟩

/-- Changing cells without changing their links keeps the segment. -/
theorem Segment.of_links {start stop : Option ℕ} {addresses : List ℕ}
    (keeps : ∀ address ∈ addresses, ∀ value, heap.cell address = some value →
      ∃ next, other.cell address = some next ∧ link next = link value)
    (segment : heap.Segment link start addresses stop) :
    other.Segment link start addresses stop := by
  induction addresses generalizing start with
  | nil => exact segment
  | cons first rest ih =>
      rcases segment with ⟨atFirst, value, held, remaining⟩
      rcases keeps first (by simp) value held with ⟨next, nextHeld, sameLink⟩
      refine ⟨atFirst, next, nextHeld, ?_⟩
      rw [sameLink]
      exact ih (fun address passed => keeps address (by simp [passed])) remaining

/-- Relinking the last cell of a segment moves the segment's end. -/
theorem Segment.relink {start stop target : Option ℕ} {before : List ℕ} {last : ℕ} {value : α}
    (segment : heap.Segment link start (before ++ [last]) stop)
    (agree : ∀ address ∈ before, other.cell address = heap.cell address)
    (held : other.cell last = some value) (linked : link value = target) :
    other.Segment link start (before ++ [last]) target := by
  rcases segment_append.mp segment with ⟨middle, reached, atLast, oldValue, oldHeld, ended⟩
  exact segment_append.mpr ⟨middle, reached.congr agree, atLast, value, held, linked⟩

end Segment

/-- The cells at `addresses` hold, in order, values that `holds` relates to `contents`. -/
def Carries (heap : Heap α) (holds : α → β → Prop) (addresses : List ℕ) (contents : List β) :
    Prop :=
  List.Forall₂ (fun address content => ∃ value, heap.cell address = some value ∧
    holds value content) addresses contents

section Carries

variable {heap other : Heap α} {holds : α → β → Prop}

@[simp]
theorem carries_nil : heap.Carries holds [] [] := List.Forall₂.nil

theorem Carries.congr {addresses : List ℕ} {contents : List β}
    (agree : ∀ address ∈ addresses, other.cell address = heap.cell address)
    (carries : heap.Carries holds addresses contents) :
    other.Carries holds addresses contents := by
  induction carries with
  | nil => exact List.Forall₂.nil
  | cons head tail ih =>
      rcases head with ⟨value, held, matched⟩
      refine List.Forall₂.cons ⟨value, ?_, matched⟩ (ih ?_)
      · rw [agree _ (by simp), held]
      · intro address passed
        exact agree address (by simp [passed])

/-- Changing a cell without changing what it holds keeps the contents. -/
theorem Carries.of_modified {addresses : List ℕ} {contents : List β}
    (keeps : ∀ address ∈ addresses, ∀ value, heap.cell address = some value →
      ∃ next, other.cell address = some next ∧ ∀ content, holds value content →
        holds next content)
    (carries : heap.Carries holds addresses contents) :
    other.Carries holds addresses contents := by
  induction carries with
  | nil => exact List.Forall₂.nil
  | cons head tail ih =>
      rcases head with ⟨value, held, matched⟩
      rcases keeps _ (by simp) value held with ⟨next, nextHeld, implies⟩
      refine List.Forall₂.cons ⟨next, nextHeld, implies _ matched⟩ (ih ?_)
      intro address passed
      exact keeps address (by simp [passed])

theorem Carries.append {before after : List ℕ} {contents more : List β}
    (first : heap.Carries holds before contents) (second : heap.Carries holds after more) :
    heap.Carries holds (before ++ after) (contents ++ more) :=
  List.rel_append first second

theorem Carries.length_eq {addresses : List ℕ} {contents : List β}
    (carries : heap.Carries holds addresses contents) : addresses.length = contents.length :=
  List.Forall₂.length_eq carries

end Carries

end Heap
