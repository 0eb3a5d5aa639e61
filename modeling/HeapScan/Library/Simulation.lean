import Mathlib.Computability.StateTransition

/-!
# Simulating runs that do not get stuck

A transition function yields `none` both where a run has come to its end and where it is
stuck.  From a state that never gets stuck, a forward simulation is all that is needed for
two systems to have the same results and to diverge alike.
-/

namespace Simulation

open StateTransition Relation

universe u v

variable {α : Type u} {β : Type v} {move : α → Option α} {other : β → Option β}
  {final : α → Prop} {related : α → β → Prop} {start next : α}

/-- Wherever a run from the state stops, it has come to its end. -/
def Safe (move : α → Option α) (final : α → Prop) (start : α) : Prop :=
  ∀ state, Reaches move start state → move state = none → final state

theorem Safe.stops (safe : Safe move final start) (stuck : move start = none) : final start :=
  safe start ReflTransGen.refl stuck

theorem Safe.step (safe : Safe move final start) (stepped : move start = some next) :
    Safe move final next :=
  fun state reached => safe state (ReflTransGen.head stepped reached)

/-- What is shown for one step from a state that is not stuck. -/
structure Forward (move : α → Option α) (other : β → Option β) (final : α → Prop)
    (related : α → β → Prop) : Prop where
  step : ∀ {start image next}, related start image → Safe move final start →
    move start = some next → ∃ imageNext, related next imageNext ∧
      Reaches₁ other image imageNext
  stop : ∀ {start image}, related start image → final start → other image = none

theorem Forward.respects (forward : Forward move other final related) :
    Respects move other fun start image => related start image ∧ Safe move final start := by
  rintro start image ⟨isRelated, safe⟩
  cases stepped : move start with
  | none => exact forward.stop isRelated (safe.stops stepped)
  | some next =>
      rcases forward.step isRelated safe stepped with ⟨imageNext, nextRelated, reached⟩
      exact ⟨imageNext, ⟨nextRelated, safe.step stepped⟩, reached⟩

variable {image : β}

/-- A result is reached as a related result. -/
theorem Forward.eval (forward : Forward move other final related) (isRelated : related start image)
    (safe : Safe move final start) {result : α}
    (evaluates : result ∈ StateTransition.eval move start) :
    ∃ imageResult, related result imageResult ∧ imageResult ∈ StateTransition.eval other image := by
  rcases tr_eval forward.respects ⟨isRelated, safe⟩ evaluates with ⟨imageResult, both, reached⟩
  exact ⟨imageResult, both.1, reached⟩

/-- Only related results are reached. -/
theorem Forward.eval_rev (forward : Forward move other final related)
    (isRelated : related start image) (safe : Safe move final start) {imageResult : β}
    (evaluates : imageResult ∈ StateTransition.eval other image) :
    ∃ result, related result imageResult ∧ result ∈ StateTransition.eval move start := by
  rcases tr_eval_rev forward.respects ⟨isRelated, safe⟩ evaluates with ⟨result, both, reached⟩
  exact ⟨result, both.1, reached⟩

/-- What simulates a run that never gets stuck never gets stuck. -/
theorem Forward.safe (forward : Forward move other final related) {otherFinal : β → Prop}
    (ends : ∀ {result imageResult}, related result imageResult → final result →
      otherFinal imageResult) (isRelated : related start image) (safe : Safe move final start) :
    Safe other otherFinal image := by
  intro state reached stuck
  rcases tr_reaches_rev forward.respects ⟨isRelated, safe⟩ reached with
    ⟨old, new, behind, ⟨oldRelated, oldSafe⟩, _⟩
  obtain rfl : new = state := by
    rcases ReflTransGen.cases_head behind with same | ⟨next, stepped, _⟩
    · exact same.symm
    · exact absurd (stuck.symm.trans stepped) (by simp)
  cases oldStepped : move old with
  | none => exact ends oldRelated (oldSafe.stops oldStepped)
  | some next =>
      rcases forward.step oldRelated oldSafe oldStepped with ⟨imageNext, _, moved⟩
      rcases TransGen.head'_iff.mp moved with ⟨first, stepped, _⟩
      exact absurd (stuck.symm.trans stepped) (by simp)

end Simulation
