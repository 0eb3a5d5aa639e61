import Mathlib.Data.List.Basic

/-!
# Runs of a step function

A system is a partial step function: `step state action` is the next state, or
`none` where the action is not enabled.  This file gives its finite runs, the
condition that every step of a run meets, the states a run visits, what its
steps emit, and the induction rule used for them: an invariant kept by every
allowed step holds wherever the run gets to.
-/

namespace Transition

universe u v w

variable {State : Type u} {Action : Type v}

/-- Take the actions one after another; the run fails at an action that is not enabled. -/
def runFrom (step : State → Action → Option State) : State → List Action → Option State
  | state, [] => some state
  | state, action :: actions =>
      (step state action).bind fun next => runFrom step next actions

/-- Every step that the run takes from `state` meets `allowed`. -/
def StepsMeet (step : State → Action → Option State) (allowed : State → Action → Prop) :
    State → List Action → Prop
  | _, [] => True
  | state, action :: actions =>
      allowed state action ∧
        ∀ next, step state action = some next → StepsMeet step allowed next actions

/-- The run from `state` passes through `visited`, its first and last states included. -/
def Visits (step : State → Action → Option State) (state : State) (actions : List Action)
    (visited : State) : Prop :=
  ∃ before after, actions = before ++ after ∧ runFrom step state before = some visited

/-- What the steps of a run emit, up to an action that is not enabled. -/
def emitted {Output : Type w} (step : State → Action → Option State)
    (emits : State → Action → List Output) : State → List Action → List Output
  | _, [] => []
  | state, action :: actions =>
      match step state action with
      | none => []
      | some next => emits state action ++ emitted step emits next actions

section Step

variable {step : State → Action → Option State} {allowed : State → Action → Prop}

@[simp]
theorem runFrom_nil (state : State) : runFrom step state [] = some state := rfl

theorem runFrom_cons_eq_some {state final : State} {action : Action} {actions : List Action} :
    runFrom step state (action :: actions) = some final ↔
      ∃ next, step state action = some next ∧ runFrom step next actions = some final := by
  simp [runFrom, Option.bind_eq_some_iff]

theorem runFrom_append (state : State) (before after : List Action) :
    runFrom step state (before ++ after) =
      (runFrom step state before).bind fun middle => runFrom step middle after := by
  induction before generalizing state with
  | nil => rfl
  | cons action before ih =>
      simp only [List.cons_append, runFrom, Option.bind_assoc]
      congr 1
      funext next
      exact ih next

theorem visits_self (state : State) (actions : List Action) :
    Visits step state actions state := ⟨[], actions, rfl, rfl⟩

/-- After a step, what the rest of the run visits is visited. -/
theorem Visits.cons {state next visited : State} {action : Action} {actions : List Action}
    (stepped : step state action = some next) (visits : Visits step next actions visited) :
    Visits step state (action :: actions) visited := by
  rcases visits with ⟨before, after, rfl, run⟩
  exact ⟨action :: before, after, rfl, runFrom_cons_eq_some.mpr ⟨next, stepped, run⟩⟩

/-- A condition on the actions alone. -/
theorem stepsMeet_of_mem {actions : List Action}
    (each : ∀ action ∈ actions, ∀ state, allowed state action) (state : State) :
    StepsMeet step allowed state actions := by
  induction actions generalizing state with
  | nil => trivial
  | cons action actions ih =>
      exact ⟨each action (List.mem_cons_self ..) state, fun next _ =>
        ih (fun other listed => each other (List.mem_cons_of_mem _ listed)) next⟩

theorem stepsMeet_of_forall (always : ∀ state action, allowed state action) (state : State)
    (actions : List Action) : StepsMeet step allowed state actions :=
  stepsMeet_of_mem (fun action _ state => always state action) state

/-- Whether a run meets a condition can be computed where each step's condition can. -/
instance decidableStepsMeet [∀ state action, Decidable (allowed state action)] :
    ∀ state actions, Decidable (StepsMeet step allowed state actions)
  | _, [] => isTrue trivial
  | state, action :: actions =>
      match taken : step state action with
      | none => decidable_of_iff (allowed state action)
          ⟨fun allows => ⟨allows, fun next stepped => by rw [taken] at stepped; cases stepped⟩,
            fun meets => meets.1⟩
      | some next =>
          have := decidableStepsMeet next actions
          decidable_of_iff (allowed state action ∧ StepsMeet step allowed next actions)
            ⟨fun both => ⟨both.1, fun other stepped => by
                rw [taken, Option.some.injEq] at stepped
                exact stepped ▸ both.2⟩,
              fun meets => ⟨meets.1, meets.2 next taken⟩⟩

theorem StepsMeet.of_append {state : State} {before after : List Action}
    (meets : StepsMeet step allowed state (before ++ after)) :
    StepsMeet step allowed state before := by
  induction before generalizing state with
  | nil => trivial
  | cons action before ih =>
      exact ⟨meets.1, fun next stepped => ih (meets.2 next stepped)⟩

/-- What holds of every state that a run visits is met at every step. -/
theorem stepsMeet_of_visits {holds : State → Prop} {state : State} {actions : List Action}
    (always : ∀ visited, Visits step state actions visited → holds visited) :
    StepsMeet step (fun state _ => holds state) state actions := by
  induction actions generalizing state with
  | nil => trivial
  | cons action actions ih =>
      exact ⟨always state (visits_self ..), fun next stepped =>
        ih fun visited visits => always visited (visits.cons stepped)⟩

theorem StepsMeet.and {other : State → Action → Prop} {state : State} {actions : List Action}
    (meets : StepsMeet step allowed state actions) (also : StepsMeet step other state actions) :
    StepsMeet step (fun state action => allowed state action ∧ other state action) state
      actions := by
  induction actions generalizing state with
  | nil => trivial
  | cons action actions ih =>
      exact ⟨⟨meets.1, also.1⟩, fun next stepped => ih (meets.2 next stepped) (also.2 next stepped)⟩

/-- The rest of a run that meets a condition meets it. -/
theorem StepsMeet.after {state middle : State} {before after : List Action}
    (meets : StepsMeet step allowed state (before ++ after))
    (run : runFrom step state before = some middle) : StepsMeet step allowed middle after := by
  induction before generalizing state with
  | nil =>
      simp only [runFrom_nil, Option.some.injEq] at run
      exact run ▸ meets
  | cons action before ih =>
      rcases runFrom_cons_eq_some.mp run with ⟨next, stepped, rest⟩
      exact ih (meets.2 next stepped) rest

/-- What is met at every step of a run and holds at its end holds of every state it visits. -/
theorem holds_of_visits {holds : State → Prop} {state : State} {actions : List Action}
    (meets : StepsMeet step (fun state _ => holds state) state actions)
    (last : ∀ final, runFrom step state actions = some final → holds final) {visited : State}
    (visits : Visits step state actions visited) : holds visited := by
  rcases visits with ⟨before, after, rfl, run⟩
  cases after with
  | nil => exact last visited (by rwa [List.append_nil])
  | cons action after => exact (meets.after run).1

/-- The induction rule for runs: what every allowed step keeps holds at the end. -/
theorem runFrom_invariant {invariant : State → Prop}
    (kept : ∀ state action next, allowed state action → invariant state →
      step state action = some next → invariant next)
    {state final : State} {actions : List Action}
    (meets : StepsMeet step allowed state actions) (start : invariant state)
    (run : runFrom step state actions = some final) : invariant final := by
  induction actions generalizing state with
  | nil =>
      simp only [runFrom_nil, Option.some.injEq] at run
      exact run ▸ start
  | cons action actions ih =>
      rcases runFrom_cons_eq_some.mp run with ⟨next, stepped, rest⟩
      exact ih (meets.2 next stepped) (kept _ _ _ meets.1 start stepped) rest

theorem emitted_cons {Output : Type w} {emits : State → Action → List Output}
    {state next : State} {action : Action} {actions : List Action}
    (stepped : step state action = some next) :
    emitted step emits state (action :: actions) =
      emits state action ++ emitted step emits next actions := by
  simp only [emitted, stepped]

/-- The induction rule for an invariant that also speaks of what has been emitted. -/
theorem runFrom_invariant_emitted {Output : Type w} {emits : State → Action → List Output}
    {invariant : List Output → State → Prop}
    (kept : ∀ before state action next, allowed state action → invariant before state →
      step state action = some next → invariant (before ++ emits state action) next)
    {before : List Output} {state final : State} {actions : List Action}
    (meets : StepsMeet step allowed state actions) (start : invariant before state)
    (run : runFrom step state actions = some final) :
    invariant (before ++ emitted step emits state actions) final := by
  induction actions generalizing before state with
  | nil =>
      simp only [runFrom_nil, Option.some.injEq] at run
      simpa only [emitted, List.append_nil, ← run] using start
  | cons action actions ih =>
      rcases runFrom_cons_eq_some.mp run with ⟨next, stepped, rest⟩
      rw [emitted_cons stepped, ← List.append_assoc]
      exact ih (meets.2 next stepped) (kept _ _ _ _ meets.1 start stepped) rest

/-- The induction rule for runs on which nothing is assumed. -/
theorem runFrom_invariant_of_step {invariant : State → Prop}
    (kept : ∀ state action next, invariant state → step state action = some next →
      invariant next)
    {state final : State} {actions : List Action} (start : invariant state)
    (run : runFrom step state actions = some final) : invariant final := by
  have meets : StepsMeet step (fun _ _ => True) state actions :=
    stepsMeet_of_forall (fun _ _ => trivial) state actions
  exact runFrom_invariant (fun state action next _ holds stepped =>
    kept state action next holds stepped) meets start run

end Step

end Transition
