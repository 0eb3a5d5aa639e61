import HeapScan.Library.Runs
import HeapScan.Tagging.Uniqueness

/-!
# Tagging step by step

Application threads track their new objects while the agent thread runs class
passes and heap walks and the JVM frees objects.  A step is one read or write of
`lastTag`, one JVMTI call or one message; a callback of the heap walk is one step.
-/

namespace HeapScan

open Transition

/-- Where a thread is in `setAndGetTag`. -/
inductive SetTagPc where
  | getTag
  | readLastTag
  | writeLastTag (read : ℤ)
  | readForSet
  | setTag (tag : ℤ)
  | readForReturn
deriving DecidableEq

/-- Where a thread is in `GetObjectTag`, called by `trackObject`. -/
inductive TrackPc where
  | ofClass (pc : SetTagPc)
  | storeClassTag (classTag : ℤ)
  | ofObject (classTag : ℤ) (pc : SetTagPc)
  | storeObjectTag (classTag objectTag : ℤ)
deriving DecidableEq

/-- A call of `trackObject` that has not returned. -/
structure Tracking where
  object : Entity
  pc : TrackPc
deriving DecidableEq

/-- Where the agent thread is in `onGetClassMetadata` or `onFollowReference`. -/
inductive AgentPc where
  | idle
  /-- At `GetTag` of the first class that is left, or at the flush after the last one. -/
  | classPass (classes : List Entity)
  | readForSet (cls : Entity) (classes : List Entity)
  | setTag (cls : Entity) (classes : List Entity) (tag : ℤ)
  | readLastTag (cls : Entity) (classes : List Entity)
  | writeLastTag (cls : Entity) (classes : List Entity) (read : ℤ)
  | storeClassTag (cls : Entity) (classes : List Entity) (tagPtr : ℤ)
  /-- The group is started and the walk is about to begin. -/
  | walk
  /-- `FollowReferences` is running. -/
  | walking
  /-- The walk has ended and its group is not flushed yet. -/
  | flush
deriving DecidableEq

/-- The agent's memory, where its threads are, and the objects freed so far. -/
structure TagMachine where
  agent : AgentState
  agentPc : AgentPc
  tracking : List Tracking
  freed : List Entity

inductive TagAction where
  | startClassMetadata (classes : List Entity)
  | startFollowReference
  | agentStep
  | callback (reference : HeapReference)
  | startTrack (allocatedObj : Entity)
  | trackStep (call : ℕ)
  | free (object : Entity)

/-- One step of `setAndGetTag`: where it goes on, or the tag and whether it was set. -/
def setAndGetTagStep (state : AgentState) (object : Entity) :
    SetTagPc → AgentState × (SetTagPc ⊕ ℤ × Bool)
  | .getTag =>
      if state.tag object ≠ 0 then (state, .inr (state.tag object, false))
      else (state, .inl .readLastTag)
  | .readLastTag => (state, .inl (.writeLastTag state.lastTag))
  | .writeLastTag read => ({ state with lastTag := state.increment read }, .inl .readForSet)
  | .readForSet => (state, .inl (.setTag state.lastTag))
  | .setTag tag => (state.setTag object tag, .inl .readForReturn)
  | .readForReturn => (state, .inr (state.lastTag, true))

/-- One step of `trackObject`, and where it goes on if it does not return. -/
def trackObjectStep (jvm : Jvm) (state : AgentState) (object : Entity) :
    TrackPc → AgentState × Option TrackPc
  | .ofClass pc =>
      match setAndGetTagStep state (jvm.classOf object) pc with
      | (state, .inl pc) => (state, some (.ofClass pc))
      | (state, .inr (classTag, true)) => (state, some (.storeClassTag classTag))
      | (state, .inr (classTag, false)) => (state, some (.ofObject classTag .getTag))
  | .storeClassTag classTag =>
      (AgentState.storeClassTag jvm state (jvm.classOf object) classTag true,
        some (.ofObject classTag .getTag))
  | .ofObject classTag pc =>
      match setAndGetTagStep state object pc with
      | (state, .inl pc) => (state, some (.ofObject classTag pc))
      | (state, .inr (objectTag, true)) => (state, some (.storeObjectTag classTag objectTag))
      | (state, .inr (_, false)) => (state, none)
  | .storeObjectTag classTag objectTag =>
      (state.storeObjectTag object objectTag classTag true, none)

/-- One step of the agent thread, where that is not a callback or waiting for a command. -/
def agentThreadStep (jvm : Jvm) (state : AgentState) : AgentPc → Option (AgentState × AgentPc)
  | .idle => none
  | .classPass [] => some (state.flushMsgGrp, .idle)
  | .classPass (cls :: classes) =>
      if state.tag cls = 0 then some (state, .readForSet cls classes)
      else some (state, .storeClassTag cls classes (state.tag cls))
  | .readForSet cls classes => some (state, .setTag cls classes state.lastTag)
  | .setTag cls classes tag => some (state.setTag cls tag, .readLastTag cls classes)
  | .readLastTag cls classes => some (state, .writeLastTag cls classes state.lastTag)
  | .writeLastTag cls classes read =>
      some ({ state with lastTag := state.increment read }, .storeClassTag cls classes 0)
  | .storeClassTag cls classes tagPtr =>
      some (AgentState.storeClassTag jvm state cls tagPtr false, .classPass classes)
  | .walk => some (state, .walking)
  | .walking => some (state, .flush)
  | .flush => some (state.flushMsgGrp, .idle)

namespace TagMachine

def initial : TagMachine where
  agent := .initial
  agentPc := .idle
  tracking := []
  freed := []

/-- The initial state with a counter that has no bound. -/
def unbounded : TagMachine := { initial with agent := .unbounded }

/-- The objects of the reference have not been freed. -/
def ReferenceLive (state : TagMachine) (reference : HeapReference) : Prop :=
  reference.referent ∉ state.freed ∧ ∀ object ∈ reference.referrer, object ∉ state.freed

instance (state : TagMachine) (reference : HeapReference) :
    Decidable (state.ReferenceLive reference) :=
  inferInstanceAs (Decidable (_ ∧ _))

/-- A call of `trackObject` holds the object, or its class. -/
def InUse (jvm : Jvm) (state : TagMachine) (object : Entity) : Prop :=
  ∃ call ∈ state.tracking, call.object = object ∨ jvm.classOf call.object = object

instance (jvm : Jvm) (state : TagMachine) (object : Entity) :
    Decidable (state.InUse jvm object) :=
  inferInstanceAs (Decidable (∃ call ∈ state.tracking, _))

/--
One step of the whole.  Freed objects are not reported, tracked or listed again,
what a call holds is not freed, and nothing is freed within a walk.
-/
def step (jvm : Jvm) (state : TagMachine) : TagAction → Option TagMachine
  | .startClassMetadata classes =>
      if state.agentPc = .idle ∧ ∀ cls ∈ classes, cls ∉ state.freed then
        some { state with agent := state.agent.startMsgGrp, agentPc := .classPass classes }
      else none
  | .startFollowReference =>
      if state.agentPc = .idle then
        some { state with agent := state.agent.startMsgGrp, agentPc := .walk }
      else none
  | .agentStep => do
      let (agent, agentPc) ← agentThreadStep jvm state.agent state.agentPc
      some { state with agent, agentPc }
  | .callback reference =>
      if state.agentPc = .walking ∧ state.ReferenceLive reference then
        some { state with agent := AgentState.reportReference jvm state.agent reference }
      else none
  | .startTrack allocatedObj =>
      if allocatedObj ∉ state.freed then
        let call : Tracking := { object := allocatedObj, pc := .ofClass .getTag }
        some { state with tracking := state.tracking ++ [call] }
      else none
  | .trackStep call => do
      let tracking ← state.tracking[call]?
      match trackObjectStep jvm state.agent tracking.object tracking.pc with
      | (agent, some pc) =>
          some { state with agent, tracking := state.tracking.set call { tracking with pc } }
      | (agent, none) => some { state with agent, tracking := state.tracking.eraseIdx call }
  | .free object =>
      if state.agentPc ≠ .walking ∧ object ∉ state.freed ∧ ¬state.InUse jvm object then
        let tag := state.agent.tag object
        let agent := if tag ≠ 0 then state.agent.onObjectFree object tag else state.agent
        some { state with agent, freed := object :: state.freed }
      else none

end TagMachine

/-!
An operation that no other thread interrupts is the operation of the sequential model.
-/

section Alone

variable {jvm : Jvm}

/-- Some number of repetitions of `action` lead from `state` to `next`. -/
def Repeats (jvm : Jvm) (action : TagAction) (state next : TagMachine) : Prop :=
  ∃ times, runFrom (TagMachine.step jvm) state (List.replicate times action) = some next

theorem Repeats.refl (action : TagAction) (state : TagMachine) :
    Repeats jvm action state state := ⟨0, rfl⟩

theorem Repeats.head {action : TagAction} {state middle next : TagMachine}
    (stepped : state.step jvm action = some middle) (rest : Repeats jvm action middle next) :
    Repeats jvm action state next := by
  rcases rest with ⟨times, run⟩
  exact ⟨times + 1, runFrom_cons_eq_some.mpr ⟨middle, stepped, run⟩⟩

/-- `state` with one call of `trackObject` running, at `pc`. -/
def TagMachine.calling (state : TagMachine) (agent : AgentState) (object : Entity)
    (pc : TrackPc) : TagMachine :=
  { state with agent, tracking := [{ object, pc }] }

theorem calling_step {state : TagMachine} {agent next : AgentState} {object : Entity}
    {pc : TrackPc} {result : Option TrackPc}
    (stepped : trackObjectStep jvm agent object pc = (next, result)) :
    (state.calling agent object pc).step jvm (.trackStep 0) = some
      (match result with
        | some pc => state.calling next object pc
        | none => { state with agent := next, tracking := [] }) := by
  cases result <;> simp [TagMachine.step, TagMachine.calling, stepped]

theorem agentStep_eq {state : TagMachine} {agent : AgentState} {agentPc : AgentPc}
    (stepped : agentThreadStep jvm state.agent state.agentPc = some (agent, agentPc)) :
    state.step jvm .agentStep = some { state with agent, agentPc } := by
  simp [TagMachine.step, stepped]

/-- The steps by which `setAndGetTag` numbers an entity without a tag. -/
theorem setAndGetTag_run {state final : TagMachine} {agent : AgentState} {object entity : Entity}
    (wrap : SetTagPc → TrackPc) {numbered : TrackPc} (untagged : agent.tag entity = 0)
    (wraps : ∀ agent pc next pc', setAndGetTagStep agent entity pc = (next, .inl pc') →
      trackObjectStep jvm agent object (wrap pc) = (next, some (wrap pc')))
    (returns : trackObjectStep jvm (agent.setAndGetTag entity).2.2 object (wrap .readForReturn) =
      ((agent.setAndGetTag entity).2.2, some numbered))
    (rest : Repeats jvm (.trackStep 0)
      (state.calling (agent.setAndGetTag entity).2.2 object numbered) final) :
    Repeats jvm (.trackStep 0) (state.calling agent object (wrap .getTag)) final := by
  rw [AgentState.setAndGetTag_new untagged] at returns rest
  refine Repeats.head (calling_step (wraps _ _ agent .readLastTag ?_)) ?_
  · simp [setAndGetTagStep, untagged]
  refine Repeats.head (calling_step (wraps _ _ _ _ rfl)) ?_
  refine Repeats.head (calling_step (wraps _ _ _ _ rfl)) ?_
  refine Repeats.head (calling_step (wraps _ _ _ _ rfl)) ?_
  refine Repeats.head (calling_step (wraps _ _ _ _ rfl)) ?_
  exact Repeats.head (calling_step returns) rest

/-- From the second `setAndGetTag` on, an uninterrupted call announces the object. -/
theorem trackObject_run_object (state : TagMachine) (agent : AgentState) (object : Entity)
    (classTag : ℤ) :
    Repeats jvm (.trackStep 0) (state.calling agent object (.ofObject classTag .getTag))
      { state with
        agent :=
          if (agent.setAndGetTag object).2.1 then
            (agent.setAndGetTag object).2.2.storeObjectTag object (agent.setAndGetTag object).1
              classTag true
          else (agent.setAndGetTag object).2.2
        tracking := [] } := by
  by_cases untagged : agent.tag object = 0
  · have returns : trackObjectStep jvm (agent.setAndGetTag object).2.2 object
        (.ofObject classTag .readForReturn) =
          ((agent.setAndGetTag object).2.2,
            some (.storeObjectTag classTag (agent.increment agent.lastTag))) := by
      simp [trackObjectStep, setAndGetTagStep, AgentState.setAndGetTag_new untagged]
    refine setAndGetTag_run (.ofObject classTag) untagged ?_ returns ?_
    · intro agent pc next pc' stepped
      simp [trackObjectStep, stepped]
    · refine Repeats.head (calling_step rfl) ?_
      simp only [AgentState.setAndGetTag_new untagged, if_true]
      exact Repeats.refl _ _
  · have stepped : trackObjectStep jvm agent object (.ofObject classTag .getTag) =
        (agent, none) := by
      simp [trackObjectStep, setAndGetTagStep, untagged]
    refine Repeats.head (calling_step stepped) ?_
    simp only [AgentState.setAndGetTag_old untagged, Bool.false_eq_true, if_false]
    exact Repeats.refl _ _

/-- An uninterrupted call of `trackObject`. -/
theorem trackObject_alone {state : TagMachine} {object : Entity}
    (only : state.tracking = [{ object, pc := .ofClass .getTag }]) :
    Repeats jvm (.trackStep 0) state
      { state with agent := AgentState.trackObject jvm state.agent object, tracking := [] } := by
  have start : state = state.calling state.agent object (.ofClass .getTag) := by
    rw [TagMachine.calling, ← only]
  rw [start]
  change Repeats jvm (.trackStep 0) (state.calling state.agent object (.ofClass .getTag))
    { state with agent := AgentState.trackObject jvm state.agent object, tracking := [] }
  by_cases untagged : state.agent.tag (jvm.classOf object) = 0
  · have returns : trackObjectStep jvm (state.agent.setAndGetTag (jvm.classOf object)).2.2 object
        (.ofClass .readForReturn) =
          ((state.agent.setAndGetTag (jvm.classOf object)).2.2,
            some (.storeClassTag (state.agent.increment state.agent.lastTag))) := by
      simp [trackObjectStep, setAndGetTagStep, AgentState.setAndGetTag_new untagged]
    refine setAndGetTag_run .ofClass untagged ?_ returns ?_
    · intro agent pc next pc' stepped
      simp [trackObjectStep, stepped]
    · refine Repeats.head (calling_step rfl) ?_
      have rest := @trackObject_run_object jvm state
        (AgentState.storeClassTag jvm (state.agent.setAndGetTag (jvm.classOf object)).2.2
          (jvm.classOf object) (state.agent.increment state.agent.lastTag) true) object
        (state.agent.increment state.agent.lastTag)
      simpa only [AgentState.trackObject, AgentState.getObjectTag,
        AgentState.setAndGetTag_new untagged, if_true] using rest
  · have stepped : trackObjectStep jvm state.agent object (.ofClass .getTag) =
        (state.agent,
          some (.ofObject (state.agent.tag (jvm.classOf object)) .getTag)) := by
      simp [trackObjectStep, setAndGetTagStep, untagged]
    refine Repeats.head (calling_step stepped) ?_
    have rest := @trackObject_run_object jvm state state.agent object
      (state.agent.tag (jvm.classOf object))
    simpa only [AgentState.trackObject, AgentState.getObjectTag,
      AgentState.setAndGetTag_old untagged, Bool.false_eq_true, if_false] using rest

/-- A class pass that the agent thread runs uninterrupted, with its flush. -/
theorem classPass_alone (classes : List Entity) (state : TagMachine)
    (atStart : state.agentPc = .classPass classes) :
    Repeats jvm .agentStep state
      { state with
        agent := (AgentState.checkAndTagClasses jvm state.agent classes false).flushMsgGrp
        agentPc := .idle } := by
  induction classes generalizing state with
  | nil =>
      have stepped : agentThreadStep jvm state.agent state.agentPc =
          some (state.agent.flushMsgGrp, .idle) := by
        rw [atStart]
        rfl
      exact Repeats.head (agentStep_eq stepped) (Repeats.refl _ _)
  | cons cls classes ih =>
      by_cases untagged : state.agent.tag cls = 0
      · have first : agentThreadStep jvm state.agent state.agentPc =
            some (state.agent, .readForSet cls classes) := by
          simp [atStart, agentThreadStep, untagged]
        refine Repeats.head (agentStep_eq first) ?_
        refine Repeats.head (agentStep_eq rfl) ?_
        refine Repeats.head (agentStep_eq rfl) ?_
        refine Repeats.head (agentStep_eq rfl) ?_
        refine Repeats.head (agentStep_eq rfl) ?_
        refine Repeats.head (agentStep_eq rfl) ?_
        have rest := ih
          { state with
            agent := AgentState.storeClassTag jvm
              { state.agent.setTag cls state.agent.lastTag with
                lastTag := state.agent.increment state.agent.lastTag } cls 0 false
            agentPc := .classPass classes } rfl
        simp only [AgentState.checkAndTagClasses, untagged, if_true]
        exact rest
      · have first : agentThreadStep jvm state.agent state.agentPc =
            some (state.agent, .storeClassTag cls classes (state.agent.tag cls)) := by
          simp [atStart, agentThreadStep, untagged]
        refine Repeats.head (agentStep_eq first) ?_
        refine Repeats.head (agentStep_eq rfl) ?_
        have rest := ih
          { state with
            agent := AgentState.storeClassTag jvm state.agent cls (state.agent.tag cls) false
            agentPc := .classPass classes } rfl
        simpa only [AgentState.checkAndTagClasses, untagged, if_false] using rest

/-- The callbacks of a walk, with no other step between them. -/
theorem callbacks_alone (references : List HeapReference) (state : TagMachine)
    (walking : state.agentPc = .walking)
    (live : ∀ reference ∈ references, state.ReferenceLive reference) :
    runFrom (TagMachine.step jvm) state (references.map TagAction.callback) = some
      { state with agent := AgentState.followReferences jvm state.agent references } := by
  induction references generalizing state with
  | nil => rfl
  | cons reference references ih =>
      have stepped : state.step jvm (.callback reference) = some
          { state with agent := AgentState.reportReference jvm state.agent reference } := by
        simp [TagMachine.step, walking, live reference (List.mem_cons_self ..)]
      refine runFrom_cons_eq_some.mpr ⟨_, stepped, ?_⟩
      exact ih _ walking fun other listed => live other (List.mem_cons_of_mem _ listed)

/-- An uninterrupted `onFollowReference`. -/
theorem followReference_alone (references : List HeapReference) (state : TagMachine)
    (idle : state.agentPc = .idle)
    (live : ∀ reference ∈ references, state.ReferenceLive reference) :
    runFrom (TagMachine.step jvm) state
      (.startFollowReference :: .agentStep ::
        (references.map TagAction.callback ++ [.agentStep, .agentStep])) = some
      { state with agent := AgentState.onFollowReference jvm state.agent references } := by
  have started : state.step jvm .startFollowReference = some
      { state with agent := state.agent.startMsgGrp, agentPc := .walk } := by
    simp [TagMachine.step, idle]
  refine runFrom_cons_eq_some.mpr ⟨_, started, runFrom_cons_eq_some.mpr
    ⟨_, agentStep_eq rfl, ?_⟩⟩
  have walked := @callbacks_alone jvm references
    { state with agent := state.agent.startMsgGrp, agentPc := .walking } rfl live
  rw [runFrom_append]
  refine Option.bind_eq_some_iff.mpr ⟨_, walked, ?_⟩
  refine runFrom_cons_eq_some.mpr ⟨_, agentStep_eq rfl, runFrom_cons_eq_some.mpr
    ⟨_, agentStep_eq rfl, ?_⟩⟩
  simp [AgentState.onFollowReference, ← idle]

end Alone

end HeapScan
