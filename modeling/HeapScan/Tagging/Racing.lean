import HeapScan.Tagging.Concurrent
import Mathlib.Data.List.Perm.Subperm

/-!
# Numbering in several threads

The tracking path reads the tag of an entity and `lastTag` and writes them later,
and takes no lock in between.  This file says which steps of the other threads
may not come in between: a run without them sets every tag once and announces
the tags that are carried, and a run that does so has none of them.
-/

namespace HeapScan

open Transition

/-- What a step does to the tags: one `GetTag`, read of `lastTag`, `SetTag` or return. -/
structure TagEffect where
  /-- The entity that `GetTag` finds without a tag. -/
  found : List Entity := []
  /-- The value of `lastTag` that is read for `SetTag`. -/
  taken : List ℤ := []
  /-- The call of `SetTag`. -/
  setTag : List (Entity × ℤ) := []
  /-- The entity, and the value of `lastTag` that `setAndGetTag` returns for its tag. -/
  returned : List (Entity × ℤ) := []

namespace SetTagPc

/-- The entity, from the `GetTag` that finds it without a tag to its `SetTag`. -/
def numbering (entity : Entity) : SetTagPc → List Entity
  | .getTag | .readForReturn => []
  | .readLastTag | .writeLastTag _ | .readForSet | .setTag _ => [entity]

/-- The tag that the next step sets. -/
def held (_ : Entity) : SetTagPc → List ℤ
  | .setTag tag => [tag]
  | _ => []

/-- The value of `lastTag` that the thread is about to replace by the next one. -/
def reads (_ : Entity) : SetTagPc → List ℤ
  | .writeLastTag value => [value]
  | _ => []

/-- The entity, after its `SetTag`. -/
def returning (entity : Entity) : SetTagPc → List Entity
  | .readForReturn => [entity]
  | _ => []

def effect (state : AgentState) (entity : Entity) : SetTagPc → TagEffect
  | .getTag => { found := if state.tag entity = 0 then [entity] else [] }
  | .readForSet => { taken := [state.lastTag] }
  | .setTag tag => { setTag := [(entity, tag)] }
  | .readForReturn => { returned := [(entity, state.lastTag)] }
  | .readLastTag | .writeLastTag _ => {}

end SetTagPc

namespace Tracking

/-- What a call of `setAndGetTag` is asked for the one that `trackObject` is in, if it is in one. -/
def inSetTag {α : Type} (jvm : Jvm) (ask : Entity → SetTagPc → List α) (call : Tracking) :
    List α :=
  match call.pc with
  | .ofClass pc => ask (jvm.classOf call.object) pc
  | .ofObject _ pc => ask call.object pc
  | .storeClassTag _ | .storeObjectTag _ _ => []

def effect (jvm : Jvm) (state : AgentState) (call : Tracking) : TagEffect :=
  match call.pc with
  | .ofClass pc => pc.effect state (jvm.classOf call.object)
  | .ofObject _ pc => pc.effect state call.object
  | .storeClassTag _ | .storeObjectTag _ _ => {}

/-- The tags in the message that the call is about to include. -/
def unsent (jvm : Jvm) (call : Tracking) : List (Entity × ℤ) :=
  match call.pc with
  | .storeClassTag classTag => [(jvm.classOf call.object, classTag)]
  | .storeObjectTag classTag objectTag =>
      [(call.object, objectTag), (jvm.classOf call.object, classTag)]
  | .ofClass _ | .ofObject _ _ => []

/-- The class tag that the call will put into the OBJECT_TAG message. -/
def noted (jvm : Jvm) (call : Tracking) : List (Entity × ℤ) :=
  match call.pc with
  | .ofObject classTag _ => [(jvm.classOf call.object, classTag)]
  | _ => []

end Tracking

namespace AgentPc

def numbering : AgentPc → List Entity
  | .readForSet cls _ | .setTag cls _ _ => [cls]
  | _ => []

def held : AgentPc → List ℤ
  | .setTag _ _ tag => [tag]
  | _ => []

def reads : AgentPc → List ℤ
  | .writeLastTag _ _ value => [value]
  | _ => []

def effect (state : AgentState) : AgentPc → TagEffect
  | .classPass (cls :: _) => { found := if state.tag cls = 0 then [cls] else [] }
  | .readForSet _ _ => { taken := [state.lastTag] }
  | .setTag cls _ tag => { setTag := [(cls, tag)] }
  | _ => {}

end AgentPc

/-- The step is not a callback of a heap walk. -/
def TagAction.OutsideWalk : TagAction → Prop
  | .callback _ => False
  | _ => True

instance : ∀ action : TagAction, Decidable action.OutsideWalk
  | .callback _ => isFalse id
  | .startClassMetadata _ | .startFollowReference | .agentStep | .startTrack _ | .trackStep _
  | .free _ => isTrue trivial

/-- The entities whose tags the message gives, with the tags. -/
def AgentMsg.tags (jvm : Jvm) : AgentMsg → List (Entity × ℤ)
  | .classTag cls _ tag => [(cls, tag)]
  | .objectTag object tag objectClassTag =>
      [(object, tag), (jvm.classOf object, objectClassTag)]
  | .deallocateObject .. | .heapRefInfo .. => []

namespace AgentState

/-- A message that was included at once, as only `trackObject` includes them, gives the tag. -/
def Sent (jvm : Jvm) (state : AgentState) (given : Entity × ℤ) : Prop :=
  ∃ call ∈ state.included, call.immediateFl = true ∧ given ∈ call.msg.tags jvm

/-- The tags in the messages of `trackObject` are those that the JVM has. -/
def AnnouncesCarried (jvm : Jvm) (state : AgentState) : Prop :=
  ∀ call ∈ state.included, call.immediateFl = true →
    ∀ given ∈ call.msg.tags jvm, state.tag given.1 = given.2

instance (jvm : Jvm) (state : AgentState) : Decidable (state.AnnouncesCarried jvm) :=
  inferInstanceAs (Decidable (∀ call ∈ state.included, _))

end AgentState

/-- Every entity is in at most one call of `SetTag`, with a tag of its own. -/
structure SetOnce (calls : List (Entity × ℤ)) : Prop where
  entities : (calls.map Prod.fst).Nodup
  tags : (calls.map Prod.snd).Nodup
  nonzero : ∀ call ∈ calls, call.2 ≠ 0

namespace TagMachine

/-- What the threads are asked, one after another. -/
def overThreads {α : Type} (ofAgent : AgentPc → List α) (ofCall : Tracking → List α)
    (state : TagMachine) : List α :=
  state.tracking.flatMap ofCall ++ ofAgent state.agentPc

/-- The entities that were found without a tag and are about to be given one. -/
def numbering (jvm : Jvm) (state : TagMachine) : List Entity :=
  state.overThreads AgentPc.numbering (Tracking.inSetTag jvm SetTagPc.numbering)

/-- The tags that were read and are about to be given. -/
def held (jvm : Jvm) (state : TagMachine) : List ℤ :=
  state.overThreads AgentPc.held (Tracking.inSetTag jvm SetTagPc.held)

def effect (jvm : Jvm) (state : TagMachine) : TagAction → TagEffect
  | .agentStep => state.agentPc.effect state.agent
  | .trackStep call =>
      match state.tracking[call]? with
      | some tracking => tracking.effect jvm state.agent
      | none => {}
  | _ => {}

/-- The calls of `SetTag` in a run. -/
def setTagCalls (jvm : Jvm) : TagMachine → List TagAction → List (Entity × ℤ) :=
  emitted (step jvm) fun state action => (state.effect jvm action).setTag

/--
No other thread comes between the accesses of a numbering: `GetTag` finds no
entity without a tag that another thread is numbering, a value of `lastTag` that
is read for `SetTag` is neither carried nor about to be given, and where it is
read for the return value it is the tag that has been set.
-/
structure Undisturbed (jvm : Jvm) (state : TagMachine) (action : TagAction) : Prop where
  found : ∀ entity ∈ (state.effect jvm action).found, entity ∉ state.numbering jvm
  taken : ∀ tag ∈ (state.effect jvm action).taken, tag ∉ state.held jvm ∧
    ∀ entity, state.agent.tag entity ≠ tag
  returned : ∀ given ∈ (state.effect jvm action).returned, state.agent.tag given.1 = given.2

/-- No call of `trackObject` and no command is under way. -/
def Finished (state : TagMachine) : Prop := state.agentPc = .idle ∧ state.tracking = []

/-- The values of `lastTag` that the threads are about to replace by the next one. -/
def reads (jvm : Jvm) (state : TagMachine) : List ℤ :=
  state.overThreads AgentPc.reads (Tracking.inSetTag jvm SetTagPc.reads)

/-- The counter has no bound and is positive, and it was where a thread has read it. -/
def Positive (jvm : Jvm) (state : TagMachine) : Prop :=
  state.agent.CountsUp ∧ ∀ value ∈ state.reads jvm, 0 < value

/-- The entities that a thread has set a tag of and not returned yet. -/
def returning (jvm : Jvm) (state : TagMachine) : List Entity :=
  state.overThreads (fun _ => []) (Tracking.inSetTag jvm SetTagPc.returning)

/-- A message of `trackObject` gives the tag, or will in the thread's next step. -/
def Announced (jvm : Jvm) (state : TagMachine) (given : Entity × ℤ) : Prop :=
  state.agent.Sent jvm given ∨ ∃ call ∈ state.tracking, given ∈ call.unsent jvm

/-- A message of `trackObject` gives the tag, or a thread has it for one. -/
def Stated (jvm : Jvm) (state : TagMachine) (given : Entity × ℤ) : Prop :=
  state.Announced jvm given ∨ ∃ call ∈ state.tracking, given ∈ call.noted jvm

end TagMachine

def TagEffect.apply (effect : TagEffect) (tags : Entity → ℤ) : Entity → ℤ :=
  effect.setTag.foldl (fun tags call => Function.update tags call.1 call.2) tags

/-- An entity's tag after a step is one that the step sets, or is as it was. -/
theorem TagEffect.apply_cases (effect : TagEffect) (tags : Entity → ℤ) (entity : Entity) :
    (entity, effect.apply tags entity) ∈ effect.setTag ∨
      entity ∉ effect.setTag.map Prod.fst ∧ effect.apply tags entity = tags entity := by
  rw [TagEffect.apply]
  induction effect.setTag generalizing tags with
  | nil => exact Or.inr ⟨List.not_mem_nil, rfl⟩
  | cons call calls ih =>
      rcases ih (Function.update tags call.1 call.2) with isSet | ⟨notSet, same⟩
      · exact Or.inl (List.mem_cons_of_mem _ isSet)
      · rw [List.foldl_cons, same]
        by_cases isCall : entity = call.1
        · left
          rw [isCall, Function.update_self]
          exact List.mem_cons_self ..
        · right
          rw [Function.update_of_ne isCall]
          exact ⟨by simpa [isCall] using notSet, rfl⟩

section Thread

/-- What `setAndGetTag` is asked after a step that leads to `result`. -/
def afterSetTag {α : Type} (ask : Entity → SetTagPc → List α) (entity : Entity) :
    SetTagPc ⊕ ℤ × Bool → List α
  | .inl pc => ask entity pc
  | .inr _ => []

variable {state next : AgentState} {entity : Entity} {pc : SetTagPc}
  {result : SetTagPc ⊕ ℤ × Bool}

/-- What one step of `setAndGetTag` does to the tags and to the thread's own numbering. -/
structure SetTagStep (state next : AgentState) (entity : Entity) (pc : SetTagPc)
    (result : SetTagPc ⊕ ℤ × Bool) : Prop where
  included : next.included = state.included
  tag : next.tag = (pc.effect state entity).apply state.tag
  numbering : (pc.effect state entity).setTag.map Prod.fst ++
      afterSetTag SetTagPc.numbering entity result =
    (pc.effect state entity).found ++ pc.numbering entity
  held : (pc.effect state entity).setTag.map Prod.snd ++
      afterSetTag SetTagPc.held entity result =
    (pc.effect state entity).taken ++ pc.held entity
  positive : state.CountsUp → (∀ value ∈ pc.reads entity, 0 < value) →
    next.CountsUp ∧ ∀ value ∈ afterSetTag SetTagPc.reads entity result, 0 < value
  returning : afterSetTag SetTagPc.returning entity result =
    (pc.effect state entity).setTag.map Prod.fst
  goesOn : ∀ pc', result = .inl pc' → (pc.effect state entity).returned = []
  isSet : ∀ tag, result = .inr (tag, true) → (pc.effect state entity).returned = [(entity, tag)]
  isOld : ∀ tag, result = .inr (tag, false) →
    (pc.effect state entity).returned = [] ∧ state.tag entity = tag ∧ tag ≠ 0

theorem setAndGetTagStep_spec (stepped : setAndGetTagStep state entity pc = (next, result)) :
    SetTagStep state next entity pc result := by
  cases pc with
  | getTag =>
      by_cases untagged : state.tag entity = 0
      · simp only [setAndGetTagStep, untagged, ne_eq, not_true, if_false] at stepped
        cases stepped
        constructor <;> simp [SetTagPc.effect, TagEffect.apply, afterSetTag, untagged,
          SetTagPc.numbering, SetTagPc.held, SetTagPc.reads, SetTagPc.returning]
      · simp only [setAndGetTagStep, ne_eq, untagged, not_false_eq_true, if_true] at stepped
        cases stepped
        constructor <;> simp +contextual [SetTagPc.effect, TagEffect.apply, afterSetTag, untagged,
          SetTagPc.numbering, SetTagPc.held]
  | readLastTag =>
      cases stepped
      constructor <;> simp [SetTagPc.effect, TagEffect.apply, afterSetTag,
        SetTagPc.numbering, SetTagPc.held, SetTagPc.reads, SetTagPc.returning]
      exact fun counter => ⟨counter, counter.2⟩
  | writeLastTag value =>
      cases stepped
      constructor <;> simp [SetTagPc.effect, TagEffect.apply, afterSetTag,
        SetTagPc.numbering, SetTagPc.held, SetTagPc.reads, SetTagPc.returning]
      exact fun counter positive => counter.count positive
  | readForSet =>
      cases stepped
      constructor <;> simp [SetTagPc.effect, TagEffect.apply, afterSetTag,
        SetTagPc.numbering, SetTagPc.held, SetTagPc.reads, SetTagPc.returning]
  | setTag tag =>
      cases stepped
      constructor <;> simp +contextual [SetTagPc.effect, TagEffect.apply, afterSetTag,
        SetTagPc.numbering, SetTagPc.held, SetTagPc.reads, SetTagPc.returning,
        AgentState.setTag, AgentState.CountsUp]
  | readForReturn =>
      cases stepped
      constructor <;> simp +contextual [SetTagPc.effect, TagEffect.apply, afterSetTag,
        SetTagPc.numbering, SetTagPc.held, SetTagPc.reads]

/-- What one step of `trackObject` does to the tags, the messages and the thread's numbering. -/
structure TrackStep (jvm : Jvm) (state next : AgentState) (call : Tracking)
    (after : List Tracking) : Prop where
  tag : next.tag = (call.effect jvm state).apply state.tag
  numbering : (call.effect jvm state).setTag.map Prod.fst ++
      after.flatMap (Tracking.inSetTag jvm SetTagPc.numbering) =
    (call.effect jvm state).found ++ call.inSetTag jvm SetTagPc.numbering
  held : (call.effect jvm state).setTag.map Prod.snd ++
      after.flatMap (Tracking.inSetTag jvm SetTagPc.held) =
    (call.effect jvm state).taken ++ call.inSetTag jvm SetTagPc.held
  positive : state.CountsUp → (∀ value ∈ call.inSetTag jvm SetTagPc.reads, 0 < value) →
    next.CountsUp ∧
      ∀ value ∈ after.flatMap (Tracking.inSetTag jvm SetTagPc.reads), 0 < value
  returning : after.flatMap (Tracking.inSetTag jvm SetTagPc.returning) =
    (call.effect jvm state).setTag.map Prod.fst
  kept : ∀ given, state.Sent jvm given ∨ given ∈ call.unsent jvm ∨
      given ∈ (call.effect jvm state).returned →
    next.Sent jvm given ∨ given ∈ after.flatMap (Tracking.unsent jvm)
  stated : ∀ given, next.Sent jvm given ∨ given ∈ after.flatMap (Tracking.unsent jvm) ∨
      given ∈ after.flatMap (Tracking.noted jvm) →
    (state.Sent jvm given ∨ given ∈ call.unsent jvm ∨ given ∈ call.noted jvm) ∨
      given ∈ (call.effect jvm state).returned ∨
      state.tag given.1 = given.2 ∧ given.2 ≠ 0

theorem sent_congr (jvm : Jvm) (same : next.included = state.included) (given : Entity × ℤ) :
    next.Sent jvm given ↔ state.Sent jvm given := by
  unfold AgentState.Sent
  rw [same]

theorem includeMessage_sent (jvm : Jvm) (state : AgentState) (msg : AgentMsg) (msgSize : ℤ)
    (immediateFl : Bool) (given : Entity × ℤ) :
    (state.includeMessage msg msgSize immediateFl).Sent jvm given ↔
      state.Sent jvm given ∨ immediateFl = true ∧ given ∈ msg.tags jvm := by
  have included : (state.includeMessage msg msgSize immediateFl).included =
      state.included ++ [⟨msg, msgSize, immediateFl⟩] := by
    unfold AgentState.includeMessage
    split <;> rfl
  unfold AgentState.Sent
  rw [included]
  simp only [List.mem_append, List.mem_singleton, or_and_right, exists_or, exists_eq_left]

/-- A step of `trackObject` within `setAndGetTag`, for what the call and its successor are. -/
theorem SetTagStep.trackStep {jvm : Jvm} {call : Tracking} {after : List Tracking}
    (step : SetTagStep state next entity pc result)
    (asked : ∀ {α : Type} (ask : Entity → SetTagPc → List α), call.inSetTag jvm ask = ask entity pc)
    (effect : call.effect jvm state = pc.effect state entity)
    (nothing : call.unsent jvm = [])
    (goesOn : ∀ {α : Type} (ask : Entity → SetTagPc → List α), (∀ entity, ask entity .getTag = []) →
      after.flatMap (Tracking.inSetTag jvm ask) = afterSetTag ask entity result)
    (kept : (pc.effect state entity).returned ⊆ after.flatMap (Tracking.unsent jvm))
    (stated : ∀ given, given ∈ after.flatMap (Tracking.unsent jvm) ∨
        given ∈ after.flatMap (Tracking.noted jvm) →
      given ∈ call.noted jvm ∨ given ∈ (pc.effect state entity).returned ∨
        state.tag given.1 = given.2 ∧ given.2 ≠ 0) :
    TrackStep jvm state next call after where
  tag := effect ▸ step.tag
  numbering := by rw [effect, goesOn _ fun _ => rfl, asked, step.numbering]
  held := by rw [effect, goesOn _ fun _ => rfl, asked, step.held]
  positive := by
    rw [asked, goesOn _ fun _ => rfl]
    exact step.positive
  returning := by rw [effect, goesOn _ fun _ => rfl, step.returning]
  kept given := by
    rw [nothing, effect, sent_congr jvm step.included]
    rintro (sent | none | returned)
    · exact Or.inl sent
    · simp at none
    · exact Or.inr (kept returned)
  stated given := by
    rw [effect, sent_congr jvm step.included]
    rintro (sent | others)
    · exact Or.inl (Or.inl sent)
    · rcases stated given others with noted | rest
      · exact Or.inl (Or.inr (Or.inr noted))
      · exact Or.inr rest

theorem trackStep_of_send {jvm : Jvm} {call : Tracking} {after : List Tracking}
    (sameTags : next.tag = state.tag) (counts : next.CountsUp ↔ state.CountsUp)
    (effect : call.effect jvm state = {})
    (asked : ∀ {α : Type} (ask : Entity → SetTagPc → List α), call.inSetTag jvm ask = [])
    (goesOn : ∀ {α : Type} (ask : Entity → SetTagPc → List α), (∀ entity, ask entity .getTag = []) →
      after.flatMap (Tracking.inSetTag jvm ask) = [])
    (sent : ∀ given, next.Sent jvm given ↔ state.Sent jvm given ∨ given ∈ call.unsent jvm)
    (nothing : after.flatMap (Tracking.unsent jvm) = [])
    (noted : after.flatMap (Tracking.noted jvm) ⊆ call.unsent jvm) :
    TrackStep jvm state next call after where
  tag := by rw [effect, sameTags]; rfl
  numbering := by rw [effect, goesOn _ fun _ => rfl, asked]; rfl
  held := by rw [effect, goesOn _ fun _ => rfl, asked]; rfl
  positive counter _ := by
    rw [goesOn _ fun _ => rfl]
    exact ⟨counts.mpr counter, by simp⟩
  returning := by rw [effect, goesOn _ fun _ => rfl]; rfl
  kept given := by
    rw [effect, sent]
    rintro (before | now | none)
    · exact Or.inl (Or.inl before)
    · exact Or.inl (Or.inr now)
    · simp at none
  stated given := by
    rw [sent, nothing]
    rintro ((before | now) | none | later)
    · exact Or.inl (Or.inl before)
    · exact Or.inl (Or.inr (Or.inl now))
    · simp at none
    · exact Or.inl (Or.inr (Or.inl (noted later)))

theorem trackObjectStep_spec {jvm : Jvm} {call : Tracking} {result : Option TrackPc}
    (stepped : trackObjectStep jvm state call.object call.pc = (next, result)) :
    TrackStep jvm state next call (result.map fun pc => { call with pc }).toList := by
  rcases call with ⟨object, pc⟩
  cases pc with
  | ofClass pc =>
      rcases inSetTag : setAndGetTagStep state (jvm.classOf object) pc with ⟨middle, result⟩
      have spec := setAndGetTagStep_spec inSetTag
      simp only [trackObjectStep, inSetTag] at stepped
      rcases result with pc' | ⟨classTag, _ | _⟩ <;> cases stepped
      · refine spec.trackStep (fun _ => rfl) rfl rfl ?_ ?_ ?_
        · simp [Tracking.inSetTag, afterSetTag]
        · simp [spec.goesOn pc' rfl]
        · simp [Tracking.unsent, Tracking.noted]
      · have old := spec.isOld classTag rfl
        refine spec.trackStep (fun _ => rfl) rfl rfl ?_ ?_ ?_
        · simp +contextual [Tracking.inSetTag, afterSetTag]
        · simp [old.1]
        · simpa [Tracking.unsent, Tracking.noted, old.1] using old.2
      · have returned := spec.isSet classTag rfl
        refine spec.trackStep (fun _ => rfl) rfl rfl ?_ ?_ ?_
        · simp [Tracking.inSetTag, afterSetTag]
        · simp [returned, Tracking.unsent]
        · simp [Tracking.unsent, Tracking.noted, returned]
  | storeClassTag classTag =>
      cases stepped
      refine trackStep_of_send (AgentState.storeClassTag_tag ..)
        (AgentState.includeMessage_countsUp ..) rfl (fun _ => rfl) ?_ ?_ rfl ?_
      · simp +contextual [Tracking.inSetTag]
      · simp [AgentState.storeClassTag, includeMessage_sent, AgentMsg.tags, Tracking.unsent]
      · simp [Tracking.noted, Tracking.unsent]
  | ofObject classTag pc =>
      rcases inSetTag : setAndGetTagStep state object pc with ⟨middle, result⟩
      have spec := setAndGetTagStep_spec inSetTag
      simp only [trackObjectStep, inSetTag] at stepped
      rcases result with pc' | ⟨objectTag, _ | _⟩ <;> cases stepped
      · refine spec.trackStep (fun _ => rfl) rfl rfl ?_ ?_ ?_
        · simp [Tracking.inSetTag, afterSetTag]
        · simp [spec.goesOn pc' rfl]
        · simp +contextual [Tracking.unsent, Tracking.noted]
      · have old := spec.isOld objectTag rfl
        refine spec.trackStep (fun _ => rfl) rfl rfl ?_ ?_ ?_
        · simp [afterSetTag]
        · simp [old.1]
        · simp
      · have returned := spec.isSet objectTag rfl
        refine spec.trackStep (fun _ => rfl) rfl rfl ?_ ?_ ?_
        · simp [Tracking.inSetTag, afterSetTag]
        · simp [returned, Tracking.unsent]
        · simp [Tracking.unsent, Tracking.noted, returned]
  | storeObjectTag classTag objectTag =>
      cases stepped
      refine trackStep_of_send (AgentState.storeObjectTag_tag ..)
        (AgentState.includeMessage_countsUp ..) rfl (fun _ => rfl) ?_ ?_ rfl ?_
      · simp
      · simp [AgentState.storeObjectTag, includeMessage_sent, AgentMsg.tags, Tracking.unsent]
      · simp

end Thread

namespace TagMachine

variable {jvm : Jvm} {state next : TagMachine} {effect : TagEffect}

/-- What a step does to the tags, the messages and the numberings of all threads. -/
structure StepEffect (jvm : Jvm) (effect : TagEffect) (state next : TagMachine) : Prop where
  tag : next.agent.tag = effect.apply state.agent.tag
  numbering : (effect.setTag.map Prod.fst ++ next.numbering jvm).Perm
    (effect.found ++ state.numbering jvm)
  held : (effect.setTag.map Prod.snd ++ next.held jvm).Perm (effect.taken ++ state.held jvm)
  positive : state.Positive jvm → next.Positive jvm
  returning : ∀ entity ∈ next.returning jvm,
    entity ∈ state.returning jvm ∨ entity ∈ effect.setTag.map Prod.fst
  kept : ∀ given, state.Announced jvm given ∨ given ∈ effect.returned → next.Announced jvm given
  stated : ∀ given, next.Stated jvm given → state.Stated jvm given ∨ given ∈ effect.returned ∨
    state.agent.tag given.1 = given.2 ∧ given.2 ≠ 0

section Threads

variable {before after others : List Tracking}

theorem overThreads_perm {α : Type} (ofAgent : AgentPc → List α) (ofCall : Tracking → List α)
    (tracking : state.tracking.Perm (before ++ others)) :
    (state.overThreads ofAgent ofCall).Perm
      ((before.flatMap ofCall ++ ofAgent state.agentPc) ++ others.flatMap ofCall) := by
  have split := (tracking.flatMap_right ofCall).append_right (ofAgent state.agentPc)
  rw [List.flatMap_append, List.append_assoc] at split
  rw [List.append_assoc]
  exact split.trans (List.perm_append_comm.append_left _)

theorem mem_overThreads {α : Type} (ofAgent : AgentPc → List α) (ofCall : Tracking → List α)
    (tracking : state.tracking.Perm (before ++ others)) (x : α) :
    x ∈ state.overThreads ofAgent ofCall ↔
      x ∈ before.flatMap ofCall ++ ofAgent state.agentPc ∨ x ∈ others.flatMap ofCall := by
  rw [(overThreads_perm ofAgent ofCall tracking).mem_iff, List.mem_append]

/-- What the threads that take no part in a step are asked is not changed by it. -/
theorem overThreads_frame {α : Type} {ofAgent : AgentPc → List α} {ofCall : Tracking → List α}
    {gone come : List α} (wasTracking : state.tracking.Perm (before ++ others))
    (isTracking : next.tracking.Perm (after ++ others))
    (same : gone ++ (after.flatMap ofCall ++ ofAgent next.agentPc) =
      come ++ (before.flatMap ofCall ++ ofAgent state.agentPc)) :
    (gone ++ next.overThreads ofAgent ofCall).Perm
      (come ++ state.overThreads ofAgent ofCall) := by
  have now := (overThreads_perm ofAgent ofCall isTracking).append_left gone
  have was := (overThreads_perm ofAgent ofCall wasTracking).append_left come
  rw [← List.append_assoc, same, List.append_assoc] at now
  exact now.trans was.symm

theorem announced_iff (tracking : state.tracking.Perm (before ++ others)) (given : Entity × ℤ) :
    state.Announced jvm given ↔
      (state.agent.Sent jvm given ∨ given ∈ before.flatMap (Tracking.unsent jvm)) ∨
        given ∈ others.flatMap (Tracking.unsent jvm) := by
  rw [Announced, ← List.mem_flatMap, (tracking.flatMap_right _).mem_iff, List.flatMap_append,
    List.mem_append, or_assoc]

theorem stated_iff (tracking : state.tracking.Perm (before ++ others)) (given : Entity × ℤ) :
    state.Stated jvm given ↔
      (state.agent.Sent jvm given ∨ given ∈ before.flatMap (Tracking.unsent jvm) ∨
          given ∈ before.flatMap (Tracking.noted jvm)) ∨
        (given ∈ others.flatMap (Tracking.unsent jvm) ∨
          given ∈ others.flatMap (Tracking.noted jvm)) := by
  rw [Stated, announced_iff tracking, ← List.mem_flatMap, (tracking.flatMap_right _).mem_iff,
    List.flatMap_append, List.mem_append, or_or_or_comm, @or_assoc (state.agent.Sent jvm given)]

/-- A step of the threads `before`, which `after` are the successors of. -/
theorem stepEffect_of_threads (wasTracking : state.tracking.Perm (before ++ others))
    (isTracking : next.tracking.Perm (after ++ others))
    (tag : next.agent.tag = effect.apply state.agent.tag)
    (numbering : effect.setTag.map Prod.fst ++
        (after.flatMap (Tracking.inSetTag jvm SetTagPc.numbering) ++ next.agentPc.numbering) =
      effect.found ++
        (before.flatMap (Tracking.inSetTag jvm SetTagPc.numbering) ++ state.agentPc.numbering))
    (held : effect.setTag.map Prod.snd ++
        (after.flatMap (Tracking.inSetTag jvm SetTagPc.held) ++ next.agentPc.held) =
      effect.taken ++
        (before.flatMap (Tracking.inSetTag jvm SetTagPc.held) ++ state.agentPc.held))
    (positive : state.agent.CountsUp →
      (∀ value ∈ before.flatMap (Tracking.inSetTag jvm SetTagPc.reads) ++ state.agentPc.reads,
        0 < value) →
      next.agent.CountsUp ∧
        ∀ value ∈ after.flatMap (Tracking.inSetTag jvm SetTagPc.reads) ++ next.agentPc.reads,
          0 < value)
    (returning : after.flatMap (Tracking.inSetTag jvm SetTagPc.returning) ⊆
      effect.setTag.map Prod.fst)
    (kept : ∀ given, state.agent.Sent jvm given ∨ given ∈ before.flatMap (Tracking.unsent jvm) ∨
        given ∈ effect.returned →
      next.agent.Sent jvm given ∨ given ∈ after.flatMap (Tracking.unsent jvm))
    (stated : ∀ given, next.agent.Sent jvm given ∨ given ∈ after.flatMap (Tracking.unsent jvm) ∨
        given ∈ after.flatMap (Tracking.noted jvm) →
      (state.agent.Sent jvm given ∨ given ∈ before.flatMap (Tracking.unsent jvm) ∨
          given ∈ before.flatMap (Tracking.noted jvm)) ∨
        given ∈ effect.returned ∨ state.agent.tag given.1 = given.2 ∧ given.2 ≠ 0) :
    StepEffect jvm effect state next where
  tag := tag
  numbering := overThreads_frame wasTracking isTracking numbering
  held := overThreads_frame wasTracking isTracking held
  positive := by
    rintro ⟨counter, reads⟩
    have own := positive counter fun value listed =>
      reads value ((mem_overThreads _ _ wasTracking value).mpr (Or.inl listed))
    refine ⟨own.1, fun value listed => ?_⟩
    rcases (mem_overThreads _ _ isTracking value).mp listed with ofStep | other
    · exact own.2 value ofStep
    · exact reads value ((mem_overThreads _ _ wasTracking value).mpr (Or.inr other))
  returning entity listed := by
    rcases (mem_overThreads _ _ isTracking entity).mp listed with ofStep | other
    · exact Or.inr (returning (by simpa using ofStep))
    · exact Or.inl ((mem_overThreads _ _ wasTracking entity).mpr (Or.inr other))
  kept given := by
    rw [announced_iff wasTracking, announced_iff isTracking]
    rintro (((sent | unsent) | other) | returned)
    · exact Or.inl (kept given (Or.inl sent))
    · exact Or.inl (kept given (Or.inr (Or.inl unsent)))
    · exact Or.inr other
    · exact Or.inl (kept given (Or.inr (Or.inr returned)))
  stated given := by
    rw [stated_iff wasTracking, stated_iff isTracking]
    rintro (ofStep | other)
    · rcases stated given ofStep with before | rest
      · exact Or.inl (Or.inl before)
      · exact Or.inr rest
    · exact Or.inl (Or.inr other)

end Threads

theorem trackStep_effect {index : ℕ} (stepped : state.step jvm (.trackStep index) = some next) :
    StepEffect jvm (state.effect jvm (.trackStep index)) state next := by
  simp only [step, Option.bind_eq_bind, Option.bind_eq_some_iff] at stepped
  rcases stepped with ⟨call, isCall, stepped⟩
  rcases threadStep : trackObjectStep jvm state.agent call.object call.pc with ⟨agent, result⟩
  have spec := trackObjectStep_spec threadStep
  have effect : state.effect jvm (.trackStep index) = call.effect jvm state.agent := by
    simp only [TagMachine.effect, isCall]
  rcases List.getElem?_eq_some_iff.mp isCall with ⟨inside, atIndex⟩
  have wasTracking : state.tracking.Perm ([call] ++ state.tracking.eraseIdx index) := by
    have split := (List.getElem_cons_eraseIdx_perm inside).symm
    rwa [atIndex] at split
  have isNext : next.agent = agent ∧ next.agentPc = state.agentPc ∧
      next.tracking.Perm ((result.map fun pc => { call with pc }).toList ++
        state.tracking.eraseIdx index) := by
    rw [threadStep] at stepped
    cases result with
    | none =>
        cases stepped
        exact ⟨rfl, rfl, List.Perm.refl _⟩
    | some pc =>
        cases stepped
        exact ⟨rfl, rfl, List.set_perm_cons_eraseIdx inside _⟩
  rcases isNext with ⟨isAgent, samePc, isTracking⟩
  rw [effect]
  refine stepEffect_of_threads wasTracking isTracking ?_ ?_ ?_ ?_ ?_ ?_ ?_
  · rw [isAgent, spec.tag]
  · rw [samePc, ← List.append_assoc, spec.numbering, List.append_assoc, List.flatMap_singleton]
  · rw [samePc, ← List.append_assoc, spec.held, List.append_assoc, List.flatMap_singleton]
  · rw [isAgent, samePc, List.flatMap_singleton]
    intro counter reads
    have own := spec.positive counter fun value listed =>
      reads value (List.mem_append_left _ listed)
    refine ⟨own.1, fun value listed => ?_⟩
    rcases List.mem_append.mp listed with ofCall | ofAgent
    · exact own.2 value ofCall
    · exact reads value (List.mem_append_right _ ofAgent)
  · exact spec.returning ▸ List.Subset.refl _
  · rw [isAgent, List.flatMap_singleton]
    exact spec.kept
  · rw [isAgent, List.flatMap_singleton, List.flatMap_singleton]
    exact spec.stated

/-- A step that concerns no call of `trackObject`. -/
theorem stepEffect_of_agent (tracking : next.tracking = state.tracking)
    (tag : next.agent.tag = effect.apply state.agent.tag)
    (numbering : effect.setTag.map Prod.fst ++ next.agentPc.numbering =
      effect.found ++ state.agentPc.numbering)
    (held : effect.setTag.map Prod.snd ++ next.agentPc.held = effect.taken ++ state.agentPc.held)
    (positive : state.agent.CountsUp → (∀ value ∈ state.agentPc.reads, 0 < value) →
      next.agent.CountsUp ∧ ∀ value ∈ next.agentPc.reads, 0 < value)
    (sent : ∀ given, next.agent.Sent jvm given ↔ state.agent.Sent jvm given)
    (returned : effect.returned = []) : StepEffect jvm effect state next := by
  have wasTracking : state.tracking.Perm ([] ++ state.tracking) := List.Perm.refl _
  have isTracking : next.tracking.Perm ([] ++ state.tracking) := by rw [tracking]; rfl
  refine stepEffect_of_threads wasTracking isTracking tag numbering held positive ?_ ?_ ?_
  · exact List.nil_subset _
  · simp [sent, returned]
  · simp +contextual [sent]

theorem agentStep_effect (stepped : state.step jvm .agentStep = some next) :
    StepEffect jvm (state.effect jvm .agentStep) state next := by
  simp only [step, Option.bind_eq_bind, Option.bind_eq_some_iff] at stepped
  rcases stepped with ⟨⟨agent, agentPc⟩, threadStep, isNext⟩
  cases isNext
  rcases state with ⟨state, pc, tracking, freed⟩
  change agentThreadStep jvm state pc = some (agent, agentPc) at threadStep
  cases pc with
  | idle => cases threadStep
  | classPass classes =>
      rcases classes with _ | ⟨cls, classes⟩
      · cases threadStep
        exact stepEffect_of_agent rfl rfl rfl rfl (fun counter reads => ⟨counter, reads⟩)
          (sent_congr jvm rfl) rfl
      · by_cases untagged : state.tag cls = 0
        · simp only [agentThreadStep, untagged, if_true] at threadStep
          cases threadStep
          refine stepEffect_of_agent rfl rfl ?_ rfl (fun counter reads => ⟨counter, reads⟩)
            (sent_congr jvm rfl) rfl
          simp [TagMachine.effect, AgentPc.effect, AgentPc.numbering, untagged]
        · simp only [agentThreadStep, untagged, if_false] at threadStep
          cases threadStep
          refine stepEffect_of_agent rfl rfl ?_ rfl (fun counter reads => ⟨counter, reads⟩)
            (sent_congr jvm rfl) rfl
          simp [TagMachine.effect, AgentPc.effect, AgentPc.numbering, untagged]
  | readForSet cls classes =>
      cases threadStep
      exact stepEffect_of_agent rfl rfl rfl rfl (fun counter reads => ⟨counter, reads⟩)
        (sent_congr jvm rfl) rfl
  | setTag cls classes tag =>
      cases threadStep
      exact stepEffect_of_agent rfl rfl rfl rfl (fun counter reads => ⟨counter, reads⟩)
        (sent_congr jvm rfl) rfl
  | readLastTag cls classes =>
      cases threadStep
      refine stepEffect_of_agent rfl rfl rfl rfl ?_ (sent_congr jvm rfl) rfl
      exact fun counter _ => ⟨counter, by simpa [AgentPc.reads] using counter.2⟩
  | writeLastTag cls classes value =>
      cases threadStep
      refine stepEffect_of_agent rfl rfl rfl rfl
        (fun counter reads => ⟨?_, by simp [AgentPc.reads]⟩) (sent_congr jvm rfl) rfl
      exact counter.count (reads value (by simp [AgentPc.reads]))
  | storeClassTag cls classes tagPtr =>
      cases threadStep
      refine stepEffect_of_agent rfl (AgentState.storeClassTag_tag ..) rfl rfl ?_ ?_ rfl
      · exact fun counter _ =>
          ⟨(AgentState.includeMessage_countsUp ..).mpr counter, by simp [AgentPc.reads]⟩
      · simp [AgentState.storeClassTag, includeMessage_sent]
  | walk =>
      cases threadStep
      exact stepEffect_of_agent rfl rfl rfl rfl (fun counter reads => ⟨counter, reads⟩)
        (sent_congr jvm rfl) rfl
  | walking =>
      cases threadStep
      exact stepEffect_of_agent rfl rfl rfl rfl (fun counter reads => ⟨counter, reads⟩)
        (sent_congr jvm rfl) rfl
  | flush =>
      cases threadStep
      exact stepEffect_of_agent rfl rfl rfl rfl (fun counter reads => ⟨counter, reads⟩)
        (sent_congr jvm rfl) rfl

/-- Every step but a callback does what its effect says. -/
theorem step_effect {action : TagAction} (outside : action.OutsideWalk)
    (stepped : state.step jvm action = some next) :
    StepEffect jvm (state.effect jvm action) state next := by
  cases action with
  | startClassMetadata classes =>
      simp only [step] at stepped
      split at stepped
      · rename_i enabled
        cases stepped
        refine stepEffect_of_agent rfl rfl ?_ ?_ ?_ (sent_congr jvm rfl) rfl
        · rw [enabled.1]; rfl
        · rw [enabled.1]; rfl
        · exact fun counter _ => ⟨counter, by simp [AgentPc.reads]⟩
      · cases stepped
  | startFollowReference =>
      simp only [step] at stepped
      split at stepped
      · rename_i idle
        cases stepped
        refine stepEffect_of_agent rfl rfl ?_ ?_ ?_ (sent_congr jvm rfl) rfl
        · rw [idle]; rfl
        · rw [idle]; rfl
        · exact fun counter _ => ⟨counter, by simp [AgentPc.reads]⟩
      · cases stepped
  | agentStep => exact agentStep_effect stepped
  | callback reference => exact outside.elim
  | startTrack allocatedObj =>
      simp only [step] at stepped
      split at stepped
      · cases stepped
        have wasTracking : state.tracking.Perm ([] ++ state.tracking) := List.Perm.refl _
        have isTracking := @List.perm_append_comm _ state.tracking
          [{ object := allocatedObj, pc := .ofClass .getTag }]
        refine stepEffect_of_threads wasTracking isTracking rfl rfl rfl ?_ ?_ ?_ ?_
        · exact fun counter reads => ⟨counter, reads⟩
        · exact List.nil_subset _
        · simp [TagMachine.effect, Tracking.unsent]
        · simp +contextual [Tracking.unsent, Tracking.noted]
      · cases stepped
  | trackStep index => exact trackStep_effect stepped
  | free object =>
      simp only [step] at stepped
      split at stepped
      · cases stepped
        by_cases tagged : state.agent.tag object ≠ 0
        · simp only [tagged, ne_eq, not_false_eq_true, if_true]
          refine stepEffect_of_agent rfl (AgentState.includeMessage_tag ..) rfl rfl ?_ ?_ rfl
          · exact fun counter reads =>
              ⟨(AgentState.includeMessage_countsUp ..).mpr counter, reads⟩
          · simp [AgentState.onObjectFree, includeMessage_sent, AgentMsg.tags]
        · simp only [tagged, if_false]
          exact stepEffect_of_agent rfl rfl rfl rfl (fun counter reads => ⟨counter, reads⟩)
            (sent_congr jvm rfl) rfl
      · cases stepped

section Effect

variable {action : TagAction}

/-- A step is one of at most one call of `setAndGetTag`, or of the agent thread. -/
theorem effect_cases (jvm : Jvm) (state : TagMachine) (action : TagAction) :
    state.effect jvm action = {} ∨ state.effect jvm action = state.agentPc.effect state.agent ∨
      ∃ entity, ∃ pc : SetTagPc, state.effect jvm action = pc.effect state.agent entity ∧
        pc.returning entity ⊆ state.returning jvm := by
  cases action with
  | agentStep => exact Or.inr (Or.inl rfl)
  | trackStep index =>
      rcases isCall : state.tracking[index]? with _ | call
      · exact Or.inl (by simp only [TagMachine.effect, isCall])
      · have listed := List.mem_of_getElem? isCall
        have effect : state.effect jvm (.trackStep index) = call.effect jvm state.agent := by
          simp only [TagMachine.effect, isCall]
        have inReturning : call.inSetTag jvm SetTagPc.returning ⊆ state.returning jvm := by
          intro entity returns
          exact List.mem_append_left _ (List.mem_flatMap.mpr ⟨call, listed, returns⟩)
        rw [effect]
        rcases call with ⟨object, pc⟩
        cases pc with
        | ofClass pc => exact Or.inr (Or.inr ⟨jvm.classOf object, pc, rfl, inReturning⟩)
        | ofObject classTag pc => exact Or.inr (Or.inr ⟨object, pc, rfl, inReturning⟩)
        | storeClassTag classTag => exact Or.inl rfl
        | storeObjectTag classTag objectTag => exact Or.inl rfl
  | startClassMetadata classes => exact Or.inl rfl
  | startFollowReference => exact Or.inl rfl
  | callback reference => exact Or.inl rfl
  | startTrack allocatedObj => exact Or.inl rfl
  | free object => exact Or.inl rfl

theorem effect_found (jvm : Jvm) (state : TagMachine) (action : TagAction) :
    (state.effect jvm action).found.Nodup ∧
      ∀ entity ∈ (state.effect jvm action).found, state.agent.tag entity = 0 := by
  have single : ∀ entity, (if state.agent.tag entity = 0 then [entity] else []).Nodup ∧
      ∀ other ∈ if state.agent.tag entity = 0 then [entity] else [],
        state.agent.tag other = 0 := by
    intro entity
    by_cases untagged : state.agent.tag entity = 0 <;> simp [untagged]
  rcases effect_cases jvm state action with none | ofAgent | ⟨entity, pc, ofCall, _⟩
  · simp [none]
  · rw [ofAgent]
    unfold AgentPc.effect
    split
    · exact single _
    all_goals simp
  · rw [ofCall]
    cases pc with
    | getTag => exact single entity
    | _ => simp [SetTagPc.effect]

theorem effect_taken (jvm : Jvm) (state : TagMachine) (action : TagAction) :
    (state.effect jvm action).taken.Nodup ∧
      ∀ tag ∈ (state.effect jvm action).taken, tag = state.agent.lastTag := by
  rcases effect_cases jvm state action with none | ofAgent | ⟨entity, pc, ofCall, _⟩
  · simp [none]
  · rw [ofAgent]
    unfold AgentPc.effect
    split <;> simp
  · rw [ofCall]
    cases pc <;> simp [SetTagPc.effect]

theorem effect_returned {given : Entity × ℤ}
    (returned : given ∈ (state.effect jvm action).returned) :
    given.1 ∈ state.returning jvm ∧ given.2 = state.agent.lastTag := by
  rcases effect_cases jvm state action with none | ofAgent | ⟨entity, pc, ofCall, inReturning⟩
  · simp [none] at returned
  · rw [ofAgent] at returned
    unfold AgentPc.effect at returned
    split at returned <;> simp at returned
  · rw [ofCall] at returned
    cases pc with
    | readForReturn =>
        rw [SetTagPc.effect, List.mem_singleton] at returned
        rw [returned]
        exact ⟨inReturning (List.mem_singleton_self _), rfl⟩
    | _ => simp [SetTagPc.effect] at returned

end Effect

section Runs

variable {calls callsFinal : List (Entity × ℤ)} {final : TagMachine} {action : TagAction}
  {actions : List TagAction}

/-- What holds after any run in which `calls` were the calls of `SetTag`. -/
structure Traced (jvm : Jvm) (calls : List (Entity × ℤ)) (state : TagMachine) : Prop where
  positive : state.Positive jvm
  held : ∀ tag ∈ state.held jvm, 0 < tag
  given : ∀ call ∈ calls, 0 < call.2
  tagged : ∀ entity, state.agent.tag entity ≠ 0 → (entity, state.agent.tag entity) ∈ calls
  carried : ∀ call ∈ calls, state.agent.tag call.1 ≠ 0
  returning : ∀ entity ∈ state.returning jvm, entity ∈ calls.map Prod.fst

/-- The calls of `SetTag`, with those under way, are of different entities and tags. -/
structure Distinct (jvm : Jvm) (calls : List (Entity × ℤ)) (state : TagMachine) : Prop where
  entities : (calls.map Prod.fst ++ state.numbering jvm).Nodup
  tags : (calls.map Prod.snd ++ state.held jvm).Nodup

/-- What the threads say of an entity's tag is true. -/
def Truthful (jvm : Jvm) (state : TagMachine) : Prop :=
  ∀ given, state.Stated jvm given → state.agent.tag given.1 = given.2 ∧ given.2 ≠ 0

theorem Traced.step (traced : Traced jvm calls state) (outside : action.OutsideWalk)
    (stepped : state.step jvm action = some next) :
    Traced jvm (calls ++ (state.effect jvm action).setTag) next := by
  have spec := step_effect outside stepped
  have heldPositive : ∀ tag ∈ (state.effect jvm action).taken ++ state.held jvm, 0 < tag := by
    intro tag listed
    rcases List.mem_append.mp listed with taken | held
    · exact (effect_taken jvm state action).2 tag taken ▸ traced.positive.1.2
    · exact traced.held tag held
  have given : ∀ call ∈ calls ++ (state.effect jvm action).setTag, 0 < call.2 := by
    intro call listed
    rcases List.mem_append.mp listed with before | now
    · exact traced.given call before
    · exact heldPositive _ (spec.held.subset (List.mem_append_left _ (List.mem_map_of_mem now)))
  have cases_ := (state.effect jvm action).apply_cases state.agent.tag
  refine
    { positive := spec.positive traced.positive
      held := fun tag listed => heldPositive tag (spec.held.subset (List.mem_append_right _ listed))
      given := given
      tagged := fun entity tagged => ?_
      carried := fun call listed => ?_
      returning := fun entity listed => ?_ }
  · rw [spec.tag] at tagged ⊢
    rcases cases_ entity with isSet | ⟨_, same⟩
    · exact List.mem_append_right _ isSet
    · rw [same] at tagged ⊢
      exact List.mem_append_left _ (traced.tagged entity tagged)
  · rw [spec.tag]
    rcases cases_ call.1 with isSet | ⟨notSet, same⟩
    · exact Int.ne_of_gt (given _ (List.mem_append_right _ isSet))
    · rw [same]
      rcases List.mem_append.mp listed with before | now
      · exact traced.carried call before
      · exact absurd (List.mem_map_of_mem now) notSet
  · rw [List.map_append]
    rcases spec.returning entity listed with before | now
    · exact List.mem_append_left _ (traced.returning entity before)
    · exact List.mem_append_right _ now

/-- Where every entity was set once, it carries the tag that it was given. -/
theorem Traced.latest (traced : Traced jvm calls state)
    (entities : (calls.map Prod.fst ++ state.numbering jvm).Nodup) {call : Entity × ℤ}
    (listed : call ∈ calls) : state.agent.tag call.1 = call.2 := by
  have last := traced.tagged call.1 (traced.carried call listed)
  have once := List.inj_on_of_nodup_map (List.nodup_append.mp entities).1 last listed rfl
  exact congrArg Prod.snd once

theorem Traced.untagged (traced : Traced jvm calls state)
    (entities : (calls.map Prod.fst ++ state.numbering jvm).Nodup) {entity : Entity}
    (numbering : entity ∈ state.numbering jvm) : state.agent.tag entity = 0 := by
  by_contra tagged
  have called := List.mem_map_of_mem (f := Prod.fst) (traced.tagged entity tagged)
  exact (List.nodup_append.mp entities).2.2 entity called entity numbering rfl

/-- A step adds the entity that it finds to those that are or were numbered. -/
theorem StepEffect.entities {effect : TagEffect} (spec : StepEffect jvm effect state next)
    (calls : List (Entity × ℤ)) :
    ((calls ++ effect.setTag).map Prod.fst ++ next.numbering jvm).Perm
      (effect.found ++ (calls.map Prod.fst ++ state.numbering jvm)) := by
  rw [List.map_append, List.append_assoc]
  exact (spec.numbering.append_left _).trans (List.perm_append_comm_assoc ..)

theorem StepEffect.tags {effect : TagEffect} (spec : StepEffect jvm effect state next)
    (calls : List (Entity × ℤ)) :
    ((calls ++ effect.setTag).map Prod.snd ++ next.held jvm).Perm
      (effect.taken ++ (calls.map Prod.snd ++ state.held jvm)) := by
  rw [List.map_append, List.append_assoc]
  exact (spec.held.append_left _).trans (List.perm_append_comm_assoc ..)

theorem Distinct.step (distinct : Distinct jvm calls state) (traced : Traced jvm calls state)
    (undisturbed : state.Undisturbed jvm action) (outside : action.OutsideWalk)
    (stepped : state.step jvm action = some next) :
    Distinct jvm (calls ++ (state.effect jvm action).setTag) next := by
  have spec := step_effect outside stepped
  constructor
  · rw [(spec.entities calls).nodup_iff]
    have found := effect_found jvm state action
    refine List.nodup_append.mpr ⟨found.1, distinct.entities, ?_⟩
    rintro entity isFound _ listed rfl
    rcases List.mem_append.mp listed with called | numbering
    · rcases List.mem_map.mp called with ⟨call, isCall, rfl⟩
      exact traced.carried call isCall (found.2 _ isFound)
    · exact undisturbed.found entity isFound numbering
  · rw [(spec.tags calls).nodup_iff]
    refine List.nodup_append.mpr ⟨(effect_taken jvm state action).1, distinct.tags, ?_⟩
    rintro tag isTaken _ listed rfl
    have free := undisturbed.taken tag isTaken
    rcases List.mem_append.mp listed with called | held
    · rcases List.mem_map.mp called with ⟨call, isCall, rfl⟩
      exact free.2 call.1 (traced.latest distinct.entities isCall)
    · exact free.1 held

/-- Where no entity is numbered twice, a step leaves the tags as they are. -/
theorem Distinct.keepsTags (distinct : Distinct jvm calls state)
    (traced : Traced jvm calls state) (outside : action.OutsideWalk)
    (stepped : state.step jvm action = some next) :
    AgentState.KeepsTags state.agent next.agent := by
  have spec := step_effect outside stepped
  intro entity tagged
  rw [spec.tag]
  rcases (state.effect jvm action).apply_cases state.agent.tag entity with isSet | ⟨_, same⟩
  · have begun := spec.numbering.subset
      (List.mem_append_left _ (List.mem_map_of_mem (f := Prod.fst) isSet))
    rcases List.mem_append.mp begun with found | numbering
    · exact absurd ((effect_found jvm state action).2 entity found) tagged
    · exact absurd (traced.untagged distinct.entities numbering) tagged
  · exact same

theorem Truthful.step (truthful : state.Truthful jvm) (traced : Traced jvm calls state)
    (distinct : Distinct jvm calls state) (undisturbed : state.Undisturbed jvm action)
    (outside : action.OutsideWalk) (stepped : state.step jvm action = some next) :
    next.Truthful jvm := by
  intro given stated
  have now : state.agent.tag given.1 = given.2 ∧ given.2 ≠ 0 := by
    rcases (step_effect outside stepped).stated given stated with before | returned | found
    · exact truthful given before
    · exact ⟨undisturbed.returned given returned,
        (effect_returned returned).2 ▸ Int.ne_of_gt traced.positive.1.2⟩
    · exact found
  have kept := distinct.keepsTags traced outside stepped given.1 (now.1 ▸ now.2)
  exact ⟨kept.trans now.1, now.2⟩

/-- Everything that has been numbered, read for a tag or announced stays so. -/
structure Grows (jvm : Jvm) (calls : List (Entity × ℤ)) (state : TagMachine)
    (callsFinal : List (Entity × ℤ)) (final : TagMachine) : Prop where
  set : calls ⊆ callsFinal
  entities : (calls.map Prod.fst ++ state.numbering jvm).Subperm
    (callsFinal.map Prod.fst ++ final.numbering jvm)
  tags : (calls.map Prod.snd ++ state.held jvm).Subperm
    (callsFinal.map Prod.snd ++ final.held jvm)
  announced : ∀ given, state.Announced jvm given → final.Announced jvm given

theorem Grows.step (grows : Grows jvm calls state callsFinal final) (outside : action.OutsideWalk)
    (stepped : final.step jvm action = some next) :
    Grows jvm calls state (callsFinal ++ (final.effect jvm action).setTag) next := by
  have spec := step_effect outside stepped
  refine ⟨List.Subset.trans grows.set (List.subset_append_left ..), grows.entities.trans ?_,
    grows.tags.trans ?_, fun given announced =>
      spec.kept given (Or.inl (grows.announced given announced))⟩
  · exact (List.sublist_append_right ..).subperm.trans (spec.entities callsFinal).symm.subperm
  · exact (List.sublist_append_right ..).subperm.trans (spec.tags callsFinal).symm.subperm

theorem grows_of_run (calls : List (Entity × ℤ)) (outside : ∀ action ∈ actions, action.OutsideWalk)
    (run : runFrom (TagMachine.step jvm) state actions = some final) :
    Grows jvm calls state (calls ++ setTagCalls jvm state actions) final := by
  have meets : StepsMeet (TagMachine.step jvm) (fun _ action => action.OutsideWalk) state
      actions := stepsMeet_of_mem (fun action listed _ => outside action listed) state
  have start : Grows jvm calls state calls state :=
    ⟨List.Subset.refl _, .refl _, .refl _, fun _ announced => announced⟩
  exact runFrom_invariant_emitted (fun _ _ _ _ outside grows stepped =>
    Grows.step grows outside stepped) meets start run

theorem nodup_of_subperm {α : Type} {some all : List α} (nodup : all.Nodup)
    (contained : some.Subperm all) : some.Nodup := by
  rcases contained with ⟨sub, perm, sublist⟩
  exact perm.nodup_iff.mp (nodup.sublist sublist)

theorem Distinct.of_grows (distinct : Distinct jvm callsFinal final)
    (grows : Grows jvm calls state callsFinal final) : Distinct jvm calls state :=
  ⟨nodup_of_subperm distinct.entities grows.entities, nodup_of_subperm distinct.tags grows.tags⟩

/-- A step of a run that ends with everything set once and announced right was undisturbed. -/
theorem undisturbed_of_distinct (traced : Traced jvm calls state)
    (outside : action.OutsideWalk) (stepped : state.step jvm action = some next)
    (grows : Grows jvm (calls ++ (state.effect jvm action).setTag) next callsFinal final)
    (tracedFinal : Traced jvm callsFinal final) (distinctFinal : Distinct jvm callsFinal final)
    (announced : ∀ given, final.Announced jvm given → final.agent.tag given.1 = given.2) :
    state.Undisturbed jvm action := by
  have spec := step_effect outside stepped
  have distinct := distinctFinal.of_grows grows
  have entities := (spec.entities calls).nodup_iff.mp distinct.entities
  have tags := (spec.tags calls).nodup_iff.mp distinct.tags
  rcases List.nodup_append.mp entities with ⟨_, entitiesBefore, foundOnce⟩
  rcases List.nodup_append.mp tags with ⟨_, _, takenOnce⟩
  refine ⟨fun entity found numbering => ?_, fun tag taken => ⟨fun held => ?_, ?_⟩,
    fun given returned => ?_⟩
  · exact foundOnce entity found entity (List.mem_append_right _ numbering) rfl
  · exact takenOnce tag taken tag (List.mem_append_right _ held) rfl
  · rintro entity rfl
    have counter := (effect_taken jvm state action).2 _ taken ▸ traced.positive.1.2
    have given := traced.tagged entity (Int.ne_of_gt counter)
    exact takenOnce _ taken _ (List.mem_append_left _ (List.mem_map_of_mem given)) rfl
  · have later := announced given (grows.announced given (spec.kept given (Or.inr returned)))
    rcases List.mem_map.mp (traced.returning given.1 (effect_returned returned).1) with
      ⟨call, isCall, sameEntity⟩
    have before := traced.latest entitiesBefore isCall
    have after := tracedFinal.latest distinctFinal.entities
      (grows.set (List.mem_append_left _ isCall))
    rw [sameEntity] at before after
    rw [before, ← after, later]

structure Sound (jvm : Jvm) (calls : List (Entity × ℤ)) (state : TagMachine) : Prop where
  traced : Traced jvm calls state
  distinct : Distinct jvm calls state
  truthful : state.Truthful jvm

theorem Sound.step (sound : Sound jvm calls state) (undisturbed : state.Undisturbed jvm action)
    (outside : action.OutsideWalk) (stepped : state.step jvm action = some next) :
    Sound jvm (calls ++ (state.effect jvm action).setTag) next where
  traced := sound.traced.step outside stepped
  distinct := sound.distinct.step sound.traced undisturbed outside stepped
  truthful := sound.truthful.step sound.traced sound.distinct undisturbed outside stepped

theorem Traced.run (traced : Traced jvm calls state)
    (outside : ∀ action ∈ actions, action.OutsideWalk)
    (run : runFrom (TagMachine.step jvm) state actions = some final) :
    Traced jvm (calls ++ setTagCalls jvm state actions) final :=
  runFrom_invariant_emitted (fun _ _ _ _ outside traced stepped =>
      Traced.step traced outside stepped)
    (stepsMeet_of_mem (fun action listed _ => outside action listed) state) traced run

theorem Sound.run (sound : Sound jvm calls state)
    (outside : ∀ action ∈ actions, action.OutsideWalk)
    (meets : StepsMeet (TagMachine.step jvm) (Undisturbed jvm) state actions)
    (run : runFrom (TagMachine.step jvm) state actions = some final) :
    Sound jvm (calls ++ setTagCalls jvm state actions) final :=
  runFrom_invariant_emitted (fun _ _ _ _ allowed sound stepped =>
      Sound.step sound allowed.1 allowed.2 stepped)
    (meets.and (stepsMeet_of_mem (fun action listed _ => outside action listed) state)) sound run

/--
A run sets every tag once and announces the tags that are carried, with the
numberings under way counted in, exactly where every step is undisturbed.
-/
theorem undisturbed_iff (sound : Sound jvm calls state)
    (outside : ∀ action ∈ actions, action.OutsideWalk)
    (run : runFrom (TagMachine.step jvm) state actions = some final) :
    StepsMeet (TagMachine.step jvm) (Undisturbed jvm) state actions ↔
      Distinct jvm (calls ++ setTagCalls jvm state actions) final ∧
        ∀ given, final.Announced jvm given → final.agent.tag given.1 = given.2 := by
  constructor
  · intro meets
    have kept := sound.run outside meets run
    exact ⟨kept.distinct, fun given announced =>
      (kept.truthful given (Or.inl announced)).1⟩
  · rintro ⟨distinct, announced⟩
    induction actions generalizing calls state with
    | nil => trivial
    | cons action actions ih =>
        have now := outside action (List.mem_cons_self ..)
        have later : ∀ other ∈ actions, other.OutsideWalk := fun other listed =>
          outside other (List.mem_cons_of_mem _ listed)
        have traced := sound.traced.run outside run
        rcases runFrom_cons_eq_some.mp run with ⟨next, stepped, rest⟩
        rw [setTagCalls, emitted_cons stepped, ← List.append_assoc] at distinct traced
        have undisturbed := undisturbed_of_distinct sound.traced now stepped
          (grows_of_run _ later rest) traced distinct announced
        refine ⟨undisturbed, fun other othersStep => ?_⟩
        rw [stepped, Option.some.injEq] at othersStep
        subst othersStep
        exact ih (sound.step undisturbed now stepped) later rest distinct

theorem sound_unbounded (jvm : Jvm) : Sound jvm [] unbounded where
  traced := by
    refine ⟨⟨⟨rfl, Int.zero_lt_one⟩, ?_⟩, ?_, ?_, ?_, ?_, ?_⟩
    all_goals simp [reads, TagMachine.held, TagMachine.returning, overThreads, unbounded, initial,
      AgentState.unbounded, AgentState.initial, AgentPc.reads, AgentPc.held]
  distinct := ⟨List.nodup_nil, List.nodup_nil⟩
  truthful given := by
    rintro ((⟨call, listed, _⟩ | ⟨call, listed, _⟩) | ⟨call, listed, _⟩)
    all_goals simp [unbounded, initial, AgentState.unbounded, AgentState.initial] at listed

theorem Finished.distinct (finished : state.Finished) (entities : (calls.map Prod.fst).Nodup)
    (tags : (calls.map Prod.snd).Nodup) : Distinct jvm calls state := by
  have numbering : state.numbering jvm = [] := by
    simp [TagMachine.numbering, overThreads, finished.1, finished.2, AgentPc.numbering]
  have held : state.held jvm = [] := by
    simp [TagMachine.held, overThreads, finished.1, finished.2, AgentPc.held]
  exact ⟨by rwa [numbering, List.append_nil], by rwa [held, List.append_nil]⟩

theorem Finished.sent (finished : state.Finished) {given : Entity × ℤ}
    (announced : state.Announced jvm given) : state.agent.Sent jvm given := by
  rcases announced with sent | ⟨call, listed, _⟩
  · exact sent
  · simp [finished.2] at listed

end Runs

/-- Object 5 of class 0 is tracked between the steps of a class pass over class 0. -/
def passingActions : List TagAction :=
  [.startClassMetadata [0], .agentStep, .agentStep, .agentStep, .startTrack 5, .trackStep 0,
    .agentStep, .agentStep] ++ List.replicate 7 (.trackStep 0) ++ [.agentStep, .agentStep]

/-- Objects 5 and 6 of class 0 are tracked, and both calls find the class without a tag. -/
def racingActions : List TagAction :=
  [.startTrack 5, .startTrack 6, .trackStep 0, .trackStep 1] ++
    List.replicate 6 (.trackStep 0) ++ List.replicate 5 (.trackStep 1)

end TagMachine

end HeapScan
