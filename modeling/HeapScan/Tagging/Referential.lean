import HeapScan.Library.Runs
import HeapScan.Tagging.Uniqueness

/-!
# Class tags that the client can resolve

A message that carries a class tag can be resolved when a CLASS_TAG message with
the signature of that class and that tag was included before it.  The class pass
announces a class with the tag it had before the pass, so a new class is
announced with 0; tracking announces the tag it sets.
-/

namespace HeapScan

open Transition

/-- The classes a message refers to, each with the tag the message has for it. -/
def AgentMsg.classUses (jvm : Jvm) : AgentMsg → List (Entity × ℤ)
  | .classTag .. => []
  | .objectTag object _ objectClassTag => [(jvm.classOf object, objectClassTag)]
  | .deallocateObject .. => []
  | .heapRefInfo referent referrer info =>
      ((jvm.classOf referent, info.classTag) ::
        referrer.toList.map fun object => (jvm.classOf object, info.referrerClassTag)).filter
          fun use => use.2 ≠ 0

/-- A CLASS_TAG message with the class's signature and exactly this tag. -/
def AnnouncedIn (jvm : Jvm) (msgs : List AgentMsg) (use : Entity × ℤ) : Prop :=
  ∃ cls, AgentMsg.classTag cls (jvm.classSignature use.1) use.2 ∈ msgs

/-- After the messages `earlier`, every class tag in `msgs` is announced before it is used. -/
def ReferentialFrom (jvm : Jvm) : List AgentMsg → List AgentMsg → Prop
  | _, [] => True
  | earlier, msg :: msgs =>
      (∀ use ∈ msg.classUses jvm, AnnouncedIn jvm earlier use) ∧
        ReferentialFrom jvm (earlier ++ [msg]) msgs

/-- One run-time operation of the agent, as a whole. -/
inductive AgentOp where
  | getClassMetadata (classes : List Entity)
  | followReference (references : List HeapReference)
  | trackObject (allocatedObj : Entity)

/-- A call of the message store's group functions, or one class, one reference or one object. -/
inductive TagStep where
  | startMsgGrp
  | flushMsgGrp
  | meetClass (cls : Entity)
  | reference (reference : HeapReference)
  | track (allocatedObj : Entity)

def AgentOp.steps : AgentOp → List TagStep
  | .getClassMetadata classes => .startMsgGrp :: (classes.map .meetClass ++ [.flushMsgGrp])
  | .followReference references =>
      .startMsgGrp :: (references.map .reference ++ [.flushMsgGrp])
  | .trackObject allocatedObj => [.track allocatedObj]

namespace AgentState

def applyAgentOp (jvm : Jvm) (state : AgentState) : AgentOp → AgentState
  | .getClassMetadata classes => onGetClassMetadata jvm state classes
  | .followReference references => onFollowReference jvm state references
  | .trackObject allocatedObj => trackObject jvm state allocatedObj

def runAgentOps (jvm : Jvm) (ops : List AgentOp) : AgentState :=
  ops.foldl (applyAgentOp jvm) initial

def applyTagStep (jvm : Jvm) (state : AgentState) : TagStep → AgentState
  | .startMsgGrp => state.startMsgGrp
  | .flushMsgGrp => state.flushMsgGrp
  | .meetClass cls => checkAndTagClasses jvm state [cls] false
  | .reference reference => reportReference jvm state reference
  | .track allocatedObj => trackObject jvm state allocatedObj

/-- The messages included so far. -/
def msgs (state : AgentState) : List AgentMsg := state.included.map Included.msg

end AgentState

/--
A run with the classes that are `announced`: those that tracking numbered, as the
class of its object, unless with 0, and those that a class pass met with a tag.
-/
structure Observed where
  agent : AgentState
  announced : List Entity

namespace Observed

def initial : Observed where
  agent := .initial
  announced := []

def observe (jvm : Jvm) (state : Observed) (step : TagStep) : Option Observed :=
  let announced :=
    match step with
    | .startMsgGrp => []
    | .flushMsgGrp => []
    | .meetClass cls => if state.agent.tag cls ≠ 0 then [cls] else []
    | .reference _ => []
    | .track allocatedObj =>
        if state.agent.tag (jvm.classOf allocatedObj) = 0 ∧
            state.agent.increment state.agent.lastTag ≠ 0 then
          [jvm.classOf allocatedObj]
        else []
  some
    { agent := state.agent.applyTagStep jvm step
      announced := state.announced ++ announced }

/-- The class of the object has no tag yet, or it has been announced. -/
def ClassKnown (jvm : Jvm) (state : Observed) (object : Entity) : Prop :=
  state.agent.tag (jvm.classOf object) ≠ 0 → jvm.classOf object ∈ state.announced

/-- The objects whose class tags the step will use are of known classes. -/
def UsesKnown (jvm : Jvm) (state : Observed) : TagStep → Prop
  | .startMsgGrp => True
  | .flushMsgGrp => True
  | .meetClass _ => True
  | .reference reference =>
      ClassKnown jvm state reference.referent ∧
        ∀ object, reference.referrer = some object → ClassKnown jvm state object
  | .track allocatedObj => state.agent.tag allocatedObj = 0 → ClassKnown jvm state allocatedObj

end Observed

section Announcements

variable {jvm : Jvm}

theorem AnnouncedIn.append_left {msgs : List AgentMsg} {use : Entity × ℤ}
    (announced : AnnouncedIn jvm msgs use) (later : List AgentMsg) :
    AnnouncedIn jvm (msgs ++ later) use := by
  rcases announced with ⟨cls, listed⟩
  exact ⟨cls, List.mem_append_left _ listed⟩

theorem referentialFrom_append {earlier first second : List AgentMsg} :
    ReferentialFrom jvm earlier (first ++ second) ↔
      ReferentialFrom jvm earlier first ∧ ReferentialFrom jvm (earlier ++ first) second := by
  induction first generalizing earlier with
  | nil => simp [ReferentialFrom]
  | cons msg first ih => simp [ReferentialFrom, ih, and_assoc]

/-- Messages whose uses are all announced before the first of them. -/
theorem referentialFrom_of_uses {earlier msgs : List AgentMsg}
    (announced : ∀ msg ∈ msgs, ∀ use ∈ msg.classUses jvm, AnnouncedIn jvm earlier use) :
    ReferentialFrom jvm earlier msgs := by
  induction msgs generalizing earlier with
  | nil => trivial
  | cons msg msgs ih =>
      refine ⟨announced msg (List.mem_cons_self ..), ih fun other listed use used => ?_⟩
      exact (announced other (List.mem_cons_of_mem _ listed) use used).append_left _

theorem ReferentialFrom.uses_of_mem {earlier msgs : List AgentMsg}
    (referential : ReferentialFrom jvm earlier msgs) {msg : AgentMsg} (listed : msg ∈ msgs)
    {use : Entity × ℤ} (used : use ∈ msg.classUses jvm) :
    AnnouncedIn jvm (earlier ++ msgs) use := by
  induction msgs generalizing earlier with
  | nil => simp at listed
  | cons first rest ih =>
      rcases List.mem_cons.mp listed with rfl | later
      · exact (referential.1 use used).append_left _
      · have found := ih referential.2 later
        rwa [List.append_assoc] at found

end Announcements

namespace AgentState

variable {jvm : Jvm} {state : AgentState}

@[simp]
theorem includeMessage_msgs (state : AgentState) (msg : AgentMsg) (msgSize : ℤ)
    (immediateFl : Bool) :
    (state.includeMessage msg msgSize immediateFl).msgs = state.msgs ++ [msg] := by
  unfold includeMessage msgs
  split <;> simp

@[simp]
theorem storeObjectTag_msgs (state : AgentState) (object : Entity) (objectTag classTag : ℤ)
    (flushFl : Bool) :
    (state.storeObjectTag object objectTag classTag flushFl).msgs =
      state.msgs ++ [.objectTag object objectTag classTag] :=
  includeMessage_msgs ..

@[simp]
theorem storeClassTag_msgs (jvm : Jvm) (state : AgentState) (cls : Entity) (tag : ℤ)
    (flushFl : Bool) :
    (storeClassTag jvm state cls tag flushFl).msgs =
      state.msgs ++ [.classTag cls (jvm.classSignature cls) tag] :=
  includeMessage_msgs ..

/-- The class pass includes, for each class, the tag it read. -/
theorem meetClass_msgs (jvm : Jvm) (state : AgentState) (cls : Entity) :
    (state.applyTagStep jvm (.meetClass cls)).msgs =
      state.msgs ++ [.classTag cls (jvm.classSignature cls) (state.tag cls)] := by
  simp only [applyTagStep, checkAndTagClasses, storeClassTag_msgs]
  split <;> rfl

theorem tagReferenced_msgs (state : AgentState) (object : Entity) (classTag : ℤ) :
    ∃ objectMsgs, (state.tagReferenced object classTag).msgs = state.msgs ++ objectMsgs ∧
      ∀ msg ∈ objectMsgs, classTag ≠ 0 ∧ ∃ tag, msg = .objectTag object tag classTag := by
  unfold tagReferenced
  split
  · rename_i untagged
    refine ⟨[.objectTag object state.lastTag classTag], ?_, ?_⟩
    · rw [storeObjectTag_msgs]
      rfl
    · intro msg listed
      rw [List.mem_singleton] at listed
      exact ⟨untagged.2, _, listed⟩
  · exact ⟨[], by simp, by simp⟩

/-- The objects of a reference. -/
def IsReferenced (reference : HeapReference) (object : Entity) : Prop :=
  object = reference.referent ∨ reference.referrer = some object

/--
A callback includes OBJECT_TAG messages for objects of tagged classes, and then
the reference, with the tags of both classes.
-/
theorem reference_msgs (jvm : Jvm) (state : AgentState) (reference : HeapReference) :
    ∃ objectMsgs info, (state.applyTagStep jvm (.reference reference)).msgs =
        state.msgs ++ (objectMsgs ++
          [.heapRefInfo reference.referent reference.referrer info]) ∧
      info.classTag = state.tag (jvm.classOf reference.referent) ∧
      info.referrerClassTag =
        reference.referrer.elim 0 (fun object => state.tag (jvm.classOf object)) ∧
      ∀ msg ∈ objectMsgs, ∃ object tag, IsReferenced reference object ∧
        state.tag (jvm.classOf object) ≠ 0 ∧
        msg = .objectTag object tag (state.tag (jvm.classOf object)) := by
  simp only [applyTagStep, reportReference, followReferenceCallback, includeMessage_msgs]
  rcases tagReferenced_msgs state reference.referent
      (state.tag (jvm.classOf reference.referent)) with ⟨first, firstMsgs, firstForm⟩
  have firstOk : ∀ msg ∈ first, ∃ object tag, IsReferenced reference object ∧
      state.tag (jvm.classOf object) ≠ 0 ∧
      msg = .objectTag object tag (state.tag (jvm.classOf object)) := by
    intro msg listed
    rcases firstForm msg listed with ⟨tagged, tag, form⟩
    exact ⟨_, tag, Or.inl rfl, tagged, form⟩
  rcases isReferrer : reference.referrer with _ | object
  · exact ⟨first, _, (congrArg (· ++ _) firstMsgs).trans (List.append_assoc ..), rfl, rfl, firstOk⟩
  · rcases tagReferenced_msgs (state.tagReferenced reference.referent
        (state.tag (jvm.classOf reference.referent))) object (state.tag (jvm.classOf object)) with
      ⟨second, secondMsgs, secondForm⟩
    rw [firstMsgs, List.append_assoc] at secondMsgs
    refine ⟨first ++ second, _, (congrArg (· ++ _) secondMsgs).trans (List.append_assoc ..), rfl,
      rfl, ?_⟩
    intro msg listed
    rcases List.mem_append.mp listed with inFirst | inSecond
    · exact firstOk msg inFirst
    · rcases secondForm msg inSecond with ⟨tagged, tag, form⟩
      exact ⟨object, tag, Or.inr isReferrer, tagged, form⟩

/-- Tracking an object of a tagged class announces at most the object. -/
theorem track_msgs_tagged {allocatedObj : Entity}
    (tagged : state.tag (jvm.classOf allocatedObj) ≠ 0) :
    (trackObject jvm state allocatedObj).msgs = state.msgs ++
      (if state.tag allocatedObj = 0 then
        [.objectTag allocatedObj (state.increment state.lastTag)
          (state.tag (jvm.classOf allocatedObj))]
      else []) := by
  simp only [trackObject, getObjectTag, setAndGetTag_old tagged, Bool.false_eq_true, if_false]
  by_cases untagged : state.tag allocatedObj = 0
  · simp only [setAndGetTag_new untagged, untagged, if_true, storeObjectTag_msgs]
    rfl
  · simp [setAndGetTag_old untagged, untagged]

/--
Tracking an object of a class without a tag announces the class first, and the class
keeps the tag announced unless that is 0.
-/
theorem track_msgs_untagged {allocatedObj : Entity}
    (untagged : state.tag (jvm.classOf allocatedObj) = 0) :
    ∃ objectMsgs, (trackObject jvm state allocatedObj).msgs = state.msgs ++
        (.classTag (jvm.classOf allocatedObj) (jvm.classSignature (jvm.classOf allocatedObj))
          (state.increment state.lastTag) :: objectMsgs) ∧
      (∀ msg ∈ objectMsgs, ∃ tag,
        msg = .objectTag allocatedObj tag (state.increment state.lastTag)) ∧
      (state.increment state.lastTag ≠ 0 →
        (trackObject jvm state allocatedObj).tag (jvm.classOf allocatedObj) =
          state.increment state.lastTag) := by
  simp only [trackObject, getObjectTag, setAndGetTag_new untagged, if_true]
  generalize state.increment state.lastTag = classTag
  generalize announced : storeClassTag jvm
      { state with
        lastTag := classTag
        tag := Function.update state.tag (jvm.classOf allocatedObj) classTag }
      (jvm.classOf allocatedObj) classTag true = middle
  have middleMsgs : middle.msgs = state.msgs ++ [.classTag (jvm.classOf allocatedObj)
      (jvm.classSignature (jvm.classOf allocatedObj)) classTag] := by
    rw [← announced, storeClassTag_msgs]
    rfl
  have middleTag : middle.tag (jvm.classOf allocatedObj) = classTag := by
    rw [← announced, storeClassTag_tag]
    exact Function.update_self ..
  have kept := setAndGetTag_keeps middle allocatedObj (jvm.classOf allocatedObj)
  by_cases objectUntagged : middle.tag allocatedObj = 0
  · rw [setAndGetTag_new objectUntagged] at kept ⊢
    refine ⟨[.objectTag allocatedObj (middle.increment middle.lastTag) classTag], ?_, ?_, ?_⟩
    · simp only [if_true, storeObjectTag_msgs]
      exact (congrArg (· ++ _) middleMsgs).trans (by rw [List.append_assoc]; rfl)
    · intro msg listed
      rw [List.mem_singleton] at listed
      exact ⟨_, listed⟩
    · intro nonzero
      simp only [if_true, storeObjectTag_tag]
      exact (kept (by rwa [middleTag])).trans middleTag
  · rw [setAndGetTag_old objectUntagged] at kept ⊢
    exact ⟨[], middleMsgs, by simp, fun _ => middleTag⟩

theorem applyTagStep_keeps (jvm : Jvm) (state : AgentState) (step : TagStep) :
    KeepsTags state (state.applyTagStep jvm step) := by
  cases step with
  | startMsgGrp => exact KeepsTags.refl state
  | flushMsgGrp => exact KeepsTags.refl state
  | meetClass cls => exact applyTagOp_keeps jvm state (.classPass [cls] false)
  | reference reference => exact applyTagOp_keeps jvm state (.reference reference)
  | track allocatedObj => exact applyTagOp_keeps jvm state (.track allocatedObj)

theorem applyTagStep_increment (jvm : Jvm) (state : AgentState) (step : TagStep) :
    (state.applyTagStep jvm step).increment = state.increment := by
  cases step with
  | startMsgGrp => rfl
  | flushMsgGrp => rfl
  | meetClass cls =>
      simp only [applyTagStep, checkAndTagClasses, storeClassTag_increment]
      split <;> rfl
  | reference reference =>
      rw [applyTagStep, (reportReference_tags jvm state reference).2.2, tagBoth]
      cases reference.referrer <;> simp only [tagReferenced_increment]
  | track allocatedObj =>
      rcases trackObject_tags jvm state allocatedObj with ⟨middle, _, _, same, _, _, finalSame⟩
      rw [applyTagStep, finalSame, setAndGetTag_increment, same, setAndGetTag_increment]

end AgentState

namespace Observed

variable {jvm : Jvm} {state next : Observed} {step : TagStep}

/-- Every announced class carries a tag that a CLASS_TAG message has for it. -/
structure Announces (jvm : Jvm) (state : Observed) : Prop where
  tagged : ∀ cls ∈ state.announced, state.agent.tag cls ≠ 0
  announced : ∀ cls ∈ state.announced,
    AnnouncedIn jvm state.agent.msgs (cls, state.agent.tag cls)

/-- Conversely, a CLASS_TAG message with a tag other than 0 is of an announced class. -/
def AnnouncesOnly (jvm : Jvm) (state : Observed) : Prop :=
  ∀ cls tag, tag ≠ 0 → AnnouncedIn jvm state.agent.msgs (cls, tag) →
    cls ∈ state.announced ∧ state.agent.tag cls = tag

/-- What the messages of one step refer to. -/
structure StepMsgs (jvm : Jvm) (state next : Observed) (step : TagStep)
    (stepMsgs : List AgentMsg) : Prop where
  msgs : next.agent.msgs = state.agent.msgs ++ stepMsgs
  uses : Announces jvm state → UsesKnown jvm state step →
    ReferentialFrom jvm state.agent.msgs stepMsgs
  known : AnnouncesOnly jvm state → ReferentialFrom jvm state.agent.msgs stepMsgs →
    UsesKnown jvm state step
  announces : ∀ cls ∈ next.announced, cls ∈ state.announced ∨
    next.agent.tag cls ≠ 0 ∧ AnnouncedIn jvm stepMsgs (cls, next.agent.tag cls)
  only : Function.Injective jvm.classSignature → ∀ cls tag, tag ≠ 0 →
    AnnouncedIn jvm stepMsgs (cls, tag) → cls ∈ next.announced ∧ next.agent.tag cls = tag
  keeps : ∀ cls ∈ state.announced, cls ∈ next.announced

theorem announcedIn_singleton {use : Entity × ℤ} {cls : Entity} {sign : Text} {tag : ℤ}
    (announced : AnnouncedIn jvm [.classTag cls sign tag] use) :
    jvm.classSignature use.1 = sign ∧ use.2 = tag := by
  rcases announced with ⟨_, listed⟩
  simp only [List.mem_singleton, AgentMsg.classTag.injEq] at listed
  exact ⟨listed.2.1, listed.2.2⟩

/-- Messages without a CLASS_TAG message announce nothing. -/
theorem announcedIn_append_of_none {msgs later : List AgentMsg} {use : Entity × ℤ}
    (none : ∀ msg ∈ later, ∀ cls sign tag, msg ≠ .classTag cls sign tag)
    (announced : AnnouncedIn jvm (msgs ++ later) use) : AnnouncedIn jvm msgs use := by
  rcases announced with ⟨cls, listed⟩
  rcases List.mem_append.mp listed with before | after
  · exact ⟨cls, before⟩
  · exact absurd rfl (none _ after _ _ _)

theorem meetClass_stepMsgs {cls : Entity}
    (stepped : observe jvm state (.meetClass cls) = some next) :
    StepMsgs jvm state next (.meetClass cls)
      [.classTag cls (jvm.classSignature cls) (state.agent.tag cls)] := by
  cases stepped
  have kept := AgentState.applyTagStep_keeps jvm state.agent (.meetClass cls) cls
  refine
    { msgs := AgentState.meetClass_msgs jvm state.agent cls
      uses := fun _ _ => ⟨by simp [AgentMsg.classUses], trivial⟩
      known := fun _ _ => trivial
      announces := ?_
      only := ?_
      keeps := fun _ listed => List.mem_append_left _ listed }
  · intro other listed
    rcases List.mem_append.mp listed with before | now
    · exact Or.inl before
    · by_cases tagged : state.agent.tag cls ≠ 0
      · simp only [tagged, ne_eq, not_false_eq_true, if_true, List.mem_singleton] at now
        subst now
        have same := kept tagged
        refine Or.inr ⟨?_, other, ?_⟩
        · rw [same]
          exact tagged
        · simp only [same, List.mem_singleton]
      · simp only [tagged, if_false, List.not_mem_nil] at now
  · intro injective other tag tagged announced
    rcases announcedIn_singleton announced with ⟨sameSign, sameTag⟩
    have isClass : other = cls := injective sameSign
    have sameTag : tag = state.agent.tag cls := sameTag
    subst isClass sameTag
    refine ⟨List.mem_append_right _ ?_, kept tagged⟩
    simp only [tagged, ne_eq, not_false_eq_true, if_true, List.mem_singleton]

theorem reference_stepMsgs {reference : HeapReference}
    (stepped : observe jvm state (.reference reference) = some next) :
    ∃ stepMsgs, StepMsgs jvm state next (.reference reference) stepMsgs := by
  cases stepped
  rcases AgentState.reference_msgs jvm state.agent reference with
    ⟨objectMsgs, info, msgs, classTag, referrerClassTag, objects⟩
  have noClass : ∀ msg ∈ objectMsgs ++
      [.heapRefInfo reference.referent reference.referrer info], ∀ cls sign tag,
        msg ≠ AgentMsg.classTag cls sign tag := by
    intro msg listed cls sign tag isClass
    rcases List.mem_append.mp listed with inObjects | isReference
    · rcases objects msg inObjects with ⟨_, _, _, _, form⟩
      rw [form] at isClass
      cases isClass
    · rw [List.mem_singleton] at isReference
      rw [isReference] at isClass
      cases isClass
  have nothing : ∀ use, ¬AnnouncedIn jvm (objectMsgs ++
      [.heapRefInfo reference.referent reference.referrer info]) use := by
    rintro use ⟨cls, listed⟩
    exact noClass _ listed _ _ _ rfl
  refine ⟨_,
    { msgs := msgs
      uses := ?_
      known := ?_
      announces := ?_
      only := fun _ cls tag _ announced => absurd announced (nothing _)
      keeps := fun _ listed => List.mem_append_left _ listed }⟩
  · intro announces known
    -- Every use is the tag of the class of one of the two objects.
    have resolved : ∀ object, AgentState.IsReferenced reference object →
        state.agent.tag (jvm.classOf object) ≠ 0 → AnnouncedIn jvm state.agent.msgs
          (jvm.classOf object, state.agent.tag (jvm.classOf object)) := by
      intro object isReferenced tagged
      have inAnnounced : jvm.classOf object ∈ state.announced := by
        rcases isReferenced with rfl | isReferrer
        · exact known.1 tagged
        · exact known.2 object isReferrer tagged
      exact announces.announced _ inAnnounced
    refine referentialFrom_of_uses fun msg listed use used => ?_
    rcases List.mem_append.mp listed with inObjects | isReference
    · rcases objects msg inObjects with ⟨object, tag, isReferenced, tagged, rfl⟩
      simp only [AgentMsg.classUses, List.mem_singleton] at used
      exact used ▸ resolved object isReferenced tagged
    · rw [List.mem_singleton] at isReference
      subst isReference
      simp only [AgentMsg.classUses, List.mem_filter, List.mem_cons, List.mem_map,
        Option.mem_toList, decide_eq_true_eq] at used
      rcases used with ⟨rfl | ⟨object, isReferrer, rfl⟩, tagged⟩
      · rw [classTag] at tagged ⊢
        exact resolved _ (Or.inl rfl) tagged
      · rw [referrerClassTag, isReferrer, Option.elim_some] at tagged ⊢
        exact resolved object (Or.inr isReferrer) tagged
  · intro only referential
    have used : ∀ use ∈ (AgentMsg.heapRefInfo reference.referent reference.referrer
        info).classUses jvm, AnnouncedIn jvm state.agent.msgs use := fun use used =>
      announcedIn_append_of_none noClass (referential.uses_of_mem (by simp) used)
    constructor
    · intro tagged
      refine (only _ _ tagged (used _ ?_)).1
      simp [AgentMsg.classUses, classTag, tagged]
    · intro object isReferrer tagged
      refine (only _ _ tagged (used _ ?_)).1
      simp [AgentMsg.classUses, referrerClassTag, isReferrer, tagged]
  · intro cls listed
    simp only [List.append_nil] at listed
    exact Or.inl listed

theorem track_stepMsgs {allocatedObj : Entity}
    (stepped : observe jvm state (.track allocatedObj) = some next) :
    ∃ stepMsgs, StepMsgs jvm state next (.track allocatedObj) stepMsgs := by
  cases stepped
  by_cases untagged : state.agent.tag (jvm.classOf allocatedObj) = 0
  · rcases AgentState.track_msgs_untagged untagged with
      ⟨objectMsgs, msgs, objects, classTagged⟩
    have noClass : ∀ msg ∈ objectMsgs, ∀ cls sign tag, msg ≠ AgentMsg.classTag cls sign tag := by
      intro msg listed cls sign tag isClass
      rcases objects msg listed with ⟨_, form⟩
      rw [form] at isClass
      cases isClass
    refine ⟨_,
      { msgs := msgs
        uses := fun _ _ => ⟨by simp [AgentMsg.classUses], ?_⟩
        known := fun _ _ _ tagged => absurd untagged tagged
        announces := ?_
        only := ?_
        keeps := fun _ listed => List.mem_append_left _ listed }⟩
    · refine referentialFrom_of_uses fun msg listed use used => ?_
      rcases objects msg listed with ⟨tag, rfl⟩
      simp only [AgentMsg.classUses, List.mem_singleton] at used
      subst used
      exact ⟨_, List.mem_append_right _ (List.mem_singleton_self _)⟩
    · intro cls listed
      rcases List.mem_append.mp listed with before | now
      · exact Or.inl before
      · simp only [untagged, true_and] at now
        split at now
        · rename_i nonzero
          rw [List.mem_singleton] at now
          subst now
          refine Or.inr ⟨?_, jvm.classOf allocatedObj, ?_⟩
          · change (AgentState.trackObject jvm state.agent allocatedObj).tag _ ≠ 0
            rwa [classTagged nonzero]
          · change AgentMsg.classTag _ _ ((AgentState.trackObject jvm state.agent
              allocatedObj).tag _) ∈ _
            rw [classTagged nonzero]
            exact List.mem_cons_self ..
        · simp at now
    · intro injective cls tag tagged announced
      have first : AnnouncedIn jvm [.classTag (jvm.classOf allocatedObj)
          (jvm.classSignature (jvm.classOf allocatedObj))
          (state.agent.increment state.agent.lastTag)] (cls, tag) :=
        announcedIn_append_of_none noClass announced
      rcases announcedIn_singleton first with ⟨sameSign, sameTag⟩
      have isClass : cls = jvm.classOf allocatedObj := injective sameSign
      have sameTag : tag = state.agent.increment state.agent.lastTag := sameTag
      subst isClass sameTag
      refine ⟨List.mem_append_right _ ?_, classTagged tagged⟩
      simp only [untagged, tagged, ne_eq, not_false_eq_true, and_self, if_true,
        List.mem_singleton]
  · have msgs := AgentState.track_msgs_tagged untagged
    refine ⟨_,
      { msgs := msgs
        uses := ?_
        known := ?_
        announces := ?_
        only := ?_
        keeps := fun _ listed => List.mem_append_left _ listed }⟩
    · intro announces known
      refine referentialFrom_of_uses fun msg listed use used => ?_
      split at listed
      · rename_i objectUntagged
        rw [List.mem_singleton] at listed
        subst listed
        simp only [AgentMsg.classUses, List.mem_singleton] at used
        subst used
        exact announces.announced _ (known objectUntagged untagged)
      · simp at listed
    · intro only referential objectUntagged tagged
      rw [if_pos objectUntagged] at referential
      have used := referential.1 _ (List.mem_singleton_self _)
      exact (only _ _ tagged used).1
    · intro cls listed
      simp only [untagged, false_and, if_false, List.append_nil] at listed
      exact Or.inl listed
    · rintro _ cls tag _ ⟨announcedCls, listed⟩
      split at listed
      · simp at listed
      · simp at listed

/-- Starting or flushing a group includes nothing. -/
theorem silent_stepMsgs (sameMsgs : next.agent.msgs = state.agent.msgs)
    (sameKnown : next.announced = state.announced) (usesNothing : UsesKnown jvm state step) :
    StepMsgs jvm state next step [] where
  msgs := by rw [sameMsgs, List.append_nil]
  uses _ _ := trivial
  known _ _ := usesNothing
  announces _ listed := Or.inl (sameKnown ▸ listed)
  only := by
    rintro _ _ _ _ ⟨_, listed⟩
    simp at listed
  keeps _ listed := sameKnown ▸ listed

theorem exists_stepMsgs (stepped : observe jvm state step = some next) :
    ∃ stepMsgs, StepMsgs jvm state next step stepMsgs := by
  cases step with
  | startMsgGrp =>
      cases stepped
      exact ⟨[], silent_stepMsgs rfl (List.append_nil _) trivial⟩
  | flushMsgGrp =>
      cases stepped
      exact ⟨[], silent_stepMsgs rfl (List.append_nil _) trivial⟩
  | meetClass cls => exact ⟨_, meetClass_stepMsgs stepped⟩
  | reference reference => exact reference_stepMsgs stepped
  | track allocatedObj => exact track_stepMsgs stepped

theorem observe_agent (stepped : observe jvm state step = some next) :
    next.agent = state.agent.applyTagStep jvm step := by
  cases stepped
  rfl

theorem Announces.kept (announces : Announces jvm state)
    (stepped : observe jvm state step = some next) : Announces jvm next := by
  have agent := observe_agent stepped
  have keeps := AgentState.applyTagStep_keeps jvm state.agent step
  rw [← agent] at keeps
  rcases exists_stepMsgs stepped with ⟨stepMsgs, spec⟩
  refine { tagged := ?_, announced := ?_ }
  · intro cls listed
    rcases spec.announces cls listed with before | ⟨tagged, _⟩
    · rw [keeps cls (announces.tagged cls before)]
      exact announces.tagged cls before
    · exact tagged
  · intro cls listed
    rw [spec.msgs]
    rcases spec.announces cls listed with before | ⟨_, entity, announced⟩
    · rw [keeps cls (announces.tagged cls before)]
      exact (announces.announced cls before).append_left _
    · exact ⟨entity, List.mem_append_right _ announced⟩

theorem AnnouncesOnly.kept (injective : Function.Injective jvm.classSignature)
    (only : AnnouncesOnly jvm state) (stepped : observe jvm state step = some next) :
    AnnouncesOnly jvm next := by
  have keeps := AgentState.applyTagStep_keeps jvm state.agent step
  rw [← observe_agent stepped] at keeps
  rcases exists_stepMsgs stepped with ⟨stepMsgs, spec⟩
  rintro cls tag tagged ⟨entity, listed⟩
  rw [spec.msgs] at listed
  rcases List.mem_append.mp listed with before | now
  · rcases only cls tag tagged ⟨entity, before⟩ with ⟨known, sameTag⟩
    exact ⟨spec.keeps cls known, by rw [keeps cls (sameTag ▸ tagged), sameTag]⟩
  · exact spec.only injective cls tag tagged ⟨entity, now⟩

theorem announces_initial (jvm : Jvm) : Announces jvm initial where
  tagged _ listed := by simp [initial] at listed
  announced _ listed := by simp [initial] at listed

theorem announcesOnly_initial (jvm : Jvm) : AnnouncesOnly jvm initial := by
  rintro cls tag _ ⟨entity, listed⟩
  simp [initial, AgentState.initial, AgentState.msgs] at listed

/-- A run whose uses are of known classes keeps its messages referential. -/
theorem referential_of_stepsMeet {steps : List TagStep} {final : Observed}
    (announces : Announces jvm state) (referential : ReferentialFrom jvm [] state.agent.msgs)
    (run : runFrom (observe jvm) state steps = some final)
    (meets : StepsMeet (observe jvm) (UsesKnown jvm) state steps) :
    ReferentialFrom jvm [] final.agent.msgs := by
  have kept : ∀ (state : Observed) (step : TagStep) (next : Observed), UsesKnown jvm state step →
      Announces jvm state ∧ ReferentialFrom jvm [] state.agent.msgs →
      observe jvm state step = some next →
      Announces jvm next ∧ ReferentialFrom jvm [] next.agent.msgs := by
    rintro state step next known ⟨announces, referential⟩ stepped
    rcases exists_stepMsgs stepped with ⟨stepMsgs, spec⟩
    refine ⟨announces.kept stepped, ?_⟩
    rw [spec.msgs, referentialFrom_append]
    exact ⟨referential, spec.uses announces known⟩
  exact (runFrom_invariant kept meets ⟨announces, referential⟩ run).2

/-- The messages of a run begin with those of its first state. -/
theorem msgs_of_run {steps : List TagStep} {final : Observed}
    (run : runFrom (observe jvm) state steps = some final) :
    ∃ later, final.agent.msgs = state.agent.msgs ++ later := by
  induction steps generalizing state with
  | nil =>
      cases run
      exact ⟨[], (List.append_nil _).symm⟩
  | cons step steps ih =>
      rcases runFrom_cons_eq_some.mp run with ⟨next, stepped, rest⟩
      rcases exists_stepMsgs stepped with ⟨stepMsgs, spec⟩
      rcases ih rest with ⟨later, msgs⟩
      exact ⟨stepMsgs ++ later, by rw [msgs, spec.msgs, List.append_assoc]⟩

/-- Where signatures tell classes apart, a referential run uses known classes only. -/
theorem stepsMeet_of_referential (injective : Function.Injective jvm.classSignature)
    {steps : List TagStep} {final : Observed} (only : AnnouncesOnly jvm state)
    (run : runFrom (observe jvm) state steps = some final)
    (referential : ReferentialFrom jvm [] final.agent.msgs) :
    StepsMeet (observe jvm) (UsesKnown jvm) state steps := by
  induction steps generalizing state with
  | nil => trivial
  | cons step steps ih =>
      rcases runFrom_cons_eq_some.mp run with ⟨next, stepped, rest⟩
      rcases exists_stepMsgs stepped with ⟨stepMsgs, spec⟩
      rcases msgs_of_run rest with ⟨later, msgs⟩
      have soFar := referential
      rw [msgs, referentialFrom_append, spec.msgs, referentialFrom_append] at soFar
      refine ⟨spec.known only soFar.1.2, fun other otherStepped => ?_⟩
      rw [stepped, Option.some.injEq] at otherStepped
      exact otherStepped ▸ ih (only.kept injective stepped) rest

end Observed

section Runs

variable {jvm : Jvm}

/-- A run of operations is the run of their steps. -/
theorem observe_run (jvm : Jvm) (steps : List TagStep) (state : Observed) :
    ∃ announced, runFrom (Observed.observe jvm) state steps =
      some { agent := steps.foldl (AgentState.applyTagStep jvm) state.agent, announced } := by
  induction steps generalizing state with
  | nil => exact ⟨state.announced, rfl⟩
  | cons step steps ih => exact ih _

/-- A class pass is a run of its classes. -/
theorem checkAndTagClasses_steps (jvm : Jvm) (classes : List Entity) (state : AgentState) :
    AgentState.checkAndTagClasses jvm state classes false =
      (classes.map TagStep.meetClass).foldl (AgentState.applyTagStep jvm) state := by
  induction classes generalizing state with
  | nil => rfl
  | cons cls classes ih => exact ih _

theorem applyAgentOp_steps (jvm : Jvm) (state : AgentState) (op : AgentOp) :
    state.applyAgentOp jvm op = op.steps.foldl (AgentState.applyTagStep jvm) state := by
  cases op with
  | getClassMetadata classes =>
      simp only [AgentState.applyAgentOp, AgentState.onGetClassMetadata, AgentOp.steps,
        List.foldl_cons, List.foldl_append, checkAndTagClasses_steps]
      rfl
  | followReference references =>
      simp only [AgentState.applyAgentOp, AgentState.onFollowReference, AgentOp.steps,
        List.foldl_cons, List.foldl_append, List.foldl_map, AgentState.followReferences]
      rfl
  | trackObject allocatedObj => rfl

theorem runAgentOps_steps (jvm : Jvm) (ops : List AgentOp) (state : AgentState) :
    ops.foldl (AgentState.applyAgentOp jvm) state =
      (ops.flatMap AgentOp.steps).foldl (AgentState.applyTagStep jvm) state := by
  induction ops generalizing state with
  | nil => rfl
  | cons op ops ih =>
      rw [List.foldl_cons, ih, applyAgentOp_steps, List.flatMap_cons, List.foldl_append]

/--
In every run of complete operations whose steps refer to known classes only, each
class tag is announced before it is used; where signatures tell classes apart,
these are the only such runs.
-/
theorem runAgentOps_referential (jvm : Jvm) (ops : List AgentOp) :
    (StepsMeet (Observed.observe jvm) (Observed.UsesKnown jvm) .initial
        (ops.flatMap AgentOp.steps) →
      ReferentialFrom jvm [] (AgentState.runAgentOps jvm ops).msgs) ∧
    (Function.Injective jvm.classSignature →
      ReferentialFrom jvm [] (AgentState.runAgentOps jvm ops).msgs →
      StepsMeet (Observed.observe jvm) (Observed.UsesKnown jvm) .initial
        (ops.flatMap AgentOp.steps)) := by
  rcases observe_run jvm (ops.flatMap AgentOp.steps) .initial with ⟨announced, run⟩
  have final : (ops.flatMap AgentOp.steps).foldl (AgentState.applyTagStep jvm)
      Observed.initial.agent = AgentState.runAgentOps jvm ops :=
    (runAgentOps_steps jvm ops _).symm
  rw [final] at run
  constructor
  · intro meets
    exact Observed.referential_of_stepsMeet (Observed.announces_initial jvm) trivial run meets
  · intro injective referential
    exact Observed.stepsMeet_of_referential injective (Observed.announcesOnly_initial jvm) run
      referential

end Runs

/-- Every object is of class 0, and no two classes have the same signature. -/
def numberedJvm : Jvm where
  classOf _ := 0
  classSignature cls := List.replicate cls 'L'

theorem numberedJvm_injective : Function.Injective numberedJvm.classSignature := by
  intro cls other same
  have lengths := congrArg List.length same
  simpa [numberedJvm] using lengths

/-- Tracking two objects announces their class before the first of them. -/
theorem runAgentOps_referential_tracked :
    ReferentialFrom numberedJvm []
        (AgentState.runAgentOps numberedJvm [.trackObject 5, .trackObject 6]).msgs ∧
      StepsMeet (Observed.observe numberedJvm) (Observed.UsesKnown numberedJvm) .initial
        ([AgentOp.trackObject 5, .trackObject 6].flatMap AgentOp.steps) := by
  have meets : StepsMeet (Observed.observe numberedJvm) (Observed.UsesKnown numberedJvm) .initial
      ([AgentOp.trackObject 5, .trackObject 6].flatMap AgentOp.steps) := by
    refine ⟨fun _ tagged => absurd rfl tagged, fun next stepped => ?_⟩
    cases stepped
    exact ⟨fun _ _ => by decide, fun _ _ => trivial⟩
  have referential := (runAgentOps_referential numberedJvm [.trackObject 5, .trackObject 6]).1 meets
  exact ⟨referential, (runAgentOps_referential numberedJvm _).2 numberedJvm_injective referential⟩

/-- A class pass announces class 0 with tag 0, and the walk then uses its tag 1. -/
theorem classPass_then_walk_unannounced :
    ¬ReferentialFrom oneClassJvm []
      (AgentState.runAgentOps oneClassJvm
        [.getClassMetadata [0], .followReference [staticReference]]).msgs := by
  have msgs : (AgentState.runAgentOps oneClassJvm
      [.getClassMetadata [0], .followReference [staticReference]]).msgs =
        [.classTag 0 ['L', 'A', ';'] 0, .objectTag 5 2 1,
          .heapRefInfo 5 none
            { referenceKind := 8, index := -1, classTag := 1, referrerClassTag := 0, tag := 2,
              referrerTag := 0, length := -1, size := 16 }] := by
    decide
  rw [msgs]
  rintro ⟨_, used, _⟩
  rcases used (0, 1) (by decide) with ⟨cls, listed⟩
  simp at listed

end HeapScan
