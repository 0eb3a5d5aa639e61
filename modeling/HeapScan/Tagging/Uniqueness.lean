import HeapScan.Tagging.Basic

/-!
# When tags are unique

The class pass and the heap walk take `lastTag` as the next free tag, tracking
takes it as the last one used.  A tag is given twice exactly where one of the
first two numbers an entity after tracking has numbered one.
-/

namespace HeapScan

/-- One complete tagging operation. -/
inductive TagOp where
  | classPass (classes : List Entity) (flushFl : Bool)
  | reference (reference : HeapReference)
  | track (allocatedObj : Entity)

namespace AgentState

def applyTagOp (jvm : Jvm) (state : AgentState) : TagOp → AgentState
  | .classPass classes flushFl => checkAndTagClasses jvm state classes flushFl
  | .reference reference => reportReference jvm state reference
  | .track allocatedObj => trackObject jvm state allocatedObj

/-- A run with a counter that has no bound. -/
def runTagOps (jvm : Jvm) (ops : List TagOp) : AgentState :=
  ops.foldl (applyTagOp jvm) unbounded

/-- No two entities carry the same tag, 0 aside. -/
def TagsUnique (state : AgentState) : Prop :=
  ∀ entity other, state.tag entity ≠ 0 → state.tag entity = state.tag other → entity = other

/-- The operation is a class pass or a callback that finds an entity to number. -/
def NumbersNext (jvm : Jvm) (state : AgentState) : TagOp → Prop
  | .classPass classes _ => ∃ cls ∈ classes, state.tag cls = 0
  | .reference reference =>
      ∃ object, (object = reference.referent ∨ reference.referrer = some object) ∧
        state.tag object = 0 ∧ state.tag (jvm.classOf object) ≠ 0
  | .track _ => False

/-- The operation is a `trackObject` that finds its object or its class without a tag. -/
def TracksNew (jvm : Jvm) (state : AgentState) : TagOp → Prop
  | .track allocatedObj =>
      state.tag (jvm.classOf allocatedObj) = 0 ∨ state.tag allocatedObj = 0
  | _ => False

/--
No class pass or callback numbers an entity after a `trackObject` has numbered
one; `tracked` says whether one has before `state`.
-/
def NumberedBeforeTracked (jvm : Jvm) : Prop → AgentState → List TagOp → Prop
  | _, _, [] => True
  | tracked, state, op :: ops =>
      ¬(tracked ∧ NumbersNext jvm state op) ∧
        NumberedBeforeTracked jvm (tracked ∨ TracksNew jvm state op) (applyTagOp jvm state op) ops

/-- The counter has no bound, and it is positive. -/
def CountsUp (state : AgentState) : Prop :=
  state.increment = incrementExact ∧ 0 < state.lastTag

/-- What the counter says of the tags in use, before and after the first tracked entity. -/
structure Counted (tracked : Prop) (state : AgentState) : Prop where
  countsUp : state.CountsUp
  nonneg : ∀ entity, 0 ≤ state.tag entity
  bounded : ∀ entity, state.tag entity ≤ state.lastTag
  free : ¬tracked → ∀ entity, state.tag entity < state.lastTag
  used : tracked → ∃ entity, state.tag entity = state.lastTag
  unique : state.TagsUnique

/-- Every tag that is set stays as it is. -/
def KeepsTags (state next : AgentState) : Prop :=
  ∀ entity, state.tag entity ≠ 0 → next.tag entity = state.tag entity

section Frame

@[simp]
theorem setTag_tag (state : AgentState) (entity : Entity) (tag : ℤ) :
    (state.setTag entity tag).tag = Function.update state.tag entity tag := rfl

@[simp]
theorem includeMessage_tag (state : AgentState) (msg : AgentMsg) (msgSize : ℤ)
    (immediateFl : Bool) :
    (state.includeMessage msg msgSize immediateFl).tag = state.tag := by
  unfold includeMessage
  split <;> rfl

@[simp]
theorem includeMessage_lastTag (state : AgentState) (msg : AgentMsg) (msgSize : ℤ)
    (immediateFl : Bool) :
    (state.includeMessage msg msgSize immediateFl).lastTag = state.lastTag := by
  unfold includeMessage
  split <;> rfl

@[simp]
theorem includeMessage_increment (state : AgentState) (msg : AgentMsg) (msgSize : ℤ)
    (immediateFl : Bool) :
    (state.includeMessage msg msgSize immediateFl).increment = state.increment := by
  unfold includeMessage
  split <;> rfl

@[simp]
theorem storeObjectTag_tag (state : AgentState) (object : Entity) (objectTag classTag : ℤ)
    (flushFl : Bool) :
    (state.storeObjectTag object objectTag classTag flushFl).tag = state.tag :=
  includeMessage_tag ..

@[simp]
theorem storeObjectTag_lastTag (state : AgentState) (object : Entity) (objectTag classTag : ℤ)
    (flushFl : Bool) :
    (state.storeObjectTag object objectTag classTag flushFl).lastTag = state.lastTag :=
  includeMessage_lastTag ..

@[simp]
theorem storeObjectTag_increment (state : AgentState) (object : Entity) (objectTag classTag : ℤ)
    (flushFl : Bool) :
    (state.storeObjectTag object objectTag classTag flushFl).increment = state.increment :=
  includeMessage_increment ..

@[simp]
theorem storeClassTag_tag (jvm : Jvm) (state : AgentState) (cls : Entity) (tag : ℤ)
    (flushFl : Bool) : (storeClassTag jvm state cls tag flushFl).tag = state.tag :=
  includeMessage_tag ..

@[simp]
theorem storeClassTag_lastTag (jvm : Jvm) (state : AgentState) (cls : Entity) (tag : ℤ)
    (flushFl : Bool) : (storeClassTag jvm state cls tag flushFl).lastTag = state.lastTag :=
  includeMessage_lastTag ..

@[simp]
theorem storeClassTag_increment (jvm : Jvm) (state : AgentState) (cls : Entity) (tag : ℤ)
    (flushFl : Bool) :
    (storeClassTag jvm state cls tag flushFl).increment = state.increment :=
  includeMessage_increment ..

theorem includeMessage_countsUp (state : AgentState) (msg : AgentMsg) (msgSize : ℤ)
    (immediateFl : Bool) :
    (state.includeMessage msg msgSize immediateFl).CountsUp ↔ state.CountsUp := by
  rw [CountsUp, includeMessage_increment, includeMessage_lastTag, CountsUp]

/-- Counting up from a value that was read keeps the counter positive. -/
theorem CountsUp.count {state : AgentState} (countsUp : state.CountsUp) {read : ℤ}
    (positive : 0 < read) : { state with lastTag := state.increment read }.CountsUp := by
  refine ⟨countsUp.1, ?_⟩
  have next : state.increment read = read + 1 := by rw [countsUp.1, incrementExact]
  dsimp only
  omega

theorem KeepsTags.refl (state : AgentState) : KeepsTags state state := fun _ _ => rfl

theorem KeepsTags.trans {first second third : AgentState} (keeps : KeepsTags first second)
    (keepsNext : KeepsTags second third) : KeepsTags first third := by
  intro entity tagged
  have same := keeps entity tagged
  rw [keepsNext entity (by rwa [same]), same]

/-- Numbering an entity that has no tag keeps all tags. -/
theorem keepsTags_of_update {state next : AgentState} {entity : Entity} (tag : ℤ)
    (untagged : state.tag entity = 0) (updated : next.tag = Function.update state.tag entity tag) :
    KeepsTags state next := by
  intro other tagged
  rw [updated, Function.update_of_ne]
  rintro rfl
  exact tagged untagged

end Frame

section Counting

variable {tracked : Prop} {state next : AgentState}

theorem Counted.congr (counted : Counted tracked state) (sameTags : next.tag = state.tag)
    (sameLast : next.lastTag = state.lastTag) (same : next.increment = state.increment) :
    Counted tracked next where
  countsUp := ⟨same.trans counted.countsUp.1, sameLast ▸ counted.countsUp.2⟩
  nonneg := sameTags ▸ counted.nonneg
  bounded := by
    rw [sameTags, sameLast]
    exact counted.bounded
  free untracked := by
    rw [sameTags, sameLast]
    exact counted.free untracked
  used isTracked := by
    rw [sameTags, sameLast]
    exact counted.used isTracked
  unique := by
    unfold TagsUnique
    rw [sameTags]
    exact counted.unique

/-- A tag that no entity carries can be given to an entity without one. -/
theorem TagsUnique.update {entity : Entity} {tag : ℤ} (unique : state.TagsUnique)
    (unused : ∀ other, state.tag other ≠ tag)
    (updated : next.tag = Function.update state.tag entity tag) : next.TagsUnique := by
  intro first second tagged same
  rw [updated] at tagged same
  by_cases isFirst : first = entity <;> by_cases isSecond : second = entity
  · rw [isFirst, isSecond]
  · rw [isFirst, Function.update_self, Function.update_of_ne isSecond] at same
    exact absurd same.symm (unused second)
  · rw [isSecond, Function.update_self, Function.update_of_ne isFirst] at same
    exact absurd same (unused first)
  · rw [Function.update_of_ne isFirst] at tagged same
    rw [Function.update_of_ne isSecond] at same
    exact unique first second tagged same

/-- Numbering with the counter's value and moving it on, as the class pass and the walk do. -/
theorem Counted.number_next (entity : Entity) (counted : Counted tracked state)
    (untracked : ¬tracked) (updated : next.tag = Function.update state.tag entity state.lastTag)
    (moved : next.lastTag = state.increment state.lastTag)
    (same : next.increment = state.increment) : Counted tracked next := by
  have positive := counted.countsUp.2
  have moved : next.lastTag = state.lastTag + 1 := by rw [moved, counted.countsUp.1, incrementExact]
  have below := counted.free untracked
  have small : ∀ other, next.tag other < next.lastTag := by
    intro other
    have := below other
    rw [updated, moved]
    by_cases same : other = entity
    · rw [same, Function.update_self]
      omega
    · rw [Function.update_of_ne same]
      omega
  refine
    { countsUp := ⟨same.trans counted.countsUp.1, by omega⟩
      nonneg := ?_
      bounded := fun other => Int.le_of_lt (small other)
      free := fun _ => small
      used := fun isTracked => absurd isTracked untracked
      unique := counted.unique.update (fun other => Int.ne_of_lt (below other)) updated }
  intro other
  have := counted.nonneg other
  rw [updated]
  by_cases same : other = entity
  · rw [same, Function.update_self]
    omega
  · rwa [Function.update_of_ne same]

/-- Moving the counter on and numbering with its new value, as tracking does. -/
theorem Counted.number_tracked (entity : Entity) (counted : Counted tracked state)
    (updated : next.tag = Function.update state.tag entity (state.increment state.lastTag))
    (moved : next.lastTag = state.increment state.lastTag)
    (same : next.increment = state.increment) : Counted True next := by
  have positive := counted.countsUp.2
  rw [counted.countsUp.1, incrementExact] at updated moved
  refine
    { countsUp := ⟨same.trans counted.countsUp.1, by omega⟩
      nonneg := ?_
      bounded := ?_
      free := fun untracked => absurd trivial untracked
      used := fun _ => ⟨entity, by rw [updated, moved, Function.update_self]⟩
      unique := counted.unique.update (fun other => ?_) updated }
  · intro other
    have := counted.nonneg other
    rw [updated]
    by_cases same : other = entity
    · rw [same, Function.update_self]
      omega
    · rwa [Function.update_of_ne same]
  · intro other
    have := counted.bounded other
    rw [updated, moved]
    by_cases same : other = entity
    · simp only [same, Function.update_self, Int.le_refl]
    · rw [Function.update_of_ne same]
      omega
  · have := counted.bounded other
    omega

end Counting

section ClassPass

theorem checkAndTagClasses_keeps (jvm : Jvm) (classes : List Entity) (flushFl : Bool)
    (state : AgentState) : KeepsTags state (checkAndTagClasses jvm state classes flushFl) := by
  induction classes generalizing state with
  | nil => exact KeepsTags.refl state
  | cons cls classes ih =>
      refine KeepsTags.trans ?_ (ih _)
      by_cases untagged : state.tag cls = 0
      · exact keepsTags_of_update state.lastTag untagged (by simp [untagged])
      · intro entity _
        simp [untagged]

theorem checkAndTagClasses_counted (jvm : Jvm) {tracked : Prop} (untracked : ¬tracked)
    (classes : List Entity) (flushFl : Bool) {state : AgentState}
    (counted : Counted tracked state) :
    Counted tracked (checkAndTagClasses jvm state classes flushFl) := by
  induction classes generalizing state with
  | nil => exact counted
  | cons cls classes ih =>
      refine ih ?_
      by_cases untagged : state.tag cls = 0
      · exact counted.number_next cls untracked (by simp [untagged]) (by simp [untagged])
          (by simp [untagged, setTag])
      · exact counted.congr (by simp [untagged]) (by simp [untagged]) (by simp [untagged])

/-- A class pass that finds every class tagged numbers nothing. -/
theorem checkAndTagClasses_tagged (jvm : Jvm) (classes : List Entity) (flushFl : Bool)
    (state : AgentState) (tagged : ∀ cls ∈ classes, state.tag cls ≠ 0) :
    (checkAndTagClasses jvm state classes flushFl).tag = state.tag ∧
      (checkAndTagClasses jvm state classes flushFl).lastTag = state.lastTag ∧
      (checkAndTagClasses jvm state classes flushFl).increment = state.increment := by
  induction classes generalizing state with
  | nil => exact ⟨rfl, rfl, rfl⟩
  | cons cls classes ih =>
      have first := tagged cls (List.mem_cons_self ..)
      simp only [checkAndTagClasses, first, if_false]
      rcases ih (storeClassTag jvm state cls (state.tag cls) flushFl) (by
        intro other listed
        rw [storeClassTag_tag]
        exact tagged other (List.mem_cons_of_mem _ listed)) with ⟨sameTags, sameLast, same⟩
      exact ⟨by rw [sameTags, storeClassTag_tag], by rw [sameLast, storeClassTag_lastTag],
        by rw [same, storeClassTag_increment]⟩

/-- The first class without a tag gets the value of the counter before the pass. -/
theorem checkAndTagClasses_numbers (jvm : Jvm) (classes : List Entity) (flushFl : Bool)
    (state : AgentState) (positive : 0 < state.lastTag)
    (untagged : ∃ cls ∈ classes, state.tag cls = 0) :
    ∃ entity, state.tag entity = 0 ∧
      (checkAndTagClasses jvm state classes flushFl).tag entity = state.lastTag := by
  induction classes generalizing state with
  | nil => simp at untagged
  | cons cls classes ih =>
      by_cases first : state.tag cls = 0
      · refine ⟨cls, first, ?_⟩
        rw [checkAndTagClasses, checkAndTagClasses_keeps]
        · simp [first]
        · simpa [first] using Int.ne_of_gt positive
      · rcases untagged with ⟨other, listed, none⟩
        have inRest : other ∈ classes := by
          rcases List.mem_cons.mp listed with rfl | later
          · exact absurd none first
          · exact later
        simp only [checkAndTagClasses, first, if_false]
        rcases ih (storeClassTag jvm state cls (state.tag cls) flushFl)
            (by simpa using positive) ⟨other, inRest, by simpa using none⟩ with
          ⟨entity, was, now⟩
        exact ⟨entity, by simpa using was, by simpa using now⟩

end ClassPass

section Reference

variable {state : AgentState} {object : Entity} {classTag : ℤ}

theorem tagReferenced_new (untagged : state.tag object = 0 ∧ classTag ≠ 0) :
    (state.tagReferenced object classTag).tag =
        Function.update state.tag object state.lastTag ∧
      (state.tagReferenced object classTag).lastTag = state.increment state.lastTag := by
  simp [tagReferenced, untagged.1, untagged.2]

@[simp]
theorem tagReferenced_increment (state : AgentState) (object : Entity) (classTag : ℤ) :
    (state.tagReferenced object classTag).increment = state.increment := by
  unfold tagReferenced
  split
  · rw [storeObjectTag_increment, setTag]
  · rfl

theorem tagReferenced_old (tagged : ¬(state.tag object = 0 ∧ classTag ≠ 0)) :
    state.tagReferenced object classTag = state := by
  rw [tagReferenced, if_neg tagged]

theorem tagReferenced_keeps (state : AgentState) (object : Entity) (classTag : ℤ) :
    KeepsTags state (state.tagReferenced object classTag) := by
  by_cases untagged : state.tag object = 0 ∧ classTag ≠ 0
  · exact keepsTags_of_update state.lastTag untagged.1 (tagReferenced_new untagged).1
  · rw [tagReferenced_old untagged]
    exact KeepsTags.refl state

theorem tagReferenced_counted {tracked : Prop} (untracked : ¬tracked)
    (counted : Counted tracked state) (object : Entity) (classTag : ℤ) :
    Counted tracked (state.tagReferenced object classTag) := by
  by_cases untagged : state.tag object = 0 ∧ classTag ≠ 0
  · have numbered := tagReferenced_new untagged
    exact counted.number_next object untracked numbered.1 numbered.2 (tagReferenced_increment ..)
  · rwa [tagReferenced_old untagged]

/-- The state after both objects of a reference have been numbered where they need it. -/
def tagBoth (jvm : Jvm) (state : AgentState) (reference : HeapReference) : AgentState :=
  match reference.referrer with
  | none => state.tagReferenced reference.referent (state.tag (jvm.classOf reference.referent))
  | some object =>
      (state.tagReferenced reference.referent
        (state.tag (jvm.classOf reference.referent))).tagReferenced object
          (state.tag (jvm.classOf object))

theorem reportReference_tags (jvm : Jvm) (state : AgentState) (reference : HeapReference) :
    (reportReference jvm state reference).tag = (tagBoth jvm state reference).tag ∧
      (reportReference jvm state reference).lastTag = (tagBoth jvm state reference).lastTag ∧
      (reportReference jvm state reference).increment =
        (tagBoth jvm state reference).increment := by
  unfold reportReference followReferenceCallback tagBoth
  cases reference.referrer with
  | none => simp
  | some object => simp

theorem tagBoth_keeps (jvm : Jvm) (state : AgentState) (reference : HeapReference) :
    KeepsTags state (tagBoth jvm state reference) := by
  unfold tagBoth
  cases reference.referrer with
  | none => exact tagReferenced_keeps _ _ _
  | some object => exact (tagReferenced_keeps _ _ _).trans (tagReferenced_keeps _ _ _)

theorem tagBoth_counted (jvm : Jvm) {tracked : Prop} (untracked : ¬tracked)
    (counted : Counted tracked state) (reference : HeapReference) :
    Counted tracked (tagBoth jvm state reference) := by
  unfold tagBoth
  cases reference.referrer with
  | none => exact tagReferenced_counted untracked counted ..
  | some object =>
      exact tagReferenced_counted untracked (tagReferenced_counted untracked counted ..) ..

/-- A callback whose objects need no tag numbers nothing. -/
theorem tagBoth_tagged {jvm : Jvm} {reference : HeapReference}
    (tagged : ¬NumbersNext jvm state (.reference reference)) :
    tagBoth jvm state reference = state := by
  have referent : ¬(state.tag reference.referent = 0 ∧
      state.tag (jvm.classOf reference.referent) ≠ 0) := fun untagged =>
    tagged ⟨_, Or.inl rfl, untagged⟩
  unfold tagBoth
  rcases isReferrer : reference.referrer with _ | object
  · exact tagReferenced_old referent
  · have referrer : ¬(state.tag object = 0 ∧ state.tag (jvm.classOf object) ≠ 0) :=
      fun untagged => tagged ⟨_, Or.inr isReferrer, untagged⟩
    simp only [tagReferenced_old referent, tagReferenced_old referrer]

/-- A callback that numbers an object gives the counter's value to the first. -/
theorem tagBoth_numbers {jvm : Jvm} (positive : 0 < state.lastTag) {reference : HeapReference}
    (numbers : NumbersNext jvm state (.reference reference)) :
    ∃ entity, state.tag entity = 0 ∧
      (tagBoth jvm state reference).tag entity = state.lastTag := by
  by_cases referent : state.tag reference.referent = 0 ∧
      state.tag (jvm.classOf reference.referent) ≠ 0
  · have numbered : (state.tagReferenced reference.referent
        (state.tag (jvm.classOf reference.referent))).tag reference.referent =
          state.lastTag := by
      rw [(tagReferenced_new referent).1, Function.update_self]
    refine ⟨reference.referent, referent.1, ?_⟩
    unfold tagBoth
    cases reference.referrer with
    | none => exact numbered
    | some object =>
        change (tagReferenced _ object _).tag _ = _
        rw [tagReferenced_keeps _ _ _ _ (by rw [numbered]; exact Int.ne_of_gt positive), numbered]
  · rcases numbers with ⟨object, rfl | isReferrer, untagged⟩
    · exact absurd untagged referent
    · refine ⟨object, untagged.1, ?_⟩
      simp only [tagBoth, isReferrer, tagReferenced_old referent]
      rw [(tagReferenced_new untagged).1, Function.update_self]

end Reference

section Tracking

variable {state : AgentState} {object : Entity}

theorem setAndGetTag_old (tagged : state.tag object ≠ 0) :
    state.setAndGetTag object = (state.tag object, false, state) := by
  rw [setAndGetTag, if_pos tagged]

theorem setAndGetTag_new (untagged : state.tag object = 0) :
    state.setAndGetTag object = (state.increment state.lastTag, true,
      { state with
        lastTag := state.increment state.lastTag
        tag := Function.update state.tag object (state.increment state.lastTag) }) := by
  rw [setAndGetTag, if_neg (not_not_intro untagged)]
  rfl

theorem setAndGetTag_increment (state : AgentState) (object : Entity) :
    (state.setAndGetTag object).2.2.increment = state.increment := by
  by_cases untagged : state.tag object = 0
  · rw [setAndGetTag_new untagged]
  · rw [setAndGetTag_old untagged]

theorem setAndGetTag_keeps (state : AgentState) (object : Entity) :
    KeepsTags state (state.setAndGetTag object).2.2 := by
  by_cases untagged : state.tag object = 0
  · exact keepsTags_of_update _ untagged (by rw [setAndGetTag_new untagged])
  · rw [setAndGetTag_old untagged]
    exact KeepsTags.refl state

theorem setAndGetTag_counted {tracked : Prop} (counted : Counted tracked state)
    (object : Entity) :
    Counted (tracked ∨ state.tag object = 0) (state.setAndGetTag object).2.2 := by
  by_cases untagged : state.tag object = 0
  · rw [setAndGetTag_new untagged]
    simp only [untagged, or_true]
    exact counted.number_tracked object rfl rfl rfl
  · rw [setAndGetTag_old untagged]
    simpa only [untagged, or_false] using counted

/-- The tags of `trackObject` are those of its two calls of `setAndGetTag`. -/
theorem trackObject_tags (jvm : Jvm) (state : AgentState) (allocatedObj : Entity) :
    ∃ middle : AgentState,
      middle.tag = (state.setAndGetTag (jvm.classOf allocatedObj)).2.2.tag ∧
      middle.lastTag = (state.setAndGetTag (jvm.classOf allocatedObj)).2.2.lastTag ∧
      middle.increment = (state.setAndGetTag (jvm.classOf allocatedObj)).2.2.increment ∧
      (trackObject jvm state allocatedObj).tag = (middle.setAndGetTag allocatedObj).2.2.tag ∧
      (trackObject jvm state allocatedObj).lastTag =
        (middle.setAndGetTag allocatedObj).2.2.lastTag ∧
      (trackObject jvm state allocatedObj).increment =
        (middle.setAndGetTag allocatedObj).2.2.increment := by
  unfold trackObject getObjectTag
  rcases state.setAndGetTag (jvm.classOf allocatedObj) with ⟨classTag, tagSetFl, next⟩
  dsimp only
  have sameTags : (if tagSetFl then storeClassTag jvm next (jvm.classOf allocatedObj) classTag true
      else next).tag = next.tag := by
    split
    · rw [storeClassTag_tag]
    · rfl
  have sameLast : (if tagSetFl then storeClassTag jvm next (jvm.classOf allocatedObj) classTag true
      else next).lastTag = next.lastTag := by
    split
    · rw [storeClassTag_lastTag]
    · rfl
  have same : (if tagSetFl then storeClassTag jvm next (jvm.classOf allocatedObj) classTag true
      else next).increment = next.increment := by
    split
    · rw [storeClassTag_increment]
    · rfl
  generalize (if tagSetFl then storeClassTag jvm next (jvm.classOf allocatedObj) classTag true
    else next) = middle at sameTags sameLast same ⊢
  refine ⟨middle, sameTags, sameLast, same, ?_⟩
  rcases middle.setAndGetTag allocatedObj with ⟨objectTag, objectSetFl, final⟩
  dsimp only
  split
  · exact ⟨storeObjectTag_tag .., storeObjectTag_lastTag .., storeObjectTag_increment ..⟩
  · exact ⟨rfl, rfl, rfl⟩

theorem trackObject_keeps (jvm : Jvm) (state : AgentState) (allocatedObj : Entity) :
    KeepsTags state (trackObject jvm state allocatedObj) := by
  rcases trackObject_tags jvm state allocatedObj with ⟨middle, sameTags, _, _, finalTags, _⟩
  have first := setAndGetTag_keeps state (jvm.classOf allocatedObj)
  have second := setAndGetTag_keeps middle allocatedObj
  intro entity tagged
  have kept := first entity tagged
  rw [← sameTags] at kept
  rw [finalTags, second entity (by rwa [kept]), kept]

theorem trackObject_counted (jvm : Jvm) {tracked : Prop} (counted : Counted tracked state)
    (allocatedObj : Entity) :
    Counted (tracked ∨ TracksNew jvm state (.track allocatedObj))
      (trackObject jvm state allocatedObj) := by
  rcases trackObject_tags jvm state allocatedObj with
    ⟨middle, sameTags, sameLast, same, finalTags, finalLast, finalSame⟩
  have first :=
    (setAndGetTag_counted counted (jvm.classOf allocatedObj)).congr sameTags sameLast same
  have second := (setAndGetTag_counted first allocatedObj).congr finalTags finalLast finalSame
  have same : ((tracked ∨ state.tag (jvm.classOf allocatedObj) = 0) ∨
      middle.tag allocatedObj = 0) ↔ (tracked ∨ TracksNew jvm state (.track allocatedObj)) := by
    rw [sameTags, or_assoc]
    by_cases untagged : state.tag (jvm.classOf allocatedObj) = 0
    · simp [TracksNew, untagged]
    · simp [TracksNew, setAndGetTag_old untagged]
  rwa [same] at second

end Tracking

section Runs

variable {jvm : Jvm} {tracked : Prop} {state : AgentState} {op : TagOp}

theorem applyTagOp_keeps (jvm : Jvm) (state : AgentState) (op : TagOp) :
    KeepsTags state (applyTagOp jvm state op) := by
  cases op with
  | classPass classes flushFl => exact checkAndTagClasses_keeps jvm classes flushFl state
  | reference reference =>
      intro entity tagged
      rw [applyTagOp, (reportReference_tags jvm state reference).1]
      exact tagBoth_keeps jvm state reference entity tagged
  | track allocatedObj => exact trackObject_keeps jvm state allocatedObj

theorem runTagOps_keeps (jvm : Jvm) (ops : List TagOp) (state : AgentState) :
    KeepsTags state (ops.foldl (applyTagOp jvm) state) := by
  induction ops generalizing state with
  | nil => exact KeepsTags.refl state
  | cons op ops ih => exact (applyTagOp_keeps jvm state op).trans (ih _)

/-- An operation that is allowed to number entities keeps what the counter says. -/
theorem applyTagOp_counted (counted : Counted tracked state)
    (allowed : ¬(tracked ∧ NumbersNext jvm state op)) :
    Counted (tracked ∨ TracksNew jvm state op) (applyTagOp jvm state op) := by
  cases op with
  | classPass classes flushFl =>
      simp only [TracksNew, or_false]
      by_cases numbers : NumbersNext jvm state (.classPass classes flushFl)
      · exact checkAndTagClasses_counted jvm (fun isTracked => allowed ⟨isTracked, numbers⟩)
          classes flushFl counted
      · have tagged : ∀ cls ∈ classes, state.tag cls ≠ 0 := fun cls listed none =>
          numbers ⟨cls, listed, none⟩
        rcases checkAndTagClasses_tagged jvm classes flushFl state tagged with
          ⟨sameTags, sameLast, same⟩
        exact counted.congr sameTags sameLast same
  | reference reference =>
      simp only [TracksNew, or_false]
      rcases reportReference_tags jvm state reference with ⟨sameTags, sameLast, same⟩
      by_cases numbers : NumbersNext jvm state (.reference reference)
      · exact (tagBoth_counted jvm (fun isTracked => allowed ⟨isTracked, numbers⟩) counted
          reference).congr sameTags sameLast same
      · rw [tagBoth_tagged numbers] at sameTags sameLast same
        exact counted.congr sameTags sameLast same
  | track allocatedObj => exact trackObject_counted jvm counted allocatedObj

/-- Where it is not allowed to, the entity it numbers first gets a tag that is in use. -/
theorem applyTagOp_repeats (counted : Counted tracked state) (isTracked : tracked)
    (numbers : NumbersNext jvm state op) :
    ∃ entity other, entity ≠ other ∧ (applyTagOp jvm state op).tag entity ≠ 0 ∧
      (applyTagOp jvm state op).tag entity = (applyTagOp jvm state op).tag other := by
  have given : ∃ entity, state.tag entity = 0 ∧
      (applyTagOp jvm state op).tag entity = state.lastTag := by
    cases op with
    | classPass classes flushFl =>
        exact checkAndTagClasses_numbers jvm classes flushFl state counted.countsUp.2 numbers
    | reference reference =>
        rw [applyTagOp, (reportReference_tags jvm state reference).1]
        exact tagBoth_numbers counted.countsUp.2 numbers
    | track allocatedObj => exact numbers.elim
  have positive := counted.countsUp.2
  rcases given with ⟨entity, untagged, given⟩
  rcases counted.used isTracked with ⟨other, inUse⟩
  have kept := applyTagOp_keeps jvm state op other (by omega)
  refine ⟨entity, other, ?_, by omega, by omega⟩
  rintro rfl
  omega

theorem numberedBeforeTracked_iff (ops : List TagOp) (counted : Counted tracked state) :
    (ops.foldl (applyTagOp jvm) state).TagsUnique ↔
      NumberedBeforeTracked jvm tracked state ops := by
  induction ops generalizing tracked state with
  | nil => exact ⟨fun _ => trivial, fun _ => counted.unique⟩
  | cons op ops ih =>
      by_cases repeats : tracked ∧ NumbersNext jvm state op
      · refine ⟨fun unique => ?_, fun numbered => absurd repeats numbered.1⟩
        rcases applyTagOp_repeats counted repeats.1 repeats.2 with
          ⟨entity, other, different, tagged, same⟩
        have keeps := runTagOps_keeps jvm ops (applyTagOp jvm state op)
        refine absurd (unique entity other ?_ ?_) different
        · rw [List.foldl_cons, keeps entity tagged]
          exact tagged
        · rw [List.foldl_cons, keeps entity tagged, keeps other (same ▸ tagged), same]
      · rw [List.foldl_cons, ih (applyTagOp_counted counted repeats)]
        exact ⟨fun numbered => ⟨repeats, numbered⟩, fun numbered => numbered.2⟩

theorem counted_unbounded : Counted False unbounded where
  countsUp := ⟨rfl, by decide⟩
  nonneg _ := Int.le_refl _
  bounded _ := Int.zero_le_ofNat 1
  free _ _ := Int.zero_lt_one
  used impossible := impossible.elim
  unique _ _ tagged := absurd rfl tagged

/--
With a counter that has no bound and after any sequence of tagging operations the
tags are unique exactly when no class pass or callback numbered an entity after
tracking had numbered one.
-/
theorem tagsUnique_iff (jvm : Jvm) (ops : List TagOp) :
    (runTagOps jvm ops).TagsUnique ↔ NumberedBeforeTracked jvm False unbounded ops :=
  numberedBeforeTracked_iff ops counted_unbounded

end Runs

end AgentState

/-- Every object is of class 0. -/
def oneClassJvm : Jvm where
  classOf _ := 0
  classSignature _ := ['L', 'A', ';']

/-- Object 5, of class 0, is reported as a static field. -/
def staticReference : HeapReference where
  referenceKind := AgentState.heapReferenceStaticField
  referenceInfo := none
  referent := 5
  referrer := none
  size := 16
  length := -1

/-- After an object of class 0 is tracked, a class pass meets class 1 for the first time. -/
theorem AgentState.track_then_classPass_repeats :
    (runTagOps oneClassJvm [.track 5, .classPass [1] false]).tag 5 = 3 ∧
      (runTagOps oneClassJvm [.track 5, .classPass [1] false]).tag 1 = 3 ∧
      ¬(runTagOps oneClassJvm [.track 5, .classPass [1] false]).TagsUnique := by
  refine ⟨by decide, by decide, fun unique => ?_⟩
  exact absurd (unique 5 1 (by decide) (by decide)) (by decide)

end HeapScan
