import Mathlib.Data.List.Dedup
import HeapScan.Tagging.Uniqueness

/-!
# What the reference callback reports

JVMTI tells the callback of one reference.  It should announce the objects it
numbers and then the reference, with the tags it leaves and the index of those
kinds that have one.  The switch joins two of these kinds with `|` to a label
that is the value of a third, so that their indices are not read.
-/

namespace HeapScan

open AgentState

/-- What JVMTI passes to the callback. -/
structure HeapCallback where
  referenceKind : ℕ
  referenceInfo : Option ℤ
  classTag : ℤ
  referrerClassTag : ℤ
  size : ℤ
  referent : Entity
  referrer : Option Entity
  length : ℤ

/-- The message for an object that got its tag between the two states. -/
def taggedMsg (before after : AgentState) (object : Entity) (classTag : ℤ) : List AgentMsg :=
  if before.tag object = 0 ∧ after.tag object ≠ 0 then
    [.objectTag object (after.tag object) classTag]
  else []

/-- `JVMTI_HEAP_REFERENCE_SUPERCLASS`. -/
def heapReferenceSuperclass : ℕ := 10

namespace HeapCallback

def run (callback : HeapCallback) (state : AgentState) : AgentState :=
  state.followReferenceCallback callback.referenceKind callback.referenceInfo callback.classTag
    callback.referrerClassTag callback.size callback.referent callback.referrer callback.length

/-- The index that JVMTI gave: array elements, fields and constant pool entries have one. -/
def index (callback : HeapCallback) : ℤ :=
  if callback.referenceKind ∈ [heapReferenceArrayElement, heapReferenceField,
      heapReferenceStaticField, heapReferenceConstantPool] then callback.referenceInfo.getD (-1)
  else -1

/-- The objects of the callback, each once. -/
def objects (callback : HeapCallback) : List Entity :=
  (callback.referent :: callback.referrer.toList).dedup

/-- The class tag that JVMTI passed for an object. -/
def classTagOf (callback : HeapCallback) (object : Entity) : ℤ :=
  if object = callback.referent ∧ callback.classTag ≠ 0 then callback.classTag
  else callback.referrerClassTag

/-- The messages for the objects that got their tag between the two states. -/
def objectMsgs (callback : HeapCallback) (before after : AgentState) : List AgentMsg :=
  callback.objects.flatMap fun object => taggedMsg before after object (callback.classTagOf object)

/-- What the callback should append to the group: these messages, and one for the reference. -/
def report (callback : HeapCallback) (before after : AgentState) : List AgentMsg :=
  callback.objectMsgs before after ++
    [.heapRefInfo callback.referent callback.referrer
      { referenceKind := callback.referenceKind
        index := callback.index
        classTag := callback.classTag
        referrerClassTag := callback.referrerClassTag
        tag := after.tag callback.referent
        referrerTag := callback.referrer.elim 0 after.tag
        length := callback.length
        size := callback.size }]

/-- No index is given, or it is -1, or the kind is none of the three that the switch confuses. -/
def IndexRead (callback : HeapCallback) : Prop :=
  ∀ index ∈ callback.referenceInfo, index ≠ -1 →
    callback.referenceKind ∉ [heapReferenceField, heapReferenceStaticField, heapReferenceSuperclass]

/-- The callback numbers its referent. -/
def NumbersReferent (callback : HeapCallback) (state : AgentState) : Prop :=
  state.tag callback.referent = 0 ∧ callback.classTag ≠ 0

/-- The callback numbers its referrer, and not as the referent. -/
def NumbersReferrer (callback : HeapCallback) (state : AgentState) : Prop :=
  ∃ object ∈ callback.referrer, state.tag object = 0 ∧ callback.referrerClassTag ≠ 0 ∧
    ¬(object = callback.referent ∧ callback.classTag ≠ 0)

instance (callback : HeapCallback) : Decidable callback.IndexRead :=
  inferInstanceAs (Decidable (∀ index ∈ callback.referenceInfo, _ → _))

instance (callback : HeapCallback) (state : AgentState) :
    Decidable (callback.NumbersReferent state) :=
  inferInstanceAs (Decidable (_ ∧ _))

instance (callback : HeapCallback) (state : AgentState) :
    Decidable (callback.NumbersReferrer state) :=
  inferInstanceAs (Decidable (∃ object ∈ callback.referrer, _))

/-- None of the tags that the callback gives is 0, as it may be once the counter has wrapped. -/
def TagsNonzero (callback : HeapCallback) (state : AgentState) : Prop :=
  (callback.NumbersReferent state ∨ callback.NumbersReferrer state → state.lastTag ≠ 0) ∧
    (callback.NumbersReferent state ∧ callback.NumbersReferrer state →
      state.increment state.lastTag ≠ 0)

end HeapCallback

section Switch

/-- The switch is right but for the index of a field, and for that of a superclass. -/
theorem referenceIndex_eq_iff (callback : HeapCallback) :
    referenceIndex callback.referenceKind callback.referenceInfo = callback.index ↔
      callback.IndexRead := by
  have joined : (2 : ℕ) ||| 8 = 10 := rfl
  rcases isInfo : callback.referenceInfo with _ | index
  · simp [referenceIndex, HeapCallback.index, HeapCallback.IndexRead, isInfo]
  · simp only [referenceIndex, HeapCallback.index, HeapCallback.IndexRead, isInfo,
      heapReferenceArrayElement, heapReferenceField, heapReferenceStaticField,
      heapReferenceConstantPool, heapReferenceSuperclass, List.mem_cons, List.not_mem_nil,
      or_false, Option.getD_some, Option.mem_some_iff, forall_eq', joined]
    by_cases noIndex : index = -1
    · simp [noIndex]
    · by_cases isElement : callback.referenceKind = 3
      · simp [isElement]
      · by_cases isPool : callback.referenceKind = 9
        · simp [isPool]
        · by_cases isSuperclass : callback.referenceKind = 10
          · simp [isSuperclass, noIndex]
          · have notRead : (-1 = index) = False := eq_false fun same => noIndex same.symm
            by_cases isField : callback.referenceKind = 2 ∨ callback.referenceKind = 8
            · simp [isElement, isPool, isSuperclass, isField, noIndex, notRead]
            · simp [isElement, isPool, isSuperclass, isField, noIndex]

end Switch

section Messages

/-- The message of the branch that numbers an object. -/
def numberedMsg (state : AgentState) (object : Entity) (classTag : ℤ) : List AgentMsg :=
  if state.tag object = 0 ∧ classTag ≠ 0 then [.objectTag object state.lastTag classTag] else []

theorem tagReferenced_curMsgGrp (state : AgentState) (object : Entity) (classTag : ℤ) :
    (state.tagReferenced object classTag).curMsgGrp =
      state.curMsgGrp ++ numberedMsg state object classTag := by
  unfold tagReferenced numberedMsg
  split
  · rfl
  · simp

/-- The state before the message for the reference. -/
def HeapCallback.numbered (callback : HeapCallback) (state : AgentState) : AgentState :=
  match callback.referrer with
  | none => state.tagReferenced callback.referent callback.classTag
  | some object =>
      (state.tagReferenced callback.referent callback.classTag).tagReferenced object
        callback.referrerClassTag

theorem HeapCallback.run_tag (callback : HeapCallback) (state : AgentState) :
    (callback.run state).tag = (callback.numbered state).tag := by
  unfold run followReferenceCallback numbered
  cases callback.referrer <;> rfl

/-- What the callback appends, with the tags it reads at its end. -/
theorem HeapCallback.run_curMsgGrp (callback : HeapCallback) (state : AgentState) :
    (callback.run state).curMsgGrp = (callback.numbered state).curMsgGrp ++
      [.heapRefInfo callback.referent callback.referrer
        { referenceKind := callback.referenceKind
          index := referenceIndex callback.referenceKind callback.referenceInfo
          classTag := callback.classTag
          referrerClassTag := callback.referrerClassTag
          tag := (callback.run state).tag callback.referent
          referrerTag := callback.referrer.elim 0 (callback.run state).tag
          length := callback.length
          size := callback.size }] := by
  rw [run_tag]
  unfold run followReferenceCallback numbered
  cases callback.referrer <;> rfl

theorem HeapCallback.objects_eq (callback : HeapCallback) :
    callback.objects = callback.referent ::
      callback.referrer.elim [] fun object =>
        if object = callback.referent then [] else [object] := by
  unfold objects
  rcases callback.referrer with _ | object
  · rfl
  · by_cases same : object = callback.referent
    · simp [same]
    · simp [same, List.dedup_cons_of_notMem, Ne.symm same]

section Numbering

variable {state : AgentState} {referent object : Entity} {classTag referrerClassTag shown : ℤ}

/-- One object is announced as it should be where its tag is not 0. -/
theorem numberedMsg_iff (agrees : state.tag object = 0 ∧ classTag ≠ 0 → shown = classTag) :
    numberedMsg state object classTag =
        taggedMsg state (state.tagReferenced object classTag) object shown ↔
      (state.tag object = 0 ∧ classTag ≠ 0 → state.lastTag ≠ 0) := by
  by_cases untagged : state.tag object = 0 ∧ classTag ≠ 0
  · simp [numberedMsg, taggedMsg, untagged.1, untagged.2, (tagReferenced_new untagged).1,
      agrees untagged]
  · have noTag : ¬(state.tag object = 0 ∧ state.tag object ≠ 0) := fun both => both.2 both.1
    rw [tagReferenced_old untagged, numberedMsg, taggedMsg, if_neg untagged, if_neg noTag]
    exact iff_of_true rfl fun both => absurd both untagged

/-- Numbering one object leaves the tag of another. -/
theorem tagReferenced_other (different : object ≠ referent) :
    (state.tagReferenced referent classTag).tag object = state.tag object := by
  by_cases untagged : state.tag referent = 0 ∧ classTag ≠ 0
  · rw [(tagReferenced_new untagged).1, Function.update_of_ne different]
  · rw [tagReferenced_old untagged]

/-- A referrer that is another object. -/
theorem numberedMsgs_iff (different : object ≠ referent)
    (agrees : state.tag referent = 0 ∧ classTag ≠ 0 → shown = classTag) :
    let middle := state.tagReferenced referent classTag
    let final := middle.tagReferenced object referrerClassTag
    numberedMsg state referent classTag ++ numberedMsg middle object referrerClassTag =
        taggedMsg state final referent shown ++ taggedMsg state final object referrerClassTag ↔
      (state.tag referent = 0 ∧ classTag ≠ 0 → state.lastTag ≠ 0) ∧
        (state.tag object = 0 ∧ referrerClassTag ≠ 0 → middle.lastTag ≠ 0) := by
  intro middle final
  have first := @numberedMsg_iff state referent classTag shown agrees
  have second := @numberedMsg_iff middle object referrerClassTag referrerClassTag fun _ => rfl
  have sameReferent : final.tag referent = middle.tag referent :=
    tagReferenced_other different.symm
  have sameObject : middle.tag object = state.tag object := tagReferenced_other different
  have firstTagged :
      taggedMsg state final referent shown = taggedMsg state middle referent shown := by
    rw [taggedMsg, taggedMsg, sameReferent]
  have secondTagged : taggedMsg state final object referrerClassTag =
      taggedMsg middle final object referrerClassTag := by
    rw [taggedMsg, taggedMsg, sameObject]
  rw [sameObject] at second
  rw [firstTagged, secondTagged]
  by_cases numbers : state.tag referent = 0 ∧ classTag ≠ 0
  · by_cases isZero : state.lastTag = 0
    · -- The referent is announced with tag 0, which it had before.
      have noTag : middle.tag referent = 0 := by
        simp only [middle, (tagReferenced_new numbers).1, Function.update_self, isZero]
      refine iff_of_false ?_ fun both => both.1 numbers isZero
      rw [numberedMsg, if_pos numbers, taggedMsg, if_neg (fun both => both.2 noTag)]
      simp only [taggedMsg]
      split
      · intro same
        have sameHead := (List.cons.inj same).1
        injection sameHead with isObject
        exact different isObject.symm
      · simp
    · rw [first.mpr fun _ => isZero, List.append_cancel_left_eq, second]
      exact ⟨fun nonzero => ⟨fun _ => isZero, nonzero⟩, And.right⟩
  · rw [first.mpr fun both => absurd both numbers, List.append_cancel_left_eq, second]
    exact ⟨fun nonzero => ⟨fun both => absurd both numbers, nonzero⟩, And.right⟩

/-- A referrer that is the referent itself, which is not to be announced twice. -/
theorem numberedMsgs_self_iff (agrees : state.tag object = 0 ∧ classTag ≠ 0 → shown = classTag)
    (agreesReferrer : classTag = 0 → shown = referrerClassTag) :
    let middle := state.tagReferenced object classTag
    let final := middle.tagReferenced object referrerClassTag
    numberedMsg state object classTag ++ numberedMsg middle object referrerClassTag =
        taggedMsg state final object shown ↔
      (state.tag object = 0 ∧ classTag ≠ 0 → state.lastTag ≠ 0) ∧
        (state.tag object = 0 ∧ referrerClassTag ≠ 0 ∧ classTag = 0 → state.lastTag ≠ 0) := by
  intro middle final
  by_cases numbers : state.tag object = 0 ∧ classTag ≠ 0
  · have tagNow : middle.tag object = state.lastTag := by
      simp only [middle, (tagReferenced_new numbers).1, Function.update_self]
    by_cases isZero : state.lastTag = 0
    · -- The first message has tag 0, and no message with tag 0 is right.
      refine iff_of_false ?_ fun both => both.1 numbers isZero
      rw [numberedMsg, if_pos numbers, isZero]
      simp only [taggedMsg]
      split
      · rename_i tagged
        intro same
        have sameHead := (List.cons.inj same).1
        injection sameHead with _ sameTag
        exact tagged.2 sameTag.symm
      · simp
    · have noSecond : ¬(middle.tag object = 0 ∧ referrerClassTag ≠ 0) :=
        fun both => isZero (tagNow ▸ both.1)
      have isFinal : final = middle := tagReferenced_old noSecond
      have announced : numberedMsg state object classTag = taggedMsg state middle object shown :=
        (numberedMsg_iff agrees).mpr fun _ => isZero
      have silent : numberedMsg middle object referrerClassTag = [] := if_neg noSecond
      rw [isFinal, announced, silent, List.append_nil]
      exact iff_of_true rfl ⟨fun _ => isZero, fun _ => isZero⟩
  · have unchanged : middle = state := tagReferenced_old numbers
    have silent : numberedMsg state object classTag = [] := if_neg numbers
    have isFinal : final = state.tagReferenced object referrerClassTag := by
      simp only [final, unchanged]
    have noClassTag : state.tag object = 0 → classTag = 0 := fun untagged =>
      by_contra fun nonzero => numbers ⟨untagged, nonzero⟩
    rw [silent, unchanged, isFinal, List.nil_append,
      numberedMsg_iff fun both => agreesReferrer (noClassTag both.1)]
    constructor
    · intro nonzero
      exact ⟨fun both => absurd both numbers, fun all => nonzero ⟨all.1, all.2.1⟩⟩
    · intro both numbered
      exact both.2 ⟨numbered.1, numbered.2, noClassTag numbered.1⟩

end Numbering

/-- The objects are announced as they should be exactly where no tag given is 0. -/
theorem HeapCallback.numbered_iff (callback : HeapCallback) (state : AgentState) :
    (callback.numbered state).curMsgGrp =
        state.curMsgGrp ++ callback.objectMsgs state (callback.numbered state) ↔
      callback.TagsNonzero state := by
  have agrees : state.tag callback.referent = 0 ∧ callback.classTag ≠ 0 →
      callback.classTagOf callback.referent = callback.classTag := fun numbers =>
    if_pos ⟨rfl, numbers.2⟩
  unfold numbered objectMsgs TagsNonzero NumbersReferrer NumbersReferent
  rw [objects_eq]
  rcases callback.referrer with _ | object
  · simp only [tagReferenced_curMsgGrp, List.append_cancel_left_eq, Option.elim_none,
      List.flatMap_cons, List.flatMap_nil, List.append_nil]
    rw [numberedMsg_iff agrees]
    simp
  · simp only [tagReferenced_curMsgGrp, List.append_assoc, List.append_cancel_left_eq,
      Option.elim_some, List.flatMap_cons, Option.mem_some_iff, exists_eq_left']
    rcases eq_or_ne object callback.referent with rfl | different
    · have agreesReferrer : callback.classTag = 0 →
          callback.classTagOf callback.referent = callback.referrerClassTag := fun noClassTag =>
        if_neg fun both => both.2 noClassTag
      rw [if_pos rfl, List.flatMap_nil, List.append_nil]
      refine (numberedMsgs_self_iff agrees agreesReferrer).trans ?_
      simp only [true_and, not_not]
      constructor
      · rintro ⟨asReferent, asReferrer⟩
        exact ⟨fun numbers => numbers.elim asReferent asReferrer,
          fun both => absurd both.2.2.2 both.1.2⟩
      · rintro ⟨nonzero, -⟩
        exact ⟨fun numbers => nonzero (Or.inl numbers), fun numbers => nonzero (Or.inr numbers)⟩
    · have isReferrer : callback.classTagOf object = callback.referrerClassTag :=
        if_neg fun both => different both.1
      rw [if_neg different, List.flatMap_cons, List.flatMap_nil, List.append_nil, isReferrer]
      refine (numberedMsgs_iff different agrees).trans ?_
      by_cases numbers : state.tag callback.referent = 0 ∧ callback.classTag ≠ 0
      · rw [(tagReferenced_new numbers).2]
        simp [numbers, different]
      · rw [tagReferenced_old numbers]
        simp [numbers, different]

end Messages

/--
The callback appends a message for each object that got its tag and one for the
reference, with the tags after the call and the index that JVMTI gave, exactly where
the switch reads that index and no tag given is 0.
-/
theorem followReferenceCallback_reports_iff (callback : HeapCallback) (state : AgentState) :
    (callback.run state).curMsgGrp =
        state.curMsgGrp ++ callback.report state (callback.run state) ↔
      callback.IndexRead ∧ callback.TagsNonzero state := by
  have sameMsgs : callback.objectMsgs state (callback.run state) =
      callback.objectMsgs state (callback.numbered state) := by
    simp only [HeapCallback.objectMsgs, taggedMsg, callback.run_tag]
  rw [← referenceIndex_eq_iff, ← callback.numbered_iff, callback.run_curMsgGrp,
    HeapCallback.report, ← List.append_assoc, List.append_singleton_inj, sameMsgs]
  simp only [AgentMsg.heapRefInfo.injEq, HeapRefInfo.mk.injEq, true_and, and_true]
  exact and_comm

/-- The index of an instance field is reported as -1. -/
theorem followReferenceCallback_field :
    let field : HeapCallback :=
      { referenceKind := 2, referenceInfo := some 7, classTag := 5, referrerClassTag := 6,
        size := 16, referent := 0, referrer := some 1, length := -1 }
    (field.run .initial).curMsgGrp ≠
      AgentState.initial.curMsgGrp ++ field.report .initial (field.run .initial) := by
  decide

end HeapScan
