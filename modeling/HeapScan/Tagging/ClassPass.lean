import HeapScan.Tagging.Referential

/-!
# What the class pass announces

A class pass gives the value of the counter to each class without a tag, but announces
every class with the tag that it read before.  So a pass announces the tags that its
classes carry exactly where it finds all of them tagged.
-/

namespace HeapScan

/-- A class that is announced in both lists is announced with one tag. -/
def AgreeOnClasses (msgs others : List AgentMsg) : Prop :=
  ∀ cls sign tag otherSign otherTag, .classTag cls sign tag ∈ msgs →
    .classTag cls otherSign otherTag ∈ others → tag = otherTag

namespace AgentState

/-- The messages that have been included since `state`. -/
def msgsSince (next state : AgentState) : List AgentMsg := next.msgs.drop state.msgs.length

/--
From `state` to `next` all classes have been tagged, no tag has changed, and the
messages are one for each class, in order, with the tag that the class carries.
-/
structure ClassesAnnounced (jvm : Jvm) (classes : List Entity) (state next : AgentState) :
    Prop where
  tagged : ∀ cls ∈ classes, next.tag cls ≠ 0
  kept : KeepsTags state next
  announced : next.msgsSince state =
    classes.map fun cls => .classTag cls (jvm.classSignature cls) (next.tag cls)

section ClassPass

variable {jvm : Jvm} {state next : AgentState} {cls : Entity} {classes : List Entity}

theorem msgsSince_eq {msgs : List AgentMsg} (added : next.msgs = state.msgs ++ msgs) :
    next.msgsSince state = msgs := by
  rw [msgsSince, added, List.drop_left]

/-- The state in which the pass meets the classes after the first one. -/
def afterClass (jvm : Jvm) (state : AgentState) (cls : Entity) (flushFl : Bool) : AgentState :=
  checkAndTagClasses jvm state [cls] flushFl

theorem checkAndTagClasses_cons (jvm : Jvm) (state : AgentState) (cls : Entity)
    (classes : List Entity) (flushFl : Bool) :
    checkAndTagClasses jvm state (cls :: classes) flushFl =
      checkAndTagClasses jvm (afterClass jvm state cls flushFl) classes flushFl := rfl

theorem afterClass_msgs (jvm : Jvm) (state : AgentState) (cls : Entity) (flushFl : Bool) :
    (afterClass jvm state cls flushFl).msgs =
      state.msgs ++ [.classTag cls (jvm.classSignature cls) (state.tag cls)] := by
  simp only [afterClass, checkAndTagClasses, storeClassTag_msgs]
  split <;> rfl

theorem afterClass_tag (tagged : state.tag cls ≠ 0) (flushFl : Bool) :
    (afterClass jvm state cls flushFl).tag = state.tag :=
  (checkAndTagClasses_tagged jvm [cls] flushFl state (by simpa using tagged)).1

/-- The pass adds messages behind those of `state`. -/
theorem checkAndTagClasses_msgs (jvm : Jvm) (state : AgentState) (classes : List Entity)
    (flushFl : Bool) :
    ∃ msgs, (checkAndTagClasses jvm state classes flushFl).msgs = state.msgs ++ msgs := by
  induction classes generalizing state with
  | nil => exact ⟨[], (List.append_nil _).symm⟩
  | cons cls classes ih =>
      rcases ih (afterClass jvm state cls flushFl) with ⟨msgs, added⟩
      rw [checkAndTagClasses_cons, added, afterClass_msgs, List.append_assoc]
      exact ⟨_, rfl⟩

/-- The pass announces its first class with the tag it finds, and then the other classes. -/
theorem checkAndTagClasses_msgsSince (jvm : Jvm) (state : AgentState) (cls : Entity)
    (classes : List Entity) (flushFl : Bool) :
    (checkAndTagClasses jvm state (cls :: classes) flushFl).msgsSince state =
      .classTag cls (jvm.classSignature cls) (state.tag cls) ::
        (checkAndTagClasses jvm (afterClass jvm state cls flushFl) classes flushFl).msgsSince
          (afterClass jvm state cls flushFl) := by
  rcases checkAndTagClasses_msgs jvm (afterClass jvm state cls flushFl) classes flushFl with
    ⟨msgs, added⟩
  rw [checkAndTagClasses_cons, msgsSince_eq added]
  rw [afterClass_msgs, List.append_assoc] at added
  exact msgsSince_eq added

/-- A class pass does what it should exactly where it finds all its classes tagged. -/
theorem checkAndTagClasses_announced_iff (flushFl : Bool) :
    ClassesAnnounced jvm classes state (checkAndTagClasses jvm state classes flushFl) ↔
      ∀ cls ∈ classes, state.tag cls ≠ 0 := by
  induction classes generalizing state with
  | nil =>
      refine ⟨fun _ _ listed => absurd listed (List.not_mem_nil), fun _ => ?_⟩
      exact
        { tagged := fun _ listed => absurd listed (List.not_mem_nil)
          kept := KeepsTags.refl state
          announced := msgsSince_eq (List.append_nil _).symm }
  | cons cls classes ih =>
      have keeps := checkAndTagClasses_keeps jvm (cls :: classes) flushFl state
      have msgs := checkAndTagClasses_msgsSince jvm state cls classes flushFl
      constructor
      · intro announced
        have found := announced.announced
        rw [msgs, List.map_cons, List.cons.injEq, AgentMsg.classTag.injEq] at found
        have first : state.tag cls ≠ 0 := by
          rw [found.1.2.2]
          exact announced.tagged cls (List.mem_cons_self ..)
        have later := (@ih (afterClass jvm state cls flushFl)).mp
          { tagged := fun other listed => announced.tagged other (List.mem_cons_of_mem _ listed)
            kept := checkAndTagClasses_keeps jvm classes flushFl _
            announced := found.2 }
        rw [afterClass_tag first] at later
        exact List.forall_mem_cons.mpr ⟨first, later⟩
      · intro tagged
        rcases List.forall_mem_cons.mp tagged with ⟨first, later⟩
        have rest := (@ih (afterClass jvm state cls flushFl)).mpr
          (by rwa [afterClass_tag first])
        refine
          { tagged := fun other listed => by
              rw [keeps other (tagged other listed)]
              exact tagged other listed
            kept := keeps
            announced := ?_ }
        rw [msgs, rest.announced, List.map_cons, keeps cls first, checkAndTagClasses_cons]

end ClassPass

end AgentState

open AgentState

/--
Two class passes, with any tagging between them, do what they should and announce a
class that both meet with one tag exactly where both find all their classes tagged.
-/
theorem classPasses_announce_iff (jvm : Jvm) (state : AgentState) (classes : List Entity)
    (flushFl : Bool) (between : List TagOp) (later : List Entity) (laterFl : Bool) :
    let first := checkAndTagClasses jvm state classes flushFl
    let middle := between.foldl (applyTagOp jvm) first
    let second := checkAndTagClasses jvm middle later laterFl
    (ClassesAnnounced jvm classes state first ∧ ClassesAnnounced jvm later middle second ∧
        AgreeOnClasses (first.msgsSince state) (second.msgsSince middle)) ↔
      (∀ cls ∈ classes, state.tag cls ≠ 0) ∧ ∀ cls ∈ later, middle.tag cls ≠ 0 := by
  intro first middle second
  have firstIff : ClassesAnnounced jvm classes state first ↔ _ :=
    checkAndTagClasses_announced_iff flushFl
  have secondIff : ClassesAnnounced jvm later middle second ↔ _ :=
    checkAndTagClasses_announced_iff laterFl
  constructor
  · rintro ⟨announced, announcedLater, -⟩
    exact ⟨firstIff.mp announced, secondIff.mp announcedLater⟩
  · rintro ⟨tagged, taggedLater⟩
    have announced := firstIff.mpr tagged
    have announcedLater := secondIff.mpr taggedLater
    refine ⟨announced, announcedLater, ?_⟩
    intro cls sign tag otherSign otherTag inFirst inSecond
    rw [announced.announced, List.mem_map] at inFirst
    rw [announcedLater.announced, List.mem_map] at inSecond
    rcases inFirst with ⟨_, listed, isFirst⟩
    rcases inSecond with ⟨_, _, isSecond⟩
    cases isFirst
    cases isSecond
    have carried : first.tag cls ≠ 0 := announced.tagged cls listed
    have kept := (runTagOps_keeps jvm between first).trans announcedLater.kept
    exact (kept cls carried).symm

/-- The first pass over a new class announces 0, the second one the tag that the class got. -/
theorem classPass_announces_zero :
    let first := checkAndTagClasses oneClassJvm .initial [1] false
    let second := checkAndTagClasses oneClassJvm first [1] false
    first.msgsSince .initial = [.classTag 1 (oneClassJvm.classSignature 1) 0] ∧
      second.msgsSince first = [.classTag 1 (oneClassJvm.classSignature 1) 1] ∧
      ¬ClassesAnnounced oneClassJvm [1] .initial first ∧
      ¬AgreeOnClasses (first.msgsSince .initial) (second.msgsSince first) := by
  intro first second
  have announcesZero : first.msgsSince .initial =
      [.classTag 1 (oneClassJvm.classSignature 1) 0] := by decide
  have announcesOne : second.msgsSince first =
      [.classTag 1 (oneClassJvm.classSignature 1) 1] := by decide
  refine ⟨announcesZero, announcesOne, fun announced => ?_, fun agree => ?_⟩
  · have carried := announced.announced
    rw [announcesZero] at carried
    exact absurd carried (by decide)
  · rw [announcesZero, announcesOne] at agree
    exact absurd (agree 1 _ 0 _ 1 (List.mem_singleton.mpr rfl) (List.mem_singleton.mpr rfl))
      (by decide)

end HeapScan
