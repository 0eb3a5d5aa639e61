import HeapScan.Tagging.Concurrent

/-!
# Announcements and free notices

A free notice goes to the synchronizer at once, the announcements of a heap walk
wait in the message group until the flush.  The notice of an object comes after
its announcement in every run that frees no object whose announcement waits.
-/

namespace HeapScan

open Transition

namespace AgentMsg

/-- The message announces the object with OBJECT_TAG. -/
def Announces (object : Entity) : AgentMsg → Prop
  | .objectTag other _ _ => other = object
  | _ => False

/-- The message is the DEALLOCATE_OBJECT notice of the object. -/
def Frees (object : Entity) : AgentMsg → Prop
  | .deallocateObject other _ => other = object
  | _ => False

instance (object : Entity) : ∀ msg : AgentMsg, Decidable (msg.Announces object)
  | .classTag .. => isFalse id
  | .objectTag other _ _ => inferInstanceAs (Decidable (other = object))
  | .deallocateObject .. => isFalse id
  | .heapRefInfo .. => isFalse id

end AgentMsg

/-- No object is announced in a later `onProduce` than its free notice. -/
def AnnouncedBeforeFreed (produced : List (List AgentMsg)) : Prop :=
  produced.Pairwise fun earlier later =>
    ∀ object, (∃ msg ∈ earlier, msg.Frees object) → ∀ msg ∈ later, ¬msg.Announces object

namespace TagMachine

/-- The step frees no object whose announcement is in a group that is not flushed yet. -/
def FreesAnnounced (state : TagMachine) : TagAction → Prop
  | .free object => state.agentPc = .flush → ∀ msg ∈ state.agent.curMsgGrp, ¬msg.Announces object
  | _ => True

instance (state : TagMachine) : ∀ action, Decidable (state.FreesAnnounced action)
  | .free _ => inferInstanceAs (Decidable (_ → _))
  | .startClassMetadata _ | .startFollowReference | .agentStep | .callback _ | .startTrack _
  | .trackStep _ => isTrue trivial

/-- What the pending group may hold, for where the agent thread is. -/
def GroupKept (freed : List Entity) (group : List AgentMsg) : AgentPc → Prop
  | .idle => True
  | .walking | .flush =>
      ∀ msg ∈ group, ∀ object, ¬msg.Frees object ∧ (msg.Announces object → object ∉ freed)
  | _ => ∀ msg ∈ group, ∀ object, ¬msg.Frees object ∧ ¬msg.Announces object

/-- The invariant of runs that free announced objects only. -/
structure Released (state : TagMachine) : Prop where
  ordered : AnnouncedBeforeFreed state.agent.produced
  noticed : ∀ group ∈ state.agent.produced, ∀ msg ∈ group, ∀ object, msg.Frees object →
    object ∈ state.freed
  held : ∀ call ∈ state.tracking, call.object ∉ state.freed
  group : GroupKept state.freed state.agent.curMsgGrp state.agentPc

end TagMachine

section Produced

theorem announcedBeforeFreed_append {produced : List (List AgentMsg)} {group : List AgentMsg}
    (ordered : AnnouncedBeforeFreed produced)
    (fresh : ∀ earlier ∈ produced, ∀ object, (∃ msg ∈ earlier, msg.Frees object) →
      ∀ msg ∈ group, ¬msg.Announces object) :
    AnnouncedBeforeFreed (produced ++ [group]) :=
  List.pairwise_append.mpr ⟨ordered, List.pairwise_singleton _ _, by simpa using fresh⟩

/-- `setAndGetTag` sends nothing. -/
theorem setAndGetTagStep_silent {state next : AgentState} {object : Entity} {pc : SetTagPc}
    {result : SetTagPc ⊕ ℤ × Bool} (stepped : setAndGetTagStep state object pc = (next, result)) :
    next.curMsgGrp = state.curMsgGrp ∧ next.produced = state.produced := by
  cases pc with
  | getTag =>
      simp only [setAndGetTagStep] at stepped
      split at stepped <;> cases stepped <;> exact ⟨rfl, rfl⟩
  | readLastTag => cases stepped; exact ⟨rfl, rfl⟩
  | writeLastTag read => cases stepped; exact ⟨rfl, rfl⟩
  | readForSet => cases stepped; exact ⟨rfl, rfl⟩
  | setTag tag => cases stepped; exact ⟨rfl, rfl⟩
  | readForReturn => cases stepped; exact ⟨rfl, rfl⟩

/-- A step of `trackObject` sends at most one message, about its own object or its class. -/
theorem trackObjectStep_produced {jvm : Jvm} {state next : AgentState} {object : Entity}
    {pc : TrackPc} {result : Option TrackPc}
    (stepped : trackObjectStep jvm state object pc = (next, result)) :
    next.curMsgGrp = state.curMsgGrp ∧
      (next.produced = state.produced ∨ ∃ msg, next.produced = state.produced ++ [[msg]] ∧
        ∀ other, ¬msg.Frees other ∧ (msg.Announces other → other = object)) := by
  cases pc with
  | ofClass pc =>
      simp only [trackObjectStep] at stepped
      split at stepped <;> rename_i silent <;> cases stepped
      all_goals
        have kept := setAndGetTagStep_silent silent
        exact ⟨kept.1, Or.inl kept.2⟩
  | storeClassTag classTag =>
      cases stepped
      exact ⟨rfl, Or.inr ⟨_, rfl, fun other => ⟨id, False.elim⟩⟩⟩
  | ofObject classTag pc =>
      simp only [trackObjectStep] at stepped
      split at stepped <;> rename_i silent <;> cases stepped
      all_goals
        have kept := setAndGetTagStep_silent silent
        exact ⟨kept.1, Or.inl kept.2⟩
  | storeObjectTag classTag objectTag =>
      cases stepped
      exact ⟨rfl, Or.inr ⟨_, rfl, fun other => ⟨id, fun same => same.symm⟩⟩⟩

theorem tagReferenced_group (state : AgentState) (object : Entity) (classTag : ℤ) :
    ∃ msgs, (state.tagReferenced object classTag).curMsgGrp = state.curMsgGrp ++ msgs ∧
      (state.tagReferenced object classTag).produced = state.produced ∧
      ∀ msg ∈ msgs, ∀ other, ¬msg.Frees other ∧ (msg.Announces other → other = object) := by
  unfold AgentState.tagReferenced
  split
  · refine ⟨[_], rfl, rfl, fun msg listed other => ?_⟩
    rw [List.mem_singleton] at listed
    subst listed
    exact ⟨id, fun same => same.symm⟩
  · exact ⟨[], by simp, rfl, by simp⟩

/-- A callback adds to the group, and announces only the objects it was called for. -/
theorem reportReference_group (jvm : Jvm) (state : AgentState) (reference : HeapReference) :
    ∃ msgs, (state.reportReference jvm reference).curMsgGrp = state.curMsgGrp ++ msgs ∧
      (state.reportReference jvm reference).produced = state.produced ∧
      ∀ msg ∈ msgs, ∀ object, ¬msg.Frees object ∧ (msg.Announces object →
        object = reference.referent ∨ object ∈ reference.referrer) := by
  unfold AgentState.reportReference AgentState.followReferenceCallback
  rcases tagReferenced_group state reference.referent
      (state.tag (jvm.classOf reference.referent)) with ⟨first, firstGroup, firstSent, firstOk⟩
  rcases reference.referrer with _ | object
  · refine ⟨first ++ [_], (congrArg (· ++ _) firstGroup).trans (List.append_assoc ..), firstSent,
      fun msg listed other => ?_⟩
    rcases List.mem_append.mp listed with inFirst | isReference
    · exact ⟨(firstOk msg inFirst other).1, fun announces =>
        Or.inl ((firstOk msg inFirst other).2 announces)⟩
    · rw [List.mem_singleton] at isReference
      subst isReference
      exact ⟨id, False.elim⟩
  · rcases tagReferenced_group (state.tagReferenced reference.referent
        (state.tag (jvm.classOf reference.referent))) object
          (state.tag (jvm.classOf object)) with ⟨second, secondGroup, secondSent, secondOk⟩
    rw [firstGroup, List.append_assoc] at secondGroup
    refine ⟨first ++ second ++ [_], (congrArg (· ++ _) secondGroup).trans
      (List.append_assoc ..), secondSent.trans firstSent, fun msg listed other => ?_⟩
    rcases List.mem_append.mp listed with inObjects | isReference
    · rcases List.mem_append.mp inObjects with inFirst | inSecond
      · exact ⟨(firstOk msg inFirst other).1, fun announces =>
          Or.inl ((firstOk msg inFirst other).2 announces)⟩
      · refine ⟨(secondOk msg inSecond other).1, fun announces => Or.inr ?_⟩
        rw [(secondOk msg inSecond other).2 announces]
        rfl
    · rw [List.mem_singleton] at isReference
      subst isReference
      exact ⟨id, False.elim⟩

end Produced

namespace TagMachine

variable {jvm : Jvm} {state next : TagMachine}

/-- Sending a group that announces no freed object keeps the order. -/
theorem Released.send (agent : AgentState) (released : Released state) {group : List AgentMsg}
    (sent : agent.produced = state.agent.produced ++ [group])
    (fresh : ∀ msg ∈ group, ∀ object, ¬msg.Frees object ∧
      (msg.Announces object → object ∉ state.freed)) :
    AnnouncedBeforeFreed agent.produced ∧
      ∀ group ∈ agent.produced, ∀ msg ∈ group, ∀ object, msg.Frees object →
        object ∈ state.freed := by
  rw [sent]
  constructor
  · refine announcedBeforeFreed_append released.ordered ?_
    rintro earlier listed object ⟨notice, inEarlier, frees⟩ msg inGroup announces
    exact (fresh msg inGroup object).2 announces
      (released.noticed earlier listed notice inEarlier object frees)
  · intro other listed msg inOther object frees
    rcases List.mem_append.mp listed with before | now
    · exact released.noticed other before msg inOther object frees
    · rw [List.mem_singleton] at now
      subst now
      exact absurd frees (fresh msg inOther object).1

/-- The agent thread's own steps: a flush sends the group, the others only fill it. -/
theorem Released.agentStep (released : Released state)
    (stepped : state.step jvm .agentStep = some next) : Released next := by
  simp only [step, Option.bind_eq_bind, Option.bind_eq_some_iff] at stepped
  rcases stepped with ⟨⟨agent, agentPc⟩, threadStep, isNext⟩
  cases isNext
  have pending := released.group
  rcases at_ : state.agentPc with _ | classes | _ | _ | _ | _ | _ | _ | _ | _ <;>
    rw [at_] at threadStep pending
  · cases threadStep
  · rcases classes with _ | ⟨cls, classes⟩
    · cases threadStep
      have sent := released.send state.agent.flushMsgGrp rfl fun msg listed object =>
        ⟨(pending msg listed object).1, fun announces =>
          absurd announces (pending msg listed object).2⟩
      exact ⟨sent.1, sent.2, released.held, trivial⟩
    · simp only [agentThreadStep] at threadStep
      split at threadStep <;> cases threadStep <;>
        exact ⟨released.ordered, released.noticed, released.held, pending⟩
  · cases threadStep
    exact ⟨released.ordered, released.noticed, released.held, pending⟩
  · cases threadStep
    exact ⟨released.ordered, released.noticed, released.held, pending⟩
  · cases threadStep
    exact ⟨released.ordered, released.noticed, released.held, pending⟩
  · cases threadStep
    exact ⟨released.ordered, released.noticed, released.held, pending⟩
  · cases threadStep
    refine ⟨released.ordered, released.noticed, released.held, fun msg listed object => ?_⟩
    rcases List.mem_append.mp listed with before | now
    · exact pending msg before object
    · rw [List.mem_singleton] at now
      subst now
      exact ⟨id, id⟩
  · cases threadStep
    exact ⟨released.ordered, released.noticed, released.held, fun msg listed object =>
      ⟨(pending msg listed object).1, fun announces =>
        absurd announces (pending msg listed object).2⟩⟩
  · cases threadStep
    exact ⟨released.ordered, released.noticed, released.held, pending⟩
  · cases threadStep
    have sent := released.send state.agent.flushMsgGrp rfl pending
    exact ⟨sent.1, sent.2, released.held, trivial⟩

/-- Whatever the group may hold, it may hold for a thread that is elsewhere in the same phase. -/
theorem GroupKept.of_freed {freed : List Entity} {group : List AgentMsg} {agentPc : AgentPc}
    (kept : GroupKept freed group agentPc) (object : Entity) (notWalking : agentPc ≠ .walking)
    (unannounced : agentPc = .flush → ∀ msg ∈ group, ¬msg.Announces object) :
    GroupKept (object :: freed) group agentPc := by
  cases agentPc with
  | walking => exact absurd rfl notWalking
  | flush =>
      intro msg listed other
      refine ⟨(kept msg listed other).1, fun announces inFreed => ?_⟩
      rcases List.mem_cons.mp inFreed with rfl | before
      · exact unannounced rfl msg listed announces
      · exact (kept msg listed other).2 announces before
  | _ => exact kept

theorem Released.free {object : Entity} (released : Released state)
    (unannounced : state.FreesAnnounced (.free object))
    (stepped : state.step jvm (.free object) = some next) : Released next := by
  simp only [step] at stepped
  split at stepped
  · rename_i enabled
    rcases enabled with ⟨notWalking, _, notHeld⟩
    cases stepped
    have held : ∀ call ∈ state.tracking, call.object ∉ object :: state.freed := by
      intro call listed inFreed
      rcases List.mem_cons.mp inFreed with same | before
      · exact notHeld ⟨call, listed, Or.inl same⟩
      · exact released.held call listed before
    by_cases tagged : state.agent.tag object ≠ 0
    · simp only [tagged, ne_eq, not_false_eq_true, if_true]
      have sent : (state.agent.onObjectFree object (state.agent.tag object)).produced =
          state.agent.produced ++ [[.deallocateObject object (state.agent.tag object)]] := rfl
      refine ⟨?_, ?_, held, released.group.of_freed object notWalking unannounced⟩
      · rw [sent]
        refine announcedBeforeFreed_append released.ordered ?_
        intro earlier _ other _ msg listed announces
        rw [List.mem_singleton] at listed
        subst listed
        exact announces
      · intro group listed msg inGroup other frees
        rw [sent] at listed
        rcases List.mem_append.mp listed with before | now
        · exact List.mem_cons_of_mem _ (released.noticed group before msg inGroup other frees)
        · rw [List.mem_singleton] at now
          subst now
          rw [List.mem_singleton] at inGroup
          subst inGroup
          exact frees ▸ List.mem_cons_self ..
    · simp only [tagged, if_false]
      exact ⟨released.ordered, fun group listed msg inGroup other frees =>
        List.mem_cons_of_mem _ (released.noticed group listed msg inGroup other frees), held,
        released.group.of_freed object notWalking unannounced⟩
  · cases stepped

/-- Every step that frees no object with a waiting announcement keeps the invariant. -/
theorem Released.step {action : TagAction} (released : Released state)
    (unannounced : state.FreesAnnounced action)
    (stepped : state.step jvm action = some next) : Released next := by
  cases action with
  | startClassMetadata classes =>
      simp only [TagMachine.step] at stepped
      split at stepped <;> cases stepped
      exact ⟨released.ordered, released.noticed, released.held, by simp [GroupKept,
        AgentState.startMsgGrp]⟩
  | startFollowReference =>
      simp only [TagMachine.step] at stepped
      split at stepped <;> cases stepped
      exact ⟨released.ordered, released.noticed, released.held, by simp [GroupKept,
        AgentState.startMsgGrp]⟩
  | agentStep => exact released.agentStep stepped
  | callback reference =>
      simp only [TagMachine.step] at stepped
      split at stepped
      · rename_i enabled
        rcases enabled with ⟨walking, live⟩
        cases stepped
        rcases reportReference_group jvm state.agent reference with ⟨msgs, group, sent, own⟩
        have pending := released.group
        rw [walking] at pending
        refine ⟨sent ▸ released.ordered, sent ▸ released.noticed, released.held, ?_⟩
        rw [walking, group]
        intro msg listed object
        rcases List.mem_append.mp listed with before | now
        · exact pending msg before object
        · refine ⟨(own msg now object).1, fun announces => ?_⟩
          rcases (own msg now object).2 announces with rfl | isReferrer
          · exact live.1
          · exact live.2 object isReferrer
      · cases stepped
  | startTrack allocatedObj =>
      simp only [TagMachine.step] at stepped
      split at stepped
      · rename_i live
        cases stepped
        refine ⟨released.ordered, released.noticed, fun call listed => ?_, released.group⟩
        rcases List.mem_append.mp listed with before | now
        · exact released.held call before
        · rw [List.mem_singleton] at now
          subst now
          exact live
      · cases stepped
  | trackStep call =>
      simp only [TagMachine.step, Option.bind_eq_bind, Option.bind_eq_some_iff] at stepped
      rcases stepped with ⟨tracking, isCall, stepped⟩
      have listed := List.mem_of_getElem? isCall
      have live := released.held tracking listed
      rcases threadStep : trackObjectStep jvm state.agent tracking.object tracking.pc with
        ⟨agent, pc⟩
      rcases trackObjectStep_produced threadStep with ⟨sameGroup, sent⟩
      have sentKept : AnnouncedBeforeFreed agent.produced ∧
          ∀ group ∈ agent.produced, ∀ msg ∈ group, ∀ object, msg.Frees object →
            object ∈ state.freed := by
        rcases sent with nothing | ⟨msg, sent, own⟩
        · exact nothing ▸ ⟨released.ordered, released.noticed⟩
        · refine released.send agent sent fun other listed object => ?_
          rw [List.mem_singleton] at listed
          subst listed
          exact ⟨(own object).1, fun announces => (own object).2 announces ▸ live⟩
      have pending := released.group
      rw [← sameGroup] at pending
      rw [threadStep] at stepped
      cases pc with
      | none =>
          cases stepped
          exact ⟨sentKept.1, sentKept.2,
            fun other inRest => released.held other (List.mem_of_mem_eraseIdx inRest), pending⟩
      | some pc =>
          cases stepped
          refine ⟨sentKept.1, sentKept.2, fun other inNew => ?_, pending⟩
          rcases List.mem_or_eq_of_mem_set inNew with before | rfl
          · exact released.held other before
          · exact live
  | free object => exact released.free unannounced stepped

theorem released_initial : Released initial where
  ordered := List.Pairwise.nil
  noticed _ listed := by simp [initial, AgentState.initial] at listed
  held _ listed := by simp [initial] at listed
  group := trivial

/--
In every run that frees no object while its announcement waits for the flush, no
free notice is handed to the synchronizer before the object's announcement.
-/
theorem announcedBeforeFreed_of_run (jvm : Jvm) (actions : List TagAction) (final : TagMachine)
    (meets : StepsMeet (step jvm) FreesAnnounced initial actions)
    (run : runFrom (step jvm) initial actions = some final) :
    AnnouncedBeforeFreed final.agent.produced :=
  (runFrom_invariant (fun _ _ _ unannounced released stepped =>
    released.step unannounced stepped) meets released_initial run).ordered

/-- Class 0 is tagged in a class pass, and object 5 in a walk that is not flushed yet. -/
def walkedActions : List TagAction :=
  .startClassMetadata [0] :: List.replicate 7 .agentStep ++
    [.startFollowReference, .agentStep, .callback staticReference, .agentStep]

/-- Object 5 is freed after the flush. -/
theorem announcedBeforeFreed_of_flush_then_free :
    ∃ final, runFrom (step oneClassJvm) initial (walkedActions ++ [.agentStep, .free 5]) =
      some final ∧ AnnouncedBeforeFreed final.agent.produced := by
  have runs : (runFrom (step oneClassJvm) initial
      (walkedActions ++ [.agentStep, .free 5])).isSome := by decide
  rcases Option.isSome_iff_exists.mp runs with ⟨final, run⟩
  exact ⟨final, run, announcedBeforeFreed_of_run _ _ final (by decide) run⟩

/-- Object 5 is freed between the walk and the flush: its notice comes first. -/
theorem free_then_flush_unannounced :
    ∃ final, runFrom (step oneClassJvm) initial (walkedActions ++ [.free 5, .agentStep]) =
        some final ∧
      final.agent.produced.drop 1 =
        [[.deallocateObject 5 2],
          [.objectTag 5 2 1,
            .heapRefInfo 5 none
              { referenceKind := 8, index := -1, classTag := 1, referrerClassTag := 0, tag := 2,
                referrerTag := 0, length := -1, size := 16 }]] ∧
      ¬AnnouncedBeforeFreed final.agent.produced := by
  have produced : (runFrom (step oneClassJvm) initial
      (walkedActions ++ [.free 5, .agentStep])).map (fun final => final.agent.produced.drop 1) =
        some [[.deallocateObject 5 2],
          [.objectTag 5 2 1,
            .heapRefInfo 5 none
              { referenceKind := 8, index := -1, classTag := 1, referrerClassTag := 0, tag := 2,
                referrerTag := 0, length := -1, size := 16 }]] := by
    decide
  rcases Option.map_eq_some_iff.mp produced with ⟨final, run, sent⟩
  refine ⟨final, run, sent, fun ordered => ?_⟩
  have later : AnnouncedBeforeFreed (final.agent.produced.drop 1) := List.Pairwise.drop ordered
  rw [sent] at later
  exact (List.pairwise_cons.mp later).1 _ (List.mem_cons_self ..) 5
    ⟨_, List.mem_cons_self .., rfl⟩ _ (List.mem_cons_self ..) rfl

end TagMachine

end HeapScan
