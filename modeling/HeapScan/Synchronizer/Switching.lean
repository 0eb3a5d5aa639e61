import Mathlib.Data.List.Chain
import HeapScan.Synchronizer.Placement
import HeapScan.Synchronizer.Store

/-!
# One switch for a consume section

`changeSpace` tests and sets `isReady` in its own copy of the other space, so the flag
keeps no second producer from switching.  Where `currentSpace` is written only while the
gate of the current space is closed, it is written once between two calls of
`onStartConsume`, and from then on producers are led to the space it was switched to.
-/

namespace HeapScan

open Transition

variable {σ α : Type}

/-- `onStartConsume` is called, or `changeSpace` writes `currentSpace`. -/
inductive SpaceEvent where
  | startConsume
  | switch (target : SpaceName)
deriving DecidableEq

/-- Two switches have a call of `onStartConsume` between them. -/
def SwitchedOnce (events : List SpaceEvent) : Prop :=
  events.IsChain fun first second => first = .startConsume ∨ second = .startConsume

instance (events : List SpaceEvent) : Decidable (SwitchedOnce events) :=
  inferInstanceAs (Decidable (List.IsChain _ events))

def ProducePc.spaceEvents {Space Entry : Type} : ProducePc Space Entry α → List SpaceEvent
  | .writeSwitch _ _ target => [.switch target]
  | _ => []

def ConsumePc.spaceEvents {Space Id : Type} : ConsumePc Space Id → List SpaceEvent
  | .readCurrent => [.startConsume]
  | _ => []

/-- In `onStartConsume`, before the gate of the space is closed. -/
def ConsumePc.closing : ConsumePc SpaceName SpaceName → Option SpaceName
  | .readOther space | .openOther space _ | .closeLocal space => some space
  | _ => none

namespace Protocol

def spaceEvents (state : Protocol α) : SyncAction α → List SpaceEvent
  | .produce thread => (state.produce thread).spaceEvents
  | .consume _ => state.consume.spaceEvents
  | _ => []

/-- The step does not switch away from an open space. -/
def SwitchesClosed (state : Protocol α) : SyncAction α → Prop
  | .produce thread => ∀ msg space target, state.produce thread = .writeSwitch msg space target →
      state.gate state.currentSpace = false
  | _ => True

/-- After `events` there was one switch for a section, and a switched state stays open. -/
structure Switched (events : List SpaceEvent) (state : Protocol α) : Prop where
  gated : state.Gated
  once : SwitchedOnce events
  arrives : ∀ target, events.getLast? = some (.switch target) →
    state.currentSpace = target ∧ state.gate target = true
  closing : ∀ space, state.consume.closing = some space →
    events.getLast? = some .startConsume ∨ events.getLast? = some (.switch space.other)
  current : ∀ space, state.consume.closing = some space →
    events.getLast? = some .startConsume → state.currentSpace = space

theorem switched_initial : Switched [] (initial : Protocol α) where
  gated := gated_initial
  once := .nil
  arrives _ last := by cases last
  closing _ pc := by cases pc
  current _ pc := by cases pc

section Steps

variable {state next : Protocol α} {thread : Thread} {events : List SpaceEvent}

/-- Where a step of the flush loop stands to the spaces. -/
theorem ConsumeStep.spaces (step : state.ConsumeStep next) :
    (state.consume = .readCurrent ∧ next = state.flushOn (.readOther state.currentSpace)) ∨
      state.consume.spaceEvents = [] ∧
        (∀ space, next.consume.closing = some space → state.consume.closing = some space) ∧
        ∀ space, state.gate space = true →
          next.gate space = true ∨ state.consume = .closeLocal space := by
  cases step with
  | readCurrent pc => exact .inl ⟨pc, rfl⟩
  | readOther pc =>
      refine .inr ⟨by rw [pc]; rfl, fun space closes => ?_, fun _ isOpen => .inl isOpen⟩
      rw [pc]
      exact closes
  | @openOther consumed other pc =>
      refine .inr ⟨by rw [pc]; rfl, fun space closes => ?_, fun space isOpen => .inl ?_⟩
      · rw [pc]
        exact closes
      · simp only [flushOn, Function.update_apply]
        split
        · rfl
        · exact isOpen
  | @closeLocal consumed pc =>
      refine .inr ⟨by rw [pc]; rfl, fun _ closes => (by cases closes), fun space isOpen => ?_⟩
      by_cases same : space = consumed
      · exact .inr (by rw [pc, same])
      · exact .inl ((Function.update_of_ne same ..).trans isOpen)
  | @retrieve space pending sends _ _ pc =>
      refine .inr ⟨by rw [pc]; rfl, fun _ closes => ?_, fun _ isOpen => .inl isOpen⟩
      cases sends <;> cases pending <;> cases closes
  | @sent space pending pc =>
      refine .inr ⟨by rw [pc]; rfl, fun _ closes => ?_, fun _ isOpen => .inl isOpen⟩
      cases pending <;> cases closes
  | processIncoming pc | entered pc | timeout pc | setConsumerIn pc | resetConsumerGate pc
  | statusAccumulating pc | clearConsumerIn pc | waitThreads pc | waitLeft pc | waitRight pc
  | setConsuming pc | statusNormal pc =>
      exact .inr ⟨by rw [pc]; rfl, fun _ closes => (by cases closes), fun _ isOpen => .inl isOpen⟩

/-- A step without an event that leaves the current space and open gates as they are. -/
theorem Switched.silent (switched : Switched events state) (gated : next.Gated)
    (current : next.currentSpace = state.currentSpace)
    (gate : ∀ space, events.getLast? = some (.switch space) → state.gate space = true →
      next.gate space = true)
    (closing : ∀ space, next.consume.closing = some space →
      state.consume.closing = some space) : Switched events next where
  gated := gated
  once := switched.once
  arrives target last := by
    rcases switched.arrives target last with ⟨isCurrent, isOpen⟩
    exact ⟨current.trans isCurrent, gate target last isOpen⟩
  closing space closes := switched.closing space (closing space closes)
  current space closes last := current.trans (switched.current space (closing space closes) last)

theorem Switched.consumeStep (switched : Switched events state) (step : state.ConsumeStep next) :
    Switched (events ++ state.consume.spaceEvents) next := by
  have gated := switched.gated.consumeStep step
  rcases step.spaces with ⟨pc, rfl⟩ | ⟨silent, closing, gate⟩
  · have started : state.consume.spaceEvents = [.startConsume] := by rw [pc]; rfl
    rw [started]
    exact
      { gated
        once := switched.once.append (.singleton _) fun _ _ _ isLast =>
          .inr (Option.some.inj isLast).symm
        arrives := fun _ last => by simp at last
        closing := fun _ _ => .inl (by simp)
        current := fun _ closes _ => Option.some.inj closes }
  · rw [silent, List.append_nil]
    refine switched.silent gated step.currentSpace (fun space last isOpen => ?_) closing
    refine (gate space isOpen).resolve_right fun atClose => ?_
    -- the space to be closed is the one that the section found current
    rcases switched.closing space (by rw [atClose]; rfl) with started | away
    · rw [started] at last
      cases last
    · rw [away, Option.some.injEq, SpaceEvent.switch.injEq] at last
      exact SpaceName.other_ne space last

theorem Switched.produceStep (switched : Switched events state)
    (closed : state.SwitchesClosed (.produce thread)) (step : state.ProduceStep thread next) :
    Switched (events ++ (state.produce thread).spaceEvents) next := by
  have gated := switched.gated.produceStep step
  have silent : (state.produce thread).spaceEvents = [] →
      next.currentSpace = state.currentSpace →
      Switched (events ++ (state.produce thread).spaceEvents) next := by
    intro noEvent current
    rw [noEvent, List.append_nil]
    exact switched.silent gated current (fun _ _ isOpen => by rwa [step.gate])
      (fun _ closes => by rwa [step.consume] at closes)
  cases step with
  | @writeSwitch msg space target pc =>
      have isClosed := closed msg space target pc
      have moves := switched.gated.target _ _ _ _ pc
      have event : (state.produce thread).spaceEvents = [.switch target] := by rw [pc]; rfl
      have started : ∀ last ∈ events.getLast?, last = .startConsume := by
        intro last isLast
        cases last with
        | startConsume => rfl
        | switch other =>
            rcases switched.arrives other isLast with ⟨isCurrent, isOpen⟩
            rw [← isCurrent, isClosed] at isOpen
            cases isOpen
      rw [event]
      refine
        { gated
          once := switched.once.append (.singleton _) fun last isLast _ _ =>
            .inl (started last isLast)
          arrives := fun other last => ?_
          closing := fun consumed closes => .inr ?_
          current := fun _ _ last => by simp at last }
      · simp only [List.getLast?_append, List.getLast?_singleton, Option.some_or,
          Option.some.injEq, SpaceEvent.switch.injEq] at last
        refine ⟨last, ?_⟩
        rw [← last, moves]
        exact switched.gated.someOpen _ isClosed
      · have was : state.currentSpace = consumed := by
          refine switched.current consumed closes ((switched.closing consumed closes).resolve_right
            fun away => ?_)
          rcases switched.arrives _ away with ⟨isCurrent, isOpen⟩
          rw [← isCurrent, isClosed] at isOpen
          cases isOpen
        simp only [List.getLast?_append, List.getLast?_singleton, Option.some_or, moves, was]
  | readCurrent pc | testGate_open pc | testGate_closed pc | readOther pc | lockMain pc
  | signalSwitch pc | readSwitch pc | releaseMain pc | testConsumerIn_in pc
  | testConsumerIn_out pc | signalConsumer pc | setAccumulate pc | increment pc
  | tryEntry_acquired pc | tryEntry_timeout pc | storeMsg pc | releaseEntry pc | decrement pc =>
      exact silent (by rw [pc]; rfl) rfl

/-- Every step that does not switch away from an open space keeps what is known. -/
theorem Switched.step (switched : Switched events state) {action : SyncAction α}
    (closed : state.SwitchesClosed action) (stepped : state.Step action next) :
    Switched (events ++ state.spaceEvents action) next := by
  have gated := switched.gated.step stepped
  cases stepped with
  | call =>
      simp only [spaceEvents, List.append_nil]
      exact switched.silent gated rfl (fun _ _ isOpen => isOpen) fun _ closes => closes
  | produce step => exact switched.produceStep closed step
  | sleep _ pc =>
      have silent : state.consume.spaceEvents = [] := by rw [pc]; rfl
      simpa only [spaceEvents, silent, List.append_nil] using switched
  | consume _ step => exact switched.consumeStep step
  | sendError _ pc =>
      have silent : state.consume.spaceEvents = [] := by rw [pc]; rfl
      simp only [spaceEvents, silent, List.append_nil]
      exact switched.silent gated rfl (fun _ _ isOpen => isOpen) fun _ closes => by cases closes
  | exit =>
      simp only [spaceEvents, List.append_nil]
      exact switched.silent gated rfl (fun _ _ isOpen => isOpen) fun _ closes => by cases closes

end Steps

end Protocol

namespace SyncState

variable {holds : σ → (HolderName → List α) → Prop} {state : SyncState σ α}
  {protocol : Protocol α}

def spaceEvents (state : SyncState σ α) : SyncAction α → List SpaceEvent
  | .produce thread => (state.produce thread).spaceEvents
  | .consume _ => state.consume.spaceEvents
  | _ => []

/-- The step does not write `currentSpace` while the gate of the current space is open. -/
def switchesClosed (state : SyncState σ α) : SyncAction α → Bool
  | .produce thread =>
      match state.produce thread with
      | .writeSwitch _ _ _ => !state.isSignalled (state.space state.currentSpace).gate
      | _ => true
  | _ => true

/--
There is at most one switch between two calls of `onStartConsume`, and after it a
producer that arrives finds the space it was switched to, with its gate open.
-/
structure SwitchesOnce (events : List SpaceEvent) (state : SyncState σ α) : Prop where
  once : SwitchedOnce events
  arrives : ∀ target, events.getLast? = some (.switch target) →
    state.currentSpace = target ∧ state.isSignalled (state.space target).gate = true

theorem Refines.spaceEvents (refines : state.Refines holds protocol) (action : SyncAction α) :
    state.spaceEvents action = protocol.spaceEvents action := by
  cases action with
  | produce thread =>
      have same := refines.produce thread
      simp only [SyncState.spaceEvents, Protocol.spaceEvents]
      generalize state.produce thread = pc at same
      generalize protocol.produce thread = abstractPc at same
      cases same <;> rfl
  | consume result =>
      have same := refines.consume
      simp only [SyncState.spaceEvents, Protocol.spaceEvents]
      generalize state.consume = pc at same
      generalize protocol.consume = abstractPc at same
      cases same <;> rfl
  | call thread msg | exit => rfl

theorem Refines.switchesClosed (refines : state.Refines holds protocol) {action : SyncAction α}
    (closed : state.switchesClosed action = true) : protocol.SwitchesClosed action := by
  cases action with
  | produce thread => exact @Refines.keepsPlace _ _ _ _ _ refines (.produce thread) closed
  | consume result | call thread msg | exit => trivial

variable [Message α] [DecidableEq α]

/-- The state of the code refines one of the protocol that has switched once after `events`. -/
def Switching (events : List SpaceEvent) (state : SyncState (Store α) α) : Prop :=
  ∃ protocol : Protocol α, state.Refines Store.Contains protocol ∧ protocol.Switched events

theorem Switching.step {events : List SpaceEvent} {state next : SyncState (Store α) α}
    {action : SyncAction α} (switching : state.Switching events)
    (closed : state.switchesClosed action = true)
    (stepped : state.step messageStore action = some next) :
    next.Switching (events ++ state.spaceEvents action) := by
  rcases switching with ⟨protocol, refines, switched⟩
  rcases refines.step messageStore_keeps stepped with ⟨protocolNext, protocolStep, nextRefines⟩
  rw [refines.spaceEvents action]
  exact ⟨protocolNext, nextRefines, switched.step (refines.switchesClosed closed) protocolStep⟩

/-- A run of the code switches once for a section if it never switches away from an open space. -/
theorem switchesOnce_of_run {socketMsgLimit : ℤ} {initial final : SyncState (Store α) α}
    {actions : List (SyncAction α)}
    (initialized : onInitialize (HeapScan.onInitialize socketMsgLimit) = some initial)
    (meets : StepsMeet (step messageStore)
      (fun state action => state.switchesClosed action = true) initial actions)
    (run : runFrom (step messageStore) initial actions = some final) :
    final.SwitchesOnce (emitted (step messageStore) spaceEvents initial actions) := by
  have start : initial.Switching [] :=
    ⟨_, onInitialize_refines (onInitialize_contains socketMsgLimit) initialized,
      Protocol.switched_initial⟩
  have kept : final.Switching ([] ++ emitted (step messageStore) spaceEvents initial actions) :=
    runFrom_invariant_emitted (fun _ _ _ _ closed switching stepped =>
      Switching.step switching closed stepped) meets start run
  rcases kept with ⟨protocol, refines, switched⟩
  refine ⟨switched.once, fun target last => ?_⟩
  rw [refines.currentSpace, refines.isSignalled_gate]
  exact switched.arrives target last

set_option maxRecDepth 4000 in
/-- One producer switches, and another one that arrives then reads the space switched to. -/
theorem switchesOnce_of_run_arriving :
    let actions : List (SyncAction Text) :=
      [.call (.other 0) ['a']] ++ List.replicate 10 (.produce (.other 0)) ++
        List.replicate 9 (.consume .done) ++
        [.call (.other 0) ['b']] ++ List.replicate 8 (.produce (.other 0)) ++
        [.call (.other 1) ['c']] ++ List.replicate 2 (.produce (.other 1))
    ∃ initial final : SyncState (Store Text) Text,
      onInitialize (HeapScan.onInitialize 5) = some initial ∧
      runFrom (step messageStore) initial actions = some final ∧
      final.SwitchesOnce (emitted (step messageStore) spaceEvents initial actions) := by
  intro actions
  have meets : (onInitialize (HeapScan.onInitialize 5 : Store Text)).any fun initial =>
      decide (StepsMeet (step messageStore)
        (fun state action => state.switchesClosed action = true) initial actions) &&
      (runFrom (step messageStore) initial actions).isSome := by decide
  rcases (Option.any_eq_true _ _).mp meets with ⟨initial, initialized, meets⟩
  rw [Bool.and_eq_true] at meets
  rcases Option.isSome_iff_exists.mp meets.2 with ⟨final, run⟩
  exact ⟨initial, final, initialized, run,
    switchesOnce_of_run initialized (of_decide_eq_true meets.1) run⟩

set_option maxRecDepth 4000 in
/--
Two producers find the gate of the left space closed; the second one calls
`changeSpace` after the first one has switched, and switches back.
-/
theorem second_producer_switches_back :
    let actions : List (SyncAction Text) :=
      [.call (.other 0) ['a']] ++ List.replicate 10 (.produce (.other 0)) ++
        List.replicate 9 (.consume .done) ++
        [.call (.other 0) ['b']] ++ List.replicate 2 (.produce (.other 0)) ++
        [.call (.other 1) ['c']] ++ List.replicate 2 (.produce (.other 1)) ++
        List.replicate 6 (.produce (.other 0)) ++ List.replicate 6 (.produce (.other 1)) ++
        List.replicate 14 (.consume .done)
    ∃ initial final : SyncState (Store Text) Text,
      onInitialize (HeapScan.onInitialize 5) = some initial ∧
      runFrom (step messageStore) initial actions = some final ∧
      emitted (step messageStore) spaceEvents initial actions =
        [.startConsume, .switch .rightProducerSpace, .switch .leftProducerSpace,
          .startConsume] ∧
      ¬final.SwitchesOnce (emitted (step messageStore) spaceEvents initial actions) := by
  intro actions
  have events : (onInitialize (HeapScan.onInitialize 5 : Store Text)).any fun initial =>
      decide (emitted (step messageStore) spaceEvents initial actions =
        [.startConsume, .switch .rightProducerSpace, .switch .leftProducerSpace,
          .startConsume]) &&
      (runFrom (step messageStore) initial actions).isSome := by decide +kernel
  rcases (Option.any_eq_true _ _).mp events with ⟨initial, initialized, events⟩
  rw [Bool.and_eq_true] at events
  rcases Option.isSome_iff_exists.mp events.2 with ⟨final, run⟩
  refine ⟨initial, final, initialized, run, of_decide_eq_true events.1, fun switchesOnce => ?_⟩
  have once := switchesOnce.once
  rw [of_decide_eq_true events.1] at once
  exact absurd once (by decide)

end SyncState

end HeapScan
