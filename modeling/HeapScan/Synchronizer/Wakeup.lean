import HeapScan.Synchronizer.Placement

/-!
# Who wakes the consumer

A thread that is about to store has seen to it that the consumer's gate is
signalled, or that the agent thread is still going to read `currentSpace`.  It
goes wrong where the agent thread reads `currentSpace` between the signal of a
switch and the switch itself, with the signal already reset: then it consumes the
old space, and nobody signals for the new one.
-/

namespace HeapScan

open Transition

variable {σ α : Type}

/-- On the way from the wait to the copy of `currentSpace`. -/
def ConsumePc.waking : ConsumePc SpaceName SpaceName → Bool
  | .setConsumerIn | .resetConsumerGate | .statusAccumulating | .readCurrent => true
  | _ => false

/-- Where `consumerIn` may be set. -/
def ConsumePc.mayBeIn : ConsumePc SpaceName SpaceName → Bool
  | .resetConsumerGate | .statusAccumulating | .readCurrent | .readOther _ | .openOther _ _
  | .closeLocal _ | .clearConsumerIn _ => true
  | _ => false

theorem ConsumePc.not_waking_of_consuming {pc : ConsumePc SpaceName SpaceName}
    {space : SpaceName} (consuming : pc.consuming = some space) : pc.waking = false := by
  cases pc <;> first | rfl | cases consuming

/-- In `changeSpace`, between the signal and the switch. -/
def ProducePc.switches {Space Entry : Type} : ProducePc Space Entry α → Bool
  | .readSwitch _ _ | .writeSwitch _ _ _ => true
  | _ => false

/-- The space for which the thread has done what it does to wake the consumer. -/
def ProducePc.signalledFor : ProducePc SpaceName Side α → Option SpaceName
  | .releaseMain _ space | .setAccumulate _ space | .increment _ space | .tryEntry _ space _
  | .storeMsg _ space _ => some space
  | _ => none

namespace Protocol

/-- The agent thread is going to read `currentSpace`. -/
def Roused (state : Protocol α) : Prop :=
  state.consumerGate = true ∨ state.consume.waking = true

structure Awake (state : Protocol α) : Prop where
  inside : state.consumerIn = true → state.consume.mayBeIn = true
  consuming : ∀ space, state.consume.consuming = some space →
    state.currentSpace = space ∨ state.consumerGate = true
  switching : ∀ thread, (state.produce thread).switches = true → state.Roused
  signalled : ∀ thread space, (state.produce thread).signalledFor = some space →
    state.Roused ∨ state.Lost thread space
  waits : ∀ space, state.waiting space ≠ [] →
    state.Roused ∨ state.consume.consuming = some space

/-- The step does not read `currentSpace` for a consume section during an unsignalled switch. -/
def KeepsAwake (state : Protocol α) : SyncAction α → Prop
  | .consume _ => state.consume = .readCurrent →
      (∃ thread, (state.produce thread).switches = true) → state.consumerGate = true
  | _ => True

theorem awake_initial : Awake (initial : Protocol α) where
  inside isIn := by cases isIn
  consuming _ consuming := by cases consuming
  switching _ switches := by cases switches
  signalled _ _ signalled := by cases signalled
  waits _ notEmpty := absurd rfl notEmpty

section Steps

variable {state next : Protocol α} {thread : Thread}

/-! ## Steps of `onProduce` -/

theorem ProduceStep.consumerIn (step : state.ProduceStep thread next) :
    next.consumerIn = state.consumerIn := by
  cases step <;> rfl

theorem ProduceStep.consumerGate (step : state.ProduceStep thread next)
    (signalled : state.consumerGate = true) : next.consumerGate = true := by
  cases step <;> first | rfl | exact signalled

theorem ProduceStep.roused (step : state.ProduceStep thread next) (roused : state.Roused) :
    next.Roused := by
  unfold Roused
  rw [step.consume]
  exact roused.imp_left step.consumerGate

/-- Where `consumerIn` is seen set, the agent thread reads `currentSpace` or consumes the copy. -/
theorem Awake.roused_of_consumerIn (awake : state.Awake) (accounts : state.Accounts)
    (isIn : state.consumerIn = true) (notIdle : state.produce thread ≠ .idle) {space : SpaceName}
    (place : state.Receives space ∨ state.Lost thread space) :
    state.Roused ∨ state.Lost thread space := by
  have mayBeIn := awake.inside isIn
  have notAgent : thread ≠ .agent := by
    rintro rfl
    rw [accounts.atCommand notIdle] at mayBeIn
    cases mayBeIn
  have section_or : state.consume.waking = true ∨
      ∃ consumed, state.consume.consuming = some consumed := by
    cases pc : state.consume with
    | resetConsumerGate | statusAccumulating | readCurrent => exact .inl rfl
    | readOther consumed | openOther consumed | closeLocal consumed
    | clearConsumerIn consumed => exact .inr ⟨consumed, rfl⟩
    | _ =>
        rw [pc] at mayBeIn
        cases mayBeIn
  rcases place with receives | lost
  · rcases section_or with waking | ⟨consumed, consuming⟩
    · exact .inl (.inr waking)
    · rcases awake.consuming consumed consuming with current | signalled
      · rw [← current, receives.1] at consuming
        exact .inr ⟨notAgent, .inl consuming⟩
      · exact .inl (.inl signalled)
  · exact .inr lost

/-- What a thread that signals, or sees that it need not, knows then. -/
theorem Awake.signalled_self (awake : state.Awake) (placed : state.Placed)
    (accounts : state.Accounts) (step : state.ProduceStep thread next) {space : SpaceName}
    (signalled : (next.produce thread).signalledFor = some space) :
    next.Roused ∨ next.Lost thread space := by
  have place := placed.place thread
  have before := awake.signalled thread space
  have notIdle := step.not_idle
  have kept : state.Roused ∨ state.Lost thread space → next.Roused ∨ next.Lost thread space :=
    fun known => known.imp step.roused fun lost =>
      ⟨lost.1, (step.doomed_iff accounts space).mpr lost.2⟩
  cases step with
  | writeSwitch pc =>
      exact .inl (awake.switching thread (by rw [pc]; rfl))
  | testConsumerIn_in pc isIn =>
      rw [goOn_self] at signalled
      cases signalled
      rw [pc] at place
      exact kept (awake.roused_of_consumerIn accounts isIn notIdle place)
  | signalConsumer pc => exact .inl (.inl rfl)
  | releaseMain pc | setAccumulate pc | increment pc | tryEntry_acquired pc
  | tryEntry_timeout pc =>
      rw [goOn_self] at signalled
      exact kept (before (by rw [pc]; exact signalled))
  | _ =>
      rw [goOn_self] at signalled
      cases signalled

theorem Awake.produceStep (awake : state.Awake) (placed : state.Placed)
    (accounts : state.Accounts) (step : state.ProduceStep thread next) : next.Awake where
  inside := by
    rw [step.consumerIn, step.consume]
    exact awake.inside
  consuming space consuming := by
    rw [step.consume] at consuming
    rcases awake.consuming space consuming with current | signalled
    · cases step with
      | writeSwitch pc =>
          -- the signal of this switch has not been reset in the section
          rcases awake.switching thread (by rw [pc]; rfl) with signalled | waking
          · exact .inr signalled
          · rw [ConsumePc.not_waking_of_consuming consuming] at waking
            cases waking
      | _ => exact .inl current
    · exact .inr (step.consumerGate signalled)
  switching other switches := by
    by_cases self : other = thread
    · subst self
      have before := awake.switching other
      cases step with
      | signalSwitch pc => exact .inl rfl
      | readSwitch pc => exact before (by rw [pc]; rfl)
      | _ =>
          rw [goOn_self] at switches
          cases switches
    · rw [step.others self] at switches
      exact step.roused (awake.switching other switches)
  signalled other space signalled := by
    by_cases self : other = thread
    · subst self
      exact awake.signalled_self placed accounts step signalled
    · rw [step.others self] at signalled
      exact (awake.signalled other space signalled).imp step.roused fun lost =>
        ⟨lost.1, (step.doomed_iff accounts space).mpr lost.2⟩
  waits space notEmpty := by
    rw [step.consume]
    refine Or.imp_left step.roused ?_
    by_cases stores : ∃ msg side, state.produce thread = .storeMsg msg space side
    · rcases stores with ⟨msg, side, atStore⟩
      rcases awake.signalled thread space (by rw [atStore]; rfl) with
        roused | ⟨notAgent, consuming | owned⟩
      · exact .inl roused
      · exact .inr consuming
      · exact absurd owned (accounts.not_owned_of_storeMsg atStore notAgent)
    · rw [step.waiting_of_ne fun msg side atStore => stores ⟨msg, side, atStore⟩] at notEmpty
      exact awake.waits space notEmpty

/-! ## Steps of the flush loop -/

theorem ConsumeStep.consumerGate (step : state.ConsumeStep next)
    (signalled : state.consumerGate = true) :
    next.consumerGate = true ∨ state.consume = .resetConsumerGate := by
  cases step with
  | resetConsumerGate pc => exact .inr pc
  | _ => exact .inl signalled

theorem ConsumeStep.waking (step : state.ConsumeStep next)
    (waking : state.consume.waking = true) :
    next.consume.waking = true ∨ state.consume = .readCurrent := by
  cases step with
  | setConsumerIn pc | resetConsumerGate pc | statusAccumulating pc => exact .inl rfl
  | readCurrent pc => exact .inr pc
  | _ => simp_all [ConsumePc.waking]

/-- The agent thread goes to sleep again only by way of reading `currentSpace`. -/
theorem ConsumeStep.roused (step : state.ConsumeStep next) (roused : state.Roused) :
    next.Roused ∨ state.consume = .readCurrent := by
  have wakes := fun waking => (step.waking waking).imp_left (Or.inr (a := next.consumerGate = true))
  rcases roused with signalled | waking
  · rcases step.consumerGate signalled with still | pc
    · exact .inl (.inl still)
    · exact wakes (by rw [pc]; rfl)
  · exact wakes waking

theorem ConsumeStep.consuming_of_readCurrent (step : state.ConsumeStep next)
    (pc : state.consume = .readCurrent) :
    next.consume.consuming = some state.currentSpace := by
  cases step with
  | readCurrent => rfl
  | _ => simp_all

theorem ConsumeStep.consuming_before (step : state.ConsumeStep next) {space : SpaceName}
    (consuming : next.consume.consuming = some space) :
    state.consume.consuming = some space ∨ state.currentSpace = space := by
  cases step with
  | readCurrent pc => exact .inr (Option.some.inj consuming)
  | @retrieve consumed pending sends printed contents pc =>
      cases sends <;> cases pending <;> cases consuming <;> exact .inl (by rw [pc]; rfl)
  | @sent consumed pending pc =>
      cases pending <;> cases consuming
      exact .inl (by rw [pc]; rfl)
  | readOther pc | openOther pc | closeLocal pc | clearConsumerIn pc | waitThreads pc
  | waitLeft pc | waitRight pc | setConsuming pc | statusNormal pc =>
      exact .inl (by rw [pc]; exact consuming)
  | _ => cases consuming

theorem Awake.inside_consumeStep (awake : state.Awake) (step : state.ConsumeStep next)
    (isIn : next.consumerIn = true) : next.consume.mayBeIn = true := by
  cases step with
  | setConsumerIn pc | resetConsumerGate pc | statusAccumulating pc | readCurrent pc
  | readOther pc | openOther pc | closeLocal pc => rfl
  | clearConsumerIn pc => cases isIn
  | processIncoming pc | entered pc | timeout pc | waitThreads pc | waitLeft pc | waitRight pc
  | setConsuming pc | statusNormal pc | retrieve pc | sent pc =>
      have mayBeIn := awake.inside isIn
      rw [pc] at mayBeIn
      cases mayBeIn

theorem Placed.place_signalledFor (placed : state.Placed) {space : SpaceName}
    (signalled : (state.produce thread).signalledFor = some space) :
    state.Receives space ∨ state.Lost thread space := by
  have place := placed.place thread
  cases pc : state.produce thread with
  | releaseMain msg target | setAccumulate msg target | increment msg target
  | tryEntry msg target | storeMsg msg target =>
      rw [pc] at place signalled
      cases signalled
      exact place
  | _ =>
      rw [pc] at signalled
      cases signalled

theorem Awake.consumeStep (awake : state.Awake) (placed : state.Placed)
    (accounts : state.Accounts) {result : ConsumeResult}
    (keepsAwake : state.KeepsAwake (.consume result)) (idle : state.produce .agent = .idle)
    (step : state.ConsumeStep next) : next.Awake where
  inside := awake.inside_consumeStep step
  consuming space consuming := by
    rw [step.currentSpace]
    rcases step.consuming_before consuming with before | current
    · rcases awake.consuming space before with current | signalled
      · exact .inl current
      · refine .inr ((step.consumerGate signalled).resolve_right fun pc => ?_)
        rw [pc] at before
        cases before
    · exact .inl current
  switching other switches := by
    rw [step.produce] at switches
    rcases step.roused (awake.switching other switches) with roused | pc
    · exact roused
    · refine .inl ((step.consumerGate (keepsAwake pc ⟨other, switches⟩)).resolve_right ?_)
      simp [pc]
  signalled other space signalled := by
    rw [step.produce] at signalled
    have kept : state.Lost other space → next.Lost other space := fun lost =>
      ⟨lost.1, step.doomed placed accounts lost.2⟩
    rcases awake.signalled other space signalled with roused | lost
    · rcases step.roused roused with still | pc
      · exact .inl still
      · -- what is current now is going to be consumed
        rcases placed.place_signalledFor signalled with receives | lost
        · have consuming := step.consuming_of_readCurrent pc
          rw [receives.1] at consuming
          refine .inr ⟨?_, .inl consuming⟩
          rintro rfl
          rw [idle] at signalled
          cases signalled
        · exact .inr (kept lost)
    · exact .inr (kept lost)
  waits space notEmpty := by
    have before : state.waiting space ≠ [] := fun empty =>
      notEmpty (List.sublist_nil.mp (empty ▸ step.waiting_sublist space))
    have consumed : state.consume.consuming = some space →
        next.consume.consuming = some space := fun consuming =>
      (step.consuming placed accounts consuming).resolve_right fun ended => notEmpty ended.2
    rcases awake.waits space before with roused | consuming
    · rcases step.roused roused with still | pc
      · exact .inl still
      · rcases placed.waits space before with receives | consuming
        · rw [← receives.1]
          exact .inr (step.consuming_of_readCurrent pc)
        · exact .inr (consumed consuming)
    · exact .inr (consumed consuming)

/-! ## Every step -/

theorem Awake.call (awake : state.Awake) (accounts : state.Accounts) {msg : α}
    (idle : state.produce thread = .idle) :
    Awake (goOn { state with calls := state.calls ++ [.called thread msg] } thread
      (.readCurrent msg)) := by
  have doomed := (balanced_of_call idle msg).doomed_iff accounts rfl
  refine
    { awake with
      switching := fun other switches => ?_
      signalled := fun other space signalled => ?_ }
  · by_cases self : other = thread
    · subst self
      rw [goOn_self] at switches
      cases switches
    · rw [goOn_of_ne _ self] at switches
      exact awake.switching other switches
  · by_cases self : other = thread
    · subst self
      rw [goOn_self] at signalled
      cases signalled
    · rw [goOn_of_ne _ self] at signalled
      exact (awake.signalled other space signalled).imp_right fun lost =>
        ⟨lost.1, (doomed space).mpr lost.2⟩

theorem Awake.step (awake : state.Awake) (placed : state.Placed) (accounts : state.Accounts)
    {action : SyncAction α} (keepsPlace : state.KeepsPlace action)
    (keepsAwake : state.KeepsAwake action) (stepped : state.Step action next) :
    next.consume = .ended ∨ next.Awake := by
  cases stepped with
  | call idle atCommand own => exact .inr (awake.call accounts idle)
  | produce step => exact .inr (awake.produceStep placed accounts step)
  | sleep idle pc => exact .inr awake
  | consume idle step => exact .inr (awake.consumeStep placed accounts keepsAwake idle step)
  | @sendError space pending idle pc =>
      cases pending with
      | false => exact .inr (awake.consumeStep placed accounts keepsAwake idle (.sent pc))
      | true => exact absurd pc (keepsPlace space)
  | exit idle mayExit => exact .inl rfl

/-- With nobody in `onProduce` and no signal, the agent thread waits in front of empty spaces. -/
theorem Awake.waiting_eq_nil (awake : state.Awake)
    (consume : state.consume = .tryConsumerEntry) (unsignalled : state.consumerGate = false)
    (space : SpaceName) : state.waiting space = [] := by
  by_contra notEmpty
  rcases awake.waits space notEmpty with (signalled | waking) | consuming
  · rw [unsignalled] at signalled
    cases signalled
  · rw [consume] at waking
    cases waking
  · rw [consume] at consuming
    cases consuming

theorem Step.idle {action : SyncAction α} (stepped : state.Step action next)
    (idle : state.produce thread = .idle) (notCalled : ∀ msg, action ≠ .call thread msg) :
    next.produce thread = .idle := by
  cases stepped with
  | @call caller msg callerIdle atCommand own =>
      have different : thread ≠ caller := by
        rintro rfl
        exact notCalled msg rfl
      rw [goOn_of_ne _ different]
      exact idle
  | @produce producer next step =>
      have different : thread ≠ producer := by
        rintro rfl
        exact step.not_idle idle
      rw [step.others different, idle]
  | consume _ step => rw [step.produce, idle]
  | sleep | sendError | exit => exact idle

/-- The places, and who wakes the agent thread as long as it has not ended. -/
def Watched (state : Protocol α) : Prop :=
  state.Led ∧ (state.consume = .ended ∨ state.Awake)

theorem Watched.step (watched : state.Watched) {action : SyncAction α}
    (keepsPlace : state.KeepsPlace action)
    (keepsAwake : state.Placed → state.KeepsAwake action) (stepped : state.Step action next) :
    next.Watched := by
  rcases watched with ⟨led, ended | awake⟩
  · exact ⟨led.step keepsPlace stepped, .inl (stepped.consume_ended ended)⟩
  · refine ⟨led.step keepsPlace stepped, ?_⟩
    rcases led with ⟨accounts, ended | placed⟩
    · exact .inl (stepped.consume_ended ended)
    · exact awake.step placed accounts keepsPlace (keepsAwake placed) stepped

end Steps

end Protocol

namespace SyncState

variable {holds : σ → (HolderName → List α) → Prop} {state : SyncState σ α}
  {protocol : Protocol α}

/-- Nobody is in `onProduce`, and the agent thread waits for a signal that is not there. -/
structure Quiet (state : SyncState σ α) : Prop where
  idle : ∀ thread, state.produce thread = .idle
  waits : state.consume = .tryConsumerEntry
  unsignalled : state.isSignalled state.consumerGate = false

/-- No message is left behind with nobody signalled to collect it. -/
def NoneStranded (state : SyncState (Store α) α) : Prop :=
  state.Quiet → state.store.IsEmpty

/-- The owner of `mainProducerGate` has signalled and not yet switched. -/
def inSwitch (state : SyncState σ α) : Bool :=
  match state.memory.mutexes.cell state.mainProducerGate with
  | some (.owned owner _) => (state.produce owner).switches
  | _ => false

/-- The step does not read `currentSpace` for a consume section during an unsignalled switch. -/
def keepsAwake (state : SyncState σ α) : SyncAction α → Bool
  | .consume _ =>
      match state.consume with
      | .readCurrent => !state.inSwitch || state.isSignalled state.consumerGate
      | _ => true
  | _ => true

theorem Refines.switches (refines : state.Refines holds protocol) (thread : Thread) :
    (state.produce thread).switches = (protocol.produce thread).switches := by
  have same := refines.produce thread
  generalize state.produce thread = pc at same
  generalize protocol.produce thread = abstractPc at same
  cases same <;> rfl

theorem Refines.inSwitch (refines : state.Refines holds protocol) (placed : protocol.Placed)
    {thread : Thread} (switches : (protocol.produce thread).switches = true) :
    state.inSwitch = true := by
  have owns : (protocol.produce thread).ownsMain = true := by
    generalize protocol.produce thread = pc at switches
    cases pc <;> first | rfl | cases switches
  rcases Mutex.owned_of_holds (placed.ownsMain thread owns) with ⟨again, owned⟩
  rw [SyncState.inSwitch, refines.mainGate, refines.memory.mainGate, owned]
  exact (refines.switches thread).trans switches

theorem Refines.keepsAwake (refines : state.Refines holds protocol) (placed : protocol.Placed)
    {action : SyncAction α} (keeps : state.keepsAwake action = true) :
    protocol.KeepsAwake action := by
  cases action with
  | consume result =>
      rintro pc ⟨thread, switches⟩
      have same := refines.consume
      rw [pc] at same
      generalize codePc : state.consume = abstractPc at same
      cases same with
      | readCurrent =>
          simpa [SyncState.keepsAwake, codePc, refines.inSwitch placed switches,
            refines.isSignalled_consumerGate] using keeps
  | call thread msg | produce thread | exit => trivial

theorem Refines.noneStranded {state : SyncState (Store α) α}
    (refines : state.Refines Store.Contains protocol) (watched : protocol.Watched) :
    state.NoneStranded := by
  rintro ⟨-, waits, unsignalled⟩
  have same := refines.consume
  rw [waits] at same
  generalize consumePc : protocol.consume = abstractPc at same
  cases same with
  | tryConsumerEntry =>
      have awake := watched.2.resolve_left (by simp [consumePc])
      rw [refines.isSignalled_consumerGate] at unsignalled
      have nothing : protocol.contents = fun _ => [] := by
        funext name
        rcases SpaceName.exists_entry name with ⟨space, side, rfl⟩
        exact Protocol.contents_eq_nil
          (awake.waiting_eq_nil consumePc unsignalled space) side
      have contains := refines.contents
      rw [nothing] at contains
      exact contains.isEmpty

variable [Message α] [DecidableEq α]

/-- A run strands no message if no step of it loses its place or its wake-up. -/
theorem noneStranded_of_run {socketMsgLimit : ℤ} {initial : SyncState (Store α) α}
    {actions : List (SyncAction α)}
    (initialized : onInitialize (HeapScan.onInitialize socketMsgLimit) = some initial)
    (meets : StepsMeet (step messageStore)
      (fun state action => state.keepsPlace action = true ∧ state.keepsAwake action = true)
      initial actions) :
    ∀ visited, Visits (step messageStore) initial actions visited → visited.NoneStranded := by
  rintro visited ⟨before, after, rfl, run⟩
  have refines := onInitialize_refines (onInitialize_contains socketMsgLimit) initialized
  have kept := refines.run Protocol.Watched messageStore_keeps ?_ meets.of_append
    ⟨Protocol.led_initial, .inr Protocol.awake_initial⟩ run
  · rcases kept with ⟨protocol, visitedRefines, watched⟩
    exact visitedRefines.noneStranded watched
  · rintro state protocol action next protocolNext currentRefines - ⟨keepsPlace, keepsAwake⟩ -
      watched protocolStep
    exact watched.step (currentRefines.keepsPlace keepsPlace)
      (fun placed => currentRefines.keepsAwake placed keepsAwake) protocolStep

/-- A thread that is never called stays outside `onProduce`. -/
theorem idle_of_run {socketMsgLimit : ℤ} {initial final : SyncState (Store α) α}
    {actions : List (SyncAction α)} {thread : Thread}
    (initialized : onInitialize (HeapScan.onInitialize socketMsgLimit) = some initial)
    (neverCalled : ∀ msg, .call thread msg ∉ actions)
    (run : runFrom (step messageStore) initial actions = some final) :
    final.produce thread = .idle := by
  have refines := onInitialize_refines (onInitialize_contains socketMsgLimit) initialized
  have notCalled : StepsMeet (step messageStore)
      (fun _ action => ∀ msg, action ≠ .call thread msg) initial actions := by
    refine stepsMeet_of_mem (fun action listed _ msg called => ?_) initial
    exact neverCalled msg (called ▸ listed)
  have kept := refines.run (fun protocol => protocol.produce thread = .idle)
    messageStore_keeps ?_ notCalled rfl run
  · rcases kept with ⟨protocol, finalRefines, idle⟩
    exact finalRefines.idle_code idle
  · rintro state protocol action next protocolNext - - notCalled - idle protocolStep
    exact protocolStep.idle idle notCalled

set_option maxRecDepth 4000 in
/-- A thread switches the spaces while the agent thread consumes, and both are consumed. -/
theorem noneStranded_of_run_switch :
    let actions : List (SyncAction Text) :=
      [.call (.other 0) ['a']] ++ List.replicate 10 (.produce (.other 0)) ++
        [.call (.other 0) ['b'], .produce (.other 0)] ++ List.replicate 9 (.consume .done) ++
        List.replicate 13 (.produce (.other 0)) ++ List.replicate 26 (.consume .done)
    ∃ initial : SyncState (Store Text) Text,
      onInitialize (HeapScan.onInitialize 5) = some initial ∧
      ∀ visited, Visits (step messageStore) initial actions visited → visited.NoneStranded := by
  intro actions
  have meets : (onInitialize (HeapScan.onInitialize 5 : Store Text)).any fun initial =>
      decide (StepsMeet (step messageStore)
        (fun state action => state.keepsPlace action = true ∧ state.keepsAwake action = true)
        initial actions) := by decide
  rcases (Option.any_eq_true _ _).mp meets with ⟨initial, initialized, meets⟩
  exact ⟨initial, initialized, noneStranded_of_run initialized (of_decide_eq_true meets)⟩

set_option maxRecDepth 4000 in
/--
The agent thread resets the signal of a switch and reads `currentSpace` before the
switch: it consumes the old space once more, and the message in the new one stays.
-/
theorem late_switch_strands_message :
    let actions : List (SyncAction Text) :=
      [.call (.other 0) ['a']] ++ List.replicate 10 (.produce (.other 0)) ++
        [.call (.other 0) ['b'], .produce (.other 0)] ++ List.replicate 9 (.consume .done) ++
        List.replicate 5 (.produce (.other 0)) ++ List.replicate 14 (.consume .done) ++
        List.replicate 8 (.produce (.other 0)) ++ List.replicate 11 (.consume .done)
    ∃ initial final : SyncState (Store Text) Text,
      onInitialize (HeapScan.onInitialize 5) = some initial ∧
      runFrom (step messageStore) initial actions = some final ∧ ¬final.NoneStranded := by
  intro actions
  have stranded : ((onInitialize (HeapScan.onInitialize 5 : Store Text)).bind fun initial =>
      runFrom (step messageStore) initial actions).any (fun final =>
        decide ((final.produce (.other 0) = .idle ∧ final.consume = .tryConsumerEntry ∧
          final.isSignalled final.consumerGate = false) ∧
          (final.store.groups.cell (final.store.holder .rightSpaceLeftEntry).startGrp).map
            MsgGroup.totalMsgs = some 1)) := by decide
  rcases (Option.any_eq_true _ _).mp stranded with ⟨final, runs, stranded⟩
  rcases Option.bind_eq_some_iff.mp runs with ⟨initial, initialized, run⟩
  rcases of_decide_eq_true stranded with ⟨⟨idle, waits, unsignalled⟩, left⟩
  refine ⟨initial, final, initialized, run, fun noneStranded => ?_⟩
  have quiet : final.Quiet := by
    refine ⟨fun thread => ?_, waits, unsignalled⟩
    by_cases producer : thread = .other 0
    · rw [producer, idle]
    · exact idle_of_run initialized (by simp [actions, producer]) run
  rcases noneStranded quiet .rightSpaceLeftEntry with ⟨group, held, noMsgs, -⟩
  rw [held, Option.map_some, noMsgs] at left
  cases left

end SyncState

end HeapScan
