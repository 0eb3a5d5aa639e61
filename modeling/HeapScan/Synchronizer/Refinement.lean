import HeapScan.Synchronizer.Handles

/-!
# The code keeps to the protocol

The copies of spaces and entries in the variables of the threads never differ from
the static ones in anything but `isReady`, and a space that `changeSpace` copies is
never ready.  So a step of the code is a step of the protocol, for every store that
keeps its messages in order.
-/

namespace HeapScan

variable {σ α : Type}

/--
What the synchronizer relies on of the store: a message is put behind those of its
holder, a retrieve leaves the other space alone and hands out messages of its space
in order, and the last retrieve leaves the space empty.  Messages may get lost.
-/
structure MsgStoreIntf.Keeps (intf : MsgStoreIntf σ α)
    (holds : σ → (HolderName → List α) → Prop) : Prop where
  stored : ∀ {store next : σ} {contents : HolderName → List α} {id : MsgLocationId} {msg : α},
    holds store contents → intf.storeMsg store id msg = some next →
    holds next (Function.update contents (getMsgGroupHolder id)
      (contents (getMsgGroupHolder id) ++ [msg]))
  retrieved : ∀ {store next : σ} {contents : HolderName → List α} {space : SpaceName}
    {retrieved : Retrieved α},
    holds store contents →
    intf.retrieveMsg store (spaceOf space).id = some (retrieved, next) →
    ∃ kept, holds next kept ∧
      (∀ side, kept (space.other.entry side) = contents (space.other.entry side)) ∧
      (retrieved.printed ++ (kept (space.entry .left) ++ kept (space.entry .right))).Sublist
        (contents (space.entry .left) ++ contents (space.entry .right)) ∧
      (retrieved.pendingFl = false → ∀ side, kept (space.entry side) = [])

/-- The same place in `onProduce`, with copies for names. -/
inductive ProducePc.Matches :
    ProducePc ProducerSpace Entry α → ProducePc SpaceName Side α → Prop where
  | idle : Matches .idle .idle
  | readCurrent {msg : α} : Matches (.readCurrent msg) (.readCurrent msg)
  | testGate {msg : α} {localSpace : ProducerSpace} {space : SpaceName}
      (copy : CopyOf localSpace space) :
      Matches (.testGate msg localSpace) (.testGate msg space)
  | readOther {msg : α} : Matches (.readOther msg) (.readOther msg)
  | lockMain {msg : α} {otherSpace : ProducerSpace} {space : SpaceName}
      (copy : CopyOf otherSpace space) (notReady : otherSpace.isReady = false) :
      Matches (.lockMain msg otherSpace) (.lockMain msg space)
  | signalSwitch {msg : α} {otherSpace : ProducerSpace} {space : SpaceName}
      (copy : CopyOf otherSpace space) :
      Matches (.signalSwitch msg otherSpace) (.signalSwitch msg space)
  | readSwitch {msg : α} {otherSpace : ProducerSpace} {space : SpaceName}
      (copy : CopyOf otherSpace space) :
      Matches (.readSwitch msg otherSpace) (.readSwitch msg space)
  | writeSwitch {msg : α} {otherSpace : ProducerSpace} {space target : SpaceName}
      (copy : CopyOf otherSpace space) :
      Matches (.writeSwitch msg otherSpace target) (.writeSwitch msg space target)
  | releaseMain {msg : α} {otherSpace : ProducerSpace} {space : SpaceName}
      (copy : CopyOf otherSpace space) :
      Matches (.releaseMain msg otherSpace) (.releaseMain msg space)
  | testConsumerIn {msg : α} {localSpace : ProducerSpace} {space : SpaceName}
      (copy : CopyOf localSpace space) :
      Matches (.testConsumerIn msg localSpace) (.testConsumerIn msg space)
  | signalConsumer {msg : α} {localSpace : ProducerSpace} {space : SpaceName}
      (copy : CopyOf localSpace space) :
      Matches (.signalConsumer msg localSpace) (.signalConsumer msg space)
  | setAccumulate {msg : α} {localSpace : ProducerSpace} {space : SpaceName}
      (copy : CopyOf localSpace space) :
      Matches (.setAccumulate msg localSpace) (.setAccumulate msg space)
  | increment {msg : α} {localSpace : ProducerSpace} {space : SpaceName}
      (copy : CopyOf localSpace space) :
      Matches (.increment msg localSpace) (.increment msg space)
  | tryEntry {msg : α} {localSpace : ProducerSpace} {space : SpaceName} {side : Side}
      (copy : CopyOf localSpace space) :
      Matches (.tryEntry msg localSpace (entryOf space side)) (.tryEntry msg space side)
  | storeMsg {msg : α} {localSpace : ProducerSpace} {space : SpaceName} {side : Side}
      (copy : CopyOf localSpace space) :
      Matches (.storeMsg msg localSpace (entryOf space side)) (.storeMsg msg space side)
  | releaseEntry {msg : α} {localSpace : ProducerSpace} {space : SpaceName} {side : Side}
      (copy : CopyOf localSpace space) :
      Matches (.releaseEntry msg localSpace (entryOf space side)) (.releaseEntry msg space side)
  | decrement {msg : α} {localSpace : ProducerSpace} {space : SpaceName}
      (copy : CopyOf localSpace space) :
      Matches (.decrement msg localSpace) (.decrement msg space)

/-- The same place in the flush loop. -/
inductive ConsumePc.Matches :
    ConsumePc ProducerSpace MsgLocationId → ConsumePc SpaceName SpaceName → Prop where
  | processIncoming : Matches .processIncoming .processIncoming
  | tryConsumerEntry : Matches .tryConsumerEntry .tryConsumerEntry
  | setConsumerIn : Matches .setConsumerIn .setConsumerIn
  | resetConsumerGate : Matches .resetConsumerGate .resetConsumerGate
  | statusAccumulating : Matches .statusAccumulating .statusAccumulating
  | readCurrent : Matches .readCurrent .readCurrent
  | readOther {localSpace : ProducerSpace} {space : SpaceName} (copy : CopyOf localSpace space) :
      Matches (.readOther localSpace) (.readOther space)
  | openOther {localSpace otherSpace : ProducerSpace} {space : SpaceName}
      (copy : CopyOf localSpace space) (otherCopy : CopyOf otherSpace space.other) :
      Matches (.openOther localSpace otherSpace) (.openOther space space.other)
  | closeLocal {localSpace : ProducerSpace} {space : SpaceName} (copy : CopyOf localSpace space) :
      Matches (.closeLocal localSpace) (.closeLocal space)
  | clearConsumerIn {localSpace : ProducerSpace} {space : SpaceName}
      (copy : CopyOf localSpace space) :
      Matches (.clearConsumerIn localSpace) (.clearConsumerIn space)
  | waitThreads {localSpace : ProducerSpace} {space : SpaceName}
      (copy : CopyOf localSpace space) :
      Matches (.waitThreads localSpace) (.waitThreads space)
  | waitLeft {localSpace : ProducerSpace} {space : SpaceName} (copy : CopyOf localSpace space) :
      Matches (.waitLeft localSpace) (.waitLeft space)
  | waitRight {localSpace : ProducerSpace} {space : SpaceName} (copy : CopyOf localSpace space) :
      Matches (.waitRight localSpace) (.waitRight space)
  | setConsuming {localSpace : ProducerSpace} {space : SpaceName}
      (copy : CopyOf localSpace space) :
      Matches (.setConsuming localSpace) (.setConsuming space)
  | statusNormal {space : SpaceName} :
      Matches (.statusNormal (spaceOf space).id) (.statusNormal space)
  | retrieve {space : SpaceName} : Matches (.retrieve (spaceOf space).id) (.retrieve space)
  | send {space : SpaceName} {pending : Bool} :
      Matches (.send (spaceOf space).id pending) (.send space pending)
  | ended : Matches .ended .ended

/-- A state of the code and the state of the protocol that it stands for. -/
structure SyncState.Refines (holds : σ → (HolderName → List α) → Prop)
    (state : SyncState σ α) (protocol : Protocol α) : Prop where
  memory : state.memory.Holds protocol
  space : state.space = spaceOf
  consumerGate : state.consumerGate = consumerGateHandle
  mainGate : state.mainProducerGate = mainGateHandle
  currentSpace : state.currentSpace = protocol.currentSpace
  consumerIn : state.consumerIn = protocol.consumerIn
  contents : holds state.store protocol.contents
  produce : ∀ thread, (state.produce thread).Matches (protocol.produce thread)
  consume : state.consume.Matches protocol.consume
  calls : state.calls = protocol.calls
  handedOut : state.handedOut = protocol.handedOut

namespace SyncState

variable {holds : σ → (HolderName → List α) → Prop} {state next : SyncState σ α}
  {protocol : Protocol α}

/-- `onInitialize` builds the initial state of the protocol, if the store is empty. -/
theorem onInitialize_refines {store : σ} (empty : holds store fun _ => [])
    (initialized : onInitialize store = some state) : state.Refines holds .initial := by
  cases initialized
  refine ⟨⟨?_, ?_, rfl, ?_, rfl⟩, ?_, rfl, rfl, rfl, rfl, empty, fun _ => .idle,
    .processIncoming, rfl, rfl⟩
  · intro space side
    cases space <;> cases side <;> rfl
  · intro space
    cases space <;> rfl
  · intro space side
    cases space <;> cases side <;> rfl
  · funext space
    cases space <;> rfl

theorem Refines.goOn (refines : state.Refines holds protocol) (thread : Thread)
    {pc : ProducePc ProducerSpace Entry α} {protocolPc : ProducePc SpaceName Side α}
    (same : pc.Matches protocolPc) :
    (state.goOn thread pc).Refines holds (protocol.goOn thread protocolPc) where
  memory := refines.memory.congr rfl rfl rfl rfl
  space := refines.space
  consumerGate := refines.consumerGate
  mainGate := refines.mainGate
  currentSpace := refines.currentSpace
  consumerIn := refines.consumerIn
  contents := refines.contents
  produce other := by
    by_cases self : other = thread
    · subst self
      simpa [SyncState.goOn, Protocol.goOn] using same
    · simpa [SyncState.goOn, Protocol.goOn, self] using refines.produce other
  consume := refines.consume
  calls := refines.calls
  handedOut := refines.handedOut

theorem Refines.flushOn (refines : state.Refines holds protocol)
    {pc : ConsumePc ProducerSpace MsgLocationId} {protocolPc : ConsumePc SpaceName SpaceName}
    (same : pc.Matches protocolPc) :
    (state.flushOn pc).Refines holds (protocol.flushOn protocolPc) :=
  { refines with memory := refines.memory.congr rfl rfl rfl rfl, consume := same }

section Memory

variable {memory : SyncMemory}

theorem Refines.writeGate (refines : state.Refines holds protocol) {space : SpaceName}
    {signalled : Bool}
    (written : state.memory.writeEvent (spaceOf space).gate signalled = some memory) :
    Refines holds { state with memory }
      { protocol with gate := Function.update protocol.gate space signalled } :=
  { refines with memory := refines.memory.writeGate written }

theorem Refines.writeConsumerGate (refines : state.Refines holds protocol) {signalled : Bool}
    (written : state.memory.writeEvent state.consumerGate signalled = some memory) :
    Refines holds { state with memory } { protocol with consumerGate := signalled } :=
  { refines with memory := refines.memory.writeConsumerGate (refines.consumerGate ▸ written) }

theorem Refines.writeAccumlateGate (refines : state.Refines holds protocol)
    {space : SpaceName} {signalled : Bool}
    (written : state.memory.writeEvent (spaceOf space).accumlateGate signalled = some memory) :
    Refines holds { state with memory } protocol :=
  { refines with memory := refines.memory.writeAccumlateGate written }

theorem Refines.addCounter (refines : state.Refines holds protocol) {address : ℕ}
    {change : ℤ} (added : state.memory.addCounter address change = some memory) :
    Refines holds { state with memory } protocol :=
  { refines with memory := refines.memory.addCounter added }

theorem Refines.writeLock (refines : state.Refines holds protocol) {space : SpaceName}
    {side : Side} {mutex : Mutex Thread}
    (written : state.memory.writeMutex (entryOf space side).lock mutex = some memory) :
    Refines holds { state with memory }
      { protocol with lock := Function.update protocol.lock (space.entry side) mutex } :=
  { refines with memory := refines.memory.writeLock written }

theorem Refines.writeMainGate (refines : state.Refines holds protocol) {mutex : Mutex Thread}
    (written : state.memory.writeMutex state.mainProducerGate mutex = some memory) :
    Refines holds { state with memory } { protocol with mainGate := mutex } :=
  { refines with memory := refines.memory.writeMainGate (refines.mainGate ▸ written) }

/-- A wait for the lock of an entry that returns acquires the lock. -/
theorem Refines.waitLock (refines : state.Refines holds protocol) {space : SpaceName}
    {side : Side} {thread : Thread}
    (waited : state.memory.waitMutex (entryOf space side).lock thread = some memory) :
    ∃ mutex, (protocol.lock (space.entry side)).acquire thread = some mutex ∧
      Refines holds { state with memory }
        { protocol with lock := Function.update protocol.lock (space.entry side) mutex } := by
  rcases SyncMemory.waitMutex_eq_some waited with ⟨mutex, acquired, held, isAcquired, written⟩
  rw [refines.memory.lock, Option.some.injEq] at held
  subst held
  exact ⟨acquired, isAcquired, refines.writeLock written⟩

end Memory

section Produce

variable {intf : MsgStoreIntf σ α} {thread : Thread}

/-- A step of `onProduce` is one of the protocol. -/
theorem Refines.produceStep (keeps : intf.Keeps holds)
    (refines : state.Refines holds protocol)
    (stepped : state.produceStep intf thread = some next) :
    ∃ protocolNext, protocol.ProduceStep thread protocolNext ∧
      next.Refines holds protocolNext := by
  have same := refines.produce thread
  generalize codePc : state.produce thread = pc at same
  generalize protocolPc : protocol.produce thread = abstractPc at same
  simp only [SyncState.produceStep, codePc] at stepped
  cases same with
  | idle => cases stepped
  | readCurrent =>
      cases stepped
      refine ⟨_, .readCurrent protocolPc, refines.goOn thread ?_⟩
      rw [refines.space, refines.currentSpace]
      exact .testGate (copyOf_spaceOf _)
  | testGate copy =>
      simp only [copy.gate, refines.memory.gate, Option.bind_eq_bind, Option.bind_some] at stepped
      split at stepped
      · rename_i isOpen
        cases stepped
        exact ⟨_, .testGate_open protocolPc isOpen, refines.goOn thread (.testConsumerIn copy)⟩
      · rename_i isClosed
        cases stepped
        exact ⟨_, .testGate_closed protocolPc (by simpa using isClosed),
          refines.goOn thread .readOther⟩
  | readOther =>
      simp only [refines.space, refines.currentSpace, (copyOf_spaceOf _).otherSpace,
        Option.bind_eq_bind, Option.bind_some] at stepped
      cases stepped
      exact ⟨_, .readOther protocolPc, refines.goOn thread (.lockMain (copyOf_spaceOf _) rfl)⟩
  | lockMain copy notReady =>
      rcases Option.bind_eq_some_iff.mp stepped with ⟨memory, waited, result⟩
      rcases SyncMemory.waitMutex_eq_some waited with
        ⟨mutex, acquired, held, isAcquired, written⟩
      rw [refines.mainGate, refines.memory.mainGate, Option.some.injEq] at held
      simp only [notReady, Bool.false_eq_true, if_false] at result
      cases result
      subst held
      exact ⟨_, .lockMain protocolPc isAcquired,
        (refines.writeMainGate written).goOn thread (.signalSwitch copy)⟩
  | signalSwitch copy =>
      rcases Option.bind_eq_some_iff.mp stepped with ⟨memory, written, result⟩
      cases result
      exact ⟨_, .signalSwitch protocolPc,
        (refines.writeConsumerGate written).goOn thread (.readSwitch (copy.setReady true))⟩
  | readSwitch copy =>
      simp only [refines.space, refines.currentSpace, (copyOf_spaceOf _).otherSpace,
        Option.bind_eq_bind, Option.bind_some] at stepped
      cases stepped
      exact ⟨_, .readSwitch protocolPc, refines.goOn thread (.writeSwitch copy)⟩
  | writeSwitch copy =>
      rename_i target
      cases stepped
      have switched : Refines holds { state with currentSpace := target }
          { protocol with currentSpace := target } :=
        { refines with memory := refines.memory.congr rfl rfl rfl rfl, currentSpace := rfl }
      exact ⟨_, .writeSwitch protocolPc, switched.goOn thread (.releaseMain copy)⟩
  | releaseMain copy =>
      rcases Option.bind_eq_some_iff.mp stepped with ⟨memory, released, result⟩
      rcases SyncMemory.releaseMutex_eq_some released with ⟨mutex, held, written⟩
      rw [refines.mainGate, refines.memory.mainGate, Option.some.injEq] at held
      cases result
      subst held
      exact ⟨_, .releaseMain protocolPc,
        (refines.writeMainGate written).goOn thread (.setAccumulate copy)⟩
  | testConsumerIn copy =>
      simp only [refines.consumerIn] at stepped
      split at stepped
      · rename_i isIn
        cases stepped
        exact ⟨_, .testConsumerIn_in protocolPc isIn, refines.goOn thread (.setAccumulate copy)⟩
      · rename_i isOut
        cases stepped
        exact ⟨_, .testConsumerIn_out protocolPc (by simpa using isOut),
          refines.goOn thread (.signalConsumer copy)⟩
  | signalConsumer copy =>
      rcases Option.bind_eq_some_iff.mp stepped with ⟨memory, written, result⟩
      cases result
      exact ⟨_, .signalConsumer protocolPc,
        (refines.writeConsumerGate written).goOn thread (.setAccumulate copy)⟩
  | setAccumulate copy =>
      rcases Option.bind_eq_some_iff.mp stepped with ⟨memory, written, result⟩
      rw [copy.accumlateGate] at written
      cases result
      exact ⟨_, .setAccumulate protocolPc,
        (refines.writeAccumlateGate written).goOn thread (.increment copy)⟩
  | increment copy =>
      rcases Option.bind_eq_some_iff.mp stepped with ⟨memory, added, result⟩
      rw [copy.leftEntry] at result
      cases result
      exact ⟨_, .increment protocolPc,
        (refines.addCounter added).goOn thread (.tryEntry copy)⟩
  | tryEntry copy =>
      rename_i space side
      simp only [refines.memory.lock, Option.bind_eq_bind, Option.bind_some] at stepped
      cases isAcquired : (protocol.lock (space.entry side)).acquire thread with
      | some acquired =>
          rw [isAcquired] at stepped
          rcases Option.bind_eq_some_iff.mp stepped with ⟨memory, written, result⟩
          cases result
          exact ⟨_, .tryEntry_acquired protocolPc isAcquired,
            (refines.writeLock written).goOn thread (.storeMsg copy)⟩
      | none =>
          simp only [isAcquired, refines.memory.otherEntry, Option.bind_some] at stepped
          cases stepped
          exact ⟨_, .tryEntry_timeout protocolPc isAcquired,
            refines.goOn thread (.tryEntry copy)⟩
  | storeMsg copy =>
      rename_i msg _ space side
      rcases Option.bind_eq_some_iff.mp stepped with ⟨store, stored, result⟩
      have isStored := keeps.stored refines.contents stored
      rw [copy.id, getMsgGroupHolder_entry] at isStored
      cases result
      have storing : Refines holds { state with store }
          { protocol with
            contents := Function.update protocol.contents (space.entry side)
              (protocol.contents (space.entry side) ++ [msg]) } :=
        { refines with memory := refines.memory.congr rfl rfl rfl rfl, contents := isStored }
      exact ⟨_, .storeMsg protocolPc, storing.goOn thread (.releaseEntry copy)⟩
  | releaseEntry copy =>
      rcases Option.bind_eq_some_iff.mp stepped with ⟨memory, released, result⟩
      rcases SyncMemory.releaseMutex_eq_some released with ⟨mutex, held, written⟩
      rw [refines.memory.lock, Option.some.injEq] at held
      cases result
      subst held
      exact ⟨_, .releaseEntry protocolPc,
        (refines.writeLock written).goOn thread (.decrement copy)⟩
  | decrement copy =>
      rename_i msg _ _
      rcases Option.bind_eq_some_iff.mp stepped with ⟨memory, added, result⟩
      cases result
      have returned : Refines holds
          { state with memory, calls := state.calls ++ [.returned thread msg] }
          { protocol with calls := protocol.calls ++ [.returned thread msg] } :=
        { refines with
          memory := (refines.memory.addCounter added).congr rfl rfl rfl rfl
          calls := by rw [refines.calls] }
      exact ⟨_, .decrement protocolPc, returned.goOn thread .idle⟩

end Produce

section Consume

variable {intf : MsgStoreIntf σ α} {result : ConsumeResult}

theorem afterRetrieve_matches (space : SpaceName) (pending : Bool) :
    (afterRetrieve (spaceOf space).id pending).Matches (afterRetrieve space pending) := by
  cases pending
  · exact .processIncoming
  · exact .retrieve

theorem Refines.idle {thread : Thread} (refines : state.Refines holds protocol)
    (idle : state.produce thread = .idle) : protocol.produce thread = .idle := by
  have same := refines.produce thread
  rw [idle] at same
  generalize protocol.produce thread = abstractPc at same
  cases same
  rfl

theorem Refines.idle_code (refines : state.Refines holds protocol) {thread : Thread}
    (idle : protocol.produce thread = .idle) : state.produce thread = .idle := by
  have same := refines.produce thread
  rw [idle] at same
  generalize state.produce thread = pc at same
  cases same
  rfl

/-- The agent thread takes no step of the flush loop while it is in `onProduce`. -/
theorem idle_of_consumeStep (stepped : state.consumeStep intf result = some next) :
    state.produce .agent = .idle := by
  unfold SyncState.consumeStep at stepped
  split at stepped <;> first | assumption | cases stepped

/-- A step of the flush loop is one of the protocol. -/
theorem Refines.consumeStep (keeps : intf.Keeps holds)
    (refines : state.Refines holds protocol)
    (stepped : state.consumeStep intf result = some next) :
    ∃ protocolNext, protocol.Step (.consume result) protocolNext ∧
      next.Refines holds protocolNext := by
  have codeIdle := idle_of_consumeStep stepped
  have idle := refines.idle codeIdle
  have same := refines.consume
  generalize codePc : state.consume = pc at same
  generalize protocolPc : protocol.consume = abstractPc at same
  simp only [SyncState.consumeStep, codeIdle, codePc] at stepped
  cases same with
  | processIncoming =>
      cases result <;> cases stepped
      exact ⟨_, .consume idle (.processIncoming protocolPc), refines.flushOn .tryConsumerEntry⟩
  | tryConsumerEntry =>
      cases result with
      | done =>
          simp only [refines.consumerGate, refines.memory.consumerGate, Option.bind_eq_bind,
            Option.bind_some] at stepped
          split at stepped
          · rename_i signalled
            cases stepped
            exact ⟨_, .consume idle (.entered protocolPc signalled),
              refines.flushOn .setConsumerIn⟩
          · cases stepped
      | timeout =>
          simp only [refines.consumerGate, refines.memory.consumerGate, Option.bind_eq_bind,
            Option.bind_some] at stepped
          split at stepped <;> cases stepped
          exact ⟨_, .consume idle (.timeout protocolPc), refines.flushOn .processIncoming⟩
      | socketError => cases stepped
  | setConsumerIn =>
      cases result <;> cases stepped
      have written : Refines holds { state with consumerIn := true }
          { protocol with consumerIn := true } :=
        { refines with memory := refines.memory.congr rfl rfl rfl rfl, consumerIn := rfl }
      exact ⟨_, .consume idle (.setConsumerIn protocolPc), written.flushOn .resetConsumerGate⟩
  | resetConsumerGate =>
      cases result with
      | done =>
          rcases Option.bind_eq_some_iff.mp stepped with ⟨memory, written, result⟩
          cases result
          exact ⟨_, .consume idle (.resetConsumerGate protocolPc),
            (refines.writeConsumerGate written).flushOn .statusAccumulating⟩
      | timeout | socketError => cases stepped
  | statusAccumulating =>
      cases result <;> cases stepped
      exact ⟨_, .consume idle (.statusAccumulating protocolPc), refines.flushOn .readCurrent⟩
  | readCurrent =>
      cases result <;> cases stepped
      refine ⟨_, .consume idle (.readCurrent protocolPc), refines.flushOn ?_⟩
      rw [refines.space, refines.currentSpace]
      exact .readOther (copyOf_spaceOf _)
  | readOther copy =>
      cases result with
      | done =>
          simp only [copy.otherSpace, refines.space, Option.bind_eq_bind, Option.bind_some]
            at stepped
          cases stepped
          exact ⟨_, .consume idle (.readOther protocolPc),
            refines.flushOn (.openOther copy ((copyOf_spaceOf _).setReady false))⟩
      | timeout | socketError => cases stepped
  | openOther copy otherCopy =>
      cases result with
      | done =>
          rcases Option.bind_eq_some_iff.mp stepped with ⟨memory, written, result⟩
          rw [otherCopy.gate] at written
          cases result
          exact ⟨_, .consume idle (.openOther protocolPc),
            (refines.writeGate written).flushOn (.closeLocal copy)⟩
      | timeout | socketError => cases stepped
  | closeLocal copy =>
      cases result with
      | done =>
          rcases Option.bind_eq_some_iff.mp stepped with ⟨memory, written, result⟩
          rw [copy.gate] at written
          cases result
          exact ⟨_, .consume idle (.closeLocal protocolPc),
            (refines.writeGate written).flushOn (.clearConsumerIn copy)⟩
      | timeout | socketError => cases stepped
  | clearConsumerIn copy =>
      cases result <;> cases stepped
      have written : Refines holds { state with consumerIn := false }
          { protocol with consumerIn := false } :=
        { refines with memory := refines.memory.congr rfl rfl rfl rfl, consumerIn := rfl }
      exact ⟨_, .consume idle (.clearConsumerIn protocolPc),
        written.flushOn (.waitThreads copy)⟩
  | waitThreads copy =>
      cases result with
      | done =>
          rcases Option.bind_eq_some_iff.mp stepped with ⟨threads, -, result⟩
          split at result <;> cases result
          · exact ⟨_, .consume idle (.waitThreads protocolPc),
              refines.flushOn (.waitLeft copy)⟩
          · exact ⟨_, .sleep idle protocolPc, refines⟩
      | timeout | socketError => cases stepped
  | waitLeft copy =>
      cases result with
      | done =>
          rcases Option.bind_eq_some_iff.mp stepped with ⟨memory, waited, result⟩
          rw [copy.leftEntry] at waited
          rcases refines.waitLock waited with ⟨mutex, isAcquired, locked⟩
          cases result
          exact ⟨_, .consume idle (.waitLeft protocolPc isAcquired),
            locked.flushOn (.waitRight copy)⟩
      | timeout | socketError => cases stepped
  | waitRight copy =>
      cases result with
      | done =>
          rcases Option.bind_eq_some_iff.mp stepped with ⟨memory, waited, result⟩
          rw [copy.rightEntry] at waited
          rcases refines.waitLock waited with ⟨mutex, isAcquired, locked⟩
          cases result
          exact ⟨_, .consume idle (.waitRight protocolPc isAcquired),
            locked.flushOn (.setConsuming copy)⟩
      | timeout | socketError => cases stepped
  | setConsuming copy =>
      rename_i localSpace _
      cases result <;> cases stepped
      have consuming : Refines holds { state with consumingSpace := some localSpace }
          protocol := { refines with }
      rw [copy.id]
      exact ⟨_, .consume idle (.setConsuming protocolPc), consuming.flushOn .statusNormal⟩
  | statusNormal =>
      cases result <;> cases stepped
      exact ⟨_, .consume idle (.statusNormal protocolPc), refines.flushOn .retrieve⟩
  | retrieve =>
      rename_i space
      cases result with
      | done =>
          rcases Option.bind_eq_some_iff.mp stepped with
            ⟨⟨retrieved, store⟩, handed, result⟩
          rcases keeps.retrieved refines.contents handed with
            ⟨kept, isKept, others, order, complete⟩
          have emptied (printed : List α) : Refines holds
              { state with store, handedOut := state.handedOut ++ printed }
              { protocol with contents := kept, handedOut := protocol.handedOut ++ printed } :=
            { refines with
              memory := refines.memory.congr rfl rfl rfl rfl
              contents := isKept
              handedOut := by rw [refines.handedOut] }
          simp only at result
          split at result
          · cases result
            exact ⟨_, .consume idle (@Protocol.ConsumeStep.retrieve _ _ _ _ true _ _ protocolPc
              others order complete), (emptied retrieved.printed).flushOn .send⟩
          · cases result
            have inOrder := (List.sublist_append_right retrieved.printed _).trans order
            have silent := (emptied []).flushOn
              (afterRetrieve_matches space retrieved.pendingFl)
            rw [List.append_nil] at silent
            exact ⟨_, .consume idle (@Protocol.ConsumeStep.retrieve _ _ _ _ false [] _ protocolPc
              others inOrder complete), silent⟩
      | timeout | socketError => cases stepped
  | send =>
      cases result with
      | done =>
          cases stepped
          exact ⟨_, .consume idle (.sent protocolPc),
            refines.flushOn (afterRetrieve_matches _ _)⟩
      | timeout => cases stepped
      | socketError =>
          cases stepped
          exact ⟨_, .sendError idle protocolPc, refines.flushOn .processIncoming⟩
  | ended => cases result <;> cases stepped

end Consume

section Runs

variable {intf : MsgStoreIntf σ α}

theorem Refines.exitStep (refines : state.Refines holds protocol)
    (stepped : state.exitStep = some next) :
    ∃ protocolNext, protocol.Step .exit protocolNext ∧ next.Refines holds protocolNext := by
  unfold SyncState.exitStep at stepped
  split at stepped
  · rename_i codeIdle
    split at stepped
    · rename_i mayExit
      cases stepped
      have mayExit : MayExit protocol.consume = true := by
        have same := refines.consume
        generalize codePc : state.consume = pc at same mayExit
        generalize protocol.consume = abstractPc at same
        cases same <;> first | rfl | exact mayExit
      have abandoned : Refines holds
          { state with
            memory :=
              { state.memory with mutexes := state.memory.mutexes.map (Mutex.abandon .agent) } }
          { protocol with lock := fun name => (protocol.lock name).abandon .agent
                          mainGate := protocol.mainGate.abandon .agent } :=
        { refines with memory := refines.memory.abandon .agent }
      exact ⟨_, .exit (refines.idle codeIdle) mayExit, abandoned.flushOn .ended⟩
    · cases stepped
  · cases stepped

theorem mem_calledMsgs {msg : α} :
    msg ∈ state.calledMsgs ↔ ∃ thread, .called thread msg ∈ state.calls := by
  simp only [calledMsgs, List.mem_filterMap]
  constructor
  · rintro ⟨event, listed, isMsg⟩
    cases event with
    | called thread other =>
        simp only [Option.some.injEq] at isMsg
        exact ⟨thread, isMsg ▸ listed⟩
    | returned thread other => cases isMsg
  · rintro ⟨thread, listed⟩
    exact ⟨_, listed, rfl⟩

variable [DecidableEq α]

/-- What a call needs: the thread is not in `onProduce`, and the agent thread is at a command. -/
theorem callStep_eq_some {thread : Thread} {msg : α}
    (stepped : state.callStep thread msg = some next) :
    state.produce thread = .idle ∧
      (thread = .agent → state.consume = .processIncoming) ∧ msg ∉ state.calledMsgs ∧
      next = goOn { state with calls := state.calls ++ [.called thread msg] } thread
        (.readCurrent msg) := by
  unfold SyncState.callStep at stepped
  split at stepped
  · rename_i atCommand idle
    split at stepped <;> cases stepped
    exact ⟨idle, fun _ => atCommand, by assumption, rfl⟩
  · rename_i idle
    split at stepped <;> cases stepped
    refine ⟨idle, fun isAgent => ?_, by assumption, rfl⟩
    cases isAgent
  · cases stepped

theorem Refines.callStep (refines : state.Refines holds protocol) {thread : Thread} {msg : α}
    (stepped : state.callStep thread msg = some next) :
    ∃ protocolNext, protocol.Step (.call thread msg) protocolNext ∧
      next.Refines holds protocolNext := by
  rcases callStep_eq_some stepped with ⟨codeIdle, codeCommand, own, rfl⟩
  have atCommand : thread = .agent → protocol.consume = .processIncoming := by
    intro isAgent
    have same := refines.consume
    rw [codeCommand isAgent] at same
    generalize protocol.consume = abstractPc at same
    cases same
    rfl
  have called : Refines holds { state with calls := state.calls ++ [.called thread msg] }
      { protocol with calls := protocol.calls ++ [.called thread msg] } :=
    { refines with memory := refines.memory.congr rfl rfl rfl rfl, calls := by rw [refines.calls] }
  refine ⟨_, .call (refines.idle codeIdle) atCommand (fun caller listed => ?_),
    called.goOn thread .readCurrent⟩
  rw [← refines.calls] at listed
  exact own (mem_calledMsgs.mpr ⟨caller, listed⟩)

/-- A step of the code is a step of the protocol. -/
theorem Refines.step (keeps : intf.Keeps holds) (refines : state.Refines holds protocol)
    {action : SyncAction α} (stepped : state.step intf action = some next) :
    ∃ protocolNext, protocol.Step action protocolNext ∧ next.Refines holds protocolNext := by
  cases action with
  | call thread msg => exact refines.callStep stepped
  | produce thread =>
      rcases refines.produceStep keeps stepped with ⟨_, protocolStep, nextRefines⟩
      exact ⟨_, .produce protocolStep, nextRefines⟩
  | consume result => exact refines.consumeStep keeps stepped
  | exit => exact refines.exitStep stepped

/-- The induction rule for runs of the code: an invariant of the protocol holds where it gets. -/
theorem Refines.run {allowed : SyncState σ α → SyncAction α → Prop}
    (invariant : Protocol α → Prop) (keeps : intf.Keeps holds)
    (kept : ∀ state protocol action next protocolNext, state.Refines holds protocol →
      next.Refines holds protocolNext → allowed state action → state.step intf action = some next →
      invariant protocol → protocol.Step action protocolNext → invariant protocolNext)
    {final : SyncState σ α} {actions : List (SyncAction α)}
    (meets : Transition.StepsMeet (SyncState.step intf) allowed state actions)
    (refines : state.Refines holds protocol) (start : invariant protocol)
    (run : Transition.runFrom (SyncState.step intf) state actions = some final) :
    ∃ protocolFinal, final.Refines holds protocolFinal ∧ invariant protocolFinal := by
  induction actions generalizing state protocol with
  | nil =>
      simp only [Transition.runFrom_nil, Option.some.injEq] at run
      exact ⟨protocol, run ▸ refines, start⟩
  | cons action actions ih =>
      rcases Transition.runFrom_cons_eq_some.mp run with ⟨next, stepped, rest⟩
      rcases refines.step keeps stepped with ⟨protocolNext, protocolStep, nextRefines⟩
      exact ih (meets.2 next stepped) nextRefines
        (kept _ _ _ _ _ refines nextRefines meets.1 stepped start protocolStep) rest

end Runs

end SyncState

end HeapScan
