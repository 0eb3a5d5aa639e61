import HeapScan.Synchronizer.Basic

/-!
# The protocol of the synchronizer

What the threads do to each other, without handles and copies: two spaces with a
gate each, a lock and a list of messages for each entry, the consumer's gate, and
the order in which a thread looks at them.  The steps are those of the C code
except that nothing here can fail, and that a retrieve may hand out any part of
the messages that is in order.
-/

namespace HeapScan

/-- The entries of a space. -/
inductive Side where
  | left
  | right
deriving DecidableEq

def Side.other : Side → Side
  | left => right
  | right => left

namespace SpaceName

def other : SpaceName → SpaceName
  | leftProducerSpace => rightProducerSpace
  | rightProducerSpace => leftProducerSpace

/-- The holder of an entry of the space. -/
def entry : SpaceName → Side → HolderName
  | leftProducerSpace, .left => .leftSpaceLeftEntry
  | leftProducerSpace, .right => .leftSpaceRightEntry
  | rightProducerSpace, .left => .rightSpaceLeftEntry
  | rightProducerSpace, .right => .rightSpaceRightEntry

@[simp]
theorem other_other (space : SpaceName) : space.other.other = space := by
  cases space <;> rfl

@[simp]
theorem other_ne (space : SpaceName) : space.other ≠ space := by
  cases space <;> simp [other]

@[simp]
theorem ne_other (space : SpaceName) : space ≠ space.other := space.other_ne.symm

theorem eq_other_of_ne {one two : SpaceName} (different : one ≠ two) : one = two.other := by
  cases one <;> cases two <;> simp_all [other]

theorem entry_injective {one two : SpaceName} {side otherSide : Side}
    (same : one.entry side = two.entry otherSide) : one = two ∧ side = otherSide := by
  cases one <;> cases two <;> cases side <;> cases otherSide <;> simp_all [entry]

@[simp]
theorem entry_inj {one two : SpaceName} {side otherSide : Side} :
    one.entry side = two.entry otherSide ↔ one = two ∧ side = otherSide :=
  ⟨entry_injective, fun ⟨spaces, sides⟩ => by rw [spaces, sides]⟩

theorem exists_entry (name : HolderName) : ∃ space side, SpaceName.entry space side = name := by
  cases name
  · exact ⟨leftProducerSpace, .left, rfl⟩
  · exact ⟨leftProducerSpace, .right, rfl⟩
  · exact ⟨rightProducerSpace, .left, rfl⟩
  · exact ⟨rightProducerSpace, .right, rfl⟩

end SpaceName

/-- The state of the protocol. -/
structure Protocol (α : Type) where
  currentSpace : SpaceName
  gate : SpaceName → Bool
  consumerGate : Bool
  consumerIn : Bool
  mainGate : Mutex Thread
  lock : HolderName → Mutex Thread
  contents : HolderName → List α
  produce : Thread → ProducePc SpaceName Side α
  consume : ConsumePc SpaceName SpaceName
  calls : List (CallEvent α)
  handedOut : List α

namespace Protocol

variable {α : Type}

/-- Both gates are open, nothing is locked or stored, and no thread has begun. -/
def initial : Protocol α where
  currentSpace := .leftProducerSpace
  gate _ := true
  consumerGate := false
  consumerIn := false
  mainGate := .free
  lock _ := .free
  contents _ := []
  produce _ := .idle
  consume := .processIncoming
  calls := []
  handedOut := []

def goOn (state : Protocol α) (thread : Thread) (pc : ProducePc SpaceName Side α) : Protocol α :=
  { state with produce := Function.update state.produce thread pc }

def flushOn (state : Protocol α) (pc : ConsumePc SpaceName SpaceName) : Protocol α :=
  { state with consume := pc }

@[simp]
theorem goOn_self (state : Protocol α) (thread : Thread) (pc : ProducePc SpaceName Side α) :
    (state.goOn thread pc).produce thread = pc := Function.update_self ..

theorem goOn_of_ne (state : Protocol α) {thread other : Thread} (different : other ≠ thread)
    (pc : ProducePc SpaceName Side α) :
    (state.goOn thread pc).produce other = state.produce other :=
  Function.update_of_ne different ..

/-- The messages of a space in the order in which a drain concatenates them. -/
def waiting (state : Protocol α) (space : SpaceName) : List α :=
  state.contents (space.entry .left) ++ state.contents (space.entry .right)

/-- A step of `onProduce`. -/
inductive ProduceStep (state : Protocol α) (thread : Thread) : Protocol α → Prop where
  | readCurrent {msg : α} (pc : state.produce thread = .readCurrent msg) :
      ProduceStep state thread (state.goOn thread (.testGate msg state.currentSpace))
  | testGate_open {msg : α} {space : SpaceName} (pc : state.produce thread = .testGate msg space)
      (isOpen : state.gate space = true) :
      ProduceStep state thread (state.goOn thread (.testConsumerIn msg space))
  | testGate_closed {msg : α} {space : SpaceName}
      (pc : state.produce thread = .testGate msg space) (isClosed : state.gate space = false) :
      ProduceStep state thread (state.goOn thread (.readOther msg))
  | readOther {msg : α} (pc : state.produce thread = .readOther msg) :
      ProduceStep state thread (state.goOn thread (.lockMain msg state.currentSpace.other))
  | lockMain {msg : α} {space : SpaceName} {mutex : Mutex Thread}
      (pc : state.produce thread = .lockMain msg space)
      (acquired : state.mainGate.acquire thread = some mutex) :
      ProduceStep state thread
        (goOn { state with mainGate := mutex } thread (.signalSwitch msg space))
  | signalSwitch {msg : α} {space : SpaceName}
      (pc : state.produce thread = .signalSwitch msg space) :
      ProduceStep state thread
        (goOn { state with consumerGate := true } thread (.readSwitch msg space))
  | readSwitch {msg : α} {space : SpaceName}
      (pc : state.produce thread = .readSwitch msg space) :
      ProduceStep state thread
        (state.goOn thread (.writeSwitch msg space state.currentSpace.other))
  | writeSwitch {msg : α} {space target : SpaceName}
      (pc : state.produce thread = .writeSwitch msg space target) :
      ProduceStep state thread
        (goOn { state with currentSpace := target } thread (.releaseMain msg space))
  | releaseMain {msg : α} {space : SpaceName}
      (pc : state.produce thread = .releaseMain msg space) :
      ProduceStep state thread
        (goOn { state with mainGate := state.mainGate.release thread } thread
          (.setAccumulate msg space))
  | testConsumerIn_in {msg : α} {space : SpaceName}
      (pc : state.produce thread = .testConsumerIn msg space) (isIn : state.consumerIn = true) :
      ProduceStep state thread (state.goOn thread (.setAccumulate msg space))
  | testConsumerIn_out {msg : α} {space : SpaceName}
      (pc : state.produce thread = .testConsumerIn msg space) (isOut : state.consumerIn = false) :
      ProduceStep state thread (state.goOn thread (.signalConsumer msg space))
  | signalConsumer {msg : α} {space : SpaceName}
      (pc : state.produce thread = .signalConsumer msg space) :
      ProduceStep state thread
        (goOn { state with consumerGate := true } thread (.setAccumulate msg space))
  | setAccumulate {msg : α} {space : SpaceName}
      (pc : state.produce thread = .setAccumulate msg space) :
      ProduceStep state thread (state.goOn thread (.increment msg space))
  | increment {msg : α} {space : SpaceName} (pc : state.produce thread = .increment msg space) :
      ProduceStep state thread (state.goOn thread (.tryEntry msg space .left))
  | tryEntry_acquired {msg : α} {space : SpaceName} {side : Side} {mutex : Mutex Thread}
      (pc : state.produce thread = .tryEntry msg space side)
      (acquired : (state.lock (space.entry side)).acquire thread = some mutex) :
      ProduceStep state thread
        (goOn { state with lock := Function.update state.lock (space.entry side) mutex } thread
          (.storeMsg msg space side))
  | tryEntry_timeout {msg : α} {space : SpaceName} {side : Side}
      (pc : state.produce thread = .tryEntry msg space side)
      (busy : (state.lock (space.entry side)).acquire thread = none) :
      ProduceStep state thread (state.goOn thread (.tryEntry msg space side.other))
  | storeMsg {msg : α} {space : SpaceName} {side : Side}
      (pc : state.produce thread = .storeMsg msg space side) :
      ProduceStep state thread
        (goOn
          { state with
            contents := Function.update state.contents (space.entry side)
              (state.contents (space.entry side) ++ [msg]) }
          thread (.releaseEntry msg space side))
  | releaseEntry {msg : α} {space : SpaceName} {side : Side}
      (pc : state.produce thread = .releaseEntry msg space side) :
      ProduceStep state thread
        (goOn
          { state with
            lock := Function.update state.lock (space.entry side)
              ((state.lock (space.entry side)).release thread) }
          thread (.decrement msg space))
  | decrement {msg : α} {space : SpaceName} (pc : state.produce thread = .decrement msg space) :
      ProduceStep state thread
        (goOn { state with calls := state.calls ++ [.returned thread msg] } thread .idle)

/-- A step of the flush loop. -/
inductive ConsumeStep (state : Protocol α) : Protocol α → Prop where
  | processIncoming (pc : state.consume = .processIncoming) :
      ConsumeStep state (state.flushOn .tryConsumerEntry)
  | entered (pc : state.consume = .tryConsumerEntry) (signalled : state.consumerGate = true) :
      ConsumeStep state (state.flushOn .setConsumerIn)
  | timeout (pc : state.consume = .tryConsumerEntry) :
      ConsumeStep state (state.flushOn .processIncoming)
  | setConsumerIn (pc : state.consume = .setConsumerIn) :
      ConsumeStep state (flushOn { state with consumerIn := true } .resetConsumerGate)
  | resetConsumerGate (pc : state.consume = .resetConsumerGate) :
      ConsumeStep state (flushOn { state with consumerGate := false } .statusAccumulating)
  | statusAccumulating (pc : state.consume = .statusAccumulating) :
      ConsumeStep state (state.flushOn .readCurrent)
  | readCurrent (pc : state.consume = .readCurrent) :
      ConsumeStep state (state.flushOn (.readOther state.currentSpace))
  | readOther {space : SpaceName} (pc : state.consume = .readOther space) :
      ConsumeStep state (state.flushOn (.openOther space space.other))
  | openOther {space other : SpaceName} (pc : state.consume = .openOther space other) :
      ConsumeStep state
        (flushOn { state with gate := Function.update state.gate other true } (.closeLocal space))
  | closeLocal {space : SpaceName} (pc : state.consume = .closeLocal space) :
      ConsumeStep state
        (flushOn { state with gate := Function.update state.gate space false }
          (.clearConsumerIn space))
  | clearConsumerIn {space : SpaceName} (pc : state.consume = .clearConsumerIn space) :
      ConsumeStep state (flushOn { state with consumerIn := false } (.waitThreads space))
  | waitThreads {space : SpaceName} (pc : state.consume = .waitThreads space) :
      ConsumeStep state (state.flushOn (.waitLeft space))
  | waitLeft {space : SpaceName} {mutex : Mutex Thread} (pc : state.consume = .waitLeft space)
      (acquired : (state.lock (space.entry .left)).acquire .agent = some mutex) :
      ConsumeStep state
        (flushOn { state with lock := Function.update state.lock (space.entry .left) mutex }
          (.waitRight space))
  | waitRight {space : SpaceName} {mutex : Mutex Thread} (pc : state.consume = .waitRight space)
      (acquired : (state.lock (space.entry .right)).acquire .agent = some mutex) :
      ConsumeStep state
        (flushOn { state with lock := Function.update state.lock (space.entry .right) mutex }
          (.setConsuming space))
  | setConsuming {space : SpaceName} (pc : state.consume = .setConsuming space) :
      ConsumeStep state (state.flushOn (.statusNormal space))
  | statusNormal {space : SpaceName} (pc : state.consume = .statusNormal space) :
      ConsumeStep state (state.flushOn (.retrieve space))
  | retrieve {space : SpaceName} {pending sends : Bool} {printed : List α}
      {contents : HolderName → List α} (pc : state.consume = .retrieve space)
      (others : ∀ side, contents (space.other.entry side) =
        state.contents (space.other.entry side))
      (order : (printed ++ (contents (space.entry .left) ++ contents (space.entry .right))).Sublist
        (state.waiting space))
      (complete : pending = false → ∀ side, contents (space.entry side) = []) :
      ConsumeStep state
        (flushOn { state with contents, handedOut := state.handedOut ++ printed }
          (if sends then .send space pending else SyncState.afterRetrieve space pending))
  | sent {space : SpaceName} {pending : Bool} (pc : state.consume = .send space pending) :
      ConsumeStep state (state.flushOn (SyncState.afterRetrieve space pending))

/-- A step of the protocol, under the action that takes it. -/
inductive Step (state : Protocol α) : SyncAction α → Protocol α → Prop where
  | call {thread : Thread} {msg : α} (idle : state.produce thread = .idle)
      (atCommand : thread = .agent → state.consume = .processIncoming)
      (own : ∀ caller, .called caller msg ∉ state.calls) :
      Step state (.call thread msg)
        (goOn { state with calls := state.calls ++ [.called thread msg] } thread
          (.readCurrent msg))
  | produce {thread : Thread} {next : Protocol α} (step : ProduceStep state thread next) :
      Step state (.produce thread) next
  | sleep {space : SpaceName} {result : ConsumeResult} (idle : state.produce .agent = .idle)
      (pc : state.consume = .waitThreads space) : Step state (.consume result) state
  | consume {result : ConsumeResult} {next : Protocol α} (idle : state.produce .agent = .idle)
      (step : ConsumeStep state next) : Step state (.consume result) next
  | sendError {space : SpaceName} {pending : Bool} (idle : state.produce .agent = .idle)
      (pc : state.consume = .send space pending) :
      Step state (.consume .socketError) (state.flushOn .processIncoming)
  | exit (idle : state.produce .agent = .idle) (mayExit : SyncState.MayExit state.consume = true) :
      Step state .exit
        (flushOn { state with lock := fun name => (state.lock name).abandon .agent
                              mainGate := state.mainGate.abandon .agent } .ended)

end Protocol

end HeapScan
