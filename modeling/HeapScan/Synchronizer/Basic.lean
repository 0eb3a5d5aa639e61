import HeapScan.Library.Heap
import HeapScan.Library.Mutex
import HeapScan.Library.Runs
import HeapScan.MessageStore.Basic

/-!
# The synchronizer

Producers leave messages in one of two spaces, in the left or the right entry of
it, while the agent thread consumes the other space.  A step of a thread is one
Win32 call or one access to a shared variable; the structures are copied where the
C code copies them, and locks and gates are reached through handles.

`accumulateMessage` is left out: the store sets `accumulate` to FALSE.
-/

namespace HeapScan

/-- The threads: the agent thread, which consumes, and any number of others. -/
inductive Thread where
  | agent
  | other (index : ℕ)
deriving DecidableEq

/-- A Win32 event. -/
structure Event where
  manualReset : Bool
  signalled : Bool

/-- The static variables of type `struct ProducerSpace`. -/
inductive SpaceName where
  | leftProducerSpace
  | rightProducerSpace
deriving DecidableEq

structure Entry where
  id : MsgLocationId
  lock : ℕ
  /-- The address of a copy of the other entry. -/
  otherEntry : ℕ
deriving DecidableEq

structure MessageQueue where
  leftEntry : Entry
  rightEntry : Entry
deriving DecidableEq

structure ProducerSpace where
  threads : ℕ
  id : MsgLocationId
  gate : ℕ
  accumlateGate : ℕ
  isReady : Bool
  messageQueue : MessageQueue
  /-- Not set before `onInitialize` sets it. -/
  otherSpace : Option SpaceName
deriving DecidableEq

/-- What the synchronizer and the flush loop call of the message store. -/
structure MsgStoreIntf (σ α : Type) where
  storeMsg : σ → MsgLocationId → α → Option σ
  retrieveMsg : σ → MsgLocationId → Option (Retrieved α × σ)

/-- Allocated memory and kernel objects, by address and by handle. -/
structure SyncMemory where
  entries : Heap Entry
  counters : Heap ℤ
  mutexes : Heap (Mutex Thread)
  events : Heap Event

namespace SyncMemory

def empty : SyncMemory where
  entries := .empty
  counters := .empty
  mutexes := .empty
  events := .empty

/-- `createMutex(FALSE)`. -/
def createMutex (memory : SyncMemory) : ℕ × SyncMemory :=
  (memory.mutexes.fresh, { memory with mutexes := memory.mutexes.alloc .free })

def createEvent (memory : SyncMemory) (manualReset initialState : Bool) : ℕ × SyncMemory :=
  (memory.events.fresh,
    { memory with events := memory.events.alloc { manualReset, signalled := initialState } })

/-- `allocateMemory(entrySz)`; what the cell holds is not yet meant. -/
def allocateEntry (memory : SyncMemory) : ℕ × SyncMemory :=
  (memory.entries.fresh,
    { memory with entries := memory.entries.alloc { id := 0, lock := 0, otherEntry := 0 } })

def allocateCounter (memory : SyncMemory) (value : ℤ) : ℕ × SyncMemory :=
  (memory.counters.fresh, { memory with counters := memory.counters.alloc value })

def writeEntry (memory : SyncMemory) (address : ℕ) (entry : Entry) : Option SyncMemory := do
  let entries ← memory.entries.modify address fun _ => entry
  some { memory with entries }

/-- `SetEvent` and `ResetEvent`. -/
def writeEvent (memory : SyncMemory) (handle : ℕ) (signalled : Bool) : Option SyncMemory := do
  let events ← memory.events.modify handle fun event => { event with signalled }
  some { memory with events }

/-- `InterlockedIncrement` and `InterlockedDecrement`. -/
def addCounter (memory : SyncMemory) (address : ℕ) (change : ℤ) : Option SyncMemory := do
  let counters ← memory.counters.modify address fun value => value + change
  some { memory with counters }

def writeMutex (memory : SyncMemory) (handle : ℕ) (mutex : Mutex Thread) : Option SyncMemory := do
  let mutexes ← memory.mutexes.modify handle fun _ => mutex
  some { memory with mutexes }

/-- A wait for a mutex returns; it does not while another thread owns the mutex. -/
def waitMutex (memory : SyncMemory) (handle : ℕ) (thread : Thread) : Option SyncMemory := do
  let mutex ← memory.mutexes.cell handle
  let acquired ← mutex.acquire thread
  memory.writeMutex handle acquired

def releaseMutex (memory : SyncMemory) (handle : ℕ) (thread : Thread) : Option SyncMemory := do
  let mutex ← memory.mutexes.cell handle
  memory.writeMutex handle (mutex.release thread)

/-- `createEntry`: the entry returned is a copy of an allocated one. -/
def createEntry (memory : SyncMemory) (id : MsgLocationId) : Entry × SyncMemory :=
  let entry := memory.allocateEntry
  let otherEntry := entry.2.allocateEntry
  let lock := otherEntry.2.createMutex
  ({ id, lock := lock.1, otherEntry := otherEntry.1 }, lock.2)

def createNewSpace (memory : SyncMemory) (id : MsgLocationId) :
    Option (ProducerSpace × SyncMemory) := do
  let (left, memory) := memory.createEntry leftEntry
  let (right, memory) := memory.createEntry rightEntry
  let memory ← memory.writeEntry left.otherEntry right
  let memory ← memory.writeEntry right.otherEntry left
  let (gate, memory) := memory.createEvent true true
  let (accumlateGate, memory) := memory.createEvent false false
  let (threads, memory) := memory.allocateCounter 0
  some
    ({ threads, id, gate, accumlateGate, isReady := false,
       messageQueue := { leftEntry := left, rightEntry := right }, otherSpace := none }, memory)

end SyncMemory

/-- Where a thread is in `onProduce`, with copies of spaces and entries in its variables. -/
inductive ProducePc (Space Entry α : Type) where
  | idle
  | readCurrent (msg : α)
  | testGate (msg : α) (localSpace : Space)
  /-- In `changeSpace`. -/
  | readOther (msg : α)
  | lockMain (msg : α) (otherSpace : Space)
  | signalSwitch (msg : α) (otherSpace : Space)
  | readSwitch (msg : α) (otherSpace : Space)
  | writeSwitch (msg : α) (otherSpace : Space) (target : SpaceName)
  | releaseMain (msg : α) (otherSpace : Space)
  /-- Back in `onProduce`, where the gate was open. -/
  | testConsumerIn (msg : α) (localSpace : Space)
  | signalConsumer (msg : α) (localSpace : Space)
  | setAccumulate (msg : α) (localSpace : Space)
  | increment (msg : α) (localSpace : Space)
  /-- In `getMessageEntry`, waiting for the lock of the entry. -/
  | tryEntry (msg : α) (localSpace : Space) (entry : Entry)
  | storeMsg (msg : α) (localSpace : Space) (entry : Entry)
  | releaseEntry (msg : α) (localSpace : Space) (entry : Entry)
  | decrement (msg : α) (localSpace : Space)
deriving DecidableEq

/-- Where the agent thread is in its flush loop, `onProduce` apart. -/
inductive ConsumePc (Space Id : Type) where
  /-- From `onStart` to the wait for a message, with commands of the client in between. -/
  | processIncoming
  | tryConsumerEntry
  | setConsumerIn
  | resetConsumerGate
  | statusAccumulating
  /-- In `onStartConsume`. -/
  | readCurrent
  | readOther (localSpace : Space)
  | openOther (localSpace otherSpace : Space)
  | closeLocal (localSpace : Space)
  | clearConsumerIn (localSpace : Space)
  | waitThreads (localSpace : Space)
  | waitLeft (localSpace : Space)
  | waitRight (localSpace : Space)
  | setConsuming (localSpace : Space)
  /-- `onStartConsume` has returned the id. -/
  | statusNormal (id : Id)
  | retrieve (id : Id)
  | send (id : Id) (pending : Bool)
  | ended
deriving DecidableEq

/-- A call of `onProduce` begins or returns. -/
inductive CallEvent (α : Type) where
  | called (thread : Thread) (msg : α)
  | returned (thread : Thread) (msg : α)
deriving DecidableEq

/-- The variables of the synchronizer, the store, where the threads are, and what happened. -/
structure SyncState (σ α : Type) where
  memory : SyncMemory
  space : SpaceName → ProducerSpace
  currentSpace : SpaceName
  consumingSpace : Option ProducerSpace
  consumerGate : ℕ
  mainProducerGate : ℕ
  consumerIn : Bool
  store : σ
  produce : Thread → ProducePc ProducerSpace Entry α
  consume : ConsumePc ProducerSpace MsgLocationId
  /-- The calls of `onProduce`, in order. -/
  calls : List (CallEvent α)
  /-- The messages of the chunks passed to `send`, in order. -/
  handedOut : List α

/-- What a call of the flush loop returns, where that decides how it goes on. -/
inductive ConsumeResult where
  | done
  | timeout
  | socketError

inductive SyncAction (α : Type) where
  /-- A thread calls `onProduce`, each time with a node of its own. -/
  | call (thread : Thread) (msg : α)
  | produce (thread : Thread)
  | consume (result : ConsumeResult)
  /-- The agent thread runs `onThreadExit`. -/
  | exit

namespace SyncState

variable {σ α : Type}

/-- `onInitialize` of the synchronizer, before any thread is in it. -/
def onInitialize (store : σ) : Option (SyncState σ α) := do
  let (left, memory) ← SyncMemory.empty.createNewSpace leftSpace
  let (right, memory) ← memory.createNewSpace rightSpace
  let (consumerGate, memory) := memory.createEvent true false
  let (mainProducerGate, memory) := memory.createMutex
  some
    { memory
      space := fun name =>
        match name with
        | .leftProducerSpace => { left with otherSpace := some .rightProducerSpace }
        | .rightProducerSpace => { right with otherSpace := some .leftProducerSpace }
      currentSpace := .leftProducerSpace
      consumingSpace := none
      consumerGate
      mainProducerGate
      consumerIn := false
      store
      produce := fun _ => .idle
      consume := .processIncoming
      calls := []
      handedOut := [] }

/-- The thread goes on in `onProduce`. -/
def goOn (state : SyncState σ α) (thread : Thread) (pc : ProducePc ProducerSpace Entry α) :
    SyncState σ α :=
  { state with produce := Function.update state.produce thread pc }

/-- The agent thread goes on in its flush loop. -/
def flushOn (state : SyncState σ α) (pc : ConsumePc ProducerSpace MsgLocationId) :
    SyncState σ α :=
  { state with consume := pc }

/-- One step of `onProduce`, with `getMessageEntry` and `changeSpace`. -/
def produceStep (intf : MsgStoreIntf σ α) (state : SyncState σ α) (thread : Thread) :
    Option (SyncState σ α) :=
  match state.produce thread with
  | .idle => none
  | .readCurrent msg =>
      some (state.goOn thread (.testGate msg (state.space state.currentSpace)))
  | .testGate msg localSpace => do
      let gate ← state.memory.events.cell localSpace.gate
      if gate.signalled then some (state.goOn thread (.testConsumerIn msg localSpace))
      else some (state.goOn thread (.readOther msg))
  | .readOther msg => do
      let other ← (state.space state.currentSpace).otherSpace
      some (state.goOn thread (.lockMain msg (state.space other)))
  | .lockMain msg otherSpace => do
      let memory ← state.memory.waitMutex state.mainProducerGate thread
      some (goOn { state with memory } thread
        (if otherSpace.isReady then .releaseMain msg otherSpace
          else .signalSwitch msg otherSpace))
  | .signalSwitch msg otherSpace => do
      let memory ← state.memory.writeEvent state.consumerGate true
      some (goOn { state with memory } thread
        (.readSwitch msg { otherSpace with isReady := true }))
  | .readSwitch msg otherSpace => do
      let target ← (state.space state.currentSpace).otherSpace
      some (state.goOn thread (.writeSwitch msg otherSpace target))
  | .writeSwitch msg otherSpace target =>
      some (goOn { state with currentSpace := target } thread (.releaseMain msg otherSpace))
  | .releaseMain msg otherSpace => do
      let memory ← state.memory.releaseMutex state.mainProducerGate thread
      some (goOn { state with memory } thread (.setAccumulate msg otherSpace))
  | .testConsumerIn msg localSpace =>
      if state.consumerIn then some (state.goOn thread (.setAccumulate msg localSpace))
      else some (state.goOn thread (.signalConsumer msg localSpace))
  | .signalConsumer msg localSpace => do
      let memory ← state.memory.writeEvent state.consumerGate true
      some (goOn { state with memory } thread (.setAccumulate msg localSpace))
  | .setAccumulate msg localSpace => do
      let memory ← state.memory.writeEvent localSpace.accumlateGate true
      some (goOn { state with memory } thread (.increment msg localSpace))
  | .increment msg localSpace => do
      let memory ← state.memory.addCounter localSpace.threads 1
      some (goOn { state with memory } thread
        (.tryEntry msg localSpace localSpace.messageQueue.leftEntry))
  | .tryEntry msg localSpace entry => do
      let lock ← state.memory.mutexes.cell entry.lock
      match lock.acquire thread with
      | some acquired =>
          let memory ← state.memory.writeMutex entry.lock acquired
          some (goOn { state with memory } thread (.storeMsg msg localSpace entry))
      | none =>
          -- WAIT_TIMEOUT
          let otherEntry ← state.memory.entries.cell entry.otherEntry
          some (state.goOn thread (.tryEntry msg localSpace otherEntry))
  | .storeMsg msg localSpace entry => do
      let store ← intf.storeMsg state.store (localSpace.id + entry.id) msg
      some (goOn { state with store } thread (.releaseEntry msg localSpace entry))
  | .releaseEntry msg localSpace entry => do
      let memory ← state.memory.releaseMutex entry.lock thread
      some (goOn { state with memory } thread (.decrement msg localSpace))
  | .decrement msg localSpace => do
      let memory ← state.memory.addCounter localSpace.threads (-1)
      some (goOn { state with memory, calls := state.calls ++ [.returned thread msg] } thread .idle)

/-- The retrieve loop goes on, or ends. -/
def afterRetrieve {Space Id : Type} (id : Id) (pending : Bool) : ConsumePc Space Id :=
  if pending then .retrieve id else .processIncoming

/-- One step of the flush loop, with `onTryConsumerEntry` and `onStartConsume`. -/
def consumeStep (intf : MsgStoreIntf σ α) (state : SyncState σ α) (result : ConsumeResult) :
    Option (SyncState σ α) :=
  match state.produce .agent, state.consume, result with
  | .idle, .processIncoming, .done => some (state.flushOn .tryConsumerEntry)
  | .idle, .tryConsumerEntry, .done => do
      let gate ← state.memory.events.cell state.consumerGate
      if gate.signalled then some (state.flushOn .setConsumerIn) else none
  | .idle, .tryConsumerEntry, .timeout => do
      let gate ← state.memory.events.cell state.consumerGate
      if gate.signalled then none else some (state.flushOn .processIncoming)
  | .idle, .setConsumerIn, .done =>
      some (flushOn { state with consumerIn := true } .resetConsumerGate)
  | .idle, .resetConsumerGate, .done => do
      let memory ← state.memory.writeEvent state.consumerGate false
      some (flushOn { state with memory } .statusAccumulating)
  | .idle, .statusAccumulating, .done => some (state.flushOn .readCurrent)
  | .idle, .readCurrent, .done =>
      some (state.flushOn (.readOther (state.space state.currentSpace)))
  | .idle, .readOther localSpace, .done => do
      let other ← localSpace.otherSpace
      some (state.flushOn (.openOther localSpace { state.space other with isReady := false }))
  | .idle, .openOther localSpace otherSpace, .done => do
      let memory ← state.memory.writeEvent otherSpace.gate true
      some (flushOn { state with memory } (.closeLocal localSpace))
  | .idle, .closeLocal localSpace, .done => do
      let memory ← state.memory.writeEvent localSpace.gate false
      some (flushOn { state with memory } (.clearConsumerIn localSpace))
  | .idle, .clearConsumerIn localSpace, .done =>
      some (flushOn { state with consumerIn := false } (.waitThreads localSpace))
  | .idle, .waitThreads localSpace, .done => do
      let threads ← state.memory.counters.cell localSpace.threads
      -- The loop sleeps and looks again.
      some (if threads = 0 then state.flushOn (.waitLeft localSpace) else state)
  | .idle, .waitLeft localSpace, .done => do
      let memory ← state.memory.waitMutex localSpace.messageQueue.leftEntry.lock .agent
      some (flushOn { state with memory } (.waitRight localSpace))
  | .idle, .waitRight localSpace, .done => do
      let memory ← state.memory.waitMutex localSpace.messageQueue.rightEntry.lock .agent
      some (flushOn { state with memory } (.setConsuming localSpace))
  | .idle, .setConsuming localSpace, .done =>
      some (flushOn { state with consumingSpace := some localSpace }
        (.statusNormal localSpace.id))
  | .idle, .statusNormal id, .done => some (state.flushOn (.retrieve id))
  | .idle, .retrieve id, .done => do
      let (retrieved, store) ← intf.retrieveMsg state.store id
      if retrieved.totalMsg > 0 then
        some (flushOn { state with store, handedOut := state.handedOut ++ retrieved.printed }
          (.send id retrieved.pendingFl))
      else some (flushOn { state with store } (afterRetrieve id retrieved.pendingFl))
  | .idle, .send id pending, .done => some (state.flushOn (afterRetrieve id pending))
  | .idle, .send _ _, .socketError => some (state.flushOn .processIncoming)
  | _, _, _ => none

/-- Where the agent thread can end: in an alertable wait, or in `onChangeStatus`. -/
def MayExit {Space Id : Type} : ConsumePc Space Id → Bool
  | .processIncoming | .tryConsumerEntry | .statusAccumulating | .waitLeft _ | .waitRight _
  | .statusNormal _ => true
  | _ => false

/-- `onThreadExit`: the thread ends, and what it owns is abandoned. -/
def exitStep (state : SyncState σ α) : Option (SyncState σ α) :=
  match state.produce .agent with
  | .idle =>
      if MayExit state.consume then
        some (flushOn
          { state with
            memory :=
              { state.memory with mutexes := state.memory.mutexes.map (Mutex.abandon .agent) } }
          .ended)
      else none
  | _ => none

/-- The messages with which `onProduce` has been called. -/
def calledMsgs (state : SyncState σ α) : List α :=
  state.calls.filterMap fun event =>
    match event with
    | .called _ msg => some msg
    | .returned _ _ => none

/-- A thread that is not in `onProduce` calls it; the agent thread does so for a command. -/
def callStep [DecidableEq α] (state : SyncState σ α) (thread : Thread) (msg : α) :
    Option (SyncState σ α) :=
  match state.produce thread, thread, state.consume with
  | .idle, .agent, .processIncoming | .idle, .other _, _ =>
      if msg ∈ state.calledMsgs then none
      else
        some (goOn { state with calls := state.calls ++ [.called thread msg] } thread
          (.readCurrent msg))
  | _, _, _ => none

def step [DecidableEq α] (intf : MsgStoreIntf σ α) (state : SyncState σ α) :
    SyncAction α → Option (SyncState σ α)
  | .call thread msg => state.callStep thread msg
  | .produce thread => state.produceStep intf thread
  | .consume result => state.consumeStep intf result
  | .exit => state.exitStep

end SyncState

end HeapScan
