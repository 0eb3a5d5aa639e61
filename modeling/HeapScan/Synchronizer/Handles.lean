import HeapScan.Synchronizer.Protocol

/-!
# Handles and copies

`onInitialize` gives every gate and lock a handle of its own.  This file names
them, and says what a call on one of them does to the state of the protocol: it
changes the gate or lock that the handle is for and nothing else.
-/

namespace HeapScan

/-- The number in the handles of a space, and its `MSG_LOCATION_ID`. -/
def SpaceName.number : SpaceName → ℕ
  | leftProducerSpace => leftSpace
  | rightProducerSpace => rightSpace

/-- The entries that `createNewSpace` builds. -/
def entryOf (space : SpaceName) : Side → Entry
  | .left =>
      { id := leftEntry, lock := 2 * space.number, otherEntry := 4 * space.number + 1 }
  | .right =>
      { id := rightEntry, lock := 2 * space.number + 1, otherEntry := 4 * space.number + 3 }

/-- The static variables after `onInitialize`. -/
def spaceOf (space : SpaceName) : ProducerSpace where
  threads := space.number
  id := space.number
  gate := 2 * space.number
  accumlateGate := 2 * space.number + 1
  isReady := false
  messageQueue := { leftEntry := entryOf space .left, rightEntry := entryOf space .right }
  otherSpace := some space.other

/-- The handles of `consumerGate` and `mainProducerGate`. -/
def consumerGateHandle : ℕ := 4

def mainGateHandle : ℕ := 4

/-- The ids of a space and an entry add up to the id of their holder. -/
theorem getMsgGroupHolder_entry (space : SpaceName) (side : Side) :
    getMsgGroupHolder ((spaceOf space).id + (entryOf space side).id) = space.entry side := by
  cases space <;> cases side <;> rfl

/-- A copy of a space's static variable, apart from `isReady`. -/
def CopyOf (localSpace : ProducerSpace) (space : SpaceName) : Prop :=
  localSpace = { spaceOf space with isReady := localSpace.isReady }

theorem copyOf_spaceOf (space : SpaceName) : CopyOf (spaceOf space) space := rfl

theorem CopyOf.setReady {localSpace : ProducerSpace} {space : SpaceName}
    (copy : CopyOf localSpace space) (isReady : Bool) :
    CopyOf { localSpace with isReady } space := by
  rw [copy]
  rfl

section CopyOf

variable {localSpace : ProducerSpace} {space : SpaceName}

theorem CopyOf.gate (copy : CopyOf localSpace space) :
    localSpace.gate = (spaceOf space).gate := by
  rw [copy]

theorem CopyOf.accumlateGate (copy : CopyOf localSpace space) :
    localSpace.accumlateGate = (spaceOf space).accumlateGate := by
  rw [copy]

theorem CopyOf.id (copy : CopyOf localSpace space) : localSpace.id = (spaceOf space).id := by
  rw [copy]

theorem CopyOf.leftEntry (copy : CopyOf localSpace space) :
    localSpace.messageQueue.leftEntry = entryOf space .left := by
  rw [copy]
  rfl

theorem CopyOf.rightEntry (copy : CopyOf localSpace space) :
    localSpace.messageQueue.rightEntry = entryOf space .right := by
  rw [copy]
  rfl

theorem CopyOf.otherSpace (copy : CopyOf localSpace space) :
    localSpace.otherSpace = some space.other := by
  rw [copy]
  rfl

end CopyOf

/-- The memory and kernel objects of a state of the protocol. -/
structure SyncMemory.Holds {α : Type} (memory : SyncMemory) (state : Protocol α) : Prop where
  otherEntry : ∀ space side,
    memory.entries.cell (entryOf space side).otherEntry = some (entryOf space side.other)
  gate : ∀ space, memory.events.cell (spaceOf space).gate =
    some { manualReset := true, signalled := state.gate space }
  consumerGate : memory.events.cell consumerGateHandle =
    some { manualReset := true, signalled := state.consumerGate }
  lock : ∀ space side, memory.mutexes.cell (entryOf space side).lock =
    some (state.lock (space.entry side))
  mainGate : memory.mutexes.cell mainGateHandle = some state.mainGate

section Handles

theorem gate_inj {one two : SpaceName} : (spaceOf one).gate = (spaceOf two).gate ↔ one = two := by
  cases one <;> cases two <;> decide

theorem gate_ne_consumerGate (space : SpaceName) : (spaceOf space).gate ≠ consumerGateHandle := by
  cases space <;> decide

theorem gate_ne_accumlateGate (one two : SpaceName) :
    (spaceOf one).gate ≠ (spaceOf two).accumlateGate := by
  cases one <;> cases two <;> decide

theorem consumerGate_ne_accumlateGate (space : SpaceName) :
    consumerGateHandle ≠ (spaceOf space).accumlateGate := by
  cases space <;> decide

theorem lock_inj {one two : SpaceName} {side otherSide : Side} :
    (entryOf one side).lock = (entryOf two otherSide).lock ↔
      one.entry side = two.entry otherSide := by
  cases one <;> cases two <;> cases side <;> cases otherSide <;> decide

theorem lock_ne_mainGate (space : SpaceName) (side : Side) :
    (entryOf space side).lock ≠ mainGateHandle := by
  cases space <;> cases side <;> decide

end Handles

namespace SyncMemory

variable {α : Type} {memory next : SyncMemory} {state : Protocol α}

theorem writeEvent_eq_some {handle : ℕ} {signalled : Bool}
    (written : memory.writeEvent handle signalled = some next) :
    ∃ event, memory.events.cell handle = some event ∧
      next.events.cell = Function.update memory.events.cell handle
        (some { event with signalled }) ∧
      next.entries = memory.entries ∧ next.mutexes = memory.mutexes := by
  simp only [writeEvent, Option.bind_eq_bind, Option.bind_eq_some_iff, Option.some.injEq] at written
  rcases written with ⟨events, modified, rfl⟩
  rcases Heap.modify_eq_some modified with ⟨event, held, cells⟩
  exact ⟨event, held, cells, rfl, rfl⟩

theorem addCounter_eq_some {address : ℕ} {change : ℤ}
    (added : memory.addCounter address change = some next) :
    next.events = memory.events ∧ next.entries = memory.entries ∧
      next.mutexes = memory.mutexes := by
  simp only [addCounter, Option.bind_eq_bind, Option.bind_eq_some_iff, Option.some.injEq] at added
  rcases added with ⟨counters, -, rfl⟩
  exact ⟨rfl, rfl, rfl⟩

theorem writeMutex_eq_some {handle : ℕ} {mutex : Mutex Thread}
    (written : memory.writeMutex handle mutex = some next) :
    next.mutexes.cell = Function.update memory.mutexes.cell handle (some mutex) ∧
      next.entries = memory.entries ∧ next.events = memory.events := by
  simp only [writeMutex, Option.bind_eq_bind, Option.bind_eq_some_iff, Option.some.injEq] at written
  rcases written with ⟨mutexes, modified, rfl⟩
  rcases Heap.modify_eq_some modified with ⟨_, _, cells⟩
  exact ⟨cells, rfl, rfl⟩

theorem waitMutex_eq_some {handle : ℕ} {thread : Thread}
    (waited : memory.waitMutex handle thread = some next) :
    ∃ mutex acquired, memory.mutexes.cell handle = some mutex ∧
      mutex.acquire thread = some acquired ∧ memory.writeMutex handle acquired = some next := by
  simp only [waitMutex, Option.bind_eq_bind, Option.bind_eq_some_iff] at waited
  rcases waited with ⟨mutex, held, acquired, isAcquired, written⟩
  exact ⟨mutex, acquired, held, isAcquired, written⟩

theorem releaseMutex_eq_some {handle : ℕ} {thread : Thread}
    (released : memory.releaseMutex handle thread = some next) :
    ∃ mutex, memory.mutexes.cell handle = some mutex ∧
      memory.writeMutex handle (mutex.release thread) = some next := by
  simpa only [releaseMutex, Option.bind_eq_bind, Option.bind_eq_some_iff] using released

/-- Signalling or resetting the gate of a space. -/
theorem Holds.writeGate (holds : memory.Holds state) {space : SpaceName} {signalled : Bool}
    (written : memory.writeEvent (spaceOf space).gate signalled = some next) :
    next.Holds { state with gate := Function.update state.gate space signalled } := by
  rcases writeEvent_eq_some written with ⟨event, held, events, entries, mutexes⟩
  rw [holds.gate, Option.some.injEq] at held
  refine ⟨?_, fun other => ?_, ?_, ?_, ?_⟩
  · rw [entries]
    exact holds.otherEntry
  · rw [events]
    by_cases same : other = space
    · subst same
      simp [← held]
    · simpa [Function.update_of_ne (gate_inj.not.mpr same), same] using holds.gate other
  · rw [events, Function.update_of_ne (gate_ne_consumerGate space).symm]
    exact holds.consumerGate
  · rw [mutexes]
    exact holds.lock
  · rw [mutexes]
    exact holds.mainGate

theorem Holds.writeConsumerGate (holds : memory.Holds state) {signalled : Bool}
    (written : memory.writeEvent consumerGateHandle signalled = some next) :
    next.Holds { state with consumerGate := signalled } := by
  rcases writeEvent_eq_some written with ⟨event, held, events, entries, mutexes⟩
  rw [holds.consumerGate, Option.some.injEq] at held
  refine ⟨?_, fun other => ?_, ?_, ?_, ?_⟩
  · rw [entries]
    exact holds.otherEntry
  · rw [events, Function.update_of_ne (gate_ne_consumerGate other)]
    exact holds.gate other
  · rw [events]
    simp [← held]
  · rw [mutexes]
    exact holds.lock
  · rw [mutexes]
    exact holds.mainGate

/-- Nobody in the protocol looks at the gates that `accumulateMessage` would wait for. -/
theorem Holds.writeAccumlateGate (holds : memory.Holds state) {space : SpaceName}
    {signalled : Bool}
    (written : memory.writeEvent (spaceOf space).accumlateGate signalled = some next) :
    next.Holds state := by
  rcases writeEvent_eq_some written with ⟨_, _, events, entries, mutexes⟩
  refine ⟨?_, fun other => ?_, ?_, ?_, ?_⟩
  · rw [entries]
    exact holds.otherEntry
  · rw [events, Function.update_of_ne (gate_ne_accumlateGate other space)]
    exact holds.gate other
  · rw [events, Function.update_of_ne (consumerGate_ne_accumlateGate space)]
    exact holds.consumerGate
  · rw [mutexes]
    exact holds.lock
  · rw [mutexes]
    exact holds.mainGate

theorem Holds.addCounter (holds : memory.Holds state) {address : ℕ} {change : ℤ}
    (added : memory.addCounter address change = some next) : next.Holds state := by
  rcases addCounter_eq_some added with ⟨events, entries, mutexes⟩
  refine ⟨?_, ?_, ?_, ?_, ?_⟩
  · rw [entries]
    exact holds.otherEntry
  · rw [events]
    exact holds.gate
  · rw [events]
    exact holds.consumerGate
  · rw [mutexes]
    exact holds.lock
  · rw [mutexes]
    exact holds.mainGate

theorem Holds.writeLock (holds : memory.Holds state) {space : SpaceName} {side : Side}
    {mutex : Mutex Thread}
    (written : memory.writeMutex (entryOf space side).lock mutex = some next) :
    next.Holds { state with lock := Function.update state.lock (space.entry side) mutex } := by
  rcases writeMutex_eq_some written with ⟨mutexes, entries, events⟩
  refine ⟨?_, ?_, ?_, fun other otherSide => ?_, ?_⟩
  · rw [entries]
    exact holds.otherEntry
  · rw [events]
    exact holds.gate
  · rw [events]
    exact holds.consumerGate
  · rw [mutexes]
    by_cases same : other.entry otherSide = space.entry side
    · rw [lock_inj.mpr same, Function.update_self]
      simp only [same, Function.update_self]
    · rw [Function.update_of_ne (lock_inj.not.mpr same)]
      simpa only [Function.update_of_ne same] using holds.lock other otherSide
  · rw [mutexes, Function.update_of_ne (lock_ne_mainGate space side).symm]
    exact holds.mainGate

theorem Holds.writeMainGate (holds : memory.Holds state) {mutex : Mutex Thread}
    (written : memory.writeMutex mainGateHandle mutex = some next) :
    next.Holds { state with mainGate := mutex } := by
  rcases writeMutex_eq_some written with ⟨mutexes, entries, events⟩
  refine ⟨?_, ?_, ?_, fun other otherSide => ?_, ?_⟩
  · rw [entries]
    exact holds.otherEntry
  · rw [events]
    exact holds.gate
  · rw [events]
    exact holds.consumerGate
  · rw [mutexes, Function.update_of_ne (lock_ne_mainGate other otherSide)]
    exact holds.lock other otherSide
  · rw [mutexes, Function.update_self]

theorem Holds.abandon (holds : memory.Holds state) (thread : Thread) :
    Holds { memory with mutexes := memory.mutexes.map (Mutex.abandon thread) }
      { state with lock := fun name => (state.lock name).abandon thread
                   mainGate := state.mainGate.abandon thread } where
  otherEntry := holds.otherEntry
  gate := holds.gate
  consumerGate := holds.consumerGate
  lock space side := by simp [Heap.map, holds.lock]
  mainGate := by simp [Heap.map, holds.mainGate]

/-- A state of the protocol with the same gates and locks holds the same memory. -/
theorem Holds.congr {other : Protocol α} (holds : memory.Holds state)
    (gate : other.gate = state.gate) (consumerGate : other.consumerGate = state.consumerGate)
    (lock : other.lock = state.lock) (mainGate : other.mainGate = state.mainGate) :
    memory.Holds other where
  otherEntry := holds.otherEntry
  gate := gate ▸ holds.gate
  consumerGate := consumerGate ▸ holds.consumerGate
  lock := lock ▸ holds.lock
  mainGate := mainGate ▸ holds.mainGate

end SyncMemory

end HeapScan
