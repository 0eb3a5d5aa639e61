import HeapScan.Synchronizer.Store

/-!
# Who holds the locks of the entries

A thread in `onProduce` holds the lock of the entry that it stores into, once more
than it held it before; what the agent thread holds beyond that it has acquired in
`onStartConsume`.  With these accounts no two threads store into one entry, and
nobody stores into the space that the agent thread retrieves.
-/

namespace HeapScan

open Transition

variable {σ α : Type}

/-- The holder whose lock a thread holds for `onProduce`. -/
def ProducePc.holding : ProducePc SpaceName Side α → Option HolderName
  | .storeMsg _ space side | .releaseEntry _ space side => some (space.entry side)
  | _ => none

/-- The space whose left lock the agent thread has acquired in this section. -/
def ConsumePc.lockedLeft : ConsumePc SpaceName SpaceName → Option SpaceName
  | .waitRight space | .setConsuming space | .statusNormal space | .retrieve space
  | .send space _ => some space
  | _ => none

def ConsumePc.lockedRight : ConsumePc SpaceName SpaceName → Option SpaceName
  | .setConsuming space | .statusNormal space | .retrieve space | .send space _ => some space
  | _ => none

namespace Protocol

/-- How often a thread holds a lock for the `onProduce` it is in. -/
def inProduce (state : Protocol α) (thread : Thread) (name : HolderName) : ℕ :=
  if (state.produce thread).holding = some name then 1 else 0

/-- How often a thread holds a lock beyond that. -/
def retained (state : Protocol α) (thread : Thread) (name : HolderName) : ℕ :=
  (state.lock name).holds thread - state.inProduce thread name

/-- The accounts of the locks, and where the agent thread must have acquired one. -/
structure Accounts (state : Protocol α) : Prop where
  covered : ∀ thread name, state.inProduce thread name ≤ (state.lock name).holds thread
  atCommand : state.produce .agent ≠ .idle → state.consume = .processIncoming
  left : ∀ space, state.consume.lockedLeft = some space →
    0 < state.retained .agent (space.entry .left)
  right : ∀ space, state.consume.lockedRight = some space →
    0 < state.retained .agent (space.entry .right)

theorem accounts_initial : Accounts (initial : Protocol α) where
  covered _ _ := by simp [initial, inProduce, ProducePc.holding]
  atCommand notIdle := absurd rfl notIdle
  left _ locked := by cases locked
  right _ locked := by cases locked

section Steps

variable {state next : Protocol α} {thread : Thread}

/-- A move between places that hold the same lock changes nobody's account. -/
theorem inProduce_eq {pc : ProducePc SpaceName Side α}
    (moved : next.produce = Function.update state.produce thread pc)
    (same : pc.holding = (state.produce thread).holding) (other : Thread) (name : HolderName) :
    next.inProduce other name = state.inProduce other name := by
  unfold inProduce
  rw [moved]
  by_cases self : other = thread
  · subst self
    rw [Function.update_self, same]
  · rw [Function.update_of_ne self]

theorem inProduce_of_ne {pc : ProducePc SpaceName Side α}
    (moved : next.produce = Function.update state.produce thread pc) {other : Thread}
    (different : other ≠ thread) (name : HolderName) :
    next.inProduce other name = state.inProduce other name := by
  unfold inProduce
  rw [moved, Function.update_of_ne different]

/-- What a step of `onProduce` leaves alone in the accounts. -/
def Balanced (state next : Protocol α) : Prop :=
  ∀ thread name, (next.lock name).holds thread + state.inProduce thread name =
    (state.lock name).holds thread + next.inProduce thread name

theorem balanced_of_move {pc : ProducePc SpaceName Side α}
    (moved : next.produce = Function.update state.produce thread pc)
    (locks : next.lock = state.lock) (same : pc.holding = (state.produce thread).holding) :
    Balanced state next := by
  intro other name
  rw [locks, inProduce_eq moved same]

theorem balanced_of_acquire {space : SpaceName} {side : Side} {mutex : Mutex Thread}
    {pc : ProducePc SpaceName Side α}
    (moved : next.produce = Function.update state.produce thread pc)
    (before : (state.produce thread).holding = none)
    (after : pc.holding = some (space.entry side))
    (acquired : (state.lock (space.entry side)).acquire thread = some mutex)
    (locks : next.lock = Function.update state.lock (space.entry side) mutex) :
    Balanced state next := by
  intro other name
  rw [locks]
  by_cases self : other = thread
  · subst self
    by_cases same : name = space.entry side
    · subst same
      simp [inProduce, moved, before, after, Mutex.holds_acquire acquired]
    · simp [inProduce, moved, before, after, same, Ne.symm same]
  · rw [inProduce_of_ne moved self]
    by_cases same : name = space.entry side
    · subst same
      rw [Function.update_self, Mutex.holds_acquire_of_ne acquired self]
    · rw [Function.update_of_ne same]

theorem balanced_of_release {space : SpaceName} {side : Side}
    {pc : ProducePc SpaceName Side α}
    (moved : next.produce = Function.update state.produce thread pc)
    (before : (state.produce thread).holding = some (space.entry side))
    (after : pc.holding = none)
    (covered : state.inProduce thread (space.entry side) ≤
      (state.lock (space.entry side)).holds thread)
    (locks : next.lock = Function.update state.lock (space.entry side)
      ((state.lock (space.entry side)).release thread)) :
    Balanced state next := by
  intro other name
  rw [locks]
  by_cases self : other = thread
  · subst self
    by_cases same : name = space.entry side
    · subst same
      simp only [inProduce, before, if_true] at covered
      simp only [inProduce, moved, before, after, Function.update_self, if_true,
        Mutex.holds_release, reduceCtorEq, if_false]
      omega
    · simp [inProduce, moved, before, after, same, Ne.symm same]
  · rw [inProduce_of_ne moved self]
    by_cases same : name = space.entry side
    · subst same
      rw [Function.update_self, Mutex.holds_release_of_ne _ self]
    · rw [Function.update_of_ne same]

theorem ProduceStep.balanced (accounts : state.Accounts) (step : state.ProduceStep thread next) :
    Balanced state next := by
  cases step with
  | tryEntry_acquired pc acquired =>
      exact balanced_of_acquire rfl (by rw [pc]; rfl) rfl acquired rfl
  | releaseEntry pc =>
      exact balanced_of_release rfl (by rw [pc]; rfl) rfl (accounts.covered _ _) rfl
  | readCurrent pc | testGate_open pc | testGate_closed pc | readOther pc | lockMain pc
  | signalSwitch pc | readSwitch pc | writeSwitch pc | releaseMain pc | testConsumerIn_in pc
  | testConsumerIn_out pc | signalConsumer pc | setAccumulate pc | increment pc
  | tryEntry_timeout pc | storeMsg pc | decrement pc =>
      exact balanced_of_move rfl rfl (by rw [pc]; rfl)

theorem Balanced.retained (balanced : Balanced state next) (accounts : state.Accounts)
    (other : Thread) (name : HolderName) :
    next.retained other name = state.retained other name := by
  have := balanced other name
  have := accounts.covered other name
  unfold Protocol.retained
  omega

theorem Balanced.covered (balanced : Balanced state next) (accounts : state.Accounts)
    (other : Thread) (name : HolderName) :
    next.inProduce other name ≤ (next.lock name).holds other := by
  have := balanced other name
  have := accounts.covered other name
  omega

theorem ProduceStep.not_idle (step : state.ProduceStep thread next) :
    state.produce thread ≠ .idle := by
  intro idle
  cases step <;> simp_all

theorem ProduceStep.consume (step : state.ProduceStep thread next) :
    next.consume = state.consume := by
  cases step <;> rfl

theorem ProduceStep.others (step : state.ProduceStep thread next) {other : Thread}
    (different : other ≠ thread) : next.produce other = state.produce other := by
  cases step <;> exact Function.update_of_ne different _ _

/-- A step of `onProduce` keeps the accounts, and all that a thread retains. -/
theorem Accounts.produceStep (accounts : state.Accounts) (step : state.ProduceStep thread next) :
    next.Accounts where
  covered := (step.balanced accounts).covered accounts
  atCommand notIdle := by
    rw [step.consume]
    by_cases isAgent : thread = .agent
    · subst isAgent
      exact accounts.atCommand step.not_idle
    · rw [step.others (Ne.symm isAgent)] at notIdle
      exact accounts.atCommand notIdle
  left space locked := by
    rw [step.consume] at locked
    rw [(step.balanced accounts).retained accounts]
    exact accounts.left space locked
  right space locked := by
    rw [step.consume] at locked
    rw [(step.balanced accounts).retained accounts]
    exact accounts.right space locked

theorem ConsumeStep.produce (step : state.ConsumeStep next) : next.produce = state.produce := by
  cases step <;> rfl

theorem retained_congr (locks : next.lock = state.lock) (produce : next.produce = state.produce)
    (other : Thread) (name : HolderName) :
    next.retained other name = state.retained other name := by
  unfold retained inProduce
  rw [locks, produce]

/-- Steps that touch no lock and get no further in `onStartConsume` keep the accounts. -/
theorem Accounts.of_unlocked (accounts : state.Accounts) (locks : next.lock = state.lock)
    (produce : next.produce = state.produce) (idle : state.produce .agent = .idle)
    (left : ∀ space, next.consume.lockedLeft = some space →
      state.consume.lockedLeft = some space)
    (right : ∀ space, next.consume.lockedRight = some space →
      state.consume.lockedRight = some space) : next.Accounts where
  covered other name := by
    have := accounts.covered other name
    unfold inProduce at this ⊢
    rwa [locks, produce]
  atCommand notIdle := by
    rw [produce] at notIdle
    exact absurd idle notIdle
  left space locked := by
    rw [retained_congr locks produce]
    exact accounts.left space (left space locked)
  right space locked := by
    rw [retained_congr locks produce]
    exact accounts.right space (right space locked)

theorem inProduce_of_idle (idle : state.produce thread = .idle) (name : HolderName) :
    state.inProduce thread name = 0 := by
  simp [inProduce, idle, ProducePc.holding]

section Acquire

variable {space : SpaceName} {side : Side} {mutex : Mutex Thread}

theorem holds_le_of_acquire
    (acquired : (state.lock (space.entry side)).acquire .agent = some mutex)
    (locks : next.lock = Function.update state.lock (space.entry side) mutex)
    (other : Thread) (name : HolderName) :
    (state.lock name).holds other ≤ (next.lock name).holds other := by
  rw [locks]
  by_cases same : name = space.entry side
  · subst same
    rw [Function.update_self]
    by_cases isAgent : other = .agent
    · rw [isAgent, Mutex.holds_acquire acquired]
      omega
    · exact Nat.le_of_eq (Mutex.holds_acquire_of_ne acquired isAgent).symm
  · simp only [Function.update_of_ne same, Nat.le_refl]

/-- A lock that the agent thread acquires in `onStartConsume` is retained. -/
theorem retained_of_acquire (idle : state.produce .agent = .idle)
    (acquired : (state.lock (space.entry side)).acquire .agent = some mutex)
    (locks : next.lock = Function.update state.lock (space.entry side) mutex)
    (produce : next.produce = state.produce) :
    0 < next.retained .agent (space.entry side) := by
  have nextIdle : next.produce .agent = .idle := by rw [produce, idle]
  rw [retained, inProduce_of_idle nextIdle, locks, Function.update_self,
    Mutex.holds_acquire acquired]
  omega

end Acquire

theorem ConsumeStep.holds_le (step : state.ConsumeStep next) (other : Thread)
    (name : HolderName) : (state.lock name).holds other ≤ (next.lock name).holds other := by
  cases step with
  | waitLeft pc acquired => exact holds_le_of_acquire acquired rfl other name
  | waitRight pc acquired => exact holds_le_of_acquire acquired rfl other name
  | _ => exact Nat.le_refl _

/-- What a thread retains, it retains throughout the flush loop. -/
theorem ConsumeStep.retained_le (step : state.ConsumeStep next) (other : Thread)
    (name : HolderName) : state.retained other name ≤ next.retained other name := by
  have := step.holds_le other name
  unfold retained inProduce
  rw [step.produce]
  omega

theorem Accounts.consumeStep (accounts : state.Accounts) (idle : state.produce .agent = .idle)
    (step : state.ConsumeStep next) : next.Accounts := by
  have covered : ∀ other name, next.inProduce other name ≤ (next.lock name).holds other := by
    intro other name
    have := accounts.covered other name
    have := step.holds_le other name
    unfold inProduce at *
    rw [step.produce]
    omega
  have atCommand : next.produce .agent ≠ .idle → next.consume = .processIncoming := by
    rw [step.produce]
    exact fun notIdle => absurd idle notIdle
  have retained := step.retained_le .agent
  cases step with
  | waitLeft pc acquired =>
      refine ⟨covered, atCommand, fun space locked => ?_, fun space locked => ?_⟩
      · cases locked
        exact retained_of_acquire idle acquired rfl rfl
      · cases locked
  | waitRight pc acquired =>
      refine ⟨covered, atCommand, fun space locked => ?_, fun space locked => ?_⟩
      · cases locked
        exact Nat.lt_of_lt_of_le (accounts.left _ (by rw [pc]; rfl)) (retained _)
      · cases locked
        exact retained_of_acquire idle acquired rfl rfl
  | @retrieve space pending sends printed contents pc others order complete =>
      refine accounts.of_unlocked rfl rfl idle (fun other locked => ?_) fun other locked => ?_
      · cases sends <;> cases pending <;> cases locked <;> rw [pc] <;> rfl
      · cases sends <;> cases pending <;> cases locked <;> rw [pc] <;> rfl
  | @sent space pending pc =>
      refine accounts.of_unlocked rfl rfl idle (fun other locked => ?_) fun other locked => ?_
      · cases pending <;> cases locked
        rw [pc]
        rfl
      · cases pending <;> cases locked
        rw [pc]
        rfl
  | setConsuming pc | statusNormal pc =>
      exact accounts.of_unlocked rfl rfl idle (fun other locked => by rw [pc]; exact locked)
        fun other locked => by rw [pc]; exact locked
  | processIncoming pc | entered pc | timeout pc | setConsumerIn pc | resetConsumerGate pc
  | statusAccumulating pc | readCurrent pc | readOther pc | openOther pc | closeLocal pc
  | clearConsumerIn pc | waitThreads pc =>
      exact accounts.of_unlocked rfl rfl idle (fun other locked => by cases locked)
        fun other locked => by cases locked

theorem Accounts.exit (accounts : state.Accounts) (idle : state.produce .agent = .idle) :
    Accounts (flushOn { state with lock := fun name => (state.lock name).abandon .agent
                                   mainGate := state.mainGate.abandon .agent } .ended) where
  covered other name := by
    by_cases isAgent : other = .agent
    · subst isAgent
      rw [inProduce_of_idle (by exact idle)]
      exact Nat.zero_le _
    · have before := accounts.covered other name
      rw [← Mutex.holds_abandon_of_ne (state.lock name) isAgent] at before
      exact before
  atCommand notIdle := absurd idle notIdle
  left space locked := by cases locked
  right space locked := by cases locked

theorem balanced_of_call (idle : state.produce thread = .idle) (msg : α) :
    Balanced state
      (goOn { state with calls := state.calls ++ [.called thread msg] } thread
        (.readCurrent msg)) :=
  balanced_of_move rfl rfl (by rw [idle]; rfl)

theorem Accounts.call (accounts : state.Accounts) {msg : α}
    (idle : state.produce thread = .idle)
    (atCommand : thread = .agent → state.consume = .processIncoming) :
    Accounts (goOn { state with calls := state.calls ++ [.called thread msg] } thread
      (.readCurrent msg)) := by
  have balanced := balanced_of_call idle msg
  refine ⟨balanced.covered accounts, fun notIdle => ?_, fun space locked => ?_,
    fun space locked => ?_⟩
  · by_cases isAgent : thread = .agent
    · exact atCommand isAgent
    · refine accounts.atCommand ?_
      simpa [goOn, Ne.symm isAgent] using notIdle
  · rw [balanced.retained accounts]
    exact accounts.left space locked
  · rw [balanced.retained accounts]
    exact accounts.right space locked

/-- Every step keeps the accounts. -/
theorem Accounts.step (accounts : state.Accounts) {action : SyncAction α}
    (stepped : state.Step action next) : next.Accounts := by
  cases stepped with
  | call idle atCommand own => exact accounts.call idle atCommand
  | produce step => exact accounts.produceStep step
  | sleep idle pc => exact accounts
  | consume idle step => exact accounts.consumeStep idle step
  | sendError idle pc =>
      exact accounts.of_unlocked rfl rfl idle (fun space locked => by cases locked)
        fun space locked => by cases locked
  | exit idle mayExit => exact accounts.exit idle

end Steps

end Protocol

namespace SyncState

variable {holds : σ → (HolderName → List α) → Prop} {state : SyncState σ α}
  {protocol : Protocol α}

/-- The thread is executing STORE_MSG on the holder. -/
def Storing (state : SyncState σ α) (thread : Thread) (name : HolderName) : Prop :=
  ∃ msg localSpace entry, state.produce thread = .storeMsg msg localSpace entry ∧
    getMsgGroupHolder (localSpace.id + entry.id) = name

/-- The agent thread is between the return of `onStartConsume` and the end of its loop. -/
def Retrieving (state : SyncState σ α) (id : MsgLocationId) : Prop :=
  state.consume = .statusNormal id ∨ state.consume = .retrieve id ∨
    ∃ pending, state.consume = .send id pending

/-- No two threads work on a holder of the store. -/
structure Exclusive (state : SyncState σ α) : Prop where
  store : ∀ name one two, state.Storing one name → state.Storing two name → one = two
  retrieve : ∀ id, state.Retrieving id → ∀ name ∈ retrievedHolders id,
    ∀ thread, ¬state.Storing thread name

theorem Refines.holding (refines : state.Refines holds protocol) {thread : Thread}
    {name : HolderName} (storing : state.Storing thread name) :
    (protocol.produce thread).holding = some name := by
  rcases storing with ⟨msg, localSpace, entry, pc, rfl⟩
  have same := refines.produce thread
  rw [pc] at same
  generalize protocol.produce thread = abstractPc at same
  cases same with
  | storeMsg copy =>
      rw [copy.id, getMsgGroupHolder_entry]
      rfl

theorem Refines.locked (refines : state.Refines holds protocol) {id : MsgLocationId}
    (retrieving : state.Retrieving id) :
    ∃ space, id = (spaceOf space).id ∧ protocol.consume.lockedLeft = some space ∧
      protocol.consume.lockedRight = some space := by
  have same := refines.consume
  rcases retrieving with pc | pc | ⟨pending, pc⟩
  all_goals
    rw [pc] at same
    generalize protocol.consume = abstractPc at same
    cases same
    exact ⟨_, rfl, rfl, rfl⟩

theorem holds_of_holding (accounts : protocol.Accounts) {thread : Thread} {name : HolderName}
    (holding : (protocol.produce thread).holding = some name) :
    0 < (protocol.lock name).holds thread := by
  have covered := accounts.covered thread name
  simp only [Protocol.inProduce, holding, if_true] at covered
  omega

/-- With the accounts kept, the locks of the entries exclude. -/
theorem Refines.exclusive (refines : state.Refines holds protocol)
    (accounts : protocol.Accounts) : state.Exclusive where
  store name one two byOne byTwo :=
    Mutex.eq_of_holds (holds_of_holding accounts (refines.holding byOne))
      (holds_of_holding accounts (refines.holding byTwo))
  retrieve id retrieving name listed thread storing := by
    have holding := refines.holding storing
    rcases refines.locked retrieving with ⟨space, rfl, left, right⟩
    have byAgent : 0 < (protocol.lock name).holds .agent := by
      rw [retrievedHolders, ChainStore.inSpace_spaceOf] at listed
      have atLeft := accounts.left space left
      have atRight := accounts.right space right
      unfold Protocol.retained at atLeft atRight
      simp only [List.mem_cons, List.not_mem_nil, or_false] at listed
      rcases listed with rfl | rfl <;> omega
    -- so the agent thread would be in `onProduce` and in its section at once
    have isAgent : thread = .agent :=
      Mutex.eq_of_holds (holds_of_holding accounts holding) byAgent
    subst isAgent
    have notIdle : protocol.produce .agent ≠ .idle := by
      intro idle
      rw [idle] at holding
      cases holding
    rw [accounts.atCommand notIdle] at left
    cases left

variable [Message α] [DecidableEq α]

/-- In every state of every run, nobody else works on a holder that a thread works on. -/
theorem exclusive_of_run {socketMsgLimit : ℤ} {initial final : SyncState (Store α) α}
    {actions : List (SyncAction α)}
    (initialized : onInitialize (HeapScan.onInitialize socketMsgLimit) = some initial)
    (run : runFrom (step messageStore) initial actions = some final) : final.Exclusive := by
  have refines := onInitialize_refines (onInitialize_contains socketMsgLimit) initialized
  rcases refines.run Protocol.Accounts messageStore_keeps
    (fun _ _ _ _ _ _ _ _ _ accounts stepped => Protocol.Accounts.step accounts stepped)
    (stepsMeet_of_forall (fun _ _ => trivial) initial actions) Protocol.accounts_initial run with
    ⟨protocol, finalRefines, accounts⟩
  exact finalRefines.exclusive accounts

/-- Two threads that store at once, one into the left and one into the right entry. -/
theorem exclusive_of_run_two_producers :
    let actions : List (SyncAction Text) :=
      [.call (.other 0) ['a']] ++ List.replicate 7 (.produce (.other 0)) ++
        [.call (.other 1) ['b']] ++ List.replicate 8 (.produce (.other 1))
    ∃ initial final : SyncState (Store Text) Text,
      onInitialize (HeapScan.onInitialize 1) = some initial ∧
      runFrom (step messageStore) initial actions = some final ∧ final.Exclusive := by
  intro actions
  have runs : ((onInitialize (HeapScan.onInitialize 1 : Store Text)).bind fun initial =>
      runFrom (step messageStore) initial actions).isSome := by decide
  rcases Option.isSome_iff_exists.mp runs with ⟨final, runs⟩
  rcases Option.bind_eq_some_iff.mp runs with ⟨initial, initialized, run⟩
  exact ⟨initial, final, initialized, run, exclusive_of_run initialized run⟩

end SyncState

end HeapScan
