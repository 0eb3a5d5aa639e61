import HeapScan.Synchronizer.Exclusion

/-!
# The locks that the consumer keeps

`onEndConsume` releases the locks of a consume section, but the flush loop never
calls it: at the end of its first retrieve loop the agent thread owns the locks of
the space for good.  Producers are locked out of no space exactly until then.
-/

namespace HeapScan

open Transition

variable {σ α : Type}

/-- In the retrieve loop, after its first call of `retrieveMsg`. -/
def ConsumePc.inLoop {Space Id : Type} : ConsumePc Space Id → Bool
  | .retrieve _ | .send _ _ => true
  | _ => false

def ConsumePc.atCommand {Space Id : Type} : ConsumePc Space Id → Bool
  | .processIncoming => true
  | _ => false

/-- Outside the section from `onStartConsume` to the end of the retrieve loop. -/
def ConsumePc.outside {Space Id : Type} : ConsumePc Space Id → Bool
  | .processIncoming | .tryConsumerEntry | .setConsumerIn | .resetConsumerGate
  | .statusAccumulating | .ended => true
  | _ => false

theorem ConsumePc.lockedLeft_of_inLoop {pc : ConsumePc SpaceName SpaceName}
    (inLoop : pc.inLoop = true) : ∃ space, pc.lockedLeft = some space := by
  cases pc with
  | retrieve space | send space => exact ⟨space, rfl⟩
  | _ => cases inLoop

theorem ConsumePc.not_atCommand_of_inLoop {Space Id : Type} {pc : ConsumePc Space Id}
    (inLoop : pc.inLoop = true) : pc.atCommand = false := by
  cases pc <;> first | rfl | cases inLoop

namespace Protocol

variable {state next : Protocol α} {action : SyncAction α}

/-- The agent thread retains locks in a consume section only. -/
def Released (state : Protocol α) : Prop :=
  state.consume.lockedLeft = none → ∀ name, state.retained .agent name = 0

theorem released_initial : Released (initial : Protocol α) := by
  intro _ name
  simp [initial, retained]

/-- The end of a retrieve loop leaves the agent thread with a lock. -/
theorem Step.retained_of_inLoop (accounts : state.Accounts) (stepped : state.Step action next)
    (inLoop : state.consume.inLoop = true) (atCommand : next.consume.atCommand = true) :
    next.produce .agent = .idle ∧
      ∃ space : SpaceName, 0 < next.retained .agent (space.entry .left) := by
  rcases ConsumePc.lockedLeft_of_inLoop inLoop with ⟨space, locked⟩
  have held := accounts.left space locked
  have elsewhere := ConsumePc.not_atCommand_of_inLoop inLoop
  cases stepped with
  | call idle _ own => exact absurd (atCommand.symm.trans elsewhere) (by decide)
  | produce step =>
      rw [step.consume, elsewhere] at atCommand
      cases atCommand
  | sleep idle pc => exact absurd (atCommand.symm.trans elsewhere) (by decide)
  | consume idle step =>
      rw [step.produce]
      exact ⟨idle, space, Nat.lt_of_lt_of_le held (step.retained_le .agent _)⟩
  | sendError idle pc => exact ⟨idle, space, held⟩
  | exit idle mayExit => cases atCommand

/-- Up to the end of a retrieve loop, the agent thread retains nothing outside its section. -/
theorem Released.step (released : state.Released) (accounts : state.Accounts)
    (stepped : state.Step action next)
    (stays : state.consume.inLoop = true → next.consume.atCommand = false) :
    next.Released := by
  intro unlocked name
  cases stepped with
  | call idle atCommand own =>
      rw [(balanced_of_call idle _).retained accounts]
      exact released unlocked name
  | produce step =>
      rw [(step.balanced accounts).retained accounts]
      rw [step.consume] at unlocked
      exact released unlocked name
  | sleep idle pc => exact released unlocked name
  | consume idle step =>
      cases step with
      | waitLeft pc acquired | waitRight pc acquired | setConsuming pc | statusNormal pc =>
          cases unlocked
      | @retrieve space pending sends printed contents pc others order complete =>
          have inLoop := stays (by rw [pc]; rfl)
          cases sends
          · cases pending
            · exact absurd (show true = false from inLoop) (by decide)
            · cases unlocked
          · cases unlocked
      | @sent space pending pc =>
          have inLoop := stays (by rw [pc]; rfl)
          cases pending
          · cases inLoop
          · cases unlocked
      | processIncoming pc | entered pc | timeout pc | setConsumerIn pc | resetConsumerGate pc
      | statusAccumulating pc | readCurrent pc | readOther pc | openOther pc | closeLocal pc
      | clearConsumerIn pc | waitThreads pc =>
          exact released (by rw [pc]; rfl) name
  | sendError idle pc =>
      have inLoop := stays (by rw [pc]; rfl)
      cases inLoop
  | exit idle mayExit =>
      exact (congrArg (· - _) (Mutex.holds_abandon (state.lock name) .agent)).trans
        (Nat.zero_sub _)

end Protocol

namespace SyncState

/-- The thread owns the mutex. -/
def Owns (state : SyncState σ α) (thread : Thread) (handle : ℕ) : Prop :=
  ∃ mutex, state.memory.mutexes.cell handle = some mutex ∧ 0 < mutex.holds thread

/-- The agent thread is outside its section and not in `onProduce`. -/
def OutsideSection (state : SyncState σ α) : Prop :=
  state.consume.outside = true ∧ state.produce .agent = .idle

/-- The agent thread locks no producer out. -/
structure NotLockedOut (state : SyncState σ α) : Prop where
  owns : state.OutsideSection → ∀ name,
    ¬state.Owns .agent (state.space name).messageQueue.leftEntry.lock ∧
      ¬state.Owns .agent (state.space name).messageQueue.rightEntry.lock
  /-- No thread goes from one to the other of two locks that the agent thread keeps. -/
  spinning : state.OutsideSection → ∀ thread msg localSpace entry,
    state.produce thread = .tryEntry msg localSpace entry →
    ¬(state.Owns .agent localSpace.messageQueue.leftEntry.lock ∧
      state.Owns .agent localSpace.messageQueue.rightEntry.lock)
  /-- The agent thread does not wait for a thread that waits for its lock. -/
  waiting : ∀ consumed, state.consume = .waitThreads consumed →
    ∀ thread msg localSpace entry, state.produce thread = .tryEntry msg localSpace entry →
      localSpace.threads = consumed.threads → ¬state.Owns .agent entry.lock

/-- The step does not end the retrieve loop. -/
def StaysInLoop [DecidableEq α] (intf : MsgStoreIntf σ α) (state : SyncState σ α)
    (action : SyncAction α) : Prop :=
  state.consume.inLoop = true →
    ∀ next, state.step intf action = some next → next.consume.atCommand = false

instance [DecidableEq α] (intf : MsgStoreIntf σ α) (state : SyncState σ α)
    (action : SyncAction α) : Decidable (state.StaysInLoop intf action) :=
  decidable_of_iff
    (state.consume.inLoop = true →
      (state.step intf action).all (fun next => !next.consume.atCommand) = true)
    (by simp [StaysInLoop, Option.all_eq_true])

section Code

variable {holds : σ → (HolderName → List α) → Prop} {state : SyncState σ α}
  {protocol : Protocol α}

theorem Refines.owns (refines : state.Refines holds protocol) {thread : Thread}
    {space : SpaceName} {side : Side} :
    state.Owns thread (entryOf space side).lock ↔
      0 < (protocol.lock (space.entry side)).holds thread := by
  unfold Owns
  rw [refines.memory.lock]
  simp

theorem Refines.outside (refines : state.Refines holds protocol)
    (outside : state.OutsideSection) :
    protocol.consume.lockedLeft = none ∧ protocol.produce .agent = .idle := by
  refine ⟨?_, refines.idle outside.2⟩
  have isOutside := outside.1
  have same := refines.consume
  generalize state.consume = pc at same isOutside
  generalize protocol.consume = abstractPc at same
  cases same <;> first | rfl | cases isOutside

theorem Refines.inLoop (refines : state.Refines holds protocol) :
    protocol.consume.inLoop = state.consume.inLoop := by
  have same := refines.consume
  generalize state.consume = pc at same
  generalize protocol.consume = abstractPc at same
  cases same <;> rfl

theorem Refines.atCommand (refines : state.Refines holds protocol) :
    protocol.consume.atCommand = state.consume.atCommand := by
  have same := refines.consume
  generalize state.consume = pc at same
  generalize protocol.consume = abstractPc at same
  cases same <;> rfl

/-- A thread that retains nothing and is not in `onProduce` owns no lock. -/
theorem Refines.not_owns (refines : state.Refines holds protocol) {thread : Thread}
    (idle : protocol.produce thread = .idle)
    (released : ∀ name, protocol.retained thread name = 0) (space : SpaceName) (side : Side) :
    ¬state.Owns thread (entryOf space side).lock := by
  have nothing := released (space.entry side)
  rw [Protocol.retained, Protocol.inProduce_of_idle idle] at nothing
  rw [refines.owns]
  omega

/-- The agent thread locks nobody out while it retains nothing outside its section. -/
theorem Refines.notLockedOut (refines : state.Refines holds protocol)
    (accounts : protocol.Accounts) (released : protocol.Released) : state.NotLockedOut where
  owns outside name := by
    rcases refines.outside outside with ⟨unlocked, idle⟩
    rw [refines.space]
    exact ⟨refines.not_owns idle (released unlocked) name .left,
      refines.not_owns idle (released unlocked) name .right⟩
  spinning outside thread msg localSpace entry pc both := by
    rcases refines.outside outside with ⟨unlocked, idle⟩
    have same := refines.produce thread
    rw [pc] at same
    generalize protocol.produce thread = abstractPc at same
    cases same with
    | tryEntry copy =>
        rw [copy.leftEntry] at both
        exact refines.not_owns idle (released unlocked) _ .left both.1
  waiting consumed atWait thread msg localSpace entry pc counted owns := by
    have sameConsume := refines.consume
    rw [atWait] at sameConsume
    generalize consumePc : protocol.consume = abstractPc at sameConsume
    have idle : protocol.produce .agent = .idle := by
      by_contra notIdle
      rw [accounts.atCommand notIdle] at consumePc
      rw [← consumePc] at sameConsume
      cases sameConsume
    have unlocked : protocol.consume.lockedLeft = none := by
      cases sameConsume
      rw [consumePc]
      rfl
    have same := refines.produce thread
    rw [pc] at same
    generalize protocol.produce thread = producePc at same
    cases same with
    | tryEntry copy => exact refines.not_owns idle (released unlocked) _ _ owns

end Code

section Runs

variable [Message α] [DecidableEq α] {state : SyncState (Store α) α} {protocol : Protocol α}

/-- The agent thread owns a lock right after the end of a retrieve loop. -/
theorem Refines.staysInLoop {action : SyncAction α}
    (refines : state.Refines Store.Contains protocol) (accounts : protocol.Accounts)
    (notLocked : ∀ next, state.step messageStore action = some next → next.NotLockedOut) :
    state.StaysInLoop messageStore action := by
  intro inLoop next stepped
  rcases refines.step messageStore_keeps stepped with ⟨protocolNext, protocolStep, nextRefines⟩
  by_contra ended
  have atCommand : next.consume.atCommand = true := by simpa using ended
  rcases protocolStep.retained_of_inLoop accounts (refines.inLoop.trans inLoop)
    (nextRefines.atCommand.trans atCommand) with ⟨idle, space, retained⟩
  have outside : next.OutsideSection := by
    refine ⟨?_, nextRefines.idle_code idle⟩
    cases pc : next.consume <;> rw [pc] at atCommand <;> first | rfl | cases atCommand
  have notOwned := ((notLocked next stepped).owns outside space).1
  rw [nextRefines.space] at notOwned
  exact notOwned (nextRefines.owns.mpr (Nat.lt_of_lt_of_le retained (Nat.sub_le ..)))

theorem stepsMeet_of_notLockedOut {actions : List (SyncAction α)}
    (refines : state.Refines Store.Contains protocol) (accounts : protocol.Accounts)
    (notLocked : ∀ visited, Visits (step messageStore) state actions visited →
      visited.NotLockedOut) :
    StepsMeet (step messageStore) (StaysInLoop messageStore) state actions := by
  induction actions generalizing state protocol with
  | nil => trivial
  | cons action actions ih =>
      refine ⟨refines.staysInLoop accounts fun next stepped =>
        notLocked next (.cons stepped (visits_self ..)), fun next stepped => ?_⟩
      rcases refines.step messageStore_keeps stepped with
        ⟨protocolNext, protocolStep, nextRefines⟩
      exact ih nextRefines (accounts.step protocolStep) fun visited visits =>
        notLocked visited (.cons stepped visits)

/-- No state of a run locks producers out exactly when no retrieve loop ends in it. -/
theorem notLockedOut_iff {socketMsgLimit : ℤ} {initial : SyncState (Store α) α}
    {actions : List (SyncAction α)}
    (initialized : onInitialize (HeapScan.onInitialize socketMsgLimit) = some initial) :
    (∀ visited, Visits (step messageStore) initial actions visited → visited.NotLockedOut) ↔
      StepsMeet (step messageStore) (StaysInLoop messageStore) initial actions := by
  have refines := onInitialize_refines (onInitialize_contains socketMsgLimit) initialized
  constructor
  · exact stepsMeet_of_notLockedOut refines Protocol.accounts_initial
  · rintro meets visited ⟨before, after, rfl, run⟩
    have kept := refines.run (fun protocol => protocol.Accounts ∧ protocol.Released)
      messageStore_keeps ?_ meets.of_append
      ⟨Protocol.accounts_initial, Protocol.released_initial⟩ run
    · rcases kept with ⟨protocol, visitedRefines, accounts, released⟩
      exact visitedRefines.notLockedOut accounts released
    · rintro state protocol action next protocolNext currentRefines nextRefines stays stepped
        ⟨accounts, released⟩ protocolStep
      refine ⟨accounts.step protocolStep, released.step accounts protocolStep fun inLoop => ?_⟩
      rw [nextRefines.atCommand]
      exact stays (currentRefines.inLoop.symm.trans inLoop) next stepped

end Runs

/-- A thread stores a message, and the agent thread wakes up and consumes it. -/
def firstConsume : List (SyncAction Text) :=
  [.call (.other 0) ['a']] ++ List.replicate 10 (.produce (.other 0)) ++
    List.replicate 17 (.consume .done)

/-- Before the end of the first retrieve loop nobody is locked out. -/
theorem notLockedOut_iff_firstConsume :
    ∃ initial : SyncState (Store Text) Text,
      onInitialize (HeapScan.onInitialize 5) = some initial ∧
      ∀ visited, Visits (step messageStore) initial firstConsume.dropLast visited →
        visited.NotLockedOut := by
  have meets : (onInitialize (HeapScan.onInitialize 5 : Store Text)).any fun initial =>
      decide (StepsMeet (step messageStore) (StaysInLoop messageStore) initial
        firstConsume.dropLast) := by decide
  rcases (Option.any_eq_true _ _).mp meets with ⟨initial, initialized, meets⟩
  exact ⟨initial, initialized, (notLockedOut_iff initialized).mpr (of_decide_eq_true meets)⟩

/-- Back at `onTryConsumerEntry`, the agent thread owns the locks of the space it consumed. -/
theorem firstConsume_keeps_locks :
    ∃ initial final : SyncState (Store Text) Text,
      onInitialize (HeapScan.onInitialize 5) = some initial ∧
      runFrom (step messageStore) initial (firstConsume ++ [.consume .done]) = some final ∧
      final.consume = .tryConsumerEntry ∧ ¬final.NotLockedOut := by
  have locks : ((onInitialize (HeapScan.onInitialize 5 : Store Text)).bind fun initial =>
      runFrom (step messageStore) initial (firstConsume ++ [.consume .done])).any (fun final =>
        decide ((final.consume = .tryConsumerEntry ∧ final.produce .agent = .idle) ∧
          final.memory.mutexes.cell
            (final.space .leftProducerSpace).messageQueue.leftEntry.lock =
              some (.owned .agent 0))) := by decide
  rcases (Option.any_eq_true _ _).mp locks with ⟨final, runs, locks⟩
  rcases Option.bind_eq_some_iff.mp runs with ⟨initial, initialized, run⟩
  rcases of_decide_eq_true locks with ⟨⟨waits, idle⟩, lock⟩
  refine ⟨initial, final, initialized, run, waits, fun notLockedOut => ?_⟩
  have outside : final.OutsideSection := ⟨by rw [waits]; rfl, idle⟩
  exact (notLockedOut.owns outside .leftProducerSpace).1 ⟨_, lock, by decide⟩

end SyncState

end HeapScan
