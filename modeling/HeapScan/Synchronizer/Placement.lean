import HeapScan.Synchronizer.Gates

/-!
# Where producers are led

As long as no thread switches away from an open space and every drain is finished,
each thread on its way to an entry is led to the current space, or to a space
whose locks the agent thread is about to keep for good.  Messages wait in the
current space, or in the space that is being consumed.
-/

namespace HeapScan

variable {σ α : Type}

/-- The space of the section from the copy of `currentSpace` in `onStartConsume` on. -/
def ConsumePc.consuming : ConsumePc SpaceName SpaceName → Option SpaceName
  | .readOther space | .openOther space _ | .closeLocal space | .clearConsumerIn space
  | .waitThreads space | .waitLeft space | .waitRight space | .setConsuming space
  | .statusNormal space | .retrieve space | .send space _ => some space
  | .processIncoming | .tryConsumerEntry | .setConsumerIn | .resetConsumerGate
  | .statusAccumulating | .readCurrent | .ended => none

namespace Protocol

/-- The agent thread keeps the locks of both entries. -/
def Owned (state : Protocol α) (space : SpaceName) : Prop :=
  ∀ side, 0 < state.retained .agent (space.entry side)

/-- The agent thread consumes the space, or keeps its locks. -/
def Doomed (state : Protocol α) (space : SpaceName) : Prop :=
  state.consume.consuming = some space ∨ state.Owned space

/-- The thread cannot store into the space once it has been consumed. -/
def Lost (state : Protocol α) (thread : Thread) (space : SpaceName) : Prop :=
  thread ≠ .agent ∧ state.Doomed space

/-- Messages may wait in the space for the next time it is consumed. -/
def Receives (state : Protocol α) (space : SpaceName) : Prop :=
  state.currentSpace = space ∧ state.gate space = true

/-- What is known of the copy of a space that the thread goes on with. -/
def PlaceOf (state : Protocol α) (thread : Thread) : ProducePc SpaceName Side α → Prop
  | .testGate _ space =>
      state.currentSpace = space ∨ state.gate space = false ∨ state.Lost thread space
  | .lockMain _ space | .signalSwitch _ space | .readSwitch _ space | .writeSwitch _ space _ =>
      state.currentSpace = space → state.gate space = true ∨ state.Lost thread space
  | .releaseMain _ space | .testConsumerIn _ space | .signalConsumer _ space
  | .setAccumulate _ space | .increment _ space | .tryEntry _ space _ | .storeMsg _ space _ =>
      state.Receives space ∨ state.Lost thread space
  | .idle | .readCurrent _ | .readOther _ | .releaseEntry _ _ _ | .decrement _ _ => True

/-- Where threads and messages are, while the agent thread has not ended. -/
structure Placed (state : Protocol α) : Prop where
  ownsMain : ∀ thread, (state.produce thread).ownsMain = true → 0 < state.mainGate.holds thread
  target : ∀ thread msg space target, state.produce thread = .writeSwitch msg space target →
    target = state.currentSpace.other
  place : ∀ thread, state.PlaceOf thread (state.produce thread)
  someOpen : ∀ space, state.gate space = false → state.gate space.other = true
  opensOther : ∀ space other, state.consume = .openOther space other → other = space.other
  otherOpen : ∀ space, state.consume = .closeLocal space → state.gate space.other = true
  closed : ∀ space, state.gate space = false → state.Doomed space
  drained : ∀ space, state.consume = .send space false → state.waiting space = []
  waits : ∀ space, state.waiting space ≠ [] →
    state.Receives space ∨ state.consume.consuming = some space

theorem Placed.gated {state : Protocol α} (placed : state.Placed) : state.Gated where
  ownsMain := placed.ownsMain
  target := placed.target
  someOpen := placed.someOpen
  opensOther := placed.opensOther
  otherOpen := placed.otherOpen

/-- The step does not switch away from an open space, and does not cut a drain short. -/
def KeepsPlace (state : Protocol α) : SyncAction α → Prop
  | .produce thread => ∀ msg space target, state.produce thread = .writeSwitch msg space target →
      state.gate state.currentSpace = false
  | .consume .socketError => ∀ space, state.consume ≠ .send space true
  | _ => True

theorem placed_initial : Placed (initial : Protocol α) where
  ownsMain _ owns := by cases owns
  target _ _ _ _ pc := by cases pc
  place _ := trivial
  someOpen _ closed := by cases closed
  opensOther _ _ pc := by cases pc
  otherOpen _ pc := by cases pc
  closed _ closed := by cases closed
  drained _ pc := by cases pc
  waits _ notEmpty := absurd rfl notEmpty

section Steps

variable {state next : Protocol α} {thread : Thread}

theorem mem_waiting {space : SpaceName} {msg : α} :
    msg ∈ state.waiting space ↔ ∃ side, msg ∈ state.contents (space.entry side) := by
  simp only [waiting, List.mem_append]
  constructor
  · rintro (left | right)
    · exact ⟨.left, left⟩
    · exact ⟨.right, right⟩
  · rintro ⟨side, listed⟩
    cases side with
    | left => exact .inl listed
    | right => exact .inr listed

theorem waiting_eq_nil {space : SpaceName}
    (empty : ∀ side, state.contents (space.entry side) = []) : state.waiting space = [] := by
  simp [waiting, empty]

theorem contents_eq_nil {space : SpaceName} (empty : state.waiting space = []) (side : Side) :
    state.contents (space.entry side) = [] := by
  rcases List.append_eq_nil_iff.mp empty with ⟨left, right⟩
  cases side with
  | left => exact left
  | right => exact right

/-- A thread that stores a message does not meet a lock that the agent thread keeps. -/
theorem Accounts.not_owned_of_storeMsg (accounts : state.Accounts) {msg : α} {space : SpaceName}
    {side : Side} (pc : state.produce thread = .storeMsg msg space side)
    (notAgent : thread ≠ .agent) : ¬state.Owned space := by
  intro owned
  have covered := accounts.covered thread (space.entry side)
  have retained := owned side
  simp only [inProduce, pc, ProducePc.holding, if_true] at covered
  have byAgent := Nat.lt_of_lt_of_le retained (Nat.sub_le ..)
  exact notAgent (Mutex.eq_of_holds covered byAgent)

/-! ## What a step leaves of the places of other threads -/

/-- A space stays doomed, a gate changes for lost threads only, and a closed space is left. -/
structure Drifts (state next : Protocol α) (thread : Thread) : Prop where
  doomed : ∀ space, state.Doomed space → next.Doomed space
  gate : ∀ space, next.gate space = state.gate space ∨ next.Lost thread space
  current : next.currentSpace = state.currentSpace ∨
    next.gate state.currentSpace = false ∧ next.gate state.currentSpace.other = true ∧
      next.currentSpace = state.currentSpace.other

namespace Drifts

variable {space : SpaceName}

theorem lost (drifts : Drifts state next thread) (lost : state.Lost thread space) :
    next.Lost thread space :=
  ⟨lost.1, drifts.doomed space lost.2⟩

theorem receives (drifts : Drifts state next thread) (receives : state.Receives space) :
    next.Receives space ∨ next.Lost thread space := by
  rcases receives with ⟨rfl, isOpen⟩
  rcases drifts.gate state.currentSpace with gate | lost
  · rcases drifts.current with current | ⟨isClosed, -, -⟩
    · exact .inl ⟨current, gate.trans isOpen⟩
    · rw [gate, isOpen] at isClosed
      cases isClosed
  · exact .inr lost

theorem tested (drifts : Drifts state next thread)
    (tested : state.currentSpace = space ∨ state.gate space = false ∨
      state.Lost thread space) :
    next.currentSpace = space ∨ next.gate space = false ∨ next.Lost thread space := by
  rcases tested with rfl | isClosed | lost
  · rcases drifts.current with current | ⟨isClosed, -, -⟩
    · exact .inl current
    · exact .inr (.inl isClosed)
  · rcases drifts.gate space with gate | lost
    · exact .inr (.inl (gate.trans isClosed))
    · exact .inr (.inr lost)
  · exact .inr (.inr (drifts.lost lost))

theorem switching (drifts : Drifts state next thread)
    (switching : state.currentSpace = space → state.gate space = true ∨ state.Lost thread space)
    (current : next.currentSpace = space) :
    next.gate space = true ∨ next.Lost thread space := by
  rcases drifts.current with stays | ⟨-, isOpen, moves⟩
  · rcases switching (stays.symm.trans current) with isOpen | lost
    · rcases drifts.gate space with gate | lost
      · exact .inl (gate.trans isOpen)
      · exact .inr lost
    · exact .inr (drifts.lost lost)
  · rw [← current, moves]
    exact .inl isOpen

theorem placeOf (drifts : Drifts state next thread) {pc : ProducePc SpaceName Side α}
    (place : state.PlaceOf thread pc) : next.PlaceOf thread pc := by
  cases pc with
  | testGate msg space => exact drifts.tested place
  | lockMain msg space | signalSwitch msg space | readSwitch msg space | writeSwitch msg space =>
      exact drifts.switching place
  | releaseMain msg space | testConsumerIn msg space | signalConsumer msg space
  | setAccumulate msg space | increment msg space | tryEntry msg space | storeMsg msg space =>
      rcases place with receives | lost
      · exact drifts.receives receives
      · exact .inr (drifts.lost lost)
  | idle | readCurrent msg | readOther msg | releaseEntry msg space | decrement msg space =>
      trivial

end Drifts

/-! ## Steps of `onProduce` -/

theorem Balanced.doomed_iff (balanced : Balanced state next) (accounts : state.Accounts)
    (consume : next.consume = state.consume) (space : SpaceName) :
    next.Doomed space ↔ state.Doomed space := by
  unfold Doomed Owned
  simp only [consume, balanced.retained accounts]

theorem ProduceStep.doomed_iff (accounts : state.Accounts)
    (step : state.ProduceStep thread next) (space : SpaceName) :
    next.Doomed space ↔ state.Doomed space :=
  (step.balanced accounts).doomed_iff accounts step.consume space

/-- The current space changes in one step only, and only if it is closed. -/
theorem ProduceStep.currentSpace (placed : state.Placed)
    (keepsPlace : state.KeepsPlace (.produce thread)) (step : state.ProduceStep thread next) :
    next.currentSpace = state.currentSpace ∨ state.gate state.currentSpace = false ∧
      next.currentSpace = state.currentSpace.other := by
  rcases step.switches placed.gated with stays | ⟨_, _, switching, moves⟩
  · exact .inl stays
  · exact .inr ⟨keepsPlace _ _ _ switching, moves⟩

theorem ProduceStep.drifts (placed : state.Placed) (accounts : state.Accounts)
    (keepsPlace : state.KeepsPlace (.produce thread)) (step : state.ProduceStep thread next)
    (other : Thread) : Drifts state next other where
  doomed space doomed := (step.doomed_iff accounts space).mpr doomed
  gate space := .inl (by rw [step.gate])
  current := by
    rcases step.currentSpace placed keepsPlace with stays | ⟨isClosed, moves⟩
    · exact .inl stays
    · rw [step.gate]
      exact .inr ⟨isClosed, placed.someOpen _ isClosed, moves⟩

/-- A thread that stores does so into the current space or the one that is consumed. -/
theorem Placed.storing (placed : state.Placed) (accounts : state.Accounts) {msg : α}
    {space : SpaceName} {side : Side} (pc : state.produce thread = .storeMsg msg space side) :
    state.Receives space ∨ thread ≠ .agent ∧ state.consume.consuming = some space := by
  have place := placed.place thread
  rw [pc] at place
  rcases place with receives | ⟨notAgent, consuming | owned⟩
  · exact .inl receives
  · exact .inr ⟨notAgent, consuming⟩
  · exact absurd owned (accounts.not_owned_of_storeMsg pc notAgent)

theorem Accounts.owned_of_locked (accounts : state.Accounts) {space : SpaceName}
    (left : state.consume.lockedLeft = some space)
    (right : state.consume.lockedRight = some space) : state.Owned space := by
  intro side
  cases side with
  | left => exact accounts.left space left
  | right => exact accounts.right space right

/-- Nobody stores into a space that the agent thread has locked in its section. -/
theorem Accounts.not_storing (accounts : state.Accounts) {msg : α} {space : SpaceName}
    {side : Side} (pc : state.produce thread = .storeMsg msg space side)
    (left : state.consume.lockedLeft = some space)
    (right : state.consume.lockedRight = some space) : False := by
  by_cases isAgent : thread = .agent
  · subst isAgent
    have atCommand := accounts.atCommand (by rw [pc]; simp)
    rw [atCommand] at left
    cases left
  · exact accounts.not_owned_of_storeMsg pc isAgent (accounts.owned_of_locked left right)

/-- The step of a thread leads it to where its copy of a space is worth something. -/
theorem Placed.place_self (placed : state.Placed) (drifts : Drifts state next thread)
    (keepsPlace : state.KeepsPlace (.produce thread)) (step : state.ProduceStep thread next) :
    next.PlaceOf thread (next.produce thread) := by
  have place := placed.place thread
  cases step with
  | readCurrent pc =>
      rw [goOn_self]
      exact .inl rfl
  | testGate_open pc isOpen =>
      rw [goOn_self]
      rw [pc] at place
      rcases place with current | isClosed | lost
      · exact .inl ⟨current, isOpen⟩
      · rw [isOpen] at isClosed
        cases isClosed
      · exact .inr (drifts.lost lost)
  | readOther pc =>
      rw [goOn_self]
      exact fun current => absurd current (SpaceName.ne_other _)
  | lockMain pc | signalSwitch pc | readSwitch pc | releaseMain pc | testConsumerIn_in pc
  | testConsumerIn_out pc | signalConsumer pc | setAccumulate pc | increment pc
  | tryEntry_acquired pc | tryEntry_timeout pc =>
      rw [goOn_self]
      rw [pc] at place
      exact drifts.placeOf place
  | @writeSwitch msg space target pc =>
      rw [goOn_self]
      rw [pc] at place
      have isClosed := keepsPlace _ _ _ pc
      have switched := placed.target _ _ _ _ pc
      by_cases current : state.currentSpace = space
      · rcases place current with isOpen | lost
        · rw [current, isOpen] at isClosed
          cases isClosed
        · exact .inr (drifts.lost lost)
      · have isOther : target = space := by
          rw [switched, SpaceName.eq_other_of_ne current, SpaceName.other_other]
        refine .inl ⟨isOther, ?_⟩
        rw [← isOther, switched]
        exact placed.someOpen _ isClosed
  | testGate_closed pc | storeMsg pc | releaseEntry pc | decrement pc =>
      rw [goOn_self]
      trivial

/-- What a step of `onProduce` does to the messages that wait. -/
theorem ProduceStep.contents (step : state.ProduceStep thread next) :
    next.contents = state.contents ∨ ∃ msg space side,
      state.produce thread = .storeMsg msg space side ∧
        next.contents = Function.update state.contents (space.entry side)
          (state.contents (space.entry side) ++ [msg]) := by
  cases step with
  | storeMsg pc => exact .inr ⟨_, _, _, pc, rfl⟩
  | _ => exact .inl rfl

theorem ProduceStep.waiting_of_ne (step : state.ProduceStep thread next) {space : SpaceName}
    (elsewhere : ∀ msg side, state.produce thread ≠ .storeMsg msg space side) :
    next.waiting space = state.waiting space := by
  rcases step.contents with same | ⟨msg, stored, side, atStore, updated⟩
  · rw [waiting, same, waiting]
  · have different : space ≠ stored := by
      rintro rfl
      exact elsewhere msg side atStore
    simp [waiting, updated, different]

theorem ProduceStep.receives (placed : state.Placed)
    (keepsPlace : state.KeepsPlace (.produce thread)) (step : state.ProduceStep thread next)
    {space : SpaceName} (receives : state.Receives space) : next.Receives space := by
  rcases receives with ⟨rfl, isOpen⟩
  rcases step.currentSpace placed keepsPlace with stays | ⟨isClosed, -⟩
  · exact ⟨stays, by rw [step.gate, isOpen]⟩
  · rw [isOpen] at isClosed
    cases isClosed

theorem Placed.produceStep (placed : state.Placed) (accounts : state.Accounts)
    (keepsPlace : state.KeepsPlace (.produce thread)) (step : state.ProduceStep thread next) :
    next.Placed where
  ownsMain := (placed.gated.produceStep step).ownsMain
  target := (placed.gated.produceStep step).target
  place other := by
    have drifts := step.drifts placed accounts keepsPlace other
    by_cases self : other = thread
    · subst self
      exact placed.place_self drifts keepsPlace step
    · rw [step.others self]
      exact drifts.placeOf (placed.place other)
  someOpen := (placed.gated.produceStep step).someOpen
  opensOther := (placed.gated.produceStep step).opensOther
  otherOpen := (placed.gated.produceStep step).otherOpen
  closed space := by
    rw [step.gate, step.doomed_iff accounts]
    exact placed.closed space
  drained space pc := by
    rw [step.consume] at pc
    have elsewhere : ∀ msg side, state.produce thread ≠ .storeMsg msg space side :=
      fun _ _ atStore => accounts.not_storing atStore (by rw [pc]; rfl) (by rw [pc]; rfl)
    rw [step.waiting_of_ne elsewhere]
    exact placed.drained space pc
  waits space notEmpty := by
    rw [step.consume]
    have kept : state.Receives space ∨ state.consume.consuming = some space := by
      by_cases stores : ∃ msg side, state.produce thread = .storeMsg msg space side
      · rcases stores with ⟨msg, side, atStore⟩
        exact (placed.storing accounts atStore).imp_right And.right
      · rw [step.waiting_of_ne fun msg side atStore => stores ⟨msg, side, atStore⟩] at notEmpty
        exact placed.waits space notEmpty
    exact kept.imp_left (step.receives placed keepsPlace)

/-! ## Steps of the flush loop -/

/-- The flush loop takes messages away only. -/
theorem ConsumeStep.waiting_sublist (step : state.ConsumeStep next) (space : SpaceName) :
    (next.waiting space).Sublist (state.waiting space) := by
  cases step with
  | @retrieve consumed pending sends printed contents pc others order complete =>
      by_cases same : space = consumed
      · subst same
        exact (List.sublist_append_right ..).trans order
      · rw [SpaceName.eq_other_of_ne same]
        simp only [flushOn, waiting, others]
        exact List.Sublist.refl _
  | _ => exact List.Sublist.refl _

/-- A section ends when its space is empty and its locks are kept. -/
theorem ConsumeStep.consuming (placed : state.Placed) (accounts : state.Accounts)
    (step : state.ConsumeStep next) {space : SpaceName}
    (consuming : state.consume.consuming = some space) :
    next.consume.consuming = some space ∨ state.Owned space ∧ next.waiting space = [] := by
  cases step with
  | @retrieve consumed pending sends printed contents pc others order complete =>
      rw [pc] at consuming
      cases consuming
      cases sends
      · cases pending
        · exact .inr ⟨accounts.owned_of_locked (by rw [pc]; rfl) (by rw [pc]; rfl),
            waiting_eq_nil (complete rfl)⟩
        · exact .inl rfl
      · exact .inl rfl
  | @sent consumed pending pc =>
      rw [pc] at consuming
      cases consuming
      cases pending
      · exact .inr ⟨accounts.owned_of_locked (by rw [pc]; rfl) (by rw [pc]; rfl),
          placed.drained space pc⟩
      · exact .inl rfl
  | readOther pc | openOther pc | closeLocal pc | clearConsumerIn pc | waitThreads pc
  | waitLeft pc | waitRight pc | setConsuming pc | statusNormal pc =>
      rw [pc] at consuming
      exact .inl consuming
  | processIncoming pc | entered pc | timeout pc | setConsumerIn pc | resetConsumerGate pc
  | statusAccumulating pc | readCurrent pc =>
      rw [pc] at consuming
      cases consuming

theorem ConsumeStep.doomed (placed : state.Placed) (accounts : state.Accounts)
    (step : state.ConsumeStep next) {space : SpaceName} (doomed : state.Doomed space) :
    next.Doomed space := by
  have kept : state.Owned space → next.Owned space := fun owned side =>
    Nat.lt_of_lt_of_le (owned side) (step.retained_le .agent _)
  rcases doomed with consuming | owned
  · exact (step.consuming placed accounts consuming).imp_right fun ended => kept ended.1
  · exact .inr (kept owned)

/-- The flush loop changes the gates of doomed spaces only. -/
theorem ConsumeStep.gate (placed : state.Placed) (accounts : state.Accounts)
    (step : state.ConsumeStep next) (space : SpaceName) :
    next.gate space = state.gate space ∨ next.Doomed space := by
  have doomed : state.Doomed space → next.Doomed space := step.doomed placed accounts
  cases step with
  | @openOther consumed other pc =>
      by_cases same : space = other
      · subst same
        cases gate : state.gate space with
        | false => exact .inr (doomed (placed.closed space gate))
        | true => exact .inl (Function.update_self ..)
      · exact .inl (Function.update_of_ne same ..)
  | @closeLocal consumed pc =>
      by_cases same : space = consumed
      · subst same
        exact .inr (.inl rfl)
      · exact .inl (Function.update_of_ne same ..)
  | _ => exact .inl rfl

theorem ConsumeStep.placeOf (placed : state.Placed) (accounts : state.Accounts)
    (idle : state.produce .agent = .idle) (step : state.ConsumeStep next) (other : Thread) :
    next.PlaceOf other (state.produce other) := by
  by_cases isAgent : other = .agent
  · rw [isAgent, idle]
    trivial
  · have drifts : Drifts state next other :=
      { doomed := fun _ => step.doomed placed accounts
        gate := fun space => (step.gate placed accounts space).imp_right fun doomed =>
          ⟨isAgent, doomed⟩
        current := .inl step.currentSpace }
    exact drifts.placeOf (placed.place other)

theorem ConsumeStep.receives (step : state.ConsumeStep next) {space : SpaceName}
    (receives : state.Receives space) :
    next.Receives space ∨ next.consume.consuming = some space := by
  cases step with
  | @openOther consumed other pc =>
      refine .inl ⟨receives.1, ?_⟩
      simp only [flushOn, Function.update_apply]
      split
      · rfl
      · exact receives.2
  | @closeLocal consumed pc =>
      by_cases same : space = consumed
      · subst same
        exact .inr rfl
      · exact .inl ⟨receives.1, (Function.update_of_ne same ..).trans receives.2⟩
  | _ => exact .inl receives

theorem Placed.consumeStep (placed : state.Placed) (accounts : state.Accounts)
    (idle : state.produce .agent = .idle) (step : state.ConsumeStep next) : next.Placed where
  ownsMain := (placed.gated.consumeStep step).ownsMain
  target := (placed.gated.consumeStep step).target
  place other := by
    rw [step.produce]
    exact step.placeOf placed accounts idle other
  someOpen := (placed.gated.consumeStep step).someOpen
  opensOther := (placed.gated.consumeStep step).opensOther
  otherOpen := (placed.gated.consumeStep step).otherOpen
  closed space isClosed := by
    rcases step.gate placed accounts space with same | doomed
    · exact step.doomed placed accounts (placed.closed space (same.symm.trans isClosed))
    · exact doomed
  drained space pc := by
    cases step with
    | @retrieve consumed pending sends printed contents atRetrieve others order complete =>
        cases sends
        · cases pending <;> cases pc
        · cases pc
          exact waiting_eq_nil (complete rfl)
    | @sent space pending => cases pending <;> cases pc
    | _ => cases pc
  waits space notEmpty := by
    have before : state.waiting space ≠ [] := fun empty =>
      notEmpty (List.sublist_nil.mp (empty ▸ step.waiting_sublist space))
    rcases placed.waits space before with receives | consuming
    · exact step.receives receives
    · rcases step.consuming placed accounts consuming with still | ⟨-, empty⟩
      · exact .inr still
      · exact absurd empty notEmpty

/-! ## Every step -/

theorem Placed.call (placed : state.Placed) (accounts : state.Accounts) {msg : α}
    (idle : state.produce thread = .idle) :
    Placed (goOn { state with calls := state.calls ++ [.called thread msg] } thread
      (.readCurrent msg)) := by
  have doomed := (balanced_of_call idle msg).doomed_iff accounts rfl
  refine
    { placed with
      ownsMain := (placed.gated.call msg).ownsMain
      target := (placed.gated.call msg).target
      place := fun other => ?_
      closed := fun space isClosed => (doomed space).mpr (placed.closed space isClosed) }
  have drifts : Drifts state
      (goOn { state with calls := state.calls ++ [.called thread msg] } thread
        (.readCurrent msg)) other :=
    { doomed := fun space => (doomed space).mpr
      gate := fun _ => .inl rfl
      current := .inl rfl }
  by_cases self : other = thread
  · subst self
    rw [goOn_self]
    trivial
  · rw [goOn_of_ne _ self]
    exact drifts.placeOf (placed.place other)

/-- A step that keeps the place keeps all that is known of places. -/
theorem Placed.step (placed : state.Placed) (accounts : state.Accounts) {action : SyncAction α}
    (keepsPlace : state.KeepsPlace action) (stepped : state.Step action next) :
    next.consume = .ended ∨ next.Placed := by
  cases stepped with
  | call idle atCommand own => exact .inr (placed.call accounts idle)
  | produce step => exact .inr (placed.produceStep accounts keepsPlace step)
  | sleep idle pc => exact .inr placed
  | consume idle step => exact .inr (placed.consumeStep accounts idle step)
  | @sendError space pending idle pc =>
      cases pending with
      | false => exact .inr (placed.consumeStep accounts idle (.sent pc))
      | true => exact absurd pc (keepsPlace space)
  | exit idle mayExit => exact .inl rfl

theorem Step.consume_ended {action : SyncAction α} (stepped : state.Step action next)
    (ended : state.consume = .ended) : next.consume = .ended := by
  cases stepped with
  | call idle atCommand own => exact ended
  | produce step => rw [step.consume, ended]
  | sleep idle pc => exact ended
  | consume idle step => cases step <;> simp_all
  | sendError idle pc => simp_all
  | exit idle mayExit => rfl

/-- The accounts, and the places as long as the agent thread has not ended. -/
def Led (state : Protocol α) : Prop :=
  state.Accounts ∧ (state.consume = .ended ∨ state.Placed)

theorem led_initial : Led (initial : Protocol α) := ⟨accounts_initial, .inr placed_initial⟩

theorem Led.step (led : state.Led) {action : SyncAction α} (keepsPlace : state.KeepsPlace action)
    (stepped : state.Step action next) : next.Led := by
  rcases led with ⟨accounts, ended | placed⟩
  · exact ⟨accounts.step stepped, .inl (stepped.consume_ended ended)⟩
  · exact ⟨accounts.step stepped, placed.step accounts keepsPlace stepped⟩

end Steps

end Protocol

namespace SyncState

variable {holds : σ → (HolderName → List α) → Prop} {state : SyncState σ α}
  {protocol : Protocol α}

def isSignalled (state : SyncState σ α) (handle : ℕ) : Bool :=
  (state.memory.events.cell handle).any Event.signalled

/-- The step does not switch away from an open space, and does not cut a drain short. -/
def keepsPlace (state : SyncState σ α) : SyncAction α → Bool
  | .produce thread =>
      match state.produce thread with
      | .writeSwitch _ _ _ => !state.isSignalled (state.space state.currentSpace).gate
      | _ => true
  | .consume .socketError =>
      match state.consume with
      | .send _ pending => !pending
      | _ => true
  | _ => true

theorem Refines.isSignalled_gate (refines : state.Refines holds protocol) (space : SpaceName) :
    state.isSignalled (state.space space).gate = protocol.gate space := by
  rw [isSignalled, refines.space, refines.memory.gate]
  rfl

theorem Refines.isSignalled_consumerGate (refines : state.Refines holds protocol) :
    state.isSignalled state.consumerGate = protocol.consumerGate := by
  rw [isSignalled, refines.consumerGate, refines.memory.consumerGate]
  rfl

theorem Refines.keepsPlace (refines : state.Refines holds protocol) {action : SyncAction α}
    (keeps : state.keepsPlace action = true) : protocol.KeepsPlace action := by
  cases action with
  | produce thread =>
      intro msg space target pc
      have same := refines.produce thread
      rw [pc] at same
      generalize codePc : state.produce thread = abstractPc at same
      cases same with
      | writeSwitch copy =>
          simp only [SyncState.keepsPlace, codePc, refines.isSignalled_gate,
            refines.currentSpace] at keeps
          simpa using keeps
  | consume result =>
      cases result with
      | socketError =>
          intro space pc
          have same := refines.consume
          rw [pc] at same
          generalize codePc : state.consume = abstractPc at same
          cases same with
          | send =>
              simp only [SyncState.keepsPlace, codePc] at keeps
              cases keeps
      | done | timeout => trivial
  | call thread msg | exit => trivial

end SyncState

end HeapScan
