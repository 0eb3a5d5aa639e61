import HeapScan.Synchronizer.Placement

/-!
# The order of two messages

A message whose `onProduce` has returned when another one is called stays ahead of
it: in the other space it is only while that space is being drained, and in the
same space it is behind only where the later message went to the left entry and
the earlier one waits in the right entry.  This needs that no thread switches away
from an open space, and that no drain is cut short.
-/

namespace HeapScan

open Transition

variable {σ α : Type}

/-- The message that a thread has still to store. -/
def ProducePc.unstored : ProducePc SpaceName Side α → Option α
  | .readCurrent msg | .testGate msg _ | .readOther msg | .lockMain msg _ | .signalSwitch msg _
  | .readSwitch msg _ | .writeSwitch msg _ _ | .releaseMain msg _ | .testConsumerIn msg _
  | .signalConsumer msg _ | .setAccumulate msg _ | .increment msg _ | .tryEntry msg _ _
  | .storeMsg msg _ _ => some msg
  | .idle | .releaseEntry _ _ _ | .decrement _ _ => none

/-- The message of the call that a thread is in. -/
def ProducePc.message : ProducePc SpaceName Side α → Option α
  | .releaseEntry msg _ _ | .decrement msg _ => some msg
  | pc => pc.unstored

theorem ProducePc.message_of_unstored {pc : ProducePc SpaceName Side α} {msg : α}
    (unstored : pc.unstored = some msg) : pc.message = some msg := by
  cases pc <;> first | exact unstored | cases unstored

/-- The second message comes nowhere before the first one. -/
def NotAfter (first second : α) (msgs : List α) : Prop :=
  msgs.Pairwise fun earlier later => ¬(earlier = second ∧ later = first)

namespace NotAfter

variable {first second msg : α} {msgs before after : List α}

theorem of_not_mem (absent : second ∉ msgs) : NotAfter first second msgs :=
  List.pairwise_of_forall_mem_list fun _ listed _ _ both => absent (both.1 ▸ listed)

theorem insert (notAfter : NotAfter first second (before ++ after)) (notFirst : msg ≠ first)
    (behind : msg = second → first ∉ after) :
    NotAfter first second (before ++ msg :: after) := by
  unfold NotAfter at *
  simp only [List.pairwise_append, List.pairwise_cons, List.mem_cons] at notAfter ⊢
  rcases notAfter with ⟨beforeSorted, afterSorted, across⟩
  refine ⟨beforeSorted, ⟨fun later listed both => ?_, afterSorted⟩, fun earlier early later => ?_⟩
  · exact behind both.1 (both.2 ▸ listed)
  · rintro (rfl | listed)
    · exact fun both => notFirst both.2
    · exact across earlier early later listed

theorem ordered (notAfter : NotAfter first second msgs) (different : first ≠ second)
    (firstListed : first ∈ msgs) (secondListed : second ∈ msgs) :
    [first, second].Sublist msgs := by
  rcases List.append_of_mem firstListed with ⟨before, after, rfl⟩
  have ahead : second ∈ after := by
    rcases List.mem_append.mp secondListed with early | late
    · have across := (List.pairwise_append.mp notAfter).2.2 second early first
        (List.mem_cons_self ..)
      exact absurd ⟨rfl, rfl⟩ across
    · exact (List.mem_cons.mp late).resolve_left (Ne.symm different)
  exact ((List.singleton_sublist.mpr ahead).cons_cons first).trans
    (List.sublist_append_right before _)

end NotAfter

namespace Protocol

/-- `onProduce` has been called with the message. -/
def Called (state : Protocol α) (msg : α) : Prop :=
  ∃ caller, .called caller msg ∈ state.calls

/-- A message is in the hands of one thread, or waits, or has been handed out. -/
structure Books (state : Protocol α) : Prop where
  called : ∀ thread msg, (state.produce thread).message = some msg → state.Called msg
  once : ∀ one two msg, (state.produce one).message = some msg →
    (state.produce two).message = some msg → one = two
  waiting : ∀ space, ∀ msg ∈ state.waiting space, state.Called msg
  handedOut : ∀ msg ∈ state.handedOut, state.Called msg
  returned : ∀ thread msg, .returned thread msg ∈ state.calls →
    state.Called msg ∧ ∀ other, (state.produce other).unstored ≠ some msg
  unstored : ∀ thread msg, (state.produce thread).unstored = some msg →
    msg ∉ state.handedOut ∧ ∀ space, msg ∉ state.waiting space

theorem books_initial : Books (initial : Protocol α) where
  called _ _ message := by cases message
  once _ _ _ message := by cases message
  waiting _ _ listed := by cases listed
  handedOut _ listed := by cases listed
  returned _ _ listed := by cases listed
  unstored _ _ unstored := by cases unstored

section Steps

variable {state next : Protocol α} {thread : Thread} {msg : α}

/-! ## The books -/

theorem ProduceStep.message (step : state.ProduceStep thread next) {other : Thread}
    (message : (next.produce other).message = some msg) :
    (state.produce other).message = some msg := by
  by_cases self : other = thread
  · subst self
    cases step with
    | decrement pc =>
        rw [goOn_self] at message
        cases message
    | readCurrent pc | testGate_open pc | testGate_closed pc | readOther pc | lockMain pc
    | signalSwitch pc | readSwitch pc | writeSwitch pc | releaseMain pc | testConsumerIn_in pc
    | testConsumerIn_out pc | signalConsumer pc | setAccumulate pc | increment pc
    | tryEntry_acquired pc | tryEntry_timeout pc | storeMsg pc | releaseEntry pc =>
        rw [goOn_self] at message
        rw [pc]
        exact message
  · rwa [step.others self] at message

/-- A thread still has to store only what it had to store before. -/
theorem ProduceStep.unstored (step : state.ProduceStep thread next) {other : Thread}
    (unstored : (next.produce other).unstored = some msg) :
    (state.produce other).unstored = some msg ∧
      (other = thread →
        ∀ stored space side, state.produce thread ≠ .storeMsg stored space side) := by
  by_cases self : other = thread
  · subst self
    cases step with
    | storeMsg pc | releaseEntry pc | decrement pc =>
        rw [goOn_self] at unstored
        cases unstored
    | readCurrent pc | testGate_open pc | testGate_closed pc | readOther pc | lockMain pc
    | signalSwitch pc | readSwitch pc | writeSwitch pc | releaseMain pc | testConsumerIn_in pc
    | testConsumerIn_out pc | signalConsumer pc | setAccumulate pc | increment pc
    | tryEntry_acquired pc | tryEntry_timeout pc =>
        rw [goOn_self] at unstored
        rw [pc]
        exact ⟨unstored, fun _ _ _ _ atStore => by cases atStore⟩
  · rw [step.others self] at unstored
    exact ⟨unstored, fun same => absurd same self⟩

theorem ProduceStep.calls (step : state.ProduceStep thread next) :
    next.calls = state.calls ∨ ∃ msg space, state.produce thread = .decrement msg space ∧
      next.calls = state.calls ++ [.returned thread msg] := by
  cases step with
  | decrement pc => exact .inr ⟨_, _, pc, rfl⟩
  | _ => exact .inl rfl

theorem ProduceStep.called (step : state.ProduceStep thread next) (called : state.Called msg) :
    next.Called msg := by
  rcases called with ⟨caller, listed⟩
  rcases step.calls with same | ⟨_, _, _, more⟩
  · exact ⟨caller, same ▸ listed⟩
  · exact ⟨caller, more ▸ List.mem_append_left _ listed⟩

theorem ProduceStep.handedOut (step : state.ProduceStep thread next) :
    next.handedOut = state.handedOut := by
  cases step <;> rfl

/-- A message that waits was waiting, or has been stored. -/
theorem ProduceStep.mem_waiting (step : state.ProduceStep thread next) {space : SpaceName}
    (listed : msg ∈ next.waiting space) :
    msg ∈ state.waiting space ∨ ∃ side, state.produce thread = .storeMsg msg space side := by
  by_cases stores : ∃ stored side, state.produce thread = .storeMsg stored space side
  · rcases stores with ⟨stored, side, atStore⟩
    rcases step.contents with same | ⟨other, target, otherSide, atTarget, updated⟩
    · rw [waiting, same] at listed
      exact .inl listed
    · rw [atStore] at atTarget
      cases atTarget
      rcases Protocol.mem_waiting.mp listed with ⟨place, inPlace⟩
      rw [updated] at inPlace
      by_cases here : place = side
      · subst here
        rw [Function.update_self, List.mem_append, List.mem_singleton] at inPlace
        rcases inPlace with old | rfl
        · exact .inl (Protocol.mem_waiting.mpr ⟨place, old⟩)
        · exact .inr ⟨place, atStore⟩
      · rw [Function.update_of_ne (by simpa using here)] at inPlace
        exact .inl (Protocol.mem_waiting.mpr ⟨place, inPlace⟩)
  · rw [step.waiting_of_ne fun stored side atStore => stores ⟨stored, side, atStore⟩] at listed
    exact .inl listed

theorem Books.produceStep (books : state.Books) (step : state.ProduceStep thread next) :
    next.Books where
  called other msg message := step.called (books.called other msg (step.message message))
  once one two msg byOne byTwo :=
    books.once one two msg (step.message byOne) (step.message byTwo)
  waiting space msg listed := by
    rcases step.mem_waiting listed with old | ⟨side, atStore⟩
    · exact step.called (books.waiting space msg old)
    · exact step.called (books.called thread msg (by rw [atStore]; rfl))
  handedOut msg listed := by
    rw [step.handedOut] at listed
    exact step.called (books.handedOut msg listed)
  returned caller msg listed := by
    rcases step.calls with same | ⟨done, space, atEnd, more⟩
    · rw [same] at listed
      have before := books.returned caller msg listed
      exact ⟨step.called before.1, fun other unstored => before.2 other (step.unstored unstored).1⟩
    · rw [more, List.mem_append, List.mem_singleton] at listed
      rcases listed with old | now
      · have before := books.returned caller msg old
        exact ⟨step.called before.1,
          fun other unstored => before.2 other (step.unstored unstored).1⟩
      · cases now
        have message : (state.produce thread).message = some msg := by rw [atEnd]; rfl
        refine ⟨step.called (books.called thread msg message), fun other unstored => ?_⟩
        have before := (step.unstored unstored).1
        have same := books.once other thread msg (ProducePc.message_of_unstored before) message
        rw [same, atEnd] at before
        cases before
  unstored other msg unstored := by
    rcases step.unstored unstored with ⟨before, notStored⟩
    have apart := books.unstored other msg before
    refine ⟨by rw [step.handedOut]; exact apart.1, fun space listed => ?_⟩
    rcases step.mem_waiting listed with old | ⟨side, atStore⟩
    · exact apart.2 space old
    · have same := books.once other thread msg (ProducePc.message_of_unstored before)
        (by rw [atStore]; rfl)
      exact notStored same msg space side atStore

theorem ConsumeStep.calls (step : state.ConsumeStep next) : next.calls = state.calls := by
  cases step <;> rfl

theorem ConsumeStep.mem_handedOut (step : state.ConsumeStep next)
    (listed : msg ∈ next.handedOut) :
    msg ∈ state.handedOut ∨ ∃ space, msg ∈ state.waiting space := by
  cases step with
  | retrieve pc others order complete =>
      rcases List.mem_append.mp listed with old | printed
      · exact .inl old
      · exact .inr ⟨_, order.subset (List.mem_append_left _ printed)⟩
  | _ => exact .inl listed

theorem Books.consumeStep (books : state.Books) (step : state.ConsumeStep next) :
    next.Books where
  called := by
    unfold Called
    rw [step.produce, step.calls]
    exact books.called
  once := by
    rw [step.produce]
    exact books.once
  waiting space msg listed := by
    unfold Called
    rw [step.calls]
    exact books.waiting space msg ((step.waiting_sublist space).subset listed)
  handedOut msg listed := by
    unfold Called
    rw [step.calls]
    rcases step.mem_handedOut listed with old | ⟨space, waited⟩
    · exact books.handedOut msg old
    · exact books.waiting space msg waited
  returned := by
    unfold Called
    rw [step.produce, step.calls]
    exact books.returned
  unstored other msg unstored := by
    rw [step.produce] at unstored
    have apart := books.unstored other msg unstored
    refine ⟨fun listed => ?_, fun space listed =>
      apart.2 space ((step.waiting_sublist space).subset listed)⟩
    rcases step.mem_handedOut listed with old | ⟨space, waited⟩
    · exact apart.1 old
    · exact apart.2 space waited

theorem Books.call (books : state.Books) (idle : state.produce thread = .idle)
    (own : ∀ caller, .called caller msg ∉ state.calls) :
    Books (goOn { state with calls := state.calls ++ [.called thread msg] } thread
      (.readCurrent msg)) := by
  have fresh : ¬state.Called msg := fun ⟨caller, listed⟩ => own caller listed
  have before {other : Thread} {taken : α}
      (message : ((goOn { state with calls := state.calls ++ [.called thread msg] } thread
        (.readCurrent msg)).produce other).message = some taken) :
      other = thread ∧ taken = msg ∨
        other ≠ thread ∧ (state.produce other).message = some taken := by
    by_cases self : other = thread
    · subst self
      rw [goOn_self] at message
      exact .inl ⟨rfl, (Option.some.inj message).symm⟩
    · rw [goOn_of_ne _ self] at message
      exact .inr ⟨self, message⟩
  have still {taken : α} (called : state.Called taken) :
      Called (goOn { state with calls := state.calls ++ [.called thread msg] } thread
        (.readCurrent msg)) taken :=
    called.imp fun _ listed => List.mem_append_left _ listed
  refine ⟨fun other taken message => ?_, fun one two taken byOne byTwo => ?_,
    fun space taken listed => still (books.waiting space taken listed),
    fun taken listed => still (books.handedOut taken listed), fun caller taken listed => ?_,
    fun other taken unstored => ?_⟩
  · rcases before message with ⟨rfl, rfl⟩ | ⟨-, message⟩
    · exact ⟨other, List.mem_append_right _ (List.mem_singleton_self _)⟩
    · exact still (books.called other taken message)
  · rcases before byOne with ⟨rfl, rfl⟩ | ⟨-, messageOne⟩
    · rcases before byTwo with ⟨rfl, -⟩ | ⟨-, messageTwo⟩
      · rfl
      · exact absurd (books.called two taken messageTwo) fresh
    · rcases before byTwo with ⟨rfl, rfl⟩ | ⟨-, messageTwo⟩
      · exact absurd (books.called one taken messageOne) fresh
      · exact books.once one two taken messageOne messageTwo
  · have listed : .returned caller taken ∈ state.calls := by
      rcases List.mem_append.mp listed with old | now
      · exact old
      · cases List.mem_singleton.mp now
    have returned := books.returned caller taken listed
    refine ⟨still returned.1, fun other unstored => ?_⟩
    by_cases self : other = thread
    · subst self
      rw [goOn_self] at unstored
      cases unstored
      exact fresh returned.1
    · rw [goOn_of_ne _ self] at unstored
      exact returned.2 other unstored
  · by_cases self : other = thread
    · subst self
      rw [goOn_self] at unstored
      cases unstored
      exact ⟨fun listed => fresh (books.handedOut msg listed),
        fun space listed => fresh (books.waiting space msg listed)⟩
    · rw [goOn_of_ne _ self] at unstored
      exact books.unstored other taken unstored

theorem Books.step (books : state.Books) {action : SyncAction α}
    (stepped : state.Step action next) : next.Books := by
  cases stepped with
  | call idle atCommand own => exact books.call idle own
  | produce step => exact books.produceStep step
  | sleep idle pc => exact books
  | consume idle step => exact books.consumeStep step
  | sendError idle pc => exact { books with }
  | exit idle mayExit => exact { books with }

/-! ## The order -/

/-- The message waits in the space only while the space is consumed. -/
def Leaving (state : Protocol α) (msg : α) (space : SpaceName) : Prop :=
  msg ∈ state.waiting space → state.consume.consuming = some space

/-- Where a thread is led, the message does not come in another space behind. -/
def LeavesBehind (state : Protocol α) (msg : α) : ProducePc SpaceName Side α → Prop
  | .testGate _ space | .testConsumerIn _ space | .signalConsumer _ space
  | .setAccumulate _ space | .increment _ space | .tryEntry _ space _ | .storeMsg _ space _ =>
      state.Leaving msg space.other
  | .readOther _ | .lockMain _ _ | .signalSwitch _ _ | .readSwitch _ _ | .writeSwitch _ _ _
  | .releaseMain _ _ => ∀ space, state.Leaving msg space
  | .idle | .readCurrent _ | .releaseEntry _ _ _ | .decrement _ _ => True

/-- The first message has been stored before the second one was called. -/
structure InOrder (state : Protocol α) (first second : α) : Prop where
  firstCalled : state.Called first
  firstStored : ∀ thread, (state.produce thread).unstored ≠ some first
  apart : ∀ space, second ∈ state.waiting space → state.Leaving first space.other
  behind : ∀ thread, (state.produce thread).unstored = some second →
    state.LeavesBehind first (state.produce thread)
  notAfter : ∀ space, NotAfter first second (state.handedOut ++ state.waiting space)

/-- The second message does not go to the left of the first one in a space. -/
def NotOvertaken (state : Protocol α) (first second : α) : Prop :=
  ∀ thread space, state.produce thread = .storeMsg second space .left →
    first ∉ state.contents (space.entry .right)

variable {first second : α}

theorem LeavesBehind.mono
    (leaving : ∀ space, state.Leaving first space → next.Leaving first space)
    {pc : ProducePc SpaceName Side α} (behind : state.LeavesBehind first pc) :
    next.LeavesBehind first pc := by
  cases pc with
  | testGate msg space | testConsumerIn msg space | signalConsumer msg space
  | setAccumulate msg space | increment msg space | tryEntry msg space | storeMsg msg space =>
      exact leaving _ behind
  | readOther | lockMain | signalSwitch | readSwitch | writeSwitch | releaseMain =>
      exact fun space => leaving space (behind space)
  | idle | readCurrent | releaseEntry | decrement => trivial

theorem InOrder.leaving_produceStep (inOrder : state.InOrder first second)
    (step : state.ProduceStep thread next) (space : SpaceName)
    (leaving : state.Leaving first space) : next.Leaving first space := by
  intro listed
  rw [step.consume]
  rcases step.mem_waiting listed with old | ⟨side, atStore⟩
  · exact leaving old
  · exact absurd (by rw [atStore]; rfl) (inOrder.firstStored thread)

/-- What the thread of the second message leaves behind, it has left behind before. -/
theorem InOrder.behind_self (inOrder : state.InOrder first second) (placed : state.Placed)
    (step : state.ProduceStep thread next)
    (unstored : (next.produce thread).unstored = some second) :
    next.LeavesBehind first (next.produce thread) := by
  have before := inOrder.behind thread (step.unstored unstored).1
  have leaving := inOrder.leaving_produceStep step
  have waits : ∀ space, first ∈ state.waiting space →
      state.Receives space ∨ state.consume.consuming = some space := fun space listed =>
    placed.waits space (List.ne_nil_of_mem listed)
  cases step with
  | readCurrent pc =>
      rw [goOn_self]
      refine leaving _ fun listed => (waits _ listed).resolve_left fun receives => ?_
      exact SpaceName.ne_other _ receives.1
  | @testGate_closed msg space pc isClosed =>
      rw [goOn_self]
      rw [pc] at before
      intro other
      refine leaving _ fun listed => ?_
      by_cases same : other = space
      · subst same
        refine (waits _ listed).resolve_left fun receives => ?_
        rw [receives.2] at isClosed
        cases isClosed
      · rw [SpaceName.eq_other_of_ne same] at listed ⊢
        exact before listed
  | releaseMain pc =>
      rw [goOn_self]
      rw [pc] at before
      exact leaving _ (before _)
  | testGate_open pc | readOther pc | lockMain pc | signalSwitch pc | readSwitch pc
  | writeSwitch pc | testConsumerIn_in pc | testConsumerIn_out pc | signalConsumer pc
  | setAccumulate pc | increment pc | tryEntry_acquired pc | tryEntry_timeout pc =>
      rw [goOn_self]
      rw [pc] at before
      exact LeavesBehind.mono leaving before
  | storeMsg pc | releaseEntry pc | decrement pc =>
      rw [goOn_self]
      trivial

theorem InOrder.notAfter_produceStep (inOrder : state.InOrder first second)
    (notOvertaken : state.NotOvertaken first second) (step : state.ProduceStep thread next)
    (space : SpaceName) :
    NotAfter first second (next.handedOut ++ next.waiting space) := by
  rw [step.handedOut]
  have before := inOrder.notAfter space
  by_cases stores : ∃ msg side, state.produce thread = .storeMsg msg space side
  · rcases stores with ⟨msg, side, atStore⟩
    have notFirst : msg ≠ first := by
      rintro rfl
      exact inOrder.firstStored thread (by rw [atStore]; rfl)
    rcases step.contents with same | ⟨stored, target, targetSide, atTarget, updated⟩
    · rw [waiting, same]
      exact before
    · rw [atStore] at atTarget
      cases atTarget
      cases side with
      | left =>
          have inserted : next.waiting space = state.contents (space.entry .left) ++
              msg :: state.contents (space.entry .right) := by
            simp [waiting, updated]
          rw [inserted, ← List.append_assoc]
          rw [waiting, ← List.append_assoc] at before
          refine before.insert notFirst ?_
          rintro rfl
          exact notOvertaken thread space atStore
      | right =>
          have inserted : next.waiting space = state.waiting space ++ [msg] := by
            simp [waiting, updated]
          rw [inserted, ← List.append_assoc]
          rw [← List.append_nil (state.handedOut ++ state.waiting space)] at before
          exact before.insert notFirst fun _ => List.not_mem_nil
  · rw [step.waiting_of_ne fun msg side atStore => stores ⟨msg, side, atStore⟩]
    exact before

theorem InOrder.produceStep (inOrder : state.InOrder first second) (placed : state.Placed)
    (notOvertaken : state.NotOvertaken first second) (step : state.ProduceStep thread next) :
    next.InOrder first second where
  firstCalled := step.called inOrder.firstCalled
  firstStored other unstored := inOrder.firstStored other (step.unstored unstored).1
  apart space listed := by
    refine inOrder.leaving_produceStep step _ ?_
    rcases step.mem_waiting listed with old | ⟨side, atStore⟩
    · exact inOrder.apart space old
    · have behind := inOrder.behind thread (by rw [atStore]; rfl)
      rw [atStore] at behind
      exact behind
  behind other unstored := by
    by_cases self : other = thread
    · subst self
      exact inOrder.behind_self placed step unstored
    · have before := inOrder.behind other (step.unstored unstored).1
      rw [step.others self]
      exact LeavesBehind.mono (inOrder.leaving_produceStep step) before
  notAfter := inOrder.notAfter_produceStep notOvertaken step

theorem ConsumeStep.leaving (placed : state.Placed) (accounts : state.Accounts)
    (step : state.ConsumeStep next) (space : SpaceName)
    (leaving : state.Leaving first space) : next.Leaving first space := by
  intro listed
  have consuming := leaving ((step.waiting_sublist space).subset listed)
  refine (step.consuming placed accounts consuming).resolve_right fun ended => ?_
  rw [ended.2] at listed
  cases listed

theorem InOrder.notAfter_consumeStep (inOrder : state.InOrder first second)
    (step : state.ConsumeStep next) (space : SpaceName) :
    NotAfter first second (next.handedOut ++ next.waiting space) := by
  cases step with
  | @retrieve consumed pending sends printed contents pc others order complete =>
      have handed := (order.append_left state.handedOut)
      by_cases same : space = consumed
      · subst same
        rw [← List.append_assoc] at handed
        exact List.Pairwise.sublist handed (inOrder.notAfter space)
      · rw [SpaceName.eq_other_of_ne same]
        have sorted := List.pairwise_append.mp (inOrder.notAfter consumed.other)
        refine List.pairwise_append.mpr ⟨?_, ?_, ?_⟩
        · refine List.Pairwise.sublist (List.Sublist.trans ?_ handed) (inOrder.notAfter consumed)
          exact (List.sublist_append_left ..).append_left _
        · simp only [flushOn, waiting, others]
          exact sorted.2.1
        · intro earlier early later late both
          simp only [flushOn, waiting, others] at late
          rcases List.mem_append.mp early with old | isPrinted
          · exact sorted.2.2 earlier old later late both
          · -- the second message is drained while the first one waits in the other space
            have waited : second ∈ state.waiting consumed :=
              both.1 ▸ order.subset (List.mem_append_left _ isPrinted)
            have consuming := inOrder.apart consumed waited (both.2 ▸ late)
            rw [pc] at consuming
            exact SpaceName.ne_other _ (Option.some.inj consuming)
  | _ => exact inOrder.notAfter space

theorem InOrder.consumeStep (inOrder : state.InOrder first second) (placed : state.Placed)
    (accounts : state.Accounts) (step : state.ConsumeStep next) :
    next.InOrder first second where
  firstCalled := by
    unfold Called
    rw [step.calls]
    exact inOrder.firstCalled
  firstStored := by
    rw [step.produce]
    exact inOrder.firstStored
  apart space listed :=
    step.leaving placed accounts _
      (inOrder.apart space ((step.waiting_sublist space).subset listed))
  behind other unstored := by
    rw [step.produce] at unstored ⊢
    exact LeavesBehind.mono (step.leaving placed accounts) (inOrder.behind other unstored)
  notAfter := inOrder.notAfter_consumeStep step

theorem InOrder.call (inOrder : state.InOrder first second) (idle : state.produce thread = .idle)
    (own : ∀ caller, .called caller msg ∉ state.calls) :
    InOrder (goOn { state with calls := state.calls ++ [.called thread msg] } thread
      (.readCurrent msg)) first second := by
  refine ⟨inOrder.firstCalled.imp fun _ listed => List.mem_append_left _ listed,
    fun other unstored => ?_, inOrder.apart, fun other unstored => ?_, inOrder.notAfter⟩
  · by_cases self : other = thread
    · subst self
      rw [goOn_self] at unstored
      cases unstored
      rcases inOrder.firstCalled with ⟨caller, listed⟩
      exact own caller listed
    · rw [goOn_of_ne _ self] at unstored
      exact inOrder.firstStored other unstored
  · by_cases self : other = thread
    · subst self
      rw [goOn_self]
      trivial
    · rw [goOn_of_ne _ self] at unstored ⊢
      exact inOrder.behind other unstored

/-- When the second message is called after the return of the first, it is nowhere yet. -/
theorem Books.inOrder (books : state.Books) {caller : Thread}
    (completed : .returned caller first ∈ state.calls)
    (own : ∀ caller, .called caller second ∉ state.calls) :
    first ≠ second ∧ InOrder (goOn { state with calls := state.calls ++ [.called thread second] }
      thread (.readCurrent second)) first second := by
  have fresh : ¬state.Called second := fun ⟨caller, listed⟩ => own caller listed
  have returned := books.returned caller first completed
  have different : first ≠ second := fun same => fresh (same ▸ returned.1)
  refine ⟨different, returned.1.imp fun _ listed => List.mem_append_left _ listed,
    fun other unstored => ?_, fun space listed => absurd (books.waiting space second listed) fresh,
    fun other unstored => ?_, fun space => .of_not_mem fun listed => ?_⟩
  · by_cases self : other = thread
    · subst self
      rw [goOn_self] at unstored
      exact different (Option.some.inj unstored).symm
    · rw [goOn_of_ne _ self] at unstored
      exact returned.2 other unstored
  · by_cases self : other = thread
    · subst self
      rw [goOn_self]
      trivial
    · rw [goOn_of_ne _ self] at unstored
      have message := ProducePc.message_of_unstored unstored
      exact absurd (books.called other second message) fresh
  · rcases List.mem_append.mp listed with handedOut | waits
    · exact fresh (books.handedOut second handedOut)
    · exact fresh (books.waiting space second waits)

/-- The order of what has been handed out, and of what waits as long as anything may be. -/
def Sorted (state : Protocol α) (first second : α) : Prop :=
  NotAfter first second state.handedOut ∧
    (state.consume = .ended ∨ state.InOrder first second)

theorem InOrder.sorted (inOrder : state.InOrder first second) : state.Sorted first second :=
  ⟨List.Pairwise.sublist (List.sublist_append_left _ (state.waiting .leftProducerSpace))
    (inOrder.notAfter _), .inr inOrder⟩

theorem Step.handedOut_of_ended {action : SyncAction α} (stepped : state.Step action next)
    (ended : state.consume = .ended) : next.handedOut = state.handedOut := by
  cases stepped with
  | produce step => exact step.handedOut
  | consume idle step => cases step <;> simp_all
  | call | sleep | sendError | exit => rfl

theorem Sorted.step (sorted : state.Sorted first second) (led : state.Led)
    {action : SyncAction α} (keepsPlace : state.KeepsPlace action)
    (notOvertaken : state.NotOvertaken first second) (stepped : state.Step action next) :
    next.Sorted first second := by
  rcases sorted with ⟨handedOut, ended | inOrder⟩
  · rw [← stepped.handedOut_of_ended ended] at handedOut
    exact ⟨handedOut, .inl (stepped.consume_ended ended)⟩
  · rcases led with ⟨accounts, ended | placed⟩
    · rw [← stepped.handedOut_of_ended ended] at handedOut
      exact ⟨handedOut, .inl (stepped.consume_ended ended)⟩
    · cases stepped with
      | call idle atCommand own => exact (inOrder.call idle own).sorted
      | produce step => exact (inOrder.produceStep placed notOvertaken step).sorted
      | sleep idle pc => exact inOrder.sorted
      | consume idle step => exact (inOrder.consumeStep placed accounts step).sorted
      | @sendError space pending idle pc =>
          cases pending with
          | false => exact (inOrder.consumeStep placed accounts (.sent pc)).sorted
          | true => exact absurd pc (keepsPlace space)
      | exit idle mayExit => exact ⟨handedOut, .inl rfl⟩

end Steps

end Protocol

namespace SyncState

section Code

variable {state : SyncState (Store α) α} {protocol : Protocol α} {first second : α}

/-- The second message is stored into the left entry of a space whose right entry has the first. -/
def Overtakes (state : SyncState (Store α) α) (first second : α) : Prop :=
  ∃ thread localSpace entry space contents,
    state.produce thread = .storeMsg second localSpace entry ∧
    getMsgGroupHolder (localSpace.id + entry.id) = SpaceName.entry space .left ∧
    state.store.Contains contents ∧ first ∈ contents (SpaceName.entry space .right)

theorem Refines.notOvertaken (refines : state.Refines Store.Contains protocol)
    (notOvertaken : ¬state.Overtakes first second) : protocol.NotOvertaken first second := by
  intro thread space pc waits
  have same := refines.produce thread
  rw [pc] at same
  generalize codePc : state.produce thread = abstractPc at same
  cases same with
  | storeMsg copy =>
      refine notOvertaken ⟨thread, _, _, space, protocol.contents, codePc, ?_,
        refines.contents, waits⟩
      rw [copy.id, getMsgGroupHolder_entry]

end Code

variable [Message α] [DecidableEq α]

/--
Of two messages that are handed out, the one whose `onProduce` had returned when the
other one was called comes first, or was overtaken in the right entry of its space.
-/
theorem handedOut_in_order {socketMsgLimit : ℤ}
    {initial middle final : SyncState (Store α) α} {thread caller : Thread} {first second : α}
    {before after : List (SyncAction α)}
    (initialized : onInitialize (HeapScan.onInitialize socketMsgLimit) = some initial)
    (run : runFrom (step messageStore) initial before = some middle)
    (completed : .returned thread first ∈ middle.calls)
    (later : runFrom (step messageStore) middle (.call caller second :: after) = some final)
    (meets : StepsMeet (step messageStore) (fun state action => state.keepsPlace action = true)
      initial (before ++ .call caller second :: after))
    (firstHanded : first ∈ final.handedOut) (secondHanded : second ∈ final.handedOut) :
    [first, second].Sublist final.handedOut ∨
      ∃ visited, Visits (step messageStore) middle (.call caller second :: after) visited ∧
        visited.Overtakes first second := by
  by_contra neither
  rw [not_or, not_exists] at neither
  rcases neither with ⟨notSorted, notOvertaken⟩
  have start := onInitialize_refines (onInitialize_contains socketMsgLimit) initialized
  -- up to the call of the second message
  have kept := start.run (fun protocol => protocol.Led ∧ protocol.Books)
    messageStore_keeps ?_ meets.of_append ⟨Protocol.led_initial, Protocol.books_initial⟩ run
  · rcases kept with ⟨protocol, refines, led, books⟩
    rcases runFrom_cons_eq_some.mp later with ⟨called, calledStep, rest⟩
    have meetsLater := meets.after run
    rcases refines.step messageStore_keeps calledStep with
      ⟨protocolCalled, protocolStep, calledRefines⟩
    have calledLed := led.step (refines.keepsPlace meetsLater.1) protocolStep
    cases protocolStep with
    | call idle atCommand own =>
        rw [refines.calls] at completed
        rcases books.inOrder completed own with ⟨different, inOrder⟩
        have apart := stepsMeet_of_visits (fun visited visits overtakes =>
          notOvertaken visited ⟨visits.cons calledStep, overtakes⟩)
        -- and from there on
        have sorted := calledRefines.run
          (fun protocol => protocol.Led ∧ protocol.Sorted first second) messageStore_keeps ?_
          ((meetsLater.2 called calledStep).and apart) ⟨calledLed, inOrder.sorted⟩ rest
        · rcases sorted with ⟨protocolFinal, finalRefines, -, handedOut, -⟩
          rw [← finalRefines.handedOut] at handedOut
          exact notSorted (handedOut.ordered different firstHanded secondHanded)
        · rintro state protocol action next protocolNext current - ⟨keepsPlace, notOvertaken⟩ -
            ⟨led, sorted⟩ stepped
          have keeps := current.keepsPlace keepsPlace
          exact ⟨led.step keeps stepped,
            sorted.step led keeps (current.notOvertaken notOvertaken) stepped⟩
  · rintro state protocol action next protocolNext current - keepsPlace - ⟨led, books⟩ stepped
    exact ⟨led.step (current.keepsPlace keepsPlace) stepped, books.step stepped⟩

set_option maxRecDepth 4000 in
/-- One thread stores a message into each space; the second one while the first is drained. -/
theorem handedOut_in_order_switch :
    let before : List (SyncAction Text) :=
      [.call (.other 0) ['a']] ++ List.replicate 10 (.produce (.other 0))
    let after : List (SyncAction Text) :=
      [.produce (.other 0)] ++ List.replicate 9 (.consume .done) ++
        List.replicate 13 (.produce (.other 0)) ++ List.replicate 25 (.consume .done)
    ∃ initial middle final : SyncState (Store Text) Text,
      onInitialize (HeapScan.onInitialize 5) = some initial ∧
      runFrom (step messageStore) initial before = some middle ∧
      runFrom (step messageStore) middle (.call (.other 0) ['b'] :: after) = some final ∧
      ([['a'], ['b']].Sublist final.handedOut ∨
        ∃ visited,
          Visits (step messageStore) middle (.call (.other 0) ['b'] :: after) visited ∧
          visited.Overtakes ['a'] ['b']) := by
  intro before after
  have runs : (onInitialize (HeapScan.onInitialize 5 : Store Text)).any fun initial =>
      decide (StepsMeet (step messageStore) (fun state action => state.keepsPlace action = true)
        initial (before ++ .call (.other 0) ['b'] :: after)) &&
      (runFrom (step messageStore) initial before).any fun middle =>
        decide (.returned (.other 0) ['a'] ∈ middle.calls) &&
        (runFrom (step messageStore) middle (.call (.other 0) ['b'] :: after)).any fun final =>
          decide (['a'] ∈ final.handedOut) && decide (['b'] ∈ final.handedOut) := by decide
  simp only [Option.any_eq_true, Bool.and_eq_true, decide_eq_true_eq] at runs
  rcases runs with ⟨initial, initialized, meets, middle, run, completed, final, later,
    firstHanded, secondHanded⟩
  exact ⟨initial, middle, final, initialized, run, later,
    handedOut_in_order initialized run completed later meets firstHanded secondHanded⟩

set_option maxRecDepth 4000 in
/--
While another thread stores into the left entry, the first message goes to the right
entry; the second one then goes to the left entry, which a drain puts first.
-/
theorem left_entry_overtakes :
    let before : List (SyncAction Text) :=
      [.call (.other 0) ['x']] ++ List.replicate 7 (.produce (.other 0)) ++
        [.call (.other 1) ['a']] ++ List.replicate 11 (.produce (.other 1)) ++
        List.replicate 3 (.produce (.other 0))
    let after : List (SyncAction Text) :=
      List.replicate 10 (.produce (.other 1)) ++ List.replicate 16 (.consume .done)
    ∃ initial middle final : SyncState (Store Text) Text,
      onInitialize (HeapScan.onInitialize 5) = some initial ∧
      runFrom (step messageStore) initial before = some middle ∧
      .returned (.other 1) ['a'] ∈ middle.calls ∧
      runFrom (step messageStore) middle (.call (.other 1) ['b'] :: after) = some final ∧
      ['a'] ∈ final.handedOut ∧ ['b'] ∈ final.handedOut ∧
      ¬[['a'], ['b']].Sublist final.handedOut := by
  intro before after
  have runs : (onInitialize (HeapScan.onInitialize 5 : Store Text)).any fun initial =>
      (runFrom (step messageStore) initial before).any fun middle =>
        decide (.returned (.other 1) ['a'] ∈ middle.calls) &&
        (runFrom (step messageStore) middle (.call (.other 1) ['b'] :: after)).any fun final =>
          decide (final.handedOut = [['x'], ['b'], ['a']]) := by decide
  simp only [Option.any_eq_true, Bool.and_eq_true, decide_eq_true_eq] at runs
  rcases runs with ⟨initial, initialized, middle, run, completed, final, later, handedOut⟩
  refine ⟨initial, middle, final, initialized, run, completed, later, ?_⟩
  rw [handedOut]
  decide

/-- No message is in the right entry of a space. -/
def rightUnlinked (state : SyncState (Store α) α) : Bool :=
  state.store.unlinked .leftSpaceRightEntry && state.store.unlinked .rightSpaceRightEntry

omit [Message α] [DecidableEq α] in
theorem not_overtakes_of_unlinked {state : SyncState (Store α) α} {first second : α}
    (unlinked : state.rightUnlinked = true) : ¬state.Overtakes first second := by
  rintro ⟨thread, localSpace, entry, space, contents, -, -, contains, waits⟩
  rw [rightUnlinked, Bool.and_eq_true] at unlinked
  cases space with
  | leftProducerSpace => simp [SpaceName.entry, contains.eq_nil unlinked.1] at waits
  | rightProducerSpace => simp [SpaceName.entry, contains.eq_nil unlinked.2] at waits

/--
In the run a thread calls `onProduce` for the second message when the first one's has
returned; the second one is handed out first, and has not overtaken it in an entry.
-/
def Reorders (socketMsgLimit : ℤ) (before after : List (SyncAction Text)) : Prop :=
  ∃ initial middle final : SyncState (Store Text) Text,
    onInitialize (HeapScan.onInitialize socketMsgLimit) = some initial ∧
    runFrom (step messageStore) initial before = some middle ∧
    .returned (.other 0) ['a'] ∈ middle.calls ∧
    runFrom (step messageStore) middle (.call (.other 0) ['b'] :: after) = some final ∧
    final.handedOut = [['x'], ['b'], ['a']] ∧
    ∀ visited, Visits (step messageStore) middle (.call (.other 0) ['b'] :: after) visited →
      ¬visited.Overtakes ['a'] ['b']

theorem reorders_of_runs {socketMsgLimit : ℤ} {before after : List (SyncAction Text)}
    (runs : (onInitialize (HeapScan.onInitialize socketMsgLimit : Store Text)).any fun initial =>
      (runFrom (step messageStore) initial before).any fun middle =>
        decide (.returned (.other 0) ['a'] ∈ middle.calls) &&
        decide (StepsMeet (step messageStore) (fun state _ => state.rightUnlinked = true) middle
          (.call (.other 0) ['b'] :: after)) &&
        (runFrom (step messageStore) middle (.call (.other 0) ['b'] :: after)).any fun final =>
          final.rightUnlinked && decide (final.handedOut = [['x'], ['b'], ['a']])) :
    Reorders socketMsgLimit before after := by
  simp only [Option.any_eq_true, Bool.and_eq_true, decide_eq_true_eq] at runs
  rcases runs with ⟨initial, initialized, middle, run, ⟨completed, meets⟩, final, later,
    unlinked, handedOut⟩
  refine ⟨initial, middle, final, initialized, run, completed, later, handedOut,
    fun visited visits => not_overtakes_of_unlinked (holds_of_visits meets ?_ visits)⟩
  intro other run
  rw [later, Option.some.injEq] at run
  exact run ▸ unlinked

/--
The send of the first chunk fails while the first message is pending behind it.  The second
message goes to the other space, which is drained next.
-/
theorem send_error_reorders :
    Reorders 1
      ([.call (.other 0) ['x']] ++ List.replicate 10 (.produce (.other 0)) ++
        [.call (.other 0) ['a']] ++ List.replicate 10 (.produce (.other 0)) ++
        List.replicate 16 (.consume .done) ++ [.consume .socketError])
      (List.replicate 14 (.produce (.other 0)) ++ List.replicate 17 (.consume .done) ++
        [.call (.other 0) ['c']] ++ List.replicate 8 (.produce (.other 0)) ++
        List.replicate 17 (.consume .done)) :=
  reorders_of_runs (by decide +kernel)

/--
Two threads that found the left space closed switch the current space back and forth while
it is about to be drained: the first message is in the open right space, and the second one,
stored after a switch away from there, in the closed left one.
-/
theorem open_switch_reorders :
    Reorders 5
      ([.call (.other 0) ['x']] ++ List.replicate 10 (.produce (.other 0)) ++
        List.replicate 9 (.consume .done) ++
        [.call (.other 1) ['y']] ++ List.replicate 2 (.produce (.other 1)) ++
        [.call (.other 0) ['a']] ++ List.replicate 14 (.produce (.other 0)) ++
        List.replicate 6 (.produce (.other 1)))
      (List.replicate 2 (.produce (.other 0)) ++
        [.call (.other 2) ['z']] ++ List.replicate 8 (.produce (.other 2)) ++
        List.replicate 12 (.produce (.other 0)) ++ List.replicate 8 (.consume .done) ++
        [.call (.other 0) ['w']] ++ List.replicate 8 (.produce (.other 0)) ++
        List.replicate 17 (.consume .done)) :=
  reorders_of_runs (by decide +kernel)

end SyncState

end HeapScan
