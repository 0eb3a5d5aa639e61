import HeapScan.Synchronizer.Exclusion

/-!
# The gates and the switch

Whatever the threads do, the owner of `mainProducerGate` switches to the space that is
not the current one, and the gates of the two spaces are never both closed: a consume
section opens the one before it closes the other.
-/

namespace HeapScan

variable {α : Type}

/-- In `changeSpace`, between the wait for the mutex and its release. -/
def ProducePc.ownsMain : ProducePc SpaceName Side α → Bool
  | .signalSwitch _ _ | .readSwitch _ _ | .writeSwitch _ _ _ | .releaseMain _ _ => true
  | _ => false

namespace Protocol

/-- What is known of the switch and the gates in every state. -/
structure Gated (state : Protocol α) : Prop where
  ownsMain : ∀ thread, (state.produce thread).ownsMain = true → 0 < state.mainGate.holds thread
  target : ∀ thread msg space target, state.produce thread = .writeSwitch msg space target →
    target = state.currentSpace.other
  someOpen : ∀ space, state.gate space = false → state.gate space.other = true
  opensOther : ∀ space other, state.consume = .openOther space other → other = space.other
  otherOpen : ∀ space, state.consume = .closeLocal space → state.gate space.other = true

theorem gated_initial : Gated (initial : Protocol α) where
  ownsMain _ owns := by cases owns
  target _ _ _ _ pc := by cases pc
  someOpen _ closed := by cases closed
  opensOther _ _ pc := by cases pc
  otherOpen _ pc := by cases pc

variable {state next : Protocol α} {thread : Thread}

theorem ProduceStep.gate (step : state.ProduceStep thread next) : next.gate = state.gate := by
  cases step <;> rfl

theorem ProduceStep.mainGate_of_ne (step : state.ProduceStep thread next) {other : Thread}
    (different : other ≠ thread) : next.mainGate.holds other = state.mainGate.holds other := by
  cases step with
  | lockMain pc acquired => exact Mutex.holds_acquire_of_ne acquired different
  | releaseMain pc => exact Mutex.holds_release_of_ne _ different
  | _ => rfl

/-- The current space changes in one step only, and to the other space. -/
theorem ProduceStep.switches (gated : state.Gated) (step : state.ProduceStep thread next) :
    next.currentSpace = state.currentSpace ∨ ∃ msg space,
      state.produce thread = .writeSwitch msg space next.currentSpace ∧
        next.currentSpace = state.currentSpace.other := by
  cases step with
  | @writeSwitch msg space target pc =>
      exact .inr ⟨msg, space, pc, gated.target _ _ _ _ pc⟩
  | _ => exact .inl rfl

theorem Gated.produceStep (gated : state.Gated) (step : state.ProduceStep thread next) :
    next.Gated where
  ownsMain other owns := by
    by_cases self : other = thread
    · subst self
      have before := gated.ownsMain other
      cases step with
      | lockMain pc acquired =>
          show 0 < Mutex.holds other _
          rw [goOn, Mutex.holds_acquire acquired]
          exact Nat.succ_pos _
      | signalSwitch pc | readSwitch pc | writeSwitch pc => exact before (by rw [pc]; rfl)
      | _ =>
          rw [goOn_self] at owns
          cases owns
    · rw [step.others self] at owns
      rw [step.mainGate_of_ne self]
      exact gated.ownsMain other owns
  target other msg space target pc := by
    by_cases self : other = thread
    · subst self
      cases step with
      | readSwitch =>
          rw [goOn_self] at pc
          cases pc
          rfl
      | _ =>
          rw [goOn_self] at pc
          cases pc
    · rw [step.others self] at pc
      rcases step.switches gated with stays | ⟨_, _, switching, -⟩
      · rw [stays]
        exact gated.target other msg space target pc
      · -- both threads would be between the wait and the release
        have byOther := gated.ownsMain other (by rw [pc]; rfl)
        have bySelf := gated.ownsMain thread (by rw [switching]; rfl)
        exact absurd (Mutex.eq_of_holds byOther bySelf) self
  someOpen := by
    rw [step.gate]
    exact gated.someOpen
  opensOther := by
    rw [step.consume]
    exact gated.opensOther
  otherOpen := by
    rw [step.consume, step.gate]
    exact gated.otherOpen

theorem ConsumeStep.currentSpace (step : state.ConsumeStep next) :
    next.currentSpace = state.currentSpace := by
  cases step <;> rfl

theorem ConsumeStep.mainGate (step : state.ConsumeStep next) :
    next.mainGate = state.mainGate := by
  cases step <;> rfl

theorem ConsumeStep.someOpen (gated : state.Gated) (step : state.ConsumeStep next)
    (space : SpaceName) (isClosed : next.gate space = false) :
    next.gate space.other = true := by
  cases step with
  | @openOther consumed other pc =>
      have isOther := gated.opensOther consumed other pc
      subst isOther
      simp only [flushOn, Function.update_apply] at isClosed ⊢
      split at isClosed
      · cases isClosed
      · rename_i different
        rw [if_pos (by rw [SpaceName.eq_other_of_ne different, SpaceName.other_other])]
  | @closeLocal consumed pc =>
      have otherOpen := gated.otherOpen consumed pc
      by_cases same : space = consumed
      · subst same
        exact (Function.update_of_ne (SpaceName.other_ne space) ..).trans otherOpen
      · simp only [flushOn, Function.update_of_ne same] at isClosed
        rw [SpaceName.eq_other_of_ne same, otherOpen] at isClosed
        cases isClosed
  | _ => exact gated.someOpen space isClosed

theorem Gated.consumeStep (gated : state.Gated) (step : state.ConsumeStep next) : next.Gated where
  ownsMain := by
    rw [step.produce, step.mainGate]
    exact gated.ownsMain
  target := by
    rw [step.produce, step.currentSpace]
    exact gated.target
  someOpen := step.someOpen gated
  opensOther space other pc := by
    cases step with
    | readOther =>
        cases pc
        rfl
    | @retrieve space pending sends => cases sends <;> cases pending <;> cases pc
    | @sent space pending => cases pending <;> cases pc
    | _ => cases pc
  otherOpen space pc := by
    cases step with
    | openOther atOpen =>
        cases pc
        rw [gated.opensOther _ _ atOpen]
        exact Function.update_self ..
    | @retrieve space pending sends => cases sends <;> cases pending <;> cases pc
    | @sent space pending => cases pending <;> cases pc
    | _ => cases pc

theorem Gated.call (gated : state.Gated) (msg : α) :
    Gated (goOn { state with calls := state.calls ++ [.called thread msg] } thread
      (.readCurrent msg)) := by
  refine
    { gated with
      ownsMain := fun other owns => ?_
      target := fun other msg space target pc => ?_ }
  · by_cases self : other = thread
    · subst self
      rw [goOn_self] at owns
      cases owns
    · rw [goOn_of_ne _ self] at owns
      exact gated.ownsMain other owns
  · by_cases self : other = thread
    · subst self
      rw [goOn_self] at pc
      cases pc
    · rw [goOn_of_ne _ self] at pc
      exact gated.target other _ space target pc

/-- Every step keeps what is known of the switch and the gates. -/
theorem Gated.step (gated : state.Gated) {action : SyncAction α}
    (stepped : state.Step action next) : next.Gated := by
  cases stepped with
  | call => exact gated.call _
  | produce step => exact gated.produceStep step
  | sleep => exact gated
  | consume _ step => exact gated.consumeStep step
  | sendError =>
      exact
        { gated with
          opensOther := fun _ _ pc => by cases pc
          otherOpen := fun _ pc => by cases pc }
  | exit idle =>
      refine
        { gated with
          ownsMain := fun thread owns => ?_
          opensOther := fun _ _ pc => by cases pc
          otherOpen := fun _ pc => by cases pc }
      by_cases isAgent : thread = .agent
      · rw [isAgent] at owns
        simp only [flushOn, idle] at owns
        cases owns
      · show 0 < (state.mainGate.abandon .agent).holds thread
        rw [Mutex.holds_abandon_of_ne _ isAgent]
        exact gated.ownsMain thread owns

end Protocol

end HeapScan
