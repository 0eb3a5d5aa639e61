import HeapScan.Library.Runs

/-!
# Killing the agent thread

The thread that runs `onKillThread` and the agent thread, one Win32 call or access
to `die` or `threadStatus` a step.  The killer asks by an APC or leaves it to the
check of `die`, according to a status that it reads once; the agent thread signals
`statusLock` again when it reconnects, and then no longer gets to that check.
-/

namespace HeapScan

open Transition

/-- The values of `threadStatus`. -/
inductive ThreadStatus where
  | idle
  | listening
  | waiting
  | normal
  | accumulating
deriving DecidableEq

/-- The number of a status; it is odd where the thread is in an alertable call. -/
def ThreadStatus.code : ThreadStatus → ℕ
  | .idle => 0
  | .listening => 1
  | .waiting => 3
  | .normal => 4
  | .accumulating => 5

/-- The calls of `onChangeStatus`; two of them set NORMAL. -/
inductive ChangeSite where
  | listening
  | accepted
  | waiting
  | accumulating
  | consuming
deriving DecidableEq

def ChangeSite.status : ChangeSite → ThreadStatus
  | .listening => .listening
  | .accepted => .normal
  | .waiting => .waiting
  | .accumulating => .accumulating
  | .consuming => .normal

/-- Where a call of `onChangeStatus` is. -/
inductive ChangePc where
  | wait
  | readDie
  | writeStatus
deriving DecidableEq

/-- Where the agent thread is in `onStart`, `startFlushProcess` and what they call. -/
inductive SocketPc where
  | listen
  | setStatusLock
  | changeStatus (site : ChangeSite) (pc : ChangePc)
  | accept
  | setNonBlocking
  | processIncoming
  | tryConsumerEntry
  | startConsume
  | waitLeftEntry
  | waitRightEntry
  | retrieve
  | send (pending : Bool)
  | closeSocket
  | cleanSocket
  | exitThread
  | ended
deriving DecidableEq

/-- Where the killer is in `onKillThread`. -/
inductive KillerPc where
  | resetStatusLock
  | setDie
  | readRunning
  | openThread
  | readParity
  | queueApc
  | waitThread
  | returned
deriving DecidableEq

/-- The variables that the two threads share, and where they are. -/
structure Lifecycle where
  statusLock : Bool
  die : Bool
  threadStatus : ThreadStatus
  apcPending : Bool
  agent : SocketPc
  killer : KillerPc

/-- What the call of the agent thread returns, where that decides how it goes on. -/
inductive CallResult where
  | done
  | socketError
  | timeout
  | retrieved (message pending : Bool)

inductive LifecycleAction where
  | agent (result : CallResult)
  /-- The APC runs in the alertable call that the agent thread is in. -/
  | apc
  | killer

/-- What follows a call of `onChangeStatus`. -/
def ChangeSite.next : ChangeSite → SocketPc
  | .listening => .accept
  | .accepted => .setNonBlocking
  | .waiting => .tryConsumerEntry
  | .accumulating => .startConsume
  | .consuming => .retrieve

/-- The calls in which a pending APC can run. -/
def SocketPc.Alertable : SocketPc → Prop
  | .changeStatus _ .wait | .accept | .tryConsumerEntry | .waitLeftEntry | .waitRightEntry => True
  | _ => False

instance : DecidablePred SocketPc.Alertable := fun pc => by
  unfold SocketPc.Alertable
  split <;> infer_instance

namespace Lifecycle

/-- The agent thread is about to run `onStart`, and nobody asked to kill it. -/
def initial : Lifecycle where
  statusLock := false
  die := false
  threadStatus := .idle
  apcPending := false
  agent := .listen
  killer := .resetStatusLock

/-- A step of `onChangeStatus`. -/
def changeStatusStep (state : Lifecycle) (site : ChangeSite) : ChangePc → Lifecycle
  | .wait =>
      { state with
        agent := .changeStatus site (if state.statusLock then .writeStatus else .readDie) }
  | .readDie => { state with agent := if state.die then .cleanSocket else site.next }
  | .writeStatus => { state with threadStatus := site.status, agent := site.next }

/-- A step of the agent thread; a call that fails for good ends the process and is left out. -/
def agentStep (state : Lifecycle) (result : CallResult) : Option Lifecycle :=
  match state.agent, result with
  | .listen, .done => some { state with agent := .setStatusLock }
  | .setStatusLock, .done =>
      some { state with statusLock := true, agent := .changeStatus .listening .wait }
  | .changeStatus site pc, .done => some (state.changeStatusStep site pc)
  | .accept, .done => some { state with agent := .changeStatus .accepted .wait }
  | .setNonBlocking, .done => some { state with agent := .processIncoming }
  | .processIncoming, .done => some { state with agent := .changeStatus .waiting .wait }
  | .processIncoming, .socketError => some { state with agent := .closeSocket }
  | .tryConsumerEntry, .done => some { state with agent := .changeStatus .accumulating .wait }
  | .tryConsumerEntry, .timeout => some { state with agent := .processIncoming }
  | .startConsume, .done => some { state with agent := .waitLeftEntry }
  | .waitLeftEntry, .done => some { state with agent := .waitRightEntry }
  | .waitRightEntry, .done => some { state with agent := .changeStatus .consuming .wait }
  | .retrieve, .retrieved message pending =>
      some { state with
        agent := if message then .send pending
          else if pending then .retrieve else .processIncoming }
  | .send pending, .done =>
      some { state with agent := if pending then .retrieve else .processIncoming }
  | .send _, .socketError => some { state with agent := .closeSocket }
  | .closeSocket, .done => some { state with agent := .listen }
  | .cleanSocket, .done => some { state with agent := .exitThread }
  | .exitThread, .done => some { state with agent := .ended }
  | _, _ => none

/-- A step of `onKillThread`; the last one waits until the agent thread has ended. -/
def killerStep (state : Lifecycle) : Option Lifecycle :=
  match state.killer with
  | .resetStatusLock => some { state with statusLock := false, killer := .setDie }
  | .setDie => some { state with die := true, killer := .readRunning }
  | .readRunning =>
      some { state with
        killer := if state.threadStatus.code > ThreadStatus.idle.code then .openThread
          else .returned }
  | .openThread => some { state with killer := .readParity }
  | .readParity =>
      some { state with
        killer := if state.threadStatus.code % 2 = 1 then .queueApc else .waitThread }
  | .queueApc =>
      -- QueueUserAPC fails for a thread that has ended.
      some { state with apcPending := decide (state.agent ≠ .ended), killer := .waitThread }
  | .waitThread =>
      if state.agent = .ended then some { state with killer := .returned } else none
  | .returned => none

def step (state : Lifecycle) : LifecycleAction → Option Lifecycle
  | .agent result => state.agentStep result
  | .apc =>
      if state.apcPending ∧ state.agent.Alertable then
        some { state with apcPending := false, agent := .cleanSocket }
      else none
  | .killer => state.killerStep

/-- The killer waits for ever for a thread that waits for a connection. -/
def Lost (state : Lifecycle) : Prop :=
  state.killer = .waitThread ∧ state.apcPending = false ∧ state.agent = .accept

instance (state : Lifecycle) : Decidable state.Lost :=
  inferInstanceAs (Decidable (_ ∧ _))

/-- The agent thread is in `accept`, or on its way there without a check of `die`. -/
def BoundForAccept (state : Lifecycle) : Prop :=
  state.agent = .accept ∨ state.agent = .changeStatus .listening .writeStatus ∨
    (state.agent = .changeStatus .listening .wait ∧
      (state.statusLock = true ∨ state.die = false)) ∨
    (state.agent = .changeStatus .listening .readDie ∧ state.die = false)

instance (state : Lifecycle) : Decidable state.BoundForAccept :=
  inferInstanceAs (Decidable (_ ∨ _))

/--
The agent thread does not signal `statusLock` while the killer waits without an
APC, and the killer does not read an even status while the agent thread is bound
for `accept`.
-/
def KeepsRequest (state : Lifecycle) : LifecycleAction → Prop
  | .agent _ =>
      ¬(state.agent = .setStatusLock ∧ state.killer = .waitThread ∧ state.apcPending = false)
  | .apc => True
  | .killer =>
      ¬(state.killer = .readParity ∧ state.threadStatus.code % 2 = 0 ∧ state.BoundForAccept)

instance (state : Lifecycle) : ∀ action, Decidable (state.KeepsRequest action)
  | .agent _ => inferInstanceAs (Decidable (¬_))
  | .apc => isTrue trivial
  | .killer => inferInstanceAs (Decidable (¬_))

/-- The invariant of runs that keep the request. -/
structure Heard (state : Lifecycle) : Prop where
  dies : state.killer ≠ .resetStatusLock → state.killer ≠ .setDie → state.die = true
  unbound : state.killer = .waitThread → state.apcPending = false → ¬state.BoundForAccept

theorem heard_initial : Heard initial := by
  refine ⟨fun begun _ => absurd rfl begun, fun waits => ?_⟩
  cases waits

theorem Heard.not_lost {state : Lifecycle} (heard : Heard state) : ¬state.Lost :=
  fun ⟨waits, noApc, inAccept⟩ => heard.unbound waits noApc (.inl inAccept)

section AgentSteps

variable {state next : Lifecycle} {result : CallResult}

theorem changeStatusStep_killer (site : ChangeSite) (pc : ChangePc) :
    (state.changeStatusStep site pc).killer = state.killer ∧
      (state.changeStatusStep site pc).die = state.die ∧
      (state.changeStatusStep site pc).apcPending = state.apcPending := by
  cases pc <;> exact ⟨rfl, rfl, rfl⟩

/-- The agent thread leaves the killer, `die` and the APC alone. -/
theorem agentStep_killer (stepped : state.agentStep result = some next) :
    next.killer = state.killer ∧ next.die = state.die ∧ next.apcPending = state.apcPending := by
  unfold agentStep at stepped
  split at stepped <;> cases stepped
  case h_3 site pc _ => exact changeStatusStep_killer site pc
  all_goals exact ⟨rfl, rfl, rfl⟩

/-- `onChangeStatus` gets to `accept` only where it is bound for it. -/
theorem changeStatusStep_boundForAccept {site : ChangeSite} {pc : ChangePc}
    (inCall : state.agent = .changeStatus site pc)
    (bound : (state.changeStatusStep site pc).BoundForAccept) : state.BoundForAccept := by
  cases pc with
  | wait =>
      by_cases signalled : state.statusLock = true
      · have atListening : site = .listening := by
          simpa [changeStatusStep, BoundForAccept, signalled] using bound
        exact .inr (.inr (.inl ⟨by rw [inCall, atListening], .inl signalled⟩))
      · have unasked : site = .listening ∧ state.die = false := by
          simpa [changeStatusStep, BoundForAccept, signalled] using bound
        exact .inr (.inr (.inl ⟨by rw [inCall, unasked.1], .inr unasked.2⟩))
  | readDie =>
      by_cases asked : state.die = true
      · simp [changeStatusStep, BoundForAccept, asked] at bound
      · have atListening : site = .listening := by
          cases site <;> simp [changeStatusStep, BoundForAccept, asked, ChangeSite.next] at bound
          rfl
        exact .inr (.inr (.inr ⟨by rw [inCall, atListening], by simpa using asked⟩))
  | writeStatus =>
      have atListening : site = .listening := by
        cases site <;> simp [changeStatusStep, BoundForAccept, ChangeSite.next] at bound
        rfl
      exact .inr (.inl (by rw [inCall, atListening]))

/-- The way to `accept` leads over `SetEvent(statusLock)`, or past an unset `die`. -/
theorem boundForAccept_of_agentStep (stepped : state.agentStep result = some next)
    (bound : next.BoundForAccept) : state.BoundForAccept ∨ state.agent = .setStatusLock := by
  unfold agentStep at stepped
  split at stepped <;> cases stepped
  case h_2 inSetEvent => exact .inr inSetEvent
  case h_3 site pc inCall => exact .inl (changeStatusStep_boundForAccept inCall bound)
  case h_13 message pending _ =>
    cases message <;> cases pending <;> simp [BoundForAccept] at bound
  case h_14 pending _ => cases pending <;> simp [BoundForAccept] at bound
  all_goals simp [BoundForAccept] at bound

end AgentSteps

section KillerSteps

variable {state next : Lifecycle}

/-- What a step of the killer can do; only its first two steps touch what is shared. -/
theorem killerStep_cases (stepped : state.killerStep = some next) :
    (state.killer = .resetStatusLock ∧
        next = { state with statusLock := false, killer := .setDie }) ∨
      (state.killer = .setDie ∧ next = { state with die := true, killer := .readRunning }) ∨
      (state.killer ≠ .resetStatusLock ∧ state.killer ≠ .setDie ∧ state.killer ≠ .queueApc ∧
        next = { state with killer := next.killer } ∧
        (next.killer = .waitThread →
          state.killer = .readParity ∧ state.threadStatus.code % 2 = 0)) ∨
      (state.killer = .queueApc ∧
        next = { state with apcPending := decide (state.agent ≠ .ended),
                            killer := .waitThread }) := by
  unfold killerStep at stepped
  split at stepped
  case h_1 now => exact .inl ⟨now, (Option.some.inj stepped).symm⟩
  case h_2 now => exact .inr (.inl ⟨now, (Option.some.inj stepped).symm⟩)
  case h_6 now => exact .inr (.inr (.inr ⟨now, (Option.some.inj stepped).symm⟩))
  case h_8 => cases stepped
  case h_7 now =>
    split at stepped <;> cases stepped
    refine .inr (.inr (.inl ⟨by simp [now], by simp [now], by simp [now], rfl, fun waits => ?_⟩))
    cases waits
  case h_5 now =>
    cases stepped
    refine .inr (.inr (.inl ⟨by simp [now], by simp [now], by simp [now], rfl, fun waits => ?_⟩))
    refine ⟨now, ?_⟩
    by_contra odd
    simp [show state.threadStatus.code % 2 = 1 by omega] at waits
  all_goals
    rename_i now
    cases stepped
    refine .inr (.inr (.inl ⟨by simp [now], by simp [now], by simp [now], rfl, fun waits => ?_⟩))
    first
    | cases waits
    | (simp only at waits; split at waits <;> cases waits)

end KillerSteps

/-- A step that keeps the request keeps the invariant. -/
theorem Heard.step {state next : Lifecycle} {action : LifecycleAction}
    (keeps : state.KeepsRequest action) (heard : Heard state)
    (stepped : state.step action = some next) : Heard next := by
  cases action with
  | agent result =>
      rcases agentStep_killer stepped with ⟨sameKiller, sameDie, sameApc⟩
      refine ⟨?_, fun waits noApc bound => ?_⟩
      · rw [sameKiller, sameDie]
        exact heard.dies
      · rw [sameKiller] at waits
        rw [sameApc] at noApc
        rcases boundForAccept_of_agentStep stepped bound with before | inSetEvent
        · exact heard.unbound waits noApc before
        · exact keeps ⟨inSetEvent, waits, noApc⟩
  | apc =>
      simp only [Lifecycle.step] at stepped
      split at stepped <;> cases stepped
      exact ⟨heard.dies, fun _ _ bound => by simp [BoundForAccept] at bound⟩
  | killer =>
      rcases killerStep_cases stepped with
        ⟨now, rfl⟩ | ⟨now, rfl⟩ | ⟨noReset, noSet, noQueue, same, even⟩ | ⟨now, rfl⟩
      · exact ⟨fun _ begun => absurd rfl begun, fun waits => by cases waits⟩
      · exact ⟨fun _ _ => rfl, fun waits => by cases waits⟩
      · rw [same]
        refine ⟨fun _ _ => heard.dies noReset noSet, fun waits _ bound => ?_⟩
        rcases even waits with ⟨reads, isEven⟩
        exact keeps ⟨reads, isEven, bound⟩
      · refine ⟨fun _ _ => heard.dies (by simp [now]) (by simp [now]), fun _ noApc bound => ?_⟩
        have ended : state.agent = .ended := by simpa using noApc
        simp [BoundForAccept, ended] at bound

/--
In a run that keeps the request, it is lost in no state.  The waits of `onStartConsume` for
threads and entries, which are the synchronizer's, are taken to end.
-/
theorem not_lost_of_run {actions : List LifecycleAction} {final : Lifecycle}
    (keeps : StepsMeet step KeepsRequest initial actions)
    (run : runFrom step initial actions = some final) : ¬final.Lost :=
  (runFrom_invariant (fun _ _ _ keeps heard stepped => heard.step keeps stepped)
    keeps heard_initial run).not_lost

/-- The start of the agent thread, as far as `accept`. -/
def reachAccept : List LifecycleAction := List.replicate 4 (.agent .done)

/-- The killer comes while the agent thread waits for a connection, and queues its APC. -/
theorem not_lost_of_run_accept :
    ∃ final, runFrom step initial (reachAccept ++ List.replicate 6 .killer ++ [.apc]) =
      some final ∧ ¬final.Lost := by
  have runs : (runFrom step initial
      (reachAccept ++ List.replicate 6 .killer ++ [.apc])).isSome := by decide
  rcases Option.isSome_iff_exists.mp runs with ⟨final, run⟩
  exact ⟨final, run, not_lost_of_run (by decide) run⟩

/--
The killer reads NORMAL and waits; the socket fails, and the agent thread signals
`statusLock`, passes its status check and waits in `accept`.
-/
theorem reconnect_loses_request :
    ∃ actions final, runFrom step initial actions = some final ∧ final.Lost := by
  let actions : List LifecycleAction :=
    reachAccept ++ List.replicate 4 (.agent .done) ++ List.replicate 5 .killer ++
      [.agent .socketError] ++ List.replicate 5 (.agent .done)
  have runs : (runFrom step initial actions).any fun final => decide final.Lost := by decide
  rcases Option.any_eq_true _ _ |>.mp runs with ⟨final, run, lost⟩
  exact ⟨actions, final, run, of_decide_eq_true lost⟩

end Lifecycle

end HeapScan
