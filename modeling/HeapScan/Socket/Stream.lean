import Mathlib.Data.List.Infix
import HeapScan.Library.Runs
import HeapScan.MessageStore.Retrieving

/-!
# What a client receives

The flush loop of the agent thread, driven by what its calls return.  `send` may
accept only a first part of a chunk; the loop tests for SOCKET_ERROR alone and
goes on to the next chunk, so a short send tears the stream unless nothing is
sent after it on the connection.
-/

namespace HeapScan

open Transition

/-- What `retrieveMsg` hands to the loop, with the buffer of `totalMsgSize` bytes. -/
structure Chunk where
  pendingFl : Bool
  totalMsg : ℤ
  bytes : Text

/-- The buffer of a retrieve: the text and its NUL. -/
def Retrieved.chunk {α : Type} (retrieved : Retrieved α) : Chunk where
  pendingFl := retrieved.pendingFl
  totalMsg := retrieved.totalMsg
  bytes := retrieved.msg ++ [Char.ofNat 0]

/-- What `send` returns. -/
inductive SendResult where
  | accepted (count : ℕ)
  | socketError

/-- A chunk passed to `send`, with the number of its bytes that were accepted. -/
structure Sent where
  bytes : Text
  accepted : ℕ

def Sent.acceptedBytes (sent : Sent) : Text := sent.bytes.take sent.accepted

/-- Where the loop of `startFlushProcess` is. -/
inductive FlushPc where
  | processIncoming
  | tryConsumerEntry
  | retrieve
deriving DecidableEq

/-- The loop, with the sends on the open connection and on the earlier ones. -/
structure FlushState where
  pc : FlushPc
  open_ : List Sent
  closed : List (List Sent)

/-- The result of a call of the loop. -/
inductive FlushEvent where
  /-- `processIncomingMessage` returned, with SOCKET_ERROR or not. -/
  | processed (socketError : Bool)
  /-- `onTryConsumerEntry` returned, with WAIT_OBJECT_0 or not. -/
  | tried (entered : Bool)
  /-- `retrieveMsg` returned, and `send` if there was a message. -/
  | retrieved (chunk : Chunk) (result : SendResult)

namespace FlushState

/-- `startFlushProcess` on the first connection that was accepted. -/
def initial : FlushState where
  pc := .processIncoming
  open_ := []
  closed := []

/-- `onHandleSocketError`: the next connection is accepted and the loop starts again. -/
def handleSocketError (state : FlushState) : FlushState where
  pc := .processIncoming
  open_ := []
  closed := state.closed ++ [state.open_]

/-- The loop goes on after a retrieve. -/
def goOn (state : FlushState) (pendingFl : Bool) : FlushState :=
  { state with pc := if pendingFl then .retrieve else .processIncoming }

/-- One call of the loop returns; `send` never accepts nothing or more than the chunk. -/
def step (state : FlushState) : FlushEvent → Option FlushState
  | .processed socketError =>
      if state.pc = .processIncoming then
        if socketError then some state.handleSocketError
        else some { state with pc := .tryConsumerEntry }
      else none
  | .tried entered =>
      if state.pc = .tryConsumerEntry then
        some { state with pc := if entered then .retrieve else .processIncoming }
      else none
  | .retrieved chunk result =>
      if state.pc = .retrieve then
        if chunk.totalMsg > 0 then
          match result with
          | .socketError =>
              some (handleSocketError
                { state with open_ := state.open_ ++ [{ bytes := chunk.bytes, accepted := 0 }] })
          | .accepted count =>
              if 0 < count ∧ count ≤ chunk.bytes.length then
                some (goOn
                  { state with
                    open_ := state.open_ ++ [{ bytes := chunk.bytes, accepted := count }] }
                  chunk.pendingFl)
              else none
        else some (state.goOn chunk.pendingFl)
      else none

end FlushState

/--
The bytes accepted on a connection are a prefix of its chunks, and no chunk is
followed by another one unless all its bytes were accepted.  A chunk whose `send`
failed counts as one with no byte accepted, so it must not follow a short one either.
-/
structure Untorn (connection : List Sent) : Prop where
  prefix_ : connection.flatMap Sent.acceptedBytes <+: connection.flatMap Sent.bytes
  whole : ∀ sent ∈ connection.dropLast, sent.accepted = sent.bytes.length

/--
After a short send, `processIncomingMessage` returns SOCKET_ERROR before another
message is passed to `send`, whether that `send` then fails or not; `short` says
whether the open connection has had a short send.
-/
def ReconnectsAfterShort : Bool → List FlushEvent → Prop
  | _, [] => True
  | short, .processed socketError :: events => ReconnectsAfterShort (short && !socketError) events
  | short, .tried _ :: events => ReconnectsAfterShort short events
  | short, .retrieved chunk result :: events =>
      if chunk.totalMsg > 0 then
        short = false ∧
          match result with
          | .socketError => ReconnectsAfterShort false events
          | .accepted count => ReconnectsAfterShort (decide (count < chunk.bytes.length)) events
      else ReconnectsAfterShort short events

section Connections

/-- The loop sends the whole buffer of a retrieve: its length is `totalMsgSize`. -/
theorem onRetrieveMessage_chunk_length {α : Type} [Message α] {store next : Store α}
    {chains : ChainStore (Queued α)} {id : MsgLocationId} {retrieved : Retrieved α}
    (refines : store.Refines chains) (wellFormed : chains.WellFormed)
    (result : onRetrieveMessage store id = some (retrieved, next))
    (printed : 0 < retrieved.totalMsg) :
    (retrieved.chunk.bytes.length : ℤ) = retrieved.totalMsgSize := by
  rcases onRetrieveMessage_eq_some refines wellFormed result with
    ⟨pendingFl, cut, nextChains, -, -, rfl, -⟩
  rw [Cut.retrieved_totalMsg] at printed
  have notFewer : ¬chains.int.hold cut.msgs.length < 1 := by omega
  simp [Retrieved.chunk, Cut.retrieved, notFewer]

theorem acceptedBytes_of_whole {sent : Sent} (whole : sent.accepted = sent.bytes.length) :
    sent.acceptedBytes = sent.bytes := by
  rw [Sent.acceptedBytes, whole, List.take_length]

theorem flatMap_of_whole {connection : List Sent}
    (whole : ∀ sent ∈ connection, sent.accepted = sent.bytes.length) :
    connection.flatMap Sent.acceptedBytes = connection.flatMap Sent.bytes := by
  induction connection with
  | nil => rfl
  | cons sent connection ih =>
      rw [List.flatMap_cons, List.flatMap_cons,
        acceptedBytes_of_whole (whole sent (List.mem_cons_self ..)),
        ih fun other listed => whole other (List.mem_cons_of_mem _ listed)]

/-- Sending on after whole chunks keeps a connection untorn, whatever is accepted. -/
theorem untorn_append {connection : List Sent}
    (whole : ∀ sent ∈ connection, sent.accepted = sent.bytes.length) (sent : Sent) :
    Untorn (connection ++ [sent]) where
  prefix_ := by
    rw [List.flatMap_append, List.flatMap_append, flatMap_of_whole whole]
    refine (List.prefix_append_right_inj _).mpr ?_
    simpa [Sent.acceptedBytes] using List.take_prefix _ _
  whole := by simpa using whole

theorem untorn_nil : Untorn [] where
  prefix_ := List.prefix_rfl
  whole := by simp

/-- A connection that was sent on after a short send is torn. -/
theorem Untorn.whole_of_append {connection later : List Sent} {sent : Sent}
    (untorn : Untorn (connection ++ sent :: later)) :
    ∀ other ∈ connection, other.accepted = other.bytes.length := by
  intro other listed
  refine untorn.whole other ?_
  rw [List.dropLast_append_of_ne_nil (by simp)]
  exact List.mem_append_left _ listed

end Connections

namespace FlushState

/-- The open connection is untorn so far, and `short` tells whether it must not be sent on. -/
structure Streaming (short : Bool) (state : FlushState) : Prop where
  closed : ∀ connection ∈ state.closed, Untorn connection
  untorn : Untorn state.open_
  whole : short = false → ∀ sent ∈ state.open_, sent.accepted = sent.bytes.length
  torn : short = true → ∃ sent ∈ state.open_, sent.accepted ≠ sent.bytes.length

/-- All connections of a state, the open one last. -/
def connections (state : FlushState) : List (List Sent) := state.closed ++ [state.open_]

theorem streaming_initial : Streaming false initial where
  closed := by simp [initial]
  untorn := untorn_nil
  whole := by simp [initial]
  torn impossible := by cases impossible

variable {short : Bool} {state : FlushState}

theorem Streaming.connections (streaming : Streaming short state) :
    ∀ connection ∈ state.connections, Untorn connection := by
  intro connection listed
  rcases List.mem_append.mp listed with before | now
  · exact streaming.closed connection before
  · rw [List.mem_singleton] at now
    exact now ▸ streaming.untorn

/-- The loop's position does not matter to the connections. -/
theorem Streaming.move (streaming : Streaming short state) (pc : FlushPc) :
    Streaming short { state with pc } :=
  ⟨streaming.closed, streaming.untorn, streaming.whole, streaming.torn⟩

theorem Streaming.handleSocketError (streaming : Streaming short state) :
    Streaming false state.handleSocketError where
  closed := streaming.connections
  untorn := untorn_nil
  whole := by simp [FlushState.handleSocketError]
  torn impossible := by cases impossible

/-- A send on a connection without a short send. -/
theorem Streaming.send (streaming : Streaming false state) (bytes : Text) (accepted : ℕ)
    (possible : accepted ≤ bytes.length) :
    Streaming (decide (accepted < bytes.length))
      { state with open_ := state.open_ ++ [{ bytes, accepted }] } where
  closed := streaming.closed
  untorn := untorn_append (streaming.whole rfl) _
  whole notShort sent listed := by
    rcases List.mem_append.mp listed with before | now
    · exact streaming.whole rfl sent before
    · rw [List.mem_singleton] at now
      subst now
      simp only [decide_eq_false_iff_not] at notShort
      exact Nat.le_antisymm possible (Nat.le_of_not_lt notShort)
  torn isShort := by
    simp only [decide_eq_true_eq] at isShort
    exact ⟨{ bytes, accepted }, by simp, Nat.ne_of_lt isShort⟩

/-- What a step does to the connections: nothing, one more send on the open one, or a new one. -/
theorem step_connections {event : FlushEvent} {next : FlushState}
    (stepped : state.step event = some next) :
    next.connections = state.connections ∨ next.connections = state.connections ++ [[]] ∨
      ∃ sent, next.connections = state.closed ++ [state.open_ ++ [sent]] ∨
        next.connections = state.closed ++ [state.open_ ++ [sent]] ++ [[]] := by
  cases event with
  | processed socketError =>
      simp only [step] at stepped
      split at stepped
      · cases socketError <;> cases stepped
        · exact .inl rfl
        · exact .inr (.inl rfl)
      · cases stepped
  | tried entered =>
      simp only [step] at stepped
      split at stepped <;> cases stepped
      exact .inl rfl
  | retrieved chunk result =>
      simp only [step] at stepped
      split at stepped
      · split at stepped
        · cases result with
          | socketError =>
              cases stepped
              exact .inr (.inr ⟨_, .inr rfl⟩)
          | accepted count =>
              simp only at stepped
              split at stepped <;> cases stepped
              exact .inr (.inr ⟨_, .inl rfl⟩)
        · cases stepped
          exact .inl rfl
      · cases stepped

/-- Later calls add sends to a connection and connections to the list, and take none away. -/
theorem connection_kept {event : FlushEvent} {next : FlushState} {connection : List Sent}
    (stepped : state.step event = some next)
    (kept : ∃ later ∈ state.connections, connection <+: later) :
    ∃ later ∈ next.connections, connection <+: later := by
  rcases kept with ⟨later, listed, isPrefix⟩
  rcases step_connections stepped with same | opened | ⟨sent, sentOn⟩
  · exact ⟨later, same ▸ listed, isPrefix⟩
  · exact ⟨later, opened ▸ List.mem_append_left _ listed, isPrefix⟩
  · have extended :
        ∃ longer ∈ state.closed ++ [state.open_ ++ [sent]], connection <+: longer := by
      rcases List.mem_append.mp listed with before | now
      · exact ⟨later, List.mem_append_left _ before, isPrefix⟩
      · rw [List.mem_singleton] at now
        exact ⟨later ++ [sent], by simp [now], isPrefix.trans (List.prefix_append _ _)⟩
    rcases extended with ⟨longer, isListed, isLonger⟩
    rcases sentOn with same | opened
    · exact ⟨longer, same ▸ isListed, isLonger⟩
    · exact ⟨longer, opened ▸ List.mem_append_left _ isListed, isLonger⟩

/-- A connection that is sent on after a short send stays torn, whatever the loop does later. -/
theorem Streaming.torn_of_send (streaming : Streaming true state) {sent : Sent}
    {next final : FlushState} {events : List FlushEvent}
    (sentOn : ∃ later ∈ next.connections, state.open_ ++ [sent] <+: later)
    (run : runFrom step next events = some final) :
    ¬∀ connection ∈ final.connections, Untorn connection := by
  intro untorn
  rcases runFrom_invariant_of_step (fun _ _ _ kept stepped => connection_kept stepped kept)
    sentOn run with ⟨later, listed, rest, isAppend⟩
  rcases streaming.torn rfl with ⟨short, isSent, isShort⟩
  have isUntorn : Untorn (state.open_ ++ sent :: rest) := by
    rw [List.append_cons, isAppend]
    exact untorn later listed
  exact isShort (isUntorn.whole_of_append short isSent)

theorem streaming_untorn_iff {events : List FlushEvent} {final : FlushState}
    (streaming : Streaming short state) (run : runFrom step state events = some final) :
    (∀ connection ∈ final.connections, Untorn connection) ↔
      ReconnectsAfterShort short events := by
  induction events generalizing short state with
  | nil =>
      simp only [runFrom_nil, Option.some.injEq] at run
      exact ⟨fun _ => trivial, fun _ => run ▸ streaming.connections⟩
  | cons event events ih =>
      rcases runFrom_cons_eq_some.mp run with ⟨next, stepped, rest⟩
      cases event with
      | processed socketError =>
          simp only [step] at stepped
          split at stepped
          · cases socketError <;> cases stepped
            · simpa [ReconnectsAfterShort] using ih (streaming.move _) rest
            · simpa [ReconnectsAfterShort] using ih streaming.handleSocketError rest
          · cases stepped
      | tried entered =>
          simp only [step] at stepped
          split at stepped <;> cases stepped
          exact ih (streaming.move _) rest
      | retrieved chunk result =>
          simp only [step] at stepped
          split at stepped
          · split at stepped
            next message =>
              cases short with
              | true =>
                  -- the chunk is sent after a short send, and nothing repairs that
                  simp only [ReconnectsAfterShort, message, if_true, Bool.true_eq_false, false_and,
                    iff_false]
                  cases result with
                  | socketError =>
                      cases stepped
                      exact streaming.torn_of_send
                        ⟨state.open_ ++ [⟨chunk.bytes, 0⟩],
                          by simp [connections, FlushState.handleSocketError],
                          List.prefix_rfl⟩ rest
                  | accepted count =>
                      simp only at stepped
                      split at stepped <;> cases stepped
                      exact streaming.torn_of_send
                        ⟨state.open_ ++ [⟨chunk.bytes, count⟩], by simp [connections, goOn],
                          List.prefix_rfl⟩ rest
              | false =>
                  simp only [ReconnectsAfterShort, message, if_true, true_and]
                  cases result with
                  | socketError =>
                      cases stepped
                      exact ih (streaming.send chunk.bytes 0 (Nat.zero_le _)).handleSocketError rest
                  | accepted count =>
                      simp only at stepped
                      split at stepped
                      next possible =>
                        cases stepped
                        exact ih ((streaming.send chunk.bytes count possible.2).move _) rest
                      next => cases stepped
            next message =>
              cases stepped
              simp only [ReconnectsAfterShort, message, if_false]
              exact ih (streaming.move _) rest
          · cases stepped

/-- No byte stream is torn exactly when every short send is followed by a reconnect. -/
theorem connections_untorn_iff {events : List FlushEvent} {final : FlushState}
    (run : runFrom step initial events = some final) :
    (∀ connection ∈ final.connections, Untorn connection) ↔
      ReconnectsAfterShort false events :=
  streaming_untorn_iff streaming_initial run

/-- A short send and then a socket error: the next connection is sent whole chunks. -/
theorem connections_untorn_iff_reconnect :
    let chunk : Chunk := { pendingFl := true, totalMsg := 1, bytes := ['a', 'b'] }
    let events : List FlushEvent :=
      [.processed false, .tried true, .retrieved chunk (.accepted 1),
        .retrieved { chunk with totalMsg := 0, pendingFl := false } (.accepted 1),
        .processed true, .processed false, .tried true,
        .retrieved { chunk with pendingFl := false } (.accepted 2)]
    ∃ final, runFrom step initial events = some final ∧ ReconnectsAfterShort false events ∧
      ∀ connection ∈ final.connections, Untorn connection := by
  intro chunk events
  have quiet : ReconnectsAfterShort false events := by
    simp [events, chunk, ReconnectsAfterShort]
  refine ⟨_, rfl, quiet, (connections_untorn_iff rfl).mpr quiet⟩

/-- A chunk of three bytes of which one is accepted, and then a chunk on the same connection. -/
theorem short_send_tears :
    let first : Chunk := { pendingFl := true, totalMsg := 1, bytes := ['a', 'b', 'c'] }
    let second : Chunk := { pendingFl := false, totalMsg := 1, bytes := ['d', 'e'] }
    let events : List FlushEvent :=
      [.processed false, .tried true, .retrieved first (.accepted 1),
        .retrieved second (.accepted 2)]
    ∃ final, runFrom step initial events = some final ∧
      final.open_.flatMap Sent.acceptedBytes = ['a', 'd', 'e'] ∧
      ¬∀ connection ∈ final.connections, Untorn connection := by
  intro first second events
  refine ⟨_, rfl, rfl, fun untorn => ?_⟩
  have whole := (untorn _ (List.mem_append_right _ (List.mem_singleton_self _))).whole
    { bytes := first.bytes, accepted := 1 } (List.mem_singleton_self _)
  exact absurd whole (by decide)

end FlushState

end HeapScan
