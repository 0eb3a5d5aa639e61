import HeapScan.MessageStore.Building
import HeapScan.Tagging.Basic

/-!
# The groups of a class pass and of a heap walk

The tagging operations see the message store as a list of messages that grows and is
printed.  Here that list is the static group of the store: what `onStartMsgGrp`,
`onIncludeMessage` and `onFlushMsgGrp` do to its nodes is what the operations do to
the list, and the text that is flushed is that of the messages.
-/

namespace HeapScan

open CString Transition TwosComplement

/-- A message as it is included: its text, with the size that was calculated for it. -/
def AgentMsg.queued (msg : AgentMsg) : Queued Text where
  msg := msg.text
  msgSize := msg.totalSz

/-- The messages in the static group of the store. -/
def Store.Groups (store : Store Text) (msgs : List AgentMsg) : Prop :=
  ∃ shape, Sized store.int store.nodes shape store.curMsgGrp ∧
    shape.msgs = msgs.map AgentMsg.queued

/--
The store's side of a call of `includeMessage`.  A message that is not to wait gets a node
that goes to `onProduce`.
-/
def includeCall (store : Store Text) (call : Included) : Option (Store Text) :=
  if call.immediateFl then some (store.createMsgNode call.msg.text call.msgSize).2
  else onIncludeMessage store call.msg.text call.msgSize

/-- The buffer of a group of these messages has room for their text. -/
def GroupFits (int : IntReading) (msgs : List AgentMsg) : Prop :=
  let cut : Cut (Queued Text) := { groups := 1, msgs := msgs.map AgentMsg.queued }
  (cut.text.length : ℤ) + 1 ≤ cut.msgSize int

/-- The operation has made these calls of `includeMessage`, each with the size of its message. -/
structure Includes (calls : List Included) (state next : AgentState) : Prop where
  included : next.included = state.included ++ calls
  curMsgGrp : next.curMsgGrp =
    state.curMsgGrp ++ (calls.filter fun call => !call.immediateFl).map Included.msg
  produced : next.produced =
    state.produced ++ (calls.filter Included.immediateFl).map fun call => [call.msg]
  sizes : ∀ call ∈ calls, call.msgSize = call.msg.totalSz

section Groups

variable {store : Store Text} {msgs : List AgentMsg}

theorem onStartMsgGrp_groups (store : Store Text) : (onStartMsgGrp store).Groups [] :=
  ⟨freshShape store, initializeMsgGrp_sized store, rfl⟩

theorem Store.Groups.include (groups : store.Groups msgs) (msg : AgentMsg) :
    ∃ next, onIncludeMessage store msg.text msg.totalSz = some next ∧
      next.Groups (msgs ++ [msg]) ∧ next.int = store.int := by
  rcases groups with ⟨shape, sized, isMsgs⟩
  rcases onIncludeMessage_sized sized msg.text msg.totalSz with
    ⟨nodes, curMsgGrp, included, sizedNow, -⟩
  refine ⟨_, included, ⟨_, sizedNow, ?_⟩, rfl⟩
  rw [GroupShape.append, isMsgs, List.map_append, List.map_singleton]
  rfl

/-- A node of its own leaves the static group as it is. -/
theorem Store.Groups.createMsgNode (groups : store.Groups msgs) (msg : Text) (msgSize : ℤ) :
    (store.createMsgNode msg msgSize).2.Groups msgs := by
  rcases groups with ⟨shape, sized, isMsgs⟩
  refine ⟨shape, sized.congr fun node listed => ?_, isMsgs⟩
  exact Heap.alloc_cell_of_ne _ _ (Nat.ne_of_lt (sized.list.node_lt listed))

theorem Store.Groups.includeCall (groups : store.Groups msgs) {call : Included}
    (size : call.msgSize = call.msg.totalSz) :
    ∃ next, HeapScan.includeCall store call = some next ∧
      next.Groups (msgs ++ (if call.immediateFl then [] else [call.msg])) ∧
      next.int = store.int := by
  unfold HeapScan.includeCall
  cases call.immediateFl with
  | true =>
      refine ⟨_, rfl, ?_, rfl⟩
      rw [if_pos rfl, List.append_nil]
      exact groups.createMsgNode _ _
  | false =>
      rw [size]
      exact groups.include call.msg

theorem Store.Groups.includeCalls (groups : store.Groups msgs) {calls : List Included}
    (sizes : ∀ call ∈ calls, call.msgSize = call.msg.totalSz) :
    ∃ next, runFrom HeapScan.includeCall store calls = some next ∧
      next.Groups (msgs ++ (calls.filter fun call => !call.immediateFl).map Included.msg) ∧
      next.int = store.int := by
  induction calls generalizing store msgs with
  | nil => exact ⟨store, rfl, by simpa using groups, rfl⟩
  | cons call calls ih =>
      rcases groups.includeCall (sizes call (List.mem_cons_self ..)) with
        ⟨next, included, nextGroups, sameInt⟩
      rcases ih nextGroups fun other listed => sizes other (List.mem_cons_of_mem _ listed) with
        ⟨final, ran, finalGroups, finalInt⟩
      refine ⟨final, runFrom_cons_eq_some.mpr ⟨next, included, ran⟩, ?_, finalInt.trans sameInt⟩
      cases isImmediate : call.immediateFl <;> simpa [isImmediate] using finalGroups

/-- Flushing passes the text of the group on, exactly where there is some and it has room. -/
theorem Store.Groups.flush (groups : store.Groups msgs) (some_msg : msgs ≠ []) :
    (∃ flushed, onFlushMsgGrp store = some (joinMsgs (msgs.map AgentMsg.text),
        ((joinMsgs (msgs.map AgentMsg.text)).length : ℤ) + 1, flushed)) ↔
      GroupFits store.int msgs := by
  rcases groups with ⟨shape, sized, isMsgs⟩
  have isText : shape.text = joinMsgs (msgs.map AgentMsg.text) := by
    rw [GroupShape.text, isMsgs, List.map_map]
    rfl
  have notEmpty : shape.msgs ≠ [] := by rwa [isMsgs, ne_eq, List.map_eq_nil_iff]
  have room : (shape.text.length : ℤ) + 1 ≤ store.curMsgGrp.msgSize store.int ↔
      GroupFits store.int msgs := by
    rw [sized.counts.msgSize, isMsgs, isText, GroupFits, Cut.msgSize, Cut.text, List.map_map]
    rfl
  rw [← room]
  constructor
  · rintro ⟨flushed, result⟩
    by_contra tight
    rw [onFlushMsgGrp, mergeMsgAsString_eq_none sized.list sized.firstNode notEmpty tight] at result
    cases result
  · intro fits
    rcases mergeMsgAsString_of_nodes sized.list sized.firstNode notEmpty fits with
      ⟨nodes, printed, -, -⟩
    have read := contents_append_nul (nul_not_mem_joinMsgs (shape.msgs.map Queued.msg))
    change contents (shape.text ++ [nul]) = shape.text at read
    refine ⟨{ store with nodes }, ?_⟩
    rw [onFlushMsgGrp, printed, ← isText]
    simp only [Option.bind_eq_bind, Option.bind_some, read]

end Groups

section Operations

variable {jvm : Jvm} {state next final : AgentState}

theorem Includes.refl (state : AgentState) : Includes [] state state where
  included := by simp
  curMsgGrp := by simp
  produced := by simp
  sizes := by simp

theorem Includes.trans {calls later : List Included} (first : Includes calls state next)
    (second : Includes later next final) : Includes (calls ++ later) state final where
  included := by rw [second.included, first.included, List.append_assoc]
  curMsgGrp := by
    rw [second.curMsgGrp, first.curMsgGrp, List.filter_append, List.map_append, List.append_assoc]
  produced := by
    rw [second.produced, first.produced, List.filter_append, List.map_append, List.append_assoc]
  sizes := by
    simpa only [List.forall_mem_append] using ⟨first.sizes, second.sizes⟩

/-- Tags and the counter do not matter to the messages. -/
theorem Includes.retag {calls : List Included} {tagged : AgentState}
    (includes : Includes calls tagged next) (included : tagged.included = state.included)
    (curMsgGrp : tagged.curMsgGrp = state.curMsgGrp) (produced : tagged.produced = state.produced) :
    Includes calls state next where
  included := included ▸ includes.included
  curMsgGrp := curMsgGrp ▸ includes.curMsgGrp
  produced := produced ▸ includes.produced
  sizes := includes.sizes

theorem includeMessage_includes (state : AgentState) (msg : AgentMsg) (immediateFl : Bool) :
    Includes [⟨msg, msg.totalSz, immediateFl⟩] state
      (state.includeMessage msg msg.totalSz immediateFl) where
  included := by cases immediateFl <;> rfl
  curMsgGrp := by cases immediateFl <;> simp [AgentState.includeMessage]
  produced := by cases immediateFl <;> simp [AgentState.includeMessage]
  sizes := by simp

theorem checkAndTagClasses_includes (state : AgentState) (classes : List Entity) (flushFl : Bool) :
    ∃ calls, Includes calls state (AgentState.checkAndTagClasses jvm state classes flushFl) ∧
      ∀ call ∈ calls, call.immediateFl = flushFl := by
  induction classes generalizing state with
  | nil => exact ⟨[], Includes.refl state, by simp⟩
  | cons cls classes ih =>
      rw [AgentState.checkAndTagClasses]
      dsimp only
      generalize isTagged : (if state.tag cls = 0 then _ else state) = tagged
      have same : tagged.included = state.included ∧ tagged.curMsgGrp = state.curMsgGrp ∧
          tagged.produced = state.produced := by
        rw [← isTagged]
        split <;> exact ⟨rfl, rfl, rfl⟩
      rcases ih (AgentState.storeClassTag jvm tagged cls (state.tag cls) flushFl) with
        ⟨calls, includes, immediate⟩
      refine ⟨_, ((includeMessage_includes tagged _ flushFl).retag same.1 same.2.1 same.2.2).trans
        includes, ?_⟩
      simpa using immediate

theorem tagReferenced_includes (state : AgentState) (object : Entity) (classTag : ℤ) :
    ∃ calls, Includes calls state (state.tagReferenced object classTag) ∧
      ∀ call ∈ calls, call.immediateFl = false := by
  unfold AgentState.tagReferenced
  split
  · exact ⟨_, (includeMessage_includes _ _ false).retag rfl rfl rfl, by simp⟩
  · exact ⟨[], Includes.refl state, by simp⟩

theorem reportReference_includes (state : AgentState) (reference : HeapReference) :
    ∃ calls, Includes calls state (state.reportReference jvm reference) ∧
      ∀ call ∈ calls, call.immediateFl = false := by
  unfold AgentState.reportReference AgentState.followReferenceCallback
  dsimp only
  rcases tagReferenced_includes state reference.referent
    (state.tag (jvm.classOf reference.referent)) with ⟨calls, includes, waiting⟩
  cases reference.referrer with
  | none =>
      refine ⟨_, includes.trans (includeMessage_includes _ _ false), ?_⟩
      simpa only [List.forall_mem_append, List.forall_mem_singleton, and_true] using waiting
  | some object =>
      rcases tagReferenced_includes (state.tagReferenced reference.referent
        (state.tag (jvm.classOf reference.referent))) object
        (state.tag (jvm.classOf object)) with ⟨later, includesLater, waitingLater⟩
      refine ⟨_, (includes.trans includesLater).trans (includeMessage_includes _ _ false), ?_⟩
      simpa only [List.forall_mem_append, List.forall_mem_singleton, and_true] using
        ⟨waiting, waitingLater⟩

theorem followReferences_includes (state : AgentState) (references : List HeapReference) :
    ∃ calls, Includes calls state (AgentState.followReferences jvm state references) ∧
      ∀ call ∈ calls, call.immediateFl = false := by
  induction references generalizing state with
  | nil => exact ⟨[], Includes.refl state, by simp⟩
  | cons reference references ih =>
      rcases @reportReference_includes jvm state reference with ⟨calls, includes, waiting⟩
      rcases ih (state.reportReference jvm reference) with ⟨later, includesLater, waitingLater⟩
      refine ⟨_, includes.trans includesLater, ?_⟩
      simpa only [List.forall_mem_append] using ⟨waiting, waitingLater⟩

/--
From `state` to `next` one group is started, filled and flushed.  The same calls fill the
static group of any store, and flushing that passes the text of the messages on, exactly
where there is some and its buffer has room for it.
-/
def FlushesGroup (state next : AgentState) : Prop :=
  ∃ calls : List Included,
    let group := calls.map Included.msg
    next.included = state.included ++ calls ∧ next.produced = state.produced ++ [group] ∧
      ∀ store : Store Text, ∃ built,
        runFrom includeCall (onStartMsgGrp store) calls = some built ∧
        (group ≠ [] →
          ((∃ flushed, onFlushMsgGrp built = some (joinMsgs (group.map AgentMsg.text),
              ((joinMsgs (group.map AgentMsg.text)).length : ℤ) + 1, flushed)) ↔
            GroupFits store.int group))

theorem flushMsgGrp_flushes {calls : List Included}
    (includes : Includes calls state.startMsgGrp next)
    (waiting : ∀ call ∈ calls, call.immediateFl = false) :
    FlushesGroup state next.flushMsgGrp := by
  have noneImmediate : calls.filter Included.immediateFl = [] := by
    rw [List.filter_eq_nil_iff]
    intro call listed
    simp [waiting call listed]
  have allWaiting : (calls.filter fun call => !call.immediateFl) = calls := by
    rw [List.filter_eq_self]
    intro call listed
    simp [waiting call listed]
  have isGroup := includes.curMsgGrp
  rw [allWaiting] at isGroup
  refine ⟨calls, includes.included, ?_, fun store => ?_⟩
  · rw [AgentState.flushMsgGrp, includes.produced, noneImmediate, isGroup]
    simp [AgentState.startMsgGrp]
  · rcases (onStartMsgGrp_groups store).includeCalls includes.sizes with
      ⟨built, ran, groups, sameInt⟩
    rw [allWaiting, List.nil_append] at groups
    refine ⟨built, ran, fun some_msg => ?_⟩
    rw [groups.flush some_msg, sameInt]
    rfl

/-- A class pass passes the text of its group to `onProduce`. -/
theorem onGetClassMetadata_flushes (jvm : Jvm) (state : AgentState) (classes : List Entity) :
    FlushesGroup state (AgentState.onGetClassMetadata jvm state classes) := by
  rcases @checkAndTagClasses_includes jvm state.startMsgGrp classes false with
    ⟨calls, includes, waiting⟩
  exact flushMsgGrp_flushes includes waiting

/-- A heap walk passes the text of its group to `onProduce`. -/
theorem onFollowReference_flushes (jvm : Jvm) (state : AgentState)
    (references : List HeapReference) :
    FlushesGroup state (AgentState.onFollowReference jvm state references) := by
  rcases @followReferences_includes jvm state.startMsgGrp references with
    ⟨calls, includes, waiting⟩
  exact flushMsgGrp_flushes includes waiting

end Operations

end HeapScan
