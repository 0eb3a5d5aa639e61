import HeapScan.MessageStore.Building
import HeapScan.MessageStore.Lossless
import HeapScan.MessageStore.Unlimited

/-!
# The lines of a chunk

A reader of a chunk splits it at the separator.  It finds the messages of the
group that was printed, and a group that was flushed as one message gives it
the same lines as the group's messages queued one by one.  Here the sizes are
exact integers, and every message has a size that counts its text and a NUL.
-/

namespace HeapScan

open CString Transition TwosComplement

variable {α : Type} [Message α]

/-- A text split at the separator. -/
def textLines (text : Text) : List Text := text.splitOn '\n'

/-- The messages as they stand, the separator between them. -/
def joined (msgs : List α) : Text := List.intercalate msgSeperator (msgs.map Message.text)

/-- Messages without NULs are printed as they stand. -/
theorem joinMsgs_eq_joined {msgs : List α} (nulFree : ∀ msg ∈ msgs, nul ∉ Message.text msg) :
    joinMsgs msgs = joined msgs :=
  congrArg (List.intercalate msgSeperator)
    (List.map_congr_left fun msg listed => contents_of_not_mem (nulFree msg listed))

/-- The lines of joined messages are those of the messages. -/
theorem textLines_joined {msgs : List α} (some_msg : msgs ≠ []) :
    textLines (joined msgs) = msgs.flatMap fun msg => textLines (Message.text msg) := by
  cases msgs with
  | nil => exact absurd rfl some_msg
  | cons msg msgs =>
      induction msgs generalizing msg with
      | nil => simp [joined, List.intercalate]
      | cons next msgs ih =>
          have rest := ih next (List.cons_ne_nil _ _)
          have split : joined (msg :: next :: msgs) =
              Message.text msg ++ '\n' :: joined (next :: msgs) := by
            simp [joined, msgSeperator, List.intercalate_cons_cons]
          rw [split, textLines, List.splitOn_append_cons_self, List.flatMap_cons, ← rest]
          rfl

/-- Splitting a chunk gives back the messages, where they have no separators. -/
theorem textLines_eq_map {msgs : List α} (some_msg : msgs ≠ [])
    (plain : ∀ msg ∈ msgs, '\n' ∉ Message.text msg) :
    textLines (joined msgs) = msgs.map Message.text :=
  List.splitOn_intercalate '\n' (by simpa using plain) (by simpa using some_msg)

section Framed

/-- Printing the group writes its messages, joined and with one NUL, into a buffer with room. -/
def Framed (store : Store α) (group : MsgGroup) (msgs : List α) : Prop :=
  ∃ next, mergeMsgAsString store group =
    some (msgs, joined msgs ++ [nul], ((joined msgs).length : ℤ) + 1, next)

/-- The messages have no NULs and sizes that count their texts and a NUL. -/
def AllFit (msgs : List (Queued α)) : Prop := ∀ msg ∈ msgs, Fits msg.msg msg.msgSize

theorem AllFit.joinMsgs_eq {msgs : List (Queued α)} (fits : AllFit msgs) :
    joinMsgs (msgs.map Queued.msg) = joined (msgs.map Queued.msg) := by
  refine joinMsgs_eq_joined fun msg listed => ?_
  rcases List.mem_map.mp listed with ⟨queued, isQueued, rfl⟩
  exact (fits queued isQueued).1

/-- Exact sizes leave room for the text of a group, merged or not. -/
theorem AllFit.room {msgs : List (Queued α)} (fits : AllFit msgs) (some_msg : msgs ≠ [])
    (merged : ℕ) :
    ((joinMsgs (msgs.map Queued.msg)).length : ℤ) + 1 ≤
      emptyMsgSize * merged + sizes msgs + msgs.length * (msgSeperator.length + 1) := by
  have sized := length_joinMsgs_le some_msg fun msg listed => by
    rw [contents_of_not_mem (fits msg listed).1]
    exact (fits msg listed).2
  simp only [emptyMsgSize, msgSeperator, List.length_cons, List.length_nil]
  omega

/-- A cut of such messages can be printed. -/
theorem Cut.printable_of_fits {cut : Cut (Queued α)} (fits : AllFit cut.msgs) :
    cut.Printable .exact := by
  rcases eq_or_ne cut.msgs [] with none | some_msg
  · exact Or.inl (by simp [none])
  · exact Or.inr (fits.room some_msg cut.groups)

theorem framed_of_list {store : Store α} {shape : GroupShape α} {group : MsgGroup} {merged : ℕ}
    (exact : store.int = .exact) (list : NodeList store.nodes shape)
    (firstNode : group.firstNode = shape.first) (counts : group.Counts .exact merged shape.msgs)
    (fits : AllFit shape.msgs) (some_msg : shape.msgs ≠ []) :
    Framed store group (shape.msgs.map Queued.msg) := by
  have room : (shape.text.length : ℤ) + 1 ≤ group.msgSize store.int := by
    rw [exact, counts.msgSize]
    exact fits.room some_msg merged
  rcases mergeMsgAsString_of_nodes list firstNode some_msg room with ⟨nodes, printed, -⟩
  rw [GroupShape.text, fits.joinMsgs_eq] at printed
  exact ⟨_, printed⟩

/-- Every group that was built and is not empty is printed into a buffer with room. -/
theorem BuildState.Sound.framed {state : BuildState α} (sound : state.Sound .exact)
    {key : Option ℕ} {group : MsgGroup}
    (isGroup : slots (some state.store.curMsgGrp) state.store.groups key = some group)
    (some_msg : state.msgs key ≠ []) :
    Framed state.store group ((state.msgs key).map Queued.msg) := by
  rcases sound with ⟨sameInt, -, ⟨shapes, built⟩, allFit⟩
  have sized := built.space.sized key group isGroup
  have fits := allFit key
  rw [← built.carries key (by simp [isGroup])] at some_msg fits ⊢
  exact framed_of_list sameInt sized.list sized.firstNode sized.counts fits some_msg

/-- So is every merge of two of them. -/
theorem BuildState.Sound.framed_merge {state : BuildState α} (sound : state.Sound .exact)
    {first second : ℕ} (different : first ≠ second) (firstIn : first < state.store.groups.fresh)
    (secondIn : second < state.store.groups.fresh)
    (some_msg : state.msgs (some first) ++ state.msgs (some second) ≠ []) :
    ∃ merged group, mergeGrp state.store first second = some merged ∧
      merged.groups.cell first = some group ∧
      Framed merged group
        ((state.msgs (some first) ++ state.msgs (some second)).map Queued.msg) := by
  rcases sound with ⟨sameInt, -, ⟨shapes, built⟩, allFit⟩
  have firstLive : slots (some state.store.curMsgGrp) state.store.groups (some first) ≠ none :=
    built.live first firstIn
  have secondLive : slots (some state.store.curMsgGrp) state.store.groups (some second) ≠ none :=
    built.live second secondIn
  rcases Option.ne_none_iff_exists'.mp firstLive with ⟨group1, held1⟩
  rcases Option.ne_none_iff_exists'.mp secondLive with ⟨group2, held2⟩
  have sized1 := built.space.sized _ group1 held1
  have sized2 := built.space.sized _ group2 held2
  have apart := built.space.apart (some first) (some second) (by simpa using different)
    firstLive secondLive
  rcases mergeGrp_eq state.store (sized1.rep held1) (sized2.rep held2) different apart with
    ⟨nodes, groups, group, merged, -, -, -, -, -, printable, -, counts⟩
  refine ⟨_, group, merged, printable.held, ?_⟩
  have fits : AllFit (state.msgs (some first) ++ state.msgs (some second)) := by
    intro msg listed
    rcases List.mem_append.mp listed with inFirst | inSecond
    · exact allFit _ msg inFirst
    · exact allFit _ msg inSecond
  rw [sameInt] at counts
  rw [← built.carries _ firstLive, ← built.carries _ secondLive] at some_msg fits ⊢
  exact @framed_of_list _ _ { state.store with nodes, groups } _ _ _ sameInt printable.nodeList
    printable.firstNode (counts 1 1 sized1.counts sized2.counts) fits some_msg

end Framed

section Reached

/--
What a history leaves, with exact counters: chains of the pending messages, which all fit,
split under a positive limit.
-/
structure Reached (socketMsgLimit : ℤ) (pending : HolderName → List (Queued α)) (store : Store α) :
    Prop where
  chains : ∃ chains, store.Refines chains ∧
    ((0 < socketMsgLimit ∧ Settled .exact socketMsgLimit.toNat pending chains) ∨
      (socketMsgLimit ≤ 0 ∧ Unsplit .exact pending chains))
  fits : ∀ name, AllFit (pending name)

/-- The message that the operation brings has no NULs and a right size. -/
def StoreOp.Fits : StoreOp α → Prop
  | .queue _ msg msgSize => HeapScan.Fits msg msgSize
  | .drain _ => True

theorem StoreOp.Fits.pendingAfter {pending : HolderName → List (Queued α)} {op : StoreOp α}
    (fits : op.Fits) (allFit : ∀ name, AllFit (pending name)) :
    ∀ name, AllFit (pendingAfter pending op name) := by
  intro name msg listed
  cases op with
  | queue id added msgSize =>
      rcases eq_or_ne name (getMsgGroupHolder id) with rfl | different
      · rw [HeapScan.pendingAfter, Function.update_self, List.mem_append,
          List.mem_singleton] at listed
        rcases listed with old | rfl
        · exact allFit _ msg old
        · exact fits
      · rw [HeapScan.pendingAfter, Function.update_of_ne different] at listed
        exact allFit name msg listed
  | drain id =>
      simp only [HeapScan.pendingAfter, Function.update_apply] at listed
      split at listed
      · cases listed
      · split at listed
        · cases listed
        · exact allFit name msg listed

variable {socketMsgLimit : ℤ} {pending : HolderName → List (Queued α)} {store : Store α}

theorem Reached.queue (reached : Reached socketMsgLimit pending store) (id : MsgLocationId)
    {msg : α} {msgSize : ℤ} (fits : Fits msg msgSize) :
    ∃ next, queueMsg store id msg msgSize = some next ∧
      Reached socketMsgLimit (pendingAfter pending (.queue id msg msgSize)) next := by
  have fitsNow := @StoreOp.Fits.pendingAfter _ _ _ (.queue id msg msgSize) fits reached.fits
  rcases reached.chains with ⟨chains, refines, ⟨limited, settled⟩ | ⟨unlimited, unsplit⟩⟩
  · rcases Settled.queue settled (getMsgGroupHolder id) { msg, msgSize } with
      ⟨queued, isQueued, nowSettled⟩
    rcases queueMsg_refines refines id msg msgSize isQueued with ⟨next, result, nextRefines⟩
    exact ⟨next, result, ⟨queued, nextRefines, Or.inl ⟨limited, nowSettled⟩⟩, fitsNow⟩
  · rcases unsplit.queue (getMsgGroupHolder id) { msg, msgSize } with
      ⟨queued, isQueued, nowUnsplit⟩
    rcases queueMsg_refines refines id msg msgSize isQueued with ⟨next, result, nextRefines⟩
    exact ⟨next, result, ⟨queued, nextRefines, Or.inr ⟨unlimited, nowUnsplit⟩⟩, fitsNow⟩

omit [Message α] in
/-- Exact counters never take messages for none. -/
theorem unlimitedCuts_msgs (left right : List α) :
    (unlimitedCuts .exact left right).flatMap Cut.msgs = left ++ right := by
  unfold unlimitedCuts
  split
  · simp
  · rw [List.flatMap_cons]
    congr 1
    split
    · simp
    · simp

/--
A drain succeeds.  It hands out messages of the two entries, and all of them in order where
they fit into one chunk or there is no limit.
-/
theorem Reached.drain (reached : Reached socketMsgLimit pending store) (id : MsgLocationId) :
    ∃ cuts next, HeapScan.drain store id = some (retrievedOf .exact cuts, next) ∧
      Reached socketMsgLimit (pendingAfter pending (.drain id)) next ∧
      AllFit (cuts.flatMap Cut.msgs) ∧
      ((0 < socketMsgLimit → (pending (ChainStore.inSpace id).1).length +
          (pending (ChainStore.inSpace id).2).length ≤ socketMsgLimit.toNat) →
        cuts.flatMap Cut.msgs =
          pending (ChainStore.inSpace id).1 ++ pending (ChainStore.inSpace id).2) := by
  have fitsNow := @StoreOp.Fits.pendingAfter _ _ _ (.drain id) trivial reached.fits
  have bothFit : AllFit
      (pending (ChainStore.inSpace id).1 ++ pending (ChainStore.inSpace id).2) := by
    intro msg listed
    rcases List.mem_append.mp listed with inLeft | inRight
    · exact reached.fits _ msg inLeft
    · exact reached.fits _ msg inRight
  have cutFits : ∀ {cuts : List (Cut (Queued α))}, AllFit (cuts.flatMap Cut.msgs) →
      ∀ cut ∈ cuts, cut.Printable .exact := fun allFit cut isCut =>
    cut.printable_of_fits fun msg listed => allFit msg (List.mem_flatMap.mpr ⟨cut, isCut, listed⟩)
  rcases reached.chains with ⟨chains, refines, ⟨limited, settled⟩ | ⟨unlimited, unsplit⟩⟩
  · have handed := cutsOf_msgs settled.limited (pending (ChainStore.inSpace id).1)
      (pending (ChainStore.inSpace id).2)
    have drainedFit : AllFit ((cutsOf socketMsgLimit.toNat (pending (ChainStore.inSpace id).1)
        (pending (ChainStore.inSpace id).2)).flatMap Cut.msgs) := by
      intro msg listed
      rw [handed] at listed
      exact bothFit msg (drainedMsgs_subset listed)
    have counts : CountsFit .exact socketMsgLimit.toNat (pending (ChainStore.inSpace id).1).length
        (pending (ChainStore.inSpace id).2).length := by
      unfold CountsFit
      split
      · exact IntReading.keeps_exact _
      · exact ⟨IntReading.keeps_exact _, Or.inr (IntReading.keeps_exact _)⟩
    rcases settled.drain refines id counts (cutFits drainedFit) with ⟨next, result, nextRefines⟩
    refine ⟨_, next, result, ⟨⟨_, nextRefines, Or.inl ⟨limited, Settled.drained settled id⟩⟩,
      fitsNow⟩, drainedFit, fun together => ?_⟩
    have fits := together limited
    rw [handed, drainedMsgs_eq ⟨by omega, by omega⟩]
  · have allFit : AllFit ((unlimitedCuts .exact (pending (ChainStore.inSpace id).1)
        (pending (ChainStore.inSpace id).2)).flatMap Cut.msgs) := by
      rwa [unlimitedCuts_msgs]
    rcases (unsplit.drain_iff refines id _).mpr ⟨rfl, cutFits allFit⟩ with ⟨next, result⟩
    exact ⟨_, next, result, ⟨⟨_, unsplit.drained_of_drain refines id result,
      Or.inr ⟨unlimited, unsplit.drained id⟩⟩, fitsNow⟩, allFit, fun _ => unlimitedCuts_msgs _ _⟩

/-- A history of fitting messages can be run. -/
theorem Reached.run (reached : Reached socketMsgLimit pending store) {ops : List (StoreOp α)}
    (fits : ∀ op ∈ ops, op.Fits) :
    ∃ next, runFrom applyOp store ops = some next ∧
      Reached socketMsgLimit (ops.foldl pendingAfter pending) next := by
  induction ops generalizing store pending with
  | nil => exact ⟨store, rfl, reached⟩
  | cons op ops ih =>
      rw [List.forall_mem_cons] at fits
      have stepped : ∃ next, applyOp store op = some next ∧
          Reached socketMsgLimit (pendingAfter pending op) next := by
        cases op with
        | queue id msg msgSize => exact reached.queue id fits.1
        | drain id =>
            rcases reached.drain id with ⟨cuts, next, result, nextReached, -⟩
            exact ⟨next, by simp [applyOp, result], nextReached⟩
      rcases stepped with ⟨next, applied, nextReached⟩
      rcases ih nextReached fits.2 with ⟨final, ran, finalReached⟩
      exact ⟨final, runFrom_cons_eq_some.mpr ⟨next, applied, ran⟩, finalReached⟩

theorem history_reached (socketMsgLimit : ℤ) {history : List (StoreOp α)}
    (fits : ∀ op ∈ history, op.Fits) :
    ∃ store, runFrom applyOp (onInitializeReading .exact socketMsgLimit) history = some store ∧
      Reached socketMsgLimit (pendingOf history) store := by
  refine Reached.run ?_ fits
  refine ⟨⟨_, onInitialize_refines .exact socketMsgLimit, ?_⟩,
    fun name msg listed => by cases listed⟩
  rcases Int.lt_or_le 0 socketMsgLimit with limited | unlimited
  · exact Or.inl ⟨limited, Settled.init limited (IntReading.keeps_exact _)⟩
  · exact Or.inr ⟨unlimited, Unsplit.init unlimited (IntReading.keeps_exact _)⟩

omit [Message α] in
/-- New nodes and the static group are no part of the four holders. -/
theorem Store.Refines.of_kept {next : Store α} {chains : ChainStore (Queued α)}
    (refines : store.Refines chains) (holder : next.holder = store.holder)
    (groups : next.groups = store.groups) (isToBeSplit : next.isToBeSplit = store.isToBeSplit)
    (splitSz : next.splitSz = store.splitSz) (int : next.int = store.int)
    (kept : ∀ node, node < store.nodes.fresh → next.nodes.cell node = store.nodes.cell node) :
    next.Refines chains := by
  rcases refines with ⟨same, shapes, rep, msgs⟩
  refine ⟨⟨isToBeSplit.trans same.1, splitSz.trans same.2.1, int.trans same.2.2⟩, shapes, ?_, msgs⟩
  exact rep.transfer (fun _ => False) int (fun name _ => congrFun holder name) (fun _ _ => rfl)
    (fun _ _ => rfl) (Nat.le_of_eq (congrArg Heap.fresh groups).symm)
    (fun node old _ => kept node old)
    (fun group _ _ => by rw [groups]) (fun _ impossible => impossible.elim)
    (fun _ impossible => impossible.elim) (fun _ impossible => impossible.elim)
    (fun _ _ impossible => impossible.elim)

/-- The lines that a drain sends: nothing is sent for a chunk without messages. -/
def sentLines (retrieved : List (Retrieved α)) : List Text :=
  retrieved.flatMap fun chunk => if chunk.totalMsg < 1 then [] else textLines chunk.msg

/-- The lines of the messages, one message after another. -/
def linesOf (msgs : List (Queued α)) : List Text :=
  msgs.flatMap fun msg => textLines (Message.text msg.msg)

/-- They are the lines of the messages handed out. -/
theorem sentLines_retrievedOf {cuts : List (Cut (Queued α))}
    (fits : AllFit (cuts.flatMap Cut.msgs)) :
    sentLines (retrievedOf .exact cuts) = linesOf (cuts.flatMap Cut.msgs) := by
  have ofCut : ∀ cut ∈ cuts, ∀ pendingFl,
      (if (cut.retrieved .exact pendingFl).totalMsg < 1 then []
        else textLines (cut.retrieved .exact pendingFl).msg) = linesOf cut.msgs := by
    intro cut isCut pendingFl
    have cutFits : AllFit cut.msgs := fun msg listed =>
      fits msg (List.mem_flatMap.mpr ⟨cut, isCut, listed⟩)
    have printed := (Cut.retrieved_of_keeps (IntReading.keeps_exact cut.msgs.length) pendingFl)
    have counted := printed.2.totalMsg
    rw [printed.1, List.length_map] at counted
    rw [printed.2.msg, printed.1, counted, cutFits.joinMsgs_eq]
    rcases eq_or_ne cut.msgs [] with none | some_msg
    · simp [none, linesOf]
    · have pos := List.length_pos_of_ne_nil some_msg
      rw [if_neg (by omega), textLines_joined (by simpa using some_msg), List.flatMap_map]
      rfl
  induction cuts with
  | nil => rfl
  | cons cut cuts ih =>
      have restFits : AllFit (cuts.flatMap Cut.msgs) := fun msg listed =>
        fits msg (by rw [List.flatMap_cons]; exact List.mem_append_right _ listed)
      have rest := ih restFits fun other isCut => ofCut other (List.mem_cons_of_mem _ isCut)
      have here := ofCut cut (List.mem_cons_self ..)
      rw [List.flatMap_cons, linesOf, List.flatMap_append]
      cases cuts with
      | nil => simpa [retrievedOf, sentLines, linesOf] using here false
      | cons next cuts =>
          rw [retrievedOf, sentLines, List.flatMap_cons, here true]
          exact congrArg (linesOf cut.msgs ++ ·) rest

end Reached

section Flush

/-- Queue the messages at `id`, one after another. -/
def queueAll (store : Store α) (id : MsgLocationId) : List (α × ℤ) → Option (Store α)
  | [] => some store
  | (msg, msgSize) :: msgs => do
      let store ← queueMsg store id msg msgSize
      queueAll store id msgs

/-- A producer's message group: started, filled, and flushed to `id` as one message. -/
def flushGroup (store : Store Text) (id : MsgLocationId) (msgs : List (Text × ℤ)) :
    Option (Store Text) := do
  let store ← includeAll (onStartMsgGrp store) msgs
  let (totalMsg, msgSize, store) ← onFlushMsgGrp store
  queueMsg store id totalMsg msgSize

theorem Reached.queueAll {socketMsgLimit : ℤ} {pending : HolderName → List (Queued α)}
    {store : Store α} (reached : Reached socketMsgLimit pending store) (id : MsgLocationId)
    {msgs : List (α × ℤ)} (fits : ∀ msg ∈ msgs, Fits msg.1 msg.2) :
    ∃ next, HeapScan.queueAll store id msgs = some next ∧
      Reached socketMsgLimit
        ((msgs.map fun msg => StoreOp.queue id msg.1 msg.2).foldl pendingAfter pending) next := by
  induction msgs generalizing store pending with
  | nil => exact ⟨store, rfl, reached⟩
  | cons msg msgs ih =>
      rw [List.forall_mem_cons] at fits
      rcases reached.queue id fits.1 with ⟨middle, queued, middleReached⟩
      rcases ih middleReached fits.2 with ⟨next, rest, nextReached⟩
      refine ⟨next, ?_, nextReached⟩
      simp only [HeapScan.queueAll, queued, rest, Option.bind_eq_bind, Option.bind_some]

/-- A flushed group waits at `id` as one message, its messages joined. -/
theorem Reached.flushGroup {socketMsgLimit : ℤ} {pending : HolderName → List (Queued Text)}
    {store : Store Text} (reached : Reached socketMsgLimit pending store) (id : MsgLocationId)
    {msgs : List (Text × ℤ)} (some_msg : msgs ≠ []) (fits : ∀ msg ∈ msgs, Fits msg.1 msg.2) :
    ∃ next, HeapScan.flushGroup store id msgs = some next ∧
      Reached socketMsgLimit (pendingAfter pending (.queue id (joined (msgs.map Prod.fst))
        ((joined (msgs.map Prod.fst)).length + 1))) next := by
  have started : Sized store.int (onStartMsgGrp store).nodes (freshShape store)
      (onStartMsgGrp store).curMsgGrp := initializeMsgGrp_sized store
  have startOwn : ∀ node ∈ (freshShape store).cells, store.nodes.fresh ≤ node := by simp
  rcases @includeAll_sized _ store.nodes.fresh (onStartMsgGrp store) _ started startOwn msgs with
    ⟨nodes, curMsgGrp, shape, included, sized, isMsgs, own, kept⟩
  have shapeMsgs : shape.msgs = msgs.map fun msg => ⟨msg.1, msg.2⟩ := by
    simpa [freshShape] using isMsgs
  have shapeFits : AllFit shape.msgs := by
    intro msg listed
    rw [shapeMsgs] at listed
    rcases List.mem_map.mp listed with ⟨call, isCall, rfl⟩
    exact fits call isCall
  have shapeTexts : shape.msgs.map Queued.msg = msgs.map Prod.fst := by
    rw [shapeMsgs, List.map_map]
    rfl
  have isText : shape.text = joined (msgs.map Prod.fst) := by
    rw [GroupShape.text, shapeFits.joinMsgs_eq, shapeTexts]
  have exact : store.int = .exact := by
    rcases reached.chains with ⟨chains, refines, ⟨-, settled⟩ | ⟨-, unsplit⟩⟩
    · exact refines.1.2.2.trans settled.sameInt
    · exact refines.1.2.2.trans unsplit.sameInt
  have some_shape : shape.msgs ≠ [] := by simpa [shapeMsgs] using some_msg
  have room : (shape.text.length : ℤ) + 1 ≤ curMsgGrp.msgSize store.int := by
    have counts : curMsgGrp.Counts store.int 1 shape.msgs := sized.counts
    rw [counts.msgSize, exact]
    exact shapeFits.room some_shape 1
  rcases @mergeMsgAsString_of_nodes _ _ { onStartMsgGrp store with nodes, curMsgGrp } shape
      curMsgGrp sized.list sized.firstNode some_shape room with
    ⟨printed, merged, -, outside⟩
  have noNul : nul ∉ joined (msgs.map Prod.fst) := by
    rw [← isText]
    exact nul_not_mem_joinMsgs _
  have reachedNow : Reached socketMsgLimit pending
      { onStartMsgGrp store with nodes := printed, curMsgGrp } := by
    rcases reached.chains with ⟨chains, refines, state⟩
    refine ⟨⟨chains, refines.of_kept rfl rfl rfl rfl rfl fun node old => ?_, state⟩, reached.fits⟩
    have unlisted : node ∉ shape.cells := fun listed =>
      absurd (own node listed) (Nat.not_le_of_lt old)
    exact (outside node unlisted).trans ((kept node old).trans (allocateMsgGrp_node store old))
  rw [isText] at merged
  rcases reachedNow.queue id
      (⟨noNul, Int.le_refl _⟩ : Fits (joined (msgs.map Prod.fst)) _) with
    ⟨next, queued, nextReached⟩
  refine ⟨next, ?_, nextReached⟩
  simp only [HeapScan.flushGroup, included, onFlushMsgGrp, merged, contents_append_nul noNul,
    Option.bind_eq_bind, Option.bind_some]
  exact queued

theorem getMsgGroupHolder_inSpace (id : MsgLocationId) :
    getMsgGroupHolder id = (ChainStore.inSpace id).1 ∨
      getMsgGroupHolder id = (ChainStore.inSpace id).2 := by
  unfold getMsgGroupHolder ChainStore.inSpace
  split <;> split <;> simp

/-- The lines of what is pending in a space, the left entry's first. -/
def pendingLines (pending : HolderName → List (Queued α)) (id : MsgLocationId) : List Text :=
  linesOf (pending (ChainStore.inSpace id).1 ++ pending (ChainStore.inSpace id).2)

omit [Message α] in
/-- What is queued at `id` comes behind what one of the entries of the space holds. -/
theorem pending_inSpace (pending : HolderName → List (Queued α)) (id : MsgLocationId) :
    ∃ before after,
      pending (ChainStore.inSpace id).1 ++ pending (ChainStore.inSpace id).2 = before ++ after ∧
      ∀ more : List (Queued α),
        Function.update pending (getMsgGroupHolder id)
            (pending (getMsgGroupHolder id) ++ more) (ChainStore.inSpace id).1 ++
          Function.update pending (getMsgGroupHolder id)
            (pending (getMsgGroupHolder id) ++ more) (ChainStore.inSpace id).2 =
        before ++ more ++ after := by
  have different := ChainStore.inSpace_ne id
  rcases getMsgGroupHolder_inSpace id with isLeft | isRight
  · exact ⟨_, _, rfl, fun more => by simp [isLeft, different.symm]⟩
  · exact ⟨_, [], (List.append_nil _).symm, fun more => by simp [isRight, different]⟩

omit [Message α] in
theorem foldl_queue (pending : HolderName → List (Queued α)) (id : MsgLocationId)
    (msgs : List (α × ℤ)) :
    (msgs.map fun msg => StoreOp.queue id msg.1 msg.2).foldl pendingAfter pending =
      Function.update pending (getMsgGroupHolder id)
        (pending (getMsgGroupHolder id) ++ msgs.map fun msg => ⟨msg.1, msg.2⟩) := by
  induction msgs generalizing pending with
  | nil => simp
  | cons msg msgs ih =>
      rw [List.map_cons, List.foldl_cons, ih]
      simp [pendingAfter]

/--
Flushing a group and queueing its messages one by one send the same lines, those of what
is then pending, where they fit into one chunk with what was pending in the space.
-/
theorem Reached.same_lines {socketMsgLimit : ℤ} {pending : HolderName → List (Queued Text)}
    {store : Store Text} (reached : Reached socketMsgLimit pending store) (id : MsgLocationId)
    {msgs : List (Text × ℤ)} (some_msg : msgs ≠ []) (fits : ∀ msg ∈ msgs, Fits msg.1 msg.2)
    (oneChunk : 0 < socketMsgLimit → (pending (ChainStore.inSpace id).1).length +
      (pending (ChainStore.inSpace id).2).length + msgs.length ≤ socketMsgLimit.toNat) :
    let lines := pendingLines
      ((msgs.map fun msg => StoreOp.queue id msg.1 msg.2).foldl pendingAfter pending) id
    ∃ grouped single, HeapScan.flushGroup store id msgs = some grouped ∧
      HeapScan.queueAll store id msgs = some single ∧
      (HeapScan.drain grouped id).map (fun result => sentLines result.1) = some lines ∧
      (HeapScan.drain single id).map (fun result => sentLines result.1) = some lines := by
  intro lines
  rcases reached.flushGroup id some_msg fits with ⟨grouped, flushed, groupedReached⟩
  rcases reached.queueAll id fits with ⟨single, queued, singleReached⟩
  rcases pending_inSpace pending id with ⟨before, after, isPending, queuedBetween⟩
  rw [foldl_queue] at singleReached
  have isLines : lines = linesOf (before ++ (msgs.map fun msg => ⟨msg.1, msg.2⟩) ++ after) := by
    simp only [lines, pendingLines, foldl_queue, queuedBetween]
  have stillFits : ∀ more : List (Queued Text), more.length ≤ msgs.length → 0 < socketMsgLimit →
      (Function.update pending (getMsgGroupHolder id)
          (pending (getMsgGroupHolder id) ++ more) (ChainStore.inSpace id).1).length +
        (Function.update pending (getMsgGroupHolder id)
          (pending (getMsgGroupHolder id) ++ more) (ChainStore.inSpace id).2).length ≤
        socketMsgLimit.toNat := by
    intro more few limited
    have bound := oneChunk limited
    have now := congrArg List.length (queuedBetween more)
    have was := congrArg List.length isPending
    simp only [List.length_append] at now was
    omega
  rcases groupedReached.drain id with ⟨groupedCuts, _, groupedDrained, -, groupedFit, groupedMsgs⟩
  rcases singleReached.drain id with ⟨singleCuts, _, singleDrained, -, singleFit, singleMsgs⟩
  have isGrouped := groupedMsgs (stillFits _ (List.length_pos_of_ne_nil some_msg))
  have isSingle := singleMsgs (stillFits _ (by simp))
  rw [pendingAfter, queuedBetween] at isGrouped
  rw [queuedBetween] at isSingle
  refine ⟨grouped, single, flushed, queued, ?_, ?_⟩
  · rw [groupedDrained, Option.map_some, sentLines_retrievedOf groupedFit, isGrouped, isLines]
    have joinedLines : textLines (joined (msgs.map Prod.fst)) =
        (msgs.map Prod.fst).flatMap fun msg => textLines (Message.text msg) :=
      textLines_joined (by simpa using some_msg)
    simp only [linesOf, List.flatMap_append, List.flatMap_singleton, List.flatMap_map]
    rw [List.flatMap_map] at joinedLines
    exact congrArg (fun middle => some (_ ++ middle ++ _)) joinedLines
  · rw [singleDrained, Option.map_some, sentLines_retrievedOf singleFit, isSingle, isLines]

end Flush

/--
However groups are built, each that is not empty and each merge of two is printed
into a buffer with room; splitting a chunk gives back its messages; and after any
history a group that is flushed sends the lines of its messages queued one by one, the
lines of all that is then pending in the space.
-/
theorem framing_roundTrip (socketMsgLimit : ℤ) :
    (∀ ops : List (BuildOp Text), (∀ op ∈ ops, op.Fits) →
      ∃ final, runFrom applyBuild (BuildState.init .exact socketMsgLimit) ops = some final ∧
        (∀ key group, slots (some final.store.curMsgGrp) final.store.groups key = some group →
          final.msgs key ≠ [] →
          Framed final.store group ((final.msgs key).map Queued.msg)) ∧
        ∀ first second, first ≠ second → first < final.store.groups.fresh →
          second < final.store.groups.fresh →
          final.msgs (some first) ++ final.msgs (some second) ≠ [] →
          ∃ merged group, mergeGrp final.store first second = some merged ∧
            merged.groups.cell first = some group ∧
            Framed merged group
              ((final.msgs (some first) ++ final.msgs (some second)).map Queued.msg)) ∧
    (∀ msgs : List Text, msgs ≠ [] → (∀ msg ∈ msgs, '\n' ∉ msg) →
      textLines (joined msgs) = msgs) ∧
    ∀ (history : List (StoreOp Text)) (id : MsgLocationId) (msgs : List (Text × ℤ)),
      (∀ op ∈ history, op.Fits) → msgs ≠ [] → (∀ msg ∈ msgs, Fits msg.1 msg.2) →
      (0 < socketMsgLimit → (pendingOf history (ChainStore.inSpace id).1).length +
        (pendingOf history (ChainStore.inSpace id).2).length + msgs.length ≤
          socketMsgLimit.toNat) →
      let lines := pendingLines
        (pendingOf (history ++ msgs.map fun msg => StoreOp.queue id msg.1 msg.2)) id
      ∃ store grouped single,
        runFrom applyOp (onInitializeReading .exact socketMsgLimit) history = some store ∧
        flushGroup store id msgs = some grouped ∧ queueAll store id msgs = some single ∧
        (drain grouped id).map (fun result => sentLines result.1) = some lines ∧
        (drain single id).map (fun result => sentLines result.1) = some lines := by
  refine ⟨fun ops fits => ?_, fun msgs some_msg plain => ?_,
    fun history id msgs historyFits some_msg fits oneChunk => ?_⟩
  · rcases (BuildState.init_sound .exact socketMsgLimit).run fits with ⟨final, ran, sound⟩
    exact ⟨final, ran, fun key group isGroup some_msg => sound.framed isGroup some_msg,
      fun first second different firstIn secondIn some_msg =>
        sound.framed_merge different firstIn secondIn some_msg⟩
  · simpa [Message.text] using textLines_eq_map some_msg plain
  · rcases history_reached socketMsgLimit historyFits with ⟨store, ran, reached⟩
    rcases reached.same_lines id some_msg fits oneChunk with ⟨grouped, single, same⟩
    rw [pendingOf, List.foldl_append]
    exact ⟨store, grouped, single, ran, same⟩

end HeapScan
