import HeapScan.MessageStore.Frame
import HeapScan.MessageStore.Packing
import HeapScan.Synchronizer.Refinement

/-!
# The message store behind the synchronizer

The store that `onInitialize` passes to the synchronizer keeps its messages in
order: what a retrieve hands out, followed by what it leaves, is part of the left
entry's messages followed by the right entry's.
-/

namespace HeapScan

variable {α : Type}

namespace ChainStore

/-- A retrieve hands out messages in order, and leaves the later ones. -/
theorem WellFormed.split_sublist {store : ChainStore α} (wellFormed : store.WellFormed)
    {left right : HolderName} {pendingFl : Bool} {cut : Cut α} {rest : Chain α}
    (isSplit : split (fitsIn store.int store.splitSz) (store.chain left) (store.chain right) =
      some (pendingFl, cut, rest)) :
    (cut.msgs ++ rest.contents).Sublist
      ((store.chain left).contents ++ (store.chain right).contents) := by
  rcases split_eq_some isSplit with
    ⟨-, single, -, rfl, rfl⟩ | ⟨next, later, together, goesOn, apart, -, rfl, rfl⟩ |
      ⟨-, -, rfl, rfl⟩
  · simp [Chain.contents, Chain.groups, Chain.fresh, single]
  · -- a group that has a successor is full, so the right entry's first group is empty
    have noRight := wellFormed.right_empty goesOn together apart
    simp [Chain.contents, Chain.groups, goesOn, noRight]
  · simp [Chain.contents, Chain.groups]

theorem inSpace_spaceOf (space : SpaceName) :
    inSpace (spaceOf space).id = (space.entry .left, space.entry .right) := by
  cases space <;> rfl

theorem contents_queue {store next : ChainStore α} {name : HolderName} {msg : α}
    (queued : store.queue name msg = some next) (other : HolderName) :
    (next.chain other).contents = Function.update (fun holder => (store.chain holder).contents)
      name ((store.chain name).contents ++ [msg]) other := by
  simp only [queue] at queued
  split at queued <;> cases queued
  by_cases same : other = name
  · subst same
    simpa [setChain, Chain.contents, Chain.groups] using
      Chain.extend_contents store.isFull msg (store.chain other).first (store.chain other).later
  · simp [setChain, same]

end ChainStore

/-- The messages of each holder, for a store that is in order. -/
def Store.Contains (store : Store α) (contents : HolderName → List α) : Prop :=
  ∃ chains : ChainStore (Queued α), store.Refines chains ∧ chains.WellFormed ∧
    ∀ name, (chains.chain name).contents.map Queued.msg = contents name

/-- Every holder has one group, and no message is in it. -/
def Store.IsEmpty (store : Store α) : Prop :=
  ∀ name, ∃ group, store.groups.cell (store.holder name).startGrp = some group ∧
    group.totalMsgs = 0 ∧ group.nextGrp = none

/-- A store of empty holders has no groups but the first ones, since no later group is empty. -/
theorem Store.Contains.isEmpty {store : Store α} (contains : store.Contains fun _ => []) :
    store.IsEmpty := by
  intro name
  rcases contains with ⟨chains, ⟨-, shapes, represents, sameGroups⟩, wellFormed, isContents⟩
  have groups := (wellFormed.filled name).groups_eq (List.map_eq_nil_iff.mp (isContents name))
  rcases List.map_eq_singleton_iff.mp ((sameGroups name).trans groups) with
    ⟨shape, isShape, noMsgs⟩
  have chain := represents.chain name
  rcases chain.represented shape (by simp [isShape]) with ⟨group, rep, counts⟩
  have linked := chain.linked
  rw [isShape, groupCells, List.map_singleton, Heap.segment_cons] at linked
  rcases linked with ⟨start, held, heldCell, last⟩
  simp only [Option.some.injEq] at start
  rw [rep.held, Option.some.injEq] at heldCell
  rw [← heldCell] at last
  refine ⟨group, start ▸ rep.held, ?_, Heap.segment_nil.mp last⟩
  rw [counts.totalMsgs, noMsgs]
  exact store.int.hold_zero

/-- The holder has one group, and no node is linked behind its first one. -/
def Store.unlinked (store : Store α) (name : HolderName) : Bool :=
  (store.groups.cell (store.holder name).startGrp).any fun group =>
    group.nextGrp.isNone && (store.nodes.cell group.firstNode).any fun node =>
      node.nextNode.isNone

/-- No message is in such a holder. -/
theorem Store.Contains.eq_nil {store : Store α} {contents : HolderName → List α}
    (contains : store.Contains contents) {name : HolderName}
    (unlinked : store.unlinked name = true) : contents name = [] := by
  rcases contains with ⟨chains, ⟨-, shapes, represents, sameGroups⟩, -, isContents⟩
  simp only [Store.unlinked, Option.any_eq_true, Bool.and_eq_true, Option.isNone_iff_eq_none]
    at unlinked
  rcases unlinked with ⟨group, held, noGroup, node, nodeHeld, noNode⟩
  have chain := represents.chain name
  have linked := chain.linked
  rcases List.map_eq_cons_iff.mp (sameGroups name) with ⟨shape, later, isShape, isFirst, isLater⟩
  rw [isShape] at linked
  rcases linked with ⟨start, first, firstHeld, rest⟩
  rw [Option.some.injEq] at start
  rw [start, firstHeld, Option.some.injEq] at held
  subst held
  rcases chain.represented shape (by simp [isShape]) with ⟨other, rep, -⟩
  rw [rep.held, Option.some.injEq] at firstHeld
  subst firstHeld
  have nodes := rep.linked
  rcases nodes with ⟨-, dummy, dummyHeld, behind⟩
  rw [rep.firstNode, dummyHeld, Option.some.injEq] at nodeHeld
  subst nodeHeld
  have noLater : later = [] := by
    cases later with
    | nil => rfl
    | cons next later =>
        rw [noGroup] at rest
        cases rest.1
  have noNodes : shape.nodes = [] := by
    cases isNodes : shape.nodes with
    | nil => rfl
    | cons next nodes =>
        rw [noNode, isNodes] at behind
        cases behind.1
  have noMsgs : shape.msgs = [] := by
    have sameLength := rep.carries.length_eq
    rw [noNodes] at sameLength
    exact List.length_eq_zero_iff.mp sameLength.symm
  rw [← isContents, Chain.contents, Chain.groups, ← isFirst, ← isLater, noLater, noMsgs]
  rfl

theorem onInitialize_contains [Message α] (socketMsgLimit : ℤ) :
    (onInitialize socketMsgLimit : Store α).Contains fun _ => [] :=
  ⟨.init .bits32 socketMsgLimit, onInitialize_refines .bits32 socketMsgLimit,
    ChainStore.init_wellFormed .bits32 socketMsgLimit, fun _ => rfl⟩

/-- The store's functions as the synchronizer and the flush loop call them. -/
def messageStore [Message α] : MsgStoreIntf (Store α) α where
  storeMsg store id msg := queueMsg store id msg ((Message.text msg).length + 1)
  retrieveMsg := onRetrieveMessage

theorem messageStore_keeps [Message α] :
    (messageStore : MsgStoreIntf (Store α) α).Keeps Store.Contains where
  stored := by
    rintro store next contents id msg ⟨chains, refines, wellFormed, isContents⟩ stored
    cases queued : chains.queue (getMsgGroupHolder id)
        { msg, msgSize := (Message.text msg).length + 1 } with
    | none =>
        have failed := queueMsg_eq_none refines id msg ((Message.text msg).length + 1) queued
        rw [show queueMsg store id msg _ = some next from stored] at failed
        cases failed
    | some chained =>
        rcases queueMsg_refines refines id msg ((Message.text msg).length + 1) queued with
          ⟨_, result, nextRefines⟩
        rw [show queueMsg store id msg _ = some next from stored, Option.some.injEq] at result
        refine ⟨chained, result ▸ nextRefines, wellFormed.queue queued, fun name => ?_⟩
        rw [ChainStore.contents_queue queued]
        rcases eq_or_ne name (getMsgGroupHolder id) with rfl | different
        · simp [isContents]
        · simp [different, isContents]
  retrieved := by
    rintro store next contents space retrieved ⟨chains, refines, wellFormed, isContents⟩ handed
    rcases onRetrieveMessage_eq_some refines wellFormed handed with
      ⟨pendingFl, cut, nextChains, isRetrieved, -, rfl, nextRefines⟩
    have nextWellFormed := wellFormed.retrieve isRetrieved
    rcases ChainStore.retrieve_eq_some isRetrieved with ⟨rest, isSplit, rfl⟩
    simp only [ChainStore.inSpace_spaceOf] at isSplit nextRefines nextWellFormed
    refine ⟨_, ⟨_, nextRefines, nextWellFormed, fun _ => rfl⟩, fun side => ?_, ?_, ?_⟩
    · rw [← isContents]
      simp [ChainStore.setChain]
    · have inOrder := (wellFormed.split_sublist isSplit).map Queued.msg
      simp only [List.map_append, isContents] at inOrder
      refine List.Sublist.trans ?_ inOrder
      rw [Cut.retrieved_printed]
      split <;> simp [ChainStore.setChain]
    · intro last side
      rw [Cut.retrieved_pendingFl] at last
      subst last
      cases side with
      | left => simp [ChainStore.setChain, ChainStore.split_last isSplit]
      | right => simp [ChainStore.setChain]

end HeapScan
