import HeapScan.MessageStore.Retrieving

/-!
# What a retrieve leaves alone

Splitting a group off, printing it and freeing it link and free cells, but no
cell is filled with anything new: the holders of the other space stay as they
are, and the holders that a retrieve initialises are still initial at its end.
-/

namespace HeapScan

variable {α : Type}

/--
Only the holder `name` has moved, and of the cells allocated before, a group
other than `group` is freed or as it was and a node is freed or carries its message.
-/
structure Store.Trims (name : HolderName) (group : ℕ) (before after : Store α) : Prop where
  holder : ∀ other, other ≠ name → after.holder other = before.holder other
  groupsGrow : before.groups.fresh ≤ after.groups.fresh
  nodesGrow : before.nodes.fresh ≤ after.nodes.fresh
  groups : ∀ address value, address < before.groups.fresh → address ≠ group →
    after.groups.cell address = some value → before.groups.cell address = some value
  nodes : ∀ address value, address < before.nodes.fresh →
    after.nodes.cell address = some value →
    ∃ old, before.nodes.cell address = some old ∧ value.msg = old.msg ∧
      value.msgSize = old.msgSize

namespace Store.Trims

variable {name : HolderName} {group : ℕ} {before middle after : Store α}

theorem refl (name : HolderName) (group : ℕ) (store : Store α) : Trims name group store store where
  holder _ _ := rfl
  groupsGrow := Nat.le_refl _
  nodesGrow := Nat.le_refl _
  groups _ _ _ _ held := held
  nodes _ value _ held := ⟨value, held, rfl, rfl⟩

theorem trans (first : Trims name group before middle) (second : Trims name group middle after) :
    Trims name group before after where
  holder other different := by rw [second.holder other different, first.holder other different]
  groupsGrow := Nat.le_trans first.groupsGrow second.groupsGrow
  nodesGrow := Nat.le_trans first.nodesGrow second.nodesGrow
  groups address value old different held :=
    first.groups address value old different
      (second.groups address value (Nat.lt_of_lt_of_le old first.groupsGrow) different held)
  nodes address value isOld held := by
    rcases second.nodes address value (Nat.lt_of_lt_of_le isOld first.nodesGrow) held with
      ⟨old, oldHeld, sameMsg, sameSize⟩
    rcases first.nodes address old isOld oldHeld with ⟨older, olderHeld, olderMsg, olderSize⟩
    exact ⟨older, olderHeld, sameMsg.trans olderMsg, sameSize.trans olderSize⟩

theorem modifyGroup {change : MsgGroup → MsgGroup}
    (modified : before.modifyGroup group change = some after) : Trims name group before after := by
  simp only [Store.modifyGroup, Option.bind_eq_bind, Option.bind_eq_some_iff, Option.some.injEq]
    at modified
  rcases modified with ⟨groups, modified, rfl⟩
  rcases Heap.modify_eq_some modified with ⟨_, -, cells⟩
  refine { refl name group before with
    groupsGrow := Nat.le_of_eq (Heap.modify_fresh modified).symm
    groups := fun address value _ different held => ?_ }
  rwa [cells, Function.update_of_ne different] at held

/-- Nodes are only ever linked anew. -/
theorem linkNode {node : ℕ} {nextNode : Option ℕ}
    (modified : before.modifyNode node (fun value => { value with nextNode }) = some after) :
    Trims name group before after := by
  simp only [Store.modifyNode, Option.bind_eq_bind, Option.bind_eq_some_iff, Option.some.injEq]
    at modified
  rcases modified with ⟨nodes, modified, rfl⟩
  rcases Heap.modify_eq_some modified with ⟨old, oldHeld, cells⟩
  refine { refl name group before with
    nodesGrow := Nat.le_of_eq (Heap.modify_fresh modified).symm
    nodes := fun address value _ held => ?_ }
  simp only [cells] at held
  by_cases same : address = node
  · subst same
    rw [Function.update_self, Option.some.injEq] at held
    exact ⟨old, oldHeld, by rw [← held], by rw [← held]⟩
  · rw [Function.update_of_ne same] at held
    exact ⟨value, held, rfl, rfl⟩

theorem freeGroup {address : ℕ} (freed : before.freeGroup address = some after) :
    Trims name group before after := by
  simp only [Store.freeGroup, Option.bind_eq_bind, Option.bind_eq_some_iff, Option.some.injEq]
    at freed
  rcases freed with ⟨groups, freed, rfl⟩
  exact { refl name group before with
    groupsGrow := Nat.le_of_eq (Heap.free_fresh freed).symm
    groups := fun other value _ _ held => Heap.held_of_free freed held }

theorem freeMsgNode {node : ℕ} (freed : before.freeMsgNode node = some after) :
    Trims name group before after := by
  simp only [Store.freeMsgNode, Option.bind_eq_bind, Option.bind_eq_some_iff, Option.some.injEq]
    at freed
  rcases freed with ⟨nodes, freed, rfl⟩
  exact { refl name group before with
    nodesGrow := Nat.le_of_eq (Heap.free_fresh freed).symm
    nodes := fun other value _ held => ⟨value, Heap.held_of_free freed held, rfl, rfl⟩ }

theorem setHolder (store : Store α) (holder : MsgGroupHolder) :
    Trims name group store (store.setHolder name holder) :=
  { refl name group store with
    holder := fun other different => by simp [Store.setHolder, different] }

theorem onInitializeMsgGroupHolder [Message α] (store : Store α) :
    Trims name group store (HeapScan.onInitializeMsgGroupHolder store name) where
  holder other different := by
    simp [HeapScan.onInitializeMsgGroupHolder, allocateMsgGrp, initializeMsgGrp,
      Store.createMsgNode, Store.setHolder, different]
  groupsGrow := Nat.le_succ _
  nodesGrow := Nat.le_succ _
  groups address value old _ held := (allocateMsgGrp_group store old).symm.trans held
  nodes address value old held := ⟨value, (allocateMsgGrp_node store old).symm.trans held, rfl, rfl⟩

theorem mergeGrp {group2 : ℕ} (merged : HeapScan.mergeGrp before group group2 = some after) :
    Trims name group before after := by
  simp only [HeapScan.mergeGrp, Option.bind_eq_bind, Option.bind_eq_some_iff] at merged
  rcases merged with ⟨_, -, _, counted, _, -, _, -, _, linked, freed⟩
  exact ((modifyGroup counted).trans (linkNode linked)).trans (freeGroup freed)

theorem splitLoop {fuel : ℕ} {totMsgs : ℤ} {nextGrp : Option ℕ} {pending : Bool}
    (split : HeapScan.splitLoop fuel name group nextGrp totMsgs before = some (pending, after)) :
    Trims name group before after := by
  induction fuel generalizing before nextGrp totMsgs with
  | zero =>
      cases nextGrp <;> cases split
      exact refl ..
  | succ fuel ih =>
      cases nextGrp with
      | none =>
          cases split
          exact refl ..
      | some address =>
          simp only [HeapScan.splitLoop, Option.bind_eq_bind, Option.bind_eq_some_iff] at split
          rcases split with ⟨_, -, goesOn⟩
          split at goesOn
          · simp only [Option.bind_eq_some_iff] at goesOn
            rcases goesOn with ⟨_, merged, _, -, later⟩
            exact (mergeGrp merged).trans (ih later)
          · cases goesOn
            exact setHolder ..

theorem printMsgs [Message α] {fuel position : ℕ} {msgSize : ℤ} {msgNode : Option ℕ}
    {written text : Text} {msgs : List α}
    (prints : HeapScan.printMsgs fuel msgSize msgNode written position before =
      some (msgs, text, after)) : Trims name group before after := by
  induction fuel generalizing before msgNode written position msgs with
  | zero =>
      cases msgNode <;> cases prints
      exact refl ..
  | succ fuel ih =>
      cases msgNode with
      | none =>
          cases prints
          exact refl ..
      | some address =>
          simp only [HeapScan.printMsgs, Option.bind_eq_bind, Option.bind_eq_some_iff] at prints
          rcases prints with ⟨_, -, ⟨_, _⟩, -, _, freed, ⟨_, _, _⟩, later, result⟩
          cases result
          exact (freeMsgNode freed).trans (ih later)

theorem mergeMsgAsString [Message α] {msgGrp : MsgGroup} {msgs : List α} {totalMsg : Text}
    {totalMsgSize : ℤ}
    (merged : HeapScan.mergeMsgAsString before msgGrp =
      some (msgs, totalMsg, totalMsgSize, after)) : Trims name group before after := by
  simp only [HeapScan.mergeMsgAsString, Option.bind_eq_bind, Option.bind_eq_some_iff] at merged
  rcases merged with ⟨_, -, _, -, _, -, ⟨_, _⟩, -, _, freed, ⟨_, _, _⟩, prints, result⟩
  cases result
  exact (freeMsgNode freed).trans (printMsgs prints)

end Store.Trims

/-- The holders that `onRetrieveMessage` works on. -/
def retrievedHolders (id : MsgLocationId) : List HolderName :=
  [(ChainStore.inSpace id).1, (ChainStore.inSpace id).2]

/-- The state that `onInitializeMsgGroupHolder` produces. -/
def Store.Initialized [Message α] (store : Store α) (name : HolderName) : Prop :=
  ∃ group node,
    store.holder name = { startGrp := group, curMsgGrp := group, nextGrp := none } ∧
    store.groups.cell group = some
      { totalMsgSize := emptyMsgSize, totalMsgs := 0, firstNode := node, lastNode := node,
        nextGrp := none } ∧
    store.nodes.cell node = some
      { msgSize := emptyMsgSize, msg := Message.ofText [], nextNode := none }

section Retrieve

variable [Message α] {store next : Store α} {id : MsgLocationId} {retrieved : Retrieved α}

theorem onInitializeMsgGroupHolder_initialized (store : Store α) (name : HolderName) :
    (onInitializeMsgGroupHolder store name).Initialized name := by
  refine ⟨store.groups.fresh, store.nodes.fresh, ?_, ?_, ?_⟩
  · simp [onInitializeMsgGroupHolder, Store.setHolder, allocateMsgGrp_address]
  · exact Heap.alloc_cell_fresh _ _
  · exact Heap.alloc_cell_fresh _ _

/-- Once the entries are merged a retrieve only trims, but for initialising the left holder. -/
theorem onRetrieveMessage_trims (handed : onRetrieveMessage store id = some (retrieved, next)) :
    Store.Trims (ChainStore.inSpace id).1 (store.holder (ChainStore.inSpace id).1).startGrp
        (mergeEntries store (ChainStore.inSpace id).1 (ChainStore.inSpace id).2) next ∧
      (retrieved.pendingFl = false → ∃ split : Store α,
        store.groups.fresh ≤ split.groups.fresh ∧ ∀ name,
          Store.Trims name (store.holder (ChainStore.inSpace id).1).startGrp
            (onInitializeMsgGroupHolder split (ChainStore.inSpace id).1) next) := by
  simp only [onRetrieveMessage, getMsgGroupHolderInSpace_eq, onGetMsgSplit, Option.bind_eq_bind,
    Option.bind_eq_some_iff] at handed
  rcases handed with
    ⟨⟨_, _, _⟩, ⟨_, -, ⟨pending, split⟩, isSplit, isResult⟩, group, -, printed⟩
  cases isResult
  rw [mergeEntries_left store (ChainStore.inSpace_ne id)] at isSplit printed
  have splitOff := Store.Trims.splitLoop isSplit
  simp only at printed
  -- From here on no holder moves.
  have handedOver : (∀ name, Store.Trims name (store.holder (ChainStore.inSpace id).1).startGrp
      (if pending then split else onInitializeMsgGroupHolder split (ChainStore.inSpace id).1)
      next) ∧ retrieved.pendingFl = pending := by
    split at printed
    · cases printed
      exact ⟨fun name => Store.Trims.refl .., rfl⟩
    · simp only [Option.bind_eq_some_iff] at printed
      rcases printed with ⟨⟨msgs, text, size, after⟩, prints, _, freed, result⟩
      cases result
      exact ⟨fun name =>
        (Store.Trims.mergeMsgAsString prints).trans (Store.Trims.freeGroup freed), rfl⟩
  rcases handedOver with ⟨handedOver, samePending⟩
  rw [samePending]
  cases pending with
  | true => exact ⟨splitOff.trans (handedOver _), fun last => by cases last⟩
  | false =>
      refine ⟨(splitOff.trans (Store.Trims.onInitializeMsgGroupHolder split)).trans
        (handedOver _), fun _ => ⟨split, ?_, handedOver⟩⟩
      exact Nat.le_trans (Nat.le_succ _) splitOff.groupsGrow

/-- A retrieve leaves the holders of the other space alone. -/
theorem onRetrieveMessage_holder (handed : onRetrieveMessage store id = some (retrieved, next))
    {other : HolderName} (elsewhere : other ∉ retrievedHolders id) :
    next.holder other = store.holder other := by
  simp only [retrievedHolders, List.mem_cons, List.not_mem_nil, or_false, not_or] at elsewhere
  rw [(onRetrieveMessage_trims handed).1.holder other elsewhere.1,
    mergeEntries_other store elsewhere.1 elsewhere.2]

/-- An initial holder is still initial where its cells are live and not linked anew. -/
theorem Store.Trims.initialized {before after : Store α} {name other : HolderName} {group : ℕ}
    (trims : Store.Trims name group before after) (initial : before.Initialized other)
    (sameHolder : after.holder other = before.holder other)
    (notGroup : (before.holder other).startGrp ≠ group)
    (live : ∃ value node, after.groups.cell (after.holder other).startGrp = some value ∧
      after.nodes.cell value.firstNode = some node ∧ node.nextNode = none) :
    after.Initialized other := by
  rcases initial with ⟨address, node, isHolder, isGroup, isNode⟩
  rcases live with ⟨value, last, held, lastHeld, ends⟩
  rw [isHolder] at sameHolder notGroup
  rw [sameHolder] at held
  have same := trims.groups address value (Heap.lt_fresh_of_cell isGroup) notGroup held
  rw [isGroup, Option.some.injEq] at same
  subst same
  rcases trims.nodes node last (Heap.lt_fresh_of_cell isNode) lastHeld with
    ⟨old, oldHeld, sameMsg, sameSize⟩
  rw [isNode, Option.some.injEq] at oldHeld
  subst oldHeld
  refine ⟨address, node, sameHolder, held, ?_⟩
  rcases last with ⟨msgSize, msg, nextNode⟩
  simp only at sameMsg sameSize ends
  rw [lastHeld, sameMsg, sameSize, ends]

omit [Message α] in
/-- The one group of an empty chain. -/
theorem ChainRep.single_empty {int : TwosComplement.IntReading} {nodes : Heap (MsgNode α)}
    {groups : Heap MsgGroup} {start current : ℕ} {tailLive : Bool} {shape : GroupShape α}
    (rep : ChainRep nodes groups int start current tailLive [shape]) (noMsgs : shape.msgs = []) :
    ∃ group node, groups.cell start = some group ∧ nodes.cell group.firstNode = some node ∧
      node.nextNode = none := by
  rcases rep.represented shape (List.mem_singleton_self _) with ⟨group, groupRep, -⟩
  have noNodes : shape.nodes = [] := by
    have sameLength := groupRep.carries.length_eq
    rw [noMsgs] at sameLength
    exact List.length_eq_zero_iff.mp sameLength
  have linked := groupRep.linked
  rw [GroupShape.cells, noNodes] at linked
  rcases linked with ⟨-, node, held, ends⟩
  have start : start = shape.address := Option.some.inj rep.linked.1
  exact ⟨group, node, start ▸ groupRep.held, groupRep.firstNode ▸ held, ends⟩

end Retrieve

end HeapScan
