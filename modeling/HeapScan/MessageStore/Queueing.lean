import HeapScan.MessageStore.Representation

/-!
# Queueing refines the chains

`onQueueMessage` opens a group behind the current one when that is full and
links the message's node into the current group.  Both steps keep a
representation of the four holders; together they are `ChainStore.queue`.
-/

namespace HeapScan

open TwosComplement

variable {α : Type}

section Footprints

@[simp]
theorem groupCells_append (front back : List (GroupShape α)) :
    groupCells (front ++ back) = groupCells front ++ groupCells back := by
  simp [groupCells]

@[simp]
theorem nodeCells_append (front back : List (GroupShape α)) :
    nodeCells (front ++ back) = nodeCells front ++ nodeCells back := by
  simp [nodeCells]

@[simp]
theorem groupCells_singleton (shape : GroupShape α) : groupCells [shape] = [shape.address] := rfl

@[simp]
theorem nodeCells_singleton (shape : GroupShape α) : nodeCells [shape] = shape.cells := by
  simp [nodeCells]

theorem mem_groupCells {shape : GroupShape α} {shapes : List (GroupShape α)}
    (listed : shape ∈ shapes) : shape.address ∈ groupCells shapes :=
  List.mem_map_of_mem listed

theorem mem_nodeCells {shape : GroupShape α} {shapes : List (GroupShape α)}
    (listed : shape ∈ shapes) {node : ℕ} (inShape : node ∈ shape.cells) :
    node ∈ nodeCells shapes :=
  List.mem_flatMap.mpr ⟨shape, listed, inShape⟩

end Footprints

/-- Appending to the last group of a chain. -/
theorem ChainRep.append_last {nodes nodes' : Heap (MsgNode α)} {groups groups' : Heap MsgGroup}
    {int : IntReading} {start current : ℕ} {front : List (GroupShape α)} {last : GroupShape α}
    {group appended : MsgGroup} {msgNode : ℕ} {msg : Queued α}
    (rep : ChainRep nodes groups int start current true (front ++ [last]))
    (held : groups.cell last.address = some group)
    (otherNodes : ∀ other, other ≠ last.last → nodes'.cell other = nodes.cell other)
    (otherGroups : ∀ other, other ≠ last.address → groups'.cell other = groups.cell other)
    (appendedRep : GroupRep nodes' groups' (last.append msgNode msg) appended)
    (counts : appended.Counts int 1 (last.append msgNode msg).msgs)
    (sameLink : appended.nextGrp = group.nextGrp)
    (unlisted : msgNode ∉ nodeCells (front ++ [last])) :
    ChainRep nodes' groups' int start current true (front ++ [last.append msgNode msg]) := by
  have groupsDistinct := rep.groupsDistinct
  have nodesDistinct := rep.nodesDistinct
  simp only [groupCells_append, groupCells_singleton, nodeCells_append, nodeCells_singleton,
    List.nodup_append] at groupsDistinct nodesDistinct
  refine
    { linked := ?_
      represented := ?_
      live := ?_
      freed := fun impossible => by cases impossible
      groupsDistinct := by simpa [GroupShape.append, groupCells] using rep.groupsDistinct
      nodesDistinct := ?_ }
  · have sameCells : groupCells (front ++ [last.append msgNode msg]) =
        groupCells (front ++ [last]) := by
      simp [GroupShape.append, groupCells]
    rw [sameCells]
    refine rep.linked.of_links ?_
    intro address _ value valueHeld
    by_cases isLast : address = last.address
    · subst isLast
      rw [held, Option.some.injEq] at valueHeld
      exact ⟨appended, appendedRep.held, by rw [sameLink, valueHeld]⟩
    · exact ⟨value, by rw [otherGroups address isLast, valueHeld], rfl⟩
  · intro shape passed
    rcases List.mem_append.mp passed with inFront | isLast
    · rcases rep.represented shape (by simp [inFront]) with ⟨frontGroup, frontRep, frontCounts⟩
      refine ⟨frontGroup, frontRep.congr ?_ ?_, frontCounts⟩
      · intro node inShape
        refine otherNodes node fun same => ?_
        exact nodesDistinct.2.2 node (mem_nodeCells inFront inShape) last.last last.last_mem same
      · refine otherGroups _ fun same => ?_
        exact groupsDistinct.2.2 _ (mem_groupCells inFront) _ (by simp) same
    · rw [List.mem_singleton] at isLast
      exact ⟨appended, isLast ▸ appendedRep, isLast ▸ counts⟩
  · intro _
    simpa [GroupShape.append, groupCells] using rep.live rfl
  · simp only [nodeCells_append, nodeCells_singleton, GroupShape.append_cells,
      ← List.append_assoc]
    refine List.nodup_append.mpr ⟨List.nodup_append.mpr nodesDistinct, by simp, ?_⟩
    rintro node listed other isNode rfl
    rw [List.mem_singleton] at isNode
    subst isNode
    exact unlisted (by simpa using listed)

/-- Linking a node into the current group of a holder appends its message to the chain. -/
theorem Represents.appendMsgNode {store : Store α} {shapes : HolderName → List (GroupShape α)}
    {tailLive : HolderName → Bool} (rep : Represents store shapes tailLive) {name : HolderName}
    {front : List (GroupShape α)} {last : GroupShape α} (shape : shapes name = front ++ [last])
    (live : tailLive name = true) {msgNode : ℕ} {node : MsgNode α}
    (held : store.nodes.cell msgNode = some node) (ends : node.nextNode = none)
    (unlisted : ∀ name, msgNode ∉ nodeCells (shapes name)) :
    ∃ nodes groups, HeapScan.appendMsgNode store last.address msgNode =
        some { store with nodes, groups } ∧
      Represents { store with nodes, groups }
        (Function.update shapes name (front ++ [last.append msgNode node.queued])) tailLive := by
  have chain := rep.chain name
  rw [shape, live] at chain
  rcases chain.represented last (by simp) with ⟨group, groupRep, counts⟩
  have lastUnlisted : msgNode ∉ last.cells := by
    intro inLast
    exact unlisted name (shape ▸ mem_nodeCells (by simp) inLast)
  rcases appendMsgNode_rep groupRep held ends lastUnlisted with
    ⟨nodes, groups, appended, result, nodesFresh, groupsFresh, otherNodes, otherGroups,
      appendedRep, sameLink, appendedCounts⟩
  refine ⟨nodes, groups, result, ?_⟩
  refine rep.transfer (· = name) rfl (fun _ _ => rfl)
    (fun other different => Function.update_of_ne different _ _) (fun _ _ => rfl)
    (Nat.le_of_eq groupsFresh.symm) ?_ ?_ ?_ ?_ ?_ ?_
  · intro cell _ elsewhere
    refine otherNodes cell fun isLast => elsewhere name rfl ?_
    rw [shape, isLast]
    exact mem_nodeCells (by simp) last.last_mem
  · intro cell _ elsewhere
    refine otherGroups cell fun isLast => elsewhere name rfl ?_
    rw [shape, isLast]
    exact mem_groupCells (by simp)
  · rintro _ rfl
    rw [Function.update_self, live]
    exact chain.append_last groupRep.held otherNodes otherGroups appendedRep
      (appendedCounts 1 counts) sameLink (shape ▸ unlisted _)
  · rintro _ rfl cell listed
    simp only [Function.update_self, nodeCells_append, nodeCells_singleton,
      GroupShape.append_cells, List.mem_append, List.mem_singleton] at listed
    rcases listed with inFront | inLast | isNode
    · exact Or.inl ⟨_, rfl, by simp [shape, inFront]⟩
    · exact Or.inl ⟨_, rfl, by simp [shape, inLast]⟩
    · exact Or.inr (isNode ▸ unlisted)
  · rintro _ rfl cell listed
    refine Or.inl ⟨_, rfl, ?_⟩
    simpa [shape, GroupShape.append, groupCells] using listed
  · rintro _ _ rfl rfl different
    exact absurd rfl different

/-- The shape of a group that is allocated and initialised next. -/
def freshShape (store : Store α) : GroupShape α where
  address := store.groups.fresh
  first := store.nodes.fresh
  nodes := []
  msgs := []

@[simp]
theorem freshShape_cells (store : Store α) : (freshShape store).cells = [store.nodes.fresh] := rfl

theorem Represents.fresh_group_unlisted {store : Store α}
    {shapes : HolderName → List (GroupShape α)} {tailLive : HolderName → Bool}
    (rep : Represents store shapes tailLive) (name : HolderName) {group : ℕ}
    (beyond : store.groups.fresh ≤ group) : group ∉ groupCells (shapes name) := by
  intro listed
  have := (rep.chain name).group_lt listed
  omega

theorem Represents.fresh_node_unlisted {store : Store α}
    {shapes : HolderName → List (GroupShape α)} {tailLive : HolderName → Bool}
    (rep : Represents store shapes tailLive) (name : HolderName) {node : ℕ}
    (beyond : store.nodes.fresh ≤ node) : node ∉ nodeCells (shapes name) := by
  intro listed
  have := (rep.chain name).node_lt listed
  omega

section Allocation

variable [Message α]

theorem allocateMsgGrp_address (store : Store α) :
    (allocateMsgGrp store).1 = store.groups.fresh := rfl

theorem allocateMsgGrp_node (store : Store α) {node : ℕ} (allocated : node < store.nodes.fresh) :
    (allocateMsgGrp store).2.nodes.cell node = store.nodes.cell node :=
  Heap.alloc_cell_of_ne _ _ (Nat.ne_of_lt allocated)

theorem allocateMsgGrp_group (store : Store α) {group : ℕ}
    (allocated : group < store.groups.fresh) :
    (allocateMsgGrp store).2.groups.cell group = store.groups.cell group :=
  Heap.alloc_cell_of_ne _ _ (Nat.ne_of_lt allocated)

/-- The group that `initializeMsgGrp` makes. -/
theorem allocateMsgGrp_rep (store : Store α) :
    GroupRep (allocateMsgGrp store).2.nodes (allocateMsgGrp store).2.groups (freshShape store)
      { totalMsgSize := emptyMsgSize, totalMsgs := 0, firstNode := store.nodes.fresh,
        lastNode := store.nodes.fresh, nextGrp := none } where
  held := Heap.alloc_cell_fresh _ _
  firstNode := rfl
  lastNode := rfl
  linked := ⟨rfl, _, Heap.alloc_cell_fresh _ _, rfl⟩
  carries := Heap.carries_nil
  distinct := by simp

end Allocation

/-- The current group of a holder whose tail is live is the last group of its chain. -/
theorem ChainRep.current_eq {nodes : Heap (MsgNode α)} {groups : Heap MsgGroup}
    {int : IntReading} {start current : ℕ} {front : List (GroupShape α)} {last : GroupShape α}
    (rep : ChainRep nodes groups int start current true (front ++ [last])) :
    current = last.address := by
  have isLast := rep.live rfl
  simpa [groupCells] using isLast.symm

/-- Linking a new group behind the last one extends the chain by it. -/
theorem ChainRep.open_group {nodes nodes' : Heap (MsgNode α)} {groups groups' : Heap MsgGroup}
    {int : IntReading} {start current : ℕ} {front : List (GroupShape α)}
    {last opened : GroupShape α} {group openedGroup : MsgGroup}
    (rep : ChainRep nodes groups int start current true (front ++ [last]))
    (held : groups.cell last.address = some group)
    (sameNodes : ∀ node ∈ nodeCells (front ++ [last]), nodes'.cell node = nodes.cell node)
    (sameGroups : ∀ other ∈ groupCells front, groups'.cell other = groups.cell other)
    (relinked : groups'.cell last.address = some { group with nextGrp := some opened.address })
    (openedRep : GroupRep nodes' groups' opened openedGroup)
    (counts : openedGroup.Counts int 1 opened.msgs) (ends : openedGroup.nextGrp = none)
    (groupUnlisted : opened.address ∉ groupCells (front ++ [last]))
    (nodesUnlisted : (nodeCells (front ++ [last])).Disjoint opened.cells) :
    ChainRep nodes' groups' int start opened.address true (front ++ [last] ++ [opened]) where
  linked := by
    rw [groupCells_append, Heap.segment_append]
    refine ⟨some opened.address, ?_, rfl, openedGroup, openedRep.held, ends⟩
    have before := rep.linked
    rw [groupCells_append] at before ⊢
    exact before.relink sameGroups relinked rfl
  represented shape passed := by
    rcases List.mem_append.mp passed with inOld | isOpened
    · have distinct := rep.groupsDistinct
      rw [groupCells_append, List.nodup_append] at distinct
      rcases rep.represented shape inOld with ⟨oldGroup, oldRep, oldCounts⟩
      have nodesKept : GroupRep nodes' groups shape oldGroup := oldRep.congr
        (fun node inShape => sameNodes node (mem_nodeCells inOld inShape)) rfl
      rcases List.mem_append.mp inOld with inFront | isLast
      · exact ⟨oldGroup, nodesKept.congr (fun _ _ => rfl)
          (sameGroups _ (mem_groupCells inFront)), oldCounts⟩
      · rw [List.mem_singleton] at isLast
        subst isLast
        have sameGroup : oldGroup = group := by
          have := oldRep.held
          rw [held, Option.some.injEq] at this
          exact this.symm
        subst sameGroup
        exact ⟨_, nodesKept.relink relinked, oldCounts.relink _⟩
    · rw [List.mem_singleton] at isOpened
      exact ⟨openedGroup, isOpened ▸ openedRep, isOpened ▸ counts⟩
  live _ := by simp [groupCells]
  freed impossible := by cases impossible
  groupsDistinct := by
    rw [groupCells_append]
    exact rep.groupsDistinct.append (by simp) (by simpa using groupUnlisted)
  nodesDistinct := by
    rw [nodeCells_append, nodeCells_singleton]
    exact rep.nodesDistinct.append openedRep.distinct nodesUnlisted

section Queue

variable [Message α]

/-- With the current group full, `openGroupIfFull` puts an empty group behind it. -/
theorem Represents.openGroupIfFull_full {store : Store α}
    {shapes : HolderName → List (GroupShape α)} {tailLive : HolderName → Bool}
    (rep : Represents store shapes tailLive) {name : HolderName} {front : List (GroupShape α)}
    {last : GroupShape α} (shape : shapes name = front ++ [last]) (live : tailLive name = true)
    (splits : store.isToBeSplit = true) (full : store.splitSz ≤ store.int.hold last.msgs.length) :
    ∃ nodes groups holder, openGroupIfFull store name =
        some (store.groups.fresh, { store with nodes, groups, holder }) ∧
      (∀ node, node < store.nodes.fresh → nodes.cell node = store.nodes.cell node) ∧
      Represents { store with nodes, groups, holder }
        (Function.update shapes name (shapes name ++ [freshShape store])) tailLive := by
  have chain := rep.chain name
  rw [shape, live] at chain
  have current := chain.current_eq
  rcases chain.represented last (by simp) with ⟨group, groupRep, counts⟩
  have lastOld : last.address < store.groups.fresh := Heap.lt_fresh_of_cell groupRep.held
  have lastHeld : (allocateMsgGrp store).2.groups.cell last.address = some group := by
    rw [allocateMsgGrp_group store lastOld, groupRep.held]
  rcases Store.modifyGroup_eq (allocateMsgGrp store).2
      (fun group => { group with nextGrp := some store.groups.fresh }) lastHeld with
    ⟨groups, modified, groupsFresh, groupsCell⟩
  have freshKept : groups.cell store.groups.fresh =
      (allocateMsgGrp store).2.groups.cell store.groups.fresh := by
    rw [groupsCell, Function.update_of_ne (by omega)]
  have oldKept : ∀ other, other < store.groups.fresh → other ≠ last.address →
      groups.cell other = store.groups.cell other := by
    intro other old different
    rw [groupsCell, Function.update_of_ne different, allocateMsgGrp_group store old]
  refine ⟨(allocateMsgGrp store).2.nodes, groups,
    Function.update store.holder name
      { store.holder name with curMsgGrp := store.groups.fresh }, ?_,
    fun node old => allocateMsgGrp_node store old, ?_⟩
  · have totals : store.splitSz ≤ group.totalMsgs := counts.totalMsgs ▸ full
    unfold openGroupIfFull
    rw [if_pos splits]
    simp only [current, groupRep.held, totals, if_true, allocateMsgGrp_address, modified,
      Option.bind_eq_bind, Option.bind_some]
    rfl
  · refine rep.transfer (· = name) rfl
      (fun other different => Function.update_of_ne different _ _)
      (fun other different => Function.update_of_ne different _ _) (fun _ _ => rfl)
      (by rw [groupsFresh]; exact Nat.le_succ _) (fun node old _ => allocateMsgGrp_node store old)
      ?_ ?_ ?_ ?_ ?_
    · intro other old elsewhere
      refine oldKept other old fun isLast => elsewhere name rfl ?_
      rw [shape, isLast]
      exact mem_groupCells (by simp)
    · rintro _ rfl
      simp only [Function.update_self, live, shape]
      have distinct := chain.groupsDistinct
      rw [groupCells_append, List.nodup_append] at distinct
      refine chain.open_group groupRep.held ?_ ?_ ?_
        ((allocateMsgGrp_rep store).congr (fun _ _ => rfl) freshKept)
        (MsgGroup.Counts.empty store.int rfl rfl) rfl ?_ ?_
      · intro node listed
        exact allocateMsgGrp_node store (chain.node_lt listed)
      · intro other inFront
        exact oldKept other (chain.group_lt (by simp [inFront])) fun isLast =>
          distinct.2.2 other inFront _ (by simp) isLast
      · rw [groupsCell]
        exact Function.update_self ..
      · intro listed
        exact absurd (chain.group_lt listed) (Nat.lt_irrefl _)
      · intro node listed inFresh
        rw [freshShape_cells, List.mem_singleton] at inFresh
        exact absurd (inFresh ▸ chain.node_lt listed) (Nat.lt_irrefl _)
    · rintro _ rfl node listed
      simp only [Function.update_self, nodeCells_append, nodeCells_singleton, freshShape_cells,
        List.mem_append, List.mem_singleton] at listed
      rcases listed with old | isFresh
      · exact Or.inl ⟨_, rfl, old⟩
      · exact Or.inr fun other => rep.fresh_node_unlisted other (by omega)
    · rintro _ rfl group listed
      simp only [Function.update_self, groupCells_append, groupCells_singleton,
        List.mem_append, List.mem_singleton] at listed
      rcases listed with old | isFresh
      · exact Or.inl ⟨_, rfl, old⟩
      · exact Or.inr fun other => rep.fresh_group_unlisted other (Nat.le_of_eq isFresh.symm)
    · rintro _ _ rfl rfl different
      exact absurd rfl different

/-- With the current group not full, `openGroupIfFull` changes nothing. -/
theorem Represents.openGroupIfFull_room {store : Store α}
    {shapes : HolderName → List (GroupShape α)} {tailLive : HolderName → Bool}
    (rep : Represents store shapes tailLive) {name : HolderName} {front : List (GroupShape α)}
    {last : GroupShape α} (shape : shapes name = front ++ [last]) (live : tailLive name = true)
    (room : ¬(store.isToBeSplit = true ∧
      store.splitSz ≤ store.int.hold last.msgs.length)) :
    openGroupIfFull store name = some (last.address, store) := by
  have chain := rep.chain name
  rw [shape, live] at chain
  rcases chain.represented last (by simp) with ⟨group, groupRep, counts⟩
  unfold openGroupIfFull
  by_cases splits : store.isToBeSplit = true
  · have notFull : ¬store.splitSz ≤ group.totalMsgs := by
      rw [counts.totalMsgs]
      exact fun full => room ⟨splits, full⟩
    rw [if_pos splits]
    simp only [chain.current_eq, groupRep.held, notFull, if_false, Option.bind_eq_bind,
      Option.bind_some]
  · rw [if_neg splits, chain.current_eq]

omit [Message α] in
/-- A node that no group lists yet leaves the representation as it was. -/
theorem Represents.createMsgNode {store : Store α} {shapes : HolderName → List (GroupShape α)}
    {tailLive : HolderName → Bool} (rep : Represents store shapes tailLive) (msg : α)
    (msgSize : ℤ) : Represents (store.createMsgNode msg msgSize).2 shapes tailLive :=
  rep.transfer (fun _ => False) rfl (fun _ _ => rfl) (fun _ _ => rfl) (fun _ _ => rfl)
    (Nat.le_refl _) (fun _ old _ => Heap.alloc_cell_of_ne _ _ (Nat.ne_of_lt old))
    (fun _ _ _ => rfl) (fun _ impossible => impossible.elim)
    (fun _ impossible => impossible.elim) (fun _ impossible => impossible.elim)
    (fun _ _ impossible => impossible.elim)

omit [Message α] in
/-- A representation with the chain of `name` replaced refines the store so changed. -/
theorem Represents.refines_setChain {store : Store α} {chains : ChainStore (Queued α)}
    {shapes : HolderName → List (GroupShape α)} {name : HolderName} {chain : Chain (Queued α)}
    {replaced : List (GroupShape α)}
    (rep : Represents store (Function.update shapes name replaced)
      (fun name => (chains.chain name).tailLive))
    (same : store.isToBeSplit = chains.isToBeSplit ∧ store.splitSz = chains.splitSz ∧
      store.int = chains.int)
    (msgs : ∀ name, (shapes name).map GroupShape.msgs = (chains.chain name).groups)
    (sameTail : (chains.chain name).tailLive = chain.tailLive)
    (chainMsgs : replaced.map GroupShape.msgs = chain.groups) :
    store.Refines (chains.setChain name chain) := by
  refine ⟨same, Function.update shapes name replaced, ?_, ?_⟩
  · have sameTails : (fun other => ((chains.setChain name chain).chain other).tailLive) =
        fun other => (chains.chain other).tailLive := by
      funext other
      rcases eq_or_ne other name with rfl | different
      · simp [ChainStore.setChain, sameTail]
      · simp [ChainStore.setChain, different]
    rw [sameTails]
    exact rep
  · intro other
    rcases eq_or_ne other name with rfl | different
    · simpa [ChainStore.setChain] using chainMsgs
    · simpa [ChainStore.setChain, different] using msgs other

/-- Queueing a message refines `ChainStore.queue`. -/
theorem queueMsg_refines {store : Store α} {chains next : ChainStore (Queued α)}
    (refines : store.Refines chains) (id : MsgLocationId) (msg : α) (msgSize : ℤ)
    (queued : chains.queue (getMsgGroupHolder id) { msg, msgSize } = some next) :
    ∃ store', queueMsg store id msg msgSize = some store' ∧ store'.Refines next := by
  rcases refines with ⟨same, shapes, rep, msgs⟩
  rcases same with ⟨sameSplit, sameSz, sameInt⟩
  have live : (chains.chain (getMsgGroupHolder id)).tailLive = true := by
    by_contra dead
    simp [ChainStore.queue, dead] at queued
  simp only [ChainStore.queue, live, if_true, Option.some.injEq] at queued
  subst queued
  rcases List.eq_nil_or_concat (shapes (getMsgGroupHolder id)) with empty | ⟨front, last, shape⟩
  · have := msgs (getMsgGroupHolder id)
    simp [empty, Chain.groups] at this
  rw [List.concat_eq_append] at shape
  have concat : (chains.chain (getMsgGroupHolder id)).first ::
      (chains.chain (getMsgGroupHolder id)).later =
      front.map GroupShape.msgs ++ [last.msgs] := by
    rw [← List.map_singleton, ← List.map_append, ← shape, msgs, Chain.groups]
  have extended := Chain.extend_eq_of_concat chains.isFull { msg, msgSize } concat
  have rep1 := rep.createMsgNode msg msgSize
  have held : (store.createMsgNode msg msgSize).2.nodes.cell store.nodes.fresh =
      some { msgSize, msg, nextNode := none } := Heap.alloc_cell_fresh _ _
  have unlisted : ∀ name, store.nodes.fresh ∉ nodeCells (shapes name) := fun name =>
    rep.fresh_node_unlisted name (Nat.le_refl _)
  by_cases full : store.isToBeSplit = true ∧ store.splitSz ≤ store.int.hold last.msgs.length
  · -- A new group is opened and takes the message.
    have isFull : chains.isFull last.msgs = true := by
      simp [ChainStore.isFull, ← sameSplit, ← sameSz, ← sameInt, full.1, full.2]
    rcases rep1.openGroupIfFull_full shape live full.1 full.2 with
      ⟨nodes, groups, holder, opened, kept, rep2⟩
    have heldNow : nodes.cell store.nodes.fresh = some { msgSize, msg, nextNode := none } := by
      rw [kept _ (Nat.lt_succ_self _), held]
    rcases rep2.appendMsgNode (Function.update_self _ _ _) live heldNow rfl (by
        intro name
        rcases eq_or_ne name (getMsgGroupHolder id) with rfl | different
        · rw [Function.update_self, nodeCells_append, nodeCells_singleton]
          simp [unlisted, Store.createMsgNode]
        · rw [Function.update_of_ne different]
          exact unlisted name) with
      ⟨nodes', groups', appended, rep3⟩
    refine ⟨_, Eq.trans ?_ appended, ?_⟩
    · simp only [queueMsg, onQueueMessage, opened, Option.bind_eq_bind, Option.bind_some]
      rfl
    · rw [Function.update_idem] at rep3
      refine rep3.refines_setChain ⟨sameSplit, sameSz, sameInt⟩ msgs live ?_
      rw [isFull] at extended
      simp [Chain.groups, extended, shape, GroupShape.append, freshShape, MsgNode.queued]
  · -- The current group takes the message.
    have notFull : chains.isFull last.msgs = false := by
      simpa [ChainStore.isFull, ← sameSplit, ← sameSz, ← sameInt] using full
    have opened := rep1.openGroupIfFull_room shape live full
    rcases rep1.appendMsgNode shape live held rfl unlisted with
      ⟨nodes, groups, appended, rep2⟩
    refine ⟨_, Eq.trans ?_ appended, ?_⟩
    · simp only [queueMsg, onQueueMessage, opened, Option.bind_eq_bind, Option.bind_some]
      rfl
    · refine rep2.refines_setChain ⟨sameSplit, sameSz, sameInt⟩ msgs live ?_
      rw [notFull] at extended
      simp [Chain.groups, extended, GroupShape.append, MsgNode.queued]

/-- Where the current group has been freed, queueing reads the freed cell. -/
theorem queueMsg_eq_none {store : Store α} {chains : ChainStore (Queued α)}
    (refines : store.Refines chains) (id : MsgLocationId) (msg : α) (msgSize : ℤ)
    (queued : chains.queue (getMsgGroupHolder id) { msg, msgSize } = none) :
    queueMsg store id msg msgSize = none := by
  rcases refines with ⟨-, shapes, rep, msgs⟩
  have dead : (chains.chain (getMsgGroupHolder id)).tailLive = false := by
    by_contra live
    simp [ChainStore.queue, live] at queued
  have freed : (store.createMsgNode msg msgSize).2.groups.cell
      (((store.createMsgNode msg msgSize).2.holder (getMsgGroupHolder id)).curMsgGrp) = none :=
    ((rep.chain (getMsgGroupHolder id)).freed dead).2
  unfold queueMsg onQueueMessage openGroupIfFull
  by_cases splits : (store.createMsgNode msg msgSize).2.isToBeSplit = true
  · simp only [splits, if_true, freed, Option.bind_eq_bind, Option.bind_none]
  · simp only [splits, Bool.false_eq_true, if_false, Option.bind_eq_bind, Option.bind_some,
      appendMsgNode, freed, Option.bind_none]

end Queue

end HeapScan
