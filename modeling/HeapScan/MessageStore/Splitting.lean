import HeapScan.MessageStore.Framing

/-!
# Splitting a group off

A retrieve joins the chain of the right entry to that of the left one and takes
a group out: the left entry's first group, merged with the right entry's first
group where both fit into one chunk.  This file says what the heap then holds
in each of the ways this ends, and that printing and freeing the group touches
no chain.
-/

namespace HeapScan

open CString TwosComplement

variable {α : Type}

/-- Two groups in one: the second's messages behind the first's, its dummy node left out. -/
def GroupShape.merge (first second : GroupShape α) : GroupShape α where
  address := first.address
  first := first.first
  nodes := first.nodes ++ second.nodes
  msgs := first.msgs ++ second.msgs

theorem GroupShape.mem_merge_cells {first second : GroupShape α} {node : ℕ} :
    node ∈ (first.merge second).cells ↔ node ∈ first.cells ∨ node ∈ second.nodes := by
  simp [GroupShape.merge, GroupShape.cells, or_assoc]

/--
The first group with the nodes at `tail` linked behind its last one.  Its own nodes are as
they were, and its last-node pointer is on the last of them.
-/
structure Spliced (nodes : Heap (MsgNode α)) (groups : Heap MsgGroup) (first : GroupShape α)
    (tail : List ℕ) (tailMsgs : List (Queued α)) (group : MsgGroup) : Prop where
  held : groups.cell first.address = some group
  firstNode : group.firstNode = first.first
  lastNode : group.lastNode = first.last
  linked : nodes.Segment MsgNode.nextNode (some first.first) (first.cells ++ tail) none
  carries : nodes.Carries Holds first.nodes first.msgs
  tailCarries : nodes.Carries Holds tail tailMsgs
  distinct : (first.cells ++ tail).Nodup

theorem GroupRep.spliced {nodes : Heap (MsgNode α)} {groups : Heap MsgGroup}
    {shape : GroupShape α} {group : MsgGroup} (rep : GroupRep nodes groups shape group) :
    Spliced nodes groups shape [] [] group where
  held := rep.held
  firstNode := rep.firstNode
  lastNode := rep.lastNode
  linked := by simpa using rep.linked
  carries := rep.carries
  tailCarries := Heap.carries_nil
  distinct := by simpa using rep.distinct

/-- The group can be printed, its tail included. -/
theorem Spliced.printable {nodes : Heap (MsgNode α)} {groups : Heap MsgGroup}
    {first : GroupShape α} {tail : List ℕ} {tailMsgs : List (Queued α)} {group : MsgGroup}
    (spliced : Spliced nodes groups first tail tailMsgs group) :
    GroupPrintable nodes groups
      { first with nodes := first.nodes ++ tail, msgs := first.msgs ++ tailMsgs } group where
  held := spliced.held
  firstNode := spliced.firstNode
  linked := spliced.linked
  carries := spliced.carries.append spliced.tailCarries
  distinct := spliced.distinct

/--
`mergeGrp` links the second group's nodes behind the first group's own last node, in place
of what was linked there.  The last-node pointer stays as it is.
-/
theorem mergeGrp_spliced (store : Store α) {first second : GroupShape α} {tail : List ℕ}
    {tailMsgs : List (Queued α)} {group1 group2 : MsgGroup}
    (spliced : Spliced store.nodes store.groups first tail tailMsgs group1)
    (rep2 : GroupRep store.nodes store.groups second group2)
    (groupsApart : first.address ≠ second.address)
    (nodesApart : first.cells.Disjoint second.cells) :
    ∃ nodes groups, mergeGrp store first.address second.address =
        some { store with nodes, groups } ∧
      nodes.fresh = store.nodes.fresh ∧ groups.fresh = store.groups.fresh ∧
      (∀ other, other ≠ first.last → nodes.cell other = store.nodes.cell other) ∧
      (∀ other, other ≠ first.address → other ≠ second.address →
        groups.cell other = store.groups.cell other) ∧
      groups.cell second.address = none ∧
      (∀ node value, store.nodes.cell node = some value →
        ∃ nextNode, nodes.cell node = some { value with nextNode }) ∧
      Spliced nodes groups first second.nodes second.msgs
        { group1 with
          totalMsgs := store.int.hold (group1.totalMsgs + group2.totalMsgs)
          totalMsgSize := store.int.hold (group1.totalMsgSize + group2.totalMsgSize) } := by
  have ownLinked := spliced.linked
  rw [Heap.segment_append] at ownLinked
  rcases ownLinked with ⟨stop, ownLinked, -⟩
  have ownDistinct : first.cells.Nodup := (List.nodup_append.mp spliced.distinct).1
  rcases ownLinked.live first.last_mem with ⟨lastNode, lastHeld⟩
  rcases rep2.linked with ⟨_, dummy, dummyHeld, dummyLinked⟩
  let merged : MsgGroup :=
    { group1 with
      totalMsgs := store.int.hold (group1.totalMsgs + group2.totalMsgs)
      totalMsgSize := store.int.hold (group1.totalMsgSize + group2.totalMsgSize) }
  rcases Store.modifyGroup_eq store
      (fun first => { first with
        totalMsgs := store.int.hold (first.totalMsgs + group2.totalMsgs)
        totalMsgSize := store.int.hold (first.totalMsgSize + group2.totalMsgSize) })
      spliced.held with
    ⟨groups1, counted, counted_fresh, counted_cell⟩
  have mergedHeld : groups1.cell first.address = some merged := by
    rw [counted_cell, Function.update_self]
  have secondHeld : groups1.cell second.address = some group2 := by
    rw [counted_cell, Function.update_of_ne groupsApart.symm, rep2.held]
  rcases Store.modifyNode_eq { store with groups := groups1 }
      (fun last : MsgNode α => { last with nextNode := dummy.nextNode }) lastHeld with
    ⟨nodes, joined, nodesFresh, nodesCell⟩
  rcases Store.freeGroup_eq { store with groups := groups1, nodes } secondHeld with
    ⟨groups, freed, groupsFresh, groupsCell⟩
  have otherNodes : ∀ other, other ≠ first.last →
      nodes.cell other = store.nodes.cell other := by
    intro other different
    simp only [nodesCell, Function.update_of_ne different]
  have lastNow : nodes.cell first.last = some { lastNode with nextNode := dummy.nextNode } := by
    rw [nodesCell, Function.update_self]
  have relinked : ∀ node value, store.nodes.cell node = some value →
      ∃ nextNode, nodes.cell node = some { value with nextNode } := by
    intro node value held
    by_cases isLast : node = first.last
    · rw [isLast, lastHeld, Option.some.injEq] at held
      exact ⟨dummy.nextNode, by rw [isLast, lastNow, held]⟩
    · exact ⟨value.nextNode, by rw [otherNodes node isLast, held]⟩
  have secondNodes : ∀ node ∈ second.cells, nodes.cell node = store.nodes.cell node := by
    intro node listed
    refine otherNodes node ?_
    rintro rfl
    exact nodesApart first.last_mem listed
  refine ⟨nodes, groups, ?_, nodesFresh, by rw [groupsFresh, counted_fresh], otherNodes, ?_, ?_,
    relinked, ?_⟩
  · simp only [mergeGrp, rep2.held, counted, mergedHeld, rep2.firstNode, dummyHeld, merged,
      spliced.lastNode, joined, freed, Option.bind_eq_bind, Option.bind_some]
  · intro other notFirst notSecond
    simp only [groupsCell, Function.update_of_ne notSecond, counted_cell,
      Function.update_of_ne notFirst]
  · rw [groupsCell, Function.update_self]
  · refine
      { held := ?_
        firstNode := spliced.firstNode
        lastNode := spliced.lastNode
        linked := ?_
        carries := ?_
        tailCarries := rep2.carries.congr fun node listed =>
          secondNodes node (List.mem_cons_of_mem _ listed)
        distinct := ?_ }
    · rw [groupsCell]
      exact (Function.update_of_ne groupsApart _ _).trans mergedHeld
    · rw [Heap.segment_append]
      refine ⟨dummy.nextNode, ?_, dummyLinked.congr fun node listed =>
        secondNodes node (List.mem_cons_of_mem _ listed)⟩
      rw [first.cells_eq] at ownLinked ⊢
      refine ownLinked.relink ?_ lastNow rfl
      intro node listed
      refine otherNodes node ?_
      rintro rfl
      exact first.last_not_mem_beforeLast ownDistinct listed
    · refine spliced.carries.of_modified fun node _ value valueHeld => ?_
      rcases relinked node value valueHeld with ⟨nextNode, heldNow⟩
      exact ⟨_, heldNow, fun content matched => matched⟩
    · have secondDistinct := rep2.distinct
      simp only [GroupShape.cells, List.nodup_cons] at secondDistinct
      exact ownDistinct.append secondDistinct.2 fun node inFirst inSecond =>
        nodesApart inFirst (List.mem_cons_of_mem _ inSecond)

/--
`mergeGrp` makes the first group printable as the merge of the two.  Its
last-node pointer is not moved, so it is not a group to append to any more.
-/
theorem mergeGrp_eq (store : Store α) {first second : GroupShape α} {group1 group2 : MsgGroup}
    (rep1 : GroupRep store.nodes store.groups first group1)
    (rep2 : GroupRep store.nodes store.groups second group2)
    (groupsApart : first.address ≠ second.address)
    (nodesApart : first.cells.Disjoint second.cells) :
    ∃ nodes groups merged, mergeGrp store first.address second.address =
        some { store with nodes, groups } ∧
      nodes.fresh = store.nodes.fresh ∧ groups.fresh = store.groups.fresh ∧
      (∀ other, other ≠ first.last → nodes.cell other = store.nodes.cell other) ∧
      (∀ other, other ≠ first.address → other ≠ second.address →
        groups.cell other = store.groups.cell other) ∧
      groups.cell second.address = none ∧
      GroupPrintable nodes groups (first.merge second) merged ∧
      merged.nextGrp = group1.nextGrp ∧
      ∀ count1 count2, group1.Counts store.int count1 first.msgs →
        group2.Counts store.int count2 second.msgs →
        merged.Counts store.int (count1 + count2) (first.merge second).msgs := by
  rcases mergeGrp_spliced store rep1.spliced rep2 groupsApart nodesApart with
    ⟨nodes, groups, result, nodesFresh, groupsFresh, otherNodes, otherGroups, freed, -, spliced⟩
  refine ⟨nodes, groups, _, result, nodesFresh, groupsFresh, otherNodes, otherGroups, freed,
    spliced.printable, rfl, fun _ _ counts1 counts2 => counts1.merge counts2 rfl rfl⟩

/-- Whatever the lists are, a merge frees the second group and keeps the first one's link. -/
theorem mergeGrp_frees {store after : Store α} {group1 group2 : ℕ} {first : MsgGroup}
    (merged : mergeGrp store group1 group2 = some after) (different : group1 ≠ group2)
    (held : store.groups.cell group1 = some first) :
    after.groups.cell group2 = none ∧
      ∃ value, after.groups.cell group1 = some value ∧ value.nextGrp = first.nextGrp := by
  simp only [mergeGrp, Option.bind_eq_bind, Option.bind_eq_some_iff] at merged
  rcases merged with ⟨second, secondHeld, counted, isCounted, _, -, _, -, linked, isLinked, freed⟩
  rcases Store.modifyGroup_eq store
      (fun first => { first with
        totalMsgs := store.int.hold (first.totalMsgs + second.totalMsgs)
        totalMsgSize := store.int.hold (first.totalMsgSize + second.totalMsgSize) }) held with
    ⟨groups, result, -, cells⟩
  rw [isCounted, Option.some.injEq] at result
  subst result
  simp only [Store.modifyNode, Option.bind_eq_bind, Option.bind_eq_some_iff, Option.some.injEq]
    at isLinked
  rcases isLinked with ⟨nodes, -, rfl⟩
  have secondNow : groups.cell group2 = some second := by
    rw [cells, Function.update_of_ne different.symm, secondHeld]
  rcases Store.freeGroup_eq { store with groups, nodes } secondNow with
    ⟨groups', result, -, cells'⟩
  rw [freed, Option.some.injEq] at result
  subst result
  refine ⟨by simp [cells'],
    { first with
      totalMsgs := store.int.hold (first.totalMsgs + second.totalMsgs)
      totalMsgSize := store.int.hold (first.totalMsgSize + second.totalMsgSize) }, ?_, rfl⟩
  simp only [cells', Function.update_of_ne different, cells, Function.update_self]

/--
The chains of `shapes`, and beside them a group that is in none of them and was merged
from `merged` groups.
-/
structure TakenOut (store : Store α) (shapes : HolderName → List (GroupShape α))
    (tailLive : HolderName → Bool) (shape : GroupShape α) (merged : ℕ) (group : MsgGroup) :
    Prop where
  rep : Represents store shapes tailLive
  printable : GroupPrintable store.nodes store.groups shape group
  counts : group.Counts store.int merged shape.msgs
  groupUnlisted : ∀ name, shape.address ∉ groupCells (shapes name)
  nodesUnlisted : ∀ name, shape.cells.Disjoint (nodeCells (shapes name))

section HandOut

variable [Message α] {store : Store α} {shapes : HolderName → List (GroupShape α)}
  {tailLive : HolderName → Bool} {shape : GroupShape α} {merged : ℕ} {group : MsgGroup}

/-- Printing the group that was taken out and freeing it touches no chain. -/
theorem TakenOut.print (taken : TakenOut store shapes tailLive shape merged group)
    (some_msg : shape.msgs ≠ [])
    (room : (shape.text.length : ℤ) + 1 ≤ group.msgSize store.int) :
    ∃ nodes groups, mergeMsgAsString store group =
        some (shape.msgs.map Queued.msg, shape.text ++ [nul], (shape.text.length : ℤ) + 1,
          { store with nodes }) ∧
      Store.freeGroup { store with nodes } shape.address = some { store with nodes, groups } ∧
      Represents { store with nodes, groups } shapes tailLive := by
  rcases mergeMsgAsString_of_nodes taken.printable.nodeList taken.printable.firstNode some_msg
    room with ⟨nodes, printed, _, outside⟩
  rcases Store.freeGroup_eq { store with nodes } taken.printable.held with
    ⟨groups, freed, groupsFresh, groupsCell⟩
  have keptNode : ∀ name, ∀ node ∈ nodeCells (shapes name),
      nodes.cell node = store.nodes.cell node := fun name node listed =>
    outside node fun inShape => taken.nodesUnlisted name inShape listed
  have keptGroup : ∀ other, other ≠ shape.address →
      groups.cell other = store.groups.cell other := by
    intro other different
    simp only [groupsCell, Function.update_of_ne different]
  refine ⟨nodes, groups, printed, freed, ?_⟩
  refine
    { chain := fun name => ?_
      groupsApart := taken.rep.groupsApart
      nodesApart := taken.rep.nodesApart }
  refine (taken.rep.chain name).congr (keptNode name) ?_ (Nat.le_of_eq groupsFresh.symm) ?_
  · intro other listed
    refine keptGroup other ?_
    rintro rfl
    exact taken.groupUnlisted name listed
  · intro dead
    refine keptGroup _ ?_
    intro isTaken
    have held := taken.printable.held
    rw [← isTaken, ((taken.rep.chain name).freed dead).2] at held
    cases held

end HandOut

/--
A store whose changes are confined to the two holders of a space, with `kept` in
the left one and the initial chain in the right one.
-/
theorem Represents.of_space {before after : Store α} {shapes : HolderName → List (GroupShape α)}
    {tailLive : HolderName → Bool} (rep : Represents before shapes tailLive)
    {left right : HolderName} (different : left ≠ right) (kept : List (GroupShape α))
    (keptTail : Bool) (sameInt : after.int = before.int)
    (holders : ∀ name, name ≠ left → name ≠ right → after.holder name = before.holder name)
    (grows : before.groups.fresh ≤ after.groups.fresh)
    (sameNodes : ∀ node, node < before.nodes.fresh → node ∉ nodeCells (shapes left) →
      node ∉ nodeCells (shapes right) → after.nodes.cell node = before.nodes.cell node)
    (sameGroups : ∀ group, group < before.groups.fresh → group ∉ groupCells (shapes left) →
      group ∉ groupCells (shapes right) → after.groups.cell group = before.groups.cell group)
    (leftChain : ChainRep after.nodes after.groups after.int (after.holder left).startGrp
      (after.holder left).curMsgGrp keptTail kept)
    (rightChain : ChainRep after.nodes after.groups after.int (after.holder right).startGrp
      (after.holder right).curMsgGrp true [freshShape before])
    (nodesFrom : ∀ node ∈ nodeCells kept, node ∈ nodeCells (shapes left) ∨
      node ∈ nodeCells (shapes right) ∨ before.nodes.fresh < node)
    (groupsFrom : ∀ group ∈ groupCells kept, group ∈ groupCells (shapes left) ∨
      group ∈ groupCells (shapes right) ∨ before.groups.fresh < group) :
    Represents after (Function.update (Function.update shapes left kept) right [freshShape before])
      (Function.update (Function.update tailLive left keptTail) right true) := by
  have nodeNotFresh : ∀ node ∈ nodeCells kept, node ≠ before.nodes.fresh := by
    intro node listed
    rcases nodesFrom node listed with old | old | newer
    · exact Nat.ne_of_lt ((rep.chain left).node_lt old)
    · exact Nat.ne_of_lt ((rep.chain right).node_lt old)
    · exact Nat.ne_of_gt newer
  have groupNotFresh : ∀ group ∈ groupCells kept, group ≠ before.groups.fresh := by
    intro group listed
    rcases groupsFrom group listed with old | old | newer
    · exact Nat.ne_of_lt ((rep.chain left).group_lt old)
    · exact Nat.ne_of_lt ((rep.chain right).group_lt old)
    · exact Nat.ne_of_gt newer
  have keptApart : (groupCells kept).Disjoint (groupCells [freshShape before]) ∧
      (nodeCells kept).Disjoint (nodeCells [freshShape before]) := by
    constructor
    · intro group listed isFresh
      rw [groupCells_singleton, List.mem_singleton] at isFresh
      exact groupNotFresh group listed isFresh
    · intro node listed isFresh
      rw [nodeCells_singleton, freshShape_cells, List.mem_singleton] at isFresh
      exact nodeNotFresh node listed isFresh
  refine rep.transfer (fun name => name = left ∨ name = right) sameInt ?_ ?_ ?_ grows
    ?_ ?_ ?_ ?_ ?_ ?_
  · intro name outside
    simp only [not_or] at outside
    exact holders name outside.1 outside.2
  · intro name outside
    simp only [not_or] at outside
    simp [outside.1, outside.2]
  · intro name outside
    simp only [not_or] at outside
    simp [outside.1, outside.2]
  · intro node old elsewhere
    exact sameNodes node old (elsewhere left (Or.inl rfl)) (elsewhere right (Or.inr rfl))
  · intro group old elsewhere
    exact sameGroups group old (elsewhere left (Or.inl rfl)) (elsewhere right (Or.inr rfl))
  · rintro name (rfl | rfl)
    · simpa [different] using leftChain
    · simpa using rightChain
  · rintro name (rfl | rfl) node listed
    · simp only [ne_eq, different, not_false_eq_true, Function.update_of_ne,
        Function.update_self] at listed
      rcases nodesFrom node listed with old | old | newer
      · exact Or.inl ⟨_, Or.inl rfl, old⟩
      · exact Or.inl ⟨_, Or.inr rfl, old⟩
      · exact Or.inr fun other => rep.fresh_node_unlisted other (Nat.le_of_lt newer)
    · simp only [Function.update_self, nodeCells_singleton, freshShape_cells,
        List.mem_singleton] at listed
      exact Or.inr fun other => rep.fresh_node_unlisted other (Nat.le_of_eq listed.symm)
  · rintro name (rfl | rfl) group listed
    · simp only [ne_eq, different, not_false_eq_true, Function.update_of_ne,
        Function.update_self] at listed
      rcases groupsFrom group listed with old | old | newer
      · exact Or.inl ⟨_, Or.inl rfl, old⟩
      · exact Or.inl ⟨_, Or.inr rfl, old⟩
      · exact Or.inr fun other => rep.fresh_group_unlisted other (Nat.le_of_lt newer)
    · simp only [Function.update_self, groupCells_singleton, List.mem_singleton] at listed
      exact Or.inr fun other => rep.fresh_group_unlisted other (Nat.le_of_eq listed.symm)
  · rintro name other (rfl | rfl) (rfl | rfl) distinct
    · exact absurd rfl distinct
    · simpa [different] using keptApart
    · simp only [Function.update_self, Function.update_of_ne different]
      exact ⟨keptApart.1.symm, keptApart.2.symm⟩
    · exact absurd rfl distinct

/-- What leaves the chains of a space is in no chain afterwards. -/
theorem Represents.unlisted_of_space {store : Store α} {shapes : HolderName → List (GroupShape α)}
    {tailLive : HolderName → Bool} (rep : Represents store shapes tailLive)
    {left right : HolderName} (different : left ≠ right) (kept : List (GroupShape α))
    (shape : GroupShape α) (listed : shape.address ∈ groupCells (shapes left))
    (nodesListed : ∀ node ∈ shape.cells,
      node ∈ nodeCells (shapes left) ∨ node ∈ nodeCells (shapes right))
    (notKept : shape.address ∉ groupCells kept)
    (nodesNotKept : shape.cells.Disjoint (nodeCells kept)) (name : HolderName) :
    shape.address ∉ groupCells
        (Function.update (Function.update shapes left kept) right [freshShape store] name) ∧
      shape.cells.Disjoint (nodeCells
        (Function.update (Function.update shapes left kept) right [freshShape store] name)) := by
  by_cases isRight : name = right
  · subst isRight
    rw [Function.update_self]
    constructor
    · intro isFresh
      rw [groupCells_singleton, List.mem_singleton] at isFresh
      exact absurd ((rep.chain left).group_lt listed) (by simp [isFresh, freshShape])
    · intro node inShape isFresh
      rw [nodeCells_singleton, freshShape_cells, List.mem_singleton] at isFresh
      rcases nodesListed node inShape with old | old
      · exact absurd ((rep.chain left).node_lt old) (by omega)
      · exact absurd ((rep.chain name).node_lt old) (by omega)
  · rw [Function.update_of_ne isRight]
    by_cases isLeft : name = left
    · subst isLeft
      rw [Function.update_self]
      exact ⟨notKept, nodesNotKept⟩
    · rw [Function.update_of_ne isLeft]
      refine ⟨fun inOther => rep.groupsApart left name (Ne.symm isLeft) listed inOther, ?_⟩
      intro node inShape inOther
      rcases nodesListed node inShape with old | old
      · exact rep.nodesApart left name (Ne.symm isLeft) old inOther
      · exact rep.nodesApart right name (Ne.symm isRight) old inOther

/-- The first group of a chain, with the holder that starts there. -/
theorem Represents.first_group {store : Store α} {shapes : HolderName → List (GroupShape α)}
    {tailLive : HolderName → Bool} (rep : Represents store shapes tailLive) {name : HolderName}
    {shape : GroupShape α} {later : List (GroupShape α)} (starts : shapes name = shape :: later) :
    ∃ group, GroupRep store.nodes store.groups shape group ∧
      group.Counts store.int 1 shape.msgs ∧ (store.holder name).startGrp = shape.address ∧
      shape.address ∈ groupCells (shapes name) ∧
      ∀ node ∈ shape.cells, node ∈ nodeCells (shapes name) := by
  have chain := rep.chain name
  rw [starts] at chain ⊢
  rcases chain.represented shape (List.mem_cons_self ..) with ⟨group, groupRep, counts⟩
  exact ⟨group, groupRep, counts, Option.some.inj chain.linked.1,
    mem_groupCells (List.mem_cons_self ..),
    fun _ inShape => mem_nodeCells (List.mem_cons_self ..) inShape⟩

/-- The nodes of two first groups that are merged. -/
theorem mem_merge_listed {first second : GroupShape α} {leftNodes rightNodes : List ℕ}
    (inLeft : ∀ node ∈ first.cells, node ∈ leftNodes)
    (inRight : ∀ node ∈ second.cells, node ∈ rightNodes) :
    ∀ node ∈ (first.merge second).cells, node ∈ leftNodes ∨ node ∈ rightNodes := by
  intro node inShape
  rcases GroupShape.mem_merge_cells.mp inShape with inFirst | inSecond
  · exact Or.inl (inLeft node inFirst)
  · exact Or.inr (inRight node (List.mem_cons_of_mem _ inSecond))

/-- A group without a successor is a chain of its own. -/
theorem GroupRep.single_chain {nodes : Heap (MsgNode α)} {groups : Heap MsgGroup}
    {int : IntReading} {shape : GroupShape α} {group : MsgGroup}
    (rep : GroupRep nodes groups shape group) (counts : group.Counts int 1 shape.msgs)
    (ends : group.nextGrp = none) :
    ChainRep nodes groups int shape.address shape.address true [shape] where
  linked := ⟨rfl, group, rep.held, ends⟩
  represented other listed := by
    rw [List.mem_singleton] at listed
    exact ⟨group, listed ▸ rep, listed ▸ counts⟩
  live _ := rfl
  freed impossible := by cases impossible
  groupsDistinct := by simp
  nodesDistinct := by simpa using rep.distinct

/-- A chain without its first group, once the current-group pointer dangles. -/
theorem ChainRep.drop_first {nodes nodes' : Heap (MsgNode α)} {groups groups' : Heap MsgGroup}
    {int : IntReading} {start current dangling : ℕ} {tailLive : Bool} {first next : GroupShape α}
    {later : List (GroupShape α)} {group : MsgGroup}
    (rep : ChainRep nodes groups int start current tailLive (first :: next :: later))
    (held : groups.cell first.address = some group)
    (sameNodes : ∀ node ∈ nodeCells (next :: later), nodes'.cell node = nodes.cell node)
    (sameGroups : ∀ other ∈ groupCells (next :: later), groups'.cell other = groups.cell other)
    (allocated : dangling < groups'.fresh) (freed : groups'.cell dangling = none) :
    group.nextGrp = some next.address ∧
      ChainRep nodes' groups' int next.address dangling false (next :: later) := by
  rcases rep.linked with ⟨_, found, foundHeld, rest⟩
  rw [held, Option.some.injEq] at foundHeld
  subst foundHeld
  have toNext : group.nextGrp = some next.address := rest.1
  refine ⟨toNext, ?_⟩
  refine
    { linked := ?_
      represented := ?_
      live := fun impossible => by cases impossible
      freed := fun _ => ⟨allocated, freed⟩
      groupsDistinct := (List.nodup_cons.mp rep.groupsDistinct).2
      nodesDistinct := (List.nodup_append.mp rep.nodesDistinct).2.1 }
  · have linked : groups.Segment MsgGroup.nextGrp group.nextGrp (groupCells (next :: later)) none :=
      rest
    rw [toNext] at linked
    exact linked.congr sameGroups
  · intro shape listed
    rcases rep.represented shape (List.mem_cons_of_mem _ listed) with
      ⟨value, shapeRep, counts⟩
    exact ⟨value, shapeRep.congr (fun node inShape => sameNodes node (mem_nodeCells listed inShape))
      (sameGroups _ (mem_groupCells listed)), counts⟩

section Split

variable [Message α]

/-- Allocation leaves a group as it was. -/
theorem GroupRep.allocated {store : Store α} {shape : GroupShape α} {group : MsgGroup}
    (rep : GroupRep store.nodes store.groups shape group) :
    GroupRep (allocateMsgGrp store).2.nodes (allocateMsgGrp store).2.groups shape group := by
  refine rep.congr ?_ (allocateMsgGrp_group store (Heap.lt_fresh_of_cell rep.held))
  intro node inShape
  rcases rep.linked.live inShape with ⟨value, held⟩
  exact allocateMsgGrp_node store (Heap.lt_fresh_of_cell held)

theorem mergeEntries_left (store : Store α) {left right : HolderName} (different : left ≠ right) :
    (mergeEntries store left right).holder left =
      { startGrp := (store.holder left).startGrp
        curMsgGrp := (store.holder right).curMsgGrp
        nextGrp := some (store.holder right).startGrp } := by
  change Function.update (Function.update store.holder left _) right _ left = _
  rw [Function.update_of_ne different, Function.update_self]

@[simp]
theorem mergeEntries_int (store : Store α) (left right : HolderName) :
    (mergeEntries store left right).int = store.int := rfl

@[simp]
theorem mergeEntries_splitSz (store : Store α) (left right : HolderName) :
    (mergeEntries store left right).splitSz = store.splitSz := rfl

theorem mergeEntries_right (store : Store α) (left right : HolderName) :
    (mergeEntries store left right).holder right =
      { startGrp := store.groups.fresh, curMsgGrp := store.groups.fresh, nextGrp := none } := by
  change Function.update (Function.update store.holder left _) right _ right = _
  rw [Function.update_self]
  rfl

theorem mergeEntries_other (store : Store α) {left right name : HolderName} (notLeft : name ≠ left)
    (notRight : name ≠ right) :
    (mergeEntries store left right).holder name = store.holder name := by
  change Function.update (Function.update store.holder left _) right _ name = _
  rw [Function.update_of_ne notRight, Function.update_of_ne notLeft]

variable {store : Store α} {shapes : HolderName → List (GroupShape α)}
  {tailLive : HolderName → Bool} {left right : HolderName} {first second : GroupShape α}
  {leftLater rightLater : List (GroupShape α)}

/-- Where the two first groups do not fit together, the right chain replaces the left one. -/
theorem Represents.split_apart (rep : Represents store shapes tailLive) (different : left ≠ right)
    (leftShape : shapes left = first :: leftLater)
    (rightShape : shapes right = second :: rightLater)
    (apart : store.splitSz < store.int.hold (first.msgs.length + second.msgs.length)) :
    ∃ group holder, onGetMsgSplit (mergeEntries store left right) left =
        some (true, first.address, { mergeEntries store left right with holder }) ∧
      TakenOut { mergeEntries store left right with holder }
        (Function.update (Function.update shapes left (shapes right)) right [freshShape store])
        (Function.update (Function.update tailLive left (tailLive right)) right true)
        first 1 group := by
  rcases rep.first_group leftShape with
    ⟨group1, rep1, counts1, leftStart, firstListed, nodesListed⟩
  rcases rep.first_group rightShape with ⟨group2, rep2, counts2, rightStart, -, -⟩
  have held1 : (mergeEntries store left right).groups.cell first.address = some group1 :=
    rep1.allocated.held
  have held2 : (mergeEntries store left right).groups.cell second.address = some group2 :=
    rep2.allocated.held
  have tooMany : ¬store.int.hold (group1.totalMsgs + group2.totalMsgs) ≤ store.splitSz := by
    rw [counts1.totalMsgs, counts2.totalMsgs]
    simpa using Int.not_le_of_gt apart
  let moved : MsgGroupHolder :=
    { startGrp := second.address, curMsgGrp := (store.holder right).curMsgGrp,
      nextGrp := group2.nextGrp }
  refine ⟨group1, Function.update (mergeEntries store left right).holder left moved, ?_, ?_⟩
  · simp only [onGetMsgSplit, mergeEntries_left store different, leftStart, rightStart, held1,
      held2, splitLoop, mergeEntries_int, mergeEntries_splitSz, tooMany, if_false,
      Option.bind_eq_bind, Option.bind_some]
    rfl
  · have unlisted := rep.unlisted_of_space different (shapes right) first firstListed
      (fun node inShape => Or.inl (nodesListed node inShape))
      (rep.groupsApart left right different firstListed)
      (fun node inShape => rep.nodesApart left right different (nodesListed node inShape))
    refine
      { rep := rep.of_space different (shapes right) (tailLive right) rfl ?_ (Nat.le_succ _)
          (fun node old _ _ => allocateMsgGrp_node store old)
          (fun group old _ _ => allocateMsgGrp_group store old) ?_ ?_
          (fun node listed => Or.inr (Or.inl listed))
          (fun group listed => Or.inr (Or.inl listed))
        printable := rep1.allocated.toGroupPrintable
        counts := counts1
        groupUnlisted := fun name => (unlisted name).1
        nodesUnlisted := fun name => (unlisted name).2 }
    · intro name notLeft notRight
      exact (Function.update_of_ne notLeft _ _).trans (mergeEntries_other store notLeft notRight)
    · simp only [Function.update_self, moved]
      rw [← rightStart]
      refine (rep.chain right).congr ?_ ?_ (Nat.le_succ _) ?_
      · exact fun node listed => allocateMsgGrp_node store ((rep.chain right).node_lt listed)
      · exact fun group listed => allocateMsgGrp_group store ((rep.chain right).group_lt listed)
      · exact fun dead => allocateMsgGrp_group store ((rep.chain right).freed dead).1
    · simp only [ne_eq, different.symm, not_false_eq_true, Function.update_of_ne,
        mergeEntries_right]
      exact (allocateMsgGrp_rep store).single_chain (.empty _ rfl rfl) rfl

/-- `mergeGrp` on the first groups of the two holders, seen from the store before the retrieve. -/
theorem Represents.merge_first (rep : Represents store shapes tailLive) (different : left ≠ right)
    (leftShape : shapes left = first :: leftLater)
    (rightShape : shapes right = second :: rightLater) {group1 group2 : MsgGroup}
    (rep1 : GroupRep store.nodes store.groups first group1)
    (counts1 : group1.Counts store.int 1 first.msgs)
    (rep2 : GroupRep store.nodes store.groups second group2)
    (counts2 : group2.Counts store.int 1 second.msgs) :
    ∃ nodes groups merged initial,
      mergeGrp (mergeEntries store left right) first.address second.address =
        some { mergeEntries store left right with nodes, groups } ∧
      nodes.fresh = store.nodes.fresh + 1 ∧ groups.fresh = store.groups.fresh + 1 ∧
      (∀ node, node < store.nodes.fresh → node ≠ first.last →
        nodes.cell node = store.nodes.cell node) ∧
      (∀ group, group < store.groups.fresh → group ≠ first.address → group ≠ second.address →
        groups.cell group = store.groups.cell group) ∧
      groups.cell second.address = none ∧
      GroupPrintable nodes groups (first.merge second) merged ∧
      merged.nextGrp = group1.nextGrp ∧
      merged.Counts store.int 2 (first.merge second).msgs ∧
      GroupRep nodes groups (freshShape store) initial ∧
      initial.Counts store.int 1 (freshShape store).msgs ∧ initial.nextGrp = none := by
  rcases rep.first_group leftShape with ⟨_, _, _, _, firstListed, firstNodes⟩
  rcases rep.first_group rightShape with ⟨_, _, _, _, secondListed, secondNodes⟩
  have firstOld := (rep.chain left).group_lt firstListed
  have secondOld := (rep.chain right).group_lt secondListed
  have lastOld := (rep.chain left).node_lt (firstNodes _ first.last_mem)
  have nodesApart : first.cells.Disjoint second.cells := fun node inFirst inSecond =>
    rep.nodesApart left right different (firstNodes node inFirst) (secondNodes node inSecond)
  have groupsApart : first.address ≠ second.address := fun same =>
    rep.groupsApart left right different firstListed (same ▸ secondListed)
  rcases mergeGrp_eq (mergeEntries store left right) rep1.allocated rep2.allocated groupsApart
      nodesApart with
    ⟨nodes, groups, merged, result, nodesFresh, groupsFresh, otherNodes, otherGroups, freed,
      printable, sameLink, counted⟩
  refine ⟨nodes, groups, merged, _, result, nodesFresh, groupsFresh, ?_, ?_, freed, printable,
    sameLink, counted 1 1 counts1 counts2, (allocateMsgGrp_rep store).congr ?_ ?_,
    .empty _ rfl rfl, rfl⟩
  · intro node old notLast
    exact (otherNodes node notLast).trans (allocateMsgGrp_node store old)
  · intro group old notFirst notSecond
    exact (otherGroups group notFirst notSecond).trans (allocateMsgGrp_group store old)
  · intro node isFresh
    rw [freshShape_cells, List.mem_singleton] at isFresh
    exact otherNodes node (by omega)
  · exact otherGroups _ (Nat.ne_of_gt firstOld) (Nat.ne_of_gt secondOld)

/-- Where they fit and the left chain has one group, both holders start afresh. -/
theorem Represents.split_last (rep : Represents store shapes tailLive) (different : left ≠ right)
    (leftShape : shapes left = [first]) (rightShape : shapes right = second :: rightLater)
    (fits : store.int.hold (first.msgs.length + second.msgs.length) ≤ store.splitSz) :
    ∃ group split, onGetMsgSplit (mergeEntries store left right) left =
        some (false, first.address, split) ∧
      (split.isToBeSplit = store.isToBeSplit ∧ split.splitSz = store.splitSz ∧
        split.int = store.int) ∧
      TakenOut (onInitializeMsgGroupHolder split left)
        (Function.update (Function.update shapes left [freshShape split]) right
          [freshShape store])
        (Function.update (Function.update tailLive left true) right true)
        (first.merge second) 2 group := by
  rcases rep.first_group leftShape with
    ⟨group1, rep1, counts1, leftStart, firstListed, firstNodes⟩
  rcases rep.first_group rightShape with
    ⟨group2, rep2, counts2, rightStart, secondListed, secondNodes⟩
  have ends : group1.nextGrp = none := by
    have leftChain := rep.chain left
    rw [leftShape] at leftChain
    rcases leftChain.linked with ⟨_, found, held, ended⟩
    rw [rep1.held, Option.some.injEq] at held
    exact held ▸ ended
  have held1 : (mergeEntries store left right).groups.cell first.address = some group1 :=
    rep1.allocated.held
  have held2 : (mergeEntries store left right).groups.cell second.address = some group2 :=
    rep2.allocated.held
  have together : store.int.hold (group1.totalMsgs + group2.totalMsgs) ≤ store.splitSz := by
    rw [counts1.totalMsgs, counts2.totalMsgs]
    simpa using fits
  rcases rep.merge_first different leftShape rightShape rep1 counts1 rep2 counts2 with
    ⟨nodes, groups, merged, initial, result, nodesFresh, groupsFresh, otherNodes, otherGroups,
      _, printable, sameLink, counted, initialRep, initialCounts, initialEnds⟩
  have mergedHeld : groups.cell first.address = some merged := printable.held
  have noSuccessor : merged.nextGrp = none := sameLink.trans ends
  let split : Store α := { mergeEntries store left right with nodes, groups }
  have allocatedNode : ∀ node, node < nodes.fresh →
      (onInitializeMsgGroupHolder split left).nodes.cell node = nodes.cell node :=
    fun node old => allocateMsgGrp_node split old
  have allocatedGroup : ∀ group, group < groups.fresh →
      (onInitializeMsgGroupHolder split left).groups.cell group = groups.cell group :=
    fun group old => allocateMsgGrp_group split old
  refine ⟨merged, split, ?_, ⟨rfl, rfl, rfl⟩, ?_⟩
  · simp only [onGetMsgSplit, mergeEntries_left store different, leftStart, rightStart, held1,
      held2, splitLoop, mergeEntries_int, mergeEntries_splitSz, together, if_true, result,
      mergedHeld, noSuccessor, Option.bind_eq_bind, Option.bind_some]
    rfl
  · have unlisted := rep.unlisted_of_space different [freshShape split] (first.merge second)
      firstListed (mem_merge_listed firstNodes secondNodes)
      (by
        have old := Heap.lt_fresh_of_cell mergedHeld
        simpa [freshShape, split, GroupShape.merge] using Nat.ne_of_lt old)
      (by
        intro node inShape isFresh
        rw [nodeCells_singleton, freshShape_cells, List.mem_singleton] at isFresh
        rcases printable.linked.live inShape with ⟨value, held⟩
        exact absurd (Heap.lt_fresh_of_cell held) (by simp [isFresh, split]))
    refine
      { rep := rep.of_space different [freshShape split] true rfl ?_ ?_ ?_ ?_ ?_ ?_ ?_ ?_
        printable := ?_
        counts := counted
        groupUnlisted := fun name => (unlisted name).1
        nodesUnlisted := fun name => (unlisted name).2 }
    · intro name notLeft notRight
      exact (Function.update_of_ne notLeft _ _).trans (mergeEntries_other store notLeft notRight)
    · have : (onInitializeMsgGroupHolder split left).groups.fresh = groups.fresh + 1 := rfl
      omega
    · intro node old notLeft _
      rw [allocatedNode node (by omega), otherNodes node old]
      rintro rfl
      exact notLeft (firstNodes _ first.last_mem)
    · intro group old notLeft notRight
      rw [allocatedGroup group (by omega), otherGroups group old]
      · rintro rfl
        exact notLeft firstListed
      · rintro rfl
        exact notRight secondListed
    · have holder : (onInitializeMsgGroupHolder split left).holder left =
          { startGrp := groups.fresh, curMsgGrp := groups.fresh, nextGrp := none } :=
        Function.update_self _ _ _
      rw [holder]
      exact (allocateMsgGrp_rep split).single_chain (.empty _ rfl rfl) rfl
    · have holder : (onInitializeMsgGroupHolder split left).holder right =
          { startGrp := store.groups.fresh, curMsgGrp := store.groups.fresh, nextGrp := none } :=
        (Function.update_of_ne different.symm _ _).trans (mergeEntries_right store left right)
      rw [holder]
      exact (@GroupRep.allocated _ _ split _ _ initialRep).single_chain initialCounts
        initialEnds
    · intro node isFresh
      rw [nodeCells_singleton, freshShape_cells, List.mem_singleton] at isFresh
      exact Or.inr (Or.inr (by simp [isFresh, split, nodesFresh]))
    · intro group isFresh
      rw [groupCells_singleton, List.mem_singleton] at isFresh
      exact Or.inr (Or.inr (by simp [isFresh, freshShape, split, groupsFresh]))
    · refine
        { held := ?_
          firstNode := printable.firstNode
          linked := printable.linked.congr ?_
          carries := printable.carries.congr ?_
          distinct := printable.distinct }
      · exact (allocatedGroup _ (Heap.lt_fresh_of_cell mergedHeld)).trans printable.held
      · intro node inShape
        rcases printable.linked.live inShape with ⟨value, held⟩
        exact allocatedNode node (Heap.lt_fresh_of_cell held)
      · intro node inShape
        rcases printable.linked.live (List.mem_cons_of_mem _ inShape) with ⟨value, held⟩
        exact allocatedNode node (Heap.lt_fresh_of_cell held)

/--
Where they fit and the left chain goes on, its next group becomes the first one;
the holder's current-group pointer is left on the right entry's freed group.
-/
theorem Represents.split_pending (rep : Represents store shapes tailLive)
    (different : left ≠ right) {next : GroupShape α}
    (leftShape : shapes left = first :: next :: leftLater) (rightShape : shapes right = [second])
    (fits : store.int.hold (first.msgs.length + second.msgs.length) ≤ store.splitSz)
    (full : store.splitSz <
      store.int.hold (first.msgs.length + second.msgs.length + next.msgs.length)) :
    ∃ group split, onGetMsgSplit (mergeEntries store left right) left =
        some (true, first.address, split) ∧
      (split.isToBeSplit = store.isToBeSplit ∧ split.splitSz = store.splitSz ∧
        split.int = store.int) ∧
      TakenOut split
        (Function.update (Function.update shapes left (next :: leftLater)) right
          [freshShape store])
        (Function.update (Function.update tailLive left false) right true)
        (first.merge second) 2 group := by
  rcases rep.first_group leftShape with
    ⟨group1, rep1, counts1, leftStart, firstListed, firstNodes⟩
  rcases rep.first_group rightShape with
    ⟨group2, rep2, counts2, rightStart, secondListed, secondNodes⟩
  have leftChain := rep.chain left
  have rightChain := rep.chain right
  rw [leftShape] at leftChain
  rw [rightShape] at rightChain
  rcases leftChain.represented next (by simp) with ⟨group3, rep3, counts3⟩
  have held1 : (mergeEntries store left right).groups.cell first.address = some group1 :=
    rep1.allocated.held
  have held2 : (mergeEntries store left right).groups.cell second.address = some group2 :=
    rep2.allocated.held
  have together : store.int.hold (group1.totalMsgs + group2.totalMsgs) ≤ store.splitSz := by
    rw [counts1.totalMsgs, counts2.totalMsgs]
    simpa using fits
  have tooMany : ¬store.int.hold
      (store.int.hold (group1.totalMsgs + group2.totalMsgs) + group3.totalMsgs) ≤
        store.splitSz := by
    rw [counts1.totalMsgs, counts2.totalMsgs, counts3.totalMsgs]
    simpa [Int.add_assoc] using Int.not_le_of_gt full
  rcases rep.merge_first different leftShape rightShape rep1 counts1 rep2 counts2 with
    ⟨nodes, groups, merged, initial, result, nodesFresh, groupsFresh, otherNodes, otherGroups,
      secondFreed, printable, sameLink, counted, initialRep, initialCounts, initialEnds⟩
  have mergedHeld : groups.cell first.address = some merged := printable.held
  have laterGroups : ∀ group ∈ groupCells (next :: leftLater),
      groups.cell group = store.groups.cell group := by
    intro group listed
    have inLeft : group ∈ groupCells (shapes left) := by
      rw [leftShape]
      exact List.mem_cons_of_mem _ listed
    refine otherGroups group ((rep.chain left).group_lt inLeft) ?_ ?_
    · rintro rfl
      exact (List.nodup_cons.mp leftChain.groupsDistinct).1 listed
    · rintro rfl
      exact rep.groupsApart left right different inLeft secondListed
  have laterNodes : ∀ node ∈ nodeCells (next :: leftLater),
      nodes.cell node = store.nodes.cell node := by
    intro node listed
    have inLeft : node ∈ nodeCells (shapes left) := by
      rw [leftShape]
      exact List.mem_append_right _ listed
    refine otherNodes node ((rep.chain left).node_lt inLeft) ?_
    rintro rfl
    exact (List.nodup_append.mp leftChain.nodesDistinct).2.2 _ first.last_mem _ listed rfl
  have dangling : (store.holder right).curMsgGrp < store.groups.fresh ∧
      groups.cell (store.holder right).curMsgGrp = none := by
    rcases tail : tailLive right with _ | _
    · rcases (rep.chain right).freed tail with ⟨allocated, dead⟩
      refine ⟨allocated, ?_⟩
      by_cases isSecond : (store.holder right).curMsgGrp = second.address
      · rw [isSecond, secondFreed]
      · rw [otherGroups _ allocated ?_ isSecond, dead]
        intro isFirst
        rw [isFirst, rep1.held] at dead
        cases dead
    · have isLast := rightChain.live tail
      simp only [groupCells_singleton, List.getLast?_singleton, Option.some.injEq] at isLast
      rw [← isLast]
      exact ⟨Heap.lt_fresh_of_cell rep2.held, secondFreed⟩
  rcases leftChain.drop_first rep1.held laterNodes laterGroups
      (by omega : (store.holder right).curMsgGrp < groups.fresh) dangling.2 with
    ⟨toNext, nextChain⟩
  have successor : merged.nextGrp = some next.address := sameLink.trans toNext
  have held3 : groups.cell next.address = some group3 := by
    rw [laterGroups _ (mem_groupCells (by simp)), rep3.held]
  let moved : MsgGroupHolder :=
    { startGrp := next.address, curMsgGrp := (store.holder right).curMsgGrp,
      nextGrp := group3.nextGrp }
  refine ⟨merged,
    { mergeEntries store left right with
      nodes, groups
      holder := Function.update (mergeEntries store left right).holder left moved },
    ?_, ⟨rfl, rfl, rfl⟩, ?_⟩
  · have fuel : (mergeEntries store left right).groups.fresh = store.groups.fresh + 1 := rfl
    simp only [onGetMsgSplit, mergeEntries_left store different, leftStart, rightStart, held1,
      held2, fuel, splitLoop, mergeEntries_int, mergeEntries_splitSz, together, if_true, result,
      mergedHeld, successor, held3, tooMany, if_false, Option.bind_eq_bind, Option.bind_some]
    rfl
  · have unlisted := rep.unlisted_of_space different (next :: leftLater) (first.merge second)
      firstListed (mem_merge_listed firstNodes secondNodes)
      (List.nodup_cons.mp leftChain.groupsDistinct).1
      (by
        intro node inShape listed
        rcases GroupShape.mem_merge_cells.mp inShape with inFirst | inSecond
        · exact (List.nodup_append.mp leftChain.nodesDistinct).2.2 _ inFirst _ listed rfl
        · refine rep.nodesApart left right different ?_
            (secondNodes node (List.mem_cons_of_mem _ inSecond))
          rw [leftShape]
          exact List.mem_append_right _ listed)
    refine
      { rep := rep.of_space different (next :: leftLater) false rfl ?_ ?_ ?_ ?_ ?_ ?_ ?_ ?_
        printable := printable
        counts := counted
        groupUnlisted := fun name => (unlisted name).1
        nodesUnlisted := fun name => (unlisted name).2 }
    · intro name notLeft notRight
      exact (Function.update_of_ne notLeft _ _).trans (mergeEntries_other store notLeft notRight)
    · exact groupsFresh ▸ Nat.le_succ _
    · intro node old notLeft _
      refine otherNodes node old ?_
      rintro rfl
      exact notLeft (firstNodes _ first.last_mem)
    · intro group old notLeft notRight
      refine otherGroups group old ?_ ?_
      · rintro rfl
        exact notLeft firstListed
      · rintro rfl
        exact notRight secondListed
    · simpa only [Function.update_self, moved, mergeEntries_int] using nextChain
    · simp only [Function.update_of_ne different.symm, mergeEntries_right]
      exact initialRep.single_chain initialCounts initialEnds
    · intro node listed
      rw [leftShape]
      exact Or.inl (List.mem_append_right _ listed)
    · intro group listed
      rw [leftShape]
      exact Or.inl (List.mem_cons_of_mem _ listed)

/--
Where the left chain's second group seems to fit as well, it is merged and freed, and the
loop follows the first group's link to it once more.
-/
theorem Represents.split_none (rep : Represents store shapes tailLive)
    (different : left ≠ right) {next : GroupShape α}
    (leftShape : shapes left = first :: next :: leftLater)
    (rightShape : shapes right = second :: rightLater)
    (fits : store.int.hold (first.msgs.length + second.msgs.length) ≤ store.splitSz)
    (fitsAgain : store.int.hold (first.msgs.length + second.msgs.length + next.msgs.length) ≤
      store.splitSz) :
    onGetMsgSplit (mergeEntries store left right) left = none := by
  rcases rep.first_group leftShape with
    ⟨group1, rep1, counts1, leftStart, firstListed, firstNodes⟩
  rcases rep.first_group rightShape with
    ⟨group2, rep2, counts2, rightStart, secondListed, secondNodes⟩
  have leftChain := rep.chain left
  rw [leftShape] at leftChain
  rcases leftChain.represented next (by simp) with ⟨group3, rep3, counts3⟩
  have held1 : (mergeEntries store left right).groups.cell first.address = some group1 :=
    rep1.allocated.held
  have held2 : (mergeEntries store left right).groups.cell second.address = some group2 :=
    rep2.allocated.held
  have together : store.int.hold (group1.totalMsgs + group2.totalMsgs) ≤ store.splitSz := by
    rw [counts1.totalMsgs, counts2.totalMsgs]
    simpa using fits
  have togetherAgain : store.int.hold
      (store.int.hold (group1.totalMsgs + group2.totalMsgs) + group3.totalMsgs) ≤
        store.splitSz := by
    rw [counts1.totalMsgs, counts2.totalMsgs, counts3.totalMsgs]
    simpa [Int.add_assoc] using fitsAgain
  rcases rep.merge_first different leftShape rightShape rep1 counts1 rep2 counts2 with
    ⟨nodes, groups, merged, initial, result, -, -, -, otherGroups, -, printable, sameLink, -⟩
  have mergedHeld : groups.cell first.address = some merged := printable.held
  have nextListed : next.address ∈ groupCells (shapes left) := by simp [leftShape, groupCells]
  have notNext : first.address ≠ next.address := fun same =>
    (List.nodup_cons.mp leftChain.groupsDistinct).1 (same ▸ by simp)
  have held3 : groups.cell next.address = some group3 := by
    rw [otherGroups _ ((rep.chain left).group_lt nextListed) notNext.symm, rep3.held]
    rintro same
    exact rep.groupsApart left right different nextListed (same ▸ secondListed)
  have successor : merged.nextGrp = some next.address := by
    rcases leftChain.linked with ⟨_, found, foundHeld, rest⟩
    rw [rep1.held, Option.some.injEq] at foundHeld
    subst foundHeld
    exact sameLink.trans rest.1
  -- The second merge frees the group that the first group's link still names.
  have again : ∀ (visited : Store α) (fuel : ℕ), visited.groups.cell next.address = some group3 →
      visited.groups.cell first.address = some merged → visited.int = store.int →
      visited.splitSz = store.splitSz → splitLoop fuel left first.address (some next.address)
        (store.int.hold (group1.totalMsgs + group2.totalMsgs)) visited = none := by
    intro visited fuel nextHeld firstHeld sameInt sameSz
    cases fuel with
    | zero => rfl
    | succ fuel =>
        cases mergedAgain : mergeGrp visited first.address next.address with
        | none =>
            simp only [splitLoop, nextHeld, sameInt, sameSz, togetherAgain, if_true, mergedAgain,
              Option.bind_eq_bind, Option.bind_some, Option.bind_none]
        | some after =>
            rcases mergeGrp_frees mergedAgain notNext firstHeld with
              ⟨freed, value, valueHeld, valueLink⟩
            have stuck : ∀ totMsgs, splitLoop fuel left first.address (some next.address) totMsgs
                after = none := by
              intro totMsgs
              cases fuel with
              | zero => rfl
              | succ fuel => simp only [splitLoop, freed, Option.bind_eq_bind, Option.bind_none]
            simp only [splitLoop, nextHeld, sameInt, sameSz, togetherAgain, if_true, mergedAgain,
              valueHeld, valueLink, successor, stuck, Option.bind_eq_bind, Option.bind_some]
  simp only [onGetMsgSplit, mergeEntries_left store different, leftStart, rightStart, held1,
    held2, splitLoop, mergeEntries_int, mergeEntries_splitSz, together, if_true, result,
    mergedHeld, successor, held3, again, Option.bind_eq_bind, Option.bind_some,
    Option.bind_none]

end Split

end HeapScan
