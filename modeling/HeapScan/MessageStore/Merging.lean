import HeapScan.MessageStore.Draining

/-!
# Merging one group after another

`mergeGrp` adds up the counters of two groups and links the second group's nodes behind the
last node that the first group points to, but it does not move that pointer.  The nodes of
a merge are thus cut off by the next one: of the groups merged into the first, only the
last one's messages are in its list.
-/

namespace HeapScan

open Transition TwosComplement

variable {α : Type}

/-- The group with the lists of the others behind its own, in order. -/
def GroupShape.concat (first : GroupShape α) (others : List (GroupShape α)) : GroupShape α :=
  { first with
    nodes := first.nodes ++ others.flatMap GroupShape.nodes
    msgs := first.msgs ++ others.flatMap GroupShape.msgs }

/-- The size that the shape's group records. -/
def Store.totalMsgSize (store : Store α) (shape : GroupShape α) : ℤ :=
  (store.groups.cell shape.address).elim 0 MsgGroup.totalMsgSize

/--
The shape's group is well formed: its nodes are a list that ends at its last node, its
counter is their number, and its size is at least the sum of theirs.  Both are `int`s.
-/
structure WellFormed (store : Store α) (shape : GroupShape α) (group : MsgGroup) : Prop
    extends GroupRep store.nodes store.groups shape group where
  totalMsgs : group.totalMsgs = shape.msgs.length
  room : sizes shape.msgs ≤ group.totalMsgSize
  countKept : store.int.Keeps group.totalMsgs
  sizeKept : store.int.Keeps group.totalMsgSize

/-- Merge the groups into the first one, one after another. -/
def mergeGrps : Store α → ℕ → List ℕ → Option (Store α)
  | store, _, [] => some store
  | store, group1, group2 :: groups => do
      let store ← mergeGrp store group1 group2
      mergeGrps store group1 groups

section Apart

variable {nodes nodes' : Heap (MsgNode α)} {groups groups' : Heap MsgGroup}
  {first second shape : GroupShape α} {group1 group2 : MsgGroup}

/-- Groups without a common node are two groups. -/
theorem address_ne (held1 : groups.cell first.address = some group1)
    (firstNode1 : group1.firstNode = first.first)
    (rep2 : GroupRep nodes groups second group2) (apart : first.cells.Disjoint second.cells) :
    first.address ≠ second.address := by
  intro same
  rw [same, rep2.held, Option.some.injEq] at held1
  have sameFirst : first.first = second.first := by
    rw [← firstNode1, ← held1, rep2.firstNode]
  exact apart (List.mem_cons_self ..) (sameFirst ▸ List.mem_cons_self ..)

/-- A group that shares no cell with the two that are merged stays well formed. -/
theorem WellFormed.congr {store : Store α} (wellFormed : WellFormed store shape group1)
    (sameNodes : ∀ node ∈ shape.cells, nodes'.cell node = store.nodes.cell node)
    (sameGroup : groups'.cell shape.address = store.groups.cell shape.address) :
    WellFormed { store with nodes := nodes', groups := groups' } shape group1 :=
  { wellFormed with toGroupRep := wellFormed.toGroupRep.congr sameNodes sameGroup }

theorem WellFormed.totalMsgSize_eq {store : Store α} (wellFormed : WellFormed store shape group1) :
    store.totalMsgSize shape = group1.totalMsgSize := by
  rw [Store.totalMsgSize, wellFormed.held]
  rfl

end Apart

section Run

variable {store : Store α} {first : GroupShape α} {others : List (GroupShape α)}
  {tail : List ℕ} {tailMsgs : List (Queued α)} {group1 : MsgGroup}

/--
What is linked behind the first group after merging is the last other group's list, and
the counters are the sums as `int`s hold them.
-/
theorem mergeGrps_spliced
    (spliced : Spliced store.nodes store.groups first tail tailMsgs group1)
    (countKept : store.int.Keeps group1.totalMsgs) (sizeKept : store.int.Keeps group1.totalMsgSize)
    (wellFormed : ∀ other ∈ others, ∃ group, WellFormed store other group)
    (firstApart : ∀ other ∈ others, first.cells.Disjoint other.cells)
    (othersApart : others.Pairwise fun one other => one.cells.Disjoint other.cells) :
    ∃ final group, mergeGrps store first.address (others.map GroupShape.address) = some final ∧
      Spliced final.nodes final.groups first (others.getLast?.elim tail GroupShape.nodes)
        (others.getLast?.elim tailMsgs GroupShape.msgs) group ∧ final.int = store.int ∧
      group.totalMsgs = store.int.hold
        (group1.totalMsgs + (others.map fun other => other.msgs.length).sum) ∧
      group.totalMsgSize =
        store.int.hold (group1.totalMsgSize + (others.map store.totalMsgSize).sum) := by
  induction others generalizing store tail tailMsgs group1 with
  | nil =>
      refine ⟨store, group1, rfl, spliced, rfl, ?_, ?_⟩
      · simpa using countKept.symm
      · simpa using sizeKept.symm
  | cons second rest ih =>
      rcases List.forall_mem_cons.mp wellFormed with ⟨secondWell, restWell⟩
      rcases List.forall_mem_cons.mp firstApart with ⟨secondApart, restApart⟩
      rcases List.pairwise_cons.mp othersApart with ⟨fromSecond, restPairwise⟩
      rcases secondWell with ⟨group2, well2⟩
      have rep2 := well2.toGroupRep
      have different := address_ne spliced.held spliced.firstNode rep2 secondApart
      rcases mergeGrp_spliced store spliced rep2 different secondApart with
        ⟨nodes, groups, merged, -, -, otherNodes, otherGroups, -, -, splicedNow⟩
      have sameGroup : ∀ other ∈ rest, groups.cell other.address =
          store.groups.cell other.address := by
        intro other listed
        rcases restWell other listed with ⟨group, well⟩
        exact otherGroups _
          (address_ne spliced.held spliced.firstNode well.toGroupRep (restApart other listed)).symm
          (address_ne rep2.held rep2.firstNode well.toGroupRep (fromSecond other listed)).symm
      have restWellNow : ∀ other ∈ rest,
          ∃ group, WellFormed { store with nodes, groups } other group := by
        intro other listed
        rcases restWell other listed with ⟨group, well⟩
        refine ⟨group, well.congr (fun node inOther => otherNodes node ?_) (sameGroup other listed)⟩
        rintro rfl
        exact restApart other listed first.last_mem inOther
      have sameSizes : rest.map (Store.totalMsgSize { store with nodes, groups }) =
          rest.map store.totalMsgSize :=
        List.map_congr_left fun other listed => by
          simp only [Store.totalMsgSize, sameGroup other listed]
      rcases ih splicedNow (IntReading.keeps_hold _ _) (IntReading.keeps_hold _ _) restWellNow
          restApart restPairwise with
        ⟨final, group, mergedRest, splicedFinal, sameInt, totalMsgs, totalMsgSize⟩
      rw [sameSizes] at totalMsgSize
      dsimp only at totalMsgs totalMsgSize
      refine ⟨final, group, ?_, ?_, sameInt, ?_, ?_⟩
      · simp only [List.map_cons, mergeGrps, merged, Option.bind_eq_bind, Option.bind_some]
        exact mergedRest
      · rw [List.getLast?_cons]
        cases isLast : rest.getLast? with
        | none => simpa [isLast] using splicedFinal
        | some last => simpa [isLast] using splicedFinal
      · rw [totalMsgs, IntReading.hold_hold_add, well2.totalMsgs, List.map_cons, List.sum_cons,
          Int.natCast_add, Int.add_assoc]
      · rw [totalMsgSize, IntReading.hold_hold_add, List.map_cons, List.sum_cons,
          well2.totalMsgSize_eq, Int.add_assoc]

/-- All items together are the last one's where the others bring nothing. -/
theorem flatMap_eq_getLast_iff {β γ : Type} (items : List β) (brings : β → List γ) :
    items.flatMap brings = items.getLast?.elim [] brings ↔
      ∀ item ∈ items.dropLast, brings item = [] := by
  rcases List.eq_nil_or_concat items with rfl | ⟨before, last, rfl⟩
  · simp
  · simp

theorem GroupRep.nodes_eq_nil_iff {nodes : Heap (MsgNode α)} {groups : Heap MsgGroup}
    {shape : GroupShape α} {group : MsgGroup} (rep : GroupRep nodes groups shape group) :
    shape.nodes = [] ↔ shape.msgs = [] := by
  have lengths := rep.carries.length_eq
  rw [← List.length_eq_zero_iff, ← List.length_eq_zero_iff, lengths]

/-- Where the list ends at the last-node pointer nothing is linked behind the first group. -/
theorem Spliced.cells_eq {nodes : Heap (MsgNode α)} {groups : Heap MsgGroup}
    {group : MsgGroup} {shape : GroupShape α}
    (spliced : Spliced nodes groups first tail tailMsgs group)
    (rep : GroupRep nodes groups shape group) : shape.cells = first.cells := by
  have sameStart : shape.first = first.first := rep.firstNode.symm.trans spliced.firstNode
  have sameCells : shape.cells = first.cells ++ tail :=
    (sameStart ▸ rep.linked).unique spliced.linked
  have sameLast : shape.last = first.last := rep.lastNode.symm.trans spliced.lastNode
  have noTail : tail = [] := by
    by_contra some
    have inTail : shape.last ∈ tail := by
      simp only [GroupShape.last, sameCells, List.getLast_append_of_ne_nil _ some]
      exact List.getLast_mem some
    exact List.disjoint_of_nodup_append spliced.distinct first.last_mem (sameLast ▸ inTail)
  rw [sameCells, noTail, List.append_nil]

section Others

variable {nodes : Heap (MsgNode α)} {groups : Heap MsgGroup} {group : MsgGroup}
  (spliced : Spliced nodes groups first (others.getLast?.elim [] GroupShape.nodes)
    (others.getLast?.elim [] GroupShape.msgs) group)
  (emptyNodes : ∀ other ∈ others, other.nodes = [] ↔ other.msgs = [])

include spliced emptyNodes

/-- The list has all messages exactly where the groups before the last have none. -/
theorem Spliced.printable_iff :
    (∃ found, GroupPrintable nodes groups (first.concat others) found) ↔
      ∀ other ∈ others.dropLast, other.msgs = [] := by
  constructor
  · rintro ⟨found, printable⟩
    have sameCells : first.cells ++ others.flatMap GroupShape.nodes =
        first.cells ++ others.getLast?.elim [] GroupShape.nodes :=
      printable.linked.unique spliced.linked
    rw [List.append_cancel_left_eq, flatMap_eq_getLast_iff] at sameCells
    intro other listed
    exact (emptyNodes other (List.dropLast_subset others listed)).mp (sameCells other listed)
  · intro beforeEmpty
    have sameNodes := (flatMap_eq_getLast_iff others GroupShape.nodes).mpr fun other listed =>
      (emptyNodes other (List.dropLast_subset others listed)).mpr (beforeEmpty other listed)
    have sameMsgs := (flatMap_eq_getLast_iff others GroupShape.msgs).mpr beforeEmpty
    rw [← sameNodes, ← sameMsgs] at spliced
    exact ⟨group, spliced.printable⟩

/-- The list ends at the last-node pointer only where no other group has a message. -/
theorem Spliced.others_empty (rep : GroupRep nodes groups (first.concat others) group) :
    ∀ other ∈ others, other.msgs = [] := by
  have cells : first.first :: (first.nodes ++ others.flatMap GroupShape.nodes) =
      first.first :: first.nodes := spliced.cells_eq rep
  have noNodes : others.flatMap GroupShape.nodes = [] := by simpa using cells
  intro other listed
  exact (emptyNodes other listed).mp (List.flatMap_eq_nil_iff.mp noNodes other listed)

end Others

/--
Merging succeeds.  The first group holds all messages in order, and counts them, exactly
where all groups merged into it but the last are empty and an `int` holds the number of
messages; it is well formed exactly where all of them are empty and the sum of all sizes,
as an `int` holds it, is still at least that of the first group's messages.
-/
theorem mergeGrps_wellFormed_iff
    (wellFormed : ∀ shape ∈ first :: others, ∃ group, WellFormed store shape group)
    (apart : (first :: others).Pairwise fun one other => one.cells.Disjoint other.cells) :
    ∃ final, mergeGrps store first.address (others.map GroupShape.address) = some final ∧
      ((∃ group, WellFormed final (first.concat others) group) ↔
        (∀ other ∈ others, other.msgs = []) ∧
          sizes first.msgs ≤ store.int.hold ((first :: others).map store.totalMsgSize).sum) ∧
      ((∃ group, GroupPrintable final.nodes final.groups (first.concat others) group ∧
          group.totalMsgs = (first.concat others).msgs.length) ↔
        (∀ other ∈ others.dropLast, other.msgs = []) ∧
          store.int.Keeps (first.concat others).msgs.length) := by
  rcases List.forall_mem_cons.mp wellFormed with ⟨⟨group1, well1⟩, othersWell⟩
  rcases List.pairwise_cons.mp apart with ⟨firstApart, othersApart⟩
  have rep1 := well1.toGroupRep
  rcases mergeGrps_spliced rep1.spliced well1.countKept well1.sizeKept othersWell firstApart
      othersApart with
    ⟨final, group, merged, spliced, sameInt, totalMsgs, totalMsgSize⟩
  have emptyNodes : ∀ other ∈ others, other.nodes = [] ↔ other.msgs = [] := by
    intro other listed
    rcases othersWell other listed with ⟨_, well⟩
    exact well.toGroupRep.nodes_eq_nil_iff
  have count : group.totalMsgs = store.int.hold (first.concat others).msgs.length := by
    rw [totalMsgs, well1.totalMsgs]
    simp [GroupShape.concat, List.length_flatMap]
  have size : group.totalMsgSize =
      store.int.hold ((first :: others).map store.totalMsgSize).sum := by
    rw [totalMsgSize, List.map_cons, List.sum_cons, well1.totalMsgSize_eq]
  have theGroup : ∀ {found : MsgGroup}, final.groups.cell first.address = some found →
      found = group := by
    intro found held
    rw [spliced.held, Option.some.injEq] at held
    exact held.symm
  have printable_iff := spliced.printable_iff emptyNodes
  refine ⟨final, merged, ?_, ?_⟩
  · constructor
    · rintro ⟨found, well⟩
      have rep := well.toGroupRep
      have room := well.room
      have same := theGroup well.held
      rw [same] at rep room
      have allEmpty := spliced.others_empty emptyNodes rep
      have noMsgs : others.flatMap GroupShape.msgs = [] := List.flatMap_eq_nil_iff.mpr allEmpty
      refine ⟨allEmpty, ?_⟩
      rw [size] at room
      simpa [GroupShape.concat, noMsgs] using room
    · rintro ⟨allEmpty, room⟩
      have noNodes : others.flatMap GroupShape.nodes = [] :=
        List.flatMap_eq_nil_iff.mpr fun other listed =>
          (emptyNodes other listed).mpr (allEmpty other listed)
      have isFirst : first.concat others = first := by
        simp [GroupShape.concat, noNodes, List.flatMap_eq_nil_iff.mpr allEmpty]
      rcases printable_iff.mpr fun other listed =>
        allEmpty other (List.dropLast_subset others listed) with ⟨found, printable⟩
      rw [isFirst] at printable count ⊢
      rw [theGroup printable.held] at printable
      have kept : store.int.Keeps first.msgs.length := well1.totalMsgs ▸ well1.countKept
      exact ⟨group,
        { printable with
          lastNode := spliced.lastNode
          totalMsgs := count.trans kept
          room := size ▸ room
          countKept := by
            rw [sameInt, count]
            exact IntReading.keeps_hold _ _
          sizeKept := by
            rw [sameInt, size]
            exact IntReading.keeps_hold _ _ }⟩
  · rw [← printable_iff]
    constructor
    · rintro ⟨found, printable, counted⟩
      rw [theGroup printable.held, count] at counted
      exact ⟨⟨found, printable⟩, counted⟩
    · rintro ⟨⟨found, printable⟩, kept⟩
      refine ⟨found, printable, ?_⟩
      rw [theGroup printable.held, count]
      exact kept

end Run

section Single

/-- A group of one message. -/
def GroupShape.single (address first node : ℕ) (msg : Queued α) : GroupShape α where
  address := address
  first := first
  nodes := [node]
  msgs := [msg]

theorem wellFormed_single {store : Store α} {address first node : ℕ} {msg : Queued α}
    {dummyMsg : α} {totalMsgSize dummySize : ℤ} {nextGrp : Option ℕ}
    (held : store.groups.cell address = some
      { totalMsgSize, totalMsgs := 1, firstNode := first, lastNode := node, nextGrp })
    (dummyHeld : store.nodes.cell first = some
      { msgSize := dummySize, msg := dummyMsg, nextNode := some node })
    (nodeHeld : store.nodes.cell node = some
      { msgSize := msg.msgSize, msg := msg.msg, nextNode := none })
    (different : first ≠ node) (room : msg.msgSize ≤ totalMsgSize)
    (countKept : store.int.Keeps 1) (sizeKept : store.int.Keeps totalMsgSize) :
    WellFormed store (.single address first node msg)
      { totalMsgSize, totalMsgs := 1, firstNode := first, lastNode := node, nextGrp } where
  held
  firstNode := rfl
  lastNode := rfl
  linked := ⟨rfl, _, dummyHeld, rfl, _, nodeHeld, rfl⟩
  carries := List.Forall₂.cons ⟨_, nodeHeld, rfl⟩ List.Forall₂.nil
  distinct := by simpa [GroupShape.cells, GroupShape.single] using different
  totalMsgs := rfl
  room := by simpa [GroupShape.single] using room
  countKept
  sizeKept

/-- One message is queued in each of three holders. -/
def threeGroups : Option (Store Text) :=
  runFrom applyOp (onInitialize 5) [.queue 2 ['a'] 2, .queue 4 ['b'] 2, .queue 3 ['c'] 2]

def groupA : GroupShape Text := .single 0 0 4 { msg := ['a'], msgSize := 2 }
def groupB : GroupShape Text := .single 1 1 5 { msg := ['b'], msgSize := 2 }
def groupC : GroupShape Text := .single 2 2 6 { msg := ['c'], msgSize := 2 }

theorem threeGroups_wellFormed :
    ∃ store, threeGroups = some store ∧ ∀ shape ∈ [groupA, groupB, groupC],
      ∃ group, WellFormed store shape group := by
  refine ⟨_, rfl, ?_⟩
  intro shape listed
  simp only [List.mem_cons, List.not_mem_nil, or_false] at listed
  rcases listed with rfl | rfl | rfl
  · exact ⟨_, wellFormed_single rfl rfl rfl (by decide) (by decide) (by decide) (by decide)⟩
  · exact ⟨_, wellFormed_single rfl rfl rfl (by decide) (by decide) (by decide) (by decide)⟩
  · exact ⟨_, wellFormed_single rfl rfl rfl (by decide) (by decide) (by decide) (by decide)⟩

theorem threeGroups_apart :
    [groupA, groupB, groupC].Pairwise fun one other => one.cells.Disjoint other.cells := by
  simp [groupA, groupB, groupC, GroupShape.single, GroupShape.cells]

theorem mergeGrps_wellFormed_iff_three :
    ∃ store, threeGroups = some store ∧
      ∃ final, mergeGrps store groupA.address ([groupB, groupC].map GroupShape.address) =
          some final ∧
        ((∃ group, WellFormed final (groupA.concat [groupB, groupC]) group) ↔
          (∀ other ∈ [groupB, groupC], other.msgs = []) ∧
            sizes groupA.msgs ≤
              store.int.hold ([groupA, groupB, groupC].map store.totalMsgSize).sum) ∧
        ((∃ group, GroupPrintable final.nodes final.groups (groupA.concat [groupB, groupC])
            group ∧ group.totalMsgs = (groupA.concat [groupB, groupC]).msgs.length) ↔
          (∀ other ∈ [groupB, groupC].dropLast, other.msgs = []) ∧
            store.int.Keeps (groupA.concat [groupB, groupC]).msgs.length) := by
  rcases threeGroups_wellFormed with ⟨store, isStore, wellFormed⟩
  exact ⟨store, isStore, mergeGrps_wellFormed_iff wellFormed threeGroups_apart⟩

/--
After the first merge the last-node pointer is not on the last node; the second one drops
the message of the first.
-/
theorem mergeGrps_drops :
    ∃ store merged again, threeGroups = some store ∧
      (∀ shape ∈ [groupA, groupB, groupC], ∃ group, WellFormed store shape group) ∧
      mergeGrp store groupA.address groupB.address = some merged ∧
      (¬∃ group, WellFormed merged (groupA.concat [groupB]) group) ∧
      mergeGrps store groupA.address [groupB.address, groupC.address] = some again ∧
      (again.groups.cell groupA.address).map MsgGroup.totalMsgs = some 3 ∧
      ((again.groups.cell groupA.address).bind fun group =>
        (mergeMsgAsString again group).map Prod.fst) = some [['a'], ['c']] := by
  rcases threeGroups_wellFormed with ⟨store, isStore, wellFormed⟩
  cases isStore
  refine ⟨_, _, _, rfl, wellFormed, rfl, ?_, rfl, rfl, rfl⟩
  rintro ⟨group, well⟩
  have held := well.held
  have lastNode := well.lastNode
  cases held
  exact absurd lastNode (by decide)

end Single

end HeapScan
