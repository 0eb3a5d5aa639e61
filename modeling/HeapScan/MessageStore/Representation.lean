import Mathlib.Data.List.Lattice
import HeapScan.MessageStore.Chains

/-!
# How the heap represents the chains

A group shape lists the addresses that one group occupies; a chain of groups is
represented by the shapes of its groups, and a store by the shapes of its four
holders, no address being used twice.  The rest of the file says what each
operation on one group does to its shape.
-/

namespace HeapScan

open TwosComplement

/-- The cells of one group: its own address, its dummy node and its message nodes. -/
structure GroupShape (α : Type) where
  address : ℕ
  first : ℕ
  nodes : List ℕ
  msgs : List (Queued α)

namespace GroupShape

variable {α : Type}

/-- All node addresses of the group, in list order. -/
def cells (shape : GroupShape α) : List ℕ := shape.first :: shape.nodes

/-- The address of the last node. -/
def last (shape : GroupShape α) : ℕ := shape.cells.getLast (by simp [cells])

/-- All node addresses but the last. -/
def beforeLast (shape : GroupShape α) : List ℕ := shape.cells.dropLast

theorem cells_eq (shape : GroupShape α) : shape.cells = shape.beforeLast ++ [shape.last] :=
  (List.dropLast_append_getLast (by simp [cells])).symm

theorem last_mem (shape : GroupShape α) : shape.last ∈ shape.cells := by
  simp [cells_eq]

/-- The shape after a node that carries `msg` has been linked behind the last one. -/
def append (shape : GroupShape α) (node : ℕ) (msg : Queued α) : GroupShape α where
  address := shape.address
  first := shape.first
  nodes := shape.nodes ++ [node]
  msgs := shape.msgs ++ [msg]

@[simp]
theorem append_cells (shape : GroupShape α) (node : ℕ) (msg : Queued α) :
    (shape.append node msg).cells = shape.cells ++ [node] := rfl

@[simp]
theorem append_last (shape : GroupShape α) (node : ℕ) (msg : Queued α) :
    (shape.append node msg).last = node := by
  simp [last]

end GroupShape

variable {α : Type}

/-- The message of a node with its size. -/
def MsgNode.queued (node : MsgNode α) : Queued α where
  msg := node.msg
  msgSize := node.msgSize

/-- What a node carries. -/
def Holds (node : MsgNode α) (msg : Queued α) : Prop := node.queued = msg

/-- The sum of the recorded sizes. -/
def sizes (msgs : List (Queued α)) : ℤ := (msgs.map Queued.msgSize).sum

/--
The counters of a group with `msgs`, as `int`s hold them.  Each of the `merged`
groups that it was merged from counts its dummy node in the size.
-/
structure MsgGroup.Counts (int : IntReading) (merged : ℕ) (msgs : List (Queued α))
    (group : MsgGroup) : Prop where
  totalMsgs : group.totalMsgs = int.hold msgs.length
  totalMsgSize : group.totalMsgSize = int.hold (emptyMsgSize * merged + sizes msgs)

section Counted

variable {int : IntReading} {merged merged' : ℕ} {msgs msgs' : List (Queued α)}
  {group group' counted : MsgGroup}

@[simp]
theorem sizes_nil : sizes ([] : List (Queued α)) = 0 := rfl

@[simp]
theorem sizes_append (msgs msgs' : List (Queued α)) :
    sizes (msgs ++ msgs') = sizes msgs + sizes msgs' := by
  simp [sizes]

@[simp]
theorem sizes_singleton (msg : Queued α) : sizes [msg] = msg.msgSize := by
  simp [sizes]

/-- A group just initialised has no messages and the size of its dummy node. -/
theorem MsgGroup.Counts.empty (int : IntReading) {group : MsgGroup}
    (totalMsgs : group.totalMsgs = 0) (totalMsgSize : group.totalMsgSize = emptyMsgSize) :
    group.Counts int 1 ([] : List (Queued α)) where
  totalMsgs := by simp [totalMsgs]
  totalMsgSize := by
    have small : int.Keeps emptyMsgSize := by cases int <;> decide
    rw [totalMsgSize]
    exact small.symm

/-- Two counted groups are counted together. -/
theorem MsgGroup.Counts.merge (counts : group.Counts int merged msgs)
    (counts' : group'.Counts int merged' msgs')
    (totalMsgs : counted.totalMsgs = int.hold (group.totalMsgs + group'.totalMsgs))
    (totalMsgSize : counted.totalMsgSize =
      int.hold (group.totalMsgSize + group'.totalMsgSize)) :
    counted.Counts int (merged + merged') (msgs ++ msgs') where
  totalMsgs := by simp [totalMsgs, counts.totalMsgs, counts'.totalMsgs]
  totalMsgSize := by
    simp only [totalMsgSize, counts.totalMsgSize, counts'.totalMsgSize,
      IntReading.hold_hold_add, IntReading.hold_add_hold, sizes_append, Int.natCast_add,
      Int.mul_add]
    congr 1
    omega

theorem MsgGroup.Counts.append (counts : group.Counts int merged msgs) {msg : Queued α}
    (totalMsgs : counted.totalMsgs = int.hold (group.totalMsgs + 1))
    (totalMsgSize : counted.totalMsgSize = int.hold (group.totalMsgSize + msg.msgSize)) :
    counted.Counts int merged (msgs ++ [msg]) where
  totalMsgs := by simp [totalMsgs, counts.totalMsgs]
  totalMsgSize := by
    simp only [totalMsgSize, counts.totalMsgSize, IntReading.hold_hold_add, sizes_append,
      sizes_singleton, Int.add_assoc]

/-- The counters are the same where the successor is another one. -/
theorem MsgGroup.Counts.relink (counts : group.Counts int merged msgs) (nextGrp : Option ℕ) :
    { group with nextGrp }.Counts int merged msgs :=
  ⟨counts.totalMsgs, counts.totalMsgSize⟩

end Counted

section Represented

variable (nodes : Heap (MsgNode α)) (groups : Heap MsgGroup)

/-- The nodes behind the dummy node `shape.first` hold the shape's messages. -/
structure NodeList (shape : GroupShape α) : Prop where
  linked : nodes.Segment MsgNode.nextNode (some shape.first) shape.cells none
  carries : nodes.Carries Holds shape.nodes shape.msgs
  distinct : shape.cells.Nodup

/-- The group at `shape.address` can be printed: its node list carries the shape's messages. -/
structure GroupPrintable (shape : GroupShape α) (group : MsgGroup) : Prop where
  held : groups.cell shape.address = some group
  firstNode : group.firstNode = shape.first
  linked : nodes.Segment MsgNode.nextNode (some shape.first) shape.cells none
  carries : nodes.Carries Holds shape.nodes shape.msgs
  distinct : shape.cells.Nodup

/-- The group can also be appended to: its last-node pointer is right. -/
structure GroupRep (shape : GroupShape α) (group : MsgGroup) : Prop
    extends GroupPrintable nodes groups shape group where
  lastNode : group.lastNode = shape.last

/-- The addresses of a chain's groups. -/
def groupCells (shapes : List (GroupShape α)) : List ℕ := shapes.map GroupShape.address

/-- The addresses of a chain's nodes. -/
def nodeCells (shapes : List (GroupShape α)) : List ℕ := shapes.flatMap GroupShape.cells

/-- A chain of groups from `start`, with the holder's current-group pointer. -/
structure ChainRep (int : IntReading) (start current : ℕ) (tailLive : Bool)
    (shapes : List (GroupShape α)) : Prop where
  linked : groups.Segment MsgGroup.nextGrp (some start) (groupCells shapes) none
  represented : ∀ shape ∈ shapes, ∃ group, GroupRep nodes groups shape group ∧
    group.Counts int 1 shape.msgs
  live : tailLive = true → (groupCells shapes).getLast? = some current
  freed : tailLive = false → current < groups.fresh ∧ groups.cell current = none
  groupsDistinct : (groupCells shapes).Nodup
  nodesDistinct : (nodeCells shapes).Nodup

end Represented

/-- The heap holds the four chains at the addresses of `shapes`, each address used once. -/
structure Represents (store : Store α) (shapes : HolderName → List (GroupShape α))
    (tailLive : HolderName → Bool) : Prop where
  chain : ∀ name, ChainRep store.nodes store.groups store.int (store.holder name).startGrp
    (store.holder name).curMsgGrp (tailLive name) (shapes name)
  groupsApart : ∀ name other, name ≠ other →
    (groupCells (shapes name)).Disjoint (groupCells (shapes other))
  nodesApart : ∀ name other, name ≠ other →
    (nodeCells (shapes name)).Disjoint (nodeCells (shapes other))

/-- The heap is some representation of the chains, under the same settings. -/
def Store.Refines (store : Store α) (chains : ChainStore (Queued α)) : Prop :=
  (store.isToBeSplit = chains.isToBeSplit ∧ store.splitSz = chains.splitSz ∧
      store.int = chains.int) ∧
    ∃ shapes, Represents store shapes (fun name => (chains.chain name).tailLive) ∧
      ∀ name, (shapes name).map GroupShape.msgs = (chains.chain name).groups

section Frame

variable {nodes nodes' : Heap (MsgNode α)} {groups groups' : Heap MsgGroup}

theorem GroupPrintable.nodeList {shape : GroupShape α} {group : MsgGroup}
    (printable : GroupPrintable nodes groups shape group) : NodeList nodes shape :=
  ⟨printable.linked, printable.carries, printable.distinct⟩

theorem NodeList.congr {shape : GroupShape α} (list : NodeList nodes shape)
    (sameNodes : ∀ node ∈ shape.cells, nodes'.cell node = nodes.cell node) :
    NodeList nodes' shape where
  linked := list.linked.congr sameNodes
  carries := list.carries.congr fun node passed => sameNodes node (List.mem_cons_of_mem _ passed)
  distinct := list.distinct

theorem NodeList.node_lt {shape : GroupShape α} (list : NodeList nodes shape) {node : ℕ}
    (listed : node ∈ shape.cells) : node < nodes.fresh := by
  rcases list.linked.live listed with ⟨value, held⟩
  exact Heap.lt_fresh_of_cell held

theorem GroupRep.congr {shape : GroupShape α} {group : MsgGroup}
    (rep : GroupRep nodes groups shape group)
    (sameNodes : ∀ node ∈ shape.cells, nodes'.cell node = nodes.cell node)
    (sameGroup : groups'.cell shape.address = groups.cell shape.address) :
    GroupRep nodes' groups' shape group where
  held := by rw [sameGroup, rep.held]
  firstNode := rep.firstNode
  lastNode := rep.lastNode
  linked := rep.linked.congr sameNodes
  carries := rep.carries.congr fun node passed =>
    sameNodes node (List.mem_cons_of_mem _ passed)
  distinct := rep.distinct

/-- Moving a group's successor pointer does not change the group's messages. -/
theorem GroupRep.relink {shape : GroupShape α} {group : MsgGroup} {nextGrp : Option ℕ}
    (rep : GroupRep nodes groups shape group)
    (held : groups'.cell shape.address = some { group with nextGrp }) :
    GroupRep nodes groups' shape { group with nextGrp } where
  held := held
  firstNode := rep.firstNode
  lastNode := rep.lastNode
  linked := rep.linked
  carries := rep.carries
  distinct := rep.distinct

theorem ChainRep.congr {int : IntReading} {start current : ℕ} {tailLive : Bool}
    {shapes : List (GroupShape α)}
    (rep : ChainRep nodes groups int start current tailLive shapes)
    (sameNodes : ∀ node ∈ nodeCells shapes, nodes'.cell node = nodes.cell node)
    (sameGroups : ∀ group ∈ groupCells shapes, groups'.cell group = groups.cell group)
    (grows : groups.fresh ≤ groups'.fresh)
    (stayFreed : tailLive = false → groups'.cell current = groups.cell current) :
    ChainRep nodes' groups' int start current tailLive shapes where
  linked := rep.linked.congr sameGroups
  represented shape passed := by
    rcases rep.represented shape passed with ⟨group, groupRep, counts⟩
    refine ⟨group, groupRep.congr ?_ ?_, counts⟩
    · intro node inShape
      exact sameNodes node (List.mem_flatMap.mpr ⟨shape, passed, inShape⟩)
    · exact sameGroups _ (List.mem_map_of_mem passed)
  live := rep.live
  freed dead := by
    rcases rep.freed dead with ⟨allocated, empty⟩
    exact ⟨by omega, by rw [stayFreed dead, empty]⟩
  groupsDistinct := rep.groupsDistinct
  nodesDistinct := rep.nodesDistinct

end Frame

section Transfer

theorem ChainRep.group_lt {nodes : Heap (MsgNode α)} {groups : Heap MsgGroup}
    {int : IntReading} {start current : ℕ} {tailLive : Bool} {shapes : List (GroupShape α)}
    (rep : ChainRep nodes groups int start current tailLive shapes) {group : ℕ}
    (listed : group ∈ groupCells shapes) : group < groups.fresh := by
  rcases rep.linked.live listed with ⟨value, held⟩
  exact Heap.lt_fresh_of_cell held

theorem ChainRep.node_lt {nodes : Heap (MsgNode α)} {groups : Heap MsgGroup}
    {int : IntReading} {start current : ℕ} {tailLive : Bool} {shapes : List (GroupShape α)}
    (rep : ChainRep nodes groups int start current tailLive shapes) {node : ℕ}
    (listed : node ∈ nodeCells shapes) : node < nodes.fresh := by
  rcases List.mem_flatMap.mp listed with ⟨shape, passed, inShape⟩
  rcases rep.represented shape passed with ⟨group, groupRep, -⟩
  rcases groupRep.linked.live inShape with ⟨value, held⟩
  exact Heap.lt_fresh_of_cell held

variable {before after : Store α} {shapes shapes' : HolderName → List (GroupShape α)}
  {tailLive tailLive' : HolderName → Bool}

/--
A store whose changes are confined to the cells of the `changed` holders and to
cells of no holder still represents the chains of all other holders.
-/
theorem Represents.transfer (rep : Represents before shapes tailLive) (changed : HolderName → Prop)
    (sameInt : after.int = before.int)
    (keptHolder : ∀ name, ¬changed name → after.holder name = before.holder name)
    (keptShapes : ∀ name, ¬changed name → shapes' name = shapes name)
    (keptTail : ∀ name, ¬changed name → tailLive' name = tailLive name)
    (grows : before.groups.fresh ≤ after.groups.fresh)
    (sameNodes : ∀ node, node < before.nodes.fresh →
      (∀ name, changed name → node ∉ nodeCells (shapes name)) →
      after.nodes.cell node = before.nodes.cell node)
    (sameGroups : ∀ group, group < before.groups.fresh →
      (∀ name, changed name → group ∉ groupCells (shapes name)) →
      after.groups.cell group = before.groups.cell group)
    (chain : ∀ name, changed name → ChainRep after.nodes after.groups after.int
      (after.holder name).startGrp (after.holder name).curMsgGrp (tailLive' name) (shapes' name))
    (nodesFrom : ∀ name, changed name → ∀ node ∈ nodeCells (shapes' name),
      (∃ old, changed old ∧ node ∈ nodeCells (shapes old)) ∨
        ∀ other, node ∉ nodeCells (shapes other))
    (groupsFrom : ∀ name, changed name → ∀ group ∈ groupCells (shapes' name),
      (∃ old, changed old ∧ group ∈ groupCells (shapes old)) ∨
        ∀ other, group ∉ groupCells (shapes other))
    (apart : ∀ name other, changed name → changed other → name ≠ other →
      (groupCells (shapes' name)).Disjoint (groupCells (shapes' other)) ∧
        (nodeCells (shapes' name)).Disjoint (nodeCells (shapes' other))) :
    Represents after shapes' tailLive' := by
  classical
  have groupsKeptApart : ∀ name other, changed name → ¬changed other →
      (groupCells (shapes' name)).Disjoint (groupCells (shapes' other)) := by
    intro name other isChanged unchanged group inName inOther
    rw [keptShapes other unchanged] at inOther
    rcases groupsFrom name isChanged group inName with ⟨old, oldChanged, inOld⟩ | unlisted
    · have different : old ≠ other := fun same => unchanged (same ▸ oldChanged)
      exact rep.groupsApart old other different inOld inOther
    · exact unlisted other inOther
  have nodesKeptApart : ∀ name other, changed name → ¬changed other →
      (nodeCells (shapes' name)).Disjoint (nodeCells (shapes' other)) := by
    intro name other isChanged unchanged node inName inOther
    rw [keptShapes other unchanged] at inOther
    rcases nodesFrom name isChanged node inName with ⟨old, oldChanged, inOld⟩ | unlisted
    · have different : old ≠ other := fun same => unchanged (same ▸ oldChanged)
      exact rep.nodesApart old other different inOld inOther
    · exact unlisted other inOther
  refine { chain := ?_, groupsApart := ?_, nodesApart := ?_ }
  · intro name
    by_cases isChanged : changed name
    · exact chain name isChanged
    · rw [sameInt, keptHolder name isChanged, keptShapes name isChanged, keptTail name isChanged]
      refine (rep.chain name).congr ?_ ?_ grows ?_
      · intro node listed
        refine sameNodes node ((rep.chain name).node_lt listed) ?_
        intro other otherChanged inOther
        have different : name ≠ other := fun same => isChanged (same ▸ otherChanged)
        exact rep.nodesApart name other different listed inOther
      · intro group listed
        refine sameGroups group ((rep.chain name).group_lt listed) ?_
        intro other otherChanged inOther
        have different : name ≠ other := fun same => isChanged (same ▸ otherChanged)
        exact rep.groupsApart name other different listed inOther
      · intro dead
        rcases (rep.chain name).freed dead with ⟨allocated, empty⟩
        refine sameGroups _ allocated ?_
        intro other _ inOther
        rcases (rep.chain other).linked.live inOther with ⟨value, held⟩
        rw [empty] at held
        cases held
  · intro name other different
    by_cases nameChanged : changed name <;> by_cases otherChanged : changed other
    · exact (apart name other nameChanged otherChanged different).1
    · exact groupsKeptApart name other nameChanged otherChanged
    · exact List.Disjoint.symm (groupsKeptApart other name otherChanged nameChanged)
    · rw [keptShapes name nameChanged, keptShapes other otherChanged]
      exact rep.groupsApart name other different
  · intro name other different
    by_cases nameChanged : changed name <;> by_cases otherChanged : changed other
    · exact (apart name other nameChanged otherChanged different).2
    · exact nodesKeptApart name other nameChanged otherChanged
    · exact List.Disjoint.symm (nodesKeptApart other name otherChanged nameChanged)
    · rw [keptShapes name nameChanged, keptShapes other otherChanged]
      exact rep.nodesApart name other different

end Transfer

section Cells

theorem Store.modifyNode_eq (store : Store α) {address : ℕ} {node : MsgNode α}
    (change : MsgNode α → MsgNode α) (held : store.nodes.cell address = some node) :
    ∃ nodes, store.modifyNode address change = some { store with nodes } ∧
      nodes.fresh = store.nodes.fresh ∧
      nodes.cell = Function.update store.nodes.cell address (some (change node)) := by
  rcases Heap.exists_modify change held with ⟨nodes, modified, sameFresh, cells⟩
  exact ⟨nodes, by simp [Store.modifyNode, modified], sameFresh, cells⟩

theorem Store.modifyGroup_eq (store : Store α) {address : ℕ} {group : MsgGroup}
    (change : MsgGroup → MsgGroup) (held : store.groups.cell address = some group) :
    ∃ groups, store.modifyGroup address change = some { store with groups } ∧
      groups.fresh = store.groups.fresh ∧
      groups.cell = Function.update store.groups.cell address (some (change group)) := by
  rcases Heap.exists_modify change held with ⟨groups, modified, sameFresh, cells⟩
  exact ⟨groups, by simp [Store.modifyGroup, modified], sameFresh, cells⟩

theorem Store.freeMsgNode_eq (store : Store α) {address : ℕ} {node : MsgNode α}
    (held : store.nodes.cell address = some node) :
    ∃ nodes, store.freeMsgNode address = some { store with nodes } ∧
      nodes.fresh = store.nodes.fresh ∧
      nodes.cell = Function.update store.nodes.cell address none := by
  rcases Heap.exists_free held with ⟨nodes, freed, sameFresh, cells⟩
  exact ⟨nodes, by simp [Store.freeMsgNode, freed], sameFresh, cells⟩

theorem Store.freeGroup_eq (store : Store α) {address : ℕ} {group : MsgGroup}
    (held : store.groups.cell address = some group) :
    ∃ groups, store.freeGroup address = some { store with groups } ∧
      groups.fresh = store.groups.fresh ∧
      groups.cell = Function.update store.groups.cell address none := by
  rcases Heap.exists_free held with ⟨groups, freed, sameFresh, cells⟩
  exact ⟨groups, by simp [Store.freeGroup, freed], sameFresh, cells⟩

end Cells

theorem GroupShape.last_not_mem_beforeLast {shape : GroupShape α} (distinct : shape.cells.Nodup) :
    shape.last ∉ shape.beforeLast := by
  rw [shape.cells_eq] at distinct
  intro repeated
  exact List.disjoint_of_nodup_append distinct repeated (by simp)

/-- The list of a group once a node has been linked behind its last one. -/
theorem linked_append {nodes nodes' : Heap (MsgNode α)} {shape : GroupShape α} {msgNode : ℕ}
    {node lastNode : MsgNode α}
    (linked : nodes.Segment MsgNode.nextNode (some shape.first) shape.cells none)
    (distinct : shape.cells.Nodup)
    (others : ∀ other, other ≠ shape.last → nodes'.cell other = nodes.cell other)
    (lastHeld : nodes'.cell shape.last = some { lastNode with nextNode := some msgNode })
    (held : nodes'.cell msgNode = some node) (ends : node.nextNode = none) :
    nodes'.Segment MsgNode.nextNode (some shape.first) (shape.cells ++ [msgNode]) none := by
  rw [Heap.segment_append]
  refine ⟨some msgNode, ?_, rfl, node, held, ends⟩
  rw [shape.cells_eq] at linked ⊢
  refine linked.relink ?_ lastHeld rfl
  intro other passed
  apply others
  rintro rfl
  exact shape.last_not_mem_beforeLast distinct passed

/-- Linking a node behind the last one of a list appends its message. -/
theorem NodeList.append {nodes nodes' : Heap (MsgNode α)} {shape : GroupShape α} {msgNode : ℕ}
    {node lastNode : MsgNode α} (list : NodeList nodes shape)
    (lastWas : nodes.cell shape.last = some lastNode)
    (others : ∀ other, other ≠ shape.last → nodes'.cell other = nodes.cell other)
    (lastHeld : nodes'.cell shape.last = some { lastNode with nextNode := some msgNode })
    (held : nodes'.cell msgNode = some node) (ends : node.nextNode = none)
    (unlisted : msgNode ∉ shape.cells) : NodeList nodes' (shape.append msgNode node.queued) where
  linked := linked_append list.linked list.distinct others lastHeld held ends
  carries := by
    refine Heap.Carries.append (list.carries.of_modified ?_)
      (List.Forall₂.cons ⟨node, held, rfl⟩ List.Forall₂.nil)
    intro other passed value valueHeld
    by_cases isLast : other = shape.last
    · subst isLast
      rw [lastWas, Option.some.injEq] at valueHeld
      exact ⟨_, lastHeld, fun content matched => valueHeld ▸ matched⟩
    · exact ⟨value, by rw [others other isLast, valueHeld], fun content matched => matched⟩
  distinct := by
    rw [GroupShape.append_cells]
    exact list.distinct.append (by simp) (by simpa using unlisted)

/-- Linking a node behind a group's last one appends its message to the group. -/
theorem appendMsgNode_rep {store : Store α} {shape : GroupShape α} {group : MsgGroup}
    {msgNode : ℕ} {node : MsgNode α} (rep : GroupRep store.nodes store.groups shape group)
    (held : store.nodes.cell msgNode = some node) (ends : node.nextNode = none)
    (unlisted : msgNode ∉ shape.cells) :
    ∃ nodes groups appended, appendMsgNode store shape.address msgNode =
        some { store with nodes, groups } ∧
      nodes.fresh = store.nodes.fresh ∧ groups.fresh = store.groups.fresh ∧
      (∀ other, other ≠ shape.last → nodes.cell other = store.nodes.cell other) ∧
      (∀ other, other ≠ shape.address → groups.cell other = store.groups.cell other) ∧
      GroupRep nodes groups (shape.append msgNode node.queued) appended ∧
      appended.nextGrp = group.nextGrp ∧
      ∀ merged, group.Counts store.int merged shape.msgs →
        appended.Counts store.int merged (shape.append msgNode node.queued).msgs := by
  rcases rep.linked.live shape.last_mem with ⟨lastNode, lastHeld⟩
  rcases Store.modifyNode_eq store
      (fun last : MsgNode α => { last with nextNode := some msgNode }) lastHeld with
    ⟨nodes, linkedNode, nodesFresh, nodesCell⟩
  let appended : MsgGroup :=
    { group with
      lastNode := msgNode
      totalMsgSize := store.int.hold (group.totalMsgSize + node.msgSize)
      totalMsgs := store.int.hold (group.totalMsgs + 1) }
  rcases Store.modifyGroup_eq { store with nodes }
      (fun group => { group with
        lastNode := msgNode
        totalMsgSize := store.int.hold (group.totalMsgSize + node.msgSize)
        totalMsgs := store.int.hold (group.totalMsgs + 1) }) rep.held with
    ⟨groups, countedGroup, groupsFresh, groupsCell⟩
  have otherNodes : ∀ other, other ≠ shape.last →
      nodes.cell other = store.nodes.cell other := by
    intro other different
    rw [nodesCell, Function.update_of_ne different]
  have lastNow : nodes.cell shape.last = some { lastNode with nextNode := some msgNode } := by
    rw [nodesCell, Function.update_self]
  have heldNow : nodes.cell msgNode = some node := by
    rw [otherNodes msgNode, held]
    rintro rfl
    exact unlisted shape.last_mem
  refine ⟨nodes, groups, appended, ?_, nodesFresh, groupsFresh, otherNodes, ?_, ?_, rfl,
    fun _ counts => counts.append rfl rfl⟩
  · simp only [appendMsgNode, rep.held, held, rep.lastNode, linkedNode, countedGroup,
      Option.bind_eq_bind, Option.bind_some]
  · intro other different
    rw [groupsCell, Function.update_of_ne different]
  · have list := rep.nodeList.append lastHeld otherNodes lastNow heldNow ends unlisted
    refine
      { held := ?_
        firstNode := rep.firstNode
        lastNode := (shape.append_last msgNode node.queued).symm
        linked := list.linked
        carries := list.carries
        distinct := list.distinct }
    rw [groupsCell]
    exact Function.update_self ..

end HeapScan
