import HeapScan.Library.Runs
import HeapScan.MessageStore.Framing
import HeapScan.MessageStore.Retrieving

/-!
# Groups under construction

Several groups are built at a time: the static one by `onIncludeMessage`, and
the current groups of the four holders by `onQueueMessage`.  Each occupies node
cells of its own, so a message linked into one leaves the others as they were.
-/

namespace HeapScan

open CString Transition TwosComplement

variable {α : Type} [Message α]

/-- A message without NULs, with a recorded size that counts its text and a NUL. -/
def Fits (msg : α) (msgSize : ℤ) : Prop :=
  nul ∉ Message.text msg ∧ ((Message.text msg).length : ℤ) + 1 ≤ msgSize

/-- A group to append to, whose counters are those of its messages. -/
structure Sized (int : IntReading) (nodes : Heap (MsgNode α)) (shape : GroupShape α)
    (group : MsgGroup) : Prop where
  list : NodeList nodes shape
  firstNode : group.firstNode = shape.first
  lastNode : group.lastNode = shape.last
  counts : group.Counts int 1 shape.msgs

section Sizes

variable {int : IntReading} {nodes nodes' : Heap (MsgNode α)} {shape : GroupShape α}
  {group : MsgGroup}

omit [Message α] in
theorem Sized.congr (sized : Sized int nodes shape group)
    (sameNodes : ∀ node ∈ shape.cells, nodes'.cell node = nodes.cell node) :
    Sized int nodes' shape group :=
  { sized with list := sized.list.congr sameNodes }

theorem initializeMsgGrp_sized (store : Store α) :
    Sized int (initializeMsgGrp store).2.nodes (freshShape store) (initializeMsgGrp store).1 := by
  have rep := allocateMsgGrp_rep store
  exact
    { list := rep.nodeList
      firstNode := rfl
      lastNode := rfl
      counts := .empty int rfl rfl }

omit [Message α] in
/-- Including a message links a node that carries it behind the last one of the static group. -/
theorem onIncludeMessage_list {store : Store α} (list : NodeList store.nodes shape)
    (lastNode : store.curMsgGrp.lastNode = shape.last) (msg : α) (msgSize : ℤ) :
    ∃ nodes, onIncludeMessage store msg msgSize =
        some
          { store with
            nodes
            curMsgGrp :=
              { store.curMsgGrp with
                lastNode := store.nodes.fresh
                totalMsgSize := store.int.hold (msgSize + store.curMsgGrp.totalMsgSize)
                totalMsgs := store.int.hold (store.curMsgGrp.totalMsgs + 1) } } ∧
      NodeList nodes (shape.append store.nodes.fresh { msg, msgSize }) ∧
      ∀ other, other < store.nodes.fresh → other ∉ shape.cells →
        nodes.cell other = store.nodes.cell other := by
  rcases list.linked.live shape.last_mem with ⟨last, lastWas⟩
  have lastOld := Heap.lt_fresh_of_cell lastWas
  have lastHeld : (store.createMsgNode msg msgSize).2.nodes.cell shape.last = some last :=
    Heap.alloc_cell_of_live _ lastWas
  rcases Store.modifyNode_eq (store.createMsgNode msg msgSize).2
      (fun node : MsgNode α => { node with nextNode := some store.nodes.fresh }) lastHeld with
    ⟨nodes, linked, -, cells⟩
  have created : NodeList (store.createMsgNode msg msgSize).2.nodes shape :=
    list.congr fun node listed =>
      Heap.alloc_cell_of_ne _ _ (Nat.ne_of_lt (list.node_lt listed))
  have others : ∀ other, other ≠ shape.last →
      nodes.cell other = (store.createMsgNode msg msgSize).2.nodes.cell other := by
    intro other different
    rw [cells, Function.update_of_ne different]
  have newHeld : nodes.cell store.nodes.fresh = some { msgSize, msg, nextNode := none } := by
    rw [others _ (Nat.ne_of_gt lastOld)]
    exact Heap.alloc_cell_fresh _ _
  have appended := created.append lastHeld others (by rw [cells, Function.update_self]) newHeld rfl
    fun listed => Nat.lt_irrefl _ (list.node_lt listed)
  refine ⟨nodes, ?_, appended, ?_⟩
  · have sameGroup : (store.createMsgNode msg msgSize).2.curMsgGrp = store.curMsgGrp := rfl
    have isFresh : (store.createMsgNode msg msgSize).1 = store.nodes.fresh := rfl
    simp only [onIncludeMessage, sameGroup, isFresh, lastNode, linked,
      Option.bind_eq_bind, Option.bind_some]
    rfl
  · intro other old elsewhere
    rw [others other fun isLast => elsewhere (isLast ▸ shape.last_mem)]
    exact Heap.alloc_cell_of_ne _ _ (Nat.ne_of_lt old)

omit [Message α] in
theorem onIncludeMessage_sized {store : Store α}
    (sized : Sized store.int store.nodes shape store.curMsgGrp) (msg : α) (msgSize : ℤ) :
    ∃ nodes curMsgGrp, onIncludeMessage store msg msgSize =
        some { store with nodes, curMsgGrp } ∧
      Sized store.int nodes (shape.append store.nodes.fresh { msg, msgSize }) curMsgGrp ∧
      ∀ other, other < store.nodes.fresh → other ∉ shape.cells →
        nodes.cell other = store.nodes.cell other := by
  rcases onIncludeMessage_list sized.list sized.lastNode msg msgSize with
    ⟨nodes, included, list, others⟩
  refine ⟨nodes, _, included, ?_, others⟩
  exact
    { list
      firstNode := sized.firstNode
      lastNode := (GroupShape.append_last ..).symm
      counts := sized.counts.append rfl (congrArg store.int.hold (Int.add_comm ..)) }

/-- Include the messages in the static group, one after another. -/
def includeAll (store : Store α) : List (α × ℤ) → Option (Store α)
  | [] => some store
  | (msg, msgSize) :: msgs => do
      let store ← onIncludeMessage store msg msgSize
      includeAll store msgs

omit [Message α] in
/-- Filling the static group changes no node that was allocated before it. -/
theorem includeAll_sized {base : ℕ} {store : Store α} {shape : GroupShape α}
    (sized : Sized store.int store.nodes shape store.curMsgGrp)
    (own : ∀ node ∈ shape.cells, base ≤ node) (msgs : List (α × ℤ)) :
    ∃ nodes curMsgGrp shape', includeAll store msgs = some { store with nodes, curMsgGrp } ∧
      Sized store.int nodes shape' curMsgGrp ∧
      shape'.msgs = shape.msgs ++ msgs.map (fun msg => ⟨msg.1, msg.2⟩) ∧
      (∀ node ∈ shape'.cells, base ≤ node) ∧
      ∀ node, node < base → nodes.cell node = store.nodes.cell node := by
  induction msgs generalizing store shape with
  | nil => exact ⟨store.nodes, store.curMsgGrp, shape, rfl, sized, by simp, own, fun _ _ => rfl⟩
  | cons msg msgs ih =>
      rcases onIncludeMessage_sized sized msg.1 msg.2 with
        ⟨nodes, curMsgGrp, included, sizedNow, kept⟩
      have old : base < store.nodes.fresh := by
        have isFirst : shape.first ∈ shape.cells := List.mem_cons_self ..
        have lower := own _ isFirst
        have upper := sized.list.node_lt isFirst
        omega
      have ownNow : ∀ node ∈ (shape.append store.nodes.fresh ⟨msg.1, msg.2⟩).cells,
          base ≤ node := by
        intro node listed
        rw [GroupShape.append_cells, List.mem_append, List.mem_singleton] at listed
        rcases listed with before | isNew
        · exact own node before
        · omega
      rcases @ih { store with nodes, curMsgGrp } _ sizedNow ownNow with
        ⟨nodes', curMsgGrp', shape', rest, finalSized, finalMsgs, finalOwn, finalKept⟩
      refine ⟨nodes', curMsgGrp', shape', ?_, finalSized, ?_, finalOwn, ?_⟩
      · simp only [includeAll, included, rest, Option.bind_eq_bind, Option.bind_some]
      · simp [finalMsgs, GroupShape.append]
      · intro node below
        rw [finalKept node below]
        refine kept node (Nat.lt_trans below old) fun listed => ?_
        exact absurd (own node listed) (Nat.not_le_of_lt below)

end Sizes

section Workspace

/-- The groups that can be appended to: the static one, once it is started, and the heap's. -/
def slots (static : Option MsgGroup) (groups : Heap MsgGroup) : Option ℕ → Option MsgGroup
  | none => static
  | some address => groups.cell address

omit [Message α] in
theorem slots_static (static : Option MsgGroup) (group : MsgGroup) (groups : Heap MsgGroup) :
    slots (some group) groups = Function.update (slots static groups) none (some group) := by
  funext key
  cases key <;> simp [slots]

omit [Message α] in
theorem slots_heap (static : Option MsgGroup) {groups groups' : Heap MsgGroup} {address : ℕ}
    {group : MsgGroup} (held : groups'.cell address = some group)
    (others : ∀ other, other ≠ address → groups'.cell other = groups.cell other) :
    slots static groups' = Function.update (slots static groups) (some address) (some group) := by
  funext key
  rcases eq_or_ne key (some address) with rfl | different
  · simp [slots, held]
  · rw [Function.update_of_ne different]
    cases key with
    | none => rfl
    | some other => exact others other fun same => different (same ▸ rfl)

/-- Groups of the right sizes, no two of which share a node. -/
structure Workspace (int : IntReading) (nodes : Heap (MsgNode α))
    (slot : Option ℕ → Option MsgGroup) (shapes : Option ℕ → GroupShape α) : Prop where
  sized : ∀ key group, slot key = some group → Sized int nodes (shapes key) group
  apart : ∀ key other, key ≠ other → slot key ≠ none → slot other ≠ none →
    (shapes key).cells.Disjoint (shapes other).cells

variable {int : IntReading} {nodes nodes' : Heap (MsgNode α)}
  {slot : Option ℕ → Option MsgGroup} {shapes : Option ℕ → GroupShape α} {key : Option ℕ}
  {shape : GroupShape α} {group : MsgGroup}

/-- The other groups share no node with `shape`, and their nodes are as they were. -/
def Spares (nodes nodes' : Heap (MsgNode α)) (slot : Option ℕ → Option MsgGroup)
    (shapes : Option ℕ → GroupShape α) (key : Option ℕ) (shape : GroupShape α) : Prop :=
  ∀ other, other ≠ key → slot other ≠ none → shape.cells.Disjoint (shapes other).cells ∧
    ∀ node ∈ (shapes other).cells, nodes'.cell node = nodes.cell node

omit [Message α] in
theorem Workspace.node_lt (space : Workspace int nodes slot shapes) (live : slot key ≠ none)
    {node : ℕ} (listed : node ∈ (shapes key).cells) : node < nodes.fresh := by
  rcases Option.ne_none_iff_exists'.mp live with ⟨group, isGroup⟩
  exact (space.sized key group isGroup).list.node_lt listed

omit [Message α] in
/-- A group of the key's old nodes and of newly allocated ones spares the other groups. -/
theorem Workspace.spares (space : Workspace int nodes slot shapes)
    (owned : ∀ node ∈ shape.cells,
      (slot key ≠ none ∧ node ∈ (shapes key).cells) ∨ nodes.fresh ≤ node)
    (kept : ∀ node, node < nodes.fresh → ¬(slot key ≠ none ∧ node ∈ (shapes key).cells) →
      nodes'.cell node = nodes.cell node) : Spares nodes nodes' slot shapes key shape := by
  intro other different live
  constructor
  · intro node inShape inOther
    rcases owned node inShape with ⟨keyLive, inKey⟩ | isNew
    · exact space.apart key other different.symm keyLive live inKey inOther
    · have old := space.node_lt live inOther
      omega
  · intro node listed
    refine kept node (space.node_lt live listed) ?_
    rintro ⟨keyLive, inKey⟩
    exact space.apart other key different live keyLive listed inKey

omit [Message α] in
/-- The rule for changes: a group that spares the others is put into a slot. -/
theorem Workspace.replace (space : Workspace int nodes slot shapes)
    (sized : Sized int nodes' shape group)
    (spares : Spares nodes nodes' slot shapes key shape) :
    Workspace int nodes' (Function.update slot key (some group))
      (Function.update shapes key shape) := by
  refine { sized := fun other otherGroup isOther => ?_, apart := fun one other different => ?_ }
  · rcases eq_or_ne other key with rfl | different
    · rw [Function.update_self, Option.some.injEq] at isOther
      rw [Function.update_self]
      exact isOther ▸ sized
    · rw [Function.update_of_ne different] at isOther ⊢
      exact (space.sized other otherGroup isOther).congr
        (spares other different (by simp [isOther])).2
  · intro oneLive otherLive
    rcases eq_or_ne one key with rfl | notOne
    · rw [Function.update_of_ne different.symm] at otherLive ⊢
      rw [Function.update_self]
      exact (spares other different.symm otherLive).1
    · rw [Function.update_of_ne notOne] at oneLive ⊢
      rcases eq_or_ne other key with rfl | notOther
      · rw [Function.update_self]
        exact (spares one notOne oneLive).1.symm
      · rw [Function.update_of_ne notOther] at otherLive ⊢
        exact space.apart one other different oneLive otherLive

end Workspace

section Built

/-- Every group on the heap, and the static one once it is started, has its messages in `msgs`. -/
structure Built (int : IntReading) (static : Option MsgGroup) (nodes : Heap (MsgNode α))
    (groups : Heap MsgGroup) (msgs : Option ℕ → List (Queued α))
    (shapes : Option ℕ → GroupShape α) : Prop where
  space : Workspace int nodes (slots static groups) shapes
  carries : ∀ key, slots static groups key ≠ none → (shapes key).msgs = msgs key
  live : ∀ address, address < groups.fresh → groups.cell address ≠ none
  unused : ∀ address, groups.fresh ≤ address → msgs (some address) = []

variable {int : IntReading} {static : Option MsgGroup} {nodes nodes' : Heap (MsgNode α)}
  {groups groups' : Heap MsgGroup} {msgs : Option ℕ → List (Queued α)}
  {shapes : Option ℕ → GroupShape α}
  {shape : GroupShape α} {group : MsgGroup}

omit [Message α] in
theorem carries_update {slot slot' : Option ℕ → Option MsgGroup} {key : Option ℕ}
    (carries : ∀ key, slot key ≠ none → (shapes key).msgs = msgs key)
    (others : ∀ other, other ≠ key → slot' other = slot other) :
    ∀ other, slot' other ≠ none → (Function.update shapes key shape other).msgs =
      Function.update msgs key shape.msgs other := by
  intro other isLive
  rcases eq_or_ne other key with rfl | different
  · simp
  · rw [others other different] at isLive
    rw [Function.update_of_ne different, Function.update_of_ne different]
    exact carries other isLive

omit [Message α] in
/-- The rule for changes of the static group. -/
theorem Built.put_static (built : Built int static nodes groups msgs shapes)
    (sized : Sized int nodes' shape group)
    (spares : Spares nodes nodes' (slots static groups) shapes none shape) :
    Built int (some group) nodes' groups (Function.update msgs none shape.msgs)
      (Function.update shapes none shape) where
  space := slots_static static group groups ▸ built.space.replace sized spares
  carries := carries_update built.carries fun other different => by
    rw [slots_static static, Function.update_of_ne different]
  live := built.live
  unused address beyond := by
    rw [Function.update_of_ne (by simp)]
    exact built.unused address beyond

omit [Message α] in
theorem Built.put_heap (built : Built int static nodes groups msgs shapes) {address : ℕ}
    (sized : Sized int nodes' shape group) (held : groups'.cell address = some group)
    (others : ∀ other, other ≠ address → groups'.cell other = groups.cell other)
    (grows : groups.fresh ≤ groups'.fresh)
    (reach : ∀ other, other < groups'.fresh → other = address ∨ other < groups.fresh)
    (spares : Spares nodes nodes' (slots static groups) shapes (some address) shape) :
    Built int static nodes' groups' (Function.update msgs (some address) shape.msgs)
      (Function.update shapes (some address) shape) where
  space := slots_heap static held others ▸ built.space.replace sized spares
  carries := carries_update built.carries fun other different => by
    rw [slots_heap static held others, Function.update_of_ne different]
  live other inHeap := by
    rcases eq_or_ne other address with rfl | different
    · simp [held]
    · rw [others other different]
      exact built.live other ((reach other inHeap).resolve_left different)
  unused other beyond := by
    have inHeap := Heap.lt_fresh_of_cell held
    have different : some other ≠ some address := fun same => by
      cases same
      omega
    rw [Function.update_of_ne different]
    exact built.unused other (Nat.le_trans grows beyond)

omit [Message α] in
theorem Built.createMsgNode {store : Store α}
    (built : Built int static store.nodes groups msgs shapes) (msg : α) (msgSize : ℤ) :
    Built int static (store.createMsgNode msg msgSize).2.nodes groups msgs shapes :=
  { built with
    space :=
      { built.space with
        sized := fun key group isGroup => by
          have sized := built.space.sized key group isGroup
          exact sized.congr fun node listed =>
            Heap.alloc_cell_of_ne _ _ (Nat.ne_of_lt (sized.list.node_lt listed)) } }

theorem Workspace.spares_fresh {store : Store α} {slot : Option ℕ → Option MsgGroup}
    (space : Workspace int store.nodes slot shapes) (key : Option ℕ) :
    Spares store.nodes (initializeMsgGrp store).2.nodes slot shapes key (freshShape store) :=
  space.spares
    (fun node listed => by
      rw [freshShape_cells, List.mem_singleton] at listed
      exact Or.inr (Nat.le_of_eq listed.symm))
    (fun node old _ => allocateMsgGrp_node store old)

/-- `onStartMsgGrp` forgets the static group's messages. -/
theorem Built.start {store : Store α} (built : Built int static store.nodes groups msgs shapes) :
    Built int (some (onStartMsgGrp store).curMsgGrp) (onStartMsgGrp store).nodes groups
      (Function.update msgs none []) (Function.update shapes none (freshShape store)) :=
  built.put_static (initializeMsgGrp_sized store) (built.space.spares_fresh none)

theorem Built.allocate {store : Store α}
    (built : Built int static store.nodes store.groups msgs shapes) :
    Built int static (allocateMsgGrp store).2.nodes (allocateMsgGrp store).2.groups msgs
      (Function.update shapes (some store.groups.fresh) (freshShape store)) := by
  have put := built.put_heap (initializeMsgGrp_sized store) (allocateMsgGrp_rep store).held
    (fun other different => Heap.alloc_cell_of_ne _ _ different) (Nat.le_succ _)
    (fun other inHeap => by
      have bound : other < store.groups.fresh + 1 := inHeap
      change other = store.groups.fresh ∨ _
      omega)
    (built.space.spares_fresh _)
  have unchanged : Function.update msgs (some store.groups.fresh) (freshShape store).msgs = msgs :=
    Function.update_eq_self_iff.mpr (built.unused _ (Nat.le_refl _)).symm
  exact unchanged ▸ put

omit [Message α] in
/-- The group at an address, as `GroupRep` describes it. -/
theorem Sized.rep (sized : Sized int nodes shape group) {address : ℕ}
    (held : groups.cell address = some group) :
    GroupRep nodes groups { shape with address } group where
  held := held
  firstNode := sized.firstNode
  linked := sized.list.linked
  carries := sized.list.carries
  distinct := sized.list.distinct
  lastNode := sized.lastNode

omit [Message α] in
/-- `onIncludeMessage` gives the static group one more message. -/
theorem Built.include {store : Store α}
    (built : Built store.int (some store.curMsgGrp) store.nodes store.groups msgs shapes) (msg : α)
    (msgSize : ℤ) :
    ∃ nodes curMsgGrp shapes', onIncludeMessage store msg msgSize =
        some { store with nodes, curMsgGrp } ∧
      Built store.int (some curMsgGrp) nodes store.groups
        (Function.update msgs none (msgs none ++ [⟨msg, msgSize⟩])) shapes' := by
  rcases onIncludeMessage_sized (built.space.sized none _ rfl) msg msgSize with
    ⟨nodes, curMsgGrp, included, sized, kept⟩
  have started : slots (some store.curMsgGrp) store.groups none ≠ none := by simp [slots]
  have put : Built _ _ _ _
      (Function.update msgs none ((shapes none).msgs ++ [⟨msg, msgSize⟩])) _ :=
    built.put_static sized (built.space.spares ?_ ?_)
  · rw [built.carries none started] at put
    exact ⟨nodes, curMsgGrp, _, included, put⟩
  · intro node listed
    rw [GroupShape.append_cells, List.mem_append, List.mem_singleton] at listed
    rcases listed with old | isNew
    · exact Or.inl ⟨started, old⟩
    · exact Or.inr (Nat.le_of_eq isNew.symm)
  · intro node old elsewhere
    exact kept node old fun listed => elsewhere ⟨started, listed⟩

omit [Message α] in
/-- `appendMsgNode` gives a group on the heap one more message. -/
theorem Built.appendMsgNode {store : Store α}
    (built : Built store.int static store.nodes store.groups msgs shapes) {address msgNode : ℕ}
    {node : MsgNode α} (inHeap : address < store.groups.fresh)
    (nodeHeld : store.nodes.cell msgNode = some node) (ends : node.nextNode = none)
    (unlisted : ∀ key, slots static store.groups key ≠ none → msgNode ∉ (shapes key).cells) :
    ∃ nodes groups shapes', HeapScan.appendMsgNode store address msgNode =
        some { store with nodes, groups } ∧ groups.fresh = store.groups.fresh ∧
      Built store.int static nodes groups
        (Function.update msgs (some address) (msgs (some address) ++ [node.queued])) shapes' := by
  have isLive : slots static store.groups (some address) ≠ none := built.live address inHeap
  rcases Option.ne_none_iff_exists'.mp isLive with ⟨group, held⟩
  have sized := built.space.sized _ group held
  rcases appendMsgNode_rep (sized.rep held) nodeHeld ends (unlisted _ isLive) with
    ⟨nodes, groups, appended, result, -, groupsFresh, otherNodes, otherGroups, rep, -, counts⟩
  have heldNow : groups.cell address = some appended := rep.held
  have sizedNow : Sized store.int nodes
      ((shapes (some address)).append msgNode node.queued) appended :=
    { list := ⟨rep.linked, rep.carries, rep.distinct⟩
      firstNode := rep.firstNode
      lastNode := rep.lastNode.trans ((GroupShape.append_last ..).trans
        (GroupShape.append_last ..).symm)
      counts := counts 1 sized.counts }
  have put : Built store.int static nodes groups (Function.update msgs (some address)
      ((shapes (some address)).msgs ++ [node.queued])) _ :=
    built.put_heap sizedNow heldNow otherGroups (Nat.le_of_eq groupsFresh.symm)
      (fun other old => Or.inr (groupsFresh ▸ old)) ?_
  · rw [built.carries _ isLive] at put
    exact ⟨nodes, groups, _, result, groupsFresh, put⟩
  · intro other different otherLive
    have apart := built.space.apart other (some address) different otherLive isLive
    constructor
    · intro listed inShape inOther
      rw [GroupShape.append_cells, List.mem_append, List.mem_singleton] at inShape
      rcases inShape with old | isNew
      · exact apart inOther old
      · exact unlisted other otherLive (isNew ▸ inOther)
    · intro listed inOther
      refine otherNodes listed ?_
      rintro rfl
      exact apart inOther (shapes (some address)).last_mem

omit [Message α] in
theorem Built.modifyGroup {store : Store α}
    (built : Built int static store.nodes store.groups msgs shapes) {address : ℕ}
    (nextGrp : Option ℕ) (inHeap : address < store.groups.fresh) :
    ∃ groups, store.modifyGroup address (fun group => { group with nextGrp }) =
        some { store with groups } ∧ groups.fresh = store.groups.fresh ∧
      Built int static store.nodes groups msgs shapes := by
  have isLive : slots static store.groups (some address) ≠ none := built.live address inHeap
  rcases Option.ne_none_iff_exists'.mp isLive with ⟨group, held⟩
  rcases Store.modifyGroup_eq store (fun group => { group with nextGrp }) held with
    ⟨groups, modified, groupsFresh, cells⟩
  have sized := built.space.sized _ group held
  have sizedNow : Sized int store.nodes (shapes (some address)) { group with nextGrp } :=
    ⟨sized.list, sized.firstNode, sized.lastNode, sized.counts.relink nextGrp⟩
  have put := built.put_heap sizedNow (by rw [cells, Function.update_self])
    (fun other different => by rw [cells, Function.update_of_ne different])
    (Nat.le_of_eq groupsFresh.symm) (fun other old => Or.inr (groupsFresh ▸ old))
    (fun other different otherLive =>
      ⟨(built.space.apart other (some address) different otherLive isLive).symm, fun _ _ => rfl⟩)
  rw [built.carries _ isLive, Function.update_eq_self, Function.update_eq_self] at put
  exact ⟨groups, modified, groupsFresh, put⟩

/-- The current group of every holder has been allocated. -/
def Store.Current (store : Store α) : Prop :=
  ∀ name, (store.holder name).curMsgGrp < store.groups.fresh

/-- Opening a group changes no group's messages, and the new node is still in none. -/
theorem Built.openGroupIfFull {store : Store α}
    (built : Built int static store.nodes store.groups msgs shapes) (current : store.Current)
    (name : HolderName) {msgNode : ℕ} {node : MsgNode α}
    (nodeHeld : store.nodes.cell msgNode = some node)
    (unlisted : ∀ key, slots static store.groups key ≠ none → msgNode ∉ (shapes key).cells) :
    ∃ next shapes', HeapScan.openGroupIfFull store name =
        some ((next.holder name).curMsgGrp, next) ∧
      next.curMsgGrp = store.curMsgGrp ∧ next.int = store.int ∧ next.Current ∧
      Built int static next.nodes next.groups msgs shapes' ∧
      next.nodes.cell msgNode = some node ∧
      ∀ key, slots static next.groups key ≠ none → msgNode ∉ (shapes' key).cells := by
  have inHeap := current name
  rcases Option.ne_none_iff_exists'.mp (built.live _ inHeap) with ⟨group, held⟩
  by_cases full : store.isToBeSplit = true ∧ store.splitSz ≤ group.totalMsgs
  · rcases built.allocate.modifyGroup (some store.groups.fresh)
      (Nat.lt_succ_of_lt inHeap) with ⟨groups, modified, groupsFresh, builtNow⟩
    have grown : groups.fresh = store.groups.fresh + 1 := groupsFresh
    let next : Store α := Store.setHolder { (allocateMsgGrp store).2 with groups } name
      { store.holder name with curMsgGrp := store.groups.fresh }
    have isNext : (next.holder name).curMsgGrp = store.groups.fresh := by
      simp [next, Store.setHolder]
    refine ⟨next, _, ?_, rfl, rfl, ?_, builtNow, ?_, ?_⟩
    · rw [isNext]
      simp only [HeapScan.openGroupIfFull, full.1, if_true, held, full.2, allocateMsgGrp_address,
        modified, Option.bind_eq_bind, Option.bind_some]
      rfl
    · intro other
      rcases eq_or_ne other name with rfl | different
      · rw [isNext]
        exact grown ▸ Nat.lt_succ_self _
      · have same : next.holder other = store.holder other := by
          simp [next, Store.setHolder, different, allocateMsgGrp, initializeMsgGrp,
            Store.createMsgNode]
        rw [same]
        exact grown ▸ Nat.lt_succ_of_lt (current other)
    · exact (allocateMsgGrp_node store (Heap.lt_fresh_of_cell nodeHeld)).trans nodeHeld
    · intro key isLive listed
      rcases eq_or_ne key (some store.groups.fresh) with rfl | different
      · rw [Function.update_self, freshShape_cells, List.mem_singleton] at listed
        exact absurd (Heap.lt_fresh_of_cell nodeHeld) (by omega)
      · rw [Function.update_of_ne different] at listed
        refine unlisted key ?_ listed
        cases key with
        | none => exact isLive
        | some address =>
            refine built.live address ?_
            rcases Option.ne_none_iff_exists'.mp isLive with ⟨_, nowHeld⟩
            have bound := Heap.lt_fresh_of_cell nowHeld
            have notNew : address ≠ store.groups.fresh := fun same => different (same ▸ rfl)
            change address < groups.fresh at bound
            omega
  · refine ⟨store, shapes, ?_, rfl, rfl, current, built, nodeHeld, unlisted⟩
    by_cases splits : store.isToBeSplit = true
    · have notFull : ¬store.splitSz ≤ group.totalMsgs := fun totals => full ⟨splits, totals⟩
      simp only [HeapScan.openGroupIfFull, splits, if_true, held, notFull, if_false,
        Option.bind_eq_bind, Option.bind_some]
    · rw [HeapScan.openGroupIfFull, if_neg splits]

/-- `onQueueMessage` gives the holder's current group one more message. -/
theorem Built.queueMsg {store : Store α}
    (built : Built store.int static store.nodes store.groups msgs shapes) (current : store.Current)
    (id : MsgLocationId) (msg : α) (msgSize : ℤ) :
    ∃ next shapes', HeapScan.queueMsg store id msg msgSize = some next ∧
      next.curMsgGrp = store.curMsgGrp ∧ next.int = store.int ∧ next.Current ∧
      let key := some (next.holder (getMsgGroupHolder id)).curMsgGrp
      Built store.int static next.nodes next.groups
        (Function.update msgs key (msgs key ++ [⟨msg, msgSize⟩])) shapes' := by
  have created := built.createMsgNode msg msgSize
  have unlisted : ∀ key, slots static store.groups key ≠ none →
      store.nodes.fresh ∉ (shapes key).cells := fun key isLive listed =>
    Nat.lt_irrefl _ (built.space.node_lt isLive listed)
  rcases created.openGroupIfFull current (getMsgGroupHolder id) (Heap.alloc_cell_fresh _ _)
      unlisted with
    ⟨opened, shapes1, isOpened, sameStatic, sameInt, openedCurrent, openedBuilt, nodeHeld,
      stillUnlisted⟩
  have sameReading : opened.int = store.int := sameInt
  rw [← sameReading] at openedBuilt
  rcases openedBuilt.appendMsgNode (openedCurrent (getMsgGroupHolder id)) nodeHeld rfl
      stillUnlisted with
    ⟨nodes, groups, shapes2, appended, groupsFresh, nextBuilt⟩
  rw [sameReading] at nextBuilt
  refine ⟨{ opened with nodes, groups }, shapes2, ?_, sameStatic, sameReading, ?_, nextBuilt⟩
  · simp only [HeapScan.queueMsg, onQueueMessage, isOpened, Option.bind_eq_bind, Option.bind_some]
    exact appended
  · intro name
    exact Nat.lt_of_lt_of_eq (openedCurrent name) groupsFresh.symm

end Built

section Run

/-- What is done to groups while they are built. -/
inductive BuildOp (α : Type) where
  | start
  | includeMsg (msg : α) (msgSize : ℤ)
  | initHolder (name : HolderName)
  | queue (id : MsgLocationId) (msg : α) (msgSize : ℤ)

/-- The store, with the messages that the static group and each group on the heap were given. -/
structure BuildState (α : Type) where
  store : Store α
  msgs : Option ℕ → List (Queued α)

namespace BuildState

/-- One more message for the group at `key`. -/
def give (msgs : Option ℕ → List (Queued α)) (key : Option ℕ) (msg : Queued α) :
    Option ℕ → List (Queued α) :=
  Function.update msgs key (msgs key ++ [msg])

/-- The store after the start of the program and of the static group. -/
def init (int : IntReading) (socketMsgLimit : ℤ) : BuildState α where
  store := onStartMsgGrp (onInitializeReading int socketMsgLimit)
  msgs _ := []

end BuildState

def applyBuild (state : BuildState α) : BuildOp α → Option (BuildState α)
  | .start =>
      some { store := onStartMsgGrp state.store, msgs := Function.update state.msgs none [] }
  | .includeMsg msg msgSize => do
      let store ← onIncludeMessage state.store msg msgSize
      some { store, msgs := BuildState.give state.msgs none { msg, msgSize } }
  | .initHolder name => some { state with store := onInitializeMsgGroupHolder state.store name }
  | .queue id msg msgSize => do
      let store ← queueMsg state.store id msg msgSize
      -- The group that took the message is the current one, whether old or new.
      let key := some (store.holder (getMsgGroupHolder id)).curMsgGrp
      some { store, msgs := BuildState.give state.msgs key { msg, msgSize } }

/-- The messages that the operation brings have no NULs and right sizes. -/
def BuildOp.Fits : BuildOp α → Prop
  | .includeMsg msg msgSize => HeapScan.Fits msg msgSize
  | .queue _ msg msgSize => HeapScan.Fits msg msgSize
  | _ => True

/--
Every group of the state has been built from its messages, which have no NULs and right
sizes.
-/
structure BuildState.Sound (int : IntReading) (state : BuildState α) : Prop where
  sameInt : state.store.int = int
  current : state.store.Current
  built : ∃ shapes, Built int (some state.store.curMsgGrp) state.store.nodes state.store.groups
    state.msgs shapes
  fits : ∀ key, ∀ msg ∈ state.msgs key, Fits msg.msg msg.msgSize

theorem BuildState.fits_give {msgs : Option ℕ → List (Queued α)}
    (fits : ∀ key, ∀ msg ∈ msgs key, HeapScan.Fits msg.msg msg.msgSize) (msg : Queued α)
    (fitsToo : HeapScan.Fits msg.msg msg.msgSize) (key : Option ℕ) :
    ∀ other, ∀ given ∈ give msgs key msg other, HeapScan.Fits given.msg given.msgSize := by
  intro other given listed
  rcases eq_or_ne other key with rfl | different
  · rw [give, Function.update_self, List.mem_append, List.mem_singleton] at listed
    rcases listed with old | rfl
    · exact fits other given old
    · exact fitsToo
  · rw [give, Function.update_of_ne different] at listed
    exact fits other given listed

theorem onInitializeMsgGroupHolder_current {store : Store α} {name : HolderName}
    (others : ∀ other, other ≠ name → (store.holder other).curMsgGrp < store.groups.fresh) :
    (onInitializeMsgGroupHolder store name).Current := by
  intro other
  have grown : (onInitializeMsgGroupHolder store name).groups.fresh = store.groups.fresh + 1 := rfl
  rw [grown]
  rcases eq_or_ne other name with rfl | different
  · simp [onInitializeMsgGroupHolder, Store.setHolder, allocateMsgGrp_address]
  · have same : (onInitializeMsgGroupHolder store name).holder other = store.holder other := by
      simp [onInitializeMsgGroupHolder, Store.setHolder, different, allocateMsgGrp,
        initializeMsgGrp, Store.createMsgNode]
    rw [same]
    exact Nat.lt_succ_of_lt (others other different)

/-- A holder that is initialised gets a group without messages. -/
theorem Built.initHolder {int : IntReading} {static : Option MsgGroup} {store : Store α}
    {msgs : Option ℕ → List (Queued α)}
    (built : ∃ shapes, Built int static store.nodes store.groups msgs shapes) (name : HolderName) :
    ∃ shapes, Built int static (onInitializeMsgGroupHolder store name).nodes
      (onInitializeMsgGroupHolder store name).groups msgs shapes := by
  rcases built with ⟨shapes, built⟩
  exact ⟨_, built.allocate⟩

theorem onInitialize_built (int : IntReading) (socketMsgLimit : ℤ) :
    ∃ shapes : Option ℕ → GroupShape α,
      Built int none (onInitializeReading int socketMsgLimit : Store α).nodes
        (onInitializeReading int socketMsgLimit : Store α).groups (fun _ => []) shapes := by
  have unused : ∀ store : Store α, store.nodes = .empty → store.groups = .empty →
      ∃ shapes, Built int none store.nodes store.groups (fun _ => []) shapes := by
    intro store noNodes noGroups
    rw [noNodes, noGroups]
    refine ⟨fun _ => { address := 0, first := 0, nodes := [], msgs := [] }, ?_⟩
    refine { space := ⟨?_, ?_⟩, carries := ?_, live := ?_, unused := fun _ _ => rfl }
    · rintro (_ | _) _ ⟨⟩
    · rintro (_ | _) _ _ isLive <;> exact absurd rfl isLive
    · rintro (_ | _) isLive <;> exact absurd rfl isLive
    · exact fun _ inHeap => absurd inHeap (Nat.not_lt_zero _)
  have started : ∀ store : Store α, store.nodes = .empty → store.groups = .empty →
      ∃ shapes, Built int none _ _ (fun _ => []) shapes := fun store noNodes noGroups =>
    Built.initHolder (Built.initHolder (Built.initHolder (Built.initHolder
      (unused store noNodes noGroups) .leftSpaceLeftEntry) .leftSpaceRightEntry)
      .rightSpaceLeftEntry) .rightSpaceRightEntry
  unfold onInitializeReading
  dsimp only
  split
  · exact started _ rfl rfl
  · exact started _ rfl rfl

theorem BuildState.init_sound (int : IntReading) (socketMsgLimit : ℤ) :
    (BuildState.init int socketMsgLimit : BuildState α).Sound int := by
  rcases onInitialize_built (α := α) int socketMsgLimit with ⟨shapes, built⟩
  have started := built.start
  have noMsgs : Function.update (fun _ => []) none [] =
      (fun _ => [] : Option ℕ → List (Queued α)) := Function.update_eq_self none _
  rw [noMsgs] at started
  refine
    { sameInt := (onInitialize_settings int socketMsgLimit).2.2
      current := fun name => ?_
      built := ⟨_, started⟩
      fits := fun key msg listed => by cases listed }
  rcases onInitialize_refines (α := α) int socketMsgLimit with ⟨-, shapes, rep, -⟩
  have chain := rep.chain name
  exact chain.group_lt (List.mem_of_getLast? (chain.live rfl))

/-- Every operation with a fitting message succeeds and leaves the groups sound. -/
theorem BuildState.Sound.apply {int : IntReading} {state : BuildState α} (sound : state.Sound int)
    {op : BuildOp α} (fits : op.Fits) :
    ∃ next, applyBuild state op = some next ∧ next.Sound int := by
  rcases sound with ⟨rfl, current, ⟨shapes, built⟩, allFit⟩
  cases op with
  | start =>
      refine ⟨_, rfl, rfl, current, ⟨_, built.start⟩, fun key msg listed => ?_⟩
      dsimp only at listed
      rcases eq_or_ne key none with rfl | different
      · rw [Function.update_self] at listed
        cases listed
      · rw [Function.update_of_ne different] at listed
        exact allFit key msg listed
  | includeMsg msg msgSize =>
      rcases built.include msg msgSize with ⟨nodes, curMsgGrp, shapes', included, builtNow⟩
      refine ⟨{ store := { state.store with nodes, curMsgGrp }
                msgs := BuildState.give state.msgs none { msg, msgSize } }, ?_,
        rfl, current, ⟨shapes', builtNow⟩, BuildState.fits_give allFit ⟨msg, msgSize⟩ fits none⟩
      simp only [applyBuild, included, Option.bind_eq_bind, Option.bind_some]
  | initHolder name =>
      exact ⟨_, rfl, rfl, onInitializeMsgGroupHolder_current fun other _ => current other,
        ⟨_, built.allocate⟩, allFit⟩
  | queue id msg msgSize =>
      rcases built.queueMsg current id msg msgSize with
        ⟨next, shapes', queued, sameStatic, sameInt, nextCurrent, nextBuilt⟩
      rw [← sameStatic] at nextBuilt
      refine ⟨{ store := next, msgs := BuildState.give state.msgs _ { msg, msgSize } }, ?_, sameInt,
        nextCurrent, ⟨shapes', nextBuilt⟩, BuildState.fits_give allFit ⟨msg, msgSize⟩ fits _⟩
      simp only [applyBuild, queued, Option.bind_eq_bind, Option.bind_some]

/-- Every run of operations with fitting messages succeeds and leaves the groups sound. -/
theorem BuildState.Sound.run {int : IntReading} {state : BuildState α} (sound : state.Sound int)
    {ops : List (BuildOp α)} (fits : ∀ op ∈ ops, op.Fits) :
    ∃ final, runFrom applyBuild state ops = some final ∧ final.Sound int := by
  induction ops generalizing state with
  | nil => exact ⟨state, rfl, sound⟩
  | cons op ops ih =>
      rw [List.forall_mem_cons] at fits
      rcases sound.apply fits.1 with ⟨next, applied, nextSound⟩
      rcases ih nextSound fits.2 with ⟨final, ran, finalSound⟩
      exact ⟨final, runFrom_cons_eq_some.mpr ⟨next, applied, ran⟩, finalSound⟩

end Run

end HeapScan
