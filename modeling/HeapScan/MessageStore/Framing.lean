import Mathlib.Algebra.Order.BigOperators.Group.List
import HeapScan.MessageStore.Queueing

/-!
# Framing

`mergeMsgAsString` allocates a buffer of the size that the group's counters give
and prints one message after another into what is left of it.  It ends with all
messages in the buffer, the separator between them and one NUL behind the last,
exactly where the buffer has room for that.
-/

namespace HeapScan

open CString TwosComplement

variable {α : Type}

section Text

variable [Message α]

/-- What the loop prints after the first message. -/
def continued (msgs : List α) : Text :=
  msgs.flatMap fun msg => msgSeperator ++ contents (Message.text msg)

theorem joinMsgs_cons (msg : α) (msgs : List α) :
    joinMsgs (msg :: msgs) = contents (Message.text msg) ++ continued msgs := by
  induction msgs generalizing msg with
  | nil => simp [joinMsgs, continued, List.intercalate]
  | cons next msgs ih =>
      have rest := ih next
      rw [joinMsgs, List.map_cons] at rest
      rw [joinMsgs, List.map_cons, List.map_cons, List.intercalate_cons_cons, rest,
        List.append_assoc, ← List.append_assoc msgSeperator]
      rfl

/-- Neither the messages nor the separators bring a NUL into the text. -/
theorem nul_not_mem_joinMsgs (msgs : List α) : nul ∉ joinMsgs msgs := by
  cases msgs with
  | nil => simp [joinMsgs]
  | cons msg msgs =>
      have noSeperator : nul ∉ msgSeperator := by decide
      rw [joinMsgs_cons, List.mem_append, continued, List.mem_flatMap]
      rintro (first | ⟨later, -, inLater⟩)
      · exact nul_not_mem_contents _ first
      · rcases List.mem_append.mp inLater with isSeperator | inText
        · exact noSeperator isSeperator
        · exact nul_not_mem_contents _ inText

/-- Every message takes its text and one byte more, for a separator or for the NUL. -/
theorem length_joinMsgs {msgs : List α} (some_msg : msgs ≠ []) :
    ((joinMsgs msgs).length : ℤ) + 1 =
      (msgs.map fun msg => ((contents (Message.text msg)).length : ℤ) + 1).sum := by
  cases msgs with
  | nil => exact absurd rfl some_msg
  | cons msg msgs =>
      have rest : ((continued msgs).length : ℤ) =
          (msgs.map fun msg => ((contents (Message.text msg)).length : ℤ) + 1).sum := by
        clear some_msg
        induction msgs with
        | nil => rfl
        | cons next msgs ih =>
            simp only [continued, List.flatMap_cons, List.map_cons, List.sum_cons,
              List.length_append, msgSeperator, List.length_cons, List.length_nil] at ih ⊢
            omega
      simp only [joinMsgs_cons, List.length_append, List.map_cons, List.sum_cons, Int.natCast_add,
        rest]
      omega

/-- Sizes that count the texts and a NUL each have room for the whole text. -/
theorem length_joinMsgs_le {msgs : List (Queued α)} (some_msg : msgs ≠ [])
    (counted : ∀ msg ∈ msgs, ((contents (Message.text msg.msg)).length : ℤ) + 1 ≤ msg.msgSize) :
    ((joinMsgs (msgs.map Queued.msg)).length : ℤ) + 1 ≤ sizes msgs := by
  rw [length_joinMsgs (by simpa using some_msg), sizes, List.map_map]
  exact List.sum_le_sum counted

end Text

section Printing

variable [Message α] {store : Store α} {start : Option ℕ} {addresses : List ℕ}
  {msgs : List (Queued α)} {fuel : ℕ} {written : Text} {msgSize : ℤ}

/--
Where there is room for all of them, printing a list of nodes writes their messages
behind what is written and frees exactly these nodes.
-/
theorem printMsgs_eq (linked : store.nodes.Segment MsgNode.nextNode start addresses none)
    (carries : store.nodes.Carries Holds addresses msgs) (distinct : addresses.Nodup)
    (enough : addresses.length ≤ fuel)
    (room : ((written ++ continued (msgs.map Queued.msg)).length : ℤ) + 1 ≤ msgSize) :
    ∃ nodes, printMsgs fuel msgSize start (written ++ [nul]) written.length store =
        some (msgs.map Queued.msg, written ++ continued (msgs.map Queued.msg) ++ [nul],
          { store with nodes }) ∧
      nodes.fresh = store.nodes.fresh ∧
      ∀ other, other ∉ addresses → nodes.cell other = store.nodes.cell other := by
  induction addresses generalizing store start msgs fuel written with
  | nil =>
      cases carries
      cases start with
      | none => exact ⟨store.nodes, by simp [printMsgs, continued], rfl, fun _ _ => rfl⟩
      | some address => cases linked
  | cons address rest ih =>
      rcases linked with ⟨rfl, node, held, remaining⟩
      rcases List.forall₂_cons_left_iff.mp carries with
        ⟨msg, later, ⟨found, foundHeld, matched⟩, laterCarries, rfl⟩
      rw [held, Option.some.injEq] at foundHeld
      subst foundHeld
      subst matched
      rcases List.nodup_cons.mp distinct with ⟨unlisted, restDistinct⟩
      cases fuel with
      | zero => simp at enough
      | succ fuel =>
          rcases Store.freeMsgNode_eq store held with ⟨nodes, freed, sameFresh, cells⟩
          have kept : ∀ other ∈ rest, nodes.cell other = store.nodes.cell other := by
            intro other listed
            rw [cells, Function.update_of_ne]
            rintro rfl
            exact unlisted listed
          have nextLinked : Heap.Segment nodes MsgNode.nextNode node.nextNode rest none :=
            remaining.congr kept
          have isContinued : continued ((node.queued :: later).map Queued.msg) =
              (msgSeperator ++ contents (Message.text node.msg)) ++
                continued (later.map Queued.msg) := rfl
          rw [isContinued, ← List.append_assoc] at room ⊢
          have fits : ((msgSeperator ++ contents (Message.text node.msg)).length : ℤ) + 1 ≤
              msgSize - written.length := by
            simp only [List.length_append] at room ⊢
            omega
          have printed : sprintfS (written ++ [nul]) written.length _ _ = _ :=
            sprintfS_append fits
          rcases @ih { store with nodes } _ _ _ _ nextLinked
              (Heap.Carries.congr kept laterCarries) restDistinct (by simpa using enough) room with
            ⟨nodes', restPrinted, sameFresh', outside⟩
          rw [List.length_append] at restPrinted
          refine ⟨nodes', ?_, by rw [sameFresh', sameFresh], ?_⟩
          · simp only [printMsgs, held, printed, freed, restPrinted, Option.bind_eq_bind,
              Option.bind_some]
            rfl
          · intro other unlistedOther
            simp only [List.mem_cons, not_or] at unlistedOther
            rw [outside other unlistedOther.2]
            simp only [cells, Function.update_of_ne unlistedOther.1]

/-- Without room for all of them a print fails. -/
theorem printMsgs_eq_none (linked : store.nodes.Segment MsgNode.nextNode start addresses none)
    (carries : store.nodes.Carries Holds addresses msgs) (distinct : addresses.Nodup)
    (begun : (written.length : ℤ) + 1 ≤ msgSize)
    (tight : ¬((written ++ continued (msgs.map Queued.msg)).length : ℤ) + 1 ≤ msgSize) :
    printMsgs fuel msgSize start (written ++ [nul]) written.length store = none := by
  induction addresses generalizing store start msgs fuel written with
  | nil =>
      cases carries
      exact absurd begun (by simpa [continued] using tight)
  | cons address rest ih =>
      rcases linked with ⟨rfl, node, held, remaining⟩
      rcases List.forall₂_cons_left_iff.mp carries with
        ⟨msg, later, ⟨found, foundHeld, matched⟩, laterCarries, rfl⟩
      rw [held, Option.some.injEq] at foundHeld
      subst foundHeld
      subst matched
      rcases List.nodup_cons.mp distinct with ⟨unlisted, restDistinct⟩
      cases fuel with
      | zero => rfl
      | succ fuel =>
          by_cases fits : ((msgSeperator ++ contents (Message.text node.msg)).length : ℤ) + 1 ≤
              msgSize - written.length
          · rcases Store.freeMsgNode_eq store held with ⟨nodes, freed, -, cells⟩
            have kept : ∀ other ∈ rest, nodes.cell other = store.nodes.cell other := by
              intro other listed
              rw [cells, Function.update_of_ne]
              rintro rfl
              exact unlisted listed
            have nextLinked : Heap.Segment nodes MsgNode.nextNode node.nextNode rest none :=
              remaining.congr kept
            have isContinued : continued ((node.queued :: later).map Queued.msg) =
                (msgSeperator ++ contents (Message.text node.msg)) ++
                  continued (later.map Queued.msg) := rfl
            rw [isContinued, ← List.append_assoc] at tight
            have printed : sprintfS (written ++ [nul]) written.length _ _ = _ :=
              sprintfS_append fits
            have failed := @ih { store with nodes } _ _ fuel _ nextLinked
              (Heap.Carries.congr kept laterCarries) restDistinct
              (by simp only [List.length_append] at fits ⊢; omega) tight
            rw [List.length_append] at failed
            simp only [printMsgs, held, printed, freed, failed, Option.bind_eq_bind,
              Option.bind_some, Option.bind_none]
          · simp only [printMsgs, held, sprintfS_eq_none fits, Option.bind_eq_bind,
              Option.bind_some, Option.bind_none]

variable {shape : GroupShape α} {group : MsgGroup}

omit [Message α] in
/-- The first message of a list of nodes that is not empty, and the others. -/
theorem NodeList.uncons {nodes : Heap (MsgNode α)} (list : NodeList nodes shape)
    (some_msg : shape.msgs ≠ []) :
    ∃ dummy address node rest later, nodes.cell shape.first = some dummy ∧
      dummy.nextNode = some address ∧ nodes.cell address = some node ∧
      shape.nodes = address :: rest ∧ shape.msgs = node.queued :: later ∧
      nodes.Segment MsgNode.nextNode node.nextNode rest none ∧
      nodes.Carries Holds rest later ∧ address ∉ rest ∧ rest.Nodup := by
  rcases list.linked with ⟨-, dummy, dummyHeld, remaining⟩
  have carries := list.carries
  have distinct := list.distinct
  simp only [GroupShape.cells, List.nodup_cons] at distinct
  cases isNodes : shape.nodes with
  | nil =>
      rw [isNodes] at carries
      exact absurd (List.forall₂_nil_left_iff.mp carries) some_msg
  | cons address rest =>
      rw [isNodes] at carries remaining distinct
      rcases List.forall₂_cons_left_iff.mp carries with
        ⟨msg, later, ⟨node, held, matched⟩, laterCarries, isMsgs⟩
      rcases remaining with ⟨isNext, found, foundHeld, restLinked⟩
      rw [held, Option.some.injEq] at foundHeld
      subst foundHeld
      subst matched
      exact ⟨dummy, address, node, rest, later, dummyHeld, isNext, held, rfl, isMsgs, restLinked,
        laterCarries, (List.nodup_cons.mp distinct.2).1, (List.nodup_cons.mp distinct.2).2⟩

/-- The text of a group whose messages are these. -/
def GroupShape.text (shape : GroupShape α) : Text := joinMsgs (shape.msgs.map Queued.msg)

/--
A node list that is not empty is printed in order, where its text and a NUL fit into the
buffer, and its nodes are freed.
-/
theorem mergeMsgAsString_of_nodes (list : NodeList store.nodes shape)
    (firstNode : group.firstNode = shape.first) (some_msg : shape.msgs ≠ [])
    (room : (shape.text.length : ℤ) + 1 ≤ group.msgSize store.int) :
    ∃ nodes, mergeMsgAsString store group =
        some (shape.msgs.map Queued.msg, shape.text ++ [nul], (shape.text.length : ℤ) + 1,
          { store with nodes }) ∧
      nodes.fresh = store.nodes.fresh ∧
      ∀ other, other ∉ shape.cells → nodes.cell other = store.nodes.cell other := by
  have bound := list.linked.length_le_fresh list.distinct
  have textEnds := contents_append_nul (nul_not_mem_joinMsgs (shape.msgs.map Queued.msg))
  rcases list.uncons some_msg with
    ⟨dummy, address, node, rest, later, dummyHeld, isNext, held, isNodes, isMsgs, linked, carries,
      unlisted, distinct⟩
  rcases Store.freeMsgNode_eq store held with ⟨nodes, freed, sameFresh, cells⟩
  have kept : ∀ other ∈ rest, nodes.cell other = store.nodes.cell other := by
    intro other listed
    rw [cells, Function.update_of_ne]
    rintro rfl
    exact unlisted listed
  have isText : shape.text =
      contents (Message.text node.msg) ++ continued (later.map Queued.msg) := by
    rw [GroupShape.text, isMsgs]
    exact joinMsgs_cons ..
  have fits : ((contents (Message.text node.msg)).length : ℤ) + 1 ≤ group.msgSize store.int := by
    rw [isText, List.length_append] at room
    omega
  have enough : rest.length ≤ nodes.fresh := by
    simp only [GroupShape.cells, isNodes, List.length_cons] at bound
    omega
  rw [isText] at room
  rcases @printMsgs_eq _ _ { store with nodes } _ _ _ _ _ _ (linked.congr kept)
      (Heap.Carries.congr kept carries) distinct enough room with
    ⟨nodes', printed, sameFresh', outside⟩
  refine ⟨nodes', ?_, sameFresh'.trans sameFresh, fun other unlistedOther => ?_⟩
  · have start : sprintfS [] 0 _ _ = _ := sprintfS_start fits
    rw [← isText] at printed
    change contents (shape.text ++ [nul]) = shape.text at textEnds
    simp only [mergeMsgAsString, firstNode, dummyHeld, isNext, held, start, freed, printed, strlen,
      textEnds, isMsgs, List.map_cons, Option.bind_eq_bind, Option.bind_some]
    rfl
  · simp only [GroupShape.cells, isNodes, List.mem_cons, not_or] at unlistedOther
    rw [outside other unlistedOther.2.2]
    simp only [cells, Function.update_of_ne unlistedOther.2.1]

/-- Where the buffer is too small the text is not printed. -/
theorem mergeMsgAsString_eq_none (list : NodeList store.nodes shape)
    (firstNode : group.firstNode = shape.first) (some_msg : shape.msgs ≠ [])
    (tight : ¬(shape.text.length : ℤ) + 1 ≤ group.msgSize store.int) :
    mergeMsgAsString store group = none := by
  rcases list.uncons some_msg with
    ⟨dummy, address, node, rest, later, dummyHeld, isNext, held, -, isMsgs, linked, carries,
      unlisted, distinct⟩
  rcases Store.freeMsgNode_eq store held with ⟨nodes, freed, -, cells⟩
  have kept : ∀ other ∈ rest, nodes.cell other = store.nodes.cell other := by
    intro other listed
    rw [cells, Function.update_of_ne]
    rintro rfl
    exact unlisted listed
  have isText : shape.text =
      contents (Message.text node.msg) ++ continued (later.map Queued.msg) := by
    rw [GroupShape.text, isMsgs]
    exact joinMsgs_cons ..
  rw [isText] at tight
  by_cases fits : ((contents (Message.text node.msg)).length : ℤ) + 1 ≤ group.msgSize store.int
  · have start : sprintfS [] 0 _ _ = _ := sprintfS_start fits
    have failed := @printMsgs_eq_none _ _ { store with nodes } _ _ _ nodes.fresh _ _
      (linked.congr kept) (Heap.Carries.congr kept carries) distinct fits tight
    simp only [mergeMsgAsString, firstNode, dummyHeld, isNext, held, start, freed, failed,
      Option.bind_eq_bind, Option.bind_some, Option.bind_none]
  · simp only [mergeMsgAsString, firstNode, dummyHeld, isNext, held, sprintfS_eq_none fits,
      Option.bind_eq_bind, Option.bind_some, Option.bind_none]

end Printing

/-- The size of the buffer of a counted group, which leaves two bytes for each message. -/
theorem MsgGroup.Counts.msgSize {int : IntReading} {merged : ℕ} {msgs : List (Queued α)}
    {group : MsgGroup} (counts : group.Counts int merged msgs) :
    group.msgSize int = int.hold (emptyMsgSize * merged + sizes msgs +
      msgs.length * (msgSeperator.length + 1)) := by
  simp only [MsgGroup.msgSize, counts.totalMsgs, counts.totalMsgSize, IntReading.hold_hold_mul,
    IntReading.hold_add_hold, IntReading.hold_hold_add]

end HeapScan
