import HeapScan.MessageStore.Splitting

/-!
# Retrieving refines the chains

`onRetrieveMessage` leaves the two holders of a space as `ChainStore.split` says
and hands out the messages of the group that was split off, where their text fits
into the buffer that the group's counters ask for.
-/

namespace HeapScan

open CString TwosComplement

variable {α : Type}

section Retrieve

variable [Message α]

theorem getMsgGroupHolderInSpace_eq (store : Store α) (id : MsgLocationId) :
    getMsgGroupHolderInSpace store id =
      ((ChainStore.inSpace id).1,
        mergeEntries store (ChainStore.inSpace id).1 (ChainStore.inSpace id).2) := by
  unfold getMsgGroupHolderInSpace ChainStore.inSpace
  split <;> rfl

omit [Message α] in
/-- A representation of the two chains that a retrieve leaves refines the retrieved store. -/
theorem Represents.refines_retrieve {store : Store α} {chains : ChainStore (Queued α)}
    {id : MsgLocationId} {shapes : HolderName → List (GroupShape α)}
    {kept initial : List (GroupShape α)} {rest : Chain (Queued α)}
    (rep : Represents store
      (Function.update (Function.update shapes (ChainStore.inSpace id).1 kept)
        (ChainStore.inSpace id).2 initial)
      (Function.update (Function.update (fun name => (chains.chain name).tailLive)
        (ChainStore.inSpace id).1 rest.tailLive) (ChainStore.inSpace id).2 true))
    (same : store.isToBeSplit = chains.isToBeSplit ∧ store.splitSz = chains.splitSz ∧
      store.int = chains.int)
    (msgs : ∀ name, (shapes name).map GroupShape.msgs = (chains.chain name).groups)
    (keptMsgs : kept.map GroupShape.msgs = rest.groups)
    (initialMsgs : initial.map GroupShape.msgs = [[]]) :
    store.Refines ((chains.setChain (ChainStore.inSpace id).1 rest).setChain
      (ChainStore.inSpace id).2 .fresh) := by
  have different := ChainStore.inSpace_ne id
  refine ⟨same, Function.update (Function.update shapes (ChainStore.inSpace id).1 kept)
    (ChainStore.inSpace id).2 initial, ?_, ?_⟩
  · refine Eq.mp (congrArg (Represents store _) ?_) rep
    funext name
    by_cases isRight : name = (ChainStore.inSpace id).2
    · simp [ChainStore.setChain, isRight, Chain.fresh]
    · by_cases isLeft : name = (ChainStore.inSpace id).1
      · simp [ChainStore.setChain, isLeft, different]
      · simp [ChainStore.setChain, isRight, isLeft]
  · intro name
    by_cases isRight : name = (ChainStore.inSpace id).2
    · simp [ChainStore.setChain, isRight, Chain.fresh, Chain.groups, initialMsgs]
    · by_cases isLeft : name = (ChainStore.inSpace id).1
      · simp [ChainStore.setChain, isLeft, different, keptMsgs]
      · simp [ChainStore.setChain, isRight, isLeft, msgs]

/--
A retrieve has split the group of `shape` off: `next` holds it beside four chains, which
are those of `nextChains` whatever becomes of the group's cells.
-/
structure SplitOff (store : Store α) (id : MsgLocationId) (pendingFl : Bool)
    (cut : Cut (Queued α)) (nextChains : ChainStore (Queued α)) (shape : GroupShape α)
    (group : MsgGroup) (split next : Store α) : Prop where
  isSplit : onGetMsgSplit (mergeEntries store (ChainStore.inSpace id).1
    (ChainStore.inSpace id).2) (ChainStore.inSpace id).1 = some (pendingFl, shape.address, split)
  isNext : next =
    if pendingFl then split else onInitializeMsgGroupHolder split (ChainStore.inSpace id).1
  msgs : cut.msgs = shape.msgs
  taken : ∃ shapes tailLive, TakenOut next shapes tailLive shape cut.groups group ∧
    ∀ nodes groups, Represents { next with nodes, groups } shapes tailLive →
      Store.Refines { next with nodes, groups } nextChains
  sameInt : next.int = nextChains.int

/-- What a retrieve splits off is the cut that `ChainStore.retrieve` makes. -/
theorem onGetMsgSplit_refines {store : Store α} {chains nextChains : ChainStore (Queued α)}
    (refines : store.Refines chains) (wellFormed : chains.WellFormed) {id : MsgLocationId}
    {pendingFl : Bool} {cut : Cut (Queued α)}
    (retrieved : chains.retrieve id = some (pendingFl, cut, nextChains)) :
    ∃ shape group split next,
      SplitOff store id pendingFl cut nextChains shape group split next := by
  rcases refines with ⟨same, shapes, rep, msgs⟩
  rcases ChainStore.retrieve_eq_some retrieved with ⟨rest, isSplit, rfl⟩
  have different := ChainStore.inSpace_ne id
  rcases List.map_eq_cons_iff.mp (msgs (ChainStore.inSpace id).1) with
    ⟨first, leftLater, leftShape, firstMsgs, leftMsgs⟩
  rcases List.map_eq_cons_iff.mp (msgs (ChainStore.inSpace id).2) with
    ⟨second, rightLater, rightShape, secondMsgs, rightMsgs⟩
  have fits_eq : ∀ count : ℕ,
      fitsIn chains.int chains.splitSz count =
        decide (store.int.hold count ≤ store.splitSz) := fun count => by
    rw [fitsIn, same.2.1, same.2.2]
  rcases ChainStore.split_eq_some isSplit with
    ⟨together, single, rfl, rfl, rfl⟩ | ⟨nextMsgs, laterMsgs, together, goesOn, apart, rfl, rfl,
      rfl⟩ | ⟨apart, rfl, rfl, rfl⟩
  · rw [fits_eq, decide_eq_true_eq, ← firstMsgs, ← secondMsgs, Int.natCast_add] at together
    rw [single] at leftMsgs
    have noLater : leftLater = [] := List.map_eq_nil_iff.mp leftMsgs
    subst noLater
    rcases rep.split_last different leftShape rightShape together with
      ⟨group, split, splitOff, splitSame, taken⟩
    refine ⟨first.merge second, group, split, _,
      { isSplit := splitOff
        isNext := rfl
        msgs := by simp [GroupShape.merge, firstMsgs, secondMsgs]
        taken := ⟨_, _, taken, fun nodes groups nextRep => nextRep.refines_retrieve ?_ msgs ?_ rfl⟩
        sameInt := splitSame.2.2.trans same.2.2 }⟩
    · exact ⟨splitSame.1.trans same.1, splitSame.2.1.trans same.2.1,
        splitSame.2.2.trans same.2.2⟩
    · simp [Chain.fresh, Chain.groups, freshShape]
  · have noRight := wellFormed.right_empty goesOn together apart
    rw [fits_eq, decide_eq_true_eq, ← firstMsgs, ← secondMsgs, Int.natCast_add] at together
    rw [goesOn] at leftMsgs
    rcases List.map_eq_cons_iff.mp leftMsgs with ⟨next, later, rfl, isNext, isLater⟩
    rw [noRight.2] at rightMsgs
    have noShape : rightLater = [] := List.map_eq_nil_iff.mp rightMsgs
    subst noShape
    have full : store.splitSz < store.int.hold
        (first.msgs.length + second.msgs.length + next.msgs.length) := by
      rw [fits_eq, decide_eq_false_iff_not, ← firstMsgs, ← secondMsgs, ← isNext] at apart
      simpa using apart
    rcases rep.split_pending different leftShape rightShape together full with
      ⟨group, split, splitOff, splitSame, taken⟩
    refine ⟨first.merge second, group, split, _,
      { isSplit := splitOff
        isNext := rfl
        msgs := by simp [GroupShape.merge, firstMsgs, secondMsgs]
        taken := ⟨_, _, taken, fun nodes groups nextRep => nextRep.refines_retrieve ?_ msgs ?_ rfl⟩
        sameInt := splitSame.2.2.trans same.2.2 }⟩
    · exact ⟨splitSame.1.trans same.1, splitSame.2.1.trans same.2.1,
        splitSame.2.2.trans same.2.2⟩
    · simp [Chain.groups, isNext, isLater]
  · have tooMany : store.splitSz < store.int.hold (first.msgs.length + second.msgs.length) := by
      rw [fits_eq, decide_eq_false_iff_not, ← firstMsgs, ← secondMsgs] at apart
      simpa using apart
    rcases rep.split_apart different leftShape rightShape tooMany with
      ⟨group, holder, splitOff, taken⟩
    refine ⟨first, group, _, _,
      { isSplit := splitOff
        isNext := rfl
        msgs := firstMsgs.symm
        taken := ⟨_, _, taken,
          fun nodes groups nextRep => nextRep.refines_retrieve same msgs ?_ rfl⟩
        sameInt := same.2.2 }⟩
    exact msgs _

/-- Where the cut is none, splitting follows a link to a freed group. -/
theorem onGetMsgSplit_eq_none {store : Store α} {chains : ChainStore (Queued α)}
    (refines : store.Refines chains) {id : MsgLocationId} (fails : chains.retrieve id = none) :
    onGetMsgSplit (mergeEntries store (ChainStore.inSpace id).1 (ChainStore.inSpace id).2)
      (ChainStore.inSpace id).1 = none := by
  rcases refines with ⟨same, shapes, rep, msgs⟩
  rcases List.map_eq_cons_iff.mp (msgs (ChainStore.inSpace id).1) with
    ⟨first, leftLater, leftShape, firstMsgs, leftMsgs⟩
  rcases List.map_eq_cons_iff.mp (msgs (ChainStore.inSpace id).2) with
    ⟨second, rightLater, rightShape, secondMsgs, -⟩
  have fits_eq : ∀ count : ℕ,
      fitsIn chains.int chains.splitSz count =
        decide (store.int.hold count ≤ store.splitSz) := fun count => by
    rw [fitsIn, same.2.1, same.2.2]
  have noSplit : ChainStore.split (fitsIn chains.int chains.splitSz)
      (chains.chain (ChainStore.inSpace id).1) (chains.chain (ChainStore.inSpace id).2) = none := by
    cases isSplit : ChainStore.split (fitsIn chains.int chains.splitSz)
        (chains.chain (ChainStore.inSpace id).1) (chains.chain (ChainStore.inSpace id).2) with
    | none => rfl
    | some result => simp [ChainStore.retrieve, isSplit] at fails
  rw [ChainStore.split] at noSplit
  split at noSplit
  · rename_i together
    rw [fits_eq, decide_eq_true_eq, ← firstMsgs, ← secondMsgs, Int.natCast_add] at together
    split at noSplit
    · cases noSplit
    · rename_i nextMsgs laterMsgs goesOn
      rw [goesOn] at leftMsgs
      rcases List.map_eq_cons_iff.mp leftMsgs with ⟨next, later, rfl, isNext, -⟩
      split at noSplit
      · rename_i again
        rw [fits_eq, decide_eq_true_eq, ← firstMsgs, ← secondMsgs, ← isNext, Int.natCast_add,
          Int.natCast_add] at again
        exact rep.split_none (ChainStore.inSpace_ne id) leftShape rightShape together again
      · cases noSplit
  · cases noSplit

namespace Cut

variable {int : IntReading}

/-- The text of the messages. -/
def text (cut : Cut (Queued α)) : Text := joinMsgs (cut.msgs.map Queued.msg)

omit [Message α] in
/-- The size of the buffer for a cut, from the counters of its group. -/
def msgSize (int : IntReading) (cut : Cut (Queued α)) : ℤ :=
  int.hold (emptyMsgSize * cut.groups + sizes cut.msgs +
    cut.msgs.length * (msgSeperator.length + 1))

/-- The text and its NUL fit into the buffer, where the counter says that there are messages. -/
def Printable (int : IntReading) (cut : Cut (Queued α)) : Prop :=
  int.hold cut.msgs.length < 1 ∨ (cut.text.length : ℤ) + 1 ≤ cut.msgSize int

instance (int : IntReading) (cut : Cut (Queued α)) : Decidable (cut.Printable int) :=
  inferInstanceAs (Decidable (_ ∨ _))

/-- What `onRetrieveMessage` hands back for a cut: nothing where the counter is below one. -/
def retrieved (int : IntReading) (pendingFl : Bool) (cut : Cut (Queued α)) : Retrieved α :=
  let totalMsg := int.hold cut.msgs.length
  if totalMsg < 1 then { pendingFl, totalMsg, totalMsgSize := 0, msg := [], printed := [] }
  else
    { pendingFl, totalMsg, totalMsgSize := cut.text.length + 1, msg := cut.text
      printed := cut.msgs.map Queued.msg }

@[simp]
theorem retrieved_pendingFl (int : IntReading) (pendingFl : Bool) (cut : Cut (Queued α)) :
    (cut.retrieved int pendingFl).pendingFl = pendingFl := by
  unfold retrieved
  dsimp only
  split <;> rfl

@[simp]
theorem retrieved_totalMsg (int : IntReading) (pendingFl : Bool) (cut : Cut (Queued α)) :
    (cut.retrieved int pendingFl).totalMsg = int.hold cut.msgs.length := by
  unfold retrieved
  dsimp only
  split <;> rfl

theorem retrieved_printed (int : IntReading) (pendingFl : Bool) (cut : Cut (Queued α)) :
    (cut.retrieved int pendingFl).printed =
      if int.hold cut.msgs.length < 1 then [] else cut.msgs.map Queued.msg := by
  unfold retrieved
  dsimp only
  split <;> rfl

end Cut

section

variable {store : Store α} {chains nextChains : ChainStore (Queued α)} {id : MsgLocationId}
  {pendingFl : Bool} {cut : Cut (Queued α)}

/-- One retrieve refines `ChainStore.retrieve` where the cut can be printed. -/
theorem onRetrieveMessage_refines (refines : store.Refines chains)
    (wellFormed : chains.WellFormed)
    (retrieved : chains.retrieve id = some (pendingFl, cut, nextChains))
    (printable : cut.Printable chains.int) :
    ∃ next, onRetrieveMessage store id = some (cut.retrieved chains.int pendingFl, next) ∧
      next.Refines nextChains := by
  rcases onGetMsgSplit_refines refines wellFormed retrieved with
    ⟨shape, group, split, next, splitOff⟩
  rcases splitOff.taken with ⟨shapes, tailLive, taken, nextRefines⟩
  have sameInt : chains.int = next.int := by
    rcases ChainStore.retrieve_eq_some retrieved with ⟨rest, -, rfl⟩
    exact splitOff.sameInt.symm
  rw [sameInt] at printable ⊢
  have counts := taken.counts
  rw [← splitOff.msgs] at counts
  by_cases fewer : next.int.hold cut.msgs.length < 1
  · refine ⟨next, ?_, nextRefines next.nodes next.groups taken.rep⟩
    simp only [onRetrieveMessage, getMsgGroupHolderInSpace_eq, splitOff.isSplit, ← splitOff.isNext,
      taken.printable.held, counts.totalMsgs, fewer, if_true, Option.bind_eq_bind,
      Option.bind_some, Cut.retrieved]
  · have notEmpty : shape.msgs ≠ [] := by
      intro empty
      rw [splitOff.msgs, empty] at fewer
      simp at fewer
    have isText : shape.text = cut.text := by rw [GroupShape.text, Cut.text, splitOff.msgs]
    have room := printable.resolve_left fewer
    rw [Cut.msgSize, ← counts.msgSize, ← isText] at room
    rcases taken.print notEmpty room with ⟨nodes, groups, printed, freed, rep⟩
    refine ⟨_, ?_, nextRefines nodes groups rep⟩
    have read : contents (cut.text ++ [nul]) = cut.text :=
      contents_append_nul (nul_not_mem_joinMsgs _)
    rw [isText, ← splitOff.msgs] at printed
    simp only [onRetrieveMessage, getMsgGroupHolderInSpace_eq, splitOff.isSplit, ← splitOff.isNext,
      taken.printable.held, counts.totalMsgs, fewer, if_false, printed, freed, read,
      Option.bind_eq_bind, Option.bind_some, Cut.retrieved]

/-- Otherwise it fails: a freed group is read, or the text does not fit into its buffer. -/
theorem onRetrieveMessage_eq_none (refines : store.Refines chains)
    (wellFormed : chains.WellFormed)
    (fails : ∀ pendingFl cut nextChains, chains.retrieve id = some (pendingFl, cut, nextChains) →
      ¬cut.Printable chains.int) : onRetrieveMessage store id = none := by
  cases retrieved : chains.retrieve id with
  | none =>
      simp only [onRetrieveMessage, getMsgGroupHolderInSpace_eq,
        onGetMsgSplit_eq_none refines retrieved, Option.bind_eq_bind, Option.bind_none]
  | some result =>
      rcases result with ⟨pendingFl, cut, nextChains⟩
      have unprintable := fails _ _ _ retrieved
      rcases onGetMsgSplit_refines refines wellFormed retrieved with
        ⟨shape, group, split, next, splitOff⟩
      rcases splitOff.taken with ⟨shapes, tailLive, taken, -⟩
      have sameInt : chains.int = next.int := by
        rcases ChainStore.retrieve_eq_some retrieved with ⟨rest, -, rfl⟩
        exact splitOff.sameInt.symm
      rw [sameInt, Cut.Printable, not_or] at unprintable
      have counts := taken.counts
      rw [← splitOff.msgs] at counts
      have some_msg : ¬group.totalMsgs < 1 := counts.totalMsgs ▸ unprintable.1
      have notEmpty : shape.msgs ≠ [] := by
        intro empty
        have fewer := unprintable.1
        rw [splitOff.msgs, empty] at fewer
        simp at fewer
      have isText : shape.text = cut.text := by rw [GroupShape.text, Cut.text, splitOff.msgs]
      have tight := unprintable.2
      rw [Cut.msgSize, ← counts.msgSize, ← isText] at tight
      simp only [onRetrieveMessage, getMsgGroupHolderInSpace_eq, splitOff.isSplit,
        ← splitOff.isNext, taken.printable.held, some_msg, if_false,
        mergeMsgAsString_eq_none taken.printable.nodeList taken.printable.firstNode notEmpty tight,
        Option.bind_eq_bind, Option.bind_some, Option.bind_none]

/-- A retrieve that succeeds has printed the cut of `ChainStore.retrieve`. -/
theorem onRetrieveMessage_eq_some (refines : store.Refines chains)
    (wellFormed : chains.WellFormed) {retrieved : Retrieved α} {next : Store α}
    (handed : onRetrieveMessage store id = some (retrieved, next)) :
    ∃ pendingFl cut nextChains, chains.retrieve id = some (pendingFl, cut, nextChains) ∧
      cut.Printable chains.int ∧ retrieved = cut.retrieved chains.int pendingFl ∧
      next.Refines nextChains := by
  by_contra fails
  rw [onRetrieveMessage_eq_none refines wellFormed fun pendingFl cut nextChains isRetrieved
      printable => fails ?_] at handed
  · cases handed
  · rcases onRetrieveMessage_refines refines wellFormed isRetrieved printable with
      ⟨other, result, refined⟩
    rw [handed, Option.some.injEq, Prod.mk.injEq] at result
    exact ⟨pendingFl, cut, nextChains, isRetrieved, printable, result.1, result.2 ▸ refined⟩

end

end Retrieve

section Initial

/-- The cells that `onInitialize` allocates for a holder. -/
def initialShape (name : HolderName) : GroupShape α :=
  let address :=
    match name with
    | .leftSpaceLeftEntry => 0
    | .leftSpaceRightEntry => 1
    | .rightSpaceLeftEntry => 2
    | .rightSpaceRightEntry => 3
  { address, first := address, nodes := [], msgs := [] }

theorem initialShape_apart {name other : HolderName} (different : name ≠ other) :
    (initialShape name : GroupShape α).address ≠ (initialShape other : GroupShape α).address ∧
    (initialShape name : GroupShape α).first ≠ (initialShape other : GroupShape α).first := by
  cases name <;> cases other <;> simp_all [initialShape]

variable [Message α]

section

variable (int : IntReading) (socketMsgLimit : ℤ)

theorem onInitialize_group (name : HolderName) :
    GroupRep (onInitializeReading int socketMsgLimit : Store α).nodes
      (onInitializeReading int socketMsgLimit : Store α).groups (initialShape name)
      { totalMsgSize := emptyMsgSize, totalMsgs := 0,
        firstNode := (initialShape name : GroupShape α).first,
        lastNode := (initialShape name : GroupShape α).first, nextGrp := none } := by
  unfold onInitializeReading
  refine
    { held := ?_
      firstNode := rfl
      lastNode := rfl
      linked := ⟨rfl,
        { msgSize := emptyMsgSize, msg := Message.ofText [], nextNode := none }, ?_, rfl⟩
      carries := Heap.carries_nil
      distinct := by simp [GroupShape.cells, initialShape] } <;>
    dsimp only <;> split <;> cases name <;> rfl

theorem onInitialize_holder (name : HolderName) :
    (onInitializeReading int socketMsgLimit : Store α).holder name =
      { startGrp := (initialShape name : GroupShape α).address
        curMsgGrp := (initialShape name : GroupShape α).address, nextGrp := none } := by
  unfold onInitializeReading
  dsimp only
  split <;> cases name <;> rfl

theorem onInitialize_settings :
    (onInitializeReading int socketMsgLimit : Store α).isToBeSplit =
        decide (int.hold socketMsgLimit > 0) ∧
      (onInitializeReading int socketMsgLimit : Store α).splitSz =
        ((int.hold socketMsgLimit).toNat : ℤ) ∧
      (onInitializeReading int socketMsgLimit : Store α).int = int := by
  unfold onInitializeReading
  dsimp only
  split
  · rename_i limited
    have natural : 0 ≤ int.hold socketMsgLimit := Int.le_of_lt limited
    exact ⟨by simp [limited], (Int.toNat_of_nonneg natural).symm, rfl⟩
  · rename_i unlimited
    refine ⟨by simp only [unlimited, decide_false]; rfl, ?_, rfl⟩
    have noLimit : (int.hold socketMsgLimit).toNat = 0 := by omega
    rw [noLimit]
    rfl

/-- `onInitialize` gives every holder one empty group. -/
theorem onInitialize_refines :
    (onInitializeReading int socketMsgLimit : Store α).Refines
      (ChainStore.init int socketMsgLimit) := by
  refine ⟨onInitialize_settings int socketMsgLimit, fun name => [initialShape name], ?_,
    fun name => rfl⟩
  refine { chain := fun name => ?_, groupsApart := ?_, nodesApart := ?_ }
  · rw [onInitialize_holder]
    exact (onInitialize_group int socketMsgLimit name).single_chain (.empty _ rfl rfl) rfl
  · intro name other different
    simpa [groupCells] using (initialShape_apart (α := α) different).1.symm
  · intro name other different
    simpa [nodeCells, GroupShape.cells, initialShape] using
      (initialShape_apart (α := α) different).2.symm

end

end Initial

end HeapScan
