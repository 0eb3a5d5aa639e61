import HeapScan.MessageStore.Draining
import HeapScan.MessageStore.Frame

/-!
# Draining without a limit

Without a positive limit queueing never opens a second group, but a retrieve
still compares with a split size, which is zero.  It hands out the left entry's
group, then the right one's, and then an empty one with nothing pending, as long as their
counters do not wrap around and their texts can be printed.
-/

namespace HeapScan

open Transition TwosComplement

variable {α : Type}

/-- A chain of one group that can be appended to. -/
def Chain.single (msgs : List α) : Chain α where
  first := msgs
  later := []
  tailLive := true

/-- The chains of an unsplit store whose pending messages are `pending`. -/
structure Unsplit (int : IntReading) (pending : HolderName → List α) (chains : ChainStore α) :
    Prop where
  isToBeSplit : chains.isToBeSplit = false
  splitSz : chains.splitSz = 0
  sameInt : chains.int = int
  chain : ∀ name, chains.chain name = .single (pending name)

/--
The cuts of a drain of two single groups.  A count that wraps around to a number below one
seems to be within the split size, and then the groups are merged as empty ones.
-/
def unlimitedCuts (int : IntReading) (left right : List α) : List (Cut α) :=
  if int.hold (left.length + right.length : ℕ) < 1 then [{ groups := 2, msgs := left ++ right }]
  else { groups := 1, msgs := left } ::
    if int.hold right.length < 1 then [{ groups := 2, msgs := right }]
    else [{ groups := 1, msgs := right }, { groups := 2, msgs := [] }]

theorem split_single (fits : ℕ → Bool) (left right : List α) :
    ChainStore.split fits (.single left) (.single right) =
      if fits (left.length + right.length) then
        some (false, { groups := 2, msgs := left ++ right }, .single [])
      else some (true, { groups := 1, msgs := left }, .single right) := rfl

theorem mem_unlimitedCuts {int : IntReading} {left right : List α}
    (counted : 1 ≤ int.hold (left.length + right.length : ℕ)) :
    { groups := 1, msgs := left } ∈ unlimitedCuts int left right := by
  rw [unlimitedCuts, if_neg (by omega)]
  exact List.mem_cons_self ..

theorem chunks_single_step (int : IntReading) (fuel : ℕ) (left right : List α) :
    chunks (fitsIn int 0) (fuel + 1) (.single left) (.single right) =
      if int.hold (left.length + right.length : ℕ) < 1 then
        some [{ groups := 2, msgs := left ++ right }]
      else (chunks (fitsIn int 0) fuel (.single right) (.single [])).bind fun cuts =>
        some ({ groups := 1, msgs := left } :: cuts) := by
  have fits_eq : fitsIn int 0 (left.length + right.length) =
      decide (int.hold (left.length + right.length : ℕ) < 1) := by
    rw [fitsIn, decide_eq_decide]
    exact Int.lt_add_one_iff.symm
  simp only [chunks, split_single, fits_eq, decide_eq_true_eq]
  split <;> rfl

theorem chunks_unsplit (int : IntReading) (left right : List α) (fuel : ℕ) :
    chunks (fitsIn int 0) (fuel + 3) (.single left) (.single right) =
      some (unlimitedCuts int left right) := by
  have empty : int.hold ((0 : ℕ) : ℤ) < 1 := by simp
  unfold unlimitedCuts
  simp only [chunks_single_step, List.length_nil, Nat.add_zero, empty, if_true, List.append_nil]
  split
  · rfl
  · split <;> rfl

namespace Unsplit

variable {int : IntReading} {pending : HolderName → List α} {chains : ChainStore α}

theorem wellFormed (unsplit : Unsplit int pending chains) : chains.WellFormed where
  filled name := by
    rw [unsplit.chain name]
    trivial
  unsplit _ name := by
    rw [unsplit.chain name]
    rfl
  splitPos split := by
    rw [unsplit.isToBeSplit] at split
    cases split
  bounded split := by
    rw [unsplit.isToBeSplit] at split
    cases split
  range := by
    rw [unsplit.splitSz]
    exact IntReading.keeps_zero _

theorem init {int : IntReading} {socketMsgLimit : ℤ} (unlimited : socketMsgLimit ≤ 0)
    (range : int.Keeps socketMsgLimit) :
    Unsplit int (fun _ => []) (ChainStore.init int socketMsgLimit : ChainStore α) := by
  have held : int.hold socketMsgLimit = socketMsgLimit := range
  exact
    { isToBeSplit := by simpa [ChainStore.init, held] using unlimited
      splitSz := by
        rw [ChainStore.init, held]
        exact Int.toNat_of_nonpos unlimited
      sameInt := rfl
      chain := fun _ => rfl }

theorem queue (unsplit : Unsplit int pending chains) (name : HolderName) (msg : α) :
    ∃ next, chains.queue name msg = some next ∧
      Unsplit int (Function.update pending name (pending name ++ [msg])) next := by
  refine ⟨chains.setChain name (.single (pending name ++ [msg])), ?_, ?_⟩
  · simp [ChainStore.queue, unsplit.chain name, Chain.single, Chain.extend, ChainStore.isFull,
      unsplit.isToBeSplit]
  · refine { isToBeSplit := unsplit.isToBeSplit, splitSz := unsplit.splitSz,
             sameInt := unsplit.sameInt, chain := fun other => ?_ }
    rcases eq_or_ne other name with rfl | different
    · simp [ChainStore.setChain]
    · simpa [ChainStore.setChain, different] using unsplit.chain other

theorem drained (unsplit : Unsplit int pending chains) (id : MsgLocationId) :
    Unsplit int
      (Function.update (Function.update pending (ChainStore.inSpace id).1 [])
        (ChainStore.inSpace id).2 []) (chains.drained id) where
  isToBeSplit := unsplit.isToBeSplit
  splitSz := unsplit.splitSz
  sameInt := unsplit.sameInt
  chain name := by
    by_cases isRight : name = (ChainStore.inSpace id).2
    · simp [ChainStore.drained, ChainStore.setChain, isRight, Chain.fresh, Chain.single]
    · by_cases isLeft : name = (ChainStore.inSpace id).1
      · simp [ChainStore.drained, ChainStore.setChain, isLeft, ChainStore.inSpace_ne, Chain.fresh,
          Chain.single]
      · simpa [ChainStore.drained, ChainStore.setChain, isRight, isLeft] using unsplit.chain name

end Unsplit

/-- Two holders have two groups. -/
theorem Store.Refines.two_le_fresh {store : Store α} {chains : ChainStore (Queued α)}
    (refines : store.Refines chains) : 2 ≤ store.groups.fresh := by
  rcases refines with ⟨-, shapes, rep, msgs⟩
  have listed : ∀ name, ∃ group, group ∈ groupCells (shapes name) := by
    intro name
    rcases List.map_eq_cons_iff.mp (msgs name) with ⟨shape, later, isShape, -, -⟩
    exact ⟨shape.address, isShape ▸ mem_groupCells (List.mem_cons_self ..)⟩
  rcases listed .leftSpaceLeftEntry with ⟨left, inLeft⟩
  rcases listed .leftSpaceRightEntry with ⟨right, inRight⟩
  have leftOld := (rep.chain .leftSpaceLeftEntry).group_lt inLeft
  have rightOld := (rep.chain .leftSpaceRightEntry).group_lt inRight
  have different : left ≠ right := fun same =>
    rep.groupsApart .leftSpaceLeftEntry .leftSpaceRightEntry (by decide) inLeft (same ▸ inRight)
  omega

section History

variable [Message α]

/-- A drain leaves the holders of the other space as they are. -/
theorem drainLoop_holder {fuel : ℕ} {id : MsgLocationId} {store next : Store α}
    {retrieved : List (Retrieved α)} (loop : drainLoop fuel id store = some (retrieved, next))
    {name : HolderName} (elsewhere : name ∉ retrievedHolders id) :
    next.holder name = store.holder name := by
  rcases drainLoop_rule (fun visited => visited.holder name = store.holder name) (fun _ => True)
      (fun _ _ _ same handed => ⟨trivial, (onRetrieveMessage_holder handed elsewhere).trans same⟩)
      rfl loop with ⟨-, before, last, same, handed, -⟩
  exact (onRetrieveMessage_holder handed elsewhere).trans same

/--
The messages of an entry can be delivered in one chunk: there are none, or their counter
is positive and their text fits into the buffer that their sizes ask for.
-/
def Deliverable (int : IntReading) (msgs : List (Queued α)) : Prop :=
  msgs.length = 0 ∨
    1 ≤ int.hold msgs.length ∧ ({ groups := 1, msgs } : Cut (Queued α)).Printable int

instance (int : IntReading) (msgs : List (Queued α)) : Decidable (Deliverable int msgs) :=
  inferInstanceAs (Decidable (_ ∨ _))

/-- What is printed for the cuts: the messages behind positive counters. -/
theorem handedOut_unlimitedCuts (int : IntReading) (left right : List (Queued α)) :
    handedOut (retrievedOf int (unlimitedCuts int left right)) =
      if int.hold (left.length + right.length : ℕ) < 1 then []
      else (if int.hold left.length < 1 then [] else left.map Queued.msg) ++
        if int.hold right.length < 1 then [] else right.map Queued.msg := by
  unfold unlimitedCuts
  split
  · rename_i together
    simp only [retrievedOf, handedOut, List.flatMap_singleton, Cut.retrieved_printed,
      List.length_append, together, if_true]
  · split
    · rename_i rightFits
      simp only [retrievedOf, handedOut, List.flatMap_cons, List.flatMap_nil,
        Cut.retrieved_printed, rightFits, if_true, List.append_nil]
    · rename_i printed
      simp only [retrievedOf, handedOut, List.flatMap_cons, List.flatMap_nil,
        Cut.retrieved_printed, printed, List.map_nil, ite_self, if_false, List.append_nil]

/-- They are all messages exactly where no counter takes messages for none. -/
theorem handedOut_unlimitedCuts_iff (int : IntReading) (left right : List (Queued α)) :
    handedOut (retrievedOf int (unlimitedCuts int left right)) =
        left.map Queued.msg ++ right.map Queued.msg ↔
      (left.length + right.length = 0 ∨ 1 ≤ int.hold (left.length + right.length : ℕ)) ∧
        (left.length = 0 ∨ 1 ≤ int.hold left.length) ∧
        (right.length = 0 ∨ 1 ≤ int.hold right.length) := by
  rw [handedOut_unlimitedCuts]
  constructor
  · intro all
    have lengths := congrArg List.length all
    simp only [apply_ite List.length, List.length_append, List.length_map, List.length_nil]
      at lengths
    split at lengths
    · omega
    · split at lengths <;> split at lengths <;> omega
  · rintro ⟨together, leftCounted, rightCounted⟩
    have ofEntry : ∀ msgs : List (Queued α), msgs.length = 0 ∨ 1 ≤ int.hold msgs.length →
        (if int.hold msgs.length < 1 then [] else msgs.map Queued.msg) = msgs.map Queued.msg := by
      rintro msgs (none | counted)
      · simp [List.length_eq_zero_iff.mp none]
      · rw [if_neg (by omega)]
    rw [ofEntry left leftCounted, ofEntry right rightCounted]
    rcases together with none | counted
    · have noLeft : left = [] := List.length_eq_zero_iff.mp (by omega)
      have noRight : right = [] := List.length_eq_zero_iff.mp (by omega)
      simp [noLeft, noRight]
    · rw [if_neg (by omega)]

/-- With all counters right, the cuts can be printed where both entries' messages can. -/
theorem unlimitedCuts_printable_iff {int : IntReading} {left right : List (Queued α)}
    (together : left.length + right.length = 0 ∨ 1 ≤ int.hold (left.length + right.length : ℕ))
    (leftCounted : left.length = 0 ∨ 1 ≤ int.hold left.length)
    (rightCounted : right.length = 0 ∨ 1 ≤ int.hold right.length) :
    (∀ cut ∈ unlimitedCuts int left right, cut.Printable int) ↔
      Deliverable int left ∧ Deliverable int right := by
  have ofEntry : ∀ msgs : List (Queued α), msgs.length = 0 ∨ 1 ≤ int.hold msgs.length →
      (({ groups := 1, msgs } : Cut (Queued α)).Printable int ↔ Deliverable int msgs) := by
    rintro msgs (none | counted)
    · have noMsgs : msgs = [] := List.length_eq_zero_iff.mp none
      simp [Deliverable, Cut.Printable, noMsgs]
    · exact ⟨fun printable => Or.inr ⟨counted, printable⟩, fun deliverable =>
        deliverable.elim (fun none => by simp [none] at counted) And.right⟩
  unfold unlimitedCuts
  split
  · have none : left.length + right.length = 0 := by omega
    have noLeft : left = [] := List.length_eq_zero_iff.mp (by omega)
    have noRight : right = [] := List.length_eq_zero_iff.mp (by omega)
    simp [noLeft, noRight, Deliverable, Cut.Printable]
  · rw [List.forall_mem_cons, ofEntry left leftCounted]
    split
    · have noRight : right = [] := List.length_eq_zero_iff.mp (by omega)
      simp [noRight, Deliverable, Cut.Printable]
    · rw [List.forall_mem_cons, ofEntry right rightCounted, List.forall_mem_singleton]
      simp [Cut.Printable]

omit [Message α] in
theorem length_unlimitedCuts_le (int : IntReading) (left right : List α) :
    (unlimitedCuts int left right).length ≤ 3 := by
  unfold unlimitedCuts
  split
  · simp
  · split <;> simp

/-- What a chunk of the unsplit store tells of itself, its count as an `int` holds it. -/
structure Retrieved.Told (int : IntReading) (retrieved : Retrieved α) : Prop where
  totalMsg : retrieved.printed ≠ [] → retrieved.totalMsg = int.hold retrieved.printed.length
  msg : retrieved.msg = joinMsgs retrieved.printed
  totalMsgSize : retrieved.printed ≠ [] → retrieved.totalMsgSize = retrieved.msg.length + 1

theorem Cut.retrieved_told (int : IntReading) (pendingFl : Bool) (cut : Cut (Queued α)) :
    (cut.retrieved int pendingFl).Told int := by
  unfold Cut.retrieved
  dsimp only
  split
  · exact ⟨fun printed => absurd rfl printed, by simp [joinMsgs],
      fun printed => absurd rfl printed⟩
  · exact ⟨fun _ => by simp, rfl, fun _ => rfl⟩

namespace Unsplit

variable {int : IntReading} {pending : HolderName → List (Queued α)}
  {chains : ChainStore (Queued α)} {store : Store α} (unsplit : Unsplit int pending chains)
  (refines : store.Refines chains) (id : MsgLocationId)

include unsplit refines

omit [Message α] in
theorem chunks_eq :
    chunks (fitsIn chains.int chains.splitSz) (store.groups.fresh + 1)
      (chains.chain (ChainStore.inSpace id).1) (chains.chain (ChainStore.inSpace id).2) =
      some (unlimitedCuts int (pending (ChainStore.inSpace id).1)
        (pending (ChainStore.inSpace id).2)) := by
  rcases Nat.exists_eq_add_of_le refines.two_le_fresh with ⟨more, isFresh⟩
  have enough : store.groups.fresh + 1 = more + 3 := by omega
  rw [enough, unsplit.sameInt, unsplit.splitSz, unsplit.chain, unsplit.chain]
  exact chunks_unsplit ..

/-- A complete drain of an unsplit store. -/
theorem drain_iff (retrieved : List (Retrieved α)) :
    (∃ next, HeapScan.drain store id = some (retrieved, next)) ↔
      retrieved = retrievedOf int (unlimitedCuts int (pending (ChainStore.inSpace id).1)
        (pending (ChainStore.inSpace id).2)) ∧
      ∀ cut ∈ unlimitedCuts int (pending (ChainStore.inSpace id).1)
        (pending (ChainStore.inSpace id).2), cut.Printable int := by
  have handed := unsplit.chunks_eq refines id
  constructor
  · rintro ⟨next, drains⟩
    rcases drainLoop_eq_some refines unsplit.wellFormed handed drains with
      ⟨printable, isRetrieved, -⟩
    rw [unsplit.sameInt] at printable isRetrieved
    exact ⟨isRetrieved, printable⟩
  · rintro ⟨rfl, printable⟩
    have loop := drainLoop_refines refines unsplit.wellFormed handed
      (unsplit.sameInt.symm ▸ printable)
    rw [unsplit.sameInt] at loop
    rcases loop with ⟨next, drains, -⟩
    exact ⟨next, drains⟩

theorem drained_of_drain {retrieved : List (Retrieved α)} {next : Store α}
    (drains : HeapScan.drain store id = some (retrieved, next)) :
    next.Refines (chains.drained id) :=
  (drainLoop_eq_some refines unsplit.wellFormed (unsplit.chunks_eq refines id) drains).2.2

end Unsplit

/-- After any history the store is unsplit, with the messages that are still pending. -/
theorem history_unsplit {int : IntReading} {socketMsgLimit : ℤ} (unlimited : socketMsgLimit ≤ 0)
    (range : int.Keeps socketMsgLimit) {history : List (StoreOp α)} {store : Store α}
    (ran : runFrom applyOp (onInitializeReading int socketMsgLimit) history = some store) :
    ∃ chains, store.Refines chains ∧ Unsplit int (pendingOf history) chains := by
  refine run_rule
    (fun pending store => ∃ chains, store.Refines chains ∧ Unsplit int pending chains) ?_ ?_
    ⟨_, onInitialize_refines int socketMsgLimit, Unsplit.init unlimited range⟩ ran
  · rintro pending store id msg msgSize next ⟨chains, refines, unsplit⟩ result
    rcases unsplit.queue (getMsgGroupHolder id) { msg, msgSize } with
      ⟨nextChains, queued, nextUnsplit⟩
    rcases queueMsg_refines refines id msg msgSize queued with ⟨after, isAfter, afterRefines⟩
    rw [result, Option.some.injEq] at isAfter
    exact ⟨nextChains, isAfter ▸ afterRefines, nextUnsplit⟩
  · rintro pending store id retrieved next ⟨chains, refines, unsplit⟩ drains
    exact ⟨_, unsplit.drained_of_drain refines id drains, unsplit.drained id⟩

/--
Without a limit and after any history, at most three retrieves hand out the left entry's
pending messages in order and then the right entry's, exactly where no counter wraps
around to a number below one and each entry's text fits into its buffer.
-/
theorem drain_unlimited_iff (socketMsgLimit : ℤ) (unlimited : socketMsgLimit ≤ 0)
    (large : -2 ^ 31 ≤ socketMsgLimit) (history : List (StoreOp α)) (id : MsgLocationId)
    {store : Store α} (ran : runFrom applyOp (onInitialize socketMsgLimit) history = some store) :
    let left := pendingOf history (ChainStore.inSpace id).1
    let right := pendingOf history (ChainStore.inSpace id).2
    (∃ retrieved next, HeapScan.drain store id = some (retrieved, next) ∧
      handedOut retrieved = left.map Queued.msg ++ right.map Queued.msg ∧
      (∀ chunk ∈ retrieved, chunk.Told .bits32) ∧ retrieved.length ≤ 3 ∧
      ∀ name ∉ retrievedHolders id, next.holder name = store.holder name) ↔
    (left.length + right.length = 0 ∨
        1 ≤ IntReading.bits32.hold (left.length + right.length : ℕ)) ∧
      Deliverable .bits32 left ∧ Deliverable .bits32 right := by
  intro left right
  have range := (IntReading.keeps_bits32_iff socketMsgLimit).mpr ⟨large, by omega⟩
  rcases history_unsplit unlimited range ran with ⟨chains, refines, unsplit⟩
  have drains_iff := unsplit.drain_iff refines id
  have all_iff := handedOut_unlimitedCuts_iff .bits32 left right
  constructor
  · rintro ⟨retrieved, next, drains, all, -⟩
    rcases (drains_iff retrieved).mp ⟨next, drains⟩ with ⟨isRetrieved, printable⟩
    rcases all_iff.mp (isRetrieved ▸ all) with ⟨together, leftCounted, rightCounted⟩
    exact ⟨together,
      (unlimitedCuts_printable_iff together leftCounted rightCounted).mp printable⟩
  · rintro ⟨together, leftDelivered, rightDelivered⟩
    have leftCounted := leftDelivered.imp_right And.left
    have rightCounted := rightDelivered.imp_right And.left
    have printable := (unlimitedCuts_printable_iff together leftCounted rightCounted).mpr
      ⟨leftDelivered, rightDelivered⟩
    rcases (drains_iff _).mpr ⟨rfl, printable⟩ with ⟨next, drains⟩
    refine ⟨_, next, drains, all_iff.mpr ⟨together, leftCounted, rightCounted⟩, ?_, ?_,
      fun name elsewhere => drainLoop_holder drains elsewhere⟩
    · intro chunk listed
      rcases mem_retrievedOf listed with ⟨cut, -, pendingFl, isChunk⟩
      exact isChunk ▸ cut.retrieved_told .bits32 pendingFl
    · rw [length_retrievedOf]
      exact length_unlimitedCuts_le ..

/-- The history that tears a split store. -/
theorem drain_unlimited_whole :
    ∃ store, runFrom applyOp (onInitialize 0) tornHistory = some store ∧
      ∃ retrieved next, HeapScan.drain store leftSpace = some (retrieved, next) ∧
        handedOut retrieved = [['a'], ['b']] ++ [['c']] ∧
        (∀ chunk ∈ retrieved, chunk.Told .bits32) ∧ retrieved.length ≤ 3 ∧
        ∀ name ∉ retrievedHolders leftSpace, next.holder name = store.holder name := by
  have runs : (runFrom applyOp (onInitialize 0) tornHistory).isSome := by rfl
  rcases Option.isSome_iff_exists.mp runs with ⟨store, ran⟩
  refine ⟨store, ran, ?_⟩
  exact (drain_unlimited_iff 0 (by decide) (by decide) tornHistory leftSpace ran).mpr (by decide)

/-- The size of the buffer is negative, and nothing is handed out. -/
theorem drain_unlimited_fails :
    ∃ store, runFrom applyOp (onInitialize 0) hugeHistory = some store ∧
      HeapScan.drain store leftSpace = none := by
  have runs : ∀ (text : Text) (size : ℤ), (runFrom applyOp (onInitialize 0)
      [.queue (leftSpace + leftEntry) text size,
        .queue (leftSpace + leftEntry) text size]).isSome := fun _ _ => by rfl
  rcases Option.isSome_iff_exists.mp (runs _ _) with ⟨store, ran⟩
  refine ⟨store, ran, ?_⟩
  rcases history_unsplit (by decide) (by decide) ran with ⟨chains, refines, unsplit⟩
  rw [Option.eq_none_iff_forall_ne_some]
  rintro ⟨retrieved, next⟩ drains
  have printable := ((unsplit.drain_iff refines leftSpace retrieved).mp ⟨next, drains⟩).2
  have counted : 1 ≤ IntReading.bits32.hold (2 + 0 : ℕ) := by decide
  exact hugeHistory_not_printable (by decide) (printable _ (mem_unlimitedCuts counted))

end History

end HeapScan
