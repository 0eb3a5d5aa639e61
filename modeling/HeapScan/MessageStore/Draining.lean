import HeapScan.Library.Runs
import HeapScan.MessageStore.Packing
import HeapScan.MessageStore.Retrieving

/-!
# Draining a space

The flush loop of the agent thread retrieves a space until nothing is pending.
This file says which cuts it makes of the two chains of a space, and that it hands
these out where each can be printed and fails otherwise.
-/

namespace HeapScan

open Transition TwosComplement

variable {α : Type}

section Loop

variable [Message α]

/-- The retrieve loop of `startFlushProcess`, with what each round handed back. -/
def drainLoop : ℕ → MsgLocationId → Store α → Option (List (Retrieved α) × Store α)
  | 0, _, _ => none
  | fuel + 1, id, store => do
      let (retrieved, store) ← onRetrieveMessage store id
      if retrieved.pendingFl then
        let (later, store) ← drainLoop fuel id store
        some (retrieved :: later, store)
      else some ([retrieved], store)

/-- A complete drain.  No chain has more groups than were ever allocated. -/
def drain (store : Store α) (id : MsgLocationId) : Option (List (Retrieved α) × Store α) :=
  drainLoop (store.groups.fresh + 1) id store

/-- The messages of all chunks, in the order in which they are sent. -/
def handedOut (retrieved : List (Retrieved α)) : List α := retrieved.flatMap Retrieved.printed

/--
The rule for drains: what every retrieve keeps holds before the last one, after which
nothing is pending, and what every retrieve hands back is so for each chunk.
-/
theorem drainLoop_rule (invariant : Store α → Prop) (holds : Retrieved α → Prop)
    {id : MsgLocationId}
    (kept : ∀ store retrieved next, invariant store →
      onRetrieveMessage store id = some (retrieved, next) → holds retrieved ∧ invariant next)
    {fuel : ℕ} {store final : Store α} {retrieved : List (Retrieved α)} (start : invariant store)
    (loop : drainLoop fuel id store = some (retrieved, final)) :
    (∀ chunk ∈ retrieved, holds chunk) ∧
      ∃ before last, invariant before ∧ onRetrieveMessage before id = some (last, final) ∧
        last.pendingFl = false := by
  induction fuel generalizing store retrieved with
  | zero => cases loop
  | succ fuel ih =>
      simp only [drainLoop, Option.bind_eq_bind, Option.bind_eq_some_iff] at loop
      rcases loop with ⟨⟨chunk, next⟩, handed, goesOn⟩
      rcases kept _ _ _ start handed with ⟨chunkHolds, nextInvariant⟩
      simp only at goesOn
      split at goesOn
      · simp only [Option.bind_eq_some_iff] at goesOn
        rcases goesOn with ⟨⟨later, after⟩, rest, result⟩
        cases result
        rcases ih nextInvariant rest with ⟨laterHold, last⟩
        exact ⟨List.forall_mem_cons.mpr ⟨chunkHolds, laterHold⟩, last⟩
      · rename_i ended
        cases goesOn
        exact ⟨by simpa using chunkHolds, store, chunk, start, handed, by simpa using ended⟩

/-- What can happen to the store: a producer queues a message, or the consumer drains a space. -/
inductive StoreOp (α : Type) where
  | queue (id : MsgLocationId) (msg : α) (msgSize : ℤ)
  | drain (id : MsgLocationId)

def applyOp (store : Store α) : StoreOp α → Option (Store α)
  | .queue id msg msgSize => queueMsg store id msg msgSize
  | .drain id => (HeapScan.drain store id).map Prod.snd

/-- The messages queued at each holder since its space was last drained. -/
def pendingAfter (pending : HolderName → List (Queued α)) :
    StoreOp α → HolderName → List (Queued α)
  | .queue id msg msgSize =>
      Function.update pending (getMsgGroupHolder id)
        (pending (getMsgGroupHolder id) ++ [{ msg, msgSize }])
  | .drain id =>
      Function.update (Function.update pending (ChainStore.inSpace id).1 [])
        (ChainStore.inSpace id).2 []

def pendingOf (history : List (StoreOp α)) : HolderName → List (Queued α) :=
  history.foldl pendingAfter fun _ => []

end Loop

/-- Every message of both entries once, each entry's messages in their order. -/
def Lossless (left right handed : List α) : Prop :=
  handed.Perm (left ++ right) ∧ left.Sublist handed ∧ right.Sublist handed

/-- The numbers of messages in the two entries with which a drain loses none. -/
def Drainable (limit left right : ℕ) : Prop :=
  (left ≤ limit ∨ right = 0) ∧ (left ≠ 0 ∨ right ≤ limit)

instance (limit left right : ℕ) : Decidable (Drainable limit left right) :=
  inferInstanceAs (Decidable (_ ∧ _))

section Chunks

/-- The cuts of a drain, retrieve by retrieve. -/
def chunks (fits : ℕ → Bool) : ℕ → Chain α → Chain α → Option (List (Cut α))
  | 0, _, _ => none
  | fuel + 1, left, right => do
      let (pendingFl, cut, rest) ← ChainStore.split fits left right
      if pendingFl then
        let cuts ← chunks fits fuel rest .fresh
        some (cut :: cuts)
      else some [cut]

/-- The groups that are handed out one by one once the right entry is empty. -/
def blockCuts (limit : ℕ) (msgs : List α) : List (Cut α) :=
  (blocks limit msgs).map fun msgs => { groups := 2, msgs }

/--
The cuts of a drain whose counts fit: the messages of the left entry merged with the right
first group, or before the right entry's, or only its first group before the right entry's,
or its own groups where the right entry is empty.
-/
def cutsOf (limit : ℕ) (left right : List α) : List (Cut α) :=
  if left.length ≤ limit then
    if left.length + (right.take limit).length ≤ limit then
      [{ groups := 2, msgs := left ++ right.take limit }]
    else { groups := 1, msgs := left } :: blockCuts limit right
  else if right.length = 0 then blockCuts limit left
  else { groups := 1, msgs := left.take limit } :: blockCuts limit right

/-- The one cut of a drain in which the count of the first groups wraps around. -/
def wrappedCut (limit : ℕ) (left right : List α) : Cut α where
  groups := 2
  msgs := left ++ right.take limit

section Packed

variable {int : IntReading} {limit fuel : ℕ} {left right : Chain α} (limited : 0 < limit)
  (range : int.Keeps limit) (leftPacked : Packed limit left) (rightPacked : Packed limit right)

include limited range leftPacked rightPacked

/-- With the right entry empty, the left chain is handed out group by group. -/
theorem chunks_single (some_msg : left.contents ≠ []) (noRight : right.contents = [])
    (kept : int.Keeps (min left.contents.length (2 * limit) : ℕ))
    (enough : left.contents.length ≤ fuel * limit) :
    chunks (fitsIn int limit) fuel left right = some (blockCuts limit left.contents) := by
  induction fuel generalizing left right with
  | zero =>
      have pos := List.length_pos_of_ne_nil some_msg
      omega
  | succ fuel ih =>
      by_cases many : limit < left.contents.length
      · rcases ChainStore.Limited.split_first limited range leftPacked rightPacked many noRight with
          ⟨rest, restMsgs, -, isSplit⟩
        rw [if_pos kept] at isSplit
        have restPacked := ChainStore.Limited.packed_split leftPacked rightPacked isSplit
        have restLength : rest.contents.length = left.contents.length - limit := by
          rw [restMsgs, List.length_drop]
        have later := ih restPacked (Packed.fresh limit)
          (List.ne_nil_of_length_pos (by omega)) rfl
          (kept.of_le (Int.natCast_nonneg _) (by omega)) (by rw [Nat.succ_mul] at enough; omega)
        simp only [chunks, isSplit, if_true, later, restMsgs, blockCuts,
          blocks_of_lt limited many, List.map_cons, Option.bind_eq_bind, Option.bind_some]
      · have isSplit := ChainStore.Limited.split_all range leftPacked rightPacked (by
          rw [noRight]
          simpa using many)
        rw [noRight, List.take_nil, List.append_nil] at isSplit
        simp only [chunks, isSplit, Bool.false_eq_true, if_false, blockCuts,
          blocks_of_le some_msg (Nat.le_of_not_lt many), List.map_singleton, Option.bind_eq_bind,
          Option.bind_some]

theorem chunks_single_eq_none (noRight : right.contents = [])
    (wraps : ¬int.Keeps (min left.contents.length (2 * limit) : ℕ)) :
    chunks (fitsIn int limit) fuel left right = none := by
  cases fuel with
  | zero => rfl
  | succ fuel =>
      have many : limit < left.contents.length := by
        by_contra few
        exact wraps (keeps_of_le range (by omega))
      rcases ChainStore.Limited.split_first limited range leftPacked rightPacked many noRight with
        ⟨rest, -, -, isSplit⟩
      rw [if_neg wraps] at isSplit
      simp only [chunks, isSplit, Option.bind_eq_bind, Option.bind_none]

/-- What a drain of two packed chains hands out, where its counts fit. -/
theorem chunks_eq
    (counts : CountsFit int limit left.contents.length right.contents.length)
    (enoughLeft : left.contents.length ≤ (fuel + 1) * limit)
    (enoughRight : right.contents.length ≤ fuel * limit) :
    chunks (fitsIn int limit) (fuel + 1) left right =
      some (cutsOf limit left.contents right.contents) := by
  unfold CountsFit at counts
  by_cases fits : left.contents.length + (right.contents.take limit).length ≤ limit
  · have isSplit := ChainStore.Limited.split_all range leftPacked rightPacked fits
    have small : left.contents.length ≤ limit := by omega
    simp only [chunks, isSplit, Bool.false_eq_true, if_false, cutsOf, small, fits, if_true,
      Option.bind_eq_bind, Option.bind_some]
  by_cases noRight : right.contents.length = 0
  · rw [if_pos noRight] at counts
    have empty := List.length_eq_zero_iff.mp noRight
    have many : limit < left.contents.length := by
      simp only [empty, List.take_nil, List.length_nil] at fits
      omega
    rw [chunks_single limited range leftPacked rightPacked
      (List.ne_nil_of_length_pos (by omega)) empty counts enoughLeft, cutsOf,
      if_neg (Nat.not_le_of_lt many), if_pos noRight]
  · rw [if_neg noRight] at counts
    have some_msg : right.contents ≠ [] := fun empty => noRight (by simp [empty])
    have apart := Nat.lt_of_not_le fits
    have isSplit := ChainStore.Limited.split_apart limited range leftPacked rightPacked some_msg
      apart
    rw [if_pos counts.1] at isSplit
    rw [List.length_take] at apart
    have later := chunks_single limited range rightPacked (Packed.fresh limit) some_msg rfl
      (counts.2.resolve_left (by omega)) enoughRight
    simp only [chunks, isSplit, if_true, later, Option.bind_eq_bind, Option.bind_some, cutsOf,
      fits, noRight, if_false]
    split
    · rename_i small
      rw [List.take_of_length_le small]
    · rfl

theorem chunks_wrap (wraps : CountsWrap int limit left.contents.length right.contents.length) :
    chunks (fitsIn int limit) (fuel + 1) left right =
      some [wrappedCut limit left.contents right.contents] := by
  rcases wraps with ⟨small, wraps⟩
  have apart : limit < left.contents.length + (right.contents.take limit).length := by
    by_contra few
    rw [List.length_take, Nat.min_comm] at few
    exact wraps (keeps_of_le range (by omega))
  have some_msg : right.contents ≠ [] := by
    intro empty
    simp only [empty, List.take_nil, List.length_nil] at apart
    omega
  have isSplit := ChainStore.Limited.split_apart limited range leftPacked rightPacked some_msg apart
  rw [Nat.min_eq_left small, if_neg wraps, if_pos small] at isSplit
  simp only [chunks, isSplit, Bool.false_eq_true, if_false, wrappedCut, Option.bind_eq_bind,
    Option.bind_some]

theorem chunks_eq_none
    (counts : ¬CountsFit int limit left.contents.length right.contents.length)
    (wraps : ¬CountsWrap int limit left.contents.length right.contents.length) :
    chunks (fitsIn int limit) fuel left right = none := by
  unfold CountsFit at counts
  unfold CountsWrap at wraps
  by_cases noRight : right.contents.length = 0
  · rw [if_pos noRight] at counts
    exact chunks_single_eq_none limited range leftPacked rightPacked
      (List.length_eq_zero_iff.mp noRight) counts
  · rw [if_neg noRight] at counts
    have some_msg : right.contents ≠ [] := fun empty => noRight (by simp [empty])
    have taken := List.length_take (i := limit) (l := right.contents)
    cases fuel with
    | zero => rfl
    | succ fuel =>
        have apart : limit < left.contents.length + (right.contents.take limit).length := by
          by_contra few
          exact counts ⟨keeps_of_le range (by omega), Or.inl (by omega)⟩
        have isSplit := ChainStore.Limited.split_apart limited range leftPacked rightPacked some_msg
          apart
        by_cases kept :
            int.Keeps (min left.contents.length limit + min right.contents.length limit : ℕ)
        · rw [if_pos kept] at isSplit
          have later : chunks (fitsIn int limit) fuel right .fresh = none :=
            chunks_single_eq_none limited range rightPacked (Packed.fresh limit) rfl
              fun rightKept => counts ⟨kept, Or.inr rightKept⟩
          simp only [chunks, isSplit, if_true, later, Option.bind_eq_bind, Option.bind_some,
            Option.bind_none]
        · have large : ¬left.contents.length ≤ limit := fun small =>
            wraps ⟨small, by rwa [Nat.min_eq_left small] at kept⟩
          rw [if_neg kept, if_neg large] at isSplit
          simp only [chunks, isSplit, Option.bind_eq_bind, Option.bind_none]

end Packed

/-- The messages that a drain of packed chains with these messages hands out, in order. -/
def drainedMsgs (splitSz : ℕ) (left right : List α) : List α :=
  if left.length ≤ splitSz then
    if left.length + (right.take splitSz).length ≤ splitSz then left ++ right.take splitSz
    else left ++ right
  else if right.length = 0 then left
  else left.take splitSz ++ right

theorem cutsOf_msgs {limit : ℕ} (limited : 0 < limit) (left right : List α) :
    (cutsOf limit left right).flatMap Cut.msgs = drainedMsgs limit left right := by
  have blockMsgs : ∀ msgs : List α, (blockCuts limit msgs).flatMap Cut.msgs = msgs := by
    intro msgs
    rw [blockCuts, List.flatMap_map, List.flatMap_id']
    exact blocks_flatten limited msgs
  unfold cutsOf drainedMsgs
  split
  · split
    · simp
    · rw [List.flatMap_cons, blockMsgs]
  · split
    · exact blockMsgs left
    · rw [List.flatMap_cons, blockMsgs]

/-- Every cut is within the limit. -/
theorem length_le_of_mem_cutsOf {limit : ℕ} {left right : List α} {cut : Cut α}
    (listed : cut ∈ cutsOf limit left right) : cut.msgs.length ≤ limit := by
  have ofBlocks : ∀ msgs : List α, cut ∈ blockCuts limit msgs → cut.msgs.length ≤ limit := by
    intro msgs inBlocks
    rcases List.mem_map.mp inBlocks with ⟨block, isBlock, rfl⟩
    exact length_le_of_mem_blocks isBlock
  unfold cutsOf at listed
  split at listed
  · rename_i small
    split at listed
    · rename_i fits
      rw [List.mem_singleton.mp listed]
      simpa using fits
    · rcases List.mem_cons.mp listed with rfl | inRight
      · exact small
      · exact ofBlocks right inRight
  · split at listed
    · exact ofBlocks left listed
    · rcases List.mem_cons.mp listed with rfl | inRight
      · exact List.length_take_le ..
      · exact ofBlocks right inRight

/-- A drain hands out nothing twice, and everything exactly for the `Drainable` lengths. -/
theorem length_drainedMsgs (splitSz : ℕ) (left right : List α) :
    (drainedMsgs splitSz left right).length ≤ left.length + right.length ∧
      ((drainedMsgs splitSz left right).length = left.length + right.length ↔
        Drainable splitSz left.length right.length) := by
  unfold drainedMsgs Drainable
  have taken := List.length_take (i := splitSz) (l := right)
  split
  · split
    · rw [List.length_append]
      omega
    · rw [List.length_append]
      omega
  · split
    · omega
    · rw [List.length_append, List.length_take]
      omega

/-- A drain hands out nothing but messages of the two entries. -/
theorem drainedMsgs_subset {splitSz : ℕ} {left right : List α} :
    drainedMsgs splitSz left right ⊆ left ++ right := by
  intro msg listed
  rw [List.mem_append]
  unfold drainedMsgs at listed
  split at listed
  · split at listed
    · exact (List.mem_append.mp listed).imp_right List.mem_of_mem_take
    · exact List.mem_append.mp listed
  · split at listed
    · exact Or.inl listed
    · exact (List.mem_append.mp listed).imp_left List.mem_of_mem_take

theorem lossless_append (left right : List α) : Lossless left right (left ++ right) :=
  ⟨List.Perm.refl _, List.sublist_append_left _ _, List.sublist_append_right _ _⟩

theorem Lossless.length_eq {left right handed : List α} (lossless : Lossless left right handed) :
    handed.length = left.length + right.length := by
  rw [lossless.1.length_eq, List.length_append]

/-- For the `Drainable` lengths the left entry's messages go first and then the right one's. -/
theorem drainedMsgs_eq {splitSz : ℕ} {left right : List α}
    (drainable : Drainable splitSz left.length right.length) :
    drainedMsgs splitSz left right = left ++ right := by
  rcases drainable with ⟨leftSmall, rightSmall⟩
  unfold drainedMsgs
  split
  · split
    · rename_i fits
      rw [List.take_of_length_le]
      simp only [List.length_take] at fits
      omega
    · rfl
  · have none : right = [] := List.length_eq_zero_iff.mp (by omega)
    simp [none]

end Chunks

section Simulation

variable [Message α] {store : Store α} {chains : ChainStore (Queued α)} {id : MsgLocationId}

/-- What the retrieves of a drain hand back for its cuts. -/
def retrievedOf (int : IntReading) : List (Cut (Queued α)) → List (Retrieved α)
  | [] => []
  | [cut] => [cut.retrieved int false]
  | cut :: next :: cuts => cut.retrieved int true :: retrievedOf int (next :: cuts)

omit [Message α] in
theorem chunks_ne_nil {fits : ℕ → Bool} {fuel : ℕ} {left right : Chain α} :
    chunks fits fuel left right ≠ some [] := by
  intro isNil
  cases fuel with
  | zero => cases isNil
  | succ fuel =>
      simp only [chunks, Option.bind_eq_bind, Option.bind_eq_some_iff] at isNil
      rcases isNil with ⟨⟨pendingFl, cut, rest⟩, -, goesOn⟩
      dsimp only at goesOn
      split at goesOn
      · simp only [Option.bind_eq_some_iff] at goesOn
        rcases goesOn with ⟨_, -, result⟩
        cases result
      · cases goesOn

/-- The drain loop hands out the cuts of the two chains, and drains the space. -/
theorem drainLoop_refines (refines : store.Refines chains) (wellFormed : chains.WellFormed)
    {fuel : ℕ} {cuts : List (Cut (Queued α))}
    (handed : chunks (fitsIn chains.int chains.splitSz) fuel
      (chains.chain (ChainStore.inSpace id).1) (chains.chain (ChainStore.inSpace id).2) =
        some cuts)
    (printable : ∀ cut ∈ cuts, cut.Printable chains.int) :
    ∃ next, drainLoop fuel id store = some (retrievedOf chains.int cuts, next) ∧
      next.Refines (chains.drained id) := by
  induction fuel generalizing store chains cuts with
  | zero => cases handed
  | succ fuel ih =>
      simp only [chunks, Option.bind_eq_bind, Option.bind_eq_some_iff] at handed
      rcases handed with ⟨⟨pendingFl, cut, rest⟩, isSplit, goesOn⟩
      have isRetrieved : chains.retrieve id = some (pendingFl, cut,
          (chains.setChain (ChainStore.inSpace id).1 rest).setChain
            (ChainStore.inSpace id).2 .fresh) := by
        simp only [ChainStore.retrieve, isSplit, Option.bind_eq_bind, Option.bind_some]
      cases pendingFl with
      | true =>
          simp only [if_true, Option.bind_eq_some_iff] at goesOn
          rcases goesOn with ⟨later, laterHanded, result⟩
          cases result
          rw [List.forall_mem_cons] at printable
          rcases onRetrieveMessage_refines refines wellFormed isRetrieved printable.1 with
            ⟨next, retrieved, nextRefines⟩
          have nextWell := wellFormed.retrieve isRetrieved
          rcases ih nextRefines nextWell (by
              simpa [ChainStore.setChain, ChainStore.inSpace_ne] using laterHanded)
              printable.2 with ⟨final, loop, finalRefines⟩
          rw [ChainStore.drained_setSpace] at finalRefines
          refine ⟨final, ?_, finalRefines⟩
          have sameInt : ((chains.setChain (ChainStore.inSpace id).1 rest).setChain
            (ChainStore.inSpace id).2 .fresh).int = chains.int := rfl
          rw [sameInt] at loop
          simp only [drainLoop, retrieved, Cut.retrieved_pendingFl, if_true, loop,
            Option.bind_eq_bind, Option.bind_some]
          cases later with
          | nil => exact absurd laterHanded chunks_ne_nil
          | cons next later => rfl
      | false =>
          simp only [Bool.false_eq_true, if_false, Option.some.injEq] at goesOn
          subst goesOn
          rcases onRetrieveMessage_refines refines wellFormed isRetrieved
            (printable cut (List.mem_singleton_self _)) with ⟨next, retrieved, nextRefines⟩
          rw [ChainStore.retrieve_last isRetrieved] at nextRefines
          refine ⟨next, ?_, nextRefines⟩
          simp only [drainLoop, retrieved, Cut.retrieved_pendingFl, Bool.false_eq_true, if_false,
            Option.bind_eq_bind, Option.bind_some, retrievedOf]

/-- Without cuts that can all be printed the drain fails. -/
theorem drainLoop_eq_none (refines : store.Refines chains) (wellFormed : chains.WellFormed)
    {fuel : ℕ}
    (fails : ∀ cuts, chunks (fitsIn chains.int chains.splitSz) fuel
      (chains.chain (ChainStore.inSpace id).1) (chains.chain (ChainStore.inSpace id).2) =
        some cuts → ∃ cut ∈ cuts, ¬cut.Printable chains.int) :
    drainLoop fuel id store = none := by
  induction fuel generalizing store chains with
  | zero => rfl
  | succ fuel ih =>
      by_cases prints : ∃ pendingFl cut next,
          chains.retrieve id = some (pendingFl, cut, next) ∧ cut.Printable chains.int
      · rcases prints with ⟨pendingFl, cut, nextChains, isRetrieved, printable⟩
        rcases onRetrieveMessage_refines refines wellFormed isRetrieved printable with
          ⟨next, retrieved, nextRefines⟩
        have nextWell := wellFormed.retrieve isRetrieved
        rcases ChainStore.retrieve_eq_some isRetrieved with ⟨rest, isSplit, rfl⟩
        simp only [chunks, isSplit, Option.bind_eq_bind, Option.bind_some] at fails
        cases pendingFl with
        | true =>
            have later := ih nextRefines nextWell fun cuts laterHanded => by
              have laterCuts : chunks (fitsIn chains.int chains.splitSz) fuel rest .fresh =
                  some cuts := by
                simpa [ChainStore.setChain, ChainStore.inSpace_ne] using laterHanded
              rcases fails (cut :: cuts) (by simp [laterCuts]) with ⟨failing, listed, tight⟩
              rcases List.mem_cons.mp listed with rfl | inLater
              · exact absurd printable tight
              · exact ⟨failing, inLater, tight⟩
            simp only [drainLoop, retrieved, Cut.retrieved_pendingFl, if_true, later,
              Option.bind_eq_bind, Option.bind_some, Option.bind_none]
        | false =>
            rcases fails [cut] rfl with ⟨failing, listed, tight⟩
            exact absurd (List.mem_singleton.mp listed ▸ printable) tight
      · have failed := onRetrieveMessage_eq_none refines wellFormed
          (fun pendingFl cut next isRetrieved printable =>
            prints ⟨pendingFl, cut, next, isRetrieved, printable⟩ :
            ∀ _ _ _, chains.retrieve id = some _ → _)
        simp only [drainLoop, failed, Option.bind_eq_bind, Option.bind_none]

/-- A drain that ends has printed its cuts. -/
theorem drainLoop_eq_some (refines : store.Refines chains) (wellFormed : chains.WellFormed)
    {fuel : ℕ} {cuts : List (Cut (Queued α))}
    (handed : chunks (fitsIn chains.int chains.splitSz) fuel
      (chains.chain (ChainStore.inSpace id).1) (chains.chain (ChainStore.inSpace id).2) =
        some cuts)
    {retrieved : List (Retrieved α)} {next : Store α}
    (loop : drainLoop fuel id store = some (retrieved, next)) :
    (∀ cut ∈ cuts, cut.Printable chains.int) ∧ retrieved = retrievedOf chains.int cuts ∧
      next.Refines (chains.drained id) := by
  by_cases printable : ∀ cut ∈ cuts, cut.Printable chains.int
  · rcases drainLoop_refines refines wellFormed handed printable with ⟨other, result, refined⟩
    rw [loop, Option.some.injEq, Prod.mk.injEq] at result
    exact ⟨printable, result.1, result.2 ▸ refined⟩
  · push Not at printable
    rw [drainLoop_eq_none refines wellFormed fun other isOther => by
      rw [handed, Option.some.injEq] at isOther
      exact isOther ▸ printable] at loop
    cases loop

omit [Message α] in
/-- The heap has room for the groups of a chain. -/
theorem Store.Refines.groups_le (refines : store.Refines chains) (name : HolderName) :
    (chains.chain name).groups.length ≤ store.groups.fresh := by
  rcases refines with ⟨-, shapes, rep, msgs⟩
  have chain := rep.chain name
  have bound := chain.linked.length_le_fresh chain.groupsDistinct
  rw [← msgs name, List.length_map]
  simpa [groupCells] using bound

/-- What is handed back for a cut is that of some retrieve of it. -/
theorem mem_retrievedOf {int : IntReading} {cuts : List (Cut (Queued α))} {chunk : Retrieved α}
    (listed : chunk ∈ retrievedOf int cuts) :
    ∃ cut ∈ cuts, ∃ pendingFl, chunk = cut.retrieved int pendingFl := by
  induction cuts with
  | nil => cases listed
  | cons cut cuts ih =>
      cases cuts with
      | nil =>
          rw [retrievedOf, List.mem_singleton] at listed
          exact ⟨cut, List.mem_singleton_self _, false, listed⟩
      | cons next cuts =>
          rw [retrievedOf, List.mem_cons] at listed
          rcases listed with here | later
          · exact ⟨cut, List.mem_cons_self .., true, here⟩
          · rcases ih later with ⟨other, inLater, isOther⟩
            exact ⟨other, List.mem_cons_of_mem _ inLater, isOther⟩

theorem length_retrievedOf (int : IntReading) (cuts : List (Cut (Queued α))) :
    (retrievedOf int cuts).length = cuts.length := by
  induction cuts with
  | nil => rfl
  | cons cut cuts ih =>
      cases cuts with
      | nil => rfl
      | cons next cuts => simpa [retrievedOf] using ih

/-- What a chunk tells of itself: how many messages it has, their text, and its size. -/
structure Retrieved.Counted (retrieved : Retrieved α) : Prop where
  totalMsg : retrieved.totalMsg = retrieved.printed.length
  msg : retrieved.msg = joinMsgs retrieved.printed
  totalMsgSize : retrieved.printed ≠ [] → retrieved.totalMsgSize = retrieved.msg.length + 1

/-- A cut whose count is an `int` hands out its messages, and counts them. -/
theorem Cut.retrieved_of_keeps {int : IntReading} {cut : Cut (Queued α)}
    (kept : int.Keeps cut.msgs.length) (pendingFl : Bool) :
    (cut.retrieved int pendingFl).printed = cut.msgs.map Queued.msg ∧
      (cut.retrieved int pendingFl).Counted := by
  have counted : int.hold cut.msgs.length = cut.msgs.length := kept
  unfold Cut.retrieved
  rw [counted]
  dsimp only
  split
  · rename_i fewer
    have none : cut.msgs = [] := List.length_eq_zero_iff.mp (by omega)
    exact ⟨by simp [none], by simp [none], by simp [joinMsgs], fun printed => absurd rfl printed⟩
  · exact ⟨rfl, by simp, rfl, fun _ => rfl⟩

theorem handedOut_retrievedOf {int : IntReading} {cuts : List (Cut (Queued α))}
    (kept : ∀ cut ∈ cuts, int.Keeps cut.msgs.length) :
    handedOut (retrievedOf int cuts) = (cuts.flatMap Cut.msgs).map Queued.msg := by
  induction cuts with
  | nil => rfl
  | cons cut cuts ih =>
      rw [List.forall_mem_cons] at kept
      cases cuts with
      | nil =>
          simp [retrievedOf, handedOut, (Cut.retrieved_of_keeps kept.1 false).1]
      | cons next cuts =>
          have rest := ih kept.2
          rw [handedOut] at rest
          rw [retrievedOf, handedOut, List.flatMap_cons, rest,
            (Cut.retrieved_of_keeps kept.1 true).1, ← List.map_append]
          rfl

end Simulation

section History

variable [Message α]

/--
The rule for runs: what queueing and draining keep, with the messages then pending, holds
after any operations that can be run.
-/
theorem run_rule (holds : (HolderName → List (Queued α)) → Store α → Prop)
    (queued : ∀ pending store id msg msgSize next, holds pending store →
      queueMsg store id msg msgSize = some next →
      holds (pendingAfter pending (.queue id msg msgSize)) next)
    (drained : ∀ pending store id retrieved next, holds pending store →
      HeapScan.drain store id = some (retrieved, next) →
      holds (pendingAfter pending (.drain id)) next)
    {pending : HolderName → List (Queued α)} {initial : Store α} (start : holds pending initial)
    {ops : List (StoreOp α)} {store : Store α} (ran : runFrom applyOp initial ops = some store) :
    holds (ops.foldl pendingAfter pending) store := by
  induction ops generalizing pending initial with
  | nil =>
      rw [runFrom_nil, Option.some.injEq] at ran
      exact ran ▸ start
  | cons op ops ih =>
      rcases runFrom_cons_eq_some.mp ran with ⟨next, applied, rest⟩
      cases op with
      | queue id msg msgSize => exact ih (queued _ _ id msg msgSize _ start applied) rest
      | drain id =>
          simp only [applyOp, Option.map_eq_some_iff] at applied
          rcases applied with ⟨⟨retrieved, _⟩, drains, rfl⟩
          exact ih (drained _ _ id retrieved _ start drains) rest

end History

/-- A full left group with a second one behind it, and a message in the right entry. -/
def tornHistory : List (StoreOp Text) :=
  [.queue (leftSpace + leftEntry) ['a'] 2, .queue (leftSpace + leftEntry) ['b'] 2,
    .queue (leftSpace + rightEntry) ['c'] 2]

/-- Two messages of 2^30 bytes in one entry; their sizes together are more than an `int` holds. -/
def hugeHistory : List (StoreOp Text) :=
  [.queue (leftSpace + leftEntry) (List.replicate (2 ^ 30 - 1) 'a') (2 ^ 30),
    .queue (leftSpace + leftEntry) (List.replicate (2 ^ 30 - 1) 'a') (2 ^ 30)]

theorem hugeHistory_not_printable {groups : ℕ} (few : groups ≤ 2) :
    ¬({ groups, msgs := pendingOf hugeHistory .leftSpaceLeftEntry } :
      Cut (Queued Text)).Printable .bits32 := by
  generalize isText : List.replicate (2 ^ 30 - 1) 'a' = text
  have isPending : pendingOf hugeHistory .leftSpaceLeftEntry =
      [⟨text, 2 ^ 30⟩, ⟨text, 2 ^ 30⟩] := isText ▸ rfl
  have counted : IntReading.bits32.hold 2 = 2 := by decide
  rw [isPending]
  rintro (fewer | room)
  · change IntReading.bits32.hold 2 < 1 at fewer
    omega
  · have size : Cut.msgSize .bits32 { groups, msgs := [⟨text, 2 ^ 30⟩, ⟨text, 2 ^ 30⟩] } =
        IntReading.bits32.hold (2 ^ 31 + (2 * groups + 4)) := by
      simp only [Cut.msgSize, sizes, emptyMsgSize, msgSeperator, List.map_cons, List.map_nil,
        List.sum_cons, List.sum_nil, List.length_cons, List.length_nil]
      congr 1
      omega
    have off : ¬IntReading.bits32.Keeps (2 ^ 31 + (2 * groups + 4)) := by
      rw [IntReading.keeps_bits32_iff]
      omega
    rw [size, IntReading.hold_of_not_keeps off (by omega) (by omega)] at room
    omega

end HeapScan
