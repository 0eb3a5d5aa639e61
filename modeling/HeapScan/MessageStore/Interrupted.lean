import HeapScan.MessageStore.Lossless

/-!
# A drain that is broken off

When a send fails the flush loop is left in the middle of a drain, and the next
connection goes on with the store as it is.  The left holder of the space then
holds what was not handed out, but its current group is the right entry's group
that the last merge has freed, unless the right chain has only just been put in
its place.
-/

namespace HeapScan

open Transition TwosComplement

variable {α : Type}

section Loop

variable [Message α]

/--
The retrieve loop of `startFlushProcess`, left at its `calls`-th retrieve because
the send of that chunk fails; a chunk without messages is not sent.
-/
def brokenDrain : ℕ → MsgLocationId → Store α → Option (List (Retrieved α) × Store α)
  | 0, _, _ => none
  | calls + 1, id, store => do
      let (retrieved, store) ← onRetrieveMessage store id
      if calls = 0 then
        if retrieved.totalMsg > 0 then some ([retrieved], store) else none
      else if retrieved.pendingFl then
        let (later, store) ← brokenDrain calls id store
        some (retrieved :: later, store)
      else none

end Loop

/-- Anything but a drain of the space. -/
def StoreOp.Elsewhere (id : MsgLocationId) : StoreOp α → Prop
  | .queue _ _ _ => True
  | .drain other => ChainStore.inSpace other ≠ ChainStore.inSpace id

/--
What `calls` retrieves hand out of the two entries, what then is in the left
one, and whether it can be queued to.
-/
def brokenOff (limit : ℕ) (left right : List α) (calls : ℕ) : List α × List α × Bool :=
  if left.length + (right.take limit).length ≤ limit then (left ++ right.take limit, [], true)
  else if right.length = 0 then
    (left.take (calls * limit), left.drop (calls * limit), decide (left.length ≤ calls * limit))
  else
    (left.take limit ++ right.take ((calls - 1) * limit), right.drop ((calls - 1) * limit),
      decide (calls = 1 ∨ right.length ≤ (calls - 1) * limit))

/--
The number of messages that are left in the left entry when the drain of so many
messages is broken off, if the drain would have lost none.
-/
def remainingMsgs (limit left right calls : ℕ) : ℕ :=
  if right = 0 then left - calls * limit
  else if left + right ≤ limit then 0
  else right - (calls - 1) * limit

/--
No drain loses messages, and nothing is queued to the left entry while its
current group is one that the last merge has freed.
-/
def StaysUsable (limit left right calls newLeft newRight : ℕ) : Prop :=
  Drainable limit left right ∧
    (remainingMsgs limit left right calls = 0 ∨ (calls = 1 ∧ right ≠ 0) ∨ newLeft = 0) ∧
    Drainable limit (remainingMsgs limit left right calls + newLeft) newRight

instance (limit left right calls newLeft newRight : ℕ) :
    Decidable (StaysUsable limit left right calls newLeft newRight) :=
  inferInstanceAs (Decidable (((_ ∨ _) ∧ (_ ∨ _)) ∧ _ ∧ ((_ ∨ _) ∧ (_ ∨ _))))

section BrokenOff

variable {limit calls : ℕ} {left right : List α}

/-- What is handed out and what stays is everything exactly where a drain loses nothing. -/
theorem length_brokenOff (limit calls : ℕ) (left right : List α) :
    (brokenOff limit left right calls).1.length + (brokenOff limit left right calls).2.1.length ≤
        left.length + right.length ∧
      ((brokenOff limit left right calls).1.length +
          (brokenOff limit left right calls).2.1.length = left.length + right.length ↔
        Drainable limit left.length right.length) := by
  have taken := List.length_take (i := limit) (l := right)
  unfold brokenOff Drainable
  split
  · simp only [List.length_append, List.length_nil]
    omega
  · split
    · simp only [List.length_take, List.length_drop]
      omega
    · simp only [List.length_append, List.length_take, List.length_drop]
      omega

theorem brokenOff_eq (drainable : Drainable limit left.length right.length) :
    (brokenOff limit left right calls).1 ++ (brokenOff limit left right calls).2.1 =
      left ++ right := by
  rcases drainable with ⟨leftSmall, rightSmall⟩
  unfold brokenOff
  split
  · rename_i fits
    rw [List.length_take] at fits
    rw [List.append_nil, List.take_of_length_le (by omega)]
  · split
    · rename_i none
      rw [List.length_eq_zero_iff.mp none, List.append_nil, List.take_append_drop]
    · rw [List.append_assoc, List.take_append_drop, List.take_of_length_le (by omega)]

theorem brokenOff_left (some_call : 0 < calls)
    (drainable : Drainable limit left.length right.length) :
    (brokenOff limit left right calls).2.1.length =
        remainingMsgs limit left.length right.length calls ∧
      ((brokenOff limit left right calls).2.2 = true ↔
        remainingMsgs limit left.length right.length calls = 0 ∨ calls = 1 ∧ right.length ≠ 0) := by
  have taken := List.length_take (i := limit) (l := right)
  have some_group := Nat.le_mul_of_pos_left limit some_call
  rcases drainable with ⟨leftSmall, rightSmall⟩
  unfold brokenOff remainingMsgs
  split
  · have none : (if right.length = 0 then left.length - calls * limit
        else if left.length + right.length ≤ limit then 0
        else right.length - (calls - 1) * limit) = 0 := by
      split
      · omega
      · split <;> omega
    rw [none]
    simp
  · split
    · simp only [List.length_drop, decide_eq_true_eq, true_and]
      omega
    · rw [if_neg (by omega)]
      simp only [List.length_drop, decide_eq_true_eq, true_and]
      omega

end BrokenOff

/--
Packed chains with the messages of one space, and those of the other one as in `pending`;
only the left holder of the space may be dead.
-/
structure Interrupted (int : IntReading) (limit : ℕ) (id : MsgLocationId)
    (pending : HolderName → List α) (left right : List α) (leftLive : Bool)
    (chains : ChainStore α) : Prop extends chains.Limited int limit where
  leftContents : (chains.chain (ChainStore.inSpace id).1).contents = left
  rightContents : (chains.chain (ChainStore.inSpace id).2).contents = right
  leftTail : (chains.chain (ChainStore.inSpace id).1).tailLive = leftLive
  othersLive : ∀ name, name ≠ (ChainStore.inSpace id).1 → (chains.chain name).tailLive = true
  others : ∀ name, name ≠ (ChainStore.inSpace id).1 → name ≠ (ChainStore.inSpace id).2 →
    (chains.chain name).contents = pending name

namespace Interrupted

section Retrieves

variable {int : IntReading} {limit : ℕ} {id : MsgLocationId} {pending : HolderName → List α}
  {left right : List α} {leftLive : Bool} {chains : ChainStore α}

theorem held (interrupted : Interrupted int limit id pending left right leftLive chains) :
    Held int limit (fun name => (chains.chain name).contents)
      (fun name => (chains.chain name).tailLive) chains :=
  { interrupted.toLimited with contents := fun _ => rfl, tailLive := fun _ => rfl }

theorem of_settled (settled : Settled int limit pending chains) :
    Interrupted int limit id pending (pending (ChainStore.inSpace id).1)
      (pending (ChainStore.inSpace id).2) true chains :=
  { settled.toLimited with
    leftContents := settled.contents _
    rightContents := settled.contents _
    leftTail := settled.tailLive _
    othersLive := fun name _ => settled.tailLive name
    others := fun name _ _ => settled.contents name }

/-- What a retrieve keeps. -/
theorem retrieve (interrupted : Interrupted int limit id pending left right leftLive chains)
    {pendingFl : Bool} {cut : Cut α} {rest : Chain α}
    (isSplit : ChainStore.split (fitsIn int limit) (chains.chain (ChainStore.inSpace id).1)
      (chains.chain (ChainStore.inSpace id).2) = some (pendingFl, cut, rest)) :
    Interrupted int limit id pending rest.contents [] rest.tailLive
      ((chains.setChain (ChainStore.inSpace id).1 rest).setChain
        (ChainStore.inSpace id).2 .fresh) := by
  have different := ChainStore.inSpace_ne id
  have kept := interrupted.held.setSpace id (ChainStore.Limited.packed_split
    (interrupted.packed (ChainStore.inSpace id).1) (interrupted.packed (ChainStore.inSpace id).2)
    isSplit)
  refine { kept.toLimited with
    leftContents := by simp [ChainStore.setChain, different]
    rightContents := by simp [ChainStore.setChain, Chain.fresh, Chain.contents, Chain.groups]
    leftTail := by simp [ChainStore.setChain, different]
    othersLive := fun name notLeft => ?_
    others := fun name notLeft notRight => ?_ }
  · by_cases isRight : name = (ChainStore.inSpace id).2
    · simp [ChainStore.setChain, isRight, Chain.fresh]
    · simpa [ChainStore.setChain, isRight, notLeft] using interrupted.othersLive name notLeft
  · simpa [ChainStore.setChain, notRight, notLeft] using interrupted.others name notLeft notRight

end Retrieves

section Break

variable [Message α] {int : IntReading} {limit : ℕ} {id : MsgLocationId}
  {pending : HolderName → List (Queued α)} {left right : List (Queued α)} {leftLive : Bool}
  {chains : ChainStore (Queued α)} {store broken : Store α} {handed : List (Retrieved α)}

theorem step (interrupted : Interrupted int limit id pending left right leftLive chains)
    (refines : store.Refines chains) {retrieved : Retrieved α} {next : Store α}
    (result : onRetrieveMessage store id = some (retrieved, next)) :
    ∃ pendingFl cut rest nextChains,
      ChainStore.split (fitsIn int limit) (chains.chain (ChainStore.inSpace id).1)
        (chains.chain (ChainStore.inSpace id).2) = some (pendingFl, cut, rest) ∧
      retrieved = cut.retrieved int pendingFl ∧ next.Refines nextChains ∧
      Interrupted int limit id pending rest.contents [] rest.tailLive nextChains := by
  rcases onRetrieveMessage_eq_some refines interrupted.wellFormed result with
    ⟨pendingFl, cut, nextChains, isRetrieved, -, isCut, nextRefines⟩
  rcases ChainStore.retrieve_eq_some isRetrieved with ⟨rest, isSplit, rfl⟩
  rw [interrupted.sameInt, interrupted.splitSz] at isSplit
  rw [interrupted.sameInt] at isCut
  exact ⟨pendingFl, cut, rest, _, isSplit, isCut, nextRefines, interrupted.retrieve isSplit⟩

/-- The messages of a cut within the limit are printed. -/
theorem printed_of_le (interrupted : Interrupted int limit id pending left right leftLive chains)
    (cut : Cut (Queued α)) (within : cut.msgs.length ≤ limit) (pendingFl : Bool) :
    (cut.retrieved int pendingFl).printed = cut.msgs.map Queued.msg :=
  (Cut.retrieved_of_keeps (keeps_of_le interrupted.range within) pendingFl).1

/-- With the right entry empty, every retrieve but the last takes a full group. -/
theorem brokenDrain_single {calls : ℕ}
    (interrupted : Interrupted int limit id pending left [] leftLive chains)
    (refines : store.Refines chains)
    (breaks : brokenDrain calls id store = some (handed, broken)) :
    handedOut handed = (left.take (calls * limit)).map Queued.msg ∧
      ∃ kept, broken.Refines kept ∧
        Interrupted int limit id pending (left.drop (calls * limit)) []
          (decide (left.length ≤ calls * limit)) kept := by
  induction calls generalizing store chains left leftLive handed with
  | zero => cases breaks
  | succ calls ih =>
      simp only [brokenDrain, Option.bind_eq_bind, Option.bind_eq_some_iff] at breaks
      rcases breaks with ⟨⟨retrieved, next⟩, result, goesOn⟩
      have leftPacked := interrupted.packed (ChainStore.inSpace id).1
      have rightPacked := interrupted.packed (ChainStore.inSpace id).2
      rcases interrupted.step refines result with
        ⟨pendingFl, cut, rest, nextChains, isSplit, isCut, nextRefines, kept⟩
      by_cases many : limit < left.length
      · rcases ChainStore.Limited.split_first interrupted.limited interrupted.range leftPacked
          rightPacked (interrupted.leftContents ▸ many) interrupted.rightContents with
          ⟨other, restMsgs, restTail, isOther⟩
        rw [isSplit] at isOther
        split at isOther
        · cases isOther
          rw [restMsgs, restTail, interrupted.leftContents] at kept
          rw [interrupted.leftContents] at isCut
          have printed := interrupted.printed_of_le
            { groups := 2, msgs := left.take limit } (List.length_take_le ..) true
          rw [← isCut] at printed
          have pendingFl : retrieved.pendingFl = true := by rw [isCut, Cut.retrieved_pendingFl]
          simp only [pendingFl, if_true] at goesOn
          split at goesOn
          · rename_i isLast
            subst isLast
            split at goesOn <;> cases goesOn
            refine ⟨by simp [handedOut, printed], nextChains, nextRefines, ?_⟩
            simpa [Nat.not_le_of_lt many] using kept
          · simp only [Option.bind_eq_some_iff] at goesOn
            rcases goesOn with ⟨⟨later, final⟩, rest, isResult⟩
            cases isResult
            rcases ih kept nextRefines rest with ⟨laterMsgs, final, finalRefines, finalKept⟩
            have total : limit + calls * limit = (calls + 1) * limit := by
              rw [Nat.succ_mul, Nat.add_comm]
            refine ⟨?_, final, finalRefines, ?_⟩
            · rw [handedOut, List.flatMap_cons, printed, ← handedOut, laterMsgs, ← total,
                List.take_add, List.map_append]
            · rw [List.drop_drop, total, List.length_drop] at finalKept
              have sameLive : decide (left.length - limit ≤ calls * limit) =
                  decide (left.length ≤ (calls + 1) * limit) := by
                rw [decide_eq_decide]
                omega
              exact sameLive ▸ finalKept
        · cases isOther
      · have few : left.length ≤ limit := Nat.le_of_not_lt many
        have all := ChainStore.Limited.split_all interrupted.range leftPacked rightPacked (by
          rw [interrupted.leftContents, interrupted.rightContents]
          simpa using many)
        rw [isSplit] at all
        cases all
        have pendingFl : retrieved.pendingFl = false := by rw [isCut, Cut.retrieved_pendingFl]
        simp only [pendingFl, Bool.false_eq_true, if_false] at goesOn
        split at goesOn
        · rename_i isLast
          subst isLast
          split at goesOn <;> cases goesOn
          rw [interrupted.leftContents, interrupted.rightContents, List.take_nil,
            List.append_nil] at isCut
          have printed := interrupted.printed_of_le
            { groups := 2, msgs := left } few false
          rw [← isCut] at printed
          refine ⟨?_, nextChains, nextRefines, ?_⟩
          · simp [handedOut, printed, List.take_of_length_le few]
          · have none : Interrupted int limit id pending [] [] true nextChains := kept
            simpa [few, List.drop_eq_nil_of_le few] using none
        · cases goesOn

theorem brokenDrain_eq {calls : ℕ}
    (interrupted : Interrupted int limit id pending left right leftLive chains)
    (refines : store.Refines chains)
    (breaks : brokenDrain calls id store = some (handed, broken)) :
    handedOut handed = (brokenOff limit left right calls).1.map Queued.msg ∧
      ∃ kept, broken.Refines kept ∧
        Interrupted int limit id pending (brokenOff limit left right calls).2.1 []
          (brokenOff limit left right calls).2.2 kept := by
  by_cases none : right.length = 0
  · have noRight : right = [] := List.length_eq_zero_iff.mp none
    subst noRight
    rcases interrupted.brokenDrain_single refines breaks with ⟨msgs, kept⟩
    have some_call : limit ≤ calls * limit := by
      cases calls with
      | zero => cases breaks
      | succ calls => exact Nat.le_mul_of_pos_left limit (Nat.succ_pos calls)
    unfold brokenOff
    split
    · rename_i fits
      have few : left.length ≤ calls * limit := by
        simp only [List.take_nil, List.length_nil] at fits
        omega
      rw [List.take_of_length_le few] at msgs
      rw [List.drop_eq_nil_of_le few, decide_eq_true few] at kept
      exact ⟨by simpa using msgs, kept⟩
    · exact ⟨msgs, kept⟩
  · cases calls with
    | zero => cases breaks
    | succ calls =>
        simp only [brokenDrain, Option.bind_eq_bind, Option.bind_eq_some_iff] at breaks
        rcases breaks with ⟨⟨retrieved, next⟩, result, goesOn⟩
        have leftPacked := interrupted.packed (ChainStore.inSpace id).1
        have rightPacked := interrupted.packed (ChainStore.inSpace id).2
        rcases interrupted.step refines result with
          ⟨pendingFl, cut, rest, nextChains, isSplit, isCut, nextRefines, kept⟩
        unfold brokenOff
        split
        · rename_i fits
          have all := ChainStore.Limited.split_all interrupted.range leftPacked rightPacked (by
            rwa [interrupted.leftContents, interrupted.rightContents])
          rw [isSplit] at all
          cases all
          have pendingFl : retrieved.pendingFl = false := by rw [isCut, Cut.retrieved_pendingFl]
          simp only [pendingFl, Bool.false_eq_true, if_false] at goesOn
          split at goesOn
          · split at goesOn <;> cases goesOn
            rw [interrupted.leftContents, interrupted.rightContents] at isCut
            have printed := interrupted.printed_of_le
              { groups := 2, msgs := left ++ right.take limit }
              (by rwa [List.length_append]) false
            rw [← isCut] at printed
            exact ⟨by simp [handedOut, printed], nextChains, nextRefines, kept⟩
          · cases goesOn
        · rename_i apart
          have some_msg : right ≠ [] := fun empty => none (by simp [empty])
          have isOther := ChainStore.Limited.split_apart interrupted.limited interrupted.range
            leftPacked rightPacked (interrupted.rightContents ▸ some_msg) (by
              rw [interrupted.leftContents, interrupted.rightContents]
              exact Nat.lt_of_not_le apart)
          rw [isSplit] at isOther
          split at isOther
          · cases isOther
            rw [interrupted.leftContents] at isCut
            rw [interrupted.rightContents, interrupted.othersLive _ (ChainStore.inSpace_ne id).symm]
              at kept
            have printed := interrupted.printed_of_le
              { groups := 1, msgs := left.take limit } (List.length_take_le ..) true
            rw [← isCut] at printed
            have pendingFl : retrieved.pendingFl = true := by rw [isCut, Cut.retrieved_pendingFl]
            simp only [pendingFl, if_true] at goesOn
            split at goesOn
            · -- The right chain has just been put in the left one's place.
              rename_i isLast
              subst isLast
              split at goesOn <;> cases goesOn
              exact ⟨by simp [handedOut, printed], nextChains, nextRefines, by simpa using kept⟩
            · rename_i more
              simp only [Option.bind_eq_some_iff] at goesOn
              rcases goesOn with ⟨⟨later, final⟩, rest, isResult⟩
              cases isResult
              rcases kept.brokenDrain_single nextRefines rest with
                ⟨laterMsgs, final, finalRefines, finalKept⟩
              refine ⟨?_, final, finalRefines, ?_⟩
              · rw [handedOut, List.flatMap_cons, printed, ← handedOut, laterMsgs]
                simp
              · simpa [more] using finalKept
          · rename_i off
            split at isOther
            · -- The count that wraps around is negative: nothing is sent, so no send fails.
              rename_i small
              rw [interrupted.leftContents] at small
              rw [interrupted.leftContents, interrupted.rightContents, Nat.min_eq_left small] at off
              cases isOther
              rw [interrupted.leftContents, interrupted.rightContents] at isCut
              have negative : retrieved.totalMsg < 0 := by
                rw [isCut, Cut.retrieved_totalMsg]
                exact hold_wrappedCut interrupted.range ⟨small, off⟩
              have pendingFl : retrieved.pendingFl = false := by
                rw [isCut, Cut.retrieved_pendingFl]
              have unsent : ¬retrieved.totalMsg > 0 := by omega
              simp [pendingFl, unsent] at goesOn
            · cases isOther

end Break

end Interrupted

section Later

variable [Message α] {int : IntReading} {limit : ℕ} {id : MsgLocationId}

omit [Message α] in
theorem inSpace_apart {other : MsgLocationId}
    (apart : ChainStore.inSpace other ≠ ChainStore.inSpace id) :
    ((ChainStore.inSpace id).1 ≠ (ChainStore.inSpace other).1 ∧
      (ChainStore.inSpace id).1 ≠ (ChainStore.inSpace other).2) ∧
    (ChainStore.inSpace id).2 ≠ (ChainStore.inSpace other).1 ∧
      (ChainStore.inSpace id).2 ≠ (ChainStore.inSpace other).2 := by
  unfold ChainStore.inSpace at apart ⊢
  split at apart <;> split at apart <;> simp_all

omit [Message α] in
/-- What is queued while the space is not drained comes behind what is there. -/
theorem foldl_pendingAfter {name : HolderName} {later : List (StoreOp α)}
    (elsewhere : ∀ op ∈ later, op.Elsewhere id)
    (here : name = (ChainStore.inSpace id).1 ∨ name = (ChainStore.inSpace id).2)
    (pending : HolderName → List (Queued α)) :
    later.foldl pendingAfter pending name = pending name ++ pendingOf later name := by
  induction later generalizing pending with
  | nil => simp [pendingOf]
  | cons op later ih =>
      rw [List.forall_mem_cons] at elsewhere
      rw [pendingOf, List.foldl_cons, List.foldl_cons, ih elsewhere.2,
        ih elsewhere.2 (pendingAfter _ op), ← List.append_assoc]
      congr 1
      cases op with
      | queue location msg msgSize =>
          rcases eq_or_ne name (getMsgGroupHolder location) with rfl | different
          · simp [pendingAfter]
          · simp [pendingAfter, different]
      | drain other =>
          have names := inSpace_apart elsewhere.1
          rcases here with rfl | rfl
          · simp [pendingAfter, names.1.1, names.1.2]
          · simp [pendingAfter, names.2.1, names.2.2]

/-- Operations elsewhere can be run where nothing is queued to a dead left entry. -/
theorem canRun_elsewhere {later : List (StoreOp α)} (elsewhere : ∀ op ∈ later, op.Elsewhere id)
    {pending other : HolderName → List (Queued α)} {live : HolderName → Bool}
    (othersLive : ∀ name, name ≠ (ChainStore.inSpace id).1 → live name = true)
    (same : ∀ name, name ≠ (ChainStore.inSpace id).1 → name ≠ (ChainStore.inSpace id).2 →
      pending name = other name) :
    CanRun int limit pending live later ↔
      (live (ChainStore.inSpace id).1 = true ∨ pendingOf later (ChainStore.inSpace id).1 = []) ∧
        CanRun int limit other (fun _ => true) later := by
  induction later generalizing pending other live with
  | nil => simp [CanRun, pendingOf]
  | cons op later ih =>
      rw [List.forall_mem_cons] at elsewhere
      have queued : pendingOf (op :: later) (ChainStore.inSpace id).1 =
          pendingAfter (fun _ => []) op (ChainStore.inSpace id).1 ++
            pendingOf later (ChainStore.inSpace id).1 :=
        foldl_pendingAfter elsewhere.2 (Or.inl rfl) _
      rw [queued]
      cases op with
      | queue location msg msgSize =>
          have sameAfter : ∀ name, name ≠ (ChainStore.inSpace id).1 →
              name ≠ (ChainStore.inSpace id).2 →
              pendingAfter pending (.queue location msg msgSize) name =
                pendingAfter other (.queue location msg msgSize) name := by
            intro name notLeft notRight
            rcases eq_or_ne name (getMsgGroupHolder location) with rfl | different
            · simp [pendingAfter, same _ notLeft notRight]
            · simp [pendingAfter, different, same _ notLeft notRight]
          rw [CanRun, CanRun, ih elsewhere.2 othersLive sameAfter]
          by_cases isLeft : getMsgGroupHolder location = (ChainStore.inSpace id).1
          · simp only [pendingAfter, isLeft, Function.update_self, List.nil_append,
              List.singleton_append, List.cons_ne_nil, or_false, true_and]
            exact ⟨fun runs => ⟨runs.1, runs.2.2⟩, fun runs => ⟨runs.1, Or.inl runs.1, runs.2⟩⟩
          · simp only [pendingAfter, Function.update_of_ne (Ne.symm isLeft), List.nil_append,
              othersLive _ isLeft, true_and]
      | drain space =>
          have names := inSpace_apart elsewhere.1
          have allLive : Function.update (Function.update (fun _ => true)
              (ChainStore.inSpace space).1 true) (ChainStore.inSpace space).2 true =
              fun _ => true := by
            funext name
            simp [Function.update_apply]
          have afterLive : ∀ name, name ≠ (ChainStore.inSpace id).1 →
              Function.update (Function.update live (ChainStore.inSpace space).1 true)
                (ChainStore.inSpace space).2 true name = true := by
            intro name notLeft
            simp [Function.update_apply, othersLive name notLeft]
          have sameAfter : ∀ name, name ≠ (ChainStore.inSpace id).1 →
              name ≠ (ChainStore.inSpace id).2 →
              pendingAfter pending (.drain space) name =
                pendingAfter other (.drain space) name := by
            intro name notLeft notRight
            simp [pendingAfter, Function.update_apply, same name notLeft notRight]
          rw [CanRun, CanRun, ih elsewhere.2 afterLive sameAfter, allLive,
            same _ names.1.1.symm names.2.1.symm, same _ names.1.2.symm names.2.2.symm]
          simp only [pendingAfter, Function.update_of_ne names.1.1, Function.update_of_ne names.1.2,
            List.nil_append]
          exact and_left_comm

end Later

section Usable

variable [Message α] {store broken : Store α} {handed : List (Retrieved α)}

/--
A send fails after `calls` retrieves of a drain, which may come after any history.
The messages queued later are then stored, and the next drain of the space hands out these
and what the broken one did not, exactly if `StaysUsable` holds, the drains of the other
space end, and the counts and sizes of the next drain fit.
-/
theorem brokenDrain_usable_iff (socketMsgLimit : ℤ) (limited : 0 < socketMsgLimit)
    (small : socketMsgLimit < 2 ^ 31) (history : List (StoreOp α)) (id : MsgLocationId)
    (calls : ℕ) (ran : runFrom applyOp (onInitialize socketMsgLimit) history = some store)
    (breaks : brokenDrain calls id store = some (handed, broken)) (later : List (StoreOp α))
    (elsewhere : ∀ op ∈ later, op.Elsewhere id) :
    let limit := socketMsgLimit.toNat
    let left := pendingOf history (ChainStore.inSpace id).1
    let right := pendingOf history (ChainStore.inSpace id).2
    let newLeft := pendingOf later (ChainStore.inSpace id).1
    let newRight := pendingOf later (ChainStore.inSpace id).2
    let waiting := (brokenOff limit left right calls).2.1 ++ newLeft
    (∃ queued retrieved next, runFrom applyOp broken later = some queued ∧
      HeapScan.drain queued id = some (retrieved, next) ∧
      (handedOut handed ++ handedOut retrieved).Perm
        ((left ++ right ++ (newLeft ++ newRight)).map Queued.msg)) ↔
      StaysUsable limit left.length right.length calls newLeft.length newRight.length ∧
        CanRun .bits32 limit (pendingOf history) (fun _ => true) later ∧
        CountsFit .bits32 limit waiting.length newRight.length ∧
        ∀ cut ∈ cutsOf limit waiting newRight, cut.Printable .bits32 := by
  intro limit left right newLeft newRight waiting
  have range := (IntReading.keeps_bits32_iff socketMsgLimit).mpr ⟨by omega, small⟩
  rcases history_settled limited range ran with ⟨chains, refines, settled⟩
  have start : Interrupted .bits32 limit id (pendingOf history) left right true chains :=
    Interrupted.of_settled settled
  rcases start.brokenDrain_eq refines breaks with ⟨msgs, kept, brokenRefines, interrupted⟩
  have some_call : 0 < calls := by
    cases calls with
    | zero => cases breaks
    | succ calls => exact Nat.succ_pos calls
  have whole := length_brokenOff limit calls left right
  have runs_iff := interrupted.held.run_iff brokenRefines later
  rw [canRun_elsewhere elsewhere interrupted.othersLive interrupted.others,
    interrupted.leftTail] at runs_iff
  -- What the next drain finds, once the later operations have been run.
  have found : ∀ queued, runFrom applyOp broken later = some queued →
      ∃ live queuedChains, queued.Refines queuedChains ∧
        Held .bits32 limit (later.foldl pendingAfter fun name => (kept.chain name).contents) live
          queuedChains := fun queued ranLater => interrupted.held.of_run brokenRefines ranLater
  have leftFound := foldl_pendingAfter elsewhere (Or.inl rfl)
    (fun name => (kept.chain name).contents)
  have rightFound := foldl_pendingAfter elsewhere (Or.inr rfl)
    (fun name => (kept.chain name).contents)
  rw [interrupted.leftContents] at leftFound
  rw [interrupted.rightContents, List.nil_append] at rightFound
  have nextWhole := length_drainedMsgs limit waiting newRight
  have waitingLength : waiting.length =
      (brokenOff limit left right calls).2.1.length + newLeft.length := List.length_append
  rw [waitingLength] at nextWhole
  constructor
  · rintro ⟨queued, retrieved, next, ranLater, drains, perm⟩
    rcases runs_iff.mp ⟨queued, ranLater⟩ with ⟨usable, canRun⟩
    rcases found queued ranLater with ⟨live, queuedChains, queuedRefines, held⟩
    have lengths := perm.length_eq
    rw [msgs] at lengths
    simp only [List.length_append, List.length_map] at lengths
    rcases (held.drain_cases queuedRefines id drains).2 with
      ⟨wraps, isRetrieved⟩ | ⟨⟨counts, printable⟩, isRetrieved⟩
    · -- Nothing is handed out, but the entries are not empty.
      have dropped := handedOut_wrapped held.range wraps
      rw [← isRetrieved, leftFound, rightFound] at dropped
      have some_msg : 0 < waiting.length + newRight.length := dropped.2
      rw [dropped.1, List.length_nil] at lengths
      omega
    · rw [leftFound, rightFound] at counts printable isRetrieved
      have all := (retrievedOf_cutsOf held.limited held.range waiting newRight).1
      rw [← isRetrieved] at all
      rw [all, List.length_map] at lengths
      -- Neither drain hands out more than it finds, so neither loses anything.
      have drainable := whole.2.mp (by omega)
      rcases brokenOff_left some_call drainable with ⟨remaining, isLive⟩
      refine ⟨⟨drainable, ?_, remaining ▸ nextWhole.2.mp (by omega)⟩, canRun, counts, printable⟩
      rw [← or_assoc, ← isLive, List.length_eq_zero_iff]
      exact usable
  · rintro ⟨⟨drainable, stays, nextDrainable⟩, canRun, counts, printable⟩
    rcases brokenOff_left some_call drainable with ⟨remaining, isLive⟩
    rw [← or_assoc, ← isLive, List.length_eq_zero_iff] at stays
    rcases runs_iff.mpr ⟨stays, canRun⟩ with ⟨queued, ranLater⟩
    rcases found queued ranLater with ⟨live, queuedChains, queuedRefines, held⟩
    have drain := held.drain queuedRefines id
    rw [leftFound, rightFound] at drain
    rcases drain counts printable with ⟨next, drained, -⟩
    refine ⟨queued, _, next, ranLater, drained, ?_⟩
    rw [← remaining, ← waitingLength] at nextDrainable
    rw [msgs, (retrievedOf_cutsOf held.limited held.range waiting newRight).1,
      drainedMsgs_eq nextDrainable, ← List.map_append, ← brokenOff_eq drainable]
    refine List.Perm.map _ ?_
    simp only [waiting, List.append_assoc]
    exact List.Perm.refl _

/-- The left entry's one message was sent in vain, and the right chain has taken its place. -/
theorem brokenDrain_usable_right_first :
    let history : List (StoreOp Text) :=
      [.queue (leftSpace + leftEntry) ['a'] 2, .queue (leftSpace + rightEntry) ['b'] 2]
    let later : List (StoreOp Text) := [.queue (leftSpace + leftEntry) ['c'] 2]
    ∃ store handed broken, runFrom applyOp (onInitialize 1) history = some store ∧
      brokenDrain 1 leftSpace store = some (handed, broken) ∧
      ∃ queued retrieved next, runFrom applyOp broken later = some queued ∧
        HeapScan.drain queued leftSpace = some (retrieved, next) ∧
        (handedOut handed ++ handedOut retrieved).Perm [['a'], ['b'], ['c']] := by
  intro history later
  have runs : (runFrom applyOp (onInitialize 1) history).any fun store =>
      (brokenDrain 1 leftSpace store).isSome := by rfl
  rcases (Option.any_eq_true _ _).mp runs with ⟨store, ran, broke⟩
  rcases Option.isSome_iff_exists.mp broke with ⟨⟨handed, broken⟩, breaks⟩
  refine ⟨store, handed, broken, ran, breaks, ?_⟩
  exact (brokenDrain_usable_iff 1 (by decide) (by decide) history leftSpace 1 ran breaks later
    (fun op listed => by rw [List.mem_singleton.mp listed]; trivial)).mpr
    ⟨by decide, ⟨rfl, trivial⟩, by decide, by decide⟩

/-- Two groups wait and the first send fails: the next message queued is lost in freed memory. -/
theorem send_error_frees_current_group :
    let history : List (StoreOp Text) :=
      [.queue (leftSpace + leftEntry) ['a'] 2, .queue (leftSpace + leftEntry) ['b'] 2]
    let later : List (StoreOp Text) := [.queue (leftSpace + leftEntry) ['c'] 2]
    ∃ store handed broken, runFrom applyOp (onInitialize 1) history = some store ∧
      brokenDrain 1 leftSpace store = some (handed, broken) ∧
      handedOut handed = [['a']] ∧ runFrom applyOp broken later = none ∧
      ¬∃ queued retrieved next, runFrom applyOp broken later = some queued ∧
        HeapScan.drain queued leftSpace = some (retrieved, next) ∧
        (handedOut handed ++ handedOut retrieved).Perm [['a'], ['b'], ['c']] := by
  intro history later
  have runs : (runFrom applyOp (onInitialize 1) history).any fun store =>
      (brokenDrain 1 leftSpace store).any fun broke =>
        handedOut broke.1 == [['a']] && (runFrom applyOp broke.2 later).isNone := by rfl
  rcases (Option.any_eq_true _ _).mp runs with ⟨store, ran, broke⟩
  rcases (Option.any_eq_true _ _).mp broke with ⟨⟨handed, broken⟩, breaks, failed⟩
  rw [Bool.and_eq_true, beq_iff_eq, Option.isNone_iff_eq_none] at failed
  refine ⟨store, handed, broken, ran, breaks, failed.1, failed.2, ?_⟩
  rintro ⟨queued, retrieved, next, ranLater, -⟩
  rw [failed.2] at ranLater
  cases ranLater

end Usable

end HeapScan
