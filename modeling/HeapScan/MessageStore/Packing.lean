import HeapScan.MessageStore.Chains

/-!
# Packed chains

With a limit, queueing packs a chain: every group but the last one is full and
none holds more than the limit.  The messages of a packed chain determine its
groups, so what a retrieve does can be said of the messages alone.
-/

namespace HeapScan

open TwosComplement

variable {α : Type}

/-- A chain as queueing builds it: filled groups, none above the limit. -/
structure Packed (splitSz : ℕ) (chain : Chain α) : Prop where
  filled : Chain.Filled splitSz chain.first chain.later
  bounded : ∀ group ∈ chain.groups, group.length ≤ splitSz

theorem Packed.fresh (splitSz : ℕ) : Packed splitSz (.fresh : Chain α) where
  filled := trivial
  bounded group listed := by
    simp only [Chain.groups, Chain.fresh, List.mem_singleton] at listed
    simp [listed]

theorem Packed.drop_first {splitSz : ℕ} {first next : List α} {later : List (List α)}
    {tailLive tailLive' : Bool}
    (packed : Packed splitSz { first, later := next :: later, tailLive }) :
    Packed splitSz { first := next, later, tailLive := tailLive' } where
  filled := packed.filled.2.2
  bounded group listed := packed.bounded group (List.mem_cons_of_mem _ listed)

/-- A packed chain of several groups holds more than one group's worth of messages. -/
theorem Packed.length_le_iff {splitSz : ℕ} {chain : Chain α} (packed : Packed splitSz chain) :
    chain.contents.length ≤ splitSz ↔ chain.later = [] := by
  rcases chain with ⟨first, later, tailLive⟩
  have bound := packed.bounded first (List.mem_cons_self ..)
  cases later with
  | nil => simpa [Chain.contents, Chain.groups] using bound
  | cons next later =>
      have full : splitSz ≤ first.length := packed.filled.1
      have some_msg := List.length_pos_of_ne_nil packed.filled.2.1
      simp only [Chain.contents, Chain.groups, List.flatten_cons, List.length_append,
        List.cons_ne_nil, iff_false, Nat.not_le]
      omega

/-- The first group of a packed chain takes as many messages as the limit allows. -/
theorem Packed.first_eq {splitSz : ℕ} {chain : Chain α} (packed : Packed splitSz chain) :
    chain.first = chain.contents.take splitSz := by
  rcases chain with ⟨first, later, tailLive⟩
  have bound := packed.bounded first (List.mem_cons_self ..)
  cases later with
  | nil => simp [Chain.contents, Chain.groups, List.take_of_length_le bound]
  | cons next later =>
      have full : first.length = splitSz := Nat.le_antisymm bound packed.filled.1
      simp [Chain.contents, Chain.groups, ← full]

theorem Packed.later_flatten {splitSz : ℕ} {chain : Chain α} (packed : Packed splitSz chain) :
    chain.later.flatten = chain.contents.drop splitSz := by
  have all : chain.contents.take splitSz ++ chain.later.flatten = chain.contents := by
    rw [← packed.first_eq]
    rfl
  exact List.append_cancel_left (all.trans (List.take_append_drop splitSz _).symm)

/-- The messages in groups of `limit`, the last one with what is left. -/
def blocks (limit : ℕ) (msgs : List α) : List (List α) :=
  (List.range ((msgs.length + limit - 1) / limit)).map fun group =>
    (msgs.drop (group * limit)).take limit

section Blocks

variable {limit : ℕ} {msgs : List α}

theorem blocks_of_le (some_msg : msgs ≠ []) (few : msgs.length ≤ limit) :
    blocks limit msgs = [msgs] := by
  have pos := List.length_pos_of_ne_nil some_msg
  have one : (msgs.length + limit - 1) / limit = 1 :=
    Nat.div_eq_of_lt_le (by omega) (by omega)
  simp [blocks, one, List.take_of_length_le few]

/-- A full group, and the blocks of the other messages. -/
theorem blocks_of_lt (limited : 0 < limit) (many : limit < msgs.length) :
    blocks limit msgs = msgs.take limit :: blocks limit (msgs.drop limit) := by
  have count : (msgs.length + limit - 1) / limit =
      ((msgs.drop limit).length + limit - 1) / limit + 1 := by
    rw [List.length_drop, ← Nat.add_div_right _ limited]
    congr 1
    omega
  rw [blocks, count, List.range_succ_eq_map, List.map_cons, List.map_map, blocks]
  congr 1
  · simp
  · refine List.map_congr_left fun group _ => ?_
    simp only [Function.comp_apply, Nat.succ_eq_add_one, List.drop_drop, Nat.succ_mul,
      Nat.add_comm]

theorem blocks_flatten (limited : 0 < limit) (msgs : List α) :
    (blocks limit msgs).flatten = msgs := by
  induction size : msgs.length using Nat.strong_induction_on generalizing msgs with
  | h size ih =>
      rcases eq_or_ne msgs [] with rfl | some_msg
      · have none : (limit - 1) / limit = 0 := Nat.div_eq_of_lt (by omega)
        simp [blocks, none]
      · by_cases few : msgs.length ≤ limit
        · simp [blocks_of_le some_msg few]
        · rw [blocks_of_lt limited (by omega), List.flatten_cons,
            ih _ (by rw [List.length_drop]; omega) (msgs.drop limit) rfl, List.take_append_drop]

theorem length_blocks_le {groups : ℕ} (limited : 0 < limit) (few : msgs.length ≤ groups * limit) :
    (blocks limit msgs).length ≤ groups := by
  rw [blocks, List.length_map, List.length_range]
  refine Nat.le_of_lt_succ ((Nat.div_lt_iff_lt_mul limited).mpr ?_)
  rw [Nat.succ_mul]
  omega

theorem length_le_of_mem_blocks {block : List α} (listed : block ∈ blocks limit msgs) :
    block.length ≤ limit := by
  rcases List.mem_map.mp listed with ⟨group, -, rfl⟩
  exact List.length_take_le ..

end Blocks

/-- The groups of a packed chain have room for its messages. -/
theorem Packed.length_le {splitSz : ℕ} {chain : Chain α} (packed : Packed splitSz chain) :
    chain.contents.length ≤ chain.groups.length * splitSz := by
  have bounded := packed.bounded
  unfold Chain.contents
  generalize chain.groups = groups at *
  induction groups with
  | nil => simp
  | cons group groups ih =>
      rw [List.forall_mem_cons] at bounded
      have rest := ih bounded.2
      rw [List.flatten_cons, List.length_append, List.length_cons, Nat.succ_mul]
      omega

namespace ChainStore

/-- The store with both holders of a space as they were initialised. -/
def drained (store : ChainStore α) (id : MsgLocationId) : ChainStore α :=
  (store.setChain (inSpace id).1 .fresh).setChain (inSpace id).2 .fresh

/-- Where nothing is pending the left holder is initialised. -/
theorem split_last {fits : ℕ → Bool} {left right rest : Chain α} {cut : Cut α}
    (last : split fits left right = some (false, cut, rest)) : rest = .fresh := by
  rcases split_eq_some last with
    ⟨-, -, -, -, isFresh⟩ | ⟨_, _, -, -, -, goesOn, -⟩ | ⟨-, goesOn, -⟩
  · exact isFresh
  · cases goesOn
  · cases goesOn

/-- A retrieve after which nothing is pending leaves the space drained. -/
theorem retrieve_last {store next : ChainStore α} {id : MsgLocationId} {cut : Cut α}
    (last : store.retrieve id = some (false, cut, next)) : next = store.drained id := by
  rcases retrieve_eq_some last with ⟨rest, isSplit, rfl⟩
  rw [split_last isSplit, drained]

theorem drained_setSpace (store : ChainStore α) (id : MsgLocationId) (rest : Chain α) :
    ((store.setChain (inSpace id).1 rest).setChain (inSpace id).2 .fresh).drained id =
      store.drained id := by
  have different := inSpace_ne id
  unfold drained setChain
  congr 1
  funext name
  by_cases isRight : name = (inSpace id).2
  · simp [isRight]
  · by_cases isLeft : name = (inSpace id).1
    · simp [isLeft, different]
    · simp [isRight, isLeft]

theorem WellFormed.drained {store : ChainStore α} (wellFormed : store.WellFormed)
    (id : MsgLocationId) : (store.drained id).WellFormed :=
  wellFormed.setSpace id trivial (fun _ => by simp [Chain.fresh, Chain.groups]) fun _ => rfl

end ChainStore

/-- The chains of a split store at any point of a drain. -/
structure ChainStore.Limited (int : IntReading) (limit : ℕ) (chains : ChainStore α) : Prop where
  limited : 0 < limit
  range : int.Keeps limit
  isToBeSplit : chains.isToBeSplit = true
  splitSz : chains.splitSz = limit
  sameInt : chains.int = int
  packed : ∀ name, Packed limit (chains.chain name)

/--
The counts at which a drain of `left` and `right` messages compares with the limit are those
of the messages.  The first one is that of the two first groups, or of two groups of the
left entry where the right one is empty; the largest after it is that of two groups of the
right entry.
-/
def CountsFit (int : IntReading) (limit left right : ℕ) : Prop :=
  if right = 0 then int.Keeps (min left (2 * limit) : ℕ)
  else int.Keeps (min left limit + min right limit : ℕ) ∧
    (min left limit + min right limit ≤ limit ∨ int.Keeps (min right (2 * limit) : ℕ))

/--
The one group of the left entry and the first of the right one have more messages together
than an `int` counts.
-/
def CountsWrap (int : IntReading) (limit left right : ℕ) : Prop :=
  left ≤ limit ∧ ¬int.Keeps (left + min right limit : ℕ)

section Fits

variable {int : IntReading} {limit count : ℕ}

/-- Of up to three full groups, the counts within the limit fit and those that wrap around. -/
theorem fitsIn_eq (range : int.Keeps limit) (few : count ≤ 3 * limit) :
    fitsIn int limit count = decide (count ≤ limit ∨ ¬int.Keeps count) := by
  rw [fitsIn, decide_eq_decide]
  by_cases kept : int.Keeps count
  · rw [show int.hold count = count from kept]
    simp only [kept, not_true_eq_false, or_false]
    omega
  · have small : (limit : ℤ) < 2 ^ 31 := by
      cases int
      · rw [IntReading.keeps_bits32_iff] at range
        exact range.2
      · exact absurd (IntReading.keeps_exact _) kept
    rw [IntReading.hold_of_not_keeps kept (Int.natCast_nonneg _) (by omega)]
    simp only [kept, not_false_eq_true, or_true, iff_true]
    omega

theorem keeps_of_le (range : int.Keeps limit) (within : count ≤ limit) : int.Keeps count :=
  range.of_le (Int.natCast_nonneg _) (Int.ofNat_le.mpr within)

end Fits

namespace ChainStore.Limited

variable {int : IntReading} {limit : ℕ} {chains : ChainStore α}

theorem wellFormed (limited : chains.Limited int limit) : chains.WellFormed where
  filled name := limited.splitSz ▸ (limited.packed name).filled
  bounded _ name := limited.splitSz ▸ (limited.packed name).bounded
  unsplit unsplit := by
    rw [limited.isToBeSplit] at unsplit
    cases unsplit
  splitPos _ := limited.splitSz ▸ limited.limited
  range := limited.splitSz ▸ limited.sameInt ▸ limited.range

section Split

variable {left right rest : Chain α} (limited : 0 < limit)
  (range : int.Keeps limit) (leftPacked : Packed limit left) (rightPacked : Packed limit right)

include leftPacked rightPacked in
/-- The left chain that a retrieve leaves is packed. -/
theorem packed_split {fits : ℕ → Bool} {pendingFl : Bool} {cut : Cut α}
    (isSplit : split fits left right = some (pendingFl, cut, rest)) : Packed limit rest := by
  rcases split_eq_some isSplit with
    ⟨-, -, -, -, rfl⟩ | ⟨next, later, -, goesOn, -, -, -, rfl⟩ | ⟨-, -, -, rfl⟩
  · exact Packed.fresh limit
  · rcases left with ⟨first, _, tailLive⟩
    subst goesOn
    exact leftPacked.drop_first
  · exact rightPacked

include range leftPacked rightPacked

/-- What fits into one chunk is handed out, and nothing is pending. -/
theorem split_all
    (fits : left.contents.length + (right.contents.take limit).length ≤ limit) :
    split (fitsIn int limit) left right =
      some (false, { groups := 2, msgs := left.contents ++ right.contents.take limit },
        .fresh) := by
  have single : left.later = [] := leftPacked.length_le_iff.mp (by omega)
  have isFirst : left.first = left.contents := by simp [Chain.contents, Chain.groups, single]
  have together : fitsIn int limit (left.contents.length + (right.contents.take limit).length) =
      true := by
    rw [fitsIn_eq range (by omega)]
    exact decide_eq_true (Or.inl fits)
  simp only [split, isFirst, rightPacked.first_eq, together, if_true, single]

include limited

/--
With the right entry empty a full group goes, and the current group is freed.  Two groups
that are more than an `int` counts seem to fit, and there is no result.
-/
theorem split_first (many : limit < left.contents.length) (noRight : right.contents = []) :
    ∃ rest : Chain α, rest.contents = left.contents.drop limit ∧ rest.tailLive = false ∧
      split (fitsIn int limit) left right =
        if int.Keeps (min left.contents.length (2 * limit) : ℕ) then
          some (true, { groups := 2, msgs := left.contents.take limit }, rest)
        else none := by
  have noFirst : right.first = [] := by simp [rightPacked.first_eq, noRight]
  have firstEq := leftPacked.first_eq
  have laterEq := leftPacked.later_flatten
  have single := mt leftPacked.length_le_iff.mpr
  rcases left with ⟨first, later, tailLive⟩
  cases later with
  | nil => exact absurd rfl (single (Nat.not_le_of_lt many))
  | cons next later =>
      have nextPacked : Packed limit { first := next, later, tailLive } := leftPacked.drop_first
      have nextEq := congrArg List.length nextPacked.first_eq
      have nextContents : (Chain.mk next later tailLive).contents =
          (Chain.mk first (next :: later) tailLive).contents.drop limit := laterEq
      rw [nextContents, List.length_take, List.length_drop] at nextEq
      have firstLength := congrArg List.length firstEq
      rw [List.length_take] at firstLength
      refine ⟨{ first := next, later, tailLive := false }, laterEq, rfl, ?_⟩
      rw [← firstEq]
      generalize (Chain.mk first (next :: later) tailLive).contents.length = size at *
      dsimp only at nextEq firstLength
      have together : fitsIn int limit (first.length + 0) = true := by
        rw [fitsIn_eq range (by omega)]
        simp only [decide_eq_true_eq]
        omega
      have sum : first.length + 0 + next.length = min size (2 * limit) := by omega
      have again : fitsIn int limit (min size (2 * limit)) =
          decide ¬int.Keeps (min size (2 * limit) : ℕ) := by
        rw [fitsIn_eq range (by omega), decide_eq_decide]
        exact or_iff_right (by omega)
      simp only [split, noFirst, List.length_nil, together, if_true, List.append_nil, sum, again]
      simp

/--
A first group that does not fit with the right one goes alone, and the right chain is next.
Where the two are more than an `int` counts they seem to fit.
-/
theorem split_apart (some_msg : right.contents ≠ [])
    (apart : limit < left.contents.length + (right.contents.take limit).length) :
    split (fitsIn int limit) left right =
      if int.Keeps (min left.contents.length limit + min right.contents.length limit : ℕ) then
        some (true, { groups := 1, msgs := left.contents.take limit }, right)
      else if left.contents.length ≤ limit then
        some (false, { groups := 2, msgs := left.contents ++ right.contents.take limit }, .fresh)
      else none := by
  have rightPos := List.length_pos_of_ne_nil some_msg
  have firstEq := leftPacked.first_eq
  have secondEq := rightPacked.first_eq
  have firstLength := congrArg List.length firstEq
  have secondLength := congrArg List.length secondEq
  have single := leftPacked.length_le_iff
  have laterEq := leftPacked.later_flatten
  rw [List.length_take] at apart firstLength secondLength
  rw [Nat.min_comm] at firstLength secondLength
  have tooMany : fitsIn int limit (left.first.length + right.first.length) = decide
      ¬int.Keeps (min left.contents.length limit + min right.contents.length limit : ℕ) := by
    rw [fitsIn_eq range (by omega), decide_eq_decide, firstLength, secondLength]
    exact or_iff_right (by omega)
  by_cases kept :
      int.Keeps (min left.contents.length limit + min right.contents.length limit : ℕ)
  · have alone : fitsIn int limit (left.first.length + right.first.length) = false :=
      tooMany.trans (decide_eq_false (not_not_intro kept))
    rw [split, if_neg (ne_true_of_eq_false alone), if_pos kept, ← firstEq]
  · rw [if_neg kept]
    have together : fitsIn int limit (left.first.length + right.first.length) = true :=
      tooMany.trans (decide_eq_true kept)
    simp only [split, together, if_true, single, ← secondEq]
    rcases left with ⟨first, later, tailLive⟩
    cases later with
    | nil => simp [Chain.contents, Chain.groups]
    | cons next later =>
        have nextBound := leftPacked.bounded next (by simp [Chain.groups])
        dsimp only at firstLength ⊢
        have again : fitsIn int limit (first.length + right.first.length + next.length) =
            true := by
          rw [fitsIn_eq range (by omega)]
          refine decide_eq_true (Or.inr fun more => kept ?_)
          exact more.of_le (Int.natCast_nonneg _) (by omega)
        simp [again]

end Split

end ChainStore.Limited

/-- Packed chains with the messages `pending`; `live` tells which holders can be queued to. -/
structure Held (int : IntReading) (limit : ℕ) (pending : HolderName → List α)
    (live : HolderName → Bool) (chains : ChainStore α) : Prop extends
    chains.Limited int limit where
  contents : ∀ name, (chains.chain name).contents = pending name
  tailLive : ∀ name, (chains.chain name).tailLive = live name

namespace Held

variable {int : IntReading} {limit : ℕ} {pending : HolderName → List α}
  {live : HolderName → Bool} {chains : ChainStore α}

/-- The left chain of a space is replaced and the right one is initialised. -/
theorem setSpace (held : Held int limit pending live chains) (id : MsgLocationId) {left : Chain α}
    (packed : Packed limit left) :
    Held int limit
      (Function.update (Function.update pending (ChainStore.inSpace id).1 left.contents)
        (ChainStore.inSpace id).2 [])
      (Function.update (Function.update live (ChainStore.inSpace id).1 left.tailLive)
        (ChainStore.inSpace id).2 true)
      ((chains.setChain (ChainStore.inSpace id).1 left).setChain
        (ChainStore.inSpace id).2 .fresh) := by
  have each : ∀ name,
      let chain := ((chains.setChain (ChainStore.inSpace id).1 left).setChain
        (ChainStore.inSpace id).2 .fresh).chain name
      Packed limit chain ∧
        chain.contents = Function.update
          (Function.update pending (ChainStore.inSpace id).1 left.contents)
          (ChainStore.inSpace id).2 [] name ∧
        chain.tailLive = Function.update
          (Function.update live (ChainStore.inSpace id).1 left.tailLive)
          (ChainStore.inSpace id).2 true name := by
    intro name
    by_cases isRight : name = (ChainStore.inSpace id).2
    · subst isRight
      simp only [ChainStore.setChain, Function.update_self]
      exact ⟨Packed.fresh limit, rfl, rfl⟩
    · by_cases isLeft : name = (ChainStore.inSpace id).1
      · subst isLeft
        simp only [ChainStore.setChain, Function.update_of_ne isRight, Function.update_self]
        exact ⟨packed, trivial, trivial⟩
      · simp only [ChainStore.setChain, Function.update_of_ne isRight,
          Function.update_of_ne isLeft]
        exact ⟨held.packed name, held.contents name, held.tailLive name⟩
  exact
    { limited := held.limited
      range := held.range
      isToBeSplit := held.isToBeSplit
      splitSz := held.splitSz
      sameInt := held.sameInt
      packed := fun name => (each name).1
      contents := fun name => (each name).2.1
      tailLive := fun name => (each name).2.2 }

theorem drained (held : Held int limit pending live chains) (id : MsgLocationId) :
    Held int limit
      (Function.update (Function.update pending (ChainStore.inSpace id).1 [])
        (ChainStore.inSpace id).2 [])
      (Function.update (Function.update live (ChainStore.inSpace id).1 true)
        (ChainStore.inSpace id).2 true) (chains.drained id) :=
  held.setSpace id (Packed.fresh limit)

theorem retrieve (held : Held int limit pending live chains) {id : MsgLocationId}
    {pendingFl : Bool} {cut : Cut α} {left : Chain α}
    (isSplit : ChainStore.split (fitsIn int limit) (chains.chain (ChainStore.inSpace id).1)
      (chains.chain (ChainStore.inSpace id).2) = some (pendingFl, cut, left)) :
    ∃ next, chains.retrieve id = some (pendingFl, cut, next) ∧
      Held int limit
        (Function.update (Function.update pending (ChainStore.inSpace id).1 left.contents)
          (ChainStore.inSpace id).2 [])
        (Function.update (Function.update live (ChainStore.inSpace id).1 left.tailLive)
          (ChainStore.inSpace id).2 true) next := by
  refine ⟨_, ?_, held.setSpace id (ChainStore.Limited.packed_split
    (held.packed (ChainStore.inSpace id).1) (held.packed (ChainStore.inSpace id).2) isSplit)⟩
  simp only [ChainStore.retrieve, held.splitSz, held.sameInt, isSplit, Option.bind_eq_bind,
    Option.bind_some]

/-- Queueing to a live holder. -/
theorem queue (held : Held int limit pending live chains) {name : HolderName}
    (isLive : live name = true) (msg : α) :
    ∃ next, chains.queue name msg = some next ∧
      Held int limit (Function.update pending name (pending name ++ [msg])) live next := by
  have chainLive : (chains.chain name).tailLive = true := (held.tailLive name).trans isLive
  refine ⟨_, by simp only [ChainStore.queue, chainLive, if_true]; rfl, ?_⟩
  have packed := held.packed name
  refine
    { limited := held.limited
      range := held.range
      isToBeSplit := held.isToBeSplit
      splitSz := held.splitSz
      sameInt := held.sameInt
      packed := fun other => ?_
      contents := fun other => ?_
      tailLive := fun other => ?_ }
  · rcases eq_or_ne other name with rfl | different
    · simp only [ChainStore.setChain, Function.update_self]
      refine ⟨packed.filled.extend (fun group full => ?_) msg, Chain.extend_bounded held.limited
        (fun group within notFull => ?_) msg packed.bounded⟩
      · exact held.splitSz ▸ chains.isFull_large full
      · have sameSz := held.splitSz
        have lower := ChainStore.lt_of_not_isFull held.isToBeSplit held.wellFormed.range
          (sameSz ▸ within) notFull
        omega
    · simpa [ChainStore.setChain, different] using held.packed other
  · rcases eq_or_ne other name with rfl | different
    · simp only [ChainStore.setChain, Function.update_self]
      rw [← held.contents other]
      exact Chain.extend_contents chains.isFull msg (chains.chain other).first
        (chains.chain other).later
    · simpa [ChainStore.setChain, different] using held.contents other
  · rcases eq_or_ne other name with rfl | different
    · simp [ChainStore.setChain, isLive]
    · simpa [ChainStore.setChain, different] using held.tailLive other

theorem queue_eq_none (held : Held int limit pending live chains) {name : HolderName}
    (isDead : live name = false) (msg : α) : chains.queue name msg = none := by
  have chainDead : (chains.chain name).tailLive = false := (held.tailLive name).trans isDead
  simp [ChainStore.queue, chainDead]

end Held

end HeapScan
