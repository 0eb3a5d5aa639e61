import Mathlib.Data.List.Perm.Basic
import HeapScan.MessageStore.Basic

/-!
# Chains of groups

The store as lists: a holder is its first group and the later ones, a group the
list of its messages.  `tailLive` records whether the holder's current-group
pointer is the last group of the chain or a group that has been freed, which is
all that queueing depends on.  Counts are natural numbers here; where the code
compares one, it compares what an `int` holds of it.
-/

namespace HeapScan

open TwosComplement

/-- A message as it waits in the store, with the size that was recorded for it. -/
structure Queued (α : Type) where
  msg : α
  msgSize : ℤ
deriving DecidableEq

/-- A holder's groups, each with its messages in queue order. -/
structure Chain (α : Type) where
  first : List α
  later : List (List α)
  tailLive : Bool

/--
What a retrieve hands out: the messages of one group, or of several that were
merged, each of which counts its dummy node in the size of the whole.
-/
structure Cut (α : Type) where
  groups : ℕ
  msgs : List α

/-- The test of `onGetMsgSplit` on the number of messages in the groups it merges. -/
def fitsIn (int : IntReading) (splitSz count : ℕ) : Bool := decide (int.hold count ≤ splitSz)

/-- The four holders as chains, with the two split settings and the reading of the `int`s. -/
structure ChainStore (α : Type) where
  chain : HolderName → Chain α
  isToBeSplit : Bool
  splitSz : ℕ
  int : IntReading

namespace Chain

variable {α : Type}

/-- The chain of `onInitializeMsgGroupHolder`: one empty group. -/
def fresh : Chain α where
  first := []
  later := []
  tailLive := true

def groups (chain : Chain α) : List (List α) := chain.first :: chain.later

/-- All messages of the chain, first group first. -/
def contents (chain : Chain α) : List α := chain.groups.flatten

@[simp]
theorem contents_fresh : (fresh : Chain α).contents = [] := rfl

/-- Put `msg` into the last group, or into a new one when that is full. -/
def extend (isFull : List α → Bool) (msg : α) : List α → List (List α) → List α × List (List α)
  | first, [] => if isFull first then (first, [[msg]]) else (first ++ [msg], [])
  | first, second :: later =>
      let extended := extend isFull msg second later
      (first, extended.1 :: extended.2)

theorem extend_contents (isFull : List α → Bool) (msg : α) (first : List α)
    (later : List (List α)) :
    ((extend isFull msg first later).1 :: (extend isFull msg first later).2).flatten =
      (first :: later).flatten ++ [msg] := by
  induction later generalizing first with
  | nil =>
      simp only [extend]
      split <;> simp
  | cons second later ih =>
      have extended := ih second
      simp only [extend, List.flatten_cons, List.append_assoc] at extended ⊢
      rw [extended]

/-- `extend` seen from the last group. -/
theorem extend_eq_of_concat (isFull : List α → Bool) (msg : α) {first : List α}
    {later front : List (List α)} {last : List α} (concat : first :: later = front ++ [last]) :
    (extend isFull msg first later).1 :: (extend isFull msg first later).2 =
      front ++ if isFull last then [last, [msg]] else [last ++ [msg]] := by
  induction later generalizing first front with
  | nil =>
      rcases front with _ | ⟨head, front⟩
      · simp only [List.nil_append, List.cons.injEq, and_true] at concat
        subst concat
        simp only [extend, List.nil_append]
        split <;> rfl
      · simp at concat
  | cons second later ih =>
      rcases front with _ | ⟨head, front⟩
      · simp at concat
      · simp only [List.cons_append, List.cons.injEq] at concat
        rcases concat with ⟨rfl, rest⟩
        simp only [extend, List.cons_append]
        rw [ih rest]

/-- Every group that has a successor is full, and no later group is empty. -/
def Filled (splitSz : ℕ) : List α → List (List α) → Prop
  | _, [] => True
  | first, second :: later => splitSz ≤ first.length ∧ second ≠ [] ∧ Filled splitSz second later

/-- A chain without messages is one empty group. -/
theorem Filled.groups_eq {splitSz : ℕ} {chain : Chain α}
    (filled : Filled splitSz chain.first chain.later) (empty : chain.contents = []) :
    chain.groups = [[]] := by
  rcases chain with ⟨first, later, tailLive⟩
  simp only [contents, groups, List.flatten_cons, List.append_eq_nil_iff] at empty ⊢
  cases later with
  | nil => rw [empty.1]
  | cons second later =>
      simp only [List.flatten_cons, List.append_eq_nil_iff] at empty
      exact absurd empty.2.1 filled.2.1

theorem extend_first_ne_nil (isFull : List α → Bool) (msg : α) {first : List α}
    (some_msg : first ≠ []) (later : List (List α)) : (extend isFull msg first later).1 ≠ [] := by
  cases later with
  | nil =>
      simp only [extend]
      split
      · exact some_msg
      · simp
  | cons second later => exact some_msg

theorem Filled.extend {splitSz : ℕ} {isFull : List α → Bool}
    (large : ∀ group, isFull group = true → splitSz ≤ group.length) (msg : α) {first : List α}
    {later : List (List α)} (filled : Filled splitSz first later) :
    Filled splitSz (Chain.extend isFull msg first later).1
      (Chain.extend isFull msg first later).2 := by
  induction later generalizing first with
  | nil =>
      simp only [Chain.extend]
      split
      · rename_i full
        exact ⟨large first full, by simp, trivial⟩
      · trivial
  | cons second later ih =>
      exact ⟨filled.1, extend_first_ne_nil isFull msg filled.2.1 later, ih filled.2.2⟩

/-- Extending a chain keeps every group within the limit. -/
theorem extend_bounded {splitSz : ℕ} {isFull : List α → Bool} (limited : 0 < splitSz)
    (room : ∀ group, group.length ≤ splitSz → isFull group = false → group.length < splitSz)
    (msg : α) {first : List α} {later : List (List α)}
    (bounded : ∀ group ∈ first :: later, group.length ≤ splitSz) :
    ∀ group ∈ (extend isFull msg first later).1 :: (extend isFull msg first later).2,
      group.length ≤ splitSz := by
  induction later generalizing first with
  | nil =>
      intro group listed
      have within := bounded first (List.mem_cons_self ..)
      simp only [extend] at listed
      split at listed
      · simp only [List.mem_cons, List.not_mem_nil, or_false] at listed
        rcases listed with rfl | rfl
        · exact within
        · exact limited
      · rename_i notFull
        simp only [List.mem_singleton] at listed
        subst listed
        have hasRoom := room first within (by simpa using notFull)
        simp only [List.length_append, List.length_singleton]
        exact hasRoom
  | cons second later ih =>
      intro group listed
      rcases List.mem_cons.mp listed with rfl | inLater
      · exact bounded _ (List.mem_cons_self ..)
      · exact ih (fun other passed => bounded other (List.mem_cons_of_mem _ passed)) group inLater

end Chain

namespace ChainStore

variable {α : Type}

/-- The test of `onQueueMessage` on the current group. -/
def isFull (store : ChainStore α) (group : List α) : Bool :=
  store.isToBeSplit && decide (store.splitSz ≤ store.int.hold group.length)

def setChain (store : ChainStore α) (name : HolderName) (chain : Chain α) : ChainStore α :=
  { store with chain := Function.update store.chain name chain }

/-- Queue a message; with the current group freed there is no result. -/
def queue (store : ChainStore α) (name : HolderName) (msg : α) : Option (ChainStore α) :=
  let chain := store.chain name
  if chain.tailLive then
    let extended := Chain.extend store.isFull msg chain.first chain.later
    some (store.setChain name { first := extended.1, later := extended.2, tailLive := true })
  else none

/--
One retrieve of a space: whether messages are pending, what is handed out, and
the left holder's next chain.  Where the first groups of both holders are merged,
the right holder's group is freed while it is still the left holder's current
group.  Where the left one's second group is merged too, there is no result: its
link is followed after it has been freed.
-/
def split (fits : ℕ → Bool) (left right : Chain α) : Option (Bool × Cut α × Chain α) :=
  if fits (left.first.length + right.first.length) then
    match left.later with
    | [] => some (false, { groups := 2, msgs := left.first ++ right.first }, .fresh)
    | next :: later =>
        if fits (left.first.length + right.first.length + next.length) then none
        else some
          (true, { groups := 2, msgs := left.first ++ right.first },
            { first := next, later, tailLive := false })
  else some (true, { groups := 1, msgs := left.first }, right)

/-- The holders that a retrieve of the space works on. -/
def inSpace (id : MsgLocationId) : HolderName × HolderName :=
  if id &&& 1 ≠ 0 then (.rightSpaceLeftEntry, .rightSpaceRightEntry)
  else (.leftSpaceLeftEntry, .leftSpaceRightEntry)

def retrieve (store : ChainStore α) (id : MsgLocationId) :
    Option (Bool × Cut α × ChainStore α) := do
  let names := inSpace id
  let (pendingFl, cut, left) ←
    split (fitsIn store.int store.splitSz) (store.chain names.1) (store.chain names.2)
  some (pendingFl, cut, (store.setChain names.1 left).setChain names.2 .fresh)

/-- The store that `onInitialize` builds. -/
def init (int : IntReading) (socketMsgLimit : ℤ) : ChainStore α where
  chain _ := .fresh
  isToBeSplit := decide (int.hold socketMsgLimit > 0)
  splitSz := (int.hold socketMsgLimit).toNat
  int := int

/--
All four chains are filled; a chain of the split store has groups up to the limit, which
is an `int`, and one of the unsplit store has one group.
-/
structure WellFormed (store : ChainStore α) : Prop where
  filled : ∀ name, Chain.Filled store.splitSz (store.chain name).first (store.chain name).later
  bounded : store.isToBeSplit = true → ∀ name, ∀ group ∈ (store.chain name).groups,
    group.length ≤ store.splitSz
  unsplit : store.isToBeSplit = false → ∀ name, (store.chain name).later = []
  splitPos : store.isToBeSplit = true → 0 < store.splitSz
  range : store.int.Keeps store.splitSz

/-- A full group has at least as many messages as its counter says. -/
theorem isFull_large (store : ChainStore α) {group : List α} (full : store.isFull group = true) :
    store.splitSz ≤ group.length := by
  simp only [isFull, Bool.and_eq_true, decide_eq_true_eq] at full
  have counted := store.int.hold_le (Int.natCast_nonneg group.length)
  omega

theorem lt_of_not_isFull {store : ChainStore α} (splits : store.isToBeSplit = true)
    (range : store.int.Keeps store.splitSz) {group : List α}
    (bounded : group.length ≤ store.splitSz) (notFull : store.isFull group = false) :
    group.length < store.splitSz := by
  have kept : store.int.hold group.length = group.length :=
    range.of_le (Int.natCast_nonneg _) (Int.ofNat_le.mpr bounded)
  simp only [isFull, splits, Bool.true_and, kept, decide_eq_false_iff_not] at notFull
  omega

theorem init_wellFormed (int : IntReading) (socketMsgLimit : ℤ) :
    (init int socketMsgLimit : ChainStore α).WellFormed where
  filled _ := trivial
  bounded _ _ := by simp [init, Chain.fresh, Chain.groups]
  unsplit _ _ := rfl
  splitPos split := by
    simp only [init, decide_eq_true_eq] at split ⊢
    omega
  range := by
    simp only [init]
    rcases Int.lt_or_le 0 (int.hold socketMsgLimit) with limited | unlimited
    · rw [Int.toNat_of_nonneg (Int.le_of_lt limited)]
      exact int.keeps_hold socketMsgLimit
    · rw [Int.toNat_of_nonpos unlimited]
      exact int.keeps_zero

theorem WellFormed.queue {store next : ChainStore α} (wellFormed : store.WellFormed)
    {name : HolderName} {msg : α} (queued : store.queue name msg = some next) :
    next.WellFormed := by
  simp only [ChainStore.queue] at queued
  split at queued
  · cases queued
    refine { filled := ?_, bounded := ?_, unsplit := ?_, splitPos := wellFormed.splitPos,
             range := wellFormed.range }
    · intro other
      rcases eq_or_ne other name with rfl | different
      · simpa [setChain] using (wellFormed.filled other).extend
          (fun _ full => store.isFull_large full) msg
      · simpa [setChain, different] using wellFormed.filled other
    · intro splits other
      have bounded := wellFormed.bounded splits other
      rcases eq_or_ne other name with rfl | different
      · simp only [setChain, Function.update_self]
        exact Chain.extend_bounded (wellFormed.splitPos splits)
          (fun _ within => lt_of_not_isFull splits wellFormed.range within) msg bounded
      · simpa [setChain, different] using bounded
    · intro unsplit other
      have single := wellFormed.unsplit unsplit
      rcases eq_or_ne other name with rfl | different
      · have neverFull : store.isToBeSplit = false := unsplit
        simp [setChain, single other, Chain.extend, isFull, neverFull]
      · simpa [setChain, different] using single other
  · cases queued

/-- The three ways in which a retrieve splits a group off. -/
theorem split_eq_some {fits : ℕ → Bool} {left right rest : Chain α} {pendingFl : Bool}
    {cut : Cut α} (isSplit : split fits left right = some (pendingFl, cut, rest)) :
    (fits (left.first.length + right.first.length) = true ∧ left.later = [] ∧
        pendingFl = false ∧ cut = { groups := 2, msgs := left.first ++ right.first } ∧
        rest = .fresh) ∨
    (∃ next later, fits (left.first.length + right.first.length) = true ∧
        left.later = next :: later ∧
        fits (left.first.length + right.first.length + next.length) = false ∧
        pendingFl = true ∧ cut = { groups := 2, msgs := left.first ++ right.first } ∧
        rest = { first := next, later, tailLive := false }) ∨
    (fits (left.first.length + right.first.length) = false ∧ pendingFl = true ∧
        cut = { groups := 1, msgs := left.first } ∧ rest = right) := by
  unfold split at isSplit
  split at isSplit
  · rename_i together
    split at isSplit
    · rename_i last
      cases isSplit
      exact Or.inl ⟨together, last, rfl, rfl, rfl⟩
    · rename_i next later goesOn
      split at isSplit
      · cases isSplit
      · rename_i apart
        cases isSplit
        exact Or.inr (Or.inl ⟨next, later, together, goesOn, by simpa using apart, rfl, rfl, rfl⟩)
  · rename_i apart
    cases isSplit
    exact Or.inr (Or.inr ⟨by simpa using apart, rfl, rfl, rfl⟩)

/--
Where the left first group, which is full, is merged with the right one but not with its
own successor, the right entry is empty.
-/
theorem WellFormed.right_empty {store : ChainStore α} (wellFormed : store.WellFormed)
    {left right : HolderName} {next : List α} {later : List (List α)}
    (goesOn : (store.chain left).later = next :: later)
    (together : fitsIn store.int store.splitSz ((store.chain left).first.length +
      (store.chain right).first.length) = true)
    (apart : fitsIn store.int store.splitSz ((store.chain left).first.length +
      (store.chain right).first.length + next.length) = false) :
    (store.chain right).first = [] ∧ (store.chain right).later = [] := by
  have splits : store.isToBeSplit = true := by
    by_contra unsplit
    have := wellFormed.unsplit (by simpa using unsplit) left
    rw [goesOn] at this
    cases this
  have leftFilled := wellFormed.filled left
  rw [goesOn] at leftFilled
  have full : store.splitSz ≤ (store.chain left).first.length := leftFilled.1
  have leftSmall := wellFormed.bounded splits left _ (List.mem_cons_self ..)
  have rightSmall := wellFormed.bounded splits right _ (List.mem_cons_self ..)
  have nextSmall := wellFormed.bounded splits left next (by simp [Chain.groups, goesOn])
  have limited := wellFormed.splitPos splits
  have range := wellFormed.range
  have noFirst : (store.chain right).first = [] := by
    simp only [fitsIn, decide_eq_true_eq, decide_eq_false_iff_not] at together apart
    rw [← List.length_eq_zero_iff]
    generalize (store.chain left).first.length = first at *
    generalize (store.chain right).first.length = second at *
    generalize next.length = third at *
    by_contra some_msg
    -- The counter wraps around at the first merge, and it would fit at the second one as well.
    have off : ¬store.int.Keeps (first + second : ℕ) := fun kept => by
      rw [kept] at together
      omega
    have stillOff : ¬store.int.Keeps (first + second + third : ℕ) := fun kept =>
      off (kept.of_le (Int.natCast_nonneg _) (by omega))
    have small : (store.splitSz : ℤ) < 2 ^ 31 := by
      cases isInt : store.int
      · rw [isInt, IntReading.keeps_bits32_iff] at range
        omega
      · rw [isInt] at off
        exact absurd (IntReading.keeps_exact _) off
    rw [IntReading.hold_of_not_keeps stillOff (Int.natCast_nonneg _) (by omega)] at apart
    omega
  refine ⟨noFirst, ?_⟩
  rcases rest : (store.chain right).later with _ | ⟨group, more⟩
  · rfl
  · have rightFilled := wellFormed.filled right
    rw [rest, noFirst] at rightFilled
    have := rightFilled.1
    simp only [List.length_nil] at this
    omega

theorem inSpace_ne (id : MsgLocationId) : (inSpace id).1 ≠ (inSpace id).2 := by
  unfold inSpace
  split <;> simp

/-- A retrieve is a split of the two chains of the space. -/
theorem retrieve_eq_some {store next : ChainStore α} {id : MsgLocationId} {pendingFl : Bool}
    {cut : Cut α} (retrieved : store.retrieve id = some (pendingFl, cut, next)) :
    ∃ rest, split (fitsIn store.int store.splitSz) (store.chain (inSpace id).1)
        (store.chain (inSpace id).2) = some (pendingFl, cut, rest) ∧
      next = (store.setChain (inSpace id).1 rest).setChain (inSpace id).2 .fresh := by
  simp only [retrieve, Option.bind_eq_bind, Option.bind_eq_some_iff, Option.some.injEq,
    Prod.mk.injEq] at retrieved
  rcases retrieved with ⟨⟨_, _, rest⟩, isSplit, rfl, rfl, rfl⟩
  exact ⟨rest, isSplit, rfl⟩

/-- Every group of a store whose chains of one space are replaced. -/
theorem setSpace_rule (holds : Chain α → Prop) {store : ChainStore α} (id : MsgLocationId)
    {rest : Chain α} (others : ∀ name, holds (store.chain name)) (restHolds : holds rest)
    (freshHolds : holds .fresh) (name : HolderName) :
    holds (((store.setChain (inSpace id).1 rest).setChain (inSpace id).2 .fresh).chain name) := by
  by_cases isRight : name = (inSpace id).2
  · simpa [setChain, isRight] using freshHolds
  · by_cases isLeft : name = (inSpace id).1
    · simpa [setChain, isLeft, inSpace_ne] using restHolds
    · simpa [setChain, isRight, isLeft] using others name

/-- A chain that can stand in a well-formed store. -/
theorem WellFormed.setSpace {store : ChainStore α} (wellFormed : store.WellFormed)
    (id : MsgLocationId) {rest : Chain α}
    (filled : Chain.Filled store.splitSz rest.first rest.later)
    (bounded : store.isToBeSplit = true → ∀ group ∈ rest.groups, group.length ≤ store.splitSz)
    (unsplit : store.isToBeSplit = false → rest.later = []) :
    ((store.setChain (inSpace id).1 rest).setChain (inSpace id).2 .fresh).WellFormed where
  filled := setSpace_rule (fun chain => Chain.Filled store.splitSz chain.first chain.later) id
    wellFormed.filled filled trivial
  bounded splits := setSpace_rule (fun chain => ∀ group ∈ chain.groups,
    group.length ≤ store.splitSz) id (wellFormed.bounded splits) (bounded splits)
    (by simp [Chain.fresh, Chain.groups])
  unsplit single := setSpace_rule (fun chain => chain.later = []) id
    (wellFormed.unsplit single) (unsplit single) rfl
  splitPos := wellFormed.splitPos
  range := wellFormed.range

theorem WellFormed.retrieve {store next : ChainStore α} (wellFormed : store.WellFormed)
    {id : MsgLocationId} {pendingFl : Bool} {cut : Cut α}
    (retrieved : store.retrieve id = some (pendingFl, cut, next)) : next.WellFormed := by
  rcases retrieve_eq_some retrieved with ⟨rest, isSplit, rfl⟩
  have leftFilled := wellFormed.filled (inSpace id).1
  have leftSingle := wellFormed.unsplit
  have leftBounded := wellFormed.bounded
  rcases split_eq_some isSplit with
    ⟨-, -, -, -, rfl⟩ | ⟨second, later, -, goesOn, -, -, -, rfl⟩ | ⟨-, -, -, rfl⟩
  · exact wellFormed.setSpace id trivial (fun _ => by simp [Chain.fresh, Chain.groups])
      fun _ => rfl
  · rw [goesOn] at leftFilled
    refine wellFormed.setSpace id leftFilled.2.2 (fun splits group listed => ?_) fun single => ?_
    · exact leftBounded splits (inSpace id).1 group
        (by rw [Chain.groups, goesOn]; exact List.mem_cons_of_mem _ listed)
    · have noLater := leftSingle single (inSpace id).1
      rw [goesOn] at noLater
      cases noLater
  · exact wellFormed.setSpace id (wellFormed.filled _) (fun splits => leftBounded splits _)
      fun single => leftSingle single _

end ChainStore

end HeapScan
