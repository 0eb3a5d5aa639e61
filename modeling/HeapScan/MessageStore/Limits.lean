import HeapScan.MessageStore.Frame
import HeapScan.MessageStore.Lossless

/-!
# Draining under a limit

With a positive limit every group is within it, and so is every chunk.  A drain
takes no more retrieves than the two entries have groups, and its last one
leaves both holders as they were initialised.
-/

namespace HeapScan

open Transition TwosComplement

variable {α : Type}

theorem ChainStore.Limited.retrieve {int : IntReading} {limit : ℕ} {chains next : ChainStore α}
    (limited : chains.Limited int limit) {id : MsgLocationId} {pendingFl : Bool} {cut : Cut α}
    (retrieved : chains.retrieve id = some (pendingFl, cut, next)) : next.Limited int limit := by
  rcases ChainStore.retrieve_eq_some retrieved with ⟨rest, isSplit, rfl⟩
  have held : Held int limit (fun name => (chains.chain name).contents)
      (fun name => (chains.chain name).tailLive) chains :=
    { limited with contents := fun _ => rfl, tailLive := fun _ => rfl }
  exact (held.setSpace id (packed_split (limited.packed _) (limited.packed _) isSplit)).toLimited

/-- The store at any point of a drain. -/
def Store.Limited (limit : ℕ) (store : Store α) : Prop :=
  ∃ chains, store.Refines chains ∧ chains.Limited .bits32 limit

section Retrieve

variable [Message α] {store next : Store α} {limit : ℕ} {id : MsgLocationId}
  {retrieved : Retrieved α}

theorem Store.Limited.retrieve (limited : store.Limited limit)
    (handed : onRetrieveMessage store id = some (retrieved, next)) : next.Limited limit := by
  rcases limited with ⟨chains, refines, limited⟩
  rcases onRetrieveMessage_eq_some refines limited.wellFormed handed with
    ⟨pendingFl, cut, nextChains, isRetrieved, -, -, nextRefines⟩
  exact ⟨nextChains, nextRefines, limited.retrieve isRetrieved⟩

/-- After a retrieve that leaves nothing pending the holders of the space are initial. -/
theorem Store.Limited.initialized_of_last (limited : store.Limited limit)
    (handed : onRetrieveMessage store id = some (retrieved, next))
    (last : retrieved.pendingFl = false) :
    next.Initialized (ChainStore.inSpace id).1 ∧ next.Initialized (ChainStore.inSpace id).2 := by
  rcases limited with ⟨chains, refines, limited⟩
  have different := ChainStore.inSpace_ne id
  rcases onRetrieveMessage_eq_some refines limited.wellFormed handed with
    ⟨pendingFl, cut, nextChains, isRetrieved, -, isChunk, nextRefines⟩
  have ended : pendingFl = false := by
    rw [isChunk, Cut.retrieved_pendingFl] at last
    exact last
  subst ended
  rw [ChainStore.retrieve_last isRetrieved] at nextRefines
  rcases nextRefines with ⟨-, shapes, rep, msgs⟩
  have live : ∀ name, (chains.drained id).chain name = .fresh →
      ∃ group node, next.groups.cell (next.holder name).startGrp = some group ∧
        next.nodes.cell group.firstNode = some node ∧ node.nextNode = none := by
    intro name isFresh
    rcases List.map_eq_singleton_iff.mp ((msgs name).trans (by rw [isFresh]; rfl)) with
      ⟨shape, isShape, noMsgs⟩
    exact (isShape ▸ rep.chain name).single_empty noMsgs
  -- The group that is split off was allocated before the retrieve.
  have oldGroup : (store.holder (ChainStore.inSpace id).1).startGrp < store.groups.fresh := by
    rcases refines with ⟨-, oldShapes, oldRep, oldMsgs⟩
    rcases List.map_eq_cons_iff.mp (oldMsgs (ChainStore.inSpace id).1) with
      ⟨shape, later, isShape, -, -⟩
    have linked := (oldRep.chain (ChainStore.inSpace id).1).linked
    rw [isShape] at linked
    rcases linked with ⟨start, group, held, -⟩
    rw [Option.some.injEq] at start
    exact start ▸ Heap.lt_fresh_of_cell held
  rcases onRetrieveMessage_trims handed with ⟨merged, settled⟩
  rcases settled last with ⟨split, grown, settled⟩
  constructor
  · refine (settled (ChainStore.inSpace id).2).initialized
      (onInitializeMsgGroupHolder_initialized split _)
      ((settled (ChainStore.inSpace id).2).holder _ different) ?_
      (live _ (by simp [ChainStore.drained, ChainStore.setChain, different]))
    simp only [onInitializeMsgGroupHolder, Store.setHolder, Function.update_self,
      allocateMsgGrp_address]
    omega
  · refine merged.initialized (onInitializeMsgGroupHolder_initialized _ _)
      (merged.holder _ different.symm) ?_
      (live _ (by simp [ChainStore.drained, ChainStore.setChain]))
    rw [mergeEntries_right]
    exact Nat.ne_of_gt oldGroup

end Retrieve

section Walk

/-- The groups from `start` on, as a walk along `nextGrp` finds them. -/
def Store.groupsFrom (store : Store α) : ℕ → Option ℕ → List ℕ
  | 0, _ => []
  | _, none => []
  | fuel + 1, some group =>
      match store.groups.cell group with
      | none => []
      | some value => group :: store.groupsFrom fuel value.nextGrp

/-- The message groups of a holder. -/
def Store.groupsOf (store : Store α) (name : HolderName) : List ℕ :=
  store.groupsFrom store.groups.fresh (some (store.holder name).startGrp)

theorem Store.groupsFrom_eq {store : Store α} {start : Option ℕ} {addresses : List ℕ}
    (linked : store.groups.Segment MsgGroup.nextGrp start addresses none) {fuel : ℕ}
    (enough : addresses.length ≤ fuel) : store.groupsFrom fuel start = addresses := by
  induction addresses generalizing start fuel with
  | nil =>
      cases linked
      cases fuel <;> rfl
  | cons address addresses ih =>
      rcases linked with ⟨rfl, value, held, rest⟩
      cases fuel with
      | zero => simp at enough
      | succ fuel =>
          simp only [groupsFrom, held]
          rw [ih rest (by simpa using enough)]

/-- The groups of a holder are those of its chain. -/
theorem Store.Refines.length_groupsOf {store : Store α} {chains : ChainStore (Queued α)}
    (refines : store.Refines chains) (name : HolderName) :
    (store.groupsOf name).length = (chains.chain name).groups.length := by
  rcases refines with ⟨-, shapes, rep, msgs⟩
  have chain := rep.chain name
  rw [Store.groupsOf, Store.groupsFrom_eq chain.linked
    (chain.linked.length_le_fresh chain.groupsDistinct), ← msgs name]
  simp [groupCells]

end Walk

/-- A drain makes no more cuts than the two chains have groups. -/
theorem length_cutsOf_le {limit : ℕ} {left right : Chain α} (limited : 0 < limit)
    (leftPacked : Packed limit left) (rightPacked : Packed limit right) :
    (cutsOf limit left.contents right.contents).length ≤
      left.groups.length + right.groups.length := by
  have leftBlocks := length_blocks_le limited leftPacked.length_le
  have rightBlocks := length_blocks_le limited rightPacked.length_le
  have leftGroups : 1 ≤ left.groups.length := by simp [Chain.groups]
  unfold cutsOf blockCuts
  split
  · split <;> simp only [List.length_cons, List.length_nil, List.length_map] <;> omega
  · split <;> simp only [List.length_cons, List.length_map] <;> omega

section History

variable [Message α]

/--
With a positive limit and after any history, a drain ends within as many retrieves as the
two entries have groups, with both holders initial again and every chunk that is sent
counted right, exactly where `DrainEnds` says so.  Elsewhere it reads a freed group or
prints into a buffer without room.
-/
theorem drain_ends_initialized_iff (socketMsgLimit : ℤ) (limited : 0 < socketMsgLimit)
    (small : socketMsgLimit < 2 ^ 31) (history : List (StoreOp α)) (id : MsgLocationId)
    {store : Store α} (ran : runFrom applyOp (onInitialize socketMsgLimit) history = some store) :
    (∃ retrieved next, HeapScan.drain store id = some (retrieved, next) ∧
      retrieved.length ≤ (store.groupsOf (ChainStore.inSpace id).1).length +
        (store.groupsOf (ChainStore.inSpace id).2).length ∧
      next.Initialized (ChainStore.inSpace id).1 ∧
      next.Initialized (ChainStore.inSpace id).2 ∧
      ∀ chunk ∈ retrieved, 0 < chunk.totalMsg → chunk.Counted) ↔
    DrainEnds .bits32 socketMsgLimit.toNat (pendingOf history (ChainStore.inSpace id).1)
      (pendingOf history (ChainStore.inSpace id).2) := by
  have range := (IntReading.keeps_bits32_iff socketMsgLimit).mpr ⟨by omega, small⟩
  rcases history_settled limited range ran with ⟨chains, refines, settled⟩
  constructor
  · rintro ⟨retrieved, next, drains, -⟩
    exact (settled.drain_isSome_iff refines id).mp ⟨retrieved, next, drains⟩
  · intro ends
    rcases (settled.drain_isSome_iff refines id).mpr ends with ⟨retrieved, next, drains⟩
    rcases drainLoop_rule (Store.Limited socketMsgLimit.toNat) (fun _ => True)
        (fun _ _ _ isLimited handed => ⟨trivial, isLimited.retrieve handed⟩)
        ⟨chains, refines, settled.toLimited⟩ drains with
      ⟨-, before, last, isLimited, lastHanded, ended⟩
    have initialized := isLimited.initialized_of_last lastHanded ended
    refine ⟨retrieved, next, drains, ?_, initialized.1, initialized.2, ?_⟩
    · rw [refines.length_groupsOf, refines.length_groupsOf]
      have few := length_cutsOf_le settled.limited (settled.packed (ChainStore.inSpace id).1)
        (settled.packed (ChainStore.inSpace id).2)
      rw [settled.contents, settled.contents] at few
      rcases (settled.drain_cases refines id drains).2 with
        ⟨-, isRetrieved⟩ | ⟨-, isRetrieved⟩
      · have leftGroups : 1 ≤ (chains.chain (ChainStore.inSpace id).1).groups.length := by
          simp [Chain.groups]
        rw [isRetrieved, List.length_singleton]
        omega
      · rwa [isRetrieved, length_retrievedOf]
    · intro chunk listed positive
      rcases (settled.drain_cases refines id drains).2 with
        ⟨wraps, isRetrieved⟩ | ⟨-, isRetrieved⟩
      · have negative := hold_wrappedCut settled.range wraps
        rw [isRetrieved, List.mem_singleton] at listed
        rw [listed, Cut.retrieved_totalMsg] at positive
        omega
      · rw [isRetrieved] at listed
        exact (retrievedOf_cutsOf settled.limited settled.range _ _).2 chunk listed

/-- Two full groups in one entry. -/
theorem drain_ends_initialized_torn :
    ∃ store, runFrom applyOp (onInitialize 1) tornHistory = some store ∧
      ∃ retrieved next, HeapScan.drain store leftSpace = some (retrieved, next) ∧
        retrieved.length ≤ (store.groupsOf .leftSpaceLeftEntry).length +
          (store.groupsOf .leftSpaceRightEntry).length ∧
        next.Initialized .leftSpaceLeftEntry ∧ next.Initialized .leftSpaceRightEntry ∧
        ∀ chunk ∈ retrieved, 0 < chunk.totalMsg → chunk.Counted := by
  have runs : (runFrom applyOp (onInitialize 1) tornHistory).isSome := by rfl
  rcases Option.isSome_iff_exists.mp runs with ⟨store, ran⟩
  refine ⟨store, ran, ?_⟩
  exact (drain_ends_initialized_iff 1 (by decide) (by decide) tornHistory leftSpace ran).mpr
    (by decide)

/-- As many messages in one entry, all alike. -/
def repeatedHistory (count : ℕ) : List (StoreOp Text) :=
  List.replicate count (.queue (leftSpace + leftEntry) ['a'] 2)

theorem pendingOf_repeatedHistory (count : ℕ) :
    (pendingOf (repeatedHistory count) (ChainStore.inSpace leftSpace).1).length = count ∧
      pendingOf (repeatedHistory count) (ChainStore.inSpace leftSpace).2 = [] := by
  have isLeft : getMsgGroupHolder (leftSpace + leftEntry) = (ChainStore.inSpace leftSpace).1 := rfl
  have isRight := (ChainStore.inSpace_ne leftSpace).symm
  induction count with
  | zero => exact ⟨rfl, rfl⟩
  | succ count ih =>
      rw [pendingOf, repeatedHistory] at ih ⊢
      rw [List.replicate_succ', List.foldl_concat, pendingAfter, isLeft]
      simp [ih, isRight]

theorem canRun_repeatedHistory {int : IntReading} {limit count : ℕ}
    {pending : HolderName → List (Queued Text)} :
    CanRun int limit pending (fun _ => true) (repeatedHistory count) := by
  induction count generalizing pending with
  | zero => exact trivial
  | succ count ih => exact ⟨rfl, ih⟩

/-- Where two groups of the left entry are more than an `int` counts, none can be split off. -/
theorem Held.retrieve_eq_none {int : IntReading} {limit : ℕ}
    {pending : HolderName → List (Queued α)} {live : HolderName → Bool}
    {chains : ChainStore (Queued α)} (held : Held int limit pending live chains)
    (id : MsgLocationId) (many : limit < (pending (ChainStore.inSpace id).1).length)
    (noRight : pending (ChainStore.inSpace id).2 = [])
    (off : ¬int.Keeps (min (pending (ChainStore.inSpace id).1).length (2 * limit) : ℕ)) :
    chains.retrieve id = none ∧
      ¬DrainEnds int limit (pending (ChainStore.inSpace id).1)
        (pending (ChainStore.inSpace id).2) := by
  constructor
  · rcases ChainStore.Limited.split_first held.limited held.range
      (held.packed (ChainStore.inSpace id).1) (held.packed (ChainStore.inSpace id).2)
      (by rwa [held.contents]) (by rwa [held.contents]) with ⟨rest, -, -, isSplit⟩
    rw [held.contents, if_neg off] at isSplit
    simp only [ChainStore.retrieve, held.sameInt, held.splitSz, isSplit, Option.bind_eq_bind,
      Option.bind_none]
  · rintro (⟨few, -⟩ | ⟨counts, -⟩)
    · exact absurd few (Nat.not_le_of_lt many)
    · rw [CountsFit, noRight, List.length_nil, if_pos rfl] at counts
      exact off counts

/--
With the largest limit and one message more in an entry, the count wraps around, the
second group is merged into the first, and the link in the freed one is followed.
-/
theorem drain_ends_initialized_fails :
    ∃ store, runFrom applyOp (onInitialize (2 ^ 31 - 1)) (repeatedHistory (2 ^ 31)) = some store ∧
      onGetMsgSplit (mergeEntries store .leftSpaceLeftEntry .leftSpaceRightEntry)
        .leftSpaceLeftEntry = none ∧
      HeapScan.drain store leftSpace = none := by
  have limited : (0 : ℤ) < 2 ^ 31 - 1 := by decide
  have isPending := pendingOf_repeatedHistory (2 ^ 31)
  have runs := (history_runs_iff limited (by decide) (repeatedHistory (2 ^ 31))).mpr
    canRun_repeatedHistory
  generalize repeatedHistory (2 ^ 31) = history at *
  rcases runs with ⟨store, ran⟩
  rcases history_settled limited ((IntReading.keeps_bits32_iff _).mpr (by decide)) ran with
    ⟨chains, refines, settled⟩
  have stops := settled.retrieve_eq_none leftSpace (by rw [isPending.1]; decide) isPending.2
    (by rw [isPending.1]; decide)
  have inSpace : ChainStore.inSpace leftSpace = (.leftSpaceLeftEntry, .leftSpaceRightEntry) := rfl
  have noSplit := onGetMsgSplit_eq_none refines stops.1
  rw [inSpace] at noSplit
  exact ⟨store, ran, noSplit, settled.drain_eq_none refines leftSpace stops.2⟩

/--
With a positive limit and after any history, every retrieve of a drain tells the number of
pending messages that are printed into its chunk, which is within the limit, exactly where
the counts of the groups fit into an `int` and the sizes of the chunks into their buffers.
-/
theorem drain_within_limit_iff (socketMsgLimit : ℤ) (limited : 0 < socketMsgLimit)
    (small : socketMsgLimit < 2 ^ 31) (history : List (StoreOp α)) (id : MsgLocationId)
    {store : Store α} (ran : runFrom applyOp (onInitialize socketMsgLimit) history = some store) :
    let limit := socketMsgLimit.toNat
    let left := pendingOf history (ChainStore.inSpace id).1
    let right := pendingOf history (ChainStore.inSpace id).2
    (∃ retrieved next, HeapScan.drain store id = some (retrieved, next) ∧
      handedOut retrieved = (drainedMsgs limit left right).map Queued.msg ∧
      ∀ chunk ∈ retrieved, chunk.totalMsg ≤ socketMsgLimit ∧ chunk.Counted) ↔
    CountsFit .bits32 limit left.length right.length ∧
      ∀ cut ∈ cutsOf limit left right, cut.Printable .bits32 := by
  intro limit left right
  have range := (IntReading.keeps_bits32_iff socketMsgLimit).mpr ⟨by omega, small⟩
  rcases history_settled limited range ran with ⟨chains, refines, settled⟩
  constructor
  · rintro ⟨retrieved, next, drains, -, within⟩
    rcases (settled.drain_cases refines id drains).2 with ⟨wraps, isRetrieved⟩ | ⟨fitting, -⟩
    · -- The one chunk has a negative count.
      have negative := hold_wrappedCut settled.range wraps
      have counted := (within _ (isRetrieved ▸ List.mem_singleton_self _)).2.totalMsg
      rw [Cut.retrieved_totalMsg] at counted
      omega
    · exact fitting
  · rintro ⟨counts, printable⟩
    rcases settled.drain refines id counts printable with ⟨next, drained, -⟩
    have handed := retrievedOf_cutsOf settled.limited settled.range left right
    refine ⟨_, next, drained, handed.1, fun chunk listed => ⟨?_, handed.2 chunk listed⟩⟩
    rcases mem_retrievedOf listed with ⟨cut, isCut, pendingFl, isChunk⟩
    have length := length_le_of_mem_cutsOf isCut
    have counted : IntReading.bits32.hold cut.msgs.length = cut.msgs.length :=
      keeps_of_le settled.range length
    rw [isChunk, Cut.retrieved_totalMsg, counted]
    omega

/-- Chunks of one message, after a history that fills two groups. -/
theorem drain_within_limit_one :
    ∃ store, runFrom applyOp (onInitialize 1) tornHistory = some store ∧
      ∃ retrieved next, HeapScan.drain store leftSpace = some (retrieved, next) ∧
        handedOut retrieved = [['a'], ['c']] ∧
        ∀ chunk ∈ retrieved, chunk.totalMsg ≤ 1 ∧ chunk.Counted := by
  have runs : (runFrom applyOp (onInitialize 1) tornHistory).isSome := by rfl
  rcases Option.isSome_iff_exists.mp runs with ⟨store, ran⟩
  refine ⟨store, ran, ?_⟩
  exact (drain_within_limit_iff 1 (by decide) (by decide) tornHistory leftSpace ran).mpr
    (by decide)

/-- The first retrieve of two huge messages has no chunk. -/
theorem retrieve_within_limit_fails :
    ∃ store, runFrom applyOp (onInitialize 2) hugeHistory = some store ∧
      onRetrieveMessage store leftSpace = none := by
  have limited : (0 : ℤ) < 2 := by decide
  rcases (history_runs_iff limited (by decide) hugeHistory).mpr ⟨rfl, rfl, trivial⟩ with
    ⟨store, ran⟩
  rcases history_settled limited (by decide) ran with ⟨chains, refines, settled⟩
  refine ⟨store, ran, onRetrieveMessage_eq_none refines settled.wellFormed ?_⟩
  intro pendingFl cut next isRetrieved printable
  rcases ChainStore.retrieve_eq_some isRetrieved with ⟨rest, isSplit, -⟩
  have isCut := ChainStore.Limited.split_all settled.range
    (settled.packed (ChainStore.inSpace leftSpace).1)
    (settled.packed (ChainStore.inSpace leftSpace).2) (by
      rw [settled.contents, settled.contents]
      decide)
  rw [settled.contents, settled.contents] at isCut
  rw [settled.splitSz, settled.sameInt] at isSplit
  rw [isCut, Option.some.injEq, Prod.mk.injEq, Prod.mk.injEq] at isSplit
  rw [← isSplit.2.1, settled.sameInt] at printable
  exact hugeHistory_not_printable (Nat.le_refl 2) printable

end History

end HeapScan
