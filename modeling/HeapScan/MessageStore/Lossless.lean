import HeapScan.MessageStore.Draining

/-!
# Losing no message

With a limit, queueing and draining leave every holder packed and live.  This file
runs a drain after any history of queued messages and earlier drains, and settles
when it ends and when it hands out every message that is pending.
-/

namespace HeapScan

open Transition TwosComplement

variable {α : Type}

/-- The chains of a split store whose pending messages are `pending`, every tail live. -/
abbrev Settled (int : IntReading) (limit : ℕ) (pending : HolderName → List α)
    (chains : ChainStore α) : Prop :=
  Held int limit pending (fun _ => true) chains

namespace Settled

variable {int : IntReading} {limit : ℕ} {pending : HolderName → List α} {chains : ChainStore α}

theorem init {socketMsgLimit : ℤ} (limited : 0 < socketMsgLimit)
    (range : int.Keeps socketMsgLimit) :
    Settled int socketMsgLimit.toNat (fun _ => [])
      (ChainStore.init int socketMsgLimit : ChainStore α) := by
  have held : int.hold socketMsgLimit = socketMsgLimit := range
  exact
    { limited := by omega
      range := by rwa [Int.toNat_of_nonneg (Int.le_of_lt limited)]
      isToBeSplit := by simp [ChainStore.init, held, limited]
      splitSz := by simp [ChainStore.init, held]
      sameInt := rfl
      packed := fun _ => Packed.fresh _
      contents := fun _ => rfl
      tailLive := fun _ => rfl }

theorem queue (settled : Settled int limit pending chains) (name : HolderName) (msg : α) :
    ∃ next, chains.queue name msg = some next ∧
      Settled int limit (Function.update pending name (pending name ++ [msg])) next :=
  @Held.queue _ int limit pending _ chains settled name rfl msg

theorem drained (settled : Settled int limit pending chains) (id : MsgLocationId) :
    Settled int limit
      (Function.update (Function.update pending (ChainStore.inSpace id).1 [])
        (ChainStore.inSpace id).2 []) (chains.drained id) := by
  have held := Held.drained settled id
  have live : Function.update (Function.update (fun _ => true) (ChainStore.inSpace id).1 true)
      (ChainStore.inSpace id).2 true = fun _ => true := by
    funext name
    simp [Function.update_apply]
  rwa [live] at held

end Settled

/--
A drain of these messages ends: the count of the two first groups wraps around, so that
they are taken to be empty, or all counts fit and every cut can be printed.
-/
def DrainEnds [Message α] (int : IntReading) (limit : ℕ) (left right : List (Queued α)) : Prop :=
  CountsWrap int limit left.length right.length ∨
    (CountsFit int limit left.length right.length ∧
      ∀ cut ∈ cutsOf limit left right, cut.Printable int)

instance (int : IntReading) (limit left right : ℕ) : Decidable (CountsFit int limit left right) :=
  inferInstanceAs (Decidable (ite _ _ _))

instance (int : IntReading) (limit left right : ℕ) :
    Decidable (CountsWrap int limit left right) := inferInstanceAs (Decidable (_ ∧ _))

instance [Message α] (int : IntReading) (limit : ℕ) (left right : List (Queued α)) :
    Decidable (DrainEnds int limit left right) := inferInstanceAs (Decidable (_ ∨ _))

section Drain

variable [Message α] {int : IntReading} {limit : ℕ} {pending : HolderName → List (Queued α)}
  {live : HolderName → Bool} {chains : ChainStore (Queued α)} {store : Store α}

omit [Message α] in
/-- The count that wraps around is negative. -/
theorem hold_wrappedCut {left right : List (Queued α)} (range : int.Keeps limit)
    (wraps : CountsWrap int limit left.length right.length) :
    int.hold (wrappedCut limit left right).msgs.length < 0 := by
  rcases wraps with ⟨small, wraps⟩
  have length :
      (wrappedCut limit left right).msgs.length = left.length + min right.length limit := by
    rw [wrappedCut, List.length_append, List.length_take, Nat.min_comm]
  have below : (limit : ℤ) < 2 ^ 31 := by
    cases int
    · rw [IntReading.keeps_bits32_iff] at range
      exact range.2
    · exact absurd (IntReading.keeps_exact _) wraps
  rw [length, IntReading.hold_of_not_keeps wraps (Int.natCast_nonneg _) (by omega)]
  omega

/-- Where the count wraps around messages are pending, and none is handed out. -/
theorem handedOut_wrapped {left right : List (Queued α)} (range : int.Keeps limit)
    (wraps : CountsWrap int limit left.length right.length) :
    handedOut [(wrappedCut limit left right).retrieved int false] = [] ∧
      0 < left.length + right.length := by
  have fewer := Int.lt_trans (hold_wrappedCut range wraps) Int.one_pos
  constructor
  · rw [handedOut, List.flatMap_singleton, Cut.retrieved_printed, if_pos fewer]
  · have off : ¬int.Keeps (left.length + min right.length limit : ℕ) := wraps.2
    by_contra none
    have empty : left.length + min right.length limit = 0 := by omega
    rw [empty] at off
    exact off int.keeps_zero

omit [Message α] in
/-- The fuel of a drain is enough for its packed chains. -/
theorem Held.enough (held : Held int limit pending live chains) (refines : store.Refines chains)
    (name : HolderName) : (pending name).length ≤ store.groups.fresh * limit := by
  have groups := refines.groups_le name
  have length := (held.packed name).length_le
  rw [held.contents name] at length
  exact Nat.le_trans length (Nat.mul_le_mul_right limit groups)

variable (held : Held int limit pending live chains) (refines : store.Refines chains)
  (id : MsgLocationId)

include held refines

/-- Where all counts fit and all cuts can be printed, a drain hands them out. -/
theorem Held.drain
    (counts : CountsFit int limit (pending (ChainStore.inSpace id).1).length
      (pending (ChainStore.inSpace id).2).length)
    (printable : ∀ cut ∈ cutsOf limit (pending (ChainStore.inSpace id).1)
      (pending (ChainStore.inSpace id).2), cut.Printable int) :
    ∃ next, HeapScan.drain store id = some (retrievedOf int (cutsOf limit
        (pending (ChainStore.inSpace id).1) (pending (ChainStore.inSpace id).2)), next) ∧
      next.Refines (chains.drained id) := by
  have enoughLeft := held.enough refines (ChainStore.inSpace id).1
  have enoughRight := held.enough refines (ChainStore.inSpace id).2
  have leftMsgs := held.contents (ChainStore.inSpace id).1
  have rightMsgs := held.contents (ChainStore.inSpace id).2
  have handed := chunks_eq held.limited held.range (held.packed (ChainStore.inSpace id).1)
    (held.packed (ChainStore.inSpace id).2) (by rwa [leftMsgs, rightMsgs])
    (by rw [leftMsgs]; exact Nat.le_trans enoughLeft (Nat.mul_le_mul_right _ (Nat.le_succ _)))
    (by rwa [rightMsgs])
  have loop := @drainLoop_refines _ _ store chains id refines held.wellFormed
  rw [held.sameInt, held.splitSz] at loop
  rw [leftMsgs, rightMsgs] at handed
  exact loop handed printable

/-- Where the count of the first groups wraps around, a drain hands out nothing and ends. -/
theorem Held.drain_wrapped
    (wraps : CountsWrap int limit (pending (ChainStore.inSpace id).1).length
      (pending (ChainStore.inSpace id).2).length) :
    ∃ next, HeapScan.drain store id = some ([(wrappedCut limit
        (pending (ChainStore.inSpace id).1)
        (pending (ChainStore.inSpace id).2)).retrieved int false], next) ∧
      next.Refines (chains.drained id) := by
  have leftMsgs := held.contents (ChainStore.inSpace id).1
  have rightMsgs := held.contents (ChainStore.inSpace id).2
  have handed := @chunks_wrap _ int limit store.groups.fresh _ _ held.limited held.range
    (held.packed (ChainStore.inSpace id).1) (held.packed (ChainStore.inSpace id).2)
    (by rwa [leftMsgs, rightMsgs])
  have loop := @drainLoop_refines _ _ store chains id refines held.wellFormed
  rw [held.sameInt, held.splitSz] at loop
  rw [leftMsgs, rightMsgs] at handed
  refine loop handed fun cut listed => Or.inl ?_
  rw [List.mem_singleton.mp listed]
  exact Int.lt_trans (hold_wrappedCut held.range wraps) Int.one_pos

/-- Otherwise it fails. -/
theorem Held.drain_eq_none
    (fails : ¬DrainEnds int limit (pending (ChainStore.inSpace id).1)
      (pending (ChainStore.inSpace id).2)) : HeapScan.drain store id = none := by
  have enoughLeft := held.enough refines (ChainStore.inSpace id).1
  have enoughRight := held.enough refines (ChainStore.inSpace id).2
  have leftMsgs := held.contents (ChainStore.inSpace id).1
  have rightMsgs := held.contents (ChainStore.inSpace id).2
  rw [DrainEnds, not_or, not_and] at fails
  have stops := @drainLoop_eq_none _ _ store chains id refines held.wellFormed
    (store.groups.fresh + 1)
  rw [held.sameInt, held.splitSz] at stops
  refine stops fun cuts handed => ?_
  by_cases counts : CountsFit int limit (pending (ChainStore.inSpace id).1).length
      (pending (ChainStore.inSpace id).2).length
  · have isCuts := chunks_eq held.limited held.range (held.packed (ChainStore.inSpace id).1)
      (held.packed (ChainStore.inSpace id).2) (by rwa [leftMsgs, rightMsgs])
      (by rw [leftMsgs]; exact Nat.le_trans enoughLeft (Nat.mul_le_mul_right _ (Nat.le_succ _)))
      (by rwa [rightMsgs])
    rw [handed, leftMsgs, rightMsgs, Option.some.injEq] at isCuts
    simpa [isCuts] using fails.2 counts
  · have noCuts := @chunks_eq_none _ int limit (store.groups.fresh + 1) _ _ held.limited held.range
      (held.packed (ChainStore.inSpace id).1) (held.packed (ChainStore.inSpace id).2)
      (by rwa [leftMsgs, rightMsgs]) (by rw [leftMsgs, rightMsgs]; exact fails.1)
    rw [noCuts] at handed
    cases handed

/-- A drain ends where it should, and then both holders of the space are as initialised. -/
theorem Held.drain_isSome_iff :
    (∃ retrieved next, HeapScan.drain store id = some (retrieved, next)) ↔
      DrainEnds int limit (pending (ChainStore.inSpace id).1)
        (pending (ChainStore.inSpace id).2) := by
  constructor
  · rintro ⟨retrieved, next, drained⟩
    by_contra fails
    rw [held.drain_eq_none refines id fails] at drained
    cases drained
  · rintro (wraps | ⟨counts, printable⟩)
    · rcases held.drain_wrapped refines id wraps with ⟨next, drained, -⟩
      exact ⟨_, next, drained⟩
    · rcases held.drain refines id counts printable with ⟨next, drained, -⟩
      exact ⟨_, next, drained⟩

/-- What a drain that ends has handed out: one chunk without a message, or all cuts. -/
theorem Held.drain_cases {retrieved : List (Retrieved α)} {next : Store α}
    (drains : HeapScan.drain store id = some (retrieved, next)) :
    let left := pending (ChainStore.inSpace id).1
    let right := pending (ChainStore.inSpace id).2
    next.Refines (chains.drained id) ∧
      (CountsWrap int limit left.length right.length ∧
          retrieved = [(wrappedCut limit left right).retrieved int false] ∨
        (CountsFit int limit left.length right.length ∧
          ∀ cut ∈ cutsOf limit left right, cut.Printable int) ∧
          retrieved = retrievedOf int (cutsOf limit left right)) := by
  intro left right
  rcases (held.drain_isSome_iff refines id).mp ⟨retrieved, next, drains⟩ with
    wraps | ⟨counts, printable⟩
  · rcases held.drain_wrapped refines id wraps with ⟨other, drained, otherRefines⟩
    rw [drains, Option.some.injEq, Prod.mk.injEq] at drained
    exact ⟨drained.2 ▸ otherRefines, Or.inl ⟨wraps, drained.1⟩⟩
  · rcases held.drain refines id counts printable with ⟨other, drained, otherRefines⟩
    rw [drains, Option.some.injEq, Prod.mk.injEq] at drained
    exact ⟨drained.2 ▸ otherRefines, Or.inr ⟨⟨counts, printable⟩, drained.1⟩⟩

theorem Held.drained_of_drain {retrieved : List (Retrieved α)} {next : Store α}
    (drains : HeapScan.drain store id = some (retrieved, next)) :
    next.Refines (chains.drained id) :=
  (held.drain_cases refines id drains).1

end Drain

section History

variable [Message α]

/-- After any history the store is settled, with the messages that are still pending. -/
theorem history_settled {int : IntReading} {socketMsgLimit : ℤ} (limited : 0 < socketMsgLimit)
    (range : int.Keeps socketMsgLimit) {history : List (StoreOp α)} {store : Store α}
    (ran : runFrom applyOp (onInitializeReading int socketMsgLimit) history = some store) :
    ∃ chains, store.Refines chains ∧
      Settled int socketMsgLimit.toNat (pendingOf history) chains := by
  refine run_rule (fun pending store => ∃ chains, store.Refines chains ∧
    Settled int socketMsgLimit.toNat pending chains) ?_ ?_
    ⟨_, onInitialize_refines int socketMsgLimit, Settled.init limited range⟩ ran
  · rintro pending store id msg msgSize next ⟨chains, refines, settled⟩ result
    rcases Settled.queue settled (getMsgGroupHolder id) { msg, msgSize } with
      ⟨nextChains, queued, nextSettled⟩
    rcases queueMsg_refines refines id msg msgSize queued with ⟨after, isAfter, afterRefines⟩
    rw [result, Option.some.injEq] at isAfter
    exact ⟨nextChains, isAfter ▸ afterRefines, nextSettled⟩
  · rintro pending store id retrieved next ⟨chains, refines, settled⟩ drains
    exact ⟨_, settled.drained_of_drain refines id drains, Settled.drained settled id⟩

/-- The operations queue only to holders that are then live, and the drains among them end. -/
def CanRun (int : IntReading) (limit : ℕ) :
    (HolderName → List (Queued α)) → (HolderName → Bool) → List (StoreOp α) → Prop
  | _, _, [] => True
  | pending, live, .queue id msg msgSize :: ops =>
      live (getMsgGroupHolder id) = true ∧
        CanRun int limit (pendingAfter pending (.queue id msg msgSize)) live ops
  | pending, live, .drain id :: ops =>
      DrainEnds int limit (pending (ChainStore.inSpace id).1) (pending (ChainStore.inSpace id).2) ∧
        CanRun int limit (pendingAfter pending (.drain id))
          (Function.update (Function.update live (ChainStore.inSpace id).1 true)
            (ChainStore.inSpace id).2 true) ops

theorem Held.run_iff {int : IntReading} {limit : ℕ} {pending : HolderName → List (Queued α)}
    {live : HolderName → Bool} {chains : ChainStore (Queued α)} {store : Store α}
    (held : Held int limit pending live chains) (refines : store.Refines chains)
    (ops : List (StoreOp α)) :
    (∃ next, runFrom applyOp store ops = some next) ↔ CanRun int limit pending live ops := by
  induction ops generalizing store chains pending live with
  | nil => exact ⟨fun _ => trivial, fun _ => ⟨store, rfl⟩⟩
  | cons op ops ih =>
      cases op with
      | queue id msg msgSize =>
          cases isLive : live (getMsgGroupHolder id) with
          | true =>
              rcases held.queue isLive { msg, msgSize } with ⟨nextChains, queued, nextHeld⟩
              rcases queueMsg_refines refines id msg msgSize queued with
                ⟨next, result, nextRefines⟩
              rw [CanRun, pendingAfter, ← ih nextHeld nextRefines]
              simp [runFrom, applyOp, result, isLive]
          | false =>
              have failed := queueMsg_eq_none refines id msg msgSize
                (held.queue_eq_none isLive { msg, msgSize })
              simp [CanRun, runFrom, applyOp, failed, isLive]
      | drain id =>
          rw [CanRun, ← held.drain_isSome_iff refines id]
          constructor
          · rintro ⟨final, ran⟩
            rcases runFrom_cons_eq_some.mp ran with ⟨next, applied, rest⟩
            simp only [applyOp, Option.map_eq_some_iff] at applied
            rcases applied with ⟨⟨retrieved, _⟩, drains, rfl⟩
            refine ⟨⟨retrieved, _, drains⟩, ?_⟩
            exact (ih (held.drained id) (held.drained_of_drain refines id drains)).mp
              ⟨final, rest⟩
          · rintro ⟨⟨retrieved, next, drains⟩, later⟩
            rcases (ih (held.drained id) (held.drained_of_drain refines id drains)).mpr later with
              ⟨final, rest⟩
            refine ⟨final, runFrom_cons_eq_some.mpr ⟨next, ?_, rest⟩⟩
            simp [applyOp, drains]

/-- Operations that have been run leave packed chains with the messages then pending. -/
theorem Held.of_run {int : IntReading} {limit : ℕ} {pending : HolderName → List (Queued α)}
    {live : HolderName → Bool} {chains : ChainStore (Queued α)} {store next : Store α}
    (held : Held int limit pending live chains) (refines : store.Refines chains)
    {ops : List (StoreOp α)} (ran : runFrom applyOp store ops = some next) :
    ∃ nextLive nextChains, next.Refines nextChains ∧
      Held int limit (ops.foldl pendingAfter pending) nextLive nextChains := by
  refine run_rule (fun pending store => ∃ live chains, store.Refines chains ∧
    Held int limit pending live chains) ?_ ?_ ⟨live, chains, refines, held⟩ ran
  · rintro pending store id msg msgSize next ⟨live, chains, refines, held⟩ result
    cases isLive : live (getMsgGroupHolder id) with
    | true =>
        rcases held.queue isLive { msg, msgSize } with ⟨nextChains, queued, nextHeld⟩
        rcases queueMsg_refines refines id msg msgSize queued with ⟨after, isAfter, afterRefines⟩
        rw [result, Option.some.injEq] at isAfter
        exact ⟨live, nextChains, isAfter ▸ afterRefines, nextHeld⟩
    | false =>
        rw [queueMsg_eq_none refines id msg msgSize
          (held.queue_eq_none isLive { msg, msgSize })] at result
        cases result
  · rintro pending store id retrieved next ⟨live, chains, refines, held⟩ drains
    exact ⟨_, _, held.drained_of_drain refines id drains, held.drained id⟩

/-- A history can be run exactly where the drains in it end. -/
theorem history_runs_iff {socketMsgLimit : ℤ} (limited : 0 < socketMsgLimit)
    (small : socketMsgLimit < 2 ^ 31) (history : List (StoreOp α)) :
    (∃ store, runFrom applyOp (onInitialize socketMsgLimit) history = some store) ↔
      CanRun .bits32 socketMsgLimit.toNat (fun _ => []) (fun _ => true) history :=
  Held.run_iff
    (Settled.init limited ((IntReading.keeps_bits32_iff _).mpr ⟨by omega, small⟩))
    (onInitialize_refines .bits32 socketMsgLimit) history

/-- A drain whose counts fit hands out every cut with its counter. -/
theorem retrievedOf_cutsOf {int : IntReading} {limit : ℕ} (limited : 0 < limit)
    (range : int.Keeps limit) (left right : List (Queued α)) :
    handedOut (retrievedOf int (cutsOf limit left right)) =
        (drainedMsgs limit left right).map Queued.msg ∧
      ∀ chunk ∈ retrievedOf int (cutsOf limit left right), chunk.Counted := by
  have kept : ∀ cut ∈ cutsOf limit left right, int.Keeps cut.msgs.length := fun cut listed =>
    keeps_of_le range (length_le_of_mem_cutsOf listed)
  refine ⟨by rw [handedOut_retrievedOf kept, cutsOf_msgs limited], fun chunk listed => ?_⟩
  rcases mem_retrievedOf listed with ⟨cut, isCut, pendingFl, rfl⟩
  exact (Cut.retrieved_of_keeps (kept cut isCut) pendingFl).2

/--
With a positive limit and after any history, a drain terminates, and it hands out
every pending message of the space once and each entry's messages in order, in chunks that
count them, exactly under three conditions.  The left entry holds at most one group or the
right one is empty, and the right entry holds at most one group or the left one is not
empty; the counts of the groups fit into an `int`; and so do the sizes of the chunks, or
wrap around to one that is large enough.
-/
theorem drain_lossless_iff (socketMsgLimit : ℤ) (limited : 0 < socketMsgLimit)
    (small : socketMsgLimit < 2 ^ 31) (history : List (StoreOp α)) (id : MsgLocationId)
    {store : Store α} (ran : runFrom applyOp (onInitialize socketMsgLimit) history = some store) :
    let limit := socketMsgLimit.toNat
    let left := pendingOf history (ChainStore.inSpace id).1
    let right := pendingOf history (ChainStore.inSpace id).2
    (∃ retrieved next, HeapScan.drain store id = some (retrieved, next) ∧
      Lossless (left.map Queued.msg) (right.map Queued.msg) (handedOut retrieved) ∧
      ∀ chunk ∈ retrieved, chunk.Counted) ↔
    Drainable limit left.length right.length ∧
      CountsFit .bits32 limit left.length right.length ∧
      ∀ cut ∈ cutsOf limit left right, cut.Printable .bits32 := by
  intro limit left right
  have range := (IntReading.keeps_bits32_iff socketMsgLimit).mpr ⟨by omega, small⟩
  rcases history_settled limited range ran with ⟨chains, refines, settled⟩
  have handed := retrievedOf_cutsOf settled.limited settled.range left right
  constructor
  · rintro ⟨retrieved, next, drains, lossless, -⟩
    have length := lossless.length_eq
    rw [List.length_map, List.length_map] at length
    rcases (settled.drain_cases refines id drains).2 with
      ⟨wraps, isRetrieved⟩ | ⟨⟨counts, printable⟩, isRetrieved⟩
    · -- The messages of both first groups are dropped.
      have dropped := handedOut_wrapped settled.range wraps
      have some_msg : 0 < left.length + right.length := dropped.2
      rw [isRetrieved, dropped.1, List.length_nil] at length
      omega
    · rw [isRetrieved, handed.1, List.length_map] at length
      exact ⟨(length_drainedMsgs limit left right).2.mp length, counts, printable⟩
  · rintro ⟨drainable, counts, printable⟩
    rcases settled.drain refines id counts printable with ⟨next, drained, -⟩
    refine ⟨_, next, drained, ?_, handed.2⟩
    rw [handed.1, drainedMsgs_eq drainable, List.map_append]
    exact lossless_append ..

end History

/-- With two messages a chunk, the history that tears a smaller store is drained whole. -/
theorem drain_lossless_iff_torn :
    ∃ store, runFrom applyOp (onInitialize 2) tornHistory = some store ∧
      ∃ retrieved next, HeapScan.drain store leftSpace = some (retrieved, next) ∧
        Lossless [['a'], ['b']] [['c']] (handedOut retrieved) ∧
        ∀ chunk ∈ retrieved, chunk.Counted := by
  have runs : (runFrom applyOp (onInitialize 2) tornHistory).isSome := by rfl
  rcases Option.isSome_iff_exists.mp runs with ⟨store, ran⟩
  refine ⟨store, ran, ?_⟩
  exact (drain_lossless_iff 2 (by decide) (by decide) tornHistory leftSpace ran).mpr
    ⟨by decide, by decide, by decide⟩

/-- With one message a chunk, the second of two left messages is never handed out. -/
theorem drain_loses_message :
    (((runFrom applyOp (onInitialize 1) tornHistory).bind
        fun store => HeapScan.drain store leftSpace).map
      fun result => handedOut result.1) = some [['a'], ['c']] ∧
    (pendingOf tornHistory .leftSpaceLeftEntry).map Queued.msg = [['a'], ['b']] ∧
    (pendingOf tornHistory .leftSpaceRightEntry).map Queued.msg = [['c']] ∧
    ¬Lossless [['a'], ['b']] [['c']] [['a'], ['c']] := by
  refine ⟨by rfl, by decide, by decide, ?_⟩
  intro lossless
  exact absurd lossless.length_eq (by decide)

end HeapScan
