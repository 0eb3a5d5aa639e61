import HeapScan.MessageStore.Building

/-!
# The size of a group's buffer in 32 bits

`mergeMsgAsString` computes the size of its buffer from two `int` counters that grow with
every message included.  They are the exact counters modulo `2 ^ 32`, so the size is
right until the exact one leaves the range.
-/

namespace HeapScan

open CString TwosComplement

variable {α : Type} [Message α]

/-- The number of bytes that the loop of `mergeMsgAsString` writes, with the last NUL. -/
def writtenBytes (msgs : List α) : ℤ :=
  if msgs.isEmpty then 0 else (joinMsgs msgs).length + 1

/-- The size of the buffer for messages included with their sizes, in exact arithmetic. -/
def exactMsgSize (calls : List (α × ℤ)) : ℤ :=
  emptyMsgSize + (calls.map Prod.snd).sum + calls.length * (msgSeperator.length + 1)

namespace Store

/-- The messages of the nodes from `start` on, as a walk along `nextNode` finds them. -/
def msgsFrom (store : Store α) : ℕ → Option ℕ → List α
  | 0, _ => []
  | _, none => []
  | fuel + 1, some node =>
      match store.nodes.cell node with
      | none => []
      | some value => value.msg :: msgsFrom store fuel value.nextNode

/-- The messages of the static group. -/
def staticMsgs (store : Store α) : List α :=
  match store.nodes.cell store.curMsgGrp.firstNode with
  | none => []
  | some first => store.msgsFrom store.nodes.fresh first.nextNode

/-- The size that is allocated for the static group, and passed to `sprintf_s`. -/
def bufferSize (store : Store α) : ℤ := store.curMsgGrp.msgSize store.int

/-- The buffer's size is positive, and what the loop writes fits into it. -/
def BufferSuffices (store : Store α) : Prop :=
  0 < store.bufferSize ∧ writtenBytes store.staticMsgs ≤ store.bufferSize

omit [Message α] in
theorem msgsFrom_eq {store : Store α} {start : Option ℕ} {addresses : List ℕ}
    {msgs : List (Queued α)} {fuel : ℕ}
    (linked : store.nodes.Segment MsgNode.nextNode start addresses none)
    (carries : store.nodes.Carries Holds addresses msgs) (enough : addresses.length ≤ fuel) :
    store.msgsFrom fuel start = msgs.map Queued.msg := by
  induction addresses generalizing start msgs fuel with
  | nil =>
      cases linked
      cases carries
      cases fuel <;> rfl
  | cons address rest ih =>
      rcases linked with ⟨rfl, node, held, remaining⟩
      rcases List.forall₂_cons_left_iff.mp carries with
        ⟨msg, later, ⟨found, foundHeld, rfl⟩, laterCarries, rfl⟩
      rw [held, Option.some.injEq] at foundHeld
      subst foundHeld
      cases fuel with
      | zero => simp at enough
      | succ fuel =>
          have others := ih remaining laterCarries (Nat.le_of_succ_le_succ enough)
          simp only [msgsFrom, held, others, List.map_cons]
          rfl

end Store

omit [Message α] in
theorem Sized.staticMsgs {store : Store α} {int : IntReading} {shape : GroupShape α}
    (sized : Sized int store.nodes shape store.curMsgGrp) :
    store.staticMsgs = shape.msgs.map Queued.msg := by
  have bound := sized.list.linked.length_le_fresh sized.list.distinct
  rcases sized.list.linked with ⟨-, dummy, held, remaining⟩
  simp only [GroupShape.cells, List.length_cons] at bound
  simp only [Store.staticMsgs, sized.firstNode, held]
  exact Store.msgsFrom_eq remaining sized.list.carries (Nat.le_of_succ_le bound)

section Sizes

theorem writtenBytes_eq (msgs : List α) :
    writtenBytes msgs =
      (msgs.map fun msg => ((contents (Message.text msg)).length : ℤ) + 1).sum := by
  cases msgs with
  | nil => rfl
  | cons msg msgs =>
      rw [← length_joinMsgs (List.cons_ne_nil msg msgs)]
      rfl

theorem writtenBytes_cons (msg : α) (msgs : List α) :
    writtenBytes (msg :: msgs) = (contents (Message.text msg)).length + 1 + writtenBytes msgs := by
  simp only [writtenBytes_eq, List.map_cons, List.sum_cons]

omit [Message α] in
@[simp]
theorem exactMsgSize_nil : exactMsgSize ([] : List (α × ℤ)) = emptyMsgSize := rfl

omit [Message α] in
theorem exactMsgSize_cons (call : α × ℤ) (calls : List (α × ℤ)) :
    exactMsgSize (call :: calls) = exactMsgSize calls + call.2 + (msgSeperator.length + 1) := by
  simp only [exactMsgSize, List.map_cons, List.sum_cons, List.length_cons, msgSeperator,
    List.length_nil]
  omega

/-- Sizes that count the texts leave room for all that is written. -/
theorem writtenBytes_lt_exactMsgSize {calls : List (α × ℤ)}
    (counted : ∀ call ∈ calls, ((Message.text call.1).length : ℤ) ≤ call.2) :
    calls.length ≤ writtenBytes (calls.map Prod.fst) ∧
      writtenBytes (calls.map Prod.fst) + emptyMsgSize ≤ exactMsgSize calls := by
  induction calls with
  | nil => exact ⟨Int.le_refl _, Int.le_refl _⟩
  | cons call calls ih =>
      rw [List.forall_mem_cons] at counted
      have rest := ih counted.2
      have first := counted.1
      have read : (contents (Message.text call.1)).length ≤ (Message.text call.1).length :=
        (List.takeWhile_sublist _).length_le
      rw [List.map_cons, writtenBytes_cons, exactMsgSize_cons]
      simp only [List.length_cons, msgSeperator, List.length_nil] at rest ⊢
      omega

/-- Where the wrapped size of a buffer is at least what is needed. -/
theorem wrapped_suffices_iff {total bytes : ℤ} (enough : bytes < total) (natural : 0 ≤ bytes)
    (small : bytes = 0 → total < 2 ^ 31) :
    (0 < wrap 32 total ∧ bytes ≤ wrap 32 total) ↔
      ∃ rounds : ℕ, 2 ^ 32 * rounds ≤ total - bytes ∧ total - 2 ^ 32 * rounds < 2 ^ 31 := by
  constructor
  · rintro ⟨-, room⟩
    have below := wrap_mul_two_lt 32 total
    rcases exists_wrap 32 total with ⟨rounds, wrapped⟩
    refine ⟨rounds.toNat, ?_⟩
    omega
  · rintro ⟨rounds, surplus, below⟩
    have held : wrap 32 (total - 2 ^ 32 * rounds) = total - 2 ^ 32 * rounds :=
      wrap_of_inRange (by omega) (by omega)
    have same : wrap 32 total = wrap 32 (total - 2 ^ 32 * rounds) :=
      (wrap_eq_iff 32 _ _).mpr ⟨rounds, by omega⟩
    rw [same, held]
    omega

end Sizes

/-- The group that is built prints its messages, into a buffer of the wrapped exact size. -/
theorem includeAll_suffices_iff {store : Store α} (bits32 : store.int = .bits32)
    (calls : List (α × ℤ)) :
    ∃ build, includeAll (onStartMsgGrp store) calls = some build ∧
      build.bufferSize = wrap 32 (exactMsgSize calls) ∧
      (build.BufferSuffices ↔ 0 < wrap 32 (exactMsgSize calls) ∧
        writtenBytes (calls.map Prod.fst) ≤ wrap 32 (exactMsgSize calls)) ∧
      (calls ≠ [] →
        (build.BufferSuffices ↔ (mergeMsgAsString build build.curMsgGrp).isSome = true)) := by
  have started : Sized .bits32 (onStartMsgGrp store).nodes (freshShape store)
      (onStartMsgGrp store).curMsgGrp := initializeMsgGrp_sized store
  have sameInt : (onStartMsgGrp store).int = .bits32 := bits32
  rw [← sameInt] at started
  rcases @includeAll_sized _ 0 (onStartMsgGrp store) _ started (fun _ _ => Nat.zero_le _) calls with
    ⟨nodes, curMsgGrp, shape, included, sized, isMsgs, -, -⟩
  rw [sameInt] at sized
  have shapeMsgs : shape.msgs = calls.map fun call => ⟨call.1, call.2⟩ := by
    simpa [freshShape] using isMsgs
  have texts : shape.msgs.map Queued.msg = calls.map Prod.fst := by
    rw [shapeMsgs, List.map_map]
    rfl
  let build : Store α := { onStartMsgGrp store with nodes, curMsgGrp }
  have isSized : Sized .bits32 build.nodes shape build.curMsgGrp := sized
  have size : build.bufferSize = wrap 32 (exactMsgSize calls) := by
    change curMsgGrp.msgSize (onStartMsgGrp store).int = _
    rw [sameInt, sized.counts.msgSize, shapeMsgs]
    simp [exactMsgSize, sizes, IntReading.hold, Function.comp_def]
  have suffices_iff : build.BufferSuffices ↔ 0 < wrap 32 (exactMsgSize calls) ∧
      writtenBytes (calls.map Prod.fst) ≤ wrap 32 (exactMsgSize calls) := by
    rw [Store.BufferSuffices, isSized.staticMsgs, texts, size]
  refine ⟨build, included, size, suffices_iff, fun some_call => ?_⟩
  have some_msg : shape.msgs ≠ [] := by simpa [shapeMsgs] using some_call
  have written : writtenBytes (calls.map Prod.fst) = (shape.text.length : ℤ) + 1 := by
    rw [GroupShape.text, texts, writtenBytes, if_neg (by simpa using some_call)]
  have buffer : build.curMsgGrp.msgSize build.int = build.bufferSize := rfl
  rw [suffices_iff, written, ← size, ← buffer]
  by_cases room : (shape.text.length : ℤ) + 1 ≤ build.curMsgGrp.msgSize build.int
  · rcases mergeMsgAsString_of_nodes isSized.list isSized.firstNode some_msg room with
      ⟨_, merged, -⟩
    rw [merged]
    exact iff_of_true ⟨by omega, room⟩ rfl
  · rw [mergeMsgAsString_eq_none isSized.list isSized.firstNode some_msg room]
    exact iff_of_false (fun enough => room enough.2) (by simp)

/--
For messages whose sizes count their texts, the buffer suffices exactly where its exact
size, less a multiple of `2 ^ 32` that it has to spare, is in the range; as long as it
has less than `2 ^ 32` bytes to spare, where the exact size itself is.  There, and only
there, `mergeMsgAsString` has a result for a group that is not empty.
-/
theorem groupBuffer_suffices_iff {store : Store α} (bits32 : store.int = .bits32)
    (calls : List (α × ℤ))
    (counted : ∀ call ∈ calls, ((Message.text call.1).length : ℤ) ≤ call.2) :
    let spare := exactMsgSize calls - writtenBytes (calls.map Prod.fst)
    ∃ build, includeAll (onStartMsgGrp store) calls = some build ∧
      (build.BufferSuffices ↔
        ∃ rounds : ℕ, 2 ^ 32 * rounds ≤ spare ∧ exactMsgSize calls - 2 ^ 32 * rounds < 2 ^ 31) ∧
      (spare < 2 ^ 32 → (build.BufferSuffices ↔ exactMsgSize calls < 2 ^ 31)) ∧
      (calls ≠ [] →
        (build.BufferSuffices ↔ (mergeMsgAsString build build.curMsgGrp).isSome = true)) := by
  intro spare
  rcases writtenBytes_lt_exactMsgSize counted with ⟨natural, room⟩
  have isEmptySize : emptyMsgSize = 2 := rfl
  rcases includeAll_suffices_iff bits32 calls with ⟨build, included, -, suffices_iff, merges⟩
  have small : writtenBytes (calls.map Prod.fst) = 0 → exactMsgSize calls < 2 ^ 31 := by
    intro nothing
    rw [nothing] at natural
    have noCalls : calls = [] := List.eq_nil_of_length_eq_zero (by omega)
    rw [noCalls, exactMsgSize_nil]
    decide
  rw [wrapped_suffices_iff (by omega) (by omega) small] at suffices_iff
  refine ⟨build, included, suffices_iff,
    fun few => suffices_iff.trans ⟨?_, fun below => ?_⟩, merges⟩
  · rintro ⟨rounds, surplus, below⟩
    omega
  · exact ⟨0, by omega, by omega⟩

/-- Two messages, the second with a size that has one byte to spare. -/
theorem groupBuffer_suffices_iff_two :
    let calls : List (Text × ℤ) := [(['a'], 2), (['b', 'c'], 4)]
    let spare := exactMsgSize calls - writtenBytes (calls.map Prod.fst)
    ∃ build, includeAll (onStartMsgGrp (onInitialize 5)) calls = some build ∧
      (build.BufferSuffices ↔
        ∃ rounds : ℕ, 2 ^ 32 * rounds ≤ spare ∧ exactMsgSize calls - 2 ^ 32 * rounds < 2 ^ 31) ∧
      (spare < 2 ^ 32 → (build.BufferSuffices ↔ exactMsgSize calls < 2 ^ 31)) ∧
      (calls ≠ [] →
        (build.BufferSuffices ↔ (mergeMsgAsString build build.curMsgGrp).isSome = true)) :=
  groupBuffer_suffices_iff rfl [(['a'], 2), (['b', 'c'], 4)] (by decide)

omit [Message α] in
theorem exactMsgSize_replicate (count : ℕ) (call : α × ℤ) :
    exactMsgSize (List.replicate count call) = count * (call.2 + 2) + emptyMsgSize := by
  induction count with
  | zero => simp
  | succ count ih =>
      rw [List.replicate_succ, exactMsgSize_cons, ih]
      simp only [msgSeperator, List.length_cons, List.length_nil, Int.natCast_add, Int.add_mul]
      omega

/--
A walk that reports 2^26 references, each with a message of 29 characters: the exact size
is 2^31 + 2, and `malloc` is called with a negative number.
-/
theorem groupBuffer_overflows :
    let msg : Text :=
      ['4', '|', '8', '|', '-', '1', '|', '1', '0', '0', '0', '0', '|', '0', '|', '2', '0', '0',
        '0', '0', '|', '0', '|', '-', '1', '|', '1', '6', '8']
    ∃ build, includeAll (onStartMsgGrp (onInitialize 5)) (List.replicate (2 ^ 26) (msg, 30)) =
        some build ∧
      build.bufferSize = 2 - 2 ^ 31 ∧ ¬build.BufferSuffices := by
  intro msg
  have bits32 : (onInitialize 5 : Store Text).int = .bits32 := rfl
  rcases includeAll_suffices_iff bits32 (List.replicate (2 ^ 26) (msg, 30)) with
    ⟨build, included, msgSize, suffices_iff, -⟩
  have wrapped : wrap 32 (exactMsgSize (List.replicate (2 ^ 26) (msg, 30))) = 2 - 2 ^ 31 := by
    rw [exactMsgSize_replicate]
    decide
  rw [wrapped] at msgSize suffices_iff
  refine ⟨build, included, msgSize, fun room => ?_⟩
  exact absurd (suffices_iff.mp room).1 (by decide)

end HeapScan
