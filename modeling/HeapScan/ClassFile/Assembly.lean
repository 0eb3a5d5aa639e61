import HeapScan.ClassFile.Writing

/-!
# The code that is written

The new code consists of instructions again: those of the old code, relocated, with calls of
the tracker methods between them.  An old instruction stands, with what is injected before and
after it, where `map` says, so the new code is a listing like the old one.
-/

namespace HeapScan.ClassFile

open BigEndian CrwClassImage Relocation

/-- The instruction that pushes a number. -/
def pushShort (number : ℕ) : Instruction :=
  if number ≤ 5 then .plain (Opcode.iconst_0 + number) []
  else if number = number % 2 ^ 7 then .plain Opcode.bipush [byte number]
  else .plain Opcode.sipush [byte (number / 2 ^ 8), byte number]

/-- The instruction that pushes a constant of the constant pool. -/
def pushPool (index : ℕ) : Instruction :=
  if index = index % 2 ^ 7 then .plain Opcode.ldc [byte index]
  else .plain Opcode.ldc_w [byte (index / 2 ^ 8), byte index]

section Definitions

variable (ci : CrwClassImage) (mi : MethodImage) (listing : Listing) (widening : ℕ → ℤ)

/-- The instructions of `trackerCall`. -/
def trackerCallInstructions (methodIndex : ℕ) : List Instruction :=
  let call := Instruction.plain Opcode.invokestatic [byte (methodIndex / 2 ^ 8), byte methodIndex]
  if methodIndex = 0 then []
  else if methodIndex = ci.indices.newarrayTracker then [.plain Opcode.dup [], call]
  else if methodIndex = ci.indices.objectInitTracker then [.plain Opcode.aload_0 [], call]
  else
    [if ci.number = ci.number % 2 ^ 15 then pushShort ci.number
      else pushPool ci.indices.classNumber, pushShort mi.number, call]

def entryInstructions : List Instruction :=
  (if mi.objectInitMethod then trackerCallInstructions ci mi ci.indices.objectInitTracker
    else []) ++
    if mi.skipCallReturnSites then [] else trackerCallInstructions ci mi ci.indices.callTracker

def beforeInstructions (opcode : ℕ) : List Instruction :=
  if opcode ∈ Opcode.returns ∧ mi.skipCallReturnSites = false then
    trackerCallInstructions ci mi ci.indices.returnTracker
  else []

def afterInstructions (opcode : ℕ) : List Instruction :=
  if opcode ∈ Opcode.arrayAllocations then
    trackerCallInstructions ci mi ci.indices.newarrayTracker
  else []

/-- What stands in the new code for an instruction. -/
def block (entry : ℕ × Instruction) : List Instruction :=
  beforeInstructions ci mi entry.2.opcode ++
    (relocated ci mi listing widening entry ++ afterInstructions ci mi entry.2.opcode)

/-- The instructions of the new code. -/
def assembled : List Instruction :=
  entryInstructions ci mi ++ listing.flatMap (block ci mi listing widening)

/-- `newPosition` of a place that does not move in front of the code. -/
def newPlace (place : ℕ) : ℕ := (newPosition ci mi listing place widening).toNat

end Definitions

/-- The instructions with the positions at which they are written. -/
def listAll : ℕ → List Instruction → Listing
  | _, [] => []
  | position, instruction :: rest =>
      (position, instruction) :: listAll (position + instruction.size position) rest

section Listings

variable {lengths : OpcodeLengths} {position : ℕ} {first second : List Instruction}

theorem encodeAll_append : encodeAll position (first ++ second) =
    encodeAll position first ++
      encodeAll (position + (encodeAll position first).length) second := by
  induction first generalizing position with
  | nil => simp [encodeAll]
  | cons instruction rest step =>
      simp only [List.cons_append, encodeAll, step, List.append_assoc, List.length_append,
        Instruction.length_encode, Nat.add_assoc]

theorem listAll_append : listAll position (first ++ second) =
    listAll position first ++
      listAll (position + (encodeAll position first).length) second := by
  induction first generalizing position with
  | nil => simp [listAll, encodeAll]
  | cons instruction rest step =>
      simp only [List.cons_append, listAll, encodeAll, step, List.length_append,
        Instruction.length_encode, Nat.add_assoc]

/-- Valid instructions that are written one behind another are listed by the code. -/
theorem lists_encodeAll {before : List UInt8} (placed : before.length = position)
    (valid : ∀ instruction ∈ first, instruction.Valid lengths) (after : List UInt8) :
    Lists lengths (before ++ (encodeAll position first ++ after)) position
      (listAll position first) (position + (encodeAll position first).length) := by
  induction first generalizing position before with
  | nil => exact ⟨rfl, by simp [listAll], by simp [listAll]⟩
  | cons instruction rest step =>
      have stands := (valid _ List.mem_cons_self).standsAt_encode placed
        (encodeAll (position + instruction.size position) rest ++ after)
      have restLists := @step (position + instruction.size position)
        (before ++ instruction.encode position)
        (by rw [List.length_append, Instruction.length_encode, placed])
        fun held listed => valid held (List.mem_cons_of_mem _ listed)
      simp only [encodeAll, List.append_assoc] at stands restLists ⊢
      refine Lists.cons_iff.mpr ⟨rfl, valid _ List.mem_cons_self, stands, ?_⟩
      rwa [List.length_append, Instruction.length_encode, ← Nat.add_assoc]

end Listings

section Calls

variable (ci : CrwClassImage) (mi : MethodImage)

theorem encode_pushShort (position number : ℕ) :
    (pushShort number).encode position = pushShortConstantBytecodes number := by
  simp only [pushShort, pushShortConstantBytecodes]
  split
  · simp only [Instruction.encode, Nat.cast_add]
  · split <;> rfl

theorem encode_pushPool (position index : ℕ) :
    (pushPool index).encode position = pushPoolConstantBytecodes index := by
  simp only [pushPool, pushPoolConstantBytecodes]
  split <;> rfl

theorem encodeAll_trackerCall (position methodIndex : ℕ) :
    encodeAll position (trackerCallInstructions ci mi methodIndex) =
      trackerCall ci mi methodIndex := by
  simp only [trackerCallInstructions, trackerCall]
  split
  · rfl
  split
  · rfl
  split
  · rfl
  have call (place : ℕ) : (Instruction.plain Opcode.invokestatic
      [byte (methodIndex / 2 ^ 8), byte methodIndex]).encode place =
        [byte Opcode.invokestatic, byte (methodIndex / 2 ^ 8), byte methodIndex] := rfl
  split <;>
    simp only [encodeAll, encode_pushShort, encode_pushPool, call, List.append_nil,
      List.append_assoc]

theorem encodeAll_entry (position : ℕ) :
    encodeAll position (entryInstructions ci mi) = entryCode ci mi := by
  rw [entryInstructions, entryCode, encodeAll_append]
  cases mi.objectInitMethod <;> cases mi.skipCallReturnSites <;>
    simp only [if_true, if_false, Bool.false_eq_true, encodeAll_trackerCall, encodeAll]

theorem encodeAll_before (position opcode : ℕ) :
    encodeAll position (beforeInstructions ci mi opcode) = beforeCode ci mi opcode := by
  rw [beforeInstructions, beforeCode]
  split
  · exact encodeAll_trackerCall ci mi _ _
  · rfl

theorem encodeAll_after (position opcode : ℕ) :
    encodeAll position (afterInstructions ci mi opcode) = afterCode ci mi opcode := by
  rw [afterInstructions, afterCode]
  split
  · exact encodeAll_trackerCall ci mi _ _
  · rfl

variable {lengths : OpcodeLengths}

theorem pushShort_valid (number : ℕ) : (pushShort number).Valid lengths := by
  rw [pushShort]
  split
  · rename_i small
    have listed : Opcode.iconst_0 + number ∈ [3, 4, 5, 6, 7, 8] := by
      have cases : number = 0 ∨ number = 1 ∨ number = 2 ∨ number = 3 ∨ number = 4 ∨
        number = 5 := by omega
      rcases cases with rfl | rfl | rfl | rfl | rfl | rfl <;> decide
    have plain : [3, 4, 5, 6, 7, 8].all (fun opcode => Opcode.IsPlain opcode) = true := by decide
    exact ⟨of_decide_eq_true (List.all_eq_true.mp plain _ listed),
      lengths.single _ (List.mem_append_left [Opcode.aload_0, Opcode.dup] listed)⟩
  · split
    · exact ⟨by decide, lengths.double _ (by decide)⟩
    · exact ⟨by decide, lengths.triple _ (by decide)⟩

theorem pushPool_valid (index : ℕ) : (pushPool index).Valid lengths := by
  rw [pushPool]
  split
  · exact ⟨by decide, lengths.double _ (by decide)⟩
  · exact ⟨by decide, lengths.triple _ (by decide)⟩

theorem trackerCall_valid (methodIndex : ℕ) :
    ∀ instruction ∈ trackerCallInstructions ci mi methodIndex, instruction.Valid lengths := by
  have call : (Instruction.plain Opcode.invokestatic
      [byte (methodIndex / 2 ^ 8), byte methodIndex]).Valid lengths :=
    ⟨by decide, lengths.triple _ (by decide)⟩
  simp only [trackerCallInstructions]
  split
  · simp
  split
  · simpa using ⟨⟨by decide, lengths.single _ (by decide)⟩, call⟩
  split
  · simpa using ⟨⟨by decide, lengths.single _ (by decide)⟩, call⟩
  · have number : (if ci.number = ci.number % 2 ^ 15 then pushShort ci.number
        else pushPool ci.indices.classNumber).Valid lengths := by
      split
      · exact pushShort_valid _
      · exact pushPool_valid _
    intro instruction listed
    rcases List.mem_cons.mp listed with rfl | listed
    · exact number
    rcases List.mem_cons.mp listed with rfl | listed
    · exact pushShort_valid _
    obtain rfl := List.mem_singleton.mp listed
    exact call

end Calls

section Places

variable {ci : CrwClassImage} {mi : MethodImage} {listing : Listing} {widening : ℕ → ℤ}
  {lengths : OpcodeLengths} {code : List UInt8} {stop : ℕ} {position : ℕ}
  {instruction : Instruction}

/-- The second walk has widened what does not fit, and nothing is left to widen. -/
structure Widened (ci : CrwClassImage) (mi : MethodImage) (listing : Listing)
    (widening : ℕ → ℤ) : Prop where
  needed : WidenedAsNeeded listing widening
  settled : ∀ entry ∈ listing, Settled ci mi listing widening entry

theorem WidenedAsNeeded.le (needed : WidenedAsNeeded listing widening)
    {entry : ℕ × Instruction} (listed : entry ∈ listing) : widening entry.1 ≤ 5 := by
  have here := needed entry listed
  rcases entry with ⟨position, instruction⟩
  cases instruction <;> simp only [branchWidening] at here ⊢
  case jump => split at here <;> omega
  all_goals omega

/-- No instruction shrinks to nothing. -/
theorem Widened.size_lt (widened : Widened ci mi listing widening)
    (listed : (position, instruction) ∈ listing) :
    -(instruction.size position : ℤ) < widening position := by
  have needed := widened.needed _ listed
  have positive := instruction.size_pos position
  have bounds := next4ByteBoundary_bounds position
  cases instruction with
  | plain opcode operands =>
      dsimp only at needed
      omega
  | wide opcode operands =>
      dsimp only at needed
      omega
  | jump opcode delta =>
      simp only [branchWidening] at needed
      split at needed <;> omega
  | jumpWide opcode delta =>
      dsimp only at needed
      omega
  | tableswitch delta low high deltas =>
      simp only [Instruction.size] at needed ⊢
      omega
  | lookupswitch delta pairs =>
      simp only [Instruction.size] at needed ⊢
      omega

theorem Widened.growth_gt (widened : Widened ci mi listing widening) :
    ∀ entry ∈ listing, -(entry.2.size entry.1 : ℤ) < growth ci mi widening entry.1 entry.2 :=
  fun entry listed => by
    have grown := widened.size_lt listed
    rw [growth]
    omega

theorem newPosition_zero (lists : Lists lengths code 0 listing stop) :
    newPosition ci mi listing 0 widening = (entryCode ci mi).length := by
  rw [newPosition, shift_eq_zero (fun start item => item.size_pos start) lists.chain
    (Nat.le_refl 0)]
  omega

theorem newPosition_next (lists : Lists lengths code 0 listing stop)
    (listed : (position, instruction) ∈ listing) :
    newPosition ci mi listing (position + instruction.size position) widening =
      newPosition ci mi listing position widening + instruction.size position +
        growth ci mi widening position instruction := by
  rw [newPosition, newPosition, lists.chain.shift_next (fun start item => item.size_pos start)
    listed]
  omega

/-- Places keep their order. -/
theorem Widened.newPosition_lt (widened : Widened ci mi listing widening)
    (lists : Lists lengths code 0 listing stop) {place later : ℕ}
    (boundary : Boundary listing stop place) (laterBoundary : Boundary listing stop later)
    (ordered : place < later) :
    newPosition ci mi listing place widening < newPosition ci mi listing later widening := by
  have moved := lists.chain.moved_lt_moved (fun start item => item.size_pos start)
    widened.growth_gt boundary laterBoundary ordered
  rw [newPosition, newPosition]
  omega

theorem Lists.boundary_zero (lists : Lists lengths code 0 listing stop) :
    Boundary listing stop 0 := by
  rcases listing with _ | ⟨⟨start, instruction⟩, rest⟩
  · exact Or.inl lists.chain
  · obtain rfl := lists.chain.1
    exact Or.inr ⟨instruction, List.mem_cons_self⟩

/-- No place moves in front of the code that is injected at the entry. -/
theorem Widened.entry_le (widened : Widened ci mi listing widening)
    (lists : Lists lengths code 0 listing stop) {place : ℕ}
    (boundary : Boundary listing stop place) :
    ((entryCode ci mi).length : ℤ) ≤ newPosition ci mi listing place widening := by
  have start := @newPosition_zero ci mi listing widening lengths code stop lists
  rcases Nat.eq_zero_or_pos place with rfl | positive
  · exact start.ge
  · have ordered := widened.newPosition_lt lists lists.boundary_zero boundary positive
    omega

theorem Widened.newPlace_cast (widened : Widened ci mi listing widening)
    (lists : Lists lengths code 0 listing stop) {place : ℕ}
    (boundary : Boundary listing stop place) :
    newPosition ci mi listing place widening = newPlace ci mi listing widening place := by
  have first := widened.entry_le lists boundary
  rw [newPlace, Int.toNat_of_nonneg (by omega)]

/-- An instruction is written with as many bytes as it had and as it is widened by. -/
theorem Widened.length_relocated (widened : Widened ci mi listing widening)
    (lists : Lists lengths code 0 listing stop) (listed : (position, instruction) ∈ listing) :
    ((encodeAll (newPlace ci mi listing widening position)
        (relocated ci mi listing widening (position, instruction))).length : ℤ) =
      instruction.size position + widening position := by
  have needed := widened.needed _ listed
  have padded := (widened.settled _ listed).padded
  have placed := widened.newPlace_cast lists (Or.inr ⟨instruction, listed⟩)
  cases instruction with
  | plain opcode operands =>
      dsimp only at needed
      simp [relocated, encodeAll, Instruction.size, needed]
  | wide opcode operands =>
      dsimp only at needed
      simp [relocated, encodeAll, Instruction.size, needed]
  | jump opcode delta =>
      simp only [branchWidening] at needed
      simp only [relocated, Instruction.size]
      split at needed <;> rcases needed with same | same <;>
        simp [same, encodeAll, Instruction.size]
  | jumpWide opcode delta =>
      dsimp only at needed
      simp [relocated, encodeAll, Instruction.size, needed]
  | tableswitch delta low high deltas =>
      have bounds := next4ByteBoundary_bounds position
      have newBounds := next4ByteBoundary_bounds (newPlace ci mi listing widening position)
      simp only [Padded, paddingChange, placed, newNext4ByteBoundary] at padded
      simp only [next4ByteBoundary] at padded bounds newBounds
      simp only [relocated, encodeAll, List.append_nil, Instruction.length_encode,
        Instruction.size, List.length_map, next4ByteBoundary]
      omega
  | lookupswitch delta pairs =>
      have bounds := next4ByteBoundary_bounds position
      have newBounds := next4ByteBoundary_bounds (newPlace ci mi listing widening position)
      simp only [Padded, paddingChange, placed, newNext4ByteBoundary] at padded
      simp only [next4ByteBoundary] at padded bounds newBounds
      simp only [relocated, encodeAll, List.append_nil, Instruction.length_encode,
        Instruction.size, List.length_map, next4ByteBoundary]
      omega

/-- A jump to an instruction runs what is injected in front of it if the instruction returns. -/
theorem plain_of_before (valid : instruction.Valid lengths)
    (injects : beforeInstructions ci mi instruction.opcode ≠ []) :
    ∃ opcode operands, instruction = .plain opcode operands := by
  have returns : instruction.opcode ∈ Opcode.returns := by
    by_contra other
    exact injects (if_neg fun both => other both.1)
  have noBranch : (Opcode.shortBranches ++ Opcode.wideBranches).all
      (fun opcode => opcode ∉ Opcode.returns) = true := by decide
  have differ {opcode : ℕ} (branch : opcode ∈ Opcode.shortBranches ++ Opcode.wideBranches)
      (listed : opcode ∈ Opcode.returns) : False :=
    of_decide_eq_true (List.all_eq_true.mp noBranch opcode branch) listed
  cases instruction with
  | plain opcode operands => exact ⟨opcode, operands, rfl⟩
  | wide opcode operands => exact absurd returns (show Opcode.wide ∉ Opcode.returns by decide)
  | jump opcode delta => exact (differ (List.mem_append_left _ valid.1) returns).elim
  | jumpWide opcode delta => exact (differ (List.mem_append_right _ valid.1) returns).elim
  | tableswitch delta low high deltas =>
      exact absurd returns (show Opcode.tableswitch ∉ Opcode.returns by decide)
  | lookupswitch delta pairs =>
      exact absurd returns (show Opcode.lookupswitch ∉ Opcode.returns by decide)

/-- What stands in the new code for an instruction, as bytes. -/
theorem encodeAll_block (lists : Lists lengths code 0 listing stop)
    (listed : (position, instruction) ∈ listing) :
    encodeAll (newPlace ci mi listing widening position)
        (block ci mi listing widening (position, instruction)) =
      beforeCode ci mi instruction.opcode ++
        (encodeAll (newPlace ci mi listing widening position)
          (relocated ci mi listing widening (position, instruction)) ++
            afterCode ci mi instruction.opcode) := by
  rw [block, encodeAll_append, encodeAll_append, encodeAll_before, encodeAll_after]
  congr 2
  by_cases injects : beforeInstructions ci mi instruction.opcode = []
  · have none : beforeCode ci mi instruction.opcode = [] := by
      rw [← encodeAll_before ci mi 0, injects]
      rfl
    rw [none]
    rfl
  · rcases plain_of_before (lists.valid _ listed) injects with ⟨opcode, operands, rfl⟩
    rfl

/-- Behind what stands for an instruction stands what stands for the next one. -/
theorem Widened.newPlace_next (widened : Widened ci mi listing widening)
    (lists : Lists lengths code 0 listing stop) (listed : (position, instruction) ∈ listing) :
    newPlace ci mi listing widening (position + instruction.size position) =
      newPlace ci mi listing widening position +
        (encodeAll (newPlace ci mi listing widening position)
          (block ci mi listing widening (position, instruction))).length := by
  have next := @newPosition_next ci mi listing widening lengths code stop position instruction
    lists listed
  have here := widened.newPlace_cast lists (Or.inr ⟨instruction, listed⟩)
  have sized := widened.length_relocated lists listed
  rw [encodeAll_block lists listed, List.length_append, List.length_append]
  rw [newPlace, next, growth, here]
  omega

/-- What the third walk writes for some of the instructions. -/
def writtenCode (ci : CrwClassImage) (mi : MethodImage) (listing : Listing) (widening : ℕ → ℤ)
    (part : Listing) : List UInt8 :=
  part.flatMap fun entry =>
    (laidOut ci mi listing widening).injections entry.1 ++
      encodeAll (newPlace ci mi listing widening entry.1)
        (relocated ci mi listing widening entry)

/-- The bytes between where two instructions have moved. -/
theorem Widened.encodeAll_blocks (widened : Widened ci mi listing widening)
    (lists : Lists lengths code 0 listing stop) {part : Listing} {first last : ℕ}
    (chain : Chain Instruction.size first part last) (inside : ∀ entry ∈ part, entry ∈ listing) :
    leading ci mi listing first ++ encodeAll (newPlace ci mi listing widening first)
        (part.flatMap (block ci mi listing widening)) =
      writtenCode ci mi listing widening part ++ leading ci mi listing last := by
  induction part generalizing first with
  | nil =>
      obtain rfl : first = last := chain
      simp [writtenCode, encodeAll]
  | cons entry rest step =>
      rcases entry with ⟨start, instruction⟩
      rcases chain with ⟨rfl, restChain⟩
      have listed := inside _ List.mem_cons_self
      have positive := instruction.size_pos start
      have next := widened.newPlace_next lists listed
      have restBytes := step restChain fun entry found =>
        inside entry (List.mem_cons_of_mem _ found)
      have trailingHere : trailing ci mi listing start = beforeCode ci mi instruction.opcode :=
        lists.chain.flatMap_start (fun entry : ℕ × Instruction => beforeCode ci mi entry.2.opcode)
          (fun start item => item.size_pos start) listed
      have leadingNext : leading ci mi listing (start + instruction.size start) =
          afterCode ci mi instruction.opcode := by
        rw [leading, if_neg (by omega), lists.chain.flatMap_end
          (fun entry => afterCode ci mi entry.2.opcode) (fun start item => item.size_pos start)
          listed, List.nil_append]
      rw [List.flatMap_cons, encodeAll_append, ← next, encodeAll_block lists listed]
      rw [leadingNext] at restBytes
      simp only [writtenCode, List.flatMap_cons, laidOut, trailingHere, List.append_assoc]
        at restBytes ⊢
      rw [restBytes]

/-- The instructions of the new code are what is written, but for code behind the last one. -/
theorem Widened.encodeAll_assembled (widened : Widened ci mi listing widening)
    (lists : Lists lengths code 0 listing stop) :
    encodeAll 0 (assembled ci mi listing widening) =
      writtenCode ci mi listing widening listing ++ leading ci mi listing stop := by
  have start : newPlace ci mi listing widening 0 = (entryCode ci mi).length := by
    rw [newPlace, @newPosition_zero ci mi listing widening lengths code stop lists,
      Int.toNat_natCast]
  have first : leading ci mi listing 0 = entryCode ci mi := by
    have none : ∀ entry ∈ listing, ¬ entry.1 + entry.2.size entry.1 = 0 := fun entry _ => by
      have positive := entry.2.size_pos entry.1
      omega
    rw [leading, if_pos rfl, flatMap_of_none (fun entry : ℕ × Instruction =>
      afterCode ci mi entry.2.opcode) none, List.append_nil]
  have blocks := widened.encodeAll_blocks lists lists.chain fun _ listed => listed
  rw [first, start] at blocks
  rw [assembled, encodeAll_append, encodeAll_entry, Nat.zero_add, blocks]

/-- Places stay near enough for offsets of four bytes. -/
theorem Widened.newPosition_le (widened : Widened ci mi listing widening)
    (lists : Lists lengths code 0 listing stop) (place : ℕ) :
    newPosition ci mi listing place widening ≤ place + 18 + 23 * stop := by
  have entry := length_entryCode_le ci mi
  have moved : shift Instruction.size (growth ci mi widening) listing place ≤
      (23 : ℕ) * (stop - 0 : ℕ) :=
    lists.chain.shift_le (fun start item => item.size_pos start) fun entry listed => by
      have before := length_beforeCode_le ci mi entry.2.opcode
      have after := length_afterCode_le ci mi entry.2.opcode
      have needed := widened.needed.le listed
      rw [growth]
      omega
  rw [newPosition]
  omega

/-- An offset between two instructions of the code has four bytes at most. -/
theorem Widened.newDelta_bounds (widened : Widened ci mi listing widening)
    (lists : Lists lengths code 0 listing stop) (small : stop < 2 ^ 16)
    (targets : TargetsStart listing) (listed : (position, instruction) ∈ listing) {delta : ℤ}
    (isTarget : (position : ℤ) + delta ∈ instruction.targets position) :
    -2 ^ 30 ≤ newDelta ci mi listing widening position delta ∧
      newDelta ci mi listing widening position delta < 2 ^ 30 := by
  rcases targets _ listed _ isTarget with ⟨start, other, isStart, otherListed⟩
  have here := widened.entry_le lists (Or.inr ⟨instruction, listed⟩)
  have there := widened.entry_le lists (Or.inr ⟨other, otherListed⟩)
  have hereInside := (lists.chain.bounds listed).2
  have thereInside := (lists.chain.bounds otherListed).2
  have hereNear := widened.newPosition_le lists position
  have thereNear := widened.newPosition_le lists start
  rw [newDelta, isStart, Int.toNat_natCast]
  omega

/-- The relocated instructions can be read back. -/
theorem Widened.relocated_valid (widened : Widened ci mi listing widening)
    (lists : Lists lengths code 0 listing stop) (small : stop < 2 ^ 16)
    (targets : TargetsStart listing) (listed : (position, instruction) ∈ listing) :
    ∀ written ∈ relocated ci mi listing widening (position, instruction),
      written.Valid lengths := by
  have valid := lists.valid _ listed
  have needed := widened.needed _ listed
  have settled := widened.settled _ listed
  have bounds {delta : ℤ} (isTarget : (position : ℤ) + delta ∈ instruction.targets position) :=
    widened.newDelta_bounds lists small targets listed isTarget
  have fits {delta : ℤ} (isTarget : (position : ℤ) + delta ∈ instruction.targets position) :
      Fits4 (newDelta ci mi listing widening position delta) := by
    have near := bounds isTarget
    rw [Fits4]
    omega
  intro written found
  cases instruction with
  | plain opcode operands =>
      obtain rfl := List.mem_singleton.mp found
      exact valid
  | wide opcode operands =>
      obtain rfl := List.mem_singleton.mp found
      exact valid
  | jump opcode delta =>
      have near := bounds List.mem_cons_self
      dsimp only at needed
      simp only [relocated] at found
      by_cases narrow : widening position = 0
      · rw [if_pos narrow] at found
        obtain rfl := List.mem_singleton.mp found
        exact ⟨valid.1, settled narrow⟩
      rw [if_neg narrow] at found
      have isWide := needed.resolve_left narrow
      by_cases direct : opcode ∈ Opcode.unconditional
      · rw [branchWidening, if_pos direct] at isWide
        rw [if_pos isWide] at found
        obtain rfl := List.mem_singleton.mp found
        exact ⟨(lookup_wideForms direct).2, fits List.mem_cons_self⟩
      · rw [branchWidening, if_neg direct] at isWide
        rw [if_neg (by omega)] at found
        rcases List.mem_cons.mp found with rfl | found
        · exact ⟨(lookup_inverses valid.1 direct).2, by decide⟩
        · obtain rfl := List.mem_singleton.mp found
          refine ⟨by decide, ?_⟩
          rw [Fits4]
          omega
  | jumpWide opcode delta =>
      obtain rfl := List.mem_singleton.mp found
      exact ⟨valid.1, fits List.mem_cons_self⟩
  | tableswitch delta low high deltas =>
      obtain rfl := List.mem_singleton.mp found
      rcases valid with ⟨_, lowFits, highFits, counted, _⟩
      refine ⟨fits List.mem_cons_self, lowFits, highFits, by rwa [List.length_map], ?_⟩
      intro held isMoved
      rcases List.mem_map.mp isMoved with ⟨target, inTable, rfl⟩
      exact fits (List.mem_cons_of_mem _ (List.mem_map_of_mem inTable))
  | lookupswitch delta pairs =>
      obtain rfl := List.mem_singleton.mp found
      rcases valid with ⟨_, countFits, pairsFit⟩
      refine ⟨fits List.mem_cons_self, by rwa [List.length_map], ?_⟩
      intro held isMoved
      rcases List.mem_map.mp isMoved with ⟨pair, inTable, rfl⟩
      exact ⟨(pairsFit pair inTable).1, fits (List.mem_cons_of_mem _
        (List.mem_map_of_mem (f := fun pair : ℤ × ℤ => (position : ℤ) + pair.2) inTable))⟩

theorem Widened.assembled_valid (widened : Widened ci mi listing widening)
    (lists : Lists lengths code 0 listing stop) (small : stop < 2 ^ 16)
    (targets : TargetsStart listing) :
    ∀ written ∈ assembled ci mi listing widening, written.Valid lengths := by
  have called (methodIndex : ℕ) (written : Instruction) :=
    @trackerCall_valid ci mi lengths methodIndex written
  intro written found
  rcases List.mem_append.mp found with inEntry | inBlocks
  · rcases List.mem_append.mp inEntry with inObject | inCall
    · split at inObject
      · exact called _ _ inObject
      · simp at inObject
    · split at inCall
      · simp at inCall
      · exact called _ _ inCall
  · rcases List.mem_flatMap.mp inBlocks with ⟨⟨position, instruction⟩, listed, inBlock⟩
    rcases List.mem_append.mp inBlock with inBefore | inRest
    · rw [beforeInstructions] at inBefore
      split at inBefore
      · exact called _ _ inBefore
      · simp at inBefore
    rcases List.mem_append.mp inRest with inRelocated | inAfter
    · exact widened.relocated_valid lists small targets listed written inRelocated
    · rw [afterInstructions] at inAfter
      split at inAfter
      · exact called _ _ inAfter
      · simp at inAfter

end Places

end HeapScan.ClassFile
