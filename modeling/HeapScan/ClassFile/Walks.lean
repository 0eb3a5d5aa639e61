import HeapScan.ClassFile.Method
import HeapScan.Library.Relocation

/-!
# Walking the code

The three walks read the same instructions.  A walk that stands at an instruction of the
code reads over it and stands behind it; what the walk does to the method on the way is
computed from the instruction alone.
-/

namespace HeapScan.ClassFile

open BigEndian CrwClassImage

section Running

variable (mi : MethodImage) (ci : CrwClassImage)

theorem run_liftM {α : Type} (action : Crw α) :
    ((liftM action : CrwMethod α).run mi).run ci =
      (action.run ci).map fun result => ((result.1, mi), result.2) := by
  cases result : action.run ci with
  | none => simp [result]
  | some pair => simp [result]

@[simp]
theorem run_classImage : (classImage.run mi).run ci = some ((ci, mi), ci) := rfl

@[simp]
theorem run_inputCodeOffset :
    (inputCodeOffset.run mi).run ci =
      some ((ci.inputPosition - mi.startOfInputBytecodes, mi), ci) := rfl

@[simp]
theorem run_rewind :
    (rewindToBeginningOfInputBytecodes.run mi).run ci =
      some (((), mi), { ci with inputPosition := mi.startOfInputBytecodes }) := rfl

@[simp]
theorem run_adjustMap (at_ : ℕ) (offset : ℤ) :
    ((adjustMap at_ offset).run mi).run ci = some (((), mi.adjustMap at_ offset), ci) := rfl

theorem run_methodAssert {holds : Bool} (true_ : holds = true) :
    ((methodAssert holds).run mi).run ci = some (((), mi), ci) := by
  rw [true_]
  rfl

theorem run_methodCodeMap {position : ℕ} (inside : position ≤ mi.codeLen) :
    ((methodCodeMap position).run mi).run ci = some ((mi.map position, mi), ci) := by
  simp [methodCodeMap, methodAssert, inside]

theorem run_skip {count : ℕ} (small : count < 2 ^ 32)
    (inside : ci.inputPosition + count ≤ ci.input.length) :
    (skip count).run ci = some ((), ci.advance count) := by
  have kept : ((count : ℤ) % 2 ^ 32).toNat = count := by omega
  simp only [skip, StateT.run_bind, run_readBytes, kept, slice, if_pos inside, Option.map_some,
    Option.bind_eq_bind, Option.bind_some, StateT.run_pure, Option.pure_def]

theorem run_opcodeLength {lengths : OpcodeLengths} {opcode : ℕ} (below : opcode ≤ Opcode.max) :
    ((opcodeLength lengths opcode).run mi).run ci = some ((lengths.length opcode, mi), ci) := by
  simp [opcodeLength, methodAssert, below]

end Running

/-- The bytes of the method that is rewritten. -/
def MethodImage.code (mi : MethodImage) (ci : CrwClassImage) : List UInt8 :=
  (ci.input.drop mi.startOfInputBytecodes).take mi.codeLen

/-- The input has the whole method and is read at a position of it. -/
structure ReadsAt (mi : MethodImage) (ci : CrwClassImage) (position : ℕ) : Prop where
  whole : mi.startOfInputBytecodes + mi.codeLen ≤ ci.input.length
  small : mi.codeLen < 2 ^ 16
  reads : ci.inputPosition = mi.startOfInputBytecodes + position

section Reading

variable {mi : MethodImage} {ci : CrwClassImage} {position : ℕ} {lengths : OpcodeLengths}

theorem ReadsAt.length_code (reads : ReadsAt mi ci position) :
    (mi.code ci).length = mi.codeLen := by
  have whole := reads.whole
  rw [MethodImage.code, List.length_take, List.length_drop]
  omega

theorem ReadsAt.offset (reads : ReadsAt mi ci position) :
    ci.inputPosition - mi.startOfInputBytecodes = position := by
  rw [reads.reads, Nat.add_sub_cancel_left]

theorem ReadsAt.advance (reads : ReadsAt mi ci position) (count : ℕ) :
    ReadsAt mi (ci.advance count) (position + count) where
  whole := reads.whole
  small := reads.small
  reads := by rw [advance_inputPosition, reads.reads, Nat.add_assoc]

theorem ReadsAt.size_le (reads : ReadsAt mi ci position) {instruction : Instruction}
    (stands : instruction.StandsAt (mi.code ci) position) :
    position + instruction.size position ≤ mi.codeLen := by
  rw [← reads.length_code]
  exact stands.size_le

/-- The walks read the same bytes of an instruction, and go on behind it. -/
theorem readWide_run (reads : ReadsAt mi ci position) {opcode : ℕ} {operands : List UInt8}
    (valid : (Instruction.wide opcode operands).Valid lengths)
    (stands : (Instruction.wide opcode operands).StandsAt (mi.code ci) position) :
    (readWide.run mi).run (ci.advance 1) =
      some (((), mi), ci.advance (2 + operands.length)) := by
  have opcodeRead := u1_of_window stands.2.1
  have inside := reads.size_le stands
  have whole := reads.whole
  have listed := valid.1
  have counted := valid.2
  simp only [Instruction.size] at inside
  rw [← Nat.add_assoc, ← reads.reads] at opcodeRead
  have placed := reads.reads
  have atLeast : 2 ≤ operands.length := by
    rw [counted]
    split <;> decide
  rcases @u2_of_le ci.input (ci.inputPosition + 2) (by omega) with ⟨index, indexRead⟩
  by_cases increment : opcode = Opcode.iinc
  · subst increment
    simp only [if_true] at counted
    rcases @u1_of_lt ci.input (ci.inputPosition + 4) (by omega) with ⟨high, highRead⟩
    rcases @u1_of_lt ci.input (ci.inputPosition + 5) (by omega) with ⟨low, lowRead⟩
    simp [readWide, run_readU1, run_readU2, verifyOpcWide, methodAssert, listed, counted,
      opcodeRead, indexRead, highRead, lowRead]
  · rw [if_neg increment] at counted
    simp [readWide, run_readU1, run_readU2, verifyOpcWide, methodAssert, listed, counted,
      opcodeRead, indexRead, increment]

/-- The padding of a switch is read over. -/
theorem ReadsAt.skip_padding (reads : ReadsAt mi ci position)
    (inside : next4ByteBoundary position ≤ mi.codeLen) :
    (skip (next4ByteBoundary position - (position + 1))).run (ci.advance 1) =
      some ((), ci.advance (next4ByteBoundary position - position)) := by
  have bounds := next4ByteBoundary_bounds position
  have whole := reads.whole
  have placed := reads.reads
  have pad : ((next4ByteBoundary position : ℤ) - (position + 1)) =
      (next4ByteBoundary position - (position + 1) : ℕ) := by omega
  have split_ : next4ByteBoundary position - position =
      1 + (next4ByteBoundary position - (position + 1)) := by omega
  rw [pad, split_, ← advance_advance]
  refine run_skip _ (by omega) ?_
  rw [advance_inputPosition, advance_input]
  omega

theorem ReadsAt.at_header (reads : ReadsAt mi ci position) (offset : ℕ) :
    mi.startOfInputBytecodes + (next4ByteBoundary position + offset) =
      ci.inputPosition + (next4ByteBoundary position - position + offset) := by
  have bounds := next4ByteBoundary_bounds position
  have placed := reads.reads
  omega

theorem readTableswitch_run (reads : ReadsAt mi ci position) {delta low high : ℤ}
    {deltas : List ℤ} (valid : (Instruction.tableswitch delta low high deltas).Valid lengths)
    (stands : (Instruction.tableswitch delta low high deltas).StandsAt (mi.code ci) position) :
    ((readTableswitch position).run mi).run (ci.advance 1) =
      some (((), mi), ci.advance
        ((Instruction.tableswitch delta low high deltas).size position)) := by
  have whole := reads.whole
  have placed := reads.reads
  have bounds := next4ByteBoundary_bounds position
  have small := reads.small
  have inside := reads.size_le stands
  simp only [Instruction.size] at inside
  have counted : (high + 1 - low) * 4 = (deltas.length * 4 : ℕ) := by
    have sized := valid.2.2.2.1
    omega
  rcases s4_eq_some stands.2.1 with ⟨unsigned, deltaRead, _⟩
  have deltaRead := u4_of_window deltaRead
  have lowRead := s4_of_window stands.2.2.1
  have highRead := s4_of_window stands.2.2.2.1
  rw [reads.at_header] at lowRead highRead
  rw [← Nat.add_zero (next4ByteBoundary position), reads.at_header, Nat.add_zero] at deltaRead
  have padding := reads.skip_padding (by omega)
  have sized : (Instruction.tableswitch delta low high deltas).size position =
      next4ByteBoundary position - position + 12 + deltas.length * 4 := by
    rw [Instruction.size]
    omega
  have offsets : (skip ((high + 1 - low) * 4)).run
      (ci.advance (next4ByteBoundary position - position + 12)) =
        some ((), ci.advance
          (next4ByteBoundary position - position + 12 + deltas.length * 4)) := by
    rw [counted, ← advance_advance ci _ (deltas.length * 4)]
    refine @run_skip _ (deltas.length * 4) (by omega) ?_
    rw [advance_inputPosition, advance_input]
    omega
  rw [sized]
  simp [readTableswitch, run_readU4, run_readInt, padding, deltaRead, lowRead, highRead, offsets,
    Nat.add_assoc]

theorem readLookupswitch_run (reads : ReadsAt mi ci position) {delta : ℤ}
    {pairs : List (ℤ × ℤ)}
    (stands : (Instruction.lookupswitch delta pairs).StandsAt (mi.code ci) position) :
    ((readLookupswitch position).run mi).run (ci.advance 1) =
      some (((), mi), ci.advance ((Instruction.lookupswitch delta pairs).size position)) := by
  have whole := reads.whole
  have placed := reads.reads
  have bounds := next4ByteBoundary_bounds position
  have small := reads.small
  have inside := reads.size_le stands
  simp only [Instruction.size] at inside
  have counted : (pairs.length : ℤ) * 8 = (pairs.length * 8 : ℕ) := by omega
  rcases s4_eq_some stands.2.1 with ⟨unsigned, deltaRead, _⟩
  have deltaRead := u4_of_window deltaRead
  have countRead := s4_of_window stands.2.2.1
  rw [reads.at_header] at countRead
  rw [← Nat.add_zero (next4ByteBoundary position), reads.at_header, Nat.add_zero] at deltaRead
  have padding := reads.skip_padding (by omega)
  have sized : (Instruction.lookupswitch delta pairs).size position =
      next4ByteBoundary position - position + 8 + pairs.length * 8 := by
    rw [Instruction.size]
    omega
  have offsets : (skip ((pairs.length : ℤ) * 8)).run
      (ci.advance (next4ByteBoundary position - position + 8)) =
        some ((), ci.advance (next4ByteBoundary position - position + 8 + pairs.length * 8)) := by
    rw [counted, ← advance_advance ci _ (pairs.length * 8)]
    refine @run_skip _ (pairs.length * 8) (by omega) ?_
    rw [advance_inputPosition, advance_input]
    omega
  rw [sized]
  simp [readLookupswitch, run_readU4, run_readInt, padding, deltaRead, countRead, offsets,
    Nat.add_assoc]

/-- The operands of an instruction that no walk looks into are read over. -/
theorem ReadsAt.skip_operands (reads : ReadsAt mi ci position) {opcode size : ℕ}
    (sized : lengths.length opcode = size) (positive : 0 < size)
    (inside : position + size ≤ mi.codeLen) :
    (skip ((lengths.length opcode : ℤ) - 1)).run (ci.advance 1) = some ((), ci.advance size) := by
  have whole := reads.whole
  have small := reads.small
  have placed := reads.reads
  have counted : (lengths.length opcode : ℤ) - 1 = (size - 1 : ℕ) := by omega
  have split_ : size = 1 + (size - 1) := by omega
  rw [counted]
  conv => rhs; rw [split_, ← advance_advance]
  refine run_skip _ (by omega) ?_
  rw [advance_inputPosition, advance_input]
  omega

theorem readOperands_run (reads : ReadsAt mi ci position) {instruction : Instruction}
    (valid : instruction.Valid lengths) (stands : instruction.StandsAt (mi.code ci) position)
    (notWide : instruction.opcode ≠ Opcode.wide) :
    ((readOperands lengths position instruction.opcode).run mi).run (ci.advance 1) =
      some (((), mi), ci.advance (instruction.size position)) := by
  have inside := reads.size_le stands
  cases instruction with
  | plain opcode operands =>
      rcases valid with ⟨⟨below, _, noTable, noLookup, _, _⟩, sized⟩
      have skipped := reads.skip_operands sized (by omega)
        (by simpa [Instruction.size] using inside)
      simp [readOperands, Instruction.opcode, noTable, noLookup, run_opcodeLength _ _ below,
        skipped, Instruction.size]
  | wide opcode operands => exact absurd rfl notWide
  | jump opcode delta =>
      rcases Opcode.ne_of_shortBranch valid.1 with ⟨_, noTable, noLookup⟩
      have below := Opcode.le_max_of_mem (List.mem_append_left _ valid.1)
      have skipped := reads.skip_operands (lengths.shortBranch opcode valid.1) (by omega) inside
      simp [readOperands, Instruction.opcode, noTable, noLookup, run_opcodeLength _ _ below,
        skipped, Instruction.size]
  | jumpWide opcode delta =>
      rcases Opcode.ne_of_wideBranch valid.1 with ⟨_, noTable, noLookup, _⟩
      have below := Opcode.le_max_of_mem (List.mem_append_right _ (List.mem_append_left _ valid.1))
      have skipped := reads.skip_operands (lengths.wideBranch opcode valid.1) (by omega) inside
      simp [readOperands, Instruction.opcode, noTable, noLookup, run_opcodeLength _ _ below,
        skipped, Instruction.size]
  | tableswitch delta low high deltas =>
      simp [readOperands, Instruction.opcode, readTableswitch_run reads valid stands]
  | lookupswitch delta pairs =>
      simp [readOperands, Instruction.opcode, readLookupswitch_run reads stands]

section Loops

variable {body : CrwMethod Unit} {fuel : ℕ}

theorem whileTrue_stop (reads : ReadsAt mi ci mi.codeLen) :
    ((whileTrue (fuel + 1) moreBytecodes body).run mi).run ci = some (((), mi), ci) := by
  simp [whileTrue, moreBytecodes, reads.offset]

theorem whileTrue_step (reads : ReadsAt mi ci position) (more : position < mi.codeLen)
    {next : MethodImage} {nextCi : CrwClassImage}
    (walked : (body.run mi).run ci = some (((), next), nextCi)) :
    ((whileTrue (fuel + 1) moreBytecodes body).run mi).run ci =
      ((whileTrue fuel moreBytecodes body).run next).run nextCi := by
  simp [whileTrue, moreBytecodes, reads.offset, more, walked]

end Loops

end Reading

end HeapScan.ClassFile
