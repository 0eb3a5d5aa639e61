import HeapScan.Library.BigEndian

/-!
# Bytecode instructions

The rewriter reads an instruction in each of its three walks over a method.  Here stands
what it takes an instruction to be: the opcodes it treats specially, an instruction read at
a position of the code, and the bytes of one that is written there.

The opcodes are those of the Java virtual machine.  The table of instruction lengths comes
with the development kit (`JVM_OPCODE_LENGTH_INITIALIZER`) and is a parameter.
-/

namespace HeapScan.ClassFile

open BigEndian TwosComplement

namespace Opcode

abbrev iconst_0 : ℕ := 3
abbrev bipush : ℕ := 16
abbrev sipush : ℕ := 17
abbrev ldc : ℕ := 18
abbrev ldc_w : ℕ := 19
abbrev iload : ℕ := 21
abbrev lload : ℕ := 22
abbrev fload : ℕ := 23
abbrev dload : ℕ := 24
abbrev aload : ℕ := 25
abbrev aload_0 : ℕ := 42
abbrev istore : ℕ := 54
abbrev lstore : ℕ := 55
abbrev fstore : ℕ := 56
abbrev dstore : ℕ := 57
abbrev astore : ℕ := 58
abbrev dup : ℕ := 89
abbrev iinc : ℕ := 132
abbrev ifeq : ℕ := 153
abbrev ifne : ℕ := 154
abbrev iflt : ℕ := 155
abbrev ifge : ℕ := 156
abbrev ifgt : ℕ := 157
abbrev ifle : ℕ := 158
abbrev if_icmpeq : ℕ := 159
abbrev if_icmpne : ℕ := 160
abbrev if_icmplt : ℕ := 161
abbrev if_icmpge : ℕ := 162
abbrev if_icmpgt : ℕ := 163
abbrev if_icmple : ℕ := 164
abbrev if_acmpeq : ℕ := 165
abbrev if_acmpne : ℕ := 166
abbrev goto : ℕ := 167
abbrev jsr : ℕ := 168
abbrev ret : ℕ := 169
abbrev tableswitch : ℕ := 170
abbrev lookupswitch : ℕ := 171
abbrev ireturn : ℕ := 172
abbrev lreturn : ℕ := 173
abbrev freturn : ℕ := 174
abbrev dreturn : ℕ := 175
abbrev areturn : ℕ := 176
abbrev return_ : ℕ := 177
abbrev invokestatic : ℕ := 184
abbrev new : ℕ := 187
abbrev newarray : ℕ := 188
abbrev anewarray : ℕ := 189
abbrev wide : ℕ := 196
abbrev multianewarray : ℕ := 197
abbrev ifnull : ℕ := 198
abbrev ifnonnull : ℕ := 199
abbrev goto_w : ℕ := 200
abbrev jsr_w : ℕ := 201

/-- `JVM_OPC_MAX`. -/
abbrev max : ℕ := 201

/-- The branches whose offset has two bytes. -/
def shortBranches : List ℕ :=
  [jsr, goto, ifeq, ifge, ifgt, ifle, iflt, ifne, if_icmpeq, if_icmpne, if_icmpge, if_icmpgt,
    if_icmple, if_icmplt, if_acmpeq, if_acmpne, ifnull, ifnonnull]

/-- The short branches that are widened without a second branch. -/
def unconditional : List ℕ := [jsr, goto]

def wideBranches : List ℕ := [jsr_w, goto_w]

/-- The opcodes that `wide` can stand before. -/
def widened : List ℕ :=
  [aload, astore, fload, fstore, iload, istore, lload, lstore, dload, dstore, ret, iinc]

def returns : List ℕ := [return_, ireturn, lreturn, freturn, dreturn, areturn]

def arrayAllocations : List ℕ := [newarray, anewarray, multianewarray]

/-- The branch that is taken where the given one is not. -/
def inverses : List (ℕ × ℕ) :=
  [(ifeq, ifne), (ifge, iflt), (ifgt, ifle), (ifle, ifgt), (iflt, ifge), (ifne, ifeq),
    (if_icmpeq, if_icmpne), (if_icmpne, if_icmpeq), (if_icmpge, if_icmplt),
    (if_icmpgt, if_icmple), (if_icmple, if_icmpgt), (if_icmplt, if_icmpge),
    (if_acmpeq, if_acmpne), (if_acmpne, if_acmpeq), (ifnull, ifnonnull), (ifnonnull, ifnull)]

/-- The branch with a four byte offset that stands for an unconditional one. -/
def wideForms : List (ℕ × ℕ) := [(jsr, jsr_w), (goto, goto_w)]

/-- The opcodes that are read with their opcode length only. -/
def IsPlain (opcode : ℕ) : Prop :=
  opcode ≤ max ∧ opcode ≠ wide ∧ opcode ≠ tableswitch ∧ opcode ≠ lookupswitch ∧
    opcode ∉ shortBranches ∧ opcode ∉ wideBranches

instance (opcode : ℕ) : Decidable (IsPlain opcode) :=
  inferInstanceAs (Decidable (_ ∧ _ ∧ _ ∧ _ ∧ _ ∧ _))

theorem ne_of_shortBranch {opcode : ℕ} (branch : opcode ∈ shortBranches) :
    opcode ≠ wide ∧ opcode ≠ tableswitch ∧ opcode ≠ lookupswitch := by
  have all : shortBranches.all (fun opcode =>
      opcode ≠ wide ∧ opcode ≠ tableswitch ∧ opcode ≠ lookupswitch) = true := by decide
  exact of_decide_eq_true (List.all_eq_true.mp all opcode branch)

theorem ne_of_wideBranch {opcode : ℕ} (branch : opcode ∈ wideBranches) :
    opcode ≠ wide ∧ opcode ≠ tableswitch ∧ opcode ≠ lookupswitch ∧
      opcode ∉ shortBranches := by
  have all : wideBranches.all (fun opcode => opcode ≠ wide ∧ opcode ≠ tableswitch ∧
      opcode ≠ lookupswitch ∧ opcode ∉ shortBranches) = true := by decide
  exact of_decide_eq_true (List.all_eq_true.mp all opcode branch)

end Opcode

/--
`_opcode_length`.  The first walk takes the lengths of the branches from it, and the
injected code is written with the lengths that the last fields name.
-/
structure OpcodeLengths where
  length : ℕ → ℕ
  shortBranch : ∀ opcode ∈ Opcode.shortBranches, length opcode = 3
  wideBranch : ∀ opcode ∈ Opcode.wideBranches, length opcode = 5
  single : ∀ opcode ∈ [3, 4, 5, 6, 7, 8, Opcode.aload_0, Opcode.dup], length opcode = 1
  double : ∀ opcode ∈ [Opcode.bipush, Opcode.ldc], length opcode = 2
  triple : ∀ opcode ∈ [Opcode.sipush, Opcode.ldc_w, Opcode.invokestatic], length opcode = 3

/-- The lengths that the virtual machine specification gives. -/
def jvmLength (opcode : ℕ) : ℕ :=
  if opcode ∈ [16, 18, 188, 169] ∨ 21 ≤ opcode ∧ opcode ≤ 25 ∨ 54 ≤ opcode ∧ opcode ≤ 58 then 2
  else if opcode ∈ [17, 19, 20, 132, 187, 189, 192, 193, 198, 199] ∨
    153 ≤ opcode ∧ opcode ≤ 168 ∨ 178 ≤ opcode ∧ opcode ≤ 184 then 3
  else if opcode = 197 then 4
  else if opcode ∈ [185, 186, 200, 201] then 5
  else 1

def jvmLengths : OpcodeLengths where
  length := jvmLength
  shortBranch := by decide
  wideBranch := by decide
  single := by decide
  double := by decide
  triple := by decide

/-- `NEXT_4BYTE_BOUNDARY`. -/
def next4ByteBoundary (opcodePos : ℕ) : ℕ := (opcodePos + 4) / 4 * 4

/-- An instruction; the operands of one that the rewriter copies are bytes. -/
inductive Instruction where
  | plain (opcode : ℕ) (operands : List UInt8)
  | wide (opcode : ℕ) (operands : List UInt8)
  | jump (opcode : ℕ) (delta : ℤ)
  | jumpWide (opcode : ℕ) (delta : ℤ)
  | tableswitch (delta low high : ℤ) (deltas : List ℤ)
  | lookupswitch (delta : ℤ) (pairs : List (ℤ × ℤ))
deriving DecidableEq

namespace Instruction

def opcode : Instruction → ℕ
  | plain opcode _ | jump opcode _ | jumpWide opcode _ => opcode
  | wide _ _ => Opcode.wide
  | tableswitch _ _ _ _ => Opcode.tableswitch
  | lookupswitch _ _ => Opcode.lookupswitch

/-- The bytes that the instruction takes at a position. -/
def size (position : ℕ) : Instruction → ℕ
  | plain _ operands => 1 + operands.length
  | wide _ operands => 2 + operands.length
  | jump _ _ => 3
  | jumpWide _ _ => 5
  | tableswitch _ _ _ deltas => next4ByteBoundary position - position + (12 + 4 * deltas.length)
  | lookupswitch _ pairs => next4ByteBoundary position - position + (8 + 8 * pairs.length)

/-- The bytes of the instruction at a position; switches are padded with zeros. -/
def encode (position : ℕ) : Instruction → List UInt8
  | plain opcode operands => byte opcode :: operands
  | wide opcode operands => byte Opcode.wide :: byte opcode :: operands
  | jump opcode delta => byte opcode :: bytes2 delta
  | jumpWide opcode delta => byte opcode :: bytes4 delta
  | tableswitch delta low high deltas =>
      byte Opcode.tableswitch ::
        (List.replicate (next4ByteBoundary position - (position + 1)) 0 ++
          (bytes4 delta ++ (bytes4 low ++ (bytes4 high ++ deltas.flatMap bytes4))))
  | lookupswitch delta pairs =>
      byte Opcode.lookupswitch ::
        (List.replicate (next4ByteBoundary position - (position + 1)) 0 ++
          (bytes4 delta ++ (bytes4 pairs.length ++
            pairs.flatMap fun pair => bytes4 pair.1 ++ bytes4 pair.2)))

end Instruction

variable (lengths : OpcodeLengths)

/-- The instruction that the code has at a position. -/
def decodeAt (code : List UInt8) (position : ℕ) : Option Instruction := do
  let opcode ← u1 code position
  if opcode = Opcode.wide then
    let wopcode ← u1 code (position + 1)
    if wopcode ∈ Opcode.widened then
      let operands ← slice code (position + 2) (if wopcode = Opcode.iinc then 4 else 2)
      return .wide wopcode operands
    else none
  else if opcode = Opcode.tableswitch then
    let header := next4ByteBoundary position
    let delta ← s4 code header
    let low ← s4 code (header + 4)
    let high ← s4 code (header + 8)
    if low ≤ high + 1 then
      let deltas ← s4s code (header + 12) (high + 1 - low).toNat
      return .tableswitch delta low high deltas
    else none
  else if opcode = Opcode.lookupswitch then
    let header := next4ByteBoundary position
    let delta ← s4 code header
    let npairs ← s4 code (header + 4)
    if 0 ≤ npairs then
      let pairs ← s4Pairs code (header + 8) npairs.toNat
      return .lookupswitch delta pairs
    else none
  else if opcode ∈ Opcode.shortBranches then
    let delta ← s2 code (position + 1)
    return .jump opcode delta
  else if opcode ∈ Opcode.wideBranches then
    let delta ← s4 code (position + 1)
    return .jumpWide opcode delta
  else if opcode ≤ Opcode.max ∧ 0 < lengths.length opcode then
    let operands ← slice code (position + 1) (lengths.length opcode - 1)
    return .plain opcode operands
  else none

/-- Whether an instruction can be written so that it is read back. -/
def Instruction.Valid : Instruction → Prop
  | .plain opcode operands =>
      Opcode.IsPlain opcode ∧ lengths.length opcode = 1 + operands.length
  | .wide opcode operands => opcode ∈ Opcode.widened ∧
      operands.length = if opcode = Opcode.iinc then 4 else 2
  | .jump opcode delta => opcode ∈ Opcode.shortBranches ∧ Fits2 delta
  | .jumpWide opcode delta => opcode ∈ Opcode.wideBranches ∧ Fits4 delta
  | .tableswitch delta low high deltas => Fits4 delta ∧ Fits4 low ∧ Fits4 high ∧
      (deltas.length : ℤ) = high + 1 - low ∧ ∀ held ∈ deltas, Fits4 held
  | .lookupswitch delta pairs => Fits4 delta ∧ Fits4 pairs.length ∧
      ∀ pair ∈ pairs, Fits4 pair.1 ∧ Fits4 pair.2

/-- The code has at `position` what the rewriter reads for the instruction. -/
def Instruction.StandsAt (code : List UInt8) (position : ℕ) : Instruction → Prop
  | .plain opcode operands => u1 code position = some opcode ∧
      slice code (position + 1) operands.length = some operands
  | .wide opcode operands => u1 code position = some Opcode.wide ∧
      u1 code (position + 1) = some opcode ∧
      slice code (position + 2) operands.length = some operands
  | .jump opcode delta => u1 code position = some opcode ∧ s2 code (position + 1) = some delta
  | .jumpWide opcode delta => u1 code position = some opcode ∧
      s4 code (position + 1) = some delta
  | .tableswitch delta low high deltas => u1 code position = some Opcode.tableswitch ∧
      s4 code (next4ByteBoundary position) = some delta ∧
      s4 code (next4ByteBoundary position + 4) = some low ∧
      s4 code (next4ByteBoundary position + 8) = some high ∧
      s4s code (next4ByteBoundary position + 12) deltas.length = some deltas
  | .lookupswitch delta pairs => u1 code position = some Opcode.lookupswitch ∧
      s4 code (next4ByteBoundary position) = some delta ∧
      s4 code (next4ByteBoundary position + 4) = some (pairs.length : ℤ) ∧
      s4Pairs code (next4ByteBoundary position + 8) pairs.length = some pairs

theorem next4ByteBoundary_bounds (position : ℕ) :
    position < next4ByteBoundary position ∧ next4ByteBoundary position ≤ position + 4 := by
  rw [next4ByteBoundary]
  omega

theorem Instruction.size_pos (position : ℕ) (instruction : Instruction) :
    0 < instruction.size position := by
  have bounds := next4ByteBoundary_bounds position
  cases instruction <;> simp only [size] <;> omega

@[simp]
theorem Instruction.length_encode (position : ℕ) (instruction : Instruction) :
    (instruction.encode position).length = instruction.size position := by
  have bounds := next4ByteBoundary_bounds position
  cases instruction with
  | plain opcode operands =>
      simp only [encode, size, List.length_cons]
      omega
  | wide opcode operands =>
      simp only [encode, size, List.length_cons]
      omega
  | jump opcode delta => rfl
  | jumpWide opcode delta => rfl
  | tableswitch delta low high deltas =>
      simp only [encode, size, List.length_cons, List.length_append, List.length_replicate,
        length_bytes4, length_flatMap_bytes4]
      omega
  | lookupswitch delta pairs =>
      simp only [encode, size, List.length_cons, List.length_append, List.length_replicate,
        length_bytes4, length_flatMap_pairs]
      omega

theorem Instruction.StandsAt.size_le {code : List UInt8} {position : ℕ} {instruction : Instruction}
    (stands : instruction.StandsAt code position) :
    position + instruction.size position ≤ code.length := by
  have bounds := next4ByteBoundary_bounds position
  cases instruction with
  | plain opcode operands =>
      have inside := (slice_eq_some stands.2).1
      simp only [size]
      omega
  | wide opcode operands =>
      have inside := (slice_eq_some stands.2.2).1
      simp only [size]
      omega
  | jump opcode delta =>
      rcases s2_eq_some stands.2 with ⟨_, found, _⟩
      exact u2_le_length found
  | jumpWide opcode delta => exact s4_le_length stands.2
  | tableswitch delta low high deltas =>
      have header := s4_le_length stands.2.2.2.1
      have inside := (s4s_eq_some stands.2.2.2.2).2.2 (by omega)
      simp only [size]
      omega
  | lookupswitch delta pairs =>
      have header := s4_le_length stands.2.2.1
      have inside := (s4Pairs_eq_some stands.2.2.2).2.2 (by omega)
      simp only [size]
      omega

section Decoding

variable {lengths} {code : List UInt8} {position : ℕ} {instruction : Instruction}

theorem decodeAt_of_standsAt (valid : instruction.Valid lengths)
    (stands : instruction.StandsAt code position) :
    decodeAt lengths code position = some instruction := by
  cases instruction with
  | plain opcode operands =>
      rcases valid with ⟨⟨below, noWide, noTable, noLookup, noShort, noLong⟩, sized⟩
      have positive : opcode ≤ Opcode.max ∧ 0 < lengths.length opcode := by omega
      have counted : lengths.length opcode - 1 = operands.length := by omega
      simp only [decodeAt, stands.1, noWide, noTable, noLookup, noShort, noLong, positive, counted,
        stands.2, if_true, if_false, and_self, Option.bind_eq_bind, Option.bind_some,
        Option.pure_def]
  | wide opcode operands =>
      have read := stands.2.2
      rw [valid.2] at read
      simp only [decodeAt, stands.1, stands.2.1, valid.1, read, if_true, Option.bind_eq_bind,
        Option.bind_some, Option.pure_def]
  | jump opcode delta =>
      rcases Opcode.ne_of_shortBranch valid.1 with ⟨noWide, noTable, noLookup⟩
      simp only [decodeAt, stands.1, noWide, noTable, noLookup, valid.1, stands.2, if_true,
        if_false, Option.bind_eq_bind, Option.bind_some, Option.pure_def]
  | jumpWide opcode delta =>
      rcases Opcode.ne_of_wideBranch valid.1 with ⟨noWide, noTable, noLookup, noShort⟩
      simp only [decodeAt, stands.1, noWide, noTable, noLookup, noShort, valid.1, stands.2,
        if_true, if_false, Option.bind_eq_bind, Option.bind_some, Option.pure_def]
  | tableswitch delta low high deltas =>
      rcases stands with ⟨opcodeRead, deltaRead, lowRead, highRead, deltasRead⟩
      have sized := valid.2.2.2.1
      have counted : (high + 1 - low).toNat = deltas.length := by omega
      have ordered : low ≤ high + 1 := by omega
      simp [decodeAt, opcodeRead, deltaRead, lowRead, highRead, ordered, counted, deltasRead]
  | lookupswitch delta pairs =>
      rcases stands with ⟨opcodeRead, deltaRead, countRead, pairsRead⟩
      simp [decodeAt, opcodeRead, deltaRead, countRead, pairsRead]

theorem standsAt_of_decodeAt (decoded : decodeAt lengths code position = some instruction) :
    instruction.Valid lengths ∧ instruction.StandsAt code position := by
  simp only [decodeAt, Option.bind_eq_bind, Option.bind_eq_some_iff, Option.pure_def] at decoded
  rcases decoded with ⟨opcode, opcodeRead, decoded⟩
  split at decoded
  · rename_i isWide
    simp only [Option.bind_eq_some_iff, Option.ite_none_right_eq_some, Option.some.injEq]
      at decoded
    rcases decoded with ⟨wopcode, wopcodeRead, allowed, operands, operandsRead, rfl⟩
    have counted := length_slice operandsRead
    exact ⟨⟨allowed, counted⟩, isWide ▸ opcodeRead, wopcodeRead, counted ▸ operandsRead⟩
  split at decoded
  · rename_i isTable
    simp only [Option.bind_eq_some_iff, Option.ite_none_right_eq_some, Option.some.injEq]
      at decoded
    rcases decoded with ⟨delta, deltaRead, low, lowRead, high, highRead, ordered, deltas,
      deltasRead, rfl⟩
    rcases s4s_eq_some deltasRead with ⟨counted, fitting, _⟩
    refine ⟨⟨fits4_of_s4 deltaRead, fits4_of_s4 lowRead, fits4_of_s4 highRead, ?_, fitting⟩,
      isTable ▸ opcodeRead, deltaRead, lowRead, highRead, counted ▸ deltasRead⟩
    omega
  split at decoded
  · rename_i isLookup
    simp only [Option.bind_eq_some_iff, Option.ite_none_right_eq_some, Option.some.injEq]
      at decoded
    rcases decoded with ⟨delta, deltaRead, npairs, npairsRead, nonneg, pairs, pairsRead, rfl⟩
    rcases s4Pairs_eq_some pairsRead with ⟨counted, fitting, _⟩
    have same : (pairs.length : ℤ) = npairs := by omega
    refine ⟨⟨fits4_of_s4 deltaRead, ?_, fitting⟩, isLookup ▸ opcodeRead, deltaRead, ?_, ?_⟩
    · rw [same]
      exact fits4_of_s4 npairsRead
    · rw [same]
      exact npairsRead
    · rw [counted]
      exact pairsRead
  split at decoded
  · rename_i isShort
    simp only [Option.bind_eq_some_iff, Option.some.injEq] at decoded
    rcases decoded with ⟨delta, deltaRead, rfl⟩
    exact ⟨⟨isShort, fits2_of_s2 deltaRead⟩, opcodeRead, deltaRead⟩
  split at decoded
  · rename_i isLong
    simp only [Option.bind_eq_some_iff, Option.some.injEq] at decoded
    rcases decoded with ⟨delta, deltaRead, rfl⟩
    exact ⟨⟨isLong, fits4_of_s4 deltaRead⟩, opcodeRead, deltaRead⟩
  split at decoded
  · rename_i noWide noTable noLookup noShort noLong inTable
    simp only [Option.bind_eq_some_iff, Option.some.injEq] at decoded
    rcases decoded with ⟨operands, operandsRead, rfl⟩
    have counted := length_slice operandsRead
    have positive := inTable.2
    refine ⟨⟨⟨inTable.1, noWide, noTable, noLookup, noShort, noLong⟩, ?_⟩, opcodeRead,
      counted ▸ operandsRead⟩
    omega
  · simp at decoded

/-- What stands at a position is what is decoded there. -/
theorem decodeAt_eq_some_iff :
    decodeAt lengths code position = some instruction ↔
      instruction.Valid lengths ∧ instruction.StandsAt code position :=
  ⟨standsAt_of_decodeAt, fun both => decodeAt_of_standsAt both.1 both.2⟩

theorem Opcode.le_max_of_mem {opcode : ℕ} (listed : opcode ∈ Opcode.shortBranches ++
    (Opcode.wideBranches ++ Opcode.widened)) : opcode ≤ Opcode.max := by
  have all : (Opcode.shortBranches ++ (Opcode.wideBranches ++ Opcode.widened)).all
      (· ≤ Opcode.max) = true := by decide
  exact of_decide_eq_true (List.all_eq_true.mp all opcode listed)

theorem u1_opcode {opcode : ℕ} (below : opcode ≤ Opcode.max) (after : List UInt8) :
    u1 (byte opcode :: after) 0 = some opcode := by
  have small : opcode ≤ 201 := below
  rw [u1_byte]
  exact congrArg some (by omega)

/-- The code up to the offsets of a switch. -/
def lead (before : List UInt8) (opcode : ℕ) : List UInt8 :=
  before ++ byte opcode ::
    List.replicate (next4ByteBoundary before.length - (before.length + 1)) 0

theorem length_lead (before : List UInt8) (opcode : ℕ) :
    (lead before opcode).length = next4ByteBoundary before.length := by
  have bounds := next4ByteBoundary_bounds before.length
  simp only [lead, List.length_append, List.length_cons, List.length_replicate]
  omega

theorem switch_lead (before offsets after : List UInt8) (opcode : ℕ) :
    before ++ ((byte opcode :: (List.replicate
      (next4ByteBoundary before.length - (before.length + 1)) 0 ++ offsets)) ++ after) =
        lead before opcode ++ (offsets ++ after) := by
  simp [lead]

/-- An instruction that is written at a position stands there. -/
theorem Instruction.Valid.standsAt_encode (valid : instruction.Valid lengths)
    {before : List UInt8} (placed : before.length = position) (after : List UInt8) :
    instruction.StandsAt (before ++ (instruction.encode position ++ after)) position := by
  subst placed
  have opcodeRead {opcode : ℕ} (below : opcode ≤ Opcode.max) (rest : List UInt8) :
      u1 (before ++ byte opcode :: rest) before.length = some opcode :=
    (u1_append_right before _ 0).trans (u1_opcode below rest)
  cases instruction with
  | plain opcode operands =>
      refine ⟨opcodeRead valid.1.1 _, ?_⟩
      rw [slice_append_right]
      exact (slice_append_right [byte opcode] _ 0 _).trans (slice_append_left operands after)
  | wide opcode operands =>
      have below := Opcode.le_max_of_mem (List.mem_append_right _ (List.mem_append_right _ valid.1))
      refine ⟨opcodeRead (by decide) _, ?_, ?_⟩
      · rw [u1_append_right]
        exact (u1_append_right [byte Opcode.wide] _ 0).trans (u1_opcode below _)
      · rw [slice_append_right]
        exact (slice_append_right [byte Opcode.wide, byte opcode] _ 0 _).trans
          (slice_append_left operands after)
  | jump opcode delta =>
      have below := Opcode.le_max_of_mem (List.mem_append_left _ valid.1)
      refine ⟨opcodeRead below _, ?_⟩
      rw [s2_append_right]
      exact (s2_append_right [byte opcode] _ 0).trans (s2_bytes2_of_fits _ valid.2)
  | jumpWide opcode delta =>
      have below := Opcode.le_max_of_mem (List.mem_append_right _ (List.mem_append_left _ valid.1))
      refine ⟨opcodeRead below _, ?_⟩
      rw [s4_append_right]
      exact (s4_append_right [byte opcode] _ 0).trans (s4_bytes4_of_fits _ valid.2)
  | tableswitch delta low high deltas =>
      rcases valid with ⟨deltaFits, lowFits, highFits, _, deltasFit⟩
      refine ⟨opcodeRead (by decide) _, ?_⟩
      rw [encode, switch_lead, ← length_lead before Opcode.tableswitch]
      refine ⟨?_, ?_, ?_, ?_⟩
      · exact (s4_append_right _ _ 0).trans (by simpa using s4_bytes4_of_fits _ deltaFits)
      · rw [s4_append_right, List.append_assoc]
        exact (s4_append_right (bytes4 delta) _ 0).trans
          (by simpa using s4_bytes4_of_fits _ lowFits)
      · rw [s4_append_right, List.append_assoc, List.append_assoc, ← List.append_assoc]
        exact (s4_append_right (bytes4 delta ++ bytes4 low) _ 0).trans
          (by simpa using s4_bytes4_of_fits _ highFits)
      · rw [s4s_append_right, ← List.append_assoc (bytes4 delta), ← List.append_assoc,
          List.append_assoc]
        exact (s4s_append_right (bytes4 delta ++ bytes4 low ++ bytes4 high) _ 0 _).trans
          (s4s_flatMap _ deltasFit)
  | lookupswitch delta pairs =>
      rcases valid with ⟨deltaFits, countFits, pairsFit⟩
      refine ⟨opcodeRead (by decide) _, ?_⟩
      rw [encode, switch_lead, ← length_lead before Opcode.lookupswitch]
      refine ⟨?_, ?_, ?_⟩
      · exact (s4_append_right _ _ 0).trans (by simpa using s4_bytes4_of_fits _ deltaFits)
      · rw [s4_append_right, List.append_assoc]
        exact (s4_append_right (bytes4 delta) _ 0).trans
          (by simpa using s4_bytes4_of_fits _ countFits)
      · rw [s4Pairs_append_right, List.append_assoc, List.append_assoc, ← List.append_assoc]
        exact (s4Pairs_append_right (bytes4 delta ++ bytes4 pairs.length) _ 0 _).trans
          (s4Pairs_flatMap _ pairsFit)

end Decoding

end HeapScan.ClassFile
