import HeapScan.ClassFile.Widening

/-!
# Writing the code

The third walk writes, for each instruction, what is injected at its position and then the
instruction, with its offsets changed to where their targets have moved.  A branch that has
been widened is written as one branch with a four byte offset, or as the inverse branch over
such a branch.
-/

namespace HeapScan.ClassFile

open BigEndian CrwClassImage Relocation

/-- The branch with a four byte offset that stands for a widened one. -/
def wideForm (opcode : ℕ) : ℕ := (Opcode.wideForms.lookup opcode).getD Opcode.goto_w

def inverse (opcode : ℕ) : ℕ := (Opcode.inverses.lookup opcode).getD Opcode.ifeq

section Definitions

variable (ci : CrwClassImage) (mi : MethodImage) (listing : Listing) (widening : ℕ → ℤ)

/-- The instructions that are written for an instruction. -/
def relocated (entry : ℕ × Instruction) : List Instruction :=
  let delta := newDelta ci mi listing widening entry.1
  match entry.2 with
  | .plain opcode operands => [.plain opcode operands]
  | .wide opcode operands => [.wide opcode operands]
  | .jump opcode offset =>
      if widening entry.1 = 0 then [.jump opcode (delta offset)]
      else if widening entry.1 = 2 then [.jumpWide (wideForm opcode) (delta offset)]
      else [.jump (inverse opcode) (3 + 5), .jumpWide Opcode.goto_w (delta offset - 3)]
  | .jumpWide opcode offset => [.jumpWide opcode (delta offset)]
  | .tableswitch offset low high offsets =>
      [.tableswitch (delta offset) low high (offsets.map delta)]
  | .lookupswitch offset pairs =>
      [.lookupswitch (delta offset) (pairs.map fun pair => (pair.1, delta pair.2))]

end Definitions

/-- Instructions written one behind another. -/
def encodeAll : ℕ → List Instruction → List UInt8
  | _, [] => []
  | position, instruction :: rest =>
      instruction.encode position ++ encodeAll (position + instruction.size position) rest

/-- No table of a switch reaches up to the largest `int`, which the loop over it cannot pass. -/
def TablesEnd (listing : Listing) : Prop :=
  ∀ entry ∈ listing, match entry.2 with
    | .tableswitch _ low high _ => low ≤ high → high < 2 ^ 31 - 1
    | _ => True

theorem writeBytes_bind {β : Type} (bytes more : List UInt8) (next : CrwMethod β) :
    (do (writeBytes bytes : CrwMethod Unit); writeBytes more; next) =
      (do (writeBytes (bytes ++ more) : CrwMethod Unit); next) := by
  rw [← writeBytes_append, liftM_bind, bind_assoc]

theorem writeBytes_lift (bytes more : List UInt8) :
    (do (writeBytes bytes : CrwMethod Unit); writeBytes more) =
      (writeBytes (bytes ++ more) : CrwMethod Unit) := by
  rw [← writeBytes_append, liftM_bind]

section Copying

variable {ci : CrwClassImage} {total : ℕ} (room : ci.HasRoom total) (written : List UInt8)
  (count : ℕ)

include room

/-- More is written where the output has room for all of it. -/
theorem run_write (bytes : List UInt8) (fits : written.length + bytes.length ≤ total) :
    (writeBytes bytes).run ((ci.emit written).advance count) =
      some ((), (ci.emit (written ++ bytes)).advance count) := by
  have roomLeft : ((ci.emit written).advance count).HasRoom bytes.length :=
    (room.mono fits).emit
  rw [run_writeBytes _ roomLeft, advance_emit, emit_emit]

theorem run_copyU1 {value : ℕ} (read : u1 ci.input (ci.inputPosition + count) = some value)
    (fits : written.length + 1 ≤ total) :
    copyU1.run ((ci.emit written).advance count) =
      some (value, (ci.emit (written ++ [byte value])).advance (count + 1)) := by
  have readRun : readU1.run ((ci.emit written).advance count) =
      some (value, (ci.emit written).advance (count + 1)) := by
    simp [run_readU1, read]
  have writeRun := run_write room written (count + 1) [byte value] fits
  simp [copyU1, writeU1, readRun, writeRun]

theorem run_copyU2 {value : ℕ} (read : u2 ci.input (ci.inputPosition + count) = some value)
    (fits : written.length + 2 ≤ total) :
    copyU2.run ((ci.emit written).advance count) =
      some (value, (ci.emit (written ++ bytes2 value)).advance (count + 2)) := by
  have readRun : readU2.run ((ci.emit written).advance count) =
      some (value, (ci.emit written).advance (count + 2)) := by
    simp [run_readU2, read]
  have writeRun := run_write room written (count + 2) (bytes2 value) fits
  simp [copyU2, writeU2_eq, readRun, writeRun]

theorem run_copy {bytes : List UInt8}
    (read : slice ci.input (ci.inputPosition + count) bytes.length = some bytes)
    (fits : written.length + bytes.length ≤ total) :
    (copy bytes.length).run ((ci.emit written).advance count) =
      some ((), (ci.emit (written ++ bytes)).advance (count + bytes.length)) := by
  have readRun : (readBytes bytes.length).run ((ci.emit written).advance count) =
      some (bytes, (ci.emit written).advance (count + bytes.length)) := by
    simp [run_readBytes, read]
  have writeRun := run_write room written (count + bytes.length) bytes fits
  simp [copy, readRun, writeRun]

end Copying

section Opcodes

variable {mi : MethodImage} {ci : CrwClassImage} {listing : Listing} {widening : ℕ → ℤ}
  {lengths : OpcodeLengths} {position place total : ℕ} {written : List UInt8}

theorem run_writePlain (reads : ReadsAt mi ci position) {opcode : ℕ} {operands : List UInt8}
    (valid : (Instruction.plain opcode operands).Valid lengths)
    (stands : (Instruction.plain opcode operands).StandsAt (mi.code ci) position)
    (room : ci.HasRoom total) (fits : written.length + (1 + operands.length) ≤ total) :
    ((writePlain lengths opcode).run mi).run ((ci.emit written).advance 1) =
      some (((), mi), (ci.emit (written ++ byte opcode :: operands)).advance
        (1 + operands.length)) := by
  have operandsRead := slice_of_window reads.whole stands.2
  have inside := reads.size_le stands
  have small := reads.small
  simp only [Instruction.size] at inside
  rw [← Nat.add_assoc, ← reads.reads] at operandsRead
  have counted : (((lengths.length opcode : ℤ) - 1) % 2 ^ 32).toNat = operands.length := by
    have sized := valid.2
    omega
  have opcodeRun := run_write room written 1 [byte opcode] (by
    simp only [List.length_cons, List.length_nil]
    omega)
  have copyRun := run_copy room (written ++ [byte opcode]) 1 operandsRead (by
    simp only [List.length_append, List.length_cons, List.length_nil]
    omega)
  simp only [List.append_assoc, List.singleton_append] at copyRun
  simp only [writePlain, StateT.run_bind, run_opcodeLength _ _ valid.1.1, run_liftM, writeU1,
    opcodeRun, counted, copyRun, Option.bind_eq_bind, Option.bind_some, Option.map_some]

theorem run_writeWide (reads : ReadsAt mi ci position) {opcode : ℕ} {operands : List UInt8}
    (valid : (Instruction.wide opcode operands).Valid lengths)
    (stands : (Instruction.wide opcode operands).StandsAt (mi.code ci) position)
    (room : ci.HasRoom total) (fits : written.length + (2 + operands.length) ≤ total) :
    (writeWide.run mi).run ((ci.emit written).advance 1) =
      some (((), mi), (ci.emit (written ++ byte Opcode.wide :: byte opcode :: operands)).advance
        (2 + operands.length)) := by
  have opcodeRead := u1_of_window stands.2.1
  have operandsRead := slice_of_window reads.whole stands.2.2
  have inside := reads.size_le stands
  have whole := reads.whole
  have listed := valid.1
  have counted := valid.2
  simp only [Instruction.size] at inside
  rw [← Nat.add_assoc, ← reads.reads] at opcodeRead operandsRead
  have placed := reads.reads
  have atLeast : 2 ≤ operands.length := by
    rw [counted]
    split <;> decide
  rcases @u2_of_le ci.input (ci.inputPosition + 2) (by omega) with ⟨index, indexRead⟩
  have indexSlice := slice_of_u2 indexRead
  let begun := written ++ [byte Opcode.wide]
  let named := begun ++ [byte opcode]
  let indexed := named ++ bytes2 index
  have begunLength : begun.length = written.length + 1 := List.length_append
  have namedLength : named.length = begun.length + 1 := List.length_append
  have indexedLength : indexed.length = named.length + 2 := List.length_append
  have wideRun : (writeBytes [byte Opcode.wide]).run ((ci.emit written).advance 1) =
      some ((), (ci.emit begun).advance 1) := run_write room written 1 _ (by
    simp only [List.length_cons, List.length_nil]
    omega)
  have opcodeRun : copyU1.run ((ci.emit begun).advance 1) =
      some (opcode, (ci.emit named).advance 2) :=
    run_copyU1 room begun 1 opcodeRead (by omega)
  have indexRun : copyU2.run ((ci.emit named).advance 2) =
      some (index, (ci.emit indexed).advance 4) :=
    run_copyU2 room named 2 indexRead (by omega)
  by_cases increment : opcode = Opcode.iinc
  · rw [if_pos increment] at counted
    rcases @u1_of_lt ci.input (ci.inputPosition + 4) (by omega) with ⟨high, highRead⟩
    rcases @u1_of_lt ci.input (ci.inputPosition + 5) (by omega) with ⟨low, lowRead⟩
    have allRead := slice_add indexSlice (slice_add (slice_of_u1 highRead) (slice_of_u1 lowRead))
    rw [counted, allRead] at operandsRead
    obtain rfl := Option.some.inj operandsRead
    have highRun : copyU1.run ((ci.emit indexed).advance 4) =
        some (high, (ci.emit (indexed ++ [byte high])).advance 5) :=
      run_copyU1 room indexed 4 highRead (by omega)
    have lowRun : copyU1.run ((ci.emit (indexed ++ [byte high])).advance 5) =
        some (low, (ci.emit ((indexed ++ [byte high]) ++ [byte low])).advance 6) :=
      run_copyU1 room (indexed ++ [byte high]) 5 lowRead (by
        simp only [List.length_append, List.length_cons, List.length_nil]
        omega)
    simp only [writeWide, writeU1, StateT.run_bind, run_liftM, wideRun, opcodeRun, indexRun,
      verifyOpcWide, run_methodAssert _ _ (decide_eq_true listed), if_pos increment, highRun,
      lowRun, StateT.run_pure, Option.bind_eq_bind, Option.bind_some, Option.map_some,
      Option.pure_def]
    simp only [indexed, named, begun, List.append_assoc, List.cons_append, List.nil_append]
    rfl
  · rw [if_neg increment] at counted
    rw [counted, indexSlice] at operandsRead
    obtain rfl := Option.some.inj operandsRead
    simp only [writeWide, writeU1, StateT.run_bind, run_liftM, wideRun, opcodeRun, indexRun,
      verifyOpcWide, run_methodAssert _ _ (decide_eq_true listed), if_neg increment,
      StateT.run_pure, Option.bind_eq_bind, Option.bind_some, Option.map_some, Option.pure_def]
    simp only [indexed, named, begun, List.append_assoc, List.cons_append, List.nil_append,
      length_bytes2]

/-- An offset is read and changed to where its target has moved. -/
theorem run_readNewDelta {read : Crw ℤ} {now next : CrwClassImage} {delta : ℤ}
    (readRun : read.run now = some (delta, next))
    (target : ∃ start : ℕ, (position : ℤ) + delta = start ∧ start ≤ mi.codeLen) :
    ((readNewDelta position (newPosition ci mi listing position widening) read).run
        (laidOut ci mi listing widening)).run now =
      some ((newDelta ci mi listing widening position delta, laidOut ci mi listing widening),
        next) := by
  rcases target with ⟨start, isStart, inside⟩
  have mapped := @run_codeMap ci mi listing widening start inside next
  simp [readNewDelta, readRun, isStart, mapped, newDelta]

theorem lookup_wideForms {opcode : ℕ} (direct : opcode ∈ Opcode.unconditional) :
    Opcode.wideForms.lookup opcode = some (wideForm opcode) ∧
      wideForm opcode ∈ Opcode.wideBranches := by
  have all : Opcode.unconditional.all (fun opcode =>
      Opcode.wideForms.lookup opcode = some (wideForm opcode) ∧
        wideForm opcode ∈ Opcode.wideBranches) = true := by decide
  exact of_decide_eq_true (List.all_eq_true.mp all opcode direct)

theorem lookup_inverses {opcode : ℕ} (branch : opcode ∈ Opcode.shortBranches)
    (conditional : opcode ∉ Opcode.unconditional) :
    Opcode.inverses.lookup opcode = some (inverse opcode) ∧
      inverse opcode ∈ Opcode.shortBranches := by
  have all : Opcode.shortBranches.all (fun opcode => opcode ∉ Opcode.unconditional →
      Opcode.inverses.lookup opcode = some (inverse opcode) ∧
        inverse opcode ∈ Opcode.shortBranches) = true := by decide
  exact of_decide_eq_true (List.all_eq_true.mp all opcode branch) conditional

/-- A branch is written at once, in the form that it has been widened to. -/
theorem writeWidened_eq {opcode : ℕ} (branch : opcode ∈ Opcode.shortBranches)
    (needed : widening position = 0 ∨ widening position = branchWidening opcode)
    (place : ℕ) (delta : ℤ) :
    writeWidened opcode (widening position) (newDelta ci mi listing widening position delta) =
      writeBytes (encodeAll place
        (relocated ci mi listing widening (position, .jump opcode delta))) := by
  by_cases narrow : widening position = 0
  · simp only [writeWidened, relocated, narrow, if_true, encodeAll, Instruction.encode,
      List.append_nil, writeU1, writeU2_eq, writeBytes_lift, List.singleton_append]
  have widened := needed.resolve_left narrow
  by_cases direct : opcode ∈ Opcode.unconditional
  · rw [branchWidening, if_pos direct] at widened
    have notNarrow : ¬ (2 : ℤ) = 0 := by decide
    simp only [writeWidened, relocated, widened, if_neg notNarrow, if_true, lookupOpcode,
      (lookup_wideForms direct).1, pure_bind, encodeAll, Instruction.encode, List.append_nil,
      writeU1, writeU4_eq, writeBytes_lift, List.singleton_append]
  · rw [branchWidening, if_neg direct] at widened
    have notNarrow : ¬ (5 : ℤ) = 0 := by decide
    have notDirect : ¬ (5 : ℤ) = 2 := by decide
    simp only [writeWidened, relocated, widened, if_neg notNarrow, if_neg notDirect, if_true,
      lookupOpcode, (lookup_inverses branch direct).1, pure_bind, encodeAll, Instruction.encode,
      List.append_nil, List.nil_append, writeU1, writeU2_eq, writeU4_eq, writeBytes_lift,
      List.cons_append]

theorem run_writeBranch (reads : ReadsAt mi ci position) {opcode : ℕ} {delta : ℤ}
    (valid : (Instruction.jump opcode delta).Valid lengths)
    (stands : (Instruction.jump opcode delta).StandsAt (mi.code ci) position)
    (target : ∃ start : ℕ, (position : ℤ) + delta = start ∧ start ≤ mi.codeLen)
    (needed : widening position = 0 ∨ widening position = branchWidening opcode)
    (room : ci.HasRoom total)
    (fits : written.length + (encodeAll place
      (relocated ci mi listing widening (position, .jump opcode delta))).length ≤ total) :
    ((writeBranch position (newPosition ci mi listing position widening) opcode).run
        (laidOut ci mi listing widening)).run ((ci.emit written).advance 1) =
      some (((), laidOut ci mi listing widening), (ci.emit (written ++ encodeAll place
        (relocated ci mi listing widening (position, .jump opcode delta)))).advance 3) := by
  have deltaRead := s2_of_window stands.2
  rw [← Nat.add_assoc, ← reads.reads] at deltaRead
  have deltaRun := @run_readNewDelta mi ci listing widening position readS2
    ((ci.emit written).advance 1) ((ci.emit written).advance 3) delta
    (by simp [run_readS2, deltaRead]) target
  have wideningHere : (laidOut ci mi listing widening).widening position = widening position := rfl
  have writeRun := run_write room written 3 _ fits
  simp only [writeBranch, StateT.run_bind, StateT.run_get, pure_bind, deltaRun, wideningHere,
    Option.bind_eq_bind, Option.bind_some, writeWidened_eq valid.1 needed place delta, run_liftM,
    writeRun, Option.map_some]

theorem run_writeBranchWide (reads : ReadsAt mi ci position) {opcode : ℕ} {delta : ℤ}
    (stands : (Instruction.jumpWide opcode delta).StandsAt (mi.code ci) position)
    (target : ∃ start : ℕ, (position : ℤ) + delta = start ∧ start ≤ mi.codeLen)
    (room : ci.HasRoom total) (fits : written.length + 5 ≤ total) :
    ((writeBranchWide position (newPosition ci mi listing position widening) opcode).run
        (laidOut ci mi listing widening)).run ((ci.emit written).advance 1) =
      some (((), laidOut ci mi listing widening), (ci.emit (written ++ byte opcode ::
        bytes4 (newDelta ci mi listing widening position delta))).advance 5) := by
  have deltaRead := s4_of_window stands.2
  rw [← Nat.add_assoc, ← reads.reads] at deltaRead
  have deltaRun := @run_readNewDelta mi ci listing widening position readInt
    ((ci.emit written).advance 1) ((ci.emit written).advance 5) delta
    (by simp [run_readInt, deltaRead]) target
  have writeRun := run_write room written 5
    (byte opcode :: bytes4 (newDelta ci mi listing widening position delta)) fits
  simp only [writeBranchWide, StateT.run_bind, deltaRun, Option.bind_eq_bind, Option.bind_some,
    writeU1, writeU4_eq, writeBytes_lift, List.singleton_append, run_liftM, writeRun,
    Option.map_some]

/-- Zeros that are written one by one are written with what is written before them. -/
theorem writeBytes_times_bind {β : Type} (bytes : List UInt8) (count : ℕ) (next : CrwMethod β) :
    (do (writeBytes bytes : CrwMethod Unit); times count (writeBytes [byte 0]); next) =
      (do (writeBytes (bytes ++ List.replicate count 0) : CrwMethod Unit); next) := by
  induction count generalizing bytes with
  | zero => simp [times]
  | succ count step =>
      have one : ([byte 0] : List UInt8) = [0] := rfl
      rw [times, bind_assoc, writeBytes_bind, step, one, List.append_assoc,
        List.singleton_append, List.replicate_succ]

/-- The padding in front of the header of a switch at a new position. -/
def padding (newPos : ℤ) : List UInt8 :=
  List.replicate (newNext4ByteBoundary newPos - (newPos + 1)).toNat 0

theorem padding_eq {newPos : ℤ} (placed : newPos = place) :
    padding newPos = List.replicate (next4ByteBoundary place - (place + 1)) 0 := by
  subst placed
  refine congrArg (List.replicate · 0) ?_
  simp only [newNext4ByteBoundary, next4ByteBoundary]
  omega

theorem writeTableswitch_eq (newPos : ℤ) : writeTableswitch position newPos = (do
    skip (next4ByteBoundary position - (position + 1))
    let newDelta ← readNewDelta position newPos readInt
    let low ← readInt
    let high ← readInt
    writeBytes (byte Opcode.tableswitch ::
      (padding newPos ++ (bytes4 newDelta ++ (bytes4 low ++ bytes4 high))))
    forUpTo low high do
      let newDelta ← readNewDelta position newPos readInt
      writeU4 newDelta) := by
  simp only [writeTableswitch, writeU1, writePadding, writeBytes_times_bind, writeU4_eq,
    writeBytes_bind, padding, List.nil_append, List.cons_append]

theorem writeLookupswitch_eq (newPos : ℤ) : writeLookupswitch position newPos = (do
    skip (next4ByteBoundary position - (position + 1))
    let newDelta ← readNewDelta position newPos readInt
    let npairs ← readInt
    writeBytes (byte Opcode.lookupswitch ::
      (padding newPos ++ (bytes4 newDelta ++ bytes4 npairs)))
    times npairs.toNat do
      let value ← readU4
      let newDelta ← readNewDelta position newPos readInt
      writeU4 value
      writeU4 newDelta) := by
  simp only [writeLookupswitch, writeU1, writePadding, writeBytes_times_bind, writeU4_eq,
    writeBytes_bind, padding, List.nil_append, List.cons_append]

/-- The offsets of a table are written, each changed to where its target has moved. -/
theorem run_writeDeltas {deltas : List ℤ} {count : ℕ}
    (read : s4s ci.input (ci.inputPosition + count) deltas.length = some deltas)
    (targets : ∀ delta ∈ deltas,
      ∃ start : ℕ, (position : ℤ) + delta = start ∧ start ≤ mi.codeLen)
    (room : ci.HasRoom total) (fits : written.length + 4 * deltas.length ≤ total) :
    ((times (m := CrwMethod) deltas.length do
        let newDelta ← readNewDelta position (newPosition ci mi listing position widening) readInt
        writeU4 newDelta).run (laidOut ci mi listing widening)).run
          ((ci.emit written).advance count) =
      some (((), laidOut ci mi listing widening), (ci.emit (written ++
        (deltas.map (newDelta ci mi listing widening position)).flatMap bytes4)).advance
          (count + 4 * deltas.length)) := by
  induction deltas generalizing count written with
  | nil => simp [times]
  | cons delta rest step =>
      rcases s4s_succ_eq_some read with ⟨value, values, valueRead, restRead, same⟩
      obtain ⟨rfl, rfl⟩ := List.cons.inj same
      have deltaRun := @run_readNewDelta mi ci listing widening position readInt
        ((ci.emit written).advance count) ((ci.emit written).advance (count + 4)) delta
        (by simp [run_readInt, valueRead]) (targets delta List.mem_cons_self)
      rw [List.length_cons] at fits
      have writeRun := run_write room written (count + 4)
        (bytes4 (newDelta ci mi listing widening position delta)) (by
          rw [length_bytes4]
          omega)
      have restRun := @step (written ++ bytes4 (newDelta ci mi listing widening position delta))
        (count + 4) restRead (fun held listed => targets held (List.mem_cons_of_mem _ listed)) (by
          rw [List.length_append, length_bytes4]
          omega)
      have total : count + 4 + 4 * rest.length = count + 4 * (rest.length + 1) := by omega
      simp only [List.length_cons, times, StateT.run_bind, deltaRun, writeU4_eq, run_liftM,
        writeRun, Option.bind_eq_bind, Option.bind_some, Option.map_some, List.map_cons,
        List.flatMap_cons, ← List.append_assoc, ← total] at restRun ⊢
      exact restRun

/-- The pairs of a table are written, with every offset changed. -/
theorem run_writePairs {pairs : List (ℤ × ℤ)} {count : ℕ}
    (read : s4Pairs ci.input (ci.inputPosition + count) pairs.length = some pairs)
    (targets : ∀ pair ∈ pairs,
      ∃ start : ℕ, (position : ℤ) + pair.2 = start ∧ start ≤ mi.codeLen)
    (room : ci.HasRoom total) (fits : written.length + 8 * pairs.length ≤ total) :
    ((times (m := CrwMethod) pairs.length do
        let value ← readU4
        let newDelta ← readNewDelta position (newPosition ci mi listing position widening) readInt
        writeU4 value
        writeU4 newDelta).run (laidOut ci mi listing widening)).run
          ((ci.emit written).advance count) =
      some (((), laidOut ci mi listing widening), (ci.emit (written ++
        (pairs.map fun pair => (pair.1, newDelta ci mi listing widening position pair.2)).flatMap
          fun pair => bytes4 pair.1 ++ bytes4 pair.2)).advance (count + 8 * pairs.length)) := by
  induction pairs generalizing count written with
  | nil => simp [times]
  | cons pair rest step =>
      rcases s4Pairs_succ_eq_some read with
        ⟨first, second, values, firstRead, secondRead, restRead, same⟩
      obtain ⟨rfl, rfl⟩ := List.cons.inj same
      rcases s4_eq_some firstRead with ⟨unsigned, unsignedRead, rfl⟩
      have valueRun : readU4.run ((ci.emit written).advance count) =
          some (unsigned, (ci.emit written).advance (count + 4)) := by
        simp [run_readU4, unsignedRead]
      have deltaRun := @run_readNewDelta mi ci listing widening position readInt
        ((ci.emit written).advance (count + 4)) ((ci.emit written).advance (count + 8)) second
        (by simp [run_readInt, ← Nat.add_assoc, secondRead]) (targets _ List.mem_cons_self)
      rw [List.length_cons] at fits
      let pairBytes := bytes4 unsigned ++
        bytes4 (newDelta ci mi listing widening position second)
      have writeRun := run_write room written (count + 8) pairBytes (by
        rw [List.length_append, length_bytes4, length_bytes4]
        omega)
      have restRun := @step (written ++ pairBytes) (count + 8) restRead
        (fun held listed => targets held (List.mem_cons_of_mem _ listed)) (by
          rw [List.length_append, List.length_append, length_bytes4, length_bytes4]
          omega)
      have total : count + 8 + 8 * rest.length = count + 8 * (rest.length + 1) := by omega
      simp only [pairBytes] at writeRun restRun
      simp only [List.length_cons, times, StateT.run_bind, valueRun, deltaRun, writeU4_eq,
        writeBytes_lift, run_liftM, Option.map_some, Option.bind_eq_bind, Option.bind_some,
        List.map_cons, List.flatMap_cons, bytes4_wrap, writeRun]
      rw [← total]
      simpa only [writeU4_eq, writeBytes_lift, List.append_assoc] using restRun

theorem run_writeTableswitch (reads : ReadsAt mi ci position) {delta low high : ℤ}
    {deltas : List ℤ} (valid : (Instruction.tableswitch delta low high deltas).Valid lengths)
    (stands : (Instruction.tableswitch delta low high deltas).StandsAt (mi.code ci) position)
    (targets : ∀ target ∈ (Instruction.tableswitch delta low high deltas).targets position,
      ∃ start : ℕ, target = start ∧ start ≤ mi.codeLen)
    (placed : newPosition ci mi listing position widening = place)
    (ends : low ≤ high → high < 2 ^ 31 - 1) (room : ci.HasRoom total)
    (fits : written.length + (encodeAll place (relocated ci mi listing widening
      (position, .tableswitch delta low high deltas))).length ≤ total) :
    ((writeTableswitch position (newPosition ci mi listing position widening)).run
        (laidOut ci mi listing widening)).run ((ci.emit written).advance 1) =
      some (((), laidOut ci mi listing widening), (ci.emit (written ++ encodeAll place
        (relocated ci mi listing widening
          (position, .tableswitch delta low high deltas)))).advance
            ((Instruction.tableswitch delta low high deltas).size position)) := by
  have bounds := next4ByteBoundary_bounds position
  have inside := reads.size_le stands
  simp only [Instruction.size] at inside
  have counted := valid.2.2.2.1
  let pad := next4ByteBoundary position - position
  let moved := newDelta ci mi listing widening position
  have skipRun : (skip (next4ByteBoundary position - (position + 1))).run
      ((ci.emit written).advance 1) = some ((), (ci.emit written).advance pad) :=
    @ReadsAt.skip_padding mi (ci.emit written) position ⟨reads.whole, reads.small, reads.reads⟩
      (by omega)
  have deltaRead := s4_of_window stands.2.1
  have lowRead := s4_of_window stands.2.2.1
  have highRead := s4_of_window stands.2.2.2.1
  have deltasRead := s4s_of_window stands.2.2.2.2
  rw [reads.at_header] at lowRead highRead deltasRead
  rw [← Nat.add_zero (next4ByteBoundary position), reads.at_header, Nat.add_zero] at deltaRead
  have deltaRun := @run_readNewDelta mi ci listing widening position readInt
    ((ci.emit written).advance pad) ((ci.emit written).advance (pad + 4)) delta
    (by simp [run_readInt, deltaRead, pad]) (targets _ List.mem_cons_self)
  have lowRun : readInt.run ((ci.emit written).advance (pad + 4)) =
      some (low, (ci.emit written).advance (pad + 8)) := by
    simp [run_readInt, lowRead, pad, Nat.add_assoc]
  have highRun : readInt.run ((ci.emit written).advance (pad + 8)) =
      some (high, (ci.emit written).advance (pad + 12)) := by
    simp [run_readInt, highRead, pad, Nat.add_assoc]
  have notLargest : ¬ (low ≤ high ∧ high = 2 ^ 31 - 1) := by omega
  have rows : (high + 1 - low).toNat = deltas.length := by omega
  let header := byte Opcode.tableswitch ::
    (padding (newPosition ci mi listing position widening) ++
      (bytes4 (moved delta) ++ (bytes4 low ++ bytes4 high)))
  have encoded : encodeAll place (relocated ci mi listing widening
      (position, .tableswitch delta low high deltas)) =
        header ++ (deltas.map moved).flatMap bytes4 := by
    simp only [relocated, encodeAll, Instruction.encode, List.append_nil, header, moved,
      padding_eq placed, List.cons_append, List.append_assoc]
  have rowBytes : ((deltas.map moved).flatMap bytes4).length = 4 * deltas.length := by
    rw [length_flatMap_bytes4, List.length_map]
  rw [encoded, List.length_append, rowBytes] at fits
  have headerRun := run_write room written (pad + 12) header (by omega)
  have rowsRun := @run_writeDeltas mi ci listing widening position total (written ++ header)
    deltas (pad + 12) (by simpa [pad, Nat.add_assoc] using deltasRead)
    (fun held listed => targets _ (List.mem_cons_of_mem _ (List.mem_map_of_mem listed))) room
    (by
      rw [List.length_append]
      omega)
  have whole : (Instruction.tableswitch delta low high deltas).size position =
      pad + 12 + 4 * deltas.length := by
    rw [Instruction.size, Nat.add_assoc]
  rw [encoded, whole, ← List.append_assoc, ← rowsRun]
  simp only [writeTableswitch_eq, StateT.run_bind, run_liftM, skipRun, deltaRun, lowRun, highRun,
    Option.map_some, Option.bind_eq_bind, Option.bind_some, forUpTo, if_neg notLargest, rows]
  rw [headerRun]
  rfl

theorem run_writeLookupswitch (reads : ReadsAt mi ci position) {delta : ℤ}
    {pairs : List (ℤ × ℤ)}
    (stands : (Instruction.lookupswitch delta pairs).StandsAt (mi.code ci) position)
    (targets : ∀ target ∈ (Instruction.lookupswitch delta pairs).targets position,
      ∃ start : ℕ, target = start ∧ start ≤ mi.codeLen)
    (placed : newPosition ci mi listing position widening = place) (room : ci.HasRoom total)
    (fits : written.length + (encodeAll place (relocated ci mi listing widening
      (position, .lookupswitch delta pairs))).length ≤ total) :
    ((writeLookupswitch position (newPosition ci mi listing position widening)).run
        (laidOut ci mi listing widening)).run ((ci.emit written).advance 1) =
      some (((), laidOut ci mi listing widening), (ci.emit (written ++ encodeAll place
        (relocated ci mi listing widening (position, .lookupswitch delta pairs)))).advance
          ((Instruction.lookupswitch delta pairs).size position)) := by
  have bounds := next4ByteBoundary_bounds position
  have inside := reads.size_le stands
  simp only [Instruction.size] at inside
  let pad := next4ByteBoundary position - position
  let moved := newDelta ci mi listing widening position
  have skipRun : (skip (next4ByteBoundary position - (position + 1))).run
      ((ci.emit written).advance 1) = some ((), (ci.emit written).advance pad) :=
    @ReadsAt.skip_padding mi (ci.emit written) position ⟨reads.whole, reads.small, reads.reads⟩
      (by omega)
  have deltaRead := s4_of_window stands.2.1
  have countRead := s4_of_window stands.2.2.1
  have pairsRead := s4Pairs_of_window stands.2.2.2
  rw [reads.at_header] at countRead pairsRead
  rw [← Nat.add_zero (next4ByteBoundary position), reads.at_header, Nat.add_zero] at deltaRead
  have deltaRun := @run_readNewDelta mi ci listing widening position readInt
    ((ci.emit written).advance pad) ((ci.emit written).advance (pad + 4)) delta
    (by simp [run_readInt, deltaRead, pad]) (targets _ List.mem_cons_self)
  have countRun : readInt.run ((ci.emit written).advance (pad + 4)) =
      some ((pairs.length : ℤ), (ci.emit written).advance (pad + 8)) := by
    simp [run_readInt, countRead, pad, Nat.add_assoc]
  let movedPairs := pairs.map fun pair => (pair.1, moved pair.2)
  let header := byte Opcode.lookupswitch ::
    (padding (newPosition ci mi listing position widening) ++
      (bytes4 (moved delta) ++ bytes4 pairs.length))
  have encoded : encodeAll place (relocated ci mi listing widening
      (position, .lookupswitch delta pairs)) =
        header ++ movedPairs.flatMap fun pair => bytes4 pair.1 ++ bytes4 pair.2 := by
    simp only [relocated, encodeAll, Instruction.encode, List.append_nil, header, movedPairs,
      moved, padding_eq placed, List.length_map, List.cons_append, List.append_assoc]
  have rowBytes : (movedPairs.flatMap fun pair => bytes4 pair.1 ++ bytes4 pair.2).length =
      8 * pairs.length := by
    rw [length_flatMap_pairs, List.length_map]
  rw [encoded, List.length_append, rowBytes] at fits
  have headerRun := run_write room written (pad + 8) header (by omega)
  have rowsRun := @run_writePairs mi ci listing widening position total (written ++ header)
    pairs (pad + 8) (by simpa [pad, Nat.add_assoc] using pairsRead)
    (fun held listed => targets _ (List.mem_cons_of_mem _
      (List.mem_map_of_mem (f := fun pair : ℤ × ℤ => (position : ℤ) + pair.2) listed))) room
    (by
      rw [List.length_append]
      omega)
  have whole : (Instruction.lookupswitch delta pairs).size position =
      pad + 8 + 8 * pairs.length := by
    rw [Instruction.size, Nat.add_assoc]
  rw [encoded, whole, ← List.append_assoc, ← rowsRun]
  simp only [writeLookupswitch_eq, StateT.run_bind, run_liftM, skipRun, deltaRun, countRun,
    Option.map_some, Option.bind_eq_bind, Option.bind_some, Int.toNat_natCast]
  rw [headerRun]
  rfl

/-- The third walk writes an instruction as it is relocated. -/
theorem run_writeOpcode (lists : Lists lengths (mi.code ci) 0 listing mi.codeLen)
    (targets : TargetsStart listing) (tablesEnd : TablesEnd listing)
    (needed : WidenedAsNeeded listing widening) (reads : ReadsAt mi ci position)
    {instruction : Instruction} (listed : (position, instruction) ∈ listing)
    (placed : newPosition ci mi listing position widening = place) (room : ci.HasRoom total)
    (fits : written.length + (encodeAll place (relocated ci mi listing widening
      (position, instruction))).length ≤ total) :
    ((writeOpcode lengths position (newPosition ci mi listing position widening)
        instruction.opcode).run (laidOut ci mi listing widening)).run
          ((ci.emit written).advance 1) =
      some (((), laidOut ci mi listing widening), (ci.emit (written ++ encodeAll place
        (relocated ci mi listing widening (position, instruction)))).advance
          (instruction.size position)) := by
  have valid := lists.valid _ listed
  have stands := lists.stands _ listed
  have inside : ∀ target ∈ instruction.targets position,
      ∃ start : ℕ, target = start ∧ start ≤ mi.codeLen :=
    fun _ found => targets.exists_start lists listed found
  have laidReads := reads.laidOut listing widening
  have neededHere := needed _ listed
  cases instruction with
  | plain opcode operands =>
      rcases valid.1 with ⟨_, noWide, noTable, noLookup, noShort, noLong⟩
      simp only [writeOpcode, Instruction.opcode, noWide, noTable, noLookup, noShort, noLong,
        if_false, relocated, encodeAll, Instruction.encode, List.append_nil, List.length_cons,
        Nat.add_comm operands.length] at fits ⊢
      exact run_writePlain laidReads valid stands room fits
  | wide opcode operands =>
      have length : (byte Opcode.wide :: byte opcode :: operands).length = 2 + operands.length := by
        rw [List.length_cons, List.length_cons]
        omega
      simp only [writeOpcode, Instruction.opcode, if_true, relocated, encodeAll,
        Instruction.encode, List.append_nil, length] at fits ⊢
      exact run_writeWide laidReads valid stands room fits
  | jump opcode delta =>
      rcases Opcode.ne_of_shortBranch valid.1 with ⟨noWide, noTable, noLookup⟩
      simp only [writeOpcode, Instruction.opcode, noWide, noTable, noLookup, valid.1, if_false,
        if_true]
      exact run_writeBranch reads valid stands (inside _ List.mem_cons_self) neededHere room fits
  | jumpWide opcode delta =>
      rcases Opcode.ne_of_wideBranch valid.1 with ⟨noWide, noTable, noLookup, noShort⟩
      simp only [writeOpcode, Instruction.opcode, noWide, noTable, noLookup, noShort, valid.1,
        if_false, if_true, relocated, encodeAll, Instruction.encode, List.append_nil,
        List.length_cons, length_bytes4] at fits ⊢
      exact run_writeBranchWide reads stands (inside _ List.mem_cons_self) room fits
  | tableswitch delta low high deltas =>
      have noWide : Opcode.tableswitch ≠ Opcode.wide := by decide
      simp only [writeOpcode, Instruction.opcode, noWide, if_false, if_true]
      exact run_writeTableswitch reads valid stands inside placed (tablesEnd _ listed) room fits
  | lookupswitch delta pairs =>
      have noWide : Opcode.lookupswitch ≠ Opcode.wide := by decide
      have noTable : Opcode.lookupswitch ≠ Opcode.tableswitch := by decide
      simp only [writeOpcode, Instruction.opcode, noWide, noTable, if_false, if_true]
      exact run_writeLookupswitch reads stands inside placed room fits

end Opcodes

end HeapScan.ClassFile
