import HeapScan.ClassFile.InjectClass
import HeapScan.ClassFile.Writing

/-!
# Passing over the input

Most of what is written is told by what is read at the same time.  A computation passes over a
piece of the input when it writes a piece of the output for it, wherever the two images are.
Computations that pass one after another pass over one piece after another.
-/

namespace HeapScan.ClassFile

open BigEndian CrwClassImage

/-- Two images are read and written at the same places. -/
structure SameStreams (ci other : CrwClassImage) : Prop where
  input : other.input = ci.input
  inputPosition : other.inputPosition = ci.inputPosition
  output : other.output = ci.output
  outputLen : other.outputLen = ci.outputLen

theorem SameStreams.refl (ci : CrwClassImage) : SameStreams ci ci := ⟨rfl, rfl, rfl, rfl⟩

theorem SameStreams.trans {ci other last : CrwClassImage} (first : SameStreams ci other)
    (second : SameStreams other last) : SameStreams ci last :=
  ⟨second.input.trans first.input, second.inputPosition.trans first.inputPosition,
    second.output.trans first.output, second.outputLen.trans first.outputLen⟩

theorem SameStreams.hasRoom {ci other : CrwClassImage} (same : SameStreams ci other) {size : ℕ} :
    other.HasRoom size ↔ ci.HasRoom size := by
  rw [HasRoom, HasRoom, same.output, same.outputLen]

/-- The bytes stand where the input is read next, `count` bytes further. -/
def Ahead (ci : CrwClassImage) (count : ℕ) (bytes : List UInt8) : Prop :=
  slice ci.input (ci.inputPosition + count) bytes.length = some bytes

/-- The computation reads the input and writes the output, and changes the image to `next`
otherwise. -/
structure Passes {α : Type} (computation : Crw α) (ci next : CrwClassImage)
    (input output : List UInt8) (value : α) : Prop where
  streams : SameStreams ci next
  run : ∀ written count, Ahead ci count input → ci.HasRoom (written.length + output.length) →
    computation.run ((ci.emit written).advance count) =
      some (value, (next.emit (written ++ output)).advance (count + input.length))

section Patching

variable (ci : CrwClassImage) (written later : List UInt8) (old value : ℤ) (count : ℕ)

/-- A number that has been written is replaced. -/
theorem run_randomWriteU2 :
    (randomWriteU2 (ci.outputPosition + written.length) value).run
        ((ci.emit (written ++ (bytes2 old ++ later))).advance count) =
      some ((), (ci.emit (written ++ (bytes2 value ++ later))).advance count) := by
  rcases ci with ⟨number, name, input, inputPosition, output⟩
  refine congrArg some (congrArg (Prod.mk ()) ?_)
  rcases output with _ | before
  · rfl
  simp only [emit, advance, outputPosition, Option.map_some, Option.getD_some]
  have first : (before ++ (written ++ (bytes2 old ++ later))).take
      (before.length + written.length) = before ++ written := by
    rw [← List.append_assoc, ← List.length_append, List.take_left]
  have second : (before ++ (written ++ (bytes2 old ++ later))).drop
      (before.length + written.length + 2) = later := by
    rw [← List.append_assoc, ← List.length_append, ← length_bytes2 old, ← List.append_assoc,
      ← List.length_append, List.drop_left]
  rw [first, second, List.append_assoc, List.append_assoc]

theorem run_randomWriteU4 :
    (randomWriteU4 (ci.outputPosition + written.length) value).run
        ((ci.emit (written ++ (bytes4 old ++ later))).advance count) =
      some ((), (ci.emit (written ++ (bytes4 value ++ later))).advance count) := by
  rcases ci with ⟨number, name, input, inputPosition, output⟩
  refine congrArg some (congrArg (Prod.mk ()) ?_)
  rcases output with _ | before
  · rfl
  simp only [emit, advance, outputPosition, Option.map_some, Option.getD_some]
  have first : (before ++ (written ++ (bytes4 old ++ later))).take
      (before.length + written.length) = before ++ written := by
    rw [← List.append_assoc, ← List.length_append, List.take_left]
  have second : (before ++ (written ++ (bytes4 old ++ later))).drop
      (before.length + written.length + 4) = later := by
    rw [← List.append_assoc, ← List.length_append, ← length_bytes4 old, ← List.append_assoc,
      ← List.length_append, List.drop_left]
  rw [first, second, List.append_assoc, List.append_assoc]

variable {ci} in
theorem outputPosition_emit (isOutput : ci.output ≠ none) :
    ((ci.emit written).advance count).outputPosition = ci.outputPosition + written.length := by
  cases output : ci.output with
  | none => exact absurd output isOutput
  | some before => simp [outputPosition, emit, advance, output]

end Patching

namespace Passes

variable {α β : Type} {ci next last : CrwClassImage} {input output : List UInt8} {value : α}

theorem pure (ci : CrwClassImage) (value : α) : Passes (pure value) ci ci [] [] value where
  streams := SameStreams.refl ci
  run written count _ _ := by simp

theorem bind {computation : Crw α} {rest : α → Crw β} {restInput restOutput : List UInt8}
    {result : β} (first : Passes computation ci next input output value)
    (second : Passes (rest value) next last restInput restOutput result) :
    Passes (computation >>= rest) ci last (input ++ restInput) (output ++ restOutput) result where
  streams := first.streams.trans second.streams
  run written count ahead room := by
    rcases slice_append.mp ahead with ⟨here, behind⟩
    rw [List.length_append, ← Nat.add_assoc] at room
    have firstRun := first.run written count here (room.mono (Nat.le_add_right _ _))
    have restAhead : Ahead next (count + input.length) restInput := by
      rw [Ahead, first.streams.input, first.streams.inputPosition, ← Nat.add_assoc]
      exact behind
    have restRun := second.run (written ++ output) (count + input.length) restAhead (by
      rw [first.streams.hasRoom, List.length_append]
      exact room)
    rw [StateT.run_bind, firstRun, Option.bind_eq_bind, Option.bind_some, restRun,
      List.append_assoc, List.length_append, Nat.add_assoc]

theorem of_eq {computation : Crw α} {read written : List UInt8}
    (passes : Passes computation ci next read written value) (sameInput : read = input)
    (sameOutput : written = output) : Passes computation ci next input output value := by
  rwa [← sameInput, ← sameOutput]

/-- A step that neither reads nor writes. -/
theorem change {computation : Crw α} (streams : SameStreams ci next)
    (run : ∀ written count, computation.run ((ci.emit written).advance count) =
      some (value, (next.emit written).advance count)) :
    Passes computation ci next [] [] value where
  streams := streams
  run written count _ _ := by rw [run, List.append_nil, List.length_nil, Nat.add_zero]

/-- What is asked is answered by what does not change. -/
theorem asking {question : CrwClassImage → Option α}
    (answers : ∀ written count, question ((ci.emit written).advance count) = some value) :
    Passes (asking question) ci ci [] [] value :=
  change (SameStreams.refl ci) fun written count => by
    simp only [ClassFile.asking, StateT.run, answers, Option.map_some]

/-- What is told by the image only, not by what has been read and written. -/
theorem get {body : CrwClassImage → Crw β} {rest : Crw β} {result : β}
    (same : ∀ written count, body ((ci.emit written).advance count) = rest)
    (passes : Passes rest ci next input output result) :
    Passes (get >>= body) ci next input output result where
  streams := passes.streams
  run written count ahead room := by
    rw [StateT.run_bind, StateT.run_get, Option.pure_def, Option.bind_eq_bind, Option.bind_some,
      same]
    exact passes.run written count ahead room

theorem crwAssert (ci : CrwClassImage) {holds : Bool} (isTrue : holds = true) :
    Passes (crwAssert holds) ci ci [] [] () := by
  rw [ClassFile.crwAssert, if_pos isTrue]
  exact pure ci ()

variable (ci) in
theorem readU1 {value : ℕ} (fits : value < 2 ^ 8) :
    Passes readU1 ci ci [byte value] [] value where
  streams := SameStreams.refl ci
  run written count ahead _ := by
    have read := u1_of_slice ahead
    rw [toNat_byte_of_lt fits] at read
    simp [run_readU1, read]

variable (ci) in
theorem readU2 {value : ℕ} (fits : value < 2 ^ 16) :
    Passes readU2 ci ci (bytes2 value) [] value where
  streams := SameStreams.refl ci
  run written count ahead _ := by
    have read := u2_of_slice fits ahead
    simp [run_readU2, read]

variable (ci) in
theorem readU4 {value : ℕ} (fits : value < 2 ^ 32) :
    Passes readU4 ci ci (bytes4 value) [] value where
  streams := SameStreams.refl ci
  run written count ahead _ := by
    have read := u4_of_slice fits ahead
    simp [run_readU4, read]

variable (ci) in
theorem readBytes (bytes : List UInt8) :
    Passes (readBytes bytes.length) ci ci bytes [] bytes where
  streams := SameStreams.refl ci
  run written count ahead _ := by
    have read : slice ci.input (ci.inputPosition + count) bytes.length = some bytes := ahead
    simp [run_readBytes, read]

variable (ci) in
theorem writeBytes (bytes : List UInt8) : Passes (writeBytes bytes) ci ci [] bytes () where
  streams := SameStreams.refl ci
  run written count _ room := run_write room written count bytes (Nat.le_refl _)

variable (ci) in
theorem writeU1 (value : ℤ) : Passes (writeU1 value) ci ci [] [byte value] () :=
  writeBytes ci [byte value]

variable (ci) in
theorem writeU2 (value : ℤ) : Passes (writeU2 value) ci ci [] (bytes2 value) () := by
  rw [writeU2_eq]
  exact writeBytes ci _

variable (ci) in
theorem writeU4 (value : ℤ) : Passes (writeU4 value) ci ci [] (bytes4 value) () := by
  rw [writeU4_eq]
  exact writeBytes ci _

variable (ci) in
theorem copyU1 {value : ℕ} (fits : value < 2 ^ 8) :
    Passes copyU1 ci ci [byte value] [byte value] value :=
  (readU1 ci fits).bind ((writeU1 ci value).bind (pure ci value))

variable (ci) in
theorem copyU2 {value : ℕ} (fits : value < 2 ^ 16) :
    Passes copyU2 ci ci (bytes2 value) (bytes2 value) value :=
  (readU2 ci fits).bind ((writeU2 ci value).bind (pure ci value))

variable (ci) in
theorem copyU4 {value : ℕ} (fits : value < 2 ^ 32) :
    Passes copyU4 ci ci (bytes4 value) (bytes4 value) value :=
  (readU4 ci fits).bind ((writeU4 ci value).bind (pure ci value))

variable (ci) in
theorem copy (bytes : List UInt8) : Passes (copy bytes.length) ci ci bytes bytes () := by
  have both : Passes (ClassFile.readBytes bytes.length >>= ClassFile.writeBytes) ci ci (bytes ++ [])
      ([] ++ bytes) () := (readBytes ci bytes).bind (writeBytes ci bytes)
  rwa [List.append_nil, List.nil_append] at both

/-- A loop passes over an entry each round. -/
theorem times {body : Crw Unit} {ε : Type} {read write : ε → List UInt8} {entries : List ε}
    (each : ∀ entry ∈ entries, Passes body ci ci (read entry) (write entry) ()) :
    Passes (times entries.length body) ci ci (entries.flatMap read) (entries.flatMap write) () := by
  induction entries with
  | nil => exact pure ci ()
  | cons entry rest step =>
      rw [List.flatMap_cons, List.flatMap_cons]
      exact (each entry List.mem_cons_self).bind
        (step fun later listed => each later (List.mem_cons_of_mem _ listed))

end Passes

/-- A computation on a method passes over the input, and leaves the method as it is. -/
abbrev CodePasses {α : Type} (computation : CrwMethod α) (mi : MethodImage) (ci : CrwClassImage)
    (input output : List UInt8) (value : α) : Prop :=
  Passes (computation.run mi) ci ci input output (value, mi)

namespace CodePasses

variable {α β : Type} {mi : MethodImage} {ci : CrwClassImage} {input output : List UInt8}
  {value : α}

theorem lift {computation : Crw α} (passes : Passes computation ci ci input output value) :
    CodePasses (liftM computation) mi ci input output value where
  streams := passes.streams
  run written count ahead room := by
    rw [run_liftM, passes.run written count ahead room, Option.map_some]

variable (mi ci) in
theorem pure (value : α) : CodePasses (pure value) mi ci [] [] value := Passes.pure ci _

variable (mi ci) in
theorem get : CodePasses get mi ci [] [] mi := Passes.pure ci _

theorem bind {computation : CrwMethod α} {rest : α → CrwMethod β}
    {restInput restOutput : List UInt8} {result : β}
    (first : CodePasses computation mi ci input output value)
    (second : CodePasses (rest value) mi ci restInput restOutput result) :
    CodePasses (computation >>= rest) mi ci (input ++ restInput) (output ++ restOutput) result := by
  rw [CodePasses, StateT.run_bind]
  exact Passes.bind first second

variable (mi ci) in
theorem writeU1 (value : ℤ) : CodePasses (writeU1 value) mi ci [] [byte value] () :=
  lift (Passes.writeU1 ci value)

variable (mi ci) in
theorem writeU2 (value : ℤ) : CodePasses (writeU2 value) mi ci [] (bytes2 value) () :=
  lift (Passes.writeU2 ci value)

variable (mi ci) in
theorem copyU1 {value : ℕ} (fits : value < 2 ^ 8) :
    CodePasses copyU1 mi ci [byte value] [byte value] value :=
  lift (Passes.copyU1 ci fits)

variable (mi ci) in
theorem copyU2 {value : ℕ} (fits : value < 2 ^ 16) :
    CodePasses copyU2 mi ci (bytes2 value) (bytes2 value) value :=
  lift (Passes.copyU2 ci fits)

variable (mi ci) in
theorem copyU4 {value : ℕ} (fits : value < 2 ^ 32) :
    CodePasses copyU4 mi ci (bytes4 value) (bytes4 value) value :=
  lift (Passes.copyU4 ci fits)

theorem methodAssert {holds : Bool} (isTrue : holds = true) :
    CodePasses (methodAssert holds) mi ci [] [] () := by
  rw [ClassFile.methodAssert, if_pos isTrue]
  exact pure mi ci ()

theorem methodCodeMap {position : ℕ} (inside : position ≤ mi.codeLen) :
    CodePasses (methodCodeMap position) mi ci [] [] (mi.map position) :=
  Passes.change (SameStreams.refl ci) fun _ _ => run_methodCodeMap mi _ inside

theorem times {body : CrwMethod Unit} {ε : Type} {read write : ε → List UInt8} {entries : List ε}
    (each : ∀ entry ∈ entries, CodePasses body mi ci (read entry) (write entry) ()) :
    CodePasses (times entries.length body) mi ci (entries.flatMap read) (entries.flatMap write)
      () := by
  induction entries with
  | nil => exact pure mi ci ()
  | cons entry rest step =>
      rw [List.flatMap_cons, List.flatMap_cons]
      exact bind (each entry List.mem_cons_self)
        (step fun later listed => each later (List.mem_cons_of_mem _ listed))

end CodePasses

end HeapScan.ClassFile
