import Mathlib.Control.Lawful
import HeapScan.Library.BigEndian

/-!
# The class file image

`java_crw_demo` reads a class file image from its start to its end and writes the
instrumented image as it goes.  Only a few numbers that are known later, the lengths, the
size of the constant pool and the stack limit, are written at an earlier position afterwards.

A function yields `none` where the C code fails an assertion, calls `fatal_error` (this agent
passes no handler, so the process aborts) or would leave one of the two images.  A position
past the input fails at once; the code finds it at the next `CRW_ASSERT_CI`.  `malloc` is taken
never to fail.
-/

namespace HeapScan.ClassFile

open BigEndian

/-- An entry of the constant pool: `ptr` is the string of a Utf8 entry, which `len` bytes hold. -/
structure CrwConstantPoolEntry where
  ptr : Option (List UInt8)
  len : ℕ
  index1 : ℕ
  index2 : ℕ
  tag : ℕ
deriving DecidableEq

/-- The names and signatures that `inject_class` is told; a missing one is `NULL`. -/
structure CrwTrackerInterface where
  tclassName : Option (List UInt8)
  tclassSig : Option (List UInt8)
  callName : Option (List UInt8)
  callSig : Option (List UInt8)
  returnName : Option (List UInt8)
  returnSig : Option (List UInt8)
  objInitName : Option (List UInt8)
  objInitSig : Option (List UInt8)
  newarrayName : Option (List UInt8)
  newarraySig : Option (List UInt8)
deriving DecidableEq

/-- The constant pool indices of the new entries, zero where there is none. -/
structure CrwTrackerIndices where
  trackerClass : ℕ
  objectInitTracker : ℕ
  newarrayTracker : ℕ
  callTracker : ℕ
  returnTracker : ℕ
  classNumber : ℕ
deriving DecidableEq

structure CrwClassImage where
  number : ℕ
  name : Option (List UInt8)
  input : List UInt8
  inputPosition : ℕ
  /-- The bytes before `output_position`, or `NULL`. -/
  output : Option (List UInt8)
  outputLen : ℕ
  cpool : List CrwConstantPoolEntry
  cpoolMaxElements : ℕ
  cpoolCountPlusOne : ℕ
  systemClass : Bool
  accessFlags : ℕ
  interface : CrwTrackerInterface
  indices : CrwTrackerIndices
  injectionCount : ℕ
  isObjectClass : Bool
  isThreadClass : Bool
  /-- `method_name` and `method_descr` of the methods reached so far. -/
  methods : List (Option (List UInt8) × Option (List UInt8))
deriving DecidableEq

/-- A computation on the image under way. -/
abbrev Crw := StateT CrwClassImage Option

def fatalError {α : Type} : Crw α := fun _ => none

def crwAssert (holds : Bool) : Crw Unit := if holds then pure () else fatalError

/-- What is told by the image, without a change of it. -/
def asking {α : Type} (question : CrwClassImage → Option α) : Crw α := fun ci =>
  (question ci).map fun answer => (answer, ci)

namespace CrwClassImage

/-- The image with the input read up to `count` bytes further. -/
def advance (ci : CrwClassImage) (count : ℕ) : CrwClassImage :=
  { ci with inputPosition := ci.inputPosition + count }

def outputPosition (ci : CrwClassImage) : ℕ := (ci.output.map List.length).getD 0

/-- The image with more bytes written, where there is an output. -/
def emit (ci : CrwClassImage) (bytes : List UInt8) : CrwClassImage :=
  { ci with output := ci.output.map (· ++ bytes) }

/-- Whether `count` more bytes can be written. -/
def HasRoom (ci : CrwClassImage) (count : ℕ) : Prop :=
  ∀ written ∈ ci.output, written.length + count ≤ ci.outputLen

instance (ci : CrwClassImage) (count : ℕ) : Decidable (ci.HasRoom count) :=
  decidable_of_iff (ci.output.all fun written => written.length + count ≤ ci.outputLen) (by
    cases output : ci.output with
    | none => simp [HasRoom, output]
    | some written => simp [HasRoom, output])

end CrwClassImage

open CrwClassImage

def readU1 : Crw ℕ := fun ci => do
  let value ← u1 ci.input ci.inputPosition
  return (value, ci.advance 1)

def readU2 : Crw ℕ := do
  let res ← readU1
  return res * 2 ^ 8 + (← readU1)

def readS2 : Crw ℤ := do
  let res ← readU1
  return TwosComplement.wrap 16 (res * 2 ^ 8 + (← readU1) : ℕ)

def readU4 : Crw ℕ := do
  let res ← readU2
  return res * 2 ^ 16 + (← readU2)

/-- `readU4` into an `int`. -/
def readInt : Crw ℤ := do
  return TwosComplement.wrap 32 (← readU4 : ℕ)

def writeBytes (bytes : List UInt8) : Crw Unit := fun ci =>
  if ci.HasRoom bytes.length then some ((), ci.emit bytes) else none

/-- Only the lower eight bits are written. -/
def writeU1 (value : ℤ) : Crw Unit := writeBytes [byte value]

def writeU2 (value : ℤ) : Crw Unit := do
  writeU1 (value / 2 ^ 8)
  writeU1 value

def writeU4 (value : ℤ) : Crw Unit := do
  writeU2 (value / 2 ^ 16)
  writeU2 value

def copyU1 : Crw ℕ := do
  let value ← readU1
  writeU1 value
  return value

def copyU2 : Crw ℕ := do
  let value ← readU2
  writeU2 value
  return value

def copyU4 : Crw ℕ := do
  let value ← readU4
  writeU4 value
  return value

/-- The bytes that `memcpy` takes from the input; the position moves over them. -/
def readBytes (count : ℕ) : Crw (List UInt8) := fun ci => do
  let bytes ← slice ci.input ci.inputPosition count
  return (bytes, ci.advance count)

def copy (count : ℕ) : Crw Unit := do
  writeBytes (← readBytes count)

/-- The count is an `int` that is passed as an `unsigned`. -/
def skip (count : ℤ) : Crw Unit := do
  let _ ← readBytes (count % 2 ^ 32).toNat

/-- Write two bytes at an earlier position of the output. -/
def randomWriteU2 (position : ℕ) (value : ℤ) : Crw Unit := modify fun ci =>
  { ci with output := ci.output.map fun written =>
      written.take position ++ bytes2 value ++ written.drop (position + 2) }

def randomWriteU4 (position : ℕ) (value : ℤ) : Crw Unit := modify fun ci =>
  { ci with output := ci.output.map fun written =>
      written.take position ++ bytes4 value ++ written.drop (position + 4) }

namespace CrwClassImage

variable (ci : CrwClassImage)

@[simp] theorem advance_input (count : ℕ) : (ci.advance count).input = ci.input := rfl

@[simp]
theorem advance_inputPosition (count : ℕ) :
    (ci.advance count).inputPosition = ci.inputPosition + count := rfl

@[simp] theorem advance_output (count : ℕ) : (ci.advance count).output = ci.output := rfl

@[simp] theorem advance_zero : ci.advance 0 = ci := rfl

@[simp]
theorem advance_advance (count more : ℕ) :
    (ci.advance count).advance more = ci.advance (count + more) := by
  simp only [advance, Nat.add_assoc]

@[simp] theorem emit_input (bytes : List UInt8) : (ci.emit bytes).input = ci.input := rfl

@[simp]
theorem emit_inputPosition (bytes : List UInt8) :
    (ci.emit bytes).inputPosition = ci.inputPosition := rfl

@[simp]
theorem emit_nil : ci.emit [] = ci := by
  cases ci with
  | mk number name input inputPosition output =>
      cases output <;> simp [emit]

@[simp]
theorem emit_emit (bytes more : List UInt8) :
    (ci.emit bytes).emit more = ci.emit (bytes ++ more) := by
  cases output : ci.output with
  | none => simp [emit, output]
  | some written => simp [emit, output]

/-- Reading and writing commute. -/
@[simp]
theorem advance_emit (count : ℕ) (bytes : List UInt8) :
    (ci.advance count).emit bytes = (ci.emit bytes).advance count := rfl

@[simp]
theorem hasRoom_advance (count size : ℕ) : (ci.advance count).HasRoom size ↔ ci.HasRoom size :=
  Iff.rfl

@[simp]
theorem hasRoom_emit (bytes : List UInt8) (size : ℕ) :
    (ci.emit bytes).HasRoom size ↔ ∀ written ∈ ci.output,
      written.length + (bytes.length + size) ≤ ci.outputLen := by
  cases output : ci.output with
  | none => simp [HasRoom, emit, output]
  | some written => simp [HasRoom, emit, output, Nat.add_assoc]

variable {ci}

theorem HasRoom.mono {size smaller : ℕ} (room : ci.HasRoom size) (fits : smaller ≤ size) :
    ci.HasRoom smaller := fun written isOutput => by
  have bound := room written isOutput
  omega

theorem HasRoom.emit {size : ℕ} {bytes : List UInt8} (room : ci.HasRoom (bytes.length + size)) :
    (ci.emit bytes).HasRoom size :=
  (ci.hasRoom_emit bytes size).mpr room

end CrwClassImage

section Running

variable (ci : CrwClassImage)

theorem run_readU1 : readU1.run ci =
    (u1 ci.input ci.inputPosition).map fun value => (value, ci.advance 1) := by
  cases read : u1 ci.input ci.inputPosition <;> simp [readU1, StateT.run, read]

theorem run_readU2 : readU2.run ci =
    (u2 ci.input ci.inputPosition).map fun value => (value, ci.advance 2) := by
  cases high : u1 ci.input ci.inputPosition with
  | none => simp [readU2, run_readU1, u2, high]
  | some value =>
      cases low : u1 ci.input (ci.inputPosition + 1) <;>
        simp [readU2, run_readU1, u2, high, low]

theorem run_readS2 : readS2.run ci =
    (s2 ci.input ci.inputPosition).map fun value => (value, ci.advance 2) := by
  cases high : u1 ci.input ci.inputPosition with
  | none => simp [readS2, run_readU1, s2, u2, high]
  | some value =>
      cases low : u1 ci.input (ci.inputPosition + 1) <;>
        simp [readS2, run_readU1, s2, u2, high, low]

theorem run_readU4 : readU4.run ci =
    (u4 ci.input ci.inputPosition).map fun value => (value, ci.advance 4) := by
  cases high : u2 ci.input ci.inputPosition with
  | none => simp [readU4, run_readU2, u4, high]
  | some value =>
      cases low : u2 ci.input (ci.inputPosition + 2) <;>
        simp [readU4, run_readU2, u4, high, low]

theorem run_readInt : readInt.run ci =
    (s4 ci.input ci.inputPosition).map fun value => (value, ci.advance 4) := by
  cases read : u4 ci.input ci.inputPosition <;> simp [readInt, run_readU4, s4, read]

theorem run_readBytes (count : ℕ) : (readBytes count).run ci =
    (slice ci.input ci.inputPosition count).map fun bytes => (bytes, ci.advance count) := by
  cases read : slice ci.input ci.inputPosition count <;> simp [readBytes, StateT.run, read]

theorem run_writeBytes {bytes : List UInt8} (room : ci.HasRoom bytes.length) :
    (writeBytes bytes).run ci = some ((), ci.emit bytes) :=
  if_pos room

theorem run_writeBytes_full {bytes : List UInt8} (full : ¬ ci.HasRoom bytes.length) :
    (writeBytes bytes).run ci = none :=
  if_neg full

/-- Bytes written one piece after another are the bytes written at once. -/
theorem writeBytes_append (bytes more : List UInt8) :
    (do writeBytes bytes; writeBytes more) = writeBytes (bytes ++ more) := by
  refine StateT.ext fun ci => ?_
  by_cases room : ci.HasRoom bytes.length
  · have first := run_writeBytes ci room
    have same : (ci.emit bytes).HasRoom more.length ↔ ci.HasRoom (bytes ++ more).length := by
      rw [hasRoom_emit, List.length_append]
      exact Iff.rfl
    by_cases wholeRoom : ci.HasRoom (bytes ++ more).length
    · simp only [StateT.run_bind, first, Option.bind_eq_bind, Option.bind_some,
        run_writeBytes _ (same.mpr wholeRoom), run_writeBytes _ wholeRoom, emit_emit]
    · simp only [StateT.run_bind, first, Option.bind_eq_bind, Option.bind_some,
        run_writeBytes_full _ (same.not.mpr wholeRoom), run_writeBytes_full _ wholeRoom]
  · have wholeFull : ¬ ci.HasRoom (bytes ++ more).length := fun wholeRoom =>
      room (wholeRoom.mono (by simp))
    simp only [StateT.run_bind, run_writeBytes_full _ room, run_writeBytes_full _ wholeFull,
      Option.bind_eq_bind, Option.bind_none]

theorem writeU2_eq (value : ℤ) : writeU2 value = writeBytes (bytes2 value) :=
  writeBytes_append [byte (value / 2 ^ 8)] [byte value]

theorem writeU4_eq (value : ℤ) : writeU4 value = writeBytes (bytes4 value) := by
  rw [writeU4, writeU2_eq, writeU2_eq, writeBytes_append, bytes4]

end Running

end HeapScan.ClassFile
