import HeapScan.ClassFile.Image
import HeapScan.ClassFile.Instruction

/-!
# The rewriting of a method's code

The code of a method is walked three times.  The first walk decides what is injected at
every position and moves the positions behind it in `map`.  The second one widens every
branch whose offset no longer fits into two bytes and every switch whose padding changes;
after each change it starts again.  The last one writes the code.

`map` is where a jump to an old position goes: behind the code that is injected at the entry
and after an allocation, but in front of the code that is injected before a return.
-/

namespace HeapScan.ClassFile

open BigEndian

/-- `LARGEST_INJECTION`. -/
def largestInjection : ℕ := 12 * 3

/--
The data of the method that is rewritten.  The three arrays have an entry for every
position up to `codeLen`; an injection without code is empty.
-/
structure MethodImage where
  number : ℕ
  map : ℕ → ℤ
  injections : ℕ → List UInt8
  widening : ℕ → ℤ
  codeLen : ℕ
  newCodeLen : ℕ
  startOfInputBytecodes : ℕ
  maxStack : ℕ
  newMaxStack : ℕ
  objectInitMethod : Bool
  skipCallReturnSites : Bool

/-- A computation on the method and on the class image it belongs to. -/
abbrev CrwMethod := StateT MethodImage Crw

def methodFatal {α : Type} : CrwMethod α := fun _ => fatalError

def methodAssert (holds : Bool) : CrwMethod Unit := if holds then pure () else methodFatal

def classImage : CrwMethod CrwClassImage := StateT.lift get

/-- Do something as often as a counting loop does. -/
def times {m : Type → Type} [Monad m] : ℕ → m Unit → m Unit
  | 0, _ => pure ()
  | count + 1, body => do
      body
      times count body

/-- `for (i = low; i <= high; ++i)`: with the largest `int` as the bound it does not end. -/
def forUpTo (low high : ℤ) (body : CrwMethod Unit) : CrwMethod Unit :=
  if low ≤ high ∧ high = 2 ^ 31 - 1 then methodFatal else times (high + 1 - low).toNat body

/-- A loop that has not ended when the fuel has run out has no result. -/
def whileTrue : ℕ → CrwMethod Bool → CrwMethod Unit → CrwMethod Unit
  | 0, _, _ => methodFatal
  | fuel + 1, condition, body => do
      if ← condition then
        body
        whileTrue fuel condition body

def pushPoolConstantBytecodes (index : ℕ) : List UInt8 :=
  if index = index % 2 ^ 7 then [byte Opcode.ldc, byte index]
  else [byte Opcode.ldc_w, byte (index / 2 ^ 8), byte index]

def pushShortConstantBytecodes (number : ℕ) : List UInt8 :=
  if number ≤ 5 then [byte (Opcode.iconst_0 + number)]
  else if number = number % 2 ^ 7 then [byte Opcode.bipush, byte number]
  else [byte Opcode.sipush, byte (number / 2 ^ 8), byte number]

/-- The bytes that push the class number, from the constant pool where it is no short. -/
def pushCnumBytecodes : CrwMethod (List UInt8) := do
  let ci ← classImage
  if ci.number = ci.number % 2 ^ 15 then
    return pushShortConstantBytecodes ci.number
  methodAssert (ci.indices.classNumber != 0)
  return pushPoolConstantBytecodes ci.indices.classNumber

/-- The stack limit is raised where it is below `maxStack`. -/
def MethodImage.withStack (mi : MethodImage) (maxStack : ℕ) : MethodImage :=
  { mi with newMaxStack := max mi.newMaxStack maxStack }

/-- The bytes that call a tracker method, and the stack that they need. -/
def injectionTemplate (maxNbytes : ℤ) (methodIndex : ℕ) : CrwMethod (List UInt8) := do
  if methodIndex = 0 then
    return []
  let ci ← classImage
  let mi ← get
  let (maxStack, addDup, addAload, pushCnum, pushMnum) :=
    if methodIndex = ci.indices.newarrayTracker then (mi.maxStack + 1, true, false, false, false)
    else if methodIndex = ci.indices.objectInitTracker then
      (mi.maxStack + 1, false, true, false, false)
    else (mi.maxStack + 2, false, false, true, true)
  let dup := if addDup then [byte Opcode.dup] else []
  let aload := if addAload then [byte Opcode.aload_0] else []
  let cnum ← if pushCnum then pushCnumBytecodes else pure []
  let mnum := if pushMnum then pushShortConstantBytecodes mi.number else []
  let call := [byte Opcode.invokestatic, byte (methodIndex / 2 ^ 8), byte methodIndex]
  let bytecodes := dup ++ aload ++ cnum ++ mnum ++ call
  methodAssert (bytecodes.length < maxNbytes)
  modify fun mi => mi.withStack maxStack
  return bytecodes

/-- The code to inject at the entry to the method. -/
def entryInjectionCode (len : ℤ) : CrwMethod (List UInt8) := do
  let ci ← classImage
  let mi ← get
  let bytecodes ←
    if mi.objectInitMethod then injectionTemplate len ci.indices.objectInitTracker else pure []
  if !mi.skipCallReturnSites then
    return bytecodes ++ (← injectionTemplate (len - bytecodes.length) ci.indices.callTracker)
  return bytecodes

/-- The code to inject before an opcode. -/
def beforeInjectionCode (opcode : ℕ) (len : ℤ) : CrwMethod (List UInt8) := do
  let ci ← classImage
  let mi ← get
  if opcode ∈ Opcode.returns ∧ !mi.skipCallReturnSites then
    injectionTemplate len ci.indices.returnTracker
  else
    return []

/-- The code to inject after an opcode; an object that `new` has made cannot be passed yet. -/
def afterInjectionCode (opcode : ℕ) (len : ℤ) : CrwMethod (List UInt8) := do
  let ci ← classImage
  if opcode ∈ Opcode.arrayAllocations then
    injectionTemplate len ci.indices.newarrayTracker
  else
    return []

/-- Start an injection at a position, or add to what is there. -/
def injectBytecodes (at_ : ℕ) (bytecodes : List UInt8) : CrwMethod Unit := do
  let mi ← get
  methodAssert (at_ ≤ mi.codeLen)
  let injection := mi.injections at_
  methodAssert (bytecodes.length ≤ largestInjection / 2)
  methodAssert (injection.length + bytecodes.length ≤ largestInjection)
  set { mi with injections := Function.update mi.injections at_ (injection ++ bytecodes) }
  StateT.lift (modify fun ci => { ci with injectionCount := ci.injectionCount + 1 })

def inputCodeOffset : CrwMethod ℕ := do
  return (← classImage).inputPosition - (← get).startOfInputBytecodes

def rewindToBeginningOfInputBytecodes : CrwMethod Unit := do
  let mi ← get
  StateT.lift (modify fun ci => { ci with inputPosition := mi.startOfInputBytecodes })

def MethodImage.adjustMap (mi : MethodImage) (at_ : ℕ) (offset : ℤ) : MethodImage :=
  { mi with map := fun position =>
      if at_ ≤ position ∧ position ≤ mi.codeLen then mi.map position + offset
      else mi.map position }

def adjustMap (at_ : ℕ) (offset : ℤ) : CrwMethod Unit := modify fun mi => mi.adjustMap at_ offset

/-- Widen the instruction at a position; what stands behind it moves. -/
def widen (at_ : ℕ) (len : ℤ) : CrwMethod Unit := do
  methodAssert (at_ ≤ (← get).codeLen)
  let delta := len - (← get).widening at_
  adjustMap (← inputCodeOffset) delta
  modify fun mi =>
    { mi with widening := Function.update mi.widening at_ (TwosComplement.wrap 8 len) }

def verifyOpcWide (wopcode : ℕ) : CrwMethod Unit := methodAssert (wopcode ∈ Opcode.widened)

/-- The position of an instruction in the new code. -/
def methodCodeMap (position : ℤ) : CrwMethod ℤ := do
  let mi ← get
  methodAssert (0 ≤ position ∧ position ≤ mi.codeLen)
  return mi.map position.toNat

/-- `NEXT_4BYTE_BOUNDARY` of a position in the new code. -/
def newNext4ByteBoundary (opcodePos : ℤ) : ℤ := (opcodePos + 4) / 4 * 4

section Walks

variable (lengths : OpcodeLengths)

def opcodeLength (opcode : ℕ) : CrwMethod ℕ := do
  methodAssert (opcode ≤ Opcode.max)
  return lengths.length opcode

/-- What is done where there is code to inject. -/
def whenAny (bytecodes : List UInt8) (action : CrwMethod Unit) : CrwMethod Unit :=
  if 0 < bytecodes.length then action else pure ()

/-- The operands of `wide`, which no walk changes. -/
def readWide : CrwMethod Unit := do
  let wopcode ← readU1
  let _ ← readU2
  verifyOpcWide wopcode
  if wopcode = Opcode.iinc then
    let _ ← readU1
    let _ ← readU1

/-- Read over the offsets of a `tableswitch` at a position. -/
def readTableswitch (pos : ℕ) : CrwMethod Unit := do
  let header := next4ByteBoundary pos
  skip (header - (pos + 1))
  let _ ← readU4
  let low ← readInt
  let high ← readInt
  skip ((high + 1 - low) * 4)

def readLookupswitch (pos : ℕ) : CrwMethod Unit := do
  let header := next4ByteBoundary pos
  skip (header - (pos + 1))
  let _ ← readU4
  let npairs ← readInt
  skip (npairs * 8)

/-- Read over what follows an opcode. -/
def readOperands (pos opcode : ℕ) : CrwMethod Unit := do
  if opcode = Opcode.tableswitch then
    readTableswitch pos
  else if opcode = Opcode.lookupswitch then
    readLookupswitch pos
  else
    let instrLen ← opcodeLength lengths opcode
    skip (instrLen - 1)

/-- Walk one instruction and inject instrumentation. -/
def injectForOpcode : CrwMethod Unit := do
  let pos ← inputCodeOffset
  let opcode ← readU1
  if opcode = Opcode.wide then
    readWide
  else
    let before ← beforeInjectionCode opcode (largestInjection + 1)
    whenAny before (injectBytecodes pos before)
    readOperands lengths pos opcode
    let pos ← inputCodeOffset
    -- A jump to the instruction goes to what is injected before it, so only the code behind moves.
    whenAny before (adjustMap pos before.length)
    let after ← afterInjectionCode opcode (largestInjection + 1)
    whenAny after do
      injectBytecodes pos after
      adjustMap pos after.length

/-- Widen a switch to its new padding, if it is not: whether nothing has changed. -/
def adjustPadding (pos : ℕ) (newPos : ℤ) (read : CrwMethod Unit) : CrwMethod Bool := do
  let widened := (← get).widening pos
  read
  let newPad := newNext4ByteBoundary newPos - newPos
  let oldPad := (next4ByteBoundary pos : ℤ) - pos
  let deltaPad := newPad - oldPad
  if widened ≠ deltaPad then
    widen pos deltaPad
    return false
  return true

/-- Widen one instruction, if it has to be: whether nothing has changed. -/
def adjustInstruction : CrwMethod Bool := do
  let pos ← inputCodeOffset
  let newPos ← methodCodeMap pos
  let opcode ← readU1
  if opcode = Opcode.wide then
    readWide
    return true
  else if opcode = Opcode.tableswitch then
    adjustPadding pos newPos (readTableswitch pos)
  else if opcode = Opcode.lookupswitch then
    adjustPadding pos newPos (readLookupswitch pos)
  else if opcode ∈ Opcode.shortBranches then
    let widened := (← get).widening pos
    let delta ← readS2
    if widened = 0 then
      let newDelta := (← methodCodeMap (pos + delta)) - newPos
      if newDelta < -32768 ∨ 32767 < newDelta then
        if opcode ∈ Opcode.unconditional then widen pos 2 else widen pos 5
        return false
    return true
  else if opcode ∈ Opcode.wideBranches then
    let _ ← readU4
    return true
  else
    let instrLen ← opcodeLength lengths opcode
    skip (instrLen - 1)
    return true

/-- The offset that is read, from a position to where its target has moved. -/
def readNewDelta (pos : ℕ) (newPos : ℤ) (read : Crw ℤ) : CrwMethod ℤ := do
  let delta ← read
  return (← methodCodeMap (pos + delta)) - newPos

/-- The opcode of a table, or a fatal error. -/
def lookupOpcode (table : List (ℕ × ℕ)) (opcode : ℕ) : CrwMethod ℕ :=
  match table.lookup opcode with
  | some found => pure found
  | none => methodFatal

def writePadding (newPos : ℤ) : CrwMethod Unit :=
  times (newNext4ByteBoundary newPos - (newPos + 1)).toNat (writeU1 0)

def writeWide : CrwMethod Unit := do
  writeU1 Opcode.wide
  let wopcode ← copyU1
  let _ ← copyU2
  verifyOpcWide wopcode
  if wopcode = Opcode.iinc then
    let _ ← copyU1
    let _ ← copyU1

def writeTableswitch (pos : ℕ) (newPos : ℤ) : CrwMethod Unit := do
  skip (next4ByteBoundary pos - (pos + 1))
  let newDelta ← readNewDelta pos newPos readInt
  let low ← readInt
  let high ← readInt
  writeU1 Opcode.tableswitch
  writePadding newPos
  writeU4 newDelta
  writeU4 low
  writeU4 high
  forUpTo low high do
    let newDelta ← readNewDelta pos newPos readInt
    writeU4 newDelta

def writeLookupswitch (pos : ℕ) (newPos : ℤ) : CrwMethod Unit := do
  skip (next4ByteBoundary pos - (pos + 1))
  let newDelta ← readNewDelta pos newPos readInt
  let npairs ← readInt
  writeU1 Opcode.lookupswitch
  writePadding newPos
  writeU4 newDelta
  writeU4 npairs
  times npairs.toNat do
    let value ← readU4
    let newDelta ← readNewDelta pos newPos readInt
    writeU4 value
    writeU4 newDelta

/-- Write a branch whose offset had two bytes as it has been widened. -/
def writeWidened (opcode : ℕ) (widened newDelta : ℤ) : CrwMethod Unit := do
  if widened = 0 then
    writeU1 opcode
    writeU2 newDelta
  else if widened = 2 then
    let newOpcode ← lookupOpcode Opcode.wideForms opcode
    writeU1 newOpcode
    writeU4 newDelta
  else if widened = 5 then
    let newOpcode ← lookupOpcode Opcode.inverses opcode
    -- The inverse branch goes beyond itself and the goto_w.
    writeU1 newOpcode
    writeU2 (3 + 5)
    writeU1 Opcode.goto_w
    writeU4 (newDelta - 3)
  else
    methodFatal

def writeBranch (pos : ℕ) (newPos : ℤ) (opcode : ℕ) : CrwMethod Unit := do
  let widened := (← get).widening pos
  let newDelta ← readNewDelta pos newPos readS2
  writeWidened opcode widened newDelta

def writeBranchWide (pos : ℕ) (newPos : ℤ) (opcode : ℕ) : CrwMethod Unit := do
  let newDelta ← readNewDelta pos newPos readInt
  writeU1 opcode
  writeU4 newDelta

/-- Copy an instruction that no walk looks into. -/
def writePlain (opcode : ℕ) : CrwMethod Unit := do
  let instrLen ← opcodeLength lengths opcode
  writeU1 opcode
  let count := ((instrLen : ℤ) - 1) % 2 ^ 32
  copy count.toNat

def writeOpcode (pos : ℕ) (newPos : ℤ) (opcode : ℕ) : CrwMethod Unit :=
  if opcode = Opcode.wide then writeWide
  else if opcode = Opcode.tableswitch then writeTableswitch pos newPos
  else if opcode = Opcode.lookupswitch then writeLookupswitch pos newPos
  else if opcode ∈ Opcode.shortBranches then writeBranch pos newPos opcode
  else if opcode ∈ Opcode.wideBranches then writeBranchWide pos newPos opcode
  else writePlain lengths opcode

/-- Write what is injected in front of an instruction, and the instruction. -/
def writeInstruction : CrwMethod Unit := do
  let pos ← inputCodeOffset
  let newPos ← methodCodeMap pos
  let injection := (← get).injections pos
  whenAny injection (writeBytes injection)
  let opcode ← readU1
  writeOpcode lengths pos newPos opcode

/-- Whether bytecodes are left to walk. -/
def moreBytecodes : CrwMethod Bool := do
  return (← inputCodeOffset) < (← get).codeLen

/-- Walk on, or back to the beginning where an instruction has been widened. -/
def adjustOrRewind : CrwMethod Unit := do
  if !(← adjustInstruction lengths) then
    rewindToBeginningOfInputBytecodes

/-- Jumps to the first instruction do not run what is injected at the entry. -/
def injectAtEntry : CrwMethod Unit := do
  let entry ← entryInjectionCode (largestInjection + 1)
  whenAny entry do
    injectBytecodes 0 entry
    adjustMap 0 entry.length

def methodInjectAndWriteCode (fuel : ℕ) : CrwMethod Unit := do
  rewindToBeginningOfInputBytecodes
  injectAtEntry
  whileTrue fuel moreBytecodes (injectForOpcode lengths)
  rewindToBeginningOfInputBytecodes
  whileTrue fuel moreBytecodes (adjustOrRewind lengths)
  rewindToBeginningOfInputBytecodes
  whileTrue fuel moreBytecodes (writeInstruction lengths)

end Walks

end HeapScan.ClassFile
