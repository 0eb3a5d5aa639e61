import HeapScan.ClassFile.Method

/-!
# The attributes of a method's code

The tables that belong to a method's code tell positions in it, and are written with the
positions moved as `map` says.  Attributes that are not known are copied.

The frames of a `StackMapTable` count from one another: the position of a frame is that of the
frame before it, plus the offset that it holds, plus one.
-/

namespace HeapScan.ClassFile

open BigEndian

/-- The bytes of a name in the class file. -/
def ascii (text : String) : List UInt8 := text.toList.map fun char => UInt8.ofNat char.toNat

/-- The value of an `int` as an `unsigned`. -/
def unsigned (value : ℤ) : ℕ := (value % 2 ^ 32).toNat

def cpoolEntry (index : ℕ) : Crw CrwConstantPoolEntry := asking fun ci =>
  if 0 < index ∧ index < ci.cpoolCountPlusOne then ci.cpool[index]? else none

def attributeMatch (nameIndex : ℕ) (name : List UInt8) : Crw Bool := do
  let entry ← cpoolEntry nameIndex
  return entry.len == name.length &&
    (entry.ptr.map fun bytes => bytes.take name.length) == some name

def copyAttribute : Crw Unit := do
  let _ ← copyU2
  let len ← copyU4
  copy len

def copyAttributes : Crw Unit := do
  let count ← copyU2
  times count copyAttribute

def copyAllFields : Crw Unit := do
  let count ← copyU2
  times count do
    copy 6
    copyAttributes

/-- Lines and variables that begin with the method begin with what is injected at its entry. -/
def newStartPc (startPc : ℕ) : CrwMethod ℤ := if startPc = 0 then pure 0 else methodCodeMap startPc

def writeLineTable : CrwMethod Unit := do
  let _ ← copyU4
  let count ← copyU2
  times count do
    let startPc ← readU2
    writeU2 (← newStartPc startPc)
    let _ ← copyU2

/-- Both the `LocalVariableTable` and the `LocalVariableTypeTable`. -/
def writeVarTable : CrwMethod Unit := do
  let _ ← copyU4
  let count ← copyU2
  times count do
    let startPc ← readU2
    let length ← readU2
    let newStartPc ← newStartPc startPc
    let newEndPc ← methodCodeMap (startPc + length)
    writeU2 newStartPc
    writeU2 (newEndPc - newStartPc)
    let _ ← copyU2
    let _ ← copyU2
    let _ ← copyU2

/-- An offset has two or four bytes, as the code is long. -/
def readUoffset : CrwMethod ℕ := do
  if 65535 < (← get).codeLen then readU4 else readU2

/-- In long code the two lower bytes are written once more. -/
def writeUoffset (value : ℤ) : CrwMethod Unit := do
  if 65535 < (← get).newCodeLen then
    writeU4 value
  writeU2 value

def copyUoffset : CrwMethod ℕ := do
  let uoffset ← readUoffset
  writeUoffset uoffset
  return uoffset

/-- An offset is read, and where its position has moved is written. -/
def moveUoffset : CrwMethod Unit := do
  let uoffset ← readUoffset
  writeUoffset (← methodCodeMap (TwosComplement.wrap 32 uoffset))

namespace JvmItem

/-- `JVM_ITEM_Object`. -/
abbrev object : ℕ := 7

/-- `JVM_ITEM_Uninitialized`. -/
abbrev uninitialized : ℕ := 8

end JvmItem

def copyVerificationTypes (ntypes : ℕ) : CrwMethod Unit :=
  times ntypes do
    let tag ← copyU1
    if tag = JvmItem.object then
      let _ ← copyU2
    else if tag = JvmItem.uninitialized then
      moveUoffset

/-- The types of the locals (`ulocalvar`) or of the stack (`ustack`), behind their number. -/
def copyCountedTypes : CrwMethod Unit := do
  let ntypes ← copyU2
  copyVerificationTypes ntypes

/-- The frame that was written last: the offset of the next one is lower by `deltaAdj`. -/
structure LastFrame where
  pc : ℤ
  newPc : ℤ
  deltaAdj : ℕ

/-- `last_pc`, `last_new_pc` and `delta_adj` in front of the first frame. -/
def LastFrame.first : LastFrame := ⟨0, 0, 0⟩

/-- `delta`, `new_pc` and `new_delta` of a frame. -/
structure FrameMove where
  delta : ℤ
  newPc : ℤ
  newDelta : ℤ

def moveFrame (last : LastFrame) (offset : ℕ) : CrwMethod FrameMove := do
  let delta := TwosComplement.wrap 32 (last.deltaAdj + offset)
  let newPc ← methodCodeMap (last.pc + delta)
  return ⟨delta, newPc, newPc - last.newPc⟩

/-- Write a frame whose type tells its offset, with the extended type where it is too large. -/
def writeShortFrame (last : LastFrame) (base extended : ℕ) (moved : FrameMove) :
    CrwMethod Unit := do
  let newOffset := moved.newDelta - last.deltaAdj
  if 63 < unsigned newOffset then
    writeU1 extended
    writeUoffset newOffset
  else
    writeU1 (newOffset + base)

/-- What follows the offset of a frame of a type. -/
def copyFrameTypes (frameType : ℕ) : CrwMethod Unit := do
  if frameType = 247 then
    copyVerificationTypes 1
  else if 252 ≤ frameType ∧ frameType ≤ 254 then
    copyVerificationTypes (frameType - 251)
  else if frameType = 255 then
    copyCountedTypes
    copyCountedTypes

def writeFrame (last : LastFrame) : CrwMethod FrameMove := do
  let frameType ← readU1
  if frameType ≤ 63 then
    let moved ← moveFrame last frameType
    writeShortFrame last 0 251 moved
    return moved
  else if frameType ≤ 127 then
    let moved ← moveFrame last (frameType - 64)
    writeShortFrame last 64 247 moved
    copyVerificationTypes 1
    return moved
  else if frameType ≤ 246 then
    methodFatal
  else
    let moved ← moveFrame last (← readUoffset)
    writeU1 frameType
    writeUoffset (moved.newDelta - last.deltaAdj)
    copyFrameTypes frameType
    return moved

def writeFrames : ℕ → LastFrame → CrwMethod Unit
  | 0, _ => pure ()
  | count + 1, last => do
      let moved ← writeFrame last
      methodAssert (0 ≤ moved.delta)
      methodAssert (0 ≤ moved.newDelta)
      methodAssert (last.pc + moved.delta ≤ (← get).codeLen)
      methodAssert (moved.newPc ≤ (← get).newCodeLen)
      writeFrames count ⟨last.pc + moved.delta, moved.newPc, 1⟩

/-- A table whose length is known when it is written, but which is not to shrink. -/
def writeFrameTable (writeEntries : ℕ → CrwMethod Unit) : CrwMethod Unit := do
  let savePosition := (← classImage).outputPosition
  let attrLen ← copyU4
  let count ← copyUoffset
  if count = 0 then
    methodAssert (attrLen = 2)
  else
    writeEntries count
    let newAttrLen := unsigned ((← classImage).outputPosition - (savePosition + 4))
    methodAssert (attrLen ≤ newAttrLen)
    randomWriteU4 savePosition newAttrLen

def writeStackmapTable : CrwMethod Unit :=
  writeFrameTable fun count => writeFrames count LastFrame.first

/-- The older `StackMap` tells whole frames, and their positions. -/
def writeCldcStackmapTable : CrwMethod Unit :=
  writeFrameTable fun count => times count do
    moveUoffset
    copyCountedTypes
    copyCountedTypes

def methodWriteExceptionTable : CrwMethod Unit := do
  let count ← copyU2
  times count do
    let startPc ← readU2
    let endPc ← readU2
    let handlerPc ← readU2
    let newStartPc ← methodCodeMap startPc
    let newEndPc ← methodCodeMap endPc
    let newHandlerPc ← methodCodeMap handlerPc
    writeU2 newStartPc
    writeU2 newEndPc
    writeU2 newHandlerPc
    let _ ← copyU2

def methodWriteCodeAttribute : CrwMethod Unit := do
  let nameIndex ← copyU2
  if ← attributeMatch nameIndex (ascii "LineNumberTable") then
    writeLineTable
  else if ← attributeMatch nameIndex (ascii "LocalVariableTable") then
    writeVarTable
  else if ← attributeMatch nameIndex (ascii "LocalVariableTypeTable") then
    writeVarTable
  else if ← attributeMatch nameIndex (ascii "StackMapTable") then
    writeStackmapTable
  else if ← attributeMatch nameIndex (ascii "StackMap") then
    writeCldcStackmapTable
  else
    let len ← copyU4
    copy len

end HeapScan.ClassFile
