import HeapScan.ClassFile.Tables

/-!
# The rewriting of a class

The class file is copied to a second image.  The names that the tracker class and its methods
have are added to the constant pool, and every method that is not skipped is rewritten.  Where
nothing has been injected there is no new image.
-/

namespace HeapScan.ClassFile

open BigEndian

/-- `MAXIMUM_NEW_CPOOL_ENTRIES`. -/
def maximumNewCpoolEntries : ℕ := 64

/-- What `classfile_constants.h` of the development kit tells. -/
structure ClassfileConstants where
  lengths : OpcodeLengths
  majorVersion : ℕ
  minorVersion : ℕ

namespace JvmConstant

abbrev utf8 : ℕ := 1
abbrev integer : ℕ := 3
abbrev class_ : ℕ := 7
abbrev methodref : ℕ := 10
abbrev nameAndType : ℕ := 12

/-- `Class` and `String`. -/
def ofOneIndex : List ℕ := [7, 8]

/-- `Fieldref`, `Methodref`, `InterfaceMethodref`, `Integer`, `Float` and `NameAndType`. -/
def ofTwoIndices : List ℕ := [9, 10, 11, 3, 4, 12]

/-- `Long` and `Double`, which take two entries. -/
def ofTwoWords : List ℕ := [5, 6]

end JvmConstant

/-- A string is read up to its first NUL. -/
def cString (bytes : List UInt8) : List UInt8 := bytes.takeWhile (· ≠ 0)

section ConstantPool

def fillinCpoolEntry (i : ℕ) (entry : CrwConstantPoolEntry) : Crw Unit := fun ci =>
  if 0 < i ∧ i < ci.cpoolCountPlusOne ∧ i < ci.cpool.length then
    some ((), { ci with cpool := ci.cpool.set i entry })
  else none

/-- `cpool_count_plus_one++`, which must not reach the end of the table. -/
def takeCpoolIndex : Crw Unit := do
  modify fun ci => { ci with cpoolCountPlusOne := (ci.cpoolCountPlusOne + 1) % 2 ^ 16 }
  let ci ← get
  crwAssert (ci.cpoolCountPlusOne < ci.cpoolMaxElements)

/-- What is written behind the tag of a new entry. -/
def writeCpoolFields (tag index1 index2 : ℕ) (str : List UInt8) : Crw Unit :=
  if tag ∈ JvmConstant.ofOneIndex then
    writeU2 index1
  else if tag ∈ JvmConstant.ofTwoIndices then do
    writeU2 index1
    writeU2 index2
  else if tag ∈ JvmConstant.ofTwoWords then do
    writeU4 index1
    writeU4 index2
    takeCpoolIndex
  else if tag = JvmConstant.utf8 then do
    crwAssert (str.length = str.length % 2 ^ 16)
    writeU2 str.length
    writeBytes str
  else
    fatalError

def addNewCpoolEntry (tag index1 index2 : ℕ) (str : List UInt8) : Crw ℕ := do
  let i := (← get).cpoolCountPlusOne
  takeCpoolIndex
  writeU1 tag
  writeCpoolFields tag index1 index2 str
  let utf8 := if tag = JvmConstant.utf8 then some str else none
  fillinCpoolEntry i ⟨utf8, str.length % 2 ^ 16, index1, index2, tag⟩
  let ci ← get
  crwAssert (0 < i ∧ i < ci.cpoolCountPlusOne)
  return i

def addNewClassCpoolEntry (className : List UInt8) : Crw ℕ := do
  let nameIndex ← addNewCpoolEntry JvmConstant.utf8 className.length 0 className
  addNewCpoolEntry JvmConstant.class_ nameIndex 0 []

def addNewMethodCpoolEntry (classIndex : ℕ) (name descr : List UInt8) : Crw ℕ := do
  let nameIndex ← addNewCpoolEntry JvmConstant.utf8 name.length 0 name
  let descrIndex ← addNewCpoolEntry JvmConstant.utf8 descr.length 0 descr
  let nameTypeIndex ← addNewCpoolEntry JvmConstant.nameAndType nameIndex descrIndex []
  addNewCpoolEntry JvmConstant.methodref classIndex nameTypeIndex []

/-- The entry of the tracker class, or zero where its name is `NULL`. -/
def addTrackerClass (className : Option (List UInt8)) : Crw ℕ :=
  match className with
  | some className => addNewClassCpoolEntry className
  | none => pure 0

/-- The entry of a tracker method, or zero where its name or signature is `NULL`. -/
def addTracker (name sig : Option (List UInt8)) : Crw ℕ :=
  match name with
  | some name => do
      match sig with
      | some sig => addNewMethodCpoolEntry (← get).indices.trackerClass name sig
      | none => fatalError
  | none => pure 0

/-- Copy an entry, and tell how many indices it takes. -/
def copyCpoolEntry (i : ℕ) : Crw ℕ := do
  let tag ← copyU1
  if tag ∈ JvmConstant.ofOneIndex then
    let index1 ← copyU2
    fillinCpoolEntry i ⟨none, 0, index1, 0, tag⟩
    return 1
  else if tag ∈ JvmConstant.ofTwoIndices then
    let index1 ← copyU2
    let index2 ← copyU2
    fillinCpoolEntry i ⟨none, 0, index1, index2, tag⟩
    return 1
  else if tag ∈ JvmConstant.ofTwoWords then
    let index1 ← copyU4
    let index2 ← copyU4
    fillinCpoolEntry i ⟨none, 0, index1, index2, tag⟩
    return 2
  else if tag = JvmConstant.utf8 then
    let len ← copyU2
    let utf8 ← readBytes len
    writeBytes utf8
    fillinCpoolEntry i ⟨some utf8, len, len, 0, tag⟩
    return 1
  else
    fatalError

/-- The index is an `unsigned short`; a round with the index zero fails. -/
def copyCpool (countPlusOne : ℕ) : ℕ → ℕ → Crw Unit
  | 0, _ => fatalError
  | fuel + 1, i =>
      if i < countPlusOne then do
        let taken ← copyCpoolEntry i
        copyCpool countPlusOne fuel ((i + taken) % 2 ^ 16)
      else pure ()

/-- Note the index of a new entry. -/
def setIndex (change : CrwTrackerIndices → CrwTrackerIndices) : Crw Unit :=
  modify fun ci => { ci with indices := change ci.indices }

/-- The number of a class is pushed from the pool where it is no short. -/
def addClassNumber : Crw Unit := do
  let ci ← get
  if (ci.interface.callName.isSome || ci.interface.returnName.isSome) &&
      ci.number != ci.number % 2 ^ 15 then
    let index ← addNewCpoolEntry JvmConstant.integer (ci.number / 2 ^ 16 % 2 ^ 16)
      (ci.number % 2 ^ 16) []
    setIndex fun indices => { indices with classNumber := index }
  else pure ()

def noteTrackerClass (className : Option (List UInt8)) : Crw Unit := do
  let index ← addTrackerClass className
  setIndex fun indices => { indices with trackerClass := index }

def noteTracker (name sig : Option (List UInt8))
    (change : ℕ → CrwTrackerIndices → CrwTrackerIndices) : Crw Unit := do
  let index ← addTracker name sig
  setIndex (change index)

/-- Add the entries that the injected code refers to. -/
def addTrackers : Crw Unit := do
  addClassNumber
  let names := (← get).interface
  noteTrackerClass names.tclassName
  noteTracker names.objInitName names.objInitSig fun index indices =>
    { indices with objectInitTracker := index }
  noteTracker names.newarrayName names.newarraySig fun index indices =>
    { indices with newarrayTracker := index }
  noteTracker names.callName names.callSig fun index indices =>
    { indices with callTracker := index }
  noteTracker names.returnName names.returnSig fun index indices =>
    { indices with returnTracker := index }

def emptyCpoolEntry : CrwConstantPoolEntry := ⟨none, 0, 0, 0, 0⟩

def cpoolSetup : Crw Unit := do
  let cpoolOutputPosition := (← get).outputPosition
  let countPlusOne ← copyU2
  crwAssert (1 < countPlusOne)
  let maxElements := (countPlusOne + maximumNewCpoolEntries) % 2 ^ 16
  crwAssert (0 < maxElements)
  modify fun ci => { ci with
    cpoolMaxElements := maxElements
    cpool := List.replicate maxElements emptyCpoolEntry
    cpoolCountPlusOne := countPlusOne }
  copyCpool countPlusOne (countPlusOne + 1) 1
  addTrackers
  randomWriteU2 cpoolOutputPosition (← get).cpoolCountPlusOne

end ConstantPool

section Methods

/-- A name is there and is the text. -/
def nameIs (name : Option (List UInt8)) (text : List UInt8) : Bool := name.map cString == some text

def isInitMethod (name : Option (List UInt8)) : Bool := nameIs name (ascii "<init>")

def isClinitMethod (name : Option (List UInt8)) : Bool := nameIs name (ascii "<clinit>")

def isFinalizeMethod (name : Option (List UInt8)) : Bool := nameIs name (ascii "finalize")

/-- `strcmp` of a string that is not `NULL`. -/
def stringIs (string : Option (List UInt8)) (text : List UInt8) : Option Bool :=
  string.map fun bytes => cString bytes == text

/-- Methods of system classes that are left as they are; the return sites never are. -/
def skipMethod (name : Option (List UInt8)) (codeLen : ℕ) (ci : CrwClassImage) : Option Bool :=
  if ci.systemClass then
    if codeLen == 1 && isInitMethod name then some true
    else if codeLen == 1 && isFinalizeMethod name then some true
    else if isClinitMethod name then some true
    else if ci.isThreadClass then stringIs name (ascii "currentThread")
    else some false
  else some false

/-- The constructor of `java.lang.Object`, which is rewritten where no other call is made. -/
def isObjectInit (name descr : Option (List UInt8)) (ci : CrwClassImage) : Option Bool :=
  if ci.isObjectClass && isInitMethod name then stringIs descr (ascii "()V") else some false

/-- The sizes of the three arrays are held in an `int`. -/
def methodInit (mnum codeLen : ℕ) : Crw MethodImage := do
  crwAssert ((codeLen + 1) * 16 < 2 ^ 31)
  return {
    number := mnum
    map := fun position => position
    injections := fun _ => []
    widening := fun _ => 0
    codeLen := codeLen
    newCodeLen := 0
    startOfInputBytecodes := 0
    maxStack := 0
    newMaxStack := 0
    objectInitMethod := false
    skipCallReturnSites := false }

variable (lengths : OpcodeLengths) (fuel : ℕ)

/-- The lengths of a `Code` attribute and its stack limit, and where they are written. -/
structure CodeHeader where
  attrLen : ℕ
  maxStack : ℕ
  codeLen : ℕ
  attrLenPosition : ℕ
  maxStackPosition : ℕ
  codeLenPosition : ℕ
  startOfOutput : ℕ

def copyCodeHeader : Crw CodeHeader := do
  let attrLenPosition := (← get).outputPosition
  let attrLen ← copyU4
  let maxStackPosition := (← get).outputPosition
  let maxStack ← copyU2
  let _ ← copyU2
  let codeLenPosition := (← get).outputPosition
  let codeLen ← copyU4
  let startOfOutput := (← get).outputPosition
  return ⟨attrLen, maxStack, codeLen, attrLenPosition, maxStackPosition, codeLenPosition,
    startOfOutput⟩

/-- The exception table and the attributes of the code. -/
def writeCodeTables : CrwMethod Unit := do
  methodWriteExceptionTable
  let attrCount ← copyU2
  times attrCount methodWriteCodeAttribute

/-- Rewrite the code and its tables; the lengths and the stack limit are known afterwards. -/
def rewriteCode (header : CodeHeader) : CrwMethod Unit := do
  methodInjectAndWriteCode lengths fuel
  let newCodeLen := (← classImage).outputPosition - header.startOfOutput
  modify fun mi => { mi with newCodeLen := newCodeLen }
  randomWriteU4 header.codeLenPosition newCodeLen
  methodAssert ((← get).newMaxStack ≤ 65535)
  randomWriteU2 header.maxStackPosition (← get).newMaxStack
  writeCodeTables
  let newAttrLen := (← classImage).outputPosition - (header.attrLenPosition + 4)
  randomWriteU4 header.attrLenPosition newAttrLen

/-- `method_name` and `method_descr` of a method. -/
def methodNames (mnum : ℕ) : Crw (Option (List UInt8) × Option (List UInt8)) :=
  asking fun ci => ci.methods[mnum]?

/-- Whether the code of a method is left as it is. -/
def skipsCode (name : Option (List UInt8)) (codeLen : ℕ) (objectInitMethod : Bool)
    (ci : CrwClassImage) : Option Bool :=
  if objectInitMethod then some false else skipMethod name codeLen ci

/-- Rewrite the code of a method that is not skipped. -/
def rewriteMethod (mnum : ℕ) (objectInitMethod : Bool) (header : CodeHeader) : Crw Unit := do
  let mi ← methodInit mnum header.codeLen
  let startOfInput := (← get).inputPosition
  let _ ← (rewriteCode lengths fuel header).run { mi with
    objectInitMethod := objectInitMethod
    skipCallReturnSites := objectInitMethod
    startOfInputBytecodes := startOfInput
    maxStack := header.maxStack
    newMaxStack := header.maxStack }

/-- Process a `Code` attribute. -/
def methodWriteBytecodes (mnum : ℕ) : Crw Unit := do
  let header ← copyCodeHeader
  let names ← methodNames mnum
  let objectInitMethod ← asking (isObjectInit names.1 names.2)
  let skipped ← asking (skipsCode names.1 header.codeLen objectInitMethod)
  if skipped then
    copy (unsigned (header.attrLen - (2 + 2 + 4)))
  else
    rewriteMethod lengths fuel mnum objectInitMethod header

def methodWrite (mnum : ℕ) : Crw Unit := do
  let _ ← copyU2
  let nameIndex ← copyU2
  let name := (← cpoolEntry nameIndex).ptr
  let descrIndex ← copyU2
  let descr := (← cpoolEntry descrIndex).ptr
  modify fun ci => { ci with methods := ci.methods ++ [(name, descr)] }
  let attrCount ← copyU2
  times attrCount do
    let nameIndex ← copyU2
    if ← attributeMatch nameIndex (ascii "Code") then
      methodWriteBytecodes lengths fuel mnum
    else
      let len ← copyU4
      copy len

/-- Write the methods from a number on. -/
def writeMethods : ℕ → ℕ → Crw Unit
  | 0, _ => pure ()
  | count + 1, mnum => do
      methodWrite lengths fuel mnum
      writeMethods count (mnum + 1)

def methodWriteAll : Crw Unit := do
  let count ← copyU2
  modify fun ci => { ci with methods := [] }
  writeMethods lengths fuel count 0

end Methods

section Classes

/-- `JVM_ACC_INTERFACE`. -/
def skipClass (accessFlags : ℕ) : Bool := accessFlags / 2 ^ 9 % 2 == 1

/-- The byte of a dot. -/
def dot : UInt8 := 46

/-- The name that the class file gives must be the one that has been told, if one has. -/
def checkName (entry : CrwConstantPoolEntry) : Crw Unit := do
  let found := (entry.ptr.getD []).take entry.len
  if (← get).name.isNone then
    modify fun ci => { ci with name := some found }
    crwAssert (dot ∉ cString found)
  let name := (← get).name.getD []
  crwAssert ((cString name).length = entry.len ∧ cString name = found)

/-- Only `java.lang.Object` has no super class. -/
def noteObjectClass (superClass : ℕ) : Crw Unit :=
  if superClass = 0 then do
    modify fun ci => { ci with isObjectClass := true }
    let ci ← get
    crwAssert (ci.name.map cString == some (ascii "java/lang/Object"))
  else pure ()

def checkTrackerClass : Crw Unit := do
  let ci ← get
  crwAssert (∀ className ∈ ci.interface.tclassName, dot ∉ className)

/-- What stands in front of the class, and its access flags. -/
def copyClassHead (constants : ClassfileConstants) : Crw ℕ := do
  checkTrackerClass
  let magic ← copyU4
  crwAssert (magic = 0xCAFEBABE)
  let minorVersion ← copyU2
  let majorVersion ← copyU2
  crwAssert (majorVersion ≤ constants.majorVersion ∨
    majorVersion = constants.majorVersion ∧ minorVersion ≤ constants.minorVersion)
  cpoolSetup
  let accessFlags ← copyU2
  modify fun ci => { ci with accessFlags := accessFlags }
  return accessFlags

/-- The class, its super class, the interfaces and the fields. -/
def copyMembers : Crw Unit := do
  let thisClass ← copyU2
  let entry ← cpoolEntry ((← cpoolEntry thisClass).index1 % 2 ^ 16)
  checkName entry
  let superClass ← copyU2
  noteObjectClass superClass
  let interfaceCount ← copyU2
  copy (interfaceCount * 2)
  copyAllFields

/-- The attributes are copied where something has been injected. -/
def finishClass : Crw ℕ := do
  if (← get).injectionCount = 0 then
    return 0
  else
    copyAttributes
    return (← get).outputPosition

/-- The length of the new image, or zero. -/
def injectClass (constants : ClassfileConstants) (fuel : ℕ) : Crw ℕ := do
  let accessFlags ← copyClassHead constants
  if skipClass accessFlags then
    return 0
  else
    copyMembers
    methodWriteAll constants.lengths fuel
    finishClass

def noIndices : CrwTrackerIndices := ⟨0, 0, 0, 0, 0, 0⟩

/-- A method that is to be called must have the signature that the injected code calls. -/
def signatureFits (name sig : Option (List UInt8)) (expected : List UInt8) : Bool :=
  name.isNone || sig == some expected

/-- The checks of the interface that can fail. -/
def interfaceFits (systemClass : ℤ) (names : CrwTrackerInterface) : Bool :=
  (systemClass == 0 || systemClass == 1) && names.tclassName.isSome &&
    (names.tclassSig.any fun sig => sig.head? == some 76 && sig.getLast? == some 59) &&
    signatureFits names.callName names.callSig (ascii "(II)V") &&
    signatureFits names.returnName names.returnSig (ascii "(II)V") &&
    signatureFits names.objInitName names.objInitSig (ascii "(Ljava/lang/Object;)V") &&
    signatureFits names.newarrayName names.newarraySig (ascii "(Ljava/lang/Object;)V")

/-- The class image that `inject_class` starts with. -/
def initialImage (classNumber : ℕ) (name : Option (List UInt8)) (fileImage : List UInt8)
    (systemClass : ℤ) (names : CrwTrackerInterface) : CrwClassImage where
  number := classNumber
  name := name
  input := fileImage
  inputPosition := 0
  output := some []
  outputLen := fileImage.length * 2 + 512
  cpool := []
  cpoolMaxElements := 0
  cpoolCountPlusOne := 0
  systemClass := systemClass != 0
  accessFlags := 0
  interface := names
  indices := noIndices
  injectionCount := 0
  isObjectClass := false
  isThreadClass := name == some (ascii "java/lang/Thread")
  methods := []

/-- The new image, or `NULL`. -/
def javaCrwDemo (constants : ClassfileConstants) (fuel classNumber : ℕ)
    (name : Option (List UInt8)) (fileImage : List UInt8) (systemClass : ℤ)
    (names : CrwTrackerInterface) : Option (Option (List UInt8)) :=
  if fileImage.length = 0 then
    some none
  else if interfaceFits systemClass names ∧ (∀ given ∈ name, dot ∉ given) ∧
      fileImage.length * 2 + 512 < 2 ^ 31 then
    ((injectClass constants fuel).run
        (initialImage classNumber name fileImage systemClass names)).map fun result =>
      if result.1 = 0 then none else result.2.output
  else none

def noTrackers : CrwTrackerInterface :=
  ⟨none, none, none, none, none, none, none, none, none, none⟩

/-- Nothing is written where there is no output. -/
def classnameImage (fileImage : List UInt8) : CrwClassImage :=
  { initialImage 0 none fileImage 0 noTrackers with output := none }

/-- Read over the class file up to the name of the class. -/
def readClassname : Crw (List UInt8) := do
  let magic ← readU4
  crwAssert (magic = 0xCAFEBABE)
  let _ ← readU2
  let _ ← readU2
  cpoolSetup
  let _ ← readU2
  let thisClass ← readU2
  let entry ← cpoolEntry ((← cpoolEntry thisClass).index1 % 2 ^ 16)
  return (entry.ptr.getD []).take entry.len

def javaCrwDemoClassname (fileImage : List UInt8) : Option (Option (List UInt8)) :=
  if fileImage.length = 0 then some none
  else (readClassname.run (classnameImage fileImage)).map fun result => some result.1

end Classes

end HeapScan.ClassFile
