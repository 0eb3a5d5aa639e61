import HeapScan.Library.TwosComplement
import HeapScan.MessageStore.Basic

/-!
# Tagging JVM entities

The agent numbers classes and objects with tags from one counter and announces
each tag in a message.  The JVM keeps the tag of an entity until it is freed; a
class is known by its `Class` object, which is an entity like any other.

`lastTag` is an `int` of 32 bits; where the counter is taken without a bound, its
increment is the exact one.  Where a message is printed, `long` has 32 bits.
-/

namespace HeapScan

open TwosComplement

/-- An object of the JVM's heap, `Class` objects included. -/
abbrev Entity := ℕ

/-- What the JVM knows of an entity: its class, and the signature that a class has. -/
structure Jvm where
  classOf : Entity → Entity
  classSignature : Entity → Text

/-- The fields of a `HEAP_REF_INFO` message, in the order in which they are printed. -/
structure HeapRefInfo where
  referenceKind : ℕ
  index : ℤ
  classTag : ℤ
  referrerClassTag : ℤ
  tag : ℤ
  referrerTag : ℤ
  length : ℤ
  size : ℤ
deriving DecidableEq

/--
The agent's messages.  The entity that a message is about is not printed; it says
which object or class the tags of the message stand for.
-/
inductive AgentMsg where
  | classTag (cls : Entity) (classSign : Text) (tag : ℤ)
  | objectTag (object : Entity) (tag objectClassTag : ℤ)
  | deallocateObject (object : Entity) (tag : ℤ)
  | heapRefInfo (referent : Entity) (referrer : Option Entity) (info : HeapRefInfo)
deriving DecidableEq

section Printing

def messageCodeClassTag : ℤ := 1
def messageCodeObjectTag : ℤ := 2
def messageCodeDeallocateObject : ℤ := 3
def messageCodeHeapRefInfo : ℤ := 4

/-- `MSGDELIMITER`. -/
def msgDelimiter : Text := ['|']

/-- `%d`. -/
def decimal (value : ℤ) : Text := (toString value).toList

/-- A `jlong` read as a 32-bit `long`. -/
def long (value : ℤ) : ℤ := value.bmod (2 ^ 32)

/-- The text that `sprintf` writes for a message. -/
def AgentMsg.text : AgentMsg → Text
  | .classTag _ classSign tag =>
      List.intercalate msgDelimiter [decimal messageCodeClassTag, classSign, decimal (long tag)]
  | .objectTag _ tag objectClassTag =>
      List.intercalate msgDelimiter
        [decimal messageCodeObjectTag, decimal (long tag), decimal (long objectClassTag)]
  | .deallocateObject _ tag =>
      List.intercalate msgDelimiter [decimal messageCodeDeallocateObject, decimal (long tag)]
  | .heapRefInfo _ _ info =>
      List.intercalate msgDelimiter
        [decimal messageCodeHeapRefInfo, decimal info.referenceKind, decimal info.index,
          decimal (long info.classTag), decimal (long info.referrerClassTag),
          decimal (long info.tag), decimal (long info.referrerTag), decimal info.length,
          decimal (long info.size)]

/-- The loop of `getChars`; it takes fewer rounds than `value`. -/
def countDigits : ℕ → ℕ → ℤ
  | 0, _ => 0
  | fuel + 1, value => if value > 9 then countDigits fuel (value / 10) + 1 else 0

def getChars (value : ℤ) : ℤ :=
  (if value < 0 then 2 else 1) + countDigits value.natAbs value.natAbs

/-- The static sizes that `calculateSize` sets. -/
def heapRefDtlSize : ℤ := getChars messageCodeHeapRefInfo + 8 + 1
def objectTagSize : ℤ := getChars messageCodeObjectTag + 2 + 1
def freeTagSize : ℤ := getChars messageCodeDeallocateObject + 1 + 1

/-- The size that is allocated for a message and passed on with it. -/
def AgentMsg.totalSz : AgentMsg → ℤ
  | .classTag _ classSign tag =>
      getChars messageCodeClassTag + (classSign.length + getChars tag + 1 + 2)
  | .objectTag _ tag objectClassTag => objectTagSize + getChars tag + getChars objectClassTag
  | .deallocateObject _ tag => getChars tag + freeTagSize
  | .heapRefInfo _ _ info =>
      heapRefDtlSize + getChars info.referenceKind + getChars info.index +
        getChars info.classTag + getChars info.referrerClassTag + getChars info.tag +
        getChars info.referrerTag + getChars info.length + getChars info.size

end Printing

/-- One call of `includeMessage`. -/
structure Included where
  msg : AgentMsg
  msgSize : ℤ
  immediateFl : Bool

/-- `lastTag++` on a 32-bit `int`. -/
def incrementInt (value : ℤ) : ℤ := wrap 32 (value + 1)

/-- `lastTag++` without a bound. -/
def incrementExact (value : ℤ) : ℤ := value + 1

/--
The tag counter with its increment, the JVM's tags, and the messages so far: all calls of
`includeMessage`, the current message group, and what was passed to `onProduce`,
each time the messages printed into the one node.
-/
structure AgentState where
  lastTag : ℤ
  increment : ℤ → ℤ
  tag : Entity → ℤ
  included : List Included
  curMsgGrp : List AgentMsg
  produced : List (List AgentMsg)

namespace AgentState

def initial : AgentState where
  lastTag := 1
  increment := incrementInt
  tag _ := 0
  included := []
  curMsgGrp := []
  produced := []

/-- The initial state with a counter that has no bound. -/
def unbounded : AgentState := { initial with increment := incrementExact }

def setTag (state : AgentState) (entity : Entity) (tag : ℤ) : AgentState :=
  { state with tag := Function.update state.tag entity tag }

def startMsgGrp (state : AgentState) : AgentState := { state with curMsgGrp := [] }

def flushMsgGrp (state : AgentState) : AgentState :=
  { state with produced := state.produced ++ [state.curMsgGrp] }

def includeMessage (state : AgentState) (msg : AgentMsg) (msgSize : ℤ) (immediateFl : Bool) :
    AgentState :=
  let call : Included := { msg, msgSize, immediateFl }
  let state := { state with included := state.included ++ [call] }
  if immediateFl then { state with produced := state.produced ++ [[msg]] }
  else { state with curMsgGrp := state.curMsgGrp ++ [msg] }

/-- `StoreObjectTag`, for the object that has the tag. -/
def storeObjectTag (state : AgentState) (object : Entity) (objectTag classTag : ℤ)
    (flushFl : Bool) : AgentState :=
  let msg := AgentMsg.objectTag object objectTag classTag
  state.includeMessage msg msg.totalSz flushFl

/-- `StoreClassTag`, with `StoreClassTagMsg` for the signature it looks up. -/
def storeClassTag (jvm : Jvm) (state : AgentState) (cls : Entity) (tag : ℤ) (flushFl : Bool) :
    AgentState :=
  let msg := AgentMsg.classTag cls (jvm.classSignature cls) tag
  state.includeMessage msg msg.totalSz flushFl

/-- `checkAndTagClasses`: the tag announced is the one read before a new one is set. -/
def checkAndTagClasses (jvm : Jvm) : AgentState → List Entity → Bool → AgentState
  | state, [], _ => state
  | state, cls :: classes, flushFl =>
      let tagPtr := state.tag cls
      let state :=
        if tagPtr = 0 then
          { state.setTag cls state.lastTag with lastTag := state.increment state.lastTag }
        else state
      checkAndTagClasses jvm (storeClassTag jvm state cls tagPtr flushFl) classes flushFl

/-- `JVMTI_HEAP_REFERENCE_ARRAY_ELEMENT` and so on. -/
def heapReferenceField : ℕ := 2
def heapReferenceArrayElement : ℕ := 3
def heapReferenceStaticField : ℕ := 8
def heapReferenceConstantPool : ℕ := 9

/-- The switch of the callback; `referenceInfo` is the `index` that the union starts with. -/
def referenceIndex (referenceKind : ℕ) : Option ℤ → ℤ
  | none => -1
  | some index =>
      if referenceKind = heapReferenceArrayElement then index
      else if referenceKind = heapReferenceField ||| heapReferenceStaticField then index
      else if referenceKind = heapReferenceConstantPool then index
      else -1

/-- The branch of the callback that numbers an object and announces it. -/
def tagReferenced (state : AgentState) (object : Entity) (classTag : ℤ) : AgentState :=
  if state.tag object = 0 ∧ classTag ≠ 0 then
    let objectTag := state.lastTag
    let state := { state.setTag object objectTag with lastTag := state.increment state.lastTag }
    state.storeObjectTag object objectTag classTag false
  else state

/--
`followReferenceCallback`.  `*tag_ptr` is the tag of `referent`; `referrer` is `none`
where `referrer_tag_ptr` is NULL, and may be the referent itself.
-/
def followReferenceCallback (state : AgentState) (referenceKind : ℕ) (referenceInfo : Option ℤ)
    (classTag referrerClassTag size : ℤ) (referent : Entity) (referrer : Option Entity)
    (length : ℤ) : AgentState :=
  let index := referenceIndex referenceKind referenceInfo
  let state := state.tagReferenced referent classTag
  let state :=
    match referrer with
    | none => state
    | some object => state.tagReferenced object referrerClassTag
  let referrerTag := referrer.elim 0 state.tag
  let msg := AgentMsg.heapRefInfo referent referrer
    { referenceKind, index, classTag, referrerClassTag, tag := state.tag referent, referrerTag,
      length, size }
  state.includeMessage msg msg.totalSz false

/-- `setAndGetTag`: the tag, whether it was set now, and the state. -/
def setAndGetTag (state : AgentState) (object : Entity) : ℤ × Bool × AgentState :=
  if state.tag object ≠ 0 then (state.tag object, false, state)
  else
    let state := { state with lastTag := state.increment state.lastTag }
    (state.lastTag, true, state.setTag object state.lastTag)

/-- `GetObjectTag`. -/
def getObjectTag (jvm : Jvm) (state : AgentState) (cls object : Entity) (flushFl : Bool) :
    AgentState :=
  let (classTag, tagSetFl, state) := state.setAndGetTag cls
  let state := if tagSetFl then storeClassTag jvm state cls classTag flushFl else state
  let (objectTag, tagSetFl, state) := state.setAndGetTag object
  if tagSetFl then state.storeObjectTag object objectTag classTag flushFl else state

/-- `Java_ObjectAllocationTracker__1trackObject`. -/
def trackObject (jvm : Jvm) (state : AgentState) (allocatedObj : Entity) : AgentState :=
  getObjectTag jvm state (jvm.classOf allocatedObj) allocatedObj true

/-- `onGetClassMetadata`, for the classes that `GetLoadedClasses` lists. -/
def onGetClassMetadata (jvm : Jvm) (state : AgentState) (classes : List Entity) : AgentState :=
  (checkAndTagClasses jvm state.startMsgGrp classes false).flushMsgGrp

end AgentState

/-- A reference that the JVM reports in a heap walk. -/
structure HeapReference where
  referenceKind : ℕ
  referenceInfo : Option ℤ
  referent : Entity
  referrer : Option Entity
  size : ℤ
  length : ℤ

namespace AgentState

/-- The JVM's call of the callback: class tags are the tags of the two objects' classes. -/
def reportReference (jvm : Jvm) (state : AgentState) (reference : HeapReference) : AgentState :=
  state.followReferenceCallback reference.referenceKind reference.referenceInfo
    (state.tag (jvm.classOf reference.referent))
    (reference.referrer.elim 0 fun object => state.tag (jvm.classOf object))
    reference.size reference.referent reference.referrer reference.length

/-- `FollowReferences`, for the references that the JVM reports. -/
def followReferences (jvm : Jvm) (state : AgentState) (references : List HeapReference) :
    AgentState :=
  references.foldl (reportReference jvm) state

def onFollowReference (jvm : Jvm) (state : AgentState) (references : List HeapReference) :
    AgentState :=
  (followReferences jvm state.startMsgGrp references).flushMsgGrp

/-- `onObjectFree`, for the freed object that had the tag. -/
def onObjectFree (state : AgentState) (object : Entity) (tag : ℤ) : AgentState :=
  let msg := AgentMsg.deallocateObject object tag
  state.includeMessage msg msg.totalSz true

end AgentState

end HeapScan
