import Mathlib.Algebra.Ring.Int.Defs
import Mathlib.Algebra.Ring.Nat
import HeapScan.Library.CString
import HeapScan.Library.Heap
import HeapScan.Library.TwosComplement

/-!
# The message store

Messages wait in four holders, one for each entry of each space.  A holder is a
chain of message groups, a group is a linked list of message nodes behind a
dummy first node, and every operation works on these cells through pointers.
An operation yields `none` where the C code would read, write or free a cell
that has already been freed, and where a text does not fit into the buffer
allocated for it, so that `sprintf_s` fails.

The counters are `int`s; the store says how these are read, as variables of 32
bits or as exact integers.  `malloc` is taken to fail for a negative size only,
which is then the size that `sprintf_s` gets.
-/

namespace HeapScan

open CString TwosComplement

/-- The characters of a C string, without its terminating NUL. -/
abbrev Text := List Char

/-- The values that an `int` can have, and a `long` of 32 bits. -/
def IntRange (value : ℤ) : Prop := -2 ^ 31 ≤ value ∧ value < 2 ^ 31

instance (value : ℤ) : Decidable (IntRange value) := inferInstanceAs (Decidable (_ ∧ _))

/--
A message buffer, the `char*` that a node carries.  The store looks inside one
only to print it into a chunk; `ofText` is the buffer allocated for a text.
-/
class Message (α : Type) where
  text : α → Text
  ofText : Text → α

instance : Message Text where
  text message := message
  ofText message := message

/-- `MSG_LOCATION_ID`, used as an `int`: the sum of a space's and an entry's value. -/
abbrev MsgLocationId := ℕ

def leftSpace : MsgLocationId := 0
def rightSpace : MsgLocationId := 1
def leftEntry : MsgLocationId := 2
def rightEntry : MsgLocationId := 4

/-- `MESSAGE_SEPERATOR`, as `onGetMsgSeperator` returns it. -/
def msgSeperator : Text := ['\n']

/-- `sizeof("\0")`: the literal has an explicit NUL and the implicit one. -/
def emptyMsgSize : ℤ := 2

structure MsgNode (α : Type) where
  msgSize : ℤ
  msg : α
  nextNode : Option ℕ

structure MsgGroup where
  totalMsgSize : ℤ
  totalMsgs : ℤ
  firstNode : ℕ
  lastNode : ℕ
  nextGrp : Option ℕ

structure MsgGroupHolder where
  startGrp : ℕ
  curMsgGrp : ℕ
  nextGrp : Option ℕ

/-- The names of the four static holders. -/
inductive HolderName where
  | leftSpaceLeftEntry
  | leftSpaceRightEntry
  | rightSpaceLeftEntry
  | rightSpaceRightEntry
deriving DecidableEq

/-- The heap and the static variables of the store. -/
structure Store (α : Type) where
  nodes : Heap (MsgNode α)
  groups : Heap MsgGroup
  holder : HolderName → MsgGroupHolder
  curMsgGrp : MsgGroup
  isToBeSplit : Bool
  splitSz : ℤ
  /-- How the `int`s of the store are read. -/
  int : IntReading

/-- What `onRetrieveMessage` hands back: its result and its three out parameters. -/
structure Retrieved (α : Type) where
  pendingFl : Bool
  totalMsg : ℤ
  totalMsgSize : ℤ
  msg : Text
  /-- The messages printed into `msg`, in order. -/
  printed : List α

namespace Store

variable {α : Type}

def setHolder (store : Store α) (name : HolderName) (holder : MsgGroupHolder) : Store α :=
  { store with holder := Function.update store.holder name holder }

def modifyNode (store : Store α) (node : ℕ) (change : MsgNode α → MsgNode α) :
    Option (Store α) := do
  let nodes ← store.nodes.modify node change
  some { store with nodes }

def modifyGroup (store : Store α) (group : ℕ) (change : MsgGroup → MsgGroup) :
    Option (Store α) := do
  let groups ← store.groups.modify group change
  some { store with groups }

def freeMsgNode (store : Store α) (node : ℕ) : Option (Store α) := do
  let nodes ← store.nodes.free node
  some { store with nodes }

def freeGroup (store : Store α) (group : ℕ) : Option (Store α) := do
  let groups ← store.groups.free group
  some { store with groups }

/-- `createMsgNode`: the new node's address and the store that holds it. -/
def createMsgNode (store : Store α) (msg : α) (msgSize : ℤ) : ℕ × Store α :=
  (store.nodes.fresh,
    { store with nodes := store.nodes.alloc { msgSize, msg, nextNode := none } })

end Store

section Operations

variable {α : Type} [Message α]

/-- `initializeMsgGrp`: the fields it writes, with the dummy first node they point to. -/
def initializeMsgGrp (store : Store α) : MsgGroup × Store α :=
  let created := store.createMsgNode (Message.ofText []) emptyMsgSize
  ({ totalMsgSize := emptyMsgSize, totalMsgs := 0, firstNode := created.1,
     lastNode := created.1, nextGrp := none }, created.2)

/-- `allocateMemory(sizeof(struct MsgGroup))` followed by `initializeMsgGrp`. -/
def allocateMsgGrp (store : Store α) : ℕ × Store α :=
  let initialized := initializeMsgGrp store
  (initialized.2.groups.fresh,
    { initialized.2 with groups := initialized.2.groups.alloc initialized.1 })

def onStartMsgGrp (store : Store α) : Store α :=
  let initialized := initializeMsgGrp store
  { initialized.2 with curMsgGrp := initialized.1 }

def onInitializeMsgGroupHolder (store : Store α) (name : HolderName) : Store α :=
  let allocated := allocateMsgGrp store
  allocated.2.setHolder name
    { startGrp := allocated.1, curMsgGrp := allocated.1, nextGrp := none }

end Operations

def getMsgGroupHolder (id : MsgLocationId) : HolderName :=
  if id &&& 1 ≠ 0 then
    if id &&& 2 ≠ 0 then .rightSpaceLeftEntry else .rightSpaceRightEntry
  else
    if id &&& 2 ≠ 0 then .leftSpaceLeftEntry else .leftSpaceRightEntry

section Operations

variable {α : Type} [Message α]

def mergeEntries (store : Store α) (left right : HolderName) : Store α :=
  let merged := store.setHolder left
    { store.holder left with
      nextGrp := some (store.holder right).startGrp
      curMsgGrp := (store.holder right).curMsgGrp }
  onInitializeMsgGroupHolder merged right

def getMsgGroupHolderInSpace (store : Store α) (id : MsgLocationId) : HolderName × Store α :=
  if id &&& 1 ≠ 0 then
    (.rightSpaceLeftEntry, mergeEntries store .rightSpaceLeftEntry .rightSpaceRightEntry)
  else
    (.leftSpaceLeftEntry, mergeEntries store .leftSpaceLeftEntry .leftSpaceRightEntry)

/-- The `msgSize` of `mergeMsgAsString`, the size of the buffer that it allocates. -/
def MsgGroup.msgSize (int : IntReading) (msgGrp : MsgGroup) : ℤ :=
  let seperatorSize : ℤ := msgSeperator.length + 1
  int.hold (msgGrp.totalMsgSize + int.hold (msgGrp.totalMsgs * seperatorSize))

/--
The loop of `mergeMsgAsString`, with its buffer of `msgSize` characters: each
node's message is printed and the node is freed before the next one is visited.
The fuel is the number of nodes ever allocated; as every round frees a node, a
longer chain does not exist.
-/
def printMsgs : ℕ → ℤ → Option ℕ → Text → ℕ → Store α → Option (List α × Text × Store α)
  | _, _, none, totalMsg, _, store => some ([], totalMsg, store)
  | 0, _, some _, _, _, _ => none
  | fuel + 1, msgSize, some msgNode, totalMsg, position, store => do
      let node ← store.nodes.cell msgNode
      let (totalMsg, printed) ← sprintfS totalMsg position (msgSize - position)
        (msgSeperator ++ contents (Message.text node.msg))
      let store ← store.freeMsgNode msgNode
      let (msgs, totalMsg, store) ←
        printMsgs fuel msgSize node.nextNode totalMsg (position + printed) store
      some (node.msg :: msgs, totalMsg, store)

/--
`mergeMsgAsString`: the printed messages, what is written to the buffer, the
size reported and the store.  There is no result where a text does not fit.
With nothing to print the buffer is never written and `strlen` would read it as
`malloc` left it; that has no result here either.
-/
def mergeMsgAsString (store : Store α) (msgGrp : MsgGroup) :
    Option (List α × Text × ℤ × Store α) := do
  let first ← store.nodes.cell msgGrp.firstNode
  let msgNode ← first.nextNode
  let msgSize := msgGrp.msgSize store.int
  let node ← store.nodes.cell msgNode
  let (totalMsg, position) ← sprintfS [] 0 msgSize (contents (Message.text node.msg))
  let store ← store.freeMsgNode msgNode
  let (msgs, totalMsg, store) ←
    printMsgs store.nodes.fresh msgSize node.nextNode totalMsg position store
  some (node.msg :: msgs, totalMsg, strlen totalMsg + 1, store)

/-- The text of the messages, the separator between them. -/
def joinMsgs (msgs : List α) : Text :=
  List.intercalate msgSeperator (msgs.map fun msg => contents (Message.text msg))

/-- `onFlushMsgGrp` up to the call of `onFlushMsg` with the merged text. -/
def onFlushMsgGrp (store : Store α) : Option (Text × ℤ × Store α) := do
  let (_, totalMsg, msgSize, store) ← mergeMsgAsString store store.curMsgGrp
  some (contents totalMsg, msgSize, store)

/-- `onIncludeMessage` with `immediateFl` FALSE. -/
def onIncludeMessage (store : Store α) (msg : α) (msgSize : ℤ) : Option (Store α) := do
  let (msgNode, store) := store.createMsgNode msg msgSize
  let store ← store.modifyNode store.curMsgGrp.lastNode
    fun node => { node with nextNode := some msgNode }
  some
    { store with
      curMsgGrp :=
        { store.curMsgGrp with
          lastNode := msgNode
          totalMsgSize := store.int.hold (msgSize + store.curMsgGrp.totalMsgSize)
          totalMsgs := store.int.hold (store.curMsgGrp.totalMsgs + 1) } }

/-- The branch of `onQueueMessage` that opens a group when the current one is full. -/
def openGroupIfFull (store : Store α) (name : HolderName) : Option (ℕ × Store α) := do
  let curMsgGrp := (store.holder name).curMsgGrp
  if store.isToBeSplit then
    let group ← store.groups.cell curMsgGrp
    if store.splitSz ≤ group.totalMsgs then
      let (newGrp, store) := allocateMsgGrp store
      let store ← store.modifyGroup curMsgGrp fun group => { group with nextGrp := some newGrp }
      some (newGrp,
        store.setHolder name { store.holder name with curMsgGrp := newGrp })
    else some (curMsgGrp, store)
  else some (curMsgGrp, store)

/-- The end of `onQueueMessage`: link the node behind the group's last one. -/
def appendMsgNode (store : Store α) (curMsgGrp msgNode : ℕ) : Option (Store α) := do
  let group ← store.groups.cell curMsgGrp
  let node ← store.nodes.cell msgNode
  let store ← store.modifyNode group.lastNode fun last => { last with nextNode := some msgNode }
  store.modifyGroup curMsgGrp fun group =>
    { group with
      lastNode := msgNode
      totalMsgSize := store.int.hold (group.totalMsgSize + node.msgSize)
      totalMsgs := store.int.hold (group.totalMsgs + 1) }

/-- `onQueueMessage`, the `STORE_MSG` of the synchronizer. -/
def onQueueMessage (store : Store α) (id : MsgLocationId) (msgNode : ℕ) :
    Option (Store α) := do
  let (curMsgGrp, store) ← openGroupIfFull store (getMsgGroupHolder id)
  appendMsgNode store curMsgGrp msgNode

/-- `mergeGrp`; `group1`'s last node pointer stays as it was. -/
def mergeGrp (store : Store α) (group1 group2 : ℕ) : Option (Store α) := do
  let second ← store.groups.cell group2
  let store ← store.modifyGroup group1 fun first =>
    { first with
      totalMsgs := store.int.hold (first.totalMsgs + second.totalMsgs)
      totalMsgSize := store.int.hold (first.totalMsgSize + second.totalMsgSize) }
  let first ← store.groups.cell group1
  let dummy ← store.nodes.cell second.firstNode
  let store ← store.modifyNode first.lastNode fun last => { last with nextNode := dummy.nextNode }
  store.freeGroup group2

/--
The loop of `onGetMsgSplit`.  The fuel is the number of groups ever allocated:
every round but the last frees a group.
-/
def splitLoop : ℕ → HolderName → ℕ → Option ℕ → ℤ → Store α → Option (Bool × Store α)
  | _, _, _, none, _, store => some (false, store)
  | 0, _, _, some _, _, _ => none
  | fuel + 1, name, curGrp, some nextGrp, totMsgs, store => do
      let next ← store.groups.cell nextGrp
      let totMsgs := store.int.hold (totMsgs + next.totalMsgs)
      if totMsgs ≤ store.splitSz then
        let store ← mergeGrp store curGrp nextGrp
        let current ← store.groups.cell curGrp
        splitLoop fuel name curGrp current.nextGrp totMsgs store
      else
        some (true, store.setHolder name
          { store.holder name with startGrp := nextGrp, nextGrp := next.nextGrp })

/-- `onGetMsgSplit`: whether messages are pending, and the group to hand out. -/
def onGetMsgSplit (store : Store α) (name : HolderName) : Option (Bool × ℕ × Store α) := do
  let curGrp := (store.holder name).startGrp
  let current ← store.groups.cell curGrp
  let (pendingFl, store) ← splitLoop (store.groups.fresh + 1) name curGrp
    (store.holder name).nextGrp current.totalMsgs store
  some (pendingFl, curGrp, store)

def onRetrieveMessage (store : Store α) (id : MsgLocationId) :
    Option (Retrieved α × Store α) := do
  let (msgHolder, store) := getMsgGroupHolderInSpace store id
  let (pendingFl, msgGroup, store) ← onGetMsgSplit store msgHolder
  let store := if pendingFl then store else onInitializeMsgGroupHolder store msgHolder
  let group ← store.groups.cell msgGroup
  if group.totalMsgs < 1 then
    -- The out parameters for the text are left as they were.
    some ({ pendingFl, totalMsg := group.totalMsgs, totalMsgSize := 0, msg := [], printed := [] },
      store)
  else
    let (printed, msg, totalMsgSize, store) ← mergeMsgAsString store group
    let store ← store.freeGroup msgGroup
    some
      ({ pendingFl, totalMsg := group.totalMsgs, totalMsgSize, msg := contents msg, printed },
        store)

/-- `onInitialize` of the store, for the option `socketMsgLimit` and a reading of the `int`s. -/
def onInitializeReading (int : IntReading) (socketMsgLimit : ℤ) : Store α :=
  let unset : MsgGroupHolder := { startGrp := 0, curMsgGrp := 0, nextGrp := none }
  let store : Store α :=
    { nodes := .empty
      groups := .empty
      holder := fun _ => unset
      curMsgGrp := { totalMsgSize := 0, totalMsgs := 0, firstNode := 0, lastNode := 0,
                     nextGrp := none }
      isToBeSplit := false
      splitSz := 0
      int }
  let store := onInitializeMsgGroupHolder store .leftSpaceLeftEntry
  let store := onInitializeMsgGroupHolder store .leftSpaceRightEntry
  let store := onInitializeMsgGroupHolder store .rightSpaceLeftEntry
  let store := onInitializeMsgGroupHolder store .rightSpaceRightEntry
  -- The option is an `int` too.
  let socketMsgLimit := int.hold socketMsgLimit
  if socketMsgLimit > 0 then
    { store with isToBeSplit := true, splitSz := socketMsgLimit }
  else store

/-- `onInitialize` with `int`s of 32 bits. -/
abbrev onInitialize (socketMsgLimit : ℤ) : Store α := onInitializeReading .bits32 socketMsgLimit

/-- A message flushed by a producer: its node is created and queued at `id`. -/
def queueMsg (store : Store α) (id : MsgLocationId) (msg : α) (msgSize : ℤ) :
    Option (Store α) :=
  let created := store.createMsgNode msg msgSize
  onQueueMessage created.2 id created.1

end Operations

end HeapScan
