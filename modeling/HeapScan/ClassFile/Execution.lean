import HeapScan.ClassFile.Assembly
import HeapScan.Library.Simulation

/-!
# Running a method

What a method means is what it does when a virtual machine runs it.  A machine is given by what
its branches test and by what the other instructions do; the positions, the handlers of
exceptions and the stack limit are the same for every machine.  Subroutines (`jsr`) are not
run: no class file with a stack map has them.

What the instrumentation is for is told without positions: an old method is run with a call
of the tracker at its entry, before each return and after each array allocation.
-/

namespace HeapScan.ClassFile

open BigEndian StateTransition

universe u v w

namespace Opcode

/-- The branches that test an `int` against zero. -/
def intTests : List ℕ := [ifeq, ifne, iflt, ifge, ifgt, ifle]

def intComparisons : List ℕ :=
  [if_icmpeq, if_icmpne, if_icmplt, if_icmpge, if_icmpgt, if_icmple]

def nullTests : List ℕ := [ifnull, ifnonnull]

def referenceComparisons : List ℕ := [if_acmpeq, if_acmpne]

end Opcode

/-- What a method works on; the top of the stack comes first. -/
structure Frame (Value : Type u) (World : Type v) where
  stack : List Value
  locals : ℕ → Value
  world : World

/-- What an instruction does; a jump is relative to the instruction. -/
inductive Effect (Value : Type u) (World : Type v) (Result : Type w) where
  | next (frame : Frame Value World)
  | jump (delta : ℤ) (frame : Frame Value World)
  | returned (result : Result) (world : World)
  | thrown (exception : Value) (locals : ℕ → Value) (world : World)

/-- What an instruction does in a frame: nothing where the verifier would not let it. -/
abbrev Acts (Value : Type u) (World : Type v) (Result : Type w) :=
  Instruction → Frame Value World → Option (Effect Value World Result)

/-- A virtual machine; only the branches that the rewriter knows jump. -/
structure Machine (Value : Type u) (World : Type v) (Result : Type w) where
  ofInt : ℤ → Value
  toInt : Value → Option ℤ
  isNull : Value → Bool
  same : Value → Value → Bool
  catches : ℕ → Value → World → Bool
  perform : Instruction → Frame Value World → Option (Effect Value World Result)
  falls : ∀ instruction frame delta next,
    perform instruction frame ≠ some (.jump delta next)

section Acting

variable {Value : Type u} {World : Type v} {Result : Type w}

def Frame.withStack (frame : Frame Value World) (stack : List Value) : Frame Value World :=
  { frame with stack := stack }

def Frame.withWorld (frame : Frame Value World) (world : World) : Frame Value World :=
  { frame with world := world }

def Frame.push (frame : Frame Value World) (value : Value) : Frame Value World :=
  frame.withStack (value :: frame.stack)

/-- The order that a conditional branch tests. -/
def compare (opcode : ℕ) (left right : ℤ) : Bool :=
  if opcode ∈ [Opcode.ifeq, Opcode.if_icmpeq] then left = right
  else if opcode ∈ [Opcode.ifne, Opcode.if_icmpne] then left ≠ right
  else if opcode ∈ [Opcode.iflt, Opcode.if_icmplt] then left < right
  else if opcode ∈ [Opcode.ifge, Opcode.if_icmpge] then right ≤ left
  else if opcode ∈ [Opcode.ifgt, Opcode.if_icmpgt] then right < left
  else left ≤ right

/-- The offset that a switch takes for a key. -/
def selected (key : ℤ) : Instruction → ℤ
  | .tableswitch delta low high deltas =>
      if low ≤ key ∧ key ≤ high then (deltas[(key - low).toNat]?).getD delta else delta
  | .lookupswitch delta pairs => ((pairs.find? fun pair => pair.1 == key).map (·.2)).getD delta
  | _ => 0

namespace Machine

variable (machine : Machine Value World Result)

/-- Whether a conditional branch is taken, and the stack behind it. -/
def condition (opcode : ℕ) (stack : List Value) : Option (Bool × List Value) :=
  if opcode ∈ Opcode.intTests then
    match stack with
    | value :: rest => (machine.toInt value).map fun left => (compare opcode left 0, rest)
    | [] => none
  else if opcode ∈ Opcode.nullTests then
    match stack with
    | value :: rest => some (machine.isNull value == (opcode == Opcode.ifnull), rest)
    | [] => none
  else if opcode ∈ Opcode.referenceComparisons then
    match stack with
    | right :: left :: rest => some (machine.same left right == (opcode == Opcode.if_acmpeq), rest)
    | _ => none
  else if opcode ∈ Opcode.intComparisons then
    match stack with
    | right :: left :: rest => (machine.toInt right).bind fun rightInt =>
        (machine.toInt left).map fun leftInt => (compare opcode leftInt rightInt, rest)
    | _ => none
  else none

/-- A switch takes its key from the stack. -/
def switch (instruction : Instruction) (frame : Frame Value World) :
    Option (Effect Value World Result) :=
  match frame.stack with
  | value :: rest => (machine.toInt value).map fun key =>
      .jump (selected key instruction) (frame.withStack rest)
  | [] => none

def act : Acts Value World Result
  | .jump opcode delta, frame =>
      if opcode = Opcode.goto then some (.jump delta frame)
      else (machine.condition opcode frame.stack).map fun result =>
        if result.1 then .jump delta (frame.withStack result.2)
        else .next (frame.withStack result.2)
  | .jumpWide opcode delta, frame =>
      if opcode = Opcode.goto_w then some (.jump delta frame) else none
  | .tableswitch delta low high deltas, frame =>
      machine.switch (.tableswitch delta low high deltas) frame
  | .lookupswitch delta pairs, frame => machine.switch (.lookupswitch delta pairs) frame
  | instruction, frame => machine.perform instruction frame

end Machine

/-- The effect, where the stack does not go beyond its limit. -/
def Effect.within (limit : ℕ) : Effect Value World Result → Option (Effect Value World Result)
  | .next frame => if frame.stack.length ≤ limit then some (.next frame) else none
  | .jump delta frame => if frame.stack.length ≤ limit then some (.jump delta frame) else none
  | effect => some effect

/-- Actions that are allowed a stack of a size. -/
def Acts.within (acts : Acts Value World Result) (limit : ℕ) : Acts Value World Result :=
  fun instruction frame => (acts instruction frame).bind (Effect.within limit)

end Acting

/-- An entry of the exception table. -/
structure Handler where
  startPc : ℕ
  endPc : ℕ
  handlerPc : ℕ
  catchType : ℕ
deriving DecidableEq

/-- The entry with its positions moved. -/
def Handler.mapPc (move : ℕ → ℕ) (handler : Handler) : Handler :=
  ⟨move handler.startPc, move handler.endPc, move handler.handlerPc, handler.catchType⟩

/-- A method under way, or what became of it. -/
inductive State (Value : Type u) (World : Type v) (Result : Type w) where
  | running (pc : ℕ) (frame : Frame Value World)
  | returned (result : Result) (world : World)
  | uncaught (exception : Value) (world : World)

section Stepping

variable {Value : Type u} {World : Type v} {Result : Type w}

/-- The method has returned or thrown. -/
def State.IsFinal : State Value World Result → Prop
  | .running _ _ => False
  | _ => True

/-- An exception goes to the first handler that covers the position and catches it. -/
def raise (catches : ℕ → Value → World → Bool) (handlers : List Handler) (pc : ℕ)
    (exception : Value) (locals : ℕ → Value) (world : World) : State Value World Result :=
  match handlers.find? fun handler => decide (handler.startPc ≤ pc ∧ pc < handler.endPc) &&
      catches handler.catchType exception world with
  | some handler => .running handler.handlerPc ⟨[exception], locals, world⟩
  | none => .uncaught exception world

/-- Where a method is behind an instruction. -/
def Effect.resolve (catches : ℕ → Value → World → Bool) (handlers : List Handler) (pc size : ℕ) :
    Effect Value World Result → Option (State Value World Result)
  | .next frame => some (.running (pc + size) frame)
  | .jump delta frame =>
      if 0 ≤ pc + delta then some (.running (pc + delta).toNat frame) else none
  | .returned result world => some (.returned result world)
  | .thrown exception locals world => some (raise catches handlers pc exception locals world)

/-- Code with its exception table. -/
structure Body where
  code : List UInt8
  handlers : List Handler

/-- One instruction is fetched from the bytes of the code and carried out. -/
def Body.step (lengths : OpcodeLengths) (body : Body) (catches : ℕ → Value → World → Bool)
    (acts : Acts Value World Result) : State Value World Result → Option (State Value World Result)
  | .running pc frame => (decodeAt lengths body.code pc).bind fun instruction =>
      (acts instruction frame).bind fun effect =>
        effect.resolve catches body.handlers pc (instruction.size pc)
  | _ => none

/-- What a call of the tracker comes to. -/
inductive Called (Value : Type u) (World : Type v) where
  | back (world : World)
  | threw (exception : Value) (world : World)

/-- The calls that are woven into a method. -/
structure Hooks (Value : Type u) (World : Type v) where
  atEntry : (ℕ → Value) → World → Called Value World
  atReturn : World → Called Value World
  atArray : Value → World → Called Value World

namespace Hooks

variable (hooks : Hooks Value World)

/-- The call before an instruction. -/
def before (instruction : Instruction) (world : World) : Called Value World :=
  if instruction.opcode ∈ Opcode.returns then hooks.atReturn world else .back world

/-- The call after an instruction, with the new array. -/
def after (instruction : Instruction) :
    Effect Value World Result → Option (Effect Value World Result)
  | .next frame =>
      if instruction.opcode ∈ Opcode.arrayAllocations then
        match frame.stack with
        | array :: _ =>
            match hooks.atArray array frame.world with
            | .back world => some (.next (frame.withWorld world))
            | .threw exception world => some (.thrown exception frame.locals world)
        | [] => none
      else some (.next frame)
  | effect => some effect

/-- An instruction with the calls before and after it. -/
def weave (acts : Acts Value World Result) : Acts Value World Result :=
  fun instruction frame =>
    match hooks.before instruction frame.world with
    | .back world => (acts instruction (frame.withWorld world)).bind (hooks.after instruction)
    | .threw exception world => some (.thrown exception frame.locals world)

/-- The method begins with the call at its entry, which no handler covers. -/
def enter (frame : Frame Value World) : State Value World Result :=
  match hooks.atEntry frame.locals frame.world with
  | .back world => .running 0 (frame.withWorld world)
  | .threw exception world => .uncaught exception world

end Hooks

end Stepping

end HeapScan.ClassFile
