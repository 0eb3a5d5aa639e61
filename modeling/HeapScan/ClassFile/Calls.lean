import HeapScan.ClassFile.Execution

/-!
# Running what is injected

The injected instructions push the arguments of a tracker method and call it.  With the stack
that the rewriter asks for they run through, whatever the method does, and the method they stand
in goes on as before or gets the exception that the tracker has thrown.
-/

namespace HeapScan.ClassFile

open BigEndian StateTransition Relation

universe u v w

section Acting

variable {Value : Type u} {World : Type v} {Result : Type w}

/-- A branch and its inverse test the same operands. -/
theorem inverse_groups {opcode : ℕ} (branch : opcode ∈ Opcode.shortBranches)
    (conditional : opcode ∉ Opcode.unconditional) :
    (inverse opcode ∈ Opcode.intTests ↔ opcode ∈ Opcode.intTests) ∧
      (inverse opcode ∈ Opcode.nullTests ↔ opcode ∈ Opcode.nullTests) ∧
      (inverse opcode ∈ Opcode.referenceComparisons ↔ opcode ∈ Opcode.referenceComparisons) ∧
      (inverse opcode ∈ Opcode.intComparisons ↔ opcode ∈ Opcode.intComparisons) := by
  have all : Opcode.shortBranches.all (fun opcode => opcode ∉ Opcode.unconditional →
      (inverse opcode ∈ Opcode.intTests ↔ opcode ∈ Opcode.intTests) ∧
        (inverse opcode ∈ Opcode.nullTests ↔ opcode ∈ Opcode.nullTests) ∧
        (inverse opcode ∈ Opcode.referenceComparisons ↔ opcode ∈ Opcode.referenceComparisons) ∧
        (inverse opcode ∈ Opcode.intComparisons ↔ opcode ∈ Opcode.intComparisons)) = true := by
    decide
  exact of_decide_eq_true (List.all_eq_true.mp all opcode branch) conditional

theorem compare_inverse {opcode : ℕ}
    (listed : opcode ∈ Opcode.intTests ++ Opcode.intComparisons) (left right : ℤ) :
    compare (inverse opcode) left right = !compare opcode left right := by
  have tests : inverse Opcode.ifeq = Opcode.ifne ∧ inverse Opcode.ifne = Opcode.ifeq ∧
      inverse Opcode.iflt = Opcode.ifge ∧ inverse Opcode.ifge = Opcode.iflt ∧
      inverse Opcode.ifgt = Opcode.ifle ∧ inverse Opcode.ifle = Opcode.ifgt := by decide
  have comparisons : inverse Opcode.if_icmpeq = Opcode.if_icmpne ∧
      inverse Opcode.if_icmpne = Opcode.if_icmpeq ∧ inverse Opcode.if_icmplt = Opcode.if_icmpge ∧
      inverse Opcode.if_icmpge = Opcode.if_icmplt ∧ inverse Opcode.if_icmpgt = Opcode.if_icmple ∧
      inverse Opcode.if_icmple = Opcode.if_icmpgt := by decide
  have notLess : decide (right ≤ left) = !decide (left < right) := by
    rw [← decide_not, decide_eq_decide, Int.not_lt]
  have notGreater : decide (left ≤ right) = !decide (right < left) := by
    rw [← decide_not, decide_eq_decide, Int.not_lt]
  simp only [Opcode.intTests, Opcode.intComparisons, List.cons_append, List.nil_append,
    List.mem_cons, List.not_mem_nil, or_false] at listed
  rcases listed with rfl | rfl | rfl | rfl | rfl | rfl | rfl | rfl | rfl | rfl | rfl | rfl <;>
    simp only [tests, comparisons] <;> simp [compare, notLess, notGreater]

theorem beq_inverse {opcode tested : ℕ}
    (listed : opcode ∈ Opcode.nullTests ∧ tested = Opcode.ifnull ∨
      opcode ∈ Opcode.referenceComparisons ∧ tested = Opcode.if_acmpeq) :
    (inverse opcode == tested) = !(opcode == tested) := by
  simp only [Opcode.nullTests, Opcode.referenceComparisons, List.mem_cons, List.not_mem_nil,
    or_false] at listed
  rcases listed with ⟨rfl | rfl, rfl⟩ | ⟨rfl | rfl, rfl⟩ <;> decide

/-- The inverse branch is taken where the branch is not. -/
theorem Machine.condition_inverse (machine : Machine Value World Result) {opcode : ℕ}
    (branch : opcode ∈ Opcode.shortBranches) (conditional : opcode ∉ Opcode.unconditional)
    (stack : List Value) :
    machine.condition (inverse opcode) stack =
      (machine.condition opcode stack).map fun result => (!result.1, result.2) := by
  rcases inverse_groups branch conditional with ⟨tests, nulls, references, comparisons⟩
  have flips (left right : ℤ) (listed : opcode ∈ Opcode.intTests ++ Opcode.intComparisons) :=
    compare_inverse listed left right
  simp only [condition, tests, nulls, references, comparisons]
  split
  · rename_i isTest
    rcases stack with _ | ⟨value, rest⟩
    · rfl
    · simp [Function.comp_def, flips _ _ (List.mem_append_left _ isTest)]
  split
  · rename_i isNull
    rcases stack with _ | ⟨value, rest⟩
    · rfl
    · dsimp only
      rw [Option.map_some, beq_inverse (Or.inl ⟨isNull, rfl⟩)]
      cases machine.isNull value <;> cases opcode == Opcode.ifnull <;> rfl
  split
  · rename_i isReference
    rcases stack with _ | ⟨right, _ | ⟨left, rest⟩⟩
    · rfl
    · rfl
    · dsimp only
      rw [Option.map_some, beq_inverse (Or.inr ⟨isReference, rfl⟩)]
      cases machine.same left right <;> cases opcode == Opcode.if_acmpeq <;> rfl
  split
  · rename_i isComparison
    rcases stack with _ | ⟨right, _ | ⟨left, rest⟩⟩
    · rfl
    · rfl
    · cases machine.toInt right <;>
        simp [Function.comp_def, flips _ _ (List.mem_append_right _ isComparison)]
  · rfl

theorem Effect.within_mono {limit larger : ℕ} (fits : limit ≤ larger)
    {effect result : Effect Value World Result} (allowed : effect.within limit = some result) :
    effect.within larger = some result := by
  cases effect with
  | next frame =>
      simp only [within, Option.ite_none_right_eq_some] at allowed ⊢
      exact ⟨allowed.1.trans fits, allowed.2⟩
  | jump delta frame =>
      simp only [within, Option.ite_none_right_eq_some] at allowed ⊢
      exact ⟨allowed.1.trans fits, allowed.2⟩
  | returned result world => exact allowed
  | thrown exception locals world => exact allowed

theorem Acts.within_mono {acts : Acts Value World Result} {limit larger : ℕ}
    (fits : limit ≤ larger) {instruction : Instruction} {frame : Frame Value World}
    {effect : Effect Value World Result}
    (acted : acts.within limit instruction frame = some effect) :
    acts.within larger instruction frame = some effect := by
  rcases Option.bind_eq_some_iff.mp acted with ⟨result, did, allowed⟩
  exact Option.bind_eq_some_iff.mpr ⟨result, did, Effect.within_mono fits allowed⟩

end Acting

section Running

variable {Value : Type u} {World : Type v} {Result : Type w} {lengths : OpcodeLengths}
  {body : Body} {catches : ℕ → Value → World → Bool} {acts : Acts Value World Result}
  {listing : Listing} {stop position : ℕ}

/-- A listed instruction is carried out at its position. -/
theorem step_of_listed (lists : Lists lengths body.code 0 listing stop) {instruction : Instruction}
    (listed : (position, instruction) ∈ listing) (frame : Frame Value World) :
    body.step lengths catches acts (.running position frame) =
      (acts instruction frame).bind fun effect =>
        effect.resolve catches body.handlers position (instruction.size position) := by
  have decoded := decodeAt_of_standsAt (lists.valid _ listed) (lists.stands _ listed)
  simp only [Body.step, decoded, Option.bind_some]

/-- Instructions that do not jump, one after another. -/
def Acts.all (acts : Acts Value World Result) :
    List Instruction → Frame Value World → Option (Effect Value World Result)
  | [], frame => some (.next frame)
  | instruction :: rest, frame =>
      match acts instruction frame with
      | some (.next after) => acts.all rest after
      | some (.thrown exception locals world) => some (.thrown exception locals world)
      | _ => none

/-- Instructions that are listed one behind another are carried out up to the first exception. -/
theorem reaches_all (lists : Lists lengths body.code 0 listing stop) {part : List Instruction}
    (inside : ∀ entry ∈ listAll position part, entry ∈ listing) {frame : Frame Value World} :
    (∀ {after}, acts.all part frame = some (.next after) →
      Reaches (body.step lengths catches acts) (.running position frame)
        (.running (position + (encodeAll position part).length) after)) ∧
    (∀ {exception locals world}, acts.all part frame = some (.thrown exception locals world) →
      ∃ place, position ≤ place ∧ place < position + (encodeAll position part).length ∧
        Reaches₁ (body.step lengths catches acts) (.running position frame)
          (raise catches body.handlers place exception locals world)) := by
  induction part generalizing position frame with
  | nil =>
      refine ⟨fun {after} ran => ?_, fun ran => ?_⟩
      · simp only [Acts.all, Option.some.injEq, Effect.next.injEq] at ran
        subst ran
        exact ReflTransGen.refl
      · simp [Acts.all] at ran
  | cons instruction rest step =>
      have listed := inside _ List.mem_cons_self
      have positive := instruction.size_pos position
      have stepped := @step_of_listed Value World Result lengths body catches acts listing stop
        position lists instruction listed frame
      have length : position + (encodeAll position (instruction :: rest)).length =
          position + instruction.size position +
            (encodeAll (position + instruction.size position) rest).length := by
        rw [encodeAll, List.length_append, Instruction.length_encode, Nat.add_assoc]
      have restInside : ∀ entry ∈ listAll (position + instruction.size position) rest,
          entry ∈ listing := fun entry found => inside entry (List.mem_cons_of_mem _ found)
      rw [length]
      cases acted : acts instruction frame with
      | none => constructor <;> simp [Acts.all, acted]
      | some effect =>
          rw [acted, Option.bind_some] at stepped
          cases effect with
          | next after =>
              have restRuns := @step (position + instruction.size position) restInside after
              simp only [Acts.all, acted]
              constructor
              · intro last ran
                exact ReflTransGen.head stepped (restRuns.1 ran)
              · intro exception locals world ran
                rcases restRuns.2 ran with ⟨place, from_, to_, reached⟩
                exact ⟨place, by omega, to_, TransGen.head stepped reached⟩
          | thrown exception locals world =>
              simp only [Acts.all, acted]
              constructor
              · intro last ran
                simp at ran
              · intro other otherLocals otherWorld ran
                simp only [Option.some.injEq, Effect.thrown.injEq] at ran
                obtain ⟨rfl, rfl, rfl⟩ := ran
                exact ⟨position, Nat.le_refl _, by omega, TransGen.single stepped⟩
          | jump delta after => constructor <;> simp [Acts.all, acted]
          | returned result world => constructor <;> simp [Acts.all, acted]

end Running

section Calling

variable {Value : Type u} {World : Type v} {Result : Type w}

/-- The methods of the tracker class. -/
structure Tracker (Value : Type u) (World : Type v) where
  object : Value → World → Called Value World
  array : Value → World → Called Value World
  call : ℤ → ℤ → World → Called Value World
  leave : ℤ → ℤ → World → Called Value World

def Called.effect (called : Called Value World) (stack : List Value) (locals : ℕ → Value) :
    Effect Value World Result :=
  match called with
  | .back world => .next ⟨stack, locals, world⟩
  | .threw exception world => .thrown exception locals world

def Called.andThen (called : Called Value World) (next : World → Called Value World) :
    Called Value World :=
  match called with
  | .back world => next world
  | .threw exception world => .threw exception world

/-- The number of the class is pushed as an `int`, that of the method as a `short`. -/
def classArgument (ci : CrwClassImage) : ℤ := TwosComplement.wrap 32 ci.number

def methodArgument (mi : MethodImage) : ℤ := TwosComplement.wrap 16 mi.number

/-- The calls that are injected into a method; without an index there is no call. -/
def trackerHooks (ci : CrwClassImage) (mi : MethodImage) (tracker : Tracker Value World) :
    Hooks Value World where
  atEntry locals world :=
    (if mi.objectInitMethod = true ∧ ci.indices.objectInitTracker ≠ 0 then
      tracker.object (locals 0) world else .back world).andThen fun world =>
        if mi.skipCallReturnSites = false ∧ ci.indices.callTracker ≠ 0 then
          tracker.call (classArgument ci) (methodArgument mi) world else .back world
  atReturn world :=
    if mi.skipCallReturnSites = false ∧ ci.indices.returnTracker ≠ 0 then
      tracker.leave (classArgument ci) (methodArgument mi) world else .back world
  atArray array world :=
    if ci.indices.newarrayTracker ≠ 0 then tracker.array array world else .back world

def invoke (methodIndex : ℕ) : Instruction :=
  .plain Opcode.invokestatic [byte (methodIndex / 2 ^ 8), byte methodIndex]

/-- The machine knows the instructions that are injected, and the tracker class. -/
structure Runs (machine : Machine Value World Result) (ci : CrwClassImage)
    (tracker : Tracker Value World) : Prop where
  dup : ∀ value stack locals world,
    machine.perform (.plain Opcode.dup []) ⟨value :: stack, locals, world⟩ =
      some (.next ⟨value :: value :: stack, locals, world⟩)
  aload : ∀ frame, machine.perform (.plain Opcode.aload_0 []) frame =
    some (.next (frame.push (frame.locals 0)))
  iconst : ∀ number ≤ 5, ∀ frame, machine.perform (.plain (Opcode.iconst_0 + number) []) frame =
    some (.next (frame.push (machine.ofInt number)))
  bipush : ∀ (number : ℤ) frame, machine.perform (.plain Opcode.bipush [byte number]) frame =
    some (.next (frame.push (machine.ofInt (TwosComplement.wrap 8 number))))
  sipush : ∀ (number : ℤ) frame,
    machine.perform (.plain Opcode.sipush [byte (number / 2 ^ 8), byte number]) frame =
      some (.next (frame.push (machine.ofInt (TwosComplement.wrap 16 number))))
  constant : ∀ frame, ci.number ≠ ci.number % 2 ^ 15 →
    machine.perform (pushPool ci.indices.classNumber) frame =
      some (.next (frame.push (machine.ofInt (classArgument ci))))
  object : ci.indices.objectInitTracker ≠ 0 → ∀ value stack locals world,
    machine.perform (invoke ci.indices.objectInitTracker) ⟨value :: stack, locals, world⟩ =
      some ((tracker.object value world).effect stack locals)
  array : ci.indices.newarrayTracker ≠ 0 → ∀ value stack locals world,
    machine.perform (invoke ci.indices.newarrayTracker) ⟨value :: stack, locals, world⟩ =
      some ((tracker.array value world).effect stack locals)
  call : ci.indices.callTracker ≠ 0 → ∀ cnum mnum stack locals world,
    machine.perform (invoke ci.indices.callTracker)
        ⟨machine.ofInt mnum :: machine.ofInt cnum :: stack, locals, world⟩ =
      some ((tracker.call cnum mnum world).effect stack locals)
  leave : ci.indices.returnTracker ≠ 0 → ∀ cnum mnum stack locals world,
    machine.perform (invoke ci.indices.returnTracker)
        ⟨machine.ofInt mnum :: machine.ofInt cnum :: stack, locals, world⟩ =
      some ((tracker.leave cnum mnum world).effect stack locals)

/-- No index stands for two tracker methods. -/
structure TrackersDiffer (ci : CrwClassImage) : Prop where
  object : ci.indices.objectInitTracker ≠ 0 →
    ci.indices.objectInitTracker ≠ ci.indices.newarrayTracker
  call : ci.indices.callTracker ≠ 0 → ci.indices.callTracker ≠ ci.indices.newarrayTracker ∧
    ci.indices.callTracker ≠ ci.indices.objectInitTracker
  leave : ci.indices.returnTracker ≠ 0 → ci.indices.returnTracker ≠ ci.indices.newarrayTracker ∧
    ci.indices.returnTracker ≠ ci.indices.objectInitTracker ∧
    ci.indices.returnTracker ≠ ci.indices.callTracker

variable {machine : Machine Value World Result} {ci : CrwClassImage} {mi : MethodImage}
  {tracker : Tracker Value World} {limit : ℕ} {stack : List Value} {locals : ℕ → Value}
  {world : World}

theorem within_next {instruction : Instruction} {opcode : ℕ} {operands : List UInt8}
    (isPlain : instruction = .plain opcode operands) {frame after : Frame Value World}
    (performs : machine.perform instruction frame = some (.next after))
    (room : after.stack.length ≤ limit) :
    Acts.within machine.act limit instruction frame = some (.next after) := by
  subst isPlain
  simp [Acts.within, Machine.act, performs, Effect.within, room]

theorem within_called {instruction : Instruction} {opcode : ℕ} {operands : List UInt8}
    (isPlain : instruction = .plain opcode operands) {frame : Frame Value World}
    {called : Called Value World}
    (performs : machine.perform instruction frame = some (called.effect stack locals))
    (room : stack.length ≤ limit) :
    Acts.within machine.act limit instruction frame = some (called.effect stack locals) := by
  subst isPlain
  cases called <;> simp_all [Acts.within, Machine.act, Effect.within, Called.effect]

theorem all_next {acts : Acts Value World Result} {instruction : Instruction}
    {rest : List Instruction} {frame after : Frame Value World}
    (acted : acts instruction frame = some (.next after)) :
    acts.all (instruction :: rest) frame = acts.all rest after := by
  simp only [Acts.all, acted]

theorem all_called {acts : Acts Value World Result} {instruction : Instruction}
    {frame : Frame Value World} {called : Called Value World}
    (acted : acts instruction frame = some (called.effect stack locals)) :
    acts.all [instruction] frame = some (called.effect stack locals) := by
  cases called <;> simp_all [Acts.all, Called.effect]

theorem within_pushShort (runs : Runs machine ci tracker) (number : ℕ) {frame : Frame Value World}
    (room : frame.stack.length < limit) :
    Acts.within machine.act limit (pushShort number) frame =
      some (.next (frame.push (machine.ofInt (TwosComplement.wrap 16 number)))) := by
  have isPlain : ∃ opcode operands, pushShort number = .plain opcode operands := by
    rw [pushShort]
    split
    · exact ⟨_, _, rfl⟩
    · split <;> exact ⟨_, _, rfl⟩
  rcases isPlain with ⟨opcode, operands, same⟩
  refine within_next same ?_ room
  rw [pushShort]
  split
  · rename_i small
    rw [runs.iconst number small, TwosComplement.wrap_of_inRange (by omega) (by omega)]
  · split
    · rename_i byteSized
      have bipush := runs.bipush number frame
      rw [TwosComplement.wrap_of_inRange (by omega) (by omega)] at bipush ⊢
      exact bipush
    · exact runs.sipush number frame

/-- The stack that a call of a tracker method needs beyond what is there. -/
def callDepth (ci : CrwClassImage) (methodIndex : ℕ) : ℕ :=
  if methodIndex = 0 then 0
  else if methodIndex = ci.indices.newarrayTracker ∨ methodIndex = ci.indices.objectInitTracker
    then 1
  else 2

theorem room_for_call {size methodIndex : ℕ} (room : size ≤ mi.maxStack)
    (enough : mi.maxStack ≤ limit) (called : trackerStack ci mi methodIndex ≤ limit) :
    size + callDepth ci methodIndex ≤ limit := by
  have depth : callDepth ci methodIndex = 0 ∨
      trackerStack ci mi methodIndex = mi.maxStack + callDepth ci methodIndex := by
    simp only [trackerStack, callDepth]
    split_ifs <;> simp_all
  omega

section Lists

variable {methodIndex : ℕ} (present : methodIndex ≠ 0)

include present

theorem trackerCall_array (isArray : methodIndex = ci.indices.newarrayTracker) :
    trackerCallInstructions ci mi methodIndex =
      [.plain Opcode.dup [], invoke methodIndex] := by
  rw [trackerCallInstructions, if_neg present, if_pos isArray, invoke]

theorem trackerCall_object (notArray : methodIndex ≠ ci.indices.newarrayTracker)
    (isObject : methodIndex = ci.indices.objectInitTracker) :
    trackerCallInstructions ci mi methodIndex =
      [.plain Opcode.aload_0 [], invoke methodIndex] := by
  rw [trackerCallInstructions, if_neg present, if_neg notArray, if_pos isObject, invoke]

theorem trackerCall_numbers (notArray : methodIndex ≠ ci.indices.newarrayTracker)
    (notObject : methodIndex ≠ ci.indices.objectInitTracker) :
    trackerCallInstructions ci mi methodIndex =
      [if ci.number = ci.number % 2 ^ 15 then pushShort ci.number
        else pushPool ci.indices.classNumber, pushShort mi.number, invoke methodIndex] := by
  rw [trackerCallInstructions, if_neg present, if_neg notArray, if_neg notObject, invoke]

end Lists

variable (mi) in
theorem all_object (runs : Runs machine ci tracker) (differ : TrackersDiffer ci)
    (frame : Frame Value World)
    (room : frame.stack.length + callDepth ci ci.indices.objectInitTracker ≤ limit) :
    (Acts.within machine.act limit).all
        (trackerCallInstructions ci mi ci.indices.objectInitTracker) frame =
      some ((if ci.indices.objectInitTracker ≠ 0 then
        tracker.object (frame.locals 0) frame.world else .back frame.world).effect
          frame.stack frame.locals) := by
  by_cases none : ci.indices.objectInitTracker = 0
  · simp [trackerCallInstructions, none, Acts.all, Called.effect]
  have deep : frame.stack.length < limit := by
    rw [callDepth, if_neg none, if_pos (Or.inr rfl)] at room
    omega
  rw [trackerCall_object none (differ.object none) rfl, if_pos none,
    all_next (within_next rfl (runs.aload frame) deep)]
  exact all_called (within_called rfl (runs.object none _ _ _ _) deep.le)

variable (mi) in
theorem all_array (runs : Runs machine ci tracker) (array : Value) (stack : List Value)
    (locals : ℕ → Value) (world : World)
    (room : stack.length + 1 + callDepth ci ci.indices.newarrayTracker ≤ limit) :
    (Acts.within machine.act limit).all
        (trackerCallInstructions ci mi ci.indices.newarrayTracker) ⟨array :: stack, locals, world⟩ =
      some ((if ci.indices.newarrayTracker ≠ 0 then tracker.array array world
        else .back world).effect (array :: stack) locals) := by
  by_cases none : ci.indices.newarrayTracker = 0
  · simp [trackerCallInstructions, none, Acts.all, Called.effect]
  have deep : stack.length + 1 < limit := by
    rw [callDepth, if_neg none, if_pos (Or.inl rfl)] at room
    omega
  rw [trackerCall_array none rfl, if_pos none,
    all_next (within_next rfl (runs.dup array stack locals world) deep)]
  exact all_called (within_called rfl (runs.array none _ _ _ _) deep.le)

variable (mi) in
/-- A call with the numbers of the class and of the method. -/
theorem all_numbers (runs : Runs machine ci tracker) {methodIndex : ℕ}
    {target : ℤ → ℤ → World → Called Value World} (differ : methodIndex ≠ 0 →
      methodIndex ≠ ci.indices.newarrayTracker ∧ methodIndex ≠ ci.indices.objectInitTracker)
    (calls : methodIndex ≠ 0 → ∀ cnum mnum stack locals world,
      machine.perform (invoke methodIndex)
          ⟨machine.ofInt mnum :: machine.ofInt cnum :: stack, locals, world⟩ =
        some ((target cnum mnum world).effect stack locals)) (frame : Frame Value World)
    (room : frame.stack.length + callDepth ci methodIndex ≤ limit) :
    (Acts.within machine.act limit).all (trackerCallInstructions ci mi methodIndex) frame =
      some ((if methodIndex ≠ 0 then
        target (classArgument ci) (methodArgument mi) frame.world else .back frame.world).effect
          frame.stack frame.locals) := by
  by_cases none : methodIndex = 0
  · simp [trackerCallInstructions, none, Acts.all, Called.effect]
  rcases differ none with ⟨notArray, notObject⟩
  have deep : frame.stack.length + 2 ≤ limit := by
    rw [callDepth, if_neg none, if_neg (not_or.mpr ⟨notArray, notObject⟩)] at room
    exact room
  have number : Acts.within machine.act limit
      (if ci.number = ci.number % 2 ^ 15 then pushShort ci.number
        else pushPool ci.indices.classNumber) frame =
      some (.next (frame.push (machine.ofInt (classArgument ci)))) := by
    by_cases short : ci.number = ci.number % 2 ^ 15
    · have pushed := within_pushShort runs ci.number (Nat.lt_of_succ_lt deep)
      rw [TwosComplement.wrap_of_inRange (by omega) (by omega)] at pushed
      rw [if_pos short, pushed, classArgument,
        TwosComplement.wrap_of_inRange (by omega) (by omega)]
    · have isPlain : ∃ opcode operands, pushPool ci.indices.classNumber =
          .plain opcode operands := by
        rw [pushPool]
        split <;> exact ⟨_, _, rfl⟩
      rcases isPlain with ⟨opcode, operands, same⟩
      rw [if_neg short]
      exact within_next same (runs.constant frame short) (Nat.lt_of_succ_lt deep)
  have method := @within_pushShort Value World Result machine ci tracker limit runs mi.number
    (frame.push (machine.ofInt (classArgument ci))) deep
  rw [trackerCall_numbers none notArray notObject, if_pos none, all_next number, all_next method]
  exact all_called (within_called rfl (calls none _ _ _ _ _) (by omega))

/-- Two calls one after another, the second if the first comes back. -/
theorem all_append_called {acts : Acts Value World Result} {first second : List Instruction}
    {frame : Frame Value World} {called : Called Value World}
    {next : World → Called Value World}
    (ran : acts.all first frame = some (called.effect stack locals))
    (nextRan : ∀ world, acts.all second ⟨stack, locals, world⟩ =
      some ((next world).effect stack locals)) :
    acts.all (first ++ second) frame = some ((called.andThen next).effect stack locals) := by
  induction first generalizing frame with
  | nil =>
      cases called with
      | back world =>
          simp only [Acts.all, Called.effect, Option.some.injEq, Effect.next.injEq] at ran
          rw [List.nil_append, ran]
          exact nextRan world
      | threw exception world => simp [Acts.all, Called.effect] at ran
  | cons instruction rest step =>
      rw [List.cons_append]
      cases acted : acts instruction frame with
      | none => simp [Acts.all, acted] at ran
      | some effect =>
          cases effect with
          | next after =>
              simp only [Acts.all, acted] at ran ⊢
              exact step ran
          | jump delta after => simp [Acts.all, acted] at ran
          | returned result world => simp [Acts.all, acted] at ran
          | thrown exception otherLocals world =>
              simp only [Acts.all, acted] at ran ⊢
              cases called with
              | back last => simp [Called.effect] at ran
              | threw other last => exact ran

/-- What is injected at the entry makes the calls of the entry. -/
theorem all_entry (runs : Runs machine ci tracker) (differ : TrackersDiffer ci)
    {frame : Frame Value World} (room : frame.stack.length ≤ mi.maxStack)
    (limited : max mi.maxStack (entryStack ci mi) ≤ limit) :
    (Acts.within machine.act limit).all (entryInstructions ci mi) frame =
      some (((trackerHooks ci mi tracker).atEntry frame.locals frame.world).effect
        frame.stack frame.locals) := by
  have enough := (Nat.le_max_left _ _).trans limited
  have entryEnough := (Nat.le_max_right _ _).trans limited
  have objectRan : (Acts.within machine.act limit).all
      (if mi.objectInitMethod then trackerCallInstructions ci mi ci.indices.objectInitTracker
        else []) frame =
      some ((if mi.objectInitMethod = true ∧ ci.indices.objectInitTracker ≠ 0 then
        tracker.object (frame.locals 0) frame.world else .back frame.world).effect
          frame.stack frame.locals) := by
    cases isInit : mi.objectInitMethod with
    | false => rfl
    | true =>
        have called : trackerStack ci mi ci.indices.objectInitTracker ≤ limit := by
          simpa [entryStack, isInit] using (Nat.le_max_left _ _).trans entryEnough
        simpa using all_object mi runs differ frame (room_for_call room enough called)
  refine all_append_called objectRan fun world => ?_
  cases skipped : mi.skipCallReturnSites with
  | true => rfl
  | false =>
      have called : trackerStack ci mi ci.indices.callTracker ≤ limit := by
        simpa [entryStack, skipped] using (Nat.le_max_right _ _).trans entryEnough
      simpa [Frame.withWorld] using all_numbers mi runs differ.call runs.call
        (frame.withWorld world) (room_for_call room enough called)

/-- What is injected before an instruction makes the call before it. -/
theorem all_before (runs : Runs machine ci tracker) (differ : TrackersDiffer ci)
    (instruction : Instruction) {frame : Frame Value World}
    (room : frame.stack.length ≤ mi.maxStack) (enough : mi.maxStack ≤ limit)
    (limited : opcodeStack ci mi instruction.opcode ≤ limit) :
    (Acts.within machine.act limit).all (beforeInstructions ci mi instruction.opcode) frame =
      some (((trackerHooks ci mi tracker).before instruction frame.world).effect
        frame.stack frame.locals) := by
  have beforeLimited : beforeStack ci mi instruction.opcode ≤ limit :=
    (Nat.le_max_left _ _).trans limited
  rw [beforeInstructions, Hooks.before]
  by_cases returns : instruction.opcode ∈ Opcode.returns
  · cases skipped : mi.skipCallReturnSites with
    | true => simp [trackerHooks, skipped, Acts.all, Called.effect]
    | false =>
        have called : trackerStack ci mi ci.indices.returnTracker ≤ limit := by
          simpa [beforeStack, returns, skipped] using beforeLimited
        simpa [trackerHooks, returns, skipped] using
          all_numbers mi runs (fun told => ⟨(differ.leave told).1, (differ.leave told).2.1⟩)
            runs.leave frame (room_for_call room enough called)
  · simp [returns, Acts.all, Called.effect]

/-- What is injected after an instruction makes the call after it. -/
theorem all_after (runs : Runs machine ci tracker) (instruction : Instruction)
    {frame : Frame Value World} (room : frame.stack.length ≤ mi.maxStack)
    (enough : mi.maxStack ≤ limit) (limited : opcodeStack ci mi instruction.opcode ≤ limit)
    {effect : Effect Value World Result}
    (after : (trackerHooks ci mi tracker).after instruction (.next frame) = some effect) :
    ∃ called : Called Value World, effect = called.effect frame.stack frame.locals ∧
      (Acts.within machine.act limit).all (afterInstructions ci mi instruction.opcode) frame =
        some (called.effect frame.stack frame.locals) := by
  rcases frame with ⟨stack, locals, world⟩
  rw [afterInstructions]
  by_cases allocates : instruction.opcode ∈ Opcode.arrayAllocations
  · simp only [Hooks.after, if_pos allocates] at after
    rcases stack with _ | ⟨array, rest⟩
    · simp at after
    have afterLimited : trackerStack ci mi ci.indices.newarrayTracker ≤ limit := by
      simpa [afterStack, allocates] using (Nat.le_max_right _ _).trans limited
    have ran := all_array mi runs array rest locals world
      (room_for_call room enough afterLimited)
    rw [if_pos allocates]
    refine ⟨_, ?_, ran⟩
    simp only [trackerHooks] at after
    split at after <;> simp_all [Called.effect, Frame.withWorld]
  · simp only [Hooks.after, if_neg allocates, Option.some.injEq] at after
    subst after
    exact ⟨.back world, rfl, by simp [allocates, Acts.all, Called.effect]⟩

end Calling

end HeapScan.ClassFile
