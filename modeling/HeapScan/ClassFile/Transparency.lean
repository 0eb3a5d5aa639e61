import HeapScan.ClassFile.Preservation

/-!
# A program that does not see the tracker

The tracker keeps its own record of what happens.  If its methods come back and the program
cannot tell the world before a call from the world after it, then the program does what it does
without the instrumentation.
-/

namespace HeapScan.ClassFile

open BigEndian TwosComplement Relation StateTransition

universe u v w

section Likeness

variable {Value : Type u} {World : Type v} {Result : Type w}

/-- Frames that differ in what the program cannot see. -/
def Frame.Alike (alike : World → World → Prop) (frame other : Frame Value World) : Prop :=
  frame.stack = other.stack ∧ frame.locals = other.locals ∧ alike frame.world other.world

inductive Effect.Alike (alike : World → World → Prop) :
    Effect Value World Result → Effect Value World Result → Prop where
  | next {frame other} (frames : frame.Alike alike other) : Alike alike (.next frame) (.next other)
  | jump {delta frame other} (frames : frame.Alike alike other) :
      Alike alike (.jump delta frame) (.jump delta other)
  | returned {result world other} (worlds : alike world other) :
      Alike alike (.returned result world) (.returned result other)
  | thrown {exception locals world other} (worlds : alike world other) :
      Alike alike (.thrown exception locals world) (.thrown exception locals other)

inductive State.Alike (alike : World → World → Prop) :
    State Value World Result → State Value World Result → Prop where
  | running {pc frame other} (frames : frame.Alike alike other) :
      Alike alike (.running pc frame) (.running pc other)
  | returned {result world other} (worlds : alike world other) :
      Alike alike (.returned result world) (.returned result other)
  | uncaught {exception world other} (worlds : alike world other) :
      Alike alike (.uncaught exception world) (.uncaught exception other)

theorem State.Alike.isFinal {alike : World → World → Prop} {state other : State Value World Result}
    (same : state.Alike alike other) (ended : state.IsFinal) : other.IsFinal := by
  cases same with
  | running frames => exact ended
  | returned worlds => trivial
  | uncaught worlds => trivial

/-- The program sees no difference between worlds that are alike. -/
structure Machine.Blind (machine : Machine Value World Result) (alike : World → World → Prop) :
    Prop where
  equivalence : Equivalence alike
  performs : ∀ {frame other : Frame Value World} {instruction effect},
    frame.Alike alike other → machine.perform instruction frame = some effect →
      ∃ image, machine.perform instruction other = some image ∧ effect.Alike alike image
  catches : ∀ {world other}, alike world other → ∀ catchType exception,
    machine.catches catchType exception world = machine.catches catchType exception other
  allocates : ∀ {instruction frame after}, instruction.opcode ∈ Opcode.arrayAllocations →
    machine.perform instruction frame = some (.next after) → after.stack ≠ []

/-- A call that comes back to a world that is alike. -/
def Called.Harmless (alike : World → World → Prop) (world : World)
    (called : Called Value World) : Prop :=
  ∃ after, called = .back after ∧ alike world after

structure Tracker.Harmless (tracker : Tracker Value World) (alike : World → World → Prop) :
    Prop where
  object : ∀ value world, (tracker.object value world).Harmless alike world
  array : ∀ value world, (tracker.array value world).Harmless alike world
  call : ∀ cnum mnum world, (tracker.call cnum mnum world).Harmless alike world
  leave : ∀ cnum mnum world, (tracker.leave cnum mnum world).Harmless alike world

section Stepping

variable {machine : Machine Value World Result} {alike : World → World → Prop}
  {frame other : Frame Value World} {limit : ℕ} {instruction : Instruction}
  {effect : Effect Value World Result}

theorem Frame.Alike.withStack (frames : frame.Alike alike other) (stack : List Value) :
    (frame.withStack stack).Alike alike (other.withStack stack) :=
  ⟨rfl, frames.2⟩

theorem Machine.switch_jumps (switched : machine.switch instruction frame = some effect) :
    ∃ delta after, effect = .jump delta after := by
  simp only [Machine.switch] at switched
  split at switched
  · rcases Option.map_eq_some_iff.mp switched with ⟨_, _, rfl⟩
    exact ⟨_, _, rfl⟩
  · simp at switched

theorem Machine.switch_alike (frames : frame.Alike alike other)
    (switched : machine.switch instruction frame = some effect) :
    ∃ image, machine.switch instruction other = some image ∧ effect.Alike alike image := by
  simp only [Machine.switch, ← frames.1] at switched ⊢
  split at switched
  · rename_i value rest held
    rcases Option.map_eq_some_iff.mp switched with ⟨key, read, rfl⟩
    exact ⟨_, by rw [read, Option.map_some], .jump (frames.withStack rest)⟩
  · simp at switched

theorem Machine.Blind.act_alike (blind : machine.Blind alike) (frames : frame.Alike alike other)
    (acted : machine.act instruction frame = some effect) :
    ∃ image, machine.act instruction other = some image ∧ effect.Alike alike image := by
  cases instruction with
  | plain opcode operands => exact blind.performs frames acted
  | wide opcode operands => exact blind.performs frames acted
  | jump opcode delta =>
      simp only [Machine.act, ← frames.1] at acted ⊢
      split at acted
      · obtain rfl := Option.some.inj acted
        exact ⟨_, if_pos ‹_›, .jump frames⟩
      rcases Option.map_eq_some_iff.mp acted with ⟨⟨taken, stack⟩, tested, rfl⟩
      refine ⟨_, by rw [if_neg ‹_›, tested, Option.map_some], ?_⟩
      cases taken with
      | true => exact .jump (frames.withStack stack)
      | false => exact .next (frames.withStack stack)
  | jumpWide opcode delta =>
      simp only [Machine.act, Option.ite_none_right_eq_some] at acted ⊢
      obtain ⟨isGoto, same⟩ := acted
      obtain rfl := Option.some.inj same
      exact ⟨_, ⟨isGoto, rfl⟩, .jump frames⟩
  | tableswitch delta low high deltas => exact switch_alike frames acted
  | lookupswitch delta pairs => exact switch_alike frames acted

theorem Effect.Alike.within {image result : Effect Value World Result}
    (same : effect.Alike alike image) (allowed : effect.within limit = some result) :
    image.within limit = some image ∧ result = effect := by
  refine ⟨?_, (Effect.within_eq_some allowed).symm⟩
  cases same with
  | next frames =>
      have room := (Option.ite_none_right_eq_some.mp allowed).1
      exact if_pos (frames.1 ▸ room)
  | jump frames =>
      have room := (Option.ite_none_right_eq_some.mp allowed).1
      exact if_pos (frames.1 ▸ room)
  | returned worlds => rfl
  | thrown worlds => rfl

theorem Machine.Blind.within_alike (blind : machine.Blind alike)
    (frames : frame.Alike alike other)
    (acted : Acts.within machine.act limit instruction frame = some effect) :
    ∃ image, Acts.within machine.act limit instruction other = some image ∧
      effect.Alike alike image := by
  rcases Option.bind_eq_some_iff.mp acted with ⟨did, acts, allowed⟩
  rcases blind.act_alike frames acts with ⟨image, imageActs, same⟩
  rcases same.within allowed with ⟨imageAllowed, rfl⟩
  exact ⟨image, Option.bind_eq_some_iff.mpr ⟨image, imageActs, imageAllowed⟩, same⟩

theorem raise_alike (blind : machine.Blind alike) {world image : World} (worlds : alike world image)
    (handlers : List Handler) (pc : ℕ) (exception : Value) (locals : ℕ → Value) :
    (raise machine.catches handlers pc exception locals world : State Value World Result).Alike
      alike (raise machine.catches handlers pc exception locals image) := by
  simp only [raise, blind.catches worlds]
  split
  · exact .running ⟨rfl, rfl, worlds⟩
  · exact .uncaught worlds

theorem resolve_alike (blind : machine.Blind alike) {image : Effect Value World Result}
    (same : effect.Alike alike image) {handlers : List Handler} {pc size : ℕ}
    {next : State Value World Result}
    (resolved : effect.resolve machine.catches handlers pc size = some next) :
    ∃ imageNext, image.resolve machine.catches handlers pc size = some imageNext ∧
      next.Alike alike imageNext := by
  cases same with
  | next frames =>
      obtain rfl := Option.some.inj resolved
      exact ⟨_, rfl, .running frames⟩
  | jump frames =>
      rcases Option.ite_none_right_eq_some.mp resolved with ⟨inside, isNext⟩
      obtain rfl := Option.some.inj isNext
      exact ⟨_, if_pos inside, .running frames⟩
  | returned worlds =>
      obtain rfl := Option.some.inj resolved
      exact ⟨_, rfl, .returned worlds⟩
  | thrown worlds =>
      obtain rfl := Option.some.inj resolved
      exact ⟨_, rfl, raise_alike blind worlds handlers pc _ _⟩

end Stepping

section Weaving

variable {machine : Machine Value World Result} {alike : World → World → Prop}
  {tracker : Tracker Value World} {ci : CrwClassImage} {mi : MethodImage}
  {frame other : Frame Value World} {instruction : Instruction}
  {effect : Effect Value World Result}

theorem Called.Harmless.back_self (equivalence : Equivalence alike) (world : World) :
    (Called.back world : Called Value World).Harmless alike world :=
  ⟨world, rfl, equivalence.refl world⟩

theorem Called.Harmless.andThen (equivalence : Equivalence alike) {world : World}
    {called : Called Value World} {next : World → Called Value World}
    (first : called.Harmless alike world)
    (second : ∀ between, (next between).Harmless alike between) :
    (called.andThen next).Harmless alike world := by
  rcases first with ⟨between, rfl, same⟩
  rcases second between with ⟨after, comes, nextSame⟩
  exact ⟨after, comes, equivalence.trans same nextSame⟩

/-- An array allocation leaves the array on the stack. -/
theorem Machine.Blind.act_allocates (blind : machine.Blind alike) {after : Frame Value World}
    (allocates : instruction.opcode ∈ Opcode.arrayAllocations)
    (acted : machine.act instruction frame = some (.next after)) : after.stack ≠ [] := by
  cases instruction with
  | plain opcode operands => exact blind.allocates allocates acted
  | wide opcode operands => exact blind.allocates allocates acted
  | jump opcode delta =>
      simp only [Instruction.opcode, Opcode.arrayAllocations, List.mem_cons, List.not_mem_nil,
        or_false] at allocates
      have noCondition : machine.condition opcode frame.stack = none := by
        rcases allocates with rfl | rfl | rfl <;> rfl
      have noGoto : opcode ≠ Opcode.goto := by
        rcases allocates with rfl | rfl | rfl <;> decide
      simp [Machine.act, noCondition, noGoto] at acted
  | jumpWide opcode delta => simp [Machine.act] at acted
  | tableswitch delta low high deltas =>
      rcases switch_jumps acted with ⟨_, _, isJump⟩
      cases isJump
  | lookupswitch delta pairs =>
      rcases switch_jumps acted with ⟨_, _, isJump⟩
      cases isJump

/-- No call that is woven in is seen. -/
theorem Tracker.Harmless.hooks (harmless : tracker.Harmless alike)
    (equivalence : Equivalence alike) :
    (∀ locals world, ((trackerHooks ci mi tracker).atEntry locals world).Harmless alike world) ∧
      (∀ world, ((trackerHooks ci mi tracker).atReturn world).Harmless alike world) ∧
      ∀ array world, ((trackerHooks ci mi tracker).atArray array world).Harmless alike world := by
  refine ⟨fun locals world => ?_, fun world => ?_, fun array world => ?_⟩
  · refine Called.Harmless.andThen equivalence ?_ fun between => ?_
    · split
      · exact harmless.object _ world
      · exact Called.Harmless.back_self equivalence world
    · split
      · exact harmless.call _ _ between
      · exact Called.Harmless.back_self equivalence between
  · simp only [trackerHooks]
    split
    · exact harmless.leave _ _ world
    · exact Called.Harmless.back_self equivalence world
  · simp only [trackerHooks]
    split
    · exact harmless.array array world
    · exact Called.Harmless.back_self equivalence world

/-- An instruction does the same when calls are woven in that are not seen. -/
theorem weave_alike (blind : machine.Blind alike) (harmless : tracker.Harmless alike)
    (frames : frame.Alike alike other)
    (acted : Acts.within machine.act mi.maxStack instruction frame = some effect) :
    ∃ image, (trackerHooks ci mi tracker).weave (Acts.within machine.act mi.maxStack)
      instruction other = some image ∧ effect.Alike alike image := by
  have seen := @Tracker.Harmless.hooks _ _ alike tracker ci mi harmless blind.equivalence
  have before : ((trackerHooks ci mi tracker).before instruction other.world).Harmless alike
      other.world := by
    rw [Hooks.before]
    split
    · exact seen.2.1 other.world
    · exact Called.Harmless.back_self blind.equivalence other.world
  rcases before with ⟨world, comes, same⟩
  have beforeFrames : frame.Alike alike (other.withWorld world) :=
    ⟨frames.1, frames.2.1, blind.equivalence.trans frames.2.2 same⟩
  rcases blind.within_alike beforeFrames acted with ⟨image, imageActed, imageSame⟩
  simp only [Hooks.weave, comes, imageActed, Option.bind_some]
  cases imageSame with
  | @next last imageLast lastFrames =>
      by_cases allocates : instruction.opcode ∈ Opcode.arrayAllocations
      · rcases Option.bind_eq_some_iff.mp acted with ⟨did, acts, allowed⟩
        obtain rfl := Effect.within_eq_some allowed
        have holds := blind.act_allocates allocates acts
        rw [lastFrames.1] at holds
        rcases List.exists_cons_of_ne_nil holds with ⟨array, rest, held⟩
        rcases seen.2.2 array imageLast.world with ⟨after, called, afterSame⟩
        refine ⟨.next (imageLast.withWorld after), ?_, .next ⟨lastFrames.1, lastFrames.2.1, ?_⟩⟩
        · simp only [Hooks.after, if_pos allocates, held, called]
        · exact blind.equivalence.trans lastFrames.2.2 afterSame
      · exact ⟨_, by simp only [Hooks.after, if_neg allocates], .next lastFrames⟩
  | jump jumpFrames => exact ⟨_, rfl, .jump jumpFrames⟩
  | returned worlds => exact ⟨_, rfl, .returned worlds⟩
  | thrown worlds => exact ⟨_, rfl, .thrown worlds⟩

end Weaving

/-- A step of the old method alone. -/
def oldStep (lengths : OpcodeLengths) (ci : CrwClassImage) (mi : MethodImage)
    (handlers : List Handler) (machine : Machine Value World Result) :
    State Value World Result → Option (State Value World Result) :=
  (oldBody ci mi handlers).step lengths machine.catches (Acts.within machine.act mi.maxStack)

section Running

variable {machine : Machine Value World Result} {alike : World → World → Prop}
  {tracker : Tracker Value World} {ci : CrwClassImage} {mi : MethodImage}
  {lengths : OpcodeLengths} {handlers : List Handler}

/-- The old method with the tracker woven in follows the old method. -/
theorem weave_forward (blind : machine.Blind alike) (harmless : tracker.Harmless alike) :
    Simulation.Forward (oldStep lengths ci mi handlers machine)
      (wovenStep lengths ci mi handlers machine tracker) State.IsFinal
      (State.Alike alike) where
  step {start image next} same _ stepped := by
    cases same with
    | running frames =>
        rcases Option.bind_eq_some_iff.mp stepped with ⟨instruction, decoded, rest⟩
        rcases Option.bind_eq_some_iff.mp rest with ⟨effect, acted, resolved⟩
        rcases @weave_alike _ _ _ _ _ _ ci mi _ _ _ _ blind harmless frames acted with
          ⟨imageEffect, imageActed, effects⟩
        rcases resolve_alike blind effects resolved with ⟨imageNext, imageResolved, nexts⟩
        refine ⟨imageNext, nexts, TransGen.single ?_⟩
        exact Option.bind_eq_some_iff.mpr ⟨instruction, decoded,
          Option.bind_eq_some_iff.mpr ⟨imageEffect, imageActed, imageResolved⟩⟩
    | returned worlds => exact absurd stepped (by simp [oldStep, Body.step])
    | uncaught worlds => exact absurd stepped (by simp [oldStep, Body.step])
  stop {start image} same ended := by
    cases same with
    | running frames => exact ended.elim
    | returned worlds => rfl
    | uncaught worlds => rfl

theorem enter_alike (blind : machine.Blind alike) (harmless : tracker.Harmless alike)
    (frame : Frame Value World) :
    (State.running 0 frame : State Value World Result).Alike alike
      ((trackerHooks ci mi tracker).enter frame) := by
  have hooks := @Tracker.Harmless.hooks _ _ alike tracker ci mi harmless blind.equivalence
  rcases hooks.1 frame.locals frame.world with
    ⟨world, comes, same⟩
  rw [Hooks.enter, comes]
  exact .running ⟨rfl, rfl, same⟩

/-- A method that never gets stuck does what it did when it is instrumented with a tracker that
it does not see: it has the same results, and runs forever where it did. -/
theorem Instrumented.transparent {listing : Listing} {widening : ℕ → ℤ}
    (method : Instrumented lengths ci mi listing widening handlers)
    (runs : Runs machine ci tracker) (blind : machine.Blind alike)
    (harmless : tracker.Harmless alike) {frame : Frame Value World}
    (room : frame.stack.length ≤ mi.maxStack)
    (safe : Simulation.Safe (oldStep lengths ci mi handlers machine) State.IsFinal
      (.running 0 frame)) :
    (∀ result ∈ eval (oldStep lengths ci mi handlers machine) (.running 0 frame),
        ∃ image ∈ eval (newStep lengths ci mi listing widening handlers machine)
          (.running 0 frame), result.Alike alike image) ∧
      ∀ image ∈ eval (newStep lengths ci mi listing widening handlers machine) (.running 0 frame),
        ∃ result ∈ eval (oldStep lengths ci mi handlers machine) (.running 0 frame),
          result.Alike alike image := by
  have simulates := @weave_forward Value World Result machine alike tracker ci mi lengths handlers
    blind harmless
  have entered := @enter_alike Value World Result machine alike tracker ci mi blind harmless frame
  have wovenSafe := simulates.safe State.Alike.isFinal entered safe
  rw [method.eval_eq runs room wovenSafe]
  refine ⟨fun result evaluates => ?_, fun image evaluates => ?_⟩
  · rcases simulates.eval entered safe evaluates with ⟨image, same, reached⟩
    exact ⟨image, reached, same⟩
  · rcases simulates.eval_rev entered safe evaluates with ⟨result, same, reached⟩
    exact ⟨result, reached, same⟩

end Running

end Likeness

section Entering

variable {Value : Type u} {World : Type v} {Result : Type w}
variable {machine : Machine Value World Result} {tracker : Tracker Value World}
  {ci : CrwClassImage} {mi : MethodImage} {lengths : OpcodeLengths} {handlers : List Handler}

/-- What allocates an array leaves it on the stack. -/
def Machine.Allocates (machine : Machine Value World Result) : Prop :=
  ∀ {instruction : Instruction} {frame after : Frame Value World},
    instruction.opcode ∈ Opcode.arrayAllocations →
      machine.perform instruction frame = some (.next after) → after.stack ≠ []

theorem Machine.Allocates.blind (allocates : machine.Allocates) : machine.Blind Eq where
  equivalence := eq_equivalence
  performs {frame other instruction effect} frames performed := by
    rcases frame with ⟨stack, locals, world⟩
    rcases other with ⟨otherStack, otherLocals, otherWorld⟩
    obtain ⟨rfl, rfl, rfl⟩ := frames
    refine ⟨effect, performed, ?_⟩
    cases effect with
    | next last => exact .next ⟨rfl, rfl, rfl⟩
    | jump delta last => exact .jump ⟨rfl, rfl, rfl⟩
    | returned result last => exact .returned rfl
    | thrown exception lastLocals last => exact .thrown rfl
  catches same _ _ := by rw [same]
  allocates := allocates

/-- Where only the entry is instrumented, nothing is woven into the instructions. -/
theorem weave_entry (allocates : machine.Allocates) (skips : mi.skipCallReturnSites = true)
    (noArrays : ci.indices.newarrayTracker = 0) (instruction : Instruction)
    (frame : Frame Value World) :
    (trackerHooks ci mi tracker).weave (Acts.within machine.act mi.maxStack) instruction frame =
      Acts.within machine.act mi.maxStack instruction frame := by
  have before : (trackerHooks ci mi tracker).before instruction frame.world =
      .back frame.world := by
    simp [Hooks.before, trackerHooks, skips]
  have same : frame.withWorld frame.world = frame := rfl
  simp only [Hooks.weave, before, same]
  cases acted : Acts.within machine.act mi.maxStack instruction frame with
  | none => rfl
  | some effect =>
      cases effect with
      | next last =>
          by_cases allocation : instruction.opcode ∈ Opcode.arrayAllocations
          · rcases Option.bind_eq_some_iff.mp acted with ⟨did, acts, allowed⟩
            obtain rfl := Effect.within_eq_some allowed
            rcases List.exists_cons_of_ne_nil (allocates.blind.act_allocates allocation acts) with
              ⟨array, rest, held⟩
            have called : (trackerHooks ci mi tracker).atArray array last.world =
                .back last.world := by simp [trackerHooks, noArrays]
            simp only [Option.bind_some, Hooks.after, if_pos allocation, held, called]
            rfl
          · simp only [Option.bind_some, Hooks.after, if_neg allocation]
      | jump delta last => rfl
      | returned result world => rfl
      | thrown exception locals world => rfl

theorem wovenStep_entry (allocates : machine.Allocates) (skips : mi.skipCallReturnSites = true)
    (noArrays : ci.indices.newarrayTracker = 0) :
    wovenStep lengths ci mi handlers machine tracker = oldStep lengths ci mi handlers machine := by
  funext state
  cases state with
  | running pc frame =>
      simp only [wovenStep, oldStep, Body.step, weave_entry allocates skips noArrays]
  | returned result world => rfl
  | uncaught exception world => rfl

/-- The constructor of `java.lang.Object` calls the tracker with its object, once, and then does
what it did before; where the tracker throws, the constructor ends with the exception. -/
theorem Instrumented.eval_constructor {listing : Listing} {widening : ℕ → ℤ}
    (method : Instrumented lengths ci mi listing widening handlers)
    (runs : Runs machine ci tracker) (allocates : machine.Allocates)
    (constructs : mi.objectInitMethod = true) (skips : mi.skipCallReturnSites = true)
    (noArrays : ci.indices.newarrayTracker = 0) (tracked : ci.indices.objectInitTracker ≠ 0)
    {frame : Frame Value World} (room : frame.stack.length ≤ mi.maxStack)
    (safe : ∀ world, tracker.object (frame.locals 0) frame.world = .back world →
      Simulation.Safe (oldStep lengths ci mi handlers machine) State.IsFinal
        (.running 0 (frame.withWorld world))) :
    eval (newStep lengths ci mi listing widening handlers machine) (.running 0 frame) =
      match tracker.object (frame.locals 0) frame.world with
      | .back world =>
          eval (oldStep lengths ci mi handlers machine) (.running 0 (frame.withWorld world))
      | .threw exception world => Part.some (.uncaught exception world) := by
  have entry : (trackerHooks ci mi tracker).atEntry frame.locals frame.world =
      tracker.object (frame.locals 0) frame.world := by
    simp only [trackerHooks, constructs, skips, tracked, ne_eq, not_false_eq_true, and_self,
      if_true, Bool.true_eq_false, false_and, if_false]
    cases tracker.object (frame.locals 0) frame.world <;> rfl
  have woven := @wovenStep_entry Value World Result machine tracker ci mi lengths handlers allocates
    skips noArrays
  have entered : (trackerHooks ci mi tracker).enter frame =
      (match tracker.object (frame.locals 0) frame.world with
        | .back world => .running 0 (frame.withWorld world)
        | .threw exception world => .uncaught exception world : State Value World Result) := by
    cases called : tracker.object (frame.locals 0) frame.world <;>
      simp only [Hooks.enter, entry, called]
  have wovenSafe : Simulation.Safe (wovenStep lengths ci mi handlers machine tracker) State.IsFinal
      ((trackerHooks ci mi tracker).enter frame) := by
    rw [woven, entered]
    cases called : tracker.object (frame.locals 0) frame.world with
    | back world => exact safe world called
    | threw exception world =>
        intro state reached _
        rcases ReflTransGen.cases_head reached with rfl | ⟨next, impossible, _⟩
        · trivial
        · cases impossible
  rw [method.eval_eq runs room wovenSafe, woven, entered]
  cases tracker.object (frame.locals 0) frame.world with
  | back world => rfl
  | threw exception world =>
      exact Part.eq_some_iff.mpr (mem_eval.mpr ⟨ReflTransGen.refl, rfl⟩)

end Entering
section Constructor

/-- What the injected instructions push, on a machine of integers. -/
def pushedBy (opcode : ℕ) (operands : List UInt8) (stack : List ℤ) (locals : ℕ → ℤ) :
    Option (List ℤ) :=
  if opcode = Opcode.dup then stack.head?.map fun value => value :: stack
  else if opcode = Opcode.aload_0 then some (locals 0 :: stack)
  else if 3 ≤ opcode ∧ opcode ≤ 8 then some (((opcode - 3 : ℕ) : ℤ) :: stack)
  else if opcode = Opcode.bipush then
    (u1 operands 0).map fun value : ℕ => wrap 8 (value : ℤ) :: stack
  else if opcode = Opcode.sipush then (s2 operands 0).map fun value => value :: stack
  else none

/-- The world is what the tracker method has been called with. -/
def trackingPerform (trackerIndex : ℕ) :
    Instruction → Frame ℤ (List ℤ) → Option (Effect ℤ (List ℤ) Unit)
  | .plain opcode operands, frame =>
      if opcode = 177 then some (.returned () frame.world)
      else if opcode = Opcode.invokestatic ∧ u2 operands 0 = some trackerIndex then
        frame.stack.head?.map fun value =>
          .next ⟨frame.stack.tail, frame.locals, value :: frame.world⟩
      else (pushedBy opcode operands frame.stack frame.locals).map fun stack =>
        .next (frame.withStack stack)
  | _, _ => none

def trackingMachine (trackerIndex : ℕ) : Machine ℤ (List ℤ) Unit where
  ofInt := id
  toInt := some
  isNull value := value == 0
  same left right := left == right
  catches _ _ _ := false
  perform := trackingPerform trackerIndex
  falls instruction frame delta next := by
    cases instruction <;> simp only [trackingPerform, reduceCtorEq, ne_eq, not_false_eq_true]
    split
    · simp
    · split <;> simp [Option.map_eq_some_iff]

def listTracker : Tracker ℤ (List ℤ) where
  object value world := .back (value :: world)
  array value world := .back (value :: world)
  call _ _ world := .back world
  leave _ _ world := .back world

def objectConstructor : CrwClassImage where
  number := 0
  name := none
  input := [177]
  inputPosition := 0
  output := some []
  outputLen := 514
  cpool := []
  cpoolMaxElements := 0
  cpoolCountPlusOne := 0
  systemClass := false
  accessFlags := 0
  interface := ⟨none, none, none, none, none, none, none, none, none, none⟩
  indices := ⟨4, 7, 0, 0, 0, 0⟩
  injectionCount := 0
  isObjectClass := true
  isThreadClass := false
  methods := []

def constructorMethod : MethodImage where
  number := 0
  map := fun position => position
  injections := fun _ => []
  widening := fun _ => 0
  codeLen := 1
  newCodeLen := 0
  startOfInputBytecodes := 0
  maxStack := 0
  newMaxStack := 0
  objectInitMethod := true
  skipCallReturnSites := true

theorem trackingPerform_invoke {index : ℕ} (small : index < 2 ^ 16) (value : ℤ) (stack : List ℤ)
    (locals : ℕ → ℤ) (world : List ℤ) :
    trackingPerform index (invoke index) ⟨value :: stack, locals, world⟩ =
      some (.next ⟨stack, locals, value :: world⟩) := by
  have read := u2_bytes2 [] (index : ℤ)
  have same : ((index : ℤ) % 2 ^ 16).toNat = index := by omega
  rw [same, List.append_nil, bytes2] at read
  have notReturn : Opcode.invokestatic ≠ 177 := by decide
  rw [invoke, trackingPerform, if_neg notReturn, if_pos ⟨rfl, read⟩]
  rfl

theorem runs_trackingMachine : Runs (trackingMachine 7) objectConstructor listTracker where
  dup _ _ _ _ := rfl
  aload _ := rfl
  iconst number small frame := by
    have opcodes : Opcode.iconst_0 + number ≠ 177 ∧ Opcode.iconst_0 + number ≠ Opcode.invokestatic ∧
        Opcode.iconst_0 + number ≠ Opcode.dup ∧ Opcode.iconst_0 + number ≠ Opcode.aload_0 := by
      simp only [Opcode.iconst_0, Opcode.invokestatic, Opcode.dup, Opcode.aload_0]
      omega
    have inside : 3 ≤ Opcode.iconst_0 + number ∧ Opcode.iconst_0 + number ≤ 8 := by
      simp only [Opcode.iconst_0]
      omega
    simp only [trackingMachine, trackingPerform, pushedBy, opcodes, inside, if_false, if_true,
      false_and, and_self]
    simp [Opcode.iconst_0, Frame.push]
  bipush number frame := by
    have read : u1 [byte number] 0 = some (number % 2 ^ 8).toNat := u1_byte [] number
    have wrapped : wrap 8 ((number % 2 ^ 8).toNat : ℤ) = wrap 8 number := by
      rw [Int.toNat_of_nonneg (Int.emod_nonneg _ (by decide))]
      exact Int.emod_bmod number _
    have pushed : pushedBy Opcode.bipush [byte number] frame.stack frame.locals =
        some (wrap 8 number :: frame.stack) := by
      have opcodes : ¬ (Opcode.bipush = Opcode.dup ∨ Opcode.bipush = Opcode.aload_0 ∨
          3 ≤ Opcode.bipush ∧ Opcode.bipush ≤ 8) := by decide
      simp only [not_or] at opcodes
      simp only [pushedBy, opcodes, if_false, if_true, read, Option.map_some, wrapped]
    have opcodes : ¬ (Opcode.bipush = 177 ∨ Opcode.bipush = Opcode.invokestatic) := by decide
    simp only [not_or] at opcodes
    simp only [trackingMachine, trackingPerform, opcodes, if_false, false_and, pushed,
      Option.map_some]
    rfl
  sipush number frame := by
    have read : s2 [byte (number / 2 ^ 8), byte number] 0 = some (wrap 16 number) :=
      s2_bytes2 [] number
    have pushed : pushedBy Opcode.sipush [byte (number / 2 ^ 8), byte number] frame.stack
        frame.locals = some (wrap 16 number :: frame.stack) := by
      have opcodes : ¬ (Opcode.sipush = Opcode.dup ∨ Opcode.sipush = Opcode.aload_0 ∨
          Opcode.sipush = Opcode.bipush ∨ 3 ≤ Opcode.sipush ∧ Opcode.sipush ≤ 8) := by decide
      simp only [not_or] at opcodes
      simp only [pushedBy, opcodes, if_false, if_true, read, Option.map_some]
    have opcodes : ¬ (Opcode.sipush = 177 ∨ Opcode.sipush = Opcode.invokestatic) := by decide
    simp only [not_or] at opcodes
    simp only [trackingMachine, trackingPerform, opcodes, if_false, false_and, pushed,
      Option.map_some]
    rfl
  constant frame large := absurd (by decide) large
  object _ value stack locals world := by
    have index : objectConstructor.indices.objectInitTracker = 7 := rfl
    have performs : (trackingMachine 7).perform = trackingPerform 7 := rfl
    rw [index, performs, trackingPerform_invoke (by decide)]
    rfl
  array isArray := absurd rfl isArray
  call isCall := absurd rfl isCall
  leave leaves := absurd rfl leaves

theorem blind_trackingMachine : (trackingMachine 7).Blind fun _ _ => True where
  equivalence := ⟨fun _ => trivial, fun _ => trivial, fun _ _ => trivial⟩
  performs {frame other instruction effect} frames performed := by
    rcases frame with ⟨stack, locals, world⟩
    rcases other with ⟨otherStack, otherLocals, otherWorld⟩
    rcases frames with ⟨sameStack, sameLocals, _⟩
    simp only at sameStack sameLocals
    subst sameStack sameLocals
    cases instruction with
    | plain opcode operands =>
        simp only [trackingMachine, trackingPerform] at performed ⊢
        split at performed
        · rename_i isReturn
          cases performed
          exact ⟨_, if_pos isReturn, .returned trivial⟩
        · rename_i notReturn
          split at performed
          · rename_i called
            rcases Option.map_eq_some_iff.mp performed with ⟨value, top, rfl⟩
            rw [if_neg notReturn, if_pos called, top]
            exact ⟨_, rfl, .next ⟨rfl, rfl, trivial⟩⟩
          · rename_i notCalled
            rcases Option.map_eq_some_iff.mp performed with ⟨pushed, isPushed, rfl⟩
            rw [if_neg notReturn, if_neg notCalled, isPushed]
            exact ⟨_, rfl, .next ⟨rfl, rfl, trivial⟩⟩
    | _ => exact absurd performed (by simp [trackingMachine, trackingPerform])
  catches _ _ _ := rfl
  allocates {instruction frame after} allocates performed := by
    cases instruction with
    | plain opcode operands =>
        have opcodes : opcode ≠ 177 ∧ opcode ≠ Opcode.invokestatic ∧ opcode ≠ Opcode.dup ∧
            opcode ≠ Opcode.aload_0 ∧ ¬ (3 ≤ opcode ∧ opcode ≤ 8) ∧ opcode ≠ Opcode.bipush ∧
              opcode ≠ Opcode.sipush := by
          have all : Opcode.arrayAllocations.all (fun opcode => opcode ≠ 177 ∧
              opcode ≠ Opcode.invokestatic ∧ opcode ≠ Opcode.dup ∧ opcode ≠ Opcode.aload_0 ∧
                ¬ (3 ≤ opcode ∧ opcode ≤ 8) ∧ opcode ≠ Opcode.bipush ∧
                  opcode ≠ Opcode.sipush) = true := by decide
          exact of_decide_eq_true (List.all_eq_true.mp all opcode allocates)
        simp [trackingMachine, trackingPerform, pushedBy, opcodes] at performed
    | _ => exact absurd performed (by simp [trackingMachine, trackingPerform])

theorem harmless_listTracker : listTracker.Harmless fun _ _ => True where
  object _ _ := ⟨_, rfl, trivial⟩
  array _ _ := ⟨_, rfl, trivial⟩
  call _ _ _ := ⟨_, rfl, trivial⟩
  leave _ _ _ := ⟨_, rfl, trivial⟩

theorem instrumented_constructorMethod : Instrumented jvmLengths objectConstructor
    constructorMethod [(0, .plain 177 [])] (fun _ => 0) [] where
  lists := ⟨⟨rfl, rfl⟩, by simp [Instruction.Valid]; decide, by simp [Instruction.StandsAt]; decide⟩
  whole := rfl
  small := by decide
  targets := by simp [TargetsStart, Instruction.targets]
  widened := ⟨by simp [WidenedAsNeeded], by simp [Settled]⟩
  differ := ⟨by decide, by decide, by decide⟩
  covers := by simp
  begins := by simp
  catching := by simp

theorem safe_constructorMethod (locals : ℕ → ℤ) (world : List ℤ) :
    Simulation.Safe (oldStep jvmLengths objectConstructor constructorMethod [] (trackingMachine 7))
      State.IsFinal (.running 0 ⟨[], locals, world⟩) := by
  intro state reached stuck
  have returns : oldStep jvmLengths objectConstructor constructorMethod [] (trackingMachine 7)
      (.running 0 ⟨[], locals, world⟩) = some (.returned () world) := rfl
  rcases ReflTransGen.cases_head reached with rfl | ⟨next, stepped, rest⟩
  · rw [returns] at stuck
    cases stuck
  · obtain rfl : State.returned () world = next := by
      rw [Option.mem_def, returns] at stepped
      exact Option.some.inj stepped
    rcases ReflTransGen.cases_head rest with rfl | ⟨last, impossible, _⟩
    · trivial
    · cases impossible

/-- The constructor that only returns comes back as before, and has told of its object. -/
theorem transparent_constructor :
    ∃ image ∈ eval (newStep jvmLengths objectConstructor constructorMethod [(0, .plain 177 [])]
      (fun _ => 0) [] (trackingMachine 7)) (.running 0 ⟨[], fun _ => 1, []⟩),
      (State.returned () []).Alike (fun _ _ => True) image := by
  have transparent := Instrumented.transparent instrumented_constructorMethod runs_trackingMachine
    blind_trackingMachine harmless_listTracker
    (show (⟨[], fun _ => 1, []⟩ : Frame ℤ (List ℤ)).stack.length ≤ constructorMethod.maxStack from
      Nat.zero_le _) (safe_constructorMethod (fun _ => 1) [])
  exact transparent.1 _ (mem_eval.mpr ⟨ReflTransGen.single rfl, rfl⟩)

/-- The object is told of before the constructor returns. -/
theorem eval_constructor_returns : eval (newStep jvmLengths objectConstructor constructorMethod
    [(0, .plain 177 [])] (fun _ => 0) [] (trackingMachine 7)) (.running 0 ⟨[], fun _ => 1, []⟩) =
      eval (oldStep jvmLengths objectConstructor constructorMethod [] (trackingMachine 7))
        (.running 0 ⟨[], fun _ => 1, [1]⟩) :=
  Instrumented.eval_constructor instrumented_constructorMethod runs_trackingMachine
    blind_trackingMachine.allocates rfl rfl rfl (by decide)
    (show (⟨[], fun _ => 1, []⟩ : Frame ℤ (List ℤ)).stack.length ≤ constructorMethod.maxStack from
      Nat.zero_le _) fun world _ => safe_constructorMethod (fun _ => 1) world

end Constructor
end HeapScan.ClassFile
