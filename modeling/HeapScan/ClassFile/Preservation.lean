import Mathlib.Data.List.Find
import HeapScan.ClassFile.Calls

/-!
# The new code means the same

A step of the old method, with the calls of the tracker woven in, is one or more steps of the
new code.  A branch that has become two branches goes where it went, an exception reaches the
handler that it reached, also when the tracker throws it, and the new stack limit is enough.  So
the new method returns and throws what the old one does, and runs forever where that does.
-/

namespace HeapScan.ClassFile

open BigEndian Relation Relocation StateTransition

universe u v w

section Moving

variable {Value : Type u} {World : Type v} {Result : Type w}
  {machine : Machine Value World Result} {limit : ℕ}

/-- The effect with the jump changed. -/
def Effect.moved (move : ℤ → ℤ) : Effect Value World Result → Effect Value World Result
  | .jump delta frame => .jump (move delta) frame
  | effect => effect

theorem Effect.within_moved (move : ℤ → ℤ) (effect : Effect Value World Result) :
    (effect.moved move).within limit = (effect.within limit).map (Effect.moved move) := by
  cases effect with
  | next frame =>
      simp only [moved, within]
      split <;> rfl
  | jump delta frame =>
      simp only [moved, within]
      split <;> rfl
  | returned result world => rfl
  | thrown exception locals world => rfl

/-- The limit decides whether there is an effect, not which. -/
theorem Effect.within_eq_some {effect result : Effect Value World Result}
    (allowed : effect.within limit = some result) : effect = result := by
  cases effect with
  | next frame => exact Option.some.inj (Option.ite_none_right_eq_some.mp allowed).2
  | jump delta frame => exact Option.some.inj (Option.ite_none_right_eq_some.mp allowed).2
  | returned result world => exact Option.some.inj allowed
  | thrown exception locals world => exact Option.some.inj allowed

section Room

variable {acts : Acts Value World Result} {instruction : Instruction}
  {frame last : Frame Value World}

theorem Acts.room_next (acted : acts.within limit instruction frame = some (.next last)) :
    last.stack.length ≤ limit := by
  rcases Option.bind_eq_some_iff.mp acted with ⟨result, _, allowed⟩
  obtain rfl := Effect.within_eq_some allowed
  exact (Option.ite_none_right_eq_some.mp allowed).1

theorem Acts.room_jump {delta : ℤ}
    (acted : acts.within limit instruction frame = some (.jump delta last)) :
    last.stack.length ≤ limit := by
  rcases Option.bind_eq_some_iff.mp acted with ⟨result, _, allowed⟩
  obtain rfl := Effect.within_eq_some allowed
  exact (Option.ite_none_right_eq_some.mp allowed).1

end Room

theorem resolve_jump {catches : ℕ → Value → World → Bool} {handlers : List Handler}
    {pc size start : ℕ} {delta : ℤ} (target : (pc : ℤ) + delta = start)
    (frame : Frame Value World) :
    (Effect.jump delta frame : Effect Value World Result).resolve catches handlers pc size =
      some (.running start frame) := by
  simp [Effect.resolve, target]

theorem Machine.perform_moved (machine : Machine Value World Result) (move : ℤ → ℤ)
    (instruction : Instruction) (frame : Frame Value World) :
    (machine.perform instruction frame).map (Effect.moved move) =
      machine.perform instruction frame := by
  cases performed : machine.perform instruction frame with
  | none => rfl
  | some effect =>
      cases effect with
      | jump delta next => exact absurd performed (machine.falls instruction frame delta next)
      | _ => rfl

theorem selected_tableswitch (move : ℤ → ℤ) (delta low high key : ℤ) (deltas : List ℤ) :
    selected key (.tableswitch (move delta) low high (deltas.map move)) =
      move (selected key (.tableswitch delta low high deltas)) := by
  simp only [selected]
  split
  · rw [List.getElem?_map]
    cases deltas[(key - low).toNat]? <;> rfl
  · rfl

theorem selected_lookupswitch (move : ℤ → ℤ) (delta key : ℤ) (pairs : List (ℤ × ℤ)) :
    selected key (.lookupswitch (move delta) (pairs.map fun pair => (pair.1, move pair.2))) =
      move (selected key (.lookupswitch delta pairs)) := by
  simp only [selected, List.find?_map]
  cases found : pairs.find? fun pair => pair.1 == key <;> simp [found]

variable {ci : CrwClassImage} {mi : MethodImage} {listing : Listing} {widening : ℕ → ℤ}
  {position : ℕ}

/-- A relocated instruction does the same, but jumps to where its target has moved. -/
theorem act_relocated (machine : Machine Value World Result) {instruction other : Instruction}
    (needed : ∀ {opcode delta}, instruction = .jump opcode delta →
      widening position = 0 ∨ widening position = branchWidening opcode)
    (single : relocated ci mi listing widening (position, instruction) = [other])
    (frame : Frame Value World) :
    machine.act other frame = (machine.act instruction frame).map
      (Effect.moved (newDelta ci mi listing widening position)) := by
  cases instruction with
  | plain opcode operands =>
      obtain rfl := List.singleton_inj.mp single
      exact (machine.perform_moved _ _ frame).symm
  | wide opcode operands =>
      obtain rfl := List.singleton_inj.mp single
      exact (machine.perform_moved _ _ frame).symm
  | jump opcode delta =>
      simp only [relocated] at single
      by_cases narrow : widening position = 0
      · rw [if_pos narrow] at single
        obtain rfl := List.singleton_inj.mp single
        simp only [Machine.act]
        split
        · rfl
        · rw [Option.map_map]
          refine congrArg (Option.map · _) (funext fun result => ?_)
          cases taken : result.1 <;> simp [Effect.moved, taken]
      have widened := (needed rfl).resolve_left narrow
      by_cases direct : opcode ∈ Opcode.unconditional
      · rw [branchWidening, if_pos direct] at widened
        rw [if_neg narrow, if_pos widened] at single
        obtain rfl := List.singleton_inj.mp single
        simp only [Opcode.unconditional, List.mem_cons, List.not_mem_nil, or_false] at direct
        rcases direct with rfl | rfl
        · have noGoto : wideForm Opcode.jsr ≠ Opcode.goto_w := by decide
          have noCondition : machine.condition Opcode.jsr frame.stack = none := rfl
          simp [Machine.act, noGoto, noCondition]
        · have isGoto : wideForm Opcode.goto = Opcode.goto_w := by decide
          simp [Machine.act, isGoto, Effect.moved]
      · rw [branchWidening, if_neg direct] at widened
        rw [if_neg narrow, if_neg (by omega)] at single
        simp at single
  | jumpWide opcode delta =>
      obtain rfl := List.singleton_inj.mp single
      simp only [Machine.act]
      split <;> rfl
  | tableswitch delta low high deltas =>
      obtain rfl := List.singleton_inj.mp single
      simp only [Machine.act, Machine.switch]
      cases frame.stack with
      | nil => rfl
      | cons value rest =>
          simp only [Option.map_map, selected_tableswitch]
          rfl
  | lookupswitch delta pairs =>
      obtain rfl := List.singleton_inj.mp single
      simp only [Machine.act, Machine.switch]
      cases frame.stack with
      | nil => rfl
      | cons value rest =>
          simp only [Option.map_map, selected_lookupswitch]
          rfl

theorem within_relocated (machine : Machine Value World Result) {instruction other : Instruction}
    (needed : ∀ {opcode delta}, instruction = .jump opcode delta →
      widening position = 0 ∨ widening position = branchWidening opcode)
    (single : relocated ci mi listing widening (position, instruction) = [other])
    {frame : Frame Value World} {effect : Effect Value World Result} {larger : ℕ}
    (fits : limit ≤ larger)
    (acted : Acts.within machine.act limit instruction frame = some effect) :
    Acts.within machine.act larger other frame =
      some (effect.moved (newDelta ci mi listing widening position)) := by
  refine Acts.within_mono fits ?_
  rcases Option.bind_eq_some_iff.mp acted with ⟨result, did, allowed⟩
  rw [Acts.within, act_relocated machine needed single, did, Option.map_some, Option.bind_some,
    Effect.within_moved, allowed, Option.map_some]

/-- A conditional branch that is widened becomes its inverse over a wide branch. -/
theorem relocated_single_or_pair {instruction : Instruction}
    (needed : ∀ {opcode delta}, instruction = .jump opcode delta →
      widening position = 0 ∨ widening position = branchWidening opcode) :
    (∃ other, relocated ci mi listing widening (position, instruction) = [other]) ∨
      ∃ opcode delta, instruction = .jump opcode delta ∧ opcode ∉ Opcode.unconditional ∧
        relocated ci mi listing widening (position, instruction) =
          [.jump (inverse opcode) (3 + 5),
            .jumpWide Opcode.goto_w (newDelta ci mi listing widening position delta - 3)] := by
  cases instruction with
  | jump opcode delta =>
      simp only [relocated]
      by_cases narrow : widening position = 0
      · exact Or.inl ⟨_, if_pos narrow⟩
      have widened := (needed rfl).resolve_left narrow
      by_cases direct : opcode ∈ Opcode.unconditional
      · rw [branchWidening, if_pos direct] at widened
        exact Or.inl ⟨_, by rw [if_neg narrow, if_pos widened]⟩
      · rw [branchWidening, if_neg direct] at widened
        refine Or.inr ⟨opcode, delta, rfl, direct, ?_⟩
        rw [if_neg narrow, if_neg (by omega)]
  | _ => exact Or.inl ⟨_, rfl⟩

theorem switch_eq_some {instruction : Instruction} {frame after : Frame Value World} {delta : ℤ}
    (switched : machine.switch instruction frame = some (.jump delta after)) :
    ∃ key, delta = selected key instruction := by
  simp only [Machine.switch] at switched
  split at switched
  · rcases Option.map_eq_some_iff.mp switched with ⟨key, _, isJump⟩
    exact ⟨key, (Effect.jump.inj isJump).1.symm⟩
  · simp at switched

/-- A jump goes to one of the targets of its instruction. -/
theorem act_targets {instruction : Instruction} {frame after : Frame Value World} {delta : ℤ}
    (acted : machine.act instruction frame = some (.jump delta after)) :
    (position : ℤ) + delta ∈ instruction.targets position := by
  cases instruction with
  | plain opcode operands => exact absurd acted (machine.falls _ _ _ _)
  | wide opcode operands => exact absurd acted (machine.falls _ _ _ _)
  | jump opcode offset =>
      simp only [Machine.act] at acted
      have same : offset = delta := by
        split at acted
        · simp only [Option.some.injEq, Effect.jump.injEq] at acted
          exact acted.1
        · rcases Option.map_eq_some_iff.mp acted with ⟨result, _, isJump⟩
          split at isJump
          · exact (Effect.jump.inj isJump).1
          · simp at isJump
      subst same
      exact List.mem_cons_self
  | jumpWide opcode offset =>
      simp only [Machine.act, Option.ite_none_right_eq_some, Option.some.injEq,
        Effect.jump.injEq] at acted
      obtain ⟨_, rfl, _⟩ := acted
      exact List.mem_cons_self
  | tableswitch offset low high deltas =>
      rcases switch_eq_some acted with ⟨key, rfl⟩
      simp only [selected, Instruction.targets]
      split
      · cases found : deltas[(key - low).toNat]? with
        | none => exact List.mem_cons_self
        | some entry =>
            exact List.mem_cons_of_mem _ (List.mem_map_of_mem (List.mem_of_getElem? found))
      · exact List.mem_cons_self
  | lookupswitch offset pairs =>
      rcases switch_eq_some acted with ⟨key, rfl⟩
      simp only [selected, Instruction.targets]
      cases found : pairs.find? fun pair => pair.1 == key with
      | none => exact List.mem_cons_self
      | some pair =>
          exact List.mem_cons_of_mem _ (List.mem_map_of_mem
            (f := fun pair : ℤ × ℤ => (position : ℤ) + pair.2) (List.mem_of_find?_eq_some found))

end Moving

section Blocks

variable {ci : CrwClassImage} {mi : MethodImage} {listing : Listing} {widening : ℕ → ℤ}
  {lengths : OpcodeLengths} {code : List UInt8} {stop : ℕ}

/-- Where a part of the instructions ends in the new code. -/
theorem Widened.newPlace_part (widened : Widened ci mi listing widening)
    (lists : Lists lengths code 0 listing stop) {part : Listing} {first last : ℕ}
    (chain : Chain Instruction.size first part last) (inside : ∀ entry ∈ part, entry ∈ listing) :
    newPlace ci mi listing widening last = newPlace ci mi listing widening first +
      (encodeAll (newPlace ci mi listing widening first)
        (part.flatMap (block ci mi listing widening))).length := by
  induction part generalizing first with
  | nil =>
      obtain rfl : first = last := chain
      rfl
  | cons entry rest step =>
      rcases entry with ⟨start, instruction⟩
      rcases chain with ⟨rfl, restChain⟩
      have next := widened.newPlace_next lists (inside _ List.mem_cons_self)
      have restEnd := step restChain fun entry found => inside entry (List.mem_cons_of_mem _ found)
      rw [List.flatMap_cons, encodeAll_append, List.length_append, ← Nat.add_assoc, ← next]
      exact restEnd

theorem newPlace_zero (lists : Lists lengths code 0 listing stop) :
    newPlace ci mi listing widening 0 = (entryCode ci mi).length := by
  rw [newPlace, @newPosition_zero ci mi listing widening lengths code stop lists,
    Int.toNat_natCast]

/-- What stands for an instruction stands where the instruction has moved. -/
theorem Widened.block_listed (widened : Widened ci mi listing widening)
    (lists : Lists lengths code 0 listing stop) {entry : ℕ × Instruction}
    (listed : entry ∈ listing) :
    ∀ held ∈ listAll (newPlace ci mi listing widening entry.1)
        (block ci mi listing widening entry),
      held ∈ listAll 0 (assembled ci mi listing widening) := by
  rcases List.append_of_mem listed with ⟨before, after, split⟩
  have chain := lists.chain
  rw [split] at chain
  have beforeEnd := widened.newPlace_part lists chain.split.1
    fun entry found => by simp [split, found]
  rw [newPlace_zero lists] at beforeEnd
  have parts : assembled ci mi listing widening =
      (entryInstructions ci mi ++ before.flatMap (block ci mi listing widening)) ++
        (block ci mi listing widening entry ++
          after.flatMap (block ci mi listing widening)) := by
    have flat {contents : ℕ × Instruction → List Instruction} {whole : Listing}
        (same : whole = before ++ entry :: after) : whole.flatMap contents =
          before.flatMap contents ++ (contents entry ++ after.flatMap contents) := by
      rw [same, List.flatMap_append, List.flatMap_cons]
    rw [assembled, flat split, List.append_assoc]
  intro held found
  rw [parts, listAll_append]
  refine List.mem_append_right _ ?_
  rw [encodeAll_append, List.length_append, encodeAll_entry, Nat.zero_add, Nat.zero_add,
    ← beforeEnd, listAll_append]
  exact List.mem_append_left _ found

end Blocks

section Stack

variable (ci : CrwClassImage) (mi : MethodImage) (listing : Listing)

theorem le_foldl_max {needs : ℕ × Instruction → ℕ} (start : ℕ) :
    start ≤ listing.foldl (fun stack entry => max stack (needs entry)) start ∧
      ∀ entry ∈ listing,
        needs entry ≤ listing.foldl (fun stack entry => max stack (needs entry)) start := by
  induction listing generalizing start with
  | nil => exact ⟨Nat.le_refl _, by simp⟩
  | cons first rest step =>
      have restBound := step (max start (needs first))
      refine ⟨(Nat.le_max_left _ _).trans restBound.1, fun entry listed => ?_⟩
      rcases List.mem_cons.mp listed with rfl | inRest
      · exact (Nat.le_max_right _ _).trans restBound.1
      · exact restBound.2 entry inRest

theorem entry_le_neededStack :
    max mi.maxStack (entryStack ci mi) ≤ neededStack ci mi listing :=
  (le_foldl_max listing (max mi.maxStack (entryStack ci mi))).1

theorem maxStack_le_neededStack : mi.maxStack ≤ neededStack ci mi listing :=
  (Nat.le_max_left _ _).trans (entry_le_neededStack ci mi listing)

theorem opcode_le_neededStack {listing : Listing} {entry : ℕ × Instruction}
    (listed : entry ∈ listing) :
    opcodeStack ci mi entry.2.opcode ≤ neededStack ci mi listing :=
  (@le_foldl_max listing (fun entry => opcodeStack ci mi entry.2.opcode) _).2 entry listed

end Stack

section Rewritten

variable {Value : Type u} {World : Type v} {Result : Type w}

/-- A method with a listing of its code, laid out as the rewriter leaves it. -/
structure Instrumented (lengths : OpcodeLengths) (ci : CrwClassImage) (mi : MethodImage)
    (listing : Listing) (widening : ℕ → ℤ) (handlers : List Handler) : Prop where
  lists : Lists lengths (mi.code ci) 0 listing mi.codeLen
  whole : (mi.code ci).length = mi.codeLen
  small : mi.codeLen < 2 ^ 16
  targets : TargetsStart listing
  widened : Widened ci mi listing widening
  differ : TrackersDiffer ci
  covers : ∀ handler ∈ handlers, Boundary listing mi.codeLen handler.startPc ∧
    Boundary listing mi.codeLen handler.endPc
  begins : ∀ handler ∈ handlers, ∃ instruction, (handler.handlerPc, instruction) ∈ listing
  catching : handlers ≠ [] → 0 < mi.maxStack

def oldBody (ci : CrwClassImage) (mi : MethodImage) (handlers : List Handler) : Body :=
  ⟨mi.code ci, handlers⟩

def newBody (ci : CrwClassImage) (mi : MethodImage) (listing : Listing) (widening : ℕ → ℤ)
    (handlers : List Handler) : Body :=
  ⟨encodeAll 0 (assembled ci mi listing widening),
    handlers.map (Handler.mapPc (newPlace ci mi listing widening))⟩

/-- The old method, with the calls of the tracker woven in. -/
def wovenStep (lengths : OpcodeLengths) (ci : CrwClassImage) (mi : MethodImage)
    (handlers : List Handler) (machine : Machine Value World Result)
    (tracker : Tracker Value World) :
    State Value World Result → Option (State Value World Result) :=
  (oldBody ci mi handlers).step lengths machine.catches
    ((trackerHooks ci mi tracker).weave (Acts.within machine.act mi.maxStack))

/-- The new method, with the stack that it asks for. -/
def newStep (lengths : OpcodeLengths) (ci : CrwClassImage) (mi : MethodImage)
    (listing : Listing) (widening : ℕ → ℤ) (handlers : List Handler)
    (machine : Machine Value World Result) :
    State Value World Result → Option (State Value World Result) :=
  (newBody ci mi listing widening handlers).step lengths machine.catches
    (Acts.within machine.act (neededStack ci mi listing))

/-- The new method is where the instruction has moved, in the same frame. -/
def Related (ci : CrwClassImage) (mi : MethodImage) (listing : Listing) (widening : ℕ → ℤ) :
    State Value World Result → State Value World Result → Prop
  | .running pc frame, image => Boundary listing mi.codeLen pc ∧
      frame.stack.length ≤ mi.maxStack ∧
      image = .running (newPlace ci mi listing widening pc) frame
  | .returned result world, image => image = .returned result world
  | .uncaught exception world, image => image = .uncaught exception world

/-- Where the new method is when the instruction that has moved to a place has had its effect. -/
def Effect.Lands (ci : CrwClassImage) (mi : MethodImage) (listing : Listing) (widening : ℕ → ℤ)
    (handlers : List Handler) (machine : Machine Value World Result) (position place behind : ℕ) :
    Effect Value World Result → State Value World Result → Prop
  | .next frame, image => image = .running behind frame
  | .jump delta frame, image => ∃ start instruction, (position : ℤ) + delta = (start : ℕ) ∧
      (start, instruction) ∈ listing ∧
        image = .running (newPlace ci mi listing widening start) frame
  | .returned result world, image => image = .returned result world
  | .thrown exception locals world, image => image =
      raise machine.catches (newBody ci mi listing widening handlers).handlers place exception
        locals world

variable {lengths : OpcodeLengths} {ci : CrwClassImage} {mi : MethodImage} {listing : Listing}
  {widening : ℕ → ℤ} {handlers : List Handler} {machine : Machine Value World Result}
  {tracker : Tracker Value World} {position : ℕ} {instruction : Instruction}

namespace Instrumented

variable (method : Instrumented lengths ci mi listing widening handlers)

include method

theorem newLists : Lists lengths (newBody ci mi listing widening handlers).code 0
    (listAll 0 (assembled ci mi listing widening))
    (newBody ci mi listing widening handlers).code.length := by
  have listed := @lists_encodeAll lengths 0 (assembled ci mi listing widening) [] rfl
    (method.widened.assembled_valid method.lists method.small method.targets) []
  rwa [Nat.zero_add, List.append_nil, List.nil_append] at listed

theorem newPlace_le_iff {place later : ℕ} (boundary : Boundary listing mi.codeLen place)
    (laterBoundary : Boundary listing mi.codeLen later) :
    newPlace ci mi listing widening place ≤ newPlace ci mi listing widening later ↔
      place ≤ later := by
  have here := method.widened.newPlace_cast method.lists boundary
  have there := method.widened.newPlace_cast method.lists laterBoundary
  have forward := method.widened.newPosition_lt method.lists boundary laterBoundary
  have backward := method.widened.newPosition_lt method.lists laterBoundary boundary
  rcases Nat.lt_trichotomy place later with less | rfl | greater
  · have moved := forward less
    omega
  · simp
  · have moved := backward greater
    omega

theorem boundary_next (listed : (position, instruction) ∈ listing) :
    Boundary listing mi.codeLen (position + instruction.size position) := by
  rcases List.append_of_mem listed with ⟨before, after, rfl⟩
  have parts := method.lists.chain.split
  rcases after with _ | ⟨⟨start, other⟩, rest⟩
  · exact Or.inl parts.2
  · obtain rfl := parts.2.1
    exact Or.inr ⟨other, by simp⟩

/-- An exception goes to the handler that the old method has for the instruction. -/
theorem related_raise (listed : (position, instruction) ∈ listing) {place : ℕ}
    (from_ : newPlace ci mi listing widening position ≤ place)
    (to_ : place < newPlace ci mi listing widening (position + instruction.size position))
    (exception : Value) (locals : ℕ → Value) (world : World) :
    Related ci mi listing widening
      (raise machine.catches handlers position exception locals world :
        State Value World Result)
      (raise machine.catches (newBody ci mi listing widening handlers).handlers place exception
        locals world) := by
  have positive := instruction.size_pos position
  have next := method.boundary_next listed
  have here : Boundary listing mi.codeLen position := Or.inr ⟨instruction, listed⟩
  have ends {bound : ℕ} (boundary : Boundary listing mi.codeLen bound) (behind : position < bound) :
      position + instruction.size position ≤ bound := by
    rcases boundary with rfl | ⟨other, otherListed⟩
    · exact (method.lists.chain.bounds listed).2
    · exact method.lists.chain.ends_before listed otherListed behind
  have covered : ∀ handler ∈ handlers,
      decide ((handler.mapPc (newPlace ci mi listing widening)).startPc ≤ place ∧
        place < (handler.mapPc (newPlace ci mi listing widening)).endPc) =
          decide (handler.startPc ≤ position ∧ position < handler.endPc) := by
    intro handler found
    rcases method.covers handler found with ⟨startBoundary, endBoundary⟩
    have startHere := method.newPlace_le_iff startBoundary here
    have startNext := method.newPlace_le_iff next startBoundary
    have endHere := method.newPlace_le_iff endBoundary here
    have endNext := method.newPlace_le_iff next endBoundary
    have startEnds := @ends handler.startPc startBoundary
    have endEnds := @ends handler.endPc endBoundary
    rw [decide_eq_decide]
    simp only [Handler.mapPc]
    omega
  have same : (handlers.map (Handler.mapPc (newPlace ci mi listing widening))).find? (fun handler =>
      decide (handler.startPc ≤ place ∧ place < handler.endPc) &&
        machine.catches handler.catchType exception world) =
      (handlers.find? fun handler =>
        decide (handler.startPc ≤ position ∧ position < handler.endPc) &&
          machine.catches handler.catchType exception world).map
            (Handler.mapPc (newPlace ci mi listing widening)) := by
    rw [List.find?_map]
    refine congrArg (Option.map _) (List.find?_congr fun handler found => ?_)
    rw [Function.comp_apply, covered handler found, Handler.mapPc]
  simp only [raise, newBody, same]
  cases caught : handlers.find? fun handler =>
      decide (handler.startPc ≤ position ∧ position < handler.endPc) &&
        machine.catches handler.catchType exception world with
  | none => rfl
  | some handler =>
      have found := List.mem_of_find?_eq_some caught
      rcases method.begins handler found with ⟨first, firstListed⟩
      exact ⟨Or.inr ⟨first, firstListed⟩, method.catching (List.ne_nil_of_mem found), rfl⟩

/-- Where an instruction stands in the new code, behind what is injected before it. -/
theorem parts_listed (listed : (position, instruction) ∈ listing) :
    let place := newPlace ci mi listing widening position
    let opcodePlace := place +
      (encodeAll place (beforeInstructions ci mi instruction.opcode)).length
    let relocation := relocated ci mi listing widening (position, instruction)
    let behind := opcodePlace + (encodeAll opcodePlace relocation).length
    (∀ held ∈ listAll place (beforeInstructions ci mi instruction.opcode),
      held ∈ listAll 0 (assembled ci mi listing widening)) ∧
    (∀ held ∈ listAll opcodePlace relocation,
      held ∈ listAll 0 (assembled ci mi listing widening)) ∧
    (∀ held ∈ listAll behind (afterInstructions ci mi instruction.opcode),
      held ∈ listAll 0 (assembled ci mi listing widening)) ∧
    behind + (encodeAll behind (afterInstructions ci mi instruction.opcode)).length =
      newPlace ci mi listing widening (position + instruction.size position) := by
  intro place opcodePlace relocation behind
  have all := method.widened.block_listed method.lists listed
  have next := method.widened.newPlace_next method.lists listed
  simp only [block, listAll_append, encodeAll_append, List.length_append, ← Nat.add_assoc]
    at all next
  refine ⟨fun held found => all held (List.mem_append_left _ found), fun held found => ?_,
    fun held found => ?_, next.symm⟩
  · exact all held (List.mem_append_right _ (List.mem_append_left _ found))
  · exact all held (List.mem_append_right _ (List.mem_append_right _ found))

/-- Only in front of an instruction that does not jump something is injected. -/
theorem opcodePlace_of_target (listed : (position, instruction) ∈ listing)
    {target : ℤ} (isTarget : target ∈ instruction.targets position) :
    beforeInstructions ci mi instruction.opcode = [] := by
  by_contra injects
  rcases plain_of_before (method.lists.valid _ listed) injects with ⟨opcode, operands, rfl⟩
  simp [Instruction.targets] at isTarget

/-- The target of a jump has moved to where the new offset goes. -/
theorem newDelta_target (listed : (position, instruction) ∈ listing) {delta : ℤ}
    (isTarget : (position : ℤ) + delta ∈ instruction.targets position) :
    ∃ start other, (position : ℤ) + delta = (start : ℕ) ∧ (start, other) ∈ listing ∧
      (newPlace ci mi listing widening position : ℤ) +
        newDelta ci mi listing widening position delta = newPlace ci mi listing widening start := by
  rcases method.targets _ listed _ isTarget with ⟨start, other, isStart, otherListed⟩
  have here := method.widened.newPlace_cast method.lists (Or.inr ⟨instruction, listed⟩)
  have there := method.widened.newPlace_cast method.lists (Or.inr ⟨other, otherListed⟩)
  refine ⟨start, other, isStart, otherListed, ?_⟩
  rw [newDelta, isStart, Int.toNat_natCast, here, there]
  omega

/-- The inverse branch over a wide branch goes where the branch goes. -/
theorem reaches_pair {opcode : ℕ} {delta : ℤ} (listed : (position, .jump opcode delta) ∈ listing)
    (conditional : opcode ∉ Opcode.unconditional)
    (pair : relocated ci mi listing widening (position, .jump opcode delta) =
      [.jump (inverse opcode) (3 + 5),
        .jumpWide Opcode.goto_w (newDelta ci mi listing widening position delta - 3)])
    {frame after : Frame Value World} {taken : Bool}
    (tested : machine.condition opcode frame.stack = some (taken, after.stack))
    (same : after = frame.withStack after.stack)
    (room : after.stack.length ≤ neededStack ci mi listing) :
    let place := newPlace ci mi listing widening position
    let step := newStep lengths ci mi listing widening handlers machine
    if taken then ∃ start other, (position : ℤ) + delta = (start : ℕ) ∧
        (start, other) ∈ listing ∧ Reaches₁ step (.running place frame)
          (.running (newPlace ci mi listing widening start) after)
    else Reaches₁ step (.running place frame) (.running (place + 8) after) := by
  intro place step
  have parts := (method.parts_listed listed).2.1
  have noBefore := method.opcodePlace_of_target listed
    (show (position : ℤ) + delta ∈ (Instruction.jump opcode delta).targets position from
      List.mem_cons_self)
  have valid := (method.lists.valid _ listed).1
  have noGoto : inverse opcode ≠ Opcode.goto := by
    have all : Opcode.shortBranches.all (fun opcode => opcode ∉ Opcode.unconditional →
        inverse opcode ≠ Opcode.goto) = true := by decide
    exact of_decide_eq_true (List.all_eq_true.mp all opcode valid) conditional
  simp only [noBefore, encodeAll, List.length_nil, Nat.add_zero, pair, listAll,
    Instruction.size] at parts
  have inverseStep := @step_of_listed Value World Result lengths
    (newBody ci mi listing widening handlers) machine.catches
    (Acts.within machine.act (neededStack ci mi listing)) _ _ place method.newLists _
    (parts _ List.mem_cons_self) frame
  have wideStep := @step_of_listed Value World Result lengths
    (newBody ci mi listing widening handlers) machine.catches
    (Acts.within machine.act (neededStack ci mi listing)) _ _ (place + 3) method.newLists _
    (parts _ (List.mem_cons_of_mem _ List.mem_cons_self)) after
  have inverseActs : Acts.within machine.act (neededStack ci mi listing)
      (.jump (inverse opcode) (3 + 5)) frame =
        some (if taken then .next after else .jump (3 + 5) after) := by
    simp only [Acts.within, Machine.act, if_neg noGoto,
      machine.condition_inverse valid conditional, tested, Option.map_some, Option.bind_some,
      ← same]
    cases taken <;> simp [Effect.within, room]
  have wideActs : Acts.within machine.act (neededStack ci mi listing)
      (.jumpWide Opcode.goto_w (newDelta ci mi listing widening position delta - 3)) after =
        some (.jump (newDelta ci mi listing widening position delta - 3) after) := by
    simp [Acts.within, Machine.act, Effect.within, room]
  rw [inverseActs, Option.bind_some] at inverseStep
  rw [wideActs, Option.bind_some] at wideStep
  cases taken with
  | true =>
      rcases method.newDelta_target listed
        (show (position : ℤ) + delta ∈ (Instruction.jump opcode delta).targets position from
          List.mem_cons_self) with ⟨start, target, isStart, startListed, moved⟩
      refine ⟨start, target, isStart, startListed,
        TransGen.head (inverseStep.trans ?_) (TransGen.single (wideStep.trans ?_))⟩
      · rfl
      · exact resolve_jump (by omega) after
  | false => exact TransGen.single (inverseStep.trans (resolve_jump (by omega) after))

/-- What stands for an instruction, without what is injected, does what the instruction does. -/
theorem reaches_relocated (listed : (position, instruction) ∈ listing)
    {frame : Frame Value World} {effect : Effect Value World Result}
    (acted : Acts.within machine.act mi.maxStack instruction frame = some effect) :
    let place := newPlace ci mi listing widening position
    let opcodePlace := place +
      (encodeAll place (beforeInstructions ci mi instruction.opcode)).length
    let behind := opcodePlace + (encodeAll opcodePlace
      (relocated ci mi listing widening (position, instruction))).length
    ∃ image,
      effect.Lands ci mi listing widening handlers machine position opcodePlace behind image ∧
      Reaches₁ (newStep lengths ci mi listing widening handlers machine)
        (.running opcodePlace frame) image := by
  intro place opcodePlace behind
  have parts := (method.parts_listed listed).2.1
  have enough := maxStack_le_neededStack ci mi listing
  have needed : ∀ {opcode delta}, instruction = .jump opcode delta →
      widening position = 0 ∨ widening position = branchWidening opcode := by
    rintro opcode delta rfl
    exact method.widened.needed _ listed
  have offBefore {delta : ℤ} {after : Frame Value World}
      (isJump : machine.act instruction frame = some (.jump delta after)) :
      opcodePlace = place := by
    simp only [opcodePlace, method.opcodePlace_of_target listed (act_targets isJump), encodeAll,
      List.length_nil, Nat.add_zero]
  rcases Option.bind_eq_some_iff.mp acted with ⟨did, acts, allowed⟩
  obtain rfl := Effect.within_eq_some allowed
  rcases @relocated_single_or_pair ci mi listing widening position instruction needed with
    ⟨other, single⟩ | ⟨opcode, delta, rfl, conditional, pair⟩
  · have moved := within_relocated machine needed single enough acted
    have here := parts (opcodePlace, other) (by rw [single]; exact List.mem_cons_self)
    have stepped := @step_of_listed Value World Result lengths
      (newBody ci mi listing widening handlers) machine.catches
      (Acts.within machine.act (neededStack ci mi listing)) _ _ opcodePlace method.newLists other
      here frame
    rw [moved, Option.bind_some] at stepped
    have length : behind = opcodePlace + other.size opcodePlace := by
      simp only [behind, single, encodeAll, List.append_nil, Instruction.length_encode]
    cases did with
    | next after => exact ⟨_, rfl, TransGen.single (length ▸ stepped)⟩
    | jump delta after =>
        rcases method.newDelta_target listed (act_targets acts) with
          ⟨start, target, isStart, startListed, same⟩
        refine ⟨_, ⟨start, target, isStart, startListed, rfl⟩,
          TransGen.single (stepped.trans ?_)⟩
        rw [offBefore acts]
        exact resolve_jump same after
    | returned result world => exact ⟨_, rfl, TransGen.single stepped⟩
    | thrown exception locals world => exact ⟨_, rfl, TransGen.single stepped⟩
  · have noGoto : opcode ≠ Opcode.goto := by
      rintro rfl
      exact conditional (by decide)
    simp only [Machine.act, if_neg noGoto] at acts
    rcases Option.map_eq_some_iff.mp acts with ⟨⟨taken, stack⟩, tested, isEffect⟩
    have room : stack.length ≤ neededStack ci mi listing := by
      refine Nat.le_trans ?_ enough
      cases taken <;> simp only [if_true, Bool.false_eq_true, if_false] at isEffect <;>
        subst isEffect <;> exact (Option.ite_none_right_eq_some.mp allowed).1
    have reached := @reaches_pair Value World Result lengths ci mi listing widening handlers machine
      position method opcode delta listed conditional pair frame (frame.withStack stack) taken
      tested rfl room
    have noBefore : opcodePlace = place := by
      simp only [opcodePlace, method.opcodePlace_of_target listed
        (show (position : ℤ) + delta ∈ (Instruction.jump opcode delta).targets position from
          List.mem_cons_self), encodeAll, List.length_nil, Nat.add_zero]
    have length : behind = place + 8 := by
      simp only [behind, noBefore, pair]
      rfl
    rw [length, noBefore]
    cases taken with
    | true =>
        simp only [if_true] at isEffect reached
        subst isEffect
        rcases reached with ⟨start, other, isStart, startListed, reached⟩
        exact ⟨_, ⟨start, other, isStart, startListed, rfl⟩, reached⟩
    | false =>
        simp only [Bool.false_eq_true, if_false] at isEffect reached
        subst isEffect
        exact ⟨_, rfl, reached⟩

/-- What is injected before an instruction ends at the instruction or in its handler. -/
theorem reaches_before (runs : Runs machine ci tracker) (listed : (position, instruction) ∈ listing)
    {frame : Frame Value World} (room : frame.stack.length ≤ mi.maxStack) :
    let place := newPlace ci mi listing widening position
    let step := newStep lengths ci mi listing widening handlers machine
    match (trackerHooks ci mi tracker).before instruction frame.world with
    | .back world => Reaches step (.running place frame)
        (.running (place + (encodeAll place
          (beforeInstructions ci mi instruction.opcode)).length) (frame.withWorld world))
    | .threw exception world => ∃ image,
        Related ci mi listing widening
          (raise machine.catches handlers position exception frame.locals world) image ∧
        Reaches₁ step (.running place frame) image := by
  intro place step
  have ran := all_before runs method.differ instruction room
    (maxStack_le_neededStack ci mi listing) (opcode_le_neededStack ci mi listed)
  have parts := method.parts_listed listed
  have reaches := @reaches_all Value World Result lengths
    (newBody ci mi listing widening handlers) machine.catches
    (Acts.within machine.act (neededStack ci mi listing)) _ _ place method.newLists _ parts.1 frame
  cases called : (trackerHooks ci mi tracker).before instruction frame.world with
  | back world =>
      rw [called] at ran
      exact reaches.1 ran
  | threw exception world =>
      rw [called] at ran
      rcases reaches.2 ran with ⟨other, from_, to_, reached⟩
      refine ⟨_, method.related_raise listed from_ ?_ exception frame.locals world, reached⟩
      have ends := parts.2.2.2
      simp only [place] at to_
      omega

/-- What is injected after an instruction ends behind it or in its handler. -/
theorem reaches_after (runs : Runs machine ci tracker) (listed : (position, instruction) ∈ listing)
    {frame : Frame Value World} (room : frame.stack.length ≤ mi.maxStack)
    {effect : Effect Value World Result} {next : State Value World Result}
    (after : (trackerHooks ci mi tracker).after instruction (.next frame) = some effect)
    (resolved : effect.resolve machine.catches handlers position (instruction.size position) =
      some next) :
    let place := newPlace ci mi listing widening position
    let opcodePlace := place +
      (encodeAll place (beforeInstructions ci mi instruction.opcode)).length
    let behind := opcodePlace + (encodeAll opcodePlace
      (relocated ci mi listing widening (position, instruction))).length
    ∃ image, Related ci mi listing widening next image ∧
      Reaches (newStep lengths ci mi listing widening handlers machine)
        (.running behind frame) image := by
  intro place opcodePlace behind
  rcases all_after runs instruction room (maxStack_le_neededStack ci mi listing)
    (opcode_le_neededStack ci mi listed) after with ⟨called, rfl, ran⟩
  have parts := method.parts_listed listed
  have reaches := @reaches_all Value World Result lengths
    (newBody ci mi listing widening handlers) machine.catches
    (Acts.within machine.act (neededStack ci mi listing)) _ _ behind method.newLists _
    parts.2.2.1 frame
  have ends : behind + (encodeAll behind (afterInstructions ci mi instruction.opcode)).length =
    newPlace ci mi listing widening (position + instruction.size position) := parts.2.2.2
  cases called with
  | back world =>
      obtain rfl := Option.some.inj resolved
      refine ⟨_, ⟨method.boundary_next listed, room, rfl⟩, ?_⟩
      rw [← ends]
      exact reaches.1 ran
  | threw exception world =>
      obtain rfl := Option.some.inj resolved
      rcases reaches.2 ran with ⟨other, from_, to_, reached⟩
      refine ⟨_, method.related_raise listed ?_ ?_ exception frame.locals world,
        reached.to_reflTransGen⟩ <;> omega

/-- Something stands for every instruction. -/
theorem relocated_pos (listed : (position, instruction) ∈ listing) (place : ℕ) :
    0 < (encodeAll place (relocated ci mi listing widening (position, instruction))).length := by
  have needed : ∀ {opcode delta}, instruction = .jump opcode delta →
      widening position = 0 ∨ widening position = branchWidening opcode := by
    rintro opcode delta rfl
    exact method.widened.needed _ listed
  rcases @relocated_single_or_pair ci mi listing widening position instruction needed with
    ⟨other, single⟩ | ⟨opcode, delta, rfl, _, pair⟩
  · have positive := other.size_pos place
    rw [single, encodeAll, List.length_append, Instruction.length_encode]
    omega
  · rw [pair]
    exact Nat.zero_lt_succ _

/-- One step of the woven method is one or more steps of the new method. -/
theorem forward_running (runs : Runs machine ci tracker) {frame : Frame Value World}
    (listed : (position, instruction) ∈ listing) (room : frame.stack.length ≤ mi.maxStack)
    {effect : Effect Value World Result} {next : State Value World Result}
    (woven : (trackerHooks ci mi tracker).weave (Acts.within machine.act mi.maxStack)
      instruction frame = some effect)
    (resolved : effect.resolve machine.catches handlers position (instruction.size position) =
      some next) :
    ∃ image, Related ci mi listing widening next image ∧
      Reaches₁ (newStep lengths ci mi listing widening handlers machine)
        (.running (newPlace ci mi listing widening position) frame) image := by
  have before := method.reaches_before runs listed room
  rw [Hooks.weave] at woven
  cases called : (trackerHooks ci mi tracker).before instruction frame.world with
  | threw exception world =>
      simp only [called, Option.some.injEq] at before woven
      subst woven
      obtain rfl := Option.some.inj resolved
      exact before
  | back world =>
      simp only [called] at before woven
      rcases Option.bind_eq_some_iff.mp woven with ⟨did, acted, after⟩
      rcases method.reaches_relocated listed acted with ⟨image, lands, relocation⟩
      have reached := TransGen.trans_right before relocation
      cases did with
      | next last =>
          obtain rfl : image = _ := lands
          rcases method.reaches_after runs listed (Acts.room_next acted) after resolved with
            ⟨image, isRelated, reachedAfter⟩
          exact ⟨image, isRelated, TransGen.trans_left reached reachedAfter⟩
      | jump delta last =>
          obtain rfl := Option.some.inj after
          rcases lands with ⟨start, other, isStart, startListed, rfl⟩
          rw [resolve_jump isStart] at resolved
          obtain rfl := Option.some.inj resolved
          exact ⟨_, ⟨Or.inr ⟨other, startListed⟩, Acts.room_jump acted, rfl⟩, reached⟩
      | returned result last =>
          obtain rfl := Option.some.inj after
          obtain rfl := Option.some.inj resolved
          obtain rfl : image = _ := lands
          exact ⟨_, rfl, reached⟩
      | thrown exception locals last =>
          obtain rfl := Option.some.inj after
          obtain rfl := Option.some.inj resolved
          obtain rfl : image = _ := lands
          have ends := (method.parts_listed listed).2.2.2
          have positive := method.relocated_pos listed (newPlace ci mi listing widening position +
            (encodeAll (newPlace ci mi listing widening position)
              (beforeInstructions ci mi instruction.opcode)).length)
          refine ⟨_, method.related_raise listed (Nat.le_add_right _ _) ?_ exception locals last,
            reached⟩
          omega

theorem decodeAt_stop : decodeAt lengths (mi.code ci) mi.codeLen = none := by
  by_contra decodes
  rcases Option.ne_none_iff_exists'.mp decodes with ⟨instruction, decoded⟩
  have inside := (decodeAt_eq_some_iff.mp decoded).2.size_le
  have positive := instruction.size_pos mi.codeLen
  have whole := method.whole
  omega

/-- The new method simulates the woven one. -/
theorem forward (runs : Runs machine ci tracker) :
    Simulation.Forward (wovenStep lengths ci mi handlers machine tracker)
      (newStep lengths ci mi listing widening handlers machine) State.IsFinal
      (Related ci mi listing widening) where
  step {state image next} isRelated _ stepped := by
    cases state with
    | returned result world => simp [wovenStep, Body.step] at stepped
    | uncaught exception world => simp [wovenStep, Body.step] at stepped
    | running pc frame =>
        rcases isRelated with ⟨rfl | ⟨instruction, listed⟩, room, rfl⟩
        · have stopped := method.decodeAt_stop
          simp [wovenStep, Body.step, oldBody, stopped] at stepped
        · have carried := @step_of_listed Value World Result lengths (oldBody ci mi handlers)
            machine.catches ((trackerHooks ci mi tracker).weave
              (Acts.within machine.act mi.maxStack)) listing mi.codeLen pc method.lists instruction
            listed frame
          rcases Option.bind_eq_some_iff.mp (carried.symm.trans stepped) with
            ⟨effect, woven, resolved⟩
          exact method.forward_running runs listed room woven resolved
  stop {state image} isRelated ended := by
    cases state with
    | running pc frame => exact ended.elim
    | returned result world =>
        obtain rfl : image = _ := isRelated
        rfl
    | uncaught exception world =>
        obtain rfl : image = _ := isRelated
        rfl

/-- The new method starts with the calls of the entry, which no handler covers. -/
theorem reaches_entry (runs : Runs machine ci tracker) {frame : Frame Value World}
    (room : frame.stack.length ≤ mi.maxStack) :
    ∃ image, Related ci mi listing widening ((trackerHooks ci mi tracker).enter frame) image ∧
      Reaches (newStep lengths ci mi listing widening handlers machine) (.running 0 frame)
        image := by
  have ran := all_entry runs method.differ room (entry_le_neededStack ci mi listing)
  have inside : ∀ held ∈ listAll 0 (entryInstructions ci mi),
      held ∈ listAll 0 (assembled ci mi listing widening) := fun held found => by
    rw [assembled, listAll_append]
    exact List.mem_append_left _ found
  have reaches := @reaches_all Value World Result lengths
    (newBody ci mi listing widening handlers) machine.catches
    (Acts.within machine.act (neededStack ci mi listing)) _ _ 0 method.newLists _ inside frame
  have start : newPlace ci mi listing widening 0 = (entryCode ci mi).length :=
    newPlace_zero method.lists
  rw [Hooks.enter]
  cases called : (trackerHooks ci mi tracker).atEntry frame.locals frame.world with
  | back world =>
      rw [called] at ran
      refine ⟨_, ⟨method.lists.boundary_zero, room, rfl⟩, ?_⟩
      have reached := reaches.1 ran
      rwa [encodeAll_entry, Nat.zero_add, ← start] at reached
  | threw exception world =>
      rw [called] at ran
      rcases reaches.2 ran with ⟨place, _, to_, reached⟩
      rw [encodeAll_entry, Nat.zero_add, ← start] at to_
      have uncovered : (raise machine.catches
          (newBody ci mi listing widening handlers).handlers place exception frame.locals world :
            State Value World Result) = .uncaught exception world := by
        have noHandler : (newBody ci mi listing widening handlers).handlers.find? (fun handler =>
            decide (handler.startPc ≤ place ∧ place < handler.endPc) &&
              machine.catches handler.catchType exception world) = none := by
          refine List.find?_eq_none.mpr fun handler found covers => ?_
          rcases List.mem_map.mp found with ⟨old, oldFound, rfl⟩
          have behind := (method.newPlace_le_iff method.lists.boundary_zero
            (method.covers old oldFound).1).mpr (Nat.zero_le _)
          have covered := (of_decide_eq_true (Bool.and_eq_true_iff.mp covers).1).1
          simp only [Handler.mapPc] at covered
          omega
        rw [raise, noHandler]
      rw [uncovered] at reached
      exact ⟨_, rfl, reached.to_reflTransGen⟩

/-- The new method comes to what the woven method comes to, and diverges where it diverges. -/
theorem eval_eq (runs : Runs machine ci tracker) {frame : Frame Value World}
    (room : frame.stack.length ≤ mi.maxStack)
    (safe : Simulation.Safe (wovenStep lengths ci mi handlers machine tracker) State.IsFinal
      ((trackerHooks ci mi tracker).enter frame)) :
    eval (newStep lengths ci mi listing widening handlers machine) (.running 0 frame) =
      eval (wovenStep lengths ci mi handlers machine tracker)
        ((trackerHooks ci mi tracker).enter frame) := by
  rcases method.reaches_entry runs room with ⟨image, isRelated, reached⟩
  have simulates := method.forward runs
  have final_eq {result imageResult : State Value World Result} (final : result.IsFinal)
      (resultRelated : Related ci mi listing widening result imageResult) :
      imageResult = result := by
    cases result with
    | running pc last => exact final.elim
    | returned value world => exact resultRelated
    | uncaught exception world => exact resultRelated
  rw [reaches_eval reached]
  refine Part.ext fun result => ⟨fun evaluates => ?_, fun evaluates => ?_⟩
  · rcases simulates.eval_rev isRelated safe evaluates with ⟨old, oldRelated, oldEvaluates⟩
    have ended := mem_eval.mp oldEvaluates
    rwa [final_eq (safe old ended.1 ended.2) oldRelated]
  · rcases simulates.eval isRelated safe evaluates with ⟨new, newRelated, newEvaluates⟩
    have ended := mem_eval.mp evaluates
    rwa [final_eq (safe result ended.1 ended.2) newRelated] at newEvaluates

end Instrumented

end Rewritten

end HeapScan.ClassFile
