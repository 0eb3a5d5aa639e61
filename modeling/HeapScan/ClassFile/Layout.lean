import HeapScan.ClassFile.Injection
import HeapScan.Library.Relocation

/-!
# Where the code goes

A method is laid out by what is injected at its instructions and by how far each of them is
widened.  The first walk reaches the layout in which nothing is widened; every change of the
second walk leads from one layout to another.  So `map` is never an accident of the order in
which it was changed: an old position moves by the code that is injected at the entry and by
what every instruction that ends in front of it has grown.
-/

namespace HeapScan.ClassFile

open BigEndian CrwClassImage Relocation

/-- The instructions of the code with their positions. -/
abbrev Listing := List (ℕ × Instruction)

/-- The instructions stand one behind another in the code. -/
structure Lists (lengths : OpcodeLengths) (code : List UInt8) (position : ℕ) (listing : Listing)
    (stop : ℕ) : Prop where
  chain : Chain Instruction.size position listing stop
  valid : ∀ entry ∈ listing, entry.2.Valid lengths
  stands : ∀ entry ∈ listing, entry.2.StandsAt code entry.1

theorem Lists.cons_iff {lengths : OpcodeLengths} {code : List UInt8} {position stop start : ℕ}
    {instruction : Instruction} {rest : Listing} :
    Lists lengths code position ((start, instruction) :: rest) stop ↔
      start = position ∧ instruction.Valid lengths ∧ instruction.StandsAt code position ∧
        Lists lengths code (position + instruction.size position) rest stop := by
  constructor
  · rintro ⟨⟨begins, chain⟩, valid, stands⟩
    subst begins
    exact ⟨rfl, valid _ List.mem_cons_self, stands _ List.mem_cons_self, chain,
      fun entry listed => valid entry (List.mem_cons_of_mem _ listed),
      fun entry listed => stands entry (List.mem_cons_of_mem _ listed)⟩
  · rintro ⟨rfl, validHere, standsHere, lists⟩
    refine ⟨⟨rfl, lists.chain⟩, fun entry listed => ?_, fun entry listed => ?_⟩
    · rcases List.mem_cons.mp listed with rfl | inRest
      · exact validHere
      · exact lists.valid entry inRest
    · rcases List.mem_cons.mp listed with rfl | inRest
      · exact standsHere
      · exact lists.stands entry inRest

theorem Lists.snoc {lengths : OpcodeLengths} {code : List UInt8} {position start : ℕ}
    {instruction : Instruction} {done : Listing} (lists : Lists lengths code position done start)
    (valid : instruction.Valid lengths) (stands : instruction.StandsAt code start) :
    Lists lengths code position (done ++ [(start, instruction)])
      (start + instruction.size start) where
  chain := Chain.append_iff.mpr ⟨start, lists.chain, rfl, rfl⟩
  valid entry listed := by
    rcases List.mem_append.mp listed with inDone | isNew
    · exact lists.valid entry inDone
    · obtain rfl := List.mem_singleton.mp isNew
      exact valid
  stands entry listed := by
    rcases List.mem_append.mp listed with inDone | isNew
    · exact lists.stands entry inDone
    · obtain rfl := List.mem_singleton.mp isNew
      exact stands

section Definitions

variable (ci : CrwClassImage) (mi : MethodImage) (listing : Listing) (place : ℕ)

/-- What is injected at a place in front of where a jump to it goes. -/
def leading : List UInt8 :=
  (if place = 0 then entryCode ci mi else []) ++
    listing.flatMap fun entry =>
      if entry.1 + entry.2.size entry.1 = place then afterCode ci mi entry.2.opcode else []

/-- What is injected at a place that a jump to it runs. -/
def trailing : List UInt8 :=
  listing.flatMap fun entry =>
    if entry.1 = place then beforeCode ci mi entry.2.opcode else []

/-- How many bytes there are more from the start of an instruction to its end. -/
def growth (widening : ℕ → ℤ) (position : ℕ) (instruction : Instruction) : ℤ :=
  (beforeCode ci mi instruction.opcode).length +
    (afterCode ci mi instruction.opcode).length + widening position

/-- Where a jump to an old position goes. -/
def newPosition (widening : ℕ → ℤ) : ℤ :=
  place + (entryCode ci mi).length +
    shift Instruction.size (growth ci mi widening) listing place

/-- The stack that the method needs with what is injected at an opcode. -/
def opcodeStack (opcode : ℕ) : ℕ := max (beforeStack ci mi opcode) (afterStack ci mi opcode)

/-- The stack that the method needs with everything that is injected. -/
def neededStack : ℕ :=
  listing.foldl (fun stack entry => max stack (opcodeStack ci mi entry.2.opcode))
    (max mi.maxStack (entryStack ci mi))

def injectionsAt (opcode : ℕ) : ℕ :=
  injectionsOf (beforeCode ci mi opcode) + injectionsOf (afterCode ci mi opcode)

/-- How many injections the instructions are counted with. -/
def injectionTotal : ℕ := (listing.map fun entry => injectionsAt ci mi entry.2.opcode).sum

/-- The method with everything injected at the listed instructions and some of it widened. -/
def laidOut (widening : ℕ → ℤ) : MethodImage :=
  { mi with
    map := fun place =>
      if place ≤ mi.codeLen then newPosition ci mi listing place widening else mi.map place
    injections := fun place => leading ci mi listing place ++ trailing ci mi listing place
    widening := widening
    newMaxStack := neededStack ci mi listing }

end Definitions

/-- `method_init` has just run. -/
structure MethodImage.Fresh (mi : MethodImage) : Prop where
  map : ∀ place, mi.map place = place
  injections : ∀ place, mi.injections place = []
  widening : ∀ place, mi.widening place = 0
  stack : mi.newMaxStack = mi.maxStack

section Codes

variable (ci : CrwClassImage) (mi : MethodImage)

theorem length_beforeCode_le (opcode : ℕ) : (beforeCode ci mi opcode).length ≤ 9 := by
  rw [beforeCode]
  split
  · exact length_trackerCall_le ci mi _
  · exact Nat.zero_le _

theorem length_afterCode_le (opcode : ℕ) : (afterCode ci mi opcode).length ≤ 9 := by
  rw [afterCode]
  split
  · exact length_trackerCall_le ci mi _
  · exact Nat.zero_le _

theorem length_entryCode_le : (entryCode ci mi).length ≤ 18 := by
  have object := length_trackerCall_le ci mi ci.indices.objectInitTracker
  have call := length_trackerCall_le ci mi ci.indices.callTracker
  rw [entryCode, List.length_append]
  have none : ([] : List UInt8).length = 0 := rfl
  split <;> split <;> omega

variable {lengths : OpcodeLengths} {code : List UInt8} {stop : ℕ} {done : Listing}

/-- At the end of the listed instructions nothing is injected yet but in front of a jump. -/
theorem trailing_stop (lists : Lists lengths code 0 done stop) : trailing ci mi done stop = [] := by
  refine @flatMap_of_none _ done _ (fun entry => beforeCode ci mi entry.2.opcode)
    (fun entry => entry.1 = stop) _ fun entry listed => ?_
  have bound := (lists.chain.bounds listed).2
  have positive := entry.2.size_pos entry.1
  omega

theorem injections_behind (lists : Lists lengths code 0 done stop) {place : ℕ}
    (behind : stop < place) : leading ci mi done place ++ trailing ci mi done place = [] := by
  have noEnd : ∀ entry ∈ done, ¬ entry.1 + entry.2.size entry.1 = place := fun entry listed => by
    have bound := (lists.chain.bounds listed).2
    omega
  have noStart : ∀ entry ∈ done, ¬ entry.1 = place := fun entry listed => by
    have bound := (lists.chain.bounds listed).2
    omega
  rw [leading, trailing, if_neg (by omega),
    flatMap_of_none (fun entry => afterCode ci mi entry.2.opcode) noEnd,
    flatMap_of_none (fun entry => beforeCode ci mi entry.2.opcode) noStart]
  rfl

/-- In front of a jump there is the entry code or the code after one instruction. -/
theorem length_leading_le (lists : Lists lengths code 0 done stop) (place : ℕ) :
    (leading ci mi done place).length ≤ 18 := by
  have entryBound := length_entryCode_le ci mi
  by_cases ending : ∃ entry ∈ done, entry.1 + entry.2.size entry.1 = place
  · rcases ending with ⟨⟨start, instruction⟩, listed, rfl⟩
    have positive := instruction.size_pos start
    have bound := length_afterCode_le ci mi instruction.opcode
    dsimp only
    rw [leading, if_neg (by omega),
      lists.chain.flatMap_end (fun entry => afterCode ci mi entry.2.opcode)
        (fun start item => item.size_pos start) listed]
    simp only [List.nil_append]
    omega
  · rw [leading, flatMap_of_none (fun entry => afterCode ci mi entry.2.opcode)
      fun entry listed ends => ending ⟨entry, listed, ends⟩, List.append_nil]
    split
    · exact entryBound
    · exact Nat.zero_le _

end Codes

section InjectionWalk

variable {ci : CrwClassImage} {mi : MethodImage} {lengths : OpcodeLengths} {position : ℕ}
  {instruction : Instruction} {done rest : Listing}

def unwidened : ℕ → ℤ := fun _ => 0

theorem newPosition_append (widening : ℕ → ℤ) (place : ℕ) :
    newPosition ci mi (done ++ [(position, instruction)]) place widening =
      newPosition ci mi done place widening +
        if position + instruction.size position ≤ place then
          growth ci mi widening position instruction else 0 := by
  simp only [newPosition, shift_append, shift_cons, shift_nil, Int.add_zero, Int.add_assoc]

theorem leading_append (place : ℕ) : leading ci mi (done ++ [(position, instruction)]) place =
    leading ci mi done place ++ if position + instruction.size position = place then
      afterCode ci mi instruction.opcode else [] := by
  simp [leading]

theorem trailing_append (place : ℕ) : trailing ci mi (done ++ [(position, instruction)]) place =
    trailing ci mi done place ++
      if position = place then beforeCode ci mi instruction.opcode else [] := by
  simp [trailing]

theorem injectionTotal_cons : injectionTotal ci mi ((position, instruction) :: rest) =
    injectionsAt ci mi instruction.opcode + injectionTotal ci mi rest := by
  simp [injectionTotal]

theorem neededStack_append : neededStack ci mi (done ++ [(position, instruction)]) =
    max (neededStack ci mi done) (opcodeStack ci mi instruction.opcode) := by
  simp [neededStack]

/-- Laying out one more instruction stores what is injected there and moves what is behind. -/
theorem laidOut_append (lists : Lists lengths (mi.code ci) 0 done position) :
    laidOut ci mi (done ++ [(position, instruction)]) unwidened =
      (((((laidOut ci mi done unwidened).withStack (opcodeStack ci mi instruction.opcode)
        ).withInjection position (beforeCode ci mi instruction.opcode)
        ).adjustMap (position + instruction.size position)
          (beforeCode ci mi instruction.opcode).length
        ).withInjection (position + instruction.size position)
          (afterCode ci mi instruction.opcode)
        ).adjustMap (position + instruction.size position)
          (afterCode ci mi instruction.opcode).length := by
  have positive := instruction.size_pos position
  have behind := injections_behind ci mi lists (Nat.lt_add_of_pos_right positive)
  simp only [MethodImage.withStack, MethodImage.withInjection, MethodImage.adjustMap, laidOut,
    MethodImage.mk.injEq, true_and, and_true]
  refine ⟨funext fun place => ?_, funext fun place => ?_, neededStack_append⟩
  · rw [newPosition_append, growth, unwidened]
    split_ifs <;> omega
  · rw [leading_append, trailing_append]
    rcases eq_or_ne (position + instruction.size position) place with rfl | notEnd
    · rw [if_pos rfl, if_neg (by omega), Function.update_self,
        Function.update_of_ne (by omega), behind]
      rw [List.append_eq_nil_iff] at behind
      simp only [behind.1, behind.2, List.nil_append, List.append_nil]
    · rw [if_neg notEnd, Function.update_of_ne notEnd.symm, List.append_nil]
      rcases eq_or_ne position place with rfl | notStart
      · rw [if_pos rfl, Function.update_self, List.append_assoc]
      · rw [if_neg notStart, Function.update_of_ne notStart.symm, List.append_nil]

theorem opcode_eq_wide (valid : instruction.Valid lengths)
    (isWide : instruction.opcode = Opcode.wide) :
    ∃ opcode operands, instruction = .wide opcode operands := by
  cases instruction with
  | plain opcode operands => exact absurd isWide valid.1.2.1
  | wide opcode operands => exact ⟨opcode, operands, rfl⟩
  | jump opcode delta => exact absurd isWide (Opcode.ne_of_shortBranch valid.1).1
  | jumpWide opcode delta => exact absurd isWide (Opcode.ne_of_wideBranch valid.1).1
  | tableswitch delta low high deltas => exact absurd isWide (show (170 : ℕ) ≠ 196 by decide)
  | lookupswitch delta pairs => exact absurd isWide (show (171 : ℕ) ≠ 196 by decide)

theorem opcodeRead (reads : ReadsAt mi ci position)
    (stands : instruction.StandsAt (mi.code ci) position) :
    u1 ci.input ci.inputPosition = some instruction.opcode := by
  rw [reads.reads]
  cases instruction <;> exact u1_of_window stands.1

/-- What is done to the method at one instruction. -/
def MethodImage.injected (mi : MethodImage) (ci : CrwClassImage) (position : ℕ)
    (instruction : Instruction) : MethodImage :=
  ((((mi.withStack (opcodeStack ci mi instruction.opcode)
    ).withInjection position (beforeCode ci mi instruction.opcode)
    ).adjustMap (position + instruction.size position) (beforeCode ci mi instruction.opcode).length
    ).withInjection (position + instruction.size position) (afterCode ci mi instruction.opcode)
    ).adjustMap (position + instruction.size position) (afterCode ci mi instruction.opcode).length

theorem run_injectForOpcode_of_not_wide (numbered : Numbered ci) (reads : ReadsAt mi ci position)
    (valid : instruction.Valid lengths) (stands : instruction.StandsAt (mi.code ci) position)
    (notWide : instruction.opcode ≠ Opcode.wide) (room : (mi.injections position).length ≤ 18)
    (unused : mi.injections (position + instruction.size position) = []) :
    ((injectForOpcode lengths).run mi).run ci =
      some (((), mi.injected ci position instruction),
        (ci.counted (injectionsAt ci mi instruction.opcode)).advance
          (instruction.size position)) := by
  have inside := reads.size_le stands
  have positive := instruction.size_pos position
  have offset := reads.offset
  have opcodeFound := opcodeRead reads stands
  let before := beforeCode ci mi instruction.opcode
  let after := afterCode ci mi instruction.opcode
  let stacked := mi.withStack (beforeStack ci mi instruction.opcode)
  let stored := stacked.withInjection position before
  let moved := stored.adjustMap (position + instruction.size position) before.length
  let restacked := moved.withStack (afterStack ci mi instruction.opcode)
  have shortBefore : before.length ≤ 9 := length_beforeCode_le ci mi instruction.opcode
  have shortAfter : after.length ≤ 9 := length_afterCode_le ci mi instruction.opcode
  have beforeRun : ((beforeInjectionCode instruction.opcode (largestInjection + 1)).run mi).run
      (ci.advance 1) = some ((before, stacked), ci.advance 1) :=
    run_beforeInjectionCode mi (show Numbered (ci.advance 1) from numbered) instruction.opcode
  have storeRun : ((whenAny before (injectBytecodes position before)).run stacked).run
      (ci.advance 1) = some (((), stored), (ci.counted (injectionsOf before)).advance 1) :=
    run_injectAny (show position ≤ mi.codeLen by omega) (by omega)
      (show (mi.injections position).length + before.length ≤ 36 by omega)
  have operandsRun : ((readOperands lengths position instruction.opcode).run stored).run
      ((ci.counted (injectionsOf before)).advance 1) =
        some (((), stored), (ci.counted (injectionsOf before)).advance
          (instruction.size position)) :=
    @readOperands_run stored (ci.counted (injectionsOf before)) position lengths
      ⟨reads.whole, reads.small, reads.reads⟩ instruction valid stands notWide
  have moveRun : ((whenAny before
      (adjustMap (position + instruction.size position) before.length)).run stored).run
        ((ci.counted (injectionsOf before)).advance (instruction.size position)) =
          some (((), moved),
            (ci.counted (injectionsOf before)).advance (instruction.size position)) :=
    run_adjustAny stored _ _ before
  have afterRun : ((afterInjectionCode instruction.opcode (largestInjection + 1)).run moved).run
      ((ci.counted (injectionsOf before)).advance (instruction.size position)) =
        some ((after, restacked),
          (ci.counted (injectionsOf before)).advance (instruction.size position)) :=
    @run_afterInjectionCode ((ci.counted (injectionsOf before)).advance
      (instruction.size position)) moved instruction.opcode
  have unusedStill : restacked.injections (position + instruction.size position) = [] := by
    refine (Function.update_of_ne ?_ _ _).trans unused
    omega
  have lastRun := @run_injectAndAdjust
    ((ci.counted (injectionsOf before)).advance (instruction.size position)) restacked
    (position + instruction.size position) after (show _ ≤ mi.codeLen from inside) (by omega)
    (by rw [unusedStill]; simp only [List.length_nil]; omega)
  have behind : (ci.counted (injectionsOf before)).inputPosition + instruction.size position -
      stored.startOfInputBytecodes = position + instruction.size position := by
    have placed : (ci.counted (injectionsOf before)).inputPosition =
      stored.startOfInputBytecodes + position := reads.reads
    omega
  have same : (restacked.withInjection (position + instruction.size position) after).adjustMap
      (position + instruction.size position) after.length =
        mi.injected ci position instruction := by
    rw [MethodImage.injected, opcodeStack, ← MethodImage.withStack_withStack]
    rfl
  simp only [injectForOpcode, StateT.run_bind, run_inputCodeOffset, run_liftM, run_readU1,
    opcodeFound, notWide, offset, beforeRun, storeRun, operandsRun, moveRun, afterRun, lastRun,
    behind, same, advance_inputPosition, if_false, Option.map_some, Option.bind_eq_bind,
    Option.bind_some, CrwClassImage.counted_advance, CrwClassImage.counted_counted]
  rfl

theorem ReadsAt.laidOut (reads : ReadsAt mi ci position) (listing : Listing)
    (widening : ℕ → ℤ) : ReadsAt (laidOut ci mi listing widening) ci position :=
  ⟨reads.whole, reads.small, reads.reads⟩

theorem ReadsAt.counted (reads : ReadsAt mi ci position) (count : ℕ) :
    ReadsAt mi (ci.counted count) position :=
  ⟨reads.whole, reads.small, reads.reads⟩

/-- Walking one instruction lays it out. -/
theorem run_injectForOpcode (numbered : Numbered ci) (reads : ReadsAt mi ci position)
    (lists : Lists lengths (mi.code ci) 0 done position) (valid : instruction.Valid lengths)
    (stands : instruction.StandsAt (mi.code ci) position) :
    ((injectForOpcode lengths).run (laidOut ci mi done unwidened)).run ci =
      some (((), laidOut ci mi (done ++ [(position, instruction)]) unwidened),
        (ci.counted (injectionsAt ci mi instruction.opcode)).advance
          (instruction.size position)) := by
  have laidReads := reads.laidOut done unwidened
  rw [laidOut_append lists]
  by_cases isWide : instruction.opcode = Opcode.wide
  · have noReturn : Opcode.wide ∉ Opcode.returns := by decide
    have noAllocation : Opcode.wide ∉ Opcode.arrayAllocations := by decide
    have opcodeFound := opcodeRead reads stands
    rcases opcode_eq_wide valid isWide with ⟨opcode, operands, rfl⟩
    have walked := readWide_run laidReads valid stands
    simp [injectForOpcode, run_readU1, opcodeFound, Instruction.opcode, walked, counted,
      Instruction.size, injectionsAt, injectionsOf, beforeCode, afterCode, opcodeStack,
      beforeStack, afterStack, noReturn, noAllocation]
  · have positive := instruction.size_pos position
    refine run_injectForOpcode_of_not_wide numbered laidReads valid stands isWide ?_
      (injections_behind ci mi lists (Nat.lt_add_of_pos_right positive))
    change (leading ci mi done position ++ trailing ci mi done position).length ≤ 18
    rw [trailing_stop ci mi lists, List.append_nil]
    exact length_leading_le ci mi lists position

/-- The first walk lays out the rest of the instructions. -/
theorem run_injectWalk (numbered : Numbered ci) (reads : ReadsAt mi ci position)
    (lists : Lists lengths (mi.code ci) 0 done position)
    (restLists : Lists lengths (mi.code ci) position rest mi.codeLen) {fuel : ℕ}
    (enough : rest.length < fuel) :
    ((whileTrue fuel moreBytecodes (injectForOpcode lengths)).run
        (laidOut ci mi done unwidened)).run ci =
      some (((), laidOut ci mi (done ++ rest) unwidened),
        (ci.counted (injectionTotal ci mi rest)).advance (mi.codeLen - position)) := by
  induction rest generalizing ci position done fuel with
  | nil =>
      obtain rfl : position = mi.codeLen := restLists.chain
      rcases fuel with _ | fuel
      · exact absurd enough (Nat.not_lt_zero _)
      have stopped := @whileTrue_stop (laidOut ci mi done unwidened) ci
        (injectForOpcode lengths) fuel (reads.laidOut done unwidened)
      simpa [injectionTotal, counted] using stopped
  | cons entry rest step =>
      rcases entry with ⟨start, instruction⟩
      rcases Lists.cons_iff.mp restLists with ⟨rfl, valid, stands, behind⟩
      rcases fuel with _ | fuel
      · exact absurd enough (Nat.not_lt_zero _)
      have inside := reads.size_le stands
      have positive := instruction.size_pos start
      let nextCi := (ci.counted (injectionsAt ci mi instruction.opcode)).advance
        (instruction.size start)
      have nextReads : ReadsAt mi nextCi (start + instruction.size start) :=
        (reads.counted _).advance _
      have walked := run_injectForOpcode numbered reads lists valid stands
      rw [whileTrue_step (reads.laidOut done unwidened) (show start < mi.codeLen by omega) walked]
      have restRun := @step nextCi (start + instruction.size start)
        (done ++ [(start, instruction)]) numbered nextReads (lists.snoc valid stands) behind fuel
        (Nat.lt_of_succ_lt_succ enough)
      refine restRun.trans ?_
      have counted : nextCi.counted (injectionTotal nextCi mi rest) =
          (ci.counted (injectionTotal ci mi ((start, instruction) :: rest))).advance
            (instruction.size start) := by
        rw [injectionTotal_cons, ← CrwClassImage.counted_counted]
        rfl
      rw [counted, advance_advance, List.append_assoc]
      have split_ : instruction.size start + (mi.codeLen - (start + instruction.size start)) =
          mi.codeLen - start := by omega
      rw [split_]
      rfl

end InjectionWalk

end HeapScan.ClassFile
