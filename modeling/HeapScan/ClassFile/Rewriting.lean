import HeapScan.ClassFile.Assembly

/-!
# The three walks over a method

The third walk writes what has been laid out.  The whole of `method_inject_and_write_code`
then ends for every method whose branches go to instructions, and what it writes is the
assembled code.
-/

namespace HeapScan.ClassFile

open BigEndian CrwClassImage Relocation

section Walking

variable {ci : CrwClassImage} {mi : MethodImage} {listing : Listing} {widening : ℕ → ℤ}
  {lengths : OpcodeLengths} {position : ℕ}

theorem run_writeAny {code : List UInt8} (room : ci.HasRoom code.length) :
    ((whenAny code (writeBytes code)).run mi).run ci = some (((), mi), ci.emit code) := by
  by_cases empty : code = []
  · subst empty
    simp [whenAny]
  · rw [whenAny, if_pos (List.length_pos_iff.mpr empty), run_liftM, run_writeBytes _ room]
    rfl

theorem run_writeInstruction (lists : Lists lengths (mi.code ci) 0 listing mi.codeLen)
    (targets : TargetsStart listing) (tablesEnd : TablesEnd listing)
    (widened : Widened ci mi listing widening) (reads : ReadsAt mi ci position)
    {instruction : Instruction} (listed : (position, instruction) ∈ listing)
    (room : ci.HasRoom
      (writtenCode ci mi listing widening [(position, instruction)]).length) :
    ((writeInstruction lengths).run (laidOut ci mi listing widening)).run ci =
      some (((), laidOut ci mi listing widening),
        (ci.emit (writtenCode ci mi listing widening [(position, instruction)])).advance
          (instruction.size position)) := by
  have inside := (lists.chain.bounds listed).2
  have offset := (reads.laidOut listing widening).offset
  have opcodeFound := opcodeRead reads (lists.stands _ listed)
  have mapped := @run_codeMap ci mi listing widening position (by omega) ci
  have placed := widened.newPlace_cast lists (Or.inr ⟨instruction, listed⟩)
  let injection := (laidOut ci mi listing widening).injections position
  have whole : writtenCode ci mi listing widening [(position, instruction)] =
      injection ++ encodeAll (newPlace ci mi listing widening position)
        (relocated ci mi listing widening (position, instruction)) := by
    simp only [writtenCode, List.flatMap_cons, List.flatMap_nil, List.append_nil, injection]
  rw [whole] at room ⊢
  have injectRun := @run_writeAny ci (laidOut ci mi listing widening) injection
    (room.mono (by simp))
  have opcodeRun : readU1.run (ci.emit injection) =
      some (instruction.opcode, (ci.emit injection).advance 1) := by
    rw [run_readU1, emit_input, emit_inputPosition, opcodeFound, Option.map_some]
  have writeRun := run_writeOpcode lists targets tablesEnd widened.needed reads listed placed room
    (List.length_append.ge)
  simp only [writeInstruction, StateT.run_bind, run_inputCodeOffset, offset, mapped,
    StateT.run_get, pure_bind, injectRun, run_liftM, opcodeRun, writeRun, Option.map_some,
    Option.bind_eq_bind, Option.bind_some, injection]

/-- The third walk writes the rest of the code. -/
theorem run_writeWalk (lists : Lists lengths (mi.code ci) 0 listing mi.codeLen)
    (targets : TargetsStart listing) (tablesEnd : TablesEnd listing)
    (widened : Widened ci mi listing widening) (reads : ReadsAt mi ci position) {part : Listing}
    (chain : Chain Instruction.size position part mi.codeLen)
    (inside : ∀ entry ∈ part, entry ∈ listing)
    (room : ci.HasRoom (writtenCode ci mi listing widening part).length) {fuel : ℕ}
    (enough : part.length < fuel) :
    ((whileTrue fuel moreBytecodes (writeInstruction lengths)).run
        (laidOut ci mi listing widening)).run ci =
      some (((), laidOut ci mi listing widening),
        (ci.emit (writtenCode ci mi listing widening part)).advance (mi.codeLen - position)) := by
  induction part generalizing ci position fuel with
  | nil =>
      obtain rfl : position = mi.codeLen := chain
      rcases fuel with _ | fuel
      · exact absurd enough (Nat.not_lt_zero _)
      have stopped := @whileTrue_stop (laidOut ci mi listing widening) ci
        (writeInstruction lengths) fuel (reads.laidOut listing widening)
      simpa [writtenCode] using stopped
  | cons entry rest step =>
      rcases entry with ⟨start, instruction⟩
      rcases chain with ⟨rfl, restChain⟩
      rcases fuel with _ | fuel
      · exact absurd enough (Nat.not_lt_zero _)
      have listed := inside _ List.mem_cons_self
      have ends := restChain.le_stop
      have positive := instruction.size_pos start
      let here := writtenCode ci mi listing widening [(start, instruction)]
      have whole : writtenCode ci mi listing widening ((start, instruction) :: rest) =
          here ++ writtenCode ci mi listing widening rest := by
        simp only [here, writtenCode, List.flatMap_cons, List.flatMap_nil, List.append_nil]
      rw [whole] at room ⊢
      rw [List.length_append] at room
      have walked := run_writeInstruction lists targets tablesEnd widened reads listed
        (room.mono (Nat.le_add_right _ _))
      rw [whileTrue_step (reads.laidOut listing widening) (show start < mi.codeLen by omega) walked]
      let nextCi := (ci.emit here).advance (instruction.size start)
      have nextReads : ReadsAt mi nextCi (start + instruction.size start) :=
        ⟨reads.whole, reads.small, by
          rw [← Nat.add_assoc, ← reads.reads]
          rfl⟩
      have restRun := @step nextCi (start + instruction.size start) lists
        ⟨widened.needed, widened.settled⟩ nextReads
        restChain (fun entry found => inside entry (List.mem_cons_of_mem _ found))
        (HasRoom.emit room) fuel (Nat.lt_of_succ_lt_succ enough)
      have total : instruction.size start + (mi.codeLen - (start + instruction.size start)) =
          mi.codeLen - start := by omega
      refine restRun.trans ?_
      simp only [nextCi, advance_emit, emit_emit, advance_advance, total]
      rfl

end Walking

section Methods

variable {ci : CrwClassImage} {mi : MethodImage} {listing : Listing} {lengths : OpcodeLengths}

theorem run_andThen {next : MethodImage} {nextCi : CrwClassImage} {first second : CrwMethod Unit}
    (walked : (first.run mi).run ci = some (((), next), nextCi)) :
    ((do first; second).run mi).run ci = (second.run next).run nextCi := by
  rw [StateT.run_bind, StateT.run_bind, walked]
  rfl

/-- What is injected at the entry is laid out first. -/
theorem run_injectAtEntry (fresh : mi.Fresh) (numbered : Numbered ci) :
    (injectAtEntry.run mi).run ci =
      some (((), laidOut ci mi [] unwidened), ci.counted (injectionsOf (entryCode ci mi))) := by
  have entryRun := run_entryInjectionCode mi numbered
  have bound := length_entryCode_le ci mi
  have injectRun := @run_injectAndAdjust ci (mi.withStack (entryStack ci mi)) 0 (entryCode ci mi)
    (Nat.zero_le _) bound (by
      rw [show (mi.withStack (entryStack ci mi)).injections 0 = [] from fresh.injections 0]
      exact Nat.le_trans (Nat.zero_add _).le (bound.trans (by decide)))
  simp only [injectAtEntry, StateT.run_bind, entryRun, Option.bind_eq_bind, Option.bind_some,
    injectRun]
  refine congrArg (fun laid => some (((), laid), _)) ?_
  simp only [MethodImage.withStack, MethodImage.withInjection, MethodImage.adjustMap, laidOut,
    MethodImage.mk.injEq, true_and, and_true]
  refine ⟨funext fun place => ?_, funext fun place => ?_, ?_, ?_⟩
  · rw [fresh.map, newPosition, shift_nil, Int.add_zero]
    simp
  · rw [leading, trailing, List.flatMap_nil, List.flatMap_nil, List.append_nil, List.append_nil]
    rcases eq_or_ne place 0 with rfl | behind
    · rw [if_pos rfl, Function.update_self, fresh.injections, List.nil_append]
    · rw [if_neg behind, Function.update_of_ne behind, fresh.injections]
  · exact funext fresh.widening
  · rw [fresh.stack]
    rfl

/-- The last instruction does not allocate an array, behind which nothing would be written. -/
def EndsWithoutAllocation (listing : Listing) (stop : ℕ) : Prop :=
  0 < stop ∧ ∀ entry ∈ listing, entry.1 + entry.2.size entry.1 = stop →
    entry.2.opcode ∉ Opcode.arrayAllocations

theorem EndsWithoutAllocation.leading_stop {stop : ℕ} (ends : EndsWithoutAllocation listing stop) :
    leading ci mi listing stop = [] := by
  rw [leading, if_neg (Nat.ne_of_gt ends.1), List.nil_append, List.flatMap_eq_nil_iff]
  intro entry listed
  split
  · rename_i last
    exact if_neg (ends.2 entry listed last)
  · rfl

/-- The three walks leave the input behind the method and have written the assembled code. -/
theorem run_methodInjectAndWriteCode (fresh : mi.Fresh) (numbered : Numbered ci)
    (whole : mi.startOfInputBytecodes + mi.codeLen ≤ ci.input.length)
    (small : mi.codeLen < 2 ^ 16) (lists : Lists lengths (mi.code ci) 0 listing mi.codeLen)
    (targets : TargetsStart listing) (tablesEnd : TablesEnd listing)
    (ends : EndsWithoutAllocation listing mi.codeLen) {fuel : ℕ}
    (enough : (listing.length + 1) ^ 3 ≤ fuel) :
    ∃ widening, Widened ci mi listing widening ∧
      Lists lengths (encodeAll 0 (assembled ci mi listing widening)) 0
        (listAll 0 (assembled ci mi listing widening))
        (encodeAll 0 (assembled ci mi listing widening)).length ∧
      (ci.HasRoom (encodeAll 0 (assembled ci mi listing widening)).length →
        ((methodInjectAndWriteCode lengths fuel).run mi).run ci =
          some (((), laidOut ci mi listing widening),
            { (ci.counted (injectionsOf (entryCode ci mi) + injectionTotal ci mi listing)).emit
                (encodeAll 0 (assembled ci mi listing widening)) with
              inputPosition := mi.startOfInputBytecodes + mi.codeLen })) := by
  let start : CrwClassImage := { ci with inputPosition := mi.startOfInputBytecodes }
  let entered := start.counted (injectionsOf (entryCode ci mi))
  let injected := entered.counted (injectionTotal ci mi listing)
  have enteredReads : ReadsAt mi entered 0 := ⟨whole, small, rfl⟩
  have injectedReads : ReadsAt mi injected 0 := ⟨whole, small, rfl⟩
  have entryRun := @run_injectAtEntry start mi fresh numbered
  have shorter : listing.length < fuel := by
    have cube := Nat.le_self_pow (show 3 ≠ 0 by decide) (listing.length + 1)
    omega
  have injectRun := @run_injectWalk entered mi lengths 0 [] listing numbered enteredReads
    ⟨rfl, by simp, by simp⟩ lists fuel shorter
  rcases @exists_adjustWalk injected mi listing lengths lists targets injectedReads fuel enough with
    ⟨widening, needed, settled, adjustRun⟩
  have widened : Widened ci mi listing widening := ⟨needed, settled⟩
  have written := widened.encodeAll_assembled lists
  rw [ends.leading_stop, List.append_nil] at written
  refine ⟨widening, widened, ?_, fun room => ?_⟩
  · have listed := @lists_encodeAll lengths 0 _ [] rfl
      (widened.assembled_valid lists small targets) []
    rwa [Nat.zero_add, List.append_nil, List.nil_append] at listed
  rw [written] at room ⊢
  have writeRun := @run_writeWalk injected mi listing widening lengths 0 lists targets tablesEnd
    ⟨needed, settled⟩ injectedReads listing lists.chain (fun _ listed => listed) room fuel shorter
  refine (run_andThen (run_rewind mi ci)).trans ((run_andThen entryRun).trans
    ((run_andThen injectRun).trans ((run_andThen (run_rewind _ _)).trans
      ((run_andThen adjustRun).trans ((run_andThen (run_rewind _ _)).trans
        (writeRun.trans ?_))))))
  rw [← counted_counted]
  rfl

end Methods
end HeapScan.ClassFile
