import HeapScan.ClassFile.Layout
import HeapScan.Library.Restarts

/-!
# Widening instructions

The second walk starts again after each instruction that it widens.  Widening an instruction
moves everything behind it, so branches that have fitted no longer do and the padding of
switches changes; still the walk ends.  A branch is widened once and never narrowed again, and
as long as no branch is widened each start settles one more switch, for a switch is moved only
by what stands in front of it.
-/

namespace HeapScan.ClassFile

open BigEndian CrwClassImage Relocation Restarts

/-- Where an instruction at a position can go to other than behind itself. -/
def Instruction.targets (position : ℕ) : Instruction → List ℤ
  | .plain _ _ | .wide _ _ => []
  | .jump _ delta | .jumpWide _ delta => [position + delta]
  | .tableswitch delta _ _ deltas => (position + delta) :: deltas.map (position + ·)
  | .lookupswitch delta pairs => (position + delta) :: pairs.map (position + ·.2)

/-- Every branch goes to an instruction of the code. -/
def TargetsStart (listing : Listing) : Prop :=
  ∀ entry ∈ listing, ∀ target ∈ entry.2.targets entry.1,
    ∃ (start : ℕ) (instruction : Instruction),
      target = start ∧ (start, instruction) ∈ listing

/-- By how much the padding of a switch changes. -/
def paddingChange (pos : ℕ) (newPos : ℤ) : ℤ :=
  newNext4ByteBoundary newPos - newPos - (next4ByteBoundary pos - pos)

/-- How far a branch is widened. -/
def branchWidening (opcode : ℕ) : ℤ := if opcode ∈ Opcode.unconditional then 2 else 5

section Definitions

variable (ci : CrwClassImage) (mi : MethodImage) (listing : Listing) (widening : ℕ → ℤ)

/-- Where a branch at a position with the given offset goes, relative to the new position. -/
def newDelta (position : ℕ) (delta : ℤ) : ℤ :=
  newPosition ci mi listing (position + delta).toNat widening -
    newPosition ci mi listing position widening

/-- The second walk reads over the instruction and changes nothing. -/
def Settled (entry : ℕ × Instruction) : Prop :=
  match entry.2 with
  | .jump _ delta =>
      widening entry.1 = 0 → Fits2 (newDelta ci mi listing widening entry.1 delta)
  | .tableswitch _ _ _ _ | .lookupswitch _ _ =>
      widening entry.1 = paddingChange entry.1 (newPosition ci mi listing entry.1 widening)
  | _ => True

/-- A switch has the padding that it needs where it is now. -/
def Padded (entry : ℕ × Instruction) : Prop :=
  match entry.2 with
  | .tableswitch _ _ _ _ | .lookupswitch _ _ =>
      widening entry.1 = paddingChange entry.1 (newPosition ci mi listing entry.1 widening)
  | _ => True

/-- How far the second walk widens an instruction that is not settled. -/
def wantedWidening (entry : ℕ × Instruction) : ℤ :=
  match entry.2 with
  | .jump opcode _ => branchWidening opcode
  | .tableswitch _ _ _ _ | .lookupswitch _ _ =>
      paddingChange entry.1 (newPosition ci mi listing entry.1 widening)
  | _ => 0

def widenedAt (entry : ℕ × Instruction) : ℕ → ℤ :=
  Function.update widening entry.1 (wantedWidening ci mi listing widening entry)

def isNarrow (entry : ℕ × Instruction) : Bool :=
  match entry.2 with
  | .jump _ _ => widening entry.1 = 0
  | _ => false

/-- The branches that can still be widened. -/
def narrowBranches : ℕ := listing.countP (isNarrow widening)

end Definitions

/-- The widenings that the second walk can reach. -/
def WidenedAsNeeded (listing : Listing) (widening : ℕ → ℤ) : Prop :=
  ∀ entry ∈ listing, match entry.2 with
    | .jump opcode _ => widening entry.1 = 0 ∨ widening entry.1 = branchWidening opcode
    | .tableswitch _ _ _ _ | .lookupswitch _ _ => -3 ≤ widening entry.1 ∧ widening entry.1 ≤ 3
    | _ => widening entry.1 = 0

theorem paddingChange_bounds (pos : ℕ) (newPos : ℤ) :
    -3 ≤ paddingChange pos newPos ∧ paddingChange pos newPos ≤ 3 := by
  simp only [paddingChange, newNext4ByteBoundary, next4ByteBoundary]
  omega

section Layouts

variable {ci : CrwClassImage} {mi : MethodImage} {listing : Listing} {widening : ℕ → ℤ}
  {lengths : OpcodeLengths} {code : List UInt8} {stop : ℕ} {entry : ℕ × Instruction}

/-- Widening an instruction moves what stands behind it. -/
theorem newPosition_update (lists : Lists lengths code 0 listing stop) (listed : entry ∈ listing)
    (value : ℤ) (place : ℕ) :
    newPosition ci mi listing place (Function.update widening entry.1 value) =
      newPosition ci mi listing place widening +
        if entry.1 + entry.2.size entry.1 ≤ place then value - widening entry.1 else 0 := by
  have grown : growth ci mi (Function.update widening entry.1 value) entry.1 entry.2 =
      growth ci mi widening entry.1 entry.2 + (value - widening entry.1) := by
    simp only [growth, Function.update_self]
    omega
  have alike : ∀ held ∈ listing, held.1 ≠ entry.1 →
      growth ci mi (Function.update widening entry.1 value) held.1 held.2 =
        growth ci mi widening held.1 held.2 := fun held _ different => by
    simp only [growth, Function.update_of_ne different]
  have moved := lists.chain.shift_grow (fun start item => item.size_pos start) listed grown alike
  simp only [newPosition, moved place, Int.add_assoc]

/-- What starts at an instruction or before it is not moved by widening the instruction. -/
theorem newPosition_update_of_le (lists : Lists lengths code 0 listing stop)
    (listed : entry ∈ listing) (value : ℤ) {place : ℕ} (before : place ≤ entry.1) :
    newPosition ci mi listing place (Function.update widening entry.1 value) =
      newPosition ci mi listing place widening := by
  have positive := entry.2.size_pos entry.1
  rw [newPosition_update lists listed, if_neg (by omega), Int.add_zero]

theorem Settled.padded (settled : Settled ci mi listing widening entry) :
    Padded ci mi listing widening entry := by
  rcases entry with ⟨position, instruction⟩
  cases instruction <;> first | exact settled | trivial

/-- A listed position has one instruction. -/
theorem Lists.eq_of_mem (lists : Lists lengths code 0 listing stop) (listed : entry ∈ listing)
    {other : ℕ × Instruction} (otherListed : other ∈ listing) (same : other.1 = entry.1) :
    other = entry := by
  rcases entry with ⟨position, instruction⟩
  rcases other with ⟨place, otherInstruction⟩
  dsimp only at same
  subst same
  rw [lists.chain.eq_of_mem (fun start item => item.size_pos start) listed otherListed]

theorem WidenedAsNeeded.widenedAt (lists : Lists lengths code 0 listing stop)
    (needed : WidenedAsNeeded listing widening) (listed : entry ∈ listing) :
    WidenedAsNeeded listing (widenedAt ci mi listing widening entry) := by
  intro other otherListed
  by_cases same : other.1 = entry.1
  · obtain rfl := lists.eq_of_mem listed otherListed same
    have change := paddingChange_bounds other.1 (newPosition ci mi listing other.1 widening)
    rcases other with ⟨position, instruction⟩
    cases instruction <;>
      simp only [ClassFile.widenedAt, Function.update_self, wantedWidening, or_true] <;>
      exact change
  · have before := needed other otherListed
    rcases other with ⟨position, instruction⟩
    dsimp only at same
    simp only [ClassFile.widenedAt, Function.update_of_ne same]
    exact before

theorem isNarrow_update_of_ne {other : ℕ × Instruction} (different : other.1 ≠ entry.1)
    (value : ℤ) :
    isNarrow (Function.update widening entry.1 value) other = isNarrow widening other := by
  rcases other with ⟨position, instruction⟩
  cases instruction <;> simp only [isNarrow]
  rw [Function.update_of_ne different]

/-- Only the instruction itself can be a narrow branch before and no longer after. -/
theorem narrowBranches_update (lists : Lists lengths code 0 listing stop) (listed : entry ∈ listing)
    (value : ℤ) :
    narrowBranches listing (Function.update widening entry.1 value) +
        (if isNarrow widening entry then 1 else 0) =
      narrowBranches listing widening +
        if isNarrow (Function.update widening entry.1 value) entry then 1 else 0 := by
  rcases List.append_of_mem listed with ⟨before, after, rfl⟩
  have parts := lists.chain.split
  have positive := entry.2.size_pos entry.1
  have beforeAlike : before.countP (isNarrow (Function.update widening entry.1 value)) =
      before.countP (isNarrow widening) := by
    refine List.countP_congr fun other found => ?_
    have bound := (parts.1.bounds found).2
    have otherPositive := other.2.size_pos other.1
    rw [isNarrow_update_of_ne (by omega)]
  have afterAlike : after.countP (isNarrow (Function.update widening entry.1 value)) =
      after.countP (isNarrow widening) := by
    refine List.countP_congr fun other found => ?_
    have bound := (parts.2.bounds found).1
    rw [isNarrow_update_of_ne (by omega)]
  simp only [narrowBranches, List.countP_append, List.countP_cons, beforeAlike, afterAlike]
  omega

/-- Widening a switch leaves what stands before it padded, and pads the switch. -/
theorem padded_widenedAt (lists : Lists lengths code 0 listing stop) {before after : Listing}
    (split : listing = before ++ entry :: after)
    (paddedBefore : ∀ earlier ∈ before, Padded ci mi listing widening earlier)
    (isSwitch : wantedWidening ci mi listing widening entry =
      paddingChange entry.1 (newPosition ci mi listing entry.1 widening)) :
    ∀ earlier ∈ before ++ [entry],
      Padded ci mi listing (widenedAt ci mi listing widening entry) earlier := by
  have listed : entry ∈ listing := by simp [split]
  have parts := (split ▸ lists.chain).split
  intro earlier found
  rcases List.mem_append.mp found with inBefore | isEntry
  · have bound := (parts.1.bounds inBefore).2
    have positive := earlier.2.size_pos earlier.1
    have kept := @newPosition_update_of_le ci mi listing widening lengths code stop entry lists
      listed (wantedWidening ci mi listing widening entry) earlier.1 (by omega)
    have padded := paddedBefore earlier inBefore
    rcases earlier with ⟨position, instruction⟩
    dsimp only at bound positive kept
    have different : position ≠ entry.1 := by omega
    cases instruction <;>
      simp only [Padded, widenedAt, kept, Function.update_of_ne different] at padded ⊢ <;>
      exact padded
  · obtain rfl := List.mem_singleton.mp isEntry
    have kept := @newPosition_update_of_le ci mi listing widening lengths code stop earlier lists
      listed (wantedWidening ci mi listing widening earlier) earlier.1 (Nat.le_refl _)
    rw [isSwitch] at kept
    rcases earlier with ⟨position, instruction⟩
    dsimp only at kept isSwitch
    cases instruction <;> simp only [Padded, widenedAt, isSwitch, kept, Function.update_self]

/-- The walk that starts again after every change ends. -/
theorem widening_progress (lists : Lists lengths code 0 listing stop) :
    Progress listing (Settled ci mi listing) (Padded ci mi listing) (widenedAt ci mi listing)
      (narrowBranches listing) (WidenedAsNeeded listing) where
  keeps widening entry listed needed _ := needed.widenedAt lists listed
  advances widening before entry after split needed settledBefore unsettled := by
    have listed : entry ∈ listing := by simp [split]
    have paddedBefore : ∀ earlier ∈ before, Padded ci mi listing widening earlier :=
      fun earlier found => (settledBefore earlier found).padded
    have narrow := @narrowBranches_update listing widening lengths code stop entry lists listed
      (wantedWidening ci mi listing widening entry)
    change narrowBranches listing (widenedAt ci mi listing widening entry) + _ = _ at narrow
    have padded := @padded_widenedAt ci mi listing widening lengths code stop entry lists before
      after split paddedBefore
    rcases entry with ⟨position, instruction⟩
    cases instruction with
    | jump opcode delta =>
        left
        simp only [Settled, Classical.not_imp] at unsettled
        have wasNarrow : isNarrow widening (position, .jump opcode delta) = true := by
          simpa [isNarrow] using unsettled.1
        have isWide : isNarrow (Function.update widening position
            (wantedWidening ci mi listing widening (position, .jump opcode delta)))
              (position, .jump opcode delta) = false := by
          simp only [isNarrow, Function.update_self, wantedWidening, branchWidening]
          split <;> rfl
        simp only [wasNarrow, isWide] at narrow
        simp at narrow
        omega
    | tableswitch delta low high deltas =>
        right
        exact ⟨narrow.le, unsettled, padded rfl⟩
    | lookupswitch delta pairs =>
        right
        exact ⟨narrow.le, unsettled, padded rfl⟩
    | plain opcode operands => exact absurd trivial unsettled
    | wide opcode operands => exact absurd trivial unsettled
    | jumpWide opcode delta => exact absurd trivial unsettled

end Layouts

section Walking

variable {ci : CrwClassImage} {mi : MethodImage} {listing : Listing} {widening : ℕ → ℤ}
  {lengths : OpcodeLengths} {position : ℕ} {instruction : Instruction}

/-- Widening an instruction, when the walk stands behind it, leads to another layout. -/
theorem run_widen (lists : Lists lengths (mi.code ci) 0 listing mi.codeLen)
    (listed : (position, instruction) ∈ listing)
    (reads : ReadsAt mi ci (position + instruction.size position)) {value : ℤ}
    (kept : TwosComplement.wrap 8 value = value) :
    ((widen position value).run (laidOut ci mi listing widening)).run ci =
      some (((), laidOut ci mi listing (Function.update widening position value)), ci) := by
  have inside := (lists.chain.bounds listed).2
  have positive := instruction.size_pos position
  have allowed : decide (position ≤ (laidOut ci mi listing widening).codeLen) = true :=
    decide_eq_true (show position ≤ mi.codeLen by omega)
  have offset := (reads.laidOut listing widening).offset
  have same : { (laidOut ci mi listing widening).adjustMap
      (position + instruction.size position) (value - widening position) with
        widening := Function.update widening position value } =
      laidOut ci mi listing (Function.update widening position value) := by
    simp only [MethodImage.adjustMap, laidOut, MethodImage.mk.injEq, true_and, and_true]
    funext place
    have update := @newPosition_update ci mi listing widening lengths (mi.code ci) mi.codeLen
      (position, instruction) lists listed value place
    dsimp only at update
    split_ifs at update ⊢ <;> omega
  have asserted := run_methodAssert (laidOut ci mi listing widening) ci allowed
  rw [← same]
  simp only [widen, StateT.run_bind, StateT.run_get, StateT.run_modify, run_inputCodeOffset,
    run_adjustMap, pure_bind, Option.bind_eq_bind, Option.bind_some, asserted, offset, kept]
  rfl

theorem run_codeMap {place : ℕ} (inside : place ≤ mi.codeLen)
    (anyCi : CrwClassImage) :
    ((methodCodeMap place).run (laidOut ci mi listing widening)).run anyCi =
      some ((newPosition ci mi listing place widening, laidOut ci mi listing widening), anyCi) := by
  rw [run_methodCodeMap _ _ (show place ≤ (laidOut ci mi listing widening).codeLen from inside)]
  simp [laidOut, inside]

section Padding

variable {read : CrwMethod Unit}
  (readRun : (read.run (laidOut ci mi listing widening)).run (ci.advance 1) =
    some (((), laidOut ci mi listing widening), ci.advance (instruction.size position)))

include readRun

theorem run_adjustPadding_of_settled
    (padded : widening position =
      paddingChange position (newPosition ci mi listing position widening)) :
    ((adjustPadding position (newPosition ci mi listing position widening) read).run
        (laidOut ci mi listing widening)).run (ci.advance 1) =
      some ((true, laidOut ci mi listing widening), ci.advance (instruction.size position)) := by
  have same : (laidOut ci mi listing widening).widening position =
      newNext4ByteBoundary (newPosition ci mi listing position widening) -
        newPosition ci mi listing position widening - (next4ByteBoundary position - position) :=
    padded
  simp [adjustPadding, readRun, same]

theorem run_adjustPadding_of_unsettled (lists : Lists lengths (mi.code ci) 0 listing mi.codeLen)
    (listed : (position, instruction) ∈ listing) (reads : ReadsAt mi ci position)
    (unpadded : widening position ≠
      paddingChange position (newPosition ci mi listing position widening)) :
    ((adjustPadding position (newPosition ci mi listing position widening) read).run
        (laidOut ci mi listing widening)).run (ci.advance 1) =
      some ((false, laidOut ci mi listing (Function.update widening position
        (paddingChange position (newPosition ci mi listing position widening)))),
          ci.advance (instruction.size position)) := by
  have different : (laidOut ci mi listing widening).widening position ≠
      newNext4ByteBoundary (newPosition ci mi listing position widening) -
        newPosition ci mi listing position widening - (next4ByteBoundary position - position) :=
    unpadded
  have bounds := paddingChange_bounds position (newPosition ci mi listing position widening)
  have kept := TwosComplement.wrap_of_inRange
    (show -2 ^ 8 ≤
      paddingChange position (newPosition ci mi listing position widening) * 2 by omega)
    (show paddingChange position (newPosition ci mi listing position widening) * 2 <
      2 ^ 8 by omega)
  have widenRun := @run_widen (ci.advance (instruction.size position)) mi listing widening lengths
    position instruction lists listed (reads.advance _) _ kept
  change (StateT.run (StateT.run _ (laidOut ci mi listing widening)) _ = some (((), laidOut ci mi
    listing _), _)) at widenRun
  simp only [paddingChange] at widenRun
  simp [adjustPadding, readRun, different, widenRun, paddingChange]

end Padding

theorem TargetsStart.exists_start (targets : TargetsStart listing)
    (lists : Lists lengths (mi.code ci) 0 listing mi.codeLen)
    (listed : (position, instruction) ∈ listing) {target : ℤ}
    (isTarget : target ∈ instruction.targets position) :
    ∃ start : ℕ, target = start ∧ start ≤ mi.codeLen := by
  rcases targets _ listed target isTarget with ⟨start, other, rfl, otherListed⟩
  have bound := (lists.chain.bounds otherListed).2
  exact ⟨start, rfl, show start ≤ mi.codeLen by omega⟩

section Instructions

variable (lists : Lists lengths (mi.code ci) 0 listing mi.codeLen) (targets : TargetsStart listing)
  (listed : (position, instruction) ∈ listing) (reads : ReadsAt mi ci position)

include lists targets listed reads

/-- The second walk reads over an instruction that is settled. -/
theorem run_adjustInstruction_of_settled
    (settled : Settled ci mi listing widening (position, instruction)) :
    ((adjustInstruction lengths).run (laidOut ci mi listing widening)).run ci =
      some ((true, laidOut ci mi listing widening), ci.advance (instruction.size position)) := by
  have valid := lists.valid _ listed
  have stands := lists.stands _ listed
  have inside := (lists.chain.bounds listed).2
  have laidReads := reads.laidOut listing widening
  have offset := laidReads.offset
  have opcodeFound := opcodeRead reads stands
  have mapped := @run_codeMap ci mi listing widening position (by omega) ci
  cases instruction with
  | plain opcode operands =>
      rcases valid with ⟨⟨below, noWide, noTable, noLookup, noShort, noLong⟩, sized⟩
      have skipped := reads.skip_operands sized (by omega) inside
      simp [adjustInstruction, offset, mapped, run_readU1, opcodeFound, Instruction.opcode, noWide,
        noTable, noLookup, noShort, noLong, run_opcodeLength _ _ below, skipped, Instruction.size]
  | wide opcode operands =>
      have walked := readWide_run laidReads valid stands
      simp [adjustInstruction, offset, mapped, run_readU1, opcodeFound, Instruction.opcode, walked,
        Instruction.size]
  | jump opcode delta =>
      rcases Opcode.ne_of_shortBranch valid.1 with ⟨noWide, noTable, noLookup⟩
      have deltaRead := s2_of_window stands.2
      rw [← Nat.add_assoc, ← reads.reads] at deltaRead
      rcases targets.exists_start lists listed List.mem_cons_self with ⟨start, target, startInside⟩
      have mappedStart := @run_codeMap ci mi listing widening start startInside (ci.advance 3)
      simp only [Settled, newDelta, target, Int.toNat_natCast, Fits2] at settled
      by_cases narrow : widening position = 0
      · have near := settled narrow
        have notFar : ¬ (newPosition ci mi listing start widening -
            newPosition ci mi listing position widening < -32768 ∨
              32767 < newPosition ci mi listing start widening -
                newPosition ci mi listing position widening) := by omega
        have narrowHere : (laidOut ci mi listing widening).widening position = 0 := narrow
        simp [adjustInstruction, offset, mapped, run_readU1, opcodeFound, Instruction.opcode,
          noWide, noTable, noLookup, valid.1, run_readS2, deltaRead, narrowHere, target,
          mappedStart, notFar, Instruction.size]
      · have wideHere : (laidOut ci mi listing widening).widening position ≠ 0 := narrow
        simp [adjustInstruction, offset, mapped, run_readU1, opcodeFound, Instruction.opcode,
          noWide, noTable, noLookup, valid.1, run_readS2, deltaRead, wideHere, Instruction.size]
  | jumpWide opcode delta =>
      rcases Opcode.ne_of_wideBranch valid.1 with ⟨noWide, noTable, noLookup, noShort⟩
      rcases s4_eq_some stands.2 with ⟨unsigned, deltaRead, _⟩
      have deltaRead := u4_of_window deltaRead
      rw [← Nat.add_assoc, ← reads.reads] at deltaRead
      simp [adjustInstruction, offset, mapped, run_readU1, opcodeFound, Instruction.opcode, noWide,
        noTable, noLookup, noShort, valid.1, run_readU4, deltaRead, Instruction.size]
  | tableswitch delta low high deltas =>
      have read := run_adjustPadding_of_settled (readTableswitch_run laidReads valid stands) settled
      simp [adjustInstruction, offset, mapped, run_readU1, opcodeFound, Instruction.opcode, read]
  | lookupswitch delta pairs =>
      have read := run_adjustPadding_of_settled (readLookupswitch_run laidReads stands) settled
      simp [adjustInstruction, offset, mapped, run_readU1, opcodeFound, Instruction.opcode, read]

/-- The second walk widens an instruction that is not settled. -/
theorem run_adjustInstruction_of_unsettled
    (unsettled : ¬ Settled ci mi listing widening (position, instruction)) :
    ((adjustInstruction lengths).run (laidOut ci mi listing widening)).run ci =
      some ((false, laidOut ci mi listing
        (widenedAt ci mi listing widening (position, instruction))),
          ci.advance (instruction.size position)) := by
  have valid := lists.valid _ listed
  have stands := lists.stands _ listed
  have inside := (lists.chain.bounds listed).2
  have laidReads := reads.laidOut listing widening
  have offset := laidReads.offset
  have opcodeFound := opcodeRead reads stands
  have mapped := @run_codeMap ci mi listing widening position (by omega) ci
  cases instruction with
  | plain opcode operands => exact absurd trivial unsettled
  | wide opcode operands => exact absurd trivial unsettled
  | jumpWide opcode delta => exact absurd trivial unsettled
  | jump opcode delta =>
      rcases Opcode.ne_of_shortBranch valid.1 with ⟨noWide, noTable, noLookup⟩
      have deltaRead := s2_of_window stands.2
      rw [← Nat.add_assoc, ← reads.reads] at deltaRead
      rcases targets.exists_start lists listed List.mem_cons_self with ⟨start, target, startInside⟩
      have mappedStart := @run_codeMap ci mi listing widening start startInside (ci.advance 3)
      simp only [Settled, newDelta, target, Int.toNat_natCast, Fits2, Classical.not_imp]
        at unsettled
      have narrow : (laidOut ci mi listing widening).widening position = 0 := unsettled.1
      have far : newPosition ci mi listing start widening -
          newPosition ci mi listing position widening < -32768 ∨
            32767 < newPosition ci mi listing start widening -
              newPosition ci mi listing position widening := by omega
      have kept : TwosComplement.wrap 8 (branchWidening opcode) = branchWidening opcode := by
        rw [branchWidening]
        split <;> rfl
      have widenRun := @run_widen (ci.advance 3) mi listing widening lengths position
        (.jump opcode delta) lists listed (reads.advance _) _ kept
      change (StateT.run (StateT.run _ (laidOut ci mi listing widening)) _ = some (((), laidOut ci
        mi listing _), _)) at widenRun
      by_cases direct : opcode ∈ Opcode.unconditional
      · rw [branchWidening, if_pos direct] at widenRun
        simp [adjustInstruction, offset, mapped, run_readU1, opcodeFound, Instruction.opcode,
          noWide, noTable, noLookup, valid.1, run_readS2, deltaRead, narrow, target, mappedStart,
          far, Instruction.size, direct, widenRun, widenedAt, wantedWidening, branchWidening]
      · rw [branchWidening, if_neg direct] at widenRun
        simp [adjustInstruction, offset, mapped, run_readU1, opcodeFound, Instruction.opcode,
          noWide, noTable, noLookup, valid.1, run_readS2, deltaRead, narrow, target, mappedStart,
          far, Instruction.size, direct, widenRun, widenedAt, wantedWidening, branchWidening]
  | tableswitch delta low high deltas =>
      have read := run_adjustPadding_of_unsettled (readTableswitch_run laidReads valid stands)
        lists listed reads unsettled
      simp [adjustInstruction, offset, mapped, run_readU1, opcodeFound, Instruction.opcode, read,
        widenedAt, wantedWidening]
  | lookupswitch delta pairs =>
      have read := run_adjustPadding_of_unsettled (readLookupswitch_run laidReads stands)
        lists listed reads unsettled
      simp [adjustInstruction, offset, mapped, run_readU1, opcodeFound, Instruction.opcode, read,
        widenedAt, wantedWidening]

end Instructions

/-- The walk reads over settled instructions. -/
theorem run_adjust_settled (lists : Lists lengths (mi.code ci) 0 listing mi.codeLen)
    (targets : TargetsStart listing) (reads : ReadsAt mi ci position) {part : Listing} {stop : ℕ}
    (chain : Chain Instruction.size position part stop)
    (settled : ∀ entry ∈ part, entry ∈ listing ∧ Settled ci mi listing widening entry)
    (fuel : ℕ) :
    ((whileTrue (part.length + fuel) moreBytecodes (adjustOrRewind lengths)).run
        (laidOut ci mi listing widening)).run ci =
      ((whileTrue fuel moreBytecodes (adjustOrRewind lengths)).run
        (laidOut ci mi listing widening)).run (ci.advance (stop - position)) := by
  induction part generalizing ci position with
  | nil =>
      obtain rfl : position = stop := chain
      simp
  | cons entry rest step =>
      rcases entry with ⟨start, instruction⟩
      rcases chain with ⟨rfl, restChain⟩
      rcases settled _ List.mem_cons_self with ⟨listed, here⟩
      have inside := (lists.chain.bounds listed).2
      have positive := instruction.size_pos start
      have ends := restChain.le_stop
      have walked := run_adjustInstruction_of_settled lists targets listed reads here
      have walkedOn : ((adjustOrRewind lengths).run (laidOut ci mi listing widening)).run ci =
          some (((), laidOut ci mi listing widening), ci.advance (instruction.size start)) := by
        simp [adjustOrRewind, walked]
      have restRun := @step (ci.advance (instruction.size start)) (start + instruction.size start)
        lists (reads.advance _) restChain
        fun entry found => settled entry (List.mem_cons_of_mem _ found)
      have total : instruction.size start + (stop - (start + instruction.size start)) =
          stop - start := by omega
      rw [List.length_cons, Nat.add_right_comm,
        whileTrue_step (reads.laidOut listing widening) (show start < mi.codeLen by omega) walkedOn]
      refine restRun.trans ?_
      rw [advance_advance, total]
      rfl

/-- The second walk makes the changes that lead to a layout in which all is settled. -/
theorem run_adjustWalk (lists : Lists lengths (mi.code ci) 0 listing mi.codeLen)
    (targets : TargetsStart listing) (reads : ReadsAt mi ci 0) {count : ℕ} {final : ℕ → ℤ}
    (repairs : Repairs listing (Settled ci mi listing) (widenedAt ci mi listing) count
      widening final) {fuel : ℕ} (enough : (count + 1) * (listing.length + 1) ≤ fuel) :
    ((whileTrue fuel moreBytecodes (adjustOrRewind lengths)).run
        (laidOut ci mi listing widening)).run ci =
      some (((), laidOut ci mi listing final), ci.advance mi.codeLen) := by
  induction repairs generalizing fuel with
  | @done widening all =>
      rcases Nat.exists_eq_add_of_le enough with ⟨more, rfl⟩
      have walked := run_adjust_settled lists targets reads lists.chain
        (fun entry found => ⟨found, all entry found⟩) (1 + more)
      rw [Nat.zero_add, Nat.one_mul, Nat.add_assoc, walked, Nat.add_comm 1 more, Nat.sub_zero]
      have behind : ReadsAt mi (ci.advance mi.codeLen) mi.codeLen := by
        have moved := reads.advance mi.codeLen
        rwa [Nat.zero_add] at moved
      exact @whileTrue_stop (laidOut ci mi listing widening) _ _ more
        (behind.laidOut listing widening)
  | @again widening final before after entry count split settledBefore unsettled rest step =>
      rcases entry with ⟨start, instruction⟩
      have listed : (start, instruction) ∈ listing := by simp [split]
      have parts := (split ▸ lists.chain).split
      have inside := (lists.chain.bounds listed).2
      have positive := instruction.size_pos start
      have atStart : ReadsAt mi (ci.advance start) start := by
        have moved := reads.advance start
        rwa [Nat.zero_add] at moved
      have adjusted := @run_adjustInstruction_of_unsettled (ci.advance start) mi listing widening
        lengths start instruction lists targets listed atStart unsettled
      have back : { (ci.advance start).advance (instruction.size start) with
          inputPosition := mi.startOfInputBytecodes } = ci := by
        rw [← Nat.add_zero mi.startOfInputBytecodes, ← reads.reads]
        rfl
      have rewound : ((adjustOrRewind lengths).run (laidOut ci mi listing widening)).run
          (ci.advance start) = some (((), laidOut ci mi listing
            (widenedAt ci mi listing widening (start, instruction))), ci) := by
        change StateT.run (StateT.run _ (laidOut ci mi listing widening)) _ = some ((false,
          laidOut ci mi listing (widenedAt ci mi listing widening (start, instruction))), _)
            at adjusted
        simp only [adjustOrRewind, StateT.run_bind, adjusted, Option.bind_eq_bind,
          Option.bind_some, Bool.not_false, if_true, run_rewind]
        exact congrArg some (Prod.ext rfl back)
      have counted : listing.length = before.length + (after.length + 1) := by simp [split]
      rw [Nat.succ_mul] at enough
      rcases Nat.exists_eq_add_of_le (show before.length + 1 ≤ fuel by omega) with ⟨more, rfl⟩
      have walked := run_adjust_settled lists targets reads parts.1
        (fun entry found => ⟨by simp [split, found], settledBefore entry found⟩) (1 + more)
      have here : ReadsAt (laidOut ci mi listing widening) (ci.advance start) start :=
        atStart.laidOut listing widening
      rw [Nat.add_assoc, walked, Nat.add_comm 1 more, Nat.sub_zero,
        whileTrue_step here (show start < mi.codeLen by omega) rewound]
      exact step (by omega)

/-- Walking on and starting again ends, with every instruction settled. -/
theorem exists_adjustWalk (lists : Lists lengths (mi.code ci) 0 listing mi.codeLen)
    (targets : TargetsStart listing) (reads : ReadsAt mi ci 0) {fuel : ℕ}
    (enough : (listing.length + 1) ^ 3 ≤ fuel) :
    ∃ final, WidenedAsNeeded listing final ∧
      (∀ entry ∈ listing, Settled ci mi listing final entry) ∧
      ((whileTrue fuel moreBytecodes (adjustOrRewind lengths)).run
          (laidOut ci mi listing unwidened)).run ci =
        some (((), laidOut ci mi listing final), ci.advance mi.codeLen) := by
  have needed : WidenedAsNeeded listing unwidened := fun entry _ => by
    rcases entry with ⟨position, instruction⟩
    cases instruction <;> simp [unwidened]
  rcases (widening_progress lists).exists_repairs needed with
    ⟨count, final, bound, finalNeeded, repairs⟩
  refine ⟨final, finalNeeded, repairs.all_settled,
    run_adjustWalk lists targets reads repairs (Nat.le_trans ?_ enough)⟩
  have branches : narrowBranches listing unwidened ≤ listing.length := List.countP_le_length
  have first : count + 1 ≤ (listing.length + 1) * (listing.length + 1) := by
    have scaled := Nat.mul_le_mul_right (listing.length + 1) branches
    rw [Nat.add_mul, Nat.one_mul]
    omega
  rw [pow_succ, pow_two]
  exact Nat.mul_le_mul_right _ first

end Walking

end HeapScan.ClassFile
