import HeapScan.ClassFile.Attributes
import HeapScan.Library.Deltas

/-!
# Stack maps

A stack map tells the types of the locals and of the stack at some positions of the code, so
that a verifier need not infer them.  The frames of the new table stand where the positions of
the old frames have moved.  The type of a frame is changed only where its offset no longer fits
into it.
-/

namespace HeapScan.ClassFile

open BigEndian

/-- A `verification_type_info`; the offset of an uninitialized object is that of its `new`. -/
inductive VerificationType where
  | object (index : ℕ)
  | uninitialized (position : ℕ)
  | simple (tag : ℕ)
deriving DecidableEq

namespace VerificationType

def encode : VerificationType → List UInt8
  | object index => byte JvmItem.object :: bytes2 index
  | uninitialized position => byte JvmItem.uninitialized :: bytes2 position
  | simple tag => [byte tag]

def mapPc (move : ℕ → ℕ) : VerificationType → VerificationType
  | object index => object index
  | uninitialized position => uninitialized (move position)
  | simple tag => simple tag

def Placed (boundary : ℕ → Prop) : VerificationType → Prop
  | object index => index < 2 ^ 16
  | uninitialized position => boundary position
  | simple tag => tag < 2 ^ 8 ∧ tag ≠ JvmItem.object ∧ tag ≠ JvmItem.uninitialized

end VerificationType

/-- Types in a row, with their number. -/
def encodeTypes (types : List VerificationType) : List UInt8 :=
  bytes2 types.length ++ types.flatMap VerificationType.encode

/-- The frames of a `StackMapTable`. -/
inductive StackFrame where
  | same (offset : ℕ)
  | sameExtended (offset : ℕ)
  | sameLocals (offset : ℕ) (item : VerificationType)
  | sameLocalsExtended (offset : ℕ) (item : VerificationType)
  | chop (count offset : ℕ)
  | append (offset : ℕ) (types : List VerificationType)
  | full (offset : ℕ) (locals stack : List VerificationType)
deriving DecidableEq

namespace StackFrame

def offset : StackFrame → ℕ
  | same offset => offset
  | sameExtended offset => offset
  | sameLocals offset _ => offset
  | sameLocalsExtended offset _ => offset
  | chop _ offset => offset
  | append offset _ => offset
  | full offset _ _ => offset

def encode : StackFrame → List UInt8
  | same offset => [byte offset]
  | sameExtended offset => byte 251 :: bytes2 offset
  | sameLocals offset item => byte (offset + 64) :: item.encode
  | sameLocalsExtended offset item => byte 247 :: (bytes2 offset ++ item.encode)
  | chop count offset => byte (251 - count : ℕ) :: bytes2 offset
  | append offset types =>
      byte (251 + types.length : ℕ) :: (bytes2 offset ++ types.flatMap VerificationType.encode)
  | full offset locals stack =>
      byte 255 :: (bytes2 offset ++ (encodeTypes locals ++ encodeTypes stack))

/-- The frame with another offset, and its types with their positions moved. -/
def relocate (move : ℕ → ℕ) (newOffset : ℕ) : StackFrame → StackFrame
  | same _ => if newOffset ≤ 63 then same newOffset else sameExtended newOffset
  | sameExtended _ => sameExtended newOffset
  | sameLocals _ item =>
      if newOffset ≤ 63 then sameLocals newOffset (item.mapPc move)
      else sameLocalsExtended newOffset (item.mapPc move)
  | sameLocalsExtended _ item => sameLocalsExtended newOffset (item.mapPc move)
  | chop count _ => chop count newOffset
  | append _ types => append newOffset (types.map (VerificationType.mapPc move))
  | full _ locals stack => full newOffset (locals.map (VerificationType.mapPc move))
      (stack.map (VerificationType.mapPc move))

@[simp]
theorem offset_relocate (move : ℕ → ℕ) (newOffset : ℕ) (frame : StackFrame) :
    (frame.relocate move newOffset).offset = newOffset := by
  cases frame with
  | same _ =>
      rw [relocate]
      split <;> rfl
  | sameLocals _ item =>
      rw [relocate]
      split <;> rfl
  | _ => rfl

/-- The frame can be written as it is, and its types are moved. -/
def Placed (boundary : ℕ → Prop) : StackFrame → Prop
  | same offset => offset ≤ 63
  | sameExtended offset => offset < 2 ^ 16
  | sameLocals offset item => offset ≤ 63 ∧ item.Placed boundary
  | sameLocalsExtended offset item => offset < 2 ^ 16 ∧ item.Placed boundary
  | chop count offset => 1 ≤ count ∧ count ≤ 3 ∧ offset < 2 ^ 16
  | append offset types => offset < 2 ^ 16 ∧ 1 ≤ types.length ∧ types.length ≤ 3 ∧
      ∀ item ∈ types, item.Placed boundary
  | full offset locals stack => offset < 2 ^ 16 ∧
      (locals.length < 2 ^ 16 ∧ ∀ item ∈ locals, item.Placed boundary) ∧
        stack.length < 2 ^ 16 ∧ ∀ item ∈ stack, item.Placed boundary

end StackFrame

/-- The positions of the frames. -/
abbrev framePcs (frames : List StackFrame) : List ℕ := Deltas.positions StackFrame.offset 0 frames

/-- The frames of the new code. -/
def relocateFrames (move : ℕ → ℕ) (frames : List StackFrame) : List StackFrame :=
  Deltas.relocate StackFrame.offset (StackFrame.relocate move) move 0 0 frames

/-- A frame of the older `StackMap`. -/
structure CldcFrame where
  position : ℕ
  locals : List VerificationType
  stack : List VerificationType
deriving DecidableEq

namespace CldcFrame

def encode (frame : CldcFrame) : List UInt8 :=
  bytes2 frame.position ++ (encodeTypes frame.locals ++ encodeTypes frame.stack)

def mapPc (move : ℕ → ℕ) (frame : CldcFrame) : CldcFrame :=
  ⟨move frame.position, frame.locals.map (VerificationType.mapPc move),
    frame.stack.map (VerificationType.mapPc move)⟩

structure Placed (boundary : ℕ → Prop) (frame : CldcFrame) : Prop where
  position : boundary frame.position
  locals : frame.locals.length < 2 ^ 16 ∧ ∀ item ∈ frame.locals, item.Placed boundary
  stack : frame.stack.length < 2 ^ 16 ∧ ∀ item ∈ frame.stack, item.Placed boundary

end CldcFrame

section Passing

variable {mi : MethodImage} {ci : CrwClassImage} {boundary : ℕ → Prop} {move : ℕ → ℕ}

namespace Relocates

variable (relocates : Relocates mi boundary move)

include relocates

theorem readUoffset {offset : ℕ} (small : offset < 2 ^ 16) :
    CodePasses readUoffset mi ci (bytes2 offset) [] offset := by
  have isShort : ¬ 65535 < mi.codeLen := Nat.not_lt.mpr relocates.short
  have same : ClassFile.readUoffset.run mi = (liftM ClassFile.readU2 : CrwMethod ℕ).run mi := by
    simp [ClassFile.readUoffset, isShort]
  rw [CodePasses, same]
  exact CodePasses.lift (Passes.readU2 ci small)

theorem writeUoffset (value : ℤ) : CodePasses (writeUoffset value) mi ci [] (bytes2 value) () := by
  have isShort : ¬ 65535 < mi.newCodeLen := Nat.not_lt.mpr relocates.newShort
  have same : (ClassFile.writeUoffset value).run mi =
      (liftM (ClassFile.writeU2 value) : CrwMethod Unit).run mi := by
    simp [ClassFile.writeUoffset, isShort]
  rw [CodePasses, same]
  exact CodePasses.writeU2 mi ci value

theorem moveUoffset {position : ℕ} (placed : boundary position) :
    CodePasses moveUoffset mi ci (bytes2 position) (bytes2 (move position)) () := by
  have small := relocates.lt placed
  have kept : TwosComplement.wrap 32 position = position :=
    TwosComplement.wrap_of_inRange (by omega) (by omega)
  have mapped : CodePasses (methodCodeMap (TwosComplement.wrap 32 position)) mi ci [] []
      (move position : ℤ) := by
    rw [kept]
    exact relocates.codeMap placed
  exact Passes.of_eq ((relocates.readUoffset small).bind
    (mapped.bind (relocates.writeUoffset _))) (List.append_nil _) rfl

theorem copyVerificationType {item : VerificationType} (placed : item.Placed boundary) :
    CodePasses (do
      let tag ← copyU1
      if tag = JvmItem.object then
        let _ ← copyU2
      else if tag = JvmItem.uninitialized then
        ClassFile.moveUoffset) mi ci item.encode (item.mapPc move).encode () := by
  cases item with
  | object index =>
      have tagSmall : JvmItem.object < 2 ^ 8 := by decide
      refine (CodePasses.copyU1 mi ci tagSmall).bind ?_
      rw [if_pos rfl]
      exact Passes.of_eq ((CodePasses.copyU2 mi ci placed).bind (CodePasses.pure mi ci ()))
        (List.append_nil _) (List.append_nil _)
  | uninitialized position =>
      have tagSmall : JvmItem.uninitialized < 2 ^ 8 := by decide
      have notObject : ¬ JvmItem.uninitialized = JvmItem.object := by decide
      refine (CodePasses.copyU1 mi ci tagSmall).bind ?_
      rw [if_neg notObject, if_pos rfl]
      exact relocates.moveUoffset placed
  | simple tag =>
      refine Passes.of_eq ((CodePasses.copyU1 mi ci placed.1).bind ?_) (List.append_nil _)
        (List.append_nil _)
      rw [if_neg placed.2.1, if_neg placed.2.2]
      exact CodePasses.pure mi ci ()

theorem copyVerificationTypes {types : List VerificationType}
    (placed : ∀ item ∈ types, item.Placed boundary) :
    CodePasses (copyVerificationTypes types.length) mi ci
      (types.flatMap VerificationType.encode)
      ((types.map (VerificationType.mapPc move)).flatMap VerificationType.encode) () := by
  rw [List.flatMap_map]
  exact CodePasses.times fun item listed => relocates.copyVerificationType (placed item listed)

theorem copyCountedTypes {types : List VerificationType} (few : types.length < 2 ^ 16)
    (placed : ∀ item ∈ types, item.Placed boundary) :
    CodePasses copyCountedTypes mi ci (encodeTypes types)
      (encodeTypes (types.map (VerificationType.mapPc move))) () := by
  rw [encodeTypes, encodeTypes, List.length_map]
  exact (CodePasses.copyU2 mi ci few).bind (relocates.copyVerificationTypes placed)

theorem cldcFrame {frame : CldcFrame} (placed : frame.Placed boundary) :
    CodePasses (do
      ClassFile.moveUoffset
      ClassFile.copyCountedTypes
      ClassFile.copyCountedTypes) mi ci frame.encode (frame.mapPc move).encode () :=
  (relocates.moveUoffset placed.position).bind
    ((relocates.copyCountedTypes placed.locals.1 placed.locals.2).bind
      (relocates.copyCountedTypes placed.stack.1 placed.stack.2))

end Relocates

namespace Frames

/-- What the code computes for a frame behind the frame that was written last. -/
def frameMove (move : ℕ → ℕ) (last : LastFrame) (offset position : ℕ) : FrameMove :=
  ⟨last.deltaAdj + offset, move position, move position - last.newPc⟩

section Types

theorem copyNoTypes {frameType : ℕ} (chopped : 248 ≤ frameType ∧ frameType ≤ 251) :
    CodePasses (copyFrameTypes frameType) mi ci [] [] () := by
  rw [copyFrameTypes, if_neg (by omega), if_neg (by omega), if_neg (by omega)]
  exact CodePasses.pure mi ci ()

variable (relocates : Relocates mi boundary move)

include relocates

/-- One type is copied as a list of one type. -/
theorem copyItem {item : VerificationType} (placed : item.Placed boundary) :
    CodePasses (copyVerificationTypes 1) mi ci item.encode (item.mapPc move).encode () := by
  have types := @Relocates.copyVerificationTypes mi ci boundary move relocates [item]
    fun held listed => List.mem_singleton.mp listed ▸ placed
  refine Passes.of_eq types ?_ ?_
  · rw [List.flatMap_cons, List.flatMap_nil, List.append_nil]
  · rw [List.map_cons, List.map_nil, List.flatMap_cons, List.flatMap_nil, List.append_nil]

theorem copyAppended {types : List VerificationType}
    (count : 1 ≤ types.length ∧ types.length ≤ 3) (placed : ∀ item ∈ types, item.Placed boundary) :
    CodePasses (copyFrameTypes (251 + types.length)) mi ci
      (types.flatMap VerificationType.encode)
      ((types.map (VerificationType.mapPc move)).flatMap VerificationType.encode) () := by
  have isAppend : 252 ≤ 251 + types.length ∧ 251 + types.length ≤ 254 := by omega
  rw [copyFrameTypes, if_neg (by omega), if_pos isAppend, Nat.add_sub_cancel_left]
  exact relocates.copyVerificationTypes placed

end Types

section Writing

variable (relocates : Relocates mi boundary move) {last : LastFrame}
  (adjusted : last.deltaAdj ≤ 1) {position newOffset : ℕ} (stands : boundary position)
  (distance : (move position : ℤ) - last.newPc - last.deltaAdj = newOffset)
  (newSmall : newOffset < 2 ^ 16)

include relocates

include adjusted stands in
theorem moveFrame {offset : ℕ} (small : offset < 2 ^ 16)
    (ahead : last.pc + (last.deltaAdj + offset) = position) :
    CodePasses (moveFrame last offset) mi ci [] [] (frameMove move last offset position) := by
  have kept : TwosComplement.wrap 32 (last.deltaAdj + offset) = last.deltaAdj + offset :=
    TwosComplement.wrap_of_inRange (by omega) (by omega)
  have mapped : CodePasses (methodCodeMap (last.pc + TwosComplement.wrap 32
      (last.deltaAdj + offset))) mi ci [] [] (move position : ℤ) := by
    rw [kept, ahead]
    exact relocates.codeMap stands
  refine Passes.of_eq (mapped.bind ?_) (List.append_nil _) (List.append_nil _)
  rw [kept]
  exact CodePasses.pure mi ci _

include newSmall in
/-- A frame whose type tells its offset is written, with the extended type where it has to. -/
theorem writeShortFrame {base extended : ℕ} {moved : FrameMove}
    (measured : moved.newDelta - last.deltaAdj = newOffset) :
    CodePasses (writeShortFrame last base extended moved) mi ci []
      (if newOffset ≤ 63 then [byte (newOffset + base)] else byte extended :: bytes2 newOffset)
      () := by
  have kept : unsigned newOffset = newOffset := by
    rw [unsigned]
    omega
  simp only [ClassFile.writeShortFrame, measured, kept]
  by_cases fits : newOffset ≤ 63
  · rw [if_pos fits, if_neg (Nat.not_lt.mpr fits)]
    exact CodePasses.writeU1 mi ci _
  · rw [if_neg fits, if_pos (Nat.lt_of_not_le fits)]
    exact (CodePasses.writeU1 mi ci _).bind (relocates.writeUoffset _)

include adjusted stands distance

/-- A frame whose offset stands behind its type. -/
theorem writeExtended (frameType : ℕ) {offset : ℕ} (isExtended : 247 ≤ frameType ∧ frameType ≤ 255)
    (small : offset < 2 ^ 16) (ahead : last.pc + (last.deltaAdj + offset) = position)
    {input output : List UInt8}
    (types : CodePasses (copyFrameTypes frameType) mi ci input output ()) :
    CodePasses (writeFrame last) mi ci (byte frameType :: (bytes2 offset ++ input))
      (byte frameType :: (bytes2 newOffset ++ output)) (frameMove move last offset position) := by
  have typeSmall : frameType < 2 ^ 8 := by omega
  have notSame : ¬ frameType ≤ 63 := by omega
  have notItem : ¬ frameType ≤ 127 := by omega
  have notReserved : ¬ frameType ≤ 246 := by omega
  change CodePasses _ mi ci ([byte frameType] ++ (bytes2 offset ++ input)) ([] ++ _) _
  refine (CodePasses.lift (Passes.readU1 ci typeSmall)).bind ?_
  rw [if_neg notSame, if_neg notItem, if_neg notReserved]
  have newOffsetPasses : CodePasses (ClassFile.writeUoffset
      ((frameMove move last offset position).newDelta - last.deltaAdj)) mi ci []
        (bytes2 newOffset) () := by
    rw [show (frameMove move last offset position).newDelta - last.deltaAdj = newOffset from
      distance]
    exact relocates.writeUoffset _
  refine Passes.of_eq ((relocates.readUoffset small).bind
    ((moveFrame relocates adjusted stands small ahead).bind ((CodePasses.writeU1 mi ci _).bind
      (newOffsetPasses.bind (types.bind (CodePasses.pure mi ci _)))))) ?_ ?_
  · simp only [List.nil_append, List.append_nil]
  · simp only [List.nil_append, List.append_nil, List.singleton_append]

include newSmall

theorem writeFrame {frame : StackFrame} (placed : frame.Placed boundary)
    (ahead : last.pc + (last.deltaAdj + frame.offset) = position) :
    CodePasses (writeFrame last) mi ci frame.encode (frame.relocate move newOffset).encode
      (frameMove move last frame.offset position) := by
  have movedFrame {offset : ℕ} (small : offset < 2 ^ 16)
      (here : last.pc + (last.deltaAdj + offset) = position) :
      CodePasses (ClassFile.moveFrame last offset) mi ci [] []
        (frameMove move last offset position) :=
    moveFrame relocates adjusted stands small here
  cases frame with
  | same offset =>
      have bound : offset ≤ 63 := placed
      change CodePasses _ mi ci ([byte offset] ++ []) ([] ++ _) _
      refine (CodePasses.lift (Passes.readU1 ci (by omega))).bind ?_
      rw [if_pos bound]
      refine Passes.of_eq ((movedFrame (show offset < 2 ^ 16 by omega) ahead).bind
        ((writeShortFrame relocates newSmall distance).bind (CodePasses.pure mi ci _))) rfl ?_
      rw [List.nil_append, List.append_nil, StackFrame.relocate]
      split <;> rfl
  | sameLocals offset item =>
      have bound : offset ≤ 63 := placed.1
      have notSame : ¬ offset + 64 ≤ 63 := by omega
      change CodePasses _ mi ci ([byte (offset + 64 : ℕ)] ++ item.encode) ([] ++ _) _
      refine (CodePasses.lift (Passes.readU1 ci (by omega))).bind ?_
      rw [if_neg notSame, if_pos (show offset + 64 ≤ 127 by omega), Nat.add_sub_cancel]
      refine Passes.of_eq ((movedFrame (show offset < 2 ^ 16 by omega) ahead).bind
        ((writeShortFrame relocates newSmall distance).bind
          ((copyItem relocates placed.2).bind (CodePasses.pure mi ci _)))) (List.append_nil _) ?_
      rw [List.nil_append, List.append_nil, StackFrame.relocate]
      split <;> rfl
  | sameExtended offset =>
      refine Passes.of_eq (writeExtended relocates adjusted stands distance 251 (by decide) placed
        ahead (copyNoTypes (by decide))) ?_ ?_
      · rw [List.append_nil]
        rfl
      · rw [List.append_nil]
        rfl
  | sameLocalsExtended offset item =>
      exact writeExtended relocates adjusted stands distance 247 (by decide) placed.1 ahead
        (copyItem relocates placed.2)
  | chop count offset =>
      rcases placed with ⟨positive, bounded, small⟩
      refine Passes.of_eq (writeExtended relocates adjusted stands distance (251 - count)
        (by omega) small ahead (copyNoTypes (by omega))) ?_ ?_
      · rw [List.append_nil]
        rfl
      · rw [List.append_nil]
        rfl
  | append offset types =>
      rcases placed with ⟨small, positive, bounded, typesPlaced⟩
      rw [StackFrame.relocate, StackFrame.encode, StackFrame.encode, List.length_map]
      exact writeExtended relocates adjusted stands distance (251 + types.length) (by omega) small
        ahead (copyAppended relocates ⟨positive, bounded⟩ typesPlaced)
  | full offset locals stack =>
      rcases placed with ⟨small, ⟨few, localsPlaced⟩, stackFew, stackPlaced⟩
      exact writeExtended relocates adjusted stands distance 255 (by decide) small ahead
        ((relocates.copyCountedTypes few localsPlaced).bind
          (relocates.copyCountedTypes stackFew stackPlaced))

end Writing

/-- The frames from one on, behind the frame that was written last. -/
theorem writeFrames (relocates : Relocates mi boundary move) {frames : List StackFrame}
    {last : LastFrame} (adjusted : last.deltaAdj ≤ 1) {next newNext : ℕ}
    (ahead : last.pc + last.deltaAdj = next) (newAhead : last.newPc + last.deltaAdj = newNext)
    (placed : ∀ frame ∈ frames, frame.Placed boundary)
    (stand : ∀ pc ∈ Deltas.positions StackFrame.offset next frames, boundary pc ∧
      newNext ≤ move pc) :
    CodePasses (writeFrames frames.length last) mi ci (frames.flatMap StackFrame.encode)
      ((Deltas.relocate StackFrame.offset (StackFrame.relocate move) move next newNext
        frames).flatMap StackFrame.encode) () := by
  induction frames generalizing last next newNext with
  | nil => exact CodePasses.pure mi ci ()
  | cons frame rest step =>
      rcases stand _ List.mem_cons_self with ⟨stands, behind⟩
      obtain ⟨position, isPosition⟩ : ∃ position, next + frame.offset = position := ⟨_, rfl⟩
      rw [isPosition] at stands behind
      have inside := relocates.inside stands
      have newInside := relocates.newInside stands
      have newShort := relocates.newShort
      have distance : (move position : ℤ) - last.newPc - last.deltaAdj =
          ((move position - newNext : ℕ) : ℤ) := by omega
      have framePasses : CodePasses (ClassFile.writeFrame last) mi ci frame.encode _ _ :=
        writeFrame relocates adjusted stands distance (by omega) (placed _ List.mem_cons_self)
          (by omega)
      let shown := frameMove move last frame.offset position
      have shownDelta : shown.delta = last.deltaAdj + frame.offset := rfl
      have shownNew : shown.newDelta = move position - last.newPc := rfl
      have restPasses := @step ⟨last.pc + shown.delta, move position, 1⟩ (Nat.le_refl 1)
        (position + 1) (move position + 1) (by
          dsimp only
          omega) rfl (fun later listed => placed later (List.mem_cons_of_mem _ listed))
        (fun pc listed => by
          rw [← isPosition] at listed
          have pcStands := (stand pc (List.mem_cons_of_mem _ listed)).1
          have above := Deltas.le_of_mem_positions listed
          exact ⟨pcStands, relocates.increasing stands pcStands (by omega)⟩)
      have forward : decide (0 ≤ shown.delta) = true := decide_eq_true (by omega)
      have newForward : decide (0 ≤ shown.newDelta) = true := decide_eq_true (by omega)
      have oldEnd : decide (last.pc + shown.delta ≤ mi.codeLen) = true :=
        decide_eq_true (by omega)
      have newEnd : decide (shown.newPc ≤ mi.newCodeLen) = true :=
        decide_eq_true (Int.ofNat_le.mpr newInside)
      refine Passes.of_eq (framePasses.bind <| (CodePasses.methodAssert forward).bind <|
        (CodePasses.methodAssert newForward).bind <| (CodePasses.get mi ci).bind <|
        (CodePasses.methodAssert oldEnd).bind <| (CodePasses.get mi ci).bind <|
        (CodePasses.methodAssert newEnd).bind restPasses) ?_ ?_
      · simp only [List.nil_append, List.flatMap_cons]
      · simp only [List.nil_append, Deltas.relocate, List.flatMap_cons, isPosition]

end Frames

/-- The length of a table is written again behind its entries. -/
theorem passes_frameTable (relocates : Relocates mi boundary move) (isOutput : ci.output ≠ none)
    (writeEntries : ℕ → CrwMethod Unit) {count : ℕ} {input output : List UInt8}
    (few : count < 2 ^ 16) (entries : CodePasses (writeEntries count) mi ci input output ())
    (empty : count = 0 → input = [] ∧ output = []) (grows : input.length ≤ output.length)
    (small : 2 + output.length < 2 ^ 32) :
    CodePasses (writeFrameTable writeEntries) mi ci
      (bytes4 (2 + input.length : ℕ) ++ (bytes2 count ++ input))
      (bytes4 (2 + output.length : ℕ) ++ (bytes2 count ++ output)) () where
  streams := SameStreams.refl ci
  run written start ahead room := by
    let attrLen := 2 + input.length
    let newAttrLen := 2 + output.length
    have countPasses : CodePasses copyUoffset mi ci (bytes2 count) (bytes2 count) count :=
      Passes.of_eq ((relocates.readUoffset few).bind ((relocates.writeUoffset _).bind
        (CodePasses.pure mi ci _))) (List.append_nil _) (List.append_nil _)
    have lenSmall : attrLen < 2 ^ 32 := by
      simp only [attrLen]
      omega
    rcases slice_append.mp ahead with ⟨lenAhead, restAhead⟩
    rcases slice_append.mp restAhead with ⟨countAhead, entriesAhead⟩
    rw [List.length_append, List.length_append, length_bytes4, length_bytes2] at room
    rw [length_bytes4] at countAhead entriesAhead
    rw [length_bytes2] at entriesAhead
    let lenWritten := written ++ bytes4 attrLen
    let headWritten := lenWritten ++ bytes2 count
    have lenRun := (CodePasses.copyU4 mi ci lenSmall).run written start lenAhead
      (room.mono (by rw [length_bytes4]; omega))
    have lenLength : lenWritten.length = written.length + 4 := List.length_append
    have headLength : headWritten.length = lenWritten.length + 2 := List.length_append
    have countRun := countPasses.run lenWritten (start + 4)
      (by rwa [Ahead, ← Nat.add_assoc, length_bytes2])
      (room.mono (by rw [length_bytes2]; omega))
    have entriesRun := entries.run headWritten (start + 4 + 2)
      (by rwa [Ahead, ← Nat.add_assoc, ← Nat.add_assoc]) (room.mono (by omega))
    have patchRun := run_randomWriteU4 ci written (bytes2 count ++ output) attrLen newAttrLen
      (start + 4 + 2 + input.length)
    simp only [length_bytes4, length_bytes2] at lenRun countRun
    simp only [writeFrameTable, StateT.run_bind, run_classImage, outputPosition_emit _ _ isOutput,
      lenRun, Option.bind_eq_bind, Option.bind_some, lenWritten, countRun]
    by_cases none : count = 0
    · obtain ⟨rfl, rfl⟩ := empty none
      have two : decide (attrLen = 2) = true := decide_eq_true rfl
      rw [if_pos none, run_methodAssert _ _ two]
      simp only [attrLen, List.length_nil, List.append_nil, List.append_assoc, List.length_append,
        length_bytes4, length_bytes2, Nat.add_assoc]
    · have measured : unsigned (((ci.outputPosition + (headWritten ++ output).length : ℕ) : ℤ) -
          (((ci.outputPosition + written.length : ℕ) : ℤ) + 4)) = newAttrLen := by
        rw [unsigned, List.length_append]
        omega
      have larger : decide (attrLen ≤ newAttrLen) = true := decide_eq_true (by omega)
      simp only [headWritten, lenWritten] at entriesRun measured
      rw [if_neg none]
      simp only [StateT.run_bind, entriesRun, Option.bind_eq_bind, Option.bind_some, run_classImage,
        outputPosition_emit _ _ isOutput, measured, run_methodAssert _ _ larger, run_liftM]
      rw [List.append_assoc, List.append_assoc, patchRun]
      simp only [newAttrLen, Option.map_some, List.length_append, length_bytes4, length_bytes2,
        Nat.add_assoc]

end Passing

section Growing

variable (move : ℕ → ℕ)

@[simp]
theorem VerificationType.length_mapPc (item : VerificationType) :
    (item.mapPc move).encode.length = item.encode.length := by
  cases item <;> rfl

@[simp]
theorem length_mapTypes (types : List VerificationType) :
    ((types.map (VerificationType.mapPc move)).flatMap VerificationType.encode).length =
      (types.flatMap VerificationType.encode).length := by
  simp [List.length_flatMap, Function.comp_def]

/-- A frame does not shrink. -/
theorem StackFrame.length_le_relocate (newOffset : ℕ) (frame : StackFrame) :
    frame.encode.length ≤ (frame.relocate move newOffset).encode.length := by
  cases frame with
  | same offset =>
      simp only [relocate]
      split <;> simp [encode]
  | sameLocals offset item =>
      simp only [relocate]
      split <;> simp [encode]
  | _ => simp [relocate, encode, encodeTypes, Function.comp_def]

theorem length_le_relocateFrames (frames : List StackFrame) (next newNext : ℕ) :
    (frames.flatMap StackFrame.encode).length ≤
      ((Deltas.relocate StackFrame.offset (StackFrame.relocate move) move next newNext
        frames).flatMap StackFrame.encode).length := by
  induction frames generalizing next newNext with
  | nil => exact Nat.le_refl _
  | cons frame rest step =>
      simp only [Deltas.relocate, List.flatMap_cons, List.length_append]
      exact Nat.add_le_add (frame.length_le_relocate move _) (step _ _)

theorem CldcFrame.length_mapPc (frame : CldcFrame) :
    (frame.mapPc move).encode.length = frame.encode.length := by
  simp [mapPc, encode, encodeTypes, Function.comp_def]

end Growing

/-- The entries of a table, behind their number. -/
def encodeFrames (frames : List StackFrame) : List UInt8 :=
  bytes2 frames.length ++ frames.flatMap StackFrame.encode

def encodeCldcFrames (frames : List CldcFrame) : List UInt8 :=
  bytes2 frames.length ++ frames.flatMap CldcFrame.encode

section Tables

variable {mi : MethodImage} {ci : CrwClassImage} {boundary : ℕ → Prop} {move : ℕ → ℕ}
  (relocates : Relocates mi boundary move) (isOutput : ci.output ≠ none)

include relocates isOutput

/-- The `StackMapTable` is written with its frames moved. -/
theorem passes_stackmapTable {frames : List StackFrame} (few : frames.length < 2 ^ 16)
    (placed : ∀ frame ∈ frames, frame.Placed boundary) (stand : ∀ pc ∈ framePcs frames, boundary pc)
    (small : (encodeFrames (relocateFrames move frames)).length < 2 ^ 32) :
    CodePasses writeStackmapTable mi ci
      (bytes4 (encodeFrames frames).length ++ encodeFrames frames)
      (bytes4 (encodeFrames (relocateFrames move frames)).length ++
        encodeFrames (relocateFrames move frames)) () := by
  have entries := @Frames.writeFrames mi ci boundary move relocates frames LastFrame.first
    (by decide) 0 0 rfl rfl placed fun pc listed => ⟨stand pc listed, Nat.zero_le _⟩
  have table := passes_frameTable relocates isOutput
    (fun count => ClassFile.writeFrames count LastFrame.first) few entries (fun none => by
    obtain rfl := List.length_eq_zero_iff.mp none
    exact ⟨rfl, rfl⟩) (length_le_relocateFrames move frames 0 0) (by
      simpa only [encodeFrames, relocateFrames, List.length_append, length_bytes2] using small)
  simpa only [writeStackmapTable, encodeFrames, relocateFrames, List.length_append, length_bytes2,
    Deltas.length_relocate] using table

/-- The `StackMap` is written with its frames moved. -/
theorem passes_cldcTable {frames : List CldcFrame} (few : frames.length < 2 ^ 16)
    (placed : ∀ frame ∈ frames, frame.Placed boundary)
    (small : (encodeCldcFrames frames).length < 2 ^ 32) :
    CodePasses writeCldcStackmapTable mi ci
      (bytes4 (encodeCldcFrames frames).length ++ encodeCldcFrames frames)
      (bytes4 (encodeCldcFrames (frames.map (CldcFrame.mapPc move))).length ++
        encodeCldcFrames (frames.map (CldcFrame.mapPc move))) () := by
  have entries := @CodePasses.times mi ci _ CldcFrame CldcFrame.encode
    (fun frame => (frame.mapPc move).encode) frames
    fun frame listed => relocates.cldcFrame (placed frame listed)
  have moved : frames.flatMap (fun frame => (frame.mapPc move).encode) =
      (frames.map (CldcFrame.mapPc move)).flatMap CldcFrame.encode := by
    rw [List.flatMap_map]
  rw [moved] at entries
  have same : ((frames.map (CldcFrame.mapPc move)).flatMap CldcFrame.encode).length =
      (frames.flatMap CldcFrame.encode).length := by
    simp [List.length_flatMap, Function.comp_def, CldcFrame.length_mapPc]
  have table := passes_frameTable relocates isOutput (fun count => times count _) few entries
    (fun none => by
    obtain rfl := List.length_eq_zero_iff.mp none
    exact ⟨rfl, rfl⟩) same.ge (by
      rw [same]
      simpa only [encodeCldcFrames, List.length_append, length_bytes2] using small)
  simpa only [writeCldcStackmapTable, encodeCldcFrames, List.length_append, length_bytes2,
    List.length_map] using table

end Tables

/-- The frames of the new table stand where the positions of the old ones have moved. -/
theorem framePcs_relocateFrames {move : ℕ → ℕ} {frames : List StackFrame}
    (increasing : ∀ pc ∈ framePcs frames, ∀ later ∈ framePcs frames,
      pc < later → move pc < move later) :
    framePcs (relocateFrames move frames) = (framePcs frames).map move :=
  Deltas.positions_relocate (fun distance frame => frame.offset_relocate move distance)
    fun pc listed => ⟨Nat.zero_le _, increasing pc listed⟩

end HeapScan.ClassFile
