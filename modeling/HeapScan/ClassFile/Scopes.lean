import HeapScan.ClassFile.CodeInfo
import HeapScan.ClassFile.Transparency

/-!
# What the tables say about the new code

An instruction is followed in the new code by what is injected behind it and preceded by what is
injected before it.  At each of these bytes the tables of the new code say what the old ones say
at the instruction: the same lines, the same variables in scope, the same handlers, and the stack
map describes the same instructions.
-/

namespace HeapScan.ClassFile

open BigEndian Relocation

/-- The table says something about a position. -/
def LineEntry.Reaches (entry : LineEntry) (place : ℕ) : Prop := entry.startPc ≤ place

instance (entry : LineEntry) (place : ℕ) : Decidable (entry.Reaches place) :=
  inferInstanceAs (Decidable (_ ≤ _))

/-- The variable is in scope. -/
def VarEntry.Covers (entry : VarEntry) (place : ℕ) : Prop :=
  entry.startPc ≤ place ∧ place < entry.startPc + entry.length

instance (entry : VarEntry) (place : ℕ) : Decidable (entry.Covers place) :=
  inferInstanceAs (Decidable (_ ∧ _))

def Handler.Covers (handler : Handler) (place : ℕ) : Prop :=
  handler.startPc ≤ place ∧ place < handler.endPc

instance (handler : Handler) (place : ℕ) : Decidable (handler.Covers place) :=
  inferInstanceAs (Decidable (_ ∧ _))

section Relocating

variable {mi : MethodImage} {boundary : ℕ → Prop} {move : ℕ → ℕ}

theorem Relocates.le_iff (relocates : Relocates mi boundary move) {position later : ℕ}
    (here : boundary position) (there : boundary later) :
    move position ≤ move later ↔ position ≤ later := by
  rcases Nat.lt_trichotomy position later with before | rfl | behind
  · have moved := relocates.increasing here there before
    omega
  · simp
  · have moved := relocates.increasing there here behind
    omega

/-- No instruction begins inside the piece from `position` to `next`. -/
structure IsPiece (boundary : ℕ → Prop) (position next : ℕ) : Prop where
  here : boundary position
  there : boundary next
  before : position < next
  whole : ∀ {bound}, boundary bound → position < bound → next ≤ bound

variable {position next place bound : ℕ}

theorem Relocates.reached_iff (relocates : Relocates mi boundary move)
    (piece : IsPiece boundary position next) (from_ : move position ≤ place)
    (before : place < move next) (isBound : boundary bound) :
    move bound ≤ place ↔ bound ≤ position := by
  have startHere := relocates.le_iff isBound piece.here
  have startNext := relocates.le_iff piece.there isBound
  have ends := piece.whole isBound
  omega

/-- At the entry the new code begins with what is injected there. -/
theorem Relocates.entered_iff (relocates : Relocates mi boundary move)
    (piece : IsPiece boundary position next) (from_ : move position ≤ place ∨ position = 0)
    (before : place < move next) (isBound : boundary bound) :
    startMove move bound ≤ place ↔ bound ≤ position := by
  rw [startMove]
  split
  · rename_i start
    simp [start]
  · rename_i later
    rcases from_ with inside | entry
    · exact relocates.reached_iff piece inside before isBound
    · have startNext := relocates.le_iff piece.there isBound
      have ends := piece.whole isBound
      omega

theorem Relocates.lines_reach (relocates : Relocates mi boundary move)
    (piece : IsPiece boundary position next) (from_ : move position ≤ place ∨ position = 0)
    (before : place < move next) {entries : List LineEntry}
    (placed : ∀ entry ∈ entries, entry.Placed boundary) :
    (entries.map (LineEntry.mapPc move)).filter (·.Reaches place) =
      (entries.filter (·.Reaches position)).map (LineEntry.mapPc move) := by
  rw [List.filter_map]
  refine congrArg _ (List.filter_congr fun entry listed => ?_)
  exact decide_eq_decide.mpr
    (relocates.entered_iff piece from_ before (placed entry listed).startPc)

theorem Relocates.vars_cover (relocates : Relocates mi boundary move)
    (piece : IsPiece boundary position next) (from_ : move position ≤ place)
    (before : place < move next) {entries : List VarEntry}
    (placed : ∀ entry ∈ entries, entry.Placed boundary) :
    (entries.map (VarEntry.mapPc move)).filter (·.Covers place) =
      (entries.filter (·.Covers position)).map (VarEntry.mapPc move) := by
  rw [List.filter_map]
  refine congrArg _ (List.filter_congr fun entry listed => ?_)
  have stands := placed entry listed
  have begins := relocates.entered_iff piece (Or.inl from_) before stands.startPc
  have ends := relocates.reached_iff piece from_ before stands.endPc
  have ordered := entry.startMove_le relocates stands
  refine decide_eq_decide.mpr ?_
  simp only [VarEntry.Covers, VarEntry.mapPc]
  omega

theorem Relocates.handlers_cover (relocates : Relocates mi boundary move)
    (piece : IsPiece boundary position next) (from_ : move position ≤ place)
    (before : place < move next) {handlers : List Handler}
    (placed : ∀ handler ∈ handlers, handler.Placed boundary) :
    (handlers.map (Handler.mapPc move)).filter (·.Covers place) =
      (handlers.filter (·.Covers position)).map (Handler.mapPc move) := by
  rw [List.filter_map]
  refine congrArg _ (List.filter_congr fun handler listed => ?_)
  have begins := relocates.reached_iff piece from_ before (placed handler listed).startPc
  have ends := relocates.reached_iff piece from_ before (placed handler listed).endPc
  refine decide_eq_decide.mpr ?_
  simp only [Handler.Covers, Handler.mapPc]
  omega

end Relocating

theorem Lists.isPiece {lengths : OpcodeLengths} {code : List UInt8} {listing : Listing}
    {stop position : ℕ} {instruction : Instruction} (lists : Lists lengths code 0 listing stop)
    (listed : (position, instruction) ∈ listing) :
    IsPiece (Boundary listing stop) position (position + instruction.size position) where
  here := Or.inr ⟨instruction, listed⟩
  there := by
    rcases List.append_of_mem listed with ⟨before, after, rfl⟩
    have parts := lists.chain.split
    rcases after with _ | ⟨⟨start, other⟩, rest⟩
    · exact Or.inl parts.2
    · obtain rfl := parts.2.1
      exact Or.inr ⟨other, by simp⟩
  before := Nat.lt_add_of_pos_right (instruction.size_pos position)
  whole isBound behind := by
    rcases isBound with rfl | ⟨other, otherListed⟩
    · exact (lists.chain.bounds listed).2
    · exact lists.chain.ends_before listed otherListed behind

/-- The method when its new code has been written. -/
def rewrittenMethod (ci : CrwClassImage) (mi : MethodImage) (listing : Listing)
    (widening : ℕ → ℤ) : MethodImage :=
  { laidOut ci mi listing widening with
    newCodeLen := (encodeAll 0 (assembled ci mi listing widening)).length }

/-- What a frame tells of the locals and the stack, however its offset is encoded. -/
inductive FrameChange where
  | same
  | sameLocals (item : VerificationType)
  | chop (count : ℕ)
  | append (types : List VerificationType)
  | full (locals stack : List VerificationType)
deriving DecidableEq

def StackFrame.change : StackFrame → FrameChange
  | same _ | sameExtended _ => .same
  | sameLocals _ item | sameLocalsExtended _ item => .sameLocals item
  | chop count _ => .chop count
  | append _ types => .append types
  | full _ locals stack => .full locals stack

def FrameChange.mapPc (move : ℕ → ℕ) : FrameChange → FrameChange
  | same => same
  | sameLocals item => sameLocals (item.mapPc move)
  | chop count => chop count
  | append types => append (types.map (VerificationType.mapPc move))
  | full locals stack =>
      full (locals.map (VerificationType.mapPc move)) (stack.map (VerificationType.mapPc move))

theorem StackFrame.change_relocate (move : ℕ → ℕ) (newOffset : ℕ) (frame : StackFrame) :
    (frame.relocate move newOffset).change = frame.change.mapPc move := by
  cases frame with
  | same offset =>
      rw [relocate]
      split <;> rfl
  | sameLocals offset item =>
      rw [relocate]
      split <;> rfl
  | _ => rfl

section Allocating

/-- `iload_1`, a branch to the `nop`, `newarray`, `pop`, eleven calls, `nop` and `return`. -/
def allocatingListing : Listing :=
  [(0, .plain 26 []), (1, .jump 153 61), (4, .plain 188 [10]), (6, .plain 87 [])] ++
    ((List.range 11).map fun call => (7 + 5 * call, .plain 185 [0, 1, 1, 0])) ++
    [(62, .plain 0 []), (63, .plain 177 [])]

def allocatingCode : List UInt8 :=
  [26, 153, 0, 61, 188, 10, 87] ++ (List.replicate 11 [185, 0, 1, 1, 0]).flatten ++ [0, 177]

def allocatingMethod : MethodImage := { constructorMethod with codeLen := 64 }

/-- A class image in which a table is read next. -/
def allocatingImage (table : List UInt8) : CrwClassImage :=
  { objectConstructor with input := table, indices := ⟨4, 7, 8, 0, 0, 0⟩ }

theorem lists_allocating : Lists jvmLengths allocatingCode 0 allocatingListing 64 := by
  have decoded : ∀ entry ∈ allocatingListing,
      decodeAt jvmLengths allocatingCode entry.1 = some entry.2 := by decide
  refine ⟨?_, fun entry listed => ?_, fun entry listed => ?_⟩
  · simp [allocatingListing, Chain, Instruction.size, List.range, List.range.loop]
  · exact (decodeAt_eq_some_iff.mp (decoded entry listed)).1
  · exact (decodeAt_eq_some_iff.mp (decoded entry listed)).2

theorem widened_allocating (table : List UInt8) :
    Widened (allocatingImage table) allocatingMethod allocatingListing fun _ => 0 where
  needed entry _ := by
    rcases entry with ⟨position, instruction⟩
    cases instruction <;> simp
  settled := by
    have branch : Fits2 (newDelta (allocatingImage []) allocatingMethod allocatingListing
        (fun _ => 0) 1 61) := by decide
    have others : ∀ entry ∈ allocatingListing, entry = (1, .jump 153 61) ∨
        ∃ opcode operands, entry.2 = .plain opcode operands := by
      simp only [allocatingListing, List.forall_mem_append, List.forall_mem_map]
      simp
    intro entry listed
    rcases others entry listed with rfl | ⟨opcode, operands, isPlain⟩
    · exact fun _ => branch
    · simp only [Settled, isPlain]

theorem newShort_allocating (table : List UInt8) :
    (encodeAll 0 (assembled (allocatingImage table) allocatingMethod allocatingListing
      fun _ => 0)).length ≤ 65535 :=
  show (encodeAll 0 (assembled (allocatingImage []) allocatingMethod allocatingListing
    fun _ => 0)).length ≤ 65535 by decide

/-- Where the instructions stand in the new code. -/
def allocatingPlace : ℕ → ℕ :=
  newPlace (allocatingImage []) allocatingMethod allocatingListing fun _ => 0

/-- The writer writes the one table for the other, in the method when its code is written. -/
def AllocatingWrites (writer : CrwMethod Unit) (table written : List UInt8) : Prop :=
  let image := allocatingImage table
  let method := rewrittenMethod image allocatingMethod allocatingListing fun _ => 0
  (writer.run method).run image =
    some (((), method), (image.emit written).advance table.length)

theorem allocatingWrites_of_passes {writer : CrwMethod Unit} {table written : List UInt8}
    (passes : CodePasses writer (rewrittenMethod (allocatingImage table) allocatingMethod
      allocatingListing fun _ => 0) (allocatingImage table) table written ())
    (room : written.length ≤ 514) : AllocatingWrites writer table written := by
  have ahead : Ahead (allocatingImage table) 0 table := by
    simp [Ahead, slice, allocatingImage, objectConstructor]
  have ran := passes.run [] 0 ahead (fun before isOutput => by
    rw [← Option.some.inj isOutput]
    simpa [allocatingImage, objectConstructor] using room)
  simpa only [AllocatingWrites, CrwClassImage.emit_nil, CrwClassImage.advance_zero,
    List.nil_append, Nat.zero_add] using ran

theorem boundary_allocating {place : ℕ}
    (listed : place ∈ 64 :: allocatingListing.map Prod.fst) :
    Boundary allocatingListing 64 place := by
  rcases List.mem_cons.mp listed with isEnd | inside
  · exact Or.inl isEnd
  · rcases List.mem_map.mp inside with ⟨entry, isEntry, rfl⟩
    exact Or.inr ⟨entry.2, isEntry⟩

end Allocating

section Rewriting

variable {ci : CrwClassImage} {mi : MethodImage} {listing : Listing} {widening : ℕ → ℤ}
  {lengths : OpcodeLengths} {code : List UInt8}

/-- Each byte of the new code has the lines of the instruction that it belongs to; what is
injected at the entry has those of the first instruction. -/
theorem writeLineTable_lines (widened : Widened ci mi listing widening)
    (lists : Lists lengths code 0 listing mi.codeLen) (short : mi.codeLen ≤ 65535)
    (newShort : (encodeAll 0 (assembled ci mi listing widening)).length ≤ 65535)
    {entries : List LineEntry} (few : entries.length < 2 ^ 16)
    (placed : ∀ entry ∈ entries, entry.Placed (Boundary listing mi.codeLen)) {attrLen : ℕ}
    (small : attrLen < 2 ^ 32) :
    let moved := entries.map (LineEntry.mapPc (newPlace ci mi listing widening))
    CodePasses writeLineTable (rewrittenMethod ci mi listing widening) ci
        (bytes4 attrLen ++ (bytes2 entries.length ++ entries.flatMap LineEntry.encode))
        (bytes4 attrLen ++ (bytes2 entries.length ++ moved.flatMap LineEntry.encode)) () ∧
      ∀ position instruction place, (position, instruction) ∈ listing →
        newPlace ci mi listing widening position ≤ place ∨ position = 0 →
          place < newPlace ci mi listing widening (position + instruction.size position) →
            (moved.filter (·.Reaches place)).map LineEntry.line =
              (entries.filter (·.Reaches position)).map LineEntry.line := by
  have relocates := widened.relocates lists short newShort
  refine ⟨passes_lineTable relocates few placed small, ?_⟩
  intro position instruction place listed from_ before
  rw [relocates.lines_reach (lists.isPiece listed) from_ before placed, List.map_map]
  rfl

/-- The call behind `newarray` has its line, and what is injected at the entry the first one. -/
theorem lines_allocating :
    let entries : List LineEntry := [⟨0, 37⟩, ⟨4, 38⟩, ⟨62, 39⟩]
    let moved : List LineEntry := [⟨0, 37⟩, ⟨8, 38⟩, ⟨70, 39⟩]
    AllocatingWrites writeLineTable
        (bytes4 (14 : ℕ) ++ (bytes2 entries.length ++ entries.flatMap LineEntry.encode))
        (bytes4 (14 : ℕ) ++ (bytes2 entries.length ++ moved.flatMap LineEntry.encode)) ∧
      (moved.filter (·.Reaches 3)).map LineEntry.line = [37] ∧
      (moved.filter (·.Reaches 12)).map LineEntry.line = [37, 38] := by
  intro entries moved
  have stand : ∀ entry ∈ entries, entry.startPc ∈ 64 :: allocatingListing.map Prod.fst ∧
      entry.line < 2 ^ 16 := by decide
  have isMoved : entries.map (LineEntry.mapPc allocatingPlace) = moved := by decide
  have written (table : List UInt8) := writeLineTable_lines (widened_allocating table)
    lists_allocating (by decide) (newShort_allocating table)
    (show entries.length < 2 ^ 16 by decide)
    (fun entry listed => ⟨boundary_allocating (stand entry listed).1, (stand entry listed).2⟩)
    (show 14 < 2 ^ 32 by decide)
  refine ⟨allocatingWrites_of_passes (isMoved ▸ (written _).1) (by decide), ?_, ?_⟩
  · exact (isMoved ▸ (written []).2) 0 (.plain 26 []) 3 (by decide) (Or.inr rfl) (by decide)
  · exact (isMoved ▸ (written []).2) 4 (.plain 188 [10]) 12 (by decide) (by decide) (by decide)

/-- At each byte of the new code the variables of its instruction are in scope. -/
theorem writeVarTable_scopes (widened : Widened ci mi listing widening)
    (lists : Lists lengths code 0 listing mi.codeLen) (short : mi.codeLen ≤ 65535)
    (newShort : (encodeAll 0 (assembled ci mi listing widening)).length ≤ 65535)
    {entries : List VarEntry} (few : entries.length < 2 ^ 16)
    (placed : ∀ entry ∈ entries, entry.Placed (Boundary listing mi.codeLen)) {attrLen : ℕ}
    (small : attrLen < 2 ^ 32) :
    let moved := entries.map (VarEntry.mapPc (newPlace ci mi listing widening))
    CodePasses writeVarTable (rewrittenMethod ci mi listing widening) ci
        (bytes4 attrLen ++ (bytes2 entries.length ++ entries.flatMap VarEntry.encode))
        (bytes4 attrLen ++ (bytes2 entries.length ++ moved.flatMap VarEntry.encode)) () ∧
      ∀ position instruction place, (position, instruction) ∈ listing →
        newPlace ci mi listing widening position ≤ place →
          place < newPlace ci mi listing widening (position + instruction.size position) →
            (moved.filter (·.Covers place)).map
                (fun entry => (entry.name, entry.descr, entry.index)) =
              (entries.filter (·.Covers position)).map
                fun entry => (entry.name, entry.descr, entry.index) := by
  have relocates := widened.relocates lists short newShort
  refine ⟨passes_varTable relocates few placed small, ?_⟩
  intro position instruction place listed from_ before
  rw [relocates.vars_cover (lists.isPiece listed) from_ before placed, List.map_map]
  rfl

/-- The variable whose scope begins behind `newarray` is not yet in scope in the call there. -/
theorem scopes_allocating :
    let entries : List VarEntry := [⟨0, 64, 5, 6, 0⟩, ⟨6, 56, 7, 8, 1⟩]
    let moved : List VarEntry := [⟨0, 72, 5, 6, 0⟩, ⟨14, 56, 7, 8, 1⟩]
    AllocatingWrites writeVarTable
        (bytes4 (22 : ℕ) ++ (bytes2 entries.length ++ entries.flatMap VarEntry.encode))
        (bytes4 (22 : ℕ) ++ (bytes2 entries.length ++ moved.flatMap VarEntry.encode)) ∧
      (moved.filter (·.Covers 12)).map (fun entry => (entry.name, entry.descr, entry.index)) =
        [(5, 6, 0)] ∧
      (moved.filter (·.Covers 69)).map (fun entry => (entry.name, entry.descr, entry.index)) =
        [(5, 6, 0), (7, 8, 1)] := by
  intro entries moved
  have stand : ∀ entry ∈ entries, entry.startPc ∈ 64 :: allocatingListing.map Prod.fst ∧
      entry.startPc + entry.length ∈ 64 :: allocatingListing.map Prod.fst ∧
      entry.name < 2 ^ 16 ∧ entry.descr < 2 ^ 16 ∧ entry.index < 2 ^ 16 := by decide
  have isMoved : entries.map (VarEntry.mapPc allocatingPlace) = moved := by decide
  have written (table : List UInt8) := writeVarTable_scopes (widened_allocating table)
    lists_allocating (by decide) (newShort_allocating table)
    (show entries.length < 2 ^ 16 by decide)
    (fun entry listed => ⟨boundary_allocating (stand entry listed).1,
      boundary_allocating (stand entry listed).2.1, (stand entry listed).2.2.1,
      (stand entry listed).2.2.2.1, (stand entry listed).2.2.2.2⟩)
    (show 22 < 2 ^ 32 by decide)
  refine ⟨allocatingWrites_of_passes (isMoved ▸ (written _).1) (by decide), ?_, ?_⟩
  · exact (isMoved ▸ (written []).2) 4 (.plain 188 [10]) 12 (by decide) (by decide) (by decide)
  · exact (isMoved ▸ (written []).2) 57 (.plain 185 [0, 1, 1, 0]) 69 (by decide) (by decide)
      (by decide)

/-- Each byte of the new code is covered by the handlers of its instruction, in their order, and
each handler is where it has moved. -/
theorem methodWriteExceptionTable_handlers (widened : Widened ci mi listing widening)
    (lists : Lists lengths code 0 listing mi.codeLen) (short : mi.codeLen ≤ 65535)
    (newShort : (encodeAll 0 (assembled ci mi listing widening)).length ≤ 65535)
    {handlers : List Handler} (few : handlers.length < 2 ^ 16)
    (placed : ∀ handler ∈ handlers, handler.Placed (Boundary listing mi.codeLen)) :
    let moved := handlers.map (Handler.mapPc (newPlace ci mi listing widening))
    CodePasses methodWriteExceptionTable (rewrittenMethod ci mi listing widening) ci
        (bytes2 handlers.length ++ handlers.flatMap Handler.encode)
        (bytes2 handlers.length ++ moved.flatMap Handler.encode) () ∧
      ∀ position instruction place, (position, instruction) ∈ listing →
        newPlace ci mi listing widening position ≤ place →
          place < newPlace ci mi listing widening (position + instruction.size position) →
            (moved.filter (·.Covers place)).map
                (fun handler => (handler.handlerPc, handler.catchType)) =
              (handlers.filter (·.Covers position)).map fun handler =>
                (newPlace ci mi listing widening handler.handlerPc, handler.catchType) := by
  have relocates := widened.relocates lists short newShort
  refine ⟨passes_exceptionTable relocates few placed, ?_⟩
  intro position instruction place listed from_ before
  rw [relocates.handlers_cover (lists.isPiece listed) from_ before placed, List.map_map]
  rfl

/-- Two handlers, one inside the other; both cover the call behind `newarray`. -/
theorem handlers_allocating :
    let handlers : List Handler := [⟨4, 6, 62, 9⟩, ⟨0, 62, 63, 0⟩]
    let moved : List Handler := [⟨8, 14, 70, 9⟩, ⟨4, 70, 71, 0⟩]
    AllocatingWrites methodWriteExceptionTable
        (bytes2 handlers.length ++ handlers.flatMap Handler.encode)
        (bytes2 handlers.length ++ moved.flatMap Handler.encode) ∧
      (moved.filter (·.Covers 12)).map (fun handler => (handler.handlerPc, handler.catchType)) =
        [(70, 9), (71, 0)] ∧
      (moved.filter (·.Covers 14)).map (fun handler => (handler.handlerPc, handler.catchType)) =
        [(71, 0)] := by
  intro handlers moved
  have stand : ∀ handler ∈ handlers, handler.startPc ∈ 64 :: allocatingListing.map Prod.fst ∧
      handler.endPc ∈ 64 :: allocatingListing.map Prod.fst ∧
      handler.handlerPc ∈ 64 :: allocatingListing.map Prod.fst ∧
      handler.catchType < 2 ^ 16 := by decide
  have isMoved : handlers.map (Handler.mapPc allocatingPlace) = moved := by decide
  have written (table : List UInt8) := methodWriteExceptionTable_handlers
    (widened_allocating table) lists_allocating (by decide) (newShort_allocating table)
    (show handlers.length < 2 ^ 16 by decide)
    (fun handler listed => ⟨boundary_allocating (stand handler listed).1,
      boundary_allocating (stand handler listed).2.1,
      boundary_allocating (stand handler listed).2.2.1, (stand handler listed).2.2.2⟩)
  refine ⟨allocatingWrites_of_passes (isMoved ▸ (written _).1) (by decide), ?_, ?_⟩
  · exact (isMoved ▸ (written []).2) 4 (.plain 188 [10]) 12 (by decide) (by decide) (by decide)
  · exact (isMoved ▸ (written []).2) 6 (.plain 87 []) 14 (by decide) (by decide) (by decide)

/-- The frames of the new code stand at the instructions that they stood at, however their offsets
have to be encoded there, and change the types as before. -/
theorem writeStackmapTable_frames (widened : Widened ci mi listing widening)
    (lists : Lists lengths code 0 listing mi.codeLen) (short : mi.codeLen ≤ 65535)
    (newShort : (encodeAll 0 (assembled ci mi listing widening)).length ≤ 65535)
    (isOutput : ci.output ≠ none) {frames : List StackFrame} (few : frames.length < 2 ^ 16)
    (placed : ∀ frame ∈ frames, frame.Placed (Boundary listing mi.codeLen))
    (stand : ∀ pc ∈ framePcs frames, Boundary listing mi.codeLen pc)
    (small : (encodeFrames (relocateFrames (newPlace ci mi listing widening) frames)).length <
      2 ^ 32) :
    let moved := relocateFrames (newPlace ci mi listing widening) frames
    CodePasses writeStackmapTable (rewrittenMethod ci mi listing widening) ci
        (bytes4 (encodeFrames frames).length ++ encodeFrames frames)
        (bytes4 (encodeFrames moved).length ++ encodeFrames moved) () ∧
      framePcs moved = (framePcs frames).map (newPlace ci mi listing widening) ∧
      moved.map StackFrame.change = frames.map fun frame =>
        frame.change.mapPc (newPlace ci mi listing widening) := by
  have relocates := widened.relocates lists short newShort
  refine ⟨passes_stackmapTable relocates isOutput few placed stand small, ?_, ?_⟩
  · exact framePcs_relocateFrames fun pc listed later laterListed =>
      relocates.increasing (stand pc listed) (stand later laterListed)
  · exact Deltas.map_relocate (fun distance frame => frame.change_relocate _ distance) 0 0 frames

/-- The first frame is further from the start than a short frame tells, and the table grows. -/
theorem frames_allocating :
    let frames : List StackFrame := [.same 62, .append 0 [.object 3, .uninitialized 4]]
    let moved : List StackFrame := [.sameExtended 70, .append 0 [.object 3, .uninitialized 8]]
    AllocatingWrites writeStackmapTable
        (bytes4 (encodeFrames frames).length ++ encodeFrames frames)
        (bytes4 (encodeFrames moved).length ++ encodeFrames moved) ∧
      framePcs moved = [70, 71] ∧
      moved.map StackFrame.change = [.same, .append [.object 3, .uninitialized 8]] := by
  intro frames moved
  have stand : ∀ pc ∈ framePcs frames, pc ∈ 64 :: allocatingListing.map Prod.fst := by decide
  have allocated : Boundary allocatingListing 64 4 := boundary_allocating (by decide)
  have placed : ∀ frame ∈ frames, frame.Placed (Boundary allocatingListing 64) := by
    simp [frames, StackFrame.Placed, VerificationType.Placed, allocated]
  have isMoved : relocateFrames allocatingPlace frames = moved := by decide
  have small : (encodeFrames (relocateFrames allocatingPlace frames)).length < 2 ^ 32 := by decide
  have written (table : List UInt8) := writeStackmapTable_frames (widened_allocating table)
    lists_allocating (by decide) (newShort_allocating table) (Option.some_ne_none _)
    (show frames.length < 2 ^ 16 by decide) placed
    (fun pc listed => boundary_allocating (stand pc listed)) small
  refine ⟨allocatingWrites_of_passes (isMoved ▸ (written _).1) (by decide), ?_, ?_⟩
  · exact isMoved ▸ (written []).2.1
  · exact isMoved ▸ (written []).2.2

end Rewriting

end HeapScan.ClassFile
