import HeapScan.ClassFile.CodeAttributes
import HeapScan.ClassFile.Preservation
import HeapScan.ClassFile.Rewriting

/-!
# The Code attribute

The rewriter writes a `Code` attribute in one pass: the code, the exception table, and the
attributes of the code.  The lengths and the stack limit in front of the code are replaced when
they are known.  What has been written then is the attribute of the new code.
-/

namespace HeapScan.ClassFile

open BigEndian CrwClassImage Relocation

/-- A `Code` attribute, behind its length. -/
structure CodeInfo where
  maxStack : ℕ
  maxLocals : ℕ
  code : List UInt8
  handlers : List Handler
  attributes : List CodeAttribute
deriving DecidableEq

namespace CodeInfo

/-- The tables behind the code. -/
def encodeTables (info : CodeInfo) : List UInt8 :=
  (bytes2 info.handlers.length ++ info.handlers.flatMap Handler.encode) ++
    (bytes2 info.attributes.length ++ info.attributes.flatMap CodeAttribute.encode)

def encode (info : CodeInfo) : List UInt8 :=
  bytes2 info.maxStack ++ (bytes2 info.maxLocals ++
    (bytes4 info.code.length ++ (info.code ++ info.encodeTables)))

/-- The attribute can be read, and its positions are those of instructions. -/
structure Rewritable (lengths : OpcodeLengths) (ci : CrwClassImage) (listing : Listing)
    (info : CodeInfo) : Prop where
  lists : Lists lengths info.code 0 listing info.code.length
  small : info.code.length < 2 ^ 16
  targets : TargetsStart listing
  tablesEnd : TablesEnd listing
  ends : EndsWithoutAllocation listing info.code.length
  maxStack : info.maxStack < 2 ^ 16
  maxLocals : info.maxLocals < 2 ^ 16
  handlersFew : info.handlers.length < 2 ^ 16
  handlers : ∀ handler ∈ info.handlers, handler.Placed (Boundary listing info.code.length)
  attributesFew : info.attributes.length < 2 ^ 16
  named : ∀ attr ∈ info.attributes, IsUtf8 ci attr.nameIndex attr.table.name
  placed : ∀ attr ∈ info.attributes, attr.table.Placed (Boundary listing info.code.length)
  attributesSmall : ∀ attr ∈ info.attributes, attr.table.encode.length < 2 ^ 32
  encodeSmall : info.encode.length < 2 ^ 32

theorem Rewritable.of_cpool {lengths : OpcodeLengths} {ci other : CrwClassImage}
    {listing : Listing} {info : CodeInfo} (rewritable : info.Rewritable lengths ci listing)
    (sameCount : other.cpoolCountPlusOne = ci.cpoolCountPlusOne)
    (sameCpool : other.cpool = ci.cpool) : info.Rewritable lengths other listing :=
  { rewritable with
    named := fun attr listed => by
      have isUtf8 := rewritable.named attr listed
      exact ⟨isUtf8.positive, sameCount ▸ isUtf8.inside, isUtf8.small,
        sameCpool ▸ isUtf8.entry⟩ }

/-- The numbers of the attribute fit into their fields. -/
structure Fits (info : CodeInfo) : Prop where
  code : info.code.length ≤ 65535
  maxStack : info.maxStack ≤ 65535
  attributes : ∀ attr ∈ info.attributes, attr.table.encode.length < 2 ^ 32

/-- The attribute with the new code, and with its positions moved. -/
def rewritten (ci : CrwClassImage) (mi : MethodImage) (listing : Listing) (widening : ℕ → ℤ)
    (info : CodeInfo) : CodeInfo where
  maxStack := neededStack ci mi listing
  maxLocals := info.maxLocals
  code := encodeAll 0 (assembled ci mi listing widening)
  handlers := info.handlers.map (Handler.mapPc (newPlace ci mi listing widening))
  attributes := info.attributes.map (CodeAttribute.relocate (newPlace ci mi listing widening))

end CodeInfo

/-- The method as `method_write_bytecodes` begins to rewrite it. -/
def methodImage (mnum : ℕ) (info : CodeInfo) (objectInit : Bool) (start : ℕ) : MethodImage where
  number := mnum
  map := fun position => position
  injections := fun _ => []
  widening := fun _ => 0
  codeLen := info.code.length
  newCodeLen := 0
  startOfInputBytecodes := start
  maxStack := info.maxStack
  newMaxStack := info.maxStack
  objectInitMethod := objectInit
  skipCallReturnSites := objectInit

theorem fresh_methodImage (mnum : ℕ) (info : CodeInfo) (objectInit : Bool) (start : ℕ) :
    (methodImage mnum info objectInit start).Fresh :=
  ⟨fun _ => rfl, fun _ => rfl, fun _ => rfl, rfl⟩

section Relocating

variable {ci : CrwClassImage} {mi : MethodImage} {listing : Listing} {widening : ℕ → ℤ}
  {lengths : OpcodeLengths} {code : List UInt8}

/-- The new code ends where the end of the old code has moved. -/
theorem Widened.newPlace_stop (widened : Widened ci mi listing widening)
    (lists : Lists lengths code 0 listing mi.codeLen) :
    newPlace ci mi listing widening mi.codeLen =
      (encodeAll 0 (assembled ci mi listing widening)).length := by
  have ends := widened.newPlace_part lists lists.chain fun _ listed => listed
  rw [newPlace_zero lists] at ends
  rw [ends, assembled, encodeAll_append, List.length_append, encodeAll_entry, Nat.zero_add]

theorem Widened.newPlace_lt (widened : Widened ci mi listing widening)
    (lists : Lists lengths code 0 listing mi.codeLen) {place later : ℕ}
    (boundary : Boundary listing mi.codeLen place)
    (laterBoundary : Boundary listing mi.codeLen later) (before : place < later) :
    newPlace ci mi listing widening place < newPlace ci mi listing widening later := by
  have moved := widened.newPosition_lt lists boundary laterBoundary before
  rw [widened.newPlace_cast lists boundary, widened.newPlace_cast lists laterBoundary] at moved
  exact Int.ofNat_lt.mp moved

/-- The positions of the instructions move as `map` says. -/
theorem Widened.relocates (widened : Widened ci mi listing widening)
    (lists : Lists lengths code 0 listing mi.codeLen) (short : mi.codeLen ≤ 65535)
    (newShort : (encodeAll 0 (assembled ci mi listing widening)).length ≤ 65535) :
    Relocates { laidOut ci mi listing widening with
        newCodeLen := (encodeAll 0 (assembled ci mi listing widening)).length }
      (Boundary listing mi.codeLen) (newPlace ci mi listing widening) where
  short := short
  newShort := newShort
  inside boundary := lists.chain.boundary_le boundary
  newInside {position} boundary := by
    have stop : Boundary listing mi.codeLen mi.codeLen := Or.inl rfl
    rw [← widened.newPlace_stop lists]
    rcases (lists.chain.boundary_le boundary).lt_or_eq with before | same
    · exact (widened.newPlace_lt lists boundary stop before).le
    · rw [same]
  map {position} boundary := by
    exact (if_pos (lists.chain.boundary_le boundary)).trans (widened.newPlace_cast lists boundary)
  increasing := widened.newPlace_lt lists

end Relocating

section Writing

variable {ci : CrwClassImage} {lengths : OpcodeLengths} {info : CodeInfo} {listing : Listing}

/-- The fields in front of the code. -/
def codeFields (attrLen maxStack maxLocals codeLen : ℕ) : List UInt8 :=
  bytes4 attrLen ++ (bytes2 maxStack ++ (bytes2 maxLocals ++ bytes4 codeLen))

def codeHeader (ci : CrwClassImage) (attrLen maxStack codeLen : ℕ) : CodeHeader :=
  ⟨attrLen, maxStack, codeLen, ci.outputPosition, ci.outputPosition + 4, ci.outputPosition + 8,
    ci.outputPosition + 12⟩

theorem run_copyCodeHeader (isOutput : ci.output ≠ none) {attrLen maxStack maxLocals codeLen : ℕ}
    (attrSmall : attrLen < 2 ^ 32) (stackSmall : maxStack < 2 ^ 16)
    (localsSmall : maxLocals < 2 ^ 16) (codeSmall : codeLen < 2 ^ 32)
    (ahead : Ahead ci 0 (codeFields attrLen maxStack maxLocals codeLen)) (room : ci.HasRoom 12) :
    copyCodeHeader.run ci = some (codeHeader ci attrLen maxStack codeLen,
      (ci.emit (codeFields attrLen maxStack maxLocals codeLen)).advance 12) := by
  rcases slice_append.mp ahead with ⟨attrAhead, stackRest⟩
  rcases slice_append.mp stackRest with ⟨stackAhead, localsRest⟩
  rcases slice_append.mp localsRest with ⟨localsAhead, codeAhead⟩
  have attrRun := (Passes.copyU4 ci attrSmall).run [] 0 attrAhead (room.mono (by simp))
  have stackRun := (Passes.copyU2 ci stackSmall).run (bytes4 attrLen) 4 stackAhead
    (room.mono (by simp))
  have localsRun := (Passes.copyU2 ci localsSmall).run (bytes4 attrLen ++ bytes2 maxStack) 6
    localsAhead (room.mono (by simp))
  have codeRun := (Passes.copyU4 ci codeSmall).run
    (bytes4 attrLen ++ bytes2 maxStack ++ bytes2 maxLocals) 8 codeAhead (room.mono (by simp))
  simp only [emit_nil, advance_zero, List.nil_append, length_bytes4, length_bytes2, Nat.zero_add]
    at attrRun stackRun localsRun codeRun
  simp only [copyCodeHeader, StateT.run_bind, StateT.run_get, attrRun, stackRun,
    localsRun, codeRun, Option.bind_eq_bind, Option.bind_some, outputPosition_emit _ _ isOutput,
    StateT.run_pure, Option.pure_def]
  simp only [codeHeader, codeFields, List.length_append, length_bytes4, length_bytes2,
    List.append_assoc]

/-- The tables are written with their positions moved. -/
theorem passes_codeTables {mi : MethodImage} {move : ℕ → ℕ}
    (relocates : Relocates mi (Boundary listing info.code.length) move)
    (isOutput : ci.output ≠ none)
    (rewritable : info.Rewritable lengths ci listing)
    (fits : ∀ attr ∈ info.attributes, (attr.table.relocate move).encode.length < 2 ^ 32) :
    CodePasses writeCodeTables mi ci info.encodeTables
      ((bytes2 info.handlers.length ++
          (info.handlers.map (Handler.mapPc move)).flatMap Handler.encode) ++
        (bytes2 info.attributes.length ++
          (info.attributes.map (CodeAttribute.relocate move)).flatMap CodeAttribute.encode))
      () := by
  have attributes := @CodePasses.times mi ci methodWriteCodeAttribute CodeAttribute
    CodeAttribute.encode (fun attr => (attr.relocate move).encode) info.attributes
    fun attr listed => passes_codeAttribute relocates isOutput (rewritable.named attr listed)
      (rewritable.placed attr listed) (rewritable.attributesSmall attr listed) (fits attr listed)
  have moved : info.attributes.flatMap (fun attr => (attr.relocate move).encode) =
      (info.attributes.map (CodeAttribute.relocate move)).flatMap CodeAttribute.encode := by
    rw [List.flatMap_map]
  rw [moved] at attributes
  exact (passes_exceptionTable relocates rewritable.handlersFew rewritable.handlers).bind
    ((CodePasses.copyU2 mi ci rewritable.attributesFew).bind attributes)

theorem run_bindTo {α β : Type} {mi next : MethodImage} {nextCi : CrwClassImage}
    {computation : CrwMethod α} {rest : α → CrwMethod β} {value : α}
    (ran : (computation.run mi).run ci = some ((value, next), nextCi)) :
    ((computation >>= rest).run mi).run ci = ((rest value).run next).run nextCi := by
  rw [StateT.run_bind, StateT.run_bind, ran]
  rfl

/-- The injections that are counted for a method. -/
def injectionCount (ci : CrwClassImage) (mi : MethodImage) (listing : Listing) : ℕ :=
  injectionsOf (entryCode ci mi) + injectionTotal ci mi listing

/-- The code and its tables are written, and the numbers in front of the code replaced. -/
theorem run_rewriteCode (numbered : Numbered ci) (isOutput : ci.output ≠ none) {fuel : ℕ}
    {mi : MethodImage} (fresh : mi.Fresh) (sized : mi.codeLen = info.code.length)
    (starts : mi.startOfInputBytecodes = ci.inputPosition + 12)
    (rewritable : info.Rewritable lengths ci listing) {attrLen : ℕ}
    (ahead : Ahead ci 12 (info.code ++ info.encodeTables))
    (enough : (listing.length + 1) ^ 3 ≤ fuel) :
    ∃ widening, Widened ci mi listing widening ∧
      ((info.rewritten ci mi listing widening).Fits →
        ci.HasRoom (4 + (info.rewritten ci mi listing widening).encode.length) →
        ∃ final, ((rewriteCode lengths fuel (codeHeader ci attrLen info.maxStack
            info.code.length)).run mi).run ((ci.emit (codeFields attrLen info.maxStack
              info.maxLocals info.code.length)).advance 12) =
          some (((), final), ((ci.counted (injectionCount ci mi listing)).emit
              (bytes4 (info.rewritten ci mi listing widening).encode.length ++
                (info.rewritten ci mi listing widening).encode)).advance
                  (4 + info.encode.length))) := by
  rcases slice_append.mp ahead with ⟨codeAhead, tablesAhead⟩
  rcases slice_eq_some codeAhead with ⟨inside, isCode⟩
  have codeEq : mi.code ci = info.code := by
    rw [MethodImage.code, starts, sized, ← isCode]
  let fields := codeFields attrLen info.maxStack info.maxLocals info.code.length
  let now := (ci.emit fields).advance 12
  have lists : Lists lengths (mi.code now) 0 listing mi.codeLen := by
    rw [sized]
    exact codeEq ▸ rewritable.lists
  rcases @run_methodInjectAndWriteCode now mi listing lengths fresh numbered
    (by rw [starts, sized]; exact inside) (by rw [sized]; exact rewritable.small) lists
    rewritable.targets rewritable.tablesEnd (by rw [sized]; exact rewritable.ends) fuel enough with
    ⟨widening, widened, _, codeRun⟩
  have widenedHere : Widened ci mi listing widening := ⟨widened.needed, widened.settled⟩
  refine ⟨widening, widenedHere, fun fits room => ?_⟩
  let image := info.rewritten ci mi listing widening
  let counted := ci.counted (injectionCount ci mi listing)
  let laid := laidOut ci mi listing widening
  let sizedMethod : MethodImage := { laid with newCodeLen := image.code.length }
  have fieldsLength : fields.length = 12 := rfl
  have imageLength : image.encode.length = 8 + (image.code.length + image.encodeTables.length) := by
    simp only [CodeInfo.encode, List.length_append, length_bytes2, length_bytes4]
    omega
  have imageRoom : ci.HasRoom (4 + image.encode.length) := room
  have codeRoom : now.HasRoom image.code.length :=
    HasRoom.emit (imageRoom.mono (by rw [fieldsLength]; omega))
  have landed : ((methodInjectAndWriteCode lengths fuel).run mi).run now =
      some (((), laid), (counted.emit (fields ++ image.code)).advance (12 + info.code.length)) := by
    refine (codeRun codeRoom).trans ?_
    rw [starts, sized, Nat.add_assoc]
    rw [← emit_emit]
    rfl
  have relocates : Relocates sizedMethod (Boundary listing info.code.length)
      (newPlace ci mi listing widening) := by
    rw [← sized]
    exact widenedHere.relocates lists (by have small := rewritable.small; omega) fits.code
  have isCounted : counted.output ≠ none := isOutput
  have tables : CodePasses writeCodeTables sizedMethod counted info.encodeTables
      image.encodeTables () := by
    have passes := passes_codeTables relocates isCounted
      (@CodeInfo.Rewritable.of_cpool lengths ci counted listing info rewritable rfl rfl)
      fun attr listed => fits.attributes _ (List.mem_map_of_mem listed)
    simpa only [CodeInfo.encodeTables, image, CodeInfo.rewritten, List.length_map] using passes
  -- The length in front of the code is replaced, then the stack limit, at last the whole length.
  let measured := bytes4 attrLen ++ (bytes2 info.maxStack ++ (bytes2 info.maxLocals ++
    (bytes4 image.code.length ++ image.code)))
  let limited := bytes4 attrLen ++ (bytes2 image.maxStack ++ (bytes2 info.maxLocals ++
    (bytes4 image.code.length ++ image.code)))
  have codeLenRun : (randomWriteU4 (ci.outputPosition + 8) image.code.length).run
      ((counted.emit (fields ++ image.code)).advance (12 + info.code.length)) =
        some ((), (counted.emit measured).advance (12 + info.code.length)) := by
    have patched := run_randomWriteU4 counted
      (bytes4 attrLen ++ (bytes2 info.maxStack ++ bytes2 info.maxLocals)) image.code
      info.code.length image.code.length (12 + info.code.length)
    simp only [List.append_assoc] at patched
    simp only [fields, codeFields, List.append_assoc]
    exact patched
  have stackRun : (randomWriteU2 (ci.outputPosition + 4) image.maxStack).run
      ((counted.emit measured).advance (12 + info.code.length)) =
        some ((), (counted.emit limited).advance (12 + info.code.length)) :=
    run_randomWriteU2 counted (bytes4 attrLen)
      (bytes2 info.maxLocals ++ (bytes4 image.code.length ++ image.code)) info.maxStack
      image.maxStack (12 + info.code.length)
  have limitedLength : limited.length = 12 + image.code.length := by
    simp only [limited, List.length_append, length_bytes2, length_bytes4]
    omega
  have tablesRun := tables.run limited (12 + info.code.length)
    (by rwa [Ahead, ← Nat.add_assoc]) (imageRoom.mono (by omega))
  have attrLenRun : (randomWriteU4 ci.outputPosition image.encode.length).run
      ((counted.emit (limited ++ image.encodeTables)).advance
        (12 + info.code.length + info.encodeTables.length)) =
        some ((), (counted.emit (bytes4 image.encode.length ++ image.encode)).advance
          (12 + info.code.length + info.encodeTables.length)) := by
    have patched := run_randomWriteU4 counted [] image.encode attrLen image.encode.length
      (12 + info.code.length + info.encodeTables.length)
    simp only [limited, List.append_assoc]
    exact patched
  have stackFits : decide (image.maxStack ≤ 65535) = true := decide_eq_true fits.maxStack
  have samePosition : counted.outputPosition = ci.outputPosition := rfl
  have codeSize : ((counted.emit (fields ++ image.code)).advance
      (12 + info.code.length)).outputPosition - (ci.outputPosition + 12) = image.code.length := by
    rw [outputPosition_emit _ _ isCounted, List.length_append, fieldsLength]
    omega
  have attrSize : ((counted.emit (limited ++ image.encodeTables)).advance
      (12 + info.code.length + info.encodeTables.length)).outputPosition -
        (ci.outputPosition + 4) = image.encode.length := by
    rw [outputPosition_emit _ _ isCounted, List.length_append, limitedLength]
    omega
  have total : 4 + info.encode.length = 12 + info.code.length + info.encodeTables.length := by
    simp only [CodeInfo.encode, List.length_append, length_bytes2, length_bytes4]
    omega
  refine ⟨sizedMethod, ?_⟩
  rw [total]
  have lifted {computation : Crw Unit} {before after : CrwClassImage}
      (ran : computation.run before = some ((), after)) :
      ((liftM computation : CrwMethod Unit).run sizedMethod).run before =
        some (((), sizedMethod), after) := by
    rw [run_liftM, ran, Option.map_some]
  have resized (now : CrwClassImage) : ((modify fun mi => { mi with
      newCodeLen := image.code.length } : CrwMethod Unit).run laid).run now =
        some (((), sizedMethod), now) := rfl
  have asked (now : CrwClassImage) : ((get : CrwMethod MethodImage).run sizedMethod).run now =
      some ((sizedMethod, sizedMethod), now) := rfl
  refine (run_andThen landed).trans ((run_bindTo (run_classImage _ _)).trans ?_)
  simp only [codeHeader, codeSize]
  refine (run_bindTo (resized _)).trans ((run_bindTo (lifted codeLenRun)).trans ?_)
  refine (run_bindTo (asked _)).trans ((run_bindTo (run_methodAssert _ _ stackFits)).trans ?_)
  refine (run_bindTo (asked _)).trans ((run_bindTo (lifted stackRun)).trans ?_)
  refine (run_bindTo tablesRun).trans ((run_bindTo (run_classImage _ _)).trans ?_)
  simp only [attrSize]
  exact lifted attrLenRun

end Writing

end HeapScan.ClassFile
