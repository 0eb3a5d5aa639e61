import HeapScan.ClassFile.CodeInfo
import HeapScan.ClassFile.Transparency

/-!
# The methods of a class

A `Code` attribute is copied as it is where the method is skipped, and rewritten otherwise.  The
other attributes of a method are copied, and the methods are written one after another; each begins
in the image that the one before it has left.
-/

namespace HeapScan.ClassFile

open BigEndian CrwClassImage Relocation

section Bytecodes

variable {ci : CrwClassImage} {lengths : OpcodeLengths} {info : CodeInfo} {listing : Listing}
  {mnum : ℕ} {name descr : Option (List UInt8)} {objectInit : Bool}

theorem run_asking {α : Type} {question : CrwClassImage → Option α} {answer : α}
    (answers : question ci = some answer) : (asking question).run ci = some (answer, ci) := by
  simp only [asking, StateT.run, answers, Option.map_some]

theorem run_bindWith {α β : Type} {nextCi : CrwClassImage} {computation : Crw α}
    {rest : α → Crw β} {value : α} (ran : computation.run ci = some (value, nextCi)) :
    (computation >>= rest).run ci = (rest value).run nextCi := by
  rw [StateT.run_bind, ran]
  rfl

/-- The fields of a `Code` attribute are in range. -/
structure CodeInfo.Small (info : CodeInfo) : Prop where
  maxStack : info.maxStack < 2 ^ 16
  maxLocals : info.maxLocals < 2 ^ 16
  code : info.code.length < 2 ^ 16
  encode : info.encode.length < 2 ^ 32

/-- Up to the decision whether the code is rewritten. -/
theorem run_methodWriteBytecodes (isOutput : ci.output ≠ none) (small : info.Small)
    (named : ci.methods[mnum]? = some (name, descr))
    (constructs : isObjectInit name descr ci = some objectInit) {skipped : Bool}
    (skips : skipsCode name info.code.length objectInit ci = some skipped)
    (ahead : Ahead ci 0 (codeFields info.encode.length info.maxStack info.maxLocals
      info.code.length)) (room : ci.HasRoom 12) (fuel : ℕ) :
    (methodWriteBytecodes lengths fuel mnum).run ci =
      (if skipped then copy (unsigned ((info.encode.length : ℤ) - (2 + 2 + 4)))
        else rewriteMethod lengths fuel mnum objectInit
          (codeHeader ci info.encode.length info.maxStack info.code.length) : Crw Unit).run
        ((ci.emit (codeFields info.encode.length info.maxStack info.maxLocals
          info.code.length)).advance 12) := by
  have headerRun := run_copyCodeHeader isOutput small.encode small.maxStack small.maxLocals
    (Nat.lt_trans small.code (by decide)) ahead room
  let fields := codeFields info.encode.length info.maxStack info.maxLocals info.code.length
  let now := (ci.emit fields).advance 12
  have namesRun : (methodNames mnum).run now = some ((name, descr), now) := run_asking named
  have constructsRun : (asking (isObjectInit name descr)).run now = some (objectInit, now) :=
    run_asking constructs
  have skipsRun : (asking (skipsCode name info.code.length objectInit)).run now =
      some (skipped, now) := run_asking skips
  exact (run_bindWith headerRun).trans ((run_bindWith namesRun).trans
    ((run_bindWith constructsRun).trans (run_bindWith skipsRun)))

theorem encode_eq_fields (info : CodeInfo) (attrLen : ℕ) : bytes4 attrLen ++ info.encode =
    codeFields attrLen info.maxStack info.maxLocals info.code.length ++
      (info.code ++ info.encodeTables) := by
  simp only [CodeInfo.encode, codeFields, List.append_assoc]

/-- The code of a method that is skipped is copied with its tables, whatever it holds. -/
theorem run_methodWriteBytecodes_skipped (isOutput : ci.output ≠ none) (small : info.Small)
    (named : ci.methods[mnum]? = some (name, descr))
    (constructs : isObjectInit name descr ci = some objectInit)
    (skips : skipsCode name info.code.length objectInit ci = some true)
    (ahead : Ahead ci 0 (bytes4 info.encode.length ++ info.encode))
    (room : ci.HasRoom (4 + info.encode.length)) (fuel : ℕ) :
    (methodWriteBytecodes lengths fuel mnum).run ci =
      some ((), (ci.emit (bytes4 info.encode.length ++ info.encode)).advance
        (4 + info.encode.length)) := by
  have whole := encode_eq_fields info info.encode.length
  have fieldsLength : (codeFields info.encode.length info.maxStack info.maxLocals
    info.code.length).length = 12 := rfl
  have parts : 4 + info.encode.length = 12 + (info.code ++ info.encodeTables).length := by
    have lengths := congrArg List.length whole
    rwa [List.length_append, List.length_append, length_bytes4, fieldsLength] at lengths
  rw [whole] at ahead
  rcases slice_append.mp ahead with ⟨fieldsAhead, restAhead⟩
  have started := @run_methodWriteBytecodes ci lengths info mnum name descr objectInit isOutput
    small named constructs true skips fieldsAhead (room.mono (by omega)) fuel
  have count : unsigned ((info.encode.length : ℤ) - (2 + 2 + 4)) =
      (info.code ++ info.encodeTables).length := by
    have encodeSmall := small.encode
    simp only [unsigned]
    omega
  have copied := (Passes.copy ci (info.code ++ info.encodeTables)).run
    (codeFields info.encode.length info.maxStack info.maxLocals info.code.length) 12 restAhead
    (room.mono (by omega))
  rw [started, if_pos rfl, count, copied, whole, parts]

theorem run_methodWriteBytecodes_rewritten (numbered : Numbered ci) (isOutput : ci.output ≠ none)
    (named : ci.methods[mnum]? = some (name, descr))
    (constructs : isObjectInit name descr ci = some objectInit)
    (skips : skipsCode name info.code.length objectInit ci = some false)
    (rewritable : info.Rewritable lengths ci listing)
    (ahead : Ahead ci 0 (bytes4 info.encode.length ++ info.encode)) {fuel : ℕ}
    (enough : (listing.length + 1) ^ 3 ≤ fuel) :
    ∃ widening, Widened ci (methodImage mnum info objectInit (ci.inputPosition + 12)) listing
        widening ∧
      let image := info.rewritten ci (methodImage mnum info objectInit (ci.inputPosition + 12))
        listing widening
      image.Fits → ci.HasRoom (4 + image.encode.length) →
        (methodWriteBytecodes lengths fuel mnum).run ci =
          some ((), ((ci.counted (injectionCount ci (methodImage mnum info objectInit
            (ci.inputPosition + 12)) listing)).emit
              (bytes4 image.encode.length ++ image.encode)).advance (4 + info.encode.length)) := by
  have small : info.Small := ⟨rewritable.maxStack, rewritable.maxLocals, rewritable.small,
    rewritable.encodeSmall⟩
  rw [encode_eq_fields] at ahead
  rcases slice_append.mp ahead with ⟨fieldsAhead, restAhead⟩
  rcases @run_rewriteCode ci lengths info listing numbered isOutput fuel _
    (fresh_methodImage mnum info objectInit (ci.inputPosition + 12)) rfl rfl rewritable
    info.encode.length restAhead enough with ⟨widening, widened, writes⟩
  refine ⟨widening, widened, fun fits room => ?_⟩
  have fieldsRoom : ci.HasRoom 12 := room.mono (by
    simp only [CodeInfo.encode, List.length_append, length_bytes2, length_bytes4]
    omega)
  have started := @run_methodWriteBytecodes ci lengths info mnum name descr objectInit isOutput
    small named constructs false skips fieldsAhead fieldsRoom fuel
  rcases writes fits room with ⟨final, written⟩
  rw [started, if_neg Bool.false_ne_true]
  have holds : decide ((info.code.length + 1) * 16 < 2 ^ 31) = true :=
    decide_eq_true (by have codeSmall := small.code; omega)
  let now := (ci.emit (codeFields info.encode.length info.maxStack info.maxLocals
    info.code.length)).advance 12
  have initRun : (methodInit mnum info.code.length).run now =
      some (MethodImage.mk mnum (fun position => position) (fun _ => []) (fun _ => 0)
        info.code.length 0 0 0 0 false false, now) := by
    rw [methodInit, holds]
    rfl
  have asked : (get : Crw CrwClassImage).run now = some (now, now) := rfl
  exact (run_bindWith initRun).trans ((run_bindWith asked).trans (run_bindWith written))

/-- What is written for a method that is not skipped is the encoding of its new code, and the new
code with its tables does what the old method does with the tracker woven in. -/
theorem run_methodWriteBytecodes_instrumented (numbered : Numbered ci) (differ : TrackersDiffer ci)
    (isOutput : ci.output ≠ none) (named : ci.methods[mnum]? = some (name, descr))
    (constructs : isObjectInit name descr ci = some objectInit)
    (skips : skipsCode name info.code.length objectInit ci = some false)
    (rewritable : info.Rewritable lengths ci listing)
    (begins : ∀ handler ∈ info.handlers, ∃ instruction, (handler.handlerPc, instruction) ∈ listing)
    (catching : info.handlers ≠ [] → 0 < info.maxStack)
    (ahead : Ahead ci 0 (bytes4 info.encode.length ++ info.encode)) {fuel : ℕ}
    (enough : (listing.length + 1) ^ 3 ≤ fuel) :
    (methodImage mnum info objectInit (ci.inputPosition + 12)).code ci = info.code ∧
    ∃ widening, Instrumented lengths ci (methodImage mnum info objectInit (ci.inputPosition + 12))
        listing widening info.handlers ∧
      let image := info.rewritten ci (methodImage mnum info objectInit (ci.inputPosition + 12))
        listing widening
      image.Fits → ci.HasRoom (4 + image.encode.length) →
        (methodWriteBytecodes lengths fuel mnum).run ci =
          some ((), ((ci.counted (injectionCount ci (methodImage mnum info objectInit
            (ci.inputPosition + 12)) listing)).emit
              (bytes4 image.encode.length ++ image.encode)).advance (4 + info.encode.length)) := by
  rcases run_methodWriteBytecodes_rewritten numbered isOutput named constructs skips rewritable
    ahead enough with ⟨widening, widened, writes⟩
  rw [encode_eq_fields] at ahead
  rcases slice_append.mp (slice_append.mp ahead).2 with ⟨codeAhead, _⟩
  rcases slice_eq_some codeAhead with ⟨inside, isCode⟩
  have codeEq : (methodImage mnum info objectInit (ci.inputPosition + 12)).code ci = info.code :=
    isCode.symm
  refine ⟨codeEq, widening, ?_, writes⟩
  exact {
    lists := codeEq ▸ rewritable.lists
    whole := congrArg List.length codeEq
    small := rewritable.small
    targets := rewritable.targets
    widened := widened
    differ := differ
    covers := fun handler listed =>
      ⟨(rewritable.handlers handler listed).startPc, (rewritable.handlers handler listed).endPc⟩
    begins := begins
    catching := catching }

end Bytecodes

section MethodInfos

/-- An attribute that is copied. -/
structure RawAttribute where
  nameIndex : ℕ
  info : List UInt8
deriving DecidableEq

def RawAttribute.encode (attr : RawAttribute) : List UInt8 :=
  bytes2 attr.nameIndex ++ (bytes4 attr.info.length ++ attr.info)

/-- The attribute has a name, which is not that of the code. -/
structure RawAttribute.Copied (ci : CrwClassImage) (attr : RawAttribute) : Prop where
  named : ∃ text, IsUtf8 ci attr.nameIndex text ∧ text ≠ ascii "Code"
  info : attr.info.length < 2 ^ 32

/-- What stands in front of the attributes of a method. -/
def methodHead (accessFlags nameIndex descrIndex attributeCount : ℕ) : List UInt8 :=
  bytes2 accessFlags ++ (bytes2 nameIndex ++ (bytes2 descrIndex ++ bytes2 attributeCount))

/-- A method with code, as a class file holds it. -/
structure MethodInfo where
  accessFlags : ℕ
  nameIndex : ℕ
  descrIndex : ℕ
  before : List RawAttribute
  codeIndex : ℕ
  code : CodeInfo
  behind : List RawAttribute
deriving DecidableEq

namespace MethodInfo

def attributeCount (method : MethodInfo) : ℕ := method.before.length + (method.behind.length + 1)

def head (method : MethodInfo) : List UInt8 :=
  methodHead method.accessFlags method.nameIndex method.descrIndex method.attributeCount

/-- What stands between the number of attributes and the code. -/
def middle (method : MethodInfo) : List UInt8 :=
  method.before.flatMap RawAttribute.encode ++ bytes2 method.codeIndex

def front (method : MethodInfo) : List UInt8 := method.head ++ method.middle

/-- The method with other code. -/
def encodeWith (method : MethodInfo) (code : CodeInfo) : List UInt8 :=
  method.front ++ ((bytes4 code.encode.length ++ code.encode) ++
    method.behind.flatMap RawAttribute.encode)

structure Valid (ci : CrwClassImage) (name descr : List UInt8) (method : MethodInfo) : Prop where
  accessFlags : method.accessFlags < 2 ^ 16
  named : IsUtf8 ci method.nameIndex name
  described : IsUtf8 ci method.descrIndex descr
  few : method.attributeCount < 2 ^ 16
  before : ∀ attr ∈ method.before, attr.Copied ci
  isCode : IsUtf8 ci method.codeIndex (ascii "Code")
  behind : ∀ attr ∈ method.behind, attr.Copied ci

end MethodInfo

/-- The image that has noted the names of one more method. -/
def CrwClassImage.withMethod (ci : CrwClassImage) (name descr : List UInt8) : CrwClassImage :=
  { ci with methods := ci.methods ++ [(some name, some descr)] }

/-- Every index of a text names the text in the other image. -/
def KeepsUtf8 (ci other : CrwClassImage) : Prop :=
  ∀ index text, IsUtf8 ci index text → IsUtf8 other index text

theorem keepsUtf8_of_cpool {ci other : CrwClassImage}
    (sameCount : other.cpoolCountPlusOne = ci.cpoolCountPlusOne)
    (sameCpool : other.cpool = ci.cpool) : KeepsUtf8 ci other := fun _ _ isUtf8 =>
  ⟨isUtf8.positive, sameCount ▸ isUtf8.inside, isUtf8.small, sameCpool ▸ isUtf8.entry⟩

theorem RawAttribute.Copied.mono {ci other : CrwClassImage} {attr : RawAttribute}
    (copied : attr.Copied ci) (keeps : KeepsUtf8 ci other) : attr.Copied other := by
  rcases copied.named with ⟨text, isUtf8, differs⟩
  exact ⟨⟨text, keeps _ _ isUtf8, differs⟩, copied.info⟩

theorem times_add (count more : ℕ) (body : Crw Unit) :
    times (count + more) body = (do times count body; times more body) := by
  induction count with
  | zero => rw [Nat.zero_add, times, pure_bind]
  | succ count step => rw [Nat.succ_add, times, times, step, bind_assoc]

variable {ci : CrwClassImage} {lengths : OpcodeLengths} {fuel mnum : ℕ} {method : MethodInfo}
  {name descr : List UInt8}

/-- The part of `method_write` that is done for each attribute. -/
def methodWriteAttribute (lengths : OpcodeLengths) (fuel mnum : ℕ) : Crw Unit := do
  let nameIndex ← copyU2
  if ← attributeMatch nameIndex (ascii "Code") then
    methodWriteBytecodes lengths fuel mnum
  else
    let len ← copyU4
    copy len

theorem passes_methodWriteAttribute {attr : RawAttribute} (copied : attr.Copied ci) :
    Passes (methodWriteAttribute lengths fuel mnum) ci ci attr.encode attr.encode () := by
  rcases copied.named with ⟨text, isUtf8, differs⟩
  have matched := passes_attributeMatch isUtf8 (ascii "Code")
  rw [beq_false_of_ne differs] at matched
  have behind : Passes (do let len ← copyU4; copy len) ci ci _ _ () :=
    Passes.bind (Passes.copyU4 ci copied.info) (Passes.copy ci attr.info)
  have chosen : Passes (do
      if ← attributeMatch attr.nameIndex (ascii "Code") then
        methodWriteBytecodes lengths fuel mnum
      else
        let len ← copyU4
        copy len) ci ci _ _ () := Passes.bind matched behind
  exact Passes.bind (Passes.copyU2 ci isUtf8.small) chosen

/-- The part of `method_write` in front of the attributes. -/
def methodWriteHead : Crw ℕ := do
  let _ ← copyU2
  let nameIndex ← copyU2
  let name := (← cpoolEntry nameIndex).ptr
  let descrIndex ← copyU2
  let descr := (← cpoolEntry descrIndex).ptr
  modify fun ci => { ci with methods := ci.methods ++ [(name, descr)] }
  copyU2

theorem methodWrite_eq : methodWrite lengths fuel mnum = (do
    let attrCount ← methodWriteHead
    times attrCount (methodWriteAttribute lengths fuel mnum)) := by
  simp only [methodWrite, methodWriteHead, methodWriteAttribute, bind_assoc]

theorem passes_methodWriteHead {accessFlags nameIndex descrIndex count : ℕ}
    (flags : accessFlags < 2 ^ 16) (named : IsUtf8 ci nameIndex name)
    (described : IsUtf8 ci descrIndex descr) (few : count < 2 ^ 16) :
    Passes methodWriteHead ci (ci.withMethod name descr)
      (methodHead accessFlags nameIndex descrIndex count)
      (methodHead accessFlags nameIndex descrIndex count) count := by
  rcases named.entry with ⟨nameEntry, nameFound, isName, _⟩
  rcases described.entry with ⟨descrEntry, descrFound, isDescr, _⟩
  have nameKnown : Passes (cpoolEntry nameIndex) ci ci [] [] nameEntry :=
    Passes.asking fun _ _ => (if_pos (And.intro named.positive named.inside)).trans nameFound
  have descrKnown : Passes (cpoolEntry descrIndex) ci ci [] [] descrEntry :=
    Passes.asking fun _ _ =>
      (if_pos (And.intro described.positive described.inside)).trans descrFound
  have noted : Passes (modify fun ci =>
      { ci with methods := ci.methods ++ [(nameEntry.ptr, descrEntry.ptr)] }) ci
        (ci.withMethod name descr) [] [] () := by
    rw [isName, isDescr]
    exact Passes.change ⟨rfl, rfl, rfl, rfl⟩ fun _ _ => rfl
  have whole : Passes methodWriteHead ci (ci.withMethod name descr) _ _ count :=
    Passes.bind (Passes.copyU2 ci flags)
      (Passes.bind (Passes.copyU2 ci named.small) (Passes.bind nameKnown
        (Passes.bind (Passes.copyU2 ci described.small) (Passes.bind descrKnown
          (Passes.bind noted (Passes.copyU2 _ few))))))
  exact whole

/-- The image where the code of the method is reached. -/
def MethodInfo.reached (method : MethodInfo) (ci : CrwClassImage) (name descr : List UInt8) :
    CrwClassImage :=
  ((ci.withMethod name descr).emit method.front).advance method.front.length

/-- Up to the code. -/
theorem run_methodWrite_front (valid : method.Valid ci name descr)
    (ahead : Ahead ci 0 method.front) (room : ci.HasRoom method.front.length) :
    (methodWrite lengths fuel mnum).run ci =
      (methodWriteBytecodes lengths fuel mnum >>= fun _ =>
        times method.behind.length (methodWriteAttribute lengths fuel mnum)).run
          (method.reached ci name descr) := by
  let started := ci.withMethod name descr
  rcases slice_append.mp ahead with ⟨headAhead, middleAhead⟩
  have headed : Passes methodWriteHead ci started method.head method.head method.attributeCount :=
    passes_methodWriteHead valid.accessFlags valid.named valid.described valid.few
  have headRun := headed.run [] 0 headAhead
    (room.mono (by simp [MethodInfo.front]))
  have before := @Passes.times started (methodWriteAttribute lengths fuel mnum) RawAttribute
    RawAttribute.encode RawAttribute.encode method.before fun attr listed =>
      passes_methodWriteAttribute ((valid.before attr listed).mono (keepsUtf8_of_cpool rfl rfl))
  have isCode := @keepsUtf8_of_cpool ci started rfl rfl _ _ valid.isCode
  have matched := passes_attributeMatch isCode (ascii "Code")
  rw [beq_self_eq_true] at matched
  have named : Passes (copyU2 >>= fun nameIndex => attributeMatch nameIndex (ascii "Code")) started
      started (bytes2 method.codeIndex ++ []) (bytes2 method.codeIndex ++ []) true :=
    Passes.bind (Passes.copyU2 started valid.isCode.small) matched
  rw [List.append_nil] at named
  have opened : Passes (times method.before.length (methodWriteAttribute lengths fuel mnum) >>=
      fun _ => copyU2 >>= fun nameIndex => attributeMatch nameIndex (ascii "Code")) started started
        method.middle method.middle true := Passes.bind before named
  have openedRun := opened.run method.head method.head.length middleAhead
    (room.mono (by simp [MethodInfo.front]))
  have split : times method.attributeCount (methodWriteAttribute lengths fuel mnum) =
      ((times method.before.length (methodWriteAttribute lengths fuel mnum) >>= fun _ =>
          copyU2 >>= fun nameIndex => attributeMatch nameIndex (ascii "Code")) >>= fun isCode =>
        (if isCode then methodWriteBytecodes lengths fuel mnum else do
          let len ← copyU4
          copy len) >>= fun _ =>
        times method.behind.length (methodWriteAttribute lengths fuel mnum)) := by
    rw [MethodInfo.attributeCount, times_add, times]
    simp only [methodWriteAttribute, bind_assoc]
  rw [emit_nil, advance_zero, List.nil_append, Nat.zero_add] at headRun
  -- The count that is read decides how the loop is cut at the code.
  rw [methodWrite_eq, run_bindWith headRun, split, run_bindWith openedRun, if_pos rfl,
    ← List.length_append]
  rfl

/-- The code has been written, and the attributes behind it are copied. -/
theorem run_methodWrite_of_code {image : CodeInfo} {count : ℕ} (valid : method.Valid ci name descr)
    (ahead : Ahead ci 0 (method.encodeWith method.code))
    (room : ci.HasRoom (method.encodeWith image).length)
    (written : (methodWriteBytecodes lengths fuel mnum).run (method.reached ci name descr) =
      some ((), (((method.reached ci name descr).counted count).emit
        (bytes4 image.encode.length ++ image.encode)).advance (4 + method.code.encode.length))) :
    (methodWrite lengths fuel mnum).run ci =
      some ((), (((ci.withMethod name descr).counted count).emit (method.encodeWith image)).advance
        (method.encodeWith method.code).length) := by
  rcases slice_append.mp ahead with ⟨frontAhead, restAhead⟩
  rcases slice_append.mp restAhead with ⟨_, behindAhead⟩
  let last := (ci.withMethod name descr).counted count
  have frontRoom : ci.HasRoom method.front.length :=
    room.mono (by simp [MethodInfo.encodeWith])
  have behind := @Passes.times last (methodWriteAttribute lengths fuel mnum) RawAttribute
    RawAttribute.encode RawAttribute.encode method.behind fun attr listed =>
      passes_methodWriteAttribute ((valid.behind attr listed).mono (keepsUtf8_of_cpool rfl rfl))
  have codeSize : (bytes4 method.code.encode.length ++ method.code.encode).length =
      4 + method.code.encode.length := by rw [List.length_append, length_bytes4]
  rw [codeSize, Nat.add_zero, Nat.add_assoc] at behindAhead
  have behindRun := behind.run (method.front ++ (bytes4 image.encode.length ++ image.encode))
    (method.front.length + (4 + method.code.encode.length)) behindAhead (room.mono (by
      simp only [MethodInfo.encodeWith, List.length_append]
      omega))
  have reached : (((method.reached ci name descr).counted count).emit
      (bytes4 image.encode.length ++ image.encode)).advance (4 + method.code.encode.length) =
        (last.emit (method.front ++ (bytes4 image.encode.length ++ image.encode))).advance
          (method.front.length + (4 + method.code.encode.length)) := by
    rw [← emit_emit last method.front, ← advance_advance _ method.front.length]
    rfl
  rw [run_methodWrite_front valid frontAhead frontRoom, run_bindWith written, reached, behindRun,
    List.append_assoc, Nat.add_assoc, ← codeSize, ← List.length_append, ← List.length_append]
  rfl

theorem codeRoom_of_room {image : CodeInfo} (room : ci.HasRoom (method.encodeWith image).length) :
    (method.reached ci name descr).HasRoom (4 + image.encode.length) :=
  @HasRoom.emit (ci.withMethod name descr) _ method.front (room.mono (by
    simp only [MethodInfo.encodeWith, List.length_append, length_bytes4]
    omega))

theorem methods_reached (isNext : ci.methods.length = mnum) :
    (method.reached ci name descr).methods[mnum]? = some (some name, some descr) := by
  rw [← isNext]
  exact List.getElem?_concat_length

/-- A method that is not skipped is written with its new code, which does what the old code does
with the tracker woven in; all else of the method is copied. -/
theorem run_methodWrite_instrumented {listing : Listing} {objectInit : Bool}
    (numbered : Numbered ci) (differ : TrackersDiffer ci) (isOutput : ci.output ≠ none)
    (isNext : ci.methods.length = mnum) (valid : method.Valid ci name descr)
    (constructs : isObjectInit (some name) (some descr) ci = some objectInit)
    (skips : skipsCode (some name) method.code.code.length objectInit ci = some false)
    (rewritable : method.code.Rewritable lengths ci listing)
    (begins : ∀ handler ∈ method.code.handlers,
      ∃ instruction, (handler.handlerPc, instruction) ∈ listing)
    (catching : method.code.handlers ≠ [] → 0 < method.code.maxStack)
    (ahead : Ahead ci 0 (method.encodeWith method.code))
    (enough : (listing.length + 1) ^ 3 ≤ fuel) :
    let now := method.reached ci name descr
    let mi := methodImage mnum method.code objectInit (now.inputPosition + 12)
    mi.code now = method.code.code ∧
    ∃ widening, Instrumented lengths now mi listing widening method.code.handlers ∧
      let image := method.code.rewritten now mi listing widening
      image.Fits → ci.HasRoom (method.encodeWith image).length →
        (methodWrite lengths fuel mnum).run ci =
          some ((), (((ci.withMethod name descr).counted (injectionCount now mi listing)).emit
            (method.encodeWith image)).advance (method.encodeWith method.code).length) := by
  intro now mi
  rcases slice_append.mp (slice_append.mp ahead).2 with ⟨codeAhead, _⟩
  have isOutputNow : now.output ≠ none := mt Option.map_eq_none_iff.mp isOutput
  rcases @run_methodWriteBytecodes_instrumented now lengths method.code listing mnum (some name)
    (some descr) objectInit numbered ⟨differ.object, differ.call, differ.leave⟩ isOutputNow
    (methods_reached isNext) constructs skips (rewritable.of_cpool rfl rfl) begins catching
    codeAhead fuel enough with ⟨isCode, widening, instrumented, writes⟩
  exact ⟨isCode, widening, instrumented, fun fits room =>
    run_methodWrite_of_code valid ahead room (writes fits (codeRoom_of_room room))⟩

/-- A method that is skipped is copied with its code. -/
theorem run_methodWrite_skipped {objectInit : Bool} (isOutput : ci.output ≠ none)
    (isNext : ci.methods.length = mnum) (valid : method.Valid ci name descr)
    (small : method.code.Small)
    (constructs : isObjectInit (some name) (some descr) ci = some objectInit)
    (skips : skipsCode (some name) method.code.code.length objectInit ci = some true)
    (ahead : Ahead ci 0 (method.encodeWith method.code))
    (room : ci.HasRoom (method.encodeWith method.code).length) :
    (methodWrite lengths fuel mnum).run ci =
      some ((), (((ci.withMethod name descr).counted 0).emit
        (method.encodeWith method.code)).advance (method.encodeWith method.code).length) := by
  rcases slice_append.mp (slice_append.mp ahead).2 with ⟨codeAhead, _⟩
  have isOutputNow : (method.reached ci name descr).output ≠ none :=
    mt Option.map_eq_none_iff.mp isOutput
  have copied := @run_methodWriteBytecodes_skipped (method.reached ci name descr) lengths
    method.code mnum (some name) (some descr) objectInit isOutputNow small (methods_reached isNext)
    constructs skips codeAhead (codeRoom_of_room room) fuel
  exact run_methodWrite_of_code valid ahead room copied

/-- A method of a class, with code or without. -/
inductive ClassMethod where
  | coded (method : MethodInfo)
  | plain (accessFlags nameIndex descrIndex : ℕ) (attributes : List RawAttribute)
deriving DecidableEq

namespace ClassMethod

def encode : ClassMethod → List UInt8
  | coded method => method.encodeWith method.code
  | plain accessFlags nameIndex descrIndex attributes =>
      methodHead accessFlags nameIndex descrIndex attributes.length ++
        attributes.flatMap RawAttribute.encode

/-- The method has the name and the signature, and it can be written. -/
def Valid (lengths : OpcodeLengths) (fuel : ℕ) (ci : CrwClassImage) (name descr : List UInt8) :
    ClassMethod → Prop
  | coded method => method.Valid ci name descr ∧
      (∃ listing, method.code.Rewritable lengths ci listing ∧
        (∀ handler ∈ method.code.handlers,
          ∃ instruction, (handler.handlerPc, instruction) ∈ listing) ∧
        (listing.length + 1) ^ 3 ≤ fuel) ∧
      (method.code.handlers ≠ [] → 0 < method.code.maxStack)
  | plain accessFlags nameIndex descrIndex attributes => accessFlags < 2 ^ 16 ∧
      IsUtf8 ci nameIndex name ∧ IsUtf8 ci descrIndex descr ∧ attributes.length < 2 ^ 16 ∧
      ∀ attr ∈ attributes, attr.Copied ci

def Named (ci : CrwClassImage) (name descr : List UInt8) : ClassMethod → Prop
  | coded method => IsUtf8 ci method.nameIndex name ∧ IsUtf8 ci method.descrIndex descr
  | plain _ nameIndex descrIndex _ => IsUtf8 ci nameIndex name ∧ IsUtf8 ci descrIndex descr

def Fits : ClassMethod → Prop
  | coded method => method.code.Fits
  | plain _ _ _ _ => True

end ClassMethod

/-- What becomes of a method, and how many injections are counted for it. -/
inductive MethodWritten (lengths : OpcodeLengths) (ci : CrwClassImage) (name descr : List UInt8) :
    ClassMethod → ClassMethod → ℕ → Prop where
  | instrumented {method : MethodInfo} {listing : Listing} {widening : ℕ → ℤ} {objectInit : Bool}
      {mi : MethodImage} (isImage : mi = methodImage ci.methods.length method.code objectInit
        ((method.reached ci name descr).inputPosition + 12))
      (constructs : isObjectInit (some name) (some descr) ci = some objectInit)
      (skips : skipsCode (some name) method.code.code.length objectInit ci = some false)
      (isCode : mi.code (method.reached ci name descr) = method.code.code)
      (instrumented : Instrumented lengths (method.reached ci name descr) mi listing widening
        method.code.handlers) :
      MethodWritten lengths ci name descr (.coded method)
        (.coded { method with
          code := method.code.rewritten (method.reached ci name descr) mi listing widening })
        (injectionCount (method.reached ci name descr) mi listing)
  | skipped {method : MethodInfo} {objectInit : Bool}
      (constructs : isObjectInit (some name) (some descr) ci = some objectInit)
      (skips : skipsCode (some name) method.code.code.length objectInit ci = some true) :
      MethodWritten lengths ci name descr (.coded method) (.coded method) 0
  | plain (accessFlags nameIndex descrIndex : ℕ) (attributes : List RawAttribute) :
      MethodWritten lengths ci name descr (.plain accessFlags nameIndex descrIndex attributes)
        (.plain accessFlags nameIndex descrIndex attributes) 0

/-- The image behind a method that has been written. -/
def CrwClassImage.behindMethod (ci : CrwClassImage) (name descr : List UInt8)
    (method image : ClassMethod) (count : ℕ) : CrwClassImage :=
  (((ci.withMethod name descr).counted count).emit image.encode).advance method.encode.length

theorem exists_isObjectInit (ci : CrwClassImage) (name descr : List UInt8) :
    ∃ objectInit, isObjectInit (some name) (some descr) ci = some objectInit := by
  rw [isObjectInit]
  split
  · exact ⟨_, rfl⟩
  · exact ⟨_, rfl⟩

theorem exists_skipsCode (ci : CrwClassImage) (name : List UInt8) (codeLen : ℕ)
    (objectInit : Bool) :
    ∃ skipped, skipsCode (some name) codeLen objectInit ci = some skipped := by
  simp only [skipsCode, skipMethod, stringIs, Option.map_some]
  split_ifs <;> exact ⟨_, rfl⟩

/-- A method without code is copied. -/
theorem run_methodWrite_plain {accessFlags nameIndex descrIndex : ℕ}
    {attributes : List RawAttribute} (flags : accessFlags < 2 ^ 16)
    (named : IsUtf8 ci nameIndex name) (described : IsUtf8 ci descrIndex descr)
    (few : attributes.length < 2 ^ 16) (copied : ∀ attr ∈ attributes, attr.Copied ci) :
    Passes (methodWrite lengths fuel mnum) ci (ci.withMethod name descr)
      (ClassMethod.plain accessFlags nameIndex descrIndex attributes).encode
      (ClassMethod.plain accessFlags nameIndex descrIndex attributes).encode () := by
  rw [methodWrite_eq]
  exact Passes.bind (passes_methodWriteHead flags named described few)
    (Passes.times fun attr listed =>
      passes_methodWriteAttribute ((copied attr listed).mono (keepsUtf8_of_cpool rfl rfl)))

/-- The injected code can be told, and there is an output. -/
structure Injectable (ci : CrwClassImage) : Prop where
  numbered : Numbered ci
  differ : TrackersDiffer ci
  isOutput : ci.output ≠ none

theorem Injectable.behindMethod (injectable : Injectable ci) (method image : ClassMethod)
    (count : ℕ) : Injectable (ci.behindMethod name descr method image count) where
  numbered := injectable.numbered
  differ := ⟨injectable.differ.object, injectable.differ.call, injectable.differ.leave⟩
  isOutput := mt Option.map_eq_none_iff.mp injectable.isOutput

theorem MethodInfo.Valid.mono {other : CrwClassImage} (valid : method.Valid ci name descr)
    (keeps : KeepsUtf8 ci other) : method.Valid other name descr :=
  { valid with
    named := keeps _ _ valid.named
    described := keeps _ _ valid.described
    before := fun attr listed => (valid.before attr listed).mono keeps
    isCode := keeps _ _ valid.isCode
    behind := fun attr listed => (valid.behind attr listed).mono keeps }

theorem ClassMethod.Valid.named {method : ClassMethod}
    (valid : method.Valid lengths fuel ci name descr) : method.Named ci name descr := by
  cases method with
  | coded method => exact ⟨valid.1.named, valid.1.described⟩
  | plain accessFlags nameIndex descrIndex attributes => exact ⟨valid.2.1, valid.2.2.1⟩

theorem ClassMethod.Valid.mono {other : CrwClassImage} {method : ClassMethod}
    (valid : method.Valid lengths fuel ci name descr) (keeps : KeepsUtf8 ci other) :
    method.Valid lengths fuel other name descr := by
  cases method with
  | coded method =>
      rcases valid with ⟨isMethod, ⟨listing, rewritable, begins, enough⟩, catching⟩
      refine ⟨isMethod.mono keeps, ⟨listing, ?_, begins, enough⟩, catching⟩
      exact { rewritable with named := fun attr listed => keeps _ _ (rewritable.named attr listed) }
  | plain accessFlags nameIndex descrIndex attributes =>
      rcases valid with ⟨flags, named, described, few, copied⟩
      exact ⟨flags, keeps _ _ named, keeps _ _ described, few,
        fun attr listed => (copied attr listed).mono keeps⟩

/-- One method of a class is written. -/
theorem run_methodWrite (injectable : Injectable ci) (isNext : ci.methods.length = mnum)
    {method : ClassMethod} (valid : method.Valid lengths fuel ci name descr)
    (ahead : Ahead ci 0 method.encode) :
    ∃ image count, MethodWritten lengths ci name descr method image count ∧
      (image.Fits → ci.HasRoom image.encode.length →
        (methodWrite lengths fuel mnum).run ci =
          some ((), ci.behindMethod name descr method image count)) := by
  cases method with
  | coded method =>
      rcases valid with ⟨isMethod, ⟨listing, rewritable, begins, enough⟩, catching⟩
      rcases exists_isObjectInit ci name descr with ⟨objectInit, constructs⟩
      rcases exists_skipsCode ci name method.code.code.length objectInit with ⟨skipped, skips⟩
      cases skipped with
      | true =>
          have small : method.code.Small := ⟨rewritable.maxStack, rewritable.maxLocals,
            rewritable.small, rewritable.encodeSmall⟩
          exact ⟨_, _, .skipped constructs skips, fun _ room => run_methodWrite_skipped
            injectable.isOutput isNext isMethod small constructs skips ahead room⟩
      | false =>
          rcases run_methodWrite_instrumented injectable.numbered injectable.differ
            injectable.isOutput isNext isMethod constructs skips rewritable begins catching ahead
            enough with ⟨isCode, widening, instrumented, writes⟩
          exact ⟨_, _, .instrumented (by rw [isNext]) constructs skips isCode instrumented, writes⟩
  | plain accessFlags nameIndex descrIndex attributes =>
      rcases valid with ⟨flags, named, described, few, copied⟩
      refine ⟨_, _, .plain accessFlags nameIndex descrIndex attributes, fun _ room => ?_⟩
      have ran := (@run_methodWrite_plain ci lengths fuel mnum name descr accessFlags nameIndex
        descrIndex attributes flags named described few copied).run [] 0 ahead
        (by rwa [List.length_nil, Nat.zero_add])
      rwa [emit_nil, advance_zero, List.nil_append, Nat.zero_add] at ran

/-- What becomes of the methods, one after another. -/
inductive MethodsWritten (lengths : OpcodeLengths) :
    CrwClassImage → List ClassMethod → List ClassMethod → CrwClassImage → Prop where
  | nil (ci : CrwClassImage) : MethodsWritten lengths ci [] [] ci
  | cons {ci last : CrwClassImage} {name descr : List UInt8} {method image : ClassMethod}
      {count : ℕ} {methods images : List ClassMethod} (named : method.Named ci name descr)
      (written : MethodWritten lengths ci name descr method image count)
      (rest : MethodsWritten lengths (ci.behindMethod name descr method image count) methods images
        last) :
      MethodsWritten lengths ci (method :: methods) (image :: images) last

theorem MethodsWritten.output {last : CrwClassImage} {methods images : List ClassMethod}
    (written : MethodsWritten lengths ci methods images last) :
    last.output = ci.output.map (· ++ images.flatMap ClassMethod.encode) := by
  induction written with
  | nil ci => cases ci.output <;> simp
  | @cons ci _ name descr _ image _ _ _ _ _ _ step =>
      rw [step, List.flatMap_cons]
      change (ci.output.map (· ++ image.encode)).map _ = _
      cases ci.output <;> simp

theorem MethodsWritten.length {last : CrwClassImage} {methods images : List ClassMethod}
    (written : MethodsWritten lengths ci methods images last) : images.length = methods.length := by
  induction written with
  | nil => rfl
  | cons _ _ _ step => rw [List.length_cons, List.length_cons, step]

/-- The methods are written one after another. -/
theorem run_writeMethods (injectable : Injectable ci) (isNext : ci.methods.length = mnum)
    {methods : List ClassMethod}
    (valid : ∀ method ∈ methods, ∃ name descr, method.Valid lengths fuel ci name descr)
    (ahead : Ahead ci 0 (methods.flatMap ClassMethod.encode)) :
    ∃ images last, MethodsWritten lengths ci methods images last ∧
      ((∀ image ∈ images, image.Fits) →
        ci.HasRoom (images.flatMap ClassMethod.encode).length →
          (writeMethods lengths fuel methods.length mnum).run ci = some ((), last)) := by
  -- The image is generalized: the rest is written behind what has become of the first method.
  induction methods generalizing ci mnum with
  | nil => exact ⟨[], ci, .nil ci, fun _ _ => rfl⟩
  | cons method methods step =>
      rcases valid method List.mem_cons_self with ⟨name, descr, isMethod⟩
      rw [List.flatMap_cons] at ahead
      rcases slice_append.mp ahead with ⟨here, behind⟩
      rcases run_methodWrite injectable isNext isMethod here with ⟨image, count, written, writes⟩
      have restValid : ∀ other ∈ methods, ∃ otherName otherDescr, other.Valid lengths fuel
          (ci.behindMethod name descr method image count) otherName otherDescr := by
        intro other listed
        rcases valid other (List.mem_cons_of_mem _ listed) with ⟨otherName, otherDescr, isOther⟩
        exact ⟨otherName, otherDescr, isOther.mono (keepsUtf8_of_cpool rfl rfl)⟩
      have isNextRest : (ci.behindMethod name descr method image count).methods.length =
          mnum + 1 := by
        rw [← isNext]
        exact List.length_append
      rcases @step (ci.behindMethod name descr method image count) (mnum + 1)
        (injectable.behindMethod method image count) isNextRest restValid behind with
        ⟨images, last, restWritten, restWrites⟩
      refine ⟨image :: images, last, .cons isMethod.named written restWritten, fun fits room => ?_⟩
      rw [List.flatMap_cons, List.length_append] at room
      have ran := writes (fits image List.mem_cons_self) (room.mono (Nat.le_add_right _ _))
      have restRan := restWrites (fun other listed => fits other (List.mem_cons_of_mem _ listed))
        (@HasRoom.emit ((ci.withMethod name descr).counted count) _ image.encode room)
      rw [List.length_cons, writeMethods, run_bindWith ran, restRan]

def encodeMethods (methods : List ClassMethod) : List UInt8 :=
  bytes2 methods.length ++ methods.flatMap ClassMethod.encode

/-- The image where the first method is reached. -/
def CrwClassImage.atMethods (ci : CrwClassImage) (count : ℕ) : CrwClassImage :=
  ({ ci with methods := [] }.emit (bytes2 count)).advance 2

/-- Every method of a class is copied, or written with code that does what the old code does with
the tracker woven in. -/
theorem run_methodWriteAll (injectable : Injectable ci) {methods : List ClassMethod}
    (few : methods.length < 2 ^ 16)
    (valid : ∀ method ∈ methods, ∃ name descr, method.Valid lengths fuel ci name descr)
    (ahead : Ahead ci 0 (encodeMethods methods)) :
    ∃ images last, MethodsWritten lengths (ci.atMethods methods.length) methods images last ∧
      ((∀ image ∈ images, image.Fits) → ci.HasRoom (encodeMethods images).length →
        (methodWriteAll lengths fuel).run ci = some ((), last) ∧
          last.output = ci.output.map (· ++ encodeMethods images)) := by
  rcases slice_append.mp ahead with ⟨countAhead, methodsAhead⟩
  let now := ci.atMethods methods.length
  have injectableNow : Injectable now := ⟨injectable.numbered,
    ⟨injectable.differ.object, injectable.differ.call, injectable.differ.leave⟩,
    mt Option.map_eq_none_iff.mp injectable.isOutput⟩
  have validNow : ∀ method ∈ methods, ∃ name descr, method.Valid lengths fuel now name descr := by
    intro method listed
    rcases valid method listed with ⟨name, descr, isMethod⟩
    exact ⟨name, descr, isMethod.mono (keepsUtf8_of_cpool rfl rfl)⟩
  rcases run_writeMethods injectableNow rfl validNow methodsAhead with
    ⟨images, last, written, writes⟩
  refine ⟨images, last, written, fun fits room => ?_⟩
  have sameLength : images.length = methods.length := written.length
  rw [encodeMethods, List.length_append] at room
  have counted : Passes (do
      let count ← copyU2
      modify fun ci => { ci with methods := [] }
      return count) ci { ci with methods := [] } (bytes2 methods.length) (bytes2 methods.length)
        methods.length := by
    have cleared : Passes (modify fun ci => { ci with methods := [] }) ci { ci with methods := [] }
        [] [] () := Passes.change ⟨rfl, rfl, rfl, rfl⟩ fun _ _ => rfl
    exact Passes.bind (Passes.copyU2 ci few) (Passes.bind cleared (Passes.pure _ _))
  have countRun := counted.run [] 0 countAhead (room.mono (Nat.le_add_right _ _))
  rw [emit_nil, advance_zero, List.nil_append, Nat.zero_add] at countRun
  have methodsRun := writes fits (HasRoom.emit room)
  have split : methodWriteAll lengths fuel = (do
      let count ← copyU2
      modify fun ci => { ci with methods := [] }
      return count) >>= fun count => writeMethods lengths fuel count 0 := by
    simp only [methodWriteAll, bind_assoc, pure_bind]
  refine ⟨by rw [split, run_bindWith countRun]; exact methodsRun, ?_⟩
  rw [written.output, encodeMethods, sameLength]
  change (ci.output.map (· ++ bytes2 methods.length)).map _ = _
  cases ci.output <;> simp

end MethodInfos

section Constructor

/-- The constructor of `java.lang.Object`, which only returns. -/
def constructorInfo : CodeInfo := ⟨0, 1, [177], [], []⟩

def constructorImage : CrwClassImage :=
  { objectConstructor with
    input := bytes4 constructorInfo.encode.length ++ constructorInfo.encode
    methods := [(some (ascii "<init>"), some (ascii "()V"))] }

theorem rewritable_constructorInfo :
    constructorInfo.Rewritable jvmLengths constructorImage [(0, .plain 177 [])] where
  lists := instrumented_constructorMethod.lists
  small := by decide
  targets := instrumented_constructorMethod.targets
  tablesEnd := by simp [TablesEnd]
  ends := ⟨by decide, by simp [Opcode.arrayAllocations, Instruction.opcode]⟩
  maxStack := by decide
  maxLocals := by decide
  handlersFew := by decide
  handlers := by simp [constructorInfo]
  attributesFew := by decide
  named := by simp [constructorInfo]
  placed := by simp [constructorInfo]
  attributesSmall := by simp [constructorInfo]
  encodeSmall := by decide

theorem Lists.unique {lengths : OpcodeLengths} {code : List UInt8} {position stop : ℕ}
    {listing other : Listing} (first : Lists lengths code position listing stop)
    (second : Lists lengths code position other stop) : listing = other := by
  induction listing generalizing position other with
  | nil =>
      cases other with
      | nil => rfl
      | cons entry rest =>
          have ended : position = stop := first.chain
          have positive := entry.2.size_pos position
          have bound := (Lists.cons_iff.mp second).2.2.2.chain.le_stop
          omega
  | cons entry rest step =>
      rcases Lists.cons_iff.mp first with ⟨starts, valid, stands, restLists⟩
      cases other with
      | nil =>
          have ended : position = stop := second.chain
          have positive := entry.2.size_pos position
          have bound := restLists.chain.le_stop
          omega
      | cons otherEntry otherRest =>
          rcases Lists.cons_iff.mp second with ⟨otherStarts, otherValid, otherStands, otherLists⟩
          have same : entry.2 = otherEntry.2 := Option.some.inj
            ((decodeAt_of_standsAt valid stands).symm.trans
              (decodeAt_of_standsAt otherValid otherStands))
          rw [← same] at otherLists
          rw [step restLists otherLists, Prod.ext (starts.trans otherStarts.symm) same]

def constructorMethodInfo : MethodInfo := ⟨1, 1, 2, [], 3, constructorInfo, []⟩

theorem valid_constructorMethodInfo {ci : CrwClassImage} (named : IsUtf8 ci 1 (ascii "<init>"))
    (described : IsUtf8 ci 2 (ascii "()V")) (isCode : IsUtf8 ci 3 (ascii "Code")) :
    (ClassMethod.coded constructorMethodInfo).Valid jvmLengths 8 ci (ascii "<init>")
      (ascii "()V") := by
  refine ⟨⟨by decide, named, described, by decide, by simp [constructorMethodInfo], isCode,
    by simp [constructorMethodInfo]⟩, ⟨[(0, .plain 177 [])], ?_, ?_, by decide⟩, ?_⟩
  · exact { rewritable_constructorInfo with
      named := by simp [constructorMethodInfo, constructorInfo] }
  · simp [constructorMethodInfo, constructorInfo]
  · simp [constructorMethodInfo, constructorInfo]

end Constructor

end HeapScan.ClassFile
