import HeapScan.ClassFile.ClassNames
import HeapScan.ClassFile.Methods

/-!
# The rewriting of a class file

A class file is copied with entries behind its constant pool and with the code of its methods
rewritten.  There is no new image where nothing has been injected.
-/

namespace HeapScan.ClassFile

open BigEndian CrwClassImage

section Members

variable {ci : CrwClassImage}

structure RawAttribute.Small (attr : RawAttribute) : Prop where
  nameIndex : attr.nameIndex < 2 ^ 16
  info : attr.info.length < 2 ^ 32

def encodeAttributes (attributes : List RawAttribute) : List UInt8 :=
  bytes2 attributes.length ++ attributes.flatMap RawAttribute.encode

theorem passes_copyAttribute {attr : RawAttribute} (small : attr.Small) :
    Passes copyAttribute ci ci attr.encode attr.encode () :=
  Passes.bind (Passes.copyU2 ci small.nameIndex)
    (Passes.bind (Passes.copyU4 ci small.info) (Passes.copy ci attr.info))

theorem passes_copyAttributes {attributes : List RawAttribute} (few : attributes.length < 2 ^ 16)
    (small : ∀ attr ∈ attributes, attr.Small) :
    Passes copyAttributes ci ci (encodeAttributes attributes) (encodeAttributes attributes) () :=
  Passes.bind (Passes.copyU2 ci few)
    (Passes.times fun attr listed => passes_copyAttribute (small attr listed))

structure FieldInfo where
  accessFlags : ℕ
  nameIndex : ℕ
  descrIndex : ℕ
  attributes : List RawAttribute
deriving DecidableEq

def FieldInfo.head (field : FieldInfo) : List UInt8 :=
  bytes2 field.accessFlags ++ (bytes2 field.nameIndex ++ bytes2 field.descrIndex)

def FieldInfo.encode (field : FieldInfo) : List UInt8 :=
  field.head ++ encodeAttributes field.attributes

structure FieldInfo.Small (field : FieldInfo) : Prop where
  few : field.attributes.length < 2 ^ 16
  attributes : ∀ attr ∈ field.attributes, attr.Small

def encodeFields (fields : List FieldInfo) : List UInt8 :=
  bytes2 fields.length ++ fields.flatMap FieldInfo.encode

theorem passes_copyAllFields {fields : List FieldInfo} (few : fields.length < 2 ^ 16)
    (small : ∀ field ∈ fields, field.Small) :
    Passes copyAllFields ci ci (encodeFields fields) (encodeFields fields) () :=
  Passes.bind (Passes.copyU2 ci few) (Passes.times fun field listed =>
    Passes.bind (Passes.copy ci field.head)
      (passes_copyAttributes (small field listed).few (small field listed).attributes))

end Members

section Files

/-- The head up to the access flags, with a number and a pool. -/
def ClassHead.frontWith (head : ClassHead) (count : ℕ) (pool : List PoolEntry) : List UInt8 :=
  bytes4 ClassHead.magic ++ (bytes2 head.minorVersion ++ (bytes2 head.majorVersion ++
    (bytes2 count ++ encodePool pool ++ bytes2 head.accessFlags)))

/-- A class file. -/
structure JavaClass where
  head : ClassHead
  superClass : ℕ
  interfaces : List ℕ
  fields : List FieldInfo
  methods : List ClassMethod
  attributes : List RawAttribute
deriving DecidableEq

def encodeInterfaces (interfaces : List ℕ) : List UInt8 :=
  interfaces.flatMap fun index : ℕ => bytes2 index

theorem length_encodeInterfaces (interfaces : List ℕ) :
    (encodeInterfaces interfaces).length = interfaces.length * 2 := by
  induction interfaces with
  | nil => rfl
  | cons index rest step =>
      rw [encodeInterfaces, List.flatMap_cons, List.length_append, ← encodeInterfaces, step,
        length_bytes2, List.length_cons]
      omega

namespace JavaClass

/-- What stands between the access flags and the methods. -/
def members (file : JavaClass) : List UInt8 :=
  bytes2 file.head.thisClass ++ (bytes2 file.superClass ++ (bytes2 file.interfaces.length ++
    (encodeInterfaces file.interfaces ++ encodeFields file.fields)))

/-- The file with a number of entries, a pool and methods. -/
def encodeWith (file : JavaClass) (count : ℕ) (pool : List PoolEntry)
    (methods : List ClassMethod) : List UInt8 :=
  file.head.frontWith count pool ++ (file.members ++
    (encodeMethods methods ++ encodeAttributes file.attributes))

def encode (file : JavaClass) : List UInt8 :=
  file.encodeWith ((keptPool file.head.pool).length + 1) file.head.pool file.methods

/-- The numbers of the file fit into their fields, and the class is of the name. -/
structure Valid (file : JavaClass) (name : List UInt8) : Prop where
  head : file.head.Valid
  names : file.head.Names name
  noNul : cString name = name
  superClass : file.superClass < 2 ^ 16
  object : file.superClass = 0 → name = ascii "java/lang/Object"
  interfaces : file.interfaces.length < 2 ^ 16
  fieldsFew : file.fields.length < 2 ^ 16
  fields : ∀ field ∈ file.fields, field.Small
  methodsFew : file.methods.length < 2 ^ 16
  attributesFew : file.attributes.length < 2 ^ 16
  attributes : ∀ attr ∈ file.attributes, attr.Small

end JavaClass

/-- `CRW_ASSERT` of the versions. -/
def ClassfileConstants.Supports (constants : ClassfileConstants) (head : ClassHead) : Prop :=
  head.majorVersion ≤ constants.majorVersion ∨
    head.majorVersion = constants.majorVersion ∧ head.minorVersion ≤ constants.minorVersion

def CrwClassImage.withFlags (ci : CrwClassImage) (accessFlags : ℕ) : CrwClassImage :=
  { ci with accessFlags := accessFlags }

def CrwClassImage.withSuper (ci : CrwClassImage) (superClass : ℕ) : CrwClassImage :=
  { ci with isObjectClass := ci.isObjectClass || superClass == 0 }

variable {ci next : CrwClassImage} {constants : ClassfileConstants} {fuel : ℕ} {file : JavaClass}
  {name className : List UInt8} {added : List PoolEntry}

theorem passes_checkTrackerClass (plain : ∀ className ∈ ci.interface.tclassName, dot ∉ className) :
    Passes checkTrackerClass ci ci [] [] () := by
  refine Passes.get (fun _ _ => ?_) (Passes.crwAssert ci (decide_eq_true plain))
  rfl

/-- The head is copied with entries behind the pool. -/
theorem passes_copyClassHead (valid : file.Valid name) (supported : constants.Supports file.head)
    (plain : ∀ className ∈ ci.interface.tclassName, dot ∉ className)
    (adds : Adds addTrackers (ci.withCopied file.head.pool) next added ()) :
    Passes (copyClassHead constants) ci (next.withFlags file.head.accessFlags)
      (file.head.frontWith ((keptPool file.head.pool).length + 1) file.head.pool)
      (file.head.frontWith ((keptPool file.head.pool).length + 1 + added.length)
        (file.head.pool ++ added)) file.head.accessFlags := by
  have setUp := passes_cpoolSetup_of_adds valid.head.entries valid.names.nonempty valid.head.few
    adds
  have isMagic : decide (ClassHead.magic = 0xCAFEBABE) = true := rfl
  have isSupported : decide (file.head.majorVersion ≤ constants.majorVersion ∨
      file.head.majorVersion = constants.majorVersion ∧
        file.head.minorVersion ≤ constants.minorVersion) = true := decide_eq_true supported
  have flagged : Passes (modify fun ci => { ci with accessFlags := file.head.accessFlags }) next
      (next.withFlags file.head.accessFlags) [] [] () :=
    Passes.change ⟨rfl, rfl, rfl, rfl⟩ fun _ _ => rfl
  have noted : Passes (do
      modify fun ci => { ci with accessFlags := file.head.accessFlags }
      return file.head.accessFlags) next (next.withFlags file.head.accessFlags) [] []
        file.head.accessFlags := Passes.bind flagged (Passes.pure _ _)
  have whole : Passes (copyClassHead constants) ci (next.withFlags file.head.accessFlags) _ _
      file.head.accessFlags :=
    Passes.bind (passes_checkTrackerClass plain)
      (Passes.bind (Passes.copyU4 ci (show ClassHead.magic < 2 ^ 32 by decide))
        (Passes.bind (Passes.crwAssert ci isMagic)
          (Passes.bind (Passes.copyU2 ci valid.head.minorVersion)
            (Passes.bind (Passes.copyU2 ci valid.head.majorVersion)
              (Passes.bind (Passes.crwAssert ci isSupported) (Passes.bind setUp
                (Passes.bind (Passes.copyU2 next valid.head.accessFlags) noted)))))))
  refine whole.of_eq ?_ ?_
  · rw [List.append_nil]
    rfl
  · rw [List.append_nil]
    rfl

theorem passes_checkName (isName : ci.name = some name) (noNul : cString name = name) :
    Passes (checkName (PoolEntry.utf8 name).noted) ci ci [] [] () := by
  refine Passes.change (SameStreams.refl ci) fun written count => ?_
  have named : ((ci.emit written).advance count).name = some name := isName
  simp [checkName, named, crwAssert, noNul, PoolEntry.noted]

theorem passes_noteObjectClass (isName : ci.name = some name) (noNul : cString name = name)
    {superClass : ℕ} (object : superClass = 0 → name = ascii "java/lang/Object") :
    Passes (noteObjectClass superClass) ci (ci.withSuper superClass) [] [] () := by
  by_cases isObject : superClass = 0
  · have noted : ci.withSuper superClass = { ci with isObjectClass := true } := by
      rw [withSuper, beq_iff_eq.mpr isObject, Bool.or_true]
    have same : (ci.name.map cString == some (ascii "java/lang/Object")) = true := by
      rw [isName, Option.map_some, noNul, object isObject, beq_self_eq_true]
    have set : Passes (modify fun ci => { ci with isObjectClass := true }) ci
        { ci with isObjectClass := true } [] [] () :=
      Passes.change ⟨rfl, rfl, rfl, rfl⟩ fun _ _ => rfl
    have checked : Passes (do
        let ci ← get
        crwAssert (ci.name.map cString == some (ascii "java/lang/Object")))
          { ci with isObjectClass := true } { ci with isObjectClass := true } [] [] () := by
      refine Passes.get (fun _ _ => ?_) (Passes.crwAssert _ same)
      rfl
    rw [noteObjectClass, if_pos isObject, noted]
    exact Passes.bind set checked
  · have kept : ci.withSuper superClass = ci := by
      rw [withSuper, beq_false_of_ne isObject, Bool.or_false]
    rw [noteObjectClass, if_neg isObject, kept]
    exact Passes.pure ci ()

/-- What stands in front of the methods is copied. -/
theorem passes_copyMembers (valid : file.Valid name) (isName : ci.name = some name)
    (isClass : ClassAt ci file.head.thisClass name) (small : ci.cpoolCountPlusOne ≤ 2 ^ 16) :
    Passes copyMembers ci (ci.withSuper file.superClass) file.members file.members () := by
  rcases isClass with ⟨nameIndex, stands, named⟩
  have index : nameIndex % 2 ^ 16 = nameIndex :=
    Nat.mod_eq_of_lt (Nat.lt_of_lt_of_le named.inside small)
  have thisSmall : file.head.thisClass < 2 ^ 16 := Nat.lt_of_lt_of_le stands.inside small
  have entry : Passes (cpoolEntry (nameIndex % 2 ^ 16)) ci ci [] []
      (PoolEntry.utf8 name).noted := by
    rw [index]
    exact passes_cpoolEntry named
  have copied : Passes (copy (file.interfaces.length * 2)) (ci.withSuper file.superClass)
      (ci.withSuper file.superClass) (encodeInterfaces file.interfaces)
      (encodeInterfaces file.interfaces) () := by
    rw [← length_encodeInterfaces]
    exact Passes.copy _ _
  have whole : Passes copyMembers ci (ci.withSuper file.superClass) _ _ () :=
    Passes.bind (Passes.copyU2 ci thisSmall) (Passes.bind (passes_cpoolEntry stands)
      (Passes.bind entry (Passes.bind (passes_checkName isName valid.noNul)
        (Passes.bind (Passes.copyU2 ci valid.superClass)
          (Passes.bind (passes_noteObjectClass isName valid.noNul valid.object)
            (Passes.bind (Passes.copyU2 _ valid.interfaces)
              (Passes.bind copied (passes_copyAllFields valid.fieldsFew valid.fields))))))))
  exact whole

/-- Where something has been injected, the attributes are copied, and the length is told. -/
theorem run_finishClass (few : file.attributes.length < 2 ^ 16)
    (small : ∀ attr ∈ file.attributes, attr.Small)
    (ahead : Ahead ci 0 (encodeAttributes file.attributes))
    (room : ci.HasRoom (encodeAttributes file.attributes).length) :
    finishClass.run ci = some (if ci.injectionCount = 0 then (0, ci) else
      (((ci.emit (encodeAttributes file.attributes)).advance
          (encodeAttributes file.attributes).length).outputPosition,
        (ci.emit (encodeAttributes file.attributes)).advance
          (encodeAttributes file.attributes).length)) := by
  have copied := (@passes_copyAttributes ci file.attributes few small).run [] 0 ahead
    (by rwa [List.length_nil, Nat.zero_add])
  rw [emit_nil, advance_zero, List.nil_append, Nat.zero_add] at copied
  by_cases nothing : ci.injectionCount = 0
  · rw [finishClass, StateT.run_bind, StateT.run_get, Option.pure_def, Option.bind_eq_bind,
      Option.bind_some, if_pos nothing, if_pos nothing]
    rfl
  · rw [finishClass, StateT.run_bind, StateT.run_get, Option.pure_def, Option.bind_eq_bind,
      Option.bind_some, if_neg nothing, if_neg nothing, run_bindWith copied]
    rfl

theorem HasRoom.of_output {ci last : CrwClassImage} {bytes : List UInt8} {size : ℕ}
    (output : last.output = ci.output.map (· ++ bytes)) (outputLen : last.outputLen = ci.outputLen)
    (room : ci.HasRoom (bytes.length + size)) : last.HasRoom size := by
  have emitted := HasRoom.emit room
  intro written isOutput
  rw [outputLen]
  have same : (ci.emit bytes).output = last.output := output.symm
  exact emitted written (same ▸ isOutput)

theorem MethodsWritten.streams {lengths : OpcodeLengths} {last : CrwClassImage}
    {methods images : List ClassMethod} (written : MethodsWritten lengths ci methods images last) :
    last.input = ci.input ∧
      last.inputPosition = ci.inputPosition + (methods.flatMap ClassMethod.encode).length ∧
      last.outputLen = ci.outputLen := by
  induction written with
  | nil => exact ⟨rfl, rfl, rfl⟩
  | cons _ _ _ step =>
      rcases step with ⟨input, position, outputLen⟩
      refine ⟨input, ?_, outputLen⟩
      rw [position, List.flatMap_cons, List.length_append]
      exact Nat.add_assoc _ _ _

theorem Grows.keepsUtf8 (grows : Grows ci next added)
    (size : ci.cpoolCountPlusOne ≤ ci.cpool.length) : KeepsUtf8 ci next := fun index text isUtf8 =>
  ⟨isUtf8.positive, by rw [grows.count]; exact Nat.lt_add_right _ isUtf8.inside, isUtf8.small, by
    rw [grows.getElem?_eq size isUtf8.inside]
    exact isUtf8.entry⟩

/-- The image where the methods are reached. -/
def CrwClassImage.beforeMethods (next : CrwClassImage) (file : JavaClass)
    (added : List PoolEntry) : CrwClassImage :=
  (((next.withFlags file.head.accessFlags).withSuper file.superClass).emit
    (file.head.frontWith ((keptPool file.head.pool).length + 1 + added.length)
      (file.head.pool ++ added) ++ file.members)).advance
        ((file.head.frontWith ((keptPool file.head.pool).length + 1) file.head.pool).length +
          file.members.length)

/-- The file with entries behind its pool and with other methods. -/
def JavaClass.injected (file : JavaClass) (added : List PoolEntry)
    (methods : List ClassMethod) : List UInt8 :=
  file.encodeWith ((keptPool file.head.pool).length + 1 + added.length) (file.head.pool ++ added)
    methods

theorem run_injectClass (valid : file.Valid name) (supported : constants.Supports file.head)
    (isName : ci.name = some name)
    (plain : ∀ className ∈ ci.interface.tclassName, dot ∉ className)
    (tells : ci.interface.Tells className) (isOutput : ci.output ≠ none)
    (noInterface : skipClass file.head.accessFlags = false)
    (methods : ∀ method ∈ file.methods, ∃ methodName descr,
      method.Valid constants.lengths fuel (ci.withCopied file.head.pool) methodName descr)
    (ahead : Ahead ci 0 file.encode) :
    ∃ next added images last, TrackersNamed next className ∧
      Grows (ci.withCopied file.head.pool) next added ∧
      (encodePool added).length ≤ ci.interface.poolBytes className ∧
      MethodsWritten constants.lengths
        ((next.beforeMethods file added).atMethods file.methods.length) file.methods images last ∧
      ((∀ image ∈ images, image.Fits) → ci.HasRoom (file.injected added images).length →
        ∃ final : CrwClassImage, (injectClass constants fuel).run ci =
            some (if last.injectionCount = 0 then 0 else final.outputPosition, final) ∧
          (last.injectionCount ≠ 0 →
            final.output = ci.output.map (· ++ file.injected added images))) := by
  have few := valid.head.few
  have poolRoom := @poolRoom_withCopied ci file.head.pool few
  rcases adds_trackers poolRoom tells with ⟨next, added, adds, few19, bytes, named⟩
  let before := next.withFlags file.head.accessFlags
  let start := next.beforeMethods file added
  have headed := passes_copyClassHead valid supported plain adds
  have sameName : next.name = ci.name := (congrArg CrwClassImage.name adds.grows.same :)
  have nextName : before.name = some name := sameName.trans isName
  have count : next.cpoolCountPlusOne = (keptPool file.head.pool).length + 1 + added.length :=
    adds.grows.count
  have isTable : next.cpool.take next.cpoolCountPlusOne =
      file.head.table ++ added.map PoolEntry.noted := take_of_adds adds
  have isClass : ClassAt before file.head.thisClass name :=
    @classAt_of_table before file.head name _ isTable valid.names
  have membered := passes_copyMembers valid nextName isClass
    (show next.cpoolCountPlusOne ≤ 2 ^ 16 by omega)
  have streams := headed.streams
  rcases slice_append.mp ahead with ⟨headAhead, membersRest⟩
  rcases slice_append.mp membersRest with ⟨membersAhead, methodsRest⟩
  rcases slice_append.mp methodsRest with ⟨methodsAhead, attributesAhead⟩
  have startInput : start.input = ci.input := streams.input
  have startPosition : start.inputPosition = ci.inputPosition +
      ((file.head.frontWith ((keptPool file.head.pool).length + 1) file.head.pool).length +
        file.members.length) := congrArg (· + _) streams.inputPosition
  have startOutput : start.output = ci.output.map (· ++
      (file.head.frontWith ((keptPool file.head.pool).length + 1 + added.length)
        (file.head.pool ++ added) ++ file.members)) := congrArg (Option.map _) streams.output
  have injectable : Injectable start := ⟨named.numbered,
    ⟨named.differ.object, named.differ.call, named.differ.leave⟩, by
      rw [startOutput]
      exact mt Option.map_eq_none_iff.mp isOutput⟩
  have startMethods : ∀ method ∈ file.methods, ∃ methodName descr,
      method.Valid constants.lengths fuel start methodName descr := by
    intro method listed
    rcases methods method listed with ⟨methodName, descr, isMethod⟩
    have kept := isMethod.mono (adds.grows.keepsUtf8 poolRoom.size_le)
    exact ⟨methodName, descr, kept.mono (keepsUtf8_of_cpool rfl rfl)⟩
  have startAhead : Ahead start 0 (encodeMethods file.methods) := by
    rw [Ahead, startInput, startPosition, ← Nat.add_assoc]
    exact methodsAhead
  rcases run_methodWriteAll injectable valid.methodsFew startMethods startAhead with
    ⟨images, last, written, writes⟩
  refine ⟨next, added, images, last, named, adds.grows, bytes, written, fun fits room => ?_⟩
  have whole : (file.injected added images).length =
      (file.head.frontWith ((keptPool file.head.pool).length + 1 + added.length)
        (file.head.pool ++ added) ++ file.members).length +
        ((encodeMethods images).length + (encodeAttributes file.attributes).length) := by
    simp only [JavaClass.injected, JavaClass.encodeWith, List.length_append, Nat.add_assoc]
  rw [whole] at room
  have headRun := headed.run [] 0 headAhead (room.mono (by
    rw [List.length_append, List.length_nil]
    omega))
  rw [emit_nil, advance_zero, List.nil_append, Nat.zero_add] at headRun
  have membersRun : copyMembers.run ((before.emit
      (file.head.frontWith ((keptPool file.head.pool).length + 1 + added.length)
        (file.head.pool ++ added))).advance
          (file.head.frontWith ((keptPool file.head.pool).length + 1) file.head.pool).length) =
      some ((), start) := membered.run
    (file.head.frontWith ((keptPool file.head.pool).length + 1 + added.length)
      (file.head.pool ++ added))
    (file.head.frontWith ((keptPool file.head.pool).length + 1) file.head.pool).length (by
      rw [Ahead, streams.input, streams.inputPosition]
      exact membersAhead) (streams.hasRoom.mpr (room.mono (by
        rw [List.length_append]
        exact Nat.le_add_right _ _)))
  have startRoom : start.HasRoom ((encodeMethods images).length +
      (encodeAttributes file.attributes).length) :=
    HasRoom.of_output startOutput streams.outputLen room
  rcases writes fits (startRoom.mono (Nat.le_add_right _ _)) with ⟨methodsRun, lastOutput⟩
  rcases written.streams with ⟨lastInput, lastPosition, lastOutputLen⟩
  have lastRoom : last.HasRoom (encodeAttributes file.attributes).length :=
    HasRoom.of_output lastOutput lastOutputLen startRoom
  have lastAhead : Ahead last 0 (encodeAttributes file.attributes) := by
    have fromStart : last.input = ci.input := lastInput.trans startInput
    have position : last.inputPosition = ci.inputPosition + 0 +
        (file.head.frontWith ((keptPool file.head.pool).length + 1) file.head.pool).length +
          file.members.length + (encodeMethods file.methods).length := by
      rw [lastPosition, encodeMethods, List.length_append, length_bytes2]
      change start.inputPosition + 2 + _ = _
      rw [startPosition]
      omega
    rw [Ahead, fromStart, position]
    exact attributesAhead
  have finished := run_finishClass valid.attributesFew valid.attributes lastAhead lastRoom
  have proceeds : ¬ skipClass file.head.accessFlags = true := by
    rw [noInterface]
    exact Bool.false_ne_true
  refine ⟨if last.injectionCount = 0 then last else
    (last.emit (encodeAttributes file.attributes)).advance
      (encodeAttributes file.attributes).length, ?_, fun something => ?_⟩
  · rw [injectClass, run_bindWith headRun, if_neg proceeds, run_bindWith membersRun,
      run_bindWith methodsRun, finished]
    split_ifs <;> rfl
  · rw [if_neg something]
    change last.output.map (· ++ encodeAttributes file.attributes) = _
    rw [lastOutput, startOutput]
    cases ci.output <;>
      simp [JavaClass.injected, JavaClass.encodeWith]

end Files

section Rewriting

variable {constants : ClassfileConstants} {fuel classNumber : ℕ} {file : JavaClass}
  {name className : List UInt8} {systemClass : ℤ} {names : CrwTrackerInterface}

/-- The new image of a class is the class file with entries behind its pool, and every method of it
is copied or does what it did with the tracker woven in.  Where nothing has been injected, there is
no new image. -/
theorem javaCrwDemo_injected (valid : file.Valid name) (supported : constants.Supports file.head)
    (fitting : interfaceFits systemClass names) (tells : names.Tells className)
    (plain : dot ∉ className) (plainName : dot ∉ name)
    (noInterface : skipClass file.head.accessFlags = false)
    (small : file.encode.length * 2 + 512 < 2 ^ 31)
    (methods : ∀ method ∈ file.methods, ∃ methodName descr, method.Valid constants.lengths fuel
      ((initialImage classNumber (some name) file.encode systemClass names).withCopied
        file.head.pool) methodName descr) :
    ∃ next added images last, TrackersNamed next className ∧
      Grows ((initialImage classNumber (some name) file.encode systemClass names).withCopied
        file.head.pool) next added ∧
      (encodePool added).length ≤ names.poolBytes className ∧
      MethodsWritten constants.lengths
        ((next.beforeMethods file added).atMethods file.methods.length) file.methods images last ∧
      ((∀ image ∈ images, image.Fits) →
        (file.injected added images).length ≤ file.encode.length * 2 + 512 →
          javaCrwDemo constants fuel classNumber (some name) file.encode systemClass names =
            some (if last.injectionCount = 0 then none
              else some (file.injected added images))) := by
  let ci := initialImage classNumber (some name) file.encode systemClass names
  have plainTracker : ∀ className ∈ ci.interface.tclassName, dot ∉ className := by
    intro given isGiven
    have same : some given = some className := isGiven.symm.trans tells.named
    rwa [Option.some.inj same]
  have ahead : Ahead ci 0 file.encode := by
    have whole := slice_append_left file.encode []
    rwa [List.append_nil] at whole
  rcases @run_injectClass ci constants fuel file name className valid supported rfl plainTracker
    tells (Option.some_ne_none _) noInterface methods ahead with
    ⟨next, added, images, last, named, grows, bytes, written, writes⟩
  refine ⟨next, added, images, last, named, grows, bytes, written, fun fits room => ?_⟩
  have hasRoom : ci.HasRoom (file.injected added images).length := by
    rintro _ ⟨⟩
    rwa [List.length_nil, Nat.zero_add]
  rcases writes fits hasRoom with ⟨final, ran, output⟩
  have filled : file.encode.length ≠ 0 := Nat.succ_ne_zero _
  have passed : interfaceFits systemClass names ∧ (∀ given ∈ some name, dot ∉ given) ∧
      file.encode.length * 2 + 512 < 2 ^ 31 := ⟨fitting, by rintro _ ⟨⟩; exact plainName, small⟩
  rw [javaCrwDemo, if_neg filled, if_pos passed, ran, Option.map_some]
  by_cases nothing : last.injectionCount = 0
  · simp only [nothing, if_true]
  · have isOutput : final.output = some (file.injected added images) := output nothing
    have position : final.outputPosition ≠ 0 := by
      rw [outputPosition, isOutput]
      exact Nat.succ_ne_zero _
    simp only [nothing, if_false, position, isOutput]

/-- The names in front of the class in `java.lang.Object`. -/
def objectPool : List PoolEntry :=
  [.utf8 (ascii "<init>"), .utf8 (ascii "()V"), .utf8 (ascii "Code"),
    .oneIndex JvmConstant.class_ 5, .utf8 (ascii "java/lang/Object")]

def objectFile : JavaClass :=
  ⟨⟨0, 50, objectPool, 33, 4⟩, 0, [], [], [.coded constructorMethodInfo], []⟩

def objectImage : CrwClassImage :=
  initialImage 0 (some (ascii "java/lang/Object")) objectFile.encode 1 agentInterface

theorem valid_objectFile : objectFile.Valid (ascii "java/lang/Object") := by
  refine ⟨⟨by decide, by decide, ?_, by decide, by decide⟩, ⟨5, rfl, rfl⟩, by decide, by decide,
    fun _ => rfl, by decide, by decide, by simp [objectFile], by decide, by decide,
    by simp [objectFile]⟩
  simp only [objectFile, objectPool, List.mem_cons, List.not_mem_nil, or_false, forall_eq_or_imp,
    forall_eq]
  exact ⟨(by decide : (ascii "<init>").length < 2 ^ 16),
    (by decide : (ascii "()V").length < 2 ^ 16),
    (by decide : (ascii "Code").length < 2 ^ 16), ⟨by decide, by decide⟩,
    (by decide : (ascii "java/lang/Object").length < 2 ^ 16)⟩

/-- The new code of the constructor, wherever it stands and whatever the index is. -/
theorem assembled_constructorInfo {ci : CrwClassImage} (told : ci.indices.objectInitTracker ≠ 0)
    (noArrays : ci.indices.newarrayTracker = 0) (start : ℕ) (widening : ℕ → ℤ) :
    assembled ci (methodImage 0 constructorInfo true start) [(0, .plain 177 [])] widening =
      [.plain Opcode.aload_0 [], .plain Opcode.invokestatic
        [byte (ci.indices.objectInitTracker / 2 ^ 8), byte ci.indices.objectInitTracker],
        .plain 177 []] := by
  have entry : entryInstructions ci (methodImage 0 constructorInfo true start) =
      [.plain Opcode.aload_0 [], .plain Opcode.invokestatic
        [byte (ci.indices.objectInitTracker / 2 ^ 8), byte ci.indices.objectInitTracker]] := by
    simp [entryInstructions, trackerCallInstructions, methodImage, told, noArrays]
  have block : block ci (methodImage 0 constructorInfo true start) [(0, .plain 177 [])] widening
      (0, .plain 177 []) = [.plain 177 []] := rfl
  rw [assembled, entry, List.flatMap_singleton, block]
  rfl

theorem fits_constructorInfo {ci : CrwClassImage} (told : ci.indices.objectInitTracker ≠ 0)
    (noArrays : ci.indices.newarrayTracker = 0) (start : ℕ) (widening : ℕ → ℤ) :
    (constructorInfo.rewritten ci (methodImage 0 constructorInfo true start) [(0, .plain 177 [])]
      widening).Fits := by
  refine ⟨?_, ?_, by simp [CodeInfo.rewritten, constructorInfo]⟩
  · rw [CodeInfo.rewritten, assembled_constructorInfo told noArrays]
    exact (by decide : 5 ≤ 65535)
  · simp [CodeInfo.rewritten, neededStack, entryStack, trackerStack, opcodeStack, beforeStack,
      afterStack, methodImage, constructorInfo, told, noArrays, Instruction.opcode]

theorem length_constructorInfo {ci : CrwClassImage} (told : ci.indices.objectInitTracker ≠ 0)
    (noArrays : ci.indices.newarrayTracker = 0) (start : ℕ) (widening : ℕ → ℤ) :
    (constructorInfo.rewritten ci (methodImage 0 constructorInfo true start) [(0, .plain 177 [])]
      widening).encode.length = 17 := by
  rw [CodeInfo.rewritten, assembled_constructorInfo told noArrays]
  rfl

theorem injectionCount_constructorInfo {ci : CrwClassImage}
    (told : ci.indices.objectInitTracker ≠ 0) (noArrays : ci.indices.newarrayTracker = 0)
    (start : ℕ) : 0 < injectionCount ci (methodImage 0 constructorInfo true start)
      [(0, .plain 177 [])] := by
  simp [injectionCount, injectionsOf, entryCode, trackerCall, methodImage, told, noArrays]

theorem length_injected_objectFile (added : List PoolEntry) {code : CodeInfo}
    (codeLength : code.encode.length = 17) :
    (objectFile.injected added [.coded { constructorMethodInfo with code := code }]).length =
      (encodePool added).length + 99 := by
  have pool : (encodePool objectFile.head.pool).length = 44 := rfl
  have members : objectFile.members.length = 8 := rfl
  have front : ({ constructorMethodInfo with code := code } : MethodInfo).front.length = 10 := rfl
  have behind : (encodeAttributes objectFile.attributes).length = 2 := rfl
  have nothing : (constructorMethodInfo.behind.flatMap RawAttribute.encode).length = 0 := rfl
  have whole : encodePool (objectFile.head.pool ++ added) =
      encodePool objectFile.head.pool ++ encodePool added := List.flatMap_append
  simp only [JavaClass.injected, JavaClass.encodeWith, ClassHead.frontWith, whole, encodeMethods,
    List.flatMap_singleton, ClassMethod.encode, MethodInfo.encodeWith, List.length_append,
    length_bytes2, length_bytes4, codeLength, pool, members, front, behind,
    nothing]
  omega

theorem javaCrwDemo_object : ∃ image : List UInt8,
    javaCrwDemo ⟨jvmLengths, 50, 0⟩ 8 0 (some (ascii "java/lang/Object")) objectFile.encode 1
      agentInterface = some (some image) := by
  have methods : ∀ method ∈ objectFile.methods, ∃ methodName descr, method.Valid jvmLengths 8
      (objectImage.withCopied objectPool) methodName descr := by
    simp only [objectFile, List.mem_singleton, forall_eq]
    exact ⟨_, _, valid_constructorMethodInfo
      ⟨by decide, by decide, by decide, _, rfl, rfl, rfl⟩
      ⟨by decide, by decide, by decide, _, rfl, rfl, rfl⟩
      ⟨by decide, by decide, by decide, _, rfl, rfl, rfl⟩⟩
  rcases @javaCrwDemo_injected ⟨jvmLengths, 50, 0⟩ 8 0 objectFile (ascii "java/lang/Object")
    (ascii "ObjectAllocationTracker") 1 agentInterface valid_objectFile (Or.inl (by decide))
    (by decide) tells_agentInterface (by decide) (by decide) (by decide) (by decide) methods with
    ⟨next, added, images, last, trackers, grows, bytes, written, writes⟩
  have sameInterface : next.interface = agentInterface :=
    (congrArg CrwClassImage.interface grows.same :)
  have sameInput : next.input = objectFile.encode := (congrArg CrwClassImage.input grows.same :)
  have samePosition : next.inputPosition = 0 :=
    (congrArg CrwClassImage.inputPosition grows.same :)
  have pool {index : ℕ} (inside : index < 6) :
      next.cpool[index]? = (objectImage.withCopied objectPool).cpool[index]? :=
    grows.getElem?_eq (by decide) inside
  have told : next.indices.objectInitTracker ≠ 0 := by
    have tracker := trackers.object
    rw [sameInterface] at tracker
    rcases tracker with ⟨_, _, _, _, stands, _⟩
    exact stands.positive.ne'
  have noArrays : next.indices.newarrayTracker = 0 := by
    have tracker := trackers.newarray
    rwa [sameInterface] at tracker
  have few : agentInterface.poolBytes (ascii "ObjectAllocationTracker") = 130 := by decide
  rw [few] at bytes
  cases written with
  | @cons _ _ name descr _ image count _ _ isNamed written rest =>
    cases rest
    have isName : name = ascii "<init>" := by
      rcases isNamed.1.entry with ⟨entry, found, isText, _⟩
      obtain rfl := Option.some.inj ((pool (by decide)).symm.trans found)
      exact (Option.some.inj isText).symm
    have isDescr : descr = ascii "()V" := by
      rcases isNamed.2.entry with ⟨entry, found, isText, _⟩
      obtain rfl := Option.some.inj ((pool (by decide)).symm.trans found)
      exact (Option.some.inj isText).symm
    subst isName isDescr
    have isObject : isObjectInit (some (ascii "<init>")) (some (ascii "()V"))
        ((next.beforeMethods objectFile added).atMethods objectFile.methods.length) =
          some true := by
      have object : ((next.beforeMethods objectFile added).atMethods
        objectFile.methods.length).isObjectClass = true := Bool.or_true _
      rw [isObjectInit, object]
      rfl
    cases written with
    | @instrumented _ listing widening objectInit mi isImage constructs skips isCode
        instrumented =>
        have constructor : objectInit = true := Option.some.inj (constructs.symm.trans isObject)
        have standing : Lists jvmLengths [177] 0 [(0, .plain 177 [])] 1 :=
          instrumented_constructorMethod.lists
        have codeLen : mi.codeLen = 1 := by
          rw [isImage]
          rfl
        have lists := instrumented.lists
        rw [isCode, codeLen] at lists
        obtain rfl : [(0, .plain 177 [])] = listing := standing.unique lists
        rw [constructor] at isImage
        subst isImage
        let reached := constructorMethodInfo.reached ((next.beforeMethods objectFile
          added).atMethods objectFile.methods.length) (ascii "<init>") (ascii "()V")
        have fits := @fits_constructorInfo reached told noArrays (reached.inputPosition + 12)
          widening
        have length := length_injected_objectFile added (@length_constructorInfo reached told
          noArrays (reached.inputPosition + 12) widening)
        have count := @injectionCount_constructorInfo reached told noArrays
          (reached.inputPosition + 12)
        have injected := writes (fun other listed => List.mem_singleton.mp listed ▸ fits) (by
          refine Nat.le_trans (Nat.le_of_eq length) ?_
          omega)
        refine ⟨_, injected.trans (congrArg some (if_neg ?_))⟩
        exact Nat.ne_of_gt (Nat.lt_add_left _ count)
    | skipped constructs skips =>
        obtain rfl := Option.some.inj (isObject.symm.trans constructs)
        cases skips

end Rewriting

end HeapScan.ClassFile
