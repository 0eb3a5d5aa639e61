import HeapScan.ClassFile.StackMaps

/-!
# The attributes of the code

An attribute is told by its name, which stands in the constant pool.  The attributes that hold
positions are written with the positions moved, and the others as they are.
-/

namespace HeapScan.ClassFile

open BigEndian

/-- The entry of the constant pool is the Utf8 entry of a text. -/
structure IsUtf8 (ci : CrwClassImage) (index : ℕ) (text : List UInt8) : Prop where
  positive : 0 < index
  inside : index < ci.cpoolCountPlusOne
  small : index < 2 ^ 16
  entry : ∃ entry, ci.cpool[index]? = some entry ∧ entry.ptr = some text ∧ entry.len = text.length

/-- What an attribute of the code holds. -/
inductive CodeTable where
  | lines (entries : List LineEntry)
  | vars (entries : List VarEntry)
  | varTypes (entries : List VarEntry)
  | stackMap (frames : List StackFrame)
  | cldcStackMap (frames : List CldcFrame)
  | other (name info : List UInt8)
deriving DecidableEq

namespace CodeTable

def name : CodeTable → List UInt8
  | lines _ => ascii "LineNumberTable"
  | vars _ => ascii "LocalVariableTable"
  | varTypes _ => ascii "LocalVariableTypeTable"
  | stackMap _ => ascii "StackMapTable"
  | cldcStackMap _ => ascii "StackMap"
  | other name _ => name

/-- The names of the attributes that are known. -/
def knownNames : List (List UInt8) :=
  [ascii "LineNumberTable", ascii "LocalVariableTable", ascii "LocalVariableTypeTable",
    ascii "StackMapTable", ascii "StackMap"]

def encode : CodeTable → List UInt8
  | lines entries => bytes2 entries.length ++ entries.flatMap LineEntry.encode
  | vars entries => bytes2 entries.length ++ entries.flatMap VarEntry.encode
  | varTypes entries => bytes2 entries.length ++ entries.flatMap VarEntry.encode
  | stackMap frames => encodeFrames frames
  | cldcStackMap frames => encodeCldcFrames frames
  | other _ info => info

def relocate (move : ℕ → ℕ) : CodeTable → CodeTable
  | lines entries => lines (entries.map (LineEntry.mapPc move))
  | vars entries => vars (entries.map (VarEntry.mapPc move))
  | varTypes entries => varTypes (entries.map (VarEntry.mapPc move))
  | stackMap frames => stackMap (relocateFrames move frames)
  | cldcStackMap frames => cldcStackMap (frames.map (CldcFrame.mapPc move))
  | other name info => other name info

/-- The positions are those of instructions, and the numbers fit into their fields. -/
def Placed (boundary : ℕ → Prop) : CodeTable → Prop
  | lines entries => entries.length < 2 ^ 16 ∧ ∀ entry ∈ entries, entry.Placed boundary
  | vars entries => entries.length < 2 ^ 16 ∧ ∀ entry ∈ entries, entry.Placed boundary
  | varTypes entries => entries.length < 2 ^ 16 ∧ ∀ entry ∈ entries, entry.Placed boundary
  | stackMap frames => frames.length < 2 ^ 16 ∧ (∀ frame ∈ frames, frame.Placed boundary) ∧
      ∀ pc ∈ framePcs frames, boundary pc
  | cldcStackMap frames => frames.length < 2 ^ 16 ∧ ∀ frame ∈ frames, frame.Placed boundary
  | other name _ => name ∉ knownNames

@[simp]
theorem name_relocate (move : ℕ → ℕ) (table : CodeTable) :
    (table.relocate move).name = table.name := by
  cases table <;> rfl

end CodeTable

/-- An attribute, by the index of its name. -/
structure CodeAttribute where
  nameIndex : ℕ
  table : CodeTable
deriving DecidableEq

namespace CodeAttribute

def encode (attr : CodeAttribute) : List UInt8 :=
  bytes2 attr.nameIndex ++ (bytes4 attr.table.encode.length ++ attr.table.encode)

def relocate (move : ℕ → ℕ) (attr : CodeAttribute) : CodeAttribute :=
  ⟨attr.nameIndex, attr.table.relocate move⟩

end CodeAttribute

section Passing

variable {mi : MethodImage} {ci : CrwClassImage} {boundary : ℕ → Prop} {move : ℕ → ℕ}

theorem passes_attributeMatch {index : ℕ} {text : List UInt8} (isUtf8 : IsUtf8 ci index text)
    (name : List UInt8) : Passes (attributeMatch index name) ci ci [] [] (text == name) := by
  rcases isUtf8.entry with ⟨entry, found, isText, isLength⟩
  have isEntry : Passes (cpoolEntry index) ci ci [] [] entry := Passes.asking fun _ _ =>
    (if_pos (And.intro isUtf8.positive isUtf8.inside)).trans found
  have same : (entry.len == name.length && (entry.ptr.map fun bytes => bytes.take name.length) ==
      some name) = (text == name) := by
    rw [isText, isLength, Option.map_some, Bool.eq_iff_iff]
    simp only [Bool.and_eq_true, beq_iff_eq, Option.some.injEq]
    refine ⟨fun ⟨size, same⟩ => ?_, ?_⟩
    · rwa [← size, List.take_length] at same
    · rintro rfl
      exact ⟨rfl, List.take_length⟩
  rw [← same]
  exact isEntry.bind (Passes.pure ci _)

section Choosing

variable {index : ℕ} {text : List UInt8} {write other : CrwMethod Unit}
  {input output : List UInt8}

/-- An attribute of the name that is looked for. -/
theorem passes_named (isUtf8 : IsUtf8 ci index text)
    (written : CodePasses write mi ci input output ()) :
    CodePasses (do if ← attributeMatch index text then write else other) mi ci input output () := by
  refine CodePasses.bind (CodePasses.lift (passes_attributeMatch isUtf8 text)) ?_
  rw [if_pos (beq_self_eq_true text)]
  exact written

/-- An attribute of another name. -/
theorem passes_unnamed (isUtf8 : IsUtf8 ci index text) {name : List UInt8} (differ : text ≠ name)
    (written : CodePasses other mi ci input output ()) :
    CodePasses (do if ← attributeMatch index name then write else other) mi ci input output () := by
  refine CodePasses.bind (CodePasses.lift (passes_attributeMatch isUtf8 name)) ?_
  rw [if_neg (mt beq_iff_eq.mp differ)]
  exact written

end Choosing

/-- An attribute of the code is written with its positions moved. -/
theorem passes_codeAttribute (relocates : Relocates mi boundary move)
    (isOutput : ci.output ≠ none) {attr : CodeAttribute}
    (isUtf8 : IsUtf8 ci attr.nameIndex attr.table.name) (placed : attr.table.Placed boundary)
    (small : attr.table.encode.length < 2 ^ 32)
    (newSmall : (attr.table.relocate move).encode.length < 2 ^ 32) :
    CodePasses methodWriteCodeAttribute mi ci attr.encode (attr.relocate move).encode
      () := by
  rcases attr with ⟨nameIndex, table⟩
  refine (CodePasses.copyU2 mi ci isUtf8.small).bind ?_
  dsimp only [CodeAttribute.relocate] at isUtf8 placed small newSmall ⊢
  cases table with
  | lines entries =>
      have same : ((CodeTable.lines entries).relocate move).encode.length =
          (CodeTable.lines entries).encode.length := by
        simp [CodeTable.relocate, CodeTable.encode, LineEntry.encode, Function.comp_def]
      rw [same, CodeTable.relocate, CodeTable.encode, CodeTable.encode, List.length_map]
      exact passes_named isUtf8 (passes_lineTable relocates placed.1 placed.2 small)
  | vars entries =>
      have same : ((CodeTable.vars entries).relocate move).encode.length =
          (CodeTable.vars entries).encode.length := by
        simp [CodeTable.relocate, CodeTable.encode, VarEntry.encode, Function.comp_def]
      rw [same, CodeTable.relocate, CodeTable.encode, CodeTable.encode, List.length_map]
      have isUtf8 : IsUtf8 ci nameIndex (ascii "LocalVariableTable") := isUtf8
      exact passes_unnamed isUtf8 (by decide)
        (passes_named isUtf8 (passes_varTable relocates placed.1 placed.2 small))
  | varTypes entries =>
      have same : ((CodeTable.varTypes entries).relocate move).encode.length =
          (CodeTable.varTypes entries).encode.length := by
        simp [CodeTable.relocate, CodeTable.encode, VarEntry.encode, Function.comp_def]
      rw [same, CodeTable.relocate, CodeTable.encode, CodeTable.encode, List.length_map]
      have isUtf8 : IsUtf8 ci nameIndex (ascii "LocalVariableTypeTable") := isUtf8
      exact passes_unnamed isUtf8 (by decide) (passes_unnamed isUtf8 (by decide)
        (passes_named isUtf8 (passes_varTable relocates placed.1 placed.2 small)))
  | stackMap frames =>
      have isUtf8 : IsUtf8 ci nameIndex (ascii "StackMapTable") := isUtf8
      exact passes_unnamed isUtf8 (by decide) (passes_unnamed isUtf8 (by decide)
        (passes_unnamed isUtf8 (by decide) (passes_named isUtf8
          (passes_stackmapTable relocates isOutput placed.1 placed.2.1 placed.2.2 newSmall))))
  | cldcStackMap frames =>
      have isUtf8 : IsUtf8 ci nameIndex (ascii "StackMap") := isUtf8
      exact passes_unnamed isUtf8 (by decide) (passes_unnamed isUtf8 (by decide)
        (passes_unnamed isUtf8 (by decide) (passes_unnamed isUtf8 (by decide)
          (passes_named isUtf8 (passes_cldcTable relocates isOutput placed.1 placed.2 small)))))
  | other name info =>
      have unknown (known : List UInt8) (listed : known ∈ CodeTable.knownNames) : name ≠ known :=
        fun same => placed (same ▸ listed)
      have isUtf8 : IsUtf8 ci nameIndex name := isUtf8
      exact passes_unnamed isUtf8 (unknown _ (by decide))
        (passes_unnamed isUtf8 (unknown _ (by decide))
          (passes_unnamed isUtf8 (unknown _ (by decide))
            (passes_unnamed isUtf8 (unknown _ (by decide))
              (passes_unnamed isUtf8 (unknown _ (by decide))
                ((CodePasses.copyU4 mi ci small).bind (CodePasses.lift (Passes.copy ci info)))))))

end Passing

end HeapScan.ClassFile
