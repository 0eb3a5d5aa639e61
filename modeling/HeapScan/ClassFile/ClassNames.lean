import HeapScan.ClassFile.TrackerEntries

/-!
# The name of a class

The name of a class is found through the constant pool: the class has an entry, and the entry
tells the index of the name.  No output is written, and no entry is added.
-/

namespace HeapScan.ClassFile

open BigEndian CrwClassImage

section Heads

/-- What stands in front of the super class, the interfaces, the fields and the methods. -/
structure ClassHead where
  minorVersion : ℕ
  majorVersion : ℕ
  pool : List PoolEntry
  accessFlags : ℕ
  thisClass : ℕ
deriving DecidableEq

namespace ClassHead

def magic : ℕ := 0xCAFEBABE

def encode (head : ClassHead) : List UInt8 :=
  bytes4 magic ++ (bytes2 head.minorVersion ++ (bytes2 head.majorVersion ++
    (bytes2 ((keptPool head.pool).length + 1 : ℕ) ++ encodePool head.pool ++
      (bytes2 head.accessFlags ++ bytes2 head.thisClass))))

/-- What the indices name; nothing stands at zero. -/
def table (head : ClassHead) : List CrwConstantPoolEntry := emptyCpoolEntry :: keptPool head.pool

structure Valid (head : ClassHead) : Prop where
  minorVersion : head.minorVersion < 2 ^ 16
  majorVersion : head.majorVersion < 2 ^ 16
  entries : ∀ entry ∈ head.pool, entry.Valid
  few : (keptPool head.pool).length + 65 < 2 ^ 16
  accessFlags : head.accessFlags < 2 ^ 16

/-- The entry of the class leads to the name. -/
def Names (head : ClassHead) (name : List UInt8) : Prop :=
  ∃ nameIndex, head.table[head.thisClass]? =
      some (PoolEntry.oneIndex JvmConstant.class_ nameIndex).noted ∧
    head.table[nameIndex]? = some (PoolEntry.utf8 name).noted

end ClassHead

variable {ci : CrwClassImage} {head : ClassHead} {name : List UInt8}

theorem ClassHead.Names.nonempty (names : head.Names name) : head.pool ≠ [] := by
  rcases names with ⟨nameIndex, isClass, isName⟩
  intro empty
  have only : head.table = [emptyCpoolEntry] := by rw [ClassHead.table, empty]; rfl
  rw [only, List.getElem?_singleton] at isClass
  split at isClass
  · cases isClass
  · cases isClass

/-- The table has been read, and entries may have been added behind it. -/
theorem entryAt_of_table {entry : PoolEntry} (tagged : entry.noted.tag ≠ 0)
    {more : List CrwConstantPoolEntry}
    (isTable : ci.cpool.take ci.cpoolCountPlusOne = head.table ++ more) {index : ℕ}
    (found : head.table[index]? = some entry.noted) : EntryAt ci index entry := by
  have listed : (ci.cpool.take ci.cpoolCountPlusOne)[index]? = some entry.noted := by
    rw [isTable, List.getElem?_append_left (List.getElem?_eq_some_iff.mp found).1, found]
  have inside : index < ci.cpoolCountPlusOne :=
    Nat.lt_of_lt_of_le (List.getElem?_eq_some_iff.mp listed).1 (List.length_take_le _ _)
  refine ⟨Nat.pos_of_ne_zero fun atZero => ?_, inside, ?_⟩
  · subst atZero
    exact tagged (congrArg CrwConstantPoolEntry.tag (Option.some.inj found).symm)
  · rwa [List.getElem?_take_of_lt inside] at listed

theorem classAt_of_table {more : List CrwConstantPoolEntry}
    (isTable : ci.cpool.take ci.cpoolCountPlusOne = head.table ++ more) (names : head.Names name) :
    ClassAt ci head.thisClass name := by
  rcases names with ⟨nameIndex, isClass, isName⟩
  exact ⟨nameIndex, entryAt_of_table (by simp [PoolEntry.noted]) isTable isClass,
    entryAt_of_table (by simp [PoolEntry.noted]) isTable isName⟩

theorem passes_cpoolEntry {index : ℕ} {entry : PoolEntry} (stands : EntryAt ci index entry) :
    Passes (cpoolEntry index) ci ci [] [] entry.noted :=
  Passes.asking fun _ _ => (if_pos ⟨stands.positive, stands.inside⟩).trans stands.found

theorem passes_className {thisClass : ℕ} (isClass : ClassAt ci thisClass name)
    (small : ci.cpoolCountPlusOne ≤ 2 ^ 16) :
    Passes (do
      let entry ← cpoolEntry ((← cpoolEntry thisClass).index1 % 2 ^ 16)
      return (entry.ptr.getD []).take entry.len) ci ci [] [] name := by
  rcases isClass with ⟨nameIndex, stands, named⟩
  have index : nameIndex % 2 ^ 16 = nameIndex :=
    Nat.mod_eq_of_lt (Nat.lt_of_lt_of_le named.inside small)
  have told : Passes (pure (((PoolEntry.utf8 name).noted.ptr.getD []).take
      (PoolEntry.utf8 name).noted.len)) ci ci [] [] name := by
    rw [show ((PoolEntry.utf8 name).noted.ptr.getD []).take (PoolEntry.utf8 name).noted.len = name
      from List.take_length]
    exact Passes.pure ci name
  have entry : Passes (do
      let entry ← cpoolEntry (nameIndex % 2 ^ 16)
      return (entry.ptr.getD []).take entry.len) ci ci [] [] name := by
    rw [index]
    exact (passes_cpoolEntry named).bind told
  exact (passes_cpoolEntry stands).bind entry

end Heads

section Classname

variable {ci : CrwClassImage} {head : ClassHead} {name : List UInt8}

/-- Where no tracker is told, nothing is added. -/
theorem adds_noTrackers (nothing : ci.interface = noTrackers) :
    ∃ next, Adds addTrackers ci next [] () := by
  have numbered : Adds addClassNumber ci ci [] () :=
    ⟨Passes.get (fun _ _ => if_neg (by
      change ¬ ((ci.interface.callName.isSome || ci.interface.returnName.isSome) && _) = true
      rw [nothing]
      exact Bool.false_ne_true)) (Passes.pure ci ()), Grows.refl ci⟩
  have noted (now : CrwClassImage) (change : ℕ → CrwTrackerIndices → CrwTrackerIndices) :
      Adds (noteTracker none none change) now (now.withIndices (change 0 now.indices)) [] () :=
    Adds.bind (Adds.pure now 0) (adds_setIndex now (change 0))
  have classed : Adds (noteTrackerClass none) ci _ [] () :=
    Adds.bind (Adds.pure ci 0) (adds_setIndex ci fun indices => { indices with trackerClass := 0 })
  have rest : ∃ last, Adds (do
      noteTrackerClass ci.interface.tclassName
      noteTracker ci.interface.objInitName ci.interface.objInitSig fun index indices =>
        { indices with objectInitTracker := index }
      noteTracker ci.interface.newarrayName ci.interface.newarraySig fun index indices =>
        { indices with newarrayTracker := index }
      noteTracker ci.interface.callName ci.interface.callSig fun index indices =>
        { indices with callTracker := index }
      noteTracker ci.interface.returnName ci.interface.returnSig fun index indices =>
        { indices with returnTracker := index }) ci last [] () := by
    rw [nothing]
    exact ⟨_, Adds.bind classed (Adds.bind (noted _ _) (Adds.bind (noted _ _)
      (Adds.bind (noted _ _) (noted _ _))))⟩
  rcases rest with ⟨last, rest⟩
  exact ⟨last, Adds.bind numbered ⟨Passes.get (fun _ _ => rfl) rest.passes, rest.grows⟩⟩

theorem passes_readClassname (valid : head.Valid) (names : head.Names name)
    (nothing : ci.interface = noTrackers) : ∃ next output,
      Passes readClassname ci next head.encode output name := by
  rcases names with ⟨nameIndex, isClass, isName⟩
  have nonempty := ClassHead.Names.nonempty ⟨nameIndex, isClass, isName⟩
  rcases @adds_noTrackers (ci.withCopied head.pool) nothing with ⟨next, adds⟩
  have setUp := passes_cpoolSetup_of_adds valid.entries nonempty valid.few adds
  have isTable : next.cpool.take next.cpoolCountPlusOne = head.table ++ [] := take_of_adds adds
  have counted : next.cpoolCountPlusOne = (keptPool head.pool).length + 1 := adds.grows.count
  have few := valid.few
  have named := passes_className (classAt_of_table isTable ⟨nameIndex, isClass, isName⟩) (by omega)
  have inTable := (List.getElem?_eq_some_iff.mp isClass).1
  have small : head.thisClass < 2 ^ 16 := by
    rw [ClassHead.table, List.length_cons] at inTable
    omega
  have isMagic : decide (ClassHead.magic = 0xCAFEBABE) = true := rfl
  have found : Passes (do
      let _ ← readU2
      let thisClass ← readU2
      let entry ← cpoolEntry ((← cpoolEntry thisClass).index1 % 2 ^ 16)
      return (entry.ptr.getD []).take entry.len) next next _ _ name :=
    Passes.bind (Passes.readU2 next valid.accessFlags)
      (Passes.bind (Passes.readU2 next small) named)
  have whole : Passes readClassname ci next _ _ name :=
    Passes.bind (Passes.readU4 ci (show ClassHead.magic < 2 ^ 32 by decide))
      (Passes.bind (Passes.crwAssert ci isMagic)
        (Passes.bind (Passes.readU2 ci valid.minorVersion)
          (Passes.bind (Passes.readU2 ci valid.majorVersion) (Passes.bind setUp found))))
  refine ⟨next, _, whole.of_eq ?_ rfl⟩
  rw [List.append_nil]
  rfl

/-- The name of the class is told whatever stands behind the head. -/
theorem javaCrwDemoClassname_eq (valid : head.Valid) (names : head.Names name)
    (rest : List UInt8) : javaCrwDemoClassname (head.encode ++ rest) = some (some name) := by
  rcases @passes_readClassname (classnameImage (head.encode ++ rest)) head name valid names rfl with
    ⟨next, output, passes⟩
  have ahead : Ahead (classnameImage (head.encode ++ rest)) 0 head.encode := by
    exact slice_append_left head.encode rest
  have ran := passes.run [] 0 ahead (fun _ none => nomatch none)
  rw [emit_nil, advance_zero] at ran
  have filled : (head.encode ++ rest).length ≠ 0 := Nat.succ_ne_zero _
  rw [javaCrwDemoClassname, if_neg filled, ran]
  rfl

def tinyHead : ClassHead :=
  ⟨0, 50, [.oneIndex JvmConstant.class_ 2, .utf8 (ascii "A")], 33, 1⟩

theorem javaCrwDemoClassname_tiny :
    javaCrwDemoClassname (tinyHead.encode ++ [0, 0]) = some (some (ascii "A")) := by
  refine javaCrwDemoClassname_eq ⟨by decide, by decide, ?_, by decide, by decide⟩
    ⟨2, by decide, by decide⟩ _
  simp only [tinyHead, List.mem_cons, List.not_mem_nil, or_false, forall_eq_or_imp, forall_eq]
  exact ⟨⟨by decide, by decide⟩, (by decide : (ascii "A").length < 2 ^ 16)⟩

end Classname

end HeapScan.ClassFile
