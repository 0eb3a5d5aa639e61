import HeapScan.ClassFile.CodeInfo

/-!
# The constant pool

The constant pool is copied, and entries are added behind it.  An index that names an entry
names the same entry afterwards.  The indices that the injected code uses name the methods of
the tracker class that the interface tells.
-/

namespace HeapScan.ClassFile

open BigEndian CrwClassImage

/-- An entry of the constant pool, as a class file holds it. -/
inductive PoolEntry where
  | oneIndex (tag index : ℕ)
  | twoIndices (tag index1 index2 : ℕ)
  | twoWords (tag word1 word2 : ℕ)
  | utf8 (text : List UInt8)
deriving DecidableEq

namespace PoolEntry

def encode : PoolEntry → List UInt8
  | oneIndex tag index => byte tag :: bytes2 index
  | twoIndices tag index1 index2 => byte tag :: (bytes2 index1 ++ bytes2 index2)
  | twoWords tag word1 word2 => byte tag :: (bytes4 word1 ++ bytes4 word2)
  | utf8 text => byte JvmConstant.utf8 :: (bytes2 text.length ++ text)

/-- What the image keeps of the entry. -/
def noted : PoolEntry → CrwConstantPoolEntry
  | oneIndex tag index => ⟨none, 0, index, 0, tag⟩
  | twoIndices tag index1 index2 => ⟨none, 0, index1, index2, tag⟩
  | twoWords tag word1 word2 => ⟨none, 0, word1, word2, tag⟩
  | utf8 text => ⟨some text, text.length, text.length, 0, JvmConstant.utf8⟩

/-- How many indices the entry takes. -/
def slots : PoolEntry → ℕ
  | twoWords _ _ _ => 2
  | _ => 1

def kept (entry : PoolEntry) : List CrwConstantPoolEntry :=
  entry.noted :: List.replicate (entry.slots - 1) emptyCpoolEntry

def Valid : PoolEntry → Prop
  | oneIndex tag index => tag ∈ JvmConstant.ofOneIndex ∧ index < 2 ^ 16
  | twoIndices tag index1 index2 =>
      tag ∈ JvmConstant.ofTwoIndices ∧ index1 < 2 ^ 16 ∧ index2 < 2 ^ 16
  | twoWords tag word1 word2 =>
      tag ∈ JvmConstant.ofTwoWords ∧ word1 < 2 ^ 32 ∧ word2 < 2 ^ 32
  | utf8 text => text.length < 2 ^ 16

theorem slots_pos (entry : PoolEntry) : 0 < entry.slots := by
  cases entry <;> simp [slots]

theorem length_kept (entry : PoolEntry) : entry.kept.length = entry.slots := by
  have positive := entry.slots_pos
  rw [kept, List.length_cons, List.length_replicate]
  omega

end PoolEntry

def encodePool (pool : List PoolEntry) : List UInt8 := pool.flatMap PoolEntry.encode

def keptPool (pool : List PoolEntry) : List CrwConstantPoolEntry := pool.flatMap PoolEntry.kept

def CrwClassImage.withPool (ci : CrwClassImage) (cpool : List CrwConstantPoolEntry) :
    CrwClassImage :=
  { ci with cpool := cpool }

section Copying

variable {ci : CrwClassImage}

theorem Passes.fillinCpoolEntry {i : ℕ} (positive : 0 < i) (counted : i < ci.cpoolCountPlusOne)
    (inside : i < ci.cpool.length) (entry : CrwConstantPoolEntry) :
    Passes (fillinCpoolEntry i entry) ci (ci.withPool (ci.cpool.set i entry)) [] [] () :=
  Passes.change ⟨rfl, rfl, rfl, rfl⟩ fun _ _ => if_pos ⟨positive, counted, inside⟩

theorem tag_small {tag : ℕ} (listed : tag ∈ JvmConstant.ofOneIndex ++ JvmConstant.ofTwoIndices ++
    JvmConstant.ofTwoWords) : tag < 2 ^ 8 := by
  have all : (JvmConstant.ofOneIndex ++ JvmConstant.ofTwoIndices ++
      JvmConstant.ofTwoWords).all (fun tag => tag < 2 ^ 8) = true := by decide
  exact of_decide_eq_true (List.all_eq_true.mp all tag listed)

/-- The groups of tags have no tag in common. -/
theorem twoIndices_apart {tag : ℕ} (listed : tag ∈ JvmConstant.ofTwoIndices) :
    tag ∉ JvmConstant.ofOneIndex := by
  have all : JvmConstant.ofTwoIndices.all (fun tag => tag ∉ JvmConstant.ofOneIndex) = true := by
    decide
  exact of_decide_eq_true (List.all_eq_true.mp all tag listed)

theorem twoWords_apart {tag : ℕ} (listed : tag ∈ JvmConstant.ofTwoWords) :
    tag ∉ JvmConstant.ofOneIndex ∧ tag ∉ JvmConstant.ofTwoIndices := by
  have all : JvmConstant.ofTwoWords.all (fun tag =>
      tag ∉ JvmConstant.ofOneIndex ∧ tag ∉ JvmConstant.ofTwoIndices) = true := by decide
  exact of_decide_eq_true (List.all_eq_true.mp all tag listed)

theorem passes_copyCpoolEntry {entry : PoolEntry} (valid : entry.Valid) {i : ℕ} (positive : 0 < i)
    (counted : i < ci.cpoolCountPlusOne) (inside : i < ci.cpool.length) :
    Passes (copyCpoolEntry i) ci (ci.withPool (ci.cpool.set i entry.noted)) entry.encode
      entry.encode entry.slots := by
  have filled : Passes (do fillinCpoolEntry i entry.noted; return entry.slots) ci
      (ci.withPool (ci.cpool.set i entry.noted)) [] [] entry.slots :=
    (Passes.fillinCpoolEntry positive counted inside entry.noted).bind (Passes.pure _ _)
  have behind {tag : ℕ} {fields : List UInt8} {body : ℕ → Crw ℕ} {rest : Crw ℕ}
      (small : tag < 2 ^ 8) (same : entry.encode = byte tag :: fields) (isBody : body tag = rest)
      (restPasses : Passes rest ci (ci.withPool (ci.cpool.set i entry.noted))
        fields fields entry.slots) :
      Passes (copyU1 >>= body) ci (ci.withPool (ci.cpool.set i entry.noted))
        entry.encode entry.encode entry.slots := by
    rw [same]
    exact (Passes.copyU1 ci small).bind (isBody ▸ restPasses)
  cases entry with
  | oneIndex tag index =>
      rcases valid with ⟨listed, small⟩
      refine behind (tag_small (by simp [listed])) rfl (if_pos listed) ?_
      exact ((Passes.copyU2 ci small).bind filled).of_eq (List.append_nil _) (List.append_nil _)
  | twoIndices tag index1 index2 =>
      rcases valid with ⟨listed, small1, small2⟩
      refine behind (tag_small (by simp [listed])) rfl
        ((if_neg (twoIndices_apart listed)).trans (if_pos listed)) ?_
      exact ((Passes.copyU2 ci small1).bind ((Passes.copyU2 ci small2).bind filled)).of_eq
        (by rw [List.append_nil]) (by rw [List.append_nil])
  | twoWords tag word1 word2 =>
      rcases valid with ⟨listed, small1, small2⟩
      refine behind (tag_small (by simp [listed])) rfl ((if_neg (twoWords_apart listed).1).trans
        ((if_neg (twoWords_apart listed).2).trans (if_pos listed))) ?_
      exact ((Passes.copyU4 ci small1).bind ((Passes.copyU4 ci small2).bind filled)).of_eq
        (by rw [List.append_nil]) (by rw [List.append_nil])
  | utf8 text =>
      refine behind (by decide) rfl rfl ?_
      exact ((Passes.copyU2 ci valid).bind ((Passes.readBytes ci text).bind
        ((Passes.writeBytes ci text).bind filled))).of_eq
        (by rw [List.nil_append, List.append_nil]) (by rw [List.nil_append, List.append_nil])

/-- The entries of a pool take the indices from `i` on. -/
theorem passes_copyCpool {pool : List PoolEntry} (valid : ∀ entry ∈ pool, entry.Valid) {i free : ℕ}
    {front : List CrwConstantPoolEntry} (positive : 0 < i) (isFront : front.length = i)
    (cpool : ci.cpool = front ++ List.replicate ((keptPool pool).length + free) emptyCpoolEntry)
    (counted : ci.cpoolCountPlusOne = i + (keptPool pool).length)
    (small : ci.cpoolCountPlusOne < 2 ^ 16) {fuel : ℕ} (enough : pool.length < fuel) :
    Passes (copyCpool ci.cpoolCountPlusOne fuel i) ci
      (ci.withPool (front ++ keptPool pool ++ List.replicate free emptyCpoolEntry))
      (encodePool pool) (encodePool pool) () := by
  induction pool generalizing ci i front fuel with
  | nil =>
      rcases fuel with _ | fuel
      · exact absurd enough (Nat.not_lt_zero _)
      have ended : ¬ i < ci.cpoolCountPlusOne := by simp [counted, keptPool]
      have same : ci.withPool (front ++ keptPool [] ++ List.replicate free emptyCpoolEntry) =
          ci := by
        have samePool : front ++ keptPool [] ++ List.replicate free emptyCpoolEntry = ci.cpool := by
          rw [cpool]
          simp [keptPool]
        rw [samePool]
        rfl
      rw [copyCpool, if_neg ended, same]
      exact Passes.pure ci ()
  | cons entry rest step =>
      rcases fuel with _ | fuel
      · exact absurd enough (Nat.not_lt_zero _)
      have slots := entry.slots_pos
      have parts : (keptPool (entry :: rest)).length = entry.slots + (keptPool rest).length := by
        simp only [keptPool, List.flatMap_cons, List.length_append, entry.length_kept]
      rw [parts] at cpool counted
      have here : i < ci.cpoolCountPlusOne := by omega
      have inside : i < ci.cpool.length := by
        rw [cpool, List.length_append, List.length_replicate]
        omega
      have first := @passes_copyCpoolEntry ci entry (valid entry List.mem_cons_self) i positive here
        inside
      have filled : ci.cpool.set i entry.noted = front ++ entry.kept ++
          List.replicate ((keptPool rest).length + free) emptyCpoolEntry := by
        have split : entry.slots + (keptPool rest).length + free =
            (entry.slots - 1 + ((keptPool rest).length + free)) + 1 := by omega
        rw [cpool, List.set_append_right _ _ isFront.le, isFront, Nat.sub_self, split,
          List.replicate_succ, List.set_cons_zero, List.replicate_add, PoolEntry.kept,
          List.append_assoc, List.cons_append]
      rw [filled] at first
      have next : (i + entry.slots) % 2 ^ 16 = i + entry.slots := Nat.mod_eq_of_lt (by omega)
      have second := @step (ci.withPool (front ++ entry.kept ++
          List.replicate ((keptPool rest).length + free) emptyCpoolEntry))
        (fun other listed => valid other (List.mem_cons_of_mem _ listed)) (i + entry.slots)
        (front ++ entry.kept) (by omega)
        (by rw [List.length_append, isFront, entry.length_kept]) rfl
        (counted.trans (by omega)) small fuel (Nat.lt_of_succ_lt_succ enough)
      rw [← next] at second
      have whole : front ++ keptPool (entry :: rest) = front ++ entry.kept ++ keptPool rest := by
        rw [keptPool, List.flatMap_cons, ← List.append_assoc]
        rfl
      rw [copyCpool, if_pos here, encodePool, List.flatMap_cons, whole]
      exact first.bind second

end Copying

section Adding

variable {ci next last : CrwClassImage}

/-- Entries can be added. -/
structure PoolRoom (ci : CrwClassImage) (count : ℕ) : Prop where
  positive : 0 < ci.cpoolCountPlusOne
  room : ci.cpoolCountPlusOne + count < ci.cpoolMaxElements
  size : ci.cpool.length = ci.cpoolMaxElements
  small : ci.cpoolMaxElements < 2 ^ 16

/-- The pool has become longer, and only the indices have changed besides. -/
structure Grows (ci next : CrwClassImage) (entries : List PoolEntry) : Prop where
  same : next = { ci with
    cpool := next.cpool, cpoolCountPlusOne := next.cpoolCountPlusOne, indices := next.indices }
  count : next.cpoolCountPlusOne = ci.cpoolCountPlusOne + entries.length
  entries : next.cpool.take next.cpoolCountPlusOne =
    ci.cpool.take ci.cpoolCountPlusOne ++ entries.map PoolEntry.noted
  size : next.cpool.length = ci.cpool.length

theorem Grows.refl (ci : CrwClassImage) : Grows ci ci [] :=
  ⟨rfl, rfl, (List.append_nil _).symm, rfl⟩

theorem Grows.trans {entries more : List PoolEntry} (first : Grows ci next entries)
    (second : Grows next last more) : Grows ci last (entries ++ more) where
  same := by
    rw [second.same, first.same]
  count := by
    rw [second.count, first.count, List.length_append, Nat.add_assoc]
  entries := by
    rw [second.entries, first.entries, List.map_append, List.append_assoc]
  size := second.size.trans first.size

theorem Grows.room {entries : List PoolEntry} (grows : Grows ci next entries) {count : ℕ}
    (room : PoolRoom ci (entries.length + count)) : PoolRoom next count := by
  have sameMax : next.cpoolMaxElements = ci.cpoolMaxElements := by rw [grows.same]
  have more := grows.count
  have enough := room.room
  exact ⟨Nat.lt_of_lt_of_le room.positive (by omega), by omega,
    by rw [grows.size, sameMax, room.size], sameMax ▸ room.small⟩

/-- The image with an entry that has been added. -/
def CrwClassImage.withEntry (ci : CrwClassImage) (entry : PoolEntry) : CrwClassImage :=
  { ci with
    cpool := ci.cpool.set ci.cpoolCountPlusOne entry.noted
    cpoolCountPlusOne := ci.cpoolCountPlusOne + 1 }

theorem grows_withEntry {entry : PoolEntry} (room : PoolRoom ci 1) :
    Grows ci (ci.withEntry entry) [entry] where
  same := rfl
  count := rfl
  entries := by
    have inside : ci.cpoolCountPlusOne < ci.cpool.length := by
      rw [room.size]
      exact Nat.lt_of_succ_lt room.room
    simp only [withEntry, List.take_add_one, List.take_set, List.getElem?_set_self inside,
      Option.toList_some, List.map_singleton]
    rw [List.set_eq_of_length_le]
    exact List.length_take_le _ _
  size := List.length_set

theorem passes_takeCpoolIndex (room : PoolRoom ci 1) :
    Passes takeCpoolIndex ci { ci with cpoolCountPlusOne := ci.cpoolCountPlusOne + 1 } [] []
      () := by
  have small := room.small
  have enough := room.room
  have next : (ci.cpoolCountPlusOne + 1) % 2 ^ 16 = ci.cpoolCountPlusOne + 1 :=
    Nat.mod_eq_of_lt (by omega)
  refine Passes.change ⟨rfl, rfl, rfl, rfl⟩ fun written count => ?_
  have counted : ((ci.emit written).advance count).cpoolCountPlusOne = ci.cpoolCountPlusOne := rfl
  have fits : decide (ci.cpoolCountPlusOne + 1 <
      ((ci.emit written).advance count).cpoolMaxElements) = true := decide_eq_true enough
  simp only [takeCpoolIndex, StateT.run_bind, StateT.run_modify, StateT.run_get, Option.pure_def,
    Option.bind_eq_bind, Option.bind_some, counted, next, crwAssert, fits, if_true, StateT.run_pure]
  rfl

theorem passes_addEntry {entry : PoolEntry} {tag index1 index2 : ℕ} {str fields : List UInt8}
    (room : PoolRoom ci 1)
    (noted : entry.noted = ⟨if tag = JvmConstant.utf8 then some str else none,
      str.length % 2 ^ 16, index1, index2, tag⟩)
    (encoded : entry.encode = byte tag :: fields)
    (written : ∀ ci, Passes (writeCpoolFields tag index1 index2 str) ci ci [] fields ()) :
    Passes (addNewCpoolEntry tag index1 index2 str) ci (ci.withEntry entry) [] entry.encode
      ci.cpoolCountPlusOne := by
  have size := room.size
  have enough := room.room
  let taken : CrwClassImage := { ci with cpoolCountPlusOne := ci.cpoolCountPlusOne + 1 }
  have filled : Passes (fillinCpoolEntry ci.cpoolCountPlusOne entry.noted) taken
      (ci.withEntry entry) [] [] () :=
    @Passes.fillinCpoolEntry taken ci.cpoolCountPlusOne room.positive (Nat.lt_succ_self _)
      (show ci.cpoolCountPlusOne < ci.cpool.length by omega) entry.noted
  have inside : decide (0 < ci.cpoolCountPlusOne ∧
      ci.cpoolCountPlusOne < (ci.withEntry entry).cpoolCountPlusOne) = true :=
    decide_eq_true ⟨room.positive, Nat.lt_succ_self _⟩
  have checked : Passes (do
      let now ← get
      crwAssert (0 < ci.cpoolCountPlusOne ∧ ci.cpoolCountPlusOne < now.cpoolCountPlusOne)
      return ci.cpoolCountPlusOne) (ci.withEntry entry) (ci.withEntry entry) [] []
        ci.cpoolCountPlusOne :=
    Passes.get (fun _ _ => rfl) ((Passes.crwAssert _ inside).bind (Passes.pure _ _))
  have stored : Passes (do
      fillinCpoolEntry ci.cpoolCountPlusOne entry.noted
      let now ← get
      crwAssert (0 < ci.cpoolCountPlusOne ∧ ci.cpoolCountPlusOne < now.cpoolCountPlusOne)
      return ci.cpoolCountPlusOne) taken (ci.withEntry entry) [] [] ci.cpoolCountPlusOne :=
    filled.bind checked
  rw [noted] at stored
  have whole : Passes (do
      takeCpoolIndex
      writeU1 tag
      writeCpoolFields tag index1 index2 str
      fillinCpoolEntry ci.cpoolCountPlusOne ⟨if tag = JvmConstant.utf8 then some str else none,
        str.length % 2 ^ 16, index1, index2, tag⟩
      let now ← get
      crwAssert (0 < ci.cpoolCountPlusOne ∧ ci.cpoolCountPlusOne < now.cpoolCountPlusOne)
      return ci.cpoolCountPlusOne) ci (ci.withEntry entry) [] (byte tag :: fields)
        ci.cpoolCountPlusOne :=
    ((passes_takeCpoolIndex room).bind ((Passes.writeU1 taken tag).bind
      ((written taken).bind stored))).of_eq rfl (by simp)
  rw [encoded]
  exact Passes.get (fun _ _ => rfl) whole

theorem notUtf8_of_listed {tag : ℕ}
    (listed : tag ∈ JvmConstant.ofOneIndex ++ JvmConstant.ofTwoIndices) :
    tag ≠ JvmConstant.utf8 := by
  have all : (JvmConstant.ofOneIndex ++ JvmConstant.ofTwoIndices).all
      (fun tag => tag ≠ JvmConstant.utf8) = true := by decide
  exact of_decide_eq_true (List.all_eq_true.mp all tag listed)

/-- The computation adds entries to the pool and writes them. -/
structure Adds {α : Type} (computation : Crw α) (ci next : CrwClassImage)
    (entries : List PoolEntry) (value : α) : Prop where
  passes : Passes computation ci next [] (encodePool entries) value
  grows : Grows ci next entries

namespace Adds

variable {α β : Type} {entries more : List PoolEntry} {value : α} {result : β}

theorem pure (ci : CrwClassImage) (value : α) : Adds (pure value) ci ci [] value :=
  ⟨Passes.pure ci value, Grows.refl ci⟩

theorem bind {computation : Crw α} {rest : α → Crw β}
    (first : Adds computation ci next entries value)
    (second : Adds (rest value) next last more result) :
    Adds (computation >>= rest) ci last (entries ++ more) result where
  passes := by
    have both := first.passes.bind second.passes
    rwa [encodePool, List.flatMap_append]
  grows := first.grows.trans second.grows

theorem oneIndex (room : PoolRoom ci 1) {tag : ℕ} (listed : tag ∈ JvmConstant.ofOneIndex)
    (index : ℕ) : Adds (addNewCpoolEntry tag index 0 []) ci (ci.withEntry (.oneIndex tag index))
      [.oneIndex tag index] ci.cpoolCountPlusOne where
  passes := by
    rw [encodePool, List.flatMap_singleton]
    refine passes_addEntry room ?_ rfl fun ci => ?_
    · rw [if_neg (notUtf8_of_listed (by simp [listed]))]
      rfl
    · rw [writeCpoolFields, if_pos listed]
      exact Passes.writeU2 ci index
  grows := grows_withEntry room

theorem twoIndices (room : PoolRoom ci 1) {tag : ℕ} (listed : tag ∈ JvmConstant.ofTwoIndices)
    (index1 index2 : ℕ) : Adds (addNewCpoolEntry tag index1 index2 []) ci
      (ci.withEntry (.twoIndices tag index1 index2)) [.twoIndices tag index1 index2]
        ci.cpoolCountPlusOne where
  passes := by
    rw [encodePool, List.flatMap_singleton]
    refine passes_addEntry room ?_ rfl fun ci => ?_
    · rw [if_neg (notUtf8_of_listed (by simp [listed]))]
      rfl
    · rw [writeCpoolFields, if_neg (twoIndices_apart listed), if_pos listed]
      exact (Passes.writeU2 ci index1).bind (Passes.writeU2 ci index2)
  grows := grows_withEntry room

theorem utf8 (room : PoolRoom ci 1) {text : List UInt8} (short : text.length < 2 ^ 16) :
    Adds (addNewCpoolEntry JvmConstant.utf8 text.length 0 text) ci (ci.withEntry (.utf8 text))
      [.utf8 text] ci.cpoolCountPlusOne where
  passes := by
    have same : text.length % 2 ^ 16 = text.length := Nat.mod_eq_of_lt short
    rw [encodePool, List.flatMap_singleton]
    refine passes_addEntry room ?_ rfl fun ci => ?_
    · rw [same]
      rfl
    · exact (Passes.crwAssert ci (decide_eq_true same.symm)).bind
        ((Passes.writeU2 ci text.length).bind (Passes.writeBytes ci text))
  grows := grows_withEntry room

end Adds

/-- An index names an entry. -/
structure EntryAt (ci : CrwClassImage) (index : ℕ) (entry : PoolEntry) : Prop where
  positive : 0 < index
  inside : index < ci.cpoolCountPlusOne
  found : ci.cpool[index]? = some entry.noted

def Utf8At (ci : CrwClassImage) (index : ℕ) (text : List UInt8) : Prop :=
  EntryAt ci index (.utf8 text)

def ClassAt (ci : CrwClassImage) (index : ℕ) (name : List UInt8) : Prop :=
  ∃ nameIndex, EntryAt ci index (.oneIndex JvmConstant.class_ nameIndex) ∧
    Utf8At ci nameIndex name

/-- An index names a method of a class, with its name and its signature. -/
def MethodAt (ci : CrwClassImage) (index : ℕ) (className name sig : List UInt8) : Prop :=
  ∃ classIndex nameType nameIndex sigIndex,
    EntryAt ci index (.twoIndices JvmConstant.methodref classIndex nameType) ∧
    ClassAt ci classIndex className ∧
    EntryAt ci nameType (.twoIndices JvmConstant.nameAndType nameIndex sigIndex) ∧
    Utf8At ci nameIndex name ∧ Utf8At ci sigIndex sig

namespace Grows

variable {entries : List PoolEntry} (grows : Grows ci next entries)
  (size : ci.cpoolCountPlusOne ≤ ci.cpool.length)

include grows size

theorem getElem?_eq {index : ℕ} (inside : index < ci.cpoolCountPlusOne) :
    next.cpool[index]? = ci.cpool[index]? := by
  have insideNext : index < next.cpoolCountPlusOne := by
    rw [grows.count]
    exact Nat.lt_add_right _ inside
  have before : index < (ci.cpool.take ci.cpoolCountPlusOne).length := by
    rwa [List.length_take_of_le size]
  rw [← List.getElem?_take_of_lt insideNext, grows.entries, List.getElem?_append_left before,
    List.getElem?_take_of_lt inside]

/-- An index names the same entry afterwards. -/
theorem entryAt {index : ℕ} {entry : PoolEntry} (stands : EntryAt ci index entry) :
    EntryAt next index entry where
  positive := stands.positive
  inside := by
    rw [grows.count]
    exact Nat.lt_add_right _ stands.inside
  found := by
    rw [grows.getElem?_eq size stands.inside, stands.found]

theorem classAt {index : ℕ} {name : List UInt8} (isClass : ClassAt ci index name) :
    ClassAt next index name := by
  rcases isClass with ⟨nameIndex, stands, named⟩
  exact ⟨nameIndex, grows.entryAt size stands, grows.entryAt size named⟩

theorem methodAt {index : ℕ} {className name sig : List UInt8}
    (isMethod : MethodAt ci index className name sig) : MethodAt next index className name sig := by
  rcases isMethod with ⟨classIndex, nameType, nameIndex, sigIndex, stands, isClass, pair, named,
    signed⟩
  exact ⟨classIndex, nameType, nameIndex, sigIndex, grows.entryAt size stands,
    grows.classAt size isClass, grows.entryAt size pair, grows.entryAt size named,
    grows.entryAt size signed⟩

end Grows

theorem PoolRoom.size_le {count : ℕ} (room : PoolRoom ci count) :
    ci.cpoolCountPlusOne ≤ ci.cpool.length := by
  have enough := room.room
  have size := room.size
  omega

theorem PoolRoom.mono {count fewer : ℕ} (room : PoolRoom ci count) (fits : fewer ≤ count) :
    PoolRoom ci fewer :=
  ⟨room.positive, by have enough := room.room; omega, room.size, room.small⟩

theorem entryAt_withEntry (room : PoolRoom ci 1) (entry : PoolEntry) :
    EntryAt (ci.withEntry entry) ci.cpoolCountPlusOne entry where
  positive := room.positive
  inside := Nat.lt_succ_self _
  found := by
    have inside : ci.cpoolCountPlusOne < ci.cpool.length := by
      have enough := room.room
      have size := room.size
      omega
    exact List.getElem?_set_self inside

/-- The tracker class is named by its index. -/
theorem adds_trackerClass (room : PoolRoom ci 2) {className : List UInt8}
    (short : className.length < 2 ^ 16) :
    ∃ next entries, Adds (addTrackerClass (some className)) ci next entries
        (ci.cpoolCountPlusOne + 1) ∧ entries.length = 2 ∧
      (encodePool entries).length = className.length + 6 ∧ next.indices = ci.indices ∧
      ClassAt next (ci.cpoolCountPlusOne + 1) className := by
  have named := Adds.utf8 (room.mono (by decide)) short
  have nextRoom : PoolRoom (ci.withEntry (.utf8 className)) 1 := named.grows.room room
  have tagged := Adds.oneIndex nextRoom (show JvmConstant.class_ ∈ JvmConstant.ofOneIndex by decide)
    ci.cpoolCountPlusOne
  refine ⟨_, _, named.bind tagged, rfl, by simp [encodePool, PoolEntry.encode]; omega, rfl,
    ci.cpoolCountPlusOne, entryAt_withEntry nextRoom _, ?_⟩
  exact tagged.grows.entryAt nextRoom.size_le (entryAt_withEntry (room.mono (by decide)) _)

end Adding

end HeapScan.ClassFile
