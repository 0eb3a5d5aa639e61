import HeapScan.ClassFile.ConstantPool

/-!
# The entries for the tracker

The names of the tracker class and of its methods are added behind the entries that are copied,
and the indices are noted.  No index stands for two methods, and the number of the class is in
the pool where it is needed there.
-/

namespace HeapScan.ClassFile

open BigEndian CrwClassImage

section Trackers

variable {ci next : CrwClassImage}

/-- The index names the method of the tracker class, or is zero where there is no name. -/
def TrackerAt (ci : CrwClassImage) (index : ℕ) (className : List UInt8)
    (name sig : Option (List UInt8)) : Prop :=
  match name, sig with
  | some name, some sig => MethodAt ci index className name sig
  | _, _ => index = 0

/-- A method that is to be called has a signature, and both can be told in the pool. -/
structure Tellable (name sig : Option (List UInt8)) : Prop where
  signed : name ≠ none → sig ≠ none
  nameShort : ∀ text ∈ name, text.length < 2 ^ 16
  sigShort : ∀ text ∈ sig, text.length < 2 ^ 16

/-- How many bytes the entries of a tracker method take at most. -/
def trackerBytes (name sig : Option (List UInt8)) : ℕ :=
  (name.getD []).length + (sig.getD []).length + 16

def CrwClassImage.withIndices (ci : CrwClassImage) (indices : CrwTrackerIndices) :
    CrwClassImage :=
  { ci with indices := indices }

theorem grows_withIndices (ci : CrwClassImage) (indices : CrwTrackerIndices) :
    Grows ci (ci.withIndices indices) [] :=
  ⟨rfl, rfl, (List.append_nil _).symm, rfl⟩

theorem adds_setIndex (ci : CrwClassImage) (change : CrwTrackerIndices → CrwTrackerIndices) :
    Adds (setIndex change) ci (ci.withIndices (change ci.indices)) [] () :=
  ⟨Passes.change ⟨rfl, rfl, rfl, rfl⟩ fun _ _ => rfl, grows_withIndices ci _⟩

theorem adds_method (room : PoolRoom ci 4) {className name sig : List UInt8}
    (isClass : ClassAt ci ci.indices.trackerClass className) (nameShort : name.length < 2 ^ 16)
    (sigShort : sig.length < 2 ^ 16) :
    ∃ next entries, Adds (addNewMethodCpoolEntry ci.indices.trackerClass name sig) ci next entries
        (ci.cpoolCountPlusOne + 3) ∧ entries.length = 4 ∧
      (encodePool entries).length = name.length + sig.length + 16 ∧ next.indices = ci.indices ∧
      MethodAt next (ci.cpoolCountPlusOne + 3) className name sig := by
  have named := Adds.utf8 (room.mono (by decide)) nameShort
  have room3 : PoolRoom (ci.withEntry (.utf8 name)) 3 := named.grows.room room
  have signed := Adds.utf8 (room3.mono (by decide)) sigShort
  have room2 : PoolRoom _ 2 := signed.grows.room room3
  have paired := Adds.twoIndices (room2.mono (by decide))
    (show JvmConstant.nameAndType ∈ JvmConstant.ofTwoIndices by decide) ci.cpoolCountPlusOne
    (ci.cpoolCountPlusOne + 1)
  have room1 : PoolRoom _ 1 := paired.grows.room room2
  have method := Adds.twoIndices room1
    (show JvmConstant.methodref ∈ JvmConstant.ofTwoIndices by decide) ci.indices.trackerClass
    (ci.cpoolCountPlusOne + 2)
  have fromName := signed.grows.trans (paired.grows.trans method.grows)
  have fromSig := paired.grows.trans method.grows
  refine ⟨_, _, named.bind (signed.bind (paired.bind method)), rfl,
    by simp [encodePool, PoolEntry.encode]; omega, rfl, ci.indices.trackerClass,
    ci.cpoolCountPlusOne + 2, ci.cpoolCountPlusOne, ci.cpoolCountPlusOne + 1,
    entryAt_withEntry room1 _, ?_, ?_, ?_, ?_⟩
  · exact (named.grows.trans fromName).classAt room.size_le isClass
  · exact method.grows.entryAt room1.size_le (entryAt_withEntry (room2.mono (by decide)) _)
  · exact fromName.entryAt room3.size_le (entryAt_withEntry (room.mono (by decide)) _)
  · exact fromSig.entryAt room2.size_le (entryAt_withEntry (room3.mono (by decide)) _)

/-- A tracker method is named, and its index is noted. -/
theorem adds_noteTracker (room : PoolRoom ci 4) {className : List UInt8}
    (isClass : ClassAt ci ci.indices.trackerClass className) {name sig : Option (List UInt8)}
    (tellable : Tellable name sig) (change : ℕ → CrwTrackerIndices → CrwTrackerIndices) :
    ∃ next entries index, Adds (noteTracker name sig change) ci next entries () ∧
      entries.length ≤ 4 ∧ (encodePool entries).length ≤ trackerBytes name sig ∧
      next.indices = change index ci.indices ∧
      TrackerAt next index className name sig ∧
      (index = 0 ∨ ci.cpoolCountPlusOne ≤ index) ∧ index < next.cpoolCountPlusOne := by
  cases name with
  | none =>
      have noted : Adds (noteTracker none sig change) ci _ [] () :=
        Adds.bind (Adds.pure ci 0) (adds_setIndex ci (change 0))
      exact ⟨_, [], 0, noted, Nat.zero_le _, Nat.zero_le _, rfl, by cases sig <;> rfl, Or.inl rfl,
        room.positive⟩
  | some name =>
      rcases Option.ne_none_iff_exists'.mp (tellable.signed (Option.some_ne_none _)) with ⟨sig, rfl⟩
      rcases adds_method room isClass (tellable.nameShort name rfl) (tellable.sigShort sig rfl) with
        ⟨next, entries, adds, length, bytes, same, method⟩
      have asked : Adds (addTracker (some name) (some sig)) ci next entries
          (ci.cpoolCountPlusOne + 3) :=
        ⟨Passes.get (fun _ _ => rfl) adds.passes, adds.grows⟩
      have noted : Adds (noteTracker (some name) (some sig) change) ci _ (entries ++ []) () :=
        Adds.bind asked (adds_setIndex next (change (ci.cpoolCountPlusOne + 3)))
      rw [List.append_nil] at noted
      have count := adds.grows.count
      have size : next.cpoolCountPlusOne ≤ next.cpool.length :=
        PoolRoom.size_le
          (adds.grows.room (show PoolRoom ci (entries.length + 0) from length ▸ room))
      refine ⟨_, entries, ci.cpoolCountPlusOne + 3, noted, length.le, bytes.le, congrArg _ same,
        (grows_withIndices next _).methodAt size method, Or.inr (Nat.le_add_right _ _), ?_⟩
      change ci.cpoolCountPlusOne + 3 < next.cpoolCountPlusOne
      omega

theorem Grows.trackerAt {entries : List PoolEntry} (grows : Grows ci next entries)
    (size : ci.cpoolCountPlusOne ≤ ci.cpool.length) {index : ℕ} {className : List UInt8}
    {name sig : Option (List UInt8)} (named : TrackerAt ci index className name sig) :
    TrackerAt next index className name sig := by
  cases name with
  | none => exact named
  | some name =>
      cases sig with
      | none => exact named
      | some sig => exact grows.methodAt size named

/-- The entry of a class number. -/
def numberEntry (number : ℕ) : PoolEntry :=
  .twoIndices JvmConstant.integer (number / 2 ^ 16 % 2 ^ 16) (number % 2 ^ 16)

/-- Where the number of the class is pushed, it can be pushed. -/
def NumberAt (ci : CrwClassImage) : Prop :=
  ci.interface.callName ≠ none ∨ ci.interface.returnName ≠ none →
    ci.number = ci.number % 2 ^ 15 ∨ EntryAt ci ci.indices.classNumber (numberEntry ci.number)

theorem adds_classNumber (room : PoolRoom ci 1) :
    ∃ next entries, Adds addClassNumber ci next entries () ∧ entries.length ≤ 1 ∧
      (encodePool entries).length ≤ 5 ∧ NumberAt next := by
  by_cases told : ((ci.interface.callName.isSome || ci.interface.returnName.isSome) &&
      ci.number != ci.number % 2 ^ 15) = true
  · have added := Adds.twoIndices room
      (show JvmConstant.integer ∈ JvmConstant.ofTwoIndices by decide)
      (ci.number / 2 ^ 16 % 2 ^ 16) (ci.number % 2 ^ 16)
    have noted : Adds (do
        let index ← addNewCpoolEntry JvmConstant.integer (ci.number / 2 ^ 16 % 2 ^ 16)
          (ci.number % 2 ^ 16) []
        setIndex fun indices => { indices with classNumber := index }) ci _ _ () :=
      Adds.bind added (adds_setIndex _ _)
    have stands := entryAt_withEntry room (numberEntry ci.number)
    refine ⟨_, _, ⟨Passes.get (fun _ _ => ?_) noted.passes, noted.grows⟩, Nat.le_refl _,
      Nat.le_refl _, fun _ => Or.inr ⟨stands.positive, stands.inside, stands.found⟩⟩
    exact if_pos told
  · refine ⟨ci, [], ⟨Passes.get (fun _ _ => ?_) (Passes.pure ci ()), Grows.refl ci⟩,
      Nat.zero_le _, Nat.zero_le _, fun some => Or.inl ?_⟩
    · exact if_neg told
    by_contra large
    refine told ?_
    simp only [Bool.and_eq_true, Bool.or_eq_true, Option.isSome_iff_ne_none, bne_iff_ne, ne_eq]
    exact ⟨some, large⟩

theorem adds_noteTrackerClass (room : PoolRoom ci 2) {className : List UInt8}
    (short : className.length < 2 ^ 16) :
    ∃ next entries index, Adds (noteTrackerClass (some className)) ci next entries () ∧
      entries.length = 2 ∧ (encodePool entries).length = className.length + 6 ∧
      next.indices = { ci.indices with trackerClass := index } ∧
      ClassAt next index className := by
  rcases adds_trackerClass room short with ⟨next, entries, adds, length, bytes, same, isClass⟩
  have noted : Adds (noteTrackerClass (some className)) ci _ (entries ++ []) () :=
    Adds.bind adds (adds_setIndex next
      fun indices => { indices with trackerClass := ci.cpoolCountPlusOne + 1 })
  rw [List.append_nil] at noted
  have size : next.cpoolCountPlusOne ≤ next.cpool.length :=
    PoolRoom.size_le (adds.grows.room (show PoolRoom ci (entries.length + 0) from length ▸ room))
  refine ⟨_, entries, ci.cpoolCountPlusOne + 1, noted, length, bytes, ?_,
    (grows_withIndices next _).classAt size isClass⟩
  rw [← same]
  rfl

/-- The indices that the injected code uses. -/
structure TrackersNamed (ci : CrwClassImage) (className : List UInt8) : Prop where
  object : TrackerAt ci ci.indices.objectInitTracker className ci.interface.objInitName
    ci.interface.objInitSig
  newarray : TrackerAt ci ci.indices.newarrayTracker className ci.interface.newarrayName
    ci.interface.newarraySig
  call : TrackerAt ci ci.indices.callTracker className ci.interface.callName ci.interface.callSig
  leave : TrackerAt ci ci.indices.returnTracker className ci.interface.returnName
    ci.interface.returnSig
  number : NumberAt ci
  differ : TrackersDiffer ci

/-- Where a method is told by its index, it has a name. -/
theorem TrackerAt.named {index : ℕ} {className : List UInt8} {name sig : Option (List UInt8)}
    (tracker : TrackerAt ci index className name sig) (told : index ≠ 0) : name ≠ none := by
  rintro rfl
  exact told tracker

/-- The number of the class can be pushed wherever it is needed. -/
theorem TrackersNamed.numbered {className : List UInt8} (named : TrackersNamed ci className) :
    Numbered ci := by
  intro told
  have called : ci.interface.callName ≠ none ∨ ci.interface.returnName ≠ none :=
    told.imp named.call.named named.leave.named
  exact (named.number called).imp_right fun stands => stands.positive.ne'

/-- The interface can be told in the pool. -/
structure CrwTrackerInterface.Tells (names : CrwTrackerInterface) (className : List UInt8) :
    Prop where
  named : names.tclassName = some className
  short : className.length < 2 ^ 16
  object : Tellable names.objInitName names.objInitSig
  newarray : Tellable names.newarrayName names.newarraySig
  call : Tellable names.callName names.callSig
  leave : Tellable names.returnName names.returnSig

theorem Grows.numberAt {entries : List PoolEntry} (grows : Grows ci next entries)
    (size : ci.cpoolCountPlusOne ≤ ci.cpool.length)
    (sameNumber : next.indices.classNumber = ci.indices.classNumber) (number : NumberAt ci) :
    NumberAt next := by
  have sameInterface : next.interface = ci.interface := by rw [grows.same]
  have same : next.number = ci.number := by rw [grows.same]
  intro told
  rw [sameInterface] at told
  rw [same, sameNumber]
  exact (number told).imp_right fun stands => grows.entryAt size stands

/-- How many bytes the entries for the tracker take at most. -/
def CrwTrackerInterface.poolBytes (names : CrwTrackerInterface) (className : List UInt8) : ℕ :=
  5 + (className.length + 6) + trackerBytes names.objInitName names.objInitSig +
    trackerBytes names.newarrayName names.newarraySig +
    trackerBytes names.callName names.callSig + trackerBytes names.returnName names.returnSig

theorem adds_trackers (room : PoolRoom ci 19) {className : List UInt8}
    (tells : ci.interface.Tells className) :
    ∃ next entries, Adds addTrackers ci next entries () ∧ entries.length ≤ 19 ∧
      (encodePool entries).length ≤ ci.interface.poolBytes className ∧
      TrackersNamed next className := by
  rcases adds_classNumber (room.mono (by decide)) with
    ⟨numbered, entries0, adds0, few0, bytes0, number⟩
  have room0 : PoolRoom numbered 18 := adds0.grows.room (room.mono (by omega))
  have interface0 : numbered.interface = ci.interface := by rw [adds0.grows.same]
  rcases adds_noteTrackerClass (room0.mono (by decide)) tells.short with
    ⟨classed, entries1, index1, adds1, few1, bytes1, same1, isClass⟩
  have room1 : PoolRoom classed 16 := adds1.grows.room (room0.mono (by omega))
  rcases adds_noteTracker (room1.mono (by decide)) (by rwa [same1]) tells.object
    (fun index indices => { indices with objectInitTracker := index }) with
    ⟨objected, entries2, index2, adds2, few2, bytes2, same2, object, fresh2, bound2⟩
  have room2 : PoolRoom objected 12 := adds2.grows.room (room1.mono (by omega))
  have isClass2 := adds2.grows.classAt room1.size_le isClass
  rcases adds_noteTracker (room2.mono (by decide)) (by rwa [same2, same1]) tells.newarray
    (fun index indices => { indices with newarrayTracker := index }) with
    ⟨arrayed, entries3, index3, adds3, few3, bytes3, same3, newarray, fresh3, bound3⟩
  have room3 : PoolRoom arrayed 8 := adds3.grows.room (room2.mono (by omega))
  have isClass3 := adds3.grows.classAt room2.size_le isClass2
  rcases adds_noteTracker (room3.mono (by decide)) (by rwa [same3, same2, same1]) tells.call
    (fun index indices => { indices with callTracker := index }) with
    ⟨called, entries4, index4, adds4, few4, bytes4, same4, call, fresh4, bound4⟩
  have room4 : PoolRoom called 4 := adds4.grows.room (room3.mono (by omega))
  have isClass4 := adds4.grows.classAt room3.size_le isClass3
  rcases adds_noteTracker room4 (by rwa [same4, same3, same2, same1]) tells.leave
    (fun index indices => { indices with returnTracker := index }) with
    ⟨last, entries5, index5, adds5, few5, bytes5, same5, leave, fresh5, bound5⟩
  have rest : Adds (do
      noteTrackerClass ci.interface.tclassName
      noteTracker ci.interface.objInitName ci.interface.objInitSig fun index indices =>
        { indices with objectInitTracker := index }
      noteTracker ci.interface.newarrayName ci.interface.newarraySig fun index indices =>
        { indices with newarrayTracker := index }
      noteTracker ci.interface.callName ci.interface.callSig fun index indices =>
        { indices with callTracker := index }
      noteTracker ci.interface.returnName ci.interface.returnSig fun index indices =>
        { indices with returnTracker := index }) numbered last
          (entries1 ++ (entries2 ++ (entries3 ++ (entries4 ++ entries5)))) () := by
    rw [tells.named]
    exact Adds.bind adds1 (Adds.bind adds2 (Adds.bind adds3 (Adds.bind adds4 adds5)))
  have whole : Adds addTrackers ci last
      (entries0 ++ (entries1 ++ (entries2 ++ (entries3 ++ (entries4 ++ entries5))))) () :=
    Adds.bind adds0 ⟨Passes.get (fun _ _ => by rw [← interface0]; rfl) rest.passes, rest.grows⟩
  have interfaceLast : last.interface = ci.interface := by rw [whole.grows.same]
  have indices : last.indices = ⟨index1, index2, index3, index4, index5,
      numbered.indices.classNumber⟩ := by
    rw [same5, same4, same3, same2, same1]
  have grows4 := adds5.grows
  have grows3 := adds4.grows.trans grows4
  have grows2 := adds3.grows.trans grows3
  refine ⟨last, _, whole, ?_, ?_, ?_⟩
  · simp only [List.length_append]
    omega
  · simp only [encodePool, List.flatMap_append, List.length_append,
      CrwTrackerInterface.poolBytes] at bytes0 bytes1 bytes2 bytes3 bytes4 bytes5 ⊢
    omega
  · have count2 := adds3.grows.count
    have count3 := adds4.grows.count
    have count4 := adds5.grows.count
    constructor
    · rw [indices, interfaceLast]
      exact grows2.trackerAt room2.size_le object
    · rw [indices, interfaceLast]
      exact grows3.trackerAt room3.size_le newarray
    · rw [indices, interfaceLast]
      exact grows4.trackerAt room4.size_le call
    · rw [indices, interfaceLast]
      exact leave
    · exact rest.grows.numberAt room0.size_le (by rw [indices]) number
    · constructor <;> rw [indices] <;> simp only <;> omega

end Trackers

section Setup

variable {ci next : CrwClassImage}

/-- The number in front of what has been written since is replaced, where there is an output. -/
theorem run_randomWriteAt (ci : CrwClassImage) (written later : List UInt8) (old value : ℤ)
    (first count : ℕ) :
    (randomWriteU2 ((ci.emit written).advance first).outputPosition value).run
        ((ci.emit (written ++ (bytes2 old ++ later))).advance count) =
      some ((), (ci.emit (written ++ (bytes2 value ++ later))).advance count) := by
  cases output : ci.output with
  | none =>
      refine congrArg some (congrArg (Prod.mk ()) ?_)
      simp only [emit, advance, output, Option.map_none]
  | some before =>
      rw [outputPosition_emit _ _ (by simp [output])]
      exact run_randomWriteU2 ci written later old value count

theorem length_le_keptPool (pool : List PoolEntry) : pool.length ≤ (keptPool pool).length := by
  induction pool with
  | nil => exact Nat.zero_le _
  | cons entry rest step =>
      have positive := entry.slots_pos
      simp only [keptPool, List.flatMap_cons, List.length_append, entry.length_kept,
        List.length_cons] at step ⊢
      omega

/-- The image with a pool that has been copied, and with free entries behind it. -/
def CrwClassImage.withCopied (ci : CrwClassImage) (pool : List PoolEntry) : CrwClassImage :=
  { ci with
    cpoolMaxElements := (keptPool pool).length + 1 + maximumNewCpoolEntries
    cpool := [emptyCpoolEntry] ++ keptPool pool ++
      List.replicate maximumNewCpoolEntries emptyCpoolEntry
    cpoolCountPlusOne := (keptPool pool).length + 1 }

theorem poolRoom_withCopied {pool : List PoolEntry} (few : (keptPool pool).length + 65 < 2 ^ 16) :
    PoolRoom (ci.withCopied pool) 19 := by
  refine ⟨Nat.succ_pos _, Nat.add_lt_add_left (by decide) _, ?_, few⟩
  simp only [withCopied, List.length_append, List.length_singleton, List.length_replicate]
  omega

/-- The entries of the image that has been copied, and those behind them. -/
theorem take_of_adds {α : Type} {computation : Crw α} {value : α} {pool added : List PoolEntry}
    (adds : Adds computation (ci.withCopied pool) next added value) :
    next.cpool.take next.cpoolCountPlusOne =
      emptyCpoolEntry :: keptPool pool ++ added.map PoolEntry.noted := by
  have used : ([emptyCpoolEntry] ++ keptPool pool).length = (keptPool pool).length + 1 := by
    rw [List.length_append]
    exact Nat.add_comm _ _
  have front : (ci.withCopied pool).cpool.take (ci.withCopied pool).cpoolCountPlusOne =
      [emptyCpoolEntry] ++ keptPool pool := List.take_left' used
  rw [adds.grows.entries, front]
  rfl

/-- The pool is copied, entries are added, and the number of entries is written in front. -/
theorem passes_cpoolSetup_of_adds {pool added : List PoolEntry}
    (valid : ∀ entry ∈ pool, entry.Valid) (nonempty : pool ≠ [])
    (few : (keptPool pool).length + 65 < 2 ^ 16)
    (adds : Adds addTrackers (ci.withCopied pool) next added ()) :
    Passes cpoolSetup ci next (bytes2 ((keptPool pool).length + 1 : ℕ) ++ encodePool pool)
      (bytes2 ((keptPool pool).length + 1 + added.length : ℕ) ++ encodePool (pool ++ added))
      () := by
  let size := (keptPool pool).length + 1
  have several : 1 < size := by
    have positive := List.length_pos_iff.mpr nonempty
    have bound := length_le_keptPool pool
    omega
  let started : CrwClassImage := { ci with
    cpoolMaxElements := size + maximumNewCpoolEntries
    cpool := List.replicate (size + maximumNewCpoolEntries) emptyCpoolEntry
    cpoolCountPlusOne := size }
  have modulus : (size + maximumNewCpoolEntries) % 2 ^ 16 = size + maximumNewCpoolEntries :=
    Nat.mod_eq_of_lt few
  have starts : Passes (modify fun ci => { ci with
      cpoolMaxElements := (size + maximumNewCpoolEntries) % 2 ^ 16
      cpool := List.replicate ((size + maximumNewCpoolEntries) % 2 ^ 16) emptyCpoolEntry
      cpoolCountPlusOne := size }) ci started [] [] () := by
    rw [modulus]
    exact Passes.change ⟨rfl, rfl, rfl, rfl⟩ fun _ _ => rfl
  have copies : Passes (copyCpool size (size + 1) 1) started (ci.withCopied pool) (encodePool pool)
      (encodePool pool) () := by
    refine @passes_copyCpool started pool valid 1 maximumNewCpoolEntries [emptyCpoolEntry]
      Nat.one_pos rfl ?_ (Nat.add_comm _ _) (show size < 2 ^ 16 by omega) (size + 1) ?_
    · change List.replicate (size + maximumNewCpoolEntries) emptyCpoolEntry = _
      rw [show size + maximumNewCpoolEntries =
        (keptPool pool).length + maximumNewCpoolEntries + 1 by omega, List.replicate_succ]
      rfl
    · have bound := length_le_keptPool pool
      omega
  have largest : decide (0 < (size + maximumNewCpoolEntries) % 2 ^ 16) = true := by
    rw [modulus]
    exact decide_eq_true (Nat.succ_pos _)
  let copying : Crw Unit := do
      let countPlusOne ← copyU2
      crwAssert (1 < countPlusOne)
      crwAssert (0 < (countPlusOne + maximumNewCpoolEntries) % 2 ^ 16)
      modify fun ci => { ci with
        cpoolMaxElements := (countPlusOne + maximumNewCpoolEntries) % 2 ^ 16
        cpool :=
          List.replicate ((countPlusOne + maximumNewCpoolEntries) % 2 ^ 16) emptyCpoolEntry
        cpoolCountPlusOne := countPlusOne }
      copyCpool countPlusOne (countPlusOne + 1) 1
      addTrackers
  have middle : Passes copying ci next
      (bytes2 size ++ ([] ++ ([] ++ ([] ++ (encodePool pool ++ [])))))
      (bytes2 size ++ ([] ++ ([] ++ ([] ++ (encodePool pool ++ encodePool added))))) () :=
    Passes.bind (Passes.copyU2 ci (show size < 2 ^ 16 by omega))
      (Passes.bind (Passes.crwAssert ci (decide_eq_true several))
        (Passes.bind (Passes.crwAssert ci largest)
          (Passes.bind starts (Passes.bind copies adds.passes))))
  simp only [List.nil_append, List.append_nil] at middle
  have total : next.cpoolCountPlusOne = size + added.length := adds.grows.count
  have whole : bytes2 size ++ (encodePool pool ++ encodePool added) =
      bytes2 size ++ encodePool (pool ++ added) := by
    simp only [encodePool, List.flatMap_append]
  rw [whole] at middle
  refine ⟨middle.streams, fun written count ahead hasRoom => ?_⟩
  have ran := middle.run written count ahead hasRoom
  have patched := run_randomWriteAt next written (encodePool (pool ++ added)) size
    next.cpoolCountPlusOne count (count + (bytes2 size ++ encodePool pool).length)
  have samePosition : ((next.emit written).advance count).outputPosition =
      ((ci.emit written).advance count).outputPosition := by
    simp only [outputPosition, emit, advance, middle.streams.output]
  rw [samePosition] at patched
  rw [← total]
  have split : cpoolSetup = (do
      let now ← get
      copying
      let last ← get
      randomWriteU2 now.outputPosition last.cpoolCountPlusOne) := by
    simp only [cpoolSetup, copying, bind_assoc]
  rw [split, StateT.run_bind, StateT.run_get, Option.pure_def, Option.bind_eq_bind,
    Option.bind_some, StateT.run_bind, ran, Option.bind_eq_bind, Option.bind_some,
    StateT.run_bind, StateT.run_get, Option.pure_def, Option.bind_eq_bind, Option.bind_some]
  exact patched

/-- The pool is copied with entries behind it, and the new number of entries is written in front.
The old indices name what they named, and the new ones the methods of the tracker class. -/
theorem passes_cpoolSetup {pool : List PoolEntry} (valid : ∀ entry ∈ pool, entry.Valid)
    (nonempty : pool ≠ []) (few : (keptPool pool).length + 65 < 2 ^ 16) {className : List UInt8}
    (tells : ci.interface.Tells className) :
    ∃ next added, Passes cpoolSetup ci next
        (bytes2 ((keptPool pool).length + 1 : ℕ) ++ encodePool pool)
        (bytes2 ((keptPool pool).length + 1 + added.length : ℕ) ++ encodePool (pool ++ added)) () ∧
      next.cpoolCountPlusOne = (keptPool pool).length + 1 + added.length ∧ added.length ≤ 19 ∧
      (encodePool added).length ≤ ci.interface.poolBytes className ∧
      next.cpool.take next.cpoolCountPlusOne =
        emptyCpoolEntry :: keptPool pool ++ added.map PoolEntry.noted ∧
      TrackersNamed next className ∧ Numbered next := by
  rcases adds_trackers (poolRoom_withCopied few) tells with
    ⟨next, added, adds, few19, bytes, named⟩
  exact ⟨next, added, passes_cpoolSetup_of_adds valid nonempty few adds, adds.grows.count, few19,
    bytes, take_of_adds adds, named, named.numbered⟩

/-- The names that the agent passes. -/
def agentInterface : CrwTrackerInterface :=
  ⟨some (ascii "ObjectAllocationTracker"), some (ascii "LObjectAllocationTracker;"), none, none,
    none, none, some (ascii "trackObject"), some (ascii "(Ljava/lang/Object;)V"), none, none⟩

theorem tells_agentInterface : agentInterface.Tells (ascii "ObjectAllocationTracker") where
  named := rfl
  short := by decide
  object := ⟨by decide, by decide, by decide⟩
  newarray := ⟨by decide, by decide, by decide⟩
  call := ⟨by decide, by decide, by decide⟩
  leave := ⟨by decide, by decide, by decide⟩

/-- A pool of one entry is copied, and the entries for `trackObject` are put behind it. -/
theorem cpoolSetup_agent :
    let pool : List PoolEntry := [.utf8 [65]]
    let image := initialImage 0 none (bytes2 2 ++ encodePool pool) 0 agentInterface
    ∃ (next : CrwClassImage) (added : List PoolEntry),
      cpoolSetup.run image =
        some ((), (next.emit (bytes2 (2 + added.length : ℕ) ++ encodePool (pool ++ added))).advance
          6) ∧
      next.cpool.take next.cpoolCountPlusOne =
        emptyCpoolEntry :: (PoolEntry.utf8 [65]).noted :: added.map PoolEntry.noted ∧
      TrackersNamed next (ascii "ObjectAllocationTracker") ∧ Numbered next := by
  intro pool image
  have valid : ∀ entry ∈ pool, entry.Valid := by
    simp only [pool, List.mem_singleton, forall_eq]
    exact (by decide : [(65 : UInt8)].length < 2 ^ 16)
  rcases @passes_cpoolSetup image pool valid (by decide) (by decide) _ tells_agentInterface with
    ⟨next, added, passes, _, _, bytes, entries, named⟩
  have few : (encodePool added).length ≤ 200 := Nat.le_trans bytes (by decide)
  have ran := passes.run [] 0 rfl (by
    intro before isOutput
    have isEmpty : [] = before := Option.some.inj isOutput
    subst isEmpty
    simp only [encodePool, List.flatMap_append, List.length_append] at few ⊢
    have copied : (pool.flatMap PoolEntry.encode).length = 4 := by decide
    have number : ∀ value, (bytes2 value).length = 2 := fun _ => rfl
    have outputLen : image.outputLen = 524 := rfl
    simp only [List.length_nil, number]
    omega)
  exact ⟨next, added, ran, entries, named⟩

end Setup

end HeapScan.ClassFile
