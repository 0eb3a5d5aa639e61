import HeapScan.ClassFile.Walks

/-!
# What is injected

A tracker method is called with the object under construction, the new array, or the numbers
of the class and of the method.  What is injected at an opcode depends on the opcode and on the
method as a whole, not on the position, and raises the stack limit by as much as it pushes.
-/

namespace HeapScan.ClassFile

open BigEndian CrwClassImage

/-- The code that calls a tracker method. -/
def trackerCall (ci : CrwClassImage) (mi : MethodImage) (methodIndex : ℕ) : List UInt8 :=
  let call := [byte Opcode.invokestatic, byte (methodIndex / 2 ^ 8), byte methodIndex]
  if methodIndex = 0 then []
  else if methodIndex = ci.indices.newarrayTracker then byte Opcode.dup :: call
  else if methodIndex = ci.indices.objectInitTracker then byte Opcode.aload_0 :: call
  else
    (if ci.number = ci.number % 2 ^ 15 then pushShortConstantBytecodes ci.number
      else pushPoolConstantBytecodes ci.indices.classNumber) ++
        pushShortConstantBytecodes mi.number ++ call

/-- The stack that the method needs with the call. -/
def trackerStack (ci : CrwClassImage) (mi : MethodImage) (methodIndex : ℕ) : ℕ :=
  if methodIndex = 0 then 0
  else if methodIndex = ci.indices.newarrayTracker then mi.maxStack + 1
  else if methodIndex = ci.indices.objectInitTracker then mi.maxStack + 1
  else mi.maxStack + 2

/-- The class number can be pushed where methods are told about. -/
def Numbered (ci : CrwClassImage) : Prop :=
  ci.indices.callTracker ≠ 0 ∨ ci.indices.returnTracker ≠ 0 →
    ci.number = ci.number % 2 ^ 15 ∨ ci.indices.classNumber ≠ 0

/-- The arguments of a tracker method can be pushed. -/
def Pushable (ci : CrwClassImage) (methodIndex : ℕ) : Prop :=
  methodIndex ≠ 0 → methodIndex ≠ ci.indices.newarrayTracker →
    methodIndex ≠ ci.indices.objectInitTracker →
      ci.number = ci.number % 2 ^ 15 ∨ ci.indices.classNumber ≠ 0

theorem length_pushShort_le (number : ℕ) : (pushShortConstantBytecodes number).length ≤ 3 := by
  rw [pushShortConstantBytecodes]
  split
  · simp
  · split <;> simp

theorem length_pushPool_le (index : ℕ) : (pushPoolConstantBytecodes index).length ≤ 3 := by
  rw [pushPoolConstantBytecodes]
  split <;> simp

theorem length_trackerCall_le (ci : CrwClassImage) (mi : MethodImage) (methodIndex : ℕ) :
    (trackerCall ci mi methodIndex).length ≤ 9 := by
  have shortClass := length_pushShort_le ci.number
  have pool := length_pushPool_le ci.indices.classNumber
  have shortMethod := length_pushShort_le mi.number
  simp only [trackerCall]
  split
  · simp
  split
  · simp
  split
  · simp
  split <;> simp only [List.length_append, List.length_cons, List.length_nil] <;> omega

theorem run_injectionTemplate {ci : CrwClassImage} (mi : MethodImage) {methodIndex : ℕ}
    (pushable : Pushable ci methodIndex) {maxNbytes : ℤ} (room : 9 < maxNbytes) :
    ((injectionTemplate maxNbytes methodIndex).run mi).run ci =
      some ((trackerCall ci mi methodIndex,
        mi.withStack (trackerStack ci mi methodIndex)), ci) := by
  have bound := length_trackerCall_le ci mi methodIndex
  by_cases none : methodIndex = 0
  · simp [injectionTemplate, trackerCall, trackerStack, none, MethodImage.withStack]
  by_cases allocation : methodIndex = ci.indices.newarrayTracker
  · subst allocation
    have fits : (4 : ℤ) < maxNbytes := by omega
    simp [injectionTemplate, trackerCall, trackerStack, none, methodAssert, fits]
  by_cases object : methodIndex = ci.indices.objectInitTracker
  · subst object
    have fits : (4 : ℤ) < maxNbytes := by omega
    simp [injectionTemplate, trackerCall, trackerStack, none, allocation, methodAssert, fits]
  have pushed : (pushCnumBytecodes.run mi).run ci =
      some ((if ci.number = ci.number % 2 ^ 15 then pushShortConstantBytecodes ci.number
        else pushPoolConstantBytecodes ci.indices.classNumber, mi), ci) := by
    simp only [pushCnumBytecodes, StateT.run_bind, run_classImage, Option.bind_eq_bind,
      Option.bind_some]
    split
    · rfl
    · rename_i large
      simp [methodAssert, (pushable none allocation object).resolve_left large]
  simp only [trackerCall, if_neg none, if_neg allocation, if_neg object] at bound
  have fits := Int.lt_of_le_of_lt (Int.ofNat_le.mpr bound) room
  rw [List.append_assoc] at fits
  simp only [injectionTemplate, trackerCall, trackerStack, none, allocation, object, if_false,
    if_true, StateT.run_bind, run_classImage, StateT.run_get, StateT.run_pure, Option.pure_def,
    Option.bind_eq_bind, Option.bind_some, pushed, List.nil_append, pure_bind, List.append_assoc,
    methodAssert, fits, decide_true, Bool.false_eq_true]
  rfl

def entryCode (ci : CrwClassImage) (mi : MethodImage) : List UInt8 :=
  (if mi.objectInitMethod then trackerCall ci mi ci.indices.objectInitTracker else []) ++
    if mi.skipCallReturnSites then [] else trackerCall ci mi ci.indices.callTracker

def entryStack (ci : CrwClassImage) (mi : MethodImage) : ℕ :=
  max (if mi.objectInitMethod then trackerStack ci mi ci.indices.objectInitTracker else 0)
    (if mi.skipCallReturnSites then 0 else trackerStack ci mi ci.indices.callTracker)

def beforeCode (ci : CrwClassImage) (mi : MethodImage) (opcode : ℕ) : List UInt8 :=
  if opcode ∈ Opcode.returns ∧ mi.skipCallReturnSites = false then
    trackerCall ci mi ci.indices.returnTracker
  else []

def afterCode (ci : CrwClassImage) (mi : MethodImage) (opcode : ℕ) : List UInt8 :=
  if opcode ∈ Opcode.arrayAllocations then trackerCall ci mi ci.indices.newarrayTracker else []

def beforeStack (ci : CrwClassImage) (mi : MethodImage) (opcode : ℕ) : ℕ :=
  if opcode ∈ Opcode.returns ∧ mi.skipCallReturnSites = false then
    trackerStack ci mi ci.indices.returnTracker
  else 0

def afterStack (ci : CrwClassImage) (mi : MethodImage) (opcode : ℕ) : ℕ :=
  if opcode ∈ Opcode.arrayAllocations then trackerStack ci mi ci.indices.newarrayTracker else 0

@[simp]
theorem MethodImage.withStack_zero (mi : MethodImage) : mi.withStack 0 = mi := by
  simp [withStack]

theorem MethodImage.withStack_withStack (mi : MethodImage) (stack more : ℕ) :
    (mi.withStack stack).withStack more = mi.withStack (max stack more) := by
  simp only [withStack, Nat.max_assoc]

@[simp]
theorem trackerCall_withStack (ci : CrwClassImage) (mi : MethodImage) (stack methodIndex : ℕ) :
    trackerCall ci (mi.withStack stack) methodIndex = trackerCall ci mi methodIndex := rfl

@[simp]
theorem trackerStack_withStack (ci : CrwClassImage) (mi : MethodImage) (stack methodIndex : ℕ) :
    trackerStack ci (mi.withStack stack) methodIndex = trackerStack ci mi methodIndex := rfl

section Injecting

variable {ci : CrwClassImage} (mi : MethodImage) (numbered : Numbered ci)

include numbered

theorem run_entryInjectionCode :
    ((entryInjectionCode (largestInjection + 1)).run mi).run ci =
      some ((entryCode ci mi, mi.withStack (entryStack ci mi)), ci) := by
  have largest : (largestInjection : ℤ) = 36 := by decide
  have pushable : Pushable ci ci.indices.callTracker := fun isCall _ _ => numbered (Or.inl isCall)
  have object := @run_injectionTemplate ci mi ci.indices.objectInitTracker
    (fun _ _ notObject => absurd rfl notObject) (largestInjection + 1) (by decide)
  have bound := length_trackerCall_le ci mi ci.indices.objectInitTracker
  have call := run_injectionTemplate mi pushable (show (9 : ℤ) < largestInjection + 1 by decide)
  have both := run_injectionTemplate
    (mi.withStack (trackerStack ci mi ci.indices.objectInitTracker)) pushable
    (show (9 : ℤ) < largestInjection + 1 -
      (trackerCall ci mi ci.indices.objectInitTracker).length by omega)
  cases objectInit : mi.objectInitMethod <;> cases skipped : mi.skipCallReturnSites <;>
    simp [entryInjectionCode, entryCode, entryStack, objectInit, skipped, object, call, both,
      MethodImage.withStack_withStack]

theorem run_beforeInjectionCode (opcode : ℕ) :
    ((beforeInjectionCode opcode (largestInjection + 1)).run mi).run ci =
      some ((beforeCode ci mi opcode, mi.withStack (beforeStack ci mi opcode)), ci) := by
  have template := @run_injectionTemplate ci mi ci.indices.returnTracker
    (fun leaves _ _ => numbered (Or.inr leaves)) (largestInjection + 1) (by decide)
  by_cases returns : opcode ∈ Opcode.returns ∧ mi.skipCallReturnSites = false
  · simp [beforeInjectionCode, beforeCode, beforeStack, returns, template]
  · simp [beforeInjectionCode, beforeCode, beforeStack, returns]

omit numbered in
theorem run_afterInjectionCode (opcode : ℕ) :
    ((afterInjectionCode opcode (largestInjection + 1)).run mi).run ci =
      some ((afterCode ci mi opcode, mi.withStack (afterStack ci mi opcode)), ci) := by
  have template := @run_injectionTemplate ci mi ci.indices.newarrayTracker
    (fun _ notArray => absurd rfl notArray) (largestInjection + 1) (by decide)
  by_cases allocates : opcode ∈ Opcode.arrayAllocations
  · simp [afterInjectionCode, afterCode, afterStack, allocates, template]
  · simp [afterInjectionCode, afterCode, afterStack, allocates]

end Injecting

section Storing

variable {ci : CrwClassImage} {mi : MethodImage} {place : ℕ} {code : List UInt8}

def MethodImage.withInjection (mi : MethodImage) (place : ℕ) (code : List UInt8) : MethodImage :=
  { mi with injections := Function.update mi.injections place (mi.injections place ++ code) }

def CrwClassImage.counted (ci : CrwClassImage) (count : ℕ) : CrwClassImage :=
  { ci with injectionCount := ci.injectionCount + count }

/-- How many injections a piece of code is counted as. -/
def injectionsOf (code : List UInt8) : ℕ := if code = [] then 0 else 1

theorem run_injectAny (inside : place ≤ mi.codeLen) (short : code.length ≤ 18)
    (room : (mi.injections place).length + code.length ≤ 36) :
    ((whenAny code (injectBytecodes place code)).run mi).run ci =
      some (((), mi.withInjection place code), ci.counted (injectionsOf code)) := by
  by_cases empty : code = []
  · subst empty
    simp [whenAny, MethodImage.withInjection, counted, injectionsOf]
  · have positive : 0 < code.length := List.length_pos_iff.mpr empty
    have fits : code.length ≤ largestInjection / 2 := short
    have wholeFits : (mi.injections place).length + code.length ≤ largestInjection := room
    simp [whenAny, injectBytecodes, methodAssert, positive, inside, fits, wholeFits,
      injectionsOf, empty, MethodImage.withInjection, counted]

theorem run_adjustAny (mi : MethodImage) (ci : CrwClassImage) (place : ℕ) (code : List UInt8) :
    ((whenAny code (adjustMap place code.length)).run mi).run ci =
      some (((), mi.adjustMap place code.length), ci) := by
  by_cases empty : code = []
  · subst empty
    simp [whenAny, MethodImage.adjustMap]
  · simp [whenAny, List.length_pos_iff.mpr empty]

/-- Code that a jump to the place does not run. -/
theorem run_injectAndAdjust (inside : place ≤ mi.codeLen) (short : code.length ≤ 18)
    (room : (mi.injections place).length + code.length ≤ 36) :
    ((whenAny code do
        injectBytecodes place code
        adjustMap place code.length).run mi).run ci =
      some (((), (mi.withInjection place code).adjustMap place code.length),
        ci.counted (injectionsOf code)) := by
  have injected := @run_injectAny ci mi place code inside short room
  by_cases empty : code = []
  · subst empty
    simp [whenAny, MethodImage.withInjection, MethodImage.adjustMap, counted, injectionsOf]
  · have positive : 0 < code.length := List.length_pos_iff.mpr empty
    rw [whenAny, if_pos positive] at injected ⊢
    rw [StateT.run_bind, StateT.run_bind, injected]
    rfl

@[simp]
theorem MethodImage.withInjection_nil (mi : MethodImage) (place : ℕ) :
    mi.withInjection place [] = mi := by
  simp [withInjection]

@[simp]
theorem MethodImage.adjustMap_zero (mi : MethodImage) (place : ℕ) : mi.adjustMap place 0 = mi := by
  simp [adjustMap]

@[simp]
theorem CrwClassImage.counted_counted (ci : CrwClassImage) (count more : ℕ) :
    (ci.counted count).counted more = ci.counted (count + more) := by
  simp only [counted, Nat.add_assoc]

@[simp]
theorem CrwClassImage.counted_advance (ci : CrwClassImage) (count size : ℕ) :
    (ci.advance size).counted count = (ci.counted count).advance size := rfl

end Storing

end HeapScan.ClassFile
