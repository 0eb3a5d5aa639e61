import HeapScan.ClassFile.Execution
import HeapScan.ClassFile.Passing

/-!
# Exceptions, lines and variables

The exception table, the line table and the tables of the local variables are rows of entries
of one size.  Each entry is written with its positions moved, and nothing else is changed.
-/

namespace HeapScan.ClassFile

open BigEndian

/-- Where the positions at which instructions begin have moved, in old and new code that are so
short that an offset takes two bytes. -/
structure Relocates (mi : MethodImage) (boundary : ℕ → Prop) (move : ℕ → ℕ) : Prop where
  short : mi.codeLen ≤ 65535
  newShort : mi.newCodeLen ≤ 65535
  inside : ∀ {position}, boundary position → position ≤ mi.codeLen
  newInside : ∀ {position}, boundary position → move position ≤ mi.newCodeLen
  map : ∀ {position}, boundary position → mi.map position = move position
  increasing : ∀ {position later}, boundary position → boundary later → position < later →
    move position < move later

/-- Where a line or the scope of a variable begins that begins at a position. -/
def startMove (move : ℕ → ℕ) (position : ℕ) : ℕ := if position = 0 then 0 else move position

def Handler.encode (handler : Handler) : List UInt8 :=
  bytes2 handler.startPc ++ (bytes2 handler.endPc ++
    (bytes2 handler.handlerPc ++ bytes2 handler.catchType))

structure Handler.Placed (boundary : ℕ → Prop) (handler : Handler) : Prop where
  startPc : boundary handler.startPc
  endPc : boundary handler.endPc
  handlerPc : boundary handler.handlerPc
  catchType : handler.catchType < 2 ^ 16

/-- An entry of a `LineNumberTable`. -/
structure LineEntry where
  startPc : ℕ
  line : ℕ
deriving DecidableEq

def LineEntry.encode (entry : LineEntry) : List UInt8 := bytes2 entry.startPc ++ bytes2 entry.line

def LineEntry.mapPc (move : ℕ → ℕ) (entry : LineEntry) : LineEntry :=
  ⟨startMove move entry.startPc, entry.line⟩

structure LineEntry.Placed (boundary : ℕ → Prop) (entry : LineEntry) : Prop where
  startPc : boundary entry.startPc
  line : entry.line < 2 ^ 16

/-- An entry of a `LocalVariableTable` or a `LocalVariableTypeTable`. -/
structure VarEntry where
  startPc : ℕ
  length : ℕ
  name : ℕ
  descr : ℕ
  index : ℕ
deriving DecidableEq

namespace VarEntry

def encode (entry : VarEntry) : List UInt8 :=
  bytes2 entry.startPc ++ (bytes2 entry.length ++
    (bytes2 entry.name ++ (bytes2 entry.descr ++ bytes2 entry.index)))

def mapPc (move : ℕ → ℕ) (entry : VarEntry) : VarEntry :=
  ⟨startMove move entry.startPc,
    move (entry.startPc + entry.length) - startMove move entry.startPc,
    entry.name, entry.descr, entry.index⟩

structure Placed (boundary : ℕ → Prop) (entry : VarEntry) : Prop where
  startPc : boundary entry.startPc
  endPc : boundary (entry.startPc + entry.length)
  name : entry.name < 2 ^ 16
  descr : entry.descr < 2 ^ 16
  index : entry.index < 2 ^ 16

end VarEntry

section Passing

variable {mi : MethodImage} {ci : CrwClassImage} {boundary : ℕ → Prop} {move : ℕ → ℕ}
  (relocates : Relocates mi boundary move)

include relocates

namespace Relocates

variable {position : ℕ} (placed : boundary position)

include placed

theorem lt : position < 2 ^ 16 :=
  Nat.lt_succ_of_le ((relocates.inside placed).trans relocates.short)

theorem readU2 : CodePasses readU2 mi ci (bytes2 position) [] position :=
  CodePasses.lift (Passes.readU2 ci (relocates.lt placed))

theorem codeMap : CodePasses (methodCodeMap position) mi ci [] [] (move position : ℤ) := by
  have mapped := @CodePasses.methodCodeMap mi ci position (relocates.inside placed)
  rwa [relocates.map placed] at mapped

theorem newStartPc :
    CodePasses (newStartPc position) mi ci [] [] (startMove move position : ℤ) := by
  by_cases start : position = 0
  · simp only [ClassFile.newStartPc, startMove, if_pos start]
    exact CodePasses.pure mi ci 0
  · simp only [ClassFile.newStartPc, startMove, if_neg start]
    exact relocates.codeMap placed

end Relocates

/-- The exception table is written with its positions moved. -/
theorem passes_exceptionTable {handlers : List Handler} (few : handlers.length < 2 ^ 16)
    (placed : ∀ handler ∈ handlers, handler.Placed boundary) :
    CodePasses methodWriteExceptionTable mi ci
      (bytes2 handlers.length ++ handlers.flatMap Handler.encode)
      (bytes2 handlers.length ++ (handlers.map (Handler.mapPc move)).flatMap Handler.encode)
      () := by
  rw [List.flatMap_map]
  refine (CodePasses.copyU2 mi ci few).bind (CodePasses.times fun handler listed => ?_)
  have entry := placed handler listed
  refine Passes.of_eq ((relocates.readU2 entry.startPc).bind <|
    (relocates.readU2 entry.endPc).bind <| (relocates.readU2 entry.handlerPc).bind <|
    (relocates.codeMap entry.startPc).bind <| (relocates.codeMap entry.endPc).bind <|
    (relocates.codeMap entry.handlerPc).bind <| (CodePasses.writeU2 mi ci _).bind <|
    (CodePasses.writeU2 mi ci _).bind <| (CodePasses.writeU2 mi ci _).bind <|
    (CodePasses.copyU2 mi ci entry.catchType).bind <| CodePasses.pure mi ci ()) ?_ ?_
  · simp only [Handler.encode, List.nil_append, List.append_nil]
  · simp only [Handler.encode, Handler.mapPc, List.nil_append, List.append_nil]

theorem passes_lineTable {entries : List LineEntry} (few : entries.length < 2 ^ 16)
    (placed : ∀ entry ∈ entries, entry.Placed boundary) {attrLen : ℕ} (small : attrLen < 2 ^ 32) :
    CodePasses writeLineTable mi ci
      (bytes4 attrLen ++ (bytes2 entries.length ++ entries.flatMap LineEntry.encode))
      (bytes4 attrLen ++ (bytes2 entries.length ++
        (entries.map (LineEntry.mapPc move)).flatMap LineEntry.encode)) () := by
  rw [List.flatMap_map]
  refine (CodePasses.copyU4 mi ci small).bind ((CodePasses.copyU2 mi ci few).bind
    (CodePasses.times fun entry listed => ?_))
  have stands := placed entry listed
  refine Passes.of_eq ((relocates.readU2 stands.startPc).bind <|
    (relocates.newStartPc stands.startPc).bind <| (CodePasses.writeU2 mi ci _).bind <|
    (CodePasses.copyU2 mi ci stands.line).bind <| CodePasses.pure mi ci ()) ?_ ?_
  · simp only [LineEntry.encode, List.nil_append, List.append_nil]
  · simp only [LineEntry.encode, LineEntry.mapPc, List.nil_append, List.append_nil]

/-- The scope of a variable does not end before it begins. -/
theorem VarEntry.startMove_le {entry : VarEntry} (stands : entry.Placed boundary) :
    startMove move entry.startPc ≤ move (entry.startPc + entry.length) := by
  rw [startMove]
  split
  · exact Nat.zero_le _
  · rcases Nat.eq_zero_or_pos entry.length with empty | positive
    · rw [empty, Nat.add_zero]
    · exact (relocates.increasing stands.startPc stands.endPc (Nat.lt_add_of_pos_right positive)).le

theorem passes_varTable {entries : List VarEntry} (few : entries.length < 2 ^ 16)
    (placed : ∀ entry ∈ entries, entry.Placed boundary) {attrLen : ℕ} (small : attrLen < 2 ^ 32) :
    CodePasses writeVarTable mi ci
      (bytes4 attrLen ++ (bytes2 entries.length ++ entries.flatMap VarEntry.encode))
      (bytes4 attrLen ++ (bytes2 entries.length ++
        (entries.map (VarEntry.mapPc move)).flatMap VarEntry.encode)) () := by
  rw [List.flatMap_map]
  refine (CodePasses.copyU4 mi ci small).bind ((CodePasses.copyU2 mi ci few).bind
    (CodePasses.times fun entry listed => ?_))
  have stands := placed entry listed
  have lengthSmall : entry.length < 2 ^ 16 :=
    Nat.lt_of_le_of_lt (Nat.le_add_left _ _) (relocates.lt stands.endPc)
  refine Passes.of_eq ((relocates.readU2 stands.startPc).bind <|
    (CodePasses.lift (Passes.readU2 ci lengthSmall)).bind <|
    (relocates.newStartPc stands.startPc).bind <| (relocates.codeMap stands.endPc).bind <|
    (CodePasses.writeU2 mi ci _).bind <| (CodePasses.writeU2 mi ci _).bind <|
    (CodePasses.copyU2 mi ci stands.name).bind <| (CodePasses.copyU2 mi ci stands.descr).bind <|
    (CodePasses.copyU2 mi ci stands.index).bind <| CodePasses.pure mi ci ()) ?_ ?_
  · simp only [VarEntry.encode, List.nil_append, List.append_nil]
  · simp only [VarEntry.encode, VarEntry.mapPc, List.nil_append, List.append_nil,
      Nat.cast_sub (entry.startMove_le relocates stands)]

end Passing

end HeapScan.ClassFile
