import Mathlib.Algebra.Ring.Int.Defs
import Mathlib.Algebra.Ring.Nat
import HeapScan.Library.TwosComplement

/-!
# Big-endian numbers in a byte image

Numbers of one, two and four bytes are read from an image at a position, unsigned or in
two's complement, and written with the most significant byte first.  A number that is
written keeps its lower bits only, so what is read back is the number modulo its width.
-/

namespace BigEndian

open TwosComplement

/-- The byte that holds the lowest eight bits. -/
def byte (value : ℤ) : UInt8 := UInt8.ofNat (value % 2 ^ 8).toNat

def bytes2 (value : ℤ) : List UInt8 := [byte (value / 2 ^ 8), byte value]

def bytes4 (value : ℤ) : List UInt8 := bytes2 (value / 2 ^ 16) ++ bytes2 value

def u1 (image : List UInt8) (position : ℕ) : Option ℕ := image[position]?.map UInt8.toNat

def u2 (image : List UInt8) (position : ℕ) : Option ℕ := do
  let high ← u1 image position
  let low ← u1 image (position + 1)
  return high * 2 ^ 8 + low

def u4 (image : List UInt8) (position : ℕ) : Option ℕ := do
  let high ← u2 image position
  let low ← u2 image (position + 2)
  return high * 2 ^ 16 + low

def s2 (image : List UInt8) (position : ℕ) : Option ℤ :=
  (u2 image position).map fun value : ℕ => wrap 16 value

def s4 (image : List UInt8) (position : ℕ) : Option ℤ :=
  (u4 image position).map fun value : ℕ => wrap 32 value

/-- The numbers of four bytes each that stand in a row. -/
def s4s (image : List UInt8) (position : ℕ) : ℕ → Option (List ℤ)
  | 0 => some []
  | count + 1 => do
      let value ← s4 image position
      let values ← s4s image (position + 4) count
      return value :: values

def s4Pairs (image : List UInt8) (position : ℕ) : ℕ → Option (List (ℤ × ℤ))
  | 0 => some []
  | count + 1 => do
      let first ← s4 image position
      let second ← s4 image (position + 4)
      let pairs ← s4Pairs image (position + 8) count
      return (first, second) :: pairs

/-- The numbers that two bytes hold in two's complement. -/
def Fits2 (value : ℤ) : Prop := -2 ^ 15 ≤ value ∧ value < 2 ^ 15

/-- The numbers that four bytes hold in two's complement. -/
def Fits4 (value : ℤ) : Prop := -2 ^ 31 ≤ value ∧ value < 2 ^ 31

instance (value : ℤ) : Decidable (Fits2 value) := inferInstanceAs (Decidable (_ ∧ _))

instance (value : ℤ) : Decidable (Fits4 value) := inferInstanceAs (Decidable (_ ∧ _))

/-- The `count` bytes from `position` on, where the image has them all. -/
def slice (image : List UInt8) (position count : ℕ) : Option (List UInt8) :=
  if position + count ≤ image.length then some ((image.drop position).take count) else none

@[simp]
theorem length_bytes2 (value : ℤ) : (bytes2 value).length = 2 := rfl

@[simp]
theorem length_bytes4 (value : ℤ) : (bytes4 value).length = 4 := rfl

theorem length_flatMap_bytes4 (values : List ℤ) :
    (values.flatMap bytes4).length = 4 * values.length := by
  induction values with
  | nil => rfl
  | cons first rest step =>
      rw [List.flatMap_cons, List.length_append, step, length_bytes4, List.length_cons]
      omega

theorem length_flatMap_pairs (pairs : List (ℤ × ℤ)) :
    (pairs.flatMap fun pair => bytes4 pair.1 ++ bytes4 pair.2).length = 8 * pairs.length := by
  induction pairs with
  | nil => rfl
  | cons first rest step =>
      rw [List.flatMap_cons, List.length_append, step, List.length_append, length_bytes4,
        length_bytes4, List.length_cons]
      omega

theorem toNat_byte (value : ℤ) : ((byte value).toNat : ℤ) = value % 2 ^ 8 := by
  have nonneg : 0 ≤ value % 2 ^ 8 := Int.emod_nonneg value (by decide)
  have below : value % 2 ^ 8 < 2 ^ 8 := Int.emod_lt_of_pos value (by decide)
  rw [byte, UInt8.toNat_ofNat']
  omega

theorem byte_toNat (held : UInt8) : byte (held.toNat : ℤ) = held := by
  apply UInt8.toNat_inj.mp
  have back := toNat_byte held.toNat
  have below := held.toNat_lt
  omega

/-- Four bytes keep a number modulo `2 ^ 32` only. -/
theorem bytes4_wrap (value : ℤ) : bytes4 (wrap 32 value) = bytes4 value := by
  have same : wrap 32 value % 2 ^ 32 = value % 2 ^ 32 := Int.bmod_emod
  simp only [bytes4, bytes2, byte, List.cons_append, List.nil_append, List.cons.injEq, and_true]
  refine ⟨?_, ?_, ?_, ?_⟩ <;> congr 2 <;> omega

section Reading

variable {image : List UInt8} {position : ℕ}

theorem u1_lt {value : ℕ} (read : u1 image position = some value) : value < 2 ^ 8 := by
  rcases Option.map_eq_some_iff.mp read with ⟨held, _, rfl⟩
  exact held.toNat_lt

theorem u2_eq_some {value : ℕ} (read : u2 image position = some value) :
    ∃ high low, u1 image position = some high ∧ u1 image (position + 1) = some low ∧
      value = high * 2 ^ 8 + low := by
  simp only [u2, Option.bind_eq_bind, Option.bind_eq_some_iff, Option.pure_def,
    Option.some.injEq] at read
  rcases read with ⟨high, highRead, low, lowRead, rfl⟩
  exact ⟨high, low, highRead, lowRead, rfl⟩

theorem u4_eq_some {value : ℕ} (read : u4 image position = some value) :
    ∃ high low, u2 image position = some high ∧ u2 image (position + 2) = some low ∧
      value = high * 2 ^ 16 + low := by
  simp only [u4, Option.bind_eq_bind, Option.bind_eq_some_iff, Option.pure_def,
    Option.some.injEq] at read
  rcases read with ⟨high, highRead, low, lowRead, rfl⟩
  exact ⟨high, low, highRead, lowRead, rfl⟩

theorem u1_lt_length {value : ℕ} (read : u1 image position = some value) :
    position < image.length := by
  rcases Option.map_eq_some_iff.mp read with ⟨held, found, _⟩
  exact (List.getElem?_eq_some_iff.mp found).1

theorem u1_of_lt (inside : position < image.length) : ∃ value, u1 image position = some value :=
  ⟨image[position].toNat, by rw [u1, List.getElem?_eq_getElem inside, Option.map_some]⟩

theorem u2_of_le (inside : position + 2 ≤ image.length) :
    ∃ value, u2 image position = some value := by
  rcases @u1_of_lt image position (by omega) with ⟨high, highRead⟩
  rcases @u1_of_lt image (position + 1) (by omega) with ⟨low, lowRead⟩
  exact ⟨high * 2 ^ 8 + low, by simp [u2, highRead, lowRead]⟩

/-- A number that is read lies in the image. -/
theorem u2_le_length {value : ℕ} (read : u2 image position = some value) :
    position + 2 ≤ image.length := by
  rcases u2_eq_some read with ⟨high, low, _, lowRead, _⟩
  exact u1_lt_length lowRead

theorem u4_le_length {value : ℕ} (read : u4 image position = some value) :
    position + 4 ≤ image.length := by
  rcases u4_eq_some read with ⟨high, low, _, lowRead, _⟩
  exact u2_le_length lowRead

theorem s2_eq_some {value : ℤ} (read : s2 image position = some value) :
    ∃ unsigned : ℕ, u2 image position = some unsigned ∧ wrap 16 unsigned = value := by
  rcases Option.map_eq_some_iff.mp read with ⟨unsigned, found, rfl⟩
  exact ⟨unsigned, found, rfl⟩

theorem s4_eq_some {value : ℤ} (read : s4 image position = some value) :
    ∃ unsigned : ℕ, u4 image position = some unsigned ∧ wrap 32 unsigned = value := by
  rcases Option.map_eq_some_iff.mp read with ⟨unsigned, found, rfl⟩
  exact ⟨unsigned, found, rfl⟩

theorem fits2_of_s2 {value : ℤ} (read : s2 image position = some value) : Fits2 value := by
  rcases s2_eq_some read with ⟨unsigned, _, rfl⟩
  have lower := @Int.le_bmod unsigned (2 ^ 16) (by decide)
  have upper := @Int.bmod_lt unsigned (2 ^ 16) (by decide)
  simp only [Fits2, wrap]
  omega

theorem fits4_of_s4 {value : ℤ} (read : s4 image position = some value) : Fits4 value := by
  rcases s4_eq_some read with ⟨unsigned, _, rfl⟩
  have lower := @Int.le_bmod unsigned (2 ^ 32) (by decide)
  have upper := @Int.bmod_lt unsigned (2 ^ 32) (by decide)
  simp only [Fits4, wrap]
  omega

theorem s4_le_length {value : ℤ} (read : s4 image position = some value) :
    position + 4 ≤ image.length := by
  rcases s4_eq_some read with ⟨unsigned, found, _⟩
  exact u4_le_length found

theorem s4s_succ_eq_some {count : ℕ} {values : List ℤ}
    (read : s4s image position (count + 1) = some values) :
    ∃ value rest, s4 image position = some value ∧
      s4s image (position + 4) count = some rest ∧ values = value :: rest := by
  simp only [s4s, Option.bind_eq_bind, Option.bind_eq_some_iff, Option.pure_def,
    Option.some.injEq] at read
  rcases read with ⟨value, found, rest, restFound, rfl⟩
  exact ⟨value, rest, found, restFound, rfl⟩

theorem s4Pairs_succ_eq_some {count : ℕ} {pairs : List (ℤ × ℤ)}
    (read : s4Pairs image position (count + 1) = some pairs) :
    ∃ first second rest, s4 image position = some first ∧
      s4 image (position + 4) = some second ∧
      s4Pairs image (position + 8) count = some rest ∧ pairs = (first, second) :: rest := by
  simp only [s4Pairs, Option.bind_eq_bind, Option.bind_eq_some_iff, Option.pure_def,
    Option.some.injEq] at read
  rcases read with ⟨first, firstFound, second, secondFound, rest, restFound, rfl⟩
  exact ⟨first, second, rest, firstFound, secondFound, restFound, rfl⟩

theorem s4s_eq_some {count : ℕ} {values : List ℤ} (read : s4s image position count = some values) :
    values.length = count ∧ (∀ value ∈ values, Fits4 value) ∧
      (position ≤ image.length → position + 4 * count ≤ image.length) := by
  induction count generalizing position values with
  | zero =>
      obtain rfl : [] = values := Option.some.inj read
      simp
  | succ count step =>
      rcases s4s_succ_eq_some read with ⟨value, rest, found, restFound, rfl⟩
      rcases step restFound with ⟨counted, fitting, inside⟩
      have bound := s4_le_length found
      refine ⟨congrArg (· + 1) counted, ?_, fun _ => ?_⟩
      · intro held listed
        rcases List.mem_cons.mp listed with rfl | inRest
        · exact fits4_of_s4 found
        · exact fitting held inRest
      · have restInside := inside bound
        omega

theorem s4Pairs_eq_some {count : ℕ} {pairs : List (ℤ × ℤ)}
    (read : s4Pairs image position count = some pairs) :
    pairs.length = count ∧ (∀ pair ∈ pairs, Fits4 pair.1 ∧ Fits4 pair.2) ∧
      (position ≤ image.length → position + 8 * count ≤ image.length) := by
  induction count generalizing position pairs with
  | zero =>
      obtain rfl : [] = pairs := Option.some.inj read
      simp
  | succ count step =>
      rcases s4Pairs_succ_eq_some read with
        ⟨first, second, rest, firstFound, secondFound, restFound, rfl⟩
      rcases step restFound with ⟨counted, fitting, inside⟩
      have bound := s4_le_length secondFound
      refine ⟨congrArg (· + 1) counted, ?_, fun _ => ?_⟩
      · intro held listed
        rcases List.mem_cons.mp listed with rfl | inRest
        · exact ⟨fits4_of_s4 firstFound, fits4_of_s4 secondFound⟩
        · exact fitting held inRest
      · have restInside := inside (by omega)
        omega

theorem slice_eq_some {count : ℕ} {bytes : List UInt8}
    (read : slice image position count = some bytes) :
    position + count ≤ image.length ∧ bytes = (image.drop position).take count := by
  simp only [slice, Option.ite_none_right_eq_some, Option.some.injEq] at read
  exact ⟨read.1, read.2.symm⟩

theorem length_slice {count : ℕ} {bytes : List UInt8}
    (read : slice image position count = some bytes) : bytes.length = count := by
  rcases slice_eq_some read with ⟨inside, rfl⟩
  rw [List.length_take, List.length_drop]
  omega

theorem slice_of_u1 {value : ℕ} (read : u1 image position = some value) :
    slice image position 1 = some [byte value] := by
  rcases Option.map_eq_some_iff.mp read with ⟨held, found, rfl⟩
  rcases List.getElem?_eq_some_iff.mp found with ⟨inside, isHeld⟩
  rw [slice, if_pos (Nat.succ_le_of_lt inside), List.take_one, List.head?_drop, found, byte_toNat]
  rfl

theorem slice_add {count more : ℕ} {bytes rest : List UInt8}
    (read : slice image position count = some bytes)
    (restRead : slice image (position + count) more = some rest) :
    slice image position (count + more) = some (bytes ++ rest) := by
  rcases slice_eq_some read with ⟨_, rfl⟩
  rcases slice_eq_some restRead with ⟨inside, rfl⟩
  rw [slice, if_pos (by omega), List.take_add, List.drop_drop]

/-- A number that is read is written as the same bytes. -/
theorem slice_of_u2 {value : ℕ} (read : u2 image position = some value) :
    slice image position 2 = some (bytes2 value) := by
  rcases u2_eq_some read with ⟨high, low, highRead, lowRead, rfl⟩
  have lowBelow := u1_lt lowRead
  have highByte : byte (((high * 2 ^ 8 + low : ℕ) : ℤ) / 2 ^ 8) = byte high := by
    congr 1
    omega
  have lowByte : byte ((high * 2 ^ 8 + low : ℕ) : ℤ) = byte low := by
    rw [byte, byte]
    congr 2
    omega
  rw [bytes2, highByte, lowByte]
  exact slice_add (slice_of_u1 highRead) (slice_of_u1 lowRead)

/-- A row of bytes stands where its first and its second part stand one behind the other. -/
theorem slice_append {bytes more : List UInt8} :
    slice image position (bytes ++ more).length = some (bytes ++ more) ↔
      slice image position bytes.length = some bytes ∧
        slice image (position + bytes.length) more.length = some more := by
  refine ⟨fun read => ?_, fun ⟨read, moreRead⟩ => ?_⟩
  · rcases slice_eq_some read with ⟨inside, same⟩
    rw [List.length_append] at inside same
    rw [List.take_add, List.drop_drop] at same
    have size : bytes.length = ((image.drop position).take bytes.length).length := by
      rw [List.length_take, List.length_drop]
      omega
    rcases List.append_inj same size with ⟨first, second⟩
    rw [slice, slice, if_pos (by omega), if_pos (by omega)]
    exact ⟨congrArg some first.symm, congrArg some second.symm⟩
  · rw [List.length_append]
    exact slice_add read moreRead

theorem u1_of_slice {held : UInt8} (read : slice image position 1 = some [held]) :
    u1 image position = some held.toNat := by
  rcases slice_eq_some read with ⟨inside, same⟩
  rw [u1, List.getElem?_eq_getElem inside, Option.map_some]
  rw [List.take_one, List.head?_drop, List.getElem?_eq_getElem inside] at same
  simp only [Option.toList_some, List.cons.injEq, and_true] at same
  rw [same]

theorem toNat_byte_of_lt {value : ℕ} (fits : value < 2 ^ 8) : (byte value).toNat = value := by
  have held := toNat_byte value
  omega

theorem u2_of_slice {value : ℕ} (fits : value < 2 ^ 16)
    (read : slice image position 2 = some (bytes2 value)) : u2 image position = some value := by
  rcases slice_append.mp (show slice image position
    ([byte ((value : ℤ) / 2 ^ 8)] ++ [byte value]).length = some _ from read) with ⟨high, low⟩
  have highHeld := toNat_byte ((value : ℤ) / 2 ^ 8)
  have lowHeld := toNat_byte value
  have highRead := u1_of_slice high
  have lowRead := u1_of_slice low
  simp only [List.length_singleton] at lowRead
  simp only [u2, highRead, lowRead, Option.bind_eq_bind, Option.bind_some, Option.pure_def,
    Option.some.injEq]
  omega

theorem u4_of_slice {value : ℕ} (fits : value < 2 ^ 32)
    (read : slice image position 4 = some (bytes4 value)) : u4 image position = some value := by
  rcases slice_append.mp (show slice image position
    (bytes2 ((value : ℤ) / 2 ^ 16) ++ bytes2 value).length = some _ from read) with ⟨high, low⟩
  have wrapped : bytes2 (value : ℤ) = bytes2 ((value % 2 ^ 16 : ℕ) : ℤ) := by
    simp only [bytes2, byte, List.cons.injEq, and_true]
    constructor <;> congr 2 <;> omega
  have shifted : (value : ℤ) / 2 ^ 16 = ((value / 2 ^ 16 : ℕ) : ℤ) := by omega
  rw [shifted] at high
  rw [wrapped] at low
  have highRead := u2_of_slice (by omega) high
  have lowRead := u2_of_slice (Nat.mod_lt _ (by decide)) low
  simp only [length_bytes2] at lowRead
  simp only [u4, highRead, lowRead, Option.bind_eq_bind, Option.bind_some, Option.pure_def,
    Option.some.injEq]
  omega

end Reading

section Appending

variable (before image after : List UInt8) (position : ℕ)

@[simp]
theorem u1_append_right :
    u1 (before ++ image) (before.length + position) = u1 image position := by
  rw [u1, u1, List.getElem?_append_right (Nat.le_add_right _ _), Nat.add_sub_cancel_left]

@[simp]
theorem u2_append_right :
    u2 (before ++ image) (before.length + position) = u2 image position := by
  rw [u2, u2, u1_append_right, Nat.add_assoc, u1_append_right]

@[simp]
theorem u4_append_right :
    u4 (before ++ image) (before.length + position) = u4 image position := by
  rw [u4, u4, u2_append_right, Nat.add_assoc, u2_append_right]

@[simp]
theorem s2_append_right :
    s2 (before ++ image) (before.length + position) = s2 image position := by
  rw [s2, s2, u2_append_right]

@[simp]
theorem s4_append_right :
    s4 (before ++ image) (before.length + position) = s4 image position := by
  rw [s4, s4, u4_append_right]

@[simp]
theorem s4s_append_right (count : ℕ) :
    s4s (before ++ image) (before.length + position) count = s4s image position count := by
  induction count generalizing position with
  | zero => rfl
  | succ count step => rw [s4s, s4s, s4_append_right, Nat.add_assoc, step]

@[simp]
theorem s4Pairs_append_right (count : ℕ) :
    s4Pairs (before ++ image) (before.length + position) count =
      s4Pairs image position count := by
  induction count generalizing position with
  | zero => rfl
  | succ count step =>
      rw [s4Pairs, s4Pairs, s4_append_right, Nat.add_assoc, Nat.add_assoc, s4_append_right, step]

@[simp]
theorem slice_append_right (count : ℕ) :
    slice (before ++ image) (before.length + position) count = slice image position count := by
  have same : before.length + position + count ≤ (before ++ image).length ↔
      position + count ≤ image.length := by
    rw [List.length_append]
    omega
  rw [slice, slice, List.drop_append, List.drop_of_length_le (Nat.le_add_right _ _),
    Nat.add_sub_cancel_left, List.nil_append]
  simp only [same]

end Appending

theorem slice_append_left (bytes after : List UInt8) :
    slice (bytes ++ after) 0 bytes.length = some bytes := by
  simp [slice]

section Windows

variable {image : List UInt8} {start size position : ℕ}

/-- What is read in a window of an image stands in the image. -/
theorem u1_of_window {value : ℕ}
    (read : u1 ((image.drop start).take size) position = some value) :
    u1 image (start + position) = some value := by
  rcases Option.map_eq_some_iff.mp read with ⟨held, found, rfl⟩
  rw [u1, ← List.getElem?_drop]
  rw [List.getElem?_take] at found
  split at found
  · rw [found, Option.map_some]
  · simp at found

theorem u2_of_window {value : ℕ}
    (read : u2 ((image.drop start).take size) position = some value) :
    u2 image (start + position) = some value := by
  rcases u2_eq_some read with ⟨high, low, highRead, lowRead, rfl⟩
  have highFound := u1_of_window highRead
  have lowFound := u1_of_window lowRead
  rw [← Nat.add_assoc] at lowFound
  simp [u2, highFound, lowFound]

theorem u4_of_window {value : ℕ}
    (read : u4 ((image.drop start).take size) position = some value) :
    u4 image (start + position) = some value := by
  rcases u4_eq_some read with ⟨high, low, highRead, lowRead, rfl⟩
  have highFound := u2_of_window highRead
  have lowFound := u2_of_window lowRead
  rw [← Nat.add_assoc] at lowFound
  simp [u4, highFound, lowFound]

theorem s2_of_window {value : ℤ}
    (read : s2 ((image.drop start).take size) position = some value) :
    s2 image (start + position) = some value := by
  rcases s2_eq_some read with ⟨unsigned, found, rfl⟩
  simp only [s2, u2_of_window found, Option.map_some]

theorem s4_of_window {value : ℤ}
    (read : s4 ((image.drop start).take size) position = some value) :
    s4 image (start + position) = some value := by
  rcases s4_eq_some read with ⟨unsigned, found, rfl⟩
  simp only [s4, u4_of_window found, Option.map_some]

theorem s4s_of_window {count : ℕ} {values : List ℤ}
    (read : s4s ((image.drop start).take size) position count = some values) :
    s4s image (start + position) count = some values := by
  induction count generalizing position values with
  | zero => exact read
  | succ count step =>
      rcases s4s_succ_eq_some read with ⟨value, rest, found, restFound, rfl⟩
      have restRead := step restFound
      rw [← Nat.add_assoc] at restRead
      simp [s4s, s4_of_window found, restRead]

theorem s4Pairs_of_window {count : ℕ} {pairs : List (ℤ × ℤ)}
    (read : s4Pairs ((image.drop start).take size) position count = some pairs) :
    s4Pairs image (start + position) count = some pairs := by
  induction count generalizing position pairs with
  | zero => exact read
  | succ count step =>
      rcases s4Pairs_succ_eq_some read with
        ⟨first, second, rest, firstFound, secondFound, restFound, rfl⟩
      have secondRead := s4_of_window secondFound
      have restRead := step restFound
      rw [← Nat.add_assoc] at secondRead restRead
      simp [s4Pairs, s4_of_window firstFound, secondRead, restRead]

theorem slice_of_window {count : ℕ} {bytes : List UInt8} (whole : start + size ≤ image.length)
    (read : slice ((image.drop start).take size) position count = some bytes) :
    slice image (start + position) count = some bytes := by
  rcases slice_eq_some read with ⟨inside, rfl⟩
  rw [List.length_take, List.length_drop] at inside
  rw [slice, if_pos (by omega), List.drop_take, List.drop_drop, List.take_take]
  congr 2
  omega

end Windows

section Written

variable (after : List UInt8) (value : ℤ)

theorem u1_byte : u1 (byte value :: after) 0 = some (value % 2 ^ 8).toNat := by
  have held := toNat_byte value
  simp only [u1, List.getElem?_cons_zero, Option.map_some, Option.some.injEq]
  omega

theorem u2_bytes2 : u2 (bytes2 value ++ after) 0 = some (value % 2 ^ 16).toNat := by
  have high := toNat_byte (value / 2 ^ 8)
  have low := toNat_byte value
  simp only [u2, u1, bytes2, List.cons_append, List.getElem?_cons_zero, Nat.zero_add,
    List.getElem?_cons_succ, Option.map_some, Option.bind_eq_bind, Option.bind_some,
    Option.pure_def, Option.some.injEq]
  omega

theorem u4_bytes4 : u4 (bytes4 value ++ after) 0 = some (value % 2 ^ 32).toNat := by
  have high : u2 (bytes4 value ++ after) 0 = some (value / 2 ^ 16 % 2 ^ 16).toNat := by
    rw [bytes4, List.append_assoc, u2_bytes2]
  have low : u2 (bytes4 value ++ after) 2 = some (value % 2 ^ 16).toNat := by
    rw [bytes4, List.append_assoc]
    exact (u2_append_right (bytes2 (value / 2 ^ 16)) _ 0).trans (u2_bytes2 after value)
  simp only [u4, high, low, Nat.zero_add, Option.bind_eq_bind, Option.bind_some,
    Option.pure_def, Option.some.injEq]
  omega

theorem s2_bytes2 : s2 (bytes2 value ++ after) 0 = some (wrap 16 value) := by
  have nonneg : 0 ≤ value % 2 ^ 16 := Int.emod_nonneg value (by decide)
  simp only [s2, u2_bytes2, Option.map_some, Int.toNat_of_nonneg nonneg, wrap]
  exact congrArg some (Int.emod_bmod value (2 ^ 16))

theorem s4_bytes4 : s4 (bytes4 value ++ after) 0 = some (wrap 32 value) := by
  have nonneg : 0 ≤ value % 2 ^ 32 := Int.emod_nonneg value (by decide)
  simp only [s4, u4_bytes4, Option.map_some, Int.toNat_of_nonneg nonneg, wrap]
  exact congrArg some (Int.emod_bmod value (2 ^ 32))

variable {value}

theorem s2_bytes2_of_fits (fits : Fits2 value) : s2 (bytes2 value ++ after) 0 = some value := by
  rcases fits with ⟨lower, upper⟩
  rw [s2_bytes2, wrap_of_inRange (by omega) (by omega)]

theorem s4_bytes4_of_fits (fits : Fits4 value) : s4 (bytes4 value ++ after) 0 = some value := by
  rcases fits with ⟨lower, upper⟩
  rw [s4_bytes4, wrap_of_inRange (by omega) (by omega)]

theorem s4s_flatMap {values : List ℤ} (fits : ∀ value ∈ values, Fits4 value) :
    s4s (values.flatMap bytes4 ++ after) 0 values.length = some values := by
  induction values with
  | nil => rfl
  | cons first rest step =>
      have restFits := step fun value found => fits value (List.mem_cons_of_mem _ found)
      have restRead := s4s_append_right (bytes4 first) (rest.flatMap bytes4 ++ after) 0 rest.length
      rw [List.flatMap_cons, List.append_assoc, List.length_cons, s4s,
        s4_bytes4_of_fits _ (fits first List.mem_cons_self)]
      simp only [length_bytes4, Nat.add_zero] at restRead
      simp [restRead, restFits]

theorem s4Pairs_flatMap {pairs : List (ℤ × ℤ)}
    (fits : ∀ pair ∈ pairs, Fits4 pair.1 ∧ Fits4 pair.2) :
    s4Pairs ((pairs.flatMap fun pair => bytes4 pair.1 ++ bytes4 pair.2) ++ after) 0 pairs.length =
      some pairs := by
  induction pairs with
  | nil => rfl
  | cons first rest step =>
      have firstFits := fits first List.mem_cons_self
      have restFits := step fun value found => fits value (List.mem_cons_of_mem _ found)
      have secondRead := s4_append_right (bytes4 first.1) (bytes4 first.2 ++
        ((rest.flatMap fun pair => bytes4 pair.1 ++ bytes4 pair.2) ++ after)) 0
      have restRead := s4Pairs_append_right (bytes4 first.1 ++ bytes4 first.2)
        ((rest.flatMap fun pair => bytes4 pair.1 ++ bytes4 pair.2) ++ after) 0 rest.length
      rw [s4_bytes4_of_fits _ firstFits.2] at secondRead
      simp only [length_bytes4, Nat.add_zero, List.length_append, List.append_assoc]
        at secondRead restRead
      rw [List.flatMap_cons, List.append_assoc, List.append_assoc, List.length_cons, s4Pairs,
        s4_bytes4_of_fits _ firstFits.1]
      simp [secondRead, restRead, restFits]

end Written

end BigEndian
