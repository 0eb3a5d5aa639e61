import Mathlib.Algebra.Ring.Int.Defs
import Mathlib.Algebra.Ring.Nat

/-!
# Two's complement arithmetic

A variable of `width` bits holds, of the integers that agree modulo `2 ^ width`, the one
in its range.  Sums and products that are wrapped at each step are the wrapped exact ones.
-/

namespace TwosComplement

/-- What a two's complement variable of `width` bits holds for `value`. -/
def wrap (width : ℕ) (value : ℤ) : ℤ := value.bmod (2 ^ width)

variable {width : ℕ} {value : ℤ}

@[simp]
theorem wrap_wrap_add (width : ℕ) (value added : ℤ) :
    wrap width (wrap width value + added) = wrap width (value + added) :=
  Int.bmod_add_bmod

@[simp]
theorem wrap_add_wrap (width : ℕ) (value added : ℤ) :
    wrap width (value + wrap width added) = wrap width (value + added) :=
  Int.add_bmod_bmod

@[simp]
theorem wrap_wrap_mul (width : ℕ) (value factor : ℤ) :
    wrap width (wrap width value * factor) = wrap width (value * factor) :=
  Int.bmod_mul_bmod

@[simp]
theorem wrap_zero (width : ℕ) : wrap width 0 = 0 := Int.zero_bmod

/-- A value in the range is held as it is. -/
theorem wrap_of_inRange (lower : -2 ^ width ≤ value * 2) (upper : value * 2 < 2 ^ width) :
    wrap width value = value :=
  Int.bmod_eq_of_le_mul_two (by simpa using lower) (by simpa using upper)

theorem neg_two_pow_le_wrap_mul_two (width : ℕ) (value : ℤ) :
    -2 ^ width ≤ wrap width value * 2 := by
  have above := @Int.le_bmod value (2 ^ width) (Nat.two_pow_pos width)
  have power : ((2 ^ width : ℕ) : ℤ) = 2 ^ width := by simp
  rw [wrap]
  omega

theorem wrap_mul_two_lt (width : ℕ) (value : ℤ) : wrap width value * 2 < 2 ^ width := by
  have below := @Int.bmod_lt value (2 ^ width) (Nat.two_pow_pos width)
  have power : ((2 ^ width : ℕ) : ℤ) = 2 ^ width := by simp
  rw [wrap]
  omega

/-- The variable is off by a multiple of `2 ^ width`. -/
theorem exists_wrap (width : ℕ) (value : ℤ) :
    ∃ rounds : ℤ, wrap width value = value - 2 ^ width * rounds := by
  refine ⟨value.bdiv (2 ^ width), ?_⟩
  have parts := Int.bmod_eq_self_sub_mul_bdiv value (2 ^ width)
  simpa [wrap] using parts

/-- Two values are held alike where they differ by a multiple of `2 ^ width`. -/
theorem wrap_eq_iff (width : ℕ) (value other : ℤ) :
    wrap width value = wrap width other ↔ (2 ^ width : ℤ) ∣ value - other := by
  have power : ((2 ^ width : ℕ) : ℤ) = 2 ^ width := by simp
  rw [wrap, wrap, Int.bmod_eq_bmod_iff_bmod_sub_eq_zero, ← Int.dvd_iff_bmod_eq_zero, power]

theorem wrap_eq_zero_iff (width : ℕ) (value : ℤ) :
    wrap width value = 0 ↔ (2 ^ width : ℤ) ∣ value := by
  rw [← wrap_zero width, wrap_eq_iff, Int.sub_zero]

/-- How an `int` is read: as a variable of 32 bits, or as an exact integer. -/
inductive IntReading where
  | bits32
  | exact
deriving DecidableEq

namespace IntReading

/-- What the variable holds for `value`. -/
def hold : IntReading → ℤ → ℤ
  | .bits32, value => wrap 32 value
  | .exact, value => value

/-- The variable has `value` itself. -/
def Keeps (int : IntReading) (value : ℤ) : Prop := int.hold value = value

instance (int : IntReading) (value : ℤ) : Decidable (int.Keeps value) :=
  inferInstanceAs (Decidable (_ = _))

variable (int : IntReading)

@[simp]
theorem hold_hold_add (value added : ℤ) :
    int.hold (int.hold value + added) = int.hold (value + added) := by
  cases int <;> simp [hold]

@[simp]
theorem hold_add_hold (value added : ℤ) :
    int.hold (value + int.hold added) = int.hold (value + added) := by
  cases int <;> simp [hold]

@[simp]
theorem hold_hold_mul (value factor : ℤ) :
    int.hold (int.hold value * factor) = int.hold (value * factor) := by
  cases int <;> simp [hold]

@[simp]
theorem hold_zero : int.hold 0 = 0 := by
  cases int <;> simp [hold]

/-- A natural number is held as itself or as a smaller one. -/
theorem hold_le (natural : 0 ≤ value) : int.hold value ≤ value := by
  cases int
  · have upper := wrap_mul_two_lt 32 value
    rcases exists_wrap 32 value with ⟨rounds, wrapped⟩
    rw [hold]
    omega
  · exact Int.le_refl value

theorem keeps_hold (value : ℤ) : int.Keeps (int.hold value) := by
  have twice := int.hold_hold_add value 0
  rwa [Int.add_zero, Int.add_zero] at twice

theorem keeps_zero : int.Keeps 0 := int.hold_zero

theorem keeps_exact (value : ℤ) : exact.Keeps value := rfl

/-- A variable of 32 bits has the values of its range. -/
theorem keeps_bits32_iff (value : ℤ) :
    bits32.Keeps value ↔ -2 ^ 31 ≤ value ∧ value < 2 ^ 31 := by
  constructor
  · intro kept
    have lower := neg_two_pow_le_wrap_mul_two 32 value
    have upper := wrap_mul_two_lt 32 value
    have same : wrap 32 value = value := kept
    omega
  · intro inRange
    exact wrap_of_inRange (by omega) (by omega)

variable {int}

/-- With a natural number the variable has every smaller one. -/
theorem Keeps.of_le {most : ℤ} (kept : int.Keeps most) (natural : 0 ≤ value) (le : value ≤ most) :
    int.Keeps value := by
  cases int
  · rw [keeps_bits32_iff] at kept ⊢
    omega
  · exact keeps_exact value

/-- A value that is off wraps around once, as long as it is less than three halves of a turn. -/
theorem hold_of_not_keeps (off : ¬int.Keeps value) (natural : 0 ≤ value)
    (below : value < 3 * 2 ^ 31) : int.hold value = value - 2 ^ 32 := by
  cases int
  · rw [keeps_bits32_iff] at off
    have same : wrap 32 value = wrap 32 (value - 2 ^ 32) := (wrap_eq_iff 32 _ _).mpr ⟨1, by omega⟩
    rw [hold, same]
    exact wrap_of_inRange (by omega) (by omega)
  · exact absurd (keeps_exact value) off

end IntReading

end TwosComplement
