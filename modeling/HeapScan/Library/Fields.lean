import Mathlib.Data.List.TakeWhile
import Mathlib.Data.Int.Notation

/-!
# Decimal numbers and delimited fields

The decimal text of an integer, its length and how it is read back, and texts
whose fields are separated by a delimiter.  A field in the middle may contain the
delimiter where the first and the last field do not.
-/

namespace Fields

/-- The decimal text of an integer, as `%d` prints it. -/
def decimal (value : ℤ) : List Char := (toString value).toList

/-- Read a number without a sign. -/
def readDigits (digits : List Char) : Option ℕ :=
  if digits ≠ [] ∧ digits.all Char.isDigit = true then some (Nat.ofDigitChars 10 digits 0)
  else none

/-- Read a decimal text. -/
def read (text : List Char) : Option ℤ :=
  if text.head? = some '-' then (readDigits text.tail).map fun value : ℕ => -(value : ℤ)
  else (readDigits text).map fun value : ℕ => (value : ℤ)

/-- The digits behind the sign. -/
theorem decimal_eq (value : ℤ) :
    decimal value = (if value < 0 then ['-'] else []) ++ Nat.toDigits 10 value.natAbs := by
  rw [decimal, Int.toString_eq_repr, Int.repr_eq_if]
  rcases Int.lt_or_le value 0 with negative | natural
  · rw [if_neg (by omega), if_pos negative, String.toList_append, Nat.toList_repr]
    have sameDigits : (-value).toNat = value.natAbs := by omega
    rw [sameDigits]
    rfl
  · rw [if_pos natural, if_neg (by omega), Nat.toList_repr]
    have sameDigits : value.toNat = value.natAbs := by omega
    rw [sameDigits]
    rfl

/-- Nothing but digits and a sign is in a decimal text. -/
theorem not_mem_decimal {char : Char} (noDigit : char.isDigit = false) (noSign : char ≠ '-')
    (value : ℤ) : char ∉ decimal value := by
  rw [decimal_eq, List.mem_append]
  rintro (inSign | inDigits)
  · split at inSign
    · exact noSign (List.mem_singleton.mp inSign)
    · cases inSign
  · have isDigit := Nat.isDigit_of_mem_toDigits (by decide) (by decide) inDigits
    rw [noDigit] at isDigit
    cases isDigit

theorem readDigits_toDigits (value : ℕ) : readDigits (Nat.toDigits 10 value) = some value := by
  have allDigits : (Nat.toDigits 10 value).all Char.isDigit = true :=
    List.all_eq_true.mpr fun _ listed =>
      Nat.isDigit_of_mem_toDigits (by decide) (by decide) listed
  rw [readDigits, if_pos ⟨Nat.toDigits_ne_nil, allDigits⟩, Nat.ofDigitChars_ten_toDigits]

/-- A decimal text is read back. -/
theorem read_decimal (value : ℤ) : read (decimal value) = some value := by
  rw [decimal_eq]
  split
  · rename_i negative
    rw [List.singleton_append, read, List.head?_cons, if_pos rfl, List.tail_cons,
      readDigits_toDigits, Option.map_some, Option.some.injEq]
    omega
  · rename_i natural
    have noSign : (Nat.toDigits 10 value.natAbs).head? ≠ some '-' := by
      intro isSign
      have isDigit : ('-').isDigit = true := Nat.isDigit_of_mem_toDigits (b := 10) (by decide)
        (by decide) (List.mem_of_mem_head? isSign)
      exact absurd isDigit (by decide)
    rw [List.nil_append, read, if_neg noSign, readDigits_toDigits, Option.map_some,
      Option.some.injEq]
    omega

/-- A number above nine has one more digit than its tenth. -/
theorem length_toDigits {value : ℕ} (large : 9 < value) :
    (Nat.toDigits 10 value).length = (Nat.toDigits 10 (value / 10)).length + 1 := by
  rw [Nat.toDigits_eq_if (by decide), if_neg (by omega), List.length_append,
    List.length_singleton]

theorem length_toDigits_of_small {value : ℕ} (small : value ≤ 9) :
    (Nat.toDigits 10 value).length = 1 := by
  rw [Nat.toDigits_eq_if (by decide), if_pos (by omega), List.length_singleton]

/-- The field before the first delimiter. -/
def first (delimiter : Char) (text : List Char) : List Char := text.takeWhile (· ≠ delimiter)

/-- What comes behind the first delimiter. -/
def rest (delimiter : Char) (text : List Char) : List Char :=
  (text.dropWhile (· ≠ delimiter)).drop 1

/-- The field behind the last delimiter. -/
def last (delimiter : Char) (text : List Char) : List Char :=
  (first delimiter text.reverse).reverse

/-- What comes before the last delimiter. -/
def butLast (delimiter : Char) (text : List Char) : List Char :=
  (rest delimiter text.reverse).reverse

section Split

variable {delimiter : Char} {field : List Char}

theorem passes (free : delimiter ∉ field) :
    ∀ char ∈ field, decide (char ≠ delimiter) = true := by
  intro char listed
  refine decide_eq_true ?_
  rintro rfl
  exact free listed

theorem first_append (free : delimiter ∉ field) (text : List Char) :
    first delimiter (field ++ delimiter :: text) = field := by
  rw [first, List.takeWhile_append_of_pos (passes free)]
  simp

theorem rest_append (free : delimiter ∉ field) (text : List Char) :
    rest delimiter (field ++ delimiter :: text) = text := by
  rw [rest, List.dropWhile_append_of_pos (passes free)]
  simp

theorem last_append (free : delimiter ∉ field) (text : List Char) :
    last delimiter (text ++ delimiter :: field) = field := by
  have reversed : (text ++ delimiter :: field).reverse =
      field.reverse ++ delimiter :: text.reverse := by simp
  rw [last, reversed, first_append (by simpa using free), List.reverse_reverse]

theorem butLast_append (free : delimiter ∉ field) (text : List Char) :
    butLast delimiter (text ++ delimiter :: field) = text := by
  have reversed : (text ++ delimiter :: field).reverse =
      field.reverse ++ delimiter :: text.reverse := by simp
  rw [butLast, reversed, rest_append (by simpa using free), List.reverse_reverse]

end Split

end Fields
