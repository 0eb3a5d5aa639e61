import HeapScan.Library.Fields

/-!
# Formatted input

`fscanf` reads directives of its format one after another.  White space in the format
skips any white space of the input, another character must be the next one of the input,
and a conversion skips white space and reads a word or a decimal number.  The first
directive that fails ends the call; what it has not read stays for the next call.
-/

namespace Scanf

/-- `isspace`. -/
def isSpace (char : Char) : Bool :=
  char = ' ' || char = '\t' || char = '\n' || char = '\x0b' || char = '\x0c' || char = '\r'

inductive Directive where
  | space
  | literal (char : Char)
  /-- `%s`. -/
  | word
  /-- `%d`. -/
  | number
deriving DecidableEq

/-- The directive that a character outside of a conversion is. -/
def Directive.ofChar (char : Char) : Directive :=
  if isSpace char then .space else .literal char

/-- The directives of a format; `%s` and `%d` are its only conversions. -/
def directives : List Char → List Directive
  | [] => []
  | '%' :: 's' :: format => .word :: directives format
  | '%' :: 'd' :: format => .number :: directives format
  | char :: format => .ofChar char :: directives format

/-- What a conversion stores. -/
inductive Conversion where
  | word (text : List Char)
  | number (value : ℤ)
deriving DecidableEq

def skipSpace (input : List Char) : List Char := input.dropWhile isSpace

/-- The digits of a number, and the input behind them. -/
def scanDigits (input : List Char) : Option ℕ × List Char :=
  (Fields.readDigits (input.takeWhile Char.isDigit), input.dropWhile Char.isDigit)

/-- A sign is read even where no digits follow. -/
def scanNumber (input : List Char) : Option ℤ × List Char :=
  let sign := input.head?
  let unsigned := if sign = some '-' ∨ sign = some '+' then input.tail else input
  let (digits, rest) := scanDigits unsigned
  (digits.map fun value : ℕ => if sign = some '-' then -(value : ℤ) else value, rest)

/-- The conversions of a call, and the input that it leaves. -/
def scan : List Directive → List Char → List Conversion × List Char
  | [], input => ([], input)
  | .space :: format, input => scan format (skipSpace input)
  | .literal char :: format, input =>
      match input with
      | [] => ([], [])
      | next :: rest => if next = char then scan format rest else ([], input)
  | .word :: format, input =>
      let input := skipSpace input
      let word := input.takeWhile (!isSpace ·)
      if word = [] then ([], input)
      else
        let (conversions, rest) := scan format (input.dropWhile (!isSpace ·))
        (.word word :: conversions, rest)
  | .number :: format, input =>
      match scanNumber (skipSpace input) with
      | (none, rest) => ([], rest)
      | (some value, rest) =>
          let (conversions, rest) := scan format rest
          (.number value :: conversions, rest)

/-- `fscanf`, for the characters that the stream still has. -/
def fscanf (format input : List Char) : List Conversion × List Char :=
  scan (directives format) input

/-- A text that `%s` reads as one word: it has a character, and no white space. -/
def IsWord (text : List Char) : Prop := text ≠ [] ∧ ∀ char ∈ text, isSpace char = false

/-- Every white space of the text is followed by a character that is none. -/
def Separated : List Char → Prop
  | [] => True
  | char :: text => (isSpace char = true → text.head?.any (!isSpace ·) = true) ∧ Separated text

instance decidableSeparated : (text : List Char) → Decidable (Separated text)
  | [] => isTrue trivial
  | char :: text =>
      have := decidableSeparated text
      inferInstanceAs (Decidable
        ((isSpace char = true → text.head?.any (!isSpace ·) = true) ∧ Separated text))

section Scanning

variable {format : List Directive} {input rest : List Char}

theorem skipSpace_of_head {char : Char} (visible : isSpace char = false) (input : List Char) :
    skipSpace (char :: input) = char :: input := by
  simp [skipSpace, visible]

/-- Skipping white space gets to a character that is none, or to the end. -/
theorem skipSpace_append {spaces : List Char} (blank : ∀ char ∈ spaces, isSpace char = true)
    (input : List Char) : skipSpace (spaces ++ input) = skipSpace input :=
  List.dropWhile_append_of_pos blank

/-- The text of a format, where the input has it, is passed. -/
theorem scan_text {text : List Char} (separated : Separated text) (format : List Directive)
    (input : List Char) :
    scan (text.map .ofChar ++ format) (text ++ input) = scan format input := by
  induction text with
  | nil => rfl
  | cons char text ih =>
      rcases separated with ⟨followed, separated⟩
      by_cases blank : isSpace char = true
      · rcases (Option.any_eq_true _ _).mp (followed blank) with ⟨next, isHead, visible⟩
        rcases List.head?_eq_some_iff.mp isHead with ⟨later, rfl⟩
        have skipped : skipSpace (char :: next :: later ++ input) = next :: later ++ input := by
          simpa [skipSpace, blank] using visible
        rw [List.map_cons, List.cons_append, Directive.ofChar, if_pos blank, scan, skipped]
        exact ih separated
      · rw [List.map_cons, List.cons_append, Directive.ofChar, if_neg blank, List.cons_append, scan,
          if_pos rfl]
        exact ih separated

/-- The call ends at a character that is not the next one of the format. -/
theorem scan_literal_mismatch {char next : Char} (differs : next ≠ char)
    (format : List Directive) (input : List Char) :
    scan (.literal char :: format) (next :: input) = ([], next :: input) := by
  rw [scan, if_neg differs]

theorem scan_word {word : List Char} (isWord : IsWord word)
    (ended : ∀ next ∈ input.head?, isSpace next = true) (format : List Directive) :
    scan (.word :: format) (word ++ input) =
      (.word word :: (scan format input).1, (scan format input).2) := by
  rcases isWord with ⟨some, visible⟩
  have reads : ∀ char ∈ word, (!isSpace char) = true := by
    intro char listed
    rw [visible char listed, Bool.not_false]
  have start : skipSpace (word ++ input) = word ++ input := by
    rcases List.exists_cons_of_ne_nil some with ⟨char, later, rfl⟩
    exact skipSpace_of_head (visible char (List.mem_cons_self ..)) _
  have stops : input.takeWhile (!isSpace ·) = [] ∧ input.dropWhile (!isSpace ·) = input := by
    cases input with
    | nil => exact ⟨rfl, rfl⟩
    | cons next later => simp [ended next rfl]
  have taken : (word ++ input).takeWhile (!isSpace ·) = word := by
    rw [List.takeWhile_append_of_pos reads, stops.1, List.append_nil]
  have dropped : (word ++ input).dropWhile (!isSpace ·) = input := by
    rw [List.dropWhile_append_of_pos reads, stops.2]
  simp only [scan, start, taken, if_neg some, dropped]

theorem scanDigits_toDigits (value : ℕ) (ended : ∀ next ∈ input.head?, next.isDigit = false) :
    scanDigits (Nat.toDigits 10 value ++ input) = (some value, input) := by
  have digits : ∀ char ∈ Nat.toDigits 10 value, char.isDigit = true := fun _ listed =>
    Nat.isDigit_of_mem_toDigits (by decide) (by decide) listed
  have stops : input.takeWhile Char.isDigit = [] ∧ input.dropWhile Char.isDigit = input := by
    cases input with
    | nil => exact ⟨rfl, rfl⟩
    | cons next later => simp [ended next rfl]
  rw [scanDigits, List.takeWhile_append_of_pos digits, List.dropWhile_append_of_pos digits, stops.1,
    stops.2, List.append_nil, Fields.readDigits_toDigits]

theorem not_isSpace_of_isDigit {char : Char} (isDigit : char.isDigit = true) :
    isSpace char = false := by
  by_contra blank
  simp only [isSpace, Bool.or_eq_true, decide_eq_true_eq, Bool.not_eq_false] at blank
  rcases blank with ((((rfl | rfl) | rfl) | rfl) | rfl) | rfl <;> exact absurd isDigit (by decide)

theorem scanNumber_minus (input : List Char) :
    scanNumber ('-' :: input) =
      ((scanDigits input).1.map fun value : ℕ => -(value : ℤ), (scanDigits input).2) := rfl

theorem scanNumber_of_digit {digit : Char} (isDigit : digit.isDigit = true) (input : List Char) :
    scanNumber (digit :: input) =
      ((scanDigits (digit :: input)).1.map fun value : ℕ => (value : ℤ),
        (scanDigits (digit :: input)).2) := by
  have noMinus : digit ≠ '-' := by
    rintro rfl
    exact absurd isDigit (by decide)
  have noPlus : digit ≠ '+' := by
    rintro rfl
    exact absurd isDigit (by decide)
  simp [scanNumber, noMinus, noPlus]

/-- A number without its sign starts with a digit. -/
theorem exists_toDigits (value : ℕ) :
    ∃ digit later, Nat.toDigits 10 value = digit :: later ∧ digit.isDigit = true := by
  rcases List.exists_cons_of_ne_nil (@Nat.toDigits_ne_nil value 10) with
    ⟨digit, later, isDigits⟩
  refine ⟨digit, later, isDigits, ?_⟩
  exact Nat.isDigit_of_mem_toDigits (by decide) (by decide)
    (isDigits ▸ List.mem_cons_self ..)

/-- A decimal text is read back. -/
theorem scanNumber_decimal (value : ℤ) (ended : ∀ next ∈ input.head?, next.isDigit = false) :
    scanNumber (Fields.decimal value ++ input) = (some value, input) := by
  have read := scanDigits_toDigits value.natAbs ended
  rw [Fields.decimal_eq]
  split
  · rename_i negative
    rw [List.append_assoc, List.singleton_append, scanNumber_minus, read, Option.map_some,
      Prod.mk.injEq, Option.some.injEq]
    exact ⟨by omega, rfl⟩
  · rename_i natural
    rcases exists_toDigits value.natAbs with ⟨digit, later, isDigits, isDigit⟩
    rw [isDigits, List.cons_append] at read
    rw [List.nil_append, isDigits, List.cons_append, scanNumber_of_digit isDigit, read,
      Option.map_some, Prod.mk.injEq, Option.some.injEq]
    exact ⟨by omega, rfl⟩

theorem skipSpace_decimal (value : ℤ) (input : List Char) :
    skipSpace (Fields.decimal value ++ input) = Fields.decimal value ++ input := by
  rw [Fields.decimal_eq]
  split
  · rfl
  · rcases exists_toDigits value.natAbs with ⟨digit, later, isDigits, isDigit⟩
    rw [isDigits]
    exact skipSpace_of_head (not_isSpace_of_isDigit isDigit) _

theorem scan_number (value : ℤ) (ended : ∀ next ∈ input.head?, next.isDigit = false)
    (format : List Directive) :
    scan (.number :: format) (Fields.decimal value ++ input) =
      (.number value :: (scan format input).1, (scan format input).2) := by
  rw [scan, skipSpace_decimal, scanNumber_decimal value ended]

/-- What `%s` reads is a word. -/
theorem isWord_of_mem_scan {text : List Char} (read : .word text ∈ (scan format input).1) :
    IsWord text := by
  induction format generalizing input with
  | nil => cases read
  | cons directive format ih =>
      cases directive with
      | space => exact ih read
      | literal char =>
          simp only [scan] at read
          split at read
          · cases read
          · split at read
            · exact ih read
            · cases read
      | word =>
          simp only [scan] at read
          split at read
          · cases read
          · rename_i some
            rcases List.mem_cons.mp read with same | later
            · cases same
              refine ⟨some, fun char listed => ?_⟩
              simpa using List.mem_takeWhile_imp listed
            · exact ih later
      | number =>
          simp only [scan] at read
          split at read
          · cases read
          · rcases List.mem_cons.mp read with same | later
            · cases same
            · exact ih later

end Scanning

end Scanf
