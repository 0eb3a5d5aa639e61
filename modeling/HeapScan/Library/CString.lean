import Mathlib.Data.Int.Notation
import Mathlib.Data.List.TakeWhile

/-!
# C strings in buffers

A buffer is the list of characters written to it from its start on.  Printing
into it at a position fails where the text and its NUL do not fit into the room
that is passed, as `sprintf_s` does, and writes both otherwise.
-/

namespace CString

/-- The terminating character. -/
def nul : Char := Char.ofNat 0

/-- The text that a reader of the buffer finds, up to the first NUL. -/
def contents (buffer : List Char) : List Char := buffer.takeWhile (· ≠ nul)

def strlen (buffer : List Char) : ℕ := (contents buffer).length

/-- Print `text` at `position`: the buffer and the number of characters before the NUL. -/
def sprintfS (buffer : List Char) (position : ℕ) (room : ℤ) (text : List Char) :
    Option (List Char × ℕ) :=
  if (text.length : ℤ) + 1 ≤ room then
    some (buffer.take position ++ text ++ nul :: buffer.drop (position + text.length + 1),
      text.length)
  else none

theorem contents_of_not_mem {text : List Char} (nulFree : nul ∉ text) : contents text = text := by
  rw [contents, List.takeWhile_eq_self_iff]
  intro char listed
  exact decide_eq_true fun isNul => nulFree (isNul ▸ listed)

/-- What is read has no NUL. -/
theorem nul_not_mem_contents (buffer : List Char) : nul ∉ contents buffer := fun listed => by
  simpa using List.mem_takeWhile_imp listed

/-- A text written with its NUL is read back. -/
theorem contents_append_nul {text : List Char} (nulFree : nul ∉ text) :
    contents (text ++ [nul]) = text := by
  have isText := contents_of_not_mem nulFree
  rw [contents] at isText ⊢
  rw [List.takeWhile_append, isText, if_pos rfl]
  simp

/-- Printing at the end of what is written appends, where it fits. -/
theorem sprintfS_append {written text : List Char} {room : ℤ}
    (fits : (text.length : ℤ) + 1 ≤ room) :
    sprintfS (written ++ [nul]) written.length room text =
      some ((written ++ text) ++ [nul], text.length) := by
  have rest : (written ++ [nul]).drop (written.length + text.length + 1) = [] :=
    List.drop_eq_nil_of_le (by simp only [List.length_append, List.length_singleton]; omega)
  rw [sprintfS, if_pos fits, rest, List.take_left]

/-- A text for which there is no room is not printed. -/
theorem sprintfS_eq_none {buffer text : List Char} {position : ℕ} {room : ℤ}
    (tight : ¬(text.length : ℤ) + 1 ≤ room) : sprintfS buffer position room text = none :=
  if_neg tight

/-- The first print into a buffer just allocated. -/
theorem sprintfS_start {text : List Char} {room : ℤ} (fits : (text.length : ℤ) + 1 ≤ room) :
    sprintfS [] 0 room text = some (text ++ [nul], text.length) := by
  rw [sprintfS, if_pos fits]
  simp

end CString
