import HeapScan.Library.CString
import HeapScan.Library.Fields
import HeapScan.Tagging.Basic

/-!
# The texts of the messages

A message is printed as decimal fields between delimiters, into a buffer whose
size has been added up field by field.  Sizes count the digits of a `jlong`, and
where one is printed as a `long` with 32 bits the text agrees only in range.
-/

namespace HeapScan

section Numbers

theorem long_eq {value : ℤ} (inRange : IntRange value) : long value = value := by
  rcases inRange with ⟨lower, upper⟩
  exact Int.bmod_eq_of_le (by omega) (by omega)

/-- A cast to `long` lands in range. -/
theorem long_lt (value : ℤ) : long value < 2 ^ 31 := by
  have bound := @Int.bmod_lt value (2 ^ 32) (by decide)
  rw [long]
  omega

/-- The loop counts the digits behind the first one. -/
theorem countDigits_eq {fuel value : ℕ} (enough : value ≤ fuel) :
    countDigits fuel value + 1 = (Nat.toDigits 10 value).length := by
  induction fuel generalizing value with
  | zero =>
      rw [Fields.length_toDigits_of_small (by omega)]
      rfl
  | succ fuel ih =>
      rw [countDigits]
      split
      · rename_i large
        rw [Fields.length_toDigits large, Int.natCast_add, ← ih (by omega)]
        rfl
      · rename_i small
        rw [Fields.length_toDigits_of_small (by omega)]
        rfl

/-- `getChars` is the length of the decimal text. -/
theorem getChars_eq (value : ℤ) : getChars value = (decimal value).length := by
  have digits := countDigits_eq (Nat.le_refl value.natAbs)
  have isText : decimal value = _ := Fields.decimal_eq value
  rw [getChars, isText, List.length_append, Int.natCast_add, ← digits]
  split
  · simp only [List.length_singleton]
    omega
  · simp only [List.length_nil]
    omega

theorem decimal_read (value : ℤ) : Fields.read (decimal value) = some value :=
  Fields.read_decimal value

theorem delimiter_not_mem_decimal (value : ℤ) : '|' ∉ decimal value :=
  Fields.not_mem_decimal (by decide) (by decide) value

theorem nul_not_mem_decimal (value : ℤ) : CString.nul ∉ decimal value :=
  Fields.not_mem_decimal (by decide) (by decide) value

end Numbers

/-- The size that is allocated is that of the text and its NUL. -/
def AgentMsg.Exact (msg : AgentMsg) : Prop := msg.totalSz = msg.text.length + 1

section TagMsgs

/-- What the text of a tag message says. -/
inductive TagFields where
  | classTag (classSign : Text) (tag : ℤ)
  | objectTag (tag objectClassTag : ℤ)
  | deallocateObject (tag : ℤ)
deriving DecidableEq

namespace AgentMsg

def tagFields : AgentMsg → Option TagFields
  | .classTag _ classSign tag => some (.classTag classSign tag)
  | .objectTag _ tag objectClassTag => some (.objectTag tag objectClassTag)
  | .deallocateObject _ tag => some (.deallocateObject tag)
  | .heapRefInfo .. => none

/-- A tag message as the agent makes them: 32-bit tags, and a C string for a signature. -/
def IsTagMsg : AgentMsg → Prop
  | .classTag _ classSign tag => CString.nul ∉ classSign ∧ IntRange tag
  | .objectTag _ tag objectClassTag => IntRange tag ∧ IntRange objectClassTag
  | .deallocateObject _ tag => IntRange tag
  | .heapRefInfo .. => False

end AgentMsg

/--
Read a tag message: its code stands before the first delimiter, a tag behind the
last one, and whatever is between them may contain delimiters.
-/
def decodeTagMsg (text : Text) : Option TagFields := do
  let code ← Fields.read (Fields.first '|' text)
  let tag ← Fields.read (Fields.last '|' text)
  let between := Fields.butLast '|' (Fields.rest '|' text)
  if code = messageCodeClassTag then some (.classTag between tag)
  else if code = messageCodeObjectTag then do
    let objectTag ← Fields.read between
    some (.objectTag objectTag tag)
  else if code = messageCodeDeallocateObject then some (.deallocateObject tag)
  else none

/-- A text of three fields, the first and the last of them numbers. -/
theorem three_fields (code : ℤ) (between : Text) (tag : ℤ) :
    let text := List.intercalate msgDelimiter [decimal code, between, decimal tag]
    Fields.first '|' text = decimal code ∧ Fields.last '|' text = decimal tag ∧
      Fields.butLast '|' (Fields.rest '|' text) = between := by
  intro text
  have fromFirst : text = decimal code ++ '|' :: (between ++ '|' :: decimal tag) := by
    simp [text, msgDelimiter, List.intercalate]
  have fromLast : text = (decimal code ++ '|' :: between) ++ '|' :: decimal tag := by
    simp [fromFirst]
  have code_free := delimiter_not_mem_decimal code
  have tag_free := delimiter_not_mem_decimal tag
  refine ⟨?_, ?_, ?_⟩
  · rw [fromFirst, Fields.first_append code_free]
  · rw [fromLast, Fields.last_append tag_free]
  · rw [fromFirst, Fields.rest_append code_free, Fields.butLast_append tag_free]

theorem two_fields (code tag : ℤ) :
    let text := List.intercalate msgDelimiter [decimal code, decimal tag]
    Fields.first '|' text = decimal code ∧ Fields.last '|' text = decimal tag := by
  intro text
  have fields : text = decimal code ++ '|' :: decimal tag := by
    simp [text, msgDelimiter, List.intercalate]
  constructor
  · rw [fields, Fields.first_append (delimiter_not_mem_decimal code)]
  · rw [fields, Fields.last_append (delimiter_not_mem_decimal tag)]

theorem AgentMsg.IsTagMsg.exact {msg : AgentMsg} (isTag : msg.IsTagMsg) : msg.Exact := by
  cases msg with
  | classTag cls classSign tag =>
      simp only [Exact, text, totalSz, long_eq isTag.2, getChars_eq, msgDelimiter,
        List.intercalate_cons_cons, List.intercalate_singleton, List.length_append,
        List.length_singleton]
      omega
  | objectTag object tag objectClassTag =>
      simp only [Exact, text, totalSz, objectTagSize, long_eq isTag.1, long_eq isTag.2,
        getChars_eq, msgDelimiter, List.intercalate_cons_cons, List.intercalate_singleton,
        List.length_append, List.length_singleton]
      omega
  | deallocateObject object tag =>
      have inRange : IntRange tag := isTag
      simp only [Exact, text, totalSz, freeTagSize, long_eq inRange, getChars_eq, msgDelimiter,
        List.intercalate_cons_cons, List.intercalate_singleton, List.length_append,
        List.length_singleton]
      omega
  | heapRefInfo => exact isTag.elim

/-- The only NUL behind the text is the one that ends it. -/
theorem AgentMsg.IsTagMsg.strlen_eq {msg : AgentMsg} (isTag : msg.IsTagMsg) :
    CString.strlen (msg.text ++ [CString.nul]) = msg.text.length := by
  have delimiter : CString.nul ∉ msgDelimiter := by decide
  have nulFree : CString.nul ∉ msg.text := by
    cases msg with
    | classTag cls classSign tag =>
        simp only [text, List.intercalate_cons_cons, List.intercalate_singleton,
          List.mem_append, not_or]
        exact ⟨⟨nul_not_mem_decimal _, delimiter⟩, ⟨isTag.1, delimiter⟩, nul_not_mem_decimal _⟩
    | objectTag object tag objectClassTag =>
        simp only [text, List.intercalate_cons_cons, List.intercalate_singleton,
          List.mem_append, not_or]
        exact ⟨⟨nul_not_mem_decimal _, delimiter⟩, ⟨nul_not_mem_decimal _, delimiter⟩,
          nul_not_mem_decimal _⟩
    | deallocateObject object tag =>
        simp only [text, List.intercalate_cons_cons, List.intercalate_singleton,
          List.mem_append, not_or]
        exact ⟨⟨nul_not_mem_decimal _, delimiter⟩, nul_not_mem_decimal _⟩
    | heapRefInfo => exact isTag.elim
  rw [CString.strlen, CString.contents_append_nul nulFree]

theorem AgentMsg.IsTagMsg.decode_eq {msg : AgentMsg} (isTag : msg.IsTagMsg) :
    decodeTagMsg msg.text = msg.tagFields := by
  cases msg with
  | classTag cls classSign tag =>
      rcases three_fields messageCodeClassTag classSign tag with ⟨code, last, between⟩
      simp only [decodeTagMsg, text, tagFields, code, last, between, decimal_read,
        long_eq isTag.2]
      rfl
  | objectTag object tag objectClassTag =>
      rcases three_fields messageCodeObjectTag (decimal tag) objectClassTag with
        ⟨code, last, between⟩
      simp only [decodeTagMsg, text, tagFields, code, last, between, decimal_read,
        long_eq isTag.1, long_eq isTag.2]
      rfl
  | deallocateObject object tag =>
      have inRange : IntRange tag := isTag
      rcases two_fields messageCodeDeallocateObject tag with ⟨code, last⟩
      simp only [decodeTagMsg, text, tagFields, code, last, decimal_read, long_eq inRange]
      rfl
  | heapRefInfo => exact isTag.elim

end TagMsgs

section HeapRef

/-- Read a `HEAP_REF_INFO` message: a number in each of its fields. -/
def decodeHeapRefInfo (text : Text) : List (Option ℤ) := (text.splitOn '|').map Fields.read

namespace HeapRefInfo

/-- The message code and the eight values, in the order in which they are printed. -/
def values (info : HeapRefInfo) : List ℤ :=
  [messageCodeHeapRefInfo, info.referenceKind, info.index, info.classTag, info.referrerClassTag,
    info.tag, info.referrerTag, info.length, info.size]

/-- The values as the casts to `int` and `long` print them, for tags of the 32-bit counter. -/
def printed (info : HeapRefInfo) : List ℤ :=
  [messageCodeHeapRefInfo, info.referenceKind, info.index, info.classTag, info.referrerClassTag,
    info.tag, info.referrerTag, info.length, long info.size]

/-- All four tags are in the range of the counter. -/
def TagsInRange (info : HeapRefInfo) : Prop :=
  IntRange info.classTag ∧ IntRange info.referrerClassTag ∧ IntRange info.tag ∧
    IntRange info.referrerTag

instance (info : HeapRefInfo) : Decidable info.TagsInRange :=
  inferInstanceAs (Decidable (_ ∧ _ ∧ _ ∧ _))

end HeapRefInfo

variable {referent : Entity} {referrer : Option Entity} {info : HeapRefInfo}

theorem heapRefInfo_text (inRange : info.TagsInRange) :
    (AgentMsg.heapRefInfo referent referrer info).text =
      List.intercalate ['|'] (info.printed.map decimal) := by
  rcases inRange with ⟨classTag, referrerClassTag, tag, referrerTag⟩
  simp only [AgentMsg.text, HeapRefInfo.printed, List.map_cons, List.map_nil, long_eq classTag,
    long_eq referrerClassTag, long_eq tag, long_eq referrerTag, msgDelimiter]

/-- Splitting gives back what was printed. -/
theorem decode_heapRefInfo (inRange : info.TagsInRange) :
    decodeHeapRefInfo (AgentMsg.heapRefInfo referent referrer info).text =
      info.printed.map some := by
  have free : ∀ field ∈ info.printed.map decimal, '|' ∉ field := by
    intro field listed
    rcases List.mem_map.mp listed with ⟨value, -, rfl⟩
    exact delimiter_not_mem_decimal value
  rw [heapRefInfo_text inRange, decodeHeapRefInfo,
    List.splitOn_intercalate '|' free (by simp [HeapRefInfo.printed]), List.map_map]
  exact List.map_congr_left fun value _ => decimal_read value

/-- The buffer is right up to the digits of the size. -/
theorem heapRefInfo_length (inRange : info.TagsInRange) :
    ((AgentMsg.heapRefInfo referent referrer info).text.length : ℤ) + 1 + getChars info.size =
      (AgentMsg.heapRefInfo referent referrer info).totalSz + getChars (long info.size) := by
  rw [heapRefInfo_text inRange]
  simp only [AgentMsg.totalSz, heapRefDtlSize, getChars_eq, HeapRefInfo.printed, List.map_cons,
    List.map_nil, List.intercalate_cons_cons, List.intercalate_singleton, List.length_append,
    List.length_singleton]
  omega

/--
The buffer of a `HEAP_REF_INFO` message has the size of its text and a NUL, and the text
is read back as the nine values, exactly for objects of less than 2 GB.
-/
theorem heapRefInfo_exact_iff (referent : Entity) (referrer : Option Entity) (info : HeapRefInfo)
    (inRange : info.TagsInRange) (natural : 0 ≤ info.size) :
    ((AgentMsg.heapRefInfo referent referrer info).Exact ∧
        decodeHeapRefInfo (AgentMsg.heapRefInfo referent referrer info).text =
          info.values.map some) ↔
      info.size < 2 ^ 31 := by
  constructor
  · rintro ⟨-, decoded⟩
    rw [decode_heapRefInfo inRange] at decoded
    have sameSize : long info.size = info.size := by
      simpa [HeapRefInfo.printed, HeapRefInfo.values] using decoded
    exact sameSize ▸ long_lt info.size
  · intro small
    have sameSize : long info.size = info.size := long_eq ⟨by omega, small⟩
    constructor
    · have lengths := @heapRefInfo_length referent referrer info inRange
      rw [sameSize] at lengths
      rw [AgentMsg.Exact]
      omega
    · rw [decode_heapRefInfo inRange, HeapRefInfo.printed, sameSize]
      rfl

/-- An array element of the largest size that is printed right. -/
theorem heapRefInfo_exact_largest :
    let info : HeapRefInfo :=
      { referenceKind := 3, index := -1, classTag := 1, referrerClassTag := -2147483648, tag := 2,
        referrerTag := 0, length := 5, size := 2147483647 }
    ((AgentMsg.heapRefInfo 0 none info).Exact ∧
        decodeHeapRefInfo (AgentMsg.heapRefInfo 0 none info).text = info.values.map some) ↔
      info.size < 2 ^ 31 :=
  heapRefInfo_exact_iff 0 none _ (by decide) (by decide)

/-- An object of 2 GB is printed with a negative size, one character beyond the buffer. -/
theorem heapRefInfo_overruns :
    let info : HeapRefInfo :=
      { referenceKind := 3, index := 0, classTag := 1, referrerClassTag := 1, tag := 2,
        referrerTag := 3, length := 2147483632, size := 2147483648 }
    let msg := AgentMsg.heapRefInfo 0 (some 1) info
    msg.totalSz < msg.text.length + 1 ∧ ¬msg.Exact ∧
      decodeHeapRefInfo msg.text ≠ info.values.map some := by
  intro info msg
  have inRange : info.TagsInRange := by decide
  have printedSize : long info.size = -2147483648 := by decide
  have chars : getChars info.size = 10 := by decide
  have printedChars : getChars (-2147483648) = 11 := by decide
  have lengths : (msg.text.length : ℤ) + 1 + getChars info.size =
      msg.totalSz + getChars (long info.size) := heapRefInfo_length inRange
  rw [printedSize, chars, printedChars] at lengths
  have overrun : msg.totalSz < msg.text.length + 1 := by omega
  refine ⟨overrun, fun exact => ?_, ?_⟩
  · rw [AgentMsg.Exact] at exact
    omega
  · rw [decode_heapRefInfo inRange]
    decide

end HeapRef

end HeapScan
