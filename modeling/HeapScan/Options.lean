import HeapScan.Library.CString
import HeapScan.Library.Scanf
import HeapScan.MessageStore.Basic

/-!
# The agent's options

`onSetOptions` reads the path, the port and the limit from the properties file with three
calls of `fscanf`, one after another on the same stream, and checks none of their results.
`%s` ends at the first white space, so a path is read back where it has none; the two later
calls start where the first has stopped.

`fopen` maps the name of a file that can be opened to the characters read from it.
-/

namespace HeapScan

open Scanf

structure AgentOptions where
  socketMsgLimit : ℤ
  port : Text
  trackerPath : Text
deriving DecidableEq

/-- The static variables of `onSetOptions`. -/
structure OptionStatics where
  outputPath : Text
  socketPort : Text
  socketMsgLimit : ℤ

def OptionStatics.initial : OptionStatics where
  outputPath := []
  socketPort := []
  socketMsgLimit := 0

/-- `PROPERTIES_FILE_NAME`. -/
def propertiesFileName : Text := "JVMHeapScan.properties".toList

def propertiesFileFN : Option Text → Text
  | some options => options ++ '\\' :: propertiesFileName
  | none => '.' :: '\\' :: propertiesFileName

def errMessage : Text := "Could not find properties file".toList

def pathFormat : Text := "Java Tracker Path:%s\n".toList
def portFormat : Text := "Default Port:%s\n".toList
def limitFormat : Text := "Socket Message Limit:%d\n".toList

/-- What a buffer of `size` bytes holds after `%s`; a longer word overruns it. -/
def storeText (size : ℕ) (buffer : Text) : List Conversion → Option Text
  | .word text :: _ => if text.length < size then some (CString.contents text) else none
  | _ => some buffer

/-- What an `int` holds after `%d`; a larger number is undefined. -/
def storeInt (unread : ℤ) : List Conversion → Option ℤ
  | .number value :: _ => if IntRange value then some value else none
  | _ => some unread

/-- The three calls of `fscanf`, and the options that are returned. -/
def readOptions (statics : OptionStatics) (propertiesFile : Text) : Option AgentOptions := do
  let (path, propertiesFile) := fscanf pathFormat propertiesFile
  let outputPath ← storeText 260 statics.outputPath path
  let (port, propertiesFile) := fscanf portFormat propertiesFile
  let socketPort ← storeText 6 statics.socketPort port
  let (limit, _) := fscanf limitFormat propertiesFile
  let socketMsgLimit ← storeInt statics.socketMsgLimit limit
  some { socketMsgLimit, port := socketPort, trackerPath := outputPath }

/--
`onSetOptions`: the options, or the message of the fatal error that ends the process.
It is `none` where a buffer is overrun, that of the file's name included.
-/
def onSetOptions (fopen : Text → Option Text) (statics : OptionStatics) (options : Option Text) :
    Option (Except Text AgentOptions) :=
  if (propertiesFileFN options).length < 260 then
    match fopen (propertiesFileFN options) with
    | none => some (.error (errMessage ++ ". '".toList ++ propertiesFileFN options ++ ['\'']))
    | some propertiesFile => (readOptions statics propertiesFile).map .ok
  else none

/-- A path, a port and a limit for which `onSetOptions` has room. -/
structure Properties where
  path : Text
  port : Text
  limit : ℤ
  pathFits : path ≠ [] ∧ path.length < 260
  portFits : port ≠ [] ∧ port.length < 6
  limitFits : IntRange limit

namespace Properties

def pathLabel : Text := "Java Tracker Path:".toList
def portLabel : Text := "Default Port:".toList
def limitLabel : Text := "Socket Message Limit:".toList

def limitLine (properties : Properties) : Text :=
  limitLabel ++ (Fields.decimal properties.limit ++ ['\n'])

def portLine (properties : Properties) : Text := portLabel ++ (properties.port ++ ['\n'])

def pathLine (properties : Properties) : Text := pathLabel ++ (properties.path ++ ['\n'])

/-- The properties file. -/
def file (properties : Properties) : Text :=
  properties.pathLine ++ properties.portLine ++ properties.limitLine

def agentOptions (properties : Properties) : AgentOptions where
  socketMsgLimit := properties.limit
  port := properties.port
  trackerPath := properties.path

end Properties

/-- No white space is in the text, and no NUL. -/
def Readable (text : Text) : Prop := ∀ char ∈ text, isSpace char = false ∧ char ≠ CString.nul

instance (text : Text) : Decidable (Readable text) :=
  decidable_of_iff (text.all fun char => !isSpace char && char != CString.nul)
    (by simp [Readable])

section Formats

open Properties

theorem directives_pathFormat :
    directives pathFormat = pathLabel.map .ofChar ++ [.word, .space] := by decide

theorem directives_portFormat :
    directives portFormat = portLabel.map .ofChar ++ [.word, .space] := by decide

theorem directives_limitFormat :
    directives limitFormat = limitLabel.map .ofChar ++ [.number, .space] := by decide

variable {text : Text}

theorem Readable.isWord (readable : Readable text) (some : text ≠ []) : IsWord text :=
  ⟨some, fun char listed => (readable char listed).1⟩

theorem Readable.contents (readable : Readable text) : CString.contents text = text :=
  CString.contents_of_not_mem fun isNul => (readable _ isNul).2 rfl

/-- What is stored of a word can be read back. -/
theorem readable_contents (isWord : IsWord text) : Readable (CString.contents text) := by
  intro char listed
  refine ⟨isWord.2 char ((List.takeWhile_sublist _).mem listed), ?_⟩
  simpa using List.mem_takeWhile_imp listed

/-- A label and a word up to white space are read, and the white space behind them. -/
theorem fscanf_word {label : Text} {format : Text} (space : Char) (rest : Text)
    (isFormat : directives format = label.map .ofChar ++ [.word, .space])
    (separated : Separated label) (isWord : IsWord text) (blank : isSpace space = true)
    (start : skipSpace rest = rest) :
    fscanf format (label ++ (text ++ space :: rest)) = ([.word text], rest) := by
  have ended : ∀ char ∈ (space :: rest).head?, isSpace char = true := by
    simpa using blank
  have skipped : skipSpace (space :: rest) = rest := by
    rw [← List.singleton_append, skipSpace_append (by simpa using blank), start]
  rw [fscanf, isFormat, scan_text separated, scan_word isWord ended]
  simp only [scan, skipped]

/-- Another first character than the label's ends the call at once. -/
theorem fscanf_mismatch {label : Text} {format : Text} {first next : Char}
    {conversions : List Directive}
    (isFormat : directives format = (first :: label).map .ofChar ++ conversions)
    (visible : isSpace first = false) (differs : next ≠ first) :
    fscanf format (next :: rest) = ([], next :: rest) := by
  rw [fscanf, isFormat, List.map_cons, List.cons_append, Directive.ofChar, visible,
    if_neg (by simp), scan_literal_mismatch differs]

theorem fscanf_limitLine (properties : Properties) :
    fscanf limitFormat properties.limitLine = ([.number properties.limit], []) := by
  rw [fscanf, directives_limitFormat, limitLine, scan_text (by decide),
    scan_number properties.limit (by simp)]
  rfl

/-- Whatever a call has read, the buffer holds a readable text. -/
theorem readable_storeText {size : ℕ} {format input buffer stored : Text}
    (isStored : storeText size buffer (fscanf format input).1 = some stored)
    (readable : Readable buffer) : Readable stored := by
  unfold storeText at isStored
  split at isStored
  · rename_i word _ conversions
    split at isStored
    · cases isStored
      exact readable_contents (isWord_of_mem_scan (conversions ▸ List.mem_cons_self ..))
    · cases isStored
  · cases isStored
    exact readable

theorem storeText_word {size : ℕ} {buffer : Text} (readable : Readable text)
    (fits : text.length < size) : storeText size buffer [.word text] = some text := by
  rw [storeText, if_pos fits, readable.contents]

end Formats

section Reading

variable {fopen : Text → Option Text} {options : Option Text} {properties : Properties}

/-- Nothing but readable texts is returned. -/
theorem readOptions_readable {propertiesFile : Text} {read : AgentOptions}
    (isRead : readOptions .initial propertiesFile = some read) :
    Readable read.trackerPath ∧ Readable read.port := by
  have empty : Readable [] := fun _ listed => absurd listed (List.not_mem_nil)
  simp only [readOptions, Option.bind_eq_bind, Option.bind_eq_some_iff] at isRead
  rcases isRead with ⟨outputPath, isPath, socketPort, isPort, socketMsgLimit, -, isOptions⟩
  cases isOptions
  exact ⟨readable_storeText isPath empty, readable_storeText isPort empty⟩

theorem readOptions_file (path : Readable properties.path) (port : Readable properties.port) :
    readOptions .initial properties.file = some properties.agentOptions := by
  have pathRead : fscanf pathFormat properties.file =
      ([.word properties.path], properties.portLine ++ properties.limitLine) := by
    have read := fscanf_word '\n' (properties.portLine ++ properties.limitLine)
      directives_pathFormat (by decide) (path.isWord properties.pathFits.1) rfl rfl
    simpa [Properties.file, Properties.pathLine] using read
  have portRead : fscanf portFormat (properties.portLine ++ properties.limitLine) =
      ([.word properties.port], properties.limitLine) := by
    have read := fscanf_word '\n' properties.limitLine directives_portFormat (by decide)
      (port.isWord properties.portFits.1) rfl rfl
    simpa [Properties.portLine] using read
  have limitStored : storeInt 0 [.number properties.limit] = some properties.limit := by
    rw [storeInt, if_pos properties.limitFits]
  simp only [readOptions, pathRead, portRead, fscanf_limitLine, Option.bind_eq_bind,
    storeText_word path properties.pathFits.2, storeText_word port properties.portFits.2,
    Option.bind_some, OptionStatics.initial, limitStored, Properties.agentOptions]

/-- Behind a blank in the path that nothing of the next line follows, nothing more is read. -/
theorem readOptions_blank {word more : Text} {next : Char}
    (isPath : properties.path = word ++ ' ' :: next :: more) (some : word ≠ [])
    (readable : Readable word) (visible : isSpace next = false) (noPort : next ≠ 'D')
    (noLimit : next ≠ 'S') :
    readOptions .initial properties.file =
      .some { trackerPath := word, port := [], socketMsgLimit := 0 } := by
  have pathRead : fscanf pathFormat properties.file = ([.word word],
      next :: (more ++ '\n' :: (properties.portLine ++ properties.limitLine))) := by
    have read := fscanf_word ' ' _ directives_pathFormat (by decide) (readable.isWord some) rfl
      (skipSpace_of_head visible
        (more ++ '\n' :: (properties.portLine ++ properties.limitLine)))
    simpa [Properties.file, Properties.pathLine, isPath] using read
  have fits : word.length < 260 := by
    have := properties.pathFits.2
    rw [isPath, List.length_append] at this
    omega
  simp only [readOptions, pathRead, Option.bind_eq_bind, storeText_word readable fits,
    Option.bind_some, fscanf_mismatch directives_portFormat rfl noPort,
    fscanf_mismatch directives_limitFormat rfl noLimit]
  rfl

/--
The properties are read back exactly where neither the path nor the port has white space or
NUL, and the name of the file fits its buffer.
-/
theorem onSetOptions_reads_iff (found : fopen (propertiesFileFN options) = some properties.file) :
    onSetOptions fopen .initial options = some (.ok properties.agentOptions) ↔
      (propertiesFileFN options).length < 260 ∧ Readable properties.path ∧
        Readable properties.port := by
  unfold onSetOptions
  split
  · rename_i short
    rw [found]
    constructor
    · intro isRead
      rcases Option.map_eq_some_iff.1 isRead with ⟨read, isRead, same⟩
      cases same
      exact ⟨short, readOptions_readable isRead⟩
    · rintro ⟨-, path, port⟩
      simp only [readOptions_file path port, Option.map_some]
  · rename_i long
    simp [long]

end Reading

section Installed

/-- The properties file is in the working directory. -/
def installed (properties : Properties) (name : Text) : Option Text :=
  if name = propertiesFileFN none then some properties.file else none

/-- The properties that come with the agent. -/
def sampleProperties : Properties where
  path := "E:\\Workspace\\HeapAnalyserSamples\\bin".toList
  port := "5984".toList
  limit := 1000000
  pathFits := by decide
  portFits := by decide
  limitFits := by decide

theorem onSetOptions_reads_iff_sample :
    onSetOptions (installed sampleProperties) .initial none =
        some (.ok sampleProperties.agentOptions) ↔
      (propertiesFileFN none).length < 260 ∧ Readable sampleProperties.path ∧
        Readable sampleProperties.port :=
  onSetOptions_reads_iff (if_pos rfl)

def blankProperties : Properties where
  path := "C:\\Program Files\\HeapScan".toList
  port := "5984".toList
  limit := 100000
  pathFits := by decide
  portFits := by decide
  limitFits := by decide

/-- Of a path with a blank the first word is returned, no port, and a limit that splits nothing. -/
theorem onSetOptions_blank :
    onSetOptions (installed blankProperties) .initial none =
        some (.ok { trackerPath := "C:\\Program".toList, port := [], socketMsgLimit := 0 }) ∧
      onSetOptions (installed blankProperties) .initial none ≠
        some (.ok blankProperties.agentOptions) ∧
      (onInitialize (α := Text) 0).isToBeSplit = false ∧
      (onInitialize (α := Text) blankProperties.limit).isToBeSplit = true := by
  have read := @readOptions_blank blankProperties "C:\\Program".toList "iles\\HeapScan".toList 'F'
    (by decide) (by decide) (by decide) (by decide) (by decide) (by decide)
  have returned : onSetOptions (installed blankProperties) .initial none =
      some (.ok { trackerPath := "C:\\Program".toList, port := [], socketMsgLimit := 0 }) := by
    rw [onSetOptions, if_pos (by decide), installed, if_pos rfl]
    simp only [read, Option.map_some]
  refine ⟨returned, ?_, rfl, rfl⟩
  rw [returned]
  intro same
  have lengths := congrArg AgentOptions.trackerPath (Except.ok.inj (Option.some.inj same))
  exact absurd lengths (by decide)

end Installed

end HeapScan
