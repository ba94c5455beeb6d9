import MonkeyFrontEnd.Session

/-!
The options of the command line, read from its words.  An option has a long and a short name and may
carry its value in the same word (`--mode=ast`, `-mast`, `-m=ast`) or in the next one, which then may
not look like an option itself.

A value in a word of its own is judged when the next option is met or the words end.  A word that
the command line does not know is refused at once.
-/

namespace MonkeyFrontEnd.CommandLine

structure Options where
  mode : Session.Mode := .tokens
  /-- The file to parse; without one a session is held. -/
  file : Option String := none
  deriving DecidableEq, Repr

/-- Why no options were read: a fault, or a wish to see the help or the version only. -/
inductive Refusal where
  /-- A value is missing, empty or not allowed. -/
  | invalidValue
  | unknownArgument
  /-- An option stands twice. -/
  | argumentConflict
  /-- An option that takes no value was given one. -/
  | tooManyValues
  | displayHelp
  | displayVersion
  deriving DecidableEq, Repr

/-- Options that take a value. -/
inductive Setting where
  | mode
  | file
  deriving DecidableEq, Repr

inductive Flag where
  | setting (s : Setting)
  | help
  | version
  deriving DecidableEq, Repr

def Flag.ofLong? (name : String) : Option Flag :=
  match name with
  | "mode" => some (.setting .mode)
  | "file" => some (.setting .file)
  | "help" => some .help
  | "version" => some .version
  | _ => none

def Flag.ofShort? (name : Char) : Option Flag :=
  match name with
  | 'm' => some (.setting .mode)
  | 'f' => some (.setting .file)
  | 'h' => some .help
  | 'V' => some .version
  | _ => none

/-- What the words read so far amount to. -/
structure Reading where
  mode : Option Session.Mode := none
  file : Option String := none
  /-- A setting whose value stands in a word of its own, and that word if it was read. -/
  pending : Option (Setting × Option String) := none
  deriving DecidableEq, Repr

namespace Reading

/-- Give a setting its value. -/
def assign (r : Reading) (setting : Setting) (value : String) : Except Refusal Reading :=
  match setting with
  | .mode =>
    if r.mode.isSome then .error .argumentConflict
    else match Session.Mode.ofName? value with
      | some mode => .ok { r with mode := some mode }
      | none => .error .invalidValue
  | .file =>
    if r.file.isSome then .error .argumentConflict
    else if value.isEmpty then .error .invalidValue
    else .ok { r with file := some value }

/-- Judge the value of the pending setting. -/
def settle (r : Reading) : Except Refusal Reading :=
  match r.pending with
  | none => .ok r
  | some (_, none) => .error .invalidValue
  | some (setting, some value) => { r with pending := none }.assign setting value

/-- Take in an option, with the value that its own word holds, if any. -/
def flag (r : Reading) (flag : Flag) (attached : Option String) : Except Refusal Reading :=
  match flag, attached with
  | .setting setting, some value => do (← r.settle).assign setting value
  | .setting setting, none => do return { ← r.settle with pending := some (setting, none) }
  | .help, none => do
    let _ ← r.settle
    throw .displayHelp
  | .version, none => do
    let _ ← r.settle
    throw .displayVersion
  | .help, some _ => .error .tooManyValues
  | .version, some _ => .error .tooManyValues

/-- A word behind two dashes: the name of an option, and behind an equals sign its value. -/
def long (r : Reading) (word : List Char) : Except Refusal Reading :=
  let name := word.takeWhile (· ≠ '=')
  let attached := match word.dropWhile (· ≠ '=') with
    | [] => none
    | _ :: value => some (String.ofList value)
  match Flag.ofLong? (String.ofList name) with
  | some flag => r.flag flag attached
  | none => .error .unknownArgument

/-- A word behind one dash: the letter of an option, and then its value.  An option that takes no
value ends the reading, so no further letters are looked at. -/
def short (r : Reading) (letter : Char) (rest : List Char) : Except Refusal Reading :=
  match Flag.ofShort? letter with
  | some (.setting setting) =>
    r.flag (.setting setting) (match rest with
      | [] => none
      | '=' :: value => some (String.ofList value)
      | value => some (String.ofList value))
  | some flag => r.flag flag none
  | none => .error .unknownArgument

/-- A word that is no option: the value that a pending setting waits for. -/
def value (r : Reading) (word : List Char) : Except Refusal Reading :=
  match r.pending with
  | some (setting, none) => .ok { r with pending := some (setting, some (String.ofList word)) }
  | _ => .error .unknownArgument

/-- Read words up to the end.  Behind two dashes alone no word is an option, nor a value. -/
def words (r : Reading) : List (List Char) → Except Refusal Reading
  | [] => r.settle
  | ['-', '-'] :: rest => if rest.isEmpty then r.settle else .error .unknownArgument
  | ('-' :: '-' :: word) :: rest => do (← r.long word).words rest
  | ('-' :: letter :: word) :: rest => do (← r.short letter word).words rest
  | word :: rest => do (← r.value word).words rest

end Reading

/-- The options that the words of a command line ask for. -/
def Options.read (args : List String) : Except Refusal Options := do
  let r ← Reading.words {} (args.map String.toList)
  return { mode := r.mode.getD .tokens, file := r.file }

end MonkeyFrontEnd.CommandLine
