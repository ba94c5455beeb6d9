import MonkeyFrontEnd.CommandLine.Folder
import MonkeyFrontEnd.CommandLine.Options

/-!
Running a command line: what is written and the code with which it ends.  A file is parsed and its
program written, or the reports of what was wrong with it; without a file a session is held.  A report
that cannot be written aborts the program.
-/

namespace MonkeyFrontEnd.CommandLine

structure Outcome where
  code : Nat
  stdout : String
  stderr : String
  /-- The log line of a file that was read. -/
  log : Option String
  deriving DecidableEq, Repr

def version : String := "monkey 0.1.0"

def usage : String :=
  "Usage: monkey [--mode tokens|ast] [--file FILE]\n\n" ++
  "  -m, --mode  what a session writes about a line: its tokens or its program\n" ++
  "  -f, --file  parse this file and write its program\n" ++
  "  -h, --help\n" ++
  "  -V, --version\n"

/-- The user who is greeted where nobody is named. -/
def unknownUser : String := "unknown"

def failed (stdout message : String) (log : Option String) : Outcome :=
  ⟨1, stdout, "Error: " ++ message ++ "\n", log⟩

/-- The outcome of a program that was aborted, less the text in which its runtime says so. -/
def aborted (stdout stderr : String) (log : Option String) : Outcome := ⟨101, stdout, stderr, log⟩

def unreadable (path : String) (failure : ReadFailure) : Outcome :=
  failed "" ("failed to read " ++ path ++ "\n\nCaused by:\n    " ++ failure.message) none

/-- Parse a file that was read.  Its diagnostics name it by the last step of its path. -/
def parseSource (path source : String) : Outcome :=
  let (program, parser) := parseText source ((fileName? path).getD Scanner.defaultFile)
  let log := some ("parsed " ++ toString program.statements.length ++ " statements")
  let diagnostics := parser.diagnostics.toList
  if diagnostics.isEmpty then ⟨0, program.render ++ "\n", "", log⟩
  else
    let told := Session.reports source diagnostics
    match told.fault? with
    | some _ => aborted "" told.written log
    | none =>
      let outcome := failed "" (toString diagnostics.length ++ " parse error(s) in " ++ path) log
      { outcome with stderr := told.written ++ outcome.stderr }

/-- Parse what reading a file gave. -/
def parseFile (path : String) (contents : Except ReadFailure ByteArray) : Outcome :=
  match contents.bind readText with
  | .ok source => parseSource path source
  | .error failure => unreadable path failure

def holdSession (mode : Session.Mode) (user : String) (stdin : ByteArray) : Outcome :=
  let (written, ending) := Session.run mode stdin
  let stdout := Session.greeting user ++ "\n" ++ written
  match ending with
  | .closed => ⟨0, stdout, "", none⟩
  | .unreadable failure => failed stdout failure.message none
  | .aborted _ => aborted stdout "" none

/-- What is written instead of running, where no options were read. -/
def refuse : Refusal → Outcome
  | .displayHelp => ⟨0, usage, "", none⟩
  | .displayVersion => ⟨0, version ++ "\n", "", none⟩
  | _ => ⟨2, "", "", none⟩

def run (args : List String) (folder : Folder) (stdin : ByteArray) (user : Option String) : Outcome :=
  match Options.read args with
  | .error refusal => refuse refusal
  | .ok options =>
    match options.file with
    | some path => parseFile path (folder.read path)
    | none => holdSession options.mode (user.getD unknownUser) stdin

end MonkeyFrontEnd.CommandLine
