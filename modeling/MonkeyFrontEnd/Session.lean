import MonkeyFrontEnd.Diagnostic.Report
import MonkeyFrontEnd.Grammar.Program
import MonkeyFrontEnd.ReadFailure
import MonkeyFrontEnd.Text.Pieces
import MonkeyFrontEnd.Token.Listing

/-!
Interactive sessions.  Before each line a prompt is written, and after it what the line stands for:
its tokens, or its program, or the reports of what was wrong with it.  Each line is a text of its
own.  A session ends with its input, at the first line that is not a text, or at the first report
that cannot be written.
-/

namespace MonkeyFrontEnd.Session

/-- What is written about a line. -/
inductive Mode where
  | tokens
  | ast
  deriving DecidableEq, Repr

def Mode.name : Mode → String
  | tokens => "tokens"
  | ast => "ast"

def Mode.ofName? (name : String) : Option Mode :=
  if name = "tokens" then some .tokens else if name = "ast" then some .ast else none

def prompt : String := ">> "

def greeting (user : String) : String := "Monkey-Language by MKTP called by " ++ user

/-- The tokens of a line, one to a line, without the end of the input. -/
def tokenDump (line : String) : String :=
  let (tokens, _) := TokenSource.drain (Scanner.ofString line Scanner.defaultFile)
  String.join (tokens.map fun t => t.display ++ "\n")

/-- What was written, and why not all of it. -/
structure Answer where
  written : String
  fault? : Option Diagnostic.ReportFault
  deriving DecidableEq, Repr

/-- Reports on a source, one after the other, up to the first that cannot be written. -/
def reports (source : String) : List Diagnostic → Answer
  | [] => ⟨"", none⟩
  | d :: rest =>
    match d.report source with
    | .error fault => ⟨"", some fault⟩
    | .ok shown =>
      let later := reports source rest
      ⟨shown ++ "\n" ++ later.written, later.fault?⟩

/-- The program of a line if nothing was wrong with it, else the reports. -/
def programDump (line : String) : Answer :=
  let (program, parser) := parseText line Scanner.defaultFile
  if parser.diagnostics.isEmpty then ⟨program.render ++ "\n", none⟩
  else reports line parser.diagnostics.toList

/-- What is written about one line. -/
def answer (mode : Mode) (line : String) : Answer :=
  match mode with
  | .tokens => ⟨tokenDump line, none⟩
  | .ast => programDump line

def newline : UInt8 := 10

def carriageReturn : UInt8 := 13

/-- A line without the newline that ends it and without a carriage return before that newline.  A
carriage return at the end of the input stays. -/
def chomp (line : List UInt8) : List UInt8 :=
  if line.getLast? = some newline then
    let shorter := line.dropLast
    if shorter.getLast? = some carriageReturn then shorter.dropLast else shorter
  else line

/-- The lines of an input, without their ends. -/
def inputLines (bytes : List UInt8) : List (List UInt8) := (Text.pieces newline bytes).map chomp

/-- Why a session has ended. -/
inductive Ending where
  /-- Its input was closed. -/
  | closed
  | unreadable (failure : ReadFailure)
  | aborted (fault : Diagnostic.ReportFault)
  deriving DecidableEq, Repr

/-- What is written about lines, in order, and why the session has ended. -/
def transcript (mode : Mode) : List (List UInt8) → List String × Ending
  | [] => ([prompt], .closed)
  | line :: rest =>
    match readText ⟨line.toArray⟩ with
    | .error failure => ([prompt], .unreadable failure)
    | .ok text =>
      let answer := answer mode text
      match answer.fault? with
      | some fault => ([prompt, answer.written], .aborted fault)
      | none =>
        let (later, ending) := transcript mode rest
        (prompt :: answer.written :: later, ending)

/-- All that a session writes, and why it has ended. -/
def run (mode : Mode) (input : ByteArray) : String × Ending :=
  let (written, ending) := transcript mode (inputLines input.toList)
  (String.join written, ending)

end MonkeyFrontEnd.Session
