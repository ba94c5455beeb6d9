import MonkeyFrontEnd.CommandLine.Run

/-!
The program.  It decides nothing that the command line of the library does not decide: it reads the
file or the lines of the session, and writes what comes of them.  A session is held line by line, so
each answer is seen before the next line is typed.
-/

namespace MonkeyFrontEnd

/-- The bytes of a line with the newline that ends it, none at the end of the input. -/
partial def readLine (input : IO.FS.Stream) (line : List UInt8) : IO (List UInt8) := do
  let byte ← input.read 1
  match byte.toList with
  | [] => return line.reverse
  | b :: _ => if b = Session.newline then return (b :: line).reverse else readLine input (b :: line)

/-- Hold a session on lines that are read when they are due. -/
partial def converse (mode : Session.Mode) (input output : IO.FS.Stream) : IO Session.Ending := do
  output.putStr Session.prompt
  output.flush
  match ← readLine input [] with
  | [] => return .closed
  | line =>
    match readText ⟨(Session.chomp line).toArray⟩ with
    | .error failure => return .unreadable failure
    | .ok text =>
      let answer := Session.answer mode text
      output.putStr answer.written
      match answer.fault? with
      | some fault => return .aborted fault
      | none => converse mode input output

/-- The contents of a file, or why it could not be read. -/
def readContents (path : String) : IO (Except ReadFailure ByteArray) := do
  try
    return .ok (← IO.FS.readBinFile path)
  catch e =>
    match e with
    | .noFileOrDirectory .. => return .error .missing
    | .inappropriateType _ code _ =>
      -- The system gives 21 for a directory in the place of a file, another number for the reverse.
      return .error (if code = 21 then .isDirectory else .notDirectory)
    | .permissionDenied .. => return .error (.other "Permission denied (os error 13)")
    | .invalidArgument _ code reason =>
      -- The number comes with either sign.
      return .error (if code = 36 ∨ code = -36 then .nameTooLong else .other reason)
    | other => return .error (.other (toString other))

/-- Write an outcome and give its code. -/
def finish (outcome : CommandLine.Outcome) : IO UInt32 := do
  (← IO.getStdout).putStr outcome.stdout
  match outcome.log with
  | some line => (← IO.getStderr).putStrLn line
  | none => pure ()
  (← IO.getStderr).putStr outcome.stderr
  return outcome.code.toUInt32

end MonkeyFrontEnd

open MonkeyFrontEnd in
def main (args : List String) : IO UInt32 := do
  match CommandLine.Options.read args with
  | .error refusal =>
    let outcome := CommandLine.refuse refusal
    if outcome.code ≠ 0 then (← IO.getStderr).putStr CommandLine.usage
    finish outcome
  | .ok options =>
    match options.file with
    | some path => finish (CommandLine.parseFile path (← readContents path))
    | none =>
      let output ← IO.getStdout
      let user := (← IO.getEnv "USER").getD CommandLine.unknownUser
      output.putStrLn (Session.greeting user)
      match ← converse options.mode (← IO.getStdin) output with
      | .closed => return 0
      | .unreadable failure => finish (CommandLine.failed "" failure.message none)
      | .aborted _ => finish (CommandLine.aborted "" "" none)
