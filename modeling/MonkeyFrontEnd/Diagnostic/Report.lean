import MonkeyFrontEnd.Diagnostic
import MonkeyFrontEnd.Text.Blank
import MonkeyFrontEnd.Text.Line

/-!
Reports: a diagnostic as a user sees it, with the source line it refers to and a caret below.  The
printed line loses its leading spaces, which are sliced off by their number, and its trailing blanks,
and the caret moves left by as many columns as there were leading spaces.  A column counts bytes.  A
diagnostic whose offset lies past the end of the source is reported without a line.

Not every diagnostic can be reported: a slice has to fall between two characters, and a text can be
padded to a limited number of columns only.
-/

namespace MonkeyFrontEnd.Diagnostic

/-- Why a report could not be written. -/
inductive ReportFault where
  | slice (fault : Text.OffsetFault)
  /-- More columns were asked for than a text can be padded to. -/
  | width (columns : Nat)
  deriving DecidableEq, Repr

/-- The name of the fault, with its tip in parentheses if it has one. -/
def headline (d : Diagnostic) : String :=
  match d.fault.tip? with
  | none => "Error: " ++ d.fault.name ++ "\n"
  | some tip => "Error: " ++ d.fault.name ++ " (" ++ tip ++ ")\n"

/-- What stands above the source line. -/
def heading (d : Diagnostic) : String := d.headline ++ "-> " ++ d.position.file ++ "\n"

def indentation (line : List Char) : Nat := (line.takeWhile (· = ' ')).length

/-- The number of columns before the caret. -/
def caretColumn (place : Text.Place) : Nat := place.column - indentation place.line

/-- One character, several times. -/
def repeated (c : Char) (n : Nat) : String := String.ofList (List.replicate n c)

/-- The most columns that a text can be padded to. -/
def widest : Nat := 65535

/-- A mark on the right of so many columns, filled up from the left. -/
def aligned (fill : Char) (columns : Nat) (mark : String) : Except ReportFault String :=
  if columns ≤ widest then .ok (repeated fill (columns - mark.length) ++ mark)
  else .error (.width columns)

/-- The source line between two margins as wide as its number, with the caret on the lower one. -/
def picture (place : Text.Place) : Except ReportFault String := do
  let margin ← aligned ' ' ((toString place.number).length + 2) "|"
  let shown ← (Text.dropBytes place.line (indentation place.line)).mapError .slice
  let caret ← aligned '-' (caretColumn place + 1) "^"
  return margin ++ "\n" ++
    toString place.number ++ " | " ++ String.ofList (Text.trimEnd shown) ++ "\n" ++
    margin ++ " " ++ caret

def report (d : Diagnostic) (source : String) : Except ReportFault String :=
  match Text.placeOf source.toList d.position.offset.toNat with
  | none => .ok d.heading
  | some place => (picture place).map (d.heading ++ ·)

end MonkeyFrontEnd.Diagnostic
