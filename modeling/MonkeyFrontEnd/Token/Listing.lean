import MonkeyFrontEnd.Token.Scanner
import MonkeyFrontEnd.Diagnostic

/-!
The tokens of a whole text, at once.  The list ends with the end of the input; a text with an
illegal character has no list, but a diagnostic for the first such character.
-/

namespace MonkeyFrontEnd

/-- All tokens of a text, those for illegal characters included, and the end of the input. -/
def Scanner.tokens (s : Scanner) : List Token :=
  let (tokens, last) := TokenSource.drain s
  tokens ++ [last]

def tokenize (text file : String) : Except Diagnostic (List Token) :=
  let tokens := (Scanner.ofString text file).tokens
  match tokens.find? (·.kind = .illegal) with
  | some t => .error ⟨.unrecognised t.text, t.span.start⟩
  | none => .ok tokens

end MonkeyFrontEnd
