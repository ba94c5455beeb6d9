import MonkeyFrontEnd.Grammar.Expression
import MonkeyFrontEnd.Token.Ready
import MonkeyFrontEnd.Token.Scanner

/-!
Programs from sources of tokens.  Parsing never fails: what could not be read is missing from the
program, and the state of the parser behind it holds the diagnostics.
-/

namespace MonkeyFrontEnd

variable {σ : Type} [TokenSource σ]

/-- The program of the tokens that are left. -/
def Parser.parseProgram (p : Parser σ) : Program × Parser σ :=
  (Grammar.program Grammar.expression).run p

/-- The program of a source, and the parser behind its last token. -/
def parse (source : σ) : Program × Parser σ := (Parser.start source).parseProgram

def parseText (text file : String) : Program × Parser Scanner := parse (Scanner.ofString text file)

def parseTokens (tokens : List Token) : Program × Parser ReadyTokens := parse (ReadyTokens.ofList tokens)

end MonkeyFrontEnd
