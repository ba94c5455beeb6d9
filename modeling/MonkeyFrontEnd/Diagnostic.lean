import MonkeyFrontEnd.Token
import MonkeyFrontEnd.Text.Quoted

/-!
Diagnostics: what was wrong with a text and where.  A `Fault` says the cause; its name, its message
and its tip are the words in which a user is told.
-/

namespace MonkeyFrontEnd

inductive Fault where
  /-- A text that no lexeme can hold. -/
  | unrecognised (text : String)
  /-- The next token is not of the kind that has to follow. -/
  | unexpected (expected received : Kind)
  /-- An expression is due, and this kind of token starts none. -/
  | noExpression (kind : Kind)
  /-- An integer token whose text is no integer, or one that is too large. -/
  | badInteger (text : String)
  /-- More than `limit` expressions stand inside one another. -/
  | tooDeep (limit : Nat)
  deriving DecidableEq, Repr

namespace Fault

def name : Fault → String
  | unrecognised _ => "UnrecognisedToken"
  | unexpected _ _ => "UnexpectedToken"
  | noExpression _ => "NoPrefixParseFn"
  | badInteger _ => "IntegerParseError"
  | tooDeep _ => "NestingTooDeep"

def message : Fault → String
  | unrecognised text => "unrecognised token: " ++ Text.quotedString text
  | unexpected expected received =>
    "expected next token to be " ++ expected.name ++ ", got " ++ received.name
  | noExpression kind => "no prefix parse function found for " ++ kind.name
  | badInteger text => "could not parse " ++ Text.quotedString text ++ " as integer"
  | tooDeep limit => "expression nested deeper than " ++ toString limit ++ " levels"

/-- Advice for the user, if there is any. -/
def tip? : Fault → Option String
  | unrecognised _ => none
  | unexpected expected received =>
    some ("expected `" ++ expected.name ++ "`, found `" ++ received.name ++ "`")
  | noExpression kind => some ("`" ++ kind.name ++ "` cannot start an expression")
  | badInteger text => some ("Invalid integer: `" ++ text ++ "`, is it above the integer limit?")
  | tooDeep _ => some "split the expression up with `let` bindings"

def isTooDeep : Fault → Bool
  | tooDeep _ => true
  | _ => false

end Fault

structure Diagnostic where
  fault : Fault
  position : Position
  deriving DecidableEq, Repr

def Diagnostic.message (d : Diagnostic) : String := d.fault.message

end MonkeyFrontEnd
