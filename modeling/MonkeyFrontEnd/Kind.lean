/-!
Kinds of tokens, their written names and the reserved words.  The name of an operator or a
delimiter is the text it is written with; the other kinds have a capitalised name.
-/

namespace MonkeyFrontEnd

inductive Kind where
  | illegal | eof
  | identifier | integer
  | assign | plus | minus | bang | slash | star
  | less | greater | lessEqual | greaterEqual | equal | notEqual
  | comma | semicolon | openParen | closeParen | openCurly | closeCurly
  | functionWord | letWord | trueWord | falseWord | ifWord | elseWord | returnWord
  deriving DecidableEq, Repr

namespace Kind

def name : Kind → String
  | illegal => "ILLEGAL"
  | eof => "EOF"
  | identifier => "IDENT"
  | integer => "INT"
  | assign => "="
  | plus => "+"
  | minus => "-"
  | bang => "!"
  | slash => "/"
  | star => "*"
  | less => "<"
  | greater => ">"
  | lessEqual => "<="
  | greaterEqual => ">="
  | equal => "=="
  | notEqual => "!="
  | comma => ","
  | semicolon => ";"
  | openParen => "("
  | closeParen => ")"
  | openCurly => "\x7b"
  | closeCurly => "\x7d"
  | functionWord => "FUNCTION"
  | letWord => "LET"
  | trueWord => "TRUE"
  | falseWord => "FALSE"
  | ifWord => "IF"
  | elseWord => "ELSE"
  | returnWord => "RETURN"

/-- The kind of a reserved word, none for any other word. -/
def ofReserved? (word : String) : Option Kind :=
  match word with
  | "fn" => some functionWord
  | "let" => some letWord
  | "true" => some trueWord
  | "false" => some falseWord
  | "if" => some ifWord
  | "else" => some elseWord
  | "return" => some returnWord
  | _ => none

/-- The kind of a word: its own if it is reserved, else an identifier. -/
def ofWord (word : String) : Kind := (ofReserved? word).getD identifier

theorem ofWord_ne_eof (word : String) : ofWord word ≠ eof := by
  unfold ofWord ofReserved?
  split <;> decide

end Kind

end MonkeyFrontEnd
