import MonkeyFrontEnd.Token

/-!
Trees of programs.  Every node keeps the token it was built from; a binary expression keeps its
operator, a block its opening brace.  The name of an identifier, the value of a literal and the
text of an operator are kept beside the token, so a tree built by hand may hold others than its
tokens suggest.
-/

namespace MonkeyFrontEnd

structure Identifier where
  token : Token
  name : String
  deriving DecidableEq, Repr

mutual

inductive Expr where
  | identifier (id : Identifier)
  | integer (token : Token) (value : Int)
  | boolean (token : Token) (value : Bool)
  | unary (token : Token) (operator : String) (operand : Expr)
  | binary (token : Token) (operator : String) (left right : Expr)
  | ifThen (token : Token) (condition : Expr) (consequence : Block)
  | ifElse (token : Token) (condition : Expr) (consequence alternative : Block)

/-- The statements between two braces, and the opening one. -/
inductive Block where
  | mk (brace : Token) (statements : List Stmt)

inductive Stmt where
  | letStmt (token : Token) (id : Identifier) (value : Expr)
  | bareReturn (token : Token)
  | returnValue (token : Token) (value : Expr)
  /-- An expression in the place of a statement, with the token it begins with. -/
  | expression (token : Token) (value : Expr)
  | block (body : Block)

end

/-- The statements of a source, in source order. -/
structure Program where
  statements : List Stmt

def Expr.token : Expr → Token
  | identifier id => id.token
  | integer t _ => t
  | boolean t _ => t
  | unary t _ _ => t
  | binary t _ _ _ => t
  | ifThen t _ _ => t
  | ifElse t _ _ _ => t

def Block.brace : Block → Token
  | mk brace _ => brace

def Block.statements : Block → List Stmt
  | mk _ statements => statements

def Stmt.token : Stmt → Token
  | letStmt t _ _ => t
  | bareReturn t => t
  | returnValue t _ => t
  | expression t _ => t
  | block body => body.brace

/-- The text of the token of the first statement, empty for a program without statements. -/
def Program.literal (p : Program) : String := (p.statements.head?.map (·.token.text)).getD ""

end MonkeyFrontEnd
