import MonkeyFrontEnd.Tree

/-!
Trees as text.  Operators stand with their operands in parentheses, so the text shows how the tree
was grouped; literals and keywords are written as their tokens were.  Statements follow one another
without a separator, and the braces of blocks are not written.
-/

namespace MonkeyFrontEnd

mutual

def Expr.render : Expr → String
  | .identifier id => id.name
  | .integer token _ => token.text
  | .boolean token _ => token.text
  | .unary _ operator operand => "(" ++ operator ++ operand.render ++ ")"
  | .binary _ operator left right => "(" ++ left.render ++ " " ++ operator ++ " " ++ right.render ++ ")"
  | .ifThen _ condition consequence => "if" ++ condition.render ++ " " ++ consequence.render
  | .ifElse _ condition consequence alternative =>
    "if" ++ condition.render ++ " " ++ consequence.render ++ "else " ++ alternative.render
termination_by structural e => e

def Block.render : Block → String
  | .mk _ statements => Stmt.renderAll statements
termination_by structural b => b

def Stmt.render : Stmt → String
  | .letStmt token id value => token.text ++ " " ++ id.name ++ " = " ++ value.render ++ ";"
  | .bareReturn token => token.text ++ ";"
  | .returnValue token value => token.text ++ " " ++ value.render ++ ";"
  | .expression _ value => value.render
  | .block body => body.render
termination_by structural s => s

def Stmt.renderAll : List Stmt → String
  | [] => ""
  | s :: rest => s.render ++ Stmt.renderAll rest
termination_by structural ss => ss

end

def Program.render (p : Program) : String := Stmt.renderAll p.statements

end MonkeyFrontEnd
