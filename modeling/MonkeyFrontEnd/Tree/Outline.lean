import MonkeyFrontEnd.Tree

/-!
Outlines: a tree as the flat list of its nodes, each node before its children and the children in
source order.  An entry holds how deep the node stands, what it is to its parent, its form with the
data of that form, and its token.
-/

namespace MonkeyFrontEnd.Outline

/-- What a node is to its parent; the roots are `stmt` and `expr`. -/
inductive Role where
  | stmt | expr
  | name | value | expression
  | left | right
  | condition | consequence | alternative
  deriving DecidableEq, Repr

/-- The form of a node and what it holds besides its token and its children. -/
inductive Form where
  | letStmt
  | returnStmt (hasValue : Bool)
  | expressionStmt
  | block (length : Nat)
  | identifier (name : String)
  | integer (value : Int)
  | boolean (value : Bool)
  | unary (operator : String)
  | binary (operator : String)
  | conditional (hasAlternative : Bool)
  deriving DecidableEq, Repr

structure Entry where
  depth : Nat
  role : Role
  form : Form
  token : Token
  deriving DecidableEq, Repr

def ofIdentifier (depth : Nat) (role : Role) (id : Identifier) : Entry :=
  ⟨depth, role, .identifier id.name, id.token⟩

mutual

def ofExpr (depth : Nat) (role : Role) : Expr → List Entry
  | .identifier id => [ofIdentifier depth role id]
  | .integer token value => [⟨depth, role, .integer value, token⟩]
  | .boolean token value => [⟨depth, role, .boolean value, token⟩]
  | .unary token operator operand =>
    ⟨depth, role, .unary operator, token⟩ :: ofExpr (depth + 1) .right operand
  | .binary token operator left right =>
    ⟨depth, role, .binary operator, token⟩ ::
      (ofExpr (depth + 1) .left left ++ ofExpr (depth + 1) .right right)
  | .ifThen token condition consequence =>
    ⟨depth, role, .conditional false, token⟩ ::
      (ofExpr (depth + 1) .condition condition ++ ofBlock (depth + 1) .consequence consequence)
  | .ifElse token condition consequence alternative =>
    ⟨depth, role, .conditional true, token⟩ ::
      (ofExpr (depth + 1) .condition condition ++ ofBlock (depth + 1) .consequence consequence ++
        ofBlock (depth + 1) .alternative alternative)
termination_by structural e => e

def ofBlock (depth : Nat) (role : Role) : Block → List Entry
  | .mk brace statements => ⟨depth, role, .block statements.length, brace⟩ :: ofStmts (depth + 1) statements
termination_by structural b => b

def ofStmt (depth : Nat) (role : Role) : Stmt → List Entry
  | .letStmt token id value =>
    ⟨depth, role, .letStmt, token⟩ :: ofIdentifier (depth + 1) .name id :: ofExpr (depth + 1) .value value
  | .bareReturn token => [⟨depth, role, .returnStmt false, token⟩]
  | .returnValue token value =>
    ⟨depth, role, .returnStmt true, token⟩ :: ofExpr (depth + 1) .value value
  | .expression token value =>
    ⟨depth, role, .expressionStmt, token⟩ :: ofExpr (depth + 1) .expression value
  | .block body => ofBlock depth role body
termination_by structural s => s

def ofStmts (depth : Nat) : List Stmt → List Entry
  | [] => []
  | s :: rest => ofStmt depth .stmt s ++ ofStmts depth rest
termination_by structural ss => ss

end

def ofProgram (p : Program) : List Entry := ofStmts 0 p.statements

end MonkeyFrontEnd.Outline
