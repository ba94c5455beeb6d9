import MonkeyFrontEnd.Proofs.KeptTokens
import MonkeyFrontEnd.Tree.Outline

/-!
Trees at every depth. The statements in the blocks of a tree come in the order in which they are
completed, each behind those inside it. The tokens of the nodes of a tree are those that it keeps and
those of the statements in it (`Stmt.isHeld_of_mem_outlineAll`).
-/

namespace MonkeyFrontEnd

/-! ## Statements at every depth -/

mutual

/-- The statements in the blocks of an expression, at every depth, each behind those inside it. -/
def Expr.inner : Expr → List Stmt
  | .identifier _ => []
  | .integer _ _ => []
  | .boolean _ _ => []
  | .unary _ _ operand => operand.inner
  | .binary _ _ left right => left.inner ++ right.inner
  | .ifThen _ condition consequence => condition.inner ++ consequence.inner
  | .ifElse _ condition consequence alternative =>
    condition.inner ++ consequence.inner ++ alternative.inner
termination_by structural e => e

def Block.inner : Block → List Stmt
  | .mk _ statements => Stmt.postorder statements
termination_by structural b => b

def Stmt.inner : Stmt → List Stmt
  | .letStmt _ _ value => value.inner
  | .bareReturn _ => []
  | .returnValue _ value => value.inner
  | .expression _ value => value.inner
  | .block body => body.inner
termination_by structural s => s

/-- The statements of a list and those inside them, each behind those inside it. -/
def Stmt.postorder : List Stmt → List Stmt
  | [] => []
  | s :: rest => s.inner ++ s :: Stmt.postorder rest
termination_by structural ss => ss

end

theorem Stmt.postorder_append (ss rest : List Stmt) :
    Stmt.postorder (ss ++ rest) = Stmt.postorder ss ++ Stmt.postorder rest := by
  induction ss with
  | nil => rfl
  | cons s ss ih => rw [List.cons_append, Stmt.postorder, Stmt.postorder, ih, List.append_assoc]; rfl

def Program.postorder (program : Program) : List Stmt := Stmt.postorder program.statements

/-! ## The tokens of the nodes -/

/-- One of the tokens kept, or the token of one of the statements: the token of an expression statement
is not kept if a parenthesis opens it. -/
def IsHeld (kept : List Token) (stmts : List Stmt) (t : Token) : Prop :=
  t ∈ kept ∨ ∃ s ∈ stmts, s.token = t

namespace IsHeld

variable {kept kept' : List Token} {stmts stmts' : List Stmt} {t : Token}

theorem here : IsHeld (t :: kept) stmts t := .inl (List.mem_cons_self ..)

theorem cons (first : Token) (h : IsHeld kept stmts t) : IsHeld (first :: kept) stmts t :=
  h.imp_left (List.mem_cons_of_mem first)

theorem append_right (h : IsHeld kept stmts t) : IsHeld (kept ++ kept') (stmts ++ stmts') t := by
  refine h.imp (List.mem_append_left kept') ?_
  rintro ⟨s, hs, hst⟩
  exact ⟨s, List.mem_append_left stmts' hs, hst⟩

theorem append_left (h : IsHeld kept stmts t) : IsHeld (kept' ++ kept) (stmts' ++ stmts) t := by
  refine h.imp (List.mem_append_right kept') ?_
  rintro ⟨s, hs, hst⟩
  exact ⟨s, List.mem_append_right stmts' hs, hst⟩

theorem before (s : Stmt) (h : IsHeld kept stmts t) : IsHeld kept (stmts ++ [s]) t := by
  refine h.imp_right ?_
  rintro ⟨s', hs', hst⟩
  exact ⟨s', List.mem_append_left [s] hs', hst⟩

end IsHeld

mutual

theorem Expr.isHeld_of_mem_outline {entry : Outline.Entry} {depth : Nat} {role : Outline.Role} :
    (e : Expr) → entry ∈ Outline.ofExpr depth role e → IsHeld e.kept e.inner entry.token
  | .identifier _, h => by
    rw [List.mem_singleton.1 h]
    exact .here
  | .integer .., h => by
    rw [List.mem_singleton.1 h]
    exact .here
  | .boolean .., h => by
    rw [List.mem_singleton.1 h]
    exact .here
  | .unary _ _ operand, h => by
    rcases List.mem_cons.1 h with rfl | h
    · exact .here
    · exact (operand.isHeld_of_mem_outline h).cons _
  | .binary _ _ left right, h => by
    rcases List.mem_cons.1 h with rfl | h
    · exact .inl (List.mem_append_right _ (List.mem_cons_self ..))
    · rcases List.mem_append.1 h with h | h
      · exact (left.isHeld_of_mem_outline h).append_right
      · exact ((right.isHeld_of_mem_outline h).cons _).append_left
  | .ifThen _ condition consequence, h => by
    rcases List.mem_cons.1 h with rfl | h
    · exact .here
    · rcases List.mem_append.1 h with h | h
      · exact (condition.isHeld_of_mem_outline h).append_right.cons _
      · exact (consequence.isHeld_of_mem_outline h).append_left.cons _
  | .ifElse _ condition consequence alternative, h => by
    rw [Expr.inner, List.append_assoc]
    rcases List.mem_cons.1 h with rfl | h
    · exact .here
    · rcases List.mem_append.1 h with h | h
      · rcases List.mem_append.1 h with h | h
        · exact (condition.isHeld_of_mem_outline h).append_right.cons _
        · exact (consequence.isHeld_of_mem_outline h).append_right.append_left.cons _
      · exact (alternative.isHeld_of_mem_outline h).append_left.append_left.cons _
termination_by structural e => e

theorem Block.isHeld_of_mem_outline {entry : Outline.Entry} {depth : Nat} {role : Outline.Role} :
    (b : Block) → entry ∈ Outline.ofBlock depth role b → IsHeld b.kept b.inner entry.token
  | .mk _ statements, h => by
    rcases List.mem_cons.1 h with rfl | h
    · exact .here
    · exact (Stmt.isHeld_of_mem_outlineAll statements h).cons _
termination_by structural b => b

theorem Stmt.isHeld_of_mem_outline {entry : Outline.Entry} {depth : Nat} {role : Outline.Role} :
    (s : Stmt) → entry ∈ Outline.ofStmt depth role s → IsHeld s.kept (s.inner ++ [s]) entry.token
  | .letStmt token id value, h => by
    rcases List.mem_cons.1 h with rfl | h
    · exact .here
    · rcases List.mem_cons.1 h with rfl | h
      · exact IsHeld.here.cons _
      · exact (((value.isHeld_of_mem_outline h).before (.letStmt token id value)).cons _).cons _
  | .bareReturn token, h => by
    rw [List.mem_singleton.1 h]
    exact .here
  | .returnValue token value, h => by
    rcases List.mem_cons.1 h with rfl | h
    · exact .here
    · exact ((value.isHeld_of_mem_outline h).before (.returnValue token value)).cons _
  | .expression token value, h => by
    rcases List.mem_cons.1 h with rfl | h
    · exact .inr ⟨.expression token value, List.mem_append_right _ (List.mem_singleton_self _), rfl⟩
    · exact (value.isHeld_of_mem_outline h).before (.expression token value)
  | .block body, h => (body.isHeld_of_mem_outline h).before (.block body)
termination_by structural s => s

theorem Stmt.isHeld_of_mem_outlineAll {entry : Outline.Entry} {depth : Nat} :
    (ss : List Stmt) → entry ∈ Outline.ofStmts depth ss →
      IsHeld (Stmt.keptAll ss) (Stmt.postorder ss) entry.token
  | [], h => absurd h List.not_mem_nil
  | s :: rest, h => by
    have hpostorder : Stmt.postorder (s :: rest) = (s.inner ++ [s]) ++ Stmt.postorder rest := by
      rw [Stmt.postorder, List.append_assoc]
      rfl
    rw [Stmt.keptAll, hpostorder]
    rcases List.mem_append.1 h with h | h
    · exact (s.isHeld_of_mem_outline h).append_right
    · exact (Stmt.isHeld_of_mem_outlineAll rest h).append_left
termination_by structural ss => ss

end

end MonkeyFrontEnd
