import MonkeyFrontEnd.Tree.Render

/-!
Trees under a map of their tokens.  The shape of a tree stays, and so do the names, values and
operators that are kept beside the tokens.  A map that keeps the texts of tokens leaves the
rendering as it is.
-/

namespace MonkeyFrontEnd

section

variable (f : Token → Token)

def Identifier.mapToken (id : Identifier) : Identifier := ⟨f id.token, id.name⟩

mutual

def Expr.mapTokens : Expr → Expr
  | .identifier id => .identifier (id.mapToken f)
  | .integer t value => .integer (f t) value
  | .boolean t value => .boolean (f t) value
  | .unary t operator operand => .unary (f t) operator operand.mapTokens
  | .binary t operator left right => .binary (f t) operator left.mapTokens right.mapTokens
  | .ifThen t condition consequence => .ifThen (f t) condition.mapTokens consequence.mapTokens
  | .ifElse t condition consequence alternative =>
    .ifElse (f t) condition.mapTokens consequence.mapTokens alternative.mapTokens
termination_by structural e => e

def Block.mapTokens : Block → Block
  | .mk brace statements => .mk (f brace) (Stmt.mapTokensAll statements)
termination_by structural b => b

def Stmt.mapTokens : Stmt → Stmt
  | .letStmt t id value => .letStmt (f t) (id.mapToken f) value.mapTokens
  | .bareReturn t => .bareReturn (f t)
  | .returnValue t value => .returnValue (f t) value.mapTokens
  | .expression t value => .expression (f t) value.mapTokens
  | .block body => .block body.mapTokens
termination_by structural s => s

def Stmt.mapTokensAll : List Stmt → List Stmt
  | [] => []
  | s :: rest => s.mapTokens :: Stmt.mapTokensAll rest
termination_by structural ss => ss

end

def Program.mapTokens (program : Program) : Program := ⟨Stmt.mapTokensAll f program.statements⟩

theorem Stmt.mapTokensAll_eq_map (ss : List Stmt) : mapTokensAll f ss = ss.map (mapTokens f) := by
  induction ss with
  | nil => rfl
  | cons s ss ih => rw [mapTokensAll, ih, List.map_cons]

end

/-! ## The identity -/

mutual

@[simp] theorem Expr.mapTokens_id : (e : Expr) → e.mapTokens id = e
  | .identifier _ => rfl
  | .integer _ _ => rfl
  | .boolean _ _ => rfl
  | .unary t operator operand => by simp [Expr.mapTokens, operand.mapTokens_id]
  | .binary t operator left right => by
    simp [Expr.mapTokens, left.mapTokens_id, right.mapTokens_id]
  | .ifThen t condition consequence => by
    simp [Expr.mapTokens, condition.mapTokens_id, consequence.mapTokens_id]
  | .ifElse t condition consequence alternative => by
    simp [Expr.mapTokens, condition.mapTokens_id, consequence.mapTokens_id,
      alternative.mapTokens_id]
termination_by structural e => e

@[simp] theorem Block.mapTokens_id : (b : Block) → b.mapTokens id = b
  | .mk brace statements => by simp [Block.mapTokens, Stmt.mapTokensAll_id statements]
termination_by structural b => b

@[simp] theorem Stmt.mapTokens_id : (s : Stmt) → s.mapTokens id = s
  | .letStmt t name value => by simp [Stmt.mapTokens, Identifier.mapToken, value.mapTokens_id]
  | .bareReturn _ => rfl
  | .returnValue t value => by simp [Stmt.mapTokens, value.mapTokens_id]
  | .expression t value => by simp [Stmt.mapTokens, value.mapTokens_id]
  | .block body => by simp [Stmt.mapTokens, body.mapTokens_id]
termination_by structural s => s

@[simp] theorem Stmt.mapTokensAll_id : (ss : List Stmt) → Stmt.mapTokensAll id ss = ss
  | [] => rfl
  | s :: rest => by simp [Stmt.mapTokensAll, s.mapTokens_id, Stmt.mapTokensAll_id rest]
termination_by structural ss => ss

end

@[simp] theorem Program.mapTokens_id (program : Program) : program.mapTokens id = program := by
  simp [mapTokens]

/-! ## Rendering -/

section

variable {f : Token → Token}

mutual

theorem Expr.render_mapTokens (hf : ∀ t, (f t).text = t.text) :
    (e : Expr) → (e.mapTokens f).render = e.render
  | .identifier _ => rfl
  | .integer t _ => by simp [Expr.mapTokens, Expr.render, hf]
  | .boolean t _ => by simp [Expr.mapTokens, Expr.render, hf]
  | .unary _ operator operand => by
    simp [Expr.mapTokens, Expr.render, operand.render_mapTokens hf]
  | .binary _ operator left right => by
    simp [Expr.mapTokens, Expr.render, left.render_mapTokens hf, right.render_mapTokens hf]
  | .ifThen _ condition consequence => by
    simp [Expr.mapTokens, Expr.render, condition.render_mapTokens hf, consequence.render_mapTokens hf]
  | .ifElse _ condition consequence alternative => by
    simp [Expr.mapTokens, Expr.render, condition.render_mapTokens hf, consequence.render_mapTokens hf,
      alternative.render_mapTokens hf]
termination_by structural e => e

theorem Block.render_mapTokens (hf : ∀ t, (f t).text = t.text) :
    (b : Block) → (b.mapTokens f).render = b.render
  | .mk _ statements => by
    simp [Block.mapTokens, Block.render, Stmt.renderAll_mapTokensAll hf statements]
termination_by structural b => b

theorem Stmt.render_mapTokens (hf : ∀ t, (f t).text = t.text) :
    (s : Stmt) → (s.mapTokens f).render = s.render
  | .letStmt t id value => by
    simp [Stmt.mapTokens, Stmt.render, Identifier.mapToken, hf, value.render_mapTokens hf]
  | .bareReturn t => by simp [Stmt.mapTokens, Stmt.render, hf]
  | .returnValue t value => by simp [Stmt.mapTokens, Stmt.render, hf, value.render_mapTokens hf]
  | .expression _ value => by simp [Stmt.mapTokens, Stmt.render, value.render_mapTokens hf]
  | .block body => by simp [Stmt.mapTokens, Stmt.render, body.render_mapTokens hf]
termination_by structural s => s

theorem Stmt.renderAll_mapTokensAll (hf : ∀ t, (f t).text = t.text) :
    (ss : List Stmt) → Stmt.renderAll (Stmt.mapTokensAll f ss) = Stmt.renderAll ss
  | [] => rfl
  | s :: rest => by
    simp [Stmt.mapTokensAll, Stmt.renderAll, s.render_mapTokens hf, Stmt.renderAll_mapTokensAll hf rest]
termination_by structural ss => ss

end

theorem Program.render_mapTokens (hf : ∀ t, (f t).text = t.text) (program : Program) :
    (program.mapTokens f).render = program.render :=
  Stmt.renderAll_mapTokensAll hf program.statements

end

end MonkeyFrontEnd
