import MonkeyFrontEnd.Parser.Action
import MonkeyFrontEnd.Precedence

/-!
The rules for statements and blocks.  They are given the rule for expressions, which in turn uses
blocks; so nothing here depends on how deeply expressions stand inside one another.

A statement that fails is recorded and left out.  A semicolon directly behind the failure is taken
with it, a failure for nesting too deep gives up the rest of the input, and in every case the next
statement is looked for one token further on.
-/

namespace MonkeyFrontEnd.Grammar

open Builder (current peek advance expect takeSemicolon)

variable {σ : Type} [TokenSource σ] (expr : Precedence → Builder σ Expr)

/-- `let`, a name, `=` and an expression. -/
def letStatement : Builder σ Stmt := do
  let token ← current
  let name ← expect .identifier
  let _ ← expect .assign
  let _ ← advance
  let value ← expr .lowest
  takeSemicolon
  return .letStmt token ⟨name, name.text⟩ value

/-- `return` and an expression.  It stands alone before a semicolon, before a closing brace and at
the end of the input; the cursor passes the semicolon only. -/
def returnStatement : Builder σ Stmt := do
  let token ← current
  let ahead ← peek
  if ahead.kind = .semicolon then
    let _ ← advance
    return .bareReturn token
  else if ahead.kind = .closeCurly ∨ ahead.kind = .eof then
    return .bareReturn token
  else
    let _ ← advance
    let value ← expr .lowest
    takeSemicolon
    return .returnValue token value

def expressionStatement : Builder σ Stmt := do
  let token ← current
  let value ← expr .lowest
  takeSemicolon
  return .expression token value

/-- The first token tells which statement it is. -/
def statement : Builder σ Stmt := do
  let token ← current
  if token.kind = .letWord then letStatement expr
  else if token.kind = .returnWord then returnStatement expr
  else expressionStatement expr

/-- What is done about a statement that failed. -/
def recover (d : Diagnostic) : Action σ Unit := do
  Action.record d
  if d.fault.isTooDeep then Action.skipToEnd else Action.takeSemicolon

/-- Try for one statement: the statement, or none where it failed and the failure was recorded. -/
def attempt : Action σ (Option Stmt) := do
  match ← ExceptT.run (statement expr) with
  | .ok s =>
    Action.complete s
    return some s
  | .error d =>
    recover d
    return none

/-- A list of statements ends at the end of the input and at its closing kind, if it has one. -/
def closes (closing : Option Kind) (kind : Kind) : Bool := kind = .eof || closing = some kind

theorem current_ne_eof {closing : Option Kind} {p : Parser σ} (h : ¬ closes closing p.current.kind) :
    p.current.kind ≠ .eof := by
  intro heof
  exact h (by simp [closes, heof])

theorem left_attempt_lt {p : Parser σ} (h : p.current.kind ≠ .eof) :
    ((attempt expr).run p).2.advance.left < p.left := by
  have hle := (attempt expr).left_le p
  by_cases heof : ((attempt expr).run p).2.current.kind = .eof
  · have hzero := Parser.left_eq_zero_iff.2 heof
    have hpos := mt Parser.left_eq_zero_iff.1 h
    have := Parser.left_advance_le ((attempt expr).run p).2
    omega
  · exact Nat.lt_of_lt_of_le (Parser.left_advance_lt heof) hle

/-- Read statements until the list ends, in front of which `done` were read, the last one first. -/
def statementsFrom (closing : Option Kind) (done : List Stmt) (p : Parser σ) : List Stmt × Parser σ :=
  if _ : closes closing p.current.kind then (done.reverse, p)
  else
    let tried := (attempt expr).run p
    statementsFrom closing (tried.1.toList ++ done) tried.2.advance
termination_by p.left
decreasing_by exact left_attempt_lt _ (current_ne_eof (by assumption))

theorem left_statementsFrom_le (closing : Option Kind) (done : List Stmt) (p : Parser σ) :
    (statementsFrom expr closing done p).2.left ≤ p.left := by
  fun_induction statementsFrom expr closing done p with
  | case1 => exact Nat.le_refl _
  | case2 done p h tried ih =>
    exact Nat.le_of_lt (Nat.lt_of_le_of_lt ih (left_attempt_lt expr (current_ne_eof h)))

theorem statementsFrom_of_closes {closing : Option Kind} {p : Parser σ}
    (h : closes closing p.current.kind) (done : List Stmt) :
    statementsFrom expr closing done p = (done.reverse, p) := by
  rw [statementsFrom, dif_pos h]

theorem statementsFrom_of_not_closes {closing : Option Kind} {p : Parser σ}
    (h : ¬ closes closing p.current.kind) (done : List Stmt) :
    statementsFrom expr closing done p =
      statementsFrom expr closing (((attempt expr).run p).1.toList ++ done)
        ((attempt expr).run p).2.advance := by
  rw [statementsFrom, dif_neg h]

/-- What was read before comes first and changes nothing about what follows. -/
theorem statementsFrom_eq_append (closing : Option Kind) (done : List Stmt) (p : Parser σ) :
    statementsFrom expr closing done p =
      (done.reverse ++ (statementsFrom expr closing [] p).1, (statementsFrom expr closing [] p).2) := by
  induction hleft : p.left using Nat.strongRecOn generalizing p done with
  | ind n ih =>
    subst hleft
    by_cases h : closes closing p.current.kind
    · simp [statementsFrom_of_closes expr h]
    · have hlt := left_attempt_lt expr (current_ne_eof h)
      rw [statementsFrom_of_not_closes expr h, statementsFrom_of_not_closes expr h,
        ih _ hlt (((attempt expr).run p).1.toList ++ done) _ rfl,
        ih _ hlt (((attempt expr).run p).1.toList ++ []) _ rfl]
      cases ((attempt expr).run p).1 <;> simp

/-- The statements up to the end of their list.  The cursor stops on the token that ends it. -/
def statements (closing : Option Kind) : Action σ (List Stmt) :=
  ⟨statementsFrom expr closing [], left_statementsFrom_le expr closing []⟩

theorem run_statements_of_closes {closing : Option Kind} {p : Parser σ}
    (h : closes closing p.current.kind) : (statements expr closing).run p = ([], p) :=
  statementsFrom_of_closes expr h []

/-- A list that does not end yet has what one try gives in front of the rest of the list. -/
theorem run_statements_of_not_closes {closing : Option Kind} {p : Parser σ}
    (h : ¬ closes closing p.current.kind) :
    (statements expr closing).run p =
      (((attempt expr).run p).1.toList ++
        ((statements expr closing).run ((attempt expr).run p).2.advance).1,
        ((statements expr closing).run ((attempt expr).run p).2.advance).2) := by
  change statementsFrom expr closing [] p = _
  rw [statementsFrom_of_not_closes expr h, statementsFrom_eq_append]
  cases ((attempt expr).run p).1 <;> rfl

/-- The current token and the statements behind it, up to a closing brace or the end of the input.
The cursor stops on the brace. -/
def block : Action σ Block := do
  let brace ← Action.advance
  let body ← statements expr (some .closeCurly)
  return .mk brace body

def program : Action σ Program := do
  let body ← statements expr none
  return ⟨body⟩

theorem run_block (p : Parser σ) :
    (block expr).run p =
      (.mk p.current ((statements expr (some .closeCurly)).run p.advance).1,
        ((statements expr (some .closeCurly)).run p.advance).2) := rfl

theorem run_program (p : Parser σ) :
    (program expr).run p = (⟨((statements expr none).run p).1⟩, ((statements expr none).run p).2) := rfl

end MonkeyFrontEnd.Grammar
