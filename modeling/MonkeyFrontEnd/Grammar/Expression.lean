import MonkeyFrontEnd.Grammar.Statement
import MonkeyFrontEnd.IntegerLiteral

/-!
The rules for expressions.  The first token of an expression tells its form; then operators that
bind more strongly than a limit take the expression read so far as their left operand, one after the
other.  The right operand of an operator is read with the strength of that operator as its limit,
so operators of equal strength group to the left.

Each rule is given the rule for the expressions inside it.  `expressionAt` closes the circle: it
counts the expressions that may still be entered, and fails where there is no room for one more.
-/

namespace MonkeyFrontEnd.Grammar

open Builder (current peek advance expect ofAction)

variable {σ : Type} [TokenSource σ]

def identifier : Builder σ Expr := do
  let token ← current
  return .identifier ⟨token, token.text⟩

def integer : Builder σ Expr := do
  let token ← current
  match IntegerLiteral.read token.text with
  | some value => return .integer token value
  | none => throw ⟨.badInteger token.text, token.span.start⟩

def boolean : Builder σ Expr := do
  let token ← current
  return .boolean token (token.kind = .trueWord)

section

variable (expr : Precedence → Builder σ Expr)

/-- The current token as an operator, and the operand behind it. -/
def unary : Builder σ Expr := do
  let token ← advance
  let operand ← expr .unary
  return .unary token token.text operand

/-- An expression in parentheses, which leave no trace in the tree. -/
def group : Builder σ Expr := do
  let _ ← advance
  let inner ← expr .lowest
  let _ ← expect .closeParen
  return inner

/-- `if`, a condition in parentheses, a block, and perhaps `else` with another block. -/
def conditional : Builder σ Expr := do
  let token ← current
  let _ ← expect .openParen
  let _ ← advance
  let condition ← expr .lowest
  let _ ← expect .closeParen
  let _ ← expect .openCurly
  let consequence ← ofAction (block expr)
  let ahead ← peek
  if ahead.kind = .elseWord then
    let _ ← advance
    let _ ← expect .openCurly
    let alternative ← ofAction (block expr)
    return .ifElse token condition consequence alternative
  else
    return .ifThen token condition consequence

/-- The part of an expression before its first operator with two operands. -/
def opening : Builder σ Expr := do
  let token ← current
  match token.kind.opener? with
  | some .identifier => identifier
  | some .integer => integer
  | some .boolean => boolean
  | some .unary => unary expr
  | some .group => group expr
  | some .conditional => conditional expr
  | none => throw ⟨.noExpression token.kind, token.span.start⟩

/-- The current token as an operator behind its left operand, and the right operand behind it. -/
def binary (left : Expr) : Builder σ Expr := do
  let token ← advance
  let right ← expr token.kind.precedence
  return .binary token token.text left right

/-- A token that binds more strongly than some limit is not the end of the input. -/
theorem peek_ne_eof {limit : Precedence} {p : Parser σ} (h : limit < p.peek.kind.precedence) :
    p.peek.kind ≠ .eof := by
  intro heof
  rw [heof, Kind.precedence_eof, Precedence.lt_iff_rank_lt] at h
  exact Nat.not_lt_zero _ h

theorem left_binary_lt {limit : Precedence} {p : Parser σ} (left : Expr)
    (h : limit < p.peek.kind.precedence) : ((binary expr left).run p.advance).2.left < p.left :=
  Nat.lt_of_le_of_lt ((binary expr left).left_run_le p.advance)
    (Parser.left_advance_lt (Cursor.current_ne_eof (peek_ne_eof h)))

/-- Join operators that bind more strongly than the limit, as long as there are any, to what was
read so far. -/
def joinFrom (limit : Precedence) (left : Expr) (p : Parser σ) : Except Diagnostic Expr × Parser σ :=
  if _ : limit < p.peek.kind.precedence then
    let joined := (binary expr left).run p.advance
    match joined.1 with
    | .ok e => joinFrom limit e joined.2
    | .error d => (.error d, joined.2)
  else (.ok left, p)
termination_by p.left
decreasing_by exact left_binary_lt _ left (by assumption)

theorem left_joinFrom_le (limit : Precedence) (left : Expr) (p : Parser σ) :
    (joinFrom expr limit left p).2.left ≤ p.left := by
  fun_induction joinFrom expr limit left p with
  | case1 left p h joined e hok ih =>
    exact Nat.le_of_lt (Nat.lt_of_le_of_lt ih (left_binary_lt expr left h))
  | case2 left p h joined d herror => exact Nat.le_of_lt (left_binary_lt expr left h)
  | case3 => exact Nat.le_refl _

def join (limit : Precedence) (left : Expr) : Builder σ Expr :=
  Builder.ofRun (joinFrom expr limit left) (left_joinFrom_le expr limit left)

/-- A token that does not bind more strongly than the limit ends the joining. -/
theorem run_join_of_not_lt {limit : Precedence} {p : Parser σ} (h : ¬ limit < p.peek.kind.precedence)
    (left : Expr) : (join expr limit left).run p = (.ok left, p) := by
  change joinFrom expr limit left p = _
  rw [joinFrom, dif_neg h]

/-- A token that binds more strongly than the limit is joined, and then perhaps others. -/
theorem run_join_of_lt {limit : Precedence} {p : Parser σ} (h : limit < p.peek.kind.precedence)
    (left : Expr) :
    (join expr limit left).run p =
      (binary expr left >>= fun joined => join expr limit joined).run p.advance := by
  change joinFrom expr limit left p = _
  rw [joinFrom, dif_pos h, Builder.run_bind]
  rcases (binary expr left).run p.advance with ⟨_ | e, q⟩ <;> rfl

/-- An expression all of whose outer operators bind more strongly than the limit. -/
def body (limit : Precedence) : Builder σ Expr := do
  let left ← opening expr
  join expr limit left

end

/-- A rule inside one more expression: the state counts it while the rule runs. -/
def nested {α : Type} (rule : Builder σ α) : Builder σ α :=
  Builder.ofRun
    (fun p =>
      let (result, q) := rule.run { p with depth := p.depth + 1 }
      (result, q.leave))
    (fun p => rule.left_run_le { p with depth := p.depth + 1 })

def failTooDeep : Builder σ Expr := Builder.ofRun (fun p => (.error p.tooDeep, p)) fun _ => Nat.le_refl _

/-- An expression where `room` expressions may still be entered inside one another. -/
def expressionAt : (room : Nat) → Precedence → Builder σ Expr
  | 0, _ => failTooDeep
  | room + 1, limit => nested (body (expressionAt room) limit)

/-- An expression in a state that says by its depth how much room there is. -/
def expression (limit : Precedence) : Builder σ Expr :=
  Builder.ofRun (fun p => (expressionAt p.room limit).run p) fun p =>
    (expressionAt p.room limit).left_run_le p

theorem run_expression (limit : Precedence) (p : Parser σ) :
    (expression limit).run p = (expressionAt p.room limit).run p := rfl

theorem run_expressionAt_zero (limit : Precedence) (p : Parser σ) :
    (expressionAt 0 limit).run p = (.error p.tooDeep, p) := rfl

theorem run_expressionAt_succ (room : Nat) (limit : Precedence) (p : Parser σ) :
    (expressionAt (room + 1) limit).run p =
      (((body (expressionAt room) limit).run { p with depth := p.depth + 1 }).1,
        ((body (expressionAt room) limit).run { p with depth := p.depth + 1 }).2.leave) := rfl

end MonkeyFrontEnd.Grammar
