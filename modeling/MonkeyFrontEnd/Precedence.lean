import MonkeyFrontEnd.Kind

/-!
What a kind of token may do in an expression: how strongly it binds the operands on its two sides,
whether it joins two operands, and what kind of expression it can begin.
-/

namespace MonkeyFrontEnd

/-- Binding strength, the weakest first. -/
inductive Precedence where
  | lowest | equals | lessGreater | sum | product | unary
  /-- Stronger than every operator; no kind of token binds so strongly. -/
  | call
  deriving DecidableEq, Repr

namespace Precedence

def rank : Precedence → Nat
  | lowest => 0
  | equals => 1
  | lessGreater => 2
  | sum => 3
  | product => 4
  | unary => 5
  | call => 6

instance : LT Precedence := ⟨fun p q => p.rank < q.rank⟩

instance (p q : Precedence) : Decidable (p < q) := inferInstanceAs (Decidable (p.rank < q.rank))

theorem lt_iff_rank_lt {p q : Precedence} : p < q ↔ p.rank < q.rank := Iff.rfl

end Precedence

/-- The forms of expression that the first token tells apart. -/
inductive Opener where
  | identifier | integer | boolean | unary | group | conditional
  deriving DecidableEq, Repr

/-- The kinds of token that begin expressions of a form. -/
def Opener.kinds : Opener → List Kind
  | identifier => [.identifier]
  | integer => [.integer]
  | boolean => [.trueWord, .falseWord]
  | unary => [.bang, .minus]
  | group => [.openParen]
  | conditional => [.ifWord]

namespace Kind

/-- Kinds that are no binary operator bind at the lowest strength. -/
def precedence : Kind → Precedence
  | equal | notEqual => .equals
  | less | greater | lessEqual | greaterEqual => .lessGreater
  | plus | minus => .sum
  | star | slash => .product
  | _ => .lowest

/-- The kind joins two operands. -/
def isOperator : Kind → Bool
  | plus | minus | star | slash | equal | notEqual | less | greater | lessEqual | greaterEqual => true
  | _ => false

/-- The form of the expressions that begin with this kind, none if no expression does. -/
def opener? : Kind → Option Opener
  | identifier => some .identifier
  | integer => some .integer
  | trueWord | falseWord => some .boolean
  | bang | minus => some .unary
  | openParen => some .group
  | ifWord => some .conditional
  | _ => none

def startsExpression (k : Kind) : Bool := k.opener?.isSome

theorem opener?_eq_some_iff (k : Kind) (form : Opener) : k.opener? = some form ↔ k ∈ form.kinds := by
  cases form <;> cases k <;> decide

/-- A kind binds more strongly than the lowest strength exactly if it joins two operands. -/
theorem isOperator_iff_lowest_lt (k : Kind) : k.isOperator = true ↔ Precedence.lowest < k.precedence := by
  cases k <;> decide

/-- No kind of token takes the operand of a unary operator apart. -/
theorem not_unary_lt_precedence (k : Kind) : ¬ Precedence.unary < k.precedence := by
  cases k <;> decide

theorem precedence_lt_call (k : Kind) : k.precedence < .call := by
  cases k <;> decide

theorem precedence_eof : Kind.precedence .eof = .lowest := rfl

end Kind

end MonkeyFrontEnd
