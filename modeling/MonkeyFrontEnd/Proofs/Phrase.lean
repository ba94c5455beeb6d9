import MonkeyFrontEnd.Proofs.Tokens

/-!
Programs as they may be written: trees that keep every token, parentheses, braces and semicolons
included. A written form has its tokens, the tree it stands for and its nesting; `fits` says which
forms are admissible before a given kind of token. Nothing here refers to the parser's rules. That
the parser accepts these forms, these only, and with these trees, is proved elsewhere.
-/

namespace MonkeyFrontEnd

mutual

/-- An expression as it is written. -/
inductive Phrase where
  | identifier (word : Token)
  | integer (digits : Token)
  | boolean (word : Token)
  | unary (operator : Token) (operand : Phrase)
  | binary (left : Phrase) (operator : Token) (right : Phrase)
  | group (opening : Token) (inner : Phrase) (closing : Token)
  | ifThen (word opening : Token) (condition : Phrase) (closing : Token) (consequence : Braces)
  | ifElse (word opening : Token) (condition : Phrase) (closing : Token) (consequence : Braces)
      (otherwise : Token) (alternative : Braces)

/-- A block as it is written, perhaps without its closing brace. -/
inductive Braces where
  | mk (opening : Token) (body : List Sentence) (closing : Option Token)

/-- A statement as it is written, perhaps with a semicolon. -/
inductive Sentence where
  | letStmt (word name assign : Token) (value : Phrase) (semicolon : Option Token)
  | bareReturn (word : Token) (semicolon : Option Token)
  | returnValue (word : Token) (value : Phrase) (semicolon : Option Token)
  | expression (value : Phrase) (semicolon : Option Token)

end

/-! ## Tokens -/

mutual

def Phrase.tokens : Phrase → List Token
  | .identifier word => [word]
  | .integer digits => [digits]
  | .boolean word => [word]
  | .unary operator operand => operator :: operand.tokens
  | .binary left operator right => left.tokens ++ operator :: right.tokens
  | .group opening inner closing => opening :: (inner.tokens ++ [closing])
  | .ifThen word opening condition closing consequence =>
    word :: opening :: (condition.tokens ++ closing :: consequence.tokens)
  | .ifElse word opening condition closing consequence otherwise alternative =>
    word :: opening ::
      (condition.tokens ++ closing :: (consequence.tokens ++ otherwise :: alternative.tokens))
termination_by structural w => w

def Braces.tokens : Braces → List Token
  | .mk opening body closing => opening :: (Sentence.tokensAll body ++ closing.toList)
termination_by structural b => b

def Sentence.tokens : Sentence → List Token
  | .letStmt word name assign value semicolon =>
    word :: name :: assign :: (value.tokens ++ semicolon.toList)
  | .bareReturn word semicolon => word :: semicolon.toList
  | .returnValue word value semicolon => word :: (value.tokens ++ semicolon.toList)
  | .expression value semicolon => value.tokens ++ semicolon.toList
termination_by structural s => s

def Sentence.tokensAll : List Sentence → List Token
  | [] => []
  | s :: rest => s.tokens ++ Sentence.tokensAll rest
termination_by structural ss => ss

end

/-- The statements of a written block. -/
def Braces.body : Braces → List Sentence
  | .mk _ body _ => body

/-- The token a written expression begins with. -/
def Phrase.first : Phrase → Token
  | .identifier word => word
  | .integer digits => digits
  | .boolean word => word
  | .unary operator _ => operator
  | .binary left _ _ => left.first
  | .group opening _ _ => opening
  | .ifThen word _ _ _ _ => word
  | .ifElse word _ _ _ _ _ _ => word

/-- The form that begins where a written expression begins. -/
def Phrase.form : Phrase → Opener
  | .identifier _ => .identifier
  | .integer _ => .integer
  | .boolean _ => .boolean
  | .unary _ _ => .unary
  | .binary left _ _ => left.form
  | .group _ _ _ => .group
  | .ifThen _ _ _ _ _ => .conditional
  | .ifElse _ _ _ _ _ _ _ => .conditional

/-- The token a written statement begins with. -/
def Sentence.first : Sentence → Token
  | .letStmt word _ _ _ _ => word
  | .bareReturn word _ => word
  | .returnValue word _ _ => word
  | .expression value _ => value.first

/-! ## Trees -/

mutual

/-- The tree a written expression stands for. Parentheses leave no trace in it. -/
def Phrase.tree : Phrase → Expr
  | .identifier word => .identifier ⟨word, word.text⟩
  | .integer digits => .integer digits ((IntegerLiteral.read digits.text).getD 0)
  | .boolean word => .boolean word (word.kind = .trueWord)
  | .unary operator operand => .unary operator operator.text operand.tree
  | .binary left operator right => .binary operator operator.text left.tree right.tree
  | .group _ inner _ => inner.tree
  | .ifThen word _ condition _ consequence => .ifThen word condition.tree consequence.tree
  | .ifElse word _ condition _ consequence _ alternative =>
    .ifElse word condition.tree consequence.tree alternative.tree
termination_by structural w => w

def Braces.tree : Braces → Block
  | .mk opening body _ => .mk opening (Sentence.treeAll body)
termination_by structural b => b

/-- The tree of a statement. That of an expression keeps the first written token, which may be a
parenthesis. -/
def Sentence.tree : Sentence → Stmt
  | .letStmt word name _ value _ => .letStmt word ⟨name, name.text⟩ value.tree
  | .bareReturn word _ => .bareReturn word
  | .returnValue word value _ => .returnValue word value.tree
  | .expression value _ => .expression value.first value.tree
termination_by structural s => s

def Sentence.treeAll : List Sentence → List Stmt
  | [] => []
  | s :: rest => s.tree :: Sentence.treeAll rest
termination_by structural ss => ss

end

/-! ## Nesting -/

mutual

/-- The most expressions that are open at one token. Operands of unary operators, right operands,
parentheses, conditions and the expressions of blocks open one more; left operands do not. -/
def Phrase.nesting : Phrase → Nat
  | .identifier _ => 1
  | .integer _ => 1
  | .boolean _ => 1
  | .unary _ operand => operand.nesting + 1
  | .binary left _ right => max left.nesting (right.nesting + 1)
  | .group _ inner _ => inner.nesting + 1
  | .ifThen _ _ condition _ consequence => max condition.nesting consequence.nesting + 1
  | .ifElse _ _ condition _ consequence _ alternative =>
    max condition.nesting (max consequence.nesting alternative.nesting) + 1
termination_by structural w => w

def Braces.nesting : Braces → Nat
  | .mk _ body _ => Sentence.nestingAll body
termination_by structural b => b

def Sentence.nesting : Sentence → Nat
  | .letStmt _ _ _ value _ => value.nesting
  | .bareReturn _ _ => 0
  | .returnValue _ value _ => value.nesting
  | .expression value _ => value.nesting
termination_by structural s => s

def Sentence.nestingAll : List Sentence → Nat
  | [] => 0
  | s :: rest => max s.nesting (Sentence.nestingAll rest)
termination_by structural ss => ss

end

/-! ## Admissible forms -/

/-- How strongly the outermost operator of a written expression binds; what is no binary
expression, or stands in parentheses, is not taken apart by any operator. -/
def Phrase.strength : Phrase → Precedence
  | .binary _ operator _ => operator.kind.precedence
  | _ => .call

/-- The kind of the token behind a value that is followed by a semicolon or not. -/
def kindBehind (semicolon : Option Token) (next : Kind) : Kind :=
  (semicolon.map (·.kind)).getD next

/-- A value ends with a semicolon, or before a token that could neither go on with the value nor
be that semicolon. -/
def endsValue : Option Token → Kind → Bool
  | some t, _ => t.kind = .semicolon
  | none, next => !next.isOperator && next ≠ .semicolon

/-- A `return` without a value ends with a semicolon, before a closing brace or at the end. -/
def endsReturn : Option Token → Kind → Bool
  | some t, _ => t.kind = .semicolon
  | none, next => next = .closeCurly || next = .eof

/-- The kind of the first token of some statements, that of the token behind them if there are
none. -/
def Sentence.firstKind (next : Kind) : List Sentence → Kind
  | [] => next
  | s :: _ => s.first.kind

mutual

/-- A written expression is admissible before a token of the kind `next`, `eof` being the end of
the input. Operands stand in parentheses wherever they bind too weakly to stand without; an `if`
without an alternative does not stand before `else`. -/
def Phrase.fits : Phrase → Kind → Bool
  | .identifier word, _ => word.kind = .identifier
  | .integer digits, _ => digits.kind = .integer && (IntegerLiteral.read digits.text).isSome
  | .boolean word, _ => word.kind = .trueWord || word.kind = .falseWord
  | .unary operator operand, next =>
    (operator.kind = .bang || operator.kind = .minus) &&
      Precedence.unary < operand.strength && operand.fits next
  | .binary left operator right, next =>
    operator.kind.isOperator &&
      ¬ left.strength < operator.kind.precedence && left.fits operator.kind &&
      operator.kind.precedence < right.strength && right.fits next
  | .group opening inner closing, _ =>
    opening.kind = .openParen && inner.fits .closeParen && closing.kind = .closeParen
  | .ifThen word opening condition closing consequence, next =>
    word.kind = .ifWord && opening.kind = .openParen && condition.fits .closeParen &&
      closing.kind = .closeParen && consequence.fits next && next ≠ .elseWord
  | .ifElse word opening condition closing consequence otherwise alternative, next =>
    word.kind = .ifWord && opening.kind = .openParen && condition.fits .closeParen &&
      closing.kind = .closeParen && consequence.fits .elseWord &&
      otherwise.kind = .elseWord && alternative.fits next
termination_by structural w => w

/-- The closing brace of a block is missing only where nothing at all follows. -/
def Braces.fits : Braces → Kind → Bool
  | .mk opening body (some closing), _ =>
    opening.kind = .openCurly && Sentence.fitsAll body .closeCurly && closing.kind = .closeCurly
  | .mk opening body none, next =>
    opening.kind = .openCurly && Sentence.fitsAll body .eof && next = .eof
termination_by structural b => b

def Sentence.fits : Sentence → Kind → Bool
  | .letStmt word name assign value semicolon, next =>
    word.kind = .letWord && name.kind = .identifier && assign.kind = .assign &&
      value.fits (kindBehind semicolon next) && endsValue semicolon next
  | .bareReturn word semicolon, next => word.kind = .returnWord && endsReturn semicolon next
  | .returnValue word value semicolon, next =>
    word.kind = .returnWord && value.fits (kindBehind semicolon next) && endsValue semicolon next
  | .expression value semicolon, next =>
    value.fits (kindBehind semicolon next) && endsValue semicolon next
termination_by structural s => s

def Sentence.fitsAll : List Sentence → Kind → Bool
  | [], _ => true
  | s :: rest, next => s.fits (Sentence.firstKind next rest) && Sentence.fitsAll rest next
termination_by structural ss => ss

end

/-- A name is admissible as the last statement of a text. -/
example : Sentence.fitsAll [.expression (.identifier (.unplaced .identifier "x")) none] .eof = true := by
  cbv

/-! ### What is admissible, form by form -/

namespace Phrase

variable {next : Kind} {left right operand inner condition : Phrase} {consequence alternative : Braces}
  {word digits operator opening closing otherwise : Token}

theorem fits_identifier_iff : (identifier word).fits next ↔ word.kind = .identifier := by
  simp [fits]

theorem fits_integer_iff : (integer digits).fits next ↔
    digits.kind = .integer ∧ (IntegerLiteral.read digits.text).isSome := by
  simp [fits]

theorem fits_boolean_iff : (boolean word).fits next ↔ word.kind = .trueWord ∨ word.kind = .falseWord := by
  simp [fits]

theorem fits_unary_iff : (unary operator operand).fits next ↔
    (operator.kind = .bang ∨ operator.kind = .minus) ∧ Precedence.unary < operand.strength ∧
      operand.fits next := by
  simp [fits, and_assoc]

theorem fits_binary_iff : (binary left operator right).fits next ↔
    operator.kind.isOperator ∧ ¬ left.strength < operator.kind.precedence ∧ left.fits operator.kind ∧
      operator.kind.precedence < right.strength ∧ right.fits next := by
  simp [fits, and_assoc]

theorem fits_group_iff : (group opening inner closing).fits next ↔
    opening.kind = .openParen ∧ inner.fits .closeParen ∧ closing.kind = .closeParen := by
  simp [fits, and_assoc]

theorem fits_ifThen_iff : (ifThen word opening condition closing consequence).fits next ↔
    word.kind = .ifWord ∧ opening.kind = .openParen ∧ condition.fits .closeParen ∧
      closing.kind = .closeParen ∧ consequence.fits next ∧ next ≠ .elseWord := by
  simp [fits, and_assoc]

theorem fits_ifElse_iff :
    (ifElse word opening condition closing consequence otherwise alternative).fits next ↔
      word.kind = .ifWord ∧ opening.kind = .openParen ∧ condition.fits .closeParen ∧
        closing.kind = .closeParen ∧ consequence.fits .elseWord ∧ otherwise.kind = .elseWord ∧
        alternative.fits next := by
  simp [fits, and_assoc]

end Phrase

theorem Braces.fits_closed_iff {opening closing : Token} {body : List Sentence} {next : Kind} :
    (mk opening body (some closing)).fits next ↔
      opening.kind = .openCurly ∧ Sentence.fitsAll body .closeCurly ∧ closing.kind = .closeCurly := by
  simp [fits, and_assoc]

theorem Braces.fits_unclosed_iff {opening : Token} {body : List Sentence} {next : Kind} :
    (mk opening body none).fits next ↔
      opening.kind = .openCurly ∧ Sentence.fitsAll body .eof ∧ next = .eof := by
  simp [fits, and_assoc]

namespace Sentence

variable {next : Kind} {value : Phrase} {word name assign : Token} {semicolon : Option Token}

theorem fits_letStmt_iff : (letStmt word name assign value semicolon).fits next ↔
    word.kind = .letWord ∧ name.kind = .identifier ∧ assign.kind = .assign ∧
      value.fits (kindBehind semicolon next) ∧ endsValue semicolon next := by
  simp [fits, and_assoc]

theorem fits_bareReturn_iff : (bareReturn word semicolon).fits next ↔
    word.kind = .returnWord ∧ endsReturn semicolon next := by
  simp [fits]

theorem fits_returnValue_iff : (returnValue word value semicolon).fits next ↔
    word.kind = .returnWord ∧ value.fits (kindBehind semicolon next) ∧ endsValue semicolon next := by
  simp [fits, and_assoc]

theorem fits_expression_iff : (expression value semicolon).fits next ↔
    value.fits (kindBehind semicolon next) ∧ endsValue semicolon next := by
  simp [fits]

theorem fitsAll_cons_iff {s : Sentence} {ss : List Sentence} :
    fitsAll (s :: ss) next ↔ s.fits (firstKind next ss) ∧ fitsAll ss next := by
  simp [fitsAll]

end Sentence

/-! ## Values of statements -/

/-- The value of a statement, the semicolon behind it, and what statement its tree makes. -/
def Sentence.value? : Sentence → Option (Phrase × Option Token × (Expr → Stmt))
  | .letStmt word name _ value semicolon => some (value, semicolon, .letStmt word ⟨name, name.text⟩)
  | .bareReturn _ _ => none
  | .returnValue word value semicolon => some (value, semicolon, .returnValue word)
  | .expression value semicolon => some (value, semicolon, .expression value.first)

section

variable {s : Sentence} {value : Phrase} {semicolon : Option Token} {build : Expr → Stmt}

theorem Sentence.tree_of_value? (h : s.value? = some (value, semicolon, build)) :
    s.tree = build value.tree := by
  cases s <;> cases h <;> rfl

theorem Sentence.nesting_of_value? (h : s.value? = some (value, semicolon, build)) :
    s.nesting = value.nesting := by
  cases s <;> cases h <;> rfl

theorem Sentence.fits_of_value? {next : Kind} (h : s.value? = some (value, semicolon, build))
    (hfits : s.fits next) : value.fits (kindBehind semicolon next) ∧ endsValue semicolon next := by
  cases s <;> cases h <;> simp_all [fits]

end

/-- The tokens are an admissible printing of the program, nested no deeper than the limit. -/
def Program.IsPrintedAs (program : Program) (ts : List Token) : Prop :=
  ∃ text : List Sentence,
    Sentence.treeAll text = program.statements ∧ Sentence.tokensAll text = ts ∧
      Sentence.fitsAll text .eof ∧ Sentence.nestingAll text ≤ Parser.nestingLimit

/-! ## First tokens -/

/-- The kinds of token that statements begin with. -/
def Kind.startsStatement (k : Kind) : Bool :=
  k.startsExpression || k = .letWord || k = .returnWord

theorem Phrase.exists_tokens_eq_cons : (w : Phrase) → ∃ ts, w.tokens = w.first :: ts
  | .identifier _ => ⟨_, rfl⟩
  | .integer _ => ⟨_, rfl⟩
  | .boolean _ => ⟨_, rfl⟩
  | .unary _ _ => ⟨_, rfl⟩
  | .binary left operator right => by
    obtain ⟨ts, hts⟩ := left.exists_tokens_eq_cons
    exact ⟨ts ++ operator :: right.tokens, by simp [tokens, first, hts]⟩
  | .group _ _ _ => ⟨_, rfl⟩
  | .ifThen _ _ _ _ _ => ⟨_, rfl⟩
  | .ifElse _ _ _ _ _ _ _ => ⟨_, rfl⟩

theorem Sentence.exists_tokens_eq_cons (s : Sentence) : ∃ ts, s.tokens = s.first :: ts := by
  cases s with
  | letStmt _ _ _ _ _ => exact ⟨_, rfl⟩
  | bareReturn _ _ => exact ⟨_, rfl⟩
  | returnValue _ _ _ => exact ⟨_, rfl⟩
  | expression value semicolon =>
    obtain ⟨ts, hts⟩ := value.exists_tokens_eq_cons
    exact ⟨ts ++ semicolon.toList, by simp [tokens, first, hts]⟩

theorem Braces.exists_tokens_eq_cons {next : Kind} {b : Braces} (h : b.fits next) :
    ∃ brace ts, b.tokens = brace :: ts ∧ brace.kind = .openCurly := by
  obtain ⟨brace, body, closing⟩ := b
  refine ⟨brace, _, rfl, ?_⟩
  cases closing with
  | some _ => exact (fits_closed_iff.1 h).1
  | none => exact (fits_unclosed_iff.1 h).1

/-- The first token of an admissible form tells which form begins. -/
theorem Phrase.opener?_first {next : Kind} :
    (w : Phrase) → w.fits next → w.first.kind.opener? = some w.form
  | .identifier _, h => by
    rw [first, fits_identifier_iff.1 h]
    rfl
  | .integer _, h => by
    rw [first, (fits_integer_iff.1 h).1]
    rfl
  | .boolean _, h => by
    rw [first]
    rcases fits_boolean_iff.1 h with h | h <;> rw [h] <;> rfl
  | .unary _ _, h => by
    rw [first]
    rcases (fits_unary_iff.1 h).1 with h | h <;> rw [h] <;> rfl
  | .binary left _ _, h => left.opener?_first (fits_binary_iff.1 h).2.2.1
  | .group _ _ _, h => by
    rw [first, (fits_group_iff.1 h).1]
    rfl
  | .ifThen _ _ _ _ _, h => by
    rw [first, (fits_ifThen_iff.1 h).1]
    rfl
  | .ifElse _ _ _ _ _ _ _, h => by
    rw [first, (fits_ifElse_iff.1 h).1]
    rfl

theorem Phrase.startsExpression_first {next : Kind} (w : Phrase) (h : w.fits next) :
    w.first.kind.startsExpression := by
  rw [Kind.startsExpression, w.opener?_first h]
  rfl

theorem Sentence.startsStatement_first {next : Kind} {s : Sentence} (h : s.fits next) :
    s.first.kind.startsStatement := by
  cases s with
  | letStmt _ _ _ _ _ => simp [first, Kind.startsStatement, (fits_letStmt_iff.1 h).1]
  | bareReturn _ _ => simp [first, Kind.startsStatement, (fits_bareReturn_iff.1 h).1]
  | returnValue _ _ _ => simp [first, Kind.startsStatement, (fits_returnValue_iff.1 h).1]
  | expression value _ =>
    simp [first, Kind.startsStatement, value.startsExpression_first (fits_expression_iff.1 h).1]

theorem Sentence.headKind_tokensAll_append (ss : List Sentence) (rest : List Token) :
    headKind (tokensAll ss ++ rest) = firstKind (headKind rest) ss := by
  cases ss with
  | nil => rfl
  | cons s ss =>
    obtain ⟨ts, hts⟩ := s.exists_tokens_eq_cons
    simp [tokensAll, hts, firstKind]

/-- Induction along the left operands of binary forms. -/
theorem Phrase.spine_induction {motive : Phrase → Prop} (core : ∀ w, w.strength = .call → motive w)
    (binary : ∀ left operator right, motive left → motive (.binary left operator right)) :
    ∀ w, motive w
  | .identifier _ => core _ rfl
  | .integer _ => core _ rfl
  | .boolean _ => core _ rfl
  | .unary _ _ => core _ rfl
  | .binary left _ _ => binary _ _ _ (spine_induction core binary left)
  | .group _ _ _ => core _ rfl
  | .ifThen _ _ _ _ _ => core _ rfl
  | .ifElse _ _ _ _ _ _ _ => core _ rfl

/-- No binary expression binds as strongly as an expression without operators on its two sides. -/
theorem Phrase.strength_binary_ne_call (left : Phrase) (operator : Token) (right : Phrase) :
    (binary left operator right).strength ≠ .call := by
  intro h
  have hlt := operator.kind.precedence_lt_call
  rw [show operator.kind.precedence = .call from h] at hlt
  exact Nat.lt_irrefl _ hlt

theorem Phrase.nesting_pos (w : Phrase) : 0 < w.nesting := by
  cases w with
  | binary left operator right => exact Nat.lt_of_lt_of_le (Nat.succ_pos _) (Nat.le_max_right ..)
  | identifier => exact Nat.one_pos
  | integer => exact Nat.one_pos
  | boolean => exact Nat.one_pos
  | _ => exact Nat.succ_pos _

/-- At the lowest limit every admissible form can be read. -/
theorem Phrase.lowest_lt_strength {w : Phrase} {next : Kind} (h : w.fits next) :
    Precedence.lowest < w.strength := by
  cases w with
  | binary left operator right =>
    exact (Kind.isOperator_iff_lowest_lt _).1 (fits_binary_iff.1 h).1
  | _ => exact (by decide : Precedence.lowest < Precedence.call)

end MonkeyFrontEnd
