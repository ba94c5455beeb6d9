import MonkeyFrontEnd.Proofs.Success

/-!
Trees that agree with their tokens. A node keeps beside its token a name, a value or an operator, and
nothing in the type of trees ties these to the token. In a tree that was read they are what the token
says, and the token is of a kind that the form of the node asks for, whether or not errors were recorded
on the way (`isConsistent_parseTokens`). No rule looks at the token that it builds a node from; its
caller has, so what each rule gives is shown from the kind of the current token.
-/

namespace MonkeyFrontEnd

/-! ## Consistent trees -/

/-- The name is the text of a token for names. -/
structure Identifier.IsConsistent (id : Identifier) : Prop where
  kind : id.token.kind = .identifier
  name_eq : id.name = id.token.text

mutual

/-- Every node inside the expression agrees with its token. -/
def Expr.IsConsistent : Expr → Prop
  | .identifier id => id.IsConsistent
  | .integer token value =>
    token.kind = .integer ∧ ∃ n : Nat, IntegerLiteral.read token.text = some n ∧ value = n ∧ 0 ≤ value
  | .boolean token value =>
    (token.kind = .trueWord ∨ token.kind = .falseWord) ∧ (value = true ↔ token.kind = .trueWord)
  | .unary token operator operand =>
    (token.kind = .bang ∨ token.kind = .minus) ∧ operator = token.text ∧ operand.IsConsistent
  | .binary token operator left right =>
    token.kind.isOperator ∧ operator = token.text ∧ left.IsConsistent ∧ right.IsConsistent
  | .ifThen token condition consequence =>
    token.kind = .ifWord ∧ condition.IsConsistent ∧ consequence.IsConsistent
  | .ifElse token condition consequence alternative =>
    token.kind = .ifWord ∧ condition.IsConsistent ∧ consequence.IsConsistent ∧
      alternative.IsConsistent
termination_by structural e => e

def Block.IsConsistent : Block → Prop
  | .mk brace statements => brace.kind = .openCurly ∧ Stmt.AllConsistent statements
termination_by structural b => b

/-- No block stands in the place of a statement. -/
def Stmt.IsConsistent : Stmt → Prop
  | .letStmt token id value => token.kind = .letWord ∧ id.IsConsistent ∧ value.IsConsistent
  | .bareReturn token => token.kind = .returnWord
  | .returnValue token value => token.kind = .returnWord ∧ value.IsConsistent
  | .expression token value => token.kind.startsExpression ∧ value.IsConsistent
  | .block _ => False
termination_by structural s => s

def Stmt.AllConsistent : List Stmt → Prop
  | [] => True
  | s :: rest => s.IsConsistent ∧ Stmt.AllConsistent rest
termination_by structural ss => ss

end

def Program.IsConsistent (program : Program) : Prop := Stmt.AllConsistent program.statements

theorem Stmt.AllConsistent.append {ss rest : List Stmt} (h : AllConsistent ss)
    (hrest : AllConsistent rest) : AllConsistent (ss ++ rest) := by
  induction ss with
  | nil => exact hrest
  | cons s ss ih => exact ⟨h.1, ih h.2⟩

/-! ## Rules -/

variable {σ : Type} [TokenSource σ] {p q : Parser σ}

/-- Whatever expression the builder gives is consistent, and began with a token that can begin one. -/
def Builder.ReadsConsistent (b : Builder σ Expr) : Prop :=
  ∀ {p q : Parser σ} {e : Expr}, b.run p = (.ok e, q) →
    p.current.kind.startsExpression ∧ e.IsConsistent

namespace Grammar

variable {expr : Precedence → Builder σ Expr} {e left : Expr} {s : Stmt} {limit : Precedence}

section

variable (hexpr : ∀ limit, (expr limit).ReadsConsistent)

include hexpr

/-! ### Statements -/

/-- The words `let` and `return` are known where their rules are called; what is left is read as an
expression, and this one tells by itself how it began. -/
theorem isConsistent_of_run_statement (h : (statement expr).run p = (.ok s, q)) : s.IsConsistent := by
  rcases cases_of_run_statement h with ⟨hkind, h⟩ | ⟨hkind, h⟩ | h
  · obtain ⟨hname, -, e, m, he, -, rfl⟩ := exists_of_run_letStatement h
    exact ⟨hkind, ⟨hname, rfl⟩, (hexpr _ he).2⟩
  · rcases cases_of_run_returnStatement h with ⟨rfl, -⟩ | ⟨e, m, he, -, rfl⟩
    · exact hkind
    · exact ⟨hkind, (hexpr _ he).2⟩
  · obtain ⟨e, m, he, -, rfl⟩ := exists_of_run_expressionStatement h
    exact hexpr _ he

/-- A failed try leaves no statement behind. -/
theorem allConsistent_attempt (p : Parser σ) :
    Stmt.AllConsistent ((attempt expr).run p).1.toList := by
  rcases hrun : (statement expr).run p with ⟨d | s, m⟩
  · rw [run_attempt_of_error hrun]
    exact trivial
  · rw [run_attempt_of_ok hrun]
    exact ⟨isConsistent_of_run_statement hexpr hrun, trivial⟩

theorem allConsistent_statements (closing : Option Kind) (p : Parser σ) :
    Stmt.AllConsistent ((statements expr closing).run p).1 := by
  induction hleft : p.left using Nat.strongRecOn generalizing p with
  | ind n ih =>
    subst hleft
    by_cases hclose : closes closing p.current.kind
    · rw [run_statements_of_closes expr hclose]
      exact trivial
    · rw [run_statements_of_not_closes expr hclose]
      exact (allConsistent_attempt hexpr p).append
        (ih _ (left_attempt_lt expr (current_ne_eof hclose)) _ rfl)

theorem isConsistent_of_run_block {b : Block} (hkind : p.current.kind = .openCurly)
    (h : (block expr).run p = (b, q)) : b.IsConsistent := by
  obtain ⟨rfl, -⟩ := Prod.mk.inj ((run_block expr p).symm.trans h)
  exact ⟨hkind, allConsistent_statements hexpr _ _⟩

/-! ### Expressions -/

theorem isConsistent_of_run_conditional (hkind : p.current.kind = .ifWord)
    (h : (conditional expr).run p = (.ok e, q)) : e.IsConsistent := by
  obtain ⟨-, c, m, hc, -, hcurly, b, n, hb, hrest⟩ := exists_of_run_conditional h
  have hcondition := (hexpr _ hc).2
  have hconsequence := isConsistent_of_run_block hexpr (p := m.advance.advance) hcurly hb
  rcases hrest with ⟨-, hcurly', a, ha, rfl⟩ | ⟨rfl, -⟩
  · have halternative := isConsistent_of_run_block hexpr (p := n.advance.advance) hcurly' ha
    exact ⟨hkind, hcondition, hconsequence, halternative⟩
  · exact ⟨hkind, hcondition, hconsequence⟩

/-- The kind that chooses the form of an expression is one that this form asks for. -/
theorem readsConsistent_opening : (opening expr).ReadsConsistent := by
  intro p q e h
  rcases cases_of_run_opening h with ⟨hkind, rfl, -⟩ | ⟨hkind, h⟩ | ⟨hkind, rfl, -⟩ |
    ⟨hkind, h⟩ | ⟨hkind, h⟩ | ⟨hkind, h⟩
  · exact ⟨by rw [hkind]; rfl, hkind, rfl⟩
  · obtain ⟨value, hread, rfl, -⟩ := exists_of_run_integer h
    exact ⟨by rw [hkind]; rfl, hkind, value, hread, rfl, Int.natCast_nonneg value⟩
  · refine ⟨?_, hkind, decide_eq_true_iff⟩
    rcases hkind with hkind | hkind <;> rw [hkind] <;> rfl
  · obtain ⟨a, ha, rfl⟩ := exists_of_run_unary h
    refine ⟨?_, hkind, rfl, (hexpr _ ha).2⟩
    rcases hkind with hkind | hkind <;> rw [hkind] <;> rfl
  · obtain ⟨m, hm, -, -⟩ := exists_of_run_group h
    exact ⟨by rw [hkind]; rfl, (hexpr _ hm).2⟩
  · exact ⟨by rw [hkind]; rfl, isConsistent_of_run_conditional hexpr hkind h⟩

/-- Only operators bind more strongly than any limit, so only they are joined. -/
theorem isConsistent_of_run_join (hleft : left.IsConsistent)
    (h : (join expr limit left).run p = (.ok e, q)) : e.IsConsistent := by
  change joinFrom expr limit left p = (.ok e, q) at h
  fun_induction joinFrom expr limit left p with
  | case1 left p hlimit joined joined' hjoined ih =>
    refine ih ?_ h
    obtain ⟨a, ha, rfl⟩ := exists_of_run_binary (Prod.ext hjoined rfl)
    have hoperator : p.peek.kind.isOperator :=
      (Kind.isOperator_iff_lowest_lt _).2 (Nat.lt_of_le_of_lt (Nat.zero_le _) hlimit)
    exact ⟨hoperator, rfl, hleft, (hexpr _ ha).2⟩
  | case2 left p _ joined d _ => simp at h
  | case3 left p _ =>
    obtain rfl := Except.ok.inj (Prod.mk.inj h).1
    exact hleft

theorem readsConsistent_body (limit : Precedence) : (body expr limit).ReadsConsistent := by
  intro p q e h
  obtain ⟨left, m, hopening, hjoin⟩ := Builder.exists_of_run_bind h
  obtain ⟨hkind, hleft⟩ := readsConsistent_opening hexpr hopening
  exact ⟨hkind, isConsistent_of_run_join hexpr hleft hjoin⟩

end

theorem readsConsistent_expressionAt (room : Nat) (limit : Precedence) :
    (expressionAt room limit : Builder σ Expr).ReadsConsistent := by
  induction room generalizing limit with
  | zero =>
    intro p q e h
    simp [run_expressionAt_zero] at h
  | succ room ih =>
    intro p q e h
    obtain ⟨inside, m, hroom, hbody, -⟩ := exists_of_run_expressionAt h
    obtain rfl : room = inside := Nat.succ.inj hroom
    -- Entering the expression leaves the current token as it is.
    have hread := readsConsistent_body ih limit hbody
    exact hread

theorem readsConsistent_expression (limit : Precedence) :
    (expression limit : Builder σ Expr).ReadsConsistent :=
  fun {p} _ _ h => readsConsistent_expressionAt p.room limit h

end Grammar

/-! ## Programs -/

theorem isConsistent_parse (s : σ) : (parse s).1.IsConsistent :=
  Grammar.allConsistent_statements Grammar.readsConsistent_expression none (Parser.start s)

/-- Whatever tokens are parsed, and whatever is recorded about them, the program that is returned is
consistent. -/
theorem isConsistent_parseTokens (ts : List Token) : (parseTokens ts).1.IsConsistent :=
  isConsistent_parse (ReadyTokens.ofList ts)

end MonkeyFrontEnd
