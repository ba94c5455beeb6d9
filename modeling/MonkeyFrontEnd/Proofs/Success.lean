import MonkeyFrontEnd.Proofs.Quiet

/-!
Runs that give a value, whatever is recorded on the way. For every rule it is said once how such a
run goes: which tokens the rule found, how the rules inside it ran, and what the value is made of.
-/

namespace MonkeyFrontEnd

variable {σ : Type} [TokenSource σ] {α β : Type}

namespace Builder

variable {p q : Parser σ} {b : Builder σ α} {f : α → Builder σ β} {c : β}

theorem exists_of_run_bind (h : (b >>= f).run p = (.ok c, q)) :
    ∃ a m, b.run p = (.ok a, m) ∧ (f a).run m = (.ok c, q) := by
  rw [run_bind] at h
  rcases hb : b.run p with ⟨d | a, m⟩
  · rw [hb] at h
    simp at h
  · rw [hb] at h
    exact ⟨a, m, rfl, h⟩

theorem of_run_expect_bind {kind : Kind} {f : Token → Builder σ β}
    (h : (expect kind >>= f).run p = (.ok c, q)) :
    p.peek.kind = kind ∧ (f p.peek).run p.advance = (.ok c, q) := by
  rw [run_bind, run_expect] at h
  by_cases hkind : p.peek.kind = kind
  · simp only [hkind, if_true] at h
    exact ⟨hkind, h⟩
  · simp [hkind] at h

theorem of_run_pure {a : α} {c : α} (h : (pure a : Builder σ α).run p = (.ok c, q)) :
    c = a ∧ q = p := by
  simp only [run_pure, Prod.mk.injEq, Except.ok.injEq] at h
  exact ⟨h.1.symm, h.2.symm⟩

end Builder

namespace Grammar

open Builder (exists_of_run_bind of_run_expect_bind of_run_pure run_current_bind run_peek_bind
  run_advance_bind run_takeSemicolon_bind run_ofAction)

variable {expr : Precedence → Builder σ Expr} {p q : Parser σ} {e left : Expr} {s : Stmt}
  {limit : Precedence}

/-! ## Expressions -/

theorem exists_of_run_unary (h : (unary expr).run p = (.ok e, q)) :
    ∃ a, (expr .unary).run p.advance = (.ok a, q) ∧ e = .unary p.current p.current.text a := by
  rw [unary, run_advance_bind] at h
  obtain ⟨a, m, ha, h⟩ := exists_of_run_bind h
  obtain ⟨rfl, rfl⟩ := of_run_pure h
  exact ⟨a, ha, rfl⟩

theorem exists_of_run_binary (h : (binary expr left).run p = (.ok e, q)) :
    ∃ a, (expr p.current.kind.precedence).run p.advance = (.ok a, q) ∧
      e = .binary p.current p.current.text left a := by
  rw [binary, run_advance_bind] at h
  obtain ⟨a, m, ha, h⟩ := exists_of_run_bind h
  obtain ⟨rfl, rfl⟩ := of_run_pure h
  exact ⟨a, ha, rfl⟩

theorem exists_of_run_integer (h : (integer : Builder σ Expr).run p = (.ok e, q)) :
    ∃ value, IntegerLiteral.read p.current.text = some value ∧ e = .integer p.current value ∧
      q = p := by
  rw [integer, run_current_bind] at h
  cases hread : IntegerLiteral.read p.current.text with
  | none => simp [hread] at h
  | some value =>
    simp only [hread] at h
    obtain ⟨rfl, rfl⟩ := of_run_pure h
    exact ⟨value, rfl, rfl, rfl⟩

theorem exists_of_run_group (h : (group expr).run p = (.ok e, q)) :
    ∃ m, (expr .lowest).run p.advance = (.ok e, m) ∧ m.peek.kind = .closeParen ∧
      q = m.advance := by
  rw [group, run_advance_bind] at h
  obtain ⟨inner, m, hinner, h⟩ := exists_of_run_bind h
  obtain ⟨hclose, h⟩ := of_run_expect_bind h
  obtain ⟨rfl, rfl⟩ := of_run_pure h
  exact ⟨m, hinner, hclose, rfl⟩

theorem exists_of_run_conditional (h : (conditional expr).run p = (.ok e, q)) :
    p.peek.kind = .openParen ∧ ∃ c m, (expr .lowest).run p.advance.advance = (.ok c, m) ∧
      m.peek.kind = .closeParen ∧ m.advance.peek.kind = .openCurly ∧
      ∃ b n, (block expr).run m.advance.advance = (b, n) ∧
        (n.peek.kind = .elseWord ∧ n.advance.peek.kind = .openCurly ∧
            (∃ a, (block expr).run n.advance.advance = (a, q) ∧ e = .ifElse p.current c b a) ∨
          e = .ifThen p.current c b ∧ q = n) := by
  rw [conditional, run_current_bind] at h
  obtain ⟨hopen, h⟩ := of_run_expect_bind h
  rw [run_advance_bind] at h
  obtain ⟨c, m, hc, h⟩ := exists_of_run_bind h
  obtain ⟨hclose, h⟩ := of_run_expect_bind h
  obtain ⟨hcurly, h⟩ := of_run_expect_bind h
  obtain ⟨b, n, hb, h⟩ := exists_of_run_bind h
  refine ⟨hopen, c, m, hc, hclose, hcurly, b, n, ?_, ?_⟩
  · simpa [run_ofAction, Prod.ext_iff] using hb
  · rw [run_peek_bind] at h
    split at h
    · next helse =>
      rw [run_advance_bind] at h
      obtain ⟨hcurly', h⟩ := of_run_expect_bind h
      obtain ⟨a, m', ha, h⟩ := exists_of_run_bind h
      obtain ⟨rfl, rfl⟩ := of_run_pure h
      exact .inl ⟨helse, hcurly', a, by simpa [run_ofAction, Prod.ext_iff] using ha, rfl⟩
    · exact .inr (of_run_pure h)

/-- The form of an expression that was begun is the one that its first token tells. -/
theorem cases_of_run_opening (h : (opening expr).run p = (.ok e, q)) :
    p.current.kind = .identifier ∧ e = .identifier ⟨p.current, p.current.text⟩ ∧ q = p ∨
    p.current.kind = .integer ∧ integer.run p = (.ok e, q) ∨
    (p.current.kind = .trueWord ∨ p.current.kind = .falseWord) ∧
      e = .boolean p.current (p.current.kind = .trueWord) ∧ q = p ∨
    (p.current.kind = .bang ∨ p.current.kind = .minus) ∧ (unary expr).run p = (.ok e, q) ∨
    p.current.kind = .openParen ∧ (group expr).run p = (.ok e, q) ∨
    p.current.kind = .ifWord ∧ (conditional expr).run p = (.ok e, q) := by
  rw [opening, run_current_bind] at h
  cases hform : p.current.kind.opener? with
  | none => simp [hform] at h
  | some form =>
    have hkind := (Kind.opener?_eq_some_iff _ _).1 hform
    simp only [hform] at h
    cases form <;> simp only [Opener.kinds, List.mem_cons, List.not_mem_nil, or_false] at hkind
    case identifier => exact .inl ⟨hkind, of_run_pure h⟩
    case integer => exact .inr (.inl ⟨hkind, h⟩)
    case boolean => exact .inr (.inr (.inl ⟨hkind, of_run_pure h⟩))
    case unary => exact .inr (.inr (.inr (.inl ⟨hkind, h⟩)))
    case group => exact .inr (.inr (.inr (.inr (.inl ⟨hkind, h⟩))))
    case conditional => exact .inr (.inr (.inr (.inr (.inr ⟨hkind, h⟩))))

theorem exists_of_run_expressionAt {room : Nat} (h : (expressionAt room limit).run p = (.ok e, q)) :
    ∃ inside m, room = inside + 1 ∧
      (body (expressionAt inside) limit).run { p with depth := p.depth + 1 } = (.ok e, m) ∧
      q = m.leave := by
  cases room with
  | zero => simp [run_expressionAt_zero] at h
  | succ inside =>
    rw [run_expressionAt_succ, Prod.mk.injEq] at h
    exact ⟨inside, _, rfl, Prod.ext h.1 rfl, h.2.symm⟩

/-! ## Statements -/

/-- A value and perhaps a semicolon behind it. -/
theorem exists_of_run_value {g : Expr → Stmt}
    (h : (do let value ← expr .lowest; Builder.takeSemicolon; return g value :
      Builder σ Stmt).run p = (.ok s, q)) :
    ∃ e m, (expr .lowest).run p = (.ok e, m) ∧ q = m.passSemicolon ∧ s = g e := by
  obtain ⟨e, m, he, h⟩ := exists_of_run_bind h
  rw [run_takeSemicolon_bind] at h
  obtain ⟨rfl, rfl⟩ := of_run_pure h
  exact ⟨e, m, he, rfl, rfl⟩

theorem exists_of_run_letStatement (h : (letStatement expr).run p = (.ok s, q)) :
    p.peek.kind = .identifier ∧ p.advance.peek.kind = .assign ∧
      ∃ e m, (expr .lowest).run p.advance.advance.advance = (.ok e, m) ∧ q = m.passSemicolon ∧
        s = .letStmt p.current ⟨p.peek, p.peek.text⟩ e := by
  rw [letStatement, run_current_bind] at h
  obtain ⟨hname, h⟩ := of_run_expect_bind h
  obtain ⟨hassign, h⟩ := of_run_expect_bind h
  rw [run_advance_bind] at h
  exact ⟨hname, hassign, exists_of_run_value h⟩

theorem cases_of_run_returnStatement (h : (returnStatement expr).run p = (.ok s, q)) :
    s = .bareReturn p.current ∧ (q = p.advance ∨ q = p) ∨
      ∃ e m, (expr .lowest).run p.advance = (.ok e, m) ∧ q = m.passSemicolon ∧
        s = .returnValue p.current e := by
  rw [returnStatement, run_current_bind, run_peek_bind] at h
  split at h
  · rw [run_advance_bind] at h
    obtain ⟨rfl, rfl⟩ := of_run_pure h
    exact .inl ⟨rfl, .inl rfl⟩
  · split at h
    · obtain ⟨rfl, rfl⟩ := of_run_pure h
      exact .inl ⟨rfl, .inr rfl⟩
    · rw [run_advance_bind] at h
      exact .inr (exists_of_run_value h)

theorem exists_of_run_expressionStatement (h : (expressionStatement expr).run p = (.ok s, q)) :
    ∃ e m, (expr .lowest).run p = (.ok e, m) ∧ q = m.passSemicolon ∧
      s = .expression p.current e := by
  rw [expressionStatement, run_current_bind] at h
  exact exists_of_run_value h

/-- The first token tells which statement was read. -/
theorem cases_of_run_statement (h : (statement expr).run p = (.ok s, q)) :
    p.current.kind = .letWord ∧ (letStatement expr).run p = (.ok s, q) ∨
    p.current.kind = .returnWord ∧ (returnStatement expr).run p = (.ok s, q) ∨
    (expressionStatement expr).run p = (.ok s, q) := by
  rw [statement, run_current_bind] at h
  split at h
  · next hlet => exact .inl ⟨hlet, h⟩
  · split at h
    · next hreturn => exact .inr (.inl ⟨hreturn, h⟩)
    · exact .inr (.inr h)

end Grammar

end MonkeyFrontEnd
