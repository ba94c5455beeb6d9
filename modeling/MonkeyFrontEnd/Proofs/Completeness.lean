import MonkeyFrontEnd.Proofs.Phrase
import MonkeyFrontEnd.Proofs.Quiet
import MonkeyFrontEnd.Proofs.StateMap

/-!
Every admissible printing is accepted, with its tree. The induction is on the room for nesting: a
rule for expressions that reads all forms up to some nesting is extended to the forms that nest one
deeper. Inside one step the left spine of a binary form is followed by its own induction, since left
operands open no expression of their own.
-/

namespace MonkeyFrontEnd.Grammar

variable {σ : Type} [TokenSource σ]

/-- The rule reads all admissible forms up to the given nesting whose operators bind more strongly
than the limit, before a token that does not, and stops in front of that token. -/
def Complete (expr : Precedence → Builder σ Expr) (room : Nat) : Prop :=
  ∀ (w : Phrase) (limit : Precedence) (p : Parser σ) (rest : List Token),
    p.tokens = w.tokens ++ rest → w.fits (headKind rest) → w.nesting ≤ room →
    limit < w.strength → ¬ limit < (headKind rest).precedence →
    ∃ q, (expr limit).Gives p w.tree q ∧ q.ahead = rest

/-! ## Statements -/

/-- A token that ends a value does not go on with it. -/
theorem not_lowest_lt_of_endsValue {semicolon : Option Token} {next : Kind}
    (h : endsValue semicolon next) :
    ¬ Precedence.lowest < (kindBehind semicolon next).precedence := by
  cases semicolon with
  | none =>
    simp only [endsValue, Bool.and_eq_true, Bool.not_eq_true'] at h
    rw [kindBehind, Option.map_none, Option.getD_none, ← Kind.isOperator_iff_lowest_lt, h.1]
    decide
  | some t =>
    simp only [endsValue, decide_eq_true_eq] at h
    rw [kindBehind, Option.map_some, Option.getD_some, h]
    decide

theorem headKind_semicolon_append (semicolon : Option Token) (rest : List Token) :
    headKind (semicolon.toList ++ rest) = kindBehind semicolon (headKind rest) := by
  cases semicolon <;> rfl

/-- Behind a value the semicolon that belongs to it is passed, and nothing else. -/
theorem ahead_passSemicolon {m : Parser σ} {semicolon : Option Token} {rest : List Token}
    (hm : m.ahead = semicolon.toList ++ rest) (hends : endsValue semicolon (headKind rest)) :
    m.passSemicolon.ahead = rest := by
  have hpeek : m.peek.kind = kindBehind semicolon (headKind rest) := by
    rw [← Parser.headKind_ahead, hm, headKind_semicolon_append]
  cases semicolon with
  | none =>
    simp only [endsValue, Bool.and_eq_true, decide_eq_true_eq] at hends
    rw [Parser.passSemicolon, if_neg (by rw [hpeek]; exact hends.2), hm]
    rfl
  | some t =>
    simp only [endsValue, decide_eq_true_eq] at hends
    rw [Parser.passSemicolon, if_pos (by rw [hpeek]; exact hends)]
    exact Parser.ahead_of_tokens (p := m.advance) hm

/-- The value of a statement and perhaps a semicolon behind it. -/
def valueEnd (expr : Precedence → Builder σ Expr) (build : Expr → Stmt) : Builder σ Stmt := do
  let value ← expr .lowest
  Builder.takeSemicolon
  return build value

section

variable {p : Parser σ} {rest : List Token}

theorem ne_of_startsExpression {k k' : Kind} (h : k.startsExpression) (h' : ¬ k'.startsExpression) :
    k ≠ k' := by
  rintro rfl
  exact h' h

section

variable (expr : Precedence → Builder σ Expr) {word : Token}

theorem run_statement_let {name assign : Token} (hp : p.tokens = word :: name :: assign :: rest)
    (hword : word.kind = .letWord) (hname : name.kind = .identifier) (hassign : assign.kind = .assign) :
    (statement expr).run p =
      (valueEnd expr (.letStmt word ⟨name, name.text⟩)).run p.advance.advance.advance := by
  have hcurrent := Parser.current_of_tokens hp
  have hahead := Parser.ahead_of_tokens hp
  have hpeek := Parser.peek_of_ahead hahead
  have hpeek' := Parser.peek_of_ahead (Parser.ahead_of_tokens (p := p.advance) hahead)
  rw [statement, Builder.run_current_bind, if_pos (by rw [hcurrent, hword]), letStatement,
    Builder.run_current_bind, Builder.run_expect_bind (by rw [hpeek, hname]),
    Builder.run_expect_bind (by rw [hpeek', hassign]), Builder.run_advance_bind, hcurrent, hpeek]
  rfl

/-- What follows tells the statement from a bare `return`. -/
theorem run_statement_return (hp : p.tokens = word :: rest) (hword : word.kind = .returnWord)
    (hsemicolon : p.peek.kind ≠ .semicolon)
    (hbare : ¬ (p.peek.kind = .closeCurly ∨ p.peek.kind = .eof)) :
    (statement expr).run p = (valueEnd expr (.returnValue word)).run p.advance := by
  have hcurrent := Parser.current_of_tokens hp
  rw [statement, Builder.run_current_bind, hcurrent, if_neg (by rw [hword]; decide), if_pos hword,
    returnStatement, Builder.run_current_bind, Builder.run_peek_bind, if_neg hsemicolon, if_neg hbare,
    Builder.run_advance_bind, hcurrent]
  rfl

theorem run_statement_expression (hp : p.tokens = word :: rest) (hword : word.kind.startsExpression) :
    (statement expr).run p = (valueEnd expr (.expression word)).run p := by
  have hcurrent := Parser.current_of_tokens hp
  rw [statement, Builder.run_current_bind, hcurrent,
    if_neg (ne_of_startsExpression hword (by decide)), if_neg (ne_of_startsExpression hword (by decide)),
    expressionStatement, Builder.run_current_bind, hcurrent]
  rfl

/-- What stands before the value of a statement leads to it, with nothing recorded. -/
theorem exists_run_statement {s : Sentence} {value : Phrase} {semicolon : Option Token}
    {build : Expr → Stmt} (hvalue : s.value? = some (value, semicolon, build))
    (hp : p.tokens = s.tokens ++ rest) (hfits : s.fits (headKind rest)) :
    ∃ m, m.tokens = value.tokens ++ (semicolon.toList ++ rest) ∧ m.diagnostics = p.diagnostics ∧
      (statement expr).run p = (valueEnd expr build).run m := by
  have hstarts := value.startsExpression_first (Sentence.fits_of_value? hvalue hfits).1
  obtain ⟨ts, hts⟩ := value.exists_tokens_eq_cons
  cases s with
  | letStmt word name assign value semicolon =>
    cases hvalue
    obtain ⟨hword, hname, hassign, -, -⟩ := Sentence.fits_letStmt_iff.1 hfits
    simp only [Sentence.tokens, List.cons_append, List.append_assoc] at hp
    have hahead := Parser.ahead_of_tokens (p := p.advance) (Parser.ahead_of_tokens hp)
    exact ⟨p.advance.advance.advance, Parser.ahead_of_tokens (p := p.advance.advance) hahead, rfl,
      run_statement_let expr hp hword hname hassign⟩
  | bareReturn word semicolon => cases hvalue
  | returnValue word value semicolon =>
    cases hvalue
    have hword := (Sentence.fits_returnValue_iff.1 hfits).1
    simp only [Sentence.tokens, List.cons_append, List.append_assoc] at hp
    have hahead := Parser.ahead_of_tokens hp
    have hvalue : p.peek.kind.startsExpression := by
      rw [hts, List.cons_append] at hahead
      rw [Parser.peek_of_ahead hahead]
      exact hstarts
    refine ⟨p.advance, hahead, rfl, run_statement_return expr hp hword ?_ ?_⟩
    · exact ne_of_startsExpression hvalue (by decide)
    · exact not_or.2 ⟨ne_of_startsExpression hvalue (by decide),
        ne_of_startsExpression hvalue (by decide)⟩
  | expression value semicolon =>
    cases hvalue
    simp only [Sentence.tokens, List.append_assoc] at hp
    refine ⟨p, hp, rfl, ?_⟩
    rw [hts, List.cons_append] at hp
    exact run_statement_expression expr hp hstarts

end

/-- Before a block its brace comes next. -/
theorem peek_of_braces {b : Braces} {next : Kind} (hfits : b.fits next) (hp : p.ahead = b.tokens ++ rest) :
    p.peek.kind = .openCurly := by
  obtain ⟨brace, ts, hts, hbrace⟩ := Braces.exists_tokens_eq_cons hfits
  rw [hts, List.cons_append] at hp
  rw [Parser.peek_of_ahead hp, hbrace]

end

theorem not_closes_of_startsStatement {k : Kind} (h : k.startsStatement) :
    ¬ closes (some .closeCurly) k := by
  revert h
  cases k <;> decide

/-- A block on the current token: its statements are ahead, and they end at a closing brace or at the
end of the input. -/
theorem exists_body_of_fits {b : Braces} {p : Parser σ} {rest : List Token}
    (hp : p.tokens = b.tokens ++ rest) (hfits : b.fits (headKind rest)) :
    ∃ behind, p.ahead = Sentence.tokensAll b.body ++ behind ∧
      b.tree = .mk p.current (Sentence.treeAll b.body) ∧ Sentence.fitsAll b.body (headKind behind) ∧
      closes (some .closeCurly) (headKind behind) ∧
      ∀ q : Parser σ, q.tokens = behind → q.ahead = rest := by
  obtain ⟨opening, body, closing⟩ := b
  rw [Braces.tokens, List.cons_append, List.append_assoc] at hp
  have hahead := Parser.ahead_of_tokens hp
  have htree : (Braces.mk opening body closing).tree = .mk p.current (Sentence.treeAll body) := by
    rw [Parser.current_of_tokens hp, Braces.tree]
  cases closing with
  | some brace =>
    obtain ⟨-, hbody, hbrace⟩ := Braces.fits_closed_iff.1 hfits
    refine ⟨brace :: rest, hahead, htree, ?_, ?_, fun q hq => Parser.ahead_of_tokens hq⟩
    · rw [headKind_cons, hbrace]
      exact hbody
    · simp [closes, hbrace]
  | none =>
    obtain ⟨-, hbody, hend⟩ := Braces.fits_unclosed_iff.1 hfits
    have hnil : rest = [] := by
      refine eq_nil_of_headKind (fun t ht => ?_) hend
      exact Parser.kind_ne_eof_of_mem_tokens (p := p) (t := t) (by rw [hp]; simp [ht])
    subst hnil
    refine ⟨[], hahead, htree, hbody, rfl, fun q hq => Parser.ahead_of_eof ?_⟩
    rw [← Parser.headKind_tokens, hq]
    rfl

section

variable {expr : Precedence → Builder σ Expr} (hexpr : ∀ limit, (expr limit).Framed) {room : Nat}
  (hcomplete : Complete expr room) {p : Parser σ} {rest : List Token}

include hexpr

theorem exists_gives_bareReturn {word : Token} {semicolon : Option Token}
    (hp : p.tokens = (Sentence.bareReturn word semicolon).tokens ++ rest)
    (hfits : (Sentence.bareReturn word semicolon).fits (headKind rest)) :
    ∃ q, (statement expr).Gives p (.bareReturn word) q ∧ q.ahead = rest := by
  obtain ⟨hword, hends⟩ := Sentence.fits_bareReturn_iff.1 hfits
  simp only [Sentence.tokens, List.cons_append] at hp
  have hcurrent := Parser.current_of_tokens hp
  have hahead := Parser.ahead_of_tokens hp
  have hpeek : p.peek.kind = headKind (semicolon.toList ++ rest) := by
    rw [← Parser.headKind_ahead, hahead]
  have hstatement (s : Stmt) (q : Parser σ) :
      (statement expr).Gives p s q ↔ (returnStatement expr).Gives p s q := by
    rw [gives_statement_iff, hcurrent, hword, if_neg (by decide), if_pos rfl]
  simp only [hstatement, gives_returnStatement_iff hexpr, hcurrent, hpeek]
  cases semicolon with
  | some t =>
    simp only [endsReturn, decide_eq_true_eq] at hends
    refine ⟨p.advance, ?_, Parser.ahead_of_tokens (p := p.advance) hahead⟩
    simp [hends]
  | none =>
    simp only [endsReturn, Bool.or_eq_true, decide_eq_true_eq] at hends
    refine ⟨p, ?_, hahead⟩
    rcases hends with h | h <;> simp [h]

include hcomplete

theorem exists_gives_valueEnd {w : Phrase} {semicolon : Option Token} (build : Expr → Stmt)
    (hp : p.tokens = w.tokens ++ (semicolon.toList ++ rest))
    (hfits : w.fits (kindBehind semicolon (headKind rest)))
    (hends : endsValue semicolon (headKind rest)) (hnesting : w.nesting ≤ room) :
    ∃ q, (valueEnd expr build).Gives p (build w.tree) q ∧ q.ahead = rest := by
  have hstop := not_lowest_lt_of_endsValue hends
  rw [← headKind_semicolon_append] at hfits hstop
  obtain ⟨m, hm, hahead⟩ := hcomplete w .lowest p _ hp hfits hnesting
    (Phrase.lowest_lt_strength hfits) hstop
  exact ⟨m.passSemicolon, (gives_value_iff hexpr).2 ⟨w.tree, m, hm, rfl, rfl⟩,
    ahead_passSemicolon hahead hends⟩

theorem exists_gives_statement {s : Sentence} (hp : p.tokens = s.tokens ++ rest)
    (hfits : s.fits (headKind rest)) (hnesting : s.nesting ≤ room) :
    ∃ q, (statement expr).Gives p s.tree q ∧ q.ahead = rest := by
  cases hvalue : s.value? with
  | none =>
    cases s with
    | bareReturn => exact exists_gives_bareReturn hexpr hp hfits
    | _ => cases hvalue
  | some parts =>
    obtain ⟨value, semicolon, build⟩ := parts
    obtain ⟨hvalueFits, hends⟩ := Sentence.fits_of_value? hvalue hfits
    obtain ⟨m, hm, hquiet, hrun⟩ := exists_run_statement expr hvalue hp hfits
    rw [Sentence.nesting_of_value? hvalue] at hnesting
    obtain ⟨q, hq, hrest⟩ := exists_gives_valueEnd hexpr hcomplete build hm hvalueFits hends
      hnesting
    refine ⟨q, ?_, hrest⟩
    rw [Builder.Gives, hrun, Sentence.tree_of_value? hvalue, ← hquiet]
    exact hq

theorem exists_gives_statements {closing : Option Kind} (hclosing : closes closing (headKind rest))
    (hstarts : ∀ k : Kind, k.startsStatement → ¬ closes closing k) (text : List Sentence)
    (hp : p.tokens = Sentence.tokensAll text ++ rest) (hfits : Sentence.fitsAll text (headKind rest))
    (hnesting : Sentence.nestingAll text ≤ room) :
    ∃ q, (statements expr closing).Gives p (Sentence.treeAll text) q ∧ q.tokens = rest := by
  induction text generalizing p with
  | nil =>
    have hkind : closes closing p.current.kind := by
      rw [← Parser.headKind_tokens, hp]
      exact hclosing
    exact ⟨p, by rw [gives_statements_iff hexpr, if_pos hkind]; exact ⟨rfl, rfl⟩, hp⟩
  | cons s text ih =>
    rw [Sentence.fitsAll_cons_iff] at hfits
    simp only [Sentence.nestingAll, Nat.max_le] at hnesting
    rw [Sentence.tokensAll, List.append_assoc] at hp
    rw [← Sentence.headKind_tokensAll_append] at hfits
    obtain ⟨m, hm, hahead⟩ := exists_gives_statement hexpr hcomplete hp hfits.1 hnesting.1
    obtain ⟨q, hq, hrest⟩ := ih (p := (m.complete s.tree).advance) hahead hfits.2 hnesting.2
    refine ⟨q, ?_, hrest⟩
    have hkind : ¬ closes closing p.current.kind := by
      obtain ⟨ts, hts⟩ := s.exists_tokens_eq_cons
      rw [hts, List.cons_append] at hp
      rw [Parser.current_of_tokens hp]
      exact hstarts _ (Sentence.startsStatement_first hfits.1)
    rw [gives_statements_iff hexpr, if_neg hkind]
    exact ⟨s.tree, m, _, hm, hq, rfl⟩

theorem exists_gives_block {b : Braces} (hp : p.tokens = b.tokens ++ rest)
    (hfits : b.fits (headKind rest)) (hnesting : b.nesting ≤ room) :
    ∃ q, (block expr).Gives p b.tree q ∧ q.ahead = rest := by
  obtain ⟨behind, hahead, htree, hbody, hclosing, hrest⟩ := exists_body_of_fits hp hfits
  obtain ⟨q, hq, hbehind⟩ := exists_gives_statements hexpr hcomplete hclosing
    (fun _ => not_closes_of_startsStatement) b.body (p := p.advance) hahead hbody
    (by cases b; exact hnesting)
  refine ⟨q, ?_, hrest q hbehind⟩
  rw [htree, gives_block_iff]
  exact ⟨_, hq, rfl⟩

end

/-! ## Expressions -/

/-- On a written expression the current token tells its form. -/
theorem opener?_current {w : Phrase} {next : Kind} {p : Parser σ} {rest : List Token}
    (hp : p.tokens = w.tokens ++ rest) (hfits : w.fits next) :
    p.current.kind.opener? = some w.form := by
  obtain ⟨ts, hts⟩ := w.exists_tokens_eq_cons
  rw [hts, List.cons_append] at hp
  rw [Parser.current_of_tokens hp, w.opener?_first hfits]

section

variable {expr : Precedence → Builder σ Expr} (hexpr : ∀ limit, (expr limit).Framed) {room : Nat}
  (hcomplete : Complete expr room) {p : Parser σ} {rest : List Token}

include hcomplete

theorem exists_gives_unary {operator : Token} {operand : Phrase}
    (hp : p.tokens = (Phrase.unary operator operand).tokens ++ rest)
    (hfits : (Phrase.unary operator operand).fits (headKind rest))
    (hnesting : operand.nesting ≤ room) :
    ∃ q, (opening expr).Gives p (Phrase.unary operator operand).tree q ∧ q.ahead = rest := by
  obtain ⟨-, hstrength, hoperand⟩ := Phrase.fits_unary_iff.1 hfits
  have hcurrent := Parser.current_of_tokens hp
  have hahead := Parser.ahead_of_tokens hp
  obtain ⟨q, hq, hrest⟩ := hcomplete operand .unary p.advance rest hahead hoperand hnesting
    hstrength (Kind.not_unary_lt_precedence _)
  refine ⟨q, ?_, hrest⟩
  rw [gives_opening_iff, opener?_current hp hfits]
  exact gives_unary_iff.2 ⟨operand.tree, hq, by rw [hcurrent, Phrase.tree]⟩

include hexpr

theorem exists_gives_group {opener closer : Token} {inner : Phrase}
    (hp : p.tokens = (Phrase.group opener inner closer).tokens ++ rest)
    (hfits : (Phrase.group opener inner closer).fits (headKind rest))
    (hnesting : inner.nesting ≤ room) :
    ∃ q, (opening expr).Gives p (Phrase.group opener inner closer).tree q ∧ q.ahead = rest := by
  obtain ⟨-, hinner, hclose⟩ := Phrase.fits_group_iff.1 hfits
  have hopener := opener?_current hp hfits
  simp only [Phrase.tokens, List.cons_append, List.append_assoc, List.nil_append] at hp
  have hahead := Parser.ahead_of_tokens hp
  obtain ⟨m, hm, hrest⟩ := hcomplete inner .lowest p.advance (closer :: rest) hahead
    (by rw [headKind_cons, hclose]; exact hinner) hnesting (Phrase.lowest_lt_strength hinner)
    (by rw [headKind_cons, hclose]; decide)
  refine ⟨m.advance, ?_, Parser.ahead_of_tokens (p := m.advance) hrest⟩
  rw [gives_opening_iff, hopener]
  refine (gives_group_iff hexpr).2 ⟨m, hm, ?_, rfl⟩
  rw [Parser.peek_of_ahead hrest, hclose]

/-- The part that an `if` with an alternative shares with one without. -/
theorem exists_gives_condition {word opener closer : Token} {condition : Phrase}
    {consequence : Braces} {behind : List Token}
    (hp : p.tokens = word :: opener :: (condition.tokens ++ closer :: (consequence.tokens ++ behind)))
    (hopen : opener.kind = .openParen) (hcondition : condition.fits .closeParen)
    (hclose : closer.kind = .closeParen) (hconsequence : consequence.fits (headKind behind))
    (hnesting : max condition.nesting consequence.nesting ≤ room) :
    p.peek.kind = .openParen ∧ ∃ m n, (expr .lowest).Gives p.advance.advance condition.tree m ∧
      m.peek.kind = .closeParen ∧ m.advance.peek.kind = .openCurly ∧
      (block expr).Gives m.advance.advance consequence.tree n ∧ n.ahead = behind := by
  rw [Nat.max_le] at hnesting
  have hahead := Parser.ahead_of_tokens hp
  have hinner := Parser.ahead_of_tokens (p := p.advance) hahead
  obtain ⟨m, hm, hrest⟩ := hcomplete condition .lowest p.advance.advance _ hinner
    (by rw [headKind_cons, hclose]; exact hcondition) hnesting.1
    (Phrase.lowest_lt_strength hcondition) (by rw [headKind_cons, hclose]; decide)
  have hblock := Parser.ahead_of_tokens (p := m.advance) hrest
  obtain ⟨n, hn, hbehind⟩ := exists_gives_block hexpr hcomplete (p := m.advance.advance) hblock
    hconsequence hnesting.2
  have hcurly := peek_of_braces (p := m.advance) hconsequence hblock
  refine ⟨by rw [Parser.peek_of_ahead hahead, hopen], m, n, hm, ?_, hcurly, hn, hbehind⟩
  rw [Parser.peek_of_ahead hrest, hclose]

theorem exists_gives_ifThen {word opener closer : Token} {condition : Phrase} {consequence : Braces}
    (hp : p.tokens = (Phrase.ifThen word opener condition closer consequence).tokens ++ rest)
    (hfits : (Phrase.ifThen word opener condition closer consequence).fits (headKind rest))
    (hnesting : max condition.nesting consequence.nesting ≤ room) :
    ∃ q, (opening expr).Gives p
      (Phrase.ifThen word opener condition closer consequence).tree q ∧ q.ahead = rest := by
  obtain ⟨-, hopen, hcondition, hclose, hconsequence, helse⟩ := Phrase.fits_ifThen_iff.1 hfits
  have hopener := opener?_current hp hfits
  simp only [Phrase.tokens, List.cons_append, List.append_assoc] at hp
  have hcurrent := Parser.current_of_tokens hp
  obtain ⟨hparen, m, n, hm, hclosing, hcurly, hn, hrest⟩ :=
    exists_gives_condition hexpr hcomplete hp hopen hcondition hclose hconsequence hnesting
  have hpeek : n.peek.kind ≠ .elseWord := by
    rw [← Parser.headKind_ahead, hrest]
    exact helse
  refine ⟨n, ?_, hrest⟩
  rw [gives_opening_iff, hopener]
  refine (gives_conditional_iff hexpr).2 ⟨hparen, _, m, hm, hclosing, hcurly, _, n, hn, ?_⟩
  exact .inr ⟨hpeek, by rw [hcurrent, Phrase.tree], rfl⟩

theorem exists_gives_ifElse {word opener closer otherwise : Token} {condition : Phrase}
    {consequence alternative : Braces}
    (hp : p.tokens = (Phrase.ifElse word opener condition closer consequence otherwise
      alternative).tokens ++ rest)
    (hfits : (Phrase.ifElse word opener condition closer consequence otherwise
      alternative).fits (headKind rest))
    (hnesting : max condition.nesting (max consequence.nesting alternative.nesting) ≤ room) :
    ∃ q, (opening expr).Gives p (Phrase.ifElse word opener condition closer consequence otherwise
      alternative).tree q ∧ q.ahead = rest := by
  obtain ⟨-, hopen, hcondition, hclose, hconsequence, helse, halternative⟩ :=
    Phrase.fits_ifElse_iff.1 hfits
  have hopener := opener?_current hp hfits
  simp only [Phrase.tokens, List.cons_append, List.append_assoc] at hp
  have hcurrent := Parser.current_of_tokens hp
  obtain ⟨hparen, m, n, hm, hclosing, hcurly, hn, hrest⟩ :=
    exists_gives_condition hexpr hcomplete hp hopen hcondition hclose
      (by rw [headKind_cons, helse]; exact hconsequence) (by omega)
  have hblock := Parser.ahead_of_tokens (p := n.advance) hrest
  obtain ⟨q, hq, hend⟩ := exists_gives_block hexpr hcomplete (p := n.advance.advance) hblock
    halternative (by omega)
  have hcurly' := peek_of_braces (p := n.advance) halternative hblock
  refine ⟨q, ?_, hend⟩
  rw [gives_opening_iff, hopener]
  refine (gives_conditional_iff hexpr).2 ⟨hparen, _, m, hm, hclosing, hcurly, _, n, hn, ?_⟩
  refine .inl ⟨by rw [Parser.peek_of_ahead hrest, helse], hcurly', _, hq, ?_⟩
  rw [hcurrent, Phrase.tree]

/-- The forms that are no binary expression are read by their opening alone. -/
theorem exists_gives_opening {w : Phrase} (hw : w.strength = .call)
    (hp : p.tokens = w.tokens ++ rest) (hfits : w.fits (headKind rest))
    (hnesting : w.nesting ≤ room + 1) :
    ∃ q, (opening expr).Gives p w.tree q ∧ q.ahead = rest := by
  have hopener := opener?_current hp hfits
  cases w with
  | identifier word =>
    refine ⟨p, ?_, Parser.ahead_of_tokens hp⟩
    rw [gives_opening_iff, hopener, Phrase.tree, Parser.current_of_tokens hp]
    exact ⟨rfl, rfl⟩
  | integer digits =>
    have hcurrent := Parser.current_of_tokens hp
    obtain ⟨value, hvalue⟩ := Option.isSome_iff_exists.1 (Phrase.fits_integer_iff.1 hfits).2
    refine ⟨p, ?_, Parser.ahead_of_tokens hp⟩
    rw [gives_opening_iff, hopener]
    refine gives_integer_iff.2 ⟨value, by rw [hcurrent, hvalue], ?_, rfl⟩
    rw [hcurrent, Phrase.tree, hvalue]
    rfl
  | boolean word =>
    refine ⟨p, ?_, Parser.ahead_of_tokens hp⟩
    rw [gives_opening_iff, hopener, Phrase.tree, Parser.current_of_tokens hp]
    exact ⟨rfl, rfl⟩
  | unary => exact exists_gives_unary hcomplete hp hfits (Nat.le_of_succ_le_succ hnesting)
  | binary => exact absurd hw (Phrase.strength_binary_ne_call _ _ _)
  | group => exact exists_gives_group hexpr hcomplete hp hfits (Nat.le_of_succ_le_succ hnesting)
  | ifThen =>
    exact exists_gives_ifThen hexpr hcomplete hp hfits (Nat.le_of_succ_le_succ hnesting)
  | ifElse =>
    exact exists_gives_ifElse hexpr hcomplete hp hfits (Nat.le_of_succ_le_succ hnesting)

/-- Before a token that does not take the form apart, the body of an expression comes to the point
where the whole form has been joined and the next operator is looked for. -/
theorem exists_run_body {limit : Precedence} (w : Phrase) (hp : p.tokens = w.tokens ++ rest)
    (hfits : w.fits (headKind rest)) (hnesting : w.nesting ≤ room + 1) (hlimit : limit < w.strength)
    (hstop : ¬ w.strength < (headKind rest).precedence) :
    ∃ m, m.ahead = rest ∧ m.diagnostics = p.diagnostics ∧
      (body expr limit).run p = (join expr limit w.tree).run m := by
  induction w using Phrase.spine_induction generalizing rest with
  | core w hw =>
    obtain ⟨m, ⟨hm, hquiet⟩, hrest⟩ := exists_gives_opening hexpr hcomplete hw hp hfits hnesting
    exact ⟨m, hrest, hquiet, Builder.run_bind_of_ok hm⟩
  | binary left operator right ih =>
    obtain ⟨-, hleft, hleftFits, hright, hrightFits⟩ := Phrase.fits_binary_iff.1 hfits
    rw [Phrase.nesting, Nat.max_le] at hnesting
    rw [Phrase.tokens, List.append_assoc, List.cons_append] at hp
    change limit < operator.kind.precedence at hlimit
    -- The left operand is read at the same depth, and the operator joins the right one to it.
    obtain ⟨m, hm, hquiet, hjoin⟩ := ih hp hleftFits hnesting.1
      (Nat.lt_of_lt_of_le hlimit (Nat.le_of_not_lt hleft)) hleft
    have hpeek := Parser.peek_of_ahead hm
    have hahead := Parser.ahead_of_tokens (p := m.advance) hm
    obtain ⟨n, ⟨hn, hnquiet⟩, hrest⟩ := hcomplete right operator.kind.precedence m.advance.advance
      rest hahead hrightFits (Nat.le_of_succ_le_succ hnesting.2) hright hstop
    have hbinary : (binary expr left.tree).run m.advance =
        (.ok (.binary operator operator.text left.tree right.tree), n) := by
      rw [binary, Builder.run_advance_bind, Parser.current_advance, hpeek]
      exact Builder.run_bind_of_ok hn
    refine ⟨n, hrest, hnquiet.trans hquiet, ?_⟩
    rw [hjoin, run_join_of_lt expr (by rw [hpeek]; exact hlimit), Builder.run_bind_of_ok hbinary]
    rfl

end

theorem complete_expressionAt (room : Nat) :
    Complete (expressionAt room : Precedence → Builder σ Expr) room := by
  induction room with
  | zero =>
    intro w _ _ _ _ _ hnesting
    exact absurd hnesting (Nat.not_le_of_lt w.nesting_pos)
  | succ room ih =>
    intro w limit p rest hp hfits hnesting hlimit hstop
    have hstop' : ¬ w.strength < (headKind rest).precedence :=
      fun h => hstop (Nat.lt_trans hlimit h)
    obtain ⟨m, hm, hquiet, hbody⟩ := exists_run_body (framed_expressionAt room) ih
      (p := { p with depth := p.depth + 1 }) w hp hfits hnesting hlimit hstop'
    have hend : ¬ limit < m.peek.kind.precedence := by
      rw [← Parser.headKind_ahead, hm]
      exact hstop
    rw [run_join_of_not_lt _ hend] at hbody
    exact ⟨m.leave, (gives_expressionAt_succ_iff room).2 ⟨m, ⟨hbody, hquiet⟩, rfl⟩, hm⟩

end MonkeyFrontEnd.Grammar
