import MonkeyFrontEnd.Proofs.Phrase
import MonkeyFrontEnd.Proofs.Quiet
import MonkeyFrontEnd.Proofs.StateMap

/-!
What is accepted without a diagnostic is an admissible printing of the tree that is returned. A
quiet run of a rule is turned into the written form that it has read. The induction is again on the
room for nesting; inside one step the operators that are joined to an expression are followed by an
induction on the tokens that are left, which carries the form read so far.
-/

namespace MonkeyFrontEnd

variable {σ : Type} [TokenSource σ]

/-- The written expression stands for the tree `e` with at most `room` expressions open at a token,
and reading it takes a parser from `p` to its last token in `q`. -/
structure Phrase.Spells (w : Phrase) (room : Nat) (e : Expr) (p q : Parser σ) : Prop where
  tree : w.tree = e
  tokens : p.tokens = w.tokens ++ q.ahead
  fits : w.fits q.peek.kind
  nesting : w.nesting ≤ room

/-- The same for a written block. -/
structure Braces.Spells (b : Braces) (room : Nat) (block : Block) (p q : Parser σ) : Prop where
  tree : b.tree = block
  tokens : p.tokens = b.tokens ++ q.ahead
  fits : b.fits q.peek.kind
  nesting : b.nesting ≤ room

/-- The same for a written statement. -/
structure Sentence.Spells (t : Sentence) (room : Nat) (s : Stmt) (p q : Parser σ) : Prop where
  tree : t.tree = s
  tokens : p.tokens = t.tokens ++ q.ahead
  fits : t.fits q.peek.kind
  nesting : t.nesting ≤ room

namespace Grammar

/-- Whatever the rule gives without a diagnostic, it has read from an admissible form up to the
given nesting, whose operators bind more strongly than the limit, and it has stopped before a token
that does not. -/
def Sound (expr : Precedence → Builder σ Expr) (room : Nat) : Prop :=
  ∀ (limit : Precedence) (p : Parser σ) (e : Expr) (q : Parser σ), limit < .call →
    (expr limit).Gives p e q → ∃ w : Phrase, w.Spells room e p q ∧ limit < w.strength ∧
      ¬ limit < q.peek.kind.precedence

variable {expr : Precedence → Builder σ Expr} (hexpr : ∀ limit, (expr limit).Framed) {room : Nat}
  (hsound : Sound expr room) {p q : Parser σ}

/-! ## Statements -/

section

include hsound

theorem exists_value_of_gives {e : Expr} {m : Parser σ} (hm : (expr .lowest).Gives p e m) :
    ∃ (w : Phrase) (semicolon : Option Token), w.tree = e ∧
      p.tokens = w.tokens ++ (semicolon.toList ++ m.passSemicolon.ahead) ∧
      w.fits (kindBehind semicolon m.passSemicolon.peek.kind) ∧
      endsValue semicolon m.passSemicolon.peek.kind ∧ w.nesting ≤ room := by
  obtain ⟨w, ⟨htree, htokens, hfits, hnesting⟩, -, hstop⟩ := hsound _ _ _ _ (by decide) hm
  by_cases hsemicolon : m.peek.kind = .semicolon
  · have hahead := Parser.ahead_of_peek_ne_eof (p := m) (by rw [hsemicolon]; decide)
    rw [Parser.passSemicolon, if_pos hsemicolon]
    refine ⟨w, some m.peek, htree, ?_, hfits, by simp [endsValue, hsemicolon], hnesting⟩
    rw [htokens, hahead]
    rfl
  · rw [Parser.passSemicolon, if_neg hsemicolon]
    refine ⟨w, none, htree, htokens, hfits, ?_, hnesting⟩
    rw [← Kind.isOperator_iff_lowest_lt] at hstop
    simp [endsValue, hsemicolon, hstop]

include hexpr

theorem exists_let_of_gives {s : Stmt} (hkind : p.current.kind = .letWord)
    (h : (letStatement expr).Gives p s q) :
    ∃ t : Sentence, t.Spells room s p q := by
  obtain ⟨hname, hassign, e, m, hm, rfl, rfl⟩ := (gives_letStatement_iff hexpr).1 h
  obtain ⟨w, semicolon, rfl, htokens, hfits, hends, hnesting⟩ := exists_value_of_gives hsound hm
  refine ⟨.letStmt p.current p.peek p.advance.peek w semicolon, rfl, ?_, ?_, hnesting⟩
  · rw [Parser.tokens_of_ne_eof (p := p) (by rw [hkind]; decide),
      Parser.ahead_of_peek_ne_eof (p := p) (by rw [hname]; decide),
      Parser.ahead_of_peek_ne_eof (p := p.advance) (by rw [hassign]; decide),
      ← Parser.tokens_advance, htokens]
    simp [Sentence.tokens]
  · simp [Sentence.fits, hkind, hname, hassign, hfits, hends]

theorem exists_return_of_gives {s : Stmt} (hkind : p.current.kind = .returnWord)
    (h : (returnStatement expr).Gives p s q) :
    ∃ t : Sentence, t.Spells room s p q := by
  have hp := Parser.tokens_of_ne_eof (p := p) (by rw [hkind]; decide)
  rw [gives_returnStatement_iff hexpr] at h
  split at h
  case isTrue hsemicolon =>
    obtain ⟨rfl, rfl⟩ := h
    have hahead := Parser.ahead_of_peek_ne_eof (p := p) (by rw [hsemicolon]; decide)
    refine ⟨.bareReturn p.current (some p.peek), rfl, ?_, ?_, Nat.zero_le _⟩
    · rw [hp, hahead]
      rfl
    · simp [Sentence.fits, endsReturn, hkind, hsemicolon]
  case isFalse =>
    split at h
    case isTrue hbare =>
      obtain ⟨rfl, rfl⟩ := h
      refine ⟨.bareReturn p.current none, rfl, hp, ?_, Nat.zero_le _⟩
      simpa [Sentence.fits, endsReturn, hkind] using hbare
    case isFalse =>
      obtain ⟨e, m, hm, rfl, rfl⟩ := h
      obtain ⟨w, semicolon, rfl, htokens, hfits, hends, hnesting⟩ :=
        exists_value_of_gives hsound hm
      refine ⟨.returnValue p.current w semicolon, rfl, ?_, ?_, hnesting⟩
      · rw [hp, ← Parser.tokens_advance, htokens]
        simp [Sentence.tokens]
      · simp [Sentence.fits, hkind, hfits, hends]

theorem exists_expression_of_gives {s : Stmt} (h : (expressionStatement expr).Gives p s q) :
    ∃ t : Sentence, t.Spells room s p q := by
  obtain ⟨e, m, hm, rfl, rfl⟩ := (gives_expressionStatement_iff hexpr).1 h
  obtain ⟨w, semicolon, rfl, htokens, hfits, hends, hnesting⟩ := exists_value_of_gives hsound hm
  have hcurrent : p.current = w.first := by
    obtain ⟨ts, hts⟩ := w.exists_tokens_eq_cons
    rw [hts, List.cons_append] at htokens
    exact Parser.current_of_tokens htokens
  refine ⟨.expression w semicolon, ?_, ?_, ?_, hnesting⟩
  · rw [Sentence.tree, hcurrent]
  · rw [htokens, Sentence.tokens, List.append_assoc]
  · simp [Sentence.fits, hfits, hends]

theorem exists_sentence_of_gives {s : Stmt} (h : (statement expr).Gives p s q) :
    ∃ t : Sentence, t.Spells room s p q := by
  rw [gives_statement_iff] at h
  split at h
  case isTrue hkind => exact exists_let_of_gives hexpr hsound hkind h
  case isFalse =>
    split at h
    case isTrue hkind => exact exists_return_of_gives hexpr hsound hkind h
    case isFalse => exact exists_expression_of_gives hexpr hsound h

theorem exists_sentences_of_gives {closing : Option Kind} {ss : List Stmt}
    (h : (statements expr closing).Gives p ss q) :
    ∃ text : List Sentence, Sentence.treeAll text = ss ∧
      p.tokens = Sentence.tokensAll text ++ q.tokens ∧ Sentence.fitsAll text q.current.kind ∧
      Sentence.nestingAll text ≤ room ∧ closes closing q.current.kind := by
  induction ss generalizing p with
  | nil =>
    rw [gives_statements_iff hexpr] at h
    split at h
    case isTrue hclose =>
      obtain ⟨-, rfl⟩ := h
      exact ⟨[], rfl, rfl, rfl, Nat.zero_le _, hclose⟩
    case isFalse =>
      obtain ⟨_, _, _, _, _, hss⟩ := h
      exact absurd hss (List.cons_ne_nil _ _)
  | cons s ss ih =>
    rw [gives_statements_iff hexpr] at h
    split at h
    case isTrue =>
      exact absurd h.1.symm (List.cons_ne_nil _ _)
    case isFalse =>
      obtain ⟨s, m, rest, hm, hrest, hss⟩ := h
      obtain ⟨rfl, rfl⟩ := List.cons.inj hss
      obtain ⟨t, rfl, htokens, hfits, hnesting⟩ := exists_sentence_of_gives hexpr hsound hm
      obtain ⟨text, rfl, htext, hfitsAll, hnestingAll, hclose⟩ := ih hrest
      have hahead : m.ahead = Sentence.tokensAll text ++ q.tokens := htext
      refine ⟨t :: text, rfl, ?_, ?_, ?_, hclose⟩
      · rw [htokens, hahead, Sentence.tokensAll, List.append_assoc]
      · rw [← Parser.headKind_ahead, hahead, Sentence.headKind_tokensAll_append,
          Parser.headKind_tokens] at hfits
        simp [Sentence.fitsAll, hfits, hfitsAll]
      · rw [Sentence.nestingAll]
        exact Nat.max_le.2 ⟨hnesting, hnestingAll⟩

theorem exists_braces_of_gives {b : Block} (hkind : p.current.kind = .openCurly)
    (h : (block expr).Gives p b q) :
    ∃ w : Braces, w.Spells room b p q := by
  obtain ⟨ss, hss, rfl⟩ := gives_block_iff.1 h
  obtain ⟨text, rfl, htokens, hfits, hnesting, hclose⟩ := exists_sentences_of_gives hexpr hsound hss
  have hp := Parser.tokens_of_ne_eof (p := p) (by rw [hkind]; decide)
  have hahead : p.ahead = Sentence.tokensAll text ++ q.tokens := htokens
  by_cases hend : q.current.kind = .eof
  · refine ⟨.mk p.current text none, rfl, ?_, ?_, hnesting⟩
    · rw [hp, hahead, Parser.tokens_of_eof hend, Parser.ahead_of_eof hend]
      simp [Braces.tokens]
    · rw [hend] at hfits
      rw [← Parser.headKind_ahead, Parser.ahead_of_eof hend]
      simp [Braces.fits, hkind, hfits]
  · have hcurly : q.current.kind = .closeCurly := by
      simpa [closes, hend, eq_comm] using hclose
    refine ⟨.mk p.current text (some q.current), rfl, ?_, ?_, hnesting⟩
    · rw [hp, hahead, Parser.tokens_of_ne_eof hend]
      simp [Braces.tokens]
    · rw [hcurly] at hfits
      simp [Braces.fits, hkind, hfits, hcurly]

end

/-! ## Expressions -/

section

include hexpr hsound

omit hexpr in
theorem exists_unary_of_gives {e : Expr} (hkind : p.current.kind = .bang ∨ p.current.kind = .minus)
    (h : (unary expr).Gives p e q) :
    ∃ w : Phrase, w.Spells (room + 1) e p q ∧ w.strength = .call := by
  obtain ⟨a, ha, rfl⟩ := gives_unary_iff.1 h
  obtain ⟨w, ⟨rfl, htokens, hfits, hnesting⟩, hstrength, -⟩ := hsound _ _ _ _ (by decide) ha
  have hp := Parser.tokens_of_ne_eof (p := p) (by rcases hkind with h | h <;> rw [h] <;> decide)
  refine ⟨.unary p.current w, ⟨rfl, ?_, ?_, Nat.succ_le_succ hnesting⟩, rfl⟩
  · rw [hp, ← Parser.tokens_advance, htokens]
    rfl
  · simp [Phrase.fits, hkind, hstrength, hfits]

theorem exists_group_of_gives {e : Expr} (hkind : p.current.kind = .openParen)
    (h : (group expr).Gives p e q) :
    ∃ w : Phrase, w.Spells (room + 1) e p q ∧ w.strength = .call := by
  obtain ⟨m, hm, hclose, rfl⟩ := (gives_group_iff hexpr).1 h
  obtain ⟨w, ⟨rfl, htokens, hfits, hnesting⟩, -, -⟩ := hsound _ _ _ _ (by decide) hm
  have hp := Parser.tokens_of_ne_eof (p := p) (by rw [hkind]; decide)
  have hahead := Parser.ahead_of_peek_ne_eof (p := m) (by rw [hclose]; decide)
  refine ⟨.group p.current w m.peek, ⟨rfl, ?_, ?_, Nat.succ_le_succ hnesting⟩, rfl⟩
  · rw [hp, ← Parser.tokens_advance, htokens, hahead]
    simp [Phrase.tokens]
  · rw [hclose] at hfits
    simp [Phrase.fits, hkind, hclose, hfits]

theorem exists_conditional_of_gives {e : Expr} (hkind : p.current.kind = .ifWord)
    (h : (conditional expr).Gives p e q) :
    ∃ w : Phrase, w.Spells (room + 1) e p q ∧ w.strength = .call := by
  obtain ⟨hopen, _, m, hm, hclose, hcurly, _, n, hn, hrest⟩ := (gives_conditional_iff hexpr).1 h
  obtain ⟨c, ⟨rfl, hctokens, hcfits, hcnesting⟩, -, -⟩ := hsound _ _ _ _ (by decide) hm
  obtain ⟨b, rfl, hbtokens, hbfits, hbnesting⟩ :=
    exists_braces_of_gives hexpr hsound (p := m.advance.advance) hcurly hn
  have hp := Parser.tokens_of_ne_eof (p := p) (by rw [hkind]; decide)
  have hahead := Parser.ahead_of_peek_ne_eof (p := p) (by rw [hopen]; decide)
  have hmahead := Parser.ahead_of_peek_ne_eof (p := m) (by rw [hclose]; decide)
  rw [hclose] at hcfits
  rcases hrest with ⟨helse, hcurly', _, ha, rfl⟩ | ⟨helse, rfl, rfl⟩
  · obtain ⟨a, rfl, hatokens, hafits, hanesting⟩ :=
      exists_braces_of_gives hexpr hsound (p := n.advance.advance) hcurly' ha
    have hnahead := Parser.ahead_of_peek_ne_eof (p := n) (by rw [helse]; decide)
    refine ⟨.ifElse p.current p.peek c m.peek b n.peek a, ⟨rfl, ?_, ?_, ?_⟩, rfl⟩
    · rw [hp, hahead, ← Parser.tokens_advance, hctokens, hmahead, ← Parser.tokens_advance,
        hbtokens, hnahead, ← Parser.tokens_advance n.advance, hatokens]
      simp [Phrase.tokens]
    · rw [helse] at hbfits
      simp [Phrase.fits, hkind, hopen, hcfits, hclose, hbfits, helse, hafits]
    · exact Nat.succ_le_succ (Nat.max_le.2 ⟨hcnesting, Nat.max_le.2 ⟨hbnesting, hanesting⟩⟩)
  · refine ⟨.ifThen p.current p.peek c m.peek b, ⟨rfl, ?_, ?_, ?_⟩, rfl⟩
    · rw [hp, hahead, ← Parser.tokens_advance, hctokens, hmahead, ← Parser.tokens_advance,
        hbtokens]
      simp [Phrase.tokens]
    · simp [Phrase.fits, hkind, hopen, hcfits, hclose, hbfits, helse]
    · exact Nat.succ_le_succ (Nat.max_le.2 ⟨hcnesting, hbnesting⟩)

theorem exists_core_of_gives {e : Expr} (h : (opening expr).Gives p e q) :
    ∃ w : Phrase, w.Spells (room + 1) e p q ∧ w.strength = .call := by
  rw [gives_opening_iff] at h
  cases hform : p.current.kind.opener? with
  | none => rw [hform] at h; exact h.elim
  | some form =>
    have hp := Parser.tokens_of_ne_eof (p := p) (by intro h; rw [h] at hform; cases hform)
    have hkind := (Kind.opener?_eq_some_iff _ _).1 hform
    rw [hform] at h
    cases form <;> simp only [Opener.kinds, List.mem_cons, List.not_mem_nil, or_false] at hkind
    case identifier =>
      obtain ⟨rfl, rfl⟩ := h
      exact ⟨.identifier p.current, ⟨rfl, hp, by simp [Phrase.fits, hkind], Nat.succ_pos _⟩, rfl⟩
    case integer =>
      obtain ⟨value, hvalue, rfl, rfl⟩ := gives_integer_iff.1 h
      refine ⟨.integer p.current, ⟨?_, hp, ?_, Nat.succ_pos _⟩, rfl⟩
      · rw [Phrase.tree, hvalue]
        rfl
      · simp [Phrase.fits, hkind, hvalue]
    case boolean =>
      obtain ⟨rfl, rfl⟩ := h
      exact ⟨.boolean p.current, ⟨rfl, hp, by simp [Phrase.fits, hkind], Nat.succ_pos _⟩, rfl⟩
    case unary => exact exists_unary_of_gives hsound hkind h
    case group => exact exists_group_of_gives hexpr hsound hkind h
    case conditional => exact exists_conditional_of_gives hexpr hsound hkind h

/-- Joining operators to a form that was read so far ends with a form of the same tokens and more. -/
theorem exists_joined_of_gives {limit : Precedence} {left e : Expr} {m : Parser σ} {w : Phrase}
    (hw : w.Spells (room + 1) left p m) (hlimit : limit < w.strength)
    (hstop : ¬ w.strength < m.peek.kind.precedence) (h : (join expr limit left).Gives m e q) :
    ∃ w : Phrase, w.Spells (room + 1) e p q ∧ limit < w.strength ∧
      ¬ limit < q.peek.kind.precedence := by
  induction hleft : m.left using Nat.strongRecOn generalizing left m w with
  | ind n ih =>
    subst hleft
    rw [gives_join_iff hexpr] at h
    split at h
    case isFalse hend =>
      obtain ⟨rfl, rfl⟩ := h
      exact ⟨w, hw, hlimit, hend⟩
    case isTrue hlt =>
      obtain ⟨a, m', ha, hjoin⟩ := h
      have hlt' : m'.left < m.left := by
        have hleft := left_binary_lt expr left hlt
        rwa [ha.1] at hleft
      obtain ⟨right, hright, rfl⟩ := gives_binary_iff.1 ha
      rw [Parser.current_advance] at hright
      obtain ⟨r, ⟨rfl, hrtokens, hrfits, hrnesting⟩, hrstrength, hrstop⟩ :=
        hsound _ _ _ _ (Kind.precedence_lt_call _) hright
      have hahead := Parser.ahead_of_peek_ne_eof (peek_ne_eof hlt)
      have hoperator : m.peek.kind.isOperator :=
        (Kind.isOperator_iff_lowest_lt _).2 (Nat.lt_of_le_of_lt (Nat.zero_le _) hlt)
      obtain ⟨rfl, htokens, hfits, hnesting⟩ := hw
      have hjoined : (Phrase.binary w m.peek r).Spells (room + 1)
          (.binary m.peek m.peek.text w.tree r.tree) p m' := by
        refine ⟨rfl, ?_, ?_, Nat.max_le.2 ⟨hnesting, Nat.succ_le_succ hrnesting⟩⟩
        · rw [htokens, hahead, ← Parser.tokens_advance, hrtokens]
          simp [Phrase.tokens]
        · simp [Phrase.fits, hoperator, hstop, hfits, hrstrength, hrfits]
      exact ih _ hlt' hjoined hlt hrstop hjoin rfl

end

theorem sound_expressionAt (room : Nat) :
    Sound (expressionAt room : Precedence → Builder σ Expr) room := by
  induction room with
  | zero =>
    intro limit p e q _ h
    exact (not_gives_expressionAt_zero h).elim
  | succ room ih =>
    intro limit p e q hlimit h
    have hframed := framed_expressionAt (σ := σ) room
    obtain ⟨m, hbody, rfl⟩ := (gives_expressionAt_succ_iff room).1 h
    obtain ⟨left, m', hopening, hjoin⟩ := (gives_body_iff hframed).1 hbody
    obtain ⟨w, hw, hstrength⟩ := exists_core_of_gives hframed ih hopening
    have hstop : ¬ w.strength < m'.peek.kind.precedence := by
      rw [hstrength]
      exact Nat.lt_asymm (Kind.precedence_lt_call _)
    obtain ⟨w', ⟨htree, htokens, hfits, hnesting⟩, hlimit', hend⟩ :=
      exists_joined_of_gives hframed ih hw (by rw [hstrength]; exact hlimit) hstop hjoin
    -- Entering and leaving the expression moves no token.
    exact ⟨w', ⟨htree, htokens, hfits, hnesting⟩, hlimit', hend⟩

end Grammar

end MonkeyFrontEnd
