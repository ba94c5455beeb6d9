import MonkeyFrontEnd.Proofs.Frame

/-!
Quiet runs: a step gives its value and records no diagnostic on the way, neither its own nor one of
a block inside. For every rule it is said once which quiet runs it has. Read from left to right these
are inversions, on which soundness rests; read from right to left they build the runs that
completeness asks for.
-/

namespace MonkeyFrontEnd

variable {σ : Type} [TokenSource σ] {α β : Type}

/-- From `p` the builder gives `a` and leaves `q`, and nothing is recorded. -/
def Builder.Gives (b : Builder σ α) (p : Parser σ) (a : α) (q : Parser σ) : Prop :=
  b.run p = (.ok a, q) ∧ q.diagnostics = p.diagnostics

/-- From `p` the action gives `a` and leaves `q`, and nothing is recorded. -/
def Action.Gives (x : Action σ α) (p : Parser σ) (a : α) (q : Parser σ) : Prop :=
  x.run p = (a, q) ∧ q.diagnostics = p.diagnostics

/-- The state behind the next token if that is a semicolon. -/
def Parser.passSemicolon (p : Parser σ) : Parser σ :=
  if p.peek.kind = .semicolon then p.advance else p

@[simp] theorem Parser.diagnostics_passSemicolon (p : Parser σ) :
    p.passSemicolon.diagnostics = p.diagnostics := by
  unfold passSemicolon
  split <;> rfl

/-- Between two states with the same diagnostics, none was recorded at any time. -/
theorem Frame.diagnostics_eq {p m q : Parser σ} (hpm : Frame p m) (hmq : Frame m q)
    (hq : q.diagnostics = p.diagnostics) : m.diagnostics = p.diagnostics := by
  have hle := hmq.diagnostics
  rw [hq] at hle
  exact Array.toList_inj.1 (hle.eq_of_length_le hpm.diagnostics.length_le)

namespace Builder

theorem run_current_bind (f : Token → Builder σ β) (p : Parser σ) :
    (current >>= f).run p = (f p.current).run p := by
  rw [run_bind, run_current]

theorem run_peek_bind (f : Token → Builder σ β) (p : Parser σ) :
    (peek >>= f).run p = (f p.peek).run p := by
  rw [run_bind, run_peek]

theorem run_advance_bind (f : Token → Builder σ β) (p : Parser σ) :
    (advance >>= f).run p = (f p.current).run p.advance := by
  rw [run_bind, run_advance]

theorem run_expect_bind {kind : Kind} {p : Parser σ} (h : p.peek.kind = kind)
    (f : Token → Builder σ β) : (expect kind >>= f).run p = (f p.peek).run p.advance := by
  rw [run_bind, run_expect, if_pos h]

theorem run_takeSemicolon_bind (f : Unit → Builder σ β) (p : Parser σ) :
    (takeSemicolon >>= f).run p = (f ()).run p.passSemicolon := by
  rw [run_bind, run_takeSemicolon]
  rfl

variable {p q : Parser σ} {c : β} {f : α → Builder σ β}

theorem gives_pure_iff {a b : α} : (pure a : Builder σ α).Gives p b q ↔ a = b ∧ p = q := by
  simp only [Gives, run_pure, Prod.mk.injEq, Except.ok.injEq, and_iff_left_iff_imp]
  rintro ⟨rfl, rfl⟩
  rfl

theorem not_gives_throw {a : α} (d : Diagnostic) : ¬ (throw d : Builder σ α).Gives p a q := by
  simp [Gives]

theorem gives_ofAction_iff {x : Action σ α} {a : α} :
    (ofAction x).Gives p a q ↔ x.Gives p a q := by
  simp only [Gives, Action.Gives, run_ofAction, Prod.ext_iff, Except.ok.injEq]

theorem gives_current_bind_iff {f : Token → Builder σ β} :
    (current >>= f).Gives p c q ↔ (f p.current).Gives p c q := Iff.rfl

theorem gives_peek_bind_iff {f : Token → Builder σ β} :
    (peek >>= f).Gives p c q ↔ (f p.peek).Gives p c q := Iff.rfl

theorem gives_advance_bind_iff {f : Token → Builder σ β} :
    (advance >>= f).Gives p c q ↔ (f p.current).Gives p.advance c q := Iff.rfl

theorem gives_expect_bind_iff {kind : Kind} {f : Token → Builder σ β} :
    (expect kind >>= f).Gives p c q ↔
      p.peek.kind = kind ∧ (f p.peek).Gives p.advance c q := by
  unfold Gives
  rw [run_bind, run_expect]
  by_cases h : p.peek.kind = kind
  · simp [h]
  · simp [h]

theorem gives_takeSemicolon_bind_iff {f : Unit → Builder σ β} :
    (takeSemicolon >>= f).Gives p c q ↔ (f ()).Gives p.passSemicolon c q := by
  unfold Gives
  rw [run_takeSemicolon_bind, Parser.diagnostics_passSemicolon]

theorem gives_bind_iff {b : Builder σ α} (hb : b.Framed) (hf : ∀ a, (f a).Framed) :
    (b >>= f).Gives p c q ↔ ∃ a m, b.Gives p a m ∧ (f a).Gives m c q := by
  constructor
  · rintro ⟨hrun, hquiet⟩
    have hpm := hb p
    rw [run_bind] at hrun
    rcases hb' : b.run p with ⟨_ | a, m⟩ <;> rw [hb'] at hrun hpm
    · simp at hrun
    · have hmq := hf a m
      simp only [hrun] at hmq
      have hm := hpm.diagnostics_eq hmq hquiet
      exact ⟨a, m, ⟨hb', hm⟩, hrun, hquiet.trans hm.symm⟩
  · rintro ⟨a, m, ⟨hrun, hm⟩, hrun', hq⟩
    exact ⟨(run_bind_of_ok hrun).trans hrun', hq.trans hm⟩

theorem gives_bind_pure_iff {b : Builder σ α} {g : α → β} :
    (b >>= fun a => pure (g a)).Gives p c q ↔ ∃ a, b.Gives p a q ∧ g a = c := by
  unfold Gives
  rw [run_bind]
  rcases b.run p with ⟨_ | a, m⟩
  · simp
  · simp only [run_pure, Prod.mk.injEq, Except.ok.injEq]
    constructor
    · rintro ⟨⟨rfl, rfl⟩, hq⟩
      exact ⟨a, ⟨⟨rfl, rfl⟩, hq⟩, rfl⟩
    · rintro ⟨_, ⟨⟨rfl, rfl⟩, hq⟩, rfl⟩
      exact ⟨⟨rfl, rfl⟩, hq⟩

end Builder

namespace Grammar

open Builder

variable {expr : Precedence → Builder σ Expr} {p q : Parser σ} {e left : Expr} {s : Stmt}
  {limit : Precedence}

/-! ## Expressions -/

theorem gives_unary_iff : (unary expr).Gives p e q ↔
    ∃ a, (expr .unary).Gives p.advance a q ∧ .unary p.current p.current.text a = e := by
  rw [unary, gives_advance_bind_iff, gives_bind_pure_iff]

theorem gives_binary_iff : (binary expr left).Gives p e q ↔
    ∃ a, (expr p.current.kind.precedence).Gives p.advance a q ∧
      .binary p.current p.current.text left a = e := by
  rw [binary, gives_advance_bind_iff, gives_bind_pure_iff]

theorem gives_integer_iff : (integer : Builder σ Expr).Gives p e q ↔
    ∃ value, IntegerLiteral.read p.current.text = some value ∧ .integer p.current value = e ∧
      p = q := by
  rw [integer, gives_current_bind_iff]
  cases h : IntegerLiteral.read p.current.text with
  | none => simp [not_gives_throw]
  | some value => simp [gives_pure_iff]

section

variable (hexpr : ∀ limit, (expr limit).Framed)

include hexpr

theorem gives_group_iff : (group expr).Gives p e q ↔
    ∃ m, (expr .lowest).Gives p.advance e m ∧ m.peek.kind = .closeParen ∧ m.advance = q := by
  rw [group, gives_advance_bind_iff,
    gives_bind_iff (hexpr _) fun _ => (framed_expect _).bind fun _ => framed_pure _]
  simp only [gives_expect_bind_iff, gives_pure_iff]
  constructor
  · rintro ⟨_, m, hinner, hclose, rfl, rfl⟩
    exact ⟨m, hinner, hclose, rfl⟩
  · rintro ⟨m, hinner, hclose, rfl⟩
    exact ⟨e, m, hinner, hclose, rfl, rfl⟩

theorem gives_conditional_iff : (conditional expr).Gives p e q ↔
    p.peek.kind = .openParen ∧ ∃ c m, (expr .lowest).Gives p.advance.advance c m ∧
      m.peek.kind = .closeParen ∧ m.advance.peek.kind = .openCurly ∧
      ∃ b n, (block expr).Gives m.advance.advance b n ∧
        (n.peek.kind = .elseWord ∧ n.advance.peek.kind = .openCurly ∧
            (∃ a, (block expr).Gives n.advance.advance a q ∧ .ifElse p.current c b a = e) ∨
          n.peek.kind ≠ .elseWord ∧ .ifThen p.current c b = e ∧ n = q) := by
  have hblock := framed_ofAction (framed_block hexpr)
  rw [conditional_eq, gives_current_bind_iff, gives_expect_bind_iff, gives_advance_bind_iff,
    gives_bind_iff (hexpr _) (framed_afterCondition hexpr _)]
  refine and_congr_right fun _ => exists_congr fun c => exists_congr fun m => ?_
  rw [afterCondition, gives_expect_bind_iff, gives_expect_bind_iff,
    gives_bind_iff hblock (framed_afterConsequence hexpr _ c)]
  refine and_congr_right fun _ => and_congr_right fun _ => and_congr_right fun _ => ?_
  refine exists_congr fun b => exists_congr fun n => and_congr gives_ofAction_iff ?_
  rw [afterConsequence, gives_peek_bind_iff]
  by_cases helse : n.peek.kind = .elseWord
  · simp only [helse, if_true, gives_advance_bind_iff, gives_expect_bind_iff,
      gives_bind_pure_iff, gives_ofAction_iff, true_and, ne_eq, not_true, false_and, or_false]
  · simp only [helse, if_false, gives_pure_iff, false_and, false_or, ne_eq, not_false_iff,
      true_and]

end

/-- Which quiet runs begin an expression depends on the kind of the current token. -/
theorem gives_opening_iff : (opening expr).Gives p e q ↔
    match p.current.kind.opener? with
    | some .identifier => .identifier ⟨p.current, p.current.text⟩ = e ∧ p = q
    | some .integer => integer.Gives p e q
    | some .boolean => .boolean p.current (p.current.kind = .trueWord) = e ∧ p = q
    | some .unary => (unary expr).Gives p e q
    | some .group => (group expr).Gives p e q
    | some .conditional => (conditional expr).Gives p e q
    | none => False := by
  rw [opening, gives_current_bind_iff]
  cases p.current.kind.opener? with
  | none => simp [not_gives_throw]
  | some opener =>
    cases opener with
    | identifier => exact gives_pure_iff
    | boolean => exact gives_pure_iff
    | integer => rfl
    | unary => rfl
    | group => rfl
    | conditional => rfl

section

variable (hexpr : ∀ limit, (expr limit).Framed)

include hexpr

theorem gives_join_iff : (join expr limit left).Gives p e q ↔
    if limit < p.peek.kind.precedence then
      ∃ a m, (binary expr left).Gives p.advance a m ∧ (join expr limit a).Gives m e q
    else left = e ∧ p = q := by
  by_cases h : limit < p.peek.kind.precedence
  · rw [if_pos h, ← gives_bind_iff (framed_binary hexpr left) (framed_join hexpr limit)]
    unfold Gives
    rw [run_join_of_lt expr h]
    rfl
  · rw [if_neg h, ← gives_pure_iff]
    unfold Gives
    rw [run_join_of_not_lt expr h]
    rfl

theorem gives_body_iff : (body expr limit).Gives p e q ↔
    ∃ left m, (opening expr).Gives p left m ∧ (join expr limit left).Gives m e q :=
  gives_bind_iff (framed_opening hexpr) (framed_join hexpr limit)

end

theorem not_gives_expressionAt_zero : ¬ (expressionAt 0 limit).Gives p e q := by
  simp [Gives, run_expressionAt_zero]

theorem gives_expressionAt_succ_iff (room : Nat) : (expressionAt (room + 1) limit).Gives p e q ↔
    ∃ m, (body (expressionAt room) limit).Gives { p with depth := p.depth + 1 } e m ∧
      m.leave = q := by
  unfold Gives
  rw [run_expressionAt_succ]
  rcases (body (expressionAt room) limit).run { p with depth := p.depth + 1 } with ⟨outcome, m⟩
  simp only [Prod.mk.injEq]
  constructor
  · rintro ⟨⟨rfl, rfl⟩, hq⟩
    exact ⟨m, ⟨⟨rfl, rfl⟩, hq⟩, rfl⟩
  · rintro ⟨_, ⟨⟨rfl, rfl⟩, hq⟩, rfl⟩
    exact ⟨⟨rfl, rfl⟩, hq⟩

/-! ## Statements -/

theorem diagnostics_skipToEnd (p : Parser σ) : p.skipToEnd.diagnostics = p.diagnostics := by
  fun_induction Parser.skipToEnd p with
  | case1 => rfl
  | case2 _ _ ih => exact ih

/-- Recovery records the failure, and nothing else. -/
@[simp] theorem diagnostics_recover (d : Diagnostic) (p : Parser σ) :
    ((recover d).run p).2.diagnostics = p.diagnostics.push d := by
  rw [recover, Action.run_bind, Action.run_record]
  split
  · rw [Action.run_skipToEnd, diagnostics_skipToEnd, Parser.diagnostics_record]
  · rw [Action.run_takeSemicolon]
    split <;> rfl

theorem run_attempt_of_ok {m : Parser σ} (h : (statement expr).run p = (.ok s, m)) :
    (attempt expr).run p = (some s, m.complete s) := by
  rw [attempt, Action.run_bind, show (ExceptT.run (statement expr)).run p = (.ok s, m) from h]
  rfl

theorem run_attempt_of_error {m : Parser σ} {d : Diagnostic}
    (h : (statement expr).run p = (.error d, m)) :
    (attempt expr).run p = (none, ((recover d).run m).2) := by
  rw [attempt, Action.run_bind, show (ExceptT.run (statement expr)).run p = (.error d, m) from h]
  rfl

section

variable (hexpr : ∀ limit, (expr limit).Framed)

include hexpr

/-- A value and perhaps a semicolon, which leaves no trace. -/
theorem gives_value_iff {g : Expr → Stmt} :
    (do let value ← expr .lowest; takeSemicolon; return g value : Builder σ Stmt).Gives p s q ↔
      ∃ e m, (expr .lowest).Gives p e m ∧ m.passSemicolon = q ∧ g e = s := by
  rw [gives_bind_iff (hexpr _) fun _ => framed_takeSemicolon.bind fun _ => framed_pure _]
  refine exists_congr fun e => exists_congr fun m => and_congr_right fun _ => ?_
  rw [gives_takeSemicolon_bind_iff, gives_pure_iff]
  exact and_comm

theorem gives_letStatement_iff : (letStatement expr).Gives p s q ↔
    p.peek.kind = .identifier ∧ p.advance.peek.kind = .assign ∧
      ∃ e m, (expr .lowest).Gives p.advance.advance.advance e m ∧ m.passSemicolon = q ∧
        .letStmt p.current ⟨p.peek, p.peek.text⟩ e = s := by
  rw [letStatement, gives_current_bind_iff, gives_expect_bind_iff, gives_expect_bind_iff,
    gives_advance_bind_iff, gives_value_iff hexpr]

theorem gives_returnStatement_iff : (returnStatement expr).Gives p s q ↔
    if p.peek.kind = .semicolon then .bareReturn p.current = s ∧ p.advance = q
    else if p.peek.kind = .closeCurly ∨ p.peek.kind = .eof then .bareReturn p.current = s ∧ p = q
    else ∃ e m, (expr .lowest).Gives p.advance e m ∧ m.passSemicolon = q ∧
      .returnValue p.current e = s := by
  rw [returnStatement, gives_current_bind_iff, gives_peek_bind_iff]
  by_cases hsemicolon : p.peek.kind = .semicolon
  · simp only [hsemicolon, if_true, gives_advance_bind_iff, gives_pure_iff]
  · by_cases hbare : p.peek.kind = .closeCurly ∨ p.peek.kind = .eof
    · simp only [hsemicolon, hbare, if_false, if_true, gives_pure_iff]
    · simp only [hsemicolon, hbare, if_false, gives_advance_bind_iff, gives_value_iff hexpr]

theorem gives_expressionStatement_iff : (expressionStatement expr).Gives p s q ↔
    ∃ e m, (expr .lowest).Gives p e m ∧ m.passSemicolon = q ∧ .expression p.current e = s := by
  rw [expressionStatement, gives_current_bind_iff, gives_value_iff hexpr]

omit hexpr in
theorem gives_statement_iff : (statement expr).Gives p s q ↔
    if p.current.kind = .letWord then (letStatement expr).Gives p s q
    else if p.current.kind = .returnWord then (returnStatement expr).Gives p s q
    else (expressionStatement expr).Gives p s q := by
  rw [statement, gives_current_bind_iff]
  split
  · rfl
  · split <;> rfl

/-- A quiet list of statements is empty, or a quiet statement and then a quiet list. -/
theorem gives_statements_iff {closing : Option Kind} {ss : List Stmt} :
    (statements expr closing).Gives p ss q ↔
      if closes closing p.current.kind then [] = ss ∧ p = q
      else ∃ s m rest, (statement expr).Gives p s m ∧
        (statements expr closing).Gives (m.complete s).advance rest q ∧ s :: rest = ss := by
  by_cases hclose : closes closing p.current.kind
  · rw [if_pos hclose, Action.Gives, run_statements_of_closes expr hclose]
    simp only [Prod.mk.injEq, and_iff_left_iff_imp]
    rintro ⟨rfl, rfl⟩
    rfl
  rw [if_neg hclose, Action.Gives, run_statements_of_not_closes expr hclose]
  have hlist := framed_statements hexpr closing
  rcases hrun : (statement expr).run p with ⟨d | s, m⟩
  · -- A failure is recorded, and what is recorded stays.
    rw [run_attempt_of_error hrun]
    have hle := (hlist ((recover d).run m).2.advance).diagnostics
    have hpm := (framed_statement hexpr p).diagnostics
    rw [hrun] at hpm
    simp only [Parser.diagnostics_advance, diagnostics_recover] at hle
    constructor
    · rintro ⟨hss, hq⟩
      rw [(Prod.mk.inj hss).2, hq] at hle
      have := hle.length_le
      have := hpm.length_le
      simp only [Array.length_toList, Array.size_push] at *
      omega
    · rintro ⟨s, m', _, ⟨hs, -⟩, -, -⟩
      simp [hrun] at hs
  · rw [run_attempt_of_ok hrun]
    have hpm := framed_statement hexpr p
    rw [hrun] at hpm
    have hmq := (Frame.complete m s).trans ((Frame.advance _).trans
      (hlist (m.complete s).advance))
    constructor
    · rintro ⟨hss, hq⟩
      rw [(Prod.mk.inj hss).2] at hmq
      have hm := hpm.diagnostics_eq hmq hq
      exact ⟨s, m, _, ⟨hrun, hm⟩, ⟨Prod.ext rfl (Prod.mk.inj hss).2, hq.trans hm.symm⟩,
        (Prod.mk.inj hss).1⟩
    · rintro ⟨s', m', rest, ⟨hs, hm⟩, ⟨hrest, hq⟩, rfl⟩
      obtain ⟨houtcome, rfl⟩ := Prod.mk.inj (hrun.symm.trans hs)
      obtain rfl := Except.ok.inj houtcome
      rw [hrest]
      exact ⟨rfl, hq.trans hm⟩

omit hexpr in
theorem gives_block_iff {b : Block} : (block expr).Gives p b q ↔
    ∃ ss, (statements expr (some .closeCurly)).Gives p.advance ss q ∧ .mk p.current ss = b := by
  simp only [Action.Gives, run_block, Parser.diagnostics_advance, Prod.ext_iff]
  constructor
  · rintro ⟨⟨rfl, rfl⟩, hq⟩
    exact ⟨_, ⟨⟨rfl, rfl⟩, hq⟩, rfl⟩
  · rintro ⟨_, ⟨⟨rfl, rfl⟩, hq⟩, rfl⟩
    exact ⟨⟨rfl, rfl⟩, hq⟩

omit hexpr in
theorem gives_program_iff {program' : Program} : (program expr).Gives p program' q ↔
    (statements expr none).Gives p program'.statements q := by
  obtain ⟨ss⟩ := program'
  simp only [Action.Gives, run_program, Prod.ext_iff, Program.mk.injEq]

end

end Grammar

end MonkeyFrontEnd
