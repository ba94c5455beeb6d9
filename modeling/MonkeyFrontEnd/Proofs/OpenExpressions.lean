import MonkeyFrontEnd.Proofs.Abreast

/-!
The count of open expressions. Reading may start from any rule and in any state (`Entry`), and ends
with as many expressions open as before, the cursor some tokens further on and the diagnostics of
before in front of the new ones. On the way the count stays within the limit, and an expression is
left only where one is open: a rule that looks at the count each time it enters or leaves, and does
something else where the count is wrong, cannot be told from the rule that does not look
(`run_checked`).
-/

namespace MonkeyFrontEnd

variable {σ : Type} [TokenSource σ]

namespace Cursor

variable {c d : Cursor σ}

/-- Moving on drops the current token, if there is one. -/
theorem tokens_advance (c : Cursor σ) : c.advance.tokens = c.tokens.drop 1 := by
  by_cases h : c.current.kind = .eof
  · rw [advance_of_eof h, tokens_of_eof h, List.drop_nil]
  · rw [tokens_of_ne_eof h, List.drop_one, List.tail_cons]

theorem Reaches.exists_drop (h : c.Reaches d) :
    ∃ n, d.tokens = c.tokens.drop n ∧ ∀ i, d.nth i = c.nth (n + i) := by
  induction h with
  | here => exact ⟨0, rfl, fun i => by rw [Nat.zero_add]⟩
  | onward _ ih =>
    obtain ⟨n, htokens, hnth⟩ := ih
    refine ⟨n + 1, by rw [tokens_advance, htokens, List.drop_drop], fun i => ?_⟩
    rw [← nth_succ, hnth, Nat.add_assoc, Nat.add_comm 1 i]

/-- A cursor that moved on goes on with the tokens that were ahead of it. -/
theorem Reaches.exists_nth (h : c.Reaches d) : ∃ n, ∀ i, d.nth i = c.nth (n + i) := by
  obtain ⟨n, -, hnth⟩ := h.exists_drop
  exact ⟨n, hnth⟩

end Cursor

namespace Grammar

/-- A rule from which reading may start, with what it has to be given. -/
inductive Entry where
  | expression (limit : Precedence)
  | identifier
  | integer
  | boolean
  | unary
  | group
  | conditional
  | binary (left : Expr)
  | statement
  | letStatement
  | returnStatement
  | expressionStatement
  | block
  | program

namespace Entry

/-- What is read. -/
def Value : Entry → Type
  | statement | letStatement | returnStatement | expressionStatement => Stmt
  | block => Block
  | program => Program
  | _ => Expr

/-- The rule, given the rule for the expressions inside it. -/
def rule (expr : Precedence → Builder σ Expr) : (entry : Entry) → Builder σ entry.Value
  | expression limit => expr limit
  | identifier => Grammar.identifier
  | integer => Grammar.integer
  | boolean => Grammar.boolean
  | unary => Grammar.unary expr
  | group => Grammar.group expr
  | conditional => Grammar.conditional expr
  | binary left => Grammar.binary expr left
  | statement => Grammar.statement expr
  | letStatement => Grammar.letStatement expr
  | returnStatement => Grammar.returnStatement expr
  | expressionStatement => Grammar.expressionStatement expr
  | block => Builder.ofAction (Grammar.block expr)
  | program => Builder.ofAction (Grammar.program expr)

theorem framed_rule {expr : Precedence → Builder σ Expr} (hexpr : ∀ limit, (expr limit).Framed)
    (entry : Entry) : (entry.rule expr).Framed := by
  cases entry with
  | expression limit => exact hexpr limit
  | identifier => exact Builder.framed_current.bind fun _ => Builder.framed_pure _
  | integer => exact framed_integer
  | boolean => exact Builder.framed_current.bind fun _ => Builder.framed_pure _
  | unary => exact framed_unary hexpr
  | group => exact framed_group hexpr
  | conditional => exact framed_conditional hexpr
  | binary left => exact framed_binary hexpr left
  | statement => exact framed_statement hexpr
  | letStatement => exact framed_letStatement hexpr
  | returnStatement => exact framed_returnStatement hexpr
  | expressionStatement => exact framed_expressionStatement hexpr
  | block => exact Builder.framed_ofAction (framed_block hexpr)
  | program => exact Builder.framed_ofAction (framed_program hexpr)

end Entry

/-! ## Looking at the count -/

section

variable (breach : Builder σ Expr)

/-- The rule where no more expressions are open than the limit allows, and `breach` elsewhere. -/
def withinLimit (rule : Builder σ Expr) : Builder σ Expr :=
  Builder.ofRun (fun p => if p.depth ≤ Parser.nestingLimit then rule.run p else breach.run p) fun p => by
    split
    · exact rule.left_run_le p
    · exact breach.left_run_le p

/-- The rule inside one more expression, if there may be one more. Before that expression is left it is
looked whether the count allows it. -/
def enclosed (rule : Builder σ Expr) : Builder σ Expr :=
  Builder.ofRun
    (fun p =>
      match p.enter with
      | .error d => (.error d, p)
      | .ok m =>
        let (result, q) := rule.run m
        if 0 < q.depth ∧ q.depth ≤ Parser.nestingLimit then (result, q.leave) else breach.run q)
    fun p => by
      by_cases hroom : p.depth < Parser.nestingLimit
      · have hrule := rule.left_run_le { p with depth := p.depth + 1 }
        simp only [Parser.enter, hroom, if_true]
        split
        · exact hrule
        · exact Nat.le_trans (breach.left_run_le _) hrule
      · simp [Parser.enter, hroom]

/-- The rule for expressions that asks for every expression it enters, and looks at the count of open
expressions whenever it is called, has entered an expression or is about to leave one. -/
def checked : (fuel : Nat) → Precedence → Builder σ Expr
  | 0, _ => breach
  | fuel + 1, limit =>
    withinLimit breach (enclosed breach (withinLimit breach (body (checked fuel) limit)))

variable {breach} {p : Parser σ} {rule : Builder σ Expr}

theorem run_withinLimit (h : p.depth ≤ Parser.nestingLimit) :
    (withinLimit breach rule).run p = rule.run p := by
  rw [withinLimit, Builder.run_ofRun, if_pos h]

theorem run_enclosed_of_full (h : Parser.nestingLimit ≤ p.depth) :
    (enclosed breach rule).run p = (.error p.tooDeep, p) := by
  rw [enclosed, Builder.run_ofRun, Parser.enter, if_neg (Nat.not_lt.2 h)]

/-- A rule that keeps the count is enclosed as by `nested`. -/
theorem run_enclosed_of_room {rule' : Builder σ Expr} (h : p.depth < Parser.nestingLimit)
    (hsame : rule.run { p with depth := p.depth + 1 } = rule'.run { p with depth := p.depth + 1 })
    (hframed : rule'.Framed) : (enclosed breach rule).run p = (nested rule').run p := by
  have hdepth := (hframed { p with depth := p.depth + 1 }).depth
  rw [enclosed, Builder.run_ofRun, Parser.enter, if_pos h]
  simp only [hsame]
  rw [if_pos (by rw [hdepth]; exact ⟨Nat.succ_pos _, h⟩)]
  rfl

end

/-! ## Rules that agree -/

/-- The relation that holds between a state of which something is true and itself. -/
abbrev SameWhere (P : Parser σ → Prop) (p q : Parser σ) : Prop := p = q ∧ P p

/-- Two rules that do the same wherever something is true, and keep it true, are in step. -/
theorem alongside_of_agrees {rule rule' : Builder σ Expr} {P : Parser σ → Prop}
    (h : ∀ p, P p → rule.run p = rule'.run p) (hkeeps : ∀ p, P p → P (rule'.run p).2) :
    Builder.Alongside .equality (SameWhere P) Likeness.equality.Exprs rule rule' := by
  rintro p _ ⟨rfl, hp⟩
  rw [h p hp]
  refine ⟨?_, rfl, hkeeps p hp⟩
  cases houtcome : (rule'.run p).1 with
  | ok e => exact .ok rfl
  | error d => exact .error ⟨rfl, ⟨.eof, "", ⟨d.position, d.position⟩⟩, _, rfl, rfl, rfl⟩

/-- Two rules in step on equal states do the same. -/
theorem run_eq_of_alongside {α : Type} {rel : α → α → Prop} {rule rule' : Builder σ α}
    {P : Parser σ → Prop} (hrel : ∀ {a a'}, rel a a' → a = a')
    (h : Builder.Alongside .equality (SameWhere P) rel rule rule') {p : Parser σ} (hp : P p) :
    rule.run p = rule'.run p := by
  obtain ⟨houtcome, hstate, -⟩ := h p p ⟨rfl, hp⟩
  refine Prod.ext ?_ hstate
  generalize (rule.run p).1 = outcome at houtcome
  generalize (rule'.run p).1 = outcome' at houtcome
  cases houtcome with
  | ok ha => rw [hrel ha]
  | error hd => rw [Likeness.diagnostics_equality hd]

theorem eq_of_exprs_equality {e e' : Expr} (h : Likeness.equality.Exprs e e') : e = e' := by
  simpa [Likeness.Exprs, Likeness.equality] using h

section

variable {expr expr' : Precedence → Builder σ Expr} {p : Parser σ}
  (hsame : ∀ limit q, q.depth = p.depth → (expr limit).run q = (expr' limit).run q)
  (hexpr : ∀ limit, (expr' limit).Framed)

include hsame hexpr

theorem alongside_at_depth (limit : Precedence) :
    Builder.Alongside .equality (SameWhere fun q : Parser σ => q.depth = p.depth)
      Likeness.equality.Exprs (expr limit) (expr' limit) :=
  alongside_of_agrees (hsame limit) fun q hq => (hexpr limit q).depth.trans hq

theorem run_body_congr (limit : Precedence) : (body expr limit).run p = (body expr' limit).run p := by
  have hinner := alongside_at_depth hsame hexpr
  exact run_eq_of_alongside eq_of_exprs_equality (alongside_body lockstep_depth hinner limit) rfl

/-- Two rules for expressions that do the same where a rule starts make it do the same. -/
theorem Entry.run_rule_congr (entry : Entry) : (entry.rule expr).run p = (entry.rule expr').run p := by
  have hinner := alongside_at_depth hsame hexpr
  have hexprs {e e' : Expr} (h : Likeness.equality.Exprs e e') : e = e' := eq_of_exprs_equality h
  cases entry with
  | expression limit => exact hsame limit p rfl
  | identifier => rfl
  | integer => rfl
  | boolean => rfl
  | unary => exact run_eq_of_alongside hexprs (alongside_unary lockstep_depth hinner) rfl
  | group => exact run_eq_of_alongside hexprs (alongside_group lockstep_depth hinner) rfl
  | conditional => exact run_eq_of_alongside hexprs (alongside_conditional lockstep_depth hinner) rfl
  | binary left => exact run_eq_of_alongside hexprs (alongside_binary lockstep_depth hinner rfl) rfl
  | statement =>
    exact run_eq_of_alongside Likeness.stmts_equality.1 (alongside_statement lockstep_depth hinner) rfl
  | letStatement =>
    exact run_eq_of_alongside Likeness.stmts_equality.1 (alongside_letStatement lockstep_depth hinner) rfl
  | returnStatement =>
    exact run_eq_of_alongside Likeness.stmts_equality.1
      (alongside_returnStatement lockstep_depth hinner) rfl
  | expressionStatement =>
    exact run_eq_of_alongside Likeness.stmts_equality.1
      (alongside_expressionStatement lockstep_depth hinner) rfl
  | block =>
    exact run_eq_of_alongside Likeness.blocks_equality.1
      (Builder.alongside_ofAction (alongside_block lockstep_depth hinner)) rfl
  | program =>
    exact run_eq_of_alongside Likeness.programs_equality.1
      (Builder.alongside_ofAction (alongside_program lockstep_depth hinner)) rfl

end

/-- Looking at the count finds nothing wrong, and there is fuel for all expressions that may still be
entered. -/
theorem run_checked {breach : Builder σ Expr} {fuel : Nat} {p : Parser σ}
    (hfuel : Parser.nestingLimit < fuel + p.depth) (hp : p.depth ≤ Parser.nestingLimit)
    (limit : Precedence) : (checked breach fuel limit).run p = (expression limit).run p := by
  induction fuel generalizing p limit with
  | zero => omega
  | succ fuel ih =>
    rw [checked, run_withinLimit hp, run_expression]
    rcases Nat.lt_or_eq_of_le hp with hroom | hfull
    · -- Inside, one more expression is open and one unit of fuel is left less.
      obtain ⟨room, hroom'⟩ : ∃ room, p.room = room + 1 := ⟨p.room - 1, by rw [Parser.room]; omega⟩
      rw [hroom']
      refine run_enclosed_of_room hroom ?_ (framed_body (framed_expressionAt room) limit)
      rw [run_withinLimit (by exact hroom)]
      refine run_body_congr (fun limit q hq => ?_) (framed_expressionAt room) limit
      have hq' : q.depth = p.depth + 1 := hq
      rw [ih (by omega) (by omega), run_expression]
      congr 2
      rw [Parser.room] at hroom' ⊢
      omega
    · have hnone : p.room = 0 := by rw [Parser.room]; omega
      rw [run_enclosed_of_full (Nat.le_of_eq hfull.symm), hnone, run_expressionAt_zero]

/-- Whatever is read, from whatever state within the limit, by success or failure: as many expressions
are open as before, the cursor stands some places further on in the same tokens, and what was
recorded before comes first. On the way no more expressions were open than the limit allows, and
none was left where none was open. -/
theorem run_keeps_frame (entry : Entry) {p : Parser σ} (hp : p.depth ≤ Parser.nestingLimit) :
    let q := ((entry.rule expression).run p).2
    q.depth = p.depth ∧
      (∃ n, q.current = p.cursor.nth n ∧ q.peek = p.cursor.nth (n + 1)) ∧
      p.diagnostics.toList <+: q.diagnostics.toList ∧
      ∀ breach : Builder σ Expr,
        (entry.rule (checked breach (Parser.nestingLimit + 1))).run p = (entry.rule expression).run p := by
  have hframe := entry.framed_rule framed_expression p
  obtain ⟨n, hn⟩ := hframe.cursor.exists_nth
  refine ⟨hframe.depth, ⟨n, hn 0, hn 1⟩, hframe.diagnostics, fun breach => ?_⟩
  refine entry.run_rule_congr (fun limit q hq => ?_) framed_expression
  exact run_checked (by omega) (by omega) limit

/-- A parser on a block, with all expressions open that may be, and a diagnostic from before. -/
def crampedParser : Parser Scanner :=
  { Parser.start (Scanner.ofString "\x7b return; (1) \x7d" "shell") with
    depth := 64
    diagnostics := #[⟨.unexpected .assign .semicolon, Position.null⟩] }

theorem run_keeps_frame_crampedParser :
    crampedParser.depth ≤ Parser.nestingLimit ∧
    let q := ((Entry.block.rule expression).run crampedParser).2
    q.depth = crampedParser.depth ∧
      (∃ n, q.current = crampedParser.cursor.nth n ∧ q.peek = crampedParser.cursor.nth (n + 1)) ∧
      crampedParser.diagnostics.toList <+: q.diagnostics.toList ∧
      ∀ breach : Builder Scanner Expr,
        (Entry.block.rule (checked breach (Parser.nestingLimit + 1))).run crampedParser =
          (Entry.block.rule expression).run crampedParser := by
  have h : crampedParser.depth ≤ Parser.nestingLimit := Nat.le_refl _
  exact ⟨h, run_keeps_frame .block h⟩

end Grammar

end MonkeyFrontEnd
