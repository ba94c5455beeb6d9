import MonkeyFrontEnd.Proofs.OpenExpressions
import MonkeyFrontEnd.Proofs.Interchange
import MonkeyFrontEnd.Proofs.Quiet
import MonkeyFrontEnd.Proofs.Scans

/-!
Why reading a text comes to an end. A scan that is not at the end of the text takes a byte at least,
so a lexer gives no more tokens than its text has bytes. A statement that is tried takes a token at
least, even one that fails where it stands; and an expression that is read while another one is
being read starts behind the start of that one. `watched` is the rule for expressions that looks at
this each time it is called: it is `expression` (`watched_eq`).
-/

namespace MonkeyFrontEnd

variable {σ : Type} [TokenSource σ]

/-- Short of the end a move takes a token. -/
theorem Parser.length_tokens_advance_lt {p : Parser σ} (h : p.current.kind ≠ .eof) :
    p.advance.tokens.length < p.tokens.length := by
  rw [tokens_of_ne_eof h, List.length_cons]
  exact Nat.lt_succ_self _

namespace Grammar

section

variable {expr : Precedence → Builder σ Expr} {closing : Option Kind} {p : Parser σ}

/-- A list of statements stops where it closes. -/
theorem closes_of_statements (expr : Precedence → Builder σ Expr) (closing : Option Kind) (p : Parser σ) :
    closes closing ((statements expr closing).run p).2.current.kind := by
  change closes closing (statementsFrom expr closing [] p).2.current.kind
  fun_induction statementsFrom expr closing [] p with
  | case1 _ p h => exact h
  | case2 _ p _ _ ih => exact ih

/-- A try and the move behind it take the current token at least. -/
theorem exists_passed_of_attempt (hexpr : ∀ limit, (expr limit).Framed) (h : p.current.kind ≠ .eof) :
    ∃ passed, passed ≠ [] ∧ p.tokens = passed ++ ((attempt expr).run p).2.advance.tokens := by
  obtain ⟨passed, hpassed⟩ :=
    ((framed_attempt hexpr p).trans (Frame.advance _)).tokens_suffix
  refine ⟨passed, ?_, hpassed.symm⟩
  rintro rfl
  -- Otherwise the try would have stopped on the end of the input, with no token left.
  have htokens : ((attempt expr).run p).2.advance.tokens = p.tokens := hpassed
  have hle := (framed_attempt hexpr p).tokens_suffix.length_le
  by_cases heof : ((attempt expr).run p).2.current.kind = .eof
  · have hnil := Parser.ahead_of_eof heof
    rw [← Parser.tokens_advance, htokens, Parser.tokens_of_ne_eof h] at hnil
    cases hnil
  · have hlt := Parser.length_tokens_advance_lt heof
    rw [htokens] at hlt
    omega

end

/-! ## Expressions inside an expression -/

theorem kept_behind (n : Nat) : Parser.Kept fun _ (p : Parser σ) => p.tokens.length < n where
  advance h := Nat.lt_of_le_of_lt (Parser.ahead_suffix_tokens _).length_le h
  record h := h
  complete h := h
  enter h := h
  leave h := h

/-- Equal states with fewer than so many tokens left are in step. -/
theorem lockstep_behind (n : Nat) :
    Lockstep .equality fun _ => SameWhere fun p : Parser σ => p.tokens.length < n :=
  (kept_behind n).lockstep

section

variable {expr expr' : Precedence → Builder σ Expr} {n : Nat} {p : Parser σ}
  (hsame : ∀ limit q, q.tokens.length < n → (expr limit).run q = (expr' limit).run q)
  (hexpr : ∀ limit, (expr' limit).Framed)

section

include hsame

theorem run_unary_congr (h : p.advance.tokens.length < n) : (unary expr).run p = (unary expr').run p := by
  rw [unary, unary, Builder.run_advance_bind, Builder.run_advance_bind, Builder.run_bind,
    Builder.run_bind, hsame _ _ h]

theorem run_group_congr (h : p.advance.tokens.length < n) : (group expr).run p = (group expr').run p := by
  rw [group, group, Builder.run_advance_bind, Builder.run_advance_bind, Builder.run_bind,
    Builder.run_bind, hsame _ _ h]

end

include hsame hexpr

theorem alongside_behind (limit : Precedence) :
    Builder.Alongside .equality (SameWhere fun q : Parser σ => q.tokens.length < n)
      Likeness.equality.Exprs (expr limit) (expr' limit) :=
  alongside_of_agrees (hsame limit) fun q hq =>
    Nat.lt_of_le_of_lt (hexpr limit q).tokens_suffix.length_le hq

theorem run_conditional_congr (h : p.advance.tokens.length < n) :
    (conditional expr).run p = (conditional expr').run p := by
  have hinner := alongside_behind hsame hexpr
  rw [conditional_eq, conditional_eq, Builder.run_current_bind, Builder.run_current_bind]
  by_cases hparen : p.peek.kind = .openParen
  · rw [Builder.run_expect_bind hparen, Builder.run_expect_bind hparen]
    refine run_eq_of_alongside (P := fun q => q.tokens.length < n) eq_of_exprs_equality ?_ h
    refine ((lockstep_behind n).alongside_advance (n := 0)).bind fun _ _ _ => ?_
    exact (hinner _).bind fun c c' hc =>
      alongside_afterCondition (n := 0) (lockstep_behind n) hinner rfl hc
  · rw [Builder.run_bind, Builder.run_bind, Builder.run_expect, if_neg hparen]

/-- Only an operator, a parenthesis and `if` have expressions inside them, and these tokens are passed
before any of those. -/
theorem run_opening_congr (h : p.tokens.length ≤ n) :
    (opening expr).run p = (opening expr').run p := by
  rw [opening, opening, Builder.run_current_bind, Builder.run_current_bind]
  by_cases heof : p.current.kind = .eof
  · rw [heof]
    rfl
  · have hbehind := Nat.lt_of_lt_of_le (Parser.length_tokens_advance_lt heof) h
    split
    · rfl
    · rfl
    · rfl
    · exact run_unary_congr hsame hbehind
    · exact run_group_congr hsame hbehind
    · exact run_conditional_congr hsame hexpr hbehind
    · rfl

/-- An operator is passed before its right operand. -/
theorem run_join_congr (h : p.tokens.length ≤ n) (limit : Precedence) (left : Expr) :
    (join expr limit left).run p = (join expr' limit left).run p := by
  have hinner := alongside_behind hsame hexpr
  by_cases hlimit : limit < p.peek.kind.precedence
  · have heof := Cursor.current_ne_eof (peek_ne_eof hlimit)
    rw [run_join_of_lt expr hlimit, run_join_of_lt expr' hlimit]
    have hbehind := Nat.lt_of_lt_of_le (Parser.length_tokens_advance_lt heof) h
    refine run_eq_of_alongside (P := fun q => q.tokens.length < n) eq_of_exprs_equality ?_ hbehind
    exact (alongside_binary (n := 0) (lockstep_behind n) hinner rfl).bind fun _ _ hjoined =>
      alongside_join (n := 0) (lockstep_behind n) hinner limit hjoined
  · rw [run_join_of_not_lt expr hlimit, run_join_of_not_lt expr' hlimit]

/-- Two rules for expressions that do the same behind the start of an expression make no difference
to it. -/
theorem run_body_congr_behind (h : p.tokens.length ≤ n) (limit : Precedence) :
    (body expr limit).run p = (body expr' limit).run p := by
  have hle := Nat.le_trans (framed_opening hexpr p).tokens_suffix.length_le h
  rw [body, body, Builder.run_bind, Builder.run_bind, run_opening_congr hsame hexpr h]
  split
  · next left q hrun =>
    rw [hrun] at hle
    exact run_join_congr hsame hexpr hle limit left
  · rfl

end

theorem run_nested_congr {rule rule' : Builder σ Expr} {p : Parser σ}
    (h : rule.run { p with depth := p.depth + 1 } = rule'.run { p with depth := p.depth + 1 }) :
    (nested rule).run p = (nested rule').run p :=
  congrArg (fun outcome : Except Diagnostic Expr × Parser σ => (outcome.1, outcome.2.leave)) h

/-- The rule for expressions where expressions are being read that started with so many tokens left.
Where one more would not start behind all of them, it does `breach` instead. -/
def watchedAt (breach : Builder σ Expr) : (room : Nat) → (starts : List Nat) → Precedence → Builder σ Expr
  | 0, starts, _ =>
    Builder.ofRun
      (fun p => if ∀ n ∈ starts, p.tokens.length < n then failTooDeep.run p else breach.run p)
      fun p => by
        split
        · exact Nat.le_refl _
        · exact breach.left_run_le p
  | room + 1, starts, limit =>
    Builder.ofRun
      (fun p =>
        if ∀ n ∈ starts, p.tokens.length < n then
          (nested (body (watchedAt breach room (p.tokens.length :: starts)) limit)).run p
        else breach.run p)
      fun p => by
        split
        · exact Builder.left_run_le _ p
        · exact breach.left_run_le p

/-- The rule for expressions that looks, each time it is called, whether it starts behind the start of
every expression that is being read. -/
def watched (breach : Builder σ Expr) (limit : Precedence) : Builder σ Expr :=
  Builder.ofRun (fun p => (watchedAt breach p.room [] limit).run p) fun p =>
    (watchedAt breach p.room [] limit).left_run_le p

/-- Behind all that is being read, nothing is found wrong. -/
theorem run_watchedAt {breach : Builder σ Expr} {room : Nat} {starts : List Nat} {p : Parser σ}
    (h : ∀ n ∈ starts, p.tokens.length < n) (limit : Precedence) :
    (watchedAt breach room starts limit).run p = (expressionAt room limit).run p := by
  induction room generalizing starts p limit with
  | zero =>
    rw [watchedAt, Builder.run_ofRun, if_pos h]
    rfl
  | succ room ih =>
    rw [watchedAt, Builder.run_ofRun, if_pos h, expressionAt]
    have hinner (limit : Precedence) (q : Parser σ) (hq : q.tokens.length < p.tokens.length) :
        (watchedAt breach room (p.tokens.length :: starts) limit).run q =
          (expressionAt room limit).run q :=
      ih (List.forall_mem_cons.2 ⟨hq, fun n hn => Nat.lt_trans hq (h n hn)⟩) limit
    have hbody := run_body_congr_behind (p := { p with depth := p.depth + 1 }) hinner
      (framed_expressionAt room) (Nat.le_refl _) limit
    exact run_nested_congr hbody

theorem watched_eq (breach : Builder σ Expr) : watched breach = expression := by
  funext limit
  have hrun (p : Parser σ) :
      (watchedAt breach p.room [] limit).run p = (expressionAt p.room limit).run p :=
    run_watchedAt (fun _ hn => absurd hn (List.not_mem_nil)) limit
  simp only [watched, expression, hrun]

end Grammar

/-! ## Texts and programs -/

/-- Each token that is drained from a text takes a byte at least. -/
theorem Scanner.length_drain_le (s : Scanner) :
    (TokenSource.drain s).1.length ≤ Text.byteLength s.rest := by
  fun_induction TokenSource.drain s with
  | case1 s h => exact Nat.zero_le _
  | case2 s h rest ih =>
    obtain ⟨taken, htaken, -⟩ := s.exists_next_eq_past
    have hshorter : s.next.2.rest.length < s.rest.length := s.length_next_lt h
    have hbytes := Text.length_le_byteLength taken
    have hlength := congrArg List.length htaken
    have htotal := congrArg Text.byteLength htaken
    rw [List.length_append] at hlength
    rw [Text.byteLength_append] at htotal
    have ih' : (TokenSource.drain s.next.2).1.length ≤ Text.byteLength s.next.2.rest := ih
    change (TokenSource.drain s.next.2).1.length + 1 ≤ _
    omega

open Grammar in
/-- Reading and parsing end. From every place between two characters of a text a lexer finishes its
next call: each scan succeeds and moves the offset on. It comes to the end of the input after at most
as many tokens as its text has bytes, and stays there. A parse of any source stops with the end of
the input current and ahead; each time a list of statements goes on, it does so on a token and passes
it; and no expression is read inside another one unless it starts behind the start of that one. -/
theorem parse_terminates (text file : String) (s : σ) :
    (∀ (l : Lexer) (rest : List Char), l.remainder = .ok rest →
      (l.atEnd = false → ∃ m behind, l.scan = .ok m ∧ l.offset < m.offset ∧ m.remainder = .ok behind) ∧
      ∃ t q, l.Pulls t q ∧ l.next = .ok (t, q) ∧ ∃ later, q.remainder = .ok later) ∧
    (Lexer.ofString text file).remainder = .ok text.toList ∧
    (∃ tokens last, (Lexer.ofString text file).Yields tokens last ∧ last.kind = .eof ∧
      tokens.length ≤ Text.byteLength text.toList ∧
      ∀ n, (Lexer.ofString text file).take n = .ok ((tokens ++ List.replicate n last).take n)) ∧
    ((parse s).2.current.kind = .eof ∧ (parse s).2.peek.kind = .eof) ∧
    (∀ (expr : Precedence → Builder σ Expr), (expr = expression ∨ ∃ room, expr = expressionAt room) →
      ∀ (closing : Option Kind) (p : Parser σ), ¬ closes closing p.current.kind →
        p.current.kind ≠ .eof ∧
        ∃ passed, passed ≠ [] ∧ p.tokens = passed ++ ((attempt expr).run p).2.advance.tokens) ∧
    ∀ breach : Builder σ Expr, watched breach = expression := by
  have hremainder : (Lexer.ofString text file).remainder = .ok text.toList := Text.dropBytes_zero _
  refine ⟨fun l rest hrest => ⟨fun hend => ?_, Lexer.exists_pulls hrest⟩, hremainder,
    ⟨_, _, Lexer.yields_drain rfl hremainder, ?_, ?_, fun n => ?_⟩, ?_, ?_, watched_eq⟩
  · obtain ⟨m, behind, hscan, hoffset, hbehind, -⟩ := Lexer.exists_scan hrest hend
    exact ⟨m, behind, hscan, hoffset, hbehind⟩
  · exact (TokenSource.drain_kinds _).2
  · exact Scanner.length_drain_le (Scanner.ofString text file)
  · have htake := Reader.lexer_take (Reader.ofString text file) n
    rw [TokenSource.take_eq, ← Reader.drain_scanner] at htake
    exact htake
  · have hcurrent : (parse s).2.current.kind = .eof := by
      have hcloses := closes_of_statements expression none (Parser.start s)
      rw [closes, Bool.or_eq_true, decide_eq_true_iff] at hcloses
      exact hcloses.resolve_right (by simp)
    refine ⟨hcurrent, ?_⟩
    rw [Parser.peek, (parse s).2.cursor.peek_of_current_eof hcurrent]
    exact hcurrent
  · intro expr hexpr closing p hopen
    have hframed (limit : Precedence) : (expr limit).Framed := by
      obtain rfl | ⟨room, rfl⟩ := hexpr
      · exact framed_expression limit
      · exact framed_expressionAt room limit
    have hne := current_ne_eof hopen
    exact ⟨hne, exists_passed_of_attempt hframed hne⟩

/-- A brace that closes nothing, a `return` without a value, and letters of two bytes. -/
def strayText : String := "\x7d return é"

open Grammar in
theorem parse_terminates_strayText :
    (Lexer.ofString strayText "notes").remainder = .ok strayText.toList ∧
      (Lexer.ofString strayText "notes").atEnd = false ∧
      (∃ m behind, (Lexer.ofString strayText "notes").scan = .ok m ∧
        (Lexer.ofString strayText "notes").offset < m.offset ∧ m.remainder = .ok behind) ∧
      let p := Parser.start (Scanner.ofString strayText "notes")
      ¬ closes none p.current.kind ∧ p.current.kind ≠ .eof ∧
        ∃ passed, passed ≠ [] ∧
          p.tokens = passed ++ ((attempt expression).run p).2.advance.tokens := by
  obtain ⟨hlexer, hremainder, -, -, hlists, -⟩ :=
    parse_terminates strayText "notes" (Scanner.ofString strayText "notes")
  have hend : (Lexer.ofString strayText "notes").atEnd = false := by decide +kernel
  have hopen : ¬ closes none (Parser.start (Scanner.ofString strayText "notes")).current.kind := by
    decide +kernel
  exact ⟨hremainder, hend, (hlexer _ _ hremainder).1 hend, hopen, hlists expression (.inl rfl) none _ hopen⟩

end MonkeyFrontEnd
