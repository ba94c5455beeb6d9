import MonkeyFrontEnd.Proofs.Quiet

/-!
The same tokens with two ends. Two parsers read the same tokens, but these end differently: with one
token or another, or with the input. If no expression begins or goes on at either end, and no rule
asks for what stands there, then every rule does the same for both parsers up to their ends. It fails
at an end only because an expression was due, and no `return` is told by its end what it is, unless
the ends are told apart there (`Grammar.attempt_cases_of_abreast`).
-/

namespace MonkeyFrontEnd

variable {σ : Type} [TokenSource σ] {α β : Type}

namespace Kind

/-- Some rule asks for a token of this kind by its name. -/
def isAsked : Kind → Bool
  | identifier | assign | openParen | closeParen | openCurly => true
  | _ => false

/-- A kind that no expression begins or goes on with, and that no rule asks for. -/
def isFence (k : Kind) : Bool := !k.startsExpression && !k.isOperator && !k.isAsked

variable {k : Kind}

theorem opener?_of_isFence (h : k.isFence) : k.opener? = none := by
  simp only [isFence, startsExpression, Bool.and_eq_true, Bool.not_eq_true',
    Option.isSome_eq_false_iff, Option.isNone_iff_eq_none] at h
  exact h.1.1

theorem not_lt_precedence_of_isFence (h : k.isFence) (limit : Precedence) : ¬ limit < k.precedence := by
  intro hlt
  have hoperator := (isOperator_iff_lowest_lt _).2 (Nat.lt_of_le_of_lt (Nat.zero_le _) hlt)
  simp [isFence, hoperator] at h

theorem ne_of_isFence {kind : Kind} (h : k.isFence) (hkind : kind.isAsked) : k ≠ kind := by
  rintro rfl
  simp [isFence, hkind] at h

end Kind

/-- Two ends that the same tokens may have, each of them empty at the end of the input, and what two
parsers have recorded that come to them. -/
structure Ends where
  stop : List Token
  stop' : List Token
  isFence : (headKind stop).isFence
  isFence' : (headKind stop').isFence
  semicolon_iff : headKind stop = .semicolon ↔ headKind stop' = .semicolon
  logged : Array Diagnostic
  logged' : Array Diagnostic

namespace Ends

variable (ends : Ends)

/-- The parsers stand before the tokens `xs`, none of which opens a block, and then their ends. -/
structure Abreast (xs : List Token) (p p' : Parser σ) : Prop where
  tokens : p.tokens = xs ++ ends.stop
  tokens' : p'.tokens = xs ++ ends.stop'
  kind_ne_openCurly : ∀ t ∈ xs, t.kind ≠ .openCurly
  diagnostics : p.diagnostics = ends.logged
  diagnostics' : p'.diagnostics = ends.logged'

/-- Where a statement may end, with the tokens `xs` left: before the ends, or on ends that are
semicolons. -/
def Passes (xs : List Token) : Prop := xs ≠ [] ∨ headKind ends.stop = .semicolon

/-- With the failures recorded that each parser has met. -/
def record (d d' : Diagnostic) : Ends :=
  { ends with logged := ends.logged.push d, logged' := ends.logged'.push d' }

/-- The two ends begin with the same token. -/
def Meet : Prop := ∃ t, ends.stop.head? = some t ∧ ends.stop'.head? = some t

namespace Abreast

variable {ends} {t : Token} {xs : List Token} {p p' : Parser σ}

theorem current (h : ends.Abreast (t :: xs) p p') : p.current = t :=
  Parser.current_of_tokens h.tokens

theorem current' (h : ends.Abreast (t :: xs) p p') : p'.current = t :=
  Parser.current_of_tokens h.tokens'

theorem kind_current (h : ends.Abreast xs p p') : p.current.kind = headKind (xs ++ ends.stop) := by
  rw [← h.tokens, Parser.headKind_tokens]

theorem kind_current' (h : ends.Abreast xs p p') : p'.current.kind = headKind (xs ++ ends.stop') := by
  rw [← h.tokens', Parser.headKind_tokens]

/-- The parsers stand on the same token, unless they have come to ends that are not the same. -/
theorem current_eq (h : ends.Abreast xs p p') (hsame : xs ≠ [] ∨ ends.Meet) :
    p'.current = p.current := by
  cases xs with
  | cons t xs => rw [h.current, h.current']
  | nil =>
    obtain ⟨t, ht, ht'⟩ := hsame.resolve_left (fun hne => hne rfl)
    obtain ⟨rest, hstop⟩ := List.head?_eq_some_iff.1 ht
    obtain ⟨rest', hstop'⟩ := List.head?_eq_some_iff.1 ht'
    have htokens := h.tokens
    have htokens' := h.tokens'
    rw [hstop] at htokens
    rw [hstop'] at htokens'
    rw [Parser.current_of_tokens htokens, Parser.current_of_tokens htokens']

theorem advance (h : ends.Abreast (t :: xs) p p') : ends.Abreast xs p.advance p'.advance where
  tokens := Parser.ahead_of_tokens h.tokens
  tokens' := Parser.ahead_of_tokens h.tokens'
  kind_ne_openCurly u hu := h.kind_ne_openCurly u (List.mem_cons_of_mem t hu)
  diagnostics := h.diagnostics
  diagnostics' := h.diagnostics'

/-- Where a parser has moved on before its end, fewer of the same tokens are left. -/
theorem suffix {ends' : Ends} {ys : List Token} {q q' : Parser σ} (h : ends.Abreast xs p p')
    (hq : ends'.Abreast ys q q') (hstop : ends'.stop = ends.stop) (hpq : Frame p q) : ys <:+ xs := by
  obtain ⟨read, hread⟩ := hpq.tokens_suffix
  rw [h.tokens, hq.tokens, hstop, ← List.append_assoc] at hread
  exact ⟨read, List.append_cancel_right hread⟩

theorem record (h : ends.Abreast xs p p') (d d' : Diagnostic) :
    (ends.record d d').Abreast xs (p.record d) (p'.record d') where
  tokens := h.tokens
  tokens' := h.tokens'
  kind_ne_openCurly := h.kind_ne_openCurly
  diagnostics := by rw [Parser.diagnostics_record, h.diagnostics]; rfl
  diagnostics' := by rw [Parser.diagnostics_record, h.diagnostics']; rfl

/-- The number of open expressions is not looked at. -/
theorem withDepth (h : ends.Abreast xs p p') (n n' : Nat) :
    ends.Abreast xs { p with depth := n } { p' with depth := n' } :=
  ⟨h.tokens, h.tokens', h.kind_ne_openCurly, h.diagnostics, h.diagnostics'⟩

theorem complete (h : ends.Abreast xs p p') (s : Stmt) :
    ends.Abreast xs (p.complete s) (p'.complete s) :=
  ⟨h.tokens, h.tokens', h.kind_ne_openCurly, h.diagnostics, h.diagnostics'⟩

theorem peek_semicolon_iff (h : ends.Abreast (t :: xs) p p') :
    p.peek.kind = .semicolon ↔ p'.peek.kind = .semicolon := by
  have hpeek : p.peek.kind = headKind (xs ++ ends.stop) := h.advance.kind_current
  have hpeek' : p'.peek.kind = headKind (xs ++ ends.stop') := h.advance.kind_current'
  rw [hpeek, hpeek']
  cases xs with
  | nil => exact ends.semicolon_iff
  | cons u xs => rfl

/-- Behind a semicolon that follows, the parsers are before their ends or on ends that are semicolons. -/
theorem passes_of_semicolon (h : ends.Abreast (t :: xs) p p') (hsemicolon : p.peek.kind = .semicolon) :
    ends.Passes xs := by
  have hpeek : p.peek.kind = headKind (xs ++ ends.stop) := h.advance.kind_current
  rw [hpeek] at hsemicolon
  cases xs with
  | nil => exact .inr hsemicolon
  | cons u xs => exact .inl (List.cons_ne_nil u xs)

/-- A semicolon is passed by both parsers or by none. -/
theorem passSemicolon (h : ends.Abreast xs p p') (hxs : xs ≠ []) :
    ∃ ys, ends.Abreast ys p.passSemicolon p'.passSemicolon ∧ ends.Passes ys := by
  obtain ⟨t, xs, rfl⟩ := List.exists_cons_of_ne_nil hxs
  unfold Parser.passSemicolon
  by_cases hsemicolon : p.peek.kind = .semicolon
  · rw [if_pos hsemicolon, if_pos (h.peek_semicolon_iff.1 hsemicolon)]
    exact ⟨xs, h.advance, h.passes_of_semicolon hsemicolon⟩
  · rw [if_neg hsemicolon, if_neg (mt h.peek_semicolon_iff.2 hsemicolon)]
    exact ⟨t :: xs, h, .inl hxs⟩

end Abreast

/-- Two failures with the tokens `xs` left before the ends. If the first one names a kind that begins
no expression, that is the kind of the token it happened at; and at the ends themselves nothing can
fail but the search for an expression, unless the nesting is too deep. -/
structure Stops (d d' : Diagnostic) (xs : List Token) : Prop where
  isTooDeep_eq : d'.fault.isTooDeep = d.fault.isTooDeep
  kind_eq : ∀ k, d.fault = .noExpression k → k = headKind (xs ++ ends.stop)
  at_ends : xs = [] → d.fault = .noExpression (headKind ends.stop) ∨ d.fault.isTooDeep
  eq_of_meet : ends.Meet → d' = d

/-- Both outcomes are the same value with tokens left of which `P` holds, or both are failures. -/
inductive Outcomes (P : List Token → Prop) (xs : List Token) :
    Except Diagnostic α → Except Diagnostic α → Prop
  | ok (a : α) (hxs : P xs) : Outcomes P xs (.ok a) (.ok a)
  | error {d d' : Diagnostic} (h : ends.Stops d d' xs) : Outcomes P xs (.error d) (.error d')

/-- Two results that leave the parsers abreast, with outcomes that go together. -/
def Alike (P : List Token → Prop) (r r' : Except Diagnostic α × Parser σ) : Prop :=
  ∃ xs, ends.Abreast xs r.2 r'.2 ∧ ends.Outcomes P xs r.1 r'.1

variable {ends} {P Q : List Token → Prop} {xs : List Token} {p p' : Parser σ}

theorem Abreast.alike_ok (h : ends.Abreast xs p p') (hxs : P xs) (a : α) :
    ends.Alike P (.ok a, p) (.ok a, p') := ⟨xs, h, .ok a hxs⟩

theorem Abreast.alike_error (h : ends.Abreast xs p p') {d d' : Diagnostic} (hd : ends.Stops d d' xs) :
    ends.Alike P ((.error d : Except Diagnostic α), p) (.error d', p') := ⟨xs, h, .error hd⟩

theorem Alike.bind {b : Builder σ α} {f : α → Builder σ β} (h : ends.Alike P (b.run p) (b.run p'))
    (hf : ∀ a ys q q', b.run p = (.ok a, q) → ends.Abreast ys q q' → P ys →
      ends.Alike Q ((f a).run q) ((f a).run q')) :
    ends.Alike Q ((b >>= f).run p) ((b >>= f).run p') := by
  obtain ⟨ys, hys, houtcomes⟩ := h
  rcases hrun : b.run p with ⟨outcome, q⟩
  rcases hrun' : b.run p' with ⟨outcome', q'⟩
  rw [hrun, hrun'] at hys houtcomes
  cases houtcomes with
  | ok a hP =>
    rw [Builder.run_bind_of_ok hrun, Builder.run_bind_of_ok hrun']
    exact hf a ys q q' hrun hys hP
  | error hd =>
    rw [Builder.run_bind_of_error hrun, Builder.run_bind_of_error hrun']
    exact hys.alike_error hd

/-- Failures that are not about a missing expression, at a token before the ends. -/
theorem stops_of_cons {t : Token} {d d' : Diagnostic} (hdeep : d'.fault.isTooDeep = d.fault.isTooDeep)
    (hd : ∀ k, d.fault ≠ .noExpression k) (hmeet : ends.Meet → d' = d) :
    ends.Stops d d' (t :: xs) :=
  ⟨hdeep, fun k hk => absurd hk (hd k), fun h => absurd h (List.cons_ne_nil t xs), hmeet⟩

/-- What a rule asks for is found before the ends, or else it fails there. -/
theorem Abreast.alike_expect_bind {t : Token} (h : ends.Abreast (t :: xs) p p') {kind : Kind}
    (hkind : kind.isAsked) {f : Token → Builder σ β}
    (hf : ∀ u ys, xs = u :: ys → u.kind = kind →
      ends.Alike Q ((f u).run p.advance) ((f u).run p'.advance)) :
    ends.Alike Q ((Builder.expect kind >>= f).run p) ((Builder.expect kind >>= f).run p') := by
  have hfail (hpeek : p.peek.kind ≠ kind) (hpeek' : p'.peek.kind ≠ kind) :
      ends.Alike Q ((Builder.expect kind >>= f).run p) ((Builder.expect kind >>= f).run p') := by
    rw [Builder.run_bind, Builder.run_bind, Builder.run_expect, Builder.run_expect, if_neg hpeek,
      if_neg hpeek']
    refine h.alike_error (stops_of_cons rfl (fun k hk => by cases hk) fun hmeet => ?_)
    have hsame : p'.peek = p.peek := h.advance.current_eq (.inr hmeet)
    rw [hsame]
  cases xs with
  | nil =>
    have hpeek : p.peek.kind = headKind ends.stop := h.advance.kind_current
    have hpeek' : p'.peek.kind = headKind ends.stop' := h.advance.kind_current'
    refine hfail ?_ ?_
    · rw [hpeek]
      exact Kind.ne_of_isFence ends.isFence hkind
    · rw [hpeek']
      exact Kind.ne_of_isFence ends.isFence' hkind
  | cons u xs =>
    have hpeek : p.peek = u := h.advance.current
    have hpeek' : p'.peek = u := h.advance.current'
    by_cases hu : u.kind = kind
    · rw [Builder.run_expect_bind (hpeek ▸ hu), Builder.run_expect_bind (hpeek' ▸ hu), hpeek, hpeek']
      exact hf u xs rfl hu
    · exact hfail (hpeek ▸ hu) (hpeek' ▸ hu)

end Ends

namespace Grammar

open Builder (run_current_bind run_peek_bind run_advance_bind run_takeSemicolon_bind)

/-- The rule reads expressions alike before the same ends, and an expression that was read stops before
them. -/
def KeepsEnds (ends : Ends) (expr : Precedence → Builder σ Expr) : Prop :=
  ∀ limit xs p p', ends.Abreast xs p p' →
    ends.Alike (· ≠ []) ((expr limit).run p) ((expr limit).run p')

variable {ends : Ends} {expr : Precedence → Builder σ Expr} (hexpr : KeepsEnds ends expr) {t : Token}
  {xs : List Token} {p p' : Parser σ}

/-! ## Expressions -/

section

include hexpr

theorem alike_unary (h : ends.Abreast (t :: xs) p p') :
    ends.Alike (· ≠ []) ((unary expr).run p) ((unary expr).run p') := by
  simp only [unary, run_advance_bind, h.current, h.current']
  apply (hexpr _ _ _ _ h.advance).bind
  intro _ ys q q' _ hq hys
  exact hq.alike_ok hys _

theorem alike_binary (left : Expr) (h : ends.Abreast (t :: xs) p p') :
    ends.Alike (· ≠ []) ((binary expr left).run p) ((binary expr left).run p') := by
  simp only [binary, run_advance_bind, h.current, h.current']
  apply (hexpr _ _ _ _ h.advance).bind
  intro _ ys q q' _ hq hys
  exact hq.alike_ok hys _

theorem alike_group (h : ends.Abreast (t :: xs) p p') :
    ends.Alike (· ≠ []) ((group expr).run p) ((group expr).run p') := by
  simp only [group, run_advance_bind]
  apply (hexpr _ _ _ _ h.advance).bind
  intro inner ys q q' _ hq hys
  obtain ⟨u, ys, rfl⟩ := List.exists_cons_of_ne_nil hys
  apply hq.alike_expect_bind rfl
  intro v zs hzs _
  subst hzs
  exact hq.advance.alike_ok (List.cons_ne_nil v zs) inner

/-- An `if` fails before the ends, because no block is opened there. -/
theorem alike_conditional {P : List Token → Prop} (h : ends.Abreast (t :: xs) p p') :
    ends.Alike P ((conditional expr).run p) ((conditional expr).run p') := by
  simp only [conditional, run_current_bind, h.current, h.current']
  apply h.alike_expect_bind rfl
  intro u ys hys _
  subst hys
  simp only [run_advance_bind]
  apply (hexpr _ _ _ _ h.advance.advance).bind
  intro condition ys q q' _ hq hys
  obtain ⟨u, ys, rfl⟩ := List.exists_cons_of_ne_nil hys
  apply hq.alike_expect_bind rfl
  intro v zs hzs _
  subst hzs
  apply hq.advance.alike_expect_bind rfl
  intro w ws hws hw
  subst hws
  exact absurd hw (hq.kind_ne_openCurly w (by simp))

/-- No expression begins with either end. -/
theorem alike_opening (h : ends.Abreast xs p p') :
    ends.Alike (· ≠ []) ((opening expr).run p) ((opening expr).run p') := by
  have hnone (hform : p.current.kind.opener? = none) (hform' : p'.current.kind.opener? = none)
      (hsame : ends.Meet → p'.current = p.current) :
      ends.Alike (· ≠ []) ((opening expr).run p) ((opening expr).run p') := by
    simp only [opening, run_current_bind, hform, hform']
    refine h.alike_error ⟨rfl, fun k hk => ?_, fun hxs => .inl ?_, fun hmeet => by rw [hsame hmeet]⟩
    · injection hk with hk
      rw [← hk, h.kind_current]
    · rw [h.kind_current, hxs]
      rfl
  cases xs with
  | nil =>
    refine hnone ?_ ?_ fun hmeet => h.current_eq (.inr hmeet)
    · rw [h.kind_current]
      exact Kind.opener?_of_isFence ends.isFence
    · rw [h.kind_current']
      exact Kind.opener?_of_isFence ends.isFence'
  | cons t xs =>
    have hne := List.cons_ne_nil t xs
    have hcurrent := h.current
    have hcurrent' := h.current'
    cases hform : t.kind.opener? with
    | none =>
      refine hnone ?_ ?_ fun _ => hcurrent'.trans hcurrent.symm
      · rw [hcurrent, hform]
      · rw [hcurrent', hform]
    | some form =>
      simp only [opening, run_current_bind, hcurrent, hcurrent', hform]
      cases form with
      | identifier =>
        simp only [identifier, run_current_bind, hcurrent, hcurrent']
        exact h.alike_ok hne _
      | integer =>
        simp only [integer, run_current_bind, hcurrent, hcurrent']
        split
        · exact h.alike_ok hne _
        · exact h.alike_error (Ends.stops_of_cons rfl (fun k hk => by cases hk) fun _ => rfl)
      | boolean =>
        simp only [boolean, run_current_bind, hcurrent, hcurrent']
        exact h.alike_ok hne _
      | unary => exact alike_unary hexpr h
      | group => exact alike_group hexpr h
      | conditional => exact alike_conditional hexpr h

/-- No expression goes on with either end. -/
theorem alike_join (limit : Precedence) (left : Expr) (h : ends.Abreast xs p p') (hxs : xs ≠ []) :
    ends.Alike (· ≠ []) ((join expr limit left).run p) ((join expr limit left).run p') := by
  induction hleft : p.left using Nat.strongRecOn generalizing p p' xs left with
  | ind n ih =>
    subst hleft
    obtain ⟨t, xs, rfl⟩ := List.exists_cons_of_ne_nil hxs
    have hend (hlt : ¬ limit < p.peek.kind.precedence) (hlt' : ¬ limit < p'.peek.kind.precedence) :
        ends.Alike (· ≠ []) ((join expr limit left).run p) ((join expr limit left).run p') := by
      rw [run_join_of_not_lt expr hlt, run_join_of_not_lt expr hlt']
      exact h.alike_ok hxs left
    cases xs with
    | nil =>
      have hpeek : p.peek.kind = headKind ends.stop := h.advance.kind_current
      have hpeek' : p'.peek.kind = headKind ends.stop' := h.advance.kind_current'
      refine hend ?_ ?_
      · rw [hpeek]
        exact Kind.not_lt_precedence_of_isFence ends.isFence limit
      · rw [hpeek']
        exact Kind.not_lt_precedence_of_isFence ends.isFence' limit
    | cons u xs =>
      have hpeek : p.peek = u := h.advance.current
      have hpeek' : p'.peek = u := h.advance.current'
      by_cases hlt : limit < u.kind.precedence
      · have hdown := left_binary_lt expr left (hpeek ▸ hlt)
        rw [run_join_of_lt expr (hpeek ▸ hlt), run_join_of_lt expr (hpeek' ▸ hlt)]
        apply (alike_binary hexpr left h.advance).bind
        intro e ys q q' hrun hq hys
        rw [hrun] at hdown
        exact ih q.left hdown e hq hys rfl
      · exact hend (hpeek ▸ hlt) (hpeek' ▸ hlt)

theorem alike_body (limit : Precedence) (h : ends.Abreast xs p p') :
    ends.Alike (· ≠ []) ((body expr limit).run p) ((body expr limit).run p') :=
  (alike_opening hexpr h).bind fun left _ _ _ _ hq hys => alike_join hexpr limit left hq hys

end

theorem keepsEnds_expressionAt (ends : Ends) (room : Nat) :
    KeepsEnds ends (expressionAt room : Precedence → Builder σ Expr) := by
  induction room with
  | zero =>
    intro limit xs p p' h
    rw [run_expressionAt_zero, run_expressionAt_zero]
    refine h.alike_error ⟨rfl, (fun k hk => by cases hk), fun _ => .inr rfl, fun hmeet => ?_⟩
    simp only [Parser.tooDeep, Parser.position, h.current_eq (.inr hmeet)]
  | succ room ih =>
    intro limit xs p p' h
    rw [run_expressionAt_succ, run_expressionAt_succ]
    obtain ⟨ys, hys, houtcomes⟩ := alike_body ih limit (h.withDepth (p.depth + 1) (p'.depth + 1))
    exact ⟨ys, hys.withDepth _ _, houtcomes⟩

/-! ## Statements -/

section

include hexpr

/-- A value and perhaps a semicolon behind it, which may be the end. -/
theorem alike_value {g : Expr → Stmt} (h : ends.Abreast xs p p') :
    ends.Alike ends.Passes
      ((do let value ← expr .lowest; Builder.takeSemicolon; return g value : Builder σ Stmt).run p)
      ((do let value ← expr .lowest; Builder.takeSemicolon; return g value : Builder σ Stmt).run
        p') := by
  apply (hexpr _ _ _ _ h).bind
  intro value ys q q' _ hq hys
  rw [run_takeSemicolon_bind, run_takeSemicolon_bind]
  obtain ⟨zs, hzs, hpasses⟩ := hq.passSemicolon hys
  exact hzs.alike_ok hpasses _

theorem alike_letStatement (h : ends.Abreast (t :: xs) p p') :
    ends.Alike ends.Passes ((letStatement expr).run p) ((letStatement expr).run p') := by
  rw [letStatement, run_current_bind, run_current_bind, h.current, h.current']
  apply h.alike_expect_bind rfl
  intro name ys hys _
  subst hys
  apply h.advance.alike_expect_bind rfl
  intro assign zs hzs _
  subst hzs
  rw [run_advance_bind, run_advance_bind]
  exact alike_value hexpr h.advance.advance.advance

theorem alike_returnStatement (h : ends.Abreast (t :: xs) p p') (hpeek : p'.peek.kind = p.peek.kind) :
    ends.Alike ends.Passes ((returnStatement expr).run p) ((returnStatement expr).run p') := by
  rw [returnStatement, run_current_bind, run_current_bind, run_peek_bind, run_peek_bind, h.current,
    h.current', hpeek]
  by_cases hsemicolon : p.peek.kind = .semicolon
  · simp only [hsemicolon, if_true, run_advance_bind]
    exact h.advance.alike_ok (h.passes_of_semicolon hsemicolon) _
  · by_cases hbare : p.peek.kind = .closeCurly ∨ p.peek.kind = .eof
    · simp only [hsemicolon, hbare, if_false, if_true]
      exact h.alike_ok (.inl (List.cons_ne_nil t xs)) _
    · simp only [hsemicolon, hbare, if_false, run_advance_bind]
      exact alike_value hexpr h.advance

theorem alike_expressionStatement (h : ends.Abreast xs p p') (hcurrent : p'.current = p.current) :
    ends.Alike ends.Passes ((expressionStatement expr).run p) ((expressionStatement expr).run p') := by
  rw [expressionStatement, run_current_bind, run_current_bind, hcurrent]
  exact alike_value hexpr h

/-- Where the parsers stand on the same token, which may be a semicolon at their ends, they read a
statement alike. Only a `return` looks at the token behind it to see whether it stands alone. -/
theorem alike_statement (h : ends.Abreast xs p p') (hxs : ends.Passes xs)
    (hcurrent : p'.current = p.current)
    (hreturn : p.current.kind = .returnWord → p'.peek.kind = p.peek.kind) :
    ends.Alike ends.Passes ((statement expr).run p) ((statement expr).run p') := by
  rw [statement, run_current_bind, run_current_bind, hcurrent]
  cases xs with
  | nil =>
    have hkind : p.current.kind = .semicolon := by
      rw [h.kind_current]
      exact hxs.resolve_left (fun hne => hne rfl)
    simp only [hkind, reduceCtorEq, if_false]
    exact alike_expressionStatement hexpr h hcurrent
  | cons t xs =>
    split
    · exact alike_letStatement hexpr h
    · split
      · next hkind => exact alike_returnStatement hexpr h (hreturn hkind)
      · exact alike_expressionStatement hexpr h hcurrent

/-- A try for a statement gives both parsers the same statement, or a failure to each of them. -/
theorem attempt_cases_of_abreast (hframed : ∀ limit, (expr limit).Framed) (h : ends.Abreast xs p p')
    (hxs : ends.Passes xs) (hcurrent : p'.current = p.current)
    (hreturn : p.current.kind = .returnWord → p'.peek.kind = p.peek.kind) :
    (∃ s ys m m', (attempt expr).run p = (some s, m) ∧ (attempt expr).run p' = (some s, m') ∧
      ends.Abreast ys m m' ∧ ys <:+ xs ∧ ends.Passes ys) ∨
    ∃ d d' ys m m', (attempt expr).run p = (none, ((recover d).run m).2) ∧
      (attempt expr).run p' = (none, ((recover d').run m').2) ∧
      ends.Abreast ys m m' ∧ ys <:+ xs ∧ ends.Stops d d' ys := by
  have hframe := framed_statement hframed p
  obtain ⟨ys, hys, houtcomes⟩ := alike_statement hexpr h hxs hcurrent hreturn
  have hsuffix := h.suffix hys rfl hframe
  rcases hrun : (statement expr).run p with ⟨outcome, m⟩
  rcases hrun' : (statement expr).run p' with ⟨outcome', m'⟩
  rw [hrun, hrun'] at hys houtcomes
  cases houtcomes with
  | ok s hpasses =>
    exact .inl ⟨s, ys, m.complete s, m'.complete s, run_attempt_of_ok hrun, run_attempt_of_ok hrun',
      hys.complete s, hsuffix, hpasses⟩
  | error hd =>
    exact .inr ⟨_, _, ys, m, m', run_attempt_of_error hrun, run_attempt_of_error hrun', hys, hsuffix,
      hd⟩

end

/-- The state after recovery from a failure that does not give up the rest of the input. -/
theorem run_recover {d : Diagnostic} (hd : ¬ d.fault.isTooDeep) (p : Parser σ) :
    ((recover d).run p).2 = (p.record d).passSemicolon := by
  rw [recover, Action.run_bind, Action.run_record, if_neg hd, Action.run_takeSemicolon]
  rfl

end Grammar

end MonkeyFrontEnd
