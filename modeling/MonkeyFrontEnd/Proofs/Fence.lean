import MonkeyFrontEnd.Proofs.Ends

/-!
Fences. A token that no expression begins with or goes on with, and that no rule asks for, cannot be
passed while a statement is read, as long as no block is opened before it. Two parsers abreast of
one another read the same tokens up to such a fence, and different ones behind it. Every rule gives
both the same outcome and leaves them abreast, at the fence at the latest; if it fails there, it
fails because an expression was due. The fence is an end of the same tokens for both parsers, and the
same one.
-/

namespace MonkeyFrontEnd

variable {σ : Type} [TokenSource σ] {α β : Type}

/-- A fence, and two lists of tokens that may stand behind it. -/
structure Fence where
  token : Token
  isFence : token.kind.isFence
  behind : List Token
  behind' : List Token

namespace Fence

variable (fence : Fence)

/-- Both parsers stand before the tokens `xs`, none of which opens a block, and then the fence, and
the same diagnostics are recorded in both. -/
structure Abreast (logged : Array Diagnostic) (xs : List Token) (p p' : Parser σ) : Prop where
  tokens : p.tokens = xs ++ fence.token :: fence.behind
  tokens' : p'.tokens = xs ++ fence.token :: fence.behind'
  kind_ne_openCurly : ∀ t ∈ xs, t.kind ≠ .openCurly
  diagnostics : p.diagnostics = logged
  diagnostics' : p'.diagnostics = logged

/-- Where a statement may end, with the tokens `xs` left: before the fence, or on a fence that is a
semicolon. -/
def Passes (xs : List Token) : Prop := xs ≠ [] ∨ fence.token.kind = .semicolon

/-- The fence as the end that the tokens before it have for both parsers. -/
def ends (logged : Array Diagnostic) : Ends where
  stop := fence.token :: fence.behind
  stop' := fence.token :: fence.behind'
  isFence := fence.isFence
  isFence' := fence.isFence
  semicolon_iff := Iff.rfl
  logged := logged
  logged' := logged

theorem meet (logged : Array Diagnostic) : (fence.ends logged).Meet := ⟨fence.token, rfl, rfl⟩

namespace Abreast

variable {fence} {logged : Array Diagnostic} {t : Token} {xs : List Token} {p p' : Parser σ}

theorem toEnds (h : fence.Abreast logged xs p p') : (fence.ends logged).Abreast xs p p' :=
  ⟨h.tokens, h.tokens', h.kind_ne_openCurly, h.diagnostics, h.diagnostics'⟩

theorem ofEnds (h : (fence.ends logged).Abreast xs p p') : fence.Abreast logged xs p p' :=
  ⟨h.tokens, h.tokens', h.kind_ne_openCurly, h.diagnostics, h.diagnostics'⟩

theorem current_eq (h : fence.Abreast logged xs p p') : p'.current = p.current :=
  h.toEnds.current_eq (.inr (fence.meet logged))

theorem kind_current (h : fence.Abreast logged xs p p') :
    p.current.kind = headKind (xs ++ [fence.token]) := by
  have hkind := h.toEnds.kind_current
  cases xs <;> exact hkind

theorem current_ne_eof (h : fence.Abreast logged xs p p') : p.current.kind ≠ .eof := by
  intro heof
  have htokens := h.tokens
  rw [Parser.tokens_of_eof heof] at htokens
  exact List.append_ne_nil_of_right_ne_nil xs (List.cons_ne_nil _ _) htokens.symm

theorem advance (h : fence.Abreast logged (t :: xs) p p') :
    fence.Abreast logged xs p.advance p'.advance := .ofEnds h.toEnds.advance

/-- Where a parser has moved on before the fence, fewer of the same tokens are left. -/
theorem suffix {logged' : Array Diagnostic} {ys : List Token} {q q' : Parser σ}
    (h : fence.Abreast logged xs p p') (hq : fence.Abreast logged' ys q q') (hpq : Frame p q) :
    ys <:+ xs := h.toEnds.suffix hq.toEnds rfl hpq

theorem record (h : fence.Abreast logged xs p p') (d : Diagnostic) :
    fence.Abreast (logged.push d) xs (p.record d) (p'.record d) where
  tokens := h.tokens
  tokens' := h.tokens'
  kind_ne_openCurly := h.kind_ne_openCurly
  diagnostics := by rw [Parser.diagnostics_record, h.diagnostics]
  diagnostics' := by rw [Parser.diagnostics_record, h.diagnostics']

/-- A semicolon is passed by both parsers or by none. They stay before the fence, unless the fence
is a semicolon itself. -/
theorem passSemicolon (h : fence.Abreast logged xs p p') (hxs : xs ≠ []) :
    ∃ ys, fence.Abreast logged ys p.passSemicolon p'.passSemicolon ∧ fence.Passes ys := by
  obtain ⟨ys, hys, hpasses⟩ := h.toEnds.passSemicolon hxs
  exact ⟨ys, .ofEnds hys, hpasses⟩

end Abreast

/-- A failure with the tokens `xs` left before the fence. If it names a kind that begins no
expression, that is the kind of the token it happened at; and at the fence itself nothing can fail
but the search for an expression, unless the nesting is too deep. -/
structure Stops (d : Diagnostic) (xs : List Token) : Prop where
  kind_eq : ∀ k, d.fault = .noExpression k → k = headKind (xs ++ [fence.token])
  at_fence : xs = [] → d.fault = .noExpression fence.token.kind ∨ d.fault.isTooDeep

/-- Two results are the same and leave the parsers abreast, in a case of success with tokens left
of which `P` holds. -/
def Alike (logged : Array Diagnostic) (P : List Token → Prop) (r r' : Except Diagnostic α × Parser σ) :
    Prop :=
  r'.1 = r.1 ∧ ∃ xs, fence.Abreast logged xs r.2 r'.2 ∧
    match r.1 with
    | .ok _ => P xs
    | .error d => fence.Stops d xs

variable {fence} {logged : Array Diagnostic} {P : List Token → Prop} {xs : List Token}
  {p p' : Parser σ}

/-- Failures that go together are the same, because the ends are. -/
theorem stops_ends_iff {d d' : Diagnostic} :
    (fence.ends logged).Stops d d' xs ↔ d' = d ∧ fence.Stops d xs := by
  have hkind : headKind (xs ++ (fence.ends logged).stop) = headKind (xs ++ [fence.token]) := by
    cases xs <;> rfl
  constructor
  · intro h
    refine ⟨h.eq_of_meet (fence.meet logged), ⟨fun k hk => ?_, h.at_ends⟩⟩
    rw [h.kind_eq k hk, hkind]
  · rintro ⟨rfl, h⟩
    exact ⟨rfl, fun k hk => (h.kind_eq k hk).trans hkind.symm, h.at_fence, fun _ => rfl⟩

theorem alike_ends_iff {r r' : Except Diagnostic α × Parser σ} :
    (fence.ends logged).Alike P r r' ↔ fence.Alike logged P r r' := by
  obtain ⟨outcome, q⟩ := r
  obtain ⟨outcome', q'⟩ := r'
  constructor
  · rintro ⟨ys, hys, houtcomes⟩
    cases houtcomes with
    | ok a hP => exact ⟨rfl, ys, .ofEnds hys, hP⟩
    | error hd =>
      obtain ⟨rfl, hstops⟩ := stops_ends_iff.1 hd
      exact ⟨rfl, ys, .ofEnds hys, hstops⟩
  · rintro ⟨houtcome, ys, hys, hcase⟩
    obtain rfl : outcome' = outcome := houtcome
    cases outcome' with
    | ok a => exact ⟨ys, hys.toEnds, .ok a hcase⟩
    | error d => exact ⟨ys, hys.toEnds, .error (stops_ends_iff.2 ⟨rfl, hcase⟩)⟩

end Fence

namespace Grammar

/-- The rule reads expressions in the same way in front of the same fence, and an expression that was
read ends before it. -/
def KeepsFence (fence : Fence) (expr : Precedence → Builder σ Expr) : Prop :=
  ∀ limit logged xs p p', fence.Abreast logged xs p p' →
    fence.Alike logged (· ≠ []) ((expr limit).run p) ((expr limit).run p')

variable {fence : Fence} {expr : Precedence → Builder σ Expr} {logged : Array Diagnostic}
  {xs : List Token} {p p' : Parser σ}

theorem KeepsFence.toEnds (h : KeepsFence fence expr) (logged : Array Diagnostic) :
    KeepsEnds (fence.ends logged) expr :=
  fun limit xs p p' habreast => Fence.alike_ends_iff.2 (h limit logged xs p p' (.ofEnds habreast))

theorem keepsFence_expressionAt (fence : Fence) (room : Nat) :
    KeepsFence fence (expressionAt room : Precedence → Builder σ Expr) :=
  fun limit logged xs p p' h =>
    Fence.alike_ends_iff.1 (keepsEnds_expressionAt (fence.ends logged) room limit xs p p' h.toEnds)

/-- A try for a statement gives both parsers the same statement, or both the same failure. On a fence
that is no semicolon a statement may begin, so there they are not abreast. -/
theorem attempt_cases (hexpr : KeepsFence fence expr) (hframed : ∀ limit, (expr limit).Framed)
    (h : fence.Abreast logged xs p p') (hxs : fence.Passes xs) :
    (∃ s ys m m', (attempt expr).run p = (some s, m) ∧ (attempt expr).run p' = (some s, m') ∧
      fence.Abreast logged ys m m' ∧ ys <:+ xs ∧ fence.Passes ys) ∨
    ∃ d ys m m', (attempt expr).run p = (none, ((recover d).run m).2) ∧
      (attempt expr).run p' = (none, ((recover d).run m').2) ∧
      fence.Abreast logged ys m m' ∧ ys <:+ xs ∧ fence.Stops d ys := by
  have hreturn (hkind : p.current.kind = .returnWord) : p'.peek.kind = p.peek.kind := by
    cases xs with
    | nil =>
      have hsemicolon : fence.token.kind = .semicolon := hxs.resolve_left (fun hne => hne rfl)
      have hfence : p.current.kind = fence.token.kind := h.kind_current
      rw [hfence, hsemicolon] at hkind
      cases hkind
    | cons t xs =>
      have hpeek : p'.peek = p.peek := h.advance.current_eq
      rw [hpeek]
  rcases attempt_cases_of_abreast (hexpr.toEnds logged) hframed h.toEnds hxs h.current_eq hreturn with
    ⟨s, ys, m, m', hrun, hrun', hm, hsuffix, hpasses⟩ | ⟨d, d', ys, m, m', hrun, hrun', hm, hsuffix, hd⟩
  · exact .inl ⟨s, ys, m, m', hrun, hrun', .ofEnds hm, hsuffix, hpasses⟩
  · obtain ⟨rfl, hstops⟩ := Fence.stops_ends_iff.1 hd
    exact .inr ⟨_, ys, m, m', hrun, hrun', .ofEnds hm, hsuffix, hstops⟩

end Grammar

end MonkeyFrontEnd
