import MonkeyFrontEnd.Proofs.Completeness
import MonkeyFrontEnd.Proofs.Ends
import MonkeyFrontEnd.Proofs.KeptTokens
import MonkeyFrontEnd.Proofs.Printing
import MonkeyFrontEnd.Tree.Equality

/-!
Where tokens break off and a `let` follows. Reading some tokens that a `let` follows is compared with
reading the same tokens at the end of the input. As long as the tokens do not end where an expression
is due, both go on alike, and the statement that begins with the `let` is read as it would be alone.
Otherwise the failure stands on the `let` itself, which is passed with the broken statement, and
reading goes on behind it. What the tokens alone report tells which of the two it is
(`BreaksOff`).
-/

namespace MonkeyFrontEnd

variable {σ : Type} [TokenSource σ]

/-- A `return` that stands alone. -/
def Stmt.isBareReturn : Stmt → Bool
  | .bareReturn _ => true
  | _ => false

/-- Something more could have followed where the input ended: an expression that was due, or the value
of a `return`. -/
def IsOpenEnded (recorded : List Diagnostic) (ss : List Stmt) : Prop :=
  (∃ d ∈ recorded, d.fault = .noExpression .eof) ∨ ∃ s ∈ ss, s.isBareReturn

instance (recorded : List Diagnostic) (ss : List Stmt) : Decidable (IsOpenEnded recorded ss) :=
  inferInstanceAs (Decidable (_ ∨ _))

/-- The tokens break off where an expression is due, or behind a `return` that has no value. -/
def BreaksOff (ts : List Token) : Prop :=
  IsOpenEnded (parseTokens ts).2.diagnostics.toList (parseTokens ts).1.statements

instance (ts : List Token) : Decidable (BreaksOff ts) := inferInstanceAs (Decidable (IsOpenEnded _ _))

namespace Grammar

variable {expr : Precedence → Builder σ Expr} {done : List Stmt} {s : Stmt} {d d' : Diagnostic}
  {p p' q m : Parser σ} {t next : Token} {xs ts behind : List Token} {recorded : List Diagnostic}
  {ss : List Stmt}

/-! ## Single rules -/

/-- A `return` stands alone only before a semicolon, a closing brace or the end of the input. -/
theorem peek_of_run_bareReturn (h : (statement expr).run p = (.ok s, q)) (hs : s.isBareReturn) :
    p.current.kind = .returnWord ∧
      (p.peek.kind = .semicolon ∨ p.peek.kind = .closeCurly ∨ p.peek.kind = .eof) := by
  rcases cases_of_run_statement h with ⟨-, h⟩ | ⟨hkind, h⟩ | h
  · obtain ⟨-, -, e, m, -, -, rfl⟩ := exists_of_run_letStatement h
    cases hs
  · refine ⟨hkind, ?_⟩
    by_cases hsemicolon : p.peek.kind = .semicolon
    · exact .inl hsemicolon
    · by_cases hbare : p.peek.kind = .closeCurly ∨ p.peek.kind = .eof
      · exact .inr hbare
      · rw [returnStatement, Builder.run_current_bind, Builder.run_peek_bind, if_neg hsemicolon,
          if_neg hbare, Builder.run_advance_bind] at h
        obtain ⟨e, m, -, -, rfl⟩ := exists_of_run_value h
        cases hs
  · obtain ⟨e, m, -, -, rfl⟩ := exists_of_run_expressionStatement h
    cases hs

theorem peek_of_attempt_bareReturn (h : (attempt expr).run p = (some s, q)) (hs : s.isBareReturn) :
    p.current.kind = .returnWord ∧
      (p.peek.kind = .semicolon ∨ p.peek.kind = .closeCurly ∨ p.peek.kind = .eof) := by
  rcases hrun : (statement expr).run p with ⟨d | s', m⟩
  · rw [run_attempt_of_error hrun] at h
    cases h
  · rw [run_attempt_of_ok hrun] at h
    cases h
    exact peek_of_run_bareReturn hrun hs

/-- The rule fails where no expression begins, for that reason only, and stays there. -/
def Misses (expr : Precedence → Builder σ Expr) : Prop :=
  ∀ limit (p : Parser σ), p.current.kind.opener? = none →
    ∃ d, (expr limit).run p = (.error d, p) ∧ ¬ d.fault.isTooDeep

theorem misses_expressionAt_succ (room : Nat) :
    Misses (expressionAt (room + 1) : Precedence → Builder σ Expr) := by
  intro limit p hform
  refine ⟨⟨.noExpression p.current.kind, p.current.span.start⟩, ?_, by simp [Fault.isTooDeep]⟩
  have hopening : (opening (expressionAt room)).run { p with depth := p.depth + 1 } =
      (.error ⟨.noExpression p.current.kind, p.current.span.start⟩,
        { p with depth := p.depth + 1 }) := by
    have hform' : ({ p with depth := p.depth + 1 } : Parser σ).current.kind.opener? = none := hform
    simp only [opening, Builder.run_current_bind, hform']
    rfl
  rw [run_expressionAt_succ, body, Builder.run_bind_of_error hopening]
  rfl

/-! ## Going on with other tokens -/

/-- From this state on, a list of statements begins with those given and goes on with what is read
from the tokens `ts`. -/
def Resumes (expr : Precedence → Builder σ Expr) (p : Parser σ) (done : List Stmt) (ts : List Token) :
    Prop :=
  ∃ m, Frame p m ∧ m.tokens = ts ∧
    ((statements expr none).run p).1 = done ++ ((statements expr none).run m).1

theorem resumes_tokens (p : Parser σ) : Resumes expr p [] p.tokens := ⟨p, Frame.refl p, rfl, rfl⟩

theorem Resumes.of_attempt {outcome : Option Stmt} (hframed : ∀ limit, (expr limit).Framed)
    (hp : p.current.kind ≠ .eof) (hrun : (attempt expr).run p = (outcome, q))
    (h : Resumes expr q.advance done ts) : Resumes expr p (outcome.toList ++ done) ts := by
  obtain ⟨m, hm, htokens, hlater⟩ := h
  have hframe := framed_attempt hframed p
  rw [hrun] at hframe
  refine ⟨m, (hframe.trans (Frame.advance q)).trans hm, htokens, ?_⟩
  rw [run_statements_of_not_closes expr (by simpa [closes] using hp), hrun, hlater,
    List.append_assoc]

/-- A failure at a token that no semicolon follows passes this token. -/
theorem resumes_of_failed (hframed : ∀ limit, (expr limit).Framed) (hp : p.current.kind ≠ .eof)
    (hrun : (attempt expr).run p = (none, ((recover d).run m).2)) (hd : ¬ d.fault.isTooDeep)
    (hm : m.tokens = next :: behind) (hbehind : headKind behind ≠ .semicolon) :
    Resumes expr p [] behind := by
  have hahead : (m.record d).ahead = behind := Parser.ahead_of_tokens hm
  have hpeek : (m.record d).peek.kind ≠ .semicolon := by
    rw [← Parser.headKind_ahead, hahead]
    exact hbehind
  have hpassed : ((recover d).run m).2.advance.tokens = behind := by
    rw [run_recover hd, Parser.passSemicolon, if_neg hpeek, Parser.tokens_advance, hahead]
  exact .of_attempt hframed hp hrun (hpassed ▸ resumes_tokens _)

/-- What becomes of the tokens `next :: behind` that stand where the input ended for another parser,
which has recorded the diagnostics and read the statements given. -/
structure Splits (expr : Precedence → Builder σ Expr) (next : Token) (behind : List Token)
    (recorded : List Diagnostic) (ss : List Stmt) (p : Parser σ) : Prop where
  resumes : ¬ IsOpenEnded recorded ss → Resumes expr p ss (next :: behind)
  resumes_behind : IsOpenEnded recorded ss →
    Resumes expr p (ss.filter (!·.isBareReturn)) behind

/-- A statement that both parsers read stands in front of what follows. -/
theorem Splits.cons (hframed : ∀ limit, (expr limit).Framed) (hp : p.current.kind ≠ .eof)
    (hrun : (attempt expr).run p = (some s, q)) (hs : ¬ s.isBareReturn)
    (h : Splits expr next behind recorded ss q.advance) :
    Splits expr next behind recorded (s :: ss) p := by
  have hopen : IsOpenEnded recorded (s :: ss) ↔ IsOpenEnded recorded ss := by
    simp [IsOpenEnded, hs]
  constructor
  · intro hclosed
    exact .of_attempt hframed hp hrun (h.resumes (mt hopen.2 hclosed))
  · intro hdue
    rw [List.filter_cons_of_pos (by simpa using hs)]
    exact .of_attempt hframed hp hrun (h.resumes_behind (hopen.1 hdue))

/-- A failure that neither parser meets at its end changes nothing. -/
theorem Splits.record (hframed : ∀ limit, (expr limit).Framed) (hp : p.current.kind ≠ .eof)
    (hrun : (attempt expr).run p = (none, q)) (hd : d.fault ≠ .noExpression .eof)
    (h : Splits expr next behind recorded ss q.advance) :
    Splits expr next behind (d :: recorded) ss p := by
  have hopen : IsOpenEnded (d :: recorded) ss ↔ IsOpenEnded recorded ss := by
    simp [IsOpenEnded, hd]
  constructor
  · intro hclosed
    exact .of_attempt hframed hp hrun (h.resumes (mt hopen.2 hclosed))
  · intro hdue
    exact .of_attempt hframed hp hrun (h.resumes_behind (hopen.1 hdue))

/-! ## A lone `return` -/

/-- A `return` at the end of the input stands alone. -/
theorem run_statements_return (hp : p.tokens = [t]) (ht : t.kind = .returnWord) :
    (statements expr none).run p = ([.bareReturn t], (p.complete (.bareReturn t)).advance) := by
  have hcurrent := Parser.current_of_tokens hp
  have hahead := Parser.ahead_of_tokens hp
  have hpeek : p.peek.kind = .eof := by rw [← Parser.headKind_ahead, hahead, headKind_nil]
  have hopen : ¬ closes none p.current.kind := by
    rw [hcurrent, ht]
    decide
  have hattempt : (attempt expr).run p = (some (.bareReturn t), p.complete (.bareReturn t)) := by
    apply run_attempt_of_ok
    rw [statement, Builder.run_current_bind, hcurrent, if_neg (by rw [ht]; decide), if_pos ht,
      returnStatement, Builder.run_current_bind, Builder.run_peek_bind, hpeek, hcurrent]
    rfl
  have hend : closes none (p.complete (.bareReturn t)).advance.current.kind := by
    rw [← Parser.headKind_tokens]
    exact congrArg (fun ts => closes none (headKind ts)) hahead
  rw [run_statements_of_not_closes expr hopen, hattempt, run_statements_of_closes expr hend]
  rfl

/-- Before a token that begins no expression, and that no `return` stands alone before, a `return`
fails on this token. -/
theorem exists_run_attempt_return (hmisses : Misses expr) (hp : p.tokens = t :: next :: behind)
    (ht : t.kind = .returnWord) (hnone : next.kind.opener? = none)
    (hsemicolon : next.kind ≠ .semicolon) (hcurly : next.kind ≠ .closeCurly) :
    ∃ d, (attempt expr).run p = (none, ((recover d).run p.advance).2) ∧ ¬ d.fault.isTooDeep := by
  have hpeek : p.peek = next := Parser.peek_of_ahead (Parser.ahead_of_tokens hp)
  have heof : next.kind ≠ .eof := Parser.kind_ne_eof_of_mem_tokens (p := p) (by rw [hp]; simp)
  have hbare : ¬ (p.peek.kind = .closeCurly ∨ p.peek.kind = .eof) := by
    rw [hpeek]
    exact not_or.2 ⟨hcurly, heof⟩
  obtain ⟨d, hd, hdeep⟩ := hmisses .lowest p.advance (by rw [Parser.current_advance, hpeek, hnone])
  refine ⟨d, run_attempt_of_error ?_, hdeep⟩
  rw [run_statement_return expr hp ht (by rwa [hpeek]) hbare]
  exact Builder.run_bind_of_error hd

/-! ## The loop -/

/-- The first parser comes to the end of the input where the second one comes to `next`, at which no
statement ends. -/
structure IsCut (ends : Ends) (next : Token) (behind : List Token) : Prop where
  stop : ends.stop = []
  stop' : ends.stop' = next :: behind
  kind_ne : next.kind ≠ .closeCurly
  headKind_ne : headKind behind ≠ .semicolon

namespace IsCut

variable {ends : Ends}

theorem record (h : IsCut ends next behind) (d d' : Diagnostic) :
    IsCut (ends.record d d') next behind := ⟨h.stop, h.stop', h.kind_ne, h.headKind_ne⟩

/-- A statement that is read stops before the end. -/
theorem ne_nil (h : IsCut ends next behind) (hxs : ends.Passes xs) : xs ≠ [] := by
  apply hxs.resolve_right
  rw [h.stop]
  decide

end IsCut

section

variable {ends : Ends} (hexpr : ∀ ends, KeepsEnds ends expr)
  (hframed : ∀ limit, (expr limit).Framed)

include hexpr hframed

/-- A try for a statement that is not a lone `return` at the end gives both parsers the same statement,
or it fails for both, at their ends or before. -/
theorem attempt_cases_of_isCut (hcut : IsCut ends next behind) (h : ends.Abreast (t :: xs) p p')
    (hxs : ∀ u ∈ t :: xs, u.kind ≠ .semicolon ∧ u.kind ≠ .closeCurly)
    (hlone : ¬ (t.kind = .returnWord ∧ xs = []))
    (hdeep : ∀ d ∈ ((attempt expr).run p).2.diagnostics, ¬ d.fault.isTooDeep) :
    (∃ s u ys m m', (attempt expr).run p = (some s, m) ∧ (attempt expr).run p' = (some s, m') ∧
      ¬ s.isBareReturn ∧ ends.Abreast (u :: ys) m m' ∧ ys <:+ t :: xs) ∨
    (∃ d d' m m', (attempt expr).run p = (none, ((recover d).run m).2) ∧
      (attempt expr).run p' = (none, ((recover d').run m').2) ∧ d.fault = .noExpression .eof ∧
      ¬ d'.fault.isTooDeep ∧ ends.Abreast [] m m') ∨
    ∃ d d' u ys m m', (attempt expr).run p = (none, m) ∧ (attempt expr).run p' = (none, m') ∧
      d.fault ≠ .noExpression .eof ∧ (ends.record d d').Abreast (u :: ys) m m' ∧ ys <:+ t :: xs := by
  have hne (u : Token) (hu : u ∈ t :: xs) : u.kind ≠ .eof :=
    Parser.kind_ne_eof_of_mem_tokens (p := p) (h.tokens ▸ List.mem_append_left _ hu)
  -- A `return` is not at the end, so both parsers see the same token behind it.
  have hreturn (hkind : p.current.kind = .returnWord) : ∃ u ∈ xs, p.peek = u ∧ p'.peek = u := by
    cases xs with
    | nil => exact absurd ⟨h.current ▸ hkind, rfl⟩ hlone
    | cons u xs => exact ⟨u, List.mem_cons_self .., h.advance.current, h.advance.current'⟩
  have hpeek (hkind : p.current.kind = .returnWord) : p'.peek.kind = p.peek.kind := by
    obtain ⟨u, -, hu, hu'⟩ := hreturn hkind
    rw [hu, hu']
  rcases attempt_cases_of_abreast (hexpr ends) hframed h (.inl (List.cons_ne_nil t xs))
      (h.current'.trans h.current.symm) hpeek with
    ⟨s, ys, m, m', hrun, hrun', hm, hsuffix, hys⟩ | ⟨d, d', ys, m, m', hrun, hrun', hm, hsuffix, hd⟩
  · obtain ⟨u, ys, rfl⟩ := List.exists_cons_of_ne_nil (hcut.ne_nil hys)
    have hbare : ¬ s.isBareReturn := by
      intro hbare
      obtain ⟨hkind, hends⟩ := peek_of_attempt_bareReturn hrun hbare
      obtain ⟨v, hv, hvpeek, -⟩ := hreturn hkind
      have hmem := List.mem_cons_of_mem t hv
      rw [hvpeek] at hends
      rcases hends with hsemicolon | hcurly | heof
      · exact (hxs v hmem).1 hsemicolon
      · exact (hxs v hmem).2 hcurly
      · exact hne v hmem heof
    exact .inl ⟨s, u, ys, m, m', hrun, hrun', hbare, hm, (List.suffix_cons u ys).trans hsuffix⟩
  · have hnot : ¬ d.fault.isTooDeep := hdeep d (by simp [hrun])
    have hnot' : ¬ d'.fault.isTooDeep := by rwa [hd.isTooDeep_eq]
    cases ys with
    | nil =>
      have hfault := (hd.at_ends rfl).resolve_right hnot
      rw [hcut.stop] at hfault
      exact .inr (.inl ⟨d, d', m, m', hrun, hrun', hfault, hnot', hm⟩)
    | cons u ys =>
      have hfault : d.fault ≠ .noExpression .eof := by
        intro hfault
        have hkind : .eof = u.kind := hd.kind_eq _ hfault
        exact hne u (hsuffix.subset (List.mem_cons_self ..)) hkind.symm
      obtain ⟨zs, hzs, hpasses⟩ := (hm.record d d').passSemicolon (List.cons_ne_nil u ys)
      obtain ⟨v, zs, rfl⟩ := List.exists_cons_of_ne_nil ((hcut.record d d').ne_nil hpasses)
      rw [← run_recover hnot, ← run_recover hnot'] at hzs
      have hzsuffix := hm.suffix hzs rfl (framed_recover d m)
      exact .inr (.inr ⟨d, d', v, zs, _, _, hrun, hrun', hfault, hzs,
        ((List.suffix_cons v zs).trans hzsuffix).trans hsuffix⟩)

variable (hmisses : Misses expr)

include hmisses

omit hexpr in
/-- A `return` stands alone before the end, and before `next` it lacks its value. -/
theorem splits_return (hcut : IsCut ends next behind) (h : ends.Abreast [t] p p')
    (ht : t.kind = .returnWord) :
    ((statements expr none).run p).2.diagnostics = ends.logged ∧
      Splits expr next behind [] ((statements expr none).run p).1 p' := by
  have hp : p.tokens = [t] := h.tokens.trans (congrArg (t :: ·) hcut.stop)
  have hp' : p'.tokens = t :: next :: behind := h.tokens'.trans (congrArg (t :: ·) hcut.stop')
  have hfence := ends.isFence'
  have hsemicolon := ends.semicolon_iff
  rw [hcut.stop', headKind_cons] at hfence hsemicolon
  rw [hcut.stop] at hsemicolon
  obtain ⟨d, hrun, hdeep⟩ := exists_run_attempt_return hmisses hp' ht
    (Kind.opener?_of_isFence hfence) (mt hsemicolon.2 (by decide)) hcut.kind_ne
  have hopen : p'.current.kind ≠ .eof := by
    rw [h.current', ht]
    decide
  have hresumes :=
    resumes_of_failed hframed hopen hrun hdeep (Parser.ahead_of_tokens hp') hcut.headKind_ne
  rw [run_statements_return hp ht]
  refine ⟨h.diagnostics, fun hclosed => ?_, fun _ => hresumes⟩
  exact absurd (.inr ⟨_, List.mem_singleton_self _, rfl⟩) hclosed

/-- What the first parser finds up to the end of the input tells where the second one stands, which
has other tokens there. -/
theorem exists_splits (hcut : IsCut ends next behind) (h : ends.Abreast xs p p')
    (hxs : ∀ t ∈ xs, t.kind ≠ .semicolon ∧ t.kind ≠ .closeCurly)
    (hdeep : ∀ d ∈ ((statements expr none).run p).2.diagnostics, ¬ d.fault.isTooDeep) :
    ∃ recorded,
      ((statements expr none).run p).2.diagnostics.toList = ends.logged.toList ++ recorded ∧
        Splits expr next behind recorded ((statements expr none).run p).1 p' := by
  -- The induction is on the moves left; both runs try for a statement at the same tokens.
  induction hleft : p.left using Nat.strongRecOn generalizing p p' xs ends with
  | ind n ih =>
    subst hleft
    cases xs with
    | nil =>
      have hend : closes none p.current.kind := by
        rw [h.kind_current, hcut.stop]
        rfl
      have hp' : p'.tokens = next :: behind := h.tokens'.trans hcut.stop'
      rw [run_statements_of_closes expr hend]
      refine ⟨[], by simp [h.diagnostics], fun _ => hp' ▸ resumes_tokens p', fun hdue => ?_⟩
      simp [IsOpenEnded] at hdue
    | cons t xs =>
      by_cases hlone : t.kind = .returnWord ∧ xs = []
      · obtain ⟨ht, rfl⟩ := hlone
        obtain ⟨hlog, hsplits⟩ := splits_return hframed hmisses hcut h ht
        exact ⟨[], by rw [hlog, List.append_nil], hsplits⟩
      have heof : t.kind ≠ .eof :=
        Parser.kind_ne_eof_of_mem_tokens (p := p) (by rw [h.tokens]; simp)
      have hopen : ¬ closes none p.current.kind := by
        simpa [closes, h.current] using heof
      have hopen' : p'.current.kind ≠ .eof := by rwa [h.current']
      have hlt := left_attempt_lt expr (current_ne_eof hopen)
      have hlater := framed_statements hframed none ((attempt expr).run p).2.advance
      rw [run_statements_of_not_closes expr hopen] at hdeep ⊢
      have htried (d : Diagnostic) (hd : d ∈ ((attempt expr).run p).2.diagnostics) :
          ¬ d.fault.isTooDeep :=
        hdeep d (Array.mem_toList_iff.1 (hlater.diagnostics.subset (Array.mem_toList_iff.2 hd)))
      rcases attempt_cases_of_isCut hexpr hframed hcut h hxs hlone htried with
        ⟨s, u, ys, m, m', hrun, hrun', hbare, hm, hsuffix⟩ |
        ⟨d, d', m, m', hrun, hrun', hfault, hnot', hm⟩ |
        ⟨d, d', u, ys, m, m', hrun, hrun', hfault, hm, hsuffix⟩ <;>
        rw [hrun] at hlt hdeep ⊢
      · obtain ⟨recorded, hlog, hsplits⟩ :=
          ih _ hlt hcut hm.advance (fun v hv => hxs v (hsuffix.subset hv)) hdeep rfl
        exact ⟨recorded, hlog, hsplits.cons hframed hopen' hrun' hbare⟩
      · have hend : closes none ((recover d).run m).2.advance.current.kind := by
          have hsuffix := ((framed_recover d m).trans (Frame.advance _)).tokens_suffix
          rw [hm.tokens, hcut.stop] at hsuffix
          rw [← Parser.headKind_tokens, List.suffix_nil.1 hsuffix]
          rfl
        have hresumes := resumes_of_failed hframed hopen' hrun' hnot' (hm.tokens'.trans hcut.stop')
          hcut.headKind_ne
        rw [run_statements_of_closes expr hend]
        refine ⟨[d], by simp [hm.diagnostics], fun hclosed => ?_, fun _ => hresumes⟩
        exact absurd (.inl ⟨d, List.mem_singleton_self d, hfault⟩) hclosed
      · obtain ⟨recorded, hlog, hsplits⟩ :=
          ih _ hlt (hcut.record d d') hm.advance (fun v hv => hxs v (hsuffix.subset hv)) hdeep rfl
        refine ⟨d :: recorded, ?_, hsplits.record hframed hopen' hrun' hfault⟩
        rw [hlog]
        simp [Ends.record]

end

end Grammar

open Grammar

/-! ## Programs -/

theorem Stmt.mem_keptAll {s : Stmt} {ss : List Stmt} {t : Token} (hs : s ∈ ss) (ht : t ∈ s.kept) :
    t ∈ Stmt.keptAll ss := by
  induction ss with
  | nil => cases hs
  | cons first rest ih =>
    rw [Stmt.keptAll, List.mem_append]
    rcases List.mem_cons.1 hs with rfl | hs
    · exact .inl ht
    · exact .inr (ih hs)

/-- A token that a statement of the program keeps was among the tokens. -/
theorem mem_of_mem_kept {s : Stmt} {t : Token} {ts : List Token}
    (hs : s ∈ (parseTokens ts).1.statements) (ht : t ∈ s.kept) : t ∈ ts :=
  (List.takeWhile_sublist _).subset ((sublist_kept ts).subset (Stmt.mem_keptAll hs ht))

/-- Statements that lead past the first tokens of a list stand in front of those of the others. -/
theorem statements_of_resumes {ts rest : List Token} {done : List Stmt}
    (hts : ∀ t ∈ ts, t.kind ≠ .eof)
    (h : Resumes (expressionAt Parser.nestingLimit) (Parser.start (ReadyTokens.ofList (ts ++ rest))) done
      (ReadyTokens.ofList rest).tokens) :
    (parseTokens (ts ++ rest)).1.statements = done ++ (parseTokens rest).1.statements := by
  obtain ⟨m, hframe, hm, hrun⟩ := h
  rw [← (run_statements_of_frame hts hframe hm).1, ← hrun, parseTokens_eq, run_program]

section

variable {s : Sentence} {word name assign semicolon : Token} {value : Phrase} {after : List Token}
  (hs : s = .letStmt word name assign value (some semicolon)) (hfits : s.fits (headKind after))

include hs hfits

/-- A binding with its semicolon holds no end of input, whatever follows. -/
theorem kind_ne_eof_of_mem_let : ∀ t ∈ s.tokens, t.kind ≠ .eof := by
  subst hs
  intro t ht
  have hall : Sentence.fitsAll [.letStmt word name assign value (some semicolon)] .eof := by
    rw [Sentence.fitsAll, Sentence.fitsAll, Bool.and_true]
    exact hfits
  obtain ⟨n, hscan⟩ := closersDue_tokensAll hall
  rw [Sentence.tokensAll, Sentence.tokensAll, List.append_nil] at hscan
  exact (kind_of_closersDue hscan ht).2.1

/-- A binding is read where it may stand, and then what follows as if alone. -/
theorem statements_let_append (hnesting : s.nesting ≤ Parser.nestingLimit) :
    (parseTokens (s.tokens ++ after)).1.statements = s.tree :: (parseTokens after).1.statements := by
  have hne := kind_ne_eof_of_mem_let hs hfits
  have hp : (Parser.start (ReadyTokens.ofList (s.tokens ++ after))).tokens =
      s.tokens ++ (ReadyTokens.ofList after).tokens := by
    rw [ReadyTokens.tokens_start, ReadyTokens.tokens_ofList_of_append hne]
  rw [← ReadyTokens.headKind_tokens_ofList] at hfits
  obtain ⟨q, ⟨hrun, -⟩, hahead⟩ := exists_gives_statement (framed_expressionAt Parser.nestingLimit)
    (complete_expressionAt Parser.nestingLimit) hp hfits hnesting
  have hopen : (Parser.start (ReadyTokens.ofList (s.tokens ++ after))).current.kind ≠ .eof := by
    obtain ⟨ts, hts⟩ := s.exists_tokens_eq_cons
    rw [hts, List.cons_append] at hp
    rw [hts, List.cons_append, Parser.current_of_tokens hp]
    exact hne _ (by rw [hts]; exact List.mem_cons_self ..)
  have hlater : Resumes (expressionAt Parser.nestingLimit) (q.complete s.tree).advance []
      (ReadyTokens.ofList after).tokens := by
    rw [← hahead]
    exact resumes_tokens _
  exact statements_of_resumes hne
    (hlater.of_attempt (framed_expressionAt _) hopen (run_attempt_of_ok hrun))

end

section

variable {before behind : List Token} {next : Token} (hfence : next.kind.isFence)
  (hsemicolon : next.kind ≠ .semicolon)

/-- The end of the input for one parser, and for the other one a token that no statement goes on with. -/
def Ends.cut (behind : List Token) : Ends where
  stop := []
  stop' := next :: behind
  isFence := rfl
  isFence' := hfence
  semicolon_iff := by simp [hsemicolon]
  logged := #[]
  logged' := #[]

/-- The same tokens alone and with others behind them. -/
theorem abreast_cut
    (hbefore : ∀ t ∈ before, t.kind ≠ .openCurly ∧ t.kind ≠ .eof) (heof : next.kind ≠ .eof) :
    (Ends.cut hfence hsemicolon (ReadyTokens.ofList behind).tokens).Abreast before
      (Parser.start (ReadyTokens.ofList before))
      (Parser.start (ReadyTokens.ofList (before ++ next :: behind))) where
  tokens := by
    have hwhole := ReadyTokens.tokens_ofList_of_append (fun t ht => (hbefore t ht).2) []
    rwa [List.append_nil, ← ReadyTokens.tokens_start] at hwhole
  tokens' := by
    have hnext := @ReadyTokens.tokens_ofList_of_append [next] (by simpa using heof) behind
    rw [ReadyTokens.tokens_start, ReadyTokens.tokens_ofList_of_append fun t ht => (hbefore t ht).2]
    exact congrArg (before ++ ·) hnext
  kind_ne_openCurly t ht := (hbefore t ht).1
  diagnostics := rfl
  diagnostics' := rfl

include hfence hsemicolon

/-- Before a token that no statement goes on with, tokens without semicolons and braces are read as
they are read alone. The token comes next, unless the tokens break off before an expression: then it is
passed. -/
theorem statements_append_fence
    (hbefore : ∀ t ∈ before,
      t.kind ≠ .semicolon ∧ t.kind ≠ .openCurly ∧ t.kind ≠ .closeCurly ∧ t.kind ≠ .eof)
    (hdeep : ∀ d ∈ (parseTokens before).2.diagnostics, ¬ d.fault.isTooDeep)
    (hcurly : next.kind ≠ .closeCurly) (heof : next.kind ≠ .eof) (hbehind : headKind behind ≠ .semicolon) :
    (¬ BreaksOff before → (parseTokens (before ++ next :: behind)).1.statements =
      (parseTokens before).1.statements ++ (parseTokens (next :: behind)).1.statements) ∧
    (BreaksOff before → (parseTokens (before ++ next :: behind)).1.statements =
      (parseTokens before).1.statements.filter (!·.isBareReturn) ++
        (parseTokens behind).1.statements) := by
  have hne (t : Token) (ht : t ∈ before) : t.kind ≠ .eof := (hbefore t ht).2.2.2
  have hne' (t : Token) (ht : t ∈ before ++ [next]) : t.kind ≠ .eof := by
    rcases List.mem_append.1 ht with ht | ht
    · exact hne t ht
    · rwa [List.mem_singleton.1 ht]
  rw [← ReadyTokens.headKind_tokens_ofList] at hbehind
  have hparse := parseTokens_eq before
  rw [run_program] at hparse
  rw [hparse] at hdeep
  obtain ⟨recorded, hlog, hsplits⟩ := exists_splits (fun ends => keepsEnds_expressionAt ends _)
    (framed_expressionAt _) (misses_expressionAt_succ _) ⟨rfl, rfl, hcurly, hbehind⟩
    (abreast_cut hfence hsemicolon (fun t ht => ⟨(hbefore t ht).2.1, hne t ht⟩) heof)
    (fun t ht => ⟨(hbefore t ht).1, (hbefore t ht).2.2.1⟩) hdeep
  have hrecorded : (parseTokens before).2.diagnostics.toList = recorded := by
    rw [hparse]
    exact hlog
  rw [BreaksOff, hrecorded, hparse]
  refine ⟨fun hclosed => ?_, fun hdue => ?_⟩
  · have hnext := @ReadyTokens.tokens_ofList_of_append [next] (by simpa using heof) behind
    exact statements_of_resumes hne (hnext ▸ hsplits.resumes hclosed)
  · have hsplit : before ++ next :: behind = (before ++ [next]) ++ behind := by simp
    rw [hsplit]
    exact statements_of_resumes hne' (hsplit ▸ hsplits.resumes_behind hdue)

end

/-- A binding behind tokens without semicolons and braces is kept, and everything behind it is read as
if alone, unless the tokens break off before an expression. Then the binding loses its `let`, and what is
left of it is read as statements of its own. -/
theorem statements_append_let {s : Sentence} {before after : List Token}
    {word name assign semicolon : Token} {value : Phrase}
    (hbefore : ∀ t ∈ before,
      t.kind ≠ .semicolon ∧ t.kind ≠ .openCurly ∧ t.kind ≠ .closeCurly ∧ t.kind ≠ .eof)
    (hdeep : ∀ d ∈ (parseTokens before).2.diagnostics, ¬ d.fault.isTooDeep)
    (hs : s = .letStmt word name assign value (some semicolon)) (hfits : s.fits (headKind after))
    (hnesting : s.nesting ≤ Parser.nestingLimit) :
    (¬ BreaksOff before → (parseTokens (before ++ (s.tokens ++ after))).1.statements =
      (parseTokens before).1.statements ++ s.tree :: (parseTokens after).1.statements) ∧
    (BreaksOff before → (parseTokens (before ++ (s.tokens ++ after))).1.statements =
      (parseTokens before).1.statements.filter (!·.isBareReturn) ++
        (parseTokens (s.tokens.tail ++ after)).1.statements) ∧
    (word ∉ before ++ (s.tokens.tail ++ after) →
      (s.tree ∈ (parseTokens (before ++ (s.tokens ++ after))).1.statements ↔ ¬ BreaksOff before)) := by
  have hread := statements_let_append hs hfits hnesting
  obtain ⟨hword, hname⟩ : word.kind = .letWord ∧ name.kind = .identifier := by
    subst hs
    obtain ⟨hword, hname, -⟩ := Sentence.fits_letStmt_iff.1 hfits
    exact ⟨hword, hname⟩
  have htokens : s.tokens ++ after = word :: (s.tokens.tail ++ after) := by
    subst hs
    rfl
  have hbehind : headKind (s.tokens.tail ++ after) ≠ .semicolon := by
    subst hs
    show name.kind ≠ .semicolon
    rw [hname]
    decide
  have hkept : word ∈ s.tree.kept := by
    subst hs
    exact List.mem_cons_self ..
  obtain ⟨hwhole, hbroken⟩ := statements_append_fence (by rw [hword]; rfl) (by rw [hword]; decide)
    hbefore hdeep (by rw [hword]; decide) (by rw [hword]; decide) hbehind
  rw [← htokens] at hwhole hbroken
  rw [hread] at hwhole
  refine ⟨hwhole, hbroken, fun hnew => ⟨fun hmem hdue => hnew ?_, fun hclosed => ?_⟩⟩
  · rw [hbroken hdue] at hmem
    rcases List.mem_append.1 hmem with hmem | hmem
    · exact List.mem_append_left _ (mem_of_mem_kept (List.mem_filter.1 hmem).1 hkept)
    · exact List.mem_append_right _ (mem_of_mem_kept hmem hkept)
  · rw [hwhole hclosed]
    simp

/-- The tokens `( x`, a group that is not closed. -/
def unclosedGroup : List Token := [.unplaced .openParen "(", .unplaced .identifier "x"]

/-- The binding `let y = 1;`. -/
def oneLet : Sentence :=
  .letStmt (.unplaced .letWord "let") (.unplaced .identifier "y") (.unplaced .assign "=")
    (.integer (.unplaced .integer "1")) (some (.unplaced .semicolon ";"))

/-- Behind a group that is not closed the binding is kept. -/
theorem statements_append_let_unclosedGroup :
    ¬ BreaksOff unclosedGroup ∧
      (parseTokens (unclosedGroup ++ (oneLet.tokens ++ [.unplaced .identifier "y"]))).1.statements =
        (parseTokens unclosedGroup).1.statements ++
          oneLet.tree :: (parseTokens [.unplaced .identifier "y"]).1.statements ∧
      oneLet.tree ∈ (parseTokens
        (unclosedGroup ++ (oneLet.tokens ++ [.unplaced .identifier "y"]))).1.statements := by
  have hclosed : ¬ BreaksOff unclosedGroup := by decide +kernel
  have hbefore : ∀ t ∈ unclosedGroup,
      t.kind ≠ .semicolon ∧ t.kind ≠ .openCurly ∧ t.kind ≠ .closeCurly ∧ t.kind ≠ .eof := by decide
  have hdeep : ∀ d ∈ (parseTokens unclosedGroup).2.diagnostics, ¬ d.fault.isTooDeep := by
    decide +kernel
  have hfits : oneLet.fits (headKind [.unplaced .identifier "y"]) := by decide +kernel
  obtain ⟨hwhole, -, hmem⟩ := statements_append_let hbefore hdeep rfl hfits (by decide)
  exact ⟨hclosed, hwhole hclosed, (hmem (by decide)).2 hclosed⟩

/-- Behind `let x =` the binding is lost, though nothing is nested too deeply. -/
theorem oneLet_lost_valuelessLet :
    (∀ t ∈ valuelessLet,
      t.kind ≠ .semicolon ∧ t.kind ≠ .openCurly ∧ t.kind ≠ .closeCurly ∧ t.kind ≠ .eof) ∧
      (∀ d ∈ (parseTokens valuelessLet).2.diagnostics, ¬ d.fault.isTooDeep) ∧
      oneLet.fits .eof ∧ oneLet.nesting ≤ Parser.nestingLimit ∧
      oneLet.tree ∉ (parseTokens (valuelessLet ++ (oneLet.tokens ++ []))).1.statements := by
  decide +kernel

end MonkeyFrontEnd
