import MonkeyFrontEnd.Proofs.Losses
import MonkeyFrontEnd.Proofs.Truthful
import MonkeyFrontEnd.Proofs.Unwinding

/-!
Giving up. An input that nests too deeply is given up at the token where that is found, once and for
good. Of the program there is left what stands in front of this token, and of the statements completed
those that no failed one encloses (`parseTokens_givesUp_once`).
-/

namespace MonkeyFrontEnd

open TokenSource (drain)

variable {σ : Type} [TokenSource σ]

/-! ## What is left of the program -/

/-- Between `p` and `q` the input was given up at `c`. In front of `c` stand the tokens `kept` in their
order, and the statements `begun` begin there. -/
structure GaveUp (p q : Parser σ) (c : Cursor σ) (kept : List Token) (begun : List Stmt) : Prop where
  reached : p.cursor.Reaches c
  recorded : ⟨.tooDeep Parser.nestingLimit, c.current.span.start⟩ ∈ q.diagnostics.toList
  kept : (kept ++ c.tokens).Sublist p.tokens
  begun : ∀ s ∈ begun, (s.token :: c.tokens).Sublist p.tokens

namespace GaveUp

variable {p m q : Parser σ} {c : Cursor σ} {kept before : List Token} {begun earlier : List Stmt}

/-- What was read in front stands in front. -/
theorem behind (h : GaveUp m q c kept begun) (hreached : p.cursor.Reaches m.cursor)
    (hbefore : (before ++ m.tokens).Sublist p.tokens)
    (hearlier : ∀ s ∈ earlier, (s.token :: m.tokens).Sublist p.tokens) :
    GaveUp p q c (before ++ kept) (earlier ++ begun) where
  reached := hreached.trans h.reached
  recorded := h.recorded
  kept := by
    rw [List.append_assoc]
    exact (h.kept.append_left before).trans hbefore
  begun s hs := by
    rcases List.mem_append.1 hs with hs | hs
    · exact (h.reached.tokens_suffix.sublist.cons_cons s.token).trans (hearlier s hs)
    · exact (h.begun s hs).trans hreached.tokens_suffix.sublist

theorem of_skip (h : GaveUp p.advance q c kept begun) : GaveUp p q c kept begun :=
  ⟨.trans (.onward .here) h.reached, h.recorded, h.kept.trans p.ahead_suffix_tokens.sublist,
    fun s hs => (h.begun s hs).trans p.ahead_suffix_tokens.sublist⟩

theorem of_advance (h : GaveUp p.advance q c kept begun) (hp : p.current.kind ≠ .eof) :
    GaveUp p q c (p.current :: kept) begun where
  reached := h.of_skip.reached
  recorded := h.recorded
  kept := by
    rw [Parser.tokens_of_ne_eof hp]
    exact h.kept.cons_cons p.current
  begun := h.of_skip.begun

/-- What is recorded stays recorded. -/
theorem mono {q' : Parser σ} (h : GaveUp p q c kept begun)
    (hq : q.diagnostics.toList <+: q'.diagnostics.toList) : GaveUp p q' c kept begun :=
  ⟨h.reached, hq.subset h.recorded, h.kept, h.begun⟩

/-- Where a token is kept, the first token stands in front of the one that was too deep. -/
theorem sublist_current (h : GaveUp p q c kept begun) (hkept : kept ≠ []) :
    (p.current :: c.tokens).Sublist p.tokens := by
  have hlength := h.kept.length_le
  have hpos := List.length_pos_iff.2 hkept
  rw [List.length_append] at hlength
  have hp : p.current.kind ≠ .eof := by
    intro heof
    rw [Parser.tokens_of_eof heof, List.length_nil] at hlength
    omega
  have hsuffix : c.tokens <:+ p.tokens := h.reached.tokens_suffix
  rw [Parser.tokens_of_ne_eof hp] at hsuffix hlength ⊢
  rcases List.suffix_cons_iff.1 hsuffix with heq | hsuffix
  · rw [heq] at hlength
    omega
  · exact hsuffix.sublist.cons_cons p.current

end GaveUp

/-- What was given up was given up at a token that the account blames for it. -/
theorem Account.exists_gaveUp {p q : Parser σ} {failure : Option Diagnostic} {bs : List (Blame σ)}
    (h : Account p q failure bs) (hlive : ¬ p.HasOverrun) (hover : q.HasOverrun) :
    ∃ c, GaveUp p q c [] [] := by
  obtain ⟨d, hd, hdeep⟩ := hover
  have hrecorded : d ∈ p.diagnostics.toList ++ bs.map Blame.diagnostic := by
    rw [← h.recorded]
    exact List.mem_append_left _ hd
  rcases List.mem_append.1 hrecorded with hearlier | hnew
  · exact absurd ⟨d, hearlier, hdeep⟩ hlive
  · obtain ⟨b, hb, rfl⟩ := List.mem_map.1 hnew
    have hreached := h.placed b hb
    have hblame : b.diagnostic = ⟨.tooDeep Parser.nestingLimit, b.place.current.span.start⟩ := by
      rw [← hdeep, ← b.blames.position_eq]
    exact ⟨b.place, hreached, hblame ▸ hd, hreached.tokens_suffix.sublist, by simp⟩

/-- If the input is given up while the rule reads an expression, the expression is what stands in front
of the token that was too deep. -/
def Builder.Spares (b : Builder σ Expr) : Prop :=
  ∀ {p q : Parser σ} {e : Expr}, p.Settled → ¬ p.HasOverrun → b.run p = (.ok e, q) → q.HasOverrun →
    ∃ c, GaveUp p q c e.kept e.inner

theorem Expr.kept_ne_nil (e : Expr) : e.kept ≠ [] := by
  cases e <;> simp [Expr.kept]

theorem Stmt.kept_ne_nil (s : Stmt) : s.kept ≠ [] := by
  cases s with
  | letStmt => simp [Stmt.kept]
  | bareReturn => simp [Stmt.kept]
  | returnValue => simp [Stmt.kept]
  | expression token value => exact value.kept_ne_nil
  | block body => cases body; simp [Stmt.kept, Block.kept]

namespace Grammar

section

variable {room : Nat} {expr : Precedence → Builder σ Expr} (hexpr : MakesTries room expr)
  {p m q : Parser σ} {c : Cursor σ} {kept : List Token} {begun : List Stmt}

include hexpr

/-- In front of the first block of an `if` stand this token and the condition. -/
theorem gaveUp_behind_condition {a : Expr} (hkind : p.current.kind = .ifWord)
    (ha : (expr .lowest).run p.advance.advance = (.ok a, m))
    (h : GaveUp m.advance.advance q c kept begun) :
    GaveUp p q c (p.current :: (a.kept ++ kept)) (a.inner ++ begun) := by
  have hframe := hexpr.framed .lowest p.advance.advance
  have hkept := hexpr.keepsOrder _ ha
  have hbehind : m.advance.advance.tokens <:+ m.ahead := m.advance.ahead_suffix_tokens
  have htokens := (hbehind.trans m.ahead_suffix_tokens).sublist
  rw [ha] at hframe
  have hcondition : GaveUp p.advance.advance q c (a.kept ++ kept) (a.inner ++ begun) := by
    refine h.behind (.onward (.onward hframe.cursor)) ((hbehind.sublist.append_left _).trans hkept) ?_
    intro s hs
    exact (htokens.cons_cons s.token).trans ((hexpr.gathers _ _).sublist_token ha hs)
  exact hcondition.of_skip.of_advance (by rw [hkind]; decide)

/-- In front of the second block stands the first one. -/
theorem gaveUp_behind_block {b : Block} (hkind : p.current.kind = .openCurly)
    (hb : (block expr).run p = (b, m)) (h : GaveUp m.advance.advance q c kept begun) :
    GaveUp p q c (b.kept ++ kept) (b.inner ++ begun) := by
  have hframe := framed_block hexpr.framed p
  have hkept := sublist_of_block hexpr.keepsOrder hexpr.framed hkind
  have hrun : (Builder.ofAction (block expr)).run p = (.ok b, m) := by rw [Builder.run_ofAction, hb]
  have hbehind : m.advance.advance.tokens <:+ m.tokens :=
    m.advance.ahead_suffix_tokens.trans m.ahead_suffix_tokens
  rw [hb] at hframe hkept
  refine h.behind (.onward (.onward hframe.cursor)) ((hbehind.sublist.append_left _).trans hkept) ?_
  intro s hs
  exact (hbehind.sublist.cons_cons s.token).trans ((gathers_block hexpr hkind).sublist_token hrun hs)

end

/-- What a rule for expressions is relied on for. -/
structure GivesUp (room : Nat) (expr : Precedence → Builder σ Expr) : Prop
    extends MakesTries room expr where
  settles : ∀ limit, (expr limit).Settles
  keepsTurns : KeepsTurns expr
  spares : ∀ limit, (expr limit).Spares

section

variable {room : Nat} {expr : Precedence → Builder σ Expr} (hexpr : GivesUp room expr)
  {p q : Parser σ} {s : Stmt} {e left : Expr} {limit : Precedence} (hp : p.Settled)
  (hlive : ¬ p.HasOverrun)

include hexpr hp hlive

/-! ### Statements -/

theorem exists_gaveUp_value (h : (expr .lowest).run p = (.ok e, q)) (hover : q.passSemicolon.HasOverrun) :
    ∃ c, GaveUp p q.passSemicolon c e.kept e.inner := by
  have hdiagnostics := q.diagnostics_passSemicolon
  obtain ⟨c, hc⟩ := hexpr.spares _ hp hlive h ((Parser.hasOverrun_congr hdiagnostics).1 hover)
  exact ⟨c, hc.mono (by simp only [hdiagnostics, List.prefix_refl])⟩

/-- If the input is given up while a statement is read, the statement is what stands in front of the
token that was too deep. -/
theorem exists_gaveUp_statement (h : (statement expr).run p = (.ok s, q)) (hover : q.HasOverrun) :
    ∃ c, GaveUp p q c s.kept s.inner := by
  rcases cases_of_run_statement h with ⟨hkind, h⟩ | ⟨hkind, h⟩ | h
  · obtain ⟨hname, hassign, e, m, he, rfl, rfl⟩ := exists_of_run_letStatement h
    obtain ⟨c, hc⟩ := exists_gaveUp_value hexpr (p := p.advance.advance.advance)
      (hp.of_quiet hlive rfl) hlive he hover
    have hname := hc.of_skip.of_advance (p := p.advance) (by rw [Parser.current_advance, hname]; decide)
    exact ⟨c, hname.of_advance (by rw [hkind]; decide)⟩
  · rcases cases_of_run_returnStatement h with ⟨rfl, rfl | rfl⟩ | ⟨e, m, he, rfl, rfl⟩
    · exact absurd hover hlive
    · exact absurd hover hlive
    · obtain ⟨c, hc⟩ := exists_gaveUp_value hexpr (p := p.advance) (hp.of_quiet hlive rfl) hlive he hover
      exact ⟨c, hc.of_advance (by rw [hkind]; decide)⟩
  · obtain ⟨e, m, he, rfl, rfl⟩ := exists_of_run_expressionStatement h
    exact exists_gaveUp_value hexpr hp hlive he hover

/-- The same of a try, which keeps nothing if it is the one that fails. -/
theorem exists_gaveUp_attempt (hfresh : ∀ limit p, (expr limit).Fresh p)
    (hover : ((attempt expr).run p).2.HasOverrun) :
    ∃ c, GaveUp p ((attempt expr).run p).2 c (Stmt.keptAll ((attempt expr).run p).1.toList)
      (Stmt.postorder ((attempt expr).run p).1.toList) := by
  rcases hrun : (statement expr).run p with ⟨d | s, m⟩
  · obtain ⟨bs, hbs, -⟩ := exists_account_attempt hfresh p
    obtain ⟨c, hc⟩ := hbs.exists_gaveUp hlive hover
    rw [run_attempt_of_error hrun] at hc ⊢
    exact ⟨c, ⟨hc.reached, hc.recorded, hc.kept, hc.begun⟩⟩
  · rw [run_attempt_of_ok hrun] at hover ⊢
    obtain ⟨c, hc⟩ := exists_gaveUp_statement hexpr hp hlive hrun hover
    refine ⟨c, hc.reached, hc.recorded, ?_, fun s' hs' => ?_⟩
    · simpa [Stmt.keptAll] using hc.kept
    · rcases List.mem_append.1 hs' with hs' | hs'
      · exact hc.begun s' hs'
      · rw [List.mem_singleton.1 hs', token_of_run_statement hrun]
        exact hc.sublist_current s.kept_ne_nil

theorem exists_gaveUp_statements (hfresh : ∀ limit p, (expr limit).Fresh p) (closing : Option Kind)
    (hover : ((statements expr closing).run p).2.HasOverrun) :
    ∃ c, GaveUp p ((statements expr closing).run p).2 c
      (Stmt.keptAll ((statements expr closing).run p).1)
      (Stmt.postorder ((statements expr closing).run p).1) := by
  induction hleft : p.left using Nat.strongRecOn generalizing p with
  | ind n ih =>
    subst hleft
    by_cases hclose : closes closing p.current.kind
    · rw [run_statements_of_closes expr hclose] at hover
      exact absurd hover hlive
    · have hp' := current_ne_eof hclose
      have hnext := settled_attempt hexpr.settles hp hlive
      rw [run_statements_of_not_closes expr hclose] at hover ⊢
      by_cases hattempt : ((attempt expr).run p).2.HasOverrun
      -- The rest of the input is gone, and the list ends behind the try.
      · have heof := hnext.spent hattempt
        rw [Parser.advance_of_eof heof, run_statements_of_eof heof, List.append_nil]
        exact exists_gaveUp_attempt hexpr hp hlive hfresh hattempt
      · have hgoes : ((attempt expr).run p).2.advance.Settled := hnext.of_quiet hattempt rfl
        obtain ⟨c, hc⟩ := ih _ (left_attempt_lt expr hp') hgoes hattempt hover rfl
        have hbegun := hexpr.sublist_token_attempt hp'
        have hframe := (framed_attempt hexpr.framed p).trans (Frame.advance _)
        have hkept := sublist_of_attempt hexpr.keepsOrder hexpr.framed p
        rw [Stmt.keptAll_append, Stmt.postorder_append]
        exact ⟨c, hc.behind hframe.cursor hkept hbegun⟩

theorem exists_gaveUp_block (hfresh : ∀ limit p, (expr limit).Fresh p)
    (hkind : p.current.kind = .openCurly) (hover : ((block expr).run p).2.HasOverrun) :
    ∃ c, GaveUp p ((block expr).run p).2 c ((block expr).run p).1.kept ((block expr).run p).1.inner := by
  obtain ⟨c, hc⟩ := exists_gaveUp_statements hexpr (p := p.advance) (hp.of_quiet hlive rfl) hlive
    hfresh (some .closeCurly) hover
  exact ⟨c, hc.of_advance (by rw [hkind]; decide)⟩

/-! ### Expressions -/

theorem exists_gaveUp_unary (hkind : p.current.kind = .bang ∨ p.current.kind = .minus)
    (h : (unary expr).run p = (.ok e, q)) (hover : q.HasOverrun) :
    ∃ c, GaveUp p q c e.kept e.inner := by
  obtain ⟨a, ha, rfl⟩ := exists_of_run_unary h
  obtain ⟨c, hc⟩ := hexpr.spares _ (p := p.advance) (hp.of_quiet hlive rfl) hlive ha hover
  exact ⟨c, hc.of_advance (by rcases hkind with hkind | hkind <;> rw [hkind] <;> decide)⟩

/-- Behind an expression the input goes on if a token other than its end is next. -/
theorem settled_of_peek (h : (expr limit).run p = (.ok e, q)) (hpeek : q.peek.kind ≠ .eof) :
    q.Settled ∧ ¬ q.HasOverrun := by
  have hq := hexpr.settles limit p hp hlive
  rw [h] at hq
  refine ⟨hq.settled, fun hover => hpeek ?_⟩
  rw [Parser.peek_of_eof (hq.settled.spent hover), hq.settled.spent hover]

theorem not_hasOverrun_group (h : (group expr).run p = (.ok e, q)) : ¬ q.HasOverrun := by
  obtain ⟨m, hm, hclose, rfl⟩ := exists_of_run_group h
  exact (settled_of_peek hexpr (p := p.advance) (hp.of_quiet hlive rfl) hlive hm
    (by rw [hclose]; decide)).2

theorem exists_gaveUp_conditional (hkind : p.current.kind = .ifWord)
    (h : (conditional expr).run p = (.ok e, q)) (hover : q.HasOverrun) :
    ∃ c, GaveUp p q c e.kept e.inner := by
  obtain ⟨-, a, m, ha, hclose, hcurly, b, n, hb, hrest⟩ := exists_of_run_conditional h
  obtain ⟨hm, hmlive⟩ := settled_of_peek hexpr (p := p.advance.advance) (hp.of_quiet hlive rfl) hlive ha
    (by rw [hclose]; decide)
  have hfresh := hexpr.keepsTurns.fresh ha
  have hthen : m.advance.advance.Settled := hm.of_quiet hmlive rfl
  have hn := settles_block hexpr.settles _ hthen hmlive
  rw [Builder.run_ofAction, hb] at hn
  by_cases hfirst : n.HasOverrun
  -- The input is given up in the first block, and no other follows.
  · have heof := hn.settled.spent hfirst
    rcases hrest with ⟨helse, -⟩ | ⟨rfl, rfl⟩
    · rw [Parser.peek_of_eof heof, heof] at helse
      cases helse
    · have hblock := exists_gaveUp_block hexpr hthen hmlive hfresh hcurly (by rwa [hb])
      rw [hb] at hblock
      obtain ⟨c, hc⟩ := hblock
      exact ⟨c, gaveUp_behind_condition hexpr.toMakesTries hkind ha hc⟩
  · rcases hrest with ⟨-, hcurly', d, hd, rfl⟩ | ⟨-, rfl⟩
    · have helse : n.advance.advance.Settled := hn.settled.of_quiet hfirst rfl
      have hblock := exists_gaveUp_block hexpr helse hfirst hfresh hcurly' (by rwa [hd])
      rw [hd] at hblock
      obtain ⟨c, hc⟩ := hblock
      have hblocks := gaveUp_behind_block hexpr.toMakesTries (p := m.advance.advance) hcurly hb hc
      rw [Expr.kept, Expr.inner, List.append_assoc]
      exact ⟨c, gaveUp_behind_condition hexpr.toMakesTries hkind ha hblocks⟩
    · exact absurd hover hfirst

theorem exists_gaveUp_opening (h : (opening expr).run p = (.ok e, q)) (hover : q.HasOverrun) :
    ∃ c, GaveUp p q c e.kept e.inner := by
  rcases cases_of_run_opening h with ⟨-, -, rfl⟩ | ⟨-, h⟩ | ⟨-, -, rfl⟩ | ⟨hkind, h⟩ | ⟨-, h⟩ |
    ⟨hkind, h⟩
  · exact absurd hover hlive
  · obtain ⟨value, -, -, rfl⟩ := exists_of_run_integer h
    exact absurd hover hlive
  · exact absurd hover hlive
  · exact exists_gaveUp_unary hexpr hp hlive hkind h hover
  · exact absurd hover (not_hasOverrun_group hexpr hp hlive h)
  · exact exists_gaveUp_conditional hexpr hp hlive hkind h hover

end

section

variable {room : Nat} {expr : Precedence → Builder σ Expr} (hexpr : GivesUp room expr)
  {p m q : Parser σ} {e left : Expr} {limit : Precedence}

include hexpr

/-- Joining goes on behind the left operand, which was read from `p`. -/
theorem exists_gaveUp_join (hm : m.Settled) (hlive : ¬ m.HasOverrun)
    (hreached : p.cursor.Reaches m.cursor) (hkept : (left.kept ++ m.ahead).Sublist p.tokens)
    (hbegun : ∀ s ∈ left.inner, (s.token :: m.tokens).Sublist p.tokens)
    (h : (join expr limit left).run m = (.ok e, q)) (hover : q.HasOverrun) :
    ∃ c, GaveUp p q c e.kept e.inner := by
  induction hleft : m.left using Nat.strongRecOn generalizing m left with
  | ind n ih =>
    subst hleft
    by_cases hlimit : limit < m.peek.kind.precedence
    · rw [run_join_of_lt expr hlimit] at h
      obtain ⟨joined, n, hjoined, h⟩ := Builder.exists_of_run_bind h
      have hn := settles_binary hexpr.settles left m.advance (hm.of_quiet hlive rfl) hlive
      have hlt := left_binary_lt expr left hlimit
      rw [hjoined] at hn hlt
      obtain ⟨a, ha, rfl⟩ := exists_of_run_binary hjoined
      have hpeek : m.advance.current.kind ≠ .eof := peek_ne_eof hlimit
      have hbegun' : ∀ s ∈ left.inner, (s.token :: m.advance.tokens).Sublist p.tokens :=
        fun s hs => (m.ahead_suffix_tokens.sublist.cons_cons s.token).trans (hbegun s hs)
      by_cases hright : n.HasOverrun
      -- The input is given up in the right operand, and no other operator follows.
      · rw [run_join_of_eof (hn.settled.spent hright)] at h
        obtain ⟨hvalue, rfl⟩ := Prod.mk.inj h
        obtain rfl := Except.ok.inj hvalue
        obtain ⟨c, hc⟩ := hexpr.spares _ (p := m.advance.advance) (hm.of_quiet hlive rfl) hlive ha hright
        exact ⟨c, (hc.of_advance hpeek).behind hreached.onward hkept hbegun'⟩
      · have hframe := hexpr.framed m.advance.current.kind.precedence m.advance.advance
        have hright' := (hexpr.keepsOrder _ ha).cons_cons m.advance.current
        rw [ha] at hframe
        rw [← Parser.tokens_advance, Parser.tokens_of_ne_eof hpeek] at hkept
        refine ih _ hlt hn.settled hright (hreached.onward.onward.trans hframe.cursor) ?_ ?_ h rfl
        · simpa [Expr.kept] using (hright'.append_left left.kept).trans hkept
        · intro s hs
          rcases List.mem_append.1 hs with hs | hs
          · have htokens := hframe.tokens_suffix.trans m.advance.ahead_suffix_tokens
            exact (htokens.sublist.cons_cons s.token).trans (hbegun' s hs)
          · have htokens : m.advance.advance.tokens <:+ p.tokens := hreached.onward.onward.tokens_suffix
            exact ((hexpr.gathers _ _).sublist_token ha hs).trans htokens.sublist
    · rw [run_join_of_not_lt expr hlimit] at h
      obtain ⟨-, rfl⟩ := Prod.mk.inj h
      exact absurd hover hlive

theorem exists_gaveUp_body (hp : p.Settled) (hlive : ¬ p.HasOverrun)
    (h : (body expr limit).run p = (.ok e, q)) (hover : q.HasOverrun) :
    ∃ c, GaveUp p q c e.kept e.inner := by
  obtain ⟨left, m, hopening, h⟩ := Builder.exists_of_run_bind h
  have hm := settles_opening hexpr.settles p hp hlive
  have hframe := framed_opening hexpr.framed p
  rw [hopening] at hm hframe
  by_cases hover' : m.HasOverrun
  · rw [run_join_of_eof (hm.settled.spent hover')] at h
    obtain ⟨hvalue, rfl⟩ := Prod.mk.inj h
    obtain rfl := Except.ok.inj hvalue
    exact exists_gaveUp_opening hexpr hp hlive hopening hover'
  · refine exists_gaveUp_join hexpr hm.settled hover' hframe.cursor ?_ ?_ h hover
    · exact sublist_of_run_opening hexpr.keepsOrder hexpr.framed hopening
    · exact fun s hs => (gathers_opening hexpr.toMakesTries p).sublist_token hopening hs

end

theorem givesUp_expressionAt (room : Nat) : GivesUp (σ := σ) room (expressionAt room) := by
  refine ⟨makesTries_expressionAt room, settles_expressionAt room, keepsTurns_expressionAt room, ?_⟩
  induction room with
  | zero =>
    intro limit p q e _ _ h
    simp [run_expressionAt_zero] at h
  | succ room ih =>
    intro limit p q e hp hlive h hover
    obtain ⟨inside, m, hroom, hbody, rfl⟩ := exists_of_run_expressionAt h
    obtain rfl : room = inside := Nat.succ.inj hroom
    have hinner : GivesUp (σ := σ) room (expressionAt room) :=
      ⟨makesTries_expressionAt room, settles_expressionAt room, keepsTurns_expressionAt room, ih⟩
    obtain ⟨c, hc⟩ := exists_gaveUp_body hinner (p := { p with depth := p.depth + 1 })
      ⟨hp.final, hp.spent⟩ hlive hbody hover
    exact ⟨c, hc.reached, hc.recorded, hc.kept, hc.begun⟩

end Grammar

/-! ## Programs -/

section

variable {s : σ}

/-- The end of the input is the last token of its source. -/
theorem Cursor.current_of_reaches {c : Cursor σ} (h : (start s).Reaches c) (heof : c.current.kind = .eof) :
    c.current = (drain s).2 := by
  obtain ⟨s', before, rfl, -, hlast⟩ := exists_drain_of_reaches h
  rw [← hlast, TokenSource.drain_of_eof heof]
  rfl

theorem Cursor.current_eq_headD {c : Cursor σ} (h : (start s).Reaches c) :
    c.current = c.tokens.headD (drain s).2 := by
  by_cases heof : c.current.kind = .eof
  · rw [tokens_of_eof heof]
    exact current_of_reaches h heof
  · rw [tokens_of_ne_eof heof]
    rfl

theorem frame_parse (s : σ) : Frame (Parser.start s) (parse s).2 := by
  rw [parse_eq]
  exact Grammar.framed_program (Grammar.framed_expressionAt _) _

theorem Parser.not_hasOverrun_start (s : σ) : ¬ (start s).HasOverrun := by
  simp [start, HasOverrun]

theorem Parser.settled_start (s : σ) : (start s).Settled :=
  ⟨List.Pairwise.nil, fun h => absurd h (not_hasOverrun_start s)⟩

theorem settled_parse (s : σ) : (parse s).2.Settled := by
  rw [parse_eq]
  exact Grammar.settled_statements (Grammar.settles_expressionAt _) none (Parser.settled_start s)
    (Parser.not_hasOverrun_start s)

theorem fault_eq_of_isTooDeep {d : Diagnostic} (hd : d ∈ (parse s).2.diagnostics.toList)
    (hdeep : d.fault.isTooDeep) : d.fault = .tooDeep Parser.nestingLimit := by
  obtain ⟨c, -, hblames⟩ := exists_blames_of_mem hd
  have hdescribes := hblames.describes
  cases hfault : d.fault with
  | tooDeep limit =>
    rw [hfault] at hdescribes
    rw [show limit = Parser.nestingLimit from hdescribes]
  | _ => rw [hfault] at hdeep; cases hdeep

theorem eq_of_cutShort {d : Diagnostic} (hd : d ∈ (parse s).2.diagnostics.toList)
    (hcut : d.fault.CutShort) : ∃ expected, d = ⟨.unexpected expected .eof, (drain s).2.span.start⟩ := by
  obtain ⟨c, hreached, hblames⟩ := exists_blames_of_mem hd
  obtain ⟨expected, hfault⟩ := hcut
  obtain ⟨hkind, -⟩ : Kind.eof = c.current.kind ∧ Kind.eof ≠ expected := by
    have hdescribes := hblames.describes
    rwa [hfault] at hdescribes
  refine ⟨expected, ?_⟩
  rw [← hfault, ← Cursor.current_of_reaches hreached hkind.symm, ← hblames.position_eq]

/-- A diagnostic for nesting parts the others: none in front of it is for nesting, and those behind it
say that the input has ended. -/
theorem exists_parts_of_tooDeep {position : Position}
    (h : ⟨.tooDeep Parser.nestingLimit, position⟩ ∈ (parse s).2.diagnostics.toList) :
    ∃ earlier later, (parse s).2.diagnostics.toList =
        earlier ++ ⟨.tooDeep Parser.nestingLimit, position⟩ :: later ∧
      (∀ d ∈ earlier, ¬ d.fault.isTooDeep) ∧
      ∀ d ∈ later, ∃ expected, d = ⟨.unexpected expected .eof, (drain s).2.span.start⟩ := by
  obtain ⟨earlier, later, hds⟩ := List.append_of_mem h
  have hfinal := (settled_parse s).final
  rw [hds, List.pairwise_append, List.pairwise_cons] at hfinal
  obtain ⟨-, ⟨hlater, -⟩, hearlier⟩ := hfinal
  refine ⟨earlier, later, hds, fun d hd hdeep => ?_, fun d hd => ?_⟩
  · -- Behind `d`, the given one would have to complain about the end of the input.
    have hmem : d ∈ (parse s).2.diagnostics.toList := by
      rw [hds]
      exact List.mem_append_left _ hd
    obtain ⟨expected, hfault⟩ :=
      hearlier d hd _ (List.mem_cons_self ..) (fault_eq_of_isTooDeep hmem hdeep)
    cases hfault
  · refine eq_of_cutShort ?_ (hlater d hd rfl)
    rw [hds]
    exact List.mem_append_right _ (List.mem_cons_of_mem _ hd)

theorem exists_gaveUp_parse (h : (parse s).2.HasOverrun) :
    ∃ c, GaveUp (Parser.start s) (parse s).2 c (parse s).1.kept (parse s).1.postorder := by
  rw [parse_eq] at h ⊢
  have hfresh := Grammar.fresh_expressionAt_succ (σ := σ)
    (Grammar.keepsTurns_expressionAt (Parser.nestingLimit - 1))
  exact Grammar.exists_gaveUp_statements (Grammar.givesUp_expressionAt _) (Parser.settled_start s)
    (Parser.not_hasOverrun_start s) hfresh none h

end

/-- What is recorded, and what is left of the program, if the input `before ++ rest` is given up at the
first token of `rest`, or at its end if there is none. -/
structure GivenUp (before rest : List Token) (last : Token) (program : Program) (ds : List Diagnostic) :
    Prop where
  recorded : ∃ earlier later, ds =
      earlier ++ ⟨.tooDeep Parser.nestingLimit, (rest.headD last).span.start⟩ :: later ∧
    (∀ d ∈ earlier, ¬ d.fault.isTooDeep) ∧
    ∀ d ∈ later, ∃ expected, d = ⟨.unexpected expected .eof, last.span.start⟩
  kept : program.kept.Sublist before
  nodes : ∀ entry ∈ Outline.ofProgram program, entry.token ∈ before

theorem GaveUp.exists_givenUp {s : σ} {c : Cursor σ}
    (h : GaveUp (Parser.start s) (parse s).2 c (parse s).1.kept (parse s).1.postorder) :
    ∃ before, (drain s).1 = before ++ c.tokens ∧
      GivenUp before c.tokens (drain s).2 (parse s).1 (parse s).2.diagnostics.toList := by
  have htokens : (Parser.start s).tokens = (drain s).1 := Cursor.tokens_start s
  obtain ⟨before, hbefore⟩ := h.reached.tokens_suffix
  have hstart : (Parser.start s).tokens = before ++ c.tokens := hbefore.symm
  have hkept := h.kept
  have hbegun := h.begun
  rw [hstart] at hkept hbegun
  refine ⟨before, htokens.symm.trans hstart, ?_⟩
  constructor
  case recorded =>
    rw [← Cursor.current_eq_headD h.reached]
    exact exists_parts_of_tooDeep h.recorded
  case kept => exact (List.append_sublist_append_right _).1 hkept
  case nodes =>
    intro entry hentry
    rcases Stmt.isHeld_of_mem_outlineAll _ hentry with hheld | ⟨s', hs', hstmt⟩
    · exact ((List.append_sublist_append_right _).1 hkept).subset hheld
    · rw [← hstmt]
      exact List.singleton_sublist.1 ((List.append_sublist_append_right _).1 (hbegun s' hs'))

/-- Nesting is given up once at most, and for good. The list of statements of a program ends at the end
of the input, with every expression left again. If the input was given up, all that is recorded
afterwards is that it has ended, and no node of the program holds a token from the one that was too
deep on. The program is what the tries for its statements save, at every depth: each of these tries is a
run of the parser's own rule, and all that is reported is theirs. So a statement that was completed is
in the program, unless it was completed while a try was running that has failed. -/
theorem parseTokens_givesUp_once (ts : List Token) :
    (parseTokens ts).2.current = (ReadyTokens.ofList ts).last ∧
    (parseTokens ts).2.current.kind = .eof ∧ (parseTokens ts).2.depth = 0 ∧
    ((∀ d ∈ (parseTokens ts).2.diagnostics.toList, ¬ d.fault.isTooDeep) ∨
      ∃ before rest, (ReadyTokens.ofList ts).tokens = before ++ rest ∧
        GivenUp before rest (ReadyTokens.ofList ts).last (parseTokens ts).1
          (parseTokens ts).2.diagnostics.toList) ∧
    ∃ tries : List (Try ReadyTokens),
      (parseTokens ts).1.IsReadBy (ReadyTokens.ofList ts).tokens (Parser.start (ReadyTokens.ofList ts))
        (parseTokens ts).2 tries ∧
      (∀ t : Try ReadyTokens, t.Within tries →
        t.run.read = (Grammar.statement Grammar.expression).run t.run.start ∧
        t.run.next = ((Grammar.attempt Grammar.expression).run t.run.start).2.advance) ∧
      ∀ n s, (parseTokens ts).2.reports[n]? = some (.parsed s) →
        s ∈ (parseTokens ts).1.postorder ∨
          ∃ t : Try ReadyTokens, t.Within tries ∧ t.Fails ∧ t.Reports n := by
  have hframe := frame_parse (ReadyTokens.ofList ts)
  have heof := kind_current_parse (ReadyTokens.ofList ts)
  have hlast := Cursor.current_of_reaches hframe.cursor heof
  obtain ⟨tries, hread⟩ := exists_isReadBy (ReadyTokens.ofList ts)
  rw [ReadyTokens.drain_eq] at hlast hread
  refine ⟨hlast, heof, hframe.depth, ?_, tries, hread, fun t ht => hread.runs rfl ht, fun n s hs => ?_⟩
  · by_cases hover : (parseTokens ts).2.HasOverrun
    · obtain ⟨c, hc⟩ := exists_gaveUp_parse hover
      obtain ⟨before, htokens, hgiven⟩ := hc.exists_givenUp
      rw [ReadyTokens.drain_eq] at htokens hgiven
      exact .inr ⟨before, c.tokens, htokens, hgiven⟩
    · exact .inl fun d hd hdeep => hover ⟨d, hd, fault_eq_of_isTooDeep hd hdeep⟩
  · refine hread.saved_or_lost ?_ hs
    rw [Parser.reports_start]
    exact Nat.zero_le n

/-- The block gives up the input, and the parenthesis around it is never closed. -/
example :
    (parseTokens (Scanner.ofString
        ("(if (a) \x7b b " ++ String.ofList (List.replicate 62 '-') ++ "c \x7d)") "shell").tokens
      ).2.diagnostics.toList.map Diagnostic.fault =
      [.tooDeep 64, .unexpected .closeParen .eof] := by
  decide +kernel

end MonkeyFrontEnd
