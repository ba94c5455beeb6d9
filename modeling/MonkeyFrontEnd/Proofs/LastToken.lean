import MonkeyFrontEnd.Proofs.Completeness
import MonkeyFrontEnd.Proofs.OpenExpressions
import MonkeyFrontEnd.Proofs.Printing

/-!
Where the reading of an expression stops. A block may be left open at the end of the input, and then
reading stops on that end. A form that is admissible before a semicolon has no block left open, and
reading it stops on its last token, even where nothing follows. As for completeness the induction is
on the room for nesting; that the rules inside read what is written is known from there, so only the
places where they stop are followed.
-/

namespace MonkeyFrontEnd

variable {σ : Type} [TokenSource σ]

/-! ## Closed forms -/

/-- The form is complete in itself: it is admissible before a semicolon. -/
def Phrase.isClosed (w : Phrase) : Bool := w.fits .semicolon

theorem Braces.fits_of_fits_semicolon {b : Braces} (h : b.fits .semicolon) (next : Kind) :
    b.fits next := by
  obtain ⟨opening, body, closing⟩ := b
  cases closing with
  | some brace => exact h
  | none =>
    cases (fits_unclosed_iff.1 h).2.2

/-- Only an `else` could take a closed form for the beginning of another one. -/
theorem Phrase.fits_of_isClosed {next : Kind} (hnext : next ≠ .elseWord) :
    (w : Phrase) → w.isClosed → w.fits next
  | .identifier _, h => h
  | .integer _, h => h
  | .boolean _, h => h
  | .unary operator operand, h => by
    obtain ⟨hoperator, hstrength, hoperand⟩ := fits_unary_iff.1 h
    exact fits_unary_iff.2 ⟨hoperator, hstrength, operand.fits_of_isClosed hnext hoperand⟩
  | .binary left operator right, h => by
    obtain ⟨hoperator, hleft, hleftFits, hright, hrightFits⟩ := fits_binary_iff.1 h
    exact fits_binary_iff.2
      ⟨hoperator, hleft, hleftFits, hright, right.fits_of_isClosed hnext hrightFits⟩
  | .group _ _ _, h => h
  | .ifThen word opening condition closing consequence, h => by
    obtain ⟨hword, hopen, hcondition, hclose, hconsequence, -⟩ := fits_ifThen_iff.1 h
    exact fits_ifThen_iff.2 ⟨hword, hopen, hcondition, hclose,
      Braces.fits_of_fits_semicolon hconsequence next, hnext⟩
  | .ifElse word opening condition closing consequence otherwise alternative, h => by
    obtain ⟨hword, hopen, hcondition, hclose, hconsequence, helse, halternative⟩ :=
      fits_ifElse_iff.1 h
    exact fits_ifElse_iff.2 ⟨hword, hopen, hcondition, hclose, hconsequence, helse,
      Braces.fits_of_fits_semicolon halternative next⟩

theorem Phrase.kind_ne_eof_of_isClosed {w : Phrase} (h : w.isClosed) {t : Token} (ht : t ∈ w.tokens) :
    t.kind ≠ .eof := by
  obtain ⟨n, -, hpass⟩ := w.balanced h
  have hsemicolon (due : List Kind) : closersDue due [.unplaced .semicolon ";"] = some due :=
    closersDue_of_semicolon rfl (by decide)
  have hscan := hpass [] [.unplaced .semicolon ";"] rfl
  rw [hsemicolon] at hscan
  exact (kind_of_closersDue hscan (List.mem_append_left _ ht)).2.1

/-! ## The last token -/

/-- A rule gives one outcome. -/
theorem Builder.Gives.unique {α : Type} {b : Builder σ α} {p q q' : Parser σ} {a a' : α}
    (h : b.Gives p a q) (h' : b.Gives p a' q') : a = a' ∧ q = q' := by
  obtain ⟨ha, hq⟩ := Prod.mk.inj (h.1.symm.trans h'.1)
  exact ⟨Except.ok.inj ha, hq⟩

theorem Action.Gives.unique {α : Type} {x : Action σ α} {p q q' : Parser σ} {a a' : α}
    (h : x.Gives p a q) (h' : x.Gives p a' q') : a = a' ∧ q = q' :=
  Prod.mk.inj (h.1.symm.trans h'.1)

namespace Grammar

/-- Where the rule reads a closed form, it does not stop on the end of the input. -/
def StopsOnToken (expr : Precedence → Builder σ Expr) (room : Nat) : Prop :=
  ∀ ⦃w : Phrase⦄ ⦃limit : Precedence⦄ ⦃p q : Parser σ⦄ ⦃rest : List Token⦄,
    p.tokens = w.tokens ++ rest → w.fits (headKind rest) → w.nesting ≤ room →
    limit < w.strength → ¬ limit < (headKind rest).precedence →
    w.isClosed → (expr limit).Gives p w.tree q → q.current.kind ≠ .eof

section

variable {expr : Precedence → Builder σ Expr} (hexpr : ∀ limit, (expr limit).Framed) {room : Nat}
  (hcomplete : Complete expr room) (hstops : StopsOnToken expr room) {p q : Parser σ}
  {rest : List Token}

include hexpr hcomplete

theorem current_of_gives_block {b : Braces} (hp : p.tokens = b.tokens ++ rest)
    (hfits : b.fits (headKind rest)) (hnesting : b.nesting ≤ room) (hclosed : b.fits .semicolon)
    (h : (block expr).Gives p b.tree q) : q.current.kind = .closeCurly := by
  obtain ⟨opening, body, closing⟩ := b
  cases closing with
  | none =>
    cases (Braces.fits_unclosed_iff.1 hclosed).2.2
  | some brace =>
    obtain ⟨-, hbody, hbrace⟩ := Braces.fits_closed_iff.1 hfits
    rw [Braces.tokens, List.cons_append, List.append_assoc] at hp
    have hahead := Parser.ahead_of_tokens hp
    have hclosing : closes (some .closeCurly) (headKind (brace :: rest)) := by simp [closes, hbrace]
    obtain ⟨m, hm, hbehind⟩ := exists_gives_statements hexpr hcomplete hclosing
      (fun _ => not_closes_of_startsStatement) body (p := p.advance) hahead
      (by rw [headKind_cons, hbrace]; exact hbody) hnesting
    obtain ⟨ss, hss, -⟩ := gives_block_iff.1 h
    obtain ⟨-, rfl⟩ := Action.Gives.unique hss hm
    rw [Parser.current_of_tokens hbehind, hbrace]

omit hexpr in
/-- Behind the condition of an `if` and its parenthesis comes what was written there. -/
theorem tokens_of_gives_condition {word opener closer : Token} {condition : Phrase} {e : Expr}
    {m : Parser σ} {behind : List Token}
    (hp : p.tokens = word :: opener :: (condition.tokens ++ closer :: behind))
    (hcondition : condition.fits .closeParen) (hclose : closer.kind = .closeParen)
    (hnesting : condition.nesting ≤ room) (h : (expr .lowest).Gives p.advance.advance e m) :
    m.advance.advance.tokens = behind := by
  have hinner := Parser.ahead_of_tokens (p := p.advance) (Parser.ahead_of_tokens hp)
  obtain ⟨m', hm', hrest⟩ := hcomplete condition .lowest p.advance.advance _ hinner
    (by rw [headKind_cons, hclose]; exact hcondition) hnesting (Phrase.lowest_lt_strength hcondition)
    (by rw [headKind_cons, hclose]; decide)
  obtain ⟨-, rfl⟩ := h.unique hm'
  exact Parser.ahead_of_tokens (p := m.advance) hrest

theorem current_of_gives_ifThen {word opener closer : Token} {condition : Phrase}
    {consequence : Braces}
    (hp : p.tokens = (Phrase.ifThen word opener condition closer consequence).tokens ++ rest)
    (hfits : (Phrase.ifThen word opener condition closer consequence).fits (headKind rest))
    (hnesting : max condition.nesting consequence.nesting ≤ room)
    (hclosed : (Phrase.ifThen word opener condition closer consequence).isClosed)
    (h : (conditional expr).Gives p (Phrase.ifThen word opener condition closer consequence).tree q) :
    q.current.kind ≠ .eof := by
  obtain ⟨-, -, hcondition, hclose, hconsequence, -⟩ := Phrase.fits_ifThen_iff.1 hfits
  obtain ⟨-, -, -, -, hbraces, -⟩ := Phrase.fits_ifThen_iff.1 hclosed
  simp only [Phrase.tokens, List.cons_append, List.append_assoc] at hp
  rw [Nat.max_le] at hnesting
  obtain ⟨-, c, m, hm, -, -, b, n, hn, hbranch⟩ := (gives_conditional_iff hexpr).1 h
  have hblock := tokens_of_gives_condition hcomplete hp hcondition hclose hnesting.1 hm
  rcases hbranch with ⟨-, -, a, -, htree⟩ | ⟨-, htree, rfl⟩
  · cases htree
  · rw [Phrase.tree, Expr.ifThen.injEq] at htree
    rw [htree.2.2] at hn
    rw [current_of_gives_block hexpr hcomplete hblock hconsequence hnesting.2 hbraces hn]
    decide

theorem current_of_gives_ifElse {word opener closer otherwise : Token} {condition : Phrase}
    {consequence alternative : Braces}
    (hp : p.tokens = (Phrase.ifElse word opener condition closer consequence otherwise
      alternative).tokens ++ rest)
    (hfits : (Phrase.ifElse word opener condition closer consequence otherwise
      alternative).fits (headKind rest))
    (hnesting : max condition.nesting (max consequence.nesting alternative.nesting) ≤ room)
    (hclosed : (Phrase.ifElse word opener condition closer consequence otherwise
      alternative).isClosed)
    (h : (conditional expr).Gives p (Phrase.ifElse word opener condition closer consequence otherwise
      alternative).tree q) :
    q.current.kind ≠ .eof := by
  obtain ⟨-, -, hcondition, hclose, hconsequence, helse, halternative⟩ :=
    Phrase.fits_ifElse_iff.1 hfits
  obtain ⟨-, -, -, -, -, -, hbraces⟩ := Phrase.fits_ifElse_iff.1 hclosed
  simp only [Phrase.tokens, List.cons_append, List.append_assoc] at hp
  obtain ⟨-, c, m, hm, -, -, b, n, hn, hbranch⟩ := (gives_conditional_iff hexpr).1 h
  have hblock := tokens_of_gives_condition hcomplete hp hcondition hclose (by omega) hm
  rcases hbranch with ⟨-, -, a, ha, htree⟩ | ⟨-, htree, -⟩
  · rw [Phrase.tree, Expr.ifElse.injEq] at htree
    obtain ⟨n', hn', hrest⟩ := exists_gives_block hexpr hcomplete hblock
      (by rw [headKind_cons, helse]; exact hconsequence) (by omega)
    obtain ⟨-, rfl⟩ := hn.unique hn'
    have hbehind := Parser.ahead_of_tokens (p := n.advance) hrest
    rw [htree.2.2.2] at ha
    rw [current_of_gives_block hexpr hcomplete (p := n.advance.advance) hbehind halternative
      (by omega) hbraces ha]
    decide
  · cases htree

include hstops

/-- The forms that are no binary expression. -/
theorem current_of_gives_opening {w : Phrase} (hw : w.strength = .call)
    (hp : p.tokens = w.tokens ++ rest) (hfits : w.fits (headKind rest))
    (hnesting : w.nesting ≤ room + 1) (hclosed : w.isClosed) (h : (opening expr).Gives p w.tree q) :
    q.current.kind ≠ .eof := by
  have hopener := opener?_current hp hfits
  have hstart : p.current.kind ≠ .eof := by
    intro heof
    rw [heof] at hopener
    cases hopener
  rw [gives_opening_iff, hopener] at h
  cases w with
  | identifier =>
    obtain ⟨-, rfl⟩ := h
    exact hstart
  | integer =>
    obtain ⟨-, -, -, rfl⟩ := gives_integer_iff.1 h
    exact hstart
  | boolean =>
    obtain ⟨-, rfl⟩ := h
    exact hstart
  | unary operator operand =>
    obtain ⟨-, hstrength, hoperand⟩ := Phrase.fits_unary_iff.1 hfits
    obtain ⟨a, ha, htree⟩ := gives_unary_iff.1 h
    rw [Phrase.tree, Expr.unary.injEq] at htree
    rw [htree.2.2] at ha
    exact hstops (p := p.advance) (Parser.ahead_of_tokens hp) hoperand
      (Nat.le_of_succ_le_succ hnesting) hstrength (Kind.not_unary_lt_precedence _)
      (Phrase.fits_unary_iff.1 hclosed).2.2 ha
  | binary => exact absurd hw (Phrase.strength_binary_ne_call _ _ _)
  | group =>
    obtain ⟨m, -, hclose, rfl⟩ := (gives_group_iff hexpr).1 h
    rw [Parser.current_advance, hclose]
    decide
  | ifThen =>
    exact current_of_gives_ifThen hexpr hcomplete hp hfits (Nat.le_of_succ_le_succ hnesting)
      hclosed h
  | ifElse =>
    exact current_of_gives_ifElse hexpr hcomplete hp hfits (Nat.le_of_succ_le_succ hnesting)
      hclosed h

/-- What is joined last is a right operand, and that one is closed, too. -/
theorem current_of_gives_body {w : Phrase} {limit : Precedence} (hp : p.tokens = w.tokens ++ rest)
    (hfits : w.fits (headKind rest)) (hnesting : w.nesting ≤ room + 1) (hlimit : limit < w.strength)
    (hstop : ¬ limit < (headKind rest).precedence) (hclosed : w.isClosed)
    (h : (body expr limit).Gives p w.tree q) : q.current.kind ≠ .eof := by
  -- Where the whole form has been read, nothing more is joined.
  have hend {m : Parser σ} {left e : Expr} (hm : m.ahead = rest)
      (hjoin : (join expr limit left).Gives m e q) : m = q := by
    rw [gives_join_iff hexpr, ← Parser.headKind_ahead, hm, if_neg hstop] at hjoin
    exact hjoin.2
  cases w using Phrase.spine_induction with
  | core w hw =>
    obtain ⟨left, m, hleft, hjoin⟩ := (gives_body_iff hexpr).1 h
    obtain ⟨m', hm', hrest⟩ := exists_gives_opening hexpr hcomplete hw hp hfits hnesting
    obtain ⟨rfl, rfl⟩ := hleft.unique hm'
    obtain rfl := hend hrest hjoin
    exact current_of_gives_opening hexpr hcomplete hstops hw hp hfits hnesting hclosed hleft
  | binary left operator right =>
    obtain ⟨-, hleft, hleftFits, hright, hrightFits⟩ := Phrase.fits_binary_iff.1 hfits
    rw [Phrase.nesting, Nat.max_le] at hnesting
    rw [Phrase.tokens, List.append_assoc, List.cons_append] at hp
    change limit < operator.kind.precedence at hlimit
    have hstop' : ¬ operator.kind.precedence < (headKind rest).precedence :=
      fun h => hstop (Nat.lt_trans hlimit h)
    obtain ⟨m, hm, hquiet, hrun⟩ := exists_run_body hexpr hcomplete left hp hleftFits hnesting.1
      (Nat.lt_of_lt_of_le hlimit (Nat.le_of_not_lt hleft)) hleft
    have hpeek := Parser.peek_of_ahead hm
    have hahead := Parser.ahead_of_tokens (p := m.advance) hm
    have hjoin : (join expr limit left.tree).Gives m (Phrase.binary left operator right).tree q := by
      rw [Builder.Gives, ← hrun, hquiet]
      exact h
    rw [gives_join_iff hexpr, if_pos (by rw [hpeek]; exact hlimit)] at hjoin
    obtain ⟨joined, n, hbinary, hjoin⟩ := hjoin
    obtain ⟨e, he, -⟩ := gives_binary_iff.1 hbinary
    rw [Parser.current_advance, hpeek] at he
    obtain ⟨n', hn', hrest⟩ := hcomplete right _ m.advance.advance rest hahead hrightFits
      (Nat.le_of_succ_le_succ hnesting.2) hright hstop'
    obtain ⟨rfl, rfl⟩ := he.unique hn'
    obtain rfl := hend hrest hjoin
    exact hstops (p := m.advance.advance) hahead hrightFits (Nat.le_of_succ_le_succ hnesting.2) hright
      hstop' (Phrase.fits_binary_iff.1 hclosed).2.2.2.2 he

end

theorem stopsOnToken_expressionAt (room : Nat) :
    StopsOnToken (expressionAt room : Precedence → Builder σ Expr) room := by
  induction room with
  | zero =>
    intro w _ _ _ _ _ _ hnesting
    exact absurd hnesting (Nat.not_le_of_lt w.nesting_pos)
  | succ room ih =>
    intro w limit p q rest hp hfits hnesting hlimit hstop hclosed h
    obtain ⟨m, hm, rfl⟩ := (gives_expressionAt_succ_iff room).1 h
    exact current_of_gives_body (framed_expressionAt room) (complete_expressionAt room) ih
      (p := { p with depth := p.depth + 1 }) (q := m) hp hfits hnesting hlimit hstop hclosed hm

end Grammar

/-! ## The tokens around a form -/

namespace Cursor

variable {c d : Cursor σ} {ts : List Token} {t : Token}

/-- The cursor is on the first of some tokens, the others are behind it, and then comes `t`, which may
be the end of the input. -/
def Faces (c : Cursor σ) (ts : List Token) (t : Token) : Prop := ∀ i ≤ ts.length, c.nth i = ts.getD i t

theorem Faces.exists_tokens (h : c.Faces ts t) (hts : ∀ u ∈ ts, u.kind ≠ .eof) :
    ∃ rest, c.tokens = ts ++ rest ∧ headKind rest = t.kind := by
  induction ts generalizing c with
  | nil =>
    refine ⟨c.tokens, rfl, ?_⟩
    rw [← show c.current = t from h 0 (Nat.le_refl _)]
    by_cases heof : c.current.kind = .eof
    · rw [tokens_of_eof heof, heof, headKind_nil]
    · rw [tokens_of_ne_eof heof, headKind_cons]
  | cons u us ih =>
    have hcurrent : c.current = u := h 0 (Nat.zero_le _)
    obtain ⟨rest, hrest, hkind⟩ := ih (c := c.advance) (fun i hi => h (i + 1) (Nat.succ_le_succ hi))
      (fun v hv => hts v (List.mem_cons_of_mem _ hv))
    refine ⟨rest, ?_, hkind⟩
    rw [tokens_of_ne_eof (by rw [hcurrent]; exact hts u List.mem_cons_self), hcurrent, hrest]
    rfl

/-- A cursor that has moved on, with nothing but the tokens behind the faced ones left ahead of it,
has come to the last of them. -/
theorem Faces.of_reaches {rest : List Token} (h : c.Faces ts t) (hc : c.tokens = ts ++ rest)
    (hts : ts ≠ []) (hd : c.Reaches d) (htokens : d.tokens = d.current :: rest) :
    ts.getLast? = some d.current ∧ d.peek = t := by
  obtain ⟨n, hdrop, hnth⟩ := hd.exists_drop
  have hlength : rest.length + 1 = ts.length + rest.length - n := by
    rw [← List.length_append, ← hc, ← List.length_drop, ← hdrop, htokens, List.length_cons]
  have hpos := List.length_pos_iff.2 hts
  obtain rfl : n = ts.length - 1 := by omega
  constructor
  · rw [List.getLast?_eq_getElem?, show d.current = _ from hnth 0, h _ (by omega), Nat.add_zero,
      List.getD_eq_getElem?_getD, List.getElem?_eq_getElem (by omega), Option.getD_some]
  · rw [show d.peek = _ from hnth 1, h _ (by omega), List.getD_eq_getElem?_getD,
      List.getElem?_eq_none (by omega), Option.getD_none]

end Cursor

/-- A closed form whose operators bind more strongly than the limit is read where the expression may
be entered and the token behind it does not bind so strongly. Nothing is recorded, and reading stops
on the last token. -/
theorem Phrase.exists_run_expression {w : Phrase} {limit : Precedence} {p : Parser σ} {t : Token}
    (hp : p.cursor.Faces w.tokens t) (hclosed : w.isClosed) (hnesting : w.nesting ≤ p.room)
    (hlimit : limit < w.strength) (helse : t.kind ≠ .elseWord) (ht : ¬ limit < t.kind.precedence) :
    ∃ q, (Grammar.expression limit).run p = (.ok w.tree, q) ∧ q.diagnostics = p.diagnostics ∧
      q.depth = p.depth ∧ w.tokens.getLast? = some q.current ∧ q.peek = t := by
  obtain ⟨rest, htokens, hkind⟩ := hp.exists_tokens fun _ => Phrase.kind_ne_eof_of_isClosed hclosed
  have hfits : w.fits (headKind rest) := w.fits_of_isClosed (by rw [hkind]; exact helse) hclosed
  have hstop : ¬ limit < (headKind rest).precedence := by rw [hkind]; exact ht
  obtain ⟨q, hq, hahead⟩ := Grammar.complete_expressionAt p.room w limit p rest htokens hfits hnesting
    hlimit hstop
  have hcurrent := Grammar.stopsOnToken_expressionAt p.room htokens hfits hnesting hlimit hstop hclosed
    hq
  have hframe := Grammar.framed_expressionAt p.room limit p
  rw [hq.1] at hframe
  have hne : w.tokens ≠ [] := by
    obtain ⟨ts, hts⟩ := w.exists_tokens_eq_cons
    rw [hts]
    exact List.cons_ne_nil _ _
  obtain ⟨hlast, hpeek⟩ := hp.of_reaches htokens hne hframe.cursor
    (by rw [← hahead]; exact Parser.tokens_of_ne_eof hcurrent)
  exact ⟨q, hq.1, hq.2, hframe.depth, hlast, hpeek⟩

end MonkeyFrontEnd
