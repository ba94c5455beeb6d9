import MonkeyFrontEnd.Proofs.Completeness

/-!
Where there is no room. An admissible form that nests deeper than the room that is left comes, at some
expression inside, to the point where no further one may be entered. Outside of blocks the whole rule
fails there; a block that it stands in records the failure and gives up the rest of the input. So a
form without an `if` fails and leaves nothing recorded, and a list of statements keeps exactly those
before the first that does not fit (`overrun_statements`).
-/

namespace MonkeyFrontEnd

variable {σ : Type} [TokenSource σ] {α β : Type}

/-- The expression holds an `if`. -/
def Phrase.branches : Phrase → Bool
  | .identifier _ | .integer _ | .boolean _ => false
  | .unary _ operand => operand.branches
  | .binary left _ right => left.branches || right.branches
  | .group _ inner _ => inner.branches
  | .ifThen .. | .ifElse .. => true

/-- The value of the statement holds an `if`. -/
def Sentence.branches (s : Sentence) : Bool := s.value?.any (·.1.branches)

/-- Too deep nesting has been recorded. -/
def Parser.HasOverrun (p : Parser σ) : Prop :=
  ∃ d ∈ p.diagnostics.toList, d.fault = .tooDeep Parser.nestingLimit

theorem Frame.hasOverrun {p q : Parser σ} (h : Frame p q) (hp : p.HasOverrun) : q.HasOverrun := by
  obtain ⟨d, hd, hfault⟩ := hp
  exact ⟨d, h.diagnostics.subset hd, hfault⟩

theorem Parser.current_skipToEnd (p : Parser σ) : p.skipToEnd.current.kind = .eof :=
  left_eq_zero_iff.1 p.left_skipToEnd

namespace Builder

/-- It fails for too deep nesting and has recorded nothing. -/
def FailsTooDeep (b : Builder σ α) (p : Parser σ) : Prop :=
  ∃ d q, b.run p = (.error d, q) ∧ d.fault = .tooDeep Parser.nestingLimit ∧
    q.diagnostics = p.diagnostics

/-- It fails for too deep nesting, or, as only an `if` makes possible, a block inside has recorded
that. -/
def Overruns (branches : Bool) (b : Builder σ α) (p : Parser σ) : Prop :=
  b.FailsTooDeep p ∨ branches = true ∧ (b.run p).2.HasOverrun

variable {c c' : Bool} {b : Builder σ α} {f : α → Builder σ β} {p m : Parser σ}

theorem Overruns.mono (hc : c = true → c' = true) (h : b.Overruns c p) : b.Overruns c' p :=
  h.imp_right (And.imp_left hc)

/-- What is done afterwards does not undo it. -/
theorem Overruns.bind (hf : ∀ a, (f a).Framed) (h : b.Overruns c p) : (b >>= f).Overruns c p := by
  rcases h with ⟨d, q, hrun, hfault, hquiet⟩ | ⟨hc, h⟩
  · exact .inl ⟨d, q, run_bind_of_error hrun, hfault, hquiet⟩
  · refine .inr ⟨hc, ?_⟩
    rw [run_bind]
    rcases hrun : b.run p with ⟨_ | a, q⟩ <;> rw [hrun] at h
    · exact h
    · exact (hf a q).hasOverrun h

/-- What is done before, if nothing is recorded by it, does not prevent it. -/
theorem Overruns.of_run_eq {r : Builder σ α} (hrun : b.run p = r.run m)
    (hquiet : m.diagnostics = p.diagnostics) (h : r.Overruns c m) : b.Overruns c p := by
  unfold Overruns FailsTooDeep
  rw [hrun, ← hquiet]
  exact h

end Builder

namespace Grammar

open Builder (Overruns framed_pure framed_expect framed_takeSemicolon framed_ofAction)

/-- The rule cannot read any admissible form that nests deeper than the room. -/
def Overrun (expr : Precedence → Builder σ Expr) (room : Nat) : Prop :=
  ∀ (w : Phrase) (limit : Precedence) (p : Parser σ) (rest : List Token),
    p.tokens = w.tokens ++ rest → w.fits (headKind rest) → room < w.nesting →
    limit < w.strength → ¬ limit < (headKind rest).precedence →
    (expr limit).Overruns w.branches p

section

variable {expr : Precedence → Builder σ Expr} {p : Parser σ}

theorem run_conditional (h : p.peek.kind = .openParen) :
    (conditional expr).run p =
      (expr .lowest >>= afterCondition expr p.current).run p.advance.advance := by
  rw [conditional_eq, Builder.run_current_bind, Builder.run_expect_bind h, Builder.run_advance_bind]

theorem run_afterCondition {token : Token} {condition : Expr} (hclose : p.peek.kind = .closeParen)
    (hcurly : p.advance.peek.kind = .openCurly) :
    (afterCondition expr token condition).run p =
      (Builder.ofAction (block expr) >>= afterConsequence expr token condition).run
        p.advance.advance := by
  rw [afterCondition, Builder.run_expect_bind hclose, Builder.run_expect_bind hcurly]

theorem run_afterConsequence {token : Token} {condition : Expr} {consequence : Block}
    (helse : p.peek.kind = .elseWord) (hcurly : p.advance.peek.kind = .openCurly) :
    (afterConsequence expr token condition consequence).run p =
      (Builder.ofAction (block expr) >>= fun alternative =>
        pure (.ifElse token condition consequence alternative)).run p.advance.advance := by
  rw [afterConsequence, Builder.run_peek_bind, if_pos helse, Builder.run_advance_bind,
    Builder.run_expect_bind hcurly]

end

section

variable {expr : Precedence → Builder σ Expr} (hexpr : ∀ limit, (expr limit).Framed) {room : Nat}
  (hcomplete : Complete expr room) (hoverrun : Overrun expr room) {p : Parser σ}
  {rest : List Token}

/-! ## Statements -/

section

include hoverrun

theorem overruns_statement {s : Sentence} (hp : p.tokens = s.tokens ++ rest)
    (hfits : s.fits (headKind rest)) (hnesting : room < s.nesting) :
    (statement expr).Overruns s.branches p := by
  cases hvalue : s.value? with
  | none =>
    cases s with
    | bareReturn => exact absurd hnesting (Nat.not_lt_zero _)
    | _ => cases hvalue
  | some parts =>
    obtain ⟨value, semicolon, build⟩ := parts
    obtain ⟨hvalueFits, hends⟩ := Sentence.fits_of_value? hvalue hfits
    obtain ⟨m, hm, hquiet, hrun⟩ := exists_run_statement expr hvalue hp hfits
    have hstop := not_lowest_lt_of_endsValue hends
    have hstrength := Phrase.lowest_lt_strength hvalueFits
    rw [← headKind_semicolon_append] at hvalueFits hstop
    rw [Sentence.nesting_of_value? hvalue] at hnesting
    have hdeep := hoverrun value .lowest m _ hm hvalueFits hnesting hstrength hstop
    rw [Sentence.branches, hvalue, Option.any_some]
    exact .of_run_eq hrun hquiet (hdeep.bind fun _ => framed_takeSemicolon.bind fun _ => framed_pure _)

theorem overruns_unary {operator : Token} {operand : Phrase}
    (hp : p.tokens = operator :: (operand.tokens ++ rest)) (hfits : operand.fits (headKind rest))
    (hstrength : Precedence.unary < operand.strength) (hnesting : room < operand.nesting) :
    (unary expr).Overruns operand.branches p := by
  have hdeep := hoverrun operand .unary p.advance rest (Parser.ahead_of_tokens hp) hfits hnesting
    hstrength (Kind.not_unary_lt_precedence _)
  exact .of_run_eq (Builder.run_advance_bind _ p) rfl (hdeep.bind fun _ => framed_pure _)

theorem overruns_group {opener closer : Token} {inner : Phrase}
    (hp : p.tokens = opener :: (inner.tokens ++ closer :: rest)) (hfits : inner.fits .closeParen)
    (hclose : closer.kind = .closeParen) (hnesting : room < inner.nesting) :
    (group expr).Overruns inner.branches p := by
  have hdeep := hoverrun inner .lowest p.advance (closer :: rest) (Parser.ahead_of_tokens hp)
    (by rw [headKind_cons, hclose]; exact hfits) hnesting (Phrase.lowest_lt_strength hfits)
    (by rw [headKind_cons, hclose]; decide)
  exact .of_run_eq (Builder.run_advance_bind _ p) rfl
    (hdeep.bind fun _ => (framed_expect _).bind fun _ => framed_pure _)

end

/-- A statement that fails for too deep nesting is recorded, and the rest of the input is given up. -/
theorem run_attempt_of_failsTooDeep (h : (statement expr).FailsTooDeep p) :
    ∃ d q, (attempt expr).run p = (none, q) ∧ d.fault = .tooDeep Parser.nestingLimit ∧
      q.diagnostics = p.diagnostics.push d ∧ q.current.kind = .eof := by
  obtain ⟨d, m, hrun, hfault, hquiet⟩ := h
  refine ⟨d, _, run_attempt_of_error hrun, hfault, by rw [diagnostics_recover, hquiet], ?_⟩
  rw [recover, Action.run_bind, Action.run_record, hfault, Fault.isTooDeep, if_pos rfl,
    Action.run_skipToEnd]
  exact Parser.current_skipToEnd _

theorem hasOverrun_attempt (h : ((statement expr).run p).2.HasOverrun) :
    ((attempt expr).run p).2.HasOverrun := by
  rcases hrun : (statement expr).run p with ⟨d | s, m⟩ <;> rw [hrun] at h
  · rw [run_attempt_of_error hrun]
    exact (framed_recover d m).hasOverrun h
  · rw [run_attempt_of_ok hrun]
    exact (Frame.complete m s).hasOverrun h

include hexpr hcomplete hoverrun

/-- A list of statements one of which nests too deep. Those before it are kept, and it is what ends
the list; only a block inside may have recorded that before. -/
theorem overrun_statements {closing : Option Kind}
    (hstarts : ∀ k : Kind, k.startsStatement → ¬ closes closing k) (text : List Sentence)
    (hp : p.tokens = Sentence.tokensAll text ++ rest) (hfits : Sentence.fitsAll text (headKind rest))
    (hnesting : room < Sentence.nestingAll text) :
    (∃ d q, (statements expr closing).run p =
        (Sentence.treeAll (text.takeWhile (·.nesting ≤ room)), q) ∧
        d.fault = .tooDeep Parser.nestingLimit ∧ q.diagnostics = p.diagnostics.push d) ∨
      (∃ s ∈ text, s.branches) ∧ ((statements expr closing).run p).2.HasOverrun := by
  induction text generalizing p with
  | nil => exact absurd hnesting (Nat.not_lt_zero _)
  | cons s text ih =>
    rw [Sentence.fitsAll_cons_iff] at hfits
    rw [Sentence.tokensAll, List.append_assoc] at hp
    rw [← Sentence.headKind_tokensAll_append] at hfits
    have hkind : ¬ closes closing p.current.kind := by
      obtain ⟨ts, hts⟩ := s.exists_tokens_eq_cons
      rw [hts, List.cons_append] at hp
      rw [Parser.current_of_tokens hp]
      exact hstarts _ (Sentence.startsStatement_first hfits.1)
    rw [run_statements_of_not_closes expr hkind]
    by_cases hs : s.nesting ≤ room
    -- The statement is read and kept, and a later one is too deep.
    · obtain ⟨m, ⟨hm, hquiet⟩, hahead⟩ := exists_gives_statement hexpr hcomplete hp hfits.1 hs
      have hlater : room < Sentence.nestingAll text := by
        rw [Sentence.nestingAll] at hnesting
        omega
      rw [run_attempt_of_ok hm]
      rcases ih (p := (m.complete s.tree).advance) hahead hfits.2 hlater with
        ⟨d, q, hrun, hfault, hq⟩ | ⟨⟨u, hu, hbranches⟩, h⟩
      · refine .inl ⟨d, q, ?_, hfault, hq.trans (congrArg (·.push d) hquiet)⟩
        rw [hrun, List.takeWhile_cons_of_pos (by simpa using hs)]
        rfl
      · exact .inr ⟨⟨u, List.mem_cons_of_mem s hu, hbranches⟩, h⟩
    -- The statement itself is too deep: either it fails, and the rest of the input is given up, or a
    -- block inside has recorded that, and nothing done afterwards takes it back.
    · rcases overruns_statement hoverrun hp hfits.1 (Nat.lt_of_not_le hs) with h | ⟨hbranches, h⟩
      · obtain ⟨d, q, hrun, hfault, hq, heof⟩ := run_attempt_of_failsTooDeep h
        have hend : closes closing q.advance.current.kind := by
          rw [Parser.advance_of_eof heof, heof]
          rfl
        refine .inl ⟨d, q.advance, ?_, hfault, hq⟩
        rw [hrun, run_statements_of_closes expr hend,
          List.takeWhile_cons_of_neg (by simpa using hs)]
        rfl
      · refine .inr ⟨⟨s, List.mem_cons_self .., hbranches⟩, ?_⟩
        exact ((Frame.advance _).trans (framed_statements hexpr closing _)).hasOverrun
          (hasOverrun_attempt h)

theorem hasOverrun_block {b : Braces} (hp : p.tokens = b.tokens ++ rest)
    (hfits : b.fits (headKind rest)) (hnesting : room < b.nesting) :
    ((block expr).run p).2.HasOverrun := by
  obtain ⟨behind, hahead, -, hbody, -, -⟩ := exists_body_of_fits hp hfits
  rw [run_block]
  rcases overrun_statements hexpr hcomplete hoverrun
    (fun _ => not_closes_of_startsStatement) b.body (p := p.advance) hahead hbody
    (by cases b; exact hnesting) with ⟨d, q, hrun, hfault, hq⟩ | ⟨-, h⟩
  · rw [hrun]
    exact ⟨d, by simp [hq], hfault⟩
  · exact h

/-! ## Expressions -/

theorem overruns_condition {word opener closer : Token} {condition : Phrase}
    {consequence : Braces} {behind : List Token}
    (hp : p.tokens = word :: opener :: (condition.tokens ++ closer :: (consequence.tokens ++ behind)))
    (hopen : opener.kind = .openParen) (hcondition : condition.fits .closeParen)
    (hclose : closer.kind = .closeParen) (hconsequence : consequence.fits (headKind behind))
    (hnesting : room < max condition.nesting consequence.nesting) :
    (conditional expr).Overruns true p := by
  have hahead := Parser.ahead_of_tokens hp
  have hinner := Parser.ahead_of_tokens (p := p.advance) hahead
  have hpeek : p.peek.kind = .openParen := by rw [Parser.peek_of_ahead hahead, hopen]
  have hfits : condition.fits (headKind (closer :: (consequence.tokens ++ behind))) := by
    rw [headKind_cons, hclose]
    exact hcondition
  have hstrength := Phrase.lowest_lt_strength hcondition
  have hstop : ¬ Precedence.lowest <
      (headKind (closer :: (consequence.tokens ++ behind))).precedence := by
    rw [headKind_cons, hclose]
    decide
  refine .of_run_eq (run_conditional hpeek) rfl ?_
  by_cases hdeep : room < condition.nesting
  · exact ((hoverrun condition .lowest p.advance.advance _ hinner hfits hdeep hstrength hstop).mono
      fun _ => rfl).bind (framed_afterCondition hexpr p.current)
  · obtain ⟨m, ⟨hm, hquiet⟩, hrest⟩ := hcomplete condition .lowest p.advance.advance _ hinner hfits
      (Nat.le_of_not_lt hdeep) hstrength hstop
    have hblock := Parser.ahead_of_tokens (p := m.advance) hrest
    have hcurly := peek_of_braces (p := m.advance) hconsequence hblock
    have hparen : m.peek.kind = .closeParen := by rw [Parser.peek_of_ahead hrest, hclose]
    refine .of_run_eq (Builder.run_bind_of_ok hm) hquiet ?_
    refine .of_run_eq (run_afterCondition hparen hcurly) rfl ?_
    refine Overruns.bind (framed_afterConsequence hexpr p.current _) (.inr ⟨rfl, ?_⟩)
    exact hasOverrun_block hexpr hcomplete hoverrun (p := m.advance.advance) hblock hconsequence
      (by omega)

theorem overruns_ifElse {word opener closer otherwise : Token} {condition : Phrase}
    {consequence alternative : Braces}
    (hp : p.tokens = (Phrase.ifElse word opener condition closer consequence otherwise
      alternative).tokens ++ rest)
    (hfits : (Phrase.ifElse word opener condition closer consequence otherwise
      alternative).fits (headKind rest))
    (hnesting : room < max condition.nesting (max consequence.nesting alternative.nesting)) :
    (conditional expr).Overruns true p := by
  obtain ⟨-, hopen, hcondition, hclose, hconsequence, helse, halternative⟩ :=
    Phrase.fits_ifElse_iff.1 hfits
  simp only [Phrase.tokens, List.cons_append, List.append_assoc] at hp
  rw [← helse] at hconsequence
  by_cases hdeep : room < max condition.nesting consequence.nesting
  · exact overruns_condition hexpr hcomplete hoverrun hp hopen hcondition hclose hconsequence hdeep
  · obtain ⟨hparen, m, n, ⟨hm, hquiet⟩, hclosing, hcurly, ⟨hn, hnquiet⟩, hrest⟩ :=
      exists_gives_condition hexpr hcomplete hp hopen hcondition hclose hconsequence
        (Nat.le_of_not_lt hdeep)
    have hblock := Parser.ahead_of_tokens (p := n.advance) hrest
    have hcurly' := peek_of_braces (p := n.advance) halternative hblock
    have hpeek : n.peek.kind = .elseWord := by rw [Parser.peek_of_ahead hrest, helse]
    refine .of_run_eq (run_conditional hparen) rfl ?_
    refine .of_run_eq (Builder.run_bind_of_ok hm) hquiet ?_
    refine .of_run_eq (run_afterCondition hclosing hcurly) rfl ?_
    have hfirst : (Builder.ofAction (block expr)).run m.advance.advance = (.ok consequence.tree, n) := by
      rw [Builder.run_ofAction, hn]
    refine .of_run_eq (Builder.run_bind_of_ok hfirst) hnquiet ?_
    refine .of_run_eq (run_afterConsequence hpeek hcurly') rfl ?_
    refine Overruns.bind (fun _ => framed_pure _) (.inr ⟨rfl, ?_⟩)
    exact hasOverrun_block hexpr hcomplete hoverrun (p := n.advance.advance) hblock halternative
      (by omega)

/-- Of the forms that are no binary expression, those that nest too deep are not read by their
opening. -/
theorem overruns_opening {w : Phrase} (hw : w.strength = .call)
    (hp : p.tokens = w.tokens ++ rest) (hfits : w.fits (headKind rest))
    (hnesting : room + 1 < w.nesting) : (opening expr).Overruns w.branches p := by
  have hopener := opener?_current hp hfits
  have hleaf : ¬ room + 1 < 1 := by omega
  cases w with
  | identifier => exact absurd hnesting hleaf
  | integer => exact absurd hnesting hleaf
  | boolean => exact absurd hnesting hleaf
  | unary operator operand =>
    obtain ⟨-, hstrength, hoperand⟩ := Phrase.fits_unary_iff.1 hfits
    have hrule : (unary expr).Overruns operand.branches p :=
      overruns_unary hoverrun hp hoperand hstrength (Nat.lt_of_succ_lt_succ hnesting)
    exact .of_run_eq (by rw [opening, Builder.run_current_bind, hopener]; rfl) rfl hrule
  | binary => exact absurd hw (Phrase.strength_binary_ne_call _ _ _)
  | group opener inner closer =>
    obtain ⟨-, hinner, hclose⟩ := Phrase.fits_group_iff.1 hfits
    simp only [Phrase.tokens, List.cons_append, List.append_assoc, List.nil_append] at hp
    have hrule : (group expr).Overruns inner.branches p :=
      overruns_group hoverrun hp hinner hclose (Nat.lt_of_succ_lt_succ hnesting)
    exact .of_run_eq (by rw [opening, Builder.run_current_bind, hopener]; rfl) rfl hrule
  | ifThen word opener condition closer consequence =>
    obtain ⟨-, hopen, hcondition, hclose, hconsequence, -⟩ := Phrase.fits_ifThen_iff.1 hfits
    simp only [Phrase.tokens, List.cons_append, List.append_assoc] at hp
    have hrule := overruns_condition hexpr hcomplete hoverrun hp hopen hcondition hclose hconsequence
      (Nat.lt_of_succ_lt_succ hnesting)
    exact .of_run_eq (by rw [opening, Builder.run_current_bind, hopener]; rfl) rfl hrule
  | ifElse word opener condition closer consequence otherwise alternative =>
    have hrule := overruns_ifElse hexpr hcomplete hoverrun hp hfits (Nat.lt_of_succ_lt_succ hnesting)
    exact .of_run_eq (by rw [opening, Builder.run_current_bind, hopener]; rfl) rfl hrule

/-- In a binary form the right operand is one level further down, the left one is not. -/
theorem overruns_body {limit : Precedence} (w : Phrase) (hp : p.tokens = w.tokens ++ rest)
    (hfits : w.fits (headKind rest)) (hnesting : room + 1 < w.nesting) (hlimit : limit < w.strength)
    (hstop : ¬ w.strength < (headKind rest).precedence) :
    (body expr limit).Overruns w.branches p := by
  induction w using Phrase.spine_induction generalizing rest with
  | core w hw =>
    exact (overruns_opening hexpr hcomplete hoverrun hw hp hfits hnesting).bind
      (framed_join hexpr limit)
  | binary left operator right ih =>
    obtain ⟨-, hleft, hleftFits, hright, hrightFits⟩ := Phrase.fits_binary_iff.1 hfits
    rw [Phrase.tokens, List.append_assoc, List.cons_append] at hp
    change limit < operator.kind.precedence at hlimit
    have hleftLimit := Nat.lt_of_lt_of_le hlimit (Nat.le_of_not_lt hleft)
    by_cases hdeep : room + 1 < left.nesting
    · exact (ih hp hleftFits hdeep hleftLimit hleft).mono fun h => by simp [Phrase.branches, h]
    · have hrightDeep : room < right.nesting := by
        rw [Phrase.nesting] at hnesting
        omega
      obtain ⟨m, hm, hquiet, hjoin⟩ := exists_run_body hexpr hcomplete left hp hleftFits
        (Nat.le_of_not_lt hdeep) hleftLimit hleft
      have hpeek := Parser.peek_of_ahead hm
      have hahead := Parser.ahead_of_tokens (p := m.advance) hm
      have hoperand := hoverrun right operator.kind.precedence m.advance.advance rest hahead
        hrightFits hrightDeep hright hstop
      refine .of_run_eq hjoin hquiet ?_
      refine .of_run_eq (run_join_of_lt expr (by rw [hpeek]; exact hlimit) _) rfl ?_
      refine Overruns.bind (framed_join hexpr limit) ?_
      refine .of_run_eq (Builder.run_advance_bind _ m.advance) rfl ?_
      rw [Parser.current_advance, hpeek]
      refine (hoperand.mono fun h => ?_).bind fun _ => framed_pure _
      simp [Phrase.branches, h]

end

theorem overrun_expressionAt (room : Nat) :
    Overrun (expressionAt room : Precedence → Builder σ Expr) room := by
  induction room with
  | zero =>
    intro w limit p rest _ _ _ _ _
    exact .inl ⟨p.tooDeep, p, run_expressionAt_zero limit p, rfl, rfl⟩
  | succ room ih =>
    intro w limit p rest hp hfits hnesting hlimit hstop
    have hbody := overruns_body (framed_expressionAt room) (complete_expressionAt room) ih
      (p := { p with depth := p.depth + 1 }) w hp hfits hnesting hlimit
      fun h => hstop (Nat.lt_trans hlimit h)
    rcases hbody with ⟨d, q, hrun, hfault, hquiet⟩ | ⟨hbranches, h⟩
    · exact .inl ⟨d, q.leave, by rw [run_expressionAt_succ, hrun], hfault, hquiet⟩
    · refine .inr ⟨hbranches, ?_⟩
      rw [run_expressionAt_succ]
      exact h

end Grammar

end MonkeyFrontEnd
