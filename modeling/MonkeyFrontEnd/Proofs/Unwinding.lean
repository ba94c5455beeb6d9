import MonkeyFrontEnd.Proofs.Overrun

/-!
Unwinding. Where an expression nests too deeply, the innermost list of statements that is being read
records it and gives up the rest of the input. Everything that is open around this list then finds
itself at the end of the input: a block is closed, an operand is complete, a parenthesis that is not
closed yet fails, and no rule begins another expression. So an input is given up once at most, and all
that is recorded afterwards is that it has ended (`Parser.Settled`).
-/

namespace MonkeyFrontEnd

variable {σ : Type} [TokenSource σ] {α β : Type}

/-! ## The end of the input -/

/-- The input has ended where something else has to follow. -/
def Fault.CutShort (fault : Fault) : Prop := ∃ expected, fault = .unexpected expected .eof

theorem Parser.passSemicolon_of_eof {p : Parser σ} (h : p.current.kind = .eof) :
    p.passSemicolon = p := by
  rw [passSemicolon, peek_of_eof h, h]
  rfl

namespace Builder

/-- Run at the end of the input, the builder stays there, records nothing, and fails only because the
input has ended. -/
def Unwinds (b : Builder σ α) : Prop :=
  ∀ p, p.current.kind = .eof → (b.run p).2 = p ∧ ∀ d, (b.run p).1 = .error d → d.fault.CutShort

theorem unwinds_pure (a : α) : (pure a : Builder σ α).Unwinds := fun _ _ => ⟨rfl, by simp⟩

theorem unwinds_expect_bind {kind : Kind} (hkind : kind ≠ .eof) (f : Token → Builder σ β) :
    (expect kind >>= f).Unwinds := by
  intro p hp
  have hpeek : p.peek.kind = .eof := by rw [Parser.peek_of_eof hp, hp]
  have hrun : (expect kind >>= f).run p =
      (.error ⟨.unexpected kind .eof, p.peek.span.start⟩, p) := by
    apply run_bind_of_error
    rw [run_expect, hpeek, if_neg hkind.symm]
  rw [hrun]
  refine ⟨rfl, ?_⟩
  rintro _ ⟨⟩
  exact ⟨kind, rfl⟩

theorem unwinds_takeSemicolon_bind {f : Unit → Builder σ β} (hf : (f ()).Unwinds) :
    (takeSemicolon >>= f).Unwinds := by
  intro p hp
  rw [run_takeSemicolon_bind, Parser.passSemicolon_of_eof hp]
  exact hf p hp

end Builder

/-! ## What is recorded -/

/-- Behind an input that was given up the parser stands at its end, and nothing but this end is
recorded. -/
structure Parser.Settled (p : Parser σ) : Prop where
  final : p.diagnostics.toList.Pairwise fun d e =>
    d.fault = .tooDeep Parser.nestingLimit → e.fault.CutShort
  spent : p.HasOverrun → p.current.kind = .eof

/-- The same for a run that may have failed: what it fails with is still to be recorded. -/
structure Settling (outcome : Except Diagnostic α × Parser σ) : Prop where
  settled : outcome.2.Settled
  failure : ∀ d, outcome.1 = .error d → outcome.2.HasOverrun → d.fault.CutShort

section

variable {p q : Parser σ}

theorem Parser.hasOverrun_congr (h : q.diagnostics = p.diagnostics) : q.HasOverrun ↔ p.HasOverrun := by
  unfold HasOverrun
  rw [h]

theorem Parser.Settled.of_quiet (hp : p.Settled) (hlive : ¬ p.HasOverrun)
    (h : q.diagnostics = p.diagnostics) : q.Settled :=
  ⟨by rw [h]; exact hp.final, fun hq => absurd ((hasOverrun_congr h).1 hq) hlive⟩

end

namespace Builder

/-- Run where nothing is given up, the builder leaves a state that is settled. -/
def Settles (b : Builder σ α) : Prop :=
  ∀ p, p.Settled → ¬ p.HasOverrun → Settling (b.run p)

variable {b : Builder σ α} {f : α → Builder σ β}

theorem settles_of_quiet (hb : ∀ p, (b.run p).2.diagnostics = p.diagnostics) : b.Settles :=
  fun p hp hlive => ⟨hp.of_quiet hlive (hb p),
    fun _ _ hq => absurd ((Parser.hasOverrun_congr (hb p)).1 hq) hlive⟩

theorem settling_bind {p : Parser σ} (hb : Settling (b.run p))
    (hf : ∀ a m, b.run p = (.ok a, m) → m.Settled → Settling ((f a).run m)) :
    Settling ((b >>= f).run p) := by
  rcases hrun : b.run p with ⟨d | a, m⟩ <;> rw [hrun] at hb
  · rw [run_bind_of_error hrun]
    refine ⟨hb.settled, ?_⟩
    rintro _ ⟨⟩
    exact hb.failure d rfl
  · rw [run_bind_of_ok hrun]
    exact hf a m hrun hb.settled

/-- What follows goes on or, if the input was given up, unwinds. -/
theorem Settles.bind (hb : b.Settles) (hf : ∀ a, (f a).Settles) (hunwinds : ∀ a, (f a).Unwinds) :
    (b >>= f).Settles := by
  refine fun p hp hlive => settling_bind (hb p hp hlive) fun a m _ hm => ?_
  by_cases hover : m.HasOverrun
  · obtain ⟨hstays, hfails⟩ := hunwinds a m (hm.spent hover)
    exact ⟨by rwa [hstays], fun d hd _ => hfails d hd⟩
  · exact hf a m hm hover

/-- Behind a step that records nothing the input is not given up. -/
theorem Settles.bind_of_quiet (hb : ∀ p, (b.run p).2.diagnostics = p.diagnostics)
    (hf : ∀ a, (f a).Settles) : (b >>= f).Settles := by
  refine fun p hp hlive => settling_bind (settles_of_quiet hb p hp hlive) fun a m hrun hm => ?_
  have hquiet := hb p
  rw [hrun] at hquiet
  exact hf a m hm (mt (Parser.hasOverrun_congr hquiet).1 hlive)

variable {inner : Token → Builder σ β} (h : ∀ t, (inner t).Settles)

include h

theorem settles_current_bind : (current >>= inner).Settles := .bind_of_quiet (fun _ => rfl) h

theorem settles_peek_bind : (peek >>= inner).Settles := .bind_of_quiet (fun _ => rfl) h

theorem settles_advance_bind : (advance >>= inner).Settles := .bind_of_quiet (fun _ => rfl) h

theorem settles_expect_bind (kind : Kind) : (expect kind >>= inner).Settles := by
  refine .bind_of_quiet (fun p => ?_) h
  rw [run_expect]
  split <;> rfl

end Builder

namespace Grammar

open Builder (Settles Unwinds takeSemicolon ofAction settles_of_quiet settles_current_bind
  settles_peek_bind settles_advance_bind settles_expect_bind unwinds_pure unwinds_expect_bind
  unwinds_takeSemicolon_bind)

variable {expr : Precedence → Builder σ Expr}

theorem settles_pure (a : α) : (pure a : Builder σ α).Settles := settles_of_quiet fun _ => rfl

/-! ### What unwinds -/

theorem unwinds_afterConsequence (token : Token) (condition : Expr) (consequence : Block) :
    (afterConsequence expr token condition consequence).Unwinds := by
  intro p hp
  rw [afterConsequence, Builder.run_peek_bind, Parser.peek_of_eof hp, hp, if_neg (by decide)]
  exact unwinds_pure _ p hp

theorem unwinds_afterCondition (token : Token) (condition : Expr) :
    (afterCondition expr token condition).Unwinds :=
  unwinds_expect_bind (by decide) _

theorem run_join_of_eof {p : Parser σ} (hp : p.current.kind = .eof) (limit : Precedence)
    (left : Expr) : (join expr limit left).run p = (.ok left, p) := by
  refine run_join_of_not_lt expr (fun hlimit => peek_ne_eof hlimit ?_) left
  rw [Parser.peek_of_eof hp, hp]

theorem unwinds_join (limit : Precedence) (left : Expr) : (join expr limit left).Unwinds := by
  intro p hp
  rw [run_join_of_eof hp]
  exact unwinds_pure left p hp

section

variable (hexpr : ∀ limit, (expr limit).Settles)

include hexpr

/-! ### Statements -/

theorem settles_value (g : Expr → Stmt) :
    (do let value ← expr .lowest; takeSemicolon; return g value : Builder σ Stmt).Settles := by
  refine (hexpr _).bind (fun e => ?_) fun e => unwinds_takeSemicolon_bind (unwinds_pure (g e))
  refine .bind_of_quiet (fun p => ?_) fun _ => settles_pure _
  rw [Builder.run_takeSemicolon]
  split <;> rfl

theorem settles_letStatement : (letStatement expr).Settles := by
  refine settles_current_bind fun token => ?_
  refine settles_expect_bind (fun name => ?_) .identifier
  refine settles_expect_bind (fun _ => ?_) .assign
  exact settles_advance_bind fun _ => settles_value hexpr _

theorem settles_returnStatement : (returnStatement expr).Settles := by
  refine settles_current_bind fun token => settles_peek_bind fun ahead => ?_
  split
  · exact settles_advance_bind fun _ => settles_pure _
  · split
    · exact settles_pure _
    · exact settles_advance_bind fun _ => settles_value hexpr _

theorem settles_statement : (statement expr).Settles := by
  refine settles_current_bind fun token => ?_
  split
  · exact settles_letStatement hexpr
  · split
    · exact settles_returnStatement hexpr
    · exact settles_current_bind fun _ => settles_value hexpr _

omit hexpr in
/-- Recovery gives up the input if the failure is for nesting. Where it was given up before there is
nothing to skip. -/
theorem settled_recover {d : Diagnostic} {m : Parser σ} (hm : m.Settled)
    (hd : m.HasOverrun → d.fault.CutShort) : ((recover d).run m).2.Settled := by
  constructor
  case final =>
    rw [diagnostics_recover, Array.toList_push]
    refine List.pairwise_append.2 ⟨hm.final, List.pairwise_singleton _ _, fun e he d' hd' hdeep => ?_⟩
    rw [List.mem_singleton.1 hd']
    exact hd ⟨e, he, hdeep⟩
  case spent =>
    rintro ⟨e, he, hdeep⟩
    rw [diagnostics_recover, Array.toList_push] at he
    rw [recover, Action.run_bind, Action.run_record]
    by_cases hfault : d.fault.isTooDeep
    · rw [if_pos hfault, Action.run_skipToEnd]
      exact Parser.current_skipToEnd _
    · rw [if_neg hfault, Action.run_takeSemicolon]
      have hover : m.HasOverrun := by
        rcases List.mem_append.1 he with he | he
        · exact ⟨e, he, hdeep⟩
        · rw [← List.mem_singleton.1 he, hdeep] at hfault
          exact absurd rfl hfault
      have heof : (m.record d).current.kind = .eof := hm.spent hover
      change (m.record d).passSemicolon.current.kind = .eof
      rw [Parser.passSemicolon_of_eof heof]
      exact heof

theorem settled_attempt {p : Parser σ} (hp : p.Settled) (hlive : ¬ p.HasOverrun) :
    ((attempt expr).run p).2.Settled := by
  have h := settles_statement hexpr p hp hlive
  rcases hrun : (statement expr).run p with ⟨d | s, m⟩ <;> rw [hrun] at h
  · rw [run_attempt_of_error hrun]
    exact settled_recover h.settled (h.failure d rfl)
  · rw [run_attempt_of_ok hrun]
    exact ⟨h.settled.final, h.settled.spent⟩

omit hexpr in
/-- A list of statements that is at the end of the input is at its own end. -/
theorem run_statements_of_eof {p : Parser σ} (hp : p.current.kind = .eof) (closing : Option Kind) :
    (statements expr closing).run p = ([], p) :=
  run_statements_of_closes expr (by simp [closes, hp])

theorem settled_statements (closing : Option Kind) {p : Parser σ} (hp : p.Settled)
    (hlive : ¬ p.HasOverrun) : ((statements expr closing).run p).2.Settled := by
  induction hleft : p.left using Nat.strongRecOn generalizing p with
  | ind n ih =>
    subst hleft
    by_cases hclose : closes closing p.current.kind
    · rw [run_statements_of_closes expr hclose]
      exact hp
    · have hnext := settled_attempt hexpr hp hlive
      rw [run_statements_of_not_closes expr hclose]
      by_cases hover : ((attempt expr).run p).2.HasOverrun
      · have heof := hnext.spent hover
        rw [Parser.advance_of_eof heof, run_statements_of_eof heof]
        exact hnext
      · exact ih _ (left_attempt_lt expr (current_ne_eof hclose)) (hnext.of_quiet hover rfl) hover rfl

theorem settles_block : (ofAction (block expr)).Settles := by
  intro p hp hlive
  have hbody := settled_statements hexpr (some .closeCurly) (p := p.advance)
    (hp.of_quiet hlive rfl) hlive
  exact ⟨hbody, by simp⟩

/-! ### Expressions -/

theorem settles_operand (limit : Precedence) (g : Expr → Expr) :
    (do let operand ← expr limit; return g operand : Builder σ Expr).Settles :=
  (hexpr limit).bind (fun _ => settles_pure _) fun _ => unwinds_pure _

theorem settles_unary : (unary expr).Settles :=
  settles_advance_bind fun _ => settles_operand hexpr _ _

theorem settles_binary (left : Expr) : (binary expr left).Settles :=
  settles_advance_bind fun _ => settles_operand hexpr _ _

theorem settles_group : (group expr).Settles := by
  refine settles_advance_bind fun _ => (hexpr _).bind (fun inner => ?_) fun inner => ?_
  · exact settles_expect_bind (fun _ => settles_pure _) _
  · exact unwinds_expect_bind (by decide) _

theorem settles_afterConsequence (token : Token) (condition : Expr) (consequence : Block) :
    (afterConsequence expr token condition consequence).Settles := by
  refine settles_peek_bind fun ahead => ?_
  split
  · refine settles_advance_bind fun _ => settles_expect_bind (fun _ => ?_) _
    exact (settles_block hexpr).bind (fun _ => settles_pure _) fun _ => unwinds_pure _
  · exact settles_pure _

theorem settles_afterCondition (token : Token) (condition : Expr) :
    (afterCondition expr token condition).Settles := by
  refine settles_expect_bind (fun _ => settles_expect_bind (fun _ => ?_) _) _
  exact (settles_block hexpr).bind (settles_afterConsequence hexpr token condition)
    (unwinds_afterConsequence token condition)

theorem settles_conditional : (conditional expr).Settles := by
  rw [conditional_eq]
  refine settles_current_bind fun token => settles_expect_bind (fun _ => ?_) _
  refine settles_advance_bind fun _ => ?_
  exact (hexpr _).bind (settles_afterCondition hexpr token) (unwinds_afterCondition token)

omit hexpr in
theorem settles_integer : (integer : Builder σ Expr).Settles := by
  refine settles_current_bind fun token => ?_
  split
  · exact settles_pure _
  · exact settles_of_quiet fun _ => rfl

theorem settles_opening : (opening expr).Settles := by
  refine settles_current_bind fun token => ?_
  split
  · exact settles_current_bind fun _ => settles_pure _
  · exact settles_integer
  · exact settles_current_bind fun _ => settles_pure _
  · exact settles_unary hexpr
  · exact settles_group hexpr
  · exact settles_conditional hexpr
  · exact settles_of_quiet fun _ => rfl

theorem settles_join (limit : Precedence) (left : Expr) : (join expr limit left).Settles := by
  intro p
  induction hleft : p.left using Nat.strongRecOn generalizing p left with
  | ind n ih =>
    subst hleft
    intro hp hlive
    by_cases hlimit : limit < p.peek.kind.precedence
    · rw [run_join_of_lt expr hlimit]
      refine Builder.settling_bind ?_ fun joined m hrun hm => ?_
      · exact settles_binary hexpr left _ (hp.of_quiet hlive rfl) hlive
      · have hlt := left_binary_lt expr left hlimit
        rw [hrun] at hlt
        by_cases hover : m.HasOverrun
        · rw [run_join_of_eof (hm.spent hover)]
          exact ⟨hm, by simp⟩
        · exact ih _ hlt joined m rfl hm hover
    · rw [run_join_of_not_lt expr hlimit]
      exact settles_pure left p hp hlive

theorem settles_body (limit : Precedence) : (body expr limit).Settles :=
  (settles_opening hexpr).bind (settles_join hexpr limit) (unwinds_join limit)

end

theorem settles_expressionAt (room : Nat) (limit : Precedence) :
    (expressionAt room limit : Builder σ Expr).Settles := by
  induction room generalizing limit with
  | zero => exact settles_of_quiet fun _ => rfl
  | succ room ih =>
    intro p hp hlive
    have h := settles_body ih limit { p with depth := p.depth + 1 } ⟨hp.final, hp.spent⟩ hlive
    exact ⟨⟨h.settled.final, h.settled.spent⟩, h.failure⟩

end Grammar

end MonkeyFrontEnd
