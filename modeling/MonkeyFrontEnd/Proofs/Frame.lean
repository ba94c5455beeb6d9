import MonkeyFrontEnd.Proofs.Tokens

/-!
What every rule leaves alone. Whatever a rule makes of its input, the cursor has only moved on, the
diagnostics recorded before are a prefix of those recorded after, and as many expressions are open
as before. The rules are given the rule for expressions; if that one keeps this frame, so do they,
and `framed_expressionAt` closes the circle by induction on the room.
-/

namespace MonkeyFrontEnd

variable {σ : Type} [TokenSource σ] {α β : Type}

/-- What a step from `p` to `q` may have changed, apart from the log of events. -/
structure Frame (p q : Parser σ) : Prop where
  cursor : p.cursor.Reaches q.cursor
  depth : q.depth = p.depth
  diagnostics : p.diagnostics.toList <+: q.diagnostics.toList

namespace Frame

variable {p q r : Parser σ}

theorem refl (p : Parser σ) : Frame p p := ⟨.here, rfl, List.prefix_refl _⟩

theorem trans (hpq : Frame p q) (hqr : Frame q r) : Frame p r :=
  ⟨hpq.cursor.trans hqr.cursor, hqr.depth.trans hpq.depth, hpq.diagnostics.trans hqr.diagnostics⟩

theorem advance (p : Parser σ) : Frame p p.advance :=
  ⟨.onward .here, rfl, List.prefix_refl _⟩

theorem record (p : Parser σ) (d : Diagnostic) : Frame p (p.record d) :=
  ⟨.here, rfl, by simp⟩

theorem complete (p : Parser σ) (s : Stmt) : Frame p (p.complete s) :=
  ⟨.here, rfl, List.prefix_refl _⟩

theorem skipToEnd (p : Parser σ) : Frame p p.skipToEnd := by
  fun_induction Parser.skipToEnd p with
  | case1 p _ => exact refl p
  | case2 p _ ih => exact (advance p).trans ih

/-- An expression that was entered and left again has kept the frame of what surrounds it. -/
theorem leave (h : Frame { p with depth := p.depth + 1 } q) : Frame p q.leave :=
  ⟨h.cursor, by simp [Parser.leave, h.depth], h.diagnostics⟩

theorem tokens_suffix (h : Frame p q) : q.tokens <:+ p.tokens := h.cursor.tokens_suffix

end Frame

namespace Action

def Framed (x : Action σ α) : Prop := ∀ p, Frame p (x.run p).2

theorem framed_pure (a : α) : Framed (pure a : Action σ α) := Frame.refl

theorem Framed.bind {x : Action σ α} {f : α → Action σ β} (hx : x.Framed)
    (hf : ∀ a, (f a).Framed) : (x >>= f).Framed :=
  fun p => (hx p).trans (hf _ _)

theorem framed_takeSemicolon : (takeSemicolon : Action σ Unit).Framed := by
  intro p
  rw [run_takeSemicolon]
  by_cases h : p.peek.kind = .semicolon
  · simp only [h, if_true]
    exact Frame.advance p
  · simp only [h, if_false]
    exact Frame.refl p

end Action

namespace Builder

def Framed (b : Builder σ α) : Prop := ∀ p, Frame p (b.run p).2

theorem framed_pure (a : α) : Framed (pure a : Builder σ α) := Frame.refl

theorem framed_throw (d : Diagnostic) : Framed (throw d : Builder σ α) := Frame.refl

theorem framed_ofAction {x : Action σ α} (hx : x.Framed) : Framed (ofAction x) := hx

theorem framed_current : Framed (current : Builder σ Token) := Frame.refl

theorem framed_peek : Framed (peek : Builder σ Token) := Frame.refl

theorem framed_advance : Framed (advance : Builder σ Token) := Frame.advance

theorem framed_takeSemicolon : Framed (takeSemicolon : Builder σ Unit) :=
  framed_ofAction Action.framed_takeSemicolon

theorem Framed.bind {b : Builder σ α} {f : α → Builder σ β} (hb : b.Framed)
    (hf : ∀ a, (f a).Framed) : (b >>= f).Framed := by
  intro p
  have hp := hb p
  rw [run_bind]
  rcases hrun : b.run p with ⟨_ | a, q⟩
  · simpa [hrun] using hp
  · exact Frame.trans (by simpa [hrun] using hp) (hf a q)

theorem framed_expect (kind : Kind) : Framed (expect kind : Builder σ Token) := by
  intro p
  rw [run_expect]
  by_cases h : p.peek.kind = kind
  · simp only [h, if_true]
    exact Frame.advance p
  · simp only [h, if_false]
    exact Frame.refl p

end Builder

namespace Grammar

section

open Builder (current peek advance expect ofAction)

variable (expr : Precedence → Builder σ Expr)

/-- What follows the first block of an `if`. -/
def afterConsequence (token : Token) (condition : Expr) (consequence : Block) : Builder σ Expr := do
  let ahead ← peek
  if ahead.kind = .elseWord then
    let _ ← advance
    let _ ← expect .openCurly
    let alternative ← ofAction (block expr)
    return .ifElse token condition consequence alternative
  else
    return .ifThen token condition consequence

/-- What follows the condition of an `if`. -/
def afterCondition (token : Token) (condition : Expr) : Builder σ Expr := do
  let _ ← expect .closeParen
  let _ ← expect .openCurly
  let consequence ← ofAction (block expr)
  afterConsequence expr token condition consequence

theorem conditional_eq : conditional expr = (do
    let token ← current
    let _ ← expect .openParen
    let _ ← advance
    let condition ← expr .lowest
    afterCondition expr token condition) := rfl

end

open Builder (Framed framed_pure framed_throw framed_ofAction framed_current framed_peek
  framed_advance framed_takeSemicolon framed_expect)

section

variable {expr : Precedence → Builder σ Expr} (hexpr : ∀ limit, (expr limit).Framed)

include hexpr

theorem framed_letStatement : (letStatement expr).Framed := by
  refine framed_current.bind fun _ => ?_
  refine (framed_expect _).bind fun _ => ?_
  refine (framed_expect _).bind fun _ => ?_
  refine framed_advance.bind fun _ => ?_
  refine (hexpr _).bind fun _ => ?_
  exact framed_takeSemicolon.bind fun _ => framed_pure _

theorem framed_returnStatement : (returnStatement expr).Framed := by
  refine framed_current.bind fun _ => ?_
  apply framed_peek.bind
  intro ahead
  split
  · exact framed_advance.bind fun _ => framed_pure _
  · split
    · exact framed_pure _
    · refine framed_advance.bind fun _ => ?_
      refine (hexpr _).bind fun _ => ?_
      exact framed_takeSemicolon.bind fun _ => framed_pure _

theorem framed_expressionStatement : (expressionStatement expr).Framed := by
  refine framed_current.bind fun _ => ?_
  refine (hexpr _).bind fun _ => ?_
  exact framed_takeSemicolon.bind fun _ => framed_pure _

theorem framed_statement : (statement expr).Framed := by
  apply framed_current.bind
  intro token
  split
  · exact framed_letStatement hexpr
  · split
    · exact framed_returnStatement hexpr
    · exact framed_expressionStatement hexpr

omit hexpr in
theorem framed_recover (d : Diagnostic) : (recover d : Action σ Unit).Framed := by
  refine Action.Framed.bind (fun p => Frame.record p d) fun _ => ?_
  split
  · exact Frame.skipToEnd
  · exact Action.framed_takeSemicolon

theorem framed_attempt : (attempt expr).Framed := by
  apply Action.Framed.bind (framed_statement hexpr)
  intro outcome
  cases outcome with
  | ok s => exact Action.Framed.bind (fun p => Frame.complete p s) fun _ => Action.framed_pure _
  | error d => exact (framed_recover d).bind fun _ => Action.framed_pure _

theorem framed_statements (closing : Option Kind) : (statements expr closing).Framed := by
  intro p
  change Frame p (statementsFrom expr closing [] p).2
  fun_induction statementsFrom expr closing [] p with
  | case1 _ p _ => exact Frame.refl p
  | case2 _ p _ _ ih => exact ((framed_attempt hexpr p).trans (Frame.advance _)).trans ih

theorem framed_block : (block expr).Framed :=
  Action.Framed.bind Frame.advance fun _ =>
    (framed_statements hexpr _).bind fun _ => Action.framed_pure _

theorem framed_program : (program expr).Framed :=
  (framed_statements hexpr _).bind fun _ => Action.framed_pure _

theorem framed_unary : (unary expr).Framed :=
  framed_advance.bind fun _ => (hexpr _).bind fun _ => framed_pure _

theorem framed_group : (group expr).Framed := by
  refine framed_advance.bind fun _ => ?_
  refine (hexpr _).bind fun _ => ?_
  exact (framed_expect _).bind fun _ => framed_pure _

theorem framed_afterConsequence (token : Token) (condition : Expr) (consequence : Block) :
    (afterConsequence expr token condition consequence).Framed := by
  apply framed_peek.bind
  intro ahead
  split
  · refine framed_advance.bind fun _ => ?_
    refine (framed_expect _).bind fun _ => ?_
    exact (framed_ofAction (framed_block hexpr)).bind fun _ => framed_pure _
  · exact framed_pure _

theorem framed_afterCondition (token : Token) (condition : Expr) :
    (afterCondition expr token condition).Framed := by
  refine (framed_expect _).bind fun _ => ?_
  refine (framed_expect _).bind fun _ => ?_
  exact (framed_ofAction (framed_block hexpr)).bind (framed_afterConsequence hexpr token condition)

theorem framed_conditional : (conditional expr).Framed := by
  rw [conditional_eq]
  refine framed_current.bind fun token => ?_
  refine (framed_expect _).bind fun _ => ?_
  refine framed_advance.bind fun _ => ?_
  exact (hexpr _).bind (framed_afterCondition hexpr token)

omit hexpr in
theorem framed_integer : (integer : Builder σ Expr).Framed := by
  refine framed_current.bind fun _ => ?_
  split
  · exact framed_pure _
  · exact framed_throw _

theorem framed_opening : (opening expr).Framed := by
  refine framed_current.bind fun _ => ?_
  split
  · exact framed_current.bind fun _ => framed_pure _
  · exact framed_integer
  · exact framed_current.bind fun _ => framed_pure _
  · exact framed_unary hexpr
  · exact framed_group hexpr
  · exact framed_conditional hexpr
  · exact framed_throw _

theorem framed_binary (left : Expr) : (binary expr left).Framed :=
  framed_advance.bind fun _ => (hexpr _).bind fun _ => framed_pure _

theorem framed_join (limit : Precedence) (left : Expr) : (join expr limit left).Framed := by
  intro p
  change Frame p (joinFrom expr limit left p).2
  fun_induction joinFrom expr limit left p with
  | case1 left p _ _ _ _ ih =>
    exact ((Frame.advance p).trans (framed_binary hexpr left _)).trans ih
  | case2 left p _ _ _ _ => exact (Frame.advance p).trans (framed_binary hexpr left _)
  | case3 _ p _ => exact Frame.refl p

theorem framed_body (limit : Precedence) : (body expr limit).Framed :=
  (framed_opening hexpr).bind fun left => framed_join hexpr limit left

end

theorem framed_expressionAt (room : Nat) (limit : Precedence) :
    (expressionAt room limit : Builder σ Expr).Framed := by
  induction room generalizing limit with
  | zero => exact Frame.refl
  | succ room ih =>
    intro p
    rw [run_expressionAt_succ]
    exact (framed_body ih limit _).leave

theorem framed_expression (limit : Precedence) : (expression limit : Builder σ Expr).Framed :=
  fun p => framed_expressionAt p.room limit p

end Grammar

end MonkeyFrontEnd
