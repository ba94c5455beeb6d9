import MonkeyFrontEnd.Proofs.Frame
import MonkeyFrontEnd.Tree.MapTokens

/-!
Two parsers in step. They stand on tokens of the same kind and text, and a relation between their
states is kept by every primitive step. Then every rule keeps it, decides the same on both sides, and
gives trees that agree as far as tokens are compared, or diagnostics with the same fault on two
tokens that were current at the same time.

The relation may know how many expressions are open: the rules keep that number, and only
`alongside_expressionAt` changes it, for what is inside.
-/

namespace MonkeyFrontEnd

variable {σ τ : Type} [TokenSource σ] [TokenSource τ] {α α' β β' : Type}

/-- Which tokens two parsers may stand on at the same time, and the view in which these are equal.
Neither their kinds nor their texts differ. -/
structure Likeness where
  same : Token → Token → Prop
  view : Token → Token
  kind_eq : ∀ {t t'}, same t t' → t.kind = t'.kind
  text_eq : ∀ {t t'}, same t t' → t.text = t'.text
  view_eq : ∀ {t t'}, same t t' → view t = view t'

namespace Likeness

variable (like : Likeness)

/-- Two diagnostics with the same fault, at the starts of two tokens met at the same time. -/
def Diagnostics (d d' : Diagnostic) : Prop :=
  d.fault = d'.fault ∧
    ∃ t t', like.same t t' ∧ d.position = t.span.start ∧ d'.position = t'.span.start

/-- Trees that cannot be told apart in the view. -/
def Exprs (e e' : Expr) : Prop := e.mapTokens like.view = e'.mapTokens like.view

def Blocks (b b' : Block) : Prop := b.mapTokens like.view = b'.mapTokens like.view

def Stmts (s s' : Stmt) : Prop := s.mapTokens like.view = s'.mapTokens like.view

def StmtLists (ss ss' : List Stmt) : Prop :=
  Stmt.mapTokensAll like.view ss = Stmt.mapTokensAll like.view ss'

def Programs (a a' : Program) : Prop := a.mapTokens like.view = a'.mapTokens like.view

variable {like} in
/-- What one try gives comes in front. -/
theorem StmtLists.append {tried tried' : Option Stmt} {ss ss' : List Stmt}
    (htried : Option.Rel like.Stmts tried tried') (hss : like.StmtLists ss ss') :
    like.StmtLists (tried.toList ++ ss) (tried'.toList ++ ss') := by
  cases htried with
  | none => exact hss
  | some hs =>
    simp only [StmtLists, Option.toList_some, List.cons_append, List.nil_append, Stmt.mapTokensAll]
    rw [hs, hss]

/-- Both outcomes are values that are related, or both are diagnostics that are. -/
inductive Outcomes (rel : α → α' → Prop) : Except Diagnostic α → Except Diagnostic α' → Prop
  | ok {a : α} {a' : α'} (h : rel a a') : Outcomes rel (.ok a) (.ok a')
  | error {d d' : Diagnostic} (h : like.Diagnostics d d') : Outcomes rel (.error d) (.error d')

end Likeness

/-- Only equal tokens are alike, and they are seen as they are. -/
def Likeness.equality : Likeness where
  same := Eq
  view := id
  kind_eq := congrArg Token.kind
  text_eq := congrArg Token.text
  view_eq := id

namespace Likeness

theorem blocks_equality {b b' : Block} : equality.Blocks b b' ↔ b = b' := by
  simp [Blocks, equality]

theorem stmts_equality {s s' : Stmt} : equality.Stmts s s' ↔ s = s' := by
  simp [Stmts, equality]

theorem programs_equality {a a' : Program} : equality.Programs a a' ↔ a = a' := by
  simp [Programs, equality]

theorem diagnostics_equality {d d' : Diagnostic} (h : equality.Diagnostics d d') : d = d' := by
  obtain ⟨hfault, t, _, rfl, ht, ht'⟩ := h
  obtain ⟨fault, position⟩ := d
  obtain ⟨fault', position'⟩ := d'
  simp_all

end Likeness

/-- A relation between the states of two parsers, for each number of open expressions, that every
primitive step keeps. -/
structure Lockstep (like : Likeness) (R : Nat → Parser σ → Parser τ → Prop) : Prop where
  current : ∀ {n p q}, R n p q → like.same p.current q.current
  peek : ∀ {n p q}, R n p q → like.same p.peek q.peek
  advance : ∀ {n p q}, R n p q → R n p.advance q.advance
  record : ∀ {n p q d d'}, R n p q → like.Diagnostics d d' → R n (p.record d) (q.record d')
  complete : ∀ {n p q s s'}, R n p q → like.Stmts s s' → R n (p.complete s) (q.complete s')
  enter : ∀ {n p q}, R n p q →
    R (n + 1) { p with depth := p.depth + 1 } { q with depth := q.depth + 1 }
  leave : ∀ {n p q}, R (n + 1) p q → R n p.leave q.leave

/-- The two actions give values in `rel` and keep the relation `S`. -/
def Action.Alongside (S : Parser σ → Parser τ → Prop) (rel : α → α' → Prop) (x : Action σ α)
    (x' : Action τ α') : Prop :=
  ∀ p q, S p q → rel (x.run p).1 (x'.run q).1 ∧ S (x.run p).2 (x'.run q).2

/-- The two builders give values in `rel`, or fail alike, and keep the relation `S`. -/
def Builder.Alongside (like : Likeness) (S : Parser σ → Parser τ → Prop) (rel : α → α' → Prop)
    (b : Builder σ α) (b' : Builder τ α') : Prop :=
  ∀ p q, S p q → like.Outcomes rel (b.run p).1 (b'.run q).1 ∧ S (b.run p).2 (b'.run q).2

variable {like : Likeness} {S : Parser σ → Parser τ → Prop} {rel : α → α' → Prop}
  {rel' : β → β' → Prop}

namespace Action

theorem alongside_pure {a : α} {a' : α'} (h : rel a a') :
    Alongside S rel (pure a : Action σ α) (pure a' : Action τ α') :=
  fun _ _ hS => ⟨h, hS⟩

theorem Alongside.bind {x : Action σ α} {x' : Action τ α'} {f : α → Action σ β}
    {f' : α' → Action τ β'} (hx : Alongside S rel x x')
    (hf : ∀ a a', rel a a' → Alongside S rel' (f a) (f' a')) :
    Alongside S rel' (x >>= f) (x' >>= f') := by
  intro p q hS
  obtain ⟨ha, hS'⟩ := hx p q hS
  exact hf _ _ ha _ _ hS'

end Action

namespace Builder

theorem alongside_pure {a : α} {a' : α'} (h : rel a a') :
    Alongside like S rel (pure a : Builder σ α) (pure a' : Builder τ α') :=
  fun _ _ hS => ⟨.ok h, hS⟩

theorem alongside_throw {d d' : Diagnostic} (h : like.Diagnostics d d') :
    Alongside like S rel (throw d : Builder σ α) (throw d' : Builder τ α') :=
  fun _ _ hS => ⟨.error h, hS⟩

theorem Alongside.bind {b : Builder σ α} {b' : Builder τ α'} {f : α → Builder σ β}
    {f' : α' → Builder τ β'} (hb : Alongside like S rel b b')
    (hf : ∀ a a', rel a a' → Alongside like S rel' (f a) (f' a')) :
    Alongside like S rel' (b >>= f) (b' >>= f') := by
  intro p q hS
  obtain ⟨houtcome, hS'⟩ := hb p q hS
  rw [run_bind, run_bind]
  rcases hrun : b.run p with ⟨outcome, m⟩
  rcases hrun' : b'.run q with ⟨outcome', m'⟩
  rw [hrun, hrun'] at houtcome hS'
  cases houtcome with
  | ok ha => exact hf _ _ ha m m' hS'
  | error hd => exact ⟨.error hd, hS'⟩

theorem alongside_ofAction {x : Action σ α} {x' : Action τ α'} (hx : Action.Alongside S rel x x') :
    Alongside like S rel (ofAction x) (ofAction x') := by
  intro p q hS
  obtain ⟨ha, hS'⟩ := hx p q hS
  exact ⟨.ok ha, hS'⟩

end Builder

namespace Lockstep

variable {R : Nat → Parser σ → Parser τ → Prop} (hR : Lockstep like R) {n : Nat} {p : Parser σ}
  {q : Parser τ}

include hR

/-- Faults at the current token. -/
theorem diagnostics_current (h : R n p q) (fault : Fault) :
    like.Diagnostics ⟨fault, p.current.span.start⟩ ⟨fault, q.current.span.start⟩ :=
  ⟨rfl, p.current, q.current, hR.current h, rfl, rfl⟩

theorem skipToEnd (h : R n p q) : R n p.skipToEnd q.skipToEnd := by
  fun_induction Parser.skipToEnd p generalizing q with
  | case1 p heof =>
    have heof' : q.current.kind = .eof := by rw [← like.kind_eq (hR.current h), heof]
    rw [Parser.skipToEnd, dif_pos heof']
    exact h
  | case2 p heof ih =>
    have heof' : ¬ q.current.kind = .eof := by rwa [← like.kind_eq (hR.current h)]
    rw [Parser.skipToEnd.eq_def q, dif_neg heof']
    exact ih (hR.advance h)

theorem alongside_action_advance : Action.Alongside (R n) like.same Action.advance Action.advance :=
  fun _ _ h => ⟨hR.current h, hR.advance h⟩

theorem alongside_action_takeSemicolon :
    Action.Alongside (R n) Eq Action.takeSemicolon Action.takeSemicolon := by
  intro p q h
  rw [Action.run_takeSemicolon, Action.run_takeSemicolon, like.kind_eq (hR.peek h)]
  refine ⟨rfl, ?_⟩
  by_cases hsemicolon : q.peek.kind = .semicolon
  · simp only [hsemicolon, if_true]
    exact hR.advance h
  · simp only [hsemicolon, if_false]
    exact h

theorem alongside_current :
    Builder.Alongside like (R n) like.same Builder.current Builder.current :=
  fun _ _ h => ⟨.ok (hR.current h), h⟩

theorem alongside_peek : Builder.Alongside like (R n) like.same Builder.peek Builder.peek :=
  fun _ _ h => ⟨.ok (hR.peek h), h⟩

theorem alongside_advance :
    Builder.Alongside like (R n) like.same Builder.advance Builder.advance :=
  Builder.alongside_ofAction hR.alongside_action_advance

theorem alongside_takeSemicolon :
    Builder.Alongside like (R n) Eq Builder.takeSemicolon Builder.takeSemicolon :=
  Builder.alongside_ofAction hR.alongside_action_takeSemicolon

theorem alongside_expect (kind : Kind) :
    Builder.Alongside like (R n) like.same (Builder.expect kind) (Builder.expect kind) := by
  intro p q h
  have hkind := like.kind_eq (hR.peek h)
  rw [Builder.run_expect, Builder.run_expect]
  by_cases hexpected : q.peek.kind = kind
  · simp only [hkind, hexpected, if_true]
    exact ⟨.ok (hR.peek h), hR.advance h⟩
  · simp only [hkind, hexpected, if_false]
    exact ⟨.error ⟨rfl, p.peek, q.peek, hR.peek h, rfl, rfl⟩, h⟩

end Lockstep

namespace Grammar

open Builder (Alongside alongside_pure alongside_throw alongside_ofAction)

section

variable {R : Nat → Parser σ → Parser τ → Prop} {expr : Precedence → Builder σ Expr}
  {expr' : Precedence → Builder τ Expr} {n : Nat} (hR : Lockstep like R)
  (hexpr : ∀ limit, Alongside like (R n) like.Exprs (expr limit) (expr' limit))

include hR hexpr

theorem alongside_letStatement :
    Alongside like (R n) like.Stmts (letStatement expr) (letStatement expr') := by
  refine hR.alongside_current.bind fun t t' ht => ?_
  refine (hR.alongside_expect _).bind fun name name' hname => ?_
  refine (hR.alongside_expect _).bind fun _ _ _ => ?_
  refine hR.alongside_advance.bind fun _ _ _ => ?_
  refine (hexpr _).bind fun e e' he => ?_
  refine hR.alongside_takeSemicolon.bind fun _ _ _ => alongside_pure ?_
  rw [Likeness.Stmts, Stmt.mapTokens, Stmt.mapTokens, Identifier.mapToken, Identifier.mapToken,
    like.view_eq ht, like.view_eq hname, like.text_eq hname, he]

theorem alongside_returnStatement :
    Alongside like (R n) like.Stmts (returnStatement expr) (returnStatement expr') := by
  refine hR.alongside_current.bind fun t t' ht => ?_
  have hbare : like.Stmts (.bareReturn t) (.bareReturn t') :=
    congrArg Stmt.bareReturn (like.view_eq ht)
  refine hR.alongside_peek.bind fun ahead ahead' hahead => ?_
  rw [like.kind_eq hahead]
  split
  · exact hR.alongside_advance.bind fun _ _ _ => alongside_pure hbare
  · split
    · exact alongside_pure hbare
    · refine hR.alongside_advance.bind fun _ _ _ => ?_
      refine (hexpr _).bind fun e e' he => ?_
      refine hR.alongside_takeSemicolon.bind fun _ _ _ => alongside_pure ?_
      rw [Likeness.Stmts, Stmt.mapTokens, Stmt.mapTokens, like.view_eq ht, he]

theorem alongside_expressionStatement :
    Alongside like (R n) like.Stmts (expressionStatement expr) (expressionStatement expr') := by
  refine hR.alongside_current.bind fun t t' ht => ?_
  refine (hexpr _).bind fun e e' he => ?_
  refine hR.alongside_takeSemicolon.bind fun _ _ _ => alongside_pure ?_
  rw [Likeness.Stmts, Stmt.mapTokens, Stmt.mapTokens, like.view_eq ht, he]

theorem alongside_statement :
    Alongside like (R n) like.Stmts (statement expr) (statement expr') := by
  refine hR.alongside_current.bind fun t t' ht => ?_
  rw [like.kind_eq ht]
  split
  · exact alongside_letStatement hR hexpr
  · split
    · exact alongside_returnStatement hR hexpr
    · exact alongside_expressionStatement hR hexpr

omit hexpr in
theorem alongside_recover {d d' : Diagnostic} (h : like.Diagnostics d d') :
    Action.Alongside (R n) Eq (recover d) (recover d') := by
  have hrecord : Action.Alongside (R n) Eq (Action.record d) (Action.record d') :=
    fun _ _ hpq => ⟨rfl, hR.record hpq h⟩
  refine hrecord.bind fun _ _ _ => ?_
  rw [h.1]
  split
  · exact fun _ _ hpq => ⟨rfl, hR.skipToEnd hpq⟩
  · exact hR.alongside_action_takeSemicolon

theorem alongside_attempt :
    Action.Alongside (R n) (Option.Rel like.Stmts) (attempt expr) (attempt expr') := by
  refine Action.Alongside.bind (alongside_statement hR hexpr) fun outcome outcome' h => ?_
  cases h with
  | ok hs =>
    have hcomplete : Action.Alongside (R n) Eq (Action.complete _) (Action.complete _) :=
      fun _ _ hpq => ⟨rfl, hR.complete hpq hs⟩
    exact hcomplete.bind fun _ _ _ => Action.alongside_pure (.some hs)
  | error hd =>
    exact (alongside_recover hR hd).bind fun _ _ _ => Action.alongside_pure .none

theorem alongside_statements (closing : Option Kind) :
    Action.Alongside (R n) like.StmtLists (statements expr closing) (statements expr' closing) := by
  intro p q h
  -- The induction is on the moves left; both loops stop at the same tokens.
  induction hleft : p.left using Nat.strongRecOn generalizing p q with
  | ind left ih =>
    subst hleft
    have hkind := like.kind_eq (hR.current h)
    by_cases hclose : closes closing p.current.kind
    · rw [run_statements_of_closes expr hclose, run_statements_of_closes expr' (hkind ▸ hclose)]
      exact ⟨rfl, h⟩
    · obtain ⟨htried, hbehind⟩ := alongside_attempt hR hexpr p q h
      obtain ⟨hrest, hend⟩ := ih _ (left_attempt_lt expr (current_ne_eof hclose)) _ _
        (hR.advance hbehind) rfl
      rw [run_statements_of_not_closes expr hclose,
        run_statements_of_not_closes expr' (hkind ▸ hclose)]
      exact ⟨Likeness.StmtLists.append htried hrest, hend⟩

theorem alongside_block : Action.Alongside (R n) like.Blocks (block expr) (block expr') := by
  refine hR.alongside_action_advance.bind fun t t' ht => ?_
  refine (alongside_statements hR hexpr _).bind fun ss ss' hss => Action.alongside_pure ?_
  rw [Likeness.Blocks, Block.mapTokens, Block.mapTokens, like.view_eq ht, hss]

theorem alongside_program : Action.Alongside (R n) like.Programs (program expr) (program expr') :=
  (alongside_statements hR hexpr _).bind fun _ _ hss =>
    Action.alongside_pure (congrArg Program.mk hss)

theorem alongside_unary : Alongside like (R n) like.Exprs (unary expr) (unary expr') := by
  refine hR.alongside_advance.bind fun t t' ht => ?_
  refine (hexpr _).bind fun e e' he => alongside_pure ?_
  rw [Likeness.Exprs, Expr.mapTokens, Expr.mapTokens, like.view_eq ht, like.text_eq ht, he]

theorem alongside_group : Alongside like (R n) like.Exprs (group expr) (group expr') := by
  refine hR.alongside_advance.bind fun _ _ _ => ?_
  refine (hexpr _).bind fun e e' he => ?_
  exact (hR.alongside_expect _).bind fun _ _ _ => alongside_pure he

theorem alongside_afterCondition {t t' : Token} {c c' : Expr} (ht : like.same t t')
    (hc : like.Exprs c c') :
    Alongside like (R n) like.Exprs (afterCondition expr t c) (afterCondition expr' t' c') := by
  have hblock : Alongside like (R n) like.Blocks _ _ := alongside_ofAction (alongside_block hR hexpr)
  refine (hR.alongside_expect _).bind fun _ _ _ => ?_
  refine (hR.alongside_expect _).bind fun _ _ _ => ?_
  refine hblock.bind fun b b' hb => ?_
  refine hR.alongside_peek.bind fun ahead ahead' hahead => ?_
  rw [like.kind_eq hahead]
  split
  · refine hR.alongside_advance.bind fun _ _ _ => ?_
    refine (hR.alongside_expect _).bind fun _ _ _ => ?_
    refine hblock.bind fun a a' ha => alongside_pure ?_
    rw [Likeness.Exprs, Expr.mapTokens, Expr.mapTokens, like.view_eq ht, hc, hb, ha]
  · refine alongside_pure ?_
    rw [Likeness.Exprs, Expr.mapTokens, Expr.mapTokens, like.view_eq ht, hc, hb]

theorem alongside_conditional :
    Alongside like (R n) like.Exprs (conditional expr) (conditional expr') := by
  rw [conditional_eq, conditional_eq]
  refine hR.alongside_current.bind fun t t' ht => ?_
  refine (hR.alongside_expect _).bind fun _ _ _ => ?_
  refine hR.alongside_advance.bind fun _ _ _ => ?_
  exact (hexpr _).bind fun c c' hc => alongside_afterCondition hR hexpr ht hc

omit hexpr in
theorem alongside_integer :
    Alongside like (R n) like.Exprs (integer : Builder σ Expr) (integer : Builder τ Expr) := by
  refine hR.alongside_current.bind fun t t' ht => ?_
  rw [like.text_eq ht]
  split
  · exact alongside_pure (congrArg (Expr.integer · _) (like.view_eq ht))
  · exact alongside_throw ⟨rfl, t, t', ht, rfl, rfl⟩

theorem alongside_opening : Alongside like (R n) like.Exprs (opening expr) (opening expr') := by
  refine hR.alongside_current.bind fun t t' ht => ?_
  rw [like.kind_eq ht]
  split
  · refine hR.alongside_current.bind fun t t' ht => alongside_pure ?_
    simp only [Likeness.Exprs, Expr.mapTokens, Identifier.mapToken, like.view_eq ht,
      like.text_eq ht]
  · exact alongside_integer hR
  · refine hR.alongside_current.bind fun t t' ht => alongside_pure ?_
    rw [Likeness.Exprs, Expr.mapTokens, Expr.mapTokens, like.view_eq ht, like.kind_eq ht]
  · exact alongside_unary hR hexpr
  · exact alongside_group hR hexpr
  · exact alongside_conditional hR hexpr
  · exact alongside_throw ⟨rfl, t, t', ht, rfl, rfl⟩

theorem alongside_binary {left left' : Expr} (hleft : like.Exprs left left') :
    Alongside like (R n) like.Exprs (binary expr left) (binary expr' left') := by
  refine hR.alongside_advance.bind fun t t' ht => ?_
  rw [like.kind_eq ht]
  refine (hexpr _).bind fun e e' he => alongside_pure ?_
  rw [Likeness.Exprs, Expr.mapTokens, Expr.mapTokens, like.view_eq ht, like.text_eq ht, hleft, he]

theorem alongside_join (limit : Precedence) {left left' : Expr} (hleft : like.Exprs left left') :
    Alongside like (R n) like.Exprs (join expr limit left) (join expr' limit left') := by
  intro p q h
  -- Both loops join an operator or stop at the same tokens; the induction is on the moves left.
  induction hmoves : p.left using Nat.strongRecOn generalizing p q left left' with
  | ind moves ih =>
    subst hmoves
    have hkind := like.kind_eq (hR.peek h)
    by_cases hlimit : limit < p.peek.kind.precedence
    · obtain ⟨houtcome, hbehind⟩ := alongside_binary hR hexpr hleft _ _ (hR.advance h)
      have hlt := left_binary_lt expr left hlimit
      rw [run_join_of_lt expr hlimit, run_join_of_lt expr' (hkind ▸ hlimit), Builder.run_bind,
        Builder.run_bind]
      rcases hrun : (binary expr left).run p.advance with ⟨outcome, m⟩
      rcases hrun' : (binary expr' left').run q.advance with ⟨outcome', m'⟩
      rw [hrun, hrun'] at houtcome hbehind
      rw [hrun] at hlt
      cases houtcome with
      | ok he => exact ih _ hlt he m m' hbehind rfl
      | error hd => exact ⟨.error hd, hbehind⟩
    · rw [run_join_of_not_lt expr hlimit, run_join_of_not_lt expr' (hkind ▸ hlimit)]
      exact ⟨.ok hleft, h⟩

theorem alongside_body (limit : Precedence) :
    Alongside like (R n) like.Exprs (body expr limit) (body expr' limit) :=
  (alongside_opening hR hexpr).bind fun _ _ hleft => alongside_join hR hexpr limit hleft

end

theorem alongside_expressionAt {R : Nat → Parser σ → Parser τ → Prop} (hR : Lockstep like R)
    (room n : Nat) (limit : Precedence) :
    Alongside like (R n) like.Exprs (expressionAt room limit) (expressionAt room limit) := by
  induction room generalizing n limit with
  | zero => exact fun _ _ h => ⟨.error (hR.diagnostics_current h _), h⟩
  | succ room ih =>
    intro p q h
    rw [run_expressionAt_succ, run_expressionAt_succ]
    obtain ⟨houtcome, hinside⟩ := alongside_body hR (fun limit => ih (n + 1) limit) limit _ _
      (hR.enter h)
    exact ⟨houtcome, hR.leave hinside⟩

/-- Two parsers in step, both with the same room, read programs that agree in the view. -/
theorem alongside_program_expressionAt {R : Nat → Parser σ → Parser τ → Prop}
    (hR : Lockstep like R) (room n : Nat) :
    Action.Alongside (R n) like.Programs (program (expressionAt room))
      (program (expressionAt room)) :=
  alongside_program hR (alongside_expressionAt hR room n)

end Grammar

end MonkeyFrontEnd
