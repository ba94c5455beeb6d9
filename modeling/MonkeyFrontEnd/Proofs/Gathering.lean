import MonkeyFrontEnd.Proofs.Tries

/-!
The tries that each rule makes. A builder is run from some state, the tries are chained from there to the
state behind it, and what they have saved is found in its value (`Builder.Gathers`). A rule for
expressions that does so makes every other rule do so, and `makesTries_expressionAt` closes the circle.
-/

namespace MonkeyFrontEnd

variable {σ : Type} [TokenSource σ] {α β : Type}

/-- Between two states these tries were made. -/
structure Tried (room : Nat) (p q : Parser σ) (ts : List (Try σ)) : Prop where
  chained : Chained room p q ts
  sound : ∀ t ∈ ts, t.Sound

namespace Tried

variable {room : Nat} {p m q : Parser σ} {ts us : List (Try σ)}

theorem quiet (h : p.Passes q) : Tried room p q [] := ⟨.quiet h, by simp⟩

theorem append (h : Tried room p m ts) (hlater : Tried room m q us) : Tried room p q (ts ++ us) :=
  ⟨h.chained.append hlater.chained, List.forall_mem_append.2 ⟨h.sound, hlater.sound⟩⟩

/-- The statements that were saved begin between the two states. -/
theorem sublist_token {s : Stmt} (h : Tried room p q ts) (hs : s ∈ Try.savedAll ts) :
    (s.token :: q.tokens).Sublist p.tokens := by
  obtain ⟨t, ht, hst⟩ := Try.mem_savedAll_iff.1 hs
  have hpassed := List.mem_flatMap.2 ⟨t, ht, (h.sound t ht).token_mem hst⟩
  exact ((List.singleton_sublist.2 hpassed).append_right q.tokens).trans h.chained.tokens_sublist

end Tried

namespace Builder

/-- Run from `p`, the builder makes tries, and what these save comes behind `before` in its value. -/
def Gathers (b : Builder σ α) (room : Nat) (before : List Stmt) (inner : α → List Stmt)
    (p : Parser σ) : Prop :=
  ∃ ts, Tried room p (b.run p).2 ts ∧
    ∀ a q, b.run p = (.ok a, q) → inner a = before ++ Try.savedAll ts

variable {b : Builder σ α} {f : α → Builder σ β} {room : Nat} {before : List Stmt}
  {inner : α → List Stmt} {inner' : β → List Stmt} {p m : Parser σ}

theorem gathers_pure {a : α} (h : inner a = before) (p : Parser σ) :
    (pure a : Builder σ α).Gathers room before inner p := by
  refine ⟨[], .quiet (.refl p), ?_⟩
  intro a' q hrun
  obtain ⟨rfl, rfl⟩ := of_run_pure hrun
  rw [Try.savedAll, List.append_nil, h]

theorem gathers_throw (d : Diagnostic) (before : List Stmt) (inner : α → List Stmt) (p : Parser σ) :
    (throw d : Builder σ α).Gathers room before inner p :=
  ⟨[], .quiet (.refl p), by simp⟩

theorem Gathers.sublist_token {a : α} {q : Parser σ} {s : Stmt} (h : b.Gathers room [] inner p)
    (hrun : b.run p = (.ok a, q)) (hs : s ∈ inner a) : (s.token :: q.tokens).Sublist p.tokens := by
  obtain ⟨ts, hts, hsaved⟩ := h
  rw [hrun] at hts
  rw [hsaved a q hrun, List.nil_append] at hs
  exact hts.sublist_token hs

/-- More may stand before. -/
theorem Gathers.behind (h : b.Gathers room [] inner p) (before : List Stmt) :
    b.Gathers room before (fun a => before ++ inner a) p := by
  obtain ⟨ts, hts, hsaved⟩ := h
  refine ⟨ts, hts, fun a q hrun => ?_⟩
  change before ++ inner a = _
  rw [hsaved a q hrun, List.nil_append]

theorem Gathers.bind (h : b.Gathers room before inner p)
    (hf : ∀ a m, b.run p = (.ok a, m) → (f a).Gathers room (inner a) inner' m) :
    (b >>= f).Gathers room before inner' p := by
  obtain ⟨ts, hts, hsaved⟩ := h
  rcases hrun : b.run p with ⟨d | a, m⟩
  · rw [hrun] at hts
    refine ⟨ts, ?_, ?_⟩ <;> rw [run_bind_of_error hrun]
    · exact hts
    · simp
  · rw [hrun] at hts
    obtain ⟨us, hus, hlater⟩ := hf a m hrun
    refine ⟨ts ++ us, ?_, ?_⟩ <;> rw [run_bind_of_ok hrun]
    · exact hts.append hus
    · intro c q hc
      rw [hlater c q hc, hsaved a m hrun, Try.savedAll_append, List.append_assoc]

/-- A step that makes no try. -/
theorem Gathers.of_run_eq {r : Builder σ α} (hrun : b.run p = r.run m) (hquiet : p.Passes m)
    (h : r.Gathers room before inner m) : b.Gathers room before inner p := by
  obtain ⟨ts, hts, hsaved⟩ := h
  unfold Gathers
  rw [hrun]
  exact ⟨ts, ⟨hts.chained.of_passes hquiet, hts.sound⟩, hsaved⟩

section

variable {f : Token → Builder σ β} {inner : β → List Stmt}

theorem gathers_current_bind (h : (f p.current).Gathers room before inner p) :
    (current >>= f).Gathers room before inner p :=
  .of_run_eq (run_current_bind f p) (.refl p) h

theorem gathers_peek_bind (h : (f p.peek).Gathers room before inner p) :
    (peek >>= f).Gathers room before inner p :=
  .of_run_eq (run_peek_bind f p) (.refl p) h

theorem gathers_advance_bind (h : (f p.current).Gathers room before inner p.advance) :
    (advance >>= f).Gathers room before inner p :=
  .of_run_eq (run_advance_bind f p) (.advance p) h

theorem gathers_expect_bind {kind : Kind}
    (h : p.advance.current.kind = kind → (f p.peek).Gathers room before inner p.advance) :
    (expect kind >>= f).Gathers room before inner p := by
  by_cases hkind : p.peek.kind = kind
  · exact .of_run_eq (run_expect_bind hkind f) (.advance p) (h hkind)
  · have hrun : (expect kind >>= f).run p =
        (throw ⟨.unexpected kind p.peek.kind, p.peek.span.start⟩ : Builder σ β).run p :=
      run_bind_of_error (by rw [run_expect, if_neg hkind])
    exact .of_run_eq hrun (.refl p) (gathers_throw _ _ _ p)

end

theorem gathers_takeSemicolon_bind {f : Unit → Builder σ β}
    (h : (f ()).Gathers room before inner' p.passSemicolon) :
    (takeSemicolon >>= f).Gathers room before inner' p :=
  .of_run_eq (run_takeSemicolon_bind f p) (.passSemicolon p) h

end Builder

namespace Grammar

open Builder (Gathers takeSemicolon ofAction gathers_pure gathers_throw gathers_current_bind
  gathers_peek_bind gathers_advance_bind gathers_expect_bind gathers_takeSemicolon_bind)

/-- What the rule for expressions with this room is relied on for: its values hold what the tries in them
have saved. -/
structure MakesTries (room : Nat) (expr : Precedence → Builder σ Expr) : Prop where
  rule : expr = expressionAt room
  gathers : ∀ limit p, (expr limit).Gathers room [] Expr.inner p

variable {room : Nat} {expr : Precedence → Builder σ Expr} (hexpr : MakesTries room expr)
  {p : Parser σ}

include hexpr

theorem MakesTries.framed (limit : Precedence) : (expr limit).Framed := by
  rw [hexpr.rule]
  exact framed_expressionAt room limit

theorem MakesTries.keepsOrder (limit : Precedence) : (expr limit).KeepsOrder := by
  rw [hexpr.rule]
  exact keepsOrder_expressionAt room limit

/-! ### Statements -/

theorem gathers_value {g : Expr → Stmt} (hg : ∀ e, (g e).inner = e.inner) (p : Parser σ) :
    (do let value ← expr .lowest; takeSemicolon; return g value : Builder σ Stmt).Gathers room []
      Stmt.inner p :=
  (hexpr.gathers _ p).bind fun e _ _ => gathers_takeSemicolon_bind (gathers_pure (hg e) _)

theorem gathers_letStatement (p : Parser σ) : (letStatement expr).Gathers room [] Stmt.inner p := by
  apply gathers_current_bind
  refine gathers_expect_bind fun _ => ?_
  refine gathers_expect_bind fun _ => ?_
  exact gathers_advance_bind (gathers_value hexpr (fun _ => rfl) _)

theorem gathers_returnStatement (p : Parser σ) :
    (returnStatement expr).Gathers room [] Stmt.inner p := by
  apply gathers_current_bind
  apply gathers_peek_bind
  split
  · exact gathers_advance_bind (gathers_pure rfl _)
  · split
    · exact gathers_pure rfl p
    · exact gathers_advance_bind (gathers_value hexpr (fun _ => rfl) _)

theorem gathers_statement (p : Parser σ) : (statement expr).Gathers room [] Stmt.inner p := by
  apply gathers_current_bind
  split
  · exact gathers_letStatement hexpr p
  · split
    · exact gathers_returnStatement hexpr p
    · exact gathers_current_bind (gathers_value hexpr (fun _ => rfl) p)

omit hexpr in
/-- A statement begins with the token that was current. -/
theorem token_of_run_statement {s : Stmt} {q : Parser σ} (h : (statement expr).run p = (.ok s, q)) :
    s.token = p.current := by
  rcases cases_of_run_statement h with ⟨-, h⟩ | ⟨-, h⟩ | h
  · obtain ⟨-, -, e, m, -, -, rfl⟩ := exists_of_run_letStatement h
    rfl
  · rcases cases_of_run_returnStatement h with ⟨rfl, -⟩ | ⟨e, m, -, -, rfl⟩ <;> rfl
  · obtain ⟨e, m, -, -, rfl⟩ := exists_of_run_expressionStatement h
    rfl

/-- Short of the end of the input a statement is tried for, and the tries inside this one are found. -/
theorem exists_sound (hp : p.current.kind ≠ .eof) : ∃ t : Try σ, t.run = ⟨room, p⟩ ∧ t.Sound := by
  obtain rfl := hexpr.rule
  obtain ⟨ts, hts, hsaved⟩ := gathers_statement hexpr p
  refine ⟨.mk ⟨room, p⟩ ts, rfl, hts.sound, hts.chained, fun s hs => ?_⟩
  have hrun : (statement (expressionAt room)).run p = (.ok s, ((statement (expressionAt room)).run p).2) :=
    Prod.ext hs rfl
  have htokens : p.tokens = _ := (⟨room, p⟩ : Attempt σ).tokens_eq
  obtain ⟨passed, hne, hpassed⟩ := exists_passed_of_attempt (framed_expressionAt room) hp
  obtain rfl : (⟨room, p⟩ : Attempt σ).passed = passed :=
    List.append_cancel_right (htokens.symm.trans hpassed)
  constructor
  case token =>
    rw [token_of_run_statement hrun, ← List.head?_append_of_ne_nil _ hne, ← hpassed,
      Parser.tokens_of_ne_eof hp, List.head?_cons]
  case kept =>
    have hkept := sublist_of_run_statement hexpr.keepsOrder hrun
    have hnext := congrArg Parser.tokens (Attempt.next_of_ok (a := ⟨room, p⟩) hrun)
    rw [htokens, hnext] at hkept
    exact (List.append_sublist_append_right _).1 hkept
  case inner_eq => exact hsaved s _ hrun

/-- The statements that a try gives begin in front of the next one. -/
theorem MakesTries.sublist_token_attempt (hp : p.current.kind ≠ .eof) :
    ∀ s ∈ Stmt.postorder ((attempt expr).run p).1.toList,
      (s.token :: ((attempt expr).run p).2.advance.tokens).Sublist p.tokens := by
  obtain ⟨t, hrun, hsound⟩ := exists_sound hexpr hp
  obtain rfl := hexpr.rule
  have hgiven := hsound.postorder_outcome
  have htokens := t.run.tokens_eq
  rw [Try.outcome, ← t.run.given, hrun] at hgiven
  rw [hrun] at htokens
  intro s hs
  have hpassed := hsound.token_mem (hgiven ▸ hs)
  rw [Try.passed, hrun] at hpassed
  rw [htokens]
  exact (List.singleton_sublist.2 hpassed).append_right _

/-- The tries of a list of statements. -/
theorem exists_listed (closing : Option Kind) (p : Parser σ) :
    ∃ ts, Listed room closing p ((statements expr closing).run p).2 ts ∧ ∀ t ∈ ts, t.Sound := by
  induction hleft : p.left using Nat.strongRecOn generalizing p with
  | ind n ih =>
    subst hleft
    by_cases hclose : closes closing p.current.kind
    · rw [run_statements_of_closes expr hclose]
      exact ⟨[], .done hclose, by simp⟩
    · obtain ⟨t, hrun, hsound⟩ := exists_sound hexpr (current_ne_eof hclose)
      obtain ⟨ts, hts, hsounds⟩ := ih _ (left_attempt_lt expr (current_ne_eof hclose)) _ rfl
      have hnext : t.run.next = ((attempt expr).run p).2.advance := by
        rw [hrun, Attempt.next, hexpr.rule]
      rw [run_statements_of_not_closes expr hclose]
      exact ⟨t :: ts, .more hclose hrun (hnext ▸ hts), List.forall_mem_cons.2 ⟨hsound, hsounds⟩⟩

theorem gathers_block (hbrace : p.current.kind = .openCurly) :
    (ofAction (block expr)).Gathers room [] Block.inner p := by
  obtain ⟨ts, hts, hsound⟩ := exists_listed hexpr (some .closeCurly) p.advance
  have hchained := Chained.block (.refl p) hbrace hts (.quiet (.refl _))
  rw [List.append_nil] at hchained
  refine ⟨ts, ⟨hchained, hsound⟩, ?_⟩
  intro b q hrun
  have hgiven := hts.run_eq
  rw [← hexpr.rule] at hgiven
  rw [Builder.run_ofAction, run_block, hgiven] at hrun
  obtain rfl := Except.ok.inj (Prod.mk.inj hrun).1
  exact Try.postorder_filterMap_outcome hsound

/-! ### Expressions -/

theorem gathers_unary (p : Parser σ) : (unary expr).Gathers room [] Expr.inner p :=
  gathers_advance_bind ((hexpr.gathers _ _).bind fun _ _ _ => gathers_pure rfl _)

theorem gathers_binary (left : Expr) (p : Parser σ) :
    (binary expr left).Gathers room left.inner Expr.inner p :=
  gathers_advance_bind
    (((hexpr.gathers _ _).behind left.inner).bind fun _ _ _ => gathers_pure rfl _)

theorem gathers_group (p : Parser σ) : (group expr).Gathers room [] Expr.inner p :=
  gathers_advance_bind ((hexpr.gathers _ _).bind fun _ _ _ =>
    gathers_expect_bind fun _ => gathers_pure rfl _)

theorem gathers_conditional (p : Parser σ) : (conditional expr).Gathers room [] Expr.inner p := by
  apply gathers_current_bind
  refine gathers_expect_bind fun _ => ?_
  apply gathers_advance_bind
  refine (hexpr.gathers _ _).bind fun condition _ _ => ?_
  refine gathers_expect_bind fun _ => ?_
  refine gathers_expect_bind fun hbrace => ?_
  refine ((gathers_block hexpr hbrace).behind condition.inner).bind fun consequence n _ => ?_
  apply gathers_peek_bind
  split
  · apply gathers_advance_bind
    refine gathers_expect_bind fun hbrace => ?_
    exact ((gathers_block hexpr hbrace).behind (condition.inner ++ consequence.inner)).bind
      fun _ _ _ => gathers_pure rfl _
  · exact gathers_pure rfl n

omit hexpr in
theorem gathers_integer (p : Parser σ) : (integer : Builder σ Expr).Gathers room [] Expr.inner p := by
  apply gathers_current_bind
  split
  · exact gathers_pure rfl p
  · exact gathers_throw _ _ _ p

theorem gathers_opening (p : Parser σ) : (opening expr).Gathers room [] Expr.inner p := by
  apply gathers_current_bind
  split
  · exact gathers_current_bind (gathers_pure rfl p)
  · exact gathers_integer p
  · exact gathers_current_bind (gathers_pure rfl p)
  · exact gathers_unary hexpr p
  · exact gathers_group hexpr p
  · exact gathers_conditional hexpr p
  · exact gathers_throw _ _ _ p

theorem gathers_join (limit : Precedence) (left : Expr) (p : Parser σ) :
    (join expr limit left).Gathers room left.inner Expr.inner p := by
  induction hleft : p.left using Nat.strongRecOn generalizing p left with
  | ind n ih =>
    subst hleft
    by_cases hlimit : limit < p.peek.kind.precedence
    · refine .of_run_eq (run_join_of_lt expr hlimit left) (.advance p) ?_
      refine (gathers_binary hexpr left _).bind fun joined m hrun => ih _ ?_ joined m rfl
      have hlt := left_binary_lt expr left hlimit
      rwa [hrun] at hlt
    · unfold Builder.Gathers
      rw [run_join_of_not_lt expr hlimit left]
      exact gathers_pure rfl p

theorem gathers_body (limit : Precedence) (p : Parser σ) :
    (body expr limit).Gathers room [] Expr.inner p :=
  (gathers_opening hexpr p).bind fun left m _ => gathers_join hexpr limit left m

omit hexpr in
theorem makesTries_expressionAt (room : Nat) : MakesTries (σ := σ) room (expressionAt room) := by
  refine ⟨rfl, ?_⟩
  induction room with
  | zero => exact fun limit p => ⟨[], .quiet (.refl p), by simp [run_expressionAt_zero]⟩
  | succ room ih =>
    intro limit p
    have hinner : MakesTries (σ := σ) room (expressionAt room) := ⟨rfl, ih⟩
    obtain ⟨ts, hts, hsaved⟩ := gathers_body hinner limit { p with depth := p.depth + 1 }
    have hchained := Chained.nested (.refl p) hts.chained (.quiet (.refl _))
    rw [List.append_nil] at hchained
    refine ⟨ts, ⟨hchained, hts.sound⟩, fun e q hrun => ?_⟩
    obtain ⟨hvalue, -⟩ := Prod.mk.inj hrun
    exact hsaved e _ (Prod.ext hvalue rfl)

end Grammar

end MonkeyFrontEnd
