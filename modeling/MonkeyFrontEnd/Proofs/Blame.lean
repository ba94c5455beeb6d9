import MonkeyFrontEnd.Proofs.StateMap
import MonkeyFrontEnd.Proofs.Success

/-!
Which token a diagnostic is about, and in which order tokens are blamed. A token may be blamed in two
turns, first as the one that comes next and then as the current one. The turns of an input follow the
order of its tokens, and none is taken twice. An expression that is read at all leaves the first turn
of its first token alone, so whatever is recorded next, by a block inside an expression or by the
statement behind a failed one, comes in a later turn than everything recorded before.
-/

namespace MonkeyFrontEnd

variable {σ : Type} [TokenSource σ] {α β : Type}

/-! ## Diagnostics and tokens -/

/-- What a fault says about a token. -/
def Fault.Describes : Fault → Token → Prop
  | .unrecognised _, _ => False
  | .unexpected expected received, t => received = t.kind ∧ received ≠ expected
  | .noExpression kind, t => kind = t.kind ∧ ¬ kind.startsExpression
  | .badInteger text, t => t.kind = .integer ∧ text = t.text ∧ IntegerLiteral.read text = none
  | .tooDeep limit, _ => limit = Parser.nestingLimit

/-- The diagnostic stands at the start of the token and says what is true of it. -/
structure Diagnostic.Blames (d : Diagnostic) (t : Token) : Prop where
  position_eq : d.position = t.span.start
  describes : d.fault.Describes t

/-- The token was met as the one that comes next. -/
def Fault.isUnexpected : Fault → Bool
  | .unexpected _ _ => true
  | _ => false

/-- The token was met as the current one, and no expression could be made of it. -/
def Fault.isUnreadable : Fault → Bool
  | .noExpression _ | .badInteger _ => true
  | _ => false

/-- The faults of one token: one at most, or it was unexpected and then unreadable. -/
def Fault.InTurn : List Fault → Prop
  | [] => True
  | [_] => True
  | [earlier, later] => earlier.isUnexpected ∧ later.isUnreadable
  | _ => False

/-! ## Turns -/

/-- A diagnostic and the place of the token that it is about. -/
structure Blame (σ : Type) [TokenSource σ] where
  diagnostic : Diagnostic
  place : Cursor σ
  blames : diagnostic.Blames place.current

namespace Blame

/-- The tokens from the blamed one on; none are left only at the end of the input. -/
def left (b : Blame σ) : Nat := b.place.tokens.length

/-- The turn in which a blame begins. Turns count down with the tokens that are left, two of them to
each token; the end of the input has none of its own. -/
def first (b : Blame σ) : Nat :=
  if b.left = 0 then 0
  else if b.diagnostic.fault.isUnreadable then 2 * b.left else 2 * b.left + 1

/-- The turn in which a blame ends. A blame for nesting takes both turns of its token. -/
def last (b : Blame σ) : Nat :=
  if b.left = 0 then 1
  else if b.diagnostic.fault.isUnexpected then 2 * b.left + 1 else 2 * b.left

/-- A blame begins when the one before it has ended. -/
def Before (b c : Blame σ) : Prop := c.first < b.last

theorem le_first (b : Blame σ) : 2 * b.left ≤ b.first := by
  unfold first
  split
  · omega
  · split <;> omega

theorem last_bounds (b : Blame σ) :
    0 < b.last ∧ 2 * b.left ≤ b.last ∧ b.last ≤ 2 * b.left + 1 := by
  unfold last
  split
  · omega
  · split <;> omega

/-- A token further on is blamed after the first turn of the token it is behind. -/
theorem first_le_of_left_le {b : Blame σ} {n : Nat} (h : b.left ≤ n - 1) : b.first ≤ 2 * n := by
  unfold first
  split
  · omega
  · split <;> omega

theorem first_le_of_isUnreadable {b : Blame σ} (h : b.diagnostic.fault.isUnreadable) :
    b.first ≤ 2 * b.left := by
  rw [first, if_pos h]
  split <;> omega

theorem lt_last_of_isUnexpected {b : Blame σ} (h : b.diagnostic.fault.isUnexpected) :
    2 * b.left < b.last := by
  rw [last, if_pos h]
  split <;> omega

/-- Tokens are blamed in their order. -/
theorem Before.left_le {b c : Blame σ} (h : b.Before c) : c.left ≤ b.left := by
  have hb := b.last_bounds
  have hc := c.le_first
  unfold Before at h
  omega

/-- A token that is not the end of the input is blamed twice only for the one thing after the
other. -/
theorem Before.isUnexpected {b c : Blame σ} (h : b.Before c) (heq : b.left = c.left)
    (hne : c.left ≠ 0) : b.diagnostic.fault.isUnexpected ∧ c.diagnostic.fault.isUnreadable := by
  rw [Before, first, last, heq, if_neg hne, if_neg hne] at h
  split at h <;> split at h
  · exact ⟨‹_›, ‹_›⟩
  all_goals omega

/-- The blames of a token that is not the end of the input are at most two. -/
theorem inTurn {bs : List (Blame σ)} {n : Nat} (h : bs.Pairwise Before) (hn : n ≠ 0)
    (hleft : ∀ b ∈ bs, b.left = n) : Fault.InTurn (bs.map fun b => b.diagnostic.fault) := by
  match bs with
  | [] => exact trivial
  | [_] => exact trivial
  | [b, c] =>
    have hbc : b.Before c := by simpa using h
    exact hbc.isUnexpected (by simp [hleft]) (by simp [hleft, hn])
  | b :: c :: d :: bs =>
    -- The middle one would have to be met as the current token and as the next one.
    have hbc : b.Before c := by simp_all
    have hcd : c.Before d := by simp_all
    have hunreadable := (hbc.isUnexpected (by simp [hleft]) (by simp [hleft, hn])).2
    have hunexpected := (hcd.isUnexpected (by simp [hleft]) (by simp [hleft, hn])).1
    cases hfault : c.diagnostic.fault <;>
      simp [hfault, Fault.isUnreadable, Fault.isUnexpected] at hunreadable hunexpected

end Blame

/-! ## Accounts of what was recorded -/

theorem Parser.length_tokens_advance (p : Parser σ) :
    p.advance.tokens.length = p.tokens.length - 1 := by
  by_cases h : p.current.kind = .eof
  · rw [tokens_advance, ahead_of_eof h, tokens_of_eof h]
    rfl
  · rw [tokens_of_ne_eof h]
    rfl

/-- The diagnostic of an outcome, if it is a failure. -/
def failure? : Except Diagnostic α → Option Diagnostic
  | .ok _ => none
  | .error d => some d

/-- `bs` are what a step from `p` to `q` has recorded and, if it failed, its failure, in this order.
All of them have had their turns when the current token of `q` is due as the current one, or, behind
a failure, when the next token is. -/
structure Account (p q : Parser σ) (failure : Option Diagnostic) (bs : List (Blame σ)) : Prop where
  recorded : q.diagnostics.toList ++ failure.toList =
    p.diagnostics.toList ++ bs.map Blame.diagnostic
  reached : p.cursor.Reaches q.cursor
  placed : ∀ b ∈ bs, p.cursor.Reaches b.place
  ordered : bs.Pairwise Blame.Before
  passed : ∀ b ∈ bs, 2 * (q.tokens.length - failure.toList.length) < b.last

/-- The blames take no turn before the current token of `p` is due as the current one. -/
def FromTurnOf (p : Parser σ) (bs : List (Blame σ)) : Prop :=
  ∀ b ∈ bs, b.first ≤ 2 * p.tokens.length

namespace Account

variable {p m q : Parser σ} {failure : Option Diagnostic} {bs cs : List (Blame σ)}

theorem length_le (h : Account p q failure bs) : q.tokens.length ≤ p.tokens.length :=
  h.reached.tokens_suffix.length_le

theorem left_le (h : Account p q failure bs) {b : Blame σ} (hb : b ∈ bs) :
    b.left ≤ p.tokens.length :=
  (h.placed b hb).tokens_suffix.length_le

/-- Nothing is recorded. -/
theorem quiet (hreached : p.cursor.Reaches q.cursor) (h : q.diagnostics = p.diagnostics) :
    Account p q none ([] : List (Blame σ)) :=
  ⟨by simp [h], hreached, by simp, .nil, by simp⟩

/-- A failure at once, blamed on a token that is not passed before recovery. -/
theorem fail (b : Blame σ) (hplace : p.cursor.Reaches b.place)
    (hpassed : 2 * (p.tokens.length - 1) < b.last) : Account p p (some b.diagnostic) [b] :=
  ⟨rfl, .here, by simpa using hplace, List.pairwise_singleton _ _, by simpa using hpassed⟩

/-- What is recorded later comes behind, if it takes no earlier turn than the token from which the
later step went on. -/
theorem append (h : Account p m none bs) (hlater : Account m q failure cs) (hturn : FromTurnOf m cs) :
    Account p q failure (bs ++ cs) := by
  have hle := hlater.length_le
  have hrecorded := h.recorded
  have hpassed := h.passed
  simp only [Option.toList_none, List.append_nil, List.length_nil, Nat.sub_zero] at hrecorded hpassed
  constructor
  case recorded =>
    rw [hlater.recorded, hrecorded, List.map_append, List.append_assoc]
  case reached => exact h.reached.trans hlater.reached
  case placed =>
    intro b hb
    rcases List.mem_append.1 hb with hb | hb
    · exact h.placed b hb
    · exact h.reached.trans (hlater.placed b hb)
  case ordered =>
    refine List.pairwise_append.2 ⟨h.ordered, hlater.ordered, ?_⟩
    intro b hb c hc
    exact Nat.lt_of_le_of_lt (hturn c hc) (hpassed b hb)
  case passed =>
    intro b hb
    rcases List.mem_append.1 hb with hb | hb
    · have := hpassed b hb
      omega
    · exact hlater.passed b hb

theorem fromTurnOf_append (h : Account p m none bs) (hbs : FromTurnOf p bs)
    (hcs : FromTurnOf m cs) : FromTurnOf p (bs ++ cs) := by
  intro c hc
  rcases List.mem_append.1 hc with hc | hc
  · exact hbs c hc
  · exact Nat.le_trans (hcs c hc) (Nat.mul_le_mul_left 2 h.length_le)

/-- Behind one move, every turn is one that the token before the move leaves. -/
theorem of_advance (h : Account p.advance q failure bs) :
    Account p q failure bs ∧ FromTurnOf p bs := by
  have hmove : p.cursor.Reaches p.advance.cursor := .onward .here
  refine ⟨⟨h.recorded, hmove.trans h.reached, fun b hb => hmove.trans (h.placed b hb), h.ordered,
    h.passed⟩, fun b hb => ?_⟩
  have hle := h.left_le hb
  rw [Parser.length_tokens_advance] at hle
  exact Blame.first_le_of_left_le hle

/-- Recovery from a failure passes a token, so what was blamed before it has had its turn. -/
theorem recover {d : Diagnostic} (h : Account p m (some d) bs)
    (hreached : m.cursor.Reaches q.cursor) (hq : q.diagnostics = m.diagnostics.push d) :
    Account p q.advance none bs := by
  have hle := hreached.tokens_suffix.length_le
  constructor
  case recorded =>
    rw [Parser.diagnostics_advance, hq, Array.toList_push, ← h.recorded]
    simp
  case reached => exact (h.reached.trans hreached).onward
  case placed => exact h.placed
  case ordered => exact h.ordered
  case passed =>
    intro b hb
    have hpassed := h.passed b hb
    change q.tokens.length ≤ m.tokens.length at hle
    rw [Parser.length_tokens_advance]
    simp only [Option.toList_some, List.length_singleton, Option.toList_none, List.length_nil] at *
    omega

end Account

namespace Builder

/-- Run from `p`, the builder blames tokens in their turns. -/
def Orderly (b : Builder σ α) (p : Parser σ) : Prop :=
  ∃ bs, Account p (b.run p).2 (failure? (b.run p).1) bs

/-- Run from `p`, the builder blames tokens in their turns and leaves the first turn of the current
token alone. -/
def Fresh (b : Builder σ α) (p : Parser σ) : Prop :=
  ∃ bs, Account p (b.run p).2 (failure? (b.run p).1) bs ∧ FromTurnOf p bs

variable {p : Parser σ} {b : Builder σ α} {f : α → Builder σ β}

theorem Fresh.orderly (h : b.Fresh p) : b.Orderly p := by
  obtain ⟨bs, hbs, -⟩ := h
  exact ⟨bs, hbs⟩

theorem fresh_pure (a : α) (p : Parser σ) : (pure a : Builder σ α).Fresh p :=
  ⟨[], .quiet .here rfl, by simp [FromTurnOf]⟩

/-- The second builder goes on where the first one has come to. -/
theorem exists_account_bind {bs : List (Blame σ)}
    (h : Account p (b.run p).2 (failure? (b.run p).1) bs)
    (hf : ∀ a m, b.run p = (.ok a, m) → (f a).Fresh m) :
    ∃ cs, Account p ((b >>= f).run p).2 (failure? ((b >>= f).run p).1) (bs ++ cs) ∧
      (FromTurnOf p bs → FromTurnOf p (bs ++ cs)) := by
  rcases hrun : b.run p with ⟨d | a, m⟩
  · rw [run_bind_of_error hrun]
    rw [hrun] at h
    exact ⟨[], by rwa [List.append_nil], by simp⟩
  · rw [run_bind_of_ok hrun]
    rw [hrun] at h
    obtain ⟨cs, hcs, hturn⟩ := hf a m hrun
    exact ⟨cs, h.append hcs hturn, fun hbs => h.fromTurnOf_append hbs hturn⟩

theorem Orderly.bind (h : b.Orderly p) (hf : ∀ a m, b.run p = (.ok a, m) → (f a).Fresh m) :
    (b >>= f).Orderly p := by
  obtain ⟨bs, hbs⟩ := h
  obtain ⟨cs, hcs, -⟩ := exists_account_bind hbs hf
  exact ⟨_, hcs⟩

theorem Fresh.bind (h : b.Fresh p) (hf : ∀ a m, b.run p = (.ok a, m) → (f a).Fresh m) :
    (b >>= f).Fresh p := by
  obtain ⟨bs, hbs, hturn⟩ := h
  obtain ⟨cs, hcs, hboth⟩ := exists_account_bind hbs hf
  exact ⟨_, hcs, hboth hturn⟩

theorem fresh_current_bind {f : Token → Builder σ β} (h : (f p.current).Fresh p) :
    (current >>= f).Fresh p := by
  unfold Fresh
  rw [run_current_bind]
  exact h

theorem fresh_peek_bind {f : Token → Builder σ β} (h : (f p.peek).Fresh p) :
    (peek >>= f).Fresh p := by
  unfold Fresh
  rw [run_peek_bind]
  exact h

theorem fresh_advance_bind {f : Token → Builder σ β} (h : (f p.current).Orderly p.advance) :
    (advance >>= f).Fresh p := by
  obtain ⟨bs, hbs⟩ := h
  exact ⟨bs, hbs.of_advance⟩

theorem fresh_takeSemicolon_bind {f : Unit → Builder σ β} (h : ∀ q, (f ()).Fresh q) :
    (takeSemicolon >>= f).Fresh p := by
  have htake : (takeSemicolon : Builder σ Unit).Fresh p := by
    refine ⟨[], ?_, by simp [FromTurnOf]⟩
    rw [run_takeSemicolon]
    by_cases hsemicolon : p.peek.kind = .semicolon
    · rw [if_pos hsemicolon]
      exact .quiet (.onward .here) rfl
    · rw [if_neg hsemicolon]
      exact .quiet .here rfl
  exact htake.bind fun _ m _ => h m

/-- A builder that fails with the current token, which no expression can be made of. -/
theorem fresh_of_unreadable {d : Diagnostic} (hrun : b.run p = (.error d, p))
    (hblames : d.Blames p.current) (hfault : d.fault.isUnreadable) : b.Fresh p := by
  let blame : Blame σ := ⟨d, p.cursor, hblames⟩
  have hlast := blame.last_bounds
  have hleft : blame.left = p.tokens.length := rfl
  refine ⟨[blame], ?_, ?_⟩
  · rw [hrun]
    exact .fail blame .here (by omega)
  · have hfirst : blame.first ≤ 2 * p.tokens.length := Blame.first_le_of_isUnreadable hfault
    simpa [FromTurnOf] using hfirst

/-- A token of another kind than the expected one is blamed as the next token, and a token of the
expected kind is taken. -/
theorem fresh_expect_bind {kind : Kind} {f : Token → Builder σ β}
    (h : p.peek.kind = kind → (f p.peek).Orderly p.advance) : (expect kind >>= f).Fresh p := by
  by_cases hkind : p.peek.kind = kind
  · obtain ⟨bs, hbs⟩ := h hkind
    have hrun : (expect kind >>= f).run p = (f p.peek).run p.advance := by
      rw [run_bind, run_expect, if_pos hkind]
    unfold Fresh
    rw [hrun]
    exact ⟨bs, hbs.of_advance⟩
  · let blame : Blame σ :=
      ⟨⟨.unexpected kind p.peek.kind, p.peek.span.start⟩, p.cursor.advance, rfl, rfl, hkind⟩
    have hleft : blame.left = p.tokens.length - 1 := p.length_tokens_advance
    have hlast : 2 * blame.left < blame.last := blame.lt_last_of_isUnexpected rfl
    have hfirst : blame.first ≤ 2 * p.tokens.length :=
      Blame.first_le_of_left_le (Nat.le_of_eq hleft)
    have hrun : (expect kind >>= f).run p = (.error blame.diagnostic, p) :=
      run_bind_of_error (by rw [run_expect, if_neg hkind])
    refine ⟨[blame], ?_, by simpa [FromTurnOf] using hfirst⟩
    rw [hrun]
    exact .fail blame (.onward .here) (by omega)

end Builder

namespace Grammar

open Builder (takeSemicolon ofAction Fresh fresh_pure fresh_current_bind fresh_peek_bind
  fresh_advance_bind fresh_takeSemicolon_bind fresh_expect_bind fresh_of_unreadable)

variable {expr : Precedence → Builder σ Expr} {p q : Parser σ}

/-! ## Statements -/

section

variable (hexpr : ∀ limit p, (expr limit).Fresh p)

include hexpr

theorem fresh_value (g : Expr → Stmt) (p : Parser σ) :
    (do let value ← expr .lowest; takeSemicolon; return g value : Builder σ Stmt).Fresh p :=
  (hexpr _ p).bind fun _ _ _ => fresh_takeSemicolon_bind fun _ => fresh_pure _ _

theorem fresh_letStatement (p : Parser σ) : (letStatement expr).Fresh p := by
  apply fresh_current_bind
  refine fresh_expect_bind fun _ => Fresh.orderly ?_
  refine fresh_expect_bind fun _ => Fresh.orderly ?_
  exact fresh_advance_bind (fresh_value hexpr _ _).orderly

theorem fresh_returnStatement (p : Parser σ) : (returnStatement expr).Fresh p := by
  apply fresh_current_bind
  apply fresh_peek_bind
  split
  · exact fresh_advance_bind (fresh_pure _ _).orderly
  · split
    · exact fresh_pure _ p
    · exact fresh_advance_bind (fresh_value hexpr _ _).orderly

theorem fresh_statement (p : Parser σ) : (statement expr).Fresh p := by
  apply fresh_current_bind
  split
  · exact fresh_letStatement hexpr p
  · split
    · exact fresh_returnStatement hexpr p
    · exact fresh_current_bind (fresh_value hexpr _ p)

/-- What a try for a statement has recorded is in turn, and the next try begins behind it. -/
theorem exists_account_attempt (p : Parser σ) :
    ∃ bs, Account p ((attempt expr).run p).2.advance none bs ∧ FromTurnOf p bs := by
  obtain ⟨bs, hbs, hturn⟩ := fresh_statement hexpr p
  refine ⟨bs, ?_, hturn⟩
  rcases hrun : (statement expr).run p with ⟨d | s, m⟩
  · rw [hrun] at hbs
    rw [run_attempt_of_error hrun]
    exact hbs.recover (framed_recover d m).cursor (diagnostics_recover d m)
  · rw [hrun] at hbs
    rw [run_attempt_of_ok hrun]
    have hmove : Account m (m.complete s).advance none ([] : List (Blame σ)) :=
      .quiet (.onward .here) rfl
    simpa using hbs.append hmove (by simp [FromTurnOf])

theorem fresh_statements (closing : Option Kind) (p : Parser σ) :
    (ofAction (statements expr closing)).Fresh p := by
  induction hleft : p.left using Nat.strongRecOn generalizing p with
  | ind n ih =>
    subst hleft
    unfold Builder.Fresh
    rw [Builder.run_ofAction]
    by_cases hclose : closes closing p.current.kind
    · rw [run_statements_of_closes expr hclose]
      exact fresh_pure _ p
    · have hlt := left_attempt_lt expr (current_ne_eof hclose)
      obtain ⟨bs, hbs, hturn⟩ := exists_account_attempt hexpr p
      obtain ⟨cs, hcs, hlater⟩ := ih _ hlt _ rfl
      rw [run_statements_of_not_closes expr hclose]
      exact ⟨bs ++ cs, hbs.append hcs hlater, hbs.fromTurnOf_append hturn hlater⟩

theorem fresh_block (p : Parser σ) : (ofAction (block expr)).Fresh p := by
  obtain ⟨bs, hbs, -⟩ := fresh_statements hexpr (some .closeCurly) p.advance
  exact ⟨bs, hbs.of_advance⟩

theorem fresh_program (p : Parser σ) : (ofAction (program expr)).Fresh p :=
  fresh_statements hexpr none p

end

/-! ## Expressions -/

/-- The rule for the expressions inside an expression. It may fail for nesting at its first token,
but not where there is room for any expression at all. -/
structure KeepsTurns (expr : Precedence → Builder σ Expr) : Prop where
  orderly : ∀ limit p, (expr limit).Orderly p
  fresh : ∀ {limit p e q}, (expr limit).run p = (.ok e, q) → ∀ limit p, (expr limit).Fresh p

section

variable (hexpr : KeepsTurns expr)

include hexpr

theorem fresh_unary (p : Parser σ) : (unary expr).Fresh p :=
  fresh_advance_bind ((hexpr.orderly _ _).bind fun _ _ _ => fresh_pure _ _)

theorem fresh_binary (left : Expr) (p : Parser σ) : (binary expr left).Fresh p :=
  fresh_advance_bind ((hexpr.orderly _ _).bind fun _ _ _ => fresh_pure _ _)

theorem fresh_group (p : Parser σ) : (group expr).Fresh p := by
  refine fresh_advance_bind ((hexpr.orderly _ _).bind fun _ _ _ => ?_)
  exact fresh_expect_bind fun _ => (fresh_pure _ _).orderly

theorem fresh_conditional (p : Parser σ) : (conditional expr).Fresh p := by
  apply fresh_current_bind
  refine fresh_expect_bind fun _ => Fresh.orderly ?_
  refine fresh_advance_bind ((hexpr.orderly _ _).bind fun c m hcondition => ?_)
  -- Behind a condition that was read there is room for expressions.
  have hblock := fresh_block (hexpr.fresh hcondition)
  refine fresh_expect_bind fun _ => Fresh.orderly ?_
  refine fresh_expect_bind fun _ => Fresh.orderly ?_
  refine (hblock _).bind fun b n _ => ?_
  apply fresh_peek_bind
  split
  · refine fresh_advance_bind (Fresh.orderly ?_)
    refine fresh_expect_bind fun _ => Fresh.orderly ?_
    exact (hblock _).bind fun _ _ _ => fresh_pure _ _
  · exact fresh_pure _ n

omit hexpr in
theorem fresh_integer (hkind : p.current.kind = .integer) :
    (integer : Builder σ Expr).Fresh p := by
  apply fresh_current_bind
  cases hread : IntegerLiteral.read p.current.text with
  | some value => exact fresh_pure _ p
  | none => exact fresh_of_unreadable (Builder.run_throw _ p) ⟨rfl, hkind, rfl, hread⟩ rfl

theorem fresh_opening (p : Parser σ) : (opening expr).Fresh p := by
  apply fresh_current_bind
  cases hform : p.current.kind.opener? with
  | none =>
    have hstarts : ¬ p.current.kind.startsExpression := by simp [Kind.startsExpression, hform]
    exact fresh_of_unreadable (Builder.run_throw _ p) ⟨rfl, rfl, hstarts⟩ rfl
  | some form =>
    cases form with
    | identifier => exact fresh_pure _ p
    | boolean => exact fresh_pure _ p
    | integer =>
      have hkind := (Kind.opener?_eq_some_iff _ _).1 hform
      exact fresh_integer (by simpa [Opener.kinds] using hkind)
    | unary => exact fresh_unary hexpr p
    | group => exact fresh_group hexpr p
    | conditional => exact fresh_conditional hexpr p

theorem fresh_join (limit : Precedence) (left : Expr) (p : Parser σ) :
    (join expr limit left).Fresh p := by
  induction hleft : p.left using Nat.strongRecOn generalizing p left with
  | ind n ih =>
    subst hleft
    unfold Builder.Fresh
    by_cases hlimit : limit < p.peek.kind.precedence
    · have hlt (e : Expr) (m : Parser σ) (hrun : (binary expr left).run p.advance = (.ok e, m)) :
          m.left < p.left := by
        have := left_binary_lt expr left hlimit
        rwa [hrun] at this
      rw [run_join_of_lt expr hlimit]
      have hrest : (binary expr left >>= fun joined => join expr limit joined).Fresh p.advance :=
        (fresh_binary hexpr left _).bind fun e m hrun => ih _ (hlt e m hrun) e m rfl
      obtain ⟨bs, hbs, -⟩ := hrest
      exact ⟨bs, hbs.of_advance⟩
    · rw [run_join_of_not_lt expr hlimit]
      exact fresh_pure _ p

theorem fresh_body (limit : Precedence) (p : Parser σ) : (body expr limit).Fresh p :=
  (fresh_opening hexpr p).bind fun left m _ => fresh_join hexpr limit left m

end

/-- Entering an expression and leaving it again moves no cursor and records nothing. -/
theorem fresh_expressionAt_succ {room : Nat} (h : KeepsTurns (σ := σ) (expressionAt room))
    (limit : Precedence) (p : Parser σ) : (expressionAt (room + 1) limit).Fresh p := by
  obtain ⟨bs, hbs, hturn⟩ := fresh_body h limit { p with depth := p.depth + 1 }
  exact ⟨bs, ⟨hbs.recorded, hbs.reached, hbs.placed, hbs.ordered, hbs.passed⟩, hturn⟩

theorem keepsTurns_expressionAt (room : Nat) : KeepsTurns (σ := σ) (expressionAt room) := by
  induction room with
  | zero =>
    constructor
    case orderly =>
      intro limit p
      let blame : Blame σ := ⟨p.tooDeep, p.cursor, rfl, rfl⟩
      have hlast := blame.last_bounds
      have hleft : blame.left = p.tokens.length := rfl
      exact ⟨[blame], .fail blame .here (by omega)⟩
    case fresh =>
      intro limit p e q h
      simp [run_expressionAt_zero] at h
  | succ room ih =>
    exact ⟨fun limit p => (fresh_expressionAt_succ ih limit p).orderly,
      fun _ => fresh_expressionAt_succ ih⟩

/-- Everything that is recorded while a program is read is recorded in turn. -/
theorem exists_account_program (p : Parser σ) (hp : p.depth = 0) :
    ∃ bs, Account p ((program expression).run p).2 none bs := by
  obtain ⟨bs, hbs, -⟩ :=
    fresh_program (fresh_expressionAt_succ (keepsTurns_expressionAt (Parser.nestingLimit - 1))) p
  rw [run_program_expression hp]
  exact ⟨bs, hbs⟩

end Grammar

/-- Every diagnostic blames a token that the cursor has come to. -/
theorem exists_blames_of_mem {s : σ} {d : Diagnostic} (hd : d ∈ (parse s).2.diagnostics.toList) :
    ∃ c, (Cursor.start s).Reaches c ∧ d.Blames c.current := by
  obtain ⟨bs, hbs⟩ := Grammar.exists_account_program (Parser.start s) rfl
  have hrecorded := hbs.recorded
  simp only [Option.toList_none, List.append_nil] at hrecorded
  have hdiagnostics : (parse s).2.diagnostics.toList = bs.map Blame.diagnostic := hrecorded
  rw [hdiagnostics] at hd
  obtain ⟨b, hb, rfl⟩ := List.mem_map.1 hd
  exact ⟨b.place, hbs.placed b hb, b.blames⟩

end MonkeyFrontEnd
