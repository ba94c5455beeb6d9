import Mathlib.Data.List.NodupEquivFin
import MonkeyFrontEnd.Proofs.Recovery
import MonkeyFrontEnd.Proofs.Success

/-!
The tokens that trees keep. Reading a tree from left to right, one meets the tokens of its nodes in
the order in which they stand in the input, and each of them only once, whether or not errors were
recorded on the way. What a failed statement has read is lost: the next statement takes its tokens
from behind it.
-/

namespace MonkeyFrontEnd

/-! ## The tokens of a tree -/

mutual

/-- The tokens of the nodes of an expression, an operator between its operands. -/
def Expr.kept : Expr → List Token
  | .identifier id => [id.token]
  | .integer token _ => [token]
  | .boolean token _ => [token]
  | .unary token _ operand => token :: operand.kept
  | .binary token _ left right => left.kept ++ token :: right.kept
  | .ifThen token condition consequence => token :: (condition.kept ++ consequence.kept)
  | .ifElse token condition consequence alternative =>
    token :: (condition.kept ++ (consequence.kept ++ alternative.kept))
termination_by structural e => e

def Block.kept : Block → List Token
  | .mk brace statements => brace :: Stmt.keptAll statements
termination_by structural b => b

/-- The tokens of the nodes of a statement. The token that an expression statement begins with
belongs to the expression. -/
def Stmt.kept : Stmt → List Token
  | .letStmt token id value => token :: id.token :: value.kept
  | .bareReturn token => [token]
  | .returnValue token value => token :: value.kept
  | .expression _ value => value.kept
  | .block body => body.kept
termination_by structural s => s

def Stmt.keptAll : List Stmt → List Token
  | [] => []
  | s :: rest => s.kept ++ Stmt.keptAll rest
termination_by structural ss => ss

end

def Program.kept (program : Program) : List Token := Stmt.keptAll program.statements

theorem Stmt.keptAll_append (ss rest : List Stmt) :
    Stmt.keptAll (ss ++ rest) = Stmt.keptAll ss ++ Stmt.keptAll rest := by
  induction ss with
  | nil => rfl
  | cons s ss ih => rw [List.cons_append, Stmt.keptAll, Stmt.keptAll, ih, List.append_assoc]

/-! ## Rules -/

variable {σ : Type} [TokenSource σ] {p q : Parser σ}

/-- The tokens kept by an expression stand in order in front of what is ahead when it was read. -/
def Builder.KeepsOrder (b : Builder σ Expr) : Prop :=
  ∀ {p q : Parser σ} {e : Expr}, b.run p = (.ok e, q) → (e.kept ++ q.ahead).Sublist p.tokens

theorem Parser.ahead_passSemicolon_suffix (p : Parser σ) : p.passSemicolon.ahead <:+ p.ahead := by
  unfold passSemicolon
  split
  · exact p.advance.ahead_suffix_tokens
  · exact List.suffix_refl _

namespace Grammar

variable {expr : Precedence → Builder σ Expr} {e left : Expr} {s : Stmt} {limit : Precedence}

section

variable (hexpr : ∀ limit, (expr limit).KeepsOrder)

include hexpr

/-! ### Statements -/

theorem sublist_of_run_value {m : Parser σ} (h : (expr .lowest).run p = (.ok e, m)) :
    (e.kept ++ m.passSemicolon.ahead).Sublist p.tokens :=
  (m.ahead_passSemicolon_suffix.sublist.append_left e.kept).trans (hexpr _ h)

theorem sublist_of_run_letStatement (hkind : p.current.kind = .letWord)
    (h : (letStatement expr).run p = (.ok s, q)) : (s.kept ++ q.ahead).Sublist p.tokens := by
  obtain ⟨hname, hassign, e, m, he, rfl, rfl⟩ := exists_of_run_letStatement h
  have hvalue := sublist_of_run_value hexpr he
  have hp : p.tokens = p.current :: p.ahead :=
    Parser.tokens_of_ne_eof (by rw [hkind]; decide)
  have hahead : p.ahead = p.peek :: p.advance.ahead :=
    Parser.ahead_of_peek_ne_eof (by rw [hname]; decide)
  rw [hp, hahead]
  have hbehind : p.advance.advance.advance.tokens <:+ p.advance.ahead :=
    p.advance.advance.ahead_suffix_tokens
  exact ((hvalue.trans hbehind.sublist).cons_cons p.peek).cons_cons p.current

theorem sublist_of_run_returnStatement (hkind : p.current.kind = .returnWord)
    (h : (returnStatement expr).run p = (.ok s, q)) : (s.kept ++ q.ahead).Sublist p.tokens := by
  rw [Parser.tokens_of_ne_eof (by rw [hkind]; decide)]
  rcases cases_of_run_returnStatement h with ⟨rfl, rfl | rfl⟩ | ⟨e, m, he, rfl, rfl⟩
  · exact p.advance.ahead_suffix_tokens.sublist.cons_cons p.current
  · exact List.Sublist.refl _
  · exact (sublist_of_run_value hexpr he).cons_cons p.current

/-- The tokens a statement keeps stand in order in front of what is ahead when it was read. -/
theorem sublist_of_run_statement (h : (statement expr).run p = (.ok s, q)) :
    (s.kept ++ q.ahead).Sublist p.tokens := by
  rcases cases_of_run_statement h with ⟨hkind, h⟩ | ⟨hkind, h⟩ | h
  · exact sublist_of_run_letStatement hexpr hkind h
  · exact sublist_of_run_returnStatement hexpr hkind h
  · obtain ⟨e, m, he, rfl, rfl⟩ := exists_of_run_expressionStatement h
    exact sublist_of_run_value hexpr he

/-- Trying for a statement takes what it keeps, and perhaps more, off the tokens. -/
theorem sublist_of_attempt (hframed : ∀ limit, (expr limit).Framed) (p : Parser σ) :
    (Stmt.keptAll ((attempt expr).run p).1.toList ++ ((attempt expr).run p).2.ahead).Sublist
      p.tokens := by
  rcases hrun : (statement expr).run p with ⟨d | s, m⟩
  · have hframe := framed_attempt hframed p
    rw [run_attempt_of_error hrun] at hframe ⊢
    exact (Parser.ahead_suffix_tokens _).sublist.trans hframe.tokens_suffix.sublist
  · have hahead : (m.complete s).ahead = m.ahead := rfl
    rw [run_attempt_of_ok hrun, hahead]
    simpa [Stmt.keptAll] using sublist_of_run_statement hexpr hrun

/-- The tokens kept by a list of statements stand in order in front of what was not read. -/
theorem sublist_of_statements (hframed : ∀ limit, (expr limit).Framed) (closing : Option Kind)
    (p : Parser σ) :
    (Stmt.keptAll ((statements expr closing).run p).1 ++
      ((statements expr closing).run p).2.tokens).Sublist p.tokens := by
  induction hleft : p.left using Nat.strongRecOn generalizing p with
  | ind n ih =>
    subst hleft
    by_cases hclose : closes closing p.current.kind
    · rw [run_statements_of_closes expr hclose]
      exact List.Sublist.refl _
    · have hrest := ih _ (left_attempt_lt expr (current_ne_eof hclose)) _ rfl
      rw [run_statements_of_not_closes expr hclose, Stmt.keptAll_append, List.append_assoc]
      exact (hrest.append_left _).trans (sublist_of_attempt hexpr hframed p)

theorem sublist_of_block (hframed : ∀ limit, (expr limit).Framed)
    (hkind : p.current.kind = .openCurly) :
    (((block expr).run p).1.kept ++ ((block expr).run p).2.tokens).Sublist p.tokens := by
  rw [run_block, Parser.tokens_of_ne_eof (p := p) (by rw [hkind]; decide)]
  exact (sublist_of_statements hexpr hframed (some .closeCurly) p.advance).cons_cons p.current

/-! ### Expressions -/

theorem sublist_of_run_unary (hkind : p.current.kind = .bang ∨ p.current.kind = .minus)
    (h : (unary expr).run p = (.ok e, q)) : (e.kept ++ q.ahead).Sublist p.tokens := by
  obtain ⟨a, ha, rfl⟩ := exists_of_run_unary h
  have hp : p.current.kind ≠ .eof := by
    rcases hkind with hkind | hkind <;> rw [hkind] <;> decide
  rw [Parser.tokens_of_ne_eof hp]
  exact (hexpr _ ha).cons_cons p.current

theorem sublist_of_run_group (h : (group expr).run p = (.ok e, q)) :
    (e.kept ++ q.ahead).Sublist p.tokens := by
  obtain ⟨m, hm, -, rfl⟩ := exists_of_run_group h
  have hclose : m.advance.ahead <:+ m.ahead := m.advance.ahead_suffix_tokens
  exact ((hclose.sublist.append_left e.kept).trans (hexpr _ hm)).trans
    p.ahead_suffix_tokens.sublist

theorem sublist_of_run_conditional (hframed : ∀ limit, (expr limit).Framed)
    (hkind : p.current.kind = .ifWord) (h : (conditional expr).run p = (.ok e, q)) :
    (e.kept ++ q.ahead).Sublist p.tokens := by
  obtain ⟨-, c, m, hc, -, hcurly, b, n, hb, hrest⟩ := exists_of_run_conditional h
  have hthen : (b.kept ++ n.tokens).Sublist m.ahead := by
    have hblock := sublist_of_block hexpr hframed (p := m.advance.advance) hcurly
    rw [hb] at hblock
    exact hblock.trans m.advance.ahead_suffix_tokens.sublist
  have hcondition : (c.kept ++ m.ahead).Sublist p.ahead :=
    (hexpr _ hc).trans p.advance.ahead_suffix_tokens.sublist
  rw [Parser.tokens_of_ne_eof (p := p) (by rw [hkind]; decide)]
  rcases hrest with ⟨-, hcurly', a, ha, rfl⟩ | ⟨rfl, rfl⟩
  · have helse : (a.kept ++ q.ahead).Sublist n.tokens := by
      have hblock := sublist_of_block hexpr hframed (p := n.advance.advance) hcurly'
      rw [ha] at hblock
      have hbehind : n.advance.advance.tokens <:+ n.tokens :=
        n.advance.ahead_suffix_tokens.trans n.ahead_suffix_tokens
      exact ((q.ahead_suffix_tokens.sublist.append_left a.kept).trans hblock).trans
        hbehind.sublist
    have hboth := ((helse.append_left b.kept).trans hthen).append_left c.kept
    simpa [Expr.kept] using hboth.trans hcondition
  · have hone := ((q.ahead_suffix_tokens.sublist.append_left b.kept).trans hthen).append_left c.kept
    simpa [Expr.kept] using hone.trans hcondition

theorem sublist_of_run_opening (hframed : ∀ limit, (expr limit).Framed)
    (h : (opening expr).run p = (.ok e, q)) : (e.kept ++ q.ahead).Sublist p.tokens := by
  have hleaf (hp : p.current.kind ≠ .eof) : (p.current :: p.ahead).Sublist p.tokens := by
    rw [Parser.tokens_of_ne_eof hp]
  rcases cases_of_run_opening h with ⟨hkind, rfl, rfl⟩ | ⟨hkind, h⟩ | ⟨hkind, rfl, rfl⟩ |
    ⟨hkind, h⟩ | ⟨-, h⟩ | ⟨hkind, h⟩
  · exact hleaf (by rw [hkind]; decide)
  · obtain ⟨value, -, rfl, rfl⟩ := exists_of_run_integer h
    exact hleaf (by rw [hkind]; decide)
  · exact hleaf (by rcases hkind with hkind | hkind <;> rw [hkind] <;> decide)
  · exact sublist_of_run_unary hexpr hkind h
  · exact sublist_of_run_group hexpr h
  · exact sublist_of_run_conditional hexpr hframed hkind h

/-- Joining puts the operator and the right operand behind what the left operand keeps. -/
theorem sublist_of_run_join {ts : List Token} (hleft : (left.kept ++ p.ahead).Sublist ts)
    (h : (join expr limit left).run p = (.ok e, q)) : (e.kept ++ q.ahead).Sublist ts := by
  change joinFrom expr limit left p = (.ok e, q) at h
  fun_induction joinFrom expr limit left p with
  | case1 left p hlimit joined joined' hjoined ih =>
    refine ih ?_ h
    obtain ⟨a, ha, rfl⟩ := exists_of_run_binary (Prod.ext hjoined rfl)
    have hright := (hexpr _ ha).cons_cons p.peek
    have hahead : p.ahead = p.peek :: p.advance.ahead :=
      Parser.ahead_of_peek_ne_eof (peek_ne_eof hlimit)
    rw [hahead] at hleft
    simpa [Expr.kept] using (hright.append_left left.kept).trans hleft
  | case2 left p _ joined d _ => simp at h
  | case3 left p _ =>
    obtain ⟨hleft', rfl⟩ := Prod.mk.inj h
    obtain rfl := Except.ok.inj hleft'
    exact hleft

end

theorem keepsOrder_expressionAt (room : Nat) (limit : Precedence) :
    (expressionAt room limit : Builder σ Expr).KeepsOrder := by
  induction room generalizing limit with
  | zero =>
    intro p q e h
    simp [run_expressionAt_zero] at h
  | succ room ih =>
    intro p q e h
    obtain ⟨inside, m, hroom, hbody, rfl⟩ := exists_of_run_expressionAt h
    obtain rfl : room = inside := Nat.succ.inj hroom
    obtain ⟨left, n, hopening, hjoin⟩ := Builder.exists_of_run_bind hbody
    have hleft := sublist_of_run_opening ih (framed_expressionAt room) hopening
    -- Leaving the expression keeps the cursor where it is.
    have hjoined : (e.kept ++ m.ahead).Sublist p.tokens := sublist_of_run_join ih hleft hjoin
    exact hjoined

end Grammar

/-! ## Programs -/

/-- The tokens that the program of a list of tokens keeps stand in the list in the same order, none
of them at or behind the end of the input. -/
theorem sublist_kept (ts : List Token) :
    (parseTokens ts).1.kept.Sublist (ts.takeWhile fun t => t.kind ≠ .eof) := by
  have hkept := Grammar.sublist_of_statements (Grammar.keepsOrder_expressionAt Parser.nestingLimit)
    (Grammar.framed_expressionAt _) none (Parser.start (ReadyTokens.ofList ts))
  rw [ReadyTokens.tokens_start] at hkept
  have hbefore : (ReadyTokens.ofList ts).tokens = ts.takeWhile fun t => t.kind ≠ .eof := by
    simp [ReadyTokens.ofList, ReadyTokens.isEof]
  rw [← hbefore, parseTokens_eq]
  exact (List.sublist_append_left _ _).trans hkept

/-- The tokens that the program of a list of tokens keeps are found in the list at places that only
go up, none of them at or behind the end of the input. -/
theorem exists_place_of_kept (ts : List Token) :
    ∃ place : Fin (parseTokens ts).1.kept.length ↪o
        Fin (ts.takeWhile fun t => t.kind ≠ .eof).length,
      ∀ i, (parseTokens ts).1.kept.get i =
        (ts.takeWhile fun t => t.kind ≠ .eof).get (place i) := by
  rw [← List.sublist_iff_exists_fin_orderEmbedding_get_eq]
  exact sublist_kept ts

end MonkeyFrontEnd
