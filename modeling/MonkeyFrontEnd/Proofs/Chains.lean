import MonkeyFrontEnd.Proofs.LastToken

/-!
Chains of operands with operators between them. What a chain stands for is said without a parser: it
is taken apart at the last of its weakest operators, and both sides are taken apart in the same way
(`Phrase.ofChain`). Reading the chain token by token, with loops for operators of equal strength and
calls for stronger ones, comes to the same tree (`exists_run_expression_ofChain`).
-/

namespace MonkeyFrontEnd

/-- An operator and the operand behind it. -/
structure Link where
  operator : Token
  operand : Phrase

namespace Link

def precedence (link : Link) : Precedence := link.operator.kind.precedence

def tokens (link : Link) : List Token := link.operator :: link.operand.tokens

/-! ## The last of the weakest -/

/-- The links before one of them, that link, and the links behind it. -/
@[ext]
structure Split where
  before : List Link
  weakest : Link
  after : List Link

namespace Split

def links (s : Split) : List Link := s.before ++ s.weakest :: s.after

/-- The link in the middle is the last of the weakest: none before it binds less strongly, and all
behind it bind more strongly. -/
structure AtLastWeakest (s : Split) : Prop where
  before : ∀ link ∈ s.before, ¬ link.precedence < s.weakest.precedence
  after : ∀ link ∈ s.after, s.weakest.precedence < link.precedence

theorem mem_links_of_before {s : Split} {link : Link} (h : link ∈ s.before) : link ∈ s.links :=
  List.mem_append_left _ h

theorem weakest_mem_links (s : Split) : s.weakest ∈ s.links :=
  List.mem_append_right _ List.mem_cons_self

theorem mem_links_of_after {s : Split} {link : Link} (h : link ∈ s.after) : link ∈ s.links :=
  List.mem_append_right _ (List.mem_cons_of_mem _ h)

/-- Of two places for the last of the weakest neither can be behind the other. -/
theorem AtLastWeakest.eq_of_before_eq_append {s s' : Split} {between : List Link}
    (hs : s.AtLastWeakest) (hs' : s'.AtLastWeakest) (hbefore : s'.before = s.before ++ between)
    (h : s.weakest :: s.after = between ++ s'.weakest :: s'.after) : s = s' := by
  cases between with
  | nil =>
    obtain ⟨hweakest, hafter⟩ := List.cons.inj h
    exact Split.ext (by rw [hbefore, List.append_nil]) hweakest hafter
  | cons link between =>
    obtain ⟨hweakest, hafter⟩ := List.cons.inj h
    have hbehind : s'.weakest ∈ s.after := by simp [hafter]
    have hahead : s.weakest ∈ s'.before := by simp [hbefore, hweakest]
    exact absurd (hs.after _ hbehind) (hs'.before _ hahead)

theorem AtLastWeakest.unique {s s' : Split} (hs : s.AtLastWeakest) (hs' : s'.AtLastWeakest)
    (h : s.links = s'.links) : s = s' := by
  rcases List.append_eq_append_iff.1 h with ⟨between, hbefore, h⟩ | ⟨between, hbefore, h⟩
  · exact hs.eq_of_before_eq_append hs' hbefore h
  · exact (hs'.eq_of_before_eq_append hs hbefore h).symm

end Split

/-- Some links, split at the last of the weakest. -/
def splitAtWeakest (link : Link) : List Link → Split
  | [] => ⟨[], link, []⟩
  | next :: rest =>
    let s := splitAtWeakest next rest
    if link.precedence < s.weakest.precedence then ⟨[], link, next :: rest⟩
    else { s with before := link :: s.before }

theorem links_splitAtWeakest (link : Link) (rest : List Link) :
    (splitAtWeakest link rest).links = link :: rest := by
  induction rest generalizing link with
  | nil => rfl
  | cons next rest ih =>
    rw [splitAtWeakest]
    split
    · rfl
    · exact congrArg (link :: ·) (ih next)

theorem atLastWeakest_splitAtWeakest (link : Link) (rest : List Link) :
    (splitAtWeakest link rest).AtLastWeakest := by
  induction rest generalizing link with
  | nil => exact ⟨fun _ h => absurd h List.not_mem_nil, fun _ h => absurd h List.not_mem_nil⟩
  | cons next rest ih =>
    obtain ⟨hbefore, hafter⟩ := ih next
    rw [splitAtWeakest]
    split
    next hlt =>
      -- The first link binds less strongly than the weakest of the others, so less than all of them.
      refine ⟨fun _ h => absurd h List.not_mem_nil, fun l hl => ?_⟩
      rw [← links_splitAtWeakest next rest] at hl
      rcases List.mem_append.1 hl with hl | hl
      · exact Nat.lt_of_lt_of_le hlt (Nat.le_of_not_lt (hbefore l hl))
      · rcases List.mem_cons.1 hl with rfl | hl
        · exact hlt
        · exact Nat.lt_trans hlt (hafter l hl)
    next hle =>
      refine ⟨fun l hl => ?_, hafter⟩
      rcases List.mem_cons.1 hl with rfl | hl
      · exact hle
      · exact hbefore l hl

/-- The split is the only one at the last of the weakest. -/
theorem splitAtWeakest_eq_iff {link : Link} {rest : List Link} {s : Split} :
    splitAtWeakest link rest = s ↔ s.links = link :: rest ∧ s.AtLastWeakest := by
  constructor
  · rintro rfl
    exact ⟨links_splitAtWeakest link rest, atLastWeakest_splitAtWeakest link rest⟩
  · rintro ⟨hlinks, hs⟩
    exact (atLastWeakest_splitAtWeakest link rest).unique hs
      ((links_splitAtWeakest link rest).trans hlinks.symm)

theorem length_splitAtWeakest (link : Link) (rest : List Link) :
    (splitAtWeakest link rest).before.length + (splitAtWeakest link rest).after.length = rest.length := by
  have h := congrArg List.length (links_splitAtWeakest link rest)
  simp only [Split.links, List.length_append, List.length_cons] at h
  omega

end Link

open Link

namespace Phrase

/-! ## The form of a chain -/

/-- The first operand of a chain and the links behind it, taken apart at the last of the weakest
operators, then on both sides of it, and so on. -/
def ofChain (first : Phrase) : List Link → Phrase
  | [] => first
  | link :: rest =>
    let s := splitAtWeakest link rest
    .binary (ofChain first s.before) s.weakest.operator (ofChain s.weakest.operand s.after)
termination_by links => links.length
decreasing_by
  all_goals
    have := length_splitAtWeakest link rest
    simp only [List.length_cons]
    omega

/-- The tokens of a chain as they are written. -/
def linkedTokens (first : Phrase) (links : List Link) : List Token :=
  first.tokens ++ links.flatMap Link.tokens

/-- The form may stand between the operators of a chain: it is closed, and no binary expression unless
in parentheses. -/
def isOperand (w : Phrase) : Bool := w.strength = .call && w.isClosed

theorem isOperand_iff {w : Phrase} : w.isOperand ↔ w.strength = .call ∧ w.isClosed := by
  simp [isOperand]

variable {first : Phrase} {links : List Link}

theorem tokens_ofChain (first : Phrase) (links : List Link) :
    (ofChain first links).tokens = linkedTokens first links := by
  fun_induction ofChain first links with
  | case1 first => simp [linkedTokens]
  | case2 first link rest s ihbefore ihafter =>
    rw [linkedTokens, ← links_splitAtWeakest link rest, tokens, ihbefore, ihafter]
    simp [linkedTokens, Split.links, Link.tokens, s]

/-- A chain binds as strongly as one of its operators, or as an operand if it has none. -/
theorem strength_ofChain {P : Precedence → Prop} (hfirst : first.isOperand) (hcall : P .call)
    (hlinks : ∀ link ∈ links, P link.precedence) : P (ofChain first links).strength := by
  cases links with
  | nil =>
    rw [ofChain, (isOperand_iff.1 hfirst).1]
    exact hcall
  | cons link rest =>
    rw [ofChain]
    apply hlinks
    rw [← links_splitAtWeakest link rest]
    exact Split.weakest_mem_links _

/-- A chain needs no parentheses: every operator stands where its operands are not taken apart. -/
theorem isClosed_ofChain (first : Phrase) (links : List Link) (hfirst : first.isOperand)
    (hlinks : ∀ link ∈ links, link.operator.kind.isOperator ∧ link.operand.isOperand) :
    (ofChain first links).isClosed := by
  fun_induction ofChain first links with
  | case1 first => exact (isOperand_iff.1 hfirst).2
  | case2 first link rest s ihbefore ihafter =>
    obtain ⟨hsplit, hbefore, hafter⟩ := splitAtWeakest_eq_iff.1 (rfl : splitAtWeakest link rest = s)
    rw [← hsplit] at hlinks
    obtain ⟨hoperator, hoperand⟩ := hlinks _ (Split.weakest_mem_links _)
    have helse : s.weakest.operator.kind ≠ .elseWord := by
      intro h
      rw [h] at hoperator
      cases hoperator
    have hcall := s.weakest.operator.kind.precedence_lt_call
    refine fits_binary_iff.2 ⟨hoperator, ?_, ?_, ?_, ?_⟩
    · exact strength_ofChain (P := (¬ · < s.weakest.precedence)) hfirst (Nat.lt_asymm hcall) hbefore
    · exact fits_of_isClosed helse _
        (ihbefore hfirst fun l hl => hlinks l (Split.mem_links_of_before hl))
    · exact strength_ofChain (P := (s.weakest.precedence < ·)) hoperand hcall hafter
    · exact ihafter hoperand fun l hl => hlinks l (Split.mem_links_of_after hl)

end Phrase

/-! ## Reading a chain -/

namespace Grammar

variable {σ : Type} [TokenSource σ]

/-- Limits that no operator exceeds make no difference. -/
theorem run_expression_of_no_operator {limit limit' : Precedence}
    (h : ∀ k : Kind, ¬ limit < k.precedence) (h' : ∀ k : Kind, ¬ limit' < k.precedence)
    (p : Parser σ) : (expression limit).run p = (expression limit').run p := by
  have hbody (expr : Precedence → Builder σ Expr) (p : Parser σ) :
      (body expr limit).run p = (body expr limit').run p := by
    rw [body, body, Builder.run_bind, Builder.run_bind]
    rcases (opening expr).run p with ⟨_ | left, q⟩
    · rfl
    · exact (run_join_of_not_lt expr (h _) left).trans (run_join_of_not_lt expr (h' _) left).symm
  rw [run_expression, run_expression]
  cases p.room with
  | zero => rfl
  | succ room => rw [run_expressionAt_succ, run_expressionAt_succ, hbody]

/-- Operands with operators between them that bind more strongly than the limit are read as the chain
is taken apart at the last of its weakest operators, and so on. Nothing is recorded, and reading stops
on the last token, before one that is a semicolon or does not bind more strongly than the limit. -/
theorem exists_run_expression_ofChain {p : Parser σ} {limit : Precedence} {first : Phrase}
    {links : List Link} {t : Token} (hp : p.cursor.Faces (first.linkedTokens links) t)
    (hfirst : first.isOperand)
    (hlinks : ∀ link ∈ links, limit < link.precedence ∧ link.operand.isOperand)
    (helse : t.kind ≠ .elseWord) (ht : t.kind = .semicolon ∨ ¬ limit < t.kind.precedence)
    (hroom : (first.ofChain links).nesting ≤ p.room) :
    ∃ q, (expression limit).run p = (.ok (first.ofChain links).tree, q) ∧
      q.diagnostics = p.diagnostics ∧ q.depth = p.depth ∧
      (first.linkedTokens links).getLast? = some q.current ∧ q.peek = t := by
  have hoperators (link : Link) (h : link ∈ links) :
      link.operator.kind.isOperator ∧ link.operand.isOperand := by
    refine ⟨(Kind.isOperator_iff_lowest_lt _).2 ?_, (hlinks link h).2⟩
    exact Nat.lt_of_le_of_lt (Nat.zero_le _) (hlinks link h).1
  have hclosed := Phrase.isClosed_ofChain first links hfirst hoperators
  have hstop : ¬ limit < t.kind.precedence := by
    rcases ht with ht | ht
    · rw [ht]
      exact Nat.not_lt_zero _
    · exact ht
  rw [← Phrase.tokens_ofChain] at hp ⊢
  by_cases hcall : limit < .call
  · have hlimit := Phrase.strength_ofChain (P := (limit < ·)) hfirst hcall fun l hl => (hlinks l hl).1
    exact Phrase.exists_run_expression hp hclosed hroom hlimit helse hstop
  · -- Nothing exceeds this limit, so there are no operators and a lower limit does as well.
    have hno (k : Kind) : ¬ limit < k.precedence := fun h => hcall (Nat.lt_trans h k.precedence_lt_call)
    have hlimit := Phrase.strength_ofChain (P := (Precedence.unary < ·)) hfirst (by decide) fun l hl =>
      absurd (hlinks l hl).1 (hno _)
    rw [run_expression_of_no_operator hno Kind.not_unary_lt_precedence]
    exact Phrase.exists_run_expression hp hclosed hroom hlimit helse (Kind.not_unary_lt_precedence _)

/-- The operand `a`. -/
def headOperand : Phrase := .identifier (.unplaced .identifier "a")

/-- What follows the operand in `a - b * 2 - -c == d`: a weak operator, a stronger one, one as strong
as the first and a weaker one. -/
def mixedLinks : List Link :=
  [⟨.unplaced .minus "-", .identifier (.unplaced .identifier "b")⟩,
    ⟨.unplaced .star "*", .integer (.unplaced .integer "2")⟩,
    ⟨.unplaced .minus "-", .unary (.unplaced .minus "-") (.identifier (.unplaced .identifier "c"))⟩,
    ⟨.unplaced .equal "==", .identifier (.unplaced .identifier "d")⟩]

/-- A parser on this chain, before a closing parenthesis, with room for what the chain needs only. -/
def chainParser : Parser ReadyTokens :=
  { Parser.start (ReadyTokens.ofList (headOperand.linkedTokens mixedLinks ++ [.unplaced .closeParen ")"]))
    with depth := 61 }

theorem exists_run_expression_ofChain_mixedLinks :
    chainParser.cursor.Faces (headOperand.linkedTokens mixedLinks) (.unplaced .closeParen ")") ∧
      headOperand.isOperand ∧
      (∀ link ∈ mixedLinks, Precedence.lowest < link.precedence ∧ link.operand.isOperand) ∧
      (headOperand.ofChain mixedLinks).nesting ≤ chainParser.room ∧
      (headOperand.ofChain mixedLinks).tree.render = "(((a - (b * 2)) - (-c)) == d)" ∧
      ∃ q, (expression .lowest).run chainParser = (.ok (headOperand.ofChain mixedLinks).tree, q) ∧
        q.diagnostics = chainParser.diagnostics ∧ q.depth = chainParser.depth ∧
        (headOperand.linkedTokens mixedLinks).getLast? = some q.current ∧
        q.peek = .unplaced .closeParen ")" := by
  have hp : ∀ i ≤ (headOperand.linkedTokens mixedLinks).length,
      chainParser.cursor.nth i =
        (headOperand.linkedTokens mixedLinks).getD i (.unplaced .closeParen ")") := by
    decide +kernel
  have hfirst : headOperand.isOperand := by decide +kernel
  have hlinks : ∀ link ∈ mixedLinks, Precedence.lowest < link.precedence ∧ link.operand.isOperand := by
    decide +kernel
  have hroom : (headOperand.ofChain mixedLinks).nesting ≤ chainParser.room := by decide +kernel
  refine ⟨hp, hfirst, hlinks, hroom, by decide +kernel, ?_⟩
  exact exists_run_expression_ofChain hp hfirst hlinks (by decide) (.inr (by decide)) hroom

end Grammar

end MonkeyFrontEnd
