import MonkeyFrontEnd.Proofs.NestingLimit
import MonkeyFrontEnd.Proofs.Spacing
import MonkeyFrontEnd.Proofs.Success

/-!
How high trees grow. Operands of unary operators, right operands and the parts of an `if` are read
inside one more expression, so the nesting limit bounds how many of these stand inside one another
(`levels_parse_le`). The left operand of a binary operator was read before, in a loop: on a chain of
operators the tree grows with the chain (`exists_height_eq`). A tree is therefore as high as the limit
times the longest run of left operands, and no higher (`height_parseText_le`).
-/

namespace MonkeyFrontEnd

/-! ## Measures -/

mutual

/-- The most expressions that stand inside one another, the innermost included. -/
def Expr.height : Expr → Nat
  | .identifier _ => 1
  | .integer _ _ => 1
  | .boolean _ _ => 1
  | .unary _ _ operand => operand.height + 1
  | .binary _ _ left right => max left.height right.height + 1
  | .ifThen _ condition consequence => max condition.height consequence.height + 1
  | .ifElse _ condition consequence alternative =>
    max condition.height (max consequence.height alternative.height) + 1
termination_by structural e => e

def Block.height : Block → Nat
  | .mk _ statements => Stmt.heightAll statements
termination_by structural b => b

def Stmt.height : Stmt → Nat
  | .letStmt _ _ value => value.height
  | .bareReturn _ => 0
  | .returnValue _ value => value.height
  | .expression _ value => value.height
  | .block body => body.height
termination_by structural s => s

def Stmt.heightAll : List Stmt → Nat
  | [] => 0
  | s :: rest => max s.height (Stmt.heightAll rest)
termination_by structural ss => ss

end

mutual

/-- The height, if a left operand counts as no deeper than the operator it belongs to. -/
def Expr.levels : Expr → Nat
  | .identifier _ => 1
  | .integer _ _ => 1
  | .boolean _ _ => 1
  | .unary _ _ operand => operand.levels + 1
  | .binary _ _ left right => max left.levels (right.levels + 1)
  | .ifThen _ condition consequence => max condition.levels consequence.levels + 1
  | .ifElse _ condition consequence alternative =>
    max condition.levels (max consequence.levels alternative.levels) + 1
termination_by structural e => e

def Block.levels : Block → Nat
  | .mk _ statements => Stmt.levelsAll statements
termination_by structural b => b

def Stmt.levels : Stmt → Nat
  | .letStmt _ _ value => value.levels
  | .bareReturn _ => 0
  | .returnValue _ value => value.levels
  | .expression _ value => value.levels
  | .block body => body.levels
termination_by structural s => s

def Stmt.levelsAll : List Stmt → Nat
  | [] => 0
  | s :: rest => max s.levels (Stmt.levelsAll rest)
termination_by structural ss => ss

end

/-- The steps from an expression down its left operands. -/
def Expr.leftSteps : Expr → Nat
  | .binary _ _ left _ => left.leftSteps + 1
  | _ => 0

mutual

/-- The most left operands that stand directly inside one another anywhere in an expression. -/
def Expr.leftRun : Expr → Nat
  | .identifier _ => 0
  | .integer _ _ => 0
  | .boolean _ _ => 0
  | .unary _ _ operand => operand.leftRun
  | .binary _ _ left right => max (left.leftSteps + 1) (max left.leftRun right.leftRun)
  | .ifThen _ condition consequence => max condition.leftRun consequence.leftRun
  | .ifElse _ condition consequence alternative =>
    max condition.leftRun (max consequence.leftRun alternative.leftRun)
termination_by structural e => e

def Block.leftRun : Block → Nat
  | .mk _ statements => Stmt.leftRunAll statements
termination_by structural b => b

def Stmt.leftRun : Stmt → Nat
  | .letStmt _ _ value => value.leftRun
  | .bareReturn _ => 0
  | .returnValue _ value => value.leftRun
  | .expression _ value => value.leftRun
  | .block body => body.leftRun
termination_by structural s => s

def Stmt.leftRunAll : List Stmt → Nat
  | [] => 0
  | s :: rest => max s.leftRun (Stmt.leftRunAll rest)
termination_by structural ss => ss

end

namespace Program

/-- The height of the highest expression of the program. -/
def height (program : Program) : Nat := Stmt.heightAll program.statements

def levels (program : Program) : Nat := Stmt.levelsAll program.statements

def leftRun (program : Program) : Nat := Stmt.leftRunAll program.statements

end Program

/-! ## Height against levels -/

section

variable {bound : Nat}

theorem Expr.leftSteps_le_leftRun (e : Expr) : e.leftSteps ≤ e.leftRun := by
  cases e with
  | binary _ _ left right => exact Nat.le_max_left ..
  | _ => exact Nat.zero_le _

theorem Expr.height_le_of_add_le {e : Expr} (h : e.leftRun ≤ bound)
    (hadd : e.height + bound ≤ e.levels * (bound + 1) + e.leftSteps) :
    e.height ≤ e.levels * (bound + 1) := by
  have hsteps := e.leftSteps_le_leftRun
  omega

mutual

/-- Between two levels there are only left operands. -/
theorem Expr.height_add_le : (e : Expr) → e.leftRun ≤ bound →
    e.height + bound ≤ e.levels * (bound + 1) + e.leftSteps
  | .identifier _, _ => by simp only [Expr.height, Expr.levels]; omega
  | .integer _ _, _ => by simp only [Expr.height, Expr.levels]; omega
  | .boolean _ _, _ => by simp only [Expr.height, Expr.levels]; omega
  | .unary _ _ operand, h => by
    simp only [Expr.leftRun] at h
    have hoperand := Expr.height_le_of_add_le h (operand.height_add_le h)
    simp only [Expr.height, Expr.levels, Nat.succ_mul]
    omega
  | .binary _ _ left right, h => by
    simp only [Expr.leftRun, Nat.max_le] at h
    have hleft := left.height_add_le h.2.1
    have hright := Expr.height_le_of_add_le h.2.2 (right.height_add_le h.2.2)
    simp only [Expr.height, Expr.levels, Expr.leftSteps, ← Nat.mul_max_mul_right, Nat.succ_mul]
    omega
  | .ifThen _ condition consequence, h => by
    simp only [Expr.leftRun, Nat.max_le] at h
    have hcondition := Expr.height_le_of_add_le h.1 (condition.height_add_le h.1)
    have hconsequence := consequence.height_le h.2
    simp only [Expr.height, Expr.levels, ← Nat.mul_max_mul_right, Nat.succ_mul]
    omega
  | .ifElse _ condition consequence alternative, h => by
    simp only [Expr.leftRun, Nat.max_le] at h
    have hcondition := Expr.height_le_of_add_le h.1 (condition.height_add_le h.1)
    have hconsequence := consequence.height_le h.2.1
    have halternative := alternative.height_le h.2.2
    simp only [Expr.height, Expr.levels, ← Nat.mul_max_mul_right, Nat.succ_mul]
    omega
termination_by structural e => e

theorem Block.height_le : (b : Block) → b.leftRun ≤ bound → b.height ≤ b.levels * (bound + 1)
  | .mk _ statements, h => Stmt.heightAll_le statements h
termination_by structural b => b

theorem Stmt.height_le : (s : Stmt) → s.leftRun ≤ bound → s.height ≤ s.levels * (bound + 1)
  | .letStmt _ _ value, h => Expr.height_le_of_add_le h (value.height_add_le h)
  | .bareReturn _, _ => Nat.zero_le _
  | .returnValue _ value, h => Expr.height_le_of_add_le h (value.height_add_le h)
  | .expression _ value, h => Expr.height_le_of_add_le h (value.height_add_le h)
  | .block body, h => body.height_le h
termination_by structural s => s

theorem Stmt.heightAll_le : (ss : List Stmt) → Stmt.leftRunAll ss ≤ bound →
    Stmt.heightAll ss ≤ Stmt.levelsAll ss * (bound + 1)
  | [], _ => Nat.zero_le _
  | s :: rest, h => by
    simp only [Stmt.leftRunAll, Nat.max_le] at h
    have hfirst := s.height_le h.1
    have hrest := Stmt.heightAll_le rest h.2
    simp only [Stmt.heightAll, Stmt.levelsAll, ← Nat.mul_max_mul_right]
    omega
termination_by structural ss => ss

end

end

/-! ## The limit bounds the levels -/

variable {σ : Type} [TokenSource σ] {p q : Parser σ} {n : Nat}

/-- What the rule reads has no more levels than `n`. -/
def Builder.LevelsWithin (n : Nat) (b : Builder σ Expr) : Prop :=
  ∀ {p q : Parser σ} {e : Expr}, b.run p = (.ok e, q) → e.levels ≤ n

theorem Stmt.levelsAll_append (ss rest : List Stmt) :
    levelsAll (ss ++ rest) = max (levelsAll ss) (levelsAll rest) := by
  induction ss with
  | nil => exact (Nat.zero_max _).symm
  | cons s ss ih => rw [List.cons_append, levelsAll, levelsAll, ih, Nat.max_assoc]

namespace Grammar

variable {expr : Precedence → Builder σ Expr} {e left : Expr} {s : Stmt} {limit : Precedence}

section

variable (hexpr : ∀ limit, (expr limit).LevelsWithin n)

include hexpr

theorem levels_of_run_statement (h : (statement expr).run p = (.ok s, q)) : s.levels ≤ n := by
  rcases cases_of_run_statement h with ⟨-, h⟩ | ⟨-, h⟩ | h
  · obtain ⟨-, -, e, m, he, -, rfl⟩ := exists_of_run_letStatement h
    exact hexpr _ he
  · rcases cases_of_run_returnStatement h with ⟨rfl, -⟩ | ⟨e, m, he, -, rfl⟩
    · exact Nat.zero_le n
    · exact hexpr _ he
  · obtain ⟨e, m, he, -, rfl⟩ := exists_of_run_expressionStatement h
    exact hexpr _ he

theorem levels_of_attempt (p : Parser σ) : Stmt.levelsAll ((attempt expr).run p).1.toList ≤ n := by
  rcases hrun : (statement expr).run p with ⟨d | s, m⟩
  · rw [run_attempt_of_error hrun]
    exact Nat.zero_le n
  · rw [run_attempt_of_ok hrun]
    exact Nat.max_le.2 ⟨levels_of_run_statement hexpr hrun, Nat.zero_le n⟩

theorem levels_of_statements (closing : Option Kind) (p : Parser σ) :
    Stmt.levelsAll ((statements expr closing).run p).1 ≤ n := by
  induction hleft : p.left using Nat.strongRecOn generalizing p with
  | ind left ih =>
    subst hleft
    by_cases hclose : closes closing p.current.kind
    · rw [run_statements_of_closes expr hclose]
      exact Nat.zero_le n
    · have hrest := ih _ (left_attempt_lt expr (current_ne_eof hclose)) _ rfl
      rw [run_statements_of_not_closes expr hclose, Stmt.levelsAll_append]
      exact Nat.max_le.2 ⟨levels_of_attempt hexpr p, hrest⟩

theorem levels_of_block {b : Block} (h : (block expr).run p = (b, q)) : b.levels ≤ n := by
  rw [run_block, Prod.mk.injEq] at h
  rw [← h.1]
  exact levels_of_statements hexpr _ _

/-- The parts of an `if` are one level below it. -/
theorem levels_of_run_conditional (h : (conditional expr).run p = (.ok e, q)) : e.levels ≤ n + 1 := by
  obtain ⟨-, c, m, hc, -, -, b, m', hb, hrest⟩ := exists_of_run_conditional h
  have hcondition := hexpr _ hc
  have hthen := levels_of_block hexpr hb
  rcases hrest with ⟨-, -, a, ha, rfl⟩ | ⟨rfl, -⟩
  · have helse := levels_of_block hexpr ha
    simp only [Expr.levels]
    omega
  · simp only [Expr.levels]
    omega

theorem levels_of_run_opening (h : (opening expr).run p = (.ok e, q)) : e.levels ≤ n + 1 := by
  rcases cases_of_run_opening h with ⟨-, rfl, -⟩ | ⟨-, h⟩ | ⟨-, rfl, -⟩ | ⟨-, h⟩ | ⟨-, h⟩ | ⟨-, h⟩
  · exact Nat.le_add_left ..
  · obtain ⟨value, -, rfl, -⟩ := exists_of_run_integer h
    exact Nat.le_add_left ..
  · exact Nat.le_add_left ..
  · obtain ⟨a, ha, rfl⟩ := exists_of_run_unary h
    exact Nat.succ_le_succ (hexpr _ ha)
  · obtain ⟨m, hm, -⟩ := exists_of_run_group h
    exact Nat.le_succ_of_le (hexpr _ hm)
  · exact levels_of_run_conditional hexpr h

/-- Joining an operator puts its right operand one level below, and leaves the left one where it was. -/
theorem levels_of_run_join (hleft : left.levels ≤ n + 1)
    (h : (join expr limit left).run p = (.ok e, q)) : e.levels ≤ n + 1 := by
  change joinFrom expr limit left p = (.ok e, q) at h
  fun_induction joinFrom expr limit left p with
  | case1 left p _ joined joined' hjoined ih =>
    refine ih ?_ h
    obtain ⟨a, ha, rfl⟩ := exists_of_run_binary (Prod.ext hjoined rfl)
    exact Nat.max_le.2 ⟨hleft, Nat.succ_le_succ (hexpr _ ha)⟩
  | case2 left p _ joined d _ => simp at h
  | case3 left p _ =>
    obtain rfl := Except.ok.inj (Prod.mk.inj h).1
    exact hleft

end

theorem levelsWithin_expressionAt (room : Nat) (limit : Precedence) :
    (expressionAt room limit : Builder σ Expr).LevelsWithin room := by
  induction room generalizing limit with
  | zero =>
    intro p q e h
    simp [run_expressionAt_zero] at h
  | succ room ih =>
    intro p q e h
    obtain ⟨inside, m, hroom, hbody, -⟩ := exists_of_run_expressionAt h
    obtain rfl : room = inside := Nat.succ.inj hroom
    obtain ⟨left, m', hopening, hjoin⟩ := Builder.exists_of_run_bind hbody
    exact levels_of_run_join ih (levels_of_run_opening ih hopening) hjoin

end Grammar

/-- The limit bounds the levels of whatever is parsed, with errors or without. -/
theorem levels_parse_le (s : σ) : (parse s).1.levels ≤ Parser.nestingLimit := by
  rw [parse, Parser.parseProgram, Grammar.run_program_expression rfl, Grammar.run_program]
  exact Grammar.levels_of_statements (Grammar.levelsWithin_expressionAt _) _ _

/-- The nesting limit bounds the trees of a program but for left operands. No path leads through more
expressions than the limit if steps to a left operand are not counted; and a tree is no higher than
the limit times one more than the longest run of such steps. -/
theorem height_parseText_le (source file : String) :
    let program := (parseText source file).1
    program.levels ≤ Parser.nestingLimit ∧
      program.height ≤ Parser.nestingLimit * (program.leftRun + 1) := by
  have hlevels := levels_parse_le (Scanner.ofString source file)
  have hheight := Stmt.heightAll_le (parseText source file).1.statements (Nat.le_refl _)
  exact ⟨hlevels, hheight.trans (Nat.mul_le_mul_right _ hlevels)⟩

/-! ## Chains of operators -/

/-- Ones, joined by so many plus signs. -/
def chainSource (operators : Nat) : String :=
  String.ofList ('1' :: (List.replicate operators ['+', '1']).flatten)

/-- The tokens of a chain, without their places. -/
def chainTokens (operators : Nat) : List Token :=
  .unplaced .integer "1" ::
    (List.replicate operators [.unplaced .plus "+", .unplaced .integer "1"]).flatten

theorem readBare_chainSource (operators : Nat) :
    readBare (chainSource operators).toList = chainTokens operators := by
  have hone {rest : List Char} (h : ∀ c, rest.head? = some c → Kind.integer.glues c = false) :
      readBare ('1' :: rest) = .unplaced .integer "1" :: readBare rest :=
    readBare_token (t := .unplaced .integer "1") (by decide) h
  have hplus {rest : List Char} : readBare ('+' :: '1' :: rest) =
      .unplaced .plus "+" :: readBare ('1' :: rest) :=
    readBare_token (t := .unplaced .plus "+") (by decide) (by rintro c ⟨⟩; decide)
  rw [chainSource, String.toList_ofList]
  induction operators with
  | zero =>
    rw [List.replicate_zero, List.flatten_nil, hone (by simp), readBare_nil]
    rfl
  | succ operators ih =>
    have hstop : ∀ c, (List.replicate (operators + 1) ['+', '1']).flatten.head? = some c →
        Kind.integer.glues c = false := by
      simpa [List.replicate_succ] using (by decide : Kind.integer.glues '+' = false)
    rw [hone hstop, List.replicate_succ, List.flatten_cons, List.cons_append, List.singleton_append,
      hplus, ih]
    rfl

/-- The tokens of a chain make a written form in which only left operands stand inside one another. -/
theorem exists_phrase_of_chainTokens {operators : Nat} {ts : List Token}
    (h : ts.map Token.bare = chainTokens operators) :
    ∃ w : Phrase, w.tokens = ts ∧ (∀ next, w.fits next) ∧ ¬ w.strength < Kind.plus.precedence ∧
      w.nesting ≤ 2 ∧ w.tree.height = operators + 1 := by
  have hoperand {digits : Token} (hdigits : digits.bare = .unplaced .integer "1") (next : Kind) :
      (Phrase.integer digits).fits next := by
    obtain ⟨hkind, htext⟩ : digits.kind = .integer ∧ digits.text = "1" := by
      simpa [Token.bare, Token.unplaced] using hdigits
    exact Phrase.fits_integer_iff.2 ⟨hkind, by rw [htext]; decide +kernel⟩
  induction operators generalizing ts with
  | zero =>
    obtain ⟨digits, rfl, hdigits⟩ := List.map_eq_singleton_iff.1 h
    have hcall : ¬ Precedence.call < Kind.plus.precedence := by decide
    exact ⟨.integer digits, rfl, hoperand hdigits, hcall, Nat.le_succ 1, rfl⟩
  | succ operators ih =>
    -- The last operator is the outermost one, and all before it is its left operand.
    rw [chainTokens, List.replicate_succ', List.flatten_append, ← List.cons_append, ← chainTokens,
      List.flatten_singleton] at h
    obtain ⟨before, behind, rfl, hbefore, hbehind⟩ := List.map_eq_append_iff.1 h
    obtain ⟨operator, last, rfl, hoperator, hlast⟩ := List.map_eq_cons_iff.1 hbehind
    obtain ⟨digits, rfl, hdigits⟩ := List.map_eq_singleton_iff.1 hlast
    have hkind : operator.kind = .plus := congrArg Token.kind hoperator
    obtain ⟨left, rfl, hfits, hstrength, hnesting, hheight⟩ := ih hbefore
    refine ⟨.binary left operator (.integer digits), rfl, fun next => ?_, ?_, ?_, ?_⟩
    · have htighter : Kind.plus.precedence < (Phrase.integer digits).strength :=
        (by decide : Kind.plus.precedence < Precedence.call)
      have hright := hoperand hdigits next
      rw [Phrase.fits_binary_iff, hkind]
      exact ⟨rfl, hstrength, hfits .plus, htighter, hright⟩
    · rw [Phrase.strength, hkind]
      decide
    · exact Nat.max_le.2 ⟨hnesting, Nat.le_refl 2⟩
    · have hpos : 1 ≤ left.tree.height := by omega
      simp only [Phrase.tree, Expr.height, hheight]
      omega

/-- A chain is parsed without a diagnostic, and its tree is as high as the chain is long. -/
theorem exists_height_eq (operators : Nat) (file : String) :
    (parseText (chainSource operators) file).2.diagnostics = #[] ∧
      (parseText (chainSource operators) file).1.height = operators + 1 := by
  have hbare := Scanner.map_bare_drain (Scanner.ofString (chainSource operators) file)
  obtain ⟨w, htokens, hfits, -, hnesting, hheight⟩ :=
    exists_phrase_of_chainTokens (hbare.trans (readBare_chainSource operators))
  have htext : (TokenSource.drain (Scanner.ofString (chainSource operators) file)).1 =
      Sentence.tokensAll [.expression w none] := by
    simp [Sentence.tokensAll, Sentence.tokens, htokens]
  have hadmissible : Sentence.fitsAll [.expression w none] .eof := by
    have hends : endsValue none .eof = true := by decide
    exact Sentence.fitsAll_cons_iff.2 ⟨Sentence.fits_expression_iff.2 ⟨hfits _, hends⟩, rfl⟩
  have hwithin : Sentence.nestingAll [.expression w none] ≤ Parser.nestingLimit := by
    simp only [Sentence.nestingAll, Sentence.nesting, Parser.nestingLimit]
    omega
  obtain ⟨hprogram, hquiet⟩ := parse_of_nesting_le htext hadmissible hwithin
  refine ⟨hquiet, ?_⟩
  rw [parseText, hprogram, Program.height]
  simpa [Sentence.treeAll, Sentence.tree, Stmt.heightAll, Stmt.height] using hheight

/-- No bound holds for the trees of all sources. -/
theorem not_exists_height_bound :
    ¬ ∃ bound, ∀ source file : String, (parseText source file).1.height ≤ bound := by
  rintro ⟨bound, h⟩
  have hheight := (exists_height_eq bound "shell").2
  have hbound := h (chainSource bound) "shell"
  omega

end MonkeyFrontEnd
