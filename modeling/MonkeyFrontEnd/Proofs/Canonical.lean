import MonkeyFrontEnd.Proofs.Overrun
import MonkeyFrontEnd.Proofs.Separation

/-!
The form in which a program without `if` is rendered. Every operator stands with its operands in
parentheses of its own, and no other parentheses are left. This form has the tree it is rendered from,
it is admissible wherever the original was, and it nests as deeply as the tree needs; and the rendering
is read as its tokens (`readBare_renderAll`).
-/

namespace MonkeyFrontEnd

/-! ## Trees -/

/-- The expression holds an `if`. -/
def Expr.branches : Expr → Bool
  | .identifier _ | .integer _ _ | .boolean _ _ => false
  | .unary _ _ operand => operand.branches
  | .binary _ _ left right => left.branches || right.branches
  | .ifThen .. | .ifElse .. => true

/-- The expressions that have to be open at once where the rendering of an expression without `if` is
parsed. Only parentheses and operands open more, and every operator is rendered in parentheses. -/
def Expr.need : Expr → Nat
  | .identifier _ | .integer _ _ | .boolean _ _ => 1
  | .unary _ _ operand => 2 + operand.need
  | .binary _ _ left right => max (1 + left.need) (2 + right.need)
  | .ifThen .. | .ifElse .. => 0

namespace Stmt

/-- The expression of a statement. -/
def value? : Stmt → Option Expr
  | .letStmt _ _ value => some value
  | .bareReturn _ => none
  | .returnValue _ value => some value
  | .expression _ value => some value
  | .block _ => none

def branches (s : Stmt) : Bool := s.value?.any Expr.branches

/-- What the expression of a statement needs, nothing where there is none. -/
def need (s : Stmt) : Nat := (s.value?.map Expr.need).getD 0

/-- The statement is a `let` or a `return`, whose renderings end with a semicolon. -/
def isTerminated : Stmt → Bool
  | .letStmt .. | .bareReturn _ | .returnValue .. => true
  | _ => false

end Stmt

/-! ## The form -/

/-- In parentheses that were read from no source. -/
def Phrase.inParens (w : Phrase) : Phrase :=
  .group (.unplaced .openParen "(") w (.unplaced .closeParen ")")

/-- The expression as it is rendered, if it holds no `if`. -/
def Phrase.canonical : Phrase → Phrase
  | .unary operator operand => (Phrase.unary operator operand.canonical).inParens
  | .binary left operator right =>
    (Phrase.binary left.canonical operator right.canonical).inParens
  | .group _ inner _ => inner.canonical
  | w => w

def Sentence.canonical : Sentence → Sentence
  | .letStmt word name _ value _ =>
    .letStmt word name (.unplaced .assign "=") value.canonical (some (.unplaced .semicolon ";"))
  | .bareReturn word _ => .bareReturn word (some (.unplaced .semicolon ";"))
  | .returnValue word value _ =>
    .returnValue word value.canonical (some (.unplaced .semicolon ";"))
  | .expression value _ => .expression value.canonical none

namespace Phrase

theorem branches_tree : (w : Phrase) → w.tree.branches = w.branches
  | .identifier _ => rfl
  | .integer _ => rfl
  | .boolean _ => rfl
  | .unary _ operand => operand.branches_tree
  | .binary left _ right => by
    rw [tree, Expr.branches, left.branches_tree, right.branches_tree, branches]
  | .group _ inner _ => inner.branches_tree
  | .ifThen .. => rfl
  | .ifElse .. => rfl

theorem branches_canonical : (w : Phrase) → w.canonical.branches = w.branches
  | .identifier _ => rfl
  | .integer _ => rfl
  | .boolean _ => rfl
  | .unary _ operand => operand.branches_canonical
  | .binary left operator right => by
    change (left.canonical.branches || right.canonical.branches) = _
    rw [left.branches_canonical, right.branches_canonical, branches]
  | .group _ inner _ => inner.branches_canonical
  | .ifThen .. => rfl
  | .ifElse .. => rfl

theorem tree_canonical : (w : Phrase) → w.canonical.tree = w.tree
  | .identifier _ => rfl
  | .integer _ => rfl
  | .boolean _ => rfl
  | .unary operator operand => by
    change Expr.unary operator operator.text operand.canonical.tree = _
    rw [operand.tree_canonical, tree]
  | .binary left operator right => by
    change Expr.binary operator operator.text left.canonical.tree right.canonical.tree = _
    rw [left.tree_canonical, right.tree_canonical, tree]
  | .group _ inner _ => inner.tree_canonical
  | .ifThen .. => rfl
  | .ifElse .. => rfl

/-- No operator takes the form apart. -/
theorem strength_canonical : (w : Phrase) → w.canonical.strength = .call
  | .identifier _ => rfl
  | .integer _ => rfl
  | .boolean _ => rfl
  | .unary _ _ => rfl
  | .binary _ _ _ => rfl
  | .group _ inner _ => inner.strength_canonical
  | .ifThen .. => rfl
  | .ifElse .. => rfl

theorem fits_inParens_iff {w : Phrase} {next : Kind} : w.inParens.fits next ↔ w.fits .closeParen := by
  simp [inParens, fits_group_iff, Token.unplaced]

/-- The form is admissible before whatever token. -/
theorem fits_canonical {next k : Kind} :
    (w : Phrase) → w.branches = false → w.fits next → w.canonical.fits k
  | .identifier _, _, h => h
  | .integer _, _, h => h
  | .boolean _, _, h => h
  | .unary operator operand, hplain, h => by
    obtain ⟨hoperator, -, hoperand⟩ := fits_unary_iff.1 h
    have hstrength : Precedence.unary < operand.canonical.strength := by
      rw [operand.strength_canonical]
      decide
    rw [canonical, fits_inParens_iff, fits_unary_iff]
    exact ⟨hoperator, hstrength, operand.fits_canonical hplain hoperand⟩
  | .binary left operator right, hplain, h => by
    obtain ⟨hoperator, -, hleft, -, hright⟩ := fits_binary_iff.1 h
    simp only [branches, Bool.or_eq_false_iff] at hplain
    have hcall := operator.kind.precedence_lt_call
    rw [canonical, fits_inParens_iff, fits_binary_iff]
    refine ⟨hoperator, ?_, left.fits_canonical hplain.1 hleft, ?_,
      right.fits_canonical hplain.2 hright⟩
    · rw [left.strength_canonical]
      exact Nat.not_lt.2 (Nat.le_of_lt hcall)
    · rw [right.strength_canonical]
      exact hcall
  | .group _ inner _, hplain, h => inner.fits_canonical hplain (fits_group_iff.1 h).2.1
  | .ifThen .., hplain, _ => by cases hplain
  | .ifElse .., hplain, _ => by cases hplain

/-- The form nests as deeply as its tree needs. -/
theorem nesting_canonical : (w : Phrase) → w.branches = false → w.canonical.nesting = w.tree.need
  | .identifier _, _ => rfl
  | .integer _, _ => rfl
  | .boolean _, _ => rfl
  | .unary operator operand, hplain => by
    have hoperand := operand.nesting_canonical hplain
    simp only [canonical, inParens, nesting, tree, Expr.need]
    omega
  | .binary left operator right, hplain => by
    simp only [branches, Bool.or_eq_false_iff] at hplain
    have hleft := left.nesting_canonical hplain.1
    have hright := right.nesting_canonical hplain.2
    simp only [canonical, inParens, nesting, tree, Expr.need]
    omega
  | .group _ inner _, hplain => inner.nesting_canonical hplain
  | .ifThen .., hplain => by cases hplain
  | .ifElse .., hplain => by cases hplain

end Phrase

namespace Sentence

variable {s : Sentence}

theorem branches_tree (s : Sentence) : s.tree.branches = s.branches := by
  cases s <;> first | rfl | exact Phrase.branches_tree _

theorem branches_canonical (s : Sentence) : s.canonical.branches = s.branches := by
  cases s <;> first | rfl | exact Phrase.branches_canonical _

theorem nesting_canonical (hplain : s.branches = false) : s.canonical.nesting = s.tree.need := by
  cases s <;> first | rfl | exact Phrase.nesting_canonical _ hplain

/-- Where a rendering does not end with a semicolon, nothing may follow it. -/
theorem fits_canonical {next k : Kind} (hplain : s.branches = false) (h : s.fits next)
    (hend : s.tree.isTerminated ∨ k = .eof) : s.canonical.fits k := by
  cases s with
  | letStmt word name assign value semicolon =>
    obtain ⟨hword, hname, -, hvalue, -⟩ := fits_letStmt_iff.1 h
    exact fits_letStmt_iff.2 ⟨hword, hname, rfl, value.fits_canonical hplain hvalue, rfl⟩
  | bareReturn word semicolon =>
    exact fits_bareReturn_iff.2 ⟨(fits_bareReturn_iff.1 h).1, rfl⟩
  | returnValue word value semicolon =>
    obtain ⟨hword, hvalue, -⟩ := fits_returnValue_iff.1 h
    exact fits_returnValue_iff.2 ⟨hword, value.fits_canonical hplain hvalue, rfl⟩
  | expression value semicolon =>
    obtain rfl : k = .eof := hend.resolve_left (by simp [tree, Stmt.isTerminated])
    obtain ⟨hvalue, -⟩ := fits_expression_iff.1 h
    exact fits_expression_iff.2 ⟨value.fits_canonical hplain hvalue, rfl⟩

end Sentence

/-! ## Reading the rendering -/

namespace Phrase

/-- A rendering begins with a word, a number or a parenthesis. -/
theorem exists_render_eq_cons {next : Kind} : (w : Phrase) → w.branches = false → w.fits next →
    (∀ t ∈ w.tokens, t.IsSpelled) →
    ∃ c cs, w.tree.render.toList = c :: cs ∧ (isWordPart c = true ∨ c = '(')
  | .identifier word, _, h, hspelled => by
    obtain ⟨c, cs, htext, -, hpart⟩ := (hspelled word (by simp [tokens])).exists_eq_cons
    exact ⟨c, cs, htext, .inl (hpart (by rw [fits_identifier_iff.1 h]; rfl))⟩
  | .integer digits, _, h, hspelled => by
    obtain ⟨c, cs, htext, -, hpart⟩ := (hspelled digits (by simp [tokens])).exists_eq_cons
    exact ⟨c, cs, htext, .inl (hpart (by rw [(fits_integer_iff.1 h).1]; rfl))⟩
  | .boolean word, _, h, hspelled => by
    obtain ⟨c, cs, htext, -, hpart⟩ := (hspelled word (by simp [tokens])).exists_eq_cons
    have hword : word.kind.isWordLike := by rcases fits_boolean_iff.1 h with h | h <;> rw [h] <;> rfl
    exact ⟨c, cs, htext, .inl (hpart hword)⟩
  | .unary operator operand, _, _, _ =>
    ⟨'(', (operator.text ++ operand.tree.render ++ ")").toList, by
      simp [tree, Expr.render], .inr rfl⟩
  | .binary left operator right, _, _, _ =>
    ⟨'(', (left.tree.render ++ " " ++ operator.text ++ " " ++ right.tree.render ++ ")").toList, by
      simp [tree, Expr.render], .inr rfl⟩
  | .group _ inner _, hplain, h, hspelled => by
    exact inner.exists_render_eq_cons hplain (fits_group_iff.1 h).2.1
      fun t ht => hspelled t (by simp [tokens, ht])
  | .ifThen .., hplain, _, _ => by cases hplain
  | .ifElse .., hplain, _, _ => by cases hplain

theorem readBare_blank_render {next : Kind} {w : Phrase} (hplain : w.branches = false)
    (h : w.fits next) (hspelled : ∀ t ∈ w.tokens, t.IsSpelled) (rest : List Char) :
    readBare (' ' :: (w.tree.render.toList ++ rest)) = readBare (w.tree.render.toList ++ rest) := by
  obtain ⟨c, cs, htext, hc⟩ := w.exists_render_eq_cons hplain h hspelled
  refine readBare_blank ?_
  rw [htext]
  rcases hc with hc | rfl
  · simpa using not_isBlank_of_isWordPart hc
  · simp only [List.cons_append, List.head?_cons, Option.some.injEq, forall_eq']
    decide

/-- A sign stands directly before its operand. -/
theorem readBare_sign_render {next : Kind} {sign : Token} (w : Phrase) (hsign : sign.IsSpelled)
    (hkind : sign.kind = .bang ∨ sign.kind = .minus) (hplain : w.branches = false) (h : w.fits next)
    (hspelled : ∀ t ∈ w.tokens, t.IsSpelled) (rest : List Char) :
    readBare (sign.text.toList ++ (w.tree.render.toList ++ rest)) =
      sign.bare :: readBare (w.tree.render.toList ++ rest) := by
  obtain ⟨c, cs, htext, hc⟩ := w.exists_render_eq_cons hplain h hspelled
  have hglues : sign.kind.glues c = false := by
    rcases hc with hc | rfl
    · exact Kind.not_glues_of_isWordPart (by rcases hkind with h | h <;> rw [h] <;> rfl) hc
    · exact sign.kind.not_glues_separator _ (by decide)
  exact readBare_token hsign (by rw [htext]; simpa using hglues)

/-- The rendering is read as the tokens of the form. -/
theorem readBare_render {next : Kind} : (w : Phrase) → w.branches = false → w.fits next →
    (∀ t ∈ w.tokens, t.IsSpelled) → ∀ {rest : List Char}, IsApart rest →
    readBare (w.tree.render.toList ++ rest) = w.canonical.tokens.map Token.bare ++ readBare rest
  | .identifier word, _, _, hspelled, _, hrest => readBare_apart (hspelled word (by simp [tokens])) hrest
  | .integer digits, _, _, hspelled, _, hrest => readBare_apart (hspelled digits (by simp [tokens])) hrest
  | .boolean word, _, _, hspelled, _, hrest => readBare_apart (hspelled word (by simp [tokens])) hrest
  | .unary operator operand, hplain, h, hspelled, rest, _ => by
    obtain ⟨hoperator, -, hfits⟩ := fits_unary_iff.1 h
    have hoperand : ∀ t ∈ operand.tokens, t.IsSpelled := fun t ht => hspelled t (by simp [tokens, ht])
    have hsign := operand.readBare_sign_render (hspelled operator (by simp [tokens])) hoperator hplain
      hfits hoperand (')' :: rest)
    have htail := operand.readBare_render hplain hfits hoperand
      (isApart_cons (by decide) : IsApart (')' :: rest))
    have hrender : (unary operator operand).tree.render.toList ++ rest =
        '(' :: (operator.text.toList ++ (operand.tree.render.toList ++ ')' :: rest)) := by
      simp [tree, Expr.render]
    rw [hrender, readBare_openParen, hsign, htail, readBare_closeParen]
    simp [canonical, inParens, tokens, Token.bare, Token.unplaced]
  | .binary left operator right, hplain, h, hspelled, rest, _ => by
    obtain ⟨-, -, hleftFits, -, hrightFits⟩ := fits_binary_iff.1 h
    simp only [branches, Bool.or_eq_false_iff] at hplain
    have hright : ∀ t ∈ right.tokens, t.IsSpelled := fun t ht => hspelled t (by simp [tokens, ht])
    have hhead (rest : List Char) := left.readBare_render hplain.1 hleftFits
      (fun t ht => hspelled t (by simp [tokens, ht])) (isApart_cons (by decide) : IsApart (' ' :: rest))
    have htail := right.readBare_render hplain.2 hrightFits hright
      (isApart_cons (by decide) : IsApart (')' :: rest))
    have hrender : (binary left operator right).tree.render.toList ++ rest =
        '(' :: (left.tree.render.toList ++ ' ' :: (operator.text.toList ++
          ' ' :: (right.tree.render.toList ++ ')' :: rest))) := by
      simp [tree, Expr.render]
    rw [hrender, readBare_openParen, hhead,
      readBare_blank_apart (hspelled operator (by simp [tokens])) (isApart_cons (by decide)),
      readBare_blank_render hplain.2 hrightFits hright, htail, readBare_closeParen]
    simp [canonical, inParens, tokens, Token.bare, Token.unplaced]
  | .group _ inner _, hplain, h, hspelled, _, hrest => by
    exact inner.readBare_render hplain (fits_group_iff.1 h).2.1
      (fun t ht => hspelled t (by simp [tokens, ht])) hrest
  | .ifThen .., hplain, _, _, _, _ => by cases hplain
  | .ifElse .., hplain, _, _, _, _ => by cases hplain

/-- A value is rendered behind a blank and before a semicolon. -/
theorem readBare_render_value {next : Kind} {w : Phrase} (hplain : w.branches = false) (h : w.fits next)
    (hspelled : ∀ t ∈ w.tokens, t.IsSpelled) (rest : List Char) :
    readBare (' ' :: (w.tree.render.toList ++ ';' :: rest)) =
      w.canonical.tokens.map Token.bare ++ .unplaced .semicolon ";" :: readBare rest := by
  have hrest : IsApart (';' :: rest) := isApart_cons (by decide)
  rw [readBare_blank_render hplain h hspelled, w.readBare_render hplain h hspelled hrest,
    readBare_semicolon]

end Phrase

namespace Sentence

/-- A rendered statement is read as its form, if it ends with a semicolon or nothing follows. -/
theorem readBare_render {s : Sentence} {next : Kind} {rest : List Char} (hplain : s.branches = false)
    (h : s.fits next) (hspelled : ∀ t ∈ s.tokens, t.IsSpelled) (hend : s.tree.isTerminated ∨ rest = []) :
    readBare (s.tree.render.toList ++ rest) = s.canonical.tokens.map Token.bare ++ readBare rest := by
  cases s with
  | letStmt word name assign value semicolon =>
    obtain ⟨-, -, -, hfits, -⟩ := fits_letStmt_iff.1 h
    have hvalue : ∀ t ∈ value.tokens, t.IsSpelled := fun t ht => hspelled t (by simp [tokens, ht])
    have hassign : readBare (' ' :: '=' :: ' ' :: (value.tree.render.toList ++ ';' :: rest)) = _ :=
      readBare_blank_apart (t := .unplaced .assign "=") (by decide) (isApart_cons (by decide))
    have hrender : (letStmt word name assign value semicolon).tree.render.toList ++ rest =
        word.text.toList ++ ' ' :: (name.text.toList ++
          ' ' :: '=' :: ' ' :: (value.tree.render.toList ++ ';' :: rest)) := by
      simp [tree, Stmt.render]
    rw [hrender, readBare_apart (hspelled word (by simp [tokens])) (isApart_cons (by decide)),
      readBare_blank_apart (hspelled name (by simp [tokens])) (isApart_cons (by decide)), hassign,
      Phrase.readBare_render_value hplain hfits hvalue]
    simp [canonical, tokens, Token.bare, Token.unplaced]
  | bareReturn word semicolon =>
    have hrender : (bareReturn word semicolon).tree.render.toList ++ rest =
        word.text.toList ++ ';' :: rest := by
      simp [tree, Stmt.render]
    rw [hrender, readBare_apart (hspelled word (by simp [tokens])) (isApart_cons (by decide)),
      readBare_semicolon]
    simp [canonical, tokens, Token.bare, Token.unplaced]
  | returnValue word value semicolon =>
    obtain ⟨-, hfits, -⟩ := fits_returnValue_iff.1 h
    have hvalue : ∀ t ∈ value.tokens, t.IsSpelled := fun t ht => hspelled t (by simp [tokens, ht])
    have hrender : (returnValue word value semicolon).tree.render.toList ++ rest =
        word.text.toList ++ ' ' :: (value.tree.render.toList ++ ';' :: rest) := by
      simp [tree, Stmt.render]
    rw [hrender, readBare_apart (hspelled word (by simp [tokens])) (isApart_cons (by decide)),
      Phrase.readBare_render_value hplain hfits hvalue]
    simp [canonical, tokens, Token.bare, Token.unplaced]
  | expression value semicolon =>
    obtain rfl : rest = [] := hend.resolve_left (by simp [tree, Stmt.isTerminated])
    have hvalue := value.readBare_render hplain (fits_expression_iff.1 h).1
      (fun t ht => hspelled t (by simp [tokens, ht])) isApart_nil
    simpa [canonical, tokens, tree, Stmt.render] using hvalue

/-! ## Texts -/

theorem treeAll_eq_map (text : List Sentence) : treeAll text = text.map tree := by
  induction text with
  | nil => rfl
  | cons s text ih => rw [treeAll, ih, List.map_cons]

theorem nestingAll_le_iff {text : List Sentence} {n : Nat} :
    nestingAll text ≤ n ↔ ∀ s ∈ text, s.nesting ≤ n := by
  induction text with
  | nil => simp [nestingAll]
  | cons s text ih => rw [nestingAll, Nat.max_le, ih, List.forall_mem_cons]

/-- Where all statements but the last are terminated, the first is, or it is the last. -/
theorem isTerminated_or_eq_nil {s : Sentence} {text : List Sentence}
    (h : ∀ t ∈ (s :: text).dropLast, t.tree.isTerminated) :
    (s.tree.isTerminated ∨ text = []) ∧ ∀ t ∈ text.dropLast, t.tree.isTerminated := by
  cases text with
  | nil => exact ⟨.inr rfl, by simp⟩
  | cons t text =>
    rw [List.dropLast_cons_cons, List.forall_mem_cons] at h
    exact ⟨.inl h.1, h.2⟩

theorem fitsAll_canonical {text : List Sentence} (hplain : ∀ s ∈ text, s.branches = false)
    (h : fitsAll text .eof) (hends : ∀ s ∈ text.dropLast, s.tree.isTerminated) :
    fitsAll (text.map canonical) .eof := by
  induction text with
  | nil => rfl
  | cons s text ih =>
    rw [List.forall_mem_cons] at hplain
    rw [fitsAll_cons_iff] at h
    obtain ⟨hend, hends⟩ := isTerminated_or_eq_nil hends
    have hbehind : s.tree.isTerminated ∨ firstKind .eof (text.map canonical) = .eof :=
      hend.imp_right fun hnil => by rw [hnil]; rfl
    rw [List.map_cons, fitsAll_cons_iff]
    exact ⟨fits_canonical hplain.1 h.1 hbehind, ih hplain.2 h.2 hends⟩

theorem takeWhile_canonical {text : List Sentence} (hplain : ∀ s ∈ text, s.branches = false) (n : Nat) :
    (text.map canonical).takeWhile (·.nesting ≤ n) = (text.takeWhile (·.tree.need ≤ n)).map canonical := by
  induction text with
  | nil => rfl
  | cons s text ih =>
    rw [List.forall_mem_cons] at hplain
    rw [List.map_cons, List.takeWhile_cons, List.takeWhile_cons, nesting_canonical hplain.1, ih hplain.2]
    split <;> rfl

theorem readBare_renderAll {text : List Sentence} (hplain : ∀ s ∈ text, s.branches = false)
    (h : fitsAll text .eof) (hspelled : ∀ t ∈ tokensAll text, t.IsSpelled)
    (hends : ∀ s ∈ text.dropLast, s.tree.isTerminated) :
    readBare (Stmt.renderAll (treeAll text)).toList =
      (tokensAll (text.map canonical)).map Token.bare := by
  induction text with
  | nil => exact readBare_nil
  | cons s text ih =>
    rw [List.forall_mem_cons] at hplain
    rw [fitsAll_cons_iff] at h
    rw [tokensAll, List.forall_mem_append] at hspelled
    obtain ⟨hend, hends⟩ := isTerminated_or_eq_nil hends
    have hlater : s.tree.isTerminated ∨ (Stmt.renderAll (treeAll text)).toList = [] :=
      hend.imp_right fun hnil => by rw [hnil]; rfl
    rw [treeAll, Stmt.renderAll, String.toList_append, readBare_render hplain.1 h.1 hspelled.1 hlater,
      ih hplain.2 h.2 hspelled.2 hends, List.map_cons, tokensAll, List.map_append]

end Sentence

end MonkeyFrontEnd
