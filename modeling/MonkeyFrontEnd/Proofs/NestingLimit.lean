import MonkeyFrontEnd.Proofs.Acceptance
import MonkeyFrontEnd.Proofs.Overrun

/-!
The nesting limit. A text that is admissible but for its nesting is parsed without a diagnostic if its
nesting stays within the limit (`parse_of_nesting_le`), and reported as too deep if it does not
(`parse_of_lt_nesting`). What is counted are the expressions open at a token, right operands of binary
operators included; unary operands, parentheses and `if` alone do not decide it
(`exists_tooDeep_of_few_enclosures`).
-/

namespace MonkeyFrontEnd

open Grammar
open TokenSource (drain)

section

variable {σ : Type} [TokenSource σ] {s : σ} {text : List Sentence}

/-- Within the limit the text is accepted, and its program comes back. -/
theorem parse_of_nesting_le (htokens : (drain s).1 = Sentence.tokensAll text)
    (hfits : Sentence.fitsAll text .eof) (hnesting : Sentence.nestingAll text ≤ Parser.nestingLimit) :
    (parse s).1 = ⟨Sentence.treeAll text⟩ ∧ (parse s).2.diagnostics = #[] := by
  have hprinted : Program.IsPrintedAs ⟨Sentence.treeAll text⟩ (Parser.start s).tokens :=
    ⟨text, rfl, htokens.symm.trans (Cursor.tokens_start s).symm, hfits, hnesting⟩
  obtain ⟨q, hrun, hquiet⟩ := hprinted.exists_gives rfl
  rw [parse, Parser.parseProgram, hrun]
  exact ⟨rfl, hquiet⟩

/-- Beyond the limit the text is reported as too deep. Without an `if` that is the only diagnostic, and
the statements before the first one that nests too deep are kept. -/
theorem parse_of_lt_nesting (htokens : (drain s).1 = Sentence.tokensAll text)
    (hfits : Sentence.fitsAll text .eof) (hnesting : Parser.nestingLimit < Sentence.nestingAll text) :
    (∃ d, (parse s).1 =
        ⟨Sentence.treeAll (text.takeWhile (·.nesting ≤ Parser.nestingLimit))⟩ ∧
        d.fault = .tooDeep Parser.nestingLimit ∧ (parse s).2.diagnostics = #[d]) ∨
      (∃ t ∈ text, t.branches) ∧ (parse s).2.HasOverrun := by
  have hstarts (k : Kind) (hk : k.startsStatement) : ¬ closes none k := by
    simpa [closes] using (Kind.startsStatement_ne hk).1
  have hp : (Parser.start s).tokens = Sentence.tokensAll text ++ [] := by
    rw [List.append_nil, ← htokens]
    exact Cursor.tokens_start s
  have hrun := overrun_statements (framed_expressionAt _) (complete_expressionAt _)
    (overrun_expressionAt Parser.nestingLimit) hstarts text hp hfits hnesting
  rw [parse, Parser.parseProgram, run_program_expression rfl, run_program]
  rcases hrun with ⟨d, q, hrun, hfault, hq⟩ | ⟨hbranches, h⟩
  · rw [hrun]
    exact .inl ⟨d, rfl, hfault, hq⟩
  · exact .inr ⟨hbranches, h⟩

end

/-- A text that is admissible but for its nesting is reported as too deep exactly if more expressions
are open at one of its tokens than the limit allows, operands on the right of binary operators being
counted among them. -/
theorem exists_tooDeep_iff {source file : String} {text : List Sentence}
    (htokens : (drain (Scanner.ofString source file)).1 = Sentence.tokensAll text)
    (hfits : Sentence.fitsAll text .eof) :
    (∃ d ∈ (parseText source file).2.diagnostics.toList, d.fault.isTooDeep) ↔
      Parser.nestingLimit < Sentence.nestingAll text := by
  constructor
  · rintro ⟨d, hd, -⟩
    rw [← Nat.not_le]
    intro hnesting
    obtain ⟨-, hquiet⟩ := parse_of_nesting_le htokens hfits hnesting
    rw [parseText, hquiet] at hd
    simp at hd
  · intro hnesting
    have hover : (parseText source file).2.HasOverrun := by
      rcases parse_of_lt_nesting htokens hfits hnesting with ⟨d, -, hfault, hd⟩ | ⟨-, h⟩
      · exact ⟨d, by rw [parseText, hd]; simp, hfault⟩
      · exact h
    obtain ⟨d, hd, hfault⟩ := hover
    exact ⟨d, hd, by rw [hfault]; rfl⟩

/-- Sixty-three signs in front of the right operand of a sum. -/
def signedSource : String := "1+" ++ String.ofList (List.replicate 63 '-') ++ "1"

/-- A token of one byte. -/
def byteToken (kind : Kind) (text : String) (offset : Nat) : Token :=
  ⟨kind, text, ⟨⟨offset.toUInt32, "shell"⟩, ⟨(offset + 1).toUInt32, "shell"⟩⟩⟩

def signedText : List Sentence :=
  let signs := (List.range 63).map fun i => byteToken .minus "-" (i + 2)
  let operand := signs.foldr Phrase.unary (.integer (byteToken .integer "1" 65))
  [.expression (.binary (.integer (byteToken .integer "1" 0)) (byteToken .plus "+" 1) operand) none]

theorem exists_tooDeep_iff_signedText :
    (drain (Scanner.ofString signedSource "shell")).1 = Sentence.tokensAll signedText ∧
      Sentence.fitsAll signedText .eof ∧
      ((∃ d ∈ (parseText signedSource "shell").2.diagnostics.toList, d.fault.isTooDeep) ↔
        Parser.nestingLimit < Sentence.nestingAll signedText) := by
  have htokens : (drain (Scanner.ofString signedSource "shell")).1 =
      Sentence.tokensAll signedText := by decide +kernel
  have hfits : Sentence.fitsAll signedText .eof := by decide +kernel
  exact ⟨htokens, hfits, exists_tooDeep_iff htokens hfits⟩

/-- With its operands the other way round the same sum is accepted. -/
example : (parseText (String.ofList (List.replicate 63 '-') ++ "1+1") "shell").2.diagnostics = #[] := by
  decide +kernel

/-! ## Enclosing constructs -/

mutual

/-- The most constructs that enclose a token, if only operands of unary operators, parentheses, and
conditions and blocks of `if` are counted. -/
def Phrase.enclosures : Phrase → Nat
  | .identifier _ => 0
  | .integer _ => 0
  | .boolean _ => 0
  | .unary _ operand => operand.enclosures + 1
  | .binary left _ right => max left.enclosures right.enclosures
  | .group _ inner _ => inner.enclosures + 1
  | .ifThen _ _ condition _ consequence => max condition.enclosures consequence.enclosures + 1
  | .ifElse _ _ condition _ consequence _ alternative =>
    max condition.enclosures (max consequence.enclosures alternative.enclosures) + 1
termination_by structural w => w

def Braces.enclosures : Braces → Nat
  | .mk _ body _ => Sentence.enclosuresAll body
termination_by structural b => b

def Sentence.enclosures : Sentence → Nat
  | .letStmt _ _ _ value _ => value.enclosures
  | .bareReturn _ _ => 0
  | .returnValue _ value _ => value.enclosures
  | .expression value _ => value.enclosures
termination_by structural s => s

def Sentence.enclosuresAll : List Sentence → Nat
  | [] => 0
  | s :: rest => max s.enclosures (Sentence.enclosuresAll rest)
termination_by structural ss => ss

end

/-- The sum is enclosed by fewer of these than the limit, and is reported as too deep all the same. -/
theorem exists_tooDeep_of_few_enclosures :
    (drain (Scanner.ofString signedSource "shell")).1 = Sentence.tokensAll signedText ∧
      Sentence.fitsAll signedText .eof ∧
      Sentence.enclosuresAll signedText < Parser.nestingLimit ∧
      ∃ d ∈ (parseText signedSource "shell").2.diagnostics.toList, d.fault.isTooDeep := by
  decide +kernel

end MonkeyFrontEnd
