import MonkeyFrontEnd.Proofs.Completeness
import MonkeyFrontEnd.Proofs.Printing
import MonkeyFrontEnd.Proofs.Soundness

/-!
The language of the parser. The token lists that are parsed without a diagnostic are exactly the
admissible printings of programs, and the program returned is the one that was printed.
-/

namespace MonkeyFrontEnd

open Grammar

/-- No token of an admissible printing is the end of the input. -/
theorem Program.IsPrintedAs.kind_ne_eof {program : Program} {ts : List Token}
    (h : program.IsPrintedAs ts) {t : Token} (ht : t ∈ ts) : t.kind ≠ .eof := by
  obtain ⟨text, -, rfl, hfits, -⟩ := h
  obtain ⟨n, hscan⟩ := closersDue_tokensAll hfits
  exact (kind_of_closersDue hscan ht).2.1

section

variable {σ : Type} [TokenSource σ] {p : Parser σ} {program : Program}

/-- A parser outside of every expression whose tokens are an admissible printing reads them
quietly. -/
theorem Program.IsPrintedAs.exists_gives (hp : p.depth = 0) (h : program.IsPrintedAs p.tokens) :
    ∃ q, (Grammar.program expression).Gives p program q := by
  obtain ⟨text, htree, htokens, hfits, hnesting⟩ := h
  have hclosing : closes none (headKind []) := rfl
  have hstarts (k : Kind) (hk : k.startsStatement) : ¬ closes none k := by
    simpa [closes] using (Kind.startsStatement_ne hk).1
  obtain ⟨q, hq, -⟩ := exists_gives_statements (framed_expressionAt _)
    (complete_expressionAt Parser.nestingLimit) hclosing hstarts text (p := p)
    (by rw [htokens, List.append_nil]) hfits hnesting
  refine ⟨q, ?_⟩
  rw [Action.Gives, run_program_expression hp, ← Action.Gives, gives_program_iff, ← htree]
  exact hq

/-- What a parser outside of every expression has read quietly is an admissible printing. -/
theorem Program.isPrintedAs_of_gives {q : Parser σ} (hp : p.depth = 0)
    (h : (Grammar.program expression).Gives p program q) : program.IsPrintedAs p.tokens := by
  rw [Action.Gives, run_program_expression hp, ← Action.Gives, gives_program_iff] at h
  obtain ⟨text, htree, htokens, hfits, hnesting, hclose⟩ :=
    exists_sentences_of_gives (framed_expressionAt _) (sound_expressionAt _) h
  have hend : q.current.kind = .eof := by simpa [closes] using hclose
  rw [hend] at hfits
  rw [Parser.tokens_of_eof hend, List.append_nil] at htokens
  exact ⟨text, htree, htokens.symm, hfits, hnesting⟩

/-- What is parsed without a diagnostic is an admissible printing of the program returned. -/
theorem isPrintedAs_of_parse {s : σ} (h : (parse s).2.diagnostics = #[]) :
    (parse s).1.IsPrintedAs (TokenSource.drain s).1 := by
  have hgives : (Grammar.program expression).Gives (Parser.start s) (parse s).1 (parse s).2 := ⟨rfl, h⟩
  rw [← Cursor.tokens_start s]
  exact Program.isPrintedAs_of_gives rfl hgives

end

/-- Every admissible printing, at the end of the input, is parsed without a diagnostic, and the
program that was printed comes back with every token it was printed with. -/
theorem parseTokens_of_isPrintedAs {program : Program} {ts behind : List Token}
    (h : program.IsPrintedAs ts) (hbehind : headKind behind = .eof) :
    (parseTokens (ts ++ behind)).1 = program ∧
      (parseTokens (ts ++ behind)).2.diagnostics = #[] := by
  have hstart : (Parser.start (ReadyTokens.ofList (ts ++ behind))).tokens = ts := by
    rw [ReadyTokens.tokens_start]
    exact ReadyTokens.tokens_ofList_append (fun t ht => h.kind_ne_eof ht) hbehind
  rw [← hstart] at h
  obtain ⟨q, hrun, hquiet⟩ := h.exists_gives rfl
  have hparse : parseTokens (ts ++ behind) = (program, q) := hrun
  rw [hparse]
  exact ⟨rfl, hquiet⟩

/-- The form `let y = (x) + 1; if (y) { return`, whose block is not closed. -/
def unclosedText : List Sentence :=
  [.letStmt (.unplaced .letWord "let") (.unplaced .identifier "y") (.unplaced .assign "=")
      (.binary
        (.group (.unplaced .openParen "(") (.identifier (.unplaced .identifier "x"))
          (.unplaced .closeParen ")"))
        (.unplaced .plus "+") (.integer (.unplaced .integer "1")))
      (some (.unplaced .semicolon ";")),
    .expression
      (.ifThen (.unplaced .ifWord "if") (.unplaced .openParen "(")
        (.identifier (.unplaced .identifier "y")) (.unplaced .closeParen ")")
        (.mk (.unplaced .openCurly "\x7b") [.bareReturn (.unplaced .returnWord "return") none] none))
      none]

theorem parseTokens_unclosedText :
    Program.IsPrintedAs ⟨Sentence.treeAll unclosedText⟩ (Sentence.tokensAll unclosedText) ∧
      (parseTokens (Sentence.tokensAll unclosedText ++ [])).1 = ⟨Sentence.treeAll unclosedText⟩ ∧
      (parseTokens (Sentence.tokensAll unclosedText ++ [])).2.diagnostics = #[] := by
  have h : Program.IsPrintedAs ⟨Sentence.treeAll unclosedText⟩ (Sentence.tokensAll unclosedText) :=
    ⟨unclosedText, rfl, rfl, by decide, by decide⟩
  exact ⟨h, parseTokens_of_isPrintedAs h headKind_nil⟩

/-- What is parsed without a diagnostic is an admissible printing of the program returned. So it
holds no token that belongs to no program and no semicolon directly behind another, and its brackets
match, closing braces that are due at the end apart. -/
theorem isPrintedAs_of_diagnostics_eq_empty {ts : List Token}
    (h : (parseTokens ts).2.diagnostics = #[]) :
    (parseTokens ts).1.IsPrintedAs (ReadyTokens.ofList ts).tokens ∧
      (∀ t ∈ (ReadyTokens.ofList ts).tokens,
        t.kind ≠ .illegal ∧ t.kind ≠ .comma ∧ t.kind ≠ .functionWord) ∧
      (∀ before t behind, (ReadyTokens.ofList ts).tokens = before ++ t :: behind →
        t.kind = .semicolon → headKind behind ≠ .semicolon) ∧
      ∃ n, closersDue [] (ReadyTokens.ofList ts).tokens = some (List.replicate n .closeCurly) := by
  have hgives : (Grammar.program expression).Gives (Parser.start (ReadyTokens.ofList ts))
      (parseTokens ts).1 (parseTokens ts).2 := ⟨rfl, h⟩
  have hprinted := Program.isPrintedAs_of_gives rfl hgives
  rw [ReadyTokens.tokens_start] at hprinted
  refine ⟨hprinted, ?_⟩
  obtain ⟨text, -, htokens, hfits, -⟩ := hprinted
  obtain ⟨n, hscan⟩ := closersDue_tokensAll hfits
  rw [htokens] at hscan
  refine ⟨fun t ht => ?_, fun before t behind hsplit ht => ?_, n, hscan⟩
  · obtain ⟨hillegal, -, hcomma, hfunction⟩ := kind_of_closersDue hscan ht
    exact ⟨hillegal, hcomma, hfunction⟩
  · rw [hsplit] at hscan
    exact headKind_of_closersDue hscan ht

theorem isPrintedAs_unclosedText :
    (parseTokens (Sentence.tokensAll unclosedText)).2.diagnostics = #[] ∧
      (parseTokens (Sentence.tokensAll unclosedText)).1.IsPrintedAs
        (ReadyTokens.ofList (Sentence.tokensAll unclosedText)).tokens := by
  have h : (parseTokens (Sentence.tokensAll unclosedText)).2.diagnostics = #[] := by decide +kernel
  exact ⟨h, (isPrintedAs_of_diagnostics_eq_empty h).1⟩

end MonkeyFrontEnd
