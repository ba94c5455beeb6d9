import MonkeyFrontEnd.Proofs.Canonical
import MonkeyFrontEnd.Proofs.NestingLimit
import MonkeyFrontEnd.Proofs.Placement

/-!
Rendering and parsing again. The rendering of an accepted program without `if`, whose statements but
the last are terminated, is read as the canonical form of its text (`readBare_renderAll`). So it is
parsed to the same program, but for places and for the tokens of expression statements, as long as the
form nests within the limit, and is cut where it does not (`parseText_render`).
-/

namespace MonkeyFrontEnd

open TokenSource (drain)

/-- Without the token of an expression statement, which is a parenthesis in one form of a text and
none in another. -/
def Stmt.untied : Stmt → Stmt
  | .expression _ value => .expression (Token.eof Position.null) value
  | s => s

/-- The program without places and without the tokens of its expression statements. -/
def Program.essence (program : Program) : Program :=
  ⟨(program.mapTokens Token.bare).statements.map Stmt.untied⟩

theorem Program.essence_eq_of_mapTokens {program program' : Program}
    (h : program.mapTokens Token.bare = program'.mapTokens Token.bare) :
    program.essence = program'.essence := by
  rw [essence, essence, h]

/-- The canonical form of a text has the essence of the text. -/
theorem Sentence.essence_canonical (text : List Sentence) :
    Program.essence ⟨treeAll (text.map canonical)⟩ = Program.essence ⟨treeAll text⟩ := by
  have hsame (s : Sentence) :
      (s.canonical.tree.mapTokens Token.bare).untied = (s.tree.mapTokens Token.bare).untied := by
    cases s with
    | bareReturn => rfl
    | _ => simp [canonical, tree, Stmt.mapTokens, Stmt.untied, Phrase.tree_canonical]
  simp [Program.essence, Program.mapTokens, Stmt.mapTokensAll_eq_map, treeAll_eq_map, hsame]

/-- Tokens held ready without an end of their own are drained as they stand. -/
theorem ReadyTokens.drain_ofList {ts : List Token} (hts : ∀ t ∈ ts, t.kind ≠ .eof) :
    drain (ofList ts) = (ts, Token.eof Position.null) := by
  have htokens := tokens_ofList_append hts headKind_nil
  have hlast : (ofList (ts ++ [])).last = (ofList []).last := last_ofList_append hts
  rw [List.append_nil] at htokens hlast
  rw [drain_eq, htokens, hlast]
  rfl

/-- Tokens read from somewhere are parsed as the same tokens from nowhere, held ready. -/
theorem parse_of_map_bare {σ : Type} [TokenSource σ] {s : σ} {ts : List Token}
    (htokens : (drain s).1.map Token.bare = ts.map Token.bare)
    (hlast : (drain s).2.bare = Token.eof Position.null) :
    (parse s).1.essence = (parseTokens ts).1.essence ∧
      (parse s).2.diagnostics.toList.map Diagnostic.fault =
        (parseTokens ts).2.diagnostics.toList.map Diagnostic.fault := by
  -- What was drained holds no end of the input, so the list is not cut.
  have hkinds : ∀ t ∈ ts, t.kind ≠ .eof := by
    intro t ht
    have hbare : t.bare ∈ (drain s).1.map Token.bare := htokens ▸ List.mem_map_of_mem ht
    obtain ⟨u, hu, hsame⟩ := List.mem_map.1 hbare
    rw [← (Token.bare_eq_iff.1 hsame).1]
    exact (TokenSource.drain_kinds s).1 u hu
  have hlistings : (TokenSource.listing s).map Token.bare =
      (TokenSource.listing (ReadyTokens.ofList ts)).map Token.bare := by
    simp only [TokenSource.listing, List.map_append, htokens, List.map_singleton, hlast,
      ReadyTokens.drain_ofList hkinds]
    rfl
  obtain ⟨hprogram, hdiagnostics⟩ := parse_bare hlistings
  refine ⟨Program.essence_eq_of_mapTokens hprogram, ?_⟩
  rw [← List.forall₂_eq_eq_eq, List.forall₂_map_left_iff, List.forall₂_map_right_iff]
  exact hdiagnostics.imp fun _ _ hd => hd.1

/-- What was accepted was written as some admissible text, in tokens that are spelled as they are
read. -/
theorem exists_text_of_parseText {source file : String}
    (h : (parseText source file).2.diagnostics = #[]) :
    ∃ text, (parseText source file).1 = ⟨Sentence.treeAll text⟩ ∧
      Sentence.fitsAll text .eof ∧ ∀ t ∈ Sentence.tokensAll text, t.IsSpelled := by
  obtain ⟨text, htree, htokens, hfits, -⟩ := isPrintedAs_of_parse h
  refine ⟨text, congrArg Program.mk htree.symm, hfits, fun t ht => ?_⟩
  obtain ⟨n, hscan⟩ := closersDue_tokensAll hfits
  exact Scanner.isSpelled_of_mem_drain (htokens ▸ ht) (kind_of_closersDue hscan ht).1

section

variable {text : List Sentence} (hplain : ∀ s ∈ text, s.branches = false)
  (hfits : Sentence.fitsAll text .eof) (hends : ∀ s ∈ text.dropLast, s.tree.isTerminated)

include hplain hfits hends

/-- The canonical form is parsed to what it stands for, up to the first statement that needs more than
the limit. -/
theorem parseTokens_canonical :
    let form := parseTokens (Sentence.tokensAll (text.map Sentence.canonical))
    ((∀ s ∈ text, s.tree.need ≤ Parser.nestingLimit) →
        form.1.essence = Program.essence ⟨Sentence.treeAll text⟩ ∧ form.2.diagnostics = #[]) ∧
      ((∃ s ∈ text, Parser.nestingLimit < s.tree.need) →
        form.1.essence = Program.essence
            ⟨Sentence.treeAll (text.takeWhile (·.tree.need ≤ Parser.nestingLimit))⟩ ∧
          ∃ d, d.fault = .tooDeep Parser.nestingLimit ∧ form.2.diagnostics = #[d]) := by
  have hform := Sentence.fitsAll_canonical hplain hfits hends
  obtain ⟨n, hscan⟩ := closersDue_tokensAll hform
  have hdrain := congrArg (·.1) (ReadyTokens.drain_ofList fun t ht => (kind_of_closersDue hscan ht).2.1)
  have hneed : ∀ s ∈ text, s.canonical.nesting = s.tree.need :=
    fun s hs => Sentence.nesting_canonical (hplain s hs)
  refine ⟨fun hwithin => ?_, fun ⟨s, hs, hdeep⟩ => ?_⟩
  · have hnesting : Sentence.nestingAll (text.map Sentence.canonical) ≤ Parser.nestingLimit := by
      rw [Sentence.nestingAll_le_iff, List.forall_mem_map]
      exact fun s hs => (hneed s hs).symm ▸ hwithin s hs
    obtain ⟨hprogram, hquiet⟩ := parse_of_nesting_le hdrain hform hnesting
    refine ⟨?_, hquiet⟩
    rw [parseTokens, hprogram, Sentence.essence_canonical]
  · have hnesting : Parser.nestingLimit < Sentence.nestingAll (text.map Sentence.canonical) := by
      rw [← Nat.not_le, Sentence.nestingAll_le_iff, List.forall_mem_map]
      exact fun h => absurd (h s hs) (by rw [hneed s hs]; exact Nat.not_le.2 hdeep)
    rcases parse_of_lt_nesting hdrain hform hnesting with ⟨d, hprogram, hfault, hd⟩ | ⟨⟨t, ht, hbranches⟩, -⟩
    · refine ⟨?_, d, hfault, hd⟩
      rw [parseTokens, hprogram, Sentence.takeWhile_canonical hplain, Sentence.essence_canonical]
    -- Only an `if` could have recorded more.
    · obtain ⟨u, hu, rfl⟩ := List.mem_map.1 ht
      rw [Sentence.branches_canonical, hplain u hu] at hbranches
      cases hbranches

/-- The rendering of a text is parsed to what the text stands for, up to the first statement that needs
more than the limit. -/
theorem parseText_renderAll (hspelled : ∀ t ∈ Sentence.tokensAll text, t.IsSpelled) (name : String) :
    let again := parseText (Stmt.renderAll (Sentence.treeAll text)) name
    ((∀ s ∈ text, s.tree.need ≤ Parser.nestingLimit) →
        again.2.diagnostics = #[] ∧ again.1.essence = Program.essence ⟨Sentence.treeAll text⟩) ∧
      ((∃ s ∈ text, Parser.nestingLimit < s.tree.need) →
        ∃ d, again.2.diagnostics = #[d] ∧ d.fault = .tooDeep Parser.nestingLimit ∧
          again.1.essence = Program.essence
            ⟨Sentence.treeAll (text.takeWhile (·.tree.need ≤ Parser.nestingLimit))⟩) := by
  have hread : (drain (Scanner.ofString (Stmt.renderAll (Sentence.treeAll text)) name)).1.map Token.bare =
      (Sentence.tokensAll (text.map Sentence.canonical)).map Token.bare := by
    rw [Scanner.map_bare_drain]
    exact Sentence.readBare_renderAll hplain hfits hspelled hends
  obtain ⟨hessence, hfaults⟩ := parse_of_map_bare hread (Scanner.bare_drain_last _)
  obtain ⟨hwithin, hbeyond⟩ := parseTokens_canonical hplain hfits hends
  refine ⟨fun h => ?_, fun h => ?_⟩
  · obtain ⟨hsame, hquiet⟩ := hwithin h
    rw [hquiet] at hfaults
    exact ⟨by simpa [parseText] using hfaults, hessence.trans hsame⟩
  · obtain ⟨hsame, d, hfault, hd⟩ := hbeyond h
    rw [hd] at hfaults
    obtain ⟨d', hd', hfault'⟩ := List.map_eq_singleton_iff.1 hfaults
    exact ⟨d', Array.toList_inj.1 hd', hfault'.trans hfault, hessence.trans hsame⟩

end

/-- The rendering of an accepted program without `if`, whose statements but the last are terminated, is
parsed to the same program, but for places and the tokens of expression statements, exactly if no
statement needs more open expressions than the limit allows. Else too deep nesting is the one
diagnostic, and the statements before the first that needs more are what comes back. -/
theorem parseText_render {source file : String}
    (hquiet : (parseText source file).2.diagnostics = #[])
    (hplain : ∀ s ∈ (parseText source file).1.statements, s.branches = false)
    (hends : ∀ s ∈ (parseText source file).1.statements.dropLast, s.isTerminated) (name : String) :
    let program := (parseText source file).1
    let again := parseText program.render name
    (again.2.diagnostics = #[] ∧ again.1.essence = program.essence ↔
        ∀ s ∈ program.statements, s.need ≤ Parser.nestingLimit) ∧
      ((∃ s ∈ program.statements, Parser.nestingLimit < s.need) →
        ∃ d, again.2.diagnostics = #[d] ∧ d.fault = .tooDeep Parser.nestingLimit ∧
          again.1.essence = Program.essence
            ⟨program.statements.takeWhile (·.need ≤ Parser.nestingLimit)⟩) := by
  obtain ⟨text, hprogram, hfits, hspelled⟩ := exists_text_of_parseText hquiet
  simp only [hprogram, Sentence.treeAll_eq_map, List.forall_mem_map, ← List.map_dropLast,
    Sentence.branches_tree] at hplain hends
  obtain ⟨hwithin, hbeyond⟩ := parseText_renderAll hplain hfits hends hspelled name
  simp only [hprogram, Program.render, Sentence.treeAll_eq_map, List.forall_mem_map,
    List.takeWhile_map] at hwithin hbeyond ⊢
  refine ⟨⟨fun ⟨hagain, _⟩ s hs => ?_, hwithin⟩, fun ⟨_, hmem, hdeep⟩ => ?_⟩
  · rw [← Nat.not_lt]
    intro hdeep
    obtain ⟨d, hd, -⟩ := hbeyond ⟨s, hs, hdeep⟩
    rw [hagain] at hd
    cases hd
  · obtain ⟨s, hs, rfl⟩ := List.mem_map.1 hmem
    exact hbeyond ⟨s, hs, hdeep⟩

/-- A `return`, and a sum of so many operators that is read without opening a parenthesis. -/
def sumSource (operators : Nat) : String :=
  "return -x;" ++ String.join (List.replicate operators "1+") ++ "1"

/-- The sum needs two levels more than it has operators. -/
example : [0, 1, 6].map (fun n => (parseText (sumSource n) "shell").1.statements.map Stmt.need) =
    [[3, 1], [3, 3], [3, 8]] := by
  decide +kernel

theorem parseText_render_sumSource :
    (∀ n ∈ [62, 63], (parseText (sumSource n) "shell").2.diagnostics = #[] ∧
      (∀ s ∈ (parseText (sumSource n) "shell").1.statements, s.branches = false) ∧
      ∀ s ∈ (parseText (sumSource n) "shell").1.statements.dropLast, s.isTerminated) ∧
    (let program := (parseText (sumSource 62) "shell").1
      let again := parseText program.render "shell"
      again.2.diagnostics = #[] ∧ again.1.essence = program.essence) ∧
    (let program := (parseText (sumSource 63) "shell").1
      let again := parseText program.render "shell"
      ∃ d, again.2.diagnostics = #[d] ∧ d.fault = .tooDeep Parser.nestingLimit ∧
        again.1.essence = Program.essence
          ⟨program.statements.takeWhile (·.need ≤ Parser.nestingLimit)⟩) := by
  have h : ∀ n ∈ [62, 63], (parseText (sumSource n) "shell").2.diagnostics = #[] ∧
      (∀ s ∈ (parseText (sumSource n) "shell").1.statements, s.branches = false) ∧
      ∀ s ∈ (parseText (sumSource n) "shell").1.statements.dropLast, s.isTerminated := by
    decide +kernel
  obtain ⟨hquiet, hplain, hends⟩ := h 62 (by decide)
  obtain ⟨hquiet', hplain', hends'⟩ := h 63 (by decide)
  exact ⟨h, (parseText_render hquiet hplain hends "shell").1.2 (by decide +kernel),
    (parseText_render hquiet' hplain' hends' "shell").2 (by decide +kernel)⟩

end MonkeyFrontEnd
