import MonkeyFrontEnd.Proofs.Abreast
import MonkeyFrontEnd.Token.Listing

/-!
Positions decide nothing. Two lists of tokens that differ in spans and file names only are parsed to
programs that differ in these only, with the same faults, each on tokens of the same index
(`parse_bare`). So blanks, comments, line breaks and the name of a source show neither in the rendering
of its program nor in the messages.
-/

namespace MonkeyFrontEnd

open TokenSource (drain)

variable {σ τ : Type} [TokenSource σ] [TokenSource τ]

/-- All tokens of a source, the end of the input included. -/
def TokenSource.listing (s : σ) : List Token := (drain s).1 ++ [(drain s).2]

/-- Like tokens have the same kind and text and the same index in two lists. -/
def Likeness.indexed (ts ts' : List Token) : Likeness where
  same t t' := t.bare = t'.bare ∧ ∃ i : Nat, ts[i]? = some t ∧ ts'[i]? = some t'
  view := Token.bare
  kind_eq h := (Token.bare_eq_iff.1 h.1).1
  text_eq h := (Token.bare_eq_iff.1 h.1).2
  view_eq h := h.1

/-- The same fault and message, at the starts of tokens of the same index in two lists. -/
def Diagnostic.Agrees (ts ts' : List Token) (d d' : Diagnostic) : Prop :=
  d.fault = d'.fault ∧ d.message = d'.message ∧
    ∃ (i : Nat) (t t' : Token), ts[i]? = some t ∧ ts'[i]? = some t' ∧
      d.position = t.span.start ∧ d'.position = t'.span.start

theorem Diagnostic.Agrees.mono {ts ts' us us' : List Token} {d d' : Diagnostic}
    (hts : ts <+: us) (hts' : ts' <+: us') (h : d.Agrees ts ts' d') : d.Agrees us us' d' := by
  obtain ⟨hfault, hmessage, i, t, t', ht, ht', hplaces⟩ := h
  obtain ⟨hi, rfl⟩ := List.getElem?_eq_some_iff.1 ht
  obtain ⟨hi', rfl⟩ := List.getElem?_eq_some_iff.1 ht'
  exact ⟨hfault, hmessage, i, _, _, List.prefix_iff_getElem?.1 hts i hi,
    List.prefix_iff_getElem?.1 hts' i hi', hplaces⟩

/-- The token after so many moves stands in the listing, at that index or at its end. -/
theorem Cursor.getElem?_listing (s : σ) (n : Nat) :
    (TokenSource.listing s)[min n (drain s).1.length]? = some ((Cursor.start s).nth n) := by
  rw [Cursor.nth_start, TokenSource.listing]
  rcases Nat.lt_or_ge n (drain s).1.length with h | h
  · rw [Nat.min_eq_left (Nat.le_of_lt h), List.getElem?_append_left h, List.getD_eq_getElem?_getD,
      List.getElem?_eq_getElem h, Option.getD_some]
  · rw [Nat.min_eq_right h, List.getElem?_concat_length, List.getD_eq_getElem?_getD,
      List.getElem?_eq_none h, Option.getD_none]

/-- Sources whose tokens differ in their places only are parsed to programs that differ in these only,
with the same faults at tokens of the same index. -/
theorem parse_bare {s : σ} {s' : τ}
    (h : (TokenSource.listing s).map Token.bare = (TokenSource.listing s').map Token.bare) :
    (parse s).1.mapTokens Token.bare = (parse s').1.mapTokens Token.bare ∧
      List.Forall₂ (Diagnostic.Agrees (TokenSource.listing s) (TokenSource.listing s'))
        (parse s).2.diagnostics.toList (parse s').2.diagnostics.toList := by
  have hlength : (drain s).1.length = (drain s').1.length := by
    have := congrArg List.length h
    simpa [TokenSource.listing] using this
  have hsame (n : Nat) : (Likeness.indexed (TokenSource.listing s) (TokenSource.listing s')).same
      ((Cursor.start s).nth n) ((Cursor.start s').nth n) := by
    have ht := Cursor.getElem?_listing s n
    have ht' := Cursor.getElem?_listing s' n
    rw [← hlength] at ht'
    refine ⟨?_, _, ht, ht'⟩
    have hbare := congrArg (·[min n (drain s).1.length]?) h
    simpa only [List.getElem?_map, ht, ht', Option.map_some, Option.some.injEq] using hbare
  obtain ⟨hprogram, habreast⟩ := parse_abreast hsame
  refine ⟨hprogram, habreast.diagnostics.imp ?_⟩
  rintro d d' ⟨hfault, t, t', ⟨-, i, ht, ht'⟩, hplaces⟩
  exact ⟨hfault, congrArg Fault.message hfault, i, t, t', ht, ht', hplaces⟩

namespace ReadyTokens

theorem listing_ofList_nil : TokenSource.listing (ofList []) = [Token.eof Position.null] := by
  rw [TokenSource.listing, drain_eq]
  rfl

theorem listing_ofList_cons (t : Token) (ts : List Token) :
    TokenSource.listing (ofList (t :: ts)) =
      if isEof t then [t] else t :: TokenSource.listing (ofList ts) := by
  simp only [TokenSource.listing, drain_eq, ofList]
  cases h : isEof t <;> simp [h]

/-- Held ready, tokens are listed up to their first end of input. -/
theorem isPrefix_listing_ofList (ts : List Token) :
    TokenSource.listing (ofList ts) <+: ts ++ [Token.eof Position.null] := by
  induction ts with
  | nil =>
    rw [listing_ofList_nil]
    exact List.prefix_refl _
  | cons t ts ih =>
    rw [listing_ofList_cons, List.cons_append]
    split
    · exact List.prefix_append [t] _
    · exact List.cons_prefix_cons.2 ⟨rfl, ih⟩

/-- Where the lists are cut depends on no place. -/
theorem map_bare_listing_ofList (ts : List Token) :
    (TokenSource.listing (ofList ts)).map Token.bare =
      TokenSource.listing (ofList (ts.map Token.bare)) := by
  induction ts with
  | nil =>
    rw [List.map_nil, listing_ofList_nil]
    rfl
  | cons t ts ih =>
    have hisEof : isEof t.bare = isEof t := rfl
    rw [listing_ofList_cons, List.map_cons, listing_ofList_cons, hisEof]
    split
    · rfl
    · rw [List.map_cons, ih]

end ReadyTokens

/-- Spans and file names decide nothing. Lists of tokens that agree in kinds and texts give programs
that agree but for spans, and as many diagnostics with the same faults and messages, each at the start
of a token of the same index; behind a list without an end of input stands one at the null position.
And texts whose tokens agree in kinds and texts are rendered alike and give the same messages in the
same order. -/
theorem parse_placement :
    (∀ ts ts' : List Token, ts.map Token.bare = ts'.map Token.bare →
      (parseTokens ts).1.mapTokens Token.bare = (parseTokens ts').1.mapTokens Token.bare ∧
        List.Forall₂ (Diagnostic.Agrees (ts ++ [Token.eof Position.null])
            (ts' ++ [Token.eof Position.null]))
          (parseTokens ts).2.diagnostics.toList (parseTokens ts').2.diagnostics.toList) ∧
    ∀ text file text' file' : String,
      (Scanner.ofString text file).tokens.map Token.bare =
          (Scanner.ofString text' file').tokens.map Token.bare →
        (parseText text file).1.render = (parseText text' file').1.render ∧
          (parseText text file).2.diagnostics.toList.map Diagnostic.message =
            (parseText text' file').2.diagnostics.toList.map Diagnostic.message := by
  refine ⟨fun ts ts' h => ?_, fun text file text' file' h => ?_⟩
  · have hlistings : (TokenSource.listing (ReadyTokens.ofList ts)).map Token.bare =
        (TokenSource.listing (ReadyTokens.ofList ts')).map Token.bare := by
      rw [ReadyTokens.map_bare_listing_ofList, ReadyTokens.map_bare_listing_ofList, h]
    obtain ⟨hprogram, hdiagnostics⟩ := parse_bare hlistings
    exact ⟨hprogram, hdiagnostics.imp fun _ _ => .mono (ReadyTokens.isPrefix_listing_ofList ts)
      (ReadyTokens.isPrefix_listing_ofList ts')⟩
  · have hlistings : (TokenSource.listing (Scanner.ofString text file)).map Token.bare =
        (TokenSource.listing (Scanner.ofString text' file')).map Token.bare := h
    obtain ⟨hprogram, hdiagnostics⟩ := parse_bare hlistings
    constructor
    · have htext (t : Token) : t.bare.text = t.text := rfl
      rw [← Program.render_mapTokens htext, parseText, hprogram, Program.render_mapTokens htext]
      rfl
    · rw [← List.forall₂_eq_eq_eq, List.forall₂_map_left_iff, List.forall₂_map_right_iff]
      exact hdiagnostics.imp fun _ _ hd => hd.2.1

/-- Tokens with and without places, and a text spread over lines with a comment, both with a fault. -/
theorem parse_placement_spread :
    (([.unplaced .letWord "let", .unplaced .closeParen ")"] : List Token).map Token.bare =
        (Scanner.ofString "let )" "notes").tokens.dropLast.map Token.bare ∧
      List.Forall₂ (Diagnostic.Agrees
          ([.unplaced .letWord "let", .unplaced .closeParen ")"] ++ [Token.eof Position.null])
          ((Scanner.ofString "let )" "notes").tokens.dropLast ++ [Token.eof Position.null]))
        (parseTokens [.unplaced .letWord "let", .unplaced .closeParen ")"]).2.diagnostics.toList
        (parseTokens (Scanner.ofString "let )" "notes").tokens.dropLast).2.diagnostics.toList) ∧
    (Scanner.ofString "let x=1; x )" "notes").tokens.map Token.bare =
        (Scanner.ofString "let x // name\n = 1 ;\n\tx)" "shell").tokens.map Token.bare ∧
      (parseText "let x=1; x )" "notes").2.diagnostics.toList.map Diagnostic.message =
        (parseText "let x // name\n = 1 ;\n\tx)" "shell").2.diagnostics.toList.map
          Diagnostic.message := by
  have hlists : ([.unplaced .letWord "let", .unplaced .closeParen ")"] : List Token).map Token.bare =
      (Scanner.ofString "let )" "notes").tokens.dropLast.map Token.bare := by decide +kernel
  have htexts : (Scanner.ofString "let x=1; x )" "notes").tokens.map Token.bare =
      (Scanner.ofString "let x // name\n = 1 ;\n\tx)" "shell").tokens.map Token.bare := by
    decide +kernel
  exact ⟨⟨hlists, (parse_placement.1 _ _ hlists).2⟩, htexts, (parse_placement.2 _ _ _ _ htexts).2⟩

end MonkeyFrontEnd
