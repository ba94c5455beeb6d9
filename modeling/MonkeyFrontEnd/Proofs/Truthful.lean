import MonkeyFrontEnd.Diagnostic.Report
import MonkeyFrontEnd.Proofs.Blame
import MonkeyFrontEnd.Proofs.Lossless

/-!
Diagnostics of a text. A parser over the tokens of a text blames these tokens and says what is true
of them; it blames them in source order, and each of them at most twice, the end of the input apart.
So every diagnostic stands in the text, at the start of a token or at the end, and can be shown there.
-/

namespace MonkeyFrontEnd

open TokenSource (drain next)

variable {σ : Type} [TokenSource σ]

/-! ## Places -/

/-- Wherever a cursor over a source comes, it stands at the start of what is left of the source. -/
theorem Cursor.exists_drain_of_reaches {s : σ} {c : Cursor σ} (h : (start s).Reaches c) :
    ∃ s' before, c = start s' ∧ (drain s).1 = before ++ (drain s').1 ∧ (drain s').2 = (drain s).2 := by
  induction h with
  | here => exact ⟨s, [], rfl, rfl, rfl⟩
  | onward _ ih =>
    obtain ⟨s', before, rfl, htokens, hlast⟩ := ih
    by_cases heof : (next s').1.kind = .eof
    · exact ⟨s', before, advance_of_eof heof, htokens, hlast⟩
    · rw [TokenSource.drain_of_ne_eof heof] at htokens hlast
      exact ⟨(next s').2, before ++ [(next s').1], advance_start s', by simpa using htokens, hlast⟩

/-- The number of tokens left tells where among the tokens of its source a cursor stands. -/
theorem Cursor.exists_getElem_of_reaches {s : σ} {c : Cursor σ} (h : (start s).Reaches c) :
    ∃ (i : Nat) (hi : i < ((drain s).1 ++ [(drain s).2]).length),
      i + c.tokens.length = (drain s).1.length ∧
        ((drain s).1 ++ [(drain s).2])[i] = c.current := by
  obtain ⟨s', before, rfl, htokens, hlast⟩ := exists_drain_of_reaches h
  have hcurrent : ((drain s).1 ++ [(drain s).2])[before.length]? = some (start s').current := by
    rw [htokens, ← hlast, List.append_assoc, List.getElem?_append_right (Nat.le_refl _), Nat.sub_self]
    by_cases heof : (next s').1.kind = .eof
    · rw [TokenSource.drain_of_eof heof]
      rfl
    · rw [TokenSource.drain_of_ne_eof heof]
      rfl
  obtain ⟨hlt, hget⟩ := List.getElem?_eq_some_iff.1 hcurrent
  exact ⟨before.length, hlt, by rw [tokens_start, htokens, List.length_append], hget⟩

/-! ## Starts of tokens -/

section

variable {text : List Char} {file : String} {offset : Nat} {tokens : List Token} {last : Token}

/-- No token starts before the one in front of it has ended, nor the end of the input. -/
theorem Lossless.pairwise_startOffset_lt (h : Lossless text file offset tokens last) :
    (tokens ++ [last]).Pairwise fun t u => t.startOffset < u.startOffset := by
  refine List.pairwise_append.2 ⟨?_, List.pairwise_singleton _ _, fun t ht u hu => ?_⟩
  · refine h.disjoint.imp_of_mem fun ht _ htu => ?_
    exact Nat.lt_of_lt_of_le (h.nonempty _ ht) htu
  · obtain ⟨behind, before, htext, -, hstop⟩ := h.literal t ht
    have hlength := congrArg Text.byteLength htext
    have hpos := h.nonempty t ht
    rw [← List.append_assoc, Text.byteLength_append, hstop] at hlength
    rw [List.mem_singleton.1 hu, h.last_offset]
    omega

theorem Lossless.startOffset_le (h : Lossless text file offset tokens last) {t : Token}
    (ht : t ∈ tokens ++ [last]) : t.startOffset ≤ Text.byteLength text := by
  rw [← h.last_offset]
  rcases List.mem_append.1 ht with ht | ht
  · exact Nat.le_of_lt ((List.pairwise_append.1 h.pairwise_startOffset_lt).2.2 t ht last (by simp))
  · exact Nat.le_of_eq (congrArg Token.startOffset (List.mem_singleton.1 ht))

end

/-! ## Diagnostics -/

/-- What can be relied on about the diagnostics of a text whose tokens are given. -/
structure Truthful (text : List Char) (tokens : List Token) (ds : List Diagnostic) : Prop where
  /-- Every diagnostic stands at the start of a token and says what is true of it. -/
  blamed : ∀ d ∈ ds, ∃ t ∈ tokens, d.Blames t
  ordered : ds.Pairwise fun d e => d.position.offset ≤ e.position.offset
  /-- A token is blamed at most twice, first as the next token and then as the current one. -/
  inTurn : ∀ t ∈ tokens, t.kind ≠ .eof →
    Fault.InTurn ((ds.filter fun d => d.position = t.span.start).map Diagnostic.fault)
  /-- The line to be shown with a diagnostic is found. -/
  shown : ∀ d ∈ ds, (Text.placeOf text d.position.offset.toNat).isSome

section

variable {text : List Char} {file : String} {offset : Nat} {s : σ} {b c : Blame σ}
  (h : Lossless text file offset (drain s).1 (drain s).2)

include h

/-- Where fewer tokens are left, the position is further on. -/
theorem Lossless.offset_le (hb : (Cursor.start s).Reaches b.place)
    (hc : (Cursor.start s).Reaches c.place) (hbc : b.Before c) :
    b.diagnostic.position.offset ≤ c.diagnostic.position.offset := by
  obtain ⟨i, hi, hileft, hib⟩ := Cursor.exists_getElem_of_reaches hb
  obtain ⟨j, hj, hjleft, hjc⟩ := Cursor.exists_getElem_of_reaches hc
  have hleft : c.place.tokens.length ≤ b.place.tokens.length := hbc.left_le
  rw [b.blames.position_eq, c.blames.position_eq, UInt32.le_iff_toNat_le, ← hib, ← hjc]
  rcases Nat.lt_or_eq_of_le (show i ≤ j by omega) with hlt | rfl
  · exact Nat.le_of_lt (List.pairwise_iff_getElem.1 h.pairwise_startOffset_lt i j hi hj hlt)
  · exact Nat.le_refl _

/-- A position belongs to one token only. -/
theorem Lossless.left_eq (hb : (Cursor.start s).Reaches b.place) {i : Nat}
    (hi : i < (drain s).1.length)
    (hposition : b.diagnostic.position = (drain s).1[i].span.start) :
    b.left = (drain s).1.length - i := by
  obtain ⟨j, hj, hjleft, hjb⟩ := Cursor.exists_getElem_of_reaches hb
  have hi' : i < ((drain s).1 ++ [(drain s).2]).length := by
    rw [List.length_append]
    exact Nat.lt_of_lt_of_le hi (Nat.le_add_right _ _)
  have hstart : ((drain s).1 ++ [(drain s).2])[j].startOffset =
      ((drain s).1 ++ [(drain s).2])[i].startOffset := by
    rw [hjb, List.getElem_append_left hi, Token.startOffset, Token.startOffset, ← hposition, b.blames.position_eq]
  have hstarts := List.pairwise_iff_getElem.1 h.pairwise_startOffset_lt
  have hij : i = j := by
    rcases Nat.lt_trichotomy i j with hlt | heq | hgt
    · exact absurd hstart (Nat.ne_of_gt (hstarts i j hi' hj hlt))
    · exact heq
    · exact absurd hstart (Nat.ne_of_lt (hstarts j i hj hi' hgt))
  rw [hij, ← hjleft, Blame.left]
  omega

/-- Blames in turn, all of them of tokens of the text, make truthful diagnostics. -/
theorem Lossless.truthful {bs : List (Blame σ)}
    (hplaced : ∀ b ∈ bs, (Cursor.start s).Reaches b.place) (hordered : bs.Pairwise Blame.Before) :
    Truthful text ((drain s).1 ++ [(drain s).2]) (bs.map Blame.diagnostic) := by
  have hblamed (b : Blame σ) (hb : b ∈ bs) :
      b.place.current ∈ (drain s).1 ++ [(drain s).2] := by
    obtain ⟨i, hi, -, hcurrent⟩ := Cursor.exists_getElem_of_reaches (hplaced b hb)
    exact hcurrent ▸ List.getElem_mem hi
  constructor
  case blamed =>
    intro d hd
    obtain ⟨b, hb, rfl⟩ := List.mem_map.1 hd
    exact ⟨b.place.current, hblamed b hb, b.blames⟩
  case ordered =>
    refine List.pairwise_map.2 (hordered.imp_of_mem fun {b c} hb hc hbc => ?_)
    exact h.offset_le (hplaced b hb) (hplaced c hc) hbc
  case inTurn =>
    intro t ht hkind
    have hmem : t ∈ (drain s).1 := by
      rcases List.mem_append.1 ht with ht | ht
      · exact ht
      · rw [List.mem_singleton.1 ht] at hkind
        exact absurd (TokenSource.drain_kinds s).2 hkind
    obtain ⟨i, hi, rfl⟩ := List.getElem_of_mem hmem
    rw [List.filter_map, List.map_map]
    refine Blame.inTurn (hordered.filter _) (Nat.sub_ne_zero_of_lt hi) fun b hb => ?_
    obtain ⟨hb, hposition⟩ := List.mem_filter.1 hb
    exact h.left_eq (hplaced b hb) hi (by simpa using hposition)
  case shown =>
    intro d hd
    obtain ⟨b, hb, rfl⟩ := List.mem_map.1 hd
    rw [Text.placeOf_isSome_iff, b.blames.position_eq]
    exact h.startOffset_le (hblamed b hb)

end

/-- Parsing a text of less than four gibibytes gives truthful diagnostics. -/
theorem parseText_truthful {text : String} (file : String)
    (h : Text.byteLength text.toList < UInt32.size) :
    Truthful text.toList (Scanner.ofString text file).tokens
      (parseText text file).2.diagnostics.toList := by
  have hlossless := Scanner.lossless_ofString file h
  obtain ⟨bs, hbs⟩ :=
    Grammar.exists_account_program (Parser.start (Scanner.ofString text file)) rfl
  have hrecorded := hbs.recorded
  simp only [Option.toList_none, List.append_nil] at hrecorded
  have hdiagnostics : (parseText text file).2.diagnostics.toList = bs.map Blame.diagnostic :=
    hrecorded
  rw [hdiagnostics]
  exact hlossless.truthful hbs.placed hbs.ordered

/-- A text with a parenthesis where a name is due and with a number that is too large. -/
theorem parseText_truthful_misplaced :
    Text.byteLength "let ) 99999999999999999999".toList < UInt32.size ∧
      Truthful "let ) 99999999999999999999".toList
        (Scanner.ofString "let ) 99999999999999999999" "notes").tokens
        (parseText "let ) 99999999999999999999" "notes").2.diagnostics.toList := by
  have h : Text.byteLength "let ) 99999999999999999999".toList < UInt32.size := by decide
  exact ⟨h, parseText_truthful "notes" h⟩

/-- The parenthesis is blamed in both of its turns. -/
example :
    (parseText "let ) 99999999999999999999" "notes").2.diagnostics.toList.map Diagnostic.fault =
      [.unexpected .identifier .closeParen, .noExpression .closeParen,
        .badInteger "99999999999999999999"] := by
  decide +kernel

end MonkeyFrontEnd
