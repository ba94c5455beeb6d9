import MonkeyFrontEnd.Proofs.LineBreaks
import MonkeyFrontEnd.Proofs.Reports
import MonkeyFrontEnd.Proofs.Truthful

/-!
Under which character the caret of a report stands. The source line is printed behind its number and
without its leading spaces, and the caret line has a margin of the same width and as many columns less
as there were leading spaces; but its columns are the bytes in front of the blamed token. So the caret
stands as far to the right of the token as there are more bytes than characters in front of it on its
line, and exactly below it where all of them are of one byte (`report_showsStart`).
-/

namespace MonkeyFrontEnd

open TokenSource (drain)

namespace Text

/-- Nothing is trimmed up to a character that is not blank. -/
theorem trimEnd_append_cons {c : Char} (hc : isBlank c = false) (front back : List Char) :
    trimEnd (front ++ c :: back) = front ++ c :: trimEnd back := by
  have hreverse : (front ++ c :: back).reverse = back.reverse ++ c :: front.reverse := by simp
  rw [trimEnd, trimEnd, hreverse, List.dropWhile_append]
  split
  · next hall =>
    rw [List.isEmpty_iff.1 hall, List.dropWhile_cons_of_neg (by simp [hc])]
    simp
  · simp

/-- A line is printed without its newline. -/
theorem newline_not_mem_trimEnd {line : List Char} (h : '\n' ∉ line.dropLast) :
    '\n' ∉ trimEnd line := by
  obtain rfl | ⟨front, c, rfl⟩ := line.eq_nil_or_concat
  · decide
  rw [List.concat_eq_append] at h ⊢
  rw [List.dropLast_concat] at h
  by_cases hc : isBlank c = true
  · have htrim : trimEnd (front ++ [c]) = trimEnd front := by simp [trimEnd, hc]
    rw [htrim]
    intro hmem
    rw [trimEnd, List.mem_reverse] at hmem
    exact h (List.mem_reverse.1 ((List.dropWhile_sublist _).mem hmem))
  · rw [trimEnd_append_cons (eq_false_of_ne_true hc)]
    have hne : '\n' ≠ c := by
      rintro rfl
      exact hc (by decide)
    simpa [trimEnd, h] using hne

/-- Leading spaces are dropped in front of a character that is not one. -/
theorem dropWhile_space_append_cons {c : Char} (hc : c ≠ ' ') (front back : List Char) :
    (front ++ c :: back).dropWhile (· = ' ') = front.dropWhile (· = ' ') ++ c :: back := by
  rw [List.dropWhile_append]
  split
  · next hall => rw [List.isEmpty_iff.1 hall, List.dropWhile_cons_of_neg (by simpa using hc)]; rfl
  · rfl

theorem newline_not_mem_number (n : Nat) : '\n' ∉ (toString n).toList := by
  intro hmem
  have hdigits : (toString n).toList = Nat.toDigits 10 n := String.toList_ofList
  rw [hdigits] at hmem
  exact absurd (Nat.isDigit_of_mem_toDigits (by decide) (by decide) hmem) (by decide)

/-- The number of characters that a run of spaces takes. -/
theorem length_takeWhile_add_dropWhile (front : List Char) :
    (front.takeWhile (· = ' ')).length + (front.dropWhile (· = ' ')).length = front.length := by
  rw [← List.length_append, List.takeWhile_append_dropWhile]

/-- The bytes are as many as the characters exactly if every character is one byte. -/
theorem byteLength_eq_length_iff {cs : List Char} :
    byteLength cs = cs.length ↔ ∀ c ∈ cs, c.utf8Size = 1 := by
  induction cs with
  | nil => simp
  | cons c cs ih =>
    have hpos := c.utf8Size_pos
    have hle := length_le_byteLength cs
    rw [List.forall_mem_cons, ← ih, byteLength_cons, List.length_cons]
    omega

end Text

/-- A token does not begin with a blank. -/
theorem Scanner.exists_eq_cons_of_mem_drain {s : Scanner} {t : Token} (ht : t ∈ (drain s).1) :
    ∃ c cs, t.text.toList = c :: cs ∧ Text.isBlank c = false := by
  by_cases hkind : t.kind = .illegal
  · obtain ⟨cs, rest, hlexeme⟩ := exists_lexeme_of_mem_drain ht
    obtain ⟨c, hc, hleads⟩ := Lexeme.exists_not_leads_of_illegal hlexeme (congrArg some hkind)
    exact ⟨c, [], congrArg Lexeme.text hc, hleads .blanks (by decide)⟩
  · obtain ⟨c, cs, htext, hblank, -⟩ := (isSpelled_of_mem_drain ht hkind).exists_eq_cons
    exact ⟨c, cs, htext, hblank⟩

namespace Diagnostic

/-- The character `c` is at a byte offset of a text, behind the whole lines `earlier` and, on its own
line, behind `before`. -/
structure Finds (text : List Char) (offset : Nat) (earlier before : List Char) (c : Char) : Prop where
  text_eq : ∃ behind, text = earlier ++ before ++ c :: behind
  offset_eq : Text.byteLength (earlier ++ before) = offset
  begins : earlier = [] ∨ earlier.getLast? = some '\n'
  sameLine : '\n' ∉ before

/-- What is printed on the source line in front of the character behind `earlier` and `before`: the
number of the line, and the line without its leading spaces. -/
def printedBefore (earlier before : List Char) : List Char :=
  (toString (earlier.count '\n' + 1)).toList ++ " | ".toList ++ before.dropWhile (· = ' ')

/-- A report ends in a source line, where `c` stands behind `before`, and in a line with the caret
behind `below`. -/
def Shows (report : String) (before : List Char) (c : Char) (below : List Char) : Prop :=
  ∃ above back, report.toList =
      above ++ '\n' :: (before ++ c :: back) ++ '\n' :: (below ++ ['^']) ∧
    '\n' ∉ before ++ c :: back ∧ '\n' ∉ below

/-- What stands in front of the caret. -/
def beforeCaret (place : Text.Place) : List Char :=
  (margin place.number).toList ++ ' ' :: List.replicate (caretColumn place) '-'

variable {place : Text.Place} {before after : List Char} {c : Char}

theorem newline_not_mem_beforeCaret (place : Text.Place) : '\n' ∉ beforeCaret place := by
  simp [beforeCaret, margin, repeated]

/-- The drawing of a place shows the character that is at the column of the place. -/
theorem shows_drawing (heading : String) (hinner : '\n' ∉ place.line.dropLast)
    (hline : place.line = before ++ c :: after) (hc : Text.isBlank c = false) :
    Shows (heading ++ drawing place)
      ((toString place.number).toList ++ " | ".toList ++ before.dropWhile (· = ' ')) c
      (beforeCaret place) := by
  have hspace : c ≠ ' ' := by
    rintro rfl
    cases hc
  have hprinted := Text.newline_not_mem_trimEnd hinner
  rw [hline, Text.trimEnd_append_cons hc] at hprinted
  refine ⟨(heading ++ margin place.number).toList, Text.trimEnd after, ?_, ?_,
    newline_not_mem_beforeCaret place⟩
  · simp [drawing, shownLine, hline, Text.dropWhile_space_append_cons hspace,
      Text.trimEnd_append_cons hc, beforeCaret, repeated]
  · have hnumber := Text.newline_not_mem_number place.number
    have hdropped : '\n' ∉ before.dropWhile (· = ' ') := fun hmem =>
      hprinted (List.mem_append_left _ ((List.dropWhile_sublist _).mem hmem))
    simp only [List.mem_append, not_or] at hprinted ⊢
    exact ⟨⟨⟨hnumber, by decide⟩, hdropped⟩, hprinted.2⟩

/-- The caret moves left by the leading spaces in front of the character. -/
theorem caretColumn_eq (hline : place.line = before ++ c :: after) (hc : c ≠ ' ')
    (hcolumn : Text.byteLength before = place.column) :
    caretColumn place = Text.byteLength (before.dropWhile (· = ' ')) := by
  have hindent : indentation place.line = indentation before := by
    rw [indentation, hline, List.takeWhile_append]
    split
    · next hall => rw [List.takeWhile_cons_of_neg (by simpa using hc), List.append_nil, ← hall]; rfl
    · rfl
  rw [caretColumn, hindent, ← hcolumn, ← indentation_add_byteLength before, Nat.add_sub_cancel_left]

/-- As far as the bytes of the line outnumber its characters, the caret is further to the right. -/
theorem length_beforeCaret (hline : place.line = before ++ c :: after) (hc : c ≠ ' ')
    (hcolumn : Text.byteLength before = place.column) :
    (beforeCaret place).length + before.length =
      ((toString place.number).toList ++ " | ".toList ++ before.dropWhile (· = ' ')).length +
        Text.byteLength before := by
  have hsplit := Text.length_takeWhile_add_dropWhile before
  have hbytes := indentation_add_byteLength before
  rw [indentation] at hbytes
  simp only [beforeCaret, margin, repeated, caretColumn_eq hline hc hcolumn, String.toList_append,
    String.toList_ofList, List.length_append, List.length_replicate, List.length_cons,
    String.length_toList, show "|".length = 1 by decide, show " | ".length = 3 by decide]
  omega

end Diagnostic

/-- Every diagnostic of a text blames one of its tokens. -/
theorem exists_blames_of_mem_diagnostics {text file : String} {d : Diagnostic}
    (hd : d ∈ (parseText text file).2.diagnostics) :
    ∃ t ∈ (Scanner.ofString text file).tokens, d.Blames t := by
  obtain ⟨c, hreached, hblames⟩ := exists_blames_of_mem (Array.mem_toList_iff.2 hd)
  obtain ⟨i, hi, -, hcurrent⟩ := Cursor.exists_getElem_of_reaches hreached
  exact ⟨c.current, hcurrent ▸ List.getElem_mem hi, hblames⟩

open Diagnostic (Finds Shows printedBefore)

/-- The report shows the first character of the token, which is the one at the offset of the
diagnostic, and puts the caret as far to the right of it as there are more bytes than characters in
front of it on its line. So the caret stands below it exactly if these characters are of one byte.
There is a report if these characters, less the leading spaces, have less than 65535 bytes, and else
there is none. -/
def Diagnostic.ShowsStart (d : Diagnostic) (text : String) (t : Token) : Prop :=
  ∃ c earlier before below, t.text.toList.head? = some c ∧
    Finds text.toList d.position.offset.toNat earlier before c ∧
    (Text.byteLength (before.dropWhile (· = ' ')) < 65535 →
      ∃ shown, d.report text = .ok shown ∧ Shows shown (printedBefore earlier before) c below) ∧
    (65535 ≤ Text.byteLength (before.dropWhile (· = ' ')) →
      d.report text = .error (.width (Text.byteLength (before.dropWhile (· = ' ')) + 1))) ∧
    below.length + before.length =
      (printedBefore earlier before).length + Text.byteLength before ∧
    (below.length = (printedBefore earlier before).length ↔ ∀ x ∈ before, x.utf8Size = 1)

/-- The report shows where a token starts that is not the end of the input. -/
theorem Diagnostic.Blames.showsStart {text : String} (file : String) {d : Diagnostic} {t : Token}
    (hblames : d.Blames t) (h : Text.byteLength text.toList < UInt32.size)
    (ht : t ∈ (drain (Scanner.ofString text file)).1) : d.ShowsStart text t := by
  obtain ⟨c, cs, hcs, hblank⟩ := Scanner.exists_eq_cons_of_mem_drain ht
  obtain ⟨behind, front, htext, hfront, -⟩ := (Scanner.lossless_ofString file h).literal t ht
  have hoffset : t.startOffset = d.position.offset.toNat :=
    congrArg (·.offset.toNat) hblames.position_eq.symm
  rw [hcs, List.cons_append] at htext
  have hisSome : (Text.placeOf text.toList d.position.offset.toNat).isSome := by
    rw [Text.placeOf_isSome_iff, ← hoffset, ← hfront, htext, Text.byteLength_append]
    exact Nat.le_add_right _ _
  obtain ⟨place, hplace⟩ := Option.isSome_iff_exists.1 hisSome
  obtain ⟨earlier, after, hlies⟩ := Text.exists_liesAt_of_placeOf hplace
  obtain ⟨before, outer, rfl, hline, hcolumn, hsame⟩ :=
    hlies.exists_line_eq htext (hfront.trans hoffset)
  have hprinted : printedBefore earlier before =
      (toString place.number).toList ++ " | ".toList ++ before.dropWhile (· = ' ') := by
    rw [printedBefore, hlies.number_eq, Nat.add_comm]
  have hspace : c ≠ ' ' := by
    rintro rfl
    cases hblank
  have hlength := Diagnostic.length_beforeCaret hline hspace hcolumn
  rw [← hprinted] at hlength
  refine ⟨c, earlier, before, Diagnostic.beforeCaret place, by rw [hcs]; rfl,
    ⟨⟨_, htext⟩, hfront.trans hoffset, hlies.begins, hsame⟩, fun hfits => ?_, fun hwide => ?_, hlength,
    ?_⟩
  · rw [← Diagnostic.caretColumn_eq hline hspace hcolumn] at hfits
    rw [hprinted]
    exact ⟨_, Diagnostic.report_of_lt hplace hfits,
      Diagnostic.shows_drawing d.heading hlies.inner hline hblank⟩
  · rw [← Diagnostic.caretColumn_eq hline hspace hcolumn] at hwide ⊢
    exact Diagnostic.report_of_le hplace hwide
  · rw [← Text.byteLength_eq_length_iff]
    omega

/-- Every diagnostic of a text of less than four gibibytes blames a token, and unless that is the end
of the input, the report shows where the token starts. -/
theorem report_showsStart {text : String} (file : String)
    (h : Text.byteLength text.toList < UInt32.size) :
    ∀ d ∈ (parseText text file).2.diagnostics, ∃ t ∈ (Scanner.ofString text file).tokens,
      d.Blames t ∧ (t.kind ≠ .eof → d.ShowsStart text t) := by
  intro d hd
  obtain ⟨t, ht, hblames⟩ := exists_blames_of_mem_diagnostics hd
  refine ⟨t, ht, hblames, fun hkind => hblames.showsStart file h ?_⟩
  rcases List.mem_append.1 ht with hmem | hmem
  · exact hmem
  · rw [List.mem_singleton.1 hmem] at hkind
    exact absurd (TokenSource.drain_kinds (Scanner.ofString text file)).2 hkind

/-- On the second line of this text a tab and three spaces stand in front of the parenthesis. -/
theorem report_showsStart_tab :
    Text.byteLength "let x = 1;\n  \t )".toList < UInt32.size ∧
    ∀ d ∈ (parseText "let x = 1;\n  \t )" "notes").2.diagnostics,
      ∃ t ∈ (Scanner.ofString "let x = 1;\n  \t )" "notes").tokens,
        d.Blames t ∧ (t.kind ≠ .eof → d.ShowsStart "let x = 1;\n  \t )" t) := by
  have h : Text.byteLength "let x = 1;\n  \t )".toList < UInt32.size := by decide
  exact ⟨h, report_showsStart "notes" h⟩

/-- The letter in front of this parenthesis is of two bytes, and the caret is one column too far to the
right. -/
theorem exists_caret_beside :
    ∃ d ∈ (parseText "é )" "shell").2.diagnostics, ∃ t ∈ (Scanner.ofString "é )" "shell").tokens,
      d.Blames t ∧ t.kind = .closeParen ∧
      Finds "é )".toList d.position.offset.toNat [] "é ".toList ')' ∧
      (∃ shown, d.report "é )" = .ok shown ∧ Shows shown "1 | é ".toList ')' "  | ---".toList) ∧
      "  | ---".length ≠ "1 | é ".length := by
  refine ⟨⟨.noExpression .closeParen, ⟨3, "shell"⟩⟩, by decide +kernel,
    ⟨.closeParen, ")", ⟨⟨3, "shell"⟩, ⟨4, "shell"⟩⟩⟩, by decide +kernel,
    ⟨rfl, rfl, by decide⟩, rfl, ⟨⟨[], rfl⟩, by decide, .inl rfl, by decide⟩, ?_, by decide⟩
  exact ⟨"Error: NoPrefixParseFn (`)` cannot start an expression)\n-> shell\n  |\n1 | é )\n  | ---^",
    by decide +kernel,
    "Error: NoPrefixParseFn (`)` cannot start an expression)\n-> shell\n  |".toList, [],
    by decide +kernel, by decide, by decide⟩

end MonkeyFrontEnd
