import MonkeyFrontEnd.Proofs.Spacing

/-!
Reading and line breaks. No lexeme goes on behind a newline: a comment ends in front of it, and only a
run of blanks may hold it, of which it does not matter where it is cut. So the tokens of a text are
those in front of a newline and then those behind it (`readBare_newline`), and a blank at the end of a
text takes no part (`readBare_concat_blank`).
-/

namespace MonkeyFrontEnd

namespace Rule

variable {r : Rule} {text : List Char}

/-- What a text of one class and one more character begin with is in some class. -/
theorem isLexeme_opening : ∀ r ∈ ordered, r.opening ≠ [] →
    IsLexeme r.opening ∧ r.opening.length ≤ 2 := by decide

/-- The marks that a character can make longer are in one more class with it. -/
theorem isLexeme_append_of_continues {c : Char} (hr : r ∈ ordered) (haccepts : r.accepts text = true)
    (hc : r.continues c = true) : IsLexeme (text ++ [c]) := by
  cases r with
  | word => exact Lexeme.isLexeme_append_wordPart (.inl rfl) haccepts hc
  | number => exact Lexeme.isLexeme_append_wordPart (.inr rfl) haccepts hc
  | blanks =>
    obtain ⟨d, text, rfl⟩ := List.exists_cons_of_ne_nil (ne_nil_of_accepts (r := .blanks) rfl haccepts)
    simp only [accepts, isRun, Bool.and_eq_true] at haccepts
    have hc' : Text.isBlank c = true := hc
    exact ⟨.blanks, by decide, by simp [accepts, isRun, haccepts, hc']⟩
  | comment =>
    obtain ⟨body, rfl, hbody⟩ := accepts_comment_iff.1 haccepts
    have hc' : c ≠ '\n' := by simpa [continues] using hc
    refine ⟨.comment, by decide, accepts_comment_iff.2 ⟨body ++ [c], rfl, ?_⟩⟩
    simpa [hbody] using Ne.symm hc'
  | mark own kind =>
    obtain rfl : text = own := by simpa [accepts] using haccepts
    obtain ⟨r, hr', hopens⟩ := List.any_eq_true.1 hc
    have hpre := List.isPrefixOf_iff_prefix.1 hopens
    have hne : r.opening ≠ [] := by
      intro hnil
      rw [hnil] at hpre
      simp at hpre
    obtain ⟨hlexeme, hlength⟩ := isLexeme_opening r hr' hne
    -- The mark has a character and one more, and no opening has three.
    have hpos := List.length_pos_iff.2 (ne_nil_of_accepts (isSound_of_mem_ordered _ hr) haccepts)
    have hsame := hpre.eq_of_length_le (by rw [List.length_append, List.length_singleton]; omega)
    rw [hsame]
    exact hlexeme

/-- The first character of a text of a class is in a class by itself. -/
theorem isLexeme_of_leads {c : Char} (hr : r ∈ ordered) (hc : r.leads c = true) : IsLexeme [c] := by
  have hmarks : ∀ r ∈ ordered, r.opening.head?.all (fun d => decide (IsLexeme [d])) = true := by decide
  cases r with
  | word => exact ⟨.word, by decide, by simpa [accepts, isRun, leads] using hc⟩
  | number => exact ⟨.number, by decide, by simpa [accepts, isRun, leads] using hc⟩
  | blanks => exact ⟨.blanks, by decide, by simpa [accepts, isRun, leads] using hc⟩
  | comment =>
    obtain rfl : c = '/' := by simpa [leads] using hc
    decide
  | mark own kind =>
    have hhead : (mark own kind).opening.head? = some c := by simpa [leads, opening] using hc
    simpa [hhead] using hmarks _ hr

/-- A run of blanks is trivia, whatever stands behind it. -/
theorem isTrivia_of_accepts (h : blanks.accepts text = true) (behind : List Char) :
    IsTrivia behind text := by
  have hblank : ∀ c ∈ text, Text.isBlank c = true := by
    cases text with
    | nil => cases h
    | cons c text => simpa [accepts, isRun] using h
  have hrun := IsTrivia.blanks_append hblank (IsTrivia.nil : IsTrivia behind [])
  rwa [List.append_nil] at hrun

/-- Only a run of blanks and a comment go on with a blank. -/
theorem eq_blanks_or_comment {c : Char} (hc : r.continues c = true) (hblank : Text.isBlank c = true) :
    r = .blanks ∨ r = .comment := by
  cases r with
  | word => exact absurd hblank (not_isBlank_of_isWordPart hc)
  | number => exact absurd hblank (not_isBlank_of_isWordPart hc)
  | blanks => exact .inl rfl
  | comment => exact .inr rfl
  | mark own kind =>
    have hmarks : ∀ r ∈ ordered, r.opening.all (!Text.isBlank ·) = true := by decide
    obtain ⟨r, hr, hopens⟩ := List.any_eq_true.1 hc
    have hmem : c ∈ r.opening := (List.isPrefixOf_iff_prefix.1 hopens).subset (by simp)
    have hother := List.all_eq_true.1 (hmarks r hr) c hmem
    simp [hblank] at hother

end Rule

namespace Lexeme

variable {cs rest : List Char} {lexeme : Lexeme}

/-- A character that no text of any class begins with is illegal, whatever stands behind it. -/
theorem next?_of_not_leads {c : Char} (h : ∀ r ∈ Rule.ordered, r.leads c = false)
    (more : List Char) : next? (c :: more) = some (⟨some .illegal, [c]⟩, more) := by
  have hnone : ofRules Rule.ordered (c :: more) = none := by
    cases hrules : ofRules Rule.ordered (c :: more) with
    | none => rfl
    | some found =>
      obtain ⟨⟨kind, text⟩, behind⟩ := found
      obtain ⟨r, hr, htake, -⟩ := exists_of_ofRules hrules
      obtain ⟨htext, hne⟩ := Rule.take_append hr htake
      obtain ⟨d, text, rfl⟩ := List.exists_cons_of_ne_nil hne
      obtain rfl : c = d := (List.cons.inj htext).1
      have hleads := Rule.leads_of_accepts (Rule.accepts_of_take htake)
      rw [h r hr] at hleads
      cases hleads
  change some ((ofRules Rule.ordered (c :: more)).getD _) = _
  rw [hnone]
  rfl

/-- An illegal lexeme is a character that no text of any class begins with. -/
theorem exists_not_leads_of_illegal (h : next? cs = some (lexeme, rest))
    (hkind : lexeme.kind = some .illegal) :
    ∃ c, lexeme = ⟨some .illegal, [c]⟩ ∧ ∀ r ∈ Rule.ordered, r.leads c = false := by
  rcases next?_cases h with ⟨-, hlegal⟩ | ⟨hnone, -, c, hc⟩
  · exact absurd hkind hlegal
  · obtain ⟨kind, text⟩ := lexeme
    obtain rfl : text = [c] := hc
    obtain rfl : kind = some .illegal := hkind
    refine ⟨c, rfl, fun r hr => eq_false_of_ne_true fun hleads => ?_⟩
    have hstart : [c] <+: cs := ⟨rest, (next?_append h).symm⟩
    exact not_prefix_of_forall_take hnone (Rule.isLexeme_of_leads hr hleads) hstart

end Lexeme

/-- What follows a text changes nothing about its first lexeme, unless that is all of the text and a
lexeme of its class goes on. -/
theorem Lexeme.next?_append_more {cs rest more : List Char} {lexeme : Lexeme}
    (h : next? cs = some (lexeme, rest))
    (hmore : rest = [] → ∀ r ∈ Rule.ordered, r.accepts lexeme.text = true →
      ∀ c, more.head? = some c → r.continues c = false) :
    next? (cs ++ more) = some (lexeme, rest ++ more) := by
  have happend := next?_append h
  rcases next?_cases h with ⟨hrules, -⟩ | ⟨-, hkind, -⟩
  · obtain ⟨r, hr, htake, hkind⟩ := exists_of_ofRules hrules
    have haccepts := Rule.accepts_of_take htake
    have hstop : ∀ c, (rest ++ more).head? = some c → r.continues c = false := by
      intro c hc
      cases rest with
      | nil => exact hmore rfl r hr haccepts c hc
      | cons d rest =>
        rw [← Bool.not_eq_true]
        intro hcontinues
        have hlonger := Rule.isLexeme_append_of_continues hr haccepts hcontinues
        exact not_isLexeme_append_head h hc hlonger
    have hnext := next?_of_accepts hr haccepts hstop
    rw [← hkind] at hnext
    rw [happend, List.append_assoc]
    exact hnext
  · obtain ⟨c, rfl, hleads⟩ := exists_not_leads_of_illegal h hkind
    rw [happend]
    exact next?_of_not_leads hleads (rest ++ more)

/-- A run of blanks and a comment make no token, and neither do they with one more blank, if a comment
has the newline behind it. -/
theorem readBare_goesOn {a b : List Char} {c : Char} {r : Rule} (haccepts : r.accepts a = true)
    (hcontinues : r.continues c = true) (hblank : Text.isBlank c = true) (hend : c = '\n' ∨ b = []) :
    readBare (a ++ c :: b) = readBare a ++ readBare b := by
  rcases Rule.eq_blanks_or_comment hcontinues hblank with rfl | rfl
  · have htrivia (behind : List Char) : readBare (a ++ behind) = readBare behind :=
      readBare_trivia_append (Rule.isTrivia_of_accepts haccepts behind)
    have hnone := htrivia []
    rw [List.append_nil, readBare_nil] at hnone
    rw [htrivia, hnone, readBare_blank_cons hblank, List.nil_append]
  · have hc : c ≠ '\n' := by simpa [Rule.continues] using hcontinues
    obtain rfl := hend.resolve_left hc
    have hnone {body : List Char} (hbody : '\n' ∉ body) : readBare ('/' :: '/' :: body) = [] := by
      have hnil : IsTrivia [] [] := .nil
      have h := readBare_trivia_append (IsTrivia.comment hbody (by simp) hnil)
      simpa using h
    obtain ⟨body, rfl, hbody⟩ := Rule.accepts_comment_iff.1 haccepts
    have hlonger : '\n' ∉ body ++ [c] := by simpa [hbody] using Ne.symm hc
    rw [hnone hbody, readBare_nil]
    exact hnone hlonger

/-- Where a text is cut in front of a blank, its tokens are those of the two parts, if the blank is a
newline or the end of the text. -/
theorem readBare_append_blank {c : Char} {b : List Char} (hblank : Text.isBlank c = true)
    (hend : c = '\n' ∨ b = []) (a : List Char) : readBare (a ++ c :: b) = readBare a ++ readBare b := by
  induction hlength : a.length using Nat.strongRecOn generalizing a with
  | ind n ih =>
    subst hlength
    cases hnext : Lexeme.next? a with
    | none =>
      obtain rfl := Lexeme.next?_eq_none_iff.1 hnext
      rw [readBare_nil, List.nil_append, List.nil_append, readBare_blank_cons hblank]
    | some found =>
      obtain ⟨lexeme, rest⟩ := found
      by_cases hgoes : rest = [] ∧ ∃ r ∈ Rule.ordered, r.accepts lexeme.text = true ∧ r.continues c = true
      · obtain ⟨rfl, r, -, haccepts, hcontinues⟩ := hgoes
        have ha : a = lexeme.text := by rw [Lexeme.next?_append hnext, List.append_nil]
        exact readBare_goesOn (ha ▸ haccepts) hcontinues hblank hend
      · have hstop : rest = [] → ∀ r ∈ Rule.ordered, r.accepts lexeme.text = true →
            ∀ d, (c :: b).head? = some d → r.continues d = false := by
          rintro hrest r hr haccepts _ ⟨rfl⟩
          rw [← Bool.not_eq_true]
          exact fun hcontinues => hgoes ⟨hrest, r, hr, haccepts, hcontinues⟩
        have hnext' := Lexeme.next?_append_more hnext hstop
        have hlater := ih _ (Lexeme.next?_length_lt hnext) rest rfl
        cases hkind : lexeme.kind with
        | some kind =>
          rw [readBare_of_kind hnext' hkind, readBare_of_kind hnext hkind, hlater, List.cons_append]
        | none => rw [readBare_of_skipped hnext' hkind, readBare_of_skipped hnext hkind, hlater]

/-- Cutting a text behind a newline splits no token, joins none, drops none and adds none. -/
theorem readBare_newline (a b : List Char) : readBare (a ++ '\n' :: b) = readBare a ++ readBare b :=
  readBare_append_blank (by decide) (.inl rfl) a

/-- A blank at the end of a text makes no difference, in a comment or outside. -/
theorem readBare_concat_blank {c : Char} (hblank : Text.isBlank c = true) (a : List Char) :
    readBare (a ++ [c]) = readBare a := by
  rw [readBare_append_blank hblank (.inr rfl), readBare_nil, List.append_nil]

end MonkeyFrontEnd
