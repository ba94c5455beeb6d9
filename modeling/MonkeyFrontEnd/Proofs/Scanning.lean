import MonkeyFrontEnd.Proofs.LongestMatch
import MonkeyFrontEnd.Token.Lexer

/-!
What one step of reading does to a text. A scanner passes over trivia, which are blanks and comments
up to the end of their line, and then takes one lexeme or comes to the end of the text
(`Scanner.exists_gap_next`). A lexer to which nothing was pushed reads its text as a scanner does
(`Lexer.next_eq_ok`).
-/

namespace MonkeyFrontEnd

/-- Characters that make no token, where the text goes on with `behind`. A comment runs up to a
newline or to the end of the text. -/
inductive IsTrivia (behind : List Char) : List Char → Prop
  | nil : IsTrivia behind []
  | blank {c : Char} {gap : List Char} (hc : Text.isBlank c = true) (hgap : IsTrivia behind gap) :
      IsTrivia behind (c :: gap)
  | comment {body gap : List Char} (hbody : '\n' ∉ body)
      (hend : ∀ c, (gap ++ behind).head? = some c → c = '\n') (hgap : IsTrivia behind gap) :
      IsTrivia behind ('/' :: '/' :: (body ++ gap))

/-- Blanks in front of trivia are trivia. -/
theorem IsTrivia.blanks_append {behind run gap : List Char} (hrun : ∀ c ∈ run, Text.isBlank c = true)
    (hgap : IsTrivia behind gap) : IsTrivia behind (run ++ gap) := by
  induction run with
  | nil => exact hgap
  | cons c run ih =>
    have hrest := ih fun d hd => hrun d (List.mem_cons_of_mem c hd)
    exact .blank (hrun c (List.mem_cons_self ..)) hrest

namespace Lexeme

/-- Only the empty text has no next lexeme. -/
theorem next?_eq_none_iff {cs : List Char} : next? cs = none ↔ cs = [] := by
  cases cs with
  | nil => simp [next?]
  | cons c cs => simp [next?]

/-- A lexeme without a kind is trivia in front of trivia. -/
theorem isTrivia_append {cs behind gap : List Char} {lexeme : Lexeme}
    (h : next? cs = some (lexeme, gap ++ behind)) (hkind : lexeme.kind = none)
    (hgap : IsTrivia behind gap) : IsTrivia behind (lexeme.text ++ gap) := by
  obtain ⟨before, r, after, -, -, htake, hof⟩ :=
    (isLongest_of_next? h).picked (by rw [hkind]; exact nofun)
  rw [hkind] at hof
  have haccepts := Rule.accepts_of_take htake
  cases r with
  | word => simp [Rule.kindOf] at hof
  | number => simp [Rule.kindOf] at hof
  | mark own kind => simp [Rule.kindOf] at hof
  | blanks =>
    refine hgap.blanks_append fun c hc => ?_
    obtain ⟨d, text, htext⟩ := List.exists_cons_of_ne_nil (next?_text_ne_nil h)
    simp only [Rule.accepts, htext, isRun, Bool.and_eq_true, List.all_eq_true] at haccepts
    rw [htext] at hc
    rcases List.mem_cons.1 hc with rfl | hc
    · exact haccepts.1
    · exact haccepts.2 c hc
  | comment =>
    obtain ⟨body, htext, hbody⟩ := Rule.accepts_comment_iff.1 haccepts
    rw [htext]
    refine .comment hbody (fun c hc => ?_) hgap
    -- What stops a comment is the newline that no comment can hold.
    apply Classical.byContradiction
    intro hne
    have hlonger : IsLexeme (lexeme.text ++ [c]) := by
      refine ⟨.comment, by decide, Rule.accepts_comment_iff.2 ⟨body ++ [c], by rw [htext]; rfl, ?_⟩⟩
      simpa [hbody] using Ne.symm hne
    exact not_isLexeme_append_head h hc hlonger

end Lexeme

namespace Scanner

theorem past_nil (s : Scanner) : s.past [] s.rest = s := by
  simp [past]

theorem past_past (s : Scanner) (text text' rest rest' : List Char) :
    (s.past text rest).past text' rest' = s.past (text ++ text') rest' := by
  simp [past, Nat.add_assoc]

/-- The scanner passes over trivia. Then it is at the end of the text, or it takes one lexeme, which
has a kind and is the token that it gives. -/
theorem exists_gap_next (s : Scanner) : ∃ gap cs, s.rest = gap ++ cs ∧ IsTrivia cs gap ∧
    (cs = [] ∧ s.next = (Token.eof (s.past gap cs).position, s.past gap cs) ∨
      ∃ lexeme rest kind, Lexeme.next? cs = some (lexeme, rest) ∧ lexeme.kind = some kind ∧
        s.next = (⟨kind, String.ofList lexeme.text,
          ⟨(s.past gap cs).position, (s.past (gap ++ lexeme.text) rest).position⟩⟩,
          s.past (gap ++ lexeme.text) rest)) := by
  fun_induction next s with
  | case1 s hnone =>
    have hrest := Lexeme.next?_eq_none_iff.1 hnone
    refine ⟨[], s.rest, rfl, .nil, .inl ⟨hrest, ?_⟩⟩
    rw [past_nil]
  | case2 s lexeme rest hnext after kind hkind =>
    refine ⟨[], s.rest, rfl, .nil, .inr ⟨lexeme, rest, kind, hnext, hkind, ?_⟩⟩
    rw [past_nil]
    rfl
  | case3 s lexeme rest hnext after hkind ih =>
    obtain ⟨gap, cs, hrest, hgap, hcases⟩ := ih
    have hpast (text left : List Char) :
        after.past text left = s.past (lexeme.text ++ text) left := past_past s _ _ _ _
    have hrest' : rest = gap ++ cs := hrest
    rw [hrest'] at hnext
    refine ⟨lexeme.text ++ gap, cs, ?_, Lexeme.isTrivia_append hnext hkind hgap, ?_⟩
    · rw [Lexeme.next?_append hnext, List.append_assoc]
    · simp only [hpast, List.append_assoc] at hcases ⊢
      exact hcases

/-- Whatever the scanner does, it takes a beginning of the text and counts its bytes. -/
theorem exists_next_eq_past (s : Scanner) :
    ∃ taken, s.rest = taken ++ s.next.2.rest ∧ s.next.2 = s.past taken s.next.2.rest := by
  obtain ⟨gap, cs, hrest, -, ⟨-, hnext⟩ | ⟨lexeme, rest, kind, hlexeme, -, hnext⟩⟩ := s.exists_gap_next
  · rw [hnext]
    exact ⟨gap, hrest, rfl⟩
  · rw [hnext]
    refine ⟨gap ++ lexeme.text, ?_, rfl⟩
    rw [hrest, Lexeme.next?_append hlexeme, List.append_assoc]
    rfl

end Scanner

namespace Lexer

variable {l : Lexer} {rest : List Char}

/-- The scanner on the text that a lexer has not read yet. -/
def scanner (l : Lexer) (rest : List Char) : Scanner := ⟨rest, l.offset, l.file⟩

/-- The lexer where this scanner stands behind its next token. -/
def passed (l : Lexer) (rest : List Char) : Lexer :=
  { l with offset := (l.scanner rest).next.2.offset }

theorem scanner_passed (l : Lexer) (rest : List Char) :
    (l.passed rest).scanner (l.scanner rest).next.2.rest = (l.scanner rest).next.2 := by
  obtain ⟨taken, -, hpast⟩ := (l.scanner rest).exists_next_eq_past
  have hfile : l.file = (l.scanner rest).next.2.file := by
    rw [hpast]
    rfl
  rw [scanner, passed, hfile]

/-- A lexer to which nothing was pushed, on a place between two characters, gives the token that a
scanner gives there, and comes to a place between two characters again. -/
theorem next_eq_ok (hpending : l.pending = []) (hrest : l.remainder = .ok rest) :
    l.next = .ok ((l.scanner rest).next.1, l.passed rest) ∧
      (l.passed rest).remainder = .ok (l.scanner rest).next.2.rest := by
  refine ⟨(next_of_pending_nil hpending).trans (read_of_remainder hrest), ?_⟩
  obtain ⟨before, hsource, hbefore⟩ := Text.exists_of_dropBytes hrest
  obtain ⟨taken, htaken, hpast⟩ := (l.scanner rest).exists_next_eq_past
  have hsplit : l.source = (before ++ taken) ++ (l.scanner rest).next.2.rest := by
    rw [hsource, List.append_assoc, ← htaken]
    rfl
  have hoffset : (l.scanner rest).next.2.offset = Text.byteLength (before ++ taken) := by
    rw [hpast, Text.byteLength_append, hbefore]
    rfl
  change Text.dropBytes l.source (l.scanner rest).next.2.offset = _
  rw [hoffset, hsplit]
  exact Text.dropBytes_byteLength_append _ _

/-- A token that is read is a lexeme of the text, behind the trivia that were passed over. -/
theorem exists_lexeme_of_next {l' : Lexer} {t : Token} (hpending : l.pending = [])
    (h : l.next = .ok (t, l')) (ht : t.kind ≠ .eof) :
    ∃ gap behind, l.remainder = .ok (gap ++ (t.text.toList ++ behind)) ∧
      l'.remainder = .ok behind ∧ IsTrivia (t.text.toList ++ behind) gap ∧
      Lexeme.next? (t.text.toList ++ behind) = some (⟨some t.kind, t.text.toList⟩, behind) := by
  cases hrest : l.remainder with
  | error fault =>
    rw [next_of_pending_nil hpending, read, hrest] at h
    cases fault with
    | insideCharacter => cases h
    | pastEnd =>
      cases h
      exact absurd rfl ht
  | ok rest =>
    obtain ⟨hnext, hremainder⟩ := next_eq_ok hpending hrest
    rw [hnext] at h
    cases h
    obtain ⟨gap, cs, hsplit, hgap, ⟨-, heof⟩ | ⟨lexeme, behind, kind, hlexeme, hkind, htoken⟩⟩ :=
      (l.scanner rest).exists_gap_next
    · rw [heof] at ht
      exact absurd rfl ht
    · rw [htoken] at hremainder ⊢
      obtain rfl := Lexeme.next?_append hlexeme
      obtain ⟨kind', text⟩ := lexeme
      obtain rfl : kind' = some kind := hkind
      refine ⟨gap, behind, ?_, hremainder, ?_, ?_⟩ <;> simp only [String.toList_ofList]
      · exact congrArg Except.ok hsplit
      · exact hgap
      · exact hlexeme

/-- Ordered choice is longest match. Wherever a lexeme begins, the first rule that applies takes the
longest beginning of the text that belongs to any class; and every token that a lexer reads, from
whatever offset, is such a lexeme behind some trivia. -/
theorem next_isLongest :
    (∀ (cs rest : List Char) (lexeme : Lexeme), Lexeme.next? cs = some (lexeme, rest) →
      cs = lexeme.text ++ rest ∧ lexeme.IsLongest rest) ∧
    ∀ (l l' : Lexer) (t : Token), l.pending = [] → l.next = .ok (t, l') → t.kind ≠ .eof →
      ∃ gap behind, l.remainder = .ok (gap ++ (t.text.toList ++ behind)) ∧
        l'.remainder = .ok behind ∧ IsTrivia (t.text.toList ++ behind) gap ∧
        Lexeme.IsLongest ⟨some t.kind, t.text.toList⟩ behind := by
  refine ⟨fun cs rest lexeme h => ⟨Lexeme.next?_append h, Lexeme.isLongest_of_next? h⟩, ?_⟩
  intro l l' t hpending h ht
  obtain ⟨gap, behind, hremainder, hremainder', hgap, hlexeme⟩ :=
    exists_lexeme_of_next hpending h ht
  exact ⟨gap, behind, hremainder, hremainder', hgap, Lexeme.isLongest_of_next? hlexeme⟩

/-- In `  letters===1` the word is read whole, and the operator behind it is `==`. -/
theorem next_isLongest_letters :
    (ofString "  letters===1" "shell").pending = [] ∧
    (ofString "  letters===1" "shell").next =
      .ok (⟨.identifier, "letters", ⟨⟨2, "shell"⟩, ⟨9, "shell"⟩⟩⟩,
        { ofString "  letters===1" "shell" with offset := 9 }) ∧
    ∃ gap behind,
      (ofString "  letters===1" "shell").remainder = .ok (gap ++ ("letters".toList ++ behind)) ∧
        remainder { ofString "  letters===1" "shell" with offset := 9 } = .ok behind ∧
        IsTrivia ("letters".toList ++ behind) gap ∧
        Lexeme.IsLongest ⟨some .identifier, "letters".toList⟩ behind := by
  have hnext : (ofString "  letters===1" "shell").next =
      .ok (⟨.identifier, "letters", ⟨⟨2, "shell"⟩, ⟨9, "shell"⟩⟩⟩,
        { ofString "  letters===1" "shell" with offset := 9 }) := by
    have hscanner : ((ofString "  letters===1" "shell").scanner "  letters===1".toList).next =
        (⟨.identifier, "letters", ⟨⟨2, "shell"⟩, ⟨9, "shell"⟩⟩⟩, ⟨"===1".toList, 9, "shell"⟩) := by
      decide +kernel
    have hrest : (ofString "  letters===1" "shell").remainder = .ok "  letters===1".toList :=
      Text.dropBytes_zero _
    rw [(next_eq_ok rfl hrest).1, passed, hscanner]
  exact ⟨rfl, hnext, next_isLongest.2 _ _ _ rfl hnext (by decide)⟩

end Lexer

end MonkeyFrontEnd
