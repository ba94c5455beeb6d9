import MonkeyFrontEnd.Proofs.Layout
import MonkeyFrontEnd.Proofs.Tokens

/-!
Texts put together from pieces. Where a text of a class stands and the next character cannot go on with
it, that text is read as one lexeme, whatever follows (`Lexeme.next?_of_accepts`). So a text made of
tokens, with blanks wherever two of them would run together, is read as these tokens (`readBare`).
-/

namespace MonkeyFrontEnd

open TokenSource (drain)

namespace Rule

variable {r r' : Rule} {text more : List Char}

/-- The character may go on with a text of the class, by itself or as the beginning of what makes a
text of another class. -/
def continues : Rule → Char → Bool
  | word, c => isWordPart c
  | number, c => isWordPart c
  | blanks, c => Text.isBlank c
  | comment, c => c ≠ '\n'
  | mark own _, c => ordered.any fun r => (own ++ [c]).isPrefixOf r.opening

theorem part_of_isRun_append {start part : Char → Bool} {c : Char}
    (h : isRun start part text = true) (h' : isRun start part (text ++ c :: more) = true) :
    part c = true := by
  cases text with
  | nil => simp [isRun] at h
  | cons d text =>
    simp only [List.cons_append, isRun, Bool.and_eq_true, List.all_append, List.all_cons] at h'
    exact h'.2.2.1

theorem continues_of_accepts_append {c : Char} (h : r.accepts text = true)
    (h' : r.accepts (text ++ c :: more) = true) : r.continues c = true := by
  cases r with
  | word => exact part_of_isRun_append h h'
  | number => exact part_of_isRun_append h h'
  | blanks => exact part_of_isRun_append h h'
  | comment =>
    obtain ⟨body, rfl, -⟩ := accepts_comment_iff.1 h
    obtain ⟨body', htext, hbody'⟩ := accepts_comment_iff.1 h'
    obtain rfl : body ++ c :: more = body' := by simpa using htext
    simp only [List.mem_append, List.mem_cons, not_or] at hbody'
    simpa [continues] using Ne.symm hbody'.2.1
  | mark own kind =>
    obtain rfl : text = own := by simpa [accepts] using h
    simp [accepts] at h'

/-- Of two rules one yields to the other, and no two marks have the same text. -/
theorem yields_or : ∀ r ∈ ordered, ∀ r' ∈ ordered, r' = r ∨
    (r'.yieldsTo r = true ∨ r.yieldsTo r' = true) ∧ (r'.opening = r.opening → r.opening = []) := by
  decide +kernel

/-- A text of a class, if what stands behind it cannot go on with it, begins no longer text of any
class and is in no second one. -/
theorem eq_of_accepts_append (hr : r ∈ ordered) (hr' : r' ∈ ordered) (h : r.accepts text = true)
    (h' : r'.accepts (text ++ more) = true)
    (hmore : ∀ c, more.head? = some c → r.continues c = false) : r' = r ∧ more = [] := by
  obtain ⟨c, tail, rfl⟩ :=
    List.exists_cons_of_ne_nil (ne_nil_of_accepts (isSound_of_mem_ordered r hr) h)
  have hleads := leads_of_accepts h
  have hleads' : r'.leads c = true := leads_of_accepts h'
  rcases yields_or r hr r' hr' with rfl | ⟨hyields | hyields, hdistinct⟩
  · refine ⟨rfl, ?_⟩
    cases more with
    | nil => rfl
    | cons d more =>
      have hcontinues := continues_of_accepts_append h h'
      rw [hmore d rfl] at hcontinues
      cases hcontinues
  · -- The second rule is a mark that the first text begins with, so both are that mark.
    obtain ⟨own, kind, rfl, hown⟩ := exists_mark_of_yieldsTo hyields hleads hleads'
    obtain rfl : c :: tail ++ more = own := by simpa [accepts] using h'
    have hopening := opening_prefix_of_accepts h
    have hback : r.opening <+: c :: tail ++ more := hopening.trans (List.prefix_append ..)
    have hsame := List.IsPrefix.eq_of_length_le hown hback.length_le
    rw [hdistinct hsame] at hsame
    cases hsame
  · -- The first rule is a mark; the second text begins with it and goes on.
    obtain ⟨own, kind, rfl, hown⟩ := exists_mark_of_yieldsTo hyields hleads' hleads
    obtain rfl : c :: tail = own := by simpa [accepts] using h
    obtain ⟨rest, hrest⟩ := hown
    have hopening := opening_prefix_of_accepts h'
    rw [← hrest, List.prefix_append_right_inj] at hopening
    cases rest with
    | nil =>
      have hnil := hdistinct (by rw [← hrest, List.append_nil]; rfl)
      cases hnil
    | cons d rest =>
      have hhead : more.head? = some d := by
        obtain ⟨behind, rfl⟩ := hopening
        rfl
      have hcontinues : (mark (c :: tail) kind).continues d = true := by
        refine List.any_eq_true.2 ⟨r', hr', List.isPrefixOf_iff_prefix.2 ⟨rest, ?_⟩⟩
        rw [← hrest, List.append_assoc]
        rfl
      rw [hmore d hhead] at hcontinues
      cases hcontinues

end Rule

/-- A text of a class is read as one lexeme of that class, if what follows cannot go on with it. -/
theorem Lexeme.next?_of_accepts {r : Rule} {text rest : List Char} (hr : r ∈ Rule.ordered)
    (h : r.accepts text = true) (hrest : ∀ c, rest.head? = some c → r.continues c = false) :
    next? (text ++ rest) = some (⟨r.kindOf text, text⟩, rest) := by
  have hstart : text <+: text ++ rest := List.prefix_append ..
  cases hnext : next? (text ++ rest) with
  | none =>
    have hnil := next?_eq_none_iff.1 hnext
    rw [List.append_eq_nil_iff] at hnil
    exact absurd hnil.1 (Rule.ne_nil_of_accepts (Rule.isSound_of_mem_ordered r hr) h)
  | some found =>
    obtain ⟨⟨kind, taken⟩, behind⟩ := found
    rcases next?_cases hnext with ⟨hrules, -⟩ | ⟨hnone, -⟩
    · obtain ⟨r', hr', htake, hkind⟩ := exists_of_ofRules hrules
      obtain ⟨more, rfl⟩ := prefix_of_next? hnext ⟨r, hr, h⟩ hstart
      have happend := next?_append hnext
      simp only [List.append_assoc, List.append_cancel_left_eq] at happend
      obtain ⟨rfl, rfl⟩ := Rule.eq_of_accepts_append hr hr' h (Rule.accepts_of_take htake)
        fun c hc => hrest c (by rw [happend, List.head?_append, hc, Option.some_or])
      simp only [List.append_nil] at hkind ⊢
      rw [List.nil_append] at happend
      rw [hkind, happend]
    · exact absurd hstart (not_prefix_of_forall_take hnone ⟨r, hr, h⟩)

/-! ## Tokens -/

/-- The text of the token is in a class whose texts make tokens of its kind. -/
def Token.IsSpelled (t : Token) : Prop :=
  ∃ r ∈ Rule.ordered, r.accepts t.text.toList = true ∧ r.kindOf t.text.toList = some t.kind

instance (t : Token) : Decidable t.IsSpelled :=
  inferInstanceAs (Decidable (∃ r ∈ Rule.ordered,
    r.accepts t.text.toList = true ∧ r.kindOf t.text.toList = some t.kind))

/-- Directly behind a token of this kind the character may change what is read. -/
def Kind.glues (k : Kind) (c : Char) : Bool :=
  if k.isWordLike then isWordPart c
  else Rule.ordered.any fun r => (k.name.toList ++ [c]).isPrefixOf r.opening

theorem Rule.continues_eq_glues {r : Rule} {text : List Char} {k : Kind} (hr : r ∈ ordered)
    (hkind : r.kindOf text = some k) (c : Char) : r.continues c = k.glues c := by
  cases r with
  | word =>
    obtain rfl : Kind.ofWord _ = k := by simpa [kindOf] using hkind
    rw [Kind.glues, if_pos (Kind.isWordLike_ofWord _), continues]
  | number =>
    obtain rfl : .integer = k := by simpa [kindOf] using hkind
    rfl
  | blanks => simp [kindOf] at hkind
  | comment => simp [kindOf] at hkind
  | mark own kind =>
    obtain rfl : kind = k := by simpa [kindOf] using hkind
    have hnamed := isNamed_of_mem_ordered _ hr
    simp only [isNamed, Bool.and_eq_true, Bool.not_eq_true', decide_eq_true_eq] at hnamed
    rw [Kind.glues, if_neg (by simp [hnamed.1.2]), continues, hnamed.1.1]

/-- Marks are made longer by two characters only. -/
theorem Kind.eq_of_glues {k : Kind} {c : Char} (hk : k.isWordLike = false) (h : k.glues c = true) :
    c = '=' ∨ c = '/' := by
  have hsecond : ∀ r ∈ Rule.ordered, r.opening.tail.all (fun d => d = '=' || d = '/') = true := by
    decide
  have hname : k.name.toList ≠ [] := by cases k <;> decide
  rw [glues, hk, if_neg (by decide)] at h
  obtain ⟨r, hr, hprefix⟩ := List.any_eq_true.1 h
  obtain ⟨d, name, hd⟩ := List.exists_cons_of_ne_nil hname
  obtain ⟨rest, hrest⟩ := List.isPrefixOf_iff_prefix.1 hprefix
  have hmem : c ∈ r.opening.tail := by
    rw [← hrest, hd]
    simp
  simpa using List.all_eq_true.1 (hsecond r hr) c hmem

/-- A blank separates, and so do brackets and semicolons. -/
theorem Kind.not_glues_separator (k : Kind) :
    ∀ c ∈ [' ', '(', ')', ';'], k.glues c = false := by
  have hall : [' ', '(', ')', ';'].all (fun c => !k.glues c) = true := by cases k <;> decide
  simpa using hall

/-- Behind brackets, semicolons and signs everything but a longer mark may stand. -/
theorem Kind.not_glues_of_isWordPart {k : Kind} (hk : k.isWordLike = false) {c : Char}
    (hc : isWordPart c = true) : k.glues c = false := by
  cases h : k.glues c with
  | false => rfl
  | true => rcases eq_of_glues hk h with rfl | rfl <;> cases hc

theorem Kind.not_glues_bracket {k : Kind} (hk : k ∈ [.openParen, .closeParen, .semicolon])
    (c : Char) : k.glues c = false := by
  have hmarks : ∀ k ∈ [Kind.openParen, .closeParen, .semicolon],
      k.isWordLike = false ∧ k.glues '=' = false ∧ k.glues '/' = false := by decide
  obtain ⟨hlike, hequals, hslash⟩ := hmarks k hk
  cases h : k.glues c with
  | false => rfl
  | true =>
    rcases eq_of_glues hlike h with rfl | rfl
    · rw [← h, hequals]
    · rw [← h, hslash]

/-- The text of a token does not begin with a blank, and that of a word or a number begins as words do. -/
theorem Token.IsSpelled.exists_eq_cons {t : Token} (h : t.IsSpelled) :
    ∃ c cs, t.text.toList = c :: cs ∧ Text.isBlank c = false ∧
      (t.kind.isWordLike = true → isWordPart c = true) := by
  obtain ⟨r, hr, haccepts, hkind⟩ := h
  obtain ⟨c, cs, htext⟩ :=
    List.exists_cons_of_ne_nil (Rule.ne_nil_of_accepts (Rule.isSound_of_mem_ordered r hr) haccepts)
  have hleads := Rule.leads_of_accepts (htext ▸ haccepts)
  have hword (hc : isWordPart c = true) : Text.isBlank c = false ∧
      (t.kind.isWordLike = true → isWordPart c = true) :=
    ⟨eq_false_of_ne_true (not_isBlank_of_isWordPart hc), fun _ => hc⟩
  refine ⟨c, cs, htext, ?_⟩
  cases r with
  | word => exact hword (isWordPart_of_isWordStart hleads)
  | number => exact hword (isWordPart_of_isDigit hleads)
  | blanks => cases hkind
  | comment => cases hkind
  | mark own kind =>
    have hmarks : ∀ r ∈ Rule.ordered, r.opening.head?.all (!Text.isBlank ·) = true := by decide
    have hhead : own.head? = some c := of_decide_eq_true hleads
    have hblank := hmarks _ hr
    simp only [Rule.opening, hhead, Option.all_some, Bool.not_eq_true'] at hblank
    refine ⟨hblank, fun hlike => ?_⟩
    rcases Rule.eq_word_or_eq_number hr hkind hlike with h | h <;> cases h

/-- The text ends, or goes on with a blank, a parenthesis or a semicolon. -/
def IsApart (rest : List Char) : Prop := ∀ c ∈ rest.head?, c ∈ [' ', '(', ')', ';']

theorem isApart_nil : IsApart [] := by simp [IsApart]

theorem isApart_cons {c : Char} {rest : List Char} (hc : c ∈ [' ', '(', ')', ';']) :
    IsApart (c :: rest) := by
  simpa [IsApart] using hc

/-! ## Reading -/

/-- The tokens of a text, without their places. -/
def readBare (cs : List Char) : List Token :=
  match _ : Lexeme.next? cs with
  | none => []
  | some (lexeme, rest) =>
    match lexeme.kind with
    | some kind => .unplaced kind (String.ofList lexeme.text) :: readBare rest
    | none => readBare rest
termination_by cs.length
decreasing_by all_goals exact Lexeme.next?_length_lt (by assumption)

section

variable {cs rest : List Char} {lexeme : Lexeme}

@[simp] theorem readBare_nil : readBare [] = [] := by
  rw [readBare]
  split
  · rfl
  · next heq => cases heq

theorem readBare_of_kind {kind : Kind} (h : Lexeme.next? cs = some (lexeme, rest))
    (hkind : lexeme.kind = some kind) :
    readBare cs = .unplaced kind (String.ofList lexeme.text) :: readBare rest := by
  rw [readBare]
  split
  · next heq => rw [h] at heq; cases heq
  · next heq =>
    rw [h] at heq
    cases heq
    simp [hkind]

theorem readBare_of_skipped (h : Lexeme.next? cs = some (lexeme, rest))
    (hkind : lexeme.kind = none) : readBare cs = readBare rest := by
  rw [readBare]
  split
  · next heq => rw [h] at heq; cases heq
  · next heq =>
    rw [h] at heq
    cases heq
    simp [hkind]

/-- A token is read in front of what cannot go on with it. -/
theorem readBare_token {t : Token} (ht : t.IsSpelled)
    (hrest : ∀ c, rest.head? = some c → t.kind.glues c = false) :
    readBare (t.text.toList ++ rest) = t.bare :: readBare rest := by
  obtain ⟨r, hr, haccepts, hkind⟩ := ht
  have hnext := Lexeme.next?_of_accepts hr haccepts fun c hc =>
    (Rule.continues_eq_glues hr hkind c).trans (hrest c hc)
  rw [readBare_of_kind hnext hkind, String.ofList_toList]
  rfl

/-- Every token ends in front of a blank, a parenthesis or a semicolon. -/
theorem readBare_apart {t : Token} (ht : t.IsSpelled) (hrest : IsApart rest) :
    readBare (t.text.toList ++ rest) = t.bare :: readBare rest :=
  readBare_token ht fun c hc => t.kind.not_glues_separator c (hrest c hc)

/-- Parentheses and semicolons are read in front of anything. -/
theorem readBare_bracket {t : Token} (ht : t.IsSpelled)
    (hk : t.kind ∈ [.openParen, .closeParen, .semicolon]) :
    readBare (t.text.toList ++ rest) = t.bare :: readBare rest :=
  readBare_token ht fun c _ => Kind.not_glues_bracket hk c

theorem readBare_openParen :
    readBare ('(' :: rest) = .unplaced .openParen "(" :: readBare rest :=
  readBare_bracket (t := .unplaced .openParen "(") (by decide) (by decide)

theorem readBare_closeParen :
    readBare (')' :: rest) = .unplaced .closeParen ")" :: readBare rest :=
  readBare_bracket (t := .unplaced .closeParen ")") (by decide) (by decide)

theorem readBare_semicolon :
    readBare (';' :: rest) = .unplaced .semicolon ";" :: readBare rest :=
  readBare_bracket (t := .unplaced .semicolon ";") (by decide) (by decide)

/-- A single blank in front of something else is passed over. -/
theorem readBare_blank (hrest : ∀ c, rest.head? = some c → Text.isBlank c = false) :
    readBare (' ' :: rest) = readBare rest := by
  have hnext : Lexeme.next? ([' '] ++ rest) = some (⟨none, [' ']⟩, rest) :=
    Lexeme.next?_of_accepts (r := .blanks) (by decide) (by decide) hrest
  exact readBare_of_skipped hnext rfl

theorem readBare_blank_apart {t : Token} (ht : t.IsSpelled) (hrest : IsApart rest) :
    readBare (' ' :: (t.text.toList ++ rest)) = t.bare :: readBare rest := by
  obtain ⟨c, cs, htext, hblank, -⟩ := ht.exists_eq_cons
  rw [readBare_blank (by rw [htext]; simpa using hblank), readBare_apart ht hrest]

end

namespace Scanner

section

variable {s : Scanner} {lexeme : Lexeme} {rest : List Char}

/-- A lexeme without a kind makes no token. -/
theorem drain_of_skipped (h : Lexeme.next? s.rest = some (lexeme, rest)) (hkind : lexeme.kind = none) :
    drain s = drain (s.past lexeme.text rest) := by
  have hread : TokenSource.next s = TokenSource.next (s.past lexeme.text rest) :=
    next_of_skipped h hkind
  rw [drain, drain.eq_def (s.past lexeme.text rest), hread]

/-- A lexeme with a kind makes the first token. -/
theorem drain_of_kind {kind : Kind} (h : Lexeme.next? s.rest = some (lexeme, rest))
    (hkind : lexeme.kind = some kind) :
    drain s = (⟨kind, String.ofList lexeme.text,
        ⟨s.position, (s.past lexeme.text rest).position⟩⟩ :: (drain (s.past lexeme.text rest)).1,
      (drain (s.past lexeme.text rest)).2) := by
  have hread : TokenSource.next s = _ := next_of_kind h hkind
  have hne : (TokenSource.next s).1.kind ≠ .eof := by
    rw [hread]
    rintro rfl
    exact Lexeme.next?_kind_ne_eof h hkind
  rw [TokenSource.drain_of_ne_eof hne, hread]

/-- At the end of the text there are no tokens. -/
theorem drain_of_nil (h : s.rest = []) : drain s = ([], Token.eof s.position) := by
  have hread : TokenSource.next s = _ := next_of_none (Lexeme.next?_eq_none_iff.2 h)
  rw [TokenSource.drain_of_eof (by rw [hread]; rfl), hread]

end

/-- What a scanner gives depends on the text that is left, but for the places. -/
theorem map_bare_drain (s : Scanner) : (drain s).1.map Token.bare = readBare s.rest := by
  induction hlength : s.rest.length using Nat.strongRecOn generalizing s with
  | ind n ih =>
    subst hlength
    cases hnext : Lexeme.next? s.rest with
    | none =>
      have hrest := Lexeme.next?_eq_none_iff.1 hnext
      rw [drain_of_nil hrest, hrest, readBare_nil]
      rfl
    | some found =>
      obtain ⟨lexeme, rest⟩ := found
      have hlater := ih _ (Lexeme.next?_length_lt hnext) (s.past lexeme.text rest) rfl
      cases hkind : lexeme.kind with
      | some kind =>
        rw [drain_of_kind hnext hkind, readBare_of_kind hnext hkind, List.map_cons, hlater]
        rfl
      | none =>
        rw [drain_of_skipped hnext hkind, readBare_of_skipped hnext hkind, hlater]
        rfl

/-- Behind its tokens a scanner gives an end of the input without a text. -/
theorem bare_drain_last (s : Scanner) : (drain s).2.bare = Token.eof Position.null := by
  rw [drain_last]
  rfl

/-- Every token that a scanner gives was taken as a lexeme. -/
theorem exists_lexeme_of_mem_drain {s : Scanner} {t : Token} (ht : t ∈ (drain s).1) :
    ∃ cs rest, Lexeme.next? cs = some (⟨some t.kind, t.text.toList⟩, rest) := by
  rw [← map_fst_placed] at ht
  obtain ⟨entry, hentry, rfl⟩ := List.mem_map.1 ht
  exact s.isPlaced_placed.exists_lexeme entry hentry

/-- What a scanner gives is spelled as its kind is, unless it is illegal. -/
theorem isSpelled_of_mem_drain {s : Scanner} {t : Token} (ht : t ∈ (drain s).1)
    (hkind : t.kind ≠ .illegal) : t.IsSpelled := by
  obtain ⟨cs, rest, hlexeme⟩ := exists_lexeme_of_mem_drain ht
  exact Lexeme.exists_rule_of_next? hlexeme rfl hkind

end Scanner

end MonkeyFrontEnd
