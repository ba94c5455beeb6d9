import MonkeyFrontEnd.Proofs.LexemeClasses

/-!
Longest matches. A lexeme is made by the first rule that applies, and it is the longest beginning of
the text that belongs to any class of lexemes, in front of whatever text (`Lexeme.isLongest_of_next?`).
What may not stand directly behind a token follows.
-/

namespace MonkeyFrontEnd

/-- The text belongs to some class of lexemes. -/
def IsLexeme (text : List Char) : Prop := ∃ r ∈ Rule.ordered, r.accepts text = true

instance (text : List Char) : Decidable (IsLexeme text) :=
  inferInstanceAs (Decidable (∃ r ∈ Rule.ordered, r.accepts text = true))

namespace Kind

/-- The kinds of the reserved words. -/
def isReserved : Kind → Bool
  | functionWord | letWord | trueWord | falseWord | ifWord | elseWord | returnWord => true
  | _ => false

/-- The kinds of words and numbers, whose texts are of letters, digits and underscores. -/
def isWordLike : Kind → Bool
  | identifier | integer => true
  | k => k.isReserved

theorem isReserved_of_ofReserved? {word : String} {k : Kind} (h : ofReserved? word = some k) :
    k.isReserved = true := by
  unfold ofReserved? at h
  split at h <;> cases h <;> rfl

theorem isWordLike_ofWord (word : String) : (ofWord word).isWordLike = true := by
  unfold ofWord ofReserved?
  split <;> rfl

end Kind

namespace Rule

variable {r : Rule} {text cs : List Char} {k : Kind}

/-- A mark is written with the name of its kind, which is no kind of words. -/
def isNamed : Rule → Bool
  | mark own kind => own = kind.name.toList && !kind.isWordLike && kind ≠ .illegal
  | _ => true

theorem isNamed_of_mem_ordered : ∀ r ∈ ordered, r.isNamed = true := by decide

/-- Words and numbers are made by the rules for them. -/
theorem eq_word_or_eq_number (hr : r ∈ ordered) (hkind : r.kindOf text = some k)
    (hk : k.isWordLike = true) : r = word ∨ r = number := by
  cases r with
  | word => exact .inl rfl
  | number => exact .inr rfl
  | blanks => simp [kindOf] at hkind
  | comment => simp [kindOf] at hkind
  | mark own kind =>
    obtain rfl : kind = k := by simpa [kindOf] using hkind
    have hnamed := isNamed_of_mem_ordered _ hr
    simp [isNamed, hk] at hnamed

/-- All other tokens are written with the name of their kind. -/
theorem eq_name_of_accepts (hr : r ∈ ordered) (haccepts : r.accepts text = true)
    (hkind : r.kindOf text = some k) (hk : k.isWordLike = false) : text = k.name.toList := by
  cases r with
  | word =>
    obtain rfl : Kind.ofWord _ = k := by simpa [kindOf] using hkind
    simp [Kind.isWordLike_ofWord] at hk
  | number =>
    obtain rfl : .integer = k := by simpa [kindOf] using hkind
    simp [Kind.isWordLike] at hk
  | blanks => simp [kindOf] at hkind
  | comment => simp [kindOf] at hkind
  | mark own kind =>
    obtain rfl : kind = k := by simpa [kindOf] using hkind
    obtain rfl : text = own := by simpa [accepts] using haccepts
    have hnamed := isNamed_of_mem_ordered _ hr
    simp only [isNamed, Bool.and_eq_true, decide_eq_true_eq] at hnamed
    exact hnamed.1.1

theorem kindOf_ne_illegal (hr : r ∈ ordered) : r.kindOf text ≠ some .illegal := by
  intro hkind
  cases r with
  | word =>
    have hword : Kind.ofWord (String.ofList text) = .illegal := by simpa [kindOf] using hkind
    have hlike := Kind.isWordLike_ofWord (String.ofList text)
    simp [hword, Kind.isWordLike, Kind.isReserved] at hlike
  | number => simp [kindOf] at hkind
  | blanks => simp [kindOf] at hkind
  | comment => simp [kindOf] at hkind
  | mark own kind =>
    obtain rfl : kind = .illegal := by simpa [kindOf] using hkind
    have hnamed := isNamed_of_mem_ordered _ hr
    simp [isNamed] at hnamed

end Rule

namespace Lexeme

variable {rules : List Rule} {cs rest text : List Char} {lexeme : Lexeme}

/-- The first rule that applies takes all texts that begin the remaining one and belong to any of the
rules. -/
theorem prefix_of_ofRules (hrules : ∀ r ∈ rules, r ∈ Rule.ordered)
    (hyields : rules.Pairwise fun earlier later => later.yieldsTo earlier = true)
    (h : ofRules rules cs = some (lexeme, rest)) {r : Rule} (hr : r ∈ rules)
    (haccepts : r.accepts text = true) (htext : text <+: cs) : text <+: lexeme.text := by
  induction rules with
  | nil => simp at hr
  | cons first rules ih =>
    rw [ofRules, List.findSome?_cons] at h
    obtain ⟨hfirst, hrules⟩ := List.forall_mem_cons.1 hrules
    cases htake : first.take cs with
    | none =>
      rw [htake] at h
      rcases List.mem_cons.1 hr with rfl | hr
      · obtain ⟨taken, rest', htaken, -⟩ := Rule.exists_take_of_accepts haccepts htext
        rw [htaken] at htake
        cases htake
      · exact ih hrules hyields.of_cons h hr
    | some found =>
      obtain ⟨taken, behind⟩ := found
      rw [htake] at h
      cases h
      rcases List.mem_cons.1 hr with rfl | hr
      · obtain ⟨taken', rest', htaken, hstart⟩ := Rule.exists_take_of_accepts haccepts htext
        rw [htaken] at htake
        cases htake
        exact hstart
      · have hbegin : taken <+: cs := ⟨rest, (Rule.take_append hfirst htake).1.symm⟩
        exact Rule.prefix_of_yieldsTo (Rule.isSound_of_mem_ordered first hfirst)
          ((List.pairwise_cons.1 hyields).1 r hr) (Rule.accepts_of_take htake) hbegin haccepts htext

/-- What the rules make is made by the first one that applies. -/
theorem exists_first_of_ofRules (h : ofRules rules cs = some (lexeme, rest)) :
    ∃ before r after, rules = before ++ r :: after ∧ (∀ q ∈ before, q.take cs = none) ∧
      r.take cs = some (lexeme.text, rest) ∧ lexeme.kind = r.kindOf lexeme.text := by
  obtain ⟨before, r, after, hrules, htake, hnone⟩ := List.findSome?_eq_some_iff.1 h
  simp only [Option.map_eq_some_iff, Prod.mk.injEq, Prod.exists] at htake
  obtain ⟨text, tail, htake, rfl, rfl⟩ := htake
  exact ⟨before, r, after, hrules, fun q hq => by simpa using hnone q hq, htake, rfl⟩

/-- A lexeme is made by the rules, or it is one illegal character to which none of them applies. -/
theorem next?_cases (h : next? cs = some (lexeme, rest)) :
    ofRules Rule.ordered cs = some (lexeme, rest) ∧ lexeme.kind ≠ some .illegal ∨
      (∀ r ∈ Rule.ordered, r.take cs = none) ∧ lexeme.kind = some .illegal ∧
        ∃ c, lexeme.text = [c] := by
  cases cs with
  | nil => simp [next?] at h
  | cons c cs =>
    simp only [next?, Option.some.injEq] at h
    cases hrules : ofRules Rule.ordered (c :: cs) with
    | none =>
      rw [hrules] at h
      cases h
      refine .inr ⟨fun r hr => ?_, rfl, c, rfl⟩
      simpa using List.findSome?_eq_none_iff.1 hrules r hr
    | some found =>
      rw [hrules] at h
      cases h
      obtain ⟨r, hr, -, hkind⟩ := exists_of_ofRules hrules
      exact .inl ⟨rfl, by rw [hkind]; exact Rule.kindOf_ne_illegal hr⟩

/-- What a lexeme is in front of the rest of the text. -/
structure IsLongest (lexeme : Lexeme) (rest : List Char) : Prop where
  /-- Unless the lexeme is illegal, the first rule that applies has made it and decides its kind. -/
  picked : lexeme.kind ≠ some .illegal → ∃ before r after, Rule.ordered = before ++ r :: after ∧
    (∀ q ∈ before, q.take (lexeme.text ++ rest) = none) ∧
    r.take (lexeme.text ++ rest) = some (lexeme.text, rest) ∧ lexeme.kind = r.kindOf lexeme.text
  /-- No rule that applies takes more. -/
  covers : ∀ r ∈ Rule.ordered, ∀ taken behind,
    r.take (lexeme.text ++ rest) = some (taken, behind) → taken.length ≤ lexeme.text.length
  isLexeme : lexeme.kind ≠ some .illegal → IsLexeme lexeme.text
  /-- No text of any class that begins here is longer. -/
  longest : ∀ piece, IsLexeme piece → piece <+: lexeme.text ++ rest →
    piece.length ≤ lexeme.text.length
  /-- The kind is that of a reserved word exactly if the whole lexeme is that word. -/
  reserved_iff : ∀ k, lexeme.kind = some k ∧ k.isReserved = true ↔
    Kind.ofReserved? (String.ofList lexeme.text) = some k
  /-- The lexeme is illegal exactly where no text of any class begins, -/
  illegal_iff : lexeme.kind = some .illegal ↔
    ∀ piece, IsLexeme piece → ¬ piece <+: lexeme.text ++ rest
  /-- and then it is one character. -/
  illegal_single : lexeme.kind = some .illegal → ∃ c, lexeme.text = [c]
  word_ends : ∀ k, lexeme.kind = some k → k.isWordLike = true →
    ∀ c, rest.head? = some c → isWordPart c = false
  comparison_ends : ∀ k ∈ [Kind.assign, .bang, .less, .greater], lexeme.kind = some k →
    rest.head? ≠ some '='
  slash_ends : lexeme.kind = some .slash → rest.head? ≠ some '/'

/-- A text to which no rule applies begins with none of any class. -/
theorem not_prefix_of_forall_take (h : ∀ r ∈ Rule.ordered, r.take cs = none)
    (htext : IsLexeme text) : ¬ text <+: cs := by
  intro hstart
  obtain ⟨r, hr, haccepts⟩ := htext
  obtain ⟨taken, behind, htake, -⟩ := Rule.exists_take_of_accepts haccepts hstart
  rw [h r hr] at htake
  cases htake

/-- No text of any class that begins where a lexeme begins is longer than the lexeme. -/
theorem prefix_of_next? (h : next? cs = some (lexeme, rest)) (htext : IsLexeme text)
    (hstart : text <+: cs) : text <+: lexeme.text := by
  rcases next?_cases h with ⟨hrules, -⟩ | ⟨hnone, -⟩
  · obtain ⟨r, hr, haccepts⟩ := htext
    exact prefix_of_ofRules (fun _ => id) Rule.ordered_yields hrules hr haccepts hstart
  · exact absurd hstart (not_prefix_of_forall_take hnone htext)

/-- A lexeme with one more character is in no class. -/
theorem not_isLexeme_append_head {c : Char} (h : next? cs = some (lexeme, rest))
    (hc : rest.head? = some c) : ¬ IsLexeme (lexeme.text ++ [c]) := by
  intro hlexeme
  obtain ⟨rest, rfl⟩ : ∃ tail, rest = c :: tail := by
    cases rest with
    | nil => simp at hc
    | cons d tail => exact ⟨tail, by simpa using hc⟩
  have hstart : lexeme.text ++ [c] <+: cs := by
    rw [next?_append h]
    simp
  have hle := (prefix_of_next? h hlexeme hstart).length_le
  rw [List.length_append, List.length_singleton] at hle
  omega

/-- Reserved words are words. -/
theorem accepts_of_ofReserved? {k : Kind} (h : Kind.ofReserved? (String.ofList text) = some k) :
    Rule.word.accepts text = true := by
  have hwords : ∀ word : String, Kind.ofReserved? word = some k →
      Rule.word.accepts word.toList = true := by
    intro word hword
    unfold Kind.ofReserved? at hword
    split at hword <;> first | decide | cases hword
  simpa using hwords _ h

theorem word_eq_of_split {before after : List Rule} {r : Rule}
    (hsplit : Rule.ordered = before ++ r :: after) (hnone : ∀ q ∈ before, q.take cs = none)
    (htext : text <+: cs) (haccepts : Rule.word.accepts text = true) : r = .word := by
  cases before with
  | nil => exact (List.cons.inj hsplit).1.symm
  | cons first before =>
    obtain rfl : Rule.word = first := (List.cons.inj hsplit).1
    obtain ⟨taken, behind, htake, -⟩ := Rule.exists_take_of_accepts haccepts htext
    rw [hnone _ (List.mem_cons_self ..)] at htake
    cases htake

/-- A word or a number followed by one more letter, digit or underscore is a word or a number. -/
theorem isLexeme_append_wordPart {r : Rule} {c : Char} (hr : r = .word ∨ r = .number)
    (haccepts : r.accepts text = true) (hc : isWordPart c = true) : IsLexeme (text ++ [c]) := by
  have hrun {start : Char → Bool} (h : isRun start isWordPart text = true) :
      isRun start isWordPart (text ++ [c]) = true := by
    cases text with
    | nil => simp [isRun] at h
    | cons d text =>
      simp only [isRun, Bool.and_eq_true] at h
      simp [isRun, h, hc]
  rcases hr with rfl | rfl
  · exact ⟨.word, by decide, hrun haccepts⟩
  · exact ⟨.number, by decide, hrun haccepts⟩

/-- A lexeme with a kind that is not illegal is in the class of a rule that gives this kind. -/
theorem exists_rule_of_next? {k : Kind} (h : next? cs = some (lexeme, rest))
    (hkind : lexeme.kind = some k) (hk : k ≠ .illegal) :
    ∃ r ∈ Rule.ordered, r.accepts lexeme.text = true ∧ r.kindOf lexeme.text = some k := by
  rcases next?_cases h with ⟨hrules, -⟩ | ⟨-, hillegal, -⟩
  · obtain ⟨r, hr, htake, hof⟩ := exists_of_ofRules hrules
    exact ⟨r, hr, Rule.accepts_of_take htake, hof.symm.trans hkind⟩
  · rw [hkind] at hillegal
    exact absurd (Option.some.inj hillegal) hk

/-- The kind is that of a reserved word exactly if the whole lexeme is that word. -/
theorem kind_isReserved_iff (h : next? cs = some (lexeme, rest)) (k : Kind) :
    lexeme.kind = some k ∧ k.isReserved = true ↔
      Kind.ofReserved? (String.ofList lexeme.text) = some k := by
  constructor
  · rintro ⟨hkind, hreserved⟩
    obtain ⟨r, hr, -, hof⟩ := exists_rule_of_next? h hkind (by rintro rfl; cases hreserved)
    have hlike : k.isWordLike = true := by
      cases k <;> simp_all [Kind.isWordLike, Kind.isReserved]
    rcases Rule.eq_word_or_eq_number hr hof hlike with rfl | rfl
    · simp only [Rule.kindOf, Kind.ofWord, Option.some.injEq] at hof
      cases hword : Kind.ofReserved? (String.ofList lexeme.text) with
      | some k' =>
        rw [hword, Option.getD_some] at hof
        rw [hof]
      | none =>
        rw [hword, Option.getD_none] at hof
        rw [← hof] at hreserved
        cases hreserved
    · obtain rfl : Kind.integer = k := Option.some.inj hof
      cases hreserved
  · intro hword
    refine ⟨?_, Kind.isReserved_of_ofReserved? hword⟩
    have haccepts := accepts_of_ofReserved? hword
    have hstart : lexeme.text <+: cs := ⟨rest, (next?_append h).symm⟩
    rcases next?_cases h with ⟨hrules, -⟩ | ⟨hnone, -⟩
    · obtain ⟨before, r, after, hordered, hbefore, -, hof⟩ := exists_first_of_ofRules hrules
      rw [hof, word_eq_of_split hordered hbefore hstart haccepts, Rule.kindOf, Kind.ofWord, hword,
        Option.getD_some]
    · exact absurd hstart (not_prefix_of_forall_take hnone ⟨.word, by decide, haccepts⟩)

/-- Where a lexeme of a kind that has its own text ends, no longer lexeme goes on. -/
theorem head?_ne_of_next? {k : Kind} {c : Char} (h : next? cs = some (lexeme, rest))
    (hkind : lexeme.kind = some k) (hk : k.isWordLike = false ∧ k ≠ .illegal)
    (hlonger : IsLexeme (k.name.toList ++ [c])) : rest.head? ≠ some c := by
  intro hc
  obtain ⟨r, hr, haccepts, hof⟩ := exists_rule_of_next? h hkind hk.2
  have htext := Rule.eq_name_of_accepts hr haccepts hof hk.1
  rw [← htext] at hlonger
  exact not_isLexeme_append_head h hc hlonger

/-- A lexeme is the longest one that begins where it begins. -/
theorem isLongest_of_next? (h : next? cs = some (lexeme, rest)) : lexeme.IsLongest rest := by
  obtain rfl := next?_append h
  constructor
  case picked =>
    intro hkind
    rcases next?_cases h with ⟨hrules, -⟩ | ⟨-, hillegal, -⟩
    · exact exists_first_of_ofRules hrules
    · exact absurd hillegal hkind
  case covers =>
    intro r hr taken behind htake
    have hstart : taken <+: lexeme.text ++ rest := ⟨behind, (Rule.take_append hr htake).1.symm⟩
    exact (prefix_of_next? h ⟨r, hr, Rule.accepts_of_take htake⟩ hstart).length_le
  case isLexeme =>
    intro hkind
    rcases next?_cases h with ⟨hrules, -⟩ | ⟨-, hillegal, -⟩
    · obtain ⟨r, hr, htake, -⟩ := exists_of_ofRules hrules
      exact ⟨r, hr, Rule.accepts_of_take htake⟩
    · exact absurd hillegal hkind
  case longest => exact fun piece hpiece hstart => (prefix_of_next? h hpiece hstart).length_le
  case reserved_iff => exact kind_isReserved_iff h
  case illegal_iff =>
    rcases next?_cases h with ⟨hrules, hkind⟩ | ⟨hnone, hillegal, -⟩
    · refine iff_of_false hkind fun hnone => ?_
      obtain ⟨r, hr, htake, -⟩ := exists_of_ofRules hrules
      exact hnone _ ⟨r, hr, Rule.accepts_of_take htake⟩ (List.prefix_append ..)
    · exact iff_of_true hillegal fun piece hpiece => not_prefix_of_forall_take hnone hpiece
  case illegal_single =>
    intro hillegal
    rcases next?_cases h with ⟨-, hkind⟩ | ⟨-, -, hsingle⟩
    · exact absurd hillegal hkind
    · exact hsingle
  case word_ends =>
    intro k hkind hlike c hc
    obtain ⟨r, hr, haccepts, hof⟩ := exists_rule_of_next? h hkind (by rintro rfl; cases hlike)
    have hrule := Rule.eq_word_or_eq_number hr hof hlike
    rw [← Bool.not_eq_true]
    exact fun hpart => not_isLexeme_append_head h hc (isLexeme_append_wordPart hrule haccepts hpart)
  case comparison_ends =>
    intro k hk hkind
    simp only [List.mem_cons, List.not_mem_nil, or_false] at hk
    rcases hk with rfl | rfl | rfl | rfl <;>
      exact head?_ne_of_next? h hkind (by decide) (by decide)
  case slash_ends => exact fun hkind => head?_ne_of_next? h hkind (by decide) (by decide)

end Lexeme

end MonkeyFrontEnd
