import MonkeyFrontEnd.Token.Lexeme

/-!
Classes of lexemes. Each rule has a class of texts, and takes the longest beginning of the text that
belongs to its class (`Rule.exists_take_of_accepts`). The rules are tried in order; a later rule never
takes more than an earlier one that applies to the same text, because no text begins in both classes,
or the later rule is a mark that every text of the earlier one begins with
(`Rule.prefix_of_yieldsTo`).
-/

namespace MonkeyFrontEnd

/-- The text starts with one class of characters and goes on with another up to its end. -/
def isRun (start part : Char → Bool) : List Char → Bool
  | [] => false
  | c :: cs => start c && cs.all part

section

variable {start part : Char → Bool} {text taken rest cs : List Char}

theorem isRun_of_takeRun (h : takeRun start part cs = some (taken, rest)) :
    isRun start part taken = true := by
  cases cs with
  | nil => simp [takeRun] at h
  | cons c cs =>
    by_cases hc : start c = true
    · simp only [takeRun, hc, if_true, Option.some.injEq, Prod.mk.injEq] at h
      rw [← h.1, isRun, hc, List.all_takeWhile, Bool.and_self]
    · simp [takeRun, hc] at h

theorem prefix_takeWhile (htext : text <+: cs) (hpart : text.all part = true) :
    text <+: cs.takeWhile part := by
  obtain ⟨behind, rfl⟩ := htext
  rw [List.takeWhile_append_of_pos (List.all_eq_true.1 hpart)]
  exact List.prefix_append ..

/-- A run is taken as far as it goes. -/
theorem exists_takeRun_of_isRun (hrun : isRun start part text = true) (htext : text <+: cs) :
    ∃ taken rest, takeRun start part cs = some (taken, rest) ∧ text <+: taken := by
  cases text with
  | nil => simp [isRun] at hrun
  | cons c text =>
    cases cs with
    | nil => simp at htext
    | cons d cs =>
      obtain ⟨rfl, hstart⟩ := List.cons_prefix_cons.1 htext
      simp only [isRun, Bool.and_eq_true] at hrun
      refine ⟨_, _, by rw [takeRun, if_pos hrun.1], ?_⟩
      exact List.cons_prefix_cons.2 ⟨rfl, prefix_takeWhile hstart hrun.2⟩

end

namespace Rule

/-- The text belongs to the class of the rule. -/
def accepts : Rule → List Char → Bool
  | word, text => isRun isWordStart isWordPart text
  | number, text => isRun Char.isDigit isWordPart text
  | blanks, text => isRun Text.isBlank Text.isBlank text
  | comment, text => (afterStart ['/', '/'] text).any (·.all (· ≠ '\n'))
  | mark own _, text => text = own

theorem accepts_comment_iff {text : List Char} :
    comment.accepts text = true ↔ ∃ body, text = '/' :: '/' :: body ∧ '\n' ∉ body := by
  simp only [accepts, Option.any_eq_true, afterStart_eq_some_iff, List.all_eq_true]
  refine exists_congr fun body => and_congr_right fun _ => ?_
  simp only [ne_eq, decide_not, Bool.not_eq_true', decide_eq_false_iff_not]
  exact ⟨fun h hmem => h _ hmem rfl, fun h c hc heq => h (heq ▸ hc)⟩

variable {r later : Rule} {text taken rest cs : List Char}

/-- What a rule takes belongs to its class. -/
theorem accepts_of_take (h : r.take cs = some (taken, rest)) : r.accepts taken = true := by
  cases r with
  | word => exact isRun_of_takeRun h
  | number => exact isRun_of_takeRun h
  | blanks => exact isRun_of_takeRun h
  | comment =>
    simp only [take, Option.map_eq_some_iff, Prod.mk.injEq] at h
    obtain ⟨tail, -, rfl, -⟩ := h
    refine accepts_comment_iff.2 ⟨_, rfl, fun hmem => ?_⟩
    simpa using List.all_eq_true.1 List.all_takeWhile _ hmem
  | mark own kind =>
    simp only [take, Option.map_eq_some_iff, Prod.mk.injEq] at h
    obtain ⟨tail, -, rfl, -⟩ := h
    simp [accepts]

/-- A rule applies to every text that begins with one of its class, and takes no less than that. -/
theorem exists_take_of_accepts (haccepts : r.accepts text = true) (htext : text <+: cs) :
    ∃ taken rest, r.take cs = some (taken, rest) ∧ text <+: taken := by
  cases r with
  | word => exact exists_takeRun_of_isRun haccepts htext
  | number => exact exists_takeRun_of_isRun haccepts htext
  | blanks => exact exists_takeRun_of_isRun haccepts htext
  | comment =>
    obtain ⟨body, rfl, hbody⟩ := accepts_comment_iff.1 haccepts
    obtain ⟨behind, rfl⟩ := htext
    have hafter : afterStart ['/', '/'] ('/' :: '/' :: body ++ behind) = some (body ++ behind) :=
      afterStart_eq_some_iff.2 rfl
    have hpart : body.all (· ≠ '\n') = true := by
      simp only [List.all_eq_true, ne_eq, decide_not, Bool.not_eq_true', decide_eq_false_iff_not]
      exact fun c hc heq => hbody (heq ▸ hc)
    refine ⟨_, _, by rw [take, hafter, Option.map_some], ?_⟩
    have hstart := prefix_takeWhile (List.prefix_append body behind) hpart
    exact List.cons_prefix_cons.2 ⟨rfl, List.cons_prefix_cons.2 ⟨rfl, hstart⟩⟩
  | mark own kind =>
    obtain rfl : text = own := by simpa [accepts] using haccepts
    obtain ⟨behind, rfl⟩ := htext
    have hafter : afterStart text (text ++ behind) = some behind := afterStart_eq_some_iff.2 rfl
    exact ⟨text, behind, by rw [take, hafter, Option.map_some], List.prefix_refl _⟩

/-! ## The order of the rules -/

/-- A text of the class may begin with this character. -/
def leads : Rule → Char → Bool
  | word, c => isWordStart c
  | number, c => c.isDigit
  | blanks, c => Text.isBlank c
  | comment, c => c = '/'
  | mark own _, c => own.head? = some c

/-- The characters that all texts of the class begin with. -/
def opening : Rule → List Char
  | comment => ['/', '/']
  | mark own _ => own
  | _ => []

/-- The rule takes nothing that `earlier` leaves: no text begins in both classes, or the rule is a
mark that every text of the other class begins with. -/
def yieldsTo (r earlier : Rule) : Bool :=
  match r with
  | word => false
  | number => earlier = word
  | blanks => earlier = word || earlier = number
  | comment => !earlier.leads '/'
  | mark [] _ => false
  | mark (c :: own) _ => !earlier.leads c || (c :: own).isPrefixOf earlier.opening

theorem ordered_yields : ordered.Pairwise fun earlier later => later.yieldsTo earlier = true := by
  decide

theorem leads_of_accepts {c : Char} (h : r.accepts (c :: text) = true) : r.leads c = true := by
  cases r with
  | word => exact (Bool.and_eq_true_iff.1 h).1
  | number => exact (Bool.and_eq_true_iff.1 h).1
  | blanks => exact (Bool.and_eq_true_iff.1 h).1
  | comment =>
    obtain ⟨body, htext, -⟩ := accepts_comment_iff.1 h
    simp [leads, (List.cons.inj htext).1]
  | mark own kind =>
    obtain rfl : c :: text = own := by simpa [accepts] using h
    simp [leads]

theorem opening_prefix_of_accepts (h : r.accepts text = true) : r.opening <+: text := by
  cases r with
  | word => exact List.nil_prefix
  | number => exact List.nil_prefix
  | blanks => exact List.nil_prefix
  | comment =>
    obtain ⟨body, rfl, -⟩ := accepts_comment_iff.1 h
    exact List.prefix_append ['/', '/'] body
  | mark own kind =>
    obtain rfl : text = own := by simpa [accepts] using h
    exact List.prefix_refl _

/-- A sound rule accepts no empty text. -/
theorem ne_nil_of_accepts (hr : r.isSound = true) (h : r.accepts text = true) : text ≠ [] := by
  rintro rfl
  cases r with
  | mark own kind =>
    obtain rfl : [] = own := by simpa [accepts] using h
    simp [isSound] at hr
  | _ => simp [accepts, isRun, afterStart] at h

end Rule

theorem isWordPart_of_isWordStart {c : Char} (h : isWordStart c = true) : isWordPart c = true := by
  simp only [isWordStart, Bool.or_eq_true] at h
  simp only [isWordPart, Char.isAlphanum, Bool.or_eq_true]
  exact h.elim (fun h => .inl (.inl h)) .inr

theorem isWordPart_of_isDigit {c : Char} (h : c.isDigit = true) : isWordPart c = true := by
  simp [isWordPart, Char.isAlphanum, h]

/-- The letters by their code points. -/
theorem isAlpha_iff {c : Char} :
    c.isAlpha = true ↔ 65 ≤ c.toNat ∧ c.toNat ≤ 90 ∨ 97 ≤ c.toNat ∧ c.toNat ≤ 122 := by
  have hletter : c.isAlpha = (decide (65 ≤ c.val ∧ c.val ≤ 90) ||
      (decide (97 ≤ c.val) && decide (c.val ≤ 122))) := rfl
  rw [hletter]
  simp only [Bool.or_eq_true, Bool.and_eq_true, decide_eq_true_eq, UInt32.le_iff_toNat_le]
  rfl

theorem isDigit_iff {c : Char} : c.isDigit = true ↔ 48 ≤ c.toNat ∧ c.toNat ≤ 57 := by
  have hdigit : c.isDigit = (decide (48 ≤ c.val) && decide (c.val ≤ 57)) := rfl
  rw [hdigit]
  simp only [Bool.and_eq_true, decide_eq_true_eq, UInt32.le_iff_toNat_le]
  rfl

/-- The code points of the characters that words are made of. -/
theorem toNat_of_isWordPart {c : Char} (h : isWordPart c = true) :
    48 ≤ c.toNat ∧ c.toNat ≤ 57 ∨ 65 ≤ c.toNat ∧ c.toNat ≤ 90 ∨ c.toNat = 95 ∨
      97 ≤ c.toNat ∧ c.toNat ≤ 122 := by
  simp only [isWordPart, Char.isAlphanum, Bool.or_eq_true, isAlpha_iff, isDigit_iff,
    decide_eq_true_eq] at h
  rcases h with ((h | h) | h) | rfl
  · exact .inr (.inl h)
  · exact .inr (.inr (.inr h))
  · exact .inl h
  · exact .inr (.inr (.inl rfl))

theorem not_isDigit_of_isWordStart {c : Char} (h : isWordStart c = true) : ¬ c.isDigit = true := by
  simp only [isWordStart, Bool.or_eq_true, isAlpha_iff, decide_eq_true_eq] at h
  rw [isDigit_iff]
  rcases h with (h | h) | rfl
  · omega
  · omega
  · decide

theorem not_isBlank_of_isWordPart {c : Char} (h : isWordPart c = true) :
    ¬ Text.isBlank c = true := by
  have hcode := toNat_of_isWordPart h
  intro hblank
  obtain ⟨r, hr, hfirst, hlast⟩ := Text.inRanges_eq_true_iff.1 hblank
  simp only [Text.blankRanges, List.mem_cons, List.not_mem_nil, or_false] at hr
  rcases hr with rfl | rfl | rfl | rfl | rfl | rfl | rfl | rfl | rfl | rfl <;>
    (simp only at hfirst hlast; omega)

namespace Rule

variable {r later : Rule} {text taken rest cs : List Char}

/-- A rule that yields to another one, and begins as it does, is a mark that all of its texts begin
with. -/
theorem exists_mark_of_yieldsTo {c : Char} (hyields : later.yieldsTo r = true)
    (hleads : r.leads c = true) (hlater : later.leads c = true) :
    ∃ own kind, later = mark own kind ∧ own <+: r.opening := by
  cases later with
  | word => simp [yieldsTo] at hyields
  | number =>
    obtain rfl : r = word := by simpa [yieldsTo] using hyields
    exact absurd hlater (not_isDigit_of_isWordStart hleads)
  | blanks =>
    have hpart : isWordPart c = true := by
      simp only [yieldsTo, Bool.or_eq_true, decide_eq_true_eq] at hyields
      rcases hyields with rfl | rfl
      · exact isWordPart_of_isWordStart hleads
      · exact isWordPart_of_isDigit hleads
    exact absurd hlater (not_isBlank_of_isWordPart hpart)
  | comment =>
    obtain rfl : c = '/' := by simpa [leads] using hlater
    simp [yieldsTo, hleads] at hyields
  | mark own kind =>
    refine ⟨own, kind, rfl, ?_⟩
    cases own with
    | nil => simp [leads] at hlater
    | cons d own =>
      obtain rfl : d = c := by simpa [leads] using hlater
      simpa [yieldsTo, hleads] using hyields

/-- Of two texts at the beginning of a third one, one belonging to a rule and the other one to a rule
that yields to it, the second is the shorter one. -/
theorem prefix_of_yieldsTo (hr : r.isSound = true) (hyields : later.yieldsTo r = true)
    (htaken : r.accepts taken = true) (hbegin : taken <+: cs) (htext : later.accepts text = true)
    (hstart : text <+: cs) : text <+: taken := by
  cases text with
  | nil => exact List.nil_prefix
  | cons c text =>
    have hleads : r.leads c = true := by
      obtain ⟨d, tail, rfl⟩ := List.exists_cons_of_ne_nil (ne_nil_of_accepts hr htaken)
      have hsame : c = d := by
        obtain ⟨behind, rfl⟩ := hbegin
        exact (List.cons_prefix_cons.1 hstart).1
      rw [hsame]
      exact leads_of_accepts htaken
    obtain ⟨own, kind, rfl, hown⟩ := exists_mark_of_yieldsTo hyields hleads (leads_of_accepts htext)
    obtain rfl : c :: text = own := by simpa [accepts] using htext
    exact hown.trans (opening_prefix_of_accepts htaken)

end Rule

end MonkeyFrontEnd
