import MonkeyFrontEnd.Proofs.LineBreaks
import MonkeyFrontEnd.Proofs.Places

/-!
Comments by lines. A scanner knows nothing of lines: it takes one lexeme behind the other, and a
comment is one of them. Still the comments that it finds are those that a reader sees on each line by
itself, from the first two slashes on (`Text.marks`), for no other lexeme and no illegal character
holds or cuts two slashes. So the first illegal character of a text is the first one outside the
comments that is in no lexeme, and nothing changes where comments are blanked out
(`tokenizedByLines`).
-/

namespace MonkeyFrontEnd

open TokenSource (drain)

/-! ## The comments of a text -/

namespace Text

/-- The characters of a line, each with whether it is in the comment: everything from the first two
slashes on is, but not the newline. -/
def markLine : List Char → List (Char × Bool)
  | [] => []
  | c :: cs =>
    if ['/', '/'].isPrefixOf (c :: cs) then (c :: cs).map fun d => (d, d ≠ '\n')
    else (c, false) :: markLine cs

/-- The characters of a text, each with whether it is in the comment of its line. -/
def marks (text : List Char) : List (Char × Bool) := (lines text).flatMap markLine

/-- A text without its comments: instead of each of their bytes there is a space. -/
def blanked (marked : List (Char × Bool)) : List Char :=
  marked.flatMap fun (c, hidden) => if hidden then List.replicate c.utf8Size ' ' else [c]

variable {c : Char} {cs body rest : List Char}

@[simp] theorem marks_nil : marks [] = [] := rfl

theorem marks_newline (cs : List Char) : marks ('\n' :: cs) = ('\n', false) :: marks cs := by
  have hlines : lines ('\n' :: cs) = ['\n'] :: lines cs := lines_append_newline List.not_mem_nil cs
  rw [marks, hlines]
  rfl

/-- A character that does not begin two slashes is outside the comments, if it is at the start. -/
theorem marks_cons (h : ¬ ['/', '/'] <+: c :: cs) : marks (c :: cs) = (c, false) :: marks cs := by
  by_cases hc : c = '\n'
  · subst hc
    exact marks_newline cs
  · have hlines : lines (c :: cs) = startPiece '\n' c (lines cs) := rfl
    rw [startPiece.eq_def, if_neg hc] at hlines
    have hline {line : List Char} (hline : ¬ ['/', '/'] <+: c :: line) :
        markLine (c :: line) = (c, false) :: markLine line := by
      rw [markLine, if_neg (by simpa using hline)]
    have hflatten := flatten_lines cs
    rw [marks, marks, hlines]
    cases hcs : lines cs with
    | nil =>
      have hsingle : markLine [c] = (c, false) :: markLine [] := hline (by simp)
      rw [List.flatMap_cons, List.flatMap_nil, hsingle]
      rfl
    | cons line more =>
      rw [hcs, List.flatten_cons] at hflatten
      have hstart : c :: line <+: c :: cs := by simp [← hflatten]
      simp only [List.flatMap_cons, hline fun hslashes => h (hslashes.trans hstart),
        List.cons_append]

theorem marks_cons_of_ne (h : c ≠ '/') : marks (c :: cs) = (c, false) :: marks cs :=
  marks_cons fun hslashes => h (List.cons_prefix_cons.1 hslashes).1.symm

/-- Two slashes at the start begin a comment up to the end of their line. -/
theorem marks_comment (hbody : '\n' ∉ body) (hend : ∀ c, rest.head? = some c → c = '\n') :
    marks ('/' :: '/' :: body ++ rest) = ('/' :: '/' :: body).map (·, true) ++ marks rest := by
  have hslashes : '\n' ∉ '/' :: '/' :: body := by simpa using hbody
  have hhidden : ('/' :: '/' :: body).map (fun d => (d, decide (d ≠ '\n'))) =
      ('/' :: '/' :: body).map (·, true) := by
    refine List.map_congr_left fun d hd => ?_
    have hne : d ≠ '\n' := fun heq => hslashes (heq ▸ hd)
    simp [hne]
  cases rest with
  | nil =>
    rw [List.append_nil, marks_nil, List.append_nil, ← hhidden, marks,
      lines_of_not_mem (List.cons_ne_nil _ _) hslashes]
    simp [markLine]
  | cons c rest =>
    obtain rfl := hend c rfl
    rw [marks_newline, ← hhidden, marks, lines_append_newline hslashes]
    simp [markLine, marks]

/-- Without a slash there is no comment. -/
theorem marks_append_of_not_mem {text : List Char} (h : '/' ∉ text) (rest : List Char) :
    marks (text ++ rest) = text.map (·, false) ++ marks rest := by
  induction text with
  | nil => rfl
  | cons c text ih =>
    rw [List.mem_cons, not_or] at h
    rw [List.cons_append, marks_cons_of_ne (Ne.symm h.1), ih h.2]
    rfl

/-- Marking leaves the characters as they are. -/
theorem map_fst_marks (text : List Char) : (marks text).map Prod.fst = text := by
  have hline (line : List Char) : (markLine line).map Prod.fst = line := by
    induction line with
    | nil => rfl
    | cons c cs ih =>
      rw [markLine]
      split
      · rw [List.map_map]
        exact List.map_id _
      · rw [List.map_cons, ih]
  rw [marks, List.map_flatMap]
  simp only [hline]
  rw [List.flatMap_id', flatten_lines]

@[simp] theorem blanked_append (front later : List (Char × Bool)) :
    blanked (front ++ later) = blanked front ++ blanked later := List.flatMap_append

theorem blanked_hidden (text : List Char) :
    blanked (text.map (·, true)) = List.replicate (byteLength text) ' ' := by
  induction text with
  | nil => rfl
  | cons c text ih =>
    have hcons : blanked ((c :: text).map (·, true)) =
        List.replicate c.utf8Size ' ' ++ blanked (text.map (·, true)) := rfl
    rw [hcons, ih, List.replicate_append_replicate, byteLength_cons]

theorem blanked_shown (text : List Char) : blanked (text.map (·, false)) = text := by
  induction text with
  | nil => rfl
  | cons c text ih => exact congrArg (c :: ·) ih

theorem byteLength_replicate_space (n : Nat) : byteLength (List.replicate n ' ') = n := by
  induction n with
  | zero => rfl
  | succ n ih =>
    rw [List.replicate_succ, byteLength_cons, ih, show ' '.utf8Size = 1 from rfl, Nat.add_comm]

/-- A text without its comments begins as the text does, or with a space. -/
theorem head?_blanked_marks {text : List Char} (hc : (blanked (marks text)).head? = some c) :
    c = ' ' ∨ text.head? = some c := by
  have hmap := map_fst_marks text
  cases hmarks : marks text with
  | nil =>
    rw [hmarks] at hc
    cases hc
  | cons first later =>
    obtain ⟨d, hidden⟩ := first
    rw [hmarks] at hmap hc
    cases hidden with
    | true =>
      obtain ⟨n, hn⟩ := Nat.exists_eq_add_one_of_ne_zero (Nat.ne_of_gt d.utf8Size_pos)
      refine .inl ?_
      simpa [blanked, hn, List.replicate_succ] using hc.symm
    | false =>
      refine .inr ?_
      rw [← hmap]
      simpa [blanked] using hc

end Text

/-! ## Legal characters -/

/-- Blanks, what words and numbers are made of, and what marks are made of. -/
def isLegal (c : Char) : Bool :=
  Text.isBlank c || isWordPart c ||
    ['\x7b', '\x7d', '(', ')', '=', '!', '<', '>', ';', ',', '+', '-', '/', '*'].contains c

/-- The character is outside comments and in no lexeme, and no other one in front of it is. It is at a
byte offset of the text. -/
def IsFirstStray (text : List Char) (offset : Nat) (c : Char) : Prop :=
  ∃ before after, Text.marks text = before ++ (c, false) :: after ∧ isLegal c = false ∧
    (∀ d, (d, false) ∈ before → isLegal d = true) ∧ Text.byteLength (before.map Prod.fst) = offset

namespace Rule

variable {r : Rule} {text : List Char}

/-- A class begins with legal characters. -/
theorem isLegal_of_leads {c : Char} (hr : r ∈ ordered) (hc : r.leads c = true) : isLegal c = true := by
  have hmarks : ∀ r ∈ ordered, r.opening.head?.all isLegal = true := by decide
  cases r with
  | word => simp [isLegal, isWordPart_of_isWordStart hc]
  | number => simp [isLegal, isWordPart_of_isDigit hc]
  | blanks => simp [isLegal, show Text.isBlank c = true from hc]
  | comment =>
    obtain rfl : c = '/' := by simpa [leads] using hc
    decide
  | mark own kind =>
    have hhead : (mark own kind).opening.head? = some c := by simpa [leads, opening] using hc
    simpa [hhead] using hmarks _ hr

/-- Every legal character begins a class. -/
theorem exists_leads_of_isLegal {c : Char} (hc : isLegal c = true) : ∃ r ∈ ordered, r.leads c = true := by
  simp only [isLegal, Bool.or_eq_true, or_assoc] at hc
  rcases hc with hblank | hword | hmark
  · exact ⟨.blanks, by decide, hblank⟩
  · simp only [isWordPart, Char.isAlphanum, Bool.or_eq_true] at hword
    rcases hword with (halpha | hdigit) | hbar
    · exact ⟨.word, by decide, by simp [leads, isWordStart, halpha]⟩
    · exact ⟨.number, by decide, hdigit⟩
    · exact ⟨.word, by decide, by simp [leads, isWordStart, of_decide_eq_true hbar]⟩
  · have hall : ['\x7b', '\x7d', '(', ')', '=', '!', '<', '>', ';', ',', '+', '-', '/', '*'].all
        (fun c => ordered.any (·.leads c)) = true := by decide
    exact List.any_eq_true.1 (List.all_eq_true.1 hall c (List.contains_iff_mem.1 hmark))

/-- The legal characters are those with which a class begins. -/
theorem isLegal_iff_exists_leads {c : Char} : isLegal c = true ↔ ∃ r ∈ ordered, r.leads c = true :=
  ⟨exists_leads_of_isLegal, fun ⟨_, hr, hc⟩ => isLegal_of_leads hr hc⟩

/-- All characters of a text of a class are legal, unless it is a comment. -/
theorem isLegal_of_accepts (hr : r ∈ ordered) (hne : r ≠ .comment) (h : r.accepts text = true) :
    ∀ c ∈ text, isLegal c = true := by
  have hmarks : ∀ r ∈ ordered, r.opening.all isLegal = true := by decide
  have hrun {start part : Char → Bool} (hpart : ∀ c, part c = true → isLegal c = true)
      (hstart : ∀ c, start c = true → isLegal c = true) (h : isRun start part text = true) :
      ∀ c ∈ text, isLegal c = true := by
    cases text with
    | nil => cases h
    | cons d text =>
      simp only [isRun, Bool.and_eq_true, List.all_eq_true] at h
      exact List.forall_mem_cons.2 ⟨hstart d h.1, fun c hc => hpart c (h.2 c hc)⟩
  have hword (c : Char) (hc : isWordPart c = true) : isLegal c = true := by simp [isLegal, hc]
  have hblank (c : Char) (hc : Text.isBlank c = true) : isLegal c = true := by simp [isLegal, hc]
  cases r with
  | word => exact hrun hword (fun c hc => hword c (isWordPart_of_isWordStart hc)) h
  | number => exact hrun hword (fun c hc => hword c (isWordPart_of_isDigit hc)) h
  | blanks => exact hrun hblank hblank h
  | comment => exact absurd rfl hne
  | mark own kind =>
    obtain rfl : text = own := by simpa [accepts] using h
    exact List.all_eq_true.1 (hmarks _ hr)

/-- A text of a class has no slash, unless it is a comment or one slash. -/
theorem slash_not_mem_of_accepts (hr : r ∈ ordered) (hne : r ≠ .comment)
    (h : r.accepts text = true) : '/' ∉ text ∨ r = .mark ['/'] .slash ∧ text = ['/'] := by
  have hmarks : ∀ r ∈ ordered, r ≠ .comment → r ≠ .mark ['/'] .slash → '/' ∉ r.opening := by decide
  have hrun {start part : Char → Bool} (hpart : part '/' = false) (hstart : start '/' = false)
      (h : isRun start part text = true) : '/' ∉ text := by
    cases text with
    | nil => cases h
    | cons d text =>
      simp only [isRun, Bool.and_eq_true, List.all_eq_true] at h
      rw [List.mem_cons, not_or]
      refine ⟨?_, fun hmem => ?_⟩
      · rintro rfl
        rw [hstart] at h
        cases h.1
      · have hslash := h.2 _ hmem
        rw [hpart] at hslash
        cases hslash
  cases r with
  | word => exact .inl (hrun (by decide) (by decide) h)
  | number => exact .inl (hrun (by decide) (by decide) h)
  | blanks => exact .inl (hrun (by decide) (by decide) h)
  | comment => exact absurd rfl hne
  | mark own kind =>
    obtain rfl : text = own := by simpa [accepts] using h
    by_cases hslash : mark text kind = .mark ['/'] .slash
    · refine .inr ⟨hslash, ?_⟩
      cases hslash
      rfl
    · exact .inl (hmarks _ hr hne hslash)

/-- Where a text of a class stands and nothing goes on with it, no comment begins inside it. -/
theorem marks_append {rest : List Char} (hr : r ∈ ordered) (hne : r ≠ .comment)
    (h : r.accepts text = true) (hstop : ∀ c, rest.head? = some c → r.continues c = false) :
    Text.marks (text ++ rest) = text.map (·, false) ++ Text.marks rest := by
  rcases slash_not_mem_of_accepts hr hne h with hslash | ⟨rfl, rfl⟩
  · exact Text.marks_append_of_not_mem hslash rest
  · refine Text.marks_cons fun hslashes => ?_
    obtain ⟨behind, hbehind⟩ := hslashes
    obtain rfl : '/' :: behind = rest := (List.cons.inj hbehind).2
    have hcontinues := hstop '/' rfl
    exact absurd hcontinues (by decide)

end Rule

/-! ## Lexemes -/

/-- What the next lexeme of a text can be, in front of the rest of the text. -/
inductive Lexeme.Precedes : Lexeme → List Char → Prop
  | comment {body rest : List Char} (hbody : '\n' ∉ body)
      (hend : ∀ c, rest.head? = some c → c = '\n') : Precedes ⟨none, '/' :: '/' :: body⟩ rest
  | illegal {c : Char} {rest : List Char} (hc : isLegal c = false)
      (hleads : ∀ r ∈ Rule.ordered, r.leads c = false) : Precedes ⟨some .illegal, [c]⟩ rest
  | legal {r : Rule} {text rest : List Char} (hr : r ∈ Rule.ordered) (hne : r ≠ .comment)
      (haccepts : r.accepts text = true) (hstop : ∀ c, rest.head? = some c → r.continues c = false) :
      Precedes ⟨r.kindOf text, text⟩ rest

theorem Lexeme.precedes_of_next? {cs rest : List Char} {lexeme : Lexeme}
    (h : next? cs = some (lexeme, rest)) : lexeme.Precedes rest := by
  by_cases hillegal : lexeme.kind = some .illegal
  · obtain ⟨c, rfl, hleads⟩ := exists_not_leads_of_illegal h hillegal
    refine .illegal (eq_false_of_ne_true fun hlegal => ?_) hleads
    obtain ⟨r, hr, hc⟩ := Rule.isLegal_iff_exists_leads.1 hlegal
    rw [hleads r hr] at hc
    cases hc
  · obtain ⟨before, r, after, hordered, -, htake, hkind⟩ := (isLongest_of_next? h).picked hillegal
    have hr : r ∈ Rule.ordered := by simp [hordered]
    have haccepts := Rule.accepts_of_take htake
    have hstop : ∀ c, rest.head? = some c → r.continues c = false := fun c hc =>
      eq_false_of_ne_true fun hcontinues =>
        not_isLexeme_append_head h hc (Rule.isLexeme_append_of_continues hr haccepts hcontinues)
    obtain ⟨kind, text⟩ := lexeme
    obtain rfl : kind = r.kindOf text := hkind
    by_cases hne : r = .comment
    · subst hne
      obtain ⟨body, rfl, hbody⟩ := Rule.accepts_comment_iff.1 haccepts
      refine .comment hbody fun c hc => ?_
      simpa [Rule.continues] using hstop c hc
    · exact .legal hr hne haccepts hstop

/-! ## Illegal characters -/

/-- The first character outside comments that is in no lexeme, with its offset, in marked characters
that start at an offset. -/
def firstStray (offset : Nat) : List (Char × Bool) → Option (Nat × Char)
  | [] => none
  | (c, hidden) :: later =>
    if hidden || isLegal c then firstStray (offset + c.utf8Size) later else some (offset, c)

/-- A comment is passed over, and so are legal characters. -/
theorem firstStray_map_append {text : List Char} {hidden : Bool}
    (h : ∀ c ∈ text, (hidden || isLegal c) = true) (offset : Nat) (later : List (Char × Bool)) :
    firstStray offset (text.map (·, hidden) ++ later) =
      firstStray (offset + Text.byteLength text) later := by
  induction text generalizing offset with
  | nil => rfl
  | cons c text ih =>
    obtain ⟨hc, htext⟩ := List.forall_mem_cons.1 h
    rw [List.map_cons, List.cons_append, firstStray, if_pos hc, ih htext, Text.byteLength_cons,
      Nat.add_assoc]

theorem firstStray_eq_none_iff {marked : List (Char × Bool)} (offset : Nat) :
    firstStray offset marked = none ↔ ∀ c, (c, false) ∈ marked → isLegal c = true := by
  induction marked generalizing offset with
  | nil => simp [firstStray]
  | cons x later ih =>
    obtain ⟨c, hidden⟩ := x
    rw [firstStray]
    cases hidden <;> cases hc : isLegal c <;> simp_all

/-- Where there is a stray character, there is a first one. -/
theorem exists_of_firstStray {marked : List (Char × Bool)} {start offset : Nat} {c : Char}
    (h : firstStray start marked = some (offset, c)) :
    ∃ before after, marked = before ++ (c, false) :: after ∧ isLegal c = false ∧
      (∀ d, (d, false) ∈ before → isLegal d = true) ∧
      start + Text.byteLength (before.map Prod.fst) = offset := by
  induction marked generalizing start with
  | nil => cases h
  | cons x later ih =>
    obtain ⟨d, hidden⟩ := x
    rw [firstStray] at h
    split at h
    · next hpassed =>
      obtain ⟨before, after, rfl, hc, hlegal, hoffset⟩ := ih h
      refine ⟨(d, hidden) :: before, after, rfl, hc, fun e he => ?_, ?_⟩
      · rcases List.mem_cons.1 he with heq | he
        · cases heq
          simpa using hpassed
        · exact hlegal e he
      · rw [List.map_cons, Text.byteLength_cons, ← Nat.add_assoc, hoffset]
    · next hstray =>
      cases h
      simp only [Bool.or_eq_true, not_or, Bool.not_eq_true] at hstray
      obtain ⟨rfl, hc⟩ := hstray
      exact ⟨[], later, rfl, hc, by simp, rfl⟩

theorem isTrivia_replicate_space (n : Nat) (behind : List Char) :
    IsTrivia behind (List.replicate n ' ') := by
  induction n with
  | zero => exact .nil
  | succ n ih => exact .blank (by decide) ih

namespace Scanner

/-- The token of one illegal character at an offset. -/
def strayToken (file : String) (offset : Nat) (c : Char) : Token :=
  ⟨.illegal, String.singleton c, ⟨⟨offset.toUInt32, file⟩, ⟨(offset + c.utf8Size).toUInt32, file⟩⟩⟩

/-- The first illegal token is the first stray character. -/
theorem find?_illegal_drain (s : Scanner) :
    (drain s).1.find? (·.kind = .illegal) =
      (firstStray s.offset (Text.marks s.rest)).map fun (offset, c) => strayToken s.file offset c := by
  induction hlength : s.rest.length using Nat.strongRecOn generalizing s with
  | ind n ih =>
    subst hlength
    cases hnext : Lexeme.next? s.rest with
    | none =>
      have hrest := Lexeme.next?_eq_none_iff.1 hnext
      rw [drain_of_nil hrest, hrest]
      rfl
    | some found =>
      obtain ⟨lexeme, rest⟩ := found
      have happend := Lexeme.next?_append hnext
      have hlater := ih _ (Lexeme.next?_length_lt hnext) (s.past lexeme.text rest) rfl
      cases Lexeme.precedes_of_next? hnext with
      | @comment body rest hbody hend =>
        rw [drain_of_skipped hnext rfl, hlater, happend, Text.marks_comment hbody hend,
          firstStray_map_append (by simp)]
        rfl
      | @illegal c rest hc hleads =>
        have hslash : c ≠ '/' := by
          rintro rfl
          cases hc
        have htoken : (⟨.illegal, String.ofList [c], ⟨s.position, (s.past [c] rest).position⟩⟩ : Token) =
            strayToken s.file s.offset c := by
          rw [strayToken, String.singleton_eq_ofList]
          rfl
        rw [drain_of_kind hnext rfl, happend, List.singleton_append, Text.marks_cons_of_ne hslash,
          firstStray, if_neg (by simp [hc]), List.find?_cons_of_pos (by simp), Option.map_some]
        exact congrArg some htoken
      | @legal r text rest hr hne haccepts hstop =>
        have hlegal := Rule.isLegal_of_accepts hr hne haccepts
        rw [happend, Rule.marks_append hr hne haccepts hstop,
          firstStray_map_append (by simpa using hlegal)]
        cases hkind : r.kindOf text with
        | none =>
          rw [drain_of_skipped hnext hkind]
          exact hlater
        | some kind =>
          have hkind' : kind ≠ .illegal := fun h => Rule.kindOf_ne_illegal hr (h ▸ hkind)
          rw [drain_of_kind hnext hkind, List.find?_cons_of_neg (by simpa using hkind')]
          exact hlater

/-! ## Blanked comments -/

/-- Where the same lexeme is read, only what is behind it makes a difference. -/
theorem drain_congr {cs cs' rest rest' : List Char} {lexeme : Lexeme} {offset : Nat} {file : String}
    (h : Lexeme.next? cs = some (lexeme, rest)) (h' : Lexeme.next? cs' = some (lexeme, rest'))
    (hrest : drain (⟨rest, offset + Text.byteLength lexeme.text, file⟩ : Scanner) =
      drain (⟨rest', offset + Text.byteLength lexeme.text, file⟩ : Scanner)) :
    drain (⟨cs, offset, file⟩ : Scanner) = drain (⟨cs', offset, file⟩ : Scanner) := by
  cases hkind : lexeme.kind with
  | none =>
    rw [drain_of_skipped (s := ⟨cs, offset, file⟩) h hkind,
      drain_of_skipped (s := ⟨cs', offset, file⟩) h' hkind]
    exact hrest
  | some kind =>
    rw [drain_of_kind (s := ⟨cs, offset, file⟩) h hkind,
      drain_of_kind (s := ⟨cs', offset, file⟩) h' hkind]
    simp only [past, hrest]
    rfl

/-- Without the comments a scanner gives the same tokens at the same places. -/
theorem drain_blanked (cs : List Char) (offset : Nat) (file : String) :
    drain (⟨Text.blanked (Text.marks cs), offset, file⟩ : Scanner) =
      drain (⟨cs, offset, file⟩ : Scanner) := by
  induction hlength : cs.length using Nat.strongRecOn generalizing cs offset with
  | ind n ih =>
    subst hlength
    cases hnext : Lexeme.next? cs with
    | none =>
      obtain rfl := Lexeme.next?_eq_none_iff.1 hnext
      rfl
    | some found =>
      obtain ⟨lexeme, rest⟩ := found
      obtain rfl := Lexeme.next?_append hnext
      have hlater := ih _ (Lexeme.next?_length_lt hnext) rest (offset + Text.byteLength lexeme.text) rfl
      cases Lexeme.precedes_of_next? hnext with
      | @comment body rest hbody hend =>
        rw [Text.marks_comment hbody hend, Text.blanked_append, Text.blanked_hidden,
          drain_trivia_append (isTrivia_replicate_space _ _), Text.byteLength_replicate_space, hlater]
        exact (drain_of_skipped (s := ⟨'/' :: '/' :: body ++ rest, offset, file⟩) hnext rfl).symm
      | @illegal c rest hc hleads =>
        have hslash : c ≠ '/' := by
          rintro rfl
          cases hc
        rw [List.singleton_append, Text.marks_cons_of_ne hslash]
        exact drain_congr (Lexeme.next?_of_not_leads hleads _) hnext hlater
      | @legal r text rest hr hne haccepts hstop =>
        rw [Rule.marks_append hr hne haccepts hstop, Text.blanked_append, Text.blanked_shown]
        by_cases hblanks : r = .blanks
        · -- A comment behind the blanks has become more of them.
          subst hblanks
          have hrun : IsTrivia (Text.blanked (Text.marks rest)) text :=
            Rule.isTrivia_of_accepts haccepts _
          rw [drain_trivia_append hrun, hlater]
          exact (drain_of_skipped (s := ⟨text ++ rest, offset, file⟩) hnext rfl).symm
        · refine drain_congr (Lexeme.next?_of_accepts hr haccepts fun c hc => ?_) hnext hlater
          rcases Text.head?_blanked_marks hc with rfl | hc
          · refine eq_false_of_ne_true fun hcontinues => ?_
            rcases Rule.eq_blanks_or_comment hcontinues (by decide) with h | h
            · exact hblanks h
            · exact hne h
          · exact hstop c hc

end Scanner

/-! ## The tokens of a text -/

/-- A text has tokens, or a diagnostic for its first stray character. -/
theorem tokenize_eq (text file : String) :
    tokenize text file = match firstStray 0 (Text.marks text.toList) with
      | none => .ok (Scanner.ofString text file).tokens
      | some (offset, c) => .error ⟨.unrecognised (String.singleton c), ⟨offset.toUInt32, file⟩⟩ := by
  have hlast : (drain (Scanner.ofString text file)).2.kind = .eof := (TokenSource.drain_kinds _).2
  have hfind : (Scanner.ofString text file).tokens.find? (·.kind = .illegal) =
      (firstStray 0 (Text.marks text.toList)).map fun (offset, c) => Scanner.strayToken file offset c := by
    rw [Scanner.tokens, List.find?_append, List.find?_cons_of_neg (by simp [hlast]), List.find?_nil,
      Option.or_none]
    exact Scanner.find?_illegal_drain (Scanner.ofString text file)
  rw [tokenize, hfind]
  cases firstStray 0 (Text.marks text.toList) with
  | none => rfl
  | some stray => rfl

/-- Comments and illegal characters are a matter of single lines. -/
structure TokenizedByLines (text file : String) : Prop where
  /-- A text has tokens exactly if every character outside the comments of its lines is legal. -/
  ok_iff : (∃ tokens, tokenize text file = .ok tokens) ↔
    ∀ c, (c, false) ∈ Text.marks text.toList → isLegal c = true
  /-- Otherwise the first one that is not is reported, with its offset. -/
  stray : ¬ (∀ c, (c, false) ∈ Text.marks text.toList → isLegal c = true) →
    ∃ offset c, IsFirstStray text.toList offset c ∧ offset.toUInt32.toNat = offset ∧
      tokenize text file = .error ⟨.unrecognised (String.singleton c), ⟨offset.toUInt32, file⟩⟩
  /-- The outcome is the same where all comments are replaced by spaces, one for each byte. -/
  blanked :
    tokenize (String.ofList (Text.blanked (Text.marks text.toList))) file = tokenize text file

/-- A text of less than four gibibytes is tokenized as its lines say. -/
theorem tokenizedByLines {text : String} (file : String)
    (h : Text.byteLength text.toList < UInt32.size) : TokenizedByLines text file := by
  constructor
  case ok_iff =>
    rw [tokenize_eq, ← firstStray_eq_none_iff 0]
    cases firstStray 0 (Text.marks text.toList) <;> simp
  case stray =>
    intro hstray
    rw [← firstStray_eq_none_iff 0] at hstray
    obtain ⟨⟨offset, c⟩, hfirst⟩ := Option.ne_none_iff_exists'.1 hstray
    obtain ⟨before, after, hmarks, hc, hlegal, hoffset⟩ := exists_of_firstStray hfirst
    rw [Nat.zero_add] at hoffset
    refine ⟨offset, c, ⟨before, after, hmarks, hc, hlegal, hoffset⟩, ?_, ?_⟩
    · have htext := congrArg Text.byteLength (Text.map_fst_marks text.toList)
      rw [hmarks, List.map_append, Text.byteLength_append, hoffset] at htext
      exact Nat.mod_eq_of_lt (show offset < UInt32.size by omega)
    · rw [tokenize_eq, hfirst]
  case blanked =>
    have hdrain := Scanner.drain_blanked text.toList 0 file
    have htokens : (Scanner.ofString (String.ofList (Text.blanked (Text.marks text.toList))) file).tokens =
        (Scanner.ofString text file).tokens := by
      rw [Scanner.tokens, Scanner.ofString, String.toList_ofList]
      exact congrArg (fun read => read.1 ++ [read.2]) hdrain
    rw [tokenize, tokenize, htokens]

/-- Three slashes, a comment that ends in a carriage return, and an illegal character between two
slashes. -/
theorem tokenizedByLines_slashes :
    Text.byteLength "a /// é\r\n\u2003/é/ 1 // ü".toList < UInt32.size ∧
      TokenizedByLines "a /// é\r\n\u2003/é/ 1 // ü" "notes" := by
  have h : Text.byteLength "a /// é\r\n\u2003/é/ 1 // ü".toList < UInt32.size := by decide
  exact ⟨h, tokenizedByLines "notes" h⟩

/-- The illegal character outside the comments is the second of the three. -/
example : firstStray 0 (Text.marks "a /// é\r\n\u2003/é/ 1 // ü".toList) = some (14, 'é') ∧
    Text.blanked (Text.marks "a /// é\r\n\u2003/é/ 1 // ü".toList) =
      "a        \n\u2003/é/ 1      ".toList := by
  decide +kernel

end MonkeyFrontEnd
