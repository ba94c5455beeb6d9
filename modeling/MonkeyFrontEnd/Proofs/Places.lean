import MonkeyFrontEnd.Text.Line

/-!
The place of an offset, read backwards. The line of a place stands in the text, with whole lines
before it, and the column leads from its start to the offset (`Text.exists_liesAt_of_placeOf`); and no
other place does the same (`Text.placeOf_eq_iff`). What goes line by line through a text is shown of a
text without a newline, and of one more line in front of a text (`Text.line_induction`).
-/

namespace MonkeyFrontEnd.Text

/-- A text is a last line without a newline, behind any number of lines with one. -/
theorem line_induction {motive : List Char → Prop}
    (last : ∀ line, '\n' ∉ line → motive line)
    (cons : ∀ line rest, '\n' ∉ line → motive rest → motive (line ++ '\n' :: rest))
    (text : List Char) : motive text := by
  induction hlength : text.length using Nat.strongRecOn generalizing text with
  | ind n ih =>
    subst hlength
    by_cases hmem : '\n' ∈ text
    · obtain ⟨line, rest, rfl, hline⟩ := List.eq_append_cons_of_mem hmem
      exact cons line rest hline (ih _ (by simp; omega) rest rfl)
    · exact last text hmem

@[simp] theorem lines_nil : lines [] = [] := rfl

theorem lines_of_not_mem {line : List Char} (hne : line ≠ []) (h : '\n' ∉ line) :
    lines line = [line] := pieces_of_not_mem hne h

theorem lines_append_newline {line : List Char} (h : '\n' ∉ line) (rest : List Char) :
    lines (line ++ '\n' :: rest) = (line ++ ['\n']) :: lines rest := pieces_append_cons h rest

/-- No line is without a character, so only the empty text has no lines. -/
theorem lines_eq_nil_iff {text : List Char} : lines text = [] ↔ text = [] := by
  refine ⟨fun h => ?_, fun h => by rw [h, lines_nil]⟩
  rw [← flatten_lines text, h, List.flatten_nil]

/-- The place stands in the text, `offset` bytes behind the start, between what is before its line and
what is behind it. The first line of the text has the number `first`. -/
structure Place.LiesAt (place : Place) (first : Nat) (text : List Char) (offset : Nat)
    (before after : List Char) : Prop where
  text_eq : text = before ++ (place.line ++ after)
  offset_eq : byteLength before + place.column = offset
  number_eq : place.number = first + before.count '\n'
  /-- The line begins where the text does, or behind a newline. -/
  begins : before = [] ∨ before.getLast? = some '\n'
  /-- A newline is nowhere but at the end of the line. -/
  inner : '\n' ∉ place.line.dropLast
  ends : place.line.getLast? = some '\n' ∨ after = []
  /-- Only the place behind the whole text is behind its line. -/
  within : place.column < byteLength place.line ∨ after = [] ∧ place.column = byteLength place.line

namespace Place.LiesAt

variable {place place' : Place} {first offset : Nat}
  {text before before' after after' line more : List Char}

/-- In a text of one line, with or without its newline, every offset is a column. -/
theorem single (hinner : '\n' ∉ line.dropLast) (h : offset ≤ byteLength line) :
    LiesAt ⟨first, line, offset⟩ first line offset [] [] where
  text_eq := by rw [List.append_nil, List.nil_append]
  offset_eq := by rw [byteLength_nil, Nat.zero_add]
  number_eq := rfl
  begins := .inl rfl
  inner := hinner
  ends := .inr rfl
  within := (Nat.lt_or_eq_of_le h).imp_right (⟨rfl, ·⟩)

/-- An offset inside the first line of a text is a column of it. -/
theorem head (hline : '\n' ∉ line) (h : offset < byteLength (line ++ ['\n'])) (rest : List Char) :
    LiesAt ⟨first, line ++ ['\n'], offset⟩ first (line ++ '\n' :: rest) offset [] rest where
  text_eq := by rw [List.append_assoc]; rfl
  offset_eq := by rw [byteLength_nil, Nat.zero_add]
  number_eq := rfl
  begins := .inl rfl
  inner := by rwa [List.dropLast_concat]
  ends := .inl List.getLast?_concat
  within := .inl h

/-- One more line in front. -/
theorem tail (hline : '\n' ∉ line) (hle : byteLength (line ++ ['\n']) ≤ offset)
    (h : place.LiesAt (first + 1) text (offset - byteLength (line ++ ['\n'])) before after) :
    place.LiesAt first (line ++ '\n' :: text) offset (line ++ '\n' :: before) after where
  text_eq := by rw [h.text_eq, List.append_assoc]; rfl
  offset_eq := by
    have hoffset := h.offset_eq
    simp only [byteLength_append, byteLength_cons, byteLength_nil] at hle hoffset ⊢
    omega
  number_eq := by
    rw [h.number_eq, List.count_append, List.count_eq_zero_of_not_mem hline, List.count_cons_self]
    omega
  begins := by
    refine .inr ?_
    obtain rfl | hlast := h.begins
    · exact List.getLast?_concat
    · rw [List.getLast?_append, List.getLast?_cons, hlast]
      rfl
  inner := h.inner
  ends := h.ends
  within := h.within

/-- The character at an offset stands on the line of its place, as many bytes behind the start of the
line as the column says. -/
theorem exists_line_eq {front behind : List Char} {c : Char}
    (h : place.LiesAt first text offset before after) (htext : text = front ++ c :: behind)
    (hoffset : byteLength front = offset) :
    ∃ inner outer, front = before ++ inner ∧ place.line = inner ++ c :: outer ∧
      byteLength inner = place.column ∧ '\n' ∉ inner := by
  have hsplit : before ++ (place.line ++ after) = front ++ c :: behind := h.text_eq ▸ htext
  have hcolumn := h.offset_eq
  obtain ⟨inner, rfl, hrest⟩ : ∃ inner, front = before ++ inner ∧
      place.line ++ after = inner ++ c :: behind := by
    obtain ⟨inner, hfront, hrest⟩ | ⟨excess, hbefore, hrest⟩ := List.append_eq_append_iff.1 hsplit
    · exact ⟨inner, hfront, hrest⟩
    · -- What the lines before would have too much takes no byte.
      have hbytes := congrArg byteLength hbefore
      rw [byteLength_append] at hbytes
      have hexcess := length_le_byteLength excess
      obtain rfl : excess = [] := List.eq_nil_of_length_eq_zero (by omega)
      exact ⟨[], by simpa using hbefore.symm, by simpa using hrest.symm⟩
  rw [byteLength_append] at hoffset
  obtain ⟨more, hline, hafter⟩ | ⟨excess, hinner, hexcess⟩ := List.append_eq_append_iff.1 hrest
  · -- The line would end in front of the character, and nothing is behind the text.
    have hbytes := congrArg byteLength hline
    rw [byteLength_append] at hbytes
    obtain hlt | ⟨rfl, -⟩ := h.within
    · omega
    · simp at hafter
  · cases excess with
    | nil =>
      have hbytes := congrArg byteLength hinner
      rw [byteLength_append, byteLength_nil] at hbytes
      obtain hlt | ⟨rfl, -⟩ := h.within
      · omega
      · simp at hexcess
    | cons d outer =>
      obtain ⟨rfl, -⟩ := List.cons.inj hexcess
      refine ⟨inner, outer, rfl, hinner, by omega, fun hmem => h.inner ?_⟩
      rw [hinner, List.dropLast_append_of_ne_nil (List.cons_ne_nil _ _)]
      exact List.mem_append_left _ hmem

/-! ### One offset, one place -/

theorem column_le (h : place.LiesAt first text offset before after) :
    place.column ≤ byteLength place.line :=
  h.within.elim Nat.le_of_lt fun hlast => Nat.le_of_eq hlast.2

/-- There are at most as many lines in front as bytes. -/
theorem number_le (h : place.LiesAt first text offset before after) : place.number ≤ first + offset := by
  have hcount : before.count '\n' ≤ before.length := List.count_le_length
  have hbytes := length_le_byteLength before
  have hoffset := h.offset_eq
  rw [h.number_eq]
  omega

/-- A line that ends in a newline does not go on behind it. -/
theorem eq_nil_of_line_eq_append (h : place.LiesAt first text offset before after)
    (hline : place.line = more ++ after') (hmore : '\n' ∈ more) : after' = [] := by
  apply Classical.byContradiction
  intro hne
  apply h.inner
  rw [hline, List.dropLast_append_of_ne_nil hne]
  exact List.mem_append_left _ hmore

/-- No line begins behind the start of another one that has the same offset on it. -/
theorem more_eq_nil (h : place.LiesAt first text offset before after)
    (h' : place'.LiesAt first text offset (before ++ more) after')
    (hfilled : place'.line = [] → text = []) : more = [] := by
  apply Classical.byContradiction
  intro hne
  have hsplit : place.line ++ after = more ++ (place'.line ++ after') := by
    have htext := h.text_eq.symm.trans h'.text_eq
    rwa [List.append_assoc, List.append_cancel_left_eq] at htext
  have hcolumn : byteLength more + place'.column = place.column := by
    have hoffset := h.offset_eq.trans h'.offset_eq.symm
    rw [byteLength_append] at hoffset
    omega
  obtain ⟨rest, hline, hrest⟩ : ∃ rest, place.line = more ++ rest ∧
      rest ++ after = place'.line ++ after' := by
    obtain ⟨excess, hmore, hafter⟩ | ⟨rest, hline, hrest⟩ := List.append_eq_append_iff.1 hsplit
    · -- The column reaches over all of `more`, so nothing of it is behind the line.
      have hbytes := congrArg byteLength hmore
      rw [byteLength_append] at hbytes
      have hle := h.column_le
      have hexcess := length_le_byteLength excess
      obtain rfl : excess = [] := List.eq_nil_of_length_eq_zero (by omega)
      exact ⟨[], by simpa using hmore.symm, by simpa using hafter⟩
    · exact ⟨rest, hline, hrest.symm⟩
  have hnewline : '\n' ∈ more := by
    obtain hnil | hlast := h'.begins
    · exact absurd (List.append_eq_nil_iff.1 hnil).2 hne
    · rw [List.getLast?_append, List.getLast?_eq_some_getLast hne, Option.some_or] at hlast
      exact List.mem_of_getLast? (List.getLast?_eq_some_getLast hne ▸ hlast)
  obtain rfl := h.eq_nil_of_line_eq_append hline hnewline
  rw [List.append_nil] at hline
  -- The offset is behind the whole line, so behind the whole text, and nothing is left for the other.
  obtain hlt | ⟨rfl, -⟩ := h.within
  · rw [hline] at hlt
    omega
  · have hempty := (List.append_eq_nil_iff.1 hrest.symm).1
    have htext := h'.text_eq
    rw [hfilled hempty] at htext
    simp [hne] at htext

theorem line_eq (h : place.LiesAt first text offset before after)
    (h' : place'.LiesAt first text offset before after') : place.line = place'.line := by
  have hsplit : place.line ++ after = place'.line ++ after' := by
    have htext := h.text_eq.symm.trans h'.text_eq
    rwa [List.append_cancel_left_eq] at htext
  have hends {place place' : Place} {after after' more : List Char}
      (h : place.LiesAt first text offset before after)
      (h' : place'.LiesAt first text offset before after')
      (hline : place'.line = place.line ++ more) (hafter : after = more ++ after') : more = [] := by
    obtain hlast | rfl := h.ends
    · exact h'.eq_nil_of_line_eq_append hline (List.mem_of_getLast? hlast)
    · exact (List.append_eq_nil_iff.1 hafter.symm).1
  obtain ⟨more, hline, hafter⟩ | ⟨more, hline, hafter⟩ := List.append_eq_append_iff.1 hsplit
  · rw [hline, hends h h' hline hafter, List.append_nil]
  · rw [hline, hends h' h hline hafter, List.append_nil]

/-- A text has one place only for an offset, if an empty line is taken of the empty text alone. -/
theorem eq_of_liesAt (h : place.LiesAt first text offset before after)
    (h' : place'.LiesAt first text offset before' after') (hfilled : place.line = [] → text = [])
    (hfilled' : place'.line = [] → text = []) : place = place' := by
  have hbefore : before = before' := by
    obtain ⟨more, rfl, -⟩ | ⟨more, rfl, -⟩ :=
      List.append_eq_append_iff.1 (h.text_eq.symm.trans h'.text_eq)
    · rw [h.more_eq_nil h' hfilled', List.append_nil]
    · rw [h'.more_eq_nil h hfilled, List.append_nil]
  subst hbefore
  have hline := h.line_eq h'
  have hnumber := h.number_eq.trans h'.number_eq.symm
  have hcolumn : place.column = place'.column :=
    Nat.add_left_cancel (h.offset_eq.trans h'.offset_eq.symm)
  cases place
  cases place'
  simp_all

end Place.LiesAt

variable {place : Place} {offset : Nat}

theorem exists_liesAt_of_placeIn {text : List Char} {first : Nat}
    (h : placeIn first (lines text) offset = some place) :
    ∃ before after, place.LiesAt first text offset before after := by
  induction text using line_induction generalizing first offset with
  | last line hline =>
    have hinner : '\n' ∉ line.dropLast := fun hmem => hline (List.dropLast_subset line hmem)
    by_cases hnil : line = []
    · subst hnil
      simp only [lines_nil, placeIn, Option.ite_none_right_eq_some, Option.some.injEq] at h
      obtain ⟨rfl, rfl⟩ := h
      exact ⟨[], [], .single hinner (Nat.le_refl _)⟩
    · simp only [lines_of_not_mem hnil hline, placeIn, Option.ite_none_right_eq_some,
        Option.some.injEq] at h
      obtain ⟨hle, rfl⟩ := h
      exact ⟨[], [], .single hinner hle⟩
  | cons line rest hline ih =>
    have hinner : '\n' ∉ (line ++ ['\n']).dropLast := by rwa [List.dropLast_concat]
    rw [lines_append_newline hline] at h
    cases hrest : lines rest with
    | nil =>
      obtain rfl := lines_eq_nil_iff.1 hrest
      simp only [hrest, placeIn, Option.ite_none_right_eq_some, Option.some.injEq] at h
      obtain ⟨hle, rfl⟩ := h
      exact ⟨[], [], .single hinner hle⟩
    | cons next more =>
      rw [hrest, placeIn] at h
      split at h
      · next hlt =>
        obtain rfl := Option.some.inj h
        exact ⟨[], rest, .head hline hlt rest⟩
      · next hle =>
        rw [← hrest] at h
        obtain ⟨before, after, hlies⟩ := ih h
        exact ⟨_, after, hlies.tail hline (Nat.le_of_not_lt hle)⟩

/-- The place of an offset is where the offset says. -/
theorem exists_liesAt_of_placeOf {text : List Char} (h : placeOf text offset = some place) :
    ∃ before after, place.LiesAt 1 text offset before after :=
  exists_liesAt_of_placeIn h

/-- A place is on one of the lines. Only where there are none it is on an empty one. -/
theorem line_mem_of_placeIn {ls : List (List Char)} {first : Nat}
    (h : placeIn first ls offset = some place) : place.line ∈ ls ∨ ls = [] ∧ place.line = [] := by
  fun_induction placeIn first ls offset with
  | case1 =>
    obtain rfl := Option.some.inj h
    exact .inr ⟨rfl, rfl⟩
  | case2 => cases h
  | case3 =>
    obtain rfl := Option.some.inj h
    exact .inl (List.mem_singleton_self _)
  | case4 => cases h
  | case5 =>
    obtain rfl := Option.some.inj h
    exact .inl (List.mem_cons_self ..)
  | case6 _ _ _ _ _ _ ih =>
    obtain hmem | ⟨hnil, -⟩ := ih h
    · exact .inl (List.mem_cons_of_mem _ hmem)
    · cases hnil

/-- Only the empty text has a place on an empty line. -/
theorem eq_nil_of_placeOf {text : List Char} (h : placeOf text offset = some place)
    (hline : place.line = []) : text = [] := by
  obtain hmem | ⟨hnil, -⟩ := line_mem_of_placeIn h
  · exact absurd hline (ne_nil_of_mem_pieces hmem)
  · exact lines_eq_nil_iff.1 hnil

/-- What is known of the place of an offset: where it stands in the text, and how the end of the text
differs from the offsets before it. -/
structure Place.IsAt (place : Place) (text : List Char) (offset : Nat) (before after : List Char) : Prop
    extends place.LiesAt 1 text offset before after where
  /-- Short of the end there is a character of the line at the column. -/
  inside : offset < byteLength text → place.column < byteLength place.line
  /-- The end of the text is behind all of the last line. -/
  atEnd : offset = byteLength text → after = [] ∧ place.column = byteLength place.line
  /-- A newline at the end of the text begins no further line. -/
  filled : place.line = [] → text = []

theorem Place.LiesAt.isAt {text before after : List Char} (h : place.LiesAt 1 text offset before after)
    (hfilled : place.line = [] → text = []) : place.IsAt text offset before after := by
  have hbytes := congrArg byteLength h.text_eq
  have hoffset := h.offset_eq
  simp only [byteLength_append] at hbytes
  refine ⟨h, fun hlt => ?_, fun heq => ?_, hfilled⟩
  · obtain hinside | ⟨rfl, hlast⟩ := h.within
    · exact hinside
    · rw [byteLength_nil] at hbytes
      omega
  · obtain hinside | hlast := h.within
    · omega
    · exact hlast

/-- The place of an offset is where the offset says, and it is the only place that is. Only an offset
past the end of the text has none. -/
theorem placeOf_eq_iff (text : List Char) (offset : Nat) :
    (placeOf text offset = none ↔ byteLength text < offset) ∧
      ∀ place, placeOf text offset = some place ↔
        ∃ before after, place.IsAt text offset before after := by
  have hnone : placeOf text offset = none ↔ byteLength text < offset := by
    rw [← Option.not_isSome_iff_eq_none, placeOf_isSome_iff, Nat.not_le]
  refine ⟨hnone, fun place => ⟨fun h => ?_, ?_⟩⟩
  · obtain ⟨before, after, hlies⟩ := exists_liesAt_of_placeOf h
    exact ⟨before, after, hlies.isAt (eq_nil_of_placeOf h)⟩
  · rintro ⟨before, after, hat⟩
    have hle : offset ≤ byteLength text := by
      have hbytes := congrArg byteLength hat.text_eq
      have hcolumn := hat.column_le
      have hoffset := hat.offset_eq
      simp only [byteLength_append] at hbytes
      omega
    obtain ⟨found, hfound⟩ := Option.isSome_iff_exists.1 ((placeOf_isSome_iff text offset).2 hle)
    obtain ⟨before', after', hlies⟩ := exists_liesAt_of_placeOf hfound
    rw [hfound, hlies.eq_of_liesAt hat.toLiesAt (eq_nil_of_placeOf hfound) hat.filled]

/-- A newline at the end of the text belongs to the last line, and so does the end behind it. -/
example : placeOf "a\nb\n".toList 4 = some ⟨2, "b\n".toList, 2⟩ := by decide

end MonkeyFrontEnd.Text
