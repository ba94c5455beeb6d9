import MonkeyFrontEnd.Proofs.Scanning

/-!
Where tokens stand in their text. A scanner gives tokens with spans, which have 32 bits for an offset;
`Scanner.placed` pairs them with the bytes at which they begin, however long the text is. The tokens so
paired lie in the text one behind the other, with trivia between them (`Scanner.isPlaced_placed`), and
what is said of the tokens of a text elsewhere is read off this layout.
-/

namespace MonkeyFrontEnd

open TokenSource (drain)

/-- The tokens of a text from an offset on, each with the byte at which it begins. Trivia stand before
a token, and the token is the lexeme that is read behind them. -/
inductive Placed (file : String) : Nat → List Char → List (Token × Nat) → Prop
  | nil {offset : Nat} {gap : List Char} (hgap : IsTrivia [] gap) : Placed file offset gap []
  | cons {offset : Nat} {gap cs behind : List Char} {t : Token} {rest : List (Token × Nat)}
      (hgap : IsTrivia cs gap)
      (hlexeme : Lexeme.next? cs = some (⟨some t.kind, t.text.toList⟩, behind))
      (hstart : t.span.start = ⟨(offset + Text.byteLength gap).toUInt32, file⟩)
      (hstop : t.span.stop =
        ⟨(offset + Text.byteLength gap + Text.byteLength t.text.toList).toUInt32, file⟩)
      (hrest : Placed file (offset + Text.byteLength gap + Text.byteLength t.text.toList) behind rest) :
      Placed file offset (gap ++ cs) ((t, offset + Text.byteLength gap) :: rest)

namespace Placed

variable {file : String} {offset : Nat} {cs : List Char} {placed : List (Token × Nat)}

/-- Every token was taken as a lexeme. -/
theorem exists_lexeme (h : Placed file offset cs placed) : ∀ entry ∈ placed,
    ∃ cs rest, Lexeme.next? cs = some (⟨some entry.1.kind, entry.1.text.toList⟩, rest) := by
  induction h with
  | nil hgap => simp
  | cons hgap hlexeme hstart hstop hrest ih =>
    exact List.forall_mem_cons.2 ⟨⟨_, _, hlexeme⟩, ih⟩

theorem offset_le (h : Placed file offset cs placed) : ∀ entry ∈ placed, offset ≤ entry.2 := by
  induction h with
  | nil hgap => simp
  | cons hgap hlexeme hstart hstop hrest ih =>
    refine List.forall_mem_cons.2 ⟨by simp, fun entry hentry => ?_⟩
    have := ih entry hentry
    omega

/-- The tokens are in the order of the text, no two of them at one place. -/
theorem pairwise_lt (h : Placed file offset cs placed) :
    placed.Pairwise fun entry later => entry.2 < later.2 := by
  induction h with
  | nil hgap => exact .nil
  | @cons offset gap cs behind t rest hgap hlexeme hstart hstop hrest ih =>
    refine List.pairwise_cons.2 ⟨fun later hlater => ?_, ih⟩
    have hle := hrest.offset_le later hlater
    have hpos := List.length_pos_iff.2 (Lexeme.next?_text_ne_nil hlexeme)
    have hbytes := Text.length_le_byteLength t.text.toList
    dsimp only at hpos ⊢
    omega

/-- An illegal token is the character that stands at its place. -/
theorem exists_character {t : Token} {n : Nat} (h : Placed file offset cs placed)
    (ht : (t, n) ∈ placed) (hkind : t.kind = .illegal) :
    ∃ c before behind, t.text = String.singleton c ∧ cs = before ++ c :: behind ∧
      offset + Text.byteLength before = n := by
  induction h with
  | nil hgap => cases ht
  | @cons offset gap cs behind first rest hgap hlexeme hstart hstop hrest ih =>
    have hcs : cs = first.text.toList ++ behind := Lexeme.next?_append hlexeme
    rcases List.mem_cons.1 ht with heq | ht
    · obtain ⟨rfl, rfl⟩ := Prod.mk.inj heq
      rcases Lexeme.next?_cases hlexeme with ⟨-, hlegal⟩ | ⟨-, -, c, hc⟩
      · exact absurd (congrArg some hkind) hlegal
      · refine ⟨c, gap, behind, String.ext ?_, ?_, rfl⟩
        · simpa using hc
        · rw [hcs, show t.text.toList = [c] from hc]
          rfl
    · obtain ⟨c, before, later, htext, hsplit, hoffset⟩ := ih ht
      refine ⟨c, gap ++ first.text.toList ++ before, later, htext, ?_, ?_⟩
      · rw [hcs, hsplit]
        simp
      · rw [← hoffset, Text.byteLength_append, Text.byteLength_append]
        omega

end Placed

namespace Scanner

/-- The tokens that a scanner gives, each with the byte at which it begins. -/
def placed (s : Scanner) : List (Token × Nat) :=
  if _ : s.next.1.kind = .eof then []
  else (s.next.1, s.next.2.offset - Text.byteLength s.next.1.text.toList) :: s.next.2.placed
termination_by s.rest.length
decreasing_by exact s.length_next_lt (by assumption)

/-- At the end of the input there is nothing left but trivia, which the scanner has passed over. -/
theorem next_of_kind_eof {s : Scanner} (h : s.next.1.kind = .eof) :
    IsTrivia [] s.rest ∧ s.next.1 = Token.eof (s.past s.rest []).position := by
  obtain ⟨gap, cs, hrest, hgap, ⟨rfl, hnext⟩ | ⟨lexeme, rest, kind, hlexeme, hkind, hnext⟩⟩ :=
    s.exists_gap_next
  · rw [hnext, hrest, List.append_nil]
    exact ⟨hgap, rfl⟩
  · rw [hnext] at h
    exact absurd (hkind.trans (congrArg some h)) (Lexeme.next?_kind_ne_eof hlexeme)

/-- What a scanner does to come to a token: it passes over trivia, and takes the lexeme behind them. -/
theorem exists_gap_of_ne_eof {s : Scanner} (h : s.next.1.kind ≠ .eof) : ∃ gap cs,
    s.rest = gap ++ cs ∧ IsTrivia cs gap ∧
    Lexeme.next? cs = some (⟨some s.next.1.kind, s.next.1.text.toList⟩, s.next.2.rest) ∧
    s.next.1.span = ⟨(s.past gap cs).position, s.next.2.position⟩ ∧ s.next.2.file = s.file ∧
    s.next.2.offset = s.offset + Text.byteLength gap + Text.byteLength s.next.1.text.toList := by
  obtain ⟨gap, cs, hrest, hgap, ⟨rfl, hnext⟩ | ⟨⟨made, piece⟩, rest, kind, hlexeme, rfl, hnext⟩⟩ :=
    s.exists_gap_next
  · rw [hnext] at h
    exact absurd rfl h
  · have hoffset : (s.past (gap ++ piece) rest).offset =
        s.offset + Text.byteLength gap + Text.byteLength piece := by
      rw [past, Text.byteLength_append, Nat.add_assoc]
    refine ⟨gap, cs, hrest, hgap, ?_⟩
    rw [hnext]
    dsimp only
    rw [String.toList_ofList]
    exact ⟨hlexeme, rfl, rfl, hoffset⟩

theorem isPlaced_placed (s : Scanner) : Placed s.file s.offset s.rest s.placed := by
  fun_induction placed s with
  | case1 s h => exact .nil (next_of_kind_eof h).1
  | case2 s h ih =>
    obtain ⟨gap, cs, hrest, hgap, hlexeme, hspan, hfile, hoffset⟩ := exists_gap_of_ne_eof h
    rw [hfile, hoffset] at ih
    rw [hrest, hoffset, Nat.add_sub_cancel]
    have hstop : s.next.2.position = ⟨(s.next.2.offset).toUInt32, s.next.2.file⟩ := rfl
    rw [hoffset, hfile] at hstop
    exact .cons hgap hlexeme (by rw [hspan]; rfl) (by rw [hspan]; exact hstop) ih

theorem map_fst_placed (s : Scanner) : s.placed.map (·.1) = (drain s).1 := by
  fun_induction placed s with
  | case1 s h =>
    rw [TokenSource.drain_of_eof (s := s) h]
    rfl
  | case2 s h ih =>
    rw [TokenSource.drain_of_ne_eof (s := s) h, List.map_cons, ih]
    rfl

/-- The end of the input stands behind the whole text. -/
theorem drain_last (s : Scanner) :
    (drain s).2 = Token.eof ⟨(s.offset + Text.byteLength s.rest).toUInt32, s.file⟩ := by
  fun_induction placed s with
  | case1 s h =>
    rw [TokenSource.drain_of_eof (s := s) h]
    exact (next_of_kind_eof h).2
  | case2 s h ih =>
    obtain ⟨gap, cs, hrest, hgap, hlexeme, hspan, hfile, hoffset⟩ := exists_gap_of_ne_eof h
    have hcs : cs = s.next.1.text.toList ++ s.next.2.rest := Lexeme.next?_append hlexeme
    have hbytes : s.offset + Text.byteLength s.rest =
        s.next.2.offset + Text.byteLength s.next.2.rest := by
      rw [hrest, hcs, Text.byteLength_append, Text.byteLength_append, hoffset]
      omega
    rw [TokenSource.drain_of_ne_eof (s := s) h, hbytes, ← hfile]
    exact ih

end Scanner

end MonkeyFrontEnd
