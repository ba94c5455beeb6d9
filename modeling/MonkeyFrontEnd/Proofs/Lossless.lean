import MonkeyFrontEnd.Proofs.Layout
import MonkeyFrontEnd.Token.Listing

/-!
Reading loses nothing. The tokens of a text, the illegal ones included, stand in it one after the
other at the places that their spans say and as their literals say, and between them there is nothing
but trivia (`Scanner.lossless_ofString`). A lexer gives exactly these tokens, one at a time, and never
stops between them (`Lexer.yields_drain`).
-/

namespace MonkeyFrontEnd

/-- The offset of the first byte of a token. -/
def Token.startOffset (t : Token) : Nat := t.span.start.offset.toNat

/-- The offset behind the last byte of a token. -/
def Token.stopOffset (t : Token) : Nat := t.span.stop.offset.toNat

/-- In the text `piece` stands between two byte offsets, and `behind` follows it. -/
def Text.Between (text : List Char) (start stop : Nat) (piece behind : List Char) : Prop :=
  ∃ before, text = before ++ (piece ++ behind) ∧ byteLength before = start ∧
    byteLength (before ++ piece) = stop

/-- The tokens of a text from an offset on, and the end of the input behind them. -/
structure Lossless (text : List Char) (file : String) (offset : Nat) (tokens : List Token)
    (last : Token) : Prop where
  file_eq : ∀ t ∈ tokens, t.span.start.file = file ∧ t.span.stop.file = file
  kind_ne_eof : ∀ t ∈ tokens, t.kind ≠ .eof
  starts : ∀ t ∈ tokens, offset ≤ t.startOffset
  nonempty : ∀ t ∈ tokens, t.startOffset < t.stopOffset
  /-- The spans are in order and have no byte in common. -/
  disjoint : tokens.Pairwise fun t u => t.stopOffset ≤ u.startOffset
  /-- The literal of a token is the text of its span, whose ends are between characters. -/
  literal : ∀ t ∈ tokens, ∃ behind,
    Text.Between text t.startOffset t.stopOffset t.text.toList behind
  /-- Before the first token, between two tokens and behind the last one there are only trivia. -/
  gaps : ∀ between ∈ (offset :: tokens.map Token.stopOffset).zip
      (tokens.map Token.startOffset ++ [Text.byteLength text]),
    ∃ gap behind, Text.Between text between.1 between.2 gap behind ∧ IsTrivia behind gap
  last_eq : last = Token.eof ⟨(Text.byteLength text).toUInt32, file⟩
  last_offset : last.startOffset = Text.byteLength text

/-- One more token in front, behind trivia. -/
theorem Lossless.cons {text before gap behind : List Char} {file : String} {t last : Token}
    {tokens : List Token} (htext : text = before ++ (gap ++ (t.text.toList ++ behind)))
    (hgap : IsTrivia (t.text.toList ++ behind) gap) (hne : t.text.toList ≠ [])
    (hkind : t.kind ≠ .eof) (hfile : t.span.start.file = file ∧ t.span.stop.file = file)
    (hstart : t.startOffset = Text.byteLength (before ++ gap))
    (hstop : t.stopOffset = Text.byteLength (before ++ gap ++ t.text.toList))
    (h : Lossless text file t.stopOffset tokens last) :
    Lossless text file (Text.byteLength before) (t :: tokens) last := by
  have hbefore : Text.byteLength before ≤ t.startOffset := by
    rw [hstart, Text.byteLength_append]
    omega
  have hlt : t.startOffset < t.stopOffset := by
    have hlength := List.length_pos_iff.2 hne
    have hbytes := Text.length_le_byteLength t.text.toList
    rw [hstart, hstop, Text.byteLength_append (before ++ gap)]
    omega
  constructor
  case file_eq => exact List.forall_mem_cons.2 ⟨hfile, h.file_eq⟩
  case kind_ne_eof => exact List.forall_mem_cons.2 ⟨hkind, h.kind_ne_eof⟩
  case starts =>
    refine List.forall_mem_cons.2 ⟨hbefore, fun u hu => ?_⟩
    have := h.starts u hu
    omega
  case nonempty => exact List.forall_mem_cons.2 ⟨hlt, h.nonempty⟩
  case disjoint => exact List.pairwise_cons.2 ⟨h.starts, h.disjoint⟩
  case literal =>
    refine List.forall_mem_cons.2 ⟨⟨behind, before ++ gap, ?_, hstart.symm, hstop.symm⟩, h.literal⟩
    rw [htext, List.append_assoc]
  case gaps =>
    refine List.forall_mem_cons.2 ⟨⟨gap, _, ⟨before, htext, rfl, hstart.symm⟩, hgap⟩, h.gaps⟩
  case last_eq => exact h.last_eq
  case last_offset => exact h.last_offset

/-- What lies in the text one behind the other is lossless, where all offsets have 32 bits. -/
theorem Placed.lossless {text before cs : List Char} {file : String} {offset : Nat}
    {placed : List (Token × Nat)} (h : Placed file offset cs placed)
    (hbound : Text.byteLength text < UInt32.size) (htext : text = before ++ cs)
    (hoffset : offset = Text.byteLength before) :
    Lossless text file offset (placed.map (·.1))
      (Token.eof ⟨(Text.byteLength text).toUInt32, file⟩) := by
  induction h generalizing before with
  | @nil offset gap hgap =>
    constructor
    case gaps =>
      intro between hbetween
      obtain rfl : between = (offset, Text.byteLength text) := by simpa using hbetween
      exact ⟨gap, [], ⟨before, by simpa using htext, hoffset.symm, by rw [htext]⟩, hgap⟩
    case last_eq => rfl
    case last_offset => exact Nat.mod_eq_of_lt hbound
    all_goals simp
  | @cons offset gap cs behind t rest hgap hlexeme hstart hstop hrest ih =>
    have hcs : cs = t.text.toList ++ behind := Lexeme.next?_append hlexeme
    subst hoffset hcs
    have hbytes := congrArg Text.byteLength htext
    simp only [Text.byteLength_append] at hbytes
    have hbegin : t.startOffset = Text.byteLength (before ++ gap) := by
      rw [Token.startOffset, hstart, Text.byteLength_append]
      exact Nat.mod_eq_of_lt (Nat.lt_of_le_of_lt (by omega) hbound)
    have hend : t.stopOffset = Text.byteLength (before ++ gap ++ t.text.toList) := by
      rw [Token.stopOffset, hstop, Text.byteLength_append, Text.byteLength_append]
      exact Nat.mod_eq_of_lt (Nat.lt_of_le_of_lt (by omega) hbound)
    have hfile : t.span.start.file = file ∧ t.span.stop.file = file := by
      rw [hstart, hstop]
      exact ⟨rfl, rfl⟩
    have hkind : t.kind ≠ .eof := by
      intro heof
      exact Lexeme.next?_kind_ne_eof hlexeme (congrArg some heof)
    have hsplit : text = before ++ gap ++ t.text.toList ++ behind := by simpa using htext
    have hlater := ih hsplit (by simp [Nat.add_assoc])
    rw [← Text.byteLength_append, ← Text.byteLength_append, ← hend] at hlater
    exact Lossless.cons htext hgap (Lexeme.next?_text_ne_nil hlexeme) hkind hfile hbegin hend hlater

/-- The tokens of a text, from its start on. -/
theorem Scanner.lossless_ofString {text : String} (file : String)
    (h : Text.byteLength text.toList < UInt32.size) :
    Lossless text.toList file 0 (TokenSource.drain (ofString text file)).1
      (TokenSource.drain (ofString text file)).2 := by
  have hlossless := (ofString text file).isPlaced_placed.lossless h
    (show text.toList = [] ++ text.toList from rfl) rfl
  have hend : (ofString text file).offset + Text.byteLength (ofString text file).rest =
      Text.byteLength text.toList := Nat.zero_add _
  rw [← map_fst_placed, drain_last, hend]
  exact hlossless

namespace Lexer

/-- Asked for its next token again and again, the lexer gives these tokens and then the end of the
input, and every call succeeds. -/
inductive Yields : Lexer → List Token → Token → Prop
  | last {l l' : Lexer} {t : Token} (h : l.next = .ok (t, l')) (ht : t.kind = .eof) : Yields l [] t
  | token {l l' : Lexer} {t last : Token} {tokens : List Token} (h : l.next = .ok (t, l'))
      (ht : t.kind ≠ .eof) (hlater : Yields l' tokens last) : Yields l (t :: tokens) last

/-- A lexer to which nothing was pushed gives the tokens of a scanner on the rest of its text. -/
theorem yields_drain {l : Lexer} {rest : List Char} (hpending : l.pending = [])
    (hrest : l.remainder = .ok rest) :
    l.Yields (TokenSource.drain (l.scanner rest)).1 (TokenSource.drain (l.scanner rest)).2 := by
  induction hlength : rest.length using Nat.strongRecOn generalizing l rest with
  | ind n ih =>
    subst hlength
    obtain ⟨hnext, hremainder⟩ := next_eq_ok hpending hrest
    by_cases heof : (TokenSource.next (l.scanner rest)).1.kind = .eof
    · rw [TokenSource.drain_of_eof heof]
      exact .last hnext heof
    · rw [TokenSource.drain_of_ne_eof heof]
      refine .token hnext heof ?_
      have hlater := ih _ (Scanner.length_next_lt _ heof) (l := l.passed rest) hpending hremainder rfl
      rw [scanner_passed] at hlater
      exact hlater

/-- Every lexer on a text of less than four gibibytes comes to the end of the input, and the tokens
it has given until then are the text but for blanks and comments. -/
theorem exists_yields_lossless {text : String} (file : String)
    (h : Text.byteLength text.toList < UInt32.size) :
    ∃ tokens last, (ofString text file).Yields tokens last ∧
      Lossless text.toList file 0 tokens last :=
  ⟨_, _, yields_drain (l := ofString text file) rfl (Text.dropBytes_zero _),
    Scanner.lossless_ofString file h⟩

/-- A text with a comment, blanks and characters of several bytes, one of them illegal. -/
theorem exists_yields_lossless_mixed :
    Text.byteLength "été // é\n\u2003= 07_x".toList < UInt32.size ∧
    ∃ tokens last, (ofString "été // é\n\u2003= 07_x" "notes").Yields tokens last ∧
      Lossless "été // é\n\u2003= 07_x".toList "notes" 0 tokens last := by
  have h : Text.byteLength "été // é\n\u2003= 07_x".toList < UInt32.size := by decide
  exact ⟨h, exists_yields_lossless "notes" h⟩

end Lexer

end MonkeyFrontEnd
