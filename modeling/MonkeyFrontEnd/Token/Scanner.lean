import MonkeyFrontEnd.Token.Lexeme
import MonkeyFrontEnd.Token.Source
import MonkeyFrontEnd.Text.Offset

/-!
The scanner: a text still to be read and the byte offset it starts at.  It gives one token for each
lexeme that has a kind and passes over the others; behind the last token it gives the end of the
input at the offset it has reached.
-/

namespace MonkeyFrontEnd

structure Scanner where
  rest : List Char
  offset : Nat
  file : String
  deriving DecidableEq, Repr

namespace Scanner

/-- The name of a source that was given none. -/
def defaultFile : String := "shell"

def ofChars (text : List Char) (file : String) : Scanner := ⟨text, 0, file⟩

def ofString (text : String) (file : String) : Scanner := ofChars text.toList file

/-- The place the scanner has reached; an offset of more than 32 bits keeps its low ones. -/
def position (s : Scanner) : Position := ⟨s.offset.toUInt32, s.file⟩

/-- The scanner behind a piece of the text. -/
def past (s : Scanner) (text rest : List Char) : Scanner :=
  { s with rest, offset := s.offset + Text.byteLength text }

/-- The token of the next lexeme with a kind, and the scanner behind it. -/
def next (s : Scanner) : Token × Scanner :=
  match _ : Lexeme.next? s.rest with
  | none => (Token.eof s.position, s)
  | some (lexeme, rest) =>
    let after := s.past lexeme.text rest
    match lexeme.kind with
    | some kind => (⟨kind, String.ofList lexeme.text, ⟨s.position, after.position⟩⟩, after)
    | none => after.next
termination_by s.rest.length
decreasing_by exact Lexeme.next?_length_lt (by assumption)

/-- At the end of the text the scanner gives the end of the input and stays. -/
theorem next_of_none {s : Scanner} (h : Lexeme.next? s.rest = none) :
    s.next = (Token.eof s.position, s) := by
  rw [next]
  split
  · rfl
  · next heq => rw [h] at heq; cases heq

/-- A lexeme with a kind is a token. -/
theorem next_of_kind {s : Scanner} {lexeme : Lexeme} {rest : List Char} {kind : Kind}
    (h : Lexeme.next? s.rest = some (lexeme, rest)) (hkind : lexeme.kind = some kind) :
    s.next = (⟨kind, String.ofList lexeme.text,
      ⟨s.position, (s.past lexeme.text rest).position⟩⟩, s.past lexeme.text rest) := by
  rw [next]
  split
  · next heq => rw [h] at heq; cases heq
  · next heq =>
    rw [h] at heq
    cases heq
    simp [hkind]

/-- A lexeme without a kind is passed over. -/
theorem next_of_skipped {s : Scanner} {lexeme : Lexeme} {rest : List Char}
    (h : Lexeme.next? s.rest = some (lexeme, rest)) (hkind : lexeme.kind = none) :
    s.next = (s.past lexeme.text rest).next := by
  rw [next]
  split
  · next heq => rw [h] at heq; cases heq
  · next heq =>
    rw [h] at heq
    cases heq
    simp [hkind]

/-- Reading a token takes a character at least. -/
theorem length_next_lt (s : Scanner) (h : s.next.1.kind ≠ .eof) :
    s.next.2.rest.length < s.rest.length := by
  fun_induction next s with
  | case1 s hnone => simp at h
  | case2 s lexeme rest hnext after kind hkind => exact Lexeme.next?_length_lt hnext
  | case3 s lexeme rest hnext after hkind ih => exact Nat.lt_trans (ih h) (Lexeme.next?_length_lt hnext)

/-- Once the scanner gives the end of the input, it stays there. -/
theorem next_of_eof (s : Scanner) (h : s.next.1.kind = .eof) : s.next.2.next = s.next := by
  fun_induction next s with
  | case1 s hnone => exact next_of_none hnone
  | case2 s lexeme rest hnext after kind hkind =>
    exact absurd (h ▸ hkind) (Lexeme.next?_kind_ne_eof hnext)
  | case3 s lexeme rest hnext after hkind ih => exact ih h

instance : TokenSource Scanner where
  next := next
  size s := s.rest.length
  size_next_lt := length_next_lt
  next_of_eof := next_of_eof
  offset? s := some s.offset

end Scanner

end MonkeyFrontEnd
