import MonkeyFrontEnd.Token.Scanner

/-!
A lexer over one text that callers may steer: they push tokens, which are given before anything
more is read, and they move the offset, which may leave it inside a character or past the end of
the text.  Reading the text there fails with an `OffsetFault`; giving a pushed token never does.
-/

namespace MonkeyFrontEnd

structure Lexer where
  source : List Char
  file : String
  /-- The byte at which reading goes on. -/
  offset : Nat
  /-- The pushed tokens that were not given yet, the first to be given first. -/
  pending : List Token
  deriving DecidableEq, Repr

namespace Lexer

open Text (OffsetFault)

def ofString (text : String) (file : String) : Lexer := ⟨text.toList, file, 0, []⟩

/-- Offsets are machine words: one that passes the largest starts again from zero. -/
def offsetBound : Nat := Nat.pow 2 64

/-- Move the offset on, to whatever place that may be. -/
def advance (l : Lexer) (bytes : Nat) : Lexer := { l with offset := (l.offset + bytes) % offsetBound }

def push (l : Lexer) (t : Token) : Lexer := { l with pending := l.pending ++ [t] }

/-- The text that was not read yet. -/
def remainder (l : Lexer) : Except OffsetFault (List Char) := Text.dropBytes l.source l.offset

/-- The character at the offset, none at the end of the text. -/
def current? (l : Lexer) : Except OffsetFault (Option Char) := l.remainder.map (·.head?)

def atEnd (l : Lexer) : Bool := Text.byteLength l.source ≤ l.offset

def position (l : Lexer) : Position := ⟨l.offset.toUInt32, l.file⟩

/-- Give the next token by reading the text. -/
def read (l : Lexer) : Except OffsetFault (Token × Lexer) :=
  match l.remainder with
  | .ok rest =>
    let (token, scanner) := Scanner.next ⟨rest, l.offset, l.file⟩
    .ok (token, { l with offset := scanner.offset })
  | .error .pastEnd => .ok (Token.eof l.position, l)
  | .error .insideCharacter => .error .insideCharacter

/-- The next token: a pushed one if there is any, else the next one of the text. -/
def next (l : Lexer) : Except OffsetFault (Token × Lexer) :=
  match l.pending with
  | t :: ts => .ok (t, { l with pending := ts })
  | [] => l.read

theorem next_of_pending {l : Lexer} {t : Token} {ts : List Token} (h : l.pending = t :: ts) :
    l.next = .ok (t, { l with pending := ts }) := by
  rw [next, h]

theorem next_of_pending_nil {l : Lexer} (h : l.pending = []) : l.next = l.read := by
  rw [next, h]

/-- Reading goes on like a scanner on the text that was not read yet. -/
theorem read_of_remainder {l : Lexer} {rest : List Char} (h : l.remainder = .ok rest) :
    l.read = .ok ((Scanner.next ⟨rest, l.offset, l.file⟩).1,
      { l with offset := (Scanner.next ⟨rest, l.offset, l.file⟩).2.offset }) := by
  rw [read, h]

end Lexer

end MonkeyFrontEnd
