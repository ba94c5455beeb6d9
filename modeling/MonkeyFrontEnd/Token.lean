import MonkeyFrontEnd.Kind

/-!
Tokens: a kind, the text that was read, and the span it was read from.  Positions are 32 bits wide;
a longer offset keeps its low 32 bits.
-/

namespace MonkeyFrontEnd

/-- A byte offset into a named source. -/
structure Position where
  offset : UInt32
  file : String
  deriving DecidableEq, Repr

/-- The position of something that was read from no source. -/
def Position.null : Position := ⟨0, "<null>"⟩

structure Span where
  start : Position
  stop : Position
  deriving DecidableEq, Repr

structure Token where
  kind : Kind
  text : String
  span : Span
  deriving DecidableEq, Repr

namespace Token

/-- The end of the input at a position: no text, no width. -/
def eof (position : Position) : Token := ⟨.eof, "", ⟨position, position⟩⟩

@[simp] theorem eof_kind (position : Position) : (eof position).kind = .eof := rfl

/-- A token as a session prints it. -/
def display (t : Token) : String := "\x7bType:" ++ t.kind.name ++ " Literal:" ++ t.text ++ "\x7d"

end Token

end MonkeyFrontEnd
