import MonkeyFrontEnd.Parser.Cursor
import MonkeyFrontEnd.Parser.Event
import MonkeyFrontEnd.Text.Offset

/-!
The state of a parser: its cursor, the number of expressions it is inside of, the diagnostics
recorded so far and the log of its events.
-/

namespace MonkeyFrontEnd

structure Parser (σ : Type) [TokenSource σ] where
  cursor : Cursor σ
  /-- The expressions being built, the innermost included. -/
  depth : Nat
  diagnostics : Array Diagnostic
  events : Array Event

namespace Parser

variable {σ : Type} [TokenSource σ]

/-- The most expressions that may stand inside one another. -/
def nestingLimit : Nat := 64

/-- The event that pulling a token from a source gives rise to.  A source that reads a text meets
an illegal character where that character begins, and has then come to the byte behind it. -/
def announced? (pulled : Token × σ) : Option Event :=
  match TokenSource.offset? pulled.2 with
  | some stop =>
    if pulled.1.kind = .illegal then
      some (.illegal pulled.1 (stop - Text.byteLength pulled.1.text.toList))
    else none
  | none => none

/-- The events with the one that pulling a token gives rise to. -/
def announce (events : Array Event) (pulled : Token × σ) : Array Event :=
  match announced? pulled with
  | some event => events.push event
  | none => events

/-- Only illegal characters are announced. -/
theorem announced?_of_ne_illegal {pulled : Token × σ} (h : pulled.1.kind ≠ .illegal) :
    announced? pulled = none := by
  unfold announced?
  split
  · rw [if_neg h]
  · rfl

theorem toList_announce (events : Array Event) (pulled : Token × σ) :
    (announce events pulled).toList = events.toList ++ (announced? pulled).toList := by
  unfold announce
  cases announced? pulled <;> simp

/-- A parser on the first token of a source. -/
def start (s : σ) : Parser σ :=
  let cursor := Cursor.start s
  { cursor, depth := 0, diagnostics := #[]
    events := announce (announce #[] (TokenSource.next s)) (cursor.peek, cursor.source) }

def current (p : Parser σ) : Token := p.cursor.current

def peek (p : Parser σ) : Token := p.cursor.peek

/-- The position of the current token. -/
def position (p : Parser σ) : Position := p.current.span.start

/-- The moves that the cursor can still make, or more. -/
def left (p : Parser σ) : Nat := p.cursor.left

/-- Move one token on.  The token that enters the lookahead is announced. -/
def advance (p : Parser σ) : Parser σ :=
  let cursor := p.cursor.advance
  { p with cursor, events := announce p.events (cursor.peek, cursor.source) }

/-- Add a diagnostic without interrupting the parse. -/
def record (p : Parser σ) (d : Diagnostic) : Parser σ :=
  { p with diagnostics := p.diagnostics.push d, events := p.events.push (.failed d) }

/-- Add the event of a completed statement. -/
def complete (p : Parser σ) (s : Stmt) : Parser σ := { p with events := p.events.push (.parsed s) }

def tooDeep (p : Parser σ) : Diagnostic := ⟨.tooDeep nestingLimit, p.position⟩

/-- Enter one more expression, if the limit allows it. -/
def enter (p : Parser σ) : Except Diagnostic (Parser σ) :=
  if p.depth < nestingLimit then .ok { p with depth := p.depth + 1 } else .error p.tooDeep

/-- Leave an expression; outside of every expression nothing is left. -/
def leave (p : Parser σ) : Parser σ := { p with depth := p.depth - 1 }

/-- The expressions that can still be entered inside one another. -/
def room (p : Parser σ) : Nat := nestingLimit - p.depth

theorem left_advance_lt {p : Parser σ} (h : p.current.kind ≠ .eof) : p.advance.left < p.left :=
  Cursor.left_advance_lt h

theorem left_advance_le (p : Parser σ) : p.advance.left ≤ p.left := Cursor.left_advance_le p.cursor

@[simp] theorem left_record (p : Parser σ) (d : Diagnostic) : (p.record d).left = p.left := rfl

@[simp] theorem left_complete (p : Parser σ) (s : Stmt) : (p.complete s).left = p.left := rfl

@[simp] theorem left_leave (p : Parser σ) : p.leave.left = p.left := rfl

theorem left_eq_zero_iff {p : Parser σ} : p.left = 0 ↔ p.current.kind = .eof := Cursor.left_eq_zero_iff

/-- Give up all tokens that are left. -/
def skipToEnd (p : Parser σ) : Parser σ :=
  if _ : p.current.kind = .eof then p else p.advance.skipToEnd
termination_by p.left
decreasing_by exact left_advance_lt (by assumption)

theorem left_skipToEnd (p : Parser σ) : p.skipToEnd.left = 0 := by
  fun_induction skipToEnd p with
  | case1 p h => exact left_eq_zero_iff.2 h
  | case2 p h ih => exact ih

end Parser

end MonkeyFrontEnd
