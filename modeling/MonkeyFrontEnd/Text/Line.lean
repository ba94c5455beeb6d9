import MonkeyFrontEnd.Text.Offset
import MonkeyFrontEnd.Text.Pieces

/-!
Lines of a text and the line of a byte offset.  A line keeps the newline that ends it, so the lines
of a text, one after the other, are the text; a text that ends in a newline has no further empty
line.  The offset just behind the text belongs to the last line.
-/

namespace MonkeyFrontEnd.Text

/-- The lines of a text, each with the newline that ends it. -/
def lines (cs : List Char) : List (List Char) := pieces '\n' cs

/-- Nothing is lost or added by cutting a text into lines. -/
theorem flatten_lines (cs : List Char) : (lines cs).flatten = cs := flatten_pieces '\n' cs

/-- A place in a text: the number of its line, counted from one, that line, and the bytes of the
line before the place. -/
structure Place where
  number : Nat
  line : List Char
  column : Nat
  deriving DecidableEq, Repr

/-- The place `offset` bytes behind the start of the first of some lines, whose number is given. -/
def placeIn (number : Nat) : List (List Char) → Nat → Option Place
  | [], offset => if offset = 0 then some ⟨number, [], 0⟩ else none
  | [last], offset => if offset ≤ byteLength last then some ⟨number, last, offset⟩ else none
  | line :: next :: rest, offset =>
    if offset < byteLength line then some ⟨number, line, offset⟩
    else placeIn (number + 1) (next :: rest) (offset - byteLength line)

/-- The place of a byte offset, none if the offset lies past the end of the text. -/
def placeOf (text : List Char) (offset : Nat) : Option Place := placeIn 1 (lines text) offset

/-- The place of an offset exists exactly up to the end of the lines. -/
theorem placeIn_isSome_iff (ls : List (List Char)) (number offset : Nat) :
    (placeIn number ls offset).isSome ↔ offset ≤ byteLength ls.flatten := by
  fun_induction placeIn number ls offset with
  | case1 => simp_all
  | case2 => simp_all
  | case3 => simp_all
  | case4 => simp_all
  | case5 number line next rest offset h => simp; omega
  | case6 number line next rest offset h ih => simp_all; omega

theorem placeOf_isSome_iff (text : List Char) (offset : Nat) :
    (placeOf text offset).isSome ↔ offset ≤ byteLength text := by
  rw [placeOf, placeIn_isSome_iff, flatten_lines]

end MonkeyFrontEnd.Text
