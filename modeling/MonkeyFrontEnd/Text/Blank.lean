import MonkeyFrontEnd.Text.CodeRange

/-!
Blank characters: the Unicode property White_Space in full, not the six ASCII blanks alone.
The scanner skips these characters, and a printed source line is trimmed of them on its right.
-/

namespace MonkeyFrontEnd.Text

/-- The 25 code points with the property White_Space. -/
def blankRanges : List CodeRange :=
  [⟨0x09, 0x0D⟩, ⟨0x20, 0x20⟩, ⟨0x85, 0x85⟩, ⟨0xA0, 0xA0⟩, ⟨0x1680, 0x1680⟩, ⟨0x2000, 0x200A⟩,
   ⟨0x2028, 0x2029⟩, ⟨0x202F, 0x202F⟩, ⟨0x205F, 0x205F⟩, ⟨0x3000, 0x3000⟩]

def isBlank (c : Char) : Bool := inRanges blankRanges c

/-- Drop the blanks at the end. -/
def trimEnd (cs : List Char) : List Char := (cs.reverse.dropWhile isBlank).reverse

end MonkeyFrontEnd.Text
