import MonkeyFrontEnd.Text.Unprintable

/-!
Quoted texts in messages.  A text stands between two equal quotation marks; inside, that mark and
the backslash are written after a backslash, five controls have a letter of their own, and a
character with no visible shape of its own is written by its code point in hexadecimal.  The other
quotation mark stays as it is, so a quoted character and a quoted string differ only in the mark.
-/

namespace MonkeyFrontEnd.Text

/-- The code point between braces, in lowercase hexadecimal without leading zeros. -/
def codePointEscape (c : Char) : List Char :=
  ['\\', 'u', '\x7b'] ++ Nat.toDigits 16 c.toNat ++ ['\x7d']

/-- One character as it stands between two quotation marks `mark`. -/
def escape (mark : Char) (c : Char) : List Char :=
  if c = '\x00' then ['\\', '0']
  else if c = '\t' then ['\\', 't']
  else if c = '\n' then ['\\', 'n']
  else if c = '\r' then ['\\', 'r']
  else if c = '\\' || c = mark then ['\\', c]
  else if isUnprintable c then codePointEscape c
  else [c]

/-- The characters between two quotation marks `mark`. -/
def quotedWith (mark : Char) (cs : List Char) : List Char := mark :: cs.flatMap (escape mark) ++ [mark]

def quotedString (s : String) : String := String.ofList (quotedWith '"' s.toList)

def quotedChars (s : String) : String := String.ofList (quotedWith '\'' s.toList)

end MonkeyFrontEnd.Text
