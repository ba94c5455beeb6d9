/-!
Integer literals.  The beginning of the text chooses the base: `0x`, `0o` and `0b`, in either case,
name sixteen, eight and two, a further leading `0` means eight, and all else is decimal.  Digits and
letters are digits of their usual value, one underscore may stand before each of them, and the
value must fit a signed word of 64 bits.
-/

namespace MonkeyFrontEnd.IntegerLiteral

/-- The base that the beginning of a literal chooses, and the digits that follow it. -/
def split : List Char → Nat × List Char
  | '0' :: 'x' :: ds => (16, ds)
  | '0' :: 'X' :: ds => (16, ds)
  | '0' :: 'o' :: ds => (8, ds)
  | '0' :: 'O' :: ds => (8, ds)
  | '0' :: 'b' :: ds => (2, ds)
  | '0' :: 'B' :: ds => (2, ds)
  | '0' :: d :: ds => (8, d :: ds)
  | ds => (10, ds)

/-- The digits without the underscores before them.  An underscore at the end, or before another
underscore, is refused; `afterBar` says that one has just been read. -/
def dropBars (afterBar : Bool) : List Char → Option (List Char)
  | [] => if afterBar then none else some []
  | c :: cs =>
    if c = '_' then if afterBar then none else dropBars true cs
    else (dropBars false cs).map (c :: ·)

/-- The value of an ASCII digit or letter, letters counting on from ten in either case. -/
def digitValue? (c : Char) : Option Nat :=
  if c.isDigit then some (c.toNat - '0'.toNat)
  else if c.isLower then some (c.toNat - 'a'.toNat + 10)
  else if c.isUpper then some (c.toNat - 'A'.toNat + 10)
  else none

/-- The value of a digit of a base. -/
def digitIn? (base : Nat) (c : Char) : Option Nat := (digitValue? c).filter (· < base)

/-- The value of the digits of a number, the first being the highest. -/
def valueOf (base : Nat) (digits : List Nat) : Nat := digits.foldl (fun n d => n * base + d) 0

/-- The largest value of a literal. -/
def maximum : Nat := Nat.pow 2 63 - 1

/-- The value of digits without underscores, if they are digits of the base and not too many. -/
def readDigits (base : Nat) (cs : List Char) : Option Nat :=
  if cs.isEmpty then none
  else ((cs.mapM (digitIn? base)).map (valueOf base)).filter (· ≤ maximum)

def read (text : String) : Option Nat :=
  let (base, digits) := split text.toList
  (dropBars false digits).bind (readDigits base)

end MonkeyFrontEnd.IntegerLiteral
