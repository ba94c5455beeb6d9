/-!
Byte offsets into a text.  A text is a list of characters, and an offset counts the bytes of its
UTF-8 form, so an offset may fall inside a character or past the end of the text; `dropBytes`
reports both instead of guessing.
-/

namespace MonkeyFrontEnd.Text

/-- The number of bytes that the characters take in UTF-8. -/
def byteLength (cs : List Char) : Nat := cs.foldr (fun c n => c.utf8Size + n) 0

@[simp] theorem byteLength_nil : byteLength [] = 0 := rfl

@[simp] theorem byteLength_cons (c : Char) (cs : List Char) :
    byteLength (c :: cs) = c.utf8Size + byteLength cs := rfl

@[simp] theorem byteLength_append (cs ds : List Char) :
    byteLength (cs ++ ds) = byteLength cs + byteLength ds := by
  induction cs with
  | nil => simp
  | cons c cs ih => simp [ih, Nat.add_assoc]

/-- Every character takes a byte at least, so only the empty text takes none. -/
theorem length_le_byteLength (cs : List Char) : cs.length ≤ byteLength cs := by
  induction cs with
  | nil => simp
  | cons c cs ih =>
    have := c.utf8Size_pos
    simp only [List.length_cons, byteLength_cons]
    omega

/-- Why an offset names no place between two characters of a text. -/
inductive OffsetFault where
  | insideCharacter
  | pastEnd
  deriving DecidableEq, Repr

/-- The characters from a byte offset on. -/
def dropBytes : List Char → Nat → Except OffsetFault (List Char)
  | cs, 0 => .ok cs
  | [], _ + 1 => .error .pastEnd
  | c :: cs, n + 1 =>
    if c.utf8Size ≤ n + 1 then dropBytes cs (n + 1 - c.utf8Size) else .error .insideCharacter

@[simp] theorem dropBytes_zero (cs : List Char) : dropBytes cs 0 = .ok cs := by
  cases cs <;> rfl

/-- Dropping the bytes of a beginning of the text leaves the rest of the text. -/
theorem dropBytes_byteLength_append (cs rest : List Char) :
    dropBytes (cs ++ rest) (byteLength cs) = .ok rest := by
  induction cs with
  | nil => simp
  | cons c cs ih =>
    have hpos := c.utf8Size_pos
    obtain ⟨n, hn⟩ : ∃ n, c.utf8Size + byteLength cs = n + 1 := ⟨c.utf8Size + byteLength cs - 1, by omega⟩
    have hle : c.utf8Size ≤ n + 1 := by omega
    have hsub : n + 1 - c.utf8Size = byteLength cs := by omega
    simp [hn, dropBytes, hle, hsub, ih]

/-- What is left after dropping bytes follows a beginning of exactly that many bytes. -/
theorem exists_of_dropBytes {cs rest : List Char} {n : Nat} (h : dropBytes cs n = .ok rest) :
    ∃ before, cs = before ++ rest ∧ byteLength before = n := by
  induction cs generalizing n with
  | nil =>
    cases n with
    | zero => exact ⟨[], by simpa [dropBytes] using h, rfl⟩
    | succ n => simp [dropBytes] at h
  | cons c cs ih =>
    cases n with
    | zero => exact ⟨[], by simpa [dropBytes] using h, rfl⟩
    | succ n =>
      by_cases hle : c.utf8Size ≤ n + 1
      · rw [dropBytes, if_pos hle] at h
        obtain ⟨before, rfl, hlen⟩ := ih h
        exact ⟨c :: before, rfl, by simp [hlen]; omega⟩
      · simp [dropBytes, hle] at h

end MonkeyFrontEnd.Text
