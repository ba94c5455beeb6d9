import MonkeyFrontEnd.Token.Source

/-!
Tokens held ready.  A list of tokens is cut at its first end of input; a list without one ends at
the null position.
-/

namespace MonkeyFrontEnd

/-- Tokens, none of which is the end of the input, and the token that ends them. -/
structure ReadyTokens where
  tokens : List Token
  last : Token
  tokens_kind : ∀ t ∈ tokens, t.kind ≠ .eof
  last_kind : last.kind = .eof

namespace ReadyTokens

def isEof (t : Token) : Bool := t.kind = .eof

def ofList (ts : List Token) : ReadyTokens where
  tokens := ts.takeWhile (!isEof ·)
  last := (ts.find? isEof).getD (Token.eof Position.null)
  tokens_kind := by
    intro t ht
    simpa [isEof] using List.all_eq_true.1 List.all_takeWhile t ht
  last_kind := by
    cases h : ts.find? isEof with
    | none => rfl
    | some t => simpa [isEof] using List.find?_some h

def next (s : ReadyTokens) : Token × ReadyTokens :=
  match s with
  | ⟨[], last, _, hlast⟩ => (last, ⟨[], last, by simp, hlast⟩)
  | ⟨t :: ts, last, hts, hlast⟩ => (t, ⟨ts, last, fun u hu => hts u (List.mem_cons_of_mem t hu), hlast⟩)

instance : TokenSource ReadyTokens where
  next := next
  size s := s.tokens.length
  size_next_lt := by
    rintro ⟨tokens, last, htokens, hlast⟩ h
    cases tokens with
    | nil => exact absurd hlast h
    | cons t ts => simp [next]
  next_of_eof := by
    rintro ⟨tokens, last, htokens, hlast⟩ h
    cases tokens with
    | nil => rfl
    | cons t ts => exact absurd h (htokens t (List.mem_cons_self ..))
  offset? _ := none

/-- Draining ready tokens gives them back. -/
theorem drain_eq (s : ReadyTokens) : TokenSource.drain s = (s.tokens, s.last) := by
  obtain ⟨tokens, last, htokens, hlast⟩ := s
  induction tokens with
  | nil => exact TokenSource.drain_of_eof hlast
  | cons t ts ih =>
    rw [TokenSource.drain_of_ne_eof (htokens t (List.mem_cons_self ..))]
    have hrest := ih fun u hu => htokens u (List.mem_cons_of_mem t hu)
    simp only [TokenSource.next, next, hrest]

end ReadyTokens

end MonkeyFrontEnd
