import MonkeyFrontEnd.Token.Source

/-!
Cursors: the token being parsed, one token of lookahead and the source of the tokens behind them.
A cursor never looks past the end of the input: once the lookahead is the end, the source gives it
again and again, and once the current token is the end, so is the lookahead.

`Cursor.left` bounds the moves that a cursor can still make; every move short of the end uses one.
-/

namespace MonkeyFrontEnd

open TokenSource (next size)

structure Cursor (σ : Type) [TokenSource σ] where
  current : Token
  peek : Token
  source : σ
  next_of_peek_eof : peek.kind = .eof → next source = (peek, source)
  peek_of_current_eof : current.kind = .eof → peek = current

namespace Cursor

variable {σ : Type} [TokenSource σ]

theorem next_again {s : σ} (h : (next s).1.kind = .eof) :
    next (next s).2 = ((next s).1, (next s).2) :=
  TokenSource.next_of_eof s h

/-- The cursor on the first token of a source. -/
def start (s : σ) : Cursor σ where
  current := (next s).1
  peek := (next (next s).2).1
  source := (next (next s).2).2
  next_of_peek_eof := next_again
  peek_of_current_eof h := by rw [next_again h]

/-- The cursor one token further on.  At the end of the input it stays there. -/
def advance (c : Cursor σ) : Cursor σ where
  current := c.peek
  peek := (next c.source).1
  source := (next c.source).2
  next_of_peek_eof := next_again
  peek_of_current_eof h := by rw [c.next_of_peek_eof h]

/-- A bound on the moves that are left until the end of the input is current; zero exactly there. -/
def left (c : Cursor σ) : Nat :=
  if c.current.kind = .eof then 0 else if c.peek.kind = .eof then 1 else 2 + size c.source

theorem left_eq_zero_iff {c : Cursor σ} : c.left = 0 ↔ c.current.kind = .eof := by
  unfold left
  split
  · simp [*]
  · split <;> simp [*]

/-- At the end of the input a move changes nothing. -/
theorem advance_of_eof {c : Cursor σ} (h : c.current.kind = .eof) : c.advance = c := by
  obtain ⟨current, peek, source, hsource, hpeek⟩ := c
  obtain rfl := hpeek h
  simp [advance, hsource h]

/-- Short of the end of the input a move brings the cursor nearer to it. -/
theorem left_advance_lt {c : Cursor σ} (h : c.current.kind ≠ .eof) : c.advance.left < c.left := by
  by_cases hpeek : c.peek.kind = .eof
  · simp [left, advance, h, hpeek]
  · by_cases hnext : (next c.source).1.kind = .eof
    · simp only [left, advance, h, hpeek, hnext, if_false, if_true]
      omega
    · have := TokenSource.size_next_lt c.source hnext
      simp only [left, advance, h, hpeek, hnext, if_false]
      omega

theorem left_advance_le (c : Cursor σ) : c.advance.left ≤ c.left := by
  by_cases h : c.current.kind = .eof
  · exact Nat.le_of_eq (by rw [advance_of_eof h])
  · exact Nat.le_of_lt (left_advance_lt h)

/-- Where the lookahead is not the end of the input, neither is the current token. -/
theorem current_ne_eof {c : Cursor σ} (h : c.peek.kind ≠ .eof) : c.current.kind ≠ .eof := by
  intro hcurrent
  rw [c.peek_of_current_eof hcurrent] at h
  exact h hcurrent

/-- The tokens from the current one on, up to the end of the input. -/
def tokens (c : Cursor σ) : List Token :=
  if _ : c.current.kind = .eof then [] else c.current :: c.advance.tokens
termination_by c.left
decreasing_by exact left_advance_lt (by assumption)

theorem tokens_of_eof {c : Cursor σ} (h : c.current.kind = .eof) : c.tokens = [] := by
  rw [tokens, dif_pos h]

theorem tokens_of_ne_eof {c : Cursor σ} (h : c.current.kind ≠ .eof) :
    c.tokens = c.current :: c.advance.tokens := by
  rw [tokens, dif_neg h]

/-- None of the tokens before the end is the end. -/
theorem kind_ne_eof_of_mem_tokens {c : Cursor σ} {t : Token} (ht : t ∈ c.tokens) : t.kind ≠ .eof := by
  fun_induction tokens c with
  | case1 c h => simp at ht
  | case2 c h ih =>
    rcases List.mem_cons.1 ht with rfl | ht
    · exact h
    · exact ih ht

/-- The lookahead is the token that a move makes current. -/
@[simp] theorem current_advance (c : Cursor σ) : c.advance.current = c.peek := rfl

end Cursor

end MonkeyFrontEnd
