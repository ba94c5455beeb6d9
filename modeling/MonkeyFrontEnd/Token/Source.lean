import MonkeyFrontEnd.Token

/-!
Sources of tokens.  A parser pulls its tokens one at a time from a source, which may read them from
a text as they are asked for or hold them ready.  Every source ends: it counts down a `size` while
it gives tokens, and once it gives the end of the input it gives that same token for ever.
-/

namespace MonkeyFrontEnd

class TokenSource (σ : Type) where
  /-- The next token and the source behind it. -/
  next : σ → Token × σ
  /-- A bound on the number of tokens before the end of the input. -/
  size : σ → Nat
  size_next_lt : ∀ s, (next s).1.kind ≠ .eof → size (next s).2 < size s
  next_of_eof : ∀ s, (next s).1.kind = .eof → next (next s).2 = next s
  /-- The byte that a source which reads a text has come to.  A source that holds its tokens ready
  has read nothing and has come nowhere. -/
  offset? : σ → Option Nat

namespace TokenSource

variable {σ : Type} [TokenSource σ]

/-- The first tokens of a source, as many as asked for. -/
def take (s : σ) : Nat → List Token
  | 0 => []
  | n + 1 => (next s).1 :: take (next s).2 n

/-- All tokens of a source before the end of the input, and the token of that end. -/
def drain (s : σ) : List Token × Token :=
  if _ : (next s).1.kind = .eof then ([], (next s).1)
  else
    let rest := drain (next s).2
    ((next s).1 :: rest.1, rest.2)
termination_by size s
decreasing_by exact size_next_lt s (by assumption)

theorem drain_of_eof {s : σ} (h : (next s).1.kind = .eof) : drain s = ([], (next s).1) := by
  rw [drain, dif_pos h]

theorem drain_of_ne_eof {s : σ} (h : (next s).1.kind ≠ .eof) :
    drain s = ((next s).1 :: (drain (next s).2).1, (drain (next s).2).2) := by
  rw [drain, dif_neg h]

/-- The drained tokens are not the end of the input, and the token behind them is. -/
theorem drain_kinds (s : σ) : (∀ t ∈ (drain s).1, t.kind ≠ .eof) ∧ (drain s).2.kind = .eof := by
  fun_induction drain s with
  | case1 s h => exact ⟨by simp, h⟩
  | case2 s h rest ih =>
    refine ⟨fun t ht => ?_, ih.2⟩
    rcases List.mem_cons.1 ht with rfl | ht
    · exact h
    · exact ih.1 t ht

/-- At the end of the input a source gives that one token, however often it is asked. -/
theorem take_of_eof {s : σ} (h : (next s).1.kind = .eof) (n : Nat) :
    take s n = List.replicate n (next s).1 := by
  induction n generalizing s with
  | zero => rfl
  | succ n ih =>
    have hnext : next (next s).2 = next s := next_of_eof s h
    have hagain : (next (next s).2).1.kind = .eof := by rw [hnext]; exact h
    rw [take, ih hagain, hnext, List.replicate_succ]

end TokenSource

end MonkeyFrontEnd
