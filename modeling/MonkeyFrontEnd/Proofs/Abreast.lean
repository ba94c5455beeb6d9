import MonkeyFrontEnd.Proofs.StateMap
import Mathlib.Data.List.Forall2

/-!
Parsers over sources that go on alike. A source is what it gives: its tokens and then the end of the
input for ever (`TokenSource.take_eq`). A parser knows no more of it; so two parses whose sources give
like tokens, one for one, are in step from their first tokens to their last ones (`parse_abreast`).
-/

namespace MonkeyFrontEnd

open TokenSource (next take drain)

variable {σ τ : Type} [TokenSource σ] [TokenSource τ]

namespace TokenSource

/-- Pulling on and on gives the drained tokens, and behind them the end of the input every time. -/
theorem take_eq (s : σ) (n : Nat) :
    take s n = ((drain s).1 ++ List.replicate n (drain s).2).take n := by
  induction n generalizing s with
  | zero => rfl
  | succ n ih =>
    by_cases h : (next s).1.kind = .eof
    · rw [take_of_eof h, drain_of_eof h, List.nil_append, List.take_replicate, Nat.min_self]
    · rw [take, ih, drain_of_ne_eof h, List.cons_append, List.take_succ_cons]
      simp only [List.take_append, List.take_replicate]
      congr 3
      omega

end TokenSource

namespace Cursor

/-- The token that is current after so many moves. -/
def nth (c : Cursor σ) : Nat → Token
  | 0 => c.current
  | n + 1 => c.advance.nth n

theorem nth_succ (c : Cursor σ) (n : Nat) : c.nth (n + 1) = c.advance.nth n := rfl

/-- A cursor comes to the drained tokens, and then it stays on the end of the input. -/
theorem nth_start (s : σ) (n : Nat) : (start s).nth n = (drain s).1.getD n (drain s).2 := by
  induction n generalizing s with
  | zero =>
    by_cases h : (next s).1.kind = .eof
    · rw [TokenSource.drain_of_eof h]
      rfl
    · rw [TokenSource.drain_of_ne_eof h]
      rfl
  | succ n ih =>
    rw [nth_succ, advance_start, ih]
    by_cases h : (next s).1.kind = .eof
    · have hagain := TokenSource.next_of_eof s h
      rw [TokenSource.drain_of_eof h, TokenSource.drain_of_eof (by rw [hagain]; exact h), hagain]
      rfl
    · rw [TokenSource.drain_of_ne_eof h]
      rfl

end Cursor

/-- Two parsers abreast: however often both move on, they come to like tokens, and what they have
recorded is alike. -/
structure Parser.Abreast (like : Likeness) (p : Parser σ) (q : Parser τ) : Prop where
  nth : ∀ n, like.same (p.cursor.nth n) (q.cursor.nth n)
  diagnostics : List.Forall₂ like.Diagnostics p.diagnostics.toList q.diagnostics.toList

theorem lockstep_abreast (like : Likeness) :
    Lockstep like fun _ (p : Parser σ) (q : Parser τ) => p.Abreast like q where
  current h := h.nth 0
  peek h := h.nth 1
  advance h := ⟨fun n => h.nth (n + 1), h.diagnostics⟩
  record h hd := by
    refine ⟨h.nth, ?_⟩
    rw [Parser.diagnostics_record, Parser.diagnostics_record, Array.toList_push, Array.toList_push]
    exact List.rel_append h.diagnostics (.cons hd .nil)
  complete h _ := ⟨h.nth, h.diagnostics⟩
  enter h := ⟨h.nth, h.diagnostics⟩
  leave h := ⟨h.nth, h.diagnostics⟩

/-- Two sources that give like tokens are parsed alike, and the parsers stop abreast. -/
theorem parse_abreast {like : Likeness} {s : σ} {s' : τ}
    (h : ∀ n, like.same ((Cursor.start s).nth n) ((Cursor.start s').nth n)) :
    like.Programs (parse s).1 (parse s').1 ∧ (parse s).2.Abreast like (parse s').2 := by
  have hstart : (Parser.start s).Abreast like (Parser.start s') := ⟨h, .nil⟩
  rw [parse, parse, Parser.parseProgram, Parser.parseProgram, Grammar.run_program_expression rfl,
    Grammar.run_program_expression rfl]
  exact Grammar.alongside_program_expressionAt (lockstep_abreast like) Parser.nestingLimit 0 _ _
    hstart

end MonkeyFrontEnd
