import MonkeyFrontEnd.Proofs.Abreast
import MonkeyFrontEnd.Proofs.Lossless

/-!
Reading a text as its tokens are asked for, or holding its tokens ready, makes no difference. A lexer
to which nothing was pushed never fails, so it is a source of tokens as it stands (`Reader`); the
tokens drained from it, held ready, are given one for one, and parsing either gives the same program
and the same diagnostics and stops at the same tokens (`Lexer.exists_yields_sameParse`).
-/

namespace MonkeyFrontEnd

open TokenSource (drain)

/-- The next tokens of a lexer, as many as asked for. -/
def Lexer.take (l : Lexer) : Nat → Except Text.OffsetFault (List Token)
  | 0 => .ok []
  | n + 1 => do
    let (t, later) ← l.next
    let ts ← later.take n
    return t :: ts

/-- A lexer to which nothing was pushed, between two characters of its text, and the text it has not
read yet. -/
structure Reader where
  lexer : Lexer
  rest : List Char
  pending_eq : lexer.pending = []
  remainder_eq : lexer.remainder = .ok rest

namespace Reader

def ofString (text file : String) : Reader :=
  ⟨Lexer.ofString text file, text.toList, rfl, Text.dropBytes_zero _⟩

def scanner (r : Reader) : Scanner := r.lexer.scanner r.rest

def next (r : Reader) : Token × Reader :=
  (r.scanner.next.1,
    ⟨r.lexer.passed r.rest, r.scanner.next.2.rest, r.pending_eq,
      (Lexer.next_eq_ok r.pending_eq r.remainder_eq).2⟩)

/-- A reader gives what its lexer gives. -/
theorem lexer_next (r : Reader) : r.lexer.next = .ok (r.next.1, r.next.2.lexer) :=
  (Lexer.next_eq_ok r.pending_eq r.remainder_eq).1

theorem scanner_next (r : Reader) : r.next.2.scanner = r.scanner.next.2 :=
  Lexer.scanner_passed r.lexer r.rest

theorem eq_of_scanner_eq {r r' : Reader} (hsource : r.lexer.source = r'.lexer.source)
    (h : r.scanner = r'.scanner) : r = r' := by
  obtain ⟨⟨source, file, offset, pending⟩, rest, hpending, hrest⟩ := r
  obtain ⟨⟨source', file', offset', pending'⟩, rest', hpending', hrest'⟩ := r'
  cases hpending
  cases hpending'
  cases hsource
  cases h
  rfl

/-- Once a reader gives the end of the input, it stays there. -/
theorem next_of_eof (r : Reader) (h : r.next.1.kind = .eof) : r.next.2.next = r.next := by
  have hagain : r.next.2.scanner.next = r.scanner.next := by
    rw [scanner_next]
    exact r.scanner.next_of_eof h
  refine Prod.ext (congrArg (·.1) hagain) (eq_of_scanner_eq rfl ?_)
  rw [scanner_next, hagain, scanner_next]

instance : TokenSource Reader where
  next := next
  size r := r.rest.length
  size_next_lt r h := r.scanner.length_next_lt h
  next_of_eof := next_of_eof
  offset? r := some r.lexer.offset

/-- The lexer of a reader gives the tokens that the reader gives, and never fails. -/
theorem lexer_take (r : Reader) (n : Nat) : r.lexer.take n = .ok (TokenSource.take r n) := by
  induction n generalizing r with
  | zero => rfl
  | succ n ih =>
    rw [Lexer.take, lexer_next]
    change (do let ts ← r.next.2.lexer.take n; return r.next.1 :: ts) = _
    rw [ih]
    rfl

/-- A reader and its scanner give the same tokens. -/
theorem drain_scanner (r : Reader) : drain r.scanner = drain r := by
  fun_induction drain r with
  | case1 r h => exact TokenSource.drain_of_eof (s := r.scanner) h
  | case2 r h rest ih =>
    have hrest : drain r.scanner.next.2 = drain r.next.2 := by
      rw [← scanner_next]
      exact ih
    rw [TokenSource.drain_of_ne_eof (s := r.scanner) h]
    change (_ :: (drain r.scanner.next.2).1, (drain r.scanner.next.2).2) = _
    rw [hrest]
    rfl

theorem yields_drain (r : Reader) : r.lexer.Yields (drain r).1 (drain r).2 := by
  rw [← drain_scanner]
  exact Lexer.yields_drain r.pending_eq r.remainder_eq

end Reader

namespace ReadyTokens

/-- The tokens of a source, held ready, with anything behind its end. -/
theorem drain_ofList_drain {σ : Type} [TokenSource σ] (s : σ) (behind : List Token) :
    drain (ofList ((drain s).1 ++ (drain s).2 :: behind)) = drain s := by
  obtain ⟨hkinds, hlast⟩ := TokenSource.drain_kinds s
  rw [drain_eq, tokens_ofList_append hkinds (by exact hlast), last_ofList_append hkinds]
  have hisEof : isEof (drain s).2 = true := by simpa [isEof] using hlast
  refine Prod.ext rfl ?_
  simp [ofList, hisEof]

end ReadyTokens

/-- Two parses return the same program and the same diagnostics, and stop at the same tokens. -/
structure SameParse {σ τ : Type} [TokenSource σ] [TokenSource τ] (a : Program × Parser σ)
    (b : Program × Parser τ) : Prop where
  program : a.1 = b.1
  diagnostics : a.2.diagnostics = b.2.diagnostics
  current : a.2.current = b.2.current
  peek : a.2.peek = b.2.peek

/-- A source is known by its drained tokens. -/
theorem parse_of_drain_eq {σ τ : Type} [TokenSource σ] [TokenSource τ] {s : σ} {s' : τ}
    (h : drain s = drain s') : SameParse (parse s) (parse s') := by
  have hnth (n : Nat) : Likeness.equality.same ((Cursor.start s).nth n) ((Cursor.start s').nth n) := by
    change _ = _
    rw [Cursor.nth_start, Cursor.nth_start, h]
  obtain ⟨hprogram, habreast⟩ := parse_abreast hnth
  refine ⟨Likeness.programs_equality.1 hprogram, ?_, habreast.nth 0, habreast.nth 1⟩
  have hlists := habreast.diagnostics.imp fun _ _ => Likeness.diagnostics_equality
  exact Array.toList_inj.1 (List.forall₂_eq_eq_eq ▸ hlists)

namespace Lexer

/-- A fresh lexer gives its tokens up to the first end of the input, and that same end for ever.
Those tokens held ready, whatever stands behind their end, are given one for one; and whether a text
is parsed from a lexer, from a scanner or from its tokens held ready, the program with all its spans,
the diagnostics and the last two tokens are the same. -/
theorem exists_yields_sameParse (text file : String) (behind : List Token) :
    ∃ tokens last, (ofString text file).Yields tokens last ∧
      (∀ n, (ofString text file).take n = .ok ((tokens ++ List.replicate n last).take n)) ∧
      (∀ n, TokenSource.take (ReadyTokens.ofList (tokens ++ last :: behind)) n =
        (tokens ++ List.replicate n last).take n) ∧
      SameParse (parse (Reader.ofString text file)) (parseTokens (tokens ++ last :: behind)) ∧
      SameParse (parseText text file) (parseTokens (tokens ++ last :: behind)) := by
  have hready := ReadyTokens.drain_ofList_drain (Reader.ofString text file) behind
  have hscanner : drain (Scanner.ofString text file) = drain (Reader.ofString text file) :=
    Reader.drain_scanner (Reader.ofString text file)
  refine ⟨_, _, (Reader.ofString text file).yields_drain, fun n => ?_, fun n => ?_,
    parse_of_drain_eq hready.symm, parse_of_drain_eq (hscanner.trans hready.symm)⟩
  · rw [← TokenSource.take_eq]
    exact Reader.lexer_take (Reader.ofString text file) n
  · rw [TokenSource.take_eq, hready]

end Lexer

end MonkeyFrontEnd
