import MonkeyFrontEnd.Proofs.Interchange
import MonkeyFrontEnd.Proofs.Reports
import MonkeyFrontEnd.Proofs.Scans

/-!
Nothing that a text can hold makes a slice fail. Offsets count bytes, so a slice that begins or ends
inside a character, or behind the end, has no answer. Here the lexer and the reader of integers are
taken slice by slice: each slice is valid, and what comes out is what the definitions without slices
say. The slices of a report are valid as well (`Diagnostic.report_ne_slice`).
-/

namespace MonkeyFrontEnd

namespace Text

theorem exists_of_takeBytes {cs taken : List Char} {n : Nat} (h : takeBytes cs n = .ok taken) :
    ∃ rest, cs = taken ++ rest := by
  induction cs generalizing n taken with
  | nil =>
    cases n with
    | zero => exact ⟨[], by simpa [takeBytes] using h⟩
    | succ n => simp [takeBytes] at h
  | cons c cs ih =>
    cases n with
    | zero =>
      obtain rfl : [] = taken := by simpa [takeBytes] using h
      exact ⟨c :: cs, rfl⟩
    | succ n =>
      by_cases hle : c.utf8Size ≤ n + 1
      · rw [takeBytes, if_pos hle] at h
        cases hinner : takeBytes cs (n + 1 - c.utf8Size) with
        | error fault =>
          rw [hinner] at h
          cases h
        | ok later =>
          rw [hinner] at h
          cases h
          obtain ⟨rest, rfl⟩ := ih hinner
          exact ⟨rest, rfl⟩
      · simp [takeBytes, hle] at h

end Text

open Text (OffsetFault)

/-! ## Integers -/

namespace IntegerLiteral

/-- The base of a literal and its digits. The first two bytes are looked at if they can be sliced off,
and a prefix of the base is sliced off the digits. -/
def splitSliced (cs : List Char) : Except OffsetFault (Nat × List Char) :=
  match (Text.takeBytes cs 2).toOption with
  | some ['0', 'x'] | some ['0', 'X'] => (Text.dropBytes cs 2).map (16, ·)
  | some ['0', 'o'] | some ['0', 'O'] => (Text.dropBytes cs 2).map (8, ·)
  | some ['0', 'b'] | some ['0', 'B'] => (Text.dropBytes cs 2).map (2, ·)
  | _ =>
    if 1 < Text.byteLength cs ∧ cs.head? = some '0' then (Text.dropBytes cs 1).map (8, ·)
    else .ok (10, cs)

def readSliced (text : String) : Except OffsetFault (Option Nat) :=
  (splitSliced text.toList).map fun (base, digits) =>
    (dropBars false digits).bind (readDigits base)

/-- Behind a first zero only the letters of a prefix choose another base than eight. -/
theorem split_of_not_letter {c : Char} {ds : List Char} (hc : c ∉ ['x', 'X', 'o', 'O', 'b', 'B']) :
    split ('0' :: c :: ds) = (8, c :: ds) := by
  simp only [List.mem_cons, List.not_mem_nil, or_false, not_or] at hc
  obtain ⟨hx, hX, ho, hO, hb, hB⟩ := hc
  unfold split
  split <;> simp_all

theorem split_of_not_zero {cs : List Char} (h : ∀ c ds, cs ≠ '0' :: c :: ds) : split cs = (10, cs) := by
  unfold split
  split
  all_goals first
    | rfl
    | exact absurd rfl (h _ _)

/-- A zero and a letter are two bytes. -/
theorem slices_of_zero_cons {letter : Char} (hletter : letter.utf8Size = 1) (ds : List Char) :
    Text.takeBytes ('0' :: letter :: ds) 2 = .ok ['0', letter] ∧
      Text.dropBytes ('0' :: letter :: ds) 2 = .ok ds := by
  have hbytes : Text.byteLength ['0', letter] = 2 := by
    rw [Text.byteLength_cons, Text.byteLength_cons, hletter]
    rfl
  rw [← hbytes]
  exact ⟨Text.takeBytes_byteLength_append ['0', letter] ds,
    Text.dropBytes_byteLength_append ['0', letter] ds⟩

theorem splitSliced_eq (cs : List Char) : splitSliced cs = .ok (split cs) := by
  have hbegins {taken : List Char} (h : (Text.takeBytes cs 2).toOption = some taken) :
      ∃ ds, cs = taken ++ ds := by
    cases htake : Text.takeBytes cs 2 with
    | error fault => rw [htake] at h; cases h
    | ok text =>
      rw [htake] at h
      cases h
      exact Text.exists_of_takeBytes htake
  have hdigits (base : Nat) {letter : Char} (hletter : letter.utf8Size = 1) (ds : List Char) :
      (Text.dropBytes ('0' :: letter :: ds) 2).map (base, ·) = .ok (base, ds) :=
    congrArg (Except.map (base, ·)) (slices_of_zero_cons hletter ds).2
  unfold splitSliced
  split
  · next h => obtain ⟨ds, rfl⟩ := hbegins h; exact hdigits 16 rfl ds
  · next h => obtain ⟨ds, rfl⟩ := hbegins h; exact hdigits 16 rfl ds
  · next h => obtain ⟨ds, rfl⟩ := hbegins h; exact hdigits 8 rfl ds
  · next h => obtain ⟨ds, rfl⟩ := hbegins h; exact hdigits 8 rfl ds
  · next h => obtain ⟨ds, rfl⟩ := hbegins h; exact hdigits 2 rfl ds
  · next h => obtain ⟨ds, rfl⟩ := hbegins h; exact hdigits 2 rfl ds
  · next hx hX ho hO hb hB =>
    by_cases hzero : ∃ c ds, cs = '0' :: c :: ds
    · obtain ⟨c, ds, rfl⟩ := hzero
      have hlength : 1 < Text.byteLength ('0' :: c :: ds) := by
        have := c.utf8Size_pos
        rw [Text.byteLength_cons, Text.byteLength_cons, show '0'.utf8Size = 1 from rfl]
        omega
      have hopens {letter : Char} (hletter : letter.utf8Size = 1) :
          (Text.takeBytes ('0' :: letter :: ds) 2).toOption = some ['0', letter] :=
        congrArg Except.toOption (slices_of_zero_cons hletter ds).1
      have hc : c ∉ ['x', 'X', 'o', 'O', 'b', 'B'] := by
        intro hc
        simp only [List.mem_cons, List.not_mem_nil, or_false] at hc
        rcases hc with rfl | rfl | rfl | rfl | rfl | rfl
        · exact hx (hopens rfl)
        · exact hX (hopens rfl)
        · exact ho (hopens rfl)
        · exact hO (hopens rfl)
        · exact hb (hopens rfl)
        · exact hB (hopens rfl)
      rw [if_pos ⟨hlength, rfl⟩, split_of_not_letter hc]
      exact congrArg (Except.map (8, ·)) (Text.dropBytes_byteLength_append ['0'] (c :: ds))
    · rw [if_neg, split_of_not_zero fun c ds h => hzero ⟨c, ds, h⟩]
      rintro ⟨hlength, hhead⟩
      rcases cs with _ | ⟨zero, _ | ⟨c, ds⟩⟩
      · simp at hhead
      · obtain rfl : zero = '0' := by simpa using hhead
        exact absurd hlength (by decide)
      · obtain rfl : zero = '0' := by simpa using hhead
        exact hzero ⟨c, ds, rfl⟩

theorem readSliced_eq (text : String) : readSliced text = .ok (read text) := by
  rw [readSliced, splitSliced_eq]
  rfl

end IntegerLiteral

/-! ## The whole run -/

namespace Lexer

theorem Performs.append {l m q : Lexer} {calls later : List Call} (h : l.Performs calls m)
    (hlater : m.Performs later q) : l.Performs (calls ++ later) q := by
  induction h with
  | nil => exact hlater
  | cons h _ ih => exact .cons h (ih hlater)

end Lexer

namespace Reader

/-- A reader asks its lexer for the next token, and no slice fails. -/
theorem answers_next (r : Reader) : r.lexer.Answers .next r.next.2.lexer := by
  obtain ⟨t, q, hpulls, hnext, -⟩ := Lexer.exists_pulls r.remainder_eq
  rw [r.lexer_next] at hnext
  cases hnext
  exact .next hpulls

/-- Wherever a cursor comes, its reader has been asked for a number of tokens, and no slice failed. -/
theorem exists_performs_of_reaches {r : Reader} {c : Cursor Reader} (h : (Cursor.start r).Reaches c) :
    ∃ n, r.lexer.Performs (List.replicate n .next) c.source.lexer := by
  induction h with
  | here => exact ⟨2, .cons r.answers_next (.cons r.next.2.answers_next (.nil _))⟩
  | @onward d _ ih =>
    obtain ⟨n, hn⟩ := ih
    refine ⟨n + 1, ?_⟩
    rw [List.replicate_succ']
    exact hn.append (.cons d.source.answers_next (.nil _))

end Reader

/-- No text makes a slice fail, whatever characters are in it. A lexer carries out every sequence of
calls, and stands between two characters afterwards; the calls that a parser makes are among them.
Every text is read as an integer, or refused, without a bad slice. No report of a diagnostic fails at a
slice, and every diagnostic of a parse is reported, if each line of the source with its newline has less
than 65535 bytes. -/
theorem performs_readSliced_report (text file : String) :
    (∀ calls : List Lexer.Call, ∃ q, (Lexer.ofString text file).Performs calls q ∧
      ∃ before later, q.source = before ++ later ∧ q.offset = Text.byteLength before) ∧
    (∃ n, (Lexer.ofString text file).Performs (List.replicate n .next)
      (parse (Reader.ofString text file)).2.cursor.source.lexer) ∧
    SameParse (parse (Reader.ofString text file)) (parseText text file) ∧
    (∀ literal : String,
      IntegerLiteral.readSliced literal = .ok (IntegerLiteral.read literal)) ∧
    (∀ d ∈ (parseText text file).2.diagnostics, ∀ fault, d.report text ≠ .error (.slice fault)) ∧
    ((∀ line ∈ Text.lines text.toList, Text.byteLength line < 65535) →
      ∀ d ∈ (parseText text file).2.diagnostics, ∃ shown, d.report text = .ok shown) := by
  have hremainder : (Lexer.ofString text file).remainder = .ok text.toList := Text.dropBytes_zero _
  refine ⟨fun calls => ?_, ?_, ?_, IntegerLiteral.readSliced_eq, fun d _ => d.report_ne_slice text,
    fun hlines d _ => d.exists_report_iff.2 (d.fits_of_lines hlines)⟩
  · obtain ⟨q, hperforms, later, hlater⟩ := Lexer.exists_performs hremainder calls
    obtain ⟨before, hsource, hbefore⟩ := Text.exists_of_dropBytes hlater
    exact ⟨q, hperforms, before, later, hsource, hbefore.symm⟩
  · have hframe := Grammar.framed_program Grammar.framed_expression
      (Parser.start (Reader.ofString text file))
    exact Reader.exists_performs_of_reaches hframe.cursor
  · exact parse_of_drain_eq (Reader.drain_scanner (Reader.ofString text file)).symm

/-- Two short lines with characters of several bytes, an illegal one and a statement without an end. -/
def accentedText : String := "  let été = 0x;\n\u2003(ü"

theorem performs_readSliced_report_accentedText :
    (∀ line ∈ Text.lines accentedText.toList, Text.byteLength line < 65535) ∧
    ∀ d ∈ (parseText accentedText "notes").2.diagnostics, ∃ shown, d.report accentedText = .ok shown := by
  have h : ∀ line ∈ Text.lines accentedText.toList, Text.byteLength line < 65535 := by decide
  exact ⟨h, (performs_readSliced_report accentedText "notes").2.2.2.2.2 h⟩

end MonkeyFrontEnd
