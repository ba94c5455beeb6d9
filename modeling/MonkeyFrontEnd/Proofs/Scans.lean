import MonkeyFrontEnd.Proofs.Scanning

/-!
Reading a token slice by slice. A lexer that has nothing to give scans its text one lexeme at a
time: it slices off the text it has not read, then the lexeme from that, and a lexeme with a kind is
pushed as a token. `Lexer.scan` takes those slices, each of which may fail, and `Lexer.Pulls` says
that the loop over scans comes to its end, with every slice valid. From a place between two
characters it always does, and gives what `Lexer.next` gives (`Lexer.exists_pulls`).
-/

namespace MonkeyFrontEnd

namespace Text

/-- The characters before a byte offset. -/
def takeBytes : List Char → Nat → Except OffsetFault (List Char)
  | _, 0 => .ok []
  | [], _ + 1 => .error .pastEnd
  | c :: cs, n + 1 =>
    if c.utf8Size ≤ n + 1 then (takeBytes cs (n + 1 - c.utf8Size)).map (c :: ·)
    else .error .insideCharacter

@[simp] theorem takeBytes_zero (cs : List Char) : takeBytes cs 0 = .ok [] := by
  cases cs <;> rfl

/-- The bytes of a beginning of the text are that beginning. -/
theorem takeBytes_byteLength_append (cs rest : List Char) :
    takeBytes (cs ++ rest) (byteLength cs) = .ok cs := by
  induction cs with
  | nil => simp
  | cons c cs ih =>
    have hpos := c.utf8Size_pos
    obtain ⟨n, hn⟩ : ∃ n, c.utf8Size + byteLength cs = n + 1 := ⟨c.utf8Size + byteLength cs - 1, by omega⟩
    have hle : c.utf8Size ≤ n + 1 := by omega
    have hsub : n + 1 - c.utf8Size = byteLength cs := by omega
    simp [hn, takeBytes, hle, hsub, ih, Except.map]

end Text

namespace Lexer

open Text (OffsetFault)

/-- One scan: the next lexeme is sliced off the text, and its token, if it makes one, is pushed. -/
def scan (l : Lexer) : Except OffsetFault Lexer := do
  let rest ← l.remainder
  match Lexeme.next? rest with
  | none => return l
  | some (lexeme, _) =>
    let text ← Text.takeBytes rest (Text.byteLength lexeme.text)
    let after := { l with offset := l.offset + Text.byteLength text }
    match lexeme.kind with
    | some kind => return after.push ⟨kind, String.ofList text, ⟨l.position, after.position⟩⟩
    | none => return after

/-- Scanning goes on until there is a token to give or the text ends. No slice fails on the way. -/
inductive Pulls : Lexer → Token → Lexer → Prop
  | pending {l : Lexer} {t : Token} {ts : List Token} (h : l.pending = t :: ts) :
      Pulls l t { l with pending := ts }
  | last {l : Lexer} (h : l.pending = []) (hend : l.atEnd = true) : Pulls l (Token.eof l.position) l
  | scan {l m q : Lexer} {t : Token} (h : l.pending = []) (hend : l.atEnd = false)
      (hscan : l.scan = .ok m) (hlater : Pulls m t q) : Pulls l t q

variable {l : Lexer} {rest behind : List Char} {lexeme : Lexeme}

/-- Where nothing is left to read, the offset is at the end of the text. -/
theorem atEnd_iff (hrest : l.remainder = .ok rest) : l.atEnd = true ↔ rest = [] := by
  obtain ⟨before, hsource, hbefore⟩ := Text.exists_of_dropBytes hrest
  have hbytes : Text.byteLength l.source = l.offset + Text.byteLength rest := by
    rw [hsource, Text.byteLength_append, hbefore]
  have hlength := Text.length_le_byteLength rest
  rw [atEnd, decide_eq_true_iff, hbytes]
  constructor
  · intro hle
    exact List.eq_nil_of_length_eq_zero (by omega)
  · rintro rfl
    simp

/-- The lexer behind a lexeme, before anything is pushed. -/
def afterLexeme (l : Lexer) (lexeme : Lexeme) : Lexer :=
  { l with offset := l.offset + Text.byteLength lexeme.text }

theorem remainder_afterLexeme (hrest : l.remainder = .ok rest)
    (hnext : Lexeme.next? rest = some (lexeme, behind)) :
    (l.afterLexeme lexeme).remainder = .ok behind := by
  obtain ⟨before, hsource, hbefore⟩ := Text.exists_of_dropBytes hrest
  have hsplit : l.source = (before ++ lexeme.text) ++ behind := by
    rw [hsource, Lexeme.next?_append hnext, List.append_assoc]
  change Text.dropBytes l.source (l.offset + Text.byteLength lexeme.text) = _
  rw [hsplit, ← hbefore, ← Text.byteLength_append]
  exact Text.dropBytes_byteLength_append _ _

/-- What a scan does from a place between two characters: both slices are valid. -/
theorem scan_eq_ok (hrest : l.remainder = .ok rest)
    (hnext : Lexeme.next? rest = some (lexeme, behind)) :
    l.scan = .ok (match lexeme.kind with
      | some kind => (l.afterLexeme lexeme).push
          ⟨kind, String.ofList lexeme.text, ⟨l.position, (l.afterLexeme lexeme).position⟩⟩
      | none => l.afterLexeme lexeme) := by
  have htake : Text.takeBytes rest (Text.byteLength lexeme.text) = .ok lexeme.text := by
    rw [Lexeme.next?_append hnext]
    exact Text.takeBytes_byteLength_append _ _
  rw [scan, hrest]
  change (match Lexeme.next? rest with | none => _ | some (lexeme, _) => _) = _
  rw [hnext]
  change (Text.takeBytes rest (Text.byteLength lexeme.text) >>= _) = _
  rw [htake]
  change (match lexeme.kind with | some kind => _ | none => _) = _
  cases lexeme.kind <;> rfl

/-- Short of the end a scan succeeds, moves the offset on and comes to a place between two characters
again. -/
theorem exists_scan (hrest : l.remainder = .ok rest) (hend : l.atEnd = false) :
    ∃ m behind, l.scan = .ok m ∧ l.offset < m.offset ∧ m.remainder = .ok behind ∧
      behind.length < rest.length := by
  cases hnext : Lexeme.next? rest with
  | none =>
    have hnil := (atEnd_iff hrest).2 (Lexeme.next?_eq_none_iff.1 hnext)
    simp [hnil] at hend
  | some found =>
    obtain ⟨lexeme, behind⟩ := found
    have hpos := List.length_pos_iff.2 (Lexeme.next?_text_ne_nil hnext)
    have hbytes := Text.length_le_byteLength lexeme.text
    have hlt : l.offset < l.offset + Text.byteLength lexeme.text := by omega
    have hremainder := remainder_afterLexeme hrest hnext
    refine ⟨_, behind, scan_eq_ok hrest hnext, ?_, ?_, Lexeme.next?_length_lt hnext⟩
    · cases lexeme.kind <;> exact hlt
    · cases lexeme.kind <;> exact hremainder

/-- From a place between two characters the next token comes after finitely many scans, and is the
one that `next` gives. The lexer is between two characters again. -/
theorem exists_pulls (hrest : l.remainder = .ok rest) :
    ∃ t q, l.Pulls t q ∧ l.next = .ok (t, q) ∧ ∃ later, q.remainder = .ok later := by
  induction hlength : rest.length using Nat.strongRecOn generalizing l rest with
  | ind n ih =>
    subst hlength
    cases hpending : l.pending with
    | cons t ts => exact ⟨t, _, .pending hpending, next_of_pending hpending, rest, hrest⟩
    | nil =>
      have hread := (next_of_pending_nil hpending).trans (read_of_remainder hrest)
      cases hnext : Lexeme.next? rest with
      | none =>
        have hend := (atEnd_iff hrest).2 (Lexeme.next?_eq_none_iff.1 hnext)
        refine ⟨_, l, .last hpending hend, ?_, rest, hrest⟩
        rw [hread, Scanner.next_of_none hnext]
        rfl
      | some found =>
        obtain ⟨lexeme, behind⟩ := found
        have hne : rest ≠ [] := by
          rintro rfl
          simp [Lexeme.next?] at hnext
        have hend : l.atEnd = false := by
          rw [← Bool.not_eq_true, atEnd_iff hrest]
          exact hne
        have hscan := scan_eq_ok hrest hnext
        have hremainder := remainder_afterLexeme hrest hnext
        cases hkind : lexeme.kind with
        | some kind =>
          -- The token that was scanned is the only one pushed, so it is given at once.
          rw [hkind] at hscan
          let token : Token :=
            ⟨kind, String.ofList lexeme.text, ⟨l.position, (l.afterLexeme lexeme).position⟩⟩
          have hpushed : ((l.afterLexeme lexeme).push token).pending = token :: [] := by
            rw [push, afterLexeme, hpending]
            rfl
          refine ⟨_, _, .scan hpending hend hscan (.pending hpushed), ?_, behind, hremainder⟩
          rw [hread, Scanner.next_of_kind hnext hkind, ← hpending]
          rfl
        | none =>
          rw [hkind] at hscan
          obtain ⟨t, q, hpulls, hlater, hplace⟩ :=
            ih _ (Lexeme.next?_length_lt hnext) hremainder rfl
          refine ⟨t, q, .scan hpending hend hscan hpulls, ?_, hplace⟩
          have hread' := (next_of_pending_nil (l := l.afterLexeme lexeme) hpending).trans
            (read_of_remainder hremainder)
          rw [← hlater, hread', hread, Scanner.next_of_skipped hnext hkind]
          rfl

/-! ## Calls -/

/-- What a caller may ask of a lexer, short of moving its offset. -/
inductive Call where
  | next
  | push (t : Token)
  | current
  | remainder
  | atEnd
  deriving DecidableEq, Repr

/-- A call is carried out and leaves a lexer behind. No slice that it takes fails. -/
inductive Answers : Lexer → Call → Lexer → Prop
  | next {l q : Lexer} {t : Token} (h : l.Pulls t q) : Answers l .next q
  | push (l : Lexer) (t : Token) : Answers l (.push t) (l.push t)
  | current {l : Lexer} {c : Option Char} (h : l.current? = .ok c) : Answers l .current l
  | remainder {l : Lexer} {rest : List Char} (h : l.remainder = .ok rest) : Answers l .remainder l
  | atEnd (l : Lexer) : Answers l .atEnd l

/-- The calls are carried out one after the other. -/
inductive Performs : Lexer → List Call → Lexer → Prop
  | nil (l : Lexer) : Performs l [] l
  | cons {l m q : Lexer} {call : Call} {calls : List Call} (h : l.Answers call m)
      (hlater : Performs m calls q) : Performs l (call :: calls) q

/-- Between two characters every call is carried out, and the lexer is between two characters again. -/
theorem exists_answers (hrest : l.remainder = .ok rest) (call : Call) :
    ∃ q, l.Answers call q ∧ ∃ later, q.remainder = .ok later := by
  cases call with
  | next =>
    obtain ⟨t, q, hpulls, -, hplace⟩ := exists_pulls hrest
    exact ⟨q, .next hpulls, hplace⟩
  | push t => exact ⟨_, .push l t, rest, hrest⟩
  | current =>
    have hcurrent : l.current? = .ok rest.head? := by
      rw [current?, hrest]
      rfl
    exact ⟨l, .current hcurrent, rest, hrest⟩
  | remainder => exact ⟨l, .remainder hrest, rest, hrest⟩
  | atEnd => exact ⟨l, .atEnd l, rest, hrest⟩

theorem exists_performs (hrest : l.remainder = .ok rest) (calls : List Call) :
    ∃ q, l.Performs calls q ∧ ∃ later, q.remainder = .ok later := by
  induction calls generalizing l rest with
  | nil => exact ⟨l, .nil l, rest, hrest⟩
  | cons call calls ih =>
    obtain ⟨m, hanswers, later, hlater⟩ := exists_answers hrest call
    obtain ⟨q, hperforms, hplace⟩ := ih hlater
    exact ⟨q, .cons hanswers hperforms, hplace⟩

end Lexer

end MonkeyFrontEnd
