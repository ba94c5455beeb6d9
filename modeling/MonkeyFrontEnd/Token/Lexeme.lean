import MonkeyFrontEnd.Text.Blank
import MonkeyFrontEnd.Kind

/-!
Lexemes: the pieces in which a text is read.  The rules of the language are tried in order on
the remaining text and the first that applies takes its piece; a character to which no rule applies
is a lexeme of its own, of kind `illegal`.  Blank runs and comments are lexemes without a kind.

A lexeme and the text behind it are together the text that was read (`Lexeme.next?_append`), and a
lexeme is never empty (`Lexeme.next?_text_ne_nil`).
-/

namespace MonkeyFrontEnd

/-- Words are ASCII only. -/
def isWordStart (c : Char) : Bool := c.isAlpha || c = '_'

def isWordPart (c : Char) : Bool := c.isAlphanum || c = '_'

/-- A beginning of the text that starts with one class of characters and goes on with another,
as far as it goes, and what follows it. -/
def takeRun (start part : Char → Bool) : List Char → Option (List Char × List Char)
  | [] => none
  | c :: cs => if start c then some (c :: cs.takeWhile part, cs.dropWhile part) else none

/-- What follows a given beginning of the text. -/
def afterStart : List Char → List Char → Option (List Char)
  | [], cs => some cs
  | _ :: _, [] => none
  | m :: ms, c :: cs => if m = c then afterStart ms cs else none

theorem takeRun_append {start part : Char → Bool} {cs taken rest : List Char}
    (h : takeRun start part cs = some (taken, rest)) : cs = taken ++ rest ∧ taken ≠ [] := by
  cases cs with
  | nil => simp [takeRun] at h
  | cons c cs =>
    by_cases hc : start c = true
    · simp only [takeRun, hc, if_true, Option.some.injEq, Prod.mk.injEq] at h
      obtain ⟨rfl, rfl⟩ := h
      simp
    · simp [takeRun, hc] at h

theorem afterStart_eq_some_iff {ms cs rest : List Char} :
    afterStart ms cs = some rest ↔ cs = ms ++ rest := by
  induction ms generalizing cs with
  | nil => simp [afterStart]
  | cons m ms ih =>
    cases cs with
    | nil => simp [afterStart]
    | cons c cs =>
      by_cases h : m = c
      · simp [afterStart, h, ih]
      · simp [afterStart, h, Ne.symm h]

/-- The classes of lexemes. -/
inductive Rule where
  /-- A letter or underscore, then letters, digits and underscores. -/
  | word
  /-- A digit, then digits, letters and underscores; whether it is a number is decided later. -/
  | number
  | blanks
  /-- Two slashes and all up to the end of the line. -/
  | comment
  /-- One operator or delimiter. -/
  | mark (text : List Char) (kind : Kind)
  deriving DecidableEq, Repr

namespace Rule

/-- The piece that a rule takes from the text, and the text behind it. -/
def take : Rule → List Char → Option (List Char × List Char)
  | word, cs => takeRun isWordStart isWordPart cs
  | number, cs => takeRun Char.isDigit isWordPart cs
  | blanks, cs => takeRun Text.isBlank Text.isBlank cs
  | comment, cs => (afterStart ['/', '/'] cs).map fun rest =>
      ('/' :: '/' :: rest.takeWhile (· ≠ '\n'), rest.dropWhile (· ≠ '\n'))
  | mark text _, cs => (afterStart text cs).map fun rest => (text, rest)

/-- The kind of a token that a rule makes of its piece; blanks and comments make none. -/
def kindOf : Rule → List Char → Option Kind
  | word, text => some (Kind.ofWord (String.ofList text))
  | number, _ => some .integer
  | blanks, _ => none
  | comment, _ => none
  | mark _ kind, _ => some kind

/-- The rules in the order in which they are tried.  Marks of two characters stand before the
marks that begin them, and comments before the slash. -/
def ordered : List Rule :=
  [word, number, blanks, comment,
   mark ['\x7b'] .openCurly, mark ['\x7d'] .closeCurly, mark ['('] .openParen,
   mark [')'] .closeParen, mark ['=', '='] .equal, mark ['!', '='] .notEqual, mark ['!'] .bang,
   mark ['='] .assign, mark ['<', '='] .lessEqual, mark ['<'] .less, mark ['>', '='] .greaterEqual,
   mark ['>'] .greater, mark [';'] .semicolon, mark [','] .comma, mark ['+'] .plus,
   mark ['-'] .minus, mark ['/'] .slash, mark ['*'] .star]

/-- A mark has a text and is not the end of the input. -/
def isSound : Rule → Bool
  | mark text kind => !text.isEmpty && kind ≠ .eof
  | _ => true

theorem isSound_of_mem_ordered : ∀ r ∈ ordered, r.isSound = true := by decide

theorem take_append {r : Rule} (hr : r ∈ ordered) {cs taken rest : List Char}
    (h : r.take cs = some (taken, rest)) : cs = taken ++ rest ∧ taken ≠ [] := by
  cases r with
  | word => exact takeRun_append h
  | number => exact takeRun_append h
  | blanks => exact takeRun_append h
  | comment =>
    simp only [take, Option.map_eq_some_iff, Prod.mk.injEq] at h
    obtain ⟨tail, htail, rfl, rfl⟩ := h
    rw [afterStart_eq_some_iff.1 htail]
    simp
  | mark text kind =>
    simp only [take, Option.map_eq_some_iff, Prod.mk.injEq] at h
    obtain ⟨tail, htail, rfl, rfl⟩ := h
    have hsound := isSound_of_mem_ordered _ hr
    simp only [isSound, Bool.and_eq_true, Bool.not_eq_true', List.isEmpty_eq_false_iff] at hsound
    exact ⟨afterStart_eq_some_iff.1 htail, hsound.1⟩

theorem kindOf_ne_eof {r : Rule} (hr : r ∈ ordered) (text : List Char) : r.kindOf text ≠ some .eof := by
  cases r with
  | word => simpa [kindOf] using Kind.ofWord_ne_eof _
  | number => simp [kindOf]
  | blanks => simp [kindOf]
  | comment => simp [kindOf]
  | mark text kind =>
    have hsound := isSound_of_mem_ordered _ hr
    simp only [isSound, Bool.and_eq_true, decide_eq_true_eq] at hsound
    simpa [kindOf] using hsound.2

end Rule

/-- A piece of text and the kind of token it makes, none for blanks and comments. -/
structure Lexeme where
  kind : Option Kind
  text : List Char
  deriving DecidableEq, Repr

namespace Lexeme

/-- The lexeme of the first rule that applies, and the text behind it. -/
def ofRules (rules : List Rule) (cs : List Char) : Option (Lexeme × List Char) :=
  rules.findSome? fun r => (r.take cs).map fun (text, rest) => (⟨r.kindOf text, text⟩, rest)

/-- The next lexeme of a text that is not empty, and the text behind it. -/
def next? : List Char → Option (Lexeme × List Char)
  | [] => none
  | c :: cs => some ((ofRules Rule.ordered (c :: cs)).getD (⟨some .illegal, [c]⟩, cs))

theorem exists_of_ofRules {rules : List Rule} {cs rest : List Char} {lexeme : Lexeme}
    (h : ofRules rules cs = some (lexeme, rest)) :
    ∃ r ∈ rules, r.take cs = some (lexeme.text, rest) ∧ lexeme.kind = r.kindOf lexeme.text := by
  obtain ⟨r, hr, htake⟩ := List.exists_of_findSome?_eq_some h
  simp only [Option.map_eq_some_iff, Prod.mk.injEq, Prod.exists] at htake
  obtain ⟨text, tail, htake, rfl, rfl⟩ := htake
  exact ⟨r, hr, htake, rfl⟩

theorem next?_append {cs rest : List Char} {lexeme : Lexeme} (h : next? cs = some (lexeme, rest)) :
    cs = lexeme.text ++ rest := by
  cases cs with
  | nil => simp [next?] at h
  | cons c cs =>
    simp only [next?, Option.some.injEq] at h
    cases hrules : ofRules Rule.ordered (c :: cs) with
    | none =>
      rw [hrules] at h
      cases h
      rfl
    | some found =>
      rw [hrules] at h
      cases h
      obtain ⟨r, hr, htake, -⟩ := exists_of_ofRules hrules
      exact (Rule.take_append hr htake).1

theorem next?_text_ne_nil {cs rest : List Char} {lexeme : Lexeme}
    (h : next? cs = some (lexeme, rest)) : lexeme.text ≠ [] := by
  cases cs with
  | nil => simp [next?] at h
  | cons c cs =>
    simp only [next?, Option.some.injEq] at h
    cases hrules : ofRules Rule.ordered (c :: cs) with
    | none =>
      rw [hrules] at h
      cases h
      simp
    | some found =>
      rw [hrules] at h
      cases h
      obtain ⟨r, hr, htake, -⟩ := exists_of_ofRules hrules
      exact (Rule.take_append hr htake).2

theorem next?_kind_ne_eof {cs rest : List Char} {lexeme : Lexeme}
    (h : next? cs = some (lexeme, rest)) : lexeme.kind ≠ some .eof := by
  cases cs with
  | nil => simp [next?] at h
  | cons c cs =>
    simp only [next?, Option.some.injEq] at h
    cases hrules : ofRules Rule.ordered (c :: cs) with
    | none =>
      rw [hrules] at h
      cases h
      simp
    | some found =>
      rw [hrules] at h
      cases h
      obtain ⟨r, hr, -, hkind⟩ := exists_of_ofRules hrules
      rw [hkind]
      exact Rule.kindOf_ne_eof hr _

theorem next?_length_lt {cs rest : List Char} {lexeme : Lexeme}
    (h : next? cs = some (lexeme, rest)) : rest.length < cs.length := by
  have happend := next?_append h
  have hpos := List.length_pos_iff.2 (next?_text_ne_nil h)
  rw [happend, List.length_append]
  omega

end Lexeme

end MonkeyFrontEnd
