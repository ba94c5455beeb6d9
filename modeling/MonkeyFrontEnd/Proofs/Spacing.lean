import MonkeyFrontEnd.Proofs.Separation
import MonkeyFrontEnd.Token.Listing
import Mathlib.Data.List.Chain

/-!
Tokens laid out in a text. Between two tokens there may stand any blanks and comments, or nothing at
all if the two do not run together there. However tokens are laid out, the text is read as these
tokens again, with the end of the input behind them (`Spaced.AreApart.tokenize_text`).
-/

namespace MonkeyFrontEnd

open TokenSource (drain)

/-! ## What is passed over -/

/-- Characters that may stand in front of any token: blanks, and comments with the newline that ends
each of them. -/
inductive IsSeparator : List Char → Prop
  | nil : IsSeparator []
  | blank {c : Char} {gap : List Char} (hc : Text.isBlank c = true) (hgap : IsSeparator gap) :
      IsSeparator (c :: gap)
  | comment {body gap : List Char} (hbody : '\n' ∉ body) (hgap : IsSeparator gap) :
      IsSeparator ('/' :: '/' :: (body ++ '\n' :: gap))

theorem IsSeparator.isTrivia {gap : List Char} (h : IsSeparator gap) (behind : List Char) :
    IsTrivia behind gap := by
  induction h with
  | nil => exact .nil
  | blank hc _ ih => exact .blank hc ih
  | comment hbody _ ih =>
    refine .comment hbody (fun c hc => ?_) (.blank (by decide) ih)
    simpa using hc.symm

section

variable {cs gap behind : List Char}

namespace Scanner

/-- A run of blanks is passed over, however long it is. -/
theorem drain_blanks_append {run rest : List Char} (hrun : ∀ c ∈ run, Text.isBlank c = true)
    (hrest : ∀ c, rest.head? = some c → Text.isBlank c = false) (offset : Nat) (file : String) :
    drain (⟨run ++ rest, offset, file⟩ : Scanner) =
      drain (⟨rest, offset + Text.byteLength run, file⟩ : Scanner) := by
  cases run with
  | nil => rfl
  | cons c run =>
    have haccepts : Rule.blanks.accepts (c :: run) = true := by
      simpa [Rule.accepts, isRun] using hrun
    have hnext := Lexeme.next?_of_accepts (r := .blanks) (by decide) haccepts hrest
    exact drain_of_skipped (s := ⟨c :: run ++ rest, offset, file⟩) hnext rfl

/-- A blank in front of a text is passed over, also where the text goes on with blanks. -/
theorem drain_blank_cons {c : Char} (hc : Text.isBlank c = true) (offset : Nat) (file : String) :
    drain (⟨c :: cs, offset, file⟩ : Scanner) =
      drain (⟨cs, offset + c.utf8Size, file⟩ : Scanner) := by
  have hsplit : cs.takeWhile Text.isBlank ++ cs.dropWhile Text.isBlank = cs :=
    List.takeWhile_append_dropWhile
  have hrun : ∀ d ∈ cs.takeWhile Text.isBlank, Text.isBlank d = true :=
    List.all_eq_true.1 List.all_takeWhile
  have hrest : ∀ d, (cs.dropWhile Text.isBlank).head? = some d → Text.isBlank d = false := by
    intro d hd
    simpa [hd] using List.head?_dropWhile_not Text.isBlank cs
  have hlong := drain_blanks_append (List.forall_mem_cons.2 ⟨hc, hrun⟩) hrest offset file
  have hshort := drain_blanks_append hrun hrest (offset + c.utf8Size) file
  rw [List.cons_append, hsplit, Text.byteLength_cons, ← Nat.add_assoc] at hlong
  rw [hsplit] at hshort
  exact hlong.trans hshort.symm

/-- Trivia make no tokens. -/
theorem drain_trivia_append (h : IsTrivia behind gap) (offset : Nat) (file : String) :
    drain (⟨gap ++ behind, offset, file⟩ : Scanner) =
      drain (⟨behind, offset + Text.byteLength gap, file⟩ : Scanner) := by
  induction h generalizing offset with
  | nil => rfl
  | blank hc _ ih =>
    refine (drain_blank_cons hc offset file).trans ((ih _).trans ?_)
    rw [Text.byteLength_cons, Nat.add_assoc]
  | @comment body gap hbody hend _ ih =>
    have hstops : ∀ c, (gap ++ behind).head? = some c → Rule.comment.continues c = false := by
      intro c hc
      simp [Rule.continues, hend c hc]
    have hnext := Lexeme.next?_of_accepts (by decide) (Rule.accepts_comment_iff.2 ⟨_, rfl, hbody⟩) hstops
    have hskip : drain (⟨'/' :: '/' :: body ++ (gap ++ behind), offset, file⟩ : Scanner) =
        drain (⟨gap ++ behind, offset + Text.byteLength ('/' :: '/' :: body), file⟩ : Scanner) :=
      drain_of_skipped (s := ⟨'/' :: '/' :: body ++ (gap ++ behind), offset, file⟩) hnext rfl
    have hlength : Text.byteLength ('/' :: '/' :: (body ++ gap)) =
        Text.byteLength ('/' :: '/' :: body) + Text.byteLength gap := by
      rw [← Text.byteLength_append]
      rfl
    rw [hlength, ← Nat.add_assoc, ← ih, ← hskip]
    simp

end Scanner

/-- Trivia make no tokens, wherever they stand. -/
theorem readBare_trivia_append (h : IsTrivia behind gap) :
    readBare (gap ++ behind) = readBare behind := by
  have hdrain := Scanner.drain_trivia_append h 0 Scanner.defaultFile
  have hlong := Scanner.map_bare_drain ⟨gap ++ behind, 0, Scanner.defaultFile⟩
  rw [hdrain, Scanner.map_bare_drain] at hlong
  exact hlong.symm

/-- A blank in front of a text is trivia. -/
theorem readBare_blank_cons {c : Char} (hc : Text.isBlank c = true) :
    readBare (c :: cs) = readBare cs := readBare_trivia_append (.blank hc .nil)

/-- Trivia begin with a blank or a slash. -/
theorem IsTrivia.head?_cases {c : Char} (h : IsTrivia behind gap) (hc : gap.head? = some c) :
    Text.isBlank c = true ∨ c = '/' := by
  cases h with
  | nil => cases hc
  | blank hblank _ => exact .inl (Option.some.inj hc ▸ hblank)
  | comment _ _ _ => exact .inr (Option.some.inj hc).symm

end

/-! ## What runs together -/

namespace Token

/-- Written side by side, the two tokens run together: two words or numbers, a sign that becomes
another one by an equals sign, or the two slashes that begin a comment. -/
def GluesTo (t u : Token) : Prop :=
  t.kind.isWordLike = true ∧ u.kind.isWordLike = true ∨
    t.kind ∈ [.assign, .bang, .less, .greater] ∧ u.text.toList.head? = some '=' ∨
    t.kind = .slash ∧ u.kind = .slash

instance (t u : Token) : Decidable (t.GluesTo u) := inferInstanceAs (Decidable (_ ∨ _ ∨ _))

variable {t u : Token} {c : Char}

theorem IsSpelled.kind_ne (hu : u.IsSpelled) : u.kind ≠ .illegal ∧ u.kind ≠ .eof := by
  obtain ⟨r, hr, haccepts, hkind⟩ := hu
  exact ⟨fun h => Rule.kindOf_ne_illegal hr (h ▸ hkind), fun h => Rule.kindOf_ne_eof hr _ (h ▸ hkind)⟩

/-- What begins as a word does is a word or a number, and only a slash begins with a slash. -/
theorem IsSpelled.kind_of_head? (hu : u.IsSpelled) (hc : u.text.toList.head? = some c) :
    (isWordPart c = true → u.kind.isWordLike = true) ∧ (c = '/' → u.kind = .slash) := by
  have hmarks : ∀ k : Kind, k.isWordLike = false → k ≠ .illegal → k ≠ .eof →
      k.name.toList.head?.all (!isWordPart ·) = true ∧
        (k.name.toList.head? = some '/' → k = .slash) := by
    intro k
    cases k <;> decide
  cases hlike : u.kind.isWordLike with
  | true =>
    obtain ⟨d, cs, htext, -, hpart⟩ := hu.exists_eq_cons
    obtain rfl : d = c := by simpa [htext] using hc
    refine ⟨fun _ => rfl, ?_⟩
    rintro rfl
    exact absurd (hpart hlike) (by decide)
  | false =>
    obtain ⟨hillegal, heof⟩ := hu.kind_ne
    obtain ⟨r, hr, haccepts, hkind⟩ := hu
    rw [Rule.eq_name_of_accepts hr haccepts hkind hlike] at hc
    obtain ⟨hpart, hslash⟩ := hmarks u.kind hlike hillegal heof
    refine ⟨fun h => ?_, ?_⟩
    · simp [hc, h] at hpart
    · rintro rfl
      exact hslash hc

end Token

/-- What glues to a kind is what goes on with a word or number, an equals sign behind a sign that it
makes longer, or a second slash. -/
theorem Kind.cases_of_glues {k : Kind} {c : Char} (h : k.glues c = true) :
    k.isWordLike = true ∧ isWordPart c = true ∨
      k ∈ [.assign, .bang, .less, .greater] ∧ c = '=' ∨ k = .slash ∧ c = '/' := by
  have hequals : ∀ k : Kind, k.isWordLike = false → k.glues '=' = true →
      k ∈ [.assign, .bang, .less, .greater] := by
    intro k
    cases k <;> decide
  have hslash : ∀ k : Kind, k.isWordLike = false → k.glues '/' = true → k = .slash := by
    intro k
    cases k <;> decide
  cases hlike : k.isWordLike with
  | true =>
    rw [glues, if_pos hlike] at h
    exact .inl ⟨rfl, h⟩
  | false =>
    rcases eq_of_glues hlike h with rfl | rfl
    · exact .inr (.inl ⟨hequals k hlike h, rfl⟩)
    · exact .inr (.inr ⟨hslash k hlike h, rfl⟩)

namespace Token

variable {t u : Token} {gap behind more : List Char} {c : Char}

/-- Trivia can be told from the token before them, but for a comment directly behind a slash. -/
theorem not_glues_of_trivia (hgap : IsTrivia behind gap)
    (hslash : t.kind = .slash → gap.head? ≠ some '/') (hc : gap.head? = some c) :
    t.kind.glues c = false := by
  cases hglues : t.kind.glues c with
  | false => rfl
  | true =>
    exfalso
    rcases Kind.cases_of_glues hglues with ⟨-, hpart⟩ | ⟨-, rfl⟩ | ⟨hkind, rfl⟩
    · rcases hgap.head?_cases hc with hblank | rfl
      · exact not_isBlank_of_isWordPart hpart hblank
      · exact absurd hpart (by decide)
    · rcases hgap.head?_cases hc with hblank | hc'
      · exact absurd hblank (by decide)
      · exact absurd hc' (by decide)
    · exact hslash hkind hc

/-- A token that does not glue to the one before it can be told from it. -/
theorem not_glues_of_spelled (hu : u.IsSpelled) (hglue : ¬ t.GluesTo u)
    (hc : u.text.toList.head? = some c) : t.kind.glues c = false := by
  obtain ⟨hword, hslash⟩ := hu.kind_of_head? hc
  cases hglues : t.kind.glues c with
  | false => rfl
  | true =>
    refine absurd ?_ hglue
    rcases Kind.cases_of_glues hglues with ⟨hlike, hpart⟩ | ⟨hkind, rfl⟩ | ⟨hkind, rfl⟩
    · exact .inl ⟨hlike, hword hpart⟩
    · exact .inr (.inl ⟨hkind, hc⟩)
    · exact .inr (.inr ⟨hkind, hslash rfl⟩)

end Token

/-! ## Layouts -/

/-- A token and what stands before it. -/
structure Spaced where
  gap : List Char
  token : Token

namespace Spaced

def text (p : Spaced) : List Char := p.gap ++ p.token.text.toList

/-- Tokens with what stands before each of them, and `trailing` behind the last one, can be told from
each other. The last comment of `trailing` may end where the text ends. -/
structure AreApart (pieces : List Spaced) (trailing : List Char) : Prop where
  isSpelled : ∀ p ∈ pieces, p.token.IsSpelled
  isSeparator : ∀ p ∈ pieces, IsSeparator p.gap
  isTrivia : IsTrivia [] trailing
  /-- Side by side stand only tokens that do not glue. -/
  unglued : pieces.IsChain fun p q => q.gap = [] → ¬ p.token.GluesTo q.token
  /-- What follows a slash does not make a comment of it. -/
  slashes : ∀ between ∈ pieces.zip (pieces.tail.map gap ++ [trailing]),
    between.1.token.kind = .slash → between.2.head? ≠ some '/'

variable {p q : Spaced} {pieces : List Spaced} {trailing : List Char}

theorem AreApart.tail (h : AreApart (p :: pieces) trailing) : AreApart pieces trailing where
  isSpelled := (List.forall_mem_cons.1 h.isSpelled).2
  isSeparator := (List.forall_mem_cons.1 h.isSeparator).2
  isTrivia := h.isTrivia
  unglued := h.unglued.tail
  slashes := by
    cases pieces with
    | nil => simp
    | cons q pieces => exact fun between hbetween => h.slashes between (List.mem_cons_of_mem _ hbetween)

/-- Nothing that follows a token changes how it is read. -/
theorem AreApart.not_glues (h : AreApart (p :: pieces) trailing) {c : Char}
    (hc : (pieces.flatMap text ++ trailing).head? = some c) : p.token.kind.glues c = false := by
  cases pieces with
  | nil => exact Token.not_glues_of_trivia h.isTrivia (h.slashes (p, trailing) (by simp)) (by simpa using hc)
  | cons q pieces =>
    have hgap : IsTrivia [] q.gap := (h.isSeparator q (by simp)).isTrivia []
    have hslash : p.token.kind = .slash → q.gap.head? ≠ some '/' := h.slashes (p, q.gap) (by simp)
    cases hnil : q.gap with
    | cons d gap =>
      refine Token.not_glues_of_trivia hgap hslash ?_
      simpa [text, hnil] using hc
    | nil =>
      have hglue : ¬ p.token.GluesTo q.token := (List.isChain_cons_cons.1 h.unglued).1 hnil
      have hspelled := h.isSpelled q (by simp)
      obtain ⟨d, cs, htext, -⟩ := hspelled.exists_eq_cons
      refine Token.not_glues_of_spelled hspelled hglue ?_
      simpa [text, hnil, htext] using hc

/-- A layout is read as its tokens. -/
theorem AreApart.readBare_text (h : AreApart pieces trailing) :
    readBare (pieces.flatMap text ++ trailing) = pieces.map (·.token.bare) := by
  induction pieces with
  | nil =>
    have htrailing := readBare_trivia_append h.isTrivia
    simpa using htrailing
  | cons p pieces ih =>
    calc readBare ((p :: pieces).flatMap text ++ trailing)
      _ = readBare (p.gap ++ (p.token.text.toList ++ (pieces.flatMap text ++ trailing))) := by
        simp [text]
      _ = readBare (p.token.text.toList ++ (pieces.flatMap text ++ trailing)) :=
        readBare_trivia_append ((h.isSeparator p (by simp)).isTrivia _)
      _ = p.token.bare :: readBare (pieces.flatMap text ++ trailing) :=
        readBare_token (h.isSpelled p (by simp)) fun c hc => h.not_glues hc
      _ = (p :: pieces).map (·.token.bare) := by rw [ih h.tail, List.map_cons]

end Spaced

/-- A text is read at once as what its scanner gives, if that is nothing illegal. -/
theorem tokenize_of_readBare {text : String} {tokens : List Token} (file : String)
    (h : readBare text.toList = tokens.map Token.bare) (hlegal : ∀ t ∈ tokens, t.kind ≠ .illegal) :
    ∃ read, tokenize text file = .ok read ∧
      read.map Token.bare = tokens.map Token.bare ++ [Token.eof Position.null] := by
  have hdrain := (Scanner.map_bare_drain (Scanner.ofString text file)).trans h
  have hlast := Scanner.bare_drain_last (Scanner.ofString text file)
  have hread : (Scanner.ofString text file).tokens.map Token.bare =
      tokens.map Token.bare ++ [Token.eof Position.null] := by
    simp [Scanner.tokens, hdrain, hlast]
  refine ⟨(Scanner.ofString text file).tokens, ?_, hread⟩
  have hnone : (Scanner.ofString text file).tokens.find? (·.kind = .illegal) = none := by
    rw [List.find?_eq_none]
    intro t ht
    have hbare : t.bare ∈ tokens.map Token.bare ++ [Token.eof Position.null] :=
      hread ▸ List.mem_map_of_mem ht
    rcases List.mem_append.1 hbare with hmem | hmem
    · obtain ⟨u, hu, hsame⟩ := List.mem_map.1 hmem
      simpa [← (Token.bare_eq_iff.1 hsame).1] using hlegal u hu
    · have hkind : t.bare.kind = .eof := by simp [List.mem_singleton.1 hmem]
      have hkind' : t.kind = .eof := hkind
      simp [hkind']
  rw [tokenize, hnone]

/-- Tokens laid out in a text, whatever blanks and comments stand before, between and behind them, are
read as they are, by kind and text, with the end of the input behind them. -/
theorem Spaced.AreApart.tokenize_text {pieces : List Spaced} {trailing : List Char}
    (h : AreApart pieces trailing) (file : String) :
    ∃ tokens, tokenize (String.ofList (pieces.flatMap text ++ trailing)) file = .ok tokens ∧
      tokens.map (fun t => (t.kind, t.text)) =
        pieces.map (fun p => (p.token.kind, p.token.text)) ++ [(.eof, "")] := by
  have hread : readBare (String.ofList (pieces.flatMap text ++ trailing)).toList =
      (pieces.map token).map Token.bare := by
    rw [String.toList_ofList, h.readBare_text, List.map_map]
    rfl
  have hlegal : ∀ t ∈ pieces.map token, t.kind ≠ .illegal :=
    List.forall_mem_map.2 fun p hp => (h.isSpelled p hp).kind_ne.1
  obtain ⟨tokens, htokens, hbare⟩ := tokenize_of_readBare file hread hlegal
  refine ⟨tokens, htokens, ?_⟩
  calc tokens.map (fun t => (t.kind, t.text))
    _ = (tokens.map Token.bare).map (fun t => (t.kind, t.text)) := by
      rw [List.map_map]
      rfl
    _ = pieces.map (fun p => (p.token.kind, p.token.text)) ++ [(.eof, "")] := by
      rw [hbare, List.map_append, List.map_map, List.map_map]
      rfl

/-- Comparisons and signs side by side, and comments where they might be taken for slashes. -/
def crowdedPieces : List Spaced :=
  [⟨"\u2003// é\n".toList, .unplaced .lessEqual "<="⟩, ⟨[], .unplaced .equal "=="⟩,
   ⟨[], .unplaced .assign "="⟩, ⟨[], .unplaced .slash "/"⟩, ⟨" //\n//\n".toList, .unplaced .integer "1_a"⟩,
   ⟨"\r".toList, .unplaced .letWord "let"⟩]

theorem tokenize_text_crowdedPieces :
    Spaced.AreApart crowdedPieces "// /".toList ∧
    ∃ tokens, tokenize (String.ofList (crowdedPieces.flatMap Spaced.text ++ "// /".toList)) "notes" =
        .ok tokens ∧
      tokens.map (fun t => (t.kind, t.text)) =
        crowdedPieces.map (fun p => (p.token.kind, p.token.text)) ++ [(.eof, "")] := by
  have h : Spaced.AreApart crowdedPieces "// /".toList := by
    constructor
    case isSpelled => decide
    case isSeparator =>
      simp only [crowdedPieces, List.forall_mem_cons, List.not_mem_nil, false_implies, implies_true,
        and_true]
      have hempty {gap : List Char} (hgap : IsSeparator gap) : IsSeparator ('/' :: '/' :: '\n' :: gap) :=
        @IsSeparator.comment [] gap (by decide) hgap
      exact ⟨.blank (by decide) (@IsSeparator.comment " é".toList [] (by decide) .nil), .nil, .nil, .nil,
        .blank (by decide) (hempty (hempty .nil)), .blank (by decide) .nil⟩
    case isTrivia => exact @IsTrivia.comment [] " /".toList [] (by decide) (by simp) .nil
    case unglued => decide
    case slashes => decide
  exact ⟨h, h.tokenize_text "notes"⟩

end MonkeyFrontEnd
