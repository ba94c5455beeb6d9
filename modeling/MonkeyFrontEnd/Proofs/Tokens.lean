import MonkeyFrontEnd.Grammar.Program

/-!
The tokens a parser still has to read, as a list. The list begins with the current token and stops
before the end of the input; `Parser.ahead` is the same list without the current token. Rules are
described by what they take off these lists, so no later proof looks into a cursor.
-/

namespace MonkeyFrontEnd

variable {σ : Type} [TokenSource σ]

/-- The kind of the first token of a list, the end of the input for an empty one. -/
def headKind : List Token → Kind
  | [] => .eof
  | t :: _ => t.kind

@[simp] theorem headKind_nil : headKind [] = .eof := rfl

@[simp] theorem headKind_cons (t : Token) (ts : List Token) : headKind (t :: ts) = t.kind := rfl

theorem eq_nil_of_headKind {ts : List Token} (hts : ∀ t ∈ ts, t.kind ≠ .eof)
    (h : headKind ts = .eof) : ts = [] := by
  cases ts with
  | nil => rfl
  | cons t ts => exact absurd h (hts t (List.mem_cons_self ..))

/-- A token that was read from no source. -/
def Token.unplaced (kind : Kind) (text : String) : Token :=
  ⟨kind, text, ⟨Position.null, Position.null⟩⟩

/-- The token without its place. -/
def Token.bare (t : Token) : Token := .unplaced t.kind t.text

theorem Token.bare_eq_iff {t t' : Token} : t.bare = t'.bare ↔ t.kind = t'.kind ∧ t.text = t'.text := by
  simp [bare, unplaced]

namespace Cursor

/-- A cursor is reached from another one by moving on, perhaps not at all. -/
inductive Reaches (c : Cursor σ) : Cursor σ → Prop
  | here : Reaches c c
  | onward {d : Cursor σ} : Reaches c d → Reaches c d.advance

theorem Reaches.trans {c d e : Cursor σ} (hcd : Reaches c d) (hde : Reaches d e) : Reaches c e := by
  induction hde with
  | here => exact hcd
  | onward _ ih => exact ih.onward

theorem advance_start (s : σ) : (start s).advance = start (TokenSource.next s).2 := rfl

theorem tokens_advance_suffix (c : Cursor σ) : c.advance.tokens <:+ c.tokens := by
  by_cases h : c.current.kind = .eof
  · simp only [advance_of_eof h, List.suffix_refl]
  · rw [tokens_of_ne_eof h]
    exact List.suffix_cons ..

theorem Reaches.tokens_suffix {c d : Cursor σ} (h : Reaches c d) : d.tokens <:+ c.tokens := by
  induction h with
  | here => exact List.suffix_refl _
  | onward _ ih => exact (tokens_advance_suffix _).trans ih

/-- A source is read in order. -/
theorem tokens_start (s : σ) : (start s).tokens = (TokenSource.drain s).1 := by
  fun_induction TokenSource.drain s with
  | case1 s h => exact tokens_of_eof h
  | case2 s h rest ih =>
    rw [tokens_of_ne_eof (c := start s) h, advance_start, ih]
    rfl

end Cursor

namespace Parser

/-- The tokens from the current one on, up to the end of the input. -/
def tokens (p : Parser σ) : List Token := p.cursor.tokens

/-- The tokens behind the current one. -/
def ahead (p : Parser σ) : List Token := p.advance.tokens

variable {p : Parser σ} {t : Token} {ts : List Token}

@[simp] theorem tokens_advance (p : Parser σ) : p.advance.tokens = p.ahead := rfl

@[simp] theorem current_advance (p : Parser σ) : p.advance.current = p.peek := rfl

@[simp] theorem diagnostics_advance (p : Parser σ) : p.advance.diagnostics = p.diagnostics := rfl

@[simp] theorem diagnostics_record (p : Parser σ) (d : Diagnostic) :
    (p.record d).diagnostics = p.diagnostics.push d := rfl

theorem kind_ne_eof_of_mem_tokens (h : t ∈ p.tokens) : t.kind ≠ .eof :=
  Cursor.kind_ne_eof_of_mem_tokens h

theorem tokens_of_eof (h : p.current.kind = .eof) : p.tokens = [] := Cursor.tokens_of_eof h

theorem tokens_of_ne_eof (h : p.current.kind ≠ .eof) : p.tokens = p.current :: p.ahead :=
  Cursor.tokens_of_ne_eof h

theorem peek_of_eof (h : p.current.kind = .eof) : p.peek = p.current :=
  p.cursor.peek_of_current_eof h

/-- At the end of the input a move changes nothing at all. -/
theorem advance_of_eof (h : p.current.kind = .eof) : p.advance = p := by
  have hpeek : p.cursor.peek.kind ≠ .illegal := by
    change p.peek.kind ≠ .illegal
    rw [peek_of_eof h, h]
    decide
  have hnone : announced? (p.cursor.peek, p.cursor.source) = none := announced?_of_ne_illegal hpeek
  rw [advance, Cursor.advance_of_eof h]
  simp only [announce, hnone]

theorem ahead_of_eof (h : p.current.kind = .eof) : p.ahead = [] := by
  rw [ahead, advance_of_eof h, tokens_of_eof h]

@[simp] theorem headKind_tokens (p : Parser σ) : headKind p.tokens = p.current.kind := by
  by_cases h : p.current.kind = .eof
  · rw [tokens_of_eof h, h, headKind_nil]
  · rw [tokens_of_ne_eof h, headKind_cons]

@[simp] theorem headKind_ahead (p : Parser σ) : headKind p.ahead = p.peek.kind :=
  headKind_tokens p.advance

theorem current_of_tokens (h : p.tokens = t :: ts) : p.current = t := by
  have hne : p.current.kind ≠ .eof := by
    intro heof
    simp [tokens_of_eof heof] at h
  rw [tokens_of_ne_eof hne] at h
  exact (List.cons.inj h).1

theorem ahead_of_tokens (h : p.tokens = t :: ts) : p.ahead = ts := by
  have hne : p.current.kind ≠ .eof := by
    intro heof
    simp [tokens_of_eof heof] at h
  rw [tokens_of_ne_eof hne] at h
  exact (List.cons.inj h).2

theorem peek_of_ahead (h : p.ahead = t :: ts) : p.peek = t := current_of_tokens (p := p.advance) h

theorem ahead_suffix_tokens (p : Parser σ) : p.ahead <:+ p.tokens :=
  Cursor.tokens_advance_suffix p.cursor

/-- Where the lookahead is not the end of the input, it is the first token ahead. -/
theorem ahead_of_peek_ne_eof (h : p.peek.kind ≠ .eof) : p.ahead = p.peek :: p.advance.ahead :=
  tokens_of_ne_eof (p := p.advance) h

end Parser

namespace ReadyTokens

variable {s : ReadyTokens}

/-- Ready tokens are read in order. -/
theorem tokens_start (s : ReadyTokens) : (Parser.start s).tokens = s.tokens := by
  rw [Parser.tokens, Parser.start, Cursor.tokens_start, drain_eq]

/-- A list is cut at its first end of input, so what comes before one is kept. -/
theorem tokens_ofList_of_append {ts : List Token} (hts : ∀ t ∈ ts, t.kind ≠ .eof)
    (behind : List Token) : (ofList (ts ++ behind)).tokens = ts ++ (ofList behind).tokens := by
  have hpass : ∀ t ∈ ts, !isEof t := fun t ht => by simpa [isEof] using hts t ht
  change (ts ++ behind).takeWhile (!isEof ·) = ts ++ behind.takeWhile (!isEof ·)
  exact List.takeWhile_append_of_pos hpass

theorem tokens_ofList_append {ts behind : List Token} (hts : ∀ t ∈ ts, t.kind ≠ .eof)
    (hbehind : headKind behind = .eof) : (ofList (ts ++ behind)).tokens = ts := by
  have hnil : (ofList behind).tokens = [] := by
    cases behind with
    | nil => rfl
    | cons t behind =>
      have ht : isEof t := by simpa [isEof] using hbehind
      simp [ofList, ht]
  rw [tokens_ofList_of_append hts, hnil, List.append_nil]

theorem headKind_tokens_ofList (ts : List Token) : headKind (ofList ts).tokens = headKind ts := by
  cases ts with
  | nil => rfl
  | cons t ts =>
    by_cases ht : t.kind = .eof
    · simp [ofList, isEof, ht]
    · simp [ofList, isEof, ht]

/-- The end of the input is the first one behind the tokens. -/
theorem last_ofList_append {ts behind : List Token} (hts : ∀ t ∈ ts, t.kind ≠ .eof) :
    (ofList (ts ++ behind)).last = (ofList behind).last := by
  have hnone : ts.find? isEof = none := by simpa [isEof] using hts
  change ((ts ++ behind).find? isEof).getD _ = (behind.find? isEof).getD _
  rw [List.find?_append, hnone, Option.none_or]

theorem eq_of_tokens_of_last {s s' : ReadyTokens} (htokens : s.tokens = s'.tokens)
    (hlast : s.last = s'.last) : s = s' := by
  cases s
  cases s'
  simp_all

/-- Wherever a cursor over ready tokens comes, it stands at the start of ready tokens with the same
end. -/
theorem exists_start_of_reaches {c : Cursor ReadyTokens} (h : (Cursor.start s).Reaches c) :
    ∃ s' : ReadyTokens, c = Cursor.start s' ∧ s'.last = s.last := by
  induction h with
  | here => exact ⟨s, rfl, rfl⟩
  | onward _ ih =>
    obtain ⟨s', rfl, hlast⟩ := ih
    refine ⟨(next s').2, Cursor.advance_start s', ?_⟩
    rw [← hlast]
    obtain ⟨tokens, last, htokens, hkind⟩ := s'
    cases tokens <;> rfl

end ReadyTokens

end MonkeyFrontEnd
