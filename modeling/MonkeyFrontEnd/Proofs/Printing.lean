import MonkeyFrontEnd.Proofs.Phrase

/-!
What every admissible printing looks like as a list of tokens: its brackets match, apart from
closing braces that may be due at the end, no semicolon directly follows another, and no token
stands in it that belongs to no program. One scan checks all three; `closersDue_tokensAll` says that
it passes over every admissible printing, and the lemmas before it say what passing means.
-/

namespace MonkeyFrontEnd

/-- The closing brackets that are due behind some tokens, if `due` are due before them. There is no
answer if a bracket closes that is not due next, if a semicolon directly follows another, or if a
token belongs to no program. -/
def closersDue (due : List Kind) : List Token → Option (List Kind)
  | [] => some due
  | t :: ts =>
    match t.kind with
    | .openParen => closersDue (.closeParen :: due) ts
    | .openCurly => closersDue (.closeCurly :: due) ts
    | .closeParen | .closeCurly =>
      if due.head? = some t.kind then closersDue due.tail ts else none
    | .semicolon => if headKind ts = .semicolon then none else closersDue due ts
    | .illegal | .eof | .comma | .functionWord => none
    | _ => closersDue due ts

/-- A closing brace does not stand where a parenthesis is open. -/
example : closersDue [] [.unplaced .openParen "(", .unplaced .closeCurly "\x7d"] = none := by
  cbv

/-- The kinds of token that the scan passes over without a further look. -/
def Kind.isPlain : Kind → Bool
  | .openParen | .openCurly | .closeParen | .closeCurly | .semicolon => false
  | .illegal | .eof | .comma | .functionWord => false
  | _ => true

section

variable {t : Token} {ts : List Token} {due left : List Kind}

theorem closersDue_of_isPlain (h : t.kind.isPlain) : closersDue due (t :: ts) = closersDue due ts := by
  rw [closersDue]
  revert h
  cases t.kind <;> simp [Kind.isPlain]

theorem closersDue_of_openParen (h : t.kind = .openParen) :
    closersDue due (t :: ts) = closersDue (.closeParen :: due) ts := by
  simp [closersDue, h]

theorem closersDue_of_openCurly (h : t.kind = .openCurly) :
    closersDue due (t :: ts) = closersDue (.closeCurly :: due) ts := by
  simp [closersDue, h]

theorem closersDue_of_closeParen (h : t.kind = .closeParen) :
    closersDue (.closeParen :: due) (t :: ts) = closersDue due ts := by
  simp [closersDue, h]

theorem closersDue_of_closeCurly (h : t.kind = .closeCurly) :
    closersDue (.closeCurly :: due) (t :: ts) = closersDue due ts := by
  simp [closersDue, h]

theorem closersDue_of_semicolon (h : t.kind = .semicolon) (hts : headKind ts ≠ .semicolon) :
    closersDue due (t :: ts) = closersDue due ts := by
  simp [closersDue, h, hts]

/-- A scan that passes a list passes each of its ends. -/
theorem closersDue_tail (h : closersDue due (t :: ts) = some left) :
    ∃ due', closersDue due' ts = some left := by
  rw [closersDue] at h
  split at h <;> first | exact ⟨_, h⟩ | cases h | skip
  all_goals split at h <;> first | exact ⟨_, h⟩ | cases h

theorem kind_of_closersDue (h : closersDue due ts = some left) (ht : t ∈ ts) :
    t.kind ≠ .illegal ∧ t.kind ≠ .eof ∧ t.kind ≠ .comma ∧ t.kind ≠ .functionWord := by
  induction ts generalizing due with
  | nil => simp at ht
  | cons u us ih =>
    rcases List.mem_cons.1 ht with rfl | ht
    · refine ⟨?_, ?_, ?_, ?_⟩ <;> intro hkind <;> simp [closersDue, hkind] at h
    · obtain ⟨due', h'⟩ := closersDue_tail h
      exact ih h' ht

theorem headKind_of_closersDue {before : List Token}
    (h : closersDue due (before ++ t :: ts) = some left) (ht : t.kind = .semicolon) :
    headKind ts ≠ .semicolon := by
  induction before generalizing due with
  | nil =>
    intro hts
    simp [closersDue, ht, hts] at h
  | cons u us ih =>
    obtain ⟨due', h'⟩ := closersDue_tail h
    exact ih h'

end

/-- Before tokens that begin with the kind `next` the scan passes over `ts`. Nothing but closing
braces is due behind `ts` that was not due before, and these are due at the end of the input only. -/
def Balanced (ts : List Token) (next : Kind) : Prop :=
  ∃ n, (next ≠ .eof → n = 0) ∧ ∀ due rest, headKind rest = next →
    closersDue due (ts ++ rest) = closersDue (List.replicate n .closeCurly ++ due) rest

namespace Balanced

variable {ts us : List Token} {next : Kind} {opening closing : Token}

theorem nil (next : Kind) : Balanced [] next := ⟨0, fun _ => rfl, fun _ _ _ => rfl⟩

theorem append {kind : Kind} (hts : Balanced ts kind) (hus : Balanced us next)
    (hkind : ∀ rest, headKind rest = next → headKind (us ++ rest) = kind)
    (hend : next ≠ .eof → kind ≠ .eof) : Balanced (ts ++ us) next := by
  obtain ⟨m, hm, hpass⟩ := hts
  obtain ⟨n, hn, hpass'⟩ := hus
  refine ⟨n + m, fun h => by rw [hm (hend h), hn h], fun due rest hrest => ?_⟩
  rw [List.append_assoc, hpass due _ (hkind rest hrest), hpass' _ rest hrest, ← List.append_assoc,
    List.replicate_append_replicate]

theorem of_isPlain {t : Token} (ht : t.kind.isPlain) (next : Kind) : Balanced [t] next :=
  ⟨0, fun _ => rfl, fun _ _ _ => closersDue_of_isPlain ht⟩

theorem cons {t : Token} (ht : t.kind.isPlain) (hts : Balanced ts next) : Balanced (t :: ts) next := by
  obtain ⟨n, hn, hpass⟩ := hts
  refine ⟨n, hn, fun due rest hrest => ?_⟩
  rw [List.cons_append, closersDue_of_isPlain ht, hpass due rest hrest]

theorem parens (hopen : opening.kind = .openParen) (hts : Balanced ts .closeParen)
    (hclose : closing.kind = .closeParen) (hus : Balanced us next) :
    Balanced (opening :: (ts ++ closing :: us)) next := by
  obtain ⟨m, hm, hpass⟩ := hts
  obtain rfl : m = 0 := hm (by decide)
  obtain ⟨n, hn, hpass'⟩ := hus
  refine ⟨n, hn, fun due rest hrest => ?_⟩
  rw [List.cons_append, List.append_assoc, closersDue_of_openParen hopen,
    hpass _ (closing :: us ++ rest) hclose]
  exact (closersDue_of_closeParen hclose).trans (hpass' due rest hrest)

theorem braces (hopen : opening.kind = .openCurly) (hts : Balanced ts .closeCurly)
    (hclose : closing.kind = .closeCurly) (next : Kind) :
    Balanced (opening :: (ts ++ [closing])) next := by
  obtain ⟨m, hm, hpass⟩ := hts
  obtain rfl : m = 0 := hm (by decide)
  refine ⟨0, fun _ => rfl, fun due rest _ => ?_⟩
  rw [List.cons_append, List.append_assoc, closersDue_of_openCurly hopen,
    hpass _ ([closing] ++ rest) hclose]
  exact closersDue_of_closeCurly hclose

/-- A brace that is not closed leaves one more closing brace due at the end. -/
theorem unclosed (hopen : opening.kind = .openCurly) (hts : Balanced ts .eof) :
    Balanced (opening :: ts) .eof := by
  obtain ⟨n, -, hpass⟩ := hts
  refine ⟨n + 1, fun h => absurd rfl h, fun due rest hrest => ?_⟩
  rw [List.cons_append, closersDue_of_openCurly hopen, hpass _ rest hrest, List.replicate_succ',
    List.append_assoc]
  rfl

/-- A semicolon, if there is one, is not followed by another. -/
theorem semicolon {semicolon : Option Token} (hsemicolon : ∀ t ∈ semicolon, t.kind = .semicolon)
    (hnext : next ≠ .semicolon) : Balanced semicolon.toList next := by
  cases semicolon with
  | none => exact nil next
  | some t =>
    refine ⟨0, fun _ => rfl, fun due rest hrest => ?_⟩
    exact closersDue_of_semicolon (hsemicolon t rfl) fun h => hnext (hrest.symm.trans h)

end Balanced

theorem Kind.isPlain_of_isOperator {k : Kind} (h : k.isOperator) : k.isPlain := by
  revert h
  cases k <;> decide

theorem Kind.ne_eof_of_isOperator {k : Kind} (h : k.isOperator) : k ≠ .eof := by
  rintro rfl
  cases h

/-- A value and the semicolon behind it, if there is one. -/
theorem Balanced.value {ts : List Token} {semicolon : Option Token} {next : Kind}
    (hts : Balanced ts (kindBehind semicolon next)) (hends : endsValue semicolon next)
    (hnext : next ≠ .semicolon) : Balanced (ts ++ semicolon.toList) next := by
  cases semicolon with
  | none => exact (List.append_nil ts).symm ▸ hts
  | some t =>
    have ht : t.kind = .semicolon := by simpa [endsValue] using hends
    apply hts.append (Balanced.semicolon (by simp [ht]) hnext) (fun _ _ => rfl)
    intro _
    change t.kind ≠ .eof
    rw [ht]
    decide

theorem Kind.startsStatement_ne {k : Kind} (h : k.startsStatement) : k ≠ .eof ∧ k ≠ .semicolon := by
  revert h
  cases k <;> decide

/-- Behind a statement stands the next one, or what stands behind all of them. -/
theorem Sentence.firstKind_ne {kind next : Kind} {ss : List Sentence} (h : fitsAll ss next)
    (hkind : kind = .eof ∨ kind = .semicolon) (hnext : next ≠ kind) : firstKind next ss ≠ kind := by
  cases ss with
  | nil => exact hnext
  | cons s ss =>
    have hstarts := Kind.startsStatement_ne (startsStatement_first (fitsAll_cons_iff.1 h).1)
    rcases hkind with rfl | rfl
    · exact hstarts.1
    · exact hstarts.2

mutual

theorem Phrase.balanced {next : Kind} : (w : Phrase) → w.fits next → Balanced w.tokens next
  | .identifier word, h => .of_isPlain (by rw [Phrase.fits_identifier_iff.1 h]; rfl) next
  | .integer digits, h => .of_isPlain (by rw [(Phrase.fits_integer_iff.1 h).1]; rfl) next
  | .boolean word, h => by
    rcases Phrase.fits_boolean_iff.1 h with h | h <;> exact .of_isPlain (by rw [h]; rfl) next
  | .unary operator operand, h => by
    obtain ⟨hoperator, -, hoperand⟩ := Phrase.fits_unary_iff.1 h
    exact (operand.balanced hoperand).cons (by rcases hoperator with h | h <;> rw [h] <;> rfl)
  | .binary left operator right, h => by
    obtain ⟨hoperator, -, hleft, -, hright⟩ := Phrase.fits_binary_iff.1 h
    exact (left.balanced hleft).append ((right.balanced hright).cons
      (Kind.isPlain_of_isOperator hoperator)) (fun _ _ => rfl)
      fun _ => Kind.ne_eof_of_isOperator hoperator
  | .group opening inner closing, h => by
    obtain ⟨hopen, hinner, hclose⟩ := Phrase.fits_group_iff.1 h
    exact .parens hopen (inner.balanced hinner) hclose (.nil next)
  | .ifThen word opening condition closing consequence, h => by
    obtain ⟨hword, hopen, hcondition, hclose, hconsequence, -⟩ := Phrase.fits_ifThen_iff.1 h
    exact (Balanced.parens hopen (condition.balanced hcondition) hclose
      (consequence.balanced hconsequence)).cons (by rw [hword]; rfl)
  | .ifElse word opening condition closing consequence otherwise alternative, h => by
    obtain ⟨hword, hopen, hcondition, hclose, hconsequence, helse, halternative⟩ :=
      Phrase.fits_ifElse_iff.1 h
    have hbranches : Balanced (consequence.tokens ++ otherwise :: alternative.tokens) next :=
      (consequence.balanced hconsequence).append ((alternative.balanced halternative).cons
        (by rw [helse]; rfl)) (fun _ _ => helse) fun _ => by decide
    exact (Balanced.parens hopen (condition.balanced hcondition) hclose hbranches).cons
      (by rw [hword]; rfl)
termination_by structural w => w

theorem Braces.balanced {next : Kind} : (b : Braces) → b.fits next → Balanced b.tokens next
  | .mk opening body (some closing), h => by
    obtain ⟨hopen, hbody, hclose⟩ := Braces.fits_closed_iff.1 h
    exact .braces hopen (Sentence.balanced_tokensAll body (by decide) hbody) hclose next
  | .mk opening body none, h => by
    obtain ⟨hopen, hbody, rfl⟩ := Braces.fits_unclosed_iff.1 h
    rw [Braces.tokens, Option.toList_none, List.append_nil]
    exact .unclosed hopen (Sentence.balanced_tokensAll body (by decide) hbody)
termination_by structural b => b

theorem Sentence.balanced {next : Kind} :
    (s : Sentence) → next ≠ .semicolon → s.fits next → Balanced s.tokens next
  | .letStmt word name assign value semicolon, hnext, h => by
    obtain ⟨hword, hname, hassign, hvalue, hends⟩ := Sentence.fits_letStmt_iff.1 h
    have hbehind := (value.balanced hvalue).value hends hnext
    exact ((hbehind.cons (by rw [hassign]; rfl)).cons (by rw [hname]; rfl)).cons (by rw [hword]; rfl)
  | .bareReturn word semicolon, hnext, h => by
    obtain ⟨hword, hends⟩ := Sentence.fits_bareReturn_iff.1 h
    refine (Balanced.semicolon (fun t ht => ?_) hnext).cons (by rw [hword]; rfl)
    obtain rfl := Option.mem_def.1 ht
    simpa [endsReturn] using hends
  | .returnValue word value semicolon, hnext, h => by
    obtain ⟨hword, hvalue, hends⟩ := Sentence.fits_returnValue_iff.1 h
    exact ((value.balanced hvalue).value hends hnext).cons (by rw [hword]; rfl)
  | .expression value semicolon, hnext, h => by
    obtain ⟨hvalue, hends⟩ := Sentence.fits_expression_iff.1 h
    exact (value.balanced hvalue).value hends hnext
termination_by structural s => s

theorem Sentence.balanced_tokensAll {next : Kind} :
    (ss : List Sentence) → next ≠ .semicolon → Sentence.fitsAll ss next →
      Balanced (Sentence.tokensAll ss) next
  | [], _, _ => .nil next
  | s :: rest, hnext, h => by
    obtain ⟨hs, hrest⟩ := Sentence.fitsAll_cons_iff.1 h
    refine (s.balanced (Sentence.firstKind_ne hrest (.inr rfl) hnext) hs).append
      (Sentence.balanced_tokensAll rest hnext hrest) (fun us hus => ?_) fun hend => ?_
    · rw [Sentence.headKind_tokensAll_append, hus]
    · exact Sentence.firstKind_ne hrest (.inl rfl) hend
termination_by structural ss => ss

end

/-- The scan passes over every admissible printing, and nothing but closing braces is left due. -/
theorem closersDue_tokensAll {text : List Sentence} (h : Sentence.fitsAll text .eof) :
    ∃ n, closersDue [] (Sentence.tokensAll text) = some (List.replicate n .closeCurly) := by
  obtain ⟨n, -, hpass⟩ := Sentence.balanced_tokensAll text (by decide) h
  have hscan := hpass [] [] rfl
  rw [List.append_nil, List.append_nil] at hscan
  exact ⟨n, hscan⟩

end MonkeyFrontEnd
