import MonkeyFrontEnd.Proofs.Lockstep

/-!
Runs that cannot be told apart, by relations that keep a run in step with itself. What every primitive
step keeps is kept by a parse (`Parser.Kept.parse`). A rule for expressions that reads its room from the
state may be replaced by one that is told its room (`run_program_expression`). And a run does not depend
on what was logged before it (`run_program_onTop`).
-/

namespace MonkeyFrontEnd

variable {σ : Type} [TokenSource σ]

/-- A property of states, for each number of open expressions, that every primitive step keeps. -/
structure Parser.Kept (P : Nat → Parser σ → Prop) : Prop where
  advance : ∀ {n p}, P n p → P n p.advance
  record : ∀ {n p d}, P n p → P n (p.record d)
  complete : ∀ {n p s}, P n p → P n (p.complete s)
  enter : ∀ {n p}, P n p → P (n + 1) { p with depth := p.depth + 1 }
  leave : ∀ {n p}, P (n + 1) p → P n p.leave

/-- A state in step with itself carries along what is kept. -/
theorem Parser.Kept.lockstep {P : Nat → Parser σ → Prop} (hP : Kept P) :
    Lockstep .equality fun n (p q : Parser σ) => p = q ∧ P n p where
  current h := congrArg Parser.current h.1
  peek h := congrArg Parser.peek h.1
  advance h := ⟨congrArg Parser.advance h.1, hP.advance h.2⟩
  record h hd :=
    ⟨congr (congrArg Parser.record h.1) (Likeness.diagnostics_equality hd), hP.record h.2⟩
  complete h hs :=
    ⟨congr (congrArg Parser.complete h.1) (Likeness.stmts_equality.1 hs), hP.complete h.2⟩
  enter h := ⟨by rw [h.1], hP.enter h.2⟩
  leave h := ⟨congrArg Parser.leave h.1, hP.leave h.2⟩

theorem Parser.kept_depth : Kept fun n (p : Parser σ) => p.depth = n where
  advance h := h
  record h := h
  complete h := h
  enter h := congrArg (· + 1) h
  leave h := congrArg (· - 1) h

/-- Equal states with the given number of open expressions are in step. -/
theorem lockstep_depth :
    Lockstep .equality fun n (p q : Parser σ) => p = q ∧ p.depth = n :=
  Parser.kept_depth.lockstep

namespace Grammar

/-- Where `n` expressions are open, a rule that reads its room finds what is left of the limit. -/
theorem alongside_expression (n : Nat) (limit : Precedence) :
    Builder.Alongside .equality (fun p q : Parser σ => p = q ∧ p.depth = n) Likeness.equality.Exprs
      (expression limit) (expressionAt (Parser.nestingLimit - n) limit) := by
  rintro p _ ⟨rfl, rfl⟩
  exact alongside_expressionAt lockstep_depth _ _ limit p p ⟨rfl, rfl⟩

/-- A block read at some depth is read with the room that this depth leaves. -/
theorem run_block_expression (p : Parser σ) :
    (block expression).run p = (block (expressionAt p.room)).run p := by
  obtain ⟨hblock, hstate, -⟩ := alongside_block lockstep_depth (alongside_expression p.depth) p p
    ⟨rfl, rfl⟩
  exact Prod.ext (Likeness.blocks_equality.1 hblock) hstate

/-- Outside of every expression there is room for as many as the limit allows. -/
theorem run_program_expression {p : Parser σ} (hp : p.depth = 0) :
    (program expression).run p = (program (expressionAt Parser.nestingLimit)).run p := by
  obtain ⟨hprogram, hstate, -⟩ := alongside_program lockstep_depth (alongside_expression 0) p p
    ⟨rfl, hp⟩
  exact Prod.ext (Likeness.programs_equality.1 hprogram) hstate

end Grammar

/-- What holds at the start of a parse and is kept holds at its end. -/
theorem Parser.Kept.parse {P : Nat → Parser σ → Prop} (hP : Kept P) {s : σ} (hstart : P 0 (.start s)) :
    P 0 (MonkeyFrontEnd.parse s).2 := by
  rw [MonkeyFrontEnd.parse, parseProgram, Grammar.run_program_expression rfl]
  obtain ⟨-, -, hend⟩ := Grammar.alongside_program_expressionAt hP.lockstep nestingLimit 0
    (.start s) (.start s) ⟨rfl, hstart⟩
  exact hend

/-- The state with other entries before those of its two logs. -/
def Parser.onTop (diagnostics : Array Diagnostic) (events : Array Event) (p : Parser σ) :
    Parser σ :=
  { p with diagnostics := diagnostics ++ p.diagnostics, events := events ++ p.events }

theorem Parser.announce_append (events later : Array Event) (pulled : Token × σ) :
    announce (events ++ later) pulled = events ++ announce later pulled := by
  unfold announce
  split
  · rw [Array.append_push]
  · rfl

/-- Entries before those of the logs do not bring a run out of step. -/
theorem lockstep_onTop (diagnostics : Array Diagnostic) (events : Array Event) :
    Lockstep .equality fun _ (p q : Parser σ) => q = p.onTop diagnostics events where
  current h := by rw [h]; rfl
  peek h := by rw [h]; rfl
  advance h := by simp only [h, Parser.onTop, Parser.advance, Parser.announce_append]
  record h hd := by
    simp only [h, ← Likeness.diagnostics_equality hd, Parser.onTop, Parser.record, Array.append_push]
  complete h hs := by
    simp only [h, ← Likeness.stmts_equality.1 hs, Parser.onTop, Parser.complete, Array.append_push]
  enter h := by rw [h]; rfl
  leave h := by rw [h]; rfl

/-- What was logged before a program is read is only carried along. -/
theorem Grammar.run_program_onTop (room : Nat) (diagnostics : Array Diagnostic)
    (events : Array Event) (p : Parser σ) :
    (program (expressionAt room)).run (p.onTop diagnostics events) =
      (((program (expressionAt room)).run p).1,
        ((program (expressionAt room)).run p).2.onTop diagnostics events) := by
  obtain ⟨hprogram, hstate⟩ := alongside_program_expressionAt (lockstep_onTop diagnostics events)
    room 0 p _ rfl
  exact Prod.ext (Likeness.programs_equality.1 hprogram).symm hstate

end MonkeyFrontEnd
