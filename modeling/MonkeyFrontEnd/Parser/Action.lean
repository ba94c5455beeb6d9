import MonkeyFrontEnd.Parser

/-!
Steps of a parser.  An `Action` changes the state of a parser and gives a value; a `Builder` may
give a diagnostic instead, and its state then shows how far it came.  A step never goes back: the
cursor has no more moves left after it than before.  This is what ends every loop over tokens.
-/

namespace MonkeyFrontEnd

/-- A step that always gives a value. -/
structure Action (σ : Type) [TokenSource σ] (α : Type) where
  run : Parser σ → α × Parser σ
  left_le : ∀ p, (run p).2.left ≤ p.left

/-- A step that gives a value or a diagnostic. -/
abbrev Builder (σ : Type) [TokenSource σ] := ExceptT Diagnostic (Action σ)

variable {σ : Type} [TokenSource σ] {α β : Type}

namespace Action

instance : Monad (Action σ) where
  pure a := ⟨fun p => (a, p), fun _ => Nat.le_refl _⟩
  bind x f :=
    ⟨fun p => (f (x.run p).1).run (x.run p).2,
      fun p => Nat.le_trans ((f (x.run p).1).left_le (x.run p).2) (x.left_le p)⟩

@[simp] theorem run_pure (a : α) (p : Parser σ) : (pure a : Action σ α).run p = (a, p) := rfl

@[simp] theorem run_bind (x : Action σ α) (f : α → Action σ β) (p : Parser σ) :
    (x >>= f).run p = (f (x.run p).1).run (x.run p).2 := rfl

@[simp] theorem run_map (f : α → β) (x : Action σ α) (p : Parser σ) :
    (f <$> x).run p = (f (x.run p).1, (x.run p).2) := rfl

def current : Action σ Token := ⟨fun p => (p.current, p), fun _ => Nat.le_refl _⟩

def peek : Action σ Token := ⟨fun p => (p.peek, p), fun _ => Nat.le_refl _⟩

/-- Move one token on and give the token that was current. -/
def advance : Action σ Token := ⟨fun p => (p.current, p.advance), Parser.left_advance_le⟩

def record (d : Diagnostic) : Action σ Unit := ⟨fun p => ((), p.record d), fun _ => Nat.le_refl _⟩

def complete (s : Stmt) : Action σ Unit := ⟨fun p => ((), p.complete s), fun _ => Nat.le_refl _⟩

def skipToEnd : Action σ Unit :=
  ⟨fun p => ((), p.skipToEnd), fun p => by rw [Parser.left_skipToEnd]; exact Nat.zero_le _⟩

@[simp] theorem run_current (p : Parser σ) : current.run p = (p.current, p) := rfl

@[simp] theorem run_peek (p : Parser σ) : peek.run p = (p.peek, p) := rfl

@[simp] theorem run_advance (p : Parser σ) : advance.run p = (p.current, p.advance) := rfl

@[simp] theorem run_record (d : Diagnostic) (p : Parser σ) : (record d).run p = ((), p.record d) := rfl

@[simp] theorem run_complete (s : Stmt) (p : Parser σ) : (complete s).run p = ((), p.complete s) := rfl

@[simp] theorem run_skipToEnd (p : Parser σ) : skipToEnd.run p = ((), p.skipToEnd) := rfl

/-- Take a semicolon if it is the next token. -/
def takeSemicolon : Action σ Unit := do
  if (← peek).kind = .semicolon then
    let _ ← advance

theorem run_takeSemicolon (p : Parser σ) :
    takeSemicolon.run p = ((), if p.peek.kind = .semicolon then p.advance else p) := by
  by_cases h : p.peek.kind = .semicolon
  · simp [takeSemicolon, h]
  · simp [takeSemicolon, h]

end Action

namespace Builder

/-- The outcome of a builder and the state it leaves. -/
def run (b : Builder σ α) (p : Parser σ) : Except Diagnostic α × Parser σ := (ExceptT.run b).run p

/-- A builder from what it does to a state. -/
def ofRun (f : Parser σ → Except Diagnostic α × Parser σ) (h : ∀ p, (f p).2.left ≤ p.left) :
    Builder σ α := ExceptT.mk ⟨f, h⟩

theorem left_run_le (b : Builder σ α) (p : Parser σ) : (b.run p).2.left ≤ p.left :=
  (ExceptT.run b).left_le p

@[simp] theorem run_ofRun (f : Parser σ → Except Diagnostic α × Parser σ)
    (h : ∀ p, (f p).2.left ≤ p.left) (p : Parser σ) : run (ofRun f h) p = f p := rfl

@[simp] theorem run_pure (a : α) (p : Parser σ) : run (pure a : Builder σ α) p = (.ok a, p) := rfl

@[simp] theorem run_throw (d : Diagnostic) (p : Parser σ) :
    run (throw d : Builder σ α) p = (.error d, p) := rfl

/-- An action is a builder that never fails. -/
def ofAction (x : Action σ α) : Builder σ α := ExceptT.lift x

def current : Builder σ Token := ofAction Action.current

def peek : Builder σ Token := ofAction Action.peek

def advance : Builder σ Token := ofAction Action.advance

def takeSemicolon : Builder σ Unit := ofAction Action.takeSemicolon

@[simp] theorem run_ofAction (x : Action σ α) (p : Parser σ) :
    run (ofAction x) p = (.ok (x.run p).1, (x.run p).2) := rfl

@[simp] theorem run_current (p : Parser σ) : run current p = (.ok p.current, p) := rfl

@[simp] theorem run_peek (p : Parser σ) : run peek p = (.ok p.peek, p) := rfl

@[simp] theorem run_advance (p : Parser σ) : run advance p = (.ok p.current, p.advance) := rfl

theorem run_takeSemicolon (p : Parser σ) :
    run takeSemicolon p = (.ok (), if p.peek.kind = .semicolon then p.advance else p) := by
  rw [takeSemicolon, run_ofAction, Action.run_takeSemicolon]

theorem run_bind (b : Builder σ α) (f : α → Builder σ β) (p : Parser σ) :
    run (b >>= f) p = match run b p with
      | (.ok a, q) => run (f a) q
      | (.error d, q) => (.error d, q) := by
  change ((ExceptT.bindCont f) ((ExceptT.run b).run p).1).run ((ExceptT.run b).run p).2 = _
  unfold run
  rcases (ExceptT.run b).run p with ⟨_ | a, q⟩ <;> rfl

theorem run_bind_of_ok {b : Builder σ α} {f : α → Builder σ β} {p q : Parser σ} {a : α}
    (h : run b p = (.ok a, q)) : run (b >>= f) p = run (f a) q := by
  rw [run_bind, h]

theorem run_bind_of_error {b : Builder σ α} {f : α → Builder σ β} {p q : Parser σ} {d : Diagnostic}
    (h : run b p = (.error d, q)) : run (b >>= f) p = (.error d, q) := by
  rw [run_bind, h]

/-- Move on to the next token if it is of the given kind. -/
def expect (kind : Kind) : Builder σ Token := do
  let ahead ← peek
  if ahead.kind = kind then
    let _ ← advance
    current
  else
    throw ⟨.unexpected kind ahead.kind, ahead.span.start⟩

theorem run_expect (kind : Kind) (p : Parser σ) :
    run (expect kind) p =
      if p.peek.kind = kind then (.ok p.peek, p.advance)
      else (.error ⟨.unexpected kind p.peek.kind, p.peek.span.start⟩, p) := by
  by_cases h : p.peek.kind = kind
  · simp [expect, run_bind, h]
    rfl
  · simp [expect, run_bind, h]

end Builder

end MonkeyFrontEnd
