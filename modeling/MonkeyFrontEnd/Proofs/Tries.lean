import MonkeyFrontEnd.Proofs.Depths
import MonkeyFrontEnd.Proofs.Progress
import MonkeyFrontEnd.Proofs.StateMap

/-!
Tries for statements. To read a list of statements is to try for one after the other, and a try has
inside it the tries in the blocks that it reads. Each of them is a run of `Grammar.attempt` from some
state, and between two states they are chained: each list of statements that is read is there as a
whole, and nothing else is reported. So the reports of a parser are those of its tries, each behind
those inside it (`Try.Sound.reports_eq`), and the statements that a list gives hold what its tries have
saved (`Try.postorder_filterMap_outcome`).
-/

namespace MonkeyFrontEnd

/-! ## Reports -/

def Event.isIllegal : Event → Bool
  | illegal _ _ => true
  | _ => false

variable {σ : Type} [TokenSource σ]

namespace Parser

/-- The events other than those of illegal characters. -/
def reports (p : Parser σ) : List Event := p.events.toList.filter (!·.isIllegal)

/-- What is announced is an illegal character. -/
theorem isIllegal_of_announced {pulled : Token × σ} {event : Event}
    (h : announced? pulled = some event) : event.isIllegal = true := by
  unfold announced? at h
  split at h
  · split at h
    · cases h
      rfl
    · cases h
  · cases h

/-- Where illegal characters are left out, nothing is announced. -/
theorem filter_announce {keep : Event → Bool} (hkeep : ∀ event, event.isIllegal = true → ¬ keep event)
    (events : Array Event) (pulled : Token × σ) :
    (announce events pulled).toList.filter keep = events.toList.filter keep := by
  rw [toList_announce, List.filter_append]
  cases hevent : announced? pulled with
  | none => simp
  | some event => simp [hkeep event (isIllegal_of_announced hevent)]

@[simp] theorem reports_advance (p : Parser σ) : p.advance.reports = p.reports :=
  filter_announce (by simp) p.events _

@[simp] theorem reports_record (p : Parser σ) (d : Diagnostic) :
    (p.record d).reports = p.reports ++ [.failed d] := by
  simp [reports, record, Event.isIllegal]

@[simp] theorem reports_complete (p : Parser σ) (s : Stmt) :
    (p.complete s).reports = p.reports ++ [.parsed s] := by
  simp [reports, complete, Event.isIllegal]

theorem reports_skipToEnd (p : Parser σ) : p.skipToEnd.reports = p.reports := by
  fun_induction skipToEnd p with
  | case1 => rfl
  | case2 p _ ih => rw [ih, reports_advance]

theorem reports_start (s : σ) : (start s).reports = [] := by
  unfold reports start
  rw [filter_announce (by simp), filter_announce (by simp)]
  rfl

end Parser

/-- Recovery reports the failure, and nothing else. -/
theorem Grammar.reports_recover (d : Diagnostic) (p : Parser σ) :
    ((recover d).run p).2.reports = p.reports ++ [.failed d] := by
  rw [recover, Action.run_bind, Action.run_record]
  split
  · rw [Action.run_skipToEnd, Parser.reports_skipToEnd, Parser.reports_record]
  · rw [Action.run_takeSemicolon]
    split <;> simp

/-- The parser moves on from `p` to `q` and reports nothing. -/
structure Parser.Passes (p q : Parser σ) : Prop where
  cursor : p.cursor.Reaches q.cursor
  depth : q.depth = p.depth
  reports : q.reports = p.reports

namespace Parser.Passes

variable {p m q : Parser σ}

theorem refl (p : Parser σ) : p.Passes p := ⟨.here, rfl, rfl⟩

theorem trans (h : p.Passes m) (hlater : m.Passes q) : p.Passes q :=
  ⟨h.cursor.trans hlater.cursor, hlater.depth.trans h.depth, hlater.reports.trans h.reports⟩

theorem advance (p : Parser σ) : p.Passes p.advance := ⟨.onward .here, rfl, p.reports_advance⟩

theorem passSemicolon (p : Parser σ) : p.Passes p.passSemicolon := by
  unfold Parser.passSemicolon
  split
  · exact advance p
  · exact refl p

theorem tokens_suffix (h : p.Passes q) : q.tokens <:+ p.tokens := h.cursor.tokens_suffix

end Parser.Passes

/-! ## Tries -/

/-- A run of the rule that tries for a statement: the expressions that may still be entered inside one
another, and the state in which it begins. -/
structure Attempt (σ : Type) [TokenSource σ] where
  room : Nat
  start : Parser σ

namespace Attempt

/-- The statement or the failure, and the state behind it. -/
def read (a : Attempt σ) : Except Diagnostic Stmt × Parser σ :=
  (Grammar.statement (Grammar.expressionAt a.room)).run a.start

def outcome (a : Attempt σ) : Except Diagnostic Stmt := a.read.1

/-- The state in which the next statement is looked for. -/
def next (a : Attempt σ) : Parser σ :=
  ((Grammar.attempt (Grammar.expressionAt a.room)).run a.start).2.advance

/-- The tokens in front of the next statement. -/
def passed (a : Attempt σ) : List Token :=
  a.start.tokens.take (a.start.tokens.length - a.next.tokens.length)

theorem frame_next (a : Attempt σ) : Frame a.start a.next :=
  (Grammar.framed_attempt (Grammar.framed_expressionAt a.room) a.start).trans (Frame.advance _)

theorem tokens_eq (a : Attempt σ) : a.start.tokens = a.passed ++ a.next.tokens := by
  obtain ⟨before, hbefore⟩ := a.frame_next.tokens_suffix
  rw [passed, ← hbefore, List.length_append, Nat.add_sub_cancel_right, List.take_left]

end Attempt

/-- A try for a statement: its run, and the tries in the blocks that it reads. -/
inductive Try (σ : Type) [TokenSource σ] where
  | mk (run : Attempt σ) (inner : List (Try σ))

namespace Try

def run : Try σ → Attempt σ
  | mk run _ => run

def inner : Try σ → List (Try σ)
  | mk _ inner => inner

def passed (t : Try σ) : List Token := t.run.passed

def outcome (t : Try σ) : Except Diagnostic Stmt := t.run.outcome

/-- What is reported of an outcome. -/
def report : Except Diagnostic Stmt → Event
  | .ok s => .parsed s
  | .error d => .failed d

mutual

/-- The reports of a try, its own one last. -/
def log : Try σ → List Event
  | mk run inner => logAll inner ++ [report run.outcome]
termination_by structural t => t

def logAll : List (Try σ) → List Event
  | [] => []
  | t :: rest => t.log ++ logAll rest
termination_by structural ts => ts

end

mutual

/-- The statements completed in a try, its own one last. A try that fails loses all of them. -/
def saved : Try σ → List Stmt
  | mk run inner =>
    match run.outcome with
    | .ok s => savedAll inner ++ [s]
    | .error _ => []
termination_by structural t => t

def savedAll : List (Try σ) → List Stmt
  | [] => []
  | t :: rest => t.saved ++ savedAll rest
termination_by structural ts => ts

end

/-- A try is one of some tries, or inside one of them. -/
inductive Within (t : Try σ) : List (Try σ) → Prop
  | here {ts : List (Try σ)} (h : t ∈ ts) : Within t ts
  | inside {u : Try σ} {ts : List (Try σ)} (hu : u ∈ ts) (h : Within t u.inner) : Within t ts

/-- The try fails, and loses the statements completed inside it. -/
def Fails (t : Try σ) : Prop := ∃ d, t.outcome = .error d

/-- The report with this number is made while the try is running. -/
def Reports (t : Try σ) (n : Nat) : Prop :=
  t.run.start.reports.length ≤ n ∧ n < t.run.next.reports.length

end Try

/-- A list of statements is read from `p` to `q`: each try begins where the one before it has ended, and
the list goes on until it closes. -/
inductive Listed (room : Nat) (closing : Option Kind) : Parser σ → Parser σ → List (Try σ) → Prop
  | done {p : Parser σ} (h : Grammar.closes closing p.current.kind) : Listed room closing p p []
  | more {p q : Parser σ} {t : Try σ} {ts : List (Try σ)} (h : ¬ Grammar.closes closing p.current.kind)
    (hrun : t.run = ⟨room, p⟩) (hrest : Listed room closing t.run.next q ts) :
    Listed room closing p q (t :: ts)

/-- From `p` to `q` these tries were made in blocks, one block behind the other, and else nothing was
reported. So many expressions may be entered inside one another. -/
inductive Chained : Nat → Parser σ → Parser σ → List (Try σ) → Prop
  | quiet {room : Nat} {p q : Parser σ} (h : p.Passes q) : Chained room p q []
  | block {room : Nat} {p m n q : Parser σ} {ts us : List (Try σ)} (h : p.Passes m)
    (hbrace : m.current.kind = .openCurly)
    (hlist : Listed room (some .closeCurly) m.advance n ts) (hrest : Chained room n q us) :
    Chained room p q (ts ++ us)
  /-- An expression is entered and left again. -/
  | nested {room : Nat} {p m n q : Parser σ} {ts us : List (Try σ)} (h : p.Passes m)
    (hinside : Chained room { m with depth := m.depth + 1 } n ts)
    (hrest : Chained (room + 1) n.leave q us) : Chained (room + 1) p q (ts ++ us)

namespace Try

/-- What a try passes when it completes a statement, and the tries inside it. The statement begins with
the first token passed, keeps no others, and holds what the tries inside have saved. -/
structure Completes (passed : List Token) (inner : List (Try σ)) (s : Stmt) : Prop where
  token : passed.head? = some s.token
  kept : s.kept.Sublist passed
  inner_eq : s.inner = savedAll inner

/-- The tries inside a try are those made while its statement is read. -/
inductive Sound : Try σ → Prop
  | mk {a : Attempt σ} {inner : List (Try σ)} (inside : ∀ t ∈ inner, t.Sound)
    (chained : Chained a.room a.start a.read.2 inner)
    (completes : ∀ s, a.outcome = .ok s → Completes a.passed inner s) : Sound (mk a inner)

end Try

/-! ## What a run reports and passes -/

namespace Try

theorem logAll_append (ts us : List (Try σ)) : logAll (ts ++ us) = logAll ts ++ logAll us := by
  induction ts with
  | nil => rfl
  | cons t ts ih => rw [List.cons_append, logAll, logAll, ih, List.append_assoc]

theorem savedAll_append (ts us : List (Try σ)) : savedAll (ts ++ us) = savedAll ts ++ savedAll us := by
  induction ts with
  | nil => rfl
  | cons t ts ih => rw [List.cons_append, savedAll, savedAll, ih, List.append_assoc]

theorem mem_savedAll_iff {s : Stmt} {ts : List (Try σ)} : s ∈ savedAll ts ↔ ∃ t ∈ ts, s ∈ t.saved := by
  induction ts with
  | nil => simp [savedAll]
  | cons t ts ih => simp [savedAll, ih]

end Try

namespace Attempt

variable {a : Attempt σ} {d : Diagnostic} {s : Stmt} {m : Parser σ}

theorem next_of_error (h : a.read = (.error d, m)) : a.next = ((Grammar.recover d).run m).2.advance := by
  rw [next, Grammar.run_attempt_of_error h]

theorem next_of_ok (h : a.read = (.ok s, m)) : a.next = (m.complete s).advance := by
  rw [next, Grammar.run_attempt_of_ok h]

/-- What the run gives to the list of statements. -/
theorem given (a : Attempt σ) :
    ((Grammar.attempt (Grammar.expressionAt a.room)).run a.start).1 = a.outcome.toOption := by
  rcases hread : a.read with ⟨d | s, m⟩
  · rw [Grammar.run_attempt_of_error hread, outcome, hread]
    rfl
  · rw [Grammar.run_attempt_of_ok hread, outcome, hread]
    rfl

theorem reports_next (a : Attempt σ) :
    a.next.reports = a.read.2.reports ++ [Try.report a.outcome] := by
  rcases hread : a.read with ⟨d | s, m⟩
  · rw [next_of_error hread, Parser.reports_advance, Grammar.reports_recover, outcome, hread]
    rfl
  · rw [next_of_ok hread, Parser.reports_advance, Parser.reports_complete, outcome, hread]
    rfl

theorem next_suffix (a : Attempt σ) : a.next.tokens <:+ a.read.2.tokens := by
  rcases hread : a.read with ⟨d | s, m⟩
  · rw [next_of_error hread]
    exact ((Grammar.framed_recover d m).trans (Frame.advance _)).tokens_suffix
  · rw [next_of_ok hread]
    exact m.ahead_suffix_tokens

/-- What is passed before the end of the statement is passed by the run. -/
theorem sublist_passed {before : List Token} (a : Attempt σ)
    (h : (before ++ a.read.2.tokens).Sublist a.start.tokens) : before.Sublist a.passed := by
  have hnext := (a.next_suffix.sublist.append_left before).trans h
  rw [a.tokens_eq] at hnext
  exact (List.append_sublist_append_right _).1 hnext

end Attempt

namespace Listed

variable {room : Nat} {closing : Option Kind} {p q : Parser σ} {ts : List (Try σ)}

theorem frame (h : Listed room closing p q ts) : Frame p q := by
  induction h with
  | done => exact .refl _
  | @more p q t ts _ hrun _ ih =>
    have hnext := t.run.frame_next
    rw [hrun] at hnext ih
    exact hnext.trans ih

/-- The tries of a list take its tokens one after the other. -/
theorem tokens_eq (h : Listed room closing p q ts) :
    p.tokens = ts.flatMap Try.passed ++ q.tokens := by
  induction h with
  | done => rfl
  | @more p q t ts _ hrun _ ih =>
    have htokens := t.run.tokens_eq
    rw [ih, hrun] at htokens
    rw [htokens, List.flatMap_cons, Try.passed, hrun, List.append_assoc]

theorem reports_eq (h : Listed room closing p q ts)
    (hts : ∀ t ∈ ts, t.run.next.reports = t.run.start.reports ++ t.log) :
    q.reports = p.reports ++ Try.logAll ts := by
  induction h with
  | done => rw [Try.logAll, List.append_nil]
  | @more p q t ts _ hrun _ ih =>
    rw [List.forall_mem_cons] at hts
    rw [ih hts.2, hts.1, hrun, Try.logAll, List.append_assoc]

/-- These are the statements that the list of them gives, and the state behind it. -/
theorem run_eq (h : Listed room closing p q ts) :
    (Grammar.statements (Grammar.expressionAt room) closing).run p =
      (ts.filterMap (·.outcome.toOption), q) := by
  induction h with
  | done h => exact Grammar.run_statements_of_closes _ h
  | @more p q t ts h hrun _ ih =>
    have hgiven : ((Grammar.attempt (Grammar.expressionAt room)).run p).1 = t.outcome.toOption := by
      rw [Try.outcome, hrun]
      exact Attempt.given ⟨room, p⟩
    have hnext : t.run.next = ((Grammar.attempt (Grammar.expressionAt room)).run p).2.advance := by
      rw [hrun, Attempt.next]
    rw [hnext] at ih
    rw [Grammar.run_statements_of_not_closes _ h, ih, hgiven, List.filterMap_cons]
    cases t.outcome.toOption <;> rfl

end Listed

namespace Chained

variable {room : Nat} {p m q : Parser σ} {ts us : List (Try σ)}

theorem of_passes (h : p.Passes m) (hlater : Chained room m q ts) : Chained room p q ts := by
  cases hlater with
  | quiet hquiet => exact .quiet (h.trans hquiet)
  | block hquiet hbrace hlist hrest => exact .block (h.trans hquiet) hbrace hlist hrest
  | nested hquiet hinside hrest => exact .nested (h.trans hquiet) hinside hrest

theorem append (h : Chained room p m ts) (hlater : Chained room m q us) :
    Chained room p q (ts ++ us) := by
  induction h with
  | quiet hquiet => exact hlater.of_passes hquiet
  | block hquiet hbrace hlist _ ih =>
    rw [List.append_assoc]
    exact .block hquiet hbrace hlist (ih hlater)
  | nested hquiet hinside _ _ ih =>
    rw [List.append_assoc]
    exact .nested hquiet hinside (ih hlater)

theorem frame_cursor (h : Chained room p q ts) : p.cursor.Reaches q.cursor ∧ q.depth = p.depth := by
  induction h with
  | quiet hquiet => exact ⟨hquiet.cursor, hquiet.depth⟩
  | block hquiet _ hlist _ ih =>
    have hframe := (Frame.advance _).trans hlist.frame
    exact ⟨(hquiet.cursor.trans hframe.cursor).trans ih.1,
      (ih.2.trans hframe.depth).trans hquiet.depth⟩
  | nested hquiet _ _ ihinside ih =>
    refine ⟨(hquiet.cursor.trans ihinside.1).trans ih.1, (ih.2.trans ?_).trans hquiet.depth⟩
    rw [Parser.leave, ihinside.2]
    rfl

/-- The tries lie in order among the tokens. -/
theorem tokens_sublist (h : Chained room p q ts) :
    (ts.flatMap Try.passed ++ q.tokens).Sublist p.tokens := by
  induction h with
  | quiet hquiet => exact hquiet.tokens_suffix.sublist
  | @block room p m n q ts us hquiet _ hlist _ ih =>
    have hbehind : (ts.flatMap Try.passed ++ n.tokens).Sublist p.tokens := by
      rw [← hlist.tokens_eq]
      exact (m.ahead_suffix_tokens.trans hquiet.tokens_suffix).sublist
    rw [List.flatMap_append, List.append_assoc]
    exact (ih.append_left _).trans hbehind
  | nested hquiet _ _ ihinside ih =>
    rw [List.flatMap_append, List.append_assoc]
    exact ((ih.append_left _).trans ihinside).trans hquiet.tokens_suffix.sublist

theorem reports_eq (h : Chained room p q ts)
    (hts : ∀ t ∈ ts, t.run.next.reports = t.run.start.reports ++ t.log) :
    q.reports = p.reports ++ Try.logAll ts := by
  induction h with
  | quiet hquiet => rw [hquiet.reports, Try.logAll, List.append_nil]
  | @block room p m n q ts us hquiet _ hlist _ ih =>
    rw [List.forall_mem_append] at hts
    rw [ih hts.2, hlist.reports_eq hts.1, Parser.reports_advance, hquiet.reports, Try.logAll_append,
      List.append_assoc]
  | @nested room p m n q ts us hquiet _ _ ihinside ih =>
    rw [List.forall_mem_append] at hts
    have hinside : n.leave.reports = m.reports ++ Try.logAll ts := ihinside hts.1
    rw [ih hts.2, hinside, hquiet.reports, Try.logAll_append, List.append_assoc]

end Chained

/-! ## What is saved -/

namespace Try

variable {t : Try σ} {ts : List (Try σ)} {s : Stmt}

/-- A try reports what is reported inside it, and then its outcome. -/
theorem Sound.reports_eq (h : t.Sound) : t.run.next.reports = t.run.start.reports ++ t.log := by
  induction h with
  | @mk a inner _ chained _ ih =>
    change a.next.reports = a.start.reports ++ (logAll inner ++ [report a.outcome])
    rw [a.reports_next, chained.reports_eq ih, List.append_assoc]

theorem saved_of_ok {a : Attempt σ} (h : a.outcome = .ok s) (inner : List (Try σ)) :
    (mk a inner).saved = savedAll inner ++ [s] := by
  simp only [saved, h]

theorem saved_of_error {a : Attempt σ} {d : Diagnostic} (h : a.outcome = .error d)
    (inner : List (Try σ)) : (mk a inner).saved = [] := by
  simp only [saved, h]

/-- The statement that a try gives, if any, holds what the try has saved. -/
theorem Sound.postorder_outcome (h : t.Sound) : Stmt.postorder t.outcome.toOption.toList = t.saved := by
  cases h with
  | @mk a inner _ _ completes =>
    rw [outcome, run]
    cases hread : a.outcome with
    | error d =>
      rw [saved_of_error hread]
      rfl
    | ok s =>
      rw [saved_of_ok hread, ← (completes s hread).inner_eq]
      rfl

theorem postorder_filterMap_outcome (h : ∀ t ∈ ts, t.Sound) :
    Stmt.postorder (ts.filterMap (·.outcome.toOption)) = savedAll ts := by
  rw [List.filterMap_eq_flatMap_toList]
  induction ts with
  | nil => rfl
  | cons t ts ih =>
    rw [List.forall_mem_cons] at h
    rw [List.flatMap_cons, Stmt.postorder_append, h.1.postorder_outcome, ih h.2, savedAll]

/-- What a try saves it has passed. -/
theorem Sound.token_mem (h : t.Sound) (hs : s ∈ t.saved) : s.token ∈ t.passed := by
  induction h generalizing s with
  | @mk a inner _ chained completes ih =>
    cases hread : a.outcome with
    | error d =>
      rw [saved_of_error hread] at hs
      cases hs
    | ok s' =>
      rw [saved_of_ok hread] at hs
      rcases List.mem_append.1 hs with hs | hs
      · obtain ⟨t, ht, hst⟩ := mem_savedAll_iff.1 hs
        have hinside := List.mem_flatMap.2 ⟨t, ht, ih t ht hst⟩
        exact (a.sublist_passed chained.tokens_sublist).subset hinside
      · rw [List.mem_singleton.1 hs]
        exact List.mem_of_mem_head? (completes s' hread).token

end Try

end MonkeyFrontEnd
