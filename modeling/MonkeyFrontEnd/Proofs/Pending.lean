import MonkeyFrontEnd.Proofs.Interchange
import MonkeyFrontEnd.Proofs.Scans

/-!
Pushed tokens beside scanned ones. The tokens that a caller pushes and those that the lexer scans wait
in one queue, `Lexer.pending`. A caller pushes and asks for tokens in any order, and each outcome is
noted (`Lexer.Serves`): a token was pushed, a pending one was handed out, or the text was scanned for
one. A scan leaves at most one token behind, which the loop around it takes at once
(`Lexer.Pulls.pending_eq_nil`); so the queue holds pushed tokens only, they come out as they went in,
and the scanned tokens are those of a lexer to which nothing was pushed
(`Lexer.exists_serves_undisturbed`).
-/

namespace MonkeyFrontEnd.Lexer

open Text (OffsetFault)

/-! ## Scans and the queue -/

variable {l m q q' : Lexer} {t t' : Token} {rest : List Char}

/-- A scan pushes one token at most. -/
theorem pending_of_scan (h : l.scan = .ok m) :
    m.pending = l.pending ∨ ∃ t, m.pending = l.pending ++ [t] := by
  cases hrest : l.remainder with
  | error fault =>
    rw [scan, hrest] at h
    cases h
  | ok rest =>
    cases hnext : Lexeme.next? rest with
    | none =>
      have hstays : l.scan = .ok l := by
        rw [scan, hrest]
        simp only [bind, Except.bind, hnext]
        rfl
      rw [hstays] at h
      cases h
      exact .inl rfl
    | some found =>
      obtain ⟨lexeme, behind⟩ := found
      rw [scan_eq_ok hrest hnext] at h
      cases h
      cases lexeme.kind with
      | none => exact .inl rfl
      | some kind => exact .inr ⟨_, rfl⟩

/-- What a scan pushes is taken by the call that scanned it: where one token or none was pending,
none is left. -/
theorem Pulls.pending_eq_nil (h : l.Pulls t q) (hpending : l.pending.length ≤ 1) : q.pending = [] := by
  induction h with
  | @pending l t ts hqueue =>
    have hnone : ts.length = 0 := by
      rw [hqueue, List.length_cons] at hpending
      omega
    exact List.eq_nil_of_length_eq_zero hnone
  | last hnil hend => exact hnil
  | @scan l m q t hnil hend hscan hlater ih =>
    apply ih
    rcases pending_of_scan hscan with hsame | ⟨pushed, hone⟩
    · simp [hsame, hnil]
    · simp [hone, hnil]

/-- A call that finds a token pending takes the first one, and reads nothing. -/
theorem Pulls.of_pending (h : l.Pulls t q) (hpending : l.pending ≠ []) :
    l.pending = t :: q.pending ∧ q = { l with pending := q.pending } := by
  cases h with
  | pending hqueue => exact ⟨hqueue, rfl⟩
  | last hnil hend => exact absurd hnil hpending
  | scan hnil hend hscan hlater => exact absurd hnil hpending

theorem Pulls.unique (h : l.Pulls t q) (h' : l.Pulls t' q') : t = t' ∧ q = q' := by
  induction h with
  | pending hqueue =>
    cases h' with
    | pending hqueue' =>
      rw [hqueue] at hqueue'
      cases hqueue'
      exact ⟨rfl, rfl⟩
    | last hnil hend => simp [hqueue] at hnil
    | scan hnil hend hscan hlater => simp [hqueue] at hnil
  | last hnil hend =>
    cases h' with
    | pending hqueue => simp [hnil] at hqueue
    | last => exact ⟨rfl, rfl⟩
    | scan _ hshort _ _ => simp [hend] at hshort
  | scan hnil hshort hscan hlater ih =>
    cases h' with
    | pending hqueue => simp [hnil] at hqueue
    | last _ hend => simp [hend] at hshort
    | scan _ _ hscan' hlater' =>
      rw [hscan] at hscan'
      cases hscan'
      exact ih hlater'

/-- From a place between two characters the loop over scans gives what `next` gives. -/
theorem Pulls.next_eq (h : l.Pulls t q) (hrest : l.remainder = .ok rest) : l.next = .ok (t, q) := by
  obtain ⟨t', q', hpulls, hnext, -⟩ := exists_pulls hrest
  obtain ⟨rfl, rfl⟩ := h.unique hpulls
  exact hnext

theorem Pulls.exists_remainder (h : l.Pulls t q) (hrest : l.remainder = .ok rest) :
    ∃ later, q.remainder = .ok later := by
  obtain ⟨t', q', hpulls, -, hplace⟩ := exists_pulls hrest
  obtain ⟨-, rfl⟩ := h.unique hpulls
  exact hplace

/-! ## Requests -/

inductive Request where
  | next
  | push (t : Token)
  deriving DecidableEq, Repr

/-- What has come of a request. -/
inductive Outcome where
  /-- The token was pushed. -/
  | pushed (t : Token)
  /-- The token was pending and was handed out. -/
  | handed (t : Token)
  /-- No token was pending, so the text was scanned for this one. -/
  | scanned (t : Token)
  deriving DecidableEq, Repr

namespace Outcome

def request : Outcome → Request
  | pushed t => .push t
  | handed _ => .next
  | scanned _ => .next

def pushed? : Outcome → Option Token
  | pushed t => some t
  | _ => none

def handed? : Outcome → Option Token
  | handed t => some t
  | _ => none

def scanned? : Outcome → Option Token
  | scanned t => some t
  | _ => none

/-- The token that was given, pending or not. -/
def given? : Outcome → Option Token
  | pushed _ => none
  | handed t => some t
  | scanned t => some t

end Outcome

/-- Serve one request after the other, and give the tokens that were asked for. -/
def serve (l : Lexer) : List Request → Except OffsetFault (List Token × Lexer)
  | [] => .ok ([], l)
  | .push t :: requests => (l.push t).serve requests
  | .next :: requests => do
    let (t, later) ← l.next
    let (ts, last) ← later.serve requests
    return (t :: ts, last)

/-- Requests are served one after the other with these outcomes, by the loop over scans. -/
inductive Serves : Lexer → List Outcome → Lexer → Prop
  | nil (l : Lexer) : Serves l [] l
  | pushed {l q : Lexer} {t : Token} {outcomes : List Outcome}
      (hlater : Serves (l.push t) outcomes q) : Serves l (.pushed t :: outcomes) q
  | handed {l m q : Lexer} {t : Token} {outcomes : List Outcome} (hpending : l.pending ≠ [])
      (hpulls : l.Pulls t m) (hlater : Serves m outcomes q) : Serves l (.handed t :: outcomes) q
  | scanned {l m q : Lexer} {t : Token} {outcomes : List Outcome} (hpending : l.pending = [])
      (hpulls : l.Pulls t m) (hlater : Serves m outcomes q) : Serves l (.scanned t :: outcomes) q

variable {outcomes before after : List Outcome}

/-- Between two characters every request is served. -/
theorem exists_serves (hrest : l.remainder = .ok rest) (requests : List Request) :
    ∃ outcomes q, l.Serves outcomes q ∧ outcomes.map Outcome.request = requests ∧
      l.serve requests = .ok (outcomes.filterMap Outcome.given?, q) := by
  induction requests generalizing l rest with
  | nil => exact ⟨[], l, .nil l, rfl, rfl⟩
  | cons request requests ih =>
    cases request with
    | push t =>
      obtain ⟨outcomes, q, hserves, hrequests, hserve⟩ := ih (l := l.push t) hrest
      exact ⟨.pushed t :: outcomes, q, .pushed hserves, by simp [Outcome.request, hrequests], hserve⟩
    | next =>
      obtain ⟨t, m, hpulls, hnext, later, hlater⟩ := exists_pulls hrest
      obtain ⟨outcomes, q, hserves, hrequests, hserve⟩ := ih hlater
      have hgiven : l.serve (.next :: requests) = .ok (t :: outcomes.filterMap Outcome.given?, q) := by
        rw [serve, hnext]
        change (m.serve requests >>= _) = _
        rw [hserve]
        rfl
      by_cases hpending : l.pending = []
      · exact ⟨.scanned t :: outcomes, q, .scanned hpending hpulls hserves,
          by simp [Outcome.request, hrequests], hgiven⟩
      · exact ⟨.handed t :: outcomes, q, .handed hpending hpulls hserves,
          by simp [Outcome.request, hrequests], hgiven⟩

/-- The queue is first in, first out, and only callers put tokens into it for longer than a call. -/
theorem Serves.queue (h : l.Serves outcomes q) :
    l.pending ++ outcomes.filterMap Outcome.pushed? =
      outcomes.filterMap Outcome.handed? ++ q.pending := by
  induction h with
  | nil l => simp
  | @pushed l q t outcomes hlater ih =>
    rw [push, List.append_assoc] at ih
    exact ih
  | @handed l m q t outcomes hpending hpulls hlater ih =>
    rw [(hpulls.of_pending hpending).1]
    exact congrArg (t :: ·) ih
  | @scanned l m q t outcomes hpending hpulls hlater ih =>
    rw [hpulls.pending_eq_nil (by simp [hpending])] at ih
    rw [hpending]
    exact ih

/-- Serving is cut at any outcome. -/
theorem Serves.exists_between (h : l.Serves (before ++ after) q) :
    ∃ m, l.Serves before m ∧ m.Serves after q := by
  induction before generalizing l with
  | nil => exact ⟨l, .nil l, h⟩
  | cons outcome before ih =>
    cases h with
    | pushed hlater =>
      obtain ⟨m, hbefore, hafter⟩ := ih hlater
      exact ⟨m, .pushed hbefore, hafter⟩
    | handed hpending hpulls hlater =>
      obtain ⟨m, hbefore, hafter⟩ := ih hlater
      exact ⟨m, .handed hpending hpulls hbefore, hafter⟩
    | scanned hpending hpulls hlater =>
      obtain ⟨m, hbefore, hafter⟩ := ih hlater
      exact ⟨m, .scanned hpending hpulls hbefore, hafter⟩

/-- The lexer as if nothing had been pushed. -/
def unpushed (l : Lexer) : Lexer := { l with pending := [] }

theorem unpushed_of_pending_nil (h : l.pending = []) : l.unpushed = l := by
  rw [unpushed, ← h]

/-- The scanned tokens are the first ones of the lexer to which nothing was pushed. -/
theorem Serves.take_unpushed (h : l.Serves outcomes q) (hrest : l.remainder = .ok rest) :
    l.unpushed.take (outcomes.filterMap Outcome.scanned?).length =
      .ok (outcomes.filterMap Outcome.scanned?) := by
  induction h generalizing rest with
  | nil l => rfl
  | pushed hlater ih => exact ih hrest
  | @handed l m q t outcomes hpending hpulls hlater ih =>
    obtain ⟨later, hplace⟩ := hpulls.exists_remainder hrest
    have hsame : m.unpushed = l.unpushed := by rw [(hpulls.of_pending hpending).2, unpushed, unpushed]
    rw [← hsame]
    exact ih hplace
  | @scanned l m q t outcomes hpending hpulls hlater ih =>
    obtain ⟨later, hplace⟩ := hpulls.exists_remainder hrest
    have htake := ih hplace
    rw [unpushed_of_pending_nil (hpulls.pending_eq_nil (by simp [hpending]))] at htake
    rw [unpushed_of_pending_nil hpending]
    change l.take (_ + 1) = _
    rw [take, hpulls.next_eq hrest]
    change (m.take _ >>= _) = _
    rw [htake]
    rfl

/-- Pushed and scanned tokens do not disturb each other. -/
structure Undisturbed (l : Lexer) (outcomes : List Outcome) (q : Lexer) : Prop where
  /-- Pushed tokens are handed out in their order, and the others among them are pending. -/
  queue : outcomes.filterMap Outcome.pushed? = outcomes.filterMap Outcome.handed? ++ q.pending
  /-- Wherever the text is scanned, all tokens that were pushed before were handed out before. The
  call begins and ends with no token pending. -/
  scan : ∀ before t after, outcomes = before ++ .scanned t :: after →
    before.filterMap Outcome.pushed? = before.filterMap Outcome.handed? ∧
      ∃ m m', l.Serves before m ∧ m.pending = [] ∧ m.Pulls t m' ∧ m'.pending = [] ∧
        m'.Serves after q
  /-- The tokens scanned are the first ones that the lexer gives when nothing is pushed. -/
  take : l.take (outcomes.filterMap Outcome.scanned?).length =
    .ok (outcomes.filterMap Outcome.scanned?)
  /-- At the end of the text they are that end again and again. -/
  yields : ∃ tokens last, l.Yields tokens last ∧ outcomes.filterMap Outcome.scanned? =
    (tokens ++ List.replicate (outcomes.filterMap Outcome.scanned?).length last).take
      (outcomes.filterMap Outcome.scanned?).length

theorem Serves.undisturbed {r : Reader} (h : r.lexer.Serves outcomes q) :
    Undisturbed r.lexer outcomes q := by
  have htake : r.lexer.take (outcomes.filterMap Outcome.scanned?).length =
      .ok (outcomes.filterMap Outcome.scanned?) := by
    have hscanned := h.take_unpushed r.remainder_eq
    rwa [unpushed_of_pending_nil r.pending_eq] at hscanned
  constructor
  case queue =>
    have hqueue := h.queue
    rwa [r.pending_eq, List.nil_append] at hqueue
  case scan =>
    rintro before t after rfl
    obtain ⟨m, hbefore, hscan⟩ := h.exists_between
    cases hscan with
    | @scanned m m' q t after hpending hpulls hafter =>
      have hqueue := hbefore.queue
      rw [r.pending_eq, hpending, List.nil_append, List.append_nil] at hqueue
      exact ⟨hqueue, m, m', hbefore, hpending, hpulls, hpulls.pending_eq_nil (by simp [hpending]),
        hafter⟩
  case take => exact htake
  case yields =>
    refine ⟨_, _, r.yields_drain, ?_⟩
    rw [Reader.lexer_take, TokenSource.take_eq] at htake
    exact (Except.ok.inj htake).symm

/-- However a caller pushes tokens to a fresh lexer and asks it for tokens, every request is served,
and what is given is what was handed out or scanned. The tokens pushed come out in their order, each
before anything that a later call scans, and the others are those of the text. -/
theorem exists_serves_undisturbed (text file : String) (requests : List Request) :
    ∃ outcomes q, (ofString text file).Serves outcomes q ∧
      outcomes.map Outcome.request = requests ∧
      (ofString text file).serve requests = .ok (outcomes.filterMap Outcome.given?, q) ∧
      Undisturbed (ofString text file) outcomes q := by
  obtain ⟨outcomes, q, hserves, hrequests, hserve⟩ :=
    exists_serves (Reader.ofString text file).remainder_eq requests
  exact ⟨outcomes, q, hserves, hrequests, hserve, hserves.undisturbed⟩

example :
    let mark (text : String) : Token := .unplaced .semicolon text
    (((ofString "a // b\n c" "f").serve
      [.next, .push (mark "1"), .push (mark "2"), .next, .next, .next, .next]).toOption.map
        fun given => given.1.map (·.text)) = some ["a", "1", "2", "c", ""] := by
  decide +kernel

end MonkeyFrontEnd.Lexer
