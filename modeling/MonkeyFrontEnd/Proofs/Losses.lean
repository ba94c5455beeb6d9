import MonkeyFrontEnd.Proofs.Gathering

/-!
What a parse saves and what it loses. A program was read by tries that take all its tokens
(`exists_isReadBy`), each of them a run of the rule that the parser has for statements
(`Program.IsReadBy.runs`). The statements of the program are those that the tries save, and a statement
that was completed and is not among them was lost by a failed try that was running at that time
(`Program.IsReadBy.saved_or_lost`).
-/

namespace MonkeyFrontEnd

variable {σ : Type} [TokenSource σ]

/-! ## What is lost -/

/-- What is reported between the two states is reported while one of these tries is running. -/
def Covers (ts : List (Try σ)) (p q : Parser σ) : Prop :=
  ∀ n, p.reports.length ≤ n → n < q.reports.length →
    ∃ t ∈ ts, t.Reports n ∧ t.run.next.reports <+: q.reports

section

variable {room : Nat} {closing : Option Kind} {p m q : Parser σ} {ts us : List (Try σ)}

theorem Covers.append (h : Covers ts p m) (hlonger : m.reports <+: q.reports) (hlater : Covers us m q) :
    Covers (ts ++ us) p q := by
  intro n hn hlt
  by_cases hearly : n < m.reports.length
  · obtain ⟨t, ht, hreports, hprefix⟩ := h n hn hearly
    exact ⟨t, List.mem_append_left _ ht, hreports, hprefix.trans hlonger⟩
  · obtain ⟨t, ht, hreports⟩ := hlater n (Nat.le_of_not_lt hearly) hlt
    exact ⟨t, List.mem_append_right _ ht, hreports⟩

theorem Listed.covers (h : Listed room closing p q ts) (hts : ∀ t ∈ ts, t.Sound) : Covers ts p q := by
  induction h with
  | done =>
    intro n hn hlt
    omega
  | @more p q t ts _ hrun hrest ih =>
    rw [List.forall_mem_cons] at hts
    have hstart : t.run.start = p := by rw [hrun]
    have hfirst : Covers [t] p t.run.next := fun n hn hlt =>
      ⟨t, List.mem_singleton_self t, ⟨by rwa [hstart], hlt⟩, List.prefix_rfl⟩
    have hlonger := hrest.reports_eq fun u hu => (hts.2 u hu).reports_eq
    exact hfirst.append ⟨_, hlonger.symm⟩ (ih hts.2)

theorem Chained.covers (h : Chained room p q ts) (hts : ∀ t ∈ ts, t.Sound) : Covers ts p q := by
  induction h with
  | quiet hquiet =>
    intro n hn hlt
    rw [hquiet.reports] at hlt
    omega
  | @block room p m n q ts us hquiet _ hlist hrest ih =>
    rw [List.forall_mem_append] at hts
    have hblock : Covers ts p n := fun k hk =>
      hlist.covers hts.1 k (by rwa [Parser.reports_advance, hquiet.reports])
    have hlonger := hrest.reports_eq fun u hu => (hts.2 u hu).reports_eq
    exact hblock.append ⟨_, hlonger.symm⟩ (ih hts.2)
  | @nested room p m n q ts us hquiet _ hrest ihinside ih =>
    rw [List.forall_mem_append] at hts
    have hinside : Covers ts p n.leave := fun k hk =>
      ihinside hts.1 k (show m.reports.length ≤ k by rwa [hquiet.reports])
    have hlonger := hrest.reports_eq fun u hu => (hts.2 u hu).reports_eq
    exact hinside.append ⟨_, hlonger.symm⟩ (ih hts.2)

end

/-- A statement that is reported while a try is running is saved by it, or lost by a try that fails and
is running as well: this one or one inside it. -/
theorem Try.Sound.saved_or_lost {t : Try σ} (h : t.Sound) {n : Nat} {s : Stmt}
    (hn : t.run.start.reports.length ≤ n) (hs : t.run.next.reports[n]? = some (.parsed s)) :
    s ∈ t.saved ∨ ∃ u, (u = t ∨ u.Within t.inner) ∧ u.Fails ∧ u.Reports n := by
  induction h with
  | @mk a inner inside chained _ ih =>
    cases hread : a.outcome with
    | error d =>
      have hlt := (List.getElem?_eq_some_iff.1 hs).1
      exact .inr ⟨Try.mk a inner, .inl rfl, ⟨d, hread⟩, hn, hlt⟩
    | ok s' =>
      change a.next.reports[n]? = _ at hs
      rw [a.reports_next, hread] at hs
      rw [saved_of_ok hread]
      by_cases hlt : n < a.read.2.reports.length
      · obtain ⟨u, hu, hreports, later, hlater⟩ := chained.covers inside n hn hlt
        have hsame : u.run.next.reports[n]? = some (.parsed s) := by
          rw [List.getElem?_append_left hlt, ← hlater, List.getElem?_append_left hreports.2] at hs
          exact hs
        rcases ih u hu hreports.1 hsame with hsaved | ⟨v, hv, hfails⟩
        · exact .inl (List.mem_append_left _ (mem_savedAll_iff.2 ⟨u, hu, hsaved⟩))
        · refine .inr ⟨v, .inr ?_, hfails⟩
          rcases hv with rfl | hv
          · exact .here hu
          · exact .inside hu hv
      · -- Only the statement itself is reported behind those inside it.
        have hlast : n = a.read.2.reports.length := by
          have := (List.getElem?_eq_some_iff.1 hs).1
          rw [List.length_append, List.length_singleton] at this
          omega
        rw [hlast, List.getElem?_concat_length] at hs
        cases hs
        exact .inl (List.mem_append_right _ (List.mem_singleton_self _))

/-! ## The room of a try -/

/-- In a list of statements all tries have the same room and the same number of open expressions. -/
theorem Listed.room_eq {room : Nat} {closing : Option Kind} {p q : Parser σ} {ts : List (Try σ)}
    (h : Listed room closing p q ts) : ∀ t ∈ ts, t.run.room = room ∧ t.run.start.depth = p.depth := by
  induction h with
  | done => simp
  | @more p q t ts _ hrun _ ih =>
    have hdepth := t.run.frame_next.depth
    rw [List.forall_mem_cons]
    rw [hdepth, hrun] at ih
    exact ⟨by simp [hrun], ih⟩

theorem Chained.room_add_depth {room : Nat} {p q : Parser σ} {ts : List (Try σ)}
    (h : Chained room p q ts) : ∀ t ∈ ts, t.run.room + t.run.start.depth = room + p.depth := by
  induction h with
  | quiet => simp
  | @block room p m n q ts us hquiet _ hlist _ ih =>
    have hdepth : n.depth = p.depth := hlist.frame.depth.trans hquiet.depth
    rw [hdepth] at ih
    refine List.forall_mem_append.2 ⟨fun t ht => ?_, ih⟩
    obtain ⟨hroom, hstart⟩ := hlist.room_eq t ht
    rw [hroom, hstart, ← hquiet.depth]
    rfl
  | @nested room p m n q ts us hquiet hinside _ ihinside ih =>
    have hdepth : n.leave.depth = p.depth := by
      rw [Parser.leave, hinside.frame_cursor.2, ← hquiet.depth]
      rfl
    rw [hdepth] at ih
    refine List.forall_mem_append.2 ⟨fun t ht => ?_, ih⟩
    rw [ihinside t ht, ← hquiet.depth]
    change room + (m.depth + 1) = room + 1 + m.depth
    omega

/-- What is the same for some tries, room and open expressions together, is the same for all those
inside them. -/
theorem Try.Within.room_add_depth {t : Try σ} {ts : List (Try σ)} {total : Nat} (h : t.Within ts)
    (hts : ∀ u ∈ ts, u.Sound ∧ u.run.room + u.run.start.depth = total) :
    t.Sound ∧ t.run.room + t.run.start.depth = total := by
  induction h with
  | here ht => exact hts t ht
  | @inside u ts hu _ ih =>
    obtain ⟨hsound, htotal⟩ := hts u hu
    refine ih fun v hv => ?_
    cases hsound with
    | mk inside chained _ => exact ⟨inside v hv, (chained.room_add_depth v hv).trans htotal⟩

/-- Where so many expressions are open, a statement is read with the room that this leaves. -/
theorem Grammar.run_statement_room (p : Parser σ) :
    (statement expression).run p = (statement (expressionAt p.room)).run p :=
  run_eq_of_alongside Likeness.stmts_equality.1
    (alongside_statement lockstep_depth (alongside_expression p.depth)) rfl

/-- Such a run is one of the rule that reads its room from the state. -/
theorem Attempt.eq_run_expression {a : Attempt σ} (h : a.room = a.start.room) :
    a.read = (Grammar.statement Grammar.expression).run a.start ∧
      a.next = ((Grammar.attempt Grammar.expression).run a.start).2.advance := by
  have hread : a.read = (Grammar.statement Grammar.expression).run a.start := by
    rw [read, h, Grammar.run_statement_room]
  refine ⟨hread, ?_⟩
  rcases hrun : a.read with ⟨d | s, m⟩
  · rw [next_of_error hrun, Grammar.run_attempt_of_error (hread.symm.trans hrun)]
  · rw [next_of_ok hrun, Grammar.run_attempt_of_ok (hread.symm.trans hrun)]

/-! ## Programs -/

theorem parse_eq (s : σ) :
    parse s = (Grammar.program (Grammar.expressionAt Parser.nestingLimit)).run (.start s) :=
  Grammar.run_program_expression rfl

/-- All of the input is read. -/
theorem kind_current_parse (s : σ) : (parse s).2.current.kind = .eof := by
  have hend := Grammar.closes_of_statements (Grammar.expressionAt Parser.nestingLimit) none (.start s)
  rw [parse_eq, Grammar.run_program]
  simpa [Grammar.closes] using hend

/-- Between `p` and `q` the program was read by these tries. They pass all tokens, one after the other,
and what is reported is their log. The statements of the program are those they give, and its
statements at every depth are those they have saved. -/
structure Program.IsReadBy (program : Program) (tokens : List Token) (p q : Parser σ)
    (ts : List (Try σ)) : Prop where
  listed : Listed Parser.nestingLimit none p q ts
  sound : ∀ t ∈ ts, t.Sound
  passed : tokens = ts.flatMap Try.passed
  reported : q.reports = p.reports ++ Try.logAll ts
  given : program.statements = ts.filterMap (·.outcome.toOption)
  saved : program.postorder = Try.savedAll ts

theorem exists_isReadBy (s : σ) : ∃ ts,
    (parse s).1.IsReadBy (TokenSource.drain s).1 (Parser.start s) (parse s).2 ts := by
  obtain ⟨ts, hlisted, hsound⟩ :=
    Grammar.exists_listed (Grammar.makesTries_expressionAt Parser.nestingLimit) none (Parser.start s)
  have hend := kind_current_parse s
  have htokens := hlisted.tokens_eq
  have hgiven := congrArg Prod.fst hlisted.run_eq
  rw [parse_eq, Grammar.run_program] at hend ⊢
  rw [Parser.tokens_of_eof hend, List.append_nil] at htokens
  refine ⟨ts, hlisted, hsound, (Cursor.tokens_start s).symm.trans htokens,
    hlisted.reports_eq fun t ht => (hsound t ht).reports_eq, hgiven, ?_⟩
  rw [Program.postorder, hgiven, Try.postorder_filterMap_outcome hsound]

namespace Program.IsReadBy

variable {program : Program} {tokens : List Token} {p q : Parser σ} {ts : List (Try σ)}

/-- All these tries, and those inside them, are runs of the rule that the parser has for statements. -/
theorem runs (h : program.IsReadBy tokens p q ts) (hp : p.depth = 0) {t : Try σ} (ht : t.Within ts) :
    t.run.read = (Grammar.statement Grammar.expression).run t.run.start ∧
      t.run.next = ((Grammar.attempt Grammar.expression).run t.run.start).2.advance := by
  obtain ⟨-, htotal⟩ := ht.room_add_depth fun u hu => by
    obtain ⟨hroom, hdepth⟩ := h.listed.room_eq u hu
    exact ⟨h.sound u hu, by rw [hroom, hdepth, hp]⟩
  refine Attempt.eq_run_expression ?_
  rw [Parser.room]
  omega

/-- A completed statement is in the program, unless a try that fails was running when it was reported. -/
theorem saved_or_lost (h : program.IsReadBy tokens p q ts) {n : Nat} {s : Stmt}
    (hn : p.reports.length ≤ n) (hs : q.reports[n]? = some (.parsed s)) :
    s ∈ program.postorder ∨ ∃ t : Try σ, t.Within ts ∧ t.Fails ∧ t.Reports n := by
  have hlt := (List.getElem?_eq_some_iff.1 hs).1
  obtain ⟨t, ht, hreports, later, hlater⟩ := h.listed.covers h.sound n hn hlt
  rw [← hlater, List.getElem?_append_left hreports.2] at hs
  rcases (h.sound t ht).saved_or_lost hreports.1 hs with hsaved | ⟨u, hu, hfails⟩
  · rw [h.saved]
    exact .inl (Try.mem_savedAll_iff.2 ⟨t, ht, hsaved⟩)
  · refine .inr ⟨u, ?_, hfails⟩
    rcases hu with rfl | hu
    · exact .here ht
    · exact .inside ht hu

end Program.IsReadBy

end MonkeyFrontEnd
