import MonkeyFrontEnd.Proofs.Fence
import MonkeyFrontEnd.Proofs.StateMap

/-!
Where reading goes on after errors. A closing brace ends its block after any errors in the block,
unless one of them is that an expression was due at the brace itself: then the brace is passed with
the failed statement, and the block goes on behind it. A semicolon outside of all blocks is never
passed unseen: what stands behind it is read as if it stood alone.
-/

namespace MonkeyFrontEnd

variable {σ : Type} [TokenSource σ]

/-- A failure that recovery from does not lead past a closing brace. -/
def Fault.keepsBrace (fault : Fault) : Prop :=
  fault ≠ .noExpression .closeCurly ∧ ¬ fault.isTooDeep

namespace Grammar

variable {expr : Precedence → Builder σ Expr} {fence : Fence} {logged : Array Diagnostic}
  {xs : List Token} {p p' : Parser σ}

/-- An error that gives up the input, or one at the fence itself, leads past the fence. -/
theorem tokens_recover_suffix {d : Diagnostic} (h : fence.Abreast logged xs p p')
    (hd : d.fault.isTooDeep ∨ xs = []) :
    ((recover d).run p).2.advance.tokens <:+ fence.behind := by
  by_cases hdeep : d.fault.isTooDeep
  · have hend : ((recover d).run p).2.current.kind = .eof := by
      rw [recover, Action.run_bind, Action.run_record, if_pos hdeep, Action.run_skipToEnd]
      exact Parser.left_eq_zero_iff.1 (Parser.left_skipToEnd _)
    rw [Parser.tokens_advance, Parser.ahead_of_eof hend]
    exact List.nil_suffix
  · obtain rfl := hd.resolve_left hdeep
    have hahead : (p.record d).ahead = fence.behind := Parser.ahead_of_tokens h.tokens
    rw [run_recover hdeep, Parser.passSemicolon]
    split
    · rw [← hahead]
      exact Parser.ahead_suffix_tokens _
    · simp only [Parser.tokens_advance, hahead, List.suffix_refl]

/-- After an error before the fence the parsers are abreast again, with the error recorded. -/
theorem abreast_recover {d : Diagnostic} (h : fence.Abreast logged xs p p') (hxs : xs ≠ [])
    (hd : ¬ d.fault.isTooDeep) :
    ∃ ys, fence.Abreast (logged.push d) ys ((recover d).run p).2 ((recover d).run p').2 ∧
      fence.Passes ys := by
  rw [run_recover hd, run_recover hd]
  exact (h.record d).passSemicolon hxs

/-! ## Closing braces -/

/-- The two results of reading a list of statements up to the fence. The diagnostics recorded on the
way tell whether the list ends at the fence, and if it does, the tokens behind had no part in it. -/
structure StopsAtFence (fence : Fence) (logged : Array Diagnostic) (recorded : List Diagnostic)
    (r r' : List Stmt × Parser σ) : Prop where
  diagnostics : r.2.diagnostics.toList = logged.toList ++ recorded
  stops_iff : r.2.tokens = fence.token :: fence.behind ↔ ∀ d ∈ recorded, d.fault.keepsBrace
  alike : (∀ d ∈ recorded, d.fault.keepsBrace) →
    r'.1 = r.1 ∧ r'.2.tokens = fence.token :: fence.behind'

namespace StopsAtFence

variable {recorded : List Diagnostic} {ss ss' : List Stmt} {d : Diagnostic}

theorem cons (done : List Stmt) (h : StopsAtFence fence logged recorded (ss, p) (ss', p')) :
    StopsAtFence fence logged recorded (done ++ ss, p) (done ++ ss', p') where
  diagnostics := h.diagnostics
  stops_iff := h.stops_iff
  alike hrecorded := ⟨congrArg (done ++ ·) (h.alike hrecorded).1, (h.alike hrecorded).2⟩

theorem record (hd : d.fault.keepsBrace)
    (h : StopsAtFence fence (logged.push d) recorded (ss, p) (ss', p')) :
    StopsAtFence fence logged (d :: recorded) (ss, p) (ss', p') where
  diagnostics := by simpa using h.diagnostics
  stops_iff := by
    rw [h.stops_iff, List.forall_mem_cons]
    exact ⟨fun hrecorded => ⟨hd, hrecorded⟩, And.right⟩
  alike hrecorded := h.alike (List.forall_mem_cons.1 hrecorded).2

/-- Once the fence was passed after a failure that does not keep to it, nothing leads back. -/
theorem of_passed (hd : ¬ d.fault.keepsBrace)
    (hlog : p.diagnostics.toList = logged.toList ++ d :: recorded)
    (htokens : p.tokens <:+ fence.behind) :
    StopsAtFence fence logged (d :: recorded) (ss, p) (ss', p') := by
  have hlost : ¬ ∀ e ∈ d :: recorded, e.fault.keepsBrace := fun h => hd (h d (List.mem_cons_self ..))
  refine ⟨hlog, ⟨fun heq => ?_, fun h => absurd h hlost⟩, fun h => absurd h hlost⟩
  have hle := htokens.length_le
  rw [show p.tokens = fence.token :: fence.behind from heq, List.length_cons] at hle
  omega

end StopsAtFence

/-- A brace as a fence is not passed by a statement that is read. -/
theorem ne_nil_of_passes (hfence : fence.token.kind = .closeCurly) (hxs : fence.Passes xs) :
    xs ≠ [] := by
  apply hxs.resolve_right
  intro hsemicolon
  rw [hfence] at hsemicolon
  cases hsemicolon

/-- An expression that was due at a closing brace was due at the fence, the only one there is. -/
theorem isTooDeep_or_eq_nil {d : Diagnostic} (hd : fence.Stops d xs)
    (hxs : ∀ t ∈ xs, t.kind ≠ .closeCurly) (hkeeps : ¬ d.fault.keepsBrace) :
    d.fault.isTooDeep ∨ xs = [] := by
  by_cases hdeep : d.fault.isTooDeep
  · exact .inl hdeep
  · have hfault : d.fault = .noExpression .closeCurly :=
      Classical.byContradiction fun hne => hkeeps ⟨hne, hdeep⟩
    cases xs with
    | nil => exact .inr rfl
    | cons t xs =>
      have hkind : t.kind = .closeCurly := (hd.kind_eq _ hfault).symm
      exact absurd hkind (hxs t (List.mem_cons_self ..))

section

variable (hexpr : KeepsFence fence expr) (hframed : ∀ limit, (expr limit).Framed)
  (hfence : fence.token.kind = .closeCurly)

include hexpr hframed hfence

theorem exists_stopsAtFence (h : fence.Abreast logged xs p p') (hxs : ∀ t ∈ xs, t.kind ≠ .closeCurly) :
    ∃ recorded, StopsAtFence fence logged recorded
      ((statements expr (some .closeCurly)).run p) ((statements expr (some .closeCurly)).run p') := by
  -- The induction is on the moves left; both runs try for a statement at the same tokens.
  induction hleft : p.left using Nat.strongRecOn generalizing p p' xs logged with
  | ind n ih =>
    subst hleft
    cases xs with
    | nil =>
      have hclose : closes (some .closeCurly) p.current.kind := by
        rw [h.kind_current]
        simp [closes, hfence]
      have hclose' : closes (some .closeCurly) p'.current.kind := by
        rw [h.current_eq]
        exact hclose
      rw [run_statements_of_closes expr hclose, run_statements_of_closes expr hclose']
      exact ⟨[], by simp [h.diagnostics], by simpa using h.tokens, fun _ => ⟨rfl, h.tokens'⟩⟩
    | cons t xs =>
      have hopen : ¬ closes (some .closeCurly) p.current.kind := by
        have hcurly : t.kind ≠ .closeCurly := hxs t (List.mem_cons_self ..)
        have heof : t.kind ≠ .eof := fun hkind => h.current_ne_eof (h.kind_current.trans hkind)
        rw [h.kind_current]
        simp [closes, heof, hcurly.symm]
      have hopen' : ¬ closes (some .closeCurly) p'.current.kind := by
        rw [h.current_eq]
        exact hopen
      have hlt := left_attempt_lt expr (current_ne_eof hopen)
      rw [run_statements_of_not_closes expr hopen, run_statements_of_not_closes expr hopen']
      rcases attempt_cases hexpr hframed h (.inl (List.cons_ne_nil t xs)) with
        ⟨s, ys, m, m', hrun, hrun', hm, hsuffix, hys⟩ | ⟨d, ys, m, m', hrun, hrun', hm, hsuffix, hd⟩
      · rw [hrun] at hlt
        rw [hrun, hrun']
        obtain ⟨u, ys, rfl⟩ := List.exists_cons_of_ne_nil (ne_nil_of_passes hfence hys)
        have hys' : ys <:+ t :: xs := (List.suffix_cons u ys).trans hsuffix
        obtain ⟨recorded, hstops⟩ := ih _ hlt hm.advance (fun v hv => hxs v (hys'.subset hv)) rfl
        exact ⟨recorded, hstops.cons _⟩
      · rw [hrun] at hlt
        rw [hrun, hrun']
        by_cases hkeeps : d.fault.keepsBrace
        · have hne : ys ≠ [] := by
            intro hnil
            rcases hd.at_fence hnil with hfault | hdeep
            · exact hkeeps.1 (by rw [hfault, hfence])
            · exact hkeeps.2 hdeep
          obtain ⟨zs, hzs, hpasses⟩ := abreast_recover hm hne hkeeps.2
          have hzsuffix := hm.suffix hzs (framed_recover d m)
          obtain ⟨u, zs, rfl⟩ := List.exists_cons_of_ne_nil (ne_nil_of_passes hfence hpasses)
          have hzs' : zs <:+ t :: xs := ((List.suffix_cons u zs).trans hzsuffix).trans hsuffix
          obtain ⟨recorded, hstops⟩ := ih _ hlt hzs.advance (fun v hv => hxs v (hzs'.subset hv)) rfl
          exact ⟨d :: recorded, (hstops.record hkeeps).cons _⟩
        · have hpassed := tokens_recover_suffix hm
            (isTooDeep_or_eq_nil hd (fun u hu => hxs u (hsuffix.subset hu)) hkeeps)
          have hframe := framed_statements hframed (some .closeCurly) ((recover d).run m).2.advance
          obtain ⟨recorded, hlog⟩ := hframe.diagnostics
          rw [Parser.diagnostics_advance, diagnostics_recover, hm.diagnostics, Array.toList_push,
            List.append_assoc] at hlog
          exact ⟨d :: recorded, .of_passed hkeeps hlog.symm (hframe.tokens_suffix.trans hpassed)⟩

end

/-- A block without blocks inside stops on its closing brace exactly if no expression was found to
be due at a closing brace and the nesting was never too deep. If it does, the block is the same
whatever stands behind the brace. -/
theorem exists_recorded_block {p : Parser σ} {body behind : List Token} {close : Token}
    (hp : p.ahead = body ++ close :: behind)
    (hbody : ∀ t ∈ body, t.kind ≠ .openCurly ∧ t.kind ≠ .closeCurly)
    (hclose : close.kind = .closeCurly) :
    ∃ recorded,
      ((block expression).run p).2.diagnostics.toList = p.diagnostics.toList ++ recorded ∧
      (((block expression).run p).2.tokens = close :: behind ↔
        ∀ d ∈ recorded, d.fault ≠ .noExpression .closeCurly ∧ ¬ d.fault.isTooDeep) ∧
      ((∀ d ∈ recorded, d.fault ≠ .noExpression .closeCurly ∧ ¬ d.fault.isTooDeep) →
        ∀ (p' : Parser σ) (behind' : List Token), p'.current = p.current → p'.depth = p.depth →
          p'.diagnostics = p.diagnostics → p'.ahead = body ++ close :: behind' →
          ((block expression).run p').1 = ((block expression).run p).1) := by
  have hstops (p' : Parser σ) (behind' : List Token) (hdiagnostics : p'.diagnostics = p.diagnostics)
      (hp' : p'.ahead = body ++ close :: behind') :=
    let fence : Fence := ⟨close, by rw [hclose]; rfl, behind, behind'⟩
    have h : fence.Abreast p.diagnostics body p.advance p'.advance :=
      ⟨hp, hp', fun t ht => (hbody t ht).1, rfl, hdiagnostics⟩
    exists_stopsAtFence (keepsFence_expressionAt fence p.room) (framed_expressionAt p.room) hclose h
      fun t ht => (hbody t ht).2
  rw [run_block_expression]
  obtain ⟨recorded, hrecorded⟩ := hstops p behind rfl hp
  refine ⟨recorded, hrecorded.diagnostics, hrecorded.stops_iff, ?_⟩
  intro hkeeps p' behind' hcurrent hdepth hdiagnostics hp'
  obtain ⟨recorded', hrecorded'⟩ := hstops p' behind' hdiagnostics hp'
  have heq : recorded' = recorded :=
    List.append_cancel_left (hrecorded'.diagnostics.symm.trans hrecorded.diagnostics)
  have hsame := (hrecorded'.alike (by rw [heq]; exact hkeeps)).1
  have hroom : p'.room = p.room := by rw [Parser.room, Parser.room, hdepth]
  rw [run_block_expression, hroom, run_block, run_block, hcurrent]
  exact congrArg (Block.mk p.current) hsame

/-- The tokens `{ let = ; } y`, in whose block a statement fails at its second token. -/
def failedInBlock : List Token :=
  [.unplaced .openCurly "\x7b", .unplaced .letWord "let", .unplaced .assign "=",
    .unplaced .semicolon ";", .unplaced .closeCurly "\x7d", .unplaced .identifier "y"]

theorem exists_recorded_failedInBlock :
    (Parser.start (ReadyTokens.ofList failedInBlock)).ahead =
        [.unplaced .letWord "let", .unplaced .assign "=", .unplaced .semicolon ";"] ++
          .unplaced .closeCurly "\x7d" :: [.unplaced .identifier "y"] ∧
      ∃ recorded,
        ((block expression).run (Parser.start (ReadyTokens.ofList failedInBlock))).2.diagnostics.toList =
          [] ++ recorded ∧
        ((block expression).run (Parser.start (ReadyTokens.ofList failedInBlock))).2.tokens =
          .unplaced .closeCurly "\x7d" :: [.unplaced .identifier "y"] ∧
        ∀ d ∈ recorded, d.fault ≠ .noExpression .closeCurly ∧ ¬ d.fault.isTooDeep := by
  have hp : (Parser.start (ReadyTokens.ofList failedInBlock)).ahead =
      [.unplaced .letWord "let", .unplaced .assign "=", .unplaced .semicolon ";"] ++
        .unplaced .closeCurly "\x7d" :: [.unplaced .identifier "y"] := by decide +kernel
  have hend : ((block expression).run (Parser.start (ReadyTokens.ofList failedInBlock))).2.tokens =
      .unplaced .closeCurly "\x7d" :: [.unplaced .identifier "y"] := by decide +kernel
  obtain ⟨recorded, hlog, hstops, -⟩ := exists_recorded_block hp (by decide) rfl
  exact ⟨hp, recorded, hlog, hend, hstops.1 hend⟩

/-- The tokens `{ let x = } b`, in whose block an expression is due at the closing brace. -/
def dueAtBrace : List Token :=
  [.unplaced .openCurly "\x7b", .unplaced .letWord "let", .unplaced .identifier "x",
    .unplaced .assign "=", .unplaced .closeCurly "\x7d", .unplaced .identifier "b"]

/-- The block passes its closing brace and takes the statement behind it, though nothing is nested
too deeply. -/
theorem block_passes_dueAtBrace :
    (Parser.start (ReadyTokens.ofList dueAtBrace)).ahead =
        [.unplaced .letWord "let", .unplaced .identifier "x", .unplaced .assign "="] ++
          .unplaced .closeCurly "\x7d" :: [.unplaced .identifier "b"] ∧
      (∀ d ∈ ((block expression).run
        (Parser.start (ReadyTokens.ofList dueAtBrace))).2.diagnostics, ¬ d.fault.isTooDeep) ∧
      ((block expression).run (Parser.start (ReadyTokens.ofList dueAtBrace))).2.tokens = [] ∧
      ((block expression).run (Parser.start (ReadyTokens.ofList dueAtBrace))).2.tokens ≠
        .unplaced .closeCurly "\x7d" :: [.unplaced .identifier "b"] := by
  decide +kernel

/-! ## Semicolons -/

section

variable (hexpr : KeepsFence fence expr) (hframed : ∀ limit, (expr limit).Framed)
  (hfence : fence.token.kind = .semicolon)

include hexpr hframed hfence

/-- A try for a statement in front of a semicolon leaves both parsers abreast, on the semicolon at
the latest, unless it gives up the rest of the input. -/
theorem exists_abreast_attempt (hbehind : headKind fence.behind ≠ .semicolon)
    (hbehind' : headKind fence.behind' ≠ .semicolon) (h : fence.Abreast logged xs p p') :
    (∃ d ∈ ((attempt expr).run p).2.diagnostics, d.fault.isTooDeep) ∨
      ((attempt expr).run p').1 = ((attempt expr).run p).1 ∧
        ∃ logged' ys, fence.Abreast logged' ys ((attempt expr).run p).2 ((attempt expr).run p').2 := by
  rcases attempt_cases hexpr hframed h (.inr hfence) with
    ⟨s, ys, m, m', hrun, hrun', hm, -, -⟩ | ⟨d, ys, m, m', hrun, hrun', hm, -, -⟩
  · rw [hrun, hrun']
    exact .inr ⟨rfl, logged, ys, hm⟩
  · rw [hrun, hrun']
    by_cases hdeep : d.fault.isTooDeep
    · exact .inl ⟨d, by simp, hdeep⟩
    · refine .inr ⟨rfl, logged.push d, ?_⟩
      cases ys with
      | nil =>
        -- The failure was at the semicolon itself, and what stands behind it is no semicolon.
        have hpeek : (m.record d).peek.kind ≠ .semicolon := by
          rw [← Parser.headKind_ahead, Parser.ahead_of_tokens (hm.record d).tokens]
          exact hbehind
        have hpeek' : (m'.record d).peek.kind ≠ .semicolon := by
          rw [← Parser.headKind_ahead, Parser.ahead_of_tokens (hm.record d).tokens']
          exact hbehind'
        rw [run_recover hdeep, run_recover hdeep, Parser.passSemicolon, Parser.passSemicolon,
          if_neg hpeek, if_neg hpeek']
        exact ⟨[], hm.record d⟩
      | cons t ys =>
        obtain ⟨zs, hzs, -⟩ := abreast_recover hm (List.cons_ne_nil t ys) hdeep
        exact ⟨zs, hzs⟩

/-- A list of statements that ends behind the semicolon comes first when more is put there; then
what was put there is read from a state of its own. -/
theorem exists_run_statements_behind (hbehind : fence.behind = [])
    (hbehind' : headKind fence.behind' ≠ .semicolon) (h : fence.Abreast logged xs p p')
    (hdeep : ∀ d ∈ ((statements expr none).run p).2.diagnostics, ¬ d.fault.isTooDeep) :
    ∃ m, Frame p' m ∧ m.tokens = fence.behind' ∧
      m.diagnostics = ((statements expr none).run p).2.diagnostics ∧
      (statements expr none).run p' =
        (((statements expr none).run p).1 ++ ((statements expr none).run m).1,
          ((statements expr none).run m).2) := by
  induction hleft : p.left using Nat.strongRecOn generalizing p p' xs logged with
  | ind n ih =>
    subst hleft
    have hopen : ¬ closes none p.current.kind := by
      simpa [closes] using h.current_ne_eof
    have hopen' : ¬ closes none p'.current.kind := by
      rw [h.current_eq]
      exact hopen
    have hlt := left_attempt_lt expr (current_ne_eof hopen)
    have hframe := (framed_attempt hframed p').trans (Frame.advance _)
    have hlater := framed_statements hframed none ((attempt expr).run p).2.advance
    rw [run_statements_of_not_closes expr hopen] at hdeep ⊢
    rw [run_statements_of_not_closes expr hopen']
    rcases exists_abreast_attempt hexpr hframed hfence (by rw [hbehind]; decide) hbehind' h with
      ⟨d, hd, hdeep'⟩ | ⟨hsame, logged', ys, hys⟩
    · have hmem := hlater.diagnostics.subset (Array.mem_toList_iff.2 hd)
      exact absurd hdeep' (hdeep d (Array.mem_toList_iff.1 hmem))
    · rw [hsame]
      cases ys with
      | nil =>
        have hend : closes none ((attempt expr).run p).2.advance.current.kind := by
          rw [← Parser.headKind_tokens, Parser.tokens_advance,
            Parser.ahead_of_tokens hys.tokens, hbehind]
          rfl
        rw [run_statements_of_closes expr hend, List.append_nil]
        refine ⟨_, hframe, Parser.ahead_of_tokens hys.tokens', ?_, rfl⟩
        rw [Parser.diagnostics_advance, Parser.diagnostics_advance, hys.diagnostics,
          hys.diagnostics']
      | cons t ys =>
        obtain ⟨m, hm, htokens, hdiagnostics, hrun⟩ := ih _ hlt hys.advance hdeep rfl
        refine ⟨m, hframe.trans hm, htokens, hdiagnostics, ?_⟩
        rw [hrun, List.append_assoc]

end

end Grammar

open Grammar

/-- A parser over ready tokens that has moved on is a parser started on the rest of them, with what
was logged on the way put before its logs. -/
theorem Parser.exists_eq_onTop_start {s : ReadyTokens} {q : Parser ReadyTokens}
    (h : Frame (Parser.start s) q) :
    ∃ s' : ReadyTokens, s'.tokens = q.tokens ∧ s'.last = s.last ∧
      q = (Parser.start s').onTop q.diagnostics q.events := by
  obtain ⟨s', hcursor, hlast⟩ := ReadyTokens.exists_start_of_reaches h.cursor
  refine ⟨s', ?_, hlast, ?_⟩
  · rw [← ReadyTokens.tokens_start]
    exact congrArg Cursor.tokens hcursor.symm
  · obtain ⟨cursor, depth, diagnostics, events⟩ := q
    obtain rfl : cursor = Cursor.start s' := hcursor
    obtain rfl : depth = 0 := h.depth
    show Parser.mk _ _ _ _ = Parser.mk _ _ (diagnostics ++ #[]) (events ++ #[])
    rw [Array.append_empty, Array.append_empty]
    rfl

theorem parseTokens_eq (ts : List Token) :
    parseTokens ts =
      (program (expressionAt Parser.nestingLimit)).run (Parser.start (ReadyTokens.ofList ts)) :=
  run_program_expression rfl

/-- A state that has come behind the first tokens of a list reads the others as they are read alone. -/
theorem run_statements_of_frame {ts rest : List Token} {m : Parser ReadyTokens}
    (hts : ∀ t ∈ ts, t.kind ≠ .eof)
    (hframe : Frame (Parser.start (ReadyTokens.ofList (ts ++ rest))) m)
    (hm : m.tokens = (ReadyTokens.ofList rest).tokens) :
    ((statements (expressionAt Parser.nestingLimit) none).run m).1 =
        (parseTokens rest).1.statements ∧
      ((statements (expressionAt Parser.nestingLimit) none).run m).2.diagnostics =
        m.diagnostics ++ (parseTokens rest).2.diagnostics := by
  obtain ⟨s, hs, hlast, hstart⟩ := Parser.exists_eq_onTop_start hframe
  have hrest : s = ReadyTokens.ofList rest := by
    apply ReadyTokens.eq_of_tokens_of_last
    · rw [hs, hm]
    · rw [hlast, ReadyTokens.last_ofList_append hts]
  have hlater := run_program_onTop Parser.nestingLimit m.diagnostics m.events (Parser.start s)
  rw [← hstart, hrest, ← parseTokens_eq, run_program, Prod.ext_iff] at hlater
  obtain ⟨hstatements, hstate⟩ := hlater
  refine ⟨congrArg Program.statements hstatements, ?_⟩
  have hdiagnostics := congrArg Parser.diagnostics hstate
  exact hdiagnostics

/-- A semicolon outside of all blocks parts the input: if the tokens before it are never nested too
deeply, then what stands behind it is parsed as if nothing stood before it, and the other way
round. -/
theorem parseTokens_append_semicolon {before after behind : List Token} {semicolon : Token}
    (hbefore : ∀ t ∈ before, t.kind ≠ .openCurly ∧ t.kind ≠ .eof)
    (hsemicolon : semicolon.kind = .semicolon) (hafter : ∀ t ∈ after, t.kind ≠ .eof)
    (hhead : headKind after ≠ .semicolon) (hbehind : headKind behind = .eof)
    (hdeep : ∀ d ∈ (parseTokens (before ++ semicolon :: behind)).2.diagnostics,
      ¬ d.fault.isTooDeep) :
    (parseTokens (before ++ semicolon :: (after ++ behind))).1.statements =
        (parseTokens (before ++ semicolon :: behind)).1.statements ++
          (parseTokens (after ++ behind)).1.statements ∧
      (parseTokens (before ++ semicolon :: (after ++ behind))).2.diagnostics =
        (parseTokens (before ++ semicolon :: behind)).2.diagnostics ++
          (parseTokens (after ++ behind)).2.diagnostics := by
  have hfirst (t : Token) (ht : t ∈ before ++ [semicolon]) : t.kind ≠ .eof := by
    rcases List.mem_append.1 ht with ht | ht
    · exact (hbefore t ht).2
    · rw [List.mem_singleton.1 ht, hsemicolon]
      decide
  have hwhole (t : Token) (ht : t ∈ (before ++ [semicolon]) ++ after) : t.kind ≠ .eof :=
    (List.mem_append.1 ht).elim (hfirst t) (hafter t)
  have hshort : before ++ semicolon :: behind = (before ++ [semicolon]) ++ behind := by simp
  have hlong : before ++ semicolon :: (after ++ behind) =
      ((before ++ [semicolon]) ++ after) ++ behind := by simp
  let fence : Fence := ⟨semicolon, by rw [hsemicolon]; rfl, [], after⟩
  let p := Parser.start (ReadyTokens.ofList (before ++ semicolon :: behind))
  let p' := Parser.start (ReadyTokens.ofList (before ++ semicolon :: (after ++ behind)))
  have habreast : fence.Abreast #[] before p p' := by
    refine ⟨?_, ?_, fun t ht => (hbefore t ht).1, rfl, rfl⟩
    · rw [ReadyTokens.tokens_start, hshort, ReadyTokens.tokens_ofList_append hfirst hbehind]
    · rw [ReadyTokens.tokens_start, hlong, ReadyTokens.tokens_ofList_append hwhole hbehind,
        List.append_assoc]
      rfl
  rw [parseTokens_eq, run_program] at hdeep
  obtain ⟨m, hframe, htokens, hdiagnostics, hrun⟩ := exists_run_statements_behind
    (keepsFence_expressionAt fence _) (framed_expressionAt _) hsemicolon rfl hhead habreast hdeep
  have hrest : m.tokens = (ReadyTokens.ofList (after ++ behind)).tokens := by
    rw [htokens, ReadyTokens.tokens_ofList_append hafter hbehind]
  have hlong' : before ++ semicolon :: (after ++ behind) =
      (before ++ [semicolon]) ++ (after ++ behind) := by simp
  obtain ⟨hstatements, hdiagnostics'⟩ := run_statements_of_frame hfirst (hlong' ▸ hframe) hrest
  rw [parseTokens_eq (before ++ semicolon :: (after ++ behind)), run_program, hrun,
    parseTokens_eq (before ++ semicolon :: behind), run_program]
  constructor
  · show _ ++ _ = _ ++ _
    rw [hstatements]
  · show Parser.diagnostics _ = _
    rw [hdiagnostics', hdiagnostics]

/-- The tokens `let x =`, which lack a value. -/
def valuelessLet : List Token :=
  [.unplaced .letWord "let", .unplaced .identifier "x", .unplaced .assign "="]

/-- Behind `let x = ;` the statement `y` is read as it is read alone. -/
theorem parseTokens_valuelessLet :
    (parseTokens (valuelessLet ++
        .unplaced .semicolon ";" :: ([.unplaced .identifier "y"] ++ []))).1.statements =
      (parseTokens (valuelessLet ++ .unplaced .semicolon ";" :: [])).1.statements ++
        (parseTokens ([.unplaced .identifier "y"] ++ [])).1.statements ∧
    (parseTokens (valuelessLet ++
        .unplaced .semicolon ";" :: ([.unplaced .identifier "y"] ++ []))).2.diagnostics =
      (parseTokens (valuelessLet ++ .unplaced .semicolon ";" :: [])).2.diagnostics ++
        (parseTokens ([.unplaced .identifier "y"] ++ [])).2.diagnostics := by
  have hbefore : ∀ t ∈ valuelessLet, t.kind ≠ .openCurly ∧ t.kind ≠ .eof := by decide
  have hafter : ∀ t ∈ [Token.unplaced .identifier "y"], t.kind ≠ .eof := by decide
  have hdeep : ∀ d ∈ (parseTokens (valuelessLet ++
      .unplaced .semicolon ";" :: [])).2.diagnostics, ¬ d.fault.isTooDeep := by decide +kernel
  exact parseTokens_append_semicolon hbefore rfl hafter (by decide) headKind_nil hdeep

end MonkeyFrontEnd
