import MonkeyFrontEnd.Proofs.Layout
import MonkeyFrontEnd.Proofs.Losses

/-!
The log of a parse beside its results. Three activities write into one log: pulling tokens announces
illegal characters, recording a diagnostic reports it, and completing a statement reports that. Taken by
themselves, the events of each sort are what the parse gives: the illegal tokens of the text, the
diagnostics, and, where there is no diagnostic, the statements at every depth (`logAgrees_parseText`).
For the first two an invariant is kept by every primitive step (`Parser.Kept.parse`); the last one is
read off the tries of the parse.
-/

namespace MonkeyFrontEnd

open TokenSource (next drain size)

variable {σ : Type} [TokenSource σ]

/-! ## Announcements -/

namespace Parser

/-- All that a source announces while its tokens are pulled. -/
def announcements (s : σ) : List Event :=
  if _ : (next s).1.kind = .eof then []
  else (announced? (next s)).toList ++ announcements (next s).2
termination_by size s
decreasing_by exact TokenSource.size_next_lt s (by assumption)

theorem announcements_of_eof {s : σ} (h : (next s).1.kind = .eof) : announcements s = [] := by
  rw [announcements, dif_pos h]

theorem announcements_of_ne_eof {s : σ} (h : (next s).1.kind ≠ .eof) :
    announcements s = (announced? (next s)).toList ++ announcements (next s).2 := by
  rw [announcements, dif_neg h]

/-- What one pull announces comes in front, at the end of the input as well. -/
theorem announcements_eq (s : σ) :
    announcements s = (announced? (next s)).toList ++ announcements (next s).2 := by
  by_cases h : (next s).1.kind = .eof
  · have hsilent : announced? (next s) = none := announced?_of_ne_illegal (by simp [h])
    have hagain : (next (next s).2).1.kind = .eof := by
      rw [TokenSource.next_of_eof s h]
      exact h
    rw [announcements_of_eof h, announcements_of_eof hagain, hsilent]
    rfl
  · exact announcements_of_ne_eof h

/-- The events of illegal characters. -/
def illegals (p : Parser σ) : List Event := p.events.toList.filter (·.isIllegal)

theorem filter_isIllegal_announce (events : Array Event) (pulled : Token × σ) :
    (announce events pulled).toList.filter (·.isIllegal) =
      events.toList.filter (·.isIllegal) ++ (announced? pulled).toList := by
  rw [toList_announce, List.filter_append]
  cases hevent : announced? pulled with
  | none => rfl
  | some event => simp [isIllegal_of_announced hevent]

/-- The events of illegal characters and what the source will still announce are everything that is
announced. -/
theorem kept_illegals (all : List Event) :
    Kept fun _ (p : Parser σ) => p.illegals ++ announcements p.cursor.source = all where
  advance := by
    rintro _ p rfl
    have hpulled : (p.cursor.advance.peek, p.cursor.advance.source) = next p.cursor.source := rfl
    rw [announcements_eq p.cursor.source, ← List.append_assoc, illegals, advance]
    dsimp only
    rw [hpulled, filter_isIllegal_announce]
    rfl
  record h := by simpa [illegals, record, Event.isIllegal] using h
  complete h := by simpa [illegals, complete, Event.isIllegal] using h
  enter h := h
  leave h := h

theorem illegals_parse (s : σ) : (MonkeyFrontEnd.parse s).2.illegals = announcements s := by
  have hstart : (start s).illegals ++ announcements (start s).cursor.source = announcements s := by
    have hpulled : ((Cursor.start s).peek, (Cursor.start s).source) = next (next s).2 := rfl
    rw [announcements_eq s, announcements_eq (next s).2, ← List.append_assoc, illegals, start]
    dsimp only
    rw [hpulled, filter_isIllegal_announce, filter_isIllegal_announce]
    rfl
  have hall := (kept_illegals (announcements s)).parse hstart
  -- The current token is the end of the input, so the source has nothing more to announce.
  have hpeek : (MonkeyFrontEnd.parse s).2.cursor.peek.kind = .eof := by
    have hcurrent := kind_current_parse s
    exact (congrArg Token.kind (peek_of_eof hcurrent)).trans hcurrent
  have hsource := (MonkeyFrontEnd.parse s).2.cursor.next_of_peek_eof hpeek
  rw [announcements_of_eof (by rw [hsource]; exact hpeek), List.append_nil] at hall
  exact hall

end Parser

/-- A scanner announces the illegal ones among its tokens at the places where they begin. -/
theorem Scanner.announcements_eq (s : Scanner) : Parser.announcements s =
    (s.placed.filter (·.1.kind = .illegal)).map fun entry => .illegal entry.1 entry.2 := by
  fun_induction placed s with
  | case1 s h => exact Parser.announcements_of_eof (s := s) h
  | case2 s h ih =>
    have hlater : Parser.announcements (TokenSource.next s).2 = _ := ih
    have hpulled : Parser.announced? (TokenSource.next s) = if s.next.1.kind = .illegal then
        some (.illegal s.next.1 (s.next.2.offset - Text.byteLength s.next.1.text.toList)) else none :=
      rfl
    rw [Parser.announcements_of_ne_eof (s := s) h, hpulled, hlater, List.filter_cons]
    by_cases hkind : s.next.1.kind = .illegal
    · simp [hkind]
    · simp [hkind]

/-! ## The sorts of events -/

namespace Event

def isFailed : Event → Bool
  | failed _ => true
  | _ => false

def isParsed : Event → Bool
  | parsed _ => true
  | _ => false

theorem not_isFailed_of_isIllegal (event : Event) (h : event.isIllegal = true) : ¬ event.isFailed := by
  cases event with
  | illegal t n => simp [isFailed]
  | failed d => cases h
  | parsed s => cases h

end Event

/-- The lines that the log has for the events of one sort. -/
def Parser.lines (p : Parser σ) (sort : Event → Bool) : List String :=
  (p.events.toList.filter sort).map Event.line

theorem Parser.lines_eq {α : Type} {p : Parser σ} {sort : Event → Bool} {as : List α} {f : α → Event}
    (h : p.events.toList.filter sort = as.map f) : p.lines sort = as.map fun a => (f a).line := by
  rw [lines, h, List.map_map]
  rfl

/-- A failure is reported when its diagnostic is recorded, and at no other time. -/
theorem Parser.kept_failures :
    Kept fun _ (p : Parser σ) =>
      p.events.toList.filter (·.isFailed) = p.diagnostics.toList.map .failed where
  advance h := (filter_announce Event.not_isFailed_of_isIllegal _ _).trans h
  record := by
    intro _ p d h
    rw [record]
    dsimp only
    rw [Array.toList_push, Array.toList_push, List.filter_append, h, List.map_append]
    rfl
  complete h := by simpa [complete, Event.isFailed] using h
  enter h := h
  leave h := h

theorem Parser.failures_parse (s : σ) :
    (MonkeyFrontEnd.parse s).2.events.toList.filter (·.isFailed) =
      (MonkeyFrontEnd.parse s).2.diagnostics.toList.map .failed := by
  refine kept_failures.parse ?_
  rw [start]
  dsimp only
  rw [filter_announce Event.not_isFailed_of_isIllegal, filter_announce Event.not_isFailed_of_isIllegal]
  rfl

namespace Try

mutual

/-- Where no failure is reported, the reports of a try are the statements that it has saved. -/
theorem log_eq : (t : Try σ) → (∀ d, .failed d ∉ t.log) → t.log = t.saved.map .parsed
  | mk a inner, h => by
    have hinner := logAll_eq inner fun d hd => h d (List.mem_append_left _ hd)
    rw [log] at h ⊢
    cases houtcome : a.outcome with
    | ok s =>
      rw [saved_of_ok houtcome, hinner, List.map_append]
      rfl
    | error d =>
      rw [houtcome] at h
      exact absurd (List.mem_append_right _ (List.mem_singleton_self _)) (h d)

theorem logAll_eq : (ts : List (Try σ)) → (∀ d, .failed d ∉ logAll ts) →
    logAll ts = (savedAll ts).map .parsed
  | [], _ => rfl
  | t :: rest, h => by
    have ht := t.log_eq fun d hd => h d (List.mem_append_left _ hd)
    have hrest := logAll_eq rest fun d hd => h d (List.mem_append_right _ hd)
    rw [logAll, savedAll, ht, hrest, List.map_append]

end

end Try

/-- The log of a parse and what the parse gives say the same, event by event and line by line. -/
structure LogAgrees (text file : String) (program : Program) (p : Parser Scanner) : Prop where
  /-- Of the tokens of the text the illegal ones are announced, each once and in their order, with the
  byte at which they begin. -/
  illegal : ∃ placed, Placed file 0 text.toList placed ∧
    placed.map (·.1) = (drain (Scanner.ofString text file)).1 ∧
    placed.Pairwise (fun entry later => entry.2 < later.2) ∧
    p.events.toList.filter (·.isIllegal) =
      (placed.filter (·.1.kind = .illegal)).map (fun entry => .illegal entry.1 entry.2) ∧
    p.lines (·.isIllegal) = (placed.filter (·.1.kind = .illegal)).map fun entry =>
      "DEBUG illegal character " ++ Text.quotedChars entry.1.text ++ " at offset " ++ toString entry.2
  /-- An illegal token is the character that stands there. -/
  character : ∀ t n, .illegal t n ∈ p.events.toList →
    ∃ c before behind, t.text = String.singleton c ∧ text.toList = before ++ c :: behind ∧
      Text.byteLength before = n
  /-- The failures reported are the diagnostics recorded. -/
  failed : p.events.toList.filter (·.isFailed) = p.diagnostics.toList.map .failed
  failedLines : p.lines (·.isFailed) =
    p.diagnostics.toList.map fun d => "DEBUG parse error: " ++ d.message
  /-- Where nothing has failed, each statement is reported once, behind those inside it. -/
  parsed : p.diagnostics = #[] →
    p.events.toList.filter (·.isParsed) = program.postorder.map .parsed
  parsedLines : p.diagnostics = #[] → p.lines (·.isParsed) = program.postorder.map fun s =>
    "TRACE parsed statement `" ++ s.render ++
      "` at offset " ++ toString s.token.span.start.offset.toNat

/-- Where nothing has failed, what is reported is what the tries have saved. -/
theorem parsed_parse (s : σ) (h : (parse s).2.diagnostics = #[]) :
    (parse s).2.events.toList.filter (·.isParsed) = (parse s).1.postorder.map .parsed := by
  have hfailures : (parse s).2.events.toList.filter (·.isFailed) = [] := by
    rw [Parser.failures_parse, h]
    rfl
  obtain ⟨ts, hread⟩ := exists_isReadBy s
  have hreported : (parse s).2.reports = Try.logAll ts := by
    rw [hread.reported, Parser.reports_start, List.nil_append]
  have hnone (d : Diagnostic) : .failed d ∉ Try.logAll ts := by
    intro hd
    rw [← hreported] at hd
    have hmem := List.mem_filter.2 ⟨(List.mem_filter.1 hd).1, (show Event.isFailed (.failed d) from rfl)⟩
    rw [hfailures] at hmem
    cases hmem
  calc (parse s).2.events.toList.filter (·.isParsed)
      = (parse s).2.reports.filter (·.isParsed) := by
        rw [Parser.reports, List.filter_filter]
        congr 1
        funext event
        cases event <;> rfl
    _ = ((Try.savedAll ts).map .parsed).filter (·.isParsed) := by
        rw [hreported, Try.logAll_eq ts hnone]
    _ = (parse s).1.postorder.map .parsed := by
        rw [hread.saved, List.filter_eq_self]
        rintro _ hevent
        obtain ⟨stmt, -, rfl⟩ := List.mem_map.1 hevent
        rfl

/-- However announcements, failures and statements stand between one another in the log of a text, those
of each sort are all there, in their order, and nothing else is. -/
theorem logAgrees_parseText (text file : String) :
    LogAgrees text file (parseText text file).1 (parseText text file).2 := by
  have hplaced := (Scanner.ofString text file).isPlaced_placed
  have hillegal := (Parser.illegals_parse (Scanner.ofString text file)).trans
    (Scanner.announcements_eq _)
  have hfailed := Parser.failures_parse (Scanner.ofString text file)
  have hparsed := parsed_parse (Scanner.ofString text file)
  constructor
  case illegal =>
    exact ⟨_, hplaced, Scanner.map_fst_placed _, hplaced.pairwise_lt, hillegal,
      Parser.lines_eq hillegal⟩
  case character =>
    intro t n hevent
    have hmem := List.mem_filter.2 ⟨hevent, (show Event.isIllegal (.illegal t n) from rfl)⟩
    rw [show List.filter _ (parseText text file).2.events.toList = _ from hillegal] at hmem
    obtain ⟨⟨t', n'⟩, hentry, heq⟩ := List.mem_map.1 hmem
    cases heq
    obtain ⟨hentry, hkind⟩ := List.mem_filter.1 hentry
    obtain ⟨c, before, behind, htext, hsplit, hoffset⟩ :=
      hplaced.exists_character hentry (of_decide_eq_true hkind)
    exact ⟨c, before, behind, htext, hsplit, by rw [← hoffset]; exact (Nat.zero_add _).symm⟩
  case failed => exact hfailed
  case failedLines => exact Parser.lines_eq hfailed
  case parsed => exact hparsed
  case parsedLines => exact fun h => Parser.lines_eq (hparsed h)

/-- The lookahead meets the last character before the statement in front of it is completed. -/
example : (parseText "if (a) \x7b b; c \x7d\né" "f").2.events.toList.map Event.line =
    ["TRACE parsed statement `b` at offset 9", "TRACE parsed statement `c` at offset 12",
      "DEBUG illegal character 'é' at offset 16", "TRACE parsed statement `ifa bc` at offset 0",
      "DEBUG parse error: no prefix parse function found for ILLEGAL"] := by
  decide +kernel

end MonkeyFrontEnd
