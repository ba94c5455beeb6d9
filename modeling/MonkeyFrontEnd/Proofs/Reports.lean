import MonkeyFrontEnd.Diagnostic.Report
import MonkeyFrontEnd.Proofs.Places

/-!
Which diagnostics can be reported. The leading spaces of a line are always sliced off between two
characters, and a line number is never too wide. So a report fails only where its caret would stand too
far to the right (`Diagnostic.exists_report_iff`), and it fails for its width
(`Diagnostic.report_of_not_fits`).
-/

namespace MonkeyFrontEnd.Diagnostic

/-- The margin of the lines above and below a source line. -/
def margin (number : Nat) : String := repeated ' ' ((toString number).length + 1) ++ "|"

/-- A source line as it is printed. -/
def shownLine (line : List Char) : List Char := Text.trimEnd (line.dropWhile (· = ' '))

/-- The picture of a place whose caret is not too far to the right. -/
def drawing (place : Text.Place) : String :=
  margin place.number ++ "\n" ++
  toString place.number ++ " | " ++ String.ofList (shownLine place.line) ++ "\n" ++
  margin place.number ++ " " ++ repeated '-' (caretColumn place) ++ "^"

/-- A space is one byte. -/
theorem byteLength_takeWhile_space (line : List Char) :
    Text.byteLength (line.takeWhile (· = ' ')) = indentation line := by
  have hspaces : ∀ c ∈ line.takeWhile (· = ' '), c = ' ' := fun c hc => by
    simpa using List.all_eq_true.1 List.all_takeWhile c hc
  rw [indentation]
  generalize line.takeWhile (· = ' ') = spaces at hspaces
  induction spaces with
  | nil => rfl
  | cons c spaces ih =>
    obtain rfl := hspaces c (List.mem_cons_self ..)
    rw [Text.byteLength_cons, ih fun c hc => hspaces c (List.mem_cons_of_mem _ hc),
      show ' '.utf8Size = 1 from rfl, List.length_cons, Nat.add_comm]

theorem indentation_add_byteLength (line : List Char) :
    indentation line + Text.byteLength (line.dropWhile (· = ' ')) = Text.byteLength line := by
  rw [← byteLength_takeWhile_space, ← Text.byteLength_append, List.takeWhile_append_dropWhile]

/-- So the leading spaces of a line can be sliced off by their number. -/
theorem dropBytes_indentation (line : List Char) :
    Text.dropBytes line (indentation line) = .ok (line.dropWhile (· = ' ')) := by
  have hdrop := Text.dropBytes_byteLength_append (line.takeWhile (· = ' ')) (line.dropWhile (· = ' '))
  rwa [List.takeWhile_append_dropWhile, byteLength_takeWhile_space] at hdrop

theorem mapError_dropBytes_indentation (line : List Char) :
    (Text.dropBytes line (indentation line)).mapError ReportFault.slice =
      .ok (line.dropWhile (· = ' ')) := by
  rw [dropBytes_indentation]
  rfl

theorem aligned_of_lt (fill : Char) {columns : Nat} {mark : String} (hmark : mark.length = 1)
    (h : columns < widest) : aligned fill (columns + 1) mark = .ok (repeated fill columns ++ mark) := by
  rw [aligned, if_pos (Nat.succ_le_of_lt h), hmark, Nat.add_sub_cancel]

theorem aligned_of_le (fill : Char) {columns : Nat} (mark : String) (h : widest ≤ columns) :
    aligned fill (columns + 1) mark = .error (.width (columns + 1)) := by
  rw [aligned, if_neg (Nat.not_le_of_lt (Nat.lt_succ_of_le h))]

section

variable {d : Diagnostic} {source : String} {place : Text.Place}

theorem picture_of_lt (hnumber : (toString place.number).length + 1 < widest)
    (hcaret : caretColumn place < widest) : picture place = .ok (drawing place) := by
  have hmargin := aligned_of_lt ' ' (show "|".length = 1 by decide) hnumber
  have hmark := aligned_of_lt '-' (show "^".length = 1 by decide) hcaret
  simp only [picture, hmargin, hmark, mapError_dropBytes_indentation, drawing, margin, shownLine, bind,
    Except.bind, pure, Except.pure, String.append_assoc]

theorem picture_of_le (hnumber : (toString place.number).length + 1 < widest)
    (hcaret : widest ≤ caretColumn place) :
    picture place = .error (.width (caretColumn place + 1)) := by
  have hmargin := aligned_of_lt ' ' (show "|".length = 1 by decide) hnumber
  simp only [picture, hmargin, aligned_of_le '-' "^" hcaret, mapError_dropBytes_indentation, bind,
    Except.bind]

/-- Offsets have 32 bits, so a line number has ten digits at most. -/
theorem length_number_lt (hplace : Text.placeOf source.toList d.position.offset.toNat = some place) :
    (toString place.number).length + 1 < widest := by
  obtain ⟨before, after, hlies⟩ := Text.exists_liesAt_of_placeOf hplace
  have hoffset := d.position.offset.toNat_lt
  have hnumber := hlies.number_le
  have hdigits := (Nat.length_repr_le_iff (n := place.number) (k := 10) (by decide)).2 (by omega)
  change place.number.repr.length + 1 < 65535
  omega

/-- The caret is not too far to the right, if the diagnostic is reported with a line. -/
def Fits (d : Diagnostic) (source : String) : Prop :=
  ∀ place, Text.placeOf source.toList d.position.offset.toNat = some place → caretColumn place < widest

theorem report_of_lt (hplace : Text.placeOf source.toList d.position.offset.toNat = some place)
    (hcaret : caretColumn place < widest) : d.report source = .ok (d.heading ++ drawing place) := by
  rw [report, hplace]
  simp only [picture_of_lt (length_number_lt hplace) hcaret]
  rfl

theorem report_of_le (hplace : Text.placeOf source.toList d.position.offset.toNat = some place)
    (hcaret : widest ≤ caretColumn place) :
    d.report source = .error (.width (caretColumn place + 1)) := by
  rw [report, hplace]
  simp only [picture_of_le (length_number_lt hplace) hcaret]
  rfl

/-- A diagnostic is reported exactly if its caret fits. -/
theorem exists_report_iff : (∃ shown, d.report source = .ok shown) ↔ d.Fits source := by
  constructor
  · rintro ⟨shown, hshown⟩ place hplace
    refine Nat.lt_of_not_le fun hcaret => ?_
    rw [report_of_le hplace hcaret] at hshown
    cases hshown
  · intro hfits
    cases hplace : Text.placeOf source.toList d.position.offset.toNat with
    | none => exact ⟨d.heading, by rw [report, hplace]⟩
    | some place => exact ⟨_, report_of_lt hplace (hfits place hplace)⟩

/-- Where it does not fit, the report fails for its width. -/
theorem report_of_not_fits (h : ¬ d.Fits source) :
    ∃ columns > widest, d.report source = .error (.width columns) := by
  obtain ⟨place, h⟩ := Classical.not_forall.1 h
  obtain ⟨hplace, hcaret⟩ := Classical.not_imp.1 h
  have hwide := Nat.le_of_not_lt hcaret
  exact ⟨caretColumn place + 1, Nat.lt_succ_of_le hwide, report_of_le hplace hwide⟩

theorem report_ne_slice (d : Diagnostic) (source : String) (fault : Text.OffsetFault) :
    d.report source ≠ .error (.slice fault) := by
  intro hfault
  by_cases hfits : d.Fits source
  · obtain ⟨shown, hshown⟩ := exists_report_iff.2 hfits
    rw [hshown] at hfault
    cases hfault
  · obtain ⟨columns, -, hwidth⟩ := report_of_not_fits hfits
    rw [hwidth] at hfault
    cases hfault

/-- The caret fits below a line that is not too long itself. -/
theorem fits_of_lines (d : Diagnostic) {source : String}
    (h : ∀ line ∈ Text.lines source.toList, Text.byteLength line < widest) : d.Fits source := by
  intro place hplace
  obtain ⟨before, after, hlies⟩ := Text.exists_liesAt_of_placeOf hplace
  have hshort : Text.byteLength place.line < widest := by
    obtain hmem | ⟨-, hnil⟩ := Text.line_mem_of_placeIn hplace
    · exact h _ hmem
    · rw [hnil]
      decide
  have hcolumn := hlies.column_le
  rw [caretColumn]
  omega

end

end MonkeyFrontEnd.Diagnostic
