import Mathlib.Data.Nat.Digits.Defs
import MonkeyFrontEnd.Proofs.Slices

/-!
Which texts are integers, and which integers they are. The beginning of a literal chooses a base, and
what is left has to be digits of this base, each of them perhaps behind one underscore. The value is
the number that the digits stand for in that base, if it is not above the largest one
(`IntegerLiteral.exists_base_read_iff`).
-/

namespace MonkeyFrontEnd.IntegerLiteral

/-! ## Bases -/

/-- The letters that choose a base behind a first zero. -/
def baseLetters : List (Char × Nat) :=
  [('x', 16), ('X', 16), ('o', 8), ('O', 8), ('b', 2), ('B', 2)]

/-- The base that the beginning of a text chooses, and the part of the text where its digits stand. -/
inductive Chooses : List Char → Nat → List Char → Prop
  | letter {c : Char} {base : Nat} (h : (c, base) ∈ baseLetters) (digits : List Char) :
      Chooses ('0' :: c :: digits) base digits
  | zero {c : Char} (h : c ∉ baseLetters.map Prod.fst) (cs : List Char) :
      Chooses ('0' :: c :: cs) 8 (c :: cs)
  | plain {cs : List Char} (h : ∀ c ds, cs ≠ '0' :: c :: ds) : Chooses cs 10 cs

theorem split_of_chooses {cs digits : List Char} {base : Nat} (h : Chooses cs base digits) :
    split cs = (base, digits) := by
  cases h with
  | letter h =>
    simp only [baseLetters, List.mem_cons, Prod.mk.injEq, List.not_mem_nil, or_false] at h
    rcases h with ⟨rfl, rfl⟩ | ⟨rfl, rfl⟩ | ⟨rfl, rfl⟩ | ⟨rfl, rfl⟩ | ⟨rfl, rfl⟩ | ⟨rfl, rfl⟩ <;> rfl
  | zero h => exact split_of_not_letter h
  | plain h => exact split_of_not_zero h

/-- Every text chooses a base. -/
theorem exists_chooses (cs : List Char) : ∃ base digits, Chooses cs base digits := by
  by_cases hzero : ∃ c ds, cs = '0' :: c :: ds
  · obtain ⟨c, ds, rfl⟩ := hzero
    by_cases hletter : c ∈ baseLetters.map Prod.fst
    · obtain ⟨⟨c, base⟩, hmem, rfl⟩ := List.mem_map.1 hletter
      exact ⟨base, ds, .letter hmem ds⟩
    · exact ⟨8, c :: ds, .zero hletter ds⟩
  · exact ⟨10, cs, .plain fun c ds h => hzero ⟨c, ds, h⟩⟩

/-! ## Digits -/

/-- The signs of digits, each at the place of its value. -/
def digitSigns : List Char := "0123456789abcdefghijklmnopqrstuvwxyz".toList

/-- The character is the digit of a base with this value. Letters may be written in either case. -/
def IsDigit (base : Nat) (c : Char) (d : Nat) : Prop := digitSigns[d]? = some c.toLower ∧ d < base

/-- An ASCII character has the value of its sign. -/
theorem digitValue?_ascii : (List.range 128).all (fun n =>
    (digitValue? (Char.ofNat n)).all (· < 36) &&
    (List.range 36).all fun d =>
      digitValue? (Char.ofNat n) = some d ↔ digitSigns[d]? = some (Char.ofNat n).toLower) = true := by
  decide +kernel

/-- No other character is a digit, in whatever case. -/
theorem not_digit_of_not_ascii {c : Char} (hc : 128 ≤ c.toNat) :
    digitValue? c = none ∧ c.toLower ∉ digitSigns := by
  have hsigns : digitSigns.all (·.toNat < 128) = true := by decide
  have hdigit : ¬ c.isDigit = true := by rw [isDigit_iff]; omega
  have halpha : ¬ c.isAlpha = true := by rw [isAlpha_iff]; omega
  have hcase : ¬ c.isUpper = true ∧ ¬ c.isLower = true := by
    have hor : c.isAlpha = (c.isUpper || c.isLower) := rfl
    simpa [hor] using halpha
  have hsame : c.toLower = c := by
    refine dif_neg ?_
    rintro ⟨-, hle⟩
    have : c.toNat ≤ 90 := UInt32.le_iff_toNat_le.1 hle
    omega
  refine ⟨?_, fun hmem => ?_⟩
  · rw [digitValue?, if_neg hdigit, if_neg hcase.2, if_neg hcase.1]
  · rw [hsame] at hmem
    have := of_decide_eq_true (List.all_eq_true.1 hsigns c hmem)
    omega

theorem digitValue?_eq_some_iff {c : Char} {d : Nat} :
    digitValue? c = some d ↔ digitSigns[d]? = some c.toLower := by
  by_cases hc : c.toNat < 128
  · have hascii := List.all_eq_true.1 digitValue?_ascii c.toNat (List.mem_range.2 hc)
    rw [Char.ofNat_toNat, Bool.and_eq_true, List.all_eq_true] at hascii
    by_cases hd : d < 36
    · exact of_decide_eq_true (hascii.2 d (List.mem_range.2 hd))
    · have hnone : digitSigns[d]? = none := List.getElem?_eq_none (Nat.le_of_not_lt hd)
      rw [hnone]
      refine iff_of_false (fun hvalue => ?_) nofun
      rw [hvalue, Option.all_some, decide_eq_true_iff] at hascii
      exact hd hascii.1
  · obtain ⟨hnone, hmem⟩ := not_digit_of_not_ascii (Nat.le_of_not_lt hc)
    rw [hnone]
    exact iff_of_false nofun fun hsign => hmem (List.mem_of_getElem? hsign)

theorem digitIn?_eq_some_iff {base : Nat} {c : Char} {d : Nat} :
    digitIn? base c = some d ↔ IsDigit base c d := by
  rw [digitIn?, Option.filter_eq_some_iff, digitValue?_eq_some_iff, IsDigit, decide_eq_true_iff]

/-- Digits of a base as they may be written, with their values: each of them alone or behind one
underscore. -/
inductive IsWritten (base : Nat) : List Char → List Nat → Prop
  | nil : IsWritten base [] []
  | alone {c : Char} {d : Nat} {cs : List Char} {ds : List Nat} (hc : IsDigit base c d)
      (h : IsWritten base cs ds) : IsWritten base (c :: cs) (d :: ds)
  | behindBar {c : Char} {d : Nat} {cs : List Char} {ds : List Nat} (hc : IsDigit base c d)
      (h : IsWritten base cs ds) : IsWritten base ('_' :: c :: cs) (d :: ds)

/-- An underscore is no digit. -/
theorem IsDigit.ne_bar {base : Nat} {c : Char} {d : Nat} (h : IsDigit base c d) : c ≠ '_' := by
  rintro rfl
  have hnone : digitValue? '_' = none := by decide
  rw [← digitIn?_eq_some_iff, digitIn?, hnone] at h
  cases h

theorem IsWritten.exists_dropBars {base : Nat} {cs : List Char} {ds : List Nat}
    (h : IsWritten base cs ds) :
    ∃ bare, dropBars false cs = some bare ∧ bare.mapM (digitIn? base) = some ds := by
  induction h with
  | nil => exact ⟨[], rfl, rfl⟩
  | @alone c d cs ds hc _ ih =>
    obtain ⟨bare, hbare, hds⟩ := ih
    refine ⟨c :: bare, ?_, ?_⟩
    · rw [dropBars, if_neg hc.ne_bar, hbare, Option.map_some]
    · rw [List.mapM_cons, digitIn?_eq_some_iff.2 hc, hds]
      rfl
  | @behindBar c d cs ds hc _ ih =>
    obtain ⟨bare, hbare, hds⟩ := ih
    refine ⟨c :: bare, ?_, ?_⟩
    · rw [dropBars, if_pos rfl, if_neg (by simp), dropBars, if_neg hc.ne_bar, hbare, Option.map_some]
    · rw [List.mapM_cons, digitIn?_eq_some_iff.2 hc, hds]
      rfl

/-- Digits that are left without their underscores were written, with the last underscore in front of
them if there was one. -/
theorem isWritten_of_dropBars {base : Nat} (afterBar : Bool) {cs bare : List Char} {ds : List Nat}
    (hbare : dropBars afterBar cs = some bare) (hds : bare.mapM (digitIn? base) = some ds) :
    IsWritten base (if afterBar then '_' :: cs else cs) ds := by
  induction cs generalizing afterBar bare ds with
  | nil =>
    cases afterBar with
    | true => cases hbare
    | false =>
      cases hbare
      cases hds
      exact .nil
  | cons c cs ih =>
    by_cases hbar : c = '_'
    · subst hbar
      cases afterBar with
      | true => cases hbare
      | false => exact ih true hbare hds
    · rw [dropBars, if_neg hbar, Option.map_eq_some_iff] at hbare
      obtain ⟨later, hlater, rfl⟩ := hbare
      rw [List.mapM_cons] at hds
      obtain ⟨d, hd, hds⟩ := Option.bind_eq_some_iff.1 hds
      obtain ⟨ds', hds', hcons⟩ := Option.bind_eq_some_iff.1 hds
      cases hcons
      have hc := digitIn?_eq_some_iff.1 hd
      have hrest : IsWritten base cs ds' := ih false hlater hds'
      cases afterBar with
      | true => exact .behindBar hc hrest
      | false => exact .alone hc hrest

/-! ## Values -/

/-- Reading the digits from the left gives what they stand for. -/
theorem valueOf_eq_ofDigits (base : Nat) (ds : List Nat) :
    valueOf base ds = Nat.ofDigits base ds.reverse := by
  rw [Nat.ofDigits_eq_foldr, List.foldr_reverse, valueOf]
  congr 1
  funext n d
  rw [Nat.add_comm, Nat.mul_comm]
  rfl

theorem readDigits_eq_some_iff {base : Nat} {cs : List Char} {v : Nat} :
    readDigits base cs = some v ↔ ∃ ds, cs.mapM (digitIn? base) = some ds ∧ ds ≠ [] ∧
      Nat.ofDigits base ds.reverse = v ∧ v ≤ 2 ^ 63 - 1 := by
  cases cs with
  | nil => simp [readDigits]
  | cons c cs =>
    have hne {ds : List Nat} (h : (c :: cs).mapM (digitIn? base) = some ds) : ds ≠ [] := by
      rintro rfl
      rw [List.mapM_cons] at h
      obtain ⟨d, -, h⟩ := Option.bind_eq_some_iff.1 h
      obtain ⟨ds, -, h⟩ := Option.bind_eq_some_iff.1 h
      cases h
    simp only [readDigits, List.isEmpty_cons, Bool.false_eq_true, if_false, Option.filter_eq_some_iff,
      Option.map_eq_some_iff, decide_eq_true_iff, valueOf_eq_ofDigits]
    constructor
    · rintro ⟨⟨ds, hds, hvalue⟩, hle⟩
      exact ⟨ds, hds, hne hds, hvalue, hle⟩
    · rintro ⟨ds, hds, -, hvalue, hle⟩
      exact ⟨⟨ds, hds, hvalue⟩, hle⟩

/-- A text is read as an integer exactly if what its beginning leaves is one digit or more of the base
that it chooses, each of them perhaps behind one underscore, and the number that they stand for is no
more than the largest signed word; the integer is that number. Every other text is refused. -/
theorem exists_base_read_iff (text : String) : ∃ base digits, Chooses text.toList base digits ∧
    ∀ v, read text = some v ↔ ∃ ds, IsWritten base digits ds ∧ ds ≠ [] ∧
      Nat.ofDigits base ds.reverse = v ∧ v ≤ 2 ^ 63 - 1 := by
  obtain ⟨base, digits, hchooses⟩ := exists_chooses text.toList
  refine ⟨base, digits, hchooses, fun v => ?_⟩
  have hread : read text = (dropBars false digits).bind (readDigits base) := by
    rw [read, split_of_chooses hchooses]
  rw [hread, Option.bind_eq_some_iff]
  constructor
  · rintro ⟨bare, hbare, hvalue⟩
    obtain ⟨ds, hds, hv⟩ := readDigits_eq_some_iff.1 hvalue
    exact ⟨ds, isWritten_of_dropBars false hbare hds, hv⟩
  · rintro ⟨ds, hwritten, hv⟩
    obtain ⟨bare, hbare, hds⟩ := hwritten.exists_dropBars
    exact ⟨bare, hbare, readDigits_eq_some_iff.2 ⟨ds, hds, hv⟩⟩

/-- The largest integer in base sixteen, and one more. -/
example : read "0x7FFF_ffff_FFFF_ffff" = some (2 ^ 63 - 1) ∧ read "0x8000_0000_0000_0000" = none := by
  decide +kernel

end MonkeyFrontEnd.IntegerLiteral
