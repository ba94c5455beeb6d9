/-!
Cutting a list behind every occurrence of one element.  Each piece keeps the element it was cut
behind, so the pieces, one after the other, are the list; a list that ends in that element has no
further empty piece.
-/

namespace MonkeyFrontEnd.Text

variable {α : Type} [DecidableEq α]

/-- Put an element before the first piece; the one that pieces end in is a piece of its own there. -/
def startPiece (stop c : α) (later : List (List α)) : List (List α) :=
  if c = stop then [c] :: later
  else match later with
    | [] => [[c]]
    | piece :: rest => (c :: piece) :: rest

/-- The pieces of a list, each with the element `stop` that ends it. -/
def pieces (stop : α) (cs : List α) : List (List α) := cs.foldr (startPiece stop) []

@[simp] theorem pieces_nil (stop : α) : pieces stop [] = [] := rfl

@[simp] theorem pieces_cons (stop c : α) (cs : List α) :
    pieces stop (c :: cs) = startPiece stop c (pieces stop cs) := rfl

/-- Nothing is lost or added by cutting. -/
theorem flatten_pieces (stop : α) (cs : List α) : (pieces stop cs).flatten = cs := by
  induction cs with
  | nil => rfl
  | cons c cs ih =>
    rw [pieces_cons]
    unfold startPiece
    split
    · rw [List.flatten_cons, ih, List.singleton_append]
    · split
      · next h =>
        rw [h] at ih
        simpa using ih
      · next h =>
        rw [h] at ih
        simpa using ih

theorem ne_nil_of_mem_pieces {stop : α} {cs piece : List α} (h : piece ∈ pieces stop cs) :
    piece ≠ [] := by
  induction cs with
  | nil => simp at h
  | cons c cs ih =>
    rw [pieces_cons] at h
    unfold startPiece at h
    split at h
    · rcases List.mem_cons.1 h with rfl | h
      · simp
      · exact ih h
    · split at h
      · simp_all
      · next first rest heq =>
        rcases List.mem_cons.1 h with rfl | h
        · simp
        · exact ih (heq ▸ List.mem_cons_of_mem _ h)

/-- A list without the element is one piece. -/
theorem pieces_of_not_mem {stop : α} {cs : List α} (hne : cs ≠ []) (h : stop ∉ cs) :
    pieces stop cs = [cs] := by
  induction cs with
  | nil => exact absurd rfl hne
  | cons c cs ih =>
    rw [List.mem_cons, not_or] at h
    rw [pieces_cons, startPiece.eq_def, if_neg (Ne.symm h.1)]
    cases cs with
    | nil => rfl
    | cons d cs => rw [ih (List.cons_ne_nil d cs) h.2]

/-- The first occurrence of the element ends the first piece. -/
theorem pieces_append_cons {stop : α} {cs : List α} (h : stop ∉ cs) (rest : List α) :
    pieces stop (cs ++ stop :: rest) = (cs ++ [stop]) :: pieces stop rest := by
  induction cs with
  | nil => rw [List.nil_append, pieces_cons, startPiece.eq_def, if_pos rfl, List.nil_append]
  | cons c cs ih =>
    rw [List.mem_cons, not_or] at h
    rw [List.cons_append, pieces_cons, ih h.2, startPiece.eq_def, if_neg (Ne.symm h.1),
      List.cons_append]

end MonkeyFrontEnd.Text
