import Mathlib.Data.List.Basic

/-!
# Lines of a sequence

A sequence is cut into pieces after every separator.  `pieces` keeps with each
piece whether a separator ended it, and `terminated` writes whole pieces back.
-/

namespace AgentGrid.Foundation

variable {α : Type} [DecidableEq α]

def pieces (sep : α) : List α → List (List α × Bool)
  | [] => []
  | a :: as =>
      if a = sep then ([], true) :: pieces sep as
      else
        match pieces sep as with
        | [] => [([a], false)]
        | (piece, ended) :: rest => (a :: piece, ended) :: rest

omit [DecidableEq α] in
def terminated (sep : α) (rows : List (List α)) : List α :=
  rows.flatMap fun row => row ++ [sep]

/-- `new` put after the first `k` separators, or at the end. -/
def insertAfter (sep : α) : Nat → List α → List α → List α
  | 0, new, as => new ++ as
  | _ + 1, new, [] => new
  | k + 1, new, a :: as => a :: insertAfter sep (if a = sep then k else k + 1) new as

section Terminated

variable {sep : α}

omit [DecidableEq α] in
@[simp] theorem terminated_nil : terminated sep [] = [] := rfl

omit [DecidableEq α] in
@[simp] theorem terminated_cons (row : List α) (rows : List (List α)) :
    terminated sep (row :: rows) = row ++ sep :: terminated sep rows := by
  simp [terminated]

omit [DecidableEq α] in
theorem terminated_append (first second : List (List α)) :
    terminated sep (first ++ second) = terminated sep first ++ terminated sep second :=
  List.flatMap_append

theorem pieces_row {row : List α} (hrow : sep ∉ row) (rest : List α) :
    pieces sep (row ++ sep :: rest) = (row, true) :: pieces sep rest := by
  induction row with
  | nil => simp [pieces]
  | cons a row ih =>
      have ha : a ≠ sep := fun h => hrow (h ▸ List.mem_cons_self ..)
      have htail := ih fun h => hrow (List.mem_cons_of_mem _ h)
      rw [List.cons_append, pieces, if_neg ha, htail]

/-- Whole pieces are read back as they were written. -/
theorem pieces_terminated {rows : List (List α)} (h : ∀ row ∈ rows, sep ∉ row) :
    pieces sep (terminated sep rows) = rows.map fun row => (row, true) := by
  induction rows with
  | nil => rfl
  | cons row rows ih =>
      rw [terminated_cons, pieces_row (h row (List.mem_cons_self ..)),
        ih fun r hr => h r (List.mem_cons_of_mem _ hr), List.map_cons]

theorem pieces_terminated_append {rows : List (List α)} (h : ∀ row ∈ rows, sep ∉ row)
    (rest : List α) :
    pieces sep (terminated sep rows ++ rest) =
      (rows.map fun row => (row, true)) ++ pieces sep rest := by
  induction rows with
  | nil => rfl
  | cons row rows ih =>
      rw [terminated_cons, List.append_assoc, List.cons_append,
        pieces_row (h row (List.mem_cons_self ..)), ih fun r hr => h r (List.mem_cons_of_mem _ hr)]
      rfl

theorem pieces_unended {row : List α} (hrow : sep ∉ row) (hne : row ≠ []) :
    pieces sep row = [(row, false)] := by
  induction row with
  | nil => exact absurd rfl hne
  | cons a row ih =>
      have ha : a ≠ sep := fun h => hrow (h ▸ List.mem_cons_self ..)
      rw [pieces, if_neg ha]
      cases row with
      | nil => rfl
      | cons b row =>
          rw [ih (fun h => hrow (List.mem_cons_of_mem _ h)) (List.cons_ne_nil b row)]

theorem terminated_inj {first second : List (List α)} (hfirst : ∀ row ∈ first, sep ∉ row)
    (hsecond : ∀ row ∈ second, sep ∉ row) (h : terminated sep first = terminated sep second) :
    first = second := by
  have hpieces := congrArg (pieces sep) h
  rw [pieces_terminated hfirst, pieces_terminated hsecond] at hpieces
  exact List.map_injective_iff.mpr (fun _ _ hrow => (Prod.mk.inj hrow).1) hpieces

theorem insertAfter_row {row : List α} (hrow : sep ∉ row) (k : Nat) (new rest : List α) :
    insertAfter sep (k + 1) new (row ++ sep :: rest) =
      row ++ sep :: insertAfter sep k new rest := by
  induction row with
  | nil => simp [insertAfter]
  | cons a row ih =>
      have ha : a ≠ sep := fun h => hrow (h ▸ List.mem_cons_self ..)
      have htail := ih fun h => hrow (List.mem_cons_of_mem _ h)
      rw [List.cons_append, insertAfter, if_neg ha, htail, List.cons_append]

/-- What is inserted stands between whole pieces. -/
theorem insertAfter_terminated {rows : List (List α)} (h : ∀ row ∈ rows, sep ∉ row)
    (k : Nat) (new : List α) :
    insertAfter sep k new (terminated sep rows) =
      terminated sep (rows.take k) ++ new ++ terminated sep (rows.drop k) := by
  induction rows generalizing k with
  | nil => cases k <;> simp [insertAfter]
  | cons row rows ih =>
      cases k with
      | zero => simp [insertAfter]
      | succ k =>
          have htail := ih (fun r hr => h r (List.mem_cons_of_mem _ hr)) k
          rw [terminated_cons, insertAfter_row (h row (List.mem_cons_self ..)), htail]
          simp

end Terminated

end AgentGrid.Foundation
