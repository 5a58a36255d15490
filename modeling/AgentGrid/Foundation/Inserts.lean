import Mathlib.Data.List.Basic
import Mathlib.Logic.Function.Basic

/-!
# Rows of an insert

An insert names columns and gives each a value; the row takes its other columns
from the table's defaults.
-/

namespace AgentGrid.Foundation

variable {κ ν : Type} [DecidableEq κ]

def inserted (fallback : κ → ν) (values : List (κ × ν)) : κ → ν :=
  fun c => (values.lookup c).getD (fallback c)

section Leaving

variable (fallback : κ → ν) (values : List (κ × ν)) (k : κ)

theorem lookup_filter_ne {c : κ} (hc : c ≠ k) :
    (values.filter fun v => v.1 != k).lookup c = values.lookup c := by
  induction values with
  | nil => rfl
  | cons v values ih =>
      obtain ⟨d, x⟩ := v
      by_cases hd : d = k
      · have hother : (c == d) = false := beq_eq_false_iff_ne.mpr (hd ▸ hc)
        rw [List.filter_cons_of_neg (by simp [hd]), List.lookup_cons, hother, ih]
      · have hkept : ((d, x).1 != k) = true := bne_iff_ne.mpr hd
        rw [List.filter_cons, if_pos hkept, List.lookup_cons, List.lookup_cons, ih]

theorem lookup_filter_self : (values.filter fun v => v.1 != k).lookup k = none := by
  rw [List.lookup_eq_none_iff]
  intro v hv
  have hne := (List.mem_filter.mp hv).2
  rw [bne_iff_ne] at hne
  exact bne_iff_ne.mpr hne.symm

/-- Leaving a column out leaves it at its default. -/
theorem inserted_leaving : inserted fallback (values.filter fun v => v.1 != k) =
    Function.update (inserted fallback values) k (fallback k) := by
  funext c
  by_cases hc : c = k
  · rw [hc, Function.update_self, inserted, lookup_filter_self, Option.getD_none]
  · rw [Function.update_of_ne hc, inserted, lookup_filter_ne values k hc, inserted]

end Leaving

end AgentGrid.Foundation
