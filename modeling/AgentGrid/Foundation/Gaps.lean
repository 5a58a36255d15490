import Mathlib.Data.List.Sort
import Mathlib.Order.Bounds.Basic

/-!
# Gaps in numbered lists

An ascending list of integers is numbered from `k` on.  The first element that is
not its own number marks the first number that is missing.
-/

namespace AgentGrid.Foundation

/-- The number of the first element that is not its own number. -/
def firstGap : Nat → List Int → Option Nat
  | _, [] => none
  | k, x :: xs => if x = k then firstGap (k + 1) xs else some k

theorem min_gap (k : Nat) (xs : List Int) :
    (((xs.zipIdx k).filter fun p => p.1 ≠ (p.2 : Int)).map Prod.snd).min? = firstGap k xs := by
  induction xs generalizing k with
  | nil => rfl
  | cons x xs ih =>
      rw [List.zipIdx_cons, firstGap]
      by_cases hx : x = k
      · rw [if_pos hx, ← ih (k + 1), List.filter_cons_of_neg (by simp [hx])]
      · rw [if_neg hx, List.filter_cons_of_pos (by simp [hx]), List.map_cons,
          List.min?_eq_some_iff]
        refine ⟨List.mem_cons_self, fun r hr => ?_⟩
        rcases List.mem_cons.mp hr with rfl | hr
        · exact le_rfl
        · obtain ⟨p, hp, rfl⟩ := List.mem_map.mp hr
          have := List.le_snd_of_mem_zipIdx (List.mem_of_mem_filter hp)
          omega

theorem firstGap_some {k r : Nat} {xs : List Int} (hxs : xs.Pairwise (· < ·))
    (hk : ∀ x ∈ xs, (k : Int) ≤ x) (h : firstGap k xs = some r) :
    k ≤ r ∧ (∀ j : Nat, k ≤ j → j < r → (j : Int) ∈ xs) ∧ (r : Int) ∉ xs := by
  induction xs generalizing k with
  | nil => cases h
  | cons x xs ih =>
      obtain ⟨hlt, hxs⟩ := List.pairwise_cons.mp hxs
      rw [firstGap] at h
      split at h
      · rename_i hx
        have hrest : ∀ y ∈ xs, ((k + 1 : Nat) : Int) ≤ y := by
          intro y hy
          have := hlt y hy
          omega
        obtain ⟨hle, hin, hout⟩ := ih hxs hrest h
        refine ⟨by omega, ?_, ?_⟩
        · intro j hj hjr
          by_cases hjk : j = k
          · rw [hjk, ← hx]
            exact List.mem_cons_self
          · exact List.mem_cons_of_mem _ (hin j (by omega) hjr)
        · intro hr
          rcases List.mem_cons.mp hr with heq | hr
          · omega
          · exact hout hr
      · rename_i hx
        obtain rfl := Option.some.inj h
        refine ⟨le_rfl, fun j hj hj' => by omega, fun hmem => ?_⟩
        have hkx := hk x List.mem_cons_self
        rcases List.mem_cons.mp hmem with heq | hmem
        · exact hx heq.symm
        · have := hlt _ hmem
          omega

/-- Without a gap the list is the interval of its numbers. -/
theorem firstGap_none {k : Nat} {xs : List Int} (h : firstGap k xs = none) {j : Int} :
    j ∈ xs ↔ (k : Int) ≤ j ∧ j < k + xs.length := by
  induction xs generalizing k with
  | nil =>
      simp only [List.not_mem_nil, List.length_nil, false_iff]
      omega
  | cons x xs ih =>
      rw [firstGap] at h
      split at h
      · rename_i hx
        rw [List.mem_cons, ih h, List.length_cons]
        omega
      · cases h

end AgentGrid.Foundation
