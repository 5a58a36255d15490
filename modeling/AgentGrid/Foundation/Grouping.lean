import Mathlib.Data.List.Destutter
import Mathlib.Order.Lattice

/-!
# Repetitions in a list

`List.destutter` drops what repeats the element before it.  Nothing is left twice
exactly when every element that comes back comes back right after itself.  In a list
that is sorted by one component this is asked of the elements of each value alone.
-/

namespace AgentGrid.Foundation

variable {α κ ι : Type}

/-- An element that comes again comes next. -/
def Grouped : List κ → Prop
  | [] => True
  | k :: ks => Grouped ks ∧ (k ∈ ks → ks.head? = some k)

section Destutter

variable [DecidableEq κ]

theorem mem_destutter'_ne {k x : κ} {ks : List κ} :
    x ∈ ks.destutter' (· ≠ ·) k ↔ x ∈ k :: ks := by
  induction ks generalizing k with
  | nil => rfl
  | cons k' ks ih =>
      by_cases h : k ≠ k'
      · rw [List.destutter'_cons_pos ks h]
        simp only [List.mem_cons, ih]
      · rw [List.destutter'_cons_neg ks h, ih]
        obtain rfl := not_not.mp h
        simp

theorem mem_destutter_ne {x : κ} {ks : List κ} : x ∈ ks.destutter (· ≠ ·) ↔ x ∈ ks := by
  cases ks with
  | nil => rfl
  | cons k ks => exact mem_destutter'_ne

theorem nodup_destutter'_iff {k : κ} {ks : List κ} :
    (ks.destutter' (· ≠ ·) k).Nodup ↔ Grouped (k :: ks) := by
  induction ks generalizing k with
  | nil => simp [Grouped]
  | cons k' ks ih =>
      by_cases h : k ≠ k'
      · rw [List.destutter'_cons_pos ks h, List.nodup_cons, ih, mem_destutter'_ne]
        simp only [Grouped, List.head?_cons, Option.some.injEq, Ne.symm h, imp_false]
        exact and_comm
      · rw [List.destutter'_cons_neg ks h, ih]
        obtain rfl := not_not.mp h
        simp [Grouped]

theorem nodup_destutter_iff {ks : List κ} : (ks.destutter (· ≠ ·)).Nodup ↔ Grouped ks := by
  cases ks with
  | nil => simp [Grouped]
  | cons k ks => exact nodup_destutter'_iff

end Destutter

section Sorted

variable [LinearOrder ι] {f : α → ι} {g : α → κ}

/-- In a sorted list an element comes next of all if it comes next of its value. -/
theorem head?_of_sorted {a : α} {l : List α} (hsorted : (a :: l).Pairwise fun x y => f x ≤ f y) :
    ((f a, g a) ∈ l.map (fun x => (f x, g x)) →
      (l.map fun x => (f x, g x)).head? = some (f a, g a)) ↔
    (g a ∈ (l.filter fun x => f x = f a).map g →
      ((l.filter fun x => f x = f a).map g).head? = some (g a)) := by
  have hmem : (f a, g a) ∈ l.map (fun x => (f x, g x)) ↔
      g a ∈ (l.filter fun x => f x = f a).map g := by
    simp [Prod.ext_iff, and_assoc]
  rw [hmem]
  refine forall_congr' fun hin => ?_
  obtain ⟨y, hy, _⟩ := List.mem_map.mp hin
  obtain ⟨hy, hfy⟩ := List.mem_filter.mp hy
  cases l with
  | nil => cases hy
  | cons b l =>
      obtain ⟨hfirst, hrest⟩ := List.pairwise_cons.mp hsorted
      have hb : f b = f a := by
        refine le_antisymm ?_ (hfirst b List.mem_cons_self)
        rcases List.mem_cons.mp hy with rfl | hy
        · exact le_of_eq (by simpa using hfy)
        · exact ((List.pairwise_cons.mp hrest).1 y hy).trans (le_of_eq (by simpa using hfy))
      simp [hb]

theorem grouped_of_sorted {l : List α} (hsorted : l.Pairwise fun x y => f x ≤ f y) :
    Grouped (l.map fun x => (f x, g x)) ↔
      ∀ i, Grouped ((l.filter fun x => f x = i).map g) := by
  induction l with
  | nil => simp [Grouped]
  | cons a l ih =>
      rw [List.map_cons, Grouped, ih (List.pairwise_cons.mp hsorted).2, head?_of_sorted hsorted]
      constructor
      · rintro ⟨hrest, hnext⟩ i
        by_cases hi : f a = i
        · subst hi
          rw [List.filter_cons_of_pos (by simp), List.map_cons, Grouped]
          exact ⟨hrest (f a), hnext⟩
        · rw [List.filter_cons_of_neg (by simpa using hi)]
          exact hrest i
      · intro h
        refine ⟨fun i => ?_, ?_⟩
        · have hi := h i
          by_cases hai : f a = i
          · rw [List.filter_cons_of_pos (by simpa using hai), List.map_cons, Grouped] at hi
            exact hi.1
          · rwa [List.filter_cons_of_neg (by simpa using hai)] at hi
        · have ha := h (f a)
          rw [List.filter_cons_of_pos (by simp), List.map_cons, Grouped] at ha
          exact ha.2

variable (f) in
/-- A stable sort keeps the elements of one value in order. -/
theorem filter_mergeSort (l : List α) (i : ι) :
    (l.mergeSort fun x y => f x ≤ f y).filter (fun x => f x = i) =
      l.filter fun x => f x = i := by
  have htrans : ∀ a b c : α, decide (f a ≤ f b) = true → decide (f b ≤ f c) = true →
      decide (f a ≤ f c) = true := by
    intro a b c hab hbc
    simp only [decide_eq_true_eq] at *
    exact hab.trans hbc
  have htotal : ∀ a b : α, (decide (f a ≤ f b) || decide (f b ≤ f a)) = true := by
    intro a b
    simpa using le_total (f a) (f b)
  have hequal : (l.filter fun x => f x = i).Pairwise fun x y => decide (f x ≤ f y) = true := by
    refine List.pairwise_of_forall_mem_list ?_
    intro x hx y hy
    have hfx := (List.mem_filter.mp hx).2
    have hfy := (List.mem_filter.mp hy).2
    simp only [decide_eq_true_eq] at *
    rw [hfx, hfy]
  have hsub := (List.sublist_mergeSort htrans htotal hequal List.filter_sublist).filter
    fun x => decide (f x = i)
  simp only [List.filter_filter, Bool.and_self] at hsub
  exact (hsub.eq_of_length (by
    rw [← List.countP_eq_length_filter, ← List.countP_eq_length_filter,
      (List.mergeSort_perm l _).countP_eq])).symm

end Sorted

end AgentGrid.Foundation
