import Mathlib.Data.List.Infix
import Mathlib.Order.Bounds.Basic

/-!
# Streaks

How often the last entry of a list has come in a row, kept up one entry at a
time, and the longest such streak.  Entries that do not count break a streak.
-/

namespace AgentGrid.Foundation

variable {α : Type} [DecidableEq α] (counts : α → Prop) [DecidablePred counts]

structure Streak (α : Type) where
  current : Nat := 0
  longest : Nat := 0
  last : Option α := none

/-- Some counting entry stands in `l` so many times in a row. -/
def Repeats (l : List α) (k : Nat) : Prop := ∃ a, counts a ∧ List.replicate k a <:+: l

def Streak.next (s : Streak α) (a : α) : Streak α :=
  let current := if counts a then (if s.last = some a then s.current + 1 else 1) else 0
  ⟨current, max s.longest current, some a⟩

def streakOf (l : List α) : Streak α := l.foldl (Streak.next counts) {}

theorem streakOf_concat (l : List α) (a : α) :
    streakOf counts (l ++ [a]) = (streakOf counts l).next counts a := List.foldl_concat ..

theorem streakOf_last (l : List α) : (streakOf counts l).last = l.getLast? := by
  cases l using List.reverseRecOn with
  | nil => rfl
  | append_singleton l a =>
      rw [streakOf_concat, List.getLast?_concat]
      rfl

theorem current_le (l : List α) : (streakOf counts l).current ≤ (streakOf counts l).longest := by
  cases l using List.reverseRecOn with
  | nil => exact Nat.le_refl _
  | append_singleton l a =>
      rw [streakOf_concat]
      exact le_max_right _ _

theorem longest_le (l : List α) : (streakOf counts l).longest ≤ l.length := by
  have hboth : (streakOf counts l).current ≤ l.length ∧
      (streakOf counts l).longest ≤ l.length := by
    induction l using List.reverseRecOn with
    | nil => exact ⟨Nat.le_refl _, Nat.le_refl _⟩
    | append_singleton l a ih =>
        have hnow : ((streakOf counts l).next counts a).current ≤ l.length + 1 := by
          simp only [Streak.next]
          split
          · split <;> omega
          · omega
        rw [streakOf_concat, List.length_append, List.length_singleton]
        exact ⟨hnow, max_le (by omega) hnow⟩
  exact hboth.2

omit [DecidableEq α] in
theorem replicate_suffix_concat {l : List α} {a b : α} {k : Nat} :
    List.replicate (k + 1) b <:+ l ++ [a] ↔ b = a ∧ List.replicate k b <:+ l := by
  rw [List.replicate_succ', List.suffix_concat_iff]
  constructor
  · rintro (hnil | ⟨t, heq, hsuffix⟩)
    · exact absurd hnil (List.append_ne_nil_of_right_ne_nil _ (List.cons_ne_nil _ _))
    · obtain ⟨rfl, hlast⟩ := List.append_inj' heq rfl
      exact ⟨List.singleton_inj.mp hlast, hsuffix⟩
  · rintro ⟨rfl, hsuffix⟩
    exact .inr ⟨_, rfl, hsuffix⟩

/-- The streak that is going on is what the list ends with. -/
theorem replicate_suffix_iff {l : List α} {b : α} (hb : counts b) {k : Nat} :
    List.replicate (k + 1) b <:+ l ↔
      (streakOf counts l).last = some b ∧ k + 1 ≤ (streakOf counts l).current := by
  induction l using List.reverseRecOn generalizing k with
  | nil =>
      refine iff_of_false (fun h => ?_) (fun h => by cases h.1)
      exact absurd (List.suffix_nil.mp h) (List.cons_ne_nil _ _)
  | append_singleton l a ih =>
      rw [replicate_suffix_concat, streakOf_concat]
      simp only [Streak.next, Option.some.injEq]
      by_cases ha : b = a
      · subst ha
        simp only [hb, if_true, true_and]
        cases k with
        | zero =>
            simp only [List.replicate_zero, List.nil_suffix, true_iff]
            split <;> omega
        | succ k =>
            rw [ih]
            split
            · rename_i hlast
              simp only [hlast, true_and]
              omega
            · rename_i hlast
              simp only [hlast, false_and, false_iff]
              omega
      · simp only [ha, Ne.symm ha, false_and]

/-- The longest streak is as long as a counting entry was ever repeated. -/
theorem longest_isGreatest {a₀ : α} (h₀ : counts a₀) (l : List α) :
    IsGreatest {k | Repeats counts l k} (streakOf counts l).longest := by
  induction l using List.reverseRecOn with
  | nil =>
      refine ⟨⟨a₀, h₀, List.nil_infix⟩, ?_⟩
      rintro k ⟨b, -, hinfix⟩
      have hlen := hinfix.length_le
      rwa [List.length_replicate] at hlen
  | append_singleton l a ih =>
      have hnow : ∀ k, Repeats counts (l ++ [a]) k ↔
          Repeats counts l k ∨ ∃ b, counts b ∧ List.replicate k b <:+ l ++ [a] := by
        intro k
        simp only [Repeats, List.infix_concat_iff, and_or_left, exists_or]
        exact or_comm
      have hends : ∀ k b, counts b → List.replicate k b <:+ l ++ [a] →
          k ≤ (streakOf counts (l ++ [a])).current := by
        intro k b hb hsuffix
        cases k with
        | zero => exact Nat.zero_le _
        | succ k => exact ((replicate_suffix_iff counts hb).mp hsuffix).2
      have hstep : (streakOf counts (l ++ [a])).longest =
          max (streakOf counts l).longest (streakOf counts (l ++ [a])).current := by
        rw [streakOf_concat]
        rfl
      rw [hstep]
      constructor
      · show Repeats counts (l ++ [a]) _
        rw [hnow]
        rcases le_total (streakOf counts (l ++ [a])).current (streakOf counts l).longest with hle | hle
        · rw [max_eq_left hle]
          exact .inl ih.1
        · rw [max_eq_right hle]
          refine .inr ?_
          cases hcurrent : (streakOf counts (l ++ [a])).current with
          | zero => exact ⟨a₀, h₀, List.nil_suffix⟩
          | succ n =>
              have hcounts : counts a := by
                by_contra hnot
                rw [streakOf_concat] at hcurrent
                simp [Streak.next, hnot] at hcurrent
              have hlast : (streakOf counts (l ++ [a])).last = some a := by
                rw [streakOf_last, List.getLast?_concat]
              exact ⟨a, hcounts, (replicate_suffix_iff counts hcounts).mpr ⟨hlast, by omega⟩⟩
      · intro k hk
        rcases (hnow k).mp hk with hk | ⟨b, hb, hsuffix⟩
        · exact (ih.2 hk).trans (le_max_left _ _)
        · exact (hends k b hb hsuffix).trans (le_max_right _ _)

theorem repeats_iff {a₀ : α} (h₀ : counts a₀) {l : List α} {k : Nat} :
    Repeats counts l k ↔ k ≤ (streakOf counts l).longest := by
  obtain ⟨⟨a, ha, hinfix⟩, hgreatest⟩ := longest_isGreatest counts h₀ l
  constructor
  · exact fun h => hgreatest h
  · intro hle
    refine ⟨a, ha, List.IsInfix.trans ?_ hinfix⟩
    refine (List.prefix_iff_eq_take.mpr ?_).isInfix
    rw [List.length_replicate, List.take_replicate, min_eq_left hle]

end AgentGrid.Foundation
