import Mathlib.Data.List.Infix
import AgentGrid.Foundation.Scanning

/-!
# Finding and replacing a block

The first occurrence of a block whose first element does not come again in it, and
what replacing every occurrence does at the front of a text.
-/

namespace AgentGrid.Foundation

variable {α : Type} [DecidableEq α]

/-- A block that begins in the middle of another one has its first element there. -/
theorem dropInfix?_first {a : α} {tail pre post : List α} (htail : a ∉ tail)
    (hpre : ¬ a :: tail <:+: pre) :
    (pre ++ a :: tail ++ post).dropInfix? (a :: tail) = some (pre, post) := by
  rw [List.dropInfix?_eq_some_iff]
  refine ⟨⟨a :: tail, rfl, beq_self_eq_true _⟩, ?_⟩
  intro p block s h hblock
  obtain rfl : block = a :: tail := by simpa using hblock
  by_contra hshort
  have hshort : p.length < pre.length := by omega
  rw [List.append_assoc, List.append_assoc] at h
  rcases List.append_eq_append_iff.mp h with ⟨mid, hmid, -⟩ | ⟨mid, rfl, hrest⟩
  · rw [hmid, List.length_append] at hshort
    omega
  · rcases List.append_eq_append_iff.mp hrest with ⟨extra, rfl, hextra⟩ | ⟨extra, hextra, hafter⟩
    · exact hpre ⟨p, extra, by simp⟩
    · obtain ⟨b, mid, rfl⟩ : ∃ b mid', mid = b :: mid' :=
        List.exists_cons_of_ne_nil (by rintro rfl; simp at hshort)
      have htailmid : tail = mid ++ extra := (List.cons.inj hextra).2
      cases extra with
      | nil => exact hpre ⟨p, [], by rw [hextra]; simp⟩
      | cons c extra =>
          have hc : c = a := by
            have hafter : a :: (tail ++ post) = c :: (extra ++ s) := by simpa using hafter
            exact (List.cons.inj hafter).1.symm
          exact htail (by rw [htailmid, hc]; simp)

theorem dropInfix?_none {block s : List α} (h : ¬ block <:+: s) : s.dropInfix? block = none := by
  rw [Option.eq_none_iff_forall_not_mem]
  rintro ⟨p, rest⟩ hfound
  obtain ⟨⟨i, rfl, hi⟩, -⟩ := List.dropInfix?_eq_some_iff.mp hfound
  obtain rfl : i = block := by simpa using hi
  exact h ⟨p, rest, rfl⟩

theorem takeWhile_ne_append {a : α} {s : List α} (h : a ∉ s) (rest : List α) :
    (s ++ a :: rest).takeWhile (· ≠ a) = s := by
  have hkept : ∀ b ∈ s, decide (b ≠ a) = true := by
    intro b hb
    have hne : b ≠ a := by
      rintro rfl
      exact h hb
    simpa using hne
  rw [List.takeWhile_append_of_pos hkept]
  simp

namespace Passage

/-- The text with each match of a pattern replaced. -/
def rewrite (pattern new s : List α) : List α := replaced new (scan id pattern 0 s)

variable {pattern new : List α}

theorem scan_skip (run rest : List α) :
    scan id pattern run.length (run ++ rest) = scan id pattern 0 rest := by
  induction run with
  | nil => rfl
  | cons a run ih => simpa [scan] using ih

@[simp] theorem rewrite_nil : rewrite pattern new [] = [] := rfl

theorem rewrite_match (hpattern : pattern ≠ []) (rest : List α) :
    rewrite pattern new (pattern ++ rest) = new ++ rewrite pattern new rest := by
  obtain ⟨a, tail, rfl⟩ := List.exists_cons_of_ne_nil hpattern
  have hhit : (a :: tail).isPrefixOf (a :: (tail ++ rest)) = true := by
    simp [List.isPrefixOf_iff_prefix]
  rw [rewrite, List.cons_append, scan, List.map_id, if_pos hhit, replaced_found]
  simp [scan_skip, rewrite]

theorem rewrite_cons {a : α} {rest : List α} (h : ¬ pattern <+: a :: rest) :
    rewrite pattern new (a :: rest) = a :: rewrite pattern new rest := by
  have hmiss : ¬ pattern.isPrefixOf (a :: rest) = true := by
    rwa [List.isPrefixOf_iff_prefix]
  rw [rewrite, scan, List.map_id, if_neg hmiss, replaced_kept, rewrite]

/-- A run that does not hold the first element of the pattern is passed. -/
theorem rewrite_run {a : α} {tail run : List α} (hrun : a ∉ run) (rest : List α) :
    rewrite (a :: tail) new (run ++ rest) = run ++ rewrite (a :: tail) new rest := by
  induction run with
  | nil => rfl
  | cons b run ih =>
      have hab : a ≠ b := fun h => hrun (by simp [h])
      have hmiss : ¬ a :: tail <+: b :: (run ++ rest) := by
        simp [List.cons_prefix_cons, hab]
      rw [List.cons_append, rewrite_cons hmiss, ih fun h => hrun (by simp [h]), List.cons_append]

theorem rewrite_single (a : α) (new s : List α) :
    rewrite [a] new s = s.flatMap fun b => if b = a then new else [b] := by
  induction s with
  | nil => rfl
  | cons b s ih =>
      rw [List.flatMap_cons, ← ih]
      by_cases hb : b = a
      · subst hb
        rw [if_pos rfl]
        exact rewrite_match (List.cons_ne_nil b []) s
      · have hmiss : ¬ [a] <+: b :: s := by simp [List.cons_prefix_cons, Ne.symm hb]
        rw [if_neg hb, rewrite_cons hmiss]
        rfl

/-- What is shorter than the pattern makes the text shorter where it matches. -/
theorem length_rewrite (hpattern : pattern ≠ []) (hnew : new.length < pattern.length)
    (s : List α) :
    (rewrite pattern new s).length ≤ s.length ∧
      (pattern <:+: s → (rewrite pattern new s).length < s.length) := by
  induction hsize : s.length using Nat.strongRecOn generalizing s with
  | _ size ih =>
      subst hsize
      cases s with
      | nil =>
          refine ⟨by simp, fun h => ?_⟩
          exact absurd (List.infix_nil.mp h) hpattern
      | cons a rest =>
          by_cases hhit : pattern <+: a :: rest
          · obtain ⟨after, hafter⟩ := hhit
            have hlength : (a :: rest).length = pattern.length + after.length := by
              rw [← hafter, List.length_append]
            have hless := (ih after.length (by omega) after rfl).1
            rw [← hafter, rewrite_match hpattern]
            simp only [List.length_append]
            omega
          · have hrest := ih rest.length (by simp) rest rfl
            rw [rewrite_cons hhit]
            refine ⟨by simpa using hrest.1, fun h => ?_⟩
            rcases List.infix_cons_iff.mp h with h | h
            · exact absurd h hhit
            · simpa using hrest.2 h

theorem rewrite_of_free {s : List α} (h : ¬ pattern <:+: s) : rewrite pattern new s = s := by
  induction s with
  | nil => rfl
  | cons a rest ih =>
      have hmiss : ¬ pattern <+: a :: rest := fun hp => h hp.isInfix
      rw [rewrite_cons hmiss, ih fun hi => h (List.infix_cons hi)]

end Passage

end AgentGrid.Foundation
