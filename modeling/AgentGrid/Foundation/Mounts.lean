import Mathlib.Data.List.Infix

/-!
# Mount tables

Mounts are made one after the other over one tree of paths.  At a path the last
mount above it decides what is seen there, so a later mount hides what earlier ones
show below it, or shows it again.
-/

namespace AgentGrid.Foundation

structure Mount (κ μ : Type) where
  target : List κ
  shows : μ
deriving DecidableEq

section Deciding

variable {κ μ : Type} [DecidableEq κ]

/-- The mount that decides at a path. -/
def deciding : List (Mount κ μ) → List κ → Option (Mount κ μ)
  | [], _ => none
  | m :: later, path =>
      match deciding later path with
      | some m' => some m'
      | none => if m.target <+: path then some m else none

theorem deciding_append (first second : List (Mount κ μ)) (path : List κ) :
    deciding (first ++ second) path = (deciding second path).or (deciding first path) := by
  induction first with
  | nil => simp [deciding]
  | cons m first ih =>
      rw [List.cons_append, deciding, ih, deciding]
      cases deciding second path with
      | some m' => rfl
      | none => rfl

theorem deciding_mem {table : List (Mount κ μ)} {path : List κ} {m : Mount κ μ}
    (h : deciding table path = some m) : m ∈ table ∧ m.target <+: path := by
  induction table with
  | nil => cases h
  | cons m' later ih =>
      rw [deciding] at h
      cases hlater : deciding later path with
      | some m'' =>
          rw [hlater] at h
          obtain ⟨hmem, hover⟩ := ih (hlater.trans h)
          exact ⟨List.mem_cons_of_mem m' hmem, hover⟩
      | none =>
          rw [hlater] at h
          simp only at h
          split at h
          · rename_i hover
            obtain rfl := Option.some_inj.mp h
            exact ⟨List.mem_cons_self, hover⟩
          · cases h

/-- Above a path that some mount of a table covers, one of the table decides. -/
theorem deciding_isSome {table : List (Mount κ μ)} {path : List κ} {m : Mount κ μ}
    (hmem : m ∈ table) (hover : m.target <+: path) : (deciding table path).isSome := by
  induction table with
  | nil => cases hmem
  | cons m' later ih =>
      rw [deciding]
      cases hlater : deciding later path with
      | some m'' => rfl
      | none =>
          rcases List.mem_cons.mp hmem with rfl | hmem
          · simp only [if_pos hover, Option.isSome_some]
          · have hsome := ih hmem
            rw [hlater] at hsome
            cases hsome

/-- Later mounts, none of which covers the path, leave the decision as it was. -/
theorem deciding_of_uncovered {first second : List (Mount κ μ)} {path : List κ}
    (h : deciding second path = none) :
    deciding (first ++ second) path = deciding first path := by
  rw [deciding_append, h, Option.none_or]

/-- Where a table covers the path, what came before it does not matter. -/
theorem deciding_of_covered {first second : List (Mount κ μ)} {path : List κ} {m : Mount κ μ}
    (hmem : m ∈ second) (hover : m.target <+: path) :
    deciding (first ++ second) path = deciding second path := by
  obtain ⟨m', hm'⟩ := Option.isSome_iff_exists.mp (deciding_isSome hmem hover)
  rw [deciding_append, hm', Option.some_or]

end Deciding

end AgentGrid.Foundation
