import Mathlib.Data.List.Infix

/-!
# Patterns with wildcards

A pattern is read element by element: `rest` stands for any stretch of the text,
`one` for one element, and a literal for the elements that are the same to the
matcher.
-/

namespace AgentGrid.Foundation

inductive Glob (α : Type)
  | rest
  | one
  | lit (a : α)
deriving DecidableEq

namespace Glob

variable {α : Type} (same : α → α → Bool)

/-- The whole text matches the pattern. -/
def accepts : List (Glob α) → List α → Bool
  | [], text => text.isEmpty
  | .rest :: pattern, text => text.tails.any (accepts pattern)
  | .one :: _, [] => false
  | .one :: pattern, _ :: text => accepts pattern text
  | .lit _ :: _, [] => false
  | .lit a :: pattern, b :: text => same a b && accepts pattern text

variable {same} {pattern : List (Glob α)} {text : List α}

theorem accepts_rest_append (h : accepts same pattern text = true) (skipped : List α) :
    accepts same (.rest :: pattern) (skipped ++ text) = true := by
  rw [accepts, List.any_eq_true]
  exact ⟨text, (List.mem_tails _ _).mpr (List.suffix_append skipped text), h⟩

theorem accepts_rest (text : List α) : accepts same [.rest] text = true := by
  have hempty : accepts same ([] : List (Glob α)) [] = true := rfl
  simpa using accepts_rest_append hempty text

/-- An element that is read as a literal or a wildcard matches itself. -/
theorem accepts_map_append {read : α → Glob α} (hread : ∀ a b, read a = .lit b → same b a = true)
    (h : accepts same pattern text = true) (block : List α) :
    accepts same (block.map read ++ pattern) (block ++ text) = true := by
  induction block with
  | nil => exact h
  | cons a block ih =>
      rw [List.map_cons, List.cons_append, List.cons_append]
      cases hglob : read a with
      | rest => exact accepts_rest_append ih [a]
      | one => rwa [accepts]
      | lit b => rw [accepts, hread a b hglob, ih, Bool.and_self]

/-- A text contains the block that the pattern asks for anywhere in it. -/
theorem accepts_infix {read : α → Glob α} (hread : ∀ a b, read a = .lit b → same b a = true)
    (before block after : List α) :
    accepts same (.rest :: (block.map read ++ [.rest])) (before ++ (block ++ after)) = true :=
  accepts_rest_append (accepts_map_append hread (accepts_rest after) block) before

end Glob

end AgentGrid.Foundation
