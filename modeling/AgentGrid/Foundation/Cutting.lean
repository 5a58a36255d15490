import Mathlib.Data.List.Basic

/-!
# Cutting pieces off a buffer

A cutter takes one piece off the front of a buffer, or nothing while it waits for
more input.  Draining a buffer repeats the cut until it takes nothing.  When no
later input changes a cut, a stream fed in chunks is cut as if it came at once.
-/

namespace AgentGrid.Foundation

/-- The piece one round takes off a buffer, with what is left of it. -/
abbrev Cutter (α β : Type) := List α → Option (β × List α)

namespace Cutter

variable {α β : Type} {cut : Cutter α β}

def Stable (cut : Cutter α β) : Prop :=
  ∀ buf more piece rest, cut buf = some (piece, rest) →
    cut (buf ++ more) = some (piece, rest ++ more)

def Shrinking (cut : Cutter α β) : Prop :=
  ∀ buf piece rest, cut buf = some (piece, rest) → rest.length < buf.length

/-- The loop on a buffer comes to an end, with these pieces and this rest. -/
inductive Drains (cut : Cutter α β) : List α → List β → List α → Prop
  | stop {buf : List α} : cut buf = none → Drains cut buf [] buf
  | next {buf rest kept : List α} {piece : β} {pieces : List β} :
      cut buf = some (piece, rest) → Drains cut rest pieces kept →
      Drains cut buf (piece :: pieces) kept

/-- The loop is run once for each chunk that comes in. -/
inductive Feeds (cut : Cutter α β) : List α → List (List α) → List β → List α → Prop
  | nil {buf : List α} : Feeds cut buf [] [] buf
  | cons {buf chunk mid kept : List α} {chunks : List (List α)} {pieces later : List β} :
      Drains cut (buf ++ chunk) pieces mid → Feeds cut mid chunks later kept →
      Feeds cut buf (chunk :: chunks) (pieces ++ later) kept

theorem Drains.unique {buf kept kept' : List α} {pieces pieces' : List β}
    (h : Drains cut buf pieces kept) (h' : Drains cut buf pieces' kept') :
    pieces = pieces' ∧ kept = kept' := by
  induction h generalizing pieces' with
  | stop hstop =>
      cases h' with
      | stop => simp
      | next hnext => simp [hstop] at hnext
  | next hnext _ ih =>
      cases h' with
      | stop hstop => simp [hstop] at hnext
      | next hnext' hrest =>
          rw [hnext] at hnext'
          cases hnext'
          simpa using ih hrest

theorem Drains.waits {buf kept : List α} {pieces : List β} (h : Drains cut buf pieces kept) :
    cut kept = none := by
  induction h with
  | stop hstop => exact hstop
  | next _ _ ih => exact ih

/-- A loop that always finds a piece does not come to an end. -/
theorem Drains.absurd (hcut : ∀ buf, cut buf ≠ none) {buf kept : List α} {pieces : List β} :
    ¬ Drains cut buf pieces kept := by
  intro h
  exact hcut kept h.waits

theorem Shrinking.drains (h : Shrinking cut) (buf : List α) :
    ∃ pieces kept, Drains cut buf pieces kept ∧ pieces.length ≤ buf.length := by
  induction hsize : buf.length using Nat.strongRecOn generalizing buf with
  | _ size ih =>
      subst hsize
      cases hcut : cut buf with
      | none => exact ⟨[], buf, .stop hcut, by simp⟩
      | some r =>
          have hless := h buf r.1 r.2 hcut
          obtain ⟨pieces, kept, hdrains, hlength⟩ := ih r.2.length hless r.2 rfl
          exact ⟨r.1 :: pieces, kept, .next hcut hdrains, by simp; omega⟩

theorem Shrinking.feeds (h : Shrinking cut) (buf : List α) (chunks : List (List α)) :
    ∃ pieces kept, Feeds cut buf chunks pieces kept := by
  induction chunks generalizing buf with
  | nil => exact ⟨[], buf, .nil⟩
  | cons chunk chunks ih =>
      obtain ⟨pieces, mid, hdrains, -⟩ := h.drains (buf ++ chunk)
      obtain ⟨later, kept, hfeeds⟩ := ih mid
      exact ⟨pieces ++ later, kept, .cons hdrains hfeeds⟩

/-- More input may come after the loop has ended or before it began. -/
theorem Drains.append (hstable : Stable cut) {buf more mid kept : List α}
    {pieces later : List β} (h : Drains cut buf pieces mid)
    (hmore : Drains cut (mid ++ more) later kept) :
    Drains cut (buf ++ more) (pieces ++ later) kept := by
  induction h with
  | stop => simpa using hmore
  | next hnext _ ih => exact .next (hstable _ more _ _ hnext) (ih hmore)

theorem Feeds.flatten (hstable : Stable cut) {buf kept : List α} {chunks : List (List α)}
    {pieces : List β} (h : Feeds cut buf chunks pieces kept) (hbuf : cut buf = none) :
    Drains cut (buf ++ chunks.flatten) pieces kept := by
  induction h with
  | nil => simpa using Drains.stop hbuf
  | cons hdrains _ ih =>
      have hlater := ih hdrains.waits
      simpa using hdrains.append hstable hlater

end Cutter

end AgentGrid.Foundation
