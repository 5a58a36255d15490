import Mathlib.Data.List.Basic

/-!
# Replacing the matches of a pattern

A scan from the left cuts a text into elements that stay and blocks that match.
The text and what replacing makes of it are two readings of the same parts, so a
stretch of old elements in the result stood in the text, between two matches.
-/

namespace AgentGrid.Foundation

inductive Passage (α : Type)
  | kept (a : α)
  | found (block : List α)

namespace Passage

variable {α κ : Type}

def source : Passage α → List α
  | .kept a => [a]
  | .found block => block

def result (new : List α) : Passage α → List α
  | .kept a => [a]
  | .found _ => new

/-- The text the parts were cut from. -/
def text (parts : List (Passage α)) : List α := parts.flatMap source

def replaced (new : List α) (parts : List (Passage α)) : List α := parts.flatMap (result new)

@[simp] theorem text_nil : text ([] : List (Passage α)) = [] := rfl

@[simp] theorem text_kept (a : α) (parts : List (Passage α)) :
    text (.kept a :: parts) = a :: text parts := rfl

@[simp] theorem text_found (block : List α) (parts : List (Passage α)) :
    text (.found block :: parts) = block ++ text parts := rfl

@[simp] theorem text_append (parts parts' : List (Passage α)) :
    text (parts ++ parts') = text parts ++ text parts' := List.flatMap_append

@[simp] theorem text_map_kept (run : List α) : text (run.map .kept) = run := by
  induction run with
  | nil => rfl
  | cons a run ih => simp [ih]

@[simp] theorem replaced_nil (new : List α) : replaced new ([] : List (Passage α)) = [] := rfl

@[simp] theorem replaced_kept (new : List α) (a : α) (parts : List (Passage α)) :
    replaced new (.kept a :: parts) = a :: replaced new parts := rfl

@[simp] theorem replaced_found (new block : List α) (parts : List (Passage α)) :
    replaced new (.found block :: parts) = new ++ replaced new parts := rfl

@[simp] theorem replaced_append (new : List α) (parts parts' : List (Passage α)) :
    replaced new (parts ++ parts') = replaced new parts ++ replaced new parts' :=
  List.flatMap_append

@[simp] theorem replaced_map_kept (new run : List α) :
    replaced new (run.map .kept) = run := by
  induction run with
  | nil => rfl
  | cons a run ih => simp [ih]

/-! ## The scan -/

/-- The matches of a pattern by key, after `skip` elements of the last match. -/
def scan [BEq κ] (key : α → κ) (pattern : List κ) : Nat → List α → List (Passage α)
  | _, [] => []
  | skip + 1, _ :: rest => scan key pattern skip rest
  | 0, a :: rest =>
      if pattern.isPrefixOf ((a :: rest).map key) then
        .found ((a :: rest).take pattern.length) :: scan key pattern (pattern.length - 1) rest
      else .kept a :: scan key pattern 0 rest

/-- An empty pattern matches before, between and after all elements. -/
def between (s : List α) : List (Passage α) := .found [] :: s.flatMap fun a => [.kept a, .found []]

theorem text_scan [BEq κ] (key : α → κ) {pattern : List κ} (hpattern : pattern ≠ [])
    (skip : Nat) (s : List α) : text (scan key pattern skip s) = s.drop skip := by
  have hpos : 0 < pattern.length := List.length_pos_iff.mpr hpattern
  induction s generalizing skip with
  | nil => simp [scan]
  | cons a rest ih =>
      cases skip with
      | succ skip => simp [scan, ih]
      | zero =>
          rw [scan]
          split
          · obtain ⟨n, hn⟩ : ∃ n, pattern.length = n + 1 := ⟨pattern.length - 1, by omega⟩
            simp [ih, hn]
          · simp [ih]

theorem text_between (s : List α) : text (between s) = s := by
  have h : text (s.flatMap fun a => [Passage.kept a, .found []]) = s := by
    induction s with
    | nil => rfl
    | cons a s ih => simp [ih]
  simpa [between] using h

/-- At an element that stays the rest of the text does not start with the pattern. -/
theorem not_match_of_kept [BEq κ] [LawfulBEq κ] (key : α → κ) {pattern : List κ}
    (hpattern : pattern ≠ []) (skip : Nat) (s : List α) {before after : List (Passage α)} {a : α}
    (h : scan key pattern skip s = before ++ .kept a :: after) :
    ¬ pattern <+: (a :: text after).map key := by
  induction s generalizing skip before with
  | nil => simp [scan] at h
  | cons b rest ih =>
      cases skip with
      | succ skip => exact ih skip h
      | zero =>
          rw [scan] at h
          split at h
          · cases before with
            | nil => simp at h
            | cons part before =>
                simp only [List.cons_append, List.cons.injEq] at h
                exact ih _ h.2
          · rename_i hno
            cases before with
            | nil =>
                simp only [List.nil_append, List.cons.injEq, Passage.kept.injEq] at h
                obtain ⟨rfl, rfl⟩ := h
                rw [text_scan key hpattern]
                simpa [List.isPrefixOf_iff_prefix] using hno
            | cons part before =>
                simp only [List.cons_append, List.cons.injEq] at h
                exact ih _ h.2

/-! ## Stretches of old elements -/

private theorem kept_initial {new : List α} (hnew : new ≠ []) {parts : List (Passage α)}
    {run rest : List α} (h : replaced new parts = run ++ rest) (hrun : ∀ a ∈ run, a ∉ new) :
    ∃ after, parts = run.map .kept ++ after := by
  induction run generalizing parts with
  | nil => exact ⟨parts, rfl⟩
  | cons a run ih =>
      cases parts with
      | nil => simp at h
      | cons part parts =>
          cases part with
          | kept b =>
              simp only [replaced_kept, List.cons_append, List.cons.injEq] at h
              obtain ⟨rfl, hrest⟩ := h
              obtain ⟨after, rfl⟩ := ih hrest fun c hc => hrun c (List.mem_cons_of_mem _ hc)
              exact ⟨after, rfl⟩
          | found block =>
              obtain ⟨first, others, rfl⟩ := List.exists_cons_of_ne_nil hnew
              simp only [replaced_found, List.cons_append, List.cons.injEq] at h
              exact absurd (by simp [h.1]) (hrun a List.mem_cons_self)

/-- A stretch of the result that holds nothing new was kept as it stood. -/
theorem kept_of_infix {new : List α} (hnew : new ≠ []) {parts : List (Passage α)}
    {run : List α} (h : run <:+: replaced new parts) (hrun : ∀ a ∈ run, a ∉ new) :
    ∃ before after, parts = before ++ run.map .kept ++ after := by
  obtain ⟨pre, post, h⟩ := h
  induction parts generalizing pre with
  | nil =>
      have hnil : run = [] := by
        simp only [replaced_nil, List.append_eq_nil_iff] at h
        exact h.1.2
      exact ⟨[], [], by simp [hnil]⟩
  | cons part parts ih =>
      cases part with
      | kept a =>
          cases pre with
          | nil =>
              obtain ⟨after, hafter⟩ := kept_initial hnew h.symm hrun
              exact ⟨[], after, by simpa using hafter⟩
          | cons b pre =>
              simp only [replaced_kept, List.cons_append, List.cons.injEq] at h
              obtain ⟨before, after, rfl⟩ := ih pre h.2
              exact ⟨.kept a :: before, after, rfl⟩
      | found block =>
          rw [replaced_found, List.append_assoc, List.append_eq_append_iff] at h
          rcases h with ⟨mid, hmid, hrest⟩ | ⟨mid, rfl, hrest⟩
          · cases mid with
            | nil =>
                have hpost : replaced new parts = [] ++ run ++ post := by
                  simpa using hrest.symm
                obtain ⟨before, after, rfl⟩ := ih [] hpost.symm
                exact ⟨.found block :: before, after, rfl⟩
            | cons b mid =>
                cases run with
                | nil => exact ⟨[], .found block :: parts, rfl⟩
                | cons a run =>
                    simp only [List.cons_append, List.cons.injEq] at hrest
                    have hmem : a ∈ new := by
                      rw [hmid, hrest.1]
                      simp
                    exact absurd hmem (hrun a List.mem_cons_self)
          · obtain ⟨before, after, rfl⟩ := ih mid (by simpa using hrest.symm)
            exact ⟨.found block :: before, after, rfl⟩

theorem infix_text_of_replaced {new : List α} (hnew : new ≠ []) {parts : List (Passage α)}
    {run : List α} (h : run <:+: replaced new parts) (hrun : ∀ a ∈ run, a ∉ new) :
    run <:+: text parts := by
  obtain ⟨before, after, rfl⟩ := kept_of_infix hnew h hrun
  exact ⟨text before, text after, by simp⟩

/-- Some match takes elements of the stretch that stands after `x`, or parts two of
them. -/
def Touches (parts : List (Passage α)) (x stretch : List α) : Prop :=
  ∃ before block after, parts = before ++ .found block :: after ∧
    x.length < (text before).length + block.length ∧
    (text before).length < x.length + stretch.length

private theorem kept_of_free {parts : List (Passage α)} {stretch y : List α}
    (h : text parts = stretch ++ y)
    (hfree : ∀ before block after, parts = before ++ .found block :: after →
      stretch.length ≤ (text before).length) :
    ∃ after, parts = stretch.map .kept ++ after ∧ text after = y := by
  induction stretch generalizing parts with
  | nil => exact ⟨parts, rfl, h⟩
  | cons a stretch ih =>
      cases parts with
      | nil => simp at h
      | cons part parts =>
          cases part with
          | found block =>
              have hlength := hfree [] block parts rfl
              simp at hlength
          | kept b =>
              simp only [text_kept, List.cons_append, List.cons.injEq] at h
              obtain ⟨rfl, hrest⟩ := h
              obtain ⟨after, rfl, hafter⟩ := ih hrest (by
                intro before block after hparts
                have hlength := hfree (.kept b :: before) block after (by rw [hparts]; rfl)
                simpa using hlength)
              exact ⟨after, rfl, hafter⟩

/-- A stretch that no match touches is kept as it stands. -/
theorem kept_of_untouched {parts : List (Passage α)} {x stretch y : List α}
    (hstretch : stretch ≠ []) (h : text parts = x ++ stretch ++ y)
    (huntouched : ¬ Touches parts x stretch) :
    ∃ before after, parts = before ++ stretch.map .kept ++ after ∧ text before = x ∧
      text after = y := by
  have hpos : 0 < stretch.length := List.length_pos_iff.mpr hstretch
  induction parts generalizing x with
  | nil => simp [hstretch] at h
  | cons part parts ih =>
      cases part with
      | kept a =>
          cases x with
          | cons b x =>
              simp only [text_kept, List.cons_append, List.cons.injEq] at h
              obtain ⟨rfl, hrest⟩ := h
              obtain ⟨before, after, rfl, rfl, rfl⟩ := ih hrest (by
                rintro ⟨before, block, after, rfl, hleft, hright⟩
                refine huntouched ⟨.kept a :: before, block, after, rfl, ?_, ?_⟩
                · simp only [text_kept, List.length_cons]
                  omega
                · simp only [text_kept, List.length_cons]
                  omega)
              exact ⟨.kept a :: before, after, rfl, rfl, rfl⟩
          | nil =>
              obtain ⟨b, stretch, rfl⟩ := List.exists_cons_of_ne_nil hstretch
              simp only [text_kept, List.nil_append, List.cons_append, List.cons.injEq] at h
              obtain ⟨rfl, hrest⟩ := h
              obtain ⟨after, rfl, hafter⟩ := kept_of_free hrest (by
                intro before block after hparts
                by_contra hshort
                refine huntouched ⟨.kept a :: before, block, after, by rw [hparts]; rfl, ?_, ?_⟩
                · simp only [text_kept, List.length_cons, List.length_nil]
                  omega
                · simp only [text_kept, List.length_cons, List.length_nil]
                  omega)
              exact ⟨[], after, rfl, rfl, hafter⟩
      | found block =>
          have hblock : block.length ≤ x.length := by
            by_contra hlong
            refine huntouched ⟨[], block, parts, rfl, ?_, ?_⟩
            · simp only [text_nil, List.length_nil]
              omega
            · simp only [text_nil, List.length_nil]
              omega
          rw [text_found, List.append_assoc] at h
          obtain ⟨x', rfl, hrest⟩ : ∃ x', x = block ++ x' ∧ text parts = x' ++ (stretch ++ y) := by
            rcases List.append_eq_append_iff.mp h with ⟨x', hx, hrest⟩ | ⟨x', hx, hrest⟩
            · exact ⟨x', hx, hrest⟩
            · have hnil : x' = [] := by
                rw [hx, List.length_append] at hblock
                exact List.length_eq_zero_iff.mp (by omega)
              subst hnil
              exact ⟨[], by simpa using hx.symm, by simpa using hrest.symm⟩
          obtain ⟨before, after, rfl, rfl, rfl⟩ := ih (by simpa using hrest) (by
            rintro ⟨before, found, after, rfl, hleft, hright⟩
            refine huntouched ⟨.found block :: before, found, after, rfl, ?_, ?_⟩
            · simp only [text_found, List.length_append]
              omega
            · simp only [text_found, List.length_append]
              omega)
          exact ⟨.found block :: before, after, rfl, rfl, rfl⟩

/-- A stretch of the text, cut where the stretch `o` in its middle begins and ends. -/
theorem infix_split {x o y u run v : List α} (h : x ++ o ++ y = u ++ run ++ v) :
    ∃ left mid right, run = left ++ mid ++ right ∧ left ⊆ x ∧ mid <:+: o ∧ right ⊆ y := by
  rw [List.append_assoc, List.append_assoc] at h
  rcases List.append_eq_append_iff.mp h with ⟨w, -, hrest⟩ | ⟨w, rfl, hrest⟩
  · rcases List.append_eq_append_iff.mp hrest with ⟨a, -, rfl⟩ | ⟨c, rfl, htail⟩
    · exact ⟨[], [], run, rfl, by simp, by simp, by simp⟩
    · rcases List.append_eq_append_iff.mp htail with ⟨a, rfl, -⟩ | ⟨d, rfl, rfl⟩
      · exact ⟨[], run, [], by simp, by simp, ⟨w, a, by simp⟩, by simp⟩
      · exact ⟨[], c, d, rfl, by simp, ⟨w, [], by simp⟩, by simp⟩
  · rcases List.append_eq_append_iff.mp hrest with ⟨a, rfl, -⟩ | ⟨d, rfl, htail⟩
    · exact ⟨run, [], [], by simp, by simp, by simp, by simp⟩
    · rcases List.append_eq_append_iff.mp htail with ⟨a, rfl, rfl⟩ | ⟨c, rfl, -⟩
      · exact ⟨w, o, a, by simp, by simp, List.infix_rfl, by simp⟩
      · exact ⟨w, d, [], by simp, by simp, ⟨[], c, by simp⟩, by simp⟩

end Passage

end AgentGrid.Foundation
