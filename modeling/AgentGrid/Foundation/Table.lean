import Mathlib.Data.List.Basic
import Mathlib.Data.List.Forall2
import Mathlib.Data.List.Nodup

/-!
# Keyed tables

A table is the list of its rows in insertion order and a key is a projection
of a row.  `updateWhere` is the reading of `UPDATE .. SET f WHERE p`, `lookup`
of `SELECT .. WHERE key = k`, and `List.countP` of `SELECT COUNT(*) WHERE p`
and of the number of rows an update reports as affected.
-/

namespace AgentGrid.Foundation

variable {ρ κ : Type}

def updateWhere (p : ρ → Bool) (f : ρ → ρ) (rows : List ρ) : List ρ :=
  rows.map fun row => if p row then f row else row

def lookup [DecidableEq κ] (key : ρ → κ) (k : κ) (rows : List ρ) : Option ρ :=
  rows.find? fun row => key row == k

theorem mem_updateWhere {p : ρ → Bool} {f : ρ → ρ} {rows : List ρ} {row : ρ} :
    row ∈ updateWhere p f rows ↔
      ∃ old ∈ rows, (if p old then f old else old) = row := by
  unfold updateWhere
  simp

theorem mem_updateWhere_of_not {p : ρ → Bool} {f : ρ → ρ} {rows : List ρ}
    {row : ρ} (hrow : row ∈ rows) (hp : p row = false) :
    row ∈ updateWhere p f rows :=
  mem_updateWhere.mpr ⟨row, hrow, by simp [hp]⟩

theorem map_updateWhere_of_key {κ : Type} {key : ρ → κ} {p : ρ → Bool}
    {f : ρ → ρ} (hf : ∀ row, key (f row) = key row) (rows : List ρ) :
    (updateWhere p f rows).map key = rows.map key := by
  unfold updateWhere
  rw [List.map_map]
  apply List.map_congr_left
  intro row _
  by_cases hp : p row <;> simp [hp, hf]

/-- Projecting a table commutes with an update that factors through it. -/
theorem map_updateWhere {π : Type} {proj : ρ → π} {p : ρ → Bool} {f : ρ → ρ}
    {q : π → Bool} {g : π → π} {rows : List ρ}
    (hp : ∀ row ∈ rows, p row = q (proj row))
    (hf : ∀ row ∈ rows, p row = true → proj (f row) = g (proj row)) :
    (updateWhere p f rows).map proj = updateWhere q g (rows.map proj) := by
  unfold updateWhere
  rw [List.map_map, List.map_map]
  apply List.map_congr_left
  intro row hrow
  have hpq := hp row hrow
  cases hrow' : p row with
  | false => simp [← hpq, hrow']
  | true => simp [← hpq, hrow', hf row hrow hrow']

/-- An update the projection does not see. -/
theorem map_updateWhere_of_eq {π : Type} {proj : ρ → π} {p : ρ → Bool}
    {f : ρ → ρ} {rows : List ρ}
    (hf : ∀ row ∈ rows, p row = true → proj (f row) = proj row) :
    (updateWhere p f rows).map proj = rows.map proj := by
  unfold updateWhere
  rw [List.map_map]
  apply List.map_congr_left
  intro row hrow
  cases hp : p row with
  | false => simp [hp]
  | true => simp [hp, hf row hrow hp]

theorem updateWhere_congr {p q : ρ → Bool} {f : ρ → ρ} {rows : List ρ}
    (h : ∀ row ∈ rows, p row = q row) :
    updateWhere p f rows = updateWhere q f rows := by
  apply List.map_congr_left
  intro row hrow
  simp [h row hrow]

theorem updateWhere_of_forall_not {p : ρ → Bool} {f : ρ → ρ} {rows : List ρ}
    (h : ∀ row ∈ rows, p row = false) : updateWhere p f rows = rows := by
  unfold updateWhere
  conv_rhs => rw [← List.map_id rows]
  apply List.map_congr_left
  intro row hrow
  simp [h row hrow]

theorem forall₂_updateWhere {R : ρ → ρ → Prop} {p : ρ → Bool} {f : ρ → ρ}
    {rows : List ρ} (hkept : ∀ row ∈ rows, R row row)
    (hf : ∀ row ∈ rows, p row = true → R row (f row)) :
    List.Forall₂ R rows (updateWhere p f rows) := by
  unfold updateWhere
  rw [List.forall₂_map_right_iff, List.forall₂_same]
  intro row hrow
  cases hp : p row with
  | false => simpa [hp] using hkept row hrow
  | true => simpa [hp] using hf row hrow hp

theorem forall₂_left {α β : Type} {R : α → β → Prop} {xs : List α} {ys : List β}
    (h : List.Forall₂ R xs ys) {x : α} (hx : x ∈ xs) : ∃ y ∈ ys, R x y := by
  induction h with
  | nil => simp at hx
  | cons hxy _ ih =>
      rcases List.mem_cons.mp hx with rfl | hx
      · exact ⟨_, by simp, hxy⟩
      · obtain ⟨y, hy, hR⟩ := ih hx
        exact ⟨y, by simp [hy], hR⟩

theorem forall₂_right {α β : Type} {R : α → β → Prop} {xs : List α} {ys : List β}
    (h : List.Forall₂ R xs ys) {y : β} (hy : y ∈ ys) : ∃ x ∈ xs, R x y :=
  forall₂_left h.flip hy

theorem forall₂_trans {α : Type} {R S T : α → α → Prop} {xs ys zs : List α}
    (hT : ∀ {x y z}, R x y → S y z → T x z) (first : List.Forall₂ R xs ys)
    (second : List.Forall₂ S ys zs) : List.Forall₂ T xs zs := by
  induction first generalizing zs with
  | nil =>
      cases second
      exact .nil
  | cons hxy _ ih =>
      cases second with
      | cons hyz hrest => exact .cons (hT hxy hyz) (ih hrest)

theorem forall₂_map_eq {α π : Type} {R : α → α → Prop} {proj : α → π} {xs ys : List α}
    (hR : ∀ {x y}, R x y → proj y = proj x) (h : List.Forall₂ R xs ys) :
    ys.map proj = xs.map proj := by
  induction h with
  | nil => rfl
  | cons hxy _ ih => rw [List.map_cons, List.map_cons, hR hxy, ih]

/-- A row is replaced: the other rows count as before. -/
theorem countP_set_add {α : Type} {f : α → Bool} {xs : List α} {i : Nat} {x : α} (y : α)
    (h : xs[i]? = some x) :
    ∃ others, xs.countP f = others + (f x).toNat ∧ (xs.set i y).countP f = others + (f y).toNat := by
  obtain ⟨hi, hx⟩ := List.getElem?_eq_some_iff.mp h
  have hle : (if f xs[i] then 1 else 0) ≤ xs.countP f := List.boole_getElem_le_countP hi
  refine ⟨xs.countP f - (f x).toNat, ?_, ?_⟩
  · rw [hx] at hle
    cases hfx : f x with
    | false => rfl
    | true =>
        rw [hfx, if_pos rfl] at hle
        simp only [Bool.toNat_true]
        omega
  · rw [List.countP_set hi, hx]
    cases f x <;> cases f y <;> rfl

section Keyed

variable [DecidableEq κ] {key : ρ → κ}

theorem lookup_mem {k : κ} {rows : List ρ} {row : ρ}
    (h : lookup key k rows = some row) : row ∈ rows ∧ key row = k := by
  refine ⟨List.mem_of_find?_eq_some h, ?_⟩
  simpa using List.find?_some h

theorem lookup_none {k : κ} {rows : List ρ} (h : lookup key k rows = none) :
    ∀ row ∈ rows, key row ≠ k := by
  intro row hrow
  simpa using List.find?_eq_none.mp h row hrow

omit [DecidableEq κ] in
theorem row_unique {rows : List ρ} (hkeys : (rows.map key).Nodup) {row row' : ρ}
    (hrow : row ∈ rows) (hrow' : row' ∈ rows) (hkey : key row = key row') :
    row = row' :=
  List.inj_on_of_nodup_map hkeys hrow hrow' hkey

theorem lookup_of_mem {rows : List ρ} (hkeys : (rows.map key).Nodup) {row : ρ}
    (hrow : row ∈ rows) : lookup key (key row) rows = some row := by
  cases h : lookup key (key row) rows with
  | none => exact absurd rfl (lookup_none h row hrow)
  | some found =>
      obtain ⟨hmem, hkey⟩ := lookup_mem h
      rw [row_unique hkeys hmem hrow hkey]

theorem lookup_updateWhere {p : ρ → Bool} {f : ρ → ρ}
    (hf : ∀ row, key (f row) = key row) (k : κ) (rows : List ρ) :
    lookup key k (updateWhere p f rows) =
      (lookup key k rows).map fun row => if p row then f row else row := by
  unfold lookup updateWhere
  rw [List.find?_map]
  congr 2
  funext row
  by_cases hp : p row <;> simp [hp, hf]

/-- Updating the one row with key `k` moves a count by that row alone. -/
theorem countP_updateWhere_key {rows : List ρ} (hkeys : (rows.map key).Nodup)
    {row : ρ} (hrow : row ∈ rows) (f : ρ → ρ) (q : ρ → Bool) :
    (updateWhere (fun r => key r == key row) f rows).countP q +
        (if q row then 1 else 0) =
      rows.countP q + (if q (f row) then 1 else 0) := by
  induction rows with
  | nil => simp at hrow
  | cons first rest ih =>
      simp only [List.map_cons, List.nodup_cons, List.mem_map, not_exists,
        not_and] at hkeys
      rcases List.mem_cons.mp hrow with rfl | htail
      · have hrest : updateWhere (fun r => key r == key row) f rest = rest := by
          apply updateWhere_of_forall_not
          intro other hother
          simpa using hkeys.1 other hother
        have hcons : updateWhere (fun r => key r == key row) f (row :: rest) =
            f row :: updateWhere (fun r => key r == key row) f rest := by
          simp [updateWhere]
        rw [hcons, hrest, List.countP_cons, List.countP_cons]
        omega
      · have hne : key first ≠ key row := fun h => hkeys.1 row htail h.symm
        have hcons : updateWhere (fun r => key r == key row) f (first :: rest) =
            first :: updateWhere (fun r => key r == key row) f rest := by
          simp [updateWhere, hne]
        rw [hcons, List.countP_cons, List.countP_cons]
        have := ih hkeys.2 htail
        omega

end Keyed

end AgentGrid.Foundation
