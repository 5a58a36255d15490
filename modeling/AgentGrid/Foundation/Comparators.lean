import Mathlib.Data.List.Basic

/-!
# Comparators

Comparators that rank one kind of value below another, with their laws, and when two
lexicographic comparisons agree.
-/

namespace AgentGrid.Foundation

open Std (ReflCmp OrientedCmp TransCmp)

variable {α β : Type}

/-- A comparator on what `f` gives. -/
def comparing (f : α → β) (cmp : β → β → Ordering) (a b : α) : Ordering := cmp (f a) (f b)

instance {f : α → β} {cmp : β → β → Ordering} [OrientedCmp cmp] :
    OrientedCmp (comparing f cmp) where
  eq_swap {a b} := by
    have hswap : cmp (f a) (f b) = (cmp (f b) (f a)).swap := OrientedCmp.eq_swap
    exact hswap

instance {f : α → β} {cmp : β → β → Ordering} [TransCmp cmp] : TransCmp (comparing f cmp) where
  isLE_trans {a b c} hab hbc := by
    have hle : (cmp (f a) (f c)).isLE = true := TransCmp.isLE_trans (b := f b) hab hbc
    exact hle

/-- Values that have a number come first, in the order of their numbers. -/
def numbersFirst (number : α → Option β) (cmpNumber : β → β → Ordering)
    (cmp : α → α → Ordering) (x y : α) : Ordering :=
  match number x, number y with
  | some m, some n => cmpNumber m n
  | some _, none => .lt
  | none, some _ => .gt
  | none, none => cmp x y

instance {number : α → Option β} {cmpNumber : β → β → Ordering} {cmp : α → α → Ordering}
    [OrientedCmp cmpNumber] [OrientedCmp cmp] :
    OrientedCmp (numbersFirst number cmpNumber cmp) where
  eq_swap {x y} := by
    unfold numbersFirst
    cases number x with
    | none =>
        cases number y with
        | none => exact OrientedCmp.eq_swap
        | some n => rfl
    | some m =>
        cases number y with
        | none => rfl
        | some n => exact OrientedCmp.eq_swap

instance {number : α → Option β} {cmpNumber : β → β → Ordering} {cmp : α → α → Ordering}
    [TransCmp cmpNumber] [TransCmp cmp] : TransCmp (numbersFirst number cmpNumber cmp) where
  isLE_trans {x y z} hxy hyz := by
    unfold numbersFirst at *
    cases hx : number x <;> cases hy : number y <;> cases hz : number z <;>
      simp only [hx, hy, hz] at hxy hyz ⊢
    · exact TransCmp.isLE_trans hxy hyz
    · cases hyz
    · cases hxy
    · cases hxy
    · rfl
    · cases hyz
    · rfl
    · exact TransCmp.isLE_trans hxy hyz

/-- Equal numbers, or no numbers and equal otherwise. -/
theorem numbersFirst_eq {number : α → Option β} {cmpNumber : β → β → Ordering}
    {cmp : α → α → Ordering} {x y : α} :
    numbersFirst number cmpNumber cmp x y = .eq ↔
      (∃ m n, number x = some m ∧ number y = some n ∧ cmpNumber m n = .eq) ∨
        (number x = none ∧ number y = none ∧ cmp x y = .eq) := by
  unfold numbersFirst
  cases number x <;> cases number y <;> simp

/-- The empty list comes last. -/
def emptyLast (cmp : List α → List α → Ordering) (a b : List α) : Ordering :=
  match a, b with
  | [], [] => .eq
  | [], _ :: _ => .gt
  | _ :: _, [] => .lt
  | _ :: _, _ :: _ => cmp a b

instance {cmp : List α → List α → Ordering} [OrientedCmp cmp] : OrientedCmp (emptyLast cmp) where
  eq_swap {a b} := by
    cases a with
    | nil => cases b <;> rfl
    | cons x a =>
        cases b with
        | nil => rfl
        | cons y b =>
            have hswap : cmp (x :: a) (y :: b) = (cmp (y :: b) (x :: a)).swap :=
              OrientedCmp.eq_swap
            exact hswap

instance {cmp : List α → List α → Ordering} [TransCmp cmp] : TransCmp (emptyLast cmp) where
  isLE_trans {a b c} hab hbc := by
    cases a with
    | nil =>
        cases b with
        | nil => exact hbc
        | cons y b => cases hab
    | cons x a =>
        cases c with
        | nil => rfl
        | cons z c =>
            cases b with
            | nil => cases hbc
            | cons y b =>
                have hle : (cmp (x :: a) (z :: c)).isLE = true :=
                  TransCmp.isLE_trans (b := y :: b) hab hbc
                exact hle

/-- The first pair that differs decides, then the lengths. -/
theorem foldr_zip_eq_compareLex (cmp : α → α → Ordering) (a b : List α) :
    (a.zip b).foldr (fun p rest => (cmp p.1 p.2).then rest) (compare a.length b.length) =
      List.compareLex cmp a b := by
  induction a generalizing b with
  | nil =>
      cases b with
      | nil => rfl
      | cons y b =>
          rw [List.compareLex_nil_cons]
          exact Nat.compare_eq_lt.mpr (Nat.succ_pos _)
  | cons x a ih =>
      cases b with
      | nil =>
          rw [List.compareLex_cons_nil]
          exact Nat.compare_eq_gt.mpr (Nat.succ_pos _)
      | cons y b =>
          have hlen : compare (x :: a).length (y :: b).length = compare a.length b.length := by
            simp only [List.length_cons, Nat.compare_eq_ite_lt]
            grind
          rw [List.compareLex_cons_cons, ← ih, List.zip_cons_cons, List.foldr_cons, hlen]

theorem compareLex_congr {cmp cmp' : α → α → Ordering} {a b : List α}
    (h : ∀ x ∈ a, ∀ y ∈ b, cmp x y = cmp' x y) :
    List.compareLex cmp a b = List.compareLex cmp' a b := by
  induction a generalizing b with
  | nil => cases b <;> rfl
  | cons x a ih =>
      cases b with
      | nil => rfl
      | cons y b =>
          rw [List.compareLex_cons_cons, List.compareLex_cons_cons,
            h x (List.mem_cons_self ..) y (List.mem_cons_self ..),
            ih fun x' hx' y' hy' =>
              h x' (List.mem_cons_of_mem _ hx') y' (List.mem_cons_of_mem _ hy')]

theorem compareLex_eq_iff {cmp : α → α → Ordering} {a b : List α} :
    List.compareLex cmp a b = .eq ↔ List.Forall₂ (fun x y => cmp x y = .eq) a b := by
  induction a generalizing b with
  | nil =>
      cases b with
      | nil => exact iff_of_true rfl .nil
      | cons y b => exact iff_of_false nofun nofun
  | cons x a ih =>
      cases b with
      | nil => exact iff_of_false nofun nofun
      | cons y b => rw [List.compareLex_cons_cons, Ordering.then_eq_eq, ih, List.forall₂_cons]

theorem emptyLast_congr {cmp cmp' : List α → List α → Ordering} {a b : List α}
    (h : cmp a b = cmp' a b) : emptyLast cmp a b = emptyLast cmp' a b := by
  cases a with
  | nil => cases b <;> rfl
  | cons x a =>
      cases b with
      | nil => rfl
      | cons y b => exact h

theorem emptyLast_compareLex_eq {cmp : α → α → Ordering} {a b : List α} :
    emptyLast (List.compareLex cmp) a b = .eq ↔ List.Forall₂ (fun x y => cmp x y = .eq) a b := by
  rw [← compareLex_eq_iff]
  cases a with
  | nil =>
      cases b with
      | nil => exact iff_of_true rfl rfl
      | cons y b => exact iff_of_false nofun nofun
  | cons x a =>
      cases b with
      | nil => exact iff_of_false nofun nofun
      | cons y b => exact Iff.rfl

end AgentGrid.Foundation
