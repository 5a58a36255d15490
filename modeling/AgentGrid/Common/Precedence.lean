import AgentGrid.Common.Version
import AgentGrid.Foundation.Comparators
import Mathlib.Data.Set.Defs

/-!
# Precedence

The precedence of SemVer beside `cmp_full`.
-/

namespace AgentGrid.Common

open AgentGrid.Foundation
open Std (OrientedCmp ReflCmp TransCmp)

/-! ## The precedence of SemVer -/

/-- The number that a numeric identifier is. -/
def number? (id : Text) : Option Nat := if isDigits id then some (digitsValue id) else none

def precedenceId : Text → Text → Ordering := numbersFirst number? compare cmpText

def precedence (a b : SemVer) : Ordering :=
  (cmpRelease a b).then (emptyLast (List.compareLex precedenceId) a.pre b.pre)

/-- Numeric identifiers are the same when their numbers are. -/
def SameIdentifier (x y : Text) : Prop :=
  x = y ∨ ∃ n, number? x = some n ∧ number? y = some n

structure SameVersion (a b : SemVer) : Prop where
  major : a.major = b.major
  minor : a.minor = b.minor
  patch : a.patch = b.patch
  pre : List.Forall₂ SameIdentifier a.pre b.pre

/-- `cmp_full` totally orders the versions in `U`, as SemVer does. -/
structure OrdersAsSemVer (U : SemVer → Prop) : Prop where
  refl : ∀ a, U a → cmpFull a a = .eq
  antisymm : ∀ a b, U a → U b → (cmpFull a b).isLE = true → (cmpFull b a).isLE = true →
    SameVersion a b
  trans : ∀ a b c, U a → U b → U c → (cmpFull a b).isLE = true → (cmpFull b c).isLE = true →
    (cmpFull a c).isLE = true
  total : ∀ a b, U a → U b → (cmpFull a b).isLE = true ∨ (cmpFull b a).isLE = true
  agrees : ∀ a b, U a → U b → cmpFull a b = precedence a b

/-- `parse_version` accepts a text of the version. -/
def Accepted (v : SemVer) : Prop := ∃ s, parseVersion s = some v

/-! ## Laws of the precedence -/

instance : TransCmp cmpText :=
  inferInstanceAs (TransCmp (List.compareLex (compareOn Char.toNat)))

theorem cmpText_eq {x y : Text} : cmpText x y = .eq ↔ x = y := by
  rw [cmpText, compareLex_eq_iff]
  constructor
  · intro h
    refine List.forall₂_eq_eq_eq ▸ h.imp fun c d hcd => ?_
    exact Char.toNat_inj.mp (Nat.compare_eq_eq.mp hcd)
  · rintro rfl
    exact List.forall₂_same.mpr fun c _ => Nat.compare_eq_eq.mpr rfl

instance : TransCmp precedenceId := inferInstanceAs (TransCmp (numbersFirst _ _ _))

instance : TransCmp cmpRelease :=
  inferInstanceAs (TransCmp (compareLex (compareOn SemVer.major)
    (compareLex (compareOn SemVer.minor) (compareOn SemVer.patch))))

instance : TransCmp precedence :=
  inferInstanceAs (TransCmp (compareLex cmpRelease
    (comparing SemVer.pre (emptyLast (List.compareLex precedenceId)))))

theorem cmpRelease_eq {a b : SemVer} :
    cmpRelease a b = .eq ↔ a.major = b.major ∧ a.minor = b.minor ∧ a.patch = b.patch := by
  simp only [cmpRelease, Ordering.then_eq_eq, Nat.compare_eq_eq]

theorem sameIdentifier_of_precedenceId {x y : Text} (h : precedenceId x y = .eq) :
    SameIdentifier x y := by
  rcases numbersFirst_eq.mp h with ⟨m, n, hx, hy, hmn⟩ | ⟨-, -, hxy⟩
  · obtain rfl := Nat.compare_eq_eq.mp hmn
    exact .inr ⟨m, hx, hy⟩
  · exact .inl (cmpText_eq.mp hxy)

theorem sameVersion_of_precedence {a b : SemVer} (h : precedence a b = .eq) : SameVersion a b := by
  obtain ⟨hrelease, hpre⟩ := Ordering.then_eq_eq.mp h
  obtain ⟨hmajor, hminor, hpatch⟩ := cmpRelease_eq.mp hrelease
  exact ⟨hmajor, hminor, hpatch, (emptyLast_compareLex_eq.mp hpre).imp fun _ _ =>
    sameIdentifier_of_precedenceId⟩

/-- Where `cmp_full` agrees with the precedence it is a total order. -/
theorem ordersAsSemVer_of_agrees {U : SemVer → Prop}
    (h : ∀ a b, U a → U b → cmpFull a b = precedence a b) : OrdersAsSemVer U where
  refl a ha := by
    rw [h a a ha ha]
    exact ReflCmp.compare_self
  antisymm a b ha hb hab hba := by
    rw [h a b ha hb] at hab
    rw [h b a hb ha] at hba
    exact sameVersion_of_precedence (OrientedCmp.isLE_antisymm hab hba)
  trans a b c ha hb hc hab hbc := by
    rw [h a b ha hb] at hab
    rw [h b c hb hc] at hbc
    rw [h a c ha hc]
    exact TransCmp.isLE_trans hab hbc
  total a b ha hb := by
    have hswap : precedence b a = (precedence a b).swap := OrientedCmp.eq_swap
    rw [h a b ha hb, h b a hb ha, hswap]
    cases precedence a b <;> simp
  agrees := h

/-! ## Identifiers -/

/-- The mixed comparison ranks the two identifiers as SemVer does: numbers that both fit
64 bits are compared as such, and where the texts are compared they stand in that order. -/
def Ranked (x y : Text) : Prop :=
  match number? x, number? y with
  | some m, some n => (m < 2 ^ 64 ∧ n < 2 ^ 64) ∨ cmpText x y = compare m n
  | some _, none => cmpText x y = .lt
  | none, some _ => cmpText x y = .gt
  | none, none => True

theorem parseU64_of_number {x : Text} {m : Nat} (h : number? x = some m) :
    parseU64 x = if m < 2 ^ 64 then some m else none := by
  rw [number?] at h
  split at h
  · rename_i hdigits
    obtain rfl := Option.some_inj.mp h
    exact parseU64_of_isDigits hdigits
  · cases h

theorem parseU64_of_no_number {x : Text} (hx : isIdentifier x = true) (h : number? x = none) :
    parseU64 x = none := by
  have hplus : '+' ∉ x := notMem_of_isIdentifier hx (by decide)
  rw [number?] at h
  split at h
  · cases h
  · rename_i hdigits
    rw [parseU64, stripOr_of_notMem hplus]
    exact if_neg fun hand => hdigits hand.1

theorem cmpIdentifier_eq_iff {x y : Text} (hx : isIdentifier x = true)
    (hy : isIdentifier y = true) : cmpIdentifier x y = precedenceId x y ↔ Ranked x y := by
  unfold cmpIdentifier precedenceId numbersFirst Ranked
  cases hm : number? x with
  | none =>
      rw [parseU64_of_no_number hx hm]
      cases hn : number? y with
      | none => simp
      | some n => simp
  | some m =>
      rw [parseU64_of_number hm]
      cases hn : number? y with
      | none =>
          rw [parseU64_of_no_number hy hn]
          cases (if m < 2 ^ 64 then some m else none) <;> simp
      | some n =>
          rw [parseU64_of_number hn]
          by_cases hm64 : m < 2 ^ 64
          · rw [if_pos hm64]
            by_cases hn64 : n < 2 ^ 64
            · rw [if_pos hn64]
              exact iff_of_true rfl (.inl ⟨hm64, hn64⟩)
            · rw [if_neg hn64]
              exact (or_iff_right fun hand => hn64 hand.2).symm
          · rw [if_neg hm64]
            exact (or_iff_right fun hand => hm64 hand.1).symm

theorem cmpPre_eq (a b : List Text) :
    cmpPre a b = emptyLast (List.compareLex cmpIdentifier) a b := by
  unfold cmpPre emptyLast
  cases a with
  | nil => cases b <;> rfl
  | cons x a =>
      cases b with
      | nil => rfl
      | cons y b => exact foldr_zip_eq_compareLex cmpIdentifier (x :: a) (y :: b)

theorem cmpIdentifier_self (x : Text) : cmpIdentifier x x = .eq := by
  unfold cmpIdentifier
  cases parseU64 x with
  | none => exact cmpText_eq.mpr rfl
  | some n => exact Nat.compare_eq_eq.mpr rfl

theorem cmpFull_self (v : SemVer) : cmpFull v v = .eq := by
  rw [cmpFull, cmpPre_eq, Ordering.then_eq_eq, emptyLast_compareLex_eq]
  exact ⟨cmpRelease_eq.mpr ⟨rfl, rfl, rfl⟩,
    List.forall₂_same.mpr fun x _ => cmpIdentifier_self x⟩

theorem accepted_iff {v : SemVer} : Accepted v ↔ Parsed v :=
  ⟨fun ⟨_, h⟩ => parsed_of_parse h, fun h => ⟨_, parseVersion_print h⟩⟩

/-- The versions with identifiers of `I`. -/
def Over (I : Set Text) (v : SemVer) : Prop := Accepted v ∧ ∀ id ∈ v.pre, id ∈ I

/-- On the versions with identifiers of `I`, `cmp_full` is a total order that agrees with the
precedence of SemVer exactly when every two identifiers of `I` are ranked. -/
theorem ordersAsSemVer_iff (I : Set Text) :
    OrdersAsSemVer (Over I) ↔
      ∀ x ∈ I, ∀ y ∈ I, isIdentifier x = true → isIdentifier y = true → Ranked x y := by
  constructor
  · intro h x hx y hy hidx hidy
    have hover : ∀ id ∈ I, isIdentifier id = true → Over I ⟨0, 0, 0, [id]⟩ := by
      intro id hid hident
      have hparsed : Parsed ⟨0, 0, 0, [id]⟩ :=
        ⟨Nat.two_pow_pos 64, Nat.two_pow_pos 64, Nat.two_pow_pos 64, by simpa using hident⟩
      exact ⟨⟨_, parseVersion_print hparsed⟩, by simpa using hid⟩
    have hagrees := h.agrees _ _ (hover x hx hidx) (hover y hy hidy)
    refine (cmpIdentifier_eq_iff hidx hidy).mp ?_
    rw [cmpFull, precedence, cmpPre_eq] at hagrees
    simpa [cmpRelease, emptyLast, List.compareLex_cons_cons, List.compareLex_nil_nil] using hagrees
  · intro h
    refine ordersAsSemVer_of_agrees ?_
    rintro a b ⟨⟨s, hs⟩, ha⟩ ⟨⟨t, ht⟩, hb⟩
    rw [cmpFull, precedence, cmpPre_eq]
    refine congrArg _ (emptyLast_congr (compareLex_congr fun x hx y hy => ?_))
    have hidx := (parsed_of_parse hs).pre x hx
    have hidy := (parsed_of_parse ht).pre y hy
    exact (cmpIdentifier_eq_iff hidx hidy).mpr (h x (ha x hx) y (hb y hy) hidx hidy)

def nine : Text := "1.0.0-9".toList

def ten : Text := "1.0.0-10".toList

def oneA : Text := "1.0.0-1a".toList

/-- 9 stands below 10, 10 below 1a and 1a below 9. -/
theorem precedence_cycle : ¬OrdersAsSemVer Accepted := by
  intro h
  have hnine : parseVersion nine = some ⟨1, 0, 0, [['9']]⟩ := by decide
  have hten : parseVersion ten = some ⟨1, 0, 0, [['1', '0']]⟩ := by decide
  have honeA : parseVersion oneA = some ⟨1, 0, 0, [['1', 'a']]⟩ := by decide
  exact absurd (h.trans _ _ _ ⟨_, hnine⟩ ⟨_, hten⟩ ⟨_, honeA⟩ (by decide) (by decide)) (by decide)

end AgentGrid.Common
