import Mathlib.Data.Char
import Mathlib.Data.List.Lex
import Mathlib.Algebra.Ring.Nat

/-!
# Numerals of a fixed width

Decimal numerals filled up with zeros to one width are read in order like the numbers
they stand for, whatever follows them.
-/

namespace AgentGrid.Foundation.Numeral

def padded (width n : Nat) : List Char :=
  List.replicate (width - (Nat.toDigits 10 n).length) '0' ++ Nat.toDigits 10 n

variable {width n m : Nat}

theorem isDigit_of_mem_padded {c : Char} (h : c ∈ padded width n) : c.isDigit = true := by
  rcases List.mem_append.mp h with h | h
  · rw [List.eq_of_mem_replicate h]
    decide
  · exact Nat.isDigit_of_mem_toDigits (by decide) (by decide) h

theorem length_padded (hwidth : 0 < width) (h : n < 10 ^ width) :
    (padded width n).length = width := by
  have hle : (Nat.toDigits 10 n).length ≤ width :=
    (Nat.length_toDigits_le_iff (by decide) hwidth).mpr h
  rw [padded, List.length_append, List.length_replicate]
  omega

theorem value_padded (width n : Nat) : Nat.ofDigitChars 10 (padded width n) 0 = n := by
  rw [padded, Nat.ofDigitChars_append, Nat.ofDigitChars_replicate_zero, Nat.mul_zero,
    Nat.ofDigitChars_ten_toDigits]

theorem padded_ne_nil : padded width n ≠ [] := by
  simp [padded, Nat.toDigits_ne_nil]

/-! ## Order -/

theorem append_lt_append_left_iff (s : List Char) {t u : List Char} :
    s ++ t < s ++ u ↔ t < u := by
  induction s with
  | nil => rfl
  | cons c s ih => simp [ih]

theorem ofDigitChars_lt {digits : List Char} (h : ∀ c ∈ digits, c.isDigit = true) :
    Nat.ofDigitChars 10 digits 0 < 10 ^ digits.length := by
  induction digits with
  | nil => decide
  | cons c digits ih =>
      have hc := (Char.isDigit_iff_toNat.mp (h c List.mem_cons_self)).2
      have hrest := ih fun d hd => h d (List.mem_cons_of_mem _ hd)
      have hdigit : c.toNat - '0'.toNat ≤ 9 := by
        have hzero : '0'.toNat = 48 := rfl
        have hnine : '9'.toNat = 57 := rfl
        omega
      have hscaled := Nat.mul_le_mul_left (10 ^ digits.length) hdigit
      rw [Nat.ofDigitChars_cons, Nat.mul_zero, Nat.zero_add,
        Nat.ofDigitChars_eq_ofDigitChars_zero, List.length_cons, Nat.pow_succ]
      omega

/-- The first place that differs decides the order of the numerals and the numbers. -/
theorem append_lt_append_iff {digits other : List Char} (hd : ∀ c ∈ digits, c.isDigit = true)
    (ho : ∀ c ∈ other, c.isDigit = true) (hlength : digits.length = other.length)
    (s t : List Char) :
    digits ++ s < other ++ t ↔
      Nat.ofDigitChars 10 digits 0 < Nat.ofDigitChars 10 other 0 ∨
        Nat.ofDigitChars 10 digits 0 = Nat.ofDigitChars 10 other 0 ∧ s < t := by
  induction digits generalizing other with
  | nil =>
      obtain rfl : other = [] := List.length_eq_zero_iff.mp hlength.symm
      simp
  | cons c digits ih =>
      obtain ⟨e, other, rfl⟩ := List.exists_cons_of_length_eq_add_one hlength.symm
      have hlen : digits.length = other.length := by simpa using hlength
      have hdrest : ∀ x ∈ digits, x.isDigit = true := fun x hx => hd x (List.mem_cons_of_mem _ hx)
      have horest : ∀ x ∈ other, x.isDigit = true := fun x hx => ho x (List.mem_cons_of_mem _ hx)
      have hc := (Char.isDigit_iff_toNat.mp (hd c List.mem_cons_self)).1
      have he := (Char.isDigit_iff_toNat.mp (ho e List.mem_cons_self)).1
      have hlow := ofDigitChars_lt hdrest
      have hlow' := ofDigitChars_lt horest
      have hvalue := @Nat.ofDigitChars_eq_ofDigitChars_zero digits (c.toNat - '0'.toNat)
      have hvalue' := @Nat.ofDigitChars_eq_ofDigitChars_zero other (e.toNat - '0'.toNat)
      rw [← hlen] at hvalue' hlow'
      simp only [List.cons_append, List.cons_lt_cons_iff, Nat.ofDigitChars_cons, Nat.mul_zero,
        Nat.zero_add, hvalue, hvalue', ih hdrest horest hlen]
      generalize Nat.ofDigitChars 10 digits 0 = a at hlow ⊢
      generalize Nat.ofDigitChars 10 other 0 = b at hlow' ⊢
      generalize 10 ^ digits.length = k at hlow hlow' ⊢
      rcases Nat.lt_trichotomy c.toNat e.toNat with hlt | heq | hgt
      · have hchar : c < e := hlt
        have hdigit : c.toNat - '0'.toNat + 1 ≤ e.toNat - '0'.toNat := by omega
        have hstep := Nat.mul_le_mul_left k hdigit
        rw [Nat.mul_add] at hstep
        exact iff_of_true (.inl hchar) (.inl (by omega))
      · obtain rfl : c = e := Char.toNat_inj.mp heq
        simp
      · have hchar : ¬ c < e := lt_asymm (show e < c from hgt)
        have hne : c ≠ e := by
          rintro rfl
          omega
        have hdigit : e.toNat - '0'.toNat + 1 ≤ c.toNat - '0'.toNat := by omega
        have hstep := Nat.mul_le_mul_left k hdigit
        rw [Nat.mul_add] at hstep
        refine iff_of_false (by simp [hchar, hne]) ?_
        rintro (h | ⟨h, -⟩)
        · omega
        · omega

theorem padded_append_lt_iff (hwidth : 0 < width) (hn : n < 10 ^ width) (hm : m < 10 ^ width)
    (s t : List Char) :
    padded width n ++ s < padded width m ++ t ↔ n < m ∨ n = m ∧ s < t := by
  have hlength : (padded width n).length = (padded width m).length := by
    rw [length_padded hwidth hn, length_padded hwidth hm]
  rw [append_lt_append_iff (fun _ => isDigit_of_mem_padded) (fun _ => isDigit_of_mem_padded)
    hlength, value_padded, value_padded]

end AgentGrid.Foundation.Numeral
