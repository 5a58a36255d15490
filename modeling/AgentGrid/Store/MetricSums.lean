import AgentGrid.Node.PayloadText
import AgentGrid.Store.Attempts
import Mathlib.Algebra.BigOperators.Group.List.Basic
import Mathlib.Algebra.Order.BigOperators.Group.List

/-!
# Sums over metric events

`workflow_tokens_cost` on the events of a run: SQLite reads a number from the
text of each payload, casts it to an integer of 64 bits and adds up.  What
casting a floating number or a text gives is a parameter.
-/

namespace AgentGrid.Store

open AgentGrid.Node

def maxI64 : Int := 2 ^ 63 - 1

/-- `CAST(.. AS INTEGER)` of an extracted value; an integer literal beyond the
range is a floating number first and is clamped. -/
def castInteger (castOther : List Char → Option Int) (raw : List Char) : Option Int :=
  if raw = "null".toList then none
  else if raw = "true".toList then some 1
  else if raw = "false".toList then some 0
  else if raw.all Char.isDigit then
    some (min (Nat.ofDigitChars 10 raw 0 : Int) maxI64)
  else castOther raw

/-- `SUM` over integers, an error when it overflows; NULL does not count. -/
def sumInteger (values : List (Option Int)) : Option Int :=
  (values.filterMap id).foldlM (fun acc v =>
    if -(2 ^ 63) ≤ acc + v ∧ acc + v ≤ maxI64 then some (acc + v) else none) 0

def metricSum (castOther : List Char → Option Int) (key : String) (events : List TaskEvent) :
    Option Int :=
  sumInteger ((events.filter fun e => e.type == .metric).map fun e =>
    (jsonExtract e.payload.toList key).bind (castInteger castOther))

def workflowTokensCost (castOther : List Char → Option Int) (events : List TaskEvent) :
    Option (Nat × Nat) := do
  let tokens ← metricSum castOther "tokens" events
  let cost ← metricSum castOther "cost_cents" events
  pure (tokens.toNat, cost.toNat)

section Sums

variable {castOther : List Char → Option Int}

theorem castInteger_repr (castOther : List Char → Option Int) (n : Nat) :
    castInteger castOther n.repr.toList = some (min (n : Int) maxI64) := by
  have hdigits : ∀ c ∈ n.repr.toList, c.isDigit = true := by
    intro c hc
    rw [Nat.toList_repr] at hc
    exact Nat.isDigit_of_mem_toDigits (by decide) (by decide) hc
  have hword : ∀ word : List Char, word.all Char.isDigit = false → n.repr.toList ≠ word := by
    intro word hword heq
    rw [← heq, List.all_eq_true.mpr hdigits] at hword
    cases hword
  rw [castInteger, if_neg (hword _ (by decide)), if_neg (hword _ (by decide)),
    if_neg (hword _ (by decide)), if_pos (List.all_eq_true.mpr hdigits), Nat.toList_repr,
    Nat.ofDigitChars_ten_toDigits]

/-- Within the range the sum is the sum. -/
theorem sumInteger_of_nat {values : List (Option Int)} {counts : List Nat}
    (h : List.Forall₂ (fun (v : Option Int) (n : Nat) =>
      v = none ∧ n = 0 ∨ v = some (min (n : Int) maxI64)) values counts)
    (hsum : ((counts.sum : Nat) : Int) ≤ maxI64) :
    sumInteger values = some ((counts.sum : Nat) : Int) := by
  have hfold : ∀ acc : Int, 0 ≤ acc → acc + ((counts.sum : Nat) : Int) ≤ maxI64 →
      (values.filterMap id).foldlM (fun acc v =>
        if -(2 ^ 63) ≤ acc + v ∧ acc + v ≤ maxI64 then some (acc + v) else none) acc =
      some (acc + ((counts.sum : Nat) : Int)) := by
    clear hsum
    induction h with
    | nil => simp
    | @cons v n values counts hv _ ih =>
        intro acc hacc hbound
        rw [List.sum_cons, Int.natCast_add] at hbound ⊢
        rcases hv with ⟨rfl, rfl⟩ | rfl
        · simpa using ih acc hacc (by simpa using hbound)
        · have hmin : min (n : Int) maxI64 = n := by omega
          have hnext := ih (acc + n) (by omega) (by omega)
          have hfits : -(2 ^ 63) ≤ acc + (n : Int) ∧ acc + (n : Int) ≤ maxI64 := by
            constructor <;> omega
          rw [hmin]
          change List.foldlM _ acc ((n : Int) :: values.filterMap id) = _
          rw [List.foldlM_cons, if_pos hfits, ← add_assoc]
          exact hnext
  rw [sumInteger, hfold 0 (le_refl 0) (by rwa [zero_add]), zero_add]

/-- What an event counts under a key, as its payload is printed. -/
def printedCount (key : String) (e : TaskEvent) : Nat :=
  if e.type = .metric then
    ((jsonExtract e.payload.toList key).map (Nat.ofDigitChars 10 · 0)).getD 0
  else 0

/-- The payload of a metric event has an unsigned number under the key, or
nothing. -/
def PrintsCount (key : String) (e : TaskEvent) : Prop :=
  e.type = .metric → jsonExtract e.payload.toList key = none ∨
    ∃ n : Nat, jsonExtract e.payload.toList key = some n.repr.toList

theorem metricSum_of_printed {key : String} {events : List TaskEvent}
    (h : ∀ e ∈ events, PrintsCount key e)
    (hsum : (((events.map (printedCount key)).sum : Nat) : Int) ≤ maxI64) :
    metricSum castOther key events =
      some (((events.map (printedCount key)).sum : Nat) : Int) := by
  have hrest : (events.map (printedCount key)).sum =
      ((events.filter fun e => e.type == .metric).map (printedCount key)).sum := by
    clear hsum h
    induction events with
    | nil => rfl
    | cons e events ih =>
        rw [List.map_cons, List.sum_cons, ih, List.filter_cons]
        by_cases htype : e.type = .metric
        · simp [htype]
        · simp [htype, printedCount]
  rw [hrest] at hsum ⊢
  apply sumInteger_of_nat _ hsum
  rw [List.forall₂_map_left_iff, List.forall₂_map_right_iff, List.forall₂_same]
  intro e he
  obtain ⟨hmem, htype⟩ := List.mem_filter.mp he
  have htype : e.type = .metric := eq_of_beq htype
  rcases h e hmem htype with hnone | ⟨n, hn⟩
  · exact .inl ⟨by rw [hnone]; rfl, by simp [printedCount, htype, hnone]⟩
  · right
    have hcount : printedCount key e = n := by
      simp [printedCount, htype, hn, Nat.toList_repr, Nat.ofDigitChars_ten_toDigits]
    rw [hn, hcount]
    exact castInteger_repr castOther n

theorem workflowTokensCost_of_printed {events : List TaskEvent}
    (htokens : ∀ e ∈ events, PrintsCount "tokens" e)
    (hcost : ∀ e ∈ events, PrintsCount "cost_cents" e)
    (htokensSum : (events.map (printedCount "tokens")).sum < 2 ^ 63)
    (hcostSum : (events.map (printedCount "cost_cents")).sum < 2 ^ 63) :
    workflowTokensCost castOther events =
      some ((events.map (printedCount "tokens")).sum,
        (events.map (printedCount "cost_cents")).sum) := by
  rw [workflowTokensCost, metricSum_of_printed htokens (by rw [maxI64]; omega),
    metricSum_of_printed hcost (by rw [maxI64]; omega)]
  rfl

end Sums

end AgentGrid.Store
