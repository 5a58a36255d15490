import Mathlib.Data.List.Basic
import Mathlib.Data.List.Nodup
import Mathlib.Order.MinMax

/-!
# Records kept once and read by position

A writer offers records under a key and the first one with its key is kept.
A reader follows a log whose positions increase: `Upto` says that it holds
the log up to its cursor, whatever is appended behind it.
-/

namespace AgentGrid.Foundation

section Recorded

variable {ω κ : Type} [DecidableEq κ] {key : ω → κ} {offered stored : List ω}

structure Recorded (key : ω → κ) (offered stored : List ω) : Prop where
  once : (stored.map key).Nodup
  first : ∀ o ∈ stored, offered.find? (fun o' => decide (key o' = key o)) = some o
  all : ∀ o ∈ offered, key o ∈ stored.map key

theorem Recorded.empty (key : ω → κ) : Recorded key [] [] :=
  ⟨by simp, by simp, by simp⟩

theorem Recorded.duplicate (h : Recorded key offered stored) {o : ω}
    (ho : key o ∈ stored.map key) : Recorded key (offered ++ [o]) stored := by
  refine ⟨h.once, ?_, ?_⟩
  · intro o' ho'
    simp [List.find?_append, h.first o' ho']
  · intro o' ho'
    rcases List.mem_append.mp ho' with hold | hnew
    · exact h.all o' hold
    · rw [List.mem_singleton.mp hnew]
      exact ho

theorem Recorded.fresh (h : Recorded key offered stored) {o : ω}
    (ho : key o ∉ stored.map key) : Recorded key (offered ++ [o]) (stored ++ [o]) := by
  refine ⟨?_, ?_, ?_⟩
  · rw [List.map_append, List.map_singleton]
    exact h.once.append (List.nodup_singleton _) (by simpa using ho)
  · intro o' ho'
    rcases List.mem_append.mp ho' with hold | hnew
    · simp [List.find?_append, h.first o' hold]
    · rw [List.mem_singleton.mp hnew]
      have hnone : offered.find? (fun o' => decide (key o' = key o)) = none := by
        apply List.find?_eq_none.mpr
        intro o' ho' hkey
        rw [decide_eq_true_eq] at hkey
        exact ho (hkey ▸ h.all o' ho')
      simp [List.find?_append, hnone]
  · intro o' ho'
    rw [List.map_append]
    rcases List.mem_append.mp ho' with hold | hnew
    · exact List.mem_append_left _ (h.all o' hold)
    · exact List.mem_append_right _ (List.mem_map_of_mem hnew)

end Recorded

section Cursor

variable {ρ : Type} {pos : ρ → Int} {cursor : Int} {received log : List ρ}

/-- Where a reader stands after it has gone through a page. -/
def advance (pos : ρ → Int) (cursor : Int) (page : List ρ) : Int :=
  page.foldl (fun c e => max c (pos e)) cursor

theorem advance_lt_iff (page : List ρ) (b : Int) :
    advance pos cursor page < b ↔ cursor < b ∧ ∀ e ∈ page, pos e < b := by
  induction page generalizing cursor with
  | nil => simp [advance]
  | cons e page ih =>
      have hcons : advance pos cursor (e :: page) =
          advance pos (max cursor (pos e)) page := rfl
      rw [hcons, ih, max_lt_iff, List.forall_mem_cons, and_assoc]

theorem advance_bounds (page : List ρ) :
    cursor ≤ advance pos cursor page ∧ ∀ e ∈ page, pos e ≤ advance pos cursor page := by
  have hlt : advance pos cursor page < advance pos cursor page + 1 := by omega
  obtain ⟨hcursor, hpage⟩ := (advance_lt_iff page _).mp hlt
  refine ⟨by omega, ?_⟩
  intro e he
  have := hpage e he
  omega

theorem advance_getLast {page : List ρ} (hpage : page.Pairwise fun e e' => pos e < pos e')
    (hcursor : ∀ e ∈ page, cursor < pos e) {last : ρ} (hlast : page.getLast? = some last) :
    advance pos cursor page = pos last := by
  obtain ⟨init, rfl⟩ := List.getLast?_eq_some_iff.mp hlast
  have hbefore : ∀ e ∈ init ++ [last], pos e < pos last + 1 := by
    intro e he
    rcases List.mem_append.mp he with hinit | hend
    · have := (List.pairwise_append.mp hpage).2.2 e hinit last (by simp)
      omega
    · rw [List.mem_singleton.mp hend]
      omega
  have hlow := hcursor last (by simp)
  have hupper : advance pos cursor (init ++ [last]) < pos last + 1 :=
    (advance_lt_iff _ _).mpr ⟨by omega, hbefore⟩
  have hlower := (@advance_bounds ρ pos cursor (init ++ [last])).2 last (by simp)
  omega

/-- What was received is the log up to the cursor. -/
structure Upto (pos : ρ → Int) (cursor : Int) (received log : List ρ) : Prop where
  split : ∃ rest, log = received ++ rest ∧ ∀ e ∈ rest, cursor < pos e
  seen : ∀ e ∈ received, pos e ≤ cursor

namespace Upto

theorem start (h : ∀ e ∈ log, cursor < pos e) : Upto pos cursor [] log :=
  ⟨⟨log, by simp, h⟩, by simp⟩

theorem extend (h : Upto pos cursor received log) {new : List ρ}
    (hnew : ∀ e ∈ new, cursor < pos e) : Upto pos cursor received (log ++ new) := by
  obtain ⟨rest, rfl, hrest⟩ := h.split
  refine ⟨⟨rest ++ new, by simp, ?_⟩, h.seen⟩
  intro e he
  rcases List.mem_append.mp he with hold | hlate
  · exact hrest e hold
  · exact hnew e hlate

theorem unread (h : Upto pos cursor received log) :
    log.filter (fun e => cursor < pos e) = log.drop received.length := by
  obtain ⟨rest, rfl, hrest⟩ := h.split
  have hread : received.filter (fun e => cursor < pos e) = [] := by
    apply List.filter_eq_nil_iff.mpr
    intro e he
    have := h.seen e he
    simpa using this
  have hleft : rest.filter (fun e => cursor < pos e) = rest := by
    apply List.filter_eq_self.mpr
    intro e he
    simpa using hrest e he
  rw [List.filter_append, hread, hleft, List.nil_append, List.drop_left]

theorem received_eq (h : Upto pos cursor received log) :
    received = log.take received.length := by
  obtain ⟨rest, rfl, _⟩ := h.split
  rw [List.take_left]

/-- A page of any size continues the log where the cursor stands. -/
theorem read (h : Upto pos cursor received log)
    (hlog : log.Pairwise fun e e' => pos e < pos e') (n : Nat) :
    Upto pos (advance pos cursor ((log.filter fun e => cursor < pos e).take n))
        (received ++ (log.filter fun e => cursor < pos e).take n) log ∧
      received ++ (log.filter fun e => cursor < pos e).take n =
        log.take (received.length + n) := by
  rw [h.unread]
  obtain ⟨rest, rfl, hrest⟩ := h.split
  rw [List.drop_left]
  have hsorted := (List.pairwise_append.mp hlog).2.1
  refine ⟨⟨⟨rest.drop n, ?_, ?_⟩, ?_⟩, ?_⟩
  · rw [List.append_assoc, List.take_append_drop]
  · intro e he
    rw [advance_lt_iff]
    refine ⟨hrest e (List.mem_of_mem_drop he), ?_⟩
    intro e' he'
    rw [← List.take_append_drop n rest] at hsorted
    exact (List.pairwise_append.mp hsorted).2.2 e' he' e he
  · intro e he
    have hbounds := @advance_bounds ρ pos cursor (rest.take n)
    obtain ⟨hcursor, hpage⟩ := hbounds
    rcases List.mem_append.mp he with hold | hnew
    · exact le_trans (h.seen e hold) hcursor
    · exact hpage e hnew
  · rw [List.take_length_add_append]

end Upto

end Cursor

end AgentGrid.Foundation
