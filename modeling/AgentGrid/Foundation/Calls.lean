import Mathlib.Data.List.Basic
import Mathlib.Logic.Function.Basic

/-!
# Calls and their answers

A call waits at a channel that takes one answer.  The sending end of the channel
lies in a map under the key of the call: whoever takes it out answers the call or
drops the end, and registering under a key that is taken drops the end that was
there.  In a sound table the ends in the map are those of the empty channels.
-/

namespace AgentGrid.Foundation

inductive Channel (μ : Type)
  | empty
  | filled (answer : μ)
  | closed

inductive CallPhase (ρ : Type)
  | sending
  | waiting
  | returned (result : ρ)
  | dropped

structure Call (κ μ ρ : Type) where
  key : κ
  channel : Channel μ
  phase : CallPhase ρ

structure Calls (κ μ ρ : Type) where
  pending : κ → Option Nat := fun _ => none
  calls : List (Call κ μ ρ) := []

namespace Calls

variable {κ μ ρ : Type}

/-- Every end is taken out and given the answer. -/
def drain (C : Calls κ μ ρ) (answer : μ) : Calls κ μ ρ where
  pending := fun _ => none
  calls := C.calls.mapIdx fun i c =>
    if C.pending c.key = some i then { c with channel := .filled answer } else c

def move (C : Calls κ μ ρ) (i : Nat) (phase : CallPhase ρ) : Calls κ μ ρ :=
  { C with calls := C.calls.modify i fun c => { c with phase := phase } }

structure Sound (C : Calls κ μ ρ) : Prop where
  held : ∀ k i, C.pending k = some i →
    ∃ c, C.calls[i]? = some c ∧ c.key = k ∧ c.channel = .empty
  empty : ∀ i c, C.calls[i]? = some c → c.channel = .empty → C.pending c.key = some i

theorem sound_init : Sound ({} : Calls κ μ ρ) where
  held _ _ h := by cases h
  empty _ _ h := by simp at h

theorem Sound.key_of_pending {C : Calls κ μ ρ} (h : C.Sound) {k k' : κ} {i : Nat}
    (hk : C.pending k = some i) (hk' : C.pending k' = some i) : k = k' := by
  obtain ⟨c, hc, rfl, -⟩ := h.held k i hk
  obtain ⟨c', hc', rfl, -⟩ := h.held k' i hk'
  rw [Option.some.inj (hc.symm.trans hc')]

theorem drain_get {C : Calls κ μ ρ} {answer : μ} {i : Nat} {c' : Call κ μ ρ}
    (h : (C.drain answer).calls[i]? = some c') :
    ∃ c, C.calls[i]? = some c ∧ c'.key = c.key ∧ c'.phase = c.phase ∧
      ((C.pending c.key = some i ∧ c'.channel = .filled answer) ∨
        (C.pending c.key ≠ some i ∧ c'.channel = c.channel)) := by
  rw [drain, List.getElem?_mapIdx] at h
  obtain ⟨c, hc, hmap⟩ := Option.map_eq_some_iff.mp h
  refine ⟨c, hc, ?_⟩
  split at hmap <;> subst hmap
  · rename_i hpending
    exact ⟨rfl, rfl, .inl ⟨hpending, rfl⟩⟩
  · rename_i hpending
    exact ⟨rfl, rfl, .inr ⟨hpending, rfl⟩⟩

theorem Sound.drain {C : Calls κ μ ρ} (h : C.Sound) (answer : μ) : (C.drain answer).Sound := by
  refine ⟨?_, ?_⟩
  · intro k i hi
    cases hi
  intro i c' hc' hempty
  obtain ⟨c, hc, -, -, ⟨-, hnow⟩ | ⟨hpending, hsame⟩⟩ := drain_get hc'
  · rw [hnow] at hempty
    cases hempty
  · exact absurd (h.empty i c hc (hsame.symm.trans hempty)) hpending

theorem move_get {C : Calls κ μ ρ} {j i : Nat} {phase : CallPhase ρ} {c' : Call κ μ ρ}
    (h : (C.move j phase).calls[i]? = some c') :
    ∃ c, C.calls[i]? = some c ∧ c'.key = c.key ∧ c'.channel = c.channel ∧
      ((i = j ∧ c'.phase = phase) ∨ (i ≠ j ∧ c'.phase = c.phase)) := by
  rw [move, List.getElem?_modify] at h
  obtain ⟨c, hc, hmod⟩ := Option.map_eq_some_iff.mp h
  refine ⟨c, hc, ?_⟩
  by_cases hij : j = i
  · rw [if_pos hij] at hmod
    subst hmod
    exact ⟨rfl, rfl, .inl ⟨hij.symm, rfl⟩⟩
  · rw [if_neg hij] at hmod
    subst hmod
    exact ⟨rfl, rfl, .inr ⟨Ne.symm hij, rfl⟩⟩

theorem Sound.move {C : Calls κ μ ρ} (h : C.Sound) (j : Nat) (phase : CallPhase ρ) :
    (C.move j phase).Sound := by
  refine ⟨?_, ?_⟩
  · intro k i hi
    obtain ⟨c, hc, hkey, hempty⟩ := h.held k i hi
    refine ⟨if j = i then { c with phase := phase } else c, ?_, ?_, ?_⟩
    · rw [Calls.move, List.getElem?_modify, hc]
      split <;> rfl
    · split <;> exact hkey
    · split <;> exact hempty
  · intro i c' hc' hempty
    obtain ⟨c, hc, hkey, hchannel, -⟩ := move_get hc'
    rw [hkey]
    exact h.empty i c hc (hchannel.symm.trans hempty)

section Keyed

variable [DecidableEq κ]

/-- The end under a key is taken out, and its channel left as given. -/
def settle (C : Calls κ μ ρ) (k : κ) (channel : Channel μ) : Calls κ μ ρ :=
  match C.pending k with
  | none => C
  | some i =>
      { pending := Function.update C.pending k none
        calls := C.calls.modify i fun c => { c with channel := channel } }

def register (C : Calls κ μ ρ) (k : κ) : Calls κ μ ρ :=
  let C := C.settle k .closed
  { pending := Function.update C.pending k (some C.calls.length)
    calls := C.calls ++ [⟨k, .empty, .sending⟩] }

/-- What taking an end out does to a call. -/
structure Settles (C : Calls κ μ ρ) (k : κ) (channel : Channel μ) (i : Nat)
    (c c' : Call κ μ ρ) : Prop where
  key : c'.key = c.key
  phase : c'.phase = c.phase
  channel : (C.pending k = some i ∧ c'.channel = channel) ∨
    (C.pending k ≠ some i ∧ c'.channel = c.channel)

theorem settle_get {C : Calls κ μ ρ} {k : κ} {channel : Channel μ} {i : Nat} {c' : Call κ μ ρ}
    (h : (C.settle k channel).calls[i]? = some c') :
    ∃ c, C.calls[i]? = some c ∧ Settles C k channel i c c' := by
  rw [settle] at h
  split at h
  · rename_i hnone
    exact ⟨c', h, rfl, rfl, .inr ⟨by rw [hnone]; exact Option.some_ne_none i ∘ Eq.symm, rfl⟩⟩
  · rename_i j hj
    rw [List.getElem?_modify] at h
    obtain ⟨c, hc, hmod⟩ := Option.map_eq_some_iff.mp h
    refine ⟨c, hc, ?_⟩
    by_cases hij : j = i
    · rw [if_pos hij] at hmod
      subst hmod
      exact ⟨rfl, rfl, .inl ⟨by rw [hj, hij], rfl⟩⟩
    · rw [if_neg hij] at hmod
      subst hmod
      refine ⟨rfl, rfl, .inr ⟨?_, rfl⟩⟩
      rw [hj]
      exact fun heq => hij (Option.some.inj heq)

theorem settle_pending (C : Calls κ μ ρ) (k : κ) (channel : Channel μ) :
    (C.settle k channel).pending = Function.update C.pending k none := by
  rw [settle]
  split
  · rename_i hnone
    rw [← hnone, Function.update_eq_self]
  · rfl

/-- The other calls stay as they are. -/
theorem settle_other {C : Calls κ μ ρ} {k : κ} (channel : Channel μ) {i : Nat}
    (hi : C.pending k ≠ some i) : (C.settle k channel).calls[i]? = C.calls[i]? := by
  rw [settle]
  split
  · rfl
  · rename_i j hj
    have hij : j ≠ i := fun heq => hi (heq ▸ hj)
    rw [List.getElem?_modify]
    simp only [hij, if_false]
    exact Option.map_id'

theorem Sound.settle {C : Calls κ μ ρ} (h : C.Sound) (k : κ) {channel : Channel μ}
    (hchannel : channel ≠ .empty) : (C.settle k channel).Sound := by
  refine ⟨?_, ?_⟩
  · intro k' i hi
    rw [settle_pending] at hi
    by_cases hk : k' = k
    · rw [hk, Function.update_self] at hi
      cases hi
    · rw [Function.update_of_ne hk] at hi
      have hother : C.pending k ≠ some i := fun hsame => hk (h.key_of_pending hi hsame)
      obtain ⟨c, hc, hfacts⟩ := h.held k' i hi
      exact ⟨c, (settle_other channel hother).trans hc, hfacts⟩
  · intro i c' hc' hempty
    obtain ⟨c, hc, hsettles⟩ := settle_get hc'
    obtain ⟨-, hnow⟩ | ⟨hpending, hsame⟩ := hsettles.channel
    · exact absurd (hnow.symm.trans hempty) hchannel
    · have hold := h.empty i c hc (hsame.symm.trans hempty)
      rw [settle_pending, hsettles.key, Function.update_of_ne, hold]
      rintro hkey
      rw [hkey] at hold
      exact hpending hold

theorem register_get {C : Calls κ μ ρ} {k : κ} {i : Nat} {c' : Call κ μ ρ}
    (h : (C.register k).calls[i]? = some c') :
    (∃ c, C.calls[i]? = some c ∧ Settles C k .closed i c c') ∨
      (i = C.calls.length ∧ c' = ⟨k, .empty, .sending⟩) := by
  rw [register] at h
  have hlength : (C.settle k .closed).calls.length = C.calls.length := by
    rw [settle]
    split
    · rfl
    · exact List.length_modify _ _ _
  rcases Nat.lt_or_ge i C.calls.length with hlt | hge
  · rw [List.getElem?_append_left (hlength ▸ hlt)] at h
    exact .inl (settle_get h)
  · rw [List.getElem?_append_right (hlength ▸ hge), List.getElem?_singleton] at h
    split at h
    · rename_i hzero
      refine .inr ⟨?_, (Option.some.inj h).symm⟩
      rw [hlength] at hzero
      exact Nat.le_antisymm (Nat.sub_eq_zero_iff_le.mp hzero) hge
    · cases h

theorem Sound.register {C : Calls κ μ ρ} (h : C.Sound) (k : κ) : (C.register k).Sound := by
  have hsettled : (C.settle k .closed).Sound := h.settle k (by nofun)
  have hfree : (C.settle k .closed).pending k = none := by
    rw [settle_pending, Function.update_self]
  rw [Calls.register]
  generalize C.settle k .closed = D at hsettled hfree
  refine ⟨?_, ?_⟩
  · intro k' i hi
    by_cases hk : k' = k
    · subst hk
      have hi := Option.some.inj ((Function.update_self k' _ _).symm.trans hi)
      exact ⟨_, by rw [← hi, List.getElem?_concat_length], rfl, rfl⟩
    · obtain ⟨c, hc, hfacts⟩ := hsettled.held k' i ((Function.update_of_ne hk _ _).symm.trans hi)
      exact ⟨c, List.getElem?_append_left (List.getElem?_eq_some_iff.mp hc).1 ▸ hc, hfacts⟩
  · intro i c hc hempty
    rcases Nat.lt_or_ge i D.calls.length with hlt | hge
    · have hold := hsettled.empty i c ((List.getElem?_append_left hlt).symm.trans hc) hempty
      have hk : c.key ≠ k := by
        intro hkey
        rw [hkey, hfree] at hold
        cases hold
      exact (Function.update_of_ne hk _ _).trans hold
    · rw [List.getElem?_append_right hge, List.getElem?_singleton] at hc
      split at hc
      · rename_i hzero
        cases hc
        rw [Nat.le_antisymm (Nat.sub_eq_zero_iff_le.mp hzero) hge]
        exact Function.update_self _ _ _
      · cases hc

end Keyed

end Calls

end AgentGrid.Foundation
