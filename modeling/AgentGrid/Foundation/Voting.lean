import Mathlib.Data.Finset.Card
import Mathlib.Order.Defs.PartialOrder

/-!
# Registers of votes

A voter keeps one register: its term and the candidate it voted for in that
term.  A register may only advance, to a later term or, within the term, from
no vote to a vote.  The log of all votes ever written into advancing registers
names one candidate for each voter and term, so that two majorities of one
term elect the same candidate.
-/

namespace AgentGrid.Foundation

structure Register (κ : Type) where
  term : Nat
  vote : Option κ
deriving DecidableEq

structure Vote (ν κ : Type) where
  voter : ν
  term : Nat
  candidate : κ
deriving DecidableEq

variable {ν κ : Type}

namespace Register

/-- A later term, or the same term with no vote taken back. -/
def Advances (r r' : Register κ) : Prop :=
  r.term < r'.term ∨ (r.term = r'.term ∧ (r.vote = none ∨ r.vote = r'.vote))

instance : Preorder (Register κ) where
  le := Advances
  le_refl r := .inr ⟨rfl, .inr rfl⟩
  le_trans := by
    rintro r s t (hrs | ⟨hrs, hvote⟩) (hst | ⟨hst, hvote'⟩)
    · exact .inl (hrs.trans hst)
    · exact .inl (hst ▸ hrs)
    · exact .inl (hrs ▸ hst)
    · refine .inr ⟨hrs.trans hst, ?_⟩
      rcases hvote with hnone | heq
      · exact .inl hnone
      · rw [heq]
        exact hvote'

instance [DecidableEq κ] : DecidableLE (Register κ) := fun r r' =>
  inferInstanceAs (Decidable (r.term < r'.term ∨
    (r.term = r'.term ∧ (r.vote = none ∨ r.vote = r'.vote))))

variable {r r' : Register κ}

theorem term_le (h : r ≤ r') : r.term ≤ r'.term := by
  rcases h with hlt | ⟨heq, _⟩
  · exact hlt.le
  · exact heq.le

theorem le_of_term_lt (h : r.term < r'.term) : r ≤ r' := .inl h

/-- A register that advanced within its term kept its vote. -/
theorem vote_of_le (h : r ≤ r') (hterm : r'.term = r.term) {c : κ}
    (hc : r.vote = some c) : r'.vote = some c := by
  rcases h with hlt | ⟨_, hnone | hvote⟩
  · exact absurd hterm hlt.ne'
  · rw [hc] at hnone
    cases hnone
  · rw [← hvote, hc]

end Register

/-! ## The log -/

structure Logged (reg : ν → Register κ) (log : List (Vote ν κ)) : Prop where
  past : ∀ v ∈ log, (⟨v.term, some v.candidate⟩ : Register κ) ≤ reg v.voter
  once : ∀ v ∈ log, ∀ w ∈ log, v.voter = w.voter → v.term = w.term →
    v.candidate = w.candidate

namespace Logged

variable {reg reg' : ν → Register κ} {log : List (Vote ν κ)}

theorem nil (reg : ν → Register κ) : Logged reg [] := by
  constructor <;> simp

theorem advance (h : Logged reg log) (hle : ∀ v, reg v ≤ reg' v) : Logged reg' log where
  past v hv := (h.past v hv).trans (hle v.voter)
  once := h.once

/-- The vote a register shows may be written into the log. -/
theorem write (h : Logged reg log) {voter : ν} {c : κ}
    (hc : (reg voter).vote = some c) :
    Logged reg (⟨voter, (reg voter).term, c⟩ :: log) where
  past v hv := by
    rcases List.mem_cons.mp hv with rfl | hold
    · exact .inr ⟨rfl, .inr hc.symm⟩
    · exact h.past v hold
  once v hv w hw hvoter hterm := by
    have hshown : ∀ u ∈ log, u.voter = voter → u.term = (reg voter).term →
        u.candidate = c := by
      intro u hu hid ht
      have hpast := h.past u hu
      rw [hid] at hpast
      have hkept := Register.vote_of_le hpast ht.symm rfl
      rw [hc] at hkept
      exact (Option.some.inj hkept).symm
    rcases List.mem_cons.mp hv with rfl | hv'
    · rcases List.mem_cons.mp hw with rfl | hw'
      · rfl
      · exact (hshown w hw' hvoter.symm hterm.symm).symm
    · rcases List.mem_cons.mp hw with rfl | hw'
      · exact hshown v hv' hvoter hterm
      · exact h.once v hv' w hw' hvoter hterm

end Logged

/-! ## Majorities -/

section Majority

/-- `quorum` is a majority of `voters` each of which voted for the candidate in
the term. -/
structure Backs (voters : Finset ν) (log : List (Vote ν κ)) (term : Nat) (c : κ)
    (quorum : Finset ν) : Prop where
  voters : quorum ⊆ voters
  votes : ∀ v ∈ quorum, ⟨v, term, c⟩ ∈ log

def Elected (voters : Finset ν) (log : List (Vote ν κ)) (term : Nat) (c : κ) : Prop :=
  ∃ quorum, Backs voters log term c quorum ∧ voters.card < 2 * quorum.card

variable {voters : Finset ν} {log : List (Vote ν κ)} {term : Nat} {c d : κ}

theorem Backs.mono {log' : List (Vote ν κ)} (hsub : log ⊆ log') {quorum : Finset ν}
    (h : Backs voters log term c quorum) : Backs voters log' term c quorum where
  voters := h.voters
  votes v hv := hsub (h.votes v hv)

theorem Backs.insert [DecidableEq ν] {quorum : Finset ν} (h : Backs voters log term c quorum) {v : ν}
    (hv : v ∈ voters) (hvote : ⟨v, term, c⟩ ∈ log) :
    Backs voters log term c (insert v quorum) where
  voters := Finset.insert_subset hv h.voters
  votes w hw := by
    rcases Finset.mem_insert.mp hw with rfl | hold
    · exact hvote
    · exact h.votes w hold

theorem Elected.mono {log' : List (Vote ν κ)} (hsub : log ⊆ log')
    (h : Elected voters log term c) : Elected voters log' term c := by
  obtain ⟨quorum, hbacks, hcard⟩ := h
  exact ⟨quorum, hbacks.mono hsub, hcard⟩

/-- Two majorities of one term have a voter in common, which voted once. -/
theorem Elected.unique [DecidableEq ν] {reg : ν → Register κ} (hlog : Logged reg log)
    (hc : Elected voters log term c) (hd : Elected voters log term d) : c = d := by
  obtain ⟨qc, hqc, hcardc⟩ := hc
  obtain ⟨qd, hqd, hcardd⟩ := hd
  have hcard : voters.card < qc.card + qd.card := by omega
  obtain ⟨v, hv⟩ :=
    Finset.inter_nonempty_of_card_lt_card_add_card hqc.voters hqd.voters hcard
  obtain ⟨hvc, hvd⟩ := Finset.mem_inter.mp hv
  exact hlog.once _ (hqc.votes v hvc) _ (hqd.votes v hvd) rfl rfl

end Majority

end AgentGrid.Foundation
