import AgentGrid.Foundation.Pool

/-!
# Threads of a pool

Rules about the single programs of a pool.  `Ensures` is parallel composition
with a postcondition: what a program answers holds of every later state.  `Each`
reads a program step by step, and `owned` lists what the programs of a pool own.
-/

namespace AgentGrid.Foundation

variable {ω : Type} {ρ : ω → Type} {κ α σ ι γ ε β : Type}

/-- Every operation the program can ask for, every reply, and what follows it. -/
def Prog.Each (φ : (op : ω) → ρ op → Prog ω ρ κ α → Prop) : Prog ω ρ κ α → Prop
  | .ret _ => True
  | .call _ op next => ∀ reply, φ op reply (next reply) ∧ (next reply).Each φ

theorem Prog.bind_assoc {δ : Type} (p : Prog ω ρ κ α) (f : α → Prog ω ρ κ β)
    (g : β → Prog ω ρ κ δ) : (p.bind f).bind g = p.bind fun value => (f value).bind g := by
  induction p with
  | ret value => rfl
  | call keys op next ih => simp only [Prog.call_bind, ih]

namespace Pool

variable {R : Rules ω ρ κ α σ ι γ ε} {T : Prog.Terms ω κ σ ι} {I : σ → Prop}
  {post : α → σ → Prop}

/-- `Kept` with a postcondition. -/
structure Ensures (R : Rules ω ρ κ α σ ι γ ε) (T : Prog.Terms ω κ σ ι) (I : σ → Prop)
    (post : α → σ → Prop) : Prop where
  trans : ∀ {keys s s' s''}, T.rely keys s s' → T.rely keys s' s'' → T.rely keys s s''
  program : ∀ call s, I s → (R.program call).Meets R.run T post s
  duty : ∀ {keys op input keys' s s'}, T.duty keys op input keys' s s' →
    I s' ∧ ∀ keys, T.rely keys s s'
  other : ∀ {event s s'}, I s → R.other event s = some s' → I s' ∧ ∀ keys, T.rely keys s s'
  refl : ∀ keys s, T.rely keys s s

structure Stands (R : Rules ω ρ κ α σ ι γ ε) (T : Prog.Terms ω κ σ ι) (I : σ → Prop)
    (post : α → σ → Prop) (P : Pool ω ρ κ α σ) : Prop where
  state : I P.state
  threads : ∀ p ∈ P.threads, p.Meets R.run T post P.state

theorem Stands.step (hR : Ensures R T I post) {P P' : Pool ω ρ κ α σ} {e : Event γ ε ι}
    (hP : Stands R T I post P) (h : Steps R P e P') (hgrant : P.granted T e) :
    Stands R T I post P' := by
  rcases step_cases h with ⟨call, rfl, rfl⟩ | ⟨i, input, keys, op, next, rfl, hcall, rfl⟩ |
    ⟨i, rfl, rfl⟩ | ⟨event, s, rfl, hs, rfl⟩
  · refine ⟨hP.state, fun p hp => ?_⟩
    rcases List.mem_append.mp hp with hp | hp
    · exact hP.threads p hp
    · rw [List.mem_singleton.mp hp]
      exact hR.program call _ hP.state
  · have hmeets := hP.threads _ (List.mem_of_getElem? hcall) P.state (hR.refl keys P.state)
    have hrun := hmeets.2 input (hgrant keys op next hcall)
    have hduty := hR.duty hrun.1
    refine ⟨hduty.1, fun p hp => ?_⟩
    rcases List.mem_or_eq_of_mem_set hp with hp | rfl
    · exact (hP.threads p hp).stable hR.trans (hduty.2 _)
    · exact hrun.2
  · exact ⟨hP.state, fun p hp => hP.threads p (List.mem_of_mem_eraseIdx hp)⟩
  · have hother := hR.other hP.state hs
    exact ⟨hother.1, fun p hp => (hP.threads p hp).stable hR.trans (hother.2 _)⟩

theorem Stands.run (hR : Ensures R T I post) {P P' : Pool ω ρ κ α σ} {es : List (Event γ ε ι)}
    (h : Runs (During (Steps R) (granted T)) P es P') (hP : Stands R T I post P) :
    Stands R T I post P' :=
  h.invariant (Stands R T I post) (fun hP hstep => hP.step hR hstep.1 hstep.2) hP

theorem Stands.answer (hR : Ensures R T I post) {P : Pool ω ρ κ α σ}
    (hP : Stands R T I post P) {value : α} (h : .ret value ∈ P.threads) : post value P.state :=
  hP.threads _ h P.state (hR.refl [] P.state)

theorem each_step {φ : (op : ω) → ρ op → Prog ω ρ κ α → Prop}
    (hprogram : ∀ call, (R.program call).Each φ) {P P' : Pool ω ρ κ α σ} {e : Event γ ε ι}
    (hP : ∀ p ∈ P.threads, p.Each φ) (h : Steps R P e P') : ∀ p ∈ P'.threads, p.Each φ := by
  rcases step_cases h with ⟨call, rfl, rfl⟩ | ⟨i, input, keys, op, next, rfl, hcall, rfl⟩ |
    ⟨i, rfl, rfl⟩ | ⟨event, s, rfl, hs, rfl⟩
  · intro p hp
    rcases List.mem_append.mp hp with hp | hp
    · exact hP p hp
    · rw [List.mem_singleton.mp hp]
      exact hprogram call
  · intro p hp
    rcases List.mem_or_eq_of_mem_set hp with hp | rfl
    · exact hP p hp
    · exact (hP _ (List.mem_of_getElem? hcall) _).2
  · exact fun p hp => hP p (List.mem_of_mem_eraseIdx hp)
  · exact hP

/-! ## What the programs own -/

def owned (own : Prog ω ρ κ α → Option β) (P : Pool ω ρ κ α σ) : List β :=
  P.threads.filterMap own

theorem nodup_filterMap_set {α β : Type} {f : α → Option β} {xs : List α} {i : Nat} {x : α}
    (y : α) (hx : xs[i]? = some x) (hxs : (xs.filterMap f).Nodup)
    (hy : ∀ b, f y = some b → f x = some b ∨ b ∉ xs.filterMap f) :
    ((xs.set i y).filterMap f).Nodup := by
  induction xs generalizing i with
  | nil => simp at hx
  | cons z xs ih =>
      cases i with
      | zero =>
          obtain rfl : z = x := by simpa using hx
          cases hfy : f y with
          | none =>
              cases hfz : f z <;> simp_all
          | some b =>
              have hb := hy b hfy
              cases hfz : f z with
              | none => simp_all
              | some c =>
                  simp only [List.filterMap_cons_some hfz, List.nodup_cons, List.mem_cons,
                    not_or] at hxs hb
                  simp only [List.set_cons_zero, List.filterMap_cons_some hfy, List.nodup_cons]
                  rcases hb with hb | hb
                  · cases hfz.symm.trans hb
                    exact hxs
                  · exact ⟨hb.2, hxs.2⟩
      | succ i =>
          rw [List.getElem?_cons_succ] at hx
          have hmem : ∀ b, b ∈ (xs.set i y).filterMap f → f y = some b ∨ b ∈ xs.filterMap f := by
            intro b hb
            obtain ⟨w, hw, hfw⟩ := List.mem_filterMap.mp hb
            rcases List.mem_or_eq_of_mem_set hw with hw | rfl
            · exact .inr (List.mem_filterMap.mpr ⟨w, hw, hfw⟩)
            · exact .inl hfw
          have hrest : ∀ b, f y = some b → f x = some b ∨ b ∉ xs.filterMap f := by
            intro b hb
            refine (hy b hb).imp_right fun hnot hin => hnot ?_
            obtain ⟨w, hw, hfw⟩ := List.mem_filterMap.mp hin
            exact List.mem_filterMap.mpr ⟨w, List.mem_cons_of_mem _ hw, hfw⟩
          rw [List.set_cons_succ]
          cases hfz : f z with
          | none =>
              rw [List.filterMap_cons_none hfz] at hxs ⊢
              exact ih hx hxs hrest
          | some c =>
              rw [List.filterMap_cons_some hfz, List.nodup_cons] at hxs ⊢
              refine ⟨fun hc => ?_, ih hx hxs.2 hrest⟩
              rcases hmem c hc with hc | hc
              · rcases hy c hc with hc | hc
                · exact hxs.1 (List.mem_filterMap.mpr ⟨x, List.mem_of_getElem? hx, hc⟩)
                · exact hc (List.mem_filterMap.mpr ⟨z, List.mem_cons_self, hfz⟩)
              · exact hxs.1 hc

theorem owned_unique {own : Prog ω ρ κ α → Option β} {P : Pool ω ρ κ α σ}
    (h : (P.owned own).Nodup) {i j : Nat} {p q : Prog ω ρ κ α} {b : β}
    (hi : P.threads[i]? = some p) (hj : P.threads[j]? = some q) (hp : own p = some b)
    (hq : own q = some b) : i = j := by
  rw [owned, List.Nodup, List.pairwise_filterMap, List.pairwise_iff_getElem] at h
  obtain ⟨hi', rfl⟩ := List.getElem?_eq_some_iff.mp hi
  obtain ⟨hj', rfl⟩ := List.getElem?_eq_some_iff.mp hj
  rcases Nat.lt_trichotomy i j with hlt | heq | hlt
  · exact absurd rfl (h i j hi' hj' hlt b hp b hq)
  · exact heq
  · exact absurd rfl (h j i hj' hi' hlt b hq b hp)

/-- Distinct owners stay distinct when a program comes to own only what nobody
owned. -/
theorem owned_step {own : Prog ω ρ κ α → Option β} (hstart : ∀ call, own (R.program call) = none)
    {P P' : Pool ω ρ κ α σ} {e : Event γ ε ι} (hP : (P.owned own).Nodup) (h : Steps R P e P')
    (hnew : ∀ (i : Nat) input keys op next, P.threads[i]? = some (Prog.call keys op next) →
      ∀ b, own (next (R.run input op P.state).2) = some b →
        own (Prog.call keys op next) = some b ∨ b ∉ P.owned own) : (P'.owned own).Nodup := by
  rcases step_cases h with ⟨call, rfl, rfl⟩ | ⟨i, input, keys, op, next, rfl, hcall, rfl⟩ |
    ⟨i, rfl, rfl⟩ | ⟨event, s, rfl, hs, rfl⟩
  · simpa [owned, hstart] using hP
  · exact nodup_filterMap_set _ hcall hP (hnew i input keys op next hcall)
  · exact hP.sublist ((List.eraseIdx_sublist _ _).filterMap _)
  · exact hP

end Pool

end AgentGrid.Foundation
