import AgentGrid.Foundation.Resumption

/-!
# Pools of programs

Programs that work on one state, an operation at a time and in any order.  A
program may be lost between two operations, and the state may also change by
events of its own.  `Pool.Kept` is the rule of parallel composition: programs
that meet their terms from every state of an invariant keep the invariant
together, as long as every operation is granted what its program assumes.
-/

namespace AgentGrid.Foundation

variable {ω : Type} {ρ : ω → Type} {κ α σ ι γ ε : Type}

structure Pool (ω : Type) (ρ : ω → Type) (κ α σ : Type) where
  state : σ
  threads : List (Prog ω ρ κ α) := []

namespace Pool

inductive Event (γ ε ι : Type)
  | start (call : γ)
  | advance (i : Nat) (input : ι)
  | abandon (i : Nat)
  | other (event : ε)

/-- What a call runs, what an operation does, and the events beside the calls. -/
structure Rules (ω : Type) (ρ : ω → Type) (κ α σ ι γ ε : Type) where
  program : γ → Prog ω ρ κ α
  run : ι → (op : ω) → σ → σ × ρ op
  other : ε → σ → Option σ

variable {R : Rules ω ρ κ α σ ι γ ε}

def step (R : Rules ω ρ κ α σ ι γ ε) (P : Pool ω ρ κ α σ) :
    Event γ ε ι → Option (Pool ω ρ κ α σ)
  | .start call => some { P with threads := P.threads ++ [R.program call] }
  | .advance i input =>
      match P.threads[i]? with
      | some (.call _ op next) =>
          some ⟨(R.run input op P.state).1, P.threads.set i (next (R.run input op P.state).2)⟩
      | some (.ret _) | none => none
  | .abandon i => some { P with threads := P.threads.eraseIdx i }
  | .other event => (R.other event P.state).map fun s => { P with state := s }

def Steps (R : Rules ω ρ κ α σ ι γ ε) (P : Pool ω ρ κ α σ) (e : Event γ ε ι)
    (P' : Pool ω ρ κ α σ) : Prop :=
  P.step R e = some P'

/-- No call is in progress. -/
def quiet (P : Pool ω ρ κ α σ) : Bool := P.threads.all fun p => p.pending.isNone

/-- The operation that an event runs is granted what its program assumes. -/
def granted (T : Prog.Terms ω κ σ ι) (P : Pool ω ρ κ α σ) : Event γ ε ι → Prop
  | .advance i input => ∀ keys op next, P.threads[i]? = some (.call keys op next) →
      T.grant keys op input P.state
  | _ => True

theorem step_cases {P P' : Pool ω ρ κ α σ} {e : Event γ ε ι} (h : Steps R P e P') :
    (∃ call, e = .start call ∧ P' = { P with threads := P.threads ++ [R.program call] }) ∨
    (∃ i input keys op next, e = .advance i input ∧
      P.threads[i]? = some (.call keys op next) ∧
      P' = ⟨(R.run input op P.state).1, P.threads.set i (next (R.run input op P.state).2)⟩) ∨
    (∃ i, e = .abandon i ∧ P' = { P with threads := P.threads.eraseIdx i }) ∨
    ∃ event s, e = .other event ∧ R.other event P.state = some s ∧
      P' = { P with state := s } := by
  unfold Steps at h
  cases e with
  | start call =>
      cases h
      exact .inl ⟨call, rfl, rfl⟩
  | advance i input =>
      simp only [step] at h
      split at h
      · rename_i keys op next hcall
        cases h
        exact .inr (.inl ⟨i, input, keys, op, next, rfl, hcall, rfl⟩)
      · cases h
      · cases h
  | abandon i =>
      cases h
      exact .inr (.inr (.inl ⟨i, rfl, rfl⟩))
  | other event =>
      obtain ⟨s, hs, rfl⟩ := Option.map_eq_some_iff.mp h
      exact .inr (.inr (.inr ⟨event, s, rfl, hs, rfl⟩))

/-- A step changes the state by the operation of a program or by an event of
its own. -/
theorem state_cases {P P' : Pool ω ρ κ α σ} {e : Event γ ε ι} (h : Steps R P e P') :
    P'.state = P.state ∨
    (∃ i input keys op next, e = .advance i input ∧
      P.threads[i]? = some (.call keys op next) ∧ P'.state = (R.run input op P.state).1) ∨
    ∃ event, R.other event P.state = some P'.state := by
  obtain ⟨_, rfl, rfl⟩ | ⟨i, input, keys, op, next, rfl, hcall, rfl⟩ | ⟨_, rfl, rfl⟩ |
    ⟨event, s, rfl, hs, rfl⟩ := step_cases h
  · exact .inl rfl
  · exact .inr (.inl ⟨i, input, keys, op, next, rfl, hcall, rfl⟩)
  · exact .inl rfl
  · exact .inr (.inr ⟨event, hs⟩)

/-- The programs of the rules meet their terms from every state of the
invariant, and what one of them owes is what the others rely on. -/
structure Kept (R : Rules ω ρ κ α σ ι γ ε) (T : Prog.Terms ω κ σ ι) (I : σ → Prop) :
    Prop where
  trans : ∀ {keys s s' s''}, T.rely keys s s' → T.rely keys s' s'' → T.rely keys s s''
  program : ∀ call s, I s → (R.program call).Meets R.run T (fun _ _ => True) s
  duty : ∀ {keys op input keys' s s'}, T.duty keys op input keys' s s' →
    I s' ∧ ∀ keys, T.rely keys s s'
  other : ∀ {event s s'}, I s → R.other event s = some s' → I s' ∧ ∀ keys, T.rely keys s s'
  refl : ∀ keys s, T.rely keys s s

structure Fits (R : Rules ω ρ κ α σ ι γ ε) (T : Prog.Terms ω κ σ ι) (I : σ → Prop)
    (P : Pool ω ρ κ α σ) : Prop where
  state : I P.state
  threads : ∀ p ∈ P.threads, p.Meets R.run T (fun _ _ => True) P.state

variable {T : Prog.Terms ω κ σ ι} {I : σ → Prop}

theorem Fits.step (hR : Kept R T I) {P P' : Pool ω ρ κ α σ} {e : Event γ ε ι}
    (hP : Fits R T I P) (h : Steps R P e P') (hgrant : P.granted T e) : Fits R T I P' := by
  obtain ⟨call, rfl, rfl⟩ | ⟨i, input, keys, op, next, rfl, hcall, rfl⟩ | ⟨i, rfl, rfl⟩ |
    ⟨event, s, rfl, hs, rfl⟩ := step_cases h
  · refine ⟨hP.state, fun p hp => ?_⟩
    rcases List.mem_append.mp hp with hp | hp
    · exact hP.threads p hp
    · rw [List.mem_singleton.mp hp]
      exact hR.program call _ hP.state
  · have hmeets := hP.threads _ (List.mem_of_getElem? hcall)
    obtain ⟨_, hrun⟩ := hmeets P.state (hR.refl keys P.state)
    obtain ⟨hduty, hnext⟩ := hrun input (hgrant keys op next hcall)
    obtain ⟨hstate, hrely⟩ := hR.duty hduty
    refine ⟨hstate, fun p hp => ?_⟩
    rcases List.mem_or_eq_of_mem_set hp with hp | rfl
    · exact (hP.threads p hp).stable hR.trans (hrely _)
    · exact hnext
  · refine ⟨hP.state, fun p hp => hP.threads p ?_⟩
    exact List.mem_of_mem_eraseIdx hp
  · obtain ⟨hstate, hrely⟩ := hR.other hP.state hs
    exact ⟨hstate, fun p hp => (hP.threads p hp).stable hR.trans (hrely _)⟩

theorem Fits.run (hR : Kept R T I) {P P' : Pool ω ρ κ α σ} {es : List (Event γ ε ι)}
    (h : Runs (During (Steps R) (granted T)) P es P') (hP : Fits R T I P) : Fits R T I P' :=
  h.invariant (Fits R T I) (fun hP hstep => hP.step hR hstep.1 hstep.2) hP

end Pool

end AgentGrid.Foundation
