import Mathlib.Data.List.Induction
import Mathlib.Logic.Basic

/-!
# Labelled runs

A transition system is a relation `step s a t`: in state `s` the event `a`
may lead to `t`.  `Runs` is its reflexive and transitive closure with the
events kept, and `During` restricts a system to the steps that meet a
condition on the state before the step.
-/

namespace AgentGrid.Foundation

variable {σ ℓ : Type}

inductive Runs (step : σ → ℓ → σ → Prop) : σ → List ℓ → σ → Prop
  | refl (s : σ) : Runs step s [] s
  | next {s t u : σ} {a : ℓ} {as : List ℓ} :
      step s a t → Runs step t as u → Runs step s (a :: as) u

def During (step : σ → ℓ → σ → Prop) (cond : σ → ℓ → Prop) :
    σ → ℓ → σ → Prop :=
  fun s a t => step s a t ∧ cond s a

namespace Runs

variable {step : σ → ℓ → σ → Prop}

theorem single {s t : σ} {a : ℓ} (h : step s a t) : Runs step s [a] t :=
  .next h (.refl t)

theorem trans {s t u : σ} {as bs : List ℓ} (first : Runs step s as t)
    (second : Runs step t bs u) : Runs step s (as ++ bs) u := by
  induction first with
  | refl => exact second
  | next hstep _ ih => exact .next hstep (ih second)

theorem append_inv {s u : σ} {as bs : List ℓ} (h : Runs step s (as ++ bs) u) :
    ∃ t, Runs step s as t ∧ Runs step t bs u := by
  induction as generalizing s with
  | nil => exact ⟨s, .refl s, h⟩
  | cons a as ih =>
      cases h with
      | next hstep hrest =>
          obtain ⟨t, hfirst, hsecond⟩ := ih hrest
          exact ⟨t, .next hstep hfirst, hsecond⟩

/-- What every step preserves holds at the end of every run. -/
theorem invariant (I : σ → Prop)
    (hstep : ∀ {s a t}, I s → step s a t → I t)
    {s t : σ} {as : List ℓ} (h : Runs step s as t) (hs : I s) : I t := by
  induction h with
  | refl => exact hs
  | next hfirst _ ih => exact ih (hstep hs hfirst)

/-- An invariant that may speak of the events so far. -/
theorem history {s : σ} (P : List ℓ → σ → Prop) (hs : P [] s)
    (hstep : ∀ {as t a u}, Runs step s as t → P as t → step t a u → P (as ++ [a]) u)
    {t : σ} {as : List ℓ} (h : Runs step s as t) : P as t := by
  induction as using List.reverseRecOn generalizing t with
  | nil =>
      cases h
      exact hs
  | append_singleton as a ih =>
      obtain ⟨u, hfirst, hlast⟩ := h.append_inv
      cases hlast with
      | next hlast hrest =>
          cases hrest
          exact hstep hfirst (ih hfirst) hlast

theorem mono {step' : σ → ℓ → σ → Prop}
    (hsub : ∀ {s a t}, step s a t → step' s a t)
    {s t : σ} {as : List ℓ} (h : Runs step s as t) : Runs step' s as t := by
  induction h with
  | refl s => exact .refl s
  | next hfirst _ ih => exact .next (hsub hfirst) ih

/-- The run of a function over its events. -/
theorem foldl (f : σ → ℓ → σ) (s : σ) (as : List ℓ) :
    Runs (fun s a t => t = f s a) s as (as.foldl f s) := by
  induction as generalizing s with
  | nil => exact .refl s
  | cons a as ih => exact .next rfl (ih (f s a))

/-- The run of a partial function whose events all meet a condition. -/
theorem foldlM {f : σ → ℓ → Option σ} {cond : σ → ℓ → Bool} {s t : σ} {as : List ℓ}
    (h : as.foldlM (fun s a => if cond s a then f s a else none) s = some t) :
    Runs (During (fun s a t => f s a = some t) fun s a => cond s a = true) s as t := by
  induction as generalizing s with
  | nil =>
      obtain rfl : s = t := by simpa using h
      exact .refl s
  | cons a as ih =>
      rw [List.foldlM_cons] at h
      obtain ⟨u, hfirst, hrest⟩ := Option.bind_eq_some_iff.mp h
      split at hfirst
      · rename_i hcond
        exact .next ⟨hfirst, hcond⟩ (ih hrest)
      · cases hfirst

theorem of_foldlM {f : σ → ℓ → Option σ} {s t : σ} {as : List ℓ}
    (h : as.foldlM f s = some t) : Runs (fun s a t => f s a = some t) s as t := by
  have hrun : Runs (During (fun s a t => f s a = some t) fun _ _ => true = true) s as t :=
    foldlM (by simpa using h)
  exact hrun.mono fun hstep => hstep.1

/-- A partial function follows the only run of its events. -/
theorem foldlM_eq {f : σ → ℓ → Option σ} {s t : σ} {as : List ℓ}
    (h : Runs (fun s a t => f s a = some t) s as t) : as.foldlM f s = some t := by
  induction h with
  | refl => rfl
  | next hstep _ ih => rw [List.foldlM_cons, hstep, Option.bind_eq_bind, Option.bind_some, ih]

end Runs

end AgentGrid.Foundation
