import AgentGrid.Foundation.Transition
import Mathlib.Data.List.Basic

/-!
# Programs of transactions

A program asks for one operation at a time and goes on with the reply; between
two operations anything may happen to the state they work on.  The keys of a
call are what the program holds while it waits for that operation: a device of
the proofs, without effect on what runs.

`Meets` reads a program against the terms of a rely-guarantee argument.
-/

namespace AgentGrid.Foundation

inductive Prog (ω : Type) (ρ : ω → Type) (κ α : Type) : Type
  | ret (value : α)
  | call (keys : List κ) (op : ω) (next : ρ op → Prog ω ρ κ α)

namespace Prog

variable {ω : Type} {ρ : ω → Type} {κ α β σ ι : Type}

def bind : Prog ω ρ κ α → (α → Prog ω ρ κ β) → Prog ω ρ κ β
  | .ret value, f => f value
  | .call keys op next, f => .call keys op fun reply => (next reply).bind f

instance : Monad (Prog ω ρ κ) where
  pure := .ret
  bind := .bind

@[simp] theorem pure_eq (value : α) : (pure value : Prog ω ρ κ α) = .ret value := rfl

@[simp] theorem bind_eq (p : Prog ω ρ κ α) (f : α → Prog ω ρ κ β) :
    p >>= f = p.bind f := rfl

@[simp] theorem ret_bind (value : α) (f : α → Prog ω ρ κ β) :
    (ret value : Prog ω ρ κ α).bind f = f value := rfl

@[simp] theorem call_bind (keys : List κ) (op : ω) (next : ρ op → Prog ω ρ κ α)
    (f : α → Prog ω ρ κ β) :
    (call keys op next).bind f = call keys op fun reply => (next reply).bind f := rfl

def held : Prog ω ρ κ α → List κ
  | .ret _ => []
  | .call keys _ _ => keys

def pending : Prog ω ρ κ α → Option ω
  | .ret _ => none
  | .call _ op _ => some op

def result : Prog ω ρ κ α → Option α
  | .ret value => some value
  | .call _ _ _ => none

/-- The program run to its end with nothing in between. -/
def eval (run : (op : ω) → σ → σ × ρ op) : Prog ω ρ κ α → σ → σ × α
  | .ret value, s => (s, value)
  | .call _ op next, s => (next (run op s).2).eval run (run op s).1

@[simp] theorem held_ret (value : α) : (ret value : Prog ω ρ κ α).held = [] := rfl

@[simp] theorem held_call (keys : List κ) (op : ω) (next : ρ op → Prog ω ρ κ α) :
    (call keys op next).held = keys := rfl

/-- Every operation the program can ask for, with the keys it holds then,
whatever the replies. -/
def All (φ : List κ → ω → Prop) : Prog ω ρ κ α → Prop
  | .ret _ => True
  | .call keys op next => φ keys op ∧ ∀ reply, (next reply).All φ

namespace All

variable {φ ψ : List κ → ω → Prop} {p : Prog ω ρ κ α}

theorem bind {f : α → Prog ω ρ κ β} (h : p.All φ) (hf : ∀ value, (f value).All φ) :
    (p.bind f).All φ := by
  induction p with
  | ret value => exact hf value
  | call keys op next ih => exact ⟨h.1, fun reply => ih reply (h.2 reply)⟩

theorem imp (himp : ∀ {keys op}, φ keys op → ψ keys op) (h : p.All φ) : p.All ψ := by
  induction p with
  | ret value => exact trivial
  | call keys op next ih => exact ⟨himp h.1, fun reply => ih reply (h.2 reply)⟩

theorem held (h : p.All φ) : p.held = [] ∨ ∃ op, φ p.held op := by
  cases p with
  | ret value => exact .inl rfl
  | call keys op next => exact .inr ⟨op, h.1⟩

end All

/-- What the other parties may do while a program holds some keys, what holds
whenever an operation of the program is due, what the program may assume of the
operation when it runs, and what it owes in return. -/
structure Terms (ω κ σ ι : Type) where
  rely : List κ → σ → σ → Prop
  stage : List κ → ω → σ → Prop := fun _ _ _ => True
  grant : List κ → ω → ι → σ → Prop
  duty : List κ → ω → ι → List κ → σ → σ → Prop

variable (run : ι → (op : ω) → σ → σ × ρ op)

def Meets (T : Terms ω κ σ ι) (post : α → σ → Prop) : Prog ω ρ κ α → σ → Prop
  | .ret value, s => ∀ s', T.rely [] s s' → post value s'
  | .call keys op next, s =>
      ∀ s', T.rely keys s s' →
        T.stage keys op s' ∧ ∀ input, T.grant keys op input s' →
          T.duty keys op input (next (run input op s').2).held s' (run input op s').1 ∧
            Meets T post (next (run input op s').2) (run input op s').1

variable {run} {T : Terms ω κ σ ι} {post post' : α → σ → Prop}

namespace Meets

theorem stable (htrans : ∀ {keys s s' s''}, T.rely keys s s' → T.rely keys s' s'' →
      T.rely keys s s'')
    {p : Prog ω ρ κ α} {s s' : σ} (h : p.Meets run T post s) (hrely : T.rely p.held s s') :
    p.Meets run T post s' := by
  cases p with
  | ret value => exact fun s'' hnext => h s'' (htrans hrely hnext)
  | call keys op next => exact fun s'' hnext => h s'' (htrans hrely hnext)

theorem mono (hpost : ∀ value s, post value s → post' value s) {p : Prog ω ρ κ α} {s : σ}
    (h : p.Meets run T post s) : p.Meets run T post' s := by
  induction p generalizing s with
  | ret value => exact fun s' hrely => hpost value s' (h s' hrely)
  | call keys op next ih =>
      intro s' hrely
      obtain ⟨hstage, hrun⟩ := h s' hrely
      refine ⟨hstage, fun input hgrant => ?_⟩
      obtain ⟨hduty, hnext⟩ := hrun input hgrant
      exact ⟨hduty, ih _ hnext⟩

/-- An invariant that the others respect and every operation of the program
keeps. -/
theorem of_all {φ : List κ → ω → Prop} (I : σ → Prop)
    (hrely : ∀ {keys s s'}, I s → T.rely keys s s' → I s')
    (hop : ∀ {keys op s}, φ keys op → I s → T.stage keys op s ∧
      ∀ input, T.grant keys op input s → I (run input op s).1 ∧
        ∀ keys', (keys' = [] ∨ ∃ op', φ keys' op') →
          T.duty keys op input keys' s (run input op s).1)
    {p : Prog ω ρ κ α} (h : p.All φ) {s : σ} (hs : I s) :
    p.Meets run T (fun _ s => I s) s := by
  induction p generalizing s with
  | ret value => exact fun s' hs' => hrely hs hs'
  | call keys op next ih =>
      intro s' hs'
      obtain ⟨hstage, hrun⟩ := hop h.1 (hrely hs hs')
      refine ⟨hstage, fun input hgrant => ?_⟩
      obtain ⟨hkept, hduty⟩ := hrun input hgrant
      exact ⟨hduty _ (h.2 _).held, ih _ (h.2 _) hkept⟩

/-- Sequencing, where nothing is held in between. -/
theorem bind (hrefl : ∀ keys s, T.rely keys s s) {p : Prog ω ρ κ α}
    {f : α → Prog ω ρ κ β} {post : β → σ → Prop} {s : σ}
    (hheld : ∀ value, (f value).held = [])
    (h : p.Meets run T (fun value s => (f value).Meets run T post s) s) :
    (p.bind f).Meets run T post s := by
  induction p generalizing s with
  | ret value => exact h s (hrefl [] s)
  | call keys op next ih =>
      intro s' hrely
      obtain ⟨hstage, hrun⟩ := h s' hrely
      refine ⟨hstage, fun input hgrant => ?_⟩
      have hkeys : ((next (run input op s').2).bind f).held =
          (next (run input op s').2).held := by
        cases next (run input op s').2 with
        | ret value => exact hheld value
        | call => rfl
      obtain ⟨hduty, hnext⟩ := hrun input hgrant
      rw [hkeys]
      exact ⟨hduty, ih _ hnext⟩

end Meets

end Prog

end AgentGrid.Foundation
