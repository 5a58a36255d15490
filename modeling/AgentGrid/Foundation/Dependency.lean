import Mathlib.Data.Fintype.Card
import Mathlib.Data.List.Chain
import Mathlib.Data.Set.Finite.Basic
import Mathlib.Order.WellFounded

/-!
# Dependencies

A relation by which some things need others.  A list in which everything stands
after what it needs shows that nothing needs itself.
-/

namespace AgentGrid.Foundation

variable {α : Type} (needs : α → α → Prop)

/-- Nothing needs itself, over however many steps. -/
def Acyclic : Prop := ∀ a, ¬ Relation.TransGen needs a a

/-- Everything can be had, what it needs first. -/
def Grounded : Prop := WellFounded fun b a => needs a b

/-- Latest first: everything needs only what came before it. -/
inductive Ordered : List α → Prop
  | nil : Ordered []
  | cons {done : List α} {a : α} (ready : ∀ b, needs a b → b ∈ done) :
      Ordered done → Ordered (a :: done)

variable {needs}

theorem Grounded.acyclic (h : Grounded needs) : Acyclic needs := by
  intro a hcycle
  have hwell : WellFounded (Relation.TransGen fun b a => needs a b) := WellFounded.transGen h
  exact hwell.irrefl.irrefl a (Relation.transGen_swap.mp hcycle)

theorem Ordered.acc {done : List α} (h : Ordered needs done) :
    ∀ a ∈ done, Acc (fun b a => needs a b) a := by
  induction h with
  | nil =>
      intro a ha
      cases ha
  | cons ready _ ih =>
      intro a ha
      cases ha with
      | head => exact ⟨_, fun b hb => ih b (ready b hb)⟩
      | tail _ ha => exact ih a ha

/-- An order of all that needs anything. -/
theorem Ordered.grounded {done : List α} (h : Ordered needs done)
    (hall : ∀ a b, needs a b → a ∈ done) : Grounded needs :=
  ⟨fun a => ⟨a, fun b hb => by
    by_cases hin : b ∈ done
    · exact h.acc b hin
    · exact ⟨b, fun c hc => absurd (hall b c hc) hin⟩⟩⟩

/-- Among finitely many things that need anything, having no cycle is enough. -/
theorem Acyclic.grounded (h : Acyclic needs) (all : List α) (hall : ∀ a b, needs a b → a ∈ all) :
    Grounded needs := by
  let inner (b a : {x // x ∈ all}) : Prop := Relation.TransGen needs a.1 b.1
  have hinner : WellFounded inner := by
    have : Finite {x // x ∈ all} := all.finite_toSet.to_subtype
    have : IsTrans _ inner := ⟨fun _ _ _ hab hbc => hbc.trans hab⟩
    have : Std.Irrefl inner := ⟨fun a => h a.1⟩
    exact Finite.wellFounded_of_trans_of_irrefl inner
  have houtside : ∀ a, a ∉ all → Acc (fun b a => needs a b) a := fun a ha =>
    ⟨a, fun b hb => absurd (hall a b hb) ha⟩
  have hinside : ∀ a : {x // x ∈ all}, Acc (fun b a => needs a b) a.1 := by
    intro a
    induction a using hinner.induction with
    | _ a ih =>
        refine ⟨a.1, fun b hb => ?_⟩
        by_cases hin : b ∈ all
        · exact ih ⟨b, hin⟩ (.single hb)
        · exact houtside b hin
  refine ⟨fun a => ?_⟩
  by_cases hin : a ∈ all
  · exact hinside ⟨a, hin⟩
  · exact houtside a hin

/-- The last thing of a chain of needs and whatever stands on the way to it. -/
theorem needed_of_chain {a : α} {below : List α}
    (h : (a :: below).IsChain fun a b => needs b a) :
    ∀ b ∈ below, Relation.TransGen needs b a := by
  have : IsTrans α fun a b => Relation.TransGen needs b a :=
    ⟨fun _ _ _ hab hbc => hbc.trans hab⟩
  have hchain : (a :: below).IsChain fun a b => Relation.TransGen needs b a :=
    h.imp fun _ _ hb => .single hb
  exact (List.pairwise_cons.mp hchain.pairwise).1

/-- What is had by one relation is had by another that agrees with it there. -/
theorem acc_of_agrees {needs' : α → α → Prop} {inside : α → Prop}
    (hagrees : ∀ a b, inside a → needs' a b → needs a b ∧ inside b) {a : α}
    (h : Acc (fun b a => needs a b) a) (ha : inside a) : Acc (fun b a => needs' a b) a := by
  induction h with
  | intro a _ ih =>
      refine ⟨a, fun b hb => ?_⟩
      obtain ⟨hneeds, hinside⟩ := hagrees a b ha hb
      exact ih b hneeds hinside

end AgentGrid.Foundation
