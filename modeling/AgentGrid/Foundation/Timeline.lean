import Mathlib.Logic.Function.Basic
import Mathlib.Data.List.Basic

/-!
# Numbered versions

Changes take one state to another and may be refused; an accepted change can be
undone by its inverse.  A timeline assigns a version, that is a state with the
changes that led to it, to each number.  Copies of the state and batches of
changes that travel around carry numbers, and agree with the timeline: a copy
holds the version of its number, and a batch leads from one number to another.
-/

namespace AgentGrid.Foundation

structure Changes (δ κ : Type) where
  apply : δ → κ → Option δ
  invert : κ → κ
  apply_invert : ∀ {x y : δ} {c : κ}, apply x c = some y → apply y (invert c) = some x

structure Version (δ κ : Type) where
  contents : δ
  history : List κ
deriving DecidableEq

variable {δ κ : Type}

namespace Changes

variable (ops : Changes δ κ)

def applyAll (x : δ) (cs : List κ) : Option δ := cs.foldlM ops.apply x

theorem applyAll_append (x : δ) (cs ds : List κ) :
    ops.applyAll x (cs ++ ds) = (ops.applyAll x cs).bind (ops.applyAll · ds) :=
  List.foldlM_append

theorem applyAll_cons {x y : δ} {c : κ} (h : ops.apply x c = some y) (cs : List κ) :
    ops.applyAll x (c :: cs) = ops.applyAll y cs := by
  simp [applyAll, h]

/-- Undoing accepted changes, the last one first. -/
theorem applyAll_undo {x y : δ} {cs : List κ} (h : ops.applyAll x cs = some y) :
    ops.applyAll y (cs.reverse.map ops.invert) = some x := by
  induction cs generalizing x with
  | nil =>
      obtain rfl : x = y := by simpa [applyAll] using h
      rfl
  | cons c cs ih =>
      obtain ⟨z, hfirst, hrest⟩ := Option.bind_eq_some_iff.mp
        (List.foldlM_cons.symm.trans h)
      rw [List.reverse_cons, List.map_append, applyAll_append, ih hrest, Option.bind_some]
      exact (ops.applyAll_cons (ops.apply_invert hfirst) []).trans rfl

end Changes

/-- What something that carries version numbers asserts about the timeline. -/
inductive Item (δ κ : Type)
  | held (n : Nat) (v : Version δ κ)
  | link (i j : Nat) (cs : List κ)

section Timeline

variable (ops : Changes δ κ)

/-- The changes lead from one version to the other. -/
def Leads (x y : Version δ κ) (cs : List κ) : Prop :=
  ops.applyAll x.contents cs = some y.contents ∧ y.history = x.history ++ cs

variable {ops} {x y z : Version δ κ} {cs ds : List κ}

theorem Leads.refl (x : Version δ κ) : Leads ops x x [] := ⟨rfl, by simp⟩

theorem Leads.single {c : κ} (happly : ops.apply x.contents c = some y.contents)
    (hhistory : y.history = x.history ++ [c]) : Leads ops x y [c] :=
  ⟨(ops.applyAll_cons happly []).trans rfl, hhistory⟩

theorem Leads.trans (h : Leads ops x y cs) (h' : Leads ops y z ds) :
    Leads ops x z (cs ++ ds) := by
  refine ⟨?_, ?_⟩
  · rw [ops.applyAll_append, h.1, Option.bind_some, h'.1]
  · rw [h'.2, h.2, List.append_assoc]

theorem Leads.unique (h : Leads ops x y cs) (happly : ops.applyAll x.contents cs = some z.contents)
    (hhistory : z.history = x.history ++ cs) : z = y := by
  obtain ⟨contents, history⟩ := z
  obtain ⟨contents', history'⟩ := y
  have hcontents : contents' = contents := Option.some.inj (h.1.symm.trans happly)
  have hhistories : history = history' := hhistory.trans h.2.symm
  rw [hcontents, hhistories]

/-- Undoing the changes that led to a version gives back the earlier one. -/
theorem Leads.undo (h : Leads ops x y cs) {contents : δ}
    (happly : ops.applyAll y.contents (cs.reverse.map ops.invert) = some contents) :
    (⟨contents, y.history.take (y.history.length - cs.length)⟩ : Version δ κ) = x := by
  obtain ⟨hcontents, hhistory⟩ := h
  rw [ops.applyAll_undo hcontents] at happly
  obtain rfl := Option.some.inj happly
  rw [hhistory, List.length_append, Nat.add_sub_cancel, List.take_left]

namespace Item

variable (ops)

def Holds (G : Nat → Version δ κ) : Item δ κ → Prop
  | held n v => v = G n
  | link i j cs => Leads ops (G i) (G j) cs

def numbers : Item δ κ → List Nat
  | held n _ => [n]
  | link i j _ => [i, j]

variable {ops} {G : Nat → Version δ κ}

/-- An item does not see a new version of a number it does not carry. -/
theorem Holds.update {item : Item δ κ} (h : item.Holds ops G) {k : Nat}
    (hk : k ∉ item.numbers) (v : Version δ κ) : item.Holds ops (Function.update G k v) := by
  cases item with
  | held n w =>
      have hn : n ≠ k := by simpa [numbers, eq_comm] using hk
      simpa [Holds, hn] using h
  | link i j cs =>
      obtain ⟨hi, hj⟩ : i ≠ k ∧ j ≠ k := by simpa [numbers, eq_comm] using hk
      simpa [Holds, hi, hj] using h

end Item

end Timeline

end AgentGrid.Foundation
