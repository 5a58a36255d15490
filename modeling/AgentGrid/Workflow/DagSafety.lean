import AgentGrid.Workflow.Dag
import Mathlib.Data.List.Perm.Subperm
import Mathlib.Tactic.Tauto
import Mathlib.Algebra.Ring.Nat

/-!
# Checked graphs have no cycle

What the searches leave is an order in which every step stands after its
dependencies.
-/

namespace AgentGrid.Workflow

open AgentGrid.Foundation

/-- A graph as the checks leave it: its steps can be done one after the other. -/
structure Checked (steps : List WorkflowStep) : Prop where
  unique : (steps.map WorkflowStep.id).Nodup
  known : ∀ s ∈ steps, ∀ dep ∈ s.dependsOn, dep ∈ steps.map WorkflowStep.id
  grounded : Grounded (Needs steps)

theorem Checked.dag {steps : List WorkflowStep} (h : Checked steps) : Dag steps :=
  ⟨h.unique, h.known, h.grounded.acyclic⟩

theorem duplicateId_none {steps : List WorkflowStep} {seen : List String}
    (h : duplicateId steps seen = none) :
    (steps.map WorkflowStep.id).Nodup ∧ ∀ s ∈ steps, s.id ∉ seen := by
  induction steps generalizing seen with
  | nil => simp
  | cons s rest ih =>
      rw [duplicateId] at h
      split at h
      · cases h
      · rename_i hs
        obtain ⟨hnodup, hfresh⟩ := ih h
        refine ⟨List.nodup_cons.mpr ⟨?_, hnodup⟩, ?_⟩
        · intro hin
          obtain ⟨s', hs', heq⟩ := List.mem_map.mp hin
          exact hfresh s' hs' (heq ▸ List.mem_cons_self)
        · intro s' hs'
          cases hs' with
          | head => exact hs
          | tail _ hs' => exact fun hin => hfresh s' hs' (List.mem_cons_of_mem _ hin)

theorem duplicateId_of_nodup {steps : List WorkflowStep} {seen : List String}
    (h : (steps.map WorkflowStep.id).Nodup) (hseen : ∀ s ∈ steps, s.id ∉ seen) :
    duplicateId steps seen = none := by
  induction steps generalizing seen with
  | nil => rfl
  | cons s rest ih =>
      obtain ⟨hs, hrest⟩ := List.nodup_cons.mp h
      rw [duplicateId, if_neg (hseen s List.mem_cons_self)]
      refine ih hrest fun s' hs' hin => ?_
      rcases List.mem_cons.mp hin with heq | hin
      · exact hs (heq ▸ List.mem_map_of_mem hs')
      · exact hseen s' (List.mem_cons_of_mem _ hs') hin

theorem badDependency_none {steps : List WorkflowStep} (h : badDependency steps = none) :
    ∀ s ∈ steps, ∀ dep ∈ s.dependsOn, dep ∈ steps.map WorkflowStep.id := by
  intro s hs dep hdep
  have hnone := List.findSome?_eq_none_iff.mp (List.findSome?_eq_none_iff.mp h s hs) dep hdep
  split at hnone
  · cases hnone
  · split at hnone
    · cases hnone
    · rename_i hin
      exact not_not.mp hin

section Graph

variable {steps : List WorkflowStep}

theorem needs_iff (hunique : (steps.map WorkflowStep.id).Nodup) {a b : String} :
    Needs steps a b ↔ b ∈ dependencies steps a := by
  constructor
  · rintro ⟨s, hs, rfl, hb⟩
    rw [dependencies, lookup_of_mem hunique hs]
    exact hb
  · intro hb
    rw [dependencies] at hb
    cases hlookup : lookup WorkflowStep.id a steps with
    | none =>
        rw [hlookup] at hb
        cases hb
    | some s =>
        rw [hlookup] at hb
        obtain ⟨hs, hid⟩ := lookup_mem hlookup
        exact ⟨s, hs, hid, hb⟩

/-- An order of all steps. -/
theorem checked_of_ordered (hunique : (steps.map WorkflowStep.id).Nodup)
    (hknown : ∀ s ∈ steps, ∀ dep ∈ s.dependsOn, dep ∈ steps.map WorkflowStep.id)
    {done : List String} (hordered : Ordered (Needs steps) done)
    (hall : ∀ s ∈ steps, s.id ∈ done) : Checked steps := by
  refine ⟨hunique, hknown, hordered.grounded ?_⟩
  rintro a b ⟨s, hs, rfl, -⟩
  exact hall s hs

/-! ## Depth-first search -/

/-- The dependencies that the entries of a stack have looked at are done, but for
the entry above. -/
def Waits (steps : List WorkflowStep) (done : List String) :
    Option String → List (String × Nat) → Prop
  | _, [] => True
  | above, (n, i) :: rest =>
      (∀ d ∈ (dependencies steps n).take i, d ∈ done ∨ some d = above) ∧
        Waits steps done (some n) rest

theorem Waits.mono {done done' : List String} (hdone : ∀ d ∈ done, d ∈ done')
    {above above' : Option String} (habove : ∀ d, some d = above → d ∈ done' ∨ some d = above')
    {stack : List (String × Nat)} (h : Waits steps done above stack) :
    Waits steps done' above' stack := by
  induction stack generalizing above above' with
  | nil => trivial
  | cons entry rest ih =>
      obtain ⟨hlooked, hrest⟩ := h
      refine ⟨fun d hd => ?_, ih (fun d hd => .inr hd) hrest⟩
      rcases hlooked d hd with hd | hd
      · exact .inl (hdone d hd)
      · exact habove d hd

/-- The black steps are done, and the gray ones are on the stack. -/
structure Search.Sound (steps : List WorkflowStep) (done : List String) (s : Search) : Prop where
  ordered : Ordered (Needs steps) done
  black : ∀ x, s.color x = .black → x ∈ done
  gray : ∀ x, s.color x = .gray → x ∈ s.stack.map Prod.fst
  waits : Waits steps done none s.stack

theorem enter_black {color : String → Color} {node x : String} {i : Nat}
    (h : Search.enter color node i x = .black) : color x = .black := by
  unfold Search.enter at h
  split at h
  · by_cases hx : x = node
    · rw [hx, Function.update_self] at h
      cases h
    · rwa [Function.update_of_ne hx] at h
  · exact h

theorem enter_gray {color : String → Color} {node x : String} {i : Nat}
    (h : Search.enter color node i x = .gray) : x = node ∨ color x = .gray := by
  unfold Search.enter at h
  split at h
  · by_cases hx : x = node
    · exact .inl hx
    · rw [Function.update_of_ne hx] at h
      exact .inr h
  · exact .inr h

/-- One iteration: what was done stays done, and what lay on the stack lies there
or is done. -/
theorem sound_advance (hunique : (steps.map WorkflowStep.id).Nodup) {done : List String}
    {color : String → Color} {node : String} {i : Nat} {rest : List (String × Nat)}
    (h : Search.Sound steps done ⟨color, (node, i) :: rest⟩) {s : Search}
    (hs : Search.advance steps color node i rest = .ok s) :
    ∃ done', Search.Sound steps done' s ∧ (∀ d ∈ done, d ∈ done') ∧
      ∀ x ∈ node :: rest.map Prod.fst, x ∈ done' ∨ x ∈ s.stack.map Prod.fst := by
  obtain ⟨hlooked, hrest⟩ := h.waits
  have hgray : ∀ x, Search.enter color node i x = .gray → x ∈ node :: rest.map Prod.fst := by
    intro x hx
    rcases enter_gray hx with rfl | hx
    · exact List.mem_cons_self
    · exact h.gray x hx
  have hblack : ∀ x, Search.enter color node i x = .black → x ∈ done := fun x hx =>
    h.black x (enter_black hx)
  simp only [Search.advance] at hs
  split at hs
  · rename_i next hnext
    have htake : ∀ d ∈ (dependencies steps node).take (i + 1), d ∈ done ∨ d = next := by
      intro d hd
      rw [List.take_add_one, hnext] at hd
      rcases List.mem_append.mp hd with hd | hd
      · rcases hlooked d hd with hd | hd
        · exact .inl hd
        · cases hd
      · exact .inr (List.mem_singleton.mp hd)
    split at hs
    · cases hs
    · cases hs
      refine ⟨done, ⟨h.ordered, hblack, ?_, ?_, ?_, hrest⟩, fun _ hd => hd, ?_⟩
      · exact fun x hx => List.mem_cons_of_mem _ (hgray x hx)
      · intro d hd
        cases hd
      · exact fun d hd => (htake d hd).imp_right fun heq => by rw [heq]
      · exact fun x hx => .inr (List.mem_cons_of_mem _ hx)
    · rename_i hcolor
      cases hs
      refine ⟨done, ⟨h.ordered, hblack, hgray, ?_, hrest⟩, fun _ hd => hd, fun x hx => .inr hx⟩
      intro d hd
      rcases htake d hd with hd | rfl
      · exact .inl hd
      · exact .inl (hblack d hcolor)
  · rename_i hlast
    cases hs
    refine ⟨node :: done, ⟨.cons ?_ h.ordered, ?_, ?_, ?_⟩, fun _ hd => List.mem_cons_of_mem _ hd,
      ?_⟩
    · intro d hd
      rw [needs_iff hunique, ← List.take_of_length_le (List.getElem?_eq_none_iff.mp hlast)] at hd
      rcases hlooked d hd with hd | hd
      · exact hd
      · cases hd
    · intro x hx
      by_cases hnode : x = node
      · exact hnode ▸ List.mem_cons_self
      · dsimp only at hx
        rw [Function.update_of_ne hnode] at hx
        exact List.mem_cons_of_mem _ (hblack x hx)
    · intro x hx
      dsimp only at hx
      by_cases hnode : x = node
      · rw [hnode, Function.update_self] at hx
        cases hx
      · rw [Function.update_of_ne hnode] at hx
        exact (List.mem_cons.mp (hgray x hx)).resolve_left hnode
    · refine hrest.mono (fun d hd => List.mem_cons_of_mem _ hd) ?_
      rintro d ⟨⟩
      exact .inl List.mem_cons_self
    · intro x hx
      rcases List.mem_cons.mp hx with rfl | hx
      · exact .inl List.mem_cons_self
      · exact .inr hx

theorem sound_run (hunique : (steps.map WorkflowStep.id).Nodup) {fuel : Nat} {done : List String}
    {s : Search} (h : s.Sound steps done) {color : String → Color}
    (hrun : s.run steps fuel = some (.ok color)) :
    ∃ done', Search.Sound steps done' ⟨color, []⟩ ∧ (∀ d ∈ done, d ∈ done') ∧
      ∀ x ∈ s.stack.map Prod.fst, x ∈ done' := by
  induction fuel generalizing done s with
  | zero =>
      obtain ⟨first, stack⟩ := s
      cases stack with
      | nil =>
          cases hrun
          exact ⟨done, h, fun _ hd => hd, fun x hx => by cases hx⟩
      | cons entry rest => cases hrun
  | succ fuel ih =>
      obtain ⟨first, stack⟩ := s
      cases stack with
      | nil =>
          cases hrun
          exact ⟨done, h, fun _ hd => hd, fun x hx => by cases hx⟩
      | cons entry rest =>
          obtain ⟨node, i⟩ := entry
          simp only [Search.run] at hrun
          split at hrun
          · rename_i t ht
            obtain ⟨done₁, hsound, hkept, hstack⟩ := sound_advance hunique h ht
            obtain ⟨done₂, hend, hkept', hstack'⟩ := ih hsound hrun
            refine ⟨done₂, hend, fun d hd => hkept' d (hkept d hd), fun x hx => ?_⟩
            exact (hstack x hx).elim (hkept' x) (hstack' x)
          · cases hrun

theorem sound_searchAll (hunique : (steps.map WorkflowStep.id).Nodup) {rest : List WorkflowStep}
    {done : List String} {color : String → Color} (h : Search.Sound steps done ⟨color, []⟩)
    (hrun : searchAll steps rest color = some (.ok ())) :
    ∃ done', Ordered (Needs steps) done' ∧ (∀ d ∈ done, d ∈ done') ∧ ∀ s ∈ rest, s.id ∈ done' := by
  induction rest generalizing done color with
  | nil => exact ⟨done, h.ordered, fun _ hd => hd, fun s hs => by cases hs⟩
  | cons s rest ih =>
      have hclose : ∀ {done₁ color₁}, Search.Sound steps done₁ ⟨color₁, []⟩ →
          (∀ d ∈ done, d ∈ done₁) → s.id ∈ done₁ → searchAll steps rest color₁ = some (.ok ()) →
          ∃ done', Ordered (Needs steps) done' ∧ (∀ d ∈ done, d ∈ done') ∧
            ∀ s' ∈ s :: rest, s'.id ∈ done' := by
        intro done₁ color₁ hsound hkept hin hrest
        obtain ⟨done', hordered, hkept', hall⟩ := ih hsound hrest
        refine ⟨done', hordered, fun d hd => hkept' d (hkept d hd), fun s' hs' => ?_⟩
        cases hs' with
        | head => exact hkept' _ hin
        | tail _ hs' => exact hall s' hs'
      simp only [searchAll] at hrun
      split at hrun
      · split at hrun
        · rename_i color₁ hsearch
          have hstart : Search.Sound steps done ⟨color, [(s.id, 0)]⟩ := by
            refine ⟨h.ordered, h.black, ?_, ?_, trivial⟩
            · intro x hx
              cases h.gray x hx
            · intro d hd
              cases hd
          obtain ⟨done₁, hsound, hkept, hstack⟩ := sound_run hunique hstart hsearch
          exact hclose hsound hkept (hstack _ List.mem_cons_self) hrun
        · cases hrun
        · cases hrun
      · rename_i hcolor
        have hin : s.id ∈ done := by
          cases hs : color s.id with
          | white => exact absurd hs hcolor
          | gray => cases h.gray _ hs
          | black => exact h.black _ hs
        exact hclose h (fun _ hd => hd) hin hrun

theorem checked_of_validateDag (h : validateDag steps = some (.ok ())) : Checked steps := by
  unfold validateDag at h
  split at h
  · cases h
  · rename_i hdup
    split at h
    · cases h
    · rename_i hbad
      obtain ⟨hunique, -⟩ := duplicateId_none hdup
      have hstart : Search.Sound steps [] ⟨fun _ => .white, []⟩ :=
        ⟨.nil, fun x hx => (by cases hx), fun x hx => (by cases hx), trivial⟩
      obtain ⟨done, hordered, -, hall⟩ := sound_searchAll hunique hstart h
      exact checked_of_ordered hunique (badDependency_none hbad) hordered hall

/-! ## The search ends -/

/-- Every dependency still to be looked at and the entry itself, each with the
step it may push. -/
def owed (steps : List WorkflowStep) (entry : String × Nat) : Nat :=
  2 * ((dependencies steps entry.1).length - entry.2) + 1

/-- A white top has only been pushed yet. -/
def topWeight (steps : List WorkflowStep) (color : String → Color) : List (String × Nat) → Nat
  | [] => 0
  | (n, i) :: rest =>
      (if i = 0 ∧ color n = .white then 1 else owed steps (n, i)) + (rest.map (owed steps)).sum

def whites (steps : List WorkflowStep) (color : String → Color) : Nat :=
  steps.countP fun s => color s.id = .white

def breadth (steps : List WorkflowStep) : Nat := (steps.flatMap WorkflowStep.dependsOn).length

/-- Goes down with every iteration. -/
def Search.weight (steps : List WorkflowStep) (s : Search) : Nat :=
  whites steps s.color * (2 * breadth steps + 3) + topWeight steps s.color s.stack

theorem dependencies_le (node : String) : (dependencies steps node).length ≤ breadth steps := by
  rw [dependencies]
  cases h : lookup WorkflowStep.id node steps with
  | none => exact Nat.zero_le _
  | some s =>
      have hs := (lookup_mem h).1
      rw [breadth, List.flatMap_def]
      have hin : s.dependsOn ∈ steps.map WorkflowStep.dependsOn := List.mem_map_of_mem hs
      exact (List.sublist_flatten_of_mem hin).length_le

theorem topWeight_le (color : String → Color) (stack : List (String × Nat)) :
    topWeight steps color stack ≤ (stack.map (owed steps)).sum := by
  cases stack with
  | nil => exact Nat.le_refl _
  | cons entry rest =>
      obtain ⟨n, i⟩ := entry
      rw [topWeight, List.map_cons, List.sum_cons]
      split
      · rw [owed]
        omega
      · exact Nat.le_refl _

theorem whites_le {color color' : String → Color}
    (h : ∀ x, color' x = .white → color x = .white) : whites steps color' ≤ whites steps color := by
  unfold whites
  refine List.countP_mono_left fun s _ hs => ?_
  exact decide_eq_true (h s.id (of_decide_eq_true hs))

theorem whites_lt {color color' : String → Color} {node : String}
    (h : ∀ x, color' x = .white → color x = .white) (hwhite : color node = .white)
    (hnode : color' node ≠ .white) (hin : node ∈ steps.map WorkflowStep.id) :
    whites steps color' < whites steps color := by
  obtain ⟨s, hs, rfl⟩ := List.mem_map.mp hin
  obtain ⟨before, after, rfl⟩ := List.append_of_mem hs
  have hbefore : whites before color' ≤ whites before color := whites_le h
  have hafter : whites after color' ≤ whites after color := whites_le h
  have hsplit : ∀ color'' : String → Color, whites (before ++ s :: after) color'' =
      whites before color'' + (whites after color'' + if color'' s.id = .white then 1 else 0) := by
    intro color''
    unfold whites
    rw [List.countP_append, List.countP_cons]
    simp
  rw [hsplit, hsplit, if_pos hwhite, if_neg hnode]
  omega

section Iteration

variable {color : String → Color} {node : String} {i : Nat} {rest : List (String × Nat)}
  {s : Search}

theorem enter_white {x : String} (h : Search.enter color node i x = .white) : color x = .white := by
  unfold Search.enter at h
  split at h
  · by_cases hx : x = node
    · rw [hx, Function.update_self] at h
      cases h
    · rwa [Function.update_of_ne hx] at h
  · exact h

theorem advance_color (h : Search.advance steps color node i rest = .ok s) :
    (∀ x, s.color x = .white → color x = .white) ∧ (i = 0 → s.color node ≠ .white) := by
  have hentered : i = 0 → Search.enter color node i node ≠ .white := by
    intro hi
    rw [Search.enter, if_pos hi, Function.update_self]
    nofun
  simp only [Search.advance] at h
  split at h
  · split at h
    · cases h
    · cases h
      exact ⟨fun _ => enter_white, hentered⟩
    · cases h
      exact ⟨fun _ => enter_white, hentered⟩
  · cases h
    constructor
    · intro x hx
      dsimp only at hx
      by_cases hnode : x = node
      · rw [hnode, Function.update_self] at hx
        cases hx
      · rw [Function.update_of_ne hnode] at hx
        exact enter_white hx
    · intro _
      dsimp only
      rw [Function.update_self]
      nofun

theorem advance_stack (h : Search.advance steps color node i rest = .ok s) :
    topWeight steps s.color s.stack + 1 ≤ owed steps (node, i) + (rest.map (owed steps)).sum := by
  simp only [Search.advance] at h
  split at h
  · rename_i next hnext
    have hlt := (List.getElem?_eq_some_iff.mp hnext).1
    have hpaid : owed steps (node, i + 1) + 2 = owed steps (node, i) := by
      simp only [owed]
      omega
    split at h
    · cases h
    · rename_i hwhite
      cases h
      rw [topWeight, if_pos ⟨rfl, hwhite⟩, List.map_cons, List.sum_cons]
      omega
    · cases h
      rw [topWeight, if_neg fun hfirst => Nat.succ_ne_zero i hfirst.1]
      omega
  · cases h
    have hle := @topWeight_le steps (Function.update (Search.enter color node i) node .black) rest
    have hpos : 1 ≤ owed steps (node, i) := Nat.le_add_left _ _
    dsimp only
    omega

theorem weight_advance (h : Search.advance steps color node i rest = .ok s) :
    s.weight steps < Search.weight steps ⟨color, (node, i) :: rest⟩ := by
  obtain ⟨hwhites, hnode⟩ := advance_color h
  have hstack := advance_stack h
  have hle : whites steps s.color * (2 * breadth steps + 3) ≤
      whites steps color * (2 * breadth steps + 3) := Nat.mul_le_mul_right _ (whites_le hwhites)
  change whites steps s.color * _ + topWeight steps s.color s.stack <
    whites steps color * _ + ((if i = 0 ∧ color node = .white then 1 else owed steps (node, i)) +
      (rest.map (owed steps)).sum)
  split
  · rename_i hfirst
    by_cases hin : node ∈ steps.map WorkflowStep.id
    · have hlt := Nat.mul_le_mul_right (2 * breadth steps + 3)
        (whites_lt hwhites hfirst.2 (hnode hfirst.1) hin)
      have howed : owed steps (node, i) ≤ 2 * breadth steps + 1 := by
        have hlen := @dependencies_le steps node
        rw [owed]
        dsimp only
        omega
      rw [Nat.succ_mul] at hlt
      omega
    · have hnone : dependencies steps node = [] := by
        rw [dependencies]
        cases hlookup : lookup WorkflowStep.id node steps with
        | none => rfl
        | some row =>
            obtain ⟨hrow, hid⟩ := lookup_mem hlookup
            exact absurd (hid ▸ List.mem_map_of_mem hrow) hin
      have howed : owed steps (node, i) = 1 := by
        rw [owed, hnone, List.length_nil]
        omega
      omega
  · omega

end Iteration

theorem run_isSome {fuel : Nat} {s : Search} (h : s.weight steps ≤ fuel) :
    (s.run steps fuel).isSome = true := by
  induction fuel generalizing s with
  | zero =>
      obtain ⟨color, stack⟩ := s
      cases stack with
      | nil => rfl
      | cons entry rest =>
          obtain ⟨n, i⟩ := entry
          simp only [Search.weight, topWeight, owed] at h
          split at h <;> omega
  | succ fuel ih =>
      obtain ⟨color, stack⟩ := s
      cases stack with
      | nil => rfl
      | cons entry rest =>
          obtain ⟨n, i⟩ := entry
          simp only [Search.run]
          split
          · rename_i t ht
            have hlt := weight_advance ht
            exact ih (by omega)
          · rfl

theorem searchAll_isSome (rest : List WorkflowStep) (color : String → Color) :
    (searchAll steps rest color).isSome = true := by
  induction rest generalizing color with
  | nil => rfl
  | cons s rest ih =>
      simp only [searchAll]
      split
      · rename_i hwhite
        have hends : (Search.run steps (searchFuel steps) ⟨color, [(s.id, 0)]⟩).isSome = true := by
          apply run_isSome
          have hcount : whites steps color ≤ steps.length := List.countP_le_length
          have hle := Nat.mul_le_mul_right (2 * breadth steps + 3) hcount
          have hfuel : searchFuel steps =
              steps.length * (2 * breadth steps + 3) + (2 * breadth steps + 3) := Nat.succ_mul _ _
          simp only [Search.weight, topWeight]
          rw [if_pos ⟨trivial, hwhite⟩, hfuel, List.map_nil, List.sum_nil]
          omega
        split
        · exact ih _
        · rfl
        · rename_i hnone
          rw [hnone] at hends
          cases hends
      · exact ih color

/-- The search ends on every list of steps. -/
theorem validateDag_isSome (steps : List WorkflowStep) : (validateDag steps).isSome = true := by
  unfold validateDag
  split
  · rfl
  · split
    · rfl
    · exact searchAll_isSome _ _

/-! ## Kahn's algorithm -/

/-- The edges of the graph, each from the dependency to the step. -/
def links (steps : List WorkflowStep) : List (String × String) :=
  steps.flatMap fun s => s.dependsOn.map fun dep => (dep, s.id)

theorem needs_of_link {a b : String} : (b, a) ∈ links steps ↔ Needs steps a b := by
  simp only [links, List.mem_flatMap, List.mem_map, Prod.mk.injEq, Needs]
  constructor
  · rintro ⟨s, hs, dep, hdep, rfl, rfl⟩
    exact ⟨s, hs, rfl, hdep⟩
  · rintro ⟨s, hs, rfl, hdep⟩
    exact ⟨s, hs, b, hdep, rfl, rfl⟩

theorem degrees_foldl (edges : List (String × String)) (g : Degrees) :
    (∀ n, (edges.foldl (fun g e => g.link e.1 e.2) g).adj n =
      g.adj n ++ (edges.filter fun e => e.1 = n).map Prod.snd) ∧
    ∀ m, (edges.foldl (fun g e => g.link e.1 e.2) g).indeg m =
      g.indeg m + edges.countP fun e => e.2 = m := by
  induction edges generalizing g with
  | nil => simp
  | cons e edges ih =>
      obtain ⟨hadj, hindeg⟩ := ih (g.link e.1 e.2)
      constructor
      · intro n
        rw [List.foldl_cons, hadj]
        by_cases hn : e.1 = n
        · subst hn
          simp [Degrees.link]
        · simp [Degrees.link, hn, Ne.symm hn]
      · intro m
        rw [List.foldl_cons, hindeg]
        by_cases hm : e.2 = m
        · subst hm
          simp only [Degrees.link, Function.update_self, List.countP_cons, decide_true, if_true]
          omega
        · simp [Degrees.link, hm, Ne.symm hm]

theorem degrees_eq (steps : List WorkflowStep) :
    (∀ n, (degrees steps).adj n = ((links steps).filter fun e => e.1 = n).map Prod.snd) ∧
      ∀ m, (degrees steps).indeg m = (links steps).countP fun e => e.2 = m := by
  have hfold : degrees steps = (links steps).foldl (fun g e => g.link e.1 e.2) {} := by
    rw [degrees, links, List.foldl_flatMap]
    simp only [List.foldl_map]
  rw [hfold]
  simpa using degrees_foldl (links steps) {}

/-- What visiting the dependencies of each of `l` does. -/
theorem relax_foldl (l : List String) (k : (String → Nat) × List String)
    (h : ∀ m, l.count m ≤ k.1 m) :
    (∀ m, (l.foldl relax k).1 m = k.1 m - l.count m) ∧
      ∃ pushed, (l.foldl relax k).2 = pushed ++ k.2 ∧ pushed.Nodup ∧
        ∀ m ∈ pushed, m ∈ l ∧ k.1 m = l.count m := by
  induction l generalizing k with
  | nil => exact ⟨fun m => rfl, [], rfl, List.nodup_nil, fun m hm => by cases hm⟩
  | cons a l ih =>
      have ha := h a
      rw [List.count_cons_self] at ha
      have hself : (relax k a).1 a = k.1 a - 1 := Function.update_self ..
      have hother : ∀ m, m ≠ a → (relax k a).1 m = k.1 m := fun m hm => Function.update_of_ne hm ..
      have hcount : ∀ m, m ≠ a → (a :: l).count m = l.count m := fun m hm =>
        List.count_cons_of_ne (Ne.symm hm)
      obtain ⟨hindeg, pushed, hqueue, hnodup, hpushed⟩ := ih (relax k a) fun m => by
        by_cases hm : m = a
        · rw [hm, hself]
          omega
        · rw [hother m hm, ← hcount m hm]
          exact h m
      have hmem : ∀ m ∈ pushed, m ∈ a :: l ∧ k.1 m = (a :: l).count m := by
        intro m hm
        obtain ⟨hin, heq⟩ := hpushed m hm
        refine ⟨List.mem_cons_of_mem _ hin, ?_⟩
        by_cases hma : m = a
        · rw [hma] at heq ⊢
          rw [hself] at heq
          rw [List.count_cons_self]
          omega
        · rw [hcount m hma, ← heq, hother m hma]
      constructor
      · intro m
        rw [List.foldl_cons, hindeg]
        by_cases hm : m = a
        · rw [hm, hself, List.count_cons_self]
          omega
        · rw [hother m hm, hcount m hm]
      · rw [List.foldl_cons, hqueue]
        by_cases hzero : k.1 a - 1 = 0
        · refine ⟨pushed ++ [a], ?_, ?_, ?_⟩
          · simp [relax, hzero]
          · rw [List.nodup_append]
            refine ⟨hnodup, List.nodup_singleton a, ?_⟩
            intro m hm b hb heq
            rw [List.mem_singleton.mp hb] at heq
            obtain ⟨hin, hnow⟩ := hpushed m hm
            rw [heq] at hin hnow
            have hpos := List.count_pos_iff.mpr hin
            rw [hself] at hnow
            omega
          · intro m hm
            rcases List.mem_append.mp hm with hm | hm
            · exact hmem m hm
            · rw [List.mem_singleton.mp hm]
              refine ⟨List.mem_cons_self, ?_⟩
              rw [List.count_cons_self]
              omega
        · exact ⟨pushed, by simp [relax, hzero], hnodup, hmem⟩

/-- `done` are the visited steps, latest first. -/
structure Kahn.Sound (steps : List WorkflowStep) (done : List String) (k : Kahn) : Prop where
  ordered : Ordered (Needs steps) done
  visited : k.visited = done.length
  indeg : ∀ m, k.indeg m = (links steps).countP fun e => e.2 = m ∧ e.1 ∉ done
  once : (done ++ k.queue).Nodup
  free : ∀ m ∈ done ++ k.queue, k.indeg m = 0
  known : ∀ m ∈ done ++ k.queue, m ∈ steps.map WorkflowStep.id

theorem countP_visit (edges : List (String × String)) (m n : String) {done : List String}
    (hn : n ∉ done) :
    (edges.countP fun e => e.2 = m ∧ e.1 ∉ done) =
      (edges.countP fun e => e.2 = m ∧ e.1 ∉ n :: done) +
        ((edges.filter fun e => e.1 = n).map Prod.snd).count m := by
  induction edges with
  | nil => rfl
  | cons e edges ih =>
      rw [List.countP_cons, List.countP_cons, ih, List.filter_cons]
      by_cases hsource : e.1 = n
      · by_cases htarget : e.2 = m
        · simp [hsource, htarget, hn]
          omega
        · simp [hsource, htarget]
      · by_cases htarget : e.2 = m
        · simp [hsource, htarget]
          omega
        · simp [hsource, htarget]

theorem Kahn.Sound.visit {done queue : List String} {k : Kahn} {n : String}
    (h : k.Sound steps done) (hqueue : k.queue = n :: queue) :
    Kahn.Sound steps (n :: done)
      ⟨(((degrees steps).adj n).foldl relax (k.indeg, queue)).1,
        (((degrees steps).adj n).foldl relax (k.indeg, queue)).2, k.visited + 1⟩ := by
  have hperm : (done ++ k.queue).Perm (n :: done ++ queue) := by
    rw [hqueue]
    exact List.perm_middle
  have honce : (n :: done ++ queue).Nodup := hperm.nodup_iff.mp h.once
  have hfree : ∀ m ∈ n :: done ++ queue, k.indeg m = 0 := fun m hm =>
    h.free m (hperm.mem_iff.mpr hm)
  have hn : n ∉ done := by
    rw [List.cons_append, List.nodup_cons] at honce
    exact fun hin => honce.1 (List.mem_append_left _ hin)
  have hadj := (degrees_eq steps).1 n
  have hsplit : ∀ m, k.indeg m = ((links steps).countP fun e => e.2 = m ∧ e.1 ∉ n :: done) +
      ((degrees steps).adj n).count m := by
    intro m
    rw [h.indeg, hadj]
    exact countP_visit _ m n hn
  obtain ⟨hindeg, pushed, hnext, hnodup, hpushed⟩ :=
    relax_foldl ((degrees steps).adj n) (k.indeg, queue) fun m => by
      dsimp only
      rw [hsplit]
      exact Nat.le_add_left _ _
  have hleft : ∀ m, (((degrees steps).adj n).foldl relax (k.indeg, queue)).1 m =
      (links steps).countP fun e => e.2 = m ∧ e.1 ∉ n :: done := by
    intro m
    rw [hindeg]
    dsimp only
    rw [hsplit, Nat.add_sub_cancel]
  have hready : ∀ b, Needs steps n b → b ∈ done := by
    intro b hb
    have hzero := (h.indeg n).symm.trans (hfree n List.mem_cons_self)
    by_contra hnot
    refine absurd hzero (Nat.ne_of_gt (List.countP_pos_iff.mpr ⟨(b, n), needs_of_link.mpr hb, ?_⟩))
    simpa using hnot
  have hfresh : ∀ m ∈ pushed, m ∉ n :: done ++ queue := by
    intro m hm hin
    obtain ⟨hadjacent, hcount⟩ := hpushed m hm
    have hpos := List.count_pos_iff.mpr hadjacent
    have hzero := hfree m hin
    dsimp only at hcount
    omega
  have hall : ∀ m, m ∈ n :: done ++ (pushed ++ queue) → m ∈ pushed ∨ m ∈ n :: done ++ queue := by
    intro m hm
    simp only [List.mem_append] at hm ⊢
    tauto
  refine ⟨.cons hready h.ordered, by rw [h.visited]; rfl, hleft, ?_, ?_, ?_⟩
  · dsimp only
    rw [hnext]
    have hmove : (n :: done ++ (pushed ++ queue)).Perm (pushed ++ (n :: done ++ queue)) := by
      rw [← List.append_assoc, ← List.append_assoc]
      exact List.perm_append_comm.append_right queue
    rw [hmove.nodup_iff, List.nodup_append]
    exact ⟨hnodup, honce, fun m hm m' hm' heq => hfresh m hm (heq ▸ hm')⟩
  · intro m hm
    dsimp only at hm ⊢
    rw [hnext] at hm
    rw [hindeg]
    rcases hall m hm with hm | hm
    · rw [(hpushed m hm).2, Nat.sub_self]
    · dsimp only
      rw [hfree m hm, Nat.zero_sub]
  · intro m hm
    dsimp only at hm
    rw [hnext] at hm
    rcases hall m hm with hm | hm
    · obtain ⟨hadjacent, -⟩ := hpushed m hm
      rw [hadj] at hadjacent
      obtain ⟨⟨dep, target⟩, he, rfl⟩ := List.mem_map.mp hadjacent
      obtain ⟨s, hs, hid, -⟩ := needs_of_link.mp (List.mem_filter.mp he).1
      exact hid ▸ List.mem_map_of_mem hs
    · exact h.known m (hperm.mem_iff.mpr hm)

/-- The loop is over when every step can have been visited, and what each visit
keeps holds at its end. -/
theorem Kahn.run_keeps {inv : List String → Kahn → Prop}
    (hsound : ∀ {done k}, inv done k → Kahn.Sound steps done k)
    (hvisit : ∀ {done k n queue}, inv done k → k.queue = n :: queue → inv (n :: done)
      ⟨(((degrees steps).adj n).foldl relax (k.indeg, queue)).1,
        (((degrees steps).adj n).foldl relax (k.indeg, queue)).2, k.visited + 1⟩)
    {fuel : Nat} {done : List String} {k : Kahn} (h : inv done k)
    (hfuel : steps.length ≤ k.visited + fuel) :
    ∃ done', inv done' (Kahn.run (degrees steps).adj fuel k) ∧
      (Kahn.run (degrees steps).adj fuel k).queue = [] := by
  induction fuel generalizing done k with
  | zero =>
      refine ⟨done, h, ?_⟩
      have hlen := (hsound h).once.length_le_of_subset (hsound h).known
      rw [List.length_append, List.length_map, ← (hsound h).visited] at hlen
      have hnone : k.queue.length = 0 := by omega
      exact List.length_eq_zero_iff.mp hnone
  | succ fuel ih =>
      rw [Kahn.run]
      split
      · rename_i hqueue
        exact ⟨done, h, hqueue⟩
      · rename_i n queue hqueue
        refine ih (hvisit h hqueue) ?_
        dsimp only
        omega

/-- The steps that wait for nothing. -/
def roots (steps : List WorkflowStep) : List String :=
  (steps.map WorkflowStep.id).filter fun id => (degrees steps).indeg id = 0

/-- Kahn's loop from its start to its end. -/
def Kahn.end (shuffle : List String → List String) (steps : List WorkflowStep) : Kahn :=
  Kahn.run (degrees steps).adj steps.length ⟨(degrees steps).indeg, shuffle (roots steps), 0⟩

theorem validateWorkflowDag_iff {shuffle : List String → List String} :
    validateWorkflowDag shuffle steps = .ok () ↔
      steps ≠ [] ∧ (steps.map WorkflowStep.id).Nodup ∧
        (∀ s ∈ steps, ∀ dep ∈ s.dependsOn, dep ∈ steps.map WorkflowStep.id) ∧
        (Kahn.end shuffle steps).visited = steps.length := by
  unfold validateWorkflowDag
  split
  · rename_i hempty
    simp [List.isEmpty_iff.mp hempty]
  · rename_i hsome
    have hne : steps ≠ [] := fun heq => hsome (List.isEmpty_iff.mpr heq)
    split
    · rename_i hdup
      refine iff_of_false (fun h => by cases h) fun h => ?_
      rw [duplicateId_of_nodup h.2.1 fun _ _ => List.not_mem_nil] at hdup
      cases hdup
    · rename_i hdup
      obtain ⟨hunique, -⟩ := duplicateId_none hdup
      have hmissing : (steps.findSome? fun s => (s.dependsOn.find? fun dep =>
          dep ∉ steps.map WorkflowStep.id).map fun dep => (s.id, dep)) = none ↔
          ∀ s ∈ steps, ∀ dep ∈ s.dependsOn, dep ∈ steps.map WorkflowStep.id := by
        simp only [List.findSome?_eq_none_iff, Option.map_eq_none_iff, List.find?_eq_none,
          decide_eq_true_eq, not_not]
      split
      · rename_i hbad
        refine iff_of_false (fun h => by cases h) fun h => ?_
        rw [hmissing.mpr h.2.2.1] at hbad
        cases hbad
      · rename_i hnone
        dsimp only
        split
        · rename_i hvisited
          exact iff_of_false (fun h => by cases h) fun h => hvisited h.2.2.2
        · rename_i hvisited
          exact iff_of_true rfl ⟨hne, hunique, hmissing.mp hnone, not_not.mp hvisited⟩

theorem Kahn.Sound.start {shuffle : List String → List String}
    (hshuffle : ∀ ids, (shuffle ids).Perm ids) (hunique : (steps.map WorkflowStep.id).Nodup) :
    Kahn.Sound steps [] ⟨(degrees steps).indeg, shuffle (roots steps), 0⟩ := by
  have hroots : ∀ m ∈ shuffle (roots steps), m ∈ roots steps := fun m hm =>
    (hshuffle _).mem_iff.mp hm
  refine ⟨.nil, rfl, ?_, ?_, ?_, ?_⟩
  · intro m
    simpa using (degrees_eq steps).2 m
  · exact (hshuffle _).nodup_iff.mpr (hunique.filter _)
  · exact fun m hm => of_decide_eq_true (List.mem_filter.mp (hroots m hm)).2
  · exact fun m hm => (List.mem_filter.mp (hroots m hm)).1

theorem checked_of_validateWorkflowDag {shuffle : List String → List String}
    (hshuffle : ∀ ids, (shuffle ids).Perm ids) (h : validateWorkflowDag shuffle steps = .ok ()) :
    Checked steps := by
  obtain ⟨-, hunique, hknown, hvisited⟩ := validateWorkflowDag_iff.mp h
  obtain ⟨done, hsound, -⟩ := Kahn.run_keeps id Kahn.Sound.visit
    (Kahn.Sound.start hshuffle hunique) (Nat.le_add_left _ _)
  have hlen : done.length = steps.length := hsound.visited.symm.trans hvisited
  have honce : done.Nodup := (List.nodup_append.mp hsound.once).1
  have hsub : done ⊆ steps.map WorkflowStep.id := fun m hm =>
    hsound.known m (List.mem_append_left _ hm)
  have hperm : done.Perm (steps.map WorkflowStep.id) :=
    (honce.subperm hsub).perm_of_length_le (by rw [List.length_map, hlen])
  refine checked_of_ordered hunique hknown hsound.ordered fun s hs => ?_
  exact hperm.mem_iff.mpr (List.mem_map_of_mem hs)

end Graph

end AgentGrid.Workflow
