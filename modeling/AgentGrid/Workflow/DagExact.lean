import AgentGrid.Workflow.DagSafety

/-!
# The checks accept every graph without a cycle

`DagSafety` has that what passes either check is a graph without a cycle.  The
converse: a gray step that is met again lies on a cycle, and Kahn's queue runs
dry only when every step that can be done has been visited.
-/

namespace AgentGrid.Workflow

open AgentGrid.Foundation

/-- Unique ids, and every dependency an existing other step. -/
structure Listed (steps : List WorkflowStep) : Prop where
  unique : (steps.map WorkflowStep.id).Nodup
  known : ∀ s ∈ steps, ∀ dep ∈ s.dependsOn, ∃ s' ∈ steps, s'.id = dep ∧ s'.id ≠ s.id

theorem badDependency_eq_none {steps : List WorkflowStep} :
    badDependency steps = none ↔
      ∀ s ∈ steps, ∀ dep ∈ s.dependsOn, ∃ s' ∈ steps, s'.id = dep ∧ s'.id ≠ s.id := by
  simp only [badDependency, List.findSome?_eq_none_iff]
  refine forall₂_congr fun s _ => forall₂_congr fun dep _ => ?_
  constructor
  · intro h
    split at h
    · cases h
    · rename_i hself
      split at h
      · cases h
      · rename_i hin
        obtain ⟨s', hs', hid⟩ := List.mem_map.mp (not_not.mp hin)
        exact ⟨s', hs', hid, fun heq => hself (hid.symm.trans heq)⟩
  · rintro ⟨s', hs', rfl, hother⟩
    rw [if_neg hother, if_neg (not_not.mpr (List.mem_map_of_mem hs'))]

section Graph

variable {steps : List WorkflowStep}

/-! ## Depth-first search -/

/-- The stack is a path, and the gray steps are on it. -/
structure Search.Path (steps : List WorkflowStep) (s : Search) : Prop where
  chain : (s.stack.map Prod.fst).IsChain fun a b => Needs steps b a
  gray : ∀ x, s.color x = .gray → x ∈ s.stack.map Prod.fst

theorem path_advance (hunique : (steps.map WorkflowStep.id).Nodup)
    (hacyclic : Acyclic (Needs steps)) {color : String → Color} {node : String} {i : Nat}
    {rest : List (String × Nat)} (h : Search.Path steps ⟨color, (node, i) :: rest⟩) :
    ∃ s, Search.advance steps color node i rest = .ok s ∧ s.Path steps := by
  have hgray : ∀ x, Search.enter color node i x = .gray → x ∈ node :: rest.map Prod.fst := by
    intro x hx
    rcases enter_gray hx with rfl | hx
    · exact List.mem_cons_self
    · exact h.gray x hx
  simp only [Search.advance]
  cases hnext : (dependencies steps node)[i]? with
  | none =>
      refine ⟨_, rfl, h.chain.tail, fun x hx => ?_⟩
      dsimp only at hx
      by_cases hnode : x = node
      · rw [hnode, Function.update_self] at hx
        cases hx
      · rw [Function.update_of_ne hnode] at hx
        exact (List.mem_cons.mp (hgray x hx)).resolve_left hnode
  | some next =>
      have hneeds : Needs steps node next :=
        (needs_iff hunique).mpr (List.mem_of_getElem? hnext)
      dsimp only
      cases hcolor : Search.enter color node i next with
      | white =>
          refine ⟨_, rfl, List.isChain_cons_cons.mpr ⟨hneeds, h.chain⟩, fun x hx => ?_⟩
          exact List.mem_cons_of_mem _ (hgray x hx)
      | black => exact ⟨_, rfl, h.chain, hgray⟩
      | gray =>
          exfalso
          rcases List.mem_cons.mp (hgray next hcolor) with rfl | hbelow
          · exact hacyclic next (.single hneeds)
          · exact hacyclic next ((needed_of_chain h.chain next hbelow).tail hneeds)

theorem path_run (hunique : (steps.map WorkflowStep.id).Nodup) (hacyclic : Acyclic (Needs steps))
    {fuel : Nat} {s : Search} (h : s.Path steps) (hends : (s.run steps fuel).isSome = true) :
    ∃ color, s.run steps fuel = some (.ok color) ∧ Search.Path steps ⟨color, []⟩ := by
  induction fuel generalizing s with
  | zero =>
      obtain ⟨color, stack⟩ := s
      cases stack with
      | nil => exact ⟨color, rfl, h⟩
      | cons entry rest => cases hends
  | succ fuel ih =>
      obtain ⟨color, stack⟩ := s
      cases stack with
      | nil => exact ⟨color, rfl, h⟩
      | cons entry rest =>
          obtain ⟨node, i⟩ := entry
          obtain ⟨t, ht, hpath⟩ := path_advance hunique hacyclic h
          simp only [Search.run, ht] at hends ⊢
          exact ih hpath hends

theorem path_searchAll (hunique : (steps.map WorkflowStep.id).Nodup)
    (hacyclic : Acyclic (Needs steps)) {rest : List WorkflowStep} {color : String → Color}
    (h : Search.Path steps ⟨color, []⟩) (hends : (searchAll steps rest color).isSome = true) :
    searchAll steps rest color = some (.ok ()) := by
  induction rest generalizing color with
  | nil => rfl
  | cons s rest ih =>
      simp only [searchAll] at hends ⊢
      split at hends
      · rename_i hwhite
        have hstart : Search.Path steps ⟨color, [(s.id, 0)]⟩ :=
          ⟨List.isChain_singleton _, fun x hx => by cases h.gray x hx⟩
        have hsome : (Search.run steps (searchFuel steps) ⟨color, [(s.id, 0)]⟩).isSome = true := by
          by_contra hnone
          rw [Option.not_isSome_iff_eq_none.mp hnone] at hends
          cases hends
        obtain ⟨color', hrun, hpath⟩ := path_run hunique hacyclic hstart hsome
        rw [hrun] at hends
        rw [if_pos hwhite, hrun]
        exact ih hpath hends
      · rename_i hcolored
        rw [if_neg hcolored]
        exact ih h hends

theorem validateDag_ok (h : Listed steps) (hacyclic : Acyclic (Needs steps)) :
    validateDag steps = some (.ok ()) := by
  have hdup : duplicateId steps [] = none :=
    duplicateId_of_nodup h.unique fun _ _ => List.not_mem_nil
  simp only [validateDag, hdup, badDependency_eq_none.mpr h.known]
  refine path_searchAll h.unique hacyclic ⟨List.isChain_nil, fun x hx => ?_⟩ (searchAll_isSome _ _)
  cases hx

theorem listed_of_validateDag (h : validateDag steps = some (.ok ())) : Listed steps := by
  unfold validateDag at h
  split at h
  · cases h
  · rename_i hdup
    split at h
    · cases h
    · rename_i hbad
      exact ⟨(duplicateId_none hdup).1, badDependency_eq_none.mp hbad⟩

/-! ## Kahn's algorithm -/

theorem relax_queue (l : List String) {k : (String → Nat) × List String} {m : String}
    (h : m ∈ k.2) : m ∈ (l.foldl relax k).2 := by
  induction l generalizing k with
  | nil => exact h
  | cons a l ih =>
      refine ih ?_
      simp only [relax]
      split
      · exact List.mem_cons_of_mem _ h
      · exact h

/-- The visit that takes the last dependency of a step puts it into the queue. -/
theorem relax_pushes (l : List String) {k : (String → Nat) × List String} {m : String}
    (hm : m ∈ l) (hlast : k.1 m = l.count m) : m ∈ (l.foldl relax k).2 := by
  induction l generalizing k with
  | nil => cases hm
  | cons a l ih =>
      rw [List.foldl_cons]
      by_cases hlater : m ∈ l
      · refine ih hlater ?_
        by_cases ha : m = a
        · subst ha
          rw [List.count_cons_self] at hlast
          simp only [relax, Function.update_self]
          omega
        · rw [List.count_cons_of_ne (Ne.symm ha)] at hlast
          simp only [relax, Function.update_of_ne ha]
          exact hlast
      · obtain rfl : m = a := (List.mem_cons.mp hm).resolve_right hlater
        rw [List.count_cons_self, List.count_eq_zero_of_not_mem hlater] at hlast
        refine relax_queue l ?_
        simp [relax, hlast]

/-- Moreover, what waits for nothing more has been visited or stands in the queue. -/
structure Kahn.Ready (steps : List WorkflowStep) (done : List String) (k : Kahn) : Prop where
  sound : k.Sound steps done
  ready : ∀ m ∈ steps.map WorkflowStep.id, k.indeg m = 0 → m ∈ done ++ k.queue

theorem Kahn.Ready.visit {done queue : List String} {k : Kahn} {n : String}
    (h : k.Ready steps done) (hqueue : k.queue = n :: queue) :
    Kahn.Ready steps (n :: done)
      ⟨(((degrees steps).adj n).foldl relax (k.indeg, queue)).1,
        (((degrees steps).adj n).foldl relax (k.indeg, queue)).2, k.visited + 1⟩ := by
  have hsound := h.sound.visit hqueue
  have hn : n ∉ done := by
    have honce := h.sound.once
    rw [hqueue] at honce
    exact (List.nodup_middle.mp honce).notMem ∘ List.mem_append_left _
  refine ⟨hsound, fun m hm hzero => ?_⟩
  by_cases hbefore : k.indeg m = 0
  · have hin := h.ready m hm hbefore
    rw [hqueue] at hin
    rcases List.mem_append.mp hin with hin | hin
    · exact List.mem_append_left _ (List.mem_cons_of_mem _ hin)
    · rcases List.mem_cons.mp hin with rfl | hin
      · exact List.mem_append_left _ List.mem_cons_self
      · exact List.mem_append_right _ (relax_queue _ hin)
  · have hleft := hsound.indeg m
    have hsplit := countP_visit (links steps) m n hn
    rw [← h.sound.indeg m, ← hleft, hzero, Nat.zero_add, ← (degrees_eq steps).1 n] at hsplit
    refine List.mem_append_right _ (relax_pushes _ ?_ hsplit)
    exact List.count_pos_iff.mp (by omega)

theorem Kahn.Ready.start {shuffle : List String → List String}
    (hshuffle : ∀ ids, (shuffle ids).Perm ids) (hunique : (steps.map WorkflowStep.id).Nodup) :
    Kahn.Ready steps [] ⟨(degrees steps).indeg, shuffle (roots steps), 0⟩ := by
  refine ⟨.start hshuffle hunique, fun m hm hzero => ?_⟩
  exact (hshuffle _).mem_iff.mpr (List.mem_filter.mpr ⟨hm, decide_eq_true hzero⟩)

/-- With an empty queue nothing is left that can be done. -/
theorem Kahn.Ready.all {done : List String} {k : Kahn} (h : k.Ready steps done)
    (hqueue : k.queue = [])
    (hknown : ∀ s ∈ steps, ∀ dep ∈ s.dependsOn, dep ∈ steps.map WorkflowStep.id)
    (hgrounded : Grounded (Needs steps)) :
    ∀ m ∈ steps.map WorkflowStep.id, m ∈ done := by
  intro m
  induction m using hgrounded.induction with
  | _ m ih =>
      intro hm
      have hwaits : k.indeg m = 0 := by
        rw [h.sound.indeg, List.countP_eq_zero]
        rintro ⟨dep, target⟩ hlink hcounted
        obtain ⟨rfl, hopen⟩ := of_decide_eq_true hcounted
        obtain ⟨s, hs, -, hdep⟩ := needs_of_link.mp hlink
        exact hopen (ih dep (needs_of_link.mp hlink) (hknown s hs dep hdep))
      have hin := h.ready m hm hwaits
      rwa [hqueue, List.append_nil] at hin

theorem validateWorkflowDag_ok {shuffle : List String → List String}
    (hshuffle : ∀ ids, (shuffle ids).Perm ids) (hne : steps ≠ [])
    (hunique : (steps.map WorkflowStep.id).Nodup)
    (hknown : ∀ s ∈ steps, ∀ dep ∈ s.dependsOn, dep ∈ steps.map WorkflowStep.id)
    (hgrounded : Grounded (Needs steps)) : validateWorkflowDag shuffle steps = .ok () := by
  refine validateWorkflowDag_iff.mpr ⟨hne, hunique, hknown, ?_⟩
  obtain ⟨done, hready, hqueue⟩ := Kahn.run_keeps Kahn.Ready.sound Kahn.Ready.visit
    (Kahn.Ready.start hshuffle hunique) (Nat.le_add_left _ _)
  have hall := hready.all hqueue hknown hgrounded
  have honce : done.Nodup := (List.nodup_append.mp hready.sound.once).1
  have hle := honce.length_le_of_subset fun m hm =>
    hready.sound.known m (List.mem_append_left _ hm)
  have hge := hunique.length_le_of_subset hall
  have hvisited := hready.sound.visited
  rw [List.length_map] at hle hge
  exact hvisited.trans (by omega)

/-- Both checks accept the lists that are graphs without a cycle, whatever the
order in which the second reads its map, but for the empty list. -/
theorem validate_dag_exact (steps : List WorkflowStep) :
    (validateDag steps = some (.ok ()) ↔
      (steps.map WorkflowStep.id).Nodup ∧
        (∀ s ∈ steps, ∀ dep ∈ s.dependsOn, ∃ s' ∈ steps, s'.id = dep ∧ s'.id ≠ s.id) ∧
        Acyclic (Needs steps)) ∧
    (validateDag steps).isSome = true ∧
    (steps ≠ [] → ∀ shuffle : List String → List String, (∀ ids, (shuffle ids).Perm ids) →
      (validateWorkflowDag shuffle steps = .ok () ↔ validateDag steps = some (.ok ()))) := by
  refine ⟨⟨fun h => ?_, fun h => validateDag_ok ⟨h.1, h.2.1⟩ h.2.2⟩, validateDag_isSome steps,
    fun hne shuffle hshuffle => ⟨fun h => ?_, fun h => ?_⟩⟩
  · have hlisted := listed_of_validateDag h
    exact ⟨hlisted.unique, hlisted.known, (checked_of_validateDag h).dag.acyclic⟩
  · have hchecked := checked_of_validateWorkflowDag hshuffle h
    refine validateDag_ok ⟨hchecked.unique, fun s hs dep hdep => ?_⟩ hchecked.dag.acyclic
    obtain ⟨s', hs', rfl⟩ := List.mem_map.mp (hchecked.known s hs dep hdep)
    refine ⟨s', hs', rfl, fun heq => hchecked.dag.acyclic s.id (.single ⟨s, hs, rfl, ?_⟩)⟩
    exact heq ▸ hdep
  · have hchecked := checked_of_validateDag h
    exact validateWorkflowDag_ok hshuffle hne hchecked.unique hchecked.known hchecked.grounded

end Graph

/-- A step that names its dependency twice. -/
def twice : List WorkflowStep :=
  [{ id := "review", dependsOn := ["build", "build"] }, { id := "build" }]

theorem validate_dag_exact_twice : validateWorkflowDag List.reverse twice = .ok () :=
  ((validate_dag_exact twice).2.2 (by decide) List.reverse fun ids => ids.reverse_perm).mpr rfl

end AgentGrid.Workflow
