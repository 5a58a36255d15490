import AgentGrid.Workflow.DagSafety
import AgentGrid.Workflow.PlanPause
import Mathlib.Data.List.Nodup

/-!
# Plan approval

A plan is checked on its own and then joined to the steps its run already has,
in an assembly with a system step of the fixed id `collect`.  Approval succeeds
when these ids do not meet, and then leaves a graph that passes the checks again.
-/

namespace AgentGrid.Workflow

open AgentGrid.Foundation

/-- A run of a template that `create_workflow_template` has stored; the map of
its check is read in some order. -/
def Templated (S : System) : Prop :=
  ∃ shuffle : List String → List String, (∀ ids, (shuffle ids).Perm ids) ∧
    validateWorkflowDag shuffle (S.world.steps.map WorkflowStepRun.step) = .ok ()

/-- The ids the plan brings to its run are new, and no two of them are the same. -/
structure Fits (w : World) (plan : List WorkflowStep) : Prop where
  fresh : ∀ s ∈ plan, s.id ∉ w.steps.map (·.step.id)
  collector : w.run.assembly = true → (∀ s ∈ plan, s.role ≠ .collector) →
    "collect" ∉ w.steps.map (·.step.id) ∧ "collect" ∉ plan.map WorkflowStep.id

/-! ## Joined graphs -/

theorem Checked.append {xs ys : List WorkflowStep} (hx : Checked xs) (hy : Checked ys)
    (hunique : ((xs ++ ys).map WorkflowStep.id).Nodup) : Checked (xs ++ ys) := by
  rw [List.map_append, List.nodup_append] at hunique
  obtain ⟨-, -, hapart⟩ := hunique
  have hleft : ∀ a b, a ∈ xs.map WorkflowStep.id → Needs (xs ++ ys) a b →
      Needs xs a b ∧ b ∈ xs.map WorkflowStep.id := by
    rintro a b ha ⟨s, hs, rfl, hb⟩
    rcases List.mem_append.mp hs with hs | hs
    · exact ⟨⟨s, hs, rfl, hb⟩, hx.known s hs b hb⟩
    · exact absurd rfl (hapart _ ha _ (List.mem_map_of_mem hs))
  have hright : ∀ a b, a ∈ ys.map WorkflowStep.id → Needs (xs ++ ys) a b →
      Needs ys a b ∧ b ∈ ys.map WorkflowStep.id := by
    rintro a b ha ⟨s, hs, rfl, hb⟩
    rcases List.mem_append.mp hs with hs | hs
    · exact absurd rfl (hapart _ (List.mem_map_of_mem hs) _ ha)
    · exact ⟨⟨s, hs, rfl, hb⟩, hy.known s hs b hb⟩
  refine ⟨?_, ?_, ⟨fun a => ⟨a, fun b hb => ?_⟩⟩⟩
  · rw [List.map_append, List.nodup_append]
    exact ⟨hx.unique, hy.unique, hapart⟩
  · intro s hs dep hdep
    rw [List.map_append, List.mem_append]
    rcases List.mem_append.mp hs with hs | hs
    · exact .inl (hx.known s hs dep hdep)
    · exact .inr (hy.known s hs dep hdep)
  · obtain ⟨s, hs, rfl, hdep⟩ := hb
    rcases List.mem_append.mp hs with hs | hs
    · exact acc_of_agrees hleft (hx.grounded.apply b) (hx.known s hs b hdep)
    · exact acc_of_agrees hright (hy.grounded.apply b) (hy.known s hs b hdep)

/-- A step behind others, which do not depend on it. -/
theorem Checked.behind {xs : List WorkflowStep} (h : Checked xs) {s : WorkflowStep}
    (hid : s.id ∉ xs.map WorkflowStep.id) (hdeps : ∀ d ∈ s.dependsOn, d ∈ xs.map WorkflowStep.id) :
    Checked (xs ++ [s]) := by
  have hinside : ∀ a b, a ∈ xs.map WorkflowStep.id → Needs (xs ++ [s]) a b →
      Needs xs a b ∧ b ∈ xs.map WorkflowStep.id := by
    rintro a b ha ⟨t, ht, rfl, hb⟩
    rcases List.mem_append.mp ht with ht | ht
    · exact ⟨⟨t, ht, rfl, hb⟩, h.known t ht b hb⟩
    · rw [List.mem_singleton.mp ht] at ha
      exact absurd ha hid
  refine ⟨?_, ?_, ⟨fun a => ⟨a, fun b hb => ?_⟩⟩⟩
  · rw [List.map_append, List.nodup_append]
    refine ⟨h.unique, List.nodup_singleton _, fun a ha b hb heq => hid ?_⟩
    rw [← List.mem_singleton.mp hb, ← heq]
    exact ha
  · intro t ht dep hdep
    rw [List.map_append, List.mem_append]
    rcases List.mem_append.mp ht with ht | ht
    · exact .inl (h.known t ht dep hdep)
    · rw [List.mem_singleton.mp ht] at hdep
      exact .inl (hdeps dep hdep)
  · obtain ⟨t, ht, rfl, hdep⟩ := hb
    rcases List.mem_append.mp ht with ht | ht
    · exact acc_of_agrees hinside (h.grounded.apply b) (h.known t ht b hdep)
    · rw [List.mem_singleton.mp ht] at hdep
      exact acc_of_agrees hinside (h.grounded.apply b) (hdeps b hdep)

theorem Checked.map {xs : List WorkflowStep} (h : Checked xs) {f : WorkflowStep → WorkflowStep}
    (hf : ∀ s, (f s).id = s.id ∧ (f s).dependsOn = s.dependsOn) : Checked (xs.map f) := by
  have hids : (xs.map f).map WorkflowStep.id = xs.map WorkflowStep.id := by
    rw [List.map_map]
    exact List.map_congr_left fun s _ => (hf s).1
  have hneeds : Needs (xs.map f) = Needs xs := by
    funext a b
    apply propext
    constructor
    · rintro ⟨t, ht, hid, hb⟩
      obtain ⟨s, hs, rfl⟩ := List.mem_map.mp ht
      exact ⟨s, hs, (hf s).1.symm.trans hid, (hf s).2 ▸ hb⟩
    · rintro ⟨s, hs, hid, hb⟩
      exact ⟨f s, List.mem_map_of_mem hs, (hf s).1.trans hid, (hf s).2.symm ▸ hb⟩
  refine ⟨hids ▸ h.unique, ?_, hneeds ▸ h.grounded⟩
  intro t ht dep hdep
  obtain ⟨s, hs, rfl⟩ := List.mem_map.mp ht
  rw [hids]
  exact h.known s hs dep ((hf s).2 ▸ hdep)

/-! ## The rows of a plan -/

section Rows

variable {run : WorkflowRun} {plan : List WorkflowStep} {ids : Nat → String}

/-- A step of a plan as its row has it. -/
def inherit (run : WorkflowRun) (s : WorkflowStep) : WorkflowStep :=
  { s with
    adapter := (s.adapter.filter fun a => !a.isEmpty) <|> run.adapter
    expandable := none }

/-- The collector behind a plan. -/
def collector (run : WorkflowRun) (plan : List WorkflowStep) : WorkflowStep :=
  { id := "collect", prompt := assemblyCollectorPrompt, dependsOn := plan.map (·.id),
    role := .collector, adapter := run.adapter }

theorem planRows_step : (World.planRows run plan ids).map WorkflowStepRun.step =
    plan.map (inherit run) ++
      if run.assembly = true ∧ (plan.all fun s => s.role ≠ .collector) = true then
        [collector run plan] else [] := by
  rw [World.planRows, List.mapIdx_eq_zipIdx_map, List.map_map]
  exact List.zipIdx_map_fst 0 _

theorem planRows_id : (World.planRows run plan ids).map WorkflowStepRun.id =
    (List.range (World.planRows run plan ids).length).map ids := by
  rw [World.planRows, List.mapIdx_eq_zipIdx_map, List.map_map, List.length_map,
    List.length_zipIdx, List.range_eq_range', ← List.zipIdx_map_snd, List.map_map]
  rfl

theorem keyed_planRows {w : World} (hkeyed : Keyed w.steps) (hids : Function.Injective ids)
    (hnew : ∀ i, ids i ∉ w.steps.map WorkflowStepRun.id) :
    ((w.steps ++ World.planRows run plan ids).map WorkflowStepRun.id).Nodup := by
  rw [List.map_append, planRows_id, List.nodup_append]
  refine ⟨hkeyed.1, List.nodup_range.map hids, ?_⟩
  rintro id hid id' hid' rfl
  obtain ⟨i, -, rfl⟩ := List.mem_map.mp hid'
  exact hnew i hid

/-- The ids a plan brings meet neither each other nor the ids of the run. -/
theorem fits_iff {w : World} (hkeyed : Keyed w.steps) (hplan : (plan.map WorkflowStep.id).Nodup) :
    ((w.steps ++ World.planRows w.run plan ids).map (·.step.id)).Nodup ↔ Fits w plan := by
  have hrows : (World.planRows w.run plan ids).map (·.step.id) = plan.map WorkflowStep.id ++
      if w.run.assembly = true ∧ (plan.all fun s => s.role ≠ .collector) = true then ["collect"]
      else [] := by
    have hstep := congrArg (List.map WorkflowStep.id) (@planRows_step w.run plan ids)
    rw [List.map_map, List.map_append, List.map_map] at hstep
    refine hstep.trans ?_
    split <;> rfl
  have hall : ((plan.all fun s => s.role ≠ .collector) = true) ↔ ∀ s ∈ plan, s.role ≠ .collector := by
    simp
  rw [List.map_append, hrows, List.nodup_append]
  constructor
  · rintro ⟨-, hnew, hapart⟩
    refine ⟨?_, fun hassembly hroles => ?_⟩
    · intro s hs hold
      exact hapart _ hold _ (List.mem_append_left _ (List.mem_map_of_mem hs)) rfl
    · rw [if_pos ⟨hassembly, hall.mpr hroles⟩] at hnew hapart
      refine ⟨?_, ?_⟩
      · intro hold
        exact hapart _ hold _ (List.mem_append_right _ (List.mem_singleton_self _)) rfl
      · intro hin
        exact (List.nodup_append.mp hnew).2.2 _ hin _ (List.mem_singleton_self _) rfl
  · rintro ⟨hfresh, hcollector⟩
    have hapart : ∀ a ∈ w.steps.map (·.step.id), ∀ b ∈ plan.map WorkflowStep.id, a ≠ b := by
      rintro a ha b hb rfl
      obtain ⟨s, hs, rfl⟩ := List.mem_map.mp hb
      exact hfresh s hs ha
    split
    · rename_i hcollects
      obtain ⟨hold, hown⟩ := hcollector hcollects.1 (hall.mp hcollects.2)
      refine ⟨hkeyed.2, ?_, ?_⟩
      · rw [List.nodup_append]
        refine ⟨hplan, List.nodup_singleton _, ?_⟩
        rintro a ha b hb rfl
        exact hown (List.mem_singleton.mp hb ▸ ha)
      · rintro a ha b hb rfl
        rcases List.mem_append.mp hb with hb | hb
        · exact hapart a ha a hb rfl
        · exact hold (List.mem_singleton.mp hb ▸ ha)
    · rw [List.append_nil]
      exact ⟨hkeyed.2, hplan, hapart⟩

/-- What a plan is expanded to passes the checks with the steps there are. -/
theorem checked_expanded {w : World} (hsteps : Checked (w.steps.map WorkflowStepRun.step))
    (hplan : Checked plan) (hkeyed : Keyed (w.steps ++ World.planRows run plan ids)) :
    Checked ((w.steps ++ World.planRows run plan ids).map WorkflowStepRun.step) := by
  have hunique := hkeyed.2
  have hids : (w.steps ++ World.planRows run plan ids).map (·.step.id) =
      ((w.steps ++ World.planRows run plan ids).map WorkflowStepRun.step).map WorkflowStep.id := by
    rw [List.map_map]
    rfl
  rw [hids, List.map_append, planRows_step] at hunique
  rw [List.map_append, planRows_step]
  have hrows : Checked (plan.map (inherit run)) := hplan.map fun s => ⟨rfl, rfl⟩
  split at hunique
  · rename_i hcollects
    rw [if_pos hcollects]
    have hlast := hunique
    rw [List.map_append, List.nodup_append] at hlast
    refine hsteps.append (hrows.behind ?_ ?_) hunique
    · intro hin
      have hnodup := hlast.2.1
      rw [List.map_append, List.nodup_append] at hnodup
      exact hnodup.2.2 _ hin _ (List.mem_map_of_mem (List.mem_singleton_self _)) rfl
    · intro d hd
      obtain ⟨s, hs, rfl⟩ := List.mem_map.mp hd
      rw [List.map_map]
      exact List.mem_map.mpr ⟨s, hs, rfl⟩
  · rename_i hcollects
    rw [if_neg hcollects]
    rw [List.append_nil] at hunique ⊢
    exact hsteps.append hrows hunique

end Rows

/-! ## Only accepted plans are expanded -/

def Tx.Parsed (parse : PlanParser) : Tx → Prop
  | .expandPlan _ plan => ∃ text, parse text = .ok plan
  | _ => True

abbrev Parses {α : Type} (parse : PlanParser) (p : Program α) : Prop :=
  p.All fun _ tx => tx.Parsed parse

section Parses

variable {parse : PlanParser} {run : WorkflowRun} {steps : List WorkflowStepRun} {l : Progress}
  {row : WorkflowStepRun} {task : String}

theorem parses_onSucceeded : Parses parse (onSucceeded l row task) := by
  refine all_hold trivial fun claimed => ?_
  cases claimed with
  | false => exact trivial
  | true =>
      refine all_hold trivial fun commitSha => all_hold trivial fun _ => ?_
      split
      · refine all_hold trivial fun plan => ?_
        cases plan with
        | none => exact trivial
        | some plan => exact all_hold trivial fun _ => all_hold trivial fun _ => trivial
      · exact trivial

theorem parses_onCancelled : Parses parse (onCancelled l row) := by
  refine all_hold trivial fun claimed => ?_
  cases claimed <;> exact trivial

theorem parses_resetIfWedged : Parses parse (resetIfWedged l row) := by
  refine all_hold trivial fun claimed => ?_
  cases claimed <;> exact trivial

theorem parses_closeStep {status : WorkflowStepStatus} : Parses parse (closeStep l row status) :=
  all_hold trivial fun _ => trivial

theorem parses_retryStep : Parses parse (retryStep run l row task) := by
  refine all_hold trivial fun reply => ?_
  cases reply with
  | error e => exact all_hold trivial fun _ => trivial
  | ok new => exact all_hold trivial fun _ => trivial

theorem parses_rerunWorker {u : WorkflowStepRun} :
    Parses parse (rerunWorker run l row u task) := by
  refine all_hold trivial fun claimed => ?_
  cases claimed with
  | false => exact trivial
  | true =>
      refine all_hold trivial fun reply => ?_
      cases reply with
      | error e => exact all_hold trivial fun _ => trivial
      | ok new =>
          exact all_hold trivial fun _ => all_hold trivial fun _ => all_hold trivial fun _ => trivial

theorem parses_onFailed : Parses parse (onFailed run steps l row task) := by
  refine all_hold trivial fun claimed => ?_
  cases claimed with
  | false => exact trivial
  | true =>
      change Prog.All _ (if row.step.retryable.getD false = true ∧
        row.attempts + 1 < row.step.maxAttempts.getD 1 then _ else _)
      split
      · exact parses_retryStep
      · split
        · exact parses_closeStep
        · split
          · exact parses_closeStep
          · split
            · unfold onRejected
              split
              · split
                · exact parses_rerunWorker
                · exact parses_closeStep
              · exact parses_closeStep
            · exact parses_closeStep

theorem parses_tickRunning : Parses parse (tickRunning run steps l row) := by
  refine all_hold trivial fun link => ?_
  cases link with
  | none => exact parses_resetIfWedged
  | some task =>
      refine all_hold trivial fun status => ?_
      split
      · exact parses_onSucceeded
      · exact parses_onFailed
      · exact parses_onCancelled
      all_goals exact trivial

theorem parses_tickPending : Parses parse (tickPending run l row) := by
  unfold tickPending
  split
  · refine all_hold trivial fun messages => all_hold trivial fun claimed => ?_
    cases claimed with
    | false => exact trivial
    | true =>
        refine all_hold trivial fun reply => ?_
        cases reply with
        | error e => exact all_hold trivial fun _ => trivial
        | ok new => exact all_hold trivial fun _ => trivial
  · exact trivial

theorem parses_tickLoop (rest : List WorkflowStepRun) (l : Progress) :
    Parses parse (tickLoop run steps rest l) := by
  induction rest generalizing l with
  | nil =>
      refine all_hold trivial fun now => ?_
      split
      · exact all_hold trivial fun _ => trivial
      · exact trivial
  | cons row rest ih =>
      refine Prog.All.bind ?_ fun flow => ?_
      · unfold tickStep
        split
        case h_6 => exact parses_tickRunning
        case h_7 => exact parses_tickPending
        all_goals exact trivial
      · cases flow with
        | next l => exact ih l
        | stop result => exact trivial

theorem parses_cancelStepTasks : Parses parse (cancelStepTasks steps) := by
  induction steps with
  | nil => exact all_hold trivial fun _ => trivial
  | cons row rest ih =>
      unfold cancelStepTasks
      split
      · refine all_hold trivial fun link => ?_
        cases link with
        | none => exact ih
        | some task => exact all_hold trivial fun _ => ih
      · exact ih

theorem parses_tickRun : Parses parse (tickRun run) := by
  have hsteps : Parses parse (tickSteps run) :=
    all_hold trivial fun steps => parses_tickLoop steps _
  have hbudget : Parses parse (tickBudget run) := by
    refine all_hold trivial fun budget => ?_
    cases budget with
    | none => exact hsteps
    | some budget =>
        refine all_hold trivial fun steps => all_hold trivial fun usage => ?_
        change Prog.All _ (if _ then _ else _)
        split
        · exact parses_cancelStepTasks
        · exact hsteps
  unfold tickRun
  split
  case h_6 => exact all_hold trivial fun _ => hbudget
  case h_7 => exact hbudget
  all_goals exact trivial

theorem parses_approve : Parses parse (approveWorkflowPlan parse) := by
  refine all_hold trivial fun run => ?_
  split
  · refine all_hold trivial fun stored => ?_
    cases stored with
    | none => exact trivial
    | some text =>
        dsimp only
        split
        · exact trivial
        · rename_i plan hplan
          exact ⟨⟨text, hplan⟩, fun _ => trivial⟩
  · exact trivial

theorem parses_call (c : Call) : Parses parse (c.program parse) := by
  cases c with
  | tick =>
      refine all_hold trivial fun run => ?_
      change Prog.All _ (if _ then _ else _)
      split
      · refine parses_approve.bind fun reply => ?_
        cases reply with
        | error e => exact trivial
        | ok _ => exact all_hold trivial fun _ => parses_tickRun
      · exact parses_tickRun
  | cancel => exact all_hold trivial fun _ => trivial
  | approve =>
      refine parses_approve.bind fun reply => ?_
      cases reply <;> exact trivial
  | block step => exact all_hold trivial fun _ => trivial

end Parses

/-! ## The steps of a run pass the checks -/

/-- The steps so far can be done one after the other, and so can those of every
plan that a call may still expand. -/
structure Planned (parse : PlanParser) (S : System) : Prop where
  keyed : Keyed S.world.steps
  checked : Checked (S.world.steps.map WorkflowStepRun.step)
  calls : ∀ c ∈ S.calls, Parses parse c.2

theorem Planned.initial {parse : PlanParser} {S : System} (h : S.Initial) (ht : Templated S) :
    Planned parse S := by
  obtain ⟨shuffle, hshuffle, hvalid⟩ := ht
  refine ⟨h.world.keyed, checked_of_validateWorkflowDag hshuffle hvalid, ?_⟩
  rw [h.calls]
  nofun

theorem mem_calls_set {calls : List (Call × Program Outcome)} {i : Nat} {new c : Call × Program Outcome}
    (h : c ∈ calls.set i new) : c = new ∨ c ∈ calls :=
  (List.mem_or_eq_of_mem_set h).symm

theorem planned_step {parse : PlanParser}
    (hparse : ∀ text plan, parse text = .ok plan → Checked plan) {S S' : System} {e : Event}
    (hS : Planned parse S) (h : Steps parse S e S') : Planned parse S' := by
  obtain ⟨c, rfl, rfl⟩ | ⟨i, input, c, keys, tx, next, rfl, hcall, rfl⟩ |
    ⟨i, c, p, rfl, hcall, rfl⟩ | ⟨op, rfl, rfl⟩ := step_cases h
  · refine ⟨hS.keyed, hS.checked, fun c' hc' => ?_⟩
    rcases List.mem_append.mp hc' with hc' | hc'
    · exact hS.calls c' hc'
    · rw [List.mem_singleton.mp hc']
      exact parses_call c
  · have hparses := hS.calls _ (List.mem_of_getElem? hcall)
    refine ⟨exec_keyed input tx hS.keyed, ?_, fun c' hc' => ?_⟩
    · obtain hframe | ⟨run, plan, rfl, hkeyed, hsteps⟩ := exec_frame input tx S.world
      · have hsame := congrArg (List.map Prod.snd) hframe
        rw [List.map_map, List.map_map] at hsame
        change Checked ((exec input tx S.world).1.steps.map WorkflowStepRun.step)
        exact (congrArg Checked hsame).mpr hS.checked
      · obtain ⟨⟨text, hplan⟩, -⟩ := hparses
        change Checked ((exec input (.expandPlan run plan) S.world).1.steps.map WorkflowStepRun.step)
        rw [hsteps]
        exact checked_expanded hS.checked (hparse text plan hplan) hkeyed
    · rcases mem_calls_set hc' with rfl | hc'
      · exact hparses.2 _
      · exact hS.calls c' hc'
  · refine ⟨hS.keyed, hS.checked, fun c' hc' => ?_⟩
    rcases mem_calls_set hc' with rfl | hc'
    · exact trivial
    · exact hS.calls c' hc'
  · exact ⟨hS.keyed, hS.checked, hS.calls⟩

theorem checked_of_parsePlanSteps {decoder : PlanDecoder} {text : String}
    {plan : List WorkflowStep} (h : parsePlanSteps decoder text = .ok plan) :
    text ≠ "" ∧ Checked plan := by
  unfold parsePlanSteps at h
  by_cases hempty : trim text = ""
  · rw [if_pos hempty] at h
    cases h
  · rw [if_neg hempty] at h
    refine ⟨?_, ?_⟩
    · rintro rfl
      exact hempty (by decide)
    · cases hdecode : decoder.decode text with
      | error e =>
          rw [hdecode] at h
          cases h
      | ok parsed =>
          rw [hdecode] at h
          change (if parsed.isEmpty = true then _ else _) = _ at h
          split at h
          · cases h
          · cases hvalid : validateDag (parsed.map PlanStep.toWorkflowStep) with
            | none =>
                have hends := validateDag_isSome (parsed.map PlanStep.toWorkflowStep)
                rw [hvalid] at hends
                cases hends
            | some result =>
                rw [hvalid] at h
                cases result with
                | error e => cases h
                | ok _ =>
                    cases h
                    exact checked_of_validateDag hvalid

/-! ## Approval -/

theorem approve_eval {parse : PlanParser} {w : World} {text : String} {plan : List WorkflowStep}
    (hready : w.run.status = .planReady) (htext : text ≠ "") (hplan : parse text = .ok plan)
    (input : Input) :
    (approveWorkflowPlan parse).eval (exec input) { w with plan := some text } =
      World.expandPlan { w with plan := some text } w.run plan input.ids := by
  have hstored : World.nonEmpty (some text) = some text := by
    rw [World.nonEmpty, Option.filter_some, if_pos]
    simpa using htext
  have hlast : (ask (.expandPlan w.run plan) : Program (Except String Unit)).eval (exec input)
      { w with plan := some text } =
        World.expandPlan { w with plan := some text } w.run plan input.ids := rfl
  have hread : exec input .getWorkflowRunPlan { w with plan := some text } =
      ({ w with plan := some text }, some text) := Prod.ext rfl hstored
  have hcall : ∀ (next : Option String → Program (Except String Unit)),
      (Prog.call [] Tx.getWorkflowRunPlan next).eval (exec input) { w with plan := some text } =
        (next (some text)).eval (exec input) { w with plan := some text } := by
    intro next
    rw [Prog.eval, hread]
  rw [← hlast]
  change Prog.eval (exec input) (if w.run.status = .planReady then _ else _) _ = _
  rw [if_pos hready]
  refine (hcall _).trans ?_
  dsimp only [Prog.bind]
  rw [hplan]
  rfl

/-- On a paused run the rows of a plan are added all or none. -/
theorem expandPlan_eq {w : World} {plan : List WorkflowStep} {ids : Nat → String}
    (hready : w.run.status = .planReady)
    (hids : ((w.steps ++ World.planRows w.run plan ids).map WorkflowStepRun.id).Nodup) :
    if ((w.steps ++ World.planRows w.run plan ids).map (·.step.id)).Nodup then
      (w.expandPlan w.run plan ids).2 = .ok () ∧
        (w.expandPlan w.run plan ids).1.steps = w.steps ++ World.planRows w.run plan ids
    else
      (w.expandPlan w.run plan ids).2 ≠ .ok () ∧ (w.expandPlan w.run plan ids).1 = w := by
  unfold World.expandPlan
  dsimp only
  split
  · rename_i hunique
    rw [if_neg fun h => h.elim (absurd hids) (absurd hunique), if_neg (not_not.mpr hready)]
    exact ⟨rfl, rfl⟩
  · rename_i hunique
    rw [if_pos (.inr hunique)]
    exact ⟨nofun, rfl⟩

/-- A plan that passed its own check is approved, and leaves a graph, exactly
when its ids fit the run; else nothing changes. -/
theorem plan_approval (decoder : PlanDecoder) {S₀ S : System} {es : List Event}
    (hS₀ : S₀.Initial) (htemplate : Templated S₀)
    (hrun : Runs (Steps (parsePlanSteps decoder)) S₀ es S)
    (hready : S.world.run.status = .planReady) {text : String} {plan : List WorkflowStep}
    (hplan : parsePlanSteps decoder text = .ok plan) {input : Input}
    (hids : Function.Injective input.ids)
    (hnew : ∀ i, input.ids i ∉ S.world.steps.map WorkflowStepRun.id) :
    let approved := (approveWorkflowPlan (parsePlanSteps decoder)).eval (exec input)
      { S.world with plan := some text }
    (approved.2 = .ok () ∧ Dag (approved.1.steps.map WorkflowStepRun.step) ↔
        Fits S.world plan) ∧
      (approved.2 = .ok () → approved.1.steps =
        S.world.steps ++ World.planRows S.world.run plan input.ids) ∧
      (approved.2 ≠ .ok () → approved.1 = { S.world with plan := some text }) := by
  obtain ⟨htext, hchecked⟩ := checked_of_parsePlanSteps hplan
  have hplanned : Planned (parsePlanSteps decoder) S := hrun.invariant (Planned _)
    (planned_step fun _ _ h => (checked_of_parsePlanSteps h).2) (Planned.initial hS₀ htemplate)
  let w : World := { S.world with plan := some text }
  have hrows : ((w.steps ++ World.planRows w.run plan input.ids).map WorkflowStepRun.id).Nodup :=
    keyed_planRows hplanned.keyed hids hnew
  have hfits : ((w.steps ++ World.planRows w.run plan input.ids).map (·.step.id)).Nodup ↔
      Fits S.world plan := fits_iff hplanned.keyed hchecked.unique
  have hexpand := @expandPlan_eq w plan input.ids hready hrows
  intro approved
  have heval : approved = _ := approve_eval hready htext hplan input
  rw [heval]
  split at hexpand
  · rename_i hunique
    obtain ⟨hok, hsteps⟩ := hexpand
    refine ⟨⟨fun _ => hfits.mp hunique, fun _ => ⟨hok, ?_⟩⟩, fun _ => hsteps, fun h => absurd hok h⟩
    rw [hsteps]
    exact (checked_expanded hplanned.checked hchecked ⟨hrows, hunique⟩).dag
  · rename_i hunique
    obtain ⟨hfailed, hsame⟩ := hexpand
    exact ⟨⟨fun h => absurd h.1 hfailed, fun h => absurd (hfits.mpr h) hunique⟩,
      fun h => absurd h hfailed, fun _ => hsame⟩

/-! ## An assembly whose architect has planned -/

def assembling : System where
  world :=
    { run := { id := "r1", assembly := true, adapter := some "claude" }
      steps := [{ id := "s1", step := { id := "arch", role := .architect, adapter := some "claude",
                                        expandable := some true } }] }

def planAs (id : String) : PlanDecoder where
  json := fun _ => .error "expected value"
  yaml := fun _ => .ok [{ id := id, prompt := "Collect the logs." }]

theorem assembling_initial : assembling.Initial ∧ Templated assembling :=
  ⟨⟨⟨⟨[], .refl _⟩, rfl, by decide, ⟨by decide, by decide⟩, rfl, rfl⟩, rfl⟩, id, fun _ => .refl _, rfl⟩

/-- The second tick finds the architect's plan. -/
def paused (decoder : PlanDecoder) : Option System :=
  (planned ++ advance 1 11 "t2").foldlM (System.step (parsePlanSteps decoder)) assembling

theorem assembling_ready {decoder : PlanDecoder}
    (h : (paused decoder).any (fun S =>
      S.world.run.status == .planReady && S.world.run.assembly &&
        S.world.steps.map (·.step.id) == ["arch"] && S.world.steps.map (·.id) == ["s1"]) = true) :
    ∃ S, Runs (Steps (parsePlanSteps decoder)) assembling (planned ++ advance 1 11 "t2") S ∧
      S.world.run.status = .planReady ∧ S.world.run.assembly = true ∧
      S.world.steps.map (·.step.id) = ["arch"] ∧ S.world.steps.map (·.id) = ["s1"] := by
  obtain ⟨S, hS, hend⟩ := (Option.any_eq_true _ _).mp h
  simp only [Bool.and_eq_true, beq_iff_eq] at hend
  exact ⟨S, Runs.of_foldlM hS, hend.1.1.1, hend.1.1.2, hend.1.2, hend.2⟩

/-- Row ids of the lengths 3, 4 and so on. -/
def freshIds : Nat → String := fun n => String.ofList (List.replicate (n + 3) 'x')

theorem freshIds_injective : Function.Injective freshIds := by
  intro m n h
  have hlists := congrArg String.toList h
  rw [freshIds, freshIds, String.toList_ofList, String.toList_ofList] at hlists
  have hlen := congrArg List.length hlists
  rw [List.length_replicate, List.length_replicate] at hlen
  omega

theorem freshIds_new (n : Nat) : freshIds n ∉ ["s1"] := by
  intro h
  have hlists := congrArg String.toList (List.mem_singleton.mp h)
  rw [freshIds, String.toList_ofList] at hlists
  have hlen := congrArg List.length hlists
  rw [List.length_replicate] at hlen
  have htwo : "s1".toList.length = 2 := by decide
  omega

/-- A plan of one worker is approved. -/
theorem plan_approval_worker : ∃ S,
    Runs (Steps (parsePlanSteps (planAs "logs"))) assembling (planned ++ advance 1 11 "t2") S ∧
      let approved := (approveWorkflowPlan (parsePlanSteps (planAs "logs"))).eval
        (exec { ids := freshIds }) { S.world with plan := some "- id: logs" }
      approved.2 = .ok () ∧ Dag (approved.1.steps.map WorkflowStepRun.step) := by
  obtain ⟨S, hrun, hready, -, hsteps, hids⟩ := @assembling_ready (planAs "logs") (by decide)
  have happroval := @plan_approval (planAs "logs") assembling S _ assembling_initial.1
    assembling_initial.2 hrun hready "- id: logs" _ rfl { ids := freshIds } freshIds_injective
    fun i => hids ▸ freshIds_new i
  refine ⟨S, hrun, happroval.1.mpr ⟨?_, ?_⟩⟩
  · rw [hsteps]
    decide
  · rw [hsteps]
    exact fun _ _ => by decide

/-- The system step takes the id of the plan's only step. -/
theorem collect_not_approved : ¬ ∀ (decoder : PlanDecoder) (S₀ S : System) (es : List Event),
    S₀.Initial → Templated S₀ → Runs (Steps (parsePlanSteps decoder)) S₀ es S →
    S.world.run.status = .planReady → ∀ (text : String) (plan : List WorkflowStep),
    parsePlanSteps decoder text = .ok plan → ∀ input : Input, Function.Injective input.ids →
    (∀ i, input.ids i ∉ S.world.steps.map WorkflowStepRun.id) →
    ((approveWorkflowPlan (parsePlanSteps decoder)).eval (exec input)
      { S.world with plan := some text }).2 = .ok () := by
  intro h
  obtain ⟨S, hrun, hready, hassembly, hsteps, hids⟩ :=
    @assembling_ready (planAs "collect") (by decide)
  let plan : List WorkflowStep :=
    [{ id := "collect", prompt := "Collect the logs.", expandable := some false }]
  have hnew : ∀ i, freshIds i ∉ S.world.steps.map WorkflowStepRun.id := fun i => hids ▸ freshIds_new i
  have hok := h (planAs "collect") assembling S _ assembling_initial.1 assembling_initial.2 hrun
    hready "- id: collect" plan rfl { ids := freshIds } freshIds_injective hnew
  rw [approve_eval hready (by decide) rfl] at hok
  let w : World := { S.world with plan := some "- id: collect" }
  have hkeyed : Keyed w.steps := by
    refine ⟨?_, ?_⟩
    · change (S.world.steps.map (·.id)).Nodup
      rw [hids]
      decide
    · change (S.world.steps.map (·.step.id)).Nodup
      rw [hsteps]
      decide
  have hexpand := @expandPlan_eq w plan freshIds hready
    (keyed_planRows hkeyed freshIds_injective hnew)
  rw [if_neg] at hexpand
  · exact hexpand.1 hok
  · intro hunique
    have hfits : Fits w plan := (fits_iff hkeyed (by decide)).mp hunique
    exact (hfits.collector hassembly (by decide)).2 (by decide)

end AgentGrid.Workflow
