import AgentGrid.Workflow.Tick

/-!
# What a transaction does to a row

One inversion for each column that the transactions share: the status and the
attempt counter of a step, the task it is linked to, the log of created tasks
and the status of the run.  Later modules argue from these alone.
-/

namespace AgentGrid.Workflow

open AgentGrid.Foundation

/-- The changes of a step's status that a transaction can make. -/
def Tx.moves (k : String) (old new : WorkflowStepStatus) : Tx → Prop
  | .resetWedged step => step = k ∧ old = .running ∧ new = .pending
  | .claimEnd step status => step = k ∧ old = .running ∧ new = status
  | .setStepStatus step status => step = k ∧ new = status
  | .claimActivation step => step = k ∧ old = .pending ∧ new = .running
  | .cancelWorkflowRun => World.cancellable old = true ∧ new = .cancelled
  | .blockStepAndRun step => step = k ∧ World.keptByBlock old = false ∧ new = .blocked
  | _ => False

/-- The changes of a step's attempt counter that a transaction can make. -/
def Tx.counts (k : String) (old new : Nat) : Tx → Prop
  | .claimFailure step seen _ => step = k ∧ old = seen ∧ new = seen + 1
  | .claimRerun step seen => step = k ∧ old = seen ∧ new = seen + 1
  | .setStepAttempts step attempts => step = k ∧ new = attempts
  | _ => False

/-- The changes of the run's status that a transaction can make. -/
def Tx.movesRun (old new : WorkflowRunStatus) : Tx → Prop
  | .setWorkflowRunStatus status => new = status
  | .cancelWorkflowRun => old.terminal = false ∧ new = .cancelled
  | .expandPlan _ _ => old = .planReady ∧ new = .running
  | .blockStepAndRun _ => (old = .pending ∨ old = .running) ∧ new = .blocked
  | _ => False

/-- A terminal status gives way to an unconditional write only, and a cancelled
step to `block_step_and_run`, whose guard leaves that status out. -/
theorem Tx.moves_of_terminal {tx : Tx} {k : String} {old new : WorkflowStepStatus}
    (h : tx.moves k old new) (hold : old.terminal = true) :
    tx = .setStepStatus k new ∨ tx = .blockStepAndRun k ∧ old = .cancelled := by
  cases tx with
  | setStepStatus step status =>
      obtain ⟨rfl, rfl⟩ := h
      exact .inl rfl
  | blockStepAndRun step =>
      obtain ⟨rfl, hkept, _⟩ := h
      refine .inr ⟨rfl, ?_⟩
      cases old <;> simp_all [World.keptByBlock, WorkflowStepStatus.terminal]
  | cancelWorkflowRun =>
      obtain ⟨hopen, _⟩ := h
      cases old <;> simp_all [World.cancellable, WorkflowStepStatus.terminal]
  | resetWedged step =>
      obtain ⟨_, rfl, _⟩ := h
      cases hold
  | claimEnd step status =>
      obtain ⟨_, rfl, _⟩ := h
      cases hold
  | claimActivation step =>
      obtain ⟨_, rfl, _⟩ := h
      cases hold
  | _ => cases h

theorem Tx.movesRun_of_terminal {tx : Tx} {old new : WorkflowRunStatus}
    (h : tx.movesRun old new) (hold : old.terminal = true) :
    tx = .setWorkflowRunStatus new := by
  cases tx with
  | setWorkflowRunStatus status =>
      obtain rfl := h
      rfl
  | cancelWorkflowRun =>
      rw [h.1] at hold
      cases hold
  | expandPlan run plan =>
      obtain ⟨rfl, _⟩ := h
      cases hold
  | blockStepAndRun step =>
      obtain ⟨rfl | rfl, _⟩ := h
      · cases hold
      · cases hold
  | _ => cases h

structure RowStep (tx : Tx) (row row' : WorkflowStepRun) : Prop where
  id : row'.id = row.id
  step : row'.step = row.step
  status : row'.status = row.status ∨ tx.moves row.id row.status row'.status
  attempts : row'.attempts = row.attempts ∨ tx.counts row.id row.attempts row'.attempts

namespace World

variable {w : World}

theorem id_of_step {k : String} {row : WorkflowStepRun} (h : w.step k = some row) :
    row.id = k :=
  (lookup_mem h).2

theorem step_updateStep {f : WorkflowStepRun → WorkflowStepRun}
    (hf : ∀ row, (f row).id = row.id) (id k : String) :
    (w.updateStep id f).step k =
      (w.step k).map fun row => if row.id == id then f row else row :=
  lookup_updateWhere hf k w.steps

theorem step_updateStep_self {f : WorkflowStepRun → WorkflowStepRun} {k : String}
    {row : WorkflowStepRun} (h : w.step k = some row)
    (hf : ∀ row, (f row).id = row.id) :
    (w.updateStep k f).step k = some (f row) := by
  rw [step_updateStep hf, h, Option.map_some, id_of_step h, beq_self_eq_true, if_pos rfl]

theorem step_updateStep_ne {f : WorkflowStepRun → WorkflowStepRun} {j k : String}
    (hjk : j ≠ k) (hf : ∀ row, (f row).id = row.id) :
    (w.updateStep k f).step j = w.step j := by
  rw [step_updateStep hf]
  cases h : w.step j with
  | none => rfl
  | some row =>
      rw [Option.map_some, id_of_step h, beq_eq_false_iff_ne.mpr hjk]
      rfl

theorem claim_cases (w : World) (id : String) (p : WorkflowStepRun → Bool)
    (f : WorkflowStepRun → WorkflowStepRun) :
    w.claim id p f = (w, false) ∨
      ∃ row, w.step id = some row ∧ p row = true ∧ w.claim id p f = (w.updateStep id f, true) := by
  unfold claim
  cases h : w.step id with
  | none => exact .inl rfl
  | some row =>
      by_cases hp : p row = true
      · exact .inr ⟨row, rfl, hp, by simp [hp]⟩
      · exact .inl (by simp [hp])

/-- An update of one row, seen from any row. -/
theorem row_updateStep {tx : Tx} {id k : String} {f : WorkflowStepRun → WorkflowStepRun}
    (hf : ∀ row, (f row).id = row.id) {row : WorkflowStepRun} (h : w.step k = some row)
    (hrow : row.id = id → RowStep tx row (f row)) :
    ∃ row', (w.updateStep id f).step k = some row' ∧ RowStep tx row row' := by
  rw [step_updateStep hf, h]
  by_cases hid : row.id = id
  · exact ⟨f row, by simp [hid], hrow hid⟩
  · exact ⟨row, by simp [hid], ⟨rfl, rfl, .inl rfl, .inl rfl⟩⟩

theorem row_claim {tx : Tx} {id k : String} {p : WorkflowStepRun → Bool}
    {f : WorkflowStepRun → WorkflowStepRun} (hf : ∀ row, (f row).id = row.id)
    {row : WorkflowStepRun} (h : w.step k = some row)
    (hrow : row.id = id → p row = true → RowStep tx row (f row)) :
    ∃ row', (w.claim id p f).1.step k = some row' ∧ RowStep tx row row' := by
  obtain hlost | ⟨found, hfound, hp, hwon⟩ := claim_cases w id p f
  · exact ⟨row, by rw [hlost]; exact h, ⟨rfl, rfl, .inl rfl, .inl rfl⟩⟩
  · rw [hwon]
    refine row_updateStep hf h fun hid => hrow hid ?_
    have hsame : w.step id = some row := by
      rw [← hid, id_of_step h, h]
    rw [hfound] at hsame
    cases hsame
    exact hp

theorem cancelWorkflowRun_cases (w : World) :
    w.cancelWorkflowRun = (w, false) ∨
      w.run.status.terminal = false ∧ w.cancelWorkflowRun = (w.cancelled, true) := by
  unfold cancelWorkflowRun
  split <;> simp_all [WorkflowRunStatus.terminal]

theorem claim_fst (w : World) (id : String) (p : WorkflowStepRun → Bool)
    (f : WorkflowStepRun → WorkflowStepRun) :
    (w.claim id p f).1 = w ∨ (w.claim id p f).1 = w.updateStep id f := by
  obtain hlost | ⟨_, _, _, hwon⟩ := claim_cases w id p f
  · exact .inl (by rw [hlost])
  · exact .inr (by rw [hwon])

theorem claim_won {id : String} {p : WorkflowStepRun → Bool}
    {f : WorkflowStepRun → WorkflowStepRun} (h : (w.claim id p f).2 = true)
    (hf : ∀ row, (f row).id = row.id) :
    ∃ row, w.step id = some row ∧ p row = true ∧ (w.claim id p f).1.step id = some (f row) := by
  obtain hlost | ⟨row, hrow, hp, hwon⟩ := claim_cases w id p f
  · rw [hlost] at h
    cases h
  · exact ⟨row, hrow, hp, by rw [hwon]; exact step_updateStep_self hrow hf⟩

/-- A claim leaves every column but those of the steps. -/
theorem claim_frame {β : Type} (column : World → β)
    (hcolumn : ∀ {w : World} (steps : List WorkflowStepRun),
      column { w with steps := steps } = column w)
    (w : World) (id : String) (p : WorkflowStepRun → Bool)
    (f : WorkflowStepRun → WorkflowStepRun) : column (w.claim id p f).1 = column w := by
  obtain hsame | hmoved := claim_fst w id p f
  · rw [hsame]
  · rw [hmoved]
    exact hcolumn _

/-- The world after a task was created for a step. -/
def spawn (w : World) (step : String) (cause : Cause) (req : Store.CreateTaskRequest)
    (task stamp : String) : World :=
  { w with
    db := (Store.createTask w.db req task stamp).1
    spawned := w.spawned ++ [⟨step, task, cause⟩] }

theorem createTask_cases (w : World) (step : String) (cause : Cause)
    (req : Store.CreateTaskRequest) (task stamp : String) :
    w.createTask step cause req task stamp = (w, none) ∨
      w.db.task task = none ∧
        w.createTask step cause req task stamp =
          (w.spawn step cause req task stamp, some task) := by
  unfold createTask spawn Store.createTask
  cases hfresh : w.db.task task with
  | some row => exact .inl rfl
  | none => exact .inr ⟨rfl, rfl⟩

theorem step_append {rows : List WorkflowStepRun} {k : String} {row : WorkflowStepRun}
    (h : w.step k = some row) : lookup WorkflowStepRun.id k (w.steps ++ rows) = some row := by
  rw [lookup, List.find?_append, show w.steps.find? _ = some row from h]
  rfl

end World

variable {w : World} {input : Input}

theorem exec_cancelWorkflowRun (input : Input) (w : World) :
    exec input .cancelWorkflowRun w = (w, false) ∨
      w.run.status.terminal = false ∧
        exec input .cancelWorkflowRun w = (w.cancelled, true) :=
  World.cancelWorkflowRun_cases w

theorem exec_createTask (input : Input) (w : World) (step : String) (cause : Cause)
    (req : Store.CreateTaskRequest) :
    (∃ e, exec input (.createTask step cause req) w = (w, .error e)) ∨
      w.db.task input.id = none ∧
        exec input (.createTask step cause req) w =
          (w.spawn step cause req input.id input.stamp, .ok input.id) := by
  unfold exec
  cases hrefused : input.refused with
  | some e => exact .inl ⟨e, rfl⟩
  | none =>
      obtain hlost | ⟨hfresh, hwon⟩ :=
        World.createTask_cases w step cause req input.id input.stamp
      · exact .inl ⟨"UNIQUE constraint failed", by simp only [hlost]⟩
      · exact .inr ⟨hfresh, by simp only [hwon]⟩

theorem exec_row (input : Input) (tx : Tx) {k : String} {row : WorkflowStepRun}
    (h : w.step k = some row) :
    ∃ row', (exec input tx w).1.step k = some row' ∧ RowStep tx row row' := by
  have hsame : RowStep tx row row := ⟨rfl, rfl, .inl rfl, .inl rfl⟩
  cases tx with
  | resetWedged step =>
      refine World.row_claim ?_ h fun hid hp => ?_
      · exact fun _ => rfl
      rw [Bool.and_eq_true, beq_iff_eq] at hp
      exact ⟨rfl, rfl, .inr ⟨hid.symm, hp.1, rfl⟩, .inl rfl⟩
  | claimEnd step status =>
      refine World.row_claim ?_ h fun hid hp => ?_
      · exact fun _ => rfl
      exact ⟨rfl, rfl, .inr ⟨hid.symm, beq_iff_eq.mp hp, rfl⟩, .inl rfl⟩
  | claimActivation step =>
      refine World.row_claim ?_ h fun hid hp => ?_
      · exact fun _ => rfl
      exact ⟨rfl, rfl, .inr ⟨hid.symm, beq_iff_eq.mp hp, rfl⟩, .inl rfl⟩
  | claimFailure step seen failed =>
      refine World.row_claim ?_ h fun hid hp => ?_
      · exact fun _ => rfl
      exact ⟨rfl, rfl, .inl rfl, .inr ⟨hid.symm, beq_iff_eq.mp hp, rfl⟩⟩
  | claimRerun worker seen =>
      refine World.row_claim ?_ h fun hid hp => ?_
      · exact fun _ => rfl
      exact ⟨rfl, rfl, .inl rfl, .inr ⟨hid.symm, beq_iff_eq.mp hp, rfl⟩⟩
  | setStepStatus step status =>
      refine World.row_updateStep ?_ h fun hid => ?_
      · exact fun _ => rfl
      exact ⟨rfl, rfl, .inr ⟨hid.symm, rfl⟩, .inl rfl⟩
  | setStepAttempts step attempts =>
      refine World.row_updateStep ?_ h fun hid => ?_
      · exact fun _ => rfl
      exact ⟨rfl, rfl, .inl rfl, .inr ⟨hid.symm, rfl⟩⟩
  | blockStepAndRun step =>
      have hblock : (exec input (.blockStepAndRun step) w).1.step k =
          (w.blockStep step).step k := by
        unfold exec
        simp only [World.blockStepAndRun]
        split <;> rfl
      rw [hblock]
      refine World.row_updateStep (fun row => ?_) h fun hid => ?_
      · split <;> rfl
      · cases hkept : World.keptByBlock row.status with
        | true => exact ⟨by simp, by simp, .inl (by simp), .inl (by simp)⟩
        | false => exact ⟨by simp, by simp, .inr ⟨hid.symm, hkept, by simp⟩, .inl (by simp)⟩
  | cancelWorkflowRun =>
      obtain hkept | ⟨_, hdone⟩ := exec_cancelWorkflowRun input w
      · exact ⟨row, by rw [hkept]; exact h, hsame⟩
      · rw [hdone]
        refine ⟨_, (lookup_updateWhere ?_ k w.steps).trans (congrArg _ h), ?_⟩
        · exact fun _ => rfl
        cases hopen : World.cancellable row.status with
        | true =>
            exact ⟨by simp [hopen], by simp [hopen], .inr ⟨hopen, by simp [hopen]⟩,
              .inl (by simp [hopen])⟩
        | false =>
            exact ⟨by simp [hopen], by simp [hopen], .inl (by simp [hopen]),
              .inl (by simp [hopen])⟩
  | expandPlan run plan =>
      unfold exec
      simp only [World.expandPlan]
      split
      · exact ⟨row, h, hsame⟩
      · split
        · exact ⟨row, h, hsame⟩
        · exact ⟨row, World.step_append h, hsame⟩
  | createTask step cause req =>
      obtain ⟨e, hlost⟩ | ⟨_, hwon⟩ := exec_createTask input w step cause req
      · exact ⟨row, by rw [hlost]; exact h, hsame⟩
      · exact ⟨row, by rw [hwon]; exact h, hsame⟩
  | _ => exact ⟨row, h, hsame⟩

theorem exec_run (input : Input) (tx : Tx) (w : World) :
    (exec input tx w).1.run.status = w.run.status ∨
      tx.movesRun w.run.status (exec input tx w).1.run.status := by
  cases tx with
  | setWorkflowRunStatus status => exact .inr rfl
  | cancelWorkflowRun =>
      obtain hkept | ⟨hopen, hdone⟩ := exec_cancelWorkflowRun input w
      · exact .inl (by rw [hkept])
      · exact .inr ⟨hopen, by rw [hdone]; rfl⟩
  | expandPlan run plan =>
      unfold exec
      simp only [World.expandPlan]
      split
      · exact .inl rfl
      · split
        · exact .inl rfl
        · rename_i hready
          exact .inr ⟨not_not.mp hready, rfl⟩
  | blockStepAndRun step =>
      unfold exec
      simp only [World.blockStepAndRun]
      split
      · rename_i hrun
        exact .inr ⟨.inl hrun, rfl⟩
      · rename_i hrun
        exact .inr ⟨.inr hrun, rfl⟩
      · exact .inl rfl
  | createTask step cause req =>
      obtain ⟨e, hlost⟩ | ⟨_, hwon⟩ := exec_createTask input w step cause req
      · exact .inl (by rw [hlost])
      · exact .inl (by rw [hwon]; rfl)
  | resetWedged step => exact .inl (World.claim_frame (·.run.status) (fun _ => rfl) w step _ _)
  | claimEnd step status => exact .inl (World.claim_frame (·.run.status) (fun _ => rfl) w step _ _)
  | claimActivation step => exact .inl (World.claim_frame (·.run.status) (fun _ => rfl) w step _ _)
  | claimFailure step seen failed => exact .inl (World.claim_frame (·.run.status) (fun _ => rfl) w step _ _)
  | claimRerun worker seen => exact .inl (World.claim_frame (·.run.status) (fun _ => rfl) w worker _ _)
  | _ => exact .inl rfl

/-- The ids and templates of the rows stay, but for the rows of a plan. -/
theorem exec_frame (input : Input) (tx : Tx) (w : World) :
    (exec input tx w).1.steps.map (fun row => (row.id, row.step)) =
        w.steps.map (fun row => (row.id, row.step)) ∨
      ∃ run plan, tx = .expandPlan run plan ∧
        Keyed (w.steps ++ World.planRows run plan input.ids) ∧
        (exec input tx w).1.steps = w.steps ++ World.planRows run plan input.ids := by
  have hupdate : ∀ {p : WorkflowStepRun → Bool} {f : WorkflowStepRun → WorkflowStepRun},
      (∀ row, ((f row).id, (f row).step) = (row.id, row.step)) →
      (updateWhere p f w.steps).map (fun row => (row.id, row.step)) =
        w.steps.map fun row => (row.id, row.step) :=
    fun hf => map_updateWhere_of_key hf w.steps
  have hclaim : ∀ {id : String} {p : WorkflowStepRun → Bool}
      {f : WorkflowStepRun → WorkflowStepRun},
      (∀ row, ((f row).id, (f row).step) = (row.id, row.step)) →
      (w.claim id p f).1.steps.map (fun row => (row.id, row.step)) =
        w.steps.map fun row => (row.id, row.step) := by
    intro id p f hf
    obtain hsame | hmoved := World.claim_fst w id p f
    · rw [hsame]
    · rw [hmoved]
      exact hupdate hf
  cases tx with
  | resetWedged step => exact .inl (hclaim fun _ => rfl)
  | claimEnd step status => exact .inl (hclaim fun _ => rfl)
  | claimActivation step => exact .inl (hclaim fun _ => rfl)
  | claimFailure step seen failed => exact .inl (hclaim fun _ => rfl)
  | claimRerun worker seen => exact .inl (hclaim fun _ => rfl)
  | setStepStatus step status => exact .inl (hupdate fun _ => rfl)
  | setStepAttempts step attempts => exact .inl (hupdate fun _ => rfl)
  | blockStepAndRun step =>
      have hblock : (exec input (.blockStepAndRun step) w).1.steps = (w.blockStep step).steps := by
        unfold exec
        simp only [World.blockStepAndRun]
        split <;> rfl
      rw [hblock]
      refine .inl (hupdate fun row => ?_)
      split <;> rfl
  | cancelWorkflowRun =>
      obtain hkept | ⟨_, hdone⟩ := exec_cancelWorkflowRun input w
      · rw [hkept]
        exact .inl rfl
      · rw [hdone]
        exact .inl (hupdate fun _ => rfl)
  | expandPlan run plan =>
      unfold exec
      simp only [World.expandPlan]
      split
      · exact .inl rfl
      · rename_i hunique
        rw [not_or, not_not, not_not] at hunique
        split
        · exact .inl rfl
        · exact .inr ⟨run, plan, rfl, hunique, rfl⟩
  | createTask step cause req =>
      obtain ⟨e, hlost⟩ | ⟨_, hwon⟩ := exec_createTask input w step cause req
      · rw [hlost]
        exact .inl rfl
      · rw [hwon]
        exact .inl rfl
  | _ => exact .inl rfl

theorem exec_keyed (input : Input) (tx : Tx) (h : Keyed w.steps) :
    Keyed (exec input tx w).1.steps := by
  obtain hframe | ⟨run, plan, -, hkeyed, hsteps⟩ := exec_frame input tx w
  · have hids := congrArg (List.map Prod.fst) hframe
    have hstepIds := congrArg (List.map fun row => row.2.id) hframe
    simp only [List.map_map] at hids hstepIds
    refine ⟨?_, ?_⟩
    · exact (congrArg List.Nodup hids).mpr h.1
    · exact (congrArg List.Nodup hstepIds).mpr h.2
  · rw [hsteps]
    exact hkeyed

theorem exec_spawned (input : Input) (tx : Tx) (w : World)
    (h : ∀ step cause req, tx ≠ .createTask step cause req) :
    (exec input tx w).1.spawned = w.spawned := by
  cases tx with
  | createTask step cause req => exact absurd rfl (h step cause req)
  | resetWedged step => exact World.claim_frame (·.spawned) (fun _ => rfl) w step _ _
  | claimEnd step status => exact World.claim_frame (·.spawned) (fun _ => rfl) w step _ _
  | claimActivation step => exact World.claim_frame (·.spawned) (fun _ => rfl) w step _ _
  | claimFailure step seen failed =>
      exact World.claim_frame (·.spawned) (fun _ => rfl) w step _ _
  | claimRerun worker seen => exact World.claim_frame (·.spawned) (fun _ => rfl) w worker _ _
  | blockStepAndRun step =>
      unfold exec
      simp only [World.blockStepAndRun]
      split <;> rfl
  | cancelWorkflowRun =>
      obtain hkept | ⟨_, hdone⟩ := exec_cancelWorkflowRun input w
      · rw [hkept]
      · rw [hdone]
        rfl
  | expandPlan run plan =>
      unfold exec
      simp only [World.expandPlan]
      split
      · rfl
      · split <;> rfl
  | _ => rfl

theorem mem_planRows {run : WorkflowRun} {plan : List WorkflowStep} {ids : Nat → String}
    {row : WorkflowStepRun} (h : row ∈ World.planRows run plan ids) :
    row.attempts = 0 ∧ row.status = .pending := by
  obtain ⟨i, hi, rfl⟩ := List.mem_iff_getElem.mp h
  simp [World.planRows]

theorem exec_taskOf (input : Input) (tx : Tx) {k : String} {row : WorkflowStepRun}
    (hk : w.step k = some row) :
    (exec input tx w).1.taskOf k = w.taskOf k ∨
      ∃ task, tx = .setRoleRunTask k task ∧ (exec input tx w).1.taskOf k = some task := by
  cases tx with
  | setRoleRunTask step task =>
      by_cases hstep : k = step
      · subst hstep
        exact .inr ⟨task, rfl, by unfold exec; simp [World.setRoleRunTask]⟩
      · exact .inl (by unfold exec; simp [World.setRoleRunTask, hstep])
  | expandPlan run plan =>
      unfold exec
      simp only [World.expandPlan]
      split
      · exact .inl rfl
      · rename_i hunique
        split
        · exact .inl rfl
        · rw [not_or, not_not, List.map_append, List.nodup_append] at hunique
          refine .inl (if_neg fun hnew => ?_)
          obtain ⟨hmem, hid⟩ := lookup_mem hk
          exact hunique.1.2.2 k (List.mem_map.mpr ⟨row, hmem, hid⟩) k hnew rfl
  | createTask step cause req =>
      obtain ⟨e, hlost⟩ | ⟨_, hwon⟩ := exec_createTask input w step cause req
      · exact .inl (by rw [hlost])
      · exact .inl (by rw [hwon]; rfl)
  | resetWedged step => exact .inl (World.claim_frame (·.taskOf k) (fun _ => rfl) w step _ _)
  | claimEnd step status => exact .inl (World.claim_frame (·.taskOf k) (fun _ => rfl) w step _ _)
  | claimActivation step => exact .inl (World.claim_frame (·.taskOf k) (fun _ => rfl) w step _ _)
  | claimFailure step seen failed =>
      exact .inl (World.claim_frame (·.taskOf k) (fun _ => rfl) w step _ _)
  | claimRerun worker seen =>
      exact .inl (World.claim_frame (·.taskOf k) (fun _ => rfl) w worker _ _)
  | blockStepAndRun step =>
      refine .inl ?_
      unfold exec
      simp only [World.blockStepAndRun]
      split <;> rfl
  | cancelWorkflowRun =>
      obtain hkept | ⟨_, hdone⟩ := exec_cancelWorkflowRun input w
      · exact .inl (by rw [hkept])
      · exact .inl (by rw [hdone]; rfl)
  | _ => exact .inl rfl

/-- The only new rows are those of an expanded plan. -/
theorem exec_new (input : Input) (tx : Tx) {k : String} {row : WorkflowStepRun}
    (hk : w.step k = none) (h : (exec input tx w).1.step k = some row) :
    row.attempts = 0 ∧ row.status = .pending := by
  have hupdate : ∀ {p : WorkflowStepRun → Bool} {f : WorkflowStepRun → WorkflowStepRun},
      (∀ row, (f row).id = row.id) →
      lookup WorkflowStepRun.id k (updateWhere p f w.steps) ≠ some row := by
    intro p f hf hrow
    rw [lookup_updateWhere hf, show lookup _ k w.steps = none from hk] at hrow
    cases hrow
  have hclaim : ∀ {id : String} {p : WorkflowStepRun → Bool}
      {f : WorkflowStepRun → WorkflowStepRun}, (∀ row, (f row).id = row.id) →
      (w.claim id p f).1.step k ≠ some row := by
    intro id p f hf
    obtain hsame | hmoved := World.claim_fst w id p f
    · rw [hsame, hk]
      nofun
    · rw [hmoved]
      exact hupdate hf
  cases tx with
  | resetWedged step => exact absurd h (hclaim fun _ => rfl)
  | claimEnd step status => exact absurd h (hclaim fun _ => rfl)
  | claimActivation step => exact absurd h (hclaim fun _ => rfl)
  | claimFailure step seen failed => exact absurd h (hclaim fun _ => rfl)
  | claimRerun worker seen => exact absurd h (hclaim fun _ => rfl)
  | setStepStatus step status => exact absurd h (hupdate fun _ => rfl)
  | setStepAttempts step attempts => exact absurd h (hupdate fun _ => rfl)
  | blockStepAndRun step =>
      have hblock : (exec input (.blockStepAndRun step) w).1.steps = (w.blockStep step).steps := by
        unfold exec
        simp only [World.blockStepAndRun]
        split <;> rfl
      rw [World.step, hblock] at h
      refine absurd h (hupdate fun row => ?_)
      split <;> rfl
  | cancelWorkflowRun =>
      obtain hkept | ⟨_, hdone⟩ := exec_cancelWorkflowRun input w
      · rw [hkept, hk] at h
        cases h
      · rw [hdone] at h
        exact absurd h (hupdate fun _ => rfl)
  | createTask step cause req =>
      obtain ⟨e, hlost⟩ | ⟨_, hwon⟩ := exec_createTask input w step cause req
      · rw [hlost, hk] at h
        cases h
      · rw [hwon] at h
        cases hk.symm.trans h
  | expandPlan run plan =>
      unfold exec at h
      simp only [World.expandPlan] at h
      split at h
      · rw [hk] at h
        cases h
      · split at h
        · rw [hk] at h
          cases h
        · obtain hold | hnew := List.mem_append.mp (lookup_mem h).1
          · exact absurd (lookup_mem h).2 (lookup_none hk row hold)
          · exact mem_planRows hnew
  | _ => cases hk.symm.trans h

theorem all_hold {φ : List String → Tx → Prop} {keys : List String} {tx : Tx} {α : Type}
    {f : tx.Reply → Program α} (h : φ keys tx) (hf : ∀ reply, (f reply).All φ) :
    (hold keys tx >>= f).All φ :=
  ⟨h, hf⟩

/-- The transactions that claim no step and create no task: a step row that they
write is ended, blocked or cancelled by it. -/
def Tx.benign : Tx → Prop
  | .resetWedged _ | .claimFailure _ _ _ | .claimRerun _ _ | .createTask _ _ _
  | .setStepAttempts _ _ | .setRoleRunTask _ _ | .setStepStatus _ _ | .claimActivation _ => False
  | .claimEnd _ status => status.terminal = true
  | _ => True

abbrev Benign {α : Type} (p : Program α) : Prop := p.All fun keys tx => keys = [] ∧ tx.benign

section Benign

variable {α : Type}

theorem benign_ask {tx : Tx} {f : tx.Reply → Program α} (h : tx.benign)
    (hf : ∀ reply, Benign (f reply)) : Benign (ask tx >>= f) :=
  ⟨⟨rfl, h⟩, hf⟩

theorem benign_onSucceeded {l : Progress} {row : WorkflowStepRun} {task : String} :
    Benign (onSucceeded l row task) := by
  refine benign_ask rfl fun claimed => ?_
  cases claimed with
  | false => exact trivial
  | true =>
      refine benign_ask trivial fun commitSha => benign_ask trivial fun _ => ?_
      split
      · refine benign_ask trivial fun plan => ?_
        cases plan with
        | none => exact trivial
        | some plan => exact benign_ask trivial fun _ => benign_ask trivial fun _ => trivial
      · exact trivial

theorem benign_onCancelled {l : Progress} {row : WorkflowStepRun} :
    Benign (onCancelled l row) := by
  refine benign_ask rfl fun claimed => ?_
  cases claimed <;> exact trivial

theorem benign_tickEnd (created : List String) : Benign (tickEnd created) := by
  refine benign_ask trivial fun steps => ?_
  split
  · exact benign_ask trivial fun _ => trivial
  · exact trivial

theorem benign_cancelStepTasks (steps : List WorkflowStepRun) :
    Benign (cancelStepTasks steps) := by
  induction steps with
  | nil => exact benign_ask trivial fun _ => trivial
  | cons row rest ih =>
      unfold cancelStepTasks
      split
      · refine benign_ask trivial fun link => ?_
        cases link with
        | none => exact ih
        | some task => exact benign_ask trivial fun _ => ih
      · exact ih

theorem benign_approve (parse : PlanParser) : Benign (approveWorkflowPlan parse) := by
  refine benign_ask trivial fun run => ?_
  split
  · refine benign_ask trivial fun plan => ?_
    split
    · exact trivial
    · split
      · exact trivial
      · exact ⟨⟨rfl, trivial⟩, fun _ => trivial⟩
  · exact trivial

theorem benign_call {parse : PlanParser} {c : Call} (h : c ≠ .tick) :
    Benign (c.program parse) := by
  cases c with
  | tick => exact absurd rfl h
  | cancel => exact benign_ask trivial fun _ => trivial
  | approve =>
      refine (benign_approve parse).bind fun value => ?_
      cases value <;> exact trivial
  | block step => exact benign_ask trivial fun _ => trivial

end Benign

/-- No program of a tick holds a step between two steps of its loop. -/
theorem held_tickLoop {run : WorkflowRun} {steps : List WorkflowStepRun}
    (rest : List WorkflowStepRun) (l : Progress) :
    (tickLoop run steps rest l).held = [] := by
  induction rest generalizing l with
  | nil => rfl
  | cons row rest ih =>
      unfold tickLoop tickStep
      split
      case h_6 => rfl
      case h_7 =>
          unfold tickPending
          split
          · rfl
          · exact ih l
      all_goals exact ih l

/-- Every event, with the call it is an event of. -/
theorem step_cases {parse : PlanParser} {S S' : System} {e : Event} (h : Steps parse S e S') :
    (∃ c, e = .start c ∧ S' = { S with calls := S.calls ++ [(c, c.program parse)] }) ∨
    (∃ i input c keys tx next, e = .advance i input ∧
      S.calls[i]? = some (c, .call keys tx next) ∧
      S' = ⟨(exec input tx S.world).1, S.calls.set i (c, next (exec input tx S.world).2)⟩) ∨
    (∃ i c p, e = .abandon i ∧ S.calls[i]? = some (c, p) ∧
      S' = { S with calls := S.calls.set i (c, .ret (.refused "abandoned")) }) ∨
    ∃ op, e = .store op ∧ S' = { S with world := { S.world with db := Store.step S.world.db op } } := by
  unfold Steps at h
  cases e with
  | start c =>
      cases h
      exact .inl ⟨c, rfl, rfl⟩
  | advance i input =>
      simp only [System.step] at h
      split at h
      · rename_i c keys tx next hcall
        cases h
        exact .inr (.inl ⟨i, input, c, keys, tx, next, rfl, hcall, rfl⟩)
      · cases h
      · cases h
  | abandon i =>
      simp only [System.step] at h
      split at h
      · rename_i c p hcall
        cases h
        exact .inr (.inr (.inl ⟨i, c, p, rfl, hcall, rfl⟩))
      · cases h
  | store op =>
      cases h
      exact .inr (.inr (.inr ⟨op, rfl, rfl⟩))

theorem next_of_call {S : System} {i : Nat} {c : Call} {keys : List String} {tx : Tx}
    {next : tx.Reply → Program Outcome} (h : S.calls[i]? = some (c, .call keys tx next)) :
    S.next i = some tx := by
  simp [System.next, h, Prog.pending]

/-- The calls after one was replaced. -/
theorem mem_set {α : Type} {calls : List α} {i j : Nat} {new c : α}
    (h : (calls.set i new)[j]? = some c) : j = i ∧ c = new ∨ j ≠ i ∧ calls[j]? = some c := by
  rw [List.getElem?_set] at h
  split at h
  · rename_i hij
    split at h
    · exact .inl ⟨hij.symm, (Option.some.inj h).symm⟩
    · cases h
  · rename_i hij
    exact .inr ⟨fun hji => hij hji.symm, h⟩

end AgentGrid.Workflow
