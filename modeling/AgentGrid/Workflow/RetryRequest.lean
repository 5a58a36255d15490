import AgentGrid.Workflow.Tick

/-!
# The request of a retry

A tick builds the request of a step's task twice: when the step is activated and
when its failed task is retried.  The second one leaves out the handoff block and
a collector's GitHub target.
-/

namespace AgentGrid.Workflow

open AgentGrid.Foundation

/-- What a collector's task inherits from the run. -/
def WorkflowRun.NoTarget (run : WorkflowRun) : Prop :=
  run.githubPush = false ∧ run.githubRepo = none ∧ run.githubIssue = none ∧
    run.githubCreate = false

theorem length_renderHandoffBlock (prompt : String) {messages : List AgentMessage}
    (h : messages ≠ []) : prompt.length < (renderHandoffBlock prompt messages).length := by
  have hempty : messages.isEmpty = false := by
    rw [Bool.eq_false_iff, ne_eq, List.isEmpty_iff]
    exact h
  have hhead : 0 < "## Handoff from upstream steps\n".length := by decide
  simp only [renderHandoffBlock, hempty, Bool.false_eq_true, if_false, String.length_append]
  omega

theorem renderHandoffBlock_eq_iff {prompt : String} {messages : List AgentMessage} :
    renderHandoffBlock prompt messages = prompt ↔ messages = [] := by
  constructor
  · intro heq
    by_contra hsome
    have hlt := length_renderHandoffBlock prompt hsome
    rw [heq] at hlt
    exact Nat.lt_irrefl _ hlt
  · rintro rfl
    rfl

/-- The activation request apart from what a retry drops. -/
theorem activationRequest_eq (run : WorkflowRun) (step : WorkflowStep)
    (messages : List AgentMessage) :
    activationRequest run step messages =
      { retryRequest run step with
        prompt := renderHandoffBlock step.prompt messages
        githubPush := step.role = .collector ∧ run.githubPush
        githubRepo := if step.role = .collector then run.githubRepo else none
        githubIssue := if step.role = .collector then run.githubIssue else none
        githubCreate := step.role = .collector ∧ run.githubCreate } := rfl

theorem target_iff (run : WorkflowRun) (role : WorkflowRole) :
    (decide (role = .collector ∧ run.githubPush) = false ∧
      (if role = .collector then run.githubRepo else none) = none ∧
      (if role = .collector then run.githubIssue else none) = none ∧
      decide (role = .collector ∧ run.githubCreate) = false) ↔
      (role = .collector → run.NoTarget) := by
  by_cases hrole : role = .collector
  · simp only [hrole, if_true, true_and, decide_eq_false_iff_not, Bool.not_eq_true, forall_const,
      WorkflowRun.NoTarget]
  · simp only [hrole, if_false, false_and, decide_false, true_and, IsEmpty.forall_iff]

/-! ## The requests a tick makes -/

/-- The request of a task that is created for a step as activated or retried. -/
def Requests (run : WorkflowRun) (row : WorkflowStepRun) : Tx → Prop
  | .createTask id .activation req =>
      id = row.id ∧ ∃ messages, req = activationRequest run row.step messages
  | .createTask id (.retry _) req => id = row.id ∧ req = retryRequest run row.step
  | _ => True

section Tick

variable {run : WorkflowRun} {steps : List WorkflowStepRun} {l : Progress}
  {row : WorkflowStepRun} {task : String}

abbrev Requesting (run : WorkflowRun) (row : WorkflowStepRun) {α : Type} : Program α → Prop :=
  Prog.All fun _ => Requests run row

theorem requests_closeStep {status : WorkflowStepStatus} :
    Requesting run row (closeStep l row status) := ⟨trivial, fun _ => trivial⟩

theorem requests_retryStep : Requesting run row (retryStep run l row task) := by
  refine ⟨⟨rfl, rfl⟩, fun reply => ?_⟩
  cases reply with
  | error e => exact ⟨trivial, fun _ => trivial⟩
  | ok new => exact ⟨trivial, fun _ => trivial⟩

theorem requests_rerunWorker {u : WorkflowStepRun} :
    Requesting run row (rerunWorker run l row u task) := by
  refine ⟨trivial, fun claimed => ?_⟩
  cases claimed with
  | false => exact trivial
  | true =>
      refine ⟨trivial, fun reply => ?_⟩
      cases reply with
      | error e => exact ⟨trivial, fun _ => trivial⟩
      | ok new => exact ⟨trivial, fun _ => ⟨trivial, fun _ => ⟨trivial, fun _ => trivial⟩⟩⟩

theorem requests_onRejected : Requesting run row (onRejected run steps l row task) := by
  unfold onRejected
  split
  · split
    · exact requests_rerunWorker
    · exact requests_closeStep
  · exact requests_closeStep

theorem requests_onFailed : Requesting run row (onFailed run steps l row task) := by
  refine ⟨trivial, fun claimed => ?_⟩
  cases claimed with
  | false => exact trivial
  | true =>
      change Prog.All _ (if row.step.retryable.getD false = true ∧
        row.attempts + 1 < row.step.maxAttempts.getD 1 then _ else _)
      split
      · exact requests_retryStep
      · split
        · exact requests_closeStep
        · split
          · exact requests_closeStep
          · split
            · exact requests_onRejected
            · exact requests_closeStep

theorem requests_onSucceeded : Requesting run row (onSucceeded l row task) := by
  refine ⟨trivial, fun claimed => ?_⟩
  cases claimed with
  | false => exact trivial
  | true =>
      refine ⟨trivial, fun commitSha => ⟨trivial, fun _ => ?_⟩⟩
      split
      · refine ⟨trivial, fun plan => ?_⟩
        cases plan with
        | none => exact trivial
        | some plan => exact ⟨trivial, fun _ => ⟨trivial, fun _ => trivial⟩⟩
      · exact trivial

theorem requests_onCancelled : Requesting run row (onCancelled l row) := by
  refine ⟨trivial, fun claimed => ?_⟩
  cases claimed <;> exact trivial

theorem requests_resetIfWedged : Requesting run row (resetIfWedged l row) := by
  refine ⟨trivial, fun claimed => ?_⟩
  cases claimed <;> exact trivial

theorem requests_tickRunning : Requesting run row (tickRunning run steps l row) := by
  refine ⟨trivial, fun link => ?_⟩
  cases link with
  | none => exact requests_resetIfWedged
  | some task =>
      refine ⟨trivial, fun status => ?_⟩
      dsimp only [Prog.ret_bind]
      split
      · exact requests_onSucceeded
      · exact requests_onFailed
      · exact requests_onCancelled
      all_goals exact trivial

theorem requests_tickPending : Requesting run row (tickPending run l row) := by
  unfold tickPending
  split
  · refine ⟨trivial, fun messages => ⟨trivial, fun claimed => ?_⟩⟩
    cases claimed with
    | false => exact trivial
    | true =>
        refine ⟨⟨rfl, messages, rfl⟩, fun reply => ?_⟩
        cases reply with
        | error e => exact ⟨trivial, fun _ => trivial⟩
        | ok new => exact ⟨trivial, fun _ => trivial⟩
  · exact trivial

/-- Whatever a tick reads, these are the requests it makes for a step. -/
theorem requests_tickStep : Requesting run row (tickStep run steps l row) := by
  unfold tickStep
  split
  case h_6 => exact requests_tickRunning
  case h_7 => exact requests_tickPending
  all_goals exact trivial

end Tick

/-- A retry asks for the same task exactly where there was nothing to drop. -/
theorem retry_request_iff (run : WorkflowRun) (step : WorkflowStep)
    (messages : List AgentMessage) :
    retryRequest run step = activationRequest run step messages ↔
      messages = [] ∧ (step.role = .collector → run.NoTarget) := by
  rw [← target_iff run step.role, activationRequest_eq]
  constructor
  · intro heq
    have hprompt := congrArg Store.CreateTaskRequest.prompt heq
    have hpush := congrArg Store.CreateTaskRequest.githubPush heq
    have hrepo := congrArg Store.CreateTaskRequest.githubRepo heq
    have hissue := congrArg Store.CreateTaskRequest.githubIssue heq
    have hcreate := congrArg Store.CreateTaskRequest.githubCreate heq
    exact ⟨renderHandoffBlock_eq_iff.mp hprompt.symm, hpush.symm, hrepo.symm, hissue.symm,
      hcreate.symm⟩
  · rintro ⟨rfl, hpush, hrepo, hissue, hcreate⟩
    rw [hpush, hrepo, hissue, hcreate]
    rfl

/-- The collector of a run that pushes what it assembled. -/
theorem retry_drops_target :
    ¬ ∀ (run : WorkflowRun) (step : WorkflowStep) (messages : List AgentMessage),
      retryRequest run step = activationRequest run step messages := by
  intro hsame
  have hpush := congrArg Store.CreateTaskRequest.githubPush
    (hsame { githubPush := true, githubRepo := some "owner/site" }
      { id := "collect", role := .collector, prompt := assemblyCollectorPrompt }
      [⟨"build", "*", { summary := "step \x60build\x60 succeeded" }⟩])
  cases hpush

end AgentGrid.Workflow
