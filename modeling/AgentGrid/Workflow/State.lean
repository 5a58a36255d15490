import AgentGrid.Store.Lifecycle

/-!
# Workflow runs

The rows one workflow run reads and writes, the requests its steps turn into,
and the single statements that `workflows.rs` sends to the database.  The id of
a step row (`workflow_steps.id`) and the id of the step in its template
(`step_id`) are different texts; `taskOf` is `role_runs.task_id`, of which every
step row has exactly one.
-/

namespace AgentGrid.Workflow

open AgentGrid.Foundation

inductive WorkflowRole
  | architect | worker | reviewer | integrator | verifier | collector
deriving DecidableEq, Repr

inductive WorkflowRunStatus
  | pending | running | succeeded | failed | cancelled | blocked | planReady
deriving DecidableEq, Repr

inductive WorkflowStepStatus
  | pending | running | succeeded | failed | cancelled | skipped | blocked
deriving DecidableEq, Repr

/-- The variant's name, as `{:?}` prints it. -/
def WorkflowRunStatus.debug : WorkflowRunStatus → String
  | .pending => "Pending"
  | .running => "Running"
  | .succeeded => "Succeeded"
  | .failed => "Failed"
  | .cancelled => "Cancelled"
  | .blocked => "Blocked"
  | .planReady => "PlanReady"

def WorkflowRunStatus.terminal : WorkflowRunStatus → Bool
  | .succeeded | .failed | .cancelled => true
  | .pending | .running | .blocked | .planReady => false

def WorkflowStepStatus.terminal : WorkflowStepStatus → Bool
  | .succeeded | .failed | .cancelled | .skipped => true
  | .pending | .running | .blocked => false

def roleStr : WorkflowRole → String
  | .architect => "architect"
  | .worker => "worker"
  | .reviewer => "reviewer"
  | .integrator => "integrator"
  | .verifier => "verifier"
  | .collector => "collector"

structure WorkflowStep where
  id : String
  prompt : String := ""
  dependsOn : List String := []
  role : WorkflowRole := .worker
  adapter : Option String := none
  requestedNodeId : Option String := none
  baseCommit : Option String := none
  retryable : Option Bool := none
  maxAttempts : Option Nat := none
  expandable : Option Bool := none
deriving DecidableEq, Repr

structure WorkflowStepRun where
  id : String
  step : WorkflowStep
  attempts : Nat := 0
  status : WorkflowStepStatus := .pending
  startedAt : Option Nat := none
deriving DecidableEq, Repr

structure WorkflowRun where
  id : String := ""
  status : WorkflowRunStatus := .pending
  repository : Option String := none
  baseCommit : Option String := none
  autoApprovePlan : Bool := false
  githubPush : Bool := false
  githubRepo : Option String := none
  githubIssue : Option Int := none
  githubCreate : Bool := false
  assembly : Bool := false
  adapter : Option String := none
  createdAt : Nat := 0
deriving DecidableEq, Repr

structure BudgetUsage where
  messages : Nat := 0
  rounds : Nat := 0
  bytes : Nat := 0
  tokens : Nat := 0
  costCents : Nat := 0
  wallSeconds : Nat := 0
  repeatedHandoffs : Nat := 0
deriving DecidableEq, Repr

structure BudgetBreach where
  field : String
  limit : Nat
  observed : Nat
deriving DecidableEq, Repr

structure WorkflowBudget where
  maxMessages : Option Nat := none
  maxRounds : Option Nat := none
  maxBytes : Option Nat := none
  maxTokens : Option Nat := none
  maxCostCents : Option Nat := none
  maxWallSeconds : Option Nat := none
  maxRepeatedHandoffs : Option Nat := none
deriving DecidableEq, Repr

def breach (field : String) (limit : Option Nat) (observed : Nat) : Option BudgetBreach :=
  limit.bind fun m => if m < observed then some ⟨field, m, observed⟩ else none

def WorkflowBudget.check (b : WorkflowBudget) (usage : BudgetUsage) : Option BudgetBreach :=
  breach "max_messages" b.maxMessages usage.messages
    <|> breach "max_rounds" b.maxRounds usage.rounds
    <|> breach "max_bytes" b.maxBytes usage.bytes
    <|> breach "max_tokens" b.maxTokens usage.tokens
    <|> breach "max_cost_cents" b.maxCostCents usage.costCents
    <|> breach "max_wall_seconds" b.maxWallSeconds usage.wallSeconds
    <|> breach "max_repeated_handoffs" b.maxRepeatedHandoffs usage.repeatedHandoffs

def computeBudgetUsage (createdAt taskCount now : Nat) : BudgetUsage where
  rounds := taskCount
  wallSeconds := now - createdAt

structure HandoffPackage where
  summary : String
  commitSha : Option String := none
  artifacts : List String := []
deriving DecidableEq, Repr

/-- The messages of a run are all of kind `output`; the payload is the package
its JSON text parses to. -/
structure AgentMessage where
  fromStepId : String
  toStepId : String
  payload : HandoffPackage
deriving DecidableEq, Repr

/-- The `White_Space` characters that `str::trim` removes. -/
def isWhitespace (c : Char) : Bool :=
  let n := c.toNat
  (9 ≤ n && n ≤ 13) || n == 32 || n == 0x85 || n == 0xA0 || n == 0x1680 ||
    (0x2000 ≤ n && n ≤ 0x200A) || n == 0x2028 || n == 0x2029 || n == 0x202F ||
    n == 0x205F || n == 0x3000

def trim (s : String) : String :=
  String.ofList ((s.toList.dropWhile isWhitespace).reverse.dropWhile isWhitespace).reverse

def HandoffPackage.render (pkg : HandoffPackage) : String :=
  "- summary: " ++ trim pkg.summary ++ "\n" ++
    (match pkg.commitSha with
      | some sha => "- commit: `" ++ sha ++ "`\n"
      | none => "") ++
    (if pkg.artifacts.isEmpty then ""
      else "- artifacts: " ++ ", ".intercalate pkg.artifacts ++ "\n")

def renderHandoffBlock (prompt : String) (messages : List AgentMessage) : String :=
  if messages.isEmpty then prompt
  else
    "## Handoff from upstream steps\n" ++
      String.join (messages.map fun m =>
        "### `" ++ m.fromStepId ++ "`: output\n" ++ m.payload.render) ++
      "\n" ++ prompt

def assemblyCollectorPrompt : String :=
  "Assemble: upstream worker outputs are already merged into this worktree. " ++
    "Verify the tree is coherent and complete (every part present, no conflicts " ++
    "left over), fix anything incoherent, and finish cleanly. Do not drop any part."

def stepAdapter (step : WorkflowStep) : String :=
  (step.adapter.filter fun a => !a.isEmpty).getD "mock"

def retryRequest (run : WorkflowRun) (step : WorkflowStep) : Store.CreateTaskRequest where
  prompt := step.prompt
  repository := run.repository.getD ""
  adapter := stepAdapter step
  requestedNodeId := step.requestedNodeId
  baseCommit := step.baseCommit <|> run.baseCommit

def rerunRequest (run : WorkflowRun) (u : WorkflowStep) (taskId : String) :
    Store.CreateTaskRequest where
  prompt := u.prompt ++ "\n\n[verifier feedback] Verifier rejected this change (" ++ taskId ++
    "); \n\nRe-run the task; the previous change was rejected by the verifier.\n"
  repository := run.repository.getD ""
  adapter := stepAdapter u
  requestedNodeId := u.requestedNodeId
  baseCommit := u.baseCommit <|> run.baseCommit

def activationRequest (run : WorkflowRun) (step : WorkflowStep)
    (messages : List AgentMessage) : Store.CreateTaskRequest where
  prompt := renderHandoffBlock step.prompt messages
  repository := run.repository.getD ""
  adapter := stepAdapter step
  requestedNodeId := step.requestedNodeId
  baseCommit := step.baseCommit <|> run.baseCommit
  githubPush := step.role = .collector ∧ run.githubPush
  githubRepo := if step.role = .collector then run.githubRepo else none
  githubIssue := if step.role = .collector then run.githubIssue else none
  githubCreate := step.role = .collector ∧ run.githubCreate

/-- Why a task was created for a step: the step became ready, its task failed
and is retried, or a verifier's task failed and the step is run again. -/
inductive Cause
  | activation
  | retry (failed : String)
  | rejection (verifier rejected : String)
deriving DecidableEq, Repr

structure Spawn where
  step : String
  task : String
  cause : Cause
deriving DecidableEq, Repr

/-- One run and the store its tasks live in.  `spawned` records, beside the
database, which task was created for which step. -/
structure World where
  db : Store.Database := {}
  run : WorkflowRun := {}
  plan : Option String := none
  budget : Option WorkflowBudget := none
  steps : List WorkflowStepRun := []
  taskOf : String → Option String := fun _ => none
  messages : List AgentMessage := []
  spawned : List Spawn := []

namespace World

def step (w : World) (id : String) : Option WorkflowStepRun :=
  lookup WorkflowStepRun.id id w.steps

def updateStep (w : World) (id : String) (f : WorkflowStepRun → WorkflowStepRun) : World :=
  { w with steps := updateWhere (fun row => row.id == id) f w.steps }

/-- `UPDATE workflow_steps SET f WHERE id = ? AND p`, with whether a row was
affected. -/
def claim (w : World) (id : String) (p : WorkflowStepRun → Bool)
    (f : WorkflowStepRun → WorkflowStepRun) : World × Bool :=
  match w.step id with
  | none => (w, false)
  | some row => if p row then (w.updateStep id f, true) else (w, false)

def setRunStatus (w : World) (status : WorkflowRunStatus) : World :=
  { w with run := { w.run with status := status } }

def setStepStatus (w : World) (id : String) (status : WorkflowStepStatus) (now : Nat) :
    World :=
  w.updateStep id fun row =>
    { row with
      status := status
      startedAt := if status = .running then row.startedAt <|> some now else row.startedAt }

def claimAttempts (w : World) (id : String) (seen : Nat) : World × Bool :=
  w.claim id (fun row => row.attempts == seen) fun row => { row with attempts := seen + 1 }

/-- `running → status`, for the end of a step's task. -/
def claimEnd (w : World) (id : String) (status : WorkflowStepStatus) : World × Bool :=
  w.claim id (fun row => row.status == .running) fun row => { row with status := status }

def claimActivation (w : World) (id : String) (now : Nat) : World × Bool :=
  w.claim id (fun row => row.status == .pending) fun row =>
    { row with status := .running, startedAt := row.startedAt <|> some now }

def wedgeGraceSecs : Nat := 60

def resetWedged (w : World) (id : String) (now : Nat) : World × Bool :=
  w.claim id
    (fun row => row.status == .running &&
      row.startedAt.any fun started => started + wedgeGraceSecs < now)
    fun row => { row with status := .pending, startedAt := none }

def setStepAttempts (w : World) (id : String) (attempts : Nat) : World :=
  w.updateStep id fun row => { row with attempts := attempts }

/-- Beside `role_runs.task_id`, the store's own view of that row follows. -/
def setRoleRunTask (w : World) (id task : String) : World :=
  { w with
    taskOf := fun k => if k = id then some task else w.taskOf k
    db := { w.db with
      roleRuns := w.db.roleRuns.filter (fun r => some r.taskId != w.taskOf id) ++
        (w.step id).toList.map fun row => ⟨task, roleStr row.step.role⟩ } }

def createTask (w : World) (id : String) (cause : Cause) (req : Store.CreateTaskRequest)
    (taskId stamp : String) : World × Option String :=
  match Store.createTask w.db req taskId stamp with
  | (_, .error _) => (w, none)
  | (db, .ok row) =>
      ({ w with db := db, spawned := w.spawned ++ [⟨id, row.id, cause⟩] }, some row.id)

def messagesForStep (w : World) (stepId : String) : List AgentMessage :=
  w.messages.filter fun m => m.toStepId == stepId || m.toStepId == "*"

/-- `ORDER BY number DESC LIMIT 1`. -/
def latestAttempt (w : World) (taskId : String) : Option Store.Attempt :=
  w.db.attempts.foldl
    (fun best a =>
      if a.taskId = taskId ∧ best.all (fun b => b.number < a.number) then some a else best)
    none

def nonEmpty (s : Option String) : Option String := s.filter fun t => !t.isEmpty

def attemptPlanForTask (w : World) (taskId : String) : Option String :=
  nonEmpty ((w.latestAttempt taskId).bind Store.Attempt.plan)

def attemptCommitForTask (w : World) (taskId : String) : Option String :=
  nonEmpty ((w.latestAttempt taskId).bind Store.Attempt.commitSha)

/-- The rows a plan expands to: its steps with the run's adapter as default,
and in an assembly a collector behind all of them, unless the plan has one. -/
def planRows (run : WorkflowRun) (plan : List WorkflowStep) (ids : Nat → String) :
    List WorkflowStepRun :=
  let steps := plan.map fun s =>
    { s with
      adapter := (s.adapter.filter fun a => !a.isEmpty) <|> run.adapter
      expandable := none }
  let collector : List WorkflowStep :=
    if run.assembly ∧ plan.all fun s => s.role ≠ .collector then
      [{ id := "collect", prompt := assemblyCollectorPrompt, dependsOn := plan.map (·.id),
         role := .collector, adapter := run.adapter }]
    else []
  (steps ++ collector).mapIdx fun i s => ⟨ids i, s, 0, .pending, none⟩

/-- The transaction of `approve_workflow_plan`; its error is the text of the
refused flip, or the constraint an insertion broke. -/
def expandPlan (w : World) (run : WorkflowRun) (plan : List WorkflowStep)
    (ids : Nat → String) : World × Except String Unit :=
  let rows := planRows run plan ids
  if ¬ ((w.steps ++ rows).map (·.id)).Nodup ∨ ¬ ((w.steps ++ rows).map (·.step.id)).Nodup then
    (w, .error "UNIQUE constraint failed")
  else if w.run.status ≠ .planReady then
    (w, .error "run is not awaiting plan approval (status changed concurrently)")
  else
    ({ w with
       run := { w.run with status := .running }
       steps := w.steps ++ rows
       taskOf := fun k => if k ∈ rows.map (·.id) then none else w.taskOf k }, .ok ())

/-- The statuses that `cancel_workflow_run` cancels a step in. -/
def cancellable : WorkflowStepStatus → Bool
  | .succeeded | .failed | .cancelled | .blocked | .skipped => false
  | .pending | .running => true

def cancelled (w : World) : World :=
  { w with
    run := { w.run with status := .cancelled }
    steps := updateWhere (fun row => cancellable row.status)
      (fun row => { row with status := .cancelled }) w.steps
    db := ((w.steps.filter fun row => cancellable row.status).filterMap
      fun row => w.taskOf row.id).foldl Store.cancelStepTask w.db }

def cancelWorkflowRun (w : World) : World × Bool :=
  match w.run.status with
  | .succeeded | .failed | .cancelled | .blocked => (w, false)
  | .pending | .running | .planReady => (w.cancelled, true)

/-- The statuses `block_step_and_run` leaves alone in `workflow_steps`. -/
def keptByBlock : WorkflowStepStatus → Bool
  | .succeeded | .failed | .blocked | .skipped => true
  | .pending | .running | .cancelled => false

def blockStep (w : World) (id : String) : World :=
  w.updateStep id fun row =>
    if keptByBlock row.status then row else { row with status := .blocked }

def blockStepAndRun (w : World) (id : String) : World :=
  match w.step id, w.run.status with
  | some _, .pending | some _, .running => (w.blockStep id).setRunStatus .blocked
  | _, _ => w.blockStep id

end World

end AgentGrid.Workflow
