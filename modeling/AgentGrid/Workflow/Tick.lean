import AgentGrid.Foundation.Resumption
import AgentGrid.Workflow.State

/-!
# The workflow scheduler

`tick_workflow_run` and the other calls on a run, as programs of database
transactions: every `.await` on the pool is one `Tx`, and calls interleave
between them.  What a call reads goes into its local variables and may be out
of date when it writes.

The keys of a call are the step rows that the program has claimed and not yet
written for the last time: from the compare-and-set that claims the row to the
link of the new task, or to the status that closes the case.
-/

namespace AgentGrid.Workflow

open AgentGrid.Foundation AgentGrid.Store

inductive Tx
  | getWorkflowRun
  | getWorkflowRunPlan
  | expandPlan (run : WorkflowRun) (plan : List WorkflowStep)
  | setWorkflowRunStatus (status : WorkflowRunStatus)
  | getBudget
  | getWorkflowRunSteps
  | observeUsage
  | stepTaskId (step : String)
  | cancelTask (task : String)
  | getTaskStatus (task : String)
  | resetWedged (step : String)
  | claimEnd (step : String) (status : WorkflowStepStatus)
  | attemptCommitForTask (task : String)
  | emitWorkflowMessage (message : AgentMessage)
  | attemptPlanForTask (task : String)
  | setWorkflowRunPlan (plan : String)
  /-- The compare-and-set on `attempts`, after the task `failed` was read. -/
  | claimFailure (step : String) (seen : Nat) (failed : String)
  /-- The same compare-and-set, on the worker of a rejected verifier. -/
  | claimRerun (worker : String) (seen : Nat)
  | createTask (step : String) (cause : Cause) (req : CreateTaskRequest)
  | setStepAttempts (step : String) (attempts : Nat)
  | setRoleRunTask (step task : String)
  | setStepStatus (step : String) (status : WorkflowStepStatus)
  | messagesForStep (stepId : String)
  | claimActivation (step : String)
  | cancelWorkflowRun
  | blockStepAndRun (step : String)

@[reducible] def Tx.Reply : Tx → Type
  | .getWorkflowRun => WorkflowRun
  | .getWorkflowRunPlan => Option String
  | .expandPlan _ _ => Except String Unit
  | .setWorkflowRunStatus _ => Unit
  | .getBudget => Option WorkflowBudget
  | .getWorkflowRunSteps => List WorkflowStepRun
  | .observeUsage => BudgetUsage × Nat
  | .stepTaskId _ => Option String
  | .cancelTask _ => Unit
  | .getTaskStatus _ => Option TaskStatus
  | .resetWedged _ => Bool
  | .claimEnd _ _ => Bool
  | .attemptCommitForTask _ => Option String
  | .emitWorkflowMessage _ => Unit
  | .attemptPlanForTask _ => Option String
  | .setWorkflowRunPlan _ => Unit
  | .claimFailure _ _ _ => Bool
  | .claimRerun _ _ => Bool
  | .createTask _ _ _ => Except String String
  | .setStepAttempts _ _ => Unit
  | .setRoleRunTask _ _ => Unit
  | .setStepStatus _ _ => Unit
  | .messagesForStep _ => List AgentMessage
  | .claimActivation _ => Bool
  | .cancelWorkflowRun => Bool
  | .blockStepAndRun _ => Unit

/-- What a transaction takes from outside: the clock, fresh ids, what the usage
queries count, and the error a refused `create_task` returns. -/
structure Input where
  now : Nat := 0
  stamp : String := ""
  id : String := ""
  ids : Nat → String := fun _ => ""
  usage : BudgetUsage := {}
  refused : Option String := none

def exec (input : Input) : (tx : Tx) → World → World × tx.Reply
  | .getWorkflowRun, w => (w, w.run)
  | .getWorkflowRunPlan, w => (w, World.nonEmpty w.plan)
  | .expandPlan run plan, w => w.expandPlan run plan input.ids
  | .setWorkflowRunStatus status, w => (w.setRunStatus status, ())
  | .getBudget, w => (w, w.budget)
  | .getWorkflowRunSteps, w => (w, w.steps)
  | .observeUsage, w => (w, input.usage, input.now)
  | .stepTaskId step, w => (w, w.taskOf step)
  | .cancelTask task, w => ({ w with db := (Store.cancelTask w.db task input.stamp).1 }, ())
  | .getTaskStatus task, w => (w, (w.db.task task).map Task.status)
  | .resetWedged step, w => w.resetWedged step input.now
  | .claimEnd step status, w => w.claimEnd step status
  | .attemptCommitForTask task, w => (w, w.attemptCommitForTask task)
  | .emitWorkflowMessage message, w => ({ w with messages := w.messages ++ [message] }, ())
  | .attemptPlanForTask task, w => (w, w.attemptPlanForTask task)
  | .setWorkflowRunPlan plan, w => ({ w with plan := some plan }, ())
  | .claimFailure step seen _, w => w.claimAttempts step seen
  | .claimRerun worker seen, w => w.claimAttempts worker seen
  | .createTask step cause req, w =>
      match input.refused with
      | some e => (w, .error e)
      | none =>
          match w.createTask step cause req input.id input.stamp with
          | (w', some task) => (w', .ok task)
          | (w', none) => (w', .error "UNIQUE constraint failed")
  | .setStepAttempts step attempts, w => (w.setStepAttempts step attempts, ())
  | .setRoleRunTask step task, w => (w.setRoleRunTask step task, ())
  | .setStepStatus step status, w => (w.setStepStatus step status input.now, ())
  | .messagesForStep stepId, w => (w, w.messagesForStep stepId)
  | .claimActivation step, w => w.claimActivation step input.now
  | .cancelWorkflowRun, w => w.cancelWorkflowRun
  | .blockStepAndRun step, w => (w.blockStepAndRun step, ())

abbrev Program (α : Type) : Type := Prog Tx Tx.Reply String α

def hold (keys : List String) (tx : Tx) : Program tx.Reply := .call keys tx .ret

abbrev ask (tx : Tx) : Program tx.Reply := hold [] tx

inductive Outcome
  | created (tasks : List String)
  | answered (done : Bool)
  | refused (error : String)
deriving DecidableEq, Repr

/-- The local variables that a tick carries from step to step. -/
structure Progress where
  statusById : String → Option WorkflowStepStatus
  created : List String

inductive Flow
  | next (l : Progress)
  | stop (result : Outcome)

def Progress.insert (l : Progress) (stepId : String) (status : WorkflowStepStatus) :
    Progress :=
  { l with statusById := fun k => if k = stepId then some status else l.statusById k }

def Progress.push (l : Progress) (task : String) : Progress :=
  { l with created := l.created ++ [task] }

def Progress.start (steps : List WorkflowStepRun) : Progress :=
  steps.foldl (fun l row => l.insert row.step.id row.status) ⟨fun _ => none, []⟩

/-- `parse_plan_steps`: the YAML or JSON decoder and the checks on its result. -/
abbrev PlanParser : Type := String → Except String (List WorkflowStep)

def approveWorkflowPlan (parse : PlanParser) : Program (Except String Unit) := do
  let run ← ask .getWorkflowRun
  if run.status = .planReady then
    match ← ask .getWorkflowRunPlan with
    | none => pure (.error ("no plan to approve for run " ++ run.id))
    | some plan =>
        match parse plan with
        | .error e => pure (.error e)
        | .ok steps => ask (.expandPlan run steps)
  else
    pure (.error ("run is not awaiting plan approval (status = " ++ run.status.debug ++ ")"))

def resetIfWedged (l : Progress) (row : WorkflowStepRun) : Program Flow := do
  let claimed : Bool ← ask (.resetWedged row.id)
  if claimed then
    pure (.next (l.insert row.step.id .pending))
  else
    pure (.next l)

def onSucceeded (l : Progress) (row : WorkflowStepRun) (task : String) : Program Flow := do
  let claimed : Bool ← ask (.claimEnd row.id .succeeded)
  if claimed then
    let l := l.insert row.step.id .succeeded
    let commitSha ← ask (.attemptCommitForTask task)
    let summary := "step `" ++ row.step.id ++ "` succeeded (task " ++ task ++ ")"
    let _ ← ask (.emitWorkflowMessage ⟨row.step.id, "*", ⟨summary, commitSha, []⟩⟩)
    if row.step.expandable.getD false = true ∧ row.step.role = .architect then
      match ← ask (.attemptPlanForTask task) with
      | some plan =>
          let _ ← ask (.setWorkflowRunPlan plan)
          let _ ← ask (.setWorkflowRunStatus .planReady)
          pure (.stop (.created l.created))
      | none => pure (.next l)
    else
      pure (.next l)
  else
    pure (.next l)

def onCancelled (l : Progress) (row : WorkflowStepRun) : Program Flow := do
  let claimed : Bool ← ask (.claimEnd row.id .cancelled)
  if claimed then
    pure (.next (l.insert row.step.id .cancelled))
  else
    pure (.next l)

def retryStep (run : WorkflowRun) (l : Progress) (row : WorkflowStepRun) (task : String) :
    Program Flow := do
  match ← hold [row.id] (.createTask row.id (.retry task) (retryRequest run row.step)) with
  | .error e =>
      let _ ← hold [row.id] (.setStepAttempts row.id row.attempts)
      pure (.stop (.refused e))
  | .ok new =>
      let _ ← hold [row.id] (.setRoleRunTask row.id new)
      pure (.next (l.push new))

def closeStep (l : Progress) (row : WorkflowStepRun) (status : WorkflowStepStatus) :
    Program Flow := do
  let _ ← hold [row.id] (.setStepStatus row.id status)
  pure (.next l)

def canRerun (u : WorkflowStepRun) : Bool :=
  u.step.retryable.getD false && u.attempts < u.step.maxAttempts.getD 1

def rerunWorker (run : WorkflowRun) (l : Progress) (row u : WorkflowStepRun)
    (task : String) : Program Flow := do
  let claimed : Bool ← hold [row.id] (.claimRerun u.id u.attempts)
  if claimed then
    match ← hold [row.id, u.id]
        (.createTask u.id (.rejection row.id task) (rerunRequest run u.step task)) with
    | .ok new =>
        let _ ← hold [row.id, u.id] (.setRoleRunTask u.id new)
        let _ ← hold [row.id, u.id] (.setStepStatus u.id .running)
        let _ ← hold [row.id] (.setStepStatus row.id .pending)
        pure (.next ((l.push new).insert u.step.id .running))
    | .error e =>
        let _ ← hold [row.id, u.id] (.setStepAttempts u.id u.attempts)
        pure (.stop (.refused e))
  else
    pure (.next l)

def upstream (steps : List WorkflowStepRun) (row : WorkflowStepRun) : Option WorkflowStepRun :=
  steps.find? fun s => s.step.id == row.step.dependsOn.head?.getD ""

def onRejected (run : WorkflowRun) (steps : List WorkflowStepRun) (l : Progress)
    (row : WorkflowStepRun) (task : String) : Program Flow :=
  match upstream steps row with
  | some u => if canRerun u then rerunWorker run l row u task else closeStep l row .failed
  | none => closeStep l row .failed

def onFailed (run : WorkflowRun) (steps : List WorkflowStepRun) (l : Progress)
    (row : WorkflowStepRun) (task : String) : Program Flow := do
  let claimed : Bool ← ask (.claimFailure row.id row.attempts task)
  if claimed then
    if row.step.retryable.getD false = true ∧
        row.attempts + 1 < row.step.maxAttempts.getD 1 then
      retryStep run l row task
    else if row.step.role = .integrator ∨ row.step.role = .collector then
      closeStep l row .blocked
    else if row.step.retryable.getD false then
      closeStep l row .blocked
    else if row.step.role = .verifier then
      onRejected run steps l row task
    else
      closeStep l row .failed
  else
    pure (.next l)

def tickRunning (run : WorkflowRun) (steps : List WorkflowStepRun) (l : Progress)
    (row : WorkflowStepRun) : Program Flow := do
  match ← ask (.stepTaskId row.id) with
  | none => resetIfWedged l row
  | some task =>
      match ← ask (.getTaskStatus task) with
      | some .succeeded => onSucceeded l row task
      | some .failed => onFailed run steps l row task
      | some .cancelled => onCancelled l row
      | some .queued | some .assigned | some .running | some .validating | none =>
          pure (.next l)

def ready (l : Progress) (row : WorkflowStepRun) : Bool :=
  row.step.dependsOn.all fun d => l.statusById d == some .succeeded

def activate (run : WorkflowRun) (l : Progress) (row : WorkflowStepRun)
    (messages : List AgentMessage) : Program Flow := do
  let claimed : Bool ← ask (.claimActivation row.id)
  if claimed then
    match ← hold [row.id]
        (.createTask row.id .activation (activationRequest run row.step messages)) with
    | .error e =>
        let _ ← hold [row.id] (.setStepStatus row.id .pending)
        pure (.stop (.refused e))
    | .ok new =>
        let _ ← hold [row.id] (.setRoleRunTask row.id new)
        pure (.next ((l.insert row.step.id .running).push new))
  else
    pure (.next l)

def tickPending (run : WorkflowRun) (l : Progress) (row : WorkflowStepRun) :
    Program Flow := do
  if ready l row then
    let messages ← ask (.messagesForStep row.step.id)
    activate run l row messages
  else
    pure (.next l)

def tickStep (run : WorkflowRun) (steps : List WorkflowStepRun) (l : Progress)
    (row : WorkflowStepRun) : Program Flow :=
  match row.status with
  | .succeeded | .failed | .cancelled | .skipped | .blocked => pure (.next l)
  | .running => tickRunning run steps l row
  | .pending => tickPending run l row

def finalStatus (steps : List WorkflowStepRun) : Option WorkflowRunStatus :=
  if steps.any fun s => s.status == .blocked then some .blocked
  else if steps.any fun s => s.status == .failed || s.status == .cancelled then some .failed
  else if steps.all fun s => s.status.terminal then some .succeeded
  else none

def tickEnd (created : List String) : Program Outcome := do
  let steps ← ask .getWorkflowRunSteps
  match finalStatus steps with
  | some status =>
      let _ ← ask (.setWorkflowRunStatus status)
      pure (.created created)
  | none => pure (.created created)

def tickLoop (run : WorkflowRun) (steps : List WorkflowStepRun) :
    List WorkflowStepRun → Progress → Program Outcome
  | [], l => tickEnd l.created
  | row :: rest, l => do
      match ← tickStep run steps l row with
      | .next l => tickLoop run steps rest l
      | .stop result => pure result

def tickSteps (run : WorkflowRun) : Program Outcome := do
  let steps ← ask .getWorkflowRunSteps
  tickLoop run steps steps (.start steps)

def cancelStepTasks : List WorkflowStepRun → Program Outcome
  | [] => do
      let _ ← ask (.setWorkflowRunStatus .blocked)
      pure (.created [])
  | row :: rest => do
      if row.status = .running then
        match ← ask (.stepTaskId row.id) with
        | some task =>
            let _ ← ask (.cancelTask task)
            cancelStepTasks rest
        | none => cancelStepTasks rest
      else
        cancelStepTasks rest

def tickBudget (run : WorkflowRun) : Program Outcome := do
  match ← ask .getBudget with
  | none => tickSteps run
  | some budget =>
      let steps ← ask .getWorkflowRunSteps
      let (observed, now) ← ask .observeUsage
      let started := steps.countP fun s => s.status ≠ .pending
      let computed := computeBudgetUsage run.createdAt started now
      let usage := { observed with rounds := computed.rounds, wallSeconds := computed.wallSeconds }
      if (budget.check usage).isSome then cancelStepTasks steps else tickSteps run

def tickRun (run : WorkflowRun) : Program Outcome :=
  match run.status with
  | .succeeded | .failed | .cancelled | .blocked | .planReady => pure (.created [])
  | .pending => do
      let _ ← ask (.setWorkflowRunStatus .running)
      tickBudget run
  | .running => tickBudget run

def tickWorkflowRun (parse : PlanParser) : Program Outcome := do
  let run ← ask .getWorkflowRun
  if run.status = .planReady ∧ run.autoApprovePlan then
    match ← approveWorkflowPlan parse with
    | .error _ => pure (.created [])
    | .ok _ =>
        let run ← ask .getWorkflowRun
        tickRun run
  else
    tickRun run

/-- The calls a run receives. -/
inductive Call
  | tick
  | cancel
  | approve
  | block (step : String)
deriving DecidableEq, Repr

def Call.program (parse : PlanParser) : Call → Program Outcome
  | .tick => tickWorkflowRun parse
  | .cancel => do
      let done ← ask .cancelWorkflowRun
      pure (.answered done)
  | .approve => do
      match ← approveWorkflowPlan parse with
      | .ok _ => pure (.answered true)
      | .error e => pure (.refused e)
  | .block step => do
      let _ ← ask (.blockStepAndRun step)
      pure (.answered true)

/-- A run, its store and the calls begun on it, in the order they began. -/
structure System where
  world : World
  calls : List (Call × Program Outcome) := []

/-- One transaction of a call, the begin or the loss of a call (the process or
its connection died), or one operation of the store. -/
inductive Event
  | start (call : Call)
  | advance (i : Nat) (input : Input)
  | abandon (i : Nat)
  | store (op : Store.Op)

def System.step (parse : PlanParser) (S : System) : Event → Option System
  | .start call => some { S with calls := S.calls ++ [(call, call.program parse)] }
  | .advance i input =>
      match S.calls[i]? with
      | some (call, .call _ tx next) =>
          some ⟨(exec input tx S.world).1,
            S.calls.set i (call, next (exec input tx S.world).2)⟩
      | some (_, .ret _) | none => none
  | .abandon i =>
      match S.calls[i]? with
      | some (call, _) =>
          some { S with calls := S.calls.set i (call, .ret (.refused "abandoned")) }
      | none => none
  | .store op => some { S with world := { S.world with db := Store.step S.world.db op } }

/-- The transaction a call waits for. -/
def System.next (S : System) (i : Nat) : Option Tx :=
  S.calls[i]?.bind fun c => c.2.pending

def Steps (parse : PlanParser) (S : System) (e : Event) (S' : System) : Prop :=
  S.step parse e = some S'

/-- The two unique indexes of `workflow_steps`. -/
def Keyed (steps : List WorkflowStepRun) : Prop :=
  (steps.map (·.id)).Nodup ∧ (steps.map (·.step.id)).Nodup

/-- What `create_workflow_run` leaves, in a store reached by its operations. -/
structure World.Created (w : World) : Prop where
  store : ∃ ops, Runs Store.Step {} ops w.db
  run : w.run.status = .pending
  steps : ∀ row ∈ w.steps, row.attempts = 0 ∧ row.status = .pending ∧ row.startedAt = none
  keyed : Keyed w.steps
  tasks : w.taskOf = fun _ => none
  spawned : w.spawned = []

structure System.Initial (S : System) : Prop where
  world : S.world.Created
  calls : S.calls = []

section Day

/-! A worker and its verifier, and a node with two slots, for the examples of
the modules below. -/

def noPlan : PlanParser := fun _ => .error "plan is empty"

def morning : String := "2026-01-01T08:00:00Z"

def workerRow : WorkflowStepRun :=
  { id := "s1"
    step := { id := "work", adapter := some "claude", retryable := some true,
              maxAttempts := some 1 } }

def verifierRow : WorkflowStepRun :=
  { id := "s2"
    step := { id := "verify", dependsOn := ["work"], role := .verifier,
              adapter := some "claude" } }

def begunWith (steps : List WorkflowStepRun) : System where
  world := { run := { id := "r1", repository := some "app" }, steps := steps }

/-- The next `n` transactions of a call; a task they create gets the id. -/
def advance (i n : Nat) (task : String) : List Event :=
  List.replicate n (.advance i { id := task, stamp := morning })

def enroll : Event := .store (.registerOrTouchNode ⟨"n1", "n1", ["claude"], ["*"], 2⟩ morning)

/-- The oldest queued task runs to its end. -/
def attempt (id : String) (exitCode : Int) : List Event :=
  [.store (.tryAssignBatch { freeBytes := 2 ^ 40 } "n1" false
     { limit := 1, now := morning, leaseExpiresAt := morning, ackDeadline := morning,
       attemptId := fun _ => id, fencingToken := fun _ => id }),
   .store (.ackAttempt id morning),
   .store (.completeAttempt id { exitCode := exitCode } id morning morning)]

def System.after (S : System) (es : List Event) : System :=
  (es.foldlM (System.step noPlan) S).getD S

theorem runs_during {S : System} {es : List Event} {cond : System → Event → Bool}
    (h : (es.foldlM (fun S e => if cond S e then System.step noPlan S e else none) S).isSome =
      true) :
    Runs (During (Steps noPlan) fun S e => cond S e = true) S es (S.after es) := by
  obtain ⟨S', hS'⟩ := Option.isSome_iff_exists.mp h
  have hrun := Runs.foldlM hS'
  have hafter : S.after es = S' := by
    rw [System.after, Runs.foldlM_eq (hrun.mono fun hstep => hstep.1), Option.getD_some]
  rw [hafter]
  exact hrun

theorem runs_after {S : System} {es : List Event}
    (h : (es.foldlM (fun S e => if (fun _ _ => true : System → Event → Bool) S e then
      System.step noPlan S e else none) S).isSome = true) :
    Runs (Steps noPlan) S es (S.after es) :=
  (runs_during h).mono fun hstep => hstep.1

theorem begunWith_initial {steps : List WorkflowStepRun}
    (hsteps : ∀ row ∈ steps, row.attempts = 0 ∧ row.status = .pending ∧ row.startedAt = none)
    (hids : (steps.map (·.id)).Nodup) (hstepIds : (steps.map (·.step.id)).Nodup) :
    (begunWith steps).Initial :=
  ⟨⟨⟨[], .refl _⟩, rfl, hsteps, ⟨hids, hstepIds⟩, rfl, rfl⟩, rfl⟩

def loop : System := begunWith [workerRow, verifierRow]

theorem loop_initial : loop.Initial :=
  begunWith_initial (by decide) (by decide) (by decide)

/-- Two ticks and the worker's task between them: the worker succeeded and its
verifier runs. -/
def verifying : List Event :=
  [enroll, .start .tick] ++ advance 0 9 "t1" ++ attempt "a1" 0 ++ [Event.start .tick] ++
    advance 1 13 "t2"

/-- The verifier loop of the next tick, once the verifier's task has failed. -/
def rejected : List Event := attempt "a2" 1 ++ [Event.start .tick] ++ advance 2 12 "t3"

end Day

end AgentGrid.Workflow
