import AgentGrid.Store.Refinement.Assignment
import AgentGrid.Store.Refinement.Nodes

/-!
# Runs of the store

Every operation is one event and one write transaction; the two operations
that sweep a node in a transaction of their own (`heartbeat`, `revokeNode`)
are followed, or not, by the event of the sweep.
-/

namespace AgentGrid.Store

open AgentGrid.Foundation AgentGrid.Foundation.Ledger

inductive Op
  | createTask (req : CreateTaskRequest) (id now : String)
  | registerOrTouchNode (req : PollRequest) (now : String)
  | enrollNode (req : EnrollRequest) (nodeId credHash now : String)
  | rekeyNode (nodeId credHash now : String)
  | heartbeat (nodeId : String) (req : HeartbeatRequest) (now : String)
  | revokeNode (nodeId now : String)
  | setNodeDrained (nodeId : String) (drained : Bool) (now : String)
  | setNodeDegraded (nodeId : String)
  | tryAssignBatch (env : SchedulerEnv) (nodeId : String) (drained : Bool)
      (input : AssignInput)
  | ackAttempt (attemptId now : String)
  | ingestEvents (attemptId : String) (events : List IncomingEvent) (now : String)
  | beginValidate (attemptId now : String)
  | completeAttempt (attemptId : String) (req : CompleteAttemptRequest)
      (approvalId now expires : String)
  | rejectAssignment (attemptId reason now : String)
  | cancelTask (taskId now : String)
  | cancelStepTask (taskId : String)
  | retryTask (taskId now : String)
  | revertExpiredLeases (now : String) (fence : String → String)
  | loseNodeAttempts (nodeId now : String)
  | loseNodeAttemptsIfOffline (nodeId now : String)
  | markNodeOffline (nodeId now : String)
  | markOfflineNodes (cutoff now : String)
  | reconcileActiveAttempts

def step (db : Database) : Op → Database
  | .createTask req id now => (createTask db req id now).1
  | .registerOrTouchNode req now => registerOrTouchNode db req now
  | .enrollNode req nodeId credHash now => (enrollNode db req nodeId credHash now).1
  | .rekeyNode nodeId credHash now => (rekeyNode db nodeId credHash now).1
  | .heartbeat nodeId req now => (heartbeat db nodeId req now).1
  | .revokeNode nodeId now => (revokeNode db nodeId now).1
  | .setNodeDrained nodeId drained now => (setNodeDrained db nodeId drained now).1
  | .setNodeDegraded nodeId => setNodeDegraded db nodeId
  | .tryAssignBatch env nodeId drained input =>
      (tryAssignBatch env db nodeId drained input).1
  | .ackAttempt attemptId now => (ackAttempt db attemptId now).1
  | .ingestEvents attemptId events now => (ingestEvents db attemptId events now).1
  | .beginValidate attemptId now => (beginValidate db attemptId now).1
  | .completeAttempt attemptId req approvalId now expires =>
      (completeAttempt db attemptId req approvalId now expires).1
  | .rejectAssignment attemptId reason now =>
      (rejectAssignment db attemptId reason now).1
  | .cancelTask taskId now => (cancelTask db taskId now).1
  | .cancelStepTask taskId => cancelStepTask db taskId
  | .retryTask taskId now => (retryTask db taskId now).1
  | .revertExpiredLeases now fence => (revertExpiredLeases db now fence).1
  | .loseNodeAttempts nodeId now => loseNodeAttempts db nodeId now
  | .loseNodeAttemptsIfOffline nodeId now => loseNodeAttemptsIfOffline db nodeId now
  | .markNodeOffline nodeId now => (markNodeOffline db nodeId now).1
  | .markOfflineNodes cutoff now => markOfflineNodes db cutoff now
  | .reconcileActiveAttempts => (reconcileActiveAttempts db).1

def Step (db : Database) (op : Op) (db' : Database) : Prop := db' = step db op

/-- No task, no attempt and no node yet. -/
def Database.Fresh (db : Database) : Prop :=
  db.tasks = [] ∧ db.attempts = [] ∧ db.nodes = []

def Op.retries (taskId : String) : Op → Bool
  | .retryTask id _ => id == taskId
  | _ => false

/-- The operation does not requeue a cancelled attempt of the task: no lease it
reverts, no assignment it refuses and no attempt it loses with its node
carries `cancel_requested`, unless (for the latter two) the task's retry
budget is spent. -/
def Op.KeepsCancel (db : Database) (taskId : String) : Op → Prop
  | .revertExpiredLeases now _ =>
      ∀ a ∈ db.attempts, a.expired now = true → a.taskId = taskId →
        a.cancelRequested = false
  | .rejectAssignment attemptId _ _ =>
      ∀ a ∈ db.attempts, a.id = attemptId → a.taskId = taskId →
        a.status = .assigned → a.cancelRequested = true → db.canRequeue taskId = false
  | .loseNodeAttempts nodeId _ => db.LossKeepsCancel nodeId taskId
  | .loseNodeAttemptsIfOffline nodeId _ =>
      (∃ n ∈ db.nodes, n.id = nodeId ∧ n.status = .offline) →
        db.LossKeepsCancel nodeId taskId
  | .markNodeOffline nodeId _ =>
      (∃ n ∈ db.nodes, n.id = nodeId ∧ n.canGoOffline = true) →
        db.LossKeepsCancel nodeId taskId
  | .markOfflineNodes cutoff _ =>
      ∀ n ∈ db.nodes, n.status = .online → n.lastHeartbeatAt.all (· < cutoff) = true →
        db.LossKeepsCancel n.id taskId
  | _ => True

variable {db : Database}

theorem sound_of_fresh (h : db.Fresh) : db.Sound := by
  obtain ⟨htasks, hattempts, hnodes⟩ := h
  constructor <;> simp [Database.ledger, htasks, hattempts, hnodes]

/-- Every operation but assignment, as moves without a grant. -/
theorem step_traced (hdb : db.Sound) (op : Op)
    (hop : ∀ env nodeId drained input, op ≠ .tryAssignBatch env nodeId drained input) :
    Traced db (step db op) (fun k => op.retries k = false ∧ op.KeepsCancel db k) := by
  cases op with
  | createTask req id now => exact createTask_traced req id now
  | registerOrTouchNode req now => exact registerOrTouchNode_traced req now
  | enrollNode req nodeId credHash now => exact enrollNode_traced req nodeId credHash now
  | rekeyNode nodeId credHash now => exact rekeyNode_traced nodeId credHash now
  | heartbeat nodeId req now => exact heartbeat_traced nodeId req now
  | revokeNode nodeId now => exact revokeNode_traced nodeId now
  | setNodeDrained nodeId drained now => exact setNodeDrained_traced nodeId drained now
  | setNodeDegraded nodeId => exact setNodeDegraded_traced nodeId
  | tryAssignBatch env nodeId drained input =>
      exact absurd rfl (hop env nodeId drained input)
  | ackAttempt attemptId now => exact ackAttempt_traced hdb attemptId now
  | ingestEvents attemptId events now =>
      exact ingestEvents_traced hdb attemptId events now
  | beginValidate attemptId now => exact beginValidate_traced hdb attemptId now
  | completeAttempt attemptId req approvalId now expires =>
      exact completeAttempt_traced hdb attemptId req approvalId now expires
  | rejectAssignment attemptId reason now =>
      exact (rejectAssignment_traced hdb attemptId reason now).mono fun _ hk => hk.2
  | cancelTask taskId now => exact cancelTask_traced hdb taskId now
  | cancelStepTask taskId => exact cancelStepTask_traced hdb taskId
  | retryTask taskId now =>
      refine (retryTask_traced hdb taskId now).mono ?_
      rintro k ⟨hk, _⟩ rfl
      simp [Op.retries] at hk
  | revertExpiredLeases now fence =>
      exact (revertExpiredLeases_traced hdb now fence).mono fun _ hk => hk.2
  | loseNodeAttempts nodeId now =>
      exact (loseNodeAttempts_traced hdb nodeId now).1.mono fun _ hk => hk.2
  | loseNodeAttemptsIfOffline nodeId now =>
      exact (loseNodeAttemptsIfOffline_traced hdb nodeId now).mono fun _ hk => hk.2
  | markNodeOffline nodeId now =>
      exact (markNodeOffline_traced hdb nodeId now).mono fun _ hk => hk.2
  | markOfflineNodes cutoff now =>
      exact (markOfflineNodes_traced hdb cutoff now).mono fun _ hk => hk.2
  | reconcileActiveAttempts =>
      exact .of_ledger_eq (by rw [step, reconcileActiveAttempts_eq hdb])

theorem step_stepped (hdb : db.Sound) (op : Op) :
    Stepped db (step db op) (fun k => op.retries k = false ∧ op.KeepsCancel db k) := by
  cases op with
  | tryAssignBatch env nodeId drained input =>
      exact (tryAssignBatch_granted hdb env nodeId drained input).stepped
  | _ => exact (step_traced hdb _ (by simp)).stepped

theorem sound_run {db' : Database} {ops : List Op} (h : Runs Step db ops db')
    (hdb : db.Sound) : db'.Sound := by
  refine Runs.invariant _ ?_ h hdb
  rintro s op _ hs rfl
  exact (step_stepped hs op).sound hs

end AgentGrid.Store
