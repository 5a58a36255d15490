import AgentGrid.Store.Loss

/-!
# The attempt lifecycle

Acknowledgement, event ingestion, validation, completion, refusal, cancel and
retry, each one write transaction.  A transaction that is rolled back leaves
the tables as they were.
-/

namespace AgentGrid.Store

open AgentGrid.Foundation

structure CreateTaskRequest where
  prompt : String
  repository : String
  adapter : String
  requestedNodeId : Option String := none
  timeoutSecs : Option Nat := none
  validationCommand : Option String := none
  baseCommit : Option String := none
  parentAcpSessionId : Option String := none
  consensusGroupId : Option String := none
  consensusMember : Option String := none
  maxTokens : Option Nat := none
  maxCostCents : Option Nat := none
  networkMode : Option String := none
  securityProfile : Option String := none
  groupId : Option String := none
  opencodeOverride : Option String := none
  githubPush : Bool := false
  githubRepo : Option String := none
  githubIssue : Option Int := none
  githubBaseRef : Option String := none
  githubCreate : Bool := false
  maxAttempts : Int := 1
  retryOnNodeLoss : Option Bool := none

def CreateTaskRequest.task (req : CreateTaskRequest) (id now : String) : Task where
  id := id
  repository := req.repository
  prompt := req.prompt
  adapter := req.adapter
  requestedNodeId := req.requestedNodeId
  createdAt := now
  timeoutSecs := req.timeoutSecs.getD 3600
  validationCommand := req.validationCommand
  baseCommit := req.baseCommit
  parentAcpSessionId := req.parentAcpSessionId
  networkMode := req.networkMode
  securityProfile := req.securityProfile
  groupId := req.groupId
  consensusGroupId := req.consensusGroupId
  consensusMember := req.consensusMember
  opencodeOverride := req.opencodeOverride
  githubPush := req.githubPush
  githubRepo := req.githubRepo
  githubIssue := req.githubIssue
  githubBaseRef := req.githubBaseRef
  githubCreate := req.githubCreate
  maxTokens := req.maxTokens.map Int.ofNat
  maxCostCents := req.maxCostCents.map Int.ofNat
  maxAttempts := req.maxAttempts
  retryOnNodeLoss := if req.retryOnNodeLoss.getD true then 1 else 0

def createTask (db : Database) (req : CreateTaskRequest) (id now : String) :
    Database × Except StoreError Task :=
  match db.task id with
  | some _ => (db, .error .constraint)
  | none =>
      ({ db with tasks := db.tasks ++ [req.task id now] }, .ok (req.task id now))

/-- The answer to an acknowledgement that changes nothing. -/
def AttemptStatus.ackKnown : AttemptStatus → Bool
  | .running | .succeeded | .failed | .lost | .validating => true
  | .assigned | .cancelled => false

def ackAttempt (db : Database) (attemptId now : String) : Database × Bool :=
  match db.attempt attemptId with
  | none => (db, false)
  | some row =>
      if row.status ≠ .assigned then (db, row.status.ackKnown)
      else
        let held := fun a : Attempt => a.id == attemptId && a.status == .assigned
        let moved := db.attempts.countP held
        if moved ≠ 1 then (db, false)
        else
          let db := db.updateAttempts held fun a =>
            { a with status := .running, ackDeadline := none, startedAt := now }
          (db.updateTasks
            (fun t => t.assignedAttemptId == some attemptId &&
              (t.status == .assigned || t.status == .queued))
            fun t => { t with status := .running, startedAt := some now }, true)

structure IncomingEvent where
  sequence : Int
  type : EventType
  payload : String

/-- `INSERT .. ON CONFLICT(attempt_id, sequence) DO NOTHING` over the batch. -/
def insertEvents (attemptId now : String) :
    List TaskEvent → Int → List IncomingEvent → List TaskEvent × Nat
  | rows, _, [] => (rows, 0)
  | rows, ingestId, ev :: events =>
      if rows.any fun r => r.attemptId == attemptId && r.sequence == ev.sequence then
        insertEvents attemptId now rows (ingestId + 1) events
      else
        let (rows, accepted) := insertEvents attemptId now
          (rows ++ [⟨attemptId, ev.sequence, ev.type, ev.payload, now, ingestId⟩])
          (ingestId + 1) events
        (rows, accepted + 1)

/-- The ack is `none` when the attempt is unknown or no longer in flight. -/
def ingestEvents (db : Database) (attemptId : String) (events : List IncomingEvent)
    (now : String) : Database × Option Nat :=
  match db.attempt attemptId with
  | none => (db, none)
  | some row =>
      if row.status.inFlight = false then (db, none)
      else
        let db :=
          if row.status = .assigned then
            (db.updateAttempts (fun a => a.id == attemptId)
              fun a => { a with status := .running }).updateTasks
                (fun t => t.id == row.taskId)
                fun t => { t with status := .running, startedAt := some now }
          else db
        let blockLast := db.eventIngestCounter + events.length
        let blockFirst := blockLast - events.length + 1
        let (rows, accepted) := insertEvents attemptId now db.taskEvents blockFirst events
        ({ db with taskEvents := rows, eventIngestCounter := blockLast }, some accepted)

def beginValidate (db : Database) (attemptId now : String) : Database × Bool :=
  let held := fun a : Attempt => a.id == attemptId && a.status == .running
  let moved := db.attempts.countP held
  if moved ≠ 1 then (db, false)
  else
    let db := db.updateAttempts held fun a =>
      { a with status := .validating, validatedAt := some now }
    (db.updateTasks
      (fun t => t.assignedAttemptId == some attemptId && t.status == .running)
      fun t => { t with status := .validating }, true)

def rejectAssignment (db : Database) (attemptId reason now : String) : Database × Bool :=
  match db.attempt attemptId with
  | none => (db, false)
  | some row =>
      if row.status ≠ .assigned then (db, false)
      else
        let held := fun a : Attempt => a.id == attemptId && a.status == .assigned
        let moved := db.attempts.countP held
        if moved ≠ 1 then (db, false)
        else
          let db := db.updateAttempts held (Attempt.lose now)
          let policy := ((db.task row.taskId).map LossRetryPolicy.ofTask).getD .terminal
          let (db, requeued) := requeueLostAttempt db row.taskId attemptId row.nodeId
            now "node_rejected" policy
          let db :=
            if requeued then db
            else db.updateTasks (fun t => t.id == row.taskId && t.status == .assigned)
              fun t => { t with status := .failed, finishedAt := some now,
                                assignedAttemptId := none }
          let db := db.freeSlots row.nodeId 1
          (db.audit { actorType := "attempt", actorId := some attemptId,
                      action := "attempt.node_rejected", subject := some reason,
                      createdAt := now }, true)

def cancelTask (db : Database) (taskId now : String) : Database × Bool :=
  match db.task taskId with
  | none => (db, false)
  | some row =>
      if row.status = .queued then
        (db.updateTasks (fun t => t.id == taskId) fun t =>
          { t with status := .cancelled, finishedAt := some now,
                   assignedAttemptId := none }, true)
      else if row.status.inFlight then
        (db.updateAttempts (fun a => a.taskId == taskId && a.status.inFlight)
          fun a => { a with cancelRequested := true }, true)
      else (db, false)

/-- What `cancel_workflow_run` does to the task of one of its steps. -/
def cancelStepTask (db : Database) (taskId : String) : Database :=
  (db.updateTasks (fun t => t.id == taskId && t.status == .queued) fun t =>
    { t with status := .cancelled, assignedAttemptId := none }).updateAttempts
      (fun a => a.taskId == taskId && a.status.inFlight)
      fun a => { a with cancelRequested := true }

def retryTask (db : Database) (taskId now : String) : Database × Bool :=
  match db.task taskId with
  | none => (db, false)
  | some row =>
      if row.status = .failed ∨ row.status = .cancelled then
        (db.updateTasks (fun t => t.id == taskId) fun t =>
          { t with status := .queued, finishedAt := none, assignedAttemptId := none },
          true)
      else
        (db.audit { actorType := "task", actorId := some taskId,
                    action := "retry.rejected_nonterminal",
                    subject := some (statusStr row.status), createdAt := now }, false)

structure CompleteAttemptRequest where
  exitCode : Int
  commitSha : Option String := none
  resolvedBaseSha : Option String := none
  remoteHeadAtStart : Option String := none
  remoteHeadAtFinish : Option String := none
  errorCode : Option String := none
  acpSessionId : Option String := none
  plan : Option String := none
  provenance : Option String := none
  pendingArtifacts : List String := []
  validationRounds : Nat := 0

namespace CompleteAttemptRequest

def success (req : CompleteAttemptRequest) : Bool :=
  req.exitCode == 0 && req.errorCode.isNone

/-- What a completion writes on the attempt row. -/
def record (req : CompleteAttemptRequest) (target : AttemptStatus) (now : String)
    (a : Attempt) : Attempt :=
  { a with
    status := target
    exitCode := some req.exitCode
    finishedAt := some now
    commitSha := req.commitSha.or a.commitSha
    acpSessionId := req.acpSessionId.or a.acpSessionId
    resolvedBaseSha := req.resolvedBaseSha.or a.resolvedBaseSha
    remoteHeadAtStart := req.remoteHeadAtStart.or a.remoteHeadAtStart
    remoteHeadAtFinish := req.remoteHeadAtFinish.or a.remoteHeadAtFinish
    errorCode := req.errorCode.or a.errorCode
    validationRounds :=
      if req.validationRounds > 0 then req.validationRounds else a.validationRounds
    provenance := req.provenance
    plan := req.plan.or a.plan
    pendingArtifacts :=
      if req.pendingArtifacts.isEmpty then a.pendingArtifacts else req.pendingArtifacts }

end CompleteAttemptRequest

def verificationNote : String :=
  "verification: attempt produced a commit but no adapter result event " ++
    "(silent success — diff exists without a claimed finish)"

/-- `SELECT COALESCE(MAX(sequence), 0) + 1 FROM task_events WHERE attempt_id = ?`. -/
def nextSequence (rows : List TaskEvent) (attemptId : String) : Int :=
  ((rows.filter fun e => e.attemptId == attemptId).map TaskEvent.sequence).max?.getD 0 + 1

/-- An event of the control plane's own in the attempt's next slot. -/
def insertAuditEvent (db : Database) (attemptId payload now : String) : Database :=
  let sequence := nextSequence db.taskEvents attemptId
  let ingestId := db.eventIngestCounter + 1
  { db with
    eventIngestCounter := ingestId
    taskEvents :=
      (insertEvents attemptId now db.taskEvents ingestId [⟨sequence, .stdout, payload⟩]).1 }

def insertVerificationNote (db : Database) (attemptId text now : String) : Database :=
  insertAuditEvent db attemptId
    ("\x7b\"kind\":\"verification_note\",\"text\":\"" ++ text ++ "\"\x7d") now

/-- A commit without a `result` event gets the note. -/
def noteSilentSuccess (db : Database) (attemptId : String)
    (req : CompleteAttemptRequest) (target : TaskStatus) (now : String) : Database :=
  if target = .succeeded ∧ req.commitSha.isSome ∧
      db.taskEvents.all fun e => !(e.attemptId == attemptId && e.type == .result) then
    insertVerificationNote db attemptId verificationNote now
  else db

@[simp] theorem noteSilentSuccess_tasks (db : Database) (attemptId : String)
    (req : CompleteAttemptRequest) (target : TaskStatus) (now : String) :
    (noteSilentSuccess db attemptId req target now).tasks = db.tasks := by
  unfold noteSilentSuccess
  split <;> rfl

@[simp] theorem noteSilentSuccess_attempts (db : Database) (attemptId : String)
    (req : CompleteAttemptRequest) (target : TaskStatus) (now : String) :
    (noteSilentSuccess db attemptId req target now).attempts = db.attempts := by
  unfold noteSilentSuccess
  split <;> rfl

@[simp] theorem noteSilentSuccess_nodes (db : Database) (attemptId : String)
    (req : CompleteAttemptRequest) (target : TaskStatus) (now : String) :
    (noteSilentSuccess db attemptId req target now).nodes = db.nodes := by
  unfold noteSilentSuccess
  split <;> rfl

def finishAgentSession (db : Database) (attemptId status : String)
    (errorCode : Option String) (now : String) : Database :=
  let close := fun row : AgentSession =>
    { row with endedAt := some now, status := status, errorCode := errorCode }
  { db with
    agentSessions := updateWhere
      (fun row => row.attemptId == attemptId && row.endedAt.isNone) close
      db.agentSessions }

/-- Whether a failed attempt spends another one of its task's budget. -/
def autoRetry (db : Database) (task : Task) (target : TaskStatus) : Bool :=
  target == .failed && decide (1 < task.maxAttempts) &&
    decide ((db.attemptCount task.id : Int) < task.maxAttempts)

def taskErrorCode (req : CompleteAttemptRequest) : TaskStatus → Option String
  | .failed => some (req.errorCode.getD "agent_failed")
  | .cancelled => some "cancelled"
  | _ => none

def settleTask (req : CompleteAttemptRequest) (target : TaskStatus) (requeue : Bool)
    (now : String) (t : Task) : Task :=
  if requeue then
    { t with status := .queued, finishedAt := none, errorCode := none,
             assignedAttemptId := none }
  else
    { t with status := target, finishedAt := some now,
             errorCode := taskErrorCode req target, assignedAttemptId := none }

/-- The writes of a completion once both target statuses are known. -/
def finishAttempt (db : Database) (a : Attempt) (task : Task)
    (req : CompleteAttemptRequest) (attemptTarget : AttemptStatus)
    (taskTarget : TaskStatus) (approvalId now expires : String) : Database :=
  let db := finishAgentSession db a.id (if req.success then "done" else "failed")
    req.errorCode now
  let db := db.updateAttempts (fun r => r.id == a.id) (req.record attemptTarget now)
  let db := noteSilentSuccess db a.id req taskTarget now
  let db := db.updateTasks (fun t => t.id == a.taskId)
    (settleTask req taskTarget (autoRetry db task taskTarget) now)
  let db := db.freeSlots a.nodeId 1
  if taskTarget = .succeeded then
    { db with
      approvals := db.approvals ++
        [{ id := approvalId, taskId := a.taskId, attemptId := a.id,
           permission := [("kind", "patch_review"), ("task_id", a.taskId),
             ("attempt_id", a.id)],
           status := "pending", createdAt := now, expiresAt := expires,
           scope := "task_patch_review" }] }
  else db

/-- The task of an attempt and the statuses a completion moves the two to:
both machines must allow the reported outcome, and a requested cancel then
overrides it. -/
def completionTargets (db : Database) (a : Attempt) (req : CompleteAttemptRequest) :
    Except StoreError (Task × AttemptStatus × TaskStatus) := do
  let attemptTarget ← (nextAttemptStatus a.status
    (if req.success then .succeed else .fail)).mapError .transition
  let some task := db.task a.taskId | throw .rowNotFound
  let taskTarget ← (nextTaskStatus task.status
    (if req.success then .succeed else .fail)).mapError .transition
  if a.cancelRequested then
    let attemptTarget ← (nextAttemptStatus a.status .cancel).mapError .transition
    let taskTarget ← (nextTaskStatus task.status .cancel).mapError .transition
    return (task, attemptTarget, taskTarget)
  return (task, attemptTarget, taskTarget)

def completeAttempt (db : Database) (attemptId : String) (req : CompleteAttemptRequest)
    (approvalId now expires : String) : Database × Except StoreError Bool :=
  match db.attempt attemptId with
  | none => (db, .ok false)
  | some a =>
      if a.status.inFlight = false then
        (db.audit { actorType := "attempt", actorId := some attemptId,
                    action := "complete.rejected_terminal",
                    subject := some (attemptStatusStr a.status), createdAt := now },
          .ok true)
      else
        match completionTargets db a req with
        | .error cause => (db, .error cause)
        | .ok (task, attemptTarget, taskTarget) =>
            if taskTarget = .succeeded ∧ db.approvals.any (·.id == approvalId) then
              (db, .error .constraint)
            else
              (finishAttempt db a task req attemptTarget taskTarget approvalId now
                expires, .ok true)

end AgentGrid.Store
