import AgentGrid.Foundation.Transactions
import AgentGrid.Store.Attempts
import AgentGrid.Store.Artifacts

/-!
# A completion, statement by statement

`complete_attempt` is one write transaction with several ways out of it, and a
few writes after it.  `Store.Attempts` has what it leaves in the tables; this is
the order of its statements and where each of them can fail.
-/

namespace AgentGrid.Store

open AgentGrid.Foundation

inductive CompletionError
  | store (cause : StoreError)
  /-- The write gate, the connection or the database. -/
  | sqlite
  /-- Committed, and not acknowledged by the replicas. -/
  | unacknowledged
deriving DecidableEq, Repr

/-- Answers without a commit. -/
inductive Turned
  | unknown
  | terminal (status : AttemptStatus)

/-- What is left to do after the commit. -/
structure Completed where
  taskId : String
  evalCase : Bool
  requeued : Bool

/-- The fresh id and the times, the faults of statements and of the commit, and
which of the writes without a check succeed. -/
structure CompletionEnv where
  approvalId : String
  now : String
  expires : String
  faults : Nat → Bool := fun _ => false
  commitFault : Option (CommitFault Unit) := none
  commandRead : Bool := true
  evalCaseSaved : Bool := true
  digestSaved : Bool := true
  auditSaved : Bool := true

abbrev CompletionBody (α : Type) : Type 1 := Body Database CompletionError α

def updateAttempt (attemptId : String) (set : Attempt → Attempt) : CompletionBody Unit :=
  .execute fun db => db.updateAttempts (fun r => r.id == attemptId) set

/-- `if let Some(v) = &req.field { UPDATE attempts SET … }`. -/
def setIfSome {β : Type} (attemptId : String) (value : Option β) (set : β → Attempt → Attempt) :
    CompletionBody Unit :=
  match value with
  | none => pure ()
  | some v => updateAttempt attemptId (set v)

def setIf (attemptId : String) (cond : Bool) (set : Attempt → Attempt) : CompletionBody Unit :=
  if cond then updateAttempt attemptId set else pure ()

def transition {β : Type} (next : Except InvalidTransition β) : CompletionBody β :=
  .allow (next.mapError fun cause => .store (.transition cause))

/-- `fetch_one` on a task. -/
def fetchTask (taskId : String) : CompletionBody Task := do
  match ← .query fun db => db.task taskId with
  | none => .fail (.store .rowNotFound)
  | some task => pure task

def noteBody (attemptId : String) (req : CompleteAttemptRequest) (target : TaskStatus)
    (now : String) : CompletionBody Unit :=
  if target = .succeeded ∧ req.commitSha.isSome then do
    let results ← .query fun db =>
      db.taskEvents.countP fun e => e.attemptId == attemptId && e.type == .result
    if results = 0 then
      .execute fun db => insertVerificationNote db attemptId verificationNote now
    else pure ()
  else pure ()

/-- The updates of the attempt's row after its outcome. -/
def detailsBody (attemptId : String) (req : CompleteAttemptRequest) : CompletionBody Unit := do
  setIfSome attemptId req.commitSha fun sha a => { a with commitSha := some sha }
  setIfSome attemptId req.acpSessionId fun sid a => { a with acpSessionId := some sid }
  setIfSome attemptId req.resolvedBaseSha fun base a => { a with resolvedBaseSha := some base }
  setIfSome attemptId req.remoteHeadAtStart fun sha a => { a with remoteHeadAtStart := some sha }
  setIfSome attemptId req.remoteHeadAtFinish fun sha a => { a with remoteHeadAtFinish := some sha }
  setIfSome attemptId req.errorCode fun ec a => { a with errorCode := some ec }
  setIf attemptId (decide (req.validationRounds > 0)) fun a =>
    { a with validationRounds := req.validationRounds }
  updateAttempt attemptId fun a => { a with provenance := req.provenance }
  setIfSome attemptId req.plan fun plan a => { a with plan := some plan }
  setIf attemptId (!req.pendingArtifacts.isEmpty) fun a =>
    { a with pendingArtifacts := req.pendingArtifacts }

/-- Whether the failed attempt is followed by another one. -/
def retryBody (taskId : String) (target : TaskStatus) : CompletionBody Bool :=
  if target = .failed then do
    let task ← fetchTask taskId
    let count ← .query fun db => db.attemptCount taskId
    pure (decide (1 < task.maxAttempts) && decide ((count : Int) < task.maxAttempts))
  else pure false

def insertApproval (row : Approval) : CompletionBody Unit :=
  .stmt (fun db =>
    if db.approvals.any (·.id == row.id) then .error (.store .constraint)
    else .ok ((), { db with approvals := db.approvals ++ [row] })) .ret

/-- A task with a validation command that is not blank. -/
def hasCommand (db : Database) (taskId : String) : Bool :=
  (db.task taskId).any fun t => t.validationCommand.any fun cmd =>
    !(cmd.toList.all isWhitespace)

/-- The pending review of a patch. -/
def reviewBody (a : Attempt) (target : TaskStatus) (env : CompletionEnv) :
    CompletionBody Bool :=
  if target = .succeeded then do
    let command ← .peek fun db => env.commandRead && hasCommand db a.taskId
    insertApproval
      { id := env.approvalId, taskId := a.taskId, attemptId := a.id,
        permission := [("kind", "patch_review"), ("task_id", a.taskId), ("attempt_id", a.id)],
        status := "pending", createdAt := env.now, expiresAt := env.expires,
        scope := "task_patch_review" }
    pure command
  else pure false

/-- The two targets, after a requested cancel. -/
def targetsBody (a : Attempt) (req : CompleteAttemptRequest) :
    CompletionBody (AttemptStatus × TaskStatus) := do
  let attemptTarget ← transition (nextAttemptStatus a.status
    (if req.success then .succeed else .fail))
  let task ← fetchTask a.taskId
  let taskTarget ← transition (nextTaskStatus task.status
    (if req.success then .succeed else .fail))
  if a.cancelRequested then do
    let attemptTarget ← transition (nextAttemptStatus a.status .cancel)
    let taskTarget ← transition (nextTaskStatus task.status .cancel)
    pure (attemptTarget, taskTarget)
  else pure (attemptTarget, taskTarget)

def settleBody (a : Attempt) (req : CompleteAttemptRequest) (env : CompletionEnv) :
    CompletionBody Completed := do
  .execute fun db => finishAgentSession db a.id (if req.success then "done" else "failed")
    req.errorCode env.now
  let (attemptTarget, taskTarget) ← targetsBody a req
  updateAttempt a.id fun r =>
    { r with status := attemptTarget, exitCode := some req.exitCode, finishedAt := some env.now }
  noteBody a.id req taskTarget env.now
  detailsBody a.id req
  let requeue ← retryBody a.taskId taskTarget
  .execute fun db => db.updateTasks (fun t => t.id == a.taskId)
    (settleTask req taskTarget requeue env.now)
  .execute fun db => db.freeSlots a.nodeId 1
  let command ← reviewBody a taskTarget env
  pure ⟨a.taskId, command, requeue⟩

/-- Statement 0 is the `BEGIN IMMEDIATE` behind the write gate. -/
def completionBody (attemptId : String) (req : CompleteAttemptRequest) (env : CompletionEnv) :
    CompletionBody (Ending Turned Completed) := do
  .execute id
  match ← .query fun db => db.attempt attemptId with
  | none => pure (.rollback .unknown)
  | some a =>
      if a.status.inFlight = false then pure (.rollback (.terminal a.status))
      else do
        let done ← settleBody a req env
        pure (.commit done)

/-! ## After the transaction -/

/-- `INSERT … ON CONFLICT(attempt_id, name) DO UPDATE` on the artifacts. -/
def saveArtifact (db : Database) (attemptId name : String) : Database :=
  if db.artifacts.any fun f => f.attemptId == attemptId && f.name == name then db
  else { db with artifacts := db.artifacts ++ [⟨attemptId, name⟩] }

/-- `ORDER BY number DESC LIMIT 1`. -/
def latestAttemptOf (db : Database) (taskId : String) : Option Attempt :=
  db.attempts.foldl
    (fun best a =>
      if a.taskId = taskId ∧ best.all (fun b => b.number < a.number) then some a else best)
    none

/-- The digest is an artifact of the last attempt; `saved` is whether there was
something to write and it could be written. -/
def bakeResumeDigest (db : Database) (taskId : String) (saved : Bool) : Database :=
  match latestAttemptOf db taskId with
  | some a => if saved then saveArtifact db a.id ("resume-context-" ++ taskId ++ ".md") else db
  | none => db

def afterCommit (attemptId : String) (env : CompletionEnv) (done : Completed) (db : Database) :
    Database :=
  let db :=
    if done.evalCase && env.evalCaseSaved then
      saveArtifact db attemptId ("eval-case-" ++ attemptId ++ "-0.yaml")
    else db
  if done.requeued then
    let db := bakeResumeDigest db done.taskId env.digestSaved
    if env.auditSaved then
      db.audit { actorType := "task", actorId := some done.taskId, action := "retry.auto",
                 subject := some "queued", createdAt := env.now }
    else db
  else db

def CompletionEnv.statementFault (env : CompletionEnv) (n : Nat) : Option CompletionError :=
  if env.faults n then some .sqlite else none

def CompletionEnv.commitError (env : CompletionEnv) : Option (CommitFault CompletionError) :=
  env.commitFault.map fun fault =>
    match fault with
    | .refused _ => .refused .sqlite
    | .unacknowledged _ => .unacknowledged .unacknowledged

def rejectTerminal (attemptId : String) (status : AttemptStatus) (env : CompletionEnv)
    (db : Database) : Database :=
  if env.auditSaved then
    db.audit { actorType := "attempt", actorId := some attemptId,
               action := "complete.rejected_terminal",
               subject := some (attemptStatusStr status), createdAt := env.now }
  else db

/-- The call, with what it answers. -/
def completeAttemptCall (attemptId : String) (req : CompleteAttemptRequest) (env : CompletionEnv)
    (db : Database) : Database × Except CompletionError Bool :=
  match transact (completionBody attemptId req env) env.statementFault env.commitError db with
  | (db, .error error) => (db, .error error)
  | (db, .ok (.rollback .unknown)) => (db, .ok false)
  | (db, .ok (.rollback (.terminal status))) => (rejectTerminal attemptId status env db, .ok true)
  | (db, .ok (.commit done)) => (afterCommit attemptId env done db, .ok true)

end AgentGrid.Store
