import AgentGrid.Store.Tables

/-!
# Lease expiry and lost attempts

`revertExpiredLeases` takes back assignments nobody acknowledged in time.
`requeueLostAttempt` is the retry decision shared by a refused assignment and
by the loss of a node, and `loseNodeAttempts` applies it to every attempt a
node has in flight.
-/

namespace AgentGrid.Store

open AgentGrid.Foundation

def Attempt.expired (a : Attempt) (now : String) : Bool :=
  a.status == .assigned && a.ackDeadline.any (· < now)

/-- One round of the loop of `revert_expired_leases`. -/
def revertLease (now : String) (fence : String → String) (db : Database)
    (row : Attempt) : Database × Bool :=
  let held := fun a : Attempt => a.id == row.id && a.status == .assigned
  let moved := db.attempts.countP held
  let db := db.updateAttempts held fun a =>
    { a with status := .cancelled, finishedAt := some now, fencingToken := fence row.id }
  if moved ≠ 1 then (db, false)
  else
    let db := db.updateTasks
      (fun t => t.id == row.taskId && t.assignedAttemptId == some row.id &&
        t.status == .assigned)
      fun t => { t with status := .queued, assignedAttemptId := none }
    (db.freeSlots row.nodeId 1, true)

def revertLeases (now : String) (fence : String → String) :
    Database → List Attempt → Database × Nat
  | db, [] => (db, 0)
  | db, row :: rows =>
      let (db, moved) := revertLease now fence db row
      let (db, reverted) := revertLeases now fence db rows
      (db, reverted + moved.toNat)

def revertExpiredLeases (db : Database) (now : String) (fence : String → String) :
    Database × Nat :=
  revertLeases now fence db (db.attempts.filter fun a => a.expired now)

structure LossRetryPolicy where
  maxAttempts : Int
  retryAllowed : Bool

namespace LossRetryPolicy

def fromColumns (maxAttempts retryOnNodeLoss : Int) : LossRetryPolicy :=
  ⟨maxAttempts, retryOnNodeLoss != 0⟩

def terminal : LossRetryPolicy := ⟨1, false⟩

def ofTask (t : Task) : LossRetryPolicy := fromColumns t.maxAttempts t.retryOnNodeLoss

end LossRetryPolicy

/-- The task goes back to the queue and avoids the node that lost it. -/
def requeueTask (nodeId : String) (t : Task) : Task :=
  { t with status := .queued, finishedAt := none, errorCode := none,
           assignedAttemptId := none, avoidNodeId := some nodeId }

def retryAudit (taskId attemptId nodeId now reason : String) : AuditEvent where
  actorType := "system"
  actorId := none
  action := "task.retry.auto"
  subject := some taskId
  payload := [("attempt_id", attemptId), ("node_id", nodeId), ("reason", reason)]
  createdAt := now

def requeueLostAttempt (db : Database) (taskId attemptId nodeId now reason : String)
    (policy : LossRetryPolicy) : Database × Bool :=
  if policy.retryAllowed = false then (db, false)
  else if policy.maxAttempts ≤ db.attemptCount taskId then (db, false)
  else
    let open' := fun t : Task => t.id == taskId && !t.status.isTerminal
    let affected := db.tasks.countP open'
    let db := db.updateTasks open' (requeueTask nodeId)
    if affected ≠ 1 then (db, false)
    else (db.audit (retryAudit taskId attemptId nodeId now reason), true)

def Attempt.lose (now : String) (a : Attempt) : Attempt :=
  { a with status := .lost, finishedAt := some now }

def failLostTask (now : String) (t : Task) : Task :=
  { t with status := .failed, errorCode := some "node_lost", finishedAt := some now,
           assignedAttemptId := none }

/-- One round of the loop of `lose_node_attempts`, its row joined with the
two retry columns of the owning task. -/
def loseAttempt (nodeId now : String) (db : Database)
    (row : Attempt × LossRetryPolicy) : Database :=
  let a := row.1
  let db := db.updateAttempts (fun r => r.id == a.id) (Attempt.lose now)
  let (db, requeued) :=
    requeueLostAttempt db a.taskId a.id nodeId now "node_lost" row.2
  if requeued then db
  else
    db.updateTasks (fun t => t.id == a.taskId && !t.status.isTerminal)
      (failLostTask now)

def inFlightRows (db : Database) (nodeId : String) : List (Attempt × LossRetryPolicy) :=
  (db.attempts.filter fun a => a.nodeId == nodeId && a.status.inFlight).filterMap
    fun a => (db.task a.taskId).map fun t => (a, LossRetryPolicy.ofTask t)

def loseNodeAttempts (db : Database) (nodeId now : String) : Database :=
  let rows := inFlightRows db nodeId
  if rows.isEmpty then db
  else (rows.foldl (loseAttempt nodeId now) db).freeSlots nodeId rows.length

end AgentGrid.Store
