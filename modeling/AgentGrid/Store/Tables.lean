import AgentGrid.Foundation.Table
import AgentGrid.Store.Status
import Mathlib.Algebra.Ring.Nat
import Mathlib.Algebra.Ring.Int.Defs

/-!
# The control plane's tables

The rows that assignment, the attempt lifecycle and node loss read and write.
Timestamps are RFC 3339 texts, compared as the database compares them, and
the JSON columns hold the value they parse to.
-/

namespace AgentGrid.Store

open AgentGrid.Foundation

structure Task where
  id : String
  repository : String
  prompt : String
  adapter : String
  requestedNodeId : Option String := none
  status : TaskStatus := .queued
  createdAt : String
  startedAt : Option String := none
  finishedAt : Option String := none
  assignedAttemptId : Option String := none
  timeoutSecs : Int := 3600
  validationCommand : Option String := none
  baseCommit : Option String := none
  parentAcpSessionId : Option String := none
  networkMode : Option String := none
  securityProfile : Option String := none
  groupId : Option String := none
  consensusGroupId : Option String := none
  consensusMember : Option String := none
  opencodeOverride : Option String := none
  githubPush : Bool := false
  githubRepo : Option String := none
  githubIssue : Option Int := none
  githubBaseRef : Option String := none
  githubCreate : Bool := false
  maxTokens : Option Int := none
  maxCostCents : Option Int := none
  errorCode : Option String := none
  maxAttempts : Int := 1
  retryOnNodeLoss : Int := 1
  avoidNodeId : Option String := none
deriving DecidableEq, Repr

structure Attempt where
  id : String
  taskId : String
  number : Int
  nodeId : String
  status : AttemptStatus
  leaseExpiresAt : Option String := none
  ackDeadline : Option String := none
  startedAt : String
  finishedAt : Option String := none
  fencingToken : String := ""
  cancelRequested : Bool := false
  exitCode : Option Int := none
  errorCode : Option String := none
  commitSha : Option String := none
  acpSessionId : Option String := none
  resolvedBaseSha : Option String := none
  remoteHeadAtStart : Option String := none
  remoteHeadAtFinish : Option String := none
  provenance : Option String := none
  plan : Option String := none
  pendingArtifacts : List String := []
  validatedAt : Option String := none
  validationRounds : Nat := 0
deriving DecidableEq, Repr

structure Node where
  id : String
  name : String
  status : NodeStatus
  agentVersion : Option String := none
  maxConcurrency : UInt32 := 1
  adapters : List String := []
  repositories : List String := []
  activeAttempts : Nat := 0
  lastHeartbeatAt : Option String := none
  createdAt : String
  credentialHash : Option String := none
  revokedAt : Option String := none
  cpuCount : Int := 0
  freeDiskMb : Int := 0
  freeMemoryMb : Int := 0
  memAvailableMb : Int := 0
  permissionInterception : String := ""
  networkMode : String := "none"
  activeRssMib : Int := 0
  maxRssMib : Int := 1024
  drained : Bool := false
deriving DecidableEq, Repr

structure RepoRequirements where
  memoryMb : Option Nat := none
  diskMb : Option Nat := none
deriving DecidableEq, Repr

structure Repository where
  name : String
  gitUrl : String
  defaultBranch : String
  validationCommand : Option String := none
  requirements : Option RepoRequirements := none
deriving DecidableEq, Repr

/-- A row of `role_runs` joined with the role of its workflow step. -/
structure RoleRun where
  taskId : String
  role : String
deriving DecidableEq, Repr

structure Artifact where
  attemptId : String
  name : String
deriving DecidableEq, Repr

inductive EventType
  | status | stdout | stderr | tool | artifact | metric | result | error
deriving DecidableEq, Repr

structure TaskEvent where
  attemptId : String
  sequence : Int
  type : EventType
  payload : String
  createdAt : String
  ingestId : Int
deriving DecidableEq, Repr

structure Approval where
  id : String
  taskId : String
  attemptId : String
  permission : List (String × String)
  status : String
  createdAt : String
  expiresAt : String
  scope : String
deriving DecidableEq, Repr

structure AgentSession where
  id : String
  attemptId : String
  endedAt : Option String := none
  status : String
  errorCode : Option String := none
deriving DecidableEq, Repr

structure AuditEvent where
  actorType : String
  actorId : Option String
  action : String
  subject : Option String
  payload : List (String × String) := []
  createdAt : String
deriving DecidableEq, Repr

structure CapacityPressure where
  nodeId : String
  thresholdMib : Int
  activeMib : Int
  forecastMib : Int
deriving DecidableEq, Repr

structure Database where
  tasks : List Task := []
  attempts : List Attempt := []
  nodes : List Node := []
  repositories : List Repository := []
  roleRuns : List RoleRun := []
  artifacts : List Artifact := []
  taskEvents : List TaskEvent := []
  eventIngestCounter : Int := 0
  approvals : List Approval := []
  agentSessions : List AgentSession := []
  auditEvents : List AuditEvent := []
  capacityPressure : List CapacityPressure := []
deriving DecidableEq, Repr

inductive StoreError
  | transition (cause : InvalidTransition)
  | rowNotFound
  | constraint
deriving DecidableEq, Repr

namespace Database

def task (db : Database) (id : String) : Option Task := lookup Task.id id db.tasks

def attempt (db : Database) (id : String) : Option Attempt :=
  lookup Attempt.id id db.attempts

def node (db : Database) (id : String) : Option Node := lookup Node.id id db.nodes

def updateTasks (db : Database) (p : Task → Bool) (f : Task → Task) : Database :=
  { db with tasks := updateWhere p f db.tasks }

def updateAttempts (db : Database) (p : Attempt → Bool) (f : Attempt → Attempt) :
    Database :=
  { db with attempts := updateWhere p f db.attempts }

def updateNodes (db : Database) (p : Node → Bool) (f : Node → Node) : Database :=
  { db with nodes := updateWhere p f db.nodes }

def audit (db : Database) (event : AuditEvent) : Database :=
  { db with auditEvents := db.auditEvents ++ [event] }

/-- `SELECT COUNT(*) FROM attempts WHERE task_id = ?`. -/
def attemptCount (db : Database) (taskId : String) : Nat :=
  db.attempts.countP fun a => a.taskId == taskId

/-- `UPDATE nodes SET active_attempts = MAX(0, active_attempts - ?)`. -/
def freeSlots (db : Database) (nodeId : String) (count : Nat) : Database :=
  db.updateNodes (fun n => n.id == nodeId)
    fun n => { n with activeAttempts := n.activeAttempts - count }

end Database

end AgentGrid.Store
