import AgentGrid.Foundation.Inserts
import AgentGrid.Foundation.Table
import AgentGrid.Store.Status
import Mathlib.Data.List.Sort

/-!
# Inserting a task

Both insert statements with their column lists and bound values, the two views
they return, and the view that `show_task` builds from the row.  The override's
`serde` and the profile named by an attempt's provenance are parameters.
-/

namespace AgentGrid.Store.TaskRows

open AgentGrid.Foundation

/-! ## Values -/

inductive SqlValue
  | null
  | int (n : Int64)
  | text (s : String)
deriving DecidableEq

namespace SqlValue

def ofText : Option String → SqlValue
  | none => .null
  | some s => .text s

def ofInt : Option Int64 → SqlValue
  | none => .null
  | some n => .int n

def ofBool (b : Bool) : SqlValue := .int (if b then 1 else 0)

def asText : SqlValue → Option String
  | .text s => some s
  | .null | .int _ => none

def asInt : SqlValue → Option Int64
  | .int n => some n
  | .null | .text _ => none

/-- `try_get::<bool, _>(..).unwrap_or_default()`. -/
def asBool : SqlValue → Bool
  | .int n => n != 0
  | .null | .text _ => false

@[simp] theorem asText_ofText (o : Option String) : (ofText o).asText = o := by
  cases o <;> rfl

@[simp] theorem asInt_ofInt (o : Option Int64) : (ofInt o).asInt = o := by
  cases o <;> rfl

@[simp] theorem asBool_ofBool (b : Bool) : (ofBool b).asBool = b := by
  cases b <;> rfl

end SqlValue

/-- `v.max(0) as u64`, of a `u64` stored with `as i64`. -/
def readCeiling (n : Int64) : UInt64 := if n < 0 then 0 else n.toUInt64

/-! ## Requests, rows and views -/

structure Request (Override : Type) where
  prompt : String
  repository : String
  adapter : String
  requestedNodeId : Option String := none
  timeoutSecs : Option UInt64 := none
  validationCommand : Option String := none
  baseCommit : Option String := none
  parentAcpSessionId : Option String := none
  consensusGroupId : Option String := none
  consensusMember : Option String := none
  consensusMode : Option String := none
  reviewOf : Option String := none
  maxTokens : Option UInt64 := none
  maxCostCents : Option UInt64 := none
  networkMode : Option String := none
  securityProfile : Option String := none
  groupId : Option String := none
  agentId : Option String := none
  opencodeOverride : Option Override := none
  githubPush : Bool := false
  githubRepo : Option String := none
  githubIssue : Option Int64 := none
  githubBaseRef : Option String := none
  githubCreate : Bool := false
  maxAttempts : UInt32 := 1
  retryOnNodeLoss : Option Bool := none

structure Codec (Override : Type) where
  /-- `serde_json::to_string(o).unwrap_or_default()`. -/
  toText : Override → String
  ofText : String → Option Override
  /-- The `security_profile` of a provenance record. -/
  profileOf : String → Option String

inductive Column
  | id | repository | prompt | adapter | requestedNodeId | status | createdAt | startedAt
  | finishedAt | assignedAttemptId | timeoutSecs | validationCommand | errorCode | baseCommit
  | parentAcpSessionId | securityProfile | networkMode | groupId | agentId | consensusGroupId
  | consensusMember | opencodeOverride | githubPush | githubRepo | githubIssue | githubBaseRef
  | reworkOf | maxAttempts | consensusMode | reviewOf | githubCreate | maxTokens | maxCostCents
  | retryOnNodeLoss | avoidNodeId
deriving DecidableEq

abbrev Row : Type := Column → SqlValue

/-- The defaults of the migrations. -/
def columnDefault : Row
  | .timeoutSecs => .int 3600
  | .githubPush => .int 0
  | .maxAttempts => .int 1
  | .consensusMode => .text "solve"
  | .githubCreate => .int 0
  | .retryOnNodeLoss => .int 1
  | _ => .null

structure TaskView (Override : Type) where
  id : String
  repository : String
  prompt : String
  adapter : String
  status : TaskStatus
  createdAt : String
  finishedAt : Option String
  assignedAttemptId : Option String
  validationCommand : Option String
  errorCode : Option String
  requestedNodeId : Option String
  baseCommit : Option String
  parentAcpSessionId : Option String
  networkMode : Option String
  securityProfile : Option String
  groupId : Option String
  agentId : Option String
  consensusGroupId : Option String
  consensusMember : Option String
  consensusMode : Option String
  reviewOf : Option String
  opencodeOverride : Option Override
  githubRepo : Option String
  githubIssue : Option Int64
  githubBaseRef : Option String
  githubCreate : Bool
  reworkOf : Option String
  maxAttempts : UInt32
  maxTokens : Option UInt64
  maxCostCents : Option UInt64
deriving DecidableEq

variable {Override : Type} (codec : Codec Override)

/-! ## `create_task` -/

def createTaskColumns : List Column :=
  [.id, .repository, .prompt, .adapter, .requestedNodeId, .baseCommit, .parentAcpSessionId,
    .networkMode, .status, .createdAt, .timeoutSecs, .validationCommand, .securityProfile,
    .groupId, .agentId, .consensusGroupId, .consensusMember, .opencodeOverride, .githubPush,
    .githubRepo, .githubIssue, .githubBaseRef, .githubCreate, .maxAttempts, .consensusMode,
    .reviewOf, .maxTokens, .maxCostCents, .retryOnNodeLoss]

def createTaskValues (req : Request Override) (id now : String) : List SqlValue :=
  let timeoutSecs := (req.timeoutSecs.getD 3600).toInt64
  [.text id, .text req.repository, .text req.prompt, .text req.adapter,
    .ofText req.requestedNodeId, .ofText req.baseCommit, .ofText req.parentAcpSessionId,
    .ofText req.networkMode, .text "queued", .text now, .int timeoutSecs,
    .ofText req.validationCommand, .ofText req.securityProfile, .ofText req.groupId,
    .ofText req.agentId, .ofText req.consensusGroupId, .ofText req.consensusMember,
    .ofText (req.opencodeOverride.map codec.toText), .ofBool req.githubPush,
    .ofText req.githubRepo, .ofInt req.githubIssue, .ofText req.githubBaseRef,
    .ofBool req.githubCreate, .int (Int64.ofNat req.maxAttempts.toNat),
    .text (req.consensusMode.getD "solve"), .ofText req.reviewOf,
    .ofInt (req.maxTokens.map UInt64.toInt64), .ofInt (req.maxCostCents.map UInt64.toInt64),
    .ofBool (req.retryOnNodeLoss.getD true)]

def createTaskRow (req : Request Override) (id now : String) : Row :=
  inserted columnDefault (createTaskColumns.zip (createTaskValues codec req id now))

def createTaskView (req : Request Override) (id now : String) : TaskView Override where
  id := id
  repository := req.repository
  prompt := req.prompt
  adapter := req.adapter
  status := .queued
  createdAt := now
  finishedAt := none
  assignedAttemptId := none
  validationCommand := req.validationCommand
  errorCode := none
  requestedNodeId := req.requestedNodeId
  baseCommit := req.baseCommit
  parentAcpSessionId := req.parentAcpSessionId
  networkMode := req.networkMode
  securityProfile := req.securityProfile
  groupId := req.groupId
  agentId := req.agentId
  consensusGroupId := req.consensusGroupId
  consensusMember := req.consensusMember
  opencodeOverride := req.opencodeOverride
  githubRepo := req.githubRepo
  githubIssue := req.githubIssue
  githubBaseRef := req.githubBaseRef
  githubCreate := req.githubCreate
  reworkOf := none
  maxAttempts := req.maxAttempts
  consensusMode := req.consensusMode
  reviewOf := req.reviewOf
  maxTokens := req.maxTokens
  maxCostCents := req.maxCostCents

/-! ## `insert_task_tx` -/

def insertTaskTxColumns : List Column :=
  [.id, .repository, .prompt, .adapter, .requestedNodeId, .baseCommit, .parentAcpSessionId,
    .networkMode, .status, .createdAt, .timeoutSecs, .validationCommand, .securityProfile,
    .groupId, .agentId, .consensusGroupId, .consensusMember, .opencodeOverride, .githubPush,
    .githubRepo, .githubIssue, .githubBaseRef, .maxAttempts, .consensusMode, .reviewOf,
    .maxTokens, .maxCostCents, .retryOnNodeLoss]

def insertTaskTxValues (req : Request Override) (id now : String) : List SqlValue :=
  let timeoutSecs := (req.timeoutSecs.getD 3600).toInt64
  [.text id, .text req.repository, .text req.prompt, .text req.adapter,
    .ofText req.requestedNodeId, .ofText req.baseCommit, .ofText req.parentAcpSessionId,
    .ofText req.networkMode, .text "queued", .text now, .int timeoutSecs,
    .ofText req.validationCommand, .ofText req.securityProfile, .ofText req.groupId,
    .ofText req.agentId, .ofText req.consensusGroupId, .ofText req.consensusMember,
    .ofText (req.opencodeOverride.map codec.toText), .ofBool req.githubPush,
    .ofText req.githubRepo, .ofInt req.githubIssue, .ofText req.githubBaseRef,
    .int (Int64.ofNat req.maxAttempts.toNat), .text (req.consensusMode.getD "solve"),
    .ofText req.reviewOf, .ofInt (req.maxTokens.map UInt64.toInt64),
    .ofInt (req.maxCostCents.map UInt64.toInt64), .ofBool (req.retryOnNodeLoss.getD true)]

def insertTaskTxRow (req : Request Override) (id now : String) : Row :=
  inserted columnDefault (insertTaskTxColumns.zip (insertTaskTxValues codec req id now))

def insertTaskTxView (req : Request Override) (id now : String) : TaskView Override where
  id := id
  repository := req.repository
  prompt := req.prompt
  adapter := req.adapter
  status := .queued
  createdAt := now
  finishedAt := none
  assignedAttemptId := none
  validationCommand := req.validationCommand
  errorCode := none
  requestedNodeId := req.requestedNodeId
  baseCommit := req.baseCommit
  parentAcpSessionId := req.parentAcpSessionId
  networkMode := req.networkMode
  securityProfile := req.securityProfile
  groupId := req.groupId
  agentId := req.agentId
  consensusGroupId := none
  consensusMember := none
  opencodeOverride := req.opencodeOverride
  githubRepo := req.githubRepo
  githubIssue := req.githubIssue
  githubBaseRef := req.githubBaseRef
  githubCreate := req.githubCreate
  reworkOf := none
  maxAttempts := req.maxAttempts
  consensusMode := req.consensusMode
  reviewOf := req.reviewOf
  maxTokens := req.maxTokens
  maxCostCents := req.maxCostCents

/-! ## `show_task` -/

/-- `from_snake`. -/
def statusOf (s : String) : Option TaskStatus :=
  [TaskStatus.queued, .assigned, .running, .validating, .succeeded, .failed, .cancelled].find?
    fun status => statusStr status == s

def rowToTaskView (r : Row) (attemptProvenance : Option String) : TaskView Override where
  id := (r .id).asText.getD ""
  repository := (r .repository).asText.getD ""
  prompt := (r .prompt).asText.getD ""
  adapter := (r .adapter).asText.getD ""
  status := (statusOf ((r .status).asText.getD "")).getD .queued
  createdAt := (r .createdAt).asText.getD ""
  finishedAt := (r .finishedAt).asText
  assignedAttemptId := (r .assignedAttemptId).asText
  validationCommand := (r .validationCommand).asText
  errorCode := (r .errorCode).asText
  requestedNodeId := (r .requestedNodeId).asText
  baseCommit := (r .baseCommit).asText
  parentAcpSessionId := (r .parentAcpSessionId).asText
  networkMode := (r .networkMode).asText
  securityProfile := (attemptProvenance.bind codec.profileOf).or (r .securityProfile).asText
  groupId := (r .groupId).asText
  agentId := (r .agentId).asText
  consensusGroupId := (r .consensusGroupId).asText
  consensusMember := (r .consensusMember).asText
  opencodeOverride := (r .opencodeOverride).asText.bind codec.ofText
  githubRepo := (r .githubRepo).asText
  githubIssue := (r .githubIssue).asInt
  githubBaseRef := (r .githubBaseRef).asText
  githubCreate := (r .githubCreate).asBool
  maxTokens := (r .maxTokens).asInt.map readCeiling
  maxCostCents := (r .maxCostCents).asInt.map readCeiling
  reworkOf := (r .reworkOf).asText
  maxAttempts := ((r .maxAttempts).asInt.getD 1).toUInt64.toUInt32
  consensusMode := (r .consensusMode).asText.filter (· != "solve")
  reviewOf := (r .reviewOf).asText

structure AttemptRow where
  taskId : String
  number : Int
  provenance : Option String

structure TaskDb where
  tasks : List Row := []
  attempts : List AttemptRow := []

namespace TaskDb

def insert (db : TaskDb) (r : Row) : TaskDb := { db with tasks := db.tasks ++ [r] }

/-- `SELECT provenance .. ORDER BY number DESC LIMIT 1`. -/
def latestProvenance (db : TaskDb) (taskId : String) : Option String :=
  (((db.attempts.filter (·.taskId == taskId)).insertionSort (·.number ≥ ·.number)).head?).bind
    AttemptRow.provenance

def showTask (db : TaskDb) (id : String) : Option (TaskView Override) :=
  (lookup (· .id) (.text id) db.tasks).map fun r =>
    rowToTaskView codec r (db.latestProvenance id)

/-- Nothing in the tables has the id, as nothing has a new UUID. -/
structure Fresh (db : TaskDb) (id : String) : Prop where
  tasks : ∀ r ∈ db.tasks, r .id ≠ .text id
  attempts : ∀ a ∈ db.attempts, a.taskId ≠ id

end TaskDb

end AgentGrid.Store.TaskRows
