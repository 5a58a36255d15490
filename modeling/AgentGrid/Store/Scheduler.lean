import Mathlib.Data.List.Sort
import AgentGrid.Store.Loss

/-!
# Assignment

`tryAssignBatch` fills the free slots of a node with queued tasks in one
write transaction: host gates, batch cap, eligibility, then one compare and
set of the task row and one inserted attempt for each candidate.  Fresh ids
are inputs; a clash with an existing row fails the insertion, and with it the
transaction.
-/

namespace AgentGrid.Store

open AgentGrid.Foundation

def asU32 (x : Nat) : Nat := x % 2 ^ 32

def asU64 (x : Int) : Nat := (x % 2 ^ 64).toNat

/-- The columns of a node that assignment looks at, cast as the row is read. -/
structure NodeView where
  id : String
  status : NodeStatus
  adapters : List String
  repositories : List String
  maxConcurrency : Nat
  activeAttempts : Nat
  cpuCount : Nat
  freeDiskMb : Nat
  freeMemoryMb : Nat
  memAvailableMb : Nat
  permissionInterception : String
  networkMode : String

/-- The assignment query does not select `network_mode`, so the view of a node
taken there always carries the default. -/
def rowToNodeView (n : Node) (selectsNetworkMode : Bool) : NodeView where
  id := n.id
  status := n.status
  adapters := n.adapters
  repositories := n.repositories
  maxConcurrency := n.maxConcurrency.toNat
  activeAttempts := asU32 n.activeAttempts
  cpuCount := (n.cpuCount % 2 ^ 32).toNat
  freeDiskMb := asU64 n.freeDiskMb
  freeMemoryMb := asU64 n.freeMemoryMb
  memAvailableMb := asU64 n.memAvailableMb
  permissionInterception := n.permissionInterception
  networkMode := if selectsNetworkMode then n.networkMode else "none"

/-- The process environment of the scheduler.  The load gate compares
floating-point load averages; it is given by its verdicts. -/
structure SchedulerEnv where
  diskCriticalMb : Nat := 512
  freeBytes : Nat
  capacityPressure : Bool := true
  minFreeMemMb : Int := 1024
  minFreeDiskMb : Int := 2048
  highLoad : Node → Bool := fun _ => false
  loadReason : NodeView → Option String := fun _ => none

/-- The eligibility report parses the two thresholds as unsigned numbers and
falls back to the default where the gate accepts a negative one. -/
def SchedulerEnv.reportMinMem (env : SchedulerEnv) : Nat :=
  if env.minFreeMemMb < 0 then 1024 else env.minFreeMemMb.toNat

def SchedulerEnv.reportMinDisk (env : SchedulerEnv) : Nat :=
  if env.minFreeDiskMb < 0 then 2048 else env.minFreeDiskMb.toNat

def networkModeRank : String → Nat
  | "none" => 0
  | "restricted" => 1
  | "unrestricted" => 2
  | _ => 0

def hostMemory (v : NodeView) : Nat :=
  if v.freeMemoryMb > 0 then v.freeMemoryMb else v.memAvailableMb

def nodeIneligibility (env : SchedulerEnv) (v : NodeView) (repository adapter : String)
    (securityProfile taskNetworkMode : Option String)
    (requirements : Option RepoRequirements) : List String :=
  let floor := requirements.getD {}
  let mode := taskNetworkMode.getD "none"
  let mem := hostMemory v
  (if v.status ≠ .online then
    [s!"node {v.id} is {nodeStatusStr v.status}"] else []) ++
  (if !v.adapters.any (· == adapter) then [s!"missing adapter {adapter}"] else []) ++
  (if !v.repositories.any (fun r => r == "*" || r == repository) then
    [s!"missing repository {repository}"] else []) ++
  (if mem > 0 ∧ mem < env.reportMinMem then
    [s!"low host memory ({mem} MiB free < {env.reportMinMem} MiB)"] else []) ++
  (if v.freeDiskMb > 0 ∧ v.freeDiskMb < env.reportMinDisk then
    [s!"low disk on workspace root ({v.freeDiskMb} MiB free < {env.reportMinDisk} MiB)"] else []) ++
  (match floor.memoryMb with
    | some min => if mem > 0 ∧ mem < min then
        [s!"repository requires {min} MiB host memory ({mem} MiB free)"] else []
    | none => []) ++
  (match floor.diskMb with
    | some min => if v.freeDiskMb > 0 ∧ v.freeDiskMb < min then
        [s!"repository requires {min} MiB free disk ({v.freeDiskMb} MiB free)"] else []
    | none => []) ++
  (env.loadReason v).toList ++
  (if v.activeAttempts ≥ v.maxConcurrency then
    [s!"at capacity ({v.activeAttempts} >= {v.maxConcurrency})"] else []) ++
  (if securityProfile.any (·.endsWith "-strict") &&
      v.permissionInterception == "wrapper" then
    ["requires structured permission interception"] else []) ++
  (if networkModeRank mode > networkModeRank v.networkMode then
    ["task network_mode '" ++ mode ++ "' exceeds node max '" ++ v.networkMode ++ "'"]
    else [])

structure Assignment where
  attemptId : String
  fencingToken : String
  taskId : String
  repository : String
  prompt : String
  adapter : String
  number : Nat
  timeoutSecs : Nat
  gitUrl : String
  defaultBranch : String
  validationCommand : Option String
  baseCommit : Option String
  parentAcpSessionId : Option String
  networkMode : Option String
  groupId : Option String
  readOnly : Bool
  evalCases : List String
  consensusGroupId : Option String
  consensusMember : Option String
  opencodeOverride : Option String
  githubPush : Bool
  githubRepo : Option String
  githubIssue : Option Int
  githubBaseRef : Option String
  githubCreate : Bool
  maxTokens : Option Nat
  maxCostCents : Option Nat
  workflowRole : Option String

/-- What one call of `try_assign_batch` draws from its surroundings. -/
structure AssignInput where
  limit : Nat
  now : String
  leaseExpiresAt : String
  ackDeadline : String
  attemptId : Nat → String
  fencingToken : Nat → String

def taskRole (db : Database) (taskId : String) : Option String :=
  (db.roleRuns.reverse.find? fun r => r.taskId == taskId).map RoleRun.role

/-- The eval-case artifacts of a task's earlier attempts, by name. -/
def evalCases (db : Database) (taskId : String) : List String :=
  if db.attemptCount taskId = 0 then []
  else
    ((db.artifacts.filter fun f =>
      f.name.toLower.startsWith "eval-case-" &&
        db.attempts.any fun a => a.id == f.attemptId && a.taskId == taskId).map
      Artifact.name).insertionSort (· ≤ ·)

def finishAssignment (db : Database) (t : Task) (attemptId fencingToken : String)
    (number : Int) : Assignment :=
  let repo := lookup Repository.name t.repository db.repositories
  let role := taskRole db t.id
  { attemptId := attemptId
    fencingToken := fencingToken
    taskId := t.id
    repository := t.repository
    prompt := t.prompt
    adapter := t.adapter
    number := (number % 2 ^ 32).toNat
    timeoutSecs := asU64 t.timeoutSecs
    gitUrl := (repo.map Repository.gitUrl).getD ""
    defaultBranch := (repo.map Repository.defaultBranch).getD ""
    validationCommand := t.validationCommand.or (repo.bind Repository.validationCommand)
    baseCommit := t.baseCommit
    parentAcpSessionId := t.parentAcpSessionId
    networkMode := t.networkMode
    groupId := t.groupId
    readOnly := role == some "verifier"
    evalCases := evalCases db t.id
    consensusGroupId := t.consensusGroupId
    consensusMember := t.consensusMember
    opencodeOverride := t.opencodeOverride
    githubPush := t.githubPush
    githubRepo := t.githubRepo
    githubIssue := t.githubIssue
    githubBaseRef := t.githubBaseRef
    githubCreate := t.githubCreate
    maxTokens := t.maxTokens.map Int.toNat
    maxCostCents := t.maxCostCents.map Int.toNat
    workflowRole := role }

/-- The queued tasks a node may be given, oldest first. -/
def candidates (db : Database) (nodeId : String) : List Task :=
  let otherOnline := db.nodes.countP fun n =>
    n.id != nodeId && n.status == .online && !n.drained
  let avoidExempt := otherOnline == 0
  (db.tasks.filter fun t =>
    t.status == .queued &&
      (t.requestedNodeId.isNone || t.requestedNodeId == some nodeId) &&
      (t.avoidNodeId.isNone || t.avoidNodeId != some nodeId || avoidExempt)).insertionSort
    fun t t' => t.createdAt ≤ t'.createdAt

def taskEligible (env : SchedulerEnv) (db : Database) (v : NodeView) (t : Task) : Bool :=
  (nodeIneligibility env v t.repository t.adapter t.securityProfile t.networkMode
    ((lookup Repository.name t.repository db.repositories).bind
      Repository.requirements)).isEmpty

def capacityForecast (n : Node) (v : NodeView) (limit : Nat) : Int :=
  n.activeRssMib + (min (v.maxConcurrency - v.activeAttempts) (asU32 limit) : Nat) * 256

def lowHostMemory (env : SchedulerEnv) (n : Node) : Bool :=
  let mem := if n.freeMemoryMb > 0 then n.freeMemoryMb else n.memAvailableMb
  decide (0 < mem ∧ mem < env.minFreeMemMb)

def lowDisk (env : SchedulerEnv) (n : Node) : Bool :=
  decide (0 < n.freeDiskMb ∧ n.freeDiskMb < env.minFreeDiskMb)

/-- The compare and set of one candidate and the insertion of its attempt.
`none` is a violated key of `attempts`. -/
def assignTask (before : Database) (nodeId : String) (input : AssignInput)
    (index : Nat) (db : Database) (t : Task) : Option (Database × Option Assignment) :=
  let attemptId := input.attemptId index
  let number : Int := before.attemptCount t.id + 1
  let hit := fun row : Task => row.id == t.id && row.status == .queued
  let affected := db.tasks.countP hit
  let db := db.updateTasks hit fun row =>
    { row with status := .assigned, assignedAttemptId := some attemptId,
               avoidNodeId := none }
  if affected ≠ 1 then some (db, none)
  else if db.attempts.any fun a =>
      a.id == attemptId || (a.taskId == t.id && a.number == number) then none
  else
    some ({ db with
      attempts := db.attempts ++
        [{ id := attemptId, taskId := t.id, number := number, nodeId := nodeId,
           status := .assigned, leaseExpiresAt := some input.leaseExpiresAt,
           ackDeadline := some input.ackDeadline, startedAt := input.now,
           fencingToken := input.fencingToken index }] },
      some (finishAssignment before t attemptId (input.fencingToken index) number))

def assignTasks (before : Database) (nodeId : String) (input : AssignInput) :
    Nat → Database → List Task → Option (Database × List Assignment)
  | _, db, [] => some (db, [])
  | index, db, t :: rest =>
      match assignTask before nodeId input index db t with
      | none => none
      | some (db, assignment) =>
          match assignTasks before nodeId input (index + 1) db rest with
          | none => none
          | some (db, batch) => some (db, assignment.toList ++ batch)

/-- `UPDATE nodes SET active_attempts = active_attempts + ?`. -/
def Database.takeSlots (db : Database) (nodeId : String) (count : Nat) : Database :=
  db.updateNodes (fun n => n.id == nodeId)
    fun n => { n with activeAttempts := n.activeAttempts + count }

/-- The flip loop and the slot count, once the batch is chosen. -/
def assignBatch (db : Database) (nodeId : String) (input : AssignInput)
    (eligible : List Task) : Database × Except StoreError (List Assignment) :=
  match assignTasks db nodeId input 0 db eligible with
  | none => (db, .error .constraint)
  | some (next, batch) =>
      if batch.isEmpty then (db, .ok [])
      else (next.takeSlots nodeId batch.length, .ok batch)

/-- `drained` is what the read before the transaction saw. -/
def tryAssignBatch (env : SchedulerEnv) (db : Database) (nodeId : String)
    (drained : Bool) (input : AssignInput) :
    Database × Except StoreError (List Assignment) :=
  if 0 < env.diskCriticalMb ∧ env.freeBytes / (1024 * 1024) < env.diskCriticalMb then
    (db, .ok [])
  else if drained then (db, .ok [])
  else if input.limit = 0 then (db, .ok [])
  else
    match db.node nodeId with
    | none => (db, .ok [])
    | some n =>
        let v := rowToNodeView n false
        let forecast := capacityForecast n v input.limit
        if env.capacityPressure ∧ n.maxRssMib < forecast then
          ({ db with
            capacityPressure := db.capacityPressure ++
              [⟨nodeId, n.maxRssMib, n.activeRssMib, forecast⟩] }, .ok [])
        else if lowHostMemory env n then (db, .ok [])
        else if lowDisk env n then (db, .ok [])
        else if env.highLoad n then (db, .ok [])
        else
          let cap := min input.limit (v.maxConcurrency - v.activeAttempts)
          let eligible := ((candidates db nodeId).filter (taskEligible env db v)).take cap
          if cap = 0 ∨ eligible = [] then (db, .ok [])
          else assignBatch db nodeId input eligible

end AgentGrid.Store
