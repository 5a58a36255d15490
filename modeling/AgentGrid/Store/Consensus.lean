import AgentGrid.Foundation.Table
import AgentGrid.Foundation.Transition
import AgentGrid.Foundation.Wildcards
import AgentGrid.Node.CommandGuard
import AgentGrid.Node.Payload
import AgentGrid.Store.Status
import Mathlib.Data.List.Sort

/-!
# Consensus collapse

After each delivery of a success the tasks of the consensus group are looked at,
and a group whose members are all terminal is decided: members that solved the
task differently get an approval of disagreement, reviewers get one decision in
the audit log.  A call is cut at its awaits; the count and the insert are one
transaction.
-/

namespace AgentGrid.Store.Consensus

open AgentGrid.Foundation AgentGrid.Node

/-! ## The tables -/

structure MemberTask where
  id : String
  status : TaskStatus := .queued
  consensusGroupId : Option String := none
  consensusMember : Option String := none
  consensusMode : String := "solve"
  reviewOf : Option String := none
deriving DecidableEq

structure Approval where
  id : String
  taskId : String
  attemptId : Option String := none
  sessionId : Option String := none
  permission : List Char
  status : String := "pending"
  createdAt : String
  expiresAt : String
  stepRunId : Option String := none
  scope : String
deriving DecidableEq

structure AuditEvent where
  id : String
  actorType : String
  actorId : Option String
  action : String
  subject : Option String
  payload : Option String
  createdAt : String
deriving DecidableEq

structure ConsensusDb where
  tasks : List MemberTask := []
  approvals : List Approval := []
  auditEvents : List AuditEvent := []
deriving DecidableEq

/-! ## `LIKE` -/

/-- What SQLite's string functions read of a text. -/
def cText (s : List Char) : List Char := s.takeWhile (· != Char.ofNat 0)

def wildcard (c : Char) : Glob Char :=
  if c = '%' then .rest else if c = '_' then .one else .lit c

def sameLetter (c d : Char) : Bool := c.toLower == d.toLower

/-- `SQLITE_MAX_LIKE_PATTERN_LENGTH`. -/
def maxLikePattern : Nat := 50000

/-- `text LIKE pattern`; a pattern that is too long is an error. -/
def like (pattern text : List Char) : Option Bool :=
  if maxLikePattern < utf8Bytes pattern then none
  else some (Glob.accepts sameLetter ((cText pattern).map wildcard) (cText text))

/-! ## The group -/

namespace ConsensusDb

def inGroup (db : ConsensusDb) (group taskId : String) : Bool :=
  db.tasks.any fun t => t.id == taskId && t.consensusGroupId == some group

/-- The members of the group `ORDER BY id`. -/
def groupRows (db : ConsensusDb) (group : String) : List MemberTask :=
  (db.tasks.filter (·.consensusGroupId == some group)).insertionSort (·.id ≤ ·.id)

/-- `'%' || ? || '%'`. -/
def groupPattern (group : String) : List Char := '%' :: (group.toList ++ ['%'])

/-- The count of a group's approvals that speak of the group. -/
def existingDisagreements (db : ConsensusDb) (group : String) : Option Nat :=
  let rows := db.approvals.filter fun a => db.inGroup group a.taskId
  if rows.any fun a => (like (groupPattern group) a.permission).isNone then none
  else some (rows.countP fun a => like (groupPattern group) a.permission == some true)

/-- The count of a group's review decisions. -/
def existingDecisions (db : ConsensusDb) (group : String) : Nat :=
  db.auditEvents.countP fun e => e.actorId == some group &&
    like "review_consensus.%".toList e.action.toList == some true

end ConsensusDb

/-! ## One call of `maybe_collapse_consensus` -/

inductive Verdict
  | reject | approve | unclear | absent
deriving DecidableEq

def Verdict.str : Verdict → String
  | .reject => "reject"
  | .approve => "approve"
  | .unclear => "unclear"
  | .absent => "absent"

/-- The await a call has reached. -/
inductive CollapsePhase
  | called
  | grouped (group : String)
  | weighing (group : String) (rows : List MemberTask)
  | reviewing (group : String) (rows : List MemberTask) (reviewOf : String)
  | disagreed (group : String) (members : List String)
  | decided (group : String) (reviewOf : String) (allApprove : Bool) (summary : String)
  | finished
deriving DecidableEq

structure CollapseCall where
  taskId : String
  phase : CollapsePhase := .called
deriving DecidableEq

/-- What the reads of a call find outside these tables, and its fresh values. -/
structure Found where
  patchSha : String → Option String := fun _ => none
  resultText : String → String := fun _ => ""
  id : String
  now : String
  expires : String

def disagreementPermission (group : String) (members : List String) : List Char :=
  (Json.object [("kind", .string "consensus_disagreement"), ("group", .string group),
    ("members", .array (members.map .string))]).text

def disagreementScope : String := "consensus_disagreement"

def MemberTask.member (t : MemberTask) : String := t.consensusMember.getD ""

/-- The successful members that have a patch, with its hash. -/
def patchShas (rows : List MemberTask) (found : Found) : List (String × String) :=
  (rows.filter (·.status == .succeeded)).filterMap fun t =>
    (found.patchSha t.id).map fun sha => (t.member, sha)

section Verdicts

variable (toUppercase : String → List Char)

def verdict (text : String) : Verdict :=
  let upper := toUppercase text
  if containsText upper "REJECT".toList then .reject
  else if containsText upper "APPROVE".toList then .approve
  else .unclear

def verdicts (rows : List MemberTask) (found : Found) : List (String × Verdict) :=
  rows.map fun t =>
    (t.member,
      if t.status != .succeeded then .absent else verdict toUppercase (found.resultText t.id))

end Verdicts

def verdictSummary (verdicts : List (String × Verdict)) : String :=
  String.intercalate "," (verdicts.map fun v => v.1 ++ "=" ++ v.2.str)

def startCollapse (db : ConsensusDb) (taskId : String) : CollapsePhase :=
  match (lookup MemberTask.id taskId db.tasks).bind MemberTask.consensusGroupId with
  | none => .finished
  | some group => .grouped group

def checkMembers (db : ConsensusDb) (group : String) : CollapsePhase :=
  match db.groupRows group with
  | [] => .finished
  | row :: rows =>
      if (row :: rows).any fun t => !t.status.isTerminal then .finished
      else if row.consensusMode == "review" then
        match (row :: rows).findSome? MemberTask.reviewOf with
        | none => .finished
        | some reviewOf => .reviewing group (row :: rows) reviewOf
      else .weighing group (row :: rows)

def weighPatches (group : String) (rows : List MemberTask) (found : Found) : CollapsePhase :=
  match patchShas rows found with
  | first :: second :: rest =>
      if (first :: second :: rest).any fun p => p.2 != first.2 then
        .disagreed group ((first :: second :: rest).map Prod.fst)
      else .finished
  | _ => .finished

def weighVerdicts (toUppercase : String → List Char) (group : String) (rows : List MemberTask)
    (reviewOf : String) (found : Found) : CollapsePhase :=
  let verdicts := verdicts toUppercase rows found
  if verdicts.isEmpty then .finished
  else .decided group reviewOf (verdicts.all fun v => v.2 == .approve) (verdictSummary verdicts)

def disagreementApproval (taskId group : String) (members : List String) (found : Found) :
    Approval where
  id := found.id
  taskId := taskId
  permission := disagreementPermission group members
  createdAt := found.now
  expiresAt := found.expires
  scope := disagreementScope

def decisionEvent (group reviewOf : String) (allApprove : Bool) (summary : String)
    (found : Found) : AuditEvent where
  id := found.id
  actorType := "consensus_group"
  actorId := some group
  action := if allApprove then "review_consensus.approved" else "review_consensus.disagreement"
  subject := some reviewOf
  payload := some summary
  createdAt := found.now

/-- The transaction of a disagreement. -/
def recordDisagreement (db : ConsensusDb) (taskId group : String) (members : List String)
    (found : Found) : ConsensusDb :=
  if db.existingDisagreements group = some 0 then
    { db with approvals := db.approvals ++ [disagreementApproval taskId group members found] }
  else db

/-- The transaction of `collapse_review_consensus`. -/
def recordDecision (db : ConsensusDb) (group reviewOf : String) (allApprove : Bool)
    (summary : String) (found : Found) : ConsensusDb :=
  if db.existingDecisions group = 0 then
    let row := decisionEvent group reviewOf allApprove summary found
    { db with auditEvents := db.auditEvents ++ [row] }
  else db

def CollapseCall.next (toUppercase : String → List Char) (db : ConsensusDb) (c : CollapseCall)
    (found : Found) : ConsensusDb × CollapsePhase :=
  match c.phase with
  | .called => (db, startCollapse db c.taskId)
  | .grouped group => (db, checkMembers db group)
  | .weighing group rows => (db, weighPatches group rows found)
  | .reviewing group rows reviewOf => (db, weighVerdicts toUppercase group rows reviewOf found)
  | .disagreed group members => (recordDisagreement db c.taskId group members found, .finished)
  | .decided group reviewOf allApprove summary =>
      (recordDecision db group reviewOf allApprove summary found, .finished)
  | .finished => (db, .finished)

/-! ## The system -/

structure ConsensusState where
  db : ConsensusDb := {}
  calls : List CollapseCall := []
deriving DecidableEq

inductive ConsensusEvent
  | createTask (t : MemberTask)
  | moveTask (id : String) (transition : TaskTransition)
  | openApproval (a : Approval)
  | answerApproval (id status : String)
  | audit (e : AuditEvent)
  | completed (taskId : String)
  | advance (i : Nat) (found : Found)
  | lose (i : Nat)

def ConsensusDb.moveTask (db : ConsensusDb) (id : String) (transition : TaskTransition) :
    Option ConsensusDb :=
  match lookup MemberTask.id id db.tasks with
  | none => none
  | some t =>
      match nextTaskStatus t.status transition with
      | .error _ => none
      | .ok status =>
          let tasks := updateWhere (fun t => t.id == id) (fun t => { t with status := status })
            db.tasks
          some { db with tasks := tasks }

def consensusStep (toUppercase : String → List Char) (s : ConsensusState) :
    ConsensusEvent → Option ConsensusState
  | .createTask t =>
      if t.id ∉ s.db.tasks.map MemberTask.id ∧ t.status = .queued then
        some { s with db := { s.db with tasks := s.db.tasks ++ [t] } }
      else none
  | .moveTask id transition =>
      (s.db.moveTask id transition).map fun db => { s with db := db }
  -- the approvals of agents and of patch reviews name their attempt
  | .openApproval a =>
      if a.attemptId.isSome then
        some { s with db := { s.db with approvals := s.db.approvals ++ [a] } }
      else none
  | .answerApproval id status =>
      let approvals := updateWhere (fun a => a.id == id) (fun a => { a with status := status })
        s.db.approvals
      some { s with db := { s.db with approvals := approvals } }
  | .audit e =>
      if e.actorType ≠ "consensus_group" then
        some { s with db := { s.db with auditEvents := s.db.auditEvents ++ [e] } }
      else none
  | .completed taskId => some { s with calls := s.calls ++ [{ taskId := taskId }] }
  | .advance i found =>
      match s.calls[i]? with
      | none => none
      | some c =>
          let (db, phase) := c.next toUppercase s.db found
          some { s with db := db, calls := s.calls.set i { c with phase := phase } }
  | .lose i =>
      some { s with calls := s.calls.modify i fun c => { c with phase := .finished } }

end AgentGrid.Store.Consensus
