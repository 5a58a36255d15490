import AgentGrid.Common.Policy
import AgentGrid.Foundation.Table
import AgentGrid.Foundation.Threads
import AgentGrid.Node.Payload

/-!
# Approvals

The rows of `approvals`, from the permission request of an agent to the answer
of an operator.  A node files an approval and polls it, operators answer it, the
maintenance tick expires what nobody answered; every transaction and every HTTP
exchange is one operation of a program, and between two of them anything may
happen.  Times are the texts that SQLite compares.
-/

namespace AgentGrid.Store.Approvals

open AgentGrid.Foundation
open AgentGrid.Common (AutonomyLevel PolicyDecision PolicyVerdict evaluateWith)
open AgentGrid.Node (Json)

inductive ApprovalStatus
  | pending
  | allowed
  | denied
  | expired
  | cancelled
deriving DecidableEq, Repr

inductive ApprovalEvent
  | allow
  | deny
  | expire
  | cancel
deriving DecidableEq, Repr

structure InvalidApprovalTransition where
  status : ApprovalStatus
  event : ApprovalEvent
deriving DecidableEq, Repr

def nextApproval : ApprovalStatus → ApprovalEvent →
    Except InvalidApprovalTransition ApprovalStatus
  | .pending, .allow => .ok .allowed
  | .pending, .deny => .ok .denied
  | .pending, .expire => .ok .expired
  | .pending, .cancel => .ok .cancelled
  | s, e => .error ⟨s, e⟩

/-- What is bound by the `INSERT`, beside the id and the times. -/
structure NewApproval where
  taskId : String
  attemptId : Option String
  sessionId : Option String
  permission : List Char
  stepRunId : Option String
  scope : String
deriving DecidableEq, Repr

structure AuditNote where
  actor : String
  event : ApprovalEvent
  time : String
deriving DecidableEq, Repr

structure Approval extends NewApproval where
  id : String
  status : ApprovalStatus := .pending
  createdAt : String
  expiresAt : String
  reason : Option String := none
  decidedAt : Option String := none
  audit : Option AuditNote := none
deriving DecidableEq, Repr

/-- One `UPDATE` that changed a row. -/
structure Decision where
  id : String
  next : ApprovalStatus
  decidedAt : String
  reason : Option String
  audit : AuditNote
deriving DecidableEq, Repr

def Approval.decide (a : Approval) (d : Decision) : Approval :=
  { a with
    status := d.next
    decidedAt := some d.decidedAt
    reason := d.reason
    audit := some d.audit }

/-- What a permission request is answered with, as it is pushed to the event
sink when the local policy decides. -/
structure PermissionDecision where
  decision : PolicyDecision
  riskClass : String
  reason : String
deriving DecidableEq, Repr

/-- The decisions, the clock readings of the expiry tick, the steps it blocked and
the local decisions that were pushed are kept beside the table. -/
structure ApprovalDb where
  approvals : List Approval := []
  decisions : List Decision := []
  readings : List String := []
  blocked : List String := []
  pushed : List PermissionDecision := []

inductive ApprovalTx
  | createApproval (request : NewApproval)
  | readStatus (id : String)
  | decide (id : String) (event : ApprovalEvent) (next : ApprovalStatus)
      (reason : Option String) (actor : String)
  | pastDue
  | blockStepAndRun (step : String)
  | getApproval (id : String)
  | push (decision : PermissionDecision)

/-- Every exchange with the control plane may fail. -/
@[reducible] def ApprovalTx.Reply : ApprovalTx → Type
  | .createApproval _ => Option String
  | .readStatus _ => Option (Option ApprovalStatus)
  | .decide _ _ _ _ _ => Option Bool
  | .pastDue => Option (List (String × Option String))
  | .blockStepAndRun _ => Option Unit
  | .getApproval _ => Option (Option Approval)
  | .push _ => Unit

/-- A fresh id, the clock, and whether the operation is carried out and its
answer arrives. -/
structure Input where
  id : String := ""
  now : String := ""
  expires : String := ""
  done : Bool := true
  answered : Bool := true

def Input.answer {α : Type} (input : Input) (value : α) : Option α :=
  if input.done && input.answered then some value else none

namespace ApprovalDb

def approval (db : ApprovalDb) (id : String) : Option Approval :=
  lookup Approval.id id db.approvals

/-- The `INSERT`; `id` is the primary key. -/
def createApproval (db : ApprovalDb) (request : NewApproval) (id now expires : String) :
    ApprovalDb × Option String :=
  match db.approval id with
  | some _ => (db, none)
  | none =>
      ({ db with
         approvals := db.approvals ++
           [{ request with id := id, createdAt := now, expiresAt := expires }] }, some id)

def isPending (id : String) (a : Approval) : Bool := a.id == id && a.status == .pending

/-- The `UPDATE` guarded by `status = 'pending'`, and whether it changed a row. -/
def decide (db : ApprovalDb) (d : Decision) : ApprovalDb × Bool :=
  if db.approvals.any (isPending d.id) then
    ({ db with
       approvals := updateWhere (isPending d.id) (·.decide d) db.approvals
       decisions := db.decisions ++ [d] }, true)
  else (db, false)

def pastDue (db : ApprovalDb) (now : String) : List (String × Option String) :=
  (db.approvals.filter fun a => a.status == .pending && Decidable.decide (a.expiresAt < now)).map
    fun a => (a.id, a.stepRunId)

end ApprovalDb

def exec (input : Input) : (tx : ApprovalTx) → ApprovalDb → ApprovalDb × tx.Reply
  | .createApproval request, db =>
      if input.done then
        let (stored, id) := db.createApproval request input.id input.now input.expires
        (stored, if input.answered then id else none)
      else (db, none)
  | .readStatus id, db => (db, input.answer ((db.approval id).map Approval.status))
  | .decide id event next reason actor, db =>
      if input.done then
        let (stored, changed) := db.decide ⟨id, next, input.now, reason, ⟨actor, event, input.now⟩⟩
        (stored, input.answer changed)
      else (db, none)
  | .pastDue, db =>
      ({ db with readings := db.readings ++ [input.now] }, input.answer (db.pastDue input.now))
  | .blockStepAndRun step, db =>
      if input.done then ({ db with blocked := db.blocked ++ [step] }, input.answer ())
      else (db, none)
  | .getApproval id, db => (db, input.answer (db.approval id))
  | .push decision, db => ({ db with pushed := db.pushed ++ [decision] }, ())

abbrev Program (α : Type) : Type := Prog ApprovalTx ApprovalTx.Reply Empty α

def ask (tx : ApprovalTx) : Program tx.Reply := .call [] tx .ret

/-! ## The control plane -/

/-- `none` is an error of the database. -/
def answerApproval (id : String) (event : ApprovalEvent) (reason : Option String)
    (actor : String) : Program (Option Bool) := do
  match ← ask (.readStatus id) with
  | none => pure none
  | some none => pure (some false)
  | some (some current) =>
      match nextApproval current event with
      | .error _ => pure (some false)
      | .ok next => ask (.decide id event next reason actor)

def blockLinked : Option String → Program Unit
  | some step => do
      let _ ← ask (.blockStepAndRun step)
      pure ()
  | none => pure ()

def expireRows : List (String × Option String) → Nat → Program Nat
  | [], count => pure count
  | (id, stepRunId) :: rest, count => do
      match ← answerApproval id .expire (some "auto-expired") "system" with
      | some true =>
          let _ ← blockLinked stepRunId
          expireRows rest (count + 1)
      | some false => expireRows rest count
      | none => expireRows rest count

def tickApprovalExpiry : Program (Option Nat) := do
  match ← ask .pastDue with
  | none => pure none
  | some rows =>
      let count ← expireRows rows 0
      pure (some count)

/-! ## The node -/

structure PermissionRequest where
  taskId : String
  attemptId : String
  sessionId : String
  permission : Json
  autonomy : AutonomyLevel

def PermissionRequest.filing (r : PermissionRequest) : NewApproval where
  taskId := r.taskId
  attemptId := some r.attemptId
  sessionId := some r.sessionId
  permission := r.permission.text
  stepRunId := none
  scope := "session"

/-- The external provider when one is configured, else the builtin one. -/
abbrev PolicyProvider : Type := AutonomyLevel → List Char → Option PolicyVerdict

def builtinProvider : PolicyProvider := fun level cmd => some (evaluateWith level cmd)

def eqIgnoreAsciiCase (s t : String) : Bool :=
  s.toList.map Char.toLower == t.toList.map Char.toLower

def policyDecision (provider : PolicyProvider) (permission : Json) (autonomy : AutonomyLevel) :
    Option PermissionDecision := do
  let tool ← (permission.get "tool").bind Json.asStr
  if eqIgnoreAsciiCase tool "bash" then
    let cmd ← (permission.get "input").bind Json.asStr
    let verdict ← provider autonomy cmd.toList
    if verdict.decision = .ask then none
    else some ⟨verdict.decision, verdict.riskClass.debug, verdict.reason⟩
  else none

/-- What `request_permission` returns, and the approval it waited for. -/
structure Granted where
  allowed : Bool
  approval : Option String := none
deriving DecidableEq, Repr

def pollApproval (id : String) : Nat → Program Granted
  | 0 => pure ⟨false, some id⟩
  | polls + 1 => do
      match ← ask (.getApproval id) with
      | some (some approval) =>
          match approval.status with
          | .allowed => pure ⟨true, some id⟩
          | .pending => pollApproval id polls
          | _ => pure ⟨false, some id⟩
      | some none => pure ⟨false, some id⟩
      | none => pure ⟨false, some id⟩

def requestPermission (provider : PolicyProvider) (r : PermissionRequest) : Program Granted := do
  match policyDecision provider r.permission r.autonomy with
  | some decision =>
      let _ ← ask (.push decision)
      pure ⟨decision.decision = .allow, none⟩
  | none =>
      match ← ask (.createApproval r.filing) with
      | none => pure ⟨false, none⟩
      | some id => if id = "" then pure ⟨false, none⟩ else pollApproval id 150

/-! ## All calls -/

inductive Answer
  | permission (request : PermissionRequest) (granted : Granted)
  | answered (id : String) (event : ApprovalEvent) (reason : Option String) (actor : String)
      (won : Option Bool)
  | ticked (count : Option Nat)

def answering (id : String) (event : ApprovalEvent) (reason : Option String) (actor : String) :
    Program Answer := do
  let won ← answerApproval id event reason actor
  pure (.answered id event reason actor won)

inductive Call
  | permission (request : PermissionRequest)
  | allow (id : String) (user reason : Option String)
  | deny (id : String) (user reason : Option String)
  | consensusReview (id summary : String)
  | tick

def allowApproval (id : String) (user reason : Option String) : Program Answer :=
  answering id .allow (reason.filter (· != "")) (user.getD "system")

def denyApproval (id : String) (user reason : Option String) : Program Answer :=
  answering id .deny (some ((reason.filter (· != "")).getD "denied by operator"))
    (user.getD "system")

def Call.program (provider : PolicyProvider) : Call → Program Answer
  | .permission r => do
      let granted ← requestPermission provider r
      pure (.permission r granted)
  | .allow id user reason => allowApproval id user reason
  | .deny id user reason => denyApproval id user reason
  | .consensusReview id summary =>
      answering id .allow (some ("consensus review: " ++ summary)) "consensus-review"
  | .tick => do
      let count ← tickApprovalExpiry
      pure (.ticked count)

/-- A completion transaction files an approval of its own. -/
structure Filed where
  request : NewApproval
  id : String
  now : String
  expires : String

def Filed.apply (e : Filed) (db : ApprovalDb) : Option ApprovalDb :=
  match db.createApproval e.request e.id e.now e.expires with
  | (stored, some _) => some stored
  | (_, none) => none

abbrev ApprovalPool : Type := Pool ApprovalTx ApprovalTx.Reply Empty Answer ApprovalDb

abbrev ApprovalEvents : Type := Pool.Event Call Filed Input

def rules (provider : PolicyProvider) :
    Pool.Rules ApprovalTx ApprovalTx.Reply Empty Answer ApprovalDb Input Call Filed where
  program := Call.program provider
  run := exec
  other := Filed.apply

end AgentGrid.Store.Approvals
