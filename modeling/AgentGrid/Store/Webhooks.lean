import AgentGrid.Foundation.Pool
import AgentGrid.Node.Payload
import AgentGrid.Store.Artifacts
import AgentGrid.Store.Attempts

/-!
# GitHub webhooks

The three routes that turn a signed delivery into a task.  The GUID of a
delivery is recorded before its task exists.  The issue route forgets it again
when the task cannot be created; the other two do not.

A GUID belongs to one delivery and is kept by its retries, so the deliveries
are a function of their GUIDs.  The keys of a program are the GUIDs it recorded
and has not yet made a task for.
-/

namespace AgentGrid.Store.Webhooks

open AgentGrid.Foundation
open AgentGrid.Node (Json)

inductive Route
  | issues
  | checkRun
  | pullRequest
deriving DecidableEq, Repr

/-- The route, the header `x-hub-signature-256` and the raw body. -/
structure Delivery where
  route : Route
  signature : Option String
  body : List UInt8

/-- The environment variables, `hmac`, `hex` and `serde_json`. -/
structure Setup where
  secret : Option String
  adapter : Option String
  newMac : String → Option (List UInt8 → List UInt8 → Bool)
  hexDecode : String → Option (List UInt8)
  fromSlice : List UInt8 → Option Json

inductive Status
  | ok
  | badRequest
  | unauthorized
  | notFound
  | internalServerError
deriving DecidableEq, Repr

def asI64 : Json → Option Int
  | .unsigned n => if n < 2 ^ 63 then some n else none
  | .negative n => some (-n)
  | _ => none

def textOf (v : Json) (key : String) : Option String := (v.get key).bind Json.asStr

namespace Setup

variable (W : Setup)

def configuredSecret : Option String :=
  match W.secret with
  | some s => if trim s = "" then none else some s
  | none => none

def webhookAdapter : String :=
  match W.adapter with
  | some s => if trim s = "" then "mock" else trim s
  | none => "mock"

def verifyGithubSig (d : Delivery) : Except Status Unit :=
  match W.configuredSecret with
  | none => .error .notFound
  | some secret =>
      match d.signature with
      | none => .error .unauthorized
      | some header =>
          if startsWith header "sha256=" = false then .error .unauthorized
          else
            match W.hexDecode (String.ofList (header.toList.drop 7)) with
            | none => .error .unauthorized
            | some presented =>
                match W.newMac secret with
                | none => .error .internalServerError
                | some verify =>
                    if verify d.body presented then .ok () else .error .unauthorized

def labels (issue : Json) : List String :=
  match issue.get "labels" with
  | some (.array items) => items.filterMap fun l => textOf l "name"
  | _ => []

/-- The task of an opened issue that carries the trigger label. -/
def issueTask (body : List UInt8) : Except Status (Option CreateTaskRequest) := do
  let v ← match W.fromSlice body with
    | some v => pure v
    | none => throw .badRequest
  if textOf v "action" ≠ some "opened" then
    return none
  let issue ← match v.get "issue" with
    | some issue => pure issue
    | none => throw .badRequest
  let number := ((issue.get "number").bind asI64).getD 0
  let title := (textOf issue "title").getD ""
  let bodyText := (textOf issue "body").getD ""
  if (labels issue).any (· == "agent") = false then
    return none
  let fullName := (v.get "repository").bind fun r => textOf r "full_name"
  let repoName := ((v.get "repository").bind fun r => textOf r "name").getD "*"
  let heading := "GitHub issue #" ++ toString number ++ ": " ++ title
  return some {
    prompt := if trim bodyText = "" then heading else heading ++ "\n\n" ++ bodyText
    repository := fullName.getD repoName
    adapter := W.webhookAdapter
    githubPush := fullName.isSome
    githubRepo := fullName
    githubIssue := some number }

def createFollowupTask (prompt : String) : CreateTaskRequest where
  prompt := prompt
  repository := "*"
  adapter := W.webhookAdapter

/-- The task of a check run that failed or was cancelled. -/
def checkRunTask (body : List UInt8) : Except Status (Option CreateTaskRequest) := do
  let v ← match W.fromSlice body with
    | some v => pure v
    | none => throw .badRequest
  if textOf v "action" ≠ some "completed" then
    return none
  let checkRun ← match v.get "check_run" with
    | some checkRun => pure checkRun
    | none => throw .badRequest
  let conclusion := (textOf checkRun "conclusion").getD ""
  if conclusion ≠ "failure" ∧ conclusion ≠ "cancelled" then
    return none
  let name := (textOf checkRun "name").getD "check"
  let htmlUrl := (textOf checkRun "html_url").getD ""
  let repo := ((v.get "repository").bind fun r => textOf r "full_name").getD ""
  return some (W.createFollowupTask
    ("GitHub CI check `" ++ name ++ "` on " ++ repo ++ " failed (conclusion: " ++ conclusion ++
      ").\n\nRead the failed check's log and reproduce the failure, then apply the minimal fix " ++
      "that makes it pass. Check details: " ++ htmlUrl ++
      "\n\nUseful: `gh run view` / the check log URL to find the failure. Keep the diff minimal " ++
      "and match the existing style. Do not change unrelated code."))

/-- The task of a pull request with conflicts. -/
def pullRequestTask (body : List UInt8) : Except Status (Option CreateTaskRequest) := do
  let v ← match W.fromSlice body with
    | some v => pure v
    | none => throw .badRequest
  let action := (textOf v "action").getD ""
  if action ≠ "opened" ∧ action ≠ "synchronize" ∧ action ≠ "reopened" then
    return none
  let pr ← match v.get "pull_request" with
    | some pr => pure pr
    | none => throw .badRequest
  if textOf pr "mergeable_state" ≠ some "conflicting" then
    return none
  let number := ((pr.get "number").bind asI64).getD 0
  let title := (textOf pr "title").getD ""
  let url := (textOf pr "html_url").getD ""
  let repo := ((v.get "repository").bind fun r => textOf r "full_name").getD ""
  return some (W.createFollowupTask
    ("GitHub PR #" ++ toString number ++ " (" ++ title ++ ") on " ++ repo ++
      " has merge conflicts.\n\nResolve them and make the PR mergeable. Rebase onto the target " ++
      "branch (do not merge the target into a merge commit), pick the intent of both sides when " ++
      "they conflict, and run the narrowest useful check to confirm. PR: " ++ url))

end Setup

/-! ## The writes -/

/-- `made` relates the tasks to the deliveries they were created for. -/
structure HookDb where
  db : Database := {}
  deliveries : List String := []
  made : List (String × String) := []

inductive HookTx
  | deliveryFresh (guid : String)
  | createTask (req : CreateTaskRequest) (guid : Option String)
  | deliveryForget (guid : String)

@[reducible] def HookTx.Reply : HookTx → Type
  | .deliveryFresh _ => Option Bool
  | .createTask _ _ => Bool
  | .deliveryForget _ => Bool

inductive Outcome
  | failed
  | done (id now : String)
deriving DecidableEq, Repr

def HookDb.createTask (s : HookDb) (req : CreateTaskRequest) (guid : Option String)
    (id now : String) : HookDb × Bool :=
  match Store.createTask s.db req id now with
  | (_, .error _) => (s, false)
  | (db, .ok _) => ({ s with db := db, made := s.made ++ guid.toList.map fun g => (g, id) }, true)

def exec : Outcome → (tx : HookTx) → HookDb → HookDb × tx.Reply
  | .failed, .deliveryFresh _, s => (s, none)
  | .failed, .createTask _ _, s => (s, false)
  | .failed, .deliveryForget _, s => (s, false)
  | .done _ _, .deliveryFresh guid, s =>
      if guid ∈ s.deliveries then (s, some false)
      else ({ s with deliveries := guid :: s.deliveries }, some true)
  | .done id now, .createTask req guid, s => s.createTask req guid id now
  | .done _ _, .deliveryForget guid, s =>
      ({ s with deliveries := s.deliveries.filter fun g => g != guid }, true)

abbrev Program (α : Type) : Type := Prog HookTx HookTx.Reply String α

/-! ## The routes -/

def ask (keys : List String) (tx : HookTx) : Program tx.Reply := .call keys tx .ret

/-- The dedup of a delivery, and what follows when it is fresh. -/
def ifFresh (guid : Option String) (next : Program Status) : Program Status :=
  match guid with
  | none => next
  | some guid => do
      match ← ask [] (.deliveryFresh guid) with
      | some true => next
      | some false => pure .ok
      | none => pure .internalServerError

def githubIssueWebhook (W : Setup) (d : Delivery) (guid : Option String) : Program Status :=
  match W.verifyGithubSig d with
  | .error status => pure status
  | .ok _ => ifFresh guid (
      match W.issueTask d.body with
      | .error status => pure status
      | .ok none => pure .ok
      | .ok (some req) => do
          if ← ask guid.toList (.createTask req guid) then
            pure .ok
          else
            match guid with
            | some guid => do
                let _ ← ask [guid] (.deliveryForget guid)
                pure .internalServerError
            | none => pure .internalServerError)

/-- The two routes that do not forget. -/
def followupWebhook (task : List UInt8 → Except Status (Option CreateTaskRequest)) (W : Setup)
    (d : Delivery) (guid : Option String) : Program Status :=
  match W.verifyGithubSig d with
  | .error status => pure status
  | .ok _ => ifFresh guid (
      match task d.body with
      | .error status => pure status
      | .ok none => pure .ok
      | .ok (some req) => do
          if ← ask guid.toList (.createTask req guid) then
            pure .ok
          else
            pure .internalServerError)

def githubCheckRunWebhook (W : Setup) : Delivery → Option String → Program Status :=
  followupWebhook W.checkRunTask W

def githubPullRequestWebhook (W : Setup) : Delivery → Option String → Program Status :=
  followupWebhook W.pullRequestTask W

def webhook (W : Setup) (d : Delivery) (guid : Option String) : Program Status :=
  match d.route with
  | .issues => githubIssueWebhook W d guid
  | .checkRun => githubCheckRunWebhook W d guid
  | .pullRequest => githubPullRequestWebhook W d guid

/-- A delivery, or a retry of it, with its GUID. -/
def serve (W : Setup) (sent : String → Delivery) (guid : String) : Program (String × Status) := do
  let status ← webhook W (sent guid) (some guid)
  pure (guid, status)

def rules (W : Setup) (sent : String → Delivery) :
    Pool.Rules HookTx HookTx.Reply String (String × Status) HookDb Outcome String Empty where
  program := serve W sent
  run := exec
  other := nofun

abbrev HookPool : Type := Pool HookTx HookTx.Reply String (String × Status) HookDb

abbrev HookEvent : Type := Pool.Event String Empty Outcome

end AgentGrid.Store.Webhooks
