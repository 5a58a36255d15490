import AgentGrid.Foundation.Resumption
import AgentGrid.Foundation.Table
import AgentGrid.Node.Payload
import AgentGrid.Store.Artifacts
import Mathlib.Data.List.Sort

/-!
# Opencode profiles

A profile has its live config and, in two columns, the one before; a table of
revisions keeps the older ones.  The operations are programs of their reads and
transactions, and a transaction that fails says so in its reply.  SHA-256 is a
parameter.  Foreign keys are on: a deleted profile takes its revisions along
and leaves its nodes without a profile.
-/

namespace AgentGrid.Store.Opencode

open AgentGrid.Foundation AgentGrid.Node

/-! ## Configs -/

def allowedTopLevel : List String :=
  ["model", "small_model", "default_agent", "provider", "plugin", "mcp", "agent", "permission",
    "enabled_providers", "disabled_providers", "share", "snapshot", "autoupdate"]

def checkShape (key : String) (v : Json) : Bool :=
  if key ∈ ["model", "small_model", "default_agent"] then
    match v with
    | .string _ => true
    | _ => false
  else if key ∈ ["share", "snapshot", "autoupdate"] then
    match v with
    | .bool _ => true
    | _ => false
  else if key ∈ ["enabled_providers", "disabled_providers", "plugin"] then
    match v with
    | .array _ => true
    | _ => false
  else if key ∈ ["provider", "mcp", "agent", "permission"] then
    match v with
    | .object _ | .null => true
    | _ => false
  else true

/-- The text of a config and its hash. -/
abbrev Body : Type := String × String

def normalizeConfig (sha256Hex : String → String) (v : Json) : Option Body :=
  match v with
  | .object fields =>
      if fields.all fun f => !allowedTopLevel.contains f.1 || checkShape f.1 f.2 then
        let json := String.ofList
          (Json.object (fields.filter fun f => allowedTopLevel.contains f.1)).text
        some (json, sha256Hex json)
      else none
  | _ => none

def canonicalizePinned (names : List String) : Option String :=
  let names := ((names.map trim).filter (· != "")).insertionSort (· ≤ ·)
  if names.isEmpty then none
  else some (String.ofList (Json.array (names.dedup.map Json.string)).text)

/-! ## Rows -/

structure Profile where
  id : String
  name : String
  configJson : String
  hash : String
  prevConfigJson : Option String := none
  prevHash : Option String := none
  expiresAt : Option String := none
  pinnedSkillsJson : Option String := none
  createdAt : String
  updatedAt : String
deriving DecidableEq

def Profile.prev (row : Profile) : Option Body :=
  match row.prevConfigJson, row.prevHash with
  | some json, some hash => some (json, hash)
  | _, _ => none

/-- A row of `opencode_profile_revisions`; the table is in the order of its ids. -/
structure Revision where
  profileId : String
  body : Body
  savedAt : String
deriving DecidableEq

structure NodeProfile where
  id : String
  opencodeProfileId : Option String := none
deriving DecidableEq

structure ProfileDb where
  profiles : List Profile := []
  revisions : List Revision := []
  nodes : List NodeProfile := []
  auditLog : List String := []
deriving DecidableEq

namespace ProfileDb

def getProfile (db : ProfileDb) (name : String) : Option Profile :=
  lookup Profile.name name db.profiles

/-- `INSERT .. ON CONFLICT(name) DO UPDATE .. RETURNING`. -/
def upsertRow (db : ProfileDb) (name : String) (body : Body) (expiresAt pinned : Option String)
    (now newId : String) : ProfileDb × Profile :=
  match db.getProfile name with
  | some row =>
      let row := { row with
        prevConfigJson := some row.configJson
        prevHash := some row.hash
        configJson := body.1
        hash := body.2
        expiresAt := expiresAt
        pinnedSkillsJson := pinned
        updatedAt := now }
      ({ db with profiles := updateWhere (·.name == name) (fun _ => row) db.profiles }, row)
  | none =>
      let row : Profile := {
        id := newId
        name := name
        configJson := body.1
        hash := body.2
        expiresAt := expiresAt
        pinnedSkillsJson := pinned
        createdAt := now
        updatedAt := now }
      ({ db with profiles := db.profiles ++ [row] }, row)

def addRevision (db : ProfileDb) (profileId : String) (body : Body) (now : String) :
    ProfileDb :=
  { db with revisions := db.revisions ++ [⟨profileId, body, now⟩] }

def revisionsOf (db : ProfileDb) (profileId : String) : List Body :=
  (db.revisions.filter (·.profileId == profileId)).map Revision.body

/-- The loop of `rollback_opencode_profile`, with its stack and the live body. -/
def walkBack (profileId now : String) :
    Nat → List Body → Body → ProfileDb → List Body × Body × ProfileDb
  | 0, stack, cur, db => (stack, cur, db)
  | k + 1, stack, cur, db =>
      match stack.getLast? with
      | none => (stack, cur, db)
      | some top => walkBack profileId now k stack.dropLast top (db.addRevision profileId cur now)

/-- The transaction of `rollback_opencode_profile`, and whether it found the
history it was asked for. -/
def rollback (db : ProfileDb) (name : String) (steps : Nat) (now : String) :
    ProfileDb × Bool :=
  match db.getProfile name with
  | none => (db, false)
  | some row =>
      let stack := row.prev.toList ++ db.revisionsOf row.id
      let stepsN := max steps 1
      if stack.length < stepsN then (db, false)
      else
        let (stack, cur, db) := walkBack row.id now stepsN stack (row.configJson, row.hash) db
        let prev := stack.getLast?
        ({ db with
           profiles := updateWhere (·.id == row.id) (fun r => { r with
             configJson := cur.1
             hash := cur.2
             prevConfigJson := prev.map Prod.fst
             prevHash := prev.map Prod.snd
             updatedAt := now }) db.profiles }, true)

/-- `DELETE FROM opencode_profiles`, with what the foreign keys do. -/
def delete (db : ProfileDb) (name : String) : ProfileDb × Bool :=
  match db.getProfile name with
  | none => (db, false)
  | some row =>
      ({ db with
         profiles := db.profiles.filter (·.name != name)
         revisions := db.revisions.filter (·.profileId != row.id)
         nodes := updateWhere (·.opencodeProfileId == some row.id)
           (fun n => { n with opencodeProfileId := none }) db.nodes }, true)

def assign (db : ProfileDb) (nodeId : String) (profileId : Option String) : ProfileDb × Nat :=
  ({ db with
     nodes := updateWhere (·.id == nodeId) (fun n => { n with opencodeProfileId := profileId })
       db.nodes }, db.nodes.countP (·.id == nodeId))

def nodesFor (db : ProfileDb) (profileId : String) : List String :=
  (db.nodes.filter (·.opencodeProfileId == some profileId)).map NodeProfile.id

def deleteWithFallback (db : ProfileDb) (name fallbackId : String) : ProfileDb × Bool :=
  match db.getProfile name with
  | none => db.delete name
  | some row =>
      delete { db with
        nodes := updateWhere (·.opencodeProfileId == some row.id)
          (fun n => { n with opencodeProfileId := some fallbackId }) db.nodes } name

def onArms (db : ProfileDb) (keepId otherId : String) : List String :=
  ((db.nodes.filter fun n => n.opencodeProfileId == some keepId ||
    n.opencodeProfileId == some otherId).map NodeProfile.id).insertionSort (· ≤ ·)

def expired (db : ProfileDb) (now : String) : List Profile :=
  db.profiles.filter fun p => p.expiresAt.any fun at_ => decide (at_ ≤ now)

end ProfileDb

/-! ## Operations -/

inductive ProfileTx
  | upsertRow (name : String) (body : Body) (expiresAt pinned : Option String)
      (now newId : String)
  | addRevision (profileId : String) (body : Body) (now : String)
  | rollback (name : String) (steps : Nat) (now : String)
  | getProfile (name : String)
  | delete (name : String)
  | onArms (keepId otherId : String)
  | move (targets : List (String × String))
  | expired (now : String)
  | nodesFor (profileId : String)
  | audit (profileName : String)
  | deleteWithFallback (name fallbackId : String)
  | assign (nodeId : String) (profileId : Option String)
  | hashOf (profileId : String)

/-- A read answers; what writes may fail. -/
@[reducible] def ProfileTx.Reply : ProfileTx → Type
  | .upsertRow _ _ _ _ _ _ => Option Profile
  | .addRevision _ _ _ => Option Unit
  | .rollback _ _ _ => Option Bool
  | .getProfile _ => Option Profile
  | .delete _ => Option Bool
  | .onArms _ _ => List String
  | .move _ => Option Unit
  | .expired _ => List Profile
  | .nodesFor _ => List String
  | .audit _ => Option Unit
  | .deleteWithFallback _ _ => Option Bool
  | .assign _ _ => Option Nat
  | .hashOf _ => Option String

abbrev Program (α : Type) : Type := Prog ProfileTx ProfileTx.Reply Empty α

def ask (tx : ProfileTx) : Program tx.Reply := .call [] tx .ret

def exec : (tx : ProfileTx) → ProfileDb → ProfileDb × tx.Reply
  | .upsertRow name body expiresAt pinned now newId, db =>
      let (db, row) := db.upsertRow name body expiresAt pinned now newId
      (db, some row)
  | .addRevision profileId body now, db => (db.addRevision profileId body now, some ())
  | .rollback name steps now, db =>
      let (db, found) := db.rollback name steps now
      (db, some found)
  | .getProfile name, db => (db, db.getProfile name)
  | .delete name, db =>
      let (db, deleted) := db.delete name
      (db, some deleted)
  | .onArms keepId otherId, db => (db, db.onArms keepId otherId)
  | .move targets, db =>
      (targets.foldl (fun db t => (db.assign t.1 (some t.2)).1) db, some ())
  | .expired now, db => (db, db.expired now)
  | .nodesFor profileId, db => (db, db.nodesFor profileId)
  | .audit profileName, db => ({ db with auditLog := db.auditLog ++ [profileName] }, some ())
  | .deleteWithFallback name fallbackId, db =>
      let (db, deleted) := db.deleteWithFallback name fallbackId
      (db, some deleted)
  | .assign nodeId profileId, db =>
      let (db, rows) := db.assign nodeId profileId
      (db, some rows)
  | .hashOf profileId, db => (db, (lookup Profile.id profileId db.profiles).map Profile.hash)

/-- What an operation returns; `failed` is an error. -/
inductive Outcome (α : Type)
  | done (value : α)
  | failed

def upsertOpencodeProfile (sha256Hex : String → String) (name : String) (config : Json)
    (expiresAt : Option String) (pinnedSkills : Option (List String)) (now newId : String) :
    Program (Outcome Profile) :=
  match normalizeConfig sha256Hex config with
  | none => pure .failed
  | some body => do
      match ← ask (.upsertRow name body expiresAt (canonicalizePinned (pinnedSkills.getD []))
        now newId) with
      | none => pure .failed
      | some row =>
          match row.prevConfigJson, row.prevHash with
          | some json, some hash =>
              let _ ← ask (.addRevision row.id (json, hash) now)
              pure (.done row)
          | _, _ => pure (.done row)

def rollbackOpencodeProfile (name : String) (steps : Nat) (now : String) :
    Program (Outcome (Option Profile)) := do
  match ← ask (.rollback name steps now) with
  | none => pure .failed
  | some false => pure (.done none)
  | some true =>
      let row ← ask (.getProfile name)
      pure (.done row)

def deleteOpencodeProfile (name : String) : Program (Outcome Bool) := do
  match ← ask (.delete name) with
  | none => pure .failed
  | some deleted => pure (.done deleted)

def assignPercentBetween (keepId otherId : String) (percent : Nat) :
    Program (Outcome (List (String × String))) := do
  let nodeIds ← ask (.onArms keepId otherId)
  let keepN := nodeIds.length * percent / 100
  let targets := nodeIds.mapIdx fun i id => (id, if i < keepN then keepId else otherId)
  match ← ask (.move targets) with
  | none => pure .failed
  | some () => pure (.done targets)

def expireAll : List Profile → List (String × List String) →
    Program (Outcome (List (String × List String)))
  | [], out => pure (.done out)
  | row :: rows, out => do
      let nodes ← ask (.nodesFor row.id)
      match ← ask (.delete row.name) with
      | none => expireAll rows out
      | some _ =>
          let _ ← ask (.audit row.name)
          expireAll rows (out ++ [(row.name, nodes)])

def expireOpencodeProfiles (now : String) :
    Program (Outcome (List (String × List String))) := do
  let rows ← ask (.expired now)
  expireAll rows []

def deleteOpencodeProfileWithFallback (name fallbackId : String) : Program (Outcome Bool) := do
  match ← ask (.deleteWithFallback name fallbackId) with
  | none => pure .failed
  | some deleted => pure (.done deleted)

def assignOpencodeProfile (nodeId : String) (profileId : Option String) :
    Program (Outcome (Bool × Option String × Option String)) := do
  match ← ask (.assign nodeId profileId) with
  | none => pure .failed
  | some 0 => pure (.done (false, none, none))
  | some (_ + 1) =>
      match profileId with
      | none => pure (.done (true, none, none))
      | some id =>
          let hash ← ask (.hashOf id)
          pure (.done (true, some id, hash))

end AgentGrid.Store.Opencode
