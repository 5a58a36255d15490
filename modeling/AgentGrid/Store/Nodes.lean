import AgentGrid.Store.Loss

/-!
# Nodes

Enrollment, polling, heartbeats, revocation and the sweeps that find a node
offline.  `heartbeat` and `revokeNode` are their first transaction: the sweep
each of them runs afterwards is a transaction of its own, here
`loseNodeAttemptsIfOffline` and `loseNodeAttempts`.
-/

namespace AgentGrid.Store

open AgentGrid.Foundation

structure PollRequest where
  nodeId : String
  name : String
  adapters : List String
  repositories : List String
  maxConcurrency : UInt32

def registerOrTouchNode (db : Database) (req : PollRequest) (now : String) : Database :=
  match db.node req.nodeId with
  | none =>
      { db with nodes := db.nodes ++
          [{ id := req.nodeId, name := req.name, status := .online,
             maxConcurrency := req.maxConcurrency, adapters := req.adapters,
             repositories := req.repositories, lastHeartbeatAt := some now,
             createdAt := now }] }
  | some _ =>
      db.updateNodes (fun n => n.id == req.nodeId) fun n =>
        { n with name := req.name, maxConcurrency := req.maxConcurrency,
                 adapters := req.adapters, repositories := req.repositories,
                 lastHeartbeatAt := some now,
                 status := match n.status with
                   | .offline | .pending => .online
                   | status => status }

structure EnrollRequest where
  name : String
  agentVersion : Option String
  adapters : List String
  repositories : List String
  maxConcurrency : UInt32

/-- The branch of `enroll_node` for a plain token: it inserts a node under a
fresh id, and the insertion fails when the id is taken. -/
def enrollNode (db : Database) (req : EnrollRequest) (nodeId credHash now : String) :
    Database × Except StoreError String :=
  match db.node nodeId with
  | some _ => (db, .error .constraint)
  | none =>
      let n : Node :=
        { id := nodeId, name := req.name, status := .online,
          agentVersion := req.agentVersion, maxConcurrency := req.maxConcurrency,
          adapters := req.adapters, repositories := req.repositories,
          lastHeartbeatAt := some now, credentialHash := some credHash,
          createdAt := now }
      let db : Database := { db with nodes := db.nodes ++ [n] }
      (db.audit { actorType := "node", actorId := some nodeId, action := "enroll",
                  subject := none, createdAt := now },
        .ok nodeId)

/-- The branch of `enroll_node` for a token bound to a node. -/
def rekeyNode (db : Database) (nodeId credHash now : String) : Database × Bool :=
  match db.node nodeId with
  | none => (db, false)
  | some _ =>
      let db := db.updateNodes (fun n => n.id == nodeId) fun n =>
        { n with credentialHash := some credHash,
                 status := if n.status = .revoked then .online else n.status,
                 revokedAt := if n.status = .revoked then none else n.revokedAt }
      (db.audit { actorType := "node", actorId := some nodeId, action := "rekey",
                  subject := none, createdAt := now }, true)

structure HeartbeatRequest where
  name : String
  status : Option NodeStatus
  agentVersion : Option String
  maxConcurrency : UInt32
  adapters : List String
  repositories : List String
  freeDiskMb : Int
  freeMemoryMb : Int
  cpuCount : Int
  memAvailableMb : Int
  permissionInterception : String
  networkMode : String
  activeRssMib : Int
  maxRssMib : Int

def heartbeat (db : Database) (nodeId : String) (req : HeartbeatRequest)
    (now : String) : Database × Bool :=
  let status := req.status.getD .online
  (db.updateNodes (fun n => n.id == nodeId) fun n =>
      { n with name := req.name,
               status := if n.status = .revoked then .revoked else status,
               agentVersion := req.agentVersion,
               maxConcurrency := req.maxConcurrency,
               adapters := req.adapters, repositories := req.repositories,
               freeDiskMb := req.freeDiskMb, freeMemoryMb := req.freeMemoryMb,
               cpuCount := req.cpuCount, memAvailableMb := req.memAvailableMb,
               lastHeartbeatAt := some now,
               permissionInterception := req.permissionInterception,
               networkMode := req.networkMode, activeRssMib := req.activeRssMib,
               maxRssMib := if req.maxRssMib > 0 then req.maxRssMib else n.maxRssMib },
    db.nodes.countP (fun n => n.id == nodeId) == 1)

def revokeNode (db : Database) (nodeId now : String) : Database × Bool :=
  let affected := db.nodes.countP fun n => n.id == nodeId
  let db := db.updateNodes (fun n => n.id == nodeId) fun n =>
    { n with status := .revoked, revokedAt := some now }
  if affected = 1 then
    (db.audit { actorType := "node", actorId := some nodeId, action := "revoke",
                subject := none, createdAt := now }, true)
  else (db, false)

def setNodeDrained (db : Database) (nodeId : String) (drained : Bool)
    (now : String) : Database × Bool :=
  let affected := db.nodes.countP fun n => n.id == nodeId
  let db := db.updateNodes (fun n => n.id == nodeId) fun n => { n with drained := drained }
  if affected = 1 then
    (db.audit { actorType := "user", actorId := none,
                action := if drained then "node.drain" else "node.undrain",
                subject := some nodeId, createdAt := now }, true)
  else (db, false)

def setNodeDegraded (db : Database) (nodeId : String) : Database :=
  db.updateNodes (fun n => n.id == nodeId && n.status != .revoked)
    fun n => { n with status := .degraded }

def loseNodeAttemptsIfOffline (db : Database) (nodeId now : String) : Database :=
  match db.node nodeId with
  | some n => if n.status = .offline then loseNodeAttempts db nodeId now else db
  | none => db

def Node.canGoOffline (n : Node) : Bool :=
  match n.status with
  | .offline | .pending | .revoked => false
  | .online | .degraded => true

def markNodeOffline (db : Database) (nodeId now : String) : Database × Bool :=
  let hit := fun n : Node => n.id == nodeId && n.canGoOffline
  let affected := db.nodes.countP hit
  let db := db.updateNodes hit fun n =>
    { n with status := .offline, lastHeartbeatAt := some now }
  (if affected = 1 then loseNodeAttempts db nodeId now else db, affected == 1)

/-- One round of the loop of `mark_offline_nodes`. -/
def markOffline (now : String) (db : Database) (row : Node) : Database :=
  let hit := fun n : Node => n.id == row.id && n.status == .online
  let moved := db.nodes.countP hit
  let db := db.updateNodes hit fun n => { n with status := .offline }
  if moved ≠ 1 then db else loseNodeAttempts db row.id now

/-- `cutoff` is thirty seconds before `now`. -/
def markOfflineNodes (db : Database) (cutoff now : String) : Database :=
  (db.nodes.filter fun n =>
    n.status == .online && n.lastHeartbeatAt.all (· < cutoff)).foldl
      (markOffline now) db

def inFlightCount (db : Database) (nodeId : String) : Nat :=
  db.attempts.countP fun a => a.nodeId == nodeId && a.status.inFlight

/-- The drifted rows are set to the count and their number is returned. -/
def reconcileActiveAttempts (db : Database) : Database × Nat :=
  let drifted := fun n : Node => n.activeAttempts != inFlightCount db n.id
  (db.updateNodes drifted fun n => { n with activeAttempts := inFlightCount db n.id },
    db.nodes.countP drifted)

end AgentGrid.Store
