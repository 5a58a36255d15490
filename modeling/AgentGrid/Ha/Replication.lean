import AgentGrid.Foundation.Timeline
import AgentGrid.Ha.Election

/-!
# Replication of the control plane database

The leader numbers each commit whose changeset is small enough and ships it;
standbys apply batches in the order of their numbers and restore snapshots when
they fall behind.  A demoted leader undoes what no data quorum acknowledged.

Each call of the source is one step here.  Elections are left open: any data
node may be promoted at any time.  The network keeps a batch in flight until it
is dropped and may deliver it to each peer any number of times.  What SQLite's
session extension does is a parameter.  The history of a database is kept for
the proofs only.
-/

namespace AgentGrid.Ha

open AgentGrid.Foundation

/-- Changesets of the user tables, with the length of their encoding. -/
structure Sqlite (δ κ : Type) extends Changes δ κ where
  bytes : κ → Nat

/-- The database file: user tables, `ha_cluster_state` and the schema. -/
structure Database (δ κ : Type) where
  version : Version δ κ
  replSeq : Nat := 0
  epoch : Nat := 0
  schema : Int := 0
deriving DecidableEq

/-- A file `ha-snap-<epoch>-<seq>.db` with its manifest. -/
structure Snapshot (δ κ : Type) where
  epoch : Nat
  seq : Nat
  schema : Int
  createdUnix : Int
  db : Database δ κ
deriving DecidableEq

/-! ## The rewind buffer -/

def rewindMaxEntries : Nat := 512

def rewindMaxBytes : Nat := 8 * 1024 * 1024

/-- The changesets a leader committed, oldest first. -/
structure RewindBuffer (κ : Type) where
  entries : List (Nat × κ) := []
  bytes : Nat := 0
  floor : Option Nat := none
deriving DecidableEq

namespace RewindBuffer

variable {δ κ : Type} (sql : Sqlite δ κ)

/-- Drops the oldest changesets while the buffer is over its caps. -/
def evict : List (Nat × κ) → Nat → Option Nat → RewindBuffer κ
  | [], bytes, floor => ⟨[], bytes, floor⟩
  | (seq, c) :: rest, bytes, floor =>
      if rewindMaxEntries < rest.length + 1 ∨ rewindMaxBytes < bytes then
        evict rest (bytes - sql.bytes c) (some seq)
      else ⟨(seq, c) :: rest, bytes, floor⟩

def push (buf : RewindBuffer κ) (seq : Nat) (c : κ) : RewindBuffer κ :=
  evict sql (buf.entries ++ [(seq, c)]) (buf.bytes + sql.bytes c) buf.floor

def trimEntries (replicated : Nat) : List (Nat × κ) → Nat → List (Nat × κ) × Nat
  | [], bytes => ([], bytes)
  | (seq, c) :: rest, bytes =>
      if replicated < seq then ((seq, c) :: rest, bytes)
      else trimEntries replicated rest (bytes - sql.bytes c)

def trim (buf : RewindBuffer κ) (replicated : Nat) : RewindBuffer κ :=
  let (entries, bytes) := trimEntries sql replicated buf.entries buf.bytes
  { buf with entries := entries, bytes := bytes }

def canRewindTo (buf : RewindBuffer κ) (target : Nat) : Bool :=
  buf.floor.all fun floor => decide (floor ≤ target)

/-- The inverses of the changesets above `target`, newest first, with the number
expected next; none when one is not retained. -/
def undoing (target : Nat) : Nat → List (Nat × κ) → Option (Nat × List κ)
  | expect, [] => some (expect, [])
  | expect, (seq, c) :: older =>
      if seq ≤ target then some (expect, [])
      else if seq ≠ expect then none
      else
        match undoing target (expect - 1) older with
        | some (expect, inverted) => some (expect, sql.invert c :: inverted)
        | none => none

end RewindBuffer

/-! ## Replicas -/

structure Job (κ : Type) where
  seq : Nat
  change : κ
deriving DecidableEq

structure Batch (κ : Type) where
  sender : NodeId
  epoch : Nat
  firstSeq : Nat
  lastSeq : Nat
  schema : Int
  changes : List κ
deriving DecidableEq

structure Advertised where
  epoch : Nat
  seq : Nat
  createdUnix : Int
deriving DecidableEq

/-- A data node.  `snapshots` and `base` are files in its data directory and
`incoming` is a download; the other fields after `db` are in memory. -/
structure Replica (δ κ : Type) where
  db : Database δ κ
  snapshots : List (Snapshot δ κ) := []
  base : Option (Database δ κ) := none
  incoming : Option (Snapshot δ κ) := none
  role : HaRole := .standby
  epoch : Nat := 0
  admittedWrites : Nat := 0
  writesSuspended : Bool := false
  appliedSeq : Nat := 0
  needFullSnapshot : Bool := false
  lastReplicatedSeq : Nat := 0
  advertised : Option Advertised := none
  snapshotRequest : Bool := false
  rewind : RewindBuffer κ := {}
  queue : List (Job κ) := []
deriving DecidableEq

structure Setup (δ κ : Type) extends Cluster where
  sql : Sqlite δ κ
  maxChangesetBytes : Nat

inductive Refusal
  | leader
  | needsFullSnapshot
  | staleEpoch
  | schema (batch here : Int)
  | gap (expected first : Nat)
  | applyFailed
deriving DecidableEq

inductive ApplyOutcome
  | applied (seq : Nat)
  | duplicate
  | rejected (appliedSeq : Nat) (why : Refusal)
deriving DecidableEq

section Operations

variable {δ κ : Type} (S : Setup δ κ)

/-- Incremental replication is attached in every mode but `snapshot`. -/
def Setup.replicates (me : NodeId) : Bool := S.rpoMode me != .snapshot

/-- Whether a commit of the changeset gets a number. -/
def Setup.numbers (me : NodeId) (c : κ) : Bool :=
  S.replicates me && decide (S.sql.bytes c ≤ S.maxChangesetBytes)

def Replica.writable (r : Replica δ κ) : Bool :=
  r.role == .leader && !r.writesSuspended && r.db.epoch == r.epoch

def Database.write (db : Database δ κ) (contents : δ) (c : κ) : Database δ κ :=
  { db with version := ⟨contents, db.version.history ++ [c]⟩ }

/-- `WriteTxn::commit` of a transaction that turned the tables into `contents`,
with the start of `publish`. -/
def commit (me : NodeId) (r : Replica δ κ) (c : κ) (contents : δ) : Replica δ κ :=
  let r := { r with db := r.db.write contents c, admittedWrites := r.admittedWrites + 1 }
  if S.replicates me then
    if S.maxChangesetBytes < S.sql.bytes c then { r with snapshotRequest := true }
    else
      let seq := r.db.replSeq + 1
      { r with
        db := { r.db with replSeq := seq }
        rewind := r.rewind.push S.sql seq c
        queue := r.queue ++ [⟨seq, c⟩]
        appliedSeq := if S.rpoMode me = .async then seq else r.appliedSeq }
  else r

/-- `push_batch` of the first jobs of the queue. -/
def pushBatch (me : NodeId) (r : Replica δ κ) (count : Nat) :
    Option (Replica δ κ × Batch κ) :=
  match r.queue.take count with
  | [] => none
  | job :: jobs =>
      some ({ r with queue := r.queue.drop count },
        { sender := me
          epoch := r.epoch
          firstSeq := job.seq
          lastSeq := ((job :: jobs).getLast (by simp)).seq
          schema := r.db.schema
          changes := (job :: jobs).map Job.change })

def applyChangesetBatch (db : Database δ κ) (b : Batch κ) : Database δ κ × ApplyOutcome :=
  let applied := db.replSeq
  if b.schema ≠ db.schema then (db, .rejected applied (.schema b.schema db.schema))
  else if b.lastSeq ≤ applied then (db, .duplicate)
  else if b.firstSeq ≠ applied + 1 then
    (db, .rejected applied (.gap (applied + 1) b.firstSeq))
  else
    match S.sql.applyAll db.version.contents b.changes with
    | none => (db, .rejected applied .applyFailed)
    | some contents =>
        ({ db with
            version := ⟨contents, db.version.history ++ b.changes⟩
            replSeq := b.lastSeq }, .applied b.lastSeq)

/-- The route a standby receives a batch on. -/
def changeset (r : Replica δ κ) (b : Batch κ) : Replica δ κ × ApplyOutcome :=
  if r.role = .leader then (r, .rejected r.appliedSeq .leader)
  else if r.needFullSnapshot then (r, .rejected r.appliedSeq .needsFullSnapshot)
  else if b.epoch < r.epoch then (r, .rejected r.appliedSeq .staleEpoch)
  else
    let r := { r with epoch := b.epoch }
    match applyChangesetBatch S r.db b with
    | (db, .applied seq) => ({ r with db := db, appliedSeq := seq }, .applied seq)
    | (db, .duplicate) =>
        ({ r with db := db, appliedSeq := max r.appliedSeq b.lastSeq }, .duplicate)
    | (db, outcome) => ({ r with db := db }, outcome)

/-- A data quorum holds `seq`. -/
def noteReplicated (r : Replica δ κ) (seq : Nat) : Replica δ κ :=
  { r with
    rewind := r.rewind.trim S.sql seq
    lastReplicatedSeq := max r.lastReplicatedSeq seq }

/-- `rewind_to` with its `apply_rewind`: the database and its number, or none
when the writes cannot be undone. -/
def rewindTo (r : Replica δ κ) : Option (Database δ κ) :=
  let seq := r.db.replSeq
  let target := r.lastReplicatedSeq
  if seq ≤ target then some r.db
  else if !r.rewind.canRewindTo target then none
  else
    match RewindBuffer.undoing S.sql target seq r.rewind.entries.reverse with
    | none => none
    | some (expect, inverted) =>
        if expect ≠ target then none
        else
          match S.sql.applyAll r.db.version.contents inverted with
          | none => none
          | some contents =>
              let history := r.db.version.history
              some { r.db with
                version := ⟨contents, history.take (history.length - inverted.length)⟩
                replSeq := target }

/-- What a demotion that cannot undo its writes leaves. -/
def Replica.condemn (r : Replica δ κ) : Replica δ κ :=
  { r with needFullSnapshot := true, appliedSeq := 0 }

/-- `demote`; `inTime` is false when undoing the writes took too long. -/
def demoteReplica (me : NodeId) (r : Replica δ κ) (inTime : Bool) : Replica δ κ :=
  if r.role ≠ .leader then r
  else
    let r := { r with role := .standby }
    if 0 < r.admittedWrites then
      if S.replicates me && inTime then
        match rewindTo S r with
        | some db => { r with db := db, appliedSeq := db.replSeq }
        | none => r.condemn
      else r.condemn
    else r

/-- `promote` with `promote_epoch`. -/
def promoteReplica (me : NodeId) (r : Replica δ κ) (term : Nat) : Replica δ κ :=
  let epoch := max term (r.db.epoch + 1)
  let seq := if S.rpoMode me = .snapshot then r.db.replSeq + 1 else r.db.replSeq
  { r with
    db := { r.db with epoch := epoch, replSeq := seq }
    role := .leader
    epoch := epoch
    admittedWrites := 0
    writesSuspended := false
    appliedSeq := seq
    lastReplicatedSeq := max r.lastReplicatedSeq seq }

/-- The process dies and `start` runs again. -/
def restart (r : Replica δ κ) : Replica δ κ :=
  { db := r.db
    snapshots := r.snapshots
    base := r.base
    epoch := r.db.epoch
    appliedSeq := r.db.replSeq }

/-! ## Snapshots -/

def keepSnapshots : Nat := 2

def Replica.snapshotFile (r : Replica δ κ) (epoch seq : Nat) : Option (Snapshot δ κ) :=
  r.snapshots.find? fun f => f.epoch == epoch && f.seq == seq

/-- The advertised snapshot, when it has the number of the database. -/
def reusable (r : Replica δ κ) : Option (Snapshot δ κ) :=
  match r.advertised with
  | some a =>
      if a.seq = r.db.replSeq then r.snapshotFile a.epoch a.seq else none
  | none => none

/-- The number `create` cuts a new snapshot at: the current one, or, without a
replicator, the one a write of its own takes. -/
def snapshotSeq (me : NodeId) (r : Replica δ κ) : Nat :=
  if S.replicates me then r.db.replSeq else r.db.replSeq + 1

/-- `create`. -/
def createSnapshot (me : NodeId) (r : Replica δ κ) (createdUnix : Int) : Replica δ κ :=
  let r := { r with snapshotRequest := false }
  match reusable r with
  | some _ => r
  | none =>
      let seq := snapshotSeq S me r
      let db := { r.db with replSeq := seq }
      let file : Snapshot δ κ := ⟨r.epoch, seq, db.schema, createdUnix, db⟩
      let others := r.snapshots.filter fun f => f.epoch != file.epoch || f.seq != file.seq
      { r with
        db := db
        snapshots := (file :: others).take keepSnapshots
        advertised := some ⟨r.epoch, seq, createdUnix⟩
        admittedWrites := r.admittedWrites + if S.replicates me then 0 else 1 }

def isStale (r : Replica δ κ) (seq : Nat) (createdUnix : Int) : Bool :=
  r.needFullSnapshot || (decide (r.appliedSeq < seq) &&
    decide ((r.advertised.map Advertised.createdUnix).getD 0 < createdUnix))

/-- What `apply_from` downloads from the leader, when it needs its snapshot. -/
def wanted (r leader : Replica δ κ) : Option (Snapshot δ κ) :=
  match leader.advertised with
  | some a =>
      if isStale r a.seq a.createdUnix || leader.db.schema != r.db.schema then
        leader.snapshotFile a.epoch a.seq
      else none
  | none => none

/-- `install_snapshot`. -/
def installSnapshot (r : Replica δ κ) (f : Snapshot δ κ) : Replica δ κ :=
  let r := { r with incoming := none }
  let forced := r.needFullSnapshot || f.db.schema != r.db.schema
  if !forced && decide (f.seq ≤ r.db.replSeq) then
    { r with appliedSeq := max r.appliedSeq r.db.replSeq }
  else
    { r with
      db := f.db
      base := some f.db
      appliedSeq := f.seq
      advertised := some ⟨f.epoch, f.seq, f.createdUnix⟩
      epoch := f.db.epoch
      needFullSnapshot := false }

/-- `restore_local_base`. -/
def restoreLocalBase (r : Replica δ κ) : Option (Replica δ κ) :=
  match r.base with
  | none => none
  | some base =>
      if base.schema ≠ r.db.schema then none
      else some { r with
        db := base
        appliedSeq := base.replSeq
        epoch := base.epoch
        needFullSnapshot := false }

end Operations

/-! ## The fleet -/

structure Fleet (δ κ : Type) where
  replica : NodeId → Replica δ κ
  batches : List (Batch κ) := []
  acks : List (NodeId × Batch κ) := []

inductive ReplEvent (κ : Type)
  | commit (me : NodeId) (c : κ)
  | push (me : NodeId) (count : Nat)
  | deliver (b : Batch κ) (peer : NodeId) (replied : Bool)
  | drop (b : Batch κ)
  | replicated (me : NodeId) (b : Batch κ) (awaited : Bool)
  | missed (me : NodeId)
  | createSnapshot (me : NodeId) (createdUnix : Int)
  | download (me leader : NodeId)
  | abandon (me : NodeId)
  | install (me : NodeId)
  | restoreBase (me : NodeId)
  | promote (me : NodeId) (term : Nat)
  | demote (me : NodeId) (inTime : Bool)
  | crash (me : NodeId)
deriving DecidableEq

section Fleet

variable {δ κ : Type} [DecidableEq κ] (S : Setup δ κ)

def Fleet.put (s : Fleet δ κ) (me : NodeId) (r : Replica δ κ) : Fleet δ κ :=
  { s with replica := fun id => if id = me then r else s.replica id }

/-- The data replicas that have the batch, the leader included. -/
def Fleet.ackCount (s : Fleet δ κ) (me : NodeId) (b : Batch κ) : Nat :=
  1 + ((S.peers me).filter fun p => s.acks.contains (p, b)).length

/-- The leader reads the answer of one peer. -/
def Fleet.answer (s : Fleet δ κ) (b : Batch κ) (peer : NodeId) : ApplyOutcome → Fleet δ κ
  | .rejected _ _ =>
      s.put b.sender { s.replica b.sender with snapshotRequest := true }
  | _ => { s with acks := (peer, b) :: s.acks }

/-- One step of the data node `me`. -/
def replicaStep (s : Fleet δ κ) (me : NodeId) (r : Replica δ κ) :
    ReplEvent κ → Option (Replica δ κ)
  | .commit _ c =>
      if r.writable then
        (S.sql.apply r.db.version.contents c).map (commit S me r c)
      else none
  | .replicated _ b awaited =>
      if b.sender = me ∧ S.voterSet.dataMajority ≤ s.ackCount S me b then
        let r := noteReplicated S r b.lastSeq
        some { r with
          appliedSeq := if S.rpoMode me = .sync ∧ awaited then b.lastSeq else r.appliedSeq }
      else none
  | .missed _ => some { r with writesSuspended := true }
  | .createSnapshot _ createdUnix =>
      if r.role = .leader ∧ (S.replicates me || (reusable r).isSome || r.writable) then
        some (createSnapshot S me r createdUnix)
      else none
  | .download _ leader =>
      if r.role ≠ .leader ∧ r.incoming = none ∧ leader ∈ S.data ∧
          (s.replica leader).role = .leader then
        (wanted r (s.replica leader)).map fun f => { r with incoming := some f }
      else none
  | .abandon _ => some { r with incoming := none }
  | .install _ => r.incoming.map (installSnapshot r)
  | .restoreBase _ =>
      if r.role ≠ .leader ∧ r.needFullSnapshot then restoreLocalBase r else none
  | .promote _ term =>
      if r.role ≠ .leader ∧ r.needFullSnapshot = false then
        some (promoteReplica S me r term)
      else none
  | .demote _ inTime => some (demoteReplica S me r inTime)
  | .crash _ => some (restart r)
  | _ => none

/-- The node a step runs on. -/
def ReplEvent.node : ReplEvent κ → NodeId
  | .commit me _ | .push me _ | .replicated me _ _ | .missed me | .createSnapshot me _
  | .download me _ | .abandon me | .install me | .restoreBase me | .promote me _
  | .demote me _ | .crash me => me
  | .deliver _ peer _ => peer
  | .drop b => b.sender

def replStep (s : Fleet δ κ) (e : ReplEvent κ) : Option (Fleet δ κ) :=
  if e.node ∉ S.data then none
  else
    match e with
    | .push me count =>
        (pushBatch me (s.replica me) count).map fun (r, b) =>
          let s := s.put me r
          { s with batches := b :: s.batches }
    | .deliver b peer replied =>
        if b ∈ s.batches ∧ peer ∈ S.peers b.sender then
          let (r, outcome) := changeset S (s.replica peer) b
          let s := s.put peer r
          some (if replied then s.answer b peer outcome else s)
        else none
    | .drop b => some { s with batches := s.batches.erase b }
    | e => (replicaStep S s e.node (s.replica e.node) e).map (s.put e.node)

def ReplStep (s : Fleet δ κ) (e : ReplEvent κ) (s' : Fleet δ κ) : Prop :=
  replStep S s e = some s'

end Fleet

end AgentGrid.Ha
