import AgentGrid.Ha.Replication
import AgentGrid.Ha.WriteFence
import AgentGrid.Store.AdapterEnv
import AgentGrid.Store.OpencodeProfiles

/-!
# Fenced writes

How the operations on profiles and on the adapter environment reach the
database of an HA node.  Each transaction is a read from the pool, a
`write_txn`, or a transaction that was opened on the pool itself; only the
second kind asks the gate and has a session that records its changes.

A transaction finds the database and the gate in any state: whatever happened
since the transaction before it is left open.
-/

namespace AgentGrid.Store.Fencing

open AgentGrid.Foundation AgentGrid.Ha

/-- SQLite's session extension, with what a session says of a transaction that
turned the one contents into the other. -/
structure Session (δ κ : Type) extends Sqlite δ κ where
  take : δ → δ → Option κ
  take_some : ∀ {before after : δ} {c : κ}, take before after = some c →
    apply before c = some after
  take_none : ∀ {before after : δ}, take before after = none → after = before

/-- The store of a node, with what its replicator was given to publish. -/
structure FencedDb (δ κ : Type) where
  store : WriteStore δ
  published : List (Nat × κ) := []
  snapshotRequested : Bool := false

/-- The gate and the clock at a check. -/
structure Moment where
  gate : HaGate
  now : Nat

/-- What a transaction meets: the gate at its three checks, whether SQLite does
its part, and whether the changeset is acknowledged in time. -/
structure Meeting where
  enter : Moment
  recheck : Moment
  commit : Moment
  sqlite : Bool := true
  acknowledged : Bool := true

variable {δ κ : Type}

namespace FencedDb

def rows (s : FencedDb δ κ) : δ := s.store.db.rows

def replSeq (s : FencedDb δ κ) : Nat := s.store.db.replSeq

def setDb (s : FencedDb δ κ) (db : Contents δ) : FencedDb δ κ :=
  { s with store := { s.store with db := db } }

def asked (s : FencedDb δ κ) (ask : HaGate → Nat → HaGate × Except FencedError Unit)
    (m : Moment) : Bool :=
  ({ s.store with gate := m.gate, now := m.now }.check ask).2

def beginChecked (s : FencedDb δ κ) (m : Meeting) : Bool :=
  s.asked HaGate.assertWritable m.enter && s.asked HaGate.assertStillWritable m.recheck &&
    (!s.store.gated || s.store.db.epoch == m.recheck.gate.epoch)

/-- `WriteTxn::commit` behind its check of the gate. -/
def commit (session : Session δ κ) (s : FencedDb δ κ) (acknowledged : Bool) (rows : δ) :
    FencedDb δ κ × Bool :=
  let changes := session.take s.rows rows
  let (db, numbered) :=
    s.store.finished { s.store.db with rows := rows } (changes.map session.bytes)
  match changes with
  | none => (s.setDb db, true)
  | some c =>
      if numbered then
        ({ s.setDb db with published := s.published ++ [(db.replSeq, c)] }, acknowledged)
      else
        ({ s.setDb db with
           snapshotRequested := s.snapshotRequested || s.store.maxChangesetBytes.isSome }, true)

/-- `write_txn`, the statements and `commit`. -/
def writeTxn (session : Session δ κ) (s : FencedDb δ κ) (m : Meeting) {ρ : Type}
    (statements : δ → Option (δ × ρ)) : FencedDb δ κ × Option ρ :=
  if s.beginChecked m then
    match if m.sqlite then statements s.rows else none with
    | none => (s, none)
    | some (rows, reply) =>
        if s.asked HaGate.assertStillWritable m.commit then
          let (s, ok) := s.commit session m.acknowledged rows
          (s, if ok then some reply else none)
        else (s, none)
  else (s, none)

/-- `pool.begin` or `pool.acquire`, and the statements. -/
def poolTxn (s : FencedDb δ κ) (m : Meeting) {ρ : Type} (statements : δ → Option (δ × ρ)) :
    FencedDb δ κ × Option ρ :=
  match if m.sqlite then statements s.rows else none with
  | none => (s, none)
  | some (rows, reply) => (s.setDb { s.store.db with rows := rows }, some reply)

end FencedDb

inductive Access
  | read
  | gated
  | raw
deriving DecidableEq

/-- How the transactions of a kind of program run, a failing statement giving
none, and the reply with which the program goes on after an error; without one
the error is passed on. -/
structure Client (ω : Type) (ρ : ω → Type) (δ : Type) where
  access : ω → Access
  run : (op : ω) → δ → Option (δ × ρ op)
  onError : (op : ω) → Option (ρ op)

section Running

variable {ω α : Type} {ρ : ω → Type} (session : Session δ κ) (X : Client ω ρ δ)

def Client.step (s : FencedDb δ κ) (m : Meeting) (op : ω) : FencedDb δ κ × Option (ρ op) :=
  match X.access op with
  | .read =>
      let reply := if m.sqlite then (X.run op s.rows).map Prod.snd else none
      (s, reply.or (X.onError op))
  | .gated =>
      let (s, reply) := s.writeTxn session m (X.run op)
      (s, reply.or (X.onError op))
  | .raw =>
      let (s, reply) := s.poolTxn m (X.run op)
      (s, reply.or (X.onError op))

/-- A transaction that a program has run. -/
structure Ran (ω δ κ : Type) where
  op : ω
  meeting : Meeting
  before : FencedDb δ κ
  after : FencedDb δ κ

/-- A program with the transactions it runs and what it returns; none is an
error that was passed on. -/
inductive Exec : Prog ω ρ Empty α → List (Ran ω δ κ) → Option α → Prop
  | ret (value : α) : Exec (.ret value) [] (some value)
  | answered {keys : List Empty} {op : ω} {next : ρ op → Prog ω ρ Empty α} {s s' : FencedDb δ κ}
      {m : Meeting} {reply : ρ op} {later : List (Ran ω δ κ)} {out : Option α} :
      X.step session s m op = (s', some reply) → Exec (next reply) later out →
      Exec (.call keys op next) (⟨op, m, s, s'⟩ :: later) out
  | failed {keys : List Empty} {op : ω} {next : ρ op → Prog ω ρ Empty α} {s s' : FencedDb δ κ}
      {m : Meeting} : X.step session s m op = (s', none) →
      Exec (.call keys op next) [⟨op, m, s, s'⟩] none

namespace Ran

/-- The gate does not admit the write at one of its checks. -/
def refused (r : Ran ω δ κ) : Bool :=
  !(r.before.beginChecked r.meeting && r.before.asked HaGate.assertStillWritable r.meeting.commit)

def writes (r : Ran ω δ κ) : Bool := X.access r.op != .read

/-- The changes lead from the one contents to the other and are in the stream
under the next number. -/
def Numbered (r : Ran ω δ κ) (c : κ) : Prop :=
  r.after.published = r.before.published ++ [(r.before.replSeq + 1, c)] ∧
    r.after.replSeq = r.before.replSeq + 1

/-- Refused by the gate, a transaction changes nothing.  Where replication is
attached, rows change with the changeset in the stream, or with a request for a
snapshot when it exceeds the cap. -/
structure Fenced (r : Ran ω δ κ) : Prop where
  refused : r.refused = true → r.after = r.before
  captured : ∀ cap, r.before.store.maxChangesetBytes = some cap →
    r.after.rows ≠ r.before.rows →
    ∃ c, session.apply r.before.rows c = some r.after.rows ∧
      (session.bytes c ≤ cap → r.Numbered c) ∧
      (cap < session.bytes c → r.after.snapshotRequested = true)

end Ran

/-- Every transaction of the program is fenced, and a program that writes fails
when the gate refuses all of its writes. -/
structure FencedProgram (failed : α → Prop) (p : Prog ω ρ Empty α) : Prop where
  fenced : ∀ ran out, Exec session X p ran out → ∀ r ∈ ran, r.Fenced session
  fails : ∀ ran out, Exec session X p ran out → (∃ r ∈ ran, r.writes X = true) →
    (∀ r ∈ ran, r.writes X = true → r.refused = true) → ∀ value, out = some value → failed value

end Running

/-! ## Transactions -/

section Transactions

variable {session : Session δ κ} {s s' : FencedDb δ κ} {m : Meeting} {R : Type}
  {statements : δ → Option (δ × R)} {reply : Option R}

namespace FencedDb

theorem commit_none {acknowledged : Bool} {rows : δ} (h : session.take s.rows rows = none) :
    (s.commit session acknowledged rows).1.rows = s.rows := by
  have hsame : rows = s.rows := session.take_none h
  have hunnumbered : ∀ work, s.store.finished work none = (work, false) := by
    intro work
    cases hcap : s.store.maxChangesetBytes <;> simp [WriteStore.finished, hcap]
  rw [commit]
  simp only [h, Option.map_none, hunnumbered]
  exact hsame

/-- A commit that changed rows, within the cap and beyond it. -/
theorem commit_some {acknowledged : Bool} {rows : δ} {c : κ} {cap : Nat}
    (h : session.take s.rows rows = some c) (hcap : s.store.maxChangesetBytes = some cap) :
    let done := (s.commit session acknowledged rows).1
    done.rows = rows ∧
      (session.bytes c ≤ cap → done.published = s.published ++ [(s.replSeq + 1, c)] ∧
        done.replSeq = s.replSeq + 1) ∧
      (cap < session.bytes c → done.snapshotRequested = true) := by
  intro done
  rcases Nat.lt_or_ge cap (session.bytes c) with hlt | hge
  · have hdone : done = { s.setDb { s.store.db with rows := rows } with
        snapshotRequested := s.snapshotRequested || s.store.maxChangesetBytes.isSome } := by
      simp [done, commit, h, WriteStore.finished, hcap, hlt]
    rw [hdone, hcap]
    exact ⟨rfl, fun hle => absurd hlt (Nat.not_lt.mpr hle), fun _ => Bool.or_true _⟩
  · have hdone : done =
        { s.setDb { s.store.db with rows := rows, replSeq := s.store.db.replSeq + 1 } with
          published := s.published ++ [(s.store.db.replSeq + 1, c)] } := by
      simp [done, commit, h, WriteStore.finished, hcap, Nat.not_lt.mpr hge]
    rw [hdone]
    exact ⟨rfl, fun _ => ⟨rfl, rfl⟩, fun hlt => absurd hlt (Nat.not_lt.mpr hge)⟩

/-- A write transaction changes nothing, or the gate admitted it three times and
it is committed. -/
theorem writeTxn_cases (h : s.writeTxn session m statements = (s', reply)) :
    s' = s ∧ reply = none ∨
      s.beginChecked m = true ∧ s.asked HaGate.assertStillWritable m.commit = true ∧
        ∃ rows, s' = (s.commit session m.acknowledged rows).1 := by
  unfold writeTxn at h
  split at h
  · rename_i hbegin
    split at h
    · cases h
      exact .inl ⟨rfl, rfl⟩
    · rename_i rows _ _
      split at h
      · rename_i hcommit
        cases h
        exact .inr ⟨hbegin, hcommit, rows, rfl⟩
      · cases h
        exact .inl ⟨rfl, rfl⟩
  · cases h
    exact .inl ⟨rfl, rfl⟩

end FencedDb

variable {ω : Type} {ρ : ω → Type} {X : Client ω ρ δ}

theorem step_read {op : ω} {reply : Option (ρ op)} (hop : X.access op = .read)
    (h : X.step session s m op = (s', reply)) : s' = s := by
  simp only [Client.step, hop] at h
  cases h
  rfl

/-- Refused by the gate, a gated transaction leaves the program with its reply
for errors. -/
theorem step_refused {op : ω} {reply : Option (ρ op)} (hop : X.access op = .gated)
    (h : X.step session s m op = (s', reply)) (hrefused : Ran.refused ⟨op, m, s, s'⟩ = true) :
    s' = s ∧ reply = X.onError op := by
  simp only [Client.step, hop] at h
  cases htxn : s.writeTxn session m (X.run op) with
  | mk t answer =>
      rw [htxn] at h
      obtain ⟨rfl, rfl⟩ | ⟨hbegin, hcommit, -⟩ := FencedDb.writeTxn_cases htxn
      · cases h
        exact ⟨rfl, rfl⟩
      · simp [Ran.refused, hbegin, hcommit] at hrefused

theorem step_fenced {op : ω} {reply : Option (ρ op)} (hop : X.access op ≠ .raw)
    (h : X.step session s m op = (s', reply)) :
    Ran.Fenced session ⟨op, m, s, s'⟩ := by
  cases haccess : X.access op with
  | raw => exact absurd haccess hop
  | read =>
      have hsame := step_read haccess h
      exact ⟨fun _ => hsame, fun _ _ hne => absurd (by rw [hsame]) hne⟩
  | gated =>
      refine ⟨fun hrefused => (step_refused haccess h hrefused).1, ?_⟩
      intro cap hcap hne
      simp only [Client.step, haccess] at h
      cases htxn : s.writeTxn session m (X.run op) with
      | mk t answer =>
          rw [htxn] at h
          cases h
          obtain ⟨rfl, -⟩ | ⟨-, -, rows, rfl⟩ := FencedDb.writeTxn_cases htxn
          · exact absurd rfl hne
          · cases htake : session.take s.rows rows with
            | none => exact absurd (FencedDb.commit_none htake) hne
            | some c =>
                obtain ⟨hrows, hnumbered, hsnapshot⟩ :=
                  @FencedDb.commit_some _ _ session s m.acknowledged _ c cap htake hcap
                refine ⟨c, ?_, hnumbered, hsnapshot⟩
                change session.apply s.rows c = some (FencedDb.rows _)
                rw [hrows]
                exact session.take_some htake

variable {α : Type}

/-- A program that opens no transaction on the pool itself. -/
theorem Exec.fenced {p : Prog ω ρ Empty α} {ran : List (Ran ω δ κ)} {out : Option α}
    (hp : p.All fun _ op => X.access op ≠ .raw) (h : Exec session X p ran out) :
    ∀ r ∈ ran, r.Fenced session := by
  induction h with
  | ret value => simp
  | answered hstep _ ih =>
      intro r hr
      rcases List.mem_cons.mp hr with rfl | hr
      · exact step_fenced hp.1 hstep
      · exact ih (hp.2 _) r hr
  | failed hstep =>
      intro r hr
      rw [List.mem_singleton.mp hr]
      exact step_fenced hp.1 hstep

/-- With its writes refused, the program fails if it comes to write. -/
def FailsRefused (X : Client ω ρ δ) (failed : α → Prop) : Bool → Prog ω ρ Empty α → Prop
  | wrote, .ret value => wrote = true → failed value
  | wrote, .call _ op next =>
      match X.access op with
      | .read => ∀ reply, FailsRefused X failed wrote (next reply)
      | .gated => ∀ reply, X.onError op = some reply → FailsRefused X failed true (next reply)
      | .raw => False

theorem Exec.fails {failed : α → Prop} {wrote : Bool} {p : Prog ω ρ Empty α}
    {ran : List (Ran ω δ κ)} {out : Option α} (h : Exec session X p ran out)
    (hp : FailsRefused X failed wrote p)
    (hwrote : wrote = true ∨ ∃ r ∈ ran, r.writes X = true)
    (hrefused : ∀ r ∈ ran, r.writes X = true → r.refused = true) :
    ∀ value, out = some value → failed value := by
  induction h generalizing wrote with
  | ret value =>
      rintro _ ⟨⟩
      rcases hwrote with hwrote | ⟨r, hr, -⟩
      · exact hp hwrote
      · cases hr
  | failed => simp
  | @answered keys op next s s' m reply later out hstep _ ih =>
      have hlater : ∀ r ∈ later, r.writes X = true → r.refused = true :=
        fun r hr => hrefused r (List.mem_cons_of_mem _ hr)
      rw [FailsRefused] at hp
      cases haccess : X.access op with
      | raw =>
          rw [haccess] at hp
          exact hp.elim
      | read =>
          rw [haccess] at hp
          refine ih (hp reply) ?_ hlater
          rcases hwrote with hwrote | ⟨r, hr, hwrites⟩
          · exact .inl hwrote
          · rcases List.mem_cons.mp hr with rfl | hr
            · simp [Ran.writes, haccess] at hwrites
            · exact .inr ⟨r, hr, hwrites⟩
      | gated =>
          rw [haccess] at hp
          have hfirst := hrefused _ List.mem_cons_self (by simp [Ran.writes, haccess])
          obtain ⟨-, hreply⟩ := step_refused haccess hstep hfirst
          exact ih (hp reply hreply.symm) (.inl rfl) hlater

theorem fencedProgram {failed : α → Prop} {p : Prog ω ρ Empty α}
    (hp : p.All fun _ op => X.access op ≠ .raw) (hfails : FailsRefused X failed false p) :
    FencedProgram session X failed p :=
  ⟨fun _ _ hexec => hexec.fenced hp,
    fun _ _ hexec hwrites hrefused => hexec.fails hfails (.inr hwrites) hrefused⟩

end Transactions

/-! ## Profiles -/

section Profiles

open Opencode

def profileClient : Client ProfileTx ProfileTx.Reply ProfileDb where
  access
    | .upsertRow _ _ _ _ _ _ | .addRevision _ _ _ | .delete _ | .move _ | .audit _
    | .assign _ _ => .gated
    | .rollback _ _ _ | .deleteWithFallback _ _ => .raw
    | .getProfile _ | .onArms _ _ | .expired _ | .nodesFor _ | .hashOf _ => .read
  run tx db := some (Opencode.exec tx db)
  onError
    | .upsertRow _ _ _ _ _ _ | .addRevision _ _ _ | .rollback _ _ _ | .delete _ | .move _
    | .audit _ | .deleteWithFallback _ _ | .assign _ _ => some none
    | .nodesFor _ => some []
    | .getProfile _ | .onArms _ _ | .expired _ | .hashOf _ => none

variable {session : Session ProfileDb κ}

theorem upsertOpencodeProfile_fenced (sha256Hex : String → String) (name : String)
    (config : Node.Json) (expiresAt : Option String) (pinnedSkills : Option (List String))
    (now newId : String) :
    FencedProgram session profileClient (· = .failed)
      (upsertOpencodeProfile sha256Hex name config expiresAt pinnedSkills now newId) := by
  cases hconfig : normalizeConfig sha256Hex config with
  | none =>
      apply fencedProgram
      · simp [upsertOpencodeProfile, hconfig, Prog.All]
      · simp [upsertOpencodeProfile, hconfig, FailsRefused]
  | some body =>
      apply fencedProgram
      · simp only [upsertOpencodeProfile, hconfig, ask, Prog.bind_eq, Prog.call_bind, Prog.ret_bind]
        refine ⟨by simp [profileClient], ?_⟩
        intro row
        cases row with
        | none => trivial
        | some row =>
            cases hjson : row.prevConfigJson <;> cases hhash : row.prevHash <;>
              simp [Prog.All, hjson, hhash, profileClient]
      · simp [upsertOpencodeProfile, hconfig, ask, FailsRefused, profileClient]

theorem deleteOpencodeProfile_fenced (name : String) :
    FencedProgram session profileClient (· = .failed) (deleteOpencodeProfile name) := by
  apply fencedProgram
  · refine ⟨by simp [profileClient], ?_⟩
    intro deleted
    cases deleted <;> trivial
  · simp [deleteOpencodeProfile, ask, FailsRefused, profileClient]

theorem assignPercentBetween_fenced (keepId otherId : String) (percent : Nat) :
    FencedProgram session profileClient (· = .failed)
      (assignPercentBetween keepId otherId percent) := by
  apply fencedProgram
  · refine ⟨by simp [profileClient], fun nodeIds => ⟨by simp [profileClient], ?_⟩⟩
    intro moved
    cases moved <;> trivial
  · simp [assignPercentBetween, ask, FailsRefused, profileClient]

theorem assignOpencodeProfile_fenced (nodeId : String) (profileId : Option String) :
    FencedProgram session profileClient (· = .failed)
      (assignOpencodeProfile nodeId profileId) := by
  apply fencedProgram
  · refine ⟨by simp [profileClient], ?_⟩
    intro rows
    match rows, profileId with
    | none, _ => trivial
    | some 0, _ => trivial
    | some (_ + 1), none => trivial
    | some (_ + 1), some id => exact ⟨by simp [profileClient], fun _ => trivial⟩
  · simp [assignOpencodeProfile, ask, FailsRefused, profileClient]

theorem expireAll_nonraw (rows : List Profile) (out : List (String × List String)) :
    (expireAll rows out).All fun _ op => profileClient.access op ≠ .raw := by
  induction rows generalizing out with
  | nil => trivial
  | cons row rows ih =>
      refine ⟨by simp [profileClient], fun nodes => ⟨by simp [profileClient], ?_⟩⟩
      intro deleted
      cases deleted with
      | none => exact ih out
      | some _ => exact ⟨by simp [profileClient], fun _ => ih _⟩

/-- A sweep whose deletions are refused goes through the expired profiles and
reports none. -/
theorem expireAll_refused (rows : List Profile) (out : List (String × List String))
    (wrote : Bool) :
    FailsRefused profileClient (· = .done out) wrote (expireAll rows out) := by
  induction rows generalizing wrote with
  | nil => exact fun _ => rfl
  | cons row rows ih => simpa [expireAll, ask, FailsRefused, profileClient] using ih true

theorem expireOpencodeProfiles_fenced (now : String) :
    FencedProgram session profileClient (· = .done []) (expireOpencodeProfiles now) := by
  apply fencedProgram
  · exact ⟨by simp [profileClient], fun rows => expireAll_nonraw rows []⟩
  · exact fun rows => expireAll_refused rows [] false

end Profiles

/-! ## The adapter environment -/

section AdapterEnvironment

open AdapterEnv

def envRun (C : Crypto) : (tx : EnvTx) → EnvDb → Option (EnvDb × tx.Reply)
  | .storeEntry adapter key value nodeId keys targets, db =>
      match db.storeEntry C adapter key value nodeId keys targets with
      | (_, none) => none
      | stored => some stored
  | .sealEntry row keys, db =>
      match db.sealEntry C row keys with
      | (_, none) => none
      | done => some done
  | tx, db => some (AdapterEnv.exec C tx db)

def envClient (C : Crypto) : Client EnvTx EnvTx.Reply EnvDb where
  access
    | .storeEntry _ _ _ _ _ _ | .replaceKey _ _ _ | .sealEntry _ _ => .gated
    | .deleteSealed _ | .deleteEntry _ => .raw
    | .nodePublicKeys | .allNodeIds | .nodePublicKey _ | .legacyRows => .read
  run := envRun C
  onError _ := none

variable {session : Session EnvDb κ} (C : Crypto)

theorem upsertAdapterEnv_fenced (adapter key value : String) (nodeId : Option String) :
    FencedProgram session (envClient C) (· = .failed)
      (upsertAdapterEnv adapter key value nodeId) := by
  apply fencedProgram
  · refine ⟨by simp [envClient], ?_⟩
    intro keys
    cases nodeId with
    | none =>
        refine ⟨by simp [envClient], fun targets => ⟨by simp [envClient], ?_⟩⟩
        intro outcome
        cases outcome <;> trivial
    | some n =>
        refine ⟨by simp [envClient], ?_⟩
        intro outcome
        cases outcome <;> trivial
  · cases nodeId <;> simp [upsertAdapterEnv, ask, FailsRefused, envClient]

theorem setNodePublicKey_fenced (nodeId publicKey : String) :
    FencedProgram session (envClient C) (· = .failed) (setNodePublicKey nodeId publicKey) := by
  apply fencedProgram
  · refine ⟨by simp [envClient], ?_⟩
    intro current
    cases current with
    | none => trivial
    | some current =>
        by_cases hsame : current = some publicKey <;>
          simp [hsame, ask, Prog.All, envClient]
  · intro current
    cases current with
    | none => exact nofun
    | some current =>
        by_cases hsame : current = some publicKey <;>
          simp [hsame, ask, FailsRefused, envClient]

end AdapterEnvironment

/-! ## No write escapes -/

/-- The operations that open their transactions with `write_txn`.  The sweep of
expired profiles goes on where a deletion is refused. -/
theorem transactions_fenced {κ' : Type} (profiles : Session Opencode.ProfileDb κ)
    (env : Session AdapterEnv.EnvDb κ') (C : AdapterEnv.Crypto) (sha256Hex : String → String) :
    (∀ name config expiresAt pinnedSkills now newId,
      FencedProgram profiles profileClient (· = .failed)
        (Opencode.upsertOpencodeProfile sha256Hex name config expiresAt pinnedSkills now newId)) ∧
    (∀ name, FencedProgram profiles profileClient (· = .failed)
      (Opencode.deleteOpencodeProfile name)) ∧
    (∀ nodeId profileId, FencedProgram profiles profileClient (· = .failed)
      (Opencode.assignOpencodeProfile nodeId profileId)) ∧
    (∀ keepId otherId percent, FencedProgram profiles profileClient (· = .failed)
      (Opencode.assignPercentBetween keepId otherId percent)) ∧
    (∀ now, FencedProgram profiles profileClient (· = .done [])
      (Opencode.expireOpencodeProfiles now)) ∧
    (∀ adapter key value nodeId, FencedProgram env (envClient C) (· = .failed)
      (AdapterEnv.upsertAdapterEnv adapter key value nodeId)) ∧
    (∀ nodeId publicKey, FencedProgram env (envClient C) (· = .failed)
      (AdapterEnv.setNodePublicKey nodeId publicKey)) :=
  ⟨upsertOpencodeProfile_fenced sha256Hex, deleteOpencodeProfile_fenced,
    assignOpencodeProfile_fenced, assignPercentBetween_fenced, expireOpencodeProfiles_fenced,
    upsertAdapterEnv_fenced C, setNodePublicKey_fenced C⟩

/-! ## An expired profile -/

/-- A changeset with the rows before and after, of a hundred bytes. -/
def wholeRows : Session Opencode.ProfileDb (Opencode.ProfileDb × Opencode.ProfileDb) where
  apply x c := if x = c.1 then some c.2 else none
  invert c := (c.2, c.1)
  apply_invert := by
    intro x y c h
    split at h
    · rename_i hx
      cases h
      simp [hx]
    · cases h
  bytes _ := 100
  take before after := if before = after then none else some (before, after)
  take_some := by
    intro before after c h
    split at h
    · cases h
    · cases h
      simp
  take_none := by
    intro before after h
    by_contra hne
    rw [if_neg (Ne.symm hne)] at h
    cases h

def expiredProfile : Opencode.Profile where
  id := "p"
  name := "base"
  configJson := ""
  hash := ""
  expiresAt := some "1"
  createdAt := ""
  updatedAt := ""

def inRole (role : HaRole) : FencedDb Opencode.ProfileDb κ where
  store := {
    gated := true
    maxChangesetBytes := some 10
    gate := .new role 0
    db := { rows := { profiles := [expiredProfile] } } }

def meeting (role : HaRole) : Meeting :=
  let moment : Moment := ⟨(HaGate.new role 0).renewLease 10, 0⟩
  { enter := moment, recheck := moment, commit := moment }

/-- On a standby the sweep fails at its profile and succeeds, and on a leader a
changeset beyond the cap takes no number. -/
theorem sweep_goes_on :
    (¬ ∀ now ran out, Exec wholeRows profileClient (Opencode.expireOpencodeProfiles now) ran out →
      (∃ r ∈ ran, r.writes profileClient = true) →
      (∀ r ∈ ran, r.writes profileClient = true → r.refused = true) →
      out = none ∨ out = some .failed) ∧
    ¬ ∀ name ran out, Exec wholeRows profileClient (Opencode.deleteOpencodeProfile name) ran out →
      ∀ r ∈ ran, r.after.rows ≠ r.before.rows → r.after.replSeq = r.before.replSeq + 1 := by
  constructor
  · intro h
    have hdelete : profileClient.step wholeRows (inRole .standby) (meeting .standby)
        (.delete "base") = (inRole .standby, some none) := rfl
    have hexec : Exec wholeRows profileClient (Opencode.expireOpencodeProfiles "2")
        [⟨.expired "2", meeting .standby, inRole .standby, inRole .standby⟩,
          ⟨.nodesFor "p", meeting .standby, inRole .standby, inRole .standby⟩,
          ⟨.delete "base", meeting .standby, inRole .standby, inRole .standby⟩]
        (some (.done [])) :=
      .answered rfl (.answered rfl (.answered hdelete (.ret _)))
    have hout := h _ _ _ hexec
      ⟨_, List.mem_cons_of_mem _ (List.mem_cons_of_mem _ List.mem_cons_self), rfl⟩ (by decide)
    simp at hout
  · intro h
    have hexec : Exec wholeRows profileClient (Opencode.deleteOpencodeProfile "base")
        [⟨.delete "base", meeting .leader, inRole .leader,
          (profileClient.step wholeRows (inRole .leader) (meeting .leader) (.delete "base")).1⟩]
        (some (.done true)) :=
      .answered rfl (.ret _)
    exact absurd (h _ _ _ hexec _ List.mem_cons_self (by decide)) (by decide)

end AgentGrid.Store.Fencing
