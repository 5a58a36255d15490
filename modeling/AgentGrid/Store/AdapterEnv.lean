import AgentGrid.Foundation.Pool
import AgentGrid.Foundation.Table
import Mathlib.Data.List.Sort

/-!
# Sealed adapter environment

The rows of `adapter_env`, one ciphertext for each node an entry is meant for,
and the public keys the nodes announced.  `upsert_adapter_env`,
`set_node_public_key`, `seal_legacy_adapter_env` and `remove_adapter_env` are
programs of their standalone reads and transactions.

A ciphertext is ideal: it opens for the holder of the key it was sealed to, for
the entry and the node it was sealed for, and for nobody else.  Foreign keys are
on: a ciphertext is refused for an entry that is gone, and goes with its entry.
-/

namespace AgentGrid.Store.AdapterEnv

open AgentGrid.Foundation

structure SealedBlob where
  recipient : String
  aad : String
  plaintext : String
deriving DecidableEq, Repr

/-- What the holder of the private half of `pub` reads, for an entry. -/
def SealedBlob.opens (blob : SealedBlob) (pub aad : String) : Option String :=
  if blob.recipient = pub ∧ blob.aad = aad then some blob.plaintext else none

/-- Whether a text is the base64 of a key, and the first eight hexadecimal
digits of a value's hash. -/
structure Crypto where
  validKey : String → Bool
  fingerprint : String → String

def entryAad (nodeId adapter key : String) : String :=
  nodeId ++ "\x00" ++ adapter ++ "\x00" ++ key

def sealTo (C : Crypto) (pub plaintext aad : String) : Option SealedBlob :=
  if C.validKey pub then some ⟨pub, aad, plaintext⟩ else none

structure NodeRow where
  id : String
  publicKey : Option String := none
deriving DecidableEq, Repr

/-- The `node_id` of a global entry is the empty text. -/
structure Entry where
  id : Nat
  adapter : String
  key : String
  valueLegacy : String := ""
  nodeId : String := ""
  fingerprint : String := ""
  valueLen : Nat := 0
deriving DecidableEq, Repr

structure EnvDb where
  nodes : List NodeRow := []
  entries : List Entry := []
  lastId : Nat := 0
  sealedRows : Nat → String → Option SealedBlob := fun _ _ => none

namespace EnvDb

def publicKey (db : EnvDb) (node : String) : Option String :=
  (lookup NodeRow.id node db.nodes).bind NodeRow.publicKey

def allNodeIds (db : EnvDb) : List String :=
  (db.nodes.map NodeRow.id).insertionSort (· ≤ ·)

def nodePublicKeys (db : EnvDb) : List (String × String) :=
  db.allNodeIds.filterMap fun id => (db.publicKey id).map fun pub => (id, pub)

def entryFor (db : EnvDb) (adapter key nodeId : String) : Option Entry :=
  db.entries.find? fun e => e.adapter == adapter && e.key == key && e.nodeId == nodeId

/-- `INSERT .. ON CONFLICT (adapter, key, node_id) DO UPDATE`, and the id. -/
def putEntry (db : EnvDb) (adapter key nodeId fingerprint : String) (valueLen : Nat) :
    EnvDb × Nat :=
  match db.entryFor adapter key nodeId with
  | some e =>
      ({ db with
         entries := updateWhere (fun e' => e'.id == e.id)
           (fun e' => { e' with valueLegacy := "", fingerprint := fingerprint, valueLen := valueLen })
           db.entries }, e.id)
  | none =>
      ({ db with
         entries := db.entries ++ [⟨db.lastId + 1, adapter, key, "", nodeId, fingerprint, valueLen⟩]
         lastId := db.lastId + 1 }, db.lastId + 1)

def hasEntry (db : EnvDb) (id : Nat) : Bool := db.entries.any fun e => e.id == id

def putSealed (db : EnvDb) (id : Nat) (node : String) (blob : SealedBlob) : EnvDb :=
  { db with
    sealedRows := fun i n => if i = id ∧ n = node then some blob else db.sealedRows i n }

/-- One ciphertext for each of the keys; a key that is none, or an entry that is
gone, fails the transaction. -/
def sealAll (C : Crypto) (id : Nat) (adapter key value : String) :
    List (String × String) → EnvDb → Option EnvDb
  | [], db => some db
  | (node, pub) :: rest, db =>
      match sealTo C pub value (entryAad node adapter key) with
      | none => none
      | some blob =>
          if db.hasEntry id then sealAll C id adapter key value rest (db.putSealed id node blob)
          else none

end EnvDb

structure UpsertOutcome where
  id : Nat
  sealedFor : List String
  pending : List String
deriving DecidableEq, Repr

inductive EnvTx
  | nodePublicKeys
  | allNodeIds
  | storeEntry (adapter key value : String) (nodeId : Option String)
      (keys : List (String × String)) (targets : List String)
  | nodePublicKey (node : String)
  | replaceKey (node publicKey : String) (hadKey : Bool)
  | legacyRows
  | sealEntry (row : Entry) (keys : List (String × String))
  | deleteSealed (id : Nat)
  | deleteEntry (id : Nat)

@[reducible] def EnvTx.Reply : EnvTx → Type
  | .nodePublicKeys => List (String × String)
  | .allNodeIds => List String
  | .storeEntry _ _ _ _ _ _ => Option UpsertOutcome
  | .nodePublicKey _ => Option (Option String)
  | .replaceKey _ _ _ => Unit
  | .legacyRows => List Entry
  | .sealEntry _ _ => Option Nat
  | .deleteSealed _ => Unit
  | .deleteEntry _ => Nat

namespace EnvDb

variable (C : Crypto)

def storeEntry (db : EnvDb) (adapter key value : String) (nodeId : Option String)
    (keys : List (String × String)) (targets : List String) : EnvDb × Option UpsertOutcome :=
  let (stored, id) :=
    db.putEntry adapter key (nodeId.getD "") (C.fingerprint value) value.length
  let known := targets.filterMap fun t => (keys.lookup t).map fun pub => (t, pub)
  match stored.sealAll C id adapter key value known with
  | none => (db, none)
  | some done =>
      (done, some ⟨id, known.map Prod.fst, targets.filter fun t => (keys.lookup t).isNone⟩)

def replaceKey (db : EnvDb) (node publicKey : String) (hadKey : Bool) : EnvDb :=
  { db with
    nodes := updateWhere (fun n => n.id == node) (fun n => { n with publicKey := some publicKey })
      db.nodes
    sealedRows := fun i n => if hadKey ∧ n = node then none else db.sealedRows i n }

/-- One entry of `seal_legacy_adapter_env`, as it was read. -/
def sealEntry (db : EnvDb) (row : Entry) (keys : List (String × String)) :
    EnvDb × Option Nat :=
  let meant := keys.filter fun k => row.nodeId.isEmpty || row.nodeId == k.1
  match db.sealAll C row.id row.adapter row.key row.valueLegacy meant with
  | none => (db, none)
  | some done =>
      ({ done with
         entries := updateWhere (fun e => e.id == row.id)
           (fun e => { e with
             valueLegacy := ""
             fingerprint := C.fingerprint row.valueLegacy
             valueLen := row.valueLegacy.length }) done.entries }, some meant.length)

def deleteSealed (db : EnvDb) (id : Nat) : EnvDb :=
  { db with sealedRows := fun i n => if i = id then none else db.sealedRows i n }

/-- The ciphertexts of the entry go with it (`ON DELETE CASCADE`). -/
def deleteEntry (db : EnvDb) (id : Nat) : EnvDb × Nat :=
  ({ db.deleteSealed id with entries := db.entries.filter fun e => e.id != id },
    db.entries.countP fun e => e.id == id)

end EnvDb

def exec (C : Crypto) : (tx : EnvTx) → EnvDb → EnvDb × tx.Reply
  | .nodePublicKeys, db => (db, db.nodePublicKeys)
  | .allNodeIds, db => (db, db.allNodeIds)
  | .storeEntry adapter key value nodeId keys targets, db =>
      db.storeEntry C adapter key value nodeId keys targets
  | .nodePublicKey node, db => (db, (lookup NodeRow.id node db.nodes).map NodeRow.publicKey)
  | .replaceKey node publicKey hadKey, db => (db.replaceKey node publicKey hadKey, ())
  | .legacyRows, db => (db, db.entries.filter fun e => e.valueLegacy != "")
  | .sealEntry row keys, db => db.sealEntry C row keys
  | .deleteSealed id, db => (db.deleteSealed id, ())
  | .deleteEntry id, db => db.deleteEntry id

abbrev Program (α : Type) : Type := Prog EnvTx EnvTx.Reply Empty α

def ask (tx : EnvTx) : Program tx.Reply := .call [] tx .ret

inductive Answer
  | stored (outcome : UpsertOutcome)
  | changed (key : Bool)
  | sealedLegacy (entries blobs : Nat)
  | removed (rows : Nat)
  | failed
deriving DecidableEq, Repr

def upsertAdapterEnv (adapter key value : String) (nodeId : Option String) :
    Program Answer := do
  let keys ← ask .nodePublicKeys
  let targets ← match nodeId with
    | some n => pure [n]
    | none => ask .allNodeIds
  match ← ask (.storeEntry adapter key value nodeId keys targets) with
  | some outcome => pure (.stored outcome)
  | none => pure .failed

def setNodePublicKey (nodeId publicKey : String) : Program Answer := do
  match ← ask (.nodePublicKey nodeId) with
  | none => pure (.changed false)
  | some current =>
      if current = some publicKey then
        pure (.changed false)
      else
        let _ ← ask (.replaceKey nodeId publicKey current.isSome)
        pure (.changed true)

def sealRows (keys : List (String × String)) : List Entry → Nat → Nat → Program Answer
  | [], entries, blobs => pure (.sealedLegacy entries blobs)
  | row :: rest, entries, blobs => do
      match ← ask (.sealEntry row keys) with
      | none => pure .failed
      | some n => sealRows keys rest (entries + 1) (blobs + n)

def sealLegacyAdapterEnv : Program Answer := do
  let rows ← ask .legacyRows
  if rows.isEmpty then
    pure (.sealedLegacy 0 0)
  else
    let keys ← ask .nodePublicKeys
    sealRows keys rows 0 0

def removeAdapterEnv (id : Nat) : Program Answer := do
  let _ ← ask (.deleteSealed id)
  let removed ← ask (.deleteEntry id)
  pure (.removed removed)

inductive Call
  | upsert (adapter key value : String) (nodeId : Option String)
  | setKey (nodeId publicKey : String)
  | sealLegacy
  | remove (id : Nat)
deriving DecidableEq, Repr

def Call.program : Call → Program Answer
  | .upsert adapter key value nodeId => upsertAdapterEnv adapter key value nodeId
  | .setKey nodeId publicKey => setNodePublicKey nodeId publicKey
  | .sealLegacy => sealLegacyAdapterEnv
  | .remove id => removeAdapterEnv id

/-- A node enrolls, without a key at first. -/
structure Enroll where
  id : String

def Enroll.apply (e : Enroll) (db : EnvDb) : Option EnvDb :=
  match lookup NodeRow.id e.id db.nodes with
  | some _ => none
  | none => some { db with nodes := db.nodes ++ [⟨e.id, none⟩] }

abbrev EnvPool : Type := Pool EnvTx EnvTx.Reply Empty Answer EnvDb

abbrev EnvEvent : Type := Pool.Event Call Enroll Unit

def rules (C : Crypto) : Pool.Rules EnvTx EnvTx.Reply Empty Answer EnvDb Unit Call Enroll where
  program := Call.program
  run := fun _ tx db => exec C tx db
  other := Enroll.apply

/-! ## What stays current -/

/-- Every ciphertext belongs to an entry, is sealed to the key its node has, and
opens to a value with the fingerprint that the entry shows. -/
def Current (C : Crypto) (db : EnvDb) : Prop :=
  ∀ id node blob, db.sealedRows id node = some blob →
    ∃ e ∈ db.entries, e.id = id ∧ ∃ pub, db.publicKey node = some pub ∧
      ∃ value, blob.opens pub (entryAad node e.adapter e.key) = some value ∧
        C.fingerprint value = e.fingerprint

/-- What a call read before its transaction still decides the same for the nodes
of the entry: a key it read is the key of its node, and a node without one has
no ciphertext of the entry. -/
def EnvDb.stillReads (db : EnvDb) (id : Option Nat) (nodeId : String)
    (keys : List (String × String)) : Bool :=
  db.nodes.all fun n => !(nodeId.isEmpty || nodeId == n.id) ||
    match keys.lookup n.id with
    | some pub => db.publicKey n.id == some pub
    | none => id.all fun id => (db.sealedRows id n.id).isNone

/-- The transaction finds what the reads of its call found, and an entry for all
nodes is not written as one for the node without a name. -/
def undisturbed (db : EnvDb) : EnvTx → Bool
  | .storeEntry adapter key _ nodeId keys _ =>
      nodeId != some "" &&
        db.stillReads ((db.entryFor adapter key (nodeId.getD "")).map Entry.id) (nodeId.getD "") keys
  | .sealEntry row keys => db.stillReads (some row.id) row.nodeId keys
  | .replaceKey node _ hadKey => hadKey || (db.publicKey node).isNone
  | _ => true

structure Inv (C : Crypto) (db : EnvDb) : Prop where
  ids : (db.entries.map Entry.id).Nodup
  triples : ∀ e ∈ db.entries, ∀ e' ∈ db.entries, e.adapter = e'.adapter → e.key = e'.key →
    e.nodeId = e'.nodeId → e = e'
  fresh : ∀ e ∈ db.entries, e.id ≤ db.lastId
  scope : ∀ id node blob, db.sealedRows id node = some blob →
    ∀ e ∈ db.entries, e.id = id → e.nodeId = "" ∨ e.nodeId = node
  current : Current C db

/-- What no call changes: nodes stay, and an entry keeps its name under its id. -/
structure Grows (db db' : EnvDb) : Prop where
  nodes : ∀ n ∈ db.nodes, ∃ n' ∈ db'.nodes, n'.id = n.id
  last : db.lastId ≤ db'.lastId
  entries : ∀ e' ∈ db'.entries, e'.id ≤ db.lastId → ∃ e ∈ db.entries, e.id = e'.id ∧
    e.adapter = e'.adapter ∧ e.key = e'.key ∧ e.nodeId = e'.nodeId

theorem Grows.refl (db : EnvDb) : Grows db db :=
  ⟨fun n hn => ⟨n, hn, rfl⟩, le_refl _, fun e he _ => ⟨e, he, rfl, rfl, rfl, rfl⟩⟩

theorem Grows.trans {db db' db'' : EnvDb} (h : Grows db db') (h' : Grows db' db'') :
    Grows db db'' := by
  refine ⟨fun n hn => ?_, h.last.trans h'.last, fun e he hid => ?_⟩
  · obtain ⟨n', hn', hid⟩ := h.nodes n hn
    obtain ⟨n'', hn'', hid'⟩ := h'.nodes n' hn'
    exact ⟨n'', hn'', hid'.trans hid⟩
  · obtain ⟨e', he', hid', ha, hk, hn⟩ := h'.entries e he (hid.trans h.last)
    obtain ⟨e₀, he₀, hid₀, ha₀, hk₀, hn₀⟩ := h.entries e' he' (hid'.trans_le hid)
    exact ⟨e₀, he₀, hid₀.trans hid', ha₀.trans ha, hk₀.trans hk, hn₀.trans hn⟩

/-- Updates of the entries that leave their names. -/
theorem Grows.of_update {db db' : EnvDb} {p : Entry → Bool} {f : Entry → Entry}
    (hnodes : db'.nodes = db.nodes) (hlast : db'.lastId = db.lastId)
    (hentries : db'.entries = updateWhere p f db.entries)
    (hf : ∀ e, (f e).id = e.id ∧ (f e).adapter = e.adapter ∧ (f e).key = e.key ∧
      (f e).nodeId = e.nodeId) : Grows db db' := by
  refine ⟨fun n hn => ⟨n, by rw [hnodes]; exact hn, rfl⟩, hlast.ge, fun e he _ => ?_⟩
  rw [hentries] at he
  obtain ⟨old, hold, rfl⟩ := mem_updateWhere.mp he
  refine ⟨old, hold, ?_⟩
  split
  · obtain ⟨hid, ha, hk, hn⟩ := hf old
    exact ⟨hid.symm, ha.symm, hk.symm, hn.symm⟩
  · exact ⟨rfl, rfl, rfl, rfl⟩

section Sealing

variable {C : Crypto} {db db' : EnvDb} {id : Nat} {adapter key value : String}
  {pairs : List (String × String)}

/-- What `sealAll` writes: the value for each of the keys, and nothing else. -/
theorem sealAll_spec (h : db.sealAll C id adapter key value pairs = some db') :
    db'.nodes = db.nodes ∧ db'.entries = db.entries ∧ db'.lastId = db.lastId ∧
      (pairs ≠ [] → db.hasEntry id = true) ∧
      ∀ i n, (i = id ∧ ∃ pub, (n, pub) ∈ pairs ∧
          db'.sealedRows i n = some ⟨pub, entryAad n adapter key, value⟩) ∨
        (i = id → ∀ pub, (n, pub) ∉ pairs) ∧ db'.sealedRows i n = db.sealedRows i n := by
  induction pairs generalizing db with
  | nil =>
      cases h
      exact ⟨rfl, rfl, rfl, fun hne => absurd rfl hne,
        fun i n => .inr ⟨fun _ _ => List.not_mem_nil, rfl⟩⟩
  | cons pair rest ih =>
      obtain ⟨node, pub⟩ := pair
      rw [EnvDb.sealAll] at h
      split at h
      · cases h
      · rename_i blob hblob
        split at h
        · rename_i hentry
          have hsealed : blob = ⟨pub, entryAad node adapter key, value⟩ := by
            unfold sealTo at hblob
            split at hblob
            · exact (Option.some.inj hblob).symm
            · cases hblob
          obtain ⟨hnodes, hentries, hlast, _, hrows⟩ := ih h
          refine ⟨hnodes, hentries, hlast, fun _ => hentry, fun i n => ?_⟩
          obtain ⟨hid, pub', hmem, hrow⟩ | ⟨hnone, hrow⟩ := hrows i n
          · exact .inl ⟨hid, pub', List.mem_cons_of_mem _ hmem, hrow⟩
          · by_cases hhit : i = id ∧ n = node
            · obtain ⟨rfl, rfl⟩ := hhit
              refine .inl ⟨rfl, pub, List.mem_cons_self, ?_⟩
              rw [hrow, EnvDb.putSealed, ← hsealed]
              simp
            · refine .inr ⟨fun hid pub' hmem => ?_, ?_⟩
              · rcases List.mem_cons.mp hmem with heq | hmem
                · exact hhit ⟨hid, (Prod.mk.inj heq).1⟩
                · exact hnone hid pub' hmem
              · rw [hrow, EnvDb.putSealed]
                simp [hhit]
        · cases h

/-- The entry under an id is written with a fingerprint; every other entry is as it
was. -/
structure Rewritten (db db' : EnvDb) (id : Nat) (adapter key nodeId fingerprint : String) :
    Prop where
  nodes : db'.nodes = db.nodes
  ids : (db'.entries.map Entry.id).Nodup
  triples : ∀ e ∈ db'.entries, ∀ e' ∈ db'.entries, e.adapter = e'.adapter → e.key = e'.key →
    e.nodeId = e'.nodeId → e = e'
  fresh : ∀ e ∈ db'.entries, e.id ≤ db'.lastId
  kept : ∀ e ∈ db.entries, e.id ≠ id → e ∈ db'.entries
  old : ∀ e ∈ db'.entries, e.id ≠ id → e ∈ db.entries
  entry : ∀ e ∈ db'.entries, e.id = id → e.adapter = adapter ∧ e.key = key ∧
    e.nodeId = nodeId ∧ e.fingerprint = fingerprint
  grows : Grows db db'

theorem Rewritten.update {f : Entry → Entry} {nodeId fingerprint : String} (hdb : Inv C db)
    (hnodes : db'.nodes = db.nodes) (hlast : db'.lastId = db.lastId)
    (hentries : db'.entries = updateWhere (fun e => e.id == id) f db.entries)
    (hf : ∀ e, (f e).id = e.id ∧ (f e).adapter = e.adapter ∧ (f e).key = e.key ∧
      (f e).nodeId = e.nodeId)
    (hfingerprint : ∀ e, (f e).fingerprint = fingerprint)
    (hentry : ∀ e ∈ db.entries, e.id = id → e.adapter = adapter ∧ e.key = key ∧
      e.nodeId = nodeId) :
    Rewritten db db' id adapter key nodeId fingerprint := by
  have hback : ∀ e' ∈ db'.entries, ∃ e ∈ db.entries, (if e.id == id then f e else e) = e' ∧
      e.id = e'.id ∧ e.adapter = e'.adapter ∧ e.key = e'.key ∧ e.nodeId = e'.nodeId := by
    intro e' he'
    rw [hentries] at he'
    obtain ⟨e, he, rfl⟩ := mem_updateWhere.mp he'
    refine ⟨e, he, rfl, ?_⟩
    split
    · obtain ⟨h₁, h₂, h₃, h₄⟩ := hf e
      exact ⟨h₁.symm, h₂.symm, h₃.symm, h₄.symm⟩
    · exact ⟨rfl, rfl, rfl, rfl⟩
  constructor
  · exact hnodes
  · rw [hentries, map_updateWhere_of_key fun e => (hf e).1]
    exact hdb.ids
  · intro e' he' e'' he'' ha hk hn
    obtain ⟨e₁, he₁, rfl, _, ha₁, hk₁, hn₁⟩ := hback e' he'
    obtain ⟨e₂, he₂, rfl, _, ha₂, hk₂, hn₂⟩ := hback e'' he''
    obtain rfl := hdb.triples e₁ he₁ e₂ he₂ (ha₁.trans (ha.trans ha₂.symm))
      (hk₁.trans (hk.trans hk₂.symm)) (hn₁.trans (hn.trans hn₂.symm))
    rfl
  · intro e' he'
    obtain ⟨e, he, _, hid, _⟩ := hback e' he'
    rw [← hid, hlast]
    exact hdb.fresh e he
  · intro e he hne
    rw [hentries]
    exact mem_updateWhere_of_not he (beq_false_of_ne hne)
  · intro e' he' hne
    obtain ⟨e, he, rfl, hid, _⟩ := hback e' he'
    rw [if_neg (by rw [beq_iff_eq, hid]; exact hne)]
    exact he
  · intro e' he' hid'
    obtain ⟨e, he, rfl, hid, ha, hk, hn⟩ := hback e' he'
    obtain ⟨ha', hk', hn'⟩ := hentry e he (hid.trans hid')
    refine ⟨ha.symm.trans ha', hk.symm.trans hk', hn.symm.trans hn', ?_⟩
    rw [if_pos (beq_iff_eq.mpr (hid.trans hid'))]
    exact hfingerprint e
  · exact .of_update hnodes hlast hentries hf

theorem Rewritten.insert {nodeId fingerprint : String} {new : Entry} (hdb : Inv C db)
    (hnodes : db'.nodes = db.nodes) (hlast : db'.lastId = db.lastId + 1)
    (hentries : db'.entries = db.entries ++ [new]) (hid : new.id = db.lastId + 1)
    (hnew : new.adapter = adapter ∧ new.key = key ∧ new.nodeId = nodeId ∧
      new.fingerprint = fingerprint)
    (habsent : ∀ e ∈ db.entries, ¬ (e.adapter = adapter ∧ e.key = key ∧ e.nodeId = nodeId)) :
    Rewritten db db' (db.lastId + 1) adapter key nodeId fingerprint := by
  have hcases : ∀ e ∈ db'.entries, e ∈ db.entries ∨ e = new := by
    intro e he
    rw [hentries] at he
    rcases List.mem_append.mp he with he | he
    · exact .inl he
    · exact .inr (List.mem_singleton.mp he)
  have hbelow : ∀ e ∈ db.entries, e.id ≠ db.lastId + 1 := by
    intro e he heq
    have := hdb.fresh e he
    omega
  obtain ⟨ha, hk, hn, hf⟩ := hnew
  constructor
  · exact hnodes
  · rw [hentries, List.map_append, List.map_singleton, List.nodup_append]
    refine ⟨hdb.ids, List.nodup_singleton _, ?_⟩
    intro i hi j hj hij
    obtain ⟨e, he, rfl⟩ := List.mem_map.mp hi
    rw [List.mem_singleton.mp hj, hid] at hij
    exact hbelow e he hij
  · intro e he e' he' h₁ h₂ h₃
    rcases hcases e he with hold | rfl <;> rcases hcases e' he' with hold' | rfl
    · exact hdb.triples e hold e' hold' h₁ h₂ h₃
    · exact absurd ⟨h₁.trans ha, h₂.trans hk, h₃.trans hn⟩ (habsent e hold)
    · exact absurd ⟨h₁.symm.trans ha, h₂.symm.trans hk, h₃.symm.trans hn⟩ (habsent e' hold')
    · rfl
  · intro e he
    rcases hcases e he with hold | rfl
    · rw [hlast]
      exact (hdb.fresh e hold).trans (Nat.le_succ _)
    · rw [hlast, hid]
  · intro e he _
    rw [hentries]
    exact List.mem_append_left _ he
  · intro e he hne
    rcases hcases e he with hold | rfl
    · exact hold
    · exact absurd hid hne
  · intro e he heid
    rcases hcases e he with hold | rfl
    · exact absurd heid (hbelow e hold)
    · exact ⟨ha, hk, hn, hf⟩
  · refine ⟨fun n hn => ⟨n, by rw [hnodes]; exact hn, rfl⟩, by omega, fun e he hle => ?_⟩
    rcases hcases e he with hold | rfl
    · exact ⟨e, hold, rfl, rfl, rfl, rfl⟩
    · omega

/-- The value is sealed for all the nodes that had a ciphertext of the entry, each
to its key. -/
theorem Inv.reseal {nodeId : String} (hdb : Inv C db)
    (h : Rewritten db db' id adapter key nodeId (C.fingerprint value))
    (hexists : pairs ≠ [] → ∃ e ∈ db'.entries, e.id = id)
    (hrows : ∀ i n, (i = id ∧ ∃ pub, (n, pub) ∈ pairs ∧
        db'.sealedRows i n = some ⟨pub, entryAad n adapter key, value⟩) ∨
      (i = id → ∀ pub, (n, pub) ∉ pairs) ∧ db'.sealedRows i n = db.sealedRows i n)
    (hpairs : ∀ n pub, (n, pub) ∈ pairs → db.publicKey n = some pub ∧
      (nodeId = "" ∨ nodeId = n))
    (hcover : ∀ n blob, db.sealedRows id n = some blob → ∃ pub, (n, pub) ∈ pairs) :
    Inv C db' := by
  have hpub : ∀ n, db'.publicKey n = db.publicKey n := fun n => by
    rw [EnvDb.publicKey, EnvDb.publicKey, h.nodes]
  -- a row that is not written is the row of another entry
  have hother : ∀ i n blob, db'.sealedRows i n = db.sealedRows i n →
      (i = id → ∀ pub, (n, pub) ∉ pairs) → db'.sealedRows i n = some blob → i ≠ id := by
    rintro i n blob hsame hnone hrow rfl
    obtain ⟨pub, hmem⟩ := hcover n blob (hsame.symm.trans hrow)
    exact hnone rfl pub hmem
  refine ⟨h.ids, h.triples, h.fresh, ?_, ?_⟩
  · intro i n blob hrow e he heid
    obtain ⟨rfl, pub, hmem, _⟩ | ⟨hnone, hsame⟩ := hrows i n
    · rw [(h.entry e he heid).2.2.1]
      exact (hpairs n pub hmem).2
    · have hne := hother i n blob hsame hnone hrow
      exact hdb.scope i n blob (hsame.symm.trans hrow) e (h.old e he (by rw [heid]; exact hne))
        heid
  · intro i n blob hrow
    obtain ⟨rfl, pub, hmem, hwritten⟩ | ⟨hnone, hsame⟩ := hrows i n
    · obtain ⟨e, he, heid⟩ := hexists (List.ne_nil_of_mem hmem)
      obtain ⟨ha, hk, _, hf⟩ := h.entry e he heid
      rw [hwritten] at hrow
      cases hrow
      refine ⟨e, he, heid, pub, ?_, value, ?_, hf.symm⟩
      · rw [hpub]
        exact (hpairs n pub hmem).1
      · rw [ha, hk]
        simp [SealedBlob.opens]
    · have hne := hother i n blob hsame hnone hrow
      obtain ⟨e, he, heid, pub, hkey, hopens⟩ :=
        hdb.current i n blob (hsame.symm.trans hrow)
      refine ⟨e, h.kept e he (by rw [heid]; exact hne), heid, pub, ?_, hopens⟩
      rw [hpub]
      exact hkey

end Sealing

end AgentGrid.Store.AdapterEnv
