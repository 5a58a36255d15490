import AgentGrid.Ha.Replication

/-!
# What carries a version number

Databases, snapshots, queued changesets and batches carry version numbers.
`Fleet.All` says that all of them have a property, and each step of the model
is described by what it does to them.
-/

namespace AgentGrid.Ha

open AgentGrid.Foundation

variable {δ κ : Type}

def Database.item (db : Database δ κ) : Item δ κ := .held db.replSeq db.version

def Job.item (j : Job κ) : Item δ κ := .link (j.seq - 1) j.seq [j.change]

def Batch.item (b : Batch κ) : Item δ κ := .link (b.firstSeq - 1) b.lastSeq b.changes

/-- What a node has besides its database. -/
def Replica.carried (r : Replica δ κ) : List (Item δ κ) :=
  r.snapshots.map (fun f => f.db.item) ++ r.incoming.toList.map (fun f => f.db.item) ++
    r.base.toList.map Database.item ++ r.queue.map Job.item

/-- What carries a number, apart from the database of `me`. -/
def Fleet.elsewhere (S : Setup δ κ) (s : Fleet δ κ) (me : NodeId) : List (Item δ κ) :=
  (S.data.filter (· != me)).map (fun id => (s.replica id).db.item) ++
    S.data.flatMap (fun id => (s.replica id).carried) ++ s.batches.map Batch.item

structure Replica.All (P : Item δ κ → Prop) (r : Replica δ κ) : Prop where
  db : P r.db.item
  snapshots : ∀ f ∈ r.snapshots, P f.db.item
  incoming : ∀ f, r.incoming = some f → P f.db.item
  base : ∀ db, r.base = some db → P db.item
  queue : ∀ j ∈ r.queue, P j.item

structure Fleet.All (S : Setup δ κ) (P : Item δ κ → Prop) (s : Fleet δ κ) : Prop where
  replicas : ∀ id ∈ S.data, (s.replica id).All P
  batches : ∀ b ∈ s.batches, P b.item

section All

variable {S : Setup δ κ} {P Q : Item δ κ → Prop} {s : Fleet δ κ} {me : NodeId}
  {r : Replica δ κ}

theorem Replica.All.of_carried (hdb : P r.db.item) (h : ∀ item ∈ r.carried, P item) :
    r.All P where
  db := hdb
  snapshots f hf := h _ (by
    simp only [Replica.carried, List.mem_append, List.mem_map]
    exact .inl (.inl (.inl ⟨f, hf, rfl⟩)))
  incoming f hf := h _ (by
    simp only [Replica.carried, List.mem_append, List.mem_map]
    exact .inl (.inl (.inr ⟨f, by simp [hf], rfl⟩)))
  base db hdb := h _ (by
    simp only [Replica.carried, List.mem_append, List.mem_map]
    exact .inl (.inr ⟨db, by simp [hdb], rfl⟩))
  queue j hj := h _ (by
    simp only [Replica.carried, List.mem_append, List.mem_map]
    exact .inr ⟨j, hj, rfl⟩)

theorem Replica.All.carried (h : r.All P) {item : Item δ κ} (hitem : item ∈ r.carried) :
    P item := by
  simp only [Replica.carried, List.mem_append, List.mem_map, Option.mem_toList] at hitem
  obtain ((⟨f, hf, rfl⟩ | ⟨f, hf, rfl⟩) | ⟨db, hdb, rfl⟩) | ⟨j, hj, rfl⟩ := hitem
  · exact h.snapshots f hf
  · exact h.incoming f hf
  · exact h.base db hdb
  · exact h.queue j hj

theorem Fleet.All.elsewhere (h : s.All S P) {item : Item δ κ}
    (hitem : item ∈ s.elsewhere S me) : P item := by
  simp only [Fleet.elsewhere, List.mem_append, List.mem_map, List.mem_flatMap] at hitem
  obtain (⟨id, hid, rfl⟩ | ⟨id, hid, hcarried⟩) | ⟨b, hb, rfl⟩ := hitem
  · exact (h.replicas id (List.mem_filter.mp hid).1).db
  · exact (h.replicas id hid).carried hcarried
  · exact h.batches b hb

theorem Fleet.replica_put_self : (s.put me r).replica me = r := if_pos rfl

theorem Fleet.replica_put_ne {id : NodeId} (h : id ≠ me) :
    (s.put me r).replica id = s.replica id :=
  if_neg h

theorem Fleet.db_elsewhere {id : NodeId} (hid : id ∈ S.data) (hne : id ≠ me) :
    (s.replica id).db.item ∈ s.elsewhere S me := by
  simp only [Fleet.elsewhere, List.mem_append, List.mem_map]
  exact .inl (.inl ⟨id, List.mem_filter.mpr ⟨hid, by simpa using hne⟩, rfl⟩)

theorem Fleet.carried_elsewhere {id : NodeId} (hid : id ∈ S.data) {item : Item δ κ}
    (hitem : item ∈ (s.replica id).carried) : item ∈ s.elsewhere S me := by
  simp only [Fleet.elsewhere, List.mem_append, List.mem_flatMap]
  exact .inl (.inr ⟨id, hid, hitem⟩)

/-- A step on one node: everything elsewhere, and what the node now has, have
the property. -/
theorem Fleet.All.put_of (helse : ∀ item ∈ s.elsewhere S me, P item)
    (hr : me ∈ S.data → r.All P) : (s.put me r).All S P where
  replicas id hid := by
    by_cases hme : id = me
    · subst hme
      rw [Fleet.replica_put_self]
      exact hr hid
    · rw [Fleet.replica_put_ne hme]
      exact .of_carried (helse _ (Fleet.db_elsewhere hid hme)) fun item hitem =>
        helse item (Fleet.carried_elsewhere hid hitem)
  batches b hb := by
    apply helse
    simp only [Fleet.elsewhere, List.mem_append, List.mem_map]
    exact .inr ⟨b, hb, rfl⟩

theorem Fleet.All.put (h : s.All S P) (hr : me ∈ S.data → r.All P) :
    (s.put me r).All S P :=
  .put_of (fun _ hitem => h.elsewhere hitem) hr

theorem Replica.All.imp (h : r.All P) (himp : ∀ item, P item → Q item) : r.All Q where
  db := himp _ h.db
  snapshots f hf := himp _ (h.snapshots f hf)
  incoming f hf := himp _ (h.incoming f hf)
  base db hdb := himp _ (h.base db hdb)
  queue j hj := himp _ (h.queue j hj)

theorem Fleet.All.imp (h : s.All S P) (himp : ∀ item, P item → Q item) : s.All S Q where
  replicas id hid := (h.replicas id hid).imp himp
  batches b hb := himp _ (h.batches b hb)

theorem Fleet.All.answer (h : s.All S P) {b : Batch κ} {peer : NodeId}
    (outcome : ApplyOutcome) : (s.answer b peer outcome).All S P := by
  cases outcome with
  | applied seq => exact ⟨h.replicas, h.batches⟩
  | duplicate => exact ⟨h.replicas, h.batches⟩
  | rejected appliedSeq why =>
      exact h.put fun hsender =>
        have hr := h.replicas b.sender hsender
        { hr with }

/-! ## Operations -/

theorem changeset_all {b : Batch κ} (h : r.All P)
    (hdb : P (applyChangesetBatch S r.db b).1.item) : (changeset S r b).1.All P := by
  unfold changeset
  split
  · exact h
  · split
    · exact h
    · split
      · exact h
      · dsimp only
        split
        all_goals
          rename_i heq
          rw [heq] at hdb
          exact { h with db := hdb }

theorem snapshotFile_mem {epoch seq : Nat} {f : Snapshot δ κ}
    (h : r.snapshotFile epoch seq = some f) : f ∈ r.snapshots :=
  List.mem_of_find?_eq_some h

theorem wanted_all {leader : Replica δ κ} {f : Snapshot δ κ} (hleader : leader.All P)
    (h : wanted r leader = some f) : P f.db.item := by
  unfold wanted at h
  split at h
  · split at h
    · exact hleader.snapshots f (snapshotFile_mem h)
    · cases h
  · cases h

theorem installSnapshot_all {f : Snapshot δ κ} (hr : r.All P) (hf : P f.db.item) :
    (installSnapshot r f).All P := by
  unfold installSnapshot
  dsimp only
  split
  · exact { hr with incoming := by simp }
  · exact { hr with
      db := hf
      incoming := by simp
      base := by
        rintro db ⟨⟩
        exact hf }

theorem restoreLocalBase_all {r' : Replica δ κ} (hr : r.All P)
    (h : restoreLocalBase r = some r') : r'.All P := by
  unfold restoreLocalBase at h
  split at h
  · cases h
  · rename_i base hbase
    split at h
    · cases h
    · obtain rfl := Option.some.inj h
      exact { hr with db := hr.base base hbase }

theorem restart_all (hr : r.All P) : (restart r).All P :=
  { hr with
    incoming := by simp [restart]
    queue := by simp [restart] }

/-- The snapshot `create` writes is a copy of the database. -/
theorem createSnapshot_carried {createdUnix : Int} {item : Item δ κ}
    (hitem : item ∈ (createSnapshot S me r createdUnix).carried) :
    item ∈ r.carried ∨ item = (createSnapshot S me r createdUnix).db.item := by
  unfold createSnapshot at hitem ⊢
  dsimp only at hitem ⊢
  split at hitem
  · exact .inl hitem
  · simp only [Replica.carried, List.mem_append, List.mem_map] at hitem ⊢
    rcases hitem with ((⟨f, hf, rfl⟩ | hincoming) | hbase) | hqueue
    · rcases List.mem_cons.mp (List.mem_of_mem_take hf) with rfl | hother
      · exact .inr rfl
      · exact .inl (.inl (.inl (.inl ⟨f, (List.mem_filter.mp hother).1, rfl⟩)))
    · exact .inl (.inl (.inl (.inr hincoming)))
    · exact .inl (.inl (.inr hbase))
    · exact .inl (.inr hqueue)

theorem createSnapshot_all {createdUnix : Int} (hr : r.All P)
    (hdb : P (createSnapshot S me r createdUnix).db.item) :
    (createSnapshot S me r createdUnix).All P := by
  refine .of_carried hdb fun item hitem => ?_
  rcases createSnapshot_carried hitem with hold | rfl
  · exact hr.carried hold
  · exact hdb

theorem createSnapshot_db (S : Setup δ κ) (me : NodeId) (r : Replica δ κ)
    (createdUnix : Int) :
    (createSnapshot S me r createdUnix).db =
      if (reusable r).isSome then r.db else { r.db with replSeq := snapshotSeq S me r } := by
  have hsame : reusable { r with snapshotRequest := false } = reusable r := rfl
  unfold createSnapshot
  dsimp only
  rw [hsame]
  cases reusable r <;> rfl

section Commit

variable {c : κ} {contents : δ}

theorem Setup.numbers_iff : S.numbers me c = true ↔
    S.replicates me = true ∧ ¬ S.maxChangesetBytes < S.sql.bytes c := by
  simp [Setup.numbers]

theorem commit_of_numbers (h : S.numbers me c = true) :
    commit S me r c contents =
      { r with
        db := { r.db.write contents c with replSeq := r.db.replSeq + 1 }
        admittedWrites := r.admittedWrites + 1
        rewind := r.rewind.push S.sql (r.db.replSeq + 1) c
        queue := r.queue ++ [⟨r.db.replSeq + 1, c⟩]
        appliedSeq := if S.rpoMode me = .async then r.db.replSeq + 1 else r.appliedSeq } := by
  obtain ⟨hreplicates, hfits⟩ := Setup.numbers_iff.mp h
  simp only [commit, hreplicates, if_true, if_neg hfits]
  rfl

theorem commit_of_not_numbers (r : Replica δ κ) (contents : δ)
    (h : S.numbers me c = false) :
    ∃ request, commit S me r c contents =
      { r with
        db := r.db.write contents c
        admittedWrites := r.admittedWrites + 1
        snapshotRequest := request } := by
  unfold commit
  dsimp only
  split
  · rename_i hreplicates
    split
    · exact ⟨true, rfl⟩
    · rename_i hfits
      rw [Setup.numbers_iff.mpr ⟨hreplicates, hfits⟩] at h
      cases h
  · exact ⟨r.snapshotRequest, rfl⟩

end Commit

theorem installSnapshot_role {f : Snapshot δ κ} : (installSnapshot r f).role = r.role := by
  unfold installSnapshot
  dsimp only
  split <;> rfl

theorem restoreLocalBase_role {r' : Replica δ κ} (h : restoreLocalBase r = some r') :
    r'.role = r.role := by
  unfold restoreLocalBase at h
  split at h
  · cases h
  · split at h
    · cases h
    · obtain rfl := Option.some.inj h
      rfl

theorem demoteReplica_role {inTime : Bool} :
    (demoteReplica S me r inTime).role ≠ .leader := by
  unfold demoteReplica
  split
  · assumption
  · dsimp only
    split
    · split
      · split <;> simp [Replica.condemn]
      · simp [Replica.condemn]
    · simp

/-! ## Steps -/

variable [DecidableEq κ] {s' : Fleet δ κ} {e : ReplEvent κ}

/-- What a step can be. -/
theorem ReplStep.cases (h : ReplStep S s e s') : e.node ∈ S.data ∧
    ((∃ me count r b, e = .push me count ∧
        pushBatch me (s.replica me) count = some (r, b) ∧
        s' = { s.put me r with batches := b :: s.batches }) ∨
      (∃ b peer replied, e = .deliver b peer replied ∧ b ∈ s.batches ∧
        s' = if replied then
            (s.put peer (changeset S (s.replica peer) b).1).answer b peer
              (changeset S (s.replica peer) b).2
          else s.put peer (changeset S (s.replica peer) b).1) ∨
      (∃ b, e = .drop b ∧ s' = { s with batches := s.batches.erase b }) ∨
      (∃ r, replicaStep S s e.node (s.replica e.node) e = some r ∧ s' = s.put e.node r)) := by
  unfold ReplStep replStep at h
  split at h
  · cases h
  · rename_i hmember
    refine ⟨not_not.mp hmember, ?_⟩
    clear hmember
    split at h
    · rename_i me count
      obtain ⟨⟨r, b⟩, hpush, rfl⟩ := Option.map_eq_some_iff.mp h
      exact .inl ⟨me, count, r, b, rfl, hpush, rfl⟩
    · rename_i b peer replied
      split at h
      · rename_i hsent
        exact .inr (.inl ⟨b, peer, replied, rfl, hsent.1, (Option.some.inj h).symm⟩)
      · cases h
    · rename_i b
      exact .inr (.inr (.inl ⟨b, rfl, (Option.some.inj h).symm⟩))
    · obtain ⟨r, hr, rfl⟩ := Option.map_eq_some_iff.mp h
      exact .inr (.inr (.inr ⟨r, hr, rfl⟩))

/-- The steps that write no version: they move copies around. -/
def ReplEvent.quiet : ReplEvent κ → Bool
  | .commit _ _ | .createSnapshot _ _ | .promote _ _ | .demote _ _ => false
  | _ => true

theorem replicaStep_quiet (h : s.All S P) (hme : e.node ∈ S.data)
    (hstep : replicaStep S s e.node (s.replica e.node) e = some r)
    (hquiet : e.quiet = true) : r.All P := by
  have hr := h.replicas e.node hme
  cases e with
  | commit me c => cases hquiet
  | createSnapshot me createdUnix => cases hquiet
  | promote me term => cases hquiet
  | demote me inTime => cases hquiet
  | push id count => cases hstep
  | deliver b peer replied => cases hstep
  | drop b => cases hstep
  | replicated id b awaited =>
      obtain ⟨_, hnoted⟩ := Option.ite_none_right_eq_some.mp hstep
      obtain rfl := Option.some.inj hnoted
      exact { hr with }
  | missed id =>
      obtain rfl := Option.some.inj hstep
      exact { hr with }
  | download id leader =>
      obtain ⟨hcan, hfound⟩ := Option.ite_none_right_eq_some.mp hstep
      obtain ⟨f, hf, rfl⟩ := Option.map_eq_some_iff.mp hfound
      have hholds := wanted_all (h.replicas leader hcan.2.2.1) hf
      exact { hr with
        incoming := by
          rintro g ⟨⟩
          exact hholds }
  | abandon id =>
      obtain rfl := Option.some.inj hstep
      exact { hr with incoming := by simp }
  | install id =>
      obtain ⟨f, hf, rfl⟩ := Option.map_eq_some_iff.mp hstep
      exact installSnapshot_all hr (hr.incoming f hf)
  | restoreBase id =>
      obtain ⟨_, hrestored⟩ := Option.ite_none_right_eq_some.mp hstep
      exact restoreLocalBase_all hr hrestored
  | crash id =>
      obtain rfl := Option.some.inj hstep
      exact restart_all hr

end All

end AgentGrid.Ha
