import AgentGrid.Ha.LogAgreement

/-!
# Completeness of replication under one leader

While one node stays the leader nothing carries a number above its own, so
every number it takes is fresh.  A commit without a number is what remains: it
leaves a standby behind that has the leader's number and not its tables, and
that no batch and no snapshot repairs.
-/

namespace AgentGrid.Ha

open AgentGrid.Foundation

variable {δ κ : Type}

/-- The step leaves the leader in office. -/
def ReplEvent.keepsLeader (leader : NodeId) : ReplEvent κ → Bool
  | .promote _ _ => false
  | .demote me _ => me != leader
  | .crash me => me != leader
  | _ => true

/-- Nothing the leader ships is left to receive: its queue is empty, no snapshot
is due, the batches in flight are behind the standby and it needs no snapshot. -/
structure CaughtUp (S : Setup δ κ) (s : Fleet δ κ) (leader id : NodeId) : Prop where
  queue : (s.replica leader).queue = []
  request : (s.replica leader).snapshotRequest = false
  batches : ∀ b ∈ s.batches, (changeset S (s.replica id) b).2 = .duplicate
  snapshot : wanted (s.replica id) (s.replica leader) = none

/-! ## One leader -/

/-- Every number is at most `k`. -/
def Below (k : Nat) (item : Item δ κ) : Prop := ∀ n ∈ item.numbers, n ≤ k

/-- The leader: it downloads nothing, and its queue is numbered up to its
database. -/
structure Incumbent (S : Setup δ κ) (me : NodeId) (r : Replica δ κ) : Prop where
  office : r.role = .leader
  idle : r.incoming = none
  ordered : consecutive (r.queue.map Job.seq ++ [r.db.replSeq + 1]) = true
  plain : S.replicates me = false → r.queue = []

structure Follower (r : Replica δ κ) : Prop where
  standby : r.role ≠ .leader
  queue : r.queue = []

structure Led (S : Setup δ κ) (leader : NodeId) (s : Fleet δ κ) : Prop where
  member : leader ∈ S.data
  incumbent : Incumbent S leader (s.replica leader)
  followers : ∀ id ∈ S.data, id ≠ leader → Follower (s.replica id)
  below : s.All S (Below (s.replica leader).db.replSeq)

section Queue

theorem consecutive_append {l m : List Nat} (h : consecutive (l ++ m) = true) :
    consecutive l = true ∧ consecutive m = true := by
  induction l with
  | nil => exact ⟨rfl, h⟩
  | cons first rest ih =>
      cases rest with
      | nil =>
          cases m with
          | nil => exact ⟨rfl, rfl⟩
          | cons second more =>
              simp only [List.cons_append, List.nil_append, consecutive,
                Bool.and_eq_true] at h
              exact ⟨rfl, h.2⟩
      | cons second more =>
          simp only [List.cons_append, consecutive, Bool.and_eq_true] at h ih ⊢
          obtain ⟨hfirst, hrest⟩ := ih h.2
          exact ⟨⟨h.1, hfirst⟩, hrest⟩

theorem consecutive_snoc {l : List Nat} {n : Nat} (h : consecutive (l ++ [n]) = true) :
    consecutive (l ++ [n] ++ [n + 1]) = true := by
  induction l with
  | nil => simp [consecutive]
  | cons first rest ih =>
      cases rest with
      | nil =>
          simp only [List.cons_append, List.nil_append, consecutive, Bool.and_true] at h ⊢
          simp [h]
      | cons second more =>
          simp only [List.cons_append, consecutive, Bool.and_eq_true] at h ih ⊢
          exact ⟨h.1, ih h.2⟩

end Queue

section Steps

variable {S : Setup δ κ} {s : Fleet δ κ} {r : Replica δ κ} {me : NodeId} {k k' : Nat}

theorem Below.mono {item : Item δ κ} (h : Below k item) (hle : k ≤ k') : Below k' item :=
  fun n hn => (h n hn).trans hle

theorem below_db {db : Database δ κ} : Below k db.item ↔ db.replSeq ≤ k := by
  simp [Below, Database.item, Item.numbers]

/-- What is below the leader's number allows it to take the next one. -/
theorem noneAbove_of_below (h : s.All S (Below (s.replica me).db.replSeq)) :
    s.noneAbove S me = true :=
  List.all_eq_true.mpr fun _ hitem => List.all_eq_true.mpr fun n hn =>
    decide_eq_true (h.elsewhere hitem n hn)

theorem applyChangesetBatch_below {db : Database δ κ} {b : Batch κ}
    (hdb : Below k db.item) (hb : Below k (Batch.item (δ := δ) b)) :
    Below k (applyChangesetBatch S db b).1.item := by
  unfold applyChangesetBatch
  dsimp only
  split
  · exact hdb
  · split
    · exact hdb
    · split
      · exact hdb
      · cases S.sql.applyAll db.version.contents b.changes with
        | none => exact hdb
        | some contents =>
            exact below_db.mpr (hb b.lastSeq (by simp [Batch.item, Item.numbers]))

theorem pushBatch_below {count : Nat} {r' : Replica δ κ} {b : Batch κ}
    (hr : r.All (Below k)) (h : pushBatch me r count = some (r', b)) :
    r'.All (Below k) ∧ Below k (Batch.item (δ := δ) b) := by
  unfold pushBatch at h
  split at h
  · cases h
  · rename_i job jobs htake
    obtain ⟨rfl, rfl⟩ := Prod.mk.inj (Option.some.inj h)
    have hseq : ∀ j ∈ job :: jobs, j.seq ≤ k := fun j hj =>
      hr.queue j (List.mem_of_mem_take (htake ▸ hj)) j.seq (by simp [Job.item, Item.numbers])
    have hfirst := hseq job (List.mem_cons_self ..)
    have hlast := hseq ((job :: jobs).getLast (by simp)) (List.getLast_mem _)
    refine ⟨{ hr with queue := fun j hj => hr.queue j (List.mem_of_mem_drop hj) }, ?_⟩
    intro n hn
    simp only [Batch.item, Item.numbers, List.mem_cons, List.not_mem_nil, or_false] at hn
    omega

theorem pushBatch_db {count : Nat} {r' : Replica δ κ} {b : Batch κ}
    (h : pushBatch me r count = some (r', b)) : r'.db = r.db := by
  unfold pushBatch at h
  split at h
  · cases h
  · obtain ⟨rfl, _⟩ := Prod.mk.inj (Option.some.inj h)
    rfl

theorem commit_below {c : κ} {contents : δ} (hr : r.All (Below r.db.replSeq)) :
    r.db.replSeq ≤ (commit S me r c contents).db.replSeq ∧
      (commit S me r c contents).All (Below (commit S me r c contents).db.replSeq) := by
  cases hnumbers : S.numbers me c with
  | true =>
      rw [commit_of_numbers hnumbers]
      have hle : r.db.replSeq ≤ r.db.replSeq + 1 := Nat.le_succ _
      refine ⟨hle, ?_⟩
      have hr' := hr.imp fun _ hitem => hitem.mono hle
      refine { hr' with db := below_db.mpr le_rfl, queue := fun j hj => ?_ }
      rcases List.mem_append.mp hj with hold | hnew
      · exact hr'.queue j hold
      · rw [List.mem_singleton.mp hnew]
        simp [Below, Job.item, Item.numbers]
  | false =>
      obtain ⟨request, hcommit⟩ := commit_of_not_numbers r contents hnumbers
      rw [hcommit]
      exact ⟨le_rfl, { hr with db := below_db.mpr le_rfl }⟩

theorem commit_incumbent {c : κ} {contents : δ} (h : Incumbent S me r) :
    Incumbent S me (commit S me r c contents) := by
  cases hnumbers : S.numbers me c with
  | true =>
      rw [commit_of_numbers hnumbers]
      refine ⟨h.office, h.idle, ?_, ?_⟩
      · simpa using consecutive_snoc h.ordered
      · intro hmode
        rw [(Setup.numbers_iff.mp hnumbers).1] at hmode
        cases hmode
  | false =>
      obtain ⟨request, hcommit⟩ := commit_of_not_numbers r contents hnumbers
      rw [hcommit]
      exact { h with }

theorem createSnapshot_below {createdUnix : Int} (hr : r.All (Below r.db.replSeq)) :
    r.db.replSeq ≤ (createSnapshot S me r createdUnix).db.replSeq ∧
      (createSnapshot S me r createdUnix).All
        (Below (createSnapshot S me r createdUnix).db.replSeq) := by
  have hle : r.db.replSeq ≤ (createSnapshot S me r createdUnix).db.replSeq := by
    rw [createSnapshot_db]
    split
    · exact le_rfl
    · change r.db.replSeq ≤ snapshotSeq S me r
      unfold snapshotSeq
      split <;> omega
  refine ⟨hle, .of_carried (below_db.mpr le_rfl) fun item hitem => ?_⟩
  rcases createSnapshot_carried hitem with hold | rfl
  · exact (hr.carried hold).mono hle
  · exact below_db.mpr le_rfl

theorem createSnapshot_incumbent {createdUnix : Int} (h : Incumbent S me r) :
    Incumbent S me (createSnapshot S me r createdUnix) := by
  unfold createSnapshot
  dsimp only
  split
  · exact { h with }
  · refine { h with ordered := ?_ }
    cases hmode : S.replicates me with
    | true => simpa [snapshotSeq, hmode] using h.ordered
    | false =>
        change consecutive (r.queue.map Job.seq ++ [_]) = true
        rw [h.plain hmode]
        rfl

theorem changeset_follower {b : Batch κ} (h : Follower r) :
    Follower (changeset S r b).1 := by
  unfold changeset
  split
  · exact h
  · split
    · exact h
    · split
      · exact h
      · dsimp only
        split <;> exact ⟨h.standby, h.queue⟩

theorem changeset_leader {b : Batch κ} (h : r.role = .leader) :
    (changeset S r b).1 = r := by
  simp [changeset, h]

theorem installSnapshot_follower {f : Snapshot δ κ} (h : Follower r) :
    Follower (installSnapshot r f) := by
  refine ⟨installSnapshot_role.trans_ne h.standby, ?_⟩
  unfold installSnapshot
  dsimp only
  split <;> exact h.queue

theorem restoreLocalBase_follower {r' : Replica δ κ} (h : Follower r)
    (hrestored : restoreLocalBase r = some r') : Follower r' := by
  refine ⟨(restoreLocalBase_role hrestored).trans_ne h.standby, ?_⟩
  unfold restoreLocalBase at hrestored
  split at hrestored
  · cases hrestored
  · split at hrestored
    · cases hrestored
    · obtain rfl := Option.some.inj hrestored
      exact h.queue

variable {leader : NodeId}

theorem Led.put_leader (h : Led S leader s) (hr : Incumbent S leader r)
    (hle : (s.replica leader).db.replSeq ≤ r.db.replSeq)
    (hbelow : r.All (Below r.db.replSeq)) : Led S leader (s.put leader r) where
  member := h.member
  incumbent := by
    rw [Fleet.replica_put_self]
    exact hr
  followers id hid hne := by
    rw [Fleet.replica_put_ne hne]
    exact h.followers id hid hne
  below := by
    rw [Fleet.replica_put_self]
    exact .put (h.below.imp fun _ hitem => hitem.mono hle) fun _ => hbelow

theorem Led.put_follower (h : Led S leader s) (hne : me ≠ leader)
    (hr : me ∈ S.data → Follower r)
    (hbelow : me ∈ S.data → r.All (Below (s.replica leader).db.replSeq)) :
    Led S leader (s.put me r) where
  member := h.member
  incumbent := by
    rw [Fleet.replica_put_ne hne.symm]
    exact h.incumbent
  followers id hid hnot := by
    by_cases hme : id = me
    · subst hme
      rw [Fleet.replica_put_self]
      exact hr hid
    · rw [Fleet.replica_put_ne hme]
      exact h.followers id hid hnot
  below := by
    rw [Fleet.replica_put_ne hne.symm]
    exact h.below.put hbelow

/-- The leader reads a rejection: only its snapshot request changes. -/
theorem Led.answer (h : Led S leader s) {b : Batch κ} {peer : NodeId}
    (outcome : ApplyOutcome) : Led S leader (s.answer b peer outcome) := by
  cases outcome with
  | applied seq => exact ⟨h.member, h.incumbent, h.followers, h.below.replicas, h.below.batches⟩
  | duplicate => exact ⟨h.member, h.incumbent, h.followers, h.below.replicas, h.below.batches⟩
  | rejected appliedSeq why =>
      by_cases hsender : b.sender = leader
      · subst hsender
        have hr := h.below.replicas b.sender h.member
        exact h.put_leader ⟨h.incumbent.office, h.incumbent.idle, h.incumbent.ordered,
          h.incumbent.plain⟩ le_rfl { hr with }
      · refine h.put_follower hsender (fun hmember => ?_) fun hmember => ?_
        · have hold := h.followers b.sender hmember hsender
          exact ⟨hold.standby, hold.queue⟩
        · have hr := h.below.replicas b.sender hmember
          exact { hr with }

theorem Incumbent.split (h : Incumbent S me r) (count : Nat) :
    consecutive ((r.queue.take count).map Job.seq) = true ∧
      consecutive ((r.queue.drop count).map Job.seq ++ [r.db.replSeq + 1]) = true := by
  apply consecutive_append
  rw [← List.append_assoc, ← List.map_append, List.take_append_drop]
  exact h.ordered

theorem Led.push {count : Nat} {b : Batch κ} (h : Led S leader s) (hme : me ∈ S.data)
    (hpush : pushBatch me (s.replica me) count = some (r, b)) :
    Led S leader { s.put me r with batches := b :: s.batches } := by
  obtain ⟨hr, hb⟩ := pushBatch_below (h.below.replicas me hme) hpush
  have hput : Led S leader (s.put me r) := by
    unfold pushBatch at hpush
    split at hpush
    · cases hpush
    · rename_i job jobs htake
      obtain ⟨rfl, _⟩ := Prod.mk.inj (Option.some.inj hpush)
      by_cases hleader : me = leader
      · subst hleader
        have hi := h.incumbent
        refine h.put_leader ⟨hi.office, hi.idle, ?_, ?_⟩ le_rfl hr
        · exact (hi.split count).2
        · intro hmode
          simp [hi.plain hmode]
      · rw [(h.followers me hme hleader).queue] at htake
        simp at htake
  have hsame : ((s.put me r).replica leader).db = (s.replica leader).db := by
    by_cases hleader : leader = me
    · subst hleader
      rw [Fleet.replica_put_self]
      exact pushBatch_db hpush
    · rw [Fleet.replica_put_ne hleader]
  refine ⟨hput.member, hput.incumbent, hput.followers, hput.below.replicas, ?_⟩
  intro b' hb'
  rcases List.mem_cons.mp hb' with rfl | hold
  · change Below ((s.put me r).replica leader).db.replSeq (Batch.item (δ := δ) b')
    rw [hsame]
    exact hb
  · exact hput.below.batches b' hold

theorem Led.eq_leader (h : Led S leader s) (hme : me ∈ S.data)
    (hrole : (s.replica me).role = .leader) : me = leader := by
  by_contra hne
  exact (h.followers me hme hne).standby hrole

variable [DecidableEq κ] {s' : Fleet δ κ} {e : ReplEvent κ}

theorem Led.leader_step (h : Led S leader s)
    (hstep : replicaStep S s leader (s.replica leader) e = some r)
    (hnode : e.node = leader) (hkeeps : e.keepsLeader leader = true) :
    Led S leader (s.put leader r) := by
  have hi := h.incumbent
  have hr := h.below.replicas leader h.member
  cases e with
  | push id count => cases hstep
  | deliver b peer replied => cases hstep
  | drop b => cases hstep
  | promote id term => cases hkeeps
  | demote id inTime => simp [ReplEvent.keepsLeader, show id = leader from hnode] at hkeeps
  | crash id => simp [ReplEvent.keepsLeader, show id = leader from hnode] at hkeeps
  | commit id c =>
      obtain ⟨_, hwritten⟩ := Option.ite_none_right_eq_some.mp hstep
      obtain ⟨contents, _, rfl⟩ := Option.map_eq_some_iff.mp hwritten
      obtain ⟨hle, hbelow⟩ := commit_below hr
      exact h.put_leader (commit_incumbent hi) hle hbelow
  | createSnapshot id createdUnix =>
      obtain ⟨_, hcreated⟩ := Option.ite_none_right_eq_some.mp hstep
      obtain rfl := Option.some.inj hcreated
      obtain ⟨hle, hbelow⟩ := createSnapshot_below hr
      exact h.put_leader (createSnapshot_incumbent hi) hle hbelow
  | replicated id b awaited =>
      obtain ⟨_, hnoted⟩ := Option.ite_none_right_eq_some.mp hstep
      obtain rfl := Option.some.inj hnoted
      exact h.put_leader ⟨hi.office, hi.idle, hi.ordered, hi.plain⟩ le_rfl { hr with }
  | missed id =>
      obtain rfl := Option.some.inj hstep
      exact h.put_leader ⟨hi.office, hi.idle, hi.ordered, hi.plain⟩ le_rfl { hr with }
  | abandon id =>
      obtain rfl := Option.some.inj hstep
      exact h.put_leader ⟨hi.office, rfl, hi.ordered, hi.plain⟩ le_rfl
        { hr with incoming := by simp }
  | download id source =>
      obtain ⟨hcan, _⟩ := Option.ite_none_right_eq_some.mp hstep
      exact absurd hi.office hcan.1
  | install id =>
      obtain ⟨f, hf, _⟩ := Option.map_eq_some_iff.mp hstep
      rw [hi.idle] at hf
      cases hf
  | restoreBase id =>
      obtain ⟨hcan, _⟩ := Option.ite_none_right_eq_some.mp hstep
      exact absurd hi.office hcan.1

theorem Led.follower_step (h : Led S leader s) (hme : e.node ∈ S.data)
    (hne : e.node ≠ leader)
    (hstep : replicaStep S s e.node (s.replica e.node) e = some r)
    (hkeeps : e.keepsLeader leader = true) : Led S leader (s.put e.node r) := by
  have hf := h.followers e.node hme hne
  have hr := h.below.replicas e.node hme
  have hquiet : e.quiet = true → Follower r → Led S leader (s.put e.node r) :=
    fun hq hfollower => h.put_follower hne (fun _ => hfollower)
      fun _ => replicaStep_quiet h.below hme hstep hq
  cases e with
  | push id count => cases hstep
  | deliver b peer replied => cases hstep
  | drop b => cases hstep
  | promote id term => cases hkeeps
  | commit id c =>
      obtain ⟨hwritable, _⟩ := Option.ite_none_right_eq_some.mp hstep
      have hleader : (s.replica id).role = .leader := by
        simp only [Replica.writable, ReplEvent.node, Bool.and_eq_true, beq_iff_eq] at hwritable
        exact hwritable.1.1
      exact absurd hleader hf.standby
  | createSnapshot id createdUnix =>
      obtain ⟨hcan, _⟩ := Option.ite_none_right_eq_some.mp hstep
      exact absurd hcan.1 hf.standby
  | demote id inTime =>
      obtain rfl := Option.some.inj hstep
      have hsame : demoteReplica S id (s.replica id) inTime = s.replica id := by
        simp [demoteReplica, show (s.replica id).role ≠ .leader from hf.standby]
      change Led S leader (s.put id (demoteReplica S id (s.replica id) inTime))
      rw [hsame]
      exact h.put_follower hne (fun _ => hf) fun _ => hr
  | replicated id b awaited =>
      obtain ⟨_, hnoted⟩ := Option.ite_none_right_eq_some.mp hstep
      obtain rfl := Option.some.inj hnoted
      exact hquiet rfl ⟨hf.standby, hf.queue⟩
  | missed id =>
      obtain rfl := Option.some.inj hstep
      exact hquiet rfl ⟨hf.standby, hf.queue⟩
  | abandon id =>
      obtain rfl := Option.some.inj hstep
      exact hquiet rfl ⟨hf.standby, hf.queue⟩
  | download id source =>
      obtain ⟨_, hfound⟩ := Option.ite_none_right_eq_some.mp hstep
      obtain ⟨f, _, rfl⟩ := Option.map_eq_some_iff.mp hfound
      exact hquiet rfl ⟨hf.standby, hf.queue⟩
  | install id =>
      obtain ⟨f, _, rfl⟩ := Option.map_eq_some_iff.mp hstep
      exact hquiet rfl (installSnapshot_follower hf)
  | restoreBase id =>
      obtain ⟨_, hrestored⟩ := Option.ite_none_right_eq_some.mp hstep
      exact hquiet rfl (restoreLocalBase_follower hf hrestored)
  | crash id =>
      obtain rfl := Option.some.inj hstep
      exact hquiet rfl ⟨by simp [restart], by simp [restart]⟩

/-- While one node stays the leader, all this is kept. -/
theorem Led.step (h : Led S leader s) (hstep : ReplStep S s e s')
    (hkeeps : e.keepsLeader leader = true) : Led S leader s' := by
  obtain ⟨hnode, hcases⟩ := hstep.cases
  obtain ⟨me, count, r, b, rfl, hpush, rfl⟩ | ⟨b, peer, replied, rfl, hsent, rfl⟩ |
    ⟨b, rfl, rfl⟩ | ⟨r, hr, rfl⟩ := hcases
  · exact h.push hnode hpush
  · have hput : Led S leader (s.put peer (changeset S (s.replica peer) b).1) := by
      have hr := h.below.replicas peer hnode
      by_cases hleader : peer = leader
      · subst hleader
        rw [changeset_leader h.incumbent.office]
        exact h.put_leader h.incumbent le_rfl hr
      · exact h.put_follower hleader
          (fun _ => changeset_follower (h.followers peer hnode hleader))
          fun _ => changeset_all hr (applyChangesetBatch_below hr.db (h.below.batches b hsent))
    split
    · exact hput.answer _
    · exact hput
  · exact ⟨h.member, h.incumbent, h.followers, h.below.replicas, fun b' hb' =>
      h.below.batches b' (List.mem_of_mem_erase hb')⟩
  · by_cases hleader : e.node = leader
    · rw [hleader] at hr ⊢
      exact h.leader_step hr hleader hkeeps
    · exact h.follower_step hnode hleader hr hkeeps

/-- Every number the one leader takes is fresh, and every batch is whole. -/
theorem Led.conditions (h : Led S leader s) (hstep : ReplStep S s e s')
    (hkeeps : e.keepsLeader leader = true) :
    e.freshNumber S s = true ∧ e.wholeBatch s = true := by
  have hnode := hstep.cases.1
  have habove : ∀ me ∈ S.data, (s.replica me).role = .leader → s.noneAbove S me = true := by
    intro me hme hrole
    obtain rfl := h.eq_leader hme hrole
    exact noneAbove_of_below h.below
  cases e with
  | commit me c =>
      obtain ⟨r, hr, _⟩ : ∃ r, replicaStep S s me (s.replica me) (.commit me c) = some r ∧
          s' = s.put me r := by simpa [ReplEvent.node] using hstep.cases.2
      obtain ⟨hwritable, _⟩ := Option.ite_none_right_eq_some.mp hr
      simp only [Replica.writable, Bool.and_eq_true, beq_iff_eq] at hwritable
      refine ⟨?_, rfl⟩
      rw [ReplEvent.freshNumber, habove me hnode hwritable.1.1, Bool.or_true]
  | createSnapshot me createdUnix =>
      obtain ⟨r, hr, _⟩ : ∃ r, replicaStep S s me (s.replica me)
          (.createSnapshot me createdUnix) = some r ∧ s' = s.put me r := by
        simpa [ReplEvent.node] using hstep.cases.2
      obtain ⟨hcan, _⟩ := Option.ite_none_right_eq_some.mp hr
      refine ⟨?_, rfl⟩
      rw [ReplEvent.freshNumber, habove me hnode hcan.1, Bool.or_true]
  | promote me term => cases hkeeps
  | push me count =>
      refine ⟨rfl, ?_⟩
      by_cases hleader : me = leader
      · subst hleader
        exact (h.incumbent.split count).1
      · have hqueue := (h.followers me hnode hleader).queue
        simp [ReplEvent.wholeBatch, hqueue, consecutive]
  | _ => exact ⟨rfl, rfl⟩

end Steps

section Runs

variable [DecidableEq κ] {S : Setup δ κ} {s₀ s₁ s₂ : Fleet δ κ} {leader : NodeId}

/-- The first promotion of a fresh fleet. -/
theorem led_of_promote {contents : δ} {term : Nat} (hfresh : s₀.Fresh S contents)
    (hstep : ReplStep S s₀ (.promote leader term) s₁) :
    Led S leader s₁ ∧ ∃ G, Agrees S G s₁ := by
  have hmember : leader ∈ S.data := hstep.cases.1
  obtain ⟨r, hr, rfl⟩ : ∃ r, replicaStep S s₀ leader (s₀.replica leader)
      (.promote leader term) = some r ∧ s₁ = s₀.put leader r := by
    simpa [ReplEvent.node] using hstep.cases.2
  obtain ⟨_, hpromoted⟩ := Option.ite_none_right_eq_some.mp hr
  obtain rfl := Option.some.inj hpromoted
  have hbelow : s₀.All S (Below 0) := by
    refine ⟨fun id hid => ?_, by simp [hfresh.batches]⟩
    obtain ⟨db, hdb, _, hseq⟩ := hfresh.replicas id hid
    rw [hdb]
    exact ⟨below_db.mpr hseq.le, by simp, by simp, by simp, by simp⟩
  have hzero : (s₀.replica leader).db.replSeq = 0 := by
    obtain ⟨db, hdb, _, hseq⟩ := hfresh.replicas leader hmember
    rw [hdb]
    exact hseq
  have habove : s₀.noneAbove S leader = true := noneAbove_of_below (hzero ▸ hbelow)
  have hagrees := promoteReplica_agrees (agrees_of_fresh hfresh).1 hmember term
    (by simp [ReplEvent.freshNumber, habove])
  refine ⟨⟨hmember, ?_, ?_, ?_⟩, _, hagrees⟩
  · obtain ⟨db, hdb, _⟩ := hfresh.replicas leader hmember
    rw [Fleet.replica_put_self, hdb]
    exact ⟨rfl, rfl, by simp [promoteReplica, consecutive], fun _ => rfl⟩
  · intro id hid hne
    obtain ⟨db, hdb, _⟩ := hfresh.replicas id hid
    rw [Fleet.replica_put_ne hne, hdb]
    exact ⟨by simp, rfl⟩
  · rw [Fleet.replica_put_self]
    refine (hbelow.imp fun _ hitem => hitem.mono (Nat.zero_le _)).put fun _ => ?_
    have hr := (hbelow.replicas leader hmember).imp fun _ hitem =>
      hitem.mono (Nat.zero_le (promoteReplica S leader (s₀.replica leader) term).db.replSeq)
    exact { hr with db := below_db.mpr le_rfl }

/-- Under one leader, and when no commit without a number finds the leader's
number elsewhere, every replica with the leader's number holds its tables. -/
theorem standby_holds_contents {contents : δ} {term : Nat} {es : List (ReplEvent κ)}
    (hfresh : s₀.Fresh S contents) (hpromote : ReplStep S s₀ (.promote leader term) s₁)
    (hrun : Runs (During (ReplStep S) fun s e =>
      e.keepsLeader leader = true ∧ e.ownNumber S s = true) s₁ es s₂)
    {id : NodeId} (hid : id ∈ S.data)
    (hseq : (s₂.replica id).db.replSeq = (s₂.replica leader).db.replSeq) :
    (s₂.replica id).db.version.contents = (s₂.replica leader).db.version.contents := by
  have hinvariant := Runs.invariant (fun s => Led S leader s ∧ ∃ G, Agrees S G s)
    (by
      rintro s e s' ⟨hled, G, hagrees⟩ ⟨hstep, hkeeps, hown⟩
      obtain ⟨hfresh, hwhole⟩ := hled.conditions hstep hkeeps
      refine ⟨hled.step hstep hkeeps, timelineAfter S G s e, ?_⟩
      refine step_agrees hagrees hstep hfresh hown hwhole ?_
      rintro me inTime rfl _
      have hne : me ≠ leader := by simpa [ReplEvent.keepsLeader] using hkeeps
      exact .of_standby (hled.followers me hstep.cases.1 hne).standby) hrun (led_of_promote hfresh hpromote)
  obtain ⟨hled, G, hagrees⟩ := hinvariant
  have hleft : (s₂.replica id).db.version = G (s₂.replica id).db.replSeq :=
    (hagrees.replicas id hid).db
  have hright : (s₂.replica leader).db.version = G (s₂.replica leader).db.replSeq :=
    (hagrees.replicas leader hled.member).db
  rw [hleft, hright, hseq]

end Runs

def ledByA : Fleet Nat (Nat × Nat) :=
  emptyFleet.put "a" (promoteReplica threeNodes "a" (emptyFleet.replica "a") 1)

/-- `b` misses a commit; the next one is too large for a changeset, and a
snapshot brings `b` both. -/
def largeCommit : List (ReplEvent (Nat × Nat)) :=
  [.commit "a" (0, 1), .push "a" 1, .drop (shipped "a" 1 1 (0, 1)), .commit "a" (1, 200),
   .createSnapshot "a" 1000, .download "b" "a", .install "b"]

theorem standby_holds_contents_large : ∃ s : Fleet Nat (Nat × Nat),
    (s.replica "b").db.replSeq = 1 ∧
      (s.replica "b").db.version.contents = (s.replica "a").db.version.contents := by
  have hsome : (largeCommit.foldlM (fun s e => if ReplEvent.keepsLeader "a" e &&
      ReplEvent.ownNumber threeNodes s e then replStep threeNodes s e else none)
      ledByA).isSome = true := by decide
  obtain ⟨s, hs⟩ := Option.isSome_iff_exists.mp hsome
  have hseqs : (largeCommit.foldlM (fun s e => if ReplEvent.keepsLeader "a" e &&
      ReplEvent.ownNumber threeNodes s e then replStep threeNodes s e else none)
      ledByA).map (fun s => ((s.replica "a").db.replSeq, (s.replica "b").db.replSeq)) =
      some (1, 1) := by decide
  rw [hs] at hseqs
  obtain ⟨ha, hb⟩ := Prod.mk.inj (Option.some.inj hseqs)
  have hpromote : ReplStep threeNodes emptyFleet (.promote "a" 1) ledByA := rfl
  have hrun : Runs (During (ReplStep threeNodes) fun s e =>
      ReplEvent.keepsLeader "a" e = true ∧ e.ownNumber threeNodes s = true)
      ledByA largeCommit s :=
    (Runs.foldlM hs).mono fun h => ⟨h.1, Bool.and_eq_true_iff.mp h.2⟩
  exact ⟨s, hb, standby_holds_contents emptyFleet_fresh hpromote hrun (by decide)
    (hb.trans ha.symm)⟩

/-- `b` has the leader's number when a commit too large for a changeset changes
the leader's tables: the snapshot cut for it has the same number. -/
def unnumberedCommit : List (ReplEvent (Nat × Nat)) :=
  [.commit "a" (0, 1), .push "a" 1, .deliver (shipped "a" 1 1 (0, 1)) "b" true,
   .commit "a" (1, 200), .createSnapshot "a" 1000]

def afterUnnumbered : Fleet Nat (Nat × Nat) :=
  (unnumberedCommit.foldlM (fun s e => if ReplEvent.keepsLeader "a" e then
    replStep threeNodes s e else none) ledByA).getD emptyFleet

theorem standby_misses_contents : ¬ ∀ (S : Setup Nat (Nat × Nat))
    (s₀ s₁ s₂ : Fleet Nat (Nat × Nat)) (leader : NodeId) (contents term : Nat)
    (es : List (ReplEvent (Nat × Nat))), s₀.Fresh S contents →
    ReplStep S s₀ (.promote leader term) s₁ →
    Runs (During (ReplStep S) fun _ e => ReplEvent.keepsLeader leader e = true) s₁ es s₂ →
    ∀ id ∈ S.data, CaughtUp S s₂ leader id →
    (s₂.replica id).db.replSeq = (s₂.replica leader).db.replSeq →
    (s₂.replica id).db.version.contents = (s₂.replica leader).db.version.contents := by
  intro h
  have hrun : Runs (During (ReplStep threeNodes) fun _ e =>
      ReplEvent.keepsLeader "a" e = true) ledByA unnumberedCommit afterUnnumbered :=
    Runs.foldlM rfl
  have hcaught : CaughtUp threeNodes afterUnnumbered "a" "b" :=
    ⟨by decide, by decide, by decide, by decide⟩
  have hsame := h threeNodes emptyFleet ledByA afterUnnumbered "a" 0 1 unnumberedCommit
    emptyFleet_fresh rfl hrun "b" (by decide) hcaught (by decide)
  revert hsame
  decide

end AgentGrid.Ha
