import AgentGrid.Store.Refinement.Attempts

/-!
# Assignment as ledger moves

Every candidate the flip loop wins is a grant.  The batch counts its slots
after the loop; since the loop never reads the nodes, the count can be moved
into the rounds.
-/

namespace AgentGrid.Store

open AgentGrid.Foundation AgentGrid.Foundation.Ledger

variable {db db' : Database} {quiet : String → Prop} {nodeId : String}
  {input : AssignInput}

/-- Ledger moves that are all grants. -/
def Granted (db db' : Database) : Prop :=
  ∃ ms, Moves discipline db.ledger ms db'.ledger ∧ ∀ m ∈ ms, m.isGrant = true

theorem Granted.of_ledger_eq (h : db'.ledger = db.ledger) : Granted db db' :=
  ⟨[], h ▸ Moves.none discipline db.ledger, by simp⟩

theorem Granted.trans {db'' : Database} (first : Granted db db')
    (second : Granted db' db'') : Granted db db'' := by
  obtain ⟨ms, hms, hfirst⟩ := first
  obtain ⟨ns, hns, hsecond⟩ := second
  refine ⟨ms ++ ns, Runs.trans hms hns, ?_⟩
  intro m hm
  rcases List.mem_append.mp hm with h | h
  · exact hfirst m h
  · exact hsecond m h

theorem Granted.stepped (h : Granted db db') : Stepped db db' quiet := by
  obtain ⟨ms, hms, hgrants⟩ := h
  refine ⟨ms, hms, ?_⟩
  intro k _ m hm
  cases m with
  | grant => trivial
  | _ => cases hgrants _ hm

theorem Granted.sound (h : Granted db db') (hdb : db.Sound) : db'.Sound := by
  obtain ⟨ms, hms, _⟩ := h
  exact hms.sound hdb

theorem takeSlots_add (db : Database) (nodeId : String) (m n : Nat) :
    (db.takeSlots nodeId m).takeSlots nodeId n = db.takeSlots nodeId (m + n) := by
  simp only [Database.takeSlots, Database.updateNodes, updateWhere, List.map_map]
  congr 1
  apply List.map_congr_left
  intro row _
  by_cases hid : row.id = nodeId <;> simp [hid, Nat.add_assoc]

theorem takeSlots_zero (db : Database) (nodeId : String) :
    db.takeSlots nodeId 0 = db := by
  simp [Database.takeSlots, Database.updateNodes, updateWhere]

theorem assignTask_takeSlots (before : Database) (index : Nat) (db : Database)
    (n : Nat) (t : Task) :
    assignTask before nodeId input index (db.takeSlots nodeId n) t =
      (assignTask before nodeId input index db t).map
        fun r => (r.1.takeSlots nodeId n, r.2) := by
  have htasks : (db.takeSlots nodeId n).tasks = db.tasks := rfl
  have hattempts : ∀ p f, ((db.takeSlots nodeId n).updateTasks p f).attempts =
      (db.updateTasks p f).attempts := fun _ _ => rfl
  unfold assignTask
  simp only [htasks, hattempts]
  split_ifs <;> rfl

theorem assignTasks_takeSlots (before : Database) (index : Nat) (db : Database)
    (n : Nat) (ts : List Task) :
    assignTasks before nodeId input index (db.takeSlots nodeId n) ts =
      (assignTasks before nodeId input index db ts).map
        fun r => (r.1.takeSlots nodeId n, r.2) := by
  induction ts generalizing index db with
  | nil => rfl
  | cons t ts ih =>
      simp only [assignTasks, assignTask_takeSlots]
      cases assignTask before nodeId input index db t with
      | none => rfl
      | some first =>
          simp only [Option.map_some, ih]
          cases assignTasks before nodeId input (index + 1) first.1 ts <;> rfl

/-- One round of the flip loop: nothing, or a grant once its slot is taken. -/
theorem assignTask_granted (hdb : db.Sound) (hnode : ∃ n ∈ db.nodes, n.id = nodeId)
    {before : Database} {index : Nat} {t : Task} {won : Option Assignment}
    (h : assignTask before nodeId input index db t = some (db', won)) :
    Granted db (db'.takeSlots nodeId won.toList.length) := by
  unfold assignTask at h
  dsimp only at h
  by_cases hcount : db.tasks.countP (fun r => r.id == t.id && r.status == .queued) = 1
  · obtain ⟨row, hrow, hhit⟩ := List.countP_pos_iff.mp
      (show 0 < db.tasks.countP (fun r => r.id == t.id && r.status == .queued) by omega)
    obtain ⟨hid, hqueued⟩ : row.id = t.id ∧ row.status = .queued := by simpa using hhit
    simp only [hcount, ne_eq, not_true_eq_false, if_false] at h
    split at h
    · cases h
    · rename_i hfresh
      obtain ⟨rfl, rfl⟩ : _ = db' ∧ _ = won := by simpa using h
      have hnew : ∀ l ∈ db.ledger.leases, l.id ≠ input.attemptId index := by
        intro l hl heq
        obtain ⟨a, ha, rfl⟩ := List.mem_map.mp hl
        refine hfresh (List.any_eq_true.mpr ⟨a, ha, ?_⟩)
        simp [show a.id = input.attemptId index from heq]
      have hguard : ∀ r ∈ db.tasks, (r.id == t.id && r.status == .queued) =
          (r.id == t.id) := by
        intro r hr
        by_cases hr' : r.id = t.id
        · rw [row_unique (task_keys hdb) hr hrow (hr'.trans hid.symm)]
          simp [hqueued]
        · simp [hr']
      obtain ⟨n, hn, hnid⟩ := hnode
      refine ⟨[.grant ⟨input.attemptId index, t.id, nodeId, (.assigned, false)⟩], ?_,
        by simp [Move.isGrant]⟩
      have henabled : db.ledger.Enabled discipline
          (.grant ⟨input.attemptId index, t.id, nodeId, (.assigned, false)⟩) :=
        ⟨rfl, hnew, ⟨row.holder, List.mem_map_of_mem hrow, hid, by
          simp [discipline, Task.holder, hqueued]⟩, n.host, List.mem_map_of_mem hn, hnid⟩
      refine Runs.single ⟨henabled, ?_⟩
      have htasks : (updateWhere (fun r : Task => r.id == t.id && r.status == .queued)
          (fun r => { r with status := .assigned,
                             assignedAttemptId := some (input.attemptId index),
                             avoidNodeId := none }) db.tasks).map Task.holder =
          db.ledger.setHolder t.id (some (input.attemptId index)) .assigned := by
        refine map_updateWhere hguard ?_
        intro r _ _
        rfl
      have hnodes : (updateWhere (fun n : Node => n.id == nodeId)
          (fun n => { n with activeAttempts := n.activeAttempts + 1 }) db.nodes).map
            Node.host = db.ledger.setHost nodeId (· + 1) := by
        refine map_updateWhere ?_ ?_
        · intro n _
          rfl
        · intro n _ _
          rfl
      simp only [Database.ledger, Database.takeSlots, Database.updateNodes,
        Database.updateTasks, Ledger.apply, Option.toList, List.length_singleton,
        List.map_append, List.map_cons, List.map_nil]
      exact congrArg₂ (fun x y => Ledger.mk x _ y) htasks hnodes
  · have hnone : ∀ r ∈ db.tasks, (r.id == t.id && r.status == .queued) = false := by
      intro r hr
      by_contra hhit
      obtain ⟨hid, hqueued⟩ : r.id = t.id ∧ r.status = .queued := by simpa using hhit
      refine hcount (countP_key (task_keys hdb) hr ?_)
      intro r' hr'
      by_cases hsame : r'.id = r.id
      · rw [row_unique (task_keys hdb) hr' hr hsame]
        simp [hid, hqueued]
      · simp [← hid, hsame]
    simp only [hcount, ne_eq, not_false_eq_true, if_true, Option.some.injEq,
      Prod.mk.injEq] at h
    obtain ⟨rfl, rfl⟩ := h
    refine .of_ledger_eq ?_
    rw [Option.toList_none, List.length_nil, takeSlots_zero, Database.updateTasks,
      updateWhere_of_forall_not hnone]

theorem takeSlots_node (db : Database) (count : Nat)
    (hnode : ∃ n ∈ db.nodes, n.id = nodeId) :
    ∃ n ∈ (db.takeSlots nodeId count).nodes, n.id = nodeId := by
  obtain ⟨n, hn, hid⟩ := hnode
  exact ⟨_, mem_updateWhere.mpr ⟨n, hn, rfl⟩, by simp [hid]⟩

theorem assignTask_nodes {before : Database} {index : Nat} {t : Task}
    {won : Option Assignment}
    (h : assignTask before nodeId input index db t = some (db', won)) :
    db'.nodes = db.nodes := by
  unfold assignTask at h
  dsimp only at h
  split_ifs at h
  all_goals
    obtain ⟨rfl, _⟩ : _ = db' ∧ _ = won := by simpa using h
    rfl

theorem assignTasks_nodes {before : Database} {index : Nat} {ts : List Task}
    {batch : List Assignment}
    (h : assignTasks before nodeId input index db ts = some (db', batch)) :
    db'.nodes = db.nodes ∧ batch.length ≤ ts.length := by
  induction ts generalizing index db batch with
  | nil =>
      obtain ⟨rfl, rfl⟩ : db = db' ∧ [] = batch := by simpa [assignTasks] using h
      exact ⟨rfl, le_refl 0⟩
  | cons t ts ih =>
      simp only [assignTasks] at h
      split at h
      · cases h
      · rename_i first won hfirst
        split at h
        · cases h
        · rename_i last rest hrest
          obtain ⟨rfl, rfl⟩ : last = db' ∧ won.toList ++ rest = batch := by simpa using h
          obtain ⟨hnodes, hlength⟩ := ih hrest
          refine ⟨hnodes.trans (assignTask_nodes hfirst), ?_⟩
          have hwon : won.toList.length ≤ 1 := by cases won <;> simp
          rw [List.length_append, List.length_cons]
          omega

theorem assignTasks_granted (hdb : db.Sound) (hnode : ∃ n ∈ db.nodes, n.id = nodeId)
    {before : Database} {index : Nat} {ts : List Task} {batch : List Assignment}
    (h : assignTasks before nodeId input index db ts = some (db', batch)) :
    Granted db (db'.takeSlots nodeId batch.length) := by
  induction ts generalizing index db db' batch with
  | nil =>
      obtain ⟨rfl, rfl⟩ : db = db' ∧ [] = batch := by simpa [assignTasks] using h
      exact .of_ledger_eq (by rw [List.length_nil, takeSlots_zero])
  | cons t ts ih =>
      simp only [assignTasks] at h
      split at h
      · cases h
      · rename_i first won hfirst
        split at h
        · cases h
        · rename_i last rest hrest
          obtain ⟨rfl, rfl⟩ : last = db' ∧ won.toList ++ rest = batch := by simpa using h
          have hgrant := assignTask_granted hdb hnode hfirst
          have hnode' : ∃ n ∈ first.nodes, n.id = nodeId := by
            rw [assignTask_nodes hfirst]
            exact hnode
          have hmoved : assignTasks before nodeId input (index + 1)
              (first.takeSlots nodeId won.toList.length) ts =
                some (last.takeSlots nodeId won.toList.length, rest) := by
            rw [assignTasks_takeSlots, hrest]
            rfl
          have hothers := ih (hgrant.sound hdb)
            (takeSlots_node first _ hnode') hmoved
          rw [takeSlots_add] at hothers
          rw [List.length_append]
          exact hgrant.trans hothers

private theorem ite_cases {α : Type} {c : Prop} [Decidable c] {a b r : α}
    (h : (if c then a else b) = r) : a = r ∨ b = r := by
  split at h
  · exact .inl h
  · exact .inr h

/-- What a call of `try_assign_batch` can do: nothing to the three tables, or
a batch no longer than the free slots of the node. -/
theorem tryAssignBatch_cases (env : SchedulerEnv) (db : Database) (nodeId : String)
    (drained : Bool) (input : AssignInput) {r : Database × Except StoreError (List Assignment)}
    (hr : tryAssignBatch env db nodeId drained input = r) :
    r.1.tasks = db.tasks ∧ r.1.attempts = db.attempts ∧ r.1.nodes = db.nodes ∨
      ∃ n eligible next batch, db.node nodeId = some n ∧
        eligible.length ≤ n.maxConcurrency.toNat - asU32 n.activeAttempts ∧
        assignTasks db nodeId input 0 db eligible = some (next, batch) ∧
        r.1 = next.takeSlots nodeId batch.length := by
  have hsame : ∀ {result}, (db, result) = r →
      r.1.tasks = db.tasks ∧ r.1.attempts = db.attempts ∧ r.1.nodes = db.nodes := by
    rintro result rfl
    exact ⟨rfl, rfl, rfl⟩
  unfold tryAssignBatch at hr
  obtain hr | hr := ite_cases hr
  · exact .inl (hsame hr)
  obtain hr | hr := ite_cases hr
  · exact .inl (hsame hr)
  obtain hr | hr := ite_cases hr
  · exact .inl (hsame hr)
  cases hrow : db.node nodeId with
  | none =>
      rw [hrow] at hr
      exact .inl (hsame hr)
  | some n =>
      rw [hrow] at hr
      dsimp only at hr
      obtain hr | hr := ite_cases hr
      · subst hr
        exact .inl ⟨rfl, rfl, rfl⟩
      obtain hr | hr := ite_cases hr
      · exact .inl (hsame hr)
      obtain hr | hr := ite_cases hr
      · exact .inl (hsame hr)
      obtain hr | hr := ite_cases hr
      · exact .inl (hsame hr)
      obtain hr | hr := ite_cases hr
      · exact .inl (hsame hr)
      unfold assignBatch at hr
      split at hr
      · exact .inl (hsame hr)
      rename_i next batch hbatch
      obtain hr | hr := ite_cases hr
      · exact .inl (hsame hr)
      subst hr
      refine .inr ⟨n, _, next, batch, rfl, ?_, hbatch, rfl⟩
      rw [List.length_take]
      exact (Nat.min_le_left _ _).trans (Nat.min_le_right _ _)

theorem tryAssignBatch_granted (hdb : db.Sound) (env : SchedulerEnv) (nodeId : String)
    (drained : Bool) (input : AssignInput) :
    Granted db (tryAssignBatch env db nodeId drained input).1 := by
  rcases tryAssignBatch_cases env db nodeId drained input rfl with
    ⟨htasks, hattempts, hnodes⟩ | ⟨n, eligible, next, batch, hrow, _, hbatch, heq⟩
  · exact .of_ledger_eq (by rw [Database.ledger, htasks, hattempts, hnodes]; rfl)
  · obtain ⟨hn, hid⟩ := lookup_mem hrow
    rw [heq]
    exact assignTasks_granted hdb ⟨n, hn, hid⟩ hbatch

/-- The counter of a node grows in an assignment only up to its limit, as long
as the counter fits the width it is read with. -/
theorem tryAssignBatch_capacity (hdb : db.Sound) (env : SchedulerEnv) (nodeId : String)
    (drained : Bool) (input : AssignInput)
    (hwidth : ∀ n ∈ db.nodes, n.activeAttempts < 2 ^ 32) :
    ∀ n' ∈ (tryAssignBatch env db nodeId drained input).1.nodes,
      n' ∈ db.nodes ∨ n'.activeAttempts ≤ n'.maxConcurrency.toNat ∨
        ∃ n ∈ db.nodes, n'.id = n.id ∧ n'.activeAttempts = n.activeAttempts := by
  intro n' hn'
  rcases tryAssignBatch_cases env db nodeId drained input rfl with
    ⟨_, _, hnodes⟩ | ⟨n, eligible, next, batch, hrow, hcap, hbatch, heq⟩
  · rw [hnodes] at hn'
    exact .inl hn'
  · obtain ⟨hn, hid⟩ := lookup_mem hrow
    obtain ⟨hnodes, hlength⟩ := assignTasks_nodes hbatch
    rw [heq] at hn'
    obtain ⟨old, hold, rfl⟩ := mem_updateWhere.mp hn'
    rw [hnodes] at hold
    by_cases hsame : old.id = nodeId
    · have hrow' := row_unique (node_keys hdb) hold hn (hsame.trans hid.symm)
      rw [hrow'] at hsame ⊢
      have hfits : asU32 n.activeAttempts = n.activeAttempts :=
        Nat.mod_eq_of_lt (hwidth n hn)
      rw [hfits] at hcap
      by_cases hempty : batch.length = 0
      · refine .inr (.inr ⟨n, hn, ?_⟩)
        simp [hsame, hempty]
      · refine .inr (.inl ?_)
        simp only [hsame, beq_self_eq_true, if_true]
        omega
    · refine .inl ?_
      simpa [hsame] using hold

end AgentGrid.Store
