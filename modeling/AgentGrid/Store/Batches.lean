import AgentGrid.Store.Frames

/-!
# What a batch holds

Past the gates of the host a call assigns the oldest eligible tasks, as many as
the limit and the free slots allow, and leaves none of them out as long as the ids
it draws are new.
-/

namespace AgentGrid.Store

open AgentGrid.Foundation AgentGrid.Foundation.Ledger

variable {env : SchedulerEnv} {db : Database} {nodeId : String} {drained : Bool}
  {input : AssignInput}

/-- The gates of the host, the pressure gate apart. -/
structure HostOpen (env : SchedulerEnv) (db : Database) (nodeId : String) (drained : Bool)
    (n : Node) : Prop where
  row : db.node nodeId = some n
  watermark : ¬(0 < env.diskCriticalMb ∧ env.freeBytes / (1024 * 1024) < env.diskCriticalMb)
  undrained : drained = false
  memory : lowHostMemory env n = false
  disk : lowDisk env n = false
  load : env.highLoad n = false

/-- The forecast for the limit is beyond the ceiling of the node. -/
def Pressed (env : SchedulerEnv) (n : Node) (limit : Nat) : Prop :=
  env.capacityPressure = true ∧ n.maxRssMib < capacityForecast n (rowToNodeView n false) limit

def eligibleTasks (env : SchedulerEnv) (db : Database) (nodeId : String) (n : Node) : List Task :=
  (candidates db nodeId).filter (taskEligible env db (rowToNodeView n false))

def batchCap (n : Node) (limit : Nat) : Nat :=
  min limit ((rowToNodeView n false).maxConcurrency - (rowToNodeView n false).activeAttempts)

def chosen (env : SchedulerEnv) (db : Database) (nodeId : String) (n : Node) (limit : Nat) :
    List Task :=
  (eligibleTasks env db nodeId n).take (batchCap n limit)

/-- The ids a call draws are new. -/
structure AssignInput.New (input : AssignInput) (db : Database) : Prop where
  distinct : Function.Injective input.attemptId
  unused : ∀ i, ∀ a ∈ db.attempts, a.id ≠ input.attemptId i

def assignmentsFrom (db : Database) (input : AssignInput) : Nat → List Task → List Assignment
  | _, [] => []
  | index, t :: rest =>
      finishAssignment db t (input.attemptId index) (input.fencingToken index)
        (db.attemptCount t.id + 1) :: assignmentsFrom db input (index + 1) rest

theorem assignmentsFrom_prefix (db : Database) (input : AssignInput) {ts ts' : List Task}
    (h : ts <+: ts') (index : Nat) :
    assignmentsFrom db input index ts <+: assignmentsFrom db input index ts' := by
  induction ts generalizing ts' index with
  | nil => exact List.nil_prefix
  | cons t rest ih =>
      obtain ⟨more, rfl⟩ := h
      exact (List.prefix_append_right_inj [_]).mpr (ih (List.prefix_append rest more) (index + 1))

theorem assignmentsFrom_tasks (db : Database) (input : AssignInput) (ts : List Task) (index : Nat) :
    (assignmentsFrom db input index ts).map Assignment.taskId = ts.map Task.id := by
  induction ts generalizing index with
  | nil => rfl
  | cons t rest ih => exact congrArg (t.id :: ·) (ih (index + 1))

/-! ## The gates -/

theorem tryAssignBatch_open {n : Node} (h : HostOpen env db nodeId drained n)
    (hlimit : input.limit ≠ 0) (hpressed : ¬Pressed env n input.limit) :
    tryAssignBatch env db nodeId drained input =
      if chosen env db nodeId n input.limit = [] then (db, .ok [])
      else assignBatch db nodeId input (chosen env db nodeId n input.limit) := by
  have hcap : (min input.limit
      ((rowToNodeView n false).maxConcurrency - (rowToNodeView n false).activeAttempts) = 0 ∨
        chosen env db nodeId n input.limit = []) ↔ chosen env db nodeId n input.limit = [] := by
    refine or_iff_right_of_imp fun hzero => ?_
    rw [chosen, batchCap, hzero, List.take_zero]
  have hlow : ¬(env.capacityPressure = true ∧
      n.maxRssMib < capacityForecast n (rowToNodeView n false) input.limit) := hpressed
  unfold tryAssignBatch
  rw [if_neg h.watermark, h.undrained, if_neg Bool.false_ne_true, if_neg hlimit, h.row]
  dsimp only
  rw [if_neg hlow, h.memory, if_neg Bool.false_ne_true, h.disk, if_neg Bool.false_ne_true,
    h.load, if_neg Bool.false_ne_true]
  exact if_congr hcap rfl rfl

/-- A call that is not let through assigns nothing. -/
theorem tryAssignBatch_shut (h : ∀ n, HostOpen env db nodeId drained n → input.limit ≠ 0 →
    Pressed env n input.limit) : (tryAssignBatch env db nodeId drained input).2 = .ok [] := by
  unfold tryAssignBatch
  by_cases hwatermark : 0 < env.diskCriticalMb ∧ env.freeBytes / (1024 * 1024) < env.diskCriticalMb
  · rw [if_pos hwatermark]
  rw [if_neg hwatermark]
  by_cases hdrained : drained = true
  · rw [if_pos hdrained]
  rw [if_neg hdrained]
  by_cases hlimit : input.limit = 0
  · rw [if_pos hlimit]
  rw [if_neg hlimit]
  cases hrow : db.node nodeId with
  | none => rfl
  | some n =>
      dsimp only
      by_cases hpressed : env.capacityPressure = true ∧
          n.maxRssMib < capacityForecast n (rowToNodeView n false) input.limit
      · rw [if_pos hpressed]
      rw [if_neg hpressed]
      by_cases hmemory : lowHostMemory env n = true
      · rw [if_pos hmemory]
      rw [if_neg hmemory]
      by_cases hdisk : lowDisk env n = true
      · rw [if_pos hdisk]
      rw [if_neg hdisk]
      by_cases hload : env.highLoad n = true
      · rw [if_pos hload]
      have hopen : HostOpen env db nodeId drained n :=
        ⟨hrow, hwatermark, Bool.eq_false_iff.mpr hdrained, Bool.eq_false_iff.mpr hmemory,
          Bool.eq_false_iff.mpr hdisk, Bool.eq_false_iff.mpr hload⟩
      exact absurd (h n hopen hlimit) hpressed

/-! ## The flip loop -/

/-- What the loop needs of the tasks still to come. -/
structure Waiting (before : Database) (input : AssignInput) (index : Nat) (db : Database)
    (ts : List Task) : Prop where
  distinct : (ts.map Task.id).Nodup
  queued : ∀ t ∈ ts, db.tasks.countP (fun row => row.id == t.id && row.status == .queued) = 1
  unused : ∀ i, index ≤ i → ∀ a ∈ db.attempts, a.id ≠ input.attemptId i
  numbers : ∀ t ∈ ts, ∀ a ∈ db.attempts, a.taskId = t.id →
    a.number ≠ before.attemptCount t.id + 1

theorem assignTask_waiting {before : Database} {index : Nat} {t : Task} {rest : List Task}
    (hids : Function.Injective input.attemptId)
    (h : Waiting before input index db (t :: rest)) :
    ∃ next, assignTask before nodeId input index db t = some (next,
        some (finishAssignment before t (input.attemptId index) (input.fencingToken index)
          (before.attemptCount t.id + 1))) ∧ Waiting before input (index + 1) next rest := by
  have hfree : ¬(db.attempts.any fun a => a.id == input.attemptId index ||
      (a.taskId == t.id && a.number == (before.attemptCount t.id : Int) + 1)) = true := by
    intro hclash
    obtain ⟨a, ha, hsame⟩ := List.any_eq_true.mp hclash
    rcases Bool.or_eq_true _ _ ▸ hsame with hid | hnumber
    · exact h.unused index le_rfl a ha (beq_iff_eq.mp hid)
    · rw [Bool.and_eq_true, beq_iff_eq, beq_iff_eq] at hnumber
      exact h.numbers t List.mem_cons_self a ha hnumber.1 hnumber.2
  have hone := h.queued t List.mem_cons_self
  have hothers : ∀ t' ∈ rest, t'.id ≠ t.id := by
    intro t' ht' hid
    have hdistinct := h.distinct
    rw [List.map_cons, List.nodup_cons] at hdistinct
    exact hdistinct.1 (hid ▸ List.mem_map_of_mem ht')
  unfold assignTask
  dsimp only
  rw [if_neg (not_not.mpr hone)]
  split
  · rename_i hclash
    exact absurd hclash hfree
  · refine ⟨_, rfl, ⟨(List.nodup_cons.mp h.distinct).2, ?_, ?_, ?_⟩⟩
    · intro t' ht'
      have hsame := h.queued t' (List.mem_cons_of_mem _ ht')
      have hne := hothers t' ht'
      rw [← hsame]
      dsimp only [Database.updateTasks]
      rw [updateWhere, List.countP_map]
      refine List.countP_congr fun row _ => ?_
      by_cases hrow : row.id = t.id
      · by_cases hqueued : row.status = .queued
        · simp [hrow, hqueued, Ne.symm hne]
        · simp [hrow, hqueued]
      · simp [hrow]
    · intro i hi a ha
      rcases List.mem_append.mp ha with hold | hnew
      · exact h.unused i (by omega) a hold
      · rw [List.mem_singleton.mp hnew]
        intro hid
        have := hids hid
        omega
    · intro t' ht' a ha htask
      rcases List.mem_append.mp ha with hold | hnew
      · exact h.numbers t' (List.mem_cons_of_mem _ ht') a hold htask
      · rw [List.mem_singleton.mp hnew] at htask
        exact absurd htask.symm (hothers t' ht')

theorem assignTasks_waiting {before : Database} {index : Nat} {ts : List Task}
    (hids : Function.Injective input.attemptId) (h : Waiting before input index db ts) :
    ∃ next, assignTasks before nodeId input index db ts =
      some (next, assignmentsFrom before input index ts) := by
  induction ts generalizing db index with
  | nil => exact ⟨db, rfl⟩
  | cons t rest ih =>
      obtain ⟨first, hfirst, hrest⟩ := @assignTask_waiting _ nodeId _ _ _ _ _ hids h
      obtain ⟨next, hnext⟩ := ih hrest
      exact ⟨next, by simp only [assignTasks, hfirst, hnext, Option.toList, assignmentsFrom,
        List.singleton_append]⟩

theorem mem_candidates {t : Task} : t ∈ candidates db nodeId ↔
    t ∈ db.tasks ∧ t.status = .queued ∧
      (t.requestedNodeId = none ∨ t.requestedNodeId = some nodeId) ∧
      (t.avoidNodeId = none ∨ t.avoidNodeId ≠ some nodeId ∨
        db.nodes.countP (fun n => n.id != nodeId && n.status == .online && !n.drained) = 0) := by
  unfold candidates
  dsimp only
  rw [(List.perm_insertionSort _ _).mem_iff, List.mem_filter]
  simp [and_assoc, or_assoc]

theorem candidates_nodup (hdb : db.Sound) : ((candidates db nodeId).map Task.id).Nodup := by
  have hrows : ((db.tasks.filter fun t => t.status == .queued &&
      (t.requestedNodeId.isNone || t.requestedNodeId == some nodeId) &&
      (t.avoidNodeId.isNone || t.avoidNodeId != some nodeId ||
        db.nodes.countP (fun n => n.id != nodeId && n.status == .online && !n.drained) == 0)).map
          Task.id).Nodup :=
    (task_keys hdb).sublist (List.filter_sublist.map Task.id)
  exact ((List.perm_insertionSort _ _).map Task.id).nodup_iff.mpr hrows

theorem chosen_sublist {n : Node} {limit : Nat} :
    (chosen env db nodeId n limit).Sublist (candidates db nodeId) :=
  (List.take_sublist _ _).trans List.filter_sublist

/-- A store whose attempts are numbered, before a call that draws new ids. -/
theorem waiting_chosen (hdb : db.Sound) (hnumbered : db.Numbered) (hnew : input.New db)
    {n : Node} {limit : Nat} : Waiting db input 0 db (chosen env db nodeId n limit) where
  distinct := (candidates_nodup hdb).sublist (chosen_sublist.map Task.id)
  queued := by
    intro t ht
    obtain ⟨hmem, hqueued, _⟩ := mem_candidates.mp (chosen_sublist.subset ht)
    refine countP_key (task_keys hdb) hmem fun r hr => ?_
    by_cases hid : r.id = t.id
    · rw [row_unique (task_keys hdb) hr hmem hid]
      simp [hqueued]
    · simp [hid]
  unused i _ := hnew.unused i
  numbers := by
    intro t _ a ha htask
    have := hnumbered a ha
    rw [htask] at this
    omega

theorem tryAssignBatch_batch (hdb : db.Sound) (hnumbered : db.Numbered) (hnew : input.New db)
    {n : Node} (h : HostOpen env db nodeId drained n) (hlimit : input.limit ≠ 0)
    (hpressed : ¬Pressed env n input.limit) :
    (tryAssignBatch env db nodeId drained input).2 =
      .ok (assignmentsFrom db input 0 (chosen env db nodeId n input.limit)) := by
  rw [tryAssignBatch_open h hlimit hpressed]
  split
  · rename_i hnone
    rw [hnone, assignmentsFrom]
  · rename_i hsome
    have hwaiting : Waiting db input 0 db (chosen env db nodeId n input.limit) :=
      waiting_chosen hdb hnumbered hnew
    obtain ⟨next, hnext⟩ := @assignTasks_waiting _ nodeId _ _ _ _ hnew.distinct hwaiting
    unfold assignBatch
    rw [hnext]
    dsimp only
    split
    · rename_i hempty
      rw [List.isEmpty_iff.mp hempty]
    · rfl

/-- Either way the call ends well, and what it assigns is a beginning of the eligible tasks. -/
theorem tryAssignBatch_ok (hdb : db.Sound) (hnumbered : db.Numbered) (hnew : input.New db) :
    ∃ batch, (tryAssignBatch env db nodeId drained input).2 = .ok batch := by
  by_cases hshut : ∀ n, HostOpen env db nodeId drained n → input.limit ≠ 0 →
      Pressed env n input.limit
  · exact ⟨_, tryAssignBatch_shut hshut⟩
  · simp only [not_forall, exists_prop] at hshut
    obtain ⟨n, hopen, hlimit, hpressed⟩ := hshut
    exact ⟨_, tryAssignBatch_batch hdb hnumbered hnew hopen hlimit hpressed⟩

/-! ## The batch -/

/-- The tasks a call assigns. -/
def batchOf (env : SchedulerEnv) (db : Database) (nodeId : String) (drained : Bool)
    (input : AssignInput) : List Assignment :=
  match (tryAssignBatch env db nodeId drained input).2 with
  | .ok batch => batch
  | .error _ => []

theorem HostOpen.unique {n n' : Node} (h : HostOpen env db nodeId drained n)
    (h' : HostOpen env db nodeId drained n') : n' = n :=
  Option.some.inj (h'.row.symm.trans h.row)

theorem assignTask_mem {before db' : Database} {index : Nat} {t : Task} {won : Option Assignment}
    (h : assignTask before nodeId input index db t = some (db', won)) :
    ∀ a ∈ won.toList, a.taskId = t.id := by
  unfold assignTask at h
  dsimp only at h
  split_ifs at h
  · cases h
    simp
  · cases h
    simp [finishAssignment]

theorem assignTasks_mem {before db' : Database} {index : Nat} {ts : List Task}
    {batch : List Assignment}
    (h : assignTasks before nodeId input index db ts = some (db', batch)) :
    ∀ a ∈ batch, ∃ t ∈ ts, a.taskId = t.id := by
  induction ts generalizing db index batch with
  | nil =>
      cases h
      simp
  | cons t rest ih =>
      unfold assignTasks at h
      split at h
      · cases h
      · rename_i first given hfirst
        split at h
        · cases h
        · rename_i last others hrest
          cases h
          intro a ha
          rcases List.mem_append.mp ha with h | h
          · exact ⟨t, List.mem_cons_self, assignTask_mem hfirst a h⟩
          · obtain ⟨t', ht', hid⟩ := ih hrest a h
            exact ⟨t', List.mem_cons_of_mem _ ht', hid⟩

/-- Whatever a call assigns was chosen at open gates. -/
theorem mem_batchOf {a : Assignment} (ha : a ∈ batchOf env db nodeId drained input) :
    ∃ n, HostOpen env db nodeId drained n ∧ input.limit ≠ 0 ∧ ¬Pressed env n input.limit ∧
      ∃ t ∈ chosen env db nodeId n input.limit, a.taskId = t.id := by
  by_cases hshut : ∀ n, HostOpen env db nodeId drained n → input.limit ≠ 0 →
      Pressed env n input.limit
  · rw [batchOf, tryAssignBatch_shut hshut] at ha
    cases ha
  simp only [not_forall, exists_prop] at hshut
  obtain ⟨n, hopen, hlimit, hpass⟩ := hshut
  refine ⟨n, hopen, hlimit, hpass, ?_⟩
  rw [batchOf, tryAssignBatch_open hopen hlimit hpass] at ha
  split_ifs at ha
  · cases ha
  · unfold assignBatch at ha
    cases hrun : assignTasks db nodeId input 0 db (chosen env db nodeId n input.limit) with
    | none =>
        rw [hrun] at ha
        cases ha
    | some r =>
        rw [hrun] at ha
        dsimp only at ha
        split_ifs at ha
        · cases ha
        · exact assignTasks_mem hrun a ha

theorem mem_chosen {n : Node} {limit : Nat} {t : Task}
    (h : t ∈ chosen env db nodeId n limit) :
    t ∈ candidates db nodeId ∧ taskEligible env db (rowToNodeView n false) t = true :=
  List.mem_filter.mp ((List.take_sublist _ _).subset h)

/-- A call that draws a longer id each time, for the examples of this development. -/
def freshIds : AssignInput where
  limit := 1
  now := morning
  leaseExpiresAt := morning
  ackDeadline := morning
  attemptId := fun i => String.ofList (List.replicate i 'a')
  fencingToken := fun i => String.ofList (List.replicate i 'f')

theorem freshIds_distinct : Function.Injective freshIds.attemptId := by
  intro i j hij
  have hchars := congrArg (fun s => s.toList.length) hij
  simpa [freshIds] using hchars

end AgentGrid.Store
