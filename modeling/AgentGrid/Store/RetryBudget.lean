import AgentGrid.Store.Guarantees

/-!
# The retry budget

How many attempts of a task may come to run.  A task that is queued or
assigned runs again without another look at its budget, so the number of
attempts that ran, and one more while the task waits, stays within the budget
and the manual retries.
-/

namespace AgentGrid.Store

open AgentGrid.Foundation AgentGrid.Foundation.Ledger

def TaskStatus.waiting : TaskStatus → Bool
  | .queued | .assigned => true
  | .running | .validating | .succeeded | .failed | .cancelled => false

/-- An attempt comes to run from `assigned` alone, and never goes back to it. -/
def AttemptStatus.Follows (s s' : AttemptStatus) : Prop :=
  (s' = .assigned → s = .assigned) ∧ (s' = .running → s = .assigned ∨ s = .running)

def Attempt.Follows (a a' : Attempt) : Prop :=
  a'.id = a.id ∧ a'.taskId = a.taskId ∧ a.status.Follows a'.status

/-- The task enters the statuses `W` from within, or with its budget unspent. -/
def Task.Turns (W : TaskStatus → Bool) (db : Database) (t t' : Task) : Prop :=
  t'.id = t.id ∧ t'.maxAttempts = t.maxAttempts ∧
    (W t'.status = true →
      W t.status = true ∨ (db.attemptCount t.id : Int) < t.maxAttempts)

/-- No task and no attempt is new, every attempt follows its machine and every
task turns within its budget. -/
structure Evolves (W : TaskStatus → Bool) (db db' : Database) : Prop where
  attempts : List.Forall₂ Attempt.Follows db.attempts db'.attempts
  tasks : List.Forall₂ (Task.Turns W db) db.tasks db'.tasks

theorem AttemptStatus.Follows.refl (s : AttemptStatus) : s.Follows s :=
  ⟨id, .inr⟩

theorem AttemptStatus.Follows.trans {s s' s'' : AttemptStatus} (first : s.Follows s')
    (second : s'.Follows s'') : s.Follows s'' := by
  refine ⟨fun h => first.1 (second.1 h), ?_⟩
  intro h
  rcases second.2 h with h' | h'
  · exact .inl (first.1 h')
  · exact first.2 h'

theorem AttemptStatus.Follows.of_ended {s s' : AttemptStatus} (h : s'.inFlight = false) :
    s.Follows s' := by
  constructor <;> rintro rfl <;> cases h

theorem Attempt.Follows.refl (a : Attempt) : a.Follows a :=
  ⟨rfl, rfl, .refl a.status⟩

theorem Task.Turns.refl (W : TaskStatus → Bool) (db : Database) (t : Task) :
    t.Turns W db t :=
  ⟨rfl, rfl, .inl⟩

namespace Evolves

variable {W : TaskStatus → Bool} {db db' db'' : Database}

theorem of_rows (htasks : db'.tasks = db.tasks) (hattempts : db'.attempts = db.attempts) :
    Evolves W db db' := by
  constructor
  · rw [hattempts, List.forall₂_same]
    exact fun a _ => .refl a
  · rw [htasks, List.forall₂_same]
    exact fun t _ => .refl W db t

theorem task_ids (h : Evolves W db db') :
    db'.tasks.map Task.id = db.tasks.map Task.id :=
  forall₂_map_eq (fun hturn => hturn.1) h.tasks

theorem attempt_ids (h : Evolves W db db') :
    db'.attempts.map Attempt.id = db.attempts.map Attempt.id :=
  forall₂_map_eq (fun hfollow => hfollow.1) h.attempts

theorem attemptCount (h : Evolves W db db') (k : String) :
    db'.attemptCount k = db.attemptCount k := by
  have howners : db'.attempts.map Attempt.taskId = db.attempts.map Attempt.taskId :=
    forall₂_map_eq (fun hfollow => hfollow.2.1) h.attempts
  have hcount : ∀ rows : List Attempt, rows.countP (fun a => a.taskId == k) =
      (rows.map Attempt.taskId).countP (· == k) := by
    intro rows
    rw [List.countP_map]
    rfl
  rw [Database.attemptCount, Database.attemptCount, hcount, hcount, howners]

theorem trans (db' : Database) (first : Evolves W db db') (second : Evolves W db' db'') :
    Evolves W db db'' := by
  constructor
  · refine forall₂_trans ?_ first.attempts second.attempts
    rintro a a' a'' ⟨hid, htask, hstatus⟩ ⟨hid', htask', hstatus'⟩
    exact ⟨hid'.trans hid, htask'.trans htask, hstatus.trans hstatus'⟩
  · refine forall₂_trans ?_ first.tasks second.tasks
    rintro t t' t'' ⟨hid, hmax, hturn⟩ ⟨hid', hmax', hturn'⟩
    refine ⟨hid'.trans hid, hmax'.trans hmax, ?_⟩
    intro hwaits
    rcases hturn' hwaits with hwaits' | hbudget
    · exact hturn hwaits'
    · rw [first.attemptCount, hid, hmax] at hbudget
      exact .inr hbudget

theorem updateAttempts {p : Attempt → Bool} {f : Attempt → Attempt}
    (hf : ∀ a ∈ db.attempts, p a = true → a.Follows (f a)) :
    Evolves W db (db.updateAttempts p f) where
  attempts := forall₂_updateWhere (fun a _ => .refl a) hf
  tasks := by
    rw [Database.updateAttempts, List.forall₂_same]
    exact fun t _ => .refl W db t

theorem updateTasks {p : Task → Bool} {f : Task → Task}
    (hf : ∀ t ∈ db.tasks, p t = true → t.Turns W db (f t)) :
    Evolves W db (db.updateTasks p f) where
  attempts := by
    rw [Database.updateTasks, List.forall₂_same]
    exact fun a _ => .refl a
  tasks := forall₂_updateWhere (fun t _ => .refl W db t) hf

end Evolves

section Operations

variable {W : TaskStatus → Bool} {db : Database}

theorem Task.Turns.of_rest (hW : ∀ s, W s = true → s.waiting = true) {t t' : Task}
    (hid : t'.id = t.id) (hmax : t'.maxAttempts = t.maxAttempts)
    (hrest : t'.status.waiting = false) : t.Turns W db t' := by
  refine ⟨hid, hmax, ?_⟩
  intro hwaits
  have hwaiting := hW _ hwaits
  rw [hrest] at hwaiting
  cases hwaiting

theorem Attempt.Follows.of_ended {a a' : Attempt} (hid : a'.id = a.id)
    (htask : a'.taskId = a.taskId) (h : a'.status.inFlight = false) : a.Follows a' :=
  ⟨hid, htask, .of_ended h⟩

theorem Attempt.Follows.of_assigned {a a' : Attempt} (hid : a'.id = a.id)
    (htask : a'.taskId = a.taskId) (h : a.status = .assigned) : a.Follows a' := by
  refine ⟨hid, htask, ?_⟩
  rw [h]
  exact ⟨fun _ => rfl, fun _ => .inl rfl⟩

theorem ackAttempt_evolves (hW : ∀ s, W s = true → s.waiting = true)
    (attemptId now : String) : Evolves W db (ackAttempt db attemptId now).1 := by
  unfold ackAttempt
  split
  · exact .of_rows rfl rfl
  · split
    · exact .of_rows rfl rfl
    · dsimp only
      split
      · exact .of_rows rfl rfl
      · refine .trans (db.updateAttempts _ _) (.updateAttempts ?_) (.updateTasks ?_)
        · intro a _ hheld
          rw [Bool.and_eq_true, beq_iff_eq, beq_iff_eq] at hheld
          exact .of_assigned rfl rfl hheld.2
        · exact fun t _ _ => .of_rest hW rfl rfl rfl

theorem ingestEvents_evolves (hW : ∀ s, W s = true → s.waiting = true) (hdb : db.Sound)
    (attemptId : String) (events : List IncomingEvent) (now : String) :
    Evolves W db (ingestEvents db attemptId events now).1 := by
  unfold ingestEvents
  cases hrow : db.attempt attemptId with
  | none => exact .of_rows rfl rfl
  | some row =>
      obtain ⟨hmem, rfl⟩ := lookup_mem hrow
      dsimp only
      split
      · exact .of_rows rfl rfl
      · by_cases hassigned : row.status = .assigned
        · simp only [hassigned, if_true]
          refine .trans ((db.updateAttempts _ _).updateTasks _ _)
            (.trans (db.updateAttempts _ _) (.updateAttempts ?_) (.updateTasks ?_))
            (.of_rows rfl rfl)
          · intro a ha hid
            rw [beq_iff_eq] at hid
            rw [attempt_eq hdb hmem ha hid]
            exact .of_assigned rfl rfl hassigned
          · exact fun t _ _ => .of_rest hW rfl rfl rfl
        · simp only [hassigned, if_false]
          exact .of_rows rfl rfl

theorem beginValidate_evolves (hW : ∀ s, W s = true → s.waiting = true)
    (attemptId now : String) : Evolves W db (beginValidate db attemptId now).1 := by
  unfold beginValidate
  dsimp only
  split
  · exact .of_rows rfl rfl
  · refine .trans (db.updateAttempts _ _) (.updateAttempts ?_) (.updateTasks ?_)
    · exact fun a _ _ => ⟨rfl, rfl, by constructor <;> rintro ⟨⟩⟩
    · exact fun t _ _ => .of_rest hW rfl rfl rfl

theorem cancelTask_evolves (hW : ∀ s, W s = true → s.waiting = true)
    (taskId now : String) : Evolves W db (cancelTask db taskId now).1 := by
  unfold cancelTask
  split
  · exact .of_rows rfl rfl
  · split
    · exact .updateTasks fun t _ _ => .of_rest hW rfl rfl rfl
    · split
      · exact .updateAttempts fun a _ _ => ⟨rfl, rfl, .refl a.status⟩
      · exact .of_rows rfl rfl

theorem cancelStepTask_evolves (hW : ∀ s, W s = true → s.waiting = true)
    (taskId : String) : Evolves W db (cancelStepTask db taskId) := by
  unfold cancelStepTask
  refine .trans (db.updateTasks _ _) (.updateTasks ?_) (.updateAttempts ?_)
  · exact fun t _ _ => .of_rest hW rfl rfl rfl
  · exact fun a _ _ => ⟨rfl, rfl, .refl a.status⟩

theorem finishAttempt_rows (db : Database) (a : Attempt) (task : Task)
    (req : CompleteAttemptRequest) (attemptTarget : AttemptStatus) (taskTarget : TaskStatus)
    (approvalId now expires : String) :
    (finishAttempt db a task req attemptTarget taskTarget approvalId now expires).attempts =
        updateWhere (fun r => r.id == a.id) (req.record attemptTarget now) db.attempts ∧
      (finishAttempt db a task req attemptTarget taskTarget approvalId now expires).tasks =
        updateWhere (fun t => t.id == a.taskId)
          (settleTask req taskTarget (autoRetry db task taskTarget) now) db.tasks := by
  have hcount : ∀ k, (noteSilentSuccess ((finishAgentSession db a.id
      (if req.success then "done" else "failed") req.errorCode now).updateAttempts
        (fun r => r.id == a.id) (req.record attemptTarget now)) a.id req taskTarget
        now).attemptCount k = db.attemptCount k := by
    intro k
    rw [Database.attemptCount, noteSilentSuccess_attempts]
    exact attemptCount_updateAttempts db (fun r => r.id == a.id)
      (req.record attemptTarget now) (fun _ => rfl) k
  have hretry : ∀ db' : Database, (∀ k, db'.attemptCount k = db.attemptCount k) →
      autoRetry db' task taskTarget = autoRetry db task taskTarget := by
    intro db' hsame
    rw [autoRetry, autoRetry, hsame]
  dsimp only [finishAttempt]
  rw [hretry _ hcount]
  split <;> simp [Database.updateTasks, Database.updateAttempts, Database.freeSlots,
    Database.updateNodes, finishAgentSession]

theorem completeAttempt_evolves (hW : ∀ s, W s = true → s.waiting = true) (hdb : db.Sound)
    (attemptId : String) (req : CompleteAttemptRequest) (approvalId now expires : String) :
    Evolves W db (completeAttempt db attemptId req approvalId now expires).1 := by
  unfold completeAttempt
  split
  · exact .of_rows rfl rfl
  · rename_i a hrow
    split
    · exact .of_rows rfl rfl
    · split
      · exact .of_rows rfl rfl
      · rename_i task attemptTarget taskTarget htargets
        obtain ⟨htask, hended, hterminal, _⟩ := completionTargets_spec htargets
        obtain ⟨htask, hid⟩ := lookup_mem htask
        split
        · exact .of_rows rfl rfl
        · obtain ⟨hattempts, htasks⟩ := finishAttempt_rows db a task req attemptTarget
            taskTarget approvalId now expires
          constructor
          · rw [hattempts]
            exact forall₂_updateWhere (fun r _ => .refl r)
              fun r _ _ => .of_ended rfl rfl hended
          · rw [htasks]
            refine forall₂_updateWhere (fun t _ => .refl W db t) ?_
            intro t ht howner
            rw [beq_iff_eq] at howner
            have hsame := row_unique (task_keys hdb) ht htask (howner.trans hid.symm)
            cases hretry : autoRetry db task taskTarget with
            | false =>
                refine .of_rest hW rfl rfl ?_
                cases taskTarget <;> simp_all [settleTask, TaskStatus.isTerminal,
                  TaskStatus.waiting]
            | true =>
                refine ⟨rfl, rfl, fun _ => .inr ?_⟩
                simp only [autoRetry, Bool.and_eq_true, decide_eq_true_eq] at hretry
                rw [hsame]
                exact hretry.2

/-- The policy was read from the task's own columns. -/
def LossRetryPolicy.Fits (policy : LossRetryPolicy) (db : Database) (taskId : String) :
    Prop :=
  ∀ t ∈ db.tasks, t.id = taskId → policy.maxAttempts = t.maxAttempts

theorem LossRetryPolicy.Fits.evolves {policy : LossRetryPolicy} {db' : Database}
    {taskId : String} (h : policy.Fits db taskId) (hevolves : Evolves W db db') :
    policy.Fits db' taskId := by
  intro t' ht' hid
  obtain ⟨t, ht, hid', hmax, _⟩ := forall₂_right hevolves.tasks ht'
  rw [hmax]
  exact h t ht (hid'.symm.trans hid)

theorem fits_ofTask (hkeys : (db.tasks.map Task.id).Nodup) {t : Task} (ht : t ∈ db.tasks) :
    (LossRetryPolicy.ofTask t).Fits db t.id := by
  intro t' ht' hid
  rw [row_unique hkeys ht' ht hid]
  rfl

theorem requeueLostAttempt_evolves {policy : LossRetryPolicy}
    {taskId : String} (hfits : policy.Fits db taskId)
    (attemptId nodeId now reason : String) :
    Evolves W db
      (requeueLostAttempt db taskId attemptId nodeId now reason policy).1 := by
  unfold requeueLostAttempt
  split
  · exact .of_rows rfl rfl
  · split
    · exact .of_rows rfl rfl
    · rename_i hbudget
      have hrequeue : Evolves W db (db.updateTasks
          (fun t => t.id == taskId && !t.status.isTerminal) (requeueTask nodeId)) := by
        apply Evolves.updateTasks
        intro t ht hopen
        rw [Bool.and_eq_true, beq_iff_eq] at hopen
        refine ⟨rfl, rfl, fun _ => .inr ?_⟩
        rw [hfits t ht hopen.1, not_le] at hbudget
        rw [hopen.1]
        exact hbudget
      dsimp only
      split
      · exact hrequeue
      · exact .trans _ hrequeue (.of_rows rfl rfl)

theorem loseRows_evolves (p : Attempt → Bool) (now : String) :
    Evolves W db (db.updateAttempts p (Attempt.lose now)) :=
  .updateAttempts fun _ _ _ => .of_ended rfl rfl rfl

theorem rejectAssignment_evolves (hW : ∀ s, W s = true → s.waiting = true)
    (hdb : db.Sound) (attemptId reason now : String) :
    Evolves W db (rejectAssignment db attemptId reason now).1 := by
  unfold rejectAssignment
  split
  · exact .of_rows rfl rfl
  · rename_i row hrow
    split
    · exact .of_rows rfl rfl
    · dsimp only
      split
      · exact .of_rows rfl rfl
      · have hlost : Evolves W db (db.updateAttempts
            (fun a => a.id == attemptId && a.status == .assigned) (Attempt.lose now)) :=
          loseRows_evolves _ now
        obtain ⟨t, ht, hid⟩ := owner_exists hdb (lookup_mem hrow).1
        have hpolicy : db.task row.taskId = some t := by
          rw [← hid]
          exact lookup_of_mem (task_keys hdb) ht
        have hfits : (LossRetryPolicy.ofTask t).Fits db row.taskId :=
          hid ▸ fits_ofTask (task_keys hdb) ht
        have hlookup : (db.updateAttempts (fun a => a.id == attemptId &&
            a.status == .assigned) (Attempt.lose now)).task row.taskId = some t := hpolicy
        rw [hlookup, Option.map_some, Option.getD_some]
        refine .trans _ hlost (.trans _ (requeueLostAttempt_evolves (hfits.evolves hlost)
          attemptId row.nodeId now "node_rejected") ?_)
        split
        · exact .of_rows rfl rfl
        · refine .trans (Database.updateTasks _ _ _) (.updateTasks ?_) (.of_rows rfl rfl)
          exact fun t _ _ => .of_rest hW rfl rfl rfl

theorem revertLease_evolves (hW : W .queued = true → W .assigned = true) (now : String)
    (fence : String → String) (row : Attempt) :
    Evolves W db (revertLease now fence db row).1 := by
  have hended : Evolves W db (db.updateAttempts
      (fun a => a.id == row.id && a.status == .assigned) fun a =>
        { a with status := .cancelled, finishedAt := some now,
                 fencingToken := fence row.id }) :=
    .updateAttempts fun _ _ _ => .of_ended rfl rfl rfl
  unfold revertLease
  dsimp only
  split
  · exact hended
  · refine .trans _ hended (.trans _ (.updateTasks ?_) (.of_rows rfl rfl))
    intro t _ hheld
    refine ⟨rfl, rfl, fun hwaits => .inl ?_⟩
    simp only [Bool.and_eq_true, beq_iff_eq] at hheld
    rw [hheld.2]
    exact hW hwaits

theorem revertLeases_evolves (hW : W .queued = true → W .assigned = true) (now : String)
    (fence : String → String) (rows : List Attempt) :
    Evolves W db (revertLeases now fence db rows).1 := by
  induction rows generalizing db with
  | nil => exact .of_rows rfl rfl
  | cons row rows ih => exact .trans _ (revertLease_evolves hW now fence row) ih

theorem loseAttempt_evolves (hW : ∀ s, W s = true → s.waiting = true)
    (nodeId now : String) (row : Attempt × LossRetryPolicy)
    (hfits : row.2.Fits db row.1.taskId) :
    Evolves W db (loseAttempt nodeId now db row) := by
  have hlost : Evolves W db (db.updateAttempts (fun r => r.id == row.1.id)
      (Attempt.lose now)) := loseRows_evolves _ now
  unfold loseAttempt
  refine .trans _ hlost (.trans _ (requeueLostAttempt_evolves (hfits.evolves hlost)
    row.1.id nodeId now "node_lost") ?_)
  dsimp only
  split
  · exact .of_rows rfl rfl
  · exact .updateTasks fun t _ _ => .of_rest hW rfl rfl rfl

theorem foldl_loseAttempt_evolves (hW : ∀ s, W s = true → s.waiting = true)
    (nodeId now : String) (rows : List (Attempt × LossRetryPolicy))
    (hfits : ∀ row ∈ rows, row.2.Fits db row.1.taskId) :
    Evolves W db (rows.foldl (loseAttempt nodeId now) db) := by
  induction rows generalizing db with
  | nil => exact .of_rows rfl rfl
  | cons row rows ih =>
      have hfirst := loseAttempt_evolves hW nodeId now row (hfits row (by simp))
      refine .trans _ hfirst (ih ?_)
      intro row' hrow'
      exact (hfits row' (by simp [hrow'])).evolves hfirst

theorem loseNodeAttempts_evolves (hW : ∀ s, W s = true → s.waiting = true)
    (hkeys : (db.tasks.map Task.id).Nodup) (nodeId now : String) :
    Evolves W db (loseNodeAttempts db nodeId now) := by
  unfold loseNodeAttempts
  dsimp only
  split
  · exact .of_rows rfl rfl
  · refine .trans _ (foldl_loseAttempt_evolves hW nodeId now _ ?_) (.of_rows rfl rfl)
    intro row hrow
    obtain ⟨a, _, hmap⟩ := List.mem_filterMap.mp hrow
    obtain ⟨t, hlookup, rfl⟩ := Option.map_eq_some_iff.mp hmap
    obtain ⟨ht, hid⟩ := lookup_mem hlookup
    exact hid ▸ fits_ofTask hkeys ht

theorem markOffline_evolves (hW : ∀ s, W s = true → s.waiting = true)
    (hkeys : (db.tasks.map Task.id).Nodup) (now : String) (row : Node) :
    Evolves W db (markOffline now db row) := by
  unfold markOffline
  dsimp only
  split
  · exact .of_rows rfl rfl
  · refine .trans (db.updateNodes _ _) (.of_rows rfl rfl)
      (loseNodeAttempts_evolves hW ?_ row.id now)
    exact hkeys

theorem foldl_markOffline_evolves (hW : ∀ s, W s = true → s.waiting = true)
    (hkeys : (db.tasks.map Task.id).Nodup) (now : String) (rows : List Node) :
    Evolves W db (rows.foldl (markOffline now) db) := by
  induction rows generalizing db with
  | nil => exact .of_rows rfl rfl
  | cons row rows ih =>
      have hfirst := markOffline_evolves hW hkeys now row
      exact .trans _ hfirst (ih (by rw [hfirst.task_ids]; exact hkeys))

def Op.reverts : Op → Bool
  | .revertExpiredLeases _ _ => true
  | _ => false

def Op.retried (db : Database) (taskId : String) : Op → Bool
  | .retryTask id now => id == taskId && (Store.retryTask db id now).2
  | _ => false

/-- Every operation on tasks and attempts that are there. -/
theorem step_evolves (hW : ∀ s, W s = true → s.waiting = true) (hdb : db.Sound) (op : Op)
    (hreverts : op.reverts = true → W .queued = true → W .assigned = true)
    (hcreate : ∀ req id now, op ≠ .createTask req id now)
    (hassign : ∀ env nodeId drained input, op ≠ .tryAssignBatch env nodeId drained input)
    (hretry : ∀ taskId now, op ≠ .retryTask taskId now) : Evolves W db (step db op) := by
  have hkeys := task_keys hdb
  cases op with
  | createTask req id now => exact absurd rfl (hcreate req id now)
  | tryAssignBatch env nodeId drained input =>
      exact absurd rfl (hassign env nodeId drained input)
  | retryTask taskId now => exact absurd rfl (hretry taskId now)
  | registerOrTouchNode req now =>
      rw [step, registerOrTouchNode]
      split <;> exact .of_rows rfl rfl
  | enrollNode req nodeId credHash now =>
      rw [step, enrollNode]
      split <;> exact .of_rows rfl rfl
  | rekeyNode nodeId credHash now =>
      rw [step, rekeyNode]
      split <;> exact .of_rows rfl rfl
  | heartbeat nodeId req now => exact .of_rows rfl rfl
  | revokeNode nodeId now =>
      rw [step, revokeNode]
      split <;> exact .of_rows rfl rfl
  | setNodeDrained nodeId drained now =>
      rw [step, setNodeDrained]
      split <;> exact .of_rows rfl rfl
  | setNodeDegraded nodeId => exact .of_rows rfl rfl
  | ackAttempt attemptId now => exact ackAttempt_evolves hW attemptId now
  | ingestEvents attemptId events now =>
      exact ingestEvents_evolves hW hdb attemptId events now
  | beginValidate attemptId now => exact beginValidate_evolves hW attemptId now
  | completeAttempt attemptId req approvalId now expires =>
      exact completeAttempt_evolves hW hdb attemptId req approvalId now expires
  | rejectAssignment attemptId reason now =>
      exact rejectAssignment_evolves hW hdb attemptId reason now
  | cancelTask taskId now => exact cancelTask_evolves hW taskId now
  | cancelStepTask taskId => exact cancelStepTask_evolves hW taskId
  | revertExpiredLeases now fence =>
      exact revertLeases_evolves (hreverts rfl) now fence _
  | loseNodeAttempts nodeId now => exact loseNodeAttempts_evolves hW hkeys nodeId now
  | loseNodeAttemptsIfOffline nodeId now =>
      rw [step, loseNodeAttemptsIfOffline]
      split
      · split
        · exact loseNodeAttempts_evolves hW hkeys nodeId now
        · exact .of_rows rfl rfl
      · exact .of_rows rfl rfl
  | markNodeOffline nodeId now =>
      rw [step, markNodeOffline]
      dsimp only
      split
      · refine .trans (db.updateNodes _ _) (.of_rows rfl rfl)
          (loseNodeAttempts_evolves hW ?_ nodeId now)
        exact hkeys
      · exact .of_rows rfl rfl
  | markOfflineNodes cutoff now => exact foldl_markOffline_evolves hW hkeys now _
  | reconcileActiveAttempts => exact .of_rows rfl rfl

/-- What one operation can do to the attempts and to the task `k`. -/
structure Advances (W : TaskStatus → Bool) (k : String) (db db' : Database) : Prop where
  born : ∀ a' ∈ db'.attempts, (∃ a ∈ db.attempts, a.Follows a') ∨
    (∀ a ∈ db.attempts, a.id ≠ a'.id) ∧ a'.status = .assigned
  kept : ∀ a ∈ db.attempts, ∃ a' ∈ db'.attempts, a.Follows a'
  turned : ∀ t' ∈ db'.tasks, t'.id = k → (∃ t ∈ db.tasks, t.Turns W db t') ∨
    ∀ t ∈ db.tasks, t.id ≠ k

theorem Evolves.advances {db' : Database} (h : Evolves W db db') (k : String) :
    Advances W k db db' where
  born _ ha' := .inl (forall₂_right h.attempts ha')
  kept _ ha := forall₂_left h.attempts ha
  turned _ ht' _ := .inl (forall₂_right h.tasks ht')

theorem createTask_advances (req : CreateTaskRequest) (id now k : String) :
    Advances W k db (createTask db req id now).1 := by
  unfold createTask
  cases hrow : db.task id with
  | some t => exact Evolves.advances (.of_rows rfl rfl) k
  | none =>
      refine ⟨fun a' ha' => .inl ⟨a', ha', .refl a'⟩, fun a ha => ⟨a, ha, .refl a⟩, ?_⟩
      intro t' ht' hid
      rcases List.mem_append.mp ht' with hold | hnew
      · exact .inl ⟨t', hold, .refl W db t'⟩
      · right
        rw [List.mem_singleton.mp hnew] at hid
        intro t ht hsame
        exact lookup_none hrow t ht (hsame.trans hid.symm)

/-- New attempts are assigned and come under new ids, queued tasks become
assigned. -/
structure Hands (W : TaskStatus → Bool) (db db' : Database) : Prop where
  born : ∀ a' ∈ db'.attempts, a' ∈ db.attempts ∨
    (∀ a ∈ db.attempts, a.id ≠ a'.id) ∧ a'.status = .assigned
  kept : ∀ a ∈ db.attempts, a ∈ db'.attempts
  turned : ∀ t' ∈ db'.tasks, ∃ t ∈ db.tasks, t'.id = t.id ∧
    t'.maxAttempts = t.maxAttempts ∧ (W t'.status = true → W t.status = true)

theorem Hands.refl (db : Database) : Hands W db db :=
  ⟨fun _ => .inl, fun _ => id, fun t ht => ⟨t, ht, rfl, rfl, id⟩⟩

theorem Hands.trans {db' db'' : Database} (first : Hands W db db')
    (second : Hands W db' db'') : Hands W db db'' := by
  constructor
  · intro a ha
    rcases second.born a ha with hold | ⟨hfresh, hstatus⟩
    · exact first.born a hold
    · exact .inr ⟨fun old hold => hfresh old (first.kept old hold), hstatus⟩
  · exact fun a ha => second.kept a (first.kept a ha)
  · intro t'' ht''
    obtain ⟨t', ht', hid', hmax', hwaits'⟩ := second.turned t'' ht''
    obtain ⟨t, ht, hid, hmax, hwaits⟩ := first.turned t' ht'
    exact ⟨t, ht, hid'.trans hid, hmax'.trans hmax, fun h => hwaits (hwaits' h)⟩

theorem Hands.advances {db' : Database} (h : Hands W db db') (k : String) :
    Advances W k db db' := by
  refine ⟨?_, fun a ha => ⟨a, h.kept a ha, .refl a⟩, ?_⟩
  · intro a' ha'
    rcases h.born a' ha' with hold | hfresh
    · exact .inl ⟨a', hold, .refl a'⟩
    · exact .inr hfresh
  · intro t' ht' _
    obtain ⟨t, ht, hid, hmax, hwaits⟩ := h.turned t' ht'
    exact .inl ⟨t, ht, hid, hmax, fun hw => .inl (hwaits hw)⟩

theorem assignTask_hands (hW : W .assigned = true → W .queued = true) {before : Database}
    {nodeId : String} {input : AssignInput} {index : Nat} {t : Task} {next : Database}
    {given : Option Assignment}
    (h : assignTask before nodeId input index db t = some (next, given)) :
    Hands W db next := by
  have hturn : Hands W db (db.updateTasks (fun row => row.id == t.id && row.status == .queued)
      fun row => { row with status := .assigned,
                            assignedAttemptId := some (input.attemptId index),
                            avoidNodeId := none }) := by
    refine ⟨fun _ => .inl, fun _ => id, ?_⟩
    intro t' ht'
    obtain ⟨old, hold, rfl⟩ := mem_updateWhere.mp ht'
    refine ⟨old, hold, ?_⟩
    split
    · rename_i hhit
      rw [Bool.and_eq_true, beq_iff_eq, beq_iff_eq] at hhit
      rw [hhit.2]
      exact ⟨rfl, rfl, hW⟩
    · exact ⟨rfl, rfl, id⟩
  unfold assignTask at h
  dsimp only at h
  split at h
  · cases h
    exact hturn
  · split at h
    · cases h
    · rename_i hfree
      cases h
      refine hturn.trans ⟨?_, fun a ha => List.mem_append_left _ ha,
        fun t ht => ⟨t, ht, rfl, rfl, id⟩⟩
      intro a' ha'
      rcases List.mem_append.mp ha' with hold | hnew
      · exact .inl hold
      · rw [List.mem_singleton.mp hnew]
        refine .inr ⟨?_, rfl⟩
        intro a ha hid
        exact hfree (List.any_eq_true.mpr ⟨a, ha, by simp [hid]⟩)

theorem assignTasks_hands (hW : W .assigned = true → W .queued = true) {before : Database}
    {nodeId : String} {input : AssignInput} {index : Nat} {ts : List Task}
    {next : Database} {batch : List Assignment}
    (h : assignTasks before nodeId input index db ts = some (next, batch)) :
    Hands W db next := by
  induction ts generalizing db index batch with
  | nil =>
      cases h
      exact .refl _
  | cons t rest ih =>
      unfold assignTasks at h
      split at h
      · cases h
      · rename_i first given hfirst
        split at h
        · cases h
        · rename_i last others hrest
          cases h
          exact (assignTask_hands hW hfirst).trans (ih hrest)

theorem tryAssignBatch_advances (hW : W .assigned = true → W .queued = true)
    (env : SchedulerEnv) (nodeId : String) (drained : Bool) (input : AssignInput)
    (k : String) : Advances W k db (tryAssignBatch env db nodeId drained input).1 := by
  rcases tryAssignBatch_cases env db nodeId drained input rfl with
    ⟨htasks, hattempts, _⟩ | ⟨n, eligible, next, batch, _, _, hbatch, heq⟩
  · exact (Evolves.of_rows htasks hattempts).advances k
  · rw [heq]
    obtain ⟨hborn, hkept, hturned⟩ := assignTasks_hands hW hbatch
    have hhands : Hands W db (next.takeSlots nodeId batch.length) :=
      ⟨hborn, hkept, hturned⟩
    exact hhands.advances k

theorem retryTask_advances (taskId now k : String)
    (h : taskId = k → (retryTask db taskId now).2 = true → W .queued = false) :
    Advances W k db (retryTask db taskId now).1 := by
  unfold retryTask at h ⊢
  split
  · exact Evolves.advances (.of_rows rfl rfl) k
  · rename_i row hrow
    rw [hrow] at h
    dsimp only at h
    split
    · rename_i hstatus
      rw [if_pos hstatus] at h
      refine ⟨fun a' ha' => .inl ⟨a', ha', .refl a'⟩, fun a ha => ⟨a, ha, .refl a⟩, ?_⟩
      intro t' ht' hid
      obtain ⟨t, ht, rfl⟩ := mem_updateWhere.mp ht'
      refine .inl ⟨t, ht, ?_⟩
      by_cases hhit : t.id = taskId
      · simp only [hhit, beq_self_eq_true, if_true] at hid ⊢
        refine ⟨hhit.symm, rfl, fun hwaits => ?_⟩
        rw [h hid rfl] at hwaits
        cases hwaits
      · simp only [beq_iff_eq, hhit, if_false]
        exact .refl W db t
    · refine Evolves.advances ?_ k
      exact .of_rows rfl rfl

theorem step_advances (hW : ∀ s, W s = true → s.waiting = true)
    (hassigned : W .assigned = true → W .queued = true) (hdb : db.Sound) (op : Op)
    (hreverts : op.reverts = true → W .queued = true → W .assigned = true) (k : String)
    (hretried : op.retried db k = true → W .queued = false) :
    Advances W k db (step db op) := by
  cases op with
  | createTask req id now => exact createTask_advances req id now k
  | tryAssignBatch env nodeId drained input =>
      exact tryAssignBatch_advances hassigned env nodeId drained input k
  | retryTask taskId now =>
      refine retryTask_advances taskId now k ?_
      intro hid hdone
      exact hretried (by simp [Op.retried, hid ▸ hdone, hid])
  | _ => exact (step_evolves hW hdb _ hreverts (by simp) (by simp) (by simp)).advances k

end Operations

section Runs

/-- A run of the store, with the attempts of one task that have been running
in it and the manual retries of the task that succeeded. -/
structure Watch where
  db : Database
  ran : List String := []
  retried : Nat := 0

def Database.running (db : Database) (taskId : String) : List String :=
  (db.attempts.filter fun a => a.taskId == taskId && a.status == .running).map Attempt.id

def watch (taskId : String) (w : Watch) (op : Op) : Watch where
  db := step w.db op
  ran := w.ran ++ ((step w.db op).running taskId).filter fun id => !w.ran.contains id
  retried := w.retried + (op.retried w.db taskId).toNat

theorem watch_foldl_db (taskId : String) (w : Watch) (ops : List Op) :
    (ops.foldl (watch taskId) w).db = ops.foldl step w.db := by
  induction ops generalizing w with
  | nil => rfl
  | cons op ops ih => exact ih (watch taskId w op)

/-- The attempts that ran, and one more while the task waits, are within the
budget and the manual retries. -/
structure Budgeted (taskId : String) (w : Watch) : Prop where
  sound : w.db.Sound
  nodup : w.ran.Nodup
  rows : ∀ id ∈ w.ran, ∃ a ∈ w.db.attempts, a.id = id ∧ a.taskId = taskId
  complete : ∀ a ∈ w.db.attempts, a.taskId = taskId → a.status = .running → a.id ∈ w.ran
  spent : ∀ t ∈ w.db.tasks, t.id = taskId →
    (w.ran.length : Int) + t.status.waiting.toNat ≤ max 1 t.maxAttempts + w.retried

variable {taskId : String} {w : Watch}

theorem mem_running {db : Database} {id : String} : id ∈ db.running taskId ↔
    ∃ a ∈ db.attempts, a.id = id ∧ a.taskId = taskId ∧ a.status = .running := by
  simp only [Database.running, List.mem_map, List.mem_filter, Bool.and_eq_true, beq_iff_eq]
  constructor
  · rintro ⟨a, ⟨ha, htask, hstatus⟩, hid⟩
    exact ⟨a, ha, hid, htask, hstatus⟩
  · rintro ⟨a, ha, hid, htask, hstatus⟩
    exact ⟨a, ⟨ha, htask, hstatus⟩, hid⟩

theorem running_length_le {db : Database} (hdb : db.Sound) :
    (db.running taskId).length ≤ 1 := by
  rw [Database.running, List.length_map, ← List.countP_eq_length_filter]
  refine (List.countP_mono_left ?_).trans (inFlight_count_le_one hdb taskId)
  intro a _ ha
  simp only [Bool.and_eq_true, beq_iff_eq] at ha ⊢
  rw [ha.2]
  exact ⟨ha.1, rfl⟩

theorem Budgeted.ran_le (h : Budgeted taskId w) :
    w.ran.length ≤ w.db.attemptCount taskId := by
  have hsub : w.ran ⊆ w.db.attemptsOf taskId := by
    intro id hid
    obtain ⟨a, ha, rfl, htask⟩ := h.rows id hid
    exact List.mem_map_of_mem (List.mem_filter.mpr ⟨ha, by simp [htask]⟩)
  have hle := (List.subperm_of_subset h.nodup hsub).length_le
  rwa [Database.attemptsOf, List.length_map, ← List.countP_eq_length_filter] at hle

/-- An attempt that has just come to run was assigned, so its task was waiting
and no longer is. -/
theorem Budgeted.started (h : Budgeted taskId w) {db' : Database} {W : TaskStatus → Bool}
    (hadv : Advances W taskId w.db db') {a' : Attempt} (ha' : a' ∈ db'.attempts)
    (htask : a'.taskId = taskId) (hrunning : a'.status = .running) (hnew : a'.id ∉ w.ran) :
    ∃ t ∈ w.db.tasks, t.id = taskId ∧ t.status = .assigned := by
  rcases hadv.born a' ha' with ⟨a, ha, hid, howner, hstatus⟩ | ⟨_, hassigned⟩
  · have hassigned : a.status = .assigned := by
      rcases hstatus.2 hrunning with hassigned | hran
      · exact hassigned
      · exact absurd (hid ▸ h.complete a ha (howner.symm.trans htask) hran) hnew
    obtain ⟨t, ht, hown⟩ := owner_exists h.sound ha
    refine ⟨t, ht, hown.trans (howner.symm.trans htask), ?_⟩
    rw [(owner_shows h.sound ha (by rw [hassigned]; rfl) ht hown).2, hassigned]
    rfl
  · rw [hrunning] at hassigned
    cases hassigned

private theorem fresh_running_nil {ran found : List String}
    (h : ∀ id ∈ found, id ∈ ran) : (found.filter fun id => !ran.contains id) = [] := by
  rw [List.filter_eq_nil_iff]
  intro id hid
  simp [h id hid]

theorem Budgeted.spent_step (h : Budgeted taskId w) {db' : Database} (hdb' : db'.Sound)
    {W : TaskStatus → Bool} (hW : ∀ s, W s = true → s.waiting = true)
    (hadv : Advances W taskId w.db db') {t' : Task} (ht' : t' ∈ db'.tasks)
    (hid : t'.id = taskId) :
    ((w.ran ++ (db'.running taskId).filter fun id => !w.ran.contains id).length : Int) +
      (W t'.status).toNat ≤ max 1 t'.maxAttempts + w.retried := by
  by_cases hnew : ∀ id ∈ db'.running taskId, id ∈ w.ran
  · rw [fresh_running_nil hnew, List.append_nil]
    rcases hadv.turned t' ht' hid with ⟨t, ht, hid', hmax, hturn⟩ | hcreated
    · have hspent := h.spent t ht (hid'.symm.trans hid)
      rw [hmax]
      cases hwaits : W t'.status with
      | false =>
          simp only [Bool.toNat_false]
          omega
      | true =>
          rcases hturn hwaits with hwaited | hbudget
          · rw [hW _ hwaited] at hspent
            exact hspent
          · have hle := h.ran_le
            rw [← hid'.symm.trans hid] at hle
            simp only [Bool.toNat_true]
            omega
    · have hnone : w.ran = [] := by
        by_contra hsome
        obtain ⟨id, hmem⟩ := List.exists_mem_of_ne_nil _ hsome
        obtain ⟨a, ha, _, htask⟩ := h.rows id hmem
        obtain ⟨t, ht, hown⟩ := owner_exists h.sound ha
        exact hcreated t ht (hown.trans htask)
      rw [hnone]
      have hone := (W t'.status).toNat_le
      simp only [List.length_nil]
      omega
  · simp only [not_forall] at hnew
    obtain ⟨id, hfound, hfresh⟩ := hnew
    obtain ⟨a', ha', rfl, htask, hrunning⟩ := mem_running.mp hfound
    obtain ⟨t, ht, htid, hassigned⟩ := h.started hadv ha' htask hrunning hfresh
    have hspent := h.spent t ht htid
    rw [hassigned] at hspent
    have hstatus := (owner_shows hdb' ha' (by rw [hrunning]; rfl) ht' (hid.trans htask.symm)).2
    have hmax : t'.maxAttempts = t.maxAttempts := by
      rcases hadv.turned t' ht' hid with ⟨old, hold, hid', hmax, _⟩ | hcreated
      · rw [hmax, row_unique (task_keys h.sound) hold ht
          (hid'.symm.trans (hid.trans htid.symm))]
      · exact absurd htid (hcreated t ht)
    have hone := (List.length_filter_le (fun id => !w.ran.contains id)
      (db'.running taskId)).trans (running_length_le hdb')
    have hrest : W .running = false := by
      by_contra hwaits
      exact absurd (hW _ (by simpa using hwaits)) (by decide)
    rw [hstatus, hrunning, hmax, List.length_append]
    simp only [AttemptStatus.taskStatus, TaskStatus.waiting, hrest, Bool.toNat_false,
      Bool.toNat_true] at hspent ⊢
    omega

/-- Everything but the count, for any step that advances the attempts. -/
theorem Budgeted.of_advances (h : Budgeted taskId w) {W : TaskStatus → Bool} {op : Op}
    (hadv : Advances W taskId w.db (step w.db op))
    (hspent : ∀ t ∈ (step w.db op).tasks, t.id = taskId →
      ((watch taskId w op).ran.length : Int) + t.status.waiting.toNat ≤
        max 1 t.maxAttempts + (watch taskId w op).retried) :
    Budgeted taskId (watch taskId w op) where
  sound := (step_stepped h.sound op).sound h.sound
  nodup := by
    have hdb' := (step_stepped h.sound op).sound h.sound
    have hids : ((step w.db op).running taskId).Nodup :=
      (attempt_keys hdb').sublist (List.filter_sublist.map _)
    refine List.nodup_append.mpr ⟨h.nodup, hids.filter _, ?_⟩
    intro id hid id' hid' heq
    rw [List.mem_filter] at hid'
    simp [← heq, hid] at hid'
  rows := by
    intro id hid
    rcases List.mem_append.mp hid with hold | hnew
    · obtain ⟨a, ha, rfl, htask⟩ := h.rows id hold
      obtain ⟨a', ha', hid', htask', _⟩ := hadv.kept a ha
      exact ⟨a', ha', hid', htask'.trans htask⟩
    · obtain ⟨a', ha', hid', htask, _⟩ := mem_running.mp (List.mem_filter.mp hnew).1
      exact ⟨a', ha', hid', htask⟩
  complete := by
    intro a' ha' htask hrunning
    have hfound : a'.id ∈ (step w.db op).running taskId :=
      mem_running.mpr ⟨a', ha', rfl, htask, hrunning⟩
    refine List.mem_append.mpr ?_
    by_cases hold : a'.id ∈ w.ran
    · exact .inl hold
    · exact .inr (List.mem_filter.mpr ⟨hfound, by simpa using hold⟩)
  spent := hspent

theorem Budgeted.step (h : Budgeted taskId w) (op : Op) :
    Budgeted taskId (watch taskId w op) := by
  have hdb' := (step_stepped h.sound op).sound h.sound
  cases hretried : op.retried w.db taskId with
  | false =>
      have hadv := step_advances (fun _ => id) (fun _ => rfl) h.sound op (fun _ _ => rfl)
        taskId (by simp [hretried])
      refine h.of_advances hadv ?_
      intro t ht hid
      have hspent := h.spent_step hdb' (fun _ => id) hadv ht hid
      simpa [watch, hretried] using hspent
  | true =>
      have hW : ∀ s : TaskStatus, false = true → s.waiting = true := by simp
      have hadv := step_advances hW id h.sound op (fun _ => id) taskId (fun _ => rfl)
      refine h.of_advances hadv ?_
      intro t ht hid
      have hspent := h.spent_step hdb' hW hadv ht hid
      have hone := t.status.waiting.toNat_le
      simp only [watch, hretried, Bool.toNat_true, Bool.toNat_false] at hspent ⊢
      omega

theorem Budgeted.fresh {db : Database} (hfresh : db.Fresh) : Budgeted taskId ⟨db, [], 0⟩ where
  sound := sound_of_fresh hfresh
  nodup := List.nodup_nil
  rows := by simp
  complete := by simp [hfresh.2.1]
  spent := by simp [hfresh.1]

theorem budgeted_run {db : Database} (hfresh : db.Fresh) (ops : List Op)
    (taskId : String) :
    Budgeted taskId (ops.foldl (watch taskId) ⟨db, [], 0⟩) := by
  refine Runs.invariant (Budgeted taskId) ?_ (Runs.foldl (watch taskId) ⟨db, [], 0⟩ ops)
    (.fresh hfresh)
  rintro w op _ hw rfl
  exact hw.step op

/-- In every run, the attempts of a task that ever ran are at most its budget
and its successful manual retries.  All attempts count for the budget, however
they ended: apart from the lease sweep and a manual retry, a step puts a task
back in the queue only while it has fewer attempts than its budget. -/
theorem retry_budget {db₀ : Database} (hfresh : db₀.Fresh) (ops : List Op)
    (taskId : String) :
    (∀ t ∈ (ops.foldl step db₀).tasks, t.id = taskId →
      ((ops.foldl (watch taskId) ⟨db₀, [], 0⟩).ran.length : Int) ≤
        max 1 t.maxAttempts + (ops.foldl (watch taskId) ⟨db₀, [], 0⟩).retried) ∧
    ∀ op : Op, op.reverts = false → op.retries taskId = false →
      ∀ t ∈ (ops.foldl step db₀).tasks, t.id = taskId → t.status ≠ .queued →
      ∀ t' ∈ (step (ops.foldl step db₀) op).tasks, t'.id = taskId → t'.status = .queued →
        ((ops.foldl step db₀).attemptCount taskId : Int) < t.maxAttempts := by
  have hrun := budgeted_run hfresh ops taskId
  have hdb := watch_foldl_db taskId ⟨db₀, [], 0⟩ ops
  constructor
  · intro t ht hid
    have hspent := hrun.spent t (hdb ▸ ht) hid
    omega
  · intro op hreverts hretries t ht hid hstatus t' ht' hid' hqueued
    have hsound : (ops.foldl step db₀).Sound := hdb ▸ hrun.sound
    have hadv : Advances (· == .queued) taskId (ops.foldl step db₀)
        (step (ops.foldl step db₀) op) := by
      refine step_advances ?_ (by simp) hsound op (by simp [hreverts]) taskId ?_
      · intro s hs
        rw [beq_iff_eq.mp hs]
        rfl
      · intro hretried
        cases op <;> simp_all [Op.retried, Op.retries]
    rcases hadv.turned t' ht' hid' with ⟨old, hold, hsame, hmax, hturn⟩ | hcreated
    · have heq := row_unique (task_keys hsound) hold ht
        (hsame.symm.trans (hid'.trans hid.symm))
      subst heq
      rcases hturn (by simp [hqueued]) with hwas | hbudget
      · exact absurd (beq_iff_eq.mp hwas) hstatus
      · rwa [hid] at hbudget
    · exact absurd hid (hcreated t ht)

/-- Of three attempts the first misses its lease, the second is refused and
only the third runs. -/
def thirdRuns : List Op :=
  [.registerOrTouchNode ⟨"n1", "n1", ["claude"], ["*"], 1⟩ morning,
   .createTask { prompt := "fix it", repository := "app", adapter := "claude",
                 maxAttempts := 3 } "t1" morning,
   assignOne "a1",
   .revertExpiredLeases "2026-01-01T08:01:00Z" id,
   assignOne "a2",
   .rejectAssignment "a2" "busy" morning,
   assignOne "a3",
   .ackAttempt "a3" morning]

theorem retry_budget_third :
    (thirdRuns.foldl (watch "t1") ⟨{}, [], 0⟩).ran = ["a3"] ∧
      ∀ t ∈ (thirdRuns.foldl step {}).tasks, t.id = "t1" →
        ((thirdRuns.foldl (watch "t1") ⟨{}, [], 0⟩).ran.length : Int) ≤
          max 1 t.maxAttempts + (thirdRuns.foldl (watch "t1") ⟨{}, [], 0⟩).retried :=
  ⟨by decide, (retry_budget ⟨rfl, rfl, rfl⟩ thirdRuns "t1").1⟩

/-- The attempts that never ran have spent the budget: the failure of the one
that ran is not retried. -/
theorem unstarted_attempts_spend : ¬ ∀ (db₀ : Database) (ops : List Op)
    (taskId attemptId : String) (req : CompleteAttemptRequest)
    (approvalId now expires : String), db₀.Fresh →
    ∀ a ∈ (ops.foldl step db₀).attempts, a.id = attemptId → a.taskId = taskId →
      a.status = .running → a.cancelRequested = false → req.success = false →
    ∀ t ∈ (ops.foldl step db₀).tasks, t.id = taskId →
      ((ops.foldl (watch taskId) ⟨db₀, [], 0⟩).ran.length : Int) < t.maxAttempts →
    ∀ t' ∈ (completeAttempt (ops.foldl step db₀) attemptId req approvalId now expires).1.tasks,
      t'.id = taskId → t'.status = .queued := by
  intro h
  have hretried := h {} thirdRuns "t1" "a3" { exitCode := 1 } "p1" morning morning
    ⟨rfl, rfl, rfl⟩
  revert hretried
  decide

end Runs

end AgentGrid.Store
