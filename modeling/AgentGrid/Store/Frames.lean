import AgentGrid.Store.Guarantees

/-!
# What the operations leave alone

No operation renumbers an attempt, and only a heartbeat changes the network mode
of a node.  So the attempts of a task are numbered without a gap, and the mode of
a row is the one its last heartbeat reported.
-/

namespace AgentGrid.Store

open AgentGrid.Foundation AgentGrid.Foundation.Ledger

def Attempt.entry (a : Attempt) : String × Int := (a.taskId, a.number)

def Node.mode (n : Node) : String × String := (n.id, n.networkMode)

/-- The attempts with their numbers and the nodes with their modes are the same. -/
structure Keeps (db db' : Database) : Prop where
  attempts : db'.attempts.map Attempt.entry = db.attempts.map Attempt.entry
  nodes : db'.nodes.map Node.mode = db.nodes.map Node.mode

namespace Keeps

variable {db db' db'' : Database}

theorem of_rows (hattempts : db'.attempts = db.attempts) (hnodes : db'.nodes = db.nodes) :
    Keeps db db' :=
  ⟨by rw [hattempts], by rw [hnodes]⟩

theorem refl (db : Database) : Keeps db db := of_rows rfl rfl

theorem trans (first : Keeps db db') (second : Keeps db' db'') : Keeps db db'' :=
  ⟨second.attempts.trans first.attempts, second.nodes.trans first.nodes⟩

theorem of_attempts {p : Attempt → Bool} {f : Attempt → Attempt}
    (hattempts : db'.attempts = updateWhere p f db.attempts)
    (hf : ∀ a, (f a).entry = a.entry) (hnodes : db'.nodes = db.nodes) : Keeps db db' :=
  ⟨by rw [hattempts, map_updateWhere_of_key hf], by rw [hnodes]⟩

theorem of_nodes {p : Node → Bool} {f : Node → Node}
    (hnodes : db'.nodes = updateWhere p f db.nodes)
    (hf : ∀ n, (f n).mode = n.mode) (hattempts : db'.attempts = db.attempts) : Keeps db db' :=
  ⟨by rw [hattempts], by rw [hnodes, map_updateWhere_of_key hf]⟩

/-- The writes on attempts and on the slots of a node. -/
theorem of_release {p : Attempt → Bool} {f : Attempt → Attempt} {q : Node → Bool}
    {g : Node → Node} (hattempts : db'.attempts = updateWhere p f db.attempts)
    (hf : ∀ a, (f a).entry = a.entry) (hnodes : db'.nodes = updateWhere q g db.nodes)
    (hg : ∀ n, (g n).mode = n.mode) : Keeps db db' :=
  ⟨by rw [hattempts, map_updateWhere_of_key hf], by rw [hnodes, map_updateWhere_of_key hg]⟩

theorem attemptCount (h : Keeps db db') (taskId : String) :
    db'.attemptCount taskId = db.attemptCount taskId := by
  have hcount : ∀ rows : List Attempt, rows.countP (fun a => a.taskId == taskId) =
      (rows.map Attempt.entry).countP (fun e => e.1 == taskId) := by
    intro rows
    rw [List.countP_map]
    rfl
  rw [Database.attemptCount, Database.attemptCount, hcount, hcount, h.attempts]

end Keeps

section Operations

variable (db : Database)

theorem ackAttempt_keeps (attemptId now : String) : Keeps db (ackAttempt db attemptId now).1 := by
  unfold ackAttempt
  split
  · exact .refl db
  · split
    · exact .refl db
    · dsimp only
      split
      · exact .refl db
      · exact .of_attempts rfl (fun _ => rfl) rfl

theorem ingestEvents_keeps (attemptId : String) (events : List IncomingEvent) (now : String) :
    Keeps db (ingestEvents db attemptId events now).1 := by
  unfold ingestEvents
  split
  · exact .refl db
  · split
    · exact .refl db
    · dsimp only
      split
      · exact .of_attempts rfl (fun _ => rfl) rfl
      · exact .of_rows rfl rfl

theorem beginValidate_keeps (attemptId now : String) :
    Keeps db (beginValidate db attemptId now).1 := by
  unfold beginValidate
  dsimp only
  split
  · exact .refl db
  · exact .of_attempts rfl (fun _ => rfl) rfl

theorem finishAttempt_keeps (a : Attempt) (task : Task) (req : CompleteAttemptRequest)
    (attemptTarget : AttemptStatus) (taskTarget : TaskStatus) (approvalId now expires : String) :
    Keeps db (finishAttempt db a task req attemptTarget taskTarget approvalId now expires) := by
  have hattempts : (finishAttempt db a task req attemptTarget taskTarget approvalId now
      expires).attempts =
        updateWhere (fun r => r.id == a.id) (req.record attemptTarget now) db.attempts := by
    unfold finishAttempt
    dsimp only
    split <;> exact noteSilentSuccess_attempts _ _ _ _ _
  have hnodes : (finishAttempt db a task req attemptTarget taskTarget approvalId now
      expires).nodes = (db.freeSlots a.nodeId 1).nodes := by
    unfold finishAttempt
    dsimp only
    split <;> exact congrArg (updateWhere _ _) (noteSilentSuccess_nodes _ _ _ _ _)
  exact .of_release hattempts (fun _ => rfl) hnodes fun _ => rfl

theorem completeAttempt_keeps (attemptId : String) (req : CompleteAttemptRequest)
    (approvalId now expires : String) :
    Keeps db (completeAttempt db attemptId req approvalId now expires).1 := by
  unfold completeAttempt
  split
  · exact .refl db
  · split
    · exact .of_rows rfl rfl
    · split
      · exact .refl db
      · split
        · exact .refl db
        · exact finishAttempt_keeps db _ _ req _ _ approvalId now expires

theorem requeueLostAttempt_keeps (taskId attemptId nodeId now reason : String)
    (policy : LossRetryPolicy) :
    Keeps db (requeueLostAttempt db taskId attemptId nodeId now reason policy).1 := by
  unfold requeueLostAttempt
  split
  · exact .refl db
  · split
    · exact .refl db
    · dsimp only
      split
      · exact .of_rows rfl rfl
      · exact .of_rows rfl rfl

theorem rejectAssignment_keeps (attemptId reason now : String) :
    Keeps db (rejectAssignment db attemptId reason now).1 := by
  unfold rejectAssignment
  split
  · exact .refl db
  · split
    · exact .refl db
    · dsimp only
      split
      · exact .refl db
      · have hlost : Keeps db (db.updateAttempts
            (fun a => a.id == attemptId && a.status == .assigned) (Attempt.lose now)) :=
          .of_attempts rfl (fun _ => rfl) rfl
        refine hlost.trans ?_
        generalize db.updateAttempts _ _ = lost
        rename_i row _ _ _
        have hrequeued := requeueLostAttempt_keeps lost row.taskId attemptId row.nodeId now
          "node_rejected" (((lost.task row.taskId).map LossRetryPolicy.ofTask).getD .terminal)
        refine hrequeued.trans ?_
        generalize requeueLostAttempt lost _ _ _ _ _ _ = requeued
        split
        · exact .of_nodes rfl (fun _ => rfl) rfl
        · exact .of_nodes rfl (fun _ => rfl) rfl

theorem cancelTask_keeps (taskId now : String) : Keeps db (cancelTask db taskId now).1 := by
  unfold cancelTask
  split
  · exact .refl db
  · split
    · exact .of_rows rfl rfl
    · split
      · exact .of_attempts rfl (fun _ => rfl) rfl
      · exact .refl db

theorem retryTask_keeps (taskId now : String) : Keeps db (retryTask db taskId now).1 := by
  unfold retryTask
  split
  · exact .refl db
  · split
    · exact .of_rows rfl rfl
    · exact .of_rows rfl rfl

theorem revertLease_keeps (now : String) (fence : String → String) (row : Attempt) :
    Keeps db (revertLease now fence db row).1 := by
  unfold revertLease
  dsimp only
  split
  · exact .of_attempts rfl (fun _ => rfl) rfl
  · exact .of_release rfl (fun _ => rfl) rfl fun _ => rfl

theorem revertLeases_keeps (now : String) (fence : String → String) (rows : List Attempt) :
    Keeps db (revertLeases now fence db rows).1 := by
  induction rows generalizing db with
  | nil => exact .refl db
  | cons row rows ih => exact (revertLease_keeps db now fence row).trans (ih _)

theorem loseAttempt_keeps (nodeId now : String) (row : Attempt × LossRetryPolicy) :
    Keeps db (loseAttempt nodeId now db row) := by
  have hlost : Keeps db (db.updateAttempts (fun r => r.id == row.1.id) (Attempt.lose now)) :=
    .of_attempts rfl (fun _ => rfl) rfl
  unfold loseAttempt
  refine hlost.trans ?_
  dsimp only
  generalize db.updateAttempts _ _ = lost
  have hrequeued := requeueLostAttempt_keeps lost row.1.taskId row.1.id nodeId now "node_lost"
    row.2
  refine hrequeued.trans ?_
  split
  · exact .refl _
  · exact .of_rows rfl rfl

theorem loseNodeAttempts_keeps (nodeId now : String) :
    Keeps db (loseNodeAttempts db nodeId now) := by
  have hrows : ∀ (rows : List (Attempt × LossRetryPolicy)) (db : Database),
      Keeps db (rows.foldl (loseAttempt nodeId now) db) := by
    intro rows
    induction rows with
    | nil => exact Keeps.refl
    | cons row rows ih => exact fun db => (loseAttempt_keeps db nodeId now row).trans (ih _)
  unfold loseNodeAttempts
  dsimp only
  split
  · exact .refl db
  · refine (hrows (inFlightRows db nodeId) db).trans ?_
    exact .of_nodes rfl (fun _ => rfl) rfl

theorem markOffline_keeps (now : String) (row : Node) : Keeps db (markOffline now db row) := by
  have hoffline : Keeps db (db.updateNodes (fun n => n.id == row.id && n.status == .online)
      fun n => { n with status := .offline }) :=
    .of_nodes rfl (fun _ => rfl) rfl
  unfold markOffline
  dsimp only
  split
  · exact hoffline
  · exact hoffline.trans (loseNodeAttempts_keeps _ _ _)

theorem markOfflineNodes_keeps (cutoff now : String) :
    Keeps db (markOfflineNodes db cutoff now) := by
  have hrows : ∀ (rows : List Node) (db : Database),
      Keeps db (rows.foldl (markOffline now) db) := by
    intro rows
    induction rows with
    | nil => exact Keeps.refl
    | cons row rows ih => exact fun db => (markOffline_keeps db now row).trans (ih _)
  exact hrows _ db

end Operations

/-- The operations that add a row or report a mode. -/
def Op.rewrites : Op → Bool
  | .registerOrTouchNode .. | .enrollNode .. | .heartbeat .. | .tryAssignBatch .. => true
  | _ => false

theorem step_keeps (db : Database) (op : Op) (hop : op.rewrites = false) :
    Keeps db (step db op) := by
  cases op with
  | registerOrTouchNode req now => cases hop
  | enrollNode req nodeId credHash now => cases hop
  | heartbeat nodeId req now => cases hop
  | tryAssignBatch env nodeId drained input => cases hop
  | createTask req id now =>
      rw [step, createTask]
      split <;> exact .of_rows rfl rfl
  | rekeyNode nodeId credHash now =>
      rw [step, rekeyNode]
      split
      · exact .refl db
      · exact .of_nodes rfl (fun _ => rfl) rfl
  | revokeNode nodeId now =>
      rw [step, revokeNode]
      split
      · exact .of_nodes rfl (fun _ => rfl) rfl
      · exact .of_nodes rfl (fun _ => rfl) rfl
  | setNodeDrained nodeId drained now =>
      rw [step, setNodeDrained]
      split
      · exact .of_nodes rfl (fun _ => rfl) rfl
      · exact .of_nodes rfl (fun _ => rfl) rfl
  | setNodeDegraded nodeId => exact .of_nodes rfl (fun _ => rfl) rfl
  | ackAttempt attemptId now => exact ackAttempt_keeps db attemptId now
  | ingestEvents attemptId events now => exact ingestEvents_keeps db attemptId events now
  | beginValidate attemptId now => exact beginValidate_keeps db attemptId now
  | completeAttempt attemptId req approvalId now expires =>
      exact completeAttempt_keeps db attemptId req approvalId now expires
  | rejectAssignment attemptId reason now => exact rejectAssignment_keeps db attemptId reason now
  | cancelTask taskId now => exact cancelTask_keeps db taskId now
  | cancelStepTask taskId => exact .of_attempts rfl (fun _ => rfl) rfl
  | retryTask taskId now => exact retryTask_keeps db taskId now
  | revertExpiredLeases now fence => exact revertLeases_keeps db now fence _
  | loseNodeAttempts nodeId now => exact loseNodeAttempts_keeps db nodeId now
  | loseNodeAttemptsIfOffline nodeId now =>
      rw [step, loseNodeAttemptsIfOffline]
      split
      · split
        · exact loseNodeAttempts_keeps db nodeId now
        · exact .refl db
      · exact .refl db
  | markNodeOffline nodeId now =>
      have hoffline : Keeps db (db.updateNodes (fun n => n.id == nodeId && n.canGoOffline)
          fun n => { n with status := .offline, lastHeartbeatAt := some now }) :=
        .of_nodes rfl (fun _ => rfl) rfl
      rw [step, markNodeOffline]
      dsimp only
      split
      · exact hoffline.trans (loseNodeAttempts_keeps _ nodeId now)
      · exact hoffline
  | markOfflineNodes cutoff now => exact markOfflineNodes_keeps db cutoff now
  | reconcileActiveAttempts => exact .of_nodes rfl (fun _ => rfl) rfl

/-! ## Numbers -/

/-- No attempt is numbered beyond the attempts of its task. -/
def Database.Numbered (db : Database) : Prop :=
  ∀ a ∈ db.attempts, a.number ≤ db.attemptCount a.taskId

theorem Keeps.numbered {db db' : Database} (h : Keeps db db') (hdb : db.Numbered) :
    db'.Numbered := by
  intro a' ha'
  have hentry : a'.entry ∈ db.attempts.map Attempt.entry :=
    h.attempts ▸ List.mem_map_of_mem ha'
  obtain ⟨a, ha, hsame⟩ := List.mem_map.mp hentry
  have htask : a'.taskId = a.taskId := (congrArg Prod.fst hsame).symm
  have hnumber : a'.number = a.number := (congrArg Prod.snd hsame).symm
  rw [htask, hnumber, h.attemptCount]
  exact hdb a ha

theorem attemptCount_append {db db' : Database} {news : List Attempt}
    (h : db'.attempts = db.attempts ++ news) (taskId : String) :
    db'.attemptCount taskId =
      db.attemptCount taskId + news.countP fun a => a.taskId == taskId := by
  rw [Database.attemptCount, h, List.countP_append]
  rfl

theorem assignTask_attempts {before db db' : Database} {nodeId : String} {input : AssignInput}
    {index : Nat} {t : Task} {won : Option Assignment}
    (h : assignTask before nodeId input index db t = some (db', won)) :
    ∃ news, db'.attempts = db.attempts ++ news ∧
      ∀ a ∈ news, a.number = before.attemptCount a.taskId + 1 := by
  unfold assignTask at h
  dsimp only at h
  split_ifs at h
  · cases h
    exact ⟨[], (List.append_nil _).symm, by simp⟩
  · cases h
    exact ⟨_, rfl, by simp⟩

theorem assignTasks_attempts {before db db' : Database} {nodeId : String} {input : AssignInput}
    {index : Nat} {ts : List Task} {batch : List Assignment}
    (h : assignTasks before nodeId input index db ts = some (db', batch)) :
    ∃ news, db'.attempts = db.attempts ++ news ∧
      ∀ a ∈ news, a.number = before.attemptCount a.taskId + 1 := by
  induction ts generalizing db index batch with
  | nil =>
      cases h
      exact ⟨[], (List.append_nil _).symm, by simp⟩
  | cons t rest ih =>
      unfold assignTasks at h
      split at h
      · cases h
      · rename_i first given hfirst
        split at h
        · cases h
        · rename_i last others hrest
          cases h
          obtain ⟨news, hnews, hnumbers⟩ := assignTask_attempts hfirst
          obtain ⟨more, hmore, hnumbers'⟩ := ih hrest
          refine ⟨news ++ more, by rw [hmore, hnews, List.append_assoc], ?_⟩
          intro a ha
          rcases List.mem_append.mp ha with h | h
          · exact hnumbers a h
          · exact hnumbers' a h

theorem tryAssignBatch_numbered {db : Database} (hdb : db.Numbered) (env : SchedulerEnv)
    (nodeId : String) (drained : Bool) (input : AssignInput) :
    (tryAssignBatch env db nodeId drained input).1.Numbered := by
  rcases tryAssignBatch_cases env db nodeId drained input rfl with
    ⟨_, hattempts, hnodes⟩ | ⟨n, eligible, next, batch, _, _, hbatch, heq⟩
  · exact (Keeps.of_rows hattempts hnodes).numbered hdb
  · obtain ⟨news, hnews, hnumbers⟩ := assignTasks_attempts hbatch
    rw [heq]
    have hrows : (next.takeSlots nodeId batch.length).attempts = db.attempts ++ news := hnews
    intro a ha
    rw [attemptCount_append hrows]
    rw [hrows] at ha
    rcases List.mem_append.mp ha with hold | hnew
    · have := hdb a hold
      omega
    · have hcount : 0 < news.countP fun b => b.taskId == a.taskId :=
        List.countP_pos_iff.mpr ⟨a, hnew, beq_self_eq_true _⟩
      rw [hnumbers a hnew]
      omega

theorem step_numbered {db : Database} (hdb : db.Numbered) (op : Op) : (step db op).Numbered := by
  cases op with
  | tryAssignBatch env nodeId drained input =>
      exact tryAssignBatch_numbered hdb env nodeId drained input
  | heartbeat nodeId req now => exact hdb
  | registerOrTouchNode req now =>
      rw [step, registerOrTouchNode]
      split <;> exact hdb
  | enrollNode req nodeId credHash now =>
      rw [step, enrollNode]
      split <;> exact hdb
  | _ => exact (step_keeps db _ rfl).numbered hdb

theorem numbered_run {db₀ db : Database} {ops : List Op} (hfresh : db₀.Fresh)
    (h : Runs Step db₀ ops db) : db.Numbered := by
  refine Runs.invariant Database.Numbered ?_ h ?_
  · rintro s op _ hs rfl
    exact step_numbered hs op
  · intro a ha
    rw [hfresh.2.1] at ha
    cases ha

/-! ## Modes -/

/-- A run with the network mode each node reported last; before the first report a row has
the default of its column. -/
structure Beat where
  db : Database
  reported : String → String := fun _ => "none"

def beat (w : Beat) (op : Op) : Beat where
  db := step w.db op
  reported :=
    match op with
    | .heartbeat nodeId req now =>
        if (heartbeat w.db nodeId req now).2 then
          Function.update w.reported nodeId req.networkMode
        else w.reported
    | _ => w.reported

/-- The rows show what was reported. -/
structure Beat.Faithful (w : Beat) : Prop where
  shown : ∀ n ∈ w.db.nodes, n.networkMode = w.reported n.id
  silent : ∀ id, (∀ n ∈ w.db.nodes, n.id ≠ id) → w.reported id = "none"

theorem Beat.Faithful.of_modes {w : Beat} (h : w.Faithful) {db : Database}
    (hmodes : db.nodes.map Node.mode = w.db.nodes.map Node.mode) :
    Beat.Faithful ⟨db, w.reported⟩ := by
  have hback : ∀ {n' : Node}, n' ∈ db.nodes → ∃ n ∈ w.db.nodes, n.mode = n'.mode :=
    fun hn' => List.mem_map.mp (hmodes ▸ List.mem_map_of_mem hn')
  constructor
  · intro n' hn'
    obtain ⟨n, hn, hsame⟩ := hback hn'
    have hid : n.id = n'.id := congrArg Prod.fst hsame
    have hmode : n.networkMode = n'.networkMode := congrArg Prod.snd hsame
    rw [← hmode, ← hid]
    exact h.shown n hn
  · intro id hnone
    refine h.silent id fun n hn hid => ?_
    have hforth : n.mode ∈ db.nodes.map Node.mode := hmodes ▸ List.mem_map_of_mem hn
    obtain ⟨n', hn', hsame⟩ := List.mem_map.mp hforth
    exact hnone n' hn' ((congrArg Prod.fst hsame).trans hid)

/-- A new row starts with the default. -/
theorem Beat.Faithful.add_node {w : Beat} (h : w.Faithful) {db : Database} {n : Node}
    (hnodes : db.nodes = w.db.nodes ++ [n]) (hnew : w.db.node n.id = none)
    (hmode : n.networkMode = "none") : Beat.Faithful ⟨db, w.reported⟩ := by
  constructor
  · intro n' hn'
    rw [hnodes] at hn'
    rcases List.mem_append.mp hn' with hold | hlast
    · exact h.shown n' hold
    · rw [List.mem_singleton.mp hlast, hmode]
      exact (h.silent n.id (lookup_none hnew)).symm
  · intro id hnone
    refine h.silent id fun n' hn' => hnone n' ?_
    rw [hnodes]
    exact List.mem_append_left _ hn'

theorem heartbeat_faithful {w : Beat} (h : w.Faithful) (hdb : w.db.Sound) (nodeId : String)
    (req : HeartbeatRequest) (now : String) : (beat w (.heartbeat nodeId req now)).Faithful := by
  have hnodes : (step w.db (.heartbeat nodeId req now)).nodes =
      updateWhere (fun n => n.id == nodeId) (fun n =>
        { n with name := req.name,
                 status := if n.status = .revoked then .revoked else req.status.getD .online,
                 agentVersion := req.agentVersion,
                 maxConcurrency := req.maxConcurrency,
                 adapters := req.adapters, repositories := req.repositories,
                 freeDiskMb := req.freeDiskMb, freeMemoryMb := req.freeMemoryMb,
                 cpuCount := req.cpuCount, memAvailableMb := req.memAvailableMb,
                 lastHeartbeatAt := some now,
                 permissionInterception := req.permissionInterception,
                 networkMode := req.networkMode, activeRssMib := req.activeRssMib,
                 maxRssMib := if req.maxRssMib > 0 then req.maxRssMib else n.maxRssMib })
        w.db.nodes := rfl
  by_cases hknown : ∃ n ∈ w.db.nodes, n.id = nodeId
  · obtain ⟨n, hn, hid⟩ := hknown
    have hcount : w.db.nodes.countP (fun n => n.id == nodeId) = 1 :=
      countP_key (node_keys hdb) hn fun r _ => by rw [hid]
    have hreported : (beat w (.heartbeat nodeId req now)).reported =
        Function.update w.reported nodeId req.networkMode := by
      simp [beat, heartbeat, hcount]
    constructor
    · intro n' hn'
      rw [beat, hnodes] at hn'
      obtain ⟨old, hold, rfl⟩ := mem_updateWhere.mp hn'
      rw [hreported]
      by_cases hhit : old.id = nodeId
      · simp [hhit]
      · simpa [hhit] using h.shown old hold
    · intro id hnone
      have hne : id ≠ nodeId := by
        rintro rfl
        rw [beat, hnodes] at hnone
        exact hnone _ (mem_updateWhere.mpr ⟨n, hn, rfl⟩) (by simp [hid])
      rw [hreported, Function.update_of_ne hne]
      refine h.silent id fun old hold hold' => ?_
      rw [beat, hnodes] at hnone
      refine hnone old (mem_updateWhere_of_not hold ?_) hold'
      simpa [hold'] using hne
  · have hnone : ∀ n ∈ w.db.nodes, (n.id == nodeId) = false := by
      intro n hn
      by_contra hid
      exact hknown ⟨n, hn, by simpa using hid⟩
    have hcount : w.db.nodes.countP (fun n => n.id == nodeId) = 0 :=
      List.countP_eq_zero.mpr fun n hn => by simp [hnone n hn]
    have hreported : (beat w (.heartbeat nodeId req now)).reported = w.reported := by
      simp [beat, heartbeat, hcount]
    have hsame : (step w.db (.heartbeat nodeId req now)).nodes = w.db.nodes := by
      rw [hnodes, updateWhere_of_forall_not hnone]
    rw [show beat w (.heartbeat nodeId req now) = ⟨step w.db (.heartbeat nodeId req now),
      w.reported⟩ from congrArg (Beat.mk _) hreported]
    exact h.of_modes (by rw [hsame])

theorem beat_faithful {w : Beat} (h : w.Faithful) (hdb : w.db.Sound) (op : Op) :
    (beat w op).Faithful := by
  cases op with
  | heartbeat nodeId req now => exact heartbeat_faithful h hdb nodeId req now
  | tryAssignBatch env nodeId drained input =>
      refine h.of_modes ?_
      rw [step]
      rcases tryAssignBatch_cases env w.db nodeId drained input rfl with
        ⟨_, _, hnodes⟩ | ⟨n, eligible, next, batch, _, _, hbatch, heq⟩
      · rw [hnodes]
      · have hslots : Keeps next (next.takeSlots nodeId batch.length) :=
          .of_nodes rfl (fun _ => rfl) rfl
        rw [heq, hslots.nodes, (assignTasks_nodes hbatch).1]
  | registerOrTouchNode req now =>
      unfold beat
      rw [step, registerOrTouchNode]
      split
      · rename_i hnone
        exact h.add_node rfl hnone rfl
      · refine h.of_modes (Keeps.nodes ?_)
        exact .of_nodes rfl (fun _ => rfl) rfl
  | enrollNode req nodeId credHash now =>
      unfold beat
      rw [step, enrollNode]
      split
      · exact h
      · rename_i hnone
        exact h.add_node rfl hnone rfl
  | _ => exact h.of_modes (step_keeps w.db _ rfl).nodes

theorem foldl_beat_db (w : Beat) (ops : List Op) :
    (ops.foldl beat w).db = ops.foldl step w.db := by
  induction ops generalizing w with
  | nil => rfl
  | cons op ops ih => exact ih (beat w op)

theorem beat_run {db₀ : Database} (hfresh : db₀.Fresh) (ops : List Op) :
    (ops.foldl beat ⟨db₀, fun _ => "none"⟩).Faithful := by
  have hall : ∀ (ops : List Op) (w : Beat), w.Faithful → w.db.Sound →
      (ops.foldl beat w).Faithful := by
    intro ops
    induction ops with
    | nil => exact fun w h _ => h
    | cons op ops ih =>
        exact fun w h hdb => ih (beat w op) (beat_faithful h hdb op)
          ((step_stepped hdb op).sound hdb)
  refine hall ops _ ⟨?_, fun _ _ => rfl⟩ (sound_of_fresh hfresh)
  intro n hn
  rw [hfresh.2.2] at hn
  cases hn

end AgentGrid.Store
