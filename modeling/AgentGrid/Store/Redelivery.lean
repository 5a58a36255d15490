import AgentGrid.Store.BatchLimit

/-!
# Redelivery

What `try_assign_batch` sends is the row it wrote, completed after the commit with
the upstream commits, the approved learnings and the resume digest.  A node that
connects again is sent its attempts that were not acknowledged, by a query of its
own.
-/

namespace AgentGrid.Store

open AgentGrid.Foundation AgentGrid.Foundation.Ledger

structure LearningRow where
  repository : String
  statement : String
  confidence : Rat
  approved : Bool
  updatedAt : String
deriving DecidableEq, Repr

structure StepRow where
  id : String
  runId : String
  stepId : String
  dependsOn : List String
deriving DecidableEq, Repr

/-- The tables that are read after the commit; `roleSteps` has the task and the step of each row
of `role_runs`. -/
structure Upstream where
  learnings : List LearningRow := []
  steps : List StepRow := []
  roleSteps : List (String × String) := []

/-- An assignment as it goes over the wire. -/
structure Delivered where
  assignment : Assignment
  upstreamCommits : List String := []
  upstreamTaskIds : List String := []

/-! ## After the commit -/

def attemptCommitForTask (db : Database) (taskId : String) : Option String :=
  (((db.attempts.filter fun a => a.taskId == taskId).insertionSort fun a b =>
    b.number ≤ a.number).head?.bind Attempt.commitSha).filter fun sha => sha ≠ ""

/-- The commit and the task of one dependency of a step of the run. -/
def upstreamRef (db : Database) (up : Upstream) (runId depStepId : String) :
    Option (String × String) := do
  let step ← up.steps.find? fun s => s.runId == runId && s.stepId == depStepId
  let (depTask, _) ← up.roleSteps.find? fun r => r.2 == step.id
  let sha ← attemptCommitForTask db depTask
  return (sha, depTask)

def upstreamRefsForTask (db : Database) (up : Upstream) (taskId : String) :
    List (String × String) :=
  match up.roleSteps.find? fun r => r.1 == taskId with
  | none => []
  | some (_, stepRunId) =>
      match lookup StepRow.id stepRunId up.steps with
      | none => []
      | some step => step.dependsOn.filterMap (upstreamRef db up step.runId)

/-- `top_approved_for_repo`. -/
def topApprovedForRepo (up : Upstream) (repository : String) (n : Nat) : List LearningRow :=
  ((up.learnings.filter fun l => l.repository == repository && l.approved).insertionSort
    fun l l' => l'.confidence < l.confidence ∨
      l.confidence = l'.confidence ∧ l'.updatedAt ≤ l.updatedAt).take n

/-- `twoDecimals` is the number format of the confidence. -/
def learningsBlock (twoDecimals : Rat → String) (learnings : List LearningRow) : String :=
  if learnings.isEmpty then ""
  else learnings.foldl (fun block l =>
    block ++ ("- (conf " ++ twoDecimals l.confidence ++ ") " ++ l.statement ++ "\n"))
      "\n\n## Repository instincts (human-approved)\n"

def resumeName (taskId : String) : String := "resume-context-" ++ taskId ++ ".md"

def hasResumeDigest (db : Database) (taskId : String) : Bool :=
  db.artifacts.any fun f => f.name == resumeName taskId &&
    db.attempts.any fun a => a.id == f.attemptId && a.taskId == taskId

def resumeNote (db : Database) (a : Assignment) : String :=
  if 1 < a.number && hasResumeDigest db a.taskId then
    "\n\n## Resume digest\nFetch \x60" ++ resumeName a.taskId ++
      "\x60 via the artifacts endpoint and inline it. " ++
      "Top-3 BM25 extracts from the previous attempt's events.\n"
  else ""

/-- The post-commit loop of `try_assign_batch` on one assignment. -/
def complete (twoDecimals : Rat → String) (db : Database) (up : Upstream) (a : Assignment) :
    Delivered where
  assignment :=
    { a with prompt := a.prompt ++ learningsBlock twoDecimals (topApprovedForRepo up a.repository 5)
        ++ resumeNote db a }
  upstreamCommits := (upstreamRefsForTask db up a.taskId).map Prod.fst
  upstreamTaskIds := (upstreamRefsForTask db up a.taskId).map Prod.snd

/-! ## The reconnect -/

/-- The eval-case artifacts of all attempts of the task, by name. -/
def evalCaseNames (db : Database) (taskId : String) : List String :=
  ((db.artifacts.filter fun f =>
    f.name.toLower.startsWith "eval-case-" &&
      db.attempts.any fun a => a.id == f.attemptId && a.taskId == taskId).map
    Artifact.name).insertionSort (· ≤ ·)

/-- One row of `unacked_assignments`. -/
def redeliver (db : Database) (a : Attempt) (t : Task) : Delivered :=
  let repo := lookup Repository.name t.repository db.repositories
  let role := (db.roleRuns.find? fun r => r.taskId == t.id).map RoleRun.role
  { assignment :=
      { attemptId := a.id
        fencingToken := a.fencingToken
        taskId := t.id
        repository := t.repository
        prompt := t.prompt
        adapter := t.adapter
        number := (a.number % 2 ^ 32).toNat
        timeoutSecs := asU64 t.timeoutSecs
        gitUrl := (repo.map Repository.gitUrl).getD ""
        defaultBranch := (repo.map Repository.defaultBranch).getD ""
        validationCommand := t.validationCommand.or (repo.bind Repository.validationCommand)
        baseCommit := t.baseCommit
        parentAcpSessionId := t.parentAcpSessionId
        networkMode := t.networkMode
        groupId := t.groupId
        readOnly := role == some "verifier"
        evalCases := if 1 < a.number then evalCaseNames db t.id else []
        consensusGroupId := t.consensusGroupId
        consensusMember := t.consensusMember
        opencodeOverride := t.opencodeOverride
        githubPush := t.githubPush
        githubRepo := t.githubRepo
        githubIssue := t.githubIssue
        githubBaseRef := t.githubBaseRef
        githubCreate := t.githubCreate
        maxTokens := t.maxTokens.map Int.toNat
        maxCostCents := t.maxCostCents.map Int.toNat
        workflowRole := role } }

def unackedAssignments (db : Database) (nodeId : String) : List Delivered :=
  ((db.attempts.filter fun a => a.nodeId == nodeId && a.status == .assigned).insertionSort
    fun a b => a.startedAt ≤ b.startedAt).filterMap fun a =>
      (db.task a.taskId).map (redeliver db a)

/-! ## What is appended -/

theorem length_le_foldl_block (twoDecimals : Rat → String) (learnings : List LearningRow)
    (block : String) :
    block.length ≤ (learnings.foldl (fun block l =>
      block ++ ("- (conf " ++ twoDecimals l.confidence ++ ") " ++ l.statement ++ "\n"))
      block).length := by
  induction learnings generalizing block with
  | nil => exact le_rfl
  | cons l rest ih =>
      refine le_trans ?_ (ih _)
      rw [String.length_append]
      exact Nat.le_add_right _ _

theorem learningsBlock_eq_empty {twoDecimals : Rat → String} {learnings : List LearningRow} :
    (learningsBlock twoDecimals learnings).length = 0 ↔ learnings = [] := by
  unfold learningsBlock
  split
  · rename_i hempty
    exact ⟨fun _ => List.isEmpty_iff.mp hempty, fun _ => rfl⟩
  · rename_i hsome
    have hlong := length_le_foldl_block twoDecimals learnings
      "\n\n## Repository instincts (human-approved)\n"
    have hheader : "\n\n## Repository instincts (human-approved)\n".length = 43 := by decide
    rw [List.isEmpty_iff] at hsome
    refine ⟨fun h => ?_, fun h => absurd h hsome⟩
    omega

theorem resumeNote_eq_empty {db : Database} {a : Assignment} :
    (resumeNote db a).length = 0 ↔ ¬(1 < a.number ∧ hasResumeDigest db a.taskId = true) := by
  unfold resumeNote
  split
  · rename_i hdigest
    rw [Bool.and_eq_true, decide_eq_true_eq] at hdigest
    have hheader : "\n\n## Resume digest\nFetch \x60".length = 26 := by decide
    refine ⟨fun h => ?_, fun h => absurd hdigest h⟩
    simp only [String.length_append, hheader] at h
    omega
  · rename_i hnone
    rw [Bool.and_eq_true, decide_eq_true_eq] at hnone
    exact ⟨fun _ => hnone, fun _ => rfl⟩

theorem prompt_unchanged_iff {p x y : String} :
    p = p ++ x ++ y ↔ x.length = 0 ∧ y.length = 0 := by
  constructor
  · intro h
    have hlength := congrArg String.length h
    rw [String.length_append, String.length_append] at hlength
    omega
  · rintro ⟨hx, hy⟩
    rw [String.length_eq_zero_iff.mp hx, String.length_eq_zero_iff.mp hy, String.append_empty,
      String.append_empty]

/-! ## The rows of a batch -/

/-- The columns of a task that assignment does not write. -/
def Task.payload (t : Task) : Task :=
  { t with status := .queued, assignedAttemptId := none, avoidNodeId := none }

/-- The attempt that is inserted for an assignment. -/
structure RowOf (a : Assignment) (nodeId : String) (number : Int) (row : Attempt) : Prop where
  id : row.id = a.attemptId
  task : row.taskId = a.taskId
  number : row.number = number
  node : row.nodeId = nodeId
  status : row.status = .assigned
  token : row.fencingToken = a.fencingToken

/-- An assignment of a batch comes from a task of the queue and has its row. -/
def Written (before db' : Database) (nodeId : String) (ts : List Task) (a : Assignment) : Prop :=
  ∃ t ∈ ts, a = finishAssignment before t a.attemptId a.fencingToken
      (before.attemptCount t.id + 1) ∧
    ∃ row ∈ db'.attempts, RowOf a nodeId (before.attemptCount t.id + 1) row

variable {before db db' : Database} {nodeId : String} {input : AssignInput} {index : Nat}

theorem assignTask_written {t : Task} {won : Option Assignment}
    (h : assignTask before nodeId input index db t = some (db', won)) :
    db'.tasks.map Task.payload = db.tasks.map Task.payload ∧
      (∃ news, db'.attempts = db.attempts ++ news) ∧
      ∀ a ∈ won.toList, Written before db' nodeId [t] a := by
  have htasks : ∀ p : Task → Bool, (db.updateTasks p fun row =>
      { row with status := .assigned, assignedAttemptId := some (input.attemptId index),
                 avoidNodeId := none }).tasks.map Task.payload = db.tasks.map Task.payload := by
    intro p
    apply map_updateWhere_of_key
    intro row
    rfl
  unfold assignTask at h
  dsimp only at h
  split_ifs at h
  · cases h
    exact ⟨htasks _, ⟨[], (List.append_nil _).symm⟩, by simp⟩
  · cases h
    refine ⟨htasks _, ⟨_, rfl⟩, ?_⟩
    intro a ha
    rw [Option.toList_some, List.mem_singleton] at ha
    subst ha
    refine ⟨t, List.mem_singleton_self t, rfl, _,
      List.mem_append_right _ (List.mem_singleton_self _), rfl, rfl, rfl, rfl, rfl, rfl⟩

theorem assignTasks_written {ts : List Task} {batch : List Assignment}
    (h : assignTasks before nodeId input index db ts = some (db', batch)) :
    db'.tasks.map Task.payload = db.tasks.map Task.payload ∧
      (∃ news, db'.attempts = db.attempts ++ news) ∧
      ∀ a ∈ batch, Written before db' nodeId ts a := by
  induction ts generalizing db index batch with
  | nil =>
      cases h
      exact ⟨rfl, ⟨[], (List.append_nil _).symm⟩, by simp⟩
  | cons t rest ih =>
      unfold assignTasks at h
      split at h
      · cases h
      · rename_i first given hfirst
        split at h
        · cases h
        · rename_i last others hrest
          cases h
          obtain ⟨htasks, ⟨news, hnews⟩, hwritten⟩ := assignTask_written hfirst
          obtain ⟨htasks', ⟨more, hmore⟩, hwritten'⟩ := ih hrest
          refine ⟨htasks'.trans htasks,
            ⟨news ++ more, by rw [hmore, hnews, List.append_assoc]⟩, ?_⟩
          intro a ha
          rcases List.mem_append.mp ha with hold | hnew
          · obtain ⟨t', ht', ha', row, hrow, hof⟩ := hwritten a hold
            rw [List.mem_singleton.mp ht'] at ha' hof
            exact ⟨t, List.mem_cons_self, ha', row, by
              rw [hmore]
              exact List.mem_append_left _ hrow, hof⟩
          · obtain ⟨t', ht', hrow⟩ := hwritten' a hnew
            exact ⟨t', List.mem_cons_of_mem _ ht', hrow⟩

variable {env : SchedulerEnv} {drained : Bool}

/-- What a call leaves in the tables for an assignment it returns. -/
theorem batch_written {a : Assignment} (ha : a ∈ batchOf env db nodeId drained input) :
    ∃ t ∈ db.tasks, a = finishAssignment db t a.attemptId a.fencingToken
        (db.attemptCount t.id + 1) ∧
      (∃ row ∈ (tryAssignBatch env db nodeId drained input).1.attempts,
        RowOf a nodeId (db.attemptCount t.id + 1) row) ∧
      (tryAssignBatch env db nodeId drained input).1.tasks.map Task.payload =
        db.tasks.map Task.payload := by
  obtain ⟨n, hopen, hlimit, hpass, _⟩ := mem_batchOf ha
  rw [batchOf, tryAssignBatch_open hopen hlimit hpass] at ha
  rw [tryAssignBatch_open hopen hlimit hpass]
  split_ifs at ha ⊢
  · cases ha
  · unfold assignBatch at ha ⊢
    cases hrun : assignTasks db nodeId input 0 db (chosen env db nodeId n input.limit) with
    | none =>
        rw [hrun] at ha
        cases ha
    | some r =>
        rw [hrun] at ha
        dsimp only at ha ⊢
        split_ifs at ha ⊢
        · cases ha
        · obtain ⟨htasks, _, hwritten⟩ := assignTasks_written hrun
          obtain ⟨t, ht, ha', hrow⟩ := hwritten a ha
          exact ⟨t, (mem_candidates.mp (mem_chosen ht).1).1, ha', hrow, htasks⟩

/-! ## Agreement -/

/-- Nothing that the assignment was made of has changed: its attempt and its task are as the
call left them, the repository, the roles and the eval cases as it read them. -/
structure Undisturbed (db after db' : Database) (a : Assignment) : Prop where
  attempt : db'.attempt a.attemptId = after.attempt a.attemptId
  task : db'.task a.taskId = after.task a.taskId
  repository : lookup Repository.name a.repository db'.repositories =
    lookup Repository.name a.repository db.repositories
  roles : db'.roleRuns.filter (fun r => r.taskId == a.taskId) =
    db.roleRuns.filter (fun r => r.taskId == a.taskId)
  cases : evalCaseNames db' a.taskId = evalCaseNames db a.taskId

/-- The role that the reconnect reads. -/
def firstRole (db : Database) (taskId : String) : Option String :=
  (db.roleRuns.find? fun r => r.taskId == taskId).map RoleRun.role

theorem firstRole_eq (db : Database) (taskId : String) :
    firstRole db taskId =
      ((db.roleRuns.filter fun r => r.taskId == taskId).head?).map RoleRun.role := by
  rw [firstRole, List.head?_filter]

theorem evalCases_eq (db : Database) (taskId : String) :
    evalCases db taskId = if db.attemptCount taskId = 0 then [] else evalCaseNames db taskId := rfl

theorem Task.payload_eq {r t : Task} (h : r.payload = t.payload) :
    r = { t with status := r.status, assignedAttemptId := r.assignedAttemptId,
                 avoidNodeId := r.avoidNodeId } := by
  cases r
  cases t
  simp only [Task.payload, Task.mk.injEq] at h ⊢
  tauto

/-- The row of an undisturbed assignment is sent again with what the batch read, up to the role. -/
theorem redeliver_written {db after db' : Database} {a : Assignment} {t r : Task} {row : Attempt}
    (h : Undisturbed db after db' a)
    (ha : a = finishAssignment db t a.attemptId a.fencingToken (db.attemptCount t.id + 1))
    (hrow : RowOf a nodeId (db.attemptCount t.id + 1) row) (hr : r.payload = t.payload) :
    (redeliver db' row r).assignment =
      { a with readOnly := firstRole db a.taskId == some "verifier"
               workflowRole := firstRole db a.taskId } := by
  have htask : a.taskId = t.id := by rw [ha]; rfl
  have hrepo : a.repository = t.repository := by rw [ha]; rfl
  have hlookup : lookup Repository.name t.repository db'.repositories =
      lookup Repository.name t.repository db.repositories := hrepo ▸ h.repository
  have hrole : (db'.roleRuns.find? fun rr => rr.taskId == t.id).map RoleRun.role =
      firstRole db a.taskId := by
    have := firstRole_eq db' a.taskId
    rw [h.roles, ← firstRole_eq] at this
    rw [← this, htask, firstRole]
  have hcases : (if 1 < row.number then evalCaseNames db' t.id else []) = evalCases db t.id := by
    rw [evalCases_eq, hrow.number, ← htask, h.cases]
    by_cases hfirst : db.attemptCount a.taskId = 0
    · rw [if_pos hfirst, if_neg (by omega)]
    · rw [if_neg hfirst, if_pos (by omega)]
  rw [Task.payload_eq hr]
  unfold redeliver
  dsimp only
  rw [hlookup, hrole, hcases, hrow.id, hrow.token, hrow.number]
  generalize firstRole db a.taskId = role
  rw [ha]
  rfl

theorem assignment_with_iff {a : Assignment} {readOnly : Bool} {role : Option String}
    {prompt : String} :
    { a with readOnly := readOnly, workflowRole := role } = { a with prompt := prompt } ↔
      readOnly = a.readOnly ∧ role = a.workflowRole ∧ a.prompt = prompt := by
  cases a
  simp only [Assignment.mk.injEq, true_and]
  tauto

theorem mem_unacked {d : Delivered} :
    d ∈ unackedAssignments db nodeId ↔ ∃ row ∈ db.attempts, row.nodeId = nodeId ∧
      row.status = .assigned ∧ ∃ t, db.task row.taskId = some t ∧ redeliver db row t = d := by
  unfold unackedAssignments
  simp only [List.mem_filterMap, (List.perm_insertionSort _ _).mem_iff, List.mem_filter,
    Bool.and_eq_true, beq_iff_eq, Option.map_eq_some_iff, and_assoc]

/-- The roles that the two queries read are the same, and nothing was appended after the commit. -/
structure Unadorned (after : Database) (up : Upstream) (a : Assignment) : Prop where
  learnings : topApprovedForRepo up a.repository 5 = []
  digest : ¬(1 < a.number ∧ hasResumeDigest after a.taskId = true)
  upstream : upstreamRefsForTask after up a.taskId = []

theorem complete_eq_iff {twoDecimals : Rat → String} {after : Database} {up : Upstream}
    {a : Assignment} {readOnly : Bool} {role : Option String} :
    (⟨{ a with readOnly := readOnly, workflowRole := role }, [], []⟩ : Delivered) =
        complete twoDecimals after up a ↔
      readOnly = a.readOnly ∧ role = a.workflowRole ∧ Unadorned after up a := by
  have hnone : ∀ f : String × String → String,
      [] = (upstreamRefsForTask after up a.taskId).map f ↔
        upstreamRefsForTask after up a.taskId = [] := fun f => by
    rw [eq_comm, List.map_eq_nil_iff]
  unfold complete
  rw [Delivered.mk.injEq, assignment_with_iff, prompt_unchanged_iff, learningsBlock_eq_empty,
    resumeNote_eq_empty, hnone, hnone]
  constructor
  · rintro ⟨⟨hread, hrole, hlearn, hdigest⟩, hup, _⟩
    exact ⟨hread, hrole, hlearn, hdigest, hup⟩
  · rintro ⟨hread, hrole, hlearn, hdigest, hup⟩
    exact ⟨⟨hread, hrole, hlearn, hdigest⟩, hup, hup⟩

/-- An attempt that was never acknowledged is sent again as it was sent first exactly when
nothing was appended after the commit and the two queries read one role. -/
theorem redelivery_iff {db₀ db db' : Database} {ops ops' : List Op} (hfresh : db₀.Fresh)
    (hrun : Runs Step db₀ ops db) (twoDecimals : Rat → String) (up : Upstream) {a : Assignment}
    (ha : a ∈ batchOf env db nodeId drained input)
    (hlater : Runs Step (tryAssignBatch env db nodeId drained input).1 ops' db')
    (h : Undisturbed db (tryAssignBatch env db nodeId drained input).1 db' a) :
    complete twoDecimals (tryAssignBatch env db nodeId drained input).1 up a ∈
        unackedAssignments db' nodeId ↔
      Unadorned (tryAssignBatch env db nodeId drained input).1 up a ∧
        firstRole db a.taskId = taskRole db a.taskId := by
  have hdb := sound_run hrun (sound_of_fresh hfresh)
  obtain ⟨t, ht, heq, ⟨row, hrow, hof⟩, htasks⟩ := batch_written ha
  have hafter := (tryAssignBatch_granted hdb env nodeId drained input).sound hdb
  generalize (tryAssignBatch env db nodeId drained input).1 = after at *
  have hdb' := sound_run hlater hafter
  have hrole : a.workflowRole = taskRole db a.taskId := by rw [heq]; rfl
  have hread : a.readOnly = (taskRole db a.taskId == some "verifier") := by rw [heq]; rfl
  have htask : a.taskId = t.id := by rw [heq]; rfl
  obtain ⟨r, hr, hpayload⟩ : ∃ r ∈ after.tasks, r.payload = t.payload :=
    List.mem_map.mp (htasks ▸ List.mem_map_of_mem ht)
  have hrid : r.id = a.taskId := by
    rw [htask, Task.payload_eq hpayload]
  have hrow' : db'.attempt a.attemptId = some row := by
    rw [h.attempt, ← hof.id]
    exact lookup_of_mem (attempt_keys hafter) hrow
  have htask' : db'.task a.taskId = some r := by
    rw [h.task, ← hrid]
    exact lookup_of_mem (task_keys hafter) hr
  have hsent : redeliver db' row r =
      ⟨{ a with readOnly := firstRole db a.taskId == some "verifier"
                workflowRole := firstRole db a.taskId }, [], []⟩ := by
    rw [← redeliver_written h heq hof hpayload]
    rfl
  have hone : complete twoDecimals after up a ∈ unackedAssignments db' nodeId ↔
      redeliver db' row r = complete twoDecimals after up a := by
    rw [mem_unacked]
    constructor
    · rintro ⟨row', hmem', _, _, t', ht', hd⟩
      have hid : row'.id = row.id := by
        rw [hof.id]
        exact congrArg (fun d => d.assignment.attemptId) hd
      obtain rfl := row_unique (attempt_keys hdb') hmem' (lookup_mem hrow').1 hid
      rw [hof.task, htask'] at ht'
      rw [Option.some.inj ht']
      exact hd
    · intro hd
      exact ⟨row, (lookup_mem hrow').1, hof.node, hof.status, r, by rw [hof.task, htask'], hd⟩
  rw [hone, hsent, complete_eq_iff, hrole, hread]
  constructor
  · rintro ⟨_, hsame, hplain⟩
    exact ⟨hplain, hsame⟩
  · rintro ⟨hplain, hsame⟩
    exact ⟨by rw [hsame], hsame, hplain⟩

section Instincts

/-! One assignment of a repository with an approved learning. -/

def approvedLearning : LearningRow where
  repository := "app"
  statement := "use tabs"
  confidence := 9 / 10
  approved := true
  updatedAt := morning

theorem redelivery_evening :
    ∃ a ∈ batchOf { freeBytes := 2 ^ 40 } (evening.foldl step {}) "n1" false freshIds,
      complete (fun _ => "0.90") (tryAssignBatch { freeBytes := 2 ^ 40 } (evening.foldl step {})
          "n1" false freshIds).1 {} a ∈
        unackedAssignments (tryAssignBatch { freeBytes := 2 ^ 40 } (evening.foldl step {}) "n1"
          false freshIds).1 "n1" := by
  have hsome : 0 < (batchOf { freeBytes := 2 ^ 40 } (evening.foldl step {}) "n1" false
      freshIds).length := by decide
  obtain ⟨a, ha⟩ := List.exists_mem_of_length_pos hsome
  refine ⟨a, ha, (redelivery_iff ⟨rfl, rfl, rfl⟩ (Runs.foldl step {} evening) _ _ ha
    (Runs.foldl step _ []) ⟨rfl, rfl, rfl, rfl, ?_⟩).mpr ⟨⟨rfl, ?_, rfl⟩, rfl⟩⟩
  · rfl
  · rintro ⟨_, hdigest⟩
    have hnone : (tryAssignBatch { freeBytes := 2 ^ 40 } (evening.foldl step {}) "n1" false
        freshIds).1.artifacts = [] := by decide
    rw [hasResumeDigest, hnone] at hdigest
    cases hdigest

/-- The learning is in the first delivery and not in the second. -/
theorem learning_dropped :
    (batchOf { freeBytes := 2 ^ 40 } (evening.foldl step {}) "n1" false freshIds).map (fun a =>
        (complete (fun _ => "0.90") (tryAssignBatch { freeBytes := 2 ^ 40 }
          (evening.foldl step {}) "n1" false freshIds).1 { learnings := [approvedLearning] }
            a).assignment.prompt) =
      ["fix it\n\n## Repository instincts (human-approved)\n- (conf 0.90) use tabs\n"] ∧
    (unackedAssignments (tryAssignBatch { freeBytes := 2 ^ 40 } (evening.foldl step {}) "n1"
        false freshIds).1 "n1").map (fun d => d.assignment.prompt) = ["fix it"] := by
  decide

end Instincts

end AgentGrid.Store
