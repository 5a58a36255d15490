import AgentGrid.Foundation.Pool
import AgentGrid.Store.Artifacts
import AgentGrid.Store.Attempts

/-!
# Agents and their budget

Long-lived agents, the tasks attributed to them and the trail of their actions.
`create_agent_task` counts an agent's tasks against its `max_tasks` in the
transaction that inserts the next one; `POST /v1/tasks` stores the `agent_id` of
its request as it is.  The column `agent_id` of a task is kept beside the task
table.
-/

namespace AgentGrid.Store.Agents

open AgentGrid.Foundation

structure TaskRequest extends CreateTaskRequest where
  agentId : Option String := none

/-- The request as `create_agent_task` inserts it; `insert_task_tx` leaves
`github_create` to its default. -/
def TaskRequest.forAgent (req : TaskRequest) (agentId : String) : TaskRequest :=
  { req with agentId := some agentId, githubCreate := false }

structure AgentCreate where
  name : String
  role : String := "worker"
  prompt : String := ""
  maxTasks : Option Int := none
  heartbeatIntervalSecs : Option Int := none
deriving DecidableEq, Repr

structure Agent where
  id : String
  name : String
  role : String
  prompt : String
  maxTasks : Option Int
  heartbeatIntervalSecs : Option Int
  lastHeartbeatAt : Option String := none
  createdAt : String
deriving DecidableEq, Repr

inductive Action
  | created
  | heartbeat
  | taskCreated
  | budgetExceeded
deriving DecidableEq, Repr

structure AgentAction where
  id : String
  agentId : String
  action : Action
  detail : String
  createdAt : String
deriving DecidableEq, Repr

structure OrgDb where
  db : Database := {}
  agentOf : String → Option String := fun _ => none
  agents : List Agent := []
  actions : List AgentAction := []

/-- The ids and the time that a transaction draws. -/
structure Stamp where
  id : String
  trail : String
  now : String

inductive OrgError
  | invalidName
  | emptyRole
  | unknownAgent (agentId : String)
  | budgetExhausted (agentId : String) (spent : Nat) (max : Int)
  | payloadTooLarge
  | badRequest
  | database
deriving DecidableEq, Repr

namespace OrgDb

def agent (o : OrgDb) (id : String) : Option Agent := lookup Agent.id id o.agents

def attributed (o : OrgDb) (agentId : String) : List Task :=
  o.db.tasks.filter fun t => o.agentOf t.id == some agentId

/-- `SELECT COUNT(*) FROM tasks WHERE agent_id = ?`. -/
def tasksSpent (o : OrgDb) (agentId : String) : Nat := (o.attributed agentId).length

def insertAgent (o : OrgDb) (req : AgentCreate) (stamp : Stamp) : OrgDb × Option Agent :=
  let name := trim req.name
  if o.agents.any fun a => a.id == stamp.id || a.name == name then (o, none)
  else
    let agent : Agent := {
      id := stamp.id
      name := name
      role := trim req.role
      prompt := req.prompt
      maxTasks := req.maxTasks
      heartbeatIntervalSecs := req.heartbeatIntervalSecs
      createdAt := stamp.now }
    ({ o with agents := o.agents ++ [agent] }, some agent)

/-- A row of the trail, refused for an agent that does not exist. -/
def log (o : OrgDb) (agentId : String) (action : Action) (detail : String) (stamp : Stamp) :
    Option OrgDb :=
  if (o.agent agentId).isNone || o.actions.any fun r => r.id == stamp.trail then none
  else
    some { o with
      actions := o.actions ++ [⟨stamp.trail, agentId, action, detail, stamp.now⟩] }

def touchHeartbeat (o : OrgDb) (agentId now : String) : OrgDb :=
  { o with
    agents := updateWhere (fun a => a.id == agentId)
      (fun a => { a with lastHeartbeatAt := some now }) o.agents }

def insertTask (o : OrgDb) (req : TaskRequest) (stamp : Stamp) : OrgDb × Option Task :=
  match createTask o.db req.toCreateTaskRequest stamp.id stamp.now with
  | (_, .error _) => (o, none)
  | (db, .ok task) =>
      ({ o with
         db := db
         agentOf := fun id => if id = stamp.id then req.agentId else o.agentOf id }, some task)

def taskDetail (prompt : String) : String :=
  "task prompt: " ++ String.ofList (prompt.toList.take 60)

/-- The budget is spent: the refusal goes into the trail. -/
def refuseTask (o : OrgDb) (agentId : String) (max : Int) (stamp : Stamp) :
    OrgDb × Except OrgError Task :=
  match o.log agentId .budgetExceeded "task rejected" stamp with
  | none => (o, .error .database)
  | some o' => (o', .error (.budgetExhausted agentId (o.tasksSpent agentId) max))

def admitTask (o : OrgDb) (agentId : String) (req : TaskRequest) (stamp : Stamp) :
    OrgDb × Except OrgError Task :=
  match o.log agentId .taskCreated (taskDetail req.prompt) stamp with
  | none => (o, .error .database)
  | some o' =>
      match o'.insertTask (req.forAgent agentId) stamp with
      | (_, none) => (o, .error .database)
      | (o'', some task) => (o'', .ok task)

def createAgentTask (o : OrgDb) (agentId : String) (req : TaskRequest) (stamp : Stamp) :
    OrgDb × Except OrgError Task :=
  match o.agent agentId with
  | none => (o, .error .database)
  | some agent =>
      match agent.maxTasks with
      | some max =>
          if max ≤ o.tasksSpent agentId then o.refuseTask agentId max stamp
          else o.admitTask agentId req stamp
      | none => o.admitTask agentId req stamp

end OrgDb

inductive OrgTx
  | getAgent (id : String)
  | insertAgent (req : AgentCreate)
  | logAgentAction (agentId : String) (action : Action) (detail : String)
  | touchHeartbeat (agentId : String)
  | createAgentTask (agentId : String) (req : TaskRequest)
  | createTask (req : TaskRequest)

@[reducible] def OrgTx.Reply : OrgTx → Type
  | .getAgent _ => Option Agent
  | .insertAgent _ => Option Agent
  | .logAgentAction _ _ _ => Bool
  | .touchHeartbeat _ => Unit
  | .createAgentTask _ _ => Except OrgError Task
  | .createTask _ => Option Task

def exec (stamp : Stamp) : (tx : OrgTx) → OrgDb → OrgDb × tx.Reply
  | .getAgent id, o => (o, o.agent id)
  | .insertAgent req, o => o.insertAgent req stamp
  | .logAgentAction agentId action detail, o =>
      match o.log agentId action detail stamp with
      | none => (o, false)
      | some o' => (o', true)
  | .touchHeartbeat agentId, o => (o.touchHeartbeat agentId stamp.now, ())
  | .createAgentTask agentId req, o => o.createAgentTask agentId req stamp
  | .createTask req, o => o.insertTask req stamp

abbrev Program (α : Type) : Type := Prog OrgTx OrgTx.Reply Empty α

def ask (tx : OrgTx) : Program tx.Reply := .call [] tx .ret

/-! ## The calls -/

inductive GithubRefError
  | invalidRepo (repo : String)
  | repoRequired
  | invalidIssue (number : Int)
  | pushRequired
deriving DecidableEq, Repr

/-- The limit on a prompt, in bytes, and `char::is_alphanumeric`. -/
structure TaskChecks where
  prompt : Nat
  isAlphanumeric : Char → Bool

def TaskChecks.okPart (C : TaskChecks) (part : String) : Bool :=
  part != "" && part.utf8ByteSize ≤ 128 &&
    part.toList.all fun c => C.isAlphanumeric c || c == '-' || c == '_' || c == '.'

def TaskChecks.okRepo (C : TaskChecks) (repo : String) : Bool :=
  match (repo.toList.splitOn '/').map String.ofList with
  | [owner, name] => C.okPart owner && C.okPart name
  | _ => false

def validateGithubRefs (C : TaskChecks) (githubPush : Bool) (githubRepo : Option String)
    (githubIssue : Option Int) (githubCreate : Bool) : Except GithubRefError Unit := do
  match githubRepo with
  | some repo => if C.okRepo repo = false then throw (.invalidRepo repo)
  | none => if githubPush || githubCreate then throw .repoRequired
  match githubIssue with
  | some n => if n ≤ 0 then throw (.invalidIssue n)
  | none => pure ()
  if githubCreate && !githubPush then throw .pushRequired

abbrev Answer : Type := Except OrgError String

def createAgent (req : AgentCreate) : Program Answer := do
  if isSafeOpaqueId (trim req.name) = false then
    return .error .invalidName
  if trim req.role = "" then
    return .error .emptyRole
  match ← ask (.insertAgent req) with
  | none => return .error .database
  | some agent =>
      if ← ask (.logAgentAction agent.id .created "agent registered") then
        return .ok agent.id
      else
        return .error .database

def createAgentTask (agentId : String) (req : TaskRequest) : Program Answer := do
  match ← ask (.getAgent agentId) with
  | none => return .error (.unknownAgent agentId)
  | some _ =>
      match ← ask (.createAgentTask agentId req) with
      | .ok task => return .ok task.id
      | .error e => return .error e

/-- The request of a heartbeat: the agent's own prompt, for any repository. -/
def Agent.scheduled (agent : Agent) : TaskRequest where
  prompt := agent.prompt
  repository := "*"
  adapter := "mock"
  agentId := some agent.id

/-- One agent that the heartbeat ticker found due. -/
def heartbeat (agent : Agent) : Program Answer := do
  let spawned ← createAgentTask agent.id agent.scheduled
  let _ ← ask (.touchHeartbeat agent.id)
  let _ ← ask (.logAgentAction agent.id .heartbeat "scheduled task spawned")
  return spawned

/-- `POST /v1/tasks`. -/
def postTask (C : TaskChecks) (req : TaskRequest) : Program Answer := do
  if C.prompt < req.prompt.utf8ByteSize then
    return .error .payloadTooLarge
  match validateGithubRefs C req.githubPush req.githubRepo req.githubIssue req.githubCreate with
  | .error _ => return .error .badRequest
  | .ok _ =>
      match ← ask (.createTask req) with
      | some task => return .ok task.id
      | none => return .error .database

inductive Call
  | createAgent (req : AgentCreate)
  | createAgentTask (agentId : String) (req : TaskRequest)
  | heartbeat (agent : Agent)
  | postTask (req : TaskRequest)

def Call.program (C : TaskChecks) : Call → Program Answer
  | .createAgent req => Agents.createAgent req
  | .createAgentTask agentId req => Agents.createAgentTask agentId req
  | .heartbeat agent => Agents.heartbeat agent
  | .postTask req => Agents.postTask C req

/-- The rest of the store works on the tasks: it adds none and keeps their ids
and prompts. -/
def workOn (db : Database) (o : OrgDb) : Option OrgDb :=
  if db.tasks.map (fun t => (t.id, t.prompt)) = o.db.tasks.map (fun t => (t.id, t.prompt)) then
    some { o with db := db }
  else none

def rules (C : TaskChecks) :
    Pool.Rules OrgTx OrgTx.Reply Empty Answer OrgDb Stamp Call Database where
  program := Call.program C
  run := exec
  other := workOn

abbrev OrgPool : Type := Pool OrgTx OrgTx.Reply Empty Answer OrgDb

abbrev OrgEvent : Type := Pool.Event Call Database Stamp

/-! ## The budget -/

def OrgDb.created (o : OrgDb) (agentId : String) : List AgentAction :=
  o.actions.filter fun r => r.agentId == agentId && r.action == .taskCreated

/-- An attributed task names an agent that exists, and the trail has a row of its
own for it. -/
structure Accounted (o : OrgDb) : Prop where
  agents : ∀ t ∈ o.db.tasks, ∀ a, o.agentOf t.id = some a → ∃ r ∈ o.agents, r.id = a
  trail : ∀ a, ((o.attributed a).map fun t => OrgDb.taskDetail t.prompt).Sublist
    ((o.created a).map AgentAction.detail)

/-- An agent that gets another task has no more of them than it may. -/
def Budgeted (o o' : OrgDb) : Prop :=
  ∀ a, o.tasksSpent a < o'.tasksSpent a → ∃ r, o'.agent a = some r ∧
    ∀ max, r.maxTasks = some max → (o'.tasksSpent a : Int) ≤ max

/-- What a transaction leaves of the books. -/
structure Keeps (o o' : OrgDb) : Prop where
  accounted : Accounted o'
  budgeted : Budgeted o o'

section Transactions

variable {o : OrgDb}

theorem Budgeted.of_eq {o o' : OrgDb} (h : ∀ a, o'.tasksSpent a = o.tasksSpent a) :
    Budgeted o o' := by
  intro a hgrown
  rw [h a] at hgrown
  exact absurd hgrown (lt_irrefl _)

theorem Keeps.refl (ho : Accounted o) : Keeps o o := ⟨ho, .of_eq fun _ => rfl⟩

theorem Keeps.insertAgent (ho : Accounted o) (req : AgentCreate) (stamp : Stamp) :
    Keeps o (o.insertAgent req stamp).1 := by
  simp only [OrgDb.insertAgent]
  split
  · exact .refl ho
  · refine ⟨⟨fun t ht a ha => ?_, ho.trail⟩, .of_eq fun _ => rfl⟩
    obtain ⟨r, hr, hid⟩ := ho.agents t ht a ha
    exact ⟨r, List.mem_append_left _ hr, hid⟩

theorem Keeps.touchHeartbeat (ho : Accounted o) (agentId now : String) :
    Keeps o (o.touchHeartbeat agentId now) := by
  refine ⟨⟨fun t ht a ha => ?_, ho.trail⟩, .of_eq fun _ => rfl⟩
  obtain ⟨r, hr, hid⟩ := ho.agents t ht a ha
  refine ⟨_, mem_updateWhere.mpr ⟨r, hr, rfl⟩, ?_⟩
  split <;> exact hid

theorem log_cases {agentId detail : String} {action : Action} {stamp : Stamp} {o' : OrgDb}
    (h : o.log agentId action detail stamp = some o') :
    (∃ r, o.agent agentId = some r) ∧
      o' = { o with
        actions := o.actions ++ [⟨stamp.trail, agentId, action, detail, stamp.now⟩] } := by
  unfold OrgDb.log at h
  split at h
  · cases h
  · rename_i hknown
    cases h
    simp only [Bool.or_eq_true, not_or, Option.isNone_iff_eq_none] at hknown
    exact ⟨Option.ne_none_iff_exists'.mp hknown.1, rfl⟩

theorem Keeps.log (ho : Accounted o) {agentId detail : String} {action : Action} {stamp : Stamp}
    {o' : OrgDb} (h : o.log agentId action detail stamp = some o') : Keeps o o' := by
  obtain ⟨-, rfl⟩ := log_cases h
  refine ⟨⟨ho.agents, fun a => (ho.trail a).trans ?_⟩, .of_eq fun _ => rfl⟩
  exact ((List.sublist_append_left _ _).filter _).map _

/-- One more task, of the agent or of none; the rows before it keep theirs. -/
structure Adds (o o' : OrgDb) (task : Task) (agent : Option String) : Prop where
  tasks : o'.db.tasks = o.db.tasks ++ [task]
  agent : o'.agentOf task.id = agent
  old : ∀ t ∈ o.db.tasks, o'.agentOf t.id = o.agentOf t.id

theorem insertTask_cases (o : OrgDb) (req : TaskRequest) (stamp : Stamp) :
    o.insertTask req stamp = (o, none) ∨
    ∃ o' task, o.insertTask req stamp = (o', some task) ∧ task.prompt = req.prompt ∧
      Adds o o' task req.agentId ∧ o'.agents = o.agents ∧ o'.actions = o.actions := by
  unfold OrgDb.insertTask createTask
  cases htask : o.db.task stamp.id with
  | some _ => exact .inl rfl
  | none =>
      refine .inr ⟨_, _, rfl, rfl, ⟨rfl, if_pos rfl, fun t ht => if_neg ?_⟩, rfl, rfl⟩
      exact lookup_none htask t ht

section Adds

variable {o' : OrgDb} {task : Task} {agent : Option String}

theorem Adds.attributed (h : Adds o o' task agent) (a : String) :
    o'.attributed a = o.attributed a ++ if agent = some a then [task] else [] := by
  unfold OrgDb.attributed
  rw [h.tasks, List.filter_append, List.filter_singleton, h.agent]
  congr 1
  · exact List.filter_congr fun t ht => by rw [h.old t ht]
  · cases hagent : agent == some a <;> simp_all

theorem Adds.agents (h : Adds o o' task agent) (ho : Accounted o) (hsame : o'.agents = o.agents)
    (hagent : ∀ a, agent = some a → ∃ r ∈ o.agents, r.id = a) :
    ∀ t ∈ o'.db.tasks, ∀ a, o'.agentOf t.id = some a → ∃ r ∈ o'.agents, r.id = a := by
  intro t ht a ha
  rw [hsame]
  rw [h.tasks] at ht
  rcases List.mem_append.mp ht with ht | ht
  · rw [h.old t ht] at ha
    exact ho.agents t ht a ha
  · rw [List.mem_singleton.mp ht, h.agent] at ha
    exact hagent a ha

end Adds

theorem Keeps.createTask (ho : Accounted o) {req : TaskRequest} (hreq : req.agentId = none)
    (stamp : Stamp) : Keeps o (o.insertTask req stamp).1 := by
  obtain h | ⟨o', task, h, -, hadds, hagents, hactions⟩ := insertTask_cases o req stamp
  · rw [h]
    exact .refl ho
  · rw [h]
    rw [hreq] at hadds
    have hsame : ∀ a, o'.attributed a = o.attributed a := by
      intro a
      rw [hadds.attributed a, if_neg nofun, List.append_nil]
    refine ⟨⟨hadds.agents ho hagents nofun, fun a => ?_⟩,
      .of_eq fun a => congrArg List.length (hsame a)⟩
    rw [hsame a, OrgDb.created, hactions]
    exact ho.trail a

theorem Keeps.attribute (ho : Accounted o) {o' : OrgDb} {agentId : String} {agent : Agent}
    {task : Task} {row : AgentAction} (hagent : o.agent agentId = some agent)
    (hroom : ∀ max, agent.maxTasks = some max → (o.tasksSpent agentId : Int) < max)
    (hadds : Adds o o' task (some agentId)) (hagents : o'.agents = o.agents)
    (hactions : o'.actions = o.actions ++ [row]) (hrow : row.agentId = agentId)
    (haction : row.action = .taskCreated)
    (hdetail : row.detail = OrgDb.taskDetail task.prompt) : Keeps o o' := by
  refine ⟨⟨hadds.agents ho hagents ?_, fun a => ?_⟩, fun a hgrown => ?_⟩
  · intro a ha
    cases ha
    exact ⟨agent, lookup_mem hagent⟩
  · rw [hadds.attributed a, OrgDb.created, hactions, List.filter_append, List.map_append,
      List.map_append]
    refine (ho.trail a).append ?_
    by_cases ha : agentId = a
    · subst ha
      rw [if_pos rfl, List.filter_singleton, hrow, haction]
      simp [hdetail]
    · rw [if_neg (by simpa using ha)]
      exact List.nil_sublist _
  · unfold OrgDb.tasksSpent at hgrown ⊢
    rw [hadds.attributed a] at hgrown ⊢
    by_cases ha : agentId = a
    · subst ha
      refine ⟨agent, by rw [OrgDb.agent, hagents]; exact hagent, fun max hmax => ?_⟩
      have hspent : ((o.attributed agentId).length : Int) < max := hroom max hmax
      rw [if_pos rfl, List.length_append, List.length_singleton]
      omega
    · rw [if_neg (by simpa using ha), List.append_nil] at hgrown
      exact absurd hgrown (lt_irrefl _)

theorem Keeps.admitTask (ho : Accounted o) {agentId : String} {agent : Agent}
    (hagent : o.agent agentId = some agent)
    (hroom : ∀ max, agent.maxTasks = some max → (o.tasksSpent agentId : Int) < max)
    (req : TaskRequest) (stamp : Stamp) : Keeps o (o.admitTask agentId req stamp).1 := by
  unfold OrgDb.admitTask
  cases hlog : o.log agentId .taskCreated (OrgDb.taskDetail req.prompt) stamp with
  | none => exact .refl ho
  | some o₁ =>
      obtain ⟨-, rfl⟩ := log_cases hlog
      simp only
      obtain h | ⟨o', task, h, hprompt, hadds, hagents, hactions⟩ :=
        insertTask_cases _ (req.forAgent agentId) stamp
      · rw [h]
        exact .refl ho
      · rw [h]
        exact .attribute ho hagent hroom ⟨hadds.tasks, hadds.agent, hadds.old⟩ hagents hactions
          rfl rfl (congrArg OrgDb.taskDetail hprompt.symm)

theorem Keeps.createAgentTask (ho : Accounted o) (agentId : String) (req : TaskRequest)
    (stamp : Stamp) : Keeps o (o.createAgentTask agentId req stamp).1 := by
  unfold OrgDb.createAgentTask
  cases hagent : o.agent agentId with
  | none => exact .refl ho
  | some agent =>
      simp only
      cases hmax : agent.maxTasks with
      | none =>
          refine .admitTask ho hagent (fun max h => ?_) req stamp
          rw [hmax] at h
          cases h
      | some max =>
          simp only
          split
          · unfold OrgDb.refuseTask
            cases hlog : o.log agentId .budgetExceeded "task rejected" stamp with
            | none => exact .refl ho
            | some o' => exact .log ho hlog
          · rename_i hroom
            refine .admitTask ho hagent (fun max' h => ?_) req stamp
            rw [hmax] at h
            cases h
            exact not_le.mp hroom

theorem Keeps.workOn (ho : Accounted o) {db : Database} {o' : OrgDb}
    (h : Agents.workOn db o = some o') : Keeps o o' := by
  unfold Agents.workOn at h
  split at h
  · rename_i hsame
    cases h
    have hprompts : ∀ a, ((({ o with db := db } : OrgDb).attributed a).map
        fun t => (t.id, t.prompt)) = (o.attributed a).map fun t => (t.id, t.prompt) := by
      intro a
      have hfilter := congrArg (List.filter fun p => o.agentOf p.1 == some a) hsame
      rw [List.filter_map, List.filter_map] at hfilter
      exact hfilter
    refine ⟨⟨fun t ht a ha => ?_, fun a => ?_⟩, .of_eq fun a => ?_⟩
    · have hmem : (t.id, t.prompt) ∈ o.db.tasks.map fun t => (t.id, t.prompt) :=
        hsame ▸ List.mem_map_of_mem ht
      obtain ⟨t', ht', heq⟩ := List.mem_map.mp hmem
      have hid : t'.id = t.id := congrArg Prod.fst heq
      exact ho.agents t' ht' a (hid ▸ ha)
    · have hdetails := congrArg (List.map fun p => OrgDb.taskDetail p.2) (hprompts a)
      rw [List.map_map, List.map_map] at hdetails
      exact hdetails ▸ ho.trail a
    · have hlength := congrArg List.length (hprompts a)
      rwa [List.length_map, List.length_map] at hlength
  · cases h

/-- A task that `POST /v1/tasks` inserts carries no agent. -/
def unattributed : OrgTx → Bool
  | .createTask req => req.agentId.isNone
  | _ => true

theorem Keeps.exec (ho : Accounted o) {tx : OrgTx} (htx : unattributed tx = true)
    (stamp : Stamp) : Keeps o (exec stamp tx o).1 := by
  cases tx with
  | getAgent id => exact .refl ho
  | insertAgent req => exact .insertAgent ho req stamp
  | logAgentAction agentId action detail =>
      simp only [Agents.exec]
      cases hlog : o.log agentId action detail stamp with
      | none => exact .refl ho
      | some o' => exact .log ho hlog
  | touchHeartbeat agentId => exact .touchHeartbeat ho agentId stamp.now
  | createAgentTask agentId req => exact .createAgentTask ho agentId req stamp
  | createTask req => exact .createTask ho (Option.isNone_iff_eq_none.mp htx) stamp

end Transactions

/-- The transaction of the event attributes a task only under the budget. -/
def withinBudget (P : OrgPool) : OrgEvent → Bool
  | .advance i _ =>
      match P.threads[i]? with
      | some (.call _ tx _) => unattributed tx
      | _ => true
  | _ => true

theorem Keeps.step {C : TaskChecks} {P P' : OrgPool} {e : OrgEvent} (hP : Accounted P.state)
    (h : Pool.Steps (rules C) P e P') (he : withinBudget P e = true) :
    Keeps P.state P'.state := by
  obtain hsame | ⟨i, stamp, keys, tx, next, rfl, hcall, hstate⟩ | ⟨db, hother⟩ :=
    Pool.state_cases h
  · rw [hsame]
    exact .refl hP
  · rw [hstate]
    simp only [withinBudget, hcall] at he
    exact .exec hP he stamp
  · exact .workOn hP hother

/-- In every run in which no task that `POST /v1/tasks` inserts carries an agent,
every step keeps the books and the budgets. -/
theorem attributed_within_budget (C : TaskChecks) {o : OrgDb}
    (ho : ∀ t ∈ o.db.tasks, o.agentOf t.id = none) {es : List OrgEvent} {e : OrgEvent}
    {P P' : OrgPool}
    (h : Runs (During (Pool.Steps (rules C)) fun P e => withinBudget P e = true) ⟨o, []⟩ es P)
    (hstep : Pool.Steps (rules C) P e P') (he : withinBudget P e = true) :
    Accounted P'.state ∧ Budgeted P.state P'.state := by
  have hstart : Accounted o := by
    refine ⟨fun t ht a ha => ?_, fun a => ?_⟩
    · rw [ho t ht] at ha
      cases ha
    · have hnone : o.attributed a = [] := by
        refine List.filter_eq_nil_iff.mpr fun t ht => ?_
        rw [ho t ht]
        exact nofun
      rw [hnone]
      exact List.nil_sublist _
  have hP : Accounted P.state :=
    h.invariant (fun P : OrgPool => Accounted P.state)
      (fun hP hstep => (Keeps.step hP hstep.1 hstep.2).accounted) hstart
  obtain ⟨haccounted, hbudgeted⟩ := Keeps.step hP hstep he
  exact ⟨haccounted, hbudgeted⟩

section Overspent

def checks : TaskChecks where
  prompt := 262144
  isAlphanumeric := Char.isAlphanum

def review : TaskRequest where
  prompt := "review"
  repository := "web"
  adapter := "codex"

def turn (i : Nat) (id trail : String) : OrgEvent := .advance i ⟨id, trail, "2026-01-01T00:00:00Z"⟩

/-- An agent that may have one task, and its task but for the transaction. -/
def oneTask : List OrgEvent :=
  [.start (.createAgent { name := "scout", maxTasks := some 1 }), turn 0 "a1" "", turn 0 "" "r1",
    .start (.createAgentTask "a1" review), turn 1 "" ""]

theorem attributed_within_budget_first_task :
    ∃ P P', Runs (During (Pool.Steps (rules checks)) fun P e => withinBudget P e = true)
        ⟨{}, []⟩ oneTask P ∧
      Pool.Steps (rules checks) P (turn 1 "t1" "r2") P' ∧ P'.state.tasksSpent "a1" = 1 ∧
      Accounted P'.state ∧ Budgeted P.state P'.state := by
  have hend : (oneTask.foldlM (fun P e =>
      if withinBudget P e then Pool.step (rules checks) P e else none) (⟨{}, []⟩ : OrgPool)).any
      (fun P => withinBudget P (turn 1 "t1" "r2") &&
        (P.step (rules checks) (turn 1 "t1" "r2")).any fun P' =>
          P'.state.tasksSpent "a1" == 1) = true := by
    decide +kernel
  obtain ⟨P, hP, hlast⟩ := (Option.any_eq_true _ _).mp hend
  obtain ⟨hwithin, hlast⟩ := Bool.and_eq_true_iff.mp hlast
  obtain ⟨P', hstep, hspent⟩ := (Option.any_eq_true _ _).mp hlast
  have hrun := Runs.foldlM hP
  exact ⟨P, P', hrun, hstep, beq_iff_eq.mp hspent,
    attributed_within_budget checks (fun _ ht => absurd ht List.not_mem_nil) hrun hstep hwithin⟩

/-- A second task of the agent comes through `POST /v1/tasks`. -/
def overspending : List OrgEvent :=
  oneTask ++ [turn 1 "t1" "r2", .start (.postTask { review with agentId := some "a1" })]

theorem budget_overspent :
    ∃ P P', Runs (Pool.Steps (rules checks)) ⟨{}, []⟩ overspending P ∧
      Pool.Steps (rules checks) P (turn 2 "t2" "") P' ∧
      ¬ Accounted P'.state ∧ ¬ Budgeted P.state P'.state := by
  have hend : (overspending.foldlM (Pool.step (rules checks)) (⟨{}, []⟩ : OrgPool)).any
      (fun P => P.state.tasksSpent "a1" == 1 &&
        (P.step (rules checks) (turn 2 "t2" "")).any fun P' =>
          P'.state.tasksSpent "a1" == 2 && (P'.state.created "a1").length == 1 &&
            (P'.state.agent "a1").any fun r => r.maxTasks == some 1) = true := by
    decide +kernel
  obtain ⟨P, hP, hlast⟩ := (Option.any_eq_true _ _).mp hend
  obtain ⟨hbefore, hlast⟩ := Bool.and_eq_true_iff.mp hlast
  obtain ⟨P', hstep, hlast⟩ := (Option.any_eq_true _ _).mp hlast
  simp only [Bool.and_eq_true, beq_iff_eq] at hbefore hlast
  obtain ⟨⟨hspent, hcreated⟩, hagent⟩ := hlast
  refine ⟨P, P', Runs.of_foldlM hP, hstep, fun haccounted => ?_, fun hbudgeted => ?_⟩
  · have htrail := (haccounted.trail "a1").length_le
    rw [List.length_map, List.length_map, hcreated] at htrail
    unfold OrgDb.tasksSpent at hspent
    omega
  · obtain ⟨r, hr, hmax⟩ := hbudgeted "a1" (by omega)
    rw [hr] at hagent
    have hover := hmax 1 (beq_iff_eq.mp hagent)
    omega

end Overspent

end AgentGrid.Store.Agents
