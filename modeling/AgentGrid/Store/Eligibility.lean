import AgentGrid.Store.BatchLimit
import AgentGrid.Store.NetworkGate

/-!
# The eligibility report

`task_eligibility` tells for each node whether it may have a task.  It shares the
reasons against a node with assignment, and each of the two has gates of its own
besides.
-/

namespace AgentGrid.Store

open AgentGrid.Foundation AgentGrid.Foundation.Ledger

/-- `list_nodes` without a cursor and without a limit. -/
def listNodes (db : Database) : List Node :=
  (db.nodes.insertionSort fun n n' =>
    n.createdAt < n'.createdAt ∨ n.createdAt = n'.createdAt ∧ n.id ≤ n'.id).take 100

structure NodeEligibility where
  nodeId : String
  status : NodeStatus
  eligible : Bool
  reasons : List String
deriving DecidableEq, Repr

structure TaskEligibility where
  taskId : String
  noEligibleNodes : List String
  nodes : List NodeEligibility
deriving DecidableEq, Repr

def avoidReason : String :=
  "lost the previous attempt; retrying on a different node (this one is " ++
    "skipped while another node is online)"

/-- The node that lost the task is skipped while the page shows another one online. -/
def avoidBlocked (all : List Node) (t : Task) : Bool :=
  t.avoidNodeId.any fun id => all.any fun n => n.id != id && n.status == .online

def reportReasons (env : SchedulerEnv) (db : Database) (all : List Node) (t : Task) (n : Node) :
    List String :=
  nodeIneligibility env (rowToNodeView n false) t.repository t.adapter t.securityProfile
      t.networkMode
      ((lookup Repository.name t.repository db.repositories).bind Repository.requirements) ++
    if avoidBlocked all t && t.avoidNodeId == some n.id then [avoidReason] else []

def reportNode (env : SchedulerEnv) (db : Database) (all : List Node) (t : Task) (n : Node) :
    NodeEligibility where
  nodeId := n.id
  status := n.status
  eligible := (reportReasons env db all t n).isEmpty
  reasons := reportReasons env db all t n

/-- Each reason once, where it comes first. -/
def distinctReasons (reasons : List String) : List String :=
  reasons.foldl (fun out r => if r ∈ out then out else out ++ [r]) []

def noEligibleNodes (t : Task) (nodes : List NodeEligibility) : List String :=
  if nodes.any NodeEligibility.eligible then []
  else
    let out := distinctReasons (nodes.flatMap NodeEligibility.reasons)
    if out.isEmpty then
      match t.requestedNodeId with
      | some id => ["requested node " ++ id ++ " not registered"]
      | none => ["no nodes registered"]
    else out

def taskEligibility (env : SchedulerEnv) (db : Database) (taskId : String) :
    Option TaskEligibility :=
  (db.task taskId).map fun t =>
    let all := listNodes db
    let considered :=
      match t.requestedNodeId with
      | some id => all.filter fun n : Node => n.id == id
      | none => all
    let nodes := considered.map (reportNode env db all t)
    { taskId := taskId, noEligibleNodes := noEligibleNodes t nodes, nodes := nodes }

/-- The report calls the node eligible. -/
def Reported (env : SchedulerEnv) (db : Database) (taskId nodeId : String) : Prop :=
  ∃ e, taskEligibility env db taskId = some e ∧
    ∃ r ∈ e.nodes, r.nodeId = nodeId ∧ r.eligible = true

/-- What both ask of the node. -/
structure Shared (env : SchedulerEnv) (db : Database) (t : Task) (n : Node) : Prop where
  requested : t.requestedNodeId = none ∨ t.requestedNodeId = some n.id
  eligible : taskEligible env db (rowToNodeView n false) t = true

/-- What the report alone asks: a place on its page, and that the page does not make the node
one to avoid. -/
structure ReportGates (db : Database) (t : Task) (n : Node) : Prop where
  listed : n ∈ listNodes db
  unavoided : t.avoidNodeId = some n.id →
    ∀ other ∈ listNodes db, other.id ≠ n.id → other.status ≠ .online

/-- What assignment alone asks: the gates of the host, and that no other node that is online
and not drained makes this one to avoid. -/
structure SchedulerGates (env : SchedulerEnv) (db : Database) (t : Task) (n : Node) : Prop where
  host : HostOpen env db n.id n.drained n
  pressure : ¬Pressed env n 1
  unavoided : t.avoidNodeId = some n.id →
    ∀ other ∈ db.nodes, other.id ≠ n.id → other.status = .online → other.drained = true

section Agreement

variable {env : SchedulerEnv} {db : Database} {t : Task} {n : Node}

theorem avoidBlocked_iff {all : List Node} (h : t.avoidNodeId = some n.id) :
    avoidBlocked all t = true ↔ ∃ other ∈ all, other.id ≠ n.id ∧ other.status = .online := by
  simp [avoidBlocked, h]

theorem reportNode_eligible {all : List Node} :
    (reportNode env db all t n).eligible = true ↔
      taskEligible env db (rowToNodeView n false) t = true ∧
        (t.avoidNodeId = some n.id →
          ∀ other ∈ all, other.id ≠ n.id → other.status ≠ .online) := by
  unfold reportNode reportReasons taskEligible
  dsimp only
  rw [List.isEmpty_iff, List.append_eq_nil_iff, ← List.isEmpty_iff]
  refine and_congr_right fun _ => ?_
  by_cases havoid : t.avoidNodeId = some n.id
  · rw [havoid]
    by_cases hblocked : avoidBlocked all t = true
    · obtain ⟨other, hother, hne, honline⟩ := (avoidBlocked_iff havoid).mp hblocked
      simp only [hblocked, beq_self_eq_true, Bool.and_self, if_true, List.cons_ne_nil, false_iff]
      exact fun h => h trivial other hother hne honline
    · have hnone : ∀ other ∈ all, other.id ≠ n.id → other.status ≠ .online :=
        fun other hother hne honline =>
          hblocked ((avoidBlocked_iff havoid).mpr ⟨other, hother, hne, honline⟩)
      simp only [hblocked, Bool.false_and, Bool.false_eq_true, if_false, true_iff]
      exact fun _ => hnone
  · simp [havoid]

theorem reported_iff (hdb : db.Sound) (ht : t ∈ db.tasks) (hn : n ∈ db.nodes) :
    Reported env db t.id n.id ↔ Shared env db t n ∧ ReportGates db t n := by
  have htask : db.task t.id = some t := lookup_of_mem (task_keys hdb) ht
  have hpage : ∀ n' ∈ listNodes db, n' ∈ db.nodes := fun n' hn' =>
    (List.perm_insertionSort _ _).mem_iff.mp ((List.take_sublist _ _).subset hn')
  have hsame : ∀ n' ∈ listNodes db, n'.id = n.id → n' = n := fun n' hn' hid =>
    row_unique (node_keys hdb) (hpage n' hn') hn hid
  unfold Reported taskEligibility
  rw [htask]
  simp only [Option.map_some, Option.some.injEq, exists_eq_left', List.mem_map]
  constructor
  · rintro ⟨r, ⟨n', hn', rfl⟩, hid, heligible⟩
    have hlisted : n' ∈ listNodes db ∧
        (t.requestedNodeId = none ∨ t.requestedNodeId = some n'.id) := by
      cases hreq : t.requestedNodeId with
      | none =>
          rw [hreq] at hn'
          exact ⟨hn', .inl rfl⟩
      | some id =>
          rw [hreq] at hn'
          obtain ⟨hmem, hid'⟩ := List.mem_filter.mp hn'
          exact ⟨hmem, .inr (by rw [beq_iff_eq.mp hid'])⟩
    obtain rfl := hsame n' hlisted.1 hid
    obtain ⟨hshared, havoid⟩ := reportNode_eligible.mp heligible
    exact ⟨⟨hlisted.2, hshared⟩, hlisted.1, havoid⟩
  · rintro ⟨⟨hrequested, hshared⟩, hlisted, havoid⟩
    refine ⟨_, ⟨n, ?_, rfl⟩, rfl, reportNode_eligible.mpr ⟨hshared, havoid⟩⟩
    rcases hrequested with hreq | hreq
    · rw [hreq]
      exact hlisted
    · rw [hreq]
      exact List.mem_filter.mpr ⟨hlisted, beq_self_eq_true _⟩

/-- A node with a reason to be eligible has a free slot. -/
theorem slot_of_eligible {v : NodeView} (h : taskEligible env db v t = true) :
    v.activeAttempts < v.maxConcurrency := by
  rw [taskEligible, List.isEmpty_iff] at h
  unfold nodeIneligibility at h
  simp only [List.append_eq_nil_iff] at h
  have hcapacity := h.1.1.2
  by_contra hfull
  rw [if_pos (Nat.le_of_not_lt hfull)] at hcapacity
  cases hcapacity

theorem unavoided_iff : (t.avoidNodeId = none ∨ t.avoidNodeId ≠ some n.id ∨
      db.nodes.countP (fun m => m.id != n.id && m.status == .online && !m.drained) = 0) ↔
    (t.avoidNodeId = some n.id →
      ∀ other ∈ db.nodes, other.id ≠ n.id → other.status = .online → other.drained = true) := by
  rw [List.countP_eq_zero]
  constructor
  · rintro (h | h | h) havoid other hother hne honline
    · rw [h] at havoid
      cases havoid
    · exact absurd havoid h
    · simpa [hne, honline] using h other hother
  · intro h
    by_cases havoid : t.avoidNodeId = some n.id
    · refine .inr (.inr fun other hother => ?_)
      have := h havoid other hother
      by_cases hne : other.id = n.id
      · simp [hne]
      · by_cases honline : other.status = .online
        · simp [this hne honline]
        · simp [honline]
    · exact .inr (.inl havoid)

theorem given_iff (hdb : db.Sound) (hnumbered : db.Numbered) {input : AssignInput}
    (hnew : input.New db) (hlimit : input.limit = 1) (ht : t ∈ db.tasks)
    (hqueued : t.status = .queued) (honly : ∀ t' ∈ db.tasks, t'.status = .queued → t' = t)
    (hn : n ∈ db.nodes) :
    Given env db n.id n.drained input t ↔ Shared env db t n ∧ SchedulerGates env db t n := by
  have hrow : db.node n.id = some n := lookup_of_mem (node_keys hdb) hn
  constructor
  · rintro ⟨a, ha, hid⟩
    obtain ⟨n', hopen, _, hpass, t', ht', hid'⟩ := mem_batchOf ha
    obtain rfl : n' = n := Option.some.inj (hopen.row.symm.trans hrow)
    obtain ⟨hcand, heligible⟩ := mem_chosen ht'
    obtain ⟨hmem, _, hrequested, havoid⟩ := mem_candidates.mp hcand
    obtain rfl : t' = t := row_unique (task_keys hdb) hmem ht (hid'.symm.trans hid)
    rw [hlimit] at hpass
    exact ⟨⟨hrequested, heligible⟩, hopen, hpass, unavoided_iff.mp havoid⟩
  · rintro ⟨⟨hrequested, heligible⟩, hopen, hpass, havoid⟩
    have hcand : t ∈ candidates db n.id :=
      mem_candidates.mpr ⟨ht, hqueued, hrequested, unavoided_iff.mpr havoid⟩
    obtain ⟨before, after, hqueue⟩ := List.append_of_mem hcand
    have hfirst : before = [] := by
      refine List.eq_nil_iff_forall_not_mem.mpr fun t' ht' => ?_
      have hmem : t' ∈ candidates db n.id := hqueue ▸ List.mem_append_left _ ht'
      obtain ⟨hin, hq, _⟩ := mem_candidates.mp hmem
      have hnodup : ((candidates db n.id).map Task.id).Nodup := candidates_nodup hdb
      rw [hqueue, List.map_append, List.nodup_append] at hnodup
      exact hnodup.2.2 t'.id (List.mem_map_of_mem ht') t.id
        (by simp) (congrArg Task.id (honly t' hin hq))
    have hslot := slot_of_eligible heligible
    have hcap : 0 < batchCap n input.limit := by
      unfold batchCap
      omega
    obtain ⟨hreasons, hrank⟩ := taskEligible_iff.mp heligible
    refine given_of_gates hdb hnumbered ⟨hnew, by omega, n, hopen, by rw [hlimit]; exact hpass,
      hreasons, before, after, hqueue, ?_⟩ (Nat.le_zero.mp hrank)
    rw [hfirst]
    exact hcap

end Agreement

/-- The report agrees with assignment about a task that waits alone exactly when, for a node
that passes what the two share, the gates of the one let it through when those of the other do. -/
theorem report_agrees_iff {db₀ db : Database} {ops : List Op} (hfresh : db₀.Fresh)
    (hrun : Runs Step db₀ ops db) (env : SchedulerEnv) {input : AssignInput}
    (hnew : input.New db) (hlimit : input.limit = 1) {t : Task} (ht : t ∈ db.tasks)
    (hqueued : t.status = .queued) (honly : ∀ t' ∈ db.tasks, t'.status = .queued → t' = t)
    {n : Node} (hn : n ∈ db.nodes) :
    (Reported env db t.id n.id ↔ Given env db n.id n.drained input t) ↔
      (Shared env db t n → (ReportGates db t n ↔ SchedulerGates env db t n)) := by
  have hdb := sound_run hrun (sound_of_fresh hfresh)
  rw [reported_iff hdb ht hn, given_iff hdb (numbered_run hfresh hrun) hnew hlimit ht hqueued
    honly hn, and_congr_right_iff]

def eveningNode : Node where
  id := "n1"
  name := "n1"
  status := .online
  maxConcurrency := 5
  adapters := ["claude"]
  repositories := ["*"]
  lastHeartbeatAt := some morning
  createdAt := morning

def eveningTask : Task :=
  CreateTaskRequest.task { prompt := "fix it", repository := "app", adapter := "claude" } "t1"
    morning

theorem report_agrees_evening :
    (∀ t' ∈ (evening.foldl step {}).tasks, t'.status = .queued → t' = eveningTask) ∧
    ((Reported { freeBytes := 2 ^ 40 } (evening.foldl step {}) eveningTask.id eveningNode.id ↔
        Given { freeBytes := 2 ^ 40 } (evening.foldl step {}) eveningNode.id eveningNode.drained
          freshIds eveningTask) ↔
      (Shared { freeBytes := 2 ^ 40 } (evening.foldl step {}) eveningTask eveningNode →
        (ReportGates (evening.foldl step {}) eveningTask eveningNode ↔
          SchedulerGates { freeBytes := 2 ^ 40 } (evening.foldl step {}) eveningTask
            eveningNode))) := by
  have honly : ∀ t' ∈ (evening.foldl step {}).tasks, t'.status = .queued → t' = eveningTask := by
    decide
  exact ⟨honly, report_agrees_iff ⟨rfl, rfl, rfl⟩ (Runs.foldl step {} evening) _ freshIds_new rfl
    (by decide) (by decide) honly (by decide)⟩

def drainedEvening : List Op := evening ++ [Op.setNodeDrained "n1" true morning]

/-- A drained node is reported eligible and gets nothing. -/
theorem drained_reported :
    (taskEligibility { freeBytes := 2 ^ 40 } (drainedEvening.foldl step {}) "t1").map
        (fun e => e.nodes.map fun r => (r.nodeId, r.eligible)) = some [("n1", true)] ∧
      (drainedEvening.foldl step {}).nodes.map Node.drained = [true] ∧
      batchOf { freeBytes := 2 ^ 40 } (drainedEvening.foldl step {}) "n1" true freshIds = [] :=
  ⟨by decide, by decide, List.length_eq_zero_iff.mp (by decide)⟩

end AgentGrid.Store
