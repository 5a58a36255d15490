import AgentGrid.Store.Batches

/-!
# The network mode gate

A heartbeat stores the mode of its node, but the row that assignment reads does not
carry the column, so the gate compares the mode of the task with the default.
-/

namespace AgentGrid.Store

open AgentGrid.Foundation AgentGrid.Foundation.Ledger

/-- The rank of the mode a task asks for. -/
def Task.modeRank (t : Task) : Nat := networkModeRank (t.networkMode.getD "none")

/-- The reasons against a node, its network mode apart. -/
def otherReasons (env : SchedulerEnv) (db : Database) (v : NodeView) (t : Task) : List String :=
  nodeIneligibility env v t.repository t.adapter t.securityProfile none
    ((lookup Repository.name t.repository db.repositories).bind Repository.requirements)

theorem taskEligible_iff {env : SchedulerEnv} {db : Database} {v : NodeView} {t : Task} :
    taskEligible env db v t = true ↔
      otherReasons env db v t = [] ∧ t.modeRank ≤ networkModeRank v.networkMode := by
  have hnone : ¬networkModeRank "none" > networkModeRank v.networkMode := Nat.not_lt_zero _
  unfold taskEligible otherReasons nodeIneligibility
  simp only [Option.getD_none, if_neg hnone, List.append_nil, List.isEmpty_iff]
  rw [List.append_eq_nil_iff]
  refine and_congr_right fun _ => ?_
  rw [Task.modeRank]
  split
  · rename_i hrank
    simp only [List.cons_ne_nil, false_iff, not_le]
    exact hrank
  · rename_i hrank
    exact ⟨fun _ => Nat.le_of_not_lt hrank, fun _ => rfl⟩

/-- Everything but its network mode lets the node have the task: the gates of the host, room
in the batch for what stands before the task, and every other reason. -/
structure OtherGates (env : SchedulerEnv) (db : Database) (nodeId : String) (drained : Bool)
    (input : AssignInput) (t : Task) : Prop where
  new : input.New db
  asked : input.limit ≠ 0
  passed : ∃ n, HostOpen env db nodeId drained n ∧ ¬Pressed env n input.limit ∧
    otherReasons env db (rowToNodeView n false) t = [] ∧
    ∃ before after, candidates db nodeId = before ++ t :: after ∧
      before.countP (fun t' => (otherReasons env db (rowToNodeView n false) t').isEmpty) <
        batchCap n input.limit

/-- The call gives the task to the node. -/
def Given (env : SchedulerEnv) (db : Database) (nodeId : String) (drained : Bool)
    (input : AssignInput) (t : Task) : Prop :=
  ∃ a ∈ batchOf env db nodeId drained input, a.taskId = t.id

section Gate

variable {env : SchedulerEnv} {db : Database} {nodeId : String} {drained : Bool}
  {input : AssignInput} {t : Task}

/-- A task with fewer eligible tasks before it than the cap is among the chosen. -/
theorem mem_take_filter {α : Type} {p q : α → Bool} {xs before after : List α} {x : α} {cap : Nat}
    (hxs : xs = before ++ x :: after) (hpq : ∀ y, p y = true → q y = true) (hx : p x = true)
    (hcap : before.countP q < cap) : x ∈ (xs.filter p).take cap := by
  have hcount : (before.filter p).length < cap := by
    rw [← List.countP_eq_length_filter]
    exact lt_of_le_of_lt (List.countP_mono_left fun y _ => hpq y) hcap
  rw [hxs, List.filter_append, List.filter_cons_of_pos hx]
  rw [List.take_append]
  refine List.mem_append_right _ ?_
  obtain ⟨k, hk⟩ : ∃ k, cap - (before.filter p).length = k + 1 :=
    ⟨cap - (before.filter p).length - 1, by omega⟩
  rw [hk, List.take_succ_cons]
  exact List.mem_cons_self

theorem given_of_gates (hdb : db.Sound) (hnumbered : db.Numbered)
    (h : OtherGates env db nodeId drained input t) (hrank : t.modeRank = 0) :
    Given env db nodeId drained input t := by
  obtain ⟨n, hopen, hpass, hreasons, before, after, hqueue, hroom⟩ := h.passed
  have hchosen : t ∈ chosen env db nodeId n input.limit := by
    refine mem_take_filter hqueue ?_ ?_ hroom
    · intro t' ht'
      exact List.isEmpty_iff.mpr (taskEligible_iff.mp ht').1
    · exact taskEligible_iff.mpr ⟨hreasons, by rw [hrank]; exact Nat.zero_le _⟩
  have hbatch := tryAssignBatch_batch hdb hnumbered h.new hopen h.asked hpass
  have hids : t.id ∈ (assignmentsFrom db input 0 (chosen env db nodeId n input.limit)).map
      Assignment.taskId := by
    rw [assignmentsFrom_tasks]
    exact List.mem_map_of_mem hchosen
  obtain ⟨a, ha, hid⟩ := List.mem_map.mp hids
  exact ⟨a, by rw [batchOf, hbatch]; exact ha, hid⟩

theorem rank_of_given (hdb : db.Sound) (ht : t ∈ db.tasks)
    (h : Given env db nodeId drained input t) : t.modeRank = 0 := by
  obtain ⟨a, ha, hid⟩ := h
  obtain ⟨n, _, _, _, t', ht', hid'⟩ := mem_batchOf ha
  obtain ⟨hcand, heligible⟩ := mem_chosen ht'
  obtain rfl : t' = t :=
    row_unique (task_keys hdb) (mem_candidates.mp hcand).1 ht (hid'.symm.trans hid)
  exact Nat.le_zero.mp (taskEligible_iff.mp heligible).2

end Gate

/-- In every run the gate does what it should for a task exactly when the task asks for no
network or the last heartbeat of the node reported too little. -/
theorem network_gate_iff {db₀ : Database} (hfresh : db₀.Fresh) (ops : List Op)
    (env : SchedulerEnv) (nodeId : String) (drained : Bool) (input : AssignInput) {t : Task}
    (ht : t ∈ (ops.foldl beat ⟨db₀, fun _ => "none"⟩).db.tasks) :
    ((OtherGates env (ops.foldl beat ⟨db₀, fun _ => "none"⟩).db nodeId drained input t →
        t.modeRank ≤
          networkModeRank ((ops.foldl beat ⟨db₀, fun _ => "none"⟩).reported nodeId) →
        Given env (ops.foldl beat ⟨db₀, fun _ => "none"⟩).db nodeId drained input t) ∧
      (networkModeRank ((ops.foldl beat ⟨db₀, fun _ => "none"⟩).reported nodeId) < t.modeRank →
        ¬Given env (ops.foldl beat ⟨db₀, fun _ => "none"⟩).db nodeId drained input t)) ↔
    (OtherGates env (ops.foldl beat ⟨db₀, fun _ => "none"⟩).db nodeId drained input t →
      t.modeRank = 0 ∨
        networkModeRank ((ops.foldl beat ⟨db₀, fun _ => "none"⟩).reported nodeId) <
          t.modeRank) := by
  have hrun : Runs Step db₀ ops (ops.foldl beat ⟨db₀, fun _ => "none"⟩).db := by
    rw [foldl_beat_db]
    exact Runs.foldl step db₀ ops
  have hdb := sound_run hrun (sound_of_fresh hfresh)
  have hnumbered := numbered_run hfresh hrun
  generalize (ops.foldl beat ⟨db₀, fun _ => "none"⟩) = w at ht hdb hnumbered ⊢
  constructor
  · rintro ⟨hgiven, _⟩ hgates
    by_cases hrank : t.modeRank ≤ networkModeRank (w.reported nodeId)
    · exact .inl (rank_of_given hdb ht (hgiven hgates hrank))
    · exact .inr (Nat.lt_of_not_le hrank)
  · intro hwhen
    refine ⟨fun hgates hrank => ?_, fun hlow hgiven => ?_⟩
    · refine given_of_gates hdb hnumbered hgates ((hwhen hgates).resolve_right ?_)
      exact Nat.not_lt.mpr hrank
    · have hzero := rank_of_given hdb ht hgiven
      omega

section Reported

/-! A node that reports an unrestricted network, and a task that asks for a restricted one. -/

def networkBeat : HeartbeatRequest where
  name := "n1"
  status := none
  agentVersion := none
  maxConcurrency := 1
  adapters := ["claude"]
  repositories := ["*"]
  freeDiskMb := 0
  freeMemoryMb := 0
  cpuCount := 0
  memAvailableMb := 0
  permissionInterception := "hook"
  networkMode := "unrestricted"
  activeRssMib := 0
  maxRssMib := 0

def networkTask : CreateTaskRequest :=
  { prompt := "fetch it", repository := "app", adapter := "claude",
    networkMode := some "restricted" }

def networkDay : List Op :=
  [.registerOrTouchNode ⟨"n1", "n1", ["claude"], ["*"], 1⟩ morning,
   .heartbeat "n1" networkBeat morning, .createTask networkTask "t1" morning]

/-- The row after its heartbeat. -/
def networkNode : Node where
  id := "n1"
  name := "n1"
  status := .online
  adapters := ["claude"]
  repositories := ["*"]
  lastHeartbeatAt := some morning
  createdAt := morning
  permissionInterception := "hook"
  networkMode := "unrestricted"

theorem networkDay_gates : OtherGates { freeBytes := 2 ^ 40 }
    (networkDay.foldl beat ⟨{}, fun _ => "none"⟩).db "n1" false freshIds
    (networkTask.task "t1" morning) where
  new := by
    refine ⟨freshIds_distinct, fun i a ha => ?_⟩
    have hnone : (networkDay.foldl beat ⟨{}, fun _ => "none"⟩).db.attempts = [] := by decide
    rw [hnone] at ha
    cases ha
  asked := by decide
  passed := by
    refine ⟨networkNode, ⟨by decide, by decide, rfl, by decide, by decide, rfl⟩, ?_, by decide,
      [], [], by decide, by decide⟩
    exact fun h => absurd h.2 (by decide)

theorem network_gate_networkDay :
    networkTask.task "t1" morning ∈ (networkDay.foldl beat ⟨{}, fun _ => "none"⟩).db.tasks ∧
    (((OtherGates { freeBytes := 2 ^ 40 } (networkDay.foldl beat ⟨{}, fun _ => "none"⟩).db "n1"
          false freshIds (networkTask.task "t1" morning) →
        (networkTask.task "t1" morning).modeRank ≤
          networkModeRank ((networkDay.foldl beat ⟨{}, fun _ => "none"⟩).reported "n1") →
        Given { freeBytes := 2 ^ 40 } (networkDay.foldl beat ⟨{}, fun _ => "none"⟩).db "n1"
          false freshIds (networkTask.task "t1" morning)) ∧
      (networkModeRank ((networkDay.foldl beat ⟨{}, fun _ => "none"⟩).reported "n1") <
          (networkTask.task "t1" morning).modeRank →
        ¬Given { freeBytes := 2 ^ 40 } (networkDay.foldl beat ⟨{}, fun _ => "none"⟩).db "n1"
          false freshIds (networkTask.task "t1" morning))) ↔
    (OtherGates { freeBytes := 2 ^ 40 } (networkDay.foldl beat ⟨{}, fun _ => "none"⟩).db "n1"
        false freshIds (networkTask.task "t1" morning) →
      (networkTask.task "t1" morning).modeRank = 0 ∨
        networkModeRank ((networkDay.foldl beat ⟨{}, fun _ => "none"⟩).reported "n1") <
          (networkTask.task "t1" morning).modeRank)) :=
  ⟨by decide, network_gate_iff ⟨rfl, rfl, rfl⟩ networkDay _ _ _ _ (by decide)⟩

/-- The unrestricted node, open in every other respect, does not get the restricted task. -/
theorem reported_network_refused :
    OtherGates { freeBytes := 2 ^ 40 } (networkDay.foldl beat ⟨{}, fun _ => "none"⟩).db "n1"
        false freshIds (networkTask.task "t1" morning) ∧
      (networkDay.foldl beat ⟨{}, fun _ => "none"⟩).reported "n1" = "unrestricted" ∧
      (networkTask.task "t1" morning).modeRank < networkModeRank "unrestricted" ∧
      ¬Given { freeBytes := 2 ^ 40 } (networkDay.foldl beat ⟨{}, fun _ => "none"⟩).db "n1"
        false freshIds (networkTask.task "t1" morning) := by
  refine ⟨networkDay_gates, by decide, by decide, ?_⟩
  have hdb : (networkDay.foldl beat ⟨{}, fun _ => "none"⟩).db.Sound := by
    rw [foldl_beat_db]
    exact sound_run (Runs.foldl step {} networkDay) (sound_of_fresh ⟨rfl, rfl, rfl⟩)
  intro hgiven
  exact absurd (rank_of_given hdb (by decide) hgiven) (by decide)

end Reported

end AgentGrid.Store
