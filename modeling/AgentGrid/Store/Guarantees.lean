import AgentGrid.Store.Lifecycle

/-!
# What the store guarantees

Over every run from a fresh database: at most one live attempt for each task,
exact slot counts, and that a cancelled task is not given another attempt.
-/

namespace AgentGrid.Store

open AgentGrid.Foundation AgentGrid.Foundation.Ledger

variable {db : Database}

section Day

/-! A node with one slot and one task, for the examples of this module. -/

def morning : String := "2026-01-01T08:00:00Z"

def oneSlot (id : String) : AssignInput where
  limit := 1
  now := morning
  leaseExpiresAt := "2026-01-01T08:00:30Z"
  ackDeadline := "2026-01-01T08:00:30Z"
  attemptId := fun _ => id
  fencingToken := fun _ => id

def assignOne (id : String) : Op :=
  .tryAssignBatch { freeBytes := 2 ^ 40 } "n1" false (oneSlot id)

def firstAssignment : List Op :=
  [.registerOrTouchNode ⟨"n1", "n1", ["claude"], ["*"], 1⟩ morning,
   .createTask { prompt := "fix it", repository := "app", adapter := "claude" } "t1"
     morning,
   assignOne "a1"]

end Day

section LiveAttempts

private theorem length_le_one {α : Type} {rows : List α} (hnodup : rows.Nodup)
    (hsame : ∀ x ∈ rows, ∀ y ∈ rows, x = y) : rows.length ≤ 1 := by
  match rows, hnodup, hsame with
  | [], _, _ => simp
  | [_], _, _ => simp
  | x :: y :: _, hnodup, hsame =>
      have hxy := hsame x (by simp) y (by simp)
      simp [hxy] at hnodup

theorem inFlight_count_le_one (hdb : db.Sound) (taskId : String) :
    db.attempts.countP (fun a => a.taskId == taskId && a.status.inFlight) ≤ 1 := by
  rw [List.countP_eq_length_filter]
  apply length_le_one
  · exact (List.Nodup.of_map _ (attempt_keys hdb)).filter _
  · intro x hx y hy
    obtain ⟨hx, hxp⟩ := List.mem_filter.mp hx
    obtain ⟨hy, hyp⟩ := List.mem_filter.mp hy
    rw [Bool.and_eq_true, beq_iff_eq] at hxp hyp
    have hlease := hdb.live_unique (lease_mem hx) hxp.2 (lease_mem hy) hyp.2
      (hxp.1.trans hyp.1.symm)
    exact attempt_eq hdb hy hx (congrArg Lease.id hlease)

theorem inFlight_iff (hdb : db.Sound) {t : Task} (ht : t ∈ db.tasks) :
    t.status.inFlight = true ↔
      ∃ a ∈ db.attempts, a.taskId = t.id ∧ a.status.inFlight = true ∧
        t.assignedAttemptId = some a.id := by
  constructor
  · intro hbusy
    obtain ⟨l, hl, hholder, hlive⟩ :=
      hdb.busy_live t.holder (List.mem_map_of_mem ht) hbusy
    obtain ⟨a, ha, rfl⟩ := List.mem_map.mp hl
    exact ⟨a, ha, hholder, hlive, (owner_shows hdb ha hlive ht hholder.symm).1⟩
  · rintro ⟨a, ha, htask, hlive, _⟩
    rw [(owner_shows hdb ha hlive ht htask.symm).2]
    exact a.status.inFlight_taskStatus hlive

/-- An attempt that has ended keeps its row's status in every later state. -/
theorem ended_kept (hdb : db.Sound) {a : Attempt} (ha : a ∈ db.attempts)
    (hended : a.status.inFlight = false) {ops : List Op} {db' : Database}
    (h : Runs Step db ops db') :
    ∃ a' ∈ db'.attempts, a'.id = a.id ∧ a'.status = a.status := by
  have hkept : a.lease ∈ db'.ledger.leases := by
    refine (Runs.invariant (fun db => db.Sound ∧ a.lease ∈ db.ledger.leases)
      ?_ h ⟨hdb, lease_mem ha⟩).2
    rintro s op _ ⟨hs, hmem⟩ rfl
    have hstep := step_stepped hs op
    obtain ⟨ms, hms, _⟩ := hstep
    exact ⟨hms.sound hs, hms.dead hs hmem hended⟩
  obtain ⟨a', ha', hlease⟩ := List.mem_map.mp hkept
  exact ⟨a', ha', congrArg Lease.id hlease, congrArg (fun l => l.state.1) hlease⟩

/-- Every task has at most one attempt in flight, its status says so exactly
when it points at that attempt, and an ended attempt stays as it ended. -/
theorem one_live_attempt {db₀ : Database} {ops : List Op} (hfresh : db₀.Fresh)
    (h : Runs Step db₀ ops db) :
    (∀ taskId, db.attempts.countP
      (fun a => a.taskId == taskId && a.status.inFlight) ≤ 1) ∧
    (∀ t ∈ db.tasks, t.status.inFlight = true ↔
      ∃ a ∈ db.attempts, a.taskId = t.id ∧ a.status.inFlight = true ∧
        t.assignedAttemptId = some a.id) ∧
    ∀ a ∈ db.attempts, a.status.inFlight = false →
      ∀ ops' db', Runs Step db ops' db' →
        (∃ a' ∈ db'.attempts, a'.id = a.id) ∧
          ∀ a' ∈ db'.attempts, a'.id = a.id → a'.status = a.status := by
  have hdb := sound_run h (sound_of_fresh hfresh)
  refine ⟨inFlight_count_le_one hdb, fun t ht => inFlight_iff hdb ht, ?_⟩
  intro a ha hended ops' db' hrun
  obtain ⟨kept, hkept, hid, hstatus⟩ := ended_kept hdb ha hended hrun
  refine ⟨⟨kept, hkept, hid⟩, ?_⟩
  intro a' ha' hid'
  rw [attempt_eq (sound_run hrun hdb) hkept ha' (hid'.trans hid.symm), hstatus]

theorem one_live_attempt_assigned :
    (firstAssignment.foldl step {}).attempts.countP
        (fun a => a.taskId == "t1" && a.status.inFlight) = 1 ∧
      (firstAssignment.foldl step {}).attempts.countP
        (fun a => a.taskId == "t1" && a.status.inFlight) ≤ 1 :=
  ⟨by decide, (one_live_attempt ⟨rfl, rfl, rfl⟩
    (Runs.foldl step {} firstAssignment)).1 "t1"⟩

end LiveAttempts

section Acks

/-- A positive answer finds no other attempt of the task in flight. -/
def AckExclusive (db : Database) (attemptId now : String) : Prop :=
  (ackAttempt db attemptId now).2 = true →
    ∀ a ∈ db.attempts, a.id = attemptId →
      ∀ b ∈ (ackAttempt db attemptId now).1.attempts, b.taskId = a.taskId →
        b.id ≠ attemptId → b.status.inFlight = false

/-- The attempts that have ended and are still acknowledged. -/
def AttemptStatus.ackedEnded (s : AttemptStatus) : Bool := s.ackKnown && !s.inFlight

theorem inFlight_alone (hdb : db.Sound) {a b : Attempt} (ha : a ∈ db.attempts)
    (hlive : a.status.inFlight = true) (hb : b ∈ db.attempts)
    (htask : b.taskId = a.taskId) (hid : b.id ≠ a.id) : b.status.inFlight = false := by
  by_contra hother
  rw [Bool.not_eq_false] at hother
  have hlease := hdb.live_unique (lease_mem hb) hother (lease_mem ha) hlive htask
  exact hid (congrArg Lease.id hlease)

theorem ackAttempt_others {attemptId now : String} {b : Attempt}
    (hb : b ∈ (ackAttempt db attemptId now).1.attempts) (hid : b.id ≠ attemptId) :
    b ∈ db.attempts := by
  unfold ackAttempt at hb
  split at hb
  · exact hb
  · split at hb
    · exact hb
    · dsimp only at hb
      split at hb
      · exact hb
      · obtain ⟨old, hold, rfl⟩ := mem_updateWhere.mp hb
        by_cases hheld : (old.id == attemptId && old.status == .assigned) = true
        · rw [if_pos hheld] at hid
          rw [Bool.and_eq_true, beq_iff_eq] at hheld
          exact absurd hheld.1 hid
        · rwa [if_neg hheld]

theorem ackExclusive_of_inFlight (hdb : db.Sound) {a : Attempt} (ha : a ∈ db.attempts)
    (hlive : a.status.inFlight = true) (now : String) : AckExclusive db a.id now := by
  intro _ r hr hrid b hb htask hid
  rw [attempt_eq hdb ha hr hrid] at htask
  exact inFlight_alone hdb ha hlive (ackAttempt_others hb hid) htask hid

theorem ackAttempt_ended (hdb : db.Sound) {a : Attempt} (ha : a ∈ db.attempts)
    (hended : a.status.inFlight = false) (now : String) :
    ackAttempt db a.id now = (db, a.status.ackKnown) := by
  have hrow : db.attempt a.id = some a := lookup_of_mem (attempt_keys hdb) ha
  have hassigned : a.status ≠ .assigned := by
    intro hstatus
    simp [hstatus, AttemptStatus.inFlight] at hended
  simp [ackAttempt, hrow, hassigned]

/-- In every reachable database, an acknowledgement answered with true finds
no other attempt of the task in flight exactly when its attempt has not ended
in a status that is acknowledged again while its task is in flight. -/
theorem ack_exclusive_iff {db₀ : Database} {ops : List Op} (hfresh : db₀.Fresh)
    (h : Runs Step db₀ ops db) (attemptId now : String) :
    AckExclusive db attemptId now ↔
      ∀ a ∈ db.attempts, a.id = attemptId → a.status.ackedEnded = true →
        ∀ t ∈ db.tasks, t.id = a.taskId → t.status.inFlight = false := by
  have hdb := sound_run h (sound_of_fresh hfresh)
  constructor
  · intro hexclusive a ha hid hended t ht htask
    subst hid
    obtain ⟨hknown, hout⟩ : a.status.ackKnown = true ∧ a.status.inFlight = false := by
      simpa [AttemptStatus.ackedEnded] using hended
    by_contra hbusy
    rw [Bool.not_eq_false, inFlight_iff hdb ht] at hbusy
    obtain ⟨b, hb, hbtask, hblive, _⟩ := hbusy
    rw [AckExclusive, ackAttempt_ended hdb ha hout] at hexclusive
    have hid : b.id ≠ a.id := by
      intro hid
      rw [attempt_eq hdb ha hb hid, hout] at hblive
      cases hblive
    have hquiet := hexclusive hknown a ha rfl b hb (hbtask.trans htask) hid
    rw [hquiet] at hblive
    cases hblive
  · intro hended hacked a ha hid
    subst hid
    cases hlive : a.status.inFlight with
    | true => exact ackExclusive_of_inFlight hdb ha hlive now hacked a ha rfl
    | false =>
        rw [ackAttempt_ended hdb ha hlive] at hacked ⊢
        intro b hb htask hid
        obtain ⟨t, ht, hown⟩ := owner_exists hdb ha
        have hidle := hended a ha rfl (by simp_all [AttemptStatus.ackedEnded]) t ht hown
        by_contra hblive
        rw [Bool.not_eq_false] at hblive
        have hbusy := (inFlight_iff hdb ht).mpr ⟨b, hb, htask.trans hown.symm, hblive,
          (owner_shows hdb hb hblive ht (hown.trans htask.symm)).1⟩
        rw [hidle] at hbusy
        cases hbusy

/-- The node of the first attempt is lost, and a second node gets the task. -/
def secondAssignment : List Op :=
  [.registerOrTouchNode ⟨"n1", "n1", ["claude"], ["*"], 1⟩ morning,
   .createTask { prompt := "fix it", repository := "app", adapter := "claude",
                 maxAttempts := 2 } "t1" morning,
   assignOne "a1",
   .markNodeOffline "n1" morning,
   .registerOrTouchNode ⟨"n2", "n2", ["claude"], ["*"], 1⟩ morning,
   .tryAssignBatch { freeBytes := 2 ^ 40 } "n2" false (oneSlot "a2")]

theorem ack_exclusive_iff_assigned :
    AckExclusive (firstAssignment.foldl step {}) "a1" morning :=
  (ack_exclusive_iff ⟨rfl, rfl, rfl⟩ (Runs.foldl step {} firstAssignment) "a1"
    morning).mpr (by decide)

/-- The lost attempt is acknowledged while the second one is assigned. -/
theorem ack_lost_attempt : ¬ ∀ (db₀ db : Database) (ops : List Op)
    (attemptId now : String), db₀.Fresh → Runs Step db₀ ops db →
    AckExclusive db attemptId now := by
  intro h
  have hexclusive := h {} _ secondAssignment "a1" morning ⟨rfl, rfl, rfl⟩
    (Runs.foldl step {} _)
  revert hexclusive
  unfold AckExclusive
  decide

end Acks

section Slots

/-- The counters fit the width they are read with. -/
def Database.Narrow (db : Database) : Prop :=
  ∀ n ∈ db.nodes, n.activeAttempts ≤ 2 ^ 32 - 1

theorem narrow_step (hdb : db.Sound) (hnarrow : db.Narrow) (op : Op) :
    (step db op).Narrow := by
  cases op with
  | tryAssignBatch env nodeId drained input =>
      have hwidth : ∀ n ∈ db.nodes, n.activeAttempts < 2 ^ 32 := by
        intro n hn
        have := hnarrow n hn
        omega
      intro n' hn'
      rcases tryAssignBatch_capacity hdb env nodeId drained input hwidth n' hn' with
        hold | hle | ⟨n, hn, _, heq⟩
      · exact hnarrow n' hold
      · have := n'.maxConcurrency.toNat_lt
        omega
      · rw [heq]
        exact hnarrow n hn
  | _ => exact (step_traced hdb _ (by simp)).activeAttempts_le hnarrow

theorem narrow_run {db₀ : Database} {ops : List Op} (hfresh : db₀.Fresh)
    (h : Runs Step db₀ ops db) : db.Sound ∧ db.Narrow := by
  refine Runs.invariant (fun db => db.Sound ∧ db.Narrow) ?_ h
    ⟨sound_of_fresh hfresh, by simp [Database.Narrow, hfresh.2.2]⟩
  rintro s op _ ⟨hs, hnarrow⟩ rfl
  exact ⟨(step_stepped hs op).sound hs, narrow_step hs hnarrow op⟩

/-- The slot counter of every node is the number of its attempts in flight, a
reconcile finds nothing to repair, and an assignment that raises a counter
leaves it within the node's limit. -/
theorem active_attempts_exact {db₀ : Database} {ops : List Op} (hfresh : db₀.Fresh)
    (h : Runs Step db₀ ops db) :
    (∀ n ∈ db.nodes, n.activeAttempts =
      db.attempts.countP fun a => a.nodeId == n.id && a.status.inFlight) ∧
    reconcileActiveAttempts db = (db, 0) ∧
    ∀ env nodeId drained input, ∀ n ∈ db.nodes,
      ∀ n' ∈ (tryAssignBatch env db nodeId drained input).1.nodes,
        n'.id = n.id → n.activeAttempts < n'.activeAttempts →
          n'.activeAttempts ≤ n'.maxConcurrency.toNat := by
  obtain ⟨hdb, hnarrow⟩ := narrow_run hfresh h
  refine ⟨fun n hn => slots_exact hdb hn, reconcileActiveAttempts_eq hdb, ?_⟩
  intro env nodeId drained input n hn n' hn' hid hlt
  have hwidth : ∀ n ∈ db.nodes, n.activeAttempts < 2 ^ 32 := by
    intro n hn
    have := hnarrow n hn
    omega
  rcases tryAssignBatch_capacity hdb env nodeId drained input hwidth n' hn' with
    hold | hle | ⟨old, hold, hid', heq⟩
  · rw [row_unique (node_keys hdb) hold hn hid] at hlt
    exact absurd hlt (lt_irrefl _)
  · exact hle
  · rw [heq, row_unique (node_keys hdb) hold hn (hid'.symm.trans hid)] at hlt
    exact absurd hlt (lt_irrefl _)

theorem active_attempts_exact_assigned :
    (firstAssignment.foldl step {}).nodes.map Node.activeAttempts = [1] ∧
      reconcileActiveAttempts (firstAssignment.foldl step {}) =
        (firstAssignment.foldl step {}, 0) :=
  ⟨by decide, (active_attempts_exact ⟨rfl, rfl, rfl⟩
    (Runs.foldl step {} firstAssignment)).2.1⟩

end Slots

section Cancel

def Database.attemptsOf (db : Database) (taskId : String) : List String :=
  (db.attempts.filter fun a => a.taskId == taskId).map Attempt.id

theorem attemptsOf_leasesOf (taskId : String) :
    db.attemptsOf taskId = db.ledger.leasesOf taskId := by
  rw [Database.attemptsOf, leasesOf, Database.ledger, List.filter_map, List.map_map]
  rfl

/-- A cancel that returns true withdraws the task. -/
theorem cancelTask_withdrawn (hdb : db.Sound) {taskId now : String} {db' : Database}
    (h : cancelTask db taskId now = (db', true)) :
    db'.ledger.Withdrawn discipline taskId := by
  unfold cancelTask at h
  cases hrow : db.task taskId with
  | none => simp [hrow] at h
  | some t =>
      obtain ⟨ht, rfl⟩ := lookup_mem hrow
      rw [hrow] at h
      dsimp only at h
      split at h
      · rename_i hqueued
        obtain ⟨rfl, _⟩ : _ = db' ∧ True := by simpa using h
        have hledger : (db.updateTasks (fun r => r.id == t.id) fun r =>
            { r with status := .cancelled, finishedAt := some now,
                     assignedAttemptId := none }).ledger =
            db.ledger.apply discipline (.settle t.id .cancelled) :=
          ledger_settle db t.id .cancelled fun _ => rfl
        rw [hledger]
        refine ⟨?_, ?_, ?_⟩
        · have hmem : t.id ∈ (db.ledger.setHolder t.id none TaskStatus.cancelled).map
              Holder.id := by
            rw [setHolder_ids, List.mem_map]
            exact ⟨t.holder, List.mem_map_of_mem ht, rfl⟩
          exact List.mem_map.mp hmem
        · intro h hh hid
          rcases mem_setHolder.mp hh with ⟨_, hne⟩ | ⟨_, _, _, rfl⟩
          · exact absurd hid hne
          · rfl
        · intro l hl hholder hlive
          obtain ⟨a, ha, rfl⟩ := List.mem_map.mp hl
          have hshown := (owner_shows hdb ha hlive ht hholder.symm).2
          rw [hqueued] at hshown
          have hbusy := a.status.inFlight_taskStatus hlive
          rw [← hshown] at hbusy
          cases hbusy
      · split at h
        · rename_i hqueued hlive
          obtain ⟨rfl, _⟩ : _ = db' ∧ True := by simpa using h
          refine ⟨⟨t.holder, List.mem_map_of_mem ht, rfl⟩, ?_, ?_⟩
          · intro h hh hid
            obtain ⟨t', ht', rfl⟩ := List.mem_map.mp hh
            rw [row_unique (task_keys hdb) ht' ht hid]
            simpa [discipline, Task.holder] using hqueued
          · intro l hl hholder hmarkedLive
            obtain ⟨a, ha, rfl⟩ := List.mem_map.mp hl
            obtain ⟨old, hold, rfl⟩ := mem_updateWhere.mp ha
            by_cases hhit : (old.taskId == t.id && old.status.inFlight) = true
            · simp [hhit, discipline, Attempt.lease]
            · rw [if_neg hhit] at hholder hmarkedLive
              exact absurd (by simpa [Bool.and_eq_true] using ⟨hholder, hmarkedLive⟩) hhit
        · simp at h

/-- In every run in which no step requeues a cancelled attempt of the task,
once `cancel_task` has returned true and until `retry_task` is called the task
gets no further attempt. -/
theorem cancel_kept {db₀ db₁ db₂ db₃ : Database} {ops ops' : List Op}
    {taskId now : String} (hfresh : db₀.Fresh) (hbefore : Runs Step db₀ ops db₁)
    (hcancel : cancelTask db₁ taskId now = (db₂, true))
    (hafter : Runs (During Step fun db op =>
      op.retries taskId = false ∧ op.KeepsCancel db taskId) db₂ ops' db₃) :
    db₃.attemptsOf taskId = db₂.attemptsOf taskId := by
  have hsound₁ := sound_run hbefore (sound_of_fresh hfresh)
  have hsound₂ : db₂.Sound := by
    have hstep := step_stepped hsound₁ (.cancelTask taskId now)
    rw [step, hcancel] at hstep
    exact hstep.sound hsound₁
  have hwithdrawn := cancelTask_withdrawn hsound₁ hcancel
  refine (Runs.invariant (fun db => db.Sound ∧
    db.ledger.Withdrawn discipline taskId ∧
      db.attemptsOf taskId = db₂.attemptsOf taskId) ?_ hafter
    ⟨hsound₂, hwithdrawn, rfl⟩).2.2
  rintro s op _ ⟨hs, hw, hsame⟩ ⟨rfl, hquiet⟩
  obtain ⟨ms, hms, hhonors⟩ := step_stepped hs op
  obtain ⟨hw', hleases⟩ := hms.withdrawn (hhonors taskId hquiet) hs hw
  refine ⟨hms.sound hs, hw', ?_⟩
  rw [attemptsOf_leasesOf, hleases, ← attemptsOf_leasesOf, hsame]

def completeCancelled : List Op :=
  [.ackAttempt "a1" morning, .revertExpiredLeases "2026-01-01T08:01:00Z" id,
   .completeAttempt "a1" { exitCode := 1 } "p1" morning morning, assignOne "a2"]

/-- The cancel of a running attempt, kept through a sweep and the completion. -/
theorem cancel_kept_completed :
    (completeCancelled.foldl step
      (cancelTask (firstAssignment.foldl step {}) "t1" morning).1).attemptsOf "t1" =
        ["a1"] := by
  have hafter : Runs (During Step fun db op =>
      op.retries "t1" = false ∧ op.KeepsCancel db "t1")
      (cancelTask (firstAssignment.foldl step {}) "t1" morning).1 completeCancelled
      (completeCancelled.foldl step
        (cancelTask (firstAssignment.foldl step {}) "t1" morning).1) := by
    refine .next ⟨rfl, rfl, trivial⟩ (.next ⟨rfl, rfl, ?_⟩
      (.next ⟨rfl, rfl, trivial⟩ (.next ⟨rfl, rfl, trivial⟩ (.refl _))))
    unfold Op.KeepsCancel
    decide
  have hcancel : cancelTask (firstAssignment.foldl step {}) "t1" morning =
      ((cancelTask (firstAssignment.foldl step {}) "t1" morning).1, true) := rfl
  have hkept := cancel_kept ⟨rfl, rfl, rfl⟩ (Runs.foldl step {} firstAssignment)
    hcancel hafter
  exact hkept.trans (by decide)

/-- A cancelled assignment whose acknowledgement is overdue is requeued by the
lease sweep and assigned again. -/
theorem cancel_lost : ¬ ∀ (db₀ db₁ db₂ db₃ : Database) (ops ops' : List Op)
    (taskId now : String), db₀.Fresh → Runs Step db₀ ops db₁ →
    cancelTask db₁ taskId now = (db₂, true) → Runs Step db₂ ops' db₃ →
    (∀ op ∈ ops', op.retries taskId = false) →
    db₃.attemptsOf taskId = db₂.attemptsOf taskId := by
  intro h
  have hkept := h {} _ _ _ firstAssignment
    [.revertExpiredLeases "2026-01-01T08:01:00Z" id, assignOne "a2"] "t1" morning
    ⟨rfl, rfl, rfl⟩ (Runs.foldl step {} _) rfl (Runs.foldl step _ _) (by decide)
  revert hkept
  decide

end Cancel

section Finished

def Database.Finished (db : Database) (taskId : String) : Prop :=
  ∃ t ∈ db.tasks, t.id = taskId ∧ t.status.isTerminal = true

theorem finished_iff_retired (taskId : String) :
    db.Finished taskId ↔ db.ledger.Retired discipline taskId := by
  have hstatus : ∀ status : TaskStatus, status.isTerminal = true ↔
      discipline.ready status = false ∧ discipline.busy status = false := by
    intro status
    cases status <;> decide
  constructor
  · rintro ⟨t, ht, hid, hdone⟩
    exact ⟨t.holder, List.mem_map_of_mem ht, hid, (hstatus _).mp hdone⟩
  · rintro ⟨_, hh, hid, hdone⟩
    obtain ⟨t, ht, rfl⟩ := List.mem_map.mp hh
    exact ⟨t, ht, hid, (hstatus _).mpr hdone⟩

theorem Database.Finished.not_inFlight {taskId : String} (h : db.Finished taskId)
    (hdb : db.Sound) {a : Attempt} (ha : a ∈ db.attempts) (htask : a.taskId = taskId) :
    a.status.inFlight ≠ true := by
  intro hlive
  obtain ⟨t, ht, hid, hdone⟩ := h
  rw [(owner_shows hdb ha hlive ht (hid.trans htask.symm)).2] at hdone
  cases hstatus : a.status <;> simp_all [AttemptStatus.taskStatus, TaskStatus.isTerminal,
    AttemptStatus.inFlight]

theorem Database.Finished.keepsCancel {taskId : String} (h : db.Finished taskId)
    (hdb : db.Sound) (op : Op) : op.KeepsCancel db taskId := by
  have hloss : ∀ nodeId, db.LossKeepsCancel nodeId taskId :=
    fun _ a ha _ htask hlive => absurd hlive (h.not_inFlight hdb ha htask)
  have hassigned : ∀ a ∈ db.attempts, a.taskId = taskId → a.status ≠ .assigned := by
    intro a ha htask hstatus
    exact h.not_inFlight hdb ha htask (by rw [hstatus]; rfl)
  cases op with
  | revertExpiredLeases now fence =>
      intro a ha hexpired htask
      rw [Attempt.expired, Bool.and_eq_true, beq_iff_eq] at hexpired
      exact absurd hexpired.1 (hassigned a ha htask)
  | rejectAssignment attemptId reason now =>
      exact fun a ha _ htask hstatus => absurd hstatus (hassigned a ha htask)
  | loseNodeAttempts nodeId now => exact hloss nodeId
  | loseNodeAttemptsIfOffline nodeId now => exact fun _ => hloss nodeId
  | markNodeOffline nodeId now => exact fun _ => hloss nodeId
  | markOfflineNodes cutoff now => exact fun n _ _ _ => hloss n.id
  | _ => exact trivial

/-- A task that has ended stays so until an operator retries it. -/
theorem Database.Finished.step {taskId : String} (h : db.Finished taskId) (hdb : db.Sound)
    (op : Op) (hop : op.retries taskId = false) : (step db op).Finished taskId := by
  obtain ⟨ms, hms, hhonors⟩ := step_stepped hdb op
  rw [finished_iff_retired] at h ⊢
  exact hms.retired
    (hhonors taskId ⟨hop, ((finished_iff_retired taskId).mpr h).keepsCancel hdb op⟩) hdb h

end Finished

end AgentGrid.Store
