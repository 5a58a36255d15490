import AgentGrid.Store.LedgerView

/-!
# The attempt lifecycle as ledger moves

One `Traced` lemma for each operation on a single task or attempt.  The guards
of the writes are simplified once the ledger is sound: a status guard on the
row that has the status selects that row, and a guard on the pointer of a task
selects the owner of the attempt.
-/

namespace AgentGrid.Store

open AgentGrid.Foundation AgentGrid.Foundation.Ledger

variable {db : Database} {quiet : String → Prop}

section Guards

variable {a : Attempt}

/-- The status guard of a compare and set, where the row has that status. -/
theorem held_iff (hdb : db.Sound) (ha : a ∈ db.attempts) {s : AttemptStatus}
    (hs : a.status = s) :
    ∀ r ∈ db.attempts, (r.id == a.id && r.status == s) = (r.id == a.id) := by
  intro r hr
  by_cases hid : r.id = a.id
  · rw [attempt_eq hdb ha hr hid]
    simp [hs]
  · simp [hid]

theorem held_count (hdb : db.Sound) (ha : a ∈ db.attempts) {s : AttemptStatus}
    (hs : a.status = s) :
    db.attempts.countP (fun r => r.id == a.id && r.status == s) = 1 :=
  countP_key (attempt_keys hdb) ha (held_iff hdb ha hs)

/-- A guard on the task through its pointer, where the attempt is in flight. -/
theorem pointed_iff (hdb : db.Sound) (ha : a ∈ db.attempts)
    (hlive : a.status.inFlight = true) (p : TaskStatus → Bool)
    (hp : p a.status.taskStatus = true) :
    ∀ t ∈ db.tasks,
      (t.assignedAttemptId == some a.id && p t.status) = (t.id == a.taskId) := by
  intro t ht
  by_cases hid : t.id = a.taskId
  · obtain ⟨hptr, hstatus⟩ := owner_shows hdb ha hlive ht hid
    simp [hid, hptr, hstatus, hp]
  · have hptr : t.assignedAttemptId ≠ some a.id :=
      fun h => hid (owner_of_pointer hdb ha ht h)
    rw [beq_false_of_ne hid, beq_false_of_ne hptr]
    rfl

/-- A guard on the task's status through its key. -/
theorem owned_iff (hdb : db.Sound) (ha : a ∈ db.attempts)
    (hlive : a.status.inFlight = true) (p : TaskStatus → Bool)
    (hp : p a.status.taskStatus = true) :
    ∀ t ∈ db.tasks, (t.id == a.taskId && p t.status) = (t.id == a.taskId) := by
  intro t ht
  by_cases hid : t.id = a.taskId
  · rw [(owner_shows hdb ha hlive ht hid).2]
    simp [hp]
  · simp [hid]

theorem taskStatus_open {s : AttemptStatus} (h : s.inFlight = true) :
    s.taskStatus.isTerminal = false := by
  cases s <;> simp_all [AttemptStatus.inFlight, AttemptStatus.taskStatus,
    TaskStatus.isTerminal]

end Guards

theorem createTask_traced (req : CreateTaskRequest) (id now : String) :
    Traced db (createTask db req id now).1 quiet := by
  unfold createTask
  cases hrow : db.task id with
  | some _ => exact .of_ledger_eq rfl
  | none =>
      have hfresh : ∀ h ∈ db.ledger.holders, h.id ≠ id := by
        intro h hh
        obtain ⟨t, ht, rfl⟩ := List.mem_map.mp hh
        exact lookup_none hrow t ht
      refine .one (.enter id .queued) rfl ⟨rfl, hfresh⟩ ?_ (fun _ _ => trivial)
      simp [Database.ledger, Ledger.apply, Task.holder, CreateTaskRequest.task]

theorem ackAttempt_traced (hdb : db.Sound) (attemptId now : String) :
    Traced db (ackAttempt db attemptId now).1 quiet := by
  unfold ackAttempt
  cases hrow : db.attempt attemptId with
  | none => exact .of_ledger_eq rfl
  | some a =>
      obtain ⟨ha, rfl⟩ := lookup_mem hrow
      by_cases hstatus : a.status = .assigned
      · have hlive : a.status.inFlight = true := by rw [hstatus]; rfl
        have hcount := held_count hdb ha hstatus
        simp only [hstatus, ne_eq, not_true_eq_false, if_false, hcount]
        refine .one (.advance a.lease (.running, a.cancelRequested)) rfl
          ⟨lease_mem ha, hlive, rfl⟩ ?_ (fun _ _ _ h => h)
        refine ledger_advance hdb ha _ (held_iff hdb ha hstatus) rfl
          (pointed_iff hdb ha hlive (fun s => s == .assigned || s == .queued)
            (by simp [hstatus, AttemptStatus.taskStatus])) ?_
        intro t ht hid
        rw [Task.holder, (owner_shows hdb ha hlive ht hid).1]
        rfl
      · simp only [hstatus, ne_eq, not_false_eq_true, if_true]
        exact .of_ledger_eq rfl

theorem ingestEvents_traced (hdb : db.Sound) (attemptId : String)
    (events : List IncomingEvent) (now : String) :
    Traced db (ingestEvents db attemptId events now).1 quiet := by
  unfold ingestEvents
  cases hrow : db.attempt attemptId with
  | none => exact .of_ledger_eq rfl
  | some a =>
      obtain ⟨ha, rfl⟩ := lookup_mem hrow
      cases hlive : a.status.inFlight with
      | false =>
          simp only [hlive, if_true]
          exact .of_ledger_eq rfl
      | true =>
          by_cases hstatus : a.status = .assigned
          · simp only [hstatus, if_true]
            refine .one (.advance a.lease (.running, a.cancelRequested)) rfl
              ⟨lease_mem ha, hlive, rfl⟩ ?_ (fun _ _ _ h => h)
            show ((db.updateAttempts (fun r => r.id == a.id) _).updateTasks
              (fun t => t.id == a.taskId) _).ledger = _
            refine ledger_advance hdb ha _ (fun _ _ => rfl) rfl
              (fun _ _ => rfl) ?_
            intro t ht hid
            rw [Task.holder, (owner_shows hdb ha hlive ht hid).1]
            rfl
          · simp only [hlive, hstatus, Bool.true_eq_false, if_false]
            exact .of_ledger_eq rfl

theorem beginValidate_traced (hdb : db.Sound) (attemptId now : String) :
    Traced db (beginValidate db attemptId now).1 quiet := by
  unfold beginValidate
  by_cases hcount : db.attempts.countP
      (fun r => r.id == attemptId && r.status == .running) = 1
  · have hpos : 0 < db.attempts.countP
        (fun r => r.id == attemptId && r.status == .running) := by omega
    obtain ⟨a, ha, hhit⟩ := List.countP_pos_iff.mp hpos
    obtain ⟨hid, hstatus⟩ : a.id = attemptId ∧ a.status = .running := by
      simpa using hhit
    subst hid
    have hlive : a.status.inFlight = true := by rw [hstatus]; rfl
    simp only [hcount, ne_eq, not_true_eq_false, if_false]
    refine .one (.advance a.lease (.validating, a.cancelRequested)) rfl
      ⟨lease_mem ha, hlive, rfl⟩ ?_ (fun _ _ _ h => h)
    refine ledger_advance hdb ha _ (held_iff hdb ha hstatus) rfl
      (pointed_iff hdb ha hlive (fun s => s == .running)
        (by simp [hstatus, AttemptStatus.taskStatus])) ?_
    intro t ht hid
    rw [Task.holder, (owner_shows hdb ha hlive ht hid).1]
    rfl
  · simp only [hcount, ne_eq, not_false_eq_true, if_true]
    exact .of_ledger_eq rfl

theorem retryTask_traced (hdb : db.Sound) (taskId now : String) :
    Traced db (retryTask db taskId now).1 (fun k => k ≠ taskId) := by
  unfold retryTask
  cases hrow : db.task taskId with
  | none => exact .of_ledger_eq rfl
  | some t =>
      obtain ⟨ht, rfl⟩ := lookup_mem hrow
      by_cases hstatus : t.status = .failed ∨ t.status = .cancelled
      · simp only [hstatus, if_true]
        refine .one (.settle t.id .queued) rfl ⟨rfl, ?_⟩
          (ledger_settle db _ .queued fun _ => rfl) (fun k hk h => absurd h.symm hk)
        intro h hh hid
        obtain ⟨t', ht', rfl⟩ := List.mem_map.mp hh
        rw [row_unique (task_keys hdb) ht' ht hid]
        change t.status.inFlight = false
        rcases hstatus with hs | hs <;> rw [hs] <;> rfl
      · simp only [hstatus, if_false]
        exact .of_ledger_eq rfl

/-- Raising `cancel_requested` on whatever a task has in flight. -/
theorem flagCancel_traced (hdb : db.Sound) (taskId : String) :
    Traced db (db.updateAttempts (fun a => a.taskId == taskId && a.status.inFlight)
      fun a => { a with cancelRequested := true }) quiet := by
  by_cases hsome : ∃ a ∈ db.attempts, a.taskId = taskId ∧ a.status.inFlight = true
  · obtain ⟨a, ha, rfl, hlive⟩ := hsome
    have hone : ∀ r ∈ db.attempts,
        (r.taskId == a.taskId && r.status.inFlight) = (r.id == a.id) := by
      intro r hr
      by_cases hid : r.id = a.id
      · rw [attempt_eq hdb ha hr hid]
        simp [hlive]
      · rw [beq_false_of_ne hid, Bool.and_eq_false_iff]
        by_contra hboth
        simp only [not_or, Bool.not_eq_false, beq_iff_eq] at hboth
        have hsame := hdb.live_unique (lease_mem hr) hboth.2 (lease_mem ha) hlive hboth.1
        exact hid (congrArg Lease.id hsame)
    have hkeep : (updateWhere (fun t : Task => t.id == a.taskId) id db.tasks) =
        db.tasks := by
      simp [updateWhere]
    have hledger : ((db.updateAttempts (fun r => r.taskId == a.taskId && r.status.inFlight)
        fun r => { r with cancelRequested := true }).updateTasks
          (fun t => t.id == a.taskId) id).ledger =
        db.ledger.apply discipline (.advance a.lease (a.status, true)) := by
      refine ledger_advance hdb ha (a.status, true) hone rfl (fun _ _ => rfl) ?_
      intro t ht hid
      obtain ⟨hptr, hstatus⟩ := owner_shows hdb ha hlive ht hid
      simp [Task.holder, hptr, hstatus]
    refine .one (.advance a.lease (a.status, true)) rfl
      ⟨lease_mem ha, hlive, hlive⟩ ?_ (fun _ _ _ _ => rfl)
    rw [← hledger]
    simp [Database.updateTasks, hkeep, Database.updateAttempts]
  · refine .of_ledger_eq ?_
    have hnone : ∀ r ∈ db.attempts, (r.taskId == taskId && r.status.inFlight) = false := by
      intro r hr
      by_contra hboth
      exact hsome ⟨r, hr, by simpa using hboth⟩
    rw [Database.updateAttempts, updateWhere_of_forall_not hnone]

theorem cancelTask_traced (hdb : db.Sound) (taskId now : String) :
    Traced db (cancelTask db taskId now).1 quiet := by
  unfold cancelTask
  cases hrow : db.task taskId with
  | none => exact .of_ledger_eq rfl
  | some t =>
      obtain ⟨ht, rfl⟩ := lookup_mem hrow
      by_cases hqueued : t.status = .queued
      · simp only [hqueued, if_true]
        refine .one (.settle t.id .cancelled) rfl ⟨rfl, ?_⟩
          (ledger_settle db _ .cancelled fun _ => rfl) (fun _ _ _ => rfl)
        intro h hh hid
        obtain ⟨t', ht', rfl⟩ := List.mem_map.mp hh
        rw [row_unique (task_keys hdb) ht' ht hid]
        change t.status.inFlight = false
        rw [hqueued]
        rfl
      · simp only [hqueued, if_false]
        cases hlive : t.status.inFlight with
        | true => exact flagCancel_traced hdb t.id
        | false => exact .of_ledger_eq rfl

theorem cancelStepTask_traced (hdb : db.Sound) (taskId : String) :
    Traced db (cancelStepTask db taskId) quiet := by
  have hfirst : Traced db (db.updateTasks
      (fun t => t.id == taskId && t.status == .queued)
      fun t => { t with status := .cancelled, assignedAttemptId := none }) quiet := by
    by_cases hsome : ∃ t ∈ db.tasks, t.id = taskId ∧ t.status = .queued
    · obtain ⟨t, ht, rfl, hqueued⟩ := hsome
      have hsame : ∀ r ∈ db.tasks, (r.id == t.id && r.status == .queued) =
          (r.id == t.id) := by
        intro r hr
        by_cases hid : r.id = t.id
        · rw [row_unique (task_keys hdb) hr ht hid]
          simp [hqueued]
        · simp [hid]
      refine .one (.settle t.id .cancelled) rfl ⟨rfl, ?_⟩ ?_ (fun _ _ _ => rfl)
      · intro h hh hid
        obtain ⟨t', ht', rfl⟩ := List.mem_map.mp hh
        rw [row_unique (task_keys hdb) ht' ht hid]
        change t.status.inFlight = false
        rw [hqueued]
        rfl
      · rw [Database.updateTasks, updateWhere_congr hsame]
        exact ledger_settle db _ .cancelled fun _ => rfl
    · refine .of_ledger_eq ?_
      have hnone : ∀ t ∈ db.tasks, (t.id == taskId && t.status == .queued) = false := by
        intro t ht
        by_contra hboth
        exact hsome ⟨t, ht, by simpa using hboth⟩
      rw [Database.updateTasks, updateWhere_of_forall_not hnone]
  exact hfirst.trans (flagCancel_traced (hfirst.sound hdb) taskId)

private theorem bind_ok {ε α β : Type} {x : Except ε α} {f : α → Except ε β} {r : β}
    (h : (x >>= f) = .ok r) : ∃ a, x = .ok a ∧ f a = .ok r := by
  cases x with
  | error cause => cases h
  | ok a => exact ⟨a, rfl, h⟩

private theorem mapError_ok {ε ε' α : Type} {x : Except ε α} {f : ε → ε'} {r : α}
    (h : x.mapError f = .ok r) : x = .ok r := by
  cases x with
  | error cause => cases h
  | ok a => exact congrArg Except.ok (Except.ok.inj h)

theorem completionTargets_spec {a : Attempt} {req : CompleteAttemptRequest}
    {task : Task} {attemptTarget : AttemptStatus} {taskTarget : TaskStatus}
    (h : completionTargets db a req = .ok (task, attemptTarget, taskTarget)) :
    db.task a.taskId = some task ∧ attemptTarget.inFlight = false ∧
      taskTarget.isTerminal = true ∧
      (a.cancelRequested = true → taskTarget = .cancelled) := by
  obtain ⟨first, hfirst, h⟩ := bind_ok h
  have hfirst := mapError_ok hfirst
  cases hrow : db.task a.taskId with
  | none =>
      rw [hrow] at h
      cases h
  | some row =>
      rw [hrow] at h
      obtain ⟨second, hsecond, h⟩ := bind_ok h
      have hsecond := mapError_ok hsecond
      cases hcancel : a.cancelRequested with
      | false =>
          rw [hcancel] at h
          cases h
          refine ⟨rfl, (nextAttemptStatus_ends ?_ hfirst).2,
            nextTaskStatus_ends ?_ hsecond, by simp⟩ <;>
            cases req.success <;> simp
      | true =>
          rw [hcancel] at h
          obtain ⟨third, hthird, h⟩ := bind_ok h
          obtain ⟨fourth, hfourth, h⟩ := bind_ok h
          have hfourth := mapError_ok hfourth
          cases h
          refine ⟨rfl, (nextAttemptStatus_ends (by simp) (mapError_ok hthird)).2,
            nextTaskStatus_ends (by simp) hfourth, fun _ => ?_⟩
          cases hstatus : task.status <;> rw [hstatus] at hfourth <;> cases hfourth <;> rfl

theorem finishAttempt_ledger (db : Database) (a : Attempt) (task : Task) (req : CompleteAttemptRequest)
    (attemptTarget : AttemptStatus) (taskTarget : TaskStatus)
    (approvalId now expires : String) :
    ∃ requeue : Bool, (requeue = true → taskTarget = .failed) ∧
      (finishAttempt db a task req attemptTarget taskTarget approvalId now expires).ledger =
        (((db.updateAttempts (fun r => r.id == a.id)
            (req.record attemptTarget now)).updateTasks (fun t => t.id == a.taskId)
            (settleTask req taskTarget requeue now)).freeSlots a.nodeId 1).ledger := by
  refine ⟨autoRetry (noteSilentSuccess ((finishAgentSession db a.id
    (if req.success then "done" else "failed") req.errorCode now).updateAttempts
      (fun r => r.id == a.id) (req.record attemptTarget now)) a.id req taskTarget now)
      task taskTarget, ?_, ?_⟩
  · simp [autoRetry]
    tauto
  · dsimp only [finishAttempt]
    split <;> simp [Database.ledger, Database.updateTasks, Database.updateAttempts,
      Database.freeSlots, Database.updateNodes, finishAgentSession]

theorem completeAttempt_traced (hdb : db.Sound) (attemptId : String)
    (req : CompleteAttemptRequest) (approvalId now expires : String) :
    Traced db (completeAttempt db attemptId req approvalId now expires).1 quiet := by
  unfold completeAttempt
  cases hrow : db.attempt attemptId with
  | none => exact .of_ledger_eq rfl
  | some a =>
      obtain ⟨ha, rfl⟩ := lookup_mem hrow
      cases hlive : a.status.inFlight with
      | false =>
          simp only [hlive, if_true]
          exact .of_ledger_eq rfl
      | true =>
          simp only [hlive, Bool.true_eq_false, if_false]
          cases htargets : completionTargets db a req with
          | error cause => exact .of_ledger_eq rfl
          | ok targets =>
              obtain ⟨task, attemptTarget, taskTarget⟩ := targets
              obtain ⟨_, hended, hterminal, hcancel⟩ := completionTargets_spec htargets
              dsimp only
              split
              · exact .of_ledger_eq rfl
              · obtain ⟨requeue, hrequeue, hledger⟩ := finishAttempt_ledger db a
                  task req attemptTarget taskTarget approvalId now expires
                obtain ⟨hidle, hne⟩ := TaskStatus.inFlight_of_isTerminal hterminal
                refine .one (.release a.lease (attemptTarget, a.cancelRequested)
                    (if requeue then .queued else taskTarget)) rfl
                  ⟨lease_mem ha, hlive, hended, ?_⟩ ?_ ?_
                · cases requeue
                  · exact hidle
                  · rfl
                · rw [hledger]
                  refine ledger_release hdb ha _ _ (fun _ _ => rfl) rfl
                    (fun _ _ => rfl) ?_
                  intro t _ _
                  cases requeue <;> rfl
                · intro k _ _ hmarked
                  have htarget := hcancel hmarked
                  cases requeue with
                  | false => simpa [discipline] using hne
                  | true => simp [htarget] at hrequeue

end AgentGrid.Store
