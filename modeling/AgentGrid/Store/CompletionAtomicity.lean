import AgentGrid.Store.CompletionTx
import AgentGrid.Store.Refinement.Attempts

/-!
# Completions are whole or nothing

Without a fault the statements of a completion leave what `completeAttempt` says.
With faults a completion leaves that or what it found, and on an attempt that has
ended it adds to the audit log at most.
-/

namespace AgentGrid.Store

open AgentGrid.Foundation

/-! ## The updates of one attempt -/

section Updates

variable {attemptId : String}

/-- The body writes `f` to the attempt's row, and nothing else. -/
def Rewrites (attemptId : String) (body : CompletionBody Unit) (f : Attempt → Attempt) : Prop :=
  (∀ a, (f a).id = a.id) ∧
    ∀ db, body.plain db = .ok ((), db.updateAttempts (fun r => r.id == attemptId) f)

theorem updateAttempts_id (db : Database) {p : Attempt → Bool} :
    (db.updateAttempts p fun a => a) = db := by
  simp [Database.updateAttempts, updateWhere]

theorem updateAttempts_twice (db : Database) {f g : Attempt → Attempt}
    (hf : ∀ a, (f a).id = a.id) :
    (db.updateAttempts (fun r => r.id == attemptId) f).updateAttempts
        (fun r => r.id == attemptId) g =
      db.updateAttempts (fun r => r.id == attemptId) fun a => g (f a) := by
  simp only [Database.updateAttempts, updateWhere, List.map_map]
  congr 1
  refine List.map_congr_left fun a _ => ?_
  by_cases ha : a.id = attemptId
  · simp [ha, hf]
  · simp [ha]

theorem Rewrites.then {first second : CompletionBody Unit} {f g : Attempt → Attempt}
    (hfirst : Rewrites attemptId first f) (hsecond : Rewrites attemptId second g) :
    Rewrites attemptId (first >>= fun _ => second) fun a => g (f a) := by
  refine ⟨fun a => (hsecond.1 (f a)).trans (hfirst.1 a), fun db => ?_⟩
  rw [Body.plain_bind, hfirst.2]
  exact (hsecond.2 _).trans (by rw [updateAttempts_twice db hfirst.1])

theorem rewrites_updateAttempt {f : Attempt → Attempt} (hid : ∀ a, (f a).id = a.id) :
    Rewrites attemptId (updateAttempt attemptId f) f := ⟨hid, fun _ => rfl⟩

theorem rewrites_setIfSome {β : Type} {value : Option β} {set : β → Attempt → Attempt}
    {f : Attempt → Attempt} (hid : ∀ a, (f a).id = a.id)
    (hf : ∀ a, f a = value.elim a fun v => set v a) :
    Rewrites attemptId (setIfSome attemptId value set) f := by
  refine ⟨hid, fun db => ?_⟩
  rw [funext hf]
  cases value with
  | none => exact congrArg (fun d => Except.ok ((), d)) (updateAttempts_id db).symm
  | some v => rfl

theorem rewrites_setIf {cond : Bool} {set f : Attempt → Attempt} (hid : ∀ a, (f a).id = a.id)
    (hf : ∀ a, f a = if cond then set a else a) :
    Rewrites attemptId (setIf attemptId cond set) f := by
  refine ⟨hid, fun db => ?_⟩
  rw [funext hf]
  cases cond with
  | false => exact congrArg (fun d => Except.ok ((), d)) (updateAttempts_id db).symm
  | true => rfl

theorem elim_or {β : Type} (value old : Option β) (set : Option β → Attempt) :
    set (value.or old) = value.elim (set old) fun v => set (some v) := by
  cases value <;> rfl

/-- All but the outcome of what a completion records. -/
def details (req : CompleteAttemptRequest) (a : Attempt) : Attempt :=
  { a with
    commitSha := req.commitSha.or a.commitSha
    acpSessionId := req.acpSessionId.or a.acpSessionId
    resolvedBaseSha := req.resolvedBaseSha.or a.resolvedBaseSha
    remoteHeadAtStart := req.remoteHeadAtStart.or a.remoteHeadAtStart
    remoteHeadAtFinish := req.remoteHeadAtFinish.or a.remoteHeadAtFinish
    errorCode := req.errorCode.or a.errorCode
    validationRounds :=
      if req.validationRounds > 0 then req.validationRounds else a.validationRounds
    provenance := req.provenance
    plan := req.plan.or a.plan
    pendingArtifacts :=
      if req.pendingArtifacts.isEmpty then a.pendingArtifacts else req.pendingArtifacts }

theorem rewrites_detailsBody (req : CompleteAttemptRequest) :
    Rewrites attemptId (detailsBody attemptId req) (details req) := by
  have hrounds : Rewrites attemptId
      (setIf attemptId (decide (req.validationRounds > 0)) fun a =>
        { a with validationRounds := req.validationRounds })
      fun a => { a with validationRounds :=
        if req.validationRounds > 0 then req.validationRounds else a.validationRounds } := by
    refine rewrites_setIf (fun _ => rfl) fun a => ?_
    by_cases h : req.validationRounds > 0 <;> simp [h]
  have hpending : Rewrites attemptId
      (setIf attemptId (!req.pendingArtifacts.isEmpty) fun a =>
        { a with pendingArtifacts := req.pendingArtifacts })
      fun a => { a with pendingArtifacts :=
        if req.pendingArtifacts.isEmpty then a.pendingArtifacts else req.pendingArtifacts } := by
    refine rewrites_setIf (fun _ => rfl) fun a => ?_
    cases h : req.pendingArtifacts.isEmpty <;> simp
  have hcommit : Rewrites attemptId
      (setIfSome attemptId req.commitSha fun v a => { a with commitSha := some v })
      fun a => { a with commitSha := req.commitSha.or a.commitSha } :=
    rewrites_setIfSome (fun _ => rfl) fun a =>
      elim_or _ a.commitSha fun v => { a with commitSha := v }
  have hsession : Rewrites attemptId
      (setIfSome attemptId req.acpSessionId fun v a => { a with acpSessionId := some v })
      fun a => { a with acpSessionId := req.acpSessionId.or a.acpSessionId } :=
    rewrites_setIfSome (fun _ => rfl) fun a =>
      elim_or _ a.acpSessionId fun v => { a with acpSessionId := v }
  have hbase : Rewrites attemptId
      (setIfSome attemptId req.resolvedBaseSha fun v a => { a with resolvedBaseSha := some v })
      fun a => { a with resolvedBaseSha := req.resolvedBaseSha.or a.resolvedBaseSha } :=
    rewrites_setIfSome (fun _ => rfl) fun a =>
      elim_or _ a.resolvedBaseSha fun v => { a with resolvedBaseSha := v }
  have hstart : Rewrites attemptId
      (setIfSome attemptId req.remoteHeadAtStart fun v a => { a with remoteHeadAtStart := some v })
      fun a => { a with remoteHeadAtStart := req.remoteHeadAtStart.or a.remoteHeadAtStart } :=
    rewrites_setIfSome (fun _ => rfl) fun a =>
      elim_or _ a.remoteHeadAtStart fun v => { a with remoteHeadAtStart := v }
  have hfinish : Rewrites attemptId
      (setIfSome attemptId req.remoteHeadAtFinish fun v a => { a with remoteHeadAtFinish := some v })
      fun a => { a with remoteHeadAtFinish := req.remoteHeadAtFinish.or a.remoteHeadAtFinish } :=
    rewrites_setIfSome (fun _ => rfl) fun a =>
      elim_or _ a.remoteHeadAtFinish fun v => { a with remoteHeadAtFinish := v }
  have herror : Rewrites attemptId
      (setIfSome attemptId req.errorCode fun v a => { a with errorCode := some v })
      fun a => { a with errorCode := req.errorCode.or a.errorCode } :=
    rewrites_setIfSome (fun _ => rfl) fun a =>
      elim_or _ a.errorCode fun v => { a with errorCode := v }
  have hplan : Rewrites attemptId
      (setIfSome attemptId req.plan fun v a => { a with plan := some v })
      fun a => { a with plan := req.plan.or a.plan } :=
    rewrites_setIfSome (fun _ => rfl) fun a =>
      elim_or _ a.plan fun v => { a with plan := v }
  have hprovenance : Rewrites attemptId
      (updateAttempt attemptId fun a => { a with provenance := req.provenance })
      fun a => { a with provenance := req.provenance } := rewrites_updateAttempt fun _ => rfl
  have hall := hcommit.then <| hsession.then <| hbase.then <| hstart.then <| hfinish.then <|
    herror.then <| hrounds.then <| hprovenance.then <| hplan.then hpending
  exact hall

end Updates

/-! ## The parts of the transaction -/

section Parts

variable (db : Database) (req : CompleteAttemptRequest)

theorem plain_noteBody (attemptId : String) (target : TaskStatus) (now : String) :
    (noteBody attemptId req target now).plain db =
      .ok ((), noteSilentSuccess db attemptId req target now) := by
  have hcount : (db.taskEvents.countP fun e => e.attemptId == attemptId && e.type == .result) = 0 ↔
      (db.taskEvents.all fun e => !(e.attemptId == attemptId && e.type == .result)) = true := by
    rw [List.countP_eq_zero, List.all_eq_true]
    exact forall₂_congr fun e _ => by rw [Bool.not_eq_true, Bool.not_eq_true']
  unfold noteBody noteSilentSuccess
  by_cases hcommit : target = .succeeded ∧ req.commitSha.isSome = true
  · rw [if_pos hcommit, Body.plain_bind]
    simp only [Body.plain_query, Except.bind, hcommit, true_and, hcount]
    split <;> rfl
  · rw [if_neg hcommit, if_neg fun h => hcommit ⟨h.1, h.2.1⟩]
    rfl

theorem noteSilentSuccess_updateAttempts (attemptId : String) (target : TaskStatus) (now : String)
    (p : Attempt → Bool) (f : Attempt → Attempt) :
    noteSilentSuccess (db.updateAttempts p f) attemptId req target now =
      (noteSilentSuccess db attemptId req target now).updateAttempts p f := by
  have hevents : (db.updateAttempts p f).taskEvents = db.taskEvents := rfl
  rw [noteSilentSuccess, noteSilentSuccess, hevents]
  split <;> rfl

theorem noteSilentSuccess_approvals (attemptId : String) (target : TaskStatus) (now : String) :
    (noteSilentSuccess db attemptId req target now).approvals = db.approvals := by
  unfold noteSilentSuccess
  split <;> rfl

theorem plain_fetchTask {taskId : String} {task : Task} (h : db.task taskId = some task) :
    (fetchTask taskId).plain db = .ok (task, db) := by
  rw [fetchTask, Body.plain_bind]
  simp only [Body.plain_query, Except.bind, h]
  rfl

theorem plain_retryBody {taskId : String} {task : Task} (h : db.task taskId = some task)
    (target : TaskStatus) :
    (retryBody taskId target).plain db = .ok (autoRetry db task target, db) := by
  obtain rfl : task.id = taskId := (lookup_mem h).2
  unfold retryBody
  split
  · rename_i hfailed
    rw [Body.plain_bind, plain_fetchTask db h]
    simp only [Except.bind, Body.plain_bind, Body.plain_query, Body.plain_pure, autoRetry, hfailed,
      beq_self_eq_true, Bool.true_and]
  · rename_i hother
    have hne : (target == TaskStatus.failed) = false := beq_eq_false_iff_ne.mpr hother
    rw [Body.plain_pure, autoRetry, hne, Bool.false_and, Bool.false_and]

theorem plain_transition {β : Type} (next : Except InvalidTransition β) :
    (transition next).plain db =
      (next.mapError fun cause => CompletionError.store (.transition cause)).map fun v => (v, db) :=
  Body.plain_allow db _

theorem plain_targetsBody (a : Attempt) :
    (targetsBody a req).plain db =
      ((completionTargets db a req).mapError CompletionError.store).map fun t => (t.2, db) := by
  unfold targetsBody completionTargets
  rw [Body.plain_bind, plain_transition]
  cases nextAttemptStatus a.status (if req.success then .succeed else .fail) with
  | error cause => rfl
  | ok attemptTarget =>
      cases htask : db.task a.taskId with
      | none =>
          simp only [Except.mapError, Except.map, Except.bind, Body.plain_bind, fetchTask,
            Body.plain_query, htask]
          rfl
      | some task =>
          simp only [Except.mapError, Except.map, Except.bind, Body.plain_bind,
            plain_fetchTask db htask, plain_transition]
          cases nextTaskStatus task.status (if req.success then .succeed else .fail) with
          | error cause => rfl
          | ok taskTarget =>
              cases hcancel : a.cancelRequested with
              | false => rfl
              | true =>
                  simp only [if_true, Body.plain_bind, plain_transition]
                  cases nextAttemptStatus a.status .cancel with
                  | error cause => rfl
                  | ok attemptTarget =>
                      simp only [Except.mapError, Except.map, Except.bind]
                      cases nextTaskStatus task.status .cancel with
                      | error cause => rfl
                      | ok taskTarget => rfl

/-- The review that a completion leaves. -/
def reviewOf (a : Attempt) (env : CompletionEnv) : Approval where
  id := env.approvalId
  taskId := a.taskId
  attemptId := a.id
  permission := [("kind", "patch_review"), ("task_id", a.taskId), ("attempt_id", a.id)]
  status := "pending"
  createdAt := env.now
  expiresAt := env.expires
  scope := "task_patch_review"

variable {env : CompletionEnv}

theorem plain_reviewBody (a : Attempt) (target : TaskStatus) :
    (reviewBody a target env).plain db =
      if target = .succeeded then
        if db.approvals.any (·.id == env.approvalId) then .error (.store .constraint)
        else .ok (env.commandRead && hasCommand db a.taskId,
          { db with approvals := db.approvals ++ [reviewOf a env] })
      else .ok (false, db) := by
  unfold reviewBody
  split
  · rw [Body.plain_bind, Body.plain_peek]
    simp only [Except.bind, Body.plain_bind, insertApproval, Body.plain_stmt]
    by_cases htaken : (db.approvals.any (·.id == env.approvalId)) = true
    · simp only [htaken, if_true]
    · simp only [htaken]
      rfl
  · rfl

theorem plain_settleBody_error {a : Attempt} {cause : StoreError}
    (h : completionTargets db a req = .error cause) :
    (settleBody a req env).plain db = .error (.store cause) := by
  unfold settleBody
  have htargets := plain_targetsBody (finishAgentSession db a.id
    (if req.success then "done" else "failed") req.errorCode env.now) req a
  have hsame : completionTargets (finishAgentSession db a.id
      (if req.success then "done" else "failed") req.errorCode env.now) a req =
      completionTargets db a req := rfl
  rw [hsame, h] at htargets
  rw [Body.plain_bind, Body.plain_execute]
  simp only [Except.bind]
  rw [Body.plain_bind, htargets]
  rfl

/-- Without a fault the statements are those of `finishAttempt`. -/
theorem plain_settleBody {a : Attempt} {task : Task} {attemptTarget : AttemptStatus}
    {taskTarget : TaskStatus}
    (h : completionTargets db a req = .ok (task, attemptTarget, taskTarget)) :
    if taskTarget = .succeeded ∧ db.approvals.any (·.id == env.approvalId) = true then
      (settleBody a req env).plain db = .error (.store .constraint)
    else ∃ done, (settleBody a req env).plain db = .ok (done, finishAttempt db a task req
      attemptTarget taskTarget env.approvalId env.now env.expires) := by
  have htask := (completionTargets_spec h).1
  let closed := finishAgentSession db a.id (if req.success then "done" else "failed")
    req.errorCode env.now
  let outcome := fun r : Attempt =>
    { r with status := attemptTarget, exitCode := some req.exitCode, finishedAt := some env.now }
  let noted := noteSilentSuccess (closed.updateAttempts (fun r => r.id == a.id)
    (req.record attemptTarget env.now)) a.id req taskTarget env.now
  have htargets : (targetsBody a req).plain closed =
      .ok ((attemptTarget, taskTarget), closed) := by
    rw [plain_targetsBody]
    have hsame : completionTargets closed a req = completionTargets db a req := rfl
    rw [hsame, h]
    rfl
  have hid : ∀ r, (outcome r).id = r.id := fun _ => rfl
  have hnoted : (noteSilentSuccess (closed.updateAttempts (fun r => r.id == a.id) outcome) a.id req
      taskTarget env.now).updateAttempts (fun r => r.id == a.id) (details req) = noted := by
    rw [← noteSilentSuccess_updateAttempts, updateAttempts_twice closed hid]
    rfl
  have hretry : (retryBody a.taskId taskTarget).plain noted =
      .ok (autoRetry noted task taskTarget, noted) := by
    refine plain_retryBody noted ?_ taskTarget
    rw [Database.task, noteSilentSuccess_tasks]
    exact htask
  have happrovals : noted.approvals = db.approvals := noteSilentSuccess_approvals ..
  let settled := (noted.updateTasks (fun t => t.id == a.taskId) (settleTask req taskTarget
    (autoRetry noted task taskTarget) env.now)).freeSlots a.nodeId 1
  have hbody : (settleBody a req env).plain db =
      ((reviewBody a taskTarget env).plain settled).bind fun answer =>
        .ok (⟨a.taskId, answer.1, autoRetry noted task taskTarget⟩, answer.2) := by
    unfold settleBody
    rw [Body.plain_bind, Body.plain_execute]
    simp only [Except.bind]
    rw [Body.plain_bind, htargets]
    simp only [Except.bind]
    rw [Body.plain_bind, (rewrites_updateAttempt hid).2]
    simp only [Except.bind]
    rw [Body.plain_bind, plain_noteBody]
    simp only [Except.bind]
    rw [Body.plain_bind, (rewrites_detailsBody req).2]
    simp only [Except.bind]
    rw [hnoted, Body.plain_bind, hretry]
    simp only [Except.bind, Body.plain_bind, Body.plain_execute, Body.plain_pure]
    rfl
  have hopen : settled.approvals = db.approvals := happrovals
  have hfinish : finishAttempt db a task req attemptTarget taskTarget env.approvalId env.now
      env.expires = if taskTarget = .succeeded then
        { settled with approvals := settled.approvals ++ [reviewOf a env] } else settled := rfl
  rw [hbody, plain_reviewBody, hopen]
  by_cases hsucceeded : taskTarget = .succeeded
  · by_cases htaken : (db.approvals.any (·.id == env.approvalId)) = true
    · rw [if_pos ⟨hsucceeded, htaken⟩, if_pos hsucceeded, if_pos htaken]
      rfl
    · rw [if_neg fun h => htaken h.2, if_pos hsucceeded, if_neg htaken, hfinish,
        if_pos hsucceeded, hopen]
      exact ⟨_, rfl⟩
  · rw [if_neg fun h => hsucceeded h.1, if_neg hsucceeded, hfinish, if_neg hsucceeded]
    exact ⟨_, rfl⟩

end Parts

/-! ## The call -/

section Call

variable {db : Database} {attemptId : String} {req : CompleteAttemptRequest} {env : CompletionEnv}

theorem plain_unknown (h : db.attempt attemptId = none) :
    (completionBody attemptId req env).plain db = .ok (.rollback .unknown, db) := by
  unfold completionBody
  rw [Body.plain_bind, Body.plain_execute]
  simp only [Except.bind, Body.plain_bind, Body.plain_query, id, h]
  rfl

theorem plain_ended {a : Attempt} (h : db.attempt attemptId = some a)
    (hended : a.status.inFlight = false) :
    (completionBody attemptId req env).plain db =
      .ok (.rollback (.terminal a.status), db) := by
  unfold completionBody
  rw [Body.plain_bind, Body.plain_execute]
  simp only [Except.bind, Body.plain_bind, Body.plain_query, id, h, hended, if_true]
  rfl

theorem plain_open {a : Attempt} (h : db.attempt attemptId = some a)
    (hopen : a.status.inFlight = true) :
    (completionBody attemptId req env).plain db =
      ((settleBody a req env).plain db).map fun answer => (.commit answer.1, answer.2) := by
  unfold completionBody
  rw [Body.plain_bind, Body.plain_execute]
  simp only [Except.bind, Body.plain_bind, Body.plain_query, id, h, hopen, Bool.true_eq_false,
    if_false]
  cases (settleBody a req env).plain db <;> rfl

theorem finishAttempt_attempts (a : Attempt) (task : Task) (attemptTarget : AttemptStatus)
    (taskTarget : TaskStatus) (approvalId now expires : String) :
    (finishAttempt db a task req attemptTarget taskTarget approvalId now expires).attempts =
      updateWhere (fun r => r.id == a.id) (req.record attemptTarget now) db.attempts := by
  dsimp only [finishAttempt]
  rw [apply_ite Database.attempts, ite_self]
  exact noteSilentSuccess_attempts ..

/-- A body that commits has done what `completeAttempt` says and ended the attempt. -/
theorem plain_commit {done : Completed} {db' : Database}
    (h : (completionBody attemptId req env).plain db = .ok (.commit done, db')) :
    completeAttempt db attemptId req env.approvalId env.now env.expires = (db', .ok true) ∧
      ∃ a, db'.attempt attemptId = some a ∧ a.status.inFlight = false := by
  cases hattempt : db.attempt attemptId with
  | none => cases h.symm.trans (plain_unknown hattempt)
  | some a =>
      cases hopen : a.status.inFlight with
      | false => cases h.symm.trans (plain_ended hattempt hopen)
      | true =>
          rw [plain_open hattempt hopen] at h
          cases htargets : completionTargets db a req with
          | error cause =>
              rw [plain_settleBody_error db req htargets] at h
              cases h
          | ok targets =>
              obtain ⟨task, attemptTarget, taskTarget⟩ := targets
              have hsettle := @plain_settleBody db req env _ _ _ _ htargets
              split at hsettle
              · rw [hsettle] at h
                cases h
              · rename_i hfresh
                obtain ⟨done', hdone⟩ := hsettle
                rw [hdone] at h
                cases h
                refine ⟨?_, req.record attemptTarget env.now a, ?_,
                  (completionTargets_spec htargets).2.1⟩
                · simp only [completeAttempt, hattempt, hopen, Bool.true_eq_false, if_false, htargets,
                    if_neg hfresh]
                have hkey : ∀ r, (req.record attemptTarget env.now r).id = r.id := fun _ => rfl
                have hlookup : lookup Attempt.id attemptId db.attempts = some a := hattempt
                rw [Database.attempt, finishAttempt_attempts, lookup_updateWhere hkey, hlookup,
                  Option.map_some, if_pos (beq_self_eq_true a.id)]

/-- What a call can do. -/
inductive Completion (db : Database) (attemptId : String) (req : CompleteAttemptRequest)
    (env : CompletionEnv) : Database × Except CompletionError Bool → Prop
  | failed (error : CompletionError) : Completion db attemptId req env (db, .error error)
  | unknown (h : db.attempt attemptId = none) : Completion db attemptId req env (db, .ok false)
  | ended (a : Attempt) (h : db.attempt attemptId = some a) (ended : a.status.inFlight = false) :
      Completion db attemptId req env (rejectTerminal attemptId a.status env db, .ok true)
  | completed (done : Completed) (db' : Database)
      (h : (completionBody attemptId req env).plain db = .ok (.commit done, db')) :
      Completion db attemptId req env (afterCommit attemptId env done db', .ok true)
  | unacknowledged (done : Completed) (db' : Database)
      (h : (completionBody attemptId req env).plain db = .ok (.commit done, db')) :
      Completion db attemptId req env (db', .error .unacknowledged)

theorem plain_rollback {answer : Turned} {db' : Database}
    (h : (completionBody attemptId req env).plain db = .ok (.rollback answer, db')) :
    db.attempt attemptId = none ∧ answer = .unknown ∨
      ∃ a, db.attempt attemptId = some a ∧ a.status.inFlight = false ∧
        answer = .terminal a.status := by
  cases hattempt : db.attempt attemptId with
  | none =>
      cases h.symm.trans (plain_unknown hattempt)
      exact .inl ⟨rfl, rfl⟩
  | some a =>
      cases hopen : a.status.inFlight with
      | false =>
          cases h.symm.trans (plain_ended hattempt hopen)
          exact .inr ⟨a, rfl, hopen, rfl⟩
      | true =>
          rw [plain_open hattempt hopen] at h
          cases hsettle : (settleBody a req env).plain db with
          | error error =>
              rw [hsettle] at h
              cases h
          | ok answer =>
              rw [hsettle] at h
              cases h

theorem call_cases (db : Database) (attemptId : String) (req : CompleteAttemptRequest)
    (env : CompletionEnv) :
    Completion db attemptId req env (completeAttemptCall attemptId req env db) := by
  unfold completeAttemptCall
  rcases transact_cases (completionBody attemptId req env) env.statementFault env.commitError db with
    ⟨error, heq⟩ | ⟨answer, db', hplain, heq⟩ | ⟨done, db', hplain, heq | ⟨error, hfault, heq⟩⟩
  · rw [heq]
    exact .failed error
  · rw [heq]
    rcases plain_rollback hplain with ⟨hnone, rfl⟩ | ⟨a, hsome, hended, rfl⟩
    · exact .unknown hnone
    · exact .ended a hsome hended
  · rw [heq]
    exact .completed done db' hplain
  · rw [heq]
    obtain ⟨fault, -, hfault⟩ := Option.map_eq_some_iff.mp hfault
    cases fault with
    | refused _ => cases hfault
    | unacknowledged _ =>
        cases hfault
        exact .unacknowledged done db' hplain

theorem saveArtifact_attempts (db : Database) (attemptId name : String) :
    (saveArtifact db attemptId name).attempts = db.attempts := by
  unfold saveArtifact
  split <;> rfl

theorem bakeResumeDigest_attempts (db : Database) (taskId : String) (saved : Bool) :
    (bakeResumeDigest db taskId saved).attempts = db.attempts := by
  unfold bakeResumeDigest
  split
  · split
    · exact saveArtifact_attempts ..
    · rfl
  · rfl

theorem afterCommit_attempts (attemptId : String) (env : CompletionEnv) (done : Completed)
    (db : Database) : (afterCommit attemptId env done db).attempts = db.attempts := by
  have hstamp : (if (done.evalCase && env.evalCaseSaved) = true then
      saveArtifact db attemptId ("eval-case-" ++ attemptId ++ "-0.yaml") else db).attempts =
      db.attempts := by
    split
    · exact saveArtifact_attempts ..
    · rfl
  unfold afterCommit
  dsimp only
  split
  · split
    · exact (bakeResumeDigest_attempts ..).trans hstamp
    · exact (bakeResumeDigest_attempts ..).trans hstamp
  · exact hstamp

theorem statementFault_quiet (h : ∀ n, env.faults n = false) :
    env.statementFault = fun _ => none :=
  funext fun n => by simp only [CompletionEnv.statementFault, h n, Bool.false_eq_true, if_false]

/-- All tables but the audit log. -/
def Database.rows (db : Database) : Database := { db with auditEvents := [] }

theorem rejectTerminal_rows (status : AttemptStatus) :
    (rejectTerminal attemptId status env db).rows = db.rows := by
  unfold rejectTerminal
  split <;> rfl

theorem call_ended {a : Attempt} (h : db.attempt attemptId = some a)
    (hended : a.status.inFlight = false) :
    (completeAttemptCall attemptId req env db).1.rows = db.rows := by
  have hplain := @plain_ended db attemptId req env _ h hended
  have hcases := call_cases db attemptId req env
  generalize completeAttemptCall attemptId req env db = call at hcases ⊢
  cases hcases with
  | failed error => rfl
  | unknown hnone => cases hnone.symm.trans h
  | ended a' h' hended' => exact rejectTerminal_rows a'.status
  | completed done db' hcommit => cases hplain.symm.trans hcommit
  | unacknowledged done db' hcommit => cases hplain.symm.trans hcommit

theorem call_ended_ok {a : Attempt} (h : db.attempt attemptId = some a)
    (hended : a.status.inFlight = false) (hquiet : ∀ n, env.faults n = false) :
    (completeAttemptCall attemptId req env db).2 = .ok true := by
  unfold completeAttemptCall
  rw [statementFault_quiet hquiet, transact_rollback (plain_ended h hended)]

theorem call_failed (h : (completeAttemptCall attemptId req env db).2 ≠ .ok true)
    (hacked : (completeAttemptCall attemptId req env db).2 ≠ .error .unacknowledged) :
    (completeAttemptCall attemptId req env db).1 = db := by
  have hcases := call_cases db attemptId req env
  generalize completeAttemptCall attemptId req env db = call at hcases h hacked ⊢
  cases hcases with
  | failed error => rfl
  | unknown hnone => rfl
  | ended a hsome hended => exact absurd rfl h
  | completed done db' hplain => exact absurd rfl h
  | unacknowledged done db' hplain => exact absurd rfl hacked

theorem call_completes (h : (completeAttemptCall attemptId req env db).2 = .ok true) :
    ∃ a, (completeAttemptCall attemptId req env db).1.attempt attemptId = some a ∧
      a.status.inFlight = false := by
  have hcases := call_cases db attemptId req env
  generalize completeAttemptCall attemptId req env db = call at hcases h ⊢
  cases hcases with
  | failed error => cases h
  | unknown hnone => cases h
  | ended a hsome hended =>
      refine ⟨a, ?_, hended⟩
      have hattempts := congrArg Database.attempts
        (@rejectTerminal_rows db attemptId env a.status)
      exact (congrArg (lookup Attempt.id attemptId) hattempts).trans hsome
  | completed done db' hplain =>
      obtain ⟨-, a, hsome, hended⟩ := plain_commit hplain
      exact ⟨a, (congrArg (lookup Attempt.id attemptId) (afterCommit_attempts ..)).trans hsome,
        hended⟩
  | unacknowledged done db' hplain => cases h

/-- A transition that the machines refuse. -/
theorem call_invalid {a : Attempt} {cause : StoreError} (h : db.attempt attemptId = some a)
    (hopen : a.status.inFlight = true) (hinvalid : completionTargets db a req = .error cause)
    (hquiet : ∀ n, env.faults n = false) :
    (completeAttemptCall attemptId req env db).2 = .error (.store cause) := by
  have hplain : (completionBody attemptId req env).plain db = .error (.store cause) := by
    rw [plain_open h hopen, plain_settleBody_error db req hinvalid]
    rfl
  unfold completeAttemptCall
  rw [statementFault_quiet hquiet, transact_error hplain]

theorem call_unknown (h : db.attempt attemptId = none) (hquiet : ∀ n, env.faults n = false) :
    (completeAttemptCall attemptId req env db).2 = .ok false := by
  unfold completeAttemptCall
  rw [statementFault_quiet hquiet, transact_rollback (plain_unknown h)]

end Call

/-- Completing an ended attempt, and so completing one again, changes the audit
log only; a completion that fails changes nothing.  Left out is the failure of a
commit that is durable and was not acknowledged. -/
theorem completion_idempotent_atomic (db : Database) (attemptId : String)
    (req : CompleteAttemptRequest) (env : CompletionEnv) :
    (∀ a, db.attempt attemptId = some a → a.status.inFlight = false →
      (completeAttemptCall attemptId req env db).1.rows = db.rows ∧
        ((∀ n, env.faults n = false) → (completeAttemptCall attemptId req env db).2 = .ok true)) ∧
    ((completeAttemptCall attemptId req env db).2 = .ok true → ∀ req' env',
      (completeAttemptCall attemptId req' env' (completeAttemptCall attemptId req env db).1).1.rows =
          (completeAttemptCall attemptId req env db).1.rows ∧
        ((∀ n, env'.faults n = false) →
          (completeAttemptCall attemptId req' env'
            (completeAttemptCall attemptId req env db).1).2 = .ok true)) ∧
    ((completeAttemptCall attemptId req env db).2 ≠ .ok true →
      (completeAttemptCall attemptId req env db).2 ≠ .error .unacknowledged →
      (completeAttemptCall attemptId req env db).1 = db) ∧
    ((∀ n, env.faults n = false) →
      (db.attempt attemptId = none → (completeAttemptCall attemptId req env db).2 = .ok false) ∧
      ∀ a cause, db.attempt attemptId = some a → a.status.inFlight = true →
        completionTargets db a req = .error cause →
        (completeAttemptCall attemptId req env db).2 = .error (.store cause)) := by
  refine ⟨fun a h hended => ⟨call_ended h hended, call_ended_ok h hended⟩, fun hok req' env' => ?_,
    call_failed, fun hquiet => ⟨fun h => call_unknown h hquiet, fun a cause h hopen hinvalid =>
      call_invalid h hopen hinvalid hquiet⟩⟩
  obtain ⟨a, h, hended⟩ := call_completes hok
  exact ⟨call_ended h hended, call_ended_ok h hended⟩

/-- One attempt that runs on its node. -/
def working : Database where
  tasks := [{ id := "t1", repository := "app", prompt := "", adapter := "claude",
              status := .running, createdAt := "", assignedAttemptId := some "a1" }]
  attempts := [{ id := "a1", taskId := "t1", number := 1, nodeId := "n1", status := .running,
                 startedAt := "" }]
  nodes := [{ id := "n1", name := "n1", status := .online, activeAttempts := 1, createdAt := "" }]

def noFaults : CompletionEnv := { approvalId := "r1", now := "", expires := "" }

theorem completion_idempotent_atomic_working :
    (completeAttemptCall "a1" { exitCode := 1 } noFaults
        (completeAttemptCall "a1" { exitCode := 0 } noFaults working).1).1.rows =
      (completeAttemptCall "a1" { exitCode := 0 } noFaults working).1.rows :=
  ((completion_idempotent_atomic working "a1" { exitCode := 0 } noFaults).2.1 rfl
    { exitCode := 1 } noFaults).1

end AgentGrid.Store
