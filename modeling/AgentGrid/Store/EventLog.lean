import AgentGrid.Foundation.Stream
import AgentGrid.Store.RetryBudget

/-!
# The event log

Events are stored once for each attempt and sequence and numbered by a global
counter inside the write transaction.  `Writes` says what a transaction does
to the log; the transactions that write no event leave it alone.
-/

namespace AgentGrid.Store

open AgentGrid.Foundation

/-- The row is joined to its attempt, so an attempt that is not there fails
the insertion. -/
def appendAuditEvent (db : Database) (attemptId payload now : String) :
    Database × Except StoreError Unit :=
  match db.attempt attemptId with
  | none => (db, .error .constraint)
  | some _ => (insertAuditEvent db attemptId payload now, .ok ())

/-- An event as its writer sends it. -/
structure Offer where
  attemptId : String
  sequence : Int
  type : EventType
  payload : String
deriving DecidableEq

def Offer.key (o : Offer) : String × Int := (o.attemptId, o.sequence)

def IncomingEvent.offer (attemptId : String) (ev : IncomingEvent) : Offer :=
  ⟨attemptId, ev.sequence, ev.type, ev.payload⟩

def TaskEvent.offer (e : TaskEvent) : Offer := ⟨e.attemptId, e.sequence, e.type, e.payload⟩

/-- The transactions of the store, and what a reader does between them. -/
inductive FeedOp
  | store (op : Op)
  | appendAuditEvent (attemptId payload now : String)
  | read (limit : Option Nat)
  | reconnect

/-- A batch is offered when its attempt is in flight; the events the control
plane writes itself are those it appends. -/
def FeedOp.offers (db db' : Database) : FeedOp → List Offer
  | .store (.ingestEvents attemptId events _) =>
      match db.attempt attemptId with
      | some row => if row.status.inFlight then events.map (·.offer attemptId) else []
      | none => []
  | _ => (db'.taskEvents.drop db.taskEvents.length).map TaskEvent.offer

def FeedOp.write (db : Database) : FeedOp → Database
  | .store op => step db op
  | .appendAuditEvent attemptId payload now =>
      (Store.appendAuditEvent db attemptId payload now).1
  | .read _ => db
  | .reconnect => db

/-- The sequences of the batch count from one. -/
def FeedOp.numbered : FeedOp → Bool
  | .store (.ingestEvents _ events _) => events.all fun ev => 0 < ev.sequence
  | _ => true

/-- The events and the counter behind their numbers. -/
def Database.log (db : Database) : List TaskEvent × Int :=
  (db.taskEvents, db.eventIngestCounter)

section Log

variable {db : Database}

@[simp] theorem log_updateTasks (p : Task → Bool) (f : Task → Task) :
    (db.updateTasks p f).log = db.log := rfl

@[simp] theorem log_updateAttempts (p : Attempt → Bool) (f : Attempt → Attempt) :
    (db.updateAttempts p f).log = db.log := rfl

@[simp] theorem log_updateNodes (p : Node → Bool) (f : Node → Node) :
    (db.updateNodes p f).log = db.log := rfl

@[simp] theorem log_audit (event : AuditEvent) : (db.audit event).log = db.log := rfl

@[simp] theorem log_freeSlots (nodeId : String) (count : Nat) :
    (db.freeSlots nodeId count).log = db.log := rfl

@[simp] theorem log_takeSlots (nodeId : String) (count : Nat) :
    (db.takeSlots nodeId count).log = db.log := rfl

@[simp] theorem log_finishAgentSession (attemptId status : String)
    (errorCode : Option String) (now : String) :
    (finishAgentSession db attemptId status errorCode now).log = db.log := rfl

theorem log_ackAttempt (attemptId now : String) :
    (ackAttempt db attemptId now).1.log = db.log := by
  unfold ackAttempt
  split
  · rfl
  · split
    · rfl
    · dsimp only
      split <;> simp

theorem log_requeueLostAttempt (taskId attemptId nodeId now reason : String)
    (policy : LossRetryPolicy) :
    (requeueLostAttempt db taskId attemptId nodeId now reason policy).1.log = db.log := by
  unfold requeueLostAttempt
  split
  · rfl
  · split
    · rfl
    · dsimp only
      split <;> simp

theorem log_rejectAssignment (attemptId reason now : String) :
    (rejectAssignment db attemptId reason now).1.log = db.log := by
  unfold rejectAssignment
  split
  · rfl
  · split
    · rfl
    · dsimp only
      split
      · rfl
      · split <;> simp [log_requeueLostAttempt]

theorem log_revertLease (now : String) (fence : String → String) (row : Attempt) :
    (revertLease now fence db row).1.log = db.log := by
  unfold revertLease
  dsimp only
  split <;> simp

theorem log_revertLeases (now : String) (fence : String → String) (rows : List Attempt) :
    (revertLeases now fence db rows).1.log = db.log := by
  induction rows generalizing db with
  | nil => rfl
  | cons row rows ih => exact ih.trans (log_revertLease now fence row)

theorem log_loseAttempt (nodeId now : String) (row : Attempt × LossRetryPolicy) :
    (loseAttempt nodeId now db row).log = db.log := by
  unfold loseAttempt
  dsimp only
  split <;> simp [log_requeueLostAttempt]

theorem log_foldl_loseAttempt (nodeId now : String)
    (rows : List (Attempt × LossRetryPolicy)) :
    (rows.foldl (loseAttempt nodeId now) db).log = db.log := by
  induction rows generalizing db with
  | nil => rfl
  | cons row rows ih => exact ih.trans (log_loseAttempt nodeId now row)

theorem log_loseNodeAttempts (nodeId now : String) :
    (loseNodeAttempts db nodeId now).log = db.log := by
  unfold loseNodeAttempts
  dsimp only
  split
  · rfl
  · rw [log_freeSlots, log_foldl_loseAttempt]

theorem log_markOffline (now : String) (row : Node) :
    (markOffline now db row).log = db.log := by
  unfold markOffline
  dsimp only
  split
  · rfl
  · rw [log_loseNodeAttempts, log_updateNodes]

theorem log_foldl_markOffline (now : String) (rows : List Node) :
    (rows.foldl (markOffline now) db).log = db.log := by
  induction rows generalizing db with
  | nil => rfl
  | cons row rows ih => exact ih.trans (log_markOffline now row)

theorem log_assignTask {before db' : Database} {nodeId : String} {input : AssignInput}
    {index : Nat} {t : Task} {assignment : Option Assignment}
    (h : assignTask before nodeId input index db t = some (db', assignment)) :
    db'.log = db.log := by
  unfold assignTask at h
  dsimp only at h
  split at h
  · cases h
    rfl
  · split at h
    · cases h
    · cases h
      rfl

theorem log_assignTasks {before db' : Database} {nodeId : String} {input : AssignInput}
    {index : Nat} {tasks : List Task} {batch : List Assignment}
    (h : assignTasks before nodeId input index db tasks = some (db', batch)) :
    db'.log = db.log := by
  induction tasks generalizing db index batch with
  | nil =>
      cases h
      rfl
  | cons t tasks ih =>
      unfold assignTasks at h
      split at h
      · cases h
      · rename_i next assignment hfirst
        split at h
        · cases h
        · rename_i last rest hrest
          cases h
          exact (ih hrest).trans (log_assignTask hfirst)

theorem log_tryAssignBatch (env : SchedulerEnv) (nodeId : String) (drained : Bool)
    (input : AssignInput) : (tryAssignBatch env db nodeId drained input).1.log = db.log := by
  have hbatch : ∀ eligible, (assignBatch db nodeId input eligible).1.log = db.log := by
    intro eligible
    unfold assignBatch
    split
    · rfl
    · rename_i next batch hassigned
      split
      · rfl
      · rw [log_takeSlots, log_assignTasks hassigned]
  have hgate : ∀ {c : Prop} [Decidable c] {a b : Database × Except StoreError (List Assignment)},
      a.1.log = db.log → b.1.log = db.log → (if c then a else b).1.log = db.log := by
    intro c _ a b ha hb
    split
    · exact ha
    · exact hb
  unfold tryAssignBatch
  refine hgate rfl (hgate rfl (hgate rfl ?_))
  cases db.node nodeId with
  | none => rfl
  | some n => exact hgate rfl (hgate rfl (hgate rfl (hgate rfl (hgate rfl (hbatch _)))))

end Log

section Writes

variable {db : Database} {numbered : Prop}

/-- What one batch appends under the ids from `first` on. -/
theorem insertEvents_spec (attemptId now : String) (events : List IncomingEvent)
    (rows : List TaskEvent) (first : Int) :
    ∃ new, (insertEvents attemptId now rows first events).1 = rows ++ new ∧
      new.Pairwise (fun e e' => e.ingestId < e'.ingestId) ∧
      (∀ e ∈ new, e.attemptId = attemptId ∧ first ≤ e.ingestId ∧
        e.ingestId < first + events.length) ∧
      ∀ offered, Recorded Offer.key offered (rows.map TaskEvent.offer) →
        Recorded Offer.key (offered ++ events.map (·.offer attemptId))
          ((rows ++ new).map TaskEvent.offer) := by
  induction events generalizing rows first with
  | nil => exact ⟨[], by simp [insertEvents]⟩
  | cons ev events ih =>
      have hkeys : (rows.any fun r => r.attemptId == attemptId && r.sequence == ev.sequence) =
          true ↔ (ev.offer attemptId).key ∈ (rows.map TaskEvent.offer).map Offer.key := by
        simp [Offer.key, TaskEvent.offer, IncomingEvent.offer]
      cases hstored : rows.any fun r =>
          r.attemptId == attemptId && r.sequence == ev.sequence with
      | true =>
          obtain ⟨new, hrows, hsorted, hnew, hrecorded⟩ := ih rows (first + 1)
          refine ⟨new, by simp [insertEvents, hstored, hrows], hsorted, ?_, ?_⟩
          · intro e he
            obtain ⟨hattempt, hlow, hhigh⟩ := hnew e he
            rw [List.length_cons]
            exact ⟨hattempt, by omega, by omega⟩
          · intro offered h
            simpa using hrecorded _ (h.duplicate (hkeys.mp hstored))
      | false =>
          generalize hrow : (⟨attemptId, ev.sequence, ev.type, ev.payload, now, first⟩ :
            TaskEvent) = row
          obtain ⟨new, hrows, hsorted, hnew, hrecorded⟩ := ih (rows ++ [row]) (first + 1)
          refine ⟨row :: new, by simp [insertEvents, hstored, hrow, hrows], ?_, ?_, ?_⟩
          · rw [List.pairwise_cons]
            refine ⟨?_, hsorted⟩
            intro e he
            have hlow := (hnew e he).2.1
            rw [← hrow]
            dsimp only
            omega
          · intro e he
            rw [List.length_cons]
            rcases List.mem_cons.mp he with rfl | hlater
            · rw [← hrow]
              simp only [true_and]
              omega
            · obtain ⟨hattempt, hlow, hhigh⟩ := hnew e hlater
              exact ⟨hattempt, by omega, by omega⟩
          · intro offered h
            have hfresh : (ev.offer attemptId).key ∉
                (rows.map TaskEvent.offer).map Offer.key := by
              rw [← hkeys, hstored]
              simp
            have hrow' : row.offer = ev.offer attemptId := by
              rw [← hrow]
              rfl
            have hnext := hrecorded (offered ++ [ev.offer attemptId]) (by
              simpa [hrow'] using h.fresh hfresh)
            simpa using hnext

/-- A transaction appends events under new numbers, each of an attempt that is
there, and keeps the first offer of each slot.  When its batch is `numbered`
it leaves every sequence positive. -/
structure Writes (numbered : Prop) (db : Database) (offers : List Offer) (db' : Database) :
    Prop where
  appended : ∃ new, db'.taskEvents = db.taskEvents ++ new ∧
    new.Pairwise (fun e e' => e.ingestId < e'.ingestId) ∧
    ∀ e ∈ new, db.eventIngestCounter < e.ingestId ∧ e.ingestId ≤ db'.eventIngestCounter ∧
      ∃ a ∈ db.attempts, a.id = e.attemptId
  counter : db.eventIngestCounter ≤ db'.eventIngestCounter
  recorded : ∀ offered, Recorded Offer.key offered (db.taskEvents.map TaskEvent.offer) →
    Recorded Offer.key (offered ++ offers) (db'.taskEvents.map TaskEvent.offer)
  positive : numbered → (∀ e ∈ db.taskEvents, 0 < e.sequence) →
    ∀ o ∈ offers, 0 < o.sequence

theorem Writes.of_log {db' : Database} (h : db'.log = db.log) :
    Writes numbered db [] db' := by
  obtain ⟨hevents, hcounter⟩ := Prod.mk.inj h
  refine ⟨⟨[], ?_⟩, ?_, ?_, by simp⟩
  · simp [hevents]
  · rw [hcounter]
  · intro offered hrecorded
    rw [hevents, List.append_nil]
    exact hrecorded

theorem Writes.of_quiet {db' : Database} (h : db'.log = db.log) :
    Writes numbered db ((db'.taskEvents.drop db.taskEvents.length).map TaskEvent.offer) db' := by
  have hevents := (Prod.mk.inj h).1
  rw [hevents, List.drop_length]
  exact .of_log h

/-- One batch, for a state with the log and the attempts of `db`. -/
theorem Writes.of_batch {db' : Database} {row : Attempt} (hrow : row ∈ db.attempts)
    (events : List IncomingEvent) (now : String)
    (hnumbered : numbered → (∀ e ∈ db.taskEvents, 0 < e.sequence) →
      ∀ ev ∈ events, 0 < ev.sequence)
    (hlog : db'.log =
      ((insertEvents row.id now db.taskEvents (db.eventIngestCounter + 1) events).1,
        db.eventIngestCounter + events.length)) :
    Writes numbered db (events.map (·.offer row.id)) db' := by
  obtain ⟨hevents, hcounter⟩ := Prod.mk.inj hlog
  obtain ⟨new, hrows, hsorted, hnew, hrecorded⟩ :=
    insertEvents_spec row.id now events db.taskEvents (db.eventIngestCounter + 1)
  rw [hrows] at hevents
  refine ⟨⟨new, hevents, hsorted, ?_⟩, ?_, ?_, ?_⟩
  · intro e he
    obtain ⟨hattempt, hlow, hhigh⟩ := hnew e he
    exact ⟨by omega, by omega, row, hrow, hattempt.symm⟩
  · omega
  · intro offered h
    rw [hevents]
    exact hrecorded offered h
  · intro hnum hrows o ho
    obtain ⟨ev, hev, rfl⟩ := List.mem_map.mp ho
    exact hnumbered hnum hrows ev hev

theorem nextSequence_gt {rows : List TaskEvent} {attemptId : String} {e : TaskEvent}
    (he : e ∈ rows) (hattempt : e.attemptId = attemptId) :
    e.sequence < nextSequence rows attemptId := by
  have hmem : e.sequence ∈ (rows.filter fun e => e.attemptId == attemptId).map
      TaskEvent.sequence :=
    List.mem_map_of_mem (List.mem_filter.mpr ⟨he, by simpa using hattempt⟩)
  unfold nextSequence
  cases hmax : ((rows.filter fun e => e.attemptId == attemptId).map
      TaskEvent.sequence).max? with
  | none =>
      rw [List.max?_eq_none_iff.mp hmax] at hmem
      simp at hmem
  | some last =>
      have hle := (List.max?_eq_some_iff.mp hmax).2 _ hmem
      simp only [Option.getD_some]
      omega

theorem nextSequence_pos {rows : List TaskEvent} (h : ∀ e ∈ rows, 0 < e.sequence)
    (attemptId : String) : 0 < nextSequence rows attemptId := by
  unfold nextSequence
  cases hmax : ((rows.filter fun e => e.attemptId == attemptId).map
      TaskEvent.sequence).max? with
  | none => simp
  | some last =>
      obtain ⟨e, he, rfl⟩ := List.mem_map.mp (List.max?_eq_some_iff.mp hmax).1
      have := h e (List.mem_of_mem_filter he)
      simp only [Option.getD_some]
      omega

/-- The slot of an event of the control plane's own is free, so the event is
appended. -/
theorem insertAuditEvent_log (db : Database) (attemptId payload now : String) :
    (insertAuditEvent db attemptId payload now).log =
      (db.taskEvents ++ [⟨attemptId, nextSequence db.taskEvents attemptId, .stdout, payload,
        now, db.eventIngestCounter + 1⟩], db.eventIngestCounter + 1) := by
  have hfree : (db.taskEvents.any fun r => r.attemptId == attemptId &&
      r.sequence == nextSequence db.taskEvents attemptId) = false := by
    rw [List.any_eq_false]
    intro r hr hslot
    rw [Bool.and_eq_true, beq_iff_eq, beq_iff_eq] at hslot
    have := nextSequence_gt hr hslot.1
    omega
  simp [Database.log, insertAuditEvent, insertEvents, hfree]

theorem Writes.of_audit {db' : Database} {row : Attempt} (hrow : row ∈ db.attempts)
    (payload now : String)
    (hlog : db'.log = (insertAuditEvent db row.id payload now).log) :
    Writes numbered db ((db'.taskEvents.drop db.taskEvents.length).map TaskEvent.offer) db' := by
  have hslot : numbered → (∀ e ∈ db.taskEvents, 0 < e.sequence) → ∀ ev ∈
      [(⟨nextSequence db.taskEvents row.id, .stdout, payload⟩ : IncomingEvent)],
        0 < ev.sequence := by
    intro _ hrows ev hev
    rw [List.mem_singleton.mp hev]
    exact nextSequence_pos hrows row.id
  have hbatch := Writes.of_batch hrow _ now hslot (hlog.trans rfl)
  have hevents := (Prod.mk.inj (hlog.trans (insertAuditEvent_log db row.id payload now))).1
  have hoffers : (db'.taskEvents.drop db.taskEvents.length).map TaskEvent.offer =
      [IncomingEvent.offer row.id ⟨nextSequence db.taskEvents row.id, .stdout, payload⟩] := by
    rw [hevents, List.drop_left]
    rfl
  rw [hoffers]
  exact hbatch

theorem finishAttempt_log (db : Database) (a : Attempt) (task : Task)
    (req : CompleteAttemptRequest) (attemptTarget : AttemptStatus) (taskTarget : TaskStatus)
    (approvalId now expires : String) :
    (finishAttempt db a task req attemptTarget taskTarget approvalId now expires).log =
        db.log ∨
      (finishAttempt db a task req attemptTarget taskTarget approvalId now expires).log =
        (insertVerificationNote db a.id verificationNote now).log := by
  have hnote : ∀ db' : Database, db'.log = db.log →
      (noteSilentSuccess db' a.id req taskTarget now).log = db.log ∨
        (noteSilentSuccess db' a.id req taskTarget now).log =
          (insertVerificationNote db a.id verificationNote now).log := by
    intro db' hsame
    obtain ⟨hevents, hcounter⟩ := Prod.mk.inj hsame
    unfold noteSilentSuccess
    split
    · right
      rw [insertVerificationNote, insertVerificationNote, insertAuditEvent_log,
        insertAuditEvent_log, hevents, hcounter]
    · exact .inl hsame
  have hlog : (finishAttempt db a task req attemptTarget taskTarget approvalId now
      expires).log = (noteSilentSuccess ((finishAgentSession db a.id
        (if req.success then "done" else "failed") req.errorCode now).updateAttempts
          (fun r => r.id == a.id) (req.record attemptTarget now)) a.id req taskTarget
          now).log := by
    unfold finishAttempt
    dsimp only
    split <;> rfl
  rw [hlog]
  exact hnote _ rfl

theorem completeAttempt_writes (attemptId : String) (req : CompleteAttemptRequest)
    (approvalId now expires : String) {db' : Database}
    (hdb' : db' = (completeAttempt db attemptId req approvalId now expires).1) :
    Writes numbered db ((db'.taskEvents.drop db.taskEvents.length).map TaskEvent.offer) db' := by
  unfold completeAttempt at hdb'
  split at hdb'
  · exact .of_quiet (by rw [hdb'])
  · rename_i a hrow
    split at hdb'
    · exact .of_quiet (by rw [hdb', log_audit])
    · split at hdb'
      · exact .of_quiet (by rw [hdb'])
      · split at hdb'
        · exact .of_quiet (by rw [hdb'])
        · rename_i task attemptTarget taskTarget _ _
          subst hdb'
          rcases finishAttempt_log db a task req attemptTarget taskTarget approvalId now
            expires with hlog | hlog
          · exact .of_quiet hlog
          · exact .of_audit (lookup_mem hrow).1 _ now hlog

theorem ingestEvents_log {attemptId : String} {row : Attempt}
    (hrow : db.attempt attemptId = some row) (hopen : row.status.inFlight = true)
    (events : List IncomingEvent) (now : String) :
    (ingestEvents db attemptId events now).1.log =
      ((insertEvents row.id now db.taskEvents (db.eventIngestCounter + 1) events).1,
        db.eventIngestCounter + events.length) := by
  obtain ⟨_, rfl⟩ := lookup_mem hrow
  unfold ingestEvents
  rw [hrow]
  simp only [hopen, Bool.true_eq_false, if_false]
  split <;> simp [Database.log, Database.updateTasks, Database.updateAttempts]

theorem write_writes (op : FeedOp) :
    Writes (op.numbered = true) db (op.offers db (op.write db)) (op.write db) := by
  cases op with
  | read limit => exact .of_quiet rfl
  | reconnect => exact .of_quiet rfl
  | appendAuditEvent attemptId payload now =>
      cases hrow : db.attempt attemptId with
      | none => exact .of_quiet (by simp [FeedOp.write, appendAuditEvent, hrow])
      | some row =>
          obtain ⟨hmem, rfl⟩ := lookup_mem hrow
          exact .of_audit hmem payload now
            (by simp [FeedOp.write, appendAuditEvent, hrow])
  | store op =>
      cases op with
      | ingestEvents attemptId events now =>
          cases hrow : db.attempt attemptId with
          | none =>
              simpa [FeedOp.offers, FeedOp.write, step, ingestEvents, hrow] using
                Writes.of_log rfl
          | some row =>
              cases hopen : row.status.inFlight with
              | false =>
                  simpa [FeedOp.offers, FeedOp.write, step, ingestEvents, hrow, hopen] using
                    Writes.of_log rfl
              | true =>
                  obtain ⟨hmem, rfl⟩ := lookup_mem hrow
                  have hnumbered : (FeedOp.store (.ingestEvents row.id events now)).numbered =
                      true → (∀ e ∈ db.taskEvents, 0 < e.sequence) →
                        ∀ ev ∈ events, 0 < ev.sequence := by
                    intro hop _ ev hev
                    simpa using List.all_eq_true.mp hop ev hev
                  simpa [FeedOp.offers, FeedOp.write, step, hrow, hopen] using
                    Writes.of_batch hmem events now hnumbered
                      (ingestEvents_log hrow hopen events now)
      | completeAttempt attemptId req approvalId now expires =>
          exact completeAttempt_writes attemptId req approvalId now expires rfl
      | createTask req id now =>
          refine .of_quiet ?_
          simp only [FeedOp.write, step, createTask]
          split <;> rfl
      | registerOrTouchNode req now =>
          refine .of_quiet ?_
          simp only [FeedOp.write, step, registerOrTouchNode]
          split <;> rfl
      | enrollNode req nodeId credHash now =>
          refine .of_quiet ?_
          simp only [FeedOp.write, step, enrollNode]
          split <;> rfl
      | rekeyNode nodeId credHash now =>
          refine .of_quiet ?_
          simp only [FeedOp.write, step, rekeyNode]
          split <;> rfl
      | heartbeat nodeId req now => exact .of_quiet rfl
      | revokeNode nodeId now =>
          refine .of_quiet ?_
          simp only [FeedOp.write, step, revokeNode]
          split <;> rfl
      | setNodeDrained nodeId drained now =>
          refine .of_quiet ?_
          simp only [FeedOp.write, step, setNodeDrained]
          split <;> rfl
      | setNodeDegraded nodeId => exact .of_quiet rfl
      | tryAssignBatch env nodeId drained input =>
          exact .of_quiet (log_tryAssignBatch env nodeId drained input)
      | ackAttempt attemptId now => exact .of_quiet (log_ackAttempt attemptId now)
      | beginValidate attemptId now =>
          refine .of_quiet ?_
          simp only [FeedOp.write, step, beginValidate]
          split <;> rfl
      | rejectAssignment attemptId reason now =>
          exact .of_quiet (log_rejectAssignment attemptId reason now)
      | cancelTask taskId now =>
          refine .of_quiet ?_
          simp only [FeedOp.write, step, cancelTask]
          repeat' split
          all_goals rfl
      | cancelStepTask taskId => exact .of_quiet rfl
      | retryTask taskId now =>
          refine .of_quiet ?_
          simp only [FeedOp.write, step, retryTask]
          repeat' split
          all_goals rfl
      | revertExpiredLeases now fence => exact .of_quiet (log_revertLeases now fence _)
      | loseNodeAttempts nodeId now => exact .of_quiet (log_loseNodeAttempts nodeId now)
      | loseNodeAttemptsIfOffline nodeId now =>
          refine .of_quiet ?_
          simp only [FeedOp.write, step, loseNodeAttemptsIfOffline]
          repeat' split
          all_goals first | rfl | exact log_loseNodeAttempts nodeId now
      | markNodeOffline nodeId now =>
          refine .of_quiet ?_
          simp only [FeedOp.write, step, markNodeOffline]
          split
          · rw [log_loseNodeAttempts, log_updateNodes]
          · rfl
      | markOfflineNodes cutoff now => exact .of_quiet (log_foldl_markOffline now _)
      | reconcileActiveAttempts => exact .of_quiet rfl

end Writes

end AgentGrid.Store
