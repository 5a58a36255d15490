import AgentGrid.Store.Refinement.Attempts

/-!
# Lost attempts as ledger moves

Refusals, lease reverts and node loss.  The loops are inductions over the rows
selected before the loop, with the ledger sound at every round; the slots a
lost node frees at the end are moved into the rounds first.
-/

namespace AgentGrid.Store

open AgentGrid.Foundation AgentGrid.Foundation.Ledger

variable {db : Database} {quiet : String → Prop}

/-- Whether a lost attempt of the task may spend another one. -/
def Database.canRequeue (db : Database) (taskId : String) : Bool :=
  db.tasks.any fun t => t.id == taskId && t.retryOnNodeLoss != 0 &&
    decide ((db.attemptCount taskId : Int) < t.maxAttempts)

def LossRetryPolicy.allows (policy : LossRetryPolicy) (count : Nat) : Bool :=
  policy.retryAllowed && decide ((count : Int) < policy.maxAttempts)

theorem attemptCount_updateAttempts (db : Database) (p : Attempt → Bool)
    (f : Attempt → Attempt)
    (hf : ∀ r, (f r).taskId = r.taskId) (taskId : String) :
    (db.updateAttempts p f).attemptCount taskId = db.attemptCount taskId := by
  rw [Database.attemptCount, Database.updateAttempts, updateWhere, List.countP_map]
  apply List.countP_congr
  intro r _
  by_cases hp : p r <;> simp [hp, hf]

theorem canRequeue_of_policy {t : Task} (ht : t ∈ db.tasks)
    (h : (LossRetryPolicy.ofTask t).allows (db.attemptCount t.id) = true) :
    db.canRequeue t.id = true := by
  rw [Database.canRequeue, List.any_eq_true]
  refine ⟨t, ht, ?_⟩
  simp only [LossRetryPolicy.allows, LossRetryPolicy.ofTask,
    LossRetryPolicy.fromColumns, Bool.and_eq_true, decide_eq_true_eq] at h ⊢
  exact ⟨⟨beq_self_eq_true t.id, h.1⟩, of_decide_eq_true h.2⟩

/-- The retry decision on a task that is not terminal yet. -/
theorem requeueLostAttempt_eq (db : Database) (hkeys : (db.tasks.map Task.id).Nodup) {t : Task}
    (ht : t ∈ db.tasks) (hopen : t.status.isTerminal = false)
    (attemptId nodeId now reason : String) (policy : LossRetryPolicy) :
    requeueLostAttempt db t.id attemptId nodeId now reason policy =
      if policy.allows (db.attemptCount t.id) then
        ((db.updateTasks (fun r => r.id == t.id) (requeueTask nodeId)).audit
          (retryAudit t.id attemptId nodeId now reason), true)
      else (db, false) := by
  have hguard : ∀ r ∈ db.tasks, (r.id == t.id && !r.status.isTerminal) = (r.id == t.id) := by
    intro r hr
    by_cases hid : r.id = t.id
    · rw [row_unique hkeys hr ht hid]
      simp [hopen]
    · simp [hid]
  have hcount := countP_key hkeys ht hguard
  unfold requeueLostAttempt LossRetryPolicy.allows
  cases hretry : policy.retryAllowed with
  | false => simp
  | true =>
      by_cases hbudget : (db.attemptCount t.id : Int) < policy.maxAttempts
      · have hnot : ¬ policy.maxAttempts ≤ db.attemptCount t.id := by omega
        simp [hnot, hbudget, hcount, Database.updateTasks, updateWhere_congr hguard]
      · have hle : policy.maxAttempts ≤ db.attemptCount t.id := by omega
        simp [hle, hbudget]

section Refusal

theorem rejectAssignment_traced (hdb : db.Sound) (attemptId reason now : String) :
    Traced db (rejectAssignment db attemptId reason now).1 (fun k =>
      ∀ a ∈ db.attempts, a.id = attemptId → a.taskId = k → a.status = .assigned →
        a.cancelRequested = true → db.canRequeue k = false) := by
  unfold rejectAssignment
  cases hrow : db.attempt attemptId with
  | none => exact .of_ledger_eq rfl
  | some a =>
      obtain ⟨ha, rfl⟩ := lookup_mem hrow
      by_cases hstatus : a.status = .assigned
      · have hlive : a.status.inFlight = true := by rw [hstatus]; rfl
        obtain ⟨t, ht, hid⟩ := owner_exists hdb ha
        have hshown := (owner_shows hdb ha hlive ht hid).2
        have hopen : t.status.isTerminal = false := by
          rw [hshown]
          exact taskStatus_open hlive
        have hlookup : ∀ {p f}, (db.updateAttempts p f).task a.taskId = some t := by
          intro p f
          rw [← hid]
          exact lookup_of_mem (task_keys hdb) ht
        have hcount : ∀ {p}, (db.updateAttempts p (Attempt.lose now)).attemptCount t.id =
            db.attemptCount t.id :=
          attemptCount_updateAttempts db _ (Attempt.lose now) (fun _ => rfl) t.id
        simp only [hstatus, ne_eq, not_true_eq_false, if_false,
          held_count hdb ha hstatus, hlookup, Option.map_some, Option.getD_some]
        have hkeys := task_keys hdb
        rw [← hid, requeueLostAttempt_eq (db.updateAttempts _ _) hkeys ht hopen, hcount]
        cases hallows : (LossRetryPolicy.ofTask t).allows (db.attemptCount t.id) with
        | true =>
            refine .one (.release a.lease (.lost, a.cancelRequested) .queued) rfl
              ⟨lease_mem ha, hlive, rfl, rfl⟩
              (ledger_release hdb ha _ _ (held_iff hdb ha hstatus) rfl
                (fun _ _ => by rw [hid]) (fun _ _ _ => rfl)) ?_
            intro k hk hholder hmarked
            have hnot := hk a ha rfl hholder hstatus hmarked
            rw [← hholder, show a.lease.holder = t.id from hid.symm,
              canRequeue_of_policy ht hallows] at hnot
            cases hnot
        | false =>
            refine .one (.release a.lease (.lost, a.cancelRequested) .failed) rfl
              ⟨lease_mem ha, hlive, rfl, rfl⟩
              (ledger_release hdb ha _ _ (held_iff hdb ha hstatus) rfl ?_
                (fun _ _ _ => rfl)) (fun _ _ _ _ => rfl)
            rw [hid]
            exact owned_iff hdb ha hlive (fun s => s == .assigned)
              (by simp [hstatus, AttemptStatus.taskStatus])
      · simp only [hstatus, ne_eq, not_false_eq_true, if_true]
        exact .of_ledger_eq rfl

end Refusal

section Expiry

theorem revertLease_traced (hdb : db.Sound) {a : Attempt} (ha : a ∈ db.attempts)
    (hstatus : a.status = .assigned) (now : String) (fence : String → String) :
    Traced db (revertLease now fence db a).1
      (fun k => a.taskId = k → a.cancelRequested = false) := by
  have hlive : a.status.inFlight = true := by rw [hstatus]; rfl
  have howner : ∀ t ∈ db.tasks, (t.id == a.taskId && t.assignedAttemptId == some a.id &&
      t.status == .assigned) = (t.id == a.taskId) := by
    intro t ht
    by_cases hid : t.id = a.taskId
    · obtain ⟨hptr, hshown⟩ := owner_shows hdb ha hlive ht hid
      simp [hid, hptr, hshown, hstatus, AttemptStatus.taskStatus]
    · rw [beq_false_of_ne hid]
      rfl
  simp only [revertLease, held_count hdb ha hstatus, ne_eq, not_true_eq_false, if_false]
  refine .one (.release a.lease (.cancelled, a.cancelRequested) .queued) rfl
    ⟨lease_mem ha, hlive, rfl, rfl⟩
    (ledger_release hdb ha _ _ (held_iff hdb ha hstatus) rfl howner (fun _ _ _ => rfl)) ?_
  intro k hk hholder hmarked
  have hfalse := hk hholder
  rw [show a.cancelRequested = true from hmarked] at hfalse
  cases hfalse

theorem revertLease_others {a r : Attempt} (hr : r ∈ db.attempts) (hne : r.id ≠ a.id)
    (now : String) (fence : String → String) :
    r ∈ (revertLease now fence db a).1.attempts := by
  have hmem : r ∈ updateWhere (fun x : Attempt => x.id == a.id && x.status == .assigned)
      (fun x => { x with status := .cancelled, finishedAt := some now,
                         fencingToken := fence a.id }) db.attempts :=
    mem_updateWhere_of_not hr (by simp [hne])
  unfold revertLease
  dsimp only
  split <;> exact hmem

theorem revertLeases_traced (now : String) (fence : String → String)
    (rows : List Attempt) (hdb : db.Sound) (hkeys : (rows.map Attempt.id).Nodup)
    (hrows : ∀ a ∈ rows, a ∈ db.attempts ∧ a.status = .assigned) :
    Traced db (revertLeases now fence db rows).1
      (fun k => ∀ a ∈ rows, a.taskId = k → a.cancelRequested = false) := by
  induction rows generalizing db with
  | nil => exact .of_ledger_eq rfl
  | cons a rows ih =>
      rw [List.map_cons, List.nodup_cons] at hkeys
      obtain ⟨ha, hstatus⟩ := hrows a (List.mem_cons_self ..)
      have hfirst := revertLease_traced hdb ha hstatus now fence
      have hrest := ih (hfirst.sound hdb) hkeys.2 (by
        intro r hr
        obtain ⟨hmem, hs⟩ := hrows r (List.mem_cons_of_mem _ hr)
        refine ⟨revertLease_others hmem ?_ now fence, hs⟩
        intro hid
        exact hkeys.1 (List.mem_map.mpr ⟨r, hr, hid⟩))
      exact (hfirst.mono fun k hk => hk a (List.mem_cons_self ..)).trans
        (hrest.mono fun k hk r hr => hk r (List.mem_cons_of_mem _ hr))

theorem revertExpiredLeases_traced (hdb : db.Sound) (now : String)
    (fence : String → String) :
    Traced db (revertExpiredLeases db now fence).1 (fun k =>
      ∀ a ∈ db.attempts, a.expired now = true → a.taskId = k →
        a.cancelRequested = false) := by
  refine (revertLeases_traced now fence _ hdb ?_ ?_).mono ?_
  · exact (attempt_keys hdb).sublist (List.Sublist.map _ List.filter_sublist)
  · intro a ha
    obtain ⟨hmem, hexpired⟩ := List.mem_filter.mp ha
    refine ⟨hmem, ?_⟩
    simp only [Attempt.expired, Bool.and_eq_true, beq_iff_eq] at hexpired
    exact hexpired.1
  · intro k hk a ha
    obtain ⟨hmem, hexpired⟩ := List.mem_filter.mp ha
    exact hk a hmem hexpired

end Expiry

section NodeLoss

/-- A round of node loss with the slot it frees. -/
def loseOne (nodeId now : String) (db : Database) (row : Attempt × LossRetryPolicy) :
    Database :=
  (loseAttempt nodeId now db row).freeSlots nodeId 1

theorem freeSlots_add (db : Database) (nodeId : String) (m n : Nat) :
    (db.freeSlots nodeId m).freeSlots nodeId n = db.freeSlots nodeId (m + n) := by
  simp only [Database.freeSlots, Database.updateNodes, updateWhere, List.map_map]
  congr 1
  apply List.map_congr_left
  intro row _
  by_cases hid : row.id = nodeId <;> simp [hid, Nat.sub_sub]

theorem loseAttempt_freeSlots (db : Database) (nodeId now : String) (n : Nat)
    (row : Attempt × LossRetryPolicy) :
    loseAttempt nodeId now (db.freeSlots nodeId n) row =
      (loseAttempt nodeId now db row).freeSlots nodeId n := by
  have hcount : ∀ p f k, ((db.freeSlots nodeId n).updateAttempts p f).attemptCount k =
      (db.updateAttempts p f).attemptCount k := fun _ _ _ => rfl
  have htasks : ∀ p f, ((db.freeSlots nodeId n).updateAttempts p f).tasks =
      (db.updateAttempts p f).tasks := fun _ _ => rfl
  unfold loseAttempt requeueLostAttempt
  simp only [hcount, htasks]
  split_ifs <;> rfl

theorem foldl_loseAttempt_freeSlots (nodeId now : String)
    (rows : List (Attempt × LossRetryPolicy)) (db : Database) :
    rows.foldl (loseAttempt nodeId now) (db.freeSlots nodeId 1) =
      (rows.foldl (loseAttempt nodeId now) db).freeSlots nodeId 1 := by
  induction rows generalizing db with
  | nil => rfl
  | cons row rows ih => rw [List.foldl_cons, List.foldl_cons, loseAttempt_freeSlots, ih]

theorem foldl_loseAttempt (nodeId now : String) (rows : List (Attempt × LossRetryPolicy))
    (db : Database) :
    (rows.foldl (loseAttempt nodeId now) db).freeSlots nodeId rows.length =
      rows.foldl (loseOne nodeId now) db := by
  induction rows generalizing db with
  | nil =>
      simp only [List.foldl_nil, List.length_nil, Database.freeSlots,
        Database.updateNodes, updateWhere, Nat.sub_zero]
      congr 1
      simp
  | cons row rows ih =>
      rw [List.foldl_cons, List.foldl_cons, ← ih, loseOne,
        foldl_loseAttempt_freeSlots, freeSlots_add, List.length_cons, Nat.add_comm]

/-- Nothing comes into flight and no retry budget changes. -/
structure Narrows (db db' : Database) : Prop where
  live : ∀ a ∈ db'.attempts, a.status.inFlight = true → a ∈ db.attempts
  budget : ∀ k, db'.canRequeue k = db.canRequeue k
  count : ∀ k, db'.attemptCount k = db.attemptCount k

theorem Narrows.refl (db : Database) : Narrows db db :=
  ⟨fun _ h _ => h, fun _ => rfl, fun _ => rfl⟩

theorem Narrows.trans {db db' db'' : Database} (first : Narrows db db')
    (second : Narrows db' db'') : Narrows db db'' :=
  ⟨fun a ha hlive => first.live a (second.live a ha hlive) hlive,
    fun k => (second.budget k).trans (first.budget k),
    fun k => (second.count k).trans (first.count k)⟩

/-- The writes of a round: one attempt ends and tasks keep their budget. -/
theorem Narrows.of_writes (db : Database) (attemptId now : String) (p : Task → Bool)
    (g : Task → Task)
    (hg : ∀ t, (g t).id = t.id ∧ (g t).retryOnNodeLoss = t.retryOnNodeLoss ∧
      (g t).maxAttempts = t.maxAttempts) :
    Narrows db ((db.updateAttempts (fun r => r.id == attemptId)
      (Attempt.lose now)).updateTasks p g) := by
  have hcount : ∀ k, ((db.updateAttempts (fun r => r.id == attemptId)
      (Attempt.lose now)).updateTasks p g).attemptCount k = db.attemptCount k :=
    attemptCount_updateAttempts db _ (Attempt.lose now) (fun _ => rfl)
  refine ⟨?_, ?_, hcount⟩
  · intro a ha hlive
    obtain ⟨old, hold, rfl⟩ := mem_updateWhere.mp ha
    by_cases hid : old.id = attemptId
    · simp [hid, Attempt.lose, AttemptStatus.inFlight] at hlive
    · simpa [hid] using hold
  · intro k
    rw [Database.canRequeue, hcount k, Database.canRequeue]
    change (updateWhere p g db.tasks).any _ = _
    rw [updateWhere, List.any_map]
    congr 1
    funext t
    obtain ⟨hid, hretry, hmax⟩ := hg t
    by_cases hp : p t <;> simp [hp, hid, hretry, hmax]

/-- What one round writes, once the guards are simplified. -/
theorem loseOne_eq (hdb : db.Sound) {a : Attempt} (ha : a ∈ db.attempts)
    (hlive : a.status.inFlight = true) (now : String) (policy : LossRetryPolicy) :
    let lost := db.updateAttempts (fun r => r.id == a.id) (Attempt.lose now)
    loseOne a.nodeId now db (a, policy) =
      if policy.allows (db.attemptCount a.taskId) then
        ((lost.updateTasks (fun t => t.id == a.taskId) (requeueTask a.nodeId)).audit
          (retryAudit a.taskId a.id a.nodeId now "node_lost")).freeSlots a.nodeId 1
      else
        (lost.updateTasks (fun t => t.id == a.taskId && !t.status.isTerminal)
          (failLostTask now)).freeSlots a.nodeId 1 := by
  obtain ⟨t, ht, hid⟩ := owner_exists hdb ha
  have hkeys := task_keys hdb
  have hopen : t.status.isTerminal = false := by
    rw [(owner_shows hdb ha hlive ht hid).2]
    exact taskStatus_open hlive
  have hcount := attemptCount_updateAttempts db (fun r => r.id == a.id) (Attempt.lose now)
    (fun _ => rfl) a.taskId
  intro lost
  have hrequeue := requeueLostAttempt_eq lost hkeys ht hopen a.id a.nodeId now
    "node_lost" policy
  rw [hid, hcount] at hrequeue
  simp only [loseOne, loseAttempt]
  rw [hrequeue]
  cases policy.allows (db.attemptCount a.taskId) <;> rfl

theorem loseOne_narrows (hdb : db.Sound) {a : Attempt} (ha : a ∈ db.attempts)
    (hlive : a.status.inFlight = true) (now : String) (policy : LossRetryPolicy) :
    Narrows db (loseOne a.nodeId now db (a, policy)) := by
  rw [loseOne_eq hdb ha hlive]
  have hrequeue := Narrows.of_writes db a.id now (fun t => t.id == a.taskId)
    (requeueTask a.nodeId) (fun _ => ⟨rfl, rfl, rfl⟩)
  have hfail := Narrows.of_writes db a.id now
    (fun t => t.id == a.taskId && !t.status.isTerminal) (failLostTask now)
    (fun _ => ⟨rfl, rfl, rfl⟩)
  split
  · exact ⟨hrequeue.live, hrequeue.budget, hrequeue.count⟩
  · exact ⟨hfail.live, hfail.budget, hfail.count⟩

theorem loseOne_traced (hdb : db.Sound) {a : Attempt} (ha : a ∈ db.attempts)
    (hlive : a.status.inFlight = true) (now : String) (policy : LossRetryPolicy) :
    Traced db (loseOne a.nodeId now db (a, policy)) (fun k =>
      a.taskId = k → a.cancelRequested = true →
        policy.allows (db.attemptCount k) = false) := by
  rw [loseOne_eq hdb ha hlive]
  cases hallows : policy.allows (db.attemptCount a.taskId) with
  | true =>
      refine .one (.release a.lease (.lost, a.cancelRequested) .queued) rfl
        ⟨lease_mem ha, hlive, rfl, rfl⟩
        (ledger_release hdb ha _ _ (fun _ _ => rfl) rfl (fun _ _ => rfl)
          (fun _ _ _ => rfl)) ?_
      intro k hk hholder hmarked
      have hnot := hk hholder hmarked
      rw [← show a.taskId = k from hholder, hallows] at hnot
      cases hnot
  | false =>
      refine .one (.release a.lease (.lost, a.cancelRequested) .failed) rfl
        ⟨lease_mem ha, hlive, rfl, rfl⟩
        (ledger_release hdb ha _ _ (fun _ _ => rfl) rfl ?_ (fun _ _ _ => rfl))
        (fun _ _ _ _ => rfl)
      exact owned_iff hdb ha hlive (fun s => !s.isTerminal)
        (by simp [taskStatus_open hlive])

theorem loseOne_others {a r : Attempt} (hdb : db.Sound) (ha : a ∈ db.attempts)
    (hlive : a.status.inFlight = true) (hr : r ∈ db.attempts) (hne : r.id ≠ a.id)
    (now : String) (policy : LossRetryPolicy) :
    r ∈ (loseOne a.nodeId now db (a, policy)).attempts := by
  have hmem : r ∈ updateWhere (fun x : Attempt => x.id == a.id) (Attempt.lose now) db.attempts :=
    mem_updateWhere_of_not hr (by simp [hne])
  rw [loseOne_eq hdb ha hlive]
  split <;> exact hmem

theorem foldl_loseOne_traced (nodeId now : String)
    (rows : List (Attempt × LossRetryPolicy)) (hdb : db.Sound)
    (hkeys : (rows.map fun row => row.1.id).Nodup)
    (hrows : ∀ row ∈ rows, row.1 ∈ db.attempts ∧ row.1.status.inFlight = true ∧
      row.1.nodeId = nodeId) :
    Traced db (rows.foldl (loseOne nodeId now) db) (fun k =>
        ∀ row ∈ rows, row.1.taskId = k → row.1.cancelRequested = true →
          row.2.allows (db.attemptCount k) = false) ∧
      Narrows db (rows.foldl (loseOne nodeId now) db) := by
  induction rows generalizing db with
  | nil => exact ⟨.of_ledger_eq rfl, .refl db⟩
  | cons row rows ih =>
      obtain ⟨a, policy⟩ := row
      rw [List.map_cons, List.nodup_cons] at hkeys
      obtain ⟨ha, hlive, rfl⟩ := hrows (a, policy) (List.mem_cons_self ..)
      have hfirst := loseOne_traced hdb ha hlive now policy
      have hnarrows := loseOne_narrows hdb ha hlive now policy
      obtain ⟨hrest, hrestNarrows⟩ := ih (hfirst.sound hdb) hkeys.2 (by
        intro r hr
        obtain ⟨hmem, hrLive, hnode⟩ := hrows r (List.mem_cons_of_mem _ hr)
        refine ⟨loseOne_others hdb ha hlive hmem ?_ now policy, hrLive, hnode⟩
        intro hid
        exact hkeys.1 (List.mem_map.mpr ⟨r, hr, hid⟩))
      refine ⟨(hfirst.mono fun k hk => hk (a, policy) (List.mem_cons_self ..)).trans
        (hrest.mono fun k hk r hr => ?_), hnarrows.trans hrestNarrows⟩
      rw [hnarrows.count]
      exact hk r (List.mem_cons_of_mem _ hr)

/-- No attempt the loss of the node would end carries a cancel of the task and
would be requeued. -/
def Database.LossKeepsCancel (db : Database) (nodeId taskId : String) : Prop :=
  ∀ a ∈ db.attempts, a.nodeId = nodeId → a.taskId = taskId →
    a.status.inFlight = true → a.cancelRequested = true → db.canRequeue taskId = false

theorem Narrows.lossKeepsCancel {db' : Database} (h : Narrows db db')
    {nodeId taskId : String} (hk : db.LossKeepsCancel nodeId taskId) :
    db'.LossKeepsCancel nodeId taskId := by
  intro a ha hnode htask hlive hcancel
  rw [h.budget]
  exact hk a (h.live a ha hlive) hnode htask hlive hcancel

theorem inFlightRows_fst (hdb : db.Sound) (nodeId : String) :
    (inFlightRows db nodeId).map Prod.fst =
      db.attempts.filter fun a => a.nodeId == nodeId && a.status.inFlight := by
  rw [inFlightRows, List.map_filterMap]
  conv_rhs => rw [← @List.filterMap_some _ (db.attempts.filter _)]
  apply List.filterMap_congr
  intro a ha
  obtain ⟨t, ht, hid⟩ := owner_exists hdb (List.mem_filter.mp ha).1
  have hlookup : db.task a.taskId = some t := by
    rw [← hid]
    exact lookup_of_mem (task_keys hdb) ht
  simp [hlookup]

theorem inFlightRows_policy {row : Attempt × LossRetryPolicy} {nodeId : String}
    (hrow : row ∈ inFlightRows db nodeId)
    (hallows : row.2.allows (db.attemptCount row.1.taskId) = true) :
    db.canRequeue row.1.taskId = true := by
  obtain ⟨a, _, hmap⟩ := List.mem_filterMap.mp hrow
  obtain ⟨t, hlookup, rfl⟩ := Option.map_eq_some_iff.mp hmap
  obtain ⟨ht, hid⟩ := lookup_mem hlookup
  rw [← hid] at hallows ⊢
  exact canRequeue_of_policy ht hallows

theorem loseNodeAttempts_traced (hdb : db.Sound) (nodeId now : String) :
    Traced db (loseNodeAttempts db nodeId now) (db.LossKeepsCancel nodeId) ∧
      Narrows db (loseNodeAttempts db nodeId now) := by
  unfold loseNodeAttempts
  dsimp only
  split
  · exact ⟨.of_ledger_eq rfl, .refl db⟩
  · rw [foldl_loseAttempt]
    have hfst := inFlightRows_fst hdb nodeId
    have hmem : ∀ row ∈ inFlightRows db nodeId, row.1 ∈ db.attempts ∧
        row.1.status.inFlight = true ∧ row.1.nodeId = nodeId := by
      intro row hrow
      have hfilter : row.1 ∈ db.attempts.filter
          fun a => a.nodeId == nodeId && a.status.inFlight := by
        rw [← hfst]
        exact List.mem_map_of_mem hrow
      obtain ⟨hmem, hboth⟩ := List.mem_filter.mp hfilter
      rw [Bool.and_eq_true, beq_iff_eq] at hboth
      exact ⟨hmem, hboth.2, hboth.1⟩
    have hkeys : ((inFlightRows db nodeId).map fun row => row.1.id).Nodup := by
      have hids : ((inFlightRows db nodeId).map fun row => row.1.id) =
          ((inFlightRows db nodeId).map Prod.fst).map Attempt.id := by
        rw [List.map_map]
        rfl
      rw [hids, hfst]
      exact (attempt_keys hdb).sublist (List.Sublist.map _ List.filter_sublist)
    obtain ⟨htraced, hnarrows⟩ := foldl_loseOne_traced nodeId now _ hdb hkeys hmem
    refine ⟨htraced.mono ?_, hnarrows⟩
    intro k hk row hrow htask hcancel
    obtain ⟨ha, hlive, hnode⟩ := hmem row hrow
    by_contra hallows
    have hbudget := inFlightRows_policy hrow (by
      rw [htask]
      exact (Bool.not_eq_false _).mp hallows)
    rw [htask, hk row.1 ha hnode htask hlive hcancel] at hbudget
    cases hbudget

end NodeLoss

end AgentGrid.Store
