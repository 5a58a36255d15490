import AgentGrid.Store.ApprovalSafety

/-!
# Permissions over whole runs

What the invariants of the approvals say to an operator: a decision is final and
has one author, a permission request that was let through had an approval of its
own, and the maintenance tick expires all that is past due and nothing else.
-/

namespace AgentGrid.Store.Approvals

open AgentGrid.Foundation

section Flow

variable {provider : PolicyProvider} {P P' : ApprovalPool} {es es' : List ApprovalEvents}

theorem Inv.decided {db : ApprovalDb} (hdb : Inv db) {a : Approval} (ha : a ∈ db.approvals)
    (hdecided : a.status ≠ .pending) : ∃ d ∈ db.decisions, Shows a d := by
  rcases hdb.rows a ha with ⟨hopen, -⟩ | hshows
  · exact absurd hopen hdecided
  · exact hshows

def editRequest : PermissionRequest where
  taskId := "t"
  attemptId := "a"
  sessionId := "s"
  permission := .object [("tool", .string "Edit")]
  autonomy := .l2

/-- An edit is asked for and allowed, and an approval of a step expires. -/
def editRun : List ApprovalEvents :=
  [.start (.permission editRequest), .advance 0 { id := "p", now := "1", expires := "6" },
    .start (.allow "p" (some "ada") none), .advance 1 {}, .advance 1 { now := "2" },
    .advance 0 {},
    .other ⟨⟨"t", none, none, [], some "step", "step"⟩, "q", "2", "3"⟩,
    .start .tick, .advance 2 { now := "4" }, .advance 2 {}, .advance 2 { now := "4" },
    .advance 2 {}]

def editPool : ApprovalPool :=
  (editRun.foldlM (Pool.step (rules builtinProvider)) ⟨{}, []⟩).getD ⟨{}, []⟩

theorem editRun_runs : Runs (Pool.Steps (rules builtinProvider)) ⟨{}, []⟩ editRun editPool :=
  Runs.of_foldlM rfl

/-- A decided approval stays as it is, by one decision that no other follows; one
answer at most was told that it made the decision, and it did. -/
theorem approvals_decided_once (h : Runs (Pool.Steps (rules provider)) ⟨{}, []⟩ es P)
    (h' : Runs (Pool.Steps (rules provider)) P es' P') :
    (∀ a ∈ P.state.approvals, a.status ≠ .pending → a ∈ P'.state.approvals ∧
      ∃ d, Shows a d ∧ ∀ d' ∈ P'.state.decisions, d'.id = a.id ↔ d' = d) ∧
    (∀ (i j : Nat) id event event' reason reason' actor actor',
      P'.threads[i]? = some (Prog.ret (.answered id event reason actor (some true))) →
      P'.threads[j]? = some (Prog.ret (.answered id event' reason' actor' (some true))) →
        i = j) ∧
    ∀ id event reason actor,
      .ret (.answered id event reason actor (some true)) ∈ P'.threads →
      ∃ a ∈ P'.state.approvals, a.id = id ∧ nextApproval .pending event = .ok a.status ∧
        a.reason = reason ∧ ∃ time, a.audit = some ⟨actor, event, time⟩ := by
  have hP := reached_of_run h
  have hP' := reached_of_run (h.trans h')
  have hgrows := hP.grows_run h'
  have hinv' := hP'.stands.state
  refine ⟨fun a ha hdecided => ?_, fun i j id _ _ _ _ _ _ hi hj => ?_, ?_⟩
  · obtain ⟨d, hd, hshows⟩ := hP.stands.state.decided ha hdecided
    obtain ⟨a', ha', hlater⟩ := hgrows.rows a ha
    rw [hlater.decided hdecided] at ha'
    refine ⟨ha', d, hshows, fun d' hd' => ⟨fun heq => ?_, fun heq => ?_⟩⟩
    · exact row_unique hinv'.once hd' (hgrows.decisions d hd) (heq.trans hshows.id.symm)
    · rw [heq, hshows.id]
  · have hwon : ∀ event reason actor,
        wonBy (.ret (.answered id event reason actor (some true))) = some id := fun _ _ _ => rfl
    exact Pool.owned_unique hP'.wins hi hj (hwon _ _ _) (hwon _ _ _)
  · intro id event reason actor hmem
    obtain ⟨d, hd, hid, hreason, hactor, hevent⟩ :=
      hP'.stands.answer (ensures provider) hmem rfl
    obtain ⟨a, ha, haid⟩ := hinv'.known d hd
    refine ⟨a, ha, haid.trans hid, ?_⟩
    rcases hinv'.rows a ha with ⟨-, hnone⟩ | ⟨d', hd', hshows⟩
    · exact absurd haid.symm (hnone d hd)
    · obtain rfl := row_unique hinv'.once hd hd' (haid.symm.trans hshows.id.symm)
      have hlegal := hinv'.legal d hd
      rw [hevent] at hlegal
      refine ⟨hlegal.trans (congrArg _ hshows.status.symm), hshows.reason.trans hreason,
        d.audit.time, ?_⟩
      rw [hshows.audit, ← hactor, ← hevent]

theorem approvals_decided_once_edit :
    (∀ a ∈ editPool.state.approvals, a.status ≠ .pending → ∃ d, Shows a d) ∧
      ∃ a ∈ editPool.state.approvals, a.id = "p" ∧ a.reason = none := by
  have h := approvals_decided_once editRun_runs (.refl editPool)
  refine ⟨fun a ha hdecided => ?_, ?_⟩
  · obtain ⟨-, d, hshows, -⟩ := h.1 a ha hdecided
    exact ⟨d, hshows⟩
  · obtain ⟨a, ha, hid, -, hreason, -⟩ :=
      h.2.2 "p" .allow none "ada" (List.mem_of_getElem? (i := 1) rfl)
    exact ⟨a, ha, hid, hreason⟩

/-- A request that was let through was allowed by the local policy, or waited for
an approval that it filed itself, that was decided by `Allow`, and that no other
request waits for. -/
theorem permission_granted_once (h : Runs (Pool.Steps (rules provider)) ⟨{}, []⟩ es P)
    {i : Nat} {r : PermissionRequest} {granted : Granted}
    (hi : P.threads[i]? = some (.ret (.permission r granted))) (hallowed : granted.allowed = true) :
    (∃ d ∈ P.state.pushed, policyDecision provider r.permission r.autonomy = some d ∧
      d.decision = .allow) ∨
    ∃ a ∈ P.state.approvals, a.toNewApproval = r.filing ∧ a.status = .allowed ∧
      (∃ d ∈ P.state.decisions, Shows a d ∧ d.audit.event = .allow) ∧
      ∀ j p, P.threads[j]? = some p → waitsFor p = some a.id → j = i := by
  have hP := reached_of_run h
  obtain ⟨hlocal, hfiled⟩ := hP.stands.answer (ensures provider) (List.mem_of_getElem? hi)
  cases happroval : granted.approval with
  | none =>
      obtain ⟨d, hpolicy, hallow, hd⟩ := hlocal happroval hallowed
      exact .inl ⟨d, hd, hpolicy, hallow⟩
  | some id =>
      obtain ⟨a, ha, rfl, hfiling, hstatus⟩ := hfiled id happroval
      obtain ⟨d, hd, hshows⟩ := hP.stands.state.decided ha (by simp [hstatus hallowed])
      have hlegal := hP.stands.state.legal d hd
      rw [← hshows.status, hstatus hallowed] at hlegal
      have hevent : d.audit.event = .allow := nextApproval_allowed hlegal
      refine .inr ⟨a, ha, hfiling, hstatus hallowed, ⟨d, hd, hshows, hevent⟩, ?_⟩
      exact fun j p hj hp => Pool.owned_unique hP.waits hj hi hp happroval

theorem permission_granted_once_edit :
    ∃ a ∈ editPool.state.approvals, a.toNewApproval = editRequest.filing ∧ a.status = .allowed := by
  have hthread : editPool.threads[0]? =
      some (Prog.ret (.permission editRequest ⟨true, some "p"⟩)) := rfl
  obtain ⟨d, hd, -⟩ | ⟨a, ha, hfiling, hstatus, -⟩ :=
    permission_granted_once editRun_runs hthread rfl
  · have hnone : editPool.state.pushed = [] := rfl
    simp [hnone] at hd
  · exact ⟨a, ha, hfiling, hstatus⟩

/-- Only what was past due when a tick read the table is expired, and only the
steps of expired approvals are blocked. -/
theorem expired_was_due (h : Runs (Pool.Steps (rules provider)) ⟨{}, []⟩ es P) :
    (∀ a ∈ P.state.approvals, a.status = .expired → ∃ now ∈ P.state.readings, a.expiresAt < now) ∧
    ∀ step ∈ P.state.blocked, ∃ a ∈ P.state.approvals, a.stepRunId = some step ∧
      a.status = .expired ∧ ∃ now ∈ P.state.readings, a.expiresAt < now := by
  have hinv := (reached_of_run h).stands.state
  refine ⟨hinv.overdue, fun step hstep => ?_⟩
  obtain ⟨a, ha, hlinked, hexpired⟩ := hinv.blocked step hstep
  exact ⟨a, ha, hlinked, hexpired, hinv.overdue a ha hexpired⟩

theorem expired_was_due_step : ∃ a ∈ editPool.state.approvals, a.stepRunId = some "step" ∧
    ∃ now ∈ editPool.state.readings, a.expiresAt < now := by
  have hstep : "step" ∈ editPool.state.blocked := List.mem_of_getElem? (i := 0) rfl
  obtain ⟨a, ha, hlinked, -, hdue⟩ := (expired_was_due editRun_runs).2 "step" hstep
  exact ⟨a, ha, hlinked, hdue⟩

end Flow

/-! ## A tick on its own -/

def isDue (now : String) (a : Approval) : Bool := a.status == .pending && decide (a.expiresAt < now)

def expireDecision (id now : String) : Decision :=
  ⟨id, .expired, now, some "auto-expired", ⟨"system", .expire, now⟩⟩

/-- What the tick makes of a row; the id of the decision is not a column. -/
def expireRow (now : String) (a : Approval) : Approval := a.decide (expireDecision a.id now)

theorem eval_bind {α β σ ω : Type} {ρ : ω → Type} {κ : Type} (run : (op : ω) → σ → σ × ρ op)
    (p : Prog ω ρ κ α) (f : α → Prog ω ρ κ β) (s : σ) :
    (p.bind f).eval run s = (f (p.eval run s).2).eval run (p.eval run s).1 := by
  induction p generalizing s with
  | ret value => rfl
  | call keys op next ih => simp only [Prog.call_bind, Prog.eval, ih]

section Tick

variable {db : ApprovalDb} {input : Input}

theorem eval_answerApproval (hdone : input.done = true) (hanswered : input.answered = true)
    (hids : (db.approvals.map Approval.id).Nodup) {a : Approval} (ha : a ∈ db.approvals)
    (hpending : a.status = .pending) :
    (answerApproval a.id .expire (some "auto-expired") "system").eval (exec input) db =
      ({ db with
         approvals := updateWhere (fun b => b.id == a.id) (expireRow input.now) db.approvals
         decisions := db.decisions ++ [expireDecision a.id input.now] }, some true) := by
  have hread : exec input (.readStatus a.id) db = (db, some (some .pending)) := by
    have hfound : db.approval a.id = some a := lookup_of_mem hids ha
    simp [exec, Input.answer, hdone, hanswered, hfound, hpending]
  have hany : db.approvals.any (ApprovalDb.isPending a.id) = true :=
    List.any_eq_true.mpr ⟨a, ha, by simp [ApprovalDb.isPending, hpending]⟩
  have hrows : updateWhere (ApprovalDb.isPending a.id) (·.decide (expireDecision a.id input.now))
      db.approvals = updateWhere (fun b => b.id == a.id) (expireRow input.now) db.approvals := by
    simp only [updateWhere]
    refine List.map_congr_left fun b hb => ?_
    by_cases hid : b.id = a.id
    · obtain rfl := row_unique hids hb ha hid
      simp [ApprovalDb.isPending, hpending, expireRow]
    · simp [ApprovalDb.isPending, hid]
  have hdecide : exec input (.decide a.id .expire .expired (some "auto-expired") "system") db =
      ({ db with
         approvals := updateWhere (fun b => b.id == a.id) (expireRow input.now) db.approvals
         decisions := db.decisions ++ [expireDecision a.id input.now] }, some true) := by
    rw [← hrows]
    simp [exec, Input.answer, hdone, hanswered, ApprovalDb.decide, hany, expireDecision]
  simp only [answerApproval, ask, Prog.bind_eq, Prog.call_bind, Prog.ret_bind, Prog.eval, hread,
    nextApproval, hdecide]

theorem eval_blockLinked (hdone : input.done = true) (hanswered : input.answered = true)
    (stepRunId : Option String) : (blockLinked stepRunId).eval (exec input) db =
      ({ db with blocked := db.blocked ++ stepRunId.toList }, ()) := by
  cases stepRunId with
  | none => simp [blockLinked, Prog.eval]
  | some step =>
      have hblock : exec input (.blockStepAndRun step) db =
          ({ db with blocked := db.blocked ++ [step] }, some ()) := by
        simp [exec, Input.answer, hdone, hanswered]
      simp [blockLinked, ask, Prog.eval, hblock]

theorem eval_expireRows (hdone : input.done = true) (hanswered : input.answered = true)
    {due : List Approval} (count : Nat) (hids : (db.approvals.map Approval.id).Nodup)
    (hdue : (due.map Approval.id).Nodup)
    (hpending : ∀ a ∈ due, a ∈ db.approvals ∧ a.status = .pending) :
    (expireRows (due.map fun a => (a.id, a.stepRunId)) count).eval (exec input) db =
      ({ db with
         approvals := updateWhere (fun b => due.any (·.id == b.id)) (expireRow input.now)
           db.approvals
         decisions := db.decisions ++ due.map fun a => expireDecision a.id input.now
         blocked := db.blocked ++ due.filterMap (·.stepRunId) }, count + due.length) := by
  induction due generalizing db count with
  | nil => simp [expireRows, Prog.eval, updateWhere]
  | cons a rest ih =>
      obtain ⟨ha, hopen⟩ := hpending a List.mem_cons_self
      rw [List.map_cons, List.nodup_cons] at hdue
      have hothers : ∀ b ∈ rest, b.id ≠ a.id :=
        fun b hb heq => hdue.1 (List.mem_map.mpr ⟨b, hb, heq⟩)
      have hstill : ∀ b ∈ rest, b ∈ updateWhere (fun b => b.id == a.id) (expireRow input.now)
          db.approvals ∧ b.status = .pending := by
        intro b hb
        obtain ⟨hb', hopen'⟩ := hpending b (List.mem_cons_of_mem _ hb)
        exact ⟨mem_updateWhere_of_not hb' (by simpa using hothers b hb), hopen'⟩
      have hids' : ((updateWhere (fun b => b.id == a.id) (expireRow input.now)
          db.approvals).map Approval.id).Nodup := by
        have hkeys : (updateWhere (fun b => b.id == a.id) (expireRow input.now)
            db.approvals).map Approval.id = db.approvals.map Approval.id :=
          map_updateWhere_of_key (by intro row; rfl) _
        rwa [hkeys]
      have hrows : updateWhere (fun b => rest.any (·.id == b.id)) (expireRow input.now)
          (updateWhere (fun b => b.id == a.id) (expireRow input.now) db.approvals) =
            updateWhere (fun b => (a :: rest).any (·.id == b.id)) (expireRow input.now)
              db.approvals := by
        simp only [updateWhere, List.map_map]
        refine List.map_congr_left fun b _ => ?_
        by_cases hid : b.id = a.id
        · have hnot : (rest.any fun c => c.id == (expireRow input.now b).id) = false := by
            rw [List.any_eq_false]
            intro c hc
            simpa [expireRow, Approval.decide, hid] using hothers c hc
          simp only [Function.comp_apply, hid, beq_self_eq_true, if_true, hnot, Bool.false_eq_true,
            if_false, List.any_cons, Bool.true_or]
        · have hid' : ¬ a.id = b.id := fun heq => hid heq.symm
          simp [hid, hid']
      rw [List.map_cons, expireRows, Prog.bind_eq, eval_bind,
        eval_answerApproval hdone hanswered hids ha hopen]
      dsimp only
      rw [Prog.bind_eq, eval_bind, eval_blockLinked hdone hanswered,
        ih (count + 1) hids' hdue.2 hstill, hrows]
      cases hstep : a.stepRunId <;> simp [hstep, Nat.add_assoc, Nat.add_comm 1]

end Tick

end AgentGrid.Store.Approvals
