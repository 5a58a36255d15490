import AgentGrid.Workflow.Effects

/-!
# The account of a run

The tasks created for a step, by cause, beside the `attempts` its row counts,
and what each transaction of a tick does to that account.
-/

namespace AgentGrid.Workflow

open AgentGrid.Foundation

namespace Cause

def isRetry : Cause → Bool
  | .retry _ => true
  | .activation | .rejection _ _ => false

def isRejection : Cause → Bool
  | .rejection _ _ => true
  | .activation | .retry _ => false

def rejectedBy (verifier : String) : Cause → Bool
  | .rejection v _ => v == verifier
  | .activation | .retry _ => false

end Cause

/-- The tasks of a step by cause, and the re-runs it caused as a verifier. -/
structure Tally where
  activations : Nat
  retries : Nat
  reruns : Nat
  rejections : Nat

namespace World

def tasksOf (w : World) (k : String) : Nat := w.spawned.countP fun s => s.step == k

def tally (w : World) (k : String) : Tally where
  activations := w.spawned.countP fun s => s.step == k && s.cause == .activation
  retries := w.spawned.countP fun s => s.step == k && s.cause.isRetry
  reruns := w.spawned.countP fun s => s.step == k && s.cause.isRejection
  rejections := w.spawned.countP fun s => s.cause.rejectedBy k

variable {w w' : World}

theorem tasksOf_eq (w : World) (k : String) :
    w.tasksOf k = (w.tally k).activations + (w.tally k).retries + (w.tally k).reruns := by
  unfold tasksOf tally
  induction w.spawned with
  | nil => rfl
  | cons s rest ih =>
      dsimp only at ih ⊢
      simp only [List.countP_cons, ih]
      cases s.step == k <;> cases s.cause <;> simp [Cause.isRetry, Cause.isRejection] <;> omega

theorem tally_congr (h : w'.spawned = w.spawned) (k : String) : w'.tally k = w.tally k := by
  unfold tally
  rw [h]

theorem tally_spawn (step : String) (cause : Cause) (req : Store.CreateTaskRequest)
    (task stamp k : String) :
    (w.spawn step cause req task stamp).tally k =
      { activations := (w.tally k).activations + if step == k && cause == .activation then 1 else 0
        retries := (w.tally k).retries + if step == k && cause.isRetry then 1 else 0
        reruns := (w.tally k).reruns + if step == k && cause.isRejection then 1 else 0
        rejections := (w.tally k).rejections + if cause.rejectedBy k then 1 else 0 } := by
  simp [tally, spawn, List.countP_append, List.countP_singleton]

end World

/-- What a step has spent of its budget. -/
structure Spent (row : WorkflowStepRun) (t : Tally) : Prop where
  claimed : t.retries + t.reruns ≤ row.attempts
  bounded : t.retries + t.reruns + 1 ≤
    max 1 (row.step.maxAttempts.getD 1) + if t.reruns = 0 then 0 else 1
  optedIn : row.step.retryable.getD false = false → t.retries + t.reruns = 0
  activated : t.activations ≤ t.rejections + 1
  waiting : row.status = .pending → t.activations ≤ t.rejections
  looping : row.step.role ≠ .verifier ∨ row.step.retryable.getD false = true →
    t.rejections = 0

/-- The account of a run: `rows` is what a tick has read of its steps, and
`gap` the step whose first task is created and not yet linked. -/
structure Books (rows : List WorkflowStepRun) (gap : Option String) (w : World) : Prop where
  keyed : Keyed w.steps
  read : ∀ row ∈ rows, ∃ r, w.step row.id = some r ∧ r.step = row.step
  known : ∀ s ∈ w.spawned, ∃ row, w.step s.step = some row
  fed : ∀ s ∈ w.spawned, ∀ v, s.cause.rejectedBy v = true →
    ∃ row u, w.step v = some row ∧ w.step s.step = some u ∧
      u.step.id = row.step.dependsOn.head?.getD ""
  spent : ∀ k row, w.step k = some row → Spent row (w.tally k)
  linked : ∀ k row, w.step k = some row → gap ≠ some k →
    (w.tally k).activations = 0 ∨ w.taskOf k ≠ none

namespace Books

variable {rows : List WorkflowStepRun} {gap gap' : Option String} {w w' : World}

theorem of_unknown (h : Books rows gap w) {k : String} (hk : w.step k = none) :
    w.tally k = ⟨0, 0, 0, 0⟩ := by
  have hstep : ∀ s ∈ w.spawned, s.step ≠ k := by
    rintro s hs rfl
    obtain ⟨row, hrow⟩ := h.known s hs
    rw [hrow] at hk
    cases hk
  have hrejected : ∀ s ∈ w.spawned, s.cause.rejectedBy k ≠ true := by
    intro s hs hby
    obtain ⟨row, _, hrow, _⟩ := h.fed s hs k hby
    rw [hrow] at hk
    cases hk
  unfold World.tally
  congr 1 <;> refine List.countP_eq_zero.mpr fun s hs => ?_
  · simp [hstep s hs]
  · simp [hstep s hs]
  · simp [hstep s hs]
  · exact hrejected s hs

/-- The account when no task is created: every row keeps what it is, counts at
least the claims made for it, and waits only within its activations. -/
theorem frame (h : Books rows gap w) (hspawned : w'.spawned = w.spawned)
    (hkeyed : Keyed w'.steps)
    (hrows : ∀ k row, w.step k = some row →
      ∃ row', w'.step k = some row' ∧ row'.step = row.step ∧
        (w.tally k).retries + (w.tally k).reruns ≤ row'.attempts ∧
        (row'.status = .pending → (w.tally k).activations ≤ (w.tally k).rejections))
    (hlinks : ∀ k row, w.step k = some row → gap' ≠ some k →
      (w.tally k).activations = 0 ∨ w'.taskOf k ≠ none) :
    Books rows gap' w' := by
  refine ⟨hkeyed, fun row hrow => ?_, fun s hs => ?_, fun s hs v hv => ?_, fun k row' hrow' => ?_,
    fun k row' hrow' hgap => ?_⟩
  · obtain ⟨r, hr, hstep⟩ := h.read row hrow
    obtain ⟨r', hr', hstep', _⟩ := hrows _ r hr
    exact ⟨r', hr', hstep'.trans hstep⟩
  · rw [hspawned] at hs
    obtain ⟨row, hrow⟩ := h.known s hs
    obtain ⟨row', hrow', _⟩ := hrows _ row hrow
    exact ⟨row', hrow'⟩
  · rw [hspawned] at hs
    obtain ⟨row, u, hrow, hu, hhead⟩ := h.fed s hs v hv
    obtain ⟨row', hrow', hstep, _⟩ := hrows _ row hrow
    obtain ⟨u', hu', hustep, _⟩ := hrows _ u hu
    exact ⟨row', u', hrow', hu', by rw [hstep, hustep, hhead]⟩
  · rw [World.tally_congr hspawned]
    cases hk : w.step k with
    | none =>
        rw [h.of_unknown hk]
        exact ⟨Nat.zero_le _, by simp, fun _ => rfl, Nat.zero_le _, fun _ => le_rfl, fun _ => rfl⟩
    | some row =>
        obtain ⟨found, hfound, hstep, hclaimed, hwaiting⟩ := hrows k row hk
        rw [hfound] at hrow'
        cases hrow'
        have hspent := h.spent k row hk
        exact ⟨hclaimed, by rw [hstep]; exact hspent.bounded, by rw [hstep]; exact hspent.optedIn,
          hspent.activated, hwaiting, by rw [hstep]; exact hspent.looping⟩
  · rw [World.tally_congr hspawned]
    cases hk : w.step k with
    | none =>
        rw [h.of_unknown hk]
        exact .inl rfl
    | some row => exact hlinks k row hk hgap

end Books

/-- What happens to a run between two transactions of its only tick. -/
structure Idle (w w' : World) : Prop where
  spawned : w'.spawned = w.spawned
  keyed : Keyed w.steps → Keyed w'.steps
  rows : ∀ k row, w.step k = some row →
    ∃ row', w'.step k = some row' ∧ row'.step = row.step ∧ row'.attempts = row.attempts ∧
      (row'.status = .pending → row.status = .pending)
  links : ∀ k row, w.step k = some row → w'.taskOf k = w.taskOf k

namespace Idle

variable {w w' w'' : World}

theorem refl (w : World) : Idle w w :=
  ⟨rfl, id, fun _ row hrow => ⟨row, hrow, rfl, rfl, id⟩, fun _ _ _ => rfl⟩

theorem trans (h : Idle w w') (h' : Idle w' w'') : Idle w w'' := by
  refine ⟨h'.spawned.trans h.spawned, h'.keyed ∘ h.keyed, fun k row hrow => ?_,
    fun k row hrow => ?_⟩
  · obtain ⟨row', hrow', hstep, hattempts, hpending⟩ := h.rows k row hrow
    obtain ⟨row'', hrow'', hstep', hattempts', hpending'⟩ := h'.rows k row' hrow'
    exact ⟨row'', hrow'', hstep'.trans hstep, hattempts'.trans hattempts, hpending ∘ hpending'⟩
  · obtain ⟨row', hrow', _⟩ := h.rows k row hrow
    exact (h'.links k row' hrow').trans (h.links k row hrow)

theorem tally (h : Idle w w') (k : String) : w'.tally k = w.tally k :=
  World.tally_congr h.spawned k

theorem books {rows : List WorkflowStepRun} {gap : Option String} (h : Idle w w')
    (hbooks : Books rows gap w) : Books rows gap w' := by
  refine hbooks.frame h.spawned (h.keyed hbooks.keyed) (fun k row hrow => ?_)
    fun k row hrow hgap => ?_
  · obtain ⟨row', hrow', hstep, hattempts, hpending⟩ := h.rows k row hrow
    have hspent := hbooks.spent k row hrow
    exact ⟨row', hrow', hstep, hattempts ▸ hspent.claimed, fun hrow => hspent.waiting (hpending hrow)⟩
  · rw [h.links k row hrow]
    exact hbooks.linked k row hrow hgap

end Idle

theorem idle_exec (input : Input) {tx : Tx} (h : tx.benign) (w : World) :
    Idle w (exec input tx w).1 := by
  refine ⟨exec_spawned input tx w ?_, exec_keyed input tx, fun k row hrow => ?_,
    fun k row hrow => ?_⟩
  · rintro step cause req rfl
    cases h
  · obtain ⟨row', hrow', hmove⟩ := exec_row input tx hrow
    refine ⟨row', hrow', hmove.step, ?_, fun hpending => ?_⟩
    · obtain hsame | hcounts := hmove.attempts
      · exact hsame
      · cases tx with
        | claimFailure step seen failed => cases h
        | claimRerun worker seen => cases h
        | setStepAttempts step attempts => cases h
        | _ => cases hcounts
    · obtain hsame | hmoves := hmove.status
      · rw [← hsame, hpending]
      · rw [hpending] at hmoves
        cases tx with
        | cancelWorkflowRun => cases hmoves.2
        | blockStepAndRun step => cases hmoves.2.2
        | claimEnd step status =>
            obtain ⟨_, _, rfl⟩ := hmoves
            cases h
        | resetWedged step => cases h
        | setStepStatus step status => cases h
        | claimActivation step => cases h
        | _ => cases hmoves
  · obtain hsame | ⟨task, rfl, _⟩ := exec_taskOf input tx hrow
    · exact hsame
    · cases h

/-- The transactions that neither create a task nor give an attempt back nor let
a step wait again. -/
def Tx.quiet : Tx → Prop
  | .createTask _ _ _ | .setStepAttempts _ _ | .resetWedged _ => False
  | .setStepStatus _ status | .claimEnd _ status => status ≠ .pending
  | _ => True

namespace Books

variable {rows : List WorkflowStepRun} {gap : Option String} {w : World}

theorem quiet (h : Books rows gap w) (input : Input) (tx : Tx) (htx : tx.quiet) :
    Books rows gap (exec input tx w).1 := by
  refine h.frame (exec_spawned input tx w ?_) (exec_keyed input tx h.keyed) (fun k row hrow => ?_)
    fun k row hrow hgap => ?_
  · rintro step cause req rfl
    cases htx
  · obtain ⟨row', hrow', hmove⟩ := exec_row input tx hrow
    have hspent := h.spent k row hrow
    refine ⟨row', hrow', hmove.step, ?_, fun hpending => ?_⟩
    · have hclaimed := hspent.claimed
      obtain hsame | hcounts := hmove.attempts
      · rw [hsame]
        exact hclaimed
      · cases tx with
        | claimFailure step seen failed =>
            obtain ⟨_, hold, hnew⟩ := hcounts
            omega
        | claimRerun worker seen =>
            obtain ⟨_, hold, hnew⟩ := hcounts
            omega
        | setStepAttempts step attempts => cases htx
        | _ => cases hcounts
    · obtain hsame | hmoves := hmove.status
      · exact hspent.waiting (by rw [← hsame, hpending])
      · rw [hpending] at hmoves
        cases tx with
        | setStepStatus step status => exact absurd hmoves.2.symm htx
        | claimEnd step status => exact absurd hmoves.2.2.symm htx
        | resetWedged step => cases htx
        | claimActivation step => cases hmoves.2.2
        | cancelWorkflowRun => cases hmoves.2
        | blockStepAndRun step => cases hmoves.2.2
        | _ => cases hmoves
  · obtain hsame | ⟨task, _, hlink⟩ := exec_taskOf input tx hrow
    · rw [hsame]
      exact h.linked k row hrow hgap
    · exact .inr (by rw [hlink]; nofun)

theorem benign (h : Books rows gap w) (input : Input) (tx : Tx) (htx : tx.benign) :
    Books rows gap (exec input tx w).1 :=
  (idle_exec input htx w).books h

/-- An attempt of the step was claimed at `seen` and no task created for it. -/
def Claimed (k : String) (seen : Nat) (step : WorkflowStep) (w : World) : Prop :=
  ∃ row, w.step k = some row ∧ row.step = step ∧ row.attempts = seen + 1 ∧
    (w.tally k).retries + (w.tally k).reruns ≤ seen

/-- The step left `pending` for a task that is not created yet. -/
def Activating (k : String) (w : World) : Prop :=
  ∃ row, w.step k = some row ∧ row.status ≠ .pending ∧
    (w.tally k).activations ≤ (w.tally k).rejections

theorem Claimed.idle {k : String} {seen : Nat} {step : WorkflowStep} {w' : World}
    (h : Claimed k seen step w) (hidle : Idle w w') : Claimed k seen step w' := by
  obtain ⟨row, hrow, hstep, hattempts, hclaims⟩ := h
  obtain ⟨row', hrow', hstep', hattempts', _⟩ := hidle.rows k row hrow
  exact ⟨row', hrow', hstep'.trans hstep, hattempts'.trans hattempts, by
    rw [hidle.tally]
    exact hclaims⟩

theorem Activating.idle {k : String} {w' : World} (h : Activating k w) (hidle : Idle w w') :
    Activating k w' := by
  obtain ⟨row, hrow, hopen, hactivations⟩ := h
  obtain ⟨row', hrow', _, _, hpending⟩ := hidle.rows k row hrow
  exact ⟨row', hrow', fun hwaits => hopen (hpending hwaits), by
    rw [hidle.tally]
    exact hactivations⟩

/-- The won compare-and-set on `attempts`, in either of its two uses. -/
theorem claimed (h : Books rows gap w) {row : WorkflowStepRun} (hread : row ∈ rows)
    (hwon : (w.claimAttempts row.id row.attempts).2 = true) :
    Claimed row.id row.attempts row.step (w.claimAttempts row.id row.attempts).1 := by
  obtain ⟨found, hfound, hseen, hnow⟩ := World.claim_won hwon fun _ => rfl
  obtain ⟨r, hr, hstep⟩ := h.read row hread
  rw [hfound] at hr
  cases hr
  have hclaims := (h.spent row.id found hfound).claimed
  rw [beq_iff_eq.mp hseen] at hclaims
  have htally : (w.claimAttempts row.id row.attempts).1.tally row.id = w.tally row.id :=
    World.tally_congr (World.claim_frame (·.spawned) (fun _ => rfl) w row.id _ _) _
  exact ⟨_, hnow, hstep, rfl, by rw [htally]; exact hclaims⟩

theorem activating (h : Books rows gap w) {k : String} {now : Nat}
    (hwon : (w.claimActivation k now).2 = true) :
    Activating k (w.claimActivation k now).1 := by
  obtain ⟨found, hfound, hpending, hnow⟩ := World.claim_won hwon fun _ => rfl
  have htally : (w.claimActivation k now).1.tally k = w.tally k :=
    World.tally_congr (World.claim_frame (·.spawned) (fun _ => rfl) w k _ _) _
  refine ⟨_, hnow, nofun, ?_⟩
  rw [htally]
  exact (h.spent k found hfound).waiting (beq_iff_eq.mp hpending)

theorem release {k : String} {seen : Nat} {step : WorkflowStep} (h : Books rows gap w)
    (hclaimed : Claimed k seen step w) (input : Input) :
    Books rows gap (exec input (.setStepAttempts k seen) w).1 := by
  obtain ⟨row, hrow, _, _, hclaims⟩ := hclaimed
  refine h.frame rfl (exec_keyed input _ h.keyed) (fun j r hr => ?_) h.linked
  have hspent := h.spent j r hr
  by_cases hj : j = k
  · subst hj
    refine ⟨_, World.step_updateStep_self hr ?_, rfl, hclaims, hspent.waiting⟩
    exact fun _ => rfl
  · refine ⟨r, (World.step_updateStep_ne hj ?_).trans hr, rfl, hspent.claimed, hspent.waiting⟩
    exact fun _ => rfl

theorem wait {k : String} (h : Books rows gap w)
    (hk : (w.tally k).activations ≤ (w.tally k).rejections) (input : Input) :
    Books rows gap (exec input (.setStepStatus k .pending) w).1 := by
  refine h.frame rfl (exec_keyed input _ h.keyed) (fun j r hr => ?_) h.linked
  have hspent := h.spent j r hr
  by_cases hj : j = k
  · subst hj
    refine ⟨_, World.step_updateStep_self hr ?_, rfl, hspent.claimed, fun _ => hk⟩
    exact fun _ => rfl
  · refine ⟨r, (World.step_updateStep_ne hj ?_).trans hr, rfl, hspent.claimed, hspent.waiting⟩
    exact fun _ => rfl

theorem reset {k : String} {row : WorkflowStepRun} (h : Books rows none w)
    (hk : w.step k = some row) (hlink : w.taskOf k = none) (input : Input) :
    Books rows none (exec input (.resetWedged k) w).1 := by
  have hzero : (w.tally k).activations = 0 := by
    obtain hzero | hlinked := h.linked k row hk nofun
    · exact hzero
    · exact absurd hlink hlinked
  refine h.frame (exec_spawned input _ w fun _ _ _ => nofun) (exec_keyed input _ h.keyed)
    (fun j r hr => ?_) fun j r hr hgap => ?_
  · obtain ⟨r', hr', hmove⟩ := exec_row input (.resetWedged k) hr
    have hspent := h.spent j r hr
    refine ⟨r', hr', hmove.step, ?_, fun hpending => ?_⟩
    · obtain hsame | hcounts := hmove.attempts
      · rw [hsame]
        exact hspent.claimed
      · cases hcounts
    · obtain hsame | ⟨hid, _⟩ := hmove.status
      · exact hspent.waiting (by rw [← hsame, hpending])
      · rw [World.id_of_step hr] at hid
        rw [← hid, hzero]
        exact Nat.zero_le _
  · obtain hsame | ⟨task, hset, _⟩ := exec_taskOf input (.resetWedged k) hr
    · rw [hsame]
      exact h.linked j r hr hgap
    · cases hset

/-- The account when a task is created, from the tally it leaves. -/
theorem spawn {step : String} {cause : Cause} (h : Books rows gap w) {row : WorkflowStepRun}
    (hrow : w.step step = some row)
    (hfed : ∀ v, cause.rejectedBy v = true →
      ∃ r, w.step v = some r ∧ row.step.id = r.step.dependsOn.head?.getD "")
    (hgap : ∀ k, gap' ≠ some k → gap ≠ some k ∧ (cause = .activation → step ≠ k))
    (req : Store.CreateTaskRequest) (task stamp : String)
    (hspent : ∀ k r, w.step k = some r →
      Spent r ((w.spawn step cause req task stamp).tally k)) :
    Books rows gap' (w.spawn step cause req task stamp) := by
  refine ⟨h.keyed, h.read, fun s hs => ?_, fun s hs v hv => ?_, hspent, fun k r hr hk => ?_⟩
  · obtain hold | hnew := List.mem_append.mp hs
    · exact h.known s hold
    · cases List.mem_singleton.mp hnew
      exact ⟨row, hrow⟩
  · obtain hold | hnew := List.mem_append.mp hs
    · exact h.fed s hold v hv
    · cases List.mem_singleton.mp hnew
      obtain ⟨r, hr, hhead⟩ := hfed v hv
      exact ⟨r, row, hr, hrow, hhead⟩
  · obtain ⟨hold, hnew⟩ := hgap k hk
    have hsame : (step == k && cause == .activation) = false := by
      rw [Bool.and_eq_false_iff, beq_eq_false_iff_ne, beq_eq_false_iff_ne]
      by_cases hcause : cause = .activation
      · exact .inl (hnew hcause)
      · exact .inr hcause
    rw [World.tally_spawn, hsame]
    exact h.linked k r hr hold

theorem retry {k : String} {seen : Nat} {step : WorkflowStep} (h : Books rows none w)
    (hclaimed : Claimed k seen step w) (hretry : step.retryable.getD false = true)
    (hmax : seen + 1 < step.maxAttempts.getD 1) (failed : String)
    (req : Store.CreateTaskRequest) (task stamp : String) :
    Books rows none (w.spawn k (.retry failed) req task stamp) := by
  obtain ⟨row, hrow, rfl, hattempts, hclaims⟩ := hclaimed
  refine h.spawn hrow ?_ ?_ req task stamp fun j r hr => ?_
  · exact fun v hv => by cases hv
  · exact fun j hj => ⟨hj, nofun⟩
  have hspent := h.spent j r hr
  rw [World.tally_spawn]
  by_cases hj : k = j
  · subst hj
    rw [hrow] at hr
    cases hr
    simp only [Cause.isRetry, Cause.isRejection, Cause.rejectedBy, beq_self_eq_true, Bool.and_true,
      Bool.and_false, if_true, Bool.false_eq_true, if_false, Nat.add_zero,
      beq_eq_false_iff_ne.mpr (show Cause.retry failed ≠ .activation from nofun)]
    refine ⟨?_, ?_, ?_, hspent.activated, hspent.waiting, hspent.looping⟩
    · dsimp only
      omega
    · dsimp only
      omega
    · rw [hretry]
      nofun
  · simpa [hj, Cause.rejectedBy] using hspent

theorem rerun {u v : String} {seen : Nat} {worker verifier : WorkflowStep}
    (h : Books rows none w) (hclaimed : Claimed u seen worker w)
    (hretry : worker.retryable.getD false = true) (hmax : seen < worker.maxAttempts.getD 1)
    {row : WorkflowStepRun} (hv : w.step v = some row) (hverifier : row.step = verifier)
    (hrole : verifier.role = .verifier) (hfast : verifier.retryable.getD false = false)
    (hhead : worker.id = verifier.dependsOn.head?.getD "") (rejected : String)
    (req : Store.CreateTaskRequest) (task stamp : String) :
    Books rows none (w.spawn u (.rejection v rejected) req task stamp) := by
  obtain ⟨found, hfound, rfl, hattempts, hclaims⟩ := hclaimed
  subst hverifier
  have huv : u ≠ v := by
    rintro rfl
    rw [hfound] at hv
    cases hv
    rw [hretry] at hfast
    cases hfast
  refine h.spawn hfound ?_ ?_ req task stamp fun j r hr => ?_
  · intro j hj
    rw [Cause.rejectedBy, beq_iff_eq] at hj
    exact ⟨row, hj ▸ hv, hhead⟩
  · exact fun j hj => ⟨hj, nofun⟩
  have hspent := h.spent j r hr
  rw [World.tally_spawn]
  by_cases hj : u = j
  · subst hj
    rw [hfound] at hr
    cases hr
    simp only [Cause.isRetry, Cause.isRejection, Cause.rejectedBy, beq_self_eq_true, Bool.and_true,
      Bool.and_false, if_true, Bool.false_eq_true, if_false, Nat.add_zero,
      beq_eq_false_iff_ne.mpr (show Cause.rejection v rejected ≠ .activation from nofun),
      beq_eq_false_iff_ne.mpr huv.symm]
    refine ⟨?_, ?_, ?_, hspent.activated, hspent.waiting, hspent.looping⟩
    · dsimp only
      omega
    · dsimp only
      rw [if_neg (Nat.succ_ne_zero _)]
      omega
    · rw [hretry]
      nofun
  · by_cases hjv : v = j
    · subst hjv
      rw [hv] at hr
      cases hr
      have hactivated := hspent.activated
      simp only [beq_eq_false_iff_ne.mpr hj, Bool.false_and, Cause.rejectedBy, beq_self_eq_true,
        if_true, Bool.false_eq_true, if_false, Nat.add_zero]
      refine ⟨hspent.claimed, hspent.bounded, hspent.optedIn, Nat.le_succ_of_le hactivated,
        fun _ => hactivated, ?_⟩
      rintro (hother | hother)
      · exact absurd hrole hother
      · rw [hfast] at hother
        cases hother
    · simpa [hj, hjv, Cause.rejectedBy] using hspent

theorem activate {k : String} (h : Books rows none w) (hactive : Activating k w)
    (req : Store.CreateTaskRequest) (task stamp : String) :
    Books rows (some k) (w.spawn k .activation req task stamp) := by
  obtain ⟨row, hrow, hopen, hactivations⟩ := hactive
  refine h.spawn hrow ?_ ?_ req task stamp fun j r hr => ?_
  · exact fun v hv => by cases hv
  · exact fun j hj => ⟨nofun, fun _ hjk => hj (by rw [hjk])⟩
  have hspent := h.spent j r hr
  rw [World.tally_spawn]
  by_cases hj : k = j
  · subst hj
    rw [hrow] at hr
    cases hr
    simp only [Cause.isRetry, Cause.isRejection, Cause.rejectedBy, beq_self_eq_true, Bool.and_true,
      Bool.and_false, if_true, Bool.false_eq_true, if_false, Nat.add_zero]
    exact ⟨hspent.claimed, hspent.bounded, hspent.optedIn, Nat.succ_le_succ hactivations,
      fun hpending => absurd hpending hopen, hspent.looping⟩
  · simpa [hj, Cause.rejectedBy] using hspent

theorem link {k task : String} (h : Books rows (some k) w) (input : Input) :
    Books rows none (exec input (.setRoleRunTask k task) w).1 := by
  refine h.frame rfl (exec_keyed input _ h.keyed) (fun j r hr => ?_) fun j r hr _ => ?_
  · have hspent := h.spent j r hr
    exact ⟨r, hr, rfl, hspent.claimed, hspent.waiting⟩
  · by_cases hj : j = k
    · exact .inr (by unfold exec; simp [World.setRoleRunTask, hj])
    · have hlinked := h.linked j r hr fun hk => hj (Option.some.inj hk).symm
      unfold exec
      simpa [World.setRoleRunTask, hj] using hlinked

end Books

end AgentGrid.Workflow
