import AgentGrid.Workflow.Custody

/-!
# One task at a time for a step

As long as a claim is won only while no other tick holds the step, and on the
row that the tick has read, a failed task is followed by one task and a step has
one unfinished task.  The compare-and-set on `attempts` does not see to that by
itself: between the claim and the link the row already shows the new counter
beside the old task.
-/

namespace AgentGrid.Workflow

open AgentGrid.Foundation

/-- A call that waits for this transaction may be lost: what it holds is as no
call had claimed it. -/
def Tx.recoverable (w : World) : Tx → Bool
  | .setRoleRunTask _ _ => false
  | .setStepStatus _ status => !status.active
  | .createTask k .activation _ => (w.taskOf k).isNone
  | _ => true

structure Granted (keys : List String) (tx : Tx) (input : Input) (w : World) : Prop where
  sane : Sane w
  timely : ∀ k, tx.wins input w = some k → tx.timely w = true
  quiet : ∀ k, tx.wins input w = some k → k ∉ keys → Quiet k w

structure Owed (keys : List String) (tx : Tx) (input : Input) (keys' : List String)
    (w w' : World) : Prop where
  sane : Sane w'
  gained : ∀ k ∈ keys', k ∈ keys ∨ tx.wins input w = some k
  writes : ∀ k, tx.writes k → k ∈ keys
  quiet : ∀ k, k ∉ keys' → (k ∉ keys → Quiet k w) → Quiet k w'

/-- The terms of the calls: each writes to the steps that it holds, and leaves
them quiet when it lets go of them. -/
def stepTerms : Prog.Terms Tx String World Input where
  rely keys w w' := Grows w w' ∧ ∀ k ∈ keys, Calm k w w'
  stage keys tx w := tx.recoverable w = true → ∀ k ∈ keys, Quiet k w
  grant := Granted
  duty := Owed

abbrev Owns {α : Type} (p : Program α) (w : World) : Prop :=
  p.Meets exec stepTerms (fun _ _ => True) w

section Program

variable {α : Type} {keys keys' : List String} {tx : Tx} {input : Input} {w : World}

theorem rely_refl (keys : List String) (w : World) : stepTerms.rely keys w w :=
  ⟨.refl w, fun k _ => .refl k w⟩

theorem rely_trans {w' w'' : World} (h : stepTerms.rely keys w w')
    (h' : stepTerms.rely keys w' w'') : stepTerms.rely keys w w'' :=
  ⟨h.1.trans h'.1, fun k hk => (h.2 k hk).trans (h'.2 k hk)⟩

/-- What is owed, from the steps held or won: on every other step the
transaction does nothing. -/
theorem Granted.owed (h : Granted keys tx input w) (hsane : Sane (exec input tx w).1)
    (hgained : ∀ k ∈ keys', k ∈ keys ∨ tx.wins input w = some k)
    (hwrites : ∀ k, tx.writes k → k ∈ keys)
    (hown : ∀ k, k ∉ keys' → k ∈ keys ∨ tx.wins input w = some k →
      Quiet k (exec input tx w).1) :
    Owed keys tx input keys' w (exec input tx w).1 := by
  refine ⟨hsane, hgained, hwrites, fun k hk hquiet => ?_⟩
  by_cases hmine : k ∈ keys ∨ tx.wins input w = some k
  · exact hown k hk hmine
  · rw [not_or] at hmine
    exact (hquiet hmine.1).exec h.sane hmine.2 fun hk => hmine.1 (hwrites k hk)

theorem Owns.ret (value : α) : Owns (.ret value : Program α) w := fun _ _ => trivial

/-- A call made with a fact at hand that nobody else can undo. -/
theorem Owns.hold {f : tx.Reply → Program α} (K : World → Prop) (hk : K w)
    (hstable : ∀ {w w'}, K w → Grows w w' → (∀ k ∈ keys, Calm k w w') → K w')
    (hstage : ∀ {w}, K w → tx.recoverable w = true → ∀ k ∈ keys, Quiet k w)
    (hnext : ∀ w input, K w → Granted keys tx input w →
      Owed keys tx input (f (exec input tx w).2).held w (exec input tx w).1 ∧
        Owns (f (exec input tx w).2) (exec input tx w).1) :
    Owns (hold keys tx >>= f) w := by
  intro w' hrely
  have hk' := hstable hk hrely.1 hrely.2
  exact ⟨hstage hk', fun input hgrant => hnext w' input hk' hgrant⟩

/-- A call made with nothing held. -/
theorem Owns.ask {f : tx.Reply → Program α}
    (hnext : ∀ w input, Granted [] tx input w →
      Owed [] tx input (f (exec input tx w).2).held w (exec input tx w).1 ∧
        Owns (f (exec input tx w).2) (exec input tx w).1) : Owns (ask tx >>= f) w :=
  .hold (fun _ => True) trivial (fun _ _ _ => trivial) (fun _ _ => by simp)
    fun w input _ => hnext w input

theorem Tx.benign.writes (h : tx.benign) (k : String) : ¬ tx.writes k := by
  intro hk
  cases tx with
  | claimEnd step status =>
      have hterminal : status.terminal = true := h
      have hactive := hk.2
      cases status <;> simp_all [WorkflowStepStatus.terminal, WorkflowStepStatus.active]
  | setRoleRunTask step task => cases h
  | setStepStatus step status => cases h
  | createTask step cause req => cases h
  | _ => cases hk

theorem Tx.benign.wins (h : tx.benign) : tx.wins input w = none := by
  cases tx with
  | resetWedged step => cases h
  | claimFailure step seen failed => cases h
  | claimRerun worker seen => cases h
  | claimActivation step => cases h
  | _ => rfl

theorem Tx.benign.sane (h : tx.benign) (hw : Sane w) : Sane (exec input tx w).1 := by
  refine hw.exec input (exec_spawned input tx w ?_) ?_
  · rintro step cause req rfl
    cases h
  · rintro k task rfl
    cases h

theorem Granted.benign (h : Granted [] tx input w) (htx : tx.benign) :
    Owed [] tx input [] w (exec input tx w).1 := by
  refine h.owed (htx.sane h.sane) (by simp) (fun k hk => absurd hk (htx.writes k)) ?_
  rintro k - (hk | hk)
  · cases hk
  · rw [htx.wins] at hk
    cases hk

theorem Owns.of_benign {p : Program α} (h : Benign p) : Owns p w := by
  refine .of_all (fun _ => True) (fun _ _ => trivial) (fun htx _ => ?_) h trivial
  obtain ⟨rfl, htx⟩ := htx
  refine ⟨fun _ => by simp, fun input hgrant => ⟨trivial, fun keys' hkeys' => ?_⟩⟩
  obtain rfl | ⟨_, rfl, _⟩ := hkeys'
  · exact Granted.benign hgrant htx
  · exact Granted.benign hgrant htx

/-- A benign transaction with nothing held before or after it. -/
theorem Owns.benign {f : tx.Reply → Program α} (htx : tx.benign)
    (hheld : ∀ reply, (f reply).held = []) (hf : ∀ w reply, Owns (f reply) w) :
    Owns (Workflow.ask tx >>= f) w := by
  refine .ask fun w input hgrant => ⟨?_, hf _ _⟩
  rw [hheld]
  exact hgrant.benign htx

/-- A held step was won before, and only this transaction writes to it. -/
theorem Granted.keep (h : Granted keys tx input w) (hsane : Sane (exec input tx w).1)
    (hwins : tx.wins input w = none) (hwrites : ∀ k, tx.writes k → k ∈ keys)
    (hsub : ∀ k ∈ keys', k ∈ keys)
    (hown : ∀ k, k ∉ keys' → k ∈ keys → Quiet k (exec input tx w).1) :
    Owed keys tx input keys' w (exec input tx w).1 := by
  refine h.owed hsane (fun k hk => .inl (hsub k hk)) hwrites fun k hk hmine => ?_
  obtain hheld | hwon := hmine
  · exact hown k hk hheld
  · rw [hwins] at hwon
    cases hwon

section Tick

variable {run : WorkflowRun} {steps : List WorkflowStepRun} {l : Progress}
  {row u : WorkflowStepRun} {task : String}

theorem claimAttempts_calm (k id : String) (seen : Nat) :
    Calm k w (w.claimAttempts id seen).1 := by
  obtain hsame | hmoved := World.claim_fst w id (fun row => row.attempts == seen)
    fun row => { row with attempts := seen + 1 }
  · rw [World.claimAttempts, hsame]
    exact .refl k w
  · rw [World.claimAttempts, hmoved]
    refine ⟨fun _ hs _ => hs, rfl, fun row' hrow' _ => ?_⟩
    rw [World.step_updateStep] at hrow'
    · obtain ⟨row, hrow, rfl⟩ := Option.map_eq_some_iff.mp hrow'
      refine ⟨row, hrow, ?_⟩
      split <;> rfl
    · exact fun _ => rfl

theorem claim_any {id : String} {p : WorkflowStepRun → Bool}
    {f : WorkflowStepRun → WorkflowStepRun} (h : (w.claim id p f).2 = true) :
    (w.step id).any p = true := by
  by_contra hlost
  rw [claim_lost hlost] at h
  cases h

theorem owns_closeStep {status : WorkflowStepStatus} (h : Due row.id task w)
    (hstatus : status.active = false) : Owns (closeStep l row status) w := by
  have hwrites : ∀ k, ¬ (Tx.setStepStatus row.id status).writes k := by
    rintro k ⟨_, hactive⟩
    rw [hstatus] at hactive
    cases hactive
  refine .hold _ h (fun hk hgrows hcalm => hk.calm hgrows (hcalm _ (by simp)))
    (fun hk _ k hmem => ?_) fun w input hk hgrant => ⟨?_, .ret _⟩
  · cases List.mem_singleton.mp hmem
    exact hk.quiet
  · refine hgrant.keep ?_ rfl (fun k hk => absurd hk (hwrites k)) (by simp) fun k _ hmem => ?_
    · exact hgrant.sane.exec input rfl nofun
    · cases List.mem_singleton.mp hmem
      exact hk.quiet.exec hgrant.sane nofun (hwrites _)

/-- The creation of a task for a vacant step that the call holds. -/
theorem Granted.create {k : String} {cause : Cause} {req : Store.CreateTaskRequest}
    (h : Granted keys (.createTask k cause req) input w) (hk : Vacant k w)
    (hcause : cause.admits k w) (hwrites : ∀ j, (Tx.createTask k cause req).writes j → j ∈ keys) :
    Owed keys (.createTask k cause req) input keys w
        (exec input (.createTask k cause req) w).1 ∧
      ((∃ e, exec input (.createTask k cause req) w = (w, .error e)) ∨
        exec input (.createTask k cause req) w =
            (w.spawn k cause req input.id input.stamp, .ok input.id) ∧
          Renewed k input.id (w.spawn k cause req input.id input.stamp)) := by
  have howed : Sane (exec input (.createTask k cause req) w).1 →
      Owed keys (.createTask k cause req) input keys w
        (exec input (.createTask k cause req) w).1 :=
    fun hsane => h.keep hsane rfl hwrites (fun _ hj => hj) fun _ hnot hj => absurd hj hnot
  obtain ⟨e, hlost⟩ | ⟨hfresh, hwon⟩ := exec_createTask input w k cause req
  · exact ⟨howed (by rw [hlost]; exact h.sane), .inl ⟨e, hlost⟩⟩
  · exact ⟨howed (by rw [hwon]; exact h.sane.spawn hk hcause),
      .inr ⟨hwon, hk.renewed h.sane hcause hfresh⟩⟩

theorem Renewed.link {k : String} (h : Renewed k task w) (input : Input) :
    Renewed k task (exec input (.setRoleRunTask k task) w).1 ∧
      (exec input (.setRoleRunTask k task) w).1.taskOf k = some task :=
  ⟨⟨h.known, h.others, h.unfollowed, h.created⟩, if_pos rfl⟩

/-- The step left `pending`. -/
def Moving (k : String) (w : World) : Prop :=
  ∀ row, w.step k = some row → row.status ≠ .pending

theorem Moving.calm {k : String} {w' : World} (h : Moving k w) (hcalm : Calm k w w') :
    Moving k w' := by
  intro row' hrow' hpending
  obtain ⟨row, hrow, hstatus⟩ := hcalm.status hrow' hpending rfl
  exact h row hrow hstatus

/-- The last write of a retry and of an activation. -/
theorem owns_link {k : String} {value : α} (h : Renewed k task w) (hmoving : Moving k w) :
    Owns (do
      let _ ← hold [k] (.setRoleRunTask k task)
      pure value) w := by
  refine .hold (fun w => Renewed k task w ∧ Moving k w) ⟨h, hmoving⟩
    (fun hk hgrows hcalm => ?_) (fun _ hrecover => by cases hrecover) fun w input hk hgrant => ?_
  · have hcalm := hcalm k (by simp)
    exact ⟨hk.1.calm hgrows hcalm, hk.2.calm hcalm⟩
  · obtain ⟨hnew, hlink⟩ := hk.1.link input
    refine ⟨hgrant.keep ?_ rfl ?_ (by simp) fun j _ hj => ?_, .ret _⟩
    · refine hgrant.sane.exec input rfl fun j t heq => ?_
      cases heq
      exact hk.1.created
    · rintro j rfl
      exact List.mem_singleton.mpr rfl
    · cases List.mem_singleton.mp hj
      exact hnew.quiet hlink hk.2

theorem owns_retryStep (h : Due row.id task w) : Owns (retryStep run l row task) w := by
  refine .hold _ h (fun hk hgrows hcalm => hk.calm hgrows (hcalm _ (by simp)))
    (fun hk _ k hmem => ?_) fun w input hk hgrant => ?_
  · cases List.mem_singleton.mp hmem
    exact hk.quiet
  · have hcause : (Cause.retry task).admits row.id w := by
      intro v failed hafter
      cases hafter
      exact ⟨hk.ended, hk.unfollowed⟩
    have hwrites : ∀ k, (Tx.createTask row.id (.retry task) (retryRequest run row.step)).writes k →
        k ∈ [row.id] := by
      rintro k (rfl | ⟨t, ht⟩)
      · exact List.mem_singleton.mpr rfl
      · cases ht
        exact List.mem_singleton.mpr rfl
    obtain ⟨howed, ⟨e, hlost⟩ | ⟨hwon, hnew⟩⟩ := hgrant.create hk.toVacant hcause hwrites
    · rw [hlost] at howed ⊢
      refine ⟨howed, .hold _ hk (fun hk hgrows hcalm => hk.calm hgrows (hcalm _ (by simp)))
        (fun hk _ k hmem => ?_) fun w input hk hgrant => ⟨?_, .ret _⟩⟩
      · cases List.mem_singleton.mp hmem
        exact hk.quiet
      · refine hgrant.keep (hgrant.sane.exec input rfl nofun) rfl nofun (by simp)
          fun k _ hmem => ?_
        cases List.mem_singleton.mp hmem
        exact hk.quiet.exec hgrant.sane nofun nofun
    · rw [hwon] at howed ⊢
      exact ⟨howed, owns_link hnew hk.moving⟩

/-- A vacant step that waits. -/
theorem owns_wait {k : String} {value : α} (h : Vacant k w) :
    Owns (do
      let _ ← hold [k] (.setStepStatus k .pending)
      pure value) w := by
  refine .hold _ h (fun hk hgrows hcalm => hk.calm hgrows (hcalm _ (by simp)))
    (fun _ hrecover => by cases hrecover) fun w input hk hgrant => ⟨?_, .ret _⟩
  refine hgrant.keep (hgrant.sane.exec input rfl nofun) rfl ?_ (by simp) fun j _ hj => ?_
  · rintro j ⟨rfl, _⟩
    exact List.mem_singleton.mpr rfl
  · cases List.mem_singleton.mp hj
    obtain ⟨row, hrow⟩ := Option.ne_none_iff_exists'.mp hk.known
    refine ⟨fun s hs hstep _ => hk.rested s hs hstep, fun r hr hrunning => ?_,
      fun _ _ _ => hk.rested⟩
    unfold Workflow.exec at hr
    simp only [World.setStepStatus] at hr
    rw [World.step_updateStep_self hrow ?_] at hr
    · cases hr
      cases hrunning
    · exact fun _ => rfl

/-- The writes of the verifier loop once the worker's new task is linked. -/
theorem owns_rejoin {value : α} {v k new : String} (hv : Vacant v w) (hk : Renewed k new w)
    (hlink : w.taskOf k = some new) (hne : k ≠ v) :
    Owns (do
      let _ ← hold [v, k] (.setStepStatus k .running)
      let _ ← hold [v] (.setStepStatus v .pending)
      pure value) w := by
  refine .hold (fun w => Vacant v w ∧ Renewed k new w ∧ w.taskOf k = some new)
    ⟨hv, hk, hlink⟩ (fun hw hgrows hcalm => ?_) (fun _ hrecover => by cases hrecover)
    fun w input hw hgrant => ?_
  · have hcalm' := hcalm k (by simp)
    exact ⟨hw.1.calm hgrows (hcalm v (by simp)), hw.2.1.calm hgrows hcalm',
      hcalm'.link.trans hw.2.2⟩
  obtain ⟨hv, hk, hlink⟩ := hw
  have hgrows := exec_grows input (.setStepStatus k .running) hgrant.sane.sound
  have howed : Owed [v, k] (.setStepStatus k .running) input [v] w
      (Workflow.exec input (.setStepStatus k .running) w).1 := by
    refine hgrant.keep (hgrant.sane.exec input rfl fun _ _ h => by cases h) rfl ?_ (by simp)
      fun j hout hj => ?_
    · rintro j ⟨rfl, _⟩
      simp
    obtain rfl : j = k := by simpa [show j ≠ v by simpa using hout] using hj
    obtain ⟨row, hrow⟩ := Option.ne_none_iff_exists'.mp hk.known
    have hnew : Renewed j new (Workflow.exec input (.setStepStatus j .running) w).1 :=
      ⟨hgrows.rows j hk.known, hk.others, hk.unfollowed, hk.created⟩
    refine hnew.quiet hlink fun r hr => ?_
    unfold Workflow.exec at hr
    simp only [World.setStepStatus] at hr
    rw [World.step_updateStep_self hrow ?_] at hr
    · cases hr
      intro h
      cases h
    · exact fun _ => rfl
  exact ⟨howed, owns_wait ⟨hgrows.rows v hv.known, hv.rested⟩⟩

theorem owns_relink {value : α} {v k new : String} (hv : Vacant v w) (hk : Renewed k new w)
    (hne : k ≠ v) :
    Owns (do
      let _ ← hold [v, k] (.setRoleRunTask k new)
      let _ ← hold [v, k] (.setStepStatus k .running)
      let _ ← hold [v] (.setStepStatus v .pending)
      pure value) w := by
  refine .hold (fun w => Vacant v w ∧ Renewed k new w) ⟨hv, hk⟩ (fun hw hgrows hcalm => ?_)
    (fun _ hrecover => by cases hrecover) fun w input hw hgrant => ?_
  · exact ⟨hw.1.calm hgrows (hcalm v (by simp)), hw.2.calm hgrows (hcalm k (by simp))⟩
  obtain ⟨hv, hk⟩ := hw
  obtain ⟨hnew, hlink⟩ := hk.link input
  refine ⟨hgrant.keep ?_ rfl ?_ (fun _ hj => hj) fun j hout hj => absurd hj hout,
    owns_rejoin ⟨hv.known, hv.rested⟩ hnew hlink hne⟩
  · refine hgrant.sane.exec input rfl fun j t heq => ?_
    cases heq
    exact hk.created
  · rintro j rfl
    simp

/-- The verifier loop once the worker is claimed. -/
theorem owns_rerun (hv : Due row.id task w) (hu : Vacant u.id w) (hquiet : Quiet u.id w)
    (hne : u.id ≠ row.id) :
    Owns (do
      match ← hold [row.id, u.id]
          (.createTask u.id (.rejection row.id task) (rerunRequest run u.step task)) with
      | .ok new =>
          let _ ← hold [row.id, u.id] (.setRoleRunTask u.id new)
          let _ ← hold [row.id, u.id] (.setStepStatus u.id .running)
          let _ ← hold [row.id] (.setStepStatus row.id .pending)
          pure (Flow.next ((l.push new).insert u.step.id .running))
      | .error e =>
          let _ ← hold [row.id, u.id] (.setStepAttempts u.id u.attempts)
          pure (Flow.stop (.refused e))) w := by
  have hstable : ∀ {w w' : World}, Due row.id task w ∧ Vacant u.id w ∧ Quiet u.id w →
      Grows w w' → (∀ k ∈ [row.id, u.id], Calm k w w') →
      Due row.id task w' ∧ Vacant u.id w' ∧ Quiet u.id w' := by
    rintro w w' ⟨hv, hu, hquiet⟩ hgrows hcalm
    have hcalm' := hcalm u.id (by simp)
    exact ⟨hv.calm hgrows (hcalm row.id (by simp)), hu.calm hgrows hcalm',
      hquiet.calm hgrows hcalm'⟩
  have hboth : ∀ {w : World}, Due row.id task w ∧ Vacant u.id w ∧ Quiet u.id w →
      ∀ k ∈ [row.id, u.id], Quiet k w := by
    rintro w ⟨hv, _, hquiet⟩ k hk
    obtain rfl | rfl : k = row.id ∨ k = u.id := by simpa using hk
    · exact hv.quiet
    · exact hquiet
  refine .hold _ ⟨hv, hu, hquiet⟩ hstable (fun hw _ => hboth hw) fun w input hw hgrant => ?_
  have hcause : (Cause.rejection row.id task).admits u.id w := by
    intro v failed hafter
    cases hafter
    exact ⟨hw.1.ended, hw.1.unfollowed⟩
  have hwrites : ∀ k, (Tx.createTask u.id (.rejection row.id task)
      (rerunRequest run u.step task)).writes k → k ∈ [row.id, u.id] := by
    rintro k (rfl | ⟨t, ht⟩)
    · simp
    · cases ht
      simp
  obtain ⟨howed, ⟨e, hlost⟩ | ⟨hwon, hnew⟩⟩ := hgrant.create hw.2.1 hcause hwrites
  · rw [hlost] at howed ⊢
    refine ⟨howed, .hold _ hw hstable (fun hw _ => hboth hw) fun w input hw hgrant => ⟨?_, .ret _⟩⟩
    refine hgrant.keep (hgrant.sane.exec input rfl nofun) rfl nofun (by simp) fun k _ hk => ?_
    exact (hboth hw k hk).exec hgrant.sane nofun nofun
  · rw [hwon] at howed ⊢
    have hvacant : Vacant row.id (w.spawn u.id (.rejection row.id task)
        (rerunRequest run u.step task) input.id input.stamp) := by
      refine ⟨hw.1.known, fun s hs hstep => ?_⟩
      obtain hold | hlast := List.mem_append.mp hs
      · exact (spawn_store hgrant.sane.sound _ _ _ _ _).2 _ (hw.1.rested s hold hstep)
      · cases List.mem_singleton.mp hlast
        exact absurd hstep hne
    exact ⟨howed, owns_relink hvacant hnew hne⟩

theorem owns_rerunWorker (h : Due row.id task w) (hne : u.id ≠ row.id) :
    Owns (rerunWorker run l row u task) w := by
  refine .hold _ h (fun hk hgrows hcalm => hk.calm hgrows (hcalm _ (by simp)))
    (fun hk _ k hmem => ?_) fun w input hk hgrant => ?_
  · cases List.mem_singleton.mp hmem
    exact hk.quiet
  have hgrows := exec_grows input (.claimRerun u.id u.attempts) hgrant.sane.sound
  have hcalm : ∀ k, Calm k w (Workflow.exec input (.claimRerun u.id u.attempts) w).1 :=
    fun k => claimAttempts_calm k u.id u.attempts
  have hsane := hgrant.sane.exec input
    (exec_spawned input (.claimRerun u.id u.attempts) w fun _ _ _ => nofun) nofun
  have hdue := hk.calm hgrows (hcalm _)
  split
  · rename_i hclaim
    have hany := claim_any hclaim
    have hwins : (Tx.claimRerun u.id u.attempts).wins input w = some u.id := if_pos hany
    have hquiet : Quiet u.id w := hgrant.quiet u.id hwins (by simp [hne])
    have hknown : w.step u.id ≠ none := by
      intro hnone
      rw [hnone] at hany
      cases hany
    have hvacant := (hquiet.vacant hgrant.sane hknown (hgrant.timely u.id hwins)).calm hgrows
      (hcalm _)
    have howed : Owed [row.id] (.claimRerun u.id u.attempts) input [row.id, u.id] w
        (Workflow.exec input (.claimRerun u.id u.attempts) w).1 := by
      refine hgrant.owed hsane (fun k hmem => ?_) nofun fun k hout hmine => ?_
      · obtain rfl | rfl : k = row.id ∨ k = u.id := by simpa using hmem
        · exact .inl (List.mem_singleton.mpr rfl)
        · exact .inr hwins
      · exfalso
        obtain hheld | hwon := hmine
        · exact hout (by simp [List.mem_singleton.mp hheld])
        · rw [hwins] at hwon
          cases hwon
          exact hout (by simp)
    exact ⟨howed, owns_rerun hdue hvacant (hquiet.calm hgrows (hcalm _)) hne⟩
  · refine ⟨hgrant.owed hsane (by simp) nofun ?_, .ret _⟩
    rintro k - (hheld | hwon)
    · cases List.mem_singleton.mp hheld
      exact hdue.quiet
    · by_cases hk : k ∈ [row.id]
      · cases List.mem_singleton.mp hk
        exact hdue.quiet
      · exact (hgrant.quiet k hwon hk).calm hgrows (hcalm k)

/-- The step as a tick finds it when it wins the failure of its linked task. -/
theorem Granted.due {k : String} {seen : Nat} (h : Granted [] (.claimFailure k seen task) input w)
    (hwins : (Tx.claimFailure k seen task).wins input w = some k)
    (hended : w.db.Finished task ∧ ∃ s ∈ w.spawned, s.task = task) : Due k task w := by
  have hquiet := h.quiet k hwins (by simp)
  have htimely := h.timely k hwins
  rw [Tx.timely, Bool.and_eq_true, beq_iff_eq, Option.any_eq_true] at htimely
  obtain ⟨⟨row, hrow, hrunning⟩, hlink⟩ := htimely
  rw [beq_iff_eq] at hrunning
  have hvacant : Vacant k w := by
    refine hquiet.vacant h.sane (by rw [hrow]; nofun) ?_
    rw [hlink, Option.all_some, World.finished_iff h.sane.sound]
    exact hended.1
  refine ⟨hvacant, hlink, hended, hquiet.unfollowed row hrow hrunning task hlink, ?_⟩
  intro r hr
  rw [hrow] at hr
  cases hr
  rw [hrunning]
  nofun

theorem owns_onFailed (hkeyed : Keyed steps) (hrow : row ∈ steps)
    (h : w.db.Finished task ∧ ∃ s ∈ w.spawned, s.task = task) :
    Owns (onFailed run steps l row task) w := by
  refine .hold (fun w => w.db.Finished task ∧ ∃ s ∈ w.spawned, s.task = task) h ?_
    (fun _ _ => by simp) fun w input hk hgrant => ?_
  · rintro w w' ⟨hdone, s, hs, rfl⟩ hgrows _
    exact ⟨hgrows.finished s hs hdone, s, hgrows.spawned s hs, rfl⟩
  have hgrows := exec_grows input (.claimFailure row.id row.attempts task) hgrant.sane.sound
  have hcalm : ∀ k, Calm k w
      (Workflow.exec input (.claimFailure row.id row.attempts task) w).1 :=
    fun k => claimAttempts_calm k row.id row.attempts
  have hsane := hgrant.sane.exec input
    (exec_spawned input (.claimFailure row.id row.attempts task) w fun _ _ _ => nofun) nofun
  have hkept : ∀ k, (Tx.claimFailure row.id row.attempts task).wins input w = some k →
      Quiet k (Workflow.exec input (.claimFailure row.id row.attempts task) w).1 :=
    fun k hwon => (hgrant.quiet k hwon (by simp)).calm hgrows (hcalm k)
  split
  · rename_i hclaim
    have hwins : (Tx.claimFailure row.id row.attempts task).wins input w = some row.id :=
      if_pos (claim_any hclaim)
    have howed : Owed [] (.claimFailure row.id row.attempts task) input [row.id] w
        (Workflow.exec input (.claimFailure row.id row.attempts task) w).1 := by
      refine hgrant.owed hsane (fun k hk => ?_) nofun fun k _ hmine => ?_
      · rw [List.mem_singleton.mp hk]
        exact .inr hwins
      · obtain hheld | hwon := hmine
        · cases hheld
        · exact hkept k hwon
    have hdue := (hgrant.due hwins hk).calm hgrows (hcalm row.id)
    split
    · exact ⟨howed, owns_retryStep hdue⟩
    split
    · exact ⟨howed, owns_closeStep hdue rfl⟩
    split
    · exact ⟨howed, owns_closeStep hdue rfl⟩
    rename_i hfast
    split
    · unfold onRejected
      split
      · rename_i u hu
        split
        · rename_i hrerun
          refine ⟨howed, owns_rerunWorker hdue fun hid => ?_⟩
          have hsame : u = row :=
            row_unique hkeyed.1 (List.mem_of_find?_eq_some hu) hrow hid
          rw [canRerun, Bool.and_eq_true, hsame] at hrerun
          exact hfast hrerun.1
        · exact ⟨howed, owns_closeStep hdue rfl⟩
      · exact ⟨howed, owns_closeStep hdue rfl⟩
    · exact ⟨howed, owns_closeStep hdue rfl⟩
  · refine ⟨hgrant.owed hsane (by simp) nofun fun k _ hmine => ?_, .ret _⟩
    obtain hheld | hwon := hmine
    · cases hheld
    · exact hkept k hwon

theorem owns_resetIfWedged : Owns (resetIfWedged l row) w := by
  refine .ask fun w input hgrant => ?_
  have hsane := hgrant.sane.exec input
    (exec_spawned input (.resetWedged row.id) w fun _ _ _ => nofun) nofun
  have howed : Owed [] (.resetWedged row.id) input [] w
      (Workflow.exec input (.resetWedged row.id) w).1 := by
    refine hgrant.owed hsane (by simp) nofun fun k _ hmine => ?_
    obtain hheld | hwon := hmine
    · cases hheld
    have hquiet := hgrant.quiet k hwon (by simp)
    have htimely := hgrant.timely k hwon
    simp only [Tx.wins] at hwon
    split at hwon
    · rename_i hany
      cases hwon
      obtain ⟨r, hr, _⟩ := (Option.any_eq_true ..).mp hany
      rw [Tx.timely, Option.isNone_iff_eq_none] at htimely
      have hvacant : Vacant row.id w :=
        hquiet.vacant hgrant.sane (by rw [hr]; nofun) (by rw [htimely]; rfl)
      have hgrows := exec_grows input (.resetWedged row.id) hgrant.sane.sound
      have hspawned := exec_spawned input (.resetWedged row.id) w fun _ _ _ => nofun
      have hlink : (Workflow.exec input (.resetWedged row.id) w).1.taskOf row.id = none := by
        obtain hsame | ⟨_, heq, _⟩ := exec_taskOf input (.resetWedged row.id) hr
        · exact hsame.trans htimely
        · cases heq
      have hrested : ∀ s ∈ (Workflow.exec input (.resetWedged row.id) w).1.spawned,
          s.step = row.id →
          (Workflow.exec input (.resetWedged row.id) w).1.db.Finished s.task := by
        intro s hs hstep
        rw [hspawned] at hs
        exact hgrows.finished s hs (hvacant.rested s hs hstep)
      refine ⟨fun s hs hstep _ => hrested s hs hstep, fun _ _ _ t ht => ?_,
        fun _ _ _ => hrested⟩
      rw [hlink] at ht
      cases ht
    · cases hwon
  split <;> exact ⟨howed, .ret _⟩

/-- The activation once the step is claimed. -/
theorem owns_activated {messages : List AgentMessage} (h : Vacant row.id w)
    (hmoving : Moving row.id w) :
    Owns (do
      match ← hold [row.id]
          (.createTask row.id .activation (activationRequest run row.step messages)) with
      | .error e =>
          let _ ← hold [row.id] (.setStepStatus row.id .pending)
          pure (Flow.stop (.refused e))
      | .ok new =>
          let _ ← hold [row.id] (.setRoleRunTask row.id new)
          pure (Flow.next ((l.insert row.step.id .running).push new))) w := by
  refine .hold (fun w => Vacant row.id w ∧ Moving row.id w) ⟨h, hmoving⟩
    (fun hk hgrows hcalm => ?_) (fun hk hrecover k hmem => ?_) fun w input hk hgrant => ?_
  · have hcalm := hcalm row.id (by simp)
    exact ⟨hk.1.calm hgrows hcalm, hk.2.calm hcalm⟩
  · cases List.mem_singleton.mp hmem
    rw [Tx.recoverable, Option.isNone_iff_eq_none] at hrecover
    refine ⟨fun s hs hstep _ => hk.1.rested s hs hstep, fun _ _ _ t ht => ?_,
      fun _ _ _ => hk.1.rested⟩
    rw [hrecover] at ht
    cases ht
  · have hcause : Cause.activation.admits row.id w := by
      intro v failed hafter
      cases hafter
    have hwrites : ∀ k, (Tx.createTask row.id .activation
        (activationRequest run row.step messages)).writes k → k ∈ [row.id] := by
      rintro k (rfl | ⟨t, ht⟩)
      · exact List.mem_singleton.mpr rfl
      · cases ht
    obtain ⟨howed, ⟨e, hlost⟩ | ⟨hwon, hnew⟩⟩ := hgrant.create hk.1 hcause hwrites
    · rw [hlost] at howed ⊢
      exact ⟨howed, owns_wait hk.1⟩
    · rw [hwon] at howed ⊢
      exact ⟨howed, owns_link hnew hk.2⟩

theorem owns_activate {messages : List AgentMessage} : Owns (activate run l row messages) w := by
  refine .ask fun w input hgrant => ?_
  have hspawned := exec_spawned input (.claimActivation row.id) w fun _ _ _ => nofun
  have hsane := hgrant.sane.exec input hspawned nofun
  have hgrows := exec_grows input (.claimActivation row.id) hgrant.sane.sound
  split
  · rename_i hclaim
    have hwins : (Tx.claimActivation row.id).wins input w = some row.id :=
      if_pos (claim_any hclaim)
    obtain ⟨r, hr, hpending, hnow⟩ := World.claim_won hclaim fun _ => rfl
    have hquiet := hgrant.quiet row.id hwins (by simp)
    have hvacant : Vacant row.id (Workflow.exec input (.claimActivation row.id) w).1 := by
      refine ⟨hgrows.rows row.id (by rw [hr]; nofun), fun s hs hstep => ?_⟩
      rw [hspawned] at hs
      exact hgrows.finished s hs (hquiet.waiting r hr (beq_iff_eq.mp hpending) s hs hstep)
    have hmoving : Moving row.id (Workflow.exec input (.claimActivation row.id) w).1 := by
      intro found hfound
      cases hnow.symm.trans hfound
      nofun
    have howed : Owed [] (.claimActivation row.id) input [row.id] w
        (Workflow.exec input (.claimActivation row.id) w).1 := by
      refine hgrant.owed hsane (fun k hk => ?_) nofun fun k hout hmine => ?_
      · rw [List.mem_singleton.mp hk]
        exact .inr hwins
      · rw [hwins] at hmine
        obtain hheld | hwon := hmine
        · cases hheld
        · cases hwon
          exact absurd (List.mem_singleton.mpr rfl) hout
    exact ⟨howed, owns_activated hvacant hmoving⟩
  · rename_i hclaim
    have hlost : (Tx.claimActivation row.id).wins input w = none := by
      refine if_neg fun hany => hclaim ?_
      obtain ⟨r, hr, hpending⟩ := (Option.any_eq_true ..).mp hany
      unfold Workflow.exec
      simp only [World.claimActivation, World.claim, hr, hpending, if_true]
    refine ⟨hgrant.owed hsane (by simp) nofun fun k _ hmine => ?_, .ret _⟩
    rw [hlost] at hmine
    obtain hheld | hwon := hmine
    · cases hheld
    · cases hwon

theorem owns_tickRunning (hkeyed : Keyed steps) (hrow : row ∈ steps) :
    Owns (tickRunning run steps l row) w := by
  refine .ask fun w input hgrant => ?_
  have howed := hgrant.benign trivial
  split
  · exact ⟨howed, owns_resetIfWedged⟩
  · rename_i task hlink
    refine ⟨howed, .hold (fun w => ∃ s ∈ w.spawned, s.task = task)
      (hgrant.sane.linked row.id task hlink) ?_ (fun _ _ => by simp) fun w input hk hgrant => ?_⟩
    · rintro w w' ⟨s, hs, rfl⟩ hgrows _
      exact ⟨s, hgrows.spawned s hs, rfl⟩
    have howed := hgrant.benign trivial
    split
    · exact ⟨howed, .of_benign benign_onSucceeded⟩
    · rename_i hfailed
      refine ⟨howed, owns_onFailed hkeyed hrow ⟨?_, hk⟩⟩
      obtain ⟨found, hfound, hstatus⟩ := Option.map_eq_some_iff.mp hfailed
      exact ⟨found, (lookup_mem hfound).1, (lookup_mem hfound).2, by rw [hstatus]; rfl⟩
    · exact ⟨howed, .of_benign benign_onCancelled⟩
    all_goals exact ⟨howed, .ret _⟩

theorem owns_tickStep (hkeyed : Keyed steps) (hrow : row ∈ steps) :
    Owns (tickStep run steps l row) w := by
  unfold tickStep
  split
  case h_6 => exact owns_tickRunning hkeyed hrow
  case h_7 =>
      unfold tickPending
      split
      · exact .benign trivial (fun _ => rfl) fun _ _ => owns_activate
      · exact .ret _
  all_goals exact .ret _

theorem owns_tickLoop (hkeyed : Keyed steps) {rest : List WorkflowStepRun}
    (hrest : ∀ row ∈ rest, row ∈ steps) : Owns (tickLoop run steps rest l) w := by
  induction rest generalizing l w with
  | nil => exact .of_benign (benign_tickEnd l.created)
  | cons row rest ih =>
      refine .bind rely_refl (fun flow => ?_) ?_
      · cases flow with
        | next l => exact held_tickLoop rest l
        | stop result => rfl
      · refine (owns_tickStep hkeyed (hrest row (by simp))).mono fun flow w _ => ?_
        cases flow with
        | next l => exact ih fun r hr => hrest r (by simp [hr])
        | stop result => exact Owns.ret _

theorem owns_tickSteps : Owns (tickSteps run) w := by
  refine .ask fun w input hgrant => ?_
  have howed : Owed [] .getWorkflowRunSteps input [] w w := hgrant.benign trivial
  refine ⟨?_, owns_tickLoop hgrant.sane.keyed fun _ hrow => hrow⟩
  rw [held_tickLoop]
  exact howed

theorem owns_tickRun : Owns (tickRun run) w := by
  have hbudget : ∀ w, Owns (tickBudget run) w := by
    intro w
    refine .benign trivial (fun budget => ?_) fun w budget => ?_
    · cases budget <;> rfl
    · cases budget with
      | none => exact owns_tickSteps
      | some budget =>
          refine .benign trivial (fun _ => rfl) fun w steps =>
            .benign trivial (fun usage => ?_) fun w usage => ?_
          · dsimp only
            split
            · exact (benign_cancelStepTasks steps).held.elim id fun ⟨_, hkeys, _⟩ => hkeys
            · rfl
          · dsimp only
            split
            · exact .of_benign (benign_cancelStepTasks steps)
            · exact owns_tickSteps
  unfold tickRun
  split
  case h_6 => exact .benign trivial (fun _ => rfl) fun w _ => hbudget w
  case h_7 => exact hbudget w
  all_goals exact .ret _

theorem held_tickRun : (tickRun run).held = [] := by
  unfold tickRun
  split <;> rfl

theorem owns_call (parse : PlanParser) (c : Call) : Owns (c.program parse) w := by
  by_cases hc : c = .tick
  · subst hc
    refine .benign trivial (fun run => ?_) fun w run => ?_
    · split
      · rfl
      · exact held_tickRun
    · split
      · refine .bind rely_refl (fun value => ?_) ?_
        · cases value <;> rfl
        · refine (Owns.of_benign (benign_approve parse)).mono fun value w _ => ?_
          cases value with
          | error e => exact Owns.ret _
          | ok => exact Owns.benign trivial (fun _ => held_tickRun) fun w run => owns_tickRun
      · exact owns_tickRun
  · exact .of_benign (benign_call hc)

theorem held_call (parse : PlanParser) (c : Call) : (c.program parse).held = [] := by
  cases c <;> rfl

end Tick

end Program

section Run

variable {parse : PlanParser} {S : System}

/-- No call but the `i`-th holds the step. -/
def System.unheld (S : System) (i : Nat) (k : String) : Bool :=
  (S.calls.eraseIdx i).all fun c => k ∉ c.2.held

/-- A claim is won on a row that is as the tick has read it and that no other
tick holds, a call is lost where nothing is half done, and nobody retries a task
of the run by hand. -/
def orderly (S : System) : Event → Bool
  | .start _ => true
  | .advance i input =>
      (S.next i).all fun tx =>
        (tx.wins input S.world).all fun k => tx.timely S.world && S.unheld i k
  | .abandon i =>
      S.calls[i]?.all fun c =>
        c.2.held.isEmpty || c.2.pending.all fun tx => tx.recoverable S.world
  | .store op => S.world.spawned.all fun s => !op.retries s.task

theorem System.held_of_unheld {i j : Nat} {k : String} {c : Call × Program Outcome}
    (h : S.unheld i k = true) (hij : j ≠ i) (hc : S.calls[j]? = some c) : k ∉ c.2.held := by
  rw [System.unheld, List.all_eq_true] at h
  exact of_decide_eq_true (h c (List.mem_eraseIdx_iff_getElem?.mpr ⟨j, hij, hc⟩))

/-- The calls respect one another's steps, and a step that no call holds is
quiet. -/
structure Coherent (S : System) : Prop where
  sane : Sane S.world
  owns : ∀ (i : Nat) c, S.calls[i]? = some c → Owns c.2 S.world
  known : ∀ (i : Nat) c, S.calls[i]? = some c → ∀ k ∈ c.2.held, S.world.step k ≠ none
  apart : ∀ (i j : Nat) c d, S.calls[i]? = some c → S.calls[j]? = some d → i ≠ j →
    ∀ k ∈ c.2.held, k ∉ d.2.held
  quiet : ∀ k, (∀ (i : Nat) c, S.calls[i]? = some c → k ∉ c.2.held) → Quiet k S.world

namespace Coherent

/-- One call is replaced by a program that holds no step. -/
theorem release {i : Nat} {c : Call × Program Outcome} (h : Coherent S)
    (hcall : S.calls[i]? = some c) (hquiet : ∀ k ∈ c.2.held, Quiet k S.world)
    {p : Program Outcome} (hp : Owns p S.world) (hheld : p.held = []) :
    Coherent { S with calls := S.calls.set i (c.1, p) } := by
  have hnone : ∀ k, k ∉ p.held := by simp [hheld]
  refine ⟨h.sane, fun j d hd => ?_, fun j d hd k hk => ?_, fun j j' d d' hd hd' hne k hk hk' => ?_,
    fun k hk => ?_⟩
  · obtain ⟨_, rfl⟩ | ⟨_, hd⟩ := mem_set hd
    · exact hp
    · exact h.owns j d hd
  · obtain ⟨_, rfl⟩ | ⟨_, hd⟩ := mem_set hd
    · exact absurd hk (hnone k)
    · exact h.known j d hd k hk
  · obtain ⟨_, rfl⟩ | ⟨_, hd⟩ := mem_set hd
    · exact hnone k hk
    obtain ⟨_, rfl⟩ | ⟨_, hd'⟩ := mem_set hd'
    · exact hnone k hk'
    exact h.apart j j' d d' hd hd' hne k hk hk'
  · by_cases hmine : k ∈ c.2.held
    · exact hquiet k hmine
    · refine h.quiet k fun j d hd => ?_
      by_cases hj : j = i
      · subst hj
        rw [hcall] at hd
        cases hd
        exact hmine
      · exact hk j d (by rw [List.getElem?_set_ne (Ne.symm hj)]; exact hd)

theorem start (h : Coherent S) (c : Call) :
    Coherent { S with calls := S.calls ++ [(c, c.program parse)] } := by
  have hmem : ∀ {i : Nat} {d : Call × Program Outcome},
      (S.calls ++ [(c, c.program parse)])[i]? = some d →
      S.calls[i]? = some d ∨ d = (c, c.program parse) := by
    intro i d hd
    rw [List.getElem?_append] at hd
    split at hd
    · exact .inl hd
    · obtain ⟨_, hnew⟩ := List.getElem?_eq_some_iff.mp hd
      exact .inr (by simpa using hnew.symm)
  have hnone : ∀ k, k ∉ (c.program parse).held := by simp [held_call]
  refine ⟨h.sane, fun i d hd => ?_, fun i d hd k hk => ?_, fun i j d d' hd hd' hne k hk hk' => ?_,
    fun k hk => h.quiet k fun i d hd => ?_⟩
  · obtain hd | rfl := hmem hd
    · exact h.owns i d hd
    · exact owns_call parse c
  · obtain hd | rfl := hmem hd
    · exact h.known i d hd k hk
    · exact absurd hk (hnone k)
  · obtain hd | rfl := hmem hd
    · obtain hd' | rfl := hmem hd'
      · exact h.apart i j d d' hd hd' hne k hk hk'
      · exact hnone k hk'
    · exact hnone k hk
  · exact hk i d (by rw [List.getElem?_append_left (List.getElem?_eq_some_iff.mp hd).1]; exact hd)

theorem advance {i : Nat} {input : Input} {c : Call} {keys : List String} {tx : Tx}
    {next : tx.Reply → Program Outcome} (h : Coherent S)
    (hcall : S.calls[i]? = some (c, .call keys tx next))
    (hwon : ∀ k, tx.wins input S.world = some k →
      tx.timely S.world = true ∧ S.unheld i k = true) :
    Coherent ⟨(exec input tx S.world).1,
      S.calls.set i (c, next (exec input tx S.world).2)⟩ := by
  have hfree : ∀ k, tx.wins input S.world = some k → ∀ (j : Nat) d, j ≠ i →
      S.calls[j]? = some d → k ∉ d.2.held :=
    fun k hk j d hj hd => S.held_of_unheld (hwon k hk).2 hj hd
  have hgrant : Granted keys tx input S.world := by
    refine ⟨h.sane, fun k hk => (hwon k hk).1, fun k hk hout => h.quiet k fun j d hd => ?_⟩
    by_cases hj : j = i
    · subst hj
      rw [hcall] at hd
      cases hd
      exact hout
    · exact hfree k hk j d hj hd
  obtain ⟨howed, hnext⟩ := (h.owns i _ hcall S.world (rely_refl _ _)).2 input hgrant
  have hgrows := exec_grows input tx h.sane.sound
  have hcalm : ∀ (j : Nat) d, j ≠ i → S.calls[j]? = some d → ∀ k ∈ d.2.held,
      Calm k S.world (exec input tx S.world).1 := by
    intro j d hj hd k hk
    obtain ⟨row, hrow⟩ := Option.ne_none_iff_exists'.mp (h.known j d hd k hk)
    refine .exec hrow (fun hwin => hfree k hwin j d hj hd hk) fun hwrite => ?_
    exact h.apart i j _ d hcall hd (Ne.symm hj) k (howed.writes k hwrite) hk
  refine ⟨howed.sane, fun j d hd => ?_, fun j d hd k hk => ?_, fun j j' d d' hd hd' hne k hk hk' => ?_,
    fun k hk => howed.quiet k ?_ fun hout => ?_⟩
  · obtain ⟨_, rfl⟩ | ⟨hj, hd⟩ := mem_set hd
    · exact hnext
    · exact (h.owns j d hd).stable rely_trans ⟨hgrows, hcalm j d hj hd⟩
  · obtain ⟨_, rfl⟩ | ⟨_, hd⟩ := mem_set hd
    · obtain hheld | hwin := howed.gained k hk
      · exact hgrows.rows k (h.known i _ hcall k hheld)
      · exact hgrows.rows k (Tx.wins_known hwin)
    · exact hgrows.rows k (h.known j d hd k hk)
  · have hcross : ∀ {j : Nat} {d : Call × Program Outcome}, j ≠ i → S.calls[j]? = some d →
        k ∈ (next (exec input tx S.world).2).held → k ∉ d.2.held := by
      intro j d hj hd hmine
      obtain hheld | hwin := howed.gained k hmine
      · exact h.apart i j _ d hcall hd (Ne.symm hj) k hheld
      · exact hfree k hwin j d hj hd
    obtain ⟨hj, rfl⟩ | ⟨hj, hd⟩ := mem_set hd
    · obtain ⟨hj', rfl⟩ | ⟨hj', hd'⟩ := mem_set hd'
      · exact hne (hj.trans hj'.symm)
      · exact hcross hj' hd' hk hk'
    · obtain ⟨hj', rfl⟩ | ⟨hj', hd'⟩ := mem_set hd'
      · exact hcross hj hd hk' hk
      · exact h.apart j j' d d' hd hd' hne k hk hk'
  · have hlt := (List.getElem?_eq_some_iff.mp hcall).1
    exact hk i _ (List.getElem?_set_self hlt)
  · refine h.quiet k fun j d hd => ?_
    by_cases hj : j = i
    · subst hj
      rw [hcall] at hd
      cases hd
      exact hout
    · exact hk j d (by rw [List.getElem?_set_ne (Ne.symm hj)]; exact hd)

/-- An operation of the store that brings no task of the run back. -/
theorem store {op : Store.Op} (h : Coherent S)
    (hop : ∀ s ∈ S.world.spawned, op.retries s.task = false) :
    Coherent { S with world := { S.world with db := Store.step S.world.db op } } := by
  have hgrows : Grows S.world { S.world with db := Store.step S.world.db op } :=
    ⟨fun _ hs => hs, fun s hs hdone => hdone.step h.sane.sound op (hop s hs), fun _ hk => hk⟩
  have hcalm : ∀ k, Calm k S.world { S.world with db := Store.step S.world.db op } :=
    fun k => ⟨fun _ hs _ => hs, rfl, fun row hrow _ => ⟨row, hrow, rfl⟩⟩
  refine ⟨?_, fun i c hc => ?_, h.known, h.apart, fun k hk => (h.quiet k hk).calm hgrows (hcalm k)⟩
  · exact h.sane.frame rfl ((Store.step_stepped h.sane.sound op).sound h.sane.sound) h.sane.keyed
      hgrows h.sane.linked
  · exact (h.owns i c hc).stable rely_trans ⟨hgrows, fun k _ => hcalm k⟩

theorem step {S' : System} {e : Event} (h : Coherent S) (hstep : Steps parse S e S')
    (hcond : orderly S e = true) : Coherent S' := by
  obtain ⟨c, rfl, rfl⟩ | ⟨i, input, c, keys, tx, next, rfl, hcall, rfl⟩ |
    ⟨i, c, p, rfl, hcall, rfl⟩ | ⟨op, rfl, rfl⟩ := step_cases hstep
  · exact h.start c
  · refine h.advance hcall fun k hk => ?_
    rw [orderly, next_of_call hcall, Option.all_some, hk, Option.all_some, Bool.and_eq_true] at hcond
    exact hcond
  · refine h.release hcall (fun k hk => ?_) (.ret _) rfl
    rw [orderly, hcall, Option.all_some, Bool.or_eq_true, List.isEmpty_iff] at hcond
    obtain hnone | hrecover := hcond
    · rw [hnone] at hk
      cases hk
    · cases p with
      | ret value => cases hk
      | call keys tx next =>
          exact (h.owns i _ hcall S.world (rely_refl _ _)).1 hrecover k hk
  · refine h.store fun s hs => ?_
    rw [orderly, List.all_eq_true] at hcond
    simpa using hcond s hs

theorem initial (h : S.Initial) : Coherent S := by
  have hnone : ∀ i : Nat, S.calls[i]? = none := by simp [h.calls]
  have hsane : Sane S.world := by
    obtain ⟨ops, hops⟩ := h.world.store
    refine ⟨Store.sound_run hops (Store.sound_of_fresh ⟨rfl, rfl, rfl⟩), h.world.keyed, ?_, ?_, ?_,
      ?_, ?_⟩
    · simp [World.followers, h.world.spawned]
    · simp [World.unfinished, h.world.spawned]
    · simp [h.world.spawned]
    · simp [h.world.tasks]
    · simp [h.world.spawned]
  refine ⟨hsane, ?_, ?_, ?_, fun k _ => ⟨?_, ?_, ?_⟩⟩
  · simp [hnone]
  · simp [hnone]
  · simp [hnone]
  · simp [h.world.spawned]
  · simp [h.world.spawned]
  · simp [h.world.spawned]

end Coherent

/-- In every run whose steps are orderly, a failed task of a step is followed by
at most one task, and a step has at most one task that has not ended. -/
theorem no_duplicate_work {S₀ S : System} {es : List Event} (hinit : S₀.Initial)
    (hrun : Runs (During (Steps parse) fun S e => orderly S e = true) S₀ es S) :
    (∀ k task, S.world.followers k task ≤ 1) ∧ ∀ k, S.world.unfinished k ≤ 1 := by
  have hS : Coherent S :=
    Runs.invariant _ (fun hS hstep => hS.step hstep.1 hstep.2) hrun (.initial hinit)
  exact ⟨hS.sane.followers, hS.sane.unfinished⟩

/-- One worker with two retries. -/
def flaky : System :=
  begunWith [{ workerRow with step := { workerRow.step with maxAttempts := some 3 } }]

theorem flaky_initial : flaky.Initial :=
  begunWith_initial (by decide) (by decide) (by decide)

def failedOnce : List Event :=
  [enroll, .start .tick] ++ advance 0 9 "t1" ++ attempt "a1" 1

/-- Two ticks have read the row before either of them claims the retry. -/
def contended : List Event :=
  failedOnce ++ [Event.start .tick, .start .tick] ++ advance 1 5 "" ++ advance 2 5 "" ++
    advance 1 1 "" ++ advance 2 1 "" ++ advance 1 2 "t2"

theorem no_duplicate_work_contended :
    (flaky.after contended).world.followers "s1" "t1" = 1 ∧
      (∀ k task, (flaky.after contended).world.followers k task ≤ 1) ∧
      ∀ k, (flaky.after contended).world.unfinished k ≤ 1 :=
  ⟨by decide, no_duplicate_work flaky_initial (runs_during (by decide))⟩

/-- The second tick reads the row between the claim of the first and its link. -/
def overtaken : List Event :=
  failedOnce ++ [Event.start .tick] ++ advance 1 6 "" ++ [Event.start .tick] ++ advance 2 7 "t2" ++
    advance 1 1 "t3"

/-- A tick begins or goes on, or the store works without a retry by hand. -/
def Event.ordinary : Event → Bool
  | .start call => call == .tick
  | .advance _ _ => true
  | .abandon _ => false
  | .store (.retryTask _ _) => false
  | .store _ => true

theorem duplicate_retry_tasks :
    (¬ ∀ (S₀ S : System) (es : List Event), S₀.Initial → es.all Event.ordinary = true →
      Runs (Steps noPlan) S₀ es S → ∀ k task, S.world.followers k task ≤ 1) ∧
    ¬ ∀ (S₀ S : System) (es : List Event), S₀.Initial → es.all Event.ordinary = true →
      Runs (Steps noPlan) S₀ es S → ∀ k, S.world.unfinished k ≤ 1 := by
  have hrun : Runs (Steps noPlan) flaky overtaken (flaky.after overtaken) :=
    runs_after (by decide)
  constructor
  · intro h
    have htwo := h flaky _ overtaken flaky_initial (by decide) hrun "s1" "t1"
    revert htwo
    decide
  · intro h
    have htwo := h flaky _ overtaken flaky_initial (by decide) hrun "s1"
    revert htwo
    decide

end Run

end AgentGrid.Workflow
