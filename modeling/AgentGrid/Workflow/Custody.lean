import AgentGrid.Store.Guarantees
import AgentGrid.Workflow.Effects

/-!
# Steps in the hands of a tick

A tick claims a step by a compare-and-set, creates the task and links it, in
three transactions.  This module says what a step looks like between these
(`Vacant`, `Due`, `Renewed`) and when no tick is busy with it (`Quiet`), and
which transactions leave that as it is.
-/

namespace AgentGrid.Workflow

open AgentGrid.Foundation

/-- The step and the failed task that a task created for `step` comes after. -/
def Cause.after (step : String) : Cause → Option (String × String)
  | .activation => none
  | .retry failed => some (step, failed)
  | .rejection verifier rejected => some (verifier, rejected)

def Spawn.after (s : Spawn) : Option (String × String) := s.cause.after s.step

/-- A task of the step, or one that came after a task of the step. -/
def Spawn.about (k : String) (s : Spawn) : Prop := s.step = k ∨ ∃ task, s.after = some (k, task)

def WorkflowStepStatus.active : WorkflowStepStatus → Bool
  | .pending | .running => true
  | .succeeded | .failed | .cancelled | .skipped | .blocked => false

namespace World

def finished (w : World) (task : String) : Bool :=
  (w.db.task task).any fun row => row.status.isTerminal

def followers (w : World) (k task : String) : Nat :=
  w.spawned.countP fun s => s.after == some (k, task)

def unfinished (w : World) (k : String) : Nat :=
  w.spawned.countP fun s => s.step == k && !w.finished s.task

theorem finished_iff {w : World} (h : w.db.Sound) (task : String) :
    w.finished task = true ↔ w.db.Finished task := by
  unfold finished
  rw [Option.any_eq_true]
  constructor
  · rintro ⟨row, hrow, hdone⟩
    exact ⟨row, (lookup_mem hrow).1, (lookup_mem hrow).2, hdone⟩
  · rintro ⟨row, hrow, rfl, hdone⟩
    exact ⟨row, lookup_of_mem (Store.task_keys h) hrow, hdone⟩

end World

/-- What never gets less. -/
structure Grows (w w' : World) : Prop where
  spawned : ∀ s ∈ w.spawned, s ∈ w'.spawned
  finished : ∀ s ∈ w.spawned, w.db.Finished s.task → w'.db.Finished s.task
  rows : ∀ k, w.step k ≠ none → w'.step k ≠ none

/-- What nobody else does to a step that is held. -/
structure Calm (k : String) (w w' : World) : Prop where
  spawned : ∀ s ∈ w'.spawned, s.about k → s ∈ w.spawned
  link : w'.taskOf k = w.taskOf k
  row : ∀ row', w'.step k = some row' → row'.status.active = true →
    ∃ row, w.step k = some row ∧ row.status = row'.status

/-- A step that no tick is busy with. -/
structure Quiet (k : String) (w : World) : Prop where
  others : ∀ s ∈ w.spawned, s.step = k → w.taskOf k ≠ some s.task → w.db.Finished s.task
  unfollowed : ∀ row, w.step k = some row → row.status = .running → ∀ task,
    w.taskOf k = some task → ∀ s ∈ w.spawned, s.after ≠ some (k, task)
  waiting : ∀ row, w.step k = some row → row.status = .pending →
    ∀ s ∈ w.spawned, s.step = k → w.db.Finished s.task

/-- What holds of the run in every state. -/
structure Sane (w : World) : Prop where
  sound : w.db.Sound
  keyed : Keyed w.steps
  followers : ∀ k task, w.followers k task ≤ 1
  unfinished : ∀ k, w.unfinished k ≤ 1
  known : ∀ s ∈ w.spawned, w.step s.step ≠ none
  linked : ∀ k task, w.taskOf k = some task → ∃ s ∈ w.spawned, s.task = task
  ended : ∀ s ∈ w.spawned, ∀ k task, s.after = some (k, task) →
    w.db.Finished task ∧ ∃ s ∈ w.spawned, s.task = task

section Change

variable {k : String} {w w' w'' : World}

theorem Grows.refl (w : World) : Grows w w := ⟨fun _ hs => hs, fun _ _ hdone => hdone, fun _ hk => hk⟩

theorem Grows.trans (h : Grows w w') (h' : Grows w' w'') : Grows w w'' :=
  ⟨fun s hs => h'.spawned s (h.spawned s hs),
    fun s hs hdone => h'.finished s (h.spawned s hs) (h.finished s hs hdone),
    fun k hk => h'.rows k (h.rows k hk)⟩

theorem Calm.refl (k : String) (w : World) : Calm k w w :=
  ⟨fun _ hs _ => hs, rfl, fun row hrow _ => ⟨row, hrow, rfl⟩⟩

theorem Calm.trans (h : Calm k w w') (h' : Calm k w' w'') : Calm k w w'' := by
  refine ⟨fun s hs habout => h.spawned s (h'.spawned s hs habout) habout, h'.link.trans h.link,
    fun row'' hrow'' hactive => ?_⟩
  obtain ⟨row', hrow', hsame'⟩ := h'.row row'' hrow'' hactive
  obtain ⟨row, hrow, hsame⟩ := h.row row' hrow' (by rw [hsame']; exact hactive)
  exact ⟨row, hrow, hsame.trans hsame'⟩

/-- The row shows an active status only if it did before. -/
theorem Calm.status (h : Calm k w w') {row' : WorkflowStepRun} {status : WorkflowStepStatus}
    (hrow' : w'.step k = some row') (hstatus : row'.status = status)
    (hactive : status.active = true) : ∃ row, w.step k = some row ∧ row.status = status := by
  obtain ⟨row, hrow, hsame⟩ := h.row row' hrow' (by rw [hstatus]; exact hactive)
  exact ⟨row, hrow, hsame.trans hstatus⟩

theorem Quiet.calm (h : Quiet k w) (hgrows : Grows w w') (hcalm : Calm k w w') : Quiet k w' := by
  refine ⟨fun s hs hstep hlink => ?_, fun row' hrow' hrunning task hlink s hs hafter => ?_,
    fun row' hrow' hpending s hs hstep => ?_⟩
  · have hold := hcalm.spawned s hs (.inl hstep)
    rw [hcalm.link] at hlink
    exact hgrows.finished s hold (h.others s hold hstep hlink)
  · obtain ⟨row, hrow, hstatus⟩ := hcalm.status hrow' hrunning rfl
    rw [hcalm.link] at hlink
    exact h.unfollowed row hrow hstatus task hlink s
      (hcalm.spawned s hs (.inr ⟨task, hafter⟩)) hafter
  · obtain ⟨row, hrow, hstatus⟩ := hcalm.status hrow' hpending rfl
    have hold := hcalm.spawned s hs (.inl hstep)
    exact hgrows.finished s hold (h.waiting row hrow hstatus s hold hstep)

/-- A step whose rows are only those of a plan just expanded. -/
theorem Sane.quiet_new (h : Sane w) (hk : w.step k = none)
    (hspawned : ∀ s ∈ w'.spawned, s.about k → s ∈ w.spawned)
    (hnew : ∀ row, w'.step k = some row → row.status = .pending) : Quiet k w' := by
  have hnone : ∀ s ∈ w'.spawned, s.step ≠ k := by
    intro s hs hstep
    exact h.known s (hspawned s hs (.inl hstep)) (by rw [hstep]; exact hk)
  refine ⟨fun s hs hstep => absurd hstep (hnone s hs), fun row hrow hrunning => ?_,
    fun _ _ _ s hs hstep => absurd hstep (hnone s hs)⟩
  rw [hnew row hrow] at hrunning
  cases hrunning

/-- The same tasks, of which no more are unfinished. -/
theorem Sane.frame (h : Sane w) (hspawned : w'.spawned = w.spawned) (hsound : w'.db.Sound)
    (hkeyed : Keyed w'.steps) (hgrows : Grows w w')
    (hlinks : ∀ k task, w'.taskOf k = some task → ∃ s ∈ w.spawned, s.task = task) :
    Sane w' := by
  refine ⟨hsound, hkeyed, fun k task => ?_, fun k => ?_, fun s hs => ?_, fun k task hlink => ?_,
    fun s hs k task hafter => ?_⟩
  · rw [World.followers, hspawned]
    exact h.followers k task
  · refine le_trans ?_ (h.unfinished k)
    rw [World.unfinished, hspawned]
    refine List.countP_mono_left fun s hs hopen => ?_
    rw [Bool.and_eq_true, Bool.not_eq_true'] at hopen ⊢
    refine ⟨hopen.1, Bool.eq_false_iff.mpr fun hdone => ?_⟩
    rw [World.finished_iff h.sound] at hdone
    rw [(World.finished_iff hsound _).mpr (hgrows.finished s hs hdone)] at hopen
    cases hopen.2
  · exact hgrows.rows _ (h.known s (hspawned ▸ hs))
  · rw [hspawned]
    exact hlinks k task hlink
  · obtain ⟨hdone, s', hs', rfl⟩ := h.ended s (hspawned ▸ hs) k task hafter
    exact ⟨hgrows.finished s' hs' hdone, s', by rw [hspawned]; exact hs', rfl⟩

end Change

/-- The step whose claim the transaction wins: the guard of its compare-and-set
holds. -/
def Tx.wins (input : Input) (w : World) : Tx → Option String
  | .resetWedged k =>
      if (w.step k).any fun row => row.status == .running &&
          row.startedAt.any fun started => started + World.wedgeGraceSecs < input.now
      then some k else none
  | .claimFailure k seen _ | .claimRerun k seen =>
      if (w.step k).any fun row => row.attempts == seen then some k else none
  | .claimActivation k =>
      if (w.step k).any fun row => row.status == .pending then some k else none
  | _ => none

/-- The row is still as the tick has read it when it claims: without a link, or
running with the failed task, or with a task that has ended. -/
def Tx.timely (w : World) : Tx → Bool
  | .resetWedged k => (w.taskOf k).isNone
  | .claimFailure k _ failed =>
      ((w.step k).any fun row => row.status == .running) && w.taskOf k == some failed
  | .claimRerun worker _ => (w.taskOf worker).all w.finished
  | _ => true

/-- The writes that need no claim of their own. -/
def Tx.writes (k : String) : Tx → Prop
  | .setRoleRunTask step _ => step = k
  | .setStepStatus step status | .claimEnd step status => step = k ∧ status.active = true
  | .createTask step cause _ => step = k ∨ ∃ task, cause.after step = some (k, task)
  | _ => False

section Exec

variable {k : String} {w : World} {input : Input} {tx : Tx}

theorem Tx.wins_known (h : tx.wins input w = some k) : w.step k ≠ none := by
  have hany : ∀ {j : String} {p : WorkflowStepRun → Bool},
      (if (w.step j).any p then some j else none) = some k → w.step k ≠ none := by
    intro j p hif hnone
    split at hif
    · rename_i hp
      cases hif
      rw [hnone] at hp
      cases hp
    · cases hif
  cases tx with
  | resetWedged step => exact hany h
  | claimFailure step seen failed => exact hany h
  | claimRerun worker seen => exact hany h
  | claimActivation step => exact hany h
  | _ => cases h

theorem exec_store (input : Input) (tx : Tx) (h : w.db.Sound) :
    (exec input tx w).1.db.Sound ∧
      ∀ task, w.db.Finished task → (exec input tx w).1.db.Finished task := by
  have hop : ∀ op : Store.Op, (∀ task, op.retries task = false) →
      ∀ {db : Store.Database}, db.Sound → (Store.step db op).Sound ∧
        ∀ task, db.Finished task → (Store.step db op).Finished task :=
    fun op hretries _ hdb => ⟨(Store.step_stepped hdb op).sound hdb,
      fun task hdone => hdone.step hdb op (hretries task)⟩
  have hclaim : ∀ (id : String) (p : WorkflowStepRun → Bool)
      (f : WorkflowStepRun → WorkflowStepRun), (w.claim id p f).1.db.Sound ∧
        ∀ task, w.db.Finished task → (w.claim id p f).1.db.Finished task := by
    intro id p f
    rw [World.claim_frame (·.db) (fun _ => rfl)]
    exact ⟨h, fun _ hdone => hdone⟩
  cases tx with
  | createTask step cause req =>
      obtain ⟨e, hlost⟩ | ⟨_, hwon⟩ := exec_createTask input w step cause req
      · rw [hlost]
        exact ⟨h, fun _ hdone => hdone⟩
      · rw [hwon]
        exact hop (.createTask req input.id input.stamp) (fun _ => rfl) h
  | cancelTask task => exact hop (.cancelTask task input.stamp) (fun _ => rfl) h
  | cancelWorkflowRun =>
      obtain hkept | ⟨_, hdone⟩ := exec_cancelWorkflowRun input w
      · rw [hkept]
        exact ⟨h, fun _ hdone => hdone⟩
      · rw [hdone]
        show (List.foldl Store.cancelStepTask w.db _).Sound ∧
          ∀ task, w.db.Finished task → (List.foldl Store.cancelStepTask w.db _).Finished task
        generalize (w.steps.filter _).filterMap _ = tasks
        clear hdone hclaim
        generalize w.db = db at h
        induction tasks generalizing db with
        | nil => exact ⟨h, fun _ hdone => hdone⟩
        | cons task rest ih =>
            obtain ⟨hsound, hkept⟩ := hop (.cancelStepTask task) (fun _ => rfl) h
            obtain ⟨hlast, hall⟩ := ih _ hsound
            exact ⟨hlast, fun t ht => hall t (hkept t ht)⟩
  | resetWedged step => exact hclaim step _ _
  | claimEnd step status => exact hclaim step _ _
  | claimActivation step => exact hclaim step _ _
  | claimFailure step seen failed => exact hclaim step _ _
  | claimRerun worker seen => exact hclaim worker _ _
  | blockStepAndRun step =>
      have hblock : (exec input (.blockStepAndRun step) w).1.db = w.db := by
        unfold exec
        simp only [World.blockStepAndRun]
        split <;> rfl
      rw [hblock]
      exact ⟨h, fun _ hdone => hdone⟩
  | expandPlan run plan =>
      have hplan : (exec input (.expandPlan run plan) w).1.db = w.db := by
        unfold exec
        simp only [World.expandPlan]
        split
        · rfl
        · split <;> rfl
      rw [hplan]
      exact ⟨h, fun _ hdone => hdone⟩
  | _ => exact ⟨h, fun _ hdone => hdone⟩

/-- The tasks after a transaction: as before, or one more. -/
theorem exec_spawns (input : Input) (tx : Tx) (w : World) :
    (exec input tx w).1.spawned = w.spawned ∨
      ∃ step cause req, tx = .createTask step cause req ∧
        (exec input tx w).1.spawned = w.spawned ++ [⟨step, input.id, cause⟩] := by
  by_cases htx : ∃ step cause req, tx = .createTask step cause req
  · obtain ⟨step, cause, req, rfl⟩ := htx
    obtain ⟨e, hlost⟩ | ⟨_, hwon⟩ := exec_createTask input w step cause req
    · exact .inl (by rw [hlost])
    · exact .inr ⟨step, cause, req, rfl, by rw [hwon]; rfl⟩
  · exact .inl (exec_spawned input tx w fun step cause req heq => htx ⟨step, cause, req, heq⟩)

theorem exec_grows (input : Input) (tx : Tx) (h : w.db.Sound) :
    Grows w (exec input tx w).1 := by
  refine ⟨fun s hs => ?_, fun s _ => (exec_store input tx h).2 s.task, fun k hk => ?_⟩
  · obtain hsame | ⟨_, _, _, _, hmore⟩ := exec_spawns input tx w
    · rw [hsame]
      exact hs
    · rw [hmore]
      exact List.mem_append_left _ hs
  · obtain ⟨row, hrow⟩ := Option.ne_none_iff_exists'.mp hk
    obtain ⟨row', hrow', _⟩ := exec_row input tx hrow
    rw [hrow']
    nofun

theorem exec_about (hwrites : ¬ tx.writes k) :
    ∀ s ∈ (exec input tx w).1.spawned, s.about k → s ∈ w.spawned := by
  intro s hs habout
  obtain hsame | ⟨step, cause, req, rfl, hmore⟩ := exec_spawns input tx w
  · rw [hsame] at hs
    exact hs
  · rw [hmore] at hs
    obtain hold | hnew := List.mem_append.mp hs
    · exact hold
    · cases List.mem_singleton.mp hnew
      exact absurd habout hwrites

/-- A claim that is lost changes nothing. -/
theorem claim_lost {id : String} {p : WorkflowStepRun → Bool}
    {f : WorkflowStepRun → WorkflowStepRun} (h : ¬ (w.step id).any p = true) :
    w.claim id p f = (w, false) := by
  obtain hlost | ⟨row, hrow, hp, _⟩ := World.claim_cases w id p f
  · exact hlost
  · exact absurd (by rw [hrow, Option.any_some]; exact hp) h

theorem Calm.exec {row : WorkflowStepRun} (hrow : w.step k = some row)
    (hwins : tx.wins input w ≠ some k) (hwrites : ¬ tx.writes k) :
    Calm k w (exec input tx w).1 := by
  refine ⟨exec_about hwrites, ?_, fun row' hrow' hactive => ⟨row, hrow, ?_⟩⟩
  · obtain hsame | ⟨task, rfl, _⟩ := exec_taskOf input tx hrow
    · exact hsame
    · exact absurd rfl hwrites
  · obtain ⟨found, hfound, hmove⟩ := exec_row input tx hrow
    rw [hfound] at hrow'
    cases hrow'
    obtain hsame | hmoves := hmove.status
    · exact hsame.symm
    rw [World.id_of_step hrow] at hmoves
    cases tx with
    | setStepStatus step status =>
        obtain ⟨rfl, rfl⟩ := hmoves
        exact absurd ⟨rfl, hactive⟩ hwrites
    | claimEnd step status =>
        obtain ⟨rfl, _, rfl⟩ := hmoves
        exact absurd ⟨rfl, hactive⟩ hwrites
    | cancelWorkflowRun =>
        rw [hmoves.2] at hactive
        cases hactive
    | blockStepAndRun step =>
        rw [hmoves.2.2] at hactive
        cases hactive
    | resetWedged step =>
        obtain ⟨rfl, hrunning, hpending⟩ := hmoves
        by_cases hwon : (w.step step).any fun row => row.status == .running &&
            row.startedAt.any fun started => started + World.wedgeGraceSecs < input.now
        · exact absurd (if_pos hwon) hwins
        · unfold Workflow.exec at hfound
          simp only [World.resetWedged] at hfound
          rw [claim_lost hwon, hrow] at hfound
          cases hfound
          rfl
    | claimActivation step =>
        obtain ⟨rfl, hpending, _⟩ := hmoves
        refine absurd (if_pos ?_) hwins
        rw [hrow, Option.any_some, hpending]
        rfl
    | _ => cases hmoves

theorem Quiet.exec (h : Quiet k w) (hw : Sane w) (hwins : tx.wins input w ≠ some k)
    (hwrites : ¬ tx.writes k) : Quiet k (exec input tx w).1 := by
  cases hrow : w.step k with
  | none =>
      exact hw.quiet_new hrow (exec_about hwrites) fun row hnew => (exec_new input tx hrow hnew).2
  | some row => exact h.calm (exec_grows input tx hw.sound) (.exec hrow hwins hwrites)

theorem exec_link (input : Input) (tx : Tx) {task : String}
    (h : (exec input tx w).1.taskOf k = some task) :
    w.taskOf k = some task ∨ tx = .setRoleRunTask k task := by
  have hclaim : ∀ (id : String) (p : WorkflowStepRun → Bool)
      (f : WorkflowStepRun → WorkflowStepRun), (w.claim id p f).1.taskOf k = some task →
      w.taskOf k = some task := by
    intro id p f hlink
    rw [World.claim_frame (·.taskOf k) (fun _ => rfl)] at hlink
    exact hlink
  cases tx with
  | setRoleRunTask step new =>
      unfold Workflow.exec at h
      simp only [World.setRoleRunTask] at h
      split at h
      · rename_i hstep
        rw [hstep]
        cases h
        exact .inr rfl
      · exact .inl h
  | expandPlan run plan =>
      unfold Workflow.exec at h
      simp only [World.expandPlan] at h
      split at h
      · exact .inl h
      · split at h
        · exact .inl h
        · dsimp only at h
          split at h
          · cases h
          · exact .inl h
  | createTask step cause req =>
      obtain ⟨e, hlost⟩ | ⟨_, hwon⟩ := exec_createTask input w step cause req
      · rw [hlost] at h
        exact .inl h
      · rw [hwon] at h
        exact .inl h
  | resetWedged step => exact .inl (hclaim step _ _ h)
  | claimEnd step status => exact .inl (hclaim step _ _ h)
  | claimActivation step => exact .inl (hclaim step _ _ h)
  | claimFailure step seen failed => exact .inl (hclaim step _ _ h)
  | claimRerun worker seen => exact .inl (hclaim worker _ _ h)
  | blockStepAndRun step =>
      have hblock : (Workflow.exec input (.blockStepAndRun step) w).1.taskOf = w.taskOf := by
        unfold Workflow.exec
        simp only [World.blockStepAndRun]
        split <;> rfl
      rw [hblock] at h
      exact .inl h
  | cancelWorkflowRun =>
      obtain hkept | ⟨_, hdone⟩ := exec_cancelWorkflowRun input w
      · rw [hkept] at h
        exact .inl h
      · rw [hdone] at h
        exact .inl h
  | _ => exact .inl h

/-- Every transaction but the creation of a task. -/
theorem Sane.exec (h : Sane w) (input : Input) (hspawned : (exec input tx w).1.spawned = w.spawned)
    (hlink : ∀ k task, tx = .setRoleRunTask k task → ∃ s ∈ w.spawned, s.task = task) :
    Sane (exec input tx w).1 := by
  refine h.frame hspawned (exec_store input tx h.sound).1 (exec_keyed input tx h.keyed)
    (exec_grows input tx h.sound) fun k task hnow => ?_
  obtain hold | hset := exec_link input tx hnow
  · exact h.linked k task hold
  · exact hlink k task hset

end Exec

/-- A step all of whose tasks have ended. -/
structure Vacant (k : String) (w : World) : Prop where
  known : w.step k ≠ none
  rested : ∀ s ∈ w.spawned, s.step = k → w.db.Finished s.task

/-- A step whose failed task nothing has followed yet. -/
structure Due (k task : String) (w : World) : Prop extends Vacant k w where
  link : w.taskOf k = some task
  ended : w.db.Finished task ∧ ∃ s ∈ w.spawned, s.task = task
  unfollowed : ∀ s ∈ w.spawned, s.after ≠ some (k, task)
  moving : ∀ row, w.step k = some row → row.status ≠ .pending

/-- A step for which `task` was just created. -/
structure Renewed (k task : String) (w : World) : Prop where
  known : w.step k ≠ none
  others : ∀ s ∈ w.spawned, s.step = k → s.task ≠ task → w.db.Finished s.task
  unfollowed : ∀ s ∈ w.spawned, s.after ≠ some (k, task)
  created : ∃ s ∈ w.spawned, s.task = task

section Steps

variable {k task : String} {w w' : World}

theorem Vacant.calm (h : Vacant k w) (hgrows : Grows w w') (hcalm : Calm k w w') :
    Vacant k w' := by
  refine ⟨hgrows.rows k h.known, fun s hs hstep => ?_⟩
  have hold := hcalm.spawned s hs (.inl hstep)
  exact hgrows.finished s hold (h.rested s hold hstep)

theorem Due.calm (h : Due k task w) (hgrows : Grows w w') (hcalm : Calm k w w') :
    Due k task w' := by
  obtain ⟨hdone, s, hs, rfl⟩ := h.ended
  refine ⟨h.toVacant.calm hgrows hcalm, hcalm.link.trans h.link,
    ⟨hgrows.finished s hs hdone, s, hgrows.spawned s hs, rfl⟩, fun s hs hafter => ?_,
    fun row' hrow' hpending => ?_⟩
  · exact h.unfollowed s (hcalm.spawned s hs (.inr ⟨_, hafter⟩)) hafter
  · obtain ⟨row, hrow, hstatus⟩ := hcalm.status hrow' hpending rfl
    exact h.moving row hrow hstatus

theorem Renewed.calm (h : Renewed k task w) (hgrows : Grows w w') (hcalm : Calm k w w') :
    Renewed k task w' := by
  obtain ⟨s, hs, rfl⟩ := h.created
  refine ⟨hgrows.rows k h.known, fun s hs hstep hne => ?_, fun s hs hafter => ?_,
    s, hgrows.spawned s hs, rfl⟩
  · have hold := hcalm.spawned s hs (.inl hstep)
    exact hgrows.finished s hold (h.others s hold hstep hne)
  · exact h.unfollowed s (hcalm.spawned s hs (.inr ⟨_, hafter⟩)) hafter

theorem Due.quiet (h : Due k task w) : Quiet k w := by
  refine ⟨fun s hs hstep _ => h.rested s hs hstep, fun _ _ _ t hlink s hs => ?_,
    fun _ _ _ => h.rested⟩
  rw [h.link] at hlink
  cases hlink
  exact h.unfollowed s hs

theorem Renewed.quiet (h : Renewed k task w) (hlink : w.taskOf k = some task)
    (hmoving : ∀ row, w.step k = some row → row.status ≠ .pending) : Quiet k w := by
  refine ⟨fun s hs hstep hne => h.others s hs hstep ?_, fun _ _ _ t ht s hs => ?_,
    fun row hrow hpending => absurd hpending (hmoving row hrow)⟩
  · rintro rfl
    exact hne hlink
  · rw [hlink] at ht
    cases ht
    exact h.unfollowed s hs

/-- A pending step, or one whose link has ended, has nothing unfinished. -/
theorem Quiet.vacant (h : Quiet k w) (hw : Sane w) (hknown : w.step k ≠ none)
    (hlink : (w.taskOf k).all w.finished = true) : Vacant k w := by
  refine ⟨hknown, fun s hs hstep => ?_⟩
  by_cases hown : w.taskOf k = some s.task
  · rw [hown, Option.all_some, World.finished_iff hw.sound] at hlink
    exact hlink
  · exact h.others s hs hstep hown

variable {cause : Cause} {req : Store.CreateTaskRequest} {stamp : String}

/-- What the cause of a new task must be: none, or a task that has ended and that
nothing has followed. -/
def Cause.admits (k : String) (cause : Cause) (w : World) : Prop :=
  ∀ v failed, cause.after k = some (v, failed) →
    (w.db.Finished failed ∧ ∃ s ∈ w.spawned, s.task = failed) ∧
      ∀ s ∈ w.spawned, s.after ≠ some (v, failed)

theorem spawn_store (h : w.db.Sound) (k : String) (cause : Cause) (req : Store.CreateTaskRequest)
    (task stamp : String) :
    (w.spawn k cause req task stamp).db.Sound ∧
      ∀ t, w.db.Finished t → (w.spawn k cause req task stamp).db.Finished t :=
  ⟨(Store.step_stepped h (.createTask req task stamp)).sound h,
    fun _ hdone => hdone.step h (.createTask req task stamp) rfl⟩

private theorem finished_ne (hfresh : w.db.task task = none) {t : String}
    (h : w.db.Finished t) : t ≠ task := by
  rintro rfl
  obtain ⟨row, hrow, hid, _⟩ := h
  exact lookup_none hfresh row hrow hid

theorem Sane.spawn (h : Sane w) (hk : Vacant k w) (hcause : cause.admits k w) :
    Sane (w.spawn k cause req task stamp) := by
  obtain ⟨hsound, hdone⟩ := spawn_store h.sound k cause req task stamp
  refine ⟨hsound, h.keyed, fun v failed => ?_, fun j => ?_, fun s hs => ?_, fun j t hlink => ?_,
    fun s hs v failed hafter => ?_⟩
  · rw [World.followers, World.spawn, List.countP_append, List.countP_singleton]
    by_cases hv : cause.after k = some (v, failed)
    · have hnone : w.spawned.countP (fun s => s.after == some (v, failed)) = 0 := by
        refine List.countP_eq_zero.mpr fun s hs => ?_
        rw [beq_iff_eq]
        exact (hcause v failed hv).2 s hs
      rw [hnone]
      split <;> omega
    · rw [if_neg (by rw [beq_iff_eq]; exact hv)]
      exact h.followers v failed
  · have hold : w.spawned.countP (fun s => s.step == j &&
        !(w.spawn k cause req task stamp).finished s.task) ≤
          if j = k then 0 else 1 := by
      split
      · rename_i hj
        refine le_of_eq (List.countP_eq_zero.mpr fun s hs => ?_)
        rw [Bool.and_eq_true, not_and, beq_iff_eq, Bool.not_eq_true']
        intro hstep
        rw [(World.finished_iff hsound _).mpr (hdone _ (hk.rested s hs (hstep.trans hj)))]
        nofun
      · refine le_trans (List.countP_mono_left fun s hs hopen => ?_) (h.unfinished j)
        rw [Bool.and_eq_true, Bool.not_eq_true'] at hopen ⊢
        refine ⟨hopen.1, Bool.eq_false_iff.mpr fun hended => ?_⟩
        rw [World.finished_iff h.sound] at hended
        rw [(World.finished_iff hsound _).mpr (hdone _ hended)] at hopen
        cases hopen.2
    show List.countP _ (w.spawned ++ [_]) ≤ 1
    rw [List.countP_append, List.countP_singleton]
    by_cases hj : j = k
    · rw [if_pos hj] at hold
      split <;> omega
    · rw [if_neg hj] at hold
      rw [if_neg (by rw [Bool.and_eq_true, beq_iff_eq]; exact fun hopen => hj hopen.1.symm)]
      exact hold
  · obtain hold | hnew := List.mem_append.mp hs
    · exact h.known s hold
    · cases List.mem_singleton.mp hnew
      exact hk.known
  · obtain ⟨s, hs, rfl⟩ := h.linked j t hlink
    exact ⟨s, List.mem_append_left _ hs, rfl⟩
  · have hended : w.db.Finished failed ∧ ∃ s ∈ w.spawned, s.task = failed := by
      obtain hold | hnew := List.mem_append.mp hs
      · exact h.ended s hold v failed hafter
      · cases List.mem_singleton.mp hnew
        exact (hcause v failed hafter).1
    obtain ⟨hfailed, s, hs, rfl⟩ := hended
    exact ⟨hdone _ hfailed, s, List.mem_append_left _ hs, rfl⟩

theorem Vacant.renewed (hk : Vacant k w) (h : Sane w) (hcause : cause.admits k w)
    (hfresh : w.db.task task = none) : Renewed k task (w.spawn k cause req task stamp) := by
  have hdone := (spawn_store h.sound k cause req task stamp).2
  refine ⟨hk.known, fun s hs hstep hne => ?_, fun s hs hafter => ?_,
    ⟨k, task, cause⟩, List.mem_append_right _ (List.mem_singleton.mpr rfl), rfl⟩
  · obtain hold | hnew := List.mem_append.mp hs
    · exact hdone _ (hk.rested s hold hstep)
    · cases List.mem_singleton.mp hnew
      exact absurd rfl hne
  · obtain hold | hnew := List.mem_append.mp hs
    · exact finished_ne hfresh (h.ended s hold k task hafter).1 rfl
    · cases List.mem_singleton.mp hnew
      exact finished_ne hfresh (hcause k task hafter).1.1 rfl

end Steps

end AgentGrid.Workflow
