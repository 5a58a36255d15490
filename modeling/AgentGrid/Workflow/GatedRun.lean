import AgentGrid.Workflow.Effects

/-!
# Runs whose steps are gated

What a transaction may do to the rows of a run on which no other call is under
way, and the rules by which a call is shown to do no more.  They read of the
world its steps, the links to their tasks and the status of the run.
-/

namespace AgentGrid.Workflow

open AgentGrid.Foundation

/-- What the argument reads of a run. -/
structure View where
  steps : List WorkflowStepRun
  taskOf : String → Option String
  status : WorkflowRunStatus

def World.view (w : World) : View := ⟨w.steps, w.taskOf, w.run.status⟩

/-- Failed, cancelled or blocked. -/
def WorkflowStepStatus.down : WorkflowStepStatus → Bool
  | .failed | .cancelled | .blocked => true
  | .pending | .running | .succeeded | .skipped => false

/-- Succeeded or skipped. -/
def WorkflowStepStatus.done : WorkflowStepStatus → Bool
  | .succeeded | .skipped => true
  | .pending | .running | .failed | .cancelled | .blocked => false

/-- A step that was given a task once had its dependencies succeeded then; of
these, one that a verifier may run again is not waiting to be started. -/
structure View.Sound (v : View) : Prop where
  keyed : Keyed v.steps
  named : ∀ row ∈ v.steps, row.step.id ≠ ""
  worked : ∀ row ∈ v.steps, row.status = .succeeded → (v.taskOf row.id).isSome = true
  gated : ∀ row ∈ v.steps, (v.taskOf row.id).isSome = true → ∀ d ∈ row.step.dependsOn,
    ∃ u ∈ v.steps, u.step.id = d ∧ (v.taskOf u.id).isSome = true ∧
      (u.step.retryable.getD false = true → u.status ≠ .pending)
  failed : v.status = .failed → ∃ row ∈ v.steps, row.status.down = true

/-- What one transaction may do. -/
structure View.Gate (v v' : View) : Prop where
  activation : ∀ row ∈ v.steps, ∀ row' ∈ v'.steps, row'.id = row.id → row.status = .pending →
    row'.status = .running →
      ∀ d ∈ row.step.dependsOn, ∃ u ∈ v.steps, u.step.id = d ∧ u.status = .succeeded
  success : v.status ≠ .succeeded → v'.status = .succeeded →
    ∀ row ∈ v'.steps, row.status.done = true

/-- What a call that has returned has left. -/
def View.Ended (v : View) : Outcome → Prop
  | .created _ => v.status = .pending ∨ v.status = .running → finalStatus v.steps = none
  | .answered _ | .refused _ => True

def gateTerms : Prog.Terms Tx String World Input where
  rely := fun _ w w' => w'.view = w.view
  grant := fun _ _ _ _ => True
  duty := fun _ _ _ _ w w' => w.view.Gate w'.view ∧ w'.view.Sound

def Gates {α : Type} (post : α → View → Prop) (p : Program α) (v : View) : Prop :=
  ∀ w, w.view = v → p.Meets exec gateTerms (fun value w => post value w.view) w

section Rules

variable {α β : Type} {post : α → View → Prop} {v : View} {keys : List String} {tx : Tx}
  {next : tx.Reply → Program α}

theorem gates_ret {value : α} (h : post value v) : Gates post (.ret value) v := by
  rintro w rfl w' hview
  rw [show w'.view = w.view from hview]
  exact h

theorem gates_call
    (h : ∀ (w : World) (input : Input), w.view = v → v.Gate (exec input tx w).1.view ∧
      (exec input tx w).1.view.Sound ∧
        Gates post (next (exec input tx w).2) (exec input tx w).1.view) :
    Gates post (.call keys tx next) v := by
  rintro w rfl w' hview
  refine ⟨trivial, fun input _ => ?_⟩
  obtain ⟨hgate, hsound, hnext⟩ := h w' input hview
  rw [← show w'.view = w.view from hview] at hgate
  exact ⟨⟨hgate, hsound⟩, hnext _ rfl⟩

theorem gates_bind {f : α → Program β} {post' : β → View → Prop} {p : Program α}
    (h : Gates post p v) (hf : ∀ value v, post value v → Gates post' (f value) v) :
    Gates post' (p.bind f) v := by
  intro w hw
  have hp := h w hw
  clear h hw
  induction p generalizing w with
  | ret value => exact hf value w.view (hp w rfl) w rfl
  | call keys tx next ih =>
      intro w' hview
      obtain ⟨hstage, hrun⟩ := hp w' hview
      refine ⟨hstage, fun input hgrant => ?_⟩
      obtain ⟨hduty, hnext⟩ := hrun input hgrant
      exact ⟨hduty, ih _ _ hnext⟩

theorem View.Gate.of_same {v v' : View} (hsteps : v'.steps = v.steps)
    (hstatus : v'.status = v.status) (hkeyed : Keyed v.steps) : v.Gate v' := by
  constructor
  · intro row hrow row' hrow' hid hpending hrunning
    rw [hsteps] at hrow'
    rw [row_unique hkeyed.1 hrow' hrow hid, hpending] at hrunning
    cases hrunning
  · intro hne heq
    exact absurd (hstatus.symm.trans heq) hne

/-- A transaction that leaves the rows, the links and the status alone. -/
theorem gates_quiet (hv : v.Sound)
    (hquiet : ∀ (w : World) (input : Input), (exec input tx w).1.view = w.view)
    (h : ∀ (w : World) (input : Input), w.view = v → Gates post (next (exec input tx w).2) v) :
    Gates post (.call keys tx next) v := by
  refine gates_call fun w input hw => ?_
  have hview : (exec input tx w).1.view = v := (hquiet w input).trans hw
  rw [hview]
  exact ⟨.of_same rfl rfl hv.keyed, hv, h w input hw⟩

end Rules

/-! ## Updates of the rows -/

def View.update (v : View) (p : WorkflowStepRun → Bool)
    (f : WorkflowStepRun → WorkflowStepRun) : View :=
  { v with steps := updateWhere p f v.steps }

/-- The row is there, whatever its status. -/
def View.Has (v : View) (row : WorkflowStepRun) : Prop :=
  ∃ now ∈ v.steps, now.id = row.id ∧ now.step = row.step

/-- No step that was given a task depends on the row, if a verifier may run the
row again. -/
def View.Free (v : View) (row : WorkflowStepRun) : Prop :=
  row.step.retryable.getD false = true →
    ∀ u ∈ v.steps, (v.taskOf u.id).isSome = true → row.step.id ∉ u.step.dependsOn

namespace View

variable {v : View} {p : WorkflowStepRun → Bool} {f : WorkflowStepRun → WorkflowStepRun}

theorem Sound.status_of_step (h : v.Sound) {row row' : WorkflowStepRun} (hrow : row ∈ v.steps)
    (hrow' : row' ∈ v.steps) (hstep : row.step.id = row'.step.id) : row = row' :=
  row_unique h.keyed.2 hrow hrow' hstep

theorem Sound.status_of_id (h : v.Sound) {row row' : WorkflowStepRun} (hrow : row ∈ v.steps)
    (hrow' : row' ∈ v.steps) (hid : row.id = row'.id) : row = row' :=
  row_unique h.keyed.1 hrow hrow' hid

theorem Sound.free_of_pending (h : v.Sound) {row : WorkflowStepRun} (hrow : row ∈ v.steps)
    (hpending : row.status = .pending) : v.Free row := by
  intro hretry u hu hlinked hdep
  obtain ⟨row', hrow', hstep, _, hstatus⟩ := h.gated u hu hlinked _ hdep
  obtain rfl := h.status_of_step hrow' hrow hstep
  exact hstatus hretry hpending

theorem Sound.free_of_unlinked (h : v.Sound) {row : WorkflowStepRun} (hrow : row ∈ v.steps)
    (hunlinked : v.taskOf row.id = none) : v.Free row := by
  intro _ u hu hlinked hdep
  obtain ⟨row', hrow', hstep, hlink, _⟩ := h.gated u hu hlinked _ hdep
  obtain rfl := h.status_of_step hrow' hrow hstep
  rw [hunlinked] at hlink
  cases hlink

theorem Free.of_not_retryable {row : WorkflowStepRun}
    (h : row.step.retryable.getD false = false) : v.Free row := by
  intro hretry
  rw [h] at hretry
  cases hretry

theorem Free.update {row : WorkflowStepRun} (hid : ∀ row, (f row).id = row.id)
    (hstep : ∀ row, (f row).step = row.step) (h : v.Free row) : (v.update p f).Free row := by
  intro hretry u hu hlinked
  obtain ⟨old, hold, rfl⟩ := mem_updateWhere.mp hu
  have hkeep := h hretry old hold
  split at hlinked <;> split <;> simp_all [View.update]

theorem Has.update {row : WorkflowStepRun} (hid : ∀ row, (f row).id = row.id)
    (hstep : ∀ row, (f row).step = row.step) (h : v.Has row) : (v.update p f).Has row := by
  obtain ⟨now, hnow, hsame, hsteps⟩ := h
  refine ⟨_, mem_updateWhere.mpr ⟨now, hnow, rfl⟩, ?_, ?_⟩
  · split <;> simp_all
  · split <;> simp_all

theorem Sound.update (h : v.Sound) (hid : ∀ row, (f row).id = row.id)
    (hstep : ∀ row, (f row).step = row.step)
    (hwon : ∀ row ∈ v.steps, p row = true → (f row).status = .succeeded →
      row.status = .succeeded ∨ (v.taskOf row.id).isSome = true)
    (hback : ∀ row ∈ v.steps, p row = true → (f row).status = .pending →
      row.status = .pending ∨ v.Free row)
    (hdown : v.status = .failed → ∀ row ∈ v.steps, p row = true → row.status.down = true →
      (f row).status.down = true) :
    (v.update p f).Sound := by
  constructor
  · change Keyed (updateWhere p f v.steps)
    unfold Keyed
    rw [map_updateWhere_of_key hid, map_updateWhere_of_key (fun row => by rw [hstep])]
    exact h.keyed
  · intro row hrow
    obtain ⟨old, hold, rfl⟩ := mem_updateWhere.mp hrow
    have hnamed := h.named old hold
    split
    · rw [hstep]
      exact hnamed
    · exact hnamed
  · intro row hrow hstatus
    obtain ⟨old, hold, rfl⟩ := mem_updateWhere.mp hrow
    split at hstatus
    · rename_i hp
      rw [if_pos hp, hid]
      exact (hwon old hold hp hstatus).elim (h.worked old hold) id
    · rename_i hp
      rw [if_neg hp]
      exact h.worked old hold hstatus
  · intro row hrow hlinked d hd
    obtain ⟨old, hold, rfl⟩ := mem_updateWhere.mp hrow
    have hlinked' : (v.taskOf old.id).isSome = true := by
      split at hlinked
      · rw [hid] at hlinked
        exact hlinked
      · exact hlinked
    have hd' : d ∈ old.step.dependsOn := by
      split at hd
      · rw [hstep] at hd
        exact hd
      · exact hd
    obtain ⟨u, hu, hud, hulinked, hustatus⟩ := h.gated old hold hlinked' d hd'
    refine ⟨_, mem_updateWhere.mpr ⟨u, hu, rfl⟩, ?_⟩
    split
    · rename_i hp
      rw [hid, hstep]
      refine ⟨hud, hulinked, fun hretry hpending => ?_⟩
      obtain hsame | hfree := hback u hu hp hpending
      · exact hustatus hretry hsame
      · refine hfree hretry old hold hlinked' ?_
        rw [hud]
        exact hd'
    · exact ⟨hud, hulinked, hustatus⟩
  · intro hfailed
    obtain ⟨row, hrow, hrowdown⟩ := h.failed hfailed
    refine ⟨_, mem_updateWhere.mpr ⟨row, hrow, rfl⟩, ?_⟩
    split
    · rename_i hp
      exact hdown hfailed row hrow hp hrowdown
    · exact hrowdown

theorem Gate.update (h : v.Sound) (hid : ∀ row, (f row).id = row.id)
    (hstart : ∀ row ∈ v.steps, p row = true → row.status = .pending →
      (f row).status = .running →
        ∀ d ∈ row.step.dependsOn, ∃ u ∈ v.steps, u.step.id = d ∧ u.status = .succeeded) :
    v.Gate (v.update p f) := by
  constructor
  · intro row hrow row' hrow' hsame hpending hrunning
    obtain ⟨old, hold, rfl⟩ := mem_updateWhere.mp hrow'
    split at hsame
    · rename_i hp
      rw [hid] at hsame
      obtain rfl := h.status_of_id hold hrow hsame
      rw [if_pos hp] at hrunning
      exact hstart old hold hp hpending hrunning
    · rename_i hp
      obtain rfl := h.status_of_id hold hrow hsame
      rw [if_neg hp, hpending] at hrunning
      cases hrunning
  · intro hne heq
    exact absurd heq hne

/-- A step is given a task. -/
theorem Sound.link (h : v.Sound) {row : WorkflowStepRun} (hrow : row ∈ v.steps) (task : String)
    (hdeps : (v.taskOf row.id).isSome = true ∨ ∀ d ∈ row.step.dependsOn, ∃ u ∈ v.steps,
      u.step.id = d ∧ u.status = .succeeded) :
    Sound { v with taskOf := fun k => if k = row.id then some task else v.taskOf k } := by
  have hkept : ∀ {k}, (v.taskOf k).isSome = true →
      (if k = row.id then some task else v.taskOf k).isSome = true := by
    intro k hk
    split
    · rfl
    · exact hk
  refine ⟨h.keyed, h.named, fun r hr hstatus => hkept (h.worked r hr hstatus), ?_, h.failed⟩
  intro r hr hlinked d hd
  have hold : (v.taskOf r.id).isSome = true → ∃ u ∈ v.steps, u.step.id = d ∧
      (if u.id = row.id then some task else v.taskOf u.id).isSome = true ∧
        (u.step.retryable.getD false = true → u.status ≠ .pending) := by
    intro hr'
    obtain ⟨u, hu, hud, hulinked, hustatus⟩ := h.gated r hr hr' d hd
    exact ⟨u, hu, hud, hkept hulinked, hustatus⟩
  by_cases hid : r.id = row.id
  · obtain rfl := h.status_of_id hr hrow hid
    obtain hlinked' | hready := hdeps
    · exact hold hlinked'
    · obtain ⟨u, hu, hud, hsucceeded⟩ := hready d hd
      refine ⟨u, hu, hud, hkept (h.worked u hu hsucceeded), fun _ hpending => ?_⟩
      rw [hsucceeded] at hpending
      cases hpending
  · refine hold ?_
    simpa [hid] using hlinked

theorem Sound.setStatus (h : v.Sound) {status : WorkflowRunStatus}
    (hfailed : status = .failed → ∃ row ∈ v.steps, row.status.down = true) :
    Sound { v with status := status } :=
  ⟨h.keyed, h.named, h.worked, h.gated, hfailed⟩

end View

/-! ## The tick -/

/-- Between two steps of the loop of a tick: what the tick believes to have
succeeded has. -/
structure View.Here (v : View) (l : Progress) : Prop where
  sound : v.Sound
  running : v.status = .running
  sync : ∀ d, l.statusById d = some .succeeded →
    ∃ u ∈ v.steps, u.step.id = d ∧ u.status = .succeeded

/-- What the part of a tick that deals with one step leaves. -/
def StepPost (v : View) (l : Progress) (row : WorkflowStepRun) : Flow → View → Prop
  | .next l', v' => v'.Here l' ∧ (∀ r, v.Has r → v'.Has r) ∧
      ∀ d, d ≠ row.step.id → l'.statusById d = some .succeeded → l.statusById d = some .succeeded
  | .stop outcome, v' => v'.Ended outcome

namespace View

variable {v : View} {l : Progress}

abbrev on (id : String) : WorkflowStepRun → Bool := fun row => row.id == id

theorem Here.update {p : WorkflowStepRun → Bool} {f : WorkflowStepRun → WorkflowStepRun}
    (h : v.Here l) (hid : ∀ row, (f row).id = row.id) (hstep : ∀ row, (f row).step = row.step)
    (hwon : ∀ row ∈ v.steps, p row = true → (f row).status = .succeeded →
      row.status = .succeeded ∨ (v.taskOf row.id).isSome = true)
    (hback : ∀ row ∈ v.steps, p row = true → (f row).status = .pending →
      row.status = .pending ∨ v.Free row)
    (hkept : ∀ row ∈ v.steps, p row = true → l.statusById row.step.id = some .succeeded →
      (f row).status = .succeeded) : (v.update p f).Here l := by
  refine ⟨h.sound.update hid hstep hwon hback ?_, h.running, fun d hd => ?_⟩
  · intro hfailed
    rw [h.running] at hfailed
    cases hfailed
  · obtain ⟨u, hu, hud, hsucceeded⟩ := h.sync d hd
    refine ⟨_, mem_updateWhere.mpr ⟨u, hu, rfl⟩, ?_⟩
    split
    · rename_i hp
      rw [hstep]
      exact ⟨hud, hkept u hu hp (by rw [hud, hd])⟩
    · exact ⟨hud, hsucceeded⟩

/-- The update of a column that is not the status. -/
theorem Here.count {p : WorkflowStepRun → Bool} {f : WorkflowStepRun → WorkflowStepRun}
    (h : v.Here l) (hid : ∀ row, (f row).id = row.id) (hstep : ∀ row, (f row).step = row.step)
    (hstatus : ∀ row, (f row).status = row.status) :
    v.Gate (v.update p f) ∧ (v.update p f).Here l := by
  constructor
  · refine .update h.sound hid fun row _ _ hpending hrunning => ?_
    rw [hstatus, hpending] at hrunning
    cases hrunning
  · refine h.update hid hstep ?_ ?_ ?_
    · intro row _ _ hsucceeded
      rw [hstatus] at hsucceeded
      exact .inl hsucceeded
    · intro row _ _ hpending
      rw [hstatus] at hpending
      exact .inl hpending
    · intro row hrow _ hsucceeded
      obtain ⟨u, hu, hud, hdone⟩ := h.sync _ hsucceeded
      obtain rfl := h.sound.status_of_step hu hrow hud
      rw [hstatus]
      exact hdone

theorem Here.insert (h : v.Here l) {stepId : String} {status : WorkflowStepStatus}
    (hstatus : status = .succeeded → ∃ u ∈ v.steps, u.step.id = stepId ∧ u.status = .succeeded) :
    v.Here (l.insert stepId status) := by
  refine ⟨h.sound, h.running, fun d hd => ?_⟩
  change (if d = stepId then some status else l.statusById d) = _ at hd
  split at hd
  · rename_i heq
    subst heq
    exact hstatus (Option.some.inj hd)
  · exact h.sync d hd

theorem Here.push (h : v.Here l) (task : String) : v.Here (l.push task) :=
  ⟨h.sound, h.running, h.sync⟩

theorem Has.step_eq {row now : WorkflowStepRun} (h : v.Has row) (hv : v.Sound)
    (hnow : now ∈ v.steps) (hid : now.id = row.id) : now.step = row.step := by
  obtain ⟨row', hrow', hid', hstep⟩ := h
  obtain rfl := hv.status_of_id hnow hrow' (hid.trans hid'.symm)
  exact hstep

theorem Free.congr {row now : WorkflowStepRun} (h : v.Free row) (hstep : now.step = row.step) :
    v.Free now := by
  unfold Free
  rw [hstep]
  exact h

/-- The row of a step that the tick does not believe to have succeeded is given
another status. -/
theorem Here.move {row : WorkflowStepRun} {f : WorkflowStepRun → WorkflowStepRun}
    {status : WorkflowStepStatus} (h : v.Here l) (hrow : v.Has row)
    (hid : ∀ r, (f r).id = r.id) (hstep : ∀ r, (f r).step = r.step)
    (hf : ∀ r, (f r).status = status)
    (hfresh : l.statusById row.step.id ≠ some .succeeded)
    (hstart : status = .running → ∀ now ∈ v.steps, now.id = row.id → now.status = .pending →
      ∀ d ∈ row.step.dependsOn, ∃ u ∈ v.steps, u.step.id = d ∧ u.status = .succeeded)
    (hlinked : status = .succeeded → (v.taskOf row.id).isSome = true)
    (hfree : status = .pending → v.Free row) :
    v.Gate (v.update (on row.id) f) ∧ (v.update (on row.id) f).Here l ∧
      ∀ r, v.Has r → (v.update (on row.id) f).Has r := by
  refine ⟨.update h.sound hid ?_, h.update hid hstep ?_ ?_ ?_, fun r hr => hr.update hid hstep⟩
  · intro now hnow hon hpending hrunning
    have hsame := beq_iff_eq.mp hon
    rw [hrow.step_eq h.sound hnow hsame]
    exact hstart ((hf now).symm.trans hrunning) now hnow hsame hpending
  · intro now _ hon hsucceeded
    rw [beq_iff_eq.mp hon]
    exact .inr (hlinked ((hf now).symm.trans hsucceeded))
  · intro now hnow hon hpending
    exact .inr ((hfree ((hf now).symm.trans hpending)).congr
      (hrow.step_eq h.sound hnow (beq_iff_eq.mp hon)))
  · intro now hnow hon hsucceeded
    rw [hrow.step_eq h.sound hnow (beq_iff_eq.mp hon)] at hsucceeded
    exact absurd hsucceeded hfresh

theorem Here.link (h : v.Here l) {row : WorkflowStepRun} (hrow : v.Has row) (task : String)
    (hdeps : (v.taskOf row.id).isSome = true ∨ ∀ d ∈ row.step.dependsOn, ∃ u ∈ v.steps,
      u.step.id = d ∧ u.status = .succeeded) :
    Here { v with taskOf := fun k => if k = row.id then some task else v.taskOf k } l := by
  obtain ⟨now, hnow, hid, hstep⟩ := hrow
  rw [← hid, ← hstep] at hdeps
  rw [← hid]
  exact ⟨h.sound.link hnow task hdeps, h.running, h.sync⟩

/-- The worker that a rejected verifier may run again has been started. -/
theorem Sound.upstream {row u : WorkflowStepRun} (h : v.Sound) (hrow : v.Has row)
    (hu : v.Has u) (hlinked : (v.taskOf row.id).isSome = true)
    (hdep : u.step.id ∈ row.step.dependsOn) (hretry : u.step.retryable.getD false = true) :
    (v.taskOf u.id).isSome = true ∧
      ∀ now ∈ v.steps, now.id = u.id → now.status ≠ .pending := by
  obtain ⟨now, hnow, hid, hstep⟩ := hrow
  obtain ⟨nowu, hnowu, hidu, hstepu⟩ := hu
  rw [← hid] at hlinked
  rw [← hstep] at hdep
  obtain ⟨x, hx, hxd, hxlinked, hxstatus⟩ := h.gated now hnow hlinked _ hdep
  obtain rfl := h.status_of_step hx hnowu (by rw [hxd, hstepu])
  refine ⟨by rw [← hidu]; exact hxlinked, fun other hother hsame => ?_⟩
  obtain rfl := h.status_of_id hother hnowu (hsame.trans hidu.symm)
  exact hxstatus (by rw [hstepu]; exact hretry)

end View

section Claims

variable {α : Type} {post : α → View → Prop} {v : View} {keys : List String} {tx : Tx}
  {next : tx.Reply → Program α} {id : String} {p : Input → WorkflowStepRun → Bool}
  {f : Input → WorkflowStepRun → WorkflowStepRun}

/-- A compare-and-set on the row of a step. -/
theorem gates_claim (back : Bool → tx.Reply) (hv : v.Sound)
    (hexec : ∀ input w, exec input tx w =
      ((w.claim id (p input) (f input)).1, back (w.claim id (p input) (f input)).2))
    (hlost : Gates post (next (back false)) v)
    (hwon : ∀ input, ∀ now ∈ v.steps, now.id = id → p input now = true →
      v.Gate (v.update (View.on id) (f input)) ∧ (v.update (View.on id) (f input)).Sound ∧
        Gates post (next (back true)) (v.update (View.on id) (f input))) :
    Gates post (.call keys tx next) v := by
  refine gates_call fun w input hw => ?_
  rw [hexec]
  subst hw
  obtain hsame | ⟨now, hnow, hp, hdone⟩ := World.claim_cases w id (p input) (f input)
  · rw [hsame]
    exact ⟨.of_same rfl rfl hv.keyed, hv, hlost⟩
  · rw [hdone]
    obtain ⟨hmem, hid⟩ := lookup_mem hnow
    exact hwon input now hmem hid hp

/-- An unconditional write to the row of a step. -/
theorem gates_write
    (hexec : ∀ input w, (exec input tx w).1 = w.updateStep id (f input))
    (h : ∀ input reply, v.Gate (v.update (View.on id) (f input)) ∧
      (v.update (View.on id) (f input)).Sound ∧
        Gates post (next reply) (v.update (View.on id) (f input))) :
    Gates post (.call keys tx next) v := by
  refine gates_call fun w input hw => ?_
  subst hw
  rw [hexec]
  exact h input _

end Claims

theorem gates_mono {α : Type} {post post' : α → View → Prop} {p : Program α} {v : View}
    (hpost : ∀ value v, post value v → post' value v) (h : Gates post p v) :
    Gates post' p v :=
  fun w hw => (h w hw).mono fun value (w : World) => hpost value w.view

theorem view_createTask (input : Input) (step : String) (cause : Cause)
    (req : Store.CreateTaskRequest) (w : World) :
    (exec input (.createTask step cause req) w).1.view = w.view := by
  obtain ⟨e, hlost⟩ | ⟨_, hwon⟩ := exec_createTask input w step cause req
  · rw [hlost]
  · rw [hwon]
    rfl

end AgentGrid.Workflow
