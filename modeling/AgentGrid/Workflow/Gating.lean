import AgentGrid.Workflow.GatedRun
import AgentGrid.Workflow.PlanPause

/-!
# Gating of steps and of the run

Calls on a run that come one after the other: a step starts when the steps it
depends on have succeeded, the run succeeds when its steps have, and a tick that
returns has drawn the conclusion from the steps it leaves.  A call may be lost at
any transaction; the tasks of the run end as they like.
-/

namespace AgentGrid.Workflow

open AgentGrid.Foundation

section Handlers

variable {v : View} {l : Progress} {row : WorkflowStepRun} (h : v.Here l) (hrow : v.Has row)
  (hfresh : l.statusById row.step.id ≠ some .succeeded)

include h in
theorem post_next : StepPost v l row (.next l) v := ⟨h, fun _ => id, fun _ _ => id⟩

include h hrow hfresh in
theorem gates_resetIfWedged (hunlinked : v.taskOf row.id = none) :
    Gates (StepPost v l row) (resetIfWedged l row) v := by
  have hfree : v.Free row := by
    obtain ⟨now, hnow, hid, hstep⟩ := hrow
    refine View.Free.congr (h.sound.free_of_unlinked hnow ?_) hstep.symm
    rw [hid, hunlinked]
  refine gates_claim (fun b => b) h.sound (fun _ _ => rfl) (gates_ret (post_next h)) ?_
  intro input now _ _ _
  obtain ⟨hgate, hhere, hhas⟩ := h.move hrow (f := fun row =>
    { row with status := .pending, startedAt := none }) (fun _ => rfl) (fun _ => rfl)
    (fun _ => rfl) hfresh nofun nofun fun _ => hfree
  refine ⟨hgate, hhere.sound, gates_ret ⟨hhere.insert nofun, hhas, fun d hd hsucceeded => ?_⟩⟩
  simpa [Progress.insert, hd] using hsucceeded

include h hrow hfresh in
theorem gates_onCancelled : Gates (StepPost v l row) (onCancelled l row) v := by
  refine gates_claim (fun b => b) h.sound (fun _ _ => rfl) (gates_ret (post_next h)) ?_
  intro input now _ _ _
  obtain ⟨hgate, hhere, hhas⟩ := h.move hrow (f := fun row =>
    { row with status := .cancelled }) (fun _ => rfl) (fun _ => rfl)
    (fun _ => rfl) hfresh nofun nofun nofun
  refine ⟨hgate, hhere.sound, gates_ret ⟨hhere.insert nofun, hhas, fun d hd hsucceeded => ?_⟩⟩
  simpa [Progress.insert, hd] using hsucceeded

include h hrow hfresh in
theorem gates_closeStep {status : WorkflowStepStatus}
    (hstatus : status = .failed ∨ status = .blocked) :
    Gates (StepPost v l row) (closeStep l row status) v := by
  refine gates_write (fun _ _ => rfl) fun input reply => ?_
  obtain ⟨hgate, hhere, hhas⟩ := h.move hrow (f := fun row =>
    { row with
      status := status
      startedAt := if status = .running then row.startedAt <|> some input.now
        else row.startedAt }) (fun _ => rfl) (fun _ => rfl) (fun _ => rfl) hfresh
    (by rcases hstatus with rfl | rfl <;> nofun) (by rcases hstatus with rfl | rfl <;> nofun)
    (by rcases hstatus with rfl | rfl <;> nofun)
  exact ⟨hgate, hhere.sound, gates_ret ⟨hhere, hhas, fun _ _ => id⟩⟩

include h hrow in
theorem gates_retryStep (run : WorkflowRun) (task : String)
    (hlinked : (v.taskOf row.id).isSome = true) :
    Gates (StepPost v l row) (retryStep run l row task) v := by
  refine gates_quiet h.sound (fun w input => view_createTask input _ _ _ w) fun w input _ => ?_
  cases (exec input (.createTask row.id (.retry task) (retryRequest run row.step)) w).2 with
  | error e =>
      refine gates_write (fun _ _ => rfl) fun input reply => ?_
      obtain ⟨hgate, hhere⟩ := h.count (p := View.on row.id) (f := fun r =>
        { r with attempts := row.attempts }) (fun _ => rfl) (fun _ => rfl) fun _ => rfl
      exact ⟨hgate, hhere.sound, gates_ret trivial⟩
  | ok new =>
      refine gates_call fun w input hw => ?_
      subst hw
      have hhere := h.link hrow new (.inl hlinked)
      exact ⟨.of_same rfl rfl h.sound.keyed, hhere.sound,
        gates_ret ⟨hhere.push new, fun _ => id, fun _ _ => id⟩⟩

include h hrow hfresh in
theorem gates_onSucceeded (task : String) (hlinked : (v.taskOf row.id).isSome = true) :
    Gates (StepPost v l row) (onSucceeded l row task) v := by
  refine gates_claim (fun b => b) h.sound (fun _ _ => rfl) (gates_ret (post_next h)) ?_
  intro input now hnow hid _
  obtain ⟨hgate, hmoved, hhas⟩ := h.move hrow (f := fun row => { row with status := .succeeded })
    (fun _ => rfl) (fun _ => rfl) (fun _ => rfl) hfresh nofun (fun _ => hlinked) nofun
  have hhere : (v.update (View.on row.id) fun row => { row with status := .succeeded }).Here
      (l.insert row.step.id .succeeded) := by
    refine hmoved.insert fun _ => ?_
    refine ⟨_, mem_updateWhere.mpr ⟨now, hnow, rfl⟩, ?_⟩
    rw [if_pos (beq_iff_eq.mpr hid)]
    exact ⟨by rw [hrow.step_eq h.sound hnow hid], rfl⟩
  have hnext : StepPost v l row (.next (l.insert row.step.id .succeeded))
      (v.update (View.on row.id) fun row => { row with status := .succeeded }) := by
    refine ⟨hhere, hhas, fun d hd hsucceeded => ?_⟩
    simpa [Progress.insert, hd] using hsucceeded
  refine ⟨hgate, hmoved.sound, ?_⟩
  refine gates_quiet hmoved.sound (fun _ _ => rfl) fun _ _ _ => ?_
  refine gates_quiet hmoved.sound (fun _ _ => rfl) fun _ _ _ => ?_
  change Gates _ (if _ then _ else _) _
  split
  · refine gates_quiet hmoved.sound (fun _ _ => rfl) fun w input _ => ?_
    cases (exec input (.attemptPlanForTask task) w).2 with
    | none => exact gates_ret hnext
    | some plan =>
        refine gates_quiet hmoved.sound (fun _ _ => rfl) fun _ _ _ => ?_
        refine gates_call fun w input hw => ?_
        refine ⟨⟨?_, nofun⟩, ?_, gates_ret ?_⟩
        · rw [← hw]
          exact (View.Gate.of_same (v := w.view) rfl rfl (hw ▸ hmoved.sound.keyed)).activation
        · rw [← hw] at hmoved
          exact hmoved.sound.setStatus nofun
        · rintro (hstatus | hstatus) <;> cases hstatus
  · exact gates_ret hnext

/-- The worker runs again, and the verifier waits for it. -/
theorem gates_restart {v' : View} {u : WorkflowStepRun} {new : String}
    (hhere : v'.Here (l.insert u.step.id .running)) (hkept : ∀ r, v.Has r → v'.Has r)
    (hrow : v'.Has row) (hu : v'.Has u)
    (hfresh : l.statusById row.step.id ≠ some .succeeded)
    (hstarted : ∀ now ∈ v'.steps, now.id = u.id → now.status ≠ .pending)
    (hplain : row.step.retryable.getD false = false) :
    Gates (StepPost v l row) (do
      let _ ← hold [row.id, u.id] (.setStepStatus u.id .running)
      let _ ← hold [row.id] (.setStepStatus row.id .pending)
      pure (.next ((l.push new).insert u.step.id .running))) v' := by
  have hfreshRow : (l.insert u.step.id .running).statusById row.step.id ≠ some .succeeded := by
    change (if row.step.id = u.step.id then some _ else l.statusById row.step.id) ≠ _
    split
    · nofun
    · exact hfresh
  refine gates_write (fun _ _ => rfl) fun input _ => ?_
  obtain ⟨hgate, hhere₁, hhas₁⟩ := hhere.move hu (f := fun r =>
    { r with
      status := .running
      startedAt := if WorkflowStepStatus.running = .running then r.startedAt <|> some input.now
        else r.startedAt }) (fun _ => rfl) (fun _ => rfl) (fun _ => rfl)
    (by simp [Progress.insert]) (fun _ now hnow hid hpending => absurd hpending
      (hstarted now hnow hid)) nofun nofun
  refine ⟨hgate, hhere₁.sound, gates_write (fun _ _ => rfl) fun input _ => ?_⟩
  obtain ⟨hgate, hhere₂, hhas₂⟩ := hhere₁.move (hhas₁ _ hrow) (f := fun r =>
    { r with
      status := .pending
      startedAt := if WorkflowStepStatus.pending = .running then r.startedAt <|> some input.now
        else r.startedAt }) (fun _ => rfl) (fun _ => rfl) (fun _ => rfl) hfreshRow nofun nofun
    fun _ => .of_not_retryable hplain
  refine ⟨hgate, hhere₂.sound, gates_ret
    ⟨⟨hhere₂.sound, hhere₂.running, hhere₂.sync⟩, fun r hr => hhas₂ r (hhas₁ r (hkept r hr)), ?_⟩⟩
  intro d _ hsucceeded
  change (if d = u.step.id then some _ else l.statusById d) = _ at hsucceeded
  split at hsucceeded
  · cases hsucceeded
  · exact hsucceeded

include h hrow hfresh in
theorem gates_rerunWorker (run : WorkflowRun) {u : WorkflowStepRun} (task : String)
    (hu : v.Has u) (hlinked : (v.taskOf row.id).isSome = true)
    (hdep : u.step.id ∈ row.step.dependsOn) (hretry : u.step.retryable.getD false = true)
    (hplain : row.step.retryable.getD false = false) :
    Gates (StepPost v l row) (rerunWorker run l row u task) v := by
  refine gates_claim (fun b => b) h.sound (fun _ _ => rfl) (gates_ret (post_next h)) ?_
  intro input now _ _ _
  have hhas : ∀ r, v.Has r → (v.update (View.on u.id) fun r =>
      { r with attempts := u.attempts + 1 }).Has r :=
    fun r hr => hr.update (fun _ => rfl) fun _ => rfl
  obtain ⟨hgate, hcounted⟩ := h.count (p := View.on u.id) (f := fun r =>
    { r with attempts := u.attempts + 1 }) (fun _ => rfl) (fun _ => rfl) fun _ => rfl
  refine ⟨hgate, hcounted.sound, ?_⟩
  refine gates_quiet hcounted.sound (fun w input => view_createTask input _ _ _ w)
    fun w input _ => ?_
  cases (exec input (.createTask u.id (.rejection row.id task) (rerunRequest run u.step task))
      w).2 with
  | error e =>
      refine gates_write (fun _ _ => rfl) fun input reply => ?_
      obtain ⟨hgate, hhere⟩ := hcounted.count (p := View.on u.id) (f := fun r =>
        { r with attempts := u.attempts }) (fun _ => rfl) (fun _ => rfl) fun _ => rfl
      exact ⟨hgate, hhere.sound, gates_ret trivial⟩
  | ok new =>
      obtain ⟨hulinked, hstarted⟩ :=
        hcounted.sound.upstream (hhas _ hrow) (hhas _ hu) hlinked hdep hretry
      have hhere := hcounted.link (hhas _ hu) new (.inl hulinked)
      refine gates_call fun w input hw => ?_
      rw [show (exec input (.setRoleRunTask u.id new) w).1.view = _ from
        congrArg (fun v : View =>
          { v with taskOf := fun k => if k = u.id then some new else v.taskOf k }) hw]
      exact ⟨.of_same rfl rfl hcounted.sound.keyed, hhere.sound,
        gates_restart (hhere.insert nofun) hhas (hhas _ hrow) (hhas _ hu) hfresh hstarted hplain⟩

theorem StepPost.mono {v' : View} {flow : Flow} {u : View} (hkept : ∀ r, v.Has r → v'.Has r)
    (h : StepPost v' l row flow u) : StepPost v l row flow u := by
  cases flow with
  | next l' => exact ⟨h.1, fun r hr => h.2.1 r (hkept r hr), h.2.2⟩
  | stop outcome => exact h

include h hrow hfresh in
theorem gates_onFailed (run : WorkflowRun) {steps : List WorkflowStepRun} (task : String)
    (hsteps : ∀ r ∈ steps, v.Has r) (hnamed : ∀ r ∈ steps, r.step.id ≠ "")
    (hlinked : (v.taskOf row.id).isSome = true) :
    Gates (StepPost v l row) (onFailed run steps l row task) v := by
  refine gates_claim (fun b => b) h.sound (fun _ _ => rfl) (gates_ret (post_next h)) ?_
  intro input now _ _ _
  have hhas : ∀ r, v.Has r → (v.update (View.on row.id) fun r =>
      { r with attempts := row.attempts + 1 }).Has r :=
    fun r hr => hr.update (fun _ => rfl) fun _ => rfl
  obtain ⟨hgate, hcounted⟩ := h.count (p := View.on row.id) (f := fun r =>
    { r with attempts := row.attempts + 1 }) (fun _ => rfl) (fun _ => rfl) fun _ => rfl
  have hclose : ∀ {status}, status = .failed ∨ status = .blocked →
      Gates (StepPost v l row) (closeStep l row status) (v.update (View.on row.id) fun r =>
        { r with attempts := row.attempts + 1 }) := fun hstatus =>
    gates_mono (fun _ _ => .mono hhas) (gates_closeStep hcounted (hhas _ hrow) hfresh hstatus)
  refine ⟨hgate, hcounted.sound, ?_⟩
  change Gates _ (if _ then _ else _) _
  split
  · exact gates_mono (fun _ _ => .mono hhas) (gates_retryStep hcounted (hhas _ hrow) run task hlinked)
  · split
    · exact hclose (.inr rfl)
    · split
      · exact hclose (.inr rfl)
      · rename_i hplain
        split
        · unfold onRejected
          split
          · rename_i u hupstream
            split
            · rename_i hrerun
              have hmem := List.mem_of_find?_eq_some hupstream
              have hname : u.step.id = row.step.dependsOn.head?.getD "" := by
                simpa using List.find?_some hupstream
              have hdep : u.step.id ∈ row.step.dependsOn := by
                cases hdeps : row.step.dependsOn with
                | nil =>
                    rw [hdeps] at hname
                    exact absurd hname (hnamed u hmem)
                | cons d ds =>
                    rw [hdeps] at hname
                    rw [hname]
                    exact List.mem_cons_self
              have hretry : u.step.retryable.getD false = true := by
                simp only [canRerun, Bool.and_eq_true] at hrerun
                exact hrerun.1
              exact gates_mono (fun _ _ => .mono hhas)
                (gates_rerunWorker hcounted (hhas _ hrow) hfresh run task (hhas _ (hsteps u hmem))
                  hlinked hdep hretry (by simpa using hplain))
            · exact hclose (.inl rfl)
          · exact hclose (.inl rfl)
        · exact hclose (.inl rfl)

include h hrow hfresh in
theorem gates_tickRunning (run : WorkflowRun) {steps : List WorkflowStepRun}
    (hsteps : ∀ r ∈ steps, v.Has r) (hnamed : ∀ r ∈ steps, r.step.id ≠ "") :
    Gates (StepPost v l row) (tickRunning run steps l row) v := by
  refine gates_quiet h.sound (fun _ _ => rfl) fun w input hw => ?_
  have hlink : (exec input (.stepTaskId row.id) w).2 = v.taskOf row.id := by
    rw [← hw]
    rfl
  rw [hlink]
  cases htask : v.taskOf row.id with
  | none => exact gates_resetIfWedged h hrow hfresh htask
  | some task =>
      have hlinked : (v.taskOf row.id).isSome = true := by rw [htask, Option.isSome_some]
      refine gates_quiet h.sound (fun _ _ => rfl) fun w input _ => ?_
      rcases (exec input (.getTaskStatus task) w).2 with _ | status
      · exact gates_ret (post_next h)
      · cases status with
        | succeeded => exact gates_onSucceeded h hrow hfresh task hlinked
        | failed => exact gates_onFailed h hrow hfresh run task hsteps hnamed hlinked
        | cancelled => exact gates_onCancelled h hrow hfresh
        | _ => exact gates_ret (post_next h)

include h hrow hfresh in
theorem gates_activate (run : WorkflowRun) (messages : List AgentMessage)
    (hready : ready l row = true) : Gates (StepPost v l row) (activate run l row messages) v := by
  have hdeps : ∀ {v' : View}, v'.Here l → ∀ d ∈ row.step.dependsOn, ∃ u ∈ v'.steps,
      u.step.id = d ∧ u.status = .succeeded := by
    intro v' hv' d hd
    exact hv'.sync d (beq_iff_eq.mp (List.all_eq_true.mp hready d hd))
  refine gates_claim (fun b => b) h.sound (fun _ _ => rfl) (gates_ret (post_next h)) ?_
  intro input now hnow hid hpending
  have hfree : v.Free row := (h.sound.free_of_pending hnow (beq_iff_eq.mp hpending)).congr
    (hrow.step_eq h.sound hnow hid).symm
  obtain ⟨hgate, hhere, hhas⟩ := h.move hrow (f := fun r =>
    { r with status := .running, startedAt := r.startedAt <|> some input.now }) (fun _ => rfl)
    (fun _ => rfl) (fun _ => rfl) hfresh (fun _ _ _ _ _ => hdeps h) nofun nofun
  refine ⟨hgate, hhere.sound, ?_⟩
  refine gates_quiet hhere.sound (fun w input => view_createTask input _ _ _ w) fun w input _ => ?_
  cases (exec input (.createTask row.id .activation (activationRequest run row.step messages))
      w).2 with
  | error e =>
      refine gates_write (fun _ _ => rfl) fun input _ => ?_
      obtain ⟨hgate, hback, _⟩ := hhere.move (hhas _ hrow) (f := fun r =>
        { r with
          status := .pending
          startedAt := if WorkflowStepStatus.pending = .running then r.startedAt <|> some input.now
            else r.startedAt }) (fun _ => rfl) (fun _ => rfl) (fun _ => rfl) hfresh nofun nofun
        fun _ => hfree.update (fun _ => rfl) fun _ => rfl
      exact ⟨hgate, hback.sound, gates_ret trivial⟩
  | ok new =>
      have hlinked := hhere.link (hhas _ hrow) new (.inr (hdeps hhere))
      refine gates_call fun w input hw => ?_
      rw [show (exec input (.setRoleRunTask row.id new) w).1.view = _ from
        congrArg (fun v : View =>
          { v with taskOf := fun k => if k = row.id then some new else v.taskOf k }) hw]
      refine ⟨.of_same rfl rfl hhere.sound.keyed, hlinked.sound, gates_ret ⟨?_, hhas, ?_⟩⟩
      · refine View.Here.push (hlinked.insert ?_) new
        nofun
      · intro d hd hsucceeded
        simpa [Progress.insert, Progress.push, hd] using hsucceeded

include h hrow in
theorem gates_tickStep (run : WorkflowRun) {steps : List WorkflowStepRun}
    (hsteps : ∀ r ∈ steps, v.Has r) (hnamed : ∀ r ∈ steps, r.step.id ≠ "")
    (hfresh : l.statusById row.step.id = some .succeeded → row.status = .succeeded) :
    Gates (StepPost v l row) (tickStep run steps l row) v := by
  unfold tickStep
  split
  case h_6 hstatus =>
      refine gates_tickRunning h hrow (fun hsucceeded => ?_) run hsteps hnamed
      rw [hfresh hsucceeded] at hstatus
      cases hstatus
  case h_7 hstatus =>
      unfold tickPending
      split
      · rename_i hready
        refine gates_quiet h.sound (fun _ _ => rfl) fun w input _ => ?_
        refine gates_activate h hrow (fun hsucceeded => ?_) run _ hready
        rw [hfresh hsucceeded] at hstatus
        cases hstatus
      · exact gates_ret (post_next h)
  all_goals exact gates_ret (post_next h)

end Handlers

section Runs

variable {v : View}

theorem WorkflowStepStatus.down_eq (status : WorkflowStepStatus) :
    status.down = (status == .blocked || (status == .failed || status == .cancelled)) := by
  cases status <;> rfl

theorem WorkflowStepStatus.done_eq (status : WorkflowStepStatus) :
    status.done = (status.terminal && !status.down) := by
  cases status <;> rfl

theorem finalStatus_succeeded {steps : List WorkflowStepRun}
    (h : finalStatus steps = some .succeeded) : ∀ row ∈ steps, row.status.done = true := by
  unfold finalStatus at h
  split at h
  · cases h
  · split at h
    · cases h
    · rename_i hblocked hfailed
      split at h
      · rename_i hterminal
        intro row hrow
        have hb := List.any_eq_false.mp (Bool.eq_false_iff.mpr hblocked) row hrow
        have hf := List.any_eq_false.mp (Bool.eq_false_iff.mpr hfailed) row hrow
        have ht := List.all_eq_true.mp hterminal row hrow
        rw [WorkflowStepStatus.done_eq, WorkflowStepStatus.down_eq, ht,
          Bool.eq_false_iff.mpr hb, Bool.eq_false_iff.mpr hf]
        rfl
      · cases h

theorem finalStatus_failed {steps : List WorkflowStepRun}
    (h : finalStatus steps = some .failed) : ∃ row ∈ steps, row.status.down = true := by
  unfold finalStatus at h
  split at h
  · cases h
  · split at h
    · rename_i hfailed
      obtain ⟨row, hrow, hstatus⟩ := List.any_eq_true.mp hfailed
      refine ⟨row, hrow, ?_⟩
      rw [WorkflowStepStatus.down_eq, hstatus, Bool.or_true]
    · split at h <;> cases h

theorem finalStatus_closed {steps : List WorkflowStepRun} {status : WorkflowRunStatus}
    (h : finalStatus steps = some status) : status ≠ .pending ∧ status ≠ .running := by
  unfold finalStatus at h
  repeat' split at h
  all_goals cases h
  all_goals constructor <;> nofun

abbrev EndPost : Outcome → View → Prop := fun outcome v => v.Ended outcome

/-- The status of the run is written, with what the steps say. -/
theorem gates_setStatus {α : Type} {post : α → View → Prop} (hv : v.Sound)
    {status : WorkflowRunStatus} {keys : List String} {next : Unit → Program α}
    (hsuccess : status = .succeeded → ∀ row ∈ v.steps, row.status.done = true)
    (hfailed : status = .failed → ∃ row ∈ v.steps, row.status.down = true)
    (h : Gates post (next ()) { v with status := status }) :
    Gates post (.call keys (.setWorkflowRunStatus status) next) v := by
  refine gates_call fun w input hw => ?_
  subst hw
  have hsame : w.view.Gate w.view := .of_same rfl rfl hv.keyed
  refine ⟨⟨hsame.activation, ?_⟩, hv.setStatus hfailed, h⟩
  exact fun _ hstatus => hsuccess hstatus

theorem gates_tickEnd (hv : v.Sound) (created : List String) :
    Gates EndPost (tickEnd created) v := by
  refine gates_quiet hv (fun _ _ => rfl) fun w input hw => ?_
  have hsteps : (exec input .getWorkflowRunSteps w).2 = v.steps := by
    rw [← hw]
    rfl
  rw [hsteps]
  dsimp only [Prog.bind]
  split
  · rename_i status hstatus
    refine gates_setStatus hv (fun heq => ?_) (fun heq => ?_) (gates_ret fun hopen => ?_)
    · subst heq
      exact finalStatus_succeeded hstatus
    · subst heq
      exact finalStatus_failed hstatus
    · obtain ⟨hpending, hrunning⟩ := finalStatus_closed hstatus
      exact absurd hopen (by rintro (h | h); exacts [hpending h, hrunning h])
  · rename_i hnone
    exact gates_ret fun _ => hnone

theorem gates_tickLoop (run : WorkflowRun) {steps : List WorkflowStepRun}
    (hnamed : ∀ r ∈ steps, r.step.id ≠ "") (rest : List WorkflowStepRun) {l : Progress}
    (h : v.Here l) (hsteps : ∀ r ∈ steps, v.Has r) (hrest : ∀ r ∈ rest, r ∈ steps)
    (hkeys : (rest.map (·.step.id)).Nodup)
    (hfresh : ∀ r ∈ rest, l.statusById r.step.id = some .succeeded → r.status = .succeeded) :
    Gates EndPost (tickLoop run steps rest l) v := by
  induction rest generalizing v l with
  | nil => exact gates_tickEnd h.sound l.created
  | cons row rest ih =>
      rw [List.map_cons, List.nodup_cons] at hkeys
      refine gates_bind (gates_tickStep h (hsteps row (hrest row List.mem_cons_self)) run hsteps
        hnamed (hfresh row List.mem_cons_self)) fun flow v' hpost => ?_
      cases flow with
      | stop outcome => exact gates_ret hpost
      | next l' =>
          obtain ⟨hhere, hhas, hold⟩ := hpost
          refine ih hhere (fun r hr => hhas r (hsteps r hr))
            (fun r hr => hrest r (List.mem_cons_of_mem _ hr)) hkeys.2 fun r hr hsucceeded => ?_
          refine hfresh r (List.mem_cons_of_mem _ hr) (hold _ (fun hsame => ?_) hsucceeded)
          exact hkeys.1 (List.mem_map.mpr ⟨r, hr, hsame⟩)

theorem start_statusById {steps : List WorkflowStepRun} {d : String}
    {status : WorkflowStepStatus} (h : (Progress.start steps).statusById d = some status) :
    ∃ row ∈ steps, row.step.id = d ∧ row.status = status := by
  have hfold : ∀ (steps : List WorkflowStepRun) (l : Progress),
      (steps.foldl (fun l row => l.insert row.step.id row.status) l).statusById d = some status →
        (∃ row ∈ steps, row.step.id = d ∧ row.status = status) ∨ l.statusById d = some status := by
    intro steps
    induction steps with
    | nil => exact fun l hl => .inr hl
    | cons row rest ih =>
        intro l hl
        obtain ⟨r, hr, hrd⟩ | hinsert := ih _ hl
        · exact .inl ⟨r, List.mem_cons_of_mem _ hr, hrd⟩
        · change (if d = row.step.id then some row.status else l.statusById d) = _ at hinsert
          split at hinsert
          · rename_i heq
            exact .inl ⟨row, List.mem_cons_self, heq.symm, Option.some.inj hinsert⟩
          · exact .inr hinsert
  obtain hfound | hnone := hfold steps _ h
  · exact hfound
  · cases hnone

theorem gates_tickSteps (run : WorkflowRun) (hv : v.Sound) (hrunning : v.status = .running) :
    Gates EndPost (tickSteps run) v := by
  refine gates_quiet hv (fun _ _ => rfl) fun w input hw => ?_
  have hsteps : (exec input .getWorkflowRunSteps w).2 = v.steps := by
    rw [← hw]
    rfl
  rw [hsteps]
  refine gates_tickLoop run hv.named v.steps ⟨hv, hrunning, fun d hd => start_statusById hd⟩
    (fun r hr => ⟨r, hr, rfl, rfl⟩) (fun r hr => hr) hv.keyed.2 fun r hr hsucceeded => ?_
  obtain ⟨u, hu, hud, hstatus⟩ := start_statusById hsucceeded
  rw [← hv.status_of_step hu hr hud]
  exact hstatus

theorem gates_cancelStepTasks (hv : v.Sound) (steps : List WorkflowStepRun) :
    Gates EndPost (cancelStepTasks steps) v := by
  induction steps with
  | nil =>
      refine gates_setStatus hv nofun nofun (gates_ret ?_)
      rintro (hstatus | hstatus) <;> cases hstatus
  | cons row rest ih =>
      unfold cancelStepTasks
      split
      · refine gates_quiet hv (fun _ _ => rfl) fun w input _ => ?_
        cases (exec input (.stepTaskId row.id) w).2 with
        | none => exact ih
        | some task => exact gates_quiet hv (fun _ _ => rfl) fun _ _ _ => ih
      · exact ih

theorem gates_tickBudget (run : WorkflowRun) (hv : v.Sound) (hrunning : v.status = .running) :
    Gates EndPost (tickBudget run) v := by
  refine gates_quiet hv (fun _ _ => rfl) fun w input _ => ?_
  cases (exec input .getBudget w).2 with
  | none => exact gates_tickSteps run hv hrunning
  | some budget =>
      refine gates_quiet hv (fun _ _ => rfl) fun _ _ _ => ?_
      refine gates_quiet hv (fun _ _ => rfl) fun _ _ _ => ?_
      dsimp only [Prog.ret_bind]
      split
      · exact gates_cancelStepTasks hv _
      · exact gates_tickSteps run hv hrunning

theorem gates_tickRun {run : WorkflowRun} (hv : v.Sound) (hrun : run.status = v.status) :
    Gates EndPost (tickRun run) v := by
  have hclosed : v.status ≠ .pending → v.status ≠ .running →
      Gates EndPost (.ret (.created [])) v := by
    intro hpending hrunning
    refine gates_ret fun hopen => ?_
    exact absurd hopen (by rintro (h | h); exacts [hpending h, hrunning h])
  unfold tickRun
  rw [hrun]
  split
  case h_6 hstatus =>
      exact gates_setStatus hv nofun nofun (gates_tickBudget run (hv.setStatus nofun) rfl)
  case h_7 hstatus => exact gates_tickBudget run hv hstatus
  all_goals
    rename_i hstatus
    refine hclosed ?_ ?_
    all_goals
      rw [hstatus]
      nofun

end Runs

section Calls

variable {parse : PlanParser} {v : View}

/-- A parser that gives every step of a plan an id. -/
def Naming (parse : PlanParser) : Prop :=
  ∀ text plan, parse text = .ok plan → ∀ s ∈ plan, s.id ≠ ""

theorem named_planRows {run : WorkflowRun} {plan : List WorkflowStep} {ids : Nat → String}
    (h : ∀ s ∈ plan, s.id ≠ "") : ∀ row ∈ World.planRows run plan ids, row.step.id ≠ "" := by
  have hmem : ∀ (steps : List WorkflowStep) (row : WorkflowStepRun),
      row ∈ steps.mapIdx (fun i s => (⟨ids i, s, 0, .pending, none⟩ : WorkflowStepRun)) →
        row.step ∈ steps := by
    intro steps row hrow
    obtain ⟨i, hi, rfl⟩ := List.mem_mapIdx.mp hrow
    exact List.getElem_mem hi
  intro row hrow
  obtain hplan | hcollect := List.mem_append.mp (hmem _ row hrow)
  · obtain ⟨s, hs, heq⟩ := List.mem_map.mp hplan
    rw [← heq]
    exact h s hs
  · split at hcollect
    · rw [List.mem_singleton.mp hcollect]
      exact (by decide : "collect" ≠ "")
    · cases hcollect

theorem View.Sound.expand {run : WorkflowRun} {plan : List WorkflowStep} (w : World)
    (hv : w.view.Sound) (hplan : ∀ s ∈ plan, s.id ≠ "") (ids : Nat → String) :
    w.view.Gate (w.expandPlan run plan ids).1.view ∧ (w.expandPlan run plan ids).1.view.Sound := by
  have hsame : w.view.Gate w.view ∧ w.view.Sound := ⟨.of_same rfl rfl hv.keyed, hv⟩
  unfold World.expandPlan
  dsimp only
  split
  · exact hsame
  · rename_i hunique
    split
    · exact hsame
    · rw [not_or, not_not, not_not] at hunique
      have hnew : ∀ row ∈ w.steps, row.id ∉ (World.planRows run plan ids).map (·.id) := by
        intro row hrow hmem
        have hnodup := hunique.1
        rw [List.map_append, List.nodup_append] at hnodup
        exact hnodup.2.2 row.id (List.mem_map.mpr ⟨row, hrow, rfl⟩) row.id hmem rfl
      have hlink : ∀ row ∈ w.steps, (if row.id ∈ (World.planRows run plan ids).map (·.id) then none
          else w.taskOf row.id) = w.taskOf row.id := fun row hrow => if_neg (hnew row hrow)
      have hfresh : ∀ row ∈ World.planRows run plan ids,
          (if row.id ∈ (World.planRows run plan ids).map (·.id) then none
            else w.taskOf row.id) = none := fun row hrow =>
        if_pos (List.mem_map.mpr ⟨row, hrow, rfl⟩)
      refine ⟨⟨?_, nofun⟩, hunique, ?_, ?_, ?_, nofun⟩
      · intro row hrow row' hrow' hid hpending hrunning
        obtain hold | hadded := List.mem_append.mp hrow'
        · rw [hv.status_of_id hold hrow hid, hpending] at hrunning
          cases hrunning
        · rw [(mem_planRows hadded).2] at hrunning
          cases hrunning
      · intro row hrow
        obtain hold | hadded := List.mem_append.mp hrow
        · exact hv.named row hold
        · exact named_planRows hplan row hadded
      · intro row hrow hstatus
        obtain hold | hadded := List.mem_append.mp hrow
        · change (if _ then none else _).isSome = true
          rw [hlink row hold]
          exact hv.worked row hold hstatus
        · rw [(mem_planRows hadded).2] at hstatus
          cases hstatus
      · intro row hrow hlinked d hd
        change (if _ then none else _).isSome = true at hlinked
        obtain hold | hadded := List.mem_append.mp hrow
        · rw [hlink row hold] at hlinked
          obtain ⟨u, hu, hud, hulinked, hustatus⟩ := hv.gated row hold hlinked d hd
          refine ⟨u, List.mem_append_left _ hu, hud, ?_, hustatus⟩
          change (if _ then none else _).isSome = true
          rw [hlink u hu]
          exact hulinked
        · rw [hfresh row hadded] at hlinked
          cases hlinked

theorem gates_approve (hparse : Naming parse) (hv : v.Sound) :
    Gates (fun reply v' => v'.Sound ∧ (reply.isOk = false → v'.status = v.status))
      (approveWorkflowPlan parse) v := by
  have hkept : ∀ e : String, Gates (fun reply v' => v'.Sound ∧
      (reply.isOk = false → v'.status = v.status)) (.ret (.error e : Except String Unit)) v :=
    fun e => gates_ret ⟨hv, fun _ => rfl⟩
  refine gates_quiet hv (fun _ _ => rfl) fun w input _ => ?_
  change Gates _ (if _ then _ else _) _
  split
  · refine gates_quiet hv (fun _ _ => rfl) fun w input _ => ?_
    cases (exec input .getWorkflowRunPlan w).2 with
    | none => exact hkept _
    | some text =>
        dsimp only [Prog.bind]
        split
        · exact hkept _
        · rename_i plan hplan
          refine gates_call fun w input hw => ?_
          subst hw
          obtain ⟨hgate, hsound⟩ := View.Sound.expand w hv (hparse text plan hplan) input.ids
          refine ⟨hgate, hsound, gates_ret ⟨hsound, fun hfailed => ?_⟩⟩
          change (w.expandPlan _ plan input.ids).2.isOk = false at hfailed
          change (w.expandPlan _ plan input.ids).1.run.status = w.run.status
          unfold World.expandPlan at hfailed ⊢
          dsimp only at hfailed ⊢
          split
          · rfl
          · rename_i hunique
            rw [if_neg hunique] at hfailed
            split
            · rfl
            · rename_i hready
              rw [if_neg hready] at hfailed
              cases hfailed
  · exact hkept _

theorem gates_tick (hparse : Naming parse) (hv : v.Sound) :
    Gates EndPost (tickWorkflowRun parse) v := by
  have hread : ∀ {v' : View}, v'.Sound → Gates EndPost (ask .getWorkflowRun >>= tickRun) v' := by
    intro v' hv'
    refine gates_quiet hv' (fun _ _ => rfl) fun w input hw => gates_tickRun hv' ?_
    rw [← hw]
    rfl
  refine gates_quiet hv (fun _ _ => rfl) fun w input hw => ?_
  have hrun : (exec input .getWorkflowRun w).2.status = v.status := by
    rw [← hw]
    rfl
  change Gates _ (if _ then _ else _) _
  split
  · rename_i hauto
    refine gates_bind (gates_approve hparse hv) fun reply v' hpost => ?_
    cases reply with
    | error e =>
        refine gates_ret fun hopen => ?_
        rw [hpost.2 rfl, ← hrun, hauto.1] at hopen
        rcases hopen with hopen | hopen <;> cases hopen
    | ok _ => exact hread hpost.1
  · exact gates_tickRun hv hrun

theorem gates_cancel (hv : v.Sound) : Gates EndPost (Call.program parse .cancel) v := by
  refine gates_call fun w input hw => ?_
  subst hw
  obtain hkept | ⟨_, hdone⟩ := exec_cancelWorkflowRun input w
  · rw [hkept]
    exact ⟨.of_same rfl rfl hv.keyed, hv, gates_ret trivial⟩
  · rw [hdone]
    have hupdate := hv.update (p := fun row => World.cancellable row.status)
      (f := fun row => { row with status := .cancelled }) (fun _ => rfl) (fun _ => rfl)
      (fun _ _ _ hnew => by cases hnew) (fun _ _ _ hnew => by cases hnew) fun _ _ _ _ _ => rfl
    have hgate := View.Gate.update (p := fun row => World.cancellable row.status)
      (f := fun row => { row with status := .cancelled }) hv (fun _ => rfl)
      fun _ _ _ _ hnew => by cases hnew
    exact ⟨⟨hgate.activation, nofun⟩, hupdate.setStatus nofun, gates_ret trivial⟩

theorem gates_block (hv : v.Sound) (step : String) :
    Gates EndPost (Call.program parse (.block step)) v := by
  refine gates_call fun w input hw => ?_
  subst hw
  have hid : ∀ row : WorkflowStepRun,
      (if World.keptByBlock row.status then row else { row with status := .blocked }).id =
        row.id := by
    intro row
    split <;> rfl
  have hstep : ∀ row : WorkflowStepRun,
      (if World.keptByBlock row.status then row else { row with status := .blocked }).step =
        row.step := by
    intro row
    split <;> rfl
  have hstatus : ∀ row : WorkflowStepRun,
      (if World.keptByBlock row.status then row else { row with status := .blocked }).status =
        row.status ∨
      (if World.keptByBlock row.status then row else { row with status := .blocked }).status =
        .blocked := by
    intro row
    split
    · exact .inl rfl
    · exact .inr rfl
  have hsound : (w.blockStep step).view.Sound := by
    refine hv.update hid hstep ?_ ?_ ?_
    · intro row _ _ hnew
      obtain hsame | hblocked := hstatus row
      · exact .inl (hsame.symm.trans hnew)
      · cases hblocked.symm.trans hnew
    · intro row _ _ hnew
      obtain hsame | hblocked := hstatus row
      · exact .inl (hsame.symm.trans hnew)
      · cases hblocked.symm.trans hnew
    · intro _ row _ _ hdown
      obtain hsame | hblocked := hstatus row
      · rw [hsame]
        exact hdown
      · rw [hblocked]
        rfl
  have hgate : w.view.Gate (w.blockStep step).view := by
    refine .update hv hid fun row _ _ hpending hrunning => ?_
    obtain hsame | hblocked := hstatus row
    · rw [hsame, hpending] at hrunning
      cases hrunning
    · cases hblocked.symm.trans hrunning
  change w.view.Gate (w.blockStepAndRun step).view ∧ (w.blockStepAndRun step).view.Sound ∧ _
  unfold World.blockStepAndRun
  split
  · exact ⟨⟨hgate.activation, nofun⟩, hsound.setStatus nofun, gates_ret trivial⟩
  · exact ⟨⟨hgate.activation, nofun⟩, hsound.setStatus nofun, gates_ret trivial⟩
  · exact ⟨hgate, hsound, gates_ret trivial⟩

theorem gates_program (hparse : Naming parse) (hv : v.Sound) (c : Call) :
    Gates EndPost (c.program parse) v := by
  cases c with
  | tick => exact gates_tick hparse hv
  | cancel => exact gates_cancel hv
  | block step => exact gates_block hv step
  | approve =>
      refine gates_bind (gates_approve hparse hv) fun reply v' _ => ?_
      cases reply <;> exact gates_ret trivial

end Calls

/-! ## Runs -/

/-- Calls come one after the other. -/
def inTurn (S : System) : Event → Bool
  | .start _ => S.calls.all fun c => c.2.pending.isNone
  | .advance _ _ | .abandon _ | .store _ => true

/-- What a call has returned. -/
def System.answer (S : System) (i : Nat) : Option (Call × Outcome) :=
  match S.calls[i]? with
  | some (c, .ret outcome) => some (c, outcome)
  | _ => none

theorem System.answer_eq {S : System} {i : Nat} {c : Call} {outcome : Outcome}
    (h : S.answer i = some (c, outcome)) : S.calls[i]? = some (c, .ret outcome) := by
  unfold System.answer at h
  split at h
  · rename_i hcall
    cases h
    exact hcall
  · cases h

/-- At most one call is under way, and it will do what the run may rely on. -/
structure Sequenced (S : System) : Prop where
  sound : S.world.view.Sound
  one : ∀ (i : Nat) c p, S.calls[i]? = some (c, p) → p.pending = none ∨
    Gates EndPost p S.world.view ∧
      ∀ (j : Nat) c' q, j ≠ i → S.calls[j]? = some (c', q) → q.pending = none

theorem gates_of_meets {p : Program Outcome} {w : World}
    (h : p.Meets exec gateTerms (fun outcome w => EndPost outcome w.view) w) :
    Gates EndPost p w.view := by
  intro w' hview
  refine h.stable ?_ hview
  exact fun hfirst hsecond => hsecond.trans hfirst

/-- One transaction of the call under way. -/
theorem Sequenced.advance {S : System} (hS : Sequenced S) {i : Nat} {c : Call}
    {keys : List String} {tx : Tx} {next : tx.Reply → Program Outcome} (input : Input)
    (hcall : S.calls[i]? = some (c, .call keys tx next)) :
    S.world.view.Gate (exec input tx S.world).1.view ∧
      Gates EndPost (next (exec input tx S.world).2) (exec input tx S.world).1.view ∧
      Sequenced ⟨(exec input tx S.world).1,
        S.calls.set i (c, next (exec input tx S.world).2)⟩ := by
  obtain hreturned | ⟨hgates, hothers⟩ := hS.one i c _ hcall
  · cases hreturned
  · obtain ⟨_, hrun⟩ := hgates S.world rfl S.world rfl
    obtain ⟨⟨hgate, hsound⟩, hmeets⟩ := hrun input trivial
    have hnext := gates_of_meets hmeets
    refine ⟨hgate, hnext, hsound, fun j c' q hq => ?_⟩
    obtain ⟨rfl, hnew⟩ | ⟨hji, hold⟩ := mem_set hq
    · cases hnew
      refine .inr ⟨hnext, fun k c'' r hk hr => ?_⟩
      obtain ⟨rfl, _⟩ | ⟨_, hother⟩ := mem_set hr
      · exact absurd rfl hk
      · exact hothers k c'' r hk hother
    · exact .inl (hothers j c' q hji hold)

theorem Sequenced.start {parse : PlanParser} (hparse : Naming parse) {S : System}
    (hS : Sequenced S) (c : Call) (hidle : inTurn S (.start c) = true) :
    Sequenced { S with calls := S.calls ++ [(c, c.program parse)] } := by
  have hold : ∀ (i : Nat) c' p, S.calls[i]? = some (c', p) → p.pending = none := by
    intro i c' p hp
    have hmem := List.all_eq_true.mp hidle (c', p) (List.mem_of_getElem? hp)
    exact Option.isNone_iff_eq_none.mp hmem
  refine ⟨hS.sound, fun i c' p hp => ?_⟩
  change (S.calls ++ [(c, c.program parse)])[i]? = some (c', p) at hp
  rw [List.getElem?_append] at hp
  split at hp
  · exact .inl (hold i c' p hp)
  · rename_i hi
    have hmem := List.mem_of_getElem? hp
    simp only [List.mem_singleton, Prod.mk.injEq] at hmem
    obtain ⟨rfl, rfl⟩ := hmem
    refine .inr ⟨gates_program hparse hS.sound c', fun j c'' q hji hq => ?_⟩
    change (S.calls ++ [(c', c'.program parse)])[j]? = some (c'', q) at hq
    rw [List.getElem?_append] at hq
    split at hq
    · exact hold j c'' q hq
    · rename_i hj
      have hilen : i = S.calls.length := by
        have := (List.getElem?_eq_some_iff.mp hp).1
        simp only [List.length_singleton] at this
        omega
      have hjlen := (List.getElem?_eq_some_iff.mp hq).1
      simp only [List.length_singleton] at hjlen
      omega

theorem sequenced_step {parse : PlanParser} (hparse : Naming parse) {S S' : System} {e : Event}
    (hS : Sequenced S) (h : Steps parse S e S') (hcond : inTurn S e = true) :
    Sequenced S' := by
  obtain ⟨c, rfl, rfl⟩ | ⟨i, input, c, keys, tx, next, rfl, hcall, rfl⟩ |
    ⟨i, c, p, rfl, hcall, rfl⟩ | ⟨op, rfl, rfl⟩ := step_cases h
  · exact hS.start hparse c hcond
  · exact (hS.advance input hcall).2.2
  · refine ⟨hS.sound, fun j c' q hq => ?_⟩
    obtain ⟨_, hnew⟩ | ⟨hji, hold⟩ := mem_set hq
    · cases hnew
      exact .inl rfl
    · obtain hreturned | ⟨hgates, hothers⟩ := hS.one j c' q hold
      · exact .inl hreturned
      · refine .inr ⟨hgates, fun k c'' r hkj hr => ?_⟩
        obtain ⟨_, hnew⟩ | ⟨_, hother⟩ := mem_set hr
        · cases hnew
          rfl
        · exact hothers k c'' r hkj hother
  · exact ⟨hS.sound, hS.one⟩

theorem Sequenced.initial {S : System} (hS : S.Initial)
    (hnamed : ∀ row ∈ S.world.steps, row.step.id ≠ "") : Sequenced S := by
  obtain ⟨⟨_, hrun, hsteps, hkeyed, htasks, _⟩, hcalls⟩ := hS
  have hunlinked : ∀ k, S.world.view.taskOf k = none := fun k => congrFun htasks k
  refine ⟨⟨hkeyed, hnamed, ?_, ?_, ?_⟩, fun i c p hp => ?_⟩
  · intro row hrow hstatus
    cases (hsteps row hrow).2.1.symm.trans hstatus
  · intro row _ hlinked
    rw [hunlinked] at hlinked
    cases hlinked
  · intro hfailed
    cases hrun.symm.trans hfailed
  · rw [hcalls] at hp
    cases hp

theorem finalStatus_none {steps : List WorkflowStepRun} (h : finalStatus steps = none) :
    (∀ row ∈ steps, row.status.down = false) ∧ ∃ row ∈ steps, row.status.done = false := by
  unfold finalStatus at h
  split at h
  · cases h
  · split at h
    · cases h
    · rename_i hblocked hfailed
      split at h
      · cases h
      · rename_i hterminal
        have hup : ∀ row ∈ steps, row.status.down = false := by
          intro row hrow
          have hb := List.any_eq_false.mp (Bool.eq_false_iff.mpr hblocked) row hrow
          have hf := List.any_eq_false.mp (Bool.eq_false_iff.mpr hfailed) row hrow
          rw [WorkflowStepStatus.down_eq, Bool.eq_false_iff.mpr hb, Bool.eq_false_iff.mpr hf]
          rfl
        refine ⟨hup, ?_⟩
        obtain ⟨row, hrow, hopen⟩ := List.all_eq_false.mp (Bool.eq_false_iff.mpr hterminal)
        refine ⟨row, hrow, ?_⟩
        rw [WorkflowStepStatus.done_eq, Bool.eq_false_iff.mpr hopen, Bool.false_and]

theorem WorkflowStepStatus.done_iff {status : WorkflowStepStatus} :
    status.done = true ↔ status = .succeeded ∨ status = .skipped := by
  cases status <;> simp [WorkflowStepStatus.done]

theorem gate_step {parse : PlanParser} {S S' : System} {e : Event} (hS : Sequenced S)
    (h : Steps parse S e S') : S.world.view.Gate S'.world.view := by
  obtain ⟨c, rfl, rfl⟩ | ⟨i, input, c, keys, tx, next, rfl, hcall, rfl⟩ |
    ⟨i, c, p, rfl, hcall, rfl⟩ | ⟨op, rfl, rfl⟩ := step_cases h
  · exact .of_same rfl rfl hS.sound.keyed
  · exact (hS.advance input hcall).1
  · exact .of_same rfl rfl hS.sound.keyed
  · exact .of_same rfl rfl hS.sound.keyed

theorem ended_step {parse : PlanParser} {S S' : System} {i : Nat} {input : Input} {c : Call}
    {outcome : Outcome} (hS : Sequenced S) (h : Steps parse S (.advance i input) S')
    (hend : S'.answer i = some (c, outcome)) :
    S'.world.view.Sound ∧ S'.world.view.Ended outcome := by
  obtain ⟨_, he, _⟩ | ⟨j, input', c', keys, tx, next, he, hcall, rfl⟩ | ⟨_, _, _, he, _⟩ |
    ⟨_, he, _⟩ := step_cases h
  · cases he
  · cases he
    obtain ⟨_, hnext, hsequenced⟩ := hS.advance input hcall
    refine ⟨hsequenced.sound, ?_⟩
    replace hend := System.answer_eq hend
    change (S.calls.set i _)[i]? = _ at hend
    rw [List.getElem?_set_self (List.getElem?_eq_some_iff.mp hcall).1] at hend
    obtain ⟨_, hret⟩ := Prod.mk.inj (Option.some.inj hend)
    rw [hret] at hnext
    exact hnext _ rfl _ rfl
  · cases he
  · cases he

/-- Calls in turn, in every state they reach and for every step from it: a step
is started when its dependencies have succeeded; the run is set to `succeeded`
when every step is succeeded or skipped; and when a tick returns its tasks, a run
whose steps all are is succeeded, or paused for its plan, blocked or cancelled,
and a run that is still running has no step failed or blocked. -/
theorem workflow_gated (parse : PlanParser) (hparse : Naming parse) {S₀ : System}
    (hS₀ : S₀.Initial) (hnamed : ∀ row ∈ S₀.world.steps, row.step.id ≠ "") {es : List Event}
    {S : System} (hrun : Runs (During (Steps parse) fun S e => inTurn S e = true) S₀ es S)
    {e : Event} {S' : System} (hstep : Steps parse S e S') (hturn : inTurn S e = true) :
    (∀ row ∈ S.world.steps, ∀ row' ∈ S'.world.steps, row'.id = row.id →
      row.status = .pending → row'.status = .running →
        ∀ d ∈ row.step.dependsOn, ∃ u ∈ S.world.steps, u.step.id = d ∧ u.status = .succeeded) ∧
    (S.world.run.status ≠ .succeeded → S'.world.run.status = .succeeded →
      ∀ row ∈ S'.world.steps, row.status = .succeeded ∨ row.status = .skipped) ∧
    ∀ i input tasks, e = .advance i input →
      S'.answer i = some (.tick, .created tasks) →
      ((∀ row ∈ S'.world.steps, row.status = .succeeded ∨ row.status = .skipped) →
        S'.world.run.status = .succeeded ∨ S'.world.run.status = .planReady ∨
          S'.world.run.status = .blocked ∨ S'.world.run.status = .cancelled) ∧
      (S'.world.run.status = .running →
        ∀ row ∈ S'.world.steps, row.status ≠ .failed ∧ row.status ≠ .blocked) := by
  have hS : Sequenced S := hrun.invariant Sequenced
    (fun hS hstep => sequenced_step hparse hS hstep.1 hstep.2) (.initial hS₀ hnamed)
  have hgate := gate_step hS hstep
  refine ⟨hgate.activation, fun hne heq row hrow => ?_, ?_⟩
  · exact WorkflowStepStatus.done_iff.mp (hgate.success hne heq row hrow)
  · rintro i input tasks rfl hend
    obtain ⟨hsound, hended⟩ := ended_step hS hstep hend
    constructor
    · intro hdone
      have hopen : ¬ (S'.world.run.status = .pending ∨ S'.world.run.status = .running) := by
        intro hopen
        obtain ⟨_, row, hrow, hfalse⟩ := finalStatus_none (hended hopen)
        rw [WorkflowStepStatus.done_iff.mpr (hdone row hrow)] at hfalse
        cases hfalse
      have hfailed : S'.world.run.status ≠ .failed := by
        intro hfailed
        obtain ⟨row, hrow, hdown⟩ := hsound.failed hfailed
        rcases hdone row hrow with hstatus | hstatus <;> rw [hstatus] at hdown <;> cases hdown
      cases hstatus : S'.world.run.status <;> simp_all
    · intro hrunning row hrow
      have hup := (finalStatus_none (hended (.inr hrunning))).1 row hrow
      constructor <;> intro hstatus <;> rw [hstatus] at hup <;> cases hup

/-- The first tick of a worker and its verifier ends. -/
theorem workflow_gated_first_tick :
    ∃ S S', Runs (During (Steps noPlan) fun S e => inTurn S e = true) loop
        ([enroll, .start .tick] ++ advance 0 8 "t1") S ∧
      Steps noPlan S (.advance 0 {}) S' ∧ S'.world.run.status = .running ∧
      ∀ row ∈ S'.world.steps, row.status ≠ .failed ∧ row.status ≠ .blocked := by
  have hfirst : (([enroll, .start .tick] ++ advance 0 8 "t1").foldlM (fun S e =>
      if inTurn S e then System.step noPlan S e else none) loop).any (fun S =>
        (System.step noPlan S (.advance 0 {})).any fun S' =>
          S'.world.run.status == .running && S'.answer 0 == some (.tick, .created ["t1"])) =
      true := by
    decide
  obtain ⟨S, hS, hlast⟩ := (Option.any_eq_true _ _).mp hfirst
  obtain ⟨S', hS', hend⟩ := (Option.any_eq_true _ _).mp hlast
  rw [Bool.and_eq_true, beq_iff_eq, beq_iff_eq] at hend
  have hrun := Runs.foldlM hS
  have hnaming : Naming noPlan := fun text plan hplan => by cases hplan
  have hgated := workflow_gated noPlan hnaming loop_initial (by decide) hrun hS' rfl
  exact ⟨S, S', hrun, hS', hend.1, (hgated.2.2 0 {} ["t1"] rfl hend.2).2 hend.1⟩

def firstRow : WorkflowStepRun := { id := "s1", step := { id := "a", adapter := some "claude" } }

def secondRow : WorkflowStepRun := { id := "s2", step := { id := "b", adapter := some "claude" } }

def refusal (i : Nat) : List Event := [.advance i { refused := some "disk I/O error" }]

/-- Two steps without dependencies; no task can be created for the second, in
the tick that starts the first and in the tick that finds it failed. -/
def unlucky : List Event :=
  [enroll, .start .tick] ++ advance 0 10 "t1" ++ refusal 0 ++ advance 0 1 "" ++ attempt "a1" 1 ++
    ([Event.start .tick] ++ advance 1 9 "" ++ refusal 1 ++ advance 1 1 "")

def nameless : List WorkflowStepRun :=
  [{ id := "s1", step := { id := "verify", role := .verifier, adapter := some "claude" } },
   { id := "s2", step := { id := "", dependsOn := ["x"], adapter := some "claude",
                           retryable := some true } },
   { id := "s3", step := { id := "x", adapter := some "claude" } }]

/-- The verifier's task fails, and the step with the empty id is taken for the
worker that it verifies. -/
def mistaken : List Event :=
  [enroll, .start .tick] ++ advance 0 8 "t1" ++ advance 0 5 "t2" ++ attempt "a1" 1 ++
    ([Event.start .tick] ++ advance 1 9 "t3")

theorem inTurn_run {steps : List WorkflowStepRun} {es : List Event} {parse : PlanParser}
    {good : System → Bool}
    (h : (es.foldlM (fun S e => if inTurn S e then System.step parse S e else none)
      (begunWith steps)).any good = true) :
    ∃ S, Runs (During (Steps parse) fun S e => inTurn S e = true) (begunWith steps) es S ∧
      good S = true := by
  obtain ⟨S, hS, hgood⟩ := (Option.any_eq_true _ _).mp h
  exact ⟨S, Runs.foldlM hS, hgood⟩

/-- A tick that pauses the run for a plan returns with every step succeeded; a
tick that returns an error leaves the run running beside a failed step; and a
step with an empty id is started, by the failure of a verifier without
dependencies, while the step it depends on runs. -/
theorem workflow_not_gated :
    (∃ S, Runs (During (Steps onePart) fun S e => inTurn S e = true) (begunWith [architectRow])
        (planned ++ advance 1 11 "t2") S ∧ S.answer 1 = some (.tick, .created []) ∧
      (∀ row ∈ S.world.steps, row.status = .succeeded) ∧ S.world.run.status = .planReady) ∧
    (∃ S, Runs (During (Steps noPlan) fun S e => inTurn S e = true)
        (begunWith [firstRow, secondRow]) unlucky S ∧
      S.answer 1 = some (.tick, .refused "disk I/O error") ∧ S.world.run.status = .running ∧
      S.world.steps.map (·.status) = [.failed, .pending]) ∧
    (∃ S S', Runs (During (Steps noPlan) fun S e => inTurn S e = true) (begunWith nameless)
        mistaken S ∧ Steps noPlan S (.advance 1 {}) S' ∧
      S.world.steps.map (·.status) = [.running, .pending, .running] ∧
      S'.world.steps.map (·.status) = [.running, .running, .running]) := by
  refine ⟨?_, ?_, ?_⟩
  · have hend : ((planned ++ advance 1 11 "t2").foldlM (fun S e =>
        if inTurn S e then System.step onePart S e else none) (begunWith [architectRow])).any
        (fun S => S.answer 1 == some (.tick, .created []) &&
          S.world.steps.all (fun row => row.status == .succeeded) &&
            S.world.run.status == .planReady) = true := by
      decide
    obtain ⟨S, hrun, hS⟩ := inTurn_run hend
    simp only [Bool.and_eq_true, beq_iff_eq, List.all_eq_true] at hS
    exact ⟨S, hrun, hS.1.1, hS.1.2, hS.2⟩
  · have hend : (unlucky.foldlM (fun S e =>
        if inTurn S e then System.step noPlan S e else none)
        (begunWith [firstRow, secondRow])).any
        (fun S => S.answer 1 == some (.tick, .refused "disk I/O error") &&
          S.world.run.status == .running &&
            S.world.steps.map (·.status) == [.failed, .pending]) = true := by
      decide
    obtain ⟨S, hrun, hS⟩ := inTurn_run hend
    simp only [Bool.and_eq_true, beq_iff_eq] at hS
    exact ⟨S, hrun, hS.1.1, hS.1.2, hS.2⟩
  · have hend : (mistaken.foldlM (fun S e =>
        if inTurn S e then System.step noPlan S e else none) (begunWith nameless)).any
        (fun S => S.world.steps.map (·.status) == [.running, .pending, .running] &&
          (System.step noPlan S (.advance 1 {})).any fun S' =>
            S'.world.steps.map (·.status) == [.running, .running, .running]) = true := by
      decide
    obtain ⟨S, hrun, hS⟩ := inTurn_run hend
    rw [Bool.and_eq_true, beq_iff_eq] at hS
    obtain ⟨S', hstep, hS'⟩ := (Option.any_eq_true _ _).mp hS.2
    exact ⟨S, S', hrun, hstep, hS.1, beq_iff_eq.mp hS'⟩

end AgentGrid.Workflow
