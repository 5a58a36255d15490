import AgentGrid.Workflow.Effects

/-!
# Finality of runs and steps

A run that succeeded, failed or was cancelled, and a step in a terminal status,
stay as they are under every call that begins from then on.  Two writes can
still change them.  The verifier loop puts the worker of a rejected verifier
back to `running`; that is its purpose.  And a tick that was already in
progress writes its statuses without looking again.
-/

namespace AgentGrid.Workflow

open AgentGrid.Foundation

variable {parse : PlanParser}

/-- No condition on the others, an invariant of the world before and after each
transaction, and a restriction on the transactions themselves. -/
def finalTerms (I : World → Prop) (ok : Tx → Prop) : Prog.Terms Tx String World Input where
  rely _ _ _ := True
  grant _ tx _ w := I w ∧ ok tx
  duty _ _ _ _ _ w := I w

abbrev Keeps (I : World → Prop) (ok : Tx → Prop) {α : Type} (p : Program α) : Prop :=
  ∀ w, p.Meets exec (finalTerms I ok) (fun _ _ => True) w

section Calls

variable {I : World → Prop} {ok : Tx → Prop} {α β : Type}

theorem Keeps.ret (value : α) : Keeps I ok (.ret value : Program α) :=
  fun _ _ _ => trivial

theorem Keeps.hold {keys : List String} {tx : Tx} {f : tx.Reply → Program α}
    (h : ∀ input w, I w → ok tx → I (exec input tx w).1 ∧ Keeps I ok (f (exec input tx w).2)) :
    Keeps I ok (hold keys tx >>= f) := by
  refine fun w w' _ => ⟨trivial, fun input hgrant => ?_⟩
  obtain ⟨hkept, hnext⟩ := h input w' hgrant.1 hgrant.2
  exact ⟨hkept, hnext _⟩

theorem Keeps.bind {p : Program α} {f : α → Program β} (hp : Keeps I ok p)
    (hheld : ∀ value, (f value).held = []) (hf : ∀ value, Keeps I ok (f value)) :
    Keeps I ok (p >>= f) := by
  intro w
  refine .bind (fun _ _ => trivial) hheld ?_
  exact (hp w).mono fun value s _ => hf value s

/-- The calls that began at `begun` or later keep the invariant. -/
structure Guarded (I : World → Prop) (ok : Tx → Prop) (begun : Nat) (S : System) : Prop where
  holds : I S.world
  later : ∀ i c, begun ≤ i → S.calls[i]? = some c → Keeps I ok c.2

theorem Guarded.step {begun : Nat} {S S' : System} {e : Event}
    (hstore : ∀ {w : World} (db : Store.Database), I w → I { w with db := db })
    (hcalls : ∀ c : Call, Keeps I ok (c.program parse))
    (h : Guarded I ok begun S) (hstep : Steps parse S e S')
    (hearly : ∀ i input tx, e = .advance i input → S.next i = some tx → i < begun →
      I (exec input tx S.world).1)
    (hlate : ∀ i input tx, e = .advance i input → S.next i = some tx → begun ≤ i → ok tx) :
    Guarded I ok begun S' := by
  obtain ⟨c, rfl, rfl⟩ | ⟨i, input, c, keys, tx, next, rfl, hcall, rfl⟩ |
    ⟨i, c, p, rfl, hcall, rfl⟩ | ⟨op, rfl, rfl⟩ := step_cases hstep
  · refine ⟨h.holds, fun i p hi hp => ?_⟩
    rw [List.getElem?_append] at hp
    split at hp
    · exact h.later i p hi hp
    · obtain ⟨_, rfl⟩ := List.getElem?_eq_some_iff.mp hp
      simpa using hcalls c
  · have hadvance : begun ≤ i → I (exec input tx S.world).1 ∧
        Keeps I ok (next (exec input tx S.world).2) := by
      intro hi
      have hmeets := (h.later i _ hi hcall S.world S.world trivial).2 input
        ⟨h.holds, hlate i input tx rfl (next_of_call hcall) hi⟩
      exact ⟨hmeets.1, fun w => hmeets.2.stable (fun _ _ => trivial) trivial⟩
    refine ⟨?_, fun j p hj hp => ?_⟩
    · by_cases hi : i < begun
      · exact hearly i input tx rfl (next_of_call hcall) hi
      · exact (hadvance (not_lt.mp hi)).1
    · obtain ⟨rfl, rfl⟩ | ⟨_, hp⟩ := mem_set hp
      · exact (hadvance hj).2
      · exact h.later j p hj hp
  · refine ⟨h.holds, fun j p hj hp => ?_⟩
    obtain ⟨rfl, rfl⟩ | ⟨_, hp⟩ := mem_set hp
    · exact .ret _
    · exact h.later j p hj hp
  · exact ⟨hstore _ h.holds, h.later⟩

end Calls

section Run

variable {status : WorkflowRunStatus}

theorem tickRun_of_terminal {run : WorkflowRun} (h : run.status.terminal = true) :
    tickRun run = .ret (.created []) := by
  unfold tickRun
  cases hrun : run.status <;> simp_all [WorkflowRunStatus.terminal]

private theorem terminal_ne_planReady (h : status.terminal = true) : status ≠ .planReady := by
  rintro rfl
  cases h

theorem keeps_approve_run (h : status.terminal = true) :
    Keeps (fun w => w.run.status = status) (fun _ => True) (approveWorkflowPlan parse) := by
  refine Keeps.hold fun input w hw _ => ⟨hw, ?_⟩
  have hrun : (exec input .getWorkflowRun w).2.status ≠ .planReady := by
    unfold exec
    simp only [hw]
    exact terminal_ne_planReady h
  rw [if_neg hrun]
  exact Keeps.ret _

theorem keeps_call_run (h : status.terminal = true) (c : Call) :
    Keeps (fun w => w.run.status = status) (fun _ => True) (c.program parse) := by
  cases c with
  | tick =>
      refine Keeps.hold fun input w hw _ => ⟨hw, ?_⟩
      have hrun : (exec input .getWorkflowRun w).2.status = status := hw
      rw [if_neg fun hready => terminal_ne_planReady h (hrun ▸ hready.1),
        tickRun_of_terminal (by rw [hrun]; exact h)]
      exact Keeps.ret _
  | cancel =>
      refine Keeps.hold fun input w hw _ => ⟨?_, Keeps.ret _⟩
      obtain hkept | hmoved := exec_run input .cancelWorkflowRun w
      · exact hkept.trans hw
      · cases Tx.movesRun_of_terminal hmoved (by rw [hw]; exact h)
  | approve =>
      refine Keeps.bind (keeps_approve_run h) (fun value => ?_) fun value => ?_
      · cases value <;> rfl
      · cases value <;> exact Keeps.ret _
  | block step =>
      refine Keeps.hold fun input w hw _ => ⟨?_, Keeps.ret _⟩
      obtain hkept | hmoved := exec_run input (.blockStepAndRun step) w
      · exact hkept.trans hw
      · cases Tx.movesRun_of_terminal hmoved (by rw [hw]; exact h)

/-- The run's status is not written by a tick that began before `begun`. -/
def sparesRun (begun : Nat) (S : System) : Event → Bool
  | .advance i _ =>
      match S.next i with
      | some (.setWorkflowRunStatus _) => begun ≤ i
      | _ => true
  | _ => true

theorem run_kept {begun : Nat} {S S' : System} {es : List Event}
    (h : S.world.run.status.terminal = true) (hcalls : S.calls.length ≤ begun)
    (hrun : Runs (During (Steps parse) fun S e => sparesRun begun S e = true) S es S') :
    S'.world.run.status = S.world.run.status := by
  have hinit : Guarded (fun w => w.run.status = S.world.run.status) (fun _ => True) begun S := by
    refine ⟨rfl, fun i p hi hp => ?_⟩
    obtain ⟨hlt, _⟩ := List.getElem?_eq_some_iff.mp hp
    omega
  refine (Runs.invariant _ (fun {S₁ e S₂} hS hstep => ?_) hrun hinit).holds
  obtain ⟨hstep, hspares⟩ := hstep
  refine hS.step (fun _ hw => hw) (keeps_call_run h) hstep ?_ fun _ _ _ _ _ _ => trivial
  rintro i input tx rfl htx hi
  obtain hkept | hmoved := exec_run input tx S₁.world
  · exact hkept.trans hS.holds
  · rw [Tx.movesRun_of_terminal hmoved (by rw [hS.holds]; exact h)] at htx
    simp only [sparesRun, htx, decide_eq_true_eq] at hspares
    omega

end Run

section Steps

variable {k : String} {status : WorkflowStepStatus}

/-- The step's row, which its id makes unique, has the status. -/
def World.StepIs (w : World) (k : String) (status : WorkflowStepStatus) : Prop :=
  Keyed w.steps ∧ ∃ row, w.step k = some row ∧ row.status = status

/-- Neither the verifier loop's re-run of the step nor, in a cancelled step, the
block of an expired approval. -/
def Tx.leaves (k : String) (status : WorkflowStepStatus) (tx : Tx) : Prop :=
  tx ≠ .setStepStatus k .running ∧ (tx = .blockStepAndRun k → status ≠ .cancelled)

/-- The transactions of a tick that has read the step in a terminal status. -/
def Tx.informed (k : String) (tx : Tx) : Prop :=
  ∀ status, tx = .setStepStatus k status → status = .running

theorem exec_stepIs (h : status.terminal = true) {w : World} (hw : w.StepIs k status)
    (input : Input) {tx : Tx} (hset : ∀ new, tx ≠ .setStepStatus k new)
    (hblock : tx = .blockStepAndRun k → status ≠ .cancelled) :
    (exec input tx w).1.StepIs k status := by
  obtain ⟨hkeyed, row, hrow, rfl⟩ := hw
  obtain ⟨row', hrow', hmove⟩ := exec_row input tx hrow
  refine ⟨exec_keyed input tx hkeyed, row', hrow', ?_⟩
  obtain hkept | hmoved := hmove.status
  · exact hkept
  · rw [World.id_of_step hrow] at hmoved
    obtain rfl | ⟨rfl, hcancelled⟩ := Tx.moves_of_terminal hmoved h
    · exact absurd rfl (hset _)
    · exact absurd hcancelled (hblock rfl)

/-- The transactions of a program whose writes of the step's status are re-runs. -/
abbrev Informed (k : String) {α : Type} (p : Program α) : Prop :=
  p.All fun _ tx => tx.informed k

theorem Keeps.of_informed (h : status.terminal = true) {α : Type} {p : Program α}
    (hp : Informed k p) : Keeps (World.StepIs · k status) (Tx.leaves k status) p := by
  intro w
  refine .of_all (fun _ => True) (fun _ _ => trivial) (fun hinformed _ => ?_) hp trivial
  refine ⟨trivial, fun input hgrant => ⟨trivial, fun _ _ => ?_⟩⟩
  obtain ⟨hw, hrerun, hblock⟩ := hgrant
  refine exec_stepIs h hw input (fun new hnew => ?_) hblock
  obtain rfl := hinformed new hnew
  exact hrerun hnew

theorem informed_of_benign {α : Type} {p : Program α} (hp : Benign p) : Informed k p := by
  refine hp.imp fun htx => ?_
  rintro new rfl
  cases htx.2

theorem Keeps.of_benign (h : status.terminal = true) {α : Type} {p : Program α}
    (hp : Benign p) : Keeps (World.StepIs · k status) (Tx.leaves k status) p :=
  .of_informed h (informed_of_benign hp)

theorem all_closeStep {l : Progress} {row : WorkflowStepRun} {new : WorkflowStepStatus}
    (hrow : row.id ≠ k) : Informed k (closeStep l row new) := by
  refine all_hold (fun status h => ?_) fun _ => trivial
  injection h with hid
  exact absurd hid hrow

theorem all_rerunWorker {run : WorkflowRun} {l : Progress} {row u : WorkflowStepRun}
    {task : String} (hrow : row.id ≠ k) :
    Informed k (rerunWorker run l row u task) := by
  refine all_hold nofun fun claimed => ?_
  cases claimed with
  | false => exact trivial
  | true =>
      refine all_hold nofun fun reply => ?_
      cases reply with
      | error e => exact all_hold nofun fun _ => trivial
      | ok new =>
          refine all_hold nofun fun _ => all_hold (fun status h => ?_) fun _ =>
            all_hold (fun status h => ?_) fun _ => trivial
          · injection h with _ hstatus
            exact hstatus.symm
          · injection h with hid
            exact absurd hid hrow

theorem all_onFailed {run : WorkflowRun} {steps : List WorkflowStepRun} {l : Progress}
    {row : WorkflowStepRun} {task : String} (hrow : row.id ≠ k) :
    Informed k (onFailed run steps l row task) := by
  refine all_hold nofun fun claimed => ?_
  cases claimed with
  | false => exact trivial
  | true =>
      rw [if_pos rfl]
      split
      · refine all_hold nofun fun reply => ?_
        cases reply with
        | error e => exact all_hold nofun fun _ => trivial
        | ok new => exact all_hold nofun fun _ => trivial
      split
      · exact all_closeStep hrow
      split
      · exact all_closeStep hrow
      split
      · unfold onRejected
        split
        · split
          · exact all_rerunWorker hrow
          · exact all_closeStep hrow
        · exact all_closeStep hrow
      · exact all_closeStep hrow

theorem all_tickStep {run : WorkflowRun} {steps : List WorkflowStepRun} {l : Progress}
    {row : WorkflowStepRun} (hrow : row.id = k → row.status.terminal = true) :
    Informed k (tickStep run steps l row) := by
  have hother : row.status.terminal = false → row.id ≠ k := by
    intro hopen hid
    rw [hrow hid] at hopen
    cases hopen
  unfold tickStep
  split
  case h_6 hrunning =>
      have hne := hother (by rw [hrunning]; rfl)
      refine all_hold nofun fun link => ?_
      cases link with
      | none =>
          refine all_hold nofun fun claimed => ?_
          cases claimed <;> exact trivial
      | some task =>
          refine all_hold nofun fun found => ?_
          split
          · exact informed_of_benign benign_onSucceeded
          · exact all_onFailed hne
          · refine all_hold nofun fun claimed => ?_
            cases claimed <;> exact trivial
          all_goals exact trivial
  case h_7 hpending =>
      have hne := hother (by rw [hpending]; rfl)
      unfold tickPending
      split
      · refine all_hold nofun fun messages => all_hold nofun fun claimed => ?_
        cases claimed with
        | false => exact trivial
        | true =>
            refine all_hold nofun fun reply => ?_
            cases reply with
            | error e =>
                refine all_hold (fun status h => ?_) fun _ => trivial
                injection h with hid
                exact absurd hid hne
            | ok new => exact all_hold nofun fun _ => trivial
      · exact trivial
  all_goals exact trivial

theorem all_tickLoop {run : WorkflowRun} {steps rest : List WorkflowStepRun}
    (hrest : ∀ row ∈ rest, row.id = k → row.status.terminal = true) (l : Progress) :
    Informed k (tickLoop run steps rest l) := by
  induction rest generalizing l with
  | nil =>
      refine all_hold nofun fun found => ?_
      split
      · exact all_hold nofun fun _ => trivial
      · exact trivial
  | cons row rest ih =>
      refine (all_tickStep (hrest row (by simp))).bind fun flow => ?_
      cases flow with
      | next l => exact ih (fun row hrow => hrest row (by simp [hrow])) l
      | stop result => exact trivial

theorem keeps_tickSteps (h : status.terminal = true) (run : WorkflowRun) :
    Keeps (World.StepIs · k status) (Tx.leaves k status) (tickSteps run) := by
  refine Keeps.hold fun input w hw _ => ⟨hw, ?_⟩
  refine .of_informed h (all_tickLoop (fun row hrow hid => ?_) _)
  obtain ⟨hkeyed, found, hfound, rfl⟩ := hw
  have hsame := lookup_of_mem hkeyed.1 hrow
  rw [hid] at hsame
  rw [World.step, hsame] at hfound
  cases hfound
  exact h

theorem keeps_read {tx : Tx} {α : Type} {f : tx.Reply → Program α} (h : status.terminal = true)
    (hset : ∀ new, tx ≠ .setStepStatus k new) (hblock : tx ≠ .blockStepAndRun k)
    (hf : ∀ reply, Keeps (World.StepIs · k status) (Tx.leaves k status) (f reply)) :
    Keeps (World.StepIs · k status) (Tx.leaves k status) (ask tx >>= f) :=
  Keeps.hold fun input _ hw _ =>
    ⟨exec_stepIs h hw input hset fun hb => absurd hb hblock, hf _⟩

theorem keeps_tickRun (h : status.terminal = true) (run : WorkflowRun) :
    Keeps (World.StepIs · k status) (Tx.leaves k status) (tickRun run) := by
  have hbudget : Keeps (World.StepIs · k status) (Tx.leaves k status) (tickBudget run) := by
    refine keeps_read h nofun nofun fun budget => ?_
    cases budget with
    | none => exact keeps_tickSteps h run
    | some budget =>
        refine keeps_read h nofun nofun fun steps => keeps_read h nofun nofun fun usage => ?_
        dsimp only
        split
        · exact .of_benign h (benign_cancelStepTasks steps)
        · exact keeps_tickSteps h run
  unfold tickRun
  split
  case h_6 => exact keeps_read h nofun nofun fun _ => hbudget
  case h_7 => exact hbudget
  all_goals exact Keeps.ret _

theorem keeps_call_step (h : status.terminal = true) (c : Call) :
    Keeps (World.StepIs · k status) (Tx.leaves k status) (c.program parse) := by
  cases c with
  | tick =>
      refine keeps_read h nofun nofun fun run => ?_
      split
      · refine Keeps.bind (.of_benign h (benign_approve parse)) (fun value => ?_) fun value => ?_
        · cases value <;> rfl
        · cases value with
          | error e => exact Keeps.ret _
          | ok => exact keeps_read h nofun nofun fun run => keeps_tickRun h run
      · exact keeps_tickRun h run
  | cancel => exact keeps_read h nofun nofun fun _ => Keeps.ret _
  | approve =>
      refine Keeps.bind (.of_benign h (benign_approve parse)) (fun value => ?_) fun value => ?_
      · cases value <;> rfl
      · cases value <;> exact Keeps.ret _
  | block step =>
      exact Keeps.hold fun input w hw hok => ⟨exec_stepIs h hw input nofun hok.2, Keeps.ret _⟩

/-- The step's status is not written by a tick that began before `begun`, the
verifier loop does not run it again, and no block call meets it cancelled. -/
def sparesStep (begun : Nat) (row : WorkflowStepRun) (S : System) : Event → Bool
  | .advance i _ =>
      match S.next i with
      | some (.setStepStatus step status) =>
          step ≠ row.id || (begun ≤ i && status ≠ .running)
      | some (.blockStepAndRun step) => step ≠ row.id || row.status ≠ .cancelled
      | _ => true
  | _ => true

theorem step_kept {begun : Nat} {S S' : System} {es : List Event} {row : WorkflowStepRun}
    (hkeyed : Keyed S.world.steps) (hrow : row ∈ S.world.steps)
    (h : row.status.terminal = true) (hcalls : S.calls.length ≤ begun)
    (hrun : Runs (During (Steps parse) fun S e => sparesStep begun row S e = true) S es S') :
    S'.world.StepIs row.id row.status := by
  have hinit : Guarded (World.StepIs · row.id row.status) (Tx.leaves row.id row.status) begun S := by
    refine ⟨⟨hkeyed, row, lookup_of_mem hkeyed.1 hrow, rfl⟩, fun i p hi hp => ?_⟩
    obtain ⟨hlt, _⟩ := List.getElem?_eq_some_iff.mp hp
    omega
  refine (Runs.invariant _ (fun {S₁ e S₂} hS hstep => ?_) hrun hinit).holds
  obtain ⟨hstep, hspares⟩ := hstep
  refine hS.step (fun _ hw => hw) (keeps_call_step h) hstep ?_ ?_
  · rintro i input tx rfl htx hi
    refine exec_stepIs h hS.holds input ?_ ?_
    · rintro new rfl
      simp [sparesStep, htx] at hspares
      omega
    · rintro rfl
      simpa [sparesStep, htx] using hspares
  · rintro i input tx rfl htx hi
    refine ⟨?_, ?_⟩
    · rintro rfl
      simp [sparesStep, htx] at hspares
    · rintro rfl
      simpa [sparesStep, htx] using hspares

end Steps

theorem keyed_run {S S' : System} {es : List Event} (h : Runs (Steps parse) S es S')
    (hkeyed : Keyed S.world.steps) : Keyed S'.world.steps := by
  refine Runs.invariant (fun S => Keyed S.world.steps) (fun {S e S'} hS hstep => ?_) h hkeyed
  obtain ⟨_, _, rfl⟩ | ⟨_, input, _, _, tx, _, _, _, rfl⟩ | ⟨_, _, _, _, _, rfl⟩ | ⟨_, _, rfl⟩ :=
    step_cases hstep
  · exact hS
  · exact exec_keyed input tx hS
  · exact hS
  · exact hS

/-- After any interleaving: a terminal status of the run, and of each step, is
kept by every call that begins later, by every cancellation and plan approval,
and by every tick already in progress until it writes that very status. -/
theorem terminal_statuses_kept {S₀ S₁ : System} {es : List Event} (hinit : S₀.Initial)
    (hbefore : Runs (Steps parse) S₀ es S₁) :
    (S₁.world.run.status.terminal = true →
      ∀ es' S₂,
        Runs (During (Steps parse) fun S e => sparesRun S₁.calls.length S e = true) S₁ es' S₂ →
        S₂.world.run.status = S₁.world.run.status) ∧
    ∀ row ∈ S₁.world.steps, row.status.terminal = true →
      ∀ es' S₂,
        Runs (During (Steps parse) fun S e => sparesStep S₁.calls.length row S e = true)
          S₁ es' S₂ →
        ∃ row' ∈ S₂.world.steps, row'.id = row.id ∧ row'.status = row.status := by
  refine ⟨fun h es' S₂ hrun => run_kept h le_rfl hrun, fun row hrow h es' S₂ hrun => ?_⟩
  obtain ⟨_, row', hrow', hstatus⟩ :=
    step_kept (keyed_run hbefore hinit.world.keyed) hrow h le_rfl hrun
  exact ⟨row', (lookup_mem hrow').1, (lookup_mem hrow').2, hstatus⟩

section Examples

def cancelling : List Event := verifying ++ [Event.start .cancel] ++ advance 2 1 ""

def cancelled : System := loop.after cancelling

def afterCancel : List Event :=
  [Event.start .tick, .start (.block "s1")] ++ advance 3 1 "" ++ advance 4 1 ""

/-- A tick and a block call on a run that was cancelled while verifying. -/
theorem terminal_statuses_kept_cancelled :
    cancelled.world.run.status = .cancelled ∧
      (cancelled.after afterCancel).world.run.status = .cancelled ∧
      ∃ row ∈ (cancelled.after afterCancel).world.steps,
        row.id = "s1" ∧ row.status = .succeeded := by
  have hbefore : Runs (Steps noPlan) loop cancelling cancelled := runs_after (by decide)
  obtain ⟨hrun, hsteps⟩ := terminal_statuses_kept loop_initial hbefore
  refine ⟨by decide, (hrun (by decide) _ _ (runs_during (by decide))).trans (by decide), ?_⟩
  exact hsteps _ (List.mem_cons_self ..) (by decide) _ _ (runs_during (by decide))

theorem terminal_statuses_lost :
    (¬ ∀ (S₀ S₁ S₂ : System) (es es' : List Event), S₀.Initial →
      Runs (Steps noPlan) S₀ es S₁ → Runs (Steps noPlan) S₁ es' S₂ →
      ∀ row ∈ S₁.world.steps, row.status.terminal = true →
        ∃ row' ∈ S₂.world.steps, row'.id = row.id ∧ row'.status = row.status) ∧
    ¬ ∀ (S₀ S₁ S₂ : System) (es es' : List Event), S₀.Initial →
      Runs (Steps noPlan) S₀ es S₁ → Runs (Steps noPlan) S₁ es' S₂ →
      S₁.world.run.status.terminal = true →
        S₂.world.run.status = S₁.world.run.status := by
  constructor
  · intro h
    have hkept := h loop _ _ verifying rejected loop_initial (runs_after (by decide))
      (runs_after (by decide)) _ (List.mem_cons_self ..) (by decide)
    revert hkept
    decide
  · intro h
    have hkept := h loop _ _
      ([Event.start .tick, .start .cancel] ++ advance 0 1 "" ++ advance 1 1 "") (advance 0 1 "")
      loop_initial (runs_after (by decide)) (runs_after (by decide)) (by decide)
    revert hkept
    decide

end Examples

end AgentGrid.Workflow
