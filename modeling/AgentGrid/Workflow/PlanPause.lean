import AgentGrid.Workflow.Effects

/-!
# Pausing a run for its plan

When the task of an expandable architect step has succeeded with a plan, the
tick that records the success goes on to stamp the plan and to set the run to
`plan_ready`, each in a transaction of its own; `approve_workflow_plan` expands
the plan later.  Until then another tick sees every step succeeded.
-/

namespace AgentGrid.Workflow

open AgentGrid.Foundation

/-- The rest of a tick that has recorded the success of an expandable architect
step and has neither found it without a plan nor set the run to `plan_ready`. -/
def pausing : Program Outcome → Bool
  | .ret _ => false
  | .call _ (.attemptCommitForTask _) next => pausing (next none)
  | .call _ (.emitWorkflowMessage _) next => pausing (next ())
  | .call _ (.attemptPlanForTask _) _ => true
  | .call _ (.setWorkflowRunPlan _) _ => true
  | .call _ (.setWorkflowRunStatus .planReady) _ => true
  | .call _ _ _ => false

/-- The tick is about to record such a success. -/
def recording : Program Outcome → Bool
  | .call _ (.claimEnd _ .succeeded) next => pausing (next true)
  | _ => false

/-- The tick has found the plan. -/
def stamping (p : Program Outcome) : Bool :=
  match p.pending with
  | some (.setWorkflowRunPlan _) | some (.setWorkflowRunStatus .planReady) => true
  | _ => false

/-- The call has returned, or reads the run before it does anything else to it,
or is about to expand the plan, which checks the status itself. -/
def idle (p : Program Outcome) : Bool :=
  match p.pending with
  | none | some .getWorkflowRun | some .getWorkflowRunPlan | some (.expandPlan _ _) => true
  | some _ => false

/-- A run, and whether a tick has found the plan of an architect step that
succeeded and no approval has expanded it since. -/
structure PlanWatch where
  sys : System
  owed : Bool := false

def PlanWatch.owes (W : PlanWatch) : Event → Bool
  | .advance i input =>
      match W.sys.calls[i]? with
      | some (_, .call _ (.attemptPlanForTask task) _) =>
          W.owed || (W.sys.world.attemptPlanForTask task).isSome
      | some (_, .call _ (.expandPlan run plan) _) =>
          match (W.sys.world.expandPlan run plan input.ids).2 with
          | .ok _ => false
          | .error _ => W.owed
      | _ => W.owed
  | _ => W.owed

def PlanWatch.step (parse : PlanParser) (W : PlanWatch) (e : Event) : Option PlanWatch :=
  (W.sys.step parse e).map fun sys => ⟨sys, W.owes e⟩

def PlanSteps (parse : PlanParser) (W : PlanWatch) (e : Event) (W' : PlanWatch) : Prop :=
  W.step parse e = some W'

/-- From the record of the step's success until the run is set to `plan_ready`
no other tick is under way, and the tick is not lost. -/
def undisturbed (W : PlanWatch) : Event → Bool
  | .advance i _ =>
      match W.sys.calls[i]? with
      | some (c, p) =>
          c != .tick || (W.sys.calls.eraseIdx i).all fun other =>
            !pausing other.2 && (!recording p || other.1 != .tick || idle other.2)
      | none => true
  | .abandon i => W.sys.calls[i]?.all fun c => !pausing c.2
  | _ => true

/-! ## What a tick leads to -/

/-- What the reply to a transaction may lead to. -/
def Tx.Leads : (tx : Tx) → (tx.Reply → Program Outcome) → Prop
  | .getWorkflowRun, next => ∀ run, pausing (next run) = false ∧
      (run.status = .planReady ∨ run.status = .cancelled → idle (next run) = true)
  | .getWorkflowRunPlan, next => ∀ plan, idle (next plan) = true
  | .expandPlan _ _, next => ∀ reply, idle (next reply) = true
  | .attemptCommitForTask _, next => ∀ sha, pausing (next sha) = pausing (next none)
  | .emitWorkflowMessage _, _ => True
  | .attemptPlanForTask _, next =>
      (∀ plan, stamping (next (some plan)) = true) ∧ pausing (next none) = false
  | .setWorkflowRunPlan _, next => stamping (next ()) = true
  | .setWorkflowRunStatus .planReady, next => ∃ outcome, next () = .ret outcome
  | .claimEnd _ .succeeded, next => pausing (next false) = false
  | _, next => ∀ reply, pausing (next reply) = false

def Orderly : Program Outcome → Prop
  | .ret _ => True
  | .call _ tx next => (∀ reply, Orderly (next reply)) ∧ tx.Leads next

/-- An orderly program that is not pausing. -/
structure Tame (p : Program Outcome) : Prop where
  orderly : Orderly p
  awake : pausing p = false

/-- The transactions that say nothing about a plan. -/
def Tx.plain : Tx → Bool
  | .getWorkflowRun | .getWorkflowRunPlan | .expandPlan _ _ | .attemptCommitForTask _
  | .emitWorkflowMessage _ | .attemptPlanForTask _ | .setWorkflowRunPlan _
  | .setWorkflowRunStatus .planReady | .claimEnd _ .succeeded => false
  | _ => true

theorem tame_ret (outcome : Outcome) : Tame (.ret outcome) := ⟨trivial, rfl⟩

theorem tame_plain {keys : List String} {tx : Tx} {next : tx.Reply → Program Outcome}
    (htx : tx.plain = true) (h : ∀ reply, Tame (next reply)) : Tame (.call keys tx next) := by
  have hleads : tx.Leads next := by
    unfold Tx.Leads
    split
    all_goals first
      | exact fun reply => (h reply).awake
      | cases htx
  refine ⟨⟨fun reply => (h reply).orderly, hleads⟩, ?_⟩
  unfold pausing
  split
  all_goals first
    | rfl
    | simp_all [Tx.plain]

section Ticks

variable {k : Flow → Program Outcome} (hk : ∀ flow, Tame (k flow))
  (hstop : ∀ outcome, k (.stop outcome) = .ret outcome)

include hk

theorem tame_resetIfWedged (l : Progress) (row : WorkflowStepRun) :
    Tame ((resetIfWedged l row).bind k) := by
  refine tame_plain rfl fun claimed => ?_
  cases claimed <;> exact hk _

theorem tame_onCancelled (l : Progress) (row : WorkflowStepRun) :
    Tame ((onCancelled l row).bind k) := by
  refine tame_plain rfl fun claimed => ?_
  cases claimed <;> exact hk _

theorem tame_retryStep (run : WorkflowRun) (l : Progress) (row : WorkflowStepRun)
    (task : String) : Tame ((retryStep run l row task).bind k) := by
  refine tame_plain rfl fun reply => ?_
  cases reply <;> exact tame_plain rfl fun _ => hk _

theorem tame_closeStep (l : Progress) (row : WorkflowStepRun) (status : WorkflowStepStatus) :
    Tame ((closeStep l row status).bind k) :=
  tame_plain rfl fun _ => hk _

theorem tame_rerunWorker (run : WorkflowRun) (l : Progress) (row u : WorkflowStepRun)
    (task : String) : Tame ((rerunWorker run l row u task).bind k) := by
  refine tame_plain rfl fun claimed => ?_
  cases claimed with
  | false => exact hk _
  | true =>
      refine tame_plain rfl fun reply => ?_
      cases reply with
      | error e => exact tame_plain rfl fun _ => hk _
      | ok new =>
          exact tame_plain rfl fun _ => tame_plain rfl fun _ => tame_plain rfl fun _ => hk _

theorem tame_onFailed (run : WorkflowRun) (steps : List WorkflowStepRun) (l : Progress)
    (row : WorkflowStepRun) (task : String) :
    Tame ((onFailed run steps l row task).bind k) := by
  refine tame_plain rfl fun claimed => ?_
  cases claimed with
  | false => exact hk _
  | true =>
      change Tame (Prog.bind (if _ then _ else _) k)
      repeat' split
      · exact tame_retryStep hk run l row task
      · exact tame_closeStep hk l row .blocked
      · exact tame_closeStep hk l row .blocked
      · unfold onRejected
        split
        · split
          · exact tame_rerunWorker hk run l row _ task
          · exact tame_closeStep hk l row .failed
        · exact tame_closeStep hk l row .failed
      · exact tame_closeStep hk l row .failed

include hstop in
theorem tame_onSucceeded (l : Progress) (row : WorkflowStepRun) (task : String) :
    Tame ((onSucceeded l row task).bind k) := by
  have hstamp : ∀ plan, Orderly (.call [] (.setWorkflowRunPlan plan) fun _ =>
      .call [] (.setWorkflowRunStatus .planReady) fun _ => k (.stop (.created l.created))) := by
    intro plan
    exact ⟨fun _ => ⟨fun _ => (hk _).orderly, ⟨_, hstop _⟩⟩, rfl⟩
  refine ⟨⟨fun claimed => ?_, (hk _).awake⟩, rfl⟩
  cases claimed with
  | false => exact (hk _).orderly
  | true =>
      refine ⟨fun sha => ⟨fun _ => ?_, trivial⟩, fun _ => rfl⟩
      change Orderly (Prog.bind (if _ then _ else _) k)
      split
      · refine ⟨fun plan => ?_, fun plan => rfl, (hk _).awake⟩
        cases plan with
        | none => exact (hk _).orderly
        | some plan => exact hstamp plan
      · exact (hk _).orderly

include hstop in
theorem tame_tickRunning (run : WorkflowRun) (steps : List WorkflowStepRun) (l : Progress)
    (row : WorkflowStepRun) : Tame ((tickRunning run steps l row).bind k) := by
  refine tame_plain rfl fun link => ?_
  cases link with
  | none => exact tame_resetIfWedged hk l row
  | some task =>
      refine tame_plain rfl fun status => ?_
      rcases status with _ | status
      · exact hk _
      · cases status with
        | succeeded => exact tame_onSucceeded hk hstop l row task
        | failed => exact tame_onFailed hk run steps l row task
        | cancelled => exact tame_onCancelled hk l row
        | _ => exact hk _

theorem tame_tickPending (run : WorkflowRun) (l : Progress) (row : WorkflowStepRun) :
    Tame ((tickPending run l row).bind k) := by
  unfold tickPending
  split
  · refine tame_plain rfl fun messages => tame_plain rfl fun claimed => ?_
    cases claimed with
    | false => exact hk _
    | true =>
        refine tame_plain rfl fun reply => ?_
        cases reply <;> exact tame_plain rfl fun _ => hk _
  · exact hk _

include hstop in
theorem tame_tickStep (run : WorkflowRun) (steps : List WorkflowStepRun) (l : Progress)
    (row : WorkflowStepRun) : Tame ((tickStep run steps l row).bind k) := by
  unfold tickStep
  split
  case h_6 => exact tame_tickRunning hk hstop run steps l row
  case h_7 => exact tame_tickPending hk run l row
  all_goals exact hk _

end Ticks

theorem finalStatus_ne_planReady {steps : List WorkflowStepRun} {status : WorkflowRunStatus}
    (h : finalStatus steps = some status) : status ≠ .planReady := by
  rintro rfl
  unfold finalStatus at h
  repeat' split at h
  all_goals cases h

theorem tame_tickEnd (created : List String) : Tame (tickEnd created) := by
  refine tame_plain rfl fun steps => ?_
  rw [Prog.ret_bind]
  split
  · rename_i status hstatus
    refine tame_plain ?_ fun _ => tame_ret _
    have hne := finalStatus_ne_planReady hstatus
    cases status <;> simp_all [Tx.plain]
  · exact tame_ret _

theorem tame_tickLoop (run : WorkflowRun) (steps rest : List WorkflowStepRun) (l : Progress) :
    Tame (tickLoop run steps rest l) := by
  induction rest generalizing l with
  | nil => exact tame_tickEnd l.created
  | cons row rest ih =>
      refine tame_tickStep (fun flow => ?_) (fun outcome => rfl) run steps l row
      cases flow with
      | next l => exact ih l
      | stop outcome => exact tame_ret outcome

theorem tame_tickSteps (run : WorkflowRun) : Tame (tickSteps run) :=
  tame_plain rfl fun steps => tame_tickLoop run steps steps _

theorem tame_cancelStepTasks (steps : List WorkflowStepRun) : Tame (cancelStepTasks steps) := by
  induction steps with
  | nil => exact tame_plain rfl fun _ => tame_ret _
  | cons row steps ih =>
      unfold cancelStepTasks
      split
      · refine tame_plain rfl fun link => ?_
        cases link with
        | none => exact ih
        | some task => exact tame_plain rfl fun _ => ih
      · exact ih

theorem tame_tickBudget (run : WorkflowRun) : Tame (tickBudget run) := by
  refine tame_plain rfl fun budget => ?_
  cases budget with
  | none => exact tame_tickSteps run
  | some budget =>
      refine tame_plain rfl fun steps => tame_plain rfl fun usage => ?_
      dsimp only [Prog.ret_bind]
      split
      · exact tame_cancelStepTasks steps
      · exact tame_tickSteps run

theorem tame_tickRun (run : WorkflowRun) : Tame (tickRun run) := by
  unfold tickRun
  split
  case h_6 => exact tame_plain rfl fun _ => tame_tickBudget run
  case h_7 => exact tame_tickBudget run
  all_goals exact tame_ret _

theorem idle_tickRun {run : WorkflowRun}
    (h : run.status = .planReady ∨ run.status = .cancelled) : idle (tickRun run) = true := by
  unfold tickRun
  rcases h with h | h <;> rw [h] <;> rfl

theorem awake_of_idle {p : Program Outcome} (h : idle p = true) : pausing p = false := by
  cases p with
  | ret outcome => rfl
  | call keys tx next =>
      unfold pausing
      split
      all_goals first
        | rfl
        | simp_all [idle, Prog.pending]

/-- The approval of a plan, before a program that is idle at first. -/
theorem tame_approve {parse : PlanParser} {k : Except String Unit → Program Outcome}
    (hk : ∀ reply, Tame (k reply)) (hidle : ∀ reply, idle (k reply) = true) :
    Tame ((approveWorkflowPlan parse).bind k) ∧
      idle ((approveWorkflowPlan parse).bind k) = true := by
  refine ⟨⟨⟨fun run => ?_, fun run => ?_⟩, rfl⟩, rfl⟩
  · change Orderly (Prog.bind (if _ then _ else _) k)
    split
    · refine ⟨fun plan => ?_, fun plan => ?_⟩
      · cases plan with
        | none => exact (hk _).orderly
        | some plan =>
            dsimp only [Prog.bind]
            split
            · exact (hk _).orderly
            · exact ⟨fun reply => (hk reply).orderly, hidle⟩
      · cases plan with
        | none => exact hidle _
        | some plan =>
            dsimp only [Prog.bind]
            split
            · exact hidle _
            · rfl
    · exact (hk _).orderly
  · have hboth : ∀ {p : Program Outcome} {q : Prop}, idle p = true →
        pausing p = false ∧ (q → idle p = true) :=
      fun hidle => ⟨awake_of_idle hidle, fun _ => hidle⟩
    refine hboth ?_
    change idle (Prog.bind (if _ then _ else _) k) = true
    split
    · rfl
    · exact hidle _

theorem tame_tick (parse : PlanParser) : Tame (tickWorkflowRun parse) := by
  have hread : Tame (ask .getWorkflowRun >>= tickRun) := by
    refine ⟨⟨fun run => (tame_tickRun run).orderly, fun run => ?_⟩, rfl⟩
    exact ⟨(tame_tickRun run).awake, idle_tickRun⟩
  have happrove : ∀ k : Except String Unit → Program Outcome,
      (∀ e, k (.error e) = .ret (.created [])) → k (.ok ()) = (ask .getWorkflowRun >>= tickRun) →
        Tame ((approveWorkflowPlan parse).bind k) ∧
          idle ((approveWorkflowPlan parse).bind k) = true := by
    intro k herror hok
    refine tame_approve (fun reply => ?_) (fun reply => ?_)
    · cases reply with
      | error e => rw [herror]; exact tame_ret _
      | ok _ => rw [hok]; exact hread
    · cases reply with
      | error e => rw [herror]; rfl
      | ok _ => rw [hok]; rfl
  refine ⟨⟨fun run => ?_, fun run => ?_⟩, rfl⟩
  · change Orderly (if _ then _ else _)
    split
    · exact (happrove _ (fun _ => rfl) rfl).1.orderly
    · exact (tame_tickRun run).orderly
  · change pausing (if _ then _ else _) = false ∧ (_ → idle (if _ then _ else _) = true)
    split
    · exact ⟨(happrove _ (fun _ => rfl) rfl).1.awake, fun _ => (happrove _ (fun _ => rfl) rfl).2⟩
    · exact ⟨(tame_tickRun run).awake, idle_tickRun⟩

/-- The transactions of the calls that are not ticks. -/
def Tx.aside : Tx → Bool
  | .getWorkflowRun | .getWorkflowRunPlan | .expandPlan _ _ | .cancelWorkflowRun
  | .blockStepAndRun _ => true
  | _ => false

abbrev Aside (p : Program Outcome) : Prop := p.All fun _ tx => tx.aside = true

theorem aside_call {parse : PlanParser} {c : Call} (h : c ≠ .tick) : Aside (c.program parse) := by
  cases c with
  | tick => exact absurd rfl h
  | cancel => exact ⟨rfl, fun _ => trivial⟩
  | block step => exact ⟨rfl, fun _ => trivial⟩
  | approve =>
      refine Prog.All.bind ?_ fun reply => ?_
      · refine ⟨rfl, fun run => ?_⟩
        change Prog.All _ (if _ then _ else _)
        split
        · refine ⟨rfl, fun plan => ?_⟩
          cases plan with
          | none => exact trivial
          | some plan =>
              dsimp only [Prog.bind]
              split
              · exact trivial
              · exact ⟨rfl, fun _ => trivial⟩
        · exact trivial
      · cases reply <;> exact trivial

theorem tame_call (parse : PlanParser) (c : Call) : Tame (c.program parse) := by
  cases c with
  | tick => exact tame_tick parse
  | cancel => exact tame_plain rfl fun _ => tame_ret _
  | block step => exact tame_plain rfl fun _ => tame_ret _
  | approve =>
      exact (tame_approve (fun reply => by cases reply <;> exact tame_ret _)
        fun reply => by cases reply <;> rfl).1

theorem awake_of_aside {p : Program Outcome} (h : Aside p) : pausing p = false := by
  cases p with
  | ret outcome => rfl
  | call keys tx next =>
      have haside : tx.aside = true := h.1
      cases tx with
      | getWorkflowRun | getWorkflowRunPlan | expandPlan | cancelWorkflowRun | blockStepAndRun =>
          rfl
      | _ => cases haside

theorem pausing_of_stamping {p : Program Outcome} (h : stamping p = true) :
    pausing p = true := by
  cases p with
  | ret outcome => cases h
  | call keys tx next =>
      cases tx with
      | setWorkflowRunPlan plan => rfl
      | setWorkflowRunStatus status =>
          cases status with
          | planReady => rfl
          | _ => cases h
      | _ => cases h

/-- A tick about to record the success of a step pauses afterwards exactly when
the step is an architect's and expandable. -/
theorem recording_onSucceeded {k : Flow → Program Outcome} (hk : ∀ flow, Tame (k flow))
    (l : Progress) (row : WorkflowStepRun) (task : String) :
    recording ((onSucceeded l row task).bind k) =
      (row.step.expandable.getD false && row.step.role == .architect) := by
  change pausing (Prog.bind (if _ then _ else _) k) = _
  split
  · rename_i hplan
    simp only [hplan.1, hplan.2, beq_self_eq_true, Bool.and_self]
    rfl
  · rename_i hplain
    rw [show Prog.bind (pure (Flow.next _)) k = k _ from rfl, (hk _).awake]
    symm
    simpa using hplain

/-! ## One tick at a time -/

/-- No tick is in the middle of a run that another tick is pausing, and a run
that owes its plan has a tick that is pausing it or has been paused. -/
structure Tidy (W : PlanWatch) : Prop where
  orderly : ∀ (i : Nat) c p, W.sys.calls[i]? = some (c, p) → Orderly p
  other : ∀ (i : Nat) c p, W.sys.calls[i]? = some (c, p) → c ≠ .tick → Aside p
  alone : ∀ (i : Nat) c p (j : Nat) q, W.sys.calls[i]? = some (c, p) → pausing p = true → j ≠ i →
    W.sys.calls[j]? = some (.tick, q) → idle q = true
  unread : ∀ (i : Nat) c p, W.sys.calls[i]? = some (c, p) → pausing p = true → stamping p = false →
    W.owed = false
  paused : W.owed = true → (∀ (i : Nat) c p, W.sys.calls[i]? = some (c, p) → pausing p = false) →
    (W.sys.world.run.status = .planReady ∨ W.sys.world.run.status = .cancelled) ∧
      ∀ (i : Nat) p, W.sys.calls[i]? = some (.tick, p) → idle p = true

theorem Tidy.initial {S : System} (h : S.Initial) : Tidy ⟨S, false⟩ := by
  have hnone : ∀ (i : Nat) c, S.calls[i]? ≠ some c := by
    intro i c hcall
    rw [h.calls] at hcall
    cases hcall
  exact ⟨fun i c p hp => absurd hp (hnone i _), fun i c p hp => absurd hp (hnone i _),
    fun i c p j q hp => absurd hp (hnone i _), fun i c p hp => absurd hp (hnone i _), nofun⟩

theorem plan_step_cases {parse : PlanParser} {W W' : PlanWatch} {e : Event}
    (h : PlanSteps parse W e W') : Steps parse W.sys e W'.sys ∧ W'.owed = W.owes e := by
  unfold PlanSteps PlanWatch.step at h
  obtain ⟨sys, hsys, rfl⟩ := Option.map_eq_some_iff.mp h
  exact ⟨hsys, rfl⟩

theorem mem_start {parse : PlanParser} {S : System} {c c' : Call} {i : Nat}
    {p : Program Outcome}
    (h : (S.calls ++ [(c, c.program parse)])[i]? = some (c', p)) :
    S.calls[i]? = some (c', p) ∨ c' = c ∧ p = c.program parse := by
  rw [List.getElem?_append] at h
  split at h
  · exact .inl h
  · have hmem := List.mem_of_getElem? h
    simp only [List.mem_singleton, Prod.mk.injEq] at hmem
    exact .inr hmem

theorem Tidy.start {parse : PlanParser} {W : PlanWatch} (hW : Tidy W) (c : Call) :
    Tidy ⟨{ W.sys with calls := W.sys.calls ++ [(c, c.program parse)] }, W.owed⟩ := by
  have hidle : ∀ {i : Nat} {q}, (W.sys.calls ++ [(c, c.program parse)])[i]? = some (.tick, q) →
      W.sys.calls[i]? = some (.tick, q) ∨ idle q = true := by
    intro i q hq
    obtain hold | ⟨rfl, rfl⟩ := mem_start hq
    · exact .inl hold
    · exact .inr rfl
  have hpausing : ∀ {i : Nat} {c' p}, (W.sys.calls ++ [(c, c.program parse)])[i]? = some (c', p) →
      pausing p = true → W.sys.calls[i]? = some (c', p) := by
    intro i c' p hp hpause
    obtain hold | ⟨rfl, rfl⟩ := mem_start hp
    · exact hold
    · rw [(tame_call parse c').awake] at hpause
      cases hpause
  have hgrow : ∀ {i : Nat} {c' p}, W.sys.calls[i]? = some (c', p) →
      (W.sys.calls ++ [(c, c.program parse)])[i]? = some (c', p) := by
    intro i c' p hp
    rw [List.getElem?_append_left (List.getElem?_eq_some_iff.mp hp).1, hp]
  constructor
  · intro i c' p hp
    obtain hold | ⟨rfl, rfl⟩ := mem_start hp
    · exact hW.orderly i c' p hold
    · exact (tame_call parse c').orderly
  · intro i c' p hp hc
    obtain hold | ⟨rfl, rfl⟩ := mem_start hp
    · exact hW.other i c' p hold hc
    · exact aside_call hc
  · intro i c' p j q hp hpause hj hq
    obtain hold | hnew := hidle hq
    · exact hW.alone i c' p j q (hpausing hp hpause) hpause hj hold
    · exact hnew
  · intro i c' p hp hpause
    exact hW.unread i c' p (hpausing hp hpause) hpause
  · intro howed hawake
    obtain ⟨hstatus, hall⟩ := hW.paused howed fun i c' p hp => hawake i c' p (hgrow hp)
    refine ⟨hstatus, fun i p hp => ?_⟩
    obtain hold | hnew := hidle hp
    · exact hall i p hold
    · exact hnew

/-- The rest of one call, the world and what is owed give way to others. -/
theorem Tidy.replace {W : PlanWatch} (hW : Tidy W) {i : Nat} {c : Call} {p p' : Program Outcome}
    (hp : W.sys.calls[i]? = some (c, p)) (world : World) (owed : Bool)
    (horderly : Orderly p') (haside : c ≠ .tick → Aside p')
    (halone : pausing p' = true → ∀ j q, j ≠ i → W.sys.calls[j]? = some (.tick, q) →
      idle q = true)
    (hothers : ∀ j c' q, j ≠ i → W.sys.calls[j]? = some (c', q) → pausing q = true →
      (c = .tick → idle p' = true) ∧ (W.owed = false → owed = false))
    (hunread : pausing p' = true → stamping p' = false → owed = false)
    (hpaused : owed = true → pausing p' = false →
      (∀ j c' q, j ≠ i → W.sys.calls[j]? = some (c', q) → pausing q = false) →
      (world.run.status = .planReady ∨ world.run.status = .cancelled) ∧
        (c = .tick → idle p' = true) ∧
          ∀ j q, j ≠ i → W.sys.calls[j]? = some (.tick, q) → idle q = true) :
    Tidy ⟨⟨world, W.sys.calls.set i (c, p')⟩, owed⟩ := by
  constructor
  · intro j c' q hq
    obtain ⟨_, hnew⟩ | ⟨_, hold⟩ := mem_set hq
    · cases hnew
      exact horderly
    · exact hW.orderly j c' q hold
  · intro j c' q hq hc
    obtain ⟨_, hnew⟩ | ⟨_, hold⟩ := mem_set hq
    · cases hnew
      exact haside hc
    · exact hW.other j c' q hold hc
  · intro j c' q k r hq hpause hk hr
    obtain ⟨rfl, hnew⟩ | ⟨hji, hold⟩ := mem_set hq
    · cases hnew
      obtain ⟨rfl, _⟩ | ⟨_, hold⟩ := mem_set hr
      · exact absurd rfl hk
      · exact halone hpause k r hk hold
    · obtain ⟨rfl, hnew⟩ | ⟨_, hother⟩ := mem_set hr
      · cases hnew
        exact (hothers j c' q hji hold hpause).1 rfl
      · exact hW.alone j c' q k r hold hpause hk hother
  · intro j c' q hq hpause hstamp
    obtain ⟨rfl, hnew⟩ | ⟨hji, hold⟩ := mem_set hq
    · cases hnew
      exact hunread hpause hstamp
    · exact (hothers j c' q hji hold hpause).2 (hW.unread j c' q hold hpause hstamp)
  · intro howed hall
    have hset : (W.sys.calls.set i (c, p'))[i]? = some (c, p') := by
      rw [List.getElem?_set_self (List.getElem?_eq_some_iff.mp hp).1]
    obtain ⟨hstatus, hself, hrest⟩ := hpaused howed (hall i c p' hset) fun j c' q hji hq =>
      hall j c' q (by rw [List.getElem?_set_ne (Ne.symm hji), hq])
    refine ⟨hstatus, fun j q hq => ?_⟩
    obtain ⟨rfl, hnew⟩ | ⟨hji, hold⟩ := mem_set hq
    · cases hnew
      exact hself rfl
    · exact hrest j q hji hold

/-- A call that is not pausing may end. -/
theorem Tidy.abandon {W : PlanWatch} (hW : Tidy W) {i : Nat} {c : Call} {p : Program Outcome}
    (hp : W.sys.calls[i]? = some (c, p)) (hawake : pausing p = false) (outcome : Outcome) :
    Tidy ⟨{ W.sys with calls := W.sys.calls.set i (c, .ret outcome) }, W.owed⟩ := by
  refine hW.replace hp W.sys.world W.owed trivial (fun _ => trivial) nofun
    (fun _ _ _ _ _ _ => ⟨fun _ => rfl, id⟩) nofun fun howed _ hall => ?_
  obtain ⟨hstatus, hidle⟩ := hW.paused howed fun j c' q hq => by
    by_cases hji : j = i
    · subst hji
      rw [hp] at hq
      cases hq
      exact hawake
    · exact hall j c' q hji hq
  exact ⟨hstatus, fun _ => rfl, fun j q _ hq => hidle j q hq⟩

section Advance

variable {W : PlanWatch} {i : Nat} {input : Input} {c : Call} {keys : List String} {tx : Tx}
  {next : tx.Reply → Program Outcome}

theorem owes_advance (hp : W.sys.calls[i]? = some (c, .call keys tx next))
    (hread : ∀ task, tx ≠ .attemptPlanForTask task)
    (h : W.owes (.advance i input) = true) : W.owed = true := by
  unfold PlanWatch.owes at h
  simp only [hp] at h
  split at h
  · rename_i heq
    cases heq
    exact absurd rfl (hread _)
  · split at h
    · cases h
    · exact h
  · exact h

theorem unowed (hp : W.sys.calls[i]? = some (c, .call keys tx next))
    (hread : ∀ task, tx ≠ .attemptPlanForTask task) (h : W.owed = false) :
    W.owes (.advance i input) = false := by
  rw [Bool.eq_false_iff]
  intro howes
  rw [owes_advance hp hread howes] at h
  cases h

theorem expandPlan_cases (w : World) (run : WorkflowRun) (plan : List WorkflowStep)
    (ids : Nat → String) :
    (w.expandPlan run plan ids).2 = .ok () ∨
      (w.expandPlan run plan ids).1 = w := by
  unfold World.expandPlan
  dsimp only
  split
  · exact .inr rfl
  · split
    · exact .inr rfl
    · exact .inl rfl

/-- The calls beside the ticks leave a paused run paused, unless they expand its
plan. -/
theorem paused_aside (hp : W.sys.calls[i]? = some (c, .call keys tx next))
    (htx : tx.aside = true) (h : W.owes (.advance i input) = true)
    (hstatus : W.sys.world.run.status = .planReady ∨ W.sys.world.run.status = .cancelled) :
    (exec input tx W.sys.world).1.run.status = .planReady ∨
      (exec input tx W.sys.world).1.run.status = .cancelled := by
  have hrun := exec_run input tx W.sys.world
  cases tx with
  | getWorkflowRun => exact hstatus
  | getWorkflowRunPlan => exact hstatus
  | cancelWorkflowRun =>
      obtain hsame | ⟨_, hnew⟩ := hrun
      · rw [hsame]
        exact hstatus
      · exact .inr hnew
  | blockStepAndRun step =>
      obtain hsame | ⟨hold, _⟩ := hrun
      · rw [hsame]
        exact hstatus
      · rcases hstatus with hstatus | hstatus <;> simp [hstatus] at hold
  | expandPlan run plan =>
      unfold PlanWatch.owes at h
      simp only [hp] at h
      obtain hok | hsame := expandPlan_cases W.sys.world run plan input.ids
      · simp [hok] at h
      · rw [show (exec input (.expandPlan run plan) W.sys.world).1 = W.sys.world from hsame]
        exact hstatus
  | _ => cases htx

theorem Tidy.advance_aside (hW : Tidy W)
    (hp : W.sys.calls[i]? = some (c, .call keys tx next)) (hc : c ≠ .tick) :
    Tidy ⟨⟨(exec input tx W.sys.world).1,
      W.sys.calls.set i (c, next (exec input tx W.sys.world).2)⟩, W.owes (.advance i input)⟩ := by
  have haside := hW.other i c _ hp hc
  have hread : ∀ task, tx ≠ .attemptPlanForTask task := by
    rintro task rfl
    cases haside.1
  have hawake := awake_of_aside (haside.2 (exec input tx W.sys.world).2)
  refine hW.replace hp _ _ ((hW.orderly i c _ hp).1 _) (fun _ => haside.2 _) ?_ ?_ ?_ ?_
  · intro hpause
    rw [hawake] at hpause
    cases hpause
  · exact fun j c' q hji hq hpause => ⟨fun htick => absurd htick hc, unowed hp hread⟩
  · intro hpause
    rw [hawake] at hpause
    cases hpause
  · intro howes _ hall
    obtain ⟨hstatus, hidle⟩ := hW.paused (owes_advance hp hread howes) fun j c' q hq => by
      by_cases hji : j = i
      · subst hji
        rw [hp] at hq
        cases hq
        exact awake_of_aside haside
      · exact hall j c' q hji hq
    exact ⟨paused_aside hp haside.1 howes hstatus, fun htick => absurd htick hc,
      fun j q _ hq => hidle j q hq⟩

/-- What a tick that is not pausing leads to. -/
theorem awake_next (horderly : Orderly (.call keys tx next))
    (hawake : pausing (.call keys tx next) = false)
    (hrecord : recording (.call keys tx next) = false) (reply : tx.Reply) :
    pausing (next reply) = false := by
  have hleads := horderly.2
  unfold Tx.Leads at hleads
  split at hleads
  case h_1 => exact (hleads reply).1
  case h_2 => exact awake_of_idle (hleads reply)
  case h_3 => exact awake_of_idle (hleads reply)
  case h_4 => exact (hleads reply).trans hawake
  case h_5 => exact hawake
  case h_6 => cases hawake
  case h_7 => cases hawake
  case h_8 => cases hawake
  case h_9 =>
      cases reply with
      | false => exact hleads
      | true => exact hrecord
  case h_10 => exact hleads reply

/-- What a tick that is pausing leads to. -/
theorem pausing_next (horderly : Orderly (.call keys tx next))
    (hpause : pausing (.call keys tx next) = true) :
    (∃ task, tx = .attemptCommitForTask task ∧ ∀ reply, pausing (next reply) = true) ∨
    (∃ message, tx = .emitWorkflowMessage message ∧ ∀ reply, pausing (next reply) = true) ∨
    (∃ task, tx = .attemptPlanForTask task) ∨
    (∃ plan, tx = .setWorkflowRunPlan plan ∧ ∀ reply, stamping (next reply) = true) ∨
    (tx = .setWorkflowRunStatus .planReady ∧ ∀ reply, idle (next reply) = true) := by
  have hleads := horderly.2
  cases tx with
  | attemptCommitForTask task =>
      exact .inl ⟨task, rfl, fun reply => (hleads reply).trans hpause⟩
  | emitWorkflowMessage message => exact .inr (.inl ⟨message, rfl, fun _ => hpause⟩)
  | attemptPlanForTask task => exact .inr (.inr (.inl ⟨task, rfl⟩))
  | setWorkflowRunPlan plan => exact .inr (.inr (.inr (.inl ⟨plan, rfl, fun _ => hleads⟩)))
  | setWorkflowRunStatus status =>
      cases status with
      | planReady =>
          refine .inr (.inr (.inr (.inr ⟨rfl, fun reply => ?_⟩)))
          obtain ⟨outcome, hret⟩ := hleads
          rw [show next reply = .ret outcome from hret]
          rfl
      | _ => cases hpause
  | _ => cases hpause

theorem Tidy.advance_awake (hW : Tidy W)
    (hp : W.sys.calls[i]? = some (.tick, .call keys tx next))
    (hawake : pausing (.call keys tx next) = false)
    (hcalm : ∀ j c q, j ≠ i → W.sys.calls[j]? = some (c, q) → pausing q = false ∧
      (recording (.call keys tx next) = true → c = .tick → idle q = true)) :
    Tidy ⟨⟨(exec input tx W.sys.world).1,
      W.sys.calls.set i (.tick, next (exec input tx W.sys.world).2)⟩,
      W.owes (.advance i input)⟩ := by
  have horderly := hW.orderly i .tick _ hp
  have hread : ∀ task, tx ≠ .attemptPlanForTask task := by
    rintro task rfl
    cases hawake
  have hall : ∀ (j : Nat) c q, W.sys.calls[j]? = some (c, q) → pausing q = false := by
    intro j c q hq
    by_cases hji : j = i
    · subst hji
      rw [hp] at hq
      cases hq
      exact hawake
    · exact (hcalm j c q hji hq).1
  -- a run that owes its plan is paused, and then this tick only reads it or approves the plan
  have hidle : W.owed = true → idle (.call keys tx next) = true := fun howed =>
    (hW.paused howed hall).2 i _ hp
  refine hW.replace hp _ _ (horderly.1 _) (fun h => absurd rfl h) ?_ ?_ ?_ ?_
  · intro hpause j q hji hq
    refine (hcalm j .tick q hji hq).2 ?_ rfl
    cases hrecord : recording (.call keys tx next) with
    | true => rfl
    | false =>
        rw [awake_next horderly hawake hrecord] at hpause
        cases hpause
  · intro j c q hji hq hpause
    rw [hall j c q hq] at hpause
    cases hpause
  · intro hpause _
    refine unowed hp hread ?_
    rw [Bool.eq_false_iff]
    intro howed
    have hquiet := hidle howed
    have hrecord : recording (.call keys tx next) = false := by
      cases tx with
      | claimEnd step status => cases hquiet
      | _ => rfl
    rw [awake_next horderly hawake hrecord] at hpause
    cases hpause
  · intro howes _ _
    have howed := owes_advance hp hread howes
    obtain ⟨hstatus, hrest⟩ := hW.paused howed hall
    have hquiet := hidle howed
    have haside : tx.aside = true := by
      cases tx with
      | getWorkflowRun | getWorkflowRunPlan | expandPlan => rfl
      | _ => cases hquiet
    refine ⟨paused_aside hp haside howes hstatus, fun _ => ?_, fun j q _ hq => hrest j q hq⟩
    have hleads := horderly.2
    cases tx with
    | getWorkflowRun => exact (hleads _).2 hstatus
    | getWorkflowRunPlan => exact hleads _
    | expandPlan run plan => exact hleads _
    | _ => cases hquiet

theorem Tidy.advance_pausing (hW : Tidy W)
    (hp : W.sys.calls[i]? = some (.tick, .call keys tx next))
    (hpause : pausing (.call keys tx next) = true)
    (hcalm : ∀ j c q, j ≠ i → W.sys.calls[j]? = some (c, q) → pausing q = false) :
    Tidy ⟨⟨(exec input tx W.sys.world).1,
      W.sys.calls.set i (.tick, next (exec input tx W.sys.world).2)⟩,
      W.owes (.advance i input)⟩ := by
  have horderly := hW.orderly i .tick _ hp
  have halone : ∀ j q, j ≠ i → W.sys.calls[j]? = some (.tick, q) → idle q = true :=
    fun j q hji hq => hW.alone i .tick _ j q hp hpause hji hq
  have hothers : ∀ {owed : Bool} {p' : Program Outcome} j c q, j ≠ i →
      W.sys.calls[j]? = some (c, q) → pausing q = true →
      (Call.tick = .tick → idle p' = true) ∧ (W.owed = false → owed = false) := by
    intro owed p' j c q hji hq hq'
    rw [hcalm j c q hji hq] at hq'
    cases hq'
  have hunread : stamping (.call keys tx next) = false → W.owed = false :=
    hW.unread i .tick _ hp hpause
  -- as long as the tick is pausing, nothing is to be shown about the run
  have hstill : pausing (next (exec input tx W.sys.world).2) = true →
      (stamping (next (exec input tx W.sys.world).2) = false →
        W.owes (.advance i input) = false) →
      Tidy ⟨⟨(exec input tx W.sys.world).1,
        W.sys.calls.set i (.tick, next (exec input tx W.sys.world).2)⟩,
        W.owes (.advance i input)⟩ := by
    intro hstill hstamp
    refine hW.replace hp _ _ (horderly.1 _) (fun h => absurd rfl h) (fun _ => halone) hothers
      (fun _ => hstamp) ?_
    intro _ hawake
    rw [hstill] at hawake
    cases hawake
  obtain ⟨task, rfl, hnext⟩ | ⟨message, rfl, hnext⟩ | ⟨task, rfl⟩ | ⟨plan, rfl, hnext⟩ |
    ⟨rfl, hnext⟩ := pausing_next horderly hpause
  · exact hstill (hnext _) fun _ => unowed hp nofun (hunread rfl)
  · exact hstill (hnext _) fun _ => unowed hp nofun (hunread rfl)
  · have howes : W.owes (.advance i input) = (W.sys.world.attemptPlanForTask task).isSome := by
      simp [PlanWatch.owes, hp, hunread rfl]
    obtain ⟨hfound, hnone⟩ := horderly.2
    cases hplan : W.sys.world.attemptPlanForTask task with
    | some plan =>
        have hreply : (exec input (.attemptPlanForTask task) W.sys.world).2 = some plan := hplan
        have hstamp := hfound plan
        rw [← hreply] at hstamp
        refine hstill (pausing_of_stamping hstamp) fun hfalse => ?_
        rw [hstamp] at hfalse
        cases hfalse
    | none =>
        have hreply : (exec input (.attemptPlanForTask task) W.sys.world).2 = none := hplan
        have hfree : W.owes (.advance i input) = false := by
          rw [howes, hplan, Option.isSome_none]
        refine hW.replace hp _ _ (horderly.1 _) (fun h => absurd rfl h) (fun _ => halone) hothers
          (fun _ _ => hfree) ?_
        intro howed
        rw [hfree] at howed
        cases howed
  · refine hstill (pausing_of_stamping (hnext _)) fun hfalse => ?_
    rw [hnext] at hfalse
    cases hfalse
  · have hquiet := awake_of_idle (hnext (exec input (.setWorkflowRunStatus .planReady)
      W.sys.world).2)
    refine hW.replace hp _ _ (horderly.1 _) (fun h => absurd rfl h) (fun _ => halone) hothers ?_ ?_
    · intro hfalse
      rw [hquiet] at hfalse
      cases hfalse
    · exact fun _ _ _ => ⟨.inl rfl, fun _ => hnext _, halone⟩

end Advance

/-- What the condition says of the calls beside a tick. -/
theorem calm_of_undisturbed {W : PlanWatch} {i : Nat} {input : Input} {p : Program Outcome}
    (hp : W.sys.calls[i]? = some (.tick, p)) (h : undisturbed W (.advance i input) = true)
    {j : Nat} {c : Call} {q : Program Outcome} (hji : j ≠ i)
    (hq : W.sys.calls[j]? = some (c, q)) :
    pausing q = false ∧ (recording p = true → c = .tick → idle q = true) := by
  have hmem : (c, q) ∈ W.sys.calls.eraseIdx i := List.mem_eraseIdx_iff_getElem?.mpr ⟨j, hji, hq⟩
  simp only [undisturbed, hp] at h
  have hcalm : pausing q = false ∧
      ((recording p = false ∨ ¬ c = .tick) ∨ idle q = true) := by
    simp at h
    exact h c q hmem
  refine ⟨hcalm.1, fun hrecord hc => ?_⟩
  obtain (hfalse | hne) | hidle := hcalm.2
  · rw [hrecord] at hfalse
    cases hfalse
  · exact absurd hc hne
  · exact hidle

theorem tidy_step {parse : PlanParser} {W W' : PlanWatch} {e : Event} (hW : Tidy W)
    (h : PlanSteps parse W e W') (hcond : undisturbed W e = true) : Tidy W' := by
  obtain ⟨hstep, howed⟩ := plan_step_cases h
  obtain ⟨sys, owed⟩ := W'
  obtain ⟨c, rfl, rfl⟩ | ⟨i, input, c, keys, tx, next, rfl, hp, rfl⟩ | ⟨i, c, p, rfl, hp, rfl⟩ |
    ⟨op, rfl, rfl⟩ := step_cases hstep
  · obtain rfl : owed = W.owed := howed
    exact hW.start c
  · obtain rfl : owed = W.owes (.advance i input) := howed
    by_cases hc : c = .tick
    · subst hc
      have hcalm := fun j c q => @calm_of_undisturbed W i input _ hp hcond j c q
      cases hpause : pausing (.call keys tx next) with
      | true => exact hW.advance_pausing hp hpause fun j c q hji hq => (hcalm j c q hji hq).1
      | false => exact hW.advance_awake hp hpause hcalm
    · exact hW.advance_aside hp hc
  · obtain rfl : owed = W.owed := howed
    have hawake : pausing p = false := by simpa [undisturbed, hp] using hcond
    exact hW.abandon hp hawake _
  · obtain rfl : owed = W.owed := howed
    exact ⟨hW.orderly, hW.other, hW.alone, hW.unread, hW.paused⟩

theorem tidy_run {parse : PlanParser} {S : System} (hS : S.Initial) {es : List Event}
    {W : PlanWatch}
    (h : Runs (During (PlanSteps parse) fun W e => undisturbed W e = true) ⟨S, false⟩ es W) :
    Tidy W :=
  h.invariant Tidy (fun hW hstep => tidy_step hW hstep.1 hstep.2) (.initial hS)

/-- While a run owes its plan, or a tick is pausing it, no call ends it. -/
theorem status_kept {parse : PlanParser} {W W' : PlanWatch} {e : Event} (hW : Tidy W)
    (h : PlanSteps parse W e W') (hcond : undisturbed W e = true)
    (howed : W.owed = true ∨ ∃ c ∈ W.sys.calls, pausing c.2 = true)
    (hdone : W'.sys.world.run.status = .succeeded) :
    W.sys.world.run.status = .succeeded := by
  obtain ⟨c, rfl, hnew⟩ | ⟨i, input, c, keys, tx, next, rfl, hp, hnew⟩ |
    ⟨i, c, p, rfl, hp, hnew⟩ | ⟨op, rfl, hnew⟩ := step_cases (plan_step_cases h).1
  · rw [hnew] at hdone
    exact hdone
  · rw [hnew] at hdone
    obtain hsame | hmove := exec_run input tx W.sys.world
    · exact hsame.symm.trans hdone
    · rw [hdone] at hmove
      exfalso
      have hset : tx = .setWorkflowRunStatus .succeeded := by
        cases tx with
        | setWorkflowRunStatus status =>
            obtain rfl : _ = status := hmove
            rfl
        | cancelWorkflowRun => cases hmove.2
        | expandPlan run plan => cases hmove.2
        | blockStepAndRun step => cases hmove.2
        | _ => cases hmove
      subst hset
      by_cases hc : c = .tick
      · subst hc
        -- the tick is not idle, so the run is not paused and another tick is pausing it
        obtain ⟨c, hmem, hpause⟩ : ∃ c ∈ W.sys.calls, pausing c.2 = true := by
          refine howed.elim (fun howed => ?_) id
          by_contra hnone
          have hall : ∀ (j : Nat) c q, W.sys.calls[j]? = some (c, q) → pausing q = false := by
            intro j c q hq
            rw [Bool.eq_false_iff]
            exact fun hpause => hnone ⟨(c, q), List.mem_of_getElem? hq, hpause⟩
          cases (hW.paused howed hall).2 i _ hp
        obtain ⟨j, hj⟩ := List.getElem?_of_mem hmem
        by_cases hji : j = i
        · subst hji
          rw [hp] at hj
          cases hj
          cases hpause
        · rw [(calm_of_undisturbed hp hcond hji hj).1] at hpause
          cases hpause
      · cases (hW.other i c _ hp hc).1
  · rw [hnew] at hdone
    exact hdone
  · rw [hnew] at hdone
    exact hdone

/-- A run whose architect step succeeded with a plan is at `plan_ready`, or has
been cancelled since, once the tick that recorded the success is over; and no
step sets it to `succeeded` before the plan is expanded. -/
theorem plan_not_skipped (parse : PlanParser) {S : System} (hS : S.Initial) {es : List Event}
    {W : PlanWatch}
    (h : Runs (During (PlanSteps parse) fun W e => undisturbed W e = true) ⟨S, false⟩ es W) :
    (W.owed = true → (∀ c ∈ W.sys.calls, pausing c.2 = false) →
      W.sys.world.run.status = .planReady ∨ W.sys.world.run.status = .cancelled) ∧
    ∀ e W', PlanSteps parse W e W' → undisturbed W e = true →
      (W.owed = true ∨ ∃ c ∈ W.sys.calls, pausing c.2 = true) →
      W'.sys.world.run.status = .succeeded → W.sys.world.run.status = .succeeded := by
  have hW := tidy_run hS h
  constructor
  · intro howed hall
    exact (hW.paused howed fun i c p hp => hall (c, p) (List.mem_of_getElem? hp)).1
  · exact fun e W' hstep hcond howed => status_kept hW hstep hcond howed

def architectRow : WorkflowStepRun :=
  { id := "s1"
    step := { id := "plan", role := .architect, adapter := some "claude",
              expandable := some true } }

def onePart : PlanParser := fun _ => .ok [{ id := "work", prompt := "Do it." }]

/-- A tick starts the architect's task, which succeeds with a plan, and another
begins. -/
def planned : List Event :=
  [enroll, .start .tick] ++ advance 0 9 "t1" ++
    [Event.store (.tryAssignBatch { freeBytes := 2 ^ 40 } "n1" false
       { limit := 1, now := morning, leaseExpiresAt := morning, ackDeadline := morning,
         attemptId := fun _ => "a1", fencingToken := fun _ => "a1" }),
     .store (.ackAttempt "a1" morning),
     .store (.completeAttempt "a1" { exitCode := 0, plan := some "- id: work" } "a1" morning
       morning),
     .start .tick]

def drafted : PlanWatch := ⟨begunWith [architectRow], false⟩

theorem drafted_initial : drafted.sys.Initial :=
  begunWith_initial (by decide) (by decide) (by decide)

/-- The tick is lost after it has stamped the plan, and a third one runs. -/
def interrupted : List Event :=
  planned ++ advance 1 10 "t2" ++ [Event.abandon 1, .start .tick] ++ advance 2 5 "t3"

/-- The second tick runs to its end. -/
theorem plan_not_skipped_paused :
    ∃ W, Runs (During (PlanSteps onePart) fun W e => undisturbed W e = true) drafted
        (planned ++ advance 1 11 "t2") W ∧
      W.owed = true ∧ W.sys.world.run.status = .planReady := by
  have hlast : ((planned ++ advance 1 11 "t2").foldlM (fun W e =>
      if undisturbed W e then PlanWatch.step onePart W e else none) drafted).any (fun W =>
        W.owed && W.sys.calls.all (fun c => !pausing c.2) &&
          W.sys.world.run.status != .cancelled) = true := by
    decide
  obtain ⟨W, hW, hend⟩ := (Option.any_eq_true _ _).mp hlast
  simp only [Bool.and_eq_true, List.all_eq_true, Bool.not_eq_true', bne_iff_ne] at hend
  have hrun := Runs.foldlM hW
  have hstatus := (plan_not_skipped onePart drafted_initial hrun).1 hend.1.1 hend.1.2
  exact ⟨W, hrun, hend.1.1, hstatus.resolve_right hend.2⟩

/-- The third tick finds every step succeeded. -/
theorem plan_skipped :
    drafted.sys.Initial ∧ ∃ W,
      Runs (PlanSteps onePart) drafted interrupted W ∧
      W.owed = true ∧ W.sys.world.run.status = .succeeded ∧
      W.sys.world.plan = some "- id: work" ∧ W.sys.world.steps.length = 1 := by
  refine ⟨drafted_initial, ?_⟩
  have hlast : (interrupted.foldlM (PlanWatch.step onePart) drafted).any (fun W =>
      W.owed && W.sys.world.run.status == .succeeded &&
        W.sys.world.plan == some "- id: work" && W.sys.world.steps.length == 1) = true := by
    decide
  obtain ⟨W, hW, hend⟩ := (Option.any_eq_true _ _).mp hlast
  simp only [Bool.and_eq_true, beq_iff_eq] at hend
  exact ⟨W, Runs.of_foldlM hW, hend.1.1.1, hend.1.1.2, hend.1.2, hend.2⟩

end AgentGrid.Workflow
