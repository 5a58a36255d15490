import AgentGrid.Workflow.Books

/-!
# The attempt budget of a step

Under ticks that follow one another, the tasks created for a step are counted
against its `attempts`.  A failure retry is created only below `max_attempts`,
the first task included.  The verifier loop has a budget of its own: it re-runs
the worker as long as its counter is below `max_attempts`, so that the worker's
first task comes on top, and it activates the verifier again after each re-run.
-/

namespace AgentGrid.Workflow

open AgentGrid.Foundation

/-- The terms of the only tick: between its transactions the run is idle, and
after each the account is in order but for one link. -/
def budgetTerms : Prog.Terms Tx String World Input where
  rely _ w w' := Idle w w'
  grant _ _ _ _ := True
  duty _ _ _ _ _ w := ∃ gap, Books [] gap w

abbrev Pays (rows : List WorkflowStepRun) {α : Type} (p : Program α) (w : World) : Prop :=
  p.Meets exec budgetTerms (fun _ w => Books rows none w) w

theorem Books.forget {rows : List WorkflowStepRun} {gap : Option String} {w : World}
    (h : Books rows gap w) : Books [] gap w :=
  ⟨h.keyed, by simp, h.known, h.fed, h.spent, h.linked⟩

namespace Pays

variable {rows : List WorkflowStepRun} {w : World} {α : Type}

theorem ret (value : α) (h : Books rows none w) : Pays rows (.ret value : Program α) w :=
  fun _ hidle => hidle.books h

/-- A call made with a fact at hand that the idle run keeps. -/
theorem hold {keys : List String} {tx : Tx} {f : tx.Reply → Program α} {gap : Option String}
    (K : World → Prop) (h : Books rows gap w) (hk : K w)
    (hstable : ∀ {w w'}, K w → Idle w w' → K w')
    (hnext : ∀ w input, Books rows gap w → K w →
      (∃ gap, Books rows gap (exec input tx w).1) ∧
        Pays rows (f (exec input tx w).2) (exec input tx w).1) :
    Pays rows (hold keys tx >>= f) w := by
  refine fun w' hidle => ⟨trivial, fun input _ => ?_⟩
  obtain ⟨⟨gap', hbooks⟩, hrest⟩ := hnext w' input (hidle.books h) (hstable hk hidle)
  exact ⟨⟨gap', hbooks.forget⟩, hrest⟩

theorem quiet {keys : List String} {tx : Tx} {f : tx.Reply → Program α} (htx : tx.quiet)
    (h : Books rows none w)
    (hnext : ∀ w reply, Books rows none w → Pays rows (f reply) w) :
    Pays rows (Workflow.hold keys tx >>= f) w :=
  hold (fun _ => True) h trivial (fun _ _ => trivial) fun _ input hw _ =>
    ⟨⟨none, hw.quiet input tx htx⟩, hnext _ _ (hw.quiet input tx htx)⟩

theorem of_benign {p : Program α} (hp : Benign p) (h : Books rows none w) : Pays rows p w := by
  refine .of_all (Books rows none) (fun hw hidle => Idle.books hidle hw)
    (fun {keys tx w} htx hw => ?_) hp h
  refine ⟨trivial, fun input _ => ?_⟩
  have hbooks := hw.benign input tx htx.2
  exact ⟨hbooks, fun _ _ => ⟨none, hbooks.forget⟩⟩

end Pays

section Tick

variable {rows steps : List WorkflowStepRun} {w : World} {run : WorkflowRun} {l : Progress}
  {row u : WorkflowStepRun} {task : String}

theorem pays_closeStep {status : WorkflowStepStatus} (h : Books rows none w)
    (hstatus : status ≠ .pending) : Pays rows (closeStep l row status) w :=
  .quiet hstatus h fun _ _ hw => .ret _ hw

theorem pays_retryStep (h : Books rows none w)
    (hclaimed : Books.Claimed row.id row.attempts row.step w)
    (hretry : row.step.retryable.getD false = true)
    (hmax : row.attempts + 1 < row.step.maxAttempts.getD 1) :
    Pays rows (retryStep run l row task) w := by
  refine .hold _ h hclaimed Books.Claimed.idle fun w input hw hclaimed => ?_
  obtain ⟨e, hlost⟩ | ⟨_, hwon⟩ := exec_createTask input w row.id (.retry task)
    (retryRequest run row.step)
  · rw [hlost]
    refine ⟨⟨none, hw⟩, .hold _ hw hclaimed Books.Claimed.idle fun w input hw hclaimed => ?_⟩
    have hbooks := hw.release hclaimed input
    exact ⟨⟨none, hbooks⟩, .ret _ hbooks⟩
  · rw [hwon]
    have hbooks := hw.retry hclaimed hretry hmax task (retryRequest run row.step) input.id input.stamp
    exact ⟨⟨none, hbooks⟩, .quiet trivial hbooks fun _ _ hw => .ret _ hw⟩

/-- The verifier was activated once for each re-run it asked for. -/
def Answered (v : String) (w : World) : Prop :=
  (w.tally v).activations ≤ (w.tally v).rejections

theorem Answered.idle {v : String} {w' : World} (h : Answered v w) (hidle : Idle w w') :
    Answered v w' := by
  unfold Answered
  rw [hidle.tally]
  exact h

theorem Answered.exec {v : String} (h : Answered v w) (input : Input) {tx : Tx}
    (htx : ∀ step cause req, tx ≠ .createTask step cause req) :
    Answered v (exec input tx w).1 := by
  unfold Answered
  rw [World.tally_congr (exec_spawned input tx w htx)]
  exact h

/-- The last two writes of the verifier loop. -/
theorem pays_rejoin {value : Flow} {keys : List String} (h : Books rows none w)
    (hanswered : Answered row.id w) :
    Pays rows (do
      let _ ← hold keys (.setStepStatus u.id .running)
      let _ ← hold [row.id] (.setStepStatus row.id .pending)
      pure value) w := by
  refine .hold _ h hanswered Answered.idle fun w input hw hanswered => ?_
  have hbooks := hw.quiet input (.setStepStatus u.id .running) nofun
  refine ⟨⟨none, hbooks⟩, .hold _ hbooks (hanswered.exec input fun _ _ _ => nofun) Answered.idle ?_⟩
  intro w input hw hanswered
  have hwaits := hw.wait hanswered input
  exact ⟨⟨none, hwaits⟩, .ret _ hwaits⟩

theorem pays_rerunWorker (h : Books rows none w) (hrow : row ∈ rows) (hu : u ∈ rows)
    (hrerun : canRerun u = true) (hrole : row.step.role = .verifier)
    (hfast : row.step.retryable.getD false = false)
    (hhead : u.step.id = row.step.dependsOn.head?.getD "") :
    Pays rows (rerunWorker run l row u task) w := by
  rw [canRerun, Bool.and_eq_true, decide_eq_true_eq] at hrerun
  refine .hold (fun _ => True) h trivial (fun _ _ => trivial) fun w input hw _ => ?_
  have hbooks := hw.quiet input (.claimRerun u.id u.attempts) trivial
  refine ⟨⟨none, hbooks⟩, ?_⟩
  split
  · rename_i hclaim
    refine .hold _ hbooks (hw.claimed hu hclaim) Books.Claimed.idle fun w fresh hw hclaimed => ?_
    obtain ⟨e, hlost⟩ | ⟨_, hwon⟩ := exec_createTask fresh w u.id (.rejection row.id task)
      (rerunRequest run u.step task)
    · rw [hlost]
      refine ⟨⟨none, hw⟩, .hold _ hw hclaimed Books.Claimed.idle fun w input hw hclaimed => ?_⟩
      have hbooks := hw.release hclaimed input
      exact ⟨⟨none, hbooks⟩, .ret _ hbooks⟩
    · rw [hwon]
      obtain ⟨r, hr, hstep⟩ := hw.read row hrow
      have hbooks := hw.rerun hclaimed hrerun.1 hrerun.2 hr hstep hrole hfast hhead task
        (rerunRequest run u.step task) fresh.id fresh.stamp
      have hanswered : Answered row.id
          (w.spawn u.id (.rejection row.id task) (rerunRequest run u.step task) fresh.id
            fresh.stamp) := by
        have hactivated := (hw.spent row.id r hr).activated
        rw [Answered, World.tally_spawn]
        simpa [Cause.rejectedBy] using hactivated
      refine ⟨⟨none, hbooks⟩, .hold _ hbooks hanswered Answered.idle fun w input hw hanswered => ?_⟩
      have hlinked := hw.quiet input (.setRoleRunTask u.id fresh.id) trivial
      exact ⟨⟨none, hlinked⟩, pays_rejoin hlinked (hanswered.exec input fun _ _ _ h => by cases h)⟩
  · exact .ret _ hbooks

theorem pays_onFailed (h : Books rows none w) (hrow : row ∈ rows) :
    Pays rows (onFailed run rows l row task) w := by
  refine .hold (fun _ => True) h trivial (fun _ _ => trivial) fun w input hw _ => ?_
  have hbooks := hw.quiet input (.claimFailure row.id row.attempts task) trivial
  refine ⟨⟨none, hbooks⟩, ?_⟩
  split
  · rename_i hclaim
    split
    · rename_i hretry
      exact pays_retryStep hbooks (hw.claimed hrow hclaim) hretry.1 hretry.2
    split
    · exact pays_closeStep hbooks nofun
    split
    · exact pays_closeStep hbooks nofun
    rename_i hfast
    split
    · rename_i hrole
      unfold onRejected
      split
      · rename_i u hu
        split
        · rename_i hrerun
          refine pays_rerunWorker hbooks hrow (List.mem_of_find?_eq_some hu) hrerun hrole ?_ ?_
          · simpa using hfast
          · simpa using List.find?_some hu
        · exact pays_closeStep hbooks nofun
      · exact pays_closeStep hbooks nofun
    · exact pays_closeStep hbooks nofun
  · exact .ret _ hbooks

theorem pays_resetIfWedged (h : Books rows none w) (hrow : row ∈ rows)
    (hlink : w.taskOf row.id = none) : Pays rows (resetIfWedged l row) w := by
  obtain ⟨r, hr, _⟩ := h.read row hrow
  refine .hold (fun w => ∃ r, w.step row.id = some r ∧ w.taskOf row.id = none) h ⟨r, hr, hlink⟩
    ?_ fun w input hw hk => ?_
  · rintro w w' ⟨r, hr, hlink⟩ hidle
    obtain ⟨r', hr', _⟩ := hidle.rows _ r hr
    exact ⟨r', hr', (hidle.links _ r hr).trans hlink⟩
  · obtain ⟨r, hr, hlink⟩ := hk
    have hbooks := hw.reset hr hlink input
    refine ⟨⟨none, hbooks⟩, ?_⟩
    split <;> exact .ret _ hbooks

theorem pays_activate {messages : List AgentMessage} (h : Books rows none w) :
    Pays rows (activate run l row messages) w := by
  refine .hold (fun _ => True) h trivial (fun _ _ => trivial) fun w input hw _ => ?_
  have hbooks := hw.quiet input (.claimActivation row.id) trivial
  refine ⟨⟨none, hbooks⟩, ?_⟩
  split
  · rename_i hclaim
    refine .hold _ hbooks (hw.activating hclaim) Books.Activating.idle fun w fresh hw hactive => ?_
    obtain ⟨e, hlost⟩ | ⟨_, hwon⟩ := exec_createTask fresh w row.id .activation
      (activationRequest run row.step messages)
    · rw [hlost]
      refine ⟨⟨none, hw⟩, .hold _ hw hactive Books.Activating.idle fun w input hw hactive => ?_⟩
      obtain ⟨_, _, _, hanswered⟩ := hactive
      have hwaits := hw.wait hanswered input
      exact ⟨⟨none, hwaits⟩, .ret _ hwaits⟩
    · rw [hwon]
      have hbooks := hw.activate hactive (activationRequest run row.step messages) fresh.id
        fresh.stamp
      refine ⟨⟨some row.id, hbooks⟩, .hold (fun _ => True) hbooks trivial
        (fun _ _ => trivial) fun w input hw _ => ?_⟩
      exact ⟨⟨none, hw.link input⟩, .ret _ (hw.link input)⟩
  · exact .ret _ hbooks

theorem pays_tickStep (h : Books rows none w) (hrow : row ∈ rows) :
    Pays rows (tickStep run rows l row) w := by
  unfold tickStep
  split
  case h_6 =>
      refine .hold (fun _ => True) h trivial (fun _ _ => trivial) fun w input hw _ => ?_
      refine ⟨⟨none, hw⟩, ?_⟩
      split
      · rename_i hlink
        exact pays_resetIfWedged hw hrow hlink
      · refine .quiet trivial hw fun w found hw => ?_
        split
        · exact .of_benign benign_onSucceeded hw
        · exact pays_onFailed hw hrow
        · exact .of_benign benign_onCancelled hw
        all_goals exact .ret _ hw
  case h_7 =>
      unfold tickPending
      split
      · exact .quiet trivial h fun w messages hw => pays_activate hw
      · exact .ret _ h
  all_goals exact .ret _ h

theorem pays_tickLoop {rest : List WorkflowStepRun} (hrest : ∀ row ∈ rest, row ∈ rows)
    (h : Books rows none w) : Pays rows (tickLoop run rows rest l) w := by
  induction rest generalizing l w with
  | nil => exact .of_benign (benign_tickEnd l.created) h
  | cons row rest ih =>
      refine .bind (fun _ w => Idle.refl w) (fun flow => ?_) ?_
      · cases flow with
        | next l => exact held_tickLoop rest l
        | stop result => rfl
      · refine (pays_tickStep h (hrest row (by simp))).mono fun flow w hw => ?_
        cases flow with
        | next l => exact ih (fun r hr => hrest r (by simp [hr])) hw
        | stop result => exact Pays.ret _ hw

theorem pays_tickSteps (h : Books [] none w) : Pays [] (tickSteps run) w := by
  refine .hold (fun _ => True) h trivial (fun _ _ => trivial) fun w input hw _ => ?_
  refine ⟨⟨none, hw⟩, ?_⟩
  have hread : Books w.steps none w :=
    ⟨hw.keyed, fun row hrow => ⟨row, lookup_of_mem hw.keyed.1 hrow, rfl⟩, hw.known, hw.fed,
      hw.spent, hw.linked⟩
  exact (pays_tickLoop (fun _ hrow => hrow) hread).mono fun _ _ hw => hw.forget

theorem pays_tickRun (h : Books [] none w) : Pays [] (tickRun run) w := by
  have hbudget : ∀ w, Books [] none w → Pays [] (tickBudget run) w := by
    refine fun w hw => .quiet trivial hw fun w budget hw => ?_
    split
    · exact pays_tickSteps hw
    · refine .quiet trivial hw fun w steps hw => .quiet trivial hw fun w usage hw => ?_
      dsimp only
      split
      · exact .of_benign (benign_cancelStepTasks steps) hw
      · exact pays_tickSteps hw
  unfold tickRun
  split
  case h_6 => exact .quiet trivial h fun w _ hw => hbudget w hw
  case h_7 => exact hbudget w h
  all_goals exact .ret _ h

theorem pays_tick {parse : PlanParser} (h : Books [] none w) :
    Pays [] (tickWorkflowRun parse) w := by
  refine .quiet trivial h fun w run hw => ?_
  split
  · refine .bind (fun _ w => Idle.refl w) (fun value => ?_) ?_
    · cases value <;> rfl
    · refine (Pays.of_benign (benign_approve parse) hw).mono fun value w hw => ?_
      cases value with
      | error e => exact Pays.ret _ hw
      | ok => exact Pays.quiet trivial hw fun w run hw => pays_tickRun hw
  · exact pays_tickRun hw

end Tick

section Run

variable {parse : PlanParser}

def Call.ticking (c : Call × Program Outcome) : Bool := c.1 == .tick && c.2.pending.isSome

/-- A tick begins only when none is in progress, and runs to its end. -/
def sequential (S : System) : Event → Bool
  | .start .tick => S.calls.all fun c => !Call.ticking c
  | .abandon i => S.calls[i]?.all fun c => !Call.ticking c
  | _ => true

/-- The account of a run under sequential ticks. -/
structure Accounted (S : System) : Prop where
  others : ∀ (i : Nat) (c : Call) (p : Program Outcome), S.calls[i]? = some (c, p) →
    c ≠ .tick → Benign p
  alone : ∀ (i j : Nat) (p q : Program Outcome), S.calls[i]? = some (.tick, p) → S.calls[j]? = some (.tick, q) →
    p.pending ≠ none → q.pending ≠ none → i = j
  meets : ∀ (i : Nat) (p : Program Outcome), S.calls[i]? = some (.tick, p) → p.pending ≠ none → Pays [] p S.world
  rest : (∀ (i : Nat) (p : Program Outcome), S.calls[i]? = some (.tick, p) → p.pending = none) →
    Books [] none S.world
  books : ∃ gap, Books [] gap S.world

namespace Accounted

variable {S : System}

theorem of_idle {w : World} (h : Accounted S) (hidle : Idle S.world w) :
    Accounted { S with world := w } := by
  refine ⟨h.others, h.alone, fun i p hp hopen => ?_, fun hdone => hidle.books (h.rest hdone), ?_⟩
  · exact (h.meets i p hp hopen).stable Idle.trans hidle
  · obtain ⟨gap, hbooks⟩ := h.books
    exact ⟨gap, hidle.books hbooks⟩

/-- A call that is no tick, or no longer one in progress, is replaced. -/
theorem set {i : Nat} {c : Call} {p q : Program Outcome} (h : Accounted S)
    (hcall : S.calls[i]? = some (c, p)) (hquiet : c = .tick → p.pending = none)
    (hdone : c = .tick → q.pending = none) (hq : c ≠ .tick → Benign q) :
    Accounted { S with calls := S.calls.set i (c, q) } := by
  refine ⟨fun j d r hr hd => ?_, fun j k r t hr ht hropen htopen => ?_, fun j r hr hopen => ?_,
    fun hall => h.rest fun j r hr => ?_, h.books⟩
  · obtain ⟨rfl, hnew⟩ | ⟨_, hold⟩ := mem_set hr
    · cases hnew
      exact hq hd
    · exact h.others j d r hold hd
  · obtain ⟨rfl, hnew⟩ | ⟨_, hr⟩ := mem_set hr
    · cases hnew
      exact absurd (hdone rfl) hropen
    obtain ⟨rfl, hnew⟩ | ⟨_, ht⟩ := mem_set ht
    · cases hnew
      exact absurd (hdone rfl) htopen
    exact h.alone j k r t hr ht hropen htopen
  · obtain ⟨rfl, hnew⟩ | ⟨_, hr⟩ := mem_set hr
    · cases hnew
      exact absurd (hdone rfl) hopen
    · exact h.meets j r hr hopen
  · by_cases hj : j = i
    · subst hj
      rw [hcall] at hr
      cases hr
      exact hquiet rfl
    · exact hall j r (by rw [List.getElem?_set_ne (Ne.symm hj)]; exact hr)

theorem start (h : Accounted S) {c : Call}
    (hc : c = .tick → ∀ (i : Nat) (p : Program Outcome), S.calls[i]? = some (.tick, p) →
      p.pending = none) :
    Accounted { S with calls := S.calls ++ [(c, c.program parse)] } := by
  have hmem : ∀ {i : Nat} {d : Call × Program Outcome},
      (S.calls ++ [(c, c.program parse)])[i]? = some d →
      S.calls[i]? = some d ∨ i = S.calls.length ∧ d = (c, c.program parse) := by
    intro i d hd
    rw [List.getElem?_append] at hd
    split at hd
    · exact .inl hd
    · obtain ⟨hlt, hnew⟩ := List.getElem?_eq_some_iff.mp hd
      rw [List.length_singleton] at hlt
      refine .inr ⟨by omega, ?_⟩
      simpa using hnew.symm
  refine ⟨fun i d p hp hd => ?_, fun i j p q hp hq hpopen hqopen => ?_, fun i p hp hopen => ?_,
    fun hall => h.rest fun i p hp => hall i p ?_, h.books⟩
  · obtain hold | ⟨_, hnew⟩ := hmem hp
    · exact h.others i d p hold hd
    · cases hnew
      exact benign_call hd
  · obtain hpold | ⟨hi, hpnew⟩ := hmem hp
    · obtain hqold | ⟨_, hqnew⟩ := hmem hq
      · exact h.alone i j p q hpold hqold hpopen hqopen
      · cases hqnew
        exact absurd (hc rfl i p hpold) hpopen
    · obtain hqold | ⟨hj, _⟩ := hmem hq
      · cases hpnew
        exact absurd (hc rfl j q hqold) hqopen
      · rw [hi, hj]
  · obtain hold | ⟨_, hnew⟩ := hmem hp
    · exact h.meets i p hold hopen
    · cases hnew
      exact pays_tick (h.rest (hc rfl))
  · rw [List.getElem?_append_left (List.getElem?_eq_some_iff.mp hp).1]
    exact hp

theorem tick {i : Nat} {keys : List String} {tx : Tx} {next : tx.Reply → Program Outcome}
    (h : Accounted S) (hcall : S.calls[i]? = some (.tick, .call keys tx next)) (input : Input) :
    Accounted ⟨(exec input tx S.world).1,
      S.calls.set i (.tick, next (exec input tx S.world).2)⟩ := by
  obtain ⟨hbooks, hrest⟩ := (h.meets i _ hcall nofun S.world (Idle.refl _)).2 input trivial
  have hothers : ∀ (j : Nat) (p : Program Outcome), j ≠ i → S.calls[j]? = some (.tick, p) →
      p.pending = none := by
    intro j p hj hp
    by_contra hopen
    exact hj (h.alone j i p _ hp hcall hopen nofun)
  refine ⟨fun j d p hp hd => ?_, fun j k p q hp hq hpopen hqopen => ?_, fun j p hp hopen => ?_,
    fun hall => ?_, hbooks⟩
  · obtain ⟨rfl, hnew⟩ | ⟨_, hold⟩ := mem_set hp
    · cases hnew
      exact absurd rfl hd
    · exact h.others j d p hold hd
  · obtain ⟨hj, _⟩ | ⟨hj, hp⟩ := mem_set hp
    · obtain ⟨hk, _⟩ | ⟨hk, hq⟩ := mem_set hq
      · rw [hj, hk]
      · exact absurd (hothers k q hk hq) hqopen
    · exact absurd (hothers j p hj hp) hpopen
  · obtain ⟨rfl, hnew⟩ | ⟨hj, hp⟩ := mem_set hp
    · cases hnew
      exact hrest
    · exact absurd (hothers j p hj hp) hopen
  · have hlt := (List.getElem?_eq_some_iff.mp hcall).1
    have hdone := hall i _ (List.getElem?_set_self hlt)
    cases hnext : next (exec input tx S.world).2 with
    | ret value =>
        rw [hnext] at hrest
        exact hrest _ (Idle.refl _)
    | call keys tx next =>
        rw [hnext] at hdone
        cases hdone

theorem step {S' : System} {e : Event} (h : Accounted S) (hstep : Steps parse S e S')
    (hseq : sequential S e = true) : Accounted S' := by
  have hidle : ∀ {c : Call × Program Outcome}, (!Call.ticking c) = true → c.1 = .tick →
      c.2.pending = none := by
    intro c hc htick
    simpa [Call.ticking, htick] using hc
  obtain ⟨c, rfl, rfl⟩ | ⟨i, input, c, keys, tx, next, rfl, hcall, rfl⟩ |
    ⟨i, c, p, rfl, hcall, rfl⟩ | ⟨op, rfl, rfl⟩ := step_cases hstep
  · refine h.start ?_
    rintro rfl i p hp
    exact hidle (List.all_eq_true.mp hseq _ (List.mem_of_getElem? hp)) rfl
  · by_cases hc : c = .tick
    · subst hc
      exact h.tick hcall input
    · have hbenign := h.others i c _ hcall hc
      refine (h.of_idle (idle_exec input hbenign.1.2 S.world)).set hcall ?_ ?_ ?_
      · exact fun htick => absurd htick hc
      · exact fun htick => absurd htick hc
      · exact fun _ => hbenign.2 _
  · simp only [sequential, hcall, Option.all_some] at hseq
    exact h.set hcall (hidle hseq) (fun _ => rfl) fun _ => trivial
  · exact h.of_idle ⟨rfl, id, fun _ row hrow => ⟨row, hrow, rfl, rfl, id⟩, fun _ _ _ => rfl⟩

theorem initial (h : S.Initial) : Accounted S := by
  have hnone : ∀ i : Nat, S.calls[i]? = none := by simp [h.calls]
  have htally : ∀ k, S.world.tally k = ⟨0, 0, 0, 0⟩ := by
    intro k
    simp [World.tally, h.world.spawned]
  have hbooks : Books [] none S.world := by
    refine ⟨h.world.keyed, by simp, ?_, ?_, fun k row hrow => ?_, fun k row hrow _ => ?_⟩
    · simp [h.world.spawned]
    · simp [h.world.spawned]
    · rw [htally]
      exact ⟨Nat.zero_le _, by simp, fun _ => rfl, Nat.zero_le _, fun _ => le_rfl, fun _ => rfl⟩
    · rw [htally]
      exact .inl rfl
  refine ⟨?_, ?_, ?_, fun _ => hbooks, none, hbooks⟩
  · simp [hnone]
  · simp [hnone]
  · simp [hnone]

end Accounted

/-- A verifier's rejections are re-runs of its first dependency. -/
theorem Books.rejections_le {rows : List WorkflowStepRun} {gap : Option String} {w : World}
    (h : Books rows gap w) {row u : WorkflowStepRun} (hrow : row ∈ w.steps) (hu : u ∈ w.steps)
    (hhead : u.step.id = row.step.dependsOn.head?.getD "") :
    (w.tally row.id).rejections ≤ (w.tally u.id).reruns := by
  refine List.countP_mono_left fun s hs hby => ?_
  obtain ⟨found, worker, hfound, hworker, hid⟩ := h.fed s hs row.id hby
  rw [World.step, lookup_of_mem h.keyed.1 hrow] at hfound
  cases hfound
  obtain ⟨hmem, hstep⟩ := lookup_mem hworker
  have hsame : worker = u := row_unique h.keyed.2 hmem hu (hid.trans hhead.symm)
  rw [Bool.and_eq_true, beq_iff_eq, ← hstep, hsame]
  refine ⟨rfl, ?_⟩
  cases hcause : s.cause <;> simp_all [Cause.rejectedBy, Cause.isRejection]

/-- Under sequential ticks and any outcomes, a step has one task, and with it:
as many failure retries as leave `max_attempts` tasks; one task more if verifiers
had it run again; a verifier, one task for each re-run that it caused. -/
theorem tasks_within_budget {S₀ S : System} {es : List Event} (hinit : S₀.Initial)
    (hrun : Runs (During (Steps parse) fun S e => sequential S e = true) S₀ es S) :
    ∀ row ∈ S.world.steps,
      (row.step.retryable.getD false = true →
        S.world.tasksOf row.id ≤ max 1 (row.step.maxAttempts.getD 1) +
          if (S.world.tally row.id).reruns = 0 then 0 else 1) ∧
      (row.step.retryable.getD false = false → row.step.role ≠ .verifier →
        S.world.tasksOf row.id ≤ 1) ∧
      (row.step.retryable.getD false = false → row.step.role = .verifier →
        S.world.tasksOf row.id ≤ 1 + (S.world.tally row.id).rejections ∧
        ∀ u ∈ S.world.steps, u.step.id = row.step.dependsOn.head?.getD "" →
          S.world.tasksOf row.id ≤ 1 + max 1 (u.step.maxAttempts.getD 1)) := by
  have hS : Accounted S :=
    Runs.invariant _ (fun hS hstep => hS.step hstep.1 hstep.2) hrun (.initial hinit)
  obtain ⟨gap, hbooks⟩ := hS.books
  intro row hrow
  have hspent := hbooks.spent row.id row (lookup_of_mem hbooks.keyed.1 hrow)
  have hactivated := hspent.activated
  rw [World.tasksOf_eq]
  refine ⟨fun hretry => ?_, fun hfast hrole => ?_, fun hfast hrole => ⟨?_, fun u hu hhead => ?_⟩⟩
  · have hbounded := hspent.bounded
    have hrejections := hspent.looping (.inr hretry)
    omega
  · have hclaims := hspent.optedIn hfast
    have hrejections := hspent.looping (.inl hrole)
    omega
  · have hclaims := hspent.optedIn hfast
    omega
  · have hclaims := hspent.optedIn hfast
    have hreruns := hbooks.rejections_le hrow hu hhead
    have hbounded := (hbooks.spent u.id u (lookup_of_mem hbooks.keyed.1 hu)).bounded
    split at hbounded <;> omega

def afterRejection : System := loop.after (verifying ++ rejected)

theorem afterRejection_runs :
    Runs (During (Steps noPlan) fun S e => sequential S e = true) loop (verifying ++ rejected)
      afterRejection :=
  runs_during (by decide)

/-- The worker with its budget of one, and one rejection. -/
theorem tasks_within_budget_rejected :
    afterRejection.world.tasksOf "s1" ≤ 2 ∧ afterRejection.world.tasksOf "s2" ≤ 2 := by
  have hbudget := tasks_within_budget loop_initial afterRejection_runs
  constructor
  · exact (hbudget _ (List.mem_cons_self ..)).1 (by decide)
  · exact ((hbudget _ (List.mem_cons_of_mem _ (List.mem_cons_self ..))).2.2 (by decide)
      (by decide)).1

/-- The worker's second task succeeds and the verifier is activated again. -/
def verifyingAgain : List Event :=
  verifying ++ rejected ++ attempt "a3" 0 ++ [.start .tick] ++ advance 3 13 "t4"

theorem tasks_exceed_max_attempts :
    (¬ ∀ (S₀ S : System) (es : List Event), S₀.Initial →
      Runs (During (Steps noPlan) fun S e => sequential S e = true) S₀ es S →
      ∀ row ∈ S.world.steps, row.step.role ≠ .verifier →
        S.world.tasksOf row.id ≤ max 1 (row.step.maxAttempts.getD 1)) ∧
    ¬ ∀ (S₀ S : System) (es : List Event), S₀.Initial →
      Runs (During (Steps noPlan) fun S e => sequential S e = true) S₀ es S →
      ∀ row ∈ S.world.steps, row.step.role = .verifier →
        S.world.tasksOf row.id ≤ max 1 (row.step.maxAttempts.getD 1) := by
  constructor
  · intro h
    have hworker := h loop _ _ loop_initial afterRejection_runs _ (List.mem_cons_self ..)
      (by decide)
    revert hworker
    decide
  · intro h
    have hagain : Runs (During (Steps noPlan) fun S e => sequential S e = true) loop
        verifyingAgain (loop.after verifyingAgain) := runs_during (by decide)
    have hverifier := h loop _ _ loop_initial hagain _
      (List.mem_cons_of_mem _ (List.mem_cons_self ..)) (by decide)
    revert hverifier
    decide

end Run

end AgentGrid.Workflow
