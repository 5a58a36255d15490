import AgentGrid.Store.ConsensusCollapse

/-!
# A group is decided once

The rows that a collapse has written stand in the way of another one of the
group, as long as the count recognises them, and a call that is past its check of
the members still finds them terminal, as long as none is retried or added.
-/

namespace AgentGrid.Store.Consensus

open AgentGrid.Foundation AgentGrid.Node

variable {up : String → List Char}

/-! ## Runs -/

/-- What is written of a disagreement is recognised by its own group. -/
def CollapsePhase.Recognises : CollapsePhase → Prop
  | .disagreed group members => Recognised group (disagreementPermission group members)
  | _ => True

/-- The condition: a group with a call past its check gets no member and has none
retried, and the disagreements written can be recognised. -/
def Undisturbed (s : ConsensusState) : ConsensusEvent → Prop
  | .createTask t => ∀ c ∈ s.calls, ∀ g ∈ c.phase.checked, t.consensusGroupId ≠ some g
  | .moveTask id transition => transition = .retry →
      ∀ c ∈ s.calls, ∀ g ∈ c.phase.checked, s.db.inGroup g id = false
  | .advance i _ => ∀ c ∈ s.calls[i]?, c.phase.Recognises
  | _ => True

instance : DecidablePred CollapsePhase.Recognises
  | .disagreed _ _ => inferInstanceAs (Decidable (Recognised _ _))
  | .called | .grouped _ | .weighing _ _ | .reviewing _ _ _ | .decided _ _ _ _ | .finished =>
      inferInstanceAs (Decidable True)

instance (s : ConsensusState) : DecidablePred (Undisturbed s)
  | .createTask t => inferInstanceAs
      (Decidable (∀ c ∈ s.calls, ∀ g ∈ c.phase.checked, t.consensusGroupId ≠ some g))
  | .moveTask id transition => inferInstanceAs (Decidable (transition = .retry →
      ∀ c ∈ s.calls, ∀ g ∈ c.phase.checked, s.db.inGroup g id = false))
  | .advance i _ => inferInstanceAs (Decidable (∀ c ∈ s.calls[i]?, c.phase.Recognises))
  | .openApproval _ | .answerApproval _ _ | .audit _ | .completed _ | .lose _ =>
      inferInstanceAs (Decidable True)

def ConsensusSteps (up : String → List Char) :
    ConsensusState → ConsensusEvent → ConsensusState → Prop :=
  During (fun s e t => consensusStep up s e = some t) Undisturbed

structure ConsensusInv (s : ConsensusState) : Prop where
  tidy : Tidy s.db
  recognised : ∀ g, ∀ text ∈ s.db.disagreements g, Recognised g text
  disagreements : ∀ g, (s.db.disagreements g).length ≤ 1
  actions : ∀ g, ∀ e ∈ s.db.decisions g, e.action = "review_consensus.approved" ∨
    e.action = "review_consensus.disagreement"
  decisions : ∀ g, (s.db.decisions g).length ≤ 1
  calls : ∀ c ∈ s.calls, c.Sound s.db

theorem consensusInv_init : ConsensusInv {} where
  tidy := ⟨List.nodup_nil, by nofun⟩
  recognised _ := by nofun
  disagreements _ := Nat.zero_le 1
  actions _ := by nofun
  decisions _ := Nat.zero_le 1
  calls := by nofun

theorem advance_spec {s t : ConsensusState} {i : Nat} {found : Found}
    (hstep : consensusStep up s (.advance i found) = some t) :
    ∃ c, s.calls[i]? = some c ∧ t = { s with
      db := (c.next up s.db found).1
      calls := s.calls.set i { c with phase := (c.next up s.db found).2 } } := by
  rw [consensusStep] at hstep
  cases hc : s.calls[i]? with
  | none =>
      rw [hc] at hstep
      cases hstep
  | some c =>
      rw [hc] at hstep
      exact ⟨c, rfl, (Option.some.inj hstep).symm⟩

/-- What a step other than that of a call does to the calls and the rows they wrote. -/
theorem step_cases {s t : ConsensusState} (h : Tidy s.db) {e : ConsensusEvent}
    (hstep : consensusStep up s e = some t) :
    (Tidy t.db ∧ Keeps s.db t.db ∧ ∀ c ∈ t.calls,
      c ∈ s.calls ∨ c.phase = .called ∨ c.phase = .finished) ∨
    ∃ i found c, e = .advance i found ∧ s.calls[i]? = some c ∧
      t = { s with
        db := (c.next up s.db found).1
        calls := s.calls.set i { c with phase := (c.next up s.db found).2 } } := by
  have hkept : ∀ c ∈ s.calls, c ∈ s.calls ∨ c.phase = .called ∨ c.phase = .finished :=
    fun _ hc => .inl hc
  cases e with
  | createTask task =>
      rw [consensusStep, Option.ite_none_right_eq_some] at hstep
      obtain ⟨⟨hfresh, -⟩, hstep⟩ := hstep
      cases hstep
      obtain ⟨htidy, hkeeps⟩ := h.createTask hfresh
      exact .inl ⟨htidy, hkeeps, hkept⟩
  | moveTask id transition =>
      obtain ⟨db, hmove, rfl⟩ := Option.map_eq_some_iff.mp hstep
      obtain ⟨task, status, -, -, rfl⟩ := moveTask_spec hmove
      obtain ⟨htidy, hkeeps⟩ := h.setStatus id status
      exact .inl ⟨htidy, hkeeps, hkept⟩
  | openApproval a =>
      rw [consensusStep, Option.ite_none_right_eq_some] at hstep
      obtain ⟨ha, hstep⟩ := hstep
      cases hstep
      obtain ⟨htidy, hkeeps⟩ := h.openApproval ha
      exact .inl ⟨htidy, hkeeps, hkept⟩
  | answerApproval id status =>
      cases hstep
      obtain ⟨htidy, hkeeps⟩ := h.answer id status
      exact .inl ⟨htidy, hkeeps, hkept⟩
  | audit e =>
      rw [consensusStep, Option.ite_none_right_eq_some] at hstep
      obtain ⟨he, hstep⟩ := hstep
      cases hstep
      exact .inl ⟨⟨h.ids, h.known⟩, .audit s.db he, hkept⟩
  | completed taskId =>
      cases hstep
      refine .inl ⟨h, .refl s.db, fun c hc => ?_⟩
      rcases List.mem_append.mp hc with hc | hc
      · exact .inl hc
      · rw [List.mem_singleton.mp hc]
        exact .inr (.inl rfl)
  | advance i found =>
      obtain ⟨c, hc, ht⟩ := advance_spec hstep
      exact .inr ⟨i, found, c, rfl, hc, ht⟩
  | lose i =>
      cases hstep
      refine .inl ⟨h, .refl s.db, fun c hc => ?_⟩
      obtain ⟨j, hj⟩ := List.getElem?_of_mem hc
      rw [List.getElem?_modify] at hj
      obtain ⟨old, hold, rfl⟩ := Option.map_eq_some_iff.mp hj
      split
      · exact .inr (.inr rfl)
      · exact .inl (List.mem_of_getElem? hold)

/-- A terminal task leaves its status by a retry only. -/
theorem retry_of_terminal {status status' : TaskStatus} {transition : TaskTransition}
    (h : nextTaskStatus status transition = .ok status') (hterminal : status.isTerminal = true) :
    transition = .retry := by
  cases status <;> cases transition <;> first
    | rfl
    | (simp [nextTaskStatus] at h; done)
    | simp [TaskStatus.isTerminal] at hterminal

theorem next_tasks (db : ConsensusDb) (c : CollapseCall) (found : Found) :
    (c.next up db found).1.tasks = db.tasks := by
  unfold CollapseCall.next
  split
  · rfl
  · rfl
  · rfl
  · rfl
  · rw [recordDisagreement]
    split <;> rfl
  · rw [recordDecision]
    split <;> rfl
  · rfl

namespace ConsensusInv

variable {s t : ConsensusState}

theorem checked (h : ConsensusInv s) :
    ∀ c ∈ s.calls, ∀ g, c.phase.checked = some g → s.db.AllTerminal g :=
  fun c hc => (h.calls c hc).checked

/-- The members of a group stay terminal while a call of it is past its check. -/
theorem terminal (h : ConsensusInv s) {e : ConsensusEvent}
    (hstep : consensusStep up s e = some t) (hcond : Undisturbed s e) :
    ∀ c ∈ s.calls, ∀ g, c.phase.checked = some g → t.db.AllTerminal g := by
  intro c hc g hg row hrow hgroup
  have hold := h.checked c hc g hg
  cases e with
  | createTask task =>
      rw [consensusStep, Option.ite_none_right_eq_some] at hstep
      obtain ⟨-, hstep⟩ := hstep
      cases hstep
      rcases List.mem_append.mp hrow with hrow | hrow
      · exact hold row hrow hgroup
      · rw [List.mem_singleton.mp hrow] at hgroup
        exact absurd hgroup (hcond c hc g hg)
  | moveTask id transition =>
      obtain ⟨db, hmove, rfl⟩ := Option.map_eq_some_iff.mp hstep
      obtain ⟨task, status, hlookup, hstatus, rfl⟩ := moveTask_spec hmove
      obtain ⟨old, hmem, rfl⟩ := mem_updateWhere.mp hrow
      by_cases hid : (old.id == id) = true
      · rw [if_pos hid] at hgroup
        have hin : s.db.inGroup g id = true :=
          ConsensusDb.inGroup_iff.mpr ⟨old, hmem, beq_iff_eq.mp hid, hgroup⟩
        obtain ⟨htask, hsame⟩ := lookup_mem hlookup
        obtain rfl : task = old :=
          row_unique h.tidy.ids htask hmem (hsame.trans (beq_iff_eq.mp hid).symm)
        have hretry := retry_of_terminal hstatus (hold task hmem hgroup)
        rw [hcond hretry c hc g hg] at hin
        cases hin
      · rw [if_neg hid] at hgroup ⊢
        exact hold old hmem hgroup
  | openApproval a =>
      rw [consensusStep, Option.ite_none_right_eq_some] at hstep
      obtain ⟨-, hstep⟩ := hstep
      cases hstep
      exact hold row hrow hgroup
  | audit e =>
      rw [consensusStep, Option.ite_none_right_eq_some] at hstep
      obtain ⟨-, hstep⟩ := hstep
      cases hstep
      exact hold row hrow hgroup
  | answerApproval id status =>
      cases hstep
      exact hold row hrow hgroup
  | completed taskId =>
      cases hstep
      exact hold row hrow hgroup
  | lose i =>
      cases hstep
      exact hold row hrow hgroup
  | advance i found =>
      obtain ⟨c', -, rfl⟩ := advance_spec hstep
      rw [next_tasks] at hrow
      exact hold row hrow hgroup

theorem addDisagreement (h : ConsensusInv s) {taskId g : String} {members : List String}
    (hgroup : s.db.inGroup g taskId = true) (hzero : s.db.existingDisagreements g = some 0)
    (hrec : Recognised g (disagreementPermission g members)) (found : Found) :
    ConsensusInv { s with db := { s.db with
      approvals := s.db.approvals ++ [disagreementApproval taskId g members found] } } := by
  -- nothing recognisable of the group was there
  have hempty : s.db.disagreements g = [] := by
    refine List.eq_nil_iff_forall_not_mem.mpr fun text htext => ?_
    exact existing_of_disagreement htext (h.recognised g text htext) hzero
  have hrows : ∀ g', ConsensusDb.disagreements { s.db with
      approvals := s.db.approvals ++ [disagreementApproval taskId g members found] } g' =
      s.db.disagreements g' ++ if g' = g then [disagreementPermission g members] else [] := by
    intro g'
    rw [ConsensusDb.disagreements_append]
    refine congrArg (s.db.disagreements g' ++ ·) (if_congr ?_ rfl rfl)
    rw [Bool.and_eq_true]
    refine ⟨fun hin => ConsensusDb.inGroup_unique h.tidy.ids hin.2 hgroup, ?_⟩
    rintro rfl
    exact ⟨rfl, hgroup⟩
  refine ⟨⟨h.tidy.ids, ?_⟩, ?_, ?_, h.actions, h.decisions, fun c hc =>
    ⟨(h.calls c hc).group, (h.calls c hc).checked⟩⟩
  · intro a ha hown
    rcases List.mem_append.mp ha with ha | ha
    · exact h.tidy.known a ha hown
    · obtain ⟨task, htask, hid, -⟩ := ConsensusDb.inGroup_iff.mp hgroup
      rw [List.mem_singleton.mp ha]
      exact List.mem_map.mpr ⟨task, htask, hid⟩
  · intro g' text htext
    rw [hrows] at htext
    rcases List.mem_append.mp htext with htext | htext
    · exact h.recognised g' text htext
    · split at htext
      · rename_i heq
        rw [heq, List.mem_singleton.mp htext]
        exact hrec
      · cases htext
  · intro g'
    rw [hrows]
    split
    · rename_i heq
      rw [heq, hempty]
      exact Nat.le_refl 1
    · rw [List.append_nil]
      exact h.disagreements g'

theorem addDecision (h : ConsensusInv s) {g : String} (hzero : s.db.existingDecisions g = 0)
    (reviewOf : String) (all : Bool) (summary : String) (found : Found) :
    ConsensusInv { s with db := { s.db with
      auditEvents := s.db.auditEvents ++ [decisionEvent g reviewOf all summary found] } } := by
  have hempty : s.db.decisions g = [] := by
    refine List.eq_nil_iff_forall_not_mem.mpr fun e he => ?_
    exact existing_of_decision he (h.actions g e he) hzero
  have hrows : ∀ g', ConsensusDb.decisions { s.db with
      auditEvents := s.db.auditEvents ++ [decisionEvent g reviewOf all summary found] } g' =
      s.db.decisions g' ++ if g' = g then [decisionEvent g reviewOf all summary found] else [] := by
    intro g'
    rw [ConsensusDb.decisions_append]
    refine congrArg (s.db.decisions g' ++ ·) (if_congr ?_ rfl rfl)
    change (true && some g == some g') = true ↔ g' = g
    rw [Bool.true_and, beq_iff_eq, Option.some.injEq, eq_comm]
  refine ⟨⟨h.tidy.ids, h.tidy.known⟩, h.recognised, h.disagreements, ?_, ?_, fun c hc =>
    ⟨(h.calls c hc).group, (h.calls c hc).checked⟩⟩
  · intro g' e he
    rw [hrows] at he
    rcases List.mem_append.mp he with he | he
    · exact h.actions g' e he
    · split at he
      · rw [List.mem_singleton.mp he]
        cases all with
        | true => exact .inl rfl
        | false => exact .inr rfl
      · cases he
  · intro g'
    rw [hrows]
    split
    · rename_i heq
      rw [heq, hempty]
      exact Nat.le_refl 1
    · rw [List.append_nil]
      exact h.decisions g'

theorem advance (h : ConsensusInv s) {i : Nat} {c : CollapseCall} (hc : s.calls[i]? = some c)
    (found : Found) (hcond : Undisturbed s (.advance i found)) :
    ConsensusInv { s with
      db := (c.next up s.db found).1
      calls := s.calls.set i { c with phase := (c.next up s.db found).2 } } := by
  have hmem : c ∈ s.calls := List.mem_of_getElem? hc
  have hsound := h.calls c hmem
  have hset : ∀ {db : ConsensusDb} {phase : CollapsePhase}, ConsensusInv { s with db := db } →
      CollapseCall.Sound db { c with phase := phase } →
      ConsensusInv { s with db := db, calls := s.calls.set i { c with phase := phase } } := by
    intro db phase hdb hnext
    refine ⟨hdb.tidy, hdb.recognised, hdb.disagreements, hdb.actions, hdb.decisions, ?_⟩
    intro c' hc'
    rcases List.mem_or_eq_of_mem_set hc' with hc' | rfl
    · exact hdb.calls c' hc'
    · exact hnext
  obtain ⟨phase, hnext, hphase⟩ | ⟨g, members, hphase, hzero, hnext⟩ |
    ⟨g, reviewOf, all, summary, hphase, hzero, hnext⟩ := @next_cases up _ _ hsound found
  · rw [hnext]
    exact hset h hphase
  · have hwritten : c.phase.Recognises := hcond c hc
    rw [hphase] at hwritten
    rw [hnext]
    exact hset (h.addDisagreement (hsound.group g (hphase ▸ rfl)) hzero hwritten found)
      (.idle rfl rfl)
  · rw [hnext]
    exact hset (h.addDecision hzero reviewOf all summary found) (.idle rfl rfl)

theorem step (h : ConsensusInv s) {e : ConsensusEvent} (hstep : ConsensusSteps up s e t) :
    ConsensusInv t := by
  obtain ⟨hstep, hcond⟩ := hstep
  obtain ⟨htidy, hkeeps, hcalls⟩ | ⟨i, found, c, rfl, hc, rfl⟩ := step_cases h.tidy hstep
  · refine ⟨htidy, fun g => ?_, fun g => ?_, fun g => ?_, fun g => ?_, fun c hc => ?_⟩
    · rw [hkeeps.disagreements]
      exact h.recognised g
    · rw [hkeeps.disagreements]
      exact h.disagreements g
    · rw [hkeeps.decisions]
      exact h.actions g
    · rw [hkeeps.decisions]
      exact h.decisions g
    · obtain hold | hidle | hidle := hcalls c hc
      · exact ⟨fun g hg => hkeeps.groups g c.taskId ((h.calls c hold).group g hg),
          h.terminal hstep hcond c hold⟩
      · exact .idle (by rw [hidle]; rfl) (by rw [hidle]; rfl)
      · exact .idle (by rw [hidle]; rfl) (by rw [hidle]; rfl)
  · exact h.advance hc found hcond

/-- A row of a group is written while all its members are terminal. -/
theorem terminal_of_written (h : ConsensusInv s) {e : ConsensusEvent}
    (hstep : consensusStep up s e = some t) {g : String}
    (hmore : t.db.disagreements g ≠ s.db.disagreements g ∨
      t.db.decisions g ≠ s.db.decisions g) : s.db.AllTerminal g := by
  obtain ⟨-, hkeeps, -⟩ | ⟨i, found, c, rfl, hc, rfl⟩ := step_cases h.tidy hstep
  · rw [hkeeps.disagreements, hkeeps.decisions] at hmore
    rcases hmore with hmore | hmore <;> exact absurd rfl hmore
  · have hsound := h.calls c (List.mem_of_getElem? hc)
    obtain ⟨phase, hnext, -⟩ | ⟨g', members, hphase, -, hnext⟩ |
      ⟨g', reviewOf, all, summary, hphase, -, hnext⟩ := @next_cases up _ _ hsound found
    · rw [hnext] at hmore
      rcases hmore with hmore | hmore <;> exact absurd rfl hmore
    · rw [hnext, ConsensusDb.disagreements_append] at hmore
      rcases hmore with hmore | hmore
      · by_cases hin : s.db.inGroup g c.taskId = true
        · have hgroup := hsound.group g' (hphase ▸ rfl)
          obtain rfl := ConsensusDb.inGroup_unique h.tidy.ids hin hgroup
          exact hsound.checked g (hphase ▸ rfl)
        · refine absurd ?_ hmore
          rw [if_neg, List.append_nil]
          exact fun hboth => hin (Bool.and_eq_true_iff.mp hboth).2
      · exact absurd rfl hmore
    · rw [hnext, ConsensusDb.decisions_append] at hmore
      rcases hmore with hmore | hmore
      · exact absurd rfl hmore
      · by_cases hsame : g' = g
        · exact hsame ▸ hsound.checked g' (hphase ▸ rfl)
        · refine absurd ?_ hmore
          rw [if_neg, List.append_nil]
          intro hboth
          exact hsame (Option.some.inj (beq_iff_eq.mp (Bool.and_eq_true_iff.mp hboth).2))

end ConsensusInv

theorem ConsensusInv.run {events : List ConsensusEvent} {s : ConsensusState}
    (h : Runs (ConsensusSteps up) {} events s) : ConsensusInv s :=
  h.invariant ConsensusInv (fun hs hstep => hs.step hstep) consensusInv_init

theorem consensus_collapse_once {events : List ConsensusEvent} {s : ConsensusState}
    (h : Runs (ConsensusSteps up) {} events s) (group : String) :
    (s.db.disagreements group).length ≤ 1 ∧ (s.db.decisions group).length ≤ 1 ∧
      ∀ e t, consensusStep up s e = some t →
        t.db.disagreements group ≠ s.db.disagreements group ∨
          t.db.decisions group ≠ s.db.decisions group → s.db.AllTerminal group := by
  have hinv := ConsensusInv.run h
  exact ⟨hinv.disagreements group, hinv.decisions group,
    fun _ _ hstep hmore => hinv.terminal_of_written hstep hmore⟩

/-! ## Two runs -/

def memberOf (group id : String) : MemberTask := { id := id, consensusGroupId := some group }

/-- A member from its creation to its success. -/
def solved (group id : String) : List ConsensusEvent :=
  [.createTask (memberOf group id), .moveTask id .assign, .moveTask id .start,
    .moveTask id .succeed]

/-- Both members have a patch, and the patches differ. -/
def twoPatches : Found where
  patchSha := fun id => if id = "t1" then some "s1" else some "s2"
  id := "a1"
  now := "2026-01-01T00:00:00Z"
  expires := "2026-01-02T00:00:00Z"

/-- A delivery of a success whose call runs to its end. -/
def collapsed (i : Nat) (id : String) : List ConsensusEvent :=
  .completed id :: List.replicate 4 (.advance i twoPatches)

/-- Two deliveries, one for each member. -/
def bothDelivered (group : String) : List ConsensusEvent :=
  solved group "t1" ++ solved group "t2" ++ collapsed 0 "t1" ++ collapsed 1 "t2"

/-- A third member, that had failed, is retried between the check and the write. -/
def retriedMeanwhile (group : String) : List ConsensusEvent :=
  solved group "t1" ++ solved group "t2" ++
    [ConsensusEvent.createTask (memberOf group "t3"), .moveTask "t3" .nodeLost, .completed "t2",
      .advance 0 twoPatches, .advance 0 twoPatches, .moveTask "t3" .retry,
      .advance 0 twoPatches, .advance 0 twoPatches]

def asciiUpper (s : String) : List Char := s.toList.map Char.toUpper

/-- The run of some events from the start. -/
def eventually (events : List ConsensusEvent) : Option ConsensusState :=
  events.foldlM (consensusStep asciiUpper) {}

theorem quoted_group_decided_twice :
    ∃ s t, Runs (fun s e t => consensusStep asciiUpper s e = some t) {}
        (bothDelivered "a\"b") s ∧
      (s.db.disagreements "a\"b").length = 2 ∧
      Runs (fun s e t => consensusStep asciiUpper s e = some t) {} (retriedMeanwhile "ab") t ∧
      (t.db.disagreements "ab").length = 1 ∧ ¬ t.db.AllTerminal "ab" := by
  obtain ⟨s, hs, htwice⟩ : ∃ s, eventually (bothDelivered "a\"b") = some s ∧
      (s.db.disagreements "a\"b").length = 2 := by
    refine Option.map_eq_some_iff.mp (?_ : (eventually (bothDelivered "a\"b")).map
      (fun s => (s.db.disagreements "a\"b").length) = some 2)
    decide +kernel
  obtain ⟨t, ht, hearly⟩ : ∃ t, eventually (retriedMeanwhile "ab") = some t ∧
      ((t.db.disagreements "ab").length,
        t.db.tasks.map fun t => (t.consensusGroupId, t.status.isTerminal)) =
        (1, [(some "ab", true), (some "ab", true), (some "ab", false)]) := by
    refine Option.map_eq_some_iff.mp (?_ : (eventually (retriedMeanwhile "ab")).map
      (fun t => ((t.db.disagreements "ab").length,
        t.db.tasks.map fun t => (t.consensusGroupId, t.status.isTerminal))) = _)
    decide +kernel
  obtain ⟨hone, hstatus⟩ := Prod.mk.inj hearly
  refine ⟨s, t, .of_foldlM hs, htwice, .of_foldlM ht, hone, ?_⟩
  intro hall
  have hmem : (some "ab", false) ∈
      t.db.tasks.map fun t => (t.consensusGroupId, t.status.isTerminal) := by
    rw [hstatus]
    decide
  obtain ⟨task, htask, hpair⟩ := List.mem_map.mp hmem
  obtain ⟨hgroup, hfalse⟩ := Prod.mk.inj hpair
  rw [hall task htask hgroup] at hfalse
  cases hfalse

theorem consensus_collapse_once_ab :
    ∃ s, Runs (ConsensusSteps asciiUpper) {} (bothDelivered "ab") s ∧
      (s.db.disagreements "ab").length = 1 ∧ (s.db.disagreements "ab").length ≤ 1 := by
  obtain ⟨s, hs, hone⟩ : ∃ s, (bothDelivered "ab").foldlM (fun s e =>
      if decide (Undisturbed s e) then consensusStep asciiUpper s e else none) {} = some s ∧
      (s.db.disagreements "ab").length = 1 := by
    refine Option.map_eq_some_iff.mp (?_ : Option.map (fun s : ConsensusState =>
      (s.db.disagreements "ab").length) _ = some 1)
    decide +kernel
  have hrun : Runs (ConsensusSteps asciiUpper) {} (bothDelivered "ab") s :=
    (Runs.foldlM hs).mono fun hstep => ⟨hstep.1, of_decide_eq_true hstep.2⟩
  exact ⟨s, hrun, hone, (consensus_collapse_once hrun "ab").1⟩

end AgentGrid.Store.Consensus
