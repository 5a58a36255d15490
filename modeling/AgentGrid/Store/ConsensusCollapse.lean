import AgentGrid.Store.Consensus

/-!
# One collapse call

A call moves on or writes one row of its group, and the row stands in the way of
another one when the count recognises it.  The other events keep the rows that the
calls have written.
-/

namespace AgentGrid.Store.Consensus

open AgentGrid.Foundation AgentGrid.Node

/-! ## What the calls have written -/

def Approval.ofCollapse (a : Approval) : Bool :=
  a.attemptId.isNone && a.scope == disagreementScope

namespace ConsensusDb

/-- The permissions of the disagreement approvals of a group. -/
def disagreements (db : ConsensusDb) (group : String) : List (List Char) :=
  db.approvals.filterMap fun a =>
    if a.ofCollapse && db.inGroup group a.taskId then some a.permission else none

def decisions (db : ConsensusDb) (group : String) : List AuditEvent :=
  db.auditEvents.filter fun e => e.actorType == "consensus_group" && e.actorId == some group

def AllTerminal (db : ConsensusDb) (group : String) : Prop :=
  ∀ t ∈ db.tasks, t.consensusGroupId = some group → t.status.isTerminal = true

theorem inGroup_iff {db : ConsensusDb} {group taskId : String} :
    db.inGroup group taskId = true ↔
      ∃ t ∈ db.tasks, t.id = taskId ∧ t.consensusGroupId = some group := by
  simp [inGroup]

theorem mem_groupRows {db : ConsensusDb} {group : String} {t : MemberTask} :
    t ∈ db.groupRows group ↔ t ∈ db.tasks ∧ t.consensusGroupId = some group := by
  simp [groupRows, (List.perm_insertionSort _ _).mem_iff]

/-- A task is in one group. -/
theorem inGroup_unique {db : ConsensusDb} (hids : (db.tasks.map MemberTask.id).Nodup)
    {group group' taskId : String} (h : db.inGroup group taskId = true)
    (h' : db.inGroup group' taskId = true) : group = group' := by
  obtain ⟨t, ht, hid, hgroup⟩ := inGroup_iff.mp h
  obtain ⟨t', ht', hid', hgroup'⟩ := inGroup_iff.mp h'
  obtain rfl : t = t' := row_unique hids ht ht' (hid.trans hid'.symm)
  exact Option.some.inj (hgroup.symm.trans hgroup')

theorem mem_disagreements {db : ConsensusDb} {group : String} {text : List Char} :
    text ∈ db.disagreements group ↔
      ∃ a ∈ db.approvals, a.ofCollapse = true ∧ db.inGroup group a.taskId = true ∧
        a.permission = text := by
  rw [disagreements, List.mem_filterMap]
  refine exists_congr fun a => and_congr_right fun _ => ?_
  rw [Option.ite_none_right_eq_some, Option.some.injEq, Bool.and_eq_true, and_assoc]

theorem disagreements_append (db : ConsensusDb) (a : Approval) (g : String) :
    disagreements { db with approvals := db.approvals ++ [a] } g =
      db.disagreements g ++
        if (a.ofCollapse && db.inGroup g a.taskId) = true then [a.permission] else [] := by
  rw [disagreements, List.filterMap_append]
  congr 1
  by_cases h : (a.ofCollapse && db.inGroup g a.taskId) = true
  · rw [if_pos h]
    exact List.filterMap_cons_some (if_pos h)
  · rw [if_neg h]
    exact List.filterMap_cons_none (if_neg h)

theorem decisions_append (db : ConsensusDb) (e : AuditEvent) (g : String) :
    decisions { db with auditEvents := db.auditEvents ++ [e] } g =
      db.decisions g ++
        if (e.actorType == "consensus_group" && e.actorId == some g) = true then [e] else [] := by
  rw [decisions, List.filter_append]
  congr 1
  by_cases h : (e.actorType == "consensus_group" && e.actorId == some g) = true
  · rw [if_pos h]
    exact List.filter_cons_of_pos h
  · rw [if_neg h]
    exact List.filter_cons_of_neg h

end ConsensusDb

/-- The count takes the text for one of the group. -/
def Recognised (group : String) (text : List Char) : Prop :=
  like (ConsensusDb.groupPattern group) text ≠ some false

instance (group : String) (text : List Char) : Decidable (Recognised group text) :=
  inferInstanceAs (Decidable (_ ≠ _))

theorem existing_of_disagreement {db : ConsensusDb} {group : String} {text : List Char}
    (h : text ∈ db.disagreements group) (hrec : Recognised group text) :
    db.existingDisagreements group ≠ some 0 := by
  obtain ⟨a, ha, -, hgroup, rfl⟩ := ConsensusDb.mem_disagreements.mp h
  have hrow : a ∈ db.approvals.filter fun a => db.inGroup group a.taskId :=
    List.mem_filter.mpr ⟨ha, hgroup⟩
  rw [ConsensusDb.existingDisagreements]
  split
  · nofun
  · rename_i hread
    intro hzero
    have hnone := (List.countP_eq_zero.mp (Option.some.inj hzero)) a hrow
    rw [Bool.not_eq_true, List.any_eq_false] at hread
    have hsome := hread a hrow
    unfold Recognised at hrec
    cases hlike : like (ConsensusDb.groupPattern group) a.permission with
    | none => simp [hlike] at hsome
    | some b =>
        cases b with
        | false => exact hrec hlike
        | true => simp [hlike] at hnone

theorem existing_of_decision {db : ConsensusDb} {group : String} {e : AuditEvent}
    (h : e ∈ db.decisions group)
    (haction : e.action = "review_consensus.approved" ∨
      e.action = "review_consensus.disagreement") : db.existingDecisions group ≠ 0 := by
  obtain ⟨he, hmatch⟩ := List.mem_filter.mp h
  rw [Bool.and_eq_true, beq_iff_eq, beq_iff_eq] at hmatch
  rw [ConsensusDb.existingDecisions, ne_eq, List.countP_eq_zero]
  intro hnone
  have hlike : like "review_consensus.%".toList e.action.toList = some true := by
    rcases haction with haction | haction <;> rw [haction] <;> decide +kernel
  exact hnone e he (by rw [hmatch.2, hlike, beq_self_eq_true, beq_self_eq_true, Bool.and_self])

/-! ## Groups whose texts are recognised -/

theorem cText_append {s rest : List Char} (h : ∀ c ∈ s, c ≠ Char.ofNat 0) :
    cText (s ++ rest) = s ++ cText rest :=
  List.takeWhile_append_of_pos fun c hc => bne_iff_ne.mpr (h c hc)

theorem sameLetter_of_wildcard {c d : Char} (h : wildcard c = .lit d) :
    sameLetter d c = true := by
  unfold wildcard at h
  split at h
  · cases h
  · split at h
    · cases h
    · rw [← Glob.lit.inj h]
      exact beq_self_eq_true _

theorem flatMap_escapeChar {s : List Char} (h : ∀ c ∈ s, escapeChar c = [c]) :
    s.flatMap escapeChar = s := by
  rw [List.flatMap_congr h, List.flatMap_singleton']

/-- The text up to the group's id. -/
def permissionHead : List Char :=
  '\x7b' :: (quoted "kind".toList ++ ':' :: (quoted "consensus_disagreement".toList ++
    ',' :: (quoted "group".toList ++ [':', '"'])))

theorem disagreementPermission_eq {group : String} (h : ∀ c ∈ group.toList, escapeChar c = [c])
    (members : List String) : ∃ rest,
      disagreementPermission group members = permissionHead ++ (group.toList ++ rest) := by
  refine ⟨'"' :: ',' :: (quoted "members".toList ++
    ':' :: (Json.array (members.map .string)).text ++ ['\x7d']), ?_⟩
  have hgroup : quoted group.toList = '"' :: (group.toList ++ ['"']) := by
    rw [quoted, flatMap_escapeChar h]
  simp only [disagreementPermission, Json.text_object, Json.text_string, fieldsText_cons,
    fieldsText_singleton, hgroup,
    permissionHead, List.append_assoc, List.cons_append, List.nil_append]

/-- An id without characters that JSON escapes is found again. -/
theorem recognised_of_plain {group : String} (h : ∀ c ∈ group.toList, escapeChar c = [c])
    (members : List String) : Recognised group (disagreementPermission group members) := by
  obtain ⟨rest, htext⟩ := disagreementPermission_eq h members
  have hzero : ∀ c ∈ group.toList, c ≠ Char.ofNat 0 := by
    rintro c hc rfl
    exact absurd (h _ hc) (by decide)
  have hhead : ∀ c ∈ permissionHead, c ≠ Char.ofNat 0 := by
    have hall : (permissionHead.all (· != Char.ofNat 0)) = true := by decide +kernel
    exact fun c hc => bne_iff_ne.mp (List.all_eq_true.mp hall c hc)
  have hpercent : ∀ c ∈ ['%'], c ≠ Char.ofNat 0 := by
    intro c hc
    rw [List.mem_singleton.mp hc]
    decide
  unfold Recognised like
  split
  · nofun
  · have hpattern : (cText (ConsensusDb.groupPattern group)).map wildcard =
        .rest :: (group.toList.map wildcard ++ [.rest]) := by
      rw [ConsensusDb.groupPattern, ← List.singleton_append, cText_append hpercent,
        cText_append hzero, List.map_append, List.map_append]
      rfl
    have htail : cText (disagreementPermission group members) =
        permissionHead ++ (group.toList ++ cText rest) := by
      rw [htext, cText_append hhead, cText_append hzero]
    rw [hpattern, htail, Glob.accepts_infix fun c d => sameLetter_of_wildcard]
    nofun

/-! ## One call -/

def CollapsePhase.group : CollapsePhase → Option String
  | .called | .finished => none
  | .grouped group | .weighing group _ | .reviewing group _ _ | .disagreed group _
  | .decided group _ _ _ => some group

/-- The group of a call that is past its check of the members. -/
def CollapsePhase.checked : CollapsePhase → Option String
  | .called | .grouped _ | .finished => none
  | .weighing group _ | .reviewing group _ _ | .disagreed group _ | .decided group _ _ _ =>
      some group

structure CollapseCall.Sound (db : ConsensusDb) (c : CollapseCall) : Prop where
  group : ∀ g, c.phase.group = some g → db.inGroup g c.taskId = true
  checked : ∀ g, c.phase.checked = some g → db.AllTerminal g

theorem CollapseCall.Sound.idle {db : ConsensusDb} {c : CollapseCall}
    (h : c.phase.group = none) (h' : c.phase.checked = none) : c.Sound db where
  group g hg := by rw [h] at hg; cases hg
  checked g hg := by rw [h'] at hg; cases hg

theorem startCollapse_group {db : ConsensusDb} {taskId group : String}
    (h : (startCollapse db taskId).group = some group) : db.inGroup group taskId = true := by
  unfold startCollapse at h
  split at h
  · cases h
  · rename_i g hlookup
    obtain rfl : g = group := by simpa [CollapsePhase.group] using h
    obtain ⟨t, ht, hgroup⟩ := Option.bind_eq_some_iff.mp hlookup
    obtain ⟨hmem, hid⟩ := lookup_mem ht
    exact ConsensusDb.inGroup_iff.mpr ⟨t, hmem, hid, hgroup⟩

theorem startCollapse_checked (db : ConsensusDb) (taskId : String) :
    (startCollapse db taskId).checked = none := by
  unfold startCollapse
  split <;> rfl

/-- The check lets a call pass when every member is terminal. -/
theorem checkMembers_cases (db : ConsensusDb) (group : String) :
    checkMembers db group = .finished ∨
      db.AllTerminal group ∧ (checkMembers db group).group = some group ∧
        (checkMembers db group).checked = some group := by
  cases hrows : db.groupRows group with
  | nil => exact .inl (by rw [checkMembers, hrows])
  | cons row rows =>
      by_cases hany : ((row :: rows).any fun t => !t.status.isTerminal) = true
      · exact .inl (by rw [checkMembers, hrows]; exact if_pos hany)
      · have hall : db.AllTerminal group := by
          intro t ht hgroup
          rw [Bool.not_eq_true, List.any_eq_false] at hany
          have hrow := hany t (hrows ▸ ConsensusDb.mem_groupRows.mpr ⟨ht, hgroup⟩)
          simpa using hrow
        rw [checkMembers, hrows]
        simp only [hany, Bool.false_eq_true, if_false]
        split
        · split
          · exact .inl rfl
          · exact .inr ⟨hall, rfl, rfl⟩
        · exact .inr ⟨hall, rfl, rfl⟩

theorem weighPatches_cases (group : String) (rows : List MemberTask) (found : Found) :
    weighPatches group rows found = .finished ∨
      ∃ members, weighPatches group rows found = .disagreed group members := by
  unfold weighPatches
  split
  · split
    · exact .inr ⟨_, rfl⟩
    · exact .inl rfl
  · exact .inl rfl

variable {up : String → List Char}

theorem weighVerdicts_cases (group : String) (rows : List MemberTask) (reviewOf : String)
    (found : Found) :
    weighVerdicts up group rows reviewOf found = .finished ∨
      ∃ all summary, weighVerdicts up group rows reviewOf found =
        .decided group reviewOf all summary := by
  unfold weighVerdicts
  dsimp only
  split
  · exact .inl rfl
  · exact .inr ⟨_, _, rfl⟩

/-- What one await of a call does: it moves on, or it writes one row of its group. -/
theorem next_cases {db : ConsensusDb} {c : CollapseCall} (hc : c.Sound db) (found : Found) :
    (∃ phase, c.next up db found = (db, phase) ∧
      CollapseCall.Sound db { c with phase := phase }) ∨
    (∃ g members, c.phase = .disagreed g members ∧ db.existingDisagreements g = some 0 ∧
      c.next up db found = ({ db with
        approvals := db.approvals ++ [disagreementApproval c.taskId g members found] },
        .finished)) ∨
    ∃ g reviewOf all summary, c.phase = .decided g reviewOf all summary ∧
      db.existingDecisions g = 0 ∧
      c.next up db found = ({ db with
        auditEvents := db.auditEvents ++ [decisionEvent g reviewOf all summary found] },
        .finished) := by
  have hidle : CollapseCall.Sound db { c with phase := .finished } := .idle rfl rfl
  obtain ⟨taskId, phase⟩ := c
  obtain ⟨hgroup, hchecked⟩ := hc
  cases phase with
  | called =>
      refine .inl ⟨_, rfl, fun g hg => startCollapse_group hg, ?_⟩
      intro g hg
      rw [startCollapse_checked] at hg
      cases hg
  | grouped g =>
      refine .inl ⟨_, rfl, ?_⟩
      obtain hfinished | ⟨hall, hg, hpast⟩ := checkMembers_cases db g
      · rw [hfinished]
        exact hidle
      · refine ⟨fun g' hg' => ?_, fun g' hg' => ?_⟩
        · obtain rfl := Option.some.inj (hg.symm.trans hg')
          exact hgroup g rfl
        · obtain rfl := Option.some.inj (hpast.symm.trans hg')
          exact hall
  | weighing g rows =>
      refine .inl ⟨_, rfl, ?_⟩
      obtain hfinished | ⟨members, hnext⟩ := weighPatches_cases g rows found
      · rw [hfinished]
        exact hidle
      · rw [hnext]
        exact ⟨hgroup, hchecked⟩
  | reviewing g rows reviewOf =>
      refine .inl ⟨_, rfl, ?_⟩
      obtain hfinished | ⟨all, summary, hnext⟩ := weighVerdicts_cases g rows reviewOf found
      · rw [hfinished]
        exact hidle
      · rw [hnext]
        exact ⟨hgroup, hchecked⟩
  | disagreed g members =>
      by_cases hzero : db.existingDisagreements g = some 0
      · refine .inr (.inl ⟨g, members, rfl, hzero, ?_⟩)
        simp only [CollapseCall.next, recordDisagreement, if_pos hzero]
      · refine .inl ⟨.finished, ?_, hidle⟩
        simp only [CollapseCall.next, recordDisagreement, if_neg hzero]
  | decided g reviewOf all summary =>
      by_cases hzero : db.existingDecisions g = 0
      · refine .inr (.inr ⟨g, reviewOf, all, summary, rfl, hzero, ?_⟩)
        simp only [CollapseCall.next, recordDecision, if_pos hzero]
      · refine .inl ⟨.finished, ?_, hidle⟩
        simp only [CollapseCall.next, recordDecision, if_neg hzero]
  | finished => exact .inl ⟨_, rfl, hidle⟩

/-! ## What the other events keep -/

/-- The rows the collapses have written are those of before. -/
structure Keeps (db db' : ConsensusDb) : Prop where
  disagreements : ∀ g, db'.disagreements g = db.disagreements g
  decisions : ∀ g, db'.decisions g = db.decisions g
  groups : ∀ g id, db.inGroup g id = true → db'.inGroup g id = true

theorem Keeps.refl (db : ConsensusDb) : Keeps db db :=
  ⟨fun _ => rfl, fun _ => rfl, fun _ _ => id⟩

/-- Task ids are unique, and the approvals of collapses are of tasks there are. -/
structure Tidy (db : ConsensusDb) : Prop where
  ids : (db.tasks.map MemberTask.id).Nodup
  known : ∀ a ∈ db.approvals, a.ofCollapse = true → a.taskId ∈ db.tasks.map MemberTask.id

theorem Tidy.createTask {db : ConsensusDb} (h : Tidy db) {t : MemberTask}
    (hfresh : t.id ∉ db.tasks.map MemberTask.id) :
    Tidy { db with tasks := db.tasks ++ [t] } ∧
      Keeps db { db with tasks := db.tasks ++ [t] } := by
  have hids : (db.tasks ++ [t]).map MemberTask.id = db.tasks.map MemberTask.id ++ [t.id] := by
    rw [List.map_append]
    rfl
  have hgroup : ∀ g id, ConsensusDb.inGroup { db with tasks := db.tasks ++ [t] } g id =
      (db.inGroup g id || (t.id == id && t.consensusGroupId == some g)) := by
    intro g id
    simp [ConsensusDb.inGroup]
  refine ⟨⟨?_, ?_⟩, ⟨?_, fun _ => rfl, ?_⟩⟩
  · rw [hids]
    exact h.ids.append (List.nodup_singleton _) (List.disjoint_singleton.mpr hfresh)
  · intro a ha hown
    rw [hids]
    exact List.mem_append_left _ (h.known a ha hown)
  · intro g
    refine List.filterMap_congr fun a ha => ?_
    by_cases hown : a.ofCollapse = true
    · have hother : (t.id == a.taskId) = false := by
        rw [beq_eq_false_iff_ne]
        rintro hsame
        exact hfresh (hsame ▸ h.known a ha hown)
      rw [hgroup, hother, Bool.false_and, Bool.or_false]
    · rw [Bool.not_eq_true] at hown
      rw [hown, Bool.false_and, Bool.false_and]
  · intro g id hin
    rw [hgroup, hin, Bool.true_or]

theorem moveTask_spec {db db' : ConsensusDb} {id : String} {transition : TaskTransition}
    (h : db.moveTask id transition = some db') :
    ∃ t status, lookup MemberTask.id id db.tasks = some t ∧
      nextTaskStatus t.status transition = .ok status ∧
      db' = { db with
        tasks := updateWhere (·.id == id) (fun t => { t with status := status }) db.tasks } := by
  unfold ConsensusDb.moveTask at h
  split at h
  · cases h
  · rename_i t ht
    split at h
    · cases h
    · rename_i status hstatus
      exact ⟨t, status, ht, hstatus, (Option.some.inj h).symm⟩

theorem Tidy.setStatus {db : ConsensusDb} (h : Tidy db) (id : String) (status : TaskStatus) :
    Tidy { db with
      tasks := updateWhere (·.id == id) (fun t => { t with status := status }) db.tasks } ∧
    Keeps db { db with
      tasks := updateWhere (·.id == id) (fun t => { t with status := status }) db.tasks } := by
  have hgroup : ∀ g taskId, ConsensusDb.inGroup { db with
      tasks := updateWhere (·.id == id) (fun t => { t with status := status }) db.tasks }
      g taskId = db.inGroup g taskId := by
    intro g taskId
    rw [ConsensusDb.inGroup, ConsensusDb.inGroup, updateWhere, List.any_map]
    congr 1
    funext t
    rw [Function.comp_apply]
    split <;> rfl
  have hids : (updateWhere (·.id == id) (fun t => { t with status := status }) db.tasks).map
      MemberTask.id = db.tasks.map MemberTask.id := by
    have hid : ∀ t : MemberTask, ({ t with status := status } : MemberTask).id = t.id :=
      fun _ => rfl
    exact map_updateWhere_of_key hid db.tasks
  refine ⟨⟨?_, ?_⟩, ⟨?_, fun _ => rfl, fun g taskId hin => (hgroup g taskId).trans hin⟩⟩
  · exact hids.symm ▸ h.ids
  · intro a ha hown
    exact hids.symm ▸ h.known a ha hown
  · intro g
    simp only [ConsensusDb.disagreements, hgroup]

theorem Tidy.openApproval {db : ConsensusDb} (h : Tidy db) {a : Approval}
    (ha : a.attemptId.isSome = true) :
    Tidy { db with approvals := db.approvals ++ [a] } ∧
      Keeps db { db with approvals := db.approvals ++ [a] } := by
  have hforeign : a.ofCollapse = false := by
    obtain ⟨attempt, hattempt⟩ := Option.isSome_iff_exists.mp ha
    rw [Approval.ofCollapse, hattempt]
    rfl
  refine ⟨⟨h.ids, ?_⟩, ⟨?_, fun _ => rfl, fun _ _ => id⟩⟩
  · intro b hb hown
    rcases List.mem_append.mp hb with hb | hb
    · exact h.known b hb hown
    · rw [List.mem_singleton.mp hb, hforeign] at hown
      cases hown
  · intro g
    rw [ConsensusDb.disagreements_append, hforeign, Bool.false_and, if_neg Bool.false_ne_true,
      List.append_nil]

theorem Tidy.answer {db : ConsensusDb} (h : Tidy db) (id status : String) :
    Tidy { db with
      approvals := updateWhere (·.id == id) (fun a => { a with status := status })
        db.approvals } ∧
    Keeps db { db with
      approvals := updateWhere (·.id == id) (fun a => { a with status := status })
        db.approvals } := by
  refine ⟨⟨h.ids, ?_⟩, ⟨?_, fun _ => rfl, fun _ _ hin => hin⟩⟩
  · intro a ha hown
    obtain ⟨b, hb, rfl⟩ := mem_updateWhere.mp ha
    split at hown
    · rw [if_pos ‹_›]
      exact h.known b hb hown
    · rw [if_neg ‹_›]
      exact h.known b hb hown
  · intro g
    rw [ConsensusDb.disagreements, ConsensusDb.disagreements, updateWhere, List.filterMap_map]
    refine List.filterMap_congr fun a _ => ?_
    rw [Function.comp_apply]
    split <;> rfl

theorem Keeps.audit (db : ConsensusDb) {e : AuditEvent} (he : e.actorType ≠ "consensus_group") :
    Keeps db { db with auditEvents := db.auditEvents ++ [e] } := by
  refine ⟨fun _ => rfl, fun g => ?_, fun _ _ => id⟩
  have hother : (e.actorType == "consensus_group") = false := beq_eq_false_iff_ne.mpr he
  rw [ConsensusDb.decisions_append, hother, Bool.false_and, if_neg Bool.false_ne_true,
    List.append_nil]

end AgentGrid.Store.Consensus
