import AgentGrid.Node.CompletionOutbox

/-!
# Redelivered completions

A pending record is sent again as the request it was made from.  Whatever the file
held before, no later call on other attempts changes the record.
-/

namespace AgentGrid.Node

open AgentGrid.Store

/-- `CompletionLine::to_request`. -/
def CompletionLine.toRequest (c : CompletionLine) : CompleteAttemptRequest where
  exitCode := c.exitCode
  commitSha := c.commitSha
  errorCode := c.errorCode
  resolvedBaseSha := c.resolvedBaseSha
  remoteHeadAtStart := c.remoteHeadAtStart
  remoteHeadAtFinish := c.remoteHeadAtFinish
  acpSessionId := c.acpSessionId
  plan := c.plan
  provenance := c.provenance
  pendingArtifacts := c.pendingArtifacts
  validationRounds := c.validationRounds

@[simp] theorem toRequest_completionLine (id : AttemptId) (req : CompleteAttemptRequest)
    (token : String) : (completionLine id req token).toRequest = req := rfl

/-- The record holds nothing beside the request, its attempt and the token. -/
@[simp] theorem completionLine_toRequest (c : CompletionLine) :
    completionLine c.attemptId c.toRequest c.fencingToken = c := rfl

/-- Neither a record nor an acknowledgement of the attempt. -/
def OutboxOp.Spares (id : AttemptId) : OutboxOp → Prop
  | .record other _ _ _ => other ≠ id
  | .ack other _ => other ≠ id
  | _ => True

/-! ## What is pending for an attempt -/

def Line.pendingFor (dropped : List AttemptId) (id : AttemptId) (l : Line) :
    Option CompletionLine :=
  if !l.blank && l.drop.isNone then
    l.completion.filter fun c => !dropped.contains c.attemptId && c.attemptId == id
  else none

theorem pendingOf_lines (o : Outbox) (id : AttemptId) :
    pendingOf o id = o.content.filterMap (Line.pendingFor (droppedAttempts o.content) id) := by
  cases hfile : o.file with
  | none => simp [pendingOf, pending, Outbox.content, hfile]
  | some content =>
      have hcontent : o.content = content := by simp [Outbox.content, hfile]
      have hout : (pending o).2 = ((content.filter fun l => !l.blank && l.drop.isNone).filterMap
          Line.completion).filter fun c => !(droppedAttempts content).contains c.attemptId := by
        simp only [pending, hfile]
        split <;> rfl
      rw [pendingOf, hout, hcontent, List.filter_filter, List.filter_filterMap,
        List.filterMap_filter]
      refine List.filterMap_congr fun l _ => ?_
      rw [Line.pendingFor]
      congr 2
      funext c
      exact Bool.and_comm _ _

theorem Line.records_of_pendingFor {dropped : List AttemptId} {id : AttemptId} {l : Line}
    {c : CompletionLine} (h : l.pendingFor dropped id = some c) :
    l.completion = some c ∧ l.records id = true := by
  rw [pendingFor] at h
  split at h
  · obtain ⟨hc, hkept⟩ := Option.filter_eq_some_iff.mp h
    rw [Bool.and_eq_true] at hkept
    exact ⟨hc, by rw [records, hc, Option.any_some, hkept.2]⟩
  · cases h

/-! ## The record stays -/

/-- No other record of the attempt is in the file. -/
def Only (id : AttemptId) (c : CompletionLine) (content : List Line) : Prop :=
  ∀ l ∈ content, l.records id = true → l.completion = some c

/-- The record is in the file, once, and no marker of the attempt is. -/
structure Kept (id : AttemptId) (bytes : Nat) (c : CompletionLine) (content : List Line) :
    Prop where
  once : content.filter (Line.records id) = [recordLine bytes c]
  unmarked : id ∉ droppedAttempts content

variable {id : AttemptId} {bytes : Nat} {c : CompletionLine} {content : List Line}

theorem Only.filter (h : Only id c content) (p : Line → Bool) : Only id c (content.filter p) :=
  fun l hl => h l (List.mem_of_mem_filter hl)

theorem Only.append (h : Only id c content) {l : Line} (hl : l.records id = false) :
    Only id c (content ++ [l]) := by
  intro l' hl' hrecords
  rcases List.mem_append.mp hl' with hold | hnew
  · exact h l' hold hrecords
  · rw [List.mem_singleton.mp hnew, hl] at hrecords
    cases hrecords

theorem mem_droppedAttempts_of_filter {p : Line → Bool}
    (h : id ∈ droppedAttempts (content.filter p)) : id ∈ droppedAttempts content := by
  obtain ⟨l, hl, hdrop⟩ := List.mem_filterMap.mp h
  exact List.mem_filterMap.mpr ⟨l, List.mem_of_mem_filter hl, hdrop⟩

theorem Kept.filter (h : Kept id bytes c content) {p : Line → Bool}
    (hp : p (recordLine bytes c) = true) : Kept id bytes c (content.filter p) := by
  constructor
  · rw [List.filter_comm, h.once]
    simp [hp]
  · exact fun hmem => h.unmarked (mem_droppedAttempts_of_filter hmem)

theorem Kept.append (h : Kept id bytes c content) {l : Line} (hl : l.records id = false)
    (hdrop : l.drop.join ≠ some id) : Kept id bytes c (content ++ [l]) := by
  constructor
  · rw [List.filter_append, h.once]
    simp [hl]
  · rw [droppedAttempts_append, List.mem_append]
    rintro (hmem | hmem)
    · exact h.unmarked hmem
    · obtain ⟨l', hl', hfound⟩ := List.mem_filterMap.mp hmem
      rw [List.mem_singleton.mp hl'] at hfound
      exact hdrop hfound

theorem recordLine_records (other : AttemptId) (req : CompleteAttemptRequest) (token : String)
    (n : Nat) : (recordLine n (completionLine other req token)).records id = (other == id) := rfl

theorem dropMarker_records (other : AttemptId) : (dropMarker other).records id = false := rfl

theorem content_compact (o : Outbox) : (compact o).content =
    o.content.filter (survives (droppedAttempts o.content)) := by
  cases hfile : o.file with
  | none => simp [compact, Outbox.content, hfile]
  | some content => simp [compact, Outbox.content, hfile]

theorem content_pending (o : Outbox) : (pending o).1.content = o.content ∨
    (pending o).1.content = (o.content.filter fun l => !l.blank && l.drop.isNone).filter
      fun l => l.completion.isSome := by
  cases hfile : o.file with
  | none => exact .inl (by simp [pending, hfile])
  | some content =>
      have hcontent : o.content = content := by simp [Outbox.content, hfile]
      simp only [pending, hfile]
      split
      · exact .inl rfl
      · rw [hcontent]
        exact .inr rfl

theorem Only.step {o : Outbox} (h : Only id c o.content) {op : OutboxOp} (hop : op.Spares id) :
    Only id c (outboxStep o op).content := by
  cases op with
  | record other req token n =>
      have hother : (recordLine n (completionLine other req token)).records id = false := by
        rw [recordLine_records, beq_eq_false_iff_ne]
        exact hop
      exact (h.filter _).append hother
  | ack other threshold =>
      have hmarked := h.append (dropMarker_records other)
      simp only [outboxStep, ack]
      split
      · rw [content_compact]
        exact hmarked.filter _
      · exact hmarked
  | pending =>
      rcases content_pending o with hsame | hfilter
      · rw [outboxStep, hsame]
        exact h
      · rw [outboxStep, hfilter]
        exact (h.filter _).filter _
  | compact =>
      rw [outboxStep, content_compact]
      exact h.filter _
  | reopen => exact h

theorem Kept.survives (hc : c.attemptId = id) (h : Kept id bytes c content) :
    Kept id bytes c (content.filter (survives (droppedAttempts content))) := by
  refine h.filter ?_
  have hunmarked := h.unmarked
  simp [Node.survives, recordLine, hc, hunmarked]

theorem Kept.step {o : Outbox} (hc : c.attemptId = id) (h : Kept id bytes c o.content)
    {op : OutboxOp} (hop : op.Spares id) : Kept id bytes c (outboxStep o op).content := by
  cases op with
  | record other req token n =>
      have hother : (recordLine n (completionLine other req token)).records id = false := by
        rw [recordLine_records, beq_eq_false_iff_ne]
        exact hop
      have hstays : (!(recordLine bytes c).blank && !(recordLine bytes c).records other) = true := by
        have hne : c.attemptId ≠ other := by
          rw [hc]
          exact Ne.symm hop
        simp [recordLine, Line.records, hne]
      exact (h.filter hstays).append hother (by simp [recordLine])
  | ack other threshold =>
      have hne : other ≠ id := hop
      have hdrop : (dropMarker other).drop.join ≠ some id := by
        simpa [dropMarker] using hne
      have hmarked := h.append (dropMarker_records other) hdrop
      simp only [outboxStep, ack]
      split
      · rw [content_compact]
        exact hmarked.survives hc
      · exact hmarked
  | pending =>
      rcases content_pending o with hsame | hfilter
      · rw [outboxStep, hsame]
        exact h
      · rw [outboxStep, hfilter]
        exact (h.filter rfl).filter rfl
  | compact =>
      rw [outboxStep, content_compact]
      exact h.survives hc
  | reopen => exact h

/-! ## Redelivery -/

theorem only_record (o : Outbox) (id : AttemptId) (req : CompleteAttemptRequest) (token : String)
    (bytes : Nat) :
    Only id (completionLine id req token) (record o id req token bytes).content := by
  intro l hl hrecords
  rcases List.mem_append.mp hl with hold | hnew
  · have hkept := (List.mem_filter.mp hold).2
    simp [hrecords] at hkept
  · rw [List.mem_singleton.mp hnew]
    rfl

theorem kept_record {o : Outbox} (hunmarked : id ∉ droppedAttempts o.content)
    (req : CompleteAttemptRequest) (token : String) (bytes : Nat) :
    Kept id bytes (completionLine id req token) (record o id req token bytes).content := by
  constructor
  · have hnone : (o.content.filter fun l => !l.blank && !l.records id).filter
        (Line.records id) = [] := by
      rw [List.filter_eq_nil_iff]
      intro l hl hrecords
      have hkept := (List.mem_filter.mp hl).2
      simp [hrecords] at hkept
    have hself : (recordLine bytes (completionLine id req token)).records id = true := by
      rw [recordLine_records, beq_self_eq_true]
    change ((o.content.filter fun l : Line => !l.blank && !l.records id) ++ [_]).filter _ = _
    rw [List.filter_append, hnone, List.nil_append, List.filter_singleton, hself]
    rfl
  · change id ∉ droppedAttempts ((o.content.filter fun l => !l.blank && !l.records id) ++ [_])
    rw [droppedAttempts_append, List.mem_append]
    rintro (hmem | hmem)
    · exact hunmarked (mem_droppedAttempts_of_filter hmem)
    · simp [droppedAttempts, recordLine] at hmem

theorem Only.pendingOf {o : Outbox} (h : Only id c o.content) {c' : CompletionLine}
    (hc' : c' ∈ pendingOf o id) : c' = c := by
  rw [pendingOf_lines] at hc'
  obtain ⟨l, hl, hpending⟩ := List.mem_filterMap.mp hc'
  obtain ⟨hcompletion, hrecords⟩ := Line.records_of_pendingFor hpending
  rw [h l hl hrecords] at hcompletion
  exact (Option.some_inj.mp hcompletion).symm

theorem Kept.pendingOf {o : Outbox} (hc : c.attemptId = id) (h : Kept id bytes c o.content) :
    pendingOf o id = [c] := by
  have hall : o.content.filterMap (Line.pendingFor (droppedAttempts o.content) id) =
      (o.content.filter (Line.records id)).filterMap
        (Line.pendingFor (droppedAttempts o.content) id) := by
    rw [List.filterMap_filter]
    refine List.filterMap_congr fun l _ => ?_
    split
    · rfl
    · rename_i hrecords
      rw [Option.eq_none_iff_forall_ne_some]
      intro c' hpending
      exact hrecords (Line.records_of_pendingFor hpending).2
  have hunmarked := h.unmarked
  rw [pendingOf_lines, hall, h.once]
  simp [Line.pendingFor, recordLine, Option.filter, hc, hunmarked]

/-- What one call on other attempts preserves holds after all of them. -/
theorem content_run {P : List Line → Prop}
    (hstep : ∀ o op, op.Spares id → P o.content → P (outboxStep o op).content)
    {ops : List OutboxOp} (hops : ∀ op ∈ ops, op.Spares id) {o : Outbox} (h : P o.content) :
    P (ops.foldl outboxStep o).content := by
  induction ops generalizing o with
  | nil => exact h
  | cons op ops ih =>
      exact ih (fun op' hop' => hops op' (List.mem_cons_of_mem _ hop'))
        (hstep o op (hops op List.mem_cons_self) h)

/-- Whatever the file held and whatever is done for other attempts, what is pending
for an attempt is the request that was recorded for it, with its token; and it is
pending unless the file held a drop marker of the attempt. -/
theorem recorded_request_returned (o : Outbox) (id : AttemptId) (req : CompleteAttemptRequest)
    (token : String) (bytes : Nat) {ops : List OutboxOp} (hops : ∀ op ∈ ops, op.Spares id) :
    (∀ c ∈ pendingOf (ops.foldl outboxStep (record o id req token bytes)) id,
      c.toRequest = req ∧ c.fencingToken = token) ∧
    (id ∉ droppedAttempts o.content →
      ∃ c, pendingOf (ops.foldl outboxStep (record o id req token bytes)) id = [c]) := by
  constructor
  · intro c hc
    have honly := content_run (fun _ _ hop h => Only.step h hop) hops
      (only_record o id req token bytes)
    rw [honly.pendingOf hc]
    exact ⟨rfl, rfl⟩
  · intro hunmarked
    have hid : (completionLine id req token).attemptId = id := rfl
    have hkept := content_run (fun _ _ hop h => Kept.step hid h hop) hops
      (kept_record hunmarked req token bytes)
    exact ⟨_, hkept.pendingOf hid⟩

/-- Acknowledging another attempt compacts the file, which is then opened again. -/
theorem recorded_request_returned_compacted :
    ∃ c, pendingOf ([OutboxOp.ack attemptB 0, .pending, .compact, .reopen].foldl outboxStep
      (record {} attemptA { exitCode := 3, validationRounds := 2 } "f1" 40)) attemptA = [c] ∧
        c.toRequest = { exitCode := 3, validationRounds := 2 } ∧ c.fencingToken = "f1" := by
  have hops : ∀ op ∈ [OutboxOp.ack attemptB 0, .pending, .compact, .reopen],
      op.Spares attemptA := by
    have hne : attemptB ≠ attemptA := by decide
    intro op hop
    simp only [List.mem_cons, List.not_mem_nil, or_false] at hop
    rcases hop with rfl | rfl | rfl | rfl
    · exact hne
    · trivial
    · trivial
    · trivial
  obtain ⟨hsame, hone⟩ := recorded_request_returned {} attemptA
    { exitCode := 3, validationRounds := 2 } "f1" 40 hops
  obtain ⟨c, hc⟩ := hone (by decide)
  exact ⟨c, hc, hsame c (by rw [hc]; exact List.mem_singleton_self c)⟩

end AgentGrid.Node
