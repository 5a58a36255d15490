import Mathlib.Logic.Function.Basic
import AgentGrid.Foundation.Transition
import AgentGrid.Store.Attempts

/-!
# The completion outbox of the node daemon

`completions.jsonl` holds one line for each recorded completion and one drop
marker for each acknowledgement.  A line is kept as what the daemon's parser
reads from it: a `drop` field with its text, and the completion record.  An
attempt is pending when it has a record and no marker.

Attempt ids are opaque tokens of the control plane, which a marker quotes
without escaping.
-/

namespace AgentGrid.Node

open AgentGrid.Foundation AgentGrid.Store

def isSafeOpaqueId (id : String) : Bool :=
  !id.isEmpty && decide (id.utf8ByteSize ≤ 64) &&
    id.toList.all fun c => c.isAlphanum || c == '_' || c == '-'

structure AttemptId where
  text : String
  safe : isSafeOpaqueId text = true
deriving DecidableEq

structure CompletionLine where
  attemptId : AttemptId
  exitCode : Int
  commitSha : Option String
  errorCode : Option String
  acpSessionId : Option String
  fencingToken : String
  resolvedBaseSha : Option String
  remoteHeadAtStart : Option String
  remoteHeadAtFinish : Option String
  plan : Option String
  provenance : Option String
  pendingArtifacts : List String
  validationRounds : Nat
deriving DecidableEq

def completionLine (attemptId : AttemptId) (req : CompleteAttemptRequest)
    (fencingToken : String) : CompletionLine where
  attemptId := attemptId
  exitCode := req.exitCode
  commitSha := req.commitSha
  errorCode := req.errorCode
  acpSessionId := req.acpSessionId
  fencingToken := fencingToken
  resolvedBaseSha := req.resolvedBaseSha
  remoteHeadAtStart := req.remoteHeadAtStart
  remoteHeadAtFinish := req.remoteHeadAtFinish
  plan := req.plan
  provenance := req.provenance
  pendingArtifacts := req.pendingArtifacts
  validationRounds := req.validationRounds

/-- A line of the file: its length with the newline, whether it is blank, the
`drop` field of the JSON value it holds (with its text, if it is one), and the
completion record it parses to. -/
structure Line where
  bytes : Nat
  blank : Bool
  drop : Option (Option AttemptId)
  completion : Option CompletionLine
deriving DecidableEq

/-- The file, absent before the first write, and what was moved aside. -/
structure Outbox where
  file : Option (List Line) := none
  quarantine : List Line := []
deriving DecidableEq

namespace Outbox

def content (o : Outbox) : List Line := o.file.getD []

end Outbox

/-- `serde_json::to_string` of a record, `bytes` long. -/
def recordLine (bytes : Nat) (c : CompletionLine) : Line := ⟨bytes, false, none, some c⟩

/-- `{"drop":"<attempt_id>"}` and a newline. -/
def dropMarker (id : AttemptId) : Line :=
  ⟨12 + id.text.utf8ByteSize, false, some (some id), none⟩

def Line.records (id : AttemptId) (l : Line) : Bool :=
  l.completion.any fun c => c.attemptId == id

/-- Every earlier record of the attempt is dropped and the new one appended.
Drop markers are not records and stay. -/
def record (o : Outbox) (id : AttemptId) (req : CompleteAttemptRequest)
    (fencingToken : String) (bytes : Nat) : Outbox :=
  let survivors := o.content.filter fun l => !l.blank && !l.records id
  { o with file := some (survivors ++
      [recordLine bytes (completionLine id req fencingToken)]) }

def droppedAttempts (content : List Line) : List AttemptId :=
  content.filterMap fun l => l.drop.join

/-- Whether compaction keeps the line. -/
def survives (dropped : List AttemptId) (l : Line) : Bool :=
  !l.blank && l.drop.isNone &&
    l.completion.all fun c => !dropped.contains c.attemptId

def compact (o : Outbox) : Outbox :=
  match o.file with
  | none => o
  | some content =>
      { o with file := some (content.filter (survives (droppedAttempts content))) }

def fileBytes (content : List Line) : Nat := (content.map Line.bytes).sum

def ack (o : Outbox) (id : AttemptId) (compactThreshold : Nat) : Outbox :=
  let content := o.content ++ [dropMarker id]
  let o := { o with file := some content }
  if compactThreshold < fileBytes content then compact o else o

/-- The pending records.  A line that is neither a marker nor a record is moved
aside, and the file rewritten to the records alone. -/
def pending (o : Outbox) : Outbox × List CompletionLine :=
  match o.file with
  | none => (o, [])
  | some content =>
      let dropped := droppedAttempts content
      let lines := content.filter fun l => !l.blank && l.drop.isNone
      let out := (lines.filterMap Line.completion).filter
        fun c => !dropped.contains c.attemptId
      let damaged := lines.filter fun l => l.completion.isNone
      if damaged.isEmpty then (o, out)
      else
        ({ file := some (lines.filter fun l => l.completion.isSome),
           quarantine := o.quarantine ++ damaged }, out)

inductive OutboxOp
  | record (id : AttemptId) (req : CompleteAttemptRequest) (fencingToken : String)
      (bytes : Nat)
  | ack (id : AttemptId) (compactThreshold : Nat)
  | pending
  | compact
  | reopen

def outboxStep (o : Outbox) : OutboxOp → Outbox
  | .record id req fencingToken bytes => record o id req fencingToken bytes
  | .ack id compactThreshold => ack o id compactThreshold
  | .pending => (pending o).1
  | .compact => compact o
  | .reopen => o

def OutboxStep (o : Outbox) (op : OutboxOp) (o' : Outbox) : Prop :=
  o' = outboxStep o op

/-! ## The map it stands for -/

abbrev Book := AttemptId → Option CompletionLine

def bookStep (book : Book) : OutboxOp → Book
  | .record id req fencingToken _ =>
      Function.update book id (some (completionLine id req fencingToken))
  | .ack id _ => Function.update book id none
  | .pending => book
  | .compact => book
  | .reopen => book

/-- What the last `record` or `ack` of each attempt left. -/
def bookOf (ops : List OutboxOp) : Book := ops.foldl bookStep fun _ => none

/-- The records of one attempt among the pending ones. -/
def pendingOf (o : Outbox) (id : AttemptId) : List CompletionLine :=
  (pending o).2.filter fun c => c.attemptId == id

/-- A record of the attempt is not made while a drop marker of it is in the
file. -/
def OutboxOp.Unmarked (o : Outbox) : OutboxOp → Prop
  | .record id _ _ _ => id ∉ droppedAttempts o.content
  | _ => True

/-! ## Refinement -/

def Line.recordFor (id : AttemptId) (l : Line) : Option CompletionLine :=
  l.completion.filter fun c => c.attemptId == id

def recordsOf (content : List Line) (id : AttemptId) : List CompletionLine :=
  content.filterMap (Line.recordFor id)

/-- Either a record or a drop marker. -/
def Line.clean (l : Line) : Prop :=
  l.blank = false ∧ ((l.drop = none ∧ l.completion.isSome = true) ∨
    (l.drop.isSome = true ∧ l.completion = none))

structure Represents (o : Outbox) (book : Book) : Prop where
  clean : ∀ l ∈ o.content, l.clean
  entry : ∀ id c, book id = some c →
    recordsOf o.content id = [c] ∧ id ∉ droppedAttempts o.content
  gone : ∀ id, book id = none →
    recordsOf o.content id = [] ∨ id ∈ droppedAttempts o.content

section Lines

variable {content : List Line} {id : AttemptId}

private theorem filterMap_filter_of {α β : Type} {p : α → Bool} {f : α → Option β}
    {rows : List α} (h : ∀ row ∈ rows, p row = false → f row = none) :
    (rows.filter p).filterMap f = rows.filterMap f := by
  induction rows with
  | nil => rfl
  | cons row rows ih =>
      have htail := ih fun r hr => h r (List.mem_cons_of_mem _ hr)
      cases hp : p row with
      | true => simp [hp, List.filterMap_cons, htail]
      | false => simp [hp, htail, h row (List.mem_cons_self ..) hp]

theorem recordsOf_filter {p : Line → Bool}
    (h : ∀ l ∈ content, p l = false → l.recordFor id = none) :
    recordsOf (content.filter p) id = recordsOf content id :=
  filterMap_filter_of h

theorem droppedAttempts_filter {p : Line → Bool}
    (h : ∀ l ∈ content, p l = false → l.drop.join = none) :
    droppedAttempts (content.filter p) = droppedAttempts content :=
  filterMap_filter_of h

theorem recordsOf_append (more : List Line) :
    recordsOf (content ++ more) id = recordsOf content id ++ recordsOf more id :=
  List.filterMap_append

theorem droppedAttempts_append (more : List Line) :
    droppedAttempts (content ++ more) =
      droppedAttempts content ++ droppedAttempts more :=
  List.filterMap_append

theorem Line.recordFor_of_marker {l : Line} (h : l.completion = none) :
    l.recordFor id = none := by
  simp [Line.recordFor, h]

theorem Line.recordFor_of_not_records {l : Line} (h : l.records id = false) :
    l.recordFor id = none := by
  cases hc : l.completion with
  | none => exact recordFor_of_marker hc
  | some c => simpa [Line.recordFor, Line.records, hc, Option.filter] using h

theorem Line.recordFor_of_other {l : Line} {id' : AttemptId}
    (h : l.records id' = true) (hne : id ≠ id') : l.recordFor id = none := by
  cases hc : l.completion with
  | none => exact recordFor_of_marker hc
  | some c =>
      have hid : c.attemptId = id' := by simpa [Line.records, hc] using h
      simp [Line.recordFor, hc, Option.filter, hid, Ne.symm hne]

end Lines

section Pending

variable {o : Outbox} {book : Book}

/-- What `pending` returns for one attempt, read off the lines of the file. -/
theorem pendingOf_eq (hclean : ∀ l ∈ o.content, l.clean) (id : AttemptId) :
    pendingOf o id =
      if id ∈ droppedAttempts o.content then [] else recordsOf o.content id := by
  cases hfile : o.file with
  | none => simp [pendingOf, pending, Outbox.content, hfile, recordsOf]
  | some content =>
      have hcontent : o.content = content := by simp [Outbox.content, hfile]
      rw [hcontent] at hclean ⊢
      have hout : (pending o).2 = ((content.filter fun l => !l.blank && l.drop.isNone).filterMap
          Line.completion).filter fun c => !(droppedAttempts content).contains c.attemptId := by
        simp only [pending, hfile]
        split <;> rfl
      have hrecords : ((content.filter fun l => !l.blank && l.drop.isNone).filterMap
          Line.completion).filter (fun c => c.attemptId == id) = recordsOf content id := by
        rw [List.filter_filterMap]
        refine filterMap_filter_of ?_
        intro l hl hp
        obtain ⟨hblank, ⟨hdrop, _⟩ | ⟨_, hnone⟩⟩ := hclean l hl
        · simp [hblank, hdrop] at hp
        · simp [hnone]
      rw [pendingOf, hout, List.filter_filter]
      split
      · rename_i hdropped
        rw [List.filter_eq_nil_iff]
        intro c _
        rw [Bool.and_eq_true, beq_iff_eq]
        rintro ⟨rfl, hnot⟩
        simp [hdropped] at hnot
      · rename_i hkept
        rw [← hrecords]
        apply List.filter_congr
        intro c _
        by_cases hid : c.attemptId = id
        · simp [hid, hkept]
        · simp [hid]

theorem Represents.pendingOf (h : Represents o book) (id : AttemptId) :
    pendingOf o id = (book id).toList := by
  rw [pendingOf_eq h.clean]
  cases hbook : book id with
  | none =>
      rcases h.gone id hbook with hnone | hdropped
      · simp [hnone]
      · simp [hdropped]
  | some c =>
      obtain ⟨hrecords, hkept⟩ := h.entry id c hbook
      simp [hrecords, hkept]

theorem represents_pending (h : Represents o book) : (pending o).1 = o := by
  cases hfile : o.file with
  | none => simp [pending, hfile]
  | some content =>
      have hdamaged : ((content.filter fun l => !l.blank && l.drop.isNone).filter
          fun l => l.completion.isNone) = [] := by
        rw [List.filter_eq_nil_iff]
        intro l hl hnone
        obtain ⟨hmem, hp⟩ := List.mem_filter.mp hl
        have hclean := h.clean l (by simpa [Outbox.content, hfile] using hmem)
        obtain ⟨_, ⟨_, hsome⟩ | ⟨hdrop, _⟩⟩ := hclean
        · cases hc : l.completion <;> simp_all
        · cases hd : l.drop <;> simp_all
      simp only [pending, hfile, hdamaged]
      rfl

end Pending

section Steps

variable {o : Outbox} {book : Book}

theorem represents_record (h : Represents o book) (id : AttemptId)
    (req : CompleteAttemptRequest) (fencingToken : String) (bytes : Nat)
    (hunmarked : id ∉ droppedAttempts o.content) :
    Represents (record o id req fencingToken bytes)
      (bookStep book (.record id req fencingToken bytes)) := by
  let c := completionLine id req fencingToken
  let survivors := o.content.filter fun l => !l.blank && !l.records id
  have hcontent : (record o id req fencingToken bytes).content =
      survivors ++ [recordLine bytes c] := rfl
  have hrecorded : ∀ l ∈ o.content, (!l.blank && !l.records id) = false →
      l.records id = true := by
    intro l hl hp
    simpa [(h.clean l hl).1] using hp
  have hdropped : droppedAttempts (survivors ++ [recordLine bytes c]) =
      droppedAttempts o.content := by
    rw [droppedAttempts_append, droppedAttempts_filter]
    · simp [droppedAttempts, recordLine]
    · intro l hl hp
      have hrec := hrecorded l hl hp
      obtain ⟨_, ⟨hdrop, _⟩ | ⟨_, hnone⟩⟩ := h.clean l hl
      · simp [hdrop]
      · simp [Line.records, hnone] at hrec
  have hself : recordsOf (survivors ++ [recordLine bytes c]) id = [c] := by
    have hnone : recordsOf survivors id = [] := by
      rw [recordsOf, List.filterMap_eq_nil_iff]
      intro l hl
      obtain ⟨_, hp⟩ := List.mem_filter.mp hl
      apply Line.recordFor_of_not_records
      simp only [Bool.and_eq_true, Bool.not_eq_true'] at hp
      exact hp.2
    rw [recordsOf_append, hnone]
    simp [recordsOf, Line.recordFor, recordLine, Option.filter, c, completionLine]
  have hother : ∀ id', id' ≠ id →
      recordsOf (survivors ++ [recordLine bytes c]) id' = recordsOf o.content id' := by
    intro id' hne
    rw [recordsOf_append, recordsOf_filter]
    · simp [recordsOf, Line.recordFor, recordLine, Option.filter, c, completionLine,
        Ne.symm hne]
    · intro l hl hp
      exact Line.recordFor_of_other (hrecorded l hl hp) hne
  constructor
  · rw [hcontent]
    intro l hl
    rcases List.mem_append.mp hl with hold | hnew
    · exact h.clean l (List.mem_filter.mp hold).1
    · rw [List.mem_singleton.mp hnew]
      exact ⟨rfl, .inl ⟨rfl, rfl⟩⟩
  · rw [hcontent, hdropped]
    intro id' c' hbook
    by_cases hid : id' = id
    · subst hid
      have hc : c = c' := by simpa [bookStep] using hbook
      rw [← hc]
      exact ⟨hself, hunmarked⟩
    · rw [hother id' hid]
      exact h.entry id' c' (by simpa [bookStep, hid] using hbook)
  · rw [hcontent, hdropped]
    intro id' hbook
    by_cases hid : id' = id
    · simp [bookStep, hid] at hbook
    · rw [hother id' hid]
      exact h.gone id' (by simpa [bookStep, hid] using hbook)

theorem represents_compact (h : Represents o book) : Represents (compact o) book := by
  cases hfile : o.file with
  | none => simpa [compact, hfile] using h
  | some content =>
      have hcontent : o.content = content := by simp [Outbox.content, hfile]
      have hcompact : (compact o).content =
          content.filter (survives (droppedAttempts content)) := by
        simp [compact, Outbox.content, hfile]
      have hclean := h.clean
      rw [hcontent] at hclean
      have hdropped : droppedAttempts (content.filter
          (survives (droppedAttempts content))) = [] := by
        rw [droppedAttempts, List.filterMap_eq_nil_iff]
        intro l hl
        have hsurvives := (List.mem_filter.mp hl).2
        cases hd : l.drop with
        | none => rfl
        | some d => simp [survives, hd] at hsurvives
      have hkept : ∀ id, id ∉ droppedAttempts content →
          recordsOf (content.filter (survives (droppedAttempts content))) id =
            recordsOf content id := by
        intro id hid
        apply recordsOf_filter
        intro l hl hp
        obtain ⟨hblank, ⟨hdrop, _⟩ | ⟨_, hnone⟩⟩ := hclean l hl
        · cases hc : l.completion with
          | none => exact Line.recordFor_of_marker hc
          | some c =>
              have hmem : c.attemptId ∈ droppedAttempts content := by
                simpa [survives, hblank, hdrop, hc] using hp
              have hne : c.attemptId ≠ id := fun heq => hid (heq ▸ hmem)
              simp [Line.recordFor, hc, Option.filter, hne]
        · exact Line.recordFor_of_marker hnone
      have hgone : ∀ id, id ∈ droppedAttempts content →
          recordsOf (content.filter (survives (droppedAttempts content))) id = [] := by
        intro id hid
        rw [recordsOf, List.filterMap_eq_nil_iff]
        intro l hl
        have hsurvives := (List.mem_filter.mp hl).2
        cases hc : l.completion with
        | none => exact Line.recordFor_of_marker hc
        | some c =>
            have hnot : c.attemptId ∉ droppedAttempts content := by
              simp only [survives, hc, Option.all_some, Bool.and_eq_true] at hsurvives
              simpa using hsurvives.2
            have hne : c.attemptId ≠ id := fun heq => hnot (heq ▸ hid)
            simp [Line.recordFor, hc, Option.filter, hne]
      constructor
      · rw [hcompact]
        intro l hl
        exact hclean l (List.mem_filter.mp hl).1
      · rw [hcompact, hdropped]
        intro id c hbook
        obtain ⟨hrecords, hid⟩ := h.entry id c hbook
        rw [hcontent] at hrecords hid
        rw [hkept id hid]
        exact ⟨hrecords, by simp⟩
      · rw [hcompact]
        intro id hbook
        left
        by_cases hid : id ∈ droppedAttempts content
        · exact hgone id hid
        · rw [hkept id hid]
          have hgone' := h.gone id hbook
          rw [hcontent] at hgone'
          exact hgone'.resolve_right hid

theorem represents_ack (h : Represents o book) (id : AttemptId) (threshold : Nat) :
    Represents (ack o id threshold) (bookStep book (.ack id threshold)) := by
  have hmarked : Represents { o with file := some (o.content ++ [dropMarker id]) }
      (Function.update book id none) := by
    have hrecords : ∀ id', recordsOf (o.content ++ [dropMarker id]) id' =
        recordsOf o.content id' := by
      intro id'
      rw [recordsOf_append]
      simp [recordsOf, Line.recordFor, dropMarker]
    have hdropped : droppedAttempts (o.content ++ [dropMarker id]) =
        droppedAttempts o.content ++ [id] := by
      rw [droppedAttempts_append]
      simp [droppedAttempts, dropMarker]
    constructor
    · intro l hl
      rcases List.mem_append.mp hl with hold | hnew
      · exact h.clean l hold
      · rw [List.mem_singleton.mp hnew]
        exact ⟨rfl, .inr ⟨rfl, rfl⟩⟩
    · intro id' c hbook
      by_cases hid : id' = id
      · simp [hid] at hbook
      · obtain ⟨hentry, hkept⟩ := h.entry id' c (by simpa [hid] using hbook)
        change recordsOf (o.content ++ [dropMarker id]) id' = [c] ∧
          id' ∉ droppedAttempts (o.content ++ [dropMarker id])
        rw [hrecords, hdropped]
        exact ⟨hentry, by simp [hkept, hid]⟩
    · intro id' hbook
      change recordsOf (o.content ++ [dropMarker id]) id' = [] ∨
        id' ∈ droppedAttempts (o.content ++ [dropMarker id])
      rw [hrecords, hdropped]
      by_cases hid : id' = id
      · exact .inr (by simp [hid])
      · rcases h.gone id' (by simpa [hid] using hbook) with hnone | hmem
        · exact .inl hnone
        · exact .inr (List.mem_append_left _ hmem)
  unfold ack
  dsimp only
  split
  · exact represents_compact hmarked
  · exact hmarked

theorem represents_step (h : Represents o book) (op : OutboxOp)
    (hunmarked : op.Unmarked o) : Represents (outboxStep o op) (bookStep book op) := by
  cases op with
  | record id req fencingToken bytes =>
      exact represents_record h id req fencingToken bytes hunmarked
  | ack id threshold => exact represents_ack h id threshold
  | pending =>
      rw [outboxStep, represents_pending h]
      exact h
  | compact => exact represents_compact h
  | reopen => exact h

theorem represents_run {o' : Outbox} {ops : List OutboxOp}
    (hrun : Runs (During OutboxStep fun o op => op.Unmarked o) o ops o')
    (h : Represents o book) : Represents o' (ops.foldl bookStep book) := by
  induction hrun generalizing book with
  | refl => exact h
  | next hstep _ ih =>
      obtain ⟨rfl, hunmarked⟩ := hstep
      exact ih (represents_step h _ hunmarked)

end Steps

/-- In every run in which no attempt is recorded while its drop marker is in
the file, `pending` returns for each attempt the record its last operation
left, once, and nothing when that was an acknowledgement. -/
theorem pending_refines_book {ops : List OutboxOp} {o : Outbox}
    (h : Runs (During OutboxStep fun o op => op.Unmarked o) {} ops o) (id : AttemptId) :
    pendingOf o id = (bookOf ops id).toList := by
  have hempty : Represents {} fun _ => none := by
    constructor <;> simp [Outbox.content, recordsOf]
  exact (represents_run h hempty).pendingOf id

def attemptA : AttemptId := ⟨"a", by decide⟩

def attemptB : AttemptId := ⟨"b", by decide⟩

def acknowledgedOnce : List OutboxOp :=
  [.record attemptA { exitCode := 1 } "f1" 40, .record attemptB { exitCode := 0 } "f2" 40,
   .ack attemptA 1000, .compact, .record attemptA { exitCode := 0 } "f3" 40, .pending]

/-- A record made again after the compaction that folded its marker. -/
theorem pending_refines_book_compacted :
    (pendingOf (acknowledgedOnce.foldl outboxStep {}) attemptA).map
      CompletionLine.fencingToken = ["f3"] := by
  have hrun : Runs (During OutboxStep fun o op => op.Unmarked o) {} acknowledgedOnce
      (acknowledgedOnce.foldl outboxStep {}) := by
    refine .next ⟨rfl, ?_⟩ (.next ⟨rfl, ?_⟩ (.next ⟨rfl, trivial⟩ (.next ⟨rfl, trivial⟩
      (.next ⟨rfl, ?_⟩ (.next ⟨rfl, trivial⟩ (.refl _))))))
    all_goals
      unfold OutboxOp.Unmarked
      decide
  rw [pending_refines_book hrun attemptA]
  decide

/-- A record made while the marker of an earlier acknowledgement is still in
the file is not pending. -/
theorem recorded_again_not_pending : ¬ ∀ (ops : List OutboxOp) (o : Outbox)
    (id : AttemptId), Runs OutboxStep {} ops o →
    pendingOf o id = (bookOf ops id).toList := by
  intro h
  have hpending := h [.record attemptA { exitCode := 1 } "f1" 40, .ack attemptA 1000,
    .record attemptA { exitCode := 0 } "f2" 40] _ attemptA (Runs.foldl outboxStep {} _)
  revert hpending
  decide

end AgentGrid.Node
