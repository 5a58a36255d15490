import AgentGrid.Node.CompletionOutbox

/-!
# Reading a damaged completion outbox

The file may hold anything: records, drop markers, lines that parse to neither,
and bytes that are no text at all, which no call can read.  `pending` moves the
corrupt lines aside and keeps the records, but not the markers.
-/

namespace AgentGrid.Node

open AgentGrid.Foundation AgentGrid.Store

/-- The outbox as the calls find it.  `garbled` says that the file is not valid
UTF-8.  A blank line holds neither a marker nor a record. -/
structure Spool where
  outbox : Outbox
  garbled : Bool
  blank : ∀ l ∈ outbox.content, l.blank = true → l.drop = none ∧ l.completion = none

/-- A line that `pending` moves aside. -/
def Line.corrupt (l : Line) : Bool := !l.blank && l.drop.isNone && l.completion.isNone

/-- A record or a drop marker. -/
def Line.entry (l : Line) : Bool := !l.blank && !l.corrupt

namespace Outbox

def entries (o : Outbox) : List Line := o.content.filter Line.entry

def corrupt (o : Outbox) : List Line := o.content.filter Line.corrupt

theorem mem_content_pending {o : Outbox} {l : Line} (h : l ∈ (pending o).1.content) :
    l ∈ o.content := by
  cases hfile : o.file with
  | none => simpa [pending, hfile] using h
  | some content =>
      have hcontent : o.content = content := by simp [Outbox.content, hfile]
      simp only [pending, hfile] at h
      split at h
      · exact h
      · rw [hcontent]
        exact (List.mem_filter.mp (List.mem_filter.mp h).1).1

theorem mem_content_record {o : Outbox} {id : AttemptId} {req : CompleteAttemptRequest}
    {token : String} {bytes : Nat} {l : Line} (h : l ∈ (record o id req token bytes).content) :
    l ∈ o.content ∨ l = recordLine bytes (completionLine id req token) := by
  rcases List.mem_append.mp h with hold | hnew
  · exact .inl (List.mem_filter.mp hold).1
  · exact .inr (List.mem_singleton.mp hnew)

end Outbox

namespace Spool

/-- `CompletionOutbox::pending`, an error when the file cannot be read. -/
def pending (s : Spool) : Spool × Option (List CompletionLine) :=
  if s.garbled then (s, none)
  else
    ({ s with
        outbox := (Node.pending s.outbox).1
        blank := fun l hl => s.blank l (Outbox.mem_content_pending hl) },
      some (Node.pending s.outbox).2)

/-- `CompletionOutbox::record`.  A file that cannot be read is replaced. -/
def record (s : Spool) (id : AttemptId) (req : CompleteAttemptRequest)
    (fencingToken : String) (bytes : Nat) : Spool :=
  let found := if s.garbled then { s.outbox with file := none } else s.outbox
  { outbox := Node.record found id req fencingToken bytes
    garbled := false
    blank := by
      intro l hl hblank
      rcases Outbox.mem_content_record hl with hold | rfl
      · simp only [found] at hold
        split at hold
        · cases hold
        · exact s.blank l hold hblank
      · cases hblank }

/-- `completion_rows`: the records without a marker, read only. -/
def completionRows (s : Spool) : Option Nat :=
  match s.outbox.file with
  | none => some 0
  | some content =>
      if s.garbled then none
      else some (((content.filter fun l => !l.blank).filterMap Line.completion).filter
        fun c => !(droppedAttempts content).contains c.attemptId).length

/-- The attempt is among what a `pending` call returns. -/
def Returns (s : Spool) (id : AttemptId) : Prop :=
  ∃ out, s.pending.2 = some out ∧ ∃ c ∈ out, c.attemptId = id

instance (s : Spool) (id : AttemptId) : Decidable (s.Returns id) :=
  decidable_of_iff ((s.pending.2.any fun out => out.any fun c => c.attemptId == id) = true)
    (by simp [Returns, Option.any_eq_true])

end Spool

inductive CallOp
  | pending
  | completionRows
  | record (id : AttemptId) (req : CompleteAttemptRequest) (fencingToken : String)
      (bytes : Nat)

def callStep (s : Spool) : CallOp → Spool
  | .pending => s.pending.1
  | .completionRows => s
  | .record id req fencingToken bytes => s.record id req fencingToken bytes

def CallStep (s : Spool) (op : CallOp) (s' : Spool) : Prop := s' = callStep s op

def CallOp.records (id : AttemptId) : CallOp → Bool
  | .record id' _ _ _ => id' == id
  | _ => false

/-- No `pending` meets a corrupt line and a drop marker in one file, and no
`record` replaces a record that carries a marker too. -/
def CallOp.Unmixed (s : Spool) : CallOp → Prop
  | .pending => s.garbled = false → s.outbox.corrupt ≠ [] →
      ∀ l ∈ s.outbox.content, l.drop = none
  | .completionRows => True
  | .record id _ _ _ => s.garbled = false →
      ∀ l ∈ s.outbox.content, l.records id = true → l.drop = none

/-! ## What a read leaves -/

section Reads

variable {s : Spool} {id : AttemptId}

/-- The attempt has no record outside the markers, or it has a marker. -/
def Outbox.Settled (o : Outbox) (id : AttemptId) : Prop :=
  ∀ l ∈ o.content, l.blank = false → l.drop = none → l.records id = true →
    id ∈ droppedAttempts o.content

theorem returned_iff {o : Outbox} :
    (∃ c ∈ (pending o).2, c.attemptId = id) ↔ ¬o.Settled id := by
  cases hfile : o.file with
  | none => simp [pending, hfile, Outbox.Settled, Outbox.content]
  | some content =>
      have hcontent : o.content = content := by simp [Outbox.content, hfile]
      have hout : (pending o).2 = ((content.filter fun l => !l.blank && l.drop.isNone).filterMap
          Line.completion).filter fun c => !(droppedAttempts content).contains c.attemptId := by
        simp only [pending, hfile]
        split <;> rfl
      rw [hout, Outbox.Settled, hcontent]
      constructor
      · rintro ⟨c, hc, rfl⟩ hsettled
        obtain ⟨hmem, hkept⟩ := List.mem_filter.mp hc
        obtain ⟨l, hl, hlc⟩ := List.mem_filterMap.mp hmem
        obtain ⟨hl, hp⟩ := List.mem_filter.mp hl
        rw [Bool.and_eq_true, Bool.not_eq_true', Option.isNone_iff_eq_none] at hp
        have hrecords : l.records c.attemptId = true := by simp [Line.records, hlc]
        have hmarked := hsettled l hl hp.1 hp.2 hrecords
        simp [hmarked] at hkept
      · intro hunsettled
        push Not at hunsettled
        obtain ⟨l, hl, hblank, hdrop, hrecords, hunmarked⟩ := hunsettled
        cases hc : l.completion with
        | none => simp [Line.records, hc] at hrecords
        | some c =>
            have hid : c.attemptId = id := by simpa [Line.records, hc] using hrecords
            refine ⟨c, ?_, hid⟩
            rw [List.mem_filter, List.mem_filterMap]
            refine ⟨⟨l, List.mem_filter.mpr ⟨hl, by simp [hblank, hdrop]⟩, hc⟩, ?_⟩
            simpa [hid] using hunmarked

theorem Spool.returns_iff : s.Returns id ↔ s.garbled = false ∧ ¬s.outbox.Settled id := by
  cases hg : s.garbled with
  | true => simp [Spool.Returns, Spool.pending, hg]
  | false =>
      rw [← returned_iff]
      simp [Spool.Returns, Spool.pending, hg]

/-- A read that finds no corrupt line leaves the file. -/
theorem pending_of_whole {o : Outbox} (h : o.corrupt = []) : (pending o).1 = o := by
  cases hfile : o.file with
  | none => simp [pending, hfile]
  | some content =>
      have hcontent : o.content = content := by simp [Outbox.content, hfile]
      have hdamaged : ((content.filter fun l => !l.blank && l.drop.isNone).filter
          fun l => l.completion.isNone) = [] := by
        rw [List.filter_filter, ← h, Outbox.corrupt, hcontent]
        apply List.filter_congr
        intro l _
        rw [Line.corrupt, Bool.and_comm]
      simp only [pending, hfile, hdamaged]
      rfl

/-- A read that finds corrupt lines and no marker moves the corrupt lines. -/
theorem pending_of_unmarked {o : Outbox} (hcorrupt : o.corrupt ≠ [])
    (hdrop : ∀ l ∈ o.content, l.drop = none) :
    (pending o).1.content = o.entries ∧
      (pending o).1.quarantine = o.quarantine ++ o.corrupt := by
  cases hfile : o.file with
  | none => simp [Outbox.corrupt, Outbox.content, hfile] at hcorrupt
  | some content =>
      have hcontent : o.content = content := by simp [Outbox.content, hfile]
      have hdamaged : ((content.filter fun l => !l.blank && l.drop.isNone).filter
          fun l => l.completion.isNone) = o.corrupt := by
        rw [List.filter_filter, Outbox.corrupt, hcontent]
        apply List.filter_congr
        intro l _
        rw [Line.corrupt, Bool.and_comm]
      have hclean : ((content.filter fun l => !l.blank && l.drop.isNone).filter
          fun l => l.completion.isSome) = o.entries := by
        rw [List.filter_filter, Outbox.entries, hcontent]
        apply List.filter_congr
        intro l hl
        have hnone := hdrop l (hcontent ▸ hl)
        cases hb : l.blank <;> cases hc : l.completion <;>
          simp [Line.entry, Line.corrupt, hnone, hb, hc]
      have hne : o.corrupt.isEmpty = false := by simpa using hcorrupt
      simp only [pending, hfile, hdamaged, hclean, hne]
      exact ⟨rfl, rfl⟩

theorem entries_of_entries (o : Outbox) (h : o.content = o.entries) : o.corrupt = [] := by
  rw [Outbox.corrupt, h, Outbox.entries, List.filter_filter, List.filter_eq_nil_iff]
  intro l _
  cases hc : l.corrupt <;> simp [Line.entry, hc]

/-- Quarantining changes only which corrupt lines remain. -/
theorem pending_frame (h : CallOp.Unmixed s .pending) :
    s.pending.1.outbox.entries = s.outbox.entries ∧
      s.pending.1.outbox.quarantine ++ s.pending.1.outbox.corrupt =
        s.outbox.quarantine ++ s.outbox.corrupt := by
  cases hg : s.garbled with
  | true => simp [Spool.pending, hg]
  | false =>
      have hpending : s.pending.1.outbox = (pending s.outbox).1 := by
        simp [Spool.pending, hg]
      rw [hpending]
      by_cases hcorrupt : s.outbox.corrupt = []
      · rw [pending_of_whole hcorrupt]
        exact ⟨rfl, rfl⟩
      · obtain ⟨hcontent, hquarantine⟩ := pending_of_unmarked hcorrupt (h hg hcorrupt)
        have hentries : (pending s.outbox).1.entries = s.outbox.entries := by
          rw [Outbox.entries, hcontent, Outbox.entries, List.filter_filter]
          simp
        have hleft := entries_of_entries _ (hcontent.trans hentries.symm)
        rw [hquarantine, hleft, List.append_nil]
        exact ⟨hentries, rfl⟩

/-- A step under the condition keeps an attempt settled that it does not record. -/
theorem settled_step {op : CallOp} (hop : op.records id = false) (hunmixed : op.Unmixed s)
    (h : s.garbled = false → s.outbox.Settled id)
    (hg' : (callStep s op).garbled = false) : (callStep s op).outbox.Settled id := by
  cases op with
  | pending =>
      have hg : s.garbled = false := by
        cases hg : s.garbled with
        | true => simp [callStep, Spool.pending, hg] at hg'
        | false => rfl
      have hpending : (callStep s .pending).outbox = (pending s.outbox).1 := by
        simp [callStep, Spool.pending, hg]
      rw [hpending]
      by_cases hcorrupt : s.outbox.corrupt = []
      · rw [pending_of_whole hcorrupt]
        exact h hg
      · have hdrop := hunmixed hg hcorrupt
        have hnone : droppedAttempts s.outbox.content = [] := by
          rw [droppedAttempts, List.filterMap_eq_nil_iff]
          intro l hl
          rw [hdrop l hl]
          rfl
        intro l hl hblank hldrop hrecords
        have hmarked := h hg l (Outbox.mem_content_pending hl) hblank hldrop hrecords
        rw [hnone] at hmarked
        cases hmarked
  | completionRows => exact h hg'
  | record id' req token bytes =>
      have hne : id' ≠ id := by simpa [CallOp.records] using hop
      have hnew : (recordLine bytes (completionLine id' req token)).records id = false := by
        simpa [Line.records, recordLine, completionLine] using hne
      cases hg : s.garbled with
      | true =>
          intro l hl _ _ hrecords
          have hline : l = recordLine bytes (completionLine id' req token) := by
            simpa [callStep, Spool.record, hg, record, Outbox.content] using hl
          rw [hline, hnew] at hrecords
          cases hrecords
      | false =>
          have hrecord : (callStep s (.record id' req token bytes)).outbox =
              record s.outbox id' req token bytes := by simp [callStep, Spool.record, hg]
          rw [hrecord]
          intro l hl hblank hldrop hrecords
          rcases Outbox.mem_content_record hl with hold | rfl
          · have hmarked := h hg l hold hblank hldrop hrecords
            obtain ⟨m, hm, hmdrop⟩ := List.mem_filterMap.mp hmarked
            have hdrop : m.drop ≠ none := by
              intro hdrop
              rw [hdrop] at hmdrop
              cases hmdrop
            have hmblank : m.blank = false := by
              rw [← Bool.not_eq_true]
              exact fun hb => hdrop (s.blank m hm hb).1
            have hmrecords : m.records id' = false := by
              rw [← Bool.not_eq_true]
              exact fun hr => hdrop (hunmixed hg m hm hr)
            refine List.mem_filterMap.mpr ⟨m, ?_, hmdrop⟩
            exact List.mem_append_left _
              (List.mem_filter.mpr ⟨hm, by simp [hmblank, hmrecords]⟩)
          · rw [hnew] at hrecords
            cases hrecords

theorem settled_run {s' : Spool} {ops : List CallOp}
    (hrun : Runs (During CallStep fun s op => op.Unmixed s) s ops s')
    (hops : ∀ op ∈ ops, op.records id = false)
    (h : s.garbled = false → s.outbox.Settled id) :
    s'.garbled = false → s'.outbox.Settled id := by
  induction hrun with
  | refl => exact h
  | next hstep _ ih =>
      obtain ⟨rfl, hunmixed⟩ := hstep
      have hhead := hops _ (List.mem_cons_self ..)
      exact ih (fun op hop => hops op (List.mem_cons_of_mem _ hop))
        (settled_step hhead hunmixed h)

end Reads

/-- From any file, in every run in which no read meets a corrupt line beside a
drop marker: an attempt that a `pending` call did not return is not returned
by a later one unless it was recorded in between, and the calls move corrupt
lines aside and nothing else. -/
theorem acked_stay_acked {s s' : Spool} {ops : List CallOp} {id : AttemptId}
    (hrun : Runs (During CallStep fun s op => op.Unmixed s) s (.pending :: ops) s')
    (hfirst : ¬s.Returns id)
    (hops : ∀ op ∈ ops, op.records id = false) :
    ¬s'.Returns id ∧
      s.pending.1.outbox.entries = s.outbox.entries ∧
      s.pending.1.outbox.quarantine ++ s.pending.1.outbox.corrupt =
        s.outbox.quarantine ++ s.outbox.corrupt := by
  rw [Spool.returns_iff] at hfirst
  have hsettled : s.garbled = false → s.outbox.Settled id := by
    intro hreadable
    exact not_not.mp fun h => hfirst ⟨hreadable, h⟩
  have hlast := settled_run hrun (by simpa [CallOp.records] using hops) hsettled
  refine ⟨?_, ?_⟩
  · rw [Spool.returns_iff]
    exact fun h => h.2 (hlast h.1)
  · cases hrun with
    | next hstep _ => exact pending_frame hstep.2

def completedA : Line := recordLine 40 (completionLine attemptA { exitCode := 0 } "f1")

def tornLine : Line := ⟨9, false, none, none⟩

/-- Attempt `a` is acknowledged and not yet compacted. -/
def ackedSpool : Spool where
  outbox := { file := some [completedA, dropMarker attemptA] }
  garbled := false
  blank := by decide

theorem acked_stay_acked_beside_record :
    ¬(callStep (callStep ackedSpool .pending)
      (.record attemptB { exitCode := 0 } "f2" 40)).Returns attemptA := by
  refine (@acked_stay_acked _ _ [.record attemptB { exitCode := 0 } "f2" 40] _
    (.next ⟨rfl, ?_⟩ (.next ⟨rfl, ?_⟩ (.refl _))) (by decide) ?_).1
  · intro _ hcorrupt
    exact absurd (by decide) hcorrupt
  · unfold CallOp.Unmixed
    decide
  · decide

/-- The same file with a torn line. -/
def tornSpool : Spool where
  outbox := { file := some [completedA, dropMarker attemptA, tornLine] }
  garbled := false
  blank := by decide

/-- The read that moves the torn line aside loses the marker beside it. -/
theorem acked_returns_after_quarantine : ¬ ∀ (s s' : Spool) (ops : List CallOp)
    (id : AttemptId), Runs CallStep s (.pending :: ops) s' →
    ¬s.Returns id → (∀ op ∈ ops, op.records id = false) →
    ¬s'.Returns id := by
  intro h
  have hlater := h tornSpool _ [] attemptA (.next rfl (.refl _)) (by decide) (by simp)
  revert hlater
  decide

end AgentGrid.Node
