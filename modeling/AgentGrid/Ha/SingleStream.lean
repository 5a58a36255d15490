import AgentGrid.Ha.LogAgreement
import Mathlib.Algebra.Ring.Nat

/-!
# One leader's stream on one standby

The leader numbers its changesets in the order of their commits.  What reaches
the standby are batches of consecutive changesets: the chunks of the async
worker and any other cut, in any order, any number of times or never.  An apply
holds the write gate from the first read to the commit, so the calls follow one
another, and any of its database calls may fail.
-/

namespace AgentGrid.Ha

open AgentGrid.Foundation

variable {δ κ : Type}

/-! ## Batches of the async worker -/

structure Chunk (κ : Type) where
  firstSeq : Nat
  lastSeq : Nat
  changes : List κ
deriving DecidableEq

def Chunk.batch (c : Chunk κ) (me : NodeId) (epoch : Nat) (schema : Int) : Batch κ where
  sender := me
  epoch := epoch
  firstSeq := c.firstSeq
  lastSeq := c.lastSeq
  schema := schema
  changes := c.changes

/-- The loop of `run_async` over the jobs of one window, with the chunks it has
flushed. -/
structure Recut (κ : Type) where
  flushed : List (Chunk κ) := []
  chunk : List κ := []
  bytes : Nat := 0
  firstSeq : Nat := 0
  lastSeq : Nat := 0

namespace Recut

def flush (r : Recut κ) : Recut κ :=
  { r with
    flushed := r.flushed ++ [⟨r.firstSeq, r.lastSeq, r.chunk⟩]
    chunk := []
    bytes := 0 }

def add (sql : Sqlite δ κ) (r : Recut κ) (job : Job κ) : Recut κ :=
  { r with
    firstSeq := if r.bytes = 0 then job.seq else r.firstSeq
    lastSeq := job.seq
    chunk := r.chunk ++ [job.change]
    bytes := r.bytes + sql.bytes job.change }

def step (sql : Sqlite δ κ) (max : Nat) (r : Recut κ) (job : Job κ) : Recut κ :=
  if r.bytes ≠ 0 ∧ max < r.bytes + sql.bytes job.change then r.flush.add sql job
  else r.add sql job

end Recut

def maxBatchJobs : Nat := 256

def recut (sql : Sqlite δ κ) (max : Nat) (jobs : List (Job κ)) : List (Chunk κ) :=
  let r := jobs.foldl (Recut.step sql max) {}
  if r.bytes ≠ 0 then r.flush.flushed else r.flushed

/-! ## The standby -/

/-- Where a database call of an apply fails: at its commit or before, or in the
reset of `synchronous` after it. -/
inductive Fault
  | atCommit
  | afterCommit
deriving DecidableEq

def ApplyOutcome.isApplied : ApplyOutcome → Bool
  | .applied _ => true
  | _ => false

/-- `apply_changeset_batch` on a database that may fail; no outcome is an error. -/
def applyCall (S : Setup δ κ) (db : Database δ κ) (b : Batch κ) :
    Option Fault → Database δ κ × Option ApplyOutcome
  | none => ((applyChangesetBatch S db b).1, some (applyChangesetBatch S db b).2)
  | some .atCommit => (db, none)
  | some .afterCommit =>
      let r := applyChangesetBatch S db b
      (r.1, if r.2.isApplied then none else some r.2)

/-- The changesets the leader has numbered, the jobs its worker has not taken,
the batches sent, and the standby. -/
structure Replay (δ κ : Type) where
  stream : List κ := []
  queue : List (Job κ) := []
  sent : List (Batch κ) := []
  standby : Database δ κ

inductive ReplayEvent (κ : Type)
  | commit (c : κ)
  | window (count epoch : Nat) (schema : Int)
  | cut (skip count epoch : Nat) (schema : Int)
  | deliver (i : Nat) (fault : Option Fault)

/-- A commit without a changeset, or with one over the cap, gets no number. -/
def replayStep (S : Setup δ κ) (me : NodeId) (s : Replay δ κ) :
    ReplayEvent κ → Option (Replay δ κ)
  | .commit c =>
      if 0 < S.sql.bytes c ∧ S.sql.bytes c ≤ S.maxChangesetBytes then
        some { s with
          stream := s.stream ++ [c]
          queue := s.queue ++ [⟨s.stream.length + 1, c⟩] }
      else some s
  | .window count epoch schema =>
      if count ≤ maxBatchJobs then
        some { s with
          queue := s.queue.drop count
          sent := s.sent ++ (recut S.sql S.maxChangesetBytes (s.queue.take count)).map
            fun c => c.batch me epoch schema }
      else none
  | .cut skip count epoch schema =>
      if 0 < count ∧ skip + count ≤ s.stream.length then
        some { s with
          sent := s.sent ++ [(Chunk.mk (skip + 1) (skip + count)
            ((s.stream.drop skip).take count)).batch me epoch schema] }
      else none
  | .deliver i fault =>
      s.sent[i]?.map fun b => { s with standby := (applyCall S s.standby b fault).1 }

def ReplayStep (S : Setup δ κ) (me : NodeId) (s : Replay δ κ) (e : ReplayEvent κ)
    (s' : Replay δ κ) : Prop :=
  replayStep S me s e = some s'

/-! ## Slices -/

/-- The batch is a run of the stream under its own numbers. -/
def Slice (stream : List κ) (firstSeq lastSeq : Nat) (changes : List κ) : Prop :=
  ∃ before after, stream = before ++ changes ++ after ∧ firstSeq = before.length + 1 ∧
    lastSeq = before.length + changes.length

section Slices

variable {stream : List κ} {firstSeq lastSeq : Nat} {changes : List κ}

theorem Slice.append (h : Slice stream firstSeq lastSeq changes) (more : List κ) :
    Slice (stream ++ more) firstSeq lastSeq changes := by
  obtain ⟨before, after, rfl, hfirst, hlast⟩ := h
  exact ⟨before, after ++ more, by simp, hfirst, hlast⟩

theorem slice_of_cut {skip count : Nat} (h : skip + count ≤ stream.length) :
    Slice stream (skip + 1) (skip + count) ((stream.drop skip).take count) := by
  have hskip : (stream.take skip).length = skip := by
    rw [List.length_take]
    omega
  have hcount : ((stream.drop skip).take count).length = count := by
    rw [List.length_take, List.length_drop]
    omega
  refine ⟨stream.take skip, (stream.drop skip).drop count, ?_, by rw [hskip],
    by rw [hskip, hcount]⟩
  rw [List.append_assoc, List.take_append_drop, List.take_append_drop]

/-- The chunk being filled ends where the jobs so far end. -/
structure Recut.Filling (sql : Sqlite δ κ) (done : List κ) (r : Recut κ) : Prop where
  flushed : ∀ c ∈ r.flushed, Slice done c.firstSeq c.lastSeq c.changes
  bytes : r.bytes = (r.chunk.map sql.bytes).sum
  chunk : r.bytes ≠ 0 → Slice done r.firstSeq r.lastSeq r.chunk
  last : ∃ before, done = before ++ r.chunk
  whole : r.bytes ≠ 0 → r.lastSeq = done.length

variable {sql : Sqlite δ κ} {done : List κ} {r : Recut κ}

theorem Recut.Filling.flush (h : r.Filling sql done) (hbytes : r.bytes ≠ 0) :
    r.flush.Filling sql done := by
  constructor
  · intro c hc
    rcases List.mem_append.mp hc with hold | hnew
    · exact h.flushed c hold
    · rw [List.mem_singleton.mp hnew]
      exact h.chunk hbytes
  · rfl
  · exact fun hne => absurd rfl hne
  · exact ⟨done, (List.append_nil done).symm⟩
  · exact fun hne => absurd rfl hne

theorem Recut.Filling.add (h : r.Filling sql done) {job : Job κ}
    (hseq : job.seq = done.length + 1) (hpos : ∀ c ∈ r.chunk, 0 < sql.bytes c) :
    (r.add sql job).Filling sql (done ++ [job.change]) := by
  obtain ⟨before, hbefore⟩ := h.last
  have hslice : Slice (done ++ [job.change]) (if r.bytes = 0 then job.seq else r.firstSeq)
      job.seq (r.chunk ++ [job.change]) := by
    refine ⟨before, [], by rw [hbefore]; simp, ?_, ?_⟩
    · split
      · rename_i hzero
        have hempty : r.chunk = [] := by
          cases hc : r.chunk with
          | nil => rfl
          | cons c rest =>
              have hc' := hpos c (hc ▸ List.mem_cons_self ..)
              have hsum := h.bytes
              rw [hzero, hc, List.map_cons, List.sum_cons] at hsum
              omega
        rw [hseq, hbefore, hempty, List.append_nil]
      · rename_i hne
        obtain ⟨front, after, hdone, hfirst, hlast⟩ := h.chunk hne
        have hwhole := h.whole hne
        have hlength := congrArg List.length hdone
        have hlength' := congrArg List.length hbefore
        simp only [List.length_append] at hlength hlength'
        rw [hfirst]
        omega
    · rw [hseq, hbefore]
      simp only [List.length_append, List.length_singleton]
      omega
  constructor
  · intro c hc
    exact (h.flushed c hc).append _
  · change r.bytes + sql.bytes job.change = _
    rw [h.bytes]
    simp [Recut.add]
  · exact fun _ => hslice
  · exact ⟨before, by rw [hbefore]; simp [Recut.add]⟩
  · intro _
    change job.seq = _
    rw [hseq, List.length_append, List.length_singleton]

theorem Recut.chunk_step (sql : Sqlite δ κ) (max : Nat) (r : Recut κ) (job : Job κ) {c : κ}
    (h : c ∈ (r.step sql max job).chunk) : c ∈ r.chunk ∨ c = job.change := by
  unfold Recut.step at h
  split at h
  · right
    simpa [Recut.add, Recut.flush] using h
  · simpa [Recut.add] using h

theorem Recut.Filling.run {max : Nat} {jobs : List (Job κ)} (h : r.Filling sql done)
    (hseqs : jobs.map Job.seq = List.range' (done.length + 1) jobs.length)
    (hpos : ∀ c ∈ r.chunk ++ jobs.map Job.change, 0 < sql.bytes c) :
    (jobs.foldl (Recut.step sql max) r).Filling sql (done ++ jobs.map Job.change) := by
  induction jobs generalizing r done with
  | nil => simpa using h
  | cons job jobs ih =>
      rw [List.map_cons, List.length_cons, List.range'_succ, List.cons.injEq] at hseqs
      obtain ⟨hseq, hrest⟩ := hseqs
      have hchunk : ∀ c ∈ r.chunk, 0 < sql.bytes c :=
        fun c hc => hpos c (List.mem_append_left _ hc)
      have hstep : (r.step sql max job).Filling sql (done ++ [job.change]) := by
        unfold Recut.step
        split
        · rename_i hfull
          exact (h.flush hfull.1).add hseq (by simp [Recut.flush])
        · exact h.add hseq hchunk
      have htail := ih hstep (by simpa using hrest) (by
        intro c hc
        rcases List.mem_append.mp hc with hfirst | hlast
        · rcases Recut.chunk_step sql max r job hfirst with hold | rfl
          · exact hchunk c hold
          · exact hpos _ (by simp)
        · exact hpos c (by simp [hlast]))
      simpa using htail

/-- Whatever the sizes, the worker cuts consecutive jobs into slices. -/
theorem recut_slices {max : Nat} {jobs : List (Job κ)}
    (hseqs : jobs.map Job.seq = List.range' (done.length + 1) jobs.length)
    (hpos : ∀ c ∈ jobs.map Job.change, 0 < sql.bytes c) :
    ∀ c ∈ recut sql max jobs,
      Slice (done ++ jobs.map Job.change) c.firstSeq c.lastSeq c.changes := by
  have hempty : ({} : Recut κ).Filling sql done := by
    constructor
    · intro c hc
      cases hc
    · rfl
    · exact fun hne => absurd rfl hne
    · exact ⟨done, (List.append_nil done).symm⟩
    · exact fun hne => absurd rfl hne
  have hrun : (jobs.foldl (Recut.step sql max) {}).Filling sql (done ++ jobs.map Job.change) :=
    hempty.run hseqs (by simpa using hpos)
  unfold recut
  dsimp only
  split
  · rename_i hbytes
    exact (hrun.flush hbytes).flushed
  · exact hrun.flushed

end Slices

/-! ## Applying -/

section Apply

variable {S : Setup δ κ} {db : Database δ κ} {b : Batch κ} {x : δ} {stream : List κ}

/-- The copy holds the fold of the changesets up to its number. -/
def FoldOf (S : Setup δ κ) (x : δ) (stream : List κ) (db : Database δ κ) : Prop :=
  db.replSeq ≤ stream.length ∧
    S.sql.applyAll x (stream.take db.replSeq) = some db.version.contents

theorem FoldOf.append (h : FoldOf S x stream db) (more : List κ) :
    FoldOf S x (stream ++ more) db := by
  obtain ⟨hle, hfold⟩ := h
  refine ⟨hle.trans (by simp), ?_⟩
  rw [List.take_append_of_le_length hle]
  exact hfold

/-- A call leaves the database or applies the whole batch. -/
theorem applyChangesetBatch_cases (S : Setup δ κ) (db : Database δ κ) (b : Batch κ) :
    ((applyChangesetBatch S db b).1 = db ∧
      ∀ seq, (applyChangesetBatch S db b).2 ≠ .applied seq) ∨
    (b.firstSeq = db.replSeq + 1 ∧ db.replSeq < b.lastSeq ∧ b.schema = db.schema ∧
      ∃ contents, S.sql.applyAll db.version.contents b.changes = some contents ∧
        applyChangesetBatch S db b =
          ({ db with
              version := ⟨contents, db.version.history ++ b.changes⟩
              replSeq := b.lastSeq }, .applied b.lastSeq)) := by
  unfold applyChangesetBatch
  dsimp only
  split
  · exact .inl ⟨rfl, by simp⟩
  · rename_i hschema
    split
    · exact .inl ⟨rfl, by simp⟩
    · rename_i hnew
      split
      · exact .inl ⟨rfl, by simp⟩
      · rename_i hnext
        cases happly : S.sql.applyAll db.version.contents b.changes with
        | none => exact .inl ⟨rfl, by simp⟩
        | some contents =>
            exact .inr ⟨not_not.mp hnext, Nat.lt_of_not_le hnew, not_not.mp hschema, contents,
              rfl, rfl⟩

theorem FoldOf.applyChangesetBatch (h : FoldOf S x stream db)
    (hslice : Slice stream b.firstSeq b.lastSeq b.changes) :
    FoldOf S x stream (applyChangesetBatch S db b).1 := by
  rcases applyChangesetBatch_cases S db b with ⟨hsame, _⟩ | ⟨hnext, _, _, contents, happly, heq⟩
  · rwa [hsame]
  · obtain ⟨before, after, rfl, hfirst, hlast⟩ := hslice
    have hbefore : before.length = db.replSeq := by omega
    obtain ⟨_, hfold⟩ := h
    rw [List.append_assoc, ← hbefore, List.take_left] at hfold
    rw [heq]
    refine ⟨?_, ?_⟩
    · change b.lastSeq ≤ _
      simp only [List.length_append]
      omega
    · change S.sql.applyAll x ((before ++ b.changes ++ after).take b.lastSeq) = some contents
      rw [hlast, ← List.length_append, List.take_left, S.sql.applyAll_append, hfold]
      exact happly

/-- The database after a call is that of an apply that ran through, or the one
before it. -/
theorem applyCall_fst (S : Setup δ κ) (db : Database δ κ) (b : Batch κ)
    (fault : Option Fault) :
    (applyCall S db b fault).1 = db ∨
      (applyCall S db b fault).1 = (Ha.applyChangesetBatch S db b).1 := by
  cases fault with
  | none => exact .inr rfl
  | some fault =>
      cases fault with
      | atCommit => exact .inl rfl
      | afterCommit => exact .inr rfl

/-- A call with an outcome is an apply that ran through. -/
theorem applyCall_some {fault : Option Fault} {outcome : ApplyOutcome}
    (h : (applyCall S db b fault).2 = some outcome) :
    applyCall S db b fault = ((Ha.applyChangesetBatch S db b).1, some outcome) ∧
      (Ha.applyChangesetBatch S db b).2 = outcome := by
  cases fault with
  | none => exact ⟨Prod.ext rfl h, Option.some.inj h⟩
  | some fault =>
      cases fault with
      | atCommit => cases h
      | afterCommit => exact ⟨Prod.ext rfl h, Option.some.inj (Option.ite_none_left_eq_some.mp h).2⟩

/-- A rejected batch and a duplicate change nothing. -/
theorem applyCall_refused {fault : Option Fault} {outcome : ApplyOutcome}
    (h : (applyCall S db b fault).2 = some outcome) (hrefused : outcome.isApplied = false) :
    (applyCall S db b fault).1 = db := by
  obtain ⟨hcall, hout⟩ := applyCall_some h
  rw [hcall]
  rcases applyChangesetBatch_cases S db b with ⟨hsame, _⟩ | ⟨_, _, _, contents, _, heq⟩
  · exact hsame
  · rw [heq] at hout
    rw [← hout] at hrefused
    cases hrefused

/-- A call that fails changes nothing, unless it failed behind its commit; then
the batch is in, and a second delivery of it is a duplicate. -/
theorem applyCall_failed {fault : Option Fault} (h : (applyCall S db b fault).2 = none) :
    (applyCall S db b fault).1 = db ∨
      (fault = some .afterCommit ∧ (applyCall S db b fault).1.replSeq = b.lastSeq ∧
        (Ha.applyChangesetBatch S (applyCall S db b fault).1 b).2 = .duplicate) := by
  cases fault with
  | none => cases h
  | some fault =>
      cases fault with
      | atCommit => exact .inl rfl
      | afterCommit =>
          rcases applyChangesetBatch_cases S db b with ⟨hsame, _⟩ |
            ⟨_, _, hschema, contents, _, heq⟩
          · exact .inl hsame
          · have hdb : (applyCall S db b (some .afterCommit)).1 =
                { db with
                  version := ⟨contents, db.version.history ++ b.changes⟩
                  replSeq := b.lastSeq } := congrArg Prod.fst heq
            rw [hdb]
            exact .inr ⟨rfl, rfl, by simp [Ha.applyChangesetBatch, hschema]⟩

end Apply

/-! ## Runs -/

section Runs

variable {S : Setup δ κ} {me : NodeId} {x : δ} {s s' : Replay δ κ}

/-- Consecutive numbers stay consecutive on both sides of a cut. -/
theorem numbered_split {jobs : List (Job κ)} {n : Nat}
    (h : jobs.map Job.seq = List.range' n jobs.length) (count : Nat) :
    (jobs.take count).map Job.seq = List.range' n (jobs.take count).length ∧
      (jobs.drop count).map Job.seq =
        List.range' (n + (jobs.take count).length) (jobs.drop count).length := by
  have hlength : jobs.length = (jobs.take count).length + (jobs.drop count).length := by
    rw [← List.length_append, List.take_append_drop]
  have hjoined : (jobs.take count).map Job.seq ++ (jobs.drop count).map Job.seq =
      List.range' n (jobs.take count).length ++
        List.range' (n + (jobs.take count).length) (jobs.drop count).length := by
    rw [← List.map_append, List.take_append_drop, h, List.range'_append_1, ← hlength]
  exact List.append_inj hjoined (by simp)

structure Streamed (S : Setup δ κ) (x : δ) (s : Replay δ κ) : Prop where
  sent : ∀ b ∈ s.sent, Slice s.stream b.firstSeq b.lastSeq b.changes
  queue : ∃ taken, s.stream = taken ++ s.queue.map Job.change ∧
    s.queue.map Job.seq = List.range' (taken.length + 1) s.queue.length
  sizes : ∀ c ∈ s.stream, 0 < S.sql.bytes c
  standby : FoldOf S x s.stream s.standby

theorem Streamed.commit (h : Streamed S x s) {c : κ} (hc : 0 < S.sql.bytes c) :
    Streamed S x { s with
      stream := s.stream ++ [c]
      queue := s.queue ++ [⟨s.stream.length + 1, c⟩] } := by
  obtain ⟨taken, hstream, hseqs⟩ := h.queue
  constructor
  · exact fun b hb => (h.sent b hb).append _
  · refine ⟨taken, ?_, ?_⟩
    · change s.stream ++ [c] = _
      rw [List.map_append, ← List.append_assoc, ← hstream]
      rfl
    · have hlength : s.stream.length = taken.length + s.queue.length := by
        rw [hstream, List.length_append, List.length_map]
      rw [List.map_append, hseqs, List.length_append, List.length_singleton,
        List.range'_1_concat, hlength]
      simp [Nat.add_right_comm]
  · intro d hd
    rcases List.mem_append.mp hd with hold | hnew
    · exact h.sizes d hold
    · rwa [List.mem_singleton.mp hnew]
  · exact h.standby.append _

theorem Streamed.window (h : Streamed S x s) (count epoch : Nat) (schema : Int) :
    Streamed S x { s with
      queue := s.queue.drop count
      sent := s.sent ++ (recut S.sql S.maxChangesetBytes (s.queue.take count)).map
        fun c => c.batch me epoch schema } := by
  obtain ⟨taken, hstream, hseqs⟩ := h.queue
  have hsplit : s.stream = taken ++ (s.queue.take count).map Job.change ++
      (s.queue.drop count).map Job.change := by
    rw [List.append_assoc, ← List.map_append, List.take_append_drop, hstream]
  obtain ⟨hfirst, hrest⟩ := numbered_split hseqs count
  constructor
  · intro b hb
    rcases List.mem_append.mp hb with hold | hnew
    · exact h.sent b hold
    · obtain ⟨c, hc, rfl⟩ := List.mem_map.mp hnew
      have hslice := recut_slices hfirst (fun d hd => h.sizes d (by
        rw [hsplit]
        exact List.mem_append_left _ (List.mem_append_right _ hd))) c hc
      change Slice s.stream _ _ _
      rw [hsplit]
      exact hslice.append _
  · refine ⟨taken ++ (s.queue.take count).map Job.change, hsplit, ?_⟩
    change (s.queue.drop count).map Job.seq = _
    rw [hrest, List.length_append, List.length_map, Nat.add_right_comm]
  · exact h.sizes
  · exact h.standby

theorem Streamed.step (h : Streamed S x s) {e : ReplayEvent κ}
    (hstep : replayStep S me s e = some s') : Streamed S x s' := by
  cases e with
  | commit c =>
      unfold replayStep at hstep
      dsimp only at hstep
      split at hstep
      · rename_i hsize
        obtain rfl := Option.some.inj hstep
        exact h.commit hsize.1
      · obtain rfl := Option.some.inj hstep
        exact h
  | window count epoch schema =>
      obtain ⟨_, hsent⟩ := Option.ite_none_right_eq_some.mp hstep
      obtain rfl := Option.some.inj hsent
      exact h.window count epoch schema
  | cut skip count epoch schema =>
      obtain ⟨⟨_, hle⟩, hsent⟩ := Option.ite_none_right_eq_some.mp hstep
      obtain rfl := Option.some.inj hsent
      refine { h with sent := ?_ }
      intro b hb
      rcases List.mem_append.mp hb with hold | hnew
      · exact h.sent b hold
      · rw [List.mem_singleton.mp hnew]
        exact slice_of_cut hle
  | deliver i fault =>
      obtain ⟨b, hb, rfl⟩ := Option.map_eq_some_iff.mp hstep
      have hslice := h.sent b (List.mem_of_getElem? hb)
      refine { h with standby := ?_ }
      rcases applyCall_fst S s.standby b fault with hsame | happlied
      · change FoldOf S x s.stream (applyCall S s.standby b fault).1
        rw [hsame]
        exact h.standby
      · change FoldOf S x s.stream (applyCall S s.standby b fault).1
        rw [happlied]
        exact h.standby.applyChangesetBatch hslice

/-- In every run, after every call the standby holds the fold of the changesets
up to its number; a refused call leaves it, and so does a failing one whose
commit is not behind it. -/
theorem single_stream_apply {v : Version δ κ} {schema : Int} {es : List (ReplayEvent κ)}
    (hrun : Runs (ReplayStep S me)
      { standby := { version := v, schema := schema } } es s') :
    FoldOf S v.contents s'.stream s'.standby ∧
    ∀ (b : Batch κ) (fault : Option Fault),
      (∀ outcome, (applyCall S s'.standby b fault).2 = some outcome →
        outcome.isApplied = false → (applyCall S s'.standby b fault).1 = s'.standby) ∧
      ((applyCall S s'.standby b fault).2 = none →
        (applyCall S s'.standby b fault).1 = s'.standby ∨
        (fault = some .afterCommit ∧
          (applyCall S s'.standby b fault).1.replSeq = b.lastSeq ∧
          (applyChangesetBatch S (applyCall S s'.standby b fault).1 b).2 = .duplicate)) := by
  have hstart : Streamed S v.contents { standby := { version := v, schema := schema } } := by
    constructor
    · intro b hb
      cases hb
    · exact ⟨[], rfl, rfl⟩
    · intro c hc
      cases hc
    · exact ⟨Nat.le_refl 0, rfl⟩
  have hstreamed := hrun.invariant (Streamed S v.contents)
    (fun h hstep => h.step hstep) hstart
  refine ⟨hstreamed.standby, ?_⟩
  intro b fault
  exact ⟨fun outcome h hrefused => applyCall_refused h hrefused, applyCall_failed⟩

end Runs

/-- Two jobs in one window, an overlapping cut that is refused, a fault at the
commit, and the window delivered again after it. -/
def overlapping : List (ReplayEvent (Nat × Nat)) :=
  [.commit (0, 1), .commit (1, 2), .window 2 1 0, .commit (2, 5), .cut 1 2 1 0,
   .deliver 1 none, .deliver 0 (some .atCommit), .deliver 0 none, .deliver 0 none,
   .deliver 1 none, .cut 2 1 1 0, .deliver 2 (some .afterCommit), .deliver 2 none]

theorem single_stream_apply_overlapping : ∃ s : Replay Nat (Nat × Nat),
    s.standby.replSeq = 3 ∧
      threeNodes.sql.applyAll 0 (s.stream.take 3) = some s.standby.version.contents := by
  have hsome : (overlapping.foldlM (replayStep threeNodes "a")
      { standby := { version := ⟨0, []⟩ } }).any (fun s => s.standby.replSeq == 3) = true := by
    decide
  obtain ⟨s, hs, hseq⟩ := (Option.any_eq_true _ _).mp hsome
  have hfold := (single_stream_apply (Runs.of_foldlM hs)).1.2
  rw [beq_iff_eq.mp hseq] at hfold
  exact ⟨s, beq_iff_eq.mp hseq, hfold⟩

/-- An apply whose last statement fails reports an error and has moved on. -/
theorem failed_apply_is_applied : ¬ ∀ (S : Setup Nat (Nat × Nat)) (me : NodeId)
    (v : Version Nat (Nat × Nat)) (es : List (ReplayEvent (Nat × Nat)))
    (s : Replay Nat (Nat × Nat)) (b : Batch (Nat × Nat)) (fault : Option Fault),
    Runs (ReplayStep S me) { standby := { version := v } } es s → b ∈ s.sent →
    (applyCall S s.standby b fault).2 = none →
    (applyCall S s.standby b fault).1 = s.standby := by
  intro h
  have hrun : Runs (ReplayStep threeNodes "a") { standby := { version := ⟨0, []⟩ } }
      [.commit (0, 1), .window 1 1 0]
      { stream := [(0, 1)]
        sent := [shipped "a" 1 1 (0, 1)]
        standby := { version := ⟨0, []⟩ } } :=
    .next rfl (.next rfl (.refl _))
  have hsame := h threeNodes "a" ⟨0, []⟩ _ _ _ (some .afterCommit) hrun
    (List.mem_singleton_self _) (by decide)
  revert hsame
  decide

end AgentGrid.Ha
