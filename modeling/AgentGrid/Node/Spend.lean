import AgentGrid.Node.EventSink
import AgentGrid.Node.MetricPayload
import AgentGrid.Store.MetricSums

/-!
# Spend

The totals a sink keeps of tokens and cost against the sums the control plane
computes over the stored metric events.  A book keeps what a run of a sink has
allocated and what it has dropped, for the proofs only.
-/

namespace AgentGrid.Node

open AgentGrid.Foundation AgentGrid.Store

/-- Tokens and cents. -/
abbrev Spend : Type := Nat × Nat

def Usage.total (usage : Usage) : Spend := (usage.tokensTotal, usage.costTotal)

/-- What the control plane is to count for an event. -/
def SinkEvent.spend (e : SinkEvent) : Spend :=
  if e.type = .metric then (e.payload.count "tokens", e.payload.count "cost_cents") else 0

/-- The increment of a push. -/
def increment (usage : Usage) (type : EventType) (payload : Json) : Spend :=
  if type = .metric then (metricDelta usage payload).2 else 0

namespace Sink

/-- A push that ends before it allocates a sequence. -/
def refuses (s : Sink) (type : EventType) : Bool :=
  (droppable type && decide (s.bufCapBytes ≤ s.bufBytes)) || s.spoolFull

/-- The event that push `i` is about to write. -/
def opening (s : Sink) (i : Nat) : List SinkEvent :=
  match s.pushes i with
  | some (.writing e _) => [e]
  | _ => []

/-- Everything has been sent. -/
structure Settled (s : Sink) : Prop where
  pushes : ∀ i, s.pushes i = none
  buf : s.buf = []
  sender : s.sender = none

end Sink

/-- A sink with the events in their spool write, the events past it, and what
was dropped for a full buffer or a full spool. -/
structure SpendBook where
  sink : Sink
  writing : List SinkEvent := []
  kept : List SinkEvent := []
  dropped : Spend := 0

def SpendBook.record (b : SpendBook) (op : SinkOp) (sink : Sink) : SpendBook :=
  match op with
  | .push i type payload =>
      { b with
        sink := sink
        writing := b.writing ++ sink.opening i
        dropped := if b.sink.refuses type then b.dropped + increment b.sink.usage type payload
          else b.dropped }
  | .budgetExceeded i _ => { b with sink := sink, writing := b.writing ++ sink.opening i }
  | .written i result =>
      match b.sink.pushes i, result with
      | some (.writing e false), .spoolFull =>
          { b with
            sink := sink
            writing := b.writing.filter (fun w => w.sequence != e.sequence) ++ sink.opening i
            dropped := b.dropped + e.spend }
      | some (.writing e _), _ =>
          { b with
            sink := sink
            writing := b.writing.filter fun w => w.sequence != e.sequence
            kept := b.kept ++ [e] }
      | _, _ => { b with sink := sink }
  | _ => { b with sink := sink }

def spendStep (env : BatchEnv) (attemptId : String) (b : SpendBook) (op : SinkOp) : Option SpendBook :=
  (sinkStep env attemptId b.sink op).map (b.record op)

def SpendStep (env : BatchEnv) (attemptId : String) (b : SpendBook) (op : SinkOp) (b' : SpendBook) : Prop :=
  spendStep env attemptId b op = some b'

/-- A metric payload that is pushed has unsigned counters. -/
def SinkOp.Metered : SinkOp → Prop
  | .push _ type payload => type = .metric → payload.Metric
  | _ => True

/-- A metric event with a payload that can be counted. -/
def SinkEvent.Readable (e : SinkEvent) : Prop :=
  e.type = .metric → ∃ tokens cost, e.payload.Bills tokens cost

/-- The row is of this event. -/
def Records (r : TaskEvent) (e : SinkEvent) : Prop :=
  r.sequence = e.sequence ∧ r.type = e.type ∧ r.payload = String.ofList e.payload.text

namespace Sink

/-- The events a sink may still send, or send again. -/
def Holds (s : Sink) (e : SinkEvent) : Prop :=
  (∃ i, s.pushes i = some (.buffering e)) ∨ e ∈ s.buf ∨ e ∈ s.spool ∨
    ∃ sender, s.sender = some sender ∧ e ∈ sender.chunks.flatten

/-- The events that will be sent from memory. -/
def Owes (s : Sink) (e : SinkEvent) : Prop :=
  (∃ i, s.pushes i = some (.buffering e)) ∨ e ∈ s.buf ∨
    ∃ sender, s.sender = some sender ∧ sender.path ≠ .drainOutbox ∧ e ∈ sender.chunks.flatten

end Sink

/-- The kept events are stored or on their way, and the rows are of kept events. -/
structure Delivers (attemptId : String) (kept : List SinkEvent) (s : Sink) : Prop where
  holds : ∀ e, s.Holds e → e ∈ kept
  owes : ∀ e ∈ kept, s.Owes e ∨ s.Stored e.sequence
  rows : ∀ r ∈ s.rows, r.attemptId = attemptId ∧ ∃ e ∈ kept, Records r e
  once : (s.rows.map TaskEvent.sequence).Nodup

section Delivery

variable {attemptId : String} {kept : List SinkEvent} {s s' : Sink}

/-- A step that stores nothing, holds no more than before and owes no less. -/
theorem Delivers.idle (h : Delivers attemptId kept s) (hrows : s'.rows = s.rows)
    (hholds : ∀ e, s'.Holds e → s.Holds e) (howes : ∀ e, s.Owes e → s'.Owes e ∨ s.Stored e.sequence) :
    Delivers attemptId kept s' := by
  have hstored : ∀ q, s'.Stored q ↔ s.Stored q := by
    intro q
    rw [Sink.Stored, Sink.Stored, hrows]
  refine ⟨fun e he => h.holds e (hholds e he), ?_, by rw [hrows]; exact h.rows,
    by rw [hrows]; exact h.once⟩
  intro e he
  rw [hstored]
  rcases h.owes e he with howed | hold
  · exact howes e howed
  · exact .inr hold

/-- The event of a push has left its spool write. -/
theorem Delivers.keep (h : Delivers attemptId kept s) {e : SinkEvent} {i : Nat}
    (hrows : s'.rows = s.rows) (hbuf : s'.buf = s.buf) (hsender : s'.sender = s.sender)
    (hspool : ∀ e' ∈ s'.spool, e' ∈ s.spool ∨ e' = e)
    (hpushes : s'.pushes = fun k => if k = i then some (.buffering e) else s.pushes k)
    (hi : ∀ e', s.pushes i ≠ some (.buffering e')) : Delivers attemptId (kept ++ [e]) s' := by
  have hstored : ∀ q, s'.Stored q ↔ s.Stored q := by
    intro q
    rw [Sink.Stored, Sink.Stored, hrows]
  have hpush : s'.pushes i = some (.buffering e) := by
    rw [hpushes]
    exact if_pos rfl
  refine ⟨?_, ?_, ?_, by rw [hrows]; exact h.once⟩
  · rintro e' (⟨k, hk⟩ | hin | hin | hin)
    · rw [hpushes] at hk
      dsimp only at hk
      by_cases hki : k = i
      · rw [if_pos hki] at hk
        cases hk
        simp
      · rw [if_neg hki] at hk
        exact List.mem_append_left _ (h.holds e' (.inl ⟨k, hk⟩))
    · rw [hbuf] at hin
      exact List.mem_append_left _ (h.holds e' (.inr (.inl hin)))
    · rcases hspool e' hin with hold | rfl
      · exact List.mem_append_left _ (h.holds e' (.inr (.inr (.inl hold))))
      · simp
    · rw [hsender] at hin
      exact List.mem_append_left _ (h.holds e' (.inr (.inr (.inr hin))))
  · intro e' he'
    rw [hstored]
    rcases List.mem_append.mp he' with hold | hnew
    · rcases h.owes e' hold with (⟨k, hk⟩ | hin | hin) | hs
      · have hki : k ≠ i := by
          rintro rfl
          exact hi e' hk
        exact .inl (.inl ⟨k, by rw [hpushes]; exact (if_neg hki).trans hk⟩)
      · exact .inl (.inr (.inl (hbuf ▸ hin)))
      · exact .inl (.inr (.inr (hsender ▸ hin)))
      · exact .inr hs
    · rw [List.mem_singleton.mp hnew]
      exact .inl (.inl ⟨i, hpush⟩)
  · rw [hrows]
    intro r hr
    obtain ⟨hid, e', he', hrecords⟩ := h.rows r hr
    exact ⟨hid, e', List.mem_append_left _ he', hrecords⟩

/-- A batch is stored: each of its events once. -/
theorem insertEvents_once (attemptId now : String) (events : List IncomingEvent)
    (rows : List TaskEvent) (first : Int) (hattempt : ∀ r ∈ rows, r.attemptId = attemptId)
    (hrows : (rows.map TaskEvent.sequence).Nodup) :
    let rows' := (insertEvents attemptId now rows first events).1
    (rows'.map TaskEvent.sequence).Nodup ∧ (∀ r ∈ rows, r ∈ rows') ∧
      (∀ ev ∈ events, ∃ r ∈ rows', r.sequence = ev.sequence) ∧
      ∀ r ∈ rows', r ∈ rows ∨ r.attemptId = attemptId ∧
        ∃ ev ∈ events, r.sequence = ev.sequence ∧ r.type = ev.type ∧ r.payload = ev.payload := by
  induction events generalizing rows first with
  | nil => exact ⟨hrows, fun r hr => hr, by simp, fun r hr => .inl hr⟩
  | cons ev events ih =>
      dsimp only
      rw [insertEvents]
      split
      · rename_i hstored
        obtain ⟨r, hr, hsame⟩ := List.any_eq_true.mp hstored
        have hsequence : r.sequence = ev.sequence := eq_of_beq (Bool.and_eq_true_iff.mp hsame).2
        obtain ⟨honce, hold, hnew, hall⟩ := ih rows (first + 1) hattempt hrows
        refine ⟨honce, hold, ?_, ?_⟩
        · intro ev' hev'
          rcases List.mem_cons.mp hev' with rfl | hev'
          · exact ⟨r, hold r hr, hsequence⟩
          · exact hnew ev' hev'
        · intro r hr
          rcases hall r hr with hr | ⟨hid, ev', hev', hrow⟩
          · exact .inl hr
          · exact .inr ⟨hid, ev', List.mem_cons_of_mem _ hev', hrow⟩
      · rename_i hfresh
        generalize hrow : (⟨attemptId, ev.sequence, ev.type, ev.payload, now, first⟩ : TaskEvent) =
          row
        have hfresh : ∀ r ∈ rows, r.sequence ≠ ev.sequence := by
          intro r hr heq
          exact hfresh (List.any_eq_true.mpr ⟨r, hr, by simp [hattempt r hr, heq]⟩)
        obtain ⟨honce, hold, hnew, hall⟩ := ih (rows ++ [row]) (first + 1)
          (by
            intro r hr
            rcases List.mem_append.mp hr with hr | hr
            · exact hattempt r hr
            · rw [List.mem_singleton.mp hr, ← hrow])
          (by
            rw [List.map_append, List.map_singleton, List.nodup_append]
            refine ⟨hrows, List.nodup_singleton _, ?_⟩
            intro q hq q' hq'
            obtain ⟨r, hr, rfl⟩ := List.mem_map.mp hq
            rw [List.mem_singleton.mp hq', ← hrow]
            exact hfresh r hr)
        refine ⟨honce, fun r hr => hold r (List.mem_append_left _ hr), ?_, ?_⟩
        · intro ev' hev'
          rcases List.mem_cons.mp hev' with rfl | hev'
          · exact ⟨row, hold row (by simp), by rw [← hrow]⟩
          · exact hnew ev' hev'
        · intro r hr
          rcases hall r hr with hr | ⟨hid, ev', hev', hrow'⟩
          · rcases List.mem_append.mp hr with hr | hr
            · exact .inl hr
            · right
              rw [List.mem_singleton.mp hr, ← hrow]
              exact ⟨rfl, ev, List.mem_cons_self, rfl, rfl, rfl⟩
          · exact .inr ⟨hid, ev', List.mem_cons_of_mem _ hev', hrow'⟩

/-- A chunk of kept events is stored. -/
theorem Delivers.store (h : Delivers attemptId kept s) (now : String) {chunk : List SinkEvent}
    (hchunk : ∀ e ∈ chunk, e ∈ kept) :
    Delivers attemptId kept (s.store attemptId now chunk) ∧
      ∀ e ∈ chunk, (s.store attemptId now chunk).Stored e.sequence := by
  obtain ⟨honce, hold, hnew, hall⟩ := insertEvents_once attemptId now
    (chunk.map SinkEvent.incoming) s.rows (s.ingestCounter + 1) (fun r hr => (h.rows r hr).1) h.once
  have hstored : ∀ q, s.Stored q → (s.store attemptId now chunk).Stored q := by
    rintro q ⟨r, hr, hq⟩
    exact ⟨r, hold r hr, hq⟩
  refine ⟨⟨h.holds, ?_, ?_, honce⟩, ?_⟩
  · intro e he
    rcases h.owes e he with howed | hs
    · exact .inl howed
    · exact .inr (hstored _ hs)
  · intro r hr
    rcases hall r hr with hr | ⟨hid, ev, hev, hrow⟩
    · exact h.rows r hr
    · obtain ⟨e, he, rfl⟩ := List.mem_map.mp hev
      exact ⟨hid, e, hchunk e he, hrow⟩
  · intro e he
    exact hnew _ (List.mem_map_of_mem he)

/-- A push that begins or ends its spool write with nothing to keep. -/
theorem Delivers.repush (h : Delivers attemptId kept s) {i : Nat} {next : Option Push}
    (hrows : s'.rows = s.rows) (hbuf : s'.buf = s.buf) (hsender : s'.sender = s.sender)
    (hspool : s'.spool = s.spool)
    (hpushes : s'.pushes = fun k => if k = i then next else s.pushes k)
    (hold : ∀ e, s.pushes i ≠ some (.buffering e)) (hnew : ∀ e, next ≠ some (.buffering e)) :
    Delivers attemptId kept s' := by
  refine h.idle hrows ?_ ?_
  · rintro e (⟨k, hk⟩ | hin | hin | hin)
    · rw [hpushes] at hk
      dsimp only at hk
      by_cases hki : k = i
      · rw [if_pos hki] at hk
        exact absurd hk (hnew e)
      · rw [if_neg hki] at hk
        exact .inl ⟨k, hk⟩
    · exact .inr (.inl (hbuf ▸ hin))
    · exact .inr (.inr (.inl (hspool ▸ hin)))
    · exact .inr (.inr (.inr (hsender ▸ hin)))
  · rintro e (⟨k, hk⟩ | hin | hin)
    · have hki : k ≠ i := by
        rintro rfl
        exact hold e hk
      exact .inl (.inl ⟨k, by rw [hpushes]; exact (if_neg hki).trans hk⟩)
    · exact .inl (.inr (.inl (hbuf ▸ hin)))
    · exact .inl (.inr (.inr (hsender ▸ hin)))

theorem Delivers.allocate (h : Delivers attemptId kept s) {i : Nat}
    (hi : ∀ e, s.pushes i ≠ some (.buffering e)) (type : EventType) (payload : Json)
    (notice : Bool) : Delivers attemptId kept (s.allocate i type payload notice) :=
  h.repush rfl rfl rfl rfl rfl hi (by simp)

theorem Delivers.beginPush (h : Delivers attemptId kept s) {i : Nat} (hi : s.pushes i = none)
    (type : EventType) (payload : Json) :
    Delivers attemptId kept (beginPush s i type payload) := by
  have hsame : ∀ t : Sink, t.rows = s.rows → t.buf = s.buf → t.sender = s.sender →
      t.spool = s.spool → t.pushes = s.pushes → Delivers attemptId kept t := by
    intro t hrows hbuf hsender hspool hpushes
    refine h.idle hrows ?_ ?_
    · intro e he
      rwa [Sink.Holds, hpushes, hbuf, hspool, hsender] at he
    · intro e he
      left
      rwa [Sink.Owes, hpushes, hbuf, hsender]
  unfold Node.beginPush
  dsimp only
  split
  · split
    · exact hsame _ rfl rfl rfl rfl rfl
    · apply Delivers.allocate _ (by simp [hi])
      exact hsame _ rfl rfl rfl rfl rfl
  · split
    · exact hsame _ rfl rfl rfl rfl rfl
    · apply Delivers.allocate _ (by simp [hi])
      exact hsame _ rfl rfl rfl rfl rfl

theorem Delivers.buffered (h : Delivers attemptId kept s) {i : Nat} {e : SinkEvent}
    (hi : s.pushes i = some (.buffering e)) :
    Delivers attemptId kept ({ s with buf := s.buf ++ [e] }.setPush i none) := by
  refine h.idle rfl ?_ ?_
  · rintro e' (⟨k, hk⟩ | hin | hin | hin)
    · simp only [Sink.setPush] at hk
      split at hk
      · cases hk
      · exact .inl ⟨k, hk⟩
    · rcases List.mem_append.mp hin with hin | hin
      · exact .inr (.inl hin)
      · rw [List.mem_singleton.mp hin]
        exact .inl ⟨i, hi⟩
    · exact .inr (.inr (.inl hin))
    · exact .inr (.inr (.inr hin))
  · rintro e' (⟨k, hk⟩ | hin | hin)
    · by_cases hki : k = i
      · rw [hki, hi] at hk
        cases hk
        exact .inl (.inr (.inl (List.mem_append_right _ List.mem_cons_self)))
      · exact .inl (.inl ⟨k, (if_neg hki).trans hk⟩)
    · exact .inl (.inr (.inl (List.mem_append_left _ hin)))
    · exact .inl (.inr (.inr hin))

/-- A sender takes its batch where no other owes anything. -/
theorem Delivers.take (h : Delivers attemptId kept s) (env : BatchEnv) (path : SendPath)
    (hidle : ∀ sender, s.sender = some sender → sender.path = .drainOutbox) :
    Delivers attemptId kept (takeBatch env s path) := by
  have hsource : ∀ e ∈ s.source path, s.Holds e := by
    intro e he
    cases path with
    | drainOutbox => exact .inr (.inr (.inl he))
    | flush => exact .inr (.inl he)
    | flushQuick => exact .inr (.inl he)
  have hbatch : ∀ e, e ∈ (splitBatch env (inSequenceOrder (s.source path))).flatten ↔
      e ∈ s.source path := by
    intro e
    rw [splitBatch_flatten, inSequenceOrder, List.mem_insertionSort]
  have hsender : (takeBatch env s path).sender =
      if (inSequenceOrder (s.source path)).isEmpty then none
      else some { path := path, chunks := splitBatch env (inSequenceOrder (s.source path)) } := rfl
  refine h.idle rfl ?_ ?_
  · rintro e (hin | hin | hin | ⟨sender, hin, he⟩)
    · exact .inl hin
    · simp only [takeBatch] at hin
      split at hin
      · exact .inr (.inl hin)
      · cases hin
    · exact .inr (.inr (.inl hin))
    · rw [hsender] at hin
      split at hin
      · cases hin
      · cases hin
        exact hsource e ((hbatch e).mp he)
  · rintro e (hin | hin | ⟨sender, hin, hpath, -⟩)
    · exact .inl (.inl hin)
    · left
      by_cases hpath : path = .drainOutbox
      · exact .inr (.inl (by simpa [takeBatch, hpath] using hin))
      · have hmem : e ∈ s.source path := by
          cases path with
          | drainOutbox => exact absurd rfl hpath
          | flush => exact hin
          | flushQuick => exact hin
        have hne : (inSequenceOrder (s.source path)).isEmpty = false := by
          rw [List.isEmpty_eq_false_iff, inSequenceOrder]
          exact List.ne_nil_of_mem ((List.mem_insertionSort _).mpr hmem)
        rw [hne] at hsender
        exact .inr (.inr ⟨_, hsender, hpath, (hbatch e).mpr hmem⟩)
    · exact absurd (hidle sender hin) hpath

/-- A sender gives its batch up, and what it owes goes back to the buffer. -/
theorem Delivers.giveUp (h : Delivers attemptId kept s) (buf : List SinkEvent)
    (hbuf : ∀ e ∈ buf, s.Holds e) (hkept : ∀ e ∈ s.buf, e ∈ buf)
    (hback : ∀ sender, s.sender = some sender → sender.path ≠ .drainOutbox →
      ∀ e ∈ sender.chunks.flatten, e ∈ buf) :
    Delivers attemptId kept { s with buf := buf, sender := none } := by
  refine h.idle rfl ?_ ?_
  · rintro e (hin | hin | hin | ⟨sender, hin, -⟩)
    · exact .inl hin
    · exact hbuf e hin
    · exact .inr (.inr (.inl hin))
    · cases hin
  · rintro e (hin | hin | ⟨sender, hin, hpath, he⟩)
    · exact .inl (.inl hin)
    · exact .inl (.inr (.inl (hkept e hin)))
    · exact .inl (.inr (.inl (hback sender hin hpath e he)))

theorem Delivers.sendChunk (h : Delivers attemptId kept s) {sender : Sender}
    {chunk : List SinkEvent} {rest : List (List SinkEvent)}
    (hsender : s.sender = some sender) (hchunks : sender.chunks = chunk :: rest)
    (outcome : PostOutcome) (now : String) :
    Delivers attemptId kept (sendChunk s attemptId now sender chunk rest outcome) := by
  have hhand : ∀ e ∈ sender.chunks.flatten, s.Holds e := fun e he =>
    .inr (.inr (.inr ⟨sender, hsender, he⟩))
  have hchunk : ∀ e ∈ chunk, e ∈ kept := by
    intro e he
    apply h.holds e
    apply hhand
    rw [hchunks, List.flatten_cons]
    exact List.mem_append_left _ he
  obtain ⟨hstore, hstored⟩ := h.store now hchunk
  have hback : ∀ t : Sink, Delivers attemptId kept t → t.pushes = s.pushes → t.spool = s.spool →
      t.sender = s.sender → t.buf = s.buf →
      Delivers attemptId kept { t with
        buf := if sender.path = .drainOutbox then s.buf else chunk ++ rest.flatten ++ s.buf
        sender := none } := by
    intro t ht hpushes hspool htsender htbuf
    refine ht.giveUp _ ?_ ?_ ?_
    · intro e he
      split at he
      · exact .inr (.inl (htbuf ▸ he))
      · rcases List.mem_append.mp he with he | he
        · refine .inr (.inr (.inr ⟨sender, htsender.trans hsender, ?_⟩))
          rwa [hchunks, List.flatten_cons]
        · exact .inr (.inl (htbuf ▸ he))
    · intro e he
      rw [htbuf] at he
      split
      · exact he
      · exact List.mem_append_right _ he
    · intro sender' hsender' hpath e he
      rw [htsender, hsender] at hsender'
      cases hsender'
      rw [if_neg hpath]
      rw [hchunks, List.flatten_cons] at he
      exact List.mem_append_left _ he
  cases outcome with
  | refused => exact hback s h rfl rfl rfl rfl
  | replyLost => exact hback _ hstore rfl rfl rfl rfl
  | accepted =>
      refine hstore.idle rfl ?_ ?_
      · rintro e (hin | hin | hin | ⟨sender', hin, he⟩)
        · exact .inl hin
        · exact .inr (.inl hin)
        · exact .inr (.inr (.inl hin))
        · cases hin
          refine .inr (.inr (.inr ⟨sender, hsender, ?_⟩))
          rw [hchunks, List.flatten_cons]
          exact List.mem_append_right _ he
      · rintro e (hin | hin | ⟨sender', hin, hpath, he⟩)
        · exact .inl (.inl hin)
        · exact .inl (.inr (.inl hin))
        · have hin : s.sender = some sender' := hin
          rw [hsender] at hin
          cases hin
          rw [hchunks, List.flatten_cons] at he
          rcases List.mem_append.mp he with he | he
          · exact .inr (hstored e he)
          · exact .inl (.inr (.inr ⟨_, rfl, hpath, he⟩))

theorem Delivers.finishAck (h : Delivers attemptId kept s) {sender : Sender}
    (hsender : s.sender = some sender) (seqs : List Nat) (ok : Bool) :
    Delivers attemptId kept (finishAck s sender seqs ok) := by
  have hnext : ∀ sender', (Node.finishAck s sender seqs ok).sender = some sender' →
      sender'.path = sender.path ∧ sender'.chunks = sender.chunks := by
    intro sender' hsender'
    simp only [Node.finishAck] at hsender'
    split at hsender'
    · cases hsender'
    · cases hsender'
      exact ⟨rfl, rfl⟩
  refine h.idle rfl ?_ ?_
  · rintro e (hin | hin | hin | ⟨sender', hin, he⟩)
    · exact .inl hin
    · exact .inr (.inl hin)
    · refine .inr (.inr (.inl ?_))
      simp only [Node.finishAck] at hin
      split at hin
      · exact List.mem_of_mem_filter hin
      · exact hin
    · rw [(hnext sender' hin).2] at he
      exact .inr (.inr (.inr ⟨sender, hsender, he⟩))
  · rintro e (hin | hin | ⟨sender', hin, hpath, he⟩)
    · exact .inl (.inl hin)
    · exact .inl (.inr (.inl hin))
    · rw [hsender] at hin
      cases hin
      cases hchunks : sender.chunks with
      | nil =>
          rw [hchunks] at he
          cases he
      | cons chunk rest =>
          refine .inl (.inr (.inr ⟨{ sender with acking := none }, ?_, hpath, he⟩))
          simp [Node.finishAck, hchunks]

variable {env : BatchEnv} {b b' : SpendBook} {op : SinkOp}

theorem Delivers.finishWrite {i : Nat} {e : SinkEvent} {notice : Bool}
    (h : Delivers attemptId b.kept b.sink) (hi : b.sink.pushes i = some (.writing e notice))
    (result : WriteResult) :
    Delivers attemptId
      (b.record (.written i result) (finishWrite b.sink i e notice result)).kept
      (finishWrite b.sink i e notice result) := by
  have hold : ∀ e', b.sink.pushes i ≠ some (.buffering e') := by
    intro e' he'
    rw [hi] at he'
    cases he'
  have hspool : ∀ e' ∈ b.sink.spool ++ [e], e' ∈ b.sink.spool ∨ e' = e := by simp
  cases result with
  | ok =>
      simp only [SpendBook.record, hi]
      exact h.keep rfl rfl rfl hspool rfl hold
  | failed onDisk =>
      simp only [SpendBook.record, hi]
      cases onDisk with
      | true => exact h.keep rfl rfl rfl hspool rfl hold
      | false => exact h.keep rfl rfl rfl (fun e' he' => .inl he') rfl hold
  | spoolFull =>
      cases notice with
      | true =>
          simp only [SpendBook.record, hi]
          exact h.keep rfl rfl rfl (fun e' he' => .inl he') rfl hold
      | false =>
          simp only [SpendBook.record, hi, Node.finishWrite]
          split
          · rename_i hnotice
            cases hnotice
          · split
            · exact h.repush rfl rfl rfl rfl rfl hold (by simp)
            · exact h.repush rfl rfl rfl rfl rfl hold (by simp)

theorem delivers_step (h : Delivers attemptId b.kept b.sink)
    (hstep : SpendStep env attemptId b op b') : Delivers attemptId b'.kept b'.sink := by
  obtain ⟨sink, hsink, rfl⟩ := Option.map_eq_some_iff.mp hstep
  cases op with
  | push i type payload =>
      simp only [sinkStep] at hsink
      split at hsink
      · cases hsink
      · rename_i hnone
        cases hsink
        exact h.beginPush (by simpa using hnone) type payload
  | budgetExceeded i field =>
      simp only [sinkStep] at hsink
      split at hsink
      · cases hsink
      · rename_i hnone
        have hi : b.sink.pushes i = none := by simpa using hnone
        cases hsink
        exact h.allocate (by simp [hi]) _ _ _
  | written i result =>
      simp only [sinkStep] at hsink
      split at hsink
      · rename_i e notice hi
        cases hsink
        have hkept := h.finishWrite hi result
        have hsame : (b.record (.written i result)
            (Node.finishWrite b.sink i e notice result)).sink =
              Node.finishWrite b.sink i e notice result := by
          simp only [SpendBook.record]
          split <;> rfl
        rwa [hsame]
      · cases hsink
  | buffered i =>
      simp only [sinkStep] at hsink
      split at hsink
      · rename_i e hi
        cases hsink
        exact h.buffered hi
      · cases hsink
  | take path =>
      simp only [sinkStep] at hsink
      split at hsink
      · cases hsink
      · rename_i hnone
        have hsender : b.sink.sender = none := by simpa using hnone
        cases hsink
        exact h.take env path (by simp [hsender])
  | send outcome now =>
      simp only [sinkStep] at hsink
      split at hsink
      · rename_i sender hsender
        split at hsink
        · rename_i chunk rest _ hchunks
          cases hsink
          exact h.sendChunk hsender hchunks outcome now
        · cases hsink
      · cases hsink
  | acked ok =>
      simp only [sinkStep] at hsink
      split at hsink
      · rename_i sender hsender
        obtain ⟨seqs, _, rfl⟩ := Option.map_eq_some_iff.mp hsink
        exact h.finishAck hsender seqs ok
      · cases hsink
  | reread =>
      simp only [sinkStep] at hsink
      split at hsink
      · rename_i hsender
        cases hsink
        refine h.take env .drainOutbox ?_
        intro sender hsome
        rw [hsender] at hsome
        cases hsome
        rfl
      · cases hsink
  | stop =>
      simp only [sinkStep] at hsink
      split at hsink
      · rename_i chunks hsender
        cases hsink
        refine h.giveUp b.sink.buf (fun e he => .inr (.inl he)) (fun e he => he) ?_
        intro sender hsome hpath
        rw [hsender] at hsome
        cases hsome
        exact absurd rfl hpath
      · cases hsink

theorem delivers_initial (attemptId : String) (cap : Nat) :
    Delivers attemptId [] { bufCapBytes := cap } := by
  refine ⟨?_, by simp, by simp, List.nodup_nil⟩
  rintro e (⟨i, hi⟩ | hin | hin | ⟨sender, hin, -⟩)
  · cases hi
  · cases hin
  · cases hin
  · cases hin

end Delivery

end AgentGrid.Node
