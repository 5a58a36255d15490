import Mathlib.Data.List.Sort
import AgentGrid.Foundation.Transition
import AgentGrid.Store.EventLog
import AgentGrid.Node.Payload

/-!
# The event sink of an attempt

`push` takes its sequence number first, waits for the spool write and appends
to the buffer after it.  `flush`, `flush_quick` and `drain_outbox` hold the
send gate one at a time; each takes the buffer or the spool, sorts it and
posts it chunk by chunk.  Pushes and senders are cut at their awaits.
-/

namespace AgentGrid.Node

open AgentGrid.Foundation AgentGrid.Store

/-- A `push` past its allocation.  A `notice` is buffered even when the spool
refuses it. -/
inductive Push
  | writing (e : SinkEvent) (notice : Bool)
  | buffering (e : SinkEvent)

def Push.event : Push → SinkEvent
  | .writing e _ => e
  | .buffering e => e

inductive SendPath
  | flush | flushQuick | drainOutbox
deriving DecidableEq

/-- The holder of the send gate: the chunks still to send, and the sequences
of a delivered chunk until they are dropped from the spool. -/
structure Sender where
  path : SendPath
  chunks : List (List SinkEvent)
  acking : Option (List Nat) := none

/-- `rows` are the events of the attempt that the control plane has stored,
in ingest order. -/
structure Sink where
  bufCapBytes : Nat
  buf : List SinkEvent := []
  bufBytes : Nat := 0
  next : Nat := 1
  usage : Usage := {}
  truncatedWarned : Bool := false
  droppedCount : Nat := 0
  droppedBytes : Nat := 0
  spoolFull : Bool := false
  spool : List SinkEvent := []
  pushes : Nat → Option Push := fun _ => none
  sender : Option Sender := none
  rows : List TaskEvent := []
  ingestCounter : Int := 0

inductive WriteResult
  | ok
  | spoolFull
  | failed (onDisk : Bool)

/-- What comes of posting a chunk: stored and answered, stored with the answer
lost, or not stored. -/
inductive PostOutcome
  | accepted | replyLost | refused
deriving DecidableEq

inductive SinkOp
  | push (i : Nat) (type : EventType) (payload : Json)
  | budgetExceeded (i : Nat) (field : String)
  | written (i : Nat) (result : WriteResult)
  | buffered (i : Nat)
  | take (path : SendPath)
  | send (outcome : PostOutcome) (now : String)
  | acked (ok : Bool)
  | reread
  | stop

namespace Sink

def setPush (s : Sink) (i : Nat) (p : Option Push) : Sink :=
  { s with pushes := fun k => if k = i then p else s.pushes k }

def allocate (s : Sink) (i : Nat) (type : EventType) (payload : Json) (notice : Bool) :
    Sink :=
  { s with next := s.next + 1 }.setPush i (some (.writing ⟨s.next, type, payload⟩ notice))

end Sink

def droppable : EventType → Bool
  | .stdout | .stderr | .metric => true
  | _ => false

def truncatedNotice (cap droppedCount droppedBytes : Nat) : Json :=
  .object [("event", .string "output_truncated"), ("reason", .string "event buffer over cap"),
    ("cap_bytes", .unsigned cap), ("dropped_count", .unsigned droppedCount),
    ("dropped_bytes", .unsigned droppedBytes)]

def spoolFullError : Json :=
  .object [("error_code", .string "spool_full"),
    ("error", .string "event outbox spool full; attempt failed to avoid data loss")]

def budgetExceededError (usage : Usage) (field : String) : Json :=
  .object [("error_code", .string "budget_exceeded"), ("field", .string field),
    ("tokens_total", .unsigned usage.tokensTotal), ("cost_total", .unsigned usage.costTotal),
    ("error", .string ("per-task cost ceiling breached (" ++ field ++ "); attempt killed"))]

/-- `push` up to its first await. -/
def beginPush (s : Sink) (i : Nat) (type : EventType) (payload : Json) : Sink :=
  let (usage, payload) := countUsage s.usage type payload
  let s := { s with usage := usage }
  if droppable type && decide (s.bufCapBytes ≤ s.bufBytes) then
    let s := { s with
      droppedCount := s.droppedCount + 1
      droppedBytes := s.droppedBytes + payload.bytes }
    if s.truncatedWarned then s
    else { s with truncatedWarned := true }.allocate i .status
      (truncatedNotice s.bufCapBytes s.droppedCount s.droppedBytes) true
  else if s.spoolFull then s
  else s.allocate i type payload false

/-- The spool write of a push has ended. -/
def finishWrite (s : Sink) (i : Nat) (e : SinkEvent) (notice : Bool) :
    WriteResult → Sink
  | .spoolFull =>
      if notice then
        { s with bufBytes := s.bufBytes + e.payload.bytes }.setPush i (some (.buffering e))
      else if s.spoolFull then s.setPush i none
      else { s with spoolFull := true }.allocate i .error spoolFullError true
  | .ok =>
      { s with
        spool := s.spool ++ [e]
        bufBytes := s.bufBytes + e.payload.bytes }.setPush i (some (.buffering e))
  | .failed onDisk =>
      { s with
        spool := if onDisk then s.spool ++ [e] else s.spool
        bufBytes := s.bufBytes + e.payload.bytes }.setPush i (some (.buffering e))

def inSequenceOrder (events : List SinkEvent) : List SinkEvent :=
  events.insertionSort fun e e' => e.sequence ≤ e'.sequence

/-- What a sender takes: the buffer, or for `drain_outbox` the spool. -/
def Sink.source (s : Sink) : SendPath → List SinkEvent
  | .drainOutbox => s.spool
  | _ => s.buf

def takeBatch (env : BatchEnv) (s : Sink) (path : SendPath) : Sink :=
  let batch := inSequenceOrder (s.source path)
  { s with
    buf := if path = .drainOutbox then s.buf else []
    sender := if batch.isEmpty then none
      else some { path := path, chunks := splitBatch env batch } }

def SinkEvent.incoming (e : SinkEvent) : IncomingEvent :=
  ⟨e.sequence, e.type, String.ofList e.payload.text⟩

/-- `ingest_events` stores a chunk that reaches it. -/
def Sink.store (s : Sink) (attemptId now : String) (chunk : List SinkEvent) : Sink :=
  { s with
    rows := (insertEvents attemptId now s.rows (s.ingestCounter + 1)
      (chunk.map SinkEvent.incoming)).1
    ingestCounter := s.ingestCounter + chunk.length }

def sendChunk (s : Sink) (attemptId now : String) (sender : Sender)
    (chunk : List SinkEvent) (rest : List (List SinkEvent)) (outcome : PostOutcome) : Sink :=
  let s := if outcome = .refused then s else s.store attemptId now chunk
  if outcome = .accepted then
    { s with
      bufBytes := if sender.path = .drainOutbox then s.bufBytes
        else s.bufBytes - (chunk.map fun e => e.payload.bytes).sum
      sender := some { sender with
        chunks := rest
        acking := some (chunk.map SinkEvent.sequence) } }
  else
    { s with
      buf := if sender.path = .drainOutbox then s.buf else chunk ++ rest.flatten ++ s.buf
      sender := none }

def finishAck (s : Sink) (sender : Sender) (seqs : List Nat) (ok : Bool) : Sink :=
  { s with
    spool := if ok then s.spool.filter fun e => !seqs.contains e.sequence else s.spool
    sender := if sender.chunks.isEmpty && decide (sender.path ≠ .drainOutbox) then none
      else some { sender with acking := none } }

def sinkStep (env : BatchEnv) (attemptId : String) (s : Sink) : SinkOp → Option Sink
  | .push i type payload =>
      if (s.pushes i).isSome then none else some (beginPush s i type payload)
  | .budgetExceeded i field =>
      if (s.pushes i).isSome then none
      else some (s.allocate i .error (budgetExceededError s.usage field) true)
  | .written i result =>
      match s.pushes i with
      | some (.writing e notice) => some (finishWrite s i e notice result)
      | _ => none
  | .buffered i =>
      match s.pushes i with
      | some (.buffering e) => some ({ s with buf := s.buf ++ [e] }.setPush i none)
      | _ => none
  | .take path => if s.sender.isSome then none else some (takeBatch env s path)
  | .send outcome now =>
      match s.sender with
      | some sender =>
          match sender.acking, sender.chunks with
          | none, chunk :: rest =>
              some (sendChunk s attemptId now sender chunk rest outcome)
          | _, _ => none
      | none => none
  | .acked ok =>
      match s.sender with
      | some sender => sender.acking.map fun seqs => finishAck s sender seqs ok
      | none => none
  | .reread =>
      match s.sender with
      | some ⟨.drainOutbox, [], none⟩ => some (takeBatch env s .drainOutbox)
      | _ => none
  | .stop =>
      match s.sender with
      | some ⟨.drainOutbox, _, none⟩ => some { s with sender := none }
      | _ => none

def SinkStep (env : BatchEnv) (attemptId : String) (s : Sink) (op : SinkOp) (s' : Sink) :
    Prop :=
  sinkStep env attemptId s op = some s'

/-! ## What a sender may leave behind -/

namespace Sink

/-- The sequences of the batch the sender still has to send. -/
def hand (s : Sink) : List Nat :=
  match s.sender with
  | none => []
  | some sender => sender.chunks.flatten.map SinkEvent.sequence

/-- The sequences waiting in a push, the buffer or the spool. -/
def Waiting (s : Sink) (q : Nat) : Prop :=
  (∃ i p, s.pushes i = some p ∧ p.event.sequence = q) ∨
    q ∈ s.buf.map SinkEvent.sequence ∨ q ∈ s.spool.map SinkEvent.sequence

def Stored (s : Sink) (q : Nat) : Prop := ∃ r ∈ s.rows, r.sequence = q

/-- No undelivered event that is waiting elsewhere comes before one of these. -/
def Whole (s : Sink) (source : List SinkEvent) : Prop :=
  ∀ e ∈ source, ∀ q, s.Waiting q → ¬ s.Stored q → q < e.sequence →
    q ∈ source.map SinkEvent.sequence

end Sink

/-- Whenever a sender takes its batch, every undelivered event with a lower
sequence than one in the batch is in the batch too. -/
def SinkOp.Whole (s : Sink) : SinkOp → Prop
  | .take path => s.Whole (s.source path)
  | .reread => s.Whole s.spool
  | _ => True

/-! ## The stored order -/

def InOrder (r r' : TaskEvent) : Prop :=
  r.sequence < r'.sequence ∧ r.ingestId < r'.ingestId

/-- A sorted batch whose events are stored already or above every stored one
extends an ordered table. -/
theorem insertEvents_inOrder (attemptId now : String) (events : List IncomingEvent)
    (rows : List TaskEvent) (first : Int)
    (hattempt : ∀ r ∈ rows, r.attemptId = attemptId) (hrows : rows.Pairwise InOrder)
    (hfirst : ∀ r ∈ rows, r.ingestId < first)
    (hevents : events.Pairwise fun e e' => e.sequence ≤ e'.sequence)
    (habove : ∀ e ∈ events, (∃ r ∈ rows, r.sequence = e.sequence) ∨
      ∀ r ∈ rows, r.sequence < e.sequence) :
    let rows' := (insertEvents attemptId now rows first events).1
    rows'.Pairwise InOrder ∧
      (∀ r ∈ rows', r.attemptId = attemptId ∧ r.ingestId < first + events.length) ∧
      ∀ q, (∃ r ∈ rows', r.sequence = q) ↔
        (∃ r ∈ rows, r.sequence = q) ∨ ∃ e ∈ events, e.sequence = q := by
  induction events generalizing rows first with
  | nil =>
      refine ⟨hrows, ?_, by simp [insertEvents]⟩
      intro r hr
      simpa using ⟨hattempt r hr, hfirst r hr⟩
  | cons ev events ih =>
      rw [List.pairwise_cons] at hevents
      have hstored_iff : (rows.any fun r => r.attemptId == attemptId &&
          r.sequence == ev.sequence) = true ↔ ∃ r ∈ rows, r.sequence = ev.sequence := by
        rw [List.any_eq_true]
        constructor
        · rintro ⟨r, hr, heq⟩
          exact ⟨r, hr, by simpa using (Bool.and_eq_true_iff.mp heq).2⟩
        · rintro ⟨r, hr, heq⟩
          exact ⟨r, hr, by simp [hattempt r hr, heq]⟩
      dsimp only
      rw [insertEvents]
      split
      · rename_i hstored
        have hold := hstored_iff.mp hstored
        obtain ⟨hsorted, hnew, hmem⟩ := ih rows (first + 1) hattempt hrows
          (fun r hr => by have := hfirst r hr; omega) hevents.2
          (fun e he => habove e (List.mem_cons_of_mem _ he))
        refine ⟨hsorted, ?_, ?_⟩
        · intro r hr
          obtain ⟨hid, hlt⟩ := hnew r hr
          exact ⟨hid, by rw [List.length_cons]; push_cast; omega⟩
        · intro q
          rw [hmem]
          constructor
          · rintro (hrow | ⟨e, he, heq⟩)
            · exact .inl hrow
            · exact .inr ⟨e, List.mem_cons_of_mem _ he, heq⟩
          · rintro (hrow | ⟨e, he, heq⟩)
            · exact .inl hrow
            · rcases List.mem_cons.mp he with rfl | hlater
              · exact .inl (heq ▸ hold)
              · exact .inr ⟨e, hlater, heq⟩
      · rename_i hfresh
        have hlow : ∀ r ∈ rows, r.sequence < ev.sequence :=
          (habove ev List.mem_cons_self).resolve_left fun h => hfresh (hstored_iff.mpr h)
        obtain ⟨hsorted, hnew, hmem⟩ := ih
          (rows ++ [⟨attemptId, ev.sequence, ev.type, ev.payload, now, first⟩]) (first + 1)
          (by
            intro r hr
            rcases List.mem_append.mp hr with hold | hlast
            · exact hattempt r hold
            · rw [List.mem_singleton.mp hlast])
          (by
            rw [List.pairwise_append]
            refine ⟨hrows, List.pairwise_singleton .., ?_⟩
            intro r hr r' hr'
            rw [List.mem_singleton.mp hr']
            exact ⟨hlow r hr, hfirst r hr⟩)
          (by
            intro r hr
            rcases List.mem_append.mp hr with hold | hlast
            · have := hfirst r hold
              omega
            · rw [List.mem_singleton.mp hlast]
              dsimp only
              omega)
          hevents.2
          (by
            intro e he
            have hle := hevents.1 e he
            rcases habove e (List.mem_cons_of_mem _ he) with ⟨r, hr, heq⟩ | hall
            · exact .inl ⟨r, List.mem_append_left _ hr, heq⟩
            · by_cases heq : ev.sequence = e.sequence
              · exact .inl ⟨_, List.mem_append_right _ (List.mem_singleton_self _), heq⟩
              · right
                intro r hr
                rcases List.mem_append.mp hr with hold | hlast
                · exact hall r hold
                · rw [List.mem_singleton.mp hlast]
                  dsimp only
                  omega)
        refine ⟨hsorted, ?_, ?_⟩
        · intro r hr
          obtain ⟨hid, hlt⟩ := hnew r hr
          exact ⟨hid, by rw [List.length_cons]; push_cast; omega⟩
        · intro q
          rw [hmem]
          simp only [List.mem_append, List.mem_cons, List.not_mem_nil, or_false]
          constructor
          · rintro (⟨r, hold | rfl, heq⟩ | ⟨e, he, heq⟩)
            · exact .inl ⟨r, hold, heq⟩
            · exact .inr ⟨ev, .inl rfl, heq⟩
            · exact .inr ⟨e, .inr he, heq⟩
          · rintro (⟨r, hold, heq⟩ | ⟨e, rfl | he, heq⟩)
            · exact .inl ⟨r, .inl hold, heq⟩
            · exact .inl ⟨_, .inr rfl, heq⟩
            · exact .inr ⟨e, he, heq⟩

def Sink.Live (s : Sink) (q : Nat) : Prop := q ∈ s.hand ∨ s.Waiting q

structure Ordered (attemptId : String) (s : Sink) : Prop where
  inOrder : s.rows.Pairwise InOrder
  counted : ∀ r ∈ s.rows, r.attemptId = attemptId ∧ r.ingestId ≤ s.ingestCounter ∧
    r.sequence < s.next
  bound : ∀ q, s.Live q → q < s.next
  above : ∀ q, s.Live q → ¬ s.Stored q → ∀ r ∈ s.rows, r.sequence < q
  hand_sorted : s.hand.Pairwise (· ≤ ·)
  clear : ∀ q, s.Live q → ¬ s.Stored q → q ∉ s.hand → ∀ h ∈ s.hand, h < q

section Steps

variable {attemptId : String} {s s' : Sink}

/-- A step that stores nothing and takes no batch. -/
theorem Ordered.idle (h : Ordered attemptId s) (hrows : s'.rows = s.rows)
    (hcounter : s'.ingestCounter = s.ingestCounter) (hnext : s.next ≤ s'.next)
    (hlive : ∀ q, s'.Live q → s.Live q ∨ (s.next ≤ q ∧ q < s'.next))
    (hhand : s'.hand.Sublist s.hand)
    (hleft : s'.hand = [] ∨ ∀ q ∈ s.hand, q ∉ s'.hand → s.Stored q) :
    Ordered attemptId s' := by
  have hstored : ∀ q, s'.Stored q ↔ s.Stored q := by
    intro q
    rw [Sink.Stored, Sink.Stored, hrows]
  constructor
  · rw [hrows]
    exact h.inOrder
  · intro r hr
    rw [hrows] at hr
    obtain ⟨hid, hingest, hseq⟩ := h.counted r hr
    exact ⟨hid, by omega, by omega⟩
  · intro q hq
    rcases hlive q hq with hold | hnew
    · have := h.bound q hold
      omega
    · exact hnew.2
  · intro q hq hfresh r hr
    rw [hrows] at hr
    rcases hlive q hq with hold | hnew
    · exact h.above q hold (fun hs => hfresh ((hstored q).mpr hs)) r hr
    · have := (h.counted r hr).2.2
      omega
  · exact h.hand_sorted.sublist hhand
  · intro q hq hfresh hout k hk
    have hfresh' : ¬ s.Stored q := fun hs => hfresh ((hstored q).mpr hs)
    have hkold := hhand.subset hk
    rcases hlive q hq with hold | hnew
    · refine h.clear q hold hfresh' ?_ k hkold
      intro hin
      rcases hleft with hnil | hall
      · rw [hnil] at hk
        cases hk
      · exact hfresh' (hall q hin hout)
    · have := h.bound k (.inl hkold)
      omega

/-- A sender takes a batch that leaves nothing undelivered below it. -/
theorem Ordered.take (h : Ordered attemptId s) (env : BatchEnv) (path : SendPath)
    (hwhole : s.Whole (s.source path)) :
    Ordered attemptId (takeBatch env s path) := by
  have hhand : (takeBatch env s path).hand =
      (inSequenceOrder (s.source path)).map SinkEvent.sequence := by
    simp only [takeBatch, Sink.hand]
    cases hbatch : inSequenceOrder (s.source path) with
    | nil => rfl
    | cons e batch => simp [splitBatch_flatten]
  have hmem : ∀ q, q ∈ (takeBatch env s path).hand ↔
      q ∈ (s.source path).map SinkEvent.sequence := by
    intro q
    rw [hhand, inSequenceOrder]
    simp
  have hsource : ∀ q, q ∈ (s.source path).map SinkEvent.sequence → s.Waiting q := by
    intro q hq
    cases path with
    | flush => exact .inr (.inl hq)
    | flushQuick => exact .inr (.inl hq)
    | drainOutbox => exact .inr (.inr hq)
  have hwaiting : ∀ q, (takeBatch env s path).Waiting q → s.Waiting q := by
    rintro q (hpush | hbuf | hspool)
    · exact .inl hpush
    · simp only [takeBatch] at hbuf
      split at hbuf
      · exact .inr (.inl hbuf)
      · cases hbuf
    · exact .inr (.inr hspool)
  have hlive : ∀ q, (takeBatch env s path).Live q → s.Waiting q := by
    rintro q (hin | hwait)
    · exact hsource q ((hmem q).mp hin)
    · exact hwaiting q hwait
  constructor
  · exact h.inOrder
  · exact h.counted
  · intro q hq
    exact h.bound q (.inr (hlive q hq))
  · intro q hq hfresh
    exact h.above q (.inr (hlive q hq)) hfresh
  · rw [hhand, List.pairwise_map]
    exact List.pairwise_insertionSort (r := fun e e' : SinkEvent => e.sequence ≤ e'.sequence) _
  · intro q hq hfresh hout k hk
    obtain ⟨e, he, rfl⟩ := List.mem_map.mp ((hmem k).mp hk)
    have hne : q ≠ e.sequence := by
      rintro rfl
      exact hout hk
    have hnot : ¬ q < e.sequence := by
      intro hlt
      exact hout ((hmem q).mpr (hwhole e he q (hlive q hq) hfresh hlt))
    omega

/-- The first chunk of the batch is stored. -/
theorem Ordered.store (h : Ordered attemptId s) (now : String) {chunk : List SinkEvent}
    {rest : List Nat} (hhand : s.hand = chunk.map SinkEvent.sequence ++ rest) :
    Ordered attemptId (s.store attemptId now chunk) ∧
      ∀ q ∈ chunk.map SinkEvent.sequence, (s.store attemptId now chunk).Stored q := by
  have hchunk : ∀ e ∈ chunk, e.sequence ∈ s.hand := by
    intro e he
    rw [hhand]
    exact List.mem_append_left _ (List.mem_map_of_mem he)
  have hsorted := h.hand_sorted
  rw [hhand, List.pairwise_append] at hsorted
  obtain ⟨hsortedRows, hnew, hmem⟩ := insertEvents_inOrder attemptId now
    (chunk.map SinkEvent.incoming) s.rows (s.ingestCounter + 1)
    (fun r hr => (h.counted r hr).1) h.inOrder
    (fun r hr => by have := (h.counted r hr).2.1; omega)
    (by
      rw [List.pairwise_map]
      have hpairs := hsorted.1
      rw [List.pairwise_map] at hpairs
      refine hpairs.imp ?_
      intro e e' hle
      simpa [SinkEvent.incoming] using hle)
    (by
      intro ev hev
      obtain ⟨e, he, rfl⟩ := List.mem_map.mp hev
      by_cases hs : s.Stored e.sequence
      · exact .inl hs
      · exact .inr (h.above e.sequence (.inl (hchunk e he)) hs))
  have hstored : ∀ q, (s.store attemptId now chunk).Stored q ↔
      s.Stored q ∨ q ∈ chunk.map SinkEvent.sequence := by
    intro q
    rw [Sink.Stored, Sink.store, hmem]
    simp [Sink.Stored, SinkEvent.incoming]
  refine ⟨?_, fun q hq => (hstored q).mpr (.inr hq)⟩
  have hrow : ∀ r ∈ (s.store attemptId now chunk).rows,
      (∃ r' ∈ s.rows, r'.sequence = r.sequence) ∨
        ∃ e ∈ chunk, (e.sequence : Int) = r.sequence := by
    intro r hr
    simpa [SinkEvent.incoming] using (hmem r.sequence).mp ⟨r, hr, rfl⟩
  constructor
  · exact hsortedRows
  · intro r hr
    obtain ⟨hid, hlt⟩ := hnew r hr
    rw [List.length_map] at hlt
    refine ⟨hid, ?_, ?_⟩
    · change r.ingestId ≤ s.ingestCounter + chunk.length
      omega
    · change r.sequence < (s.next : Int)
      rcases hrow r hr with ⟨r', hr', heq⟩ | ⟨e, he, heq⟩
      · have := (h.counted r' hr').2.2
        omega
      · have := h.bound e.sequence (.inl (hchunk e he))
        omega
  · exact h.bound
  · intro q hq hfresh r hr
    have hq : s.Live q := hq
    rw [hstored, not_or] at hfresh
    rcases hrow r hr with ⟨r', hr', heq⟩ | ⟨e, he, heq⟩
    · have := h.above q hq hfresh.1 r' hr'
      omega
    · have hlt : e.sequence < q := by
        by_cases hin : q ∈ s.hand
        · rw [hhand] at hin
          have hrest := (List.mem_append.mp hin).resolve_left hfresh.2
          have hle := hsorted.2.2 e.sequence (List.mem_map_of_mem he) q hrest
          have hne : e.sequence ≠ q := by
            rintro rfl
            exact hfresh.2 (List.mem_map_of_mem he)
          omega
        · exact h.clear q hq hfresh.1 hin e.sequence (hchunk e he)
      omega
  · exact h.hand_sorted
  · intro q hq hfresh hout
    rw [hstored, not_or] at hfresh
    exact h.clear q hq hfresh.1 hout

/-- A push allocates the next sequence. -/
theorem Ordered.allocate (h : Ordered attemptId s) (i : Nat) (type : EventType)
    (payload : Json) (notice : Bool) :
    Ordered attemptId (s.allocate i type payload notice) := by
  refine h.idle rfl rfl (Nat.le_succ _) ?_ (List.Sublist.refl _) (.inr ?_)
  · rintro q (hin | ⟨k, p, hk, rfl⟩ | hbuf)
    · exact .inl (.inl hin)
    · by_cases hki : k = i
      · right
        have hp : Push.writing ⟨s.next, type, payload⟩ notice = p := by
          simpa [Sink.allocate, Sink.setPush, hki] using hk
        rw [← hp]
        change s.next ≤ s.next ∧ s.next < s.next + 1
        omega
      · exact .inl (.inr (.inl ⟨k, p, by simpa [Sink.allocate, Sink.setPush, hki] using hk, rfl⟩))
    · exact .inl (.inr (.inr hbuf))
  · intro q hin hout
    exact absurd hin hout

/-- A step that leaves the sender, the store and the counter alone and brings no
event that was not waiting. -/
theorem Ordered.quiet (h : Ordered attemptId s) (hrows : s'.rows = s.rows)
    (hcounter : s'.ingestCounter = s.ingestCounter) (hnext : s'.next = s.next)
    (hsender : s'.sender = s.sender) (hwaiting : ∀ q, s'.Waiting q → s.Waiting q) :
    Ordered attemptId s' := by
  have hhand : s'.hand = s.hand := by
    rw [Sink.hand, hsender]
    rfl
  refine h.idle hrows hcounter hnext.ge ?_ (by rw [hhand]) (.inr ?_)
  · rintro q (hin | hwait)
    · exact .inl (.inl (hhand ▸ hin))
    · exact .inl (.inr (hwaiting q hwait))
  · intro q hin hout
    exact absurd (hhand ▸ hin) hout

theorem Ordered.beginPush (h : Ordered attemptId s) (i : Nat) (type : EventType)
    (payload : Json) : Ordered attemptId (beginPush s i type payload) := by
  have hsame : ∀ s' : Sink, s'.rows = s.rows → s'.ingestCounter = s.ingestCounter →
      s'.next = s.next → s'.sender = s.sender → s'.pushes = s.pushes → s'.buf = s.buf →
      s'.spool = s.spool → Ordered attemptId s' := by
    intro s' hrows hcounter hnext hsender hpushes hbuf hspool
    refine h.quiet hrows hcounter hnext hsender ?_
    intro q hq
    rw [Sink.Waiting, hpushes, hbuf, hspool] at hq
    exact hq
  unfold Node.beginPush
  dsimp only
  split
  · split
    · exact hsame _ rfl rfl rfl rfl rfl rfl rfl
    · apply Ordered.allocate
      exact hsame _ rfl rfl rfl rfl rfl rfl rfl
  · split
    · exact hsame _ rfl rfl rfl rfl rfl rfl rfl
    · apply Ordered.allocate
      exact hsame _ rfl rfl rfl rfl rfl rfl rfl

/-- The event of push `i` moves on, to the buffer or the spool as well. -/
private theorem waiting_moved {i : Nat} {p : Push} {next : Option Push}
    (hp : s.pushes i = some p)
    (hpushes : s'.pushes = fun k => if k = i then next else s.pushes k)
    (hnext : ∀ p', next = some p' → p'.event = p.event)
    (hbuf : ∀ q ∈ s'.buf.map SinkEvent.sequence,
      q ∈ s.buf.map SinkEvent.sequence ∨ q = p.event.sequence)
    (hspool : ∀ q ∈ s'.spool.map SinkEvent.sequence,
      q ∈ s.spool.map SinkEvent.sequence ∨ q = p.event.sequence) :
    ∀ q, s'.Waiting q → s.Waiting q := by
  have hown : s.Waiting p.event.sequence := .inl ⟨i, p, hp, rfl⟩
  rintro q (⟨k, p', hk, rfl⟩ | hin | hin)
  · rw [hpushes] at hk
    dsimp only at hk
    split at hk
    · rw [hnext p' hk]
      exact hown
    · exact .inl ⟨k, p', hk, rfl⟩
  · rcases hbuf q hin with hold | rfl
    · exact .inr (.inl hold)
    · exact hown
  · rcases hspool q hin with hold | rfl
    · exact .inr (.inr hold)
    · exact hown

theorem Ordered.finishWrite (h : Ordered attemptId s) {i : Nat} {e : SinkEvent}
    {notice : Bool} (hp : s.pushes i = some (.writing e notice)) (result : WriteResult) :
    Ordered attemptId (finishWrite s i e notice result) := by
  have hmove : ∀ (spool : List SinkEvent) (bytes : Nat),
      (∀ q ∈ spool.map SinkEvent.sequence,
        q ∈ s.spool.map SinkEvent.sequence ∨ q = e.sequence) →
      Ordered attemptId ({ s with spool := spool, bufBytes := bytes }.setPush i
        (some (.buffering e))) := by
    intro spool bytes hspool
    refine h.quiet rfl rfl rfl rfl (waiting_moved hp rfl ?_ (fun q hq => .inl hq) hspool)
    intro p' hp'
    obtain rfl := Option.some.inj hp'
    rfl
  have happend : ∀ q ∈ (s.spool ++ [e]).map SinkEvent.sequence,
      q ∈ s.spool.map SinkEvent.sequence ∨ q = e.sequence := by
    intro q hq
    simpa using hq
  cases result with
  | ok => exact hmove _ _ happend
  | failed onDisk =>
      cases onDisk with
      | true => exact hmove _ _ happend
      | false => exact hmove _ _ fun q hq => .inl hq
  | spoolFull =>
      simp only [Node.finishWrite]
      split
      · exact hmove _ _ fun q hq => .inl hq
      · split
        · refine h.quiet rfl rfl rfl rfl (waiting_moved hp rfl ?_ (fun q hq => .inl hq)
            fun q hq => .inl hq)
          intro p' hp'
          cases hp'
        · apply Ordered.allocate
          refine h.quiet rfl rfl rfl rfl ?_
          intro q hq
          exact hq

theorem Ordered.buffered (h : Ordered attemptId s) {i : Nat} {e : SinkEvent}
    (hp : s.pushes i = some (.buffering e)) :
    Ordered attemptId ({ s with buf := s.buf ++ [e] }.setPush i none) := by
  refine h.quiet rfl rfl rfl rfl (waiting_moved hp rfl ?_ ?_ fun q hq => .inl hq)
  · intro p' hp'
    cases hp'
  · intro q hq
    simpa [Sink.setPush, Push.event] using hq

/-- The batch goes back to the buffer, or is left to the spool. -/
theorem Ordered.giveUp (h : Ordered attemptId s) (buf : List SinkEvent)
    (hbuf : ∀ q ∈ buf.map SinkEvent.sequence,
      q ∈ s.hand ∨ q ∈ s.buf.map SinkEvent.sequence) :
    Ordered attemptId { s with buf := buf, sender := none } := by
  refine h.idle rfl rfl (Nat.le_refl _) ?_ (List.nil_sublist _) (.inl rfl)
  rintro q (hin | hpush | hin | hspool)
  · cases hin
  · exact .inl (.inr (.inl hpush))
  · rcases hbuf q hin with hhand | hold
    · exact .inl (.inl hhand)
    · exact .inl (.inr (.inr (.inl hold)))
  · exact .inl (.inr (.inr (.inr hspool)))

theorem Ordered.sendChunk (h : Ordered attemptId s) {sender : Sender}
    {chunk : List SinkEvent} {rest : List (List SinkEvent)}
    (hsender : s.sender = some sender) (hchunks : sender.chunks = chunk :: rest)
    (outcome : PostOutcome) (now : String) :
    Ordered attemptId (sendChunk s attemptId now sender chunk rest outcome) := by
  have hhand : s.hand = chunk.map SinkEvent.sequence ++
      rest.flatten.map SinkEvent.sequence := by
    simp [Sink.hand, hsender, hchunks]
  obtain ⟨hstored, hchunk⟩ := h.store now hhand
  have hback : ∀ t : Sink, Ordered attemptId t → t.hand = s.hand → t.buf = s.buf →
      Ordered attemptId { t with
        buf := if sender.path = .drainOutbox then s.buf else chunk ++ rest.flatten ++ s.buf
        sender := none } := by
    intro t ht hthand htbuf
    refine ht.giveUp _ ?_
    intro q hq
    split at hq
    · rw [htbuf]
      exact .inr hq
    · rw [List.map_append, List.map_append, List.mem_append, ← hhand] at hq
      rw [hthand, htbuf]
      exact hq
  cases outcome with
  | refused => exact hback s h rfl rfl
  | replyLost => exact hback _ hstored rfl rfl
  | accepted =>
      refine hstored.idle rfl rfl (Nat.le_refl _) ?_ ?_ (.inr ?_)
      · rintro q (hin | hwait)
        · left
          left
          change q ∈ s.hand
          rw [hhand]
          exact List.mem_append_right _ hin
        · exact .inl (.inr hwait)
      · change (rest.flatten.map SinkEvent.sequence).Sublist s.hand
        rw [hhand]
        exact List.sublist_append_right _ _
      · intro q hin hout
        have hin : q ∈ s.hand := hin
        rw [hhand] at hin
        exact hchunk q ((List.mem_append.mp hin).resolve_right hout)

theorem Ordered.finishAck (h : Ordered attemptId s) {sender : Sender}
    (hsender : s.sender = some sender) (seqs : List Nat) (ok : Bool) :
    Ordered attemptId (finishAck s sender seqs ok) := by
  have hspool : ∀ q ∈ ((Node.finishAck s sender seqs ok).spool).map SinkEvent.sequence,
      q ∈ s.spool.map SinkEvent.sequence := by
    intro q hq
    obtain ⟨e, he, rfl⟩ := List.mem_map.mp hq
    simp only [Node.finishAck] at he
    split at he
    · exact List.mem_map_of_mem (List.mem_filter.mp he).1
    · exact List.mem_map_of_mem he
  have hhand : (Node.finishAck s sender seqs ok).hand = s.hand := by
    simp only [Node.finishAck, Sink.hand, hsender]
    split
    · rename_i hnone
      split at hnone
      · rename_i hlast
        have hnil : sender.chunks = [] := by
          simpa using (Bool.and_eq_true_iff.mp hlast).1
        simp [hnil]
      · cases hnone
    · rename_i hsome
      split at hsome
      · cases hsome
      · obtain rfl := Option.some.inj hsome
        rfl
  refine h.idle rfl rfl (Nat.le_refl _) ?_ (by rw [hhand]) (.inr ?_)
  · rintro q (hin | hpush | hbuf | hin)
    · exact .inl (.inl (hhand ▸ hin))
    · exact .inl (.inr (.inl hpush))
    · exact .inl (.inr (.inr (.inl hbuf)))
    · exact .inl (.inr (.inr (.inr (hspool q hin))))
  · intro q hin hout
    exact absurd (hhand ▸ hin) hout

theorem ordered_step {env : BatchEnv} {op : SinkOp} (h : Ordered attemptId s)
    (hstep : During (SinkStep env attemptId) SinkOp.Whole s op s') :
    Ordered attemptId s' := by
  obtain ⟨hstep, hwhole⟩ := hstep
  rw [SinkStep] at hstep
  cases op with
  | push i type payload =>
      simp only [sinkStep] at hstep
      split at hstep
      · cases hstep
      · obtain rfl := Option.some.inj hstep
        exact h.beginPush i type payload
  | budgetExceeded i field =>
      simp only [sinkStep] at hstep
      split at hstep
      · cases hstep
      · obtain rfl := Option.some.inj hstep
        exact h.allocate i _ _ _
  | written i result =>
      simp only [sinkStep] at hstep
      split at hstep
      · rename_i e notice hp
        obtain rfl := Option.some.inj hstep
        exact h.finishWrite hp result
      · cases hstep
  | buffered i =>
      simp only [sinkStep] at hstep
      split at hstep
      · rename_i e hp
        obtain rfl := Option.some.inj hstep
        exact h.buffered hp
      · cases hstep
  | take path =>
      simp only [sinkStep] at hstep
      split at hstep
      · cases hstep
      · obtain rfl := Option.some.inj hstep
        exact h.take env path hwhole
  | send outcome now =>
      simp only [sinkStep] at hstep
      split at hstep
      · rename_i sender hsender
        split at hstep
        · rename_i chunk rest _ hchunks
          obtain rfl := Option.some.inj hstep
          exact h.sendChunk hsender hchunks outcome now
        · cases hstep
      · cases hstep
  | acked ok =>
      simp only [sinkStep] at hstep
      split at hstep
      · rename_i sender hsender
        obtain ⟨seqs, _, rfl⟩ := Option.map_eq_some_iff.mp hstep
        exact h.finishAck hsender seqs ok
      · cases hstep
  | reread =>
      simp only [sinkStep] at hstep
      split at hstep
      · obtain rfl := Option.some.inj hstep
        exact h.take env .drainOutbox hwhole
      · cases hstep
  | stop =>
      simp only [sinkStep] at hstep
      split at hstep
      · obtain rfl := Option.some.inj hstep
        exact h.giveUp s.buf fun q hq => .inr hq
      · cases hstep

theorem ordered_initial (attemptId : String) (cap : Nat) :
    Ordered attemptId { bufCapBytes := cap } := by
  have hlive : ∀ q, ¬ Sink.Live { bufCapBytes := cap } q := by
    rintro q (hin | ⟨i, p, hp, _⟩ | hin | hin)
    · cases hin
    · cases hp
    · cases hin
    · cases hin
  constructor
  · exact .nil
  · intro r hr
    cases hr
  · intro q hq
    exact absurd hq (hlive q)
  · intro q hq
    exact absurd hq (hlive q)
  · exact .nil
  · intro q hq
    exact absurd hq (hlive q)

end Steps

/-- In every run whose senders never take a batch while an undelivered event
below it waits elsewhere, the events are stored in sequence order. -/
theorem delivered_in_sequence_order {env : BatchEnv} {attemptId : String} {cap : Nat}
    {ops : List SinkOp} {s : Sink}
    (h : Runs (During (SinkStep env attemptId) SinkOp.Whole) { bufCapBytes := cap } ops s) :
    s.rows.Pairwise fun r r' => r.sequence < r'.sequence ∧ r.ingestId < r'.ingestId := by
  have hordered : Ordered attemptId s :=
    h.invariant (Ordered attemptId) ordered_step (ordered_initial attemptId cap)
  exact hordered.inOrder

def overtaken : List SinkOp :=
  [.push 0 .status .null, .push 1 .stdout .null, .written 1 .ok, .buffered 1]

/-- The second push reaches the buffer first and both are sent in one batch. -/
theorem delivered_in_sequence_order_overtaken :
    ∃ s, Runs (During (SinkStep {} "a") SinkOp.Whole) { bufCapBytes := 100 }
      (overtaken ++ [SinkOp.written 0 .ok, .buffered 0, .take .flush, .send .accepted "t1"]) s ∧
      s.rows.map TaskEvent.sequence = [1, 2] ∧
      s.rows.Pairwise fun r r' => r.sequence < r'.sequence ∧ r.ingestId < r'.ingestId := by
  have hrun : ∃ s, Runs (During (SinkStep {} "a") SinkOp.Whole) { bufCapBytes := 100 }
      (overtaken ++ [SinkOp.written 0 .ok, .buffered 0, .take .flush, .send .accepted "t1"]) s ∧
      s.rows.map TaskEvent.sequence = [1, 2] := by
    refine ⟨_, .next ⟨rfl, trivial⟩ (.next ⟨rfl, trivial⟩ (.next ⟨rfl, trivial⟩
      (.next ⟨rfl, trivial⟩ (.next ⟨rfl, trivial⟩ (.next ⟨rfl, trivial⟩ (.next ⟨rfl, ?_⟩
        (.next ⟨rfl, trivial⟩ (.refl _)))))))), by decide⟩
    rintro e _ q (⟨i, p, hp, _⟩ | hin | hin) _ _
    · obtain _ | _ | i := i
      all_goals
        change none = some p at hp
        cases hp
    · exact hin
    · exact hin
  obtain ⟨s, hrun, hrows⟩ := hrun
  exact ⟨s, hrun, hrows, delivered_in_sequence_order hrun⟩

/-- The batch is taken while the first push still waits for its spool write. -/
theorem delivered_out_of_order : ¬ ∀ (env : BatchEnv) (attemptId : String) (cap : Nat)
    (ops : List SinkOp) (s : Sink),
    Runs (SinkStep env attemptId) { bufCapBytes := cap } ops s →
    s.rows.Pairwise fun r r' => r.sequence < r'.sequence ∧ r.ingestId < r'.ingestId := by
  intro h
  let ops := overtaken ++ [SinkOp.take .flush, .send .accepted "t1", .acked true, .written 0 .ok,
    .buffered 0, .take .flush, .send .accepted "t2"]
  have hends : ((ops.foldlM (sinkStep {} "a") { bufCapBytes := 100 }).map fun s =>
      s.rows.map TaskEvent.sequence) = some [2, 1] := by
    decide
  obtain ⟨s, hrun, hrows⟩ := Option.map_eq_some_iff.mp hends
  have hsorted := (h {} "a" 100 ops s (Runs.of_foldlM hrun)).imp fun hlt => hlt.1
  rw [← List.pairwise_map (f := TaskEvent.sequence), hrows] at hsorted
  revert hsorted
  decide

end AgentGrid.Node
