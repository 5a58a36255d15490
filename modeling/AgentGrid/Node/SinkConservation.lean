import AgentGrid.Node.EventSink
import Mathlib.Algebra.BigOperators.Group.Multiset.Basic
import Mathlib.Tactic.Abel

/-!
# Custody of events in the sink

An event that `push` lets through, or that `requeue` brings back, waits for the
buffer, stands in it, is in the batch of the sender or has been acknowledged.  The
byte counter is raised before the event is buffered and lowered when it is
acknowledged.
-/

namespace AgentGrid.Node

open AgentGrid.Foundation AgentGrid.Store

/-- The sink with the calls of `requeue` that wait for the buffer.  `entering` names the
pushes that wait for it; with `admitted` and `acked` it is a record beside the code. -/
structure Custody where
  sink : Sink
  requeues : List (List SinkEvent) := []
  entering : List (Nat × SinkEvent) := []
  admitted : List SinkEvent := []
  acked : List SinkEvent := []

inductive CustodyOp
  | call (op : SinkOp)
  | requeue (pending : List SinkEvent)
  | requeued (k : Nat)

/-- The calls that do not read the spool. -/
def SinkOp.inRam : SinkOp → Bool
  | .take .drainOutbox => false
  | .reread => false
  | .stop => false
  | _ => true

def eventBytes (e : SinkEvent) : Nat := e.payload.bytes

def Sink.batch (s : Sink) : List SinkEvent :=
  match s.sender with
  | none => []
  | some sender => sender.chunks.flatten

/-- The event that passes the spool check by a call. -/
def Sink.admits (s : Sink) : SinkOp → List (Nat × SinkEvent)
  | .written i result =>
      match s.pushes i, result with
      | some (.writing _ false), .spoolFull => []
      | some (.writing e _), _ => [(i, e)]
      | _, _ => []
  | _ => []

/-- The pushes that wait for the buffer after a call. -/
def Sink.waits (s : Sink) (entering : List (Nat × SinkEvent)) : SinkOp → List (Nat × SinkEvent)
  | .buffered i => entering.filter fun p => p.1 ≠ i
  | op => s.admits op ++ entering

/-- The chunk that a call finds acknowledged. -/
def Sink.delivers (s : Sink) : SinkOp → List SinkEvent
  | .send .accepted _ =>
      match s.sender with
      | some ⟨_, chunk :: _, none⟩ => chunk
      | _ => []
  | _ => []

/-- `requeue` up to its await. -/
def beginRequeue (s : Sink) (pending : List SinkEvent) : Sink :=
  { s with
    next := max s.next (((pending.map SinkEvent.sequence).max?.map (· + 1)).getD 0)
    bufBytes := s.bufBytes + (pending.map eventBytes).sum }

def Custody.call (t : Custody) (op : SinkOp) (s : Sink) : Custody where
  sink := s
  requeues := t.requeues
  entering := t.sink.waits t.entering op
  admitted := t.admitted ++ (t.sink.admits op).map Prod.snd
  acked := t.acked ++ t.sink.delivers op

def custodyStep (env : BatchEnv) (attemptId : String) (t : Custody) : CustodyOp → Option Custody
  | .call op =>
      if op.inRam then (sinkStep env attemptId t.sink op).map (t.call op) else none
  | .requeue pending =>
      if pending.isEmpty then some t
      else some { t with
        sink := beginRequeue t.sink pending
        requeues := t.requeues ++ [pending]
        admitted := t.admitted ++ pending }
  | .requeued k =>
      t.requeues[k]?.map fun pending =>
        { t with
          sink := { t.sink with buf := pending ++ t.sink.buf }
          requeues := t.requeues.eraseIdx k }

def CustodyStep (env : BatchEnv) (attemptId : String) (t : Custody) (op : CustodyOp)
    (t' : Custody) : Prop :=
  custodyStep env attemptId t op = some t'

/-- The events that no answer has acknowledged, wherever they are. -/
def Custody.unacked (t : Custody) : Multiset SinkEvent :=
  (t.entering.map Prod.snd : Multiset SinkEvent) + t.requeues.flatten + t.sink.buf + t.sink.batch

/-- A sink as it is made, over what an earlier run left in the spool. -/
def Custody.opened (cap : Nat) (spool : List SinkEvent) (rows : List TaskEvent)
    (ingestCounter : Int) : Custody :=
  { sink := { bufCapBytes := cap, spool := spool, rows := rows, ingestCounter := ingestCounter } }

structure Conserved (t : Custody) : Prop where
  entering : ∀ i e, t.sink.pushes i = some (.buffering e) ↔ (i, e) ∈ t.entering
  calls : (t.entering.map Prod.fst).Nodup
  places : (t.admitted : Multiset SinkEvent) = t.unacked + t.acked
  bytes : t.sink.bufBytes = (t.unacked.map eventBytes).sum
  path : ∀ sender, t.sink.sender = some sender → sender.path ≠ .drainOutbox

/-! ## The pushes that wait -/

theorem perm_cons_filter_ne {i : Nat} {e : SinkEvent} {calls : List (Nat × SinkEvent)}
    (hnodup : (calls.map Prod.fst).Nodup) (h : (i, e) ∈ calls) :
    calls.Perm ((i, e) :: calls.filter fun p => p.1 ≠ i) := by
  induction calls with
  | nil => cases h
  | cons p calls ih =>
      obtain ⟨hfresh, htail⟩ := List.nodup_cons.mp hnodup
      rcases List.mem_cons.mp h with rfl | h
      · have hkept : calls.filter (fun p => p.1 ≠ i) = calls := by
          rw [List.filter_eq_self]
          intro p hp
          have hne : p.1 ≠ i := fun hi => hfresh (List.mem_map.mpr ⟨p, hp, hi⟩)
          simpa using hne
        rw [List.filter_cons_of_neg (by simp), hkept]
      · have hne : p.1 ≠ i := fun hi => hfresh (List.mem_map.mpr ⟨(i, e), h, hi.symm⟩)
        rw [List.filter_cons_of_pos (by simpa using hne)]
        exact ((ih htail h).cons p).trans (List.Perm.swap _ _ _)

theorem inSequenceOrder_perm (events : List SinkEvent) :
    (inSequenceOrder events).Perm events :=
  List.perm_insertionSort _ events

section Steps

variable {env : BatchEnv} {attemptId : String} {t : Custody}

/-- A call that moves no event. -/
theorem Conserved.still (h : Conserved t) {s : Sink}
    (hpushes : ∀ j e, s.pushes j = some (.buffering e) ↔ t.sink.pushes j = some (.buffering e))
    (hbuf : s.buf = t.sink.buf) (hbytes : s.bufBytes = t.sink.bufBytes)
    (hbatch : s.batch = t.sink.batch)
    (hpath : ∀ sender, s.sender = some sender → sender.path ≠ .drainOutbox) :
    Conserved { t with sink := s } := by
  have hunacked : Custody.unacked { t with sink := s } = t.unacked := by
    simp only [Custody.unacked, hbuf, hbatch]
  refine ⟨fun i e => (hpushes i e).trans (h.entering i e), h.calls, ?_, ?_, hpath⟩
  · rw [hunacked]
    exact h.places
  · rw [hunacked]
    exact hbytes.trans h.bytes

/-- A push starts to write. -/
theorem buffering_setPush {s : Sink} {i : Nat} {p : Option Push}
    (hfree : ∀ e, s.pushes i ≠ some (.buffering e)) (hp : ∀ e, p ≠ some (.buffering e)) (j : Nat)
    (e : SinkEvent) :
    (s.setPush i p).pushes j = some (.buffering e) ↔ s.pushes j = some (.buffering e) := by
  by_cases hj : j = i
  · subst hj
    simp [Sink.setPush, hp e, hfree e]
  · simp [Sink.setPush, hj]

theorem Conserved.allocate (h : Conserved t) {i : Nat}
    (hfree : ∀ e, t.sink.pushes i ≠ some (.buffering e)) (type : EventType) (payload : Json)
    (notice : Bool) : Conserved { t with sink := t.sink.allocate i type payload notice } := by
  refine h.still (fun j e => ?_) rfl rfl rfl h.path
  exact buffering_setPush hfree (by simp) j e

theorem Conserved.beginPush (h : Conserved t) {i : Nat} (hfree : t.sink.pushes i = none)
    (type : EventType) (payload : Json) :
    Conserved { t with sink := beginPush t.sink i type payload } := by
  have hnot : ∀ e, t.sink.pushes i ≠ some (.buffering e) := by simp [hfree]
  unfold Node.beginPush
  generalize countUsage t.sink.usage type payload = counted
  obtain ⟨usage, payload⟩ := counted
  dsimp only
  split
  · split
    · exact h.still (fun _ _ => Iff.rfl) rfl rfl rfl h.path
    · refine h.still (fun j e => ?_) rfl rfl rfl h.path
      exact buffering_setPush hnot (by simp) j e
  · split
    · exact h.still (fun _ _ => Iff.rfl) rfl rfl rfl h.path
    · refine h.still (fun j e => ?_) rfl rfl rfl h.path
      exact buffering_setPush hnot (by simp) j e

/-- A push gets past the spool check: its bytes count from here on. -/
theorem Conserved.admit (h : Conserved t) {i : Nat} {e : SinkEvent}
    (hfree : ∀ e, t.sink.pushes i ≠ some (.buffering e)) {s : Sink}
    (hpushes : s.pushes = (t.sink.setPush i (some (.buffering e))).pushes)
    (hbuf : s.buf = t.sink.buf) (hbytes : s.bufBytes = t.sink.bufBytes + e.payload.bytes)
    (hsender : s.sender = t.sink.sender) :
    Conserved { t with
      sink := s
      entering := (i, e) :: t.entering
      admitted := t.admitted ++ [e] } := by
  have hbatch : s.batch = t.sink.batch := by rw [Sink.batch, hsender, Sink.batch]
  have hunacked : Custody.unacked { t with
      sink := s, entering := (i, e) :: t.entering, admitted := t.admitted ++ [e] } =
      e ::ₘ t.unacked := by
    simp only [Custody.unacked, hbuf, hbatch, List.map_cons, ← Multiset.cons_coe,
      Multiset.cons_add]
  have hnew : ∀ e', (i, e') ∉ t.entering := fun e' hmem =>
    hfree e' ((h.entering i e').mpr hmem)
  constructor
  · intro j e'
    rw [hpushes, List.mem_cons, ← h.entering j e']
    by_cases hj : j = i
    · subst hj
      have hold : t.sink.pushes j ≠ some (.buffering e') := hfree e'
      simp [Sink.setPush, hold, eq_comm]
    · simp [Sink.setPush, hj]
  · rw [List.map_cons, List.nodup_cons]
    refine ⟨fun hmem => ?_, h.calls⟩
    obtain ⟨p, hp, hpi⟩ := List.mem_map.mp hmem
    obtain ⟨j, e'⟩ := p
    obtain rfl : j = i := hpi
    exact hnew e' hp
  · rw [hunacked]
    have hplaces := h.places
    rw [← Multiset.coe_add, hplaces, Multiset.cons_add, ← Multiset.singleton_add]
    change t.unacked + ↑t.acked + {e} = _
    abel
  · rw [hunacked, Multiset.map_cons, Multiset.sum_cons, ← h.bytes, hbytes]
    exact Nat.add_comm _ _
  · intro sender hs
    exact h.path sender (hsender ▸ hs)

/-- The spool write of a push has ended. -/
theorem Conserved.written (h : Conserved t) {i : Nat} {e : SinkEvent} {notice : Bool}
    (hwriting : t.sink.pushes i = some (.writing e notice)) (result : WriteResult) :
    Conserved (t.call (.written i result) (finishWrite t.sink i e notice result)) := by
  have hnot : ∀ e', t.sink.pushes i ≠ some (.buffering e') := by simp [hwriting]
  simp only [Custody.call, Sink.waits, Sink.delivers, List.append_nil]
  cases result with
  | ok =>
      simp only [finishWrite, Sink.admits, hwriting]
      exact h.admit hnot rfl rfl rfl rfl
  | failed onDisk =>
      simp only [finishWrite, Sink.admits, hwriting]
      exact h.admit hnot rfl rfl rfl rfl
  | spoolFull =>
      cases notice with
      | true =>
          simp only [finishWrite, Sink.admits, hwriting]
          exact h.admit hnot rfl rfl rfl rfl
      | false =>
          simp only [finishWrite, Sink.admits, hwriting, List.nil_append, List.map_nil,
            List.append_nil, Bool.false_eq_true, if_false]
          split
          · refine h.still (fun j e' => ?_) rfl rfl rfl h.path
            exact buffering_setPush hnot (by simp) j e'
          · refine h.still (fun j e' => ?_) rfl rfl rfl h.path
            exact buffering_setPush hnot (by simp) j e'

theorem Conserved.buffered (h : Conserved t) {i : Nat} {e : SinkEvent}
    (hwaits : t.sink.pushes i = some (.buffering e)) :
    Conserved { t with
      sink := { t.sink with buf := t.sink.buf ++ [e] }.setPush i none
      entering := t.entering.filter fun p => p.1 ≠ i } := by
  have hmem : (i, e) ∈ t.entering := (h.entering i e).mp hwaits
  have hperm := perm_cons_filter_ne h.calls hmem
  have hunacked : Custody.unacked { t with
      sink := { t.sink with buf := t.sink.buf ++ [e] }.setPush i none
      entering := t.entering.filter fun p => p.1 ≠ i } = t.unacked := by
    have hentering : ((t.entering.map Prod.snd : List SinkEvent) : Multiset SinkEvent) =
        e ::ₘ ((t.entering.filter fun p => p.1 ≠ i).map Prod.snd : List SinkEvent) := by
      rw [Multiset.cons_coe]
      exact Multiset.coe_eq_coe.mpr (hperm.map Prod.snd)
    have hbuf : ((t.sink.buf ++ [e] : List SinkEvent) : Multiset SinkEvent) =
        t.sink.buf + {e} := by
      rw [← Multiset.coe_add, Multiset.coe_singleton]
    change _ + _ + ((t.sink.buf ++ [e] : List SinkEvent) : Multiset SinkEvent) +
      (t.sink.batch : Multiset SinkEvent) = t.unacked
    rw [hbuf, Custody.unacked, hentering, ← Multiset.singleton_add]
    abel
  constructor
  · intro j e'
    rw [List.mem_filter, ← h.entering j e']
    by_cases hj : j = i
    · simp [Sink.setPush, hj]
    · simp [Sink.setPush, hj]
  · exact h.calls.sublist (List.filter_sublist.map Prod.fst)
  · rw [hunacked]
    exact h.places
  · rw [hunacked]
    exact h.bytes
  · exact h.path

/-- The batch and the buffer together, when neither an event comes nor goes. -/
theorem Conserved.moved (h : Conserved t) {s : Sink} (hpushes : s.pushes = t.sink.pushes)
    (hbytes : s.bufBytes = t.sink.bufBytes)
    (hevents : (s.buf + s.batch : Multiset SinkEvent) = t.sink.buf + t.sink.batch)
    (hpath : ∀ sender, s.sender = some sender → sender.path ≠ .drainOutbox) :
    Conserved { t with sink := s } := by
  have hunacked : Custody.unacked { t with sink := s } = t.unacked := by
    simp only [Custody.unacked, add_assoc, hevents]
  refine ⟨fun i e => ?_, h.calls, ?_, ?_, hpath⟩
  · rw [hpushes]
    exact h.entering i e
  · rw [hunacked]
    exact h.places
  · rw [hunacked]
    exact hbytes.trans h.bytes

theorem Conserved.take (h : Conserved t) (env : BatchEnv) {path : SendPath}
    (hidle : t.sink.sender = none) (hram : path ≠ .drainOutbox) :
    Conserved { t with sink := takeBatch env t.sink path } := by
  have hsource : t.sink.source path = t.sink.buf := by
    cases path with
    | flush => rfl
    | flushQuick => rfl
    | drainOutbox => exact absurd rfl hram
  have hsorted := inSequenceOrder_perm t.sink.buf
  have hold : t.sink.batch = [] := by rw [Sink.batch, hidle]
  have hbatch : (takeBatch env t.sink path).batch = inSequenceOrder t.sink.buf := by
    simp only [takeBatch, Sink.batch, hsource]
    cases hempty : (inSequenceOrder t.sink.buf).isEmpty with
    | true => simpa using hempty.symm
    | false => exact splitBatch_flatten env _
  refine h.moved rfl rfl ?_ ?_
  · rw [hbatch, hold]
    simp only [takeBatch, if_neg hram, Multiset.coe_nil, zero_add, add_zero]
    exact Multiset.coe_eq_coe.mpr hsorted
  · intro sender hsender
    simp only [takeBatch] at hsender
    split at hsender
    · cases hsender
    · cases hsender
      exact hram

/-- A chunk that was not accepted goes back with what was not sent. -/
theorem buf_refused {s : Sink} {sender : Sender} {chunk : List SinkEvent}
    {rest : List (List SinkEvent)} (hsender : s.sender = some sender)
    (hchunks : sender.chunks = chunk :: rest) (hpath : sender.path ≠ .drainOutbox)
    {outcome : PostOutcome} (hfailed : outcome ≠ .accepted) (attemptId now : String) :
    (sendChunk s attemptId now sender chunk rest outcome).buf = s.batch ++ s.buf ∧
      (sendChunk s attemptId now sender chunk rest outcome).sender = none := by
  have hbatch : s.batch = chunk ++ rest.flatten := by rw [Sink.batch, hsender]; simp [hchunks]
  simp only [sendChunk, if_neg hfailed, if_neg hpath, hbatch]
  split
  · exact ⟨rfl, trivial⟩
  · exact ⟨rfl, trivial⟩

theorem Conserved.refused (h : Conserved t) {sender : Sender} {chunk : List SinkEvent}
    {rest : List (List SinkEvent)} (hsender : t.sink.sender = some sender)
    (hchunks : sender.chunks = chunk :: rest) {outcome : PostOutcome}
    (hfailed : outcome ≠ .accepted) (attemptId now : String) :
    Conserved { t with sink := sendChunk t.sink attemptId now sender chunk rest outcome } := by
  obtain ⟨hbuf, hnone⟩ :=
    buf_refused hsender hchunks (h.path sender hsender) hfailed attemptId now
  have hbatch : (sendChunk t.sink attemptId now sender chunk rest outcome).batch = [] := by
    rw [Sink.batch, hnone]
  refine h.moved ?_ ?_ ?_ ?_
  · simp only [sendChunk, if_neg hfailed]
    split
    · rfl
    · rfl
  · simp only [sendChunk, if_neg hfailed]
    split
    · rfl
    · rfl
  · rw [hbuf, hbatch, Multiset.coe_nil, add_zero, ← Multiset.coe_add]
    exact add_comm _ _
  · intro sender' hsender'
    rw [hnone] at hsender'
    cases hsender'

/-- The bytes of the chunk to be sent are in the counter. -/
theorem Conserved.chunk_le (h : Conserved t) {sender : Sender} {chunk : List SinkEvent}
    {rest : List (List SinkEvent)} (hsender : t.sink.sender = some sender)
    (hchunks : sender.chunks = chunk :: rest) :
    (chunk.map eventBytes).sum ≤ t.sink.bufBytes := by
  have hbatch : t.sink.batch = chunk ++ rest.flatten := by
    rw [Sink.batch, hsender]
    simp [hchunks]
  rw [h.bytes, Custody.unacked, hbatch]
  simp only [Multiset.map_add, Multiset.sum_add, Multiset.map_coe, Multiset.sum_coe,
    List.map_append, List.sum_append]
  omega

theorem Conserved.accepted (h : Conserved t) {sender : Sender} {chunk : List SinkEvent}
    {rest : List (List SinkEvent)} (hsender : t.sink.sender = some sender)
    (hchunks : sender.chunks = chunk :: rest) (attemptId now : String) :
    Conserved { t with
      sink := sendChunk t.sink attemptId now sender chunk rest .accepted
      acked := t.acked ++ chunk } := by
  have hpath := h.path sender hsender
  have hbatch : t.sink.batch = chunk ++ rest.flatten := by
    rw [Sink.batch, hsender]
    simp [hchunks]
  have hunacked : t.unacked = chunk + Custody.unacked { t with
      sink := sendChunk t.sink attemptId now sender chunk rest .accepted
      acked := t.acked ++ chunk } := by
    have hrest : (sendChunk t.sink attemptId now sender chunk rest .accepted).batch =
        rest.flatten := rfl
    have hbuf : (sendChunk t.sink attemptId now sender chunk rest .accepted).buf =
        t.sink.buf := rfl
    simp only [Custody.unacked, hbatch, hrest, hbuf, ← Multiset.coe_add]
    abel
  have hle := h.chunk_le hsender hchunks
  have hsum := congrArg (fun events => (Multiset.map eventBytes events).sum) hunacked
  simp only [Multiset.map_add, Multiset.sum_add, Multiset.map_coe, Multiset.sum_coe] at hsum
  constructor
  · exact h.entering
  · exact h.calls
  · have hplaces := h.places
    rw [hunacked] at hplaces
    change (t.admitted : Multiset SinkEvent) = _ + ↑(t.acked ++ chunk)
    rw [hplaces, ← Multiset.coe_add]
    abel
  · have hbytes := h.bytes
    rw [hsum] at hbytes
    have hcounter : (sendChunk t.sink attemptId now sender chunk rest .accepted).bufBytes =
        t.sink.bufBytes - (chunk.map eventBytes).sum := if_neg hpath
    change (sendChunk t.sink attemptId now sender chunk rest .accepted).bufBytes = _
    rw [hcounter, hbytes, Nat.add_sub_cancel_left]
  · intro sender' hsender'
    cases hsender'
    exact hpath

theorem Conserved.finishAck (h : Conserved t) {sender : Sender}
    (hsender : t.sink.sender = some sender) (seqs : List Nat) (ok : Bool) :
    Conserved { t with sink := finishAck t.sink sender seqs ok } := by
  have hpath := h.path sender hsender
  have hold : t.sink.batch = sender.chunks.flatten := by rw [Sink.batch, hsender]
  have hbatch : (Node.finishAck t.sink sender seqs ok).batch = t.sink.batch := by
    rw [hold]
    simp only [Node.finishAck, Sink.batch, hpath, ne_eq, not_false_eq_true, decide_true,
      Bool.and_true]
    cases hchunks : sender.chunks with
    | nil => rfl
    | cons chunk rest => rfl
  refine h.moved rfl rfl ?_ ?_
  · rw [hbatch]
    rfl
  · intro sender' hsender'
    simp only [Node.finishAck] at hsender'
    split at hsender'
    · cases hsender'
    · cases hsender'
      exact hpath

theorem Conserved.requeue (h : Conserved t) (pending : List SinkEvent) :
    Conserved { t with
      sink := beginRequeue t.sink pending
      requeues := t.requeues ++ [pending]
      admitted := t.admitted ++ pending } := by
  have hunacked : Custody.unacked { t with
      sink := beginRequeue t.sink pending
      requeues := t.requeues ++ [pending]
      admitted := t.admitted ++ pending } = pending + t.unacked := by
    have hflat : ((t.requeues ++ [pending]).flatten : Multiset SinkEvent) =
        t.requeues.flatten + pending := by
      simp only [List.flatten_append, List.flatten_singleton, Multiset.coe_add]
    change _ + ((t.requeues ++ [pending]).flatten : Multiset SinkEvent) +
      (t.sink.buf : Multiset SinkEvent) + (t.sink.batch : Multiset SinkEvent) = _
    rw [hflat, Custody.unacked]
    abel
  refine ⟨h.entering, h.calls, ?_, ?_, h.path⟩
  · rw [hunacked]
    change ((t.admitted ++ pending : List SinkEvent) : Multiset SinkEvent) =
      pending + t.unacked + (t.acked : Multiset SinkEvent)
    rw [← Multiset.coe_add, h.places]
    abel
  · rw [hunacked, Multiset.map_add, Multiset.sum_add, ← h.bytes]
    exact Nat.add_comm _ _

/-- The buffer is locked and the events of the call go to its front. -/
theorem Conserved.requeued (h : Conserved t) {k : Nat} {pending : List SinkEvent}
    (hwaits : t.requeues[k]? = some pending) :
    Conserved { t with
      sink := { t.sink with buf := pending ++ t.sink.buf }
      requeues := t.requeues.eraseIdx k } := by
  have hflat : (t.requeues.flatten : Multiset SinkEvent) =
      pending + (t.requeues.eraseIdx k).flatten := by
    obtain ⟨hk, hpending⟩ := List.getElem?_eq_some_iff.mp hwaits
    have hperm := (List.getElem_cons_eraseIdx_perm hk).symm.flatten
    rw [hpending, List.flatten_cons] at hperm
    rw [Multiset.coe_add]
    exact Multiset.coe_eq_coe.mpr hperm
  have hunacked : Custody.unacked { t with
      sink := { t.sink with buf := pending ++ t.sink.buf }
      requeues := t.requeues.eraseIdx k } = t.unacked := by
    change _ + ((t.requeues.eraseIdx k).flatten : Multiset SinkEvent) +
      ((pending ++ t.sink.buf : List SinkEvent) : Multiset SinkEvent) +
      (t.sink.batch : Multiset SinkEvent) = _
    rw [Custody.unacked, hflat, ← Multiset.coe_add]
    abel
  refine ⟨h.entering, h.calls, ?_, ?_, h.path⟩
  · rw [hunacked]
    exact h.places
  · rw [hunacked]
    exact h.bytes

/-! ## Runs -/

/-- What a send finds. -/
theorem send_cases {s s' : Sink} {outcome : PostOutcome} {now : String}
    (hstep : sinkStep env attemptId s (.send outcome now) = some s') :
    ∃ sender chunk rest, s.sender = some sender ∧ sender.chunks = chunk :: rest ∧
      sender.acking = none ∧ s' = sendChunk s attemptId now sender chunk rest outcome := by
  simp only [sinkStep] at hstep
  split at hstep
  · rename_i sender hsender
    split at hstep
    · rename_i chunk rest hacking hchunks
      exact ⟨sender, chunk, rest, hsender, hchunks, hacking, (Option.some.inj hstep).symm⟩
    · cases hstep
  · cases hstep

/-- A call that brings no event past the spool check and finds none acknowledged. -/
theorem call_quiet {op : SinkOp} (hadmits : t.sink.admits op = [])
    (hdelivers : t.sink.delivers op = []) (s : Sink) :
    t.call op s = { t with sink := s, entering := t.sink.waits t.entering op } := by
  rw [Custody.call, hadmits, hdelivers, List.map_nil, List.append_nil, List.append_nil]

theorem Conserved.send (h : Conserved t) {s' : Sink} {outcome : PostOutcome} {now : String}
    (hstep : sinkStep env attemptId t.sink (.send outcome now) = some s') :
    Conserved (t.call (.send outcome now) s') := by
  obtain ⟨⟨path, chunks, acking⟩, chunk, rest, hsender, rfl, rfl, rfl⟩ := send_cases hstep
  cases outcome with
  | accepted =>
      have hdelivers : t.sink.delivers (.send .accepted now) = chunk := by
        simp only [Sink.delivers, hsender]
      simp only [Custody.call, Sink.waits, Sink.admits, hdelivers, List.nil_append, List.map_nil,
        List.append_nil]
      exact h.accepted hsender rfl attemptId now
  | replyLost =>
      rw [call_quiet rfl rfl]
      exact h.refused hsender rfl (by decide) attemptId now
  | refused =>
      rw [call_quiet rfl rfl]
      exact h.refused hsender rfl (by decide) attemptId now

theorem Conserved.call (h : Conserved t) {op : SinkOp} (hram : op.inRam = true) {s : Sink}
    (hstep : sinkStep env attemptId t.sink op = some s) : Conserved (t.call op s) := by
  cases op with
  | push i type payload =>
      simp only [sinkStep] at hstep
      split at hstep
      · cases hstep
      · rename_i hfree
        obtain rfl := Option.some.inj hstep
        rw [call_quiet rfl rfl]
        exact h.beginPush (by simpa using hfree) type payload
  | budgetExceeded i field =>
      simp only [sinkStep] at hstep
      split at hstep
      · cases hstep
      · rename_i hfree
        obtain rfl := Option.some.inj hstep
        have hnone : t.sink.pushes i = none := by simpa using hfree
        rw [call_quiet rfl rfl]
        exact h.allocate (by simp [hnone]) _ _ _
  | written i result =>
      simp only [sinkStep] at hstep
      split at hstep
      · rename_i e notice hwriting
        obtain rfl := Option.some.inj hstep
        exact h.written hwriting result
      · cases hstep
  | buffered i =>
      simp only [sinkStep] at hstep
      split at hstep
      · rename_i e hwaits
        obtain rfl := Option.some.inj hstep
        rw [call_quiet rfl rfl]
        exact h.buffered hwaits
      · cases hstep
  | take path =>
      simp only [sinkStep] at hstep
      split at hstep
      · cases hstep
      · rename_i hidle
        obtain rfl := Option.some.inj hstep
        have hpath : path ≠ .drainOutbox := by
          rintro rfl
          cases hram
        rw [call_quiet rfl rfl]
        exact h.take env (by simpa using hidle) hpath
  | send outcome now =>
      exact h.send hstep
  | acked ok =>
      simp only [sinkStep] at hstep
      split at hstep
      · rename_i sender hsender
        obtain ⟨seqs, _, rfl⟩ := Option.map_eq_some_iff.mp hstep
        rw [call_quiet rfl rfl]
        exact h.finishAck hsender seqs ok
      · cases hstep
  | reread => cases hram
  | stop => cases hram

theorem conserved_step {op : CustodyOp} {t' : Custody} (h : Conserved t)
    (hstep : CustodyStep env attemptId t op t') : Conserved t' := by
  rw [CustodyStep] at hstep
  cases op with
  | call op =>
      simp only [custodyStep] at hstep
      split at hstep
      · rename_i hram
        obtain ⟨s, hs, rfl⟩ := Option.map_eq_some_iff.mp hstep
        exact h.call hram hs
      · cases hstep
  | requeue pending =>
      simp only [custodyStep] at hstep
      split at hstep
      · obtain rfl := Option.some.inj hstep
        exact h
      · obtain rfl := Option.some.inj hstep
        exact h.requeue pending
  | requeued k =>
      obtain ⟨pending, hwaits, rfl⟩ := Option.map_eq_some_iff.mp hstep
      exact h.requeued hwaits

theorem conserved_opened (cap : Nat) (spool : List SinkEvent) (rows : List TaskEvent)
    (ingestCounter : Int) : Conserved (Custody.opened cap spool rows ingestCounter) := by
  constructor
  · intro i e
    simp [Custody.opened]
  · exact .nil
  · rfl
  · rfl
  · intro sender hsender
    cases hsender

end Steps

/-- Every event let through is, at each moment of a run, in exactly one place; the counter
has the bytes of those not acknowledged and covers the chunk to be sent; a chunk that is not
accepted goes back, with all that was not sent, before what the buffer holds by then. -/
theorem sink_conserves_events {env : BatchEnv} {attemptId : String} {cap : Nat}
    {spool : List SinkEvent} {rows : List TaskEvent} {ingestCounter : Int}
    {ops : List CustodyOp} {t : Custody}
    (h : Runs (CustodyStep env attemptId) (Custody.opened cap spool rows ingestCounter) ops t) :
    ((∀ i e, t.sink.pushes i = some (.buffering e) ↔ (i, e) ∈ t.entering) ∧
      (t.entering.map Prod.fst).Nodup) ∧
    (t.admitted : Multiset SinkEvent) = t.entering.map Prod.snd + t.requeues.flatten +
      t.sink.buf + t.sink.batch + t.acked ∧
    t.sink.bufBytes = (t.unacked.map eventBytes).sum ∧
    (∀ sender chunk rest, t.sink.sender = some sender → sender.chunks = chunk :: rest →
      (chunk.map eventBytes).sum ≤ t.sink.bufBytes) ∧
    ∀ outcome now t', outcome ≠ .accepted →
      CustodyStep env attemptId t (.call (.send outcome now)) t' →
        t'.sink.buf = t.sink.batch ++ t.sink.buf ∧ t'.sink.sender = none := by
  have hconserved : Conserved t :=
    h.invariant Conserved conserved_step (conserved_opened cap spool rows ingestCounter)
  refine ⟨⟨hconserved.entering, hconserved.calls⟩, hconserved.places, hconserved.bytes,
    fun sender chunk rest hsender hchunks => hconserved.chunk_le hsender hchunks, ?_⟩
  intro outcome now t' hfailed hstep
  obtain ⟨s, hs, rfl⟩ := Option.map_eq_some_iff.mp hstep
  obtain ⟨sender, chunk, rest, hsender, hchunks, -, rfl⟩ := send_cases hs
  exact buf_refused hsender hchunks (hconserved.path sender hsender) hfailed attemptId now

/-- A push and a requeue come in while a batch is out, and the batch is refused. -/
def crowded : List CustodyOp :=
  [.call (.push 0 .status .null), .call (.written 0 .ok), .call (.buffered 0),
    .call (.take .flushQuick), .call (.push 1 .error .null), .call (.written 1 (.failed false)),
    .requeue [⟨9, .result, .null⟩], .call (.send .refused "t1"), .call (.buffered 1)]

theorem sink_conserves_events_crowded :
    ∃ t, Runs (CustodyStep {} "a") (Custody.opened 100 [] [] 0) crowded t ∧
      t.sink.buf.map SinkEvent.sequence = [1, 2] ∧ t.sink.bufBytes = 12 ∧
      t.sink.bufBytes = (t.unacked.map eventBytes).sum := by
  have hends : ((crowded.foldlM (custodyStep {} "a") (Custody.opened 100 [] [] 0)).map fun t =>
      (t.sink.buf.map SinkEvent.sequence, t.sink.bufBytes)) = some ([1, 2], 12) := by
    decide
  obtain ⟨t, hrun, hvalues⟩ := Option.map_eq_some_iff.mp hends
  obtain ⟨hbuf, hbytes⟩ := Prod.mk.inj hvalues
  have hruns := Runs.of_foldlM hrun
  exact ⟨t, hruns, hbuf, hbytes, (sink_conserves_events hruns).2.2.1⟩

end AgentGrid.Node
