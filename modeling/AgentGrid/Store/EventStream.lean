import Mathlib.Data.List.Sort
import AgentGrid.Store.EventLog

/-!
# The event stream of a task

A reader pages through the events of a task by their numbers while the
control plane keeps writing.
-/

namespace AgentGrid.Store

open AgentGrid.Foundation

def defaultEventPage : Nat := 1000

def maxTailEvents : Nat := 2000

/-- `task_events e JOIN attempts a ON a.id = e.attempt_id WHERE a.task_id = ?`. -/
def taskRows (db : Database) (taskId : String) : List TaskEvent :=
  db.taskEvents.filter fun e =>
    db.attempts.any fun a => a.id == e.attemptId && a.taskId == taskId

def ascending (rows : List TaskEvent) : List TaskEvent :=
  rows.insertionSort fun e e' => e.ingestId ≤ e'.ingestId

def descending (rows : List TaskEvent) : List TaskEvent :=
  rows.insertionSort fun e e' => e'.ingestId ≤ e.ingestId

def getEvents (db : Database) (taskId : String) (afterIngest : Option Nat)
    (afterSequence : Nat) (limit tail : Option Nat) : List TaskEvent :=
  let limit := min (limit.getD defaultEventPage) defaultEventPage
  let last := tail.getD 0
  if 0 < last ∧ afterIngest = none ∧ afterSequence = 0 then
    ((descending (taskRows db taskId)).take (min last maxTailEvents)).reverse
  else
    match afterIngest with
    | some after =>
        (ascending ((taskRows db taskId).filter fun e => (after : Int) < e.ingestId)).take
          limit
    | none =>
        (ascending ((taskRows db taskId).filter fun e =>
          (afterSequence : Int) < e.sequence)).take limit

/-- The cursor of a connection from its query and its `Last-Event-ID`. -/
def sseResumeAfter (afterIngest lastEventId : Option Nat) : Option Nat :=
  match lastEventId with
  | some last => some (max last (afterIngest.getD 0))
  | none => afterIngest

/-- A client of one task: the query it connects with, the cursor it has
reached and the events it was sent. -/
structure Reader where
  taskId : String
  queryIngest : Option Nat := some 0
  afterSequence : Nat := 0
  afterIngest : Option Nat := queryIngest
  received : List TaskEvent := []
deriving DecidableEq

namespace Reader

def lastEventId (r : Reader) : Option Nat :=
  r.received.getLast?.map fun e => e.ingestId.toNat

/-- One round of the loop of `events_stream`, for a page of any size. -/
def read (r : Reader) (db : Database) (limit : Option Nat) : Reader :=
  let page := getEvents db r.taskId r.afterIngest r.afterSequence limit none
  { r with
    afterIngest := page.foldl
      (fun after e => some (max (after.getD 0) e.ingestId.toNat)) r.afterIngest
    received := r.received ++ page }

def reconnect (r : Reader) : Reader :=
  { r with afterIngest := sseResumeAfter r.queryIngest r.lastEventId }

end Reader

/-- The store, the events its writers offered so far in commit order, and one
reader. -/
structure Feed where
  db : Database
  offered : List Offer := []
  reader : Reader
deriving DecidableEq

def FeedOp.turn (db : Database) (r : Reader) : FeedOp → Reader
  | .store _ => r
  | .appendAuditEvent _ _ _ => r
  | .read limit => r.read db limit
  | .reconnect => r.reconnect

def feedStep (feed : Feed) (op : FeedOp) : Feed where
  db := op.write feed.db
  offered := feed.offered ++ op.offers feed.db (op.write feed.db)
  reader := op.turn feed.db feed.reader

def FeedStep (feed : Feed) (op : FeedOp) (feed' : Feed) : Prop := feed' = feedStep feed op

def FeedOp.reads : FeedOp → Bool
  | .read _ => true
  | _ => false

/-- The page has room for an event. -/
def FeedOp.roomy : FeedOp → Bool
  | .read limit => limit != some 0
  | _ => true

/-- The tables as the migrations leave them, and a reader that has not read:
it asks for what follows 0, or it names no cursor at all. -/
structure Feed.Opened (feed : Feed) : Prop where
  fresh : feed.db.Fresh
  noEvents : feed.db.taskEvents = []
  counter : feed.db.eventIngestCounter = 1
  noOffers : feed.offered = []
  unread : feed.reader.received = []
  cursor : feed.reader.afterIngest = feed.reader.queryIngest
  query : feed.reader.queryIngest = some 0 ∨
    feed.reader.queryIngest = none ∧ feed.reader.afterSequence = 0

def Reader.cursor (r : Reader) : Int := r.afterIngest.getD 0

/-- What holds of the store and its reader at every moment. -/
structure Streams (feed : Feed) : Prop where
  sound : feed.db.Sound
  recorded : Recorded Offer.key feed.offered (feed.db.taskEvents.map TaskEvent.offer)
  increasing : feed.db.taskEvents.Pairwise fun e e' => e.ingestId < e'.ingestId
  counter : 0 ≤ feed.db.eventIngestCounter
  bounded : ∀ e ∈ feed.db.taskEvents,
    0 < e.ingestId ∧ e.ingestId ≤ feed.db.eventIngestCounter
  owned : ∀ e ∈ feed.db.taskEvents, ∃ a ∈ feed.db.attempts, a.id = e.attemptId
  upto : Upto TaskEvent.ingestId feed.reader.cursor feed.reader.received
    (taskRows feed.db feed.reader.taskId)
  behind : feed.reader.cursor ≤ feed.db.eventIngestCounter
  bookmark : feed.reader.afterIngest = sseResumeAfter feed.reader.queryIngest
    feed.reader.lastEventId
  query : feed.reader.queryIngest = some 0 ∨ feed.reader.queryIngest = none ∧
    feed.reader.afterSequence = 0 ∧ ∀ o ∈ feed.offered, 0 < o.sequence

theorem Feed.Opened.streams {feed : Feed} (h : feed.Opened) : Streams feed where
  sound := sound_of_fresh h.fresh
  recorded := by
    rw [h.noOffers, h.noEvents]
    exact .empty Offer.key
  increasing := by simp [h.noEvents]
  counter := by simp [h.counter]
  bounded := by simp [h.noEvents]
  owned := by simp [h.noEvents]
  upto := by
    rw [h.unread]
    exact .start (by simp [taskRows, h.noEvents])
  behind := by
    rw [Reader.cursor, h.cursor, h.counter]
    rcases h.query with hquery | ⟨hquery, _⟩ <;> simp [hquery]
  bookmark := by simp [h.cursor, sseResumeAfter, Reader.lastEventId, h.unread]
  query := by
    rcases h.query with hquery | ⟨hquery, hsequence⟩
    · exact .inl hquery
    · exact .inr ⟨hquery, hsequence, by simp [h.noOffers]⟩

section Owners

variable {db : Database}

theorem write_sound (hdb : db.Sound) (op : FeedOp) : (op.write db).Sound := by
  cases op with
  | store op => exact (step_stepped hdb op).sound hdb
  | appendAuditEvent attemptId payload now =>
      simp only [FeedOp.write, appendAuditEvent]
      split
      · exact hdb
      · exact hdb
  | read limit => exact hdb
  | reconnect => exact hdb

theorem write_advances (hdb : db.Sound) (op : FeedOp) (k : String) :
    Advances (fun _ => false) k db (op.write db) := by
  have hsame : ∀ db' : Database, db'.tasks = db.tasks → db'.attempts = db.attempts →
      Advances (fun _ => false) k db db' :=
    fun db' htasks hattempts => Evolves.advances (.of_rows htasks hattempts) k
  cases op with
  | store op =>
      exact step_advances (by simp) (by simp) hdb op (by simp) k (fun _ => rfl)
  | appendAuditEvent attemptId payload now =>
      simp only [FeedOp.write, appendAuditEvent]
      split <;> exact hsame _ rfl rfl
  | read limit => exact hsame db rfl rfl
  | reconnect => exact hsame db rfl rfl

/-- An attempt stays with its task. -/
theorem write_owner (hdb : db.Sound) (op : FeedOp) {a : Attempt} (ha : a ∈ db.attempts)
    (k : String) :
    ((op.write db).attempts.any fun a' => a'.id == a.id && a'.taskId == k) =
      db.attempts.any fun a' => a'.id == a.id && a'.taskId == k := by
  have hadv := write_advances hdb op k
  rw [Bool.eq_iff_iff, List.any_eq_true, List.any_eq_true]
  constructor
  · rintro ⟨a', ha', hown⟩
    rw [Bool.and_eq_true, beq_iff_eq, beq_iff_eq] at hown
    rcases hadv.born a' ha' with ⟨old, hold, hid, htask, _⟩ | ⟨hfresh, _⟩
    · exact ⟨old, hold, by simp [← hid, ← htask, hown]⟩
    · exact absurd hown.1.symm (hfresh a ha)
  · rintro ⟨old, hold, hown⟩
    obtain ⟨a', ha', hid, htask, _⟩ := hadv.kept old hold
    exact ⟨a', ha', by rw [hid, htask]; exact hown⟩

/-- The events of a task only grow at the end. -/
theorem write_taskRows (hdb : db.Sound) (op : FeedOp)
    (howned : ∀ e ∈ db.taskEvents, ∃ a ∈ db.attempts, a.id = e.attemptId) (k : String)
    {new : List TaskEvent} (hnew : (op.write db).taskEvents = db.taskEvents ++ new) :
    taskRows (op.write db) k = taskRows db k ++ new.filter fun e =>
      (op.write db).attempts.any fun a => a.id == e.attemptId && a.taskId == k := by
  rw [taskRows, hnew, List.filter_append, taskRows]
  congr 1
  apply List.filter_congr
  intro e he
  obtain ⟨a, ha, hid⟩ := howned e he
  rw [← hid]
  exact write_owner hdb op ha k

end Owners

section Reading

variable {db : Database} {r : Reader}

theorem taskRows_increasing (k : String)
    (h : db.taskEvents.Pairwise fun e e' => e.ingestId < e'.ingestId) :
    (taskRows db k).Pairwise fun e e' => e.ingestId < e'.ingestId :=
  h.filter _

theorem ascending_eq {rows : List TaskEvent}
    (h : rows.Pairwise fun e e' => e.ingestId < e'.ingestId) : ascending rows = rows :=
  List.Pairwise.insertionSort_eq (h.imp fun hlt => hlt.le)

def pageSize (limit : Option Nat) : Nat := min (limit.getD defaultEventPage) defaultEventPage

/-- A page is the next events after the cursor, also for the first request of
a reader without one when sequences count from one. -/
theorem getEvents_page (h : db.taskEvents.Pairwise fun e e' => e.ingestId < e'.ingestId)
    (hbounded : ∀ e ∈ db.taskEvents, 0 < e.ingestId)
    (hlegacy : r.afterIngest = none → r.afterSequence = 0 ∧
      ∀ e ∈ db.taskEvents, 0 < e.sequence) (limit : Option Nat) :
    getEvents db r.taskId r.afterIngest r.afterSequence limit none =
      ((taskRows db r.taskId).filter fun e => r.cursor < e.ingestId).take
        (pageSize limit) := by
  have hrows := taskRows_increasing r.taskId h
  unfold getEvents
  simp only [Option.getD_none, lt_irrefl, false_and, if_false]
  cases hafter : r.afterIngest with
  | some after =>
      have hcursor : r.cursor = after := by simp [Reader.cursor, hafter]
      dsimp only
      rw [ascending_eq (hrows.filter _), hcursor]
      rfl
  | none =>
      obtain ⟨hsequence, hpositive⟩ := hlegacy hafter
      have hcursor : r.cursor = 0 := by simp [Reader.cursor, hafter]
      have hall : ((taskRows db r.taskId).filter fun e =>
          (r.afterSequence : Int) < e.sequence) =
            (taskRows db r.taskId).filter fun e => r.cursor < e.ingestId := by
        apply List.filter_congr
        intro e he
        have hstored := List.mem_of_mem_filter he
        simp [hsequence, hcursor, hpositive e hstored, hbounded e hstored]
      dsimp only
      rw [hall, ascending_eq (hrows.filter _)]
      rfl

theorem foldl_cursor {page : List TaskEvent} (hpage : ∀ e ∈ page, 0 ≤ e.ingestId)
    (after : Option Nat) :
    ((page.foldl (fun after e => some (max (after.getD 0) e.ingestId.toNat)) after).getD 0 :
      Int) = advance TaskEvent.ingestId (after.getD 0 : Nat) page := by
  induction page generalizing after with
  | nil => rfl
  | cons e page ih =>
      have hid := hpage e (by simp)
      have hcursor : ((max (after.getD 0) e.ingestId.toNat : Nat) : Int) =
          max ((after.getD 0 : Nat) : Int) e.ingestId := by
        omega
      rw [List.foldl_cons, ih (fun e' he' => hpage e' (by simp [he'])), Option.getD_some,
        hcursor]
      rfl

theorem foldl_cursor_isSome {page : List TaskEvent} (hpage : page ≠ [])
    (after : Option Nat) :
    (page.foldl (fun after e => some (max (after.getD 0) e.ingestId.toNat)) after).isSome =
      true := by
  induction page generalizing after with
  | nil => exact absurd rfl hpage
  | cons e page ih =>
      cases page with
      | nil => rfl
      | cons e' page => exact ih (by simp) _

end Reading

namespace Streams

variable {feed : Feed}

theorem rows_positive (h : Streams feed) (hoffers : ∀ o ∈ feed.offered, 0 < o.sequence) :
    ∀ e ∈ feed.db.taskEvents, 0 < e.sequence := by
  intro e he
  have hfirst := h.recorded.first e.offer (List.mem_map_of_mem he)
  exact hoffers e.offer (List.mem_of_find?_eq_some hfirst)

/-- Between two requests of the reader. -/
theorem write (h : Streams feed) (op : FeedOp)
    (hop : feed.reader.queryIngest = none → op.numbered = true) :
    Streams ⟨op.write feed.db, feed.offered ++ op.offers feed.db (op.write feed.db),
      feed.reader⟩ := by
  have hwrites := @write_writes feed.db op
  obtain ⟨new, hnew, hsorted, hnumbers⟩ := hwrites.appended
  have hcounter := hwrites.counter
  have hadv := write_advances h.sound op feed.reader.taskId
  have hkept : ∀ a ∈ feed.db.attempts, ∃ a' ∈ (op.write feed.db).attempts, a'.id = a.id := by
    intro a ha
    obtain ⟨a', ha', hid, _⟩ := hadv.kept a ha
    exact ⟨a', ha', hid⟩
  constructor
  · exact write_sound h.sound op
  · exact hwrites.recorded feed.offered h.recorded
  · rw [hnew, List.pairwise_append]
    refine ⟨h.increasing, hsorted, ?_⟩
    intro e he e' he'
    have := h.bounded e he
    have := hnumbers e' he'
    omega
  · exact le_trans h.counter hcounter
  · intro e he
    rw [hnew] at he
    have hpositive := h.counter
    rcases List.mem_append.mp he with hold | hlate
    · have := h.bounded e hold
      exact ⟨this.1, le_trans this.2 hcounter⟩
    · obtain ⟨hlow, hhigh, _⟩ := hnumbers e hlate
      exact ⟨by omega, hhigh⟩
  · intro e he
    rw [hnew] at he
    have howner : ∃ a ∈ feed.db.attempts, a.id = e.attemptId := by
      rcases List.mem_append.mp he with hold | hlate
      · exact h.owned e hold
      · exact (hnumbers e hlate).2.2
    obtain ⟨a, ha, hid⟩ := howner
    obtain ⟨a', ha', hid'⟩ := hkept a ha
    exact ⟨a', ha', hid'.trans hid⟩
  · rw [write_taskRows h.sound op h.owned feed.reader.taskId hnew]
    refine h.upto.extend ?_
    intro e he
    have hlow := (hnumbers e (List.mem_of_mem_filter he)).1
    exact lt_of_le_of_lt h.behind hlow
  · exact le_trans h.behind hcounter
  · exact h.bookmark
  · rcases h.query with hquery | ⟨hquery, hsequence, hoffers⟩
    · exact .inl hquery
    · refine .inr ⟨hquery, hsequence, ?_⟩
      intro o ho
      rcases List.mem_append.mp ho with hold | hlate
      · exact hoffers o hold
      · exact hwrites.positive (hop hquery) (h.rows_positive hoffers) o hlate

theorem legacy (h : Streams feed) (hafter : feed.reader.afterIngest = none) :
    feed.reader.afterSequence = 0 ∧ ∀ e ∈ feed.db.taskEvents, 0 < e.sequence := by
  have hbookmark := h.bookmark
  rw [hafter] at hbookmark
  rcases h.query with hquery | ⟨hquery, hsequence, hoffers⟩
  · rw [hquery] at hbookmark
    unfold sseResumeAfter at hbookmark
    split at hbookmark <;> cases hbookmark
  · exact ⟨hsequence, h.rows_positive hoffers⟩

theorem page_eq (h : Streams feed) (limit : Option Nat) :
    getEvents feed.db feed.reader.taskId feed.reader.afterIngest feed.reader.afterSequence
        limit none =
      ((taskRows feed.db feed.reader.taskId).filter fun e =>
        feed.reader.cursor < e.ingestId).take (pageSize limit) :=
  getEvents_page h.increasing (fun e he => (h.bounded e he).1) h.legacy limit

/-- The reader goes on where it stands. -/
theorem received_read (h : Streams feed) (limit : Option Nat) :
    (feed.reader.read feed.db limit).received =
      (taskRows feed.db feed.reader.taskId).take
        (feed.reader.received.length + pageSize limit) := by
  have hread := (h.upto.read (taskRows_increasing _ h.increasing) (pageSize limit)).2
  simp only [Reader.read]
  rw [h.page_eq limit]
  exact hread

theorem query_zero (h : Streams feed) : feed.reader.queryIngest.getD 0 = 0 := by
  rcases h.query with hquery | ⟨hquery, _⟩ <;> simp [hquery]

theorem read (h : Streams feed) (limit : Option Nat) :
    Streams { feed with reader := feed.reader.read feed.db limit } := by
  have hpage := h.page_eq limit
  generalize hpages : getEvents feed.db feed.reader.taskId feed.reader.afterIngest
    feed.reader.afterSequence limit none = page at hpage
  have hstored : ∀ e ∈ page, e ∈ feed.db.taskEvents ∧ feed.reader.cursor < e.ingestId := by
    intro e he
    rw [hpage] at he
    obtain ⟨hrows, hlate⟩ := List.mem_filter.mp (List.mem_of_mem_take he)
    exact ⟨List.mem_of_mem_filter hrows, by simpa using hlate⟩
  have hsorted : page.Pairwise fun e e' => e.ingestId < e'.ingestId := by
    rw [hpage]
    exact ((taskRows_increasing _ h.increasing).filter _).take
  have hread : feed.reader.read feed.db limit = { feed.reader with
      afterIngest := page.foldl
        (fun after e => some (max (after.getD 0) e.ingestId.toNat)) feed.reader.afterIngest
      received := feed.reader.received ++ page } := by
    rw [Reader.read, hpages]
  have hcursor : (feed.reader.read feed.db limit).cursor =
      advance TaskEvent.ingestId feed.reader.cursor page := by
    rw [hread]
    exact foldl_cursor (fun e he => (h.bounded e (hstored e he).1).1.le) _
  refine ⟨h.sound, h.recorded, h.increasing, h.counter, h.bounded, h.owned, ?_, ?_, ?_, ?_⟩
  · have hupto := (h.upto.read (taskRows_increasing _ h.increasing) (pageSize limit)).1
    rw [← hpage] at hupto
    dsimp only
    rw [hcursor, hread]
    exact hupto
  · have hbehind : advance TaskEvent.ingestId feed.reader.cursor page <
        feed.db.eventIngestCounter + 1 := by
      rw [advance_lt_iff]
      refine ⟨by have := h.behind; omega, ?_⟩
      intro e he
      have := h.bounded e (hstored e he).1
      omega
    dsimp only
    rw [hcursor]
    omega
  · cases hlast : page.getLast? with
    | none =>
        have hempty : page = [] := by simpa using hlast
        dsimp only
        rw [hread, hempty]
        simpa [Reader.lastEventId] using h.bookmark
    | some last =>
        have hmem := List.mem_of_getLast? hlast
        have hreached := advance_getLast hsorted (fun e he => (hstored e he).2) hlast
        have hsome := foldl_cursor_isSome (List.ne_nil_of_mem hmem) feed.reader.afterIngest
        obtain ⟨after, hafter⟩ := Option.isSome_iff_exists.mp hsome
        have hpositive := (h.bounded last (hstored last hmem).1).1
        rw [hreached, Reader.cursor, hread] at hcursor
        simp only [hafter, Option.getD_some] at hcursor
        have hid : after = last.ingestId.toNat := by omega
        dsimp only
        rw [hread]
        simp [hafter, hid, Reader.lastEventId, List.getLast?_append, hlast, sseResumeAfter,
          h.query_zero]
  · dsimp only
    rw [hread]
    exact h.query

theorem step (h : Streams feed) (op : FeedOp)
    (hop : feed.reader.queryIngest = none → op.numbered = true) :
    Streams (feedStep feed op) := by
  cases op with
  | store op => exact h.write (.store op) hop
  | appendAuditEvent attemptId payload now =>
      exact h.write (.appendAuditEvent attemptId payload now) hop
  | read limit => exact (h.read limit).write (.read limit) (fun _ => rfl)
  | reconnect =>
      have hsame : feed.reader.reconnect = feed.reader := by
        rw [Reader.reconnect, ← h.bookmark]
      have hwrite := h.write .reconnect (fun _ => rfl)
      rw [feedStep, FeedOp.turn, hsame]
      exact hwrite

theorem queryIngest_step (feed : Feed) (op : FeedOp) :
    (feedStep feed op).reader.queryIngest = feed.reader.queryIngest ∧
      (feedStep feed op).reader.taskId = feed.reader.taskId := by
  cases op <;> exact ⟨rfl, rfl⟩

theorem queryIngest_run {feed' : Feed} {ops : List FeedOp}
    (hrun : Runs FeedStep feed ops feed') :
    feed'.reader.queryIngest = feed.reader.queryIngest := by
  refine Runs.invariant (fun s => s.reader.queryIngest = feed.reader.queryIngest) ?_ hrun rfl
  rintro s op _ hs rfl
  exact (queryIngest_step s op).1.trans hs

theorem run {feed' : Feed} {ops : List FeedOp} (hrun : Runs FeedStep feed ops feed')
    (h : Streams feed)
    (hops : feed.reader.queryIngest = none → ∀ op ∈ ops, op.numbered = true) :
    Streams feed' := by
  induction hrun with
  | refl => exact h
  | @next feed next last op ops hstep _ ih =>
      cases hstep
      refine ih (h.step op fun hquery => hops hquery op (by simp)) ?_
      intro hquery op' hop'
      rw [(queryIngest_step feed op).1] at hquery
      exact hops hquery op' (by simp [hop'])

theorem taskRows_step (h : Streams feed) (op : FeedOp) (k : String) :
    taskRows feed.db k <+: taskRows (feedStep feed op).db k := by
  obtain ⟨new, hnew, _⟩ := (@write_writes feed.db op).appended
  rw [feedStep, write_taskRows h.sound op h.owned k hnew]
  exact List.prefix_append _ _

theorem received_step (h : Streams feed) (op : FeedOp) (hop : op.roomy = true) {n : Nat}
    (hn : n ≤ (taskRows feed.db feed.reader.taskId).length) :
    min n (feed.reader.received.length + op.reads.toNat) ≤
      (feedStep feed op).reader.received.length := by
  cases op with
  | store op => exact min_le_right _ _
  | appendAuditEvent attemptId payload now => exact min_le_right _ _
  | reconnect => exact min_le_right _ _
  | read limit =>
      have hroom : 1 ≤ pageSize limit := by
        cases limit with
        | none => decide
        | some size =>
            have hsize : size ≠ 0 := by simpa [FeedOp.roomy] using hop
            simp only [pageSize, Option.getD_some, defaultEventPage]
            omega
      simp only [feedStep, FeedOp.turn, FeedOp.reads, Bool.toNat_true]
      rw [h.received_read limit, List.length_take]
      omega

/-- Every read with room brings the reader one event further, up to the
events that were there. -/
theorem progress {feed' : Feed} {ops : List FeedOp} (hrun : Runs FeedStep feed ops feed')
    (h : Streams feed)
    (hops : feed.reader.queryIngest = none → ∀ op ∈ ops, op.numbered = true)
    (hroomy : ∀ op ∈ ops, op.roomy = true) :
    taskRows feed.db feed.reader.taskId <+: taskRows feed'.db feed'.reader.taskId ∧
      ∀ n ≤ (taskRows feed.db feed.reader.taskId).length,
        min n (feed.reader.received.length + ops.countP FeedOp.reads) ≤
          feed'.reader.received.length := by
  induction hrun with
  | refl => exact ⟨List.prefix_rfl, fun n _ => by simp⟩
  | @next feed next last op ops hstep _ ih =>
      cases hstep
      have htask := queryIngest_step feed op
      have hrows := h.taskRows_step op feed.reader.taskId
      have hop := h.step op fun hquery => hops hquery op (by simp)
      obtain ⟨hlater, hcount⟩ := ih hop
        (fun hquery op' hop' => hops (htask.1 ▸ hquery) op' (by simp [hop']))
        (fun op' hop' => hroomy op' (by simp [hop']))
      rw [htask.2] at hlater hcount
      refine ⟨hrows.trans hlater, ?_⟩
      intro n hn
      have hfirst := h.received_step op (hroomy op (by simp)) hn
      have hrest := hcount n (le_trans hn hrows.length_le)
      rw [List.countP_cons]
      cases hreads : op.reads with
      | false =>
          rw [hreads, Bool.toNat_false] at hfirst
          simp only [Bool.false_eq_true, if_false]
          omega
      | true =>
          rw [hreads, Bool.toNat_true] at hfirst
          simp only [if_true]
          omega

end Streams

/-- Each slot is stored once with its first offer, numbers increase in the
order the rows were committed, and the reader holds the first events of its
task in that order. -/
structure Feed.ExactlyOnce (feed : Feed) : Prop where
  once : (feed.db.taskEvents.map fun e => (e.attemptId, e.sequence)).Nodup
  first : ∀ e ∈ feed.db.taskEvents,
    feed.offered.find? (fun o => decide (o.key = (e.attemptId, e.sequence))) = some e.offer
  stored : ∀ o ∈ feed.offered, ∃ e ∈ feed.db.taskEvents, (e.attemptId, e.sequence) = o.key
  increasing : feed.db.taskEvents.Pairwise fun e e' => e.ingestId < e'.ingestId
  delivered : feed.reader.received <+: taskRows feed.db feed.reader.taskId

theorem Streams.exactlyOnce {feed : Feed} (h : Streams feed) : feed.ExactlyOnce where
  once := by simpa [List.map_map, Function.comp_def, Offer.key, TaskEvent.offer] using
    h.recorded.once
  first e he := h.recorded.first e.offer (List.mem_map_of_mem he)
  stored o ho := by
    obtain ⟨e, he, hkey⟩ : ∃ e ∈ feed.db.taskEvents, e.offer.key = o.key := by
      simpa using h.recorded.all o ho
    exact ⟨e, he, hkey⟩
  increasing := h.increasing
  delivered := by
    rw [h.upto.received_eq]
    exact List.take_prefix _ _

/-- From any moment of any run: what is stored stays, later rows come after
it, and a reader that is served as many pages with room as there are events
of its task has received them all, in order and each once. -/
theorem event_stream_exactly_once {feed feed' feed'' : Feed} {ops ops' : List FeedOp}
    (hopened : feed.Opened) (hrun : Runs FeedStep feed ops feed')
    (hrun' : Runs FeedStep feed' ops' feed'')
    (hnumbered : feed.reader.queryIngest = none → ∀ op ∈ ops ++ ops', op.numbered = true) :
    feed'.ExactlyOnce ∧ feed''.ExactlyOnce ∧
      feed'.db.taskEvents <+: feed''.db.taskEvents ∧
      ((∀ op ∈ ops', op.roomy = true) →
        (taskRows feed'.db feed'.reader.taskId).length ≤ ops'.countP FeedOp.reads →
          taskRows feed'.db feed'.reader.taskId <+: feed''.reader.received) := by
  have hstreams : Streams feed' := hopened.streams.run hrun
    fun hquery op hop => hnumbered hquery op (List.mem_append_left _ hop)
  have hquery := Streams.queryIngest_run hrun
  have hlater : feed'.reader.queryIngest = none → ∀ op ∈ ops', op.numbered = true :=
    fun hnone op hop => hnumbered (hquery ▸ hnone) op (List.mem_append_right _ hop)
  have hstreams' := hstreams.run hrun' hlater
  refine ⟨hstreams.exactlyOnce, hstreams'.exactlyOnce, ?_, ?_⟩
  · refine Runs.invariant (fun s => feed'.db.taskEvents <+: s.db.taskEvents) ?_ hrun'
      List.prefix_rfl
    rintro s op _ hs rfl
    obtain ⟨new, hnew, _⟩ := (@write_writes s.db op).appended
    rw [feedStep, hnew]
    exact hs.trans (List.prefix_append _ _)
  · intro hroomy hreads
    obtain ⟨hrows, hcount⟩ := hstreams.progress hrun' hlater hroomy
    have hlength := hcount _ le_rfl
    rw [hstreams'.upto.received_eq]
    refine List.prefix_of_prefix_length_le hrows (List.take_prefix _ _) ?_
    rw [← hstreams'.upto.received_eq]
    omega

section Morning

def quietFeed (query : Option Nat) : Feed where
  db := { eventIngestCounter := 1 }
  reader := { taskId := "t1", queryIngest := query }

theorem quietFeed_opened {query : Option Nat} (h : query = some 0 ∨ query = none) :
    (quietFeed query).Opened where
  fresh := ⟨rfl, rfl, rfl⟩
  noEvents := rfl
  counter := rfl
  noOffers := rfl
  unread := rfl
  cursor := rfl
  query := by
    rcases h with rfl | rfl
    · exact .inl rfl
    · exact .inr ⟨rfl, rfl⟩

def spoken (sequence : Int) : IncomingEvent := ⟨sequence, .stdout, "\"line\""⟩

def spokenBatch (sequences : List Int) : FeedOp :=
  .store (.ingestEvents "a1" (sequences.map spoken) morning)

def eventful (query : Option Nat) (sequences : List Int) : Feed :=
  (firstAssignment.map FeedOp.store ++ [spokenBatch sequences]).foldl feedStep
    (quietFeed query)

/-- Two stored events are read one by one while a batch with one duplicate
comes in between. -/
theorem event_stream_exactly_once_paged :
    (taskRows (eventful none [2, 1, 2]).db "t1").length = 2 ∧
      taskRows (eventful none [2, 1, 2]).db "t1" <+:
        ([.read (some 1), spokenBatch [1, 3], .read (some 1)].foldl feedStep
          (eventful none [2, 1, 2])).reader.received :=
  ⟨by decide, (event_stream_exactly_once (quietFeed_opened (.inr rfl))
    (Runs.foldl feedStep (quietFeed none)
      (firstAssignment.map FeedOp.store ++ [spokenBatch [2, 1, 2]]))
    (Runs.foldl feedStep (eventful none [2, 1, 2])
      [.read (some 1), spokenBatch [1, 3], .read (some 1)]) (by decide)).2.2.2
        (by decide) (by decide)⟩

def Feed.served (feed : Feed) (n : Nat) (limit : Option Nat) : Feed :=
  (List.replicate n (FeedOp.read limit)).foldl feedStep feed

theorem served_of_fixed {feed : Feed} {limit : Option Nat}
    (h : feedStep feed (.read limit) = feed) (n : Nat) : feed.served n limit = feed := by
  induction n with
  | zero => rfl
  | succ n ih =>
      rw [Feed.served, List.replicate_succ, List.foldl_cons, h]
      exact ih

/-- A page of size zero never delivers, and a reader that starts without a
cursor passes over an event with sequence 0. -/
theorem event_stream_skips :
    (¬ ∃ n, taskRows (eventful (some 0) [1]).db "t1" <+:
      ((eventful (some 0) [1]).served n (some 0)).reader.received) ∧
    ¬ ∃ n, taskRows (eventful none [0, 1]).db "t1" <+:
      ((eventful none [0, 1]).served n (some 500)).reader.received := by
  have hzero : feedStep (eventful (some 0) [1]) (.read (some 0)) = eventful (some 0) [1] := by
    decide
  have hcaught : feedStep (feedStep (eventful none [0, 1]) (.read (some 500)))
      (.read (some 500)) = feedStep (eventful none [0, 1]) (.read (some 500)) := by
    decide
  constructor
  · rintro ⟨n, hn⟩
    rw [served_of_fixed hzero] at hn
    revert hn
    decide
  · rintro ⟨n, hn⟩
    cases n with
    | zero =>
        revert hn
        decide
    | succ n =>
        rw [Feed.served, List.replicate_succ, List.foldl_cons] at hn
        change _ <+: (Feed.served _ n (some 500)).reader.received at hn
        rw [served_of_fixed hcaught] at hn
        revert hn
        decide

end Morning

end AgentGrid.Store
