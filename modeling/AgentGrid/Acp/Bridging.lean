import AgentGrid.Acp.Gateway
import AgentGrid.Store.Guarantees

/-!
# What a prompt streams and a cancel leaves

Events, approvals and status are read one after the other, so that what is stored between
the events and a terminal status is not sent.  The task of a prompt is cancelled through the
entry of its session, which names it once its creation is answered.
-/

namespace AgentGrid.Acp

open AgentGrid.Foundation AgentGrid.Store

def retriesTask (taskId : String) : FeedOp → Bool
  | .store op => op.retries taskId
  | _ => false

namespace Bridge

variable (w : Bridge)

/-- A prompt that has read its events of the round has read all events of its task, if the
transaction closes it. -/
def CaughtUp (op : FeedOp) : Prop :=
  ∀ i p r, w.prompts i = some p → p.reader = some r → p.stage.polled = true →
    closes w.db (op.write w.db) r.taskId = true →
      ∀ e ∈ taskRows w.db r.taskId, e.ingestId ≤ r.cursor

/-- No task of a cancelled session is retried before its cancel request has arrived. -/
def Settled (op : FeedOp) : Prop :=
  ∀ j c i p r, w.cancels j = some c → w.prompts i = some p → p.sessionId = c.sessionId →
    p.reader = some r → r.taskId ∉ w.requested → retriesTask r.taskId op = false

/-- A page that holds what is left of a closed task, and skips no event at the start. -/
def WholePage (r : Reader) : Prop :=
  (r.afterIngest = none → ∀ e ∈ taskRows w.db r.taskId, 0 < e.sequence) ∧
    (w.db.Finished r.taskId →
      ((taskRows w.db r.taskId).filter fun e => r.cursor < e.ingestId).length ≤ defaultEventPage)

/-- A task that a prompt of the session created and that goes on is the one its entry
names. -/
def Named (sessionId : String) : Prop :=
  ∀ i p r, w.prompts i = some p → p.sessionId = sessionId → p.reader = some r →
    r.taskId ∈ w.requested ∨ w.db.Finished r.taskId ∨
      (w.sessions sessionId).bind SessionMeta.taskId = some r.taskId

end Bridge

def BridgeOp.Timely (w : Bridge) : BridgeOp → Prop
  | .write op => w.CaughtUp op ∧ w.Settled op
  | .prompt i (.createTask _ _) =>
      ∀ p j c, w.prompts i = some p → w.cancels j = some c → c.sessionId ≠ p.sessionId
  | .prompt i (.getEvents none) =>
      ∀ p r, w.prompts i = some p → p.reader = some r → w.WholePage r
  | .sessionCancel _ sessionId => w.Named sessionId
  | .cancel j (.cancelTask now) =>
      ∀ c taskId, w.cancels j = some c → c.post = some taskId →
        w.CaughtUp (.store (.cancelTask taskId now))
  | .cancel j (.cancelled _) => ∀ c, w.cancels j = some c → c.post = none
  | _ => True

/-- The tables as the migrations leave them, and a gateway that has not been called. -/
structure Bridge.Opened (w : Bridge) : Prop where
  fresh : w.db.Fresh
  noEvents : w.db.taskEvents = []
  counter : w.db.eventIngestCounter = 1
  noOffers : w.offered = []
  noPrompts : ∀ i, w.prompts i = none
  noCancels : ∀ j, w.cancels j = none
  noneShown : ∀ k, w.shown k = []

/-! ## Readers -/

/-- The reader of a prompt, with a cursor from the start. -/
def fromStart (r : Reader) : Reader :=
  { r with queryIngest := some 0, afterIngest := some (r.afterIngest.getD 0) }

theorem foldl_getD (page : List TaskEvent) (after : Option Nat) :
    some ((page.foldl (fun after e => some (max (after.getD 0) e.ingestId.toNat)) after).getD 0) =
      page.foldl (fun after e => some (max (after.getD 0) e.ingestId.toNat))
        (some (after.getD 0)) := by
  induction page generalizing after with
  | nil => rfl
  | cons e page ih => exact ih _

theorem getEvents_fromStart {db : Database} {r : Reader} (hsequence : r.afterSequence = 0)
    (hbounded : ∀ e ∈ db.taskEvents, 0 < e.ingestId)
    (hpositive : r.afterIngest = none → ∀ e ∈ taskRows db r.taskId, 0 < e.sequence) :
    getEvents db r.taskId r.afterIngest r.afterSequence none none =
      getEvents db r.taskId (some (r.afterIngest.getD 0)) r.afterSequence none none := by
  cases hafter : r.afterIngest with
  | some after => rfl
  | none =>
      have hall : ((taskRows db r.taskId).filter fun e => (r.afterSequence : Int) < e.sequence) =
          (taskRows db r.taskId).filter fun e => ((0 : Nat) : Int) < e.ingestId := by
        apply List.filter_congr
        intro e he
        have hstored := hbounded e (List.mem_of_mem_filter he)
        simp [hsequence, hpositive hafter e he, hstored]
      simp only [getEvents, Option.getD_none, lt_irrefl, false_and, if_false, hall]

theorem fromStart_read {db : Database} {r : Reader} (hsequence : r.afterSequence = 0)
    (hbounded : ∀ e ∈ db.taskEvents, 0 < e.ingestId)
    (hpositive : r.afterIngest = none → ∀ e ∈ taskRows db r.taskId, 0 < e.sequence) :
    fromStart (r.read db none) = (fromStart r).read db none := by
  have hpage := getEvents_fromStart hsequence hbounded hpositive
  simp only [fromStart, Reader.read, ← hpage, foldl_getD]

/-- A reader of a prompt follows the events of its task. -/
structure Follows (db : Database) (offered : List Offer) (r : Reader) : Prop where
  streams : Streams ⟨db, offered, fromStart r⟩
  sequence : r.afterSequence = 0

namespace Follows

variable {db : Database} {offered : List Offer} {r : Reader}

theorem write (h : Follows db offered r) (op : FeedOp) :
    Follows (op.write db) (offered ++ op.offers db (op.write db)) r :=
  ⟨h.streams.write op (by simp [fromStart]), h.sequence⟩

theorem read (h : Follows db offered r)
    (hpositive : r.afterIngest = none → ∀ e ∈ taskRows db r.taskId, 0 < e.sequence) :
    Follows db offered (r.read db none) := by
  have hbounded : ∀ e ∈ db.taskEvents, 0 < e.ingestId := fun e he => (h.streams.bounded e he).1
  refine ⟨?_, h.sequence⟩
  rw [fromStart_read h.sequence hbounded hpositive]
  exact h.streams.read none

theorem delivered (h : Follows db offered r) :
    r.received <+: taskRows db r.taskId ∧
      r.received.Pairwise fun e e' => e.ingestId < e'.ingestId := by
  have hdelivered : r.received <+: taskRows db r.taskId := h.streams.exactlyOnce.delivered
  exact ⟨hdelivered,
    (taskRows_increasing r.taskId h.streams.increasing).sublist hdelivered.sublist⟩

/-- Nothing is left beyond the cursor. -/
theorem received_eq (h : Follows db offered r)
    (hread : ∀ e ∈ taskRows db r.taskId, e.ingestId ≤ r.cursor) :
    r.received = taskRows db r.taskId := by
  obtain ⟨rest, hsplit, hrest⟩ := h.streams.upto.split
  have hlog : taskRows db r.taskId = r.received ++ rest := hsplit
  have hnone : rest = [] := by
    rw [List.eq_nil_iff_forall_not_mem]
    intro e he
    have hle := hread e (by rw [hlog]; exact List.mem_append_right _ he)
    have hlt : r.cursor < e.ingestId := hrest e he
    omega
  rw [hlog, hnone, List.append_nil]

/-- A page with room for all that is left. -/
theorem received_read (h : Follows db offered r)
    (hpositive : r.afterIngest = none → ∀ e ∈ taskRows db r.taskId, 0 < e.sequence)
    (hroom : ((taskRows db r.taskId).filter fun e => r.cursor < e.ingestId).length ≤
      defaultEventPage) :
    (r.read db none).received = taskRows db r.taskId := by
  have hbounded : ∀ e ∈ db.taskEvents, 0 < e.ingestId := fun e he => (h.streams.bounded e he).1
  have hreceived : (r.read db none).received =
      (taskRows db r.taskId).take (r.received.length + pageSize none) := by
    have hread := h.streams.received_read none
    rw [← fromStart_read h.sequence hbounded hpositive] at hread
    exact hread
  have hunread : (taskRows db r.taskId).filter (fun e => r.cursor < e.ingestId) =
      (taskRows db r.taskId).drop r.received.length := h.streams.upto.unread
  rw [hunread, List.length_drop] at hroom
  rw [hreceived, List.take_of_length_le]
  have hsize : pageSize none = defaultEventPage := by decide
  omega

end Follows

/-! ## Closed tasks -/

theorem finished_iff {db : Database} (h : db.Sound) (taskId : String) :
    db.Finished taskId ↔ ∃ row, db.task taskId = some row ∧ row.status.isTerminal = true := by
  constructor
  · rintro ⟨row, hrow, rfl, hdone⟩
    exact ⟨row, lookup_of_mem (task_keys h) hrow, hdone⟩
  · rintro ⟨row, hrow, hdone⟩
    obtain ⟨hmem, hid⟩ := lookup_mem hrow
    exact ⟨row, hmem, hid, hdone⟩

theorem closes_createTask {db : Database} {req : CreateTaskRequest} {id now : String}
    (hfree : db.task id = none) (taskId : String) :
    closes db (step db (.createTask req id now)) taskId = false := by
  have htasks : (step db (.createTask req id now)).tasks = db.tasks ++ [req.task id now] := by
    simp only [step, createTask, hfree]
  have hlookup : (step db (.createTask req id now)).task taskId =
      (db.task taskId).or (lookup Task.id taskId [req.task id now]) := by
    rw [Database.task, htasks]
    exact List.find?_append
  unfold closes
  rw [hlookup]
  cases hrow : db.task taskId with
  | some row => simp
  | none =>
      cases hnew : lookup Task.id taskId [req.task id now] with
      | none => rfl
      | some row =>
          obtain ⟨hmem, _⟩ := lookup_mem hnew
          rw [List.mem_singleton.mp hmem]
          rfl

/-- A task that a transaction leaves closed was closed before, or is closed by it. -/
theorem finished_of_write {db db' : Database} (h : db.Sound) (h' : db'.Sound) {taskId : String}
    (hdone : db'.Finished taskId) (hopen : closes db db' taskId = false) :
    db.Finished taskId := by
  obtain ⟨row', hrow', hterminal⟩ := (finished_iff h' taskId).mp hdone
  simp only [closes, hrow', hterminal, Bool.true_and, decide_eq_false_iff_not, ne_eq,
    not_not] at hopen
  obtain ⟨row, hrow, hstatus⟩ := Option.map_eq_some_iff.mp hopen
  exact (finished_iff h taskId).mpr ⟨row, hrow, by rw [hstatus]; exact hterminal⟩

theorem finished_write {db : Database} (h : db.Sound) {op : FeedOp} {taskId : String}
    (hdone : db.Finished taskId) (hop : retriesTask taskId op = false) :
    (op.write db).Finished taskId := by
  have hsame : ∀ db' : Database, db'.tasks = db.tasks → db'.Finished taskId := by
    intro db' htasks
    rw [Database.Finished, htasks]
    exact hdone
  cases op with
  | store op => exact hdone.step h op hop
  | appendAuditEvent attemptId payload now =>
      simp only [FeedOp.write, appendAuditEvent]
      split
      · exact hdone
      · exact hsame _ rfl
  | read limit => exact hdone
  | reconnect => exact hdone

/-! ## The invariant -/

/-- What a prompt is owed: nothing that was stored before a terminal status is missing. -/
structure PromptCall.Served (db : Database) (offered : List Offer)
    (shown : String → List TaskEvent) (p : PromptCall) : Prop where
  follows : ∀ r, p.reader = some r → Follows db offered r
  polled : ∀ r, p.reader = some r → p.stage.polled = true → db.Finished r.taskId →
    shown r.taskId <+: r.received
  returned : ∀ result, p.stage = .returned (.ok result) → result.status.isTerminal = true ∧
    ∃ r, p.reader = some r ∧ result.visible <+: r.received
  waits : ∀ req, p.request = some req → p.reader = none ∧ p.stage.polled = false

/-- The task of a prompt is looked after by a call that cancels its session. -/
def CancelCall.Covers (db : Database) (requested : List String) (c : CancelCall)
    (p : PromptCall) : Prop :=
  ∀ r, p.sessionId = c.sessionId → p.reader = some r →
    r.taskId ∈ requested ∨ db.Finished r.taskId ∨ c.result = none ∧ c.post = some r.taskId

structure Bridged (w : Bridge) : Prop where
  log : ∀ k, Follows w.db w.offered { taskId := k, queryIngest := none }
  shown : ∀ k, w.shown k <+: taskRows w.db k
  served : ∀ i p, w.prompts i = some p → p.Served w.db w.offered w.shown
  covered : ∀ i j p c, w.prompts i = some p → w.cancels j = some c →
    c.Covers w.db w.requested p

theorem Bridge.Opened.bridged {w : Bridge} (h : w.Opened) : Bridged w where
  log k := by
    refine ⟨Feed.Opened.streams ?_, rfl⟩
    exact ⟨h.fresh, h.noEvents, h.counter, h.noOffers, rfl, rfl, .inl rfl⟩
  shown k := by
    rw [h.noneShown k]
    exact List.nil_prefix
  served i p hp := by
    rw [h.noPrompts i] at hp
    cases hp
  covered i j p c hp := by
    rw [h.noPrompts i] at hp
    cases hp

namespace Bridged

variable {w : Bridge} {i : Nat} {p : PromptCall}

theorem sound (h : Bridged w) : w.db.Sound := (h.log "").streams.sound

theorem taskRows_write (h : Bridged w) (op : FeedOp) (k : String) :
    taskRows w.db k <+: taskRows (op.write w.db) k :=
  (h.log k).streams.taskRows_step op k

/-- A transaction of the control plane. -/
theorem write (h : Bridged w) {op : FeedOp} (hcaught : w.CaughtUp op)
    (hsettled : w.Settled op) : Bridged (w.write op) := by
  have hsound' : (op.write w.db).Sound := write_sound h.sound op
  constructor
  · exact fun k => (h.log k).write op
  · intro k
    have hrows := h.taskRows_write op k
    change (if closes w.db (op.write w.db) k then taskRows w.db k else w.shown k) <+: _
    split
    · exact hrows
    · exact (h.shown k).trans hrows
  · intro i p hp
    have hserved := h.served i p hp
    refine ⟨fun r hr => (hserved.follows r hr).write op, ?_, hserved.returned, hserved.waits⟩
    intro r hr hpolled hdone
    change (if closes w.db (op.write w.db) r.taskId then taskRows w.db r.taskId
      else w.shown r.taskId) <+: r.received
    cases hcloses : closes w.db (op.write w.db) r.taskId with
    | true =>
        have hread := hcaught i p r hp hr hpolled hcloses
        rw [if_pos rfl, (hserved.follows r hr).received_eq hread]
    | false =>
        rw [if_neg (by simp)]
        exact hserved.polled r hr hpolled (finished_of_write h.sound hsound' hdone hcloses)
  · intro i j p c hp hc r hsession hr
    by_cases hrequested : r.taskId ∈ w.requested
    · exact .inl hrequested
    · rcases h.covered i j p c hp hc r hsession hr with harrived | hdone | howed
      · exact .inl harrived
      · have hop := hsettled j c i p r hc hp hsession hr hrequested
        exact .inr (.inl (finished_write h.sound hdone hop))
      · exact .inr (.inr howed)

theorem setPrompt (h : Bridged w) (hserved : p.Served w.db w.offered w.shown)
    (hcovered : ∀ j c, w.cancels j = some c → c.Covers w.db w.requested p) :
    Bridged (w.setPrompt i p) := by
  have hprompt : ∀ k q, (w.setPrompt i p).prompts k = some q → q = p ∨ w.prompts k = some q := by
    intro k q hq
    simp only [Bridge.setPrompt] at hq
    split at hq
    · exact .inl (Option.some.inj hq).symm
    · exact .inr hq
  refine ⟨h.log, h.shown, ?_, ?_⟩
  · intro k q hq
    rcases hprompt k q hq with rfl | hold
    · exact hserved
    · exact h.served k q hold
  · intro k j q c hq hc
    rcases hprompt k q hq with rfl | hold
    · exact hcovered j c hc
    · exact h.covered k j q c hold hc

/-- A call of `session_prompt` goes on to another stage. -/
theorem move (h : Bridged w) (hp : w.prompts i = some p) {stage : PromptStage}
    (hpolled : stage.polled = true → p.stage.polled = true)
    (hopen : ∀ result, stage ≠ .returned (.ok result)) :
    Bridged (w.setPrompt i { p with stage := stage }) := by
  have hserved := h.served i p hp
  refine h.setPrompt ⟨hserved.follows, ?_, ?_, ?_⟩ fun j c hc => h.covered i j p c hp hc
  · exact fun r hr hstage => hserved.polled r hr (hpolled hstage)
  · exact fun result hresult => absurd hresult (hopen result)
  · intro req hreq
    obtain ⟨hreader, hold⟩ := hserved.waits req hreq
    refine ⟨hreader, ?_⟩
    cases hstage : stage.polled with
    | false => rfl
    | true => rw [hpolled hstage] at hold; exact hold

theorem setCancel (h : Bridged w) {j : Nat} {c : CancelCall}
    (hcovered : ∀ i p, w.prompts i = some p → c.Covers w.db w.requested p) :
    Bridged (w.setCancel j c) := by
  refine ⟨h.log, h.shown, h.served, ?_⟩
  intro i k p c' hp hc'
  simp only [Bridge.setCancel] at hc'
  split at hc'
  · rw [← Option.some.inj hc']
    exact hcovered i p hp
  · exact h.covered i k p c' hp hc'

theorem createTask (h : Bridged w) (hp : w.prompts i = some p) {req : CreateTaskRequest}
    (hreq : p.request = some req) {id now : String} (hfree : w.db.task id = none)
    (hearly : ∀ j c, w.cancels j = some c → c.sessionId ≠ p.sessionId) :
    Bridged ((w.write (.store (.createTask req id now))).setPrompt i
      { p with request := none, reader := some { taskId := id, queryIngest := none } }) := by
  have hwrite : Bridged (w.write (.store (.createTask req id now))) := by
    refine h.write (fun i p r _ _ _ hcloses => ?_) fun _ _ _ _ _ _ _ _ _ _ => rfl
    have hopen := @closes_createTask _ req _ now hfree r.taskId
    exact absurd (hopen.symm.trans hcloses) (by decide)
  obtain ⟨hnone, hstage⟩ := (h.served i p hp).waits req hreq
  refine hwrite.setPrompt ⟨?_, ?_, ?_, ?_⟩ ?_
  · rintro r ⟨⟩
    exact hwrite.log id
  · intro r _ hpolled
    rw [hstage] at hpolled
    cases hpolled
  · intro result hresult
    obtain ⟨_, r, hr, _⟩ := (h.served i p hp).returned result hresult
    rw [hnone] at hr
    cases hr
  · intro req hreq
    cases hreq
  · intro j c hc r hsession
    exact absurd hsession.symm (hearly j c hc)

theorem read (h : Bridged w) (hp : w.prompts i = some p) {r : Reader} (hr : p.reader = some r)
    (hpage : w.WholePage r) :
    Bridged (w.setPrompt i { p with reader := some (r.read w.db none), stage := .listing }) := by
  have hserved := h.served i p hp
  have hfollows := hserved.follows r hr
  refine h.setPrompt ⟨?_, ?_, ?_, ?_⟩ ?_
  · rintro _ ⟨⟩
    exact hfollows.read hpage.1
  · rintro _ ⟨⟩ _ hdone
    rw [hfollows.received_read hpage.1 (hpage.2 hdone)]
    exact h.shown r.taskId
  · intro result hresult
    cases hresult
  · intro req hreq
    obtain ⟨hnone, _⟩ := hserved.waits req hreq
    rw [hr] at hnone
    cases hnone
  · rintro j c hc _ hsession ⟨⟩
    exact h.covered i j p c hp hc r hsession hr

/-- The status is terminal: what was read is all that was there. -/
theorem finish (h : Bridged w) (hp : w.prompts i = some p) {r : Reader}
    (hr : p.reader = some r) (hstage : p.stage.polled = true) {row : Task}
    (hrow : w.db.task r.taskId = some row) (hdone : row.status.isTerminal = true) :
    Bridged (w.setPrompt i { p with
      stage := .returned (.ok ⟨row.status, row.errorCode, w.shown r.taskId⟩) }) := by
  have hserved := h.served i p hp
  have hfinished := (finished_iff h.sound r.taskId).mpr ⟨row, hrow, hdone⟩
  refine h.setPrompt ⟨hserved.follows, ?_, ?_, ?_⟩ fun j c hc => h.covered i j p c hp hc
  · intro _ _ hpolled
    cases hpolled
  · rintro _ ⟨⟩
    exact ⟨hdone, r, hr, hserved.polled r hr hstage hfinished⟩
  · exact fun req hreq => ⟨(hserved.waits req hreq).1, rfl⟩

/-- The approvals are put to the client or passed over. -/
theorem relay_stage (clock : Nat) (taskId : String) (asked : String → Option Nat)
    (pending : List ApprovalView) :
    (relay clock taskId asked pending).2 = .checking ∨
      ∃ a rest, (relay clock taskId asked pending).2 = .asking a rest := by
  induction pending generalizing asked with
  | nil => exact .inl rfl
  | cons a rest ih =>
      rw [relay]
      split
      · exact ih asked
      · dsimp only
        split
        · exact ih _
        · exact .inr ⟨a, rest, rfl⟩

theorem relay (h : Bridged w) (hp : w.prompts i = some p) (hstage : p.stage.polled = true)
    (r : Reader) (pending : List ApprovalView) : Bridged (w.relay i p r pending) := by
  have hmoved : Bridged (w.setPrompt i
      { p with stage := (Acp.relay w.clock r.taskId w.asked pending).2 }) := by
    refine h.move hp (fun _ => hstage) fun result hresult => ?_
    rcases relay_stage w.clock r.taskId w.asked pending with hchecking | ⟨a, rest, hasking⟩
    · rw [hchecking] at hresult
      cases hresult
    · rw [hasking] at hresult
      cases hresult
  exact ⟨hmoved.log, hmoved.shown, hmoved.served, hmoved.covered⟩

theorem prompt (h : Bridged w) (hp : w.prompts i = some p) {op : PromptOp}
    (htimely : (BridgeOp.prompt i op).Timely w) {w' : Bridge}
    (hstep : promptStep w i p op = some w') : Bridged w' := by
  have hfail : ∀ e, Bridged (w.setPrompt i (p.fail e)) :=
    fun e => h.move hp nofun nofun
  cases op with
  | createTask id now =>
      simp only [promptStep] at hstep
      split at hstep
      · rename_i req hreq
        split at hstep
        · cases hstep
        · rename_i hfree
          obtain rfl := Option.some.inj hstep
          exact h.createTask hp hreq (by simpa using hfree) fun j c hc => htimely p j c hp hc
      · cases hstep
  | created fault =>
      simp only [promptStep] at hstep
      split at hstep
      · obtain rfl := Option.some.inj hstep
        have hmoved : Bridged (w.setPrompt i { p with stage := .reading }) :=
          h.move hp nofun nofun
        exact ⟨hmoved.log, hmoved.shown, hmoved.served, hmoved.covered⟩
      · obtain rfl := Option.some.inj hstep
        exact hfail _
      · cases hstep
  | getEvents fault =>
      simp only [promptStep] at hstep
      split at hstep
      · rename_i r hstage hr
        obtain rfl := Option.some.inj hstep
        exact h.read hp hr (htimely p r hp hr)
      · obtain rfl := Option.some.inj hstep
        exact hfail _
      · cases hstep
  | getPendingApprovals answer =>
      simp only [promptStep] at hstep
      split at hstep
      · rename_i r hstage hr
        obtain rfl := Option.some.inj hstep
        exact h.relay hp (by rw [hstage]; rfl) r _
      · cases hstep
  | permission answer =>
      simp only [promptStep] at hstep
      split at hstep
      · rename_i a rest hstage
        obtain rfl := Option.some.inj hstep
        exact h.move hp (fun _ => by rw [hstage]; rfl) nofun
      · cases hstep
  | decideApproval =>
      simp only [promptStep] at hstep
      split at hstep
      · rename_i id allow rest r hstage hr
        obtain rfl := Option.some.inj hstep
        have hdecided : Bridged { w with decided := w.decided ++ [(id, allow)] } :=
          ⟨h.log, h.shown, h.served, h.covered⟩
        exact hdecided.relay hp (by rw [hstage]; rfl) r rest
      · cases hstep
  | getTask fault =>
      simp only [promptStep] at hstep
      split at hstep
      · rename_i r hstage hr
        obtain ⟨row, hrow, rfl⟩ := Option.map_eq_some_iff.mp hstep
        have hpolled : p.stage.polled = true := by rw [hstage]; rfl
        split
        · rename_i hdone
          exact h.finish hp hr hpolled hrow hdone
        · exact h.move hp nofun nofun
      · obtain rfl := Option.some.inj hstep
        exact hfail _
      · cases hstep

theorem sessionCancel (h : Bridged w) (j : Nat) {sessionId : String}
    (hnamed : w.Named sessionId) : Bridged (w.sessionCancel j sessionId) := by
  have hkept : Bridged { w with
      sessions := fun s => if s = sessionId then none else w.sessions s } :=
    ⟨h.log, h.shown, h.served, h.covered⟩
  refine hkept.setCancel ?_
  intro i p hp r hsession hr
  rcases hnamed i p r hp hsession hr with hrequested | hdone | hentry
  · exact .inl hrequested
  · exact .inr (.inl hdone)
  · exact .inr (.inr ⟨by simp [hentry], hentry⟩)

theorem cancelTask (h : Bridged w) {j : Nat} {c : CancelCall} (hc : w.cancels j = some c)
    {taskId now : String} (hpost : c.post = some taskId)
    (hcaught : w.CaughtUp (.store (.cancelTask taskId now))) (accepted : Option Bool) :
    Bridged ({ w.write (.store (.cancelTask taskId now)) with
      requested := taskId :: w.requested }.setCancel j
        { c with post := none, accepted := accepted }) := by
  have hwrite := h.write hcaught fun _ _ _ _ _ _ _ _ _ _ => rfl
  have harrived : Bridged { w.write (.store (.cancelTask taskId now)) with
      requested := taskId :: w.requested } := by
    refine ⟨hwrite.log, hwrite.shown, hwrite.served, ?_⟩
    intro i k p c' hp hc' r hsession hr
    rcases hwrite.covered i k p c' hp hc' r hsession hr with hold | hrest
    · exact .inl (List.mem_cons_of_mem _ hold)
    · exact .inr hrest
  refine harrived.setCancel ?_
  intro i p hp r hsession hr
  rcases harrived.covered i j p c hp hc r hsession hr with hrequested | hdone | ⟨_, howed⟩
  · exact .inl hrequested
  · exact .inr (.inl hdone)
  · obtain rfl : taskId = r.taskId := Option.some.inj (hpost.symm.trans howed)
    exact .inl List.mem_cons_self

theorem cancelled (h : Bridged w) {j : Nat} {c : CancelCall} (hc : w.cancels j = some c)
    (harrived : c.post = none) (result : Except RpcError Unit) :
    Bridged (w.setCancel j { c with result := some result }) := by
  refine h.setCancel ?_
  intro i p hp r hsession hr
  rcases h.covered i j p c hp hc r hsession hr with hrequested | hdone | ⟨_, howed⟩
  · exact .inl hrequested
  · exact .inr (.inl hdone)
  · rw [harrived] at howed
    cases howed

theorem cancel (h : Bridged w) {j : Nat} {c : CancelCall} (hc : w.cancels j = some c)
    {op : CancelOp} (htimely : (BridgeOp.cancel j op).Timely w) {w' : Bridge}
    (hstep : cancelStep w j c op = some w') : Bridged w' := by
  cases op with
  | cancelTask now =>
      obtain ⟨taskId, hpost, rfl⟩ := Option.map_eq_some_iff.mp hstep
      exact h.cancelTask hc hpost (htimely c taskId hc hpost) _
  | cancelled fault =>
      have harrived := htimely c hc
      simp only [cancelStep] at hstep
      split at hstep
      · obtain rfl := Option.some.inj hstep
        exact h.cancelled hc harrived _
      · obtain rfl := Option.some.inj hstep
        exact h.cancelled hc harrived _
      · obtain rfl := Option.some.inj hstep
        exact h.cancelled hc harrived _
      · cases hstep

end Bridged

theorem bridged_step {w w' : Bridge} {op : BridgeOp} (h : Bridged w)
    (hstep : During BridgeStep (fun w op => op.Timely w) w op w') : Bridged w' := by
  obtain ⟨hstep, htimely⟩ := hstep
  rw [BridgeStep] at hstep
  cases op with
  | write op =>
      obtain rfl := Option.some.inj hstep
      exact h.write htimely.1 htimely.2
  | tick nanos =>
      obtain rfl := Option.some.inj hstep
      exact ⟨h.log, h.shown, h.served, h.covered⟩
  | sessionNew sessionId agent =>
      simp only [bridgeStep] at hstep
      split at hstep
      · cases hstep
      · obtain rfl := Option.some.inj hstep
        exact ⟨h.log, h.shown, h.served, h.covered⟩
  | sessionPrompt i sessionId prompt =>
      have hfresh : ∀ (request : Option CreateTaskRequest) (stage : PromptStage),
          stage.polled = false → (∀ result, stage ≠ .returned (.ok result)) →
            Bridged (w.setPrompt i ⟨sessionId, request, none, stage⟩) := by
        intro request stage hpolled hopen
        refine h.setPrompt ⟨nofun, nofun, ?_, fun _ _ => ⟨rfl, hpolled⟩⟩ fun _ _ _ => nofun
        exact fun result hresult => absurd hresult (hopen result)
      simp only [bridgeStep] at hstep
      split at hstep
      · cases hstep
      · obtain rfl := Option.some.inj hstep
        exact hfresh _ _ rfl nofun
      · obtain rfl := Option.some.inj hstep
        exact hfresh _ _ rfl nofun
  | prompt i op =>
      obtain ⟨p, hp, hprompt⟩ := Option.bind_eq_some_iff.mp hstep
      exact h.prompt hp htimely hprompt
  | sessionCancel j sessionId =>
      simp only [bridgeStep] at hstep
      split at hstep
      · cases hstep
      · obtain rfl := Option.some.inj hstep
        exact h.sessionCancel j htimely
  | cancel j op =>
      obtain ⟨c, hc, hcancel⟩ := Option.bind_eq_some_iff.mp hstep
      exact h.cancel hc htimely hcancel

/-! ## What a client can rely on -/

/-- A prompt that has returned a terminal status has sent every event stored before the
status became visible, each once and in ingest order. -/
def Bridge.Streamed (w : Bridge) : Prop :=
  ∀ i p result, w.prompts i = some p → p.stage = .returned (.ok result) →
    result.status.isTerminal = true ∧ ∃ r, p.reader = some r ∧
      result.visible <+: r.received ∧ r.received <+: taskRows w.db r.taskId ∧
        r.received.Pairwise fun e e' => e.ingestId < e'.ingestId

/-- After a cancel has returned, no task of its session goes on without a cancel request. -/
def Bridge.NoneLeft (w : Bridge) : Prop :=
  ∀ j c i p r, w.cancels j = some c → c.result ≠ none → w.prompts i = some p →
    p.sessionId = c.sessionId → p.reader = some r →
      r.taskId ∈ w.requested ∨ w.db.Finished r.taskId

theorem session_bridged {w w' : Bridge} {ops : List BridgeOp} (hopened : w.Opened)
    (h : Runs (During BridgeStep fun w op => op.Timely w) w ops w') :
    w'.Streamed ∧ w'.NoneLeft := by
  have hbridged : Bridged w' := h.invariant Bridged bridged_step hopened.bridged
  constructor
  · intro i p result hp hresult
    have hserved := hbridged.served i p hp
    obtain ⟨hdone, r, hr, hvisible⟩ := hserved.returned result hresult
    obtain ⟨hrows, hsorted⟩ := (hserved.follows r hr).delivered
    exact ⟨hdone, r, hr, hvisible, hrows, hsorted⟩
  · intro j c i p r hc hreturned hp hsession hr
    rcases hbridged.covered i j p c hp hc r hsession hr with hrequested | hdone | ⟨hnone, _⟩
    · exact .inl hrequested
    · exact .inr hdone
    · exact absurd hnone hreturned

def quietBridge : Bridge := { db := { eventIngestCounter := 1 } }

theorem quietBridge_opened : quietBridge.Opened where
  fresh := ⟨rfl, rfl, rfl⟩
  noEvents := rfl
  counter := rfl
  noOffers := rfl
  noPrompts _ := rfl
  noCancels _ := rfl
  noneShown _ := rfl

def opening : List BridgeOp := [.sessionNew "s1" "claude", .sessionPrompt 0 "s1" "fix it"]

/-- The task is cancelled from the client between two polls. -/
def cancelledTurn : List BridgeOp :=
  [.prompt 0 (.createTask "t1" morning), .prompt 0 (.created none), .sessionCancel 0 "s1",
    .cancel 0 (.cancelTask morning), .cancel 0 (.cancelled none), .prompt 0 (.getEvents none),
    .prompt 0 (.getPendingApprovals (some [])), .prompt 0 (.getTask none)]

theorem session_bridged_cancelled :
    ∃ w, Runs (During BridgeStep fun w op => op.Timely w) quietBridge (opening ++ cancelledTurn) w ∧
      w.requested = ["t1"] ∧ w.Streamed ∧ w.NoneLeft := by
  have hrun : ∃ w, Runs (During BridgeStep fun w op => op.Timely w) quietBridge
      (opening ++ cancelledTurn) w ∧ w.requested = ["t1"] := by
    refine ⟨_, .next ⟨rfl, trivial⟩ (.next ⟨rfl, trivial⟩ (.next ⟨rfl, ?_⟩ (.next ⟨rfl, trivial⟩
      (.next ⟨rfl, ?_⟩ (.next ⟨rfl, ?_⟩ (.next ⟨rfl, ?_⟩ (.next ⟨rfl, ?_⟩ (.next ⟨rfl, trivial⟩
        (.next ⟨rfl, trivial⟩ (.refl _)))))))))), rfl⟩
    · intro p j c _ hc
      cases hc
    · rintro (_ | i) p r hp _ hr
      · cases hp
        cases hr
        exact .inr (.inr rfl)
      · cases hp
    · intro c taskId _ _ i p r _ _ _ _ e he
      exact absurd (List.mem_of_mem_filter he) List.not_mem_nil
    · intro c hc
      cases hc
      rfl
    · intro p r _ _
      refine ⟨fun _ e he => ?_, fun _ => ?_⟩
      · exact absurd (List.mem_of_mem_filter he) List.not_mem_nil
      · exact Nat.zero_le _
  obtain ⟨w, hrun, hrequested⟩ := hrun
  obtain ⟨hstreamed, hleft⟩ := session_bridged quietBridge_opened hrun
  exact ⟨w, hrun, hrequested, hstreamed, hleft⟩

/-- The last event and the end of the task come after the events of the round are read. -/
def lateEvent : List BridgeOp :=
  [.write (.store (.registerOrTouchNode ⟨"n1", "n1", ["claude"], ["*"], 1⟩ morning)),
    .prompt 0 (.createTask "t1" morning), .prompt 0 (.created none),
    .write (.store (assignOne "a1")), .prompt 0 (.getEvents none),
    .write (.store (.ingestEvents "a1" [⟨1, .stdout, "null"⟩] morning)),
    .write (.store (.completeAttempt "a1" { exitCode := 1 } "p1" morning morning)),
    .prompt 0 (.getPendingApprovals (some [])), .prompt 0 (.getTask none)]

/-- The events stored in time and the events sent, of a prompt that has returned. -/
def Bridge.tally (w : Bridge) (i : Nat) : Option (Nat × Nat) :=
  (w.prompts i).bind fun p =>
    match p.stage, p.reader with
    | .returned (.ok result), some r => some (result.visible.length, r.received.length)
    | _, _ => none

theorem Bridge.Streamed.tally_le {w : Bridge} (h : w.Streamed) {i visible received : Nat}
    (htally : w.tally i = some (visible, received)) : visible ≤ received := by
  obtain ⟨p, hp, htally⟩ := Option.bind_eq_some_iff.mp htally
  split at htally
  · rename_i result r hstage hr
    obtain ⟨_, r', hr', hsent, _⟩ := h i p result hp hstage
    rw [hr] at hr'
    cases hr'
    cases htally
    exact hsent.length_le
  · cases htally

/-- The session is cancelled while the task of its prompt is being created. -/
def earlyCancel : List BridgeOp := [.sessionCancel 0 "s1", .prompt 0 (.createTask "t1" morning)]

theorem session_left_running :
    (¬ ∀ (w w' : Bridge) (ops : List BridgeOp), w.Opened → Runs BridgeStep w ops w' →
      w'.Streamed) ∧
    ¬ ∀ (w w' : Bridge) (ops : List BridgeOp), w.Opened → Runs BridgeStep w ops w' →
      w'.NoneLeft := by
  constructor
  · intro h
    have hends : ((opening ++ lateEvent).foldlM bridgeStep quietBridge).map (Bridge.tally · 0) =
        some (some (1, 0)) := by
      decide
    obtain ⟨w, hrun, htally⟩ := Option.map_eq_some_iff.mp hends
    have hstreamed := h _ w _ quietBridge_opened (Runs.of_foldlM hrun)
    exact absurd (hstreamed.tally_le htally) (by decide)
  · intro h
    have hrun : ∃ w, Runs BridgeStep quietBridge (opening ++ earlyCancel) w ∧ ¬ w.NoneLeft := by
      refine ⟨_, .next rfl (.next rfl (.next rfl (.next rfl (.refl _)))), ?_⟩
      intro hleft
      rcases hleft 0 _ 0 _ _ rfl nofun rfl rfl rfl with hrequested | ⟨row, hrow, _, hdone⟩
      · cases hrequested
      · cases List.mem_singleton.mp hrow
        cases hdone
    obtain ⟨w, hrun, hnot⟩ := hrun
    exact hnot (h _ w _ quietBridge_opened hrun)

end AgentGrid.Acp
