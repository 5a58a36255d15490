import AgentGrid.Acp.Replies
import AgentGrid.Foundation.Transition
import AgentGrid.Store.EventStream

/-!
# The gateway of an ACP client

`session_prompt` creates a task and polls its events, the pending approvals and its status
until the status is terminal.  `session_cancel` drops the session and cancels the task it
names.  Both are cut at their requests; the control plane works on between them, and a
request may reach it after its caller has given up.
-/

namespace AgentGrid.Acp

open AgentGrid.Foundation AgentGrid.Store
open AgentGrid.Node (Json)

structure SessionMeta where
  agent : String
  taskId : Option String := none
  lastUsed : Nat

/-- In nanoseconds, as all times of the gateway. -/
def askedTtl : Nat := 3600 * 1000000000

def sessionTtl : Nat := 24 * 3600 * 1000000000

/-- What comes of a request without a usable answer. -/
inductive Fault
  | status (line : String)
  | transport (text : String)

def Fault.error (call : String) : Fault → RpcError
  | .status line => ⟨-32000, call ++ " " ++ line, none⟩
  | .transport text => ⟨-32000, "transport: " ++ text, none⟩

def unknownSession : RpcError := ⟨-32000, "unknown session", none⟩

structure ApprovalView where
  id : String
  taskId : String
  permission : String

/-- The answer of `session_prompt`.  `visible` are the events of the task that were stored
before its status became visible. -/
structure PromptResult where
  status : TaskStatus
  errorCode : Option String
  visible : List TaskEvent

inductive PromptStage
  | creating
  | reading
  | listing
  | asking (approval : ApprovalView) (rest : List ApprovalView)
  | deciding (approvalId : String) (allow : Bool) (rest : List ApprovalView)
  | checking
  | returned (result : Except RpcError PromptResult)

/-- The events of this round are read and the status is not. -/
def PromptStage.polled : PromptStage → Bool
  | .listing | .asking _ _ | .deciding _ _ _ | .checking => true
  | _ => false

/-- A call of `session_prompt`: the create request on its way, and the reader of the task
once it is created, which has received what the client was sent. -/
structure PromptCall where
  sessionId : String
  request : Option CreateTaskRequest := none
  reader : Option Reader := none
  stage : PromptStage

/-- A call of `session_cancel`: the task of the cancel request on its way, and whether the
control plane accepted it. -/
structure CancelCall where
  sessionId : String
  post : Option String := none
  accepted : Option Bool := none
  result : Option (Except RpcError Unit) := none

/-- The gateway and its control plane.  `minted`, `requested` (the tasks whose cancel
request has arrived) and `shown` (the events stored before the latest terminal status of a
task) are records beside the code. -/
structure Bridge where
  db : Database
  offered : List Offer := []
  clock : Nat := 0
  sessions : String → Option SessionMeta := fun _ => none
  asked : String → Option Nat := fun _ => none
  prompts : Nat → Option PromptCall := fun _ => none
  cancels : Nat → Option CancelCall := fun _ => none
  decided : List (String × Bool) := []
  minted : List String := []
  requested : List String := []
  shown : String → List TaskEvent := fun _ => []

/-- The requests of `session_prompt` and what they come back with. -/
inductive PromptOp
  | createTask (id now : String)
  | created (fault : Option Fault)
  | getEvents (fault : Option Fault)
  | getPendingApprovals (answer : Option (List ApprovalView))
  | permission (answer : Option Json)
  | decideApproval
  | getTask (fault : Option Fault)

inductive CancelOp
  | cancelTask (now : String)
  | cancelled (fault : Option Fault)

inductive BridgeOp
  | write (op : FeedOp)
  | tick (nanos : Nat)
  | sessionNew (sessionId agent : String)
  | sessionPrompt (i : Nat) (sessionId prompt : String)
  | prompt (i : Nat) (op : PromptOp)
  | sessionCancel (j : Nat) (sessionId : String)
  | cancel (j : Nat) (op : CancelOp)

/-- A client that does not answer refuses. -/
def allowed (answer : Option Json) : Bool :=
  ((answer.bind fun v => v.get "allowed").bind Json.asBool).getD false

def promptRequest (m : SessionMeta) (prompt : String) : CreateTaskRequest where
  prompt := prompt
  repository := "*"
  adapter := m.agent
  timeoutSecs := some 3600
  maxAttempts := 1

/-- The loop over the approvals up to the next question: each approval of the task is put
to the client once. -/
def relay (clock : Nat) (taskId : String) :
    (String → Option Nat) → List ApprovalView → (String → Option Nat) × PromptStage
  | asked, [] => (asked, .checking)
  | asked, a :: rest =>
      if a.taskId ≠ taskId then relay clock taskId asked rest
      else
        let kept := fun id => (asked id).filter fun since => clock - since < askedTtl
        let asked' := fun id => if id = a.id then some clock else kept id
        if (kept a.id).isSome then relay clock taskId asked' rest else (asked', .asking a rest)

/-- A transaction gives the task a terminal status. -/
def closes (db db' : Database) (taskId : String) : Bool :=
  match db'.task taskId with
  | some row =>
      row.status.isTerminal && decide ((db.task taskId).map Task.status ≠ some row.status)
  | none => false

namespace Bridge

variable (w : Bridge)

def setPrompt (i : Nat) (p : PromptCall) : Bridge :=
  { w with prompts := fun k => if k = i then some p else w.prompts k }

def setCancel (j : Nat) (c : CancelCall) : Bridge :=
  { w with cancels := fun k => if k = j then some c else w.cancels k }

def write (op : FeedOp) : Bridge :=
  { w with
    db := op.write w.db
    offered := w.offered ++ op.offers w.db (op.write w.db)
    shown := fun k => if closes w.db (op.write w.db) k then taskRows w.db k else w.shown k }

/-- Idle sessions go when a session is opened. -/
def sessionNew (sessionId agent : String) : Bridge :=
  { w with
    sessions := fun s =>
      if s = sessionId then some { agent := agent, lastUsed := w.clock }
      else (w.sessions s).filter fun m => w.clock - m.lastUsed < sessionTtl
    minted := sessionId :: w.minted }

def publish (sessionId taskId : String) : Bridge :=
  { w with sessions := fun s =>
      if s = sessionId then
        (w.sessions s).map fun m => { m with taskId := some taskId, lastUsed := w.clock }
      else w.sessions s }

def relay (i : Nat) (p : PromptCall) (r : Reader) (pending : List ApprovalView) : Bridge :=
  let (asked, stage) := Acp.relay w.clock r.taskId w.asked pending
  { w with asked := asked }.setPrompt i { p with stage := stage }

/-- The session goes from the map before its task is cancelled. -/
def sessionCancel (j : Nat) (sessionId : String) : Bridge :=
  let post := (w.sessions sessionId).bind SessionMeta.taskId
  { w with sessions := fun s => if s = sessionId then none else w.sessions s }.setCancel j
    { sessionId := sessionId, post := post, result := if post.isSome then none else some (.ok ()) }

end Bridge

/-- The answer of a call of `session_prompt` that ends early. -/
def PromptCall.fail (p : PromptCall) (e : RpcError) : PromptCall :=
  { p with stage := .returned (.error e) }

def promptStep (w : Bridge) (i : Nat) (p : PromptCall) : PromptOp → Option Bridge
  | .createTask id now =>
      match p.request with
      | some req =>
          if (w.db.task id).isSome then none
          else some ((w.write (.store (.createTask req id now))).setPrompt i
            { p with request := none, reader := some { taskId := id, queryIngest := none } })
      | none => none
  | .created fault =>
      match p.stage, p.reader, fault with
      | .creating, some r, none =>
          some ((w.publish p.sessionId r.taskId).setPrompt i { p with stage := .reading })
      | .creating, _, some f => some (w.setPrompt i (p.fail (f.error "create_task")))
      | _, _, _ => none
  | .getEvents fault =>
      match p.stage, p.reader, fault with
      | .reading, some r, none =>
          some (w.setPrompt i { p with reader := some (r.read w.db none), stage := .listing })
      | .reading, _, some f => some (w.setPrompt i (p.fail (f.error "get_events")))
      | _, _, _ => none
  | .getPendingApprovals answer =>
      match p.stage, p.reader with
      | .listing, some r => some (w.relay i p r (answer.getD []))
      | _, _ => none
  | .permission answer =>
      match p.stage with
      | .asking a rest =>
          some (w.setPrompt i { p with stage := .deciding a.id (allowed answer) rest })
      | _ => none
  | .decideApproval =>
      match p.stage, p.reader with
      | .deciding id allow rest, some r =>
          some ({ w with decided := w.decided ++ [(id, allow)] }.relay i p r rest)
      | _, _ => none
  | .getTask fault =>
      match p.stage, p.reader, fault with
      | .checking, some r, none =>
          (w.db.task r.taskId).map fun row =>
            w.setPrompt i { p with
              stage := if row.status.isTerminal then
                .returned (.ok ⟨row.status, row.errorCode, w.shown r.taskId⟩)
              else .reading }
      | .checking, _, some f => some (w.setPrompt i (p.fail (f.error "get_task")))
      | _, _, _ => none

def cancelStep (w : Bridge) (j : Nat) (c : CancelCall) : CancelOp → Option Bridge
  | .cancelTask now =>
      c.post.map fun taskId =>
        { w.write (.store (.cancelTask taskId now)) with
          requested := taskId :: w.requested }.setCancel j
            { c with post := none, accepted := some (Store.cancelTask w.db taskId now).2 }
  | .cancelled fault =>
      match c.result, c.accepted, fault with
      | none, some true, none => some (w.setCancel j { c with result := some (.ok ()) })
      | none, some false, none =>
          some (w.setCancel j
            { c with result := some (.error ((Fault.status "404 Not Found").error "cancel_task")) })
      | none, _, some f =>
          some (w.setCancel j { c with result := some (.error (f.error "cancel_task")) })
      | _, _, _ => none

def bridgeStep (w : Bridge) : BridgeOp → Option Bridge
  | .write op => some (w.write op)
  | .tick nanos => some { w with clock := w.clock + nanos }
  | .sessionNew sessionId agent =>
      if sessionId ∈ w.minted then none else some (w.sessionNew sessionId agent)
  | .sessionPrompt i sessionId prompt =>
      match w.prompts i, w.sessions sessionId with
      | some _, _ => none
      | none, none =>
          some (w.setPrompt i
            { sessionId := sessionId, stage := .returned (.error unknownSession) })
      | none, some m =>
          some (w.setPrompt i
            { sessionId := sessionId
              request := some (promptRequest m prompt)
              stage := .creating })
  | .prompt i op => (w.prompts i).bind fun p => promptStep w i p op
  | .sessionCancel j sessionId =>
      if (w.cancels j).isSome then none else some (w.sessionCancel j sessionId)
  | .cancel j op => (w.cancels j).bind fun c => cancelStep w j c op

def BridgeStep (w : Bridge) (op : BridgeOp) (w' : Bridge) : Prop := bridgeStep w op = some w'

end AgentGrid.Acp
