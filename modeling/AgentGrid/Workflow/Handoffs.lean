import AgentGrid.Workflow.State
import Mathlib.Logic.Function.Basic

/-!
# Handoff streaks

`emit_workflow_message` stores a message between two steps of a run and keeps up,
in the run's row, how often the same step has handed over to the same step in a
row.  `rebuild_handoff_streaks` computes these columns from the stored messages
when the control plane starts.  The columns are 64-bit integers, the replay
counts in 32 bits.
-/

namespace AgentGrid.Workflow

inductive AgentMessageKind
  | output | plan | note
deriving DecidableEq, Repr

/-- A row of `workflow_messages`. -/
structure MessageRow where
  id : String
  runId : String
  fromStepId : String
  toStepId : String
  kind : AgentMessageKind
  payload : String
  sequence : Nat
  createdAt : String
deriving DecidableEq, Repr

/-- The columns that the replay writes. -/
structure StreakColumns where
  handoffStreak : Nat := 0
  handoffStreakMax : Nat := 0
  handoffLastFrom : Option String := none
  handoffLastTo : Option String := none
deriving DecidableEq, Repr

/-- A row of `workflow_runs`. -/
structure MailboxRow where
  status : WorkflowRunStatus := .pending
  messageSequence : Nat := 0
  streak : StreakColumns := {}
deriving DecidableEq, Repr

structure Mailbox where
  runs : String → Option MailboxRow := fun _ => none
  messages : List MessageRow := []

/-- The `UPDATE` of the streak; its right sides read the columns as they were. -/
def StreakColumns.advance (c : StreakColumns) (fromStepId toStepId : String) : StreakColumns :=
  let again := c.handoffLastTo ≠ none ∧ c.handoffLastTo ≠ some "*" ∧
    c.handoffLastFrom = some fromStepId ∧ c.handoffLastTo = some toStepId
  { handoffStreak :=
      if toStepId = "*" then 0
      else if again then c.handoffStreak + 1
      else 1
    handoffStreakMax := max c.handoffStreakMax
      (if toStepId = "*" then c.handoffStreak
      else if again then c.handoffStreak + 1
      else 1)
    handoffLastFrom := some fromStepId
    handoffLastTo := some toStepId }

/-- What the caller passes, the fresh id and the time. -/
structure Emission where
  runId : String
  fromStepId : String
  toStepId : String
  kind : AgentMessageKind
  payload : String
  id : String
  now : String
deriving DecidableEq, Repr

/-- `none`: the transaction fails and leaves nothing, for a run that is not there,
a sequence beyond 64 bits or an id that is taken. -/
def emitWorkflowMessage (m : Emission) (db : Mailbox) : Option Mailbox :=
  match db.runs m.runId with
  | none => none
  | some row =>
      let seq := row.messageSequence + 1
      if 2 ^ 63 ≤ seq ∨ m.id ∈ db.messages.map MessageRow.id then none
      else some
        { runs := Function.update db.runs m.runId (some
            { row with
              messageSequence := seq
              streak := row.streak.advance m.fromStepId m.toStepId })
          messages := db.messages ++
            [⟨m.id, m.runId, m.fromStepId, m.toStepId, m.kind, m.payload, seq, m.now⟩] }

/-- `SELECT … FROM workflow_messages WHERE run_id = ? ORDER BY sequence ASC`. -/
def Mailbox.stored (db : Mailbox) (runId : String) : List MessageRow :=
  (db.messages.filter fun m => m.runId = runId).mergeSort fun a b => a.sequence ≤ b.sequence

/-! ## The replay -/

structure HandoffReplay where
  longest : UInt32 := 0
  cur : UInt32 := 0
  last : Option String × Option String := (none, none)
  tailFrom : Option String := none
  tailTo : Option String := none

def HandoffReplay.next (r : HandoffReplay) (m : MessageRow) : HandoffReplay :=
  let sender := some m.fromStepId
  let receiver := some m.toStepId
  if receiver = some "*" then
    { r with cur := 0, last := (sender, receiver), tailFrom := sender, tailTo := receiver }
  else
    let cur := if r.last = (sender, receiver) ∧ r.cur > 0 then r.cur + 1 else 1
    ⟨max r.longest cur, cur, (sender, receiver), sender, receiver⟩

def replayHandoffs (rows : List MessageRow) : HandoffReplay := rows.foldl HandoffReplay.next {}

def HandoffReplay.columns (r : HandoffReplay) : StreakColumns :=
  ⟨r.cur.toNat, r.longest.toNat, r.tailFrom, r.tailTo⟩

/-- What the replay of the messages of a run computes. -/
def Mailbox.replayed (db : Mailbox) (runId : String) : StreakColumns :=
  (replayHandoffs (db.stored runId)).columns

def rebuildHandoffStreaks (db : Mailbox) : Mailbox :=
  { db with runs := fun runId => (db.runs runId).map fun row =>
      if (row.status = .pending ∨ row.status = .running) ∧ db.stored runId ≠ [] then
        { row with streak := db.replayed runId }
      else row }

/-! ## Runs of the control plane -/

inductive MailboxOp
  | createRun (runId : String)
  | setStatus (runId : String) (status : WorkflowRunStatus)
  | emit (m : Emission)
  | restart

/-- An operation that fails changes nothing. -/
def Mailbox.apply (db : Mailbox) : MailboxOp → Mailbox
  | .createRun runId =>
      if db.runs runId = none then
        { db with runs := Function.update db.runs runId (some {}) }
      else db
  | .setStatus runId status =>
      let row := (db.runs runId).map fun row => { row with status := status }
      { db with runs := Function.update db.runs runId row }
  | .emit m => (emitWorkflowMessage m db).getD db
  | .restart => rebuildHandoffStreaks db

def Mailbox.after (ops : List MailboxOp) : Mailbox := ops.foldl Mailbox.apply {}

/-- The pairs of sender and receiver of the messages of a run. -/
def Mailbox.handoffs (db : Mailbox) (runId : String) : List (String × String) :=
  (db.stored runId).map fun m => (m.fromStepId, m.toStepId)

/-- Not a broadcast. -/
def Direct (handoff : String × String) : Prop := handoff.2 ≠ "*"

instance : DecidablePred Direct := fun _ => inferInstanceAs (Decidable (¬ _))

end AgentGrid.Workflow
