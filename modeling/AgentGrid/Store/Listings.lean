import AgentGrid.Foundation.Paging
import AgentGrid.Store.Consensus
import AgentGrid.Store.Tables
import Mathlib.Data.Prod.Lex
import Mathlib.Data.String.Basic

/-!
# Listings with a cursor

The task, node and audit listings with the queries, the handlers that give out a
cursor while the page is full, and a client that sends each cursor back.  A
returned view stands for its row; the first two listings go forward, the audit
trail goes back in time.
-/

namespace AgentGrid.Store.Listings

open AgentGrid.Foundation

/-! ## The queries -/

/-- `KEYSET_PREDICATE`. -/
def keysetPredicate (createdAt id : String) (after : String × String) : Bool :=
  createdAt > after.1 || createdAt == after.1 && id > after.2

/-- `created_at < ? OR (created_at = ? AND id < ?)`. -/
def keysetBefore (createdAt id : String) (before : String × String) : Bool :=
  createdAt < before.1 || createdAt == before.1 && id < before.2

/-- `ORDER BY created_at ASC, id ASC`. -/
def keysetOrder (r r' : String × String) : Prop := r.1 < r'.1 ∨ r.1 = r'.1 ∧ r.2 ≤ r'.2

instance : DecidableRel keysetOrder := fun _ _ => inferInstanceAs (Decidable (_ ∨ _))

def pageLimit (limit : Option Nat) : Nat := min (limit.getD 100) 1000

def taskMark (t : Task) : String × String := (t.createdAt, t.id)

def nodeMark (n : Node) : String × String := (n.createdAt, n.id)

def auditMark (e : Consensus.AuditEvent) : String × String := (e.createdAt, e.id)

/-- The filters of `GET /v1/tasks`. -/
structure TaskFilter where
  status : Option String := none
  repository : Option String := none
  nodeId : Option String := none

def TaskFilter.admits (q : TaskFilter) (db : Database) (t : Task) : Bool :=
  q.status.all (statusStr t.status == ·) && q.repository.all (t.repository == ·) &&
    q.nodeId.all fun nodeId => t.assignedAttemptId.any fun attempt =>
      db.attempts.any fun a => a.id == attempt && a.nodeId == nodeId

def listTasksFiltered (db : Database) (q : TaskFilter) (after : Option (String × String))
    (limit : Option Nat) : List Task :=
  ((db.tasks.filter fun t => after.all (keysetPredicate t.createdAt t.id) &&
      q.admits db t).insertionSort
    fun t t' => keysetOrder (taskMark t) (taskMark t')).take (pageLimit limit)

def maxNodes : Nat := 1000

def listNodes (db : Database) (after : Option (String × String)) (limit : Option Nat) :
    List Node :=
  ((db.nodes.filter fun n => after.all (keysetPredicate n.createdAt n.id)).insertionSort
    fun n n' => keysetOrder (nodeMark n) (nodeMark n')).take (min (limit.getD 100) maxNodes)

/-- A negative `LIMIT` is none. -/
def sqlLimit {ρ : Type} (limit : Int) (rows : List ρ) : List ρ :=
  if limit < 0 then rows else rows.take limit.toNat

def listAudit (events : List Consensus.AuditEvent) (action : Option String)
    (before : Option (String × String)) (limit : Int) : List Consensus.AuditEvent :=
  sqlLimit limit ((events.filter fun e => action.all (e.action == ·) &&
      before.all (keysetBefore e.createdAt e.id)).insertionSort
    fun e e' => keysetOrder (auditMark e') (auditMark e))

/-! ## The handlers -/

structure ListResponse (ρ : Type) where
  items : List ρ
  nextCursor : Option String

def cursorText (mark : String × String) : String := mark.1 ++ "," ++ mark.2

/-- The two parts of a query's cursor; only a complete pair is one. -/
structure CursorQuery where
  createdAt : Option String := none
  id : Option String := none

def CursorQuery.pair (q : CursorQuery) : Option (String × String) :=
  match q.createdAt, q.id with
  | some c, some i => if c ≠ "" ∧ i ≠ "" then some (c, i) else none
  | _, _ => none

def taskListing (db : Database) (q : TaskFilter) (after : CursorQuery) (limit : Option Nat) :
    ListResponse Task :=
  let items := listTasksFiltered db q after.pair limit
  ⟨items,
    if items.length = min (limit.getD 100) 1000 then
      items.getLast?.map fun t => cursorText (taskMark t)
    else none⟩

def nodeListing (db : Database) (after : CursorQuery) (limit : Option Nat) :
    ListResponse Node :=
  let items := listNodes db after.pair limit
  ⟨items,
    if items.length = min (limit.getD 100) 1000 then
      items.getLast?.map fun n => cursorText (nodeMark n)
    else none⟩

def auditListing (events : List Consensus.AuditEvent) (action : Option String) (before : CursorQuery)
    (limit : Option Int) : ListResponse Consensus.AuditEvent :=
  let limit := max 1 (min (limit.getD 100) 500)
  let items := listAudit events (action.filter (· != "")) before.pair limit
  ⟨items,
    if items.length = limit.toNat then items.getLast?.map fun e => cursorText (auditMark e)
    else none⟩

/-! ## A client -/

/-- The client cuts a cursor at its first comma. -/
def splitCursor (text : String) : Option (String × String) :=
  let createdAt := text.toList.takeWhile (· != ',')
  match text.toList.dropWhile (· != ',') with
  | [] => none
  | _ :: id =>
      if createdAt.isEmpty then none else some (String.ofList createdAt, String.ofList id)

def sendBack (cursor : Option (String × String)) : CursorQuery :=
  { createdAt := cursor.map Prod.fst, id := cursor.map Prod.snd }

/-- A client that asks until it gets no cursor; the limit may change from request to
request. -/
def followListing {ρ limit : Type} (handler : CursorQuery → limit → ListResponse ρ)
    (limits : Nat → limit) (fuel : Nat) : Option (List ρ) :=
  follow (fun i cursor =>
    let response := handler (sendBack cursor) (limits i)
    (response.items, response.nextCursor.bind splitCursor)) fuel 0 none

end AgentGrid.Store.Listings
