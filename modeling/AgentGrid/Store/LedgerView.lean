import AgentGrid.Foundation.Ledger
import AgentGrid.Store.Nodes
import AgentGrid.Store.Attempts
import AgentGrid.Store.Scheduler

/-!
# The store as a lease ledger

Tasks are holders, attempts are leases, nodes are hosts and `active_attempts`
counts the slots.  Every operation of the store is a sequence of ledger moves
(`Traced`), so what the ledger keeps, the store keeps.
-/

namespace AgentGrid.Store

open AgentGrid.Foundation AgentGrid.Foundation.Ledger

/-- A lease is an attempt's status with its `cancel_requested` flag. -/
def discipline : Discipline (AttemptStatus × Bool) TaskStatus where
  live s := s.1.inFlight
  marked s := s.2
  shows s := s.1.taskStatus
  busy := TaskStatus.inFlight
  ready s := s == .queued
  busy_shows s h := s.1.inFlight_taskStatus h
  ready_free r h := by
    rw [beq_iff_eq.mp h]
    rfl

def Task.holder (t : Task) : Holder String TaskStatus :=
  ⟨t.id, t.assignedAttemptId, t.status⟩

def Attempt.lease (a : Attempt) : Lease String (AttemptStatus × Bool) :=
  ⟨a.id, a.taskId, a.nodeId, (a.status, a.cancelRequested)⟩

def Node.host (n : Node) : Host String := ⟨n.id, n.activeAttempts⟩

def Database.ledger (db : Database) : Ledger String (AttemptStatus × Bool) TaskStatus :=
  ⟨db.tasks.map Task.holder, db.attempts.map Attempt.lease, db.nodes.map Node.host⟩

abbrev Database.Sound (db : Database) : Prop := db.ledger.Sound discipline

/-- `db` becomes `db'` by ledger moves, and the moves honor a cancel of every
task that is `quiet` under the operation. -/
def Stepped (db db' : Database) (quiet : String → Prop) : Prop :=
  ∃ ms, Moves discipline db.ledger ms db'.ledger ∧
    ∀ k, quiet k → ∀ m ∈ ms, Honors discipline k m

/-- The same, without a new attempt. -/
def Traced (db db' : Database) (quiet : String → Prop) : Prop :=
  ∃ ms, Moves discipline db.ledger ms db'.ledger ∧
    (∀ m ∈ ms, m.isGrant = false) ∧ ∀ k, quiet k → ∀ m ∈ ms, Honors discipline k m

theorem Stepped.sound {db db' : Database} {quiet : String → Prop}
    (h : Stepped db db' quiet) (hdb : db.Sound) : db'.Sound := by
  obtain ⟨ms, hms, _⟩ := h
  exact hms.sound hdb

namespace Traced

variable {db db' db'' : Database} {quiet quiet' : String → Prop}

theorem of_ledger_eq (h : db'.ledger = db.ledger) : Traced db db' quiet :=
  ⟨[], h ▸ Moves.none discipline db.ledger, by simp, by simp⟩

theorem one (m : Move String (AttemptStatus × Bool) TaskStatus) (hm : m.isGrant = false)
    (henabled : db.ledger.Enabled discipline m)
    (h : db'.ledger = db.ledger.apply discipline m)
    (hquiet : ∀ k, quiet k → Honors discipline k m) : Traced db db' quiet := by
  refine ⟨[m], h ▸ Moves.one henabled, ?_, ?_⟩
  · intro m' hm'
    rw [List.mem_singleton.mp hm']
    exact hm
  · intro k hk m' hm'
    rw [List.mem_singleton.mp hm']
    exact hquiet k hk

theorem trans (first : Traced db db' quiet) (second : Traced db' db'' quiet) :
    Traced db db'' quiet := by
  obtain ⟨ms, hms, hgrants, hfirst⟩ := first
  obtain ⟨ns, hns, hgrants', hsecond⟩ := second
  refine ⟨ms ++ ns, Runs.trans hms hns, ?_, ?_⟩
  · intro m hm
    rcases List.mem_append.mp hm with h | h
    · exact hgrants m h
    · exact hgrants' m h
  · intro k hk m hm
    rcases List.mem_append.mp hm with h | h
    · exact hfirst k hk m h
    · exact hsecond k hk m h

theorem mono (h : Traced db db' quiet) (hsub : ∀ k, quiet' k → quiet k) :
    Traced db db' quiet' := by
  obtain ⟨ms, hms, hgrants, hquiet⟩ := h
  exact ⟨ms, hms, hgrants, fun k hk => hquiet k (hsub k hk)⟩

theorem stepped (h : Traced db db' quiet) : Stepped db db' quiet := by
  obtain ⟨ms, hms, _, hquiet⟩ := h
  exact ⟨ms, hms, hquiet⟩

theorem sound (h : Traced db db' quiet) (hdb : db.Sound) : db'.Sound :=
  h.stepped.sound hdb

theorem activeAttempts_le (h : Traced db db' quiet) {bound : Nat}
    (hdb : ∀ n ∈ db.nodes, n.activeAttempts ≤ bound) :
    ∀ n ∈ db'.nodes, n.activeAttempts ≤ bound := by
  obtain ⟨ms, hms, hgrants, _⟩ := h
  intro n hn
  refine hms.used hgrants ?_ n.host (List.mem_map_of_mem hn)
  intro h hh
  obtain ⟨old, hold, rfl⟩ := List.mem_map.mp hh
  exact hdb old hold

end Traced

section Rows

variable {db : Database}

theorem task_keys (hdb : db.Sound) : (db.tasks.map Task.id).Nodup := by
  simpa [Database.ledger, List.map_map, Function.comp_def, Task.holder]
    using hdb.holder_keys

theorem attempt_keys (hdb : db.Sound) : (db.attempts.map Attempt.id).Nodup := by
  simpa [Database.ledger, List.map_map, Function.comp_def, Attempt.lease]
    using hdb.lease_keys

theorem node_keys (hdb : db.Sound) : (db.nodes.map Node.id).Nodup := by
  simpa [Database.ledger, List.map_map, Function.comp_def, Node.host]
    using hdb.host_keys

theorem lease_mem {a : Attempt} (ha : a ∈ db.attempts) : a.lease ∈ db.ledger.leases :=
  List.mem_map_of_mem ha

theorem owner_exists (hdb : db.Sound) {a : Attempt} (ha : a ∈ db.attempts) :
    ∃ t ∈ db.tasks, t.id = a.taskId := by
  obtain ⟨h, hh, hid⟩ := hdb.held a.lease (lease_mem ha)
  obtain ⟨t, ht, rfl⟩ := List.mem_map.mp hh
  exact ⟨t, ht, hid⟩

theorem owner_shows (hdb : db.Sound) {a : Attempt} (ha : a ∈ db.attempts)
    (hlive : a.status.inFlight = true) {t : Task} (ht : t ∈ db.tasks)
    (hid : t.id = a.taskId) :
    t.assignedAttemptId = some a.id ∧ t.status = a.status.taskStatus :=
  hdb.live_shown a.lease (lease_mem ha) hlive t.holder (List.mem_map_of_mem ht) hid

theorem owner_of_pointer (hdb : db.Sound) {a : Attempt} (ha : a ∈ db.attempts)
    {t : Task} (ht : t ∈ db.tasks) (hptr : t.assignedAttemptId = some a.id) :
    t.id = a.taskId := by
  have hbusy : t.status.inFlight = true := by
    by_contra hidle
    have hnone := hdb.idle_free t.holder (List.mem_map_of_mem ht)
      (Bool.eq_false_iff.mpr hidle)
    exact absurd (hptr.symm.trans hnone) (by simp)
  obtain ⟨l, hl, hholder, hlive⟩ := hdb.busy_live t.holder (List.mem_map_of_mem ht) hbusy
  obtain ⟨a', ha', rfl⟩ := List.mem_map.mp hl
  have hptr' := (owner_shows hdb ha' hlive ht hholder.symm).1
  have hsame := row_unique (attempt_keys hdb) ha ha'
    (Option.some.inj (hptr.symm.trans hptr'))
  rw [hsame]
  exact hholder.symm

theorem attempt_eq (hdb : db.Sound) {a r : Attempt} (ha : a ∈ db.attempts)
    (hr : r ∈ db.attempts) (hid : r.id = a.id) : r = a :=
  row_unique (attempt_keys hdb) hr ha hid

/-- A guard that the one row with the key satisfies selects that row alone. -/
theorem countP_key {ρ : Type} {key : ρ → String} {rows : List ρ}
    (hkeys : (rows.map key).Nodup) {row : ρ} (hrow : row ∈ rows) {p : ρ → Bool}
    (hp : ∀ r ∈ rows, p r = (key r == key row)) : rows.countP p = 1 := by
  have hcongr : rows.countP p = rows.countP fun r => key r == key row :=
    List.countP_congr fun r hr => by rw [hp r hr]
  have hmap : rows.countP (fun r => key r == key row) =
      (rows.map key).count (key row) := by
    rw [List.count, List.countP_map]
    rfl
  rw [hcongr, hmap]
  exact List.count_eq_one_of_mem hkeys (List.mem_map_of_mem hrow)

end Rows

section Writes

variable {db : Database}

/-- The writes on the attempt row and on its task that make an `advance`. -/
theorem ledger_advance (hdb : db.Sound) {a : Attempt} (ha : a ∈ db.attempts)
    {p : Attempt → Bool} {f : Attempt → Attempt} {q : Task → Bool} {g : Task → Task}
    (next : AttemptStatus × Bool)
    (hp : ∀ r ∈ db.attempts, p r = (r.id == a.id))
    (hf : (f a).lease = { a.lease with state := next })
    (hq : ∀ t ∈ db.tasks, q t = (t.id == a.taskId))
    (hg : ∀ t ∈ db.tasks, t.id = a.taskId →
      (g t).holder = ⟨t.id, some a.id, next.1.taskStatus⟩) :
    ((db.updateAttempts p f).updateTasks q g).ledger =
      db.ledger.apply discipline (.advance a.lease next) := by
  have hattempts : (updateWhere p f db.attempts).map Attempt.lease =
      db.ledger.setLease a.id next := by
    refine map_updateWhere hp ?_
    intro r hr hpr
    rw [hp r hr, beq_iff_eq] at hpr
    obtain rfl := attempt_eq hdb ha hr hpr
    exact hf
  have htasks : (updateWhere q g db.tasks).map Task.holder =
      db.ledger.setHolder a.taskId (some a.id) (discipline.shows next) := by
    refine map_updateWhere hq ?_
    intro t ht hqt
    rw [hq t ht, beq_iff_eq] at hqt
    exact hg t ht hqt
  rw [Ledger.apply]
  simp only [Database.ledger, Database.updateTasks, Database.updateAttempts]
  exact congrArg₂ (fun x y => Ledger.mk x y (db.nodes.map Node.host)) htasks hattempts

theorem host_freeSlots (nodeId : String) (count : Nat) (nodes : List Node) :
    (updateWhere (fun n => n.id == nodeId)
        (fun n => { n with activeAttempts := n.activeAttempts - count }) nodes).map
        Node.host =
      updateWhere (fun n => n.id == nodeId)
        (fun n => { n with used := n.used - count }) (nodes.map Node.host) := by
  refine map_updateWhere ?_ ?_
  · intro n _
    rfl
  · intro n _ _
    rfl

/-- The writes that make a `release`. -/
theorem ledger_release (hdb : db.Sound) {a : Attempt} (ha : a ∈ db.attempts)
    {p : Attempt → Bool} {f : Attempt → Attempt} {q : Task → Bool} {g : Task → Task}
    (next : AttemptStatus × Bool) (state : TaskStatus)
    (hp : ∀ r ∈ db.attempts, p r = (r.id == a.id))
    (hf : (f a).lease = { a.lease with state := next })
    (hq : ∀ t ∈ db.tasks, q t = (t.id == a.taskId))
    (hg : ∀ t ∈ db.tasks, t.id = a.taskId → (g t).holder = ⟨t.id, none, state⟩) :
    (((db.updateAttempts p f).updateTasks q g).freeSlots a.nodeId 1).ledger =
      db.ledger.apply discipline (.release a.lease next state) := by
  have hattempts : (updateWhere p f db.attempts).map Attempt.lease =
      db.ledger.setLease a.id next := by
    refine map_updateWhere hp ?_
    intro r hr hpr
    rw [hp r hr, beq_iff_eq] at hpr
    obtain rfl := attempt_eq hdb ha hr hpr
    exact hf
  have htasks : (updateWhere q g db.tasks).map Task.holder =
      db.ledger.setHolder a.taskId none state := by
    refine map_updateWhere hq ?_
    intro t ht hqt
    rw [hq t ht, beq_iff_eq] at hqt
    exact hg t ht hqt
  have hnodes := host_freeSlots a.nodeId 1 db.nodes
  rw [Ledger.apply]
  simp only [Database.ledger, Database.updateTasks, Database.updateAttempts,
    Database.freeSlots, Database.updateNodes]
  rw [hnodes]
  exact congrArg₂ (fun x y => Ledger.mk x y _) htasks hattempts

theorem ledger_settle (db : Database) (taskId : String) {g : Task → Task}
    (state : TaskStatus)
    (hg : ∀ t, (g t).holder = ⟨t.id, none, state⟩) :
    (db.updateTasks (fun t => t.id == taskId) g).ledger =
      db.ledger.apply discipline (.settle taskId state) := by
  have htasks : (updateWhere (fun t => t.id == taskId) g db.tasks).map Task.holder =
      db.ledger.setHolder taskId none state := by
    refine map_updateWhere ?_ ?_
    · intro t _
      rfl
    · intro t _ _
      exact hg t
  rw [Ledger.apply]
  simp only [Database.ledger, Database.updateTasks]
  exact congrArg (fun x => Ledger.mk x _ _) htasks

end Writes

end AgentGrid.Store
