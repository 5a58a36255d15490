import Mathlib.Data.Prod.Lex
import Mathlib.Data.String.Basic
import AgentGrid.Foundation.Paging
import AgentGrid.Foundation.Table
import AgentGrid.Foundation.Transition
import AgentGrid.Workflow.State

/-!
# Workflow schedules

A tick reads the stored schedules once, a page of them, and goes through it:
the slot of a schedule that is due is claimed by a compare-and-set on the time
of its last run, and the run is created after that.  Ticks may overlap.
-/

namespace AgentGrid.Workflow.Schedules

open AgentGrid.Foundation

/-- The conversions between unix seconds and RFC 3339 texts, for the seconds
that a date can hold. -/
structure Chrono where
  dated : Int → Bool
  unixToIso : Int → String
  isoToUnix : String → Option Int
  isoToUnix_unixToIso : ∀ n, dated n = true → isoToUnix (unixToIso n) = some n
  isoToUnix_empty : isoToUnix "" = none

inductive AutonomyLevel
  | l0 | l1 | l2 | l3 | l4
deriving Repr, DecidableEq

def parseAutonomyLevel (s : String) : Option AutonomyLevel :=
  match (trim s).toLower with
  | "l0" => some .l0
  | "l1" => some .l1
  | "l2" => some .l2
  | "l3" => some .l3
  | "l4" => some .l4
  | _ => none

structure WorkflowTemplate where
  budget : Option WorkflowBudget := none

def ratifyL4Schedule (template : WorkflowTemplate) (autonomy : String) : Except String Unit :=
  if autonomy != "l4" then .ok ()
  else if template.budget.isNone then
    .error ("l4 schedule requires the template to declare a budget; refuses to create a " ++
      "fully-autonomous trigger with no run budget")
  else .ok ()

structure WorkflowScheduleCreate where
  intervalSeconds : Int
  autonomy : String := "l2"
  enabled : Bool := true

structure WorkflowSchedule where
  id : String
  templateId : String
  intervalSeconds : Int
  autonomy : String := "l2"
  lastRunAt : String := ""
  enabled : Bool := true
  createdAt : String := ""
deriving Repr, DecidableEq

/-- The answers of the two queries for the template, the id and the time are
inputs. -/
def createWorkflowSchedule (templateId : String) (known : Bool)
    (template : Option WorkflowTemplate) (body : WorkflowScheduleCreate) (id now : String) :
    Except String WorkflowSchedule := do
  if !known then throw ("unknown workflow template " ++ templateId)
  if body.intervalSeconds < 1 then throw "interval_seconds must be >= 1"
  if (parseAutonomyLevel body.autonomy).isNone then
    throw ("unknown autonomy level: " ++ body.autonomy)
  if let some template := template then
    ratifyL4Schedule template body.autonomy
  return { id, templateId, intervalSeconds := body.intervalSeconds, autonomy := body.autonomy,
           enabled := body.enabled, createdAt := now }

def pageLimit (limit : Option Nat) : Nat := min (limit.getD 100) 1000

/-- `ORDER BY created_at ASC, id ASC`. -/
def WorkflowSchedule.position (s : WorkflowSchedule) : String ×ₗ String := toLex (s.createdAt, s.id)

def listWorkflowSchedules (rows : List WorkflowSchedule) (templateId : Option String)
    (after : Option (String × String)) (limit : Option Nat) : List WorkflowSchedule :=
  page WorkflowSchedule.position (pageLimit limit) (rows.filter fun s =>
    templateId.all (fun t => s.templateId == t) &&
    after.all fun cursor => decide (toLex cursor < s.position))

def lastRun (chrono : Chrono) (s : WorkflowSchedule) : Int :=
  if s.lastRunAt = "" then 0 else (chrono.isoToUnix s.lastRunAt).getD 0

/-- `UPDATE workflow_schedules SET last_run_at = ? WHERE id = ? AND last_run_at = ?`. -/
def claimSlot (rows : List WorkflowSchedule) (s : WorkflowSchedule) (nowIso : String) :
    List WorkflowSchedule × Nat :=
  let observed := fun row : WorkflowSchedule => row.id == s.id && row.lastRunAt == s.lastRunAt
  (updateWhere observed (fun row => { row with lastRunAt := nowIso }) rows, rows.countP observed)

/-- Where a call of `tick_workflow_schedules` stands. -/
inductive TickPhase
  | starting
  | scanning (schedules : List WorkflowSchedule)
  | creating (claim : Nat) (schedules : List WorkflowSchedule)
  | returned
  | failed
deriving Repr, DecidableEq

/-- A call, the table as it was when the call listed it, and the number of
claims made before that. -/
structure Tick where
  now : Int
  phase : TickPhase := .starting
  created : List String := []
  stored : List WorkflowSchedule := []
  since : Nat := 0
deriving Repr, DecidableEq

structure Claim where
  schedule : String
  time : Int
  interval : Int
deriving Repr, DecidableEq

structure Run where
  id : String
  claim : Nat
deriving Repr, DecidableEq

structure System where
  schedules : List WorkflowSchedule := []
  issued : List String := []
  ticks : List Tick := []
  claims : List Claim := []
  runs : List Run := []
deriving Repr, DecidableEq

inductive Event
  | create (templateId : String) (known : Bool) (template : Option WorkflowTemplate)
      (body : WorkflowScheduleCreate) (id now : String)
  | delete (id : String)
  | start (now : Int)
  /-- The next statement of a call, whether the database refuses it, and the run
  that `create_workflow_run` created if that is what it calls. -/
  | advance (tick : Nat) (refused : Bool := false) (run : Option String := none)
  | abandon (tick : Nat)

def System.move (S : System) (i : Nat) (t : Tick) : System := { S with ticks := S.ticks.set i t }

/-- One turn of the loop for the schedule at its head. -/
def System.visit (chrono : Chrono) (S : System) (i : Nat) (t : Tick) (s : WorkflowSchedule)
    (rest : List WorkflowSchedule) (refused : Bool) : System :=
  if !s.enabled then S.move i { t with phase := .scanning rest }
  else if t.now - lastRun chrono s < s.intervalSeconds then
    S.move i { t with phase := .scanning rest }
  else if refused then S.move i { t with phase := .failed }
  else
    let (schedules, claimed) := claimSlot S.schedules s (chrono.unixToIso t.now)
    if claimed != 1 then { S.move i { t with phase := .scanning rest } with schedules }
    else
      { S.move i { t with phase := .creating S.claims.length rest } with
        schedules, claims := S.claims ++ [⟨s.id, t.now, s.intervalSeconds⟩] }

/-- A call of `tick_workflow_schedules` up to its next await. -/
def System.advance (chrono : Chrono) (S : System) (i : Nat) (t : Tick) (refused : Bool)
    (run : Option String) : Option System :=
  match t.phase with
  | .starting =>
      if refused then some (S.move i { t with phase := .failed })
      else
        some (S.move i { t with
          phase := .scanning (listWorkflowSchedules S.schedules none none none)
          stored := S.schedules
          since := S.claims.length })
  | .scanning [] => some (S.move i { t with phase := .returned })
  | .scanning (s :: rest) => some (S.visit chrono i t s rest refused)
  | .creating claim rest =>
      match run with
      | some id =>
          some { S.move i { t with phase := .scanning rest, created := t.created ++ [id] } with
            runs := S.runs ++ [⟨id, claim⟩] }
      | none => some (S.move i { t with phase := .scanning rest })
  | .returned | .failed => none

/-- Schedule ids are fresh, and the callers pass the time of the clock. -/
def System.step (chrono : Chrono) (S : System) : Event → Option System
  | .create templateId known template body id now =>
      match createWorkflowSchedule templateId known template body id now with
      | .error _ => some S
      | .ok s =>
          if id ∈ S.issued then none
          else some { S with schedules := S.schedules ++ [s], issued := S.issued ++ [id] }
  | .delete id => some { S with schedules := S.schedules.filter fun s => s.id != id }
  | .start now => if chrono.dated now then some { S with ticks := S.ticks ++ [{ now }] } else none
  | .advance i refused run => S.ticks[i]?.bind fun t => S.advance chrono i t refused run
  | .abandon i => S.ticks[i]?.map fun t => S.move i { t with phase := .failed }

def Steps (chrono : Chrono) (S : System) (e : Event) (S' : System) : Prop :=
  S.step chrono e = some S'

/-- The interval has elapsed since the last run; empty is due now. -/
def WorkflowSchedule.due (chrono : Chrono) (now : Int) (s : WorkflowSchedule) : Bool :=
  s.lastRunAt == "" || (chrono.isoToUnix s.lastRunAt).any fun last =>
    decide (s.intervalSeconds ≤ now - last)

/-- Fewer schedules than a page holds come before one that is to fire, and one
that never ran has an interval that fits into the time since 1970. -/
def inReach (chrono : Chrono) (S : System) : Event → Bool
  | .advance i _ _ => S.ticks[i]?.all fun t => t.phase != .starting ||
      S.schedules.all fun s => !(s.enabled && s.due chrono t.now) ||
        (decide (rank WorkflowSchedule.position S.schedules s < pageLimit none) &&
          (s.lastRunAt != "" || decide (s.intervalSeconds ≤ t.now)))
  | _ => true

/-- A claim made since the tick listed the schedules. -/
def Fired (S : System) (t : Tick) (s : WorkflowSchedule) : Prop :=
  ∃ c ∈ S.claims.drop t.since, c.schedule = s.id

def Deleted (S : System) (s : WorkflowSchedule) : Prop :=
  ∀ row ∈ S.schedules, row.id ≠ s.id

/-! ## What a step does -/

/-- What the next statement of the call at `i` does. -/
inductive Moves (chrono : Chrono) (S : System) (i : Nat) (t : Tick) : System → Prop
  | fail : Moves chrono S i t (S.move i { t with phase := .failed })
  | list (hphase : t.phase = .starting)
      (hreach : ∀ s ∈ S.schedules, s.enabled = true → s.due chrono t.now = true →
        rank WorkflowSchedule.position S.schedules s < pageLimit none ∧
          (s.lastRunAt = "" → s.intervalSeconds ≤ t.now)) :
      Moves chrono S i t (S.move i { t with
        phase := .scanning (listWorkflowSchedules S.schedules none none none)
        stored := S.schedules
        since := S.claims.length })
  | finish (hphase : t.phase = .scanning []) :
      Moves chrono S i t (S.move i { t with phase := .returned })
  | pass {s : WorkflowSchedule} {rest : List WorkflowSchedule}
      (hphase : t.phase = .scanning (s :: rest))
      (hskip : s.enabled = false ∨ t.now - lastRun chrono s < s.intervalSeconds) :
      Moves chrono S i t (S.move i { t with phase := .scanning rest })
  | miss {s : WorkflowSchedule} {rest : List WorkflowSchedule}
      (hphase : t.phase = .scanning (s :: rest))
      (hmiss : ∀ row ∈ S.schedules, row.id = s.id → row.lastRunAt ≠ s.lastRunAt) :
      Moves chrono S i t (S.move i { t with phase := .scanning rest })
  | claim {s row : WorkflowSchedule} {rest : List WorkflowSchedule}
      (hphase : t.phase = .scanning (s :: rest))
      (hdue : s.intervalSeconds ≤ t.now - lastRun chrono s)
      (hrow : row ∈ S.schedules) (hid : row.id = s.id) (hlast : row.lastRunAt = s.lastRunAt) :
      Moves chrono S i t { S.move i { t with phase := .creating S.claims.length rest } with
        schedules := (claimSlot S.schedules s (chrono.unixToIso t.now)).1
        claims := S.claims ++ [⟨s.id, t.now, s.intervalSeconds⟩] }
  | book {claim : Nat} {rest : List WorkflowSchedule} {id : String}
      (hphase : t.phase = .creating claim rest) :
      Moves chrono S i t { S.move i { t with
          phase := .scanning rest
          created := t.created ++ [id] } with
        runs := S.runs ++ [⟨id, claim⟩] }
  | drop {claim : Nat} {rest : List WorkflowSchedule} (hphase : t.phase = .creating claim rest) :
      Moves chrono S i t (S.move i { t with phase := .scanning rest })

theorem claimSlot_none {rows : List WorkflowSchedule} {s : WorkflowSchedule} {nowIso : String}
    (h : (claimSlot rows s nowIso).2 = 0) :
    (claimSlot rows s nowIso).1 = rows ∧
      ∀ row ∈ rows, row.id = s.id → row.lastRunAt ≠ s.lastRunAt := by
  have hnone := List.countP_eq_zero.mp h
  refine ⟨updateWhere_of_forall_not fun row hrow => by simpa using hnone row hrow, ?_⟩
  intro row hrow hid hlast
  exact hnone row hrow (by simp [hid, hlast])

theorem claimSlot_some {rows : List WorkflowSchedule} {s : WorkflowSchedule} {nowIso : String}
    (h : (claimSlot rows s nowIso).2 ≠ 0) :
    ∃ row ∈ rows, row.id = s.id ∧ row.lastRunAt = s.lastRunAt := by
  obtain ⟨row, hrow, hobserved⟩ := List.countP_pos_iff.mp (Nat.pos_of_ne_zero h)
  simp only [Bool.and_eq_true, beq_iff_eq] at hobserved
  exact ⟨row, hrow, hobserved⟩

/-- A schedule is one row. -/
theorem claimSlot_le {rows : List WorkflowSchedule} (hkeyed : (rows.map WorkflowSchedule.id).Nodup)
    (s : WorkflowSchedule) (nowIso : String) : (claimSlot rows s nowIso).2 ≤ 1 := by
  have hcount : (rows.map WorkflowSchedule.id).count s.id ≤ 1 := List.nodup_iff_count_le_one.mp hkeyed _
  rw [List.count, List.countP_map] at hcount
  refine le_trans (List.countP_mono_left ?_) hcount
  intro row _ hobserved
  simp only [Bool.and_eq_true] at hobserved
  exact hobserved.1

theorem visit_moves {chrono : Chrono} {S : System} {i : Nat} {t : Tick} {s : WorkflowSchedule}
    {rest : List WorkflowSchedule} {refused : Bool}
    (hkeyed : (S.schedules.map WorkflowSchedule.id).Nodup)
    (hphase : t.phase = .scanning (s :: rest)) :
    Moves chrono S i t (S.visit chrono i t s rest refused) := by
  unfold System.visit
  split
  · rename_i henabled
    exact .pass hphase (.inl (by simpa using henabled))
  split
  · rename_i hearly
    exact .pass hphase (.inr hearly)
  rename_i hdue
  split
  · exact .fail
  have hle := claimSlot_le hkeyed s (chrono.unixToIso t.now)
  dsimp only
  split
  · rename_i hmiss
    have hzero : (claimSlot S.schedules s (chrono.unixToIso t.now)).2 = 0 := by
      have : (claimSlot S.schedules s (chrono.unixToIso t.now)).2 ≠ 1 := by simpa using hmiss
      omega
    obtain ⟨hsame, hnone⟩ := claimSlot_none hzero
    rw [hsame]
    exact .miss hphase hnone
  · rename_i hhit
    have hone : (claimSlot S.schedules s (chrono.unixToIso t.now)).2 = 1 := by simpa using hhit
    obtain ⟨row, hrow, hid, hlast⟩ := claimSlot_some (hone.trans_ne one_ne_zero)
    exact .claim hphase (not_lt.mp hdue) hrow hid hlast

theorem advance_moves {chrono : Chrono} {S S' : System} {i : Nat} {t : Tick} {refused : Bool}
    {run : Option String} (hkeyed : (S.schedules.map WorkflowSchedule.id).Nodup)
    (hreach : t.phase = .starting → ∀ s ∈ S.schedules, s.enabled = true →
      s.due chrono t.now = true → rank WorkflowSchedule.position S.schedules s < pageLimit none ∧
        (s.lastRunAt = "" → s.intervalSeconds ≤ t.now))
    (h : S.advance chrono i t refused run = some S') : Moves chrono S i t S' := by
  unfold System.advance at h
  split at h
  · rename_i hphase
    split at h <;> cases h
    · exact .fail
    · exact .list hphase (hreach hphase)
  · rename_i hphase
    cases h
    exact .finish hphase
  · rename_i s rest hphase
    cases h
    exact visit_moves hkeyed hphase
  · rename_i claim rest hphase
    split at h <;> cases h
    · exact .book hphase
    · exact .drop hphase
  · cases h
  · cases h

/-- What a step does to the system. -/
inductive Acts (chrono : Chrono) (S : System) : System → Prop
  | none : Acts chrono S S
  | create {s : WorkflowSchedule} (hfresh : s.id ∉ S.issued) (hnever : s.lastRunAt = "")
      (hinterval : 1 ≤ s.intervalSeconds) :
      Acts chrono S
        { S with schedules := S.schedules ++ [s], issued := S.issued ++ [s.id] }
  | delete (id : String) :
      Acts chrono S { S with schedules := S.schedules.filter fun s => s.id != id }
  | start {now : Int} (hdated : chrono.dated now = true) :
      Acts chrono S { S with ticks := S.ticks ++ [{ now }] }
  | move {i : Nat} {t : Tick} {S' : System} (htick : S.ticks[i]? = some t)
      (hmoves : Moves chrono S i t S') : Acts chrono S S'

theorem createWorkflowSchedule_ok {templateId : String} {known : Bool}
    {template : Option WorkflowTemplate} {body : WorkflowScheduleCreate} {id now : String}
    {s : WorkflowSchedule}
    (h : createWorkflowSchedule templateId known template body id now = .ok s) :
    s.id = id ∧ s.lastRunAt = "" ∧ 1 ≤ s.intervalSeconds := by
  by_cases hpositive : body.intervalSeconds < 1
  · cases known <;> simp [createWorkflowSchedule, hpositive, bind, Except.bind, throw,
      throwThe, MonadExceptOf.throw] at h
  · have hs : s = ⟨id, templateId, body.intervalSeconds, body.autonomy, "", body.enabled, now⟩ := by
      unfold createWorkflowSchedule at h
      simp only [bind, Except.bind, throw, throwThe, MonadExceptOf.throw, pure, Except.pure] at h
      repeat' split at h
      all_goals first | exact (Except.ok.inj h).symm | cases h
    rw [hs]
    exact ⟨rfl, rfl, not_lt.mp hpositive⟩

theorem step_acts {chrono : Chrono} {S S' : System} {e : Event}
    (hkeyed : (S.schedules.map WorkflowSchedule.id).Nodup)
    (h : During (Steps chrono) (fun S e => inReach chrono S e = true) S e S') :
    Acts chrono S S' := by
  obtain ⟨hstep, hreach⟩ := h
  cases e with
  | create templateId known template body id now =>
      simp only [Steps, System.step] at hstep
      split at hstep
      · cases hstep
        exact .none
      rename_i s hok
      obtain ⟨rfl, hnever, hinterval⟩ := createWorkflowSchedule_ok hok
      split at hstep <;> cases hstep
      rename_i hfresh
      exact .create hfresh hnever hinterval
  | delete id =>
      cases hstep
      exact .delete id
  | start now =>
      simp only [Steps, System.step] at hstep
      split at hstep <;> cases hstep
      rename_i hdated
      exact .start hdated
  | advance i refused run =>
      obtain ⟨t, htick, hadvance⟩ := Option.bind_eq_some_iff.mp hstep
      refine .move htick (advance_moves hkeyed ?_ hadvance)
      intro hphase s hs henabled hdue
      have hall : (S.schedules.all fun s => !(s.enabled && s.due chrono t.now) ||
          (decide (rank WorkflowSchedule.position S.schedules s < pageLimit none) &&
            (s.lastRunAt != "" || decide (s.intervalSeconds ≤ t.now)))) = true := by
        simpa [inReach, htick, hphase] using hreach
      have hs' := List.all_eq_true.mp hall s hs
      simp only [henabled, hdue, Bool.and_self, Bool.not_true, Bool.false_or, Bool.and_eq_true,
        decide_eq_true_eq, Bool.or_eq_true, bne_iff_ne] at hs'
      exact ⟨hs'.1, fun hnever => hs'.2.resolve_left fun hne => hne hnever⟩
  | abandon i =>
      obtain ⟨t, htick, rfl⟩ := Option.map_eq_some_iff.mp hstep
      exact .move htick .fail

/-! ## What every run keeps -/

theorem lastRun_of_told {chrono : Chrono} {s : WorkflowSchedule} {last : Int}
    (hdated : chrono.dated last = true) (hlast : s.lastRunAt = chrono.unixToIso last) :
    lastRun chrono s = last := by
  have hread := chrono.isoToUnix_unixToIso last hdated
  have hne : s.lastRunAt ≠ "" := by
    intro hempty
    rw [← hlast, hempty, chrono.isoToUnix_empty] at hread
    cases hread
  rw [lastRun, if_neg hne, hlast, hread, Option.getD_some]

/-- What stays true of a row that a tick has listed. -/
structure Noted (S : System) (t : Tick) (s : WorkflowSchedule) : Prop where
  issued : s.id ∈ S.issued
  interval : ∀ row ∈ S.schedules, row.id = s.id → row.intervalSeconds = s.intervalSeconds
  fate : s ∈ S.schedules ∨ Fired S t s ∨ Deleted S s

/-- The schedules that a call has still to visit. -/
def TickPhase.pending : TickPhase → Option (List WorkflowSchedule)
  | .scanning schedules | .creating _ schedules => some schedules
  | .returned => some []
  | .starting | .failed => none

def Owes (S : System) (t : Tick) (pending : List WorkflowSchedule) (s : WorkflowSchedule) : Prop :=
  s ∈ pending ∨ Fired S t s ∨ Deleted S s

structure Tick.Sound (chrono : Chrono) (S : System) (t : Tick) : Prop where
  dated : chrono.dated t.now = true
  since : t.since ≤ S.claims.length
  noted : ∀ s ∈ t.stored, Noted S t s
  reached : ∀ pending, t.phase.pending = some pending → ∀ s ∈ t.stored, s.enabled = true →
    s.due chrono t.now = true → s.lastRunAt = "" → s.intervalSeconds ≤ t.now
  listed : ∀ pending, t.phase.pending = some pending → ∀ s ∈ pending, s ∈ t.stored
  owes : ∀ pending, t.phase.pending = some pending → ∀ s ∈ t.stored, s.enabled = true →
    s.due chrono t.now = true → Owes S t pending s

structure Sound (chrono : Chrono) (S : System) : Prop where
  keyed : (S.schedules.map WorkflowSchedule.id).Nodup
  issued : ∀ s ∈ S.schedules, s.id ∈ S.issued
  claimed : ∀ c ∈ S.claims, c.schedule ∈ S.issued
  positive : ∀ s ∈ S.schedules, 1 ≤ s.intervalSeconds
  latest : ∀ s ∈ S.schedules, (s.lastRunAt = "" ∧ ∀ c ∈ S.claims, c.schedule ≠ s.id) ∨
    ∃ last, chrono.dated last = true ∧ s.lastRunAt = chrono.unixToIso last ∧
      ∀ c ∈ S.claims, c.schedule = s.id → c.time ≤ last ∧ c.interval = s.intervalSeconds
  spaced : S.claims.Pairwise fun c d => c.schedule = d.schedule → c.interval ≤ d.time - c.time
  ticks : ∀ t ∈ S.ticks, t.Sound chrono S

/-- What a step leaves of a listing. -/
structure Grows (S S' : System) : Prop where
  issued : ∀ id ∈ S.issued, id ∈ S'.issued
  claims : S.claims <+: S'.claims
  rows : ∀ row ∈ S'.schedules, row.id ∈ S.issued →
    ∃ old ∈ S.schedules, old.id = row.id ∧ old.intervalSeconds = row.intervalSeconds
  fate : ∀ s ∈ S.schedules, s ∈ S'.schedules ∨
    (∃ c ∈ S'.claims.drop S.claims.length, c.schedule = s.id) ∨ Deleted S' s

section Growth

variable {chrono : Chrono} {S S' : System} {t : Tick} {s : WorkflowSchedule}

theorem Grows.of_eq (hschedules : S'.schedules = S.schedules) (hissued : S'.issued = S.issued)
    (hclaims : S'.claims = S.claims) : Grows S S' where
  issued _ hid := hissued ▸ hid
  claims := hclaims ▸ List.prefix_rfl
  rows row hrow _ := ⟨row, hschedules ▸ hrow, rfl, rfl⟩
  fate _ hs := .inl (hschedules ▸ hs)

theorem Grows.fired (h : Grows S S') (hfired : Fired S t s) : Fired S' t s := by
  obtain ⟨c, hc, hid⟩ := hfired
  obtain ⟨more, hmore⟩ := h.claims
  refine ⟨c, ?_, hid⟩
  rw [← hmore, List.drop_append]
  exact List.mem_append_left _ hc

theorem Grows.deleted (h : Grows S S') (hid : s.id ∈ S.issued) (hdeleted : Deleted S s) :
    Deleted S' s := by
  intro row hrow hsame
  obtain ⟨old, hold, holdid, -⟩ := h.rows row hrow (hsame ▸ hid)
  exact hdeleted old hold (holdid.trans hsame)

theorem Grows.noted (h : Grows S S') (hsince : t.since ≤ S.claims.length) (hnoted : Noted S t s) :
    Noted S' t s where
  issued := h.issued _ hnoted.issued
  interval row hrow hid := by
    obtain ⟨old, hold, holdid, hinterval⟩ := h.rows row hrow (hid ▸ hnoted.issued)
    rw [← hinterval, hnoted.interval old hold (holdid.trans hid)]
  fate := by
    rcases hnoted.fate with hs | hfired | hdeleted
    · rcases h.fate s hs with hkept | ⟨c, hc, hid⟩ | hgone
      · exact .inl hkept
      · exact .inr (.inl ⟨c, (List.drop_subset_drop_left _ hsince) hc, hid⟩)
      · exact .inr (.inr hgone)
    · exact .inr (.inl (h.fired hfired))
    · exact .inr (.inr (h.deleted hnoted.issued hdeleted))

theorem Grows.owes (h : Grows S S') {pending : List WorkflowSchedule} (hid : s.id ∈ S.issued)
    (howes : Owes S t pending s) : Owes S' t pending s :=
  howes.imp id fun howes => howes.imp h.fired (h.deleted hid)

/-- The other calls. -/
theorem Grows.sound (h : Grows S S') (hsound : t.Sound chrono S) : t.Sound chrono S' where
  dated := hsound.dated
  since := hsound.since.trans h.claims.length_le
  noted s hs := h.noted hsound.since (hsound.noted s hs)
  reached := hsound.reached
  listed := hsound.listed
  owes pending hpending s hs henabled hdue :=
    h.owes (hsound.noted s hs).issued (hsound.owes pending hpending s hs henabled hdue)

/-- A call that goes on to `phase`. -/
theorem Grows.moved (h : Grows S S') (hsound : t.Sound chrono S) {phase : TickPhase}
    {created : List String} (before : List WorkflowSchedule) (hbefore : t.phase.pending = some before)
    (hlisted : ∀ pending, phase.pending = some pending → ∀ s ∈ pending, s ∈ before)
    (hdone : ∀ pending, phase.pending = some pending → ∀ s ∈ before, s.enabled = true →
      s.due chrono t.now = true → Owes S' t pending s) :
    Tick.Sound chrono S' { t with phase, created } where
  dated := hsound.dated
  since := hsound.since.trans h.claims.length_le
  noted s hs :=
    have hnoted := h.noted hsound.since (hsound.noted s hs)
    ⟨hnoted.issued, hnoted.interval, hnoted.fate⟩
  reached _ _ := hsound.reached before hbefore
  listed pending hpending s hs := hsound.listed before hbefore s (hlisted pending hpending s hs)
  owes pending hpending s hs henabled hdue := by
    rcases hsound.owes before hbefore s hs henabled hdue with hmem | howes
    · exact hdone pending hpending s hmem henabled hdue
    · exact h.owes (hsound.noted s hs).issued (.inr howes)

theorem Tick.Sound.failed (hsound : t.Sound chrono S) :
    Tick.Sound chrono S { t with phase := .failed } where
  dated := hsound.dated
  since := hsound.since
  noted s hs :=
    have hnoted := hsound.noted s hs
    ⟨hnoted.issued, hnoted.interval, hnoted.fate⟩
  reached pending hpending := by cases hpending
  listed pending hpending := by cases hpending
  owes pending hpending := by cases hpending

end Growth

section Steps

variable {chrono : Chrono} {S S' : System} {i : Nat} {t : Tick}

/-- A due schedule passes the check of the loop. -/
theorem elapsed_of_due {s : WorkflowSchedule} {now : Int} (hdue : s.due chrono now = true)
    (hnever : s.lastRunAt = "" → s.intervalSeconds ≤ now) :
    ¬ now - lastRun chrono s < s.intervalSeconds := by
  by_cases hempty : s.lastRunAt = ""
  · have := hnever hempty
    rw [lastRun, if_pos hempty]
    omega
  · simp only [WorkflowSchedule.due, hempty, Bool.or_eq_true, beq_iff_eq, false_or,
      Option.any_eq_true, decide_eq_true_eq] at hdue
    obtain ⟨last, hread, hle⟩ := hdue
    rw [lastRun, if_neg hempty, hread, Option.getD_some]
    omega

theorem mem_list {rows : List WorkflowSchedule} (hkeyed : (rows.map WorkflowSchedule.id).Nodup)
    {s : WorkflowSchedule} :
    s ∈ listWorkflowSchedules rows none none none ↔
      s ∈ rows ∧ rank WorkflowSchedule.position rows s < pageLimit none := by
  have hpositions : (rows.map WorkflowSchedule.position).Nodup := by
    refine List.Nodup.of_map (fun position => (ofLex position).2) ?_
    rw [List.map_map]
    exact hkeyed
  have hall : (rows.filter fun s => (none : Option String).all (fun t => s.templateId == t) &&
      (none : Option (String × String)).all fun cursor => decide (toLex cursor < s.position)) =
      rows := List.filter_eq_self.mpr fun _ _ => rfl
  rw [listWorkflowSchedules, hall, mem_page_iff hpositions]

theorem mem_claimSlot {rows : List WorkflowSchedule} {s row : WorkflowSchedule} {nowIso : String}
    (h : row ∈ (claimSlot rows s nowIso).1) :
    (row ∈ rows ∧ ¬ (row.id = s.id ∧ row.lastRunAt = s.lastRunAt)) ∨
      ∃ old ∈ rows, old.id = s.id ∧ old.lastRunAt = s.lastRunAt ∧
        row = { old with lastRunAt := nowIso } := by
  obtain ⟨old, hold, hrow⟩ := mem_updateWhere.mp h
  split at hrow
  · rename_i hobserved
    simp only [Bool.and_eq_true, beq_iff_eq] at hobserved
    exact .inr ⟨old, hold, hobserved.1, hobserved.2, hrow.symm⟩
  · rename_i hother
    subst hrow
    exact .inl ⟨hold, by simpa using hother⟩

theorem map_claimSlot {κ : Type} {key : WorkflowSchedule → κ}
    (hkey : ∀ row nowIso, key { row with lastRunAt := nowIso } = key row)
    (rows : List WorkflowSchedule) (s : WorkflowSchedule) (nowIso : String) :
    (claimSlot rows s nowIso).1.map key = rows.map key :=
  map_updateWhere_of_key (fun row => hkey row nowIso) rows

theorem Sound.of_eq (h : Sound chrono S) (hschedules : S'.schedules = S.schedules)
    (hissued : S'.issued = S.issued) (hclaims : S'.claims = S.claims)
    (hticks : ∀ t ∈ S'.ticks, t.Sound chrono S') : Sound chrono S' where
  keyed := hschedules ▸ h.keyed
  issued := by
    rw [hschedules, hissued]
    exact h.issued
  claimed := by
    rw [hclaims, hissued]
    exact h.claimed
  positive := hschedules ▸ h.positive
  latest := by
    rw [hschedules, hclaims]
    exact h.latest
  spaced := hclaims ▸ h.spaced
  ticks := hticks

theorem Sound.set (h : Sound chrono S) (hgrows : Grows S S') {t' : Tick}
    (hticks : S'.ticks = S.ticks.set i t') (ht' : t'.Sound chrono S') :
    ∀ t ∈ S'.ticks, t.Sound chrono S' := by
  intro u hu
  rw [hticks] at hu
  rcases List.mem_or_eq_of_mem_set hu with hu | rfl
  · exact hgrows.sound (h.ticks u hu)
  · exact ht'

/-- A call whose statement leaves the tables as they are. -/
theorem Sound.move (h : Sound chrono S) {t' : Tick} (ht' : t'.Sound chrono (S.move i t')) :
    Sound chrono (S.move i t') :=
  h.of_eq rfl rfl rfl (h.set (.of_eq rfl rfl rfl) rfl ht')

/-- The slot moves on by an interval at least. -/
theorem Sound.apart (h : Sound chrono S) (ht : t.Sound chrono S) {s row : WorkflowSchedule}
    (hs : s ∈ t.stored) (hdue : s.intervalSeconds ≤ t.now - lastRun chrono s)
    (hrow : row ∈ S.schedules) (hid : row.id = s.id) (hlast : row.lastRunAt = s.lastRunAt) :
    ∀ c ∈ S.claims, c.schedule = s.id →
      c.interval = s.intervalSeconds ∧ c.interval ≤ t.now - c.time := by
  intro c hc hschedule
  have hinterval := (ht.noted s hs).interval row hrow hid
  rcases h.latest row hrow with ⟨-, hnone⟩ | ⟨last, hdated, htold, hclaims⟩
  · exact absurd (hschedule.trans hid.symm) (hnone c hc)
  obtain ⟨htime, hsame⟩ := hclaims c hc (hschedule.trans hid.symm)
  rw [lastRun_of_told hdated (hlast.symm.trans htold)] at hdue
  omega

theorem grows_claim {s : WorkflowSchedule} {nowIso : String} {c : Claim} (hc : c.schedule = s.id)
    (hschedules : S'.schedules = (claimSlot S.schedules s nowIso).1)
    (hissued : S'.issued = S.issued) (hclaims : S'.claims = S.claims ++ [c]) : Grows S S' where
  issued id hid := hissued ▸ hid
  claims := hclaims ▸ List.prefix_append _ _
  rows row hrow _ := by
    rw [hschedules] at hrow
    rcases mem_claimSlot hrow with ⟨hold, -⟩ | ⟨old, hold, -, -, rfl⟩
    · exact ⟨row, hold, rfl, rfl⟩
    · exact ⟨old, hold, rfl, rfl⟩
  fate u hu := by
    rw [hschedules, hclaims, List.drop_left]
    by_cases hobserved : u.id = s.id ∧ u.lastRunAt = s.lastRunAt
    · exact .inr (.inl ⟨c, List.mem_singleton_self c, hc.trans hobserved.1.symm⟩)
    · exact .inl (mem_updateWhere_of_not hu (by simpa using hobserved))

/-- The tables after a claim. -/
theorem Sound.claim (h : Sound chrono S) (ht : t.Sound chrono S) {s row : WorkflowSchedule}
    (hs : s ∈ t.stored) (hdue : s.intervalSeconds ≤ t.now - lastRun chrono s)
    (hrow : row ∈ S.schedules) (hid : row.id = s.id) (hlast : row.lastRunAt = s.lastRunAt)
    (hschedules : S'.schedules = (claimSlot S.schedules s (chrono.unixToIso t.now)).1)
    (hissued : S'.issued = S.issued)
    (hclaims : S'.claims = S.claims ++ [⟨s.id, t.now, s.intervalSeconds⟩])
    (hticks : ∀ t ∈ S'.ticks, t.Sound chrono S') : Sound chrono S' := by
  have hapart := h.apart ht hs hdue hrow hid hlast
  refine ⟨?_, ?_, ?_, ?_, ?_, ?_, hticks⟩
  · rw [hschedules, map_claimSlot fun _ _ => rfl]
    exact h.keyed
  · intro u hu
    rw [hschedules] at hu
    rw [hissued]
    rcases mem_claimSlot hu with ⟨hold, -⟩ | ⟨old, hold, -, -, rfl⟩
    · exact h.issued u hold
    · exact h.issued old hold
  · intro c hc
    rw [hclaims] at hc
    rw [hissued]
    rcases List.mem_append.mp hc with hc | hc
    · exact h.claimed c hc
    · rw [List.mem_singleton.mp hc]
      exact (ht.noted s hs).issued
  · intro u hu
    rw [hschedules] at hu
    rcases mem_claimSlot hu with ⟨hold, -⟩ | ⟨old, hold, -, -, rfl⟩
    · exact h.positive u hold
    · exact h.positive old hold
  · intro u hu
    rw [hschedules] at hu
    rw [hclaims]
    rcases mem_claimSlot hu with ⟨hold, hother⟩ | ⟨old, hold, holdid, -, rfl⟩
    · have hne : u.id ≠ s.id := by
        intro hsame
        have hrow' := row_unique h.keyed hold hrow (hsame.trans hid.symm)
        exact hother ⟨hsame, hrow' ▸ hlast⟩
      have hnew : ∀ c ∈ S.claims ++ [⟨s.id, t.now, s.intervalSeconds⟩],
          c.schedule = u.id → c ∈ S.claims := by
        intro c hc hschedule
        rcases List.mem_append.mp hc with hc | hc
        · exact hc
        · rw [List.mem_singleton.mp hc] at hschedule
          exact absurd hschedule.symm hne
      rcases h.latest u hold with ⟨hempty, hnone⟩ | ⟨last, hdated, htold, hold'⟩
      · exact .inl ⟨hempty, fun c hc hschedule => hnone c (hnew c hc hschedule) hschedule⟩
      · exact .inr ⟨last, hdated, htold, fun c hc hschedule =>
          hold' c (hnew c hc hschedule) hschedule⟩
    · have hinterval := (ht.noted s hs).interval old hold holdid
      refine .inr ⟨t.now, ht.dated, rfl, ?_⟩
      intro c hc hschedule
      rcases List.mem_append.mp hc with hc | hc
      · obtain ⟨hsame, hle⟩ := hapart c hc (hschedule.trans holdid)
        have hpositive := h.positive old hold
        refine ⟨?_, hsame.trans hinterval.symm⟩
        omega
      · rw [List.mem_singleton.mp hc]
        exact ⟨le_refl _, hinterval.symm⟩
  · rw [hclaims]
    refine List.pairwise_append.mpr ⟨h.spaced, List.pairwise_singleton _ _, ?_⟩
    intro c hc d hd hschedule
    rw [List.mem_singleton.mp hd] at hschedule ⊢
    exact (hapart c hc hschedule).2

theorem moves_sound (h : Sound chrono S) (htick : S.ticks[i]? = some t)
    (hmoves : Moves chrono S i t S') : Sound chrono S' := by
  have ht := h.ticks t (List.mem_of_getElem? htick)
  have hsame : ∀ t', Grows S (S.move i t') := fun _ => .of_eq rfl rfl rfl
  cases hmoves with
  | fail => exact h.move ((hsame _).sound ht.failed)
  | list hphase hreach =>
      apply h.move
      refine ⟨ht.dated, le_refl _, fun s hs => ?_, fun _ _ s hs henabled hdue =>
        (hreach s hs henabled hdue).2, ?_, ?_⟩
      · refine ⟨h.issued s hs, fun row hrow hid => ?_, .inl hs⟩
        rw [row_unique h.keyed hrow hs hid]
      · rintro _ ⟨rfl⟩ s hs
        exact ((mem_list h.keyed).mp hs).1
      · rintro _ ⟨rfl⟩ s hs henabled hdue
        exact .inl ((mem_list h.keyed).mpr ⟨hs, (hreach s hs henabled hdue).1⟩)
  | finish hphase =>
      apply h.move
      refine (hsame _).moved ht [] (by rw [hphase]; rfl) ?_ ?_
      · rintro _ ⟨rfl⟩ s hs
        cases hs
      · rintro _ - s hs
        cases hs
  | @pass s rest hphase hskip =>
      apply h.move
      refine (hsame _).moved ht (s :: rest) (by rw [hphase]; rfl) ?_ ?_
      · rintro _ ⟨rfl⟩ u hu
        exact List.mem_cons_of_mem s hu
      · rintro _ ⟨rfl⟩ u hu henabled hdue
        rcases List.mem_cons.mp hu with rfl | hu
        · have hstored := ht.listed _ (by rw [hphase]; rfl) u List.mem_cons_self
          have hnever := ht.reached _ (by rw [hphase]; rfl) u hstored henabled hdue
          rcases hskip with hdisabled | hearly
          · rw [henabled] at hdisabled
            cases hdisabled
          · exact absurd hearly (elapsed_of_due hdue hnever)
        · exact .inl hu
  | @miss s rest hphase hmiss =>
      apply h.move
      refine (hsame _).moved ht (s :: rest) (by rw [hphase]; rfl) ?_ ?_
      · rintro _ ⟨rfl⟩ u hu
        exact List.mem_cons_of_mem s hu
      · rintro _ ⟨rfl⟩ u hu henabled hdue
        rcases List.mem_cons.mp hu with rfl | hu
        · have hstored := ht.listed _ (by rw [hphase]; rfl) u List.mem_cons_self
          rcases (ht.noted u hstored).fate with hrow | hfate
          · exact absurd rfl (hmiss u hrow rfl)
          · exact .inr hfate
        · exact .inl hu
  | @claim s row rest hphase hdue hrow hid hlast =>
      have hstored := ht.listed _ (by rw [hphase]; rfl) s List.mem_cons_self
      have hgrows : Grows S { S.move i { t with phase := .creating S.claims.length rest } with
          schedules := (claimSlot S.schedules s (chrono.unixToIso t.now)).1
          claims := S.claims ++ [⟨s.id, t.now, s.intervalSeconds⟩] } :=
        grows_claim (c := ⟨s.id, t.now, s.intervalSeconds⟩) rfl rfl rfl rfl
      refine h.claim ht hstored hdue hrow hid hlast rfl rfl rfl (h.set hgrows rfl ?_)
      refine hgrows.moved ht (s :: rest) (by rw [hphase]; rfl) ?_ ?_
      · rintro _ ⟨rfl⟩ u hu
        exact List.mem_cons_of_mem s hu
      · rintro _ ⟨rfl⟩ u hu henabled hdue
        rcases List.mem_cons.mp hu with rfl | hu
        · right
          left
          refine ⟨⟨u.id, t.now, u.intervalSeconds⟩, ?_, rfl⟩
          apply List.drop_subset_drop_left _ ht.since
          rw [List.drop_left]
          exact List.mem_singleton_self _
        · exact .inl hu
  | @book claim rest id hphase =>
      have hgrows : Grows S { S.move i { t with
          phase := .scanning rest
          created := t.created ++ [id] } with
        runs := S.runs ++ [⟨id, claim⟩] } := .of_eq rfl rfl rfl
      refine h.of_eq rfl rfl rfl (h.set hgrows rfl ?_)
      refine hgrows.moved ht rest (by rw [hphase]; rfl) ?_ ?_
      · rintro _ ⟨rfl⟩ u hu
        exact hu
      · rintro _ ⟨rfl⟩ u hu - -
        exact .inl hu
  | @drop claim rest hphase =>
      apply h.move
      refine (hsame _).moved ht rest (by rw [hphase]; rfl) ?_ ?_
      · rintro _ ⟨rfl⟩ u hu
        exact hu
      · rintro _ ⟨rfl⟩ u hu - -
        exact .inl hu

theorem acts_sound (h : Sound chrono S) (hacts : Acts chrono S S') : Sound chrono S' := by
  cases hacts with
  | none => exact h
  | @create s hfresh hnever hinterval =>
      have hgrows : Grows S
          { S with schedules := S.schedules ++ [s], issued := S.issued ++ [s.id] } := by
        refine ⟨fun id hid => List.mem_append_left _ hid, List.prefix_rfl, ?_, fun u hu =>
          .inl (List.mem_append_left _ hu)⟩
        intro row hrow hid
        rcases List.mem_append.mp hrow with hrow | hrow
        · exact ⟨row, hrow, rfl, rfl⟩
        · rw [List.mem_singleton.mp hrow] at hid
          exact absurd hid hfresh
      refine ⟨?_, ?_, fun c hc => List.mem_append_left _ (h.claimed c hc), ?_, ?_, h.spaced,
        fun t ht => hgrows.sound (h.ticks t ht)⟩
      · rw [List.map_append, List.map_singleton]
        refine List.nodup_append.mpr ⟨h.keyed, List.nodup_singleton _, ?_⟩
        intro id hid id' hid' hsame
        obtain ⟨row, hrow, rfl⟩ := List.mem_map.mp hid
        rw [List.mem_singleton.mp hid'] at hsame
        exact hfresh (hsame ▸ h.issued row hrow)
      · intro row hrow
        rcases List.mem_append.mp hrow with hrow | hrow
        · exact List.mem_append_left _ (h.issued row hrow)
        · rw [List.mem_singleton.mp hrow]
          exact List.mem_append_right _ (List.mem_singleton_self _)
      · intro row hrow
        rcases List.mem_append.mp hrow with hrow | hrow
        · exact h.positive row hrow
        · rw [List.mem_singleton.mp hrow]
          exact hinterval
      · intro row hrow
        rcases List.mem_append.mp hrow with hrow | hrow
        · exact h.latest row hrow
        · rw [List.mem_singleton.mp hrow]
          exact .inl ⟨hnever, fun c hc hschedule => hfresh (hschedule ▸ h.claimed c hc)⟩
  | delete id =>
      have hkept : ∀ row, row ∈ S.schedules.filter (fun s => s.id != id) → row ∈ S.schedules :=
        fun row hrow => (List.mem_filter.mp hrow).1
      have hgrows : Grows S { S with schedules := S.schedules.filter fun s => s.id != id } := by
        refine ⟨fun _ hid => hid, List.prefix_rfl, fun row hrow _ => ⟨row, hkept row hrow, rfl, rfl⟩,
          fun u hu => ?_⟩
        by_cases hid : u.id = id
        · right
          right
          intro row hrow hsame
          have hne := (List.mem_filter.mp hrow).2
          simp [hsame, hid] at hne
        · exact .inl (List.mem_filter.mpr ⟨hu, by simpa using hid⟩)
      exact ⟨h.keyed.sublist (List.filter_sublist.map _), fun row hrow => h.issued row (hkept row hrow),
        h.claimed, fun row hrow => h.positive row (hkept row hrow),
        fun row hrow => h.latest row (hkept row hrow), h.spaced,
        fun t ht => hgrows.sound (h.ticks t ht)⟩
  | @start now hdated =>
      refine h.of_eq rfl rfl rfl ?_
      intro t ht
      have hgrows : Grows S { S with ticks := S.ticks ++ [{ now }] } := .of_eq rfl rfl rfl
      rcases List.mem_append.mp ht with ht | ht
      · exact hgrows.sound (h.ticks t ht)
      · rw [List.mem_singleton.mp ht]
        exact ⟨hdated, Nat.zero_le _, by simp, by simp [TickPhase.pending],
          by simp [TickPhase.pending], by simp⟩
  | move htick hmoves => exact moves_sound h htick hmoves

theorem sound_initial : Sound chrono {} where
  keyed := List.nodup_nil
  issued _ h := by cases h
  claimed _ h := by cases h
  positive _ h := by cases h
  latest _ h := by cases h
  spaced := .nil
  ticks _ h := by cases h

/-! ## The runs of a claim -/

/-- The claim whose run a call is about to create. -/
def TickPhase.slot : TickPhase → Option Nat
  | .creating claim _ => some claim
  | _ => none

structure Booked (S : System) : Prop where
  runs : ∀ r ∈ S.runs, r.claim < S.claims.length
  once : (S.runs.map Run.claim).Nodup
  owed : ∀ (i : Nat) (t : Tick) (k : Nat), S.ticks[i]? = some t → t.phase.slot = some k →
    k < S.claims.length ∧ k ∉ S.runs.map Run.claim
  alone : ∀ (i j : Nat) (t u : Tick) (k : Nat), S.ticks[i]? = some t → S.ticks[j]? = some u →
    t.phase.slot = some k → u.phase.slot = some k → i = j

theorem get_set {t' : Tick} {j : Nat} {u : Tick} (h : (S.ticks.set i t')[j]? = some u) :
    (j = i ∧ u = t') ∨ (j ≠ i ∧ S.ticks[j]? = some u) := by
  rw [List.getElem?_set] at h
  split at h
  · rename_i hij
    split at h
    · exact .inl ⟨hij.symm, (Option.some.inj h).symm⟩
    · cases h
  · rename_i hij
    exact .inr ⟨Ne.symm hij, h⟩

/-- A call goes on that is about to create no run. -/
theorem Booked.rest (h : Booked S) {t' : Tick} (ht' : t'.phase.slot = none)
    (hruns : S'.runs = S.runs) (hclaims : S.claims.length ≤ S'.claims.length)
    (hticks : S'.ticks = S.ticks.set i t') : Booked S' := by
  have hold : ∀ (j : Nat) (u : Tick) (k : Nat), S'.ticks[j]? = some u → u.phase.slot = some k → S.ticks[j]? = some u := by
    intro j u k hu hk
    rw [hticks] at hu
    rcases get_set hu with ⟨-, rfl⟩ | ⟨-, hu⟩
    · rw [ht'] at hk
      cases hk
    · exact hu
  refine ⟨fun r hr => (h.runs r (hruns ▸ hr)).trans_le hclaims, hruns ▸ h.once, ?_, ?_⟩
  · intro j u k hu hk
    obtain ⟨hlt, hnew⟩ := h.owed j u k (hold j u k hu hk) hk
    exact ⟨hlt.trans_le hclaims, hruns ▸ hnew⟩
  · intro j j' u u' k hu hu' hk hk'
    exact h.alone j j' u u' k (hold j u k hu hk) (hold j' u' k hu' hk') hk hk'

theorem moves_booked (h : Booked S) (htick : S.ticks[i]? = some t)
    (hmoves : Moves chrono S i t S') : Booked S' := by
  cases hmoves with
  | fail => exact h.rest rfl rfl (le_refl _) rfl
  | list => exact h.rest rfl rfl (le_refl _) rfl
  | finish => exact h.rest rfl rfl (le_refl _) rfl
  | pass => exact h.rest rfl rfl (le_refl _) rfl
  | miss => exact h.rest rfl rfl (le_refl _) rfl
  | drop => exact h.rest rfl rfl (le_refl _) rfl
  | @claim s row rest hphase hdue hrow hid hlast =>
      have hlength : (S.claims ++ [(⟨s.id, t.now, s.intervalSeconds⟩ : Claim)]).length =
          S.claims.length + 1 := by simp
      refine ⟨?_, h.once, ?_, ?_⟩
      · intro r hr
        have := h.runs r hr
        simp only [hlength]
        omega
      · intro j u k hu hk
        simp only [hlength]
        rcases get_set hu with ⟨-, rfl⟩ | ⟨-, hu⟩
        · obtain rfl : S.claims.length = k := Option.some.inj hk
          refine ⟨by omega, ?_⟩
          intro hmem
          obtain ⟨r, hr, hclaim⟩ := List.mem_map.mp hmem
          have := h.runs r hr
          omega
        · obtain ⟨hlt, hnew⟩ := h.owed j u k hu hk
          exact ⟨by omega, hnew⟩
      · intro j j' u u' k hu hu' hk hk'
        rcases get_set hu with ⟨hj, rfl⟩ | ⟨-, hu₁⟩ <;>
          rcases get_set hu' with ⟨hj', rfl⟩ | ⟨-, hu₁'⟩
        · rw [hj, hj']
        · have hlt := (h.owed j' u' k hu₁' hk').1
          obtain rfl : S.claims.length = k := Option.some.inj hk
          exact absurd hlt (lt_irrefl _)
        · have hlt := (h.owed j u k hu₁ hk).1
          obtain rfl : S.claims.length = k := Option.some.inj hk'
          exact absurd hlt (lt_irrefl _)
        · exact h.alone j j' u u' k hu₁ hu₁' hk hk'
  | @book claim rest id hphase =>
      have hslot : t.phase.slot = some claim := by rw [hphase]; rfl
      obtain ⟨hlt, hnew⟩ := h.owed i t claim htick hslot
      have hold : ∀ (j : Nat) (u : Tick) (k : Nat), (S.ticks.set i
          { t with phase := .scanning rest, created := t.created ++ [id] })[j]? = some u →
          u.phase.slot = some k → j ≠ i ∧ S.ticks[j]? = some u := by
        intro j u k hu hk
        rcases get_set hu with ⟨-, rfl⟩ | hu
        · cases hk
        · exact hu
      refine ⟨?_, ?_, ?_, ?_⟩
      · intro r hr
        rcases List.mem_append.mp hr with hr | hr
        · exact h.runs r hr
        · rw [List.mem_singleton.mp hr]
          exact hlt
      · change ((S.runs ++ [(⟨id, claim⟩ : Run)]).map Run.claim).Nodup
        rw [List.map_append, List.map_singleton]
        refine List.nodup_append.mpr ⟨h.once, List.nodup_singleton _, ?_⟩
        rintro k hk k' hk' rfl
        rw [List.mem_singleton.mp hk'] at hk
        exact hnew hk
      · intro j u k hu hk
        obtain ⟨hne, hu₁⟩ := hold j u k hu hk
        obtain ⟨hlt', hnew'⟩ := h.owed j u k hu₁ hk
        refine ⟨hlt', ?_⟩
        change k ∉ (S.runs ++ [(⟨id, claim⟩ : Run)]).map Run.claim
        rw [List.map_append, List.map_singleton, List.mem_append, List.mem_singleton]
        rintro (hmem | rfl)
        · exact hnew' hmem
        · exact hne (h.alone j i u t k hu₁ htick hk hslot)
      · intro j j' u u' k hu hu' hk hk'
        exact h.alone j j' u u' k (hold j u k hu hk).2 (hold j' u' k hu' hk').2 hk hk'

theorem acts_booked (h : Booked S) (hacts : Acts chrono S S') : Booked S' := by
  cases hacts with
  | none => exact h
  | create => exact ⟨h.runs, h.once, h.owed, h.alone⟩
  | delete => exact ⟨h.runs, h.once, h.owed, h.alone⟩
  | @start now hdated =>
      have hold : ∀ (j : Nat) (u : Tick) (k : Nat), (S.ticks ++ [({ now } : Tick)])[j]? = some u →
          u.phase.slot = some k → S.ticks[j]? = some u := by
        intro j u k hu hk
        rcases Nat.lt_or_ge j S.ticks.length with hlt | hge
        · rwa [List.getElem?_append_left hlt] at hu
        · rw [List.getElem?_append_right hge, List.getElem?_singleton] at hu
          split at hu
          · cases hu
            cases hk
          · cases hu
      exact ⟨h.runs, h.once, fun j u k hu hk => h.owed j u k (hold j u k hu hk) hk,
        fun j j' u u' k hu hu' hk hk' =>
          h.alone j j' u u' k (hold j u k hu hk) (hold j' u' k hu' hk') hk hk'⟩
  | move htick hmoves => exact moves_booked h htick hmoves

theorem booked_initial : Booked {} where
  runs _ h := by cases h
  once := List.nodup_nil
  owed _ _ _ h := by simp at h
  alone _ _ _ _ _ h := by simp at h

end Steps

/-! ## Schedules fire -/

/-- The times of the ticks below. -/
def minutely : Chrono where
  dated n := n == 1000 || n == 1060
  unixToIso n := if n == 1000 then "1970-01-01T00:16:40+00:00" else "1970-01-01T00:17:40+00:00"
  isoToUnix s :=
    if s == "1970-01-01T00:16:40+00:00" then some 1000
    else if s == "1970-01-01T00:17:40+00:00" then some 1060
    else none
  isoToUnix_unixToIso n h := by
    simp only [Bool.or_eq_true, beq_iff_eq] at h
    rcases h with rfl | rfl <;> decide
  isoToUnix_empty := by decide

def everyMinute : WorkflowScheduleCreate := { intervalSeconds := 60 }

/-- Two ticks overlap and a third follows a minute later. -/
def overlapping : List Event :=
  [.create "release" true (some {}) everyMinute "wfsch-1" "2026-01-01T00:00:00+00:00",
    .create "release" true (some {}) { everyMinute with enabled := false } "wfsch-2"
      "2026-01-01T00:00:01+00:00",
    .start 1000, .start 1000, .advance 0, .advance 1, .advance 0, .advance 1,
    .advance 0 false (some "wfrun-1"), .advance 0, .advance 0, .advance 1, .advance 1,
    .start 1060, .advance 2, .advance 2, .advance 2 false (some "wfrun-2"), .advance 2, .advance 2]

def pausedId (n : Nat) : String :=
  "wfsch-" ++ String.ofList [Nat.digitChar (n / 16), Nat.digitChar (n % 16)]

def pausedRow (n : Nat) : WorkflowSchedule where
  id := pausedId n
  templateId := "release"
  intervalSeconds := 60
  enabled := false
  createdAt := "2026-01-01T00:00:00+00:00"

def pause (n : Nat) : Event :=
  .create "release" true (some {}) { everyMinute with enabled := false } (pausedId n)
    "2026-01-01T00:00:00+00:00"

def lateRow : WorkflowSchedule where
  id := "wfsch-late"
  templateId := "release"
  intervalSeconds := 60
  createdAt := "2026-01-01T00:00:01+00:00"

theorem create_everyMinute (enabled : Bool) (id now : String) :
    createWorkflowSchedule "release" true (some {}) { everyMinute with enabled } id now =
      .ok ⟨id, "release", 60, "l2", "", enabled, now⟩ := by
  have hparse : parseAutonomyLevel "l2" = some .l2 := by decide +kernel
  simp [createWorkflowSchedule, everyMinute, hparse, ratifyL4Schedule]

theorem step_create {chrono : Chrono} {S : System} {enabled : Bool} {id now : String}
    (hfresh : id ∉ S.issued) :
    Steps chrono S (.create "release" true (some {}) { everyMinute with enabled } id now)
      { S with
        schedules := S.schedules ++ [⟨id, "release", 60, "l2", "", enabled, now⟩]
        issued := S.issued ++ [id] } := by
  rw [Steps, System.step, create_everyMinute]
  exact if_neg hfresh

theorem pausedId_injective {m n : Nat} (hm : m < 256) (hn : n < 256)
    (h : pausedId m = pausedId n) : m = n := by
  have hdigit : ∀ a < 16, ∀ b < 16, Nat.digitChar a = Nat.digitChar b → a = b := by decide
  have hlists := congrArg String.toList h
  simp only [pausedId, String.toList_append, String.toList_ofList, List.append_cancel_left_eq,
    List.cons.injEq, and_true] at hlists
  have hhigh := hdigit (m / 16) (by omega) (n / 16) (by omega) hlists.1
  have hlow := hdigit (m % 16) (by omega) (n % 16) (by omega) hlists.2
  omega

theorem runs_pause (chrono : Chrono) {ns : List Nat} (hbound : ∀ n ∈ ns, n < 256)
    (hnodup : ns.Nodup) {S : System} (hfresh : ∀ n ∈ ns, pausedId n ∉ S.issued) :
    Runs (Steps chrono) S (ns.map pause)
      { S with
        schedules := S.schedules ++ ns.map pausedRow
        issued := S.issued ++ ns.map pausedId } := by
  induction ns generalizing S with
  | nil => simpa using Runs.refl S
  | cons n ns ih =>
      obtain ⟨hnew, hrest⟩ := List.nodup_cons.mp hnodup
      have hstep : Steps chrono S (pause n)
          { S with
            schedules := S.schedules ++ [pausedRow n]
            issued := S.issued ++ [pausedId n] } :=
        step_create (hfresh n List.mem_cons_self)
      have hrun := ih (fun m hm => hbound m (List.mem_cons_of_mem n hm)) hrest
        (S := { S with
          schedules := S.schedules ++ [pausedRow n]
          issued := S.issued ++ [pausedId n] }) ?_
      · rw [List.map_cons, List.map_cons, List.map_cons, List.append_cons, List.append_cons S.issued]
        exact .next hstep hrun
      · intro m hm hmem
        rcases List.mem_append.mp hmem with hmem | hmem
        · exact hfresh m (List.mem_cons_of_mem n hm) hmem
        · have hsame := pausedId_injective (hbound m (List.mem_cons_of_mem n hm))
            (hbound n List.mem_cons_self) (List.mem_singleton.mp hmem)
          exact hnew (hsame ▸ hm)

/-- A call passes over paused schedules. -/
theorem runs_pass (chrono : Chrono) {rows : List WorkflowSchedule}
    (hpaused : ∀ s ∈ rows, s.enabled = false) {S : System} {i : Nat} {t : Tick}
    (htick : S.ticks[i]? = some t) (hphase : t.phase = .scanning rows) :
    Runs (Steps chrono) S (List.replicate (rows.length + 1) (.advance i))
      (S.move i { t with phase := .returned }) := by
  obtain ⟨hi, -⟩ := List.getElem?_eq_some_iff.mp htick
  induction rows generalizing S t with
  | nil =>
      apply Runs.single
      rw [Steps, System.step, htick, Option.bind_some, System.advance, hphase]
  | cons s rows ih =>
      have hstep : Steps chrono S (.advance i) (S.move i { t with phase := .scanning rows }) := by
        rw [Steps, System.step, htick, Option.bind_some, System.advance, hphase]
        simp only [System.visit, hpaused s List.mem_cons_self, Bool.not_false, if_true]
      have hrest := ih (fun s hs => hpaused s (List.mem_cons_of_mem _ hs))
        (S := S.move i { t with phase := .scanning rows }) (t := { t with phase := .scanning rows })
        (by simp [System.move, hi]) rfl (by simpa [System.move] using hi)
      have hmoved : (S.move i { t with phase := .scanning rows }).move i
          { t with phase := .returned } = S.move i { t with phase := .returned } := by
        simp [System.move]
      exact .next hstep (hmoved ▸ hrest)

end AgentGrid.Workflow.Schedules
