import AgentGrid.Foundation.Transition
import AgentGrid.Ha.Election
import Mathlib.Logic.Function.Basic
import Mathlib.Algebra.Ring.Nat

/-!
# Write fencing

The gate that says whether a node may write, and the write transactions that
ask it when they begin and again before they commit.  Calls are cut where they
wait: a transaction between its two checks, a promotion between the
transaction that stores its epoch and the change of the gate.  Every writer
holds the one write permit while its transaction is open.
-/

namespace AgentGrid.Ha

open AgentGrid.Foundation

structure FencedError where
  role : HaRole
  epoch : Nat
deriving DecidableEq

structure HaGate where
  role : HaRole
  epoch : Nat := 0
  leaseUntilMs : Nat := 0
  fencedWrites : Nat := 0
  admittedWrites : Nat := 0
  writesSuspended : Bool := false
deriving DecidableEq

/-- Lease deadline `ttl` from now, in monotonic milliseconds of 64 bits. -/
def leaseDeadline (now ttl : Nat) : Nat := min (now + ttl) (2 ^ 64 - 1)

namespace HaGate

def new (role : HaRole) (epoch : Nat) : HaGate where
  role := role
  epoch := epoch
  leaseUntilMs := if role = .single then 2 ^ 64 - 1 else 0

def isLeader (g : HaGate) : Bool := g.role == .single || g.role == .leader

def writable (g : HaGate) (now : Nat) : Bool :=
  (match g.role with
    | .single => true
    | .leader => decide (now < g.leaseUntilMs)
    | .standby | .witness => false) && !g.writesSuspended

def noteFencedWrite (g : HaGate) : HaGate :=
  { g with fencedWrites := g.fencedWrites + 1 }

def checkWritable (g : HaGate) (now : Nat) : HaGate × Except FencedError Unit :=
  if g.writable now then (g, .ok ())
  else (g.noteFencedWrite, .error ⟨g.role, g.epoch⟩)

def assertStillWritable (g : HaGate) (now : Nat) : HaGate × Except FencedError Unit :=
  g.checkWritable now

def assertWritable (g : HaGate) (now : Nat) : HaGate × Except FencedError Unit :=
  match g.checkWritable now with
  | (g, .ok ()) => ({ g with admittedWrites := g.admittedWrites + 1 }, .ok ())
  | refused => refused

def suspendWrites (g : HaGate) : HaGate := { g with writesSuspended := true }

def promote (g : HaGate) (epoch leaseUntilMs : Nat) : HaGate :=
  { g with epoch := epoch, leaseUntilMs := leaseUntilMs, admittedWrites := 0,
           writesSuspended := false, role := .leader }

def renewLease (g : HaGate) (leaseUntilMs : Nat) : HaGate :=
  { g with leaseUntilMs := leaseUntilMs }

def demote (g : HaGate) : HaGate := { g with leaseUntilMs := 0, role := .standby }

def setEpoch (g : HaGate) (epoch : Nat) : HaGate := { g with epoch := epoch }

end HaGate

/-- The contents of the database with its row of `ha_cluster_state`. -/
structure Contents (δ : Type) where
  rows : δ
  epoch : Nat := 0
  replSeq : Nat := 0
deriving DecidableEq

/-- Where a write transaction stands; `work` is the database as it sees it. -/
inductive Stage (δ : Type)
  | admitted
  | begun (work : Contents δ)
  | checked (work : Contents δ)
  | active (work : Contents δ)
  | committing (work : Contents δ)
  | publishing
  | committed
  | rolledBack
  | refused
deriving DecidableEq

/-- The permit is held from `BEGIN IMMEDIATE` to the end of the transaction. -/
def Stage.holds {δ : Type} : Stage δ → Bool
  | .begun _ | .checked _ | .active _ | .committing _ | .publishing => true
  | .admitted | .committed | .rolledBack | .refused => false

/-- Where `promote` stands once it has the promotion lock. -/
inductive Promotion
  | idle
  | started (term : Nat)
  | chosen (epoch term : Nat)
  | holding (epoch : Nat)
  | stored (epoch : Nat)
deriving DecidableEq

inductive Writer
  | transaction (id : Nat)
  | promotion
deriving DecidableEq

/-- The store of one node.  `gated` tells whether it was opened with a gate,
which is so in HA mode; `maxChangesetBytes` is there with a replicator. -/
structure WriteStore (δ : Type) where
  gated : Bool
  maxChangesetBytes : Option Nat := none
  gate : HaGate
  now : Nat := 0
  db : Contents δ
  permit : Option Writer := none
  transactions : Nat → Option (Stage δ) := fun _ => none
  promotion : Promotion := .idle

inductive FenceEvent (δ : Type)
  | enter (id : Nat)
  | beginImmediate (id : Nat)
  | recheck (id : Nat)
  | readEpoch (id : Nat)
  | execute (id : Nat) (statement : δ → δ)
  | commitCheck (id : Nat)
  | commit (id : Nat) (changeset : Option Nat)
  | publish (id : Nat)
  | rollback (id : Nat)
  | tick (ms : Nat)
  | demote
  | suspendWrites
  | renewFor (ttl : Nat)
  | setEpoch (epoch : Nat)
  | promote (term : Nat)
  | promoteRead
  | promoteBegin
  | promoteCommit (bumpSeq : Bool)
  | promoteGate (ttl : Nat)
  | promoteFails
  | replicate (contents : Contents δ)

namespace WriteStore

variable {δ : Type}

def move (s : WriteStore δ) (id : Nat) (stage : Stage δ) : WriteStore δ :=
  { s with transactions := Function.update s.transactions id (some stage) }

def release (s : WriteStore δ) (id : Nat) (stage : Stage δ) : WriteStore δ :=
  { s.move id stage with permit := none }

/-- A check of the gate; a store without one passes. -/
def check (s : WriteStore δ) (ask : HaGate → Nat → HaGate × Except FencedError Unit) :
    WriteStore δ × Bool :=
  if s.gated then
    match ask s.gate s.now with
    | (g, .ok ()) => ({ s with gate := g }, true)
    | (g, .error _) => ({ s with gate := g }, false)
  else (s, true)

/-- What `commit` makes durable: a changeset within the cap takes a number. -/
def finished (s : WriteStore δ) (work : Contents δ) (changeset : Option Nat) :
    Contents δ × Bool :=
  match s.maxChangesetBytes, changeset with
  | some cap, some bytes =>
      if cap < bytes then (work, false)
      else ({ work with replSeq := work.replSeq + 1 }, true)
  | _, _ => (work, false)

end WriteStore

/-- One event; `none` when it cannot happen. -/
def fenceStep {δ : Type} (s : WriteStore δ) : FenceEvent δ → Option (WriteStore δ)
  | .enter id =>
      match s.transactions id with
      | none =>
          match s.check HaGate.assertWritable with
          | (s, true) => some (s.move id .admitted)
          | (s, false) => some (s.move id .refused)
      | some _ => none
  | .beginImmediate id =>
      match s.transactions id, s.permit with
      | some .admitted, none =>
          some { s.move id (.begun s.db) with permit := some (.transaction id) }
      | _, _ => none
  | .recheck id =>
      match s.transactions id with
      | some (.begun work) =>
          match s.check HaGate.assertStillWritable with
          | (s, true) => some (s.move id (.checked work))
          | (s, false) => some (s.release id .rolledBack)
      | _ => none
  | .readEpoch id =>
      match s.transactions id with
      | some (.checked work) =>
          if s.gated ∧ work.epoch ≠ s.gate.epoch then
            some ({ s with gate := s.gate.noteFencedWrite }.release id .rolledBack)
          else some (s.move id (.active work))
      | _ => none
  | .execute id statement =>
      match s.transactions id with
      | some (.active work) =>
          some (s.move id (.active { work with rows := statement work.rows }))
      | _ => none
  | .commitCheck id =>
      match s.transactions id with
      | some (.active work) =>
          match s.check HaGate.assertStillWritable with
          | (s, true) => some (s.move id (.committing work))
          | (s, false) => some (s.release id .rolledBack)
      | _ => none
  | .commit id changeset =>
      match s.transactions id with
      | some (.committing work) =>
          match s.finished work changeset with
          | (db, true) => some { s.move id .publishing with db := db }
          | (db, false) => some { s.release id .committed with db := db }
      | _ => none
  | .publish id =>
      match s.transactions id with
      | some .publishing => some (s.release id .committed)
      | _ => none
  | .rollback id =>
      match s.transactions id with
      | some (.begun _) | some (.checked _) | some (.active _) | some (.committing _) =>
          some (s.release id .rolledBack)
      | _ => none
  | .tick ms => some { s with now := s.now + ms }
  | .demote =>
      if s.gate.role = .leader then some { s with gate := s.gate.demote } else some s
  | .suspendWrites =>
      if s.gated then some { s with gate := s.gate.suspendWrites } else none
  | .renewFor ttl =>
      some { s with gate := s.gate.renewLease (leaseDeadline s.now ttl) }
  | .setEpoch epoch => some { s with gate := s.gate.setEpoch epoch }
  | .promote term =>
      if s.promotion = .idle ∧ s.gate.isLeader = false then
        some { s with promotion := .started term }
      else none
  | .promoteRead =>
      match s.promotion with
      | .started term =>
          some { s with promotion := .chosen (max term (s.db.epoch + 1)) term }
      | _ => none
  | .promoteBegin =>
      match s.promotion, s.permit with
      | .chosen epoch _, none =>
          some { s with promotion := .holding epoch, permit := some .promotion }
      | _, _ => none
  | .promoteCommit bumpSeq =>
      match s.promotion with
      | .holding epoch =>
          some { s with
            promotion := .stored epoch
            permit := none
            db := { s.db with epoch := epoch, replSeq := s.db.replSeq + bumpSeq.toNat } }
      | _ => none
  | .promoteGate ttl =>
      match s.promotion with
      | .stored epoch =>
          some { s with
            promotion := .idle
            gate := s.gate.promote epoch (leaseDeadline s.now ttl) }
      | _ => none
  | .promoteFails =>
      match s.promotion with
      | .started _ | .chosen _ _ => some { s with promotion := .idle }
      | .holding _ => some { s with promotion := .idle, permit := none }
      | _ => none
  | .replicate contents =>
      if s.permit = none then some { s with db := contents } else none

def FenceStep {δ : Type} (s : WriteStore δ) (e : FenceEvent δ) (s' : WriteStore δ) : Prop :=
  fenceStep s e = some s'

section Invariant

variable {δ : Type} {s s' : WriteStore δ}

/-- The second check of `begin_checked` is behind the transaction. -/
def Stage.passed : Stage δ → Bool
  | .checked _ | .active _ | .committing _ => true
  | .admitted | .begun _ | .publishing | .committed | .rolledBack | .refused => false

/-- An open transaction and a promotion that stores its epoch hold the permit,
a promotion in progress leaves the gate closed, and no promotion that has
stored its epoch is about to open it under a transaction past its checks. -/
structure WriteStore.Ordered (s : WriteStore δ) : Prop where
  held : ∀ id stage, s.transactions id = some stage → stage.holds = true →
    s.permit = some (.transaction id)
  holding : ∀ epoch, s.promotion = .holding epoch → s.permit = some .promotion
  promoting : s.promotion ≠ .idle → s.gate.isLeader = false
  settled : ∀ id stage, s.transactions id = some stage → stage.passed = true →
    ∀ epoch, s.promotion ≠ .stored epoch
  ungated : s.gated = false → s.gate.role = .single

/-- No transaction and no promotion yet; a store without a gate is single. -/
def WriteStore.Fresh (s : WriteStore δ) : Prop :=
  (∀ id, s.transactions id = none) ∧ s.permit = none ∧ s.promotion = .idle ∧
    (s.gated = false → s.gate.role = .single)

theorem WriteStore.Fresh.ordered (h : s.Fresh) : s.Ordered := by
  obtain ⟨hnone, hpermit, hidle, hungated⟩ := h
  constructor
  · simp [hnone]
  · simp [hidle]
  · simp [hidle]
  · simp [hnone]
  · exact hungated

theorem HaGate.isLeader_of_writable {g : HaGate} {now : Nat} (h : g.writable now = true) :
    g.isLeader = true := by
  unfold HaGate.writable at h
  cases hrole : g.role <;> simp_all [HaGate.isLeader]

/-- A check of the gate keeps its role and its suspension. -/
structure Asks (ask : HaGate → Nat → HaGate × Except FencedError Unit) : Prop where
  role : ∀ g now, (ask g now).1.role = g.role
  suspended : ∀ g now, (ask g now).1.writesSuspended = g.writesSuspended
  admits : ∀ g now, (ask g now).2 = .ok () → g.writable now = true

theorem asks_assertStillWritable : Asks HaGate.assertStillWritable := by
  constructor <;> intro g now <;>
    simp only [HaGate.assertStillWritable, HaGate.checkWritable] <;> split <;>
    simp_all [HaGate.noteFencedWrite]

theorem asks_assertWritable : Asks HaGate.assertWritable := by
  constructor <;> intro g now <;>
    simp only [HaGate.assertWritable, HaGate.checkWritable] <;> split <;> rename_i h <;>
    split at h <;> simp_all [HaGate.noteFencedWrite]

theorem check_spec {ask : HaGate → Nat → HaGate × Except FencedError Unit} (hask : Asks ask)
    {ok : Bool} (h : s.check ask = (s', ok)) :
    (∃ g, s' = { s with gate := g } ∧ g.role = s.gate.role ∧
      g.writesSuspended = s.gate.writesSuspended) ∧
    (ok = true → s.gated = false ∨ s.gate.writable s.now = true) := by
  unfold WriteStore.check at h
  split at h
  · have hrole := hask.role s.gate s.now
    have hsuspended := hask.suspended s.gate s.now
    have hadmits := hask.admits s.gate s.now
    split at h
    · rename_i g hanswer
      rw [hanswer] at hrole hsuspended hadmits
      cases h
      exact ⟨⟨g, rfl, hrole, hsuspended⟩, fun _ => .inr (hadmits rfl)⟩
    · rename_i g cause hanswer
      rw [hanswer] at hrole hsuspended
      cases h
      exact ⟨⟨g, rfl, hrole, hsuspended⟩, by simp⟩
  · rename_i hgated
    cases h
    exact ⟨⟨s.gate, rfl, rfl, rfl⟩, fun _ => .inl (by simpa using hgated)⟩

namespace WriteStore.Ordered

theorem rewrite (h : s.Ordered) (db : Contents δ) :
    WriteStore.Ordered { s with db := db } :=
  ⟨h.held, h.holding, h.promoting, h.settled, h.ungated⟩

/-- Nobody is inside a transaction while another writer, or none, has the permit. -/
theorem idle (h : s.Ordered) (hpermit : ∀ id, s.permit ≠ some (.transaction id)) {id : Nat}
    {stage : Stage δ} (hrow : s.transactions id = some stage) : stage.holds = false := by
  by_contra hholds
  exact hpermit id (h.held id stage hrow (by simpa using hholds))

theorem leads (h : s.Ordered) (hopen : s.gated = false ∨ s.gate.writable s.now = true) :
    s.promotion = .idle := by
  have hleader : s.gate.isLeader = true := by
    rcases hopen with hgated | hwritable
    · simp [HaGate.isLeader, h.ungated hgated]
    · exact HaGate.isLeader_of_writable hwritable
  by_contra hbusy
  rw [h.promoting hbusy] at hleader
  cases hleader

theorem regate (h : s.Ordered) {g : HaGate} (hrole : g.role = s.gate.role) :
    WriteStore.Ordered { s with gate := g } := by
  refine ⟨h.held, h.holding, ?_, h.settled, ?_⟩
  · intro hbusy
    have hleader := h.promoting hbusy
    simpa [HaGate.isLeader, hrole] using hleader
  · exact fun hgated => hrole.trans (h.ungated hgated)

theorem move (h : s.Ordered) {id : Nat} {stage : Stage δ}
    (hholds : stage.holds = true → s.permit = some (.transaction id))
    (hpassed : stage.passed = true → ∀ epoch, s.promotion ≠ .stored epoch) :
    (s.move id stage).Ordered := by
  refine ⟨?_, h.holding, h.promoting, ?_, h.ungated⟩
  · intro id' stage' hrow hholds'
    by_cases hid : id' = id
    · obtain rfl : stage = stage' := by simpa [WriteStore.move, hid] using hrow
      rw [hid]
      exact hholds hholds'
    · exact h.held id' stage' (by simpa [WriteStore.move, hid] using hrow) hholds'
  · intro id' stage' hrow hpassed'
    by_cases hid : id' = id
    · obtain rfl : stage = stage' := by simpa [WriteStore.move, hid] using hrow
      exact hpassed hpassed'
    · exact h.settled id' stage' (by simpa [WriteStore.move, hid] using hrow) hpassed'

theorem release (h : s.Ordered) {id : Nat} {stage : Stage δ}
    (hpermit : s.permit = some (.transaction id)) (hholds : stage.holds = false)
    (hpassed : stage.passed = false) : (s.release id stage).Ordered := by
  have hmoved : (s.move id stage).Ordered :=
    h.move (by simp [hholds]) (by simp [hpassed])
  refine ⟨?_, ?_, hmoved.promoting, hmoved.settled, hmoved.ungated⟩
  · intro id' stage' hrow hholds'
    have hother := hmoved.held id' stage' hrow hholds'
    rw [show (s.move id stage).permit = s.permit from rfl, hpermit] at hother
    obtain rfl : id = id' := by simpa using hother
    obtain rfl : stage = stage' := by
      simpa [WriteStore.release, WriteStore.move] using hrow
    rw [hholds] at hholds'
    cases hholds'
  · intro epoch hpromotion
    have hother := h.holding epoch hpromotion
    rw [hpermit] at hother
    cases hother

end WriteStore.Ordered

/-- A check made by the transaction that holds the permit. -/
theorem checked_ordered (h : s.Ordered) {id : Nat} {stage : Stage δ}
    (hrow : s.transactions id = some stage) (hstage : stage.holds = true)
    {checked : WriteStore δ} {ok : Bool}
    (hcheck : s.check HaGate.assertStillWritable = (checked, ok)) :
    (checked.release id .rolledBack).Ordered ∧
      (ok = true → ∀ next : Stage δ, (checked.move id next).Ordered) := by
  obtain ⟨⟨g, rfl, hrole, _⟩, hopen⟩ := check_spec asks_assertStillWritable hcheck
  have hpermit := h.held id stage hrow hstage
  have hregated := h.regate hrole
  refine ⟨hregated.release hpermit rfl rfl, ?_⟩
  intro hok next
  refine hregated.move (fun _ => hpermit) ?_
  intro _ epoch
  have hidle := h.leads (hopen hok)
  rw [show ({ s with gate := g } : WriteStore δ).promotion = s.promotion from rfl, hidle]
  simp

theorem fenceStep_ordered (h : s.Ordered) {e : FenceEvent δ} (hstep : FenceStep s e s') :
    s'.Ordered := by
  cases e with
  | enter id =>
      unfold FenceStep fenceStep at hstep
      simp only at hstep
      split at hstep
      · split at hstep <;> rename_i checked hcheck <;> cases hstep <;>
          obtain ⟨⟨g, rfl, hrole, _⟩, _⟩ := check_spec asks_assertWritable hcheck <;>
          exact (h.regate hrole).move (by simp [Stage.holds]) (by simp [Stage.passed])
      · cases hstep
  | beginImmediate id =>
      unfold FenceStep fenceStep at hstep
      simp only at hstep
      split at hstep
      · rename_i hrow hpermit
        cases hstep
        have hfree := @WriteStore.Ordered.idle δ s h (by simp [hpermit])
        refine ⟨?_, ?_, h.promoting, ?_, h.ungated⟩
        · intro id' stage hrow' hholds
          by_cases hid : id' = id
          · rw [hid]
          · rw [hfree (by simpa [WriteStore.move, hid] using hrow')] at hholds
            cases hholds
        · intro epoch hpromotion
          have := h.holding epoch hpromotion
          rw [hpermit] at this
          cases this
        · intro id' stage hrow' hpassed
          by_cases hid : id' = id
          · obtain rfl : .begun s.db = stage := by simpa [WriteStore.move, hid] using hrow'
            cases hpassed
          · exact h.settled id' stage (by simpa [WriteStore.move, hid] using hrow') hpassed
      · cases hstep
  | recheck id =>
      unfold FenceStep fenceStep at hstep
      simp only at hstep
      split at hstep
      · rename_i work hrow
        split at hstep <;> rename_i checked hcheck <;> cases hstep
        · exact (checked_ordered h hrow rfl hcheck).2 rfl _
        · exact (checked_ordered h hrow rfl hcheck).1
      · cases hstep
  | readEpoch id =>
      unfold FenceStep fenceStep at hstep
      simp only at hstep
      split at hstep
      · rename_i work hrow
        have hpermit := h.held id _ hrow rfl
        split at hstep <;> cases hstep
        · have hregated := h.regate (show s.gate.noteFencedWrite.role = s.gate.role from rfl)
          exact hregated.release hpermit rfl rfl
        · exact h.move (fun _ => hpermit) fun _ => h.settled id _ hrow rfl
      · cases hstep
  | execute id statement =>
      unfold FenceStep fenceStep at hstep
      simp only at hstep
      split at hstep
      · rename_i work hrow
        cases hstep
        exact h.move (fun _ => h.held id _ hrow rfl) fun _ => h.settled id _ hrow rfl
      · cases hstep
  | commitCheck id =>
      unfold FenceStep fenceStep at hstep
      simp only at hstep
      split at hstep
      · rename_i work hrow
        split at hstep <;> rename_i checked hcheck <;> cases hstep
        · exact (checked_ordered h hrow rfl hcheck).2 rfl _
        · exact (checked_ordered h hrow rfl hcheck).1
      · cases hstep
  | commit id changeset =>
      unfold FenceStep fenceStep at hstep
      simp only at hstep
      split at hstep
      · rename_i work hrow
        have hpermit := h.held id _ hrow rfl
        split at hstep <;> rename_i db hdb <;> cases hstep
        · have hmoved : (s.move id .publishing).Ordered :=
            h.move (fun _ => hpermit) (by simp [Stage.passed])
          exact hmoved.rewrite db
        · have hreleased : (s.release id .committed).Ordered := h.release hpermit rfl rfl
          exact hreleased.rewrite db
      · cases hstep
  | publish id =>
      unfold FenceStep fenceStep at hstep
      simp only at hstep
      split at hstep
      · rename_i hrow
        cases hstep
        exact h.release (h.held id _ hrow rfl) rfl rfl
      · cases hstep
  | rollback id =>
      unfold FenceStep fenceStep at hstep
      simp only at hstep
      split at hstep <;> cases hstep <;> rename_i hrow <;>
        exact h.release (h.held id _ hrow rfl) rfl rfl
  | tick ms =>
      cases hstep
      exact ⟨h.held, h.holding, h.promoting, h.settled, h.ungated⟩
  | demote =>
      unfold FenceStep fenceStep at hstep
      simp only at hstep
      split at hstep
      · rename_i hleader
        cases hstep
        refine ⟨h.held, h.holding, fun _ => rfl, h.settled, ?_⟩
        intro hgated
        have hsingle := h.ungated hgated
        rw [hleader] at hsingle
        cases hsingle
      · cases hstep
        exact h
  | suspendWrites =>
      unfold FenceStep fenceStep at hstep
      simp only at hstep
      split at hstep <;> cases hstep
      exact h.regate rfl
  | renewFor ttl =>
      cases hstep
      exact h.regate rfl
  | setEpoch epoch =>
      cases hstep
      exact h.regate rfl
  | promote term =>
      unfold FenceStep fenceStep at hstep
      simp only at hstep
      split at hstep
      · rename_i hstart
        cases hstep
        exact ⟨h.held, by simp, fun _ => hstart.2, by simp, h.ungated⟩
      · cases hstep
  | promoteRead =>
      unfold FenceStep fenceStep at hstep
      simp only at hstep
      split at hstep
      · rename_i term hstarted
        cases hstep
        exact ⟨h.held, by simp, fun _ => h.promoting (by simp [hstarted]), by simp, h.ungated⟩
      · cases hstep
  | promoteBegin =>
      unfold FenceStep fenceStep at hstep
      simp only at hstep
      split at hstep
      · rename_i epoch term hchosen hpermit
        cases hstep
        refine ⟨?_, fun _ _ => rfl, fun _ => h.promoting (by simp [hchosen]), by simp,
          h.ungated⟩
        intro id stage hrow hholds
        rw [h.idle (by simp [hpermit]) hrow] at hholds
        cases hholds
      · cases hstep
  | promoteCommit bumpSeq =>
      unfold FenceStep fenceStep at hstep
      simp only at hstep
      split at hstep
      · rename_i epoch hholding
        cases hstep
        have hfree := @WriteStore.Ordered.idle δ s h (by simp [h.holding epoch hholding])
        refine ⟨?_, by simp, fun _ => h.promoting (by simp [hholding]), ?_, h.ungated⟩
        · intro id stage hrow hholds
          rw [hfree hrow] at hholds
          cases hholds
        · intro id stage hrow hpassed
          have hout := hfree hrow
          cases stage <;> simp_all [Stage.passed, Stage.holds]
      · cases hstep
  | promoteGate ttl =>
      unfold FenceStep fenceStep at hstep
      simp only at hstep
      split at hstep
      · rename_i epoch hstored
        cases hstep
        refine ⟨h.held, by simp, by simp, by simp, ?_⟩
        intro hgated
        have hclosed := h.promoting (by simp [hstored])
        simp [HaGate.isLeader, h.ungated hgated] at hclosed
      · cases hstep
  | promoteFails =>
      unfold FenceStep fenceStep at hstep
      simp only at hstep
      split at hstep
      · cases hstep
        exact ⟨h.held, by simp, by simp, by simp, h.ungated⟩
      · cases hstep
        exact ⟨h.held, by simp, by simp, by simp, h.ungated⟩
      · rename_i epoch hholding
        cases hstep
        refine ⟨?_, by simp, by simp, by simp, h.ungated⟩
        intro id stage hrow hholds
        rw [h.idle (by simp [h.holding epoch hholding]) hrow] at hholds
        cases hholds
      · cases hstep
  | replicate contents =>
      unfold FenceStep fenceStep at hstep
      simp only at hstep
      split at hstep
      · cases hstep
        exact h.rewrite contents
      · cases hstep

end Invariant

section Fencing

variable {δ : Type} {s₀ s s' : WriteStore δ}

/-- The gate is single, or leads with a live lease and writes not suspended. -/
def HaGate.Admits (g : HaGate) (now : Nat) : Prop :=
  g.role = .single ∨
    g.role = .leader ∧ now < g.leaseUntilMs ∧ g.writesSuspended = false

/-- Whatever the clock says, the gate admits nothing. -/
def HaGate.shut (g : HaGate) : Bool := !g.isLeader || g.writesSuspended

theorem HaGate.admits_of_writable {g : HaGate} {now : Nat} (h : g.writable now = true) :
    g.Admits now := by
  unfold HaGate.writable at h
  cases hrole : g.role <;> simp_all [HaGate.Admits]

theorem HaGate.not_writable_of_shut {g : HaGate} (h : g.shut = true) (now : Nat) :
    g.writable now = false := by
  unfold HaGate.shut at h
  unfold HaGate.writable
  cases hrole : g.role <;> simp_all [HaGate.isLeader]

theorem ordered_run {ops : List (FenceEvent δ)} (hfresh : s₀.Fresh)
    (h : Runs FenceStep s₀ ops s) : s.Ordered := by
  refine Runs.invariant WriteStore.Ordered ?_ h hfresh.ordered
  exact fun hs hstep => fenceStep_ordered hs hstep

/-- The transaction an event belongs to. -/
def FenceEvent.transaction : FenceEvent δ → Option Nat
  | .enter id | .beginImmediate id | .recheck id | .readEpoch id | .execute id _
  | .commitCheck id | .commit id _ | .publish id | .rollback id => some id
  | _ => none

theorem transactions_of_check {ask : HaGate → Nat → HaGate × Except FencedError Unit}
    (hask : Asks ask) {ok : Bool} (h : s.check ask = (s', ok)) :
    s'.transactions = s.transactions := by
  obtain ⟨⟨g, rfl, _⟩, _⟩ := check_spec hask h
  rfl

/-- A step leaves the other transactions where they are. -/
theorem fenceStep_others {id : Nat} {e : FenceEvent δ} (hstep : FenceStep s e s')
    (hid : e.transaction ≠ some id) : s'.transactions id = s.transactions id := by
  unfold FenceStep fenceStep at hstep
  cases e <;> simp only [FenceEvent.transaction, ne_eq, Option.some.injEq] at hid <;>
    simp only at hstep <;> (repeat' split at hstep) <;> cases hstep <;>
    simp_all [WriteStore.release, WriteStore.move, Function.update_of_ne (Ne.symm hid)]
  all_goals
    rename_i hcheck
    first
      | rw [transactions_of_check asks_assertWritable hcheck]
      | rw [transactions_of_check asks_assertStillWritable hcheck]

/-- A transaction reaches its commit through its own check alone. -/
theorem committing_step {id : Nat} {e : FenceEvent δ} {work : Contents δ}
    (hstep : FenceStep s e s') (hafter : s'.transactions id = some (.committing work)) :
    s.transactions id = some (.committing work) ∨
      e = .commitCheck id ∧ (s.gated = false ∨ s.gate.writable s.now = true) := by
  by_cases hid : e.transaction = some id
  · cases e with
    | commitCheck id' =>
        obtain rfl : id' = id := by simpa [FenceEvent.transaction] using hid
        unfold FenceStep fenceStep at hstep
        simp only at hstep
        split at hstep
        · split at hstep <;> rename_i checked hcheck <;> cases hstep
          · exact .inr ⟨rfl, (check_spec asks_assertStillWritable hcheck).2 rfl⟩
          · simp [WriteStore.release, WriteStore.move] at hafter
        · cases hstep
    | _ =>
        unfold FenceStep fenceStep at hstep
        simp only [FenceEvent.transaction, Option.some.injEq, reduceCtorEq] at hid <;>
          subst hid <;> simp only at hstep <;> (repeat' split at hstep) <;> cases hstep <;>
          simp [WriteStore.release, WriteStore.move] at hafter
  · exact .inl (fenceStep_others hstep hid ▸ hafter)

theorem check_shut {ask : HaGate → Nat → HaGate × Except FencedError Unit}
    (hask : Asks ask) {ok : Bool} (h : s.check ask = (s', ok)) (hshut : s.gate.shut = true) :
    s'.gate.shut = true ∧ s'.db = s.db := by
  obtain ⟨⟨g, rfl, hrole, hsuspended⟩, _⟩ := check_spec hask h
  exact ⟨by simpa [HaGate.shut, HaGate.isLeader, hrole, hsuspended] using hshut, rfl⟩

/-- While a transaction past its checks is open, a shut gate stays shut and the
database stays as it is. -/
theorem shut_step {id : Nat} {e : FenceEvent δ} {work : Contents δ} (hs : s.Ordered)
    (hactive : s.transactions id = some (.active work)) (hshut : s.gate.shut = true)
    (hstep : FenceStep s e s') : s'.gate.shut = true ∧ s'.db = s.db := by
  have hpermit := hs.held id _ hactive rfl
  cases e with
  | enter id' =>
      unfold FenceStep fenceStep at hstep
      simp only at hstep
      split at hstep
      · split at hstep <;> rename_i hcheck <;> cases hstep <;>
          have hkept := check_shut asks_assertWritable hcheck hshut <;> exact hkept
      · cases hstep
  | recheck id' =>
      unfold FenceStep fenceStep at hstep
      simp only at hstep
      split at hstep
      · split at hstep <;> rename_i hcheck <;> cases hstep <;>
          have hkept := check_shut asks_assertStillWritable hcheck hshut <;> exact hkept
      · cases hstep
  | commitCheck id' =>
      unfold FenceStep fenceStep at hstep
      simp only at hstep
      split at hstep
      · split at hstep <;> rename_i hcheck <;> cases hstep <;>
          have hkept := check_shut asks_assertStillWritable hcheck hshut <;> exact hkept
      · cases hstep
  | commit id' changeset =>
      unfold FenceStep fenceStep at hstep
      simp only at hstep
      split at hstep
      · rename_i work' hrow
        have hsame := hs.held id' _ hrow rfl
        obtain rfl : id = id' := by simpa [hpermit] using hsame
        rw [hactive] at hrow
        cases hrow
      · cases hstep
  | promoteCommit bumpSeq =>
      unfold FenceStep fenceStep at hstep
      simp only at hstep
      split at hstep
      · rename_i epoch hholding
        have hsame := hs.holding epoch hholding
        simp [hpermit] at hsame
      · cases hstep
  | promoteGate ttl =>
      unfold FenceStep fenceStep at hstep
      simp only at hstep
      split at hstep
      · rename_i epoch hstored
        exact absurd hstored (hs.settled id _ hactive rfl epoch)
      · cases hstep
  | replicate contents =>
      unfold FenceStep fenceStep at hstep
      simp [hpermit] at hstep
  | _ =>
      unfold FenceStep fenceStep at hstep
      simp only at hstep
      (repeat' split at hstep) <;> cases hstep <;>
        first
          | exact ⟨hshut, rfl⟩
          | simp [HaGate.shut, HaGate.isLeader, HaGate.demote, HaGate.suspendWrites]

/-- The transaction is open with nothing of it in the database, or rolled back. -/
def Stopped (id : Nat) (db : Contents δ) (s : WriteStore δ) : Prop :=
  s.Ordered ∧ ((s.gate.shut = true ∧ s.db = db ∧
    ∃ work, s.transactions id = some (.active work)) ∨
      s.transactions id = some .rolledBack)

theorem stopped_check {id : Nat} {work : Contents δ}
    (hactive : s.transactions id = some (.active work)) (hgated : s.gated = true)
    (hshut : s.gate.shut = true) (hstep : FenceStep s (.commitCheck id) s') :
    s'.transactions id = some .rolledBack := by
  unfold FenceStep fenceStep at hstep
  simp only [hactive] at hstep
  split at hstep <;> rename_i checked hcheck <;> cases hstep
  · have hopen := (check_spec asks_assertStillWritable hcheck).2 rfl
    simp [hgated, HaGate.not_writable_of_shut hshut] at hopen
  · simp [WriteStore.release, WriteStore.move]

theorem Stopped.step {id : Nat} {db : Contents δ} {e : FenceEvent δ} (h : Stopped id db s)
    (hgated : s.gated = true) (hstep : FenceStep s e s') : Stopped id db s' := by
  obtain ⟨hs, hstage⟩ := h
  refine ⟨fenceStep_ordered hs hstep, ?_⟩
  rcases hstage with ⟨hshut, hdb, work, hactive⟩ | hrolled
  · obtain ⟨hshut', hdb'⟩ := shut_step hs hactive hshut hstep
    by_cases hid : e.transaction = some id
    · cases e with
      | commitCheck id' =>
          obtain rfl : id' = id := by simpa [FenceEvent.transaction] using hid
          exact .inr (stopped_check hactive hgated hshut hstep)
      | execute id' statement =>
          obtain rfl : id' = id := by simpa [FenceEvent.transaction] using hid
          unfold FenceStep fenceStep at hstep
          simp only [hactive] at hstep
          cases hstep
          exact .inl ⟨hshut', hdb'.trans hdb, _, Function.update_self _ _ _⟩
      | rollback id' =>
          obtain rfl : id' = id := by simpa [FenceEvent.transaction] using hid
          unfold FenceStep fenceStep at hstep
          simp only [hactive] at hstep
          cases hstep
          exact .inr (by simp [WriteStore.release, WriteStore.move])
      | _ =>
          simp only [FenceEvent.transaction, Option.some.injEq, reduceCtorEq] at hid <;>
            subst hid <;> unfold FenceStep fenceStep at hstep <;> simp [hactive] at hstep
    · refine .inl ⟨hshut', hdb'.trans hdb, work, ?_⟩
      rw [fenceStep_others hstep hid, hactive]
  · right
    by_cases hid : e.transaction = some id
    · cases e <;> simp only [FenceEvent.transaction, Option.some.injEq, reduceCtorEq] at hid <;>
        subst hid <;> unfold FenceStep fenceStep at hstep <;> simp [hrolled] at hstep
    · rw [fenceStep_others hstep hid, hrolled]

theorem fenceStep_gated {e : FenceEvent δ} (hstep : FenceStep s e s') :
    s'.gated = s.gated := by
  unfold FenceStep fenceStep at hstep
  cases e <;> simp only at hstep <;> (repeat' split at hstep) <;> cases hstep <;>
    try rfl
  all_goals
    rename_i hcheck
    first
      | obtain ⟨⟨g, rfl, _⟩, _⟩ := check_spec asks_assertWritable hcheck
      | obtain ⟨⟨g, rfl, _⟩, _⟩ := check_spec asks_assertStillWritable hcheck
    rfl

/-- The event takes the right to write away. -/
def FenceEvent.Stops (s : WriteStore δ) : FenceEvent δ → Prop
  | .demote => s.gate.role = .leader
  | .suspendWrites => True
  | _ => False

theorem stopped_of_stops {id : Nat} {work : Contents δ} {e : FenceEvent δ} (hs : s.Ordered)
    (hactive : s.transactions id = some (.active work)) (hstops : e.Stops s)
    (hstep : FenceStep s e s') : s.gated = true ∧ Stopped id s.db s' := by
  have hordered := fenceStep_ordered hs hstep
  cases e with
  | demote =>
      have hleader : s.gate.role = .leader := hstops
      unfold FenceStep fenceStep at hstep
      simp only [hleader, if_true] at hstep
      cases hstep
      refine ⟨?_, hordered, .inl ⟨rfl, rfl, work, hactive⟩⟩
      by_contra hgated
      have hsingle := hs.ungated (by simpa using hgated)
      rw [hleader] at hsingle
      cases hsingle
  | suspendWrites =>
      unfold FenceStep fenceStep at hstep
      simp only at hstep
      split at hstep
      · rename_i hgated
        cases hstep
        refine ⟨hgated, hordered, .inl ⟨?_, rfl, work, hactive⟩⟩
        simp [HaGate.shut, HaGate.suspendWrites]
      · cases hstep
  | _ => cases hstops

theorem stopped_run {id : Nat} {db : Contents δ} {ops : List (FenceEvent δ)}
    (h : Stopped id db s) (hgated : s.gated = true) (hrun : Runs FenceStep s ops s') :
    s'.gated = true ∧ Stopped id db s' := by
  refine Runs.invariant (fun s => s.gated = true ∧ Stopped id db s) ?_ hrun ⟨hgated, h⟩
  intro s e s' hs hstep
  exact ⟨(fenceStep_gated hstep).trans hs.1, hs.2.step hs.1 hstep⟩

/-- In every interleaving, a transaction that commits passed its commit check
while the gate was single, or led with a live lease and writes not suspended;
one that was open when the node was demoted or its writes were suspended is
rolled back when it reaches its commit, with nothing of it in the database. -/
theorem writes_fenced {ops : List (FenceEvent δ)} (hfresh : s₀.Fresh)
    (hrun : Runs FenceStep s₀ ops s) :
    (∀ id changeset s', FenceStep s (.commit id changeset) s' →
      ∃ before after u, ops = before ++ FenceEvent.commitCheck id :: after ∧
        Runs FenceStep s₀ before u ∧ u.gate.Admits u.now) ∧
    ∀ id work, s.transactions id = some (.active work) →
      ∀ e s₁, e.Stops s → FenceStep s e s₁ → ∀ ops' s₂, Runs FenceStep s₁ ops' s₂ →
        (s₂.transactions id = some .rolledBack ∨
          s₂.db = s.db ∧ ∃ work', s₂.transactions id = some (.active work')) ∧
        ∀ s₃, FenceStep s₂ (.commitCheck id) s₃ →
          s₃.transactions id = some .rolledBack ∧ s₃.db = s.db := by
  constructor
  · intro id changeset s' hcommit
    obtain ⟨work, hcommitting⟩ :
        ∃ work, s.transactions id = some (.committing work) := by
      unfold FenceStep fenceStep at hcommit
      simp only at hcommit
      split at hcommit
      · rename_i work hrow
        exact ⟨work, hrow⟩
      · cases hcommit
    have hchecked : ∀ work, s.transactions id = some (.committing work) →
        ∃ before after u, ops = before ++ FenceEvent.commitCheck id :: after ∧
          Runs FenceStep s₀ before u ∧ u.gate.Admits u.now := by
      refine Runs.history (fun ops s => ∀ work,
        s.transactions id = some (.committing work) →
          ∃ before after u, ops = before ++ FenceEvent.commitCheck id :: after ∧
            Runs FenceStep s₀ before u ∧ u.gate.Admits u.now) ?_ ?_ hrun
      · intro work hrow
        rw [hfresh.1 id] at hrow
        cases hrow
      · intro ops t e u hrun ih hstep work hrow
        rcases committing_step hstep hrow with hearlier | ⟨rfl, hopen⟩
        · obtain ⟨before, after, v, rfl, hbefore, hadmits⟩ := ih work hearlier
          exact ⟨before, after ++ [e], v, by simp, hbefore, hadmits⟩
        · refine ⟨ops, [], t, rfl, hrun, ?_⟩
          rcases hopen with hgated | hwritable
          · exact .inl ((ordered_run hfresh hrun).ungated hgated)
          · exact HaGate.admits_of_writable hwritable
    exact hchecked work hcommitting
  · intro id work hactive e s₁ hstops hstep ops' s₂ hrun'
    obtain ⟨hgated, hstopped⟩ := stopped_of_stops (ordered_run hfresh hrun) hactive hstops hstep
    obtain ⟨hgated', hordered, hstage⟩ :=
      stopped_run hstopped ((fenceStep_gated hstep).trans hgated) hrun'
    constructor
    · rcases hstage with ⟨_, hdb, hwork⟩ | hrolled
      · exact .inr ⟨hdb, hwork⟩
      · exact .inl hrolled
    · intro s₃ hcheck
      rcases hstage with ⟨hshut, hdb, work', hactive'⟩ | hrolled
      · refine ⟨stopped_check hactive' hgated' hshut hcheck, ?_⟩
        rw [(shut_step hordered hactive' hshut hcheck).2, hdb]
      · unfold FenceStep fenceStep at hcheck
        simp [hrolled] at hcheck

/-- A standby whose one row holds 5. -/
def fivesStandby : WriteStore Nat where
  gated := true
  gate := .new .standby 0
  db := { rows := 5 }

/-- The node is promoted and a transaction adds to the row. -/
def openWrite : List (FenceEvent Nat) :=
  [.promote 1, .promoteRead, .promoteBegin, .promoteCommit false, .promoteGate 1000,
   .enter 7, .beginImmediate 7, .recheck 7, .readEpoch 7, .execute 7 (· + 1)]

theorem writes_fenced_demoted : ∃ s, Runs FenceStep fivesStandby openWrite s ∧
    s.transactions 7 = some (.active { rows := 6, epoch := 1 }) ∧
    ∀ s₁, FenceStep s .demote s₁ → ∀ s₃, FenceStep s₁ (.commitCheck 7) s₃ →
      s₃.transactions 7 = some .rolledBack ∧ s₃.db.rows = 5 := by
  have hstate : (openWrite.foldlM fenceStep fivesStandby).map (fun s =>
      (s.transactions 7, s.gate.role, s.db.rows)) =
        some (some (.active { rows := 6, epoch := 1 }), .leader, 5) := by decide
  obtain ⟨s, hs, hseen⟩ := Option.map_eq_some_iff.mp hstate
  simp only [Prod.mk.injEq] at hseen
  obtain ⟨hactive, hrole, hrows⟩ := hseen
  have hrun : Runs FenceStep fivesStandby openWrite s := .of_foldlM hs
  have hfresh : fivesStandby.Fresh := ⟨fun _ => rfl, rfl, rfl, by simp [fivesStandby]⟩
  refine ⟨s, hrun, hactive, ?_⟩
  intro s₁ hdemote s₃ hcheck
  have hfenced := (writes_fenced hfresh hrun).2 7 _ hactive .demote s₁ hrole hdemote []
    s₁ (.refl s₁)
  obtain ⟨hrolled, hdb⟩ := hfenced.2 s₃ hcheck
  exact ⟨hrolled, by rw [hdb, hrows]⟩

end Fencing

end AgentGrid.Ha
