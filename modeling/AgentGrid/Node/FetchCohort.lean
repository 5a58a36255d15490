import AgentGrid.Foundation.Transition
import Mathlib.Algebra.Ring.Nat
import Mathlib.Logic.Function.Basic

/-!
# The fetch cohort of a mirror

Prepares of one mirror share a bulk fetch: the first leads a flight, those that
come while it is in the map of flights follow it, and those that come within the
window after a success skip the fetch.  `join_fetch_cohort` and `finish_flight`
are cut where they take and leave a lock.

A flight keeps the stage of its leader.  `completed` lists the fetches whose
success was recorded, `joinedAt` and `joinedAfter` say when a prepare joined: the
instant, and how many fetches were recorded by then.
-/

namespace AgentGrid.Node.Cohort

open AgentGrid.Foundation

inductive FetchOutcome
  | ok
  | err (message : String)
deriving DecidableEq, Repr

inductive Stage
  | fetching
  | removing (outcome : FetchOutcome)
  | recording (outcome : FetchOutcome)
  | draining (outcome : FetchOutcome)
  | sending (outcome : FetchOutcome) (rest : List Nat)
  | finished (outcome : FetchOutcome)
deriving DecidableEq, Repr

def Stage.outcome : Stage → Option FetchOutcome
  | .fetching => none
  | .removing o | .recording o | .draining o | .sending o _ | .finished o => some o

/-- The flight is in the map. -/
def Stage.registered : Stage → Bool
  | .fetching | .removing _ => true
  | _ => false

/-- The success of the flight, if it is one, was recorded. -/
def Stage.recorded : Stage → Bool
  | .draining _ | .sending _ _ | .finished _ => true
  | _ => false

structure Flight where
  key : String
  waiters : List Nat := []
  stage : Stage := .fetching
deriving DecidableEq, Repr

/-- The followers that have not been sent the outcome. -/
def Flight.pending (F : Flight) : List Nat :=
  match F.stage with
  | .sending _ rest => rest
  | .finished _ => []
  | _ => F.waiters

inductive Phase
  | joining
  | leading (flight : Nat)
  | following (flight : Nat)
  | going (needFetch : Bool)
deriving DecidableEq, Repr

structure Prepare where
  key : String
  phase : Phase
  joinedAt : Nat
  joinedAfter : Nat
deriving DecidableEq, Repr

structure Completion where
  key : String
  flight : Nat
  instant : Nat
deriving DecidableEq, Repr

structure Cohorts where
  current : String → Option Nat := fun _ => none
  flight : Nat → Option Flight := fun _ => none
  nextFlight : Nat := 0
  lastOk : String → Option Nat := fun _ => none
  prepares : Nat → Option Prepare := fun _ => none
  channels : Nat → List FetchOutcome := fun _ => []
  clock : Nat := 0
  completed : List Completion := []

inductive Event
  | join (id : Nat) (key : String)
  | enter (id : Nat)
  | complete (flight : Nat) (outcome : FetchOutcome)
  | drop (flight : Nat)
  | remove (flight : Nat)
  | record (flight : Nat)
  | drain (flight : Nat)
  | send (flight : Nat)
  | receive (id : Nat)
  | timeout (id : Nat)
  | tick (nanos : Nat)
deriving DecidableEq, Repr

namespace Cohorts

/-- `t.elapsed().as_secs() < fetch_cohort_secs()`. -/
def fresh (S : Cohorts) (windowSecs : Nat) (key : String) : Bool :=
  0 < windowSecs && (S.lastOk key).any fun t => (S.clock - t) / 10 ^ 9 < windowSecs

def setPrepare (S : Cohorts) (id : Nat) (p : Prepare) : Cohorts :=
  { S with prepares := Function.update S.prepares id (some p) }

def setFlight (S : Cohorts) (f : Nat) (F : Flight) : Cohorts :=
  { S with flight := Function.update S.flight f (some F) }

/-- The freshness window. -/
def join (S : Cohorts) (windowSecs : Nat) (id : Nat) (key : String) : Option Cohorts :=
  match S.prepares id with
  | some _ => none
  | none =>
      let phase := if S.fresh windowSecs key then .going false else .joining
      some (S.setPrepare id ⟨key, phase, S.clock, S.completed.length⟩)

/-- The rest of `join_fetch_cohort`, under the lock of the flights. -/
def enter (S : Cohorts) (id : Nat) : Option Cohorts :=
  match S.prepares id with
  | some ⟨key, .joining, joinedAt, _⟩ =>
      match S.current key with
      | some f =>
          (S.flight f).map fun F =>
            (S.setFlight f { F with waiters := F.waiters ++ [id] }).setPrepare id
              ⟨key, .following f, joinedAt, S.completed.length⟩
      | none =>
          some { (S.setFlight S.nextFlight { key := key }).setPrepare id
              ⟨key, .leading S.nextFlight, joinedAt, S.completed.length⟩ with
            current := Function.update S.current key (some S.nextFlight)
            nextFlight := S.nextFlight + 1 }
  | _ => none

/-- The leader calls `finish_flight`. -/
def finish (S : Cohorts) (f : Nat) (outcome : FetchOutcome) : Option Cohorts :=
  match S.flight f with
  | some ⟨key, waiters, .fetching⟩ => some (S.setFlight f ⟨key, waiters, .removing outcome⟩)
  | _ => none

def remove (S : Cohorts) (f : Nat) : Option Cohorts :=
  match S.flight f with
  | some ⟨key, waiters, .removing o⟩ =>
      some { S.setFlight f ⟨key, waiters, .recording o⟩ with
        current := if S.current key = some f then Function.update S.current key none
          else S.current }
  | _ => none

def record (S : Cohorts) (f : Nat) : Option Cohorts :=
  match S.flight f with
  | some ⟨key, waiters, .recording .ok⟩ =>
      some { S.setFlight f ⟨key, waiters, .draining .ok⟩ with
        lastOk := Function.update S.lastOk key (some S.clock)
        completed := S.completed ++ [⟨key, f, S.clock⟩] }
  | some ⟨key, waiters, .recording (.err e)⟩ =>
      some (S.setFlight f ⟨key, waiters, .draining (.err e)⟩)
  | _ => none

def drain (S : Cohorts) (f : Nat) : Option Cohorts :=
  match S.flight f with
  | some ⟨key, waiters, .draining o⟩ => some (S.setFlight f ⟨key, [], .sending o waiters⟩)
  | _ => none

/-- A receiver that is gone is passed over. -/
def deliver (S : Cohorts) (f id : Nat) (outcome : FetchOutcome) : Nat → List FetchOutcome :=
  if (S.prepares id).any fun p => p.phase == .following f then
    Function.update S.channels id (S.channels id ++ [outcome])
  else S.channels

def send (S : Cohorts) (f : Nat) : Option Cohorts :=
  match S.flight f with
  | some ⟨key, waiters, .sending o (id :: rest)⟩ =>
      some { S.setFlight f ⟨key, waiters, .sending o rest⟩ with
        channels := S.deliver f id o }
  | some ⟨key, waiters, .sending o []⟩ => some (S.setFlight f ⟨key, waiters, .finished o⟩)
  | _ => none

/-- A follower takes its bulk fetch for done when the leader's succeeded. -/
def receive (S : Cohorts) (id : Nat) : Option Cohorts :=
  match S.prepares id, S.channels id with
  | some ⟨key, .following _, joinedAt, joinedAfter⟩, o :: rest =>
      some { S.setPrepare id ⟨key, .going (o != .ok), joinedAt, joinedAfter⟩ with
        channels := Function.update S.channels id rest }
  | _, _ => none

def timeout (S : Cohorts) (id : Nat) : Option Cohorts :=
  match S.prepares id, S.channels id with
  | some ⟨key, .following _, joinedAt, joinedAfter⟩, [] =>
      some (S.setPrepare id ⟨key, .going true, joinedAt, joinedAfter⟩)
  | _, _ => none

def step (windowSecs : Nat) (S : Cohorts) : Event → Option Cohorts
  | .join id key => S.join windowSecs id key
  | .enter id => S.enter id
  | .complete f outcome => S.finish f outcome
  | .drop f => S.finish f (.err "fetch leader dropped before completing")
  | .remove f => S.remove f
  | .record f => S.record f
  | .drain f => S.drain f
  | .send f => S.send f
  | .receive id => S.receive id
  | .timeout id => S.timeout id
  | .tick nanos => some { S with clock := S.clock + nanos }

end Cohorts

def Steps (windowSecs : Nat) (S : Cohorts) (e : Event) (S' : Cohorts) : Prop :=
  S.step windowSecs e = some S'

/-! ## What a step changes -/

namespace Cohorts

variable (S : Cohorts) (id f : Nat) (p : Prepare) (F : Flight)

@[simp] theorem setPrepare_prepares (k : Nat) :
    (S.setPrepare id p).prepares k = if k = id then some p else S.prepares k :=
  Function.update_apply _ _ _ _

@[simp] theorem setFlight_flight (k : Nat) :
    (S.setFlight f F).flight k = if k = f then some F else S.flight k :=
  Function.update_apply _ _ _ _

@[simp] theorem setPrepare_flight : (S.setPrepare id p).flight = S.flight := rfl

@[simp] theorem setFlight_prepares : (S.setFlight f F).prepares = S.prepares := rfl

end Cohorts

inductive Change (windowSecs : Nat) (S : Cohorts) : Cohorts → Prop
  | joined {id : Nat} {key : String} (hnew : S.prepares id = none) (phase : Phase)
      (hphase : phase = .joining ∨ phase = .going false ∧ S.fresh windowSecs key = true) :
      Change windowSecs S (S.setPrepare id ⟨key, phase, S.clock, S.completed.length⟩)
  | led {id : Nat} {p : Prepare} (hp : S.prepares id = some p) (hjoining : p.phase = .joining)
      (hnone : S.current p.key = none) :
      Change windowSecs S
        { (S.setFlight S.nextFlight { key := p.key }).setPrepare id
            ⟨p.key, .leading S.nextFlight, p.joinedAt, S.completed.length⟩ with
          current := Function.update S.current p.key (some S.nextFlight)
          nextFlight := S.nextFlight + 1 }
  | followed {id f : Nat} {p : Prepare} {F : Flight} (hp : S.prepares id = some p)
      (hjoining : p.phase = .joining) (hcurrent : S.current p.key = some f)
      (hF : S.flight f = some F) :
      Change windowSecs S
        ((S.setFlight f { F with waiters := F.waiters ++ [id] }).setPrepare id
          ⟨p.key, .following f, p.joinedAt, S.completed.length⟩)
  | finished {f : Nat} {F : Flight} (hF : S.flight f = some F) (hstage : F.stage = .fetching)
      (o : FetchOutcome) :
      Change windowSecs S (S.setFlight f { F with stage := .removing o })
  | removed {f : Nat} {F : Flight} {o : FetchOutcome} (hF : S.flight f = some F)
      (hstage : F.stage = .removing o) :
      Change windowSecs S
        { S.setFlight f { F with stage := .recording o } with
          current := if S.current F.key = some f then Function.update S.current F.key none
            else S.current }
  | recordedOk {f : Nat} {F : Flight} (hF : S.flight f = some F)
      (hstage : F.stage = .recording .ok) :
      Change windowSecs S
        { S.setFlight f { F with stage := .draining .ok } with
          lastOk := Function.update S.lastOk F.key (some S.clock)
          completed := S.completed ++ [⟨F.key, f, S.clock⟩] }
  | recordedErr {f : Nat} {F : Flight} {e : String} (hF : S.flight f = some F)
      (hstage : F.stage = .recording (.err e)) :
      Change windowSecs S (S.setFlight f { F with stage := .draining (.err e) })
  | drained {f : Nat} {F : Flight} {o : FetchOutcome} (hF : S.flight f = some F)
      (hstage : F.stage = .draining o) :
      Change windowSecs S (S.setFlight f { F with waiters := [], stage := .sending o F.waiters })
  | sent {f id : Nat} {F : Flight} {o : FetchOutcome} {rest : List Nat}
      (hF : S.flight f = some F) (hstage : F.stage = .sending o (id :: rest)) :
      Change windowSecs S
        { S.setFlight f { F with stage := .sending o rest } with channels := S.deliver f id o }
  | closed {f : Nat} {F : Flight} {o : FetchOutcome} (hF : S.flight f = some F)
      (hstage : F.stage = .sending o []) :
      Change windowSecs S (S.setFlight f { F with stage := .finished o })
  | received {id f : Nat} {p : Prepare} {o : FetchOutcome} {rest : List FetchOutcome}
      (hp : S.prepares id = some p) (hphase : p.phase = .following f)
      (hchannel : S.channels id = o :: rest) :
      Change windowSecs S
        { S.setPrepare id { p with phase := .going (o != .ok) } with
          channels := Function.update S.channels id rest }
  | timedOut {id f : Nat} {p : Prepare} (hp : S.prepares id = some p)
      (hphase : p.phase = .following f) (hchannel : S.channels id = []) :
      Change windowSecs S (S.setPrepare id { p with phase := .going true })
  | ticked (nanos : Nat) : Change windowSecs S { S with clock := S.clock + nanos }

theorem Steps.change {windowSecs : Nat} {S S' : Cohorts} {e : Event}
    (h : Steps windowSecs S e S') : Change windowSecs S S' := by
  unfold Steps at h
  cases e with
  | join id key =>
      simp only [Cohorts.step, Cohorts.join] at h
      split at h
      · cases h
      · rename_i hnew
        cases h
        refine .joined hnew _ ?_
        split
        · rename_i hfresh
          exact .inr ⟨rfl, hfresh⟩
        · exact .inl rfl
  | enter id =>
      simp only [Cohorts.step, Cohorts.enter] at h
      split at h
      · rename_i key joinedAt joinedAfter hp
        split at h
        · rename_i f hcurrent
          obtain ⟨F, hF, rfl⟩ := Option.map_eq_some_iff.mp h
          exact .followed hp rfl hcurrent hF
        · rename_i hnone
          cases h
          exact .led hp rfl hnone
      · cases h
  | complete f outcome =>
      simp only [Cohorts.step, Cohorts.finish] at h
      split at h
      · rename_i hF
        cases h
        exact .finished hF rfl outcome
      · cases h
  | drop f =>
      simp only [Cohorts.step, Cohorts.finish] at h
      split at h
      · rename_i hF
        cases h
        exact .finished hF rfl _
      · cases h
  | remove f =>
      simp only [Cohorts.step, Cohorts.remove] at h
      split at h
      · rename_i hF
        cases h
        exact .removed hF rfl
      · cases h
  | record f =>
      simp only [Cohorts.step, Cohorts.record] at h
      split at h
      · rename_i hF
        cases h
        exact .recordedOk hF rfl
      · rename_i hF
        cases h
        exact .recordedErr hF rfl
      · cases h
  | drain f =>
      simp only [Cohorts.step, Cohorts.drain] at h
      split at h
      · rename_i hF
        cases h
        exact .drained hF rfl
      · cases h
  | send f =>
      simp only [Cohorts.step, Cohorts.send] at h
      split at h
      · rename_i hF
        cases h
        exact .sent hF rfl
      · rename_i hF
        cases h
        exact .closed hF rfl
      · cases h
  | receive id =>
      simp only [Cohorts.step, Cohorts.receive] at h
      split at h
      · rename_i hp hchannel
        cases h
        exact .received hp rfl hchannel
      · cases h
  | timeout id =>
      simp only [Cohorts.step, Cohorts.timeout] at h
      split at h
      · rename_i hp hchannel
        cases h
        exact .timedOut hp rfl hchannel
      · cases h
  | tick nanos =>
      cases h
      exact .ticked nanos

end AgentGrid.Node.Cohort
