import Mathlib.Data.Option.Basic

/-!
# Task and attempt status machines

The two transition functions of `state_machine.rs`.  A refused transition
carries the texts of the status it was tried from and of the transition.
-/

namespace AgentGrid.Store

inductive TaskStatus
  | queued | assigned | running | validating | succeeded | failed | cancelled
deriving DecidableEq, Repr

inductive AttemptStatus
  | assigned | running | validating | succeeded | failed | cancelled | lost
deriving DecidableEq, Repr

inductive NodeStatus
  | pending | online | degraded | offline | revoked
deriving DecidableEq, Repr

inductive TaskTransition
  | assign | start | beginValidate | succeed | fail | cancel | retry | nodeLost
deriving DecidableEq, Repr

inductive AttemptTransition
  | start | beginValidate | succeed | fail | cancel | nodeLost
deriving DecidableEq, Repr

structure InvalidTransition where
  «from» : String
  transition : String
deriving DecidableEq, Repr

def statusStr : TaskStatus → String
  | .queued => "queued"
  | .assigned => "assigned"
  | .running => "running"
  | .validating => "validating"
  | .succeeded => "succeeded"
  | .failed => "failed"
  | .cancelled => "cancelled"

def transitionStr : TaskTransition → String
  | .assign => "assign"
  | .start => "start"
  | .beginValidate => "begin_validate"
  | .succeed => "succeed"
  | .fail => "fail"
  | .cancel => "cancel"
  | .retry => "retry"
  | .nodeLost => "node_lost"

def attemptStatusStr : AttemptStatus → String
  | .assigned => "assigned"
  | .running => "running"
  | .validating => "validating"
  | .succeeded => "succeeded"
  | .failed => "failed"
  | .cancelled => "cancelled"
  | .lost => "lost"

def attemptTransitionStr : AttemptTransition → String
  | .start => "start"
  | .beginValidate => "begin_validate"
  | .succeed => "succeed"
  | .fail => "fail"
  | .cancel => "cancel"
  | .nodeLost => "node_lost"

def nodeStatusStr : NodeStatus → String
  | .pending => "pending"
  | .online => "online"
  | .degraded => "degraded"
  | .offline => "offline"
  | .revoked => "revoked"

def nextTaskStatus (s : TaskStatus) (t : TaskTransition) :
    Except InvalidTransition TaskStatus :=
  match s, t with
  | .queued, .assign => .ok .assigned
  | .queued, .cancel => .ok .cancelled
  | .queued, .nodeLost => .ok .failed
  | .assigned, .start => .ok .running
  | .assigned, .cancel => .ok .cancelled
  | .assigned, .retry => .ok .queued
  | .assigned, .nodeLost => .ok .failed
  | .running, .beginValidate => .ok .validating
  | .running, .succeed => .ok .succeeded
  | .running, .fail => .ok .failed
  | .running, .cancel => .ok .cancelled
  | .running, .nodeLost => .ok .failed
  | .validating, .succeed => .ok .succeeded
  | .validating, .fail => .ok .failed
  | .validating, .cancel => .ok .cancelled
  | .validating, .nodeLost => .ok .failed
  | .failed, .retry => .ok .queued
  | .cancelled, .retry => .ok .queued
  | s, t => .error ⟨statusStr s, transitionStr t⟩

def nextAttemptStatus (s : AttemptStatus) (t : AttemptTransition) :
    Except InvalidTransition AttemptStatus :=
  match s, t with
  | .assigned, .start => .ok .running
  | .assigned, .cancel => .ok .cancelled
  | .assigned, .nodeLost => .ok .lost
  | .running, .beginValidate => .ok .validating
  | .running, .succeed => .ok .succeeded
  | .running, .fail => .ok .failed
  | .running, .cancel => .ok .cancelled
  | .running, .nodeLost => .ok .lost
  | .validating, .succeed => .ok .succeeded
  | .validating, .fail => .ok .failed
  | .validating, .cancel => .ok .cancelled
  | .validating, .nodeLost => .ok .lost
  | s, t => .error ⟨attemptStatusStr s, attemptTransitionStr t⟩

namespace AttemptStatus

/-- `status IN ('assigned','running','validating')`. -/
def inFlight : AttemptStatus → Bool
  | .assigned | .running | .validating => true
  | .succeeded | .failed | .cancelled | .lost => false

end AttemptStatus

namespace TaskStatus

def inFlight : TaskStatus → Bool
  | .assigned | .running | .validating => true
  | .queued | .succeeded | .failed | .cancelled => false

/-- `status IN ('succeeded','failed','cancelled')`. -/
def isTerminal : TaskStatus → Bool
  | .succeeded | .failed | .cancelled => true
  | .queued | .assigned | .running | .validating => false

end TaskStatus

/-- The task status that goes with an attempt in flight. -/
def AttemptStatus.taskStatus : AttemptStatus → TaskStatus
  | .assigned => .assigned
  | .running => .running
  | .validating => .validating
  | .succeeded => .succeeded
  | .failed | .lost => .failed
  | .cancelled => .cancelled

theorem AttemptStatus.inFlight_taskStatus (s : AttemptStatus)
    (h : s.inFlight = true) : s.taskStatus.inFlight = true := by
  cases s <;> simp_all [inFlight, taskStatus, TaskStatus.inFlight]

/-- A transition of the attempt machine out of flight ends the attempt. -/
theorem nextAttemptStatus_ends {s next : AttemptStatus} {t : AttemptTransition}
    (ht : t = .succeed ∨ t = .fail ∨ t = .cancel)
    (h : nextAttemptStatus s t = .ok next) :
    s.inFlight = true ∧ next.inFlight = false := by
  rcases ht with rfl | rfl | rfl <;> cases s <;> cases h <;> exact ⟨rfl, rfl⟩

theorem nextTaskStatus_ends {s next : TaskStatus} {t : TaskTransition}
    (ht : t = .succeed ∨ t = .fail ∨ t = .cancel)
    (h : nextTaskStatus s t = .ok next) : next.isTerminal = true := by
  rcases ht with rfl | rfl | rfl <;> cases s <;> cases h <;> rfl

theorem TaskStatus.inFlight_of_isTerminal {s : TaskStatus}
    (h : s.isTerminal = true) : s.inFlight = false ∧ s ≠ .queued := by
  cases s <;> simp_all [isTerminal, inFlight]

end AgentGrid.Store
