import Mathlib.Logic.Function.Basic

/-!
# Transactions

The body of a transaction as the statements it sends, each of which reads and
changes the working copy or is refused.  Only a commit makes the working copy the
state; a body that ends otherwise, by an error of its own or of a statement or by
a rollback, leaves the state as it was.
-/

namespace AgentGrid.Foundation

/-- `look` is a read whose failure the body handles itself, as part of what it
reads. -/
inductive Body (δ ε α : Type) : Type 1
  | ret (value : α)
  | fail (error : ε)
  | look {β : Type} (read : δ → β) (next : β → Body δ ε α)
  | stmt {β : Type} (run : δ → Except ε (β × δ)) (next : β → Body δ ε α)

variable {δ ε α β ρ κ : Type}

namespace Body

def bind : Body δ ε α → (α → Body δ ε β) → Body δ ε β
  | .ret value, f => f value
  | .fail error, _ => .fail error
  | .look read next, f => .look read fun b => (next b).bind f
  | .stmt run next, f => .stmt run fun b => (next b).bind f

instance : Monad (Body δ ε) where
  pure := .ret
  bind := .bind

/-- `faults n` is the error of the `n`th statement from here on, if it fails
whatever it says. -/
def eval : Body δ ε α → (Nat → Option ε) → δ → Except ε (α × δ)
  | .ret value, _, s => .ok (value, s)
  | .fail error, _, _ => .error error
  | .look read next, faults, s => (next (read s)).eval faults s
  | .stmt run next, faults, s =>
      match faults 0, run s with
      | some error, _ => .error error
      | none, .error error => .error error
      | none, .ok (b, s') => (next b).eval (fun n => faults (n + 1)) s'

/-- Without a fault. -/
def plain (body : Body δ ε α) (s : δ) : Except ε (α × δ) := body.eval (fun _ => none) s

def query (read : δ → β) : Body δ ε β := .stmt (fun s => .ok (read s, s)) .ret

def execute (write : δ → δ) : Body δ ε Unit := .stmt (fun s => .ok ((), write s)) .ret

def peek (read : δ → β) : Body δ ε β := .look read .ret

def allow : Except ε β → Body δ ε β
  | .ok value => .ret value
  | .error error => .fail error

/-- A fault ends the body; short of that it changes nothing. -/
theorem eval_faults (body : Body δ ε α) (faults : Nat → Option ε) (s : δ) :
    body.eval faults s = body.plain s ∨
      ∃ n error, faults n = some error ∧ body.eval faults s = .error error := by
  induction body generalizing faults s with
  | ret value => exact .inl rfl
  | fail error => exact .inl rfl
  | look read next ih => exact ih (read s) faults s
  | stmt run next ih =>
      cases hfault : faults 0 with
      | some error => exact .inr ⟨0, error, hfault, by simp only [eval, hfault]⟩
      | none =>
          simp only [plain, eval, hfault]
          cases run s with
          | error error => exact .inl rfl
          | ok answer =>
              rcases ih answer.1 (fun n => faults (n + 1)) answer.2 with hsame | ⟨n, error, hn, heq⟩
              · exact .inl hsame
              · exact .inr ⟨n + 1, error, hn, heq⟩

section Plain

variable (s : δ)

@[simp] theorem plain_pure (value : α) :
    (pure value : Body δ ε α).plain s = .ok (value, s) := rfl

@[simp] theorem plain_ret (value : α) : (ret value : Body δ ε α).plain s = .ok (value, s) := rfl

@[simp] theorem plain_fail (error : ε) :
    (fail error : Body δ ε α).plain s = .error error := rfl

@[simp] theorem plain_query (read : δ → β) :
    (query read : Body δ ε β).plain s = .ok (read s, s) := rfl

@[simp] theorem plain_execute (write : δ → δ) :
    (execute write : Body δ ε Unit).plain s = .ok ((), write s) := rfl

@[simp] theorem plain_peek (read : δ → β) :
    (peek read : Body δ ε β).plain s = .ok (read s, s) := rfl

@[simp] theorem plain_allow (value : Except ε β) :
    (allow value : Body δ ε β).plain s = value.map fun v => (v, s) := by
  cases value <;> rfl

theorem plain_stmt (run : δ → Except ε (β × δ)) (next : β → Body δ ε α) :
    (stmt run next).plain s = (run s).bind fun answer => (next answer.1).plain answer.2 := by
  simp only [plain, eval]
  cases run s <;> rfl

@[simp] theorem plain_bind (body : Body δ ε α) (f : α → Body δ ε β) :
    (body >>= f).plain s = (body.plain s).bind fun answer => (f answer.1).plain answer.2 := by
  change (body.bind f).plain s = _
  induction body generalizing s with
  | ret value => rfl
  | fail error => rfl
  | look read next ih => exact ih (read s) s
  | stmt run next ih =>
      rw [bind, plain_stmt, plain_stmt]
      cases run s with
      | error error => rfl
      | ok answer => exact ih answer.1 answer.2

end Plain

end Body

/-- How a body ends that does not fail. -/
inductive Ending (ρ κ : Type)
  | rollback (answer : ρ)
  | commit (outcome : κ)

/-- A commit that is answered by an error, before or after the state was written. -/
inductive CommitFault (ε : Type)
  | refused (error : ε)
  | unacknowledged (error : ε)

def transact (body : Body δ ε (Ending ρ κ)) (faults : Nat → Option ε)
    (fault : Option (CommitFault ε)) (s : δ) : δ × Except ε (Ending ρ κ) :=
  match body.eval faults s with
  | .error error => (s, .error error)
  | .ok (.rollback answer, _) => (s, .ok (.rollback answer))
  | .ok (.commit outcome, s') =>
      match fault with
      | none => (s', .ok (.commit outcome))
      | some (.refused error) => (s, .error error)
      | some (.unacknowledged error) => (s', .error error)

/-- The state is as before, or it is what the body committed. -/
theorem transact_cases (body : Body δ ε (Ending ρ κ)) (faults : Nat → Option ε)
    (fault : Option (CommitFault ε)) (s : δ) :
    (∃ error, transact body faults fault s = (s, .error error)) ∨
      (∃ answer s', body.plain s = .ok (.rollback answer, s') ∧
        transact body faults fault s = (s, .ok (.rollback answer))) ∨
      ∃ outcome s', body.plain s = .ok (.commit outcome, s') ∧
        (transact body faults fault s = (s', .ok (.commit outcome)) ∨
          ∃ error, fault = some (.unacknowledged error) ∧
            transact body faults fault s = (s', .error error)) := by
  have hplain : ∀ value, body.eval faults s = .ok value → body.plain s = .ok value := by
    intro value heval
    rcases body.eval_faults faults s with hsame | ⟨n, error, -, heq⟩
    · exact hsame.symm.trans heval
    · cases heval.symm.trans heq
  unfold transact
  split
  · rename_i error _
    exact .inl ⟨error, rfl⟩
  · rename_i answer s' heval
    exact .inr (.inl ⟨answer, s', hplain _ heval, rfl⟩)
  · rename_i outcome s' heval
    split
    · exact .inr (.inr ⟨outcome, s', hplain _ heval, .inl rfl⟩)
    · rename_i error
      exact .inl ⟨error, rfl⟩
    · rename_i error
      exact .inr (.inr ⟨outcome, s', hplain _ heval, .inr ⟨error, rfl, rfl⟩⟩)

theorem transact_rollback {body : Body δ ε (Ending ρ κ)} {fault : Option (CommitFault ε)}
    {s s' : δ} {answer : ρ} (h : body.plain s = .ok (.rollback answer, s')) :
    transact body (fun _ => none) fault s = (s, .ok (.rollback answer)) := by
  have heval : body.eval (fun _ => none) s = .ok (.rollback answer, s') := h
  simp only [transact, heval]

theorem transact_error {body : Body δ ε (Ending ρ κ)} {fault : Option (CommitFault ε)}
    {s : δ} {error : ε} (h : body.plain s = .error error) :
    transact body (fun _ => none) fault s = (s, .error error) := by
  have heval : body.eval (fun _ => none) s = .error error := h
  simp only [transact, heval]

end AgentGrid.Foundation
