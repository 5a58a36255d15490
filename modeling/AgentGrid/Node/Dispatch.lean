import AgentGrid.Node.CompletionOutbox

/-!
# Dispatching assignments on a node

`dispatch_batch` reads the undelivered completions once, then takes the
attempts of its batch one by one: an attempt in flight is dropped, one with an
undelivered completion has that completion sent again, and any other gets a
runner once a slot is free.  Calls, runners and redeliveries run concurrently.
-/

namespace AgentGrid.Node

open AgentGrid.Foundation AgentGrid.Store

/-- A `dispatch_batch` under way: what it read from the outbox, the attempts
whose completion was recorded since, the rest of its batch and the attempt it
holds until a slot is free. -/
structure DispatchCall where
  undelivered : List AttemptId
  since : List AttemptId := []
  rest : List AttemptId
  waiting : Option AttemptId := none

inductive NodeTask
  | dispatch (call : DispatchCall)
  | runner (attemptId : AttemptId)
  | redelivery (attemptId : AttemptId)

/-- The attempt whose in-flight entry the task answers for. -/
def NodeTask.holds : NodeTask → Option AttemptId
  | .dispatch call => call.waiting
  | .runner attemptId => some attemptId
  | .redelivery attemptId => some attemptId

/-- `book` is what the last record or acknowledgement of each attempt left. -/
structure Daemon where
  outbox : Outbox := {}
  book : Book := fun _ => none
  inFlight : AttemptId → Bool := fun _ => false
  permits : Nat
  tasks : Nat → Option NodeTask := fun _ => none

inductive DaemonOp
  | begin (i : Nat) (batch : List AttemptId) (readable : Bool)
  | next (i j : Nat)
  | acquire (i j : Nat)
  | leave (i : Nat)
  | record (k : Nat) (req : CompleteAttemptRequest) (fencingToken : String) (bytes : Nat)
  | ack (attemptId : AttemptId) (compactThreshold : Nat)
  | exit (k : Nat)
  | restart (permits : Nat)

namespace Daemon

def setTask (d : Daemon) (i : Nat) (task : Option NodeTask) : Daemon :=
  { d with tasks := fun k => if k = i then task else d.tasks k }

def setInFlight (d : Daemon) (attemptId : AttemptId) (held : Bool) : Daemon :=
  { d with inFlight := fun a => if a = attemptId then held else d.inFlight a }

/-- Every call under way learns what is recorded after its snapshot. -/
def noteRecord (d : Daemon) (attemptId : AttemptId) : Daemon :=
  { d with tasks := fun k => (d.tasks k).map fun
      | .dispatch call => .dispatch { call with since := attemptId :: call.since }
      | task => task }

end Daemon

/-- The next attempt of a call; a redelivery is spawned as task `j`. -/
def dispatchNext (d : Daemon) (i j : Nat) (call : DispatchCall) : Option Daemon :=
  match call.waiting, call.rest with
  | none, a :: rest =>
      let call := { call with rest := rest }
      if d.inFlight a then some (d.setTask i (some (.dispatch call)))
      else if a ∈ call.undelivered then
        if (d.tasks j).isSome then none
        else some (((d.setInFlight a true).setTask i (some (.dispatch call))).setTask j
          (some (.redelivery a)))
      else
        some ((d.setInFlight a true).setTask i
          (some (.dispatch { call with waiting := some a })))
  | _, _ => none

def daemonStep (d : Daemon) : DaemonOp → Option Daemon
  | .begin i batch readable =>
      if (d.tasks i).isSome then none
      else
        let (outbox, lines) := pending d.outbox
        let undelivered := if readable then lines.map CompletionLine.attemptId else []
        some ({ d with outbox := outbox }.setTask i
          (some (.dispatch { undelivered := undelivered, rest := batch })))
  | .next i j =>
      match d.tasks i with
      | some (.dispatch call) => dispatchNext d i j call
      | _ => none
  | .acquire i j =>
      match d.tasks i with
      | some (.dispatch call) =>
          match call.waiting with
          | some a =>
              if 0 < d.permits ∧ (d.tasks j).isNone then
                some (({ d with permits := d.permits - 1 }.setTask i
                  (some (.dispatch { call with waiting := none }))).setTask j
                    (some (.runner a)))
              else none
          | none => none
      | _ => none
  | .leave i =>
      match d.tasks i with
      | some (.dispatch _) => some (d.setTask i none)
      | _ => none
  | .record k req fencingToken bytes =>
      match d.tasks k with
      | some (.runner a) =>
          some ({ d with
            outbox := Node.record d.outbox a req fencingToken bytes
            book := bookStep d.book (.record a req fencingToken bytes) }.noteRecord a)
      | _ => none
  | .ack a compactThreshold =>
      some { d with
        outbox := Node.ack d.outbox a compactThreshold
        book := bookStep d.book (.ack a compactThreshold) }
  | .exit k =>
      match d.tasks k with
      | some (.runner a) =>
          some ({ d with permits := d.permits + 1 }.setInFlight a false |>.setTask k none)
      | some (.redelivery a) => some ((d.setInFlight a false).setTask k none)
      | _ => none
  | .restart permits =>
      some { outbox := d.outbox, book := d.book, permits := permits }

def DaemonStep (d : Daemon) (op : DaemonOp) (d' : Daemon) : Prop :=
  daemonStep d op = some d'

/-- The outbox can be read and no completion is recorded over a drop marker,
and when a call comes to an attempt that is not in flight, no completion of it
recorded since the call read the outbox is still undelivered. -/
def DaemonOp.Fresh (d : Daemon) : DaemonOp → Prop
  | .begin _ _ readable => readable = true
  | .next i _ => ∀ call a rest, d.tasks i = some (.dispatch call) → call.rest = a :: rest →
      d.inFlight a = false → a ∈ call.since → d.book a = none
  | .record k _ _ _ => ∀ a, d.tasks k = some (.runner a) →
      a ∉ droppedAttempts d.outbox.content
  | _ => True

/-! ## One holder for each attempt -/

def Daemon.holder (d : Daemon) (k : Nat) : Option AttemptId :=
  (d.tasks k).bind NodeTask.holds

/-- Every holder is registered and no attempt has two. -/
structure Exclusive (holder : Nat → Option AttemptId) (inFlight : AttemptId → Bool) :
    Prop where
  held : ∀ k a, holder k = some a → inFlight a = true
  sole : ∀ k k' a, holder k = some a → holder k' = some a → k = k'

namespace Exclusive

variable {holder holder' : Nat → Option AttemptId} {inFlight : AttemptId → Bool}

theorem shrink (h : Exclusive holder inFlight)
    (hsub : ∀ k a, holder' k = some a → holder k = some a) :
    Exclusive holder' inFlight := by
  constructor
  · intro k a hk
    exact h.held k a (hsub k a hk)
  · intro k k' a hk hk'
    exact h.sole k k' a (hsub k a hk) (hsub k' a hk')

theorem take (h : Exclusive holder inFlight) {a : AttemptId} (hfree : inFlight a = false)
    (i : Nat) (hown : ∀ b, holder' i = some b → b = a)
    (hother : ∀ k b, k ≠ i → holder' k = some b → holder k = some b) :
    Exclusive holder' (fun b => if b = a then true else inFlight b) := by
  have hnone : ∀ k, holder k ≠ some a := by
    intro k hk
    rw [h.held k a hk] at hfree
    cases hfree
  have hat : ∀ k b, holder' k = some b → (k = i ∧ b = a) ∨ (k ≠ i ∧ holder k = some b) := by
    intro k b hk
    by_cases hki : k = i
    · subst hki
      exact .inl ⟨rfl, hown b hk⟩
    · exact .inr ⟨hki, hother k b hki hk⟩
  constructor
  · intro k b hk
    rcases hat k b hk with ⟨_, rfl⟩ | ⟨_, hold⟩
    · simp
    · simp [h.held k b hold]
  · intro k k' b hk hk'
    rcases hat k b hk with ⟨rfl, rfl⟩ | ⟨_, hold⟩
    · rcases hat k' b hk' with ⟨rfl, _⟩ | ⟨_, hold'⟩
      · rfl
      · exact absurd hold' (hnone k')
    · rcases hat k' b hk' with ⟨_, rfl⟩ | ⟨_, hold'⟩
      · exact absurd hold (hnone k)
      · exact h.sole k k' b hold hold'

theorem pass (h : Exclusive holder inFlight) {a : AttemptId} {i j : Nat}
    (hi : holder i = some a) (hleft : holder' i = none)
    (htook : holder' j = some a)
    (hother : ∀ k, k ≠ i → k ≠ j → holder' k = holder k) :
    Exclusive holder' inFlight := by
  have hat : ∀ k b, holder' k = some b → (k = j ∧ b = a) ∨
      (k ≠ i ∧ holder k = some b) := by
    intro k b hk
    by_cases hki : k = i
    · rw [hki, hleft] at hk
      cases hk
    · by_cases hkj : k = j
      · rw [hkj, htook] at hk
        exact .inl ⟨hkj, (Option.some.inj hk).symm⟩
      · rw [hother k hki hkj] at hk
        exact .inr ⟨hki, hk⟩
  constructor
  · intro k b hk
    rcases hat k b hk with ⟨_, rfl⟩ | ⟨_, hold⟩
    · exact h.held i b hi
    · exact h.held k b hold
  · intro k k' b hk hk'
    rcases hat k b hk with ⟨rfl, rfl⟩ | ⟨hne, hold⟩
    · rcases hat k' b hk' with ⟨rfl, _⟩ | ⟨hne', hold'⟩
      · rfl
      · exact absurd (h.sole k' i b hold' hi) hne'
    · rcases hat k' b hk' with ⟨_, rfl⟩ | ⟨_, hold'⟩
      · exact absurd (h.sole k i b hold hi) hne
      · exact h.sole k k' b hold hold'

theorem drop (h : Exclusive holder inFlight) {a : AttemptId} {i : Nat}
    (hi : holder i = some a) (hleft : holder' i = none)
    (hother : ∀ k, k ≠ i → holder' k = holder k) :
    Exclusive holder' (fun b => if b = a then false else inFlight b) := by
  have hold : ∀ k b, holder' k = some b → k ≠ i ∧ holder k = some b := by
    intro k b hk
    by_cases hki : k = i
    · rw [hki, hleft] at hk
      cases hk
    · rw [hother k hki] at hk
      exact ⟨hki, hk⟩
  constructor
  · intro k b hk
    obtain ⟨hki, hkb⟩ := hold k b hk
    have hne : b ≠ a := by
      rintro rfl
      exact hki (h.sole k i b hkb hi)
    simp [hne, h.held k b hkb]
  · intro k k' b hk hk'
    exact h.sole k k' b (hold k b hk).2 (hold k' b hk').2

end Exclusive

/-- A call under way has read, or learnt since, every undelivered completion,
and the attempt it waits with has none. -/
structure Informed (book : Book) (call : DispatchCall) : Prop where
  known : ∀ a, book a ≠ none → a ∈ call.undelivered ∨ a ∈ call.since
  idle : ∀ a, call.waiting = some a → book a = none

structure Guarded (d : Daemon) : Prop where
  represents : Represents d.outbox d.book
  exclusive : Exclusive d.holder d.inFlight
  informed : ∀ k call, d.tasks k = some (.dispatch call) → Informed d.book call

section Preservation

variable {d d' : Daemon}

@[simp] theorem Daemon.setTask_tasks (i k : Nat) (task : Option NodeTask) :
    (d.setTask i task).tasks k = if k = i then task else d.tasks k := rfl

@[simp] theorem Daemon.setInFlight_tasks (a : AttemptId) (held : Bool) :
    (d.setInFlight a held).tasks = d.tasks := rfl

private theorem holder_of_tasks {k : Nat} {task : Option NodeTask} (h : d.tasks k = task) :
    d.holder k = task.bind NodeTask.holds := by
  rw [Daemon.holder, h]

theorem Guarded.known_pending (h : Guarded d) {a : AttemptId} (hbook : d.book a ≠ none) :
    a ∈ (pending d.outbox).2.map CompletionLine.attemptId := by
  have hpending := h.represents.pendingOf a
  cases hc : d.book a with
  | none => exact absurd hc hbook
  | some c =>
      rw [hc] at hpending
      have hmem : c ∈ pendingOf d.outbox a := by simp [hpending]
      obtain ⟨hin, hid⟩ := List.mem_filter.mp hmem
      rw [List.mem_map]
      exact ⟨c, hin, by simpa using hid⟩

/-- The tasks other than `i` keep what they know when task `i` is replaced. -/
private theorem informed_setTask {book : Book} {i : Nat} {task : Option NodeTask}
    (h : ∀ k call, d.tasks k = some (.dispatch call) → Informed book call)
    (hnew : ∀ call, task = some (.dispatch call) → Informed book call) :
    ∀ k call, (d.setTask i task).tasks k = some (.dispatch call) → Informed book call := by
  intro k call hk
  rw [Daemon.setTask_tasks] at hk
  split at hk
  · exact hnew call hk
  · exact h k call hk

theorem guarded_begin (h : Guarded d) {i : Nat} {batch : List AttemptId}
    (hstep : daemonStep d (.begin i batch true) = some d') : Guarded d' := by
  unfold daemonStep at hstep
  simp only at hstep
  split at hstep
  · cases hstep
  · rw [represents_pending h.represents] at hstep
    obtain rfl := Option.some.inj hstep
    constructor
    · exact h.represents
    · refine h.exclusive.shrink ?_
      intro k a hk
      by_cases hki : k = i
      · simp [Daemon.holder, hki, NodeTask.holds] at hk
      · simpa [Daemon.holder, hki] using hk
    · refine informed_setTask h.informed ?_
      intro call hcall
      obtain rfl : _ = call := by simpa using hcall
      constructor
      · intro a hbook
        exact .inl (by simpa using h.known_pending hbook)
      · intro a hwait
        cases hwait

theorem guarded_next (h : Guarded d) {i j : Nat}
    (hfresh : DaemonOp.Fresh d (.next i j))
    (hstep : daemonStep d (.next i j) = some d') : Guarded d' := by
  unfold daemonStep at hstep
  simp only at hstep
  split at hstep
  case h_2 => cases hstep
  case h_1 call htask =>
      have hinfo := h.informed i call htask
      unfold dispatchNext at hstep
      split at hstep
      case h_2 => cases hstep
      case h_1 a rest hwait hrest =>
          dsimp only at hstep
          have hnone : d.holder i = none := by
            simp [holder_of_tasks htask, NodeTask.holds, hwait]
          have hrestInfo : Informed d.book { call with rest := rest } :=
            ⟨hinfo.known, hinfo.idle⟩
          split at hstep
          · obtain rfl := Option.some.inj hstep
            constructor
            · exact h.represents
            · refine h.exclusive.shrink ?_
              intro k b hk
              by_cases hki : k = i
              · simp [Daemon.holder, hki, NodeTask.holds, hwait] at hk
              · simpa [Daemon.holder, hki] using hk
            · refine informed_setTask h.informed ?_
              intro call' hcall
              obtain rfl : _ = call' := by simpa using hcall
              exact hrestInfo
          · rename_i hfree
            rw [Bool.not_eq_true] at hfree
            split at hstep
            · split at hstep
              · cases hstep
              · rename_i hj
                obtain rfl := Option.some.inj hstep
                have hji : j ≠ i := by
                  rintro rfl
                  simp [htask] at hj
                constructor
                · exact h.represents
                · refine h.exclusive.take hfree j ?_ ?_
                  · intro b hb
                    simpa [Daemon.holder, NodeTask.holds, eq_comm] using hb
                  · intro k b hkj hk
                    by_cases hki : k = i
                    · simp [Daemon.holder, hki, Ne.symm hji, NodeTask.holds, hwait] at hk
                    · simpa [Daemon.holder, hkj, hki] using hk
                · refine informed_setTask (informed_setTask h.informed ?_) ?_
                  · intro call' hcall
                    obtain rfl : _ = call' := by simpa using hcall
                    exact hrestInfo
                  · intro call' hcall
                    simp at hcall
            · rename_i hundelivered
              obtain rfl := Option.some.inj hstep
              have hbook : d.book a = none := by
                by_contra hne
                rcases hinfo.known a hne with hread | hsince
                · exact hundelivered hread
                · exact hne (hfresh call a rest htask hrest hfree hsince)
              constructor
              · exact h.represents
              · refine h.exclusive.take hfree i ?_ ?_
                · intro b hb
                  simpa [Daemon.holder, NodeTask.holds, eq_comm] using hb
                · intro k b hki hk
                  simpa [Daemon.holder, hki] using hk
              · refine informed_setTask h.informed ?_
                intro call' hcall
                obtain rfl : _ = call' := by simpa using hcall
                constructor
                · exact hinfo.known
                · intro b hb
                  obtain rfl : a = b := by simpa using hb
                  exact hbook

/-- A call takes a slot and hands its attempt to a runner. -/
theorem acquire_cases {i j : Nat} (hstep : daemonStep d (.acquire i j) = some d') :
    ∃ call a, d.tasks i = some (.dispatch call) ∧ call.waiting = some a ∧
      d.tasks j = none ∧ d' = ({ d with permits := d.permits - 1 }.setTask i
        (some (.dispatch { call with waiting := none }))).setTask j (some (.runner a)) := by
  unfold daemonStep at hstep
  simp only at hstep
  split at hstep
  case h_2 => cases hstep
  case h_1 call htask =>
      split at hstep
      case h_2 => cases hstep
      case h_1 a hwait =>
          split at hstep
          · rename_i hfree
            exact ⟨call, a, htask, hwait, by simpa using hfree.2, (Option.some.inj hstep).symm⟩
          · cases hstep

theorem guarded_acquire (h : Guarded d) {i j : Nat}
    (hstep : daemonStep d (.acquire i j) = some d') : Guarded d' := by
  obtain ⟨call, a, htask, hwait, hj, rfl⟩ := acquire_cases hstep
  have hinfo := h.informed i call htask
  have hij : i ≠ j := by
    rintro rfl
    rw [htask] at hj
    cases hj
  constructor
  · exact h.represents
  · have hi : d.holder i = some a := by
      simp [holder_of_tasks htask, NodeTask.holds, hwait]
    refine h.exclusive.pass hi ?_ ?_ ?_ (j := j)
    · simp [Daemon.holder, hij, NodeTask.holds]
    · simp [Daemon.holder, NodeTask.holds]
    · intro k hki hkj
      simp [Daemon.holder, hki, hkj]
  · refine informed_setTask (informed_setTask (d := { d with permits := d.permits - 1 })
      h.informed ?_) ?_
    · intro call' hcall
      obtain rfl : _ = call' := by simpa using hcall
      constructor
      · exact hinfo.known
      · intro b hb
        cases hb
    · intro call' hcall
      simp at hcall

theorem guarded_leave (h : Guarded d) {i : Nat}
    (hstep : daemonStep d (.leave i) = some d') : Guarded d' := by
  unfold daemonStep at hstep
  simp only at hstep
  split at hstep
  case h_2 => cases hstep
  case h_1 call htask =>
      obtain rfl := Option.some.inj hstep
      constructor
      · exact h.represents
      · refine h.exclusive.shrink ?_
        intro k a hk
        by_cases hki : k = i
        · simp [Daemon.holder, hki] at hk
        · simpa [Daemon.holder, hki] using hk
      · refine informed_setTask h.informed ?_
        intro call' hcall
        cases hcall

private theorem noteRecord_dispatch {a : AttemptId} {k : Nat} {call : DispatchCall}
    (h : (d.noteRecord a).tasks k = some (.dispatch call)) :
    ∃ old, d.tasks k = some (.dispatch old) ∧ call = { old with since := a :: old.since } := by
  simp only [Daemon.noteRecord, Option.map_eq_some_iff] at h
  obtain ⟨task, htask, heq⟩ := h
  cases task with
  | dispatch old => exact ⟨old, htask, (NodeTask.dispatch.inj heq).symm⟩
  | runner b => cases heq
  | redelivery b => cases heq

private theorem noteRecord_holder (a : AttemptId) : (d.noteRecord a).holder = d.holder := by
  funext k
  simp only [Daemon.holder, Daemon.noteRecord]
  cases d.tasks k with
  | none => rfl
  | some task => cases task <;> rfl

theorem guarded_record (h : Guarded d) {k : Nat} {req : CompleteAttemptRequest}
    {fencingToken : String} {bytes : Nat}
    (hfresh : DaemonOp.Fresh d (.record k req fencingToken bytes))
    (hstep : daemonStep d (.record k req fencingToken bytes) = some d') : Guarded d' := by
  unfold daemonStep at hstep
  simp only at hstep
  split at hstep
  case h_2 => cases hstep
  case h_1 a htask =>
      obtain rfl := Option.some.inj hstep
      have hholder : d.holder k = some a := by
        simp [holder_of_tasks htask, NodeTask.holds]
      constructor
      · exact represents_record h.represents a req fencingToken bytes (hfresh a htask)
      · rw [noteRecord_holder]
        exact h.exclusive
      · intro k' call hcall
        obtain ⟨old, hnoted, rfl⟩ := noteRecord_dispatch hcall
        have hold : d.tasks k' = some (.dispatch old) := hnoted
        have hinfo := h.informed k' old hold
        constructor
        · intro b hb
          by_cases hba : b = a
          · exact .inr (by simp [hba])
          · rcases hinfo.known b (by simpa [Daemon.noteRecord, bookStep, hba] using hb)
              with hread | hsince
            · exact .inl hread
            · exact .inr (List.mem_cons_of_mem _ hsince)
        · intro b hb
          have hne : b ≠ a := by
            rintro rfl
            have hother : d.holder k' = some b := by
              rw [holder_of_tasks hold]
              exact hb
            have hk := h.exclusive.sole k k' b hholder hother
            subst hk
            rw [htask] at hold
            cases hold
          simpa [Daemon.noteRecord, bookStep, hne] using hinfo.idle b hb

theorem guarded_ack (h : Guarded d) (a : AttemptId) (compactThreshold : Nat)
    (hstep : daemonStep d (.ack a compactThreshold) = some d') : Guarded d' := by
  obtain rfl := Option.some.inj hstep
  constructor
  · exact represents_ack h.represents a compactThreshold
  · exact h.exclusive
  · intro k call hcall
    have hinfo := h.informed k call hcall
    constructor
    · intro b hb
      by_cases hba : b = a
      · simp [bookStep, hba] at hb
      · exact hinfo.known b (by simpa [bookStep, hba] using hb)
    · intro b hb
      by_cases hba : b = a
      · simp [bookStep, hba]
      · simpa [bookStep, hba] using hinfo.idle b hb

theorem guarded_exit (h : Guarded d) {k : Nat}
    (hstep : daemonStep d (.exit k) = some d') : Guarded d' := by
  have hcore : ∀ a task, d.tasks k = some task → task.holds = some a →
      ∀ permits, Guarded (({ d with permits := permits }.setInFlight a false).setTask k none) := by
    intro a task htask hholds permits
    constructor
    · exact h.represents
    · have hk : d.holder k = some a := by
        rw [holder_of_tasks htask]
        exact hholds
      refine h.exclusive.drop hk ?_ ?_
      · simp [Daemon.holder]
      · intro k' hk'
        simp [Daemon.holder, hk']
    · refine informed_setTask (d := { d with permits := permits }.setInFlight a false)
        h.informed ?_
      intro call hcall
      cases hcall
  unfold daemonStep at hstep
  simp only at hstep
  split at hstep
  case h_1 a htask =>
      obtain rfl := Option.some.inj hstep
      exact hcore a _ htask rfl _
  case h_2 a htask =>
      obtain rfl := Option.some.inj hstep
      exact hcore a _ htask rfl d.permits
  case h_3 => cases hstep

theorem guarded_restart (h : Guarded d) {permits : Nat}
    (hstep : daemonStep d (.restart permits) = some d') : Guarded d' := by
  obtain rfl := Option.some.inj hstep
  constructor
  · exact h.represents
  · constructor
    · intro k a hk
      cases hk
    · intro k k' a hk
      cases hk
  · intro k call hcall
    cases hcall

theorem guarded_step {op : DaemonOp} (h : Guarded d)
    (hstep : During DaemonStep DaemonOp.Fresh d op d') : Guarded d' := by
  obtain ⟨hstep, hfresh⟩ := hstep
  cases op with
  | begin i batch readable =>
      obtain rfl : readable = true := hfresh
      exact guarded_begin h hstep
  | next i j => exact guarded_next h hfresh hstep
  | acquire i j => exact guarded_acquire h hstep
  | leave i => exact guarded_leave h hstep
  | record k req fencingToken bytes => exact guarded_record h hfresh hstep
  | ack a compactThreshold => exact guarded_ack h a compactThreshold hstep
  | exit k => exact guarded_exit h hstep
  | restart permits => exact guarded_restart h hstep

theorem guarded_initial (permits : Nat) : Guarded { permits := permits } := by
  constructor
  · constructor <;> simp [Outbox.content, recordsOf]
  · constructor
    · intro k a hk
      cases hk
    · intro k k' a hk
      cases hk
  · intro k call hcall
    cases hcall

end Preservation

/-- Starting a runner as task `j` gives the attempt no second holder and runs
nothing whose completion is recorded and not yet acknowledged. -/
def StartsOnce (d : Daemon) : Prop :=
  (∀ k k' a, d.tasks k = some (.runner a) → d.tasks k' = some (.runner a) → k = k') ∧
    ∀ i j d', daemonStep d (.acquire i j) = some d' →
      ∃ a, d'.tasks j = some (.runner a) ∧ (∀ k, k ≠ i → d.holder k ≠ some a) ∧
        d.book a = none ∧ pendingOf d.outbox a = []

/-- In every run whose calls come to no attempt with a completion recorded
since their snapshot and still undelivered, an attempt has at most one runner,
and none is started while it is in flight or its completion undelivered. -/
theorem dispatch_single_execution {permits : Nat} {ops : List DaemonOp} {d : Daemon}
    (h : Runs (During DaemonStep DaemonOp.Fresh) { permits := permits } ops d) :
    StartsOnce d := by
  have hguard : Guarded d := h.invariant Guarded guarded_step (guarded_initial permits)
  constructor
  · intro k k' a hk hk'
    apply hguard.exclusive.sole k k' a
    · simp [holder_of_tasks hk, NodeTask.holds]
    · simp [holder_of_tasks hk', NodeTask.holds]
  · intro i j d' hstep
    obtain ⟨call, a, htask, hwait, _, rfl⟩ := acquire_cases hstep
    have hi : d.holder i = some a := by
      simp [holder_of_tasks htask, NodeTask.holds, hwait]
    have hbook := (hguard.informed i call htask).idle a hwait
    refine ⟨a, by simp, ?_, hbook, ?_⟩
    · intro k hki hk
      exact hki (hguard.exclusive.sole k i a hk hi)
    · rw [hguard.represents.pendingOf a, hbook]
      rfl

def redelivered : List DaemonOp :=
  [.begin 0 [attemptA] true, .next 0 1, .acquire 0 1, .begin 2 [attemptB, attemptA] true,
   .next 2 3]

def NodeTask.runs (a : AttemptId) : NodeTask → Bool
  | .runner b => a == b
  | _ => false

/-- An assignment redelivered behind another one, while its runner is at work. -/
theorem dispatch_single_execution_redelivered : ∃ d,
    Runs (During DaemonStep DaemonOp.Fresh) { permits := 2 }
      (redelivered ++ [DaemonOp.acquire 2 3, .next 2 4]) d ∧
      (d.tasks 1).map (NodeTask.runs attemptA) = some true ∧
      (d.tasks 3).map (NodeTask.runs attemptB) = some true ∧
      (d.tasks 4).isNone = true ∧ StartsOnce d := by
  have hrun : ∃ d, Runs (During DaemonStep DaemonOp.Fresh) { permits := 2 }
      (redelivered ++ [DaemonOp.acquire 2 3, .next 2 4]) d ∧
      (d.tasks 1).map (NodeTask.runs attemptA) = some true ∧
      (d.tasks 3).map (NodeTask.runs attemptB) = some true ∧ (d.tasks 4).isNone = true := by
    refine ⟨_, .next ⟨rfl, rfl⟩ (.next ⟨rfl, ?_⟩ (.next ⟨rfl, trivial⟩ (.next ⟨rfl, rfl⟩
      (.next ⟨rfl, ?_⟩ (.next ⟨rfl, trivial⟩ (.next ⟨rfl, ?_⟩ (.refl _))))))), by decide⟩
    all_goals
      intro call a rest htask _ _ hsince
      cases htask
      cases hsince
  obtain ⟨d, hrun, htasks⟩ := hrun
  exact ⟨d, hrun, htasks.1, htasks.2.1, htasks.2.2, dispatch_single_execution hrun⟩

/-- The completion is recorded and its report fails while a later batch waits
for a slot; the attempt that batch comes to next runs a second time. -/
theorem dispatch_runs_twice : ¬ ∀ (permits : Nat) (ops : List DaemonOp) (d : Daemon),
    Runs DaemonStep { permits := permits } ops d → StartsOnce d := by
  intro h
  let ops := redelivered ++ [DaemonOp.record 1 { exitCode := 0 } "f1" 40, .exit 1, .acquire 2 3,
    .next 2 4, .exit 3]
  have hends : ((ops.foldlM daemonStep { permits := 1 }).map fun d =>
      ((d.book attemptA).isSome, ((daemonStep d (.acquire 2 4)).bind fun d' =>
        (d'.tasks 4).map (NodeTask.runs attemptA)))) = some (true, some true) := by
    decide
  obtain ⟨d, hrun, hobs⟩ := Option.map_eq_some_iff.mp hends
  obtain ⟨hbook, hstart⟩ := Prod.mk.inj hobs
  obtain ⟨d', hstep, htask⟩ := Option.bind_eq_some_iff.mp hstart
  obtain ⟨a, hrunner, _, hnone, _⟩ := (h 1 ops d (Runs.of_foldlM hrun)).2 2 4 d' hstep
  have ha : attemptA = a := by simpa [hrunner, NodeTask.runs] using htask
  rw [ha, hnone] at hbook
  cases hbook

end AgentGrid.Node
