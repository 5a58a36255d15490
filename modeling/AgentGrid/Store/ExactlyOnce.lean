import AgentGrid.Store.Webhooks
import Mathlib.Data.List.Perm.Basic

/-!
# Deliveries make one task

A delivery that triggers makes at most one task, whatever is retried, fails or
is lost.  It makes one, and an answer of success says that it did, when a failed
insert is followed by the GUID being forgotten: the routes for check runs and
pull requests do not do that.
-/

namespace AgentGrid.Store.Webhooks

open AgentGrid.Foundation
open AgentGrid.Node (Json)

def Setup.hookTask (W : Setup) (d : Delivery) : Except Status (Option CreateTaskRequest) :=
  match d.route with
  | .issues => W.issueTask d.body
  | .checkRun => W.checkRunTask d.body
  | .pullRequest => W.pullRequestTask d.body

/-- The delivery is signed and asks for a task. -/
def Triggers (W : Setup) (d : Delivery) : Prop :=
  W.verifyGithubSig d = .ok () ∧ ∃ req, W.hookTask d = .ok (some req)

/-! ## The stages of a delivery -/

section Stages

variable (W : Setup) (sent : String → Delivery) (g : String)

def forgetting : Program (String × Status) :=
  .call [g] (.deliveryForget g) fun _ => .ret (g, .internalServerError)

def afterCreate : Bool → Program (String × Status)
  | true => .ret (g, .ok)
  | false =>
      if (sent g).route = .issues then forgetting g else .ret (g, .internalServerError)

def creating (req : CreateTaskRequest) : Program (String × Status) :=
  .call [g] (.createTask req (some g)) (afterCreate sent g)

def afterFresh : Program (String × Status) :=
  match W.hookTask (sent g) with
  | .error status => .ret (g, status)
  | .ok none => .ret (g, .ok)
  | .ok (some req) => creating sent g req

def afterDedup : Option Bool → Program (String × Status)
  | some true => afterFresh W sent g
  | some false => .ret (g, .ok)
  | none => .ret (g, .internalServerError)

theorem ifFresh_eq {next : Program Status}
    (h : next.bind (fun status => .ret (g, status)) = afterFresh W sent g) :
    (ifFresh (some g) next).bind (fun status => .ret (g, status)) =
      .call [] (.deliveryFresh g) (afterDedup W sent g) := by
  simp only [ifFresh, ask, Prog.bind_eq, Prog.call_bind, Prog.ret_bind, Prog.call.injEq,
    heq_eq_eq, true_and]
  funext reply
  rcases reply with _ | _ | _
  · rfl
  · rfl
  · exact h

theorem githubIssueWebhook_eq (hroute : (sent g).route = .issues) :
    (match W.issueTask (sent g).body with
      | .error status => pure status
      | .ok none => pure .ok
      | .ok (some req) => do
          if ← ask [g] (.createTask req (some g)) then
            pure .ok
          else
            let _ ← ask [g] (.deliveryForget g)
            pure .internalServerError : Program Status).bind (fun status => .ret (g, status)) =
      afterFresh W sent g := by
  unfold afterFresh Setup.hookTask
  rw [hroute]
  rcases W.issueTask (sent g).body with status | _ | req
  · rfl
  · rfl
  · simp only [creating, ask, Prog.bind_eq, Prog.call_bind, Prog.ret_bind, Prog.call.injEq,
      heq_eq_eq, true_and]
    funext created
    cases created with
    | false =>
        unfold afterCreate
        rw [if_pos hroute]
        rfl
    | true => rfl

theorem followupWebhook_eq {task : List UInt8 → Except Status (Option CreateTaskRequest)}
    (hroute : (sent g).route ≠ .issues) (htask : W.hookTask (sent g) = task (sent g).body) :
    (match task (sent g).body with
      | .error status => pure status
      | .ok none => pure .ok
      | .ok (some req) => do
          if ← ask [g] (.createTask req (some g)) then
            pure .ok
          else
            pure .internalServerError : Program Status).bind (fun status => .ret (g, status)) =
      afterFresh W sent g := by
  unfold afterFresh
  rw [htask]
  rcases task (sent g).body with status | _ | req
  · rfl
  · rfl
  · simp only [creating, ask, Prog.bind_eq, Prog.call_bind, Prog.ret_bind, Prog.call.injEq,
      heq_eq_eq, true_and]
    funext created
    cases created with
    | false =>
        unfold afterCreate
        rw [if_neg hroute]
        rfl
    | true => rfl

theorem serve_eq :
    serve W sent g =
      match W.verifyGithubSig (sent g) with
      | .error status => .ret (g, status)
      | .ok _ => .call [] (.deliveryFresh g) (afterDedup W sent g) := by
  unfold serve webhook
  cases hroute : (sent g).route with
  | issues =>
      unfold githubIssueWebhook
      cases W.verifyGithubSig (sent g) with
      | error status => rfl
      | ok _ => exact ifFresh_eq W sent g (githubIssueWebhook_eq W sent g hroute)
  | checkRun =>
      unfold githubCheckRunWebhook followupWebhook
      cases W.verifyGithubSig (sent g) with
      | error status => rfl
      | ok _ =>
          refine ifFresh_eq W sent g (followupWebhook_eq W sent g ?_ ?_)
          · rw [hroute]
            exact nofun
          · rw [Setup.hookTask, hroute]
  | pullRequest =>
      unfold githubPullRequestWebhook followupWebhook
      cases W.verifyGithubSig (sent g) with
      | error status => rfl
      | ok _ =>
          refine ifFresh_eq W sent g (followupWebhook_eq W sent g ?_ ?_)
          · rw [hroute]
            exact nofun
          · rw [Setup.hookTask, hroute]

inductive Stage : Program (String × Status) → Prop
  | checking (hsig : W.verifyGithubSig (sent g) = .ok ()) :
      Stage (.call [] (.deliveryFresh g) (afterDedup W sent g))
  | creating {req : CreateTaskRequest} (htriggers : Triggers W (sent g)) :
      Stage (creating sent g req)
  | forgetting (htriggers : Triggers W (sent g)) : Stage (forgetting g)
  | answered (status : Status) : Stage (.ret (g, status))

end Stages

def lands (s : HookDb) : Outcome → Bool
  | .failed => false
  | .done id _ => (s.db.task id).isNone

/-- The write succeeds, or it is an insert whose route forgets the delivery. -/
def recovers (sent : String → Delivery) (s : HookDb) : HookTx → Outcome → Bool
  | .createTask _ guid, input => lands s input || guid.any fun g => (sent g).route == .issues
  | .deliveryForget _, input => input != .failed
  | .deliveryFresh _, _ => true

/-- What one write of a delivery does to the store and to the delivery. -/
inductive Turn (W : Setup) (sent : String → Delivery) (g : String) (s : HookDb) :
    List String → HookTx → Outcome → HookDb → Program (String × Status) → Prop
  | dedupFailed :
      Turn W sent g s [] (.deliveryFresh g) .failed s (.ret (g, .internalServerError))
  | duplicate {id now : String} (hseen : g ∈ s.deliveries) :
      Turn W sent g s [] (.deliveryFresh g) (.done id now) s (.ret (g, .ok))
  | recorded {id now : String} (hnew : g ∉ s.deliveries) {req : CreateTaskRequest}
      (htriggers : Triggers W (sent g)) :
      Turn W sent g s [] (.deliveryFresh g) (.done id now)
        { s with deliveries := g :: s.deliveries } (creating sent g req)
  | ignored {id now : String} (hnew : g ∉ s.deliveries) (status : Status)
      (htriggers : ¬ Triggers W (sent g)) :
      Turn W sent g s [] (.deliveryFresh g) (.done id now)
        { s with deliveries := g :: s.deliveries } (.ret (g, status))
  | made {req : CreateTaskRequest} {id now : String} {db : Database} {task : Task}
      (hdb : db.tasks = s.db.tasks ++ [task]) (htask : task.id = id) :
      Turn W sent g s [g] (.createTask req (some g)) (.done id now)
        { s with db := db, made := s.made ++ [(g, id)] } (.ret (g, .ok))
  | undone {req : CreateTaskRequest} {input : Outcome} (htriggers : Triggers W (sent g)) :
      Turn W sent g s [g] (.createTask req (some g)) input s (forgetting g)
  | dropped {tx : HookTx} {input : Outcome} (hlost : recovers sent s tx input = false) :
      Turn W sent g s [g] tx input s (.ret (g, .internalServerError))
  | forgot {id now : String} :
      Turn W sent g s [g] (.deliveryForget g) (.done id now)
        { s with deliveries := s.deliveries.filter fun g' => g' != g }
        (.ret (g, .internalServerError))

theorem createTask_cases (s : HookDb) (req : CreateTaskRequest) (g id now : String) :
    ((s.db.task id).isSome = true ∧ s.createTask req (some g) id now = (s, false)) ∨
    ∃ db, db.tasks = s.db.tasks ++ [req.task id now] ∧
      s.createTask req (some g) id now =
        ({ s with db := db, made := s.made ++ [(g, id)] }, true) := by
  unfold HookDb.createTask Store.createTask
  cases htask : s.db.task id with
  | some _ => exact .inl ⟨rfl, rfl⟩
  | none => exact .inr ⟨_, rfl, rfl⟩

section Turns

variable {W : Setup} {sent : String → Delivery} {g : String} {s : HookDb}

theorem turn_checking (hsig : W.verifyGithubSig (sent g) = .ok ()) (input : Outcome) :
    Turn W sent g s [] (.deliveryFresh g) input (exec input (.deliveryFresh g) s).1
      (afterDedup W sent g (exec input (.deliveryFresh g) s).2) := by
  cases input with
  | failed => exact .dedupFailed
  | done id now =>
      simp only [exec]
      split
      · rename_i hseen
        exact .duplicate hseen
      · rename_i hnew
        unfold afterDedup afterFresh
        have hother : (∀ req, W.hookTask (sent g) ≠ .ok (some req)) → ¬ Triggers W (sent g) := by
          rintro hno ⟨_, req, hreq⟩
          exact hno req hreq
        rcases htask : W.hookTask (sent g) with status | _ | req
        · refine .ignored hnew status (hother fun req => ?_)
          rw [htask]
          exact nofun
        · refine .ignored hnew .ok (hother fun req => ?_)
          rw [htask]
          exact nofun
        · exact .recorded hnew ⟨hsig, req, htask⟩

theorem turn_failed_create {req : CreateTaskRequest} (htriggers : Triggers W (sent g))
    {input : Outcome} (hlost : lands s input = false) :
    Turn W sent g s [g] (.createTask req (some g)) input s (afterCreate sent g false) := by
  by_cases hroute : (sent g).route = .issues
  · rw [afterCreate, if_pos hroute]
    exact .undone htriggers
  · rw [afterCreate, if_neg hroute]
    refine .dropped ?_
    simp only [recovers, hlost, Option.any_some, Bool.false_or, beq_eq_false_iff_ne]
    exact hroute

theorem turn_creating {req : CreateTaskRequest} (htriggers : Triggers W (sent g))
    (input : Outcome) :
    Turn W sent g s [g] (.createTask req (some g)) input
      (exec input (.createTask req (some g)) s).1
      (afterCreate sent g (exec input (.createTask req (some g)) s).2) := by
  cases input with
  | failed => exact turn_failed_create htriggers rfl
  | done id now =>
      simp only [exec]
      obtain ⟨htaken, h⟩ | ⟨db, hdb, h⟩ := createTask_cases s req g id now
      · rw [h]
        refine turn_failed_create htriggers ?_
        rw [lands, Option.isNone_eq_false_iff]
        exact htaken
      · rw [h]
        exact .made hdb rfl

theorem turn_forgetting (input : Outcome) :
    Turn W sent g s [g] (.deliveryForget g) input (exec input (.deliveryForget g) s).1
      (.ret (g, .internalServerError)) := by
  cases input with
  | failed => exact .dropped rfl
  | done id now => exact .forgot

theorem Stage.turn {keys : List String} {tx : HookTx}
    {next : tx.Reply → Program (String × Status)} (h : Stage W sent g (.call keys tx next))
    (input : Outcome) :
    Turn W sent g s keys tx input (exec input tx s).1 (next (exec input tx s).2) := by
  cases h with
  | checking hsig => exact turn_checking hsig input
  | creating htriggers => exact turn_creating htriggers input
  | forgetting htriggers => exact turn_forgetting input

theorem Turn.stage {keys : List String} {tx : HookTx} {input : Outcome} {s' : HookDb}
    {p : Program (String × Status)} (h : Turn W sent g s keys tx input s' p) :
    Stage W sent g p := by
  cases h with
  | dedupFailed => exact .answered _
  | duplicate => exact .answered _
  | recorded hnew htriggers => exact .creating htriggers
  | ignored => exact .answered _
  | made => exact .answered _
  | undone htriggers => exact .forgetting htriggers
  | dropped => exact .answered _
  | forgot => exact .answered _

end Turns

/-! ## The books of a delivery -/

namespace HookDb

def count (s : HookDb) (g : String) : Nat := s.made.countP fun m => m.1 == g

def seen (s : HookDb) (g : String) : Nat := if g ∈ s.deliveries then 1 else 0

def tasksFor (s : HookDb) (g : String) : List Task :=
  (s.made.filter fun m => m.1 == g).filterMap fun m => s.db.task m.2

end HookDb

def holds (p : Program (String × Status)) (g : String) : Bool := p.held.contains g

def holders (P : HookPool) (g : String) : Nat := P.threads.countP fun p => holds p g

section Books

variable {W : Setup} {sent : String → Delivery} {g : String} {s s' : HookDb}
  {keys : List String} {tx : HookTx} {input : Outcome} {p : Program (String × Status)}

theorem count_made (db : Database) (id : String) :
    ({ s with db := db, made := s.made ++ [(g, id)] } : HookDb).count g = s.count g + 1 := by
  simp [HookDb.count]

theorem seen_record (h : g ∉ s.deliveries) :
    s.seen g = 0 ∧ ({ s with deliveries := g :: s.deliveries } : HookDb).seen g = 1 := by
  simp [HookDb.seen, h]

theorem seen_forget :
    ({ s with deliveries := s.deliveries.filter fun k => k != g } : HookDb).seen g = 0 := by
  simp [HookDb.seen]

theorem holds_ret {answer : String × Status} : holds (.ret answer) g = false := rfl

theorem holds_creating {req : CreateTaskRequest} : holds (creating sent g req) g = true := by
  simp [holds, creating]

theorem holds_forgetting : holds (forgetting g) g = true := by
  simp [holds, forgetting]

theorem Turn.count_le (h : Turn W sent g s keys tx input s' p) (k : String) :
    s.count k ≤ s'.count k := by
  cases h with
  | made hdb htask =>
      unfold HookDb.count
      rw [List.countP_append]
      exact Nat.le_add_right _ _
  | _ => exact le_refl _

theorem Turn.tasks (h : Turn W sent g s keys tx input s' p)
    (hs : ∀ m ∈ s.made, (s.db.task m.2).isSome = true) :
    ∀ m ∈ s'.made, (s'.db.task m.2).isSome = true := by
  cases h with
  | @made req id now db task hdb htask =>
      intro m hm
      simp only [Database.task, lookup, hdb, List.find?_isSome, List.mem_append]
      rcases List.mem_append.mp hm with hm | hm
      · obtain ⟨t, ht, hid⟩ := List.find?_isSome.mp (hs m hm)
        exact ⟨t, .inl ht, hid⟩
      · rw [List.mem_singleton.mp hm]
        exact ⟨task, .inr List.mem_cons_self, beq_iff_eq.mpr htask⟩
  | _ => exact hs

/-- A write is about its own delivery. -/
theorem Turn.frame (h : Turn W sent g s keys tx input s' p) {k : String} (hk : k ≠ g) :
    s'.count k = s.count k ∧ s'.seen k = s.seen k ∧ keys.contains k = false ∧
      holds p k = false := by
  cases h <;> simp [HookDb.count, HookDb.seen, holds, creating, forgetting, hk, Ne.symm hk]

/-- The numbers of a delivery: whether it is recorded, whether the program that
moves holds it, and its tasks. -/
theorem Turn.books (h : Turn W sent g s keys tx input s' p) :
    (keys.contains g = false ∧ holds p g = false ∧ s'.count g = s.count g ∧
      (s'.seen g = s.seen g ∨ s.seen g = 0 ∧ s'.seen g = 1 ∧ ¬ Triggers W (sent g))) ∨
    (keys.contains g = false ∧ holds p g = true ∧ s'.count g = s.count g ∧
      s.seen g = 0 ∧ s'.seen g = 1) ∨
    (keys.contains g = true ∧ holds p g = true ∧ s'.count g = s.count g ∧
      s'.seen g = s.seen g) ∨
    (keys.contains g = true ∧ holds p g = false ∧
      (s'.count g = s.count g + 1 ∧ s'.seen g = s.seen g ∨
        s'.count g = s.count g ∧ s'.seen g = 0 ∨
        s' = s ∧ recovers sent s tx input = false)) := by
  have hnone : ([] : List String).contains g = false := rfl
  have hone : [g].contains g = true := by simp
  cases h with
  | dedupFailed => exact .inl ⟨hnone, rfl, rfl, .inl rfl⟩
  | duplicate => exact .inl ⟨hnone, rfl, rfl, .inl rfl⟩
  | recorded hnew htriggers => exact .inr (.inl ⟨hnone, holds_creating, rfl, seen_record hnew⟩)
  | ignored hnew status htriggers =>
      exact .inl ⟨hnone, rfl, rfl, .inr ⟨(seen_record hnew).1, (seen_record hnew).2, htriggers⟩⟩
  | @made req id now db task hdb htask =>
      exact .inr (.inr (.inr ⟨hone, rfl, .inl ⟨count_made db id, rfl⟩⟩))
  | undone htriggers => exact .inr (.inr (.inl ⟨hone, holds_forgetting, rfl, rfl⟩))
  | dropped hlost => exact .inr (.inr (.inr ⟨hone, rfl, .inr (.inr ⟨rfl, hlost⟩)⟩))
  | forgot => exact .inr (.inr (.inr ⟨hone, rfl, .inr (.inl ⟨rfl, seen_forget⟩)⟩))

/-- With `others` programs that hold the GUID beside the one that moves. -/
theorem Turn.once (h : Turn W sent g s keys tx input s' p) {k : String} {others : Nat}
    (hs : s.count k + (others + (keys.contains k).toNat) ≤ s.seen k) :
    s'.count k + (others + (holds p k).toNat) ≤ s'.seen k := by
  have hbit : s.seen g ≤ 1 := by
    unfold HookDb.seen
    split <;> omega
  by_cases hk : k = g
  · subst hk
    obtain ⟨hkeys, hp, hcount, hseen⟩ | ⟨hkeys, hp, hcount, hseen⟩ | ⟨hkeys, hp, hcount, hseen⟩ |
      ⟨hkeys, hp, ⟨hcount, hseen⟩ | ⟨hcount, hseen⟩ | ⟨rfl, -⟩⟩ := h.books <;>
      simp only [hkeys, hp, Bool.toNat_true, Bool.toNat_false] at hs ⊢ <;> omega
  · obtain ⟨hcount, hseen, hkeys, hp⟩ := h.frame hk
    rw [hkeys] at hs
    rw [hcount, hseen, hp]
    exact hs

theorem Turn.settled (h : Turn W sent g s keys tx input s' p)
    (hrecovers : recovers sent s tx input = true) {k : String} (hk : Triggers W (sent k))
    {others : Nat} (hs : s.seen k ≤ s.count k + (others + (keys.contains k).toNat)) :
    s'.seen k ≤ s'.count k + (others + (holds p k).toNat) := by
  by_cases hkg : k = g
  · subst hkg
    obtain ⟨hkeys, hp, hcount, hseen | ⟨-, -, hno⟩⟩ | ⟨hkeys, hp, hcount, hseen⟩ |
      ⟨hkeys, hp, hcount, hseen⟩ |
      ⟨hkeys, hp, ⟨hcount, hseen⟩ | ⟨hcount, hseen⟩ | ⟨-, hlost⟩⟩ := h.books
    · rw [hkeys] at hs
      rw [hp, hcount, hseen]
      exact hs
    · exact absurd hk hno
    · simp only [hkeys, hp, Bool.toNat_true, Bool.toNat_false] at hs ⊢
      omega
    · rw [hkeys] at hs
      rw [hp, hcount, hseen]
      exact hs
    · simp only [hkeys, hp, Bool.toNat_true, Bool.toNat_false] at hs ⊢
      omega
    · rw [hseen]
      exact Nat.zero_le _
    · rw [hrecovers] at hlost
      cases hlost
  · obtain ⟨hcount, hseen, hkeys, hp⟩ := h.frame hkg
    rw [hkeys] at hs
    rw [hcount, hseen, hp]
    exact hs

/-- An answer of success: the task was just made, or the delivery was seen. -/
theorem Turn.succeeds (h : Turn W sent g s keys tx input s' (.ret (g, .ok)))
    (htriggers : Triggers W (sent g)) :
    0 < s'.count g ∨ s' = s ∧ tx = .deliveryFresh g ∧ s.seen g = 1 := by
  cases h with
  | duplicate hseen => exact .inr ⟨rfl, rfl, if_pos hseen⟩
  | ignored hnew status hno => exact absurd htriggers hno
  | @made req id now db task hdb htask =>
      rw [count_made]
      exact .inl (Nat.succ_pos _)

end Books

/-! ## Runs -/

structure Once (W : Setup) (sent : String → Delivery) (P : HookPool) : Prop where
  stages : ∀ p ∈ P.threads, ∃ g, Stage W sent g p
  tasks : ∀ m ∈ P.state.made, (P.state.db.task m.2).isSome = true
  once : ∀ g, P.state.count g + holders P g ≤ P.state.seen g

/-- A delivery that was recorded has its task or is about to. -/
structure Settled (W : Setup) (sent : String → Delivery) (P : HookPool) : Prop where
  recorded : ∀ g, Triggers W (sent g) → P.state.seen g ≤ P.state.count g + holders P g
  answered : ∀ g, Triggers W (sent g) → .ret (g, .ok) ∈ P.threads → 0 < P.state.count g

section Runs

variable {W : Setup} {sent : String → Delivery} {P P' : HookPool} {e : HookEvent}

theorem serve_stage (g : String) : Stage W sent g (serve W sent g) ∧ holds (serve W sent g) = fun _ => false := by
  rw [serve_eq]
  cases hsig : W.verifyGithubSig (sent g) with
  | error status => exact ⟨.answered status, rfl⟩
  | ok _ => exact ⟨.checking hsig, rfl⟩

theorem holders_start (g k : String) :
    holders { P with threads := P.threads ++ [serve W sent g] } k = holders P k := by
  simp [holders, (serve_stage g).2]

theorem holders_set {i : Nat} {p : Program (String × Status)} (s : HookDb)
    (p' : Program (String × Status)) (h : P.threads[i]? = some p) (k : String) :
    ∃ others, holders P k = others + (holds p k).toNat ∧
      holders ⟨s, P.threads.set i p'⟩ k = others + (holds p' k).toNat :=
  countP_set_add p' h

theorem holders_abandon {i : Nat} (h : (P.threads[i]?).all (fun p => p.held.isEmpty) = true)
    (k : String) : holders { P with threads := P.threads.eraseIdx i } k = holders P k := by
  by_cases hi : i < P.threads.length
  · rw [List.getElem?_eq_getElem hi, Option.all_some, List.isEmpty_iff] at h
    have hperm := (List.getElem_cons_eraseIdx_perm hi).countP_eq fun p => holds p k
    rw [List.countP_cons_of_neg (by simp [holds, h])] at hperm
    exact hperm
  · rw [List.eraseIdx_of_length_le (not_lt.mp hi)]

theorem Once.step (hP : Once W sent P) (h : Pool.Steps (rules W sent) P e P') :
    Once W sent P' := by
  obtain ⟨g, rfl, rfl⟩ | ⟨i, input, keys, tx, next, rfl, hcall, rfl⟩ | ⟨i, rfl, rfl⟩ |
    ⟨event, _⟩ := Pool.step_cases h
  · refine ⟨fun p hp => ?_, hP.tasks, fun k => ?_⟩
    · rcases List.mem_append.mp hp with hp | hp
      · exact hP.stages p hp
      · rw [List.mem_singleton.mp hp]
        exact ⟨g, (serve_stage g).1⟩
    · exact le_of_eq_of_le (congrArg _ (holders_start g k)) (hP.once k)
  · obtain ⟨g, hstage⟩ := hP.stages _ (List.mem_of_getElem? hcall)
    have hturn := hstage.turn (s := P.state) input
    refine ⟨fun p hp => ?_, hturn.tasks hP.tasks, fun k => ?_⟩
    · rcases List.mem_or_eq_of_mem_set hp with hp | rfl
      · exact hP.stages p hp
      · exact ⟨g, hturn.stage⟩
    · obtain ⟨others, hbefore, hafter⟩ := holders_set (exec input tx P.state).1
        (next (exec input tx P.state).2) hcall k
      have honce := hP.once k
      rw [hbefore] at honce
      exact le_of_eq_of_le (congrArg _ hafter) (hturn.once honce)
  · refine ⟨fun p hp => hP.stages p (List.mem_of_mem_eraseIdx hp), hP.tasks, fun k => ?_⟩
    refine le_trans (Nat.add_le_add_left ?_ _) (hP.once k)
    exact (List.eraseIdx_sublist _ _).countP_le
  · exact event.elim

/-- No delivery of the GUID that the write checks is in progress. -/
def alone (P : HookPool) : HookTx → Bool
  | .deliveryFresh g => holders P g == 0
  | _ => true

/-- No replay is checked while a delivery of its GUID is in progress, no
delivery in progress is lost, and a write succeeds or is recovered from. -/
def orderly (sent : String → Delivery) (P : HookPool) : HookEvent → Bool
  | .advance i input =>
      match P.threads[i]? with
      | some (.call _ tx _) =>
          recovers sent P.state tx input && alone P tx
      | _ => true
  | .abandon i => (P.threads[i]?).all fun p => p.held.isEmpty
  | _ => true

theorem Settled.step (hP : Settled W sent P) (honce : Once W sent P)
    (h : Pool.Steps (rules W sent) P e P') (he : orderly sent P e = true) :
    Settled W sent P' := by
  obtain ⟨g, rfl, rfl⟩ | ⟨i, input, keys, tx, next, rfl, hcall, rfl⟩ | ⟨i, rfl, rfl⟩ |
    ⟨event, _⟩ := Pool.step_cases h
  · refine ⟨fun k hk => ?_, fun k hk hmem => ?_⟩
    · exact le_of_le_of_eq (hP.recorded k hk) (congrArg _ (holders_start g k).symm)
    · rcases List.mem_append.mp hmem with hmem | hmem
      · exact hP.answered k hk hmem
      · have hserve := List.mem_singleton.mp hmem
        change _ = serve W sent g at hserve
        rw [serve_eq] at hserve
        cases hsig : W.verifyGithubSig (sent g) with
        | error status =>
            rw [hsig] at hserve
            cases hserve
            rw [hk.1] at hsig
            cases hsig
        | ok _ =>
            rw [hsig] at hserve
            cases hserve
  · simp only [orderly, hcall, Bool.and_eq_true] at he
    obtain ⟨hrecovers, hfresh⟩ := he
    obtain ⟨g, hstage⟩ := honce.stages _ (List.mem_of_getElem? hcall)
    have hturn := hstage.turn (s := P.state) input
    refine ⟨fun k hk => ?_, fun k hk hmem => ?_⟩
    · obtain ⟨others, hbefore, hafter⟩ := holders_set (exec input tx P.state).1
        (next (exec input tx P.state).2) hcall k
      have hrecorded := hP.recorded k hk
      rw [hbefore] at hrecorded
      exact le_of_le_of_eq (hturn.settled hrecovers hk hrecorded) (congrArg _ hafter.symm)
    · rcases List.mem_or_eq_of_mem_set hmem with hmem | hlast
      · exact lt_of_lt_of_le (hP.answered k hk hmem) (hturn.count_le k)
      · change _ = next (exec input tx P.state).2 at hlast
        change 0 < (exec input tx P.state).1.count k
        rw [← hlast] at hturn
        cases hturn.stage
        obtain hmade | ⟨hsame, htx, hseen⟩ := hturn.succeeds hk
        · exact hmade
        · have hnone : holders P g = 0 := by
            rw [htx] at hfresh
            exact beq_iff_eq.mp hfresh
          have hrecorded := hP.recorded g hk
          rw [hseen, hnone] at hrecorded
          rw [hsame]
          exact hrecorded
  · refine ⟨fun k hk => ?_, fun k hk hmem => hP.answered k hk (List.mem_of_mem_eraseIdx hmem)⟩
    exact le_of_le_of_eq (hP.recorded k hk) (congrArg _ (holders_abandon he k).symm)
  · exact event.elim

theorem Once.run {es : List HookEvent} (hP : Once W sent P)
    (h : Runs (Pool.Steps (rules W sent)) P es P') : Once W sent P' :=
  h.invariant (Once W sent) (fun hP hstep => hP.step hstep) hP

theorem Settled.run {es : List HookEvent} (hP : Settled W sent P) (honce : Once W sent P)
    (h : Runs (During (Pool.Steps (rules W sent)) fun P e => orderly sent P e = true) P es P') :
    Settled W sent P' := by
  have hboth : Once W sent P' ∧ Settled W sent P' :=
    h.invariant (fun P => Once W sent P ∧ Settled W sent P)
      (fun hP hstep => ⟨hP.1.step hstep.1, hP.2.step hP.1 hstep.1 hstep.2⟩) ⟨honce, hP⟩
  exact hboth.2

theorem once_empty : Once W sent ⟨{}, []⟩ :=
  ⟨fun _ hp => absurd hp List.not_mem_nil, fun _ hm => absurd hm List.not_mem_nil,
    fun _ => Nat.zero_le _⟩

theorem settled_empty : Settled W sent ⟨{}, []⟩ :=
  ⟨fun _ _ => Nat.zero_le _, fun _ _ hmem => absurd hmem List.not_mem_nil⟩

theorem tasksFor_length_le (s : HookDb) (g : String) : (s.tasksFor g).length ≤ s.count g := by
  rw [HookDb.count, List.countP_eq_length_filter]
  exact List.length_filterMap_le _ _

theorem tasksFor_ne_nil {s : HookDb} {g : String}
    (hs : ∀ m ∈ s.made, (s.db.task m.2).isSome = true) (h : 0 < s.count g) :
    s.tasksFor g ≠ [] := by
  obtain ⟨m, hm, hg⟩ := List.countP_pos_iff.mp h
  obtain ⟨task, htask⟩ := Option.isSome_iff_exists.mp (hs m hm)
  refine List.ne_nil_of_mem (a := task) (List.mem_filterMap.mpr ⟨m, ?_, htask⟩)
  exact List.mem_filter.mpr ⟨hm, hg⟩

/-- A retry that nothing disturbs and whose writes succeed. -/
theorem Settled.retry (hP : Settled W sent P) (honce : Once W sent P) {g : String}
    (hg : Triggers W (sent g)) (halone : holders P g = 0) {id now : String}
    (hid : P.state.db.task id = none) :
    ((serve W sent g).eval (exec (.done id now)) P.state).2 = (g, .ok) ∧
      ((serve W sent g).eval (exec (.done id now)) P.state).1.tasksFor g ≠ [] := by
  rw [serve_eq, hg.1]
  simp only [Prog.eval, exec]
  split
  · rename_i hseen
    refine ⟨rfl, tasksFor_ne_nil honce.tasks ?_⟩
    have hrecorded := hP.recorded g hg
    rw [halone, HookDb.seen, if_pos hseen] at hrecorded
    exact hrecorded
  · rename_i hnew
    obtain ⟨req, hreq⟩ := hg.2
    simp only [afterDedup, afterFresh, hreq, creating, Prog.eval, exec]
    obtain ⟨htaken, -⟩ | ⟨db, hdb, h⟩ :=
      createTask_cases { P.state with deliveries := g :: P.state.deliveries } req g id now
    · change (P.state.db.task id).isSome = true at htaken
      rw [hid] at htaken
      cases htaken
    · rw [h]
      refine ⟨rfl, ?_⟩
      refine tasksFor_ne_nil ?_ ?_
      · have hturn : Turn W sent g { P.state with deliveries := g :: P.state.deliveries } [g]
            (.createTask req (some g)) (.done id now) _ _ := .made hdb rfl
        exact hturn.tasks honce.tasks
      · exact lt_of_lt_of_eq (Nat.succ_pos _) (count_made db id).symm

/-- In every run a delivery makes at most one task.  When the run is orderly, an
answer of success says that the task of a delivery exists, and a retry whose
writes succeed makes it. -/
theorem webhook_exactly_once (W : Setup) (sent : String → Delivery) {es : List HookEvent}
    {P : HookPool} (h : Runs (Pool.Steps (rules W sent)) ⟨{}, []⟩ es P) (g : String) :
    (P.state.tasksFor g).length ≤ 1 ∧
    (Runs (During (Pool.Steps (rules W sent)) fun P e => orderly sent P e = true) ⟨{}, []⟩ es P →
      Triggers W (sent g) →
      ((g, .ok) ∈ P.threads.filterMap Prog.result → P.state.tasksFor g ≠ []) ∧
      ∀ id now, holders P g = 0 → P.state.db.task id = none →
        ((serve W sent g).eval (exec (.done id now)) P.state).2 = (g, .ok) ∧
        ((serve W sent g).eval (exec (.done id now)) P.state).1.tasksFor g ≠ []) := by
  have honce : Once W sent P := once_empty.run h
  refine ⟨?_, fun horderly hg => ⟨fun hanswer => ?_, fun id now halone hid => ?_⟩⟩
  · have hbound := honce.once g
    have hseen : P.state.seen g ≤ 1 := by
      unfold HookDb.seen
      split <;> omega
    have hlength := tasksFor_length_le P.state g
    omega
  · obtain ⟨p, hp, hresult⟩ := List.mem_filterMap.mp hanswer
    cases p with
    | call keys tx next => cases hresult
    | ret answer =>
        cases hresult
        have hcount := (settled_empty.run once_empty horderly).answered g hg hp
        exact tasksFor_ne_nil honce.tasks hcount
  · exact (settled_empty.run once_empty horderly).retry honce hg halone hid

end Runs

section Dropped

def failedCheck : Json :=
  .object [("action", .string "completed"),
    ("check_run", .object [("conclusion", .string "failure")])]

def failedCheckText : String :=
  "\x7b\"action\":\"completed\",\"check_run\":\x7b\"conclusion\":\"failure\"\x7d\x7d"

def failedCheckBody : List UInt8 := failedCheckText.toList.map fun c => c.toNat.toUInt8

def hexValue (c : Char) : Option Nat :=
  if '0' ≤ c ∧ c ≤ '9' then some (c.toNat - 48)
  else if 'a' ≤ c ∧ c ≤ 'f' then some (c.toNat - 87)
  else if 'A' ≤ c ∧ c ≤ 'F' then some (c.toNat - 55)
  else none

def hexBytes : List Char → Option (List UInt8)
  | [] => some []
  | [_] => none
  | high :: low :: rest => do
      let bytes ← hexBytes rest
      return (16 * (← hexValue high) + (← hexValue low)).toUInt8 :: bytes

/-- The digest of the body under the secret. -/
def failedCheckDigest : String :=
  "b3ac41aa34de48c116ed9d9d9516b527c3b7773eacf4a8f5a32f1918a21235e6"

def github : Setup where
  secret := some "test-secret"
  adapter := none
  newMac := fun secret => some fun body presented =>
    secret == "test-secret" && body == failedCheckBody &&
      some presented == hexBytes failedCheckDigest.toList
  hexDecode := fun text => hexBytes text.toList
  fromSlice := fun body => if body = failedCheckBody then some failedCheck else none

def checkRuns (_ : String) : Delivery :=
  ⟨.checkRun, some ("sha256=" ++ failedCheckDigest), failedCheckBody⟩

theorem hexBytes_digest : (hexBytes failedCheckDigest.toList).isSome = true := by
  rw [show failedCheckDigest.toList = _ from String.toList_ofList]
  decide +kernel

theorem verifyGithubSig_checkRuns (g : String) :
    github.verifyGithubSig (checkRuns g) = .ok () := by
  obtain ⟨digest, hdigest⟩ := Option.isSome_iff_exists.mp hexBytes_digest
  have hsecret : github.configuredSecret = some "test-secret" := by decide +kernel
  have hheader : ("sha256=" ++ failedCheckDigest).toList =
      "sha256=".toList ++ failedCheckDigest.toList := String.toList_append
  have hstart : startsWith ("sha256=" ++ failedCheckDigest) "sha256=" = true := by
    rw [startsWith, hheader, List.isPrefixOf_iff_prefix]
    exact List.prefix_append _ _
  have hshown : hexBytes (String.ofList
      (("sha256=" ++ failedCheckDigest).toList.drop 7)).toList = some digest := by
    rw [hheader, String.toList_ofList, ← hdigest]
    exact congrArg hexBytes (List.drop_left' rfl)
  rw [Setup.verifyGithubSig, hsecret]
  simp only [checkRuns, hstart, github, hshown, hdigest, Bool.true_eq_false, if_false,
    beq_self_eq_true, Bool.and_self, if_true]

theorem checkRunTask_failedCheck :
    ∃ req, github.checkRunTask failedCheckBody = .ok (some req) := by
  have hbody : github.fromSlice failedCheckBody = some failedCheck := by
    simp only [github, if_true]
  unfold Setup.checkRunTask
  rw [hbody]
  exact ⟨_, rfl⟩

theorem checkRuns_trigger (g : String) : Triggers github (checkRuns g) :=
  ⟨verifyGithubSig_checkRuns g, checkRunTask_failedCheck⟩

theorem serve_checkRuns : ∃ req, serve github checkRuns = fun g =>
    .call [] (.deliveryFresh g) fun fresh =>
      if fresh = some true then creating checkRuns g req
      else .ret (g, if fresh = some false then .ok else .internalServerError) := by
  obtain ⟨req, hreq⟩ := checkRunTask_failedCheck
  refine ⟨req, ?_⟩
  funext g
  have hafter : afterFresh github checkRuns g = creating checkRuns g req := by
    unfold afterFresh
    rw [show github.hookTask (checkRuns g) = .ok (some req) from hreq]
  rw [serve_eq, verifyGithubSig_checkRuns]
  refine congrArg (Prog.call [] (HookTx.deliveryFresh g)) (funext fun fresh => ?_)
  rcases fresh with _ | _ | _
  · rfl
  · rfl
  · exact hafter

def stamped (i : Nat) (id : String) : HookEvent := .advance i (.done id "2026-01-01T00:00:00Z")

/-- A delivery whose writes succeed, and a retry of it. -/
def delivered : List HookEvent :=
  [.start "d1", stamped 0 "", stamped 0 "t1", .start "d1", stamped 1 ""]

theorem webhook_exactly_once_replayed :
    ∃ P, Runs (Pool.Steps (rules github checkRuns)) ⟨{}, []⟩ delivered P ∧
      (P.state.tasksFor "d1").length = 1 ∧
      P.threads.filterMap Prog.result = [("d1", .ok), ("d1", .ok)] ∧
      (P.state.tasksFor "d1").length ≤ 1 ∧
      ((("d1", .ok) ∈ P.threads.filterMap Prog.result → P.state.tasksFor "d1" ≠ []) ∧
        ∀ id now, holders P "d1" = 0 → P.state.db.task id = none →
          ((serve github checkRuns "d1").eval (exec (.done id now)) P.state).2 = ("d1", .ok) ∧
          ((serve github checkRuns "d1").eval (exec (.done id now)) P.state).1.tasksFor
            "d1" ≠ []) := by
  obtain ⟨req, hserve⟩ := serve_checkRuns
  have hend : (delivered.foldlM (fun P e =>
      if orderly checkRuns P e then Pool.step (rules github checkRuns) P e else none)
      (⟨{}, []⟩ : HookPool)).any (fun P => (P.state.tasksFor "d1").length == 1 &&
        P.threads.filterMap Prog.result == [("d1", .ok), ("d1", .ok)]) = true := by
    unfold rules
    rw [hserve]
    rfl
  obtain ⟨P, hP, hlast⟩ := (Option.any_eq_true _ _).mp hend
  simp only [Bool.and_eq_true, beq_iff_eq] at hlast
  have horderly := Runs.foldlM hP
  have hrun := horderly.mono fun hstep => hstep.1
  obtain ⟨hmost, hsettled⟩ := webhook_exactly_once github checkRuns hrun "d1"
  exact ⟨P, hrun, hlast.1, hlast.2, hmost, hsettled horderly (checkRuns_trigger "d1")⟩

/-- The insert of a task fails, and the delivery is retried. -/
def retried : List HookEvent :=
  [.start "d1", stamped 0 "", .advance 0 .failed, .start "d1", stamped 1 ""]

theorem check_run_dropped :
    Triggers github (checkRuns "d1") ∧
    ∃ P, Runs (Pool.Steps (rules github checkRuns)) ⟨{}, []⟩ retried P ∧
      P.threads.filterMap Prog.result = [("d1", .internalServerError), ("d1", .ok)] ∧
      P.state.tasksFor "d1" = [] := by
  refine ⟨checkRuns_trigger "d1", ?_⟩
  obtain ⟨req, hserve⟩ := serve_checkRuns
  have hend : (retried.foldlM (Pool.step (rules github checkRuns)) (⟨{}, []⟩ : HookPool)).any
      (fun P => P.threads.filterMap Prog.result ==
        [("d1", .internalServerError), ("d1", .ok)] && (P.state.tasksFor "d1").isEmpty) = true := by
    unfold rules
    rw [hserve]
    rfl
  obtain ⟨P, hP, hlast⟩ := (Option.any_eq_true _ _).mp hend
  simp only [Bool.and_eq_true, beq_iff_eq, List.isEmpty_iff] at hlast
  exact ⟨P, Runs.of_foldlM hP, hlast.1, hlast.2⟩

end Dropped

end AgentGrid.Store.Webhooks
