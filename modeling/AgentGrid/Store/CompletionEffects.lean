import AgentGrid.Foundation.Transition
import AgentGrid.Node.PayloadText
import AgentGrid.Store.EventLog
import AgentGrid.Store.ScopeScan
import Mathlib.Logic.Function.Basic

/-!
# The side effects of a completion

`complete_attempt` of the service completes the attempt in the store and then scans
its patch and its events and tells the operator, each step on its own.  A delivery is
one call of the handler; every step of one may fall between steps of others.
-/

namespace AgentGrid.Store.Completion

open AgentGrid.Foundation AgentGrid.Node

def FindingRule.id : FindingRule → String
  | .anthropicStyleKey => "anthropic_style_key"
  | .openaiStyleKey => "openai_style_key"
  | .githubFineGrained => "github_fine_grained"
  | .githubPat => "github_pat"
  | .awsAccessKey => "aws_access_key"
  | .gcpServiceAccount => "gcp_service_account"
  | .slackToken => "slack_token"
  | .binaryBlob => "binary_blob"
  | .privateKey => "private_key"
  | .oversizedAdditions => "oversized_additions"

def diffText (f : DiffFinding) : String :=
  "[" ++ FindingRule.id f.rule ++ "] " ++ String.ofList f.file ++ ": " ++ String.ofList f.detail

def scopeText (f : ScopeFinding) : String := "[" ++ f.kind ++ "] " ++ String.ofList f.detail

/-- The payload of an event that `append_audit_event` stores. -/
def auditPayload (kind text : String) : Json :=
  .object [("kind", .string kind), ("text", .string text)]

def appendFinding (db : Database) (attemptId kind text now : String) :
    Database × Except StoreError Unit :=
  appendAuditEvent db attemptId (String.ofList (auditPayload kind text).text) now

/-- The kinds the guard asks for, as `json_extract` finds them in a payload. -/
def findingKinds : List (List Char) := ["diff_finding", "scope_creep"].map fun k => quoted k.toList

def isFinding (attemptId : String) (e : TaskEvent) : Bool :=
  e.attemptId == attemptId && e.type == .stdout &&
    (jsonExtract e.payload.toList "kind").any fun kind => findingKinds.contains kind

def completionSideEffectsDone (db : Database) (attemptId : String) : Bool :=
  db.taskEvents.any (isFinding attemptId)

def attemptTaskId (db : Database) (attemptId : String) : Option String :=
  (db.attempt attemptId).map (·.taskId)

/-- The prompt and the events that may hold commands, in sequence order. -/
def scopeInput (db : Database) (attemptId taskId : String) :
    Option (String × List (EventType × String)) :=
  (db.task taskId).map fun task =>
    (task.prompt, ((db.taskEvents.filter fun e =>
      e.attemptId == attemptId && decide (e.type ∈ scopeTypes)).insertionSort
        fun e e' => e.sequence ≤ e'.sequence).map fun e => (e.type, e.payload))

def pendingPatchReview (db : Database) (taskId : String) : Bool :=
  db.approvals.any fun a =>
    a.taskId == taskId && a.scope == "task_patch_review" && a.status == "pending"

def statusStr (awaiting : Bool) : TaskStatus → Option String
  | .succeeded => some (if awaiting then "awaiting_review" else "completed")
  | .failed => some "failed"
  | _ => none

structure TaskNotification where
  taskId : String
  attemptId : String
  status : String
  url : String
deriving DecidableEq

inductive Kind
  | notification | diffFinding | scopeFinding
deriving DecidableEq

inductive Effect
  | notification (note : TaskNotification)
  | diffFinding (text : String)
  | scopeFinding (text : String)
deriving DecidableEq

def Effect.kind : Effect → Kind
  | .notification _ => .notification
  | .diffFinding _ => .diffFinding
  | .scopeFinding _ => .scopeFinding

/-- An effect of a delivery, with its place among those of its kind. -/
structure Emission where
  attemptId : String
  delivery : Nat
  place : Nat
  effect : Effect
deriving DecidableEq

/-- How far a delivery has come. -/
inductive Phase
  | received
  | completed
  | located (taskId : String)
  | guarded (taskId : String)
  | diffing (taskId : String) (place : Nat) (findings : List DiffFinding)
  | scoping (taskId : String) (place : Nat) (findings : List ScopeFinding)
  | shown (task : Task)
  | advancing
deriving DecidableEq

structure Delivery where
  attemptId : String
  req : CompleteAttemptRequest
  phase : Phase := .received

structure World where
  db : Database
  webhook : Option String
  deliveries : Nat → Option Delivery := fun _ => none
  next : Nat := 0
  emitted : List Emission := []

/-- The await points of a delivery, and what may happen between them.  A read that
fails is told by its argument. -/
inductive Event
  | write (op : FeedOp)
  | deliver (attemptId : String) (req : CompleteAttemptRequest)
  | complete (n : Nat) (approvalId now expires : String)
  | locate (n : Nat)
  | guard (n : Nat) (readable : Bool)
  | readPatch (n : Nat) (patch : Option (List Char))
  | appendDiff (n : Nat) (now : String) (granted : Bool)
  | readScope (n : Nat) (readable : Bool)
  | appendScope (n : Nat) (now : String) (granted : Bool)
  | showTask (n : Nat) (readable : Bool)
  | push (n : Nat) (readable : Bool)
  | drop (n : Nat)
  | crash (webhook : Option String)

namespace World

def set (w : World) (n : Nat) (d : Delivery) : World :=
  { w with deliveries := Function.update w.deliveries n (some d) }

def move (w : World) (n : Nat) (d : Delivery) (phase : Phase) : World :=
  w.set n { d with phase := phase }

def dropped (w : World) (n : Nat) : World :=
  { w with deliveries := Function.update w.deliveries n none }

def emit (w : World) (n : Nat) (d : Delivery) (place : Nat) (effect : Effect) : World :=
  { w with emitted := w.emitted ++ [⟨d.attemptId, n, place, effect⟩] }

/-- A finding is emitted when the store took it. -/
def append (w : World) (n : Nat) (d : Delivery) (place : Nat) (effect : Effect)
    (kind text now : String) (granted : Bool) : World :=
  if granted then
    match appendFinding w.db d.attemptId kind text now with
    | (db, .ok _) => { w.emit n d place effect with db := db }
    | (_, .error _) => w
  else w

end World

section Step

variable (T : ScopeText)

/-- What the delivery `n`, which is at `d`, does at an event of its own. -/
def deliveryStep (w : World) (n : Nat) (d : Delivery) : Event → World
  | .complete _ approvalId now expires =>
      if d.phase = .received then
        match completeAttempt w.db d.attemptId d.req approvalId now expires with
        | (db, .ok true) => { w.move n d .completed with db := db }
        | (db, _) => { w.dropped n with db := db }
      else w
  | .locate _ =>
      if d.phase = .completed then
        match attemptTaskId w.db d.attemptId with
        | some taskId => w.move n d (.located taskId)
        | none => w.dropped n
      else w
  | .guard _ readable =>
      match d.phase with
      | .located taskId =>
          if readable && completionSideEffectsDone w.db d.attemptId then w.move n d .advancing
          else w.move n d (.guarded taskId)
      | _ => w
  | .readPatch _ patch =>
      match d.phase with
      | .guarded taskId =>
          if d.req.success then
            w.move n d (.diffing taskId 0 ((patch.map scanPatch).getD []))
          else w.move n d (.diffing taskId 0 [])
      | _ => w
  | .appendDiff _ now granted =>
      match d.phase with
      | .diffing taskId place (f :: findings) =>
          (w.append n d place (.diffFinding (diffText f)) "diff_finding" (diffText f) now
            granted).move n d (.diffing taskId (place + 1) findings)
      | _ => w
  | .readScope _ readable =>
      match d.phase with
      | .diffing taskId _ [] =>
          if d.req.success && readable then
            w.move n d (.scoping taskId 0 (((scopeInput w.db d.attemptId taskId).map fun input =>
              scanEvents T input.1 input.2).getD []))
          else w.move n d (.scoping taskId 0 [])
      | _ => w
  | .appendScope _ now granted =>
      match d.phase with
      | .scoping taskId place (f :: findings) =>
          (w.append n d place (.scopeFinding (scopeText f)) "scope_creep" (scopeText f) now
            granted).move n d (.scoping taskId (place + 1) findings)
      | _ => w
  | .showTask _ readable =>
      match d.phase with
      | .scoping taskId _ [] =>
          match w.webhook, readable, w.db.task taskId with
          | some _, true, some task => w.move n d (.shown task)
          | _, _, _ => w.move n d .advancing
      | _ => w
  | .push _ readable =>
      match d.phase with
      | .shown task =>
          match statusStr (readable && pendingPatchReview w.db task.id) task.status with
          | some status =>
              (w.emit n d 0 (.notification
                ⟨task.id, d.attemptId, status, "/tasks/" ++ task.id⟩)).move n d .advancing
          | none => w.move n d .advancing
      | _ => w
  | _ => w

def Event.delivery : Event → Option Nat
  | .complete n _ _ _ | .locate n | .guard n _ | .readPatch n _ | .appendDiff n _ _
  | .readScope n _ | .appendScope n _ _ | .showTask n _ | .push n _ => some n
  | _ => none

def step (w : World) : Event → World
  | .write op => { w with db := op.write w.db }
  | .deliver attemptId req =>
      { w.set w.next ⟨attemptId, req, .received⟩ with next := w.next + 1 }
  | .drop n => w.dropped n
  | .crash webhook => { w with webhook := webhook, deliveries := fun _ => none }
  | e =>
      match e.delivery with
      | none => w
      | some n =>
          match w.deliveries n with
          | none => w
          | some d => deliveryStep T w n d e

def Step (w : World) (e : Event) (w' : World) : Prop := w' = step T w e

/-- The other deliveries stay where they are. -/
theorem deliveryStep_frame {w : World} {n m : Nat} (hm : m ≠ n) (d : Delivery) (e : Event) :
    (deliveryStep T w n d e).deliveries m = w.deliveries m := by
  have hset : ∀ (w' : World) (d' : Delivery), (w'.set n d').deliveries m = w'.deliveries m :=
    fun _ _ => Function.update_of_ne hm _ _
  have happend : ∀ place effect kind text now granted,
      (w.append n d place effect kind text now granted).deliveries m = w.deliveries m := by
    intro place effect kind text now granted
    unfold World.append
    split
    · split <;> rfl
    · rfl
  cases e <;> simp only [deliveryStep]
  all_goals repeat' split
  all_goals
    first
      | rfl
      | exact hset _ _
      | exact Function.update_of_ne hm _ _
      | exact (hset _ _).trans (happend _ _ _ _ _ _)

theorem step_frame {w : World} {n m : Nat} {e : Event} (he : e.delivery = some n)
    (hm : m ≠ n) : (step T w e).deliveries m = w.deliveries m := by
  have hown : (match w.deliveries n with
      | none => w
      | some d => deliveryStep T w n d e).deliveries m = w.deliveries m := by
    split
    · rfl
    · exact deliveryStep_frame T hm _ e
  cases e <;> cases he <;> exact hown

end Step

/-- A finding that was stored closes the guard for every later reader. -/
theorem done_of_appended {db db' : Database} {attemptId text now : String} {kind : String}
    (hkind : quoted kind.toList ∈ findingKinds)
    (h : appendFinding db attemptId kind text now = (db', .ok ())) :
    completionSideEffectsDone db' attemptId = true := by
  have hkey : PlainLabel "kind".toList := by
    simp [PlainLabel, escapeChar]
  have hread : jsonExtract (auditPayload kind text).text "kind" = some (quoted kind.toList) := by
    rw [jsonExtract_text rfl hkey]
    rfl
  unfold appendFinding appendAuditEvent at h
  split at h
  · cases h
  · cases h
    have hlog := (Prod.mk.inj (insertAuditEvent_log db attemptId
      (String.ofList (auditPayload kind text).text) now)).1
    unfold completionSideEffectsDone
    rw [hlog, List.any_append, List.any_cons, isFinding]
    simp [hread, hkind]

/-! ## At most once -/

/-- The effects of one kind for one attempt come from one delivery, each from a place of
its own, and there is one notification. -/
def AtMostOnce (emitted : List Emission) : Prop :=
  emitted.Pairwise fun e e' =>
    e.attemptId = e'.attemptId → e.effect.kind = e'.effect.kind →
      e.delivery = e'.delivery ∧ e.place < e'.place ∧ e.effect.kind ≠ .notification

/-- The guard let the delivery through and it may still emit. -/
def Phase.working : Phase → Bool
  | .guarded _ | .diffing _ _ _ | .scoping _ _ _ | .shown _ => true
  | _ => false

/-- What the delivery emits next, if it gets that far. -/
def Phase.pending : Phase → Bool
  | .diffing _ _ findings => !findings.isEmpty
  | .scoping _ _ findings => !findings.isEmpty
  | .shown _ => true
  | _ => false

/-- The place of the next effect of a kind, as long as one can still come. -/
def Phase.awaits : Phase → Kind → Option Nat
  | .diffing _ place _, .diffFinding => some place
  | .scoping _ _ _, .diffFinding => none
  | .scoping _ place _, .scopeFinding => some place
  | .shown _, .diffFinding => none
  | .shown _, .scopeFinding => none
  | .advancing, _ => none
  | _, _ => some 0

namespace World

/-- Whether the delivery has anything to emit at all. -/
def effective (w : World) (d : Delivery) : Bool := w.webhook.isSome || d.req.success

/-- The delivery `n` has emitted effects of the attempt, or may still do so. -/
def Holds (w : World) (attemptId : String) (n : Nat) : Prop :=
  (∃ d, w.deliveries n = some d ∧ d.attemptId = attemptId ∧ d.phase.working = true ∧
    w.effective d = true) ∨
  ∃ e ∈ w.emitted, e.attemptId = attemptId ∧ e.delivery = n

end World

/-- A delivery that asks the guard about an attempt that some delivery holds finds a
finding stored. -/
def Orderly (w : World) : Event → Prop
  | .guard n readable => ∀ d taskId m, w.deliveries n = some d → d.phase = .located taskId →
      w.effective d = true → w.Holds d.attemptId m →
        readable = true ∧ completionSideEffectsDone w.db d.attemptId = true
  | _ => True

/-- What holds at every moment of an orderly run. -/
structure Single (w : World) : Prop where
  one : ∀ attemptId n m, w.Holds attemptId n → w.Holds attemptId m → n = m
  numbered : ∀ n d, w.deliveries n = some d → n < w.next
  emitters : ∀ e ∈ w.emitted, e.delivery < w.next
  behind : ∀ n d, w.deliveries n = some d → ∀ e ∈ w.emitted, e.delivery = n →
    ∀ place, d.phase.awaits e.effect.kind = some place → e.place < place
  able : ∀ n d, w.deliveries n = some d → d.phase.pending = true → w.effective d = true
  once : AtMostOnce w.emitted

/-- What may follow a phase: no kind comes back and no place is used again. -/
def Phase.Follows (p p' : Phase) : Prop :=
  ∀ kind place, p'.awaits kind = some place → ∃ earlier, p.awaits kind = some earlier ∧
    earlier ≤ place

section Moves

variable {w : World} {n : Nat} {d : Delivery} {p : Phase}

theorem Single.withDb (h : Single w) (db : Database) : Single { w with db := db } :=
  ⟨h.one, h.numbered, h.emitters, h.behind, h.able, h.once⟩

theorem deliveries_set {m : Nat} {d' : Delivery} (h : (w.set n d).deliveries m = some d') :
    m = n ∧ d' = d ∨ m ≠ n ∧ w.deliveries m = some d' := by
  by_cases hm : m = n
  · subst hm
    exact .inl ⟨rfl, by simpa [World.set] using h.symm⟩
  · exact .inr ⟨hm, by simpa [World.set, Function.update_of_ne hm] using h⟩

/-- The bookkeeping of a delivery that goes on to `p`; who holds what is left open. -/
theorem Single.move (h : Single w) (hd : w.deliveries n = some d)
    (hone : ∀ attemptId n' m', (w.move n d p).Holds attemptId n' →
      (w.move n d p).Holds attemptId m' → n' = m')
    (hfollows : d.phase.Follows p) (hable : p.pending = true → w.effective d = true) :
    Single (w.move n d p) where
  one := hone
  numbered := by
    intro m d' hd'
    rcases deliveries_set hd' with ⟨rfl, _⟩ | ⟨_, hd'⟩
    · exact h.numbered m d hd
    · exact h.numbered m d' hd'
  emitters := h.emitters
  behind := by
    intro m d' hd' e he hdelivery place hplace
    rcases deliveries_set hd' with ⟨rfl, rfl⟩ | ⟨_, hd'⟩
    · obtain ⟨earlier, hearlier, hle⟩ := hfollows _ _ hplace
      exact lt_of_lt_of_le (h.behind m d hd e he hdelivery earlier hearlier) hle
    · exact h.behind m d' hd' e he hdelivery place hplace
  able := by
    intro m d' hd' hpending
    rcases deliveries_set hd' with ⟨rfl, rfl⟩ | ⟨_, hd'⟩
    · exact hable hpending
    · exact h.able m d' hd' hpending
  once := h.once

/-- After a move a delivery holds what it held before, or it is the one that moved. -/
theorem holds_move {attemptId : String} {m : Nat} (h : (w.move n d p).Holds attemptId m) :
    w.Holds attemptId m ∨
      m = n ∧ attemptId = d.attemptId ∧ p.working = true ∧ w.effective d = true := by
  rcases h with ⟨d', hd', hattempt, hworking, heff⟩ | hemitted
  · rcases deliveries_set hd' with ⟨rfl, rfl⟩ | ⟨_, hd'⟩
    · exact .inr ⟨rfl, hattempt.symm, hworking, heff⟩
    · exact .inl (.inl ⟨d', hd', hattempt, hworking, heff⟩)
  · exact .inl (.inr hemitted)

/-- A step of a delivery that does not get past the guard with it. -/
theorem Single.moved (h : Single w) (hd : w.deliveries n = some d)
    (hworking : p.working = true → d.phase.working = true) (hfollows : d.phase.Follows p)
    (hable : p.pending = true → w.effective d = true) : Single (w.move n d p) := by
  have hheld : ∀ attemptId m, (w.move n d p).Holds attemptId m → w.Holds attemptId m := by
    intro attemptId m hm
    rcases holds_move hm with hm | ⟨rfl, rfl, hp, heff⟩
    · exact hm
    · exact .inl ⟨d, hd, rfl, hworking hp, heff⟩
  exact h.move hd (fun attemptId n' m' hn' hm' =>
    h.one attemptId n' m' (hheld _ _ hn') (hheld _ _ hm')) hfollows hable

/-- A step of a delivery that takes an attempt nobody holds. -/
theorem Single.taken (h : Single w) (hd : w.deliveries n = some d)
    (hfree : w.effective d = true → ∀ m, ¬w.Holds d.attemptId m)
    (hfollows : d.phase.Follows p) (hable : p.pending = true → w.effective d = true) :
    Single (w.move n d p) := by
  refine h.move hd ?_ hfollows hable
  intro attemptId n' m' hn' hm'
  rcases holds_move hn' with hfirst | ⟨rfl, rfl, _, heff⟩
  · rcases holds_move hm' with hsecond | ⟨rfl, rfl, _, heff⟩
    · exact h.one attemptId n' m' hfirst hsecond
    · exact absurd hfirst (hfree heff n')
  · rcases holds_move hm' with hsecond | ⟨rfl, _, _, _⟩
    · exact absurd hsecond (hfree heff m')
    · rfl

theorem awaits_notification {place : Nat} (h : p.awaits .notification = some place) :
    place = 0 := by
  cases p <;> simp_all [Phase.awaits]

/-- An effect at the place its delivery has come to. -/
theorem Single.emit {place : Nat} {effect : Effect} (h : Single w)
    (hd : w.deliveries n = some d) (hworking : d.phase.working = true)
    (heff : w.effective d = true) (hplace : d.phase.awaits effect.kind = some place)
    (hp : p.working = true → d.phase.working = true) (hfollows : d.phase.Follows p)
    (hnext : ∀ later, p.awaits effect.kind = some later → place < later)
    (hable : p.pending = true → w.effective d = true) :
    Single ((w.emit n d place effect).move n d p) := by
  have hmoved := h.moved (p := p) hd hp hfollows hable
  have hmine : w.Holds d.attemptId n := .inl ⟨d, hd, rfl, hworking, heff⟩
  have hheld : ∀ attemptId m, ((w.emit n d place effect).move n d p).Holds attemptId m →
      w.Holds attemptId m := by
    rintro attemptId m (hlive | ⟨e, he, hattempt, hdelivery⟩)
    · rcases holds_move (w := w) (p := p) (.inl hlive) with hm | ⟨rfl, rfl, _, _⟩
      · exact hm
      · exact hmine
    · rcases List.mem_append.mp he with he | he
      · exact .inr ⟨e, he, hattempt, hdelivery⟩
      · rw [List.mem_singleton] at he
        subst he
        cases hattempt
        cases hdelivery
        exact hmine
  refine ⟨?_, hmoved.numbered, ?_, ?_, hmoved.able, ?_⟩
  · intro attemptId n' m' hn' hm'
    exact h.one attemptId n' m' (hheld _ _ hn') (hheld _ _ hm')
  · intro e he
    rcases List.mem_append.mp he with he | he
    · exact h.emitters e he
    · rw [List.mem_singleton] at he
      subst he
      exact h.numbered n d hd
  · intro m d' hd' e he hdelivery later hlater
    rcases List.mem_append.mp he with he | he
    · exact hmoved.behind m d' hd' e he hdelivery later hlater
    · rw [List.mem_singleton] at he
      subst he
      cases hdelivery
      rcases deliveries_set hd' with ⟨_, rfl⟩ | ⟨hne, _⟩
      · exact hnext later hlater
      · exact absurd rfl hne
  · refine List.pairwise_append.mpr ⟨h.once, List.pairwise_singleton _ _, ?_⟩
    intro e he e' he' hattempt hkind
    rw [List.mem_singleton] at he'
    subst he'
    have hdelivery : e.delivery = n :=
      h.one d.attemptId _ _ (.inr ⟨e, he, hattempt, rfl⟩) hmine
    have hlt : e.place < place := h.behind n d hd e he hdelivery place (by rw [hkind, hplace])
    refine ⟨hdelivery, hlt, ?_⟩
    intro hnote
    rw [← hkind, hnote] at hplace
    rw [awaits_notification hplace] at hlt
    exact absurd hlt (Nat.not_lt_zero _)

end Moves

section Steps

variable {T : ScopeText} {w : World}

theorem Single.dropped (h : Single w) (n : Nat) : Single (w.dropped n) := by
  have hkept : ∀ m d, (w.dropped n).deliveries m = some d → w.deliveries m = some d := by
    intro m d hd
    by_cases hm : m = n
    · subst hm
      simp [World.dropped] at hd
    · simpa [World.dropped, Function.update_of_ne hm] using hd
  have hheld : ∀ attemptId m, (w.dropped n).Holds attemptId m → w.Holds attemptId m := by
    rintro attemptId m (⟨d, hd, hrest⟩ | hemitted)
    · exact .inl ⟨d, hkept m d hd, hrest⟩
    · exact .inr hemitted
  exact ⟨fun attemptId n' m' hn' hm' => h.one attemptId n' m' (hheld _ _ hn') (hheld _ _ hm'),
    fun m d hd => h.numbered m d (hkept m d hd), h.emitters,
    fun m d hd => h.behind m d (hkept m d hd), fun m d hd => h.able m d (hkept m d hd), h.once⟩

theorem Single.delivered (h : Single w) (attemptId : String) (req : CompleteAttemptRequest) :
    Single { w.set w.next ⟨attemptId, req, .received⟩ with next := w.next + 1 } where
  one := by
    have hheld : ∀ a m, ({ w.set w.next ⟨attemptId, req, .received⟩ with
        next := w.next + 1 } : World).Holds a m → w.Holds a m := by
      rintro a m (⟨d, hd, hattempt, hworking, heff⟩ | hemitted)
      · rcases deliveries_set hd with ⟨_, rfl⟩ | ⟨_, hd⟩
        · simp [Phase.working] at hworking
        · exact .inl ⟨d, hd, hattempt, hworking, heff⟩
      · exact .inr hemitted
    exact fun a n' m' hn' hm' => h.one a n' m' (hheld _ _ hn') (hheld _ _ hm')
  numbered := by
    intro m d hd
    rcases deliveries_set hd with ⟨rfl, _⟩ | ⟨_, hd⟩
    · exact Nat.lt_succ_self _
    · exact Nat.lt_succ_of_lt (h.numbered m d hd)
  emitters := fun e he => Nat.lt_succ_of_lt (h.emitters e he)
  behind := by
    intro m d hd e he hdelivery place hplace
    rcases deliveries_set hd with ⟨rfl, _⟩ | ⟨_, hd⟩
    · exact absurd (h.emitters e he) (by omega)
    · exact h.behind m d hd e he hdelivery place hplace
  able := by
    intro m d hd hpending
    rcases deliveries_set hd with ⟨_, rfl⟩ | ⟨_, hd⟩
    · simp [Phase.pending] at hpending
    · exact h.able m d hd hpending
  once := h.once

/-- A restart leaves no delivery at work. -/
theorem Single.crashed (h : Single w) (webhook : Option String) :
    Single { w with webhook := webhook, deliveries := fun _ => none } where
  one := by
    have hheld : ∀ a m, ({ w with webhook := webhook, deliveries := fun _ => none } :
        World).Holds a m → w.Holds a m := by
      rintro a m (⟨d, hd, _⟩ | hemitted)
      · cases hd
      · exact .inr hemitted
    exact fun a n' m' hn' hm' => h.one a n' m' (hheld _ _ hn') (hheld _ _ hm')
  numbered := fun _ _ hd => nomatch hd
  emitters := h.emitters
  behind := fun _ _ hd => nomatch hd
  able := fun _ _ hd => nomatch hd
  once := h.once

/-- A finding of the delivery is written, or it is passed over. -/
theorem Single.append {n place : Nat} {d : Delivery} {p : Phase} {effect : Effect}
    (h : Single w) (hd : w.deliveries n = some d) (hworking : d.phase.working = true)
    (hpending : d.phase.pending = true) (hplace : d.phase.awaits effect.kind = some place)
    (hfollows : d.phase.Follows p)
    (hnext : ∀ later, p.awaits effect.kind = some later → place < later)
    (kind text now : String) (granted : Bool) :
    Single ((w.append n d place effect kind text now granted).move n d p) := by
  have heff := h.able n d hd hpending
  unfold World.append
  split
  · split
    · exact (h.emit hd hworking heff hplace (fun _ => hworking) hfollows hnext
        (fun _ => heff)).withDb _
    · exact h.moved hd (fun _ => hworking) hfollows (fun _ => heff)
  · exact h.moved hd (fun _ => hworking) hfollows (fun _ => heff)

/-- The states in which the guard is asked in order. -/
def Free (w : World) (d : Delivery) (readable : Bool) : Prop :=
  ∀ m, w.effective d = true → w.Holds d.attemptId m →
    readable = true ∧ completionSideEffectsDone w.db d.attemptId = true

theorem Single.guarded {n : Nat} {d : Delivery} {taskId : String} {readable : Bool}
    (h : Single w) (hd : w.deliveries n = some d) (hphase : d.phase = .located taskId)
    (hfree : Free w d readable) : Single (deliveryStep T w n d (.guard n readable)) := by
  simp only [deliveryStep, hphase]
  split
  · exact h.moved hd (by simp [Phase.working]) (by simp [Phase.Follows, Phase.awaits])
      (by simp [Phase.pending])
  · rename_i hopen
    refine h.taken hd ?_ (by simp [Phase.Follows, hphase, Phase.awaits]) (by simp [Phase.pending])
    intro heff m hm
    obtain ⟨hreadable, hdone⟩ := hfree m heff hm
    exact hopen (by rw [hreadable, hdone]; rfl)

/-- What a delivery does at an event of its own keeps the books. -/
theorem Single.deliveryStep {n : Nat} {d : Delivery} {e : Event} (h : Single w)
    (hd : w.deliveries n = some d) (hevent : e.delivery = some n) (horderly : Orderly w e) :
    Single (deliveryStep T w n d e) := by
  cases e with
  | write op => exact h
  | deliver attemptId req => exact h
  | drop m => exact h
  | crash webhook => exact h
  | complete m approvalId now expires =>
      simp only [Completion.deliveryStep]
      split
      · rename_i hphase
        split
        · exact (h.moved hd (by simp [Phase.working])
            (by simp [Phase.Follows, hphase, Phase.awaits]) (by simp [Phase.pending])).withDb _
        · exact (h.dropped n).withDb _
      · exact h
  | locate m =>
      simp only [Completion.deliveryStep]
      split
      · rename_i hphase
        split
        · exact h.moved hd (by simp [Phase.working])
            (by simp [Phase.Follows, hphase, Phase.awaits]) (by simp [Phase.pending])
        · exact h.dropped n
      · exact h
  | guard m readable =>
      cases hevent
      cases hphase : d.phase with
      | located taskId =>
          exact h.guarded hd hphase fun m heff hm => horderly d taskId m hd hphase heff hm
      | _ =>
          simp only [Completion.deliveryStep, hphase]
          exact h
  | readPatch m patch =>
      simp only [Completion.deliveryStep]
      split
      · rename_i taskId hphase
        split
        · rename_i hsuccess
          exact h.moved hd (by simp [hphase, Phase.working])
            (by intro kind place; cases kind <;> simp [hphase, Phase.awaits])
            (fun _ => by simp [World.effective, hsuccess])
        · exact h.moved hd (by simp [hphase, Phase.working])
            (by intro kind place; cases kind <;> simp [hphase, Phase.awaits])
            (by simp [Phase.pending])
      · exact h
  | appendDiff m now granted =>
      simp only [Completion.deliveryStep]
      split
      · rename_i taskId place f findings hphase
        refine h.append hd (by simp [hphase, Phase.working]) (by simp [hphase, Phase.pending])
          (by simp [hphase, Effect.kind, Phase.awaits]) ?_ ?_ _ _ _ _
        · intro kind place'
          cases kind <;> simp [hphase, Phase.awaits]
          omega
        · intro later hlater
          simp only [Effect.kind, Phase.awaits, Option.some.injEq] at hlater
          omega
      · exact h
  | readScope m readable =>
      simp only [Completion.deliveryStep]
      split
      · rename_i taskId place hphase
        have hfollows : ∀ findings, d.phase.Follows (.scoping taskId 0 findings) := by
          intro findings kind place'
          cases kind <;> simp [hphase, Phase.awaits]
        split
        · rename_i hsuccess
          exact h.moved hd (by simp [hphase, Phase.working]) (hfollows _)
            (fun _ => by simp [World.effective, (Bool.and_eq_true_iff.mp hsuccess).1])
        · exact h.moved hd (by simp [hphase, Phase.working]) (hfollows _)
            (by simp [Phase.pending])
      · exact h
  | appendScope m now granted =>
      simp only [Completion.deliveryStep]
      split
      · rename_i taskId place f findings hphase
        refine h.append hd (by simp [hphase, Phase.working]) (by simp [hphase, Phase.pending])
          (by simp [hphase, Effect.kind, Phase.awaits]) ?_ ?_ _ _ _ _
        · intro kind place'
          cases kind <;> simp [hphase, Phase.awaits]
          omega
        · intro later hlater
          simp only [Effect.kind, Phase.awaits, Option.some.injEq] at hlater
          omega
      · exact h
  | showTask m readable =>
      simp only [Completion.deliveryStep]
      split
      · rename_i taskId place hphase
        split
        · rename_i hwebhook _
          refine h.moved hd (by simp [hphase, Phase.working]) ?_
            (fun _ => by simp [World.effective, hwebhook])
          intro kind place'
          cases kind <;> simp [hphase, Phase.awaits]
        · exact h.moved hd (by simp [Phase.working]) (by simp [Phase.Follows, Phase.awaits])
            (by simp [Phase.pending])
      · exact h
  | push m readable =>
      simp only [Completion.deliveryStep]
      split
      · rename_i task hphase
        split
        · exact h.emit hd (by simp [hphase, Phase.working])
            (h.able n d hd (by simp [hphase, Phase.pending]))
            (by simp [hphase, Effect.kind, Phase.awaits]) (by simp [Phase.working])
            (by simp [Phase.Follows, Phase.awaits]) (by simp [Phase.awaits])
            (by simp [Phase.pending])
        · exact h.moved hd (by simp [Phase.working]) (by simp [Phase.Follows, Phase.awaits])
            (by simp [Phase.pending])
      · exact h

theorem Single.step {e : Event} {w' : World} (h : Single w)
    (hstep : During (Step T) Orderly w e w') : Single w' := by
  obtain ⟨rfl, horderly⟩ := hstep
  have hown : ∀ n, e.delivery = some n →
      Single (match w.deliveries n with
        | none => w
        | some d => Completion.deliveryStep T w n d e) := by
    intro n hn
    split
    · exact h
    · rename_i d hd
      exact h.deliveryStep hd hn horderly
  cases e with
  | write op => exact h.withDb _
  | deliver attemptId req => exact h.delivered attemptId req
  | drop n => exact h.dropped n
  | crash webhook => exact h.crashed webhook
  | complete n approvalId now expires => exact hown n rfl
  | locate n => exact hown n rfl
  | guard n readable => exact hown n rfl
  | readPatch n patch => exact hown n rfl
  | appendDiff n now granted => exact hown n rfl
  | readScope n readable => exact hown n rfl
  | appendScope n now granted => exact hown n rfl
  | showTask n readable => exact hown n rfl
  | push n readable => exact hown n rfl

/-- A service that has just started. -/
structure Started (w : World) : Prop where
  idle : ∀ n, w.deliveries n = none
  silent : w.emitted = []

theorem Started.single (h : Started w) : Single w where
  one := by
    rintro attemptId n m (⟨d, hd, _⟩ | ⟨e, he, _⟩)
    · rw [h.idle n] at hd
      cases hd
    · rw [h.silent] at he
      cases he
  numbered := by
    intro n d hd
    rw [h.idle n] at hd
    cases hd
  emitters := by simp [h.silent]
  behind := by simp [h.silent]
  able := by
    intro n d hd
    rw [h.idle n] at hd
    cases hd
  once := by
    rw [h.silent]
    exact List.Pairwise.nil

end Steps

/-- As long as no delivery passes the guard while another holds its attempt, the effects of
every attempt are emitted at most once. -/
theorem effects_at_most_once {T : ScopeText} {w w' : World} {es : List Event}
    (h : Started w) (hrun : Runs (During (Step T) Orderly) w es w') :
    AtMostOnce w'.emitted :=
  (Runs.invariant Single (fun hs hstep => hs.step hstep) hrun h.single).once

/-! ## An attempt that failed -/

def failedDb : Database :=
  { tasks := [{ id := "t", repository := "r", prompt := "p", adapter := "mock",
                createdAt := "0", timeoutSecs := 1, status := .running }]
    attempts := [{ id := "a", taskId := "t", nodeId := "n", status := .running,
                   number := 1, startedAt := "0" }] }

def failedReq : CompleteAttemptRequest := { exitCode := 1 }

def failedWorld : World := { db := failedDb, webhook := some "https://push" }

/-- One delivery from its arrival to its end. -/
def wholeDelivery (n : Nat) : List Event :=
  [.deliver "a" failedReq, .complete n "p" "1" "2", .locate n, .guard n true, .readPatch n none,
    .readScope n true, .showTask n true, .push n true]

def plainText : ScopeText := ⟨id, fun _ => none⟩

theorem failed_notified_once : AtMostOnce
    ((wholeDelivery 0).foldl (step plainText) failedWorld).emitted := by
  have hstarted : Started failedWorld := ⟨fun _ => rfl, rfl⟩
  refine effects_at_most_once (T := plainText) hstarted (?_ : Runs _ _ (wholeDelivery 0) _)
  refine .next ⟨rfl, trivial⟩ (.next ⟨rfl, trivial⟩ (.next ⟨rfl, trivial⟩ (.next ⟨rfl, ?_⟩
    (.next ⟨rfl, trivial⟩ (.next ⟨rfl, trivial⟩ (.next ⟨rfl, trivial⟩ (.next ⟨rfl, trivial⟩
      (.refl _))))))))
  rintro d taskId m hd hphase heff (⟨d', hd', hattempt, hworking, _⟩ | ⟨e, he, _⟩)
  · by_cases hm : m = 0
    · subst hm
      cases hd'
      cases hworking
    · rw [step_frame plainText rfl hm, step_frame plainText rfl hm] at hd'
      rcases deliveries_set hd' with ⟨h, _⟩ | ⟨_, hnone⟩
      · exact absurd h hm
      · cases hnone
  · cases he

theorem failure_notified_twice : ∃ (T : ScopeText) (w w' : World) (es : List Event),
    Started w ∧ Runs (Step T) w es w' ∧ ¬AtMostOnce w'.emitted := by
  refine ⟨plainText, failedWorld, _, wholeDelivery 0 ++ wholeDelivery 1, ⟨fun _ => rfl, rfl⟩,
    Runs.foldl (step plainText) failedWorld _, ?_⟩
  have hemitted : ((wholeDelivery 0 ++ wholeDelivery 1).foldl (step plainText)
      failedWorld).emitted = [0, 1].map fun n =>
        ⟨"a", n, 0, .notification ⟨"t", "a", "failed", "/tasks/t"⟩⟩ := by decide
  rw [hemitted]
  unfold AtMostOnce
  decide

end AgentGrid.Store.Completion
