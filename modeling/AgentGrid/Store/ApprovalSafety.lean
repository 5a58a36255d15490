import AgentGrid.Store.Approvals

/-!
# Every approval is decided once

The decisions and the rows of `approvals` agree in every interleaving of
permission requests, answers and expiry ticks, and a permission request that is
let through waited for an approval of its own.
-/

namespace AgentGrid.Store.Approvals

open AgentGrid.Foundation

/-! ## The table -/

theorem nextApproval_ok {s next : ApprovalStatus} {e : ApprovalEvent}
    (h : nextApproval s e = .ok next) : s = .pending := by
  cases s <;> cases e <;> simp_all [nextApproval]

theorem nextApproval_pending {next : ApprovalStatus} {e : ApprovalEvent}
    (h : nextApproval .pending e = .ok next) : next ≠ .pending := by
  cases e <;> simp_all [nextApproval] <;> simp [← h]

theorem nextApproval_allowed {e : ApprovalEvent}
    (h : nextApproval .pending e = .ok .allowed) : e = .allow := by
  cases e <;> simp_all [nextApproval]

theorem nextApproval_expired {e : ApprovalEvent}
    (h : nextApproval .pending e = .ok .expired) : e = .expire := by
  cases e <;> simp_all [nextApproval]

/-- The columns of a decided row. -/
structure Shows (a : Approval) (d : Decision) : Prop where
  id : d.id = a.id
  status : a.status = d.next
  decidedAt : a.decidedAt = some d.decidedAt
  reason : a.reason = d.reason
  audit : a.audit = some d.audit

def Overdue (db : ApprovalDb) (a : Approval) : Prop := ∃ now ∈ db.readings, a.expiresAt < now

structure Inv (db : ApprovalDb) : Prop where
  ids : (db.approvals.map Approval.id).Nodup
  rows : ∀ a ∈ db.approvals, (a.status = .pending ∧ ∀ d ∈ db.decisions, d.id ≠ a.id) ∨
    ∃ d ∈ db.decisions, Shows a d
  known : ∀ d ∈ db.decisions, ∃ a ∈ db.approvals, a.id = d.id
  once : (db.decisions.map Decision.id).Nodup
  legal : ∀ d ∈ db.decisions, nextApproval .pending d.audit.event = .ok d.next
  overdue : ∀ a ∈ db.approvals, a.status = .expired → Overdue db a
  blocked : ∀ step ∈ db.blocked,
    ∃ a ∈ db.approvals, a.stepRunId = some step ∧ a.status = .expired

/-- A row keeps what it was filed with, and a decided one all of its columns. -/
structure Later (a a' : Approval) : Prop where
  id : a'.id = a.id
  request : a'.toNewApproval = a.toNewApproval
  expiresAt : a'.expiresAt = a.expiresAt
  decided : a.status ≠ .pending → a' = a

structure Grows (db db' : ApprovalDb) : Prop where
  rows : ∀ a ∈ db.approvals, ∃ a' ∈ db'.approvals, Later a a'
  decisions : ∀ d ∈ db.decisions, d ∈ db'.decisions
  readings : ∀ now ∈ db.readings, now ∈ db'.readings
  pushed : ∀ d ∈ db.pushed, d ∈ db'.pushed

theorem Later.refl (a : Approval) : Later a a := ⟨rfl, rfl, rfl, fun _ => rfl⟩

theorem Later.trans {a b c : Approval} (h : Later a b) (h' : Later b c) : Later a c := by
  refine ⟨h'.id.trans h.id, h'.request.trans h.request, h'.expiresAt.trans h.expiresAt, ?_⟩
  intro hdecided
  obtain rfl := h.decided hdecided
  exact h'.decided hdecided

theorem Grows.refl (db : ApprovalDb) : Grows db db :=
  ⟨fun a ha => ⟨a, ha, .refl a⟩, fun _ h => h, fun _ h => h, fun _ h => h⟩

theorem Grows.trans {db db' db'' : ApprovalDb} (h : Grows db db') (h' : Grows db' db'') :
    Grows db db'' := by
  refine ⟨fun a ha => ?_, fun d hd => h'.decisions d (h.decisions d hd),
    fun now hnow => h'.readings now (h.readings now hnow),
    fun d hd => h'.pushed d (h.pushed d hd)⟩
  obtain ⟨b, hb, hab⟩ := h.rows a ha
  obtain ⟨c, hc, hbc⟩ := h'.rows b hb
  exact ⟨c, hc, hab.trans hbc⟩

section Tables

variable {db : ApprovalDb}

theorem Inv.create (hdb : Inv db) (request : NewApproval) (id now expires : String) :
    Inv (db.createApproval request id now expires).1 ∧
      Grows db (db.createApproval request id now expires).1 := by
  unfold ApprovalDb.createApproval
  cases hfound : db.approval id with
  | some a => exact ⟨hdb, .refl db⟩
  | none =>
      have hfresh : ∀ a ∈ db.approvals, a.id ≠ id := fun a ha => lookup_none hfound a ha
      refine ⟨⟨?_, ?_, ?_, hdb.once, hdb.legal, ?_, ?_⟩, ?_⟩
      · simp only [List.map_append, List.map_cons, List.map_nil]
        refine List.nodup_append.mpr ⟨hdb.ids, List.nodup_singleton _, ?_⟩
        intro k hk k' hk'
        obtain ⟨a, ha, rfl⟩ := List.mem_map.mp hk
        rw [List.mem_singleton.mp hk']
        exact hfresh a ha
      · intro a ha
        rcases List.mem_append.mp ha with ha | ha
        · exact hdb.rows a ha
        · rw [List.mem_singleton.mp ha]
          refine .inl ⟨rfl, fun d hd heq => ?_⟩
          obtain ⟨a, ha, hid⟩ := hdb.known d hd
          exact hfresh a ha (hid.trans heq)
      · intro d hd
        obtain ⟨a, ha, hid⟩ := hdb.known d hd
        exact ⟨a, List.mem_append_left _ ha, hid⟩
      · intro a ha hexpired
        rcases List.mem_append.mp ha with ha | ha
        · exact hdb.overdue a ha hexpired
        · rw [List.mem_singleton.mp ha] at hexpired
          cases hexpired
      · intro step hstep
        obtain ⟨a, ha, hblocked⟩ := hdb.blocked step hstep
        exact ⟨a, List.mem_append_left _ ha, hblocked⟩
      · exact ⟨fun a ha => ⟨a, List.mem_append_left _ ha, .refl a⟩, fun _ h => h, fun _ h => h,
          fun _ h => h⟩

theorem createApproval_some {request : NewApproval} {id id' now expires : String}
    (h : (db.createApproval request id now expires).2 = some id') :
    id' = id ∧ (∀ a ∈ db.approvals, a.id ≠ id) ∧
      ∃ a ∈ (db.createApproval request id now expires).1.approvals,
        a.id = id ∧ a.toNewApproval = request := by
  unfold ApprovalDb.createApproval at h ⊢
  cases hfound : db.approval id with
  | some a => simp [hfound] at h
  | none =>
      simp only [hfound, Option.some.injEq] at h
      refine ⟨h.symm, fun a ha => lookup_none hfound a ha, _,
        List.mem_append_right _ (List.mem_singleton_self _), rfl, rfl⟩

theorem Inv.decide (hdb : Inv db) {d : Decision}
    (hlegal : nextApproval .pending d.audit.event = .ok d.next)
    (hdue : d.audit.event = .expire → ∃ a ∈ db.approvals, a.id = d.id ∧ Overdue db a) :
    Inv (db.decide d).1 ∧ Grows db (db.decide d).1 := by
  unfold ApprovalDb.decide
  split
  · rename_i hany
    obtain ⟨a, ha, hpending⟩ := List.any_eq_true.mp hany
    simp only [ApprovalDb.isPending, Bool.and_eq_true, beq_iff_eq] at hpending
    have hundecided : ∀ d' ∈ db.decisions, d'.id ≠ d.id := by
      rcases hdb.rows a ha with ⟨-, hnone⟩ | ⟨d', hd', hshows⟩
      · rwa [hpending.1] at hnone
      · have hlegal' := hdb.legal d' hd'
        rw [← hshows.status, hpending.2] at hlegal'
        exact absurd rfl (nextApproval_pending hlegal')
    have hlater : ∀ a : Approval,
        Later a (if ApprovalDb.isPending d.id a then a.decide d else a) := by
      intro a
      split
      · rename_i hp
        simp only [ApprovalDb.isPending, Bool.and_eq_true, beq_iff_eq] at hp
        exact ⟨rfl, rfl, rfl, fun hne => absurd hp.2 hne⟩
      · exact .refl a
    have hgrows : Grows db { db with
        approvals := updateWhere (ApprovalDb.isPending d.id) (·.decide d) db.approvals
        decisions := db.decisions ++ [d] } :=
      ⟨fun a ha => ⟨_, mem_updateWhere.mpr ⟨a, ha, rfl⟩, hlater a⟩,
        fun _ h => List.mem_append_left _ h, fun _ h => h, fun _ h => h⟩
    refine ⟨⟨?_, ?_, ?_, ?_, ?_, ?_, ?_⟩, hgrows⟩
    · have hkeys : (updateWhere (ApprovalDb.isPending d.id) (·.decide d) db.approvals).map
          Approval.id = db.approvals.map Approval.id := map_updateWhere_of_key (by intro row; rfl) _
      exact hkeys.symm ▸ hdb.ids
    · intro a' ha'
      obtain ⟨b, hb, rfl⟩ := mem_updateWhere.mp ha'
      split
      · rename_i hp
        simp only [ApprovalDb.isPending, Bool.and_eq_true, beq_iff_eq] at hp
        exact .inr ⟨d, List.mem_append_right _ (List.mem_singleton_self d), hp.1.symm, rfl, rfl,
          rfl, rfl⟩
      · rename_i hp
        rcases hdb.rows b hb with ⟨hopen, hnone⟩ | ⟨d', hd', hshows⟩
        · refine .inl ⟨hopen, fun d' hd' => ?_⟩
          rcases List.mem_append.mp hd' with hd' | hd'
          · exact hnone d' hd'
          · rw [List.mem_singleton.mp hd']
            intro heq
            simp [ApprovalDb.isPending, heq, hopen] at hp
        · exact .inr ⟨d', List.mem_append_left _ hd', hshows⟩
    · intro d' hd'
      have hold : ∃ b ∈ db.approvals, b.id = d'.id := by
        rcases List.mem_append.mp hd' with hd' | hd'
        · exact hdb.known d' hd'
        · rw [List.mem_singleton.mp hd']
          exact ⟨a, ha, hpending.1⟩
      obtain ⟨b, hb, hid⟩ := hold
      obtain ⟨b', hb', hlater⟩ := hgrows.rows b hb
      exact ⟨b', hb', hlater.id.trans hid⟩
    · simp only [List.map_append, List.map_cons, List.map_nil]
      refine List.nodup_append.mpr ⟨hdb.once, List.nodup_singleton _, ?_⟩
      intro k hk k' hk'
      obtain ⟨d', hd', rfl⟩ := List.mem_map.mp hk
      rw [List.mem_singleton.mp hk']
      exact hundecided d' hd'
    · intro d' hd'
      rcases List.mem_append.mp hd' with hd' | hd'
      · exact hdb.legal d' hd'
      · rwa [List.mem_singleton.mp hd']
    · intro a' ha' hexpired
      obtain ⟨b, hb, rfl⟩ := mem_updateWhere.mp ha'
      split at hexpired
      · rename_i hp
        simp only [ApprovalDb.isPending, Bool.and_eq_true, beq_iff_eq] at hp
        rw [if_pos (by simp [ApprovalDb.isPending, hp])]
        have hnext : d.next = .expired := hexpired
        rw [hnext] at hlegal
        obtain ⟨c, hc, hid, hover⟩ := hdue (nextApproval_expired hlegal)
        rwa [row_unique hdb.ids hc hb (hid.trans hp.1.symm)] at hover
      · rename_i hp
        rw [if_neg hp]
        exact hdb.overdue b hb hexpired
    · intro step hstep
      obtain ⟨b, hb, hsteps, hexpired⟩ := hdb.blocked step hstep
      obtain ⟨b', hb', hlater⟩ := hgrows.rows b hb
      rw [hlater.decided (by simp [hexpired])] at hb'
      exact ⟨b, hb', hsteps, hexpired⟩
  · exact ⟨hdb, .refl db⟩

theorem decide_true {d : Decision} (hdb : Inv db) (h : (db.decide d).2 = true) :
    (∀ d' ∈ db.decisions, d'.id ≠ d.id) ∧ d ∈ (db.decide d).1.decisions := by
  unfold ApprovalDb.decide at h ⊢
  split at h
  · rename_i hany
    rw [if_pos hany]
    obtain ⟨a, ha, hpending⟩ := List.any_eq_true.mp hany
    simp only [ApprovalDb.isPending, Bool.and_eq_true, beq_iff_eq] at hpending
    refine ⟨?_, List.mem_append_right _ (List.mem_singleton_self d)⟩
    rcases hdb.rows a ha with ⟨-, hnone⟩ | ⟨d', hd', hshows⟩
    · rwa [hpending.1] at hnone
    · have hlegal := hdb.legal d' hd'
      rw [← hshows.status, hpending.2] at hlegal
      exact absurd rfl (nextApproval_pending hlegal)
  · cases h

theorem Inv.file (hdb : Inv db) {e : Filed} {db' : ApprovalDb} (h : e.apply db = some db') :
    Inv db' ∧ Grows db db' := by
  have hcreate := hdb.create e.request e.id e.now e.expires
  unfold Filed.apply at h
  split at h
  · rename_i stored id hstored
    cases h
    rwa [hstored] at hcreate
  · cases h

/-- An operation that writes no approval. -/
theorem Inv.beside (hdb : Inv db) (readings blocked : List String)
    (pushed : List PermissionDecision)
    (hblocked : ∀ step ∈ blocked,
      ∃ a ∈ db.approvals, a.stepRunId = some step ∧ a.status = .expired)
    (hreadings : ∀ now ∈ db.readings, now ∈ readings) (hpushed : ∀ d ∈ db.pushed, d ∈ pushed) :
    Inv ⟨db.approvals, db.decisions, readings, blocked, pushed⟩ ∧
      Grows db ⟨db.approvals, db.decisions, readings, blocked, pushed⟩ := by
  refine ⟨⟨hdb.ids, hdb.rows, hdb.known, hdb.once, hdb.legal, fun a ha hexpired => ?_, hblocked⟩,
    fun a ha => ⟨a, ha, .refl a⟩, fun _ h => h, hreadings, hpushed⟩
  obtain ⟨now, hnow, hlt⟩ := hdb.overdue a ha hexpired
  exact ⟨now, hreadings now hnow, hlt⟩

end Tables

/-! ## The calls -/

/-- What an answer tells about every later state of the table. -/
def Holds (provider : PolicyProvider) : Answer → ApprovalDb → Prop
  | .permission r g, db =>
      (g.approval = none → g.allowed = true → ∃ d, policyDecision provider r.permission r.autonomy =
        some d ∧ d.decision = .allow ∧ d ∈ db.pushed) ∧
      ∀ id, g.approval = some id → ∃ a ∈ db.approvals, a.id = id ∧ a.toNewApproval = r.filing ∧
        (g.allowed = true → a.status = .allowed)
  | .answered id event reason actor won, db =>
      won = some true → ∃ d ∈ db.decisions, d.id = id ∧ d.reason = reason ∧
        d.audit.actor = actor ∧ d.audit.event = event
  | .ticked _, _ => True

def terms : Prog.Terms ApprovalTx Empty ApprovalDb Input where
  rely := fun _ db db' => (Inv db → Inv db') ∧ Grows db db'
  grant := fun _ _ _ _ => True
  duty := fun _ _ _ _ db db' => Inv db' ∧ Grows db db'

section Calls

variable {provider : PolicyProvider} {db : ApprovalDb}

theorem meets_ask {α : Type} {post : α → ApprovalDb → Prop} {tx : ApprovalTx}
    {next : tx.Reply → Program α} (hdb : Inv db)
    (h : ∀ db', Grows db db' → Inv db' → ∀ input, Inv (exec input tx db').1 ∧
      Grows db' (exec input tx db').1 ∧
        (next (exec input tx db').2).Meets exec terms post (exec input tx db').1) :
    (Prog.bind (ask tx) next).Meets exec terms post db := by
  intro db' hrely
  refine ⟨trivial, fun input _ => ?_⟩
  have hrun := h db' hrely.2 (hrely.1 hdb) input
  exact ⟨⟨hrun.1, hrun.2.1⟩, hrun.2.2⟩

theorem meets_ret {α : Type} {post : α → ApprovalDb → Prop} {value : α}
    (h : ∀ db', Grows db db' → post value db') :
    (Prog.ret value : Program α).Meets exec terms post db :=
  fun db' hrely => h db' hrely.2

theorem answer_some {α : Type} {input : Input} {value value' : α}
    (h : input.answer value = some value') : value = value' := by
  unfold Input.answer at h
  split at h <;> simp_all

/-- The approval an answer is about, past due when it is to expire. -/
def Due (db : ApprovalDb) (id : String) (event : ApprovalEvent) : Prop :=
  event = .expire → ∃ a ∈ db.approvals, a.id = id ∧ Overdue db a

theorem Due.grows {db' : ApprovalDb} {id : String} {event : ApprovalEvent} (h : Due db id event)
    (hgrows : Grows db db') : Due db' id event := by
  intro hevent
  obtain ⟨a, ha, hid, now, hnow, hlt⟩ := h hevent
  obtain ⟨a', ha', hlater⟩ := hgrows.rows a ha
  exact ⟨a', ha', hlater.id.trans hid, now, hgrows.readings now hnow, by rwa [hlater.expiresAt]⟩

/-- What a won answer leaves in the log. -/
def Logged (db : ApprovalDb) (id : String) (event : ApprovalEvent) (reason : Option String)
    (actor : String) : Prop :=
  ∃ d ∈ db.decisions, d.id = id ∧ d.reason = reason ∧ d.audit.actor = actor ∧
    d.audit.event = event

theorem Logged.grows {db' : ApprovalDb} {id actor : String} {event : ApprovalEvent}
    {reason : Option String} (h : Logged db id event reason actor) (hgrows : Grows db db') :
    Logged db' id event reason actor := by
  obtain ⟨d, hd, hrest⟩ := h
  exact ⟨d, hgrows.decisions d hd, hrest⟩

theorem meets_answer {post : Answer → ApprovalDb → Prop} {id actor : String}
    {event : ApprovalEvent} {reason : Option String} {k : Option Bool → Program Answer}
    (hdb : Inv db) (hdue : Due db id event)
    (hk : ∀ won db', Grows db db' → Inv db' → (won = some true → Logged db' id event reason actor) →
      (k won).Meets exec terms post db') :
    (Prog.bind (answerApproval id event reason actor) k).Meets exec terms post db := by
  refine meets_ask hdb fun db₁ hgrows₁ hinv₁ input => ⟨hinv₁, .refl db₁, ?_⟩
  have hlost : ∀ won : Option Bool, won ≠ some true → (k won).Meets exec terms post db₁ :=
    fun won hne => hk won db₁ hgrows₁ hinv₁ fun heq => absurd heq hne
  cases (exec input (.readStatus id) db₁).2 with
  | none => exact hlost none (by simp)
  | some current =>
      cases current with
      | none => exact hlost (some false) (by simp)
      | some current =>
          dsimp only [Prog.bind]
          cases hnext : nextApproval current event with
          | error e => exact hlost (some false) (by simp)
          | ok next =>
              obtain rfl := nextApproval_ok hnext
              refine meets_ask hinv₁ fun db₂ hgrows₂ hinv₂ input => ?_
              have hdue₂ := (hdue.grows hgrows₁).grows hgrows₂
              have hdecide := hinv₂.decide
                (d := ⟨id, next, input.now, reason, ⟨actor, event, input.now⟩⟩) hnext hdue₂
              have hwon := decide_true
                (d := ⟨id, next, input.now, reason, ⟨actor, event, input.now⟩⟩) hinv₂
              simp only [exec]
              split
              · refine ⟨hdecide.1, hdecide.2, hk _ _ ?_ hdecide.1 fun heq => ?_⟩
                · exact (hgrows₁.trans hgrows₂).trans hdecide.2
                · exact ⟨_, (hwon (answer_some heq)).2, rfl, rfl, rfl, rfl⟩
              · exact ⟨hinv₂, .refl db₂, hk _ _ (hgrows₁.trans hgrows₂) hinv₂ (by simp)⟩

theorem meets_answering (hdb : Inv db) (id : String) {event : ApprovalEvent}
    (hevent : event ≠ .expire) (reason : Option String) (actor : String) :
    (answering id event reason actor).Meets exec terms (Holds provider) db := by
  refine meets_answer hdb (fun heq => absurd heq hevent) fun won db' _ _ hlogged => ?_
  exact meets_ret fun db'' hgrows hwon => (hlogged hwon).grows hgrows

/-- The rows that the tick read, with the steps they are linked to. -/
def Read (db : ApprovalDb) (rows : List (String × Option String)) : Prop :=
  ∀ row ∈ rows, ∃ a ∈ db.approvals, a.id = row.1 ∧ a.stepRunId = row.2 ∧ Overdue db a

theorem Read.grows {db' : ApprovalDb} {rows : List (String × Option String)} (h : Read db rows)
    (hgrows : Grows db db') : Read db' rows := by
  intro row hrow
  obtain ⟨a, ha, hid, hstep, now, hnow, hlt⟩ := h row hrow
  obtain ⟨a', ha', hlater⟩ := hgrows.rows a ha
  have hrequest := congrArg NewApproval.stepRunId hlater.request
  exact ⟨a', ha', hlater.id.trans hid, hrequest.trans hstep, now, hgrows.readings now hnow,
    by rwa [hlater.expiresAt]⟩

theorem meets_expireRows {k : Nat → Program Answer} {post : Answer → ApprovalDb → Prop}
    (hk : ∀ count db, Inv db → (k count).Meets exec terms post db)
    {rows : List (String × Option String)} (count : Nat) (hdb : Inv db) (hrows : Read db rows) :
    (Prog.bind (expireRows rows count) k).Meets exec terms post db := by
  induction rows generalizing db count with
  | nil => exact hk count db hdb
  | cons row rest ih =>
      obtain ⟨id, stepRunId⟩ := row
      obtain ⟨a, ha, hid, hstep, hover⟩ := hrows (id, stepRunId) List.mem_cons_self
      have hrest : Read db rest := fun row hrow => hrows row (List.mem_cons_of_mem _ hrow)
      rw [expireRows, Prog.bind_eq, Prog.bind_assoc]
      refine meets_answer hdb (fun _ => ⟨a, ha, hid, hover⟩) fun won db₁ hgrows₁ hinv₁ hlogged => ?_
      cases won with
      | none => exact ih count hinv₁ (hrest.grows hgrows₁)
      | some won =>
          cases won with
          | false => exact ih count hinv₁ (hrest.grows hgrows₁)
          | true =>
              cases stepRunId with
              | none => exact ih (count + 1) hinv₁ (hrest.grows hgrows₁)
              | some step =>
                  refine meets_ask hinv₁ fun db₂ hgrows₂ hinv₂ input => ?_
                  have hread := hrest.grows (hgrows₁.trans hgrows₂)
                  have hexpired : ∃ a ∈ db₂.approvals, a.stepRunId = some step ∧
                      a.status = .expired := by
                    obtain ⟨d, hd, hdid, -, -, hevent⟩ := (hlogged rfl).grows hgrows₂
                    obtain ⟨b, hb, hbid⟩ := hinv₂.known d hd
                    obtain ⟨a', ha', ha'id, ha'step, -⟩ :=
                      (hrows.grows (hgrows₁.trans hgrows₂)) (id, some step) List.mem_cons_self
                    obtain rfl := row_unique hinv₂.ids hb ha' ((hbid.trans hdid).trans ha'id.symm)
                    refine ⟨b, hb, ha'step, ?_⟩
                    have hlegal := hinv₂.legal d hd
                    rw [hevent] at hlegal
                    rcases hinv₂.rows b hb with ⟨-, hnone⟩ | ⟨d', hd', hshows⟩
                    · exact absurd hbid.symm (hnone d hd)
                    · obtain rfl := row_unique hinv₂.once hd hd' (hbid.symm.trans hshows.id.symm)
                      rw [hshows.status]
                      exact (Except.ok.inj hlegal).symm
                  simp only [exec]
                  split
                  · have hbeside := hinv₂.beside db₂.readings (db₂.blocked ++ [step]) db₂.pushed
                      (fun s hs => ?_) (fun _ h => h)
                      (fun _ h => h)
                    · exact ⟨hbeside.1, hbeside.2, ih (count + 1) hbeside.1 (hread.grows hbeside.2)⟩
                    · rcases List.mem_append.mp hs with hs | hs
                      · exact hinv₂.blocked s hs
                      · rw [List.mem_singleton.mp hs]
                        exact hexpired
                  · exact ⟨hinv₂, .refl db₂, ih (count + 1) hinv₂ hread⟩

theorem meets_tick (hdb : Inv db) :
    (Call.program provider .tick).Meets exec terms (Holds provider) db := by
  refine meets_ask hdb fun db₁ _ hinv₁ input => ?_
  have hbeside := hinv₁.beside (db₁.readings ++ [input.now]) db₁.blocked db₁.pushed hinv₁.blocked
    (fun _ h => List.mem_append_left _ h) (fun _ h => h)
  refine ⟨hbeside.1, hbeside.2, ?_⟩
  cases hreply : (exec input .pastDue db₁).2 with
  | none => exact meets_ret fun _ _ => trivial
  | some rows =>
      have hrows : Read (exec input .pastDue db₁).1 rows := by
        rw [← answer_some hreply]
        intro row hrow
        obtain ⟨a, ha, rfl⟩ := List.mem_map.mp hrow
        simp only [List.mem_filter, Bool.and_eq_true, decide_eq_true_eq] at ha
        exact ⟨a, ha.1, rfl, rfl, input.now, List.mem_append_right _ (List.mem_singleton_self _),
          ha.2.2⟩
      dsimp only [Prog.bind]
      rw [Prog.bind_eq, Prog.bind_assoc]
      exact meets_expireRows (fun count db _ => meets_ret fun _ _ => trivial) 0 hbeside.1 hrows

/-- A request that waits for an approval it filed. -/
def Filing (db : ApprovalDb) (r : PermissionRequest) (id : String) : Prop :=
  ∃ a ∈ db.approvals, a.id = id ∧ a.toNewApproval = r.filing

theorem Filing.grows {db' : ApprovalDb} {r : PermissionRequest} {id : String}
    (h : Filing db r id) (hgrows : Grows db db') : Filing db' r id := by
  obtain ⟨a, ha, hid, hfiling⟩ := h
  obtain ⟨a', ha', hlater⟩ := hgrows.rows a ha
  exact ⟨a', ha', hlater.id.trans hid, hlater.request.trans hfiling⟩

theorem holds_refused {r : PermissionRequest} {id : String} (h : Filing db r id) :
    Holds provider (.permission r ⟨false, some id⟩) db := by
  obtain ⟨a, ha, hid, hfiling⟩ := h
  refine ⟨fun hnone => by simp at hnone, fun id' heq => ?_⟩
  cases heq
  exact ⟨a, ha, hid, hfiling, fun hallowed => by simp at hallowed⟩

theorem meets_poll {r : PermissionRequest} {id : String} (polls : Nat) (hdb : Inv db)
    (hfiling : Filing db r id) :
    (Prog.bind (pollApproval id polls) fun granted => pure (.permission r granted)).Meets exec
      terms (Holds provider) db := by
  induction polls generalizing db with
  | zero => exact meets_ret fun db' hgrows => holds_refused (hfiling.grows hgrows)
  | succ polls ih =>
      refine meets_ask hdb fun db₁ hgrows₁ hinv₁ input => ⟨hinv₁, .refl db₁, ?_⟩
      have hfiling₁ := hfiling.grows hgrows₁
      have hrefused : (Prog.ret (.permission r ⟨false, some id⟩) : Program Answer).Meets exec terms
          (Holds provider) db₁ :=
        meets_ret fun db' hgrows => holds_refused (hfiling₁.grows hgrows)
      cases hreply : (exec input (.getApproval id) db₁).2 with
      | none => exact hrefused
      | some found =>
          cases found with
          | none => exact hrefused
          | some a =>
              have hfound : db₁.approval id = some a := answer_some hreply
              dsimp only [Prog.bind]
              cases hstatus : a.status with
              | pending => exact ih hinv₁ hfiling₁
              | allowed =>
                  refine meets_ret fun db' hgrows => ⟨fun hnone => by simp at hnone, ?_⟩
                  intro id' heq
                  cases heq
                  have hmem := lookup_mem hfound
                  obtain ⟨b, hb, hbid, hb'⟩ := hfiling₁
                  obtain rfl := row_unique hinv₁.ids hmem.1 hb (hmem.2.trans hbid.symm)
                  obtain ⟨a', ha', hlater⟩ := hgrows.rows a hb
                  obtain rfl := hlater.decided (by simp [hstatus])
                  exact ⟨a', ha', hbid, hb', fun _ => hstatus⟩
              | denied => exact hrefused
              | expired => exact hrefused
              | cancelled => exact hrefused

theorem meets_permission (hdb : Inv db) (r : PermissionRequest) :
    (Call.program provider (.permission r)).Meets exec terms (Holds provider) db := by
  have hclosed : ∀ db, (Prog.ret (.permission r ⟨false, none⟩) : Program Answer).Meets exec terms
      (Holds provider) db := by
    intro db
    refine meets_ret fun db' _ => ⟨fun _ hallowed => ?_, fun id hid => ?_⟩ <;> simp_all
  simp only [Call.program, requestPermission]
  cases hpolicy : policyDecision provider r.permission r.autonomy with
  | some decision =>
      refine meets_ask hdb fun db₁ _ hinv₁ input => ?_
      have hbeside := hinv₁.beside db₁.readings db₁.blocked (db₁.pushed ++ [decision])
        hinv₁.blocked (fun _ h => h)
        (fun _ h => List.mem_append_left _ h)
      refine ⟨hbeside.1, hbeside.2, meets_ret fun db' hgrows => ⟨fun _ hallowed => ?_, ?_⟩⟩
      · refine ⟨decision, hpolicy, by simpa using hallowed, hgrows.pushed _ ?_⟩
        exact List.mem_append_right _ (List.mem_singleton_self _)
      · exact fun id hid => by simp at hid
  | none =>
      refine meets_ask hdb fun db₁ _ hinv₁ input => ?_
      have hcreate := hinv₁.create r.filing input.id input.now input.expires
      simp only [exec]
      split
      · refine ⟨hcreate.1, hcreate.2, ?_⟩
        cases hreply : (if input.answered then
            (db₁.createApproval r.filing input.id input.now input.expires).2 else none) with
        | none => exact hclosed _
        | some id =>
            dsimp only [Prog.bind]
            split
            · exact hclosed _
            · have hsome : (db₁.createApproval r.filing input.id input.now input.expires).2 =
                  some id := by
                split at hreply
                · exact hreply
                · cases hreply
              obtain ⟨rfl, -, hfiled⟩ := createApproval_some hsome
              exact meets_poll 150 hcreate.1 hfiled
      · exact ⟨hinv₁, .refl db₁, hclosed _⟩

theorem ensures (provider : PolicyProvider) :
    Pool.Ensures (rules provider) terms Inv (Holds provider) where
  trans := fun h h' => ⟨fun hs => h'.1 (h.1 hs), h.2.trans h'.2⟩
  program := by
    intro call db hdb
    cases call with
    | permission r => exact meets_permission hdb r
    | allow id user reason => exact meets_answering hdb id (by simp) _ _
    | deny id user reason => exact meets_answering hdb id (by simp) _ _
    | consensusReview id summary => exact meets_answering hdb id (by simp) _ _
    | tick => exact meets_tick hdb
  duty := fun h => ⟨h.1, fun _ => ⟨fun _ => h.1, h.2⟩⟩
  other := fun hs h => ⟨(hs.file h).1, fun _ => ⟨fun _ => (hs.file h).1, (hs.file h).2⟩⟩
  refl := fun _ db => ⟨fun h => h, .refl db⟩

end Calls

/-! ## Whole runs -/

/-- The approval that a permission request waits for, or waited for. -/
def waitsFor : Program Answer → Option String
  | .ret (.permission _ granted) => granted.approval
  | .call _ (.getApproval id) _ => some id
  | _ => none

/-- The approval that an answer decided. -/
def wonBy : Program Answer → Option String
  | .ret (.answered id _ _ _ (some true)) => some id
  | _ => none

/-- A request waits only for what it filed, and only a decision wins. -/
def Follows : (tx : ApprovalTx) → tx.Reply → Program Answer → Prop
  | .createApproval _, reply, p => (∀ id, waitsFor p = some id → reply = some id) ∧ wonBy p = none
  | .getApproval id, _, p => (∀ id', waitsFor p = some id' → id' = id) ∧ wonBy p = none
  | .decide id _ _ _ _, reply, p =>
      waitsFor p = none ∧ ∀ id', wonBy p = some id' → id' = id ∧ reply = some true
  | _, _, p => waitsFor p = none ∧ wonBy p = none

section Following

variable {provider : PolicyProvider}

theorem each_answer {id actor : String} {event : ApprovalEvent} {reason : Option String}
    {k : Option Bool → Program Answer} (hk : ∀ won, (k won).Each Follows)
    (hwaits : ∀ won, waitsFor (k won) = none)
    (hwon : ∀ won id', wonBy (k won) = some id' → id' = id ∧ won = some true) :
    (Prog.bind (answerApproval id event reason actor) k).Each Follows := by
  have hlost : ∀ won, won ≠ some true → wonBy (k won) = none := by
    intro won hne
    cases h : wonBy (k won) with
    | none => rfl
    | some id' => exact absurd (hwon won id' h).2 hne
  intro reply
  cases reply with
  | none => exact ⟨⟨hwaits _, hlost _ (by simp)⟩, hk _⟩
  | some current =>
      cases current with
      | none => exact ⟨⟨hwaits _, hlost _ (by simp)⟩, hk _⟩
      | some current =>
          dsimp only [Prog.bind]
          cases hnext : nextApproval current event with
          | error e => exact ⟨⟨hwaits _, hlost _ (by simp)⟩, hk _⟩
          | ok next => exact ⟨⟨rfl, rfl⟩, fun reply => ⟨⟨hwaits _, hwon reply⟩, hk _⟩⟩

theorem each_answering (id : String) (event : ApprovalEvent) (reason : Option String)
    (actor : String) : (answering id event reason actor).Each Follows := by
  refine each_answer (fun _ => trivial) (fun _ => rfl) fun won id' h => ?_
  cases won with
  | none => cases h
  | some won =>
      cases won with
      | false => cases h
      | true =>
          cases h
          exact ⟨rfl, rfl⟩

/-- Neither waits nor won. -/
def Plain (p : Program Answer) : Prop := p.Each Follows ∧ waitsFor p = none ∧ wonBy p = none

theorem plain_answer {id actor : String} {event : ApprovalEvent} {reason : Option String}
    {k : Option Bool → Program Answer} (hk : ∀ won, Plain (k won)) :
    Plain (Prog.bind (answerApproval id event reason actor) k) := by
  refine ⟨each_answer (fun won => (hk won).1) (fun won => (hk won).2.1) fun won id' h => ?_, rfl,
    rfl⟩
  rw [(hk won).2.2] at h
  cases h

theorem plain_expireRows {k : Nat → Program Answer} (hk : ∀ count, Plain (k count))
    (rows : List (String × Option String)) (count : Nat) :
    Plain (Prog.bind (expireRows rows count) k) := by
  induction rows generalizing count with
  | nil => exact hk count
  | cons row rest ih =>
      obtain ⟨id, stepRunId⟩ := row
      rw [expireRows, Prog.bind_eq, Prog.bind_assoc]
      refine plain_answer fun won => ?_
      cases won with
      | none => exact ih count
      | some won =>
          cases won with
          | false => exact ih count
          | true =>
              cases stepRunId with
              | none => exact ih (count + 1)
              | some step =>
                  have hnext := ih (count + 1)
                  exact ⟨fun _ => ⟨hnext.2, hnext.1⟩, rfl, rfl⟩

theorem each_poll (r : PermissionRequest) (id : String) (polls : Nat) :
    (Prog.bind (pollApproval id polls) fun granted =>
      (pure (.permission r granted) : Program Answer)).Each Follows ∧
    (∀ id', waitsFor (Prog.bind (pollApproval id polls) fun granted =>
      (pure (.permission r granted) : Program Answer)) = some id' → id' = id) ∧
    wonBy (Prog.bind (pollApproval id polls) fun granted =>
      (pure (.permission r granted) : Program Answer)) = none := by
  induction polls with
  | zero => exact ⟨trivial, fun id' h => (Option.some.inj h).symm, rfl⟩
  | succ polls ih =>
      have hdone : ∀ allowed, (Prog.ret (.permission r ⟨allowed, some id⟩) : Program Answer).Each
          Follows ∧ (∀ id', waitsFor (Prog.ret (.permission r ⟨allowed, some id⟩)) = some id' →
            id' = id) ∧ wonBy (Prog.ret (.permission r ⟨allowed, some id⟩)) = none :=
        fun _ => ⟨trivial, fun id' h => (Option.some.inj h).symm, rfl⟩
      refine ⟨fun reply => ?_, fun id' h => (Option.some.inj h).symm, rfl⟩
      cases reply with
      | none => exact ⟨(hdone false).2, (hdone false).1⟩
      | some found =>
          cases found with
          | none => exact ⟨(hdone false).2, (hdone false).1⟩
          | some a =>
              dsimp only [Prog.bind]
              cases a.status with
              | pending => exact ⟨ih.2, ih.1⟩
              | allowed => exact ⟨(hdone true).2, (hdone true).1⟩
              | denied => exact ⟨(hdone false).2, (hdone false).1⟩
              | expired => exact ⟨(hdone false).2, (hdone false).1⟩
              | cancelled => exact ⟨(hdone false).2, (hdone false).1⟩

theorem each_program (provider : PolicyProvider) (call : Call) :
    (call.program provider).Each Follows ∧ waitsFor (call.program provider) = none ∧
      wonBy (call.program provider) = none := by
  cases call with
  | allow id user reason => exact ⟨each_answering id _ _ _, rfl, rfl⟩
  | deny id user reason => exact ⟨each_answering id _ _ _, rfl, rfl⟩
  | consensusReview id summary => exact ⟨each_answering id _ _ _, rfl, rfl⟩
  | tick =>
      refine ⟨fun reply => ?_, rfl, rfl⟩
      cases reply with
      | none => exact ⟨⟨rfl, rfl⟩, trivial⟩
      | some rows =>
          have hrows := plain_expireRows (k := fun count => pure (.ticked (some count)))
            (fun _ => ⟨trivial, rfl, rfl⟩) rows 0
          dsimp only [Prog.bind]
          rw [Prog.bind_eq, Prog.bind_assoc]
          exact ⟨hrows.2, hrows.1⟩
  | permission r =>
      simp only [Call.program, requestPermission]
      cases policyDecision provider r.permission r.autonomy with
      | some decision => exact ⟨fun _ => ⟨⟨rfl, rfl⟩, trivial⟩, rfl, rfl⟩
      | none =>
          have hclosed : ∀ id, waitsFor (Prog.ret (.permission r ⟨false, none⟩)) ≠ some id := by
            simp [waitsFor]
          refine ⟨fun reply => ?_, rfl, rfl⟩
          cases reply with
          | none => exact ⟨⟨fun id h => absurd h (hclosed id), rfl⟩, trivial⟩
          | some id =>
              dsimp only [Prog.bind]
              split
              · exact ⟨⟨fun id h => absurd h (hclosed id), rfl⟩, trivial⟩
              · have hpoll := each_poll r id 150
                exact ⟨⟨fun id' h => congrArg some (hpoll.2.1 id' h).symm, hpoll.2.2⟩, hpoll.1⟩

end Following

/-- What holds of every pool that a run reaches. -/
structure Reached (provider : PolicyProvider) (P : ApprovalPool) : Prop where
  stands : Pool.Stands (rules provider) terms Inv (Holds provider) P
  follows : ∀ p ∈ P.threads, p.Each Follows
  waiting : ∀ p ∈ P.threads, ∀ id, waitsFor p = some id → ∃ a ∈ P.state.approvals, a.id = id
  waits : (P.owned waitsFor).Nodup
  wins : (P.owned wonBy).Nodup

section Runs

variable {provider : PolicyProvider} {P P' : ApprovalPool}

theorem reached_start (provider : PolicyProvider) : Reached provider ⟨{}, []⟩ where
  stands := ⟨⟨List.nodup_nil, by simp, by simp, List.nodup_nil, by simp, by simp, by simp⟩, by simp⟩
  follows := by simp
  waiting := by simp
  waits := List.nodup_nil
  wins := List.nodup_nil

/-- The rows of a state are there in the next. -/
theorem Reached.grows (hP : Reached provider P) {e : ApprovalEvents}
    (h : Pool.Steps (rules provider) P e P') : Grows P.state P'.state := by
  rcases Pool.step_cases h with ⟨call, rfl, rfl⟩ | ⟨i, input, keys, op, next, rfl, hcall, rfl⟩ |
    ⟨i, rfl, rfl⟩ | ⟨event, db, rfl, hdb, rfl⟩
  · exact .refl _
  · have hmeets := hP.stands.threads _ (List.mem_of_getElem? hcall) P.state
      ((ensures provider).refl keys P.state)
    exact (hmeets.2 input trivial).1.2
  · exact .refl _
  · exact (hP.stands.state.file hdb).2

theorem granted_all (P : ApprovalPool) (e : ApprovalEvents) : P.granted terms e := by
  cases e <;> simp [Pool.granted, terms]

theorem Reached.step (hP : Reached provider P) {e : ApprovalEvents}
    (h : Pool.Steps (rules provider) P e P') : Reached provider P' := by
  have hgrows := hP.grows h
  have hstands := hP.stands.step (ensures provider) h (granted_all P e)
  have hfollows := Pool.each_step (fun call => (each_program provider call).1) hP.follows h
  have hkept : ∀ id, (∃ a ∈ P.state.approvals, a.id = id) →
      ∃ a ∈ P'.state.approvals, a.id = id := by
    rintro id ⟨a, ha, hid⟩
    obtain ⟨a', ha', hlater⟩ := hgrows.rows a ha
    exact ⟨a', ha', hlater.id.trans hid⟩
  have hnext : ∀ (i : Nat) (input : Input) keys op next,
      P.threads[i]? = some (Prog.call keys op next) →
      Follows op (exec input op P.state).2 (next (exec input op P.state).2) :=
    fun i input keys op next hcall =>
      (hP.follows _ (List.mem_of_getElem? hcall) (exec input op P.state).2).1
  refine ⟨hstands, hfollows, ?_, ?_, ?_⟩
  · rcases Pool.step_cases h with ⟨call, rfl, rfl⟩ | ⟨i, input, keys, op, next, rfl, hcall, rfl⟩ |
      ⟨i, rfl, rfl⟩ | ⟨event, db, rfl, hdb, rfl⟩
    · intro p hp id hid
      rcases List.mem_append.mp hp with hp | hp
      · exact hP.waiting p hp id hid
      · rw [List.mem_singleton.mp hp] at hid
        cases (each_program provider call).2.1.symm.trans hid
    · intro p hp id hid
      rcases List.mem_or_eq_of_mem_set hp with hp | rfl
      · exact hkept id (hP.waiting p hp id hid)
      · have hfollow := hnext i input keys op next hcall
        have hold := hP.waiting _ (List.mem_of_getElem? hcall)
        cases op with
        | createApproval request =>
            have hreply := hfollow.1 id hid
            simp only [exec] at hreply
            split at hreply
            · rename_i hdone
              split at hreply
              · obtain ⟨rfl, -, a, ha, hid', -⟩ := createApproval_some hreply
                refine ⟨a, ?_, hid'⟩
                simpa [rules, exec, hdone] using ha
              · cases hreply
            · cases hreply
        | getApproval id' =>
            rw [hfollow.1 id hid]
            exact hold id' rfl
        | readStatus _ => cases hfollow.1.symm.trans hid
        | decide _ _ _ _ _ => cases hfollow.1.symm.trans hid
        | pastDue => cases hfollow.1.symm.trans hid
        | blockStepAndRun _ => cases hfollow.1.symm.trans hid
        | push _ => cases hfollow.1.symm.trans hid
    · exact fun p hp => hP.waiting p (List.mem_of_mem_eraseIdx hp)
    · exact fun p hp id hid => hkept id (hP.waiting p hp id hid)
  · refine Pool.owned_step (fun call => (each_program provider call).2.1) hP.waits h ?_
    intro i input keys op next hcall id hid
    have hfollow := hnext i input keys op next hcall
    cases op with
    | createApproval request =>
        refine .inr fun hmem => ?_
        obtain ⟨p, hp, hown⟩ := List.mem_filterMap.mp hmem
        obtain ⟨a, ha, haid⟩ := hP.waiting p hp id hown
        have hreply := hfollow.1 id hid
        simp only [exec] at hreply
        split at hreply
        · split at hreply
          · obtain ⟨rfl, hfresh, -⟩ := createApproval_some hreply
            exact hfresh a ha haid
          · cases hreply
        · cases hreply
    | getApproval id' => exact .inl (congrArg some (hfollow.1 id hid).symm)
    | readStatus _ => cases hfollow.1.symm.trans hid
    | decide _ _ _ _ _ => cases hfollow.1.symm.trans hid
    | pastDue => cases hfollow.1.symm.trans hid
    | blockStepAndRun _ => cases hfollow.1.symm.trans hid
    | push _ => cases hfollow.1.symm.trans hid
  · refine Pool.owned_step (fun call => (each_program provider call).2.2) hP.wins h ?_
    intro i input keys op next hcall id hid
    have hfollow := hnext i input keys op next hcall
    cases op with
    | decide id' event nextStatus reason actor =>
        obtain ⟨rfl, hreply⟩ := hfollow.2 id hid
        refine .inr fun hmem => ?_
        obtain ⟨p, hp, hown⟩ := List.mem_filterMap.mp hmem
        simp only [exec] at hreply
        split at hreply
        · have hfresh := (decide_true hP.stands.state (answer_some hreply)).1
          cases p with
          | call => cases hown
          | ret value =>
              cases value with
              | permission => cases hown
              | ticked => cases hown
              | answered id' event' reason' actor' won =>
                  have hwon : id' = id ∧ won = some true := by
                    cases won with
                    | none => cases hown
                    | some won =>
                        cases won with
                        | false => cases hown
                        | true =>
                            cases hown
                            exact ⟨rfl, rfl⟩
                  obtain ⟨d, hd, hdid, -⟩ := hP.stands.answer (ensures provider) hp hwon.2
                  exact hfresh d hd (hdid.trans hwon.1)
        · cases hreply
    | createApproval _ => cases hfollow.2.symm.trans hid
    | getApproval _ => cases hfollow.2.symm.trans hid
    | readStatus _ => cases hfollow.2.symm.trans hid
    | pastDue => cases hfollow.2.symm.trans hid
    | blockStepAndRun _ => cases hfollow.2.symm.trans hid
    | push _ => cases hfollow.2.symm.trans hid

theorem reached_of_run {es : List ApprovalEvents}
    (h : Runs (Pool.Steps (rules provider)) ⟨{}, []⟩ es P) : Reached provider P :=
  h.invariant (Reached provider) (fun hP hstep => hP.step hstep) (reached_start provider)

theorem Reached.grows_run (hP : Reached provider P) {es : List ApprovalEvents}
    (h : Runs (Pool.Steps (rules provider)) P es P') : Grows P.state P'.state := by
  induction h with
  | refl => exact .refl _
  | next hstep _ ih => exact (hP.grows hstep).trans (ih (hP.step hstep))

end Runs

end AgentGrid.Store.Approvals
