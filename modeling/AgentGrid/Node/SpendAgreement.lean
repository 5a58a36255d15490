import AgentGrid.Node.Spend
import Mathlib.Algebra.Group.Prod
import Mathlib.Tactic.Abel

/-!
# Spend agreement

The totals of a sink are what its events are billed and what it has dropped,
and once everything is sent the control plane sums up the bills.
-/

namespace AgentGrid.Node

open AgentGrid.Foundation AgentGrid.Store

/-! ## Totals -/

/-- The totals are accounted for by the events and what was dropped. -/
structure Balanced (b : SpendBook) : Prop where
  total : b.sink.usage.total =
    (b.writing.map SinkEvent.spend).sum + (b.kept.map SinkEvent.spend).sum + b.dropped
  readable : ∀ e ∈ b.writing ++ b.kept, e.Readable
  distinct : ((b.writing ++ b.kept).map SinkEvent.sequence).Nodup
  below : ∀ e ∈ b.writing ++ b.kept, e.sequence < b.sink.next
  opened : ∀ i e notice, b.sink.pushes i = some (.writing e notice) → e ∈ b.writing
  closed : ∀ e ∈ b.writing, ∃ i notice, b.sink.pushes i = some (.writing e notice)
  apart : ∀ i j e notice notice', b.sink.pushes i = some (.writing e notice) →
    b.sink.pushes j = some (.writing e notice') → i = j

section Balance

variable {b b' : SpendBook}

/-- The event leaves the list of those in their spool write. -/
theorem writing_perm {writing kept : List SinkEvent}
    (hdistinct : ((writing ++ kept).map SinkEvent.sequence).Nodup) {e : SinkEvent}
    (he : e ∈ writing) :
    writing.Perm (e :: writing.filter fun w => w.sequence != e.sequence) := by
  rw [List.map_append, List.nodup_append] at hdistinct
  obtain ⟨hwriting, -⟩ := hdistinct
  obtain ⟨before, after, rfl⟩ := List.append_of_mem he
  rw [List.map_append, List.map_cons, List.nodup_append, List.nodup_cons] at hwriting
  obtain ⟨-, ⟨hafter, -⟩, hbefore⟩ := hwriting
  have hkept : ∀ part : List SinkEvent, (∀ w ∈ part, w.sequence ≠ e.sequence) →
      part.filter (fun w => w.sequence != e.sequence) = part :=
    fun part hpart => List.filter_eq_self.mpr fun w hw => by simpa using hpart w hw
  have hbefore : ∀ w ∈ before, w.sequence ≠ e.sequence := fun w hw =>
    hbefore _ (List.mem_map_of_mem hw) _ List.mem_cons_self
  have hafter : ∀ w ∈ after, w.sequence ≠ e.sequence := fun w hw heq =>
    hafter (heq ▸ List.mem_map_of_mem hw)
  rw [List.filter_append, List.filter_cons, hkept before hbefore, hkept after hafter]
  simp

/-- A step without a push. -/
theorem Balanced.quiet (h : Balanced b) {sink : Sink} (htotal : sink.usage = b.sink.usage)
    (hnext : sink.next = b.sink.next)
    (hpushes : ∀ i e notice, sink.pushes i = some (.writing e notice) ↔
      b.sink.pushes i = some (.writing e notice)) : Balanced { b with sink := sink } := by
  constructor
  · rw [htotal]
    exact h.total
  · exact h.readable
  · exact h.distinct
  · rw [hnext]
    exact h.below
  · intro i e notice hi
    exact h.opened i e notice ((hpushes i e notice).mp hi)
  · intro e he
    obtain ⟨i, notice, hi⟩ := h.closed e he
    exact ⟨i, notice, (hpushes i e notice).mpr hi⟩
  · intro i j e notice notice' hi hj
    exact h.apart i j e notice notice' ((hpushes i e notice).mp hi) ((hpushes j e notice').mp hj)

/-- A push ends early, with its increment dropped. -/
theorem Balanced.drop (h : Balanced b) {sink : Sink} {d : Spend}
    (htotal : sink.usage.total = b.sink.usage.total + d) (hnext : sink.next = b.sink.next)
    (hpushes : sink.pushes = b.sink.pushes) :
    Balanced { b with sink := sink, dropped := b.dropped + d } := by
  refine ⟨?_, h.readable, h.distinct, by rw [hnext]; exact h.below, by rw [hpushes]; exact h.opened,
    by rw [hpushes]; exact h.closed, by rw [hpushes]; exact h.apart⟩
  dsimp only
  rw [htotal, h.total]
  abel

/-- A push takes its sequence; so much is dropped beside it. -/
theorem Balanced.opens (h : Balanced b) {sink : Sink} {i : Nat} {e : SinkEvent} {notice : Bool}
    {d : Spend} (htotal : sink.usage.total = b.sink.usage.total + (e.spend + d))
    (hnext : sink.next = b.sink.next + 1) (he : e.sequence = b.sink.next) (hread : e.Readable)
    (hpushes : sink.pushes = fun k => if k = i then some (.writing e notice) else b.sink.pushes k)
    (hi : ∀ w n, b.sink.pushes i ≠ some (.writing w n)) :
    Balanced { b with sink := sink, writing := b.writing ++ [e], dropped := b.dropped + d } := by
  have hmem : ∀ w, w ∈ b.writing ++ [e] ++ b.kept → w ∈ b.writing ++ b.kept ∨ w = e := by
    intro w hw
    simp only [List.mem_append, List.mem_singleton] at hw ⊢
    tauto
  have hfresh : ∀ w ∈ b.writing ++ b.kept, w.sequence ≠ e.sequence := by
    intro w hw
    have hlt := h.below w hw
    omega
  have hother : ∀ k w n, sink.pushes k = some (.writing w n) →
      k = i ∧ w = e ∨ k ≠ i ∧ b.sink.pushes k = some (.writing w n) := by
    intro k w n hk
    rw [hpushes] at hk
    dsimp only at hk
    split at hk
    · rename_i hki
      cases hk
      exact .inl ⟨hki, rfl⟩
    · rename_i hki
      exact .inr ⟨hki, hk⟩
  constructor
  · dsimp only
    rw [htotal, h.total, List.map_append, List.sum_append, List.map_singleton, List.sum_singleton]
    abel
  · intro w hw
    rcases hmem w hw with hw | rfl
    · exact h.readable w hw
    · exact hread
  · have hperm : (b.writing ++ [e] ++ b.kept).Perm (e :: (b.writing ++ b.kept)) := by
      rw [List.append_assoc, List.singleton_append]
      exact List.perm_middle
    dsimp only
    rw [(hperm.map SinkEvent.sequence).nodup_iff, List.map_cons, List.nodup_cons]
    refine ⟨?_, h.distinct⟩
    rintro hin
    obtain ⟨w, hw, heq⟩ := List.mem_map.mp hin
    exact hfresh w hw heq
  · intro w hw
    dsimp only
    rcases hmem w hw with hw | rfl
    · have hlt := h.below w hw
      omega
    · omega
  · intro k w n hk
    rcases hother k w n hk with ⟨-, rfl⟩ | ⟨-, hk⟩
    · simp
    · exact List.mem_append_left _ (h.opened k w n hk)
  · intro w hw
    dsimp only
    rcases List.mem_append.mp hw with hw | hw
    · obtain ⟨k, n, hk⟩ := h.closed w hw
      refine ⟨k, n, ?_⟩
      rw [hpushes]
      dsimp only
      rw [if_neg (by rintro rfl; exact hi w n hk)]
      exact hk
    · rw [List.mem_singleton.mp hw, hpushes]
      exact ⟨i, notice, if_pos rfl⟩
  · intro k l w n n' hk hl
    rcases hother k w n hk with ⟨hki, hwe⟩ | ⟨-, hkold⟩
    · rcases hother l w n' hl with ⟨hli, -⟩ | ⟨-, hlold⟩
      · exact hki.trans hli.symm
      · exact absurd (hwe ▸ rfl) (hfresh w (List.mem_append_left _ (h.opened l w n' hlold)))
    · rcases hother l w n' hl with ⟨-, hwe⟩ | ⟨-, hlold⟩
      · exact absurd (hwe ▸ rfl) (hfresh w (List.mem_append_left _ (h.opened k w n hkold)))
      · exact h.apart k l w n n' hkold hlold

/-- What is left when the event of push `i` leaves its spool write. -/
private theorem closing (h : Balanced b) {sink : Sink} {i : Nat} {e : SinkEvent} {notice : Bool}
    (hi : b.sink.pushes i = some (.writing e notice)) {next : Option Push}
    (hnew : ∀ w n, next ≠ some (.writing w n))
    (hpushes : sink.pushes = fun k => if k = i then next else b.sink.pushes k) :
    (∀ k w n, sink.pushes k = some (.writing w n) →
      b.sink.pushes k = some (.writing w n) ∧
        w ∈ b.writing.filter fun w => w.sequence != e.sequence) ∧
    ∀ w ∈ b.writing.filter (fun w => w.sequence != e.sequence),
      ∃ k n, sink.pushes k = some (.writing w n) := by
  have he := h.opened i e notice hi
  constructor
  · intro k w n hk
    rw [hpushes] at hk
    dsimp only at hk
    split at hk
    · exact absurd hk (hnew w n)
    · rename_i hki
      have hw := h.opened k w n hk
      refine ⟨hk, List.mem_filter.mpr ⟨hw, ?_⟩⟩
      rw [bne_iff_ne]
      intro heq
      obtain rfl := List.inj_on_of_nodup_map h.distinct (List.mem_append_left _ hw)
        (List.mem_append_left _ he) heq
      exact hki (h.apart k i w n notice hk hi)
  · intro w hw
    obtain ⟨hw, hne⟩ := List.mem_filter.mp hw
    obtain ⟨k, n, hk⟩ := h.closed w hw
    refine ⟨k, n, ?_⟩
    rw [hpushes]
    dsimp only
    rw [if_neg]
    · exact hk
    · rintro rfl
      rw [hi] at hk
      cases hk
      simp at hne

/-- A spool write ends and its event is kept. -/
theorem Balanced.keep (h : Balanced b) {sink : Sink} {i : Nat} {e : SinkEvent} {notice : Bool}
    (hi : b.sink.pushes i = some (.writing e notice)) {next : Option Push}
    (hnew : ∀ w n, next ≠ some (.writing w n)) (htotal : sink.usage = b.sink.usage)
    (hnext : sink.next = b.sink.next)
    (hpushes : sink.pushes = fun k => if k = i then next else b.sink.pushes k) :
    Balanced { b with
      sink := sink
      writing := b.writing.filter fun w => w.sequence != e.sequence
      kept := b.kept ++ [e] } := by
  obtain ⟨hopened, hclosed⟩ := closing h hi hnew hpushes
  have hperm := writing_perm h.distinct (h.opened i e notice hi)
  have hall : (b.writing ++ b.kept).Perm
      (b.writing.filter (fun w => w.sequence != e.sequence) ++ (b.kept ++ [e])) := by
    refine (hperm.append_right b.kept).trans ?_
    rw [List.cons_append, ← List.append_assoc]
    exact (List.perm_append_singleton e _).symm
  refine ⟨?_, fun w hw => h.readable w (hall.mem_iff.mpr hw),
    (hall.map SinkEvent.sequence).nodup_iff.mp h.distinct, ?_, fun k w n hk => (hopened k w n hk).2,
    hclosed, fun k l w n n' hk hl => h.apart k l w n n' (hopened k w n hk).1 (hopened l w n' hl).1⟩
  · dsimp only
    rw [htotal, h.total, (hperm.map SinkEvent.spend).sum_eq, List.map_cons, List.sum_cons,
      List.map_append, List.sum_append, List.map_singleton, List.sum_singleton]
    abel
  · intro w hw
    dsimp only
    rw [hnext]
    exact h.below w (hall.mem_iff.mpr hw)

/-- A spool write ends and its event is dropped. -/
theorem Balanced.lose (h : Balanced b) {sink : Sink} {i : Nat} {e : SinkEvent} {notice : Bool}
    (hi : b.sink.pushes i = some (.writing e notice)) {next : Option Push}
    (hnew : ∀ w n, next ≠ some (.writing w n)) (htotal : sink.usage = b.sink.usage)
    (hnext : sink.next = b.sink.next)
    (hpushes : sink.pushes = fun k => if k = i then next else b.sink.pushes k) :
    Balanced { b with
      sink := sink
      writing := b.writing.filter fun w => w.sequence != e.sequence
      dropped := b.dropped + e.spend } := by
  obtain ⟨hopened, hclosed⟩ := closing h hi hnew hpushes
  have hperm := writing_perm h.distinct (h.opened i e notice hi)
  have hsub : (b.writing.filter (fun w => w.sequence != e.sequence) ++ b.kept).Sublist
      (b.writing ++ b.kept) := List.filter_sublist.append_right _
  refine ⟨?_, fun w hw => h.readable w (hsub.subset hw),
    h.distinct.sublist (hsub.map SinkEvent.sequence), ?_, fun k w n hk => (hopened k w n hk).2,
    hclosed, fun k l w n n' hk hl => h.apart k l w n n' (hopened k w n hk).1 (hopened l w n' hl).1⟩
  · dsimp only
    rw [htotal, h.total, (hperm.map SinkEvent.spend).sum_eq, List.map_cons, List.sum_cons]
    abel
  · intro w hw
    dsimp only
    rw [hnext]
    exact h.below w (hsub.subset hw)

theorem countUsage_total (usage : Usage) (type : EventType) (payload : Json) :
    (countUsage usage type payload).1.total = usage.total + increment usage type payload := by
  rw [countUsage, increment]
  split <;> rfl

/-- A push whose event gets its sequence is billed what it adds to the totals. -/
theorem pushed_spend {usage : Usage} {type : EventType} {payload : Json} (q : Nat)
    (h : type = .metric → payload.Metric) :
    let e : SinkEvent := ⟨q, type, (countUsage usage type payload).2⟩
    e.Readable ∧ e.spend = increment usage type payload := by
  intro e
  by_cases htype : type = .metric
  · have hbills := deltaPayload_bills usage (h htype)
    have hpayload : e.payload = deltaPayload payload (metricDelta usage payload).2.1
        (metricDelta usage payload).2.2 := by
      simp [e, countUsage, htype]
    refine ⟨fun _ => ⟨_, _, hpayload ▸ hbills⟩, ?_⟩
    rw [SinkEvent.spend, if_pos htype, hpayload, increment, if_pos htype, hbills.tokens.2,
      hbills.cost.2]
  · exact ⟨fun hmetric => absurd hmetric htype, by
      rw [SinkEvent.spend, if_neg htype, increment, if_neg htype]⟩

theorem opening_allocate (s : Sink) (i : Nat) (type : EventType) (payload : Json)
    (notice : Bool) :
    (s.allocate i type payload notice).opening i = [⟨s.next, type, payload⟩] := by
  simp [Sink.opening, Sink.allocate, Sink.setPush]

theorem Balanced.allocate (h : Balanced b) {t : Sink} {i : Nat} {type : EventType}
    {payload : Json} {d : Spend}
    (htotal : t.usage.total =
      b.sink.usage.total + (SinkEvent.spend ⟨b.sink.next, type, payload⟩ + d))
    (hnext : t.next = b.sink.next) (hpushes : ∀ k, k ≠ i → t.pushes k = b.sink.pushes k)
    (hread : SinkEvent.Readable ⟨b.sink.next, type, payload⟩)
    (hi : ∀ w n, b.sink.pushes i ≠ some (.writing w n)) (notice : Bool) :
    Balanced { b with
      sink := t.allocate i type payload notice
      writing := b.writing ++ (t.allocate i type payload notice).opening i
      dropped := b.dropped + d } := by
  rw [opening_allocate, hnext]
  refine @Balanced.opens b h _ i _ notice d htotal ?_ rfl hread ?_ hi
  · change t.next + 1 = _
    rw [hnext]
  · funext k
    simp only [Sink.allocate, Sink.setPush, hnext]
    split
    · rfl
    · rename_i hk
      exact hpushes k hk

variable {env : BatchEnv} {attemptId : String} {op : SinkOp}

theorem Balanced.push (h : Balanced b) {i : Nat} (hi : b.sink.pushes i = none) {type : EventType}
    {payload : Json} (hmetric : type = .metric → payload.Metric) :
    Balanced (b.record (.push i type payload) (beginPush b.sink i type payload)) := by
  have htotal := countUsage_total b.sink.usage type payload
  have hnone : ∀ w n, b.sink.pushes i ≠ some (.writing w n) := by simp [hi]
  have hdrop : ∀ t : Sink, t.usage = (countUsage b.sink.usage type payload).1 →
      t.next = b.sink.next → t.pushes = b.sink.pushes → b.sink.refuses type = true →
      Balanced (b.record (.push i type payload) t) := by
    intro t husage hnext hpushes hrefuses
    have hopening : t.opening i = [] := by simp [Sink.opening, hpushes, hi]
    simp only [SpendBook.record, hrefuses, if_true, hopening, List.append_nil]
    exact h.drop (husage ▸ htotal) hnext hpushes
  unfold Node.beginPush
  dsimp only
  split
  · rename_i hfull
    have hrefuses : b.sink.refuses type = true := by rw [Sink.refuses, hfull, Bool.true_or]
    split
    · exact hdrop _ rfl rfl rfl hrefuses
    · simp only [SpendBook.record, hrefuses, if_true]
      refine h.allocate ?_ ?_ (fun k hk => ?_) ?_ hnone true
      · rw [SinkEvent.spend, if_neg (by simp), zero_add]
        exact htotal
      · rfl
      · rfl
      · intro hstatus
        cases hstatus
  · rename_i hroom
    split
    · rename_i hspool
      exact hdrop _ rfl rfl rfl (by rw [Sink.refuses, hspool, Bool.or_true])
    · rename_i hspool
      have hrefuses : b.sink.refuses type = false := by
        rw [Sink.refuses]
        simpa using And.intro hroom hspool
      obtain ⟨hread, hspend⟩ := @pushed_spend b.sink.usage type payload b.sink.next hmetric
      simp only [SpendBook.record, hrefuses, Bool.false_eq_true, if_false]
      rw [← add_zero b.dropped]
      refine h.allocate ?_ ?_ (fun k hk => ?_) hread hnone false
      · rw [hspend, add_zero]
        exact htotal
      · rfl
      · rfl

theorem Balanced.budgetExceeded (h : Balanced b) {i : Nat} (hi : b.sink.pushes i = none)
    (field : String) :
    Balanced (b.record (.budgetExceeded i field)
      (b.sink.allocate i .error (budgetExceededError b.sink.usage field) true)) := by
  have hspend : SinkEvent.spend
      ⟨b.sink.next, .error, budgetExceededError b.sink.usage field⟩ = 0 := by
    rw [SinkEvent.spend, if_neg (by simp)]
  simp only [SpendBook.record]
  rw [← add_zero b.dropped]
  refine h.allocate ?_ rfl (fun k hk => rfl) ?_ (by simp [hi]) true
  · rw [hspend, add_zero, add_zero]
  · intro herror
    cases herror

theorem Balanced.finishWrite (h : Balanced b) {i : Nat} {e : SinkEvent} {notice : Bool}
    (hi : b.sink.pushes i = some (.writing e notice)) (result : WriteResult) :
    Balanced (b.record (.written i result) (finishWrite b.sink i e notice result)) := by
  have hbuffering : ∀ w n, some (Push.buffering e) ≠ some (.writing w n) := by simp
  cases result with
  | ok =>
      simp only [SpendBook.record, hi]
      exact h.keep hi hbuffering rfl rfl rfl
  | failed onDisk =>
      simp only [SpendBook.record, hi]
      exact h.keep hi hbuffering rfl rfl rfl
  | spoolFull =>
      cases notice with
      | true =>
          simp only [SpendBook.record, hi]
          exact h.keep hi hbuffering rfl rfl rfl
      | false =>
          simp only [SpendBook.record, hi, Node.finishWrite, Bool.false_eq_true, if_false]
          split
          · have hopening : (b.sink.setPush i none).opening i = [] := by
              simp [Sink.opening, Sink.setPush]
            rw [hopening, List.append_nil]
            exact h.lose hi (by simp) rfl rfl rfl
          · have hlost : Balanced { b with
                sink := b.sink.setPush i none
                writing := b.writing.filter fun w => w.sequence != e.sequence
                dropped := b.dropped + e.spend } := h.lose hi (by simp) rfl rfl rfl
            have hspend : SinkEvent.spend ⟨b.sink.next, .error, spoolFullError⟩ = 0 := by
              rw [SinkEvent.spend, if_neg (by simp)]
            rw [← add_zero (b.dropped + e.spend)]
            refine hlost.allocate ?_ ?_ (fun k hk => ?_) ?_ (by simp [Sink.setPush]) true
            · change b.sink.usage.total = b.sink.usage.total + (SinkEvent.spend _ + 0)
              rw [add_zero]
              exact (hspend ▸ add_zero _).symm
            · rfl
            · exact (if_neg hk).symm
            · intro herror
              cases herror

theorem balanced_step (h : Balanced b) (hop : op.Metered)
    (hstep : SpendStep env attemptId b op b') : Balanced b' := by
  obtain ⟨sink, hsink, rfl⟩ := Option.map_eq_some_iff.mp hstep
  cases op with
  | push i type payload =>
      simp only [sinkStep] at hsink
      split at hsink
      · cases hsink
      · rename_i hnone
        cases hsink
        exact h.push (by simpa using hnone) hop
  | budgetExceeded i field =>
      simp only [sinkStep] at hsink
      split at hsink
      · cases hsink
      · rename_i hnone
        cases hsink
        exact h.budgetExceeded (by simpa using hnone) field
  | written i result =>
      simp only [sinkStep] at hsink
      split at hsink
      · rename_i e notice hi
        cases hsink
        exact h.finishWrite hi result
      · cases hsink
  | buffered i =>
      simp only [sinkStep] at hsink
      split at hsink
      · rename_i e hi
        cases hsink
        refine h.quiet rfl rfl ?_
        intro k w n
        simp only [Sink.setPush]
        split
        · rename_i hk
          simp [hk, hi]
        · rfl
      · cases hsink
  | take path =>
      simp only [sinkStep] at hsink
      split at hsink
      · cases hsink
      · cases hsink
        exact h.quiet rfl rfl fun _ _ _ => Iff.rfl
  | send outcome now =>
      simp only [sinkStep] at hsink
      split at hsink
      · split at hsink
        · cases hsink
          cases outcome <;> exact h.quiet rfl rfl fun _ _ _ => Iff.rfl
        · cases hsink
      · cases hsink
  | acked ok =>
      simp only [sinkStep] at hsink
      split at hsink
      · obtain ⟨seqs, _, rfl⟩ := Option.map_eq_some_iff.mp hsink
        exact h.quiet rfl rfl fun _ _ _ => Iff.rfl
      · cases hsink
  | reread =>
      simp only [sinkStep] at hsink
      split at hsink
      · cases hsink
        exact h.quiet rfl rfl fun _ _ _ => Iff.rfl
      · cases hsink
  | stop =>
      simp only [sinkStep] at hsink
      split at hsink
      · cases hsink
        exact h.quiet rfl rfl fun _ _ _ => Iff.rfl
      · cases hsink

theorem balanced_initial (cap : Nat) : Balanced { sink := { bufCapBytes := cap } } := by
  constructor <;> simp [Usage.total]

end Balance

/-! ## Sums -/

/-- A sink from its creation on, with metric payloads whose counters are
unsigned numbers, once everything is sent. -/
structure Spent (env : BatchEnv) (attemptId : String) (b : SpendBook) : Prop where
  reached : ∃ cap ops, Runs (SpendStep env attemptId) { sink := { bufCapBytes := cap } } ops b ∧
    ∀ op ∈ ops, op.Metered
  settled : b.sink.Settled

section Agreement

variable {env : BatchEnv} {attemptId : String} {b : SpendBook}

theorem runs_balanced {b₀ : SpendBook} {ops : List SinkOp} (h : Runs (SpendStep env attemptId) b₀ ops b)
    (hops : ∀ op ∈ ops, op.Metered) (h₀ : Balanced b₀) : Balanced b := by
  induction h with
  | refl => exact h₀
  | next hstep _ ih =>
      exact ih (fun op hop => hops op (List.mem_cons_of_mem _ hop))
        (balanced_step h₀ (hops _ List.mem_cons_self) hstep)

/-- What a row of a readable event prints. -/
theorem records_count {r : TaskEvent} {e : SinkEvent} (h : Records r e) (hread : e.Readable) :
    (PrintsCount "tokens" r ∧ PrintsCount "cost_cents" r) ∧
      (printedCount "tokens" r, printedCount "cost_cents" r) = e.spend := by
  obtain ⟨-, htype, hpayload⟩ := h
  rw [PrintsCount, PrintsCount, printedCount, printedCount, SinkEvent.spend, htype, hpayload,
    String.toList_ofList]
  by_cases hmetric : e.type = .metric
  · obtain ⟨tokens, cost, hbills⟩ := hread hmetric
    have hplain : PlainLabel "tokens".toList ∧ PlainLabel "cost_cents".toList := by
      constructor <;> simp [PlainLabel, escapeChar]
    have hcount : ∀ key, PlainLabel key.toList → e.payload.Counts key →
        (jsonExtract e.payload.text key = none ∨
          ∃ n : Nat, jsonExtract e.payload.text key = some n.repr.toList) ∧
        ((jsonExtract e.payload.text key).map (Nat.ofDigitChars 10 · 0)).getD 0 =
          e.payload.count key := by
      intro key hkey hcounts
      rw [jsonExtract_text hbills.printed hkey, Json.count]
      rcases hcounts with hnone | ⟨n, hn⟩
      · rw [hnone]
        exact ⟨.inl rfl, rfl⟩
      · rw [hn]
        refine ⟨.inr ⟨n, rfl⟩, ?_⟩
        change Nat.ofDigitChars 10 n.repr.toList 0 = n
        rw [Nat.toList_repr, Nat.ofDigitChars_ten_toDigits]
    obtain ⟨htokens, htokensCount⟩ := hcount _ hplain.1 hbills.tokens.1
    obtain ⟨hcost, hcostCount⟩ := hcount _ hplain.2 hbills.cost.1
    rw [if_pos hmetric, if_pos hmetric, if_pos hmetric, htokensCount, hcostCount]
    exact ⟨⟨fun _ => htokens, fun _ => hcost⟩, rfl⟩
  · rw [if_neg hmetric, if_neg hmetric, if_neg hmetric]
    exact ⟨⟨fun h => absurd h hmetric, fun h => absurd h hmetric⟩, rfl⟩

theorem sum_pair {α : Type} (f g : α → Nat) (xs : List α) :
    (xs.map fun x => (f x, g x)).sum = ((xs.map f).sum, (xs.map g).sum) := by
  induction xs with
  | nil => rfl
  | cons x xs ih => simp [ih]

/-- Each kept event has its row once everything is sent. -/
theorem rows_perm {kept : List SinkEvent} {s : Sink} (h : Delivers attemptId kept s)
    (hsettled : s.Settled) (hdistinct : (kept.map SinkEvent.sequence).Nodup)
    (hread : ∀ e ∈ kept, e.Readable) :
    (s.rows.map fun r => (printedCount "tokens" r, printedCount "cost_cents" r)).sum =
      (kept.map SinkEvent.spend).sum := by
  have hstored : ∀ e ∈ kept, s.Stored e.sequence := by
    intro e he
    rcases h.owes e he with (⟨i, hi⟩ | hin | ⟨sender, hsender, -⟩) | hs
    · rw [hsettled.pushes i] at hi
      cases hi
    · rw [hsettled.buf] at hin
      cases hin
    · rw [hsettled.sender] at hsender
      cases hsender
    · exact hs
  let ofRow (r : TaskEvent) : Int × Spend :=
    (r.sequence, printedCount "tokens" r, printedCount "cost_cents" r)
  let ofEvent (e : SinkEvent) : Int × Spend := (e.sequence, e.spend)
  have hsame : ∀ r e, e ∈ kept → Records r e → ofRow r = ofEvent e := by
    intro r e he hrecords
    exact Prod.ext hrecords.1 (records_count hrecords (hread e he)).2
  have hrows : (s.rows.map ofRow).Nodup := by
    apply List.Nodup.of_map Prod.fst
    rw [List.map_map]
    exact h.once
  have hkept : (kept.map ofEvent).Nodup := by
    apply List.Nodup.of_map Prod.fst
    have hcast : (kept.map ofEvent).map Prod.fst = (kept.map SinkEvent.sequence).map Nat.cast := by
      simp [ofEvent]
    rw [hcast]
    exact hdistinct.map fun _ _ heq => Int.ofNat.inj heq
  have hperm : (s.rows.map ofRow).Perm (kept.map ofEvent) := by
    rw [List.perm_ext_iff_of_nodup hrows hkept]
    intro content
    constructor
    · intro hin
      obtain ⟨r, hr, rfl⟩ := List.mem_map.mp hin
      obtain ⟨-, e, he, hrecords⟩ := h.rows r hr
      rw [hsame r e he hrecords]
      exact List.mem_map_of_mem he
    · intro hin
      obtain ⟨e, he, rfl⟩ := List.mem_map.mp hin
      obtain ⟨r, hr, hsequence⟩ := hstored e he
      obtain ⟨-, e', he', hrecords⟩ := h.rows r hr
      have heq : e'.sequence = e.sequence :=
        Int.ofNat.inj (hrecords.1.symm.trans hsequence)
      obtain rfl := List.inj_on_of_nodup_map hdistinct he' he heq
      rw [← hsame r e' he' hrecords]
      exact List.mem_map_of_mem hr
  have hsum := (hperm.map Prod.snd).sum_eq
  rwa [List.map_map, List.map_map] at hsum

/-- The rows of a sink that has sent everything are billed what its totals say,
but for what was dropped. -/
theorem spent_rows (h : Spent env attemptId b) :
    (∀ r ∈ b.sink.rows, PrintsCount "tokens" r ∧ PrintsCount "cost_cents" r) ∧
      b.sink.usage.total =
        (b.sink.rows.map fun r => (printedCount "tokens" r, printedCount "cost_cents" r)).sum +
          b.dropped := by
  obtain ⟨cap, ops, hrun, hops⟩ := h.reached
  have hbalanced := runs_balanced hrun hops (balanced_initial cap)
  have hdelivers : Delivers attemptId b.kept b.sink :=
    hrun.invariant (fun b => Delivers attemptId b.kept b.sink) delivers_step
      (delivers_initial attemptId cap)
  have hwriting : b.writing = [] := by
    apply List.eq_nil_iff_forall_not_mem.mpr
    intro e he
    obtain ⟨i, notice, hi⟩ := hbalanced.closed e he
    rw [h.settled.pushes i] at hi
    cases hi
  have hread : ∀ e ∈ b.kept, e.Readable := fun e he =>
    hbalanced.readable e (List.mem_append_right _ he)
  have hdistinct : (b.kept.map SinkEvent.sequence).Nodup :=
    hbalanced.distinct.sublist ((List.sublist_append_right _ _).map SinkEvent.sequence)
  constructor
  · intro r hr
    obtain ⟨-, e, he, hrecords⟩ := hdelivers.rows r hr
    exact (records_count hrecords (hread e he)).1
  · rw [rows_perm hdelivers h.settled hdistinct hread, hbalanced.total, hwriting, List.map_nil,
      List.sum_nil, zero_add]

theorem spent_sum {books : List SpendBook}
    (hbooks : ∀ b ∈ books, ∃ attemptId, Spent env attemptId b) :
    (books.map fun b => b.sink.usage.total).sum =
      ((books.flatMap fun b => b.sink.rows).map fun r =>
        (printedCount "tokens" r, printedCount "cost_cents" r)).sum +
        (books.map SpendBook.dropped).sum := by
  induction books with
  | nil => rfl
  | cons b books ih =>
      obtain ⟨attemptId, hspent⟩ := hbooks b List.mem_cons_self
      rw [List.map_cons, List.sum_cons, ih fun b hb => hbooks b (List.mem_cons_of_mem _ hb),
        (spent_rows hspent).2, List.flatMap_cons, List.map_append, List.sum_append, List.map_cons,
        List.sum_cons]
      abel

theorem beginPush_usage (s : Sink) (i : Nat) (type : EventType) (payload : Json) :
    (beginPush s i type payload).usage = (countUsage s.usage type payload).1 := by
  unfold beginPush
  dsimp only
  split
  · split <;> rfl
  · split <;> rfl

theorem usage_step {s s' : Sink} {op : SinkOp} (h : SinkStep env attemptId s op s') :
    s'.usage = s.usage ∨
      ∃ i type payload, op = .push i type payload ∧
        s'.usage = (countUsage s.usage type payload).1 := by
  rw [SinkStep] at h
  cases op with
  | push i type payload =>
      simp only [sinkStep] at h
      split at h
      · cases h
      · cases h
        exact .inr ⟨i, type, payload, rfl, beginPush_usage s i type payload⟩
  | budgetExceeded i field =>
      simp only [sinkStep] at h
      split at h
      · cases h
      · cases h
        exact .inl rfl
  | written i result =>
      simp only [sinkStep] at h
      split at h
      · rename_i e notice hi
        cases h
        cases result with
        | ok => exact .inl rfl
        | failed onDisk => exact .inl rfl
        | spoolFull =>
            simp only [finishWrite]
            split
            · exact .inl rfl
            · split <;> exact .inl rfl
      · cases h
  | buffered i =>
      simp only [sinkStep] at h
      split at h
      · cases h
        exact .inl rfl
      · cases h
  | take path =>
      simp only [sinkStep] at h
      split at h
      · cases h
      · cases h
        exact .inl rfl
  | send outcome now =>
      simp only [sinkStep] at h
      split at h
      · split at h
        · cases h
          cases outcome <;> exact .inl rfl
        · cases h
      · cases h
  | acked ok =>
      simp only [sinkStep] at h
      split at h
      · obtain ⟨seqs, _, rfl⟩ := Option.map_eq_some_iff.mp h
        exact .inl rfl
      · cases h
  | reread =>
      simp only [sinkStep] at h
      split at h
      · cases h
        exact .inl rfl
      · cases h
  | stop =>
      simp only [sinkStep] at h
      split at h
      · cases h
        exact .inl rfl
      · cases h

theorem total_le_step {s s' : Sink} {op : SinkOp} (h : SinkStep env attemptId s op s') :
    s.usage.tokensTotal ≤ s'.usage.tokensTotal ∧ s.usage.costTotal ≤ s'.usage.costTotal := by
  rcases usage_step h with husage | ⟨i, type, payload, -, husage⟩
  · rw [husage]
    exact ⟨le_refl _, le_refl _⟩
  · have htotal := countUsage_total s.usage type payload
    have htokens := congrArg Prod.fst htotal
    have hcost := congrArg Prod.snd htotal
    rw [husage]
    exact ⟨Nat.le.intro htokens.symm, Nat.le.intro hcost.symm⟩

end Agreement

/-! ## A context gauge, and a full buffer -/

def gaugePayload (tokens : Nat) : Json :=
  .object [("tokens", .unsigned tokens), ("tokens_gauge", .bool true)]

theorem gaugePayload_metric (tokens : Nat) : (gaugePayload tokens).Metric :=
  ⟨rfl, by simp [Json.DistinctKeys, gaugePayload], .inr ⟨tokens, rfl⟩, .inl rfl⟩

/-- Both readings of the context are stored as increments. -/
def gaugeOps : List SinkOp :=
  [.push 0 .metric (gaugePayload 100), .written 0 .ok, .buffered 0,
    .push 0 .metric (gaugePayload 120), .written 0 .ok, .buffered 0,
    .take .flush, .send .accepted "t", .acked true]

end AgentGrid.Node
