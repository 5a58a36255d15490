import AgentGrid.Store.Batches

/-!
# Batches under a larger limit

A larger limit takes a longer beginning of the same list of eligible tasks, unless
the forecast, which counts free slots and not waiting tasks, closes the pressure
gate.
-/

namespace AgentGrid.Store

open AgentGrid.Foundation AgentGrid.Foundation.Ledger

def AssignInput.limited (input : AssignInput) (limit : Nat) : AssignInput :=
  { input with limit := limit }

theorem AssignInput.New.limited {input : AssignInput} {db : Database} (h : input.New db)
    (limit : Nat) : (input.limited limit).New db :=
  ⟨h.distinct, h.unused⟩

section Monotone

variable {env : SchedulerEnv} {db : Database} {nodeId : String} {drained : Bool}
  {input : AssignInput}

theorem batchOf_open (hdb : db.Sound) (hnumbered : db.Numbered) (hnew : input.New db) {n : Node}
    (h : HostOpen env db nodeId drained n) {limit : Nat} (hlimit : limit ≠ 0)
    (hpressed : ¬Pressed env n limit) :
    batchOf env db nodeId drained (input.limited limit) =
      assignmentsFrom db input 0 (chosen env db nodeId n limit) := by
  have hbatch := tryAssignBatch_batch hdb hnumbered (hnew.limited limit) h hlimit hpressed
  have hsame : ∀ (ts : List Task) (index : Nat),
      assignmentsFrom db (input.limited limit) index ts = assignmentsFrom db input index ts := by
    intro ts
    induction ts with
    | nil => exact fun _ => rfl
    | cons t rest ih => exact fun index => congrArg (_ :: ·) (ih (index + 1))
  rw [batchOf, hbatch]
  exact hsame _ 0

theorem batchOf_shut {limit : Nat}
    (h : ∀ n, HostOpen env db nodeId drained n → limit ≠ 0 → Pressed env n limit) :
    batchOf env db nodeId drained (input.limited limit) = [] := by
  rw [batchOf, tryAssignBatch_shut h]

theorem batchOf_pressed {n : Node} (h : HostOpen env db nodeId drained n) {limit : Nat}
    (hpressed : Pressed env n limit) :
    batchOf env db nodeId drained (input.limited limit) = [] :=
  batchOf_shut fun _ h' _ => h.unique h' ▸ hpressed

theorem chosen_initial {n : Node} {limit limit' : Nat} (h : limit ≤ limit') :
    chosen env db nodeId n limit <+: chosen env db nodeId n limit' := by
  have hcap : batchCap n limit ≤ batchCap n limit' := by
    unfold batchCap
    omega
  exact List.take_prefix_take_left hcap

theorem assignmentsFrom_eq_nil {ts : List Task} {index : Nat} :
    assignmentsFrom db input index ts = [] ↔ ts = [] := by
  cases ts with
  | nil => exact ⟨fun _ => rfl, fun _ => rfl⟩
  | cons t rest => simp [assignmentsFrom]

theorem limit_monotone_iff {db₀ : Database} {ops : List Op} (hfresh : db₀.Fresh)
    (hrun : Runs Step db₀ ops db) (env : SchedulerEnv) (nodeId : String) (drained : Bool)
    (hnew : input.New db) {k k' : Nat} (hk : 1 ≤ k) (hkk' : k ≤ k') :
    (batchOf env db nodeId drained (input.limited k) ≠ [] →
      (batchOf env db nodeId drained (input.limited k)).length ≤
          (batchOf env db nodeId drained (input.limited k')).length ∧
        batchOf env db nodeId drained (input.limited k) <+:
          batchOf env db nodeId drained (input.limited k')) ↔
    ∀ n, HostOpen env db nodeId drained n → ¬Pressed env n k →
      chosen env db nodeId n k ≠ [] → ¬Pressed env n k' := by
  have hdb := sound_run hrun (sound_of_fresh hfresh)
  have hnumbered := numbered_run hfresh hrun
  have hk0 : k ≠ 0 := by omega
  have hk0' : k' ≠ 0 := by omega
  constructor
  · intro hmono n hopen hpass hsome hpressed
    have hfirst := batchOf_open hdb hnumbered hnew hopen hk0 hpass
    have hne : batchOf env db nodeId drained (input.limited k) ≠ [] := by
      rw [hfirst]
      exact mt assignmentsFrom_eq_nil.mp hsome
    have hprefix := (hmono hne).2
    rw [batchOf_pressed hopen hpressed] at hprefix
    exact hne (List.prefix_nil.mp hprefix)
  · intro hgate hne
    by_cases hshut : ∀ n, HostOpen env db nodeId drained n → k ≠ 0 → Pressed env n k
    · exact absurd (batchOf_shut hshut) hne
    simp only [not_forall, exists_prop] at hshut
    obtain ⟨n, hopen, _, hpass⟩ := hshut
    have hfirst := batchOf_open hdb hnumbered hnew hopen hk0 hpass
    have hsome : chosen env db nodeId n k ≠ [] := by
      rw [hfirst] at hne
      exact mt assignmentsFrom_eq_nil.mpr hne
    have hsecond := batchOf_open hdb hnumbered hnew hopen hk0' (hgate n hopen hpass hsome)
    have hinitial : batchOf env db nodeId drained (input.limited k) <+:
        batchOf env db nodeId drained (input.limited k') := by
      rw [hfirst, hsecond]
      exact assignmentsFrom_prefix db input (chosen_initial hkk') 0
    exact ⟨hinitial.length_le, hinitial⟩

end Monotone

section Evening

/-! One task waits for a node with five slots. -/

def evening : List Op :=
  [.registerOrTouchNode ⟨"n1", "n1", ["claude"], ["*"], 5⟩ morning,
   .createTask { prompt := "fix it", repository := "app", adapter := "claude" } "t1" morning]

theorem freshIds_new : freshIds.New (evening.foldl step {}) where
  distinct := freshIds_distinct
  unused := by
    intro i a ha
    have hnone : (evening.foldl step {}).attempts = [] := by decide
    rw [hnone] at ha
    cases ha

theorem limit_monotone_evening :
    1 ≤ 1 ∧ 1 ≤ 4 ∧
    ((batchOf { freeBytes := 2 ^ 40 } (evening.foldl step {}) "n1" false (freshIds.limited 1) ≠ [] →
      (batchOf { freeBytes := 2 ^ 40 } (evening.foldl step {}) "n1" false
          (freshIds.limited 1)).length ≤
          (batchOf { freeBytes := 2 ^ 40 } (evening.foldl step {}) "n1" false
            (freshIds.limited 4)).length ∧
        batchOf { freeBytes := 2 ^ 40 } (evening.foldl step {}) "n1" false (freshIds.limited 1) <+:
          batchOf { freeBytes := 2 ^ 40 } (evening.foldl step {}) "n1" false
            (freshIds.limited 4)) ↔
    ∀ n, HostOpen { freeBytes := 2 ^ 40 } (evening.foldl step {}) "n1" false n →
      ¬Pressed { freeBytes := 2 ^ 40 } n 1 →
      chosen { freeBytes := 2 ^ 40 } (evening.foldl step {}) "n1" n 1 ≠ [] →
      ¬Pressed { freeBytes := 2 ^ 40 } n 4) :=
  ⟨le_rfl, by decide, limit_monotone_iff ⟨rfl, rfl, rfl⟩ (Runs.foldl step {} evening) _ _ _
    freshIds_new le_rfl (by decide)⟩

/-- With the limit five the forecast is beyond the default ceiling, and the one task waits. -/
theorem larger_limit_starves :
    (batchOf { freeBytes := 2 ^ 40 } (evening.foldl step {}) "n1" false
      (freshIds.limited 1)).length = 1 ∧
    batchOf { freeBytes := 2 ^ 40 } (evening.foldl step {}) "n1" false (freshIds.limited 5) = [] :=
  ⟨by decide, List.length_eq_zero_iff.mp (by decide)⟩

end Evening

end AgentGrid.Store
