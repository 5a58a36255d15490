import Mathlib.Data.List.Dedup
import AgentGrid.Foundation.Gaps
import AgentGrid.Store.Tables

/-!
# The contiguous prefix of an event stream

The acknowledgement of a batch carries the largest `N` such that the events
`1..=N` of the attempt are all stored.  The query numbers the distinct sequences
in order and looks for the first that is not its own number.
-/

namespace AgentGrid.Store

open AgentGrid.Foundation

/-- `SELECT DISTINCT sequence FROM task_events WHERE attempt_id = ?`, in order. -/
def distinctSequences (db : Database) (attemptId : String) : List Int :=
  (((db.taskEvents.filter fun e => e.attemptId == attemptId).map
    TaskEvent.sequence).dedup).insertionSort (· ≤ ·)

/-- `ROW_NUMBER() OVER (ORDER BY sequence)`. -/
def numberedSequences (db : Database) (attemptId : String) : List (Int × Nat) :=
  (distinctSequences db attemptId).zipIdx 1

def contiguousEventPrefix (db : Database) (attemptId : String) : Option Int :=
  let numbered := numberedSequences db attemptId
  if (distinctSequences db attemptId).length = 0 then none
  else
    match ((numbered.filter fun row => row.1 ≠ (row.2 : Int)).map Prod.snd).min? with
    | some rn => some (rn - 1)
    | none => (numbered.map Prod.fst).max?

/-- What the acknowledgement of a batch reports. -/
def highestContiguousSequence (db : Database) (attemptId : String) : Int :=
  (contiguousEventPrefix db attemptId).getD 0

/-- The event is stored. -/
def Stored (db : Database) (attemptId : String) (sequence : Int) : Prop :=
  ∃ e ∈ db.taskEvents, e.attemptId = attemptId ∧ e.sequence = sequence

/-- `n` is a number such that all events from the first to it are stored. -/
def FullTo (db : Database) (attemptId : String) (n : Int) : Prop :=
  0 ≤ n ∧ ∀ k, 1 ≤ k → k ≤ n → Stored db attemptId k

section Prefix

variable {db : Database} {attemptId : String}

theorem mem_distinctSequences {s : Int} :
    s ∈ distinctSequences db attemptId ↔ Stored db attemptId s := by
  rw [distinctSequences, (List.perm_insertionSort _ _).mem_iff, List.mem_dedup]
  simp [Stored, and_assoc]

theorem distinctSequences_lt (db : Database) (attemptId : String) :
    (distinctSequences db attemptId).Pairwise (· < ·) := by
  have hle := List.pairwise_insertionSort (· ≤ ·) (((db.taskEvents.filter fun e =>
    e.attemptId == attemptId).map TaskEvent.sequence).dedup)
  have hne : (distinctSequences db attemptId).Nodup :=
    (List.perm_insertionSort _ _).nodup_iff.mpr (List.nodup_dedup _)
  exact (hle.and hne).imp fun h => lt_of_le_of_ne h.1 h.2

/-- The greatest number up to which nothing is missing. -/
theorem isGreatest_fullTo {n : Int} (hn : FullTo db attemptId n)
    (hgap : ¬Stored db attemptId (n + 1)) : IsGreatest {m | FullTo db attemptId m} n := by
  refine ⟨hn, fun m hm => ?_⟩
  by_contra hlt
  have := hn.1
  exact hgap (hm.2 (n + 1) (by omega) (by omega))

theorem highest_of_gap {rn : Nat} (h : firstGap 1 (distinctSequences db attemptId) = some rn) :
    highestContiguousSequence db attemptId = rn - 1 := by
  have hsome : (distinctSequences db attemptId).length ≠ 0 := by
    intro hnone
    rw [List.length_eq_zero_iff.mp hnone] at h
    cases h
  unfold highestContiguousSequence contiguousEventPrefix
  rw [← min_gap] at h
  simp only [if_neg hsome, numberedSequences, h, Option.getD_some]

/-- Without a gap the answer is the number of the sequences. -/
theorem highest_of_no_gap (h : firstGap 1 (distinctSequences db attemptId) = none) :
    highestContiguousSequence db attemptId = (distinctSequences db attemptId).length := by
  unfold highestContiguousSequence contiguousEventPrefix
  by_cases hnone : (distinctSequences db attemptId).length = 0
  · simp only [hnone]
    rfl
  · have hmem := @firstGap_none 1 (distinctSequences db attemptId) h
    rw [← min_gap] at h
    simp only [if_neg hnone, numberedSequences, h]
    rw [List.zipIdx_map_fst]
    have hmax : (distinctSequences db attemptId).max? =
        some ((distinctSequences db attemptId).length : Int) := by
      rw [List.max?_eq_some_iff]
      refine ⟨hmem.mpr (by omega), fun b hb => ?_⟩
      have := hmem.mp hb
      omega
    rw [hmax, Option.getD_some]

theorem highest_isGreatest (hpos : ∀ s, Stored db attemptId s → 1 ≤ s) :
    IsGreatest {n | FullTo db attemptId n} (highestContiguousSequence db attemptId) := by
  have hone : ∀ x ∈ distinctSequences db attemptId, ((1 : Nat) : Int) ≤ x :=
    fun x hx => hpos x (mem_distinctSequences.mp hx)
  cases h : firstGap 1 (distinctSequences db attemptId) with
  | none =>
      have hmem := @firstGap_none 1 (distinctSequences db attemptId) h
      rw [highest_of_no_gap h]
      refine isGreatest_fullTo ⟨by omega, fun k hk hk' => ?_⟩ fun hstored => ?_
      · exact mem_distinctSequences.mp (hmem.mpr (by omega))
      · have := hmem.mp (mem_distinctSequences.mpr hstored)
        omega
  | some rn =>
      obtain ⟨hle, hin, hout⟩ := firstGap_some (distinctSequences_lt db attemptId) hone h
      rw [highest_of_gap h]
      refine isGreatest_fullTo ⟨by omega, fun k hk hk' => ?_⟩ fun hstored => ?_
      · have := hin k.toNat (by omega) (by omega)
        rw [Int.toNat_of_nonneg (by omega)] at this
        exact mem_distinctSequences.mp this
      · rw [Int.sub_add_cancel] at hstored
        exact hout (mem_distinctSequences.mpr hstored)

/-- The number zero pushes every sequence behind its number. -/
theorem highest_of_zero (hnonneg : ∀ s, Stored db attemptId s → 0 ≤ s)
    (hzero : Stored db attemptId 0) : highestContiguousSequence db attemptId = 0 := by
  have hmem := mem_distinctSequences.mpr hzero
  have hlt := distinctSequences_lt db attemptId
  have hfirst : ∃ rest, distinctSequences db attemptId = 0 :: rest := by
    cases hs : distinctSequences db attemptId with
    | nil =>
        rw [hs] at hmem
        cases hmem
    | cons x rest =>
        rw [hs] at hmem hlt
        have hx := hnonneg x (mem_distinctSequences.mp (by rw [hs]; exact List.mem_cons_self))
        rcases List.mem_cons.mp hmem with rfl | hrest
        · exact ⟨rest, rfl⟩
        · have := (List.pairwise_cons.mp hlt).1 0 hrest
          omega
  obtain ⟨rest, hrest⟩ := hfirst
  have hgap : firstGap 1 (distinctSequences db attemptId) = some 1 := by
    rw [hrest, firstGap, if_neg (by decide)]
  rw [highest_of_gap hgap]
  rfl

end Prefix

/-- For stored sequences from zero on, the reported number is the largest up to which nothing
is missing exactly when the sequence zero is not stored or the first is not. -/
theorem contiguous_prefix_iff {db : Database} {attemptId : String}
    (hnonneg : ∀ s, Stored db attemptId s → 0 ≤ s) :
    IsGreatest {n | FullTo db attemptId n} (highestContiguousSequence db attemptId) ↔
      ¬Stored db attemptId 0 ∨ ¬Stored db attemptId 1 := by
  constructor
  · intro hgreatest
    by_contra hboth
    rw [not_or, not_not, not_not] at hboth
    rw [highest_of_zero hnonneg hboth.1] at hgreatest
    have hone : FullTo db attemptId 1 := by
      refine ⟨by omega, fun k hk hk' => ?_⟩
      rw [show k = 1 by omega]
      exact hboth.2
    have : (1 : Int) ≤ 0 := hgreatest.2 hone
    omega
  · intro hwhen
    by_cases hzero : Stored db attemptId 0
    · have hone := hwhen.resolve_left (not_not.mpr hzero)
      rw [highest_of_zero hnonneg hzero]
      exact isGreatest_fullTo ⟨le_rfl, fun k hk hk' => by omega⟩ hone
    · refine highest_isGreatest fun s hs => ?_
      have := hnonneg s hs
      by_cases hs0 : s = 0
      · exact absurd (hs0 ▸ hs) hzero
      · omega

/-- Events of one attempt under the given sequences. -/
def storing (sequences : List Int) : Database where
  taskEvents := sequences.map fun s => ⟨"a1", s, .stdout, "\x7b\x7d", "", s⟩

theorem contiguous_prefix_storing :
    IsGreatest {n | FullTo (storing [2, 1, 4]) "a1" n}
        (highestContiguousSequence (storing [2, 1, 4]) "a1") ↔
      ¬Stored (storing [2, 1, 4]) "a1" 0 ∨ ¬Stored (storing [2, 1, 4]) "a1" 1 := by
  refine contiguous_prefix_iff ?_
  rintro s ⟨e, he, _, rfl⟩
  revert e
  decide

/-- With the sequences 0, 1 and 2 the acknowledgement reports nothing. -/
theorem zero_stalls :
    highestContiguousSequence (storing [0, 1, 2]) "a1" = 0 ∧
      FullTo (storing [0, 1, 2]) "a1" 2 := by
  refine ⟨by decide, by decide, fun k hk hk' => ?_⟩
  have hk : k = 1 ∨ k = 2 := by omega
  rcases hk with rfl | rfl
  · exact ⟨_, List.mem_cons_of_mem _ List.mem_cons_self, rfl, rfl⟩
  · exact ⟨_, List.mem_cons_of_mem _ (List.mem_cons_of_mem _ List.mem_cons_self), rfl, rfl⟩

end AgentGrid.Store
