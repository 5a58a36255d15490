import Mathlib.Data.List.Sort
import Mathlib.Data.List.Count

/-!
# Pages of a keyed table

The page of a query is the first rows in the order of their keys.  With distinct
keys a row is on the page exactly if fewer rows than the page holds come before it,
and a reader that goes on after the last row of each full page reads every row once.
-/

namespace AgentGrid.Foundation

variable {ρ κ : Type} [LinearOrder κ] {key : ρ → κ}

def page (key : ρ → κ) (size : Nat) (rows : List ρ) : List ρ :=
  (rows.insertionSort fun row other => key row ≤ key other).take size

/-- The number of rows before a row. -/
def rank (key : ρ → κ) (rows : List ρ) (row : ρ) : Nat :=
  rows.countP fun other => key other < key row

private theorem rank_cons (first : ρ) (rest : List ρ) (row : ρ) :
    rank key (first :: rest) row =
      rank key rest row + if key first < key row then 1 else 0 := by
  simp [rank, List.countP_cons]

private theorem rank_first {first : ρ} {rest : List ρ}
    (h : ∀ row ∈ rest, key first < key row) : rank key (first :: rest) first = 0 := by
  rw [rank, List.countP_eq_zero]
  intro row hrow
  rcases List.mem_cons.mp hrow with rfl | hrest
  · simp
  · simpa using (h row hrest).le

/-- In a list in strict order of the keys a row stands at its rank. -/
theorem mem_take_iff_rank {rows : List ρ} (h : rows.Pairwise fun row other => key row < key other)
    {size : Nat} {row : ρ} : row ∈ rows.take size ↔ row ∈ rows ∧ rank key rows row < size := by
  induction rows generalizing size with
  | nil => simp
  | cons first rest ih =>
      obtain ⟨hfirst, hrest⟩ := List.pairwise_cons.mp h
      cases size with
      | zero => simp
      | succ size =>
          rw [List.take_succ_cons, List.mem_cons, List.mem_cons, ih hrest]
          by_cases hrow : row = first
          · subst hrow
            simp [rank_first hfirst]
          · simp only [hrow, false_or]
            apply and_congr_right
            intro hmem
            rw [rank_cons, if_pos (hfirst row hmem)]
            omega

/-- All rows in the order of their keys. -/
def listing (key : ρ → κ) (rows : List ρ) : List ρ :=
  rows.insertionSort fun row other => key row ≤ key other

theorem listing_perm (rows : List ρ) : (listing key rows).Perm rows :=
  List.perm_insertionSort _ _

/-- With distinct keys the order is strict. -/
theorem listing_strict {rows : List ρ} (hkeys : (rows.map key).Nodup) :
    (listing key rows).Pairwise fun row other => key row < key other := by
  have hle := List.pairwise_insertionSort (fun row other : ρ => key row ≤ key other) rows
  have hne : (listing key rows).Pairwise fun row other => key row ≠ key other :=
    List.pairwise_map.mp (((listing_perm rows).map key).nodup_iff.mpr hkeys)
  exact hle.imp₂ (fun _ _ hrow hother => lt_of_le_of_ne hrow hother) hne

theorem mem_page_iff {rows : List ρ} (hkeys : (rows.map key).Nodup) {size : Nat} {row : ρ} :
    row ∈ page key size rows ↔ row ∈ rows ∧ rank key rows row < size := by
  have hperm : (listing key rows).Perm rows := listing_perm rows
  have htake : page key size rows = (listing key rows).take size := rfl
  rw [htake, mem_take_iff_rank (listing_strict hkeys), hperm.mem_iff, rank, rank,
    hperm.countP_eq]

theorem mem_of_mem_page {rows : List ρ} {size : Nat} {row : ρ}
    (h : row ∈ page key size rows) : row ∈ rows :=
  (List.perm_insertionSort _ _).mem_iff.mp (List.mem_of_mem_take h)

/-! ## Following the pages -/

/-- A strictly ordered list with the right rows is the listing. -/
theorem listing_eq_of_perm {rows sorted : List ρ} (hperm : sorted.Perm rows)
    (hsorted : sorted.Pairwise fun row other => key row < key other) :
    listing key rows = sorted := by
  have hkeys : (rows.map key).Nodup :=
    (hperm.map key).nodup_iff.mp (List.pairwise_map.mpr (hsorted.imp fun h => h.ne))
  refine ((listing_perm rows).trans hperm.symm).eq_of_pairwise ?_ (listing_strict hkeys) hsorted
  intro row other _ _ hlt hgt
  exact absurd hgt hlt.asymm

/-- The rows after a cursor, or all of them. -/
def beyond (key : ρ → κ) (cursor : Option κ) (rows : List ρ) : List ρ :=
  rows.filter fun row => cursor.all fun c => decide (c < key row)

/-- After the last row of a front stands what follows it. -/
theorem beyond_getLast {front rest : List ρ}
    (h : (front ++ rest).Pairwise fun row other => key row < key other) :
    beyond key (front.getLast?.map key) (front ++ rest) = rest := by
  rcases List.eq_nil_or_concat front with rfl | ⟨front, last, rfl⟩
  · exact List.filter_eq_self.mpr fun _ _ => rfl
  · rw [List.concat_eq_append] at h ⊢
    obtain ⟨hfront, -, hcross⟩ := List.pairwise_append.mp h
    obtain ⟨-, -, hlast⟩ := List.pairwise_append.mp hfront
    rw [List.getLast?_concat, beyond, List.filter_append]
    have hnone : (front ++ [last]).filter
        (fun row => (some (key last)).all fun c => decide (c < key row)) = [] := by
      refine List.filter_eq_nil_iff.mpr fun row hrow => ?_
      rcases List.mem_append.mp hrow with hrow | hrow
      · simpa using (hlast row hrow last (List.mem_singleton_self last)).le
      · simp [List.mem_singleton.mp hrow]
    have hall : rest.filter
        (fun row => (some (key last)).all fun c => decide (c < key row)) = rest := by
      refine List.filter_eq_self.mpr fun row hrow => ?_
      simpa using hcross last (List.mem_append_right _ (List.mem_singleton_self last)) row hrow
    rw [Option.map_some, hnone, hall, List.nil_append]

theorem page_beyond {rows front rest : List ρ} (hkeys : (rows.map key).Nodup)
    (hsplit : listing key rows = front ++ rest) (size : Nat) :
    page key size (beyond key (front.getLast?.map key) rows) = rest.take size := by
  have hstrict := listing_strict hkeys
  rw [hsplit] at hstrict
  have hperm : rest.Perm (beyond key (front.getLast?.map key) rows) := by
    have hlisting : (listing key rows).Perm rows := listing_perm rows
    have hfilter := hlisting.filter
      fun row => (front.getLast?.map key).all fun c => decide (c < key row)
    rw [hsplit] at hfilter
    exact beyond_getLast hstrict ▸ hfilter
  have hrest := (List.pairwise_append.mp hstrict).2.1
  exact congrArg (List.take size) (listing_eq_of_perm hperm hrest)

section Follow

variable {γ : Type}

/-- A reader that asks again with each cursor it is given, with its requests numbered. -/
def follow (answer : Nat → Option γ → List ρ × Option γ) :
    Nat → Nat → Option γ → Option (List ρ)
  | 0, _, _ => none
  | fuel + 1, i, cursor =>
      match answer i cursor with
      | (items, none) => some items
      | (items, some next) => (follow answer fuel (i + 1) (some next)).map (items ++ ·)

/-- The next rows of a list, with a cursor while the page is full. -/
def pageAnswer (mark : ρ → γ) (size : Nat) (rest : List ρ) : List ρ × Option γ :=
  let items := rest.take size
  (items, if items.length = size then items.getLast?.map mark else none)

/-- A reader whose answers are the pages after its cursors reads the whole list. -/
theorem follow_pages {answer : Nat → Option γ → List ρ × Option γ} {mark : ρ → γ}
    {sizes : Nat → Nat} {rows : List ρ} (hsizes : ∀ i, 0 < sizes i)
    (hanswer : ∀ i front rest, rows = front ++ rest →
      answer i (front.getLast?.map mark) = pageAnswer mark (sizes i) rest)
    {fuel i : Nat} {front rest : List ρ} (hrows : rows = front ++ rest)
    (hfuel : rest.length < fuel) :
    follow answer fuel i (front.getLast?.map mark) = some rest := by
  induction fuel generalizing i front rest with
  | zero => exact absurd hfuel (Nat.not_lt_zero _)
  | succ fuel ih =>
      rw [follow, hanswer i front rest hrows, pageAnswer]
      by_cases hfull : (rest.take (sizes i)).length = sizes i
      · have hsome : rest.take (sizes i) ≠ [] := by
          rw [← List.length_pos_iff, hfull]
          exact hsizes i
        have hlast : (front ++ rest.take (sizes i)).getLast? = (rest.take (sizes i)).getLast? :=
          List.getLast?_append_of_ne_nil front hsome
        have hsplit : rows = (front ++ rest.take (sizes i)) ++ rest.drop (sizes i) := by
          rw [List.append_assoc, List.take_append_drop, hrows]
        have hless : (rest.drop (sizes i)).length < fuel := by
          have hpos := hsizes i
          have hle : sizes i ≤ rest.length := by
            rw [← hfull]
            exact List.length_take_le' _ _
          rw [List.length_drop]
          omega
        have hnext := ih (i := i + 1) hsplit hless
        rw [hlast] at hnext
        obtain ⟨last, hgot⟩ := Option.ne_none_iff_exists'.mp (mt List.getLast?_eq_none_iff.mp hsome)
        rw [hgot, Option.map_some] at hnext
        simp only [hfull, if_true, hgot, Option.map_some, hnext, List.take_append_drop]
      · have hshort : rest.take (sizes i) = rest := by
          refine List.take_of_length_le (Nat.le_of_not_lt fun hlt => hfull ?_)
          exact List.length_take_of_le hlt.le
        rw [hshort] at hfull
        simp only [hshort, hfull, if_false]

end Follow

end AgentGrid.Foundation
