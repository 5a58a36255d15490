import Mathlib.Data.List.Basic

/-!
# A buffered reader

A transport hands over its elements in chunks.  A reader takes them in blocks of at
most `size` and keeps what it has not given out.  The blocks do not depend on what
the reader is asked for: a read of `size` elements ends where a block ends, and
`overhang` says how far that is from a place of the stream.
-/

namespace AgentGrid.Foundation

variable {α : Type}

/-- One read of the transport; an empty one is its end. -/
def receive (size : Nat) : List (List α) → List α × List (List α)
  | [] => ([], [])
  | [] :: chunks => receive size chunks
  | (a :: chunk) :: chunks => ((a :: chunk).take size, (a :: chunk).drop size :: chunks)

structure Buffered (α : Type) (size : Nat) where
  buffer : List α := []
  chunks : List (List α)
  bounded : buffer.length ≤ size := by simp

/-- The first elements to a separator, or as many as may be taken. -/
def cutLine [DecidableEq α] (sep : α) : Nat → List α → List α
  | 0, _ => []
  | _, [] => []
  | n + 1, a :: as => if a = sep then [a] else a :: cutLine sep n as

/-- From the place after `k` elements to the end of the block they end in. -/
def overhang : List (List α) → Nat → Nat
  | [], _ => 0
  | block :: blocks, k =>
      if k ≤ block.length then block.length - k else overhang blocks (k - block.length)

/-! ## Reading the transport -/

section Receive

variable (size : Nat)

theorem receive_flatten (chunks : List (List α)) :
    (receive size chunks).1 ++ (receive size chunks).2.flatten = chunks.flatten := by
  induction chunks with
  | nil => rfl
  | cons chunk chunks ih =>
      cases chunk with
      | nil => simpa [receive] using ih
      | cons a chunk =>
          rw [receive, List.flatten_cons, List.flatten_cons, ← List.append_assoc,
            List.take_append_drop]

theorem length_receive (chunks : List (List α)) : (receive size chunks).1.length ≤ size := by
  induction chunks with
  | nil => simp [receive]
  | cons chunk chunks ih =>
      cases chunk with
      | nil => simpa [receive] using ih
      | cons a chunk =>
          rw [receive, List.length_take]
          exact Nat.min_le_left _ _

/-- The blocks in which a transport is read. -/
def blocks (chunks : List (List α)) : List (List α) :=
  if (receive size chunks).1 = [] then []
  else (receive size chunks).1 :: blocks (receive size chunks).2
termination_by chunks.flatten.length
decreasing_by
  rename_i h
  have hlength := congrArg List.length (receive_flatten size chunks)
  rw [List.length_append] at hlength
  have := List.length_pos_iff.mpr h
  omega

variable {size}

@[simp] theorem blocks_nil : blocks size ([] : List (List α)) = [] := by
  rw [blocks]
  exact if_pos rfl

theorem receive_eq_nil (hsize : 0 < size) {chunks : List (List α)}
    (h : (receive size chunks).1 = []) : (receive size chunks).2 = [] := by
  induction chunks with
  | nil => rfl
  | cons chunk chunks ih =>
      cases chunk with
      | nil => exact ih h
      | cons a chunk =>
          rw [receive, List.take_eq_nil_iff] at h
          rcases h with h | h
          · exact absurd h (Nat.pos_iff_ne_zero.mp hsize)
          · cases h

end Receive

/-! ## Places in blocks -/

section Overhang

variable {size : Nat}

theorem overhang_nil_cons (rest : List (List α)) {k : Nat} (hk : 0 < k) :
    overhang ([] :: rest) k = overhang rest k := by
  have hlength : ¬ k ≤ ([] : List α).length := Nat.not_le.mpr hk
  rw [overhang, if_neg hlength, List.length_nil, Nat.sub_zero]

theorem overhang_drop (block : List α) (rest : List (List α)) {n k : Nat} (hn : n ≤ block.length) :
    overhang (block.drop n :: rest) k = overhang (block :: rest) (n + k) := by
  rw [overhang, overhang, List.length_drop]
  by_cases h : n + k ≤ block.length
  · rw [if_pos h, if_pos (by omega)]
    omega
  · rw [if_neg h, if_neg (by omega)]
    congr 1
    omega

theorem overhang_lt (hsize : 0 < size) {rest : List (List α)}
    (h : ∀ block ∈ rest, block.length ≤ size) {k : Nat} (hk : 0 < k) :
    overhang rest k < size := by
  induction rest generalizing k with
  | nil => exact hsize
  | cons block rest ih =>
      have hblock := h block List.mem_cons_self
      rw [overhang]
      split
      · omega
      · exact ih (fun b hb => h b (List.mem_cons_of_mem _ hb)) (by omega)

end Overhang

theorem length_blocks (size : Nat) (chunks : List (List α)) :
    ∀ block ∈ blocks size chunks, block.length ≤ size := by
  induction chunks using blocks.induct size with
  | case1 chunks h =>
      rw [blocks, if_pos h]
      simp
  | case2 chunks h ih =>
      rw [blocks, if_neg h]
      intro block hblock
      rcases List.mem_cons.mp hblock with rfl | hblock
      · exact length_receive size chunks
      · exact ih block hblock

/-- The blocks begin anew with each chunk. -/
theorem overhang_blocks_cons {size : Nat} (hsize : 0 < size) (chunk : List α)
    (chunks : List (List α)) {k : Nat} (hk : 0 < k) :
    overhang (blocks size (chunk :: chunks)) (chunk.length + k) =
      overhang (blocks size chunks) k := by
  induction hn : chunk.length using Nat.strongRecOn generalizing chunk with
  | ind n ih =>
      cases chunk with
      | nil =>
          rw [← hn, List.length_nil, Nat.zero_add, blocks]
          conv => rhs; rw [blocks]
          rfl
      | cons a chunk =>
          have hblock : (receive size ((a :: chunk) :: chunks)).1 = (a :: chunk).take size := rfl
          have hrest : (receive size ((a :: chunk) :: chunks)).2 =
            (a :: chunk).drop size :: chunks := rfl
          have hpos : 0 < (a :: chunk).length := Nat.succ_pos _
          have htake : ((a :: chunk).take size).length = min size n := by
            rw [List.length_take, hn]
          have hdrop : ((a :: chunk).drop size).length = n - size := by rw [List.length_drop, hn]
          have hnext := ih (n - size) (by omega) _ hdrop
          rw [blocks, hblock, hrest, if_neg (List.length_pos_iff.mp (by omega)), overhang,
            if_neg (by omega), ← hnext]
          congr 1
          omega

namespace Buffered

variable {size : Nat}

def pending (r : Buffered α size) : List α := r.buffer ++ r.chunks.flatten

/-- What is in the buffer, and the blocks after it. -/
def ahead (r : Buffered α size) : List (List α) := r.buffer :: blocks size r.chunks

/-- `fill_buf`. -/
def fill (r : Buffered α size) : Buffered α size :=
  if r.buffer = [] then
    ⟨(receive size r.chunks).1, (receive size r.chunks).2, length_receive size r.chunks⟩
  else r

def consume (r : Buffered α size) (n : Nat) : Buffered α size :=
  ⟨r.buffer.drop n, r.chunks, Nat.le_trans (List.drop_sublist n r.buffer).length_le r.bounded⟩

/-- A read into `n` elements, which goes past an empty buffer if it is not longer. -/
def read (r : Buffered α size) (n : Nat) : List α × Buffered α size :=
  if r.buffer = [] ∧ size ≤ n then
    ((receive n r.chunks).1, ⟨[], (receive n r.chunks).2, Nat.zero_le size⟩)
  else (r.fill.buffer.take n, r.fill.consume n)

/-- `take(limit).read_until(sep)`. -/
def readUntil [DecidableEq α] (sep : α) (limit : Nat) (r : Buffered α size) :
    List α × Buffered α size :=
  let available := r.fill.buffer.take limit
  if available = [] then ([], r.fill)
  else if sep ∈ available then
    let used := (available.takeWhile (· ≠ sep)).length + 1
    (available.take used, r.fill.consume used)
  else
    let next := readUntil sep (limit - available.length) (r.fill.consume available.length)
    (available ++ next.1, next.2)
termination_by limit
decreasing_by
  rename_i h _
  have := List.length_pos_iff.mpr h
  simp only [available, List.length_take] at this ⊢
  omega

/-! ## Moving on -/

/-- The reader has given out `n` more elements. -/
structure Moved (n : Nat) (r r' : Buffered α size) : Prop where
  pending : r'.pending = r.pending.drop n
  within : n ≤ r.pending.length
  overhang : ∀ k, 0 < k → overhang r'.ahead k = overhang r.ahead (n + k)

namespace Moved

variable {n m : Nat} {r r' r'' : Buffered α size}

theorem refl (r : Buffered α size) : Moved 0 r r where
  pending := rfl
  within := Nat.zero_le _
  overhang k _ := by rw [Nat.zero_add]

theorem trans (h : Moved n r r') (h' : Moved m r' r'') : Moved (n + m) r r'' where
  pending := by rw [h'.pending, h.pending, List.drop_drop]
  within := by
    have hwithin := h'.within
    rw [h.pending, List.length_drop] at hwithin
    have := h.within
    omega
  overhang k hk := by
    rw [h'.overhang k hk, h.overhang (m + k) (by omega), Nat.add_assoc]

theorem length (h : Moved n r r') : r'.pending.length = r.pending.length - n := by
  rw [h.pending, List.length_drop]

end Moved

theorem fill_pending (r : Buffered α size) : r.fill.pending = r.pending := by
  unfold fill
  split
  · rename_i hempty
    rw [pending, pending, hempty, List.nil_append]
    exact receive_flatten size r.chunks
  · rfl

theorem moved_fill (hsize : 0 < size) (r : Buffered α size) : Moved 0 r r.fill := by
  refine ⟨fill_pending r, Nat.zero_le _, fun k hk => ?_⟩
  rw [Nat.zero_add]
  unfold fill
  split
  · rename_i hempty
    rw [ahead, ahead, hempty, Foundation.overhang_nil_cons _ hk]
    conv => rhs; rw [blocks]
    change Foundation.overhang ((receive size r.chunks).1 :: blocks size (receive size r.chunks).2)
      k = _
    split
    · rename_i hend
      have hrest := receive_eq_nil hsize hend
      rw [hend, hrest, Foundation.overhang_nil_cons _ hk, blocks_nil]
    · rfl
  · rfl

theorem moved_consume (r : Buffered α size) {n : Nat} (hn : n ≤ r.buffer.length) :
    Moved n r (r.consume n) where
  pending := by
    rw [pending, pending, List.drop_append_of_le_length hn]
    rfl
  within := by
    rw [pending, List.length_append]
    omega
  overhang k _ := overhang_drop r.buffer (blocks size r.chunks) hn

theorem fill_buffer_initial (r : Buffered α size) : r.fill.buffer <+: r.pending := by
  rw [← fill_pending]
  exact List.prefix_append _ _

theorem fill_buffer_eq_nil (hsize : 0 < size) {r : Buffered α size} (h : r.fill.buffer = []) :
    r.pending = [] := by
  rw [← fill_pending, pending, h]
  unfold fill at h ⊢
  split at h
  · rename_i hempty
    rw [if_pos hempty, receive_eq_nil hsize h]
    rfl
  · rename_i hempty
    exact absurd h hempty

/-! ## What the operations give out -/

/-- A read of the buffer's size gives out the rest of a block. -/
theorem moved_read (hsize : 0 < size) (r : Buffered α size) :
    Moved (r.read size).1.length r (r.read size).2 := by
  have hfill := moved_fill hsize r
  unfold read
  split
  · rename_i hempty
    have hread := hfill.trans (moved_consume r.fill (Nat.le_refl _))
    rw [Nat.zero_add] at hread
    have hbuffer : r.fill.buffer = (receive size r.chunks).1 := by rw [fill, if_pos hempty.1]
    have hchunks : r.fill.chunks = (receive size r.chunks).2 := by rw [fill, if_pos hempty.1]
    have hsame : r.fill.consume r.fill.buffer.length =
        ⟨[], (receive size r.chunks).2, Nat.zero_le size⟩ := by
      simp only [consume, List.drop_length, hchunks]
    rw [hsame, hbuffer] at hread
    exact hread
  · have hlength : (r.fill.buffer.take size).length = r.fill.buffer.length := by
      rw [List.length_take, Nat.min_eq_right r.fill.bounded]
    have hall : r.fill.consume size = r.fill.consume r.fill.buffer.length := by
      simp only [consume, List.drop_length, List.drop_eq_nil_of_le r.fill.bounded]
    have hread := hfill.trans (moved_consume r.fill (Nat.le_refl _))
    rw [Nat.zero_add] at hread
    rw [hlength, hall]
    exact hread

theorem read_eq (r : Buffered α size) : (r.read size).1 = r.fill.buffer := by
  unfold read
  split
  · rename_i hempty
    rw [fill, if_pos hempty.1]
  · exact List.take_of_length_le r.fill.bounded

theorem read_initial (r : Buffered α size) : (r.read size).1 <+: r.pending := by
  rw [read_eq]
  exact fill_buffer_initial r

theorem read_eq_nil (hsize : 0 < size) {r : Buffered α size} (h : (r.read size).1 = []) :
    r.pending = [] :=
  fill_buffer_eq_nil hsize (by rw [← read_eq, h])

theorem overhang_read (hsize : 0 < size) (r : Buffered α size) {k : Nat} (hk : 0 < k)
    (hread : k ≤ (r.read size).1.length) :
    overhang r.ahead k = (r.read size).1.length - k := by
  have hfill := (moved_fill hsize r).overhang k hk
  rw [Nat.zero_add] at hfill
  rw [read_eq] at hread ⊢
  rw [← hfill, ahead, Foundation.overhang, if_pos hread]

theorem overhang_ahead_lt (hsize : 0 < size) (r : Buffered α size) {k : Nat} (hk : 0 < k) :
    overhang r.ahead k < size := by
  refine overhang_lt hsize (fun block hblock => ?_) hk
  rcases List.mem_cons.mp hblock with rfl | hblock
  · exact r.bounded
  · exact length_blocks size r.chunks block hblock

section ReadUntil

variable [DecidableEq α] {sep : α}

theorem cutLine_append {as : List α} (h : sep ∉ as) {n : Nat} (hn : as.length ≤ n)
    (rest : List α) :
    cutLine sep n (as ++ rest) = as ++ cutLine sep (n - as.length) rest := by
  induction as generalizing n with
  | nil => rfl
  | cons a as ih =>
      cases n with
      | zero => cases hn
      | succ n =>
          have ha : a ≠ sep := fun heq => h (heq ▸ List.mem_cons_self)
          rw [List.cons_append, cutLine, if_neg ha, ih (fun hmem => h (List.mem_cons_of_mem _ hmem))
            (Nat.le_of_succ_le_succ hn), List.length_cons, Nat.add_sub_add_right]
          rfl

theorem cutLine_row {row : List α} (h : sep ∉ row) {n : Nat} (hn : row.length < n)
    (rest : List α) :
    cutLine sep n (row ++ sep :: rest) = row ++ [sep] := by
  rw [cutLine_append h (Nat.le_of_lt hn)]
  obtain ⟨m, hm⟩ : ∃ m, n - row.length = m + 1 := ⟨n - row.length - 1, by omega⟩
  rw [hm, cutLine, if_pos rfl]

theorem takeWhile_row {row : List α} (h : sep ∉ row) (rest : List α) :
    (row ++ sep :: rest).takeWhile (· ≠ sep) = row := by
  have hall : ∀ a ∈ row, decide (a ≠ sep) = true := by
    intro a ha
    refine decide_eq_true fun heq => h ?_
    rw [← heq]
    exact ha
  rw [List.takeWhile_append_of_pos hall, List.takeWhile_cons_of_neg (by simp), List.append_nil]

/-- The line that `read_until` gives out is cut from what is pending. -/
theorem readUntil_spec (sep : α) (hsize : 0 < size) (limit : Nat) (r : Buffered α size) :
    (r.readUntil sep limit).1 = cutLine sep limit r.pending ∧
      Moved (r.readUntil sep limit).1.length r (r.readUntil sep limit).2 := by
  induction limit using Nat.strongRecOn generalizing r with
  | ind limit ih =>
      have hfill := moved_fill hsize r
      obtain ⟨rest, hrest⟩ : r.fill.buffer.take limit <+: r.pending :=
        (List.take_prefix limit _).trans (fill_buffer_initial r)
      have hlimit : (r.fill.buffer.take limit).length ≤ limit := List.length_take_le _ _
      have hbuffer : (r.fill.buffer.take limit).length ≤ r.fill.buffer.length :=
        (List.take_prefix limit _).length_le
      rw [readUntil]
      split
      · rename_i hnone
        refine ⟨?_, hfill⟩
        rcases List.take_eq_nil_iff.mp hnone with hzero | hempty
        · rw [hzero, cutLine]
        · rw [fill_buffer_eq_nil hsize hempty]
          cases limit <;> rfl
      split
      · rename_i hmem
        obtain ⟨row, after, hsplit, hrow⟩ := List.eq_append_cons_of_mem hmem
        have hwhile : (r.fill.buffer.take limit).takeWhile (· ≠ sep) = row := by
          rw [hsplit, takeWhile_row hrow]
        have hlength : (r.fill.buffer.take limit).length = row.length + (after.length + 1) := by
          rw [hsplit, List.length_append, List.length_cons]
        have hline : (r.fill.buffer.take limit).take (row.length + 1) = row ++ [sep] := by
          rw [hsplit, List.take_length_add_append]
          rfl
        have hconsume := hfill.trans (moved_consume (n := row.length + 1) r.fill (by omega))
        rw [Nat.zero_add] at hconsume
        change (r.fill.buffer.take limit).take
            (((r.fill.buffer.take limit).takeWhile (· ≠ sep)).length + 1) = _ ∧
          Moved ((r.fill.buffer.take limit).take
            (((r.fill.buffer.take limit).takeWhile (· ≠ sep)).length + 1)).length r
            (r.fill.consume (((r.fill.buffer.take limit).takeWhile (· ≠ sep)).length + 1))
        rw [hwhile, hline]
        refine ⟨?_, ?_⟩
        · rw [← hrest, hsplit, List.append_assoc, List.cons_append, cutLine_row hrow (by omega)]
        · rw [List.length_append]
          exact hconsume
      · rename_i hnone hmem
        have hpos := List.length_pos_iff.mpr hnone
        have hconsume := hfill.trans (moved_consume r.fill hbuffer)
        rw [Nat.zero_add] at hconsume
        obtain ⟨hline, hmoved⟩ := ih (limit - (r.fill.buffer.take limit).length)
          (by omega) (r.fill.consume (r.fill.buffer.take limit).length)
        have hpending : (r.fill.consume (r.fill.buffer.take limit).length).pending = rest := by
          rw [hconsume.pending, ← hrest, List.drop_left]
        refine ⟨?_, ?_⟩
        · change r.fill.buffer.take limit ++ _ = _
          rw [hline, hpending, ← hrest, cutLine_append hmem hlimit]
        · change Moved (r.fill.buffer.take limit ++ _).length _ _
          rw [List.length_append]
          exact hconsume.trans hmoved

end ReadUntil

end Buffered

end AgentGrid.Foundation
