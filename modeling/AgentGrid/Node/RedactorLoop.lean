import AgentGrid.Foundation.Cutting
import AgentGrid.Node.OutputStream

/-!
# The loop of the redactor

One round of `feed` takes a line off the buffer or splits an over-long one at the
line cap.  How the bytes are cut into chunks makes no difference to the lines, and
the loop ends exactly when the configured cap is not zero.
-/

namespace AgentGrid.Node

open AgentGrid.Foundation

/-! ## The configured cap -/

/-- `u64::from_str` on the value of a variable. -/
def parseU64 (value : String) : Option Nat :=
  let digits : List Char := match value.toList with
    | '+' :: digits => digits
    | digits => digits
  let number : Nat := digits.foldl (fun n c => n * 10 + (c.toNat - 48)) 0
  if digits ≠ [] ∧ digits.all Char.isDigit ∧ number < 2 ^ 64 then some number else none

def envU64 (value : Option String) (default : Nat) : Nat :=
  (value.bind parseU64).getD default

/-- The line cap under a value of `AGENTGRID_MAX_LINE_BYTES`. -/
def lineCapBytes (value : Option String) : Nat := envU64 value (1024 * 1024)

/-! ## One round -/

/-- What a round takes off: the bytes it masks, whether the cap cut them off, and
how many bytes leave the buffer. -/
structure Piece where
  window : List UInt8
  forced : Bool
  taken : Nat

namespace StreamingRedactor

def line (R : StreamingRedactor) (p : Piece) : List Char :=
  if p.forced then maskLine R p.window ++ truncationMark else maskLine R p.window

def split (R : StreamingRedactor) (buf : List UInt8) : Piece :=
  ⟨buf.take R.lineCap, true, R.lineCap - R.overlapLen⟩

/-- One round of the loop of `feed`. -/
def cut (R : StreamingRedactor) : Cutter UInt8 Piece := fun buf =>
  match buf.findIdx? (· == 10) with
  | some nl =>
      if R.lineCap ≤ nl then some (R.split buf, buf.drop (R.lineCap - R.overlapLen))
      else some (⟨buf.take nl, false, nl + 1⟩, buf.drop (nl + 1))
  | none =>
      if R.lineCap ≤ buf.length then
        some (R.split buf, buf.drop (R.lineCap - R.overlapLen))
      else none

/-- The lines of a stream that comes in these chunks and then ends. -/
def output (R : StreamingRedactor) : List UInt8 → List (List UInt8) → List (List Char)
  | buf, [] => (R.finish buf).toList
  | buf, chunk :: chunks => (R.feed buf chunk).1 ++ R.output (R.feed buf chunk).2 chunks

/-- The loop of every `feed` comes to an end, and these are the lines. -/
def Emits (R : StreamingRedactor) (chunks : List (List UInt8)) (lines : List (List Char)) :
    Prop :=
  ∃ pieces kept, Cutter.Feeds R.cut [] chunks pieces kept ∧
    lines = pieces.map R.line ++ (R.finish kept).toList

theorem line_split (R : StreamingRedactor) (buf : List UInt8) :
    R.line (R.split buf) = R.truncated buf := rfl

theorem overlapLen_lt {R : StreamingRedactor} (hcap : 1 ≤ R.lineCap) :
    R.overlapLen < R.lineCap := by
  rw [overlapLen]
  omega

/-- The round as the source takes it: past a newline, or a split at the cap. -/
theorem cut_cases {R : StreamingRedactor} {buf rest : List UInt8} {piece : Piece}
    (h : R.cut buf = some (piece, rest)) :
    rest = buf.drop piece.taken ∧
      ((piece = R.split buf ∧ R.lineCap ≤ buf.length ∧
          ∀ nl, buf.findIdx? (· == 10) = some nl → R.lineCap ≤ nl) ∨
        ∃ nl, buf.findIdx? (· == 10) = some nl ∧ nl < R.lineCap ∧
          piece = ⟨buf.take nl, false, nl + 1⟩) := by
  rw [cut] at h
  cases hline : buf.findIdx? (· == 10) with
  | none =>
      rw [hline] at h
      dsimp only at h
      split at h
      · rename_i hfull
        cases h
        exact ⟨rfl, .inl ⟨rfl, hfull, by simp⟩⟩
      · cases h
  | some nl =>
      have hpos : nl < buf.length := (List.findIdx?_eq_some_iff_getElem.mp hline).1
      rw [hline] at h
      dsimp only at h
      split at h
      · rename_i hover
        cases h
        exact ⟨rfl, .inl ⟨rfl, by omega, by simpa using hover⟩⟩
      · rename_i hunder
        cases h
        exact ⟨rfl, .inr ⟨nl, rfl, by omega, rfl⟩⟩

theorem cut_none {R : StreamingRedactor} {buf : List UInt8} :
    R.cut buf = none ↔ buf.findIdx? (· == 10) = none ∧ buf.length < R.lineCap := by
  rw [cut]
  cases hline : buf.findIdx? (· == 10) with
  | none => simp
  | some nl =>
      dsimp only
      split <;> simp

theorem findIdx_append_some {buf : List UInt8} {nl : Nat} (more : List UInt8)
    (h : buf.findIdx? (· == 10) = some nl) : (buf ++ more).findIdx? (· == 10) = some nl := by
  rw [List.findIdx?_append, h]
  rfl

theorem findIdx_append_ge {buf more : List UInt8} {nl : Nat}
    (hnone : buf.findIdx? (· == 10) = none)
    (h : (buf ++ more).findIdx? (· == 10) = some nl) : buf.length ≤ nl := by
  rw [List.findIdx?_append, hnone, Option.none_or] at h
  obtain ⟨i, -, rfl⟩ := Option.map_eq_some_iff.mp h
  omega

/-- A split is decided by the first `lineCap` bytes alone, whether or not a newline
follows them. -/
theorem cut_stable {R : StreamingRedactor} (hcap : 1 ≤ R.lineCap) : Cutter.Stable R.cut := by
  intro buf more piece rest h
  obtain ⟨hrest, ⟨rfl, hfull, hover⟩ | ⟨nl, hline, hunder, rfl⟩⟩ := cut_cases h
  · have hoverlap := overlapLen_lt hcap
    have hsplit : R.split (buf ++ more) = R.split buf := by
      rw [split, split, List.take_append_of_le_length hfull]
    have hdrop : (buf ++ more).drop (R.lineCap - R.overlapLen) = rest ++ more := by
      rw [hrest, List.drop_append_of_le_length (by omega)]
      rfl
    have hlater : ∀ nl, (buf ++ more).findIdx? (· == 10) = some nl → R.lineCap ≤ nl := by
      intro nl hnl
      cases hbuf : buf.findIdx? (· == 10) with
      | none => exact Nat.le_trans hfull (findIdx_append_ge hbuf hnl)
      | some first =>
          rw [findIdx_append_some more hbuf] at hnl
          exact hover nl (hbuf.trans hnl)
    rw [cut]
    cases hnl : (buf ++ more).findIdx? (· == 10) with
    | none =>
        have hlong : R.lineCap ≤ (buf ++ more).length := by
          rw [List.length_append]
          omega
        dsimp only
        rw [if_pos hlong, hsplit, hdrop]
    | some nl => simp [hsplit, hdrop, hlater nl hnl]
  · have hpos : nl < buf.length := (List.findIdx?_eq_some_iff_getElem.mp hline).1
    rw [cut, findIdx_append_some more hline]
    simp only [Nat.not_le.mpr hunder, if_false, hrest]
    rw [List.take_append_of_le_length (by omega), List.drop_append_of_le_length (by omega)]

theorem cut_shrinks {R : StreamingRedactor} (hcap : 1 ≤ R.lineCap) :
    Cutter.Shrinking R.cut := by
  intro buf piece rest h
  have hoverlap := overlapLen_lt hcap
  obtain ⟨hrest, ⟨rfl, hfull, -⟩ | ⟨nl, hline, -, rfl⟩⟩ := cut_cases h
  · rw [hrest, List.length_drop, split]
    dsimp only
    omega
  · have hpos : nl < buf.length := (List.findIdx?_eq_some_iff_getElem.mp hline).1
    rw [hrest, List.length_drop]
    dsimp only
    omega

/-! ## The loop -/

/-- Rounds enough, the loop of `feed` gives what its rounds give. -/
theorem drain_eq {R : StreamingRedactor} {buf kept : List UInt8} {pieces : List Piece}
    (h : Cutter.Drains R.cut buf pieces kept) {fuel : Nat} (hfuel : pieces.length < fuel) :
    R.drain fuel buf = (pieces.map R.line, kept) := by
  induction h generalizing fuel with
  | stop hstop =>
      obtain ⟨hline, hshort⟩ := cut_none.mp hstop
      cases fuel with
      | zero => omega
      | succ fuel => simp [drain, hline, Nat.not_le.mpr hshort]
  | @next buf rest kept piece pieces hnext _ ih =>
      cases fuel with
      | zero => omega
      | succ fuel =>
          have hrest := @ih fuel (by simpa using hfuel)
          rw [cut] at hnext
          rw [drain]
          cases hline : buf.findIdx? (· == 10) with
          | none =>
              rw [hline] at hnext
              dsimp only at hnext ⊢
              split at hnext
              · rename_i hfull
                cases hnext
                simp [hfull, hrest, line_split]
              · cases hnext
          | some nl =>
              rw [hline] at hnext
              dsimp only at hnext ⊢
              split at hnext <;> rename_i hcase <;> cases hnext
              · simp [hcase, hrest, line_split]
              · simp [hcase, hrest, line]

theorem feed_eq {R : StreamingRedactor} (hcap : 1 ≤ R.lineCap) (buf chunk : List UInt8) :
    ∃ pieces, Cutter.Drains R.cut (buf ++ chunk) pieces (R.feed buf chunk).2 ∧
      (R.feed buf chunk).1 = pieces.map R.line := by
  obtain ⟨pieces, kept, hdrains, hlength⟩ := (cut_shrinks hcap).drains (buf ++ chunk)
  have hfeed := drain_eq hdrains (Nat.lt_succ_of_le hlength)
  refine ⟨pieces, ?_, ?_⟩
  · rw [feed, hfeed]
    exact hdrains
  · rw [feed, hfeed]

theorem feeds_output {R : StreamingRedactor} (hcap : 1 ≤ R.lineCap) (buf : List UInt8)
    (chunks : List (List UInt8)) :
    ∃ pieces kept, Cutter.Feeds R.cut buf chunks pieces kept ∧
      R.output buf chunks = pieces.map R.line ++ (R.finish kept).toList := by
  induction chunks generalizing buf with
  | nil => exact ⟨[], buf, .nil, rfl⟩
  | cons chunk chunks ih =>
      obtain ⟨pieces, hdrains, hlines⟩ := feed_eq hcap buf chunk
      obtain ⟨later, kept, hfeeds, houtput⟩ := ih (R.feed buf chunk).2
      refine ⟨pieces ++ later, kept, .cons hdrains hfeeds, ?_⟩
      rw [output, hlines, houtput]
      simp

/-- The stream at once: one loop over all of it. -/
theorem feeds_drains {R : StreamingRedactor} (hcap : 1 ≤ R.lineCap)
    {chunks : List (List UInt8)} {pieces : List Piece} {kept : List UInt8}
    (h : Cutter.Feeds R.cut [] chunks pieces kept) :
    Cutter.Drains R.cut chunks.flatten pieces kept := by
  have hempty : R.cut [] = none := cut_none.mpr ⟨rfl, hcap⟩
  simpa using h.flatten (cut_stable hcap) hempty

end StreamingRedactor

open StreamingRedactor

/-- Whatever the chunks, every loop ends and the lines are those of the stream fed
in one chunk. -/
theorem redactor_chunking (R : StreamingRedactor) (hcap : 1 ≤ R.lineCap)
    (chunks : List (List UInt8)) :
    R.Emits chunks (R.output [] chunks) ∧
      R.output [] chunks = R.output [] [chunks.flatten] := by
  obtain ⟨pieces, kept, hfeeds, houtput⟩ := feeds_output hcap [] chunks
  obtain ⟨pieces', kept', hfeeds', houtput'⟩ := feeds_output hcap [] [chunks.flatten]
  have hdrains := feeds_drains hcap hfeeds
  have hdrains' := feeds_drains hcap hfeeds'
  rw [List.flatten_singleton] at hdrains'
  obtain ⟨hpieces, hkept⟩ := hdrains.unique hdrains'
  refine ⟨⟨pieces, kept, hfeeds, houtput⟩, ?_⟩
  rw [houtput, houtput', hpieces, hkept]

/-- A line that reaches the cap in its second chunk, with the newline in the third. -/
theorem redactor_chunking_at_cap :
    let R : StreamingRedactor := { secrets := ["secret"], lineCap := 4 }
    let chunks : List (List UInt8) := [[97, 98], [99, 100], [10]]
    1 ≤ R.lineCap ∧ R.Emits chunks (R.output [] chunks) ∧
      R.output [] chunks = R.output [] [chunks.flatten] :=
  ⟨by decide, redactor_chunking _ (by decide) _⟩

/-! ## Termination -/

/-- The loop of a `feed` comes to an end, and each forced split shortens the
buffer. -/
def Terminates (R : StreamingRedactor) (buf chunk : List UInt8) : Prop :=
  (∃ pieces kept, Cutter.Drains R.cut (buf ++ chunk) pieces kept) ∧
    ∀ b piece rest, R.cut b = some (piece, rest) → piece.forced = true →
      rest.length < b.length

/-- With a cap of zero every round splits and no byte leaves the buffer. -/
theorem cut_of_zero {R : StreamingRedactor} (hcap : R.lineCap = 0) (buf : List UInt8) :
    R.cut buf = some (R.split buf, buf) := by
  rw [cut]
  cases buf.findIdx? (· == 10) <;> simp [hcap]

/-- For every configuration, secrets and chunk the loop terminates if and only if
the configured cap is not zero. -/
theorem feed_terminates (value : Option String) (secrets : List String) (minLen : Nat)
    (buf chunk : List UInt8) :
    Terminates ⟨secrets, minLen, lineCapBytes value⟩ buf chunk ↔ 1 ≤ lineCapBytes value := by
  constructor
  · rintro ⟨⟨pieces, kept, hdrains⟩, -⟩
    by_contra hcap
    have hzero : lineCapBytes value = 0 := by omega
    refine Cutter.Drains.absurd (fun b => ?_) hdrains
    rw [cut_of_zero hzero b]
    simp
  · intro hcap
    have hshrinks : Cutter.Shrinking (cut ⟨secrets, minLen, lineCapBytes value⟩) :=
      cut_shrinks hcap
    obtain ⟨pieces, kept, hdrains, -⟩ := hshrinks.drains (buf ++ chunk)
    exact ⟨⟨pieces, kept, hdrains⟩, fun b piece rest h _ => hshrinks b piece rest h⟩

/-- `AGENTGRID_MAX_LINE_BYTES=0` is accepted, and the first byte is never left. -/
theorem feed_loops_forever :
    ¬ ∀ (value : Option String) (secrets : List String) (minLen : Nat)
      (buf chunk : List UInt8),
      Terminates ⟨secrets, minLen, lineCapBytes value⟩ buf chunk := by
  intro h
  have hzero : lineCapBytes (some "0") = 0 := by decide
  obtain ⟨⟨pieces, kept, hdrains⟩, -⟩ := h (some "0") ["secret"] 6 [] [97]
  refine Cutter.Drains.absurd (fun buf => ?_) hdrains
  rw [cut_of_zero hzero buf]
  simp

end AgentGrid.Node
