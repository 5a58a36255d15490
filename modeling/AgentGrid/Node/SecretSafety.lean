import AgentGrid.Node.SecretMasking

/-!
# No secret leaks through the line cap

An occurrence that a window holds whole is decoded to its characters and stays so
until a match touches it; once touched in the right place no stretch of it long
enough to leak is left.  A split inside an occurrence shows what stands before it.
-/

namespace AgentGrid.Node

open AgentGrid.Foundation

/-! ## Stretches of the stream -/

/-- The characters stand for the bytes from `p` to `e`, without a gap. -/
def Spans : Nat → List Cell → Nat → Prop
  | p, [], e => p = e
  | p, cell :: run, e => ∃ n, cell.origin = some (p, n) ∧ Spans (p + n) run e

theorem spans_append {p e : Nat} {run run' : List Cell} :
    Spans p (run ++ run') e ↔ ∃ m, Spans p run m ∧ Spans m run' e := by
  induction run generalizing p with
  | nil => simp [Spans]
  | cons cell run ih =>
      simp only [List.cons_append, Spans, ih]
      constructor
      · rintro ⟨n, horigin, m, hrun, hrest⟩
        exact ⟨m, ⟨n, horigin, hrun⟩, hrest⟩
      · rintro ⟨m, ⟨n, horigin, hrun⟩, hrest⟩
        exact ⟨n, horigin, m, hrun, hrest⟩

theorem Spans.origin {p e : Nat} {run : List Cell} (h : Spans p run e) :
    ∀ cell ∈ run, cell.origin ≠ none := by
  induction run generalizing p with
  | nil => simp
  | cons cell run ih =>
      obtain ⟨n, horigin, hrun⟩ := h
      intro c hc
      rcases List.mem_cons.mp hc with rfl | hc
      · simp [horigin]
      · exact ih hrun c hc

theorem Spans.not_mem_new {new : List Cell} (hnew : ∀ cell ∈ new, cell.origin = none)
    {p e : Nat} {run : List Cell} (h : Spans p run e) : ∀ cell ∈ run, cell ∉ new :=
  fun cell hcell hmem => h.origin cell hcell (hnew cell hmem)

/-- A stretch that begins before a bound and ends there or earlier. -/
theorem Spans.end_le {p e a : Nat} {run : List Cell} (h : Spans p run e)
    (hbefore : ∀ cell ∈ run, ∀ q n, cell.origin = some (q, n) → q + n ≤ a) :
    e ≤ max p a := by
  induction run generalizing p with
  | nil =>
      obtain rfl : p = e := h
      omega
  | cons cell run ih =>
      obtain ⟨n, horigin, hrun⟩ := h
      have hcell := hbefore cell List.mem_cons_self p n horigin
      have hend := ih hrun fun c hc => hbefore c (List.mem_cons_of_mem _ hc)
      omega

theorem Spans.le_start {p e b : Nat} {run : List Cell} (h : Spans p run e)
    (hafter : ∀ cell ∈ run, ∀ q n, cell.origin = some (q, n) → b ≤ q) : min e b ≤ p := by
  cases run with
  | nil =>
      obtain rfl : p = e := h
      omega
  | cons cell run =>
      obtain ⟨n, horigin, -⟩ := h
      have hcell := hafter cell List.mem_cons_self p n horigin
      omega

theorem starCells_origin : ∀ cell ∈ starCells, cell.origin = none := by
  simp [starCells]

theorem starCells_ne_nil : starCells ≠ [] := by
  simp [starCells, stars]

/-- What a pass leaves of the stream stood in the text before it. -/
theorem infix_of_replaceCells {pattern : List Char} {s run : List Cell} {p e : Nat}
    (h : run <:+: replaceCells s pattern) (hspans : Spans p run e) : run <:+: s := by
  have hinfix := Passage.infix_text_of_replaced starCells_ne_nil h
    (hspans.not_mem_new starCells_origin)
  rwa [text_cellParts] at hinfix

theorem infix_of_passes {patterns : List (List Char)} {s run : List Cell} {p e : Nat}
    (h : run <:+: patterns.foldl replaceCells s) (hspans : Spans p run e) : run <:+: s := by
  induction patterns generalizing s with
  | nil => exact h
  | cons pattern patterns ih => exact infix_of_replaceCells (ih h) hspans

theorem infix_of_marked {s new run : List Cell} {p e : Nat}
    (hnew : ∀ cell ∈ new, cell.origin = none) (h : run <:+: s ++ new)
    (hspans : Spans p run e) : run <:+: s := by
  obtain ⟨u, v, h⟩ := h
  have hsplit : [] ++ s ++ new = u ++ run ++ v := by simpa using h.symm
  obtain ⟨left, mid, right, rfl, hleft, hmid, hright⟩ := Passage.infix_split hsplit
  obtain rfl : left = [] := by simpa using hleft
  obtain rfl : right = [] := by
    rw [List.eq_nil_iff_forall_not_mem]
    intro cell hcell
    exact hspans.not_mem_new hnew cell (by simp [hcell]) (hright hcell)
  simpa using hmid

/-! ## Leaks -/

/-- The bytes of a secret stand in the stream at `a`. -/
def OccursAt (stream : List UInt8) (secret : String) (a : Nat) : Prop :=
  secret.toUTF8.data.toList <+: stream.drop a

instance (stream : List UInt8) (secret : String) (a : Nat) :
    Decidable (OccursAt stream secret a) :=
  inferInstanceAs (Decidable (secret.toUTF8.data.toList <+: stream.drop a))

namespace StreamingRedactor

/-- How many bytes in a row are too many. -/
def leakLen (R : StreamingRedactor) : Nat := max 1 R.minLen

/-- A line shows `minLen` or more bytes in a row of an occurrence of a secret. -/
def Leaks (R : StreamingRedactor) (stream : List UInt8) (line : List Cell) : Prop :=
  ∃ secret ∈ R.secrets, R.minLen ≤ secret.utf8ByteSize ∧ ∃ a, OccursAt stream secret a ∧
    ∃ run p e, run <:+: line ∧ Spans p run e ∧
      R.leakLen ≤ min e (a + secret.utf8ByteSize) - max p a

/-- An occurrence there is something to hide of. -/
structure Site (R : StreamingRedactor) (stream : List UInt8) (secret : String) (a : Nat) :
    Prop where
  registered : secret ∈ R.secrets
  long : R.leakLen ≤ secret.utf8ByteSize
  occurs : OccursAt stream secret a

/-- A pass that touches an occurrence that is still whole leaves no stretch of it
that is long enough to leak. -/
def Spares (R : StreamingRedactor) (stream : List UInt8) (s : List Cell)
    (pattern : List Char) : Prop :=
  ∀ secret a x y, R.Site stream secret a → s = x ++ charCells a secret.toList ++ y →
    Passage.Touches (cellParts pattern s) x (charCells a secret.toList) →
    ∀ before run after p e, cellParts pattern s = before ++ run.map .kept ++ after →
      run <:+: charCells a secret.toList → Spans p run e → e - p < R.leakLen

/-- Every pass over the text does so. -/
def SparesAll (R : StreamingRedactor) (stream : List UInt8) :
    List Cell → List (List Char) → Prop
  | _, [] => True
  | s, pattern :: patterns =>
      R.Spares stream s pattern ∧ R.SparesAll stream (replaceCells s pattern) patterns

/-- A window holds the occurrence whole or too little of it to leak. -/
def Uncut (R : StreamingRedactor) (start : Nat) (window : List UInt8) (secret : String)
    (a : Nat) : Prop :=
  (start ≤ a ∧ a + secret.utf8ByteSize ≤ start + window.length) ∨
    min (a + secret.utf8ByteSize) (start + window.length) - max a start < R.leakLen

/-- The pieces with the places where they begin. -/
def placed : Nat → List Piece → List (Nat × Piece)
  | _, [] => []
  | start, p :: pieces => (start, p) :: placed (start + p.taken) pieces

/-- What `finish` masks. -/
def lastPiece (R : StreamingRedactor) (kept : List UInt8) : Option Piece :=
  if kept.isEmpty then none
  else if R.lineCap ≤ kept.length then some (R.split kept)
  else some ⟨kept, false, kept.length⟩

/-- The pieces of a stream that comes in these chunks and then ends. -/
def Cuts (R : StreamingRedactor) (chunks : List (List UInt8)) (pieces : List Piece) : Prop :=
  ∃ rounds kept, Cutter.Feeds R.cut [] chunks rounds kept ∧
    pieces = rounds ++ (R.lastPiece kept).toList

/-- No window cuts an occurrence and no match eats into one. -/
def Unbroken (R : StreamingRedactor) (stream : List UInt8) (pieces : List Piece) : Prop :=
  ∀ q ∈ placed 0 pieces,
    (∀ secret a, R.Site stream secret a → R.Uncut q.1 q.2.window secret a) ∧
      R.SparesAll stream (decodeCells q.1 0 q.2.window) R.patterns

/-! ## One occurrence through the passes -/

section Occurrence

variable {R : StreamingRedactor} {stream : List UInt8} {secret : String} {a : Nat}

/-- No stretch of the text shows too much of the occurrence. -/
def Hidden (R : StreamingRedactor) (secret : String) (a : Nat) (s : List Cell) : Prop :=
  ∀ run p e, run <:+: s → Spans p run e →
    min e (a + secret.utf8ByteSize) - max p a < R.leakLen

/-- The occurrence stands whole in the text, its neighbours on their sides of it. -/
def Whole (secret : String) (a : Nat) (s : List Cell) : Prop :=
  ∃ x y, s = x ++ charCells a secret.toList ++ y ∧
    (∀ cell ∈ x, ∀ p n, cell.origin = some (p, n) → p + n ≤ a) ∧
    ∀ cell ∈ y, ∀ p n, cell.origin = some (p, n) → a + secret.utf8ByteSize ≤ p

theorem Site.ne_nil (h : R.Site stream secret a) : secret.toList ≠ [] := by
  intro hnil
  have hlong := h.long
  rw [← length_secretBytes, bytes_eq, hnil, leakLen] at hlong
  simp at hlong

theorem Site.cells_ne_nil (h : R.Site stream secret a) : charCells a secret.toList ≠ [] := by
  obtain ⟨c, cs, hcs⟩ := List.exists_cons_of_ne_nil h.ne_nil
  simp [hcs, charCells]

theorem Hidden.pass {s : List Cell} (h : Hidden R secret a s) (pattern : List Char) :
    Hidden R secret a (replaceCells s pattern) :=
  fun run p e hrun hspans => h run p e (infix_of_replaceCells hrun hspans) hspans

theorem mem_replaced {new : List Cell} {parts : List (Passage Cell)} {cell : Cell}
    (h : cell ∈ Passage.replaced new parts) : cell ∈ new ∨ cell ∈ Passage.text parts := by
  obtain ⟨part, hpart, hcell⟩ := List.mem_flatMap.mp h
  cases part with
  | kept b =>
      refine .inr (List.mem_flatMap.mpr ⟨.kept b, hpart, ?_⟩)
      simpa [Passage.result, Passage.source] using hcell
  | found block => exact .inl (by simpa [Passage.result] using hcell)

/-- A touched occurrence is hidden by the pass that touches it. -/
theorem Whole.touched (hsite : R.Site stream secret a) {s : List Cell} {pattern : List Char}
    (hspares : R.Spares stream s pattern) {x y : List Cell}
    (hs : s = x ++ charCells a secret.toList ++ y)
    (hx : ∀ cell ∈ x, ∀ p n, cell.origin = some (p, n) → p + n ≤ a)
    (hy : ∀ cell ∈ y, ∀ p n, cell.origin = some (p, n) → a + secret.utf8ByteSize ≤ p)
    (htouches : Passage.Touches (cellParts pattern s) x (charCells a secret.toList)) :
    Hidden R secret a (replaceCells s pattern) := by
  intro run p e hrun hspans
  obtain ⟨before, after, hparts⟩ := Passage.kept_of_infix starCells_ne_nil hrun
    (hspans.not_mem_new starCells_origin)
  have htext : x ++ charCells a secret.toList ++ y =
      Passage.text before ++ run ++ Passage.text after := by
    rw [← hs, ← text_cellParts pattern s, hparts]
    simp
  obtain ⟨left, mid, right, rfl, hleft, hmid, hright⟩ := Passage.infix_split htext
  obtain ⟨e', hspans, hspansRight⟩ := spans_append.mp hspans
  obtain ⟨p', hspansLeft, hspansMid⟩ := spans_append.mp hspans
  have hsmall : e' - p' < R.leakLen := by
    refine hspares secret a x y hsite hs htouches (before ++ left.map .kept) mid
      (right.map .kept ++ after) p' e' ?_ hmid hspansMid
    rw [hparts]
    simp
  have hlower := hspansLeft.end_le fun cell hcell => hx cell (hleft hcell)
  have hupper := hspansRight.le_start fun cell hcell => hy cell (hright hcell)
  omega

/-- What no match touches stays, and its own pattern does not miss it. -/
theorem Whole.pass (hsite : R.Site stream secret a) {s : List Cell} {pattern : List Char}
    (hspares : R.Spares stream s pattern) (h : Whole secret a s) :
    Hidden R secret a (replaceCells s pattern) ∨
      (Whole secret a (replaceCells s pattern) ∧ pattern ≠ secret.toList) := by
  obtain ⟨x, y, hs, hx, hy⟩ := h
  by_cases htouches : Passage.Touches (cellParts pattern s) x (charCells a secret.toList)
  · exact .inl (Whole.touched hsite hspares hs hx hy htouches)
  · have htext : Passage.text (cellParts pattern s) = x ++ charCells a secret.toList ++ y := by
      rw [text_cellParts, hs]
    obtain ⟨before, after, hparts, hbefore, hafter⟩ :=
      Passage.kept_of_untouched hsite.cells_ne_nil htext htouches
    refine .inr ⟨⟨Passage.replaced starCells before, Passage.replaced starCells after, ?_, ?_, ?_⟩, ?_⟩
    · rw [replaceCells, hparts]
      simp
    · intro cell hcell p n horigin
      rcases mem_replaced hcell with hstar | hold
      · rw [starCells_origin cell hstar] at horigin
        cases horigin
      · exact hx cell (hbefore ▸ hold) p n horigin
    · intro cell hcell p n horigin
      rcases mem_replaced hcell with hstar | hold
      · rw [starCells_origin cell hstar] at horigin
        cases horigin
      · exact hy cell (hafter ▸ hold) p n horigin
    · rintro rfl
      obtain ⟨c, cs, hcs⟩ := List.exists_cons_of_ne_nil hsite.ne_nil
      rw [cellParts, if_neg (by simpa using hsite.ne_nil)] at hparts
      rw [hcs, charCells, List.map_cons, List.append_assoc, List.cons_append] at hparts
      refine Passage.not_match_of_kept Cell.char (by simp) 0 s hparts ?_
      simp [charCells_char]

theorem Whole.passes (hsite : R.Site stream secret a) {patterns : List (List Char)}
    {s : List Cell} (hspares : R.SparesAll stream s patterns)
    (h : Hidden R secret a s ∨ Whole secret a s ∧ secret.toList ∈ patterns) :
    Hidden R secret a (patterns.foldl replaceCells s) := by
  induction patterns generalizing s with
  | nil =>
      rcases h with h | ⟨-, h⟩
      · exact h
      · cases h
  | cons pattern patterns ih =>
      refine ih hspares.2 ?_
      rcases h with h | ⟨h, hmem⟩
      · exact .inl (h.pass pattern)
      · rcases h.pass hsite hspares.1 with h | ⟨h, hne⟩
        · exact .inl h
        · refine .inr ⟨h, ?_⟩
          rcases List.mem_cons.mp hmem with rfl | hmem
          · exact absurd rfl hne
          · exact hmem

theorem Site.mem_patterns (hsite : R.Site stream secret a) : secret.toList ∈ R.patterns := by
  have hlong : R.minLen ≤ secret.utf8ByteSize := Nat.le_trans (Nat.le_max_right _ _) hsite.long
  exact List.mem_flatMap.mpr ⟨secret, hsite.registered, by simp [hlong]⟩

/-- In a window that holds it, an occurrence is decoded whole. -/
theorem Site.whole (hsite : R.Site stream secret a) {start : Nat} {window : List UInt8}
    (hwindow : window <+: stream.drop start) (hstart : start ≤ a)
    (hend : a + secret.utf8ByteSize ≤ start + window.length) :
    Whole secret a (decodeCells start 0 window) := by
  obtain ⟨tail, htail⟩ := hsite.occurs
  obtain ⟨later, hlater⟩ := hwindow
  have hsize := length_secretBytes secret
  have hjoin : window.drop (a - start) ++ later = secret.toUTF8.data.toList ++ tail := by
    rw [htail, ← List.drop_append_of_le_length (by omega), hlater, List.drop_drop]
    congr 1
    omega
  obtain ⟨rest, hrest⟩ : ∃ rest, window.drop (a - start) = secret.toUTF8.data.toList ++ rest := by
    rcases List.append_eq_append_iff.mp hjoin with ⟨w, hw, -⟩ | ⟨w, hw, -⟩
    · have hlength := congrArg List.length hw
      rw [List.length_append, hsize, List.length_drop] at hlength
      have hnil : w = [] := List.length_eq_zero_iff.mp (by omega)
      rw [hnil, List.append_nil] at hw
      exact ⟨[], by rw [List.append_nil, hw]⟩
    · exact ⟨w, hw⟩
  have hsplit : window = window.take (a - start) ++ (secret.toUTF8.data.toList ++ rest) := by
    rw [← hrest, List.take_append_drop]
  have htake : start + (window.take (a - start)).length = a := by
    rw [List.length_take]
    omega
  rw [bytes_eq] at hsplit
  obtain ⟨cells, hcells, hends⟩ := decodeCells_append
    (fun b tail h => starts_char hsite.ne_nil h) start 0 (window.take (a - start)) (Nat.zero_le _)
  rw [← hsplit, htake, decodeCells_chars, ← bytes_eq, hsize] at hcells
  rw [htake] at hends
  refine ⟨cells, _, by rw [hcells, List.append_assoc], hends, ?_⟩
  intro cell hcell p n horigin
  have hwithin := decodeCells_within hcell horigin
  omega

/-- Too little of an occurrence in the window is too little of it in the line. -/
theorem hidden_of_cut {start : Nat} {window : List UInt8}
    (hcut : min (a + secret.utf8ByteSize) (start + window.length) - max a start < R.leakLen) :
    Hidden R secret a (decodeCells start 0 window) := by
  intro run p e hrun hspans
  have hpos : 1 ≤ R.leakLen := Nat.le_max_left _ _
  have hend := hspans.end_le (a := start + window.length) fun cell hcell q n horigin =>
    (decodeCells_within (hrun.subset hcell) horigin).2
  have hstart := hspans.le_start (b := start) fun cell hcell q n horigin =>
    (decodeCells_within (hrun.subset hcell) horigin).1
  omega

end Occurrence

/-! ## The windows of a stream -/

theorem placed_map {β : Type} (f : Piece → β) (start : Nat) (pieces : List Piece) :
    (placed start pieces).map (fun q => f q.2) = pieces.map f := by
  induction pieces generalizing start with
  | nil => rfl
  | cons piece pieces ih => simp [placed, ih]

theorem lastPiece_line (R : StreamingRedactor) (kept : List UInt8) :
    (R.lastPiece kept).map R.line = R.finish kept := by
  rw [lastPiece, finish]
  split
  · rfl
  · split <;> rfl

theorem lastPiece_window {R : StreamingRedactor} {kept : List UInt8} {piece : Piece}
    (h : R.lastPiece kept = some piece) : piece.window <+: kept := by
  rw [lastPiece] at h
  split at h
  · cases h
  · split at h <;> cases h
    · exact List.take_prefix _ _
    · exact List.prefix_rfl

theorem cut_window {R : StreamingRedactor} {buf rest : List UInt8} {piece : Piece}
    (h : R.cut buf = some (piece, rest)) :
    piece.window <+: buf ∧ rest = buf.drop piece.taken := by
  obtain ⟨hrest, ⟨rfl, -⟩ | ⟨nl, -, -, rfl⟩⟩ := cut_cases h
  · exact ⟨List.take_prefix _ _, hrest⟩
  · exact ⟨List.take_prefix _ _, hrest⟩

/-- Every piece masks bytes that stand in the stream at its place. -/
theorem windows_of_drains {R : StreamingRedactor} {stream buf kept : List UInt8}
    {rounds : List Piece} (h : Cutter.Drains R.cut buf rounds kept) {start : Nat}
    (hbuf : buf = stream.drop start) :
    ∀ q ∈ placed start (rounds ++ (R.lastPiece kept).toList), q.2.window <+: stream.drop q.1 := by
  induction h generalizing start with
  | @stop buf hstop =>
      intro q hq
      cases hlast : R.lastPiece buf with
      | none => simp [hlast, placed] at hq
      | some piece =>
          obtain rfl : q = (start, piece) := by simpa [hlast, placed] using hq
          rw [← hbuf]
          exact lastPiece_window hlast
  | next hnext _ ih =>
      obtain ⟨hwindow, hrest⟩ := cut_window hnext
      intro q hq
      rw [List.cons_append, placed, List.mem_cons] at hq
      rcases hq with rfl | hq
      · rw [← hbuf]
        exact hwindow
      · refine ih ?_ q hq
        rw [hrest, hbuf, List.drop_drop]

theorem output_of_cuts {R : StreamingRedactor} (hcap : 1 ≤ R.lineCap)
    {chunks : List (List UInt8)} {pieces : List Piece} (h : R.Cuts chunks pieces) :
    R.output [] chunks = (placed 0 pieces).map fun q => (R.cells q.1 q.2).map Cell.char := by
  obtain ⟨rounds, kept, hfeeds, rfl⟩ := h
  obtain ⟨rounds', kept', hfeeds', houtput⟩ := feeds_output hcap [] chunks
  obtain ⟨rfl, rfl⟩ := (feeds_drains hcap hfeeds).unique (feeds_drains hcap hfeeds')
  simp only [cells_char, placed_map, houtput, List.map_append, ← lastPiece_line,
    Option.toList_map]

/-! ## Safety -/

theorem not_leaks {R : StreamingRedactor} {stream : List UInt8} {start : Nat} {piece : Piece}
    (hwindow : piece.window <+: stream.drop start)
    (huncut : ∀ secret a, R.Site stream secret a → R.Uncut start piece.window secret a)
    (hspares : R.SparesAll stream (decodeCells start 0 piece.window) R.patterns) :
    ¬ R.Leaks stream (R.cells start piece) := by
  rintro ⟨secret, hmem, -, a, hoccurs, run, p, e, hrun, hspans, hleak⟩
  have hsite : R.Site stream secret a := ⟨hmem, by omega, hoccurs⟩
  have hline : run <:+: R.maskCells (decodeCells start 0 piece.window) := by
    rw [cells] at hrun
    split at hrun
    · exact infix_of_marked (by simp) hrun hspans
    · exact hrun
  have hhidden : Hidden R secret a (R.maskCells (decodeCells start 0 piece.window)) := by
    refine Whole.passes hsite hspares ?_
    rcases huncut secret a hsite with ⟨hstart, hend⟩ | hcut
    · exact .inr ⟨hsite.whole hwindow hstart hend, hsite.mem_patterns⟩
    · exact .inl (hidden_of_cut hcut)
  have hshort := hhidden run p e hline hspans
  omega

end StreamingRedactor

open StreamingRedactor

/-- One match takes the whole text. -/
private theorem spares_of_found {R : StreamingRedactor} {stream : List UInt8} {s block : List Cell}
    {pattern : List Char} (h : cellParts pattern s = [.found block]) :
    R.Spares stream s pattern := by
  intro secret a x y _ _ _ before run after p e hparts _ hspans
  rw [h] at hparts
  cases run with
  | nil =>
      obtain rfl : p = e := hspans
      have hpos : 1 ≤ R.leakLen := Nat.le_max_left _ _
      omega
  | cons cell run =>
      have hmem : Passage.kept cell ∈ [Passage.found block] := by
        rw [hparts]
        simp
      simp at hmem

theorem length_charCells (pos : Nat) (cs : List Char) : (charCells pos cs).length = cs.length := by
  rw [← List.length_map (f := Cell.char), charCells_char]

/-- No occurrence fits the text. -/
private theorem spares_of_short {R : StreamingRedactor} {stream : List UInt8} {s : List Cell}
    (h : ∀ secret ∈ R.secrets, s.length < secret.toList.length) (pattern : List Char) :
    R.Spares stream s pattern := by
  intro secret a x y hsite hs
  have hlength := congrArg List.length hs
  have hshort := h secret hsite.registered
  rw [List.length_append, List.length_append, length_charCells] at hlength
  omega

theorem spans_charCells (p : Nat) (cs : List Char) :
    Spans p (charCells p cs) (p + (cs.map Char.utf8Size).sum) := by
  induction cs generalizing p with
  | nil => rfl
  | cons c cs ih =>
      refine ⟨c.utf8Size, rfl, ?_⟩
      have hrest := ih (p + c.utf8Size)
      rwa [List.map_cons, List.sum_cons, ← Nat.add_assoc]

/-- A cap of sixteen bytes, as the tests of the redactor have it. -/
def narrowRedactor : StreamingRedactor := { secrets := ["secret123"], minLen := 6, lineCap := 16 }

/-- Eight bytes and then the secret: the split comes one byte before its end. -/
def straddling : List UInt8 := List.replicate 8 120 ++ "secret123".toUTF8.data.toList

end AgentGrid.Node
