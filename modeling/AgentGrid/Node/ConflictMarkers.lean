import AgentGrid.Node.SpoolQueue

/-!
# Conflict markers

`resolve_conflict_markers` tells markers from text by the first seven characters
of a line, and writes every line that it keeps with a newline.  A file that git
leaves behind is modelled as its plain lines and its hunks; the lines of a hunk
always end, and only the last plain line may not.

A hunk is read as git wrote it unless a line of a section begins like the marker
that would end the section, and a plain line that begins like the first marker
opens a hunk of its own.
-/

namespace AgentGrid.Node.ConflictMarkers

open AgentGrid.Foundation AgentGrid.Node

abbrev Text : Type := List Char

/-! ## The resolution -/

def oursMarker : Text := List.replicate 7 '<'

def baseMarker : Text := List.replicate 7 '|'

def separator : Text := List.replicate 7 '='

def theirsMarker : Text := List.replicate 7 '>'

def startsWith (line marker : Text) : Bool := marker.isPrefixOf line

structure Scan where
  ours : List Text := []
  theirs : List Text := []
  inBase : Bool := false
  inTheirs : Bool := false
deriving DecidableEq

/-- The lines of a hunk up to its end, and the lines after it. -/
def scanHunk : List Text → Scan → Option (Scan × List Text)
  | [], _ => none
  | l :: lines, s =>
      if startsWith l baseMarker && !s.inTheirs then scanHunk lines { s with inBase := true }
      else if startsWith l separator && !s.inTheirs then
        scanHunk lines { s with inTheirs := true, inBase := false }
      else if startsWith l theirsMarker then some (s, lines)
      else if s.inTheirs then scanHunk lines { s with theirs := s.theirs ++ [l] }
      else if !s.inBase then scanHunk lines { s with ours := s.ours ++ [l] }
      else scanHunk lines s

theorem scanHunk_length {lines : List Text} {s s' : Scan} {rest : List Text}
    (h : scanHunk lines s = some (s', rest)) : rest.length < lines.length := by
  induction lines generalizing s with
  | nil => cases h
  | cons l lines ih =>
      rw [scanHunk] at h
      split at h
      · exact Nat.lt_succ_of_lt (ih h)
      · split at h
        · exact Nat.lt_succ_of_lt (ih h)
        · split at h
          · cases h
            exact Nat.lt_succ_self _
          · split at h
            · exact Nat.lt_succ_of_lt (ih h)
            · split at h
              · exact Nat.lt_succ_of_lt (ih h)
              · exact Nat.lt_succ_of_lt (ih h)

def trimEnd (line : Text) : Text := line.rdropWhile isWhitespace

def norm (side : List Text) : List Text := (side.map trimEnd).filter fun line => !line.isEmpty

def keepSide (ours theirs : List Text) : Option (List Text) :=
  if ours = theirs then some ours
  else if ours = [] then some theirs
  else if theirs = [] then some ours
  else if norm ours = norm theirs then some theirs
  else none

def resolveLines : List Text → Text → Option Text
  | [], out => some out
  | line :: lines, out =>
      if !startsWith line oursMarker then resolveLines lines (out ++ line ++ ['\n'])
      else
        match _hscan : scanHunk lines {} with
        | none => none
        | some (s, rest) =>
            if !s.inTheirs then none
            else
              match keepSide s.ours s.theirs with
              | none => none
              | some keep => resolveLines rest (out ++ unlines keep)
termination_by lines => lines.length
decreasing_by
  · exact Nat.lt_succ_self _
  · exact Nat.lt_succ_of_lt (scanHunk_length _hscan)

def resolveConflictMarkers (content : Text) : Option Text :=
  if decide (oursMarker <:+: content) then resolveLines (lines content) [] else none

/-- The files that a pass writes: all that are in conflict, or none. -/
def resolveFiles {κ : Type} (files : List (κ × Option Text)) : Option (List (κ × Text)) :=
  files.mapM fun file => (file.2.bind resolveConflictMarkers).map fun new => (file.1, new)

/-! ## Files in conflict -/

/-- The text of a line, without its newline. -/
abbrev Row : Type := { text : Text // '\n' ∉ text }

/-- Each marker goes on with a label of its own. -/
structure Hunk where
  ours : List Row
  base : Option (Row × List Row) := none
  theirs : List Row
  oursLabel : Row
  separatorLabel : Row := ⟨[], List.not_mem_nil⟩
  theirsLabel : Row

def Hunk.head (h : Hunk) : List Text :=
  h.ours.map Subtype.val ++
    match h.base with
    | none => []
    | some (label, rows) => (baseMarker ++ label.val) :: rows.map Subtype.val

/-- The lines of a hunk after the first. -/
def Hunk.body (h : Hunk) : List Text :=
  h.head ++ (separator ++ h.separatorLabel.val) ::
    (h.theirs.map Subtype.val ++ [theirsMarker ++ h.theirsLabel.val])

def Hunk.texts (h : Hunk) : List Text := (oursMarker ++ h.oursLabel.val) :: h.body

inductive Piece
  | plain (row : Row)
  | hunk (h : Hunk)

def Piece.texts : Piece → List Text
  | .plain row => [row.val]
  | .hunk h => h.texts

structure ConflictFile where
  pieces : List Piece
  /-- What stands after the last newline. -/
  last : Row := ⟨[], List.not_mem_nil⟩

def ConflictFile.content (f : ConflictFile) : Text :=
  unlines (f.pieces.flatMap Piece.texts) ++ f.last.val

/-! ## What a resolution is for -/

def Hunk.sides (h : Hunk) : List Text × List Text :=
  (h.ours.map Subtype.val, h.theirs.map Subtype.val)

/-- The sides are identical, one is empty, or they differ only in trailing
whitespace and blank lines. -/
def Hunk.Trivial (h : Hunk) : Prop :=
  h.sides.1 = h.sides.2 ∨ h.sides.1 = [] ∨ h.sides.2 = [] ∨ norm h.sides.1 = norm h.sides.2

def Hunk.kept (h : Hunk) : List Text := (keepSide h.sides.1 h.sides.2).getD []

def Piece.kept : Piece → List Text
  | .plain row => [row.val]
  | .hunk h => h.kept

def ConflictFile.kept (f : ConflictFile) : List Text := f.pieces.flatMap Piece.kept

/-- The plain text as it is, with the kept side of every hunk. -/
def ConflictFile.resolved (f : ConflictFile) : Text := unlines f.kept ++ f.last.val

def ConflictFile.Faithful (f : ConflictFile) : Prop :=
  ∀ out, resolveConflictMarkers f.content = some out →
    (∀ h, .hunk h ∈ f.pieces → h.Trivial) ∧ out = f.resolved

/-! ## What is read as it was written -/

/-- No line of a section begins like a marker that ends it. -/
structure Hunk.Clean (h : Hunk) : Prop where
  ours : ∀ row ∈ h.ours, startsWith row.val baseMarker = false ∧
    startsWith row.val separator = false ∧ startsWith row.val theirsMarker = false
  base : ∀ label rows, h.base = some (label, rows) → ∀ row ∈ rows,
    startsWith row.val separator = false ∧ startsWith row.val theirsMarker = false
  theirs : ∀ row ∈ h.theirs, startsWith row.val theirsMarker = false

/-- The first line before the separator that begins like it or like the last marker
begins like the last marker. -/
def Hunk.Shut (h : Hunk) : Prop :=
  ∃ before line after, h.head = before ++ line :: after ∧
    (∀ l ∈ before, startsWith l separator = false ∧ startsWith l theirsMarker = false) ∧
    startsWith line theirsMarker = true

def Hunk.Refused (h : Hunk) : Prop := h.Shut ∨ h.Clean ∧ ¬ h.Trivial

/-- Every line is read as what it is, up to a hunk that is refused. -/
def Clear : List Piece → Prop
  | [] => True
  | .plain row :: rest => startsWith row.val oursMarker = false ∧ Clear rest
  | .hunk h :: rest => h.Refused ∨ h.Clean ∧ Clear rest

/-- No first marker occurs, some hunk is refused, or the last line begins one. -/
def ConflictFile.Passed (f : ConflictFile) : Prop :=
  ¬ oursMarker <:+: f.content ∨ (∃ h, .hunk h ∈ f.pieces ∧ h.Refused) ∨
    startsWith f.last.val oursMarker = true

/-- Every kept line ends with a newline alone. -/
def ConflictFile.Unix (f : ConflictFile) : Prop :=
  (∀ l ∈ f.kept, l.getLast? ≠ some '\r') ∧ f.last.val = []

/-! ## Reading a hunk -/

section Scanning

theorem head_of_startsWith {line m : Text} {c : Char} (h : startsWith line (c :: m) = true) :
    line.head? = some c := by
  obtain ⟨rest, rfl⟩ := List.isPrefixOf_iff_prefix.mp h
  rfl

/-- A line begins like one marker at most. -/
theorem startsWith_other {line m m' : Text} {c c' : Char} (hne : c ≠ c')
    (h : startsWith line (c :: m) = true) : startsWith line (c' :: m') = false := by
  refine Bool.eq_false_iff.mpr fun h' => hne ?_
  exact Option.some_inj.mp ((head_of_startsWith h).symm.trans (head_of_startsWith h'))

theorem startsWith_append (m label : Text) : startsWith (m ++ label) m = true :=
  List.isPrefixOf_iff_prefix.mpr (List.prefix_append m label)

/-- The carriage return before a newline belongs to no marker. -/
theorem startsWith_stripCr {m : Text} (hm : '\r' ∉ m) (line : Text) :
    startsWith (stripCr line) m = startsWith line m := by
  rcases stripCr_cases line with hsame | hcut
  · rw [hsame]
  · rw [Bool.eq_iff_iff, startsWith, startsWith, List.isPrefixOf_iff_prefix,
      List.isPrefixOf_iff_prefix]
    constructor
    · intro h
      rw [hcut]
      exact h.trans (List.prefix_append _ _)
    · intro h
      rw [hcut] at h
      rcases List.prefix_concat_iff.mp h with hwhole | hbelow
      · rw [hwhole] at hm
        exact absurd (List.mem_append_right _ (List.mem_singleton.mpr rfl)) hm
      · exact hbelow

variable {ls rest ours : List Text}

theorem scan_ours (h : ∀ l ∈ ls, startsWith l baseMarker = false ∧
    startsWith l separator = false ∧ startsWith l theirsMarker = false) :
    scanHunk (ls ++ rest) { ours := ours } = scanHunk rest { ours := ours ++ ls } := by
  induction ls generalizing ours with
  | nil => rw [List.nil_append, List.append_nil]
  | cons l ls ih =>
      obtain ⟨hbase, hsep, hclose⟩ := h l List.mem_cons_self
      have hrest := @ih (ours ++ [l]) fun l' hl' => h l' (List.mem_cons_of_mem l hl')
      rw [List.append_assoc] at hrest
      rw [List.cons_append, scanHunk, hbase, hsep, hclose]
      exact hrest

theorem scan_base (h : ∀ l ∈ ls, startsWith l separator = false ∧
    startsWith l theirsMarker = false) :
    scanHunk (ls ++ rest) { ours := ours, inBase := true } =
      scanHunk rest { ours := ours, inBase := true } := by
  induction ls with
  | nil => rfl
  | cons l ls ih =>
      obtain ⟨hsep, hclose⟩ := h l List.mem_cons_self
      have hrest := ih fun l' hl' => h l' (List.mem_cons_of_mem l hl')
      rw [List.cons_append, scanHunk, hsep, hclose]
      split
      · exact hrest
      · exact hrest

theorem scan_theirs {theirs : List Text} (h : ∀ l ∈ ls, startsWith l theirsMarker = false) :
    scanHunk (ls ++ rest) { ours := ours, theirs := theirs, inTheirs := true } =
      scanHunk rest { ours := ours, theirs := theirs ++ ls, inTheirs := true } := by
  induction ls generalizing theirs with
  | nil => rw [List.nil_append, List.append_nil]
  | cons l ls ih =>
      have hrest := @ih (theirs ++ [l]) fun l' hl' => h l' (List.mem_cons_of_mem l hl')
      rw [List.append_assoc] at hrest
      rw [List.cons_append, scanHunk, h l List.mem_cons_self]
      simpa using hrest

theorem scan_before (rest : List Text) {l : Text} {s : Scan} (hs : s.inTheirs = false)
    (hsep : startsWith l separator = false) (hclose : startsWith l theirsMarker = false) :
    ∃ s', scanHunk (l :: rest) s = scanHunk rest s' ∧ s'.inTheirs = false := by
  rw [scanHunk, hsep, hclose, hs, Bool.false_and, if_neg Bool.false_ne_true,
    if_neg Bool.false_ne_true, if_neg Bool.false_ne_true]
  split
  · exact ⟨_, rfl, rfl⟩
  · split
    · exact ⟨_, rfl, rfl⟩
    · exact ⟨s, rfl, hs⟩

theorem scan_baseMarker {l : Text} (hl : startsWith l baseMarker = true) :
    scanHunk (l :: rest) { ours := ours } = scanHunk rest { ours := ours, inBase := true } := by
  rw [scanHunk, hl]
  rfl

theorem scan_separator {l : Text} (hl : startsWith l separator = true) (inBase : Bool) :
    scanHunk (l :: rest) { ours := ours, inBase := inBase } =
      scanHunk rest { ours := ours, inTheirs := true } := by
  have hbase : startsWith l baseMarker = false :=
    startsWith_other (show '=' ≠ '|' by decide) hl
  rw [scanHunk, hl, hbase]
  rfl

theorem scan_end {l : Text} (hl : startsWith l theirsMarker = true) (s : Scan) :
    scanHunk (l :: rest) s = some (s, rest) := by
  have hbase : startsWith l baseMarker = false :=
    startsWith_other (show '>' ≠ '|' by decide) hl
  have hsep : startsWith l separator = false :=
    startsWith_other (show '>' ≠ '=' by decide) hl
  rw [scanHunk, hl, hbase, hsep]
  rfl

/-- A hunk that ends before its separator. -/
theorem scan_shut {line : Text} {s : Scan} (hs : s.inTheirs = false)
    (h : ∀ l ∈ ls, startsWith l separator = false ∧ startsWith l theirsMarker = false)
    (hline : startsWith line theirsMarker = true) :
    ∃ s', scanHunk (ls ++ line :: rest) s = some (s', rest) ∧ s'.inTheirs = false := by
  induction ls generalizing s with
  | nil => exact ⟨s, scan_end hline s, hs⟩
  | cons l ls ih =>
      obtain ⟨hsep, hclose⟩ := h l List.mem_cons_self
      obtain ⟨s', hstep, hs'⟩ := scan_before (ls ++ line :: rest) hs hsep hclose
      rw [List.cons_append, hstep]
      exact ih hs' fun l' hl' => h l' (List.mem_cons_of_mem l hl')

end Scanning

/-! ## Keeping a side -/

section Keeping

theorem trimEnd_stripCr (line : Text) : trimEnd (stripCr line) = trimEnd line := by
  rcases stripCr_cases line with hsame | hcut
  · rw [hsame]
  · calc trimEnd (stripCr line) = trimEnd (stripCr line ++ ['\r']) := by
          rw [trimEnd, trimEnd, List.rdropWhile_concat_pos _ _ _ (by rfl)]
      _ = trimEnd line := by rw [← hcut]

theorem norm_stripCr (side : List Text) : norm (side.map stripCr) = norm side := by
  rw [norm, norm, List.map_map]
  exact congrArg _ (List.map_congr_left fun line _ => trimEnd_stripCr line)

theorem keepSide_stripCr (ours theirs : List Text) :
    keepSide (ours.map stripCr) (theirs.map stripCr) =
      (keepSide ours theirs).map (List.map stripCr) := by
  simp only [keepSide, norm_stripCr, List.map_eq_nil_iff]
  by_cases hsame : ours = theirs
  · rw [if_pos (congrArg _ hsame), if_pos hsame]
    rfl
  · rw [if_neg hsame]
    by_cases hstripped : ours.map stripCr = theirs.map stripCr
    · rw [if_pos hstripped]
      have hours : ours ≠ [] := by
        rintro rfl
        exact hsame (List.map_eq_nil_iff.mp hstripped.symm).symm
      have htheirs : theirs ≠ [] := by
        rintro rfl
        exact hsame (List.map_eq_nil_iff.mp hstripped)
      have hnorm : norm ours = norm theirs := by
        rw [← norm_stripCr ours, hstripped, norm_stripCr]
      rw [if_neg hours, if_neg htheirs, if_pos hnorm, hstripped]
      rfl
    · rw [if_neg hstripped]
      split
      · rfl
      · split
        · rfl
        · split
          · rfl
          · rfl

theorem keepSide_isSome (h : Hunk) : (keepSide h.sides.1 h.sides.2).isSome ↔ h.Trivial := by
  rw [keepSide]
  split
  · rename_i hsame
    exact iff_of_true rfl (.inl hsame)
  · rename_i hsame
    split
    · rename_i hours
      exact iff_of_true rfl (.inr (.inl hours))
    · rename_i hours
      split
      · rename_i htheirs
        exact iff_of_true rfl (.inr (.inr (.inl htheirs)))
      · rename_i htheirs
        split
        · rename_i hnorm
          exact iff_of_true rfl (.inr (.inr (.inr hnorm)))
        · rename_i hnorm
          refine iff_of_false Bool.false_ne_true ?_
          rintro (hsame' | hours' | htheirs' | hnorm')
          · exact hsame hsame'
          · exact hours hours'
          · exact htheirs htheirs'
          · exact hnorm hnorm'

end Keeping

/-! ## Reading a file -/

section Reading

variable {h : Hunk} {rest : List Text} {out : Text}

theorem marker_stripCr {m : Text} (hm : '\r' ∉ m) (label : Text) :
    startsWith (stripCr (m ++ label)) m = true :=
  (startsWith_stripCr hm _).trans (startsWith_append m label)

theorem forall_stripCr {rows : List Row} {m : Text} (hm : '\r' ∉ m)
    (hrows : ∀ row ∈ rows, startsWith row.val m = false) :
    ∀ l ∈ (rows.map Subtype.val).map stripCr, startsWith l m = false := by
  intro l hl
  obtain ⟨text, htext, rfl⟩ := List.mem_map.mp hl
  obtain ⟨row, hrow, rfl⟩ := List.mem_map.mp htext
  exact (startsWith_stripCr hm row.val).trans (hrows row hrow)

theorem scan_head (hclean : h.Clean) {l : Text} (hl : startsWith l separator = true) :
    scanHunk (h.head.map stripCr ++ l :: rest) {} =
      scanHunk rest { ours := h.sides.1.map stripCr, inTheirs := true } := by
  have hours : ∀ l ∈ (h.ours.map Subtype.val).map stripCr, startsWith l baseMarker = false ∧
      startsWith l separator = false ∧ startsWith l theirsMarker = false := fun l hl =>
    ⟨forall_stripCr (by decide) (fun row hrow => (hclean.ours row hrow).1) l hl,
      forall_stripCr (by decide) (fun row hrow => (hclean.ours row hrow).2.1) l hl,
      forall_stripCr (by decide) (fun row hrow => (hclean.ours row hrow).2.2) l hl⟩
  rw [Hunk.head, List.map_append, List.append_assoc, scan_ours hours]
  cases hbase : h.base with
  | none => exact scan_separator hl false
  | some base =>
      obtain ⟨label, rows⟩ := base
      have hrows : ∀ l ∈ (rows.map Subtype.val).map stripCr, startsWith l separator = false ∧
          startsWith l theirsMarker = false := fun l hl =>
        ⟨forall_stripCr (by decide) (fun row hrow => (hclean.base label rows hbase row hrow).1) l hl,
          forall_stripCr (by decide) (fun row hrow => (hclean.base label rows hbase row hrow).2) l
            hl⟩
      simp only [List.map_cons, List.cons_append]
      rw [scan_baseMarker (marker_stripCr (by decide) label.val), scan_base hrows,
        scan_separator hl true]
      rfl

theorem scan_clean (hclean : h.Clean) :
    scanHunk (h.body.map stripCr ++ rest) {} =
      some ({ ours := h.sides.1.map stripCr, theirs := h.sides.2.map stripCr, inTheirs := true },
        rest) := by
  have htheirs := forall_stripCr (m := theirsMarker) (by decide) hclean.theirs
  rw [Hunk.body, List.map_append, List.append_assoc, List.map_cons, List.cons_append,
    scan_head hclean (marker_stripCr (by decide) _), List.map_append, List.append_assoc,
    scan_theirs htheirs, List.map_singleton, List.singleton_append,
    scan_end (marker_stripCr (by decide) _)]
  rfl

theorem resolve_plain {line : Text} (hline : startsWith line oursMarker = false) :
    resolveLines (line :: rest) out = resolveLines rest (out ++ line ++ ['\n']) := by
  rw [resolveLines, hline]
  rfl

theorem resolve_hunk {line : Text} (hline : startsWith line oursMarker = true) :
    resolveLines (line :: rest) out =
      (scanHunk rest {}).bind fun found =>
        if found.1.inTheirs then
          (keepSide found.1.ours found.1.theirs).bind fun keep =>
            resolveLines found.2 (out ++ unlines keep)
        else none := by
  rw [resolveLines, hline]
  simp only [Bool.not_true, Bool.false_eq_true, if_false]
  split
  · rename_i hnone
    rw [hnone]
    rfl
  · rename_i s found hsome
    rw [hsome, Option.bind_some]
    cases hs : s.inTheirs with
    | false => rfl
    | true =>
        simp only [Bool.not_true, Bool.false_eq_true, if_false, if_true]
        split
        · rename_i hnone
          rw [hnone]
          rfl
        · rename_i keep hkeep
          rw [hkeep]
          rfl

theorem resolve_clean (hclean : h.Clean) :
    resolveLines (h.texts.map stripCr ++ rest) out =
      (keepSide h.sides.1 h.sides.2).bind fun keep =>
        resolveLines rest (out ++ unlines (keep.map stripCr)) := by
  rw [Hunk.texts, List.map_cons, List.cons_append,
    resolve_hunk (marker_stripCr (by decide) h.oursLabel.val), scan_clean hclean,
    Option.bind_some, if_pos rfl, keepSide_stripCr]
  cases keepSide h.sides.1 h.sides.2 with
  | none => rfl
  | some keep => rfl

theorem resolve_shut (hshut : h.Shut) :
    resolveLines (h.texts.map stripCr ++ rest) out = none := by
  obtain ⟨before, line, after, hhead, hbefore, hline⟩ := hshut
  have hstripped : ∀ l ∈ before.map stripCr, startsWith l separator = false ∧
      startsWith l theirsMarker = false := by
    intro l hl
    obtain ⟨text, htext, rfl⟩ := List.mem_map.mp hl
    rw [startsWith_stripCr (by decide), startsWith_stripCr (by decide)]
    exact hbefore text htext
  have hend : startsWith (stripCr line) theirsMarker = true :=
    (startsWith_stripCr (by decide) line).trans hline
  rw [Hunk.texts, List.map_cons, List.cons_append,
    resolve_hunk (marker_stripCr (by decide) h.oursLabel.val), Hunk.body, hhead]
  simp only [List.map_append, List.map_cons, List.append_assoc, List.cons_append]
  obtain ⟨s', hscan, hs'⟩ := scan_shut (s := {}) rfl hstripped hend
  rw [hscan, Option.bind_some, hs']
  rfl

theorem resolve_refused (hrefused : h.Refused) :
    resolveLines (h.texts.map stripCr ++ rest) out = none := by
  rcases hrefused with hshut | ⟨hclean, htrivial⟩
  · exact resolve_shut hshut
  · have hnone : keepSide h.sides.1 h.sides.2 = none :=
      Option.not_isSome_iff_eq_none.mp fun hsome => htrivial ((keepSide_isSome h).mp hsome)
    rw [resolve_clean hclean, hnone]
    rfl

/-- A file that is read as it was written, up to what stands after it. -/
theorem resolve_pieces (rest : List Text) (out : Text) {pieces : List Piece}
    (hclear : Clear pieces) :
    ((∃ h, .hunk h ∈ pieces ∧ h.Refused) →
      resolveLines ((pieces.flatMap Piece.texts).map stripCr ++ rest) out = none) ∧
    ((¬ ∃ h, .hunk h ∈ pieces ∧ h.Refused) →
      (∀ h, .hunk h ∈ pieces → h.Trivial) ∧
      resolveLines ((pieces.flatMap Piece.texts).map stripCr ++ rest) out =
        resolveLines rest (out ++ unlines ((pieces.flatMap Piece.kept).map stripCr))) := by
  induction pieces generalizing out with
  | nil =>
      constructor
      · rintro ⟨h, hmem, -⟩
        cases hmem
      · refine fun _ => ⟨fun _ hmem => absurd hmem List.not_mem_nil, ?_⟩
        simp [unlines]
  | cons piece pieces ih =>
      rw [List.flatMap_cons, List.map_append, List.append_assoc, List.flatMap_cons,
        List.map_append, unlines_append]
      cases piece with
      | plain row =>
          obtain ⟨hplain, hclear⟩ := hclear
          have hline : startsWith (stripCr row.val) oursMarker = false :=
            (startsWith_stripCr (by decide) row.val).trans hplain
          have hkept : out ++ stripCr row.val ++ ['\n'] =
              out ++ unlines ((Piece.plain row).kept.map stripCr) := by
            simp [Piece.kept, unlines]
          obtain ⟨hrefused, hread⟩ :=
            @ih (out ++ unlines ((Piece.plain row).kept.map stripCr)) hclear
          rw [List.append_assoc] at hread
          rw [Piece.texts, List.map_singleton, List.singleton_append, resolve_plain hline, hkept]
          constructor
          · rintro ⟨h, hmem, href⟩
            rcases List.mem_cons.mp hmem with hnot | hmem
            · cases hnot
            · exact hrefused ⟨h, hmem, href⟩
          · intro hnone
            obtain ⟨htrivial, hout⟩ := hread (by
              rintro ⟨h, hmem, href⟩
              exact hnone ⟨h, List.mem_cons_of_mem _ hmem, href⟩)
            refine ⟨fun h hmem => ?_, hout⟩
            rcases List.mem_cons.mp hmem with hnot | hmem
            · cases hnot
            · exact htrivial h hmem
      | hunk h =>
          rw [Piece.texts]
          by_cases href : h.Refused
          · exact ⟨fun _ => resolve_refused href,
              fun hnone => absurd ⟨h, List.mem_cons_self, href⟩ hnone⟩
          · obtain ⟨hclean, hclear⟩ := hclear.resolve_left href
            have htriv : h.Trivial := by
              by_contra htriv
              exact href (.inr ⟨hclean, htriv⟩)
            obtain ⟨keep, hkeep⟩ := Option.isSome_iff_exists.mp ((keepSide_isSome h).mpr htriv)
            have hkept : (Piece.hunk h).kept = keep := by
              rw [Piece.kept, Hunk.kept, hkeep, Option.getD_some]
            obtain ⟨hrefused, hread⟩ := @ih (out ++ unlines (keep.map stripCr)) hclear
            rw [List.append_assoc] at hread
            rw [resolve_clean hclean, hkeep, Option.bind_some, hkept]
            constructor
            · rintro ⟨h', hmem, href'⟩
              rcases List.mem_cons.mp hmem with hsame | hmem
              · cases hsame
                exact absurd href' href
              · exact hrefused ⟨h', hmem, href'⟩
            · intro hnone
              obtain ⟨htrivial, hout⟩ := hread (by
                rintro ⟨h', hmem, href'⟩
                exact hnone ⟨h', List.mem_cons_of_mem _ hmem, href'⟩)
              refine ⟨fun h' hmem => ?_, hout⟩
              rcases List.mem_cons.mp hmem with hsame | hmem
              · cases hsame
                exact htriv
              · exact htrivial h' hmem

end Reading

/-! ## Faithful resolution -/

section Faithful

variable {f : ConflictFile}

theorem newline_not_mem_vals (rows : List Row) : ∀ l ∈ rows.map Subtype.val, '\n' ∉ l := by
  intro l hl
  obtain ⟨row, -, rfl⟩ := List.mem_map.mp hl
  exact row.property

theorem newline_not_mem_marker {m : Text} (hm : '\n' ∉ m) (label : Row) : '\n' ∉ m ++ label.val :=
  fun h => (List.mem_append.mp h).elim hm label.property

theorem Hunk.newline_not_mem_head (h : Hunk) : ∀ l ∈ h.head, '\n' ∉ l := by
  intro l hl
  rcases List.mem_append.mp hl with hours | hbase
  · exact newline_not_mem_vals h.ours l hours
  · split at hbase
    · cases hbase
    · rename_i label rows hbase'
      rcases List.mem_cons.mp hbase with rfl | hrow
      · exact newline_not_mem_marker (by decide) label
      · exact newline_not_mem_vals rows l hrow

theorem Piece.newline_not_mem_texts (piece : Piece) : ∀ l ∈ piece.texts, '\n' ∉ l := by
  intro l hl
  cases piece with
  | plain row => exact List.mem_singleton.mp hl ▸ row.property
  | hunk h =>
      rcases List.mem_cons.mp hl with rfl | hl
      · exact newline_not_mem_marker (by decide) h.oursLabel
      · rcases List.mem_append.mp hl with hhead | hl
        · exact h.newline_not_mem_head l hhead
        · rcases List.mem_cons.mp hl with rfl | hl
          · exact newline_not_mem_marker (by decide) h.separatorLabel
          · rcases List.mem_append.mp hl with htheirs | hend
            · exact newline_not_mem_vals h.theirs l htheirs
            · rw [List.mem_singleton.mp hend]
              exact newline_not_mem_marker (by decide) h.theirsLabel

/-- What is kept of a hunk is one of its sides. -/
theorem mem_keepSide {ours theirs keep : List Text} (h : keepSide ours theirs = some keep) :
    keep = ours ∨ keep = theirs := by
  rw [keepSide] at h
  split at h
  · exact .inl (Option.some_inj.mp h).symm
  · split at h
    · exact .inr (Option.some_inj.mp h).symm
    · split at h
      · exact .inl (Option.some_inj.mp h).symm
      · split at h
        · exact .inr (Option.some_inj.mp h).symm
        · cases h

theorem Piece.newline_not_mem_kept (piece : Piece) : ∀ l ∈ piece.kept, '\n' ∉ l := by
  intro l hl
  cases piece with
  | plain row => exact List.mem_singleton.mp hl ▸ row.property
  | hunk h =>
      rw [Piece.kept, Hunk.kept] at hl
      cases hkeep : keepSide h.sides.1 h.sides.2 with
      | none => rw [hkeep] at hl; cases hl
      | some keep =>
          rw [hkeep, Option.getD_some] at hl
          rcases mem_keepSide hkeep with rfl | rfl
          · exact newline_not_mem_vals h.ours l hl
          · exact newline_not_mem_vals h.theirs l hl

theorem newline_not_mem_flatMap {g : Piece → List Text} (hg : ∀ piece, ∀ l ∈ g piece, '\n' ∉ l)
    (pieces : List Piece) : ∀ l ∈ pieces.flatMap g, '\n' ∉ l := by
  intro l hl
  obtain ⟨piece, -, hpiece⟩ := List.mem_flatMap.mp hl
  exact hg piece l hpiece

/-- The last line of a file, when no newline ends it. -/
def ConflictFile.tail (f : ConflictFile) : List Text := if f.last.val = [] then [] else [f.last.val]

theorem lines_content (f : ConflictFile) :
    lines f.content = (f.pieces.flatMap Piece.texts).map stripCr ++ f.tail := by
  rw [ConflictFile.content, lines, unlines,
    pieces_terminated_append (newline_not_mem_flatMap Piece.newline_not_mem_texts f.pieces),
    List.map_append, List.map_map]
  refine congrArg _ ?_
  rw [ConflictFile.tail]
  split
  · rename_i hnil
    rw [hnil]
    rfl
  · rename_i hne
    rw [pieces_unended f.last.property hne]
    rfl

theorem stripCr_eq_self {line : Text} : stripCr line = line ↔ line.getLast? ≠ some '\r' := by
  constructor
  · intro h hlast
    rw [stripCr, if_pos hlast] at h
    have hlength := congrArg List.length h
    have hpos := List.length_pos_of_mem (List.mem_of_getLast? hlast)
    rw [List.length_dropLast] at hlength
    omega
  · intro h
    rw [stripCr, if_neg h]

/-- What is written of a file is what it resolves to. -/
theorem written_iff (f : ConflictFile) :
    unlines (f.kept.map stripCr) ++ unlines f.tail = f.resolved ↔ f.Unix := by
  have hkept : ∀ l ∈ f.kept, '\n' ∉ l :=
    newline_not_mem_flatMap Piece.newline_not_mem_kept f.pieces
  rw [ConflictFile.resolved, ConflictFile.Unix, ConflictFile.tail]
  by_cases hlast : f.last.val = []
  · rw [if_pos hlast, hlast]
    have hstripped : ∀ l ∈ f.kept.map stripCr, '\n' ∉ l := by
      intro l hl
      obtain ⟨text, htext, rfl⟩ := List.mem_map.mp hl
      exact newline_not_mem_stripCr (hkept text htext)
    constructor
    · intro h
      have hsame := terminated_inj hstripped hkept (by simpa [unlines] using h)
      refine ⟨fun l hl => stripCr_eq_self.mp ?_, rfl⟩
      exact List.map_inj_left.mp (hsame.trans (List.map_id _).symm) l hl
    · rintro ⟨hunix, -⟩
      rw [List.map_congr_left fun l hl => stripCr_eq_self.mpr (hunix l hl), List.map_id']
      rfl
  · rw [if_neg hlast]
    refine iff_of_false (fun h => ?_) fun h => hlast h.2
    have hend := congrArg List.getLast? h
    rw [List.getLast?_append_of_ne_nil _ (by simp [unlines]),
      List.getLast?_append_of_ne_nil _ hlast] at hend
    have hnewline : (unlines [f.last.val]).getLast? = some '\n' := by simp [unlines]
    exact f.last.property (List.mem_of_getLast? (hend.symm.trans hnewline))

/-- The last line, after a file that was read to its end. -/
theorem resolve_tail (f : ConflictFile) (out : Text) :
    resolveLines f.tail out =
      if startsWith f.last.val oursMarker then none else some (out ++ unlines f.tail) := by
  rw [ConflictFile.tail]
  by_cases hlast : f.last.val = []
  · rw [if_pos hlast, hlast, resolveLines]
    simp [startsWith, oursMarker, unlines]
  · rw [if_neg hlast]
    cases hopens : startsWith f.last.val oursMarker with
    | true => exact resolve_hunk hopens
    | false =>
        rw [resolve_plain hopens, resolveLines]
        simp [unlines]

theorem resolve_content (hclear : Clear f.pieces) (hpassed : ¬ f.Passed) :
    (∀ h, .hunk h ∈ f.pieces → h.Trivial) ∧
      resolveConflictMarkers f.content =
        some (unlines (f.kept.map stripCr) ++ unlines f.tail) := by
  have hmentions : oursMarker <:+: f.content := by
    by_contra hmentions
    exact hpassed (.inl hmentions)
  obtain ⟨htrivial, hread⟩ := (resolve_pieces f.tail [] hclear).2 fun hrefused =>
    hpassed (.inr (.inl hrefused))
  have hopens : startsWith f.last.val oursMarker = false :=
    Bool.eq_false_iff.mpr fun hopens => hpassed (.inr (.inr hopens))
  refine ⟨htrivial, ?_⟩
  rw [resolveConflictMarkers, decide_eq_true hmentions, if_pos rfl, lines_content, hread,
    resolve_tail, hopens]
  rfl

theorem resolve_passed (hclear : Clear f.pieces) (hpassed : f.Passed) :
    resolveConflictMarkers f.content = none := by
  rw [resolveConflictMarkers]
  split
  · rename_i hmentions
    rw [lines_content]
    obtain ⟨hnone, hread⟩ := resolve_pieces f.tail [] hclear
    by_cases hrefused : ∃ h, .hunk h ∈ f.pieces ∧ h.Refused
    · exact hnone hrefused
    · have hopens : startsWith f.last.val oursMarker = true :=
        (hpassed.resolve_left (absurd (of_decide_eq_true hmentions))).resolve_left hrefused
      rw [(hread hrefused).2, resolve_tail, hopens]
      rfl
  · rfl

/-- A file that is read as it was written is resolved faithfully, when it is passed
over or has nothing but newlines to end its lines. -/
theorem resolution_faithful_iff (hclear : Clear f.pieces) :
    f.Faithful ↔ f.Passed ∨ f.Unix := by
  by_cases hpassed : f.Passed
  · refine iff_of_true (fun out hout => ?_) (.inl hpassed)
    cases (resolve_passed hclear hpassed).symm.trans hout
  · obtain ⟨htrivial, hsome⟩ := resolve_content hclear hpassed
    constructor
    · intro h
      exact .inr ((written_iff f).mp (h _ hsome).2)
    · rintro (hpassed' | hunix) out hout
      · exact absurd hpassed' hpassed
      · refine ⟨htrivial, ?_⟩
        rw [← (written_iff f).mpr hunix]
        exact Option.some_inj.mp (hout.symm.trans hsome)

end Faithful

/-! ## Two conflicts -/

def oursRow : Row := ⟨" HEAD".toList, by decide⟩

def theirsRow : Row := ⟨" pick".toList, by decide⟩

/-- The sides differ in trailing blanks. -/
def blankConflict : ConflictFile where
  pieces := [.plain ⟨"head".toList, by decide⟩,
    .hunk {
      ours := [⟨"a ".toList, by decide⟩]
      theirs := [⟨['a'], by decide⟩]
      oursLabel := oursRow
      theirsLabel := theirsRow }]

theorem blankConflict_faithful : blankConflict.Faithful := by
  have hclean : Hunk.Clean {
      ours := [⟨"a ".toList, by decide⟩]
      theirs := [⟨['a'], by decide⟩]
      oursLabel := oursRow
      theirsLabel := theirsRow } := by
    constructor
    · exact List.forall_mem_singleton.mpr (by decide)
    · exact fun _ _ h => by cases h
    · exact List.forall_mem_singleton.mpr (by decide)
  have hclear : Clear blankConflict.pieces :=
    And.intro (by decide) (Or.inr (And.intro hclean True.intro))
  exact (resolution_faithful_iff hclear).mpr (.inr ⟨by decide, rfl⟩)

/-- Our side begins with a line that looks like the separator. -/
def headingConflict : ConflictFile where
  pieces := [.hunk {
    ours := [⟨"=======".toList, by decide⟩, ⟨['a'], by decide⟩]
    theirs := [⟨['b'], by decide⟩]
    oursLabel := oursRow
    theirsLabel := theirsRow }]

/-- Both sides and the separator are kept. -/
theorem separator_kept : ¬ ∀ f : ConflictFile, f.Faithful := by
  intro h
  have hlines : lines headingConflict.content = ["<<<<<<< HEAD".toList, "=======".toList, ['a'],
      "=======".toList, ['b'], ">>>>>>> pick".toList] := by decide
  have hread : resolveConflictMarkers headingConflict.content =
      some "a\n=======\nb\n".toList := by
    rw [resolveConflictMarkers, if_pos (by decide), hlines, resolve_hunk (by decide)]
    have hscan : scanHunk ["=======".toList, ['a'], "=======".toList, ['b'],
        ">>>>>>> pick".toList] {} =
          some (⟨[], [['a'], "=======".toList, ['b']], false, true⟩, []) := by decide
    rw [hscan, Option.bind_some, if_pos rfl]
    have hkeep : keepSide [] [['a'], "=======".toList, ['b']] =
        some [['a'], "=======".toList, ['b']] := by decide
    rw [hkeep, Option.bind_some, resolveLines]
    rfl
  have htrivial := (h headingConflict _ hread).1 _ (List.mem_singleton.mpr rfl)
  rcases htrivial with hsame | hours | htheirs | hnorm
  · exact absurd hsame (by decide)
  · exact absurd hours (by decide)
  · exact absurd htheirs (by decide)
  · exact absurd hnorm (by decide)

end AgentGrid.Node.ConflictMarkers
