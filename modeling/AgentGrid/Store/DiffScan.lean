import AgentGrid.Foundation.Lines
import AgentGrid.Store.Artifacts
import Mathlib.Data.List.Infix

/-!
# The scan of a patch

`scan_patch` reads a unified diff line by line.  It tells the lines apart by
how they start and knows no hunks: the current file is what the last `+++ `
line says.  A diff is modelled as its sections, with the lines of its hunks.
-/

namespace AgentGrid.Store

open AgentGrid.Foundation

inductive FindingRule
  | anthropicStyleKey | openaiStyleKey | githubFineGrained | githubPat | awsAccessKey
  | gcpServiceAccount | slackToken | binaryBlob | privateKey | oversizedAdditions
deriving DecidableEq

structure DiffFinding where
  rule : FindingRule
  file : List Char
  detail : List Char
deriving DecidableEq

def maxAddedLines : Nat := 500

def maxDetail : Nat := 200

def byteLen (s : List Char) : Nat := (s.map Char.utf8Size).sum

/-- As many characters as fit. -/
def clip : Nat → List Char → List Char
  | _, [] => []
  | room, c :: cs => if c.utf8Size ≤ room then c :: clip (room - c.utf8Size) cs else []

def truncate (s : List Char) : List Char :=
  if byteLen s ≤ maxDetail then s else clip (maxDetail - 1) s ++ ['…']

def secretRules : List (FindingRule × List Char) :=
  [(.anthropicStyleKey, ['s', 'k', '-', 'a', 'n', 't', '-']),
    (.openaiStyleKey, ['s', 'k', '-']),
    (.githubFineGrained, ['g', 'i', 't', 'h', 'u', 'b', '_', 'p', 'a', 't', '_']),
    (.githubPat, ['g', 'h', 'p', '_']),
    (.awsAccessKey, ['A', 'K', 'I', 'A']),
    (.gcpServiceAccount, ['A', 'K', 'I', 'D']),
    (.slackToken, ['x', 'o', 'x', 'b', '-'])]

def minLen (marker : List Char) : Nat := byteLen marker + 16

/-- The rule of the first marker that is in a line long enough for it. -/
def secretRule (content : List Char) : Option FindingRule :=
  (secretRules.find? fun rule =>
    decide (rule.2 <:+: content) && decide (minLen rule.2 ≤ byteLen content)).map Prod.fst

def secretFinding (file content : List Char) : Option DiffFinding :=
  (secretRule content).map fun rule =>
    ⟨rule, truncate file, "possible secret `".toList ++ truncate content ++ "` added".toList⟩

def trimEndCr (line : List Char) : List Char :=
  (line.reverse.dropWhile (· == '\r')).reverse

/-- `str::lines`, which drops a carriage return before a newline. -/
def textLines (patch : List Char) : List (List Char) :=
  (pieces '\n' patch).map fun (line, ended) =>
    if ended && ['\r'].isSuffixOf line then line.dropLast else line

/-- `trim_start_matches("b/")`, which drops as many as there are. -/
def trimStartB : List Char → List Char
  | 'b' :: '/' :: rest => trimStartB rest
  | text => text

def trimEndTab (text : List Char) : List Char :=
  (text.reverse.dropWhile (· == '\t')).reverse

/-- The file that a `+++ ` line is read as. -/
def headerFile (stripped : List Char) : List Char :=
  trimEndTab (trimStartB (trimChars stripped))

structure PatchScan where
  findings : List DiffFinding := []
  currentFile : List Char := []
  addedLines : Nat := 0

def plusHeader : List Char := ['+', '+', '+', ' ']

def trackFile (file line : List Char) : List Char :=
  match line.dropPrefix? plusHeader with
  | some stripped => headerFile stripped
  | none => file

def isAdded (line : List Char) : Bool :=
  ['+'].isPrefixOf line && !(['+', '+', '+'].isPrefixOf line)

def binaryFiles : List Char :=
  ['B', 'i', 'n', 'a', 'r', 'y', ' ', 'f', 'i', 'l', 'e', 's']

def gitBinaryPatch : List Char :=
  ['G', 'I', 'T', ' ', 'b', 'i', 'n', 'a', 'r', 'y', ' ', 'p', 'a', 't', 'c', 'h']

def isBinary (line : List Char) : Bool :=
  binaryFiles.isPrefixOf line || gitBinaryPatch.isPrefixOf line

def scanLine (s : PatchScan) (raw : List Char) : PatchScan :=
  let line := trimEndCr raw
  let file := trackFile s.currentFile line
  let s := { s with currentFile := file }
  if isBinary line then
    { s with findings := s.findings ++ [⟨.binaryBlob, truncate file,
        "binary content added (review the blob outside the diff)".toList⟩] }
  else if isAdded line then
    let content := line.drop 1
    { s with
      addedLines := s.addedLines + 1
      findings := s.findings ++ (secretFinding file content).toList ++
        (if "-----BEGIN".toList.isPrefixOf content ∧ "PRIVATE KEY-----".toList <:+: content then
          [⟨.privateKey, truncate file, "PEM private key material added".toList⟩] else []) }
  else s

def scanPatch (patch : List Char) : List DiffFinding :=
  let s := (textLines patch).foldl scanLine {}
  if maxAddedLines < s.addedLines then
    s.findings ++ [⟨.oversizedAdditions, [],
      "patch adds ".toList ++ Nat.toDigits 10 s.addedLines ++ " lines (>".toList ++
        Nat.toDigits 10 maxAddedLines ++ "); split the change".toList⟩]
  else s.findings

def DiffFinding.isSecret (f : DiffFinding) : Bool :=
  match f.rule with
  | .binaryBlob | .privateKey | .oversizedAdditions => false
  | _ => true

/-! ## Unified diffs -/

inductive HunkLine
  | context (text : List Char)
  | removed (text : List Char)
  | added (text : List Char)
  | noNewline

def noNewlineText : List Char :=
  ['\\', ' ', 'N', 'o', ' ', 'n', 'e', 'w', 'l', 'i', 'n', 'e', ' ', 'a', 't', ' ', 'e', 'n',
    'd', ' ', 'o', 'f', ' ', 'f', 'i', 'l', 'e']

def HunkLine.render : HunkLine → List Char
  | .context text => ' ' :: text
  | .removed text => '-' :: text
  | .added text => '+' :: text
  | .noNewline => noNewlineText

structure Hunk where
  /-- What follows the first two at signs. -/
  ranges : List Char
  lines : List HunkLine

/-- `path` is the file and `field` how the header writes it. -/
structure Header where
  path : List Char
  field : List Char

/-- Plain, behind `b/` and with a tab where it needs one, or quoted; the new
side of a deletion is `/dev/null`. -/
def Header.Spelled (h : Header) : Prop :=
  h.field = 'b' :: '/' :: h.path ∨ h.field = 'b' :: '/' :: (h.path ++ ['\t']) ∨
    (∃ quoted, h.field = '"' :: 'b' :: '/' :: (quoted ++ ['"'])) ∨
    h.field = h.path ∧ h.path = "/dev/null".toList

/-- A file of the diff; one without hunks has no header. -/
structure FileSection where
  preamble : List (List Char)
  oldField : List Char
  header : Header
  hunks : List Hunk

def FileSection.lines (s : FileSection) : List (List Char) :=
  s.preamble ++
    if s.hunks.isEmpty then []
    else ("--- ".toList ++ s.oldField) :: (plusHeader ++ s.header.field) ::
      s.hunks.flatMap fun hunk =>
        ('@' :: '@' :: hunk.ranges) :: hunk.lines.map HunkLine.render

def renderDiff (diff : List FileSection) : List Char :=
  terminated '\n' (diff.flatMap FileSection.lines)

/-- No line has a newline in it, headers are spelled so that they name their
file, and what comes before the header of a section does not look like an
added line. -/
structure FileSection.WellFormed (s : FileSection) : Prop where
  lines : ∀ line ∈ s.lines, '\n' ∉ line
  preamble : ∀ line ∈ s.preamble, ['+'].isPrefixOf line = false
  spelled : s.header.Spelled

def FileSection.added (s : FileSection) : List (List Char) :=
  s.hunks.flatMap fun hunk => hunk.lines.filterMap fun
    | .added text => some (trimEndCr text)
    | _ => none

/-- The secrets that a section adds, each with the file of the section. -/
def FileSection.secrets (s : FileSection) : List DiffFinding :=
  s.added.filterMap (secretFinding s.header.path)

/-- The added lines with a secret are read as added, behind a `+++ ` line that
names the file: the header of the section, or an added line that looks like
one. -/
def Attributed (path : List Char) : List Char → List HunkLine → Prop
  | _, [] => True
  | file, .added text :: lines =>
      let content := trimEndCr text
      let file := trackFile file ('+' :: content)
      (secretRule content = none ∨
        isAdded ('+' :: content) = true ∧ truncate file = truncate path) ∧
      Attributed path file lines
  | file, _ :: lines => Attributed path file lines

def FileSection.Attributed (s : FileSection) : Prop :=
  Store.Attributed s.header.path (headerFile (trimEndCr s.header.field))
    (s.hunks.flatMap Hunk.lines)

/-! ## The secrets found -/

/-- What the scan finds of secrets, from a current file. -/
def secretsFrom : List Char → List (List Char) → List DiffFinding
  | _, [] => []
  | file, raw :: raws =>
      let line := trimEndCr raw
      let file := trackFile file line
      (if isAdded line then (secretFinding file (line.drop 1)).toList else []) ++
        secretsFrom file raws

/-- For each added line, what the scan finds in it and what it should find. -/
def readings (path : List Char) :
    List Char → List HunkLine → List (Option DiffFinding × Option DiffFinding)
  | _, [] => []
  | file, .added text :: lines =>
      let content := trimEndCr text
      let file := trackFile file ('+' :: content)
      (if isAdded ('+' :: content) then secretFinding file content else none,
        secretFinding path content) :: readings path file lines
  | file, _ :: lines => readings path file lines

section Scan

theorem trimEndCr_cons {c : Char} (hc : c ≠ '\r') (text : List Char) :
    trimEndCr (c :: text) = c :: trimEndCr text := by
  rw [trimEndCr, trimEndCr, List.reverse_cons, List.dropWhile_append]
  split
  · rename_i hempty
    have hnil : text.reverse.dropWhile (· == '\r') = [] := by simpa using hempty
    simp [hnil, hc]
  · simp

theorem trimEndCr_stripped (line : List Char) :
    trimEndCr (if ['\r'].isSuffixOf line then line.dropLast else line) = trimEndCr line := by
  split
  · rename_i h
    obtain ⟨start, rfl⟩ := List.isSuffixOf_iff_suffix.mp h
    simp [trimEndCr]
  · rfl

theorem textLines_terminated {lines : List (List Char)} (h : ∀ line ∈ lines, '\n' ∉ line) :
    (textLines (terminated '\n' lines)).map trimEndCr = lines.map trimEndCr := by
  rw [textLines, pieces_terminated h, List.map_map, List.map_map]
  apply List.map_congr_left
  intro line _
  simpa using trimEndCr_stripped line

theorem isSecret_of_secretFinding {file content : List Char} {f : DiffFinding}
    (h : secretFinding file content = some f) : f.isSecret = true := by
  obtain ⟨rule, hrule, rfl⟩ := Option.map_eq_some_iff.mp h
  obtain ⟨row, hrow, rfl⟩ := Option.map_eq_some_iff.mp hrule
  have hmem : row ∈ secretRules := List.mem_of_find?_eq_some hrow
  have hrules : ∀ row ∈ secretRules, ∀ file detail,
      (DiffFinding.mk row.1 file detail).isSecret = true := by
    simp [secretRules, DiffFinding.isSecret]
  exact hrules row hmem _ _

theorem filter_secretFinding (file content : List Char) :
    (secretFinding file content).toList.filter DiffFinding.isSecret =
      (secretFinding file content).toList := by
  cases h : secretFinding file content with
  | none => rfl
  | some f => simp [isSecret_of_secretFinding h]

theorem isAdded_of_isBinary {line : List Char} (h : isBinary line = true) :
    isAdded line = false := by
  cases line with
  | nil => rfl
  | cons c rest =>
      have hc : c = 'B' ∨ c = 'G' := by
        simp only [isBinary, Bool.or_eq_true, List.isPrefixOf_iff_prefix] at h
        rcases h with ⟨tail, htail⟩ | ⟨tail, htail⟩
        · exact .inl (List.cons.inj htail).1.symm
        · exact .inr (List.cons.inj htail).1.symm
      rcases hc with rfl | rfl <;> rfl

theorem scanLine_secrets (s : PatchScan) (raw : List Char) :
    (scanLine s raw).currentFile = trackFile s.currentFile (trimEndCr raw) ∧
      (scanLine s raw).findings.filter DiffFinding.isSecret =
        s.findings.filter DiffFinding.isSecret ++
          (if isAdded (trimEndCr raw) then
            (secretFinding (trackFile s.currentFile (trimEndCr raw))
              ((trimEndCr raw).drop 1)).toList
          else []) := by
  rw [scanLine]
  cases hbinary : isBinary (trimEndCr raw) with
  | true =>
      simp [isAdded_of_isBinary hbinary, DiffFinding.isSecret]
  | false =>
      cases hadded : isAdded (trimEndCr raw) with
      | true =>
          simp only [Bool.false_eq_true, if_false, if_true, true_and]
          rw [List.filter_append, List.filter_append, filter_secretFinding]
          split <;> simp [DiffFinding.isSecret]
      | false => simp

theorem foldl_scanLine_secrets (lines : List (List Char)) (s : PatchScan) :
    (lines.foldl scanLine s).findings.filter DiffFinding.isSecret =
      s.findings.filter DiffFinding.isSecret ++ secretsFrom s.currentFile lines := by
  induction lines generalizing s with
  | nil => simp [secretsFrom]
  | cons raw raws ih =>
      obtain ⟨hfile, hsecrets⟩ := scanLine_secrets s raw
      rw [List.foldl_cons, ih, hfile, hsecrets, secretsFrom, List.append_assoc]

theorem scanPatch_secrets (patch : List Char) :
    (scanPatch patch).filter DiffFinding.isSecret = secretsFrom [] (textLines patch) := by
  have hfold := foldl_scanLine_secrets (textLines patch) {}
  rw [scanPatch]
  split
  · rw [List.filter_append, hfold]
    simp [DiffFinding.isSecret]
  · simpa using hfold

theorem secretsFrom_congr {lines lines' : List (List Char)}
    (h : lines.map trimEndCr = lines'.map trimEndCr) (file : List Char) :
    secretsFrom file lines = secretsFrom file lines' := by
  induction lines generalizing file lines' with
  | nil =>
      have hnil : lines' = [] := List.map_eq_nil_iff.mp h.symm
      rw [hnil]
  | cons raw raws ih =>
      cases lines' with
      | nil => cases h
      | cons raw' raws' =>
          obtain ⟨hline, hrest⟩ := List.cons.inj h
          rw [secretsFrom, secretsFrom, hline, ih hrest]

end Scan

section Sections

theorem trimEndCr_start (line : List Char) : trimEndCr line <+: line := by
  have hsuffix : line.reverse.dropWhile (· == '\r') <:+ line.reverse := List.dropWhile_suffix _
  simpa [trimEndCr] using List.reverse_prefix.mpr hsuffix

/-- A line that neither adds nor looks like a header. -/
theorem secretsFrom_plain {raw : List Char} (h : ['+'].isPrefixOf raw = false)
    (file : List Char) (raws : List (List Char)) :
    secretsFrom file (raw :: raws) = secretsFrom file raws := by
  have hraw : ¬ ['+'] <+: raw := by
    rw [← List.isPrefixOf_iff_prefix, h]
    exact Bool.false_ne_true
  have hline : ¬ ['+'] <+: trimEndCr raw := fun hplus =>
    hraw (hplus.trans (trimEndCr_start raw))
  have hadded : isAdded (trimEndCr raw) = false := by
    have hnot : ['+'].isPrefixOf (trimEndCr raw) = false := by
      rw [← Bool.not_eq_true, List.isPrefixOf_iff_prefix]
      exact hline
    rw [isAdded, hnot, Bool.false_and]
  have htrack : trackFile file (trimEndCr raw) = file := by
    rw [trackFile]
    split
    · rename_i stripped hstripped
      obtain ⟨start, hstart, hsame⟩ := List.dropPrefix?_eq_some_iff.mp hstripped
      obtain rfl : start = plusHeader := eq_of_beq hsame
      exact absurd ⟨['+', '+', ' '] ++ stripped, hstart.symm⟩ hline
    · rfl
  simp [secretsFrom, hadded, htrack]

theorem secretsFrom_plain_append {lines : List (List Char)}
    (h : ∀ line ∈ lines, ['+'].isPrefixOf line = false) (file : List Char)
    (raws : List (List Char)) : secretsFrom file (lines ++ raws) = secretsFrom file raws := by
  induction lines with
  | nil => rfl
  | cons line lines ih =>
      rw [List.cons_append, secretsFrom_plain (h line List.mem_cons_self),
        ih fun l hl => h l (List.mem_cons_of_mem _ hl)]

theorem secretsFrom_header (file field : List Char) (raws : List (List Char)) :
    secretsFrom file ((plusHeader ++ field) :: raws) =
      secretsFrom (headerFile (trimEndCr field)) raws := by
  have hline : trimEndCr (plusHeader ++ field) = plusHeader ++ trimEndCr field := by
    simp only [plusHeader, List.cons_append, List.nil_append]
    rw [trimEndCr_cons (by decide), trimEndCr_cons (by decide), trimEndCr_cons (by decide),
      trimEndCr_cons (by decide)]
  have htrack : trackFile file (plusHeader ++ trimEndCr field) =
      headerFile (trimEndCr field) := by
    rw [trackFile, List.dropPrefix?_append_of_beq _ (beq_self_eq_true plusHeader)]
  have hadded : isAdded (plusHeader ++ trimEndCr field) = false := rfl
  simp [secretsFrom, hline, htrack, hadded]

theorem secretsFrom_hunkLines (path file : List Char) (lines : List HunkLine)
    (raws : List (List Char)) : ∃ file',
    secretsFrom file (lines.map HunkLine.render ++ raws) =
        (readings path file lines).filterMap Prod.fst ++ secretsFrom file' raws ∧
      ∀ more, readings path file (lines ++ more) =
        readings path file lines ++ readings path file' more := by
  induction lines generalizing file with
  | nil => exact ⟨file, rfl, fun _ => rfl⟩
  | cons line lines ih =>
      cases line with
      | added text =>
          obtain ⟨file', hsecrets, hmore⟩ := ih (trackFile file ('+' :: trimEndCr text))
          refine ⟨file', ?_, fun more => ?_⟩
          · rw [List.map_cons, List.cons_append, secretsFrom, HunkLine.render,
              trimEndCr_cons (by decide), readings, hsecrets]
            simp only [List.drop_succ_cons, List.drop_zero]
            cases isAdded ('+' :: trimEndCr text) with
            | false => simp
            | true =>
                cases secretFinding (trackFile file ('+' :: trimEndCr text))
                    (trimEndCr text) <;> simp
          · rw [List.cons_append, readings, readings, hmore, List.cons_append]
      | context text =>
          obtain ⟨file', hsecrets, hmore⟩ := ih file
          refine ⟨file', ?_, hmore⟩
          rw [List.map_cons, List.cons_append, secretsFrom_plain rfl, hsecrets]
          rfl
      | removed text =>
          obtain ⟨file', hsecrets, hmore⟩ := ih file
          refine ⟨file', ?_, hmore⟩
          rw [List.map_cons, List.cons_append, secretsFrom_plain rfl, hsecrets]
          rfl
      | noNewline =>
          obtain ⟨file', hsecrets, hmore⟩ := ih file
          refine ⟨file', ?_, hmore⟩
          rw [List.map_cons, List.cons_append, secretsFrom_plain rfl, hsecrets]
          rfl

theorem secretsFrom_hunks (path file : List Char) (hunks : List Hunk)
    (raws : List (List Char)) : ∃ file',
    secretsFrom file ((hunks.flatMap fun hunk =>
        ('@' :: '@' :: hunk.ranges) :: hunk.lines.map HunkLine.render) ++ raws) =
      (readings path file (hunks.flatMap Hunk.lines)).filterMap Prod.fst ++
        secretsFrom file' raws := by
  induction hunks generalizing file with
  | nil => exact ⟨file, rfl⟩
  | cons hunk hunks ih =>
      obtain ⟨file₁, hfirst, hmore⟩ := secretsFrom_hunkLines path file hunk.lines
        ((hunks.flatMap fun hunk =>
          ('@' :: '@' :: hunk.ranges) :: hunk.lines.map HunkLine.render) ++ raws)
      obtain ⟨file₂, hrest⟩ := ih file₁
      refine ⟨file₂, ?_⟩
      rw [List.flatMap_cons, List.flatMap_cons, List.cons_append, List.cons_append,
        secretsFrom_plain rfl, List.append_assoc, hfirst, hrest, hmore, List.filterMap_append,
        List.append_assoc]

/-- What a section holds of added lines, as the scan reads them. -/
def FileSection.readings (s : FileSection) : List (Option DiffFinding × Option DiffFinding) :=
  Store.readings s.header.path (headerFile (trimEndCr s.header.field))
    (s.hunks.flatMap Hunk.lines)

theorem secretsFrom_section {s : FileSection} (hs : s.WellFormed) (file : List Char)
    (raws : List (List Char)) : ∃ file',
    secretsFrom file (s.lines ++ raws) =
      s.readings.filterMap Prod.fst ++ secretsFrom file' raws := by
  rw [FileSection.lines, List.append_assoc, secretsFrom_plain_append hs.preamble]
  cases hhunks : s.hunks with
  | nil => exact ⟨file, by simp [FileSection.readings, hhunks, Store.readings]⟩
  | cons hunk hunks =>
      obtain ⟨file', hsecrets⟩ := secretsFrom_hunks s.header.path
        (headerFile (trimEndCr s.header.field)) (hunk :: hunks) raws
      refine ⟨file', ?_⟩
      rw [if_neg (by simp), List.cons_append, List.cons_append, secretsFrom_plain rfl,
        secretsFrom_header, hsecrets, FileSection.readings, hhunks]

theorem secretsFrom_diff {diff : List FileSection} (h : ∀ s ∈ diff, s.WellFormed)
    (file : List Char) :
    secretsFrom file (diff.flatMap FileSection.lines) =
      (diff.flatMap FileSection.readings).filterMap Prod.fst := by
  induction diff generalizing file with
  | nil => rfl
  | cons s diff ih =>
      obtain ⟨file', hsecrets⟩ := secretsFrom_section (h s List.mem_cons_self) file
        (diff.flatMap FileSection.lines)
      rw [List.flatMap_cons, List.flatMap_cons, hsecrets,
        ih fun s' hs' => h s' (List.mem_cons_of_mem _ hs'), List.filterMap_append]

theorem readings_expected (path file : List Char) (lines : List HunkLine) :
    (readings path file lines).filterMap Prod.snd =
      (lines.filterMap fun
        | .added text => some (trimEndCr text)
        | _ => none).filterMap (secretFinding path) := by
  induction lines generalizing file with
  | nil => rfl
  | cons line lines ih =>
      cases line with
      | added text =>
          rw [readings]
          cases hsecret : secretFinding path (trimEndCr text) <;> simp [hsecret, ih]
      | context text => exact ih file
      | removed text => exact ih file
      | noNewline => exact ih file

theorem FileSection.readings_secrets (s : FileSection) :
    s.readings.filterMap Prod.snd = s.secrets := by
  rw [readings, readings_expected, secrets, added, List.filterMap_flatMap]

end Sections

section Agreement

/-- Where one side only ever has what the other has, the two lists are the same
when the sides agree throughout. -/
theorem filterMap_eq_iff {α : Type} {rows : List (Option α × Option α)}
    (h : ∀ row ∈ rows, row.1.isSome = true → row.2.isSome = true) :
    rows.filterMap Prod.fst = rows.filterMap Prod.snd ↔ ∀ row ∈ rows, row.1 = row.2 := by
  have hle : ∀ rows : List (Option α × Option α),
      (∀ row ∈ rows, row.1.isSome = true → row.2.isSome = true) →
      (rows.filterMap Prod.fst).length ≤ (rows.filterMap Prod.snd).length := by
    intro rows h
    induction rows with
    | nil => exact Nat.le_refl 0
    | cons row rows ih =>
        have hrest := ih fun row hrow => h row (List.mem_cons_of_mem _ hrow)
        have hrow := h row List.mem_cons_self
        obtain ⟨found, due⟩ := row
        cases found <;> cases due <;> simp at hrow ⊢ <;> omega
  induction rows with
  | nil => simp
  | cons row rows ih =>
      have hrows : ∀ row ∈ rows, row.1.isSome = true → row.2.isSome = true :=
        fun row hrow => h row (List.mem_cons_of_mem _ hrow)
      have hrow := h row List.mem_cons_self
      have hlength := hle rows hrows
      obtain ⟨found, due⟩ := row
      rw [List.forall_mem_cons]
      refine Iff.trans ?_ (and_congr_right fun _ => ih hrows)
      cases found with
      | none =>
          cases due with
          | none => simp
          | some due =>
              refine iff_of_false (fun heq => ?_) (by simp)
              have hsame := congrArg List.length heq
              simp at hsame
              omega
      | some found =>
          cases due with
          | none => cases hrow rfl
          | some due => simp

theorem readings_sound (path file : List Char) (lines : List HunkLine) :
    ∀ row ∈ readings path file lines, row.1.isSome = true → row.2.isSome = true := by
  induction lines generalizing file with
  | nil => simp [readings]
  | cons line lines ih =>
      cases line with
      | added text =>
          rw [readings]
          refine List.forall_mem_cons.mpr ⟨fun hfound => ?_, ih _⟩
          split at hfound
          · simpa [secretFinding] using hfound
          · cases hfound
      | context text => exact ih file
      | removed text => exact ih file
      | noNewline => exact ih file

theorem secretFinding_eq_iff {file path content : List Char} :
    secretFinding file content = secretFinding path content ↔
      secretRule content = none ∨ truncate file = truncate path := by
  cases h : secretRule content <;> simp [secretFinding, h]

theorem attributed_iff (path file : List Char) (lines : List HunkLine) :
    (∀ row ∈ readings path file lines, row.1 = row.2) ↔ Attributed path file lines := by
  induction lines generalizing file with
  | nil => simp [readings, Attributed]
  | cons line lines ih =>
      cases line with
      | added text =>
          rw [readings, Attributed, List.forall_mem_cons]
          refine and_congr ?_ (ih _)
          cases isAdded ('+' :: trimEndCr text) with
          | true => simpa using secretFinding_eq_iff
          | false => simp [secretFinding, eq_comm]
      | context text => exact ih file
      | removed text => exact ih file
      | noNewline => exact ih file

end Agreement

/-- The scan finds the secrets of a diff, each with the file of its section,
when every added line with a secret is told apart from a header and no header
or line that looks like one hides the name of its file. -/
theorem scanPatch_finds {diff : List FileSection} (h : ∀ s ∈ diff, s.WellFormed) :
    (scanPatch (renderDiff diff)).filter DiffFinding.isSecret =
        diff.flatMap FileSection.secrets ↔
      ∀ s ∈ diff, s.Attributed := by
  have hlines : ∀ line ∈ diff.flatMap FileSection.lines, '\n' ∉ line := by
    intro line hline
    obtain ⟨s, hs, hmem⟩ := List.mem_flatMap.mp hline
    exact (h s hs).lines line hmem
  have hfound : (scanPatch (renderDiff diff)).filter DiffFinding.isSecret =
      (diff.flatMap FileSection.readings).filterMap Prod.fst := by
    rw [scanPatch_secrets, renderDiff, secretsFrom_congr (textLines_terminated hlines),
      secretsFrom_diff h]
  have hdue : diff.flatMap FileSection.secrets =
      (diff.flatMap FileSection.readings).filterMap Prod.snd := by
    rw [List.filterMap_flatMap]
    exact List.flatMap_congr fun s _ => s.readings_secrets.symm
  rw [hfound, hdue, filterMap_eq_iff]
  · simp only [List.mem_flatMap, forall_exists_index, and_imp]
    constructor
    · intro hall s hs
      exact (attributed_iff _ _ _).mp fun row hrow => hall row s hs hrow
    · intro hall row s hs hrow
      exact (attributed_iff _ _ _).mpr (hall s hs) row hrow
  · intro row hrow
    obtain ⟨s, hs, hmem⟩ := List.mem_flatMap.mp hrow
    exact readings_sound _ _ _ row hmem

section Examples

/-- A diff that adds one line to the file `x`. -/
def addsLine (text : List Char) : FileSection where
  preamble := []
  oldField := ['a', '/', 'x']
  header := ⟨['x'], ['b', '/', 'x']⟩
  hunks := [⟨[' ', '-', '1', ' ', '+', '1', ' ', '@', '@'], [.added text]⟩]

def accessKey : List Char := ['A', 'K', 'I', 'A'] ++ List.replicate 16 'X'

theorem addsLine_wellFormed {text : List Char} (h : '\n' ∉ text) :
    (addsLine text).WellFormed := by
  refine ⟨fun line hline => ?_, fun line hline => ?_, .inl rfl⟩
  · have hmem : line ∈ ["--- ".toList ++ ['a', '/', 'x'], plusHeader ++ ['b', '/', 'x'],
        ['@', '@', ' ', '-', '1', ' ', '+', '1', ' ', '@', '@'], '+' :: text] := hline
    simp only [List.mem_cons, List.not_mem_nil, or_false] at hmem
    rcases hmem with rfl | rfl | rfl | rfl
    · decide
    · decide
    · decide
    · simpa using h
  · cases hline

theorem scanPatch_finds_key :
    (scanPatch (renderDiff [addsLine accessKey])).filter DiffFinding.isSecret =
      [addsLine accessKey].flatMap FileSection.secrets := by
  have hformed : ∀ s ∈ [addsLine accessKey], s.WellFormed := by
    intro s hs
    rw [List.mem_singleton.mp hs]
    exact addsLine_wellFormed (by decide)
  refine (scanPatch_finds hformed).mpr fun s hs => ?_
  rw [List.mem_singleton.mp hs]
  exact ⟨.inr ⟨by decide, by decide⟩, trivial⟩

/-- A key behind two plus signs is taken for a header. -/
theorem plus_signs_hide_key : ¬ ∀ diff : List FileSection, (∀ s ∈ diff, s.WellFormed) →
    (scanPatch (renderDiff diff)).filter DiffFinding.isSecret =
      diff.flatMap FileSection.secrets := by
  intro h
  have hmissed := h [addsLine ('+' :: '+' :: accessKey)] (by
    intro s hs
    rw [List.mem_singleton.mp hs]
    exact addsLine_wellFormed (by decide))
  have hlengths := congrArg List.length hmissed
  revert hlengths
  decide +kernel

end Examples

end AgentGrid.Store
