import Mathlib.Logic.Function.Basic
import AgentGrid.Foundation.Transition
import Mathlib.Algebra.Ring.Nat

/-!
# The artifact spool

An artifact is copied to `<root>/<attempt>/<name>` before it is uploaded, by
way of a temporary file beside it.  Both segments of the path are scrubbed, and
the temporary file has the name with its extension replaced.
-/

namespace AgentGrid.Node

open AgentGrid.Foundation

/-- `char::is_alphanumeric`, which is Unicode's. -/
structure CharClass where
  isAlphanumeric : Char → Bool
  ascii : ∀ c, c.toNat < 128 → isAlphanumeric c = c.isAlphanum

/-- The directory of an attempt and the name of a file in it. -/
abbrev EntryPath : Type := List Char × List Char

def safeSegment (cls : CharClass) (s : List Char) : List Char :=
  s.filter fun c => cls.isAlphanumeric c || c == '-' || c == '_' || c == '.'

def badSegment (s : List Char) : Bool :=
  s.isEmpty || s == ['.'] || s == ['.', '.'] || ['.'].isPrefixOf s

def entryPath (cls : CharClass) (attemptId name : List Char) : Option EntryPath :=
  let aid := safeSegment cls attemptId
  if badSegment aid then none
  else
    let nm := safeSegment cls name
    if badSegment nm then none else some (aid, nm)

def tmpExtension : List Char := ['.', 't', 'm', 'p']

/-- `Path::file_stem`: what is before the last dot, unless that dot comes first. -/
def fileStem (name : List Char) : List Char :=
  match name.reverse.dropWhile (· != '.') with
  | [] | [_] => name
  | _ :: stem => stem.reverse

/-- `with_extension("tmp")`. -/
def tempPath (dest : EntryPath) : EntryPath := (dest.1, fileStem dest.2 ++ tmpExtension)

/-- The files of the spool, and for each attempt and name the bytes of its last
completed stage if it has not been removed since. -/
structure ArtifactSpool where
  files : EntryPath → Option (List UInt8) := fun _ => none
  staged : EntryPath → Option (List UInt8) := fun _ => none

/-- How far a stage gets: not to its temporary file, to some bytes in it, or to
the end of the copy. -/
inductive StageProgress
  | refused
  | interrupted (left : List UInt8)
  | copied (cleared : Bool)

inductive ArtifactOp
  | stage (attemptId name : List Char) (source : List UInt8) (maxSize : Nat)
      (progress : StageProgress)
  | remove (attemptId name : List Char) (done : Bool)

/-- `take(max_size.saturating_add(1))`. -/
def copyOf (source : List UInt8) (maxSize : Nat) : List UInt8 :=
  source.take (min (maxSize + 1) (2 ^ 64 - 1))

/-- The files after a stage, and the bytes it has published. -/
def stageFile (files : EntryPath → Option (List UInt8)) (dest : EntryPath)
    (source : List UInt8) (maxSize : Nat) :
    StageProgress → (EntryPath → Option (List UInt8)) × Option (List UInt8)
  | .refused => (files, none)
  | .interrupted left => (Function.update files (tempPath dest) (some left), none)
  | .copied cleared =>
      let bytes := copyOf source maxSize
      if maxSize < bytes.length then
        (Function.update files (tempPath dest) (if cleared then none else some bytes), none)
      else
        (Function.update (Function.update files (tempPath dest) none) dest (some bytes),
          some bytes)

namespace ArtifactSpool

def stage (cls : CharClass) (s : ArtifactSpool) (attemptId name : List Char)
    (source : List UInt8) (maxSize : Nat) (progress : StageProgress) : ArtifactSpool :=
  match entryPath cls attemptId name with
  | none => s
  | some dest =>
      match stageFile s.files dest source maxSize progress with
      | (files, none) => { s with files := files }
      | (files, some bytes) =>
          { files := files, staged := Function.update s.staged (attemptId, name) (some bytes) }

def remove (cls : CharClass) (s : ArtifactSpool) (attemptId name : List Char) (done : Bool) :
    ArtifactSpool :=
  match entryPath cls attemptId name with
  | none => s
  | some path =>
      if done then
        { files := Function.update s.files path none
          staged := Function.update s.staged (attemptId, name) none }
      else s

/-- The entries that `pending` lists, with the bytes at their paths. -/
def pending (s : ArtifactSpool) (entry : EntryPath) : Option (List UInt8) :=
  if tmpExtension.isSuffixOf entry.2 then none else s.files entry

end ArtifactSpool

def ArtifactOp.entry : ArtifactOp → EntryPath
  | .stage attemptId name _ _ _ | .remove attemptId name _ => (attemptId, name)

def ArtifactSpoolStep (cls : CharClass) (s : ArtifactSpool) (op : ArtifactOp) (s' : ArtifactSpool) :
    Prop :=
  match op with
  | .stage attemptId name source maxSize progress =>
      s' = s.stage cls attemptId name source maxSize progress
  | .remove attemptId name done => s' = s.remove cls attemptId name done

/-- A stage that completes is of an entry that scrubbing leaves alone and whose
name does not end as a temporary file's; a removal is of an entry that
scrubbing leaves alone or makes one that is not staged. -/
def OwnPath (cls : CharClass) (s : ArtifactSpool) : ArtifactOp → Prop
  | .stage attemptId name source maxSize progress =>
      ∀ dest, entryPath cls attemptId name = some dest →
        (stageFile s.files dest source maxSize progress).2 ≠ none →
        dest = (attemptId, name) ∧ tmpExtension.isSuffixOf name = false
  | .remove attemptId name _ =>
      ∀ path, entryPath cls attemptId name = some path →
        path = (attemptId, name) ∨ s.staged path = none

section Map

variable {cls : CharClass} {s s' : ArtifactSpool}

/-- But for temporary files, the spool holds what is staged. -/
structure ArtifactSpool.Mapped (cls : CharClass) (s : ArtifactSpool) : Prop where
  files : ∀ entry : EntryPath, tmpExtension.isSuffixOf entry.2 = false →
    s.files entry = s.staged entry
  temporary : ∀ entry : EntryPath, tmpExtension.isSuffixOf entry.2 = true →
    s.staged entry = none
  own : ∀ entry : EntryPath, s.staged entry ≠ none →
    entryPath cls entry.1 entry.2 = some entry

theorem tempPath_suffix (dest : EntryPath) :
    tmpExtension.isSuffixOf (tempPath dest).2 = true :=
  List.isSuffixOf_iff_suffix.mpr (List.suffix_append _ _)

theorem tempPath_ne {dest entry : EntryPath} (h : tmpExtension.isSuffixOf entry.2 = false) :
    entry ≠ tempPath dest := by
  rintro rfl
  rw [tempPath_suffix] at h
  cases h

/-- Beside its temporary file a stage changes its destination alone. -/
theorem stageFile_files {files files' : EntryPath → Option (List UInt8)} {dest : EntryPath}
    {source : List UInt8} {maxSize : Nat} {progress : StageProgress}
    {published : Option (List UInt8)}
    (h : stageFile files dest source maxSize progress = (files', published))
    {entry : EntryPath} (hentry : tmpExtension.isSuffixOf entry.2 = false) :
    files' entry = if entry = dest ∧ published ≠ none then published else files entry := by
  have hne := @tempPath_ne dest entry hentry
  cases progress with
  | refused =>
      cases h
      simp
  | interrupted left =>
      cases h
      simp [Function.update_of_ne hne]
  | copied cleared =>
      rw [stageFile] at h
      split at h
      · cases h
        simp [Function.update_of_ne hne]
      · cases h
        by_cases hdest : entry = dest
        · simp [hdest]
        · simp [hdest, Function.update_of_ne hne]

theorem stage_mapped (hs : s.Mapped cls) {attemptId name : List Char} {source : List UInt8}
    {maxSize : Nat} {progress : StageProgress}
    (hown : OwnPath cls s (.stage attemptId name source maxSize progress)) :
    (s.stage cls attemptId name source maxSize progress).Mapped cls := by
  rw [ArtifactSpool.stage]
  cases hpath : entryPath cls attemptId name with
  | none => exact hs
  | some dest =>
      have hpublishes := hown dest hpath
      cases hfile : stageFile s.files dest source maxSize progress with
      | mk files published =>
          rw [hfile] at hpublishes
          have hfiles := @stageFile_files _ _ _ _ _ _ _ hfile
          cases published with
          | none =>
              simp only [hfile]
              refine ⟨fun entry hentry => ?_, hs.temporary, hs.own⟩
              simpa using (hfiles hentry).trans (by simpa using hs.files entry hentry)
          | some bytes =>
              obtain ⟨rfl, hsuffix⟩ := hpublishes (by simp)
              simp only [hfile]
              refine ⟨fun entry hentry => ?_, fun entry hentry => ?_, fun entry hentry => ?_⟩
              · simp only [hfiles hentry, Function.update_apply, hs.files entry hentry]
                simp
              · have hne : entry ≠ (attemptId, name) := by
                  rintro rfl
                  rw [hsuffix] at hentry
                  cases hentry
                simp only [Function.update_of_ne hne]
                exact hs.temporary entry hentry
              · by_cases hsame : entry = (attemptId, name)
                · rw [hsame, hpath]
                · simp only [Function.update_of_ne hsame] at hentry
                  exact hs.own entry hentry

theorem remove_mapped (hs : s.Mapped cls) {attemptId name : List Char} {done : Bool}
    (hown : OwnPath cls s (.remove attemptId name done)) :
    (s.remove cls attemptId name done).Mapped cls := by
  rw [ArtifactSpool.remove]
  cases hpath : entryPath cls attemptId name with
  | none => exact hs
  | some path =>
      cases done with
      | false => exact hs
      | true =>
          -- an entry that scrubbing changes has never been staged
          have hgone : Function.update s.staged (attemptId, name) none =
              Function.update s.staged path none := by
            rcases hown path hpath with rfl | hunstaged
            · rfl
            · have hother : s.staged (attemptId, name) = none := by
                by_contra hstaged
                have hself := hs.own _ hstaged
                rw [hpath] at hself
                cases hself
                exact hstaged hunstaged
              rw [Function.update_eq_self_iff.mpr hother.symm,
                Function.update_eq_self_iff.mpr hunstaged.symm]
          simp only [if_true, hgone]
          refine ⟨fun entry hentry => ?_, fun entry hentry => ?_, fun entry hentry => ?_⟩
          · simp only [Function.update_apply, hs.files entry hentry]
          · simp only [Function.update_apply, hs.temporary entry hentry, ite_self]
          · simp only [Function.update_apply] at hentry
            split at hentry
            · exact absurd rfl hentry
            · exact hs.own entry hentry

theorem ArtifactSpool.Mapped.step {op : ArtifactOp} (hs : s.Mapped cls)
    (hstep : During (ArtifactSpoolStep cls) (OwnPath cls) s op s') : s'.Mapped cls := by
  obtain ⟨hstep, hown⟩ := hstep
  cases op with
  | stage attemptId name source maxSize progress =>
      obtain rfl := hstep
      exact stage_mapped hs hown
  | remove attemptId name done =>
      obtain rfl := hstep
      exact remove_mapped hs hown

theorem ArtifactSpool.Mapped.pending (hs : s.Mapped cls) (entry : EntryPath) :
    s.pending entry = s.staged entry := by
  rw [ArtifactSpool.pending]
  split
  · rename_i hsuffix
    exact (hs.temporary entry hsuffix).symm
  · rename_i hsuffix
    exact hs.files entry (Bool.not_eq_true _ ▸ hsuffix)

/-- The other entries of the map stay as they are. -/
theorem staged_step {op : ArtifactOp} (hstep : ArtifactSpoolStep cls s op s')
    {entry : EntryPath} (hother : entry ≠ op.entry) : s'.staged entry = s.staged entry := by
  cases op with
  | stage attemptId name source maxSize progress =>
      obtain rfl := hstep
      rw [ArtifactSpool.stage]
      split
      · rfl
      · split
        · rfl
        · exact Function.update_of_ne hother _ _
  | remove attemptId name done =>
      obtain rfl := hstep
      rw [ArtifactSpool.remove]
      split
      · rfl
      · split
        · exact Function.update_of_ne hother _ _
        · rfl

/-- While every completed stage and every removal is of an entry with a path of
its own, the pending entries are the staged ones with their bytes, and a step
leaves the other entries as they are. -/
theorem artifact_spool_map {ops : List ArtifactOp}
    (hrun : Runs (During (ArtifactSpoolStep cls) (OwnPath cls)) {} ops s) :
    (∀ entry, s.pending entry = s.staged entry) ∧
      ∀ op s', During (ArtifactSpoolStep cls) (OwnPath cls) s op s' →
        ∀ entry, entry ≠ op.entry → s'.pending entry = s.pending entry := by
  have hempty : ({} : ArtifactSpool).Mapped cls :=
    ⟨fun _ _ => rfl, fun _ _ => rfl, fun _ h => absurd rfl h⟩
  have hs := hrun.invariant (ArtifactSpool.Mapped cls) (fun hs hstep => hs.step hstep) hempty
  refine ⟨hs.pending, fun op s' hstep entry hother => ?_⟩
  rw [(hs.step hstep).pending, hs.pending, staged_step hstep.1 hother]

end Map

section Examples

def asciiClass : CharClass where
  isAlphanumeric := Char.isAlphanum
  ascii _ _ := rfl

def attempt : List Char := ['a', '1']

def logName : List Char := ['x', '.', 'l', 'o', 'g']

/-- A staged log whose second copy breaks off. -/
def tornStage : ArtifactSpool :=
  ((({} : ArtifactSpool).stage asciiClass attempt logName [1] 10 (.copied true)).stage
    asciiClass attempt logName [2] 10 (.interrupted []))

theorem artifact_spool_map_torn : tornStage.pending (attempt, logName) = some [1] := by
  have hrun : Runs (During (ArtifactSpoolStep asciiClass) (OwnPath asciiClass)) {}
      [.stage attempt logName [1] 10 (.copied true),
        .stage attempt logName [2] 10 (.interrupted [])] tornStage := by
    refine .next ⟨rfl, ?_⟩ (.single ⟨rfl, ?_⟩)
    · intro dest hdest _
      have hown : entryPath asciiClass attempt logName = some (attempt, logName) := by decide
      rw [hown] at hdest
      exact ⟨(Option.some.inj hdest).symm, by decide⟩
    · intro dest _ hpublished
      exact absurd rfl hpublished
  rw [(artifact_spool_map hrun).1]
  decide

/-- Names that differ in a blank have one path. -/
theorem scrubbed_names_collide : ¬ ∀ (cls : CharClass) (ops : List ArtifactOp)
    (s : ArtifactSpool), Runs (ArtifactSpoolStep cls) {} ops s →
      ∀ entry, s.pending entry = s.staged entry := by
  intro h
  have hmap := h asciiClass [.stage attempt ['x', 'y'] [1] 10 (.copied true),
    .stage attempt ['x', ' ', 'y'] [2] 10 (.copied true)] _
    (.next rfl (.single rfl)) (attempt, ['x', 'y'])
  revert hmap
  decide

end Examples

end AgentGrid.Node
