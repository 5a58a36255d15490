import AgentGrid.Foundation.Transition
import AgentGrid.Node.RepoAttach
import Mathlib.Data.List.Infix
import Mathlib.Logic.Function.Basic
import Mathlib.Algebra.Ring.Nat

/-!
# Repository names as paths

`prepare_workspace` joins the name of a repository to the repository root, for the
mirror as it is and for the lock with `.lock` behind it.  A path is the list of the
components below the root that the system resolves; a validated name has no `..`.
-/

namespace AgentGrid.Node.RepoNames

open AgentGrid.Foundation

abbrev Path : Type := List (List Char)

inductive Entry
  | file
  | directory
deriving DecidableEq

abbrev Disk : Type := Path → Option Entry

/-- The root before the first prepare. -/
def emptyRoot : Disk := fun p => if p = [] then some .directory else none

/-! ## Names and paths -/

/-- The segments before the last slash, and what follows it. -/
def splitName : List Char → List (List Char) × List Char
  | [] => ([], [])
  | c :: cs =>
      match splitName cs with
      | (dirs, base) =>
          if c = '/' then ([] :: dirs, base)
          else
            match dirs with
            | [] => ([], c :: base)
            | dir :: dirs => ((c :: dir) :: dirs, base)

/-- Empty segments and `.` lead nowhere. -/
def isReal (segment : List Char) : Bool := segment != [] && segment != ['.']

def components (text : List Char) : Path :=
  ((splitName text).1 ++ [(splitName text).2]).filter isReal

def lockSuffix : List Char := ['.', 'l', 'o', 'c', 'k']

def repoDir (repo : List Char) : Path := components repo

def lockPath (repo : List Char) : Path := components (repo ++ lockSuffix)

/-- A name that the file system takes for a directory entry. -/
def fileName (segment : List Char) : Bool :=
  decide ('\x00' ∉ segment) && decide ((segment.map Char.utf8Size).sum ≤ 255)

/-! ## The steps of a prepare -/

def createDirAll (d : Disk) : Disk := Function.update d [] (some .directory)

/-- `RepoFlock::acquire` up to the open file. -/
def acquire (d : Disk) (repo : List Char) : Option Disk :=
  let path := lockPath repo
  let d := createDirAll d
  if path.all fileName && d path.dropLast == some .directory && d path != some .directory then
    some (Function.update d path (some .file))
  else none

def headName : List Char := ['H', 'E', 'A', 'D']

/-- What git puts into a bare repository. -/
structure Bare where
  tree : Path → Option Entry
  root : tree [] = some .directory
  head : tree [headName] = some .file

/-- `git clone --mirror` into a place where nothing is; git makes what leads there. -/
def cloneMirror (bare : Bare) (d : Disk) (path : Path) : Option Disk :=
  if path.all fileName &&
      (List.range path.length).all fun n => d (path.take n) != some .file then
    some fun q =>
      if path <+: q then bare.tree (q.drop path.length)
      else if q <+: path then some .directory
      else d q
  else none

/-- A mirror with a `HEAD` is fetched, what else is there is removed for a clone.  A
directory spelled with a dot at its end cannot be removed. -/
def attachMirror (bare : Bare) (d : Disk) (repo : List Char) : Option Disk :=
  let path := repoDir repo
  if (d (path ++ [headName])).isSome then some d
  else
    match d path with
    | some .file => none
    | some .directory =>
        if (splitName repo).2 = ['.'] then none
        else cloneMirror bare (createDirAll d) path
    | none => cloneMirror bare (createDirAll d) path

/-- The prepares of several repositories may take turns. -/
inductive Event
  | lock (repo : List Char)
  | mirror (repo : List Char)
deriving DecidableEq

def Event.repo : Event → List Char
  | .lock repo | .mirror repo => repo

def exec (bare : Bare) (d : Disk) : Event → Option Disk
  | .lock repo => if validateToken repo then acquire d repo else none
  | .mirror repo => attachMirror bare d repo

def names (es : List Event) : List (List Char) := es.map Event.repo

/-- A mirror is touched under its lock. -/
def Locked (es : List Event) : Prop :=
  ∀ before repo after, es = before ++ Event.mirror repo :: after → Event.lock repo ∈ before

/-! ## What is asked of a set of names -/

def paths (repo : List Char) : List Path := [lockPath repo, repoDir repo]

/-- The places of two names never meet, and none is the root or above it. -/
structure Apart (repos : List (List Char)) : Prop where
  others : ∀ r ∈ repos, ∀ s ∈ repos, r ≠ s → ∀ p ∈ paths r, ∀ q ∈ paths s, ¬p <+: q ∧ ¬q <+: p
  root : ∀ r ∈ repos, ∀ p ∈ paths r, p ≠ []

/-- The name is one segment, and its lock has a name that can be made. -/
def plain (repo : List Char) : Bool :=
  (splitName repo).1.all (fun segment => !isReal segment) && isReal (splitName repo).2 &&
    fileName ((splitName repo).2 ++ lockSuffix)

structure Separate (repos : List (List Char)) : Prop where
  plain : ∀ r ∈ repos, plain r = true
  others : ∀ r ∈ repos, ∀ s ∈ repos, r ≠ s →
    (splitName r).2 ≠ (splitName s).2 ∧ (splitName r).2 ≠ (splitName s).2 ++ lockSuffix

/-! ## Paths of names -/

theorem splitName_segment {text : List Char} (h : '/' ∉ text) : splitName text = ([], text) := by
  induction text with
  | nil => rfl
  | cons c cs ih =>
      have hc : c ≠ '/' := fun hc => h (hc ▸ List.mem_cons_self)
      rw [splitName, ih fun hcs => h (List.mem_cons_of_mem c hcs)]
      simp [hc]

theorem splitName_append (text : List Char) {more : List Char} (h : '/' ∉ more) :
    splitName (text ++ more) = ((splitName text).1, (splitName text).2 ++ more) := by
  induction text with
  | nil => exact splitName_segment h
  | cons c cs ih =>
      rw [List.cons_append, splitName, splitName, ih]
      cases splitName cs with
      | mk dirs base =>
          dsimp only
          split
          · rfl
          · cases dirs <;> rfl

theorem lockPath_eq (repo : List Char) :
    lockPath repo = (splitName repo).1.filter isReal ++ [(splitName repo).2 ++ lockSuffix] := by
  have hreal : isReal ((splitName repo).2 ++ lockSuffix) = true := by
    cases (splitName repo).2 <;> simp [isReal, lockSuffix]
  rw [lockPath, components, splitName_append repo (by decide), List.filter_append,
    List.filter_singleton, hreal]
  rfl

theorem repoDir_eq (repo : List Char) :
    repoDir repo = (splitName repo).1.filter isReal ++
      if isReal (splitName repo).2 then [(splitName repo).2] else [] := by
  rw [repoDir, components, List.filter_append, List.filter_singleton, cond_eq_ite]

section Plain

variable {repo : List Char}

theorem filter_of_plain (h : plain repo = true) : (splitName repo).1.filter isReal = [] := by
  simp only [plain, Bool.and_eq_true, List.all_eq_true] at h
  rw [List.filter_eq_nil_iff]
  intro segment hsegment hreal
  simpa [hreal] using h.1.1 segment hsegment

theorem real_of_plain (h : plain repo = true) : isReal (splitName repo).2 = true := by
  simp only [plain, Bool.and_eq_true] at h
  exact h.1.2

theorem lockPath_of_plain (h : plain repo = true) :
    lockPath repo = [(splitName repo).2 ++ lockSuffix] := by
  rw [lockPath_eq, filter_of_plain h]
  rfl

theorem repoDir_of_plain (h : plain repo = true) : repoDir repo = [(splitName repo).2] := by
  rw [repoDir_eq, filter_of_plain h, if_pos (real_of_plain h)]
  rfl

theorem fileName_of_lock {segment : List Char} (h : fileName (segment ++ lockSuffix) = true) :
    fileName segment = true := by
  simp only [fileName, Bool.and_eq_true, decide_eq_true_eq, List.mem_append, List.map_append,
    List.sum_append] at h ⊢
  exact ⟨fun hnul => h.1 (.inl hnul), by omega⟩

/-- A lock right below the root belongs to a plain name, unless the mirror is the root. -/
theorem plain_of_lock (hparent : (lockPath repo).dropLast = []) (hroot : repoDir repo ≠ [])
    (hname : (lockPath repo).all fileName = true) : plain repo = true := by
  rw [lockPath_eq, List.dropLast_concat] at hparent
  rw [lockPath_eq, hparent] at hname
  rw [repoDir_eq, hparent] at hroot
  have hreal : isReal (splitName repo).2 = true := by
    by_contra hnot
    exact hroot (by simp [hnot])
  simp only [List.nil_append, List.all_cons, List.all_nil, Bool.and_true] at hname
  simp only [plain, hreal, hname, Bool.and_true, List.all_eq_true, Bool.not_eq_true']
  intro segment hsegment
  simpa using (List.filter_eq_nil_iff.mp hparent) segment hsegment

end Plain

/-! ## The names that work -/

section Separate

variable {repos : List (List Char)} {r s : List Char}

theorem Separate.paths_eq (h : Separate repos) (hr : r ∈ repos) :
    paths r = [[(splitName r).2 ++ lockSuffix], [(splitName r).2]] := by
  rw [paths, lockPath_of_plain (h.plain r hr), repoDir_of_plain (h.plain r hr)]

theorem suffix_ne (base : List Char) : base ++ lockSuffix ≠ base := by
  simp [lockSuffix]

theorem Separate.apart (h : Separate repos) : Apart repos where
  others := by
    intro r hr s hs hne p hp q hq
    rw [h.paths_eq hr] at hp
    rw [h.paths_eq hs] at hq
    obtain ⟨hbase, hlock⟩ := h.others r hr s hs hne
    have hlock' := (h.others s hs r hr (Ne.symm hne)).2
    have hdistinct : ∀ a b : List Char, a ≠ b → ¬[a] <+: [b] ∧ ¬[b] <+: [a] := by
      intro a b hab
      simp [List.cons_prefix_cons, hab, Ne.symm hab]
    simp only [List.mem_cons, List.not_mem_nil, or_false] at hp hq
    rcases hp with rfl | rfl <;> rcases hq with rfl | rfl
    · exact hdistinct _ _ fun heq => hbase (List.append_cancel_right heq)
    · exact hdistinct _ _ (Ne.symm hlock')
    · exact hdistinct _ _ hlock
    · exact hdistinct _ _ hbase
  root := by
    intro r hr p hp
    rw [h.paths_eq hr] at hp
    simp only [List.mem_cons, List.not_mem_nil, or_false] at hp
    rcases hp with rfl | rfl <;> simp

/-- What separate names leave on the disk: no mirror stands where a lock is to go, and no
lock where a mirror is. -/
structure Tidy (repos : List (List Char)) (d : Disk) : Prop where
  root : d [] = some .directory
  locks : ∀ r ∈ repos, d [(splitName r).2 ++ lockSuffix] ≠ some .directory
  mirrors : ∀ r ∈ repos, d [(splitName r).2] ≠ some .file

theorem Tidy.createDirAll {d : Disk} (h : Tidy repos d) : createDirAll d = d := by
  rw [RepoNames.createDirAll, ← h.root, Function.update_eq_self]

theorem Tidy.acquire {d : Disk} (h : Separate repos) (hd : Tidy repos d) (hr : r ∈ repos) :
    ∃ d', acquire d r = some d' ∧ Tidy repos d' := by
  have hplain := h.plain r hr
  have hname : fileName ((splitName r).2 ++ lockSuffix) = true := by
    simp only [RepoNames.plain, Bool.and_eq_true] at hplain
    exact hplain.2
  refine ⟨Function.update d [(splitName r).2 ++ lockSuffix] (some .file), ?_, ?_, ?_, ?_⟩
  · have hfree := hd.locks r hr
    simp [RepoNames.acquire, lockPath_of_plain hplain, hname, hd.createDirAll, hd.root, hfree]
  · rw [Function.update_of_ne (by simp), hd.root]
  · intro s hs
    by_cases heq : [(splitName s).2 ++ lockSuffix] = [(splitName r).2 ++ lockSuffix]
    · rw [heq, Function.update_self]
      simp
    · rw [Function.update_of_ne heq]
      exact hd.locks s hs
  · intro s hs
    have hne : [(splitName s).2] ≠ [(splitName r).2 ++ lockSuffix] := by
      intro heq
      by_cases hsr : s = r
      · subst hsr
        exact suffix_ne _ (List.singleton_inj.mp heq).symm
      · exact (h.others s hs r hr hsr).2 (List.singleton_inj.mp heq)
    rw [Function.update_of_ne hne]
    exact hd.mirrors s hs

theorem Tidy.attachMirror {bare : Bare} {d : Disk} (h : Separate repos) (hd : Tidy repos d)
    (hr : r ∈ repos) : ∃ d', attachMirror bare d r = some d' ∧ Tidy repos d' := by
  have hplain := h.plain r hr
  have hreal := real_of_plain hplain
  have hname : fileName (splitName r).2 = true := by
    simp only [RepoNames.plain, Bool.and_eq_true] at hplain
    exact fileName_of_lock hplain.2
  have hdot : (splitName r).2 ≠ ['.'] := by
    intro hdot
    rw [hdot] at hreal
    cases hreal
  have hclone : ∃ d', cloneMirror bare d [(splitName r).2] = some d' ∧ Tidy repos d' := by
    refine ⟨_, if_pos (by simp [hname, hd.root]), ?_, ?_, ?_⟩
    · simp [List.prefix_nil]
    · intro s hs
      have hne : (splitName s).2 ++ lockSuffix ≠ (splitName r).2 := by
        intro heq
        by_cases hsr : s = r
        · subst hsr
          exact suffix_ne _ heq
        · exact (h.others r hr s hs (Ne.symm hsr)).2 heq.symm
      simp only [List.cons_prefix_cons, List.nil_prefix, and_true, Ne.symm hne, if_false, hne]
      exact hd.locks s hs
    · intro s hs
      by_cases heq : (splitName r).2 = (splitName s).2
      · simp [heq, bare.root]
      · simp only [List.cons_prefix_cons, List.nil_prefix, and_true, heq, if_false,
          Ne.symm heq]
        exact hd.mirrors s hs
  unfold RepoNames.attachMirror
  rw [repoDir_of_plain hplain, hd.createDirAll]
  dsimp only
  split
  · exact ⟨d, rfl, hd⟩
  · cases hat : d [(splitName r).2] with
    | none => exact hclone
    | some entry =>
        cases entry with
        | file => exact absurd hat (hd.mirrors r hr)
        | directory =>
            exact hclone

theorem Separate.run {bare : Bare} (h : Separate repos)
    (hvalid : ∀ r ∈ repos, validateToken r = true) {es : List Event}
    (hes : ∀ e ∈ es, e.repo ∈ repos) {d : Disk} (hd : Tidy repos d) :
    ∃ d', es.foldlM (exec bare) d = some d' := by
  induction es generalizing d with
  | nil => exact ⟨d, rfl⟩
  | cons e es ih =>
      have hmem := hes e List.mem_cons_self
      have hstep : ∃ d', exec bare d e = some d' ∧ Tidy repos d' := by
        cases e with
        | lock repo =>
            rw [exec, if_pos (hvalid repo hmem)]
            exact hd.acquire h hmem
        | mirror repo => exact hd.attachMirror h hmem
      obtain ⟨d', hexec, hd'⟩ := hstep
      rw [List.foldlM_cons, hexec]
      exact ih (fun e' he' => hes e' (List.mem_cons_of_mem e he')) hd'

end Separate

theorem tidy_empty (repos : List (List Char)) : Tidy repos emptyRoot where
  root := rfl
  locks := by simp [emptyRoot]
  mirrors := by simp [emptyRoot]

/-! ## What working names are like -/

/-- The directories below the root are mirrors of the names so far, and these are plain. -/
structure Grown (done : List Event) (d : Disk) : Prop where
  mirrors : ∀ q, d q = some .directory → q ≠ [] → ∃ s ∈ names done, repoDir s <+: q
  plains : ∀ r ∈ names done, plain r = true

section Grown

variable {bare : Bare} {es done : List Event} {d d' : Disk} {repo : List Char}

theorem mem_names_append {e : Event} {r : List Char} (h : r ∈ names (done ++ [e])) :
    r ∈ names done ∨ r = e.repo := by
  simpa [names] using h

theorem Grown.acquire (hapart : Apart (names es))
    (hsub : names (done ++ [Event.lock repo]) ⊆ names es) (h : Grown done d) (hstep : acquire d repo = some d') :
    Grown (done ++ [Event.lock repo]) d' := by
  have hold : ∀ s ∈ names done, s ∈ names (done ++ [Event.lock repo]) := by
    intro s hs
    rw [names, List.map_append]
    exact List.mem_append_left _ hs
  have hrepo : repo ∈ names es := hsub (by simp [names, Event.repo])
  have hdir : ∀ q, createDirAll d q = some .directory → q ≠ [] →
      ∃ s ∈ names done, repoDir s <+: q := by
    intro q hq hne
    rw [createDirAll, Function.update_of_ne hne] at hq
    exact h.mirrors q hq hne
  unfold RepoNames.acquire at hstep
  dsimp only at hstep
  split at hstep
  · rename_i hopen
    simp only [Bool.and_eq_true, beq_iff_eq, bne_iff_ne] at hopen
    obtain ⟨⟨hname, hparent⟩, hfree⟩ := hopen
    cases hstep
    have hplain : plain repo = true := by
      by_cases hnil : (lockPath repo).dropLast = []
      · exact plain_of_lock hnil (hapart.root repo hrepo _ (by simp [paths])) hname
      · obtain ⟨s, hs, hover⟩ := hdir _ hparent hnil
        by_cases heq : s = repo
        · exact heq ▸ h.plains s hs
        · exact absurd (hover.trans (List.dropLast_prefix _))
            (hapart.others s (hsub (hold s hs)) repo hrepo heq (repoDir s) (by simp [paths])
              (lockPath repo) (by simp [paths])).1
    refine ⟨?_, ?_⟩
    · intro q hq hne
      by_cases heq : q = lockPath repo
      · rw [heq, Function.update_self] at hq
        cases hq
      · rw [Function.update_of_ne heq] at hq
        obtain ⟨s, hs, hover⟩ := hdir q hq hne
        exact ⟨s, hold s hs, hover⟩
    · intro r hr
      rcases mem_names_append hr with hr | rfl
      · exact h.plains r hr
      · exact hplain
  · cases hstep

theorem Grown.cloneMirror (h : Grown done d) (hplain : plain repo = true)
    (hstep : cloneMirror bare (createDirAll d) (repoDir repo) = some d') :
    ∀ q, d' q = some .directory → q ≠ [] → (∃ s ∈ names done, repoDir s <+: q) ∨
      repoDir repo <+: q := by
  intro q hq hne
  unfold RepoNames.cloneMirror at hstep
  split at hstep
  · cases hstep
    dsimp only at hq
    split at hq
    · exact .inr ‹_›
    · split at hq
      · rename_i hover
        rw [repoDir_of_plain hplain] at hover
        rcases List.prefix_cons_iff.mp hover with rfl | ⟨rest, rfl, hrest⟩
        · exact absurd rfl hne
        · rw [List.prefix_nil.mp hrest]
          exact .inr (by rw [repoDir_of_plain hplain])
      · rw [createDirAll, Function.update_of_ne hne] at hq
        exact .inl (h.mirrors q hq hne)
  · cases hstep

theorem Grown.attachMirror (h : Grown done d) (hlocked : Event.lock repo ∈ done)
    (hstep : attachMirror bare d repo = some d') : Grown (done ++ [Event.mirror repo]) d' := by
  have hrepo : repo ∈ names done := List.mem_map_of_mem (f := Event.repo) hlocked
  have hplain := h.plains repo hrepo
  have hold : ∀ s ∈ names done, s ∈ names (done ++ [Event.mirror repo]) := by
    intro s hs
    rw [names, List.map_append]
    exact List.mem_append_left _ hs
  refine ⟨?_, ?_⟩
  · intro q hq hne
    have hclone : RepoNames.cloneMirror bare (createDirAll d) (repoDir repo) = some d' →
        ∃ s ∈ names (done ++ [Event.mirror repo]), repoDir s <+: q := by
      intro hclone
      rcases h.cloneMirror hplain hclone q hq hne with ⟨s, hs, hover⟩ | hover
      · exact ⟨s, hold s hs, hover⟩
      · exact ⟨repo, hold repo hrepo, hover⟩
    unfold RepoNames.attachMirror at hstep
    dsimp only at hstep
    split at hstep
    · cases hstep
      obtain ⟨s, hs, hover⟩ := h.mirrors q hq hne
      exact ⟨s, hold s hs, hover⟩
    · split at hstep
      · cases hstep
      · split at hstep
        · cases hstep
        · exact hclone hstep
      · exact hclone hstep
  · intro r hr
    rcases mem_names_append hr with hr | rfl
    · exact h.plains r hr
    · exact hplain

/-- A run that goes through makes nothing but locks and mirrors of plain names. -/
theorem grown_of_run (hapart : Apart (names es)) (hlocked : Locked es)
    (hrun : Runs (fun d e d' => exec bare d e = some d') emptyRoot es d) : Grown es d := by
  refine Runs.history (fun done d => done <+: es → Grown done d) ?_ ?_ hrun
    (List.prefix_refl es)
  · intro _
    refine ⟨?_, by simp [names]⟩
    intro q hq hne
    simp [emptyRoot, hne] at hq
  · intro done d e d' _ ih hstep hover
    have hbefore := ih ((List.prefix_append done [e]).trans hover)
    obtain ⟨after, hes⟩ := hover
    have hsub : names (done ++ [e]) ⊆ names es := by
      intro r hr
      rw [← hes, names, List.map_append]
      exact List.mem_append_left _ hr
    cases e with
    | lock repo =>
        simp only [exec] at hstep
        split at hstep
        · exact hbefore.acquire hapart hsub hstep
        · cases hstep
    | mirror repo =>
        refine hbefore.attachMirror (hlocked done repo after ?_) hstep
        rw [← hes, List.append_assoc]
        rfl

end Grown

/-- Prepares of validated names keep apart and go through exactly when the names are
separate, in whatever order they take their turns. -/
theorem names_work_iff (bare : Bare) (es : List Event) (hlocked : Locked es)
    (hvalid : ∀ r ∈ names es, validateToken r = true) :
    (Apart (names es) ∧ ∃ d, es.foldlM (exec bare) emptyRoot = some d) ↔
      Separate (names es) := by
  constructor
  · rintro ⟨hapart, d, hrun⟩
    have hgrown := grown_of_run hapart hlocked (Runs.of_foldlM hrun)
    refine ⟨hgrown.plains, ?_⟩
    intro r hr s hs hne
    have hrepo := repoDir_of_plain (hgrown.plains r hr)
    have hother := repoDir_of_plain (hgrown.plains s hs)
    have hlock := lockPath_of_plain (hgrown.plains s hs)
    refine ⟨?_, ?_⟩
    · intro heq
      refine (hapart.others r hr s hs hne (repoDir r) (by simp [paths]) (repoDir s)
        (by simp [paths])).1 ?_
      rw [hrepo, hother, heq]
    · intro heq
      refine (hapart.others r hr s hs hne (repoDir r) (by simp [paths]) (lockPath s)
        (by simp [paths])).1 ?_
      rw [hrepo, hlock, heq]
  · intro h
    exact ⟨h.apart, h.run hvalid (fun e he => List.mem_map_of_mem he) (tidy_empty _)⟩

/-- Prepares one after the other. -/
def prepares (repos : List (List Char)) : List Event :=
  repos.flatMap fun repo => [.lock repo, .mirror repo]

theorem locked_prepares (repos : List (List Char)) : Locked (prepares repos) := by
  induction repos with
  | nil =>
      intro before repo after h
      simp [prepares] at h
  | cons r repos ih =>
      intro before repo after h
      replace h : Event.lock r :: .mirror r :: prepares repos =
        before ++ Event.mirror repo :: after := h
      match before, h with
      | [], h => cases h
      | [e], h =>
          obtain ⟨rfl, h⟩ := List.cons.inj h
          cases h
          exact List.mem_cons_self
      | e :: e' :: before, h =>
          have hrest := (List.cons.inj (List.cons.inj h).2).2
          exact List.mem_cons_of_mem _ (List.mem_cons_of_mem _ (ih before repo after hrest))

def smallBare : Bare where
  tree q := if q = [] then some .directory else if q = [headName] then some .file else none
  root := rfl
  head := rfl

theorem short_names_work :
    Apart (names (prepares [['a', 'p', 'i'], ['w', 'e', 'b']])) ∧
      ∃ d, (prepares [['a', 'p', 'i'], ['w', 'e', 'b']]).foldlM (exec smallBare) emptyRoot = some d :=
  (names_work_iff smallBare _ (locked_prepares _) (by decide)).mpr ⟨by decide, by decide⟩

/-- The directory of the owner is not there, so the lock cannot be opened. -/
theorem owned_name_unprepared : ∃ (bare : Bare) (es : List Event), Locked es ∧
    (∀ r ∈ names es, validateToken r = true) ∧
      ¬(Apart (names es) ∧ ∃ d, es.foldlM (exec bare) emptyRoot = some d) := by
  refine ⟨smallBare, prepares [['a', '/', 'b']], locked_prepares _, by decide, ?_⟩
  rintro ⟨_, d, hrun⟩
  have hnone : (prepares [['a', '/', 'b']]).foldlM (exec smallBare) emptyRoot = none := by
    rfl
  rw [hnone] at hrun
  cases hrun

end AgentGrid.Node.RepoNames
