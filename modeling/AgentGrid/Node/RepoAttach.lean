import AgentGrid.Node.CommandGuard
import AgentGrid.Node.Payload
import Mathlib.Logic.Function.Basic

/-!
# Attach states of mirrors

A prepare reports what became of its mirror while it holds the lock of the
repository.  A long error is cut at a byte.  Inside a character the cut panics: the
lock of the states and the lock of the repository are poisoned with it.
-/

namespace AgentGrid.Node

/-! ## The states -/

structure RepoAttachView where
  name : List Char
  state : List Char
  error : List Char
deriving DecidableEq

def maxAttachError : Nat := 500

/-- `String::truncate` of a text that is not shorter; nothing where it panics. -/
def truncateTo : Nat → List Char → Option (List Char)
  | _, [] => some []
  | n, c :: cs =>
      if n = 0 then some []
      else if c.utf8Size ≤ n then (truncateTo (n - c.utf8Size) cs).map (c :: ·)
      else none

def capError (error : List Char) : Option (List Char) :=
  if maxAttachError < utf8Bytes error then truncateTo maxAttachError error else some error

structure Mirrors where
  attach : List Char → Option RepoAttachView := fun _ => none
  attachPoisoned : Bool := false
  repoPoisoned : List Char → Bool := fun _ => false

def Mirrors.record (M : Mirrors) (key : List Char) (view : RepoAttachView) : Mirrors :=
  { M with attach := Function.update M.attach key (some view) }

/-- The states, and whether the report panicked.  Poisoned states are left alone. -/
def Mirrors.setRepoAttach (M : Mirrors) (key repo state error : List Char) : Mirrors × Bool :=
  if M.attachPoisoned then (M, false)
  else
    match capError error with
    | some error => (M.record key ⟨repo, state, error⟩, false)
    | none => ({ M with attachPoisoned := true }, true)

/-- What `repo_attach_snapshot` has for a mirror. -/
def Mirrors.read (M : Mirrors) (key : List Char) : Option RepoAttachView :=
  if M.attachPoisoned then none else M.attach key

/-! ## Checks of an assignment -/

def tokenMetachars : List Char := "\"';|&$()\x60><\\\n\t\x7b\x7d".toList

def validateToken (s : List Char) : Bool :=
  !(s.isEmpty || s.any (· ∈ tokenMetachars) || decide (['.', '.'] <:+: s) ||
    s.head? == some '/' || s.head? == some '-')

def urlMetachars : List Char := "\"';|&$()\x60><\\".toList

inductive UrlFault
  | unsafeUrl
  | leadingDash
  | unsafeTransport
deriving DecidableEq

def validateGitUrl (s : List Char) : Option UrlFault :=
  if s.any fun c => isWhitespace c || c ∈ urlMetachars then some .unsafeUrl
  else if s.head? = some '-' then some .leadingDash
  else if [':', ':'] <:+: s then some .unsafeTransport
  else none

/-! ## Prepares -/

/-- A prepare of an assignment, and what its steps come to: the error of each, or none. -/
structure Prepare where
  repositoryRoot : List Char
  repository : List Char
  gitUrl : List Char
  taskId : List Char
  defaultBranch : List Char
  /-- The directory of the workspace. -/
  directory : Option (List Char) := none
  /-- `validate_local_source`. -/
  source : Option (List Char) := none
  /-- As the fetch cohort decides. -/
  needFetch : Bool := true
  flock : Option (List Char) := none
  /-- The fetch or the clone, with its quota check. -/
  fetch : Option (List Char) := none
  /-- Everything after it. -/
  rest : Option (List Char) := none

inductive PrepareError
  | step (text : List Char)
  | unsafeToken (token : List Char)
  | url (fault : UrlFault)
deriving DecidableEq

inductive Prepared
  | ready
  | failed (error : PrepareError)
  | panicked
deriving DecidableEq

namespace Prepare

variable (p : Prepare)

def key : List Char := p.repositoryRoot ++ '|' :: p.repository

def finish : Prepared :=
  match p.rest with
  | none => .ready
  | some text => .failed (.step text)

/-- The first check that fails, of a prepare with a git URL. -/
def invalid : Option PrepareError :=
  match [p.repository, p.taskId, p.defaultBranch].find? fun token => !(validateToken token) with
  | some token => some (.unsafeToken token)
  | none =>
      match validateGitUrl p.gitUrl with
      | some fault => some (.url fault)
      | none => p.source.map .step

end Prepare

/-- A panic under the lock of a repository.  In a build that does not unwind it ends
the daemon, which starts anew. -/
def Mirrors.panic (M : Mirrors) (unwinds : Bool) (repo : List Char) : Mirrors :=
  if unwinds then { M with repoPoisoned := Function.update M.repoPoisoned repo true } else {}

variable (unwinds : Bool)

/-- The mirror is fetched or cloned and the outcome reported. -/
def Mirrors.fetchMirror (M : Mirrors) (p : Prepare) : Mirrors × Prepared :=
  let cloning := (M.setRepoAttach p.key p.repository "cloning".toList []).1
  match p.fetch with
  | none => ((cloning.setRepoAttach p.key p.repository "ready".toList []).1, p.finish)
  | some error =>
      match cloning.setRepoAttach p.key p.repository "invalid".toList error with
      | (M', false) => (M', .failed (.step error))
      | (M', true) => (M'.panic unwinds p.repository, .panicked)

def Mirrors.prepareWorkspace (M : Mirrors) (p : Prepare) : Mirrors × Prepared :=
  match p.directory with
  | some text => (M, .failed (.step text))
  | none =>
      if p.gitUrl = [] then (M, p.finish)
      else
        match p.invalid with
        | some error => (M, .failed error)
        | none =>
            if M.repoPoisoned p.repository then (M.panic unwinds p.repository, .panicked)
            else
              match p.flock with
              | some text => (M, .failed (.step text))
              | none => if p.needFetch then M.fetchMirror unwinds p else (M, p.finish)

def Mirrors.run (past : List Prepare) : Mirrors :=
  past.foldl (fun M p => (M.prepareWorkspace unwinds p).1) {}

/-! ## Failed fetches -/

/-- The prepare gets as far as its fetch, if nothing is poisoned. -/
structure Prepare.Fetches (p : Prepare) : Prop where
  directory : p.directory = none
  remote : p.gitUrl ≠ []
  valid : p.invalid = none
  flock : p.flock = none
  needFetch : p.needFetch = true

structure FailedFetch extends Prepare where
  error : List Char
  fetches : toPrepare.Fetches
  failed : toPrepare.fetch = some error

/-- The prepare returns an error, its mirror is invalid with a short error, and a later
prepare of the repository can succeed. -/
structure FailedFetch.Contained (M : Mirrors) (p : FailedFetch) : Prop where
  returned : (M.prepareWorkspace unwinds p.toPrepare).2 = .failed (.step p.error)
  unpoisoned : (M.prepareWorkspace unwinds p.toPrepare).1.repoPoisoned p.repository = false
  invalid : ∃ view, (M.prepareWorkspace unwinds p.toPrepare).1.read p.key = some view ∧
    view.state = "invalid".toList ∧ utf8Bytes view.error ≤ maxAttachError
  later : ∃ q : Prepare, q.repositoryRoot = p.repositoryRoot ∧ q.repository = p.repository ∧
    q.Fetches ∧
    ((M.prepareWorkspace unwinds p.toPrepare).1.prepareWorkspace unwinds q).2 = .ready

/-- The error is short, or a character ends where it is cut. -/
def CutsWell (error : List Char) : Prop :=
  utf8Bytes error ≤ maxAttachError ∨
    ∃ first rest, error = first ++ rest ∧ utf8Bytes first = maxAttachError

/-- The error of a fetch that a prepare gets to cuts well. -/
def Prepare.Clean (p : Prepare) : Prop :=
  p.Fetches → ∀ error, p.fetch = some error → CutsWell error

/-! ## The cut -/

theorem truncateTo_le {n : Nat} {error short : List Char} (h : truncateTo n error = some short) :
    utf8Bytes short ≤ n := by
  induction error generalizing n short with
  | nil =>
      rw [truncateTo, Option.some_inj] at h
      rw [← h]
      exact Nat.zero_le n
  | cons c cs ih =>
      rw [truncateTo] at h
      split at h
      · rw [← Option.some_inj.mp h]
        exact Nat.zero_le n
      split at h
      · rename_i hfits
        obtain ⟨tail, htail, rfl⟩ := Option.map_eq_some_iff.mp h
        have := ih htail
        simp only [utf8Bytes, List.map_cons, List.sum_cons] at this ⊢
        omega
      · cases h

theorem capError_le {error short : List Char} (h : capError error = some short) :
    utf8Bytes short ≤ maxAttachError := by
  unfold capError at h
  split at h
  · exact truncateTo_le h
  · rename_i hlong
    rw [← Option.some_inj.mp h]
    exact Nat.not_lt.mp hlong

theorem truncateTo_isSome {n : Nat} {error : List Char} (hlong : n < utf8Bytes error) :
    (truncateTo n error).isSome ↔
      ∃ first rest, error = first ++ rest ∧ utf8Bytes first = n := by
  induction error generalizing n with
  | nil => cases hlong
  | cons c cs ih =>
      rw [truncateTo]
      by_cases hzero : n = 0
      · rw [if_pos hzero]
        exact iff_of_true rfl ⟨[], c :: cs, rfl, hzero.symm⟩
      · rw [if_neg hzero]
        have hsum : utf8Bytes (c :: cs) = c.utf8Size + utf8Bytes cs := by simp [utf8Bytes]
        by_cases hfits : c.utf8Size ≤ n
        · rw [if_pos hfits, Option.isSome_map, ih (by omega)]
          constructor
          · rintro ⟨first, rest, rfl, hfirst⟩
            refine ⟨c :: first, rest, rfl, ?_⟩
            have : utf8Bytes (c :: first) = c.utf8Size + utf8Bytes first := by simp [utf8Bytes]
            omega
          · rintro ⟨first, rest, hsplit, hfirst⟩
            cases first with
            | nil => exact absurd hfirst.symm hzero
            | cons d first =>
                obtain ⟨rfl, rfl⟩ := List.cons.inj hsplit
                refine ⟨first, rest, rfl, ?_⟩
                have : utf8Bytes (c :: first) = c.utf8Size + utf8Bytes first := by
                  simp [utf8Bytes]
                omega
        · rw [if_neg hfits]
          refine iff_of_false Bool.false_ne_true ?_
          rintro ⟨first, rest, hsplit, hfirst⟩
          cases first with
          | nil => exact hzero hfirst.symm
          | cons d first =>
              obtain ⟨rfl, rfl⟩ := List.cons.inj hsplit
              have : utf8Bytes (c :: first) = c.utf8Size + utf8Bytes first := by simp [utf8Bytes]
              omega

theorem capError_isSome (error : List Char) : (capError error).isSome ↔ CutsWell error := by
  unfold capError CutsWell
  split
  · rename_i hlong
    rw [truncateTo_isSome hlong]
    exact ⟨.inr, fun h => h.resolve_left (Nat.not_le.mpr hlong)⟩
  · rename_i hshort
    exact iff_of_true rfl (.inl (Nat.not_lt.mp hshort))

/-! ## Reports -/

section Reports

variable {M : Mirrors}

theorem setRepoAttach_empty (h : M.attachPoisoned = false) (key repo state : List Char) :
    M.setRepoAttach key repo state [] = (M.record key ⟨repo, state, []⟩, false) := by
  rw [Mirrors.setRepoAttach, if_neg (by simp [h])]
  rfl

/-- Nothing is poisoned. -/
structure Mirrors.Healthy (M : Mirrors) : Prop where
  attach : M.attachPoisoned = false
  repos : ∀ repo, M.repoPoisoned repo = false

theorem healthy_start : ({} : Mirrors).Healthy := ⟨rfl, fun _ => rfl⟩

theorem Mirrors.Healthy.record (h : M.Healthy) (key : List Char) (view : RepoAttachView) :
    (M.record key view).Healthy := ⟨h.attach, h.repos⟩

theorem Mirrors.Healthy.read_record (h : M.Healthy) (key : List Char) (view : RepoAttachView) :
    (M.record key view).read key = some view := by
  rw [Mirrors.read, (h.record key view).attach, if_neg Bool.false_ne_true]
  exact Function.update_self key (some view) M.attach

/-- What a prepare does that gets to its fetch. -/
theorem prepareWorkspace_fetches (h : M.Healthy) {p : Prepare} (hp : p.Fetches) :
    M.prepareWorkspace unwinds p = M.fetchMirror unwinds p := by
  rw [Mirrors.prepareWorkspace, hp.directory]
  simp only
  rw [if_neg hp.remote, hp.valid]
  simp only
  rw [if_neg (by simp [h.repos]), hp.flock]
  simp only
  rw [if_pos hp.needFetch]

theorem fetchMirror_ready (h : M.Healthy) {p : Prepare} (hp : p.fetch = none) :
    (M.fetchMirror unwinds p).1.Healthy ∧ (M.fetchMirror unwinds p).2 = p.finish := by
  rw [Mirrors.fetchMirror, hp, setRepoAttach_empty h.attach]
  simp only
  rw [setRepoAttach_empty (h.record _ _).attach]
  exact ⟨(h.record _ _).record _ _, trivial⟩

theorem fetchMirror_failed (h : M.Healthy) {p : Prepare} {error short : List Char}
    (hp : p.fetch = some error) (hshort : capError error = some short) :
    (M.fetchMirror unwinds p).1.Healthy ∧
      (M.fetchMirror unwinds p).1.read p.key = some ⟨p.repository, "invalid".toList, short⟩ ∧
      (M.fetchMirror unwinds p).2 = .failed (.step error) := by
  have hreport : ∀ M' : Mirrors, M'.Healthy →
      M'.setRepoAttach p.key p.repository "invalid".toList error =
        (M'.record p.key ⟨p.repository, "invalid".toList, short⟩, false) := by
    intro M' hM'
    rw [Mirrors.setRepoAttach, hM'.attach, if_neg Bool.false_ne_true, hshort]
  rw [Mirrors.fetchMirror, hp, setRepoAttach_empty h.attach]
  simp only
  rw [hreport _ (h.record _ _)]
  exact ⟨(h.record _ _).record _ _, (h.record _ _).read_record _ _, rfl⟩

theorem fetchMirror_panicked (h : M.Healthy) {p : Prepare} {error : List Char}
    (hp : p.fetch = some error) (hbad : capError error = none) :
    (M.fetchMirror unwinds p).2 = .panicked ∧
      if unwinds then (M.fetchMirror unwinds p).1.attachPoisoned = true
      else (M.fetchMirror unwinds p).1.Healthy := by
  have hreport : ∀ M' : Mirrors, M'.Healthy →
      M'.setRepoAttach p.key p.repository "invalid".toList error =
        ({ M' with attachPoisoned := true }, true) := by
    intro M' hM'
    rw [Mirrors.setRepoAttach, hM'.attach, if_neg Bool.false_ne_true, hbad]
  rw [Mirrors.fetchMirror, hp, setRepoAttach_empty h.attach]
  simp only
  rw [hreport _ (h.record _ _)]
  refine ⟨rfl, ?_⟩
  cases unwinds with
  | true => rfl
  | false => exact healthy_start

end Reports

/-! ## Runs -/

section Runs

variable {M : Mirrors}

theorem prepareWorkspace_idle (h : M.Healthy) {p : Prepare} (hp : ¬ p.Fetches) :
    (M.prepareWorkspace unwinds p).1 = M := by
  unfold Mirrors.prepareWorkspace
  split
  · rfl
  rename_i hdirectory
  split
  · rfl
  rename_i hremote
  split
  · rfl
  rename_i hvalid
  split
  · rename_i hpoisoned
    rw [h.repos] at hpoisoned
    cases hpoisoned
  split
  · rfl
  rename_i hflock
  split
  · rename_i hfetch
    exact absurd ⟨hdirectory, hremote, hvalid, hflock, hfetch⟩ hp
  · rfl

/-- A clean prepare poisons nothing. -/
theorem Mirrors.Healthy.prepare (h : M.Healthy) {p : Prepare} (hp : p.Clean) :
    (M.prepareWorkspace unwinds p).1.Healthy := by
  by_cases hfetches : p.Fetches
  · rw [prepareWorkspace_fetches unwinds h hfetches]
    cases hfetch : p.fetch with
    | none => exact (fetchMirror_ready unwinds h hfetch).1
    | some error =>
        obtain ⟨short, hshort⟩ :=
          Option.isSome_iff_exists.mp ((capError_isSome error).mpr (hp hfetches error hfetch))
        exact (fetchMirror_failed unwinds h hfetch hshort).1
  · rw [prepareWorkspace_idle unwinds h hfetches]
    exact h

/-- Any other one poisons the states, or ends the daemon. -/
theorem Mirrors.Healthy.unclean (h : M.Healthy) {p : Prepare} (hp : ¬ p.Clean) :
    if unwinds then (M.prepareWorkspace unwinds p).1.attachPoisoned = true
    else (M.prepareWorkspace unwinds p).1.Healthy := by
  simp only [Prepare.Clean, not_forall] at hp
  obtain ⟨hfetches, error, hfetch, hbad⟩ := hp
  rw [← capError_isSome, Bool.not_eq_true, Option.isSome_eq_false_iff,
    Option.isNone_iff_eq_none] at hbad
  rw [prepareWorkspace_fetches unwinds h hfetches]
  exact (fetchMirror_panicked unwinds h hfetch hbad).2

theorem setRepoAttach_poisoned (h : M.attachPoisoned = true) (key repo state error : List Char) :
    M.setRepoAttach key repo state error = (M, false) := if_pos h

/-- Where a panic unwinds, poisoned states stay so. -/
theorem prepareWorkspace_poisoned (h : M.attachPoisoned = true) (p : Prepare) :
    (M.prepareWorkspace true p).1.attachPoisoned = true := by
  unfold Mirrors.prepareWorkspace
  split
  · exact h
  split
  · exact h
  split
  · exact h
  split
  · exact h
  split
  · exact h
  split
  · rw [Mirrors.fetchMirror, setRepoAttach_poisoned h]
    simp only
    split
    · rw [setRepoAttach_poisoned h]
      exact h
    · rw [setRepoAttach_poisoned h]
      exact h
  · exact h

theorem foldl_poisoned (h : M.attachPoisoned = true) (past : List Prepare) :
    (past.foldl (fun M p => (M.prepareWorkspace true p).1) M).attachPoisoned = true := by
  induction past generalizing M with
  | nil => exact h
  | cons p past ih => exact ih (prepareWorkspace_poisoned h p)

/-- After a run nothing is poisoned, unless panics unwind and some prepare of it was not
clean. -/
theorem foldl_healthy (h : M.Healthy) (past : List Prepare) :
    ((unwinds = true → ∀ q ∈ past, q.Clean) ∧
        (past.foldl (fun M p => (M.prepareWorkspace unwinds p).1) M).Healthy) ∨
      (unwinds = true ∧ (∃ q ∈ past, ¬ q.Clean) ∧
        (past.foldl (fun M p => (M.prepareWorkspace unwinds p).1) M).attachPoisoned = true) := by
  induction past generalizing M with
  | nil => exact .inl ⟨fun _ q hq => (List.not_mem_nil hq).elim, h⟩
  | cons p past ih =>
      have hnext : (M.prepareWorkspace unwinds p).1.Healthy → (unwinds = true → p.Clean) →
          ((unwinds = true → ∀ q ∈ p :: past, q.Clean) ∧
              ((p :: past).foldl (fun M p => (M.prepareWorkspace unwinds p).1) M).Healthy) ∨
            (unwinds = true ∧ (∃ q ∈ p :: past, ¬ q.Clean) ∧
              ((p :: past).foldl
                (fun M p => (M.prepareWorkspace unwinds p).1) M).attachPoisoned = true) := by
        intro hhealthy hclean
        rcases ih hhealthy with ⟨hall, hrest⟩ | ⟨hunwinds, ⟨q, hq, hbad⟩, hrest⟩
        · refine .inl ⟨fun hunwinds q hq => ?_, hrest⟩
          rcases List.mem_cons.mp hq with rfl | hq
          · exact hclean hunwinds
          · exact hall hunwinds q hq
        · exact .inr ⟨hunwinds, ⟨q, List.mem_cons_of_mem p hq, hbad⟩, hrest⟩
      by_cases hp : p.Clean
      · exact hnext (h.prepare unwinds hp) fun _ => hp
      · have hunclean := h.unclean unwinds hp
        cases unwinds with
        | false => exact hnext hunclean nofun
        | true => exact .inr ⟨rfl, ⟨p, List.mem_cons_self, hp⟩, foldl_poisoned hunclean past⟩

end Runs

/-! ## Containment -/

section Containment

variable {M : Mirrors}

/-- The same prepare when its steps go well. -/
def Prepare.again (p : Prepare) : Prepare := { p with fetch := none, rest := none }

theorem Prepare.Fetches.again {p : Prepare} (h : p.Fetches) : p.again.Fetches :=
  ⟨h.directory, h.remote, h.valid, h.flock, h.needFetch⟩

theorem contained_of_cutsWell (h : M.Healthy) {p : FailedFetch} (hp : CutsWell p.error) :
    p.Contained unwinds M := by
  obtain ⟨short, hshort⟩ := Option.isSome_iff_exists.mp ((capError_isSome p.error).mpr hp)
  obtain ⟨hhealthy, hread, hresult⟩ :=
    fetchMirror_failed unwinds h p.failed hshort
  have hprepare := prepareWorkspace_fetches unwinds h p.fetches
  refine ⟨?_, ?_, ⟨⟨p.repository, "invalid".toList, short⟩, ?_, rfl, capError_le hshort⟩,
    p.again, rfl, rfl, p.fetches.again, ?_⟩
  · rw [hprepare, hresult]
  · rw [hprepare]
    exact hhealthy.repos _
  · rw [hprepare]
    exact hread
  · rw [hprepare, prepareWorkspace_fetches unwinds hhealthy p.fetches.again]
    exact (fetchMirror_ready unwinds hhealthy rfl).2

theorem cutsWell_of_contained (h : M.Healthy) {p : FailedFetch} (hp : p.Contained unwinds M) :
    CutsWell p.error := by
  rw [← capError_isSome]
  cases hcut : capError p.error with
  | some short => rfl
  | none =>
      have hpanic := (fetchMirror_panicked unwinds h p.failed hcut).1
      have hreturned := hp.returned
      rw [prepareWorkspace_fetches unwinds h p.fetches, hpanic] at hreturned
      cases hreturned

/-- In every run a failed fetch is contained exactly if its error cuts well and, where
panics unwind, so did the errors before it. -/
theorem failed_fetch_contained (unwinds : Bool) (past : List Prepare) (p : FailedFetch) :
    p.Contained unwinds (Mirrors.run unwinds past) ↔
      CutsWell p.error ∧ (unwinds = true → ∀ q ∈ past, q.Clean) := by
  rcases foldl_healthy unwinds healthy_start past with
    ⟨hclean, hhealthy⟩ | ⟨rfl, ⟨q, hq, hbad⟩, hpoisoned⟩
  · exact ⟨fun h => ⟨cutsWell_of_contained unwinds hhealthy h, hclean⟩,
      fun h => contained_of_cutsWell unwinds hhealthy h.1⟩
  · constructor
    · intro h
      obtain ⟨view, hread, -⟩ := h.invalid
      have hstill : ((Mirrors.run true past).prepareWorkspace true p.toPrepare).1.attachPoisoned =
          true := prepareWorkspace_poisoned hpoisoned p.toPrepare
      rw [Mirrors.read, if_pos hstill] at hread
      cases hread
    · exact fun h => absurd (h.2 rfl q hq) hbad

end Containment

/-- The text of a clone that fails, where `Debug` writes the arguments as they are. -/
def cloneFailed (gitUrl repository : List Char) : List Char :=
  "git [\"clone\", \"--mirror\", \"--\", \"".toList ++ gitUrl ++ "\", \"".toList ++ repository ++
    "\"] failed".toList

/-- A URL with letters of two bytes. -/
def accentedUrl : List Char := "https://h/".toList ++ List.replicate 300 'é'

def accentedFetch : FailedFetch where
  repositoryRoot := "/repos".toList
  repository := ['r']
  gitUrl := accentedUrl
  taskId := ['t']
  defaultBranch := "main".toList
  fetch := some (cloneFailed accentedUrl ['r'])
  error := cloneFailed accentedUrl ['r']
  fetches := ⟨rfl, by decide, by decide +kernel, rfl, rfl⟩
  failed := rfl

theorem accented_url_panics : ¬ ∀ (unwinds : Bool) (past : List Prepare) (p : FailedFetch),
    p.Contained unwinds (Mirrors.run unwinds past) := by
  intro h
  have hreturned := (h true [] accentedFetch).returned
  revert hreturned
  decide +kernel

end AgentGrid.Node
