import Mathlib.Data.List.Infix
import Mathlib.Logic.Function.Basic

/-!
# The sweep of the workspaces at startup

A killed daemon leaves the directories of its attempts, and the mirrors register
them as linked worktrees.  `prune_stale_workspaces` removes the old directories
and then runs `git worktree prune` in the entries of the repository root that
have a `.git`.  Paths are real places, as lists of components.

Git is as documented.  `worktree prune` forgets every worktree that is not locked
and whose `.git` is missing.  `worktree add` takes no path that is registered and
no branch that another worktree stands on, and holds a lock while it works.
-/

namespace AgentGrid.Node.Prune

abbrev Name : Type := String

abbrev Path : Type := List Name

inductive Kind
  | directory
  | file
  /-- With the place that it leads to. -/
  | symlink (target : Path)
deriving DecidableEq

structure Entry where
  kind : Kind
  modified : Int
deriving DecidableEq

def Entry.isDir (e : Entry) : Bool := e.kind == .directory

structure Registration where
  path : Path
  branch : Option String
  locked : Bool := false
deriving DecidableEq

structure Disk where
  tree : Path → Option Entry := fun _ => none
  /-- The git directories, with the linked worktrees that they register. -/
  repositories : Path → Option (List Registration) := fun _ => none

namespace Disk

variable (d : Disk)

def isDir (p : Path) : Bool := (d.tree p).any Entry.isDir

def place (p : Path) : Path :=
  match d.tree p with
  | some ⟨.symlink target, _⟩ => target
  | _ => p

def pathExists (p : Path) : Bool := (d.tree (d.place p)).isSome

def erase (gone : Path → Bool) : Disk where
  tree p := if gone p then none else d.tree p
  repositories p := if gone p then none else d.repositories p

/-- `git worktree prune`. -/
def kept (x : Registration) : Bool := x.locked || d.pathExists (x.path ++ [".git"])

/-- A git that is started where it finds no repository does nothing. -/
def worktreePrune (repository : Option Path) : Disk :=
  match repository with
  | none => d
  | some g =>
      { d with
        repositories := Function.update d.repositories g
          ((d.repositories g).map fun R => R.filter d.kept) }

end Disk

/-- `git worktree add -B` at an empty path. -/
def addWorktree (R : List Registration) (p : Path) (branch : String) :
    Option (List Registration) :=
  if R.any fun x => x.path == p || x.branch == some branch then none
  else some ({ path := p, branch := some branch } :: R)

/-! ## What a prepare makes -/

namespace Disk

variable (d : Disk)

def createDirAll (p : Path) (time : Int) : Disk :=
  { d with
    tree := fun q =>
      if q.isPrefixOf p && (d.tree q).isNone then some ⟨.directory, time⟩ else d.tree q }

def mirrorLayout : List (Name × Kind) :=
  [("HEAD", .file), ("config", .file), ("description", .file), ("packed-refs", .file),
    ("hooks", .directory), ("info", .directory), ("objects", .directory), ("refs", .directory)]

/-- `git clone --mirror`, over what a clone that was killed left. -/
def cloneMirror (g : Path) (time : Int) : Disk where
  tree q :=
    match mirrorLayout.find? fun entry => g ++ [entry.1] == q with
    | some entry => some ⟨entry.2, time⟩
    | none => ((d.erase g.isPrefixOf).createDirAll g time).tree q
  repositories := Function.update (d.erase g.isPrefixOf).repositories g (some [])

/-- A mirror with a `HEAD` is fetched, another one is cloned. -/
def attachMirror (g : Path) (time : Int) : Disk :=
  if d.pathExists (g ++ ["HEAD"]) then d else d.cloneMirror g time

/-- What git refuses fails the prepare. -/
def worktreeAdd (g p : Path) (branch : String) (time : Int) : Disk :=
  match (d.repositories g).bind fun R => addWorktree R p branch with
  | none => d
  | some R =>
      { tree := Function.update (d.createDirAll p time).tree (p ++ [".git"]) (some ⟨.file, time⟩)
        repositories := Function.update d.repositories g (some R) }

end Disk

/-! ## The sweep -/

inductive Component
  | parentDir
  | normal (name : Name)
deriving DecidableEq

/-- A path as the configuration spells it. -/
abbrev Spelling : Type := List Component

/-- What stays of a directory that is removed or renamed.  All of it is gone when the
directory itself is. -/
structure Removal where
  stays : Path → Bool
  closed : ∀ a b, stays (a ++ b) = true → stays a = true

def Removal.done : Removal := ⟨fun _ => false, fun _ _ h => h⟩

structure Startup where
  workspaceRoot : Spelling
  /-- The real place of the workspace root. -/
  workspaces : Path
  repositoryRoot : Path
  canonicalize : Spelling → Option Path
  /-- The start less the retention. -/
  cutoff : Int
  /-- What `read_dir` yields in the two roots. -/
  entries : List Name
  repositoryEntries : List Name
  removal : Name → Removal
  /-- The repository that a git started in a directory finds, if it goes through. -/
  git : Path → Option Path

structure PruneStats where
  pruned : Nat := 0
  quarantined : Nat := 0
  worktreesPruned : Nat := 0
deriving DecidableEq

def safeWorkspaceTarget (p : Spelling) (leaf : Option Entry) : Bool :=
  !p.contains .parentDir &&
    match leaf with
    | some ⟨.symlink _, _⟩ => false
    | _ => true

/-- The place of a directory, or its spelling where it has none. -/
def canonical (canonicalize : Spelling → Option Path) (p : Spelling) : Path ⊕ Spelling :=
  match canonicalize p with
  | some place => .inl place
  | none => .inr p

def safeWorkspaceTargetUnder (canonicalize : Spelling → Option Path) (p root : Spelling)
    (leaf : Option Entry) : Bool :=
  safeWorkspaceTarget p leaf &&
    (p != [] && decide (canonical canonicalize p.dropLast = canonical canonicalize root))

namespace Startup

variable (s : Startup)

def target (name : Name) : Path := s.workspaces ++ [name]

def safe (name : Name) (leaf : Option Entry) : Bool :=
  safeWorkspaceTargetUnder s.canonicalize (s.workspaceRoot ++ [.normal name]) s.workspaceRoot leaf

/-- What a removal that is left half done takes. -/
def removed (name : Name) (p : Path) : Bool :=
  (s.target name).isPrefixOf p && !(s.removal name).stays (p.drop (s.target name).length)

/-- A rename takes all or nothing. -/
def renamed (name : Name) (p : Path) : Bool :=
  (s.target name).isPrefixOf p && !(s.removal name).stays []

/-- What comes to stand in the quarantine is left out. -/
def quarantineStaleWorkspace (d : Disk) (name : Name) : Disk := d.erase (s.renamed name)

def sweepEntry (d : Disk × PruneStats) (name : Name) : Disk × PruneStats :=
  if name = ".quarantine" then d
  else
    match d.1.tree (s.target name) with
    | none => d
    | some md =>
        if md.isDir && decide (md.modified < s.cutoff) then
          if s.safe name (some md) then
            (d.1.erase (s.removed name), { d.2 with pruned := d.2.pruned + 1 })
          else
            (s.quarantineStaleWorkspace d.1 name,
              { d.2 with quarantined := d.2.quarantined + 1 })
        else d

def repositoryEntry (d : Disk) (name : Name) : Path := d.place (s.repositoryRoot ++ [name])

def visitEntry (d : Disk × PruneStats) (name : Name) : Disk × PruneStats :=
  if d.1.pathExists (s.repositoryEntry d.1 name ++ [".git"]) then
    (d.1.worktreePrune (s.git (s.repositoryEntry d.1 name)),
      { d.2 with worktreesPruned := d.2.worktreesPruned + 1 })
  else d

def sweep (d : Disk × PruneStats) (names : List Name) : Disk × PruneStats :=
  names.foldl s.sweepEntry d

def visit (d : Disk × PruneStats) (names : List Name) : Disk × PruneStats :=
  names.foldl s.visitEntry d

def pruneStaleWorkspaces (d : Disk) : Disk × PruneStats :=
  s.visit (s.sweep (d, {}) s.entries) s.repositoryEntries

/-- The steps of prepares and agents, any of which may be the last of its attempt. -/
inductive Event
  | workspace (id : Name) (time : Int)
  | mirror (repository : Path) (time : Int)
  | worktree (repository : Path) (id : Name) (branch : String) (time : Int)
  | agent (id : Name) (rest : Path) (entry : Option Entry)

def step (d : Disk) : Event → Disk
  | .workspace id time => d.createDirAll (s.target id) time
  | .mirror repository time => d.attachMirror (s.repositoryRoot ++ repository) time
  | .worktree repository id branch time =>
      d.worktreeAdd (s.repositoryRoot ++ repository) (s.target id) branch time
  | .agent id rest entry =>
      { d with tree := Function.update d.tree (s.target id ++ rest) entry }

def run (events : List Event) : Disk := events.foldl s.step {}

end Startup

/-! ## What the sweep takes -/

section Sweep

variable {s : Startup} {d : Disk}

theorem erase_erase (f g : Path → Bool) :
    (d.erase f).erase g = d.erase fun p => f p || g p := by
  have hpick {α : Type} (a b : Bool) (x : Option α) :
      (if b then none else if a then none else x) = if a || b then none else x := by
    cases a with
    | true => simp
    | false => rfl
  exact congrArg₂ Disk.mk (funext fun p => hpick (f p) (g p) (d.tree p))
    (funext fun p => hpick (f p) (g p) (d.repositories p))

theorem erase_none : (d.erase fun _ => false) = d := rfl

theorem erase_tree_of_some {f : Path → Bool} {p : Path} {e : Entry}
    (h : (d.erase f).tree p = some e) : f p = false ∧ d.tree p = some e := by
  simp only [Disk.erase] at h
  split at h
  · cases h
  · rename_i hf
    exact ⟨Bool.eq_false_iff.mpr hf, h⟩

theorem safeWorkspaceTarget_dir (p : Spelling) {md : Entry} (h : md.isDir = true) :
    safeWorkspaceTarget p (some md) = !p.contains .parentDir := by
  obtain ⟨kind, modified⟩ := md
  rw [Entry.isDir, beq_iff_eq] at h
  subst h
  exact Bool.and_true _

/-- No component of the configured root leads upwards. -/
def Startup.direct (s : Startup) : Bool := !s.workspaceRoot.contains .parentDir

theorem safe_dir (name : Name) {md : Entry} (h : md.isDir = true) :
    s.safe name (some md) = s.direct := by
  rw [Startup.safe, safeWorkspaceTargetUnder, safeWorkspaceTarget_dir _ h, List.dropLast_concat,
    decide_eq_true rfl, Bool.and_true, Startup.direct]
  simp

def Startup.stale (s : Startup) (d : Disk) (name : Name) : Bool :=
  name != ".quarantine" &&
    (d.tree (s.target name)).any fun md => md.isDir && decide (md.modified < s.cutoff)

/-- What the sweep takes on account of one entry. -/
def Startup.taken (s : Startup) (d : Disk) (name : Name) (p : Path) : Bool :=
  s.stale d name && if s.direct then s.removed name p else s.renamed name p

theorem taken_below {name : Name} {p : Path} (h : s.taken d name p = true) :
    s.target name <+: p := by
  have hone := (Bool.and_eq_true_iff.mp h).2
  split at hone
  · exact List.isPrefixOf_iff_prefix.mp (Bool.and_eq_true_iff.mp hone).1
  · exact List.isPrefixOf_iff_prefix.mp (Bool.and_eq_true_iff.mp hone).1

theorem target_inj {name other : Name} (h : s.target name <+: s.target other) : name = other := by
  obtain ⟨rest, hrest⟩ := h
  rw [Startup.target, Startup.target, List.append_assoc] at hrest
  exact (List.cons.inj (List.append_cancel_left hrest)).1

/-- A directory takes with it what is below it. -/
theorem taken_append {name : Name} {p : Path} (h : s.taken d name p = true) (rest : Path) :
    s.taken d name (p ++ rest) = true := by
  obtain ⟨below, rfl⟩ := taken_below h
  obtain ⟨hstale, hone⟩ := Bool.and_eq_true_iff.mp h
  rw [Startup.taken, hstale, Bool.true_and]
  rw [Startup.removed, Startup.renamed, List.drop_left] at hone
  rw [Startup.removed, Startup.renamed, List.append_assoc, List.drop_left]
  have hbelow : (s.target name).isPrefixOf (s.target name ++ (below ++ rest)) = true :=
    List.isPrefixOf_iff_prefix.mpr (List.prefix_append _ _)
  rw [hbelow, Bool.true_and, Bool.true_and]
  split at hone
  · rename_i hdirect
    rw [if_pos hdirect]
    have hgone := (Bool.and_eq_true_iff.mp hone).2
    cases hstays : (s.removal name).stays (below ++ rest) with
    | false => rfl
    | true => rw [(s.removal name).closed below rest hstays] at hgone; cases hgone
  · rename_i hdirect
    rw [if_neg hdirect]
    exact (Bool.and_eq_true_iff.mp hone).2

def Startup.goneBy (s : Startup) (d : Disk) (names : List Name) (p : Path) : Bool :=
  names.any fun name => s.taken d name p

theorem goneBy_iff {names : List Name} {p : Path} :
    s.goneBy d names p = true ↔ ∃ name ∈ names, s.taken d name p = true := List.any_eq_true

/-- One entry is judged as it stood before the sweep. -/
theorem sweepEntry_erase {names : List Name} {D : Disk × PruneStats}
    (h : D.1 = d.erase (s.goneBy d names)) (name : Name) :
    (s.sweepEntry D name).1 = d.erase (s.goneBy d (names ++ [name])) := by
  obtain ⟨_, stats⟩ := D
  subst h
  have hmore : s.goneBy d (names ++ [name]) =
      fun p => s.goneBy d names p || s.taken d name p := by
    funext p
    rw [Startup.goneBy, List.any_append, List.any_cons, List.any_nil, Bool.or_false]
    rfl
  have hidle (h : ∀ p, s.taken d name p = true → s.goneBy d names p = true) :
      d.erase (s.goneBy d (names ++ [name])) = d.erase (s.goneBy d names) := by
    rw [hmore]
    refine congrArg d.erase (funext fun p => ?_)
    cases htaken : s.taken d name p with
    | false => exact Bool.or_false _
    | true => rw [h p htaken]; rfl
  have hfresh (h : s.stale d name = false) :
      d.erase (s.goneBy d (names ++ [name])) = d.erase (s.goneBy d names) :=
    hidle fun p htaken => by rw [Startup.taken, h] at htaken; cases htaken
  rw [Startup.sweepEntry]
  split
  · rename_i hname
    exact (hfresh (by rw [Startup.stale, hname]; rfl)).symm
  · rename_i hname
    have hnamed : (name != ".quarantine") = true := bne_iff_ne.mpr hname
    cases hentry : (d.erase (s.goneBy d names)).tree (s.target name) with
    | none =>
        simp only
        cases hgone : s.goneBy d names (s.target name) with
        | false =>
            have hnone : d.tree (s.target name) = none := by
              rw [Disk.erase] at hentry
              simpa only [hgone, Bool.false_eq_true, if_false] using hentry
            exact (hfresh (by rw [Startup.stale, hnone]; exact Bool.and_false _)).symm
        | true =>
            obtain ⟨other, hother, htaken⟩ := goneBy_iff.mp hgone
            have hsame := target_inj (taken_below htaken)
            subst hsame
            exact (hidle fun p hp => goneBy_iff.mpr ⟨other, hother, hp⟩).symm
    | some md =>
        obtain ⟨-, hmd⟩ := erase_tree_of_some hentry
        simp only
        cases hold : md.isDir && decide (md.modified < s.cutoff) with
        | false =>
            rw [if_neg Bool.false_ne_true]
            exact (hfresh (by rw [Startup.stale, hmd, Option.any_some, hold, Bool.and_false])).symm
        | true =>
            have hstale : s.stale d name = true := by
              rw [Startup.stale, hmd, Option.any_some, hold, hnamed]
              rfl
            rw [if_pos rfl, safe_dir name (Bool.and_eq_true_iff.mp hold).1, hmore]
            cases hdirect : s.direct with
            | true =>
                rw [if_pos rfl]
                refine (erase_erase _ _).trans (congrArg d.erase (funext fun p => ?_))
                rw [Startup.taken, hstale, hdirect]
                rfl
            | false =>
                rw [if_neg Bool.false_ne_true]
                refine (erase_erase _ _).trans (congrArg d.erase (funext fun p => ?_))
                rw [Startup.taken, hstale, hdirect]
                rfl

theorem sweep_erase (names : List Name) {D : Disk × PruneStats}
    (h : D.1 = d.erase (s.goneBy d names)) (more : List Name) :
    (s.sweep D more).1 = d.erase (s.goneBy d (names ++ more)) := by
  induction more generalizing names D with
  | nil => rw [List.append_nil]; exact h
  | cons name more ih =>
      have hrest := ih (names ++ [name]) (sweepEntry_erase h name)
      rwa [List.append_assoc] at hrest

def Startup.gone (s : Startup) (d : Disk) : Path → Bool := s.goneBy d s.entries

/-- What the sweep leaves. -/
def Startup.remains (s : Startup) (d : Disk) : Disk := d.erase (s.gone d)

theorem sweep_remains (stats : PruneStats) : (s.sweep (d, stats) s.entries).1 = s.remains d :=
  sweep_erase [] rfl s.entries

end Sweep

/-! ## What git forgets -/

section Visits

variable {s : Startup} {d : Disk}

/-- The repository that the visit of an entry has git prune. -/
def Startup.visited (s : Startup) (d : Disk) (name : Name) : Option Path :=
  if d.pathExists (s.repositoryEntry d name ++ [".git"]) then s.git (s.repositoryEntry d name)
  else none

theorem visitEntry_prune (D : Disk × PruneStats) (name : Name) :
    (s.visitEntry D name).1 = D.1.worktreePrune (s.visited D.1 name) := by
  rw [Startup.visitEntry, Startup.visited]
  split
  · rfl
  · rfl

theorem worktreePrune_tree (g : Option Path) : (d.worktreePrune g).tree = d.tree := by
  cases g with
  | none => rfl
  | some g => rfl

theorem place_congr {d d' : Disk} (h : d'.tree = d.tree) : d'.place = d.place := by
  funext p
  rw [Disk.place, Disk.place, h]

theorem pathExists_congr {d d' : Disk} (h : d'.tree = d.tree) : d'.pathExists = d.pathExists := by
  funext p
  rw [Disk.pathExists, Disk.pathExists, place_congr h, h]

theorem kept_congr {d d' : Disk} (h : d'.tree = d.tree) : d'.kept = d.kept := by
  funext x
  rw [Disk.kept, Disk.kept, pathExists_congr h]

theorem visited_congr {d d' : Disk} (h : d'.tree = d.tree) : s.visited d' = s.visited d := by
  funext name
  rw [Startup.visited, Startup.visited, Startup.repositoryEntry, Startup.repositoryEntry,
    place_congr h, pathExists_congr h]

theorem worktreePrune_repositories (g : Option Path) (p : Path) :
    (d.worktreePrune g).repositories p =
      if g = some p then (d.repositories p).map fun R => R.filter d.kept
      else d.repositories p := by
  cases g with
  | none => rfl
  | some g =>
      simp only [Disk.worktreePrune, Function.update_apply]
      by_cases hp : p = g
      · subst hp
        rw [if_pos rfl, if_pos rfl]
      · rw [if_neg hp, if_neg fun h => hp (Option.some_inj.mp h).symm]

theorem visit_tree (D : Disk × PruneStats) (names : List Name) :
    (s.visit D names).1.tree = D.1.tree := by
  induction names generalizing D with
  | nil => rfl
  | cons name names ih =>
      refine (ih (s.visitEntry D name)).trans ?_
      rw [visitEntry_prune, worktreePrune_tree]

def Startup.visits (s : Startup) (d : Disk) (names : List Name) (p : Path) : Prop :=
  ∃ name ∈ names, s.visited d name = some p

theorem filter_filter_kept (R : Option (List Registration)) :
    (R.map fun R => R.filter d.kept).map (fun R => R.filter d.kept) =
      R.map fun R => R.filter d.kept := by
  cases R with
  | none => rfl
  | some R => simp

theorem visit_repositories (D : Disk × PruneStats) (names : List Name) (p : Path) :
    (s.visits D.1 names p →
      (s.visit D names).1.repositories p =
        (D.1.repositories p).map fun R => R.filter D.1.kept) ∧
    (¬ s.visits D.1 names p → (s.visit D names).1.repositories p = D.1.repositories p) := by
  induction names generalizing D with
  | nil => exact ⟨fun ⟨_, hmem, _⟩ => absurd hmem List.not_mem_nil, fun _ => rfl⟩
  | cons name names ih =>
      obtain ⟨hyes, hno⟩ := ih (s.visitEntry D name)
      have htree : (s.visitEntry D name).1.tree = D.1.tree := by
        rw [visitEntry_prune, worktreePrune_tree]
      rw [kept_congr htree] at hyes
      rw [Startup.visits, visited_congr htree] at hyes hno
      rw [visitEntry_prune, worktreePrune_repositories] at hyes hno
      constructor
      · rintro ⟨other, hmem, hother⟩
        by_cases hlater : s.visits D.1 names p
        · refine (hyes hlater).trans ?_
          split
          · exact filter_filter_kept _
          · rfl
        · refine (hno hlater).trans ?_
          rcases List.mem_cons.mp hmem with rfl | hmem
          · exact if_pos hother
          · exact absurd ⟨other, hmem, hother⟩ hlater
      · intro hnone
        have hlater : ¬ s.visits D.1 names p := fun ⟨other, hmem, hother⟩ =>
          hnone ⟨other, List.mem_cons_of_mem name hmem, hother⟩
        exact (hno hlater).trans (if_neg fun h => hnone ⟨name, List.mem_cons_self, h⟩)

end Visits

/-! ## A startup -/

def Removes (before after : Disk) (p : Path) : Prop :=
  before.isDir p = true ∧ after.tree p = none

/-- What a startup leaves of the attempts before it. -/
structure Reclaimed (s : Startup) (before after : Disk) : Prop where
  unregistered : ∀ g R x, after.repositories g = some R → x ∈ R → ¬ Removes before after x.path
  again : ∀ g R p branch, after.repositories g = some R → Removes before after p →
    (∀ x ∈ R, x.path ≠ p → x.branch ≠ some branch) → (addWorktree R p branch).isSome
  inside : ∀ p, Removes before after p → s.workspaces <+: p ∧ p ≠ s.workspaces
  young : ∀ name e, name ≠ ".quarantine" → before.tree (s.target name) = some e →
    s.cutoff ≤ e.modified →
    ∀ rest, after.tree (s.target name ++ rest) = before.tree (s.target name ++ rest)

/-- Git is run where a mirror that stays registers a directory that goes. -/
def Startup.Links (s : Startup) (d : Disk) : Prop :=
  ∀ g R x, d.repositories g = some R → s.gone d g = false → x ∈ R →
    d.isDir x.path = true → s.gone d x.path = true →
    x.locked = false ∧ s.visits (s.remains d) s.repositoryEntries g

section Startups

variable {s : Startup} {d : Disk}

theorem addWorktree_isSome {R : List Registration} {p : Path} {branch : String}
    (h : ∀ x ∈ R, x.path ≠ p ∧ x.branch ≠ some branch) : (addWorktree R p branch).isSome := by
  have hnone : (R.any fun x => x.path == p || x.branch == some branch) = false :=
    List.any_eq_false.mpr fun x hx => by simp [h x hx]
  rw [addWorktree, hnone]
  rfl

theorem prune_tree : (s.pruneStaleWorkspaces d).1.tree = (s.remains d).tree := by
  rw [Startup.pruneStaleWorkspaces, visit_tree, sweep_remains]

theorem prune_tree_none {p : Path} (hdir : d.isDir p = true) :
    (s.pruneStaleWorkspaces d).1.tree p = none ↔ s.gone d p = true := by
  rw [prune_tree, Startup.remains, Disk.erase]
  constructor
  · intro h
    simp only at h
    split at h
    · assumption
    · rw [Disk.isDir, h] at hdir
      cases hdir
  · intro h
    simp only [h, if_true]

theorem prune_repositories (g : Path) :
    (s.visits (s.remains d) s.repositoryEntries g →
      (s.pruneStaleWorkspaces d).1.repositories g =
        ((s.remains d).repositories g).map fun R => R.filter (s.remains d).kept) ∧
    (¬ s.visits (s.remains d) s.repositoryEntries g →
      (s.pruneStaleWorkspaces d).1.repositories g = (s.remains d).repositories g) := by
  have h := visit_repositories (s := s) (s.sweep (d, {}) s.entries) s.repositoryEntries g
  rwa [sweep_remains] at h

theorem remains_repositories {g : Path} {R : List Registration} :
    (s.remains d).repositories g = some R ↔ s.gone d g = false ∧ d.repositories g = some R := by
  rw [Startup.remains, Disk.erase]
  cases hgone : s.gone d g with
  | false => simp [hgone]
  | true => simp [hgone]

theorem gone_append {p : Path} (h : s.gone d p = true) (rest : Path) :
    s.gone d (p ++ rest) = true := by
  obtain ⟨name, hname, htaken⟩ := goneBy_iff.mp h
  exact goneBy_iff.mpr ⟨name, hname, taken_append htaken rest⟩

theorem gone_below {p : Path} (h : s.gone d p = true) :
    s.workspaces <+: p ∧ p ≠ s.workspaces := by
  obtain ⟨name, -, htaken⟩ := goneBy_iff.mp h
  obtain ⟨rest, rfl⟩ := taken_below htaken
  rw [Startup.target, List.append_assoc]
  exact ⟨List.prefix_append _ _, by simp⟩

/-- The gitlink goes with its directory. -/
theorem kept_gone {x : Registration} (h : s.gone d x.path = true) :
    (s.remains d).kept x = x.locked := by
  have hlink : (s.remains d).tree (x.path ++ [".git"]) = none := by
    rw [Startup.remains, Disk.erase]
    simp only [gone_append h, if_true]
  rw [Disk.kept, Disk.pathExists, Disk.place, hlink]
  simp only
  rw [hlink]
  exact Bool.or_false _

/-- Whose directory a swept mirror still registers. -/
theorem registered_gone {g : Path} {R : List Registration} {x : Registration}
    (hR : d.repositories g = some R) (hg : s.gone d g = false) (hx : x ∈ R)
    (hgone : s.gone d x.path = true) :
    (∃ R', (s.pruneStaleWorkspaces d).1.repositories g = some R' ∧ x ∈ R') ↔
      ¬ (x.locked = false ∧ s.visits (s.remains d) s.repositoryEntries g) := by
  have hremains := remains_repositories.mpr ⟨hg, hR⟩
  obtain ⟨hyes, hno⟩ := prune_repositories (s := s) (d := d) g
  by_cases hvisits : s.visits (s.remains d) s.repositoryEntries g
  · rw [hyes hvisits, hremains, Option.map_some]
    constructor
    · rintro ⟨_, hR', hmem⟩ ⟨hlocked, -⟩
      obtain rfl := Option.some_inj.mp hR'
      have hkept := (List.mem_filter.mp hmem).2
      rw [kept_gone hgone, hlocked] at hkept
      cases hkept
    · intro hlocked
      refine ⟨_, rfl, List.mem_filter.mpr ⟨hx, ?_⟩⟩
      rw [kept_gone hgone]
      exact Bool.not_eq_false _ ▸ fun h => hlocked ⟨h, hvisits⟩
  · rw [hno hvisits, hremains]
    exact ⟨fun _ h => hvisits h.2, fun _ => ⟨R, rfl, hx⟩⟩

/-- A registration that stays was there before. -/
theorem registered_before {g : Path} {R' : List Registration} {x : Registration}
    (hR' : (s.pruneStaleWorkspaces d).1.repositories g = some R') (hx : x ∈ R') :
    ∃ R, d.repositories g = some R ∧ s.gone d g = false ∧ x ∈ R := by
  obtain ⟨hyes, hno⟩ := prune_repositories (s := s) (d := d) g
  by_cases hvisits : s.visits (s.remains d) s.repositoryEntries g
  · rw [hyes hvisits] at hR'
    obtain ⟨R, hR, rfl⟩ := Option.map_eq_some_iff.mp hR'
    obtain ⟨hg, hR⟩ := remains_repositories.mp hR
    exact ⟨R, hR, hg, (List.mem_filter.mp hx).1⟩
  · rw [hno hvisits] at hR'
    obtain ⟨hg, hR⟩ := remains_repositories.mp hR'
    exact ⟨R', hR, hg, hx⟩

theorem young_stays {name : Name} {e : Entry} (hentry : d.tree (s.target name) = some e)
    (hyoung : s.cutoff ≤ e.modified) (rest : Path) : s.gone d (s.target name ++ rest) = false := by
  refine Bool.eq_false_iff.mpr fun h => ?_
  obtain ⟨other, -, htaken⟩ := goneBy_iff.mp h
  have hbelow := List.prefix_of_prefix_length_le (taken_below htaken)
    (List.prefix_append (s.target name) rest) (by simp [Startup.target])
  obtain rfl := target_inj hbelow
  have hstale := (Bool.and_eq_true_iff.mp (Bool.and_eq_true_iff.mp htaken).1).2
  rw [hentry, Option.any_some] at hstale
  have hold := of_decide_eq_true (Bool.and_eq_true_iff.mp hstale).2
  omega

theorem startup_reclaims_iff : Reclaimed s d (s.pruneStaleWorkspaces d).1 ↔ s.Links d := by
  constructor
  · intro h g R x hR hg hx hdir hgone
    by_contra hlinks
    obtain ⟨R', hR', hmem⟩ := (registered_gone hR hg hx hgone).mpr hlinks
    exact h.unregistered g R' x hR' hmem ⟨hdir, (prune_tree_none hdir).mpr hgone⟩
  · intro h
    have hunregistered : ∀ g R x, (s.pruneStaleWorkspaces d).1.repositories g = some R → x ∈ R →
        ¬ Removes d (s.pruneStaleWorkspaces d).1 x.path := by
      rintro g R' x hR' hmem ⟨hdir, hnone⟩
      obtain ⟨R, hR, hg, hx⟩ := registered_before hR' hmem
      have hgone := (prune_tree_none hdir).mp hnone
      exact (registered_gone hR hg hx hgone).mp ⟨R', hR', hmem⟩ (h g R x hR hg hx hdir hgone)
    refine ⟨hunregistered, ?_, ?_, ?_⟩
    · intro g R' p branch hR' hremoves hfree
      refine addWorktree_isSome fun x hx => ?_
      have hpath : x.path ≠ p := by
        rintro rfl
        exact hunregistered g R' x hR' hx hremoves
      exact ⟨hpath, hfree x hx hpath⟩
    · intro p hremoves
      exact gone_below ((prune_tree_none hremoves.1).mp hremoves.2)
    · intro name e _ hentry hyoung rest
      rw [prune_tree, Startup.remains, Disk.erase]
      simp only [young_stays hentry hyoung, Bool.false_eq_true, if_false]

end Startups

/-! ## Mirrors -/

section Mirrors

variable {s : Startup} {d : Disk}

/-- No entry of the repository root has a `.git`. -/
def Startup.Bare (s : Startup) (d : Disk) : Prop :=
  ∀ name, d.tree (s.repositoryRoot ++ [name, ".git"]) = none ∧
    ∀ target modified, d.tree (s.repositoryRoot ++ [name]) ≠ some ⟨.symlink target, modified⟩

/-- Neither root lies in the other. -/
def Startup.Apart (s : Startup) : Prop :=
  ¬ s.workspaces <+: s.repositoryRoot ∧ ¬ s.repositoryRoot <+: s.workspaces

/-- No mirror is itself the `.git` of a directory. -/
def Startup.Event.Plain : Startup.Event → Prop
  | .mirror repository _ => repository ≠ [] ∧ repository[1]? ≠ some ".git"
  | _ => True

theorem apart_ne (h : s.Apart) (a b : Path) : s.workspaces ++ a ≠ s.repositoryRoot ++ b := by
  intro heq
  rcases List.prefix_or_prefix_of_prefix (List.prefix_append s.workspaces a)
    (heq ▸ List.prefix_append s.repositoryRoot b) with hbelow | hbelow
  · exact h.1 hbelow
  · exact h.2 hbelow

theorem Startup.Bare.erase (h : s.Bare d) (gone : Path → Bool) : s.Bare (d.erase gone) := by
  intro name
  constructor
  · cases hentry : (d.erase gone).tree (s.repositoryRoot ++ [name, ".git"]) with
    | none => rfl
    | some e => cases ((h name).1.symm.trans (erase_tree_of_some hentry).2)
  · exact fun target modified hlink => (h name).2 target modified (erase_tree_of_some hlink).2

theorem Startup.Bare.createDirAll (h : s.Bare d) {p : Path}
    (hp : ∀ name, ¬ s.repositoryRoot ++ [name, ".git"] <+: p) (time : Int) :
    s.Bare (d.createDirAll p time) := by
  intro name
  constructor
  · have hout : (s.repositoryRoot ++ [name, ".git"]).isPrefixOf p = false :=
      Bool.eq_false_iff.mpr fun hin => hp name (List.isPrefixOf_iff_prefix.mp hin)
    simp only [Disk.createDirAll, hout, Bool.false_and, Bool.false_eq_true, if_false]
    exact (h name).1
  · intro target modified hlink
    simp only [Disk.createDirAll] at hlink
    split at hlink
    · cases hlink
    · exact (h name).2 target modified hlink

theorem Startup.Bare.update (h : s.Bare d) {p : Path} (entry : Option Entry)
    (repositories : Path → Option (List Registration))
    (hp : ∀ rest, p ≠ s.repositoryRoot ++ rest) :
    s.Bare ⟨Function.update d.tree p entry, repositories⟩ := by
  intro name
  simp only [Function.update_of_ne (hp _).symm]
  exact h name

theorem Startup.Bare.cloneMirror (h : s.Bare d) {repository : Path} (hsome : repository ≠ [])
    (hplain : repository[1]? ≠ some ".git") (time : Int) :
    s.Bare (d.cloneMirror (s.repositoryRoot ++ repository) time) := by
  have hlayout {rest : Path} (hrest : rest.length ≤ 1 ∨ rest[1]? = some ".git") :
      Disk.mirrorLayout.find?
        (fun entry => s.repositoryRoot ++ repository ++ [entry.1] == s.repositoryRoot ++ rest) =
          none := by
    refine List.find?_eq_none.mpr fun entry hentry hsame => ?_
    rw [beq_iff_eq, List.append_assoc, List.append_cancel_left_eq] at hsame
    subst hsame
    obtain ⟨first, others, rfl⟩ := List.exists_cons_of_ne_nil hsome
    cases others with
    | nil =>
        have hgit : entry.1 = ".git" := by
          rcases hrest with hshort | hgit
          · simp at hshort
          · simpa using hgit
        have hnone : ∀ e ∈ Disk.mirrorLayout, e.1 ≠ ".git" := by decide
        exact hnone entry hentry hgit
    | cons second others =>
        rcases hrest with hshort | hgit
        · simp at hshort
        · exact hplain (by simpa using hgit)
  have hdirs : s.Bare ((d.erase (s.repositoryRoot ++ repository).isPrefixOf).createDirAll
      (s.repositoryRoot ++ repository) time) := by
    refine (h.erase _).createDirAll (fun name hbelow => hplain ?_) time
    obtain ⟨rest, hrest⟩ := hbelow
    rw [List.append_assoc, List.append_cancel_left_eq] at hrest
    rw [← hrest]
    rfl
  intro name
  simp only [Disk.cloneMirror, @hlayout [name, ".git"] (.inr rfl),
    @hlayout [name] (.inl (Nat.le_refl 1))]
  exact hdirs name

theorem Startup.Bare.step (h : s.Bare d) (hroots : s.Apart) {e : Startup.Event} (he : e.Plain) :
    s.Bare (s.step d e) := by
  have hmade (id : Name) (time : Int) : s.Bare (d.createDirAll (s.target id) time) :=
    h.createDirAll (fun name ⟨rest, hrest⟩ => apart_ne hroots [id] ([name, ".git"] ++ rest)
      (hrest.symm.trans (List.append_assoc _ _ _))) time
  cases e with
  | workspace id time => exact hmade id time
  | mirror repository time =>
      rw [Startup.step, Disk.attachMirror]
      split
      · exact h
      · exact h.cloneMirror he.1 he.2 time
  | worktree repository id branch time =>
      rw [Startup.step, Disk.worktreeAdd]
      split
      · exact h
      · refine (hmade id time).update _ _ fun rest => ?_
        rw [Startup.target, List.append_assoc]
        exact apart_ne hroots _ rest
  | agent id rest entry =>
      refine h.update _ _ fun below => ?_
      rw [Startup.target, List.append_assoc]
      exact apart_ne hroots _ below

/-- The mirrors that prepares make are bare, whatever the attempts leave. -/
theorem run_bare (hroots : s.Apart) {events : List Startup.Event} (h : ∀ e ∈ events, e.Plain) :
    s.Bare (s.run events) := by
  have hfold : ∀ (events : List Startup.Event) (d : Disk), s.Bare d → (∀ e ∈ events, e.Plain) →
      s.Bare (events.foldl s.step d) := by
    intro events
    induction events with
    | nil => exact fun d hd _ => hd
    | cons e events ih =>
        intro d hd hplain
        exact ih (s.step d e) (hd.step hroots (hplain e List.mem_cons_self)) fun e' he' =>
          hplain e' (List.mem_cons_of_mem e he')
  exact hfold events {} (fun _ => ⟨rfl, fun _ _ hlink => by cases hlink⟩) h

/-- Git is run in no mirror. -/
theorem Startup.Bare.unvisited (h : s.Bare d) (name : Name) : s.visited d name = none := by
  have hplace : s.repositoryEntry d name = s.repositoryRoot ++ [name] := by
    rw [Startup.repositoryEntry, Disk.place]
    split
    · rename_i target modified hlink
      exact absurd hlink ((h name).2 target modified)
    · rfl
  have hmissing : d.pathExists (s.repositoryRoot ++ [name] ++ [".git"]) = false := by
    have hnone : d.tree (s.repositoryRoot ++ [name] ++ [".git"]) = none :=
      (congrArg d.tree (List.append_assoc _ _ _)).trans (h name).1
    rw [Disk.pathExists, Disk.place, hnone]
    simp only
    rw [hnone]
    rfl
  rw [Startup.visited, hplace, hmissing]
  rfl

/-- So every workspace that is swept stays registered. -/
theorem links_bare_iff (h : s.Bare d) :
    s.Links d ↔ ∀ g R x, d.repositories g = some R → s.gone d g = false → x ∈ R →
      d.isDir x.path = true → s.gone d x.path = false := by
  constructor
  · intro hlinks g R x hR hg hx hdir
    refine Bool.eq_false_iff.mpr fun hgone => ?_
    obtain ⟨-, name, -, hname⟩ := hlinks g R x hR hg hx hdir hgone
    cases ((h.erase (s.gone d)).unvisited name).symm.trans hname
  · intro hkeeps g R x hR hg hx hdir hgone
    cases (hkeeps g R x hR hg hx hdir).symm.trans hgone

end Mirrors

/-! ## One killed attempt -/

def plainStartup : Startup where
  workspaceRoot := [.normal "ws"]
  workspaces := ["ws"]
  repositoryRoot := ["repos"]
  canonicalize := fun _ => some ["ws"]
  cutoff := 100
  entries := ["a1"]
  repositoryEntries := ["app"]
  removal := fun _ => .done
  git := some

def killedAttempt : List Startup.Event :=
  [.workspace "a1" 5, .mirror ["app"] 5, .worktree ["app"] "a1" "agent/t1/1" 5]

/-- The mirror keeps the worktree of a swept attempt. -/
theorem mirror_keeps_swept : ¬ ∀ (s : Startup) (events : List Startup.Event),
    Reclaimed s (s.run events) (s.pruneStaleWorkspaces (s.run events)).1 := by
  intro h
  refine (h plainStartup killedAttempt).unregistered ["repos", "app"]
    [⟨["ws", "a1"], some "agent/t1/1", false⟩] ⟨["ws", "a1"], some "agent/t1/1", false⟩ ?_ ?_ ?_
  · rfl
  · exact List.mem_singleton.mpr rfl
  · exact ⟨rfl, rfl⟩

end AgentGrid.Node.Prune
