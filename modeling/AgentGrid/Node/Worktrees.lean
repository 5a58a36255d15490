import AgentGrid.Foundation.Table
import AgentGrid.Foundation.Transition
import Mathlib.Logic.Function.Basic
import Mathlib.Logic.Relation

/-!
# Attempts on a mirror

One bare `--mirror` clone serves the attempts of a repository.  An attempt works
on a branch of its own in a linked worktree, and its branch lives among the refs
that the mirror fetches.  `prepare_workspace` holds the lock of the repository
from the bulk refresh to its return; `finalize_workspace` does not take it.

Git is as documented.  A commit is named by its content, so the parents of a
commit are a function of its name.  `fetch --prune` of a mirror sets every ref
that its refspec matches to what the remote has, and deletes those the remote
lacks.  A commit goes on top of the branch the worktree stands on, and has no
parent when that branch is gone.  A branch is checked out in one worktree.

`roots` lists the start point of an attempt and the upstream commits that landed.
-/

namespace AgentGrid.Node.Worktrees

open AgentGrid.Foundation

abbrev Sha : Type := String

structure Assignment where
  taskId : String
  number : Nat
  defaultBranch : String
  baseCommit : Option Sha := none
  upstreamCommits : List Sha := []
deriving DecidableEq, Repr

def Assignment.branch (a : Assignment) : String := "agent/" ++ a.taskId ++ "/" ++ toString a.number

def headRef (branch : String) : String := "refs/heads/" ++ branch

def notesRef : String := "refs/notes/agentgrid"

inductive Phase
  | waiting (needFetch : Bool)
  | locked (needFetch : Bool)
  | landing (rest : List Sha)
  | ready
  | staged (changes : Bool)
  | committed
  | parsed (sha : Sha)
  | returned (sha : Sha)
  | failed
deriving DecidableEq, Repr

/-- Between `git worktree add` and the return of `finalize_workspace`. -/
def Phase.live : Phase → Bool
  | .landing _ | .ready | .staged _ | .committed | .parsed _ => true
  | _ => false

structure Attempt where
  id : String
  assignment : Assignment
  phase : Phase
  worktree : Bool := false
  roots : List Sha := []
deriving DecidableEq, Repr

def Attempt.ref (x : Attempt) : String := headRef x.assignment.branch

structure Repo where
  cloned : Bool := false
  refs : String → Option Sha := fun _ => none
  remote : String → Option Sha := fun _ => none
  notesKept : Bool := false
  lock : Option String := none
  attempts : List Attempt := []

namespace Repo

def attempt (R : Repo) (id : String) : Option Attempt := lookup Attempt.id id R.attempts

def put (R : Repo) (x : Attempt) : Repo :=
  { R with attempts := updateWhere (fun y => y.id == x.id) (fun _ => x) R.attempts }

def setRef (R : Repo) (ref : String) (sha : Option Sha) : Repo :=
  { R with refs := Function.update R.refs ref sha }

/-- `+refs/*:refs/*`, without the notes once they are carved out. -/
def matched (R : Repo) (ref : String) : Bool :=
  "refs/".toList.isPrefixOf ref.toList && !(R.notesKept && ref == notesRef)

/-- `git fetch origin --prune`, or the clone of a mirror that is not there. -/
def refreshed (R : Repo) : String → Option Sha :=
  if R.cloned then fun ref => if R.matched ref then R.remote ref else R.refs ref else R.remote

/-- The base commit, or the default branch where it is not pinned or may be
missing. -/
def startPoint (R : Repo) (a : Assignment) (present allowMissing : Bool) : Option Sha :=
  match a.baseCommit.filter (· != "") with
  | some c =>
      if present then some c
      else if allowMissing then R.refs (headRef a.defaultBranch) else none
  | none => R.refs (headRef a.defaultBranch)

def checkedOut (R : Repo) (branch : String) : Bool :=
  R.attempts.any fun y => y.worktree && y.assignment.branch == branch

def worktreeAdd (R : Repo) (x : Attempt) (present allowMissing : Bool) : Option Repo :=
  if R.cloned && !R.checkedOut x.assignment.branch then
    (R.startPoint x.assignment present allowMissing).map fun start =>
      (R.setRef x.ref (some start)).put
        { x with
          phase := .landing x.assignment.upstreamCommits
          worktree := true
          roots := [start] }
  else none

/-- A commit in the worktree, whose name is the one of its content. -/
def commitOn (parents : Sha → List Sha) (R : Repo) (x : Attempt) (sha : Sha) : Option Repo :=
  if parents sha = (R.refs x.ref).toList then some (R.setRef x.ref (some sha)) else none

def unlock (R : Repo) (id : String) : Repo :=
  { R with lock := if R.lock = some id then none else R.lock }

end Repo

inductive Event
  | start (id : String) (assignment : Assignment) (needFetch : Bool)
  | lock (id : String)
  | refresh (id : String)
  | worktreeAdd (id : String) (present allowMissing : Bool)
  | land (id : String) (sha : Sha)
  | skip (id : String)
  | ready (id : String)
  | abort (id : String)
  | agentCommit (id : String) (sha : Sha)
  | stage (id : String) (changes : Bool)
  | commit (id : String) (sha : Sha)
  | revParse (id : String)
  | diff (id : String)
  | cleanup (id : String)
  | attachNote (sha : Sha)
  | push (ref : String) (sha : Option Sha)
deriving DecidableEq, Repr

section Step

variable (parents : Sha → List Sha)

/-- The step of an attempt. -/
def advance (R : Repo) (x : Attempt) : Event → Option Repo
  | .lock _ =>
      match x.phase, R.lock with
      | .waiting n, none => some { R.put { x with phase := .locked n } with lock := some x.id }
      | _, _ => none
  | .refresh _ =>
      match x.phase with
      | .locked true =>
          some { R.put { x with phase := .locked false } with refs := R.refreshed, cloned := true }
      | _ => none
  | .worktreeAdd _ present allowMissing =>
      match x.phase with
      | .locked false => R.worktreeAdd x present allowMissing
      | _ => none
  | .land _ sha =>
      match x.phase with
      | .landing (_ :: rest) =>
          (R.commitOn parents x sha).map fun R =>
            R.put { x with phase := .landing rest, roots := x.roots ++ [sha] }
      | _ => none
  | .skip _ =>
      match x.phase with
      | .landing (_ :: rest) => some (R.put { x with phase := .landing rest })
      | _ => none
  | .ready _ =>
      match x.phase with
      | .landing [] => some ((R.put { x with phase := .ready }).unlock x.id)
      | _ => none
  | .abort _ =>
      match x.phase with
      | .waiting _ | .locked _ | .landing _ => some ((R.put { x with phase := .failed }).unlock x.id)
      | _ => none
  | .agentCommit _ sha =>
      match x.phase with
      | .ready => R.commitOn parents x sha
      | _ => none
  | .stage _ changes =>
      match x.phase with
      | .ready => some (R.put { x with phase := .staged changes })
      | _ => none
  | .commit _ sha =>
      match x.phase with
      | .staged true =>
          (R.commitOn parents x sha).map fun R => R.put { x with phase := .committed }
      | _ => none
  | .revParse _ =>
      match x.phase, R.refs x.ref with
      | .staged false, some sha => some (R.put { x with phase := .parsed sha })
      | .committed, some sha => some (R.put { x with phase := .parsed sha })
      | .staged false, none => some (R.put { x with phase := .failed })
      | .committed, none => some (R.put { x with phase := .failed })
      | _, _ => none
  | .diff _ =>
      match x.phase with
      | .parsed sha =>
          if (R.refs x.ref).isSome then some (R.put { x with phase := .returned sha })
          else some (R.put { x with phase := .failed })
      | _ => none
  | .cleanup _ =>
      match x.phase with
      | .ready | .returned _ | .failed =>
          let R' := if x.worktree then R.setRef x.ref none else R
          some { R' with attempts := R.attempts.filter fun y => y.id != x.id }
      | _ => none
  | _ => none

def Event.id? : Event → Option String
  | .lock id | .refresh id | .worktreeAdd id _ _ | .land id _ | .skip id | .ready id
  | .abort id | .agentCommit id _ | .stage id _ | .commit id _ | .revParse id | .diff id
  | .cleanup id => some id
  | .start _ _ _ | .attachNote _ | .push _ _ => none

def step (R : Repo) (e : Event) : Option Repo :=
  match e with
  | .start id assignment needFetch =>
      if (R.attempt id).isSome then none
      else some { R with attempts := R.attempts ++ [⟨id, assignment, .waiting needFetch, false, []⟩] }
  | .attachNote sha => some { R.setRef notesRef (some sha) with notesKept := true }
  | .push ref sha => some { R with remote := Function.update R.remote ref sha }
  | e => (e.id?.bind R.attempt).bind fun x => advance parents R x e

def Steps (R : Repo) (e : Event) (R' : Repo) : Prop := step parents R e = some R'

end Step

/-- `a` is an ancestor of `c`, or `c` itself. -/
def Ancestor (parents : Sha → List Sha) (a c : Sha) : Prop :=
  Relation.ReflTransGen (fun child parent => parent ∈ parents child) c a

/-! ## The history of an attempt -/

/-- The attempt needs its branch for the commit it will return. -/
def Phase.standing : Phase → Bool
  | .landing _ | .ready | .staged _ | .committed => true
  | _ => false

def Phase.result : Phase → Option Sha
  | .parsed sha | .returned sha => some sha
  | _ => none

theorem Phase.live_of_standing {phase : Phase} (h : phase.standing = true) :
    phase.live = true := by
  cases phase <;> first | rfl | cases h

section History

variable {parents : Sha → List Sha}

theorem Ancestor.commit {a c sha : Sha} (h : Ancestor parents a c) (hsha : parents sha = [c]) :
    Ancestor parents a sha :=
  .head (by rw [hsha]; exact List.mem_cons_self) h

/-- What holds of one attempt, given the refs. -/
structure Grounded (parents : Sha → List Sha) (refs : String → Option Sha) (x : Attempt) :
    Prop where
  worktree : x.phase.live = true → x.worktree = true
  roots : x.worktree = true → x.roots ≠ []
  head : x.phase.standing = true →
    ∃ c, refs x.ref = some c ∧ ∀ r ∈ x.roots, Ancestor parents r c
  result : ∀ sha, x.phase.result = some sha →
    x.worktree = true ∧ ∀ r ∈ x.roots, Ancestor parents r sha

theorem Grounded.frame {refs refs' : String → Option Sha} {x : Attempt}
    (hx : Grounded parents refs x) (h : refs' x.ref = refs x.ref) : Grounded parents refs' x :=
  ⟨hx.worktree, hx.roots, fun hstanding => h ▸ hx.head hstanding, hx.result⟩

structure Kept (parents : Sha → List Sha) (R : Repo) : Prop where
  ids : (R.attempts.map Attempt.id).Nodup
  branches : ∀ x ∈ R.attempts, ∀ y ∈ R.attempts, x.worktree = true → y.worktree = true →
    x.ref = y.ref → x.id = y.id
  cloned : R.cloned = false → ∀ x ∈ R.attempts, x.worktree = false
  grounded : ∀ x ∈ R.attempts, Grounded parents R.refs x

variable {R : Repo}

theorem mem_put {x y : Attempt} (h : y ∈ (R.put x).attempts) :
    y = x ∨ y ∈ R.attempts ∧ y.id ≠ x.id := by
  obtain ⟨old, hold, hy⟩ := mem_updateWhere.mp h
  split at hy
  · exact .inl hy.symm
  · rename_i hid
    subst hy
    exact .inr ⟨hold, fun hsame => hid (beq_iff_eq.mpr hsame)⟩

theorem map_id_put (R : Repo) (x : Attempt) :
    (R.put x).attempts.map Attempt.id = R.attempts.map Attempt.id := by
  rw [Repo.put, updateWhere, List.map_map]
  apply List.map_congr_left
  intro y _
  by_cases hy : y.id = x.id <;> simp [hy]

theorem put_self (hids : (R.attempts.map Attempt.id).Nodup) {x : Attempt} (hx : x ∈ R.attempts) :
    (R.put x).attempts = R.attempts := by
  rw [Repo.put, updateWhere]
  conv_rhs => rw [← List.map_id R.attempts]
  apply List.map_congr_left
  intro y hy
  split
  · rename_i hid
    exact row_unique hids hx hy (beq_iff_eq.mp hid).symm
  · rfl

/-- An attempt goes on, and no ref but its own has changed. -/
theorem Kept.put (hR : Kept parents R) {x' : Attempt} {R' : Repo}
    (hattempts : R'.attempts = (R.put x').attempts) (hcloned : R'.cloned = R.cloned)
    (hrefs : ∀ ref, ref ≠ x'.ref ∨ x'.worktree = false → R'.refs ref = R.refs ref)
    (hfree : x'.worktree = true → ∀ y ∈ R.attempts, y.id ≠ x'.id → y.worktree = true →
      y.ref ≠ x'.ref)
    (hclone : x'.worktree = true → R.cloned = true)
    (hgrounded : Grounded parents R'.refs x') : Kept parents R' := by
  have hmem : ∀ {y}, y ∈ R'.attempts → y = x' ∨ y ∈ R.attempts ∧ y.id ≠ x'.id := by
    intro y hy
    rw [hattempts] at hy
    exact mem_put hy
  refine ⟨?_, fun y hy z hz hyw hzw href => ?_, fun hnot y hy => ?_, fun y hy => ?_⟩
  · rw [hattempts, map_id_put]
    exact hR.ids
  · rcases hmem hy with rfl | ⟨hy, hyid⟩ <;> rcases hmem hz with rfl | ⟨hz, hzid⟩
    · rfl
    · exact absurd href.symm (hfree hyw z hz hzid hzw)
    · exact absurd href (hfree hzw y hy hyid hyw)
    · exact hR.branches y hy z hz hyw hzw href
  · rw [hcloned] at hnot
    rcases hmem hy with rfl | ⟨hy, -⟩
    · cases hw : y.worktree with
      | false => rfl
      | true =>
          rw [hclone hw] at hnot
          cases hnot
    · exact hR.cloned hnot y hy
  · rcases hmem hy with rfl | ⟨hy, hyid⟩
    · exact hgrounded
    · have hground := hR.grounded y hy
      cases hw : y.worktree with
      | false =>
          refine ⟨hground.worktree, hground.roots, fun hstanding => ?_, hground.result⟩
          rw [hground.worktree (Phase.live_of_standing hstanding)] at hw
          cases hw
      | true =>
          refine hground.frame (hrefs y.ref ?_)
          cases hxw : x'.worktree with
          | false => exact .inr rfl
          | true => exact .inl (hfree hxw y hy hyid hw)

theorem Kept.ref_free (hR : Kept parents R) {x : Attempt} (hx : x ∈ R.attempts)
    (hworktree : x.worktree = true) :
    ∀ y ∈ R.attempts, y.id ≠ x.id → y.worktree = true → y.ref ≠ x.ref :=
  fun y hy hid hyw href => hid (hR.branches y hy x hx hyw hworktree href)

theorem Kept.cloned_of_worktree (hR : Kept parents R) {x : Attempt} (hx : x ∈ R.attempts)
    (hworktree : x.worktree = true) : R.cloned = true := by
  cases hcloned : R.cloned with
  | true => rfl
  | false =>
      rw [hR.cloned hcloned x hx] at hworktree
      cases hworktree

/-- The phase of an attempt changes and the refs do not. -/
theorem Kept.move (hR : Kept parents R) {x : Attempt} (hx : x ∈ R.attempts) (phase : Phase)
    {R' : Repo} (hattempts : R'.attempts = (R.put { x with phase := phase }).attempts)
    (hcloned : R'.cloned = R.cloned) (hrefs : R'.refs = R.refs)
    (hlive : phase.live = true → x.phase.live = true)
    (hhead : phase.standing = true → x.phase.standing = true)
    (hresult : ∀ sha, phase.result = some sha →
      x.phase.result = some sha ∨ x.phase.standing = true ∧ R.refs x.ref = some sha) :
    Kept parents R' := by
  have hground := hR.grounded x hx
  refine hR.put hattempts hcloned (fun ref _ => by rw [hrefs]) 
    (fun hw y hy hid => hR.ref_free hx hw y hy hid) (fun hw => hR.cloned_of_worktree hx hw) ⟨fun h => hground.worktree (hlive h), hground.roots, fun h => ?_,
      fun sha h => ?_⟩
  · rw [hrefs]
    exact hground.head (hhead h)
  · rcases hresult sha h with hsame | ⟨hstanding, hsha⟩
    · exact hground.result sha hsame
    · obtain ⟨c, hc, hroots⟩ := hground.head hstanding
      rw [hsha, Option.some.injEq] at hc
      exact ⟨hground.worktree (Phase.live_of_standing hstanding), hc ▸ hroots⟩

theorem commitOn_cases {x : Attempt} {sha : Sha} {R' : Repo}
    (h : R.commitOn parents x sha = some R') :
    parents sha = (R.refs x.ref).toList ∧ R' = R.setRef x.ref (some sha) := by
  unfold Repo.commitOn at h
  split at h
  · rename_i hparents
    cases h
    exact ⟨hparents, rfl⟩
  · cases h

/-- A commit on top of a branch that is there. -/
theorem Kept.commit (hR : Kept parents R) {x x' : Attempt} (hx : x ∈ R.attempts) {sha : Sha}
    (hstanding : x.phase.standing = true) (hparents : parents sha = (R.refs x.ref).toList)
    {R' : Repo} (hattempts : R'.attempts = (R.put x').attempts) (hcloned : R'.cloned = R.cloned)
    (hrefs : R'.refs = Function.update R.refs x.ref (some sha)) (hid : x'.id = x.id)
    (href : x'.ref = x.ref) (hworktree : x'.worktree = x.worktree)
    (hroots : ∀ r ∈ x'.roots, r ∈ x.roots ∨ r = sha) (hnonempty : x.roots ≠ [] → x'.roots ≠ [])
    (hresult : x'.phase.result = none) (hlive : x'.phase.live = true → x.phase.live = true) :
    Kept parents R' := by
  have hground := hR.grounded x hx
  obtain ⟨c, hc, hbelow⟩ := hground.head hstanding
  rw [hc] at hparents
  have hxw : x.worktree = true := hground.worktree (Phase.live_of_standing hstanding)
  refine hR.put hattempts hcloned (fun ref hne => ?_) (fun hw => ?_) (fun hw => ?_)
    ⟨fun h => hworktree ▸ hground.worktree (hlive h),
      fun _ => hnonempty (hground.roots hxw), fun _ => ⟨sha, ?_, fun r hr => ?_⟩, fun sha' h => ?_⟩
  · rw [hrefs, Function.update_of_ne]
    rcases hne with hne | hnone
    · rwa [href] at hne
    · rw [hworktree, hxw] at hnone
      cases hnone
  · rw [hid, href]
    exact hR.ref_free hx hxw
  · exact hR.cloned_of_worktree hx hxw
  · rw [hrefs, href, Function.update_self]
  · rcases hroots r hr with hold | rfl
    · exact (hbelow r hold).commit hparents
    · exact .refl
  · rw [hresult] at h
    cases h

theorem headRef_ne_notesRef (branch : String) : headRef branch ≠ notesRef := by
  intro h
  have hchars := congrArg (fun ref => ref.toList.take 6) h
  simp only [headRef, notesRef, String.toList_append] at hchars
  exact absurd hchars (by simp)

/-- What the refs of live worktrees hold stays, whatever else is fetched. -/
theorem Kept.refresh (hR : Kept parents R) {x : Attempt} (hx : x ∈ R.attempts)
    (hlive : R.cloned = true → ∀ y ∈ R.attempts, y.phase.live = true →
      R.remote y.ref = R.refs y.ref) :
    Kept parents { R.put { x with phase := .locked false } with
      refs := R.refreshed, cloned := true } := by
  have hmoved : Kept parents (R.put { x with phase := .locked false }) :=
    hR.move hx _ rfl rfl rfl nofun nofun nofun
  refine ⟨hmoved.ids, hmoved.branches, nofun, fun y hy => ?_⟩
  have hground := hmoved.grounded y hy
  by_cases hylive : y.phase.live = true
  · refine hground.frame ?_
    rcases mem_put hy with rfl | ⟨hyold, -⟩
    · cases hylive
    · change R.refreshed y.ref = R.refs y.ref
      have hcloned := hR.cloned_of_worktree hyold (hground.worktree hylive)
      rw [Repo.refreshed, if_pos hcloned]
      split
      · exact hlive hcloned y hyold hylive
      · rfl
  · refine ⟨hground.worktree, hground.roots, fun hstanding => ?_, hground.result⟩
    exact absurd (Phase.live_of_standing hstanding) hylive

theorem Kept.worktreeAdd (hR : Kept parents R) {x : Attempt} {present allowMissing : Bool} {R' : Repo}
    (h : R.worktreeAdd x present allowMissing = some R') : Kept parents R' := by
  unfold Repo.worktreeAdd at h
  split at h
  · rename_i hguard
    obtain ⟨start, -, rfl⟩ := Option.map_eq_some_iff.mp h
    obtain ⟨hcloned, hunused⟩ := Bool.and_eq_true_iff.mp hguard
    refine hR.put rfl rfl (fun ref hne => ?_) (fun _ y hy _ hyw href => ?_) (fun _ => hcloned)
      ⟨fun _ => rfl, fun _ => List.cons_ne_nil _ _, fun _ => ⟨start, ?_, fun r hr => ?_⟩, nofun⟩
    · exact Function.update_of_ne (hne.resolve_right nofun) _ _
    · have hbranch : y.assignment.branch = x.assignment.branch := by
        have hchars := congrArg String.toList href
        simp only [Attempt.ref, headRef, String.toList_append, List.append_cancel_left_eq] at hchars
        exact String.toList_inj.mp hchars
      have hused : R.checkedOut x.assignment.branch = true :=
        List.any_eq_true.mpr ⟨y, hy, by rw [hyw, hbranch]; simp⟩
      rw [hused] at hunused
      cases hunused
    · exact Function.update_self _ _ _
    · rw [List.mem_singleton.mp hr]
      exact .refl
  · cases h

theorem Kept.cleanup (hR : Kept parents R) {x : Attempt} (hx : x ∈ R.attempts) :
    Kept parents { (if x.worktree then R.setRef x.ref none else R) with
      attempts := R.attempts.filter fun y => y.id != x.id } := by
  have hcloned : (if x.worktree then R.setRef x.ref none else R).cloned = R.cloned := by
    split <;> rfl
  refine ⟨?_, fun y hy z hz => ?_, fun hnot y hy => ?_, fun y hy => ?_⟩
  · exact hR.ids.sublist (List.filter_sublist.map _)
  · exact hR.branches y (List.mem_of_mem_filter hy) z (List.mem_of_mem_filter hz)
  · exact hR.cloned (hcloned ▸ hnot) y (List.mem_of_mem_filter hy)
  · obtain ⟨hyold, hyid⟩ := List.mem_filter.mp hy
    have hground := hR.grounded y hyold
    cases hxw : x.worktree with
    | false => exact hground
    | true =>
        rw [if_pos rfl]
        by_cases hyw : y.worktree = true
        · refine hground.frame (Function.update_of_ne ?_ _ _)
          exact hR.ref_free hx hxw y hyold (bne_iff_ne.mp hyid) hyw
        · refine ⟨hground.worktree, hground.roots, fun hstanding => ?_, hground.result⟩
          exact absurd (hground.worktree (Phase.live_of_standing hstanding)) hyw

/-- A bulk refresh finds the branch of every live worktree on the remote, where it
is in the mirror. -/
def undisturbing (R : Repo) : Event → Bool
  | .refresh _ =>
      !R.cloned || R.attempts.all fun y => !y.phase.live || R.remote y.ref == R.refs y.ref
  | _ => true

theorem Kept.advance (hR : Kept parents R) {x : Attempt} (hx : x ∈ R.attempts) {e : Event}
    {R' : Repo} (h : advance parents R x e = some R') (he : undisturbing R e = true) :
    Kept parents R' := by
  cases e with
  | lock id =>
      simp only [Worktrees.advance] at h
      split at h
      · cases h
        exact hR.move hx _ rfl rfl rfl nofun nofun nofun
      · cases h
  | refresh id =>
      simp only [Worktrees.advance] at h
      split at h
      · cases h
        refine hR.refresh hx fun hcloned y hy hylive => ?_
        simp only [undisturbing, hcloned, Bool.not_true, Bool.false_or, List.all_eq_true] at he
        have hsame := he y hy
        rw [hylive, Bool.not_true, Bool.false_or] at hsame
        exact beq_iff_eq.mp hsame
      · cases h
  | worktreeAdd id present allowMissing =>
      simp only [Worktrees.advance] at h
      split at h
      · exact hR.worktreeAdd h
      · cases h
  | land id sha =>
      simp only [Worktrees.advance] at h
      split at h
      · rename_i upstream rest hphase
        obtain ⟨R₁, hcommit, rfl⟩ := Option.map_eq_some_iff.mp h
        obtain ⟨hparents, rfl⟩ := commitOn_cases hcommit
        refine hR.commit hx (by rw [hphase]; rfl) hparents rfl rfl rfl rfl rfl rfl (fun r hr => ?_)
          (fun _ => by simp) rfl fun _ => by rw [hphase]; rfl
        rcases List.mem_append.mp hr with hr | hr
        · exact .inl hr
        · exact .inr (List.mem_singleton.mp hr)
      · cases h
  | skip id =>
      simp only [Worktrees.advance] at h
      split at h
      · rename_i upstream rest hphase
        cases h
        exact hR.move hx _ rfl rfl rfl (fun _ => by rw [hphase]; rfl) (fun _ => by rw [hphase]; rfl) nofun
      · cases h
  | ready id =>
      simp only [Worktrees.advance] at h
      split at h
      · rename_i hphase
        cases h
        exact hR.move hx _ rfl rfl rfl (fun _ => by rw [hphase]; rfl) (fun _ => by rw [hphase]; rfl) nofun
      · cases h
  | abort id =>
      simp only [Worktrees.advance] at h
      split at h
      · cases h
        exact hR.move hx .failed rfl rfl rfl nofun nofun nofun
      · cases h
        exact hR.move hx .failed rfl rfl rfl nofun nofun nofun
      · cases h
        exact hR.move hx .failed rfl rfl rfl nofun nofun nofun
      · cases h
  | agentCommit id sha =>
      simp only [Worktrees.advance] at h
      split at h
      · rename_i hphase
        obtain ⟨hparents, rfl⟩ := commitOn_cases h
        exact hR.commit hx (by rw [hphase]; rfl) hparents (put_self hR.ids hx).symm rfl rfl rfl rfl
          rfl (fun r hr => .inl hr) (fun hroots => hroots) (by rw [hphase]; rfl) fun hlive => hlive
      · cases h
  | stage id changes =>
      simp only [Worktrees.advance] at h
      split at h
      · rename_i hphase
        cases h
        exact hR.move hx _ rfl rfl rfl (fun _ => by rw [hphase]; rfl) (fun _ => by rw [hphase]; rfl) nofun
      · cases h
  | commit id sha =>
      simp only [Worktrees.advance] at h
      split at h
      · rename_i hphase
        obtain ⟨R₁, hcommit, rfl⟩ := Option.map_eq_some_iff.mp h
        obtain ⟨hparents, rfl⟩ := commitOn_cases hcommit
        exact hR.commit hx (by rw [hphase]; rfl) hparents rfl rfl rfl rfl rfl rfl (fun r hr => .inl hr)
          (fun hroots => hroots) rfl fun _ => by rw [hphase]; rfl
      · cases h
  | revParse id =>
      simp only [Worktrees.advance] at h
      split at h
      · rename_i sha hphase href
        cases h
        refine hR.move hx _ rfl rfl rfl (fun _ => by rw [hphase]; rfl) nofun fun sha' hsha => ?_
        cases hsha
        exact .inr ⟨by rw [hphase]; rfl, href⟩
      · rename_i sha hphase href
        cases h
        refine hR.move hx _ rfl rfl rfl (fun _ => by rw [hphase]; rfl) nofun fun sha' hsha => ?_
        cases hsha
        exact .inr ⟨by rw [hphase]; rfl, href⟩
      · cases h
        exact hR.move hx .failed rfl rfl rfl nofun nofun nofun
      · cases h
        exact hR.move hx .failed rfl rfl rfl nofun nofun nofun
      · cases h
  | diff id =>
      simp only [Worktrees.advance] at h
      split at h
      · rename_i sha hphase
        split at h
        · cases h
          refine hR.move hx _ rfl rfl rfl nofun nofun fun sha' hsha => .inl ?_
          cases hsha
          rw [hphase]
          rfl
        · cases h
          exact hR.move hx .failed rfl rfl rfl nofun nofun nofun
      · cases h
  | cleanup id =>
      simp only [Worktrees.advance] at h
      split at h
      · cases h
        exact hR.cleanup hx
      · cases h
        exact hR.cleanup hx
      · cases h
        exact hR.cleanup hx
      · cases h
  | start id assignment needFetch => cases h
  | attachNote sha => cases h
  | push ref sha => cases h

theorem Kept.start (hR : Kept parents R) {id : String} (hnew : R.attempt id = none)
    (assignment : Assignment) (needFetch : Bool) :
    Kept parents { R with
      attempts := R.attempts ++ [⟨id, assignment, .waiting needFetch, false, []⟩] } := by
  refine ⟨?_, fun x hx y hy hxw hyw href => ?_, fun hnot x hx => ?_, fun x hx => ?_⟩
  · rw [List.map_append]
    refine hR.ids.append (List.nodup_singleton id) ?_
    refine List.disjoint_singleton.mpr fun hmem => ?_
    obtain ⟨x, hx, hid⟩ := List.mem_map.mp hmem
    exact lookup_none hnew x hx hid
  · rcases List.mem_append.mp hx with hx | hx <;> rcases List.mem_append.mp hy with hy | hy
    · exact hR.branches x hx y hy hxw hyw href
    · rw [List.mem_singleton.mp hy] at hyw
      cases hyw
    · rw [List.mem_singleton.mp hx] at hxw
      cases hxw
    · rw [List.mem_singleton.mp hx] at hxw
      cases hxw
  · rcases List.mem_append.mp hx with hx | hx
    · exact hR.cloned hnot x hx
    · rw [List.mem_singleton.mp hx]
  · rcases List.mem_append.mp hx with hx | hx
    · exact hR.grounded x hx
    · rw [List.mem_singleton.mp hx]
      exact ⟨nofun, nofun, nofun, nofun⟩

theorem Kept.step {e : Event} {R' : Repo} (hR : Kept parents R) (h : Steps parents R e R')
    (he : undisturbing R e = true) : Kept parents R' := by
  have hadvance : ((e.id?.bind R.attempt).bind fun x => Worktrees.advance parents R x e) = some R' →
      Kept parents R' := by
    intro h
    obtain ⟨x, hx, hstep⟩ := Option.bind_eq_some_iff.mp h
    obtain ⟨id, -, hlookup⟩ := Option.bind_eq_some_iff.mp hx
    exact hR.advance (lookup_mem hlookup).1 hstep he
  unfold Steps at h
  cases e with
  | start id assignment needFetch =>
      simp only [Worktrees.step] at h
      split at h
      · cases h
      · rename_i hnew
        cases h
        rw [Option.not_isSome_iff_eq_none] at hnew
        exact hR.start hnew assignment needFetch
  | attachNote sha =>
      cases h
      refine ⟨hR.ids, hR.branches, hR.cloned, fun x hx => (hR.grounded x hx).frame ?_⟩
      exact Function.update_of_ne (headRef_ne_notesRef _) (some sha) R.refs
  | push ref sha =>
      cases h
      exact ⟨hR.ids, hR.branches, hR.cloned, hR.grounded⟩
  | _ => exact hadvance h

/-- In every run in which no bulk refresh touches the branch of a live worktree, the
commit that an attempt returns has its start point, and every upstream commit that
landed, among its ancestors. -/
theorem history_kept (parents : Sha → List Sha) {es : List Event} {R : Repo}
    (h : Runs (During (Steps parents) fun R e => undisturbing R e = true) {} es R)
    {x : Attempt} (hx : x ∈ R.attempts) {sha : Sha} (hreturned : x.phase = .returned sha) :
    x.roots ≠ [] ∧ ∀ r ∈ x.roots, Ancestor parents r sha := by
  have hR : Kept parents R := by
    refine h.invariant (Kept parents) (fun hR hstep => hR.step hstep.1 hstep.2) ?_
    exact ⟨List.nodup_nil, nofun, nofun, nofun⟩
  have hground := hR.grounded x hx
  obtain ⟨hworktree, hroots⟩ := hground.result sha (by rw [hreturned]; rfl)
  exact ⟨hground.roots hworktree, hroots⟩

end History

section Pruned

/-- `a1` is a commit on top of `m0`, and `r1` has no parent. -/
def lineage (sha : Sha) : List Sha := if sha = "a1" then ["m0"] else []

def work (taskId : String) : Assignment where
  taskId := taskId
  number := 1
  defaultBranch := "main"

def prepared (id : String) : List Event :=
  [.start id (work id) true, .lock id, .refresh id, .worktreeAdd id true false, .ready id]

def finalized (id : String) (sha : Sha) : List Event :=
  [.stage id true, .commit id sha, .revParse id, .diff id]

def alone : List Event :=
  [Event.push "refs/heads/main" (some "m0")] ++ prepared "t1" ++ finalized "t1" "a1"

theorem history_kept_alone :
    ∃ R x, Runs (During (Steps lineage) fun R e => undisturbing R e = true) {} alone R ∧
      x ∈ R.attempts ∧ x.phase = .returned "a1" ∧ x.roots ≠ [] ∧
      ∀ r ∈ x.roots, Ancestor lineage r "a1" := by
  have hend : (alone.foldlM (fun R e => if undisturbing R e then step lineage R e else none)
      ({} : Repo)).any (fun R => R.attempts.any fun x => x.phase == .returned "a1") = true := by
    decide +kernel
  obtain ⟨R, hR, hlast⟩ := (Option.any_eq_true _ _).mp hend
  obtain ⟨x, hx, hphase⟩ := List.any_eq_true.mp hlast
  have hrun := Runs.foldlM hR
  have hphase := beq_iff_eq.mp hphase
  exact ⟨R, x, hrun, hx, hphase, history_kept lineage hrun hx hphase⟩

/-- Another attempt is prepared while the first one works. -/
def overlapping : List Event :=
  [Event.push "refs/heads/main" (some "m0")] ++ prepared "t1" ++ prepared "t2" ++
    finalized "t1" "r1"

theorem history_lost :
    ∃ R x, Runs (Steps lineage) {} overlapping R ∧ x ∈ R.attempts ∧ x.phase = .returned "r1" ∧
      x.roots = ["m0"] ∧ ¬ Ancestor lineage "m0" "r1" := by
  have hend : (overlapping.foldlM (step lineage) ({} : Repo)).any (fun R =>
      R.attempts.any fun x => x.phase == .returned "r1" && x.roots == ["m0"]) = true := by
    decide +kernel
  obtain ⟨R, hR, hlast⟩ := (Option.any_eq_true _ _).mp hend
  obtain ⟨x, hx, hlast⟩ := List.any_eq_true.mp hlast
  obtain ⟨hphase, hroots⟩ := Bool.and_eq_true_iff.mp hlast
  refine ⟨R, x, Runs.of_foldlM hR, hx, beq_iff_eq.mp hphase, beq_iff_eq.mp hroots, fun h => ?_⟩
  rcases Relation.ReflTransGen.cases_head h with hsame | ⟨c, hc, -⟩
  · exact absurd hsame (by decide)
  · rw [show lineage "r1" = [] by decide] at hc
    cases hc

end Pruned

end AgentGrid.Node.Worktrees
