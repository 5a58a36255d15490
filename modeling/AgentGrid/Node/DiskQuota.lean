import Mathlib.Data.List.Basic
import Mathlib.Data.UInt

/-!
# Disk quotas

A prepare measures the repository root after a fetch or a clone, and the workspace
root after `worktree add`, and compares a cached total plus what it takes for the
growth with the quota.  After a clone that is the whole measured size.
-/

namespace AgentGrid.Node

/-! ## Words -/

def saturatingAdd (a b : UInt64) : UInt64 :=
  if a.toNat + b.toNat < 2 ^ 64 then a + b else 0xFFFFFFFFFFFFFFFF

def saturatingSub (a b : UInt64) : UInt64 := if b ≤ a then a - b else 0

theorem toNat_saturatingAdd (a b : UInt64) :
    (saturatingAdd a b).toNat = min (a.toNat + b.toNat) (2 ^ 64 - 1) := by
  unfold saturatingAdd
  split
  · rw [UInt64.toNat_add]
    omega
  · have hmax : (0xFFFFFFFFFFFFFFFF : UInt64).toNat = 2 ^ 64 - 1 := rfl
    rw [hmax]
    omega

theorem toNat_saturatingSub (a b : UInt64) :
    (saturatingSub a b).toNat = a.toNat - b.toNat := by
  unfold saturatingSub
  split
  · rename_i h
    exact UInt64.toNat_sub_of_le a b h
  · rename_i h
    rw [UInt64.le_iff_toNat_le] at h
    simp only [UInt64.toNat_zero]
    omega

/-! ## Directories -/

/-- An entry of a directory by its own metadata; a symbolic link is another file. -/
inductive DirEntry
  | file (len : UInt64)
  | dir (entries : List DirEntry)
  | other
  | unreadable

mutual

def DirEntry.size : DirEntry → Option UInt64
  | .file len => some len
  | .dir entries => sizeFrom 0 entries
  | .other => some 0
  | .unreadable => none

def sizeFrom (total : UInt64) : List DirEntry → Option UInt64
  | [] => some total
  | entry :: entries =>
      match entry.size with
      | some size => sizeFrom (saturatingAdd total size) entries
      | none => none

end

/-- The size of a directory with these entries; one that does not exist has none. -/
def dirSize (entries : List DirEntry) : Option UInt64 := sizeFrom 0 entries

/-! ## The checks -/

structure QuotaSettings where
  /-- What `AGENTGRID_REPO_CACHE_QUOTA_MB` and `AGENTGRID_WORKSPACE_QUOTA_MB` parse to. -/
  repoCacheMb : Option UInt64
  workspaceMb : Option UInt64
  /-- The build checks for overflow. -/
  overflowChecks : Bool

def QuotaSettings.repoCacheQuotaMb (settings : QuotaSettings) : Option UInt64 :=
  settings.repoCacheMb.filter (0 < ·)

def QuotaSettings.workspaceQuotaMb (settings : QuotaSettings) : Option UInt64 :=
  settings.workspaceMb.filter (0 < ·)

/-- `quota_mb * 1024 * 1024`; nothing where the multiplication panics. -/
def quotaBytes (overflowChecks : Bool) (quotaMb : UInt64) : Option UInt64 :=
  if overflowChecks && decide (2 ^ 64 ≤ quotaMb.toNat * 1024 * 1024) then none
  else some (quotaMb * 1024 * 1024)

inductive Verdict
  | passed
  | refused (text : String)
  | panicked
deriving DecidableEq

def Verdict.isRefused : Verdict → Bool
  | .refused _ => true
  | _ => false

def megabytes (n : UInt64) : Nat := n.toNat / 1024 / 1024

/-- The two checks, for the cached total `current`. -/
def checkQuota (what : String) (quotaMb : Option UInt64) (overflowChecks : Bool)
    (current additional : UInt64) : Verdict :=
  match quotaMb with
  | none => .passed
  | some quotaMb =>
      match quotaBytes overflowChecks quotaMb with
      | none => .panicked
      | some limit =>
          if limit < saturatingAdd current additional then
            .refused (what ++ " quota exceeded: current " ++ toString (megabytes current) ++
              " MB + " ++ toString (megabytes additional) ++ " MB > " ++
              toString quotaMb.toNat ++ " MB limit")
          else .passed

structure DiskUsage where
  repoCacheBytes : UInt64 := 0
  workspaceBytes : UInt64 := 0

variable (settings : QuotaSettings)

def DiskUsage.checkRepoCacheQuota (usage : DiskUsage) (additional : UInt64) : Verdict :=
  checkQuota "repository cache" settings.repoCacheQuotaMb settings.overflowChecks
    usage.repoCacheBytes additional

def DiskUsage.checkWorkspaceQuota (usage : DiskUsage) (additional : UInt64) : Verdict :=
  checkQuota "workspace" settings.workspaceQuotaMb settings.overflowChecks
    usage.workspaceBytes additional

/-! ## Prepares -/

/-- What a prepare does to the totals, with the directories as they are then. -/
inductive PrepareStep
  | updateQuotaMetrics (repositoryRoot workspaceRoot : List DirEntry)
  | fetched (repositoryRoot : List DirEntry)
  | cloned (repositoryRoot : List DirEntry)
  | worktreeAdded (workspaceRoot : List DirEntry)

def DiskUsage.updateQuotaMetrics (usage : DiskUsage) (repositoryRoot workspaceRoot :
    List DirEntry) : DiskUsage where
  repoCacheBytes := (dirSize repositoryRoot).getD usage.repoCacheBytes
  workspaceBytes := (dirSize workspaceRoot).getD usage.workspaceBytes

/-- The total is stored where the check lets the size pass. -/
def DiskUsage.storeRepoCache (usage : DiskUsage) (size : UInt64) (verdict : Verdict) :
    DiskUsage :=
  if verdict = .passed then { usage with repoCacheBytes := size } else usage

def DiskUsage.storeWorkspace (usage : DiskUsage) (size : UInt64) (verdict : Verdict) :
    DiskUsage :=
  if verdict = .passed then { usage with workspaceBytes := size } else usage

/-- A root that cannot be measured is not checked. -/
def DiskUsage.step (usage : DiskUsage) : PrepareStep → DiskUsage × Option Verdict
  | .updateQuotaMetrics repositoryRoot workspaceRoot =>
      (usage.updateQuotaMetrics repositoryRoot workspaceRoot, none)
  | .fetched root =>
      match dirSize root with
      | none => (usage, none)
      | some size =>
          let verdict := usage.checkRepoCacheQuota settings
            (saturatingSub size usage.repoCacheBytes)
          (usage.storeRepoCache size verdict, some verdict)
  | .cloned root =>
      match dirSize root with
      | none => (usage, none)
      | some size =>
          let verdict := usage.checkRepoCacheQuota settings size
          (usage.storeRepoCache size verdict, some verdict)
  | .worktreeAdded root =>
      match dirSize root with
      | none => (usage, none)
      | some size =>
          let verdict := usage.checkWorkspaceQuota settings
            (saturatingSub size usage.workspaceBytes)
          (usage.storeWorkspace size verdict, some verdict)

/-- The totals of a daemon after these steps of its prepares. -/
def DiskUsage.run (steps : List PrepareStep) : DiskUsage :=
  steps.foldl (fun usage step => (usage.step settings step).1) {}

/-! ## Exactness -/

namespace PrepareStep

/-- What a step measures for its check. -/
def measured : PrepareStep → Option UInt64
  | .updateQuotaMetrics _ _ => none
  | .fetched root | .cloned root | .worktreeAdded root => dirSize root

def quotaMb : PrepareStep → Option UInt64
  | .updateQuotaMetrics _ _ => none
  | .fetched _ | .cloned _ => settings.repoCacheQuotaMb
  | .worktreeAdded _ => settings.workspaceQuotaMb

/-- What the check counts when the measured size is within the quota. -/
def counted (usage : DiskUsage) (size : UInt64) : PrepareStep → Nat
  | .updateQuotaMetrics _ _ => 0
  | .fetched _ => usage.repoCacheBytes.toNat
  | .cloned _ => usage.repoCacheBytes.toNat + size.toNat
  | .worktreeAdded _ => usage.workspaceBytes.toNat

/-- The check refuses exactly the sizes above the quota, which is a word. -/
def Exact (usage : DiskUsage) (step : PrepareStep) : Prop :=
  ∀ size ∈ step.measured, ∀ quotaMb ∈ step.quotaMb settings,
    quotaMb.toNat * 2 ^ 20 < 2 ^ 64 ∧ ∃ verdict, (usage.step settings step).2 = some verdict ∧
      (verdict.isRefused ↔ quotaMb.toNat * 2 ^ 20 < size.toNat)

def Fits (usage : DiskUsage) (step : PrepareStep) : Prop :=
  ∀ size ∈ step.measured, ∀ quotaMb ∈ step.quotaMb settings,
    quotaMb.toNat * 2 ^ 20 < 2 ^ 64 ∧
      (quotaMb.toNat * 2 ^ 20 < size.toNat ∨
        step.counted usage size ≤ quotaMb.toNat * 2 ^ 20)

end PrepareStep

theorem quotaBytes_eq (overflowChecks : Bool) {quotaMb : UInt64}
    (h : quotaMb.toNat * 2 ^ 20 < 2 ^ 64) :
    ∃ limit, quotaBytes overflowChecks quotaMb = some limit ∧
      limit.toNat = quotaMb.toNat * 2 ^ 20 := by
  have hfits : ¬ 2 ^ 64 ≤ quotaMb.toNat * 1024 * 1024 := by omega
  refine ⟨quotaMb * 1024 * 1024, ?_, ?_⟩
  · rw [quotaBytes, decide_eq_false hfits, Bool.and_false, if_neg Bool.false_ne_true]
  · have hkilo : (1024 : UInt64).toNat = 1024 := rfl
    rw [UInt64.toNat_mul, UInt64.toNat_mul, hkilo]
    omega

/-- Within a word a check refuses what is more than the quota together. -/
theorem checkQuota_refused {what : String} {overflowChecks : Bool} {quotaMb : UInt64}
    (h : quotaMb.toNat * 2 ^ 20 < 2 ^ 64) (current additional : UInt64) :
    (checkQuota what (some quotaMb) overflowChecks current additional).isRefused ↔
      quotaMb.toNat * 2 ^ 20 < current.toNat + additional.toNat := by
  obtain ⟨limit, hlimit, htoNat⟩ := quotaBytes_eq overflowChecks h
  have hless : limit < saturatingAdd current additional ↔
      quotaMb.toNat * 2 ^ 20 < current.toNat + additional.toNat := by
    rw [UInt64.lt_iff_toNat_lt, toNat_saturatingAdd, htoNat]
    omega
  simp only [checkQuota, hlimit]
  rw [← hless]
  split
  · rename_i hover
    exact iff_of_true rfl hover
  · rename_i hover
    exact iff_of_false Bool.false_ne_true hover

/-- A step refuses a size above the quota, and any where the count is above it. -/
theorem PrepareStep.refused_iff (usage : DiskUsage) {step : PrepareStep} {size quotaMb : UInt64}
    (hsize : size ∈ step.measured) (hquota : quotaMb ∈ step.quotaMb settings)
    (hword : quotaMb.toNat * 2 ^ 20 < 2 ^ 64) :
    ∃ verdict, (usage.step settings step).2 = some verdict ∧
      (verdict.isRefused ↔ quotaMb.toNat * 2 ^ 20 < size.toNat ∨
        quotaMb.toNat * 2 ^ 20 < step.counted usage size) := by
  cases step with
  | updateQuotaMetrics repositoryRoot workspaceRoot => cases hsize
  | fetched root =>
      have hmeasured : dirSize root = some size := hsize
      have hset : settings.repoCacheQuotaMb = some quotaMb := hquota
      simp only [DiskUsage.step, hmeasured, DiskUsage.checkRepoCacheQuota, hset]
      refine ⟨_, rfl, (checkQuota_refused hword _ _).trans ?_⟩
      rw [toNat_saturatingSub, counted]
      omega
  | cloned root =>
      have hmeasured : dirSize root = some size := hsize
      have hset : settings.repoCacheQuotaMb = some quotaMb := hquota
      simp only [DiskUsage.step, hmeasured, DiskUsage.checkRepoCacheQuota, hset]
      refine ⟨_, rfl, (checkQuota_refused hword _ _).trans ?_⟩
      rw [counted]
      omega
  | worktreeAdded root =>
      have hmeasured : dirSize root = some size := hsize
      have hset : settings.workspaceQuotaMb = some quotaMb := hquota
      simp only [DiskUsage.step, hmeasured, DiskUsage.checkWorkspaceQuota, hset]
      refine ⟨_, rfl, (checkQuota_refused hword _ _).trans ?_⟩
      rw [toNat_saturatingSub, counted]
      omega

theorem PrepareStep.exact_iff_fits (usage : DiskUsage) (step : PrepareStep) :
    step.Exact settings usage ↔ step.Fits settings usage := by
  constructor
  · intro h size hsize quotaMb hquota
    obtain ⟨hword, verdict, hverdict, hexact⟩ := h size hsize quotaMb hquota
    obtain ⟨verdict', hverdict', hrefused⟩ :=
      PrepareStep.refused_iff settings usage hsize hquota hword
    obtain rfl := Option.some_inj.mp (hverdict'.symm.trans hverdict)
    refine ⟨hword, ?_⟩
    by_contra hnot
    rw [not_or, Nat.not_le] at hnot
    exact hnot.1 (hexact.mp (hrefused.mpr (.inr hnot.2)))
  · intro h size hsize quotaMb hquota
    obtain ⟨hword, hfits⟩ := h size hsize quotaMb hquota
    obtain ⟨verdict, hverdict, hrefused⟩ :=
      PrepareStep.refused_iff settings usage hsize hquota hword
    refine ⟨hword, verdict, hverdict, hrefused.trans ⟨fun hmore => ?_, .inl⟩⟩
    exact hmore.elim id fun hcounted => hfits.resolve_right (Nat.not_le.mpr hcounted)

/-- In every run of prepares, a check is exact where the quota is a word and the size
is above it or what the check counts is not. -/
theorem quota_exact_iff (steps : List PrepareStep) (step : PrepareStep) :
    step.Exact settings (DiskUsage.run settings steps) ↔
      step.Fits settings (DiskUsage.run settings steps) :=
  step.exact_iff_fits settings (DiskUsage.run settings steps)

/-- A cache of 600 kB, and 900 kB of it after the next clone. -/
theorem second_clone_refused : ¬ ∀ (settings : QuotaSettings) (steps : List PrepareStep)
    (step : PrepareStep), step.Exact settings (DiskUsage.run settings steps) := by
  intro h
  let settings : QuotaSettings := ⟨some 1, none, false⟩
  obtain ⟨-, verdict, hverdict, hexact⟩ := h settings [.cloned [.file 614400]]
    (.cloned [.file 614400, .file 307200]) 921600 rfl 1 rfl
  have hrefused : verdict.isRefused = true := by
    have hstep : (((DiskUsage.run settings [.cloned [.file 614400]]).step settings
      (.cloned [.file 614400, .file 307200])).2.map Verdict.isRefused) = some true := by decide
    rw [hverdict] at hstep
    exact Option.some_inj.mp hstep
  exact absurd (hexact.mp hrefused) (by decide)

/-! ## The totals

A total above the quota comes from a refresh only, so without one every check after a
fetch or `worktree add` is exact. -/

theorem toNat_quotaBytes_le {overflowChecks : Bool} {quotaMb limit : UInt64}
    (h : quotaBytes overflowChecks quotaMb = some limit) :
    limit.toNat ≤ quotaMb.toNat * 2 ^ 20 ∧ limit.toNat < 2 ^ 64 - 1 := by
  unfold quotaBytes at h
  split at h
  · cases h
  · have hkilo : (1024 : UInt64).toNat = 1024 := rfl
    rw [← Option.some_inj.mp h, UInt64.toNat_mul, UInt64.toNat_mul, hkilo]
    omega

theorem checkQuota_passed {what : String} {overflowChecks : Bool} {quotaMb current
    additional : UInt64}
    (h : checkQuota what (some quotaMb) overflowChecks current additional = .passed) :
    current.toNat + additional.toNat ≤ quotaMb.toNat * 2 ^ 20 := by
  simp only [checkQuota] at h
  split at h
  · cases h
  · rename_i limit hlimit
    split at h
    · cases h
    · rename_i hless
      have hbound := toNat_quotaBytes_le hlimit
      rw [UInt64.lt_iff_toNat_lt, toNat_saturatingAdd] at hless
      omega

structure DiskUsage.Within (usage : DiskUsage) : Prop where
  repoCache : ∀ quotaMb ∈ settings.repoCacheQuotaMb,
    usage.repoCacheBytes.toNat ≤ quotaMb.toNat * 2 ^ 20
  workspace : ∀ quotaMb ∈ settings.workspaceQuotaMb,
    usage.workspaceBytes.toNat ≤ quotaMb.toNat * 2 ^ 20

def PrepareStep.Modest : PrepareStep → Prop
  | .updateQuotaMetrics repositoryRoot workspaceRoot =>
      (∀ size ∈ dirSize repositoryRoot, ∀ quotaMb ∈ settings.repoCacheQuotaMb,
        size.toNat ≤ quotaMb.toNat * 2 ^ 20) ∧
      ∀ size ∈ dirSize workspaceRoot, ∀ quotaMb ∈ settings.workspaceQuotaMb,
        size.toNat ≤ quotaMb.toNat * 2 ^ 20
  | _ => True

variable {settings}

namespace DiskUsage.Within

variable {usage : DiskUsage}

theorem storeRepoCache (h : usage.Within settings) {size additional : UInt64}
    (hsize : size.toNat ≤ usage.repoCacheBytes.toNat + additional.toNat) :
    (usage.storeRepoCache size (usage.checkRepoCacheQuota settings additional)).Within
      settings := by
  unfold DiskUsage.storeRepoCache
  split
  · rename_i hpassed
    refine ⟨fun quotaMb hquota => ?_, h.workspace⟩
    have hset : settings.repoCacheQuotaMb = some quotaMb := hquota
    rw [checkRepoCacheQuota, hset] at hpassed
    exact hsize.trans (checkQuota_passed hpassed)
  · exact h

theorem storeWorkspace (h : usage.Within settings) {size additional : UInt64}
    (hsize : size.toNat ≤ usage.workspaceBytes.toNat + additional.toNat) :
    (usage.storeWorkspace size (usage.checkWorkspaceQuota settings additional)).Within
      settings := by
  unfold DiskUsage.storeWorkspace
  split
  · rename_i hpassed
    refine ⟨h.repoCache, fun quotaMb hquota => ?_⟩
    have hset : settings.workspaceQuotaMb = some quotaMb := hquota
    rw [checkWorkspaceQuota, hset] at hpassed
    exact hsize.trans (checkQuota_passed hpassed)
  · exact h

theorem step (h : usage.Within settings) {step : PrepareStep} (hmodest : step.Modest settings) :
    (usage.step settings step).1.Within settings := by
  cases step with
  | updateQuotaMetrics repositoryRoot workspaceRoot =>
      refine ⟨fun quotaMb hquota => ?_, fun quotaMb hquota => ?_⟩
      · change ((dirSize repositoryRoot).getD usage.repoCacheBytes).toNat ≤ _
        cases hsize : dirSize repositoryRoot with
        | none => exact h.repoCache quotaMb hquota
        | some size => exact hmodest.1 size hsize quotaMb hquota
      · change ((dirSize workspaceRoot).getD usage.workspaceBytes).toNat ≤ _
        cases hsize : dirSize workspaceRoot with
        | none => exact h.workspace quotaMb hquota
        | some size => exact hmodest.2 size hsize quotaMb hquota
  | fetched root =>
      cases hsize : dirSize root with
      | none =>
          simp only [DiskUsage.step, hsize]
          exact h
      | some size =>
          have hgrowth : size.toNat ≤ usage.repoCacheBytes.toNat +
              (saturatingSub size usage.repoCacheBytes).toNat := by
            rw [toNat_saturatingSub]
            omega
          simp only [DiskUsage.step, hsize]
          exact h.storeRepoCache hgrowth
  | cloned root =>
      cases hsize : dirSize root with
      | none =>
          simp only [DiskUsage.step, hsize]
          exact h
      | some size =>
          simp only [DiskUsage.step, hsize]
          exact h.storeRepoCache (Nat.le_add_left _ _)
  | worktreeAdded root =>
      cases hsize : dirSize root with
      | none =>
          simp only [DiskUsage.step, hsize]
          exact h
      | some size =>
          have hgrowth : size.toNat ≤ usage.workspaceBytes.toNat +
              (saturatingSub size usage.workspaceBytes).toNat := by
            rw [toNat_saturatingSub]
            omega
          simp only [DiskUsage.step, hsize]
          exact h.storeWorkspace hgrowth

end DiskUsage.Within

theorem run_within {steps : List PrepareStep} (h : ∀ step ∈ steps, step.Modest settings) :
    (DiskUsage.run settings steps).Within settings := by
  have hfold : ∀ usage : DiskUsage, usage.Within settings →
      (steps.foldl (fun usage step => (usage.step settings step).1) usage).Within settings := by
    induction steps with
    | nil => exact fun usage husage => husage
    | cons step steps ih =>
        intro usage husage
        exact ih (fun s hs => h s (List.mem_cons_of_mem step hs)) _
          (husage.step (h step List.mem_cons_self))
  exact hfold {} ⟨fun _ _ => Nat.zero_le _, fun _ _ => Nat.zero_le _⟩

theorem fetched_exact {steps : List PrepareStep} (h : ∀ step ∈ steps, step.Modest settings)
    (root : List DirEntry)
    (hword : ∀ quotaMb ∈ settings.repoCacheQuotaMb, quotaMb.toNat * 2 ^ 20 < 2 ^ 64) :
    (PrepareStep.fetched root).Exact settings (DiskUsage.run settings steps) :=
  (PrepareStep.exact_iff_fits settings _ _).mpr fun _ _ quotaMb hquota =>
    ⟨hword quotaMb hquota, .inr ((run_within h).repoCache quotaMb hquota)⟩

end AgentGrid.Node
