import AgentGrid.Foundation.Table
import AgentGrid.Foundation.Transition

/-!
# Lease ledgers

Holders take leases that are carried out on hosts.  A holder row shows the
state of its one live lease and points at it, and a host row counts the live
leases it carries.  The six moves below are the only ways the three tables
may change; `Sound` is what every sequence of moves preserves.

A live lease may be marked for recall.  `Withdrawn` says that a holder is not
up for another lease and that its live lease, if any, is marked; the moves
that `Honor` the mark keep it so.
-/

namespace AgentGrid.Foundation

structure Lease (κ σ : Type) where
  id : κ
  holder : κ
  host : κ
  state : σ

structure Holder (κ ρ : Type) where
  id : κ
  lease : Option κ
  state : ρ

structure Host (κ : Type) where
  id : κ
  used : Nat

structure Ledger (κ σ ρ : Type) where
  holders : List (Holder κ ρ)
  leases : List (Lease κ σ)
  hosts : List (Host κ)

/-- Which lease states are live or marked, what a holder shows while it has a
live lease, and from which states it may take one. -/
structure Discipline (σ ρ : Type) where
  live : σ → Bool
  marked : σ → Bool
  shows : σ → ρ
  busy : ρ → Bool
  ready : ρ → Bool
  busy_shows : ∀ s, live s = true → busy (shows s) = true
  ready_free : ∀ r, ready r = true → busy r = false

inductive Move (κ σ ρ : Type)
  | grant (lease : Lease κ σ)
  | advance (lease : Lease κ σ) (next : σ)
  | release (lease : Lease κ σ) (next : σ) (state : ρ)
  | settle (holder : κ) (state : ρ)
  | enter (holder : κ) (state : ρ)
  | enroll (host : κ)

variable {κ σ ρ : Type} [DecidableEq κ]

def Move.isGrant : Move κ σ ρ → Bool
  | .grant _ => true
  | _ => false

namespace Ledger

def setHolder (L : Ledger κ σ ρ) (k : κ) (lease : Option κ) (state : ρ) :
    List (Holder κ ρ) :=
  updateWhere (fun h => h.id == k)
    (fun h => { h with lease := lease, state := state }) L.holders

def setLease (L : Ledger κ σ ρ) (k : κ) (state : σ) : List (Lease κ σ) :=
  updateWhere (fun l => l.id == k) (fun l => { l with state := state }) L.leases

def setHost (L : Ledger κ σ ρ) (k : κ) (f : Nat → Nat) : List (Host κ) :=
  updateWhere (fun n => n.id == k) (fun n => { n with used := f n.used }) L.hosts

def apply (D : Discipline σ ρ) (L : Ledger κ σ ρ) : Move κ σ ρ → Ledger κ σ ρ
  | .grant l =>
      ⟨L.setHolder l.holder (some l.id) (D.shows l.state), L.leases ++ [l],
        L.setHost l.host (· + 1)⟩
  | .advance l next =>
      ⟨L.setHolder l.holder (some l.id) (D.shows next), L.setLease l.id next,
        L.hosts⟩
  | .release l next state =>
      ⟨L.setHolder l.holder none state, L.setLease l.id next,
        L.setHost l.host (· - 1)⟩
  | .settle h state => ⟨L.setHolder h none state, L.leases, L.hosts⟩
  | .enter h state => ⟨L.holders ++ [⟨h, none, state⟩], L.leases, L.hosts⟩
  | .enroll n => ⟨L.holders, L.leases, L.hosts ++ [⟨n, 0⟩]⟩

def Enabled (D : Discipline σ ρ) (L : Ledger κ σ ρ) : Move κ σ ρ → Prop
  | .grant l =>
      D.live l.state = true ∧ (∀ old ∈ L.leases, old.id ≠ l.id) ∧
        (∃ h ∈ L.holders, h.id = l.holder ∧ D.ready h.state = true) ∧
        ∃ n ∈ L.hosts, n.id = l.host
  | .advance l next =>
      l ∈ L.leases ∧ D.live l.state = true ∧ D.live next = true
  | .release l next state =>
      l ∈ L.leases ∧ D.live l.state = true ∧ D.live next = false ∧
        D.busy state = false
  | .settle k state =>
      D.busy state = false ∧ ∀ h ∈ L.holders, h.id = k → D.busy h.state = false
  | .enter k state => D.busy state = false ∧ ∀ h ∈ L.holders, h.id ≠ k
  | .enroll k => ∀ n ∈ L.hosts, n.id ≠ k

def carried (D : Discipline σ ρ) (leases : List (Lease κ σ)) (host : κ) : Nat :=
  leases.countP fun l => l.host == host && D.live l.state

structure Sound (D : Discipline σ ρ) (L : Ledger κ σ ρ) : Prop where
  holder_keys : (L.holders.map Holder.id).Nodup
  lease_keys : (L.leases.map Lease.id).Nodup
  host_keys : (L.hosts.map Host.id).Nodup
  held : ∀ l ∈ L.leases, ∃ h ∈ L.holders, h.id = l.holder
  hosted : ∀ l ∈ L.leases, ∃ n ∈ L.hosts, n.id = l.host
  live_shown : ∀ l ∈ L.leases, D.live l.state = true →
    ∀ h ∈ L.holders, h.id = l.holder →
      h.lease = some l.id ∧ h.state = D.shows l.state
  busy_live : ∀ h ∈ L.holders, D.busy h.state = true →
    ∃ l ∈ L.leases, l.holder = h.id ∧ D.live l.state = true
  idle_free : ∀ h ∈ L.holders, D.busy h.state = false → h.lease = none
  slots : ∀ n ∈ L.hosts, n.used = carried D L.leases n.id

section Tables

variable {D : Discipline σ ρ} {L : Ledger κ σ ρ}

theorem Sound.live_unique (hL : L.Sound D) {l l' : Lease κ σ}
    (hl : l ∈ L.leases) (hlive : D.live l.state = true)
    (hl' : l' ∈ L.leases) (hlive' : D.live l'.state = true)
    (hholder : l.holder = l'.holder) : l = l' := by
  obtain ⟨h, hh, hid⟩ := hL.held l hl
  have hptr := (hL.live_shown l hl hlive h hh hid).1
  have hptr' := (hL.live_shown l' hl' hlive' h hh (hid.trans hholder)).1
  apply row_unique hL.lease_keys hl hl'
  exact Option.some.inj (hptr.symm.trans hptr')

theorem mem_setHolder {k : κ} {lease : Option κ} {state : ρ} {h : Holder κ ρ} :
    h ∈ L.setHolder k lease state ↔
      (h ∈ L.holders ∧ h.id ≠ k) ∨
        (∃ old ∈ L.holders, old.id = k ∧ h = ⟨k, lease, state⟩) := by
  rw [setHolder, mem_updateWhere]
  constructor
  · rintro ⟨old, hold, heq⟩
    by_cases hk : old.id = k
    · exact .inr ⟨old, hold, hk, by simpa [hk] using heq.symm⟩
    · exact .inl (by simpa [hk, ← heq] using hold)
  · rintro (⟨hmem, hk⟩ | ⟨old, hold, hk, rfl⟩)
    · exact ⟨h, hmem, by simp [hk]⟩
    · exact ⟨old, hold, by simp [hk]⟩

theorem mem_setLease {k : κ} {state : σ} {l : Lease κ σ} :
    l ∈ L.setLease k state ↔
      (l ∈ L.leases ∧ l.id ≠ k) ∨
        (∃ old ∈ L.leases, old.id = k ∧ l = { old with state := state }) := by
  rw [setLease, mem_updateWhere]
  constructor
  · rintro ⟨old, hold, heq⟩
    by_cases hk : old.id = k
    · exact .inr ⟨old, hold, hk, by simpa [hk] using heq.symm⟩
    · exact .inl (by simpa [hk, ← heq] using hold)
  · rintro (⟨hmem, hk⟩ | ⟨old, hold, hk, rfl⟩)
    · exact ⟨l, hmem, by simp [hk]⟩
    · exact ⟨old, hold, by simp [hk]⟩

theorem mem_setHost {k : κ} {f : Nat → Nat} {n : Host κ} :
    n ∈ L.setHost k f ↔
      (n ∈ L.hosts ∧ n.id ≠ k) ∨
        (∃ old ∈ L.hosts, old.id = k ∧ n = ⟨k, f old.used⟩) := by
  rw [setHost, mem_updateWhere]
  constructor
  · rintro ⟨old, hold, heq⟩
    by_cases hk : old.id = k
    · exact .inr ⟨old, hold, hk, by simpa [hk] using heq.symm⟩
    · exact .inl (by simpa [hk, ← heq] using hold)
  · rintro (⟨hmem, hk⟩ | ⟨old, hold, hk, rfl⟩)
    · exact ⟨n, hmem, by simp [hk]⟩
    · exact ⟨old, hold, by simp [hk]⟩

@[simp] theorem setHolder_ids (k : κ) (lease : Option κ) (state : ρ) :
    (L.setHolder k lease state).map Holder.id = L.holders.map Holder.id := by
  apply map_updateWhere_of_key
  intro row
  rfl

@[simp] theorem setLease_ids (k : κ) (state : σ) :
    (L.setLease k state).map Lease.id = L.leases.map Lease.id := by
  apply map_updateWhere_of_key
  intro row
  rfl

@[simp] theorem setHost_ids (k : κ) (f : Nat → Nat) :
    (L.setHost k f).map Host.id = L.hosts.map Host.id := by
  apply map_updateWhere_of_key
  intro row
  rfl

/-- Changing the state of one lease moves the count of its own host alone. -/
theorem carried_setLease (D : Discipline σ ρ) (hkeys : (L.leases.map Lease.id).Nodup)
    {l : Lease κ σ} (hl : l ∈ L.leases) (next : σ) (host : κ) :
    carried D (L.setLease l.id next) host +
        (if l.host == host && D.live l.state then 1 else 0) =
      carried D L.leases host +
        (if l.host == host && D.live next then 1 else 0) :=
  countP_updateWhere_key hkeys hl (fun row => { row with state := next })
    fun row => row.host == host && D.live row.state

end Tables

section Preservation

variable {D : Discipline σ ρ} {L : Ledger κ σ ρ}

private theorem nodup_snoc {α : Type} {keys : List α} {k : α}
    (hkeys : keys.Nodup) (hk : k ∉ keys) : (keys ++ [k]).Nodup := by
  rw [List.nodup_append]
  refine ⟨hkeys, List.nodup_singleton k, ?_⟩
  intro a ha b hb hab
  rw [List.mem_singleton.mp hb] at hab
  exact hk (hab ▸ ha)

theorem Sound.grant (hL : L.Sound D) {l : Lease κ σ}
    (h : L.Enabled D (.grant l)) : (L.apply D (.grant l)).Sound D := by
  obtain ⟨hlive, hfresh, ⟨taker, htaker, htakerId, hready⟩, host, hhost, hhostId⟩ := h
  have hfree := D.ready_free _ hready
  have hnone : ∀ old ∈ L.leases, old.holder = l.holder → D.live old.state = false := by
    intro old hold hholder
    by_contra hne
    have holdLive : D.live old.state = true := by simpa using hne
    have hshown := hL.live_shown old hold holdLive taker htaker
      (htakerId.trans hholder.symm)
    rw [hshown.2, D.busy_shows _ holdLive] at hfree
    cases hfree
  have hcarried : ∀ k, carried D (L.leases ++ [l]) k =
      carried D L.leases k + if l.host = k then 1 else 0 := by
    intro k
    simp [carried, List.countP_append, List.countP_singleton, hlive]
  constructor
  · simpa [apply] using hL.holder_keys
  · rw [apply, List.map_append]
    refine nodup_snoc hL.lease_keys ?_
    rw [List.mem_map]
    rintro ⟨old, hold, hid⟩
    exact hfresh old hold hid
  · simpa [apply] using hL.host_keys
  · intro row hrow
    have hids : row.holder ∈ (L.setHolder l.holder (some l.id) (D.shows l.state)).map
        Holder.id := by
      rw [setHolder_ids, List.mem_map]
      rcases List.mem_append.mp hrow with hold | hnew
      · exact hL.held row hold
      · rw [List.mem_singleton.mp hnew]
        exact ⟨taker, htaker, htakerId⟩
    exact List.mem_map.mp hids
  · intro row hrow
    have hids : row.host ∈ (L.setHost l.host (· + 1)).map Host.id := by
      rw [setHost_ids, List.mem_map]
      rcases List.mem_append.mp hrow with hold | hnew
      · exact hL.hosted row hold
      · rw [List.mem_singleton.mp hnew]
        exact ⟨host, hhost, hhostId⟩
    exact List.mem_map.mp hids
  · intro row hrow hrowLive h hh hid
    rcases mem_setHolder.mp hh with ⟨hmem, hne⟩ | ⟨_, _, _, rfl⟩
    · rcases List.mem_append.mp hrow with hold | hnew
      · exact hL.live_shown row hold hrowLive h hmem hid
      · rw [List.mem_singleton.mp hnew] at hid
        exact absurd hid hne
    · rcases List.mem_append.mp hrow with hold | hnew
      · have hdead := hnone row hold hid.symm
        rw [hrowLive] at hdead
        cases hdead
      · rw [List.mem_singleton.mp hnew]
        exact ⟨rfl, rfl⟩
  · intro h hh hbusy
    rcases mem_setHolder.mp hh with ⟨hmem, _⟩ | ⟨_, _, _, rfl⟩
    · obtain ⟨row, hrow, hrest⟩ := hL.busy_live h hmem hbusy
      exact ⟨row, List.mem_append_left _ hrow, hrest⟩
    · exact ⟨l, List.mem_append_right _ (List.mem_singleton_self l), rfl, hlive⟩
  · intro h hh hidle
    rcases mem_setHolder.mp hh with ⟨hmem, _⟩ | ⟨_, _, _, rfl⟩
    · exact hL.idle_free h hmem hidle
    · rw [D.busy_shows _ hlive] at hidle
      cases hidle
  · intro n hn
    change n.used = carried D (L.leases ++ [l]) n.id
    rw [hcarried]
    rcases mem_setHost.mp hn with ⟨hmem, hne⟩ | ⟨old, hold, hid, rfl⟩
    · simpa [Ne.symm hne] using hL.slots n hmem
    · simpa [hid] using hL.slots old hold

/-- One lease changes its state and its holder follows. -/
private theorem Sound.replace (hL : L.Sound D) {l : Lease κ σ} (hl : l ∈ L.leases)
    (hlive : D.live l.state = true) {next : σ} {lease : Option κ} {state : ρ}
    (hshown : D.live next = true → lease = some l.id ∧ state = D.shows next)
    (hidle : D.live next = false → lease = none ∧ D.busy state = false)
    (hosts : List (Host κ)) (hids : hosts.map Host.id = L.hosts.map Host.id)
    (hslots : ∀ n ∈ hosts, n.used = carried D (L.setLease l.id next) n.id) :
    Sound D ⟨L.setHolder l.holder lease state, L.setLease l.id next, hosts⟩ := by
  have hbusy : D.busy state = D.live next := by
    cases hnext : D.live next with
    | false => exact (hidle hnext).2
    | true => rw [(hshown hnext).2, D.busy_shows _ hnext]
  constructor
  · simpa using hL.holder_keys
  · simpa using hL.lease_keys
  · rw [hids]
    exact hL.host_keys
  · intro row hrow
    have hmem : row.holder ∈ (L.setHolder l.holder lease state).map Holder.id := by
      rw [setHolder_ids, List.mem_map]
      rcases mem_setLease.mp hrow with ⟨hold, _⟩ | ⟨old, hold, _, rfl⟩
      · exact hL.held row hold
      · exact hL.held old hold
    exact List.mem_map.mp hmem
  · intro row hrow
    have hmem : row.host ∈ hosts.map Host.id := by
      rw [hids, List.mem_map]
      rcases mem_setLease.mp hrow with ⟨hold, _⟩ | ⟨old, hold, _, rfl⟩
      · exact hL.hosted row hold
      · exact hL.hosted old hold
    exact List.mem_map.mp hmem
  · intro row hrow hrowLive h hh hid
    rcases mem_setLease.mp hrow with ⟨hold, hne⟩ | ⟨old, hold, hoid, rfl⟩
    · rcases mem_setHolder.mp hh with ⟨hmem, _⟩ | ⟨_, _, _, rfl⟩
      · exact hL.live_shown row hold hrowLive h hmem hid
      · exact absurd (congrArg Lease.id
          (hL.live_unique hold hrowLive hl hlive hid.symm)) hne
    · rw [row_unique hL.lease_keys hold hl hoid] at hid ⊢
      rcases mem_setHolder.mp hh with ⟨_, hne⟩ | ⟨_, _, _, rfl⟩
      · exact absurd hid hne
      · exact hshown hrowLive
  · intro h hh hhBusy
    rcases mem_setHolder.mp hh with ⟨hmem, hne⟩ | ⟨_, _, _, rfl⟩
    · obtain ⟨row, hrow, hholder, hrowLive⟩ := hL.busy_live h hmem hhBusy
      refine ⟨row, mem_setLease.mpr (.inl ⟨hrow, ?_⟩), hholder, hrowLive⟩
      intro hid
      rw [row_unique hL.lease_keys hrow hl hid] at hholder
      exact hne hholder.symm
    · exact ⟨{ l with state := next }, mem_setLease.mpr (.inr ⟨l, hl, rfl, rfl⟩),
        rfl, hbusy.symm.trans hhBusy⟩
  · intro h hh hhIdle
    rcases mem_setHolder.mp hh with ⟨hmem, _⟩ | ⟨_, _, _, rfl⟩
    · exact hL.idle_free h hmem hhIdle
    · exact (hidle (hbusy.symm.trans hhIdle)).1
  · exact hslots

theorem Sound.advance (hL : L.Sound D) {l : Lease κ σ} {next : σ}
    (h : L.Enabled D (.advance l next)) :
    (L.apply D (.advance l next)).Sound D := by
  obtain ⟨hl, hlive, hnext⟩ := h
  refine hL.replace hl hlive (fun _ => ⟨rfl, rfl⟩) (by simp [hnext]) _ rfl ?_
  intro n hn
  have hcount := carried_setLease D hL.lease_keys hl next n.id
  have hslots := hL.slots n hn
  simp only [hlive, hnext] at hcount
  omega

theorem Sound.release (hL : L.Sound D) {l : Lease κ σ} {next : σ} {state : ρ}
    (h : L.Enabled D (.release l next state)) :
    (L.apply D (.release l next state)).Sound D := by
  obtain ⟨hl, hlive, hnext, hstate⟩ := h
  refine hL.replace hl hlive (by simp [hnext]) (fun _ => ⟨rfl, hstate⟩) _
    (setHost_ids _ _) ?_
  intro n hn
  have hcount := carried_setLease D hL.lease_keys hl next n.id
  simp only [hlive, hnext, Bool.and_true, Bool.and_false, beq_iff_eq] at hcount
  rcases mem_setHost.mp hn with ⟨hmem, hne⟩ | ⟨old, hold, hid, rfl⟩
  · have hslots := hL.slots n hmem
    simpa [hslots, Ne.symm hne] using hcount.symm
  · have hslots := hL.slots old hold
    rw [hid] at hslots
    simp only [if_true] at hcount
    change old.used - 1 = carried D (L.setLease l.id next) l.host
    simp at hcount
    omega

theorem Sound.settle (hL : L.Sound D) {k : κ} {state : ρ}
    (h : L.Enabled D (.settle k state)) : (L.apply D (.settle k state)).Sound D := by
  obtain ⟨hstate, hfree⟩ := h
  have hnot : ∀ row ∈ L.leases, D.live row.state = true → row.holder ≠ k := by
    intro row hrow hrowLive hk
    obtain ⟨h, hh, hid⟩ := hL.held row hrow
    have hbusy := hfree h hh (hid.trans hk)
    rw [(hL.live_shown row hrow hrowLive h hh hid).2, D.busy_shows _ hrowLive] at hbusy
    cases hbusy
  refine ⟨by simpa [apply] using hL.holder_keys, hL.lease_keys, hL.host_keys, ?_,
    hL.hosted, ?_, ?_, ?_, hL.slots⟩
  · intro row hrow
    have hmem : row.holder ∈ (L.setHolder k none state).map Holder.id := by
      rw [setHolder_ids, List.mem_map]
      exact hL.held row hrow
    exact List.mem_map.mp hmem
  · intro row hrow hrowLive h hh hid
    rcases mem_setHolder.mp hh with ⟨hmem, _⟩ | ⟨_, _, _, rfl⟩
    · exact hL.live_shown row hrow hrowLive h hmem hid
    · exact absurd hid.symm (hnot row hrow hrowLive)
  · intro h hh hbusy
    rcases mem_setHolder.mp hh with ⟨hmem, _⟩ | ⟨_, _, _, rfl⟩
    · exact hL.busy_live h hmem hbusy
    · rw [hstate] at hbusy
      cases hbusy
  · intro h hh hidle
    rcases mem_setHolder.mp hh with ⟨hmem, _⟩ | ⟨_, _, _, rfl⟩
    · exact hL.idle_free h hmem hidle
    · rfl

theorem Sound.enter (hL : L.Sound D) {k : κ} {state : ρ}
    (h : L.Enabled D (.enter k state)) : (L.apply D (.enter k state)).Sound D := by
  obtain ⟨hstate, hfresh⟩ := h
  refine ⟨?_, hL.lease_keys, hL.host_keys, ?_, hL.hosted, ?_, ?_, ?_, hL.slots⟩
  · rw [apply, List.map_append]
    refine nodup_snoc hL.holder_keys ?_
    rw [List.mem_map]
    rintro ⟨old, hold, hid⟩
    exact hfresh old hold hid
  · intro row hrow
    obtain ⟨h, hh, hid⟩ := hL.held row hrow
    exact ⟨h, List.mem_append_left _ hh, hid⟩
  · intro row hrow hrowLive h hh hid
    rcases List.mem_append.mp hh with hold | hnew
    · exact hL.live_shown row hrow hrowLive h hold hid
    · obtain ⟨old, hold, hoid⟩ := hL.held row hrow
      rw [List.mem_singleton.mp hnew] at hid
      exact absurd (hoid.trans hid.symm) (hfresh old hold)
  · intro h hh hbusy
    rcases List.mem_append.mp hh with hold | hnew
    · exact hL.busy_live h hold hbusy
    · rw [List.mem_singleton.mp hnew, hstate] at hbusy
      cases hbusy
  · intro h hh hidle
    rcases List.mem_append.mp hh with hold | hnew
    · exact hL.idle_free h hold hidle
    · rw [List.mem_singleton.mp hnew]

theorem Sound.enroll (hL : L.Sound D) {k : κ}
    (h : L.Enabled D (.enroll k)) : (L.apply D (.enroll k)).Sound D := by
  refine ⟨hL.holder_keys, hL.lease_keys, ?_, hL.held, ?_, hL.live_shown,
    hL.busy_live, hL.idle_free, ?_⟩
  · rw [apply, List.map_append]
    refine nodup_snoc hL.host_keys ?_
    rw [List.mem_map]
    rintro ⟨old, hold, hid⟩
    exact h old hold hid
  · intro row hrow
    obtain ⟨n, hn, hid⟩ := hL.hosted row hrow
    exact ⟨n, List.mem_append_left _ hn, hid⟩
  · intro n hn
    rcases List.mem_append.mp hn with hold | hnew
    · exact hL.slots n hold
    · rw [List.mem_singleton.mp hnew]
      symm
      change carried D L.leases k = 0
      rw [carried, List.countP_eq_zero]
      intro row hrow
      obtain ⟨n, hn, hid⟩ := hL.hosted row hrow
      have hne := h n hn
      simp [← hid, hne]

theorem Sound.apply (hL : L.Sound D) {m : Move κ σ ρ} (h : L.Enabled D m) :
    (L.apply D m).Sound D := by
  cases m with
  | grant => exact hL.grant h
  | advance => exact hL.advance h
  | release => exact hL.release h
  | settle => exact hL.settle h
  | enter => exact hL.enter h
  | enroll => exact hL.enroll h

end Preservation

/-- Sequences of moves, each enabled where it is made. -/
def Moves (D : Discipline σ ρ) :
    Ledger κ σ ρ → List (Move κ σ ρ) → Ledger κ σ ρ → Prop :=
  Runs fun L m L' => L.Enabled D m ∧ L' = L.apply D m

section Sequences

variable {D : Discipline σ ρ} {L L' L'' : Ledger κ σ ρ} {ms ns : List (Move κ σ ρ)}

theorem Moves.none (D : Discipline σ ρ) (L : Ledger κ σ ρ) : Moves D L [] L :=
  Runs.refl L

theorem Moves.one {m : Move κ σ ρ} (h : L.Enabled D m) :
    Moves D L [m] (L.apply D m) :=
  Runs.single ⟨h, rfl⟩

theorem Moves.sound (h : Moves D L ms L') (hL : L.Sound D) : L'.Sound D := by
  refine Runs.invariant _ ?_ h hL
  rintro M m M' hM ⟨henabled, rfl⟩
  exact hM.apply henabled

/-- A lease that is no longer live stays as it is. -/
theorem dead_apply (hL : L.Sound D) {m : Move κ σ ρ} (h : L.Enabled D m)
    {l : Lease κ σ} (hl : l ∈ L.leases) (hdead : D.live l.state = false) :
    l ∈ (L.apply D m).leases := by
  have hkeep : ∀ {row : Lease κ σ} {next : σ}, row ∈ L.leases →
      D.live row.state = true → l ∈ L.setLease row.id next := by
    intro row next hrow hlive
    refine mem_setLease.mpr (.inl ⟨hl, ?_⟩)
    intro hid
    rw [row_unique hL.lease_keys hl hrow hid, hlive] at hdead
    cases hdead
  cases m with
  | grant => exact List.mem_append_left _ hl
  | advance row next => exact hkeep h.1 h.2.1
  | release row next state => exact hkeep h.1 h.2.1
  | settle => exact hl
  | enter => exact hl
  | enroll => exact hl

theorem Moves.dead (h : Moves D L ms L') (hL : L.Sound D) {l : Lease κ σ}
    (hl : l ∈ L.leases) (hdead : D.live l.state = false) : l ∈ L'.leases := by
  refine (Runs.invariant (fun M => M.Sound D ∧ l ∈ M.leases) ?_ h
    ⟨hL, hl⟩).2
  rintro M m M' ⟨hM, hmem⟩ ⟨henabled, rfl⟩
  exact ⟨hM.apply henabled, dead_apply hM henabled hmem hdead⟩

/-- Only a grant takes a slot. -/
theorem used_apply {bound : Nat} (hL : ∀ n ∈ L.hosts, n.used ≤ bound)
    {m : Move κ σ ρ} (hm : m.isGrant = false) :
    ∀ n ∈ (L.apply D m).hosts, n.used ≤ bound := by
  cases m with
  | grant => cases hm
  | release l next state =>
      intro n hn
      change n ∈ L.setHost l.host (· - 1) at hn
      rcases mem_setHost.mp hn with ⟨hmem, _⟩ | ⟨old, hold, _, rfl⟩
      · exact hL n hmem
      · exact Nat.le_trans (Nat.sub_le old.used 1) (hL old hold)
  | enroll k =>
      intro n hn
      rcases List.mem_append.mp hn with hold | hnew
      · exact hL n hold
      · rw [List.mem_singleton.mp hnew]
        exact Nat.zero_le bound
  | advance => exact hL
  | settle => exact hL
  | enter => exact hL

theorem Moves.used {bound : Nat} (h : Moves D L ms L')
    (hms : ∀ m ∈ ms, m.isGrant = false) (hL : ∀ n ∈ L.hosts, n.used ≤ bound) :
    ∀ n ∈ L'.hosts, n.used ≤ bound := by
  induction h with
  | refl => exact hL
  | next hstep _ ih =>
      obtain ⟨_, rfl⟩ := hstep
      exact ih (fun m hm => hms m (List.mem_cons_of_mem _ hm))
        (used_apply hL (hms _ (List.mem_cons_self ..)))

end Sequences

section Recall

variable {D : Discipline σ ρ} {L L' : Ledger κ σ ρ} {ms : List (Move κ σ ρ)}

structure Withdrawn (D : Discipline σ ρ) (k : κ) (L : Ledger κ σ ρ) : Prop where
  known : ∃ h ∈ L.holders, h.id = k
  unready : ∀ h ∈ L.holders, h.id = k → D.ready h.state = false
  recalled : ∀ l ∈ L.leases, l.holder = k → D.live l.state = true →
    D.marked l.state = true

/-- The move does not put `k` up for another lease while its lease is marked,
and it takes no mark away. -/
def Honors (D : Discipline σ ρ) (k : κ) : Move κ σ ρ → Prop
  | .grant _ => True
  | .advance l next =>
      l.holder = k → D.marked l.state = true → D.marked next = true
  | .release l _ state =>
      l.holder = k → D.marked l.state = true → D.ready state = false
  | .settle h state => h = k → D.ready state = false
  | .enter _ _ => True
  | .enroll _ => True

def leasesOf (k : κ) (L : Ledger κ σ ρ) : List κ :=
  (L.leases.filter fun l => l.holder == k).map Lease.id

private theorem leasesOf_setLease (k id : κ) (next : σ) :
    ((L.setLease id next).filter fun l => l.holder == k).map Lease.id =
      L.leasesOf k := by
  rw [leasesOf, setLease, updateWhere, List.filter_map, List.map_map]
  have hsame : (fun l : Lease κ σ => l.holder == k) ∘
      (fun row : Lease κ σ => if row.id == id then { row with state := next } else row) =
      fun l => l.holder == k := by
    funext row
    by_cases hid : row.id = id <;> simp [hid]
  rw [hsame]
  apply List.map_congr_left
  intro row _
  by_cases hid : row.id = id <;> simp [hid]

theorem Withdrawn.apply {k : κ} (hk : L.Withdrawn D k) (hL : L.Sound D)
    {m : Move κ σ ρ} (h : L.Enabled D m) (hhonors : Honors D k m) :
    (L.apply D m).Withdrawn D k ∧ (L.apply D m).leasesOf k = L.leasesOf k := by
  obtain ⟨holder, hholder, hid⟩ := hk.known
  have hknown : ∀ {id : κ} {lease : Option κ} {state : ρ},
      ∃ row ∈ L.setHolder id lease state, row.id = k := by
    intro id lease state
    have hmem : k ∈ (L.setHolder id lease state).map Holder.id := by
      rw [setHolder_ids, List.mem_map]
      exact ⟨holder, hholder, hid⟩
    exact List.mem_map.mp hmem
  cases m with
  | grant l =>
      have hne : l.holder ≠ k := by
        intro hl
        obtain ⟨_, _, ⟨taker, htaker, htakerId, hready⟩, _⟩ := h
        have hunready := hk.unready taker htaker (htakerId.trans hl)
        rw [hready] at hunready
        cases hunready
      refine ⟨⟨hknown, ?_, ?_⟩, ?_⟩
      · intro row hrow hrowId
        rcases mem_setHolder.mp hrow with ⟨hold, _⟩ | ⟨_, _, _, rfl⟩
        · exact hk.unready row hold hrowId
        · exact absurd hrowId hne
      · intro row hrow hrowHolder hlive
        rcases List.mem_append.mp hrow with hold | hnew
        · exact hk.recalled row hold hrowHolder hlive
        · rw [List.mem_singleton.mp hnew] at hrowHolder
          exact absurd hrowHolder hne
      · change ((L.leases ++ [l]).filter fun row => row.holder == k).map Lease.id = _
        simp [List.filter_append, hne, leasesOf]
  | advance l next =>
      obtain ⟨hl, hlive, hnext⟩ := h
      refine ⟨⟨hknown, ?_, ?_⟩, leasesOf_setLease k l.id next⟩
      · intro row hrow hrowId
        rcases mem_setHolder.mp hrow with ⟨hold, _⟩ | ⟨_, _, _, rfl⟩
        · exact hk.unready row hold hrowId
        · by_contra hready
          have hfree := D.ready_free _ (by simpa using hready)
          rw [D.busy_shows _ hnext] at hfree
          cases hfree
      · intro row hrow hrowHolder hrowLive
        rcases mem_setLease.mp hrow with ⟨hold, _⟩ | ⟨old, hold, hoid, rfl⟩
        · exact hk.recalled row hold hrowHolder hrowLive
        · obtain rfl := row_unique hL.lease_keys hold hl hoid
          exact hhonors hrowHolder (hk.recalled old hold hrowHolder hlive)
  | release l next state =>
      obtain ⟨hl, hlive, hnext, _⟩ := h
      refine ⟨⟨hknown, ?_, ?_⟩, leasesOf_setLease k l.id next⟩
      · intro row hrow hrowId
        rcases mem_setHolder.mp hrow with ⟨hold, _⟩ | ⟨_, _, _, rfl⟩
        · exact hk.unready row hold hrowId
        · exact hhonors hrowId (hk.recalled l hl hrowId hlive)
      · intro row hrow hrowHolder hrowLive
        rcases mem_setLease.mp hrow with ⟨hold, _⟩ | ⟨old, hold, hoid, rfl⟩
        · exact hk.recalled row hold hrowHolder hrowLive
        · rw [hnext] at hrowLive
          cases hrowLive
  | settle id state =>
      refine ⟨⟨hknown, ?_, hk.recalled⟩, rfl⟩
      intro row hrow hrowId
      rcases mem_setHolder.mp hrow with ⟨hold, _⟩ | ⟨_, _, _, rfl⟩
      · exact hk.unready row hold hrowId
      · exact hhonors hrowId
  | enter id state =>
      refine ⟨⟨⟨holder, List.mem_append_left _ hholder, hid⟩, ?_, hk.recalled⟩, rfl⟩
      intro row hrow hrowId
      rcases List.mem_append.mp hrow with hold | hnew
      · exact hk.unready row hold hrowId
      · rw [List.mem_singleton.mp hnew] at hrowId
        exact absurd (hid.trans hrowId.symm) (h.2 holder hholder)
  | enroll => exact ⟨⟨hk.known, hk.unready, hk.recalled⟩, rfl⟩

theorem Moves.withdrawn {k : κ} (h : Moves D L ms L')
    (hhonors : ∀ m ∈ ms, Honors D k m) (hL : L.Sound D) (hk : L.Withdrawn D k) :
    L'.Withdrawn D k ∧ L'.leasesOf k = L.leasesOf k := by
  induction h with
  | refl => exact ⟨hk, rfl⟩
  | next hstep _ ih =>
      obtain ⟨henabled, rfl⟩ := hstep
      have hfirst := hk.apply hL henabled (hhonors _ (List.mem_cons_self ..))
      have hrest := ih (fun m hm => hhonors m (List.mem_cons_of_mem _ hm))
        (hL.apply henabled) hfirst.1
      exact ⟨hrest.1, hrest.2.trans hfirst.2⟩

/-- A holder that is neither up for a lease nor shows one. -/
def Retired (D : Discipline σ ρ) (k : κ) (L : Ledger κ σ ρ) : Prop :=
  ∃ h ∈ L.holders, h.id = k ∧ D.ready h.state = false ∧ D.busy h.state = false

theorem Retired.apply {k : κ} (hk : L.Retired D k) (hL : L.Sound D) {m : Move κ σ ρ}
    (h : L.Enabled D m) (hhonors : Honors D k m) : (L.apply D m).Retired D k := by
  obtain ⟨holder, hholder, hid, hready, hbusy⟩ := hk
  have hkeep : ∀ {id : κ} {lease : Option κ} {state : ρ}, id ≠ k →
      ∃ row ∈ L.setHolder id lease state,
        row.id = k ∧ D.ready row.state = false ∧ D.busy row.state = false := by
    intro id lease state hne
    exact ⟨holder, mem_setHolder.mpr (.inl ⟨hholder, fun hsame => hne (hsame.symm.trans hid)⟩),
      hid, hready, hbusy⟩
  have hlive : ∀ {l : Lease κ σ}, l ∈ L.leases → D.live l.state = true → l.holder ≠ k := by
    intro l hl hstate hsame
    have hshows := (hL.live_shown l hl hstate holder hholder (hid.trans hsame.symm)).2
    rw [hshows, D.busy_shows _ hstate] at hbusy
    cases hbusy
  cases m with
  | grant l =>
      refine hkeep fun hsame => ?_
      obtain ⟨_, _, ⟨taker, htaker, htakerId, htakes⟩, _⟩ := h
      obtain rfl := row_unique hL.holder_keys htaker hholder
        (htakerId.trans (hsame.trans hid.symm))
      rw [hready] at htakes
      cases htakes
  | advance l next => exact hkeep (hlive h.1 h.2.1)
  | release l next state => exact hkeep (hlive h.1 h.2.1)
  | settle id state =>
      by_cases hsame : id = k
      · exact ⟨⟨id, none, state⟩,
          mem_setHolder.mpr (.inr ⟨holder, hholder, hid.trans hsame.symm, rfl⟩), hsame,
          hhonors hsame, h.1⟩
      · exact hkeep hsame
  | enter id state =>
      exact ⟨holder, List.mem_append_left _ hholder, hid, hready, hbusy⟩
  | enroll id => exact ⟨holder, hholder, hid, hready, hbusy⟩

theorem Moves.retired {k : κ} (h : Moves D L ms L') (hhonors : ∀ m ∈ ms, Honors D k m)
    (hL : L.Sound D) (hk : L.Retired D k) : L'.Retired D k := by
  induction h with
  | refl => exact hk
  | next hstep _ ih =>
      obtain ⟨henabled, rfl⟩ := hstep
      exact ih (fun m hm => hhonors m (List.mem_cons_of_mem _ hm)) (hL.apply henabled)
        (hk.apply hL henabled (hhonors _ (List.mem_cons_self ..)))

end Recall

end Ledger

end AgentGrid.Foundation
