import AgentGrid.Node.FetchCohort
import Mathlib.Data.List.Nodup
import Mathlib.Algebra.Ring.Nat

/-!
# The cohort is safe

A mirror has one leader, a follower is sent the outcome of its flight, and a
prepare that skips the fetch stands on one that was recorded after it joined, or
in the window before.
-/

namespace AgentGrid.Node.Cohort

open AgentGrid.Foundation

/-! ## Flights and their leaders -/

structure Registry (S : Cohorts) : Prop where
  bound : ∀ f F, S.flight f = some F → f < S.nextFlight
  current : ∀ key f, S.current key = some f ↔
    ∃ F, S.flight f = some F ∧ F.key = key ∧ F.stage.registered = true
  leads : ∀ id p f, S.prepares id = some p → p.phase = .leading f → f < S.nextFlight
  unique : ∀ id id' p p' f, S.prepares id = some p → S.prepares id' = some p' →
    p.phase = .leading f → p'.phase = .leading f → id = id'

section Registry

variable {S : Cohorts}

theorem Registry.setPrepare (hS : Registry S) (id : Nat) {p : Prepare}
    (hp : ∀ f, p.phase ≠ .leading f) : Registry (S.setPrepare id p) := by
  have hold : ∀ {k q f}, (S.setPrepare id p).prepares k = some q → q.phase = .leading f →
      S.prepares k = some q := by
    intro k q f hq hphase
    rw [Cohorts.setPrepare_prepares] at hq
    split at hq
    · cases hq
      exact absurd hphase (hp f)
    · exact hq
  refine ⟨hS.bound, hS.current, fun k q f hq hphase => ?_, fun k k' q q' f hq hq' hphase hphase' => ?_⟩
  · exact hS.leads k q f (hold hq hphase) hphase
  · exact hS.unique k k' q q' f (hold hq hphase) (hold hq' hphase') hphase hphase'

theorem Registry.setFlight (hS : Registry S) {f : Nat} {F F' : Flight} (hF : S.flight f = some F)
    (hkey : F'.key = F.key) (hregistered : F'.stage.registered = F.stage.registered) :
    Registry (S.setFlight f F') := by
  refine ⟨fun g G hG => ?_, fun key g => ?_, hS.leads, hS.unique⟩
  · rw [Cohorts.setFlight_flight] at hG
    split at hG
    · rename_i hg
      exact hg ▸ hS.bound f F hF
    · exact hS.bound g G hG
  · refine (hS.current key g).trans ?_
    rw [Cohorts.setFlight_flight]
    split
    · rename_i hg
      subst hg
      simp only [hF, Option.some.injEq, exists_eq_left', hkey, hregistered]
    · rfl

theorem Registry.remove (hS : Registry S) {f : Nat} {F F' : Flight} (hF : S.flight f = some F)
    (hregistered : F.stage.registered = true) (hremoved : F'.stage.registered = false) :
    Registry { S.setFlight f F' with
      current := if S.current F.key = some f then Function.update S.current F.key none
        else S.current } := by
  have hcurrent : S.current F.key = some f := (hS.current F.key f).mpr ⟨F, hF, rfl, hregistered⟩
  rw [if_pos hcurrent]
  refine ⟨fun g G hG => ?_, fun key g => ?_, hS.leads, hS.unique⟩
  · simp only [Cohorts.setFlight_flight] at hG
    split at hG
    · rename_i hg
      exact hg ▸ hS.bound f F hF
    · exact hS.bound g G hG
  · simp only [Cohorts.setFlight_flight, Function.update_apply]
    by_cases hg : g = f
    · subst hg
      simp only [if_pos, Option.some.injEq, exists_eq_left', hremoved, Bool.false_eq_true, and_false,
        iff_false]
      split
      · exact nofun
      · rename_i hkey
        intro hother
        obtain ⟨G, hG, hGkey, -⟩ := (hS.current key g).mp hother
        rw [hF] at hG
        cases hG
        exact hkey hGkey.symm
    · rw [if_neg hg]
      split
      · rename_i hkey
        subst hkey
        refine ⟨nofun, fun hother => ?_⟩
        have hsame := (hS.current F.key g).mpr hother
        rw [hcurrent, Option.some.injEq] at hsame
        exact absurd hsame.symm hg
      · exact hS.current key g

theorem Registry.lead (hS : Registry S) {id : Nat} {p : Prepare} (hnone : S.current p.key = none)
    (joinedAfter : Nat) :
    Registry { (S.setFlight S.nextFlight { key := p.key }).setPrepare id
        ⟨p.key, .leading S.nextFlight, p.joinedAt, joinedAfter⟩ with
      current := Function.update S.current p.key (some S.nextFlight)
      nextFlight := S.nextFlight + 1 } := by
  have hfresh : S.flight S.nextFlight = none := by
    cases hF : S.flight S.nextFlight with
    | none => rfl
    | some F => exact absurd (hS.bound _ F hF) (Nat.lt_irrefl _)
  refine ⟨fun g G hG => ?_, fun key g => ?_, fun k q f hq hphase => ?_,
    fun k k' q q' f hq hq' hphase hphase' => ?_⟩
  · simp only [Cohorts.setPrepare_flight, Cohorts.setFlight_flight] at hG
    split at hG
    · rename_i hg
      exact hg ▸ Nat.lt_succ_self _
    · exact Nat.lt_succ_of_lt (hS.bound g G hG)
  · simp only [Cohorts.setPrepare_flight, Cohorts.setFlight_flight, Function.update_apply]
    by_cases hg : g = S.nextFlight
    · subst hg
      simp only [if_pos, Option.some.injEq, exists_eq_left', Stage.registered, and_true]
      split
      · rename_i hkey
        exact iff_of_true rfl hkey.symm
      · rename_i hkey
        refine iff_of_false (fun hother => ?_) (Ne.symm hkey)
        obtain ⟨G, hG, -⟩ := (hS.current key _).mp hother
        rw [hfresh] at hG
        cases hG
    · rw [if_neg hg]
      split
      · rename_i hkey
        subst hkey
        refine iff_of_false (fun hsame => hg (Option.some.inj hsame).symm) fun hother => ?_
        rw [(hS.current p.key g).mpr hother] at hnone
        cases hnone
      · exact hS.current key g
  · simp only [Cohorts.setPrepare_prepares, Cohorts.setFlight_prepares] at hq
    split at hq
    · cases hq
      cases hphase
      exact Nat.lt_succ_self _
    · exact Nat.lt_succ_of_lt (hS.leads k q f hq hphase)
  · simp only [Cohorts.setPrepare_prepares, Cohorts.setFlight_prepares] at hq hq'
    split at hq <;> split at hq'
    · rename_i hk hk'
      exact hk.trans hk'.symm
    · cases hq
      cases hphase
      exact absurd (hS.leads k' q' _ hq' hphase') (Nat.lt_irrefl _)
    · cases hq'
      cases hphase'
      exact absurd (hS.leads k q _ hq hphase) (Nat.lt_irrefl _)
    · exact hS.unique k k' q q' f hq hq' hphase hphase'

theorem Registry.change {windowSecs : Nat} {S' : Cohorts} (hS : Registry S)
    (h : Change windowSecs S S') : Registry S' := by
  cases h with
  | @joined id key hnew phase hphase =>
      refine hS.setPrepare id fun f => ?_
      rcases hphase with rfl | ⟨rfl, -⟩ <;> exact nofun
  | led hp hjoining hnone => exact hS.lead hnone _
  | @followed id f p F hp hjoining hcurrent hF =>
      have hmoved : Registry (S.setFlight f { F with waiters := F.waiters ++ [id] }) :=
        hS.setFlight hF rfl rfl
      exact hmoved.setPrepare id fun _ hphase => by cases hphase
  | finished hF hstage o =>
      refine hS.setFlight hF rfl ?_
      rw [hstage]
      rfl
  | removed hF hstage =>
      refine hS.remove hF ?_ rfl
      rw [hstage]
      rfl
  | @recordedOk f F hF hstage =>
      have hmoved : Registry (S.setFlight f { F with stage := .draining .ok }) :=
        hS.setFlight hF rfl
        (by rw [hstage]; rfl)
      exact ⟨hmoved.bound, hmoved.current, hmoved.leads, hmoved.unique⟩
  | recordedErr hF hstage =>
      refine hS.setFlight hF rfl ?_
      rw [hstage]
      rfl
  | drained hF hstage =>
      refine hS.setFlight hF rfl ?_
      rw [hstage]
      rfl
  | @sent f id F o rest hF hstage =>
      have hmoved : Registry (S.setFlight f { F with stage := .sending o rest }) :=
        hS.setFlight hF rfl
        (by rw [hstage]; rfl)
      exact ⟨hmoved.bound, hmoved.current, hmoved.leads, hmoved.unique⟩
  | closed hF hstage =>
      refine hS.setFlight hF rfl ?_
      rw [hstage]
      rfl
  | @received id f p o rest hp hphase hchannel =>
      have hmoved := hS.setPrepare id (p := { p with phase := .going (o != .ok) }) 
        fun _ hphase => by cases hphase
      exact ⟨hmoved.bound, hmoved.current, hmoved.leads, hmoved.unique⟩
  | @timedOut id f p hp hphase hchannel =>
      exact hS.setPrepare id fun _ hphase => by cases hphase
  | ticked nanos => exact ⟨hS.bound, hS.current, hS.leads, hS.unique⟩

end Registry

/-! ## Followers and their channels -/

/-- The outcome is still to be sent, or it is in the channel. -/
def Awaits (S : Cohorts) (id : Nat) (F : Flight) : Prop :=
  (id ∈ F.pending ∧ S.channels id = []) ∨
    id ∉ F.pending ∧ F.stage.recorded = true ∧
      ∃ o, F.stage.outcome = some o ∧ S.channels id = [o]

structure Mail (S : Cohorts) : Prop where
  followers : ∀ id p f, S.prepares id = some p → p.phase = .following f →
    ∃ F, S.flight f = some F ∧ F.key = p.key ∧ Awaits S id F
  nodup : ∀ f F, S.flight f = some F → F.pending.Nodup
  known : ∀ f F id, S.flight f = some F → id ∈ F.pending →
    ∃ p, S.prepares id = some p ∧ (p.phase = .following f ∨ ∃ n, p.phase = .going n)
  idle : ∀ id, (∀ p, S.prepares id = some p → p.phase = .joining) → S.channels id = []

section Mail

variable {S : Cohorts}

/-- A prepare that is not on the list of a flight goes on, or stops following. -/
theorem Mail.setPrepare (hS : Mail S) {id : Nat} {p : Prepare}
    (hp : ∀ f, p.phase ≠ .following f)
    (hlisted : ∀ f F, S.flight f = some F → id ∈ F.pending → ∃ n, p.phase = .going n)
    (hidle : p.phase = .joining → S.channels id = []) : Mail (S.setPrepare id p) := by
  refine ⟨fun k q f hq hphase => ?_, hS.nodup, fun f F k hF hk => ?_, fun k hk => ?_⟩
  · rw [Cohorts.setPrepare_prepares] at hq
    split at hq
    · cases hq
      exact absurd hphase (hp f)
    · exact hS.followers k q f hq hphase
  · rw [Cohorts.setPrepare_prepares]
    split
    · rename_i hid
      subst hid
      exact ⟨p, rfl, .inr (hlisted f F hF hk)⟩
    · exact hS.known f F k hF hk
  · by_cases hid : k = id
    · subst hid
      exact hidle (hk p (by rw [Cohorts.setPrepare_prepares, if_pos rfl]))
    · refine hS.idle k fun q hq => hk q ?_
      rw [Cohorts.setPrepare_prepares, if_neg hid]
      exact hq

/-- A flight moves on and its list stays. -/
theorem Mail.setFlight (hS : Mail S) {f : Nat} {F F' : Flight} (hF : S.flight f = some F)
    (hkey : F'.key = F.key) (hpending : F'.pending = F.pending)
    (hrecorded : F.stage.recorded = true →
      F'.stage.recorded = true ∧ F'.stage.outcome = F.stage.outcome) :
    Mail (S.setFlight f F') := by
  refine ⟨fun k q g hq hphase => ?_, fun g G hG => ?_, fun g G k hG hk => ?_, hS.idle⟩
  · obtain ⟨G, hG, hGkey, hawaits⟩ := hS.followers k q g hq hphase
    rw [Cohorts.setFlight_flight]
    split
    · rename_i hg
      subst hg
      rw [hF] at hG
      cases hG
      refine ⟨F', rfl, hkey.trans hGkey, ?_⟩
      rcases hawaits with ⟨hk, hempty⟩ | ⟨hk, hrec, o, ho, hchannel⟩
      · exact .inl ⟨hpending ▸ hk, hempty⟩
      · obtain ⟨hrec', houtcome⟩ := hrecorded hrec
        exact .inr ⟨hpending ▸ hk, hrec', o, houtcome.trans ho, hchannel⟩
    · exact ⟨G, hG, hGkey, hawaits⟩
  · rw [Cohorts.setFlight_flight] at hG
    split at hG
    · cases hG
      exact hpending ▸ hS.nodup f F hF
    · exact hS.nodup g G hG
  · rw [Cohorts.setFlight_flight] at hG
    split at hG
    · rename_i hg
      cases hG
      subst hg
      exact hS.known g F k hF (hpending ▸ hk)
    · exact hS.known g G k hG hk

theorem pending_of_registered {F : Flight} (h : F.stage.registered = true) :
    F.pending = F.waiters := by
  unfold Flight.pending
  split
  · rename_i hstage
    rw [hstage] at h
    cases h
  · rename_i hstage
    rw [hstage] at h
    cases h
  · rfl

theorem Mail.follow (hS : Mail S) {id f : Nat} {p : Prepare} {F : Flight}
    (hp : S.prepares id = some p) (hjoining : p.phase = .joining) (hF : S.flight f = some F)
    (hkey : F.key = p.key) (hregistered : F.stage.registered = true) (joinedAfter : Nat) :
    Mail ((S.setFlight f { F with waiters := F.waiters ++ [id] }).setPrepare id
      ⟨p.key, .following f, p.joinedAt, joinedAfter⟩) := by
  have hpending := pending_of_registered hregistered
  have hpending' : ({ F with waiters := F.waiters ++ [id] } : Flight).pending = F.pending ++ [id] := by
    rw [pending_of_registered (F := { F with waiters := F.waiters ++ [id] }) hregistered, hpending]
  have hunlisted : ∀ g G, S.flight g = some G → id ∉ G.pending := by
    intro g G hG hmem
    obtain ⟨q, hq, hphase⟩ := hS.known g G id hG hmem
    rw [hp] at hq
    cases hq
    rw [hjoining] at hphase
    rcases hphase with hphase | ⟨n, hphase⟩ <;> cases hphase
  have hempty : S.channels id = [] := by
    refine hS.idle id fun q hq => ?_
    rw [hp] at hq
    cases hq
    exact hjoining
  refine ⟨fun k q g hq hphase => ?_, fun g G hG => ?_, fun g G k hG hk => ?_, fun k hk => ?_⟩
  · simp only [Cohorts.setPrepare_prepares, Cohorts.setFlight_prepares] at hq
    simp only [Cohorts.setPrepare_flight, Cohorts.setFlight_flight]
    split at hq
    · rename_i hk
      cases hq
      cases hphase
      subst hk
      rw [if_pos rfl]
      exact ⟨_, rfl, hkey, .inl ⟨by rw [hpending']; exact List.mem_append_right _ List.mem_cons_self, hempty⟩⟩
    · rename_i hk
      obtain ⟨G, hG, hGkey, hawaits⟩ := hS.followers k q g hq hphase
      split
      · rename_i hg
        subst hg
        rw [hF] at hG
        cases hG
        refine ⟨_, rfl, hGkey, ?_⟩
        rcases hawaits with ⟨hmem, hchannel⟩ | ⟨hmem, hrest⟩
        · exact .inl ⟨by rw [hpending']; exact List.mem_append_left _ hmem, hchannel⟩
        · refine .inr ⟨?_, hrest⟩
          rw [hpending', List.mem_append, List.mem_singleton]
          exact not_or.mpr ⟨hmem, hk⟩
      · exact ⟨G, hG, hGkey, hawaits⟩
  · simp only [Cohorts.setPrepare_flight, Cohorts.setFlight_flight] at hG
    split at hG
    · cases hG
      rw [hpending']
      refine (hS.nodup f F hF).append (List.nodup_singleton id) ?_
      rw [List.disjoint_singleton]
      exact hunlisted f F hF
    · exact hS.nodup g G hG
  · simp only [Cohorts.setPrepare_flight, Cohorts.setFlight_flight] at hG
    simp only [Cohorts.setPrepare_prepares, Cohorts.setFlight_prepares]
    split at hG
    · rename_i hg
      cases hG
      subst hg
      split
      · exact ⟨_, rfl, .inl rfl⟩
      · rename_i hid
        rw [hpending', List.mem_append, List.mem_singleton] at hk
        exact hS.known g F k hF (hk.resolve_right hid)
    · split
      · rename_i hid
        exact absurd (hid ▸ hk) (hunlisted g G hG)
      · exact hS.known g G k hG hk
  · by_cases hid : k = id
    · subst hid
      exact hempty
    · refine hS.idle k fun q hq => hk q ?_
      simp only [Cohorts.setPrepare_prepares, if_neg hid, Cohorts.setFlight_prepares]
      exact hq

theorem Mail.lead (hS : Mail S) {id f : Nat} {p : Prepare} (hp : S.prepares id = some p)
    (hjoining : p.phase = .joining) (hfresh : S.flight f = none) (joinedAfter : Nat) :
    Mail ((S.setFlight f { key := p.key }).setPrepare id
      ⟨p.key, .leading f, p.joinedAt, joinedAfter⟩) := by
  have hnew : Mail (S.setFlight f { key := p.key }) := by
    refine ⟨fun k q g hq hphase => ?_, fun g G hG => ?_, fun g G k hG hk => ?_, hS.idle⟩
    · obtain ⟨G, hG, hrest⟩ := hS.followers k q g hq hphase
      rw [Cohorts.setFlight_flight, if_neg]
      · exact ⟨G, hG, hrest⟩
      · rintro rfl
        rw [hfresh] at hG
        cases hG
    · rw [Cohorts.setFlight_flight] at hG
      split at hG
      · cases hG
        exact List.nodup_nil
      · exact hS.nodup g G hG
    · rw [Cohorts.setFlight_flight] at hG
      split at hG
      · cases hG
        cases hk
      · exact hS.known g G k hG hk
  refine hnew.setPrepare nofun (fun g G hG hmem => ?_) nofun
  obtain ⟨q, hq, hphase⟩ := hnew.known g G id hG hmem
  change S.prepares id = some q at hq
  rw [hp] at hq
  cases hq
  rw [hjoining] at hphase
  rcases hphase with hphase | ⟨n, hphase⟩ <;> cases hphase

theorem Mail.send (hS : Mail S) {f id : Nat} {F : Flight} {o : FetchOutcome} {rest : List Nat}
    (hF : S.flight f = some F) (hstage : F.stage = .sending o (id :: rest)) :
    Mail { S.setFlight f { F with stage := .sending o rest } with
      channels := S.deliver f id o } := by
  have hpending : F.pending = id :: rest := by rw [Flight.pending, hstage]
  have hnodup := hS.nodup f F hF
  rw [hpending, List.nodup_cons] at hnodup
  obtain ⟨r, hr, hrphase⟩ := hS.known f F id hF (hpending ▸ List.mem_cons_self)
  have hother : ∀ k, k ≠ id → S.deliver f id o k = S.channels k := by
    intro k hk
    unfold Cohorts.deliver
    split
    · rw [Function.update_of_ne hk]
    · rfl
  have hown : r.phase = .following f → S.deliver f id o id = [o] := by
    intro hphase
    obtain ⟨G, hG, -, hawaits⟩ := hS.followers id r f hr hphase
    rw [hF] at hG
    cases hG
    rcases hawaits with ⟨-, hempty⟩ | ⟨hunlisted, -⟩
    · have hcond : ((S.prepares id).any fun p => p.phase == .following f) = true := by
        rw [hr, Option.any_some, hphase]
        exact beq_self_eq_true _
      rw [Cohorts.deliver, if_pos hcond, Function.update_self, hempty, List.nil_append]
    · exact absurd (hpending ▸ List.mem_cons_self) hunlisted
  refine ⟨fun k q g hq hphase => ?_, fun g G hG => ?_, fun g G k hG hk => ?_, fun k hk => ?_⟩
  · change S.prepares k = some q at hq
    obtain ⟨G, hG, hGkey, hawaits⟩ := hS.followers k q g hq hphase
    simp only [Cohorts.setFlight_flight]
    by_cases hkid : k = id
    · subst hkid
      rw [hr] at hq
      cases hq
      have hgf : g = f := by
        rcases hrphase with hrphase | ⟨n, hrphase⟩ <;> rw [hphase] at hrphase <;> cases hrphase
        rfl
      subst hgf
      rw [hF] at hG
      cases hG
      rw [if_pos rfl]
      exact ⟨_, rfl, hGkey, .inr ⟨hnodup.1, rfl, o, rfl, hown hphase⟩⟩
    · split
      · rename_i hg
        subst hg
        rw [hF] at hG
        cases hG
        refine ⟨_, rfl, hGkey, ?_⟩
        rcases hawaits with ⟨hmem, hchannel⟩ | ⟨hmem, hrec, o', ho', hchannel⟩
        · rw [hpending, List.mem_cons] at hmem
          exact .inl ⟨hmem.resolve_left hkid, (hother k hkid).trans hchannel⟩
        · rw [hpending, List.mem_cons, not_or] at hmem
          rw [hstage] at ho'
          exact .inr ⟨hmem.2, rfl, o', ho', (hother k hkid).trans hchannel⟩
      · refine ⟨G, hG, hGkey, ?_⟩
        unfold Awaits at hawaits ⊢
        simp only [hother k hkid]
        exact hawaits
  · simp only [Cohorts.setFlight_flight] at hG
    split at hG
    · cases hG
      exact hnodup.2
    · exact hS.nodup g G hG
  · simp only [Cohorts.setFlight_flight] at hG
    split at hG
    · rename_i hg
      cases hG
      subst hg
      exact hS.known g F k hF (hpending ▸ List.mem_cons_of_mem _ hk)
    · exact hS.known g G k hG hk
  · by_cases hkid : k = id
    · subst hkid
      rw [hk r hr] at hrphase
      rcases hrphase with hrphase | ⟨n, hrphase⟩ <;> cases hrphase
    · exact (hother k hkid).trans (hS.idle k hk)

/-- A follower takes what is in its channel. -/
theorem Mail.receive (hS : Mail S) (id : Nat) (p : Prepare) (n : Bool)
    (rest : List FetchOutcome) :
    Mail { S.setPrepare id { p with phase := .going n } with
      channels := Function.update S.channels id rest } := by
  have hmoved : Mail (S.setPrepare id { p with phase := .going n }) :=
    hS.setPrepare nofun (fun _ _ _ _ => ⟨n, rfl⟩) nofun
  have hgone : ∀ {k q}, (S.setPrepare id { p with phase := .going n }).prepares k = some q →
      k = id → q.phase = .going n := by
    intro k q hq hk
    rw [Cohorts.setPrepare_prepares, if_pos hk] at hq
    cases hq
    rfl
  refine ⟨fun k q g hq hphase' => ?_, hmoved.nodup, hmoved.known, fun k hk => ?_⟩
  · obtain ⟨G, hG, hGkey, hawaits⟩ := hmoved.followers k q g hq hphase'
    have hkid : k ≠ id := by
      intro hkid
      rw [hgone hq hkid] at hphase'
      cases hphase'
    refine ⟨G, hG, hGkey, ?_⟩
    unfold Awaits at hawaits ⊢
    simp only [Function.update_of_ne hkid]
    exact hawaits
  · have hkid : k ≠ id := by
      intro hkid
      have hq : (S.setPrepare id { p with phase := .going n }).prepares k =
          some { p with phase := .going n } := by
        rw [Cohorts.setPrepare_prepares, if_pos hkid]
      have hjoining := hk _ hq
      cases hjoining
    simp only [Function.update_of_ne hkid]
    exact hmoved.idle k hk

theorem Mail.change {windowSecs : Nat} {S' : Cohorts} (hS : Mail S) (hreg : Registry S)
    (h : Change windowSecs S S') : Mail S' := by
  cases h with
  | @joined id key hnew phase hphase =>
      refine hS.setPrepare (fun f => ?_) (fun f F hF hmem => ?_) fun _ => hS.idle id fun q hq => ?_
      · rcases hphase with rfl | ⟨rfl, -⟩ <;> exact nofun
      · obtain ⟨q, hq, -⟩ := hS.known f F id hF hmem
        rw [hnew] at hq
        cases hq
      · rw [hnew] at hq
        cases hq
  | @led id p hp hjoining hnone =>
      have hfresh : S.flight S.nextFlight = none := by
        cases hF : S.flight S.nextFlight with
        | none => rfl
        | some F => exact absurd (hreg.bound _ F hF) (Nat.lt_irrefl _)
      have hled := hS.lead hp hjoining hfresh S.completed.length
      exact ⟨hled.followers, hled.nodup, hled.known, hled.idle⟩
  | @followed id f p F hp hjoining hcurrent hF =>
      obtain ⟨G, hG, hkey, hregistered⟩ := (hreg.current p.key f).mp hcurrent
      rw [hF] at hG
      cases hG
      exact hS.follow hp hjoining hF hkey hregistered _
  | @finished f F hF hstage o =>
      refine hS.setFlight hF rfl ?_ fun hrec => ?_
      · rw [Flight.pending, Flight.pending, hstage]
      · rw [hstage] at hrec
        cases hrec
  | @removed f F o hF hstage =>
      have hmoved : Mail (S.setFlight f { F with stage := .recording o }) :=
        hS.setFlight hF rfl
        (by rw [Flight.pending, Flight.pending, hstage])
        (fun hrec => by rw [hstage] at hrec; cases hrec)
      exact ⟨hmoved.followers, hmoved.nodup, hmoved.known, hmoved.idle⟩
  | @recordedOk f F hF hstage =>
      have hmoved : Mail (S.setFlight f { F with stage := .draining .ok }) :=
        hS.setFlight hF rfl
        (by rw [Flight.pending, Flight.pending, hstage])
        (fun hrec => by rw [hstage] at hrec; cases hrec)
      exact ⟨hmoved.followers, hmoved.nodup, hmoved.known, hmoved.idle⟩
  | @recordedErr f F e hF hstage =>
      refine hS.setFlight hF rfl ?_ fun hrec => ?_
      · rw [Flight.pending, Flight.pending, hstage]
      · rw [hstage] at hrec
        cases hrec
  | @drained f F o hF hstage =>
      refine hS.setFlight hF rfl ?_ fun _ => ⟨rfl, ?_⟩
      · rw [Flight.pending, Flight.pending, hstage]
      · rw [hstage]
        rfl
  | sent hF hstage => exact hS.send hF hstage
  | @closed f F o hF hstage =>
      refine hS.setFlight hF rfl ?_ fun _ => ⟨rfl, ?_⟩
      · rw [Flight.pending, Flight.pending, hstage]
      · rw [hstage]
        rfl
  | received hp hphase hchannel => exact hS.receive _ _ _ _
  | @timedOut id f p hp hphase hchannel =>
      exact hS.setPrepare (fun _ hf => by cases hf) (fun _ _ _ _ => ⟨true, rfl⟩)
        fun hjoining => by cases hjoining
  | ticked nanos => exact ⟨hS.followers, hS.nodup, hS.known, hS.idle⟩

end Mail

/-! ## What was recorded -/

/-- The fetch that a prepare skips was recorded for its mirror after it joined, or
before, within the window. -/
def Justified (windowSecs : Nat) (S : Cohorts) (p : Prepare) : Prop :=
  (∃ c ∈ S.completed.drop p.joinedAfter, c.key = p.key) ∨
    ∃ c ∈ S.completed, c.key = p.key ∧ c.instant ≤ p.joinedAt ∧
      (p.joinedAt - c.instant) / 10 ^ 9 < windowSecs

structure Books (windowSecs : Nat) (S : Cohorts) : Prop where
  sound : ∀ c ∈ S.completed, c.instant ≤ S.clock ∧
    ∃ F, S.flight c.flight = some F ∧ F.stage.recorded = true
  full : ∀ f F, S.flight f = some F → F.stage.recorded = true → F.stage.outcome = some .ok →
    ∃ c ∈ S.completed, c.key = F.key ∧ c.flight = f
  later : ∀ id p f, S.prepares id = some p → p.phase = .following f →
    p.joinedAfter ≤ S.completed.length ∧ ∀ c ∈ S.completed.take p.joinedAfter, c.flight ≠ f
  lastOk : ∀ key t, S.lastOk key = some t → ∃ c ∈ S.completed, c.key = key ∧ c.instant = t
  skips : ∀ id p, S.prepares id = some p → p.phase = .going false → Justified windowSecs S p

section Books

variable {windowSecs : Nat} {S : Cohorts}

/-- A prepare that skips for a reason, or does not follow a flight. -/
theorem Books.setPrepare (hS : Books windowSecs S) {id : Nat} {p : Prepare}
    (hp : ∀ f, p.phase ≠ .following f)
    (hskips : p.phase = .going false → Justified windowSecs S p) :
    Books windowSecs (S.setPrepare id p) := by
  refine ⟨hS.sound, hS.full, fun k q f hq hphase => ?_, hS.lastOk, fun k q hq hphase => ?_⟩
  · rw [Cohorts.setPrepare_prepares] at hq
    split at hq
    · cases hq
      exact absurd hphase (hp f)
    · exact hS.later k q f hq hphase
  · rw [Cohorts.setPrepare_prepares] at hq
    split at hq
    · cases hq
      exact hskips hphase
    · exact hS.skips k q hq hphase

/-- A flight moves on, and what it has to record stays as it was. -/
theorem Books.setFlight (hS : Books windowSecs S) {f : Nat} {F' : Flight}
    (hold : ∀ F, S.flight f = some F → F.stage.recorded = true → F'.stage.recorded = true)
    (hfull : F'.stage.recorded = true → F'.stage.outcome = some .ok →
      ∃ c ∈ S.completed, c.key = F'.key ∧ c.flight = f) :
    Books windowSecs (S.setFlight f F') := by
  refine ⟨fun c hc => ?_, fun g G hG hrec hok => ?_, hS.later, hS.lastOk, hS.skips⟩
  · obtain ⟨hinstant, F, hF, hrec⟩ := hS.sound c hc
    refine ⟨hinstant, ?_⟩
    rw [Cohorts.setFlight_flight]
    split
    · rename_i hg
      exact ⟨F', rfl, hold F (hg ▸ hF) hrec⟩
    · exact ⟨F, hF, hrec⟩
  · rw [Cohorts.setFlight_flight] at hG
    split at hG
    · rename_i hg
      cases hG
      subst hg
      exact hfull hrec hok
    · exact hS.full g G hG hrec hok

/-- A flight that had not been recorded moves to a stage where it still is not,
or where it failed. -/
theorem Books.setFlight_of_failed (hS : Books windowSecs S) {f : Nat} {F F' : Flight}
    (hF : S.flight f = some F) (hold : F.stage.recorded = false)
    (hnew : F'.stage.recorded = true → F'.stage.outcome ≠ some .ok) :
    Books windowSecs (S.setFlight f F') := by
  refine hS.setFlight (fun G hG hrec => ?_) fun hrec hok => absurd hok (hnew hrec)
  rw [hF] at hG
  cases hG
  rw [hold] at hrec
  cases hrec

/-- A flight that was recorded moves on. -/
theorem Books.setFlight_of_recorded (hS : Books windowSecs S) {f : Nat} {F F' : Flight}
    (hF : S.flight f = some F) (hold : F.stage.recorded = true) (hkey : F'.key = F.key)
    (hnew : F'.stage.recorded = true) (houtcome : F'.stage.outcome = F.stage.outcome) :
    Books windowSecs (S.setFlight f F') := by
  refine hS.setFlight (fun _ _ _ => hnew) fun _ hok => ?_
  rw [hkey]
  exact hS.full f F hF hold (houtcome ▸ hok)

theorem Justified.append {p : Prepare} (h : Justified windowSecs S p) {S' : Cohorts}
    {cs : List Completion} (hcompleted : S'.completed = S.completed ++ cs) :
    Justified windowSecs S' p := by
  rcases h with ⟨c, hc, hkey⟩ | ⟨c, hc, hrest⟩
  · refine .inl ⟨c, ?_, hkey⟩
    rw [hcompleted]
    exact ((List.sublist_append_left _ cs).drop _).subset hc
  · exact .inr ⟨c, hcompleted ▸ List.mem_append_left _ hc, hrest⟩

theorem Books.record (hS : Books windowSecs S) (f : Nat) (F : Flight) :
    Books windowSecs { S.setFlight f { F with stage := .draining .ok } with
      lastOk := Function.update S.lastOk F.key (some S.clock)
      completed := S.completed ++ [⟨F.key, f, S.clock⟩] } := by
  have hlast : (⟨F.key, f, S.clock⟩ : Completion) ∈ S.completed ++ [⟨F.key, f, S.clock⟩] :=
    List.mem_append_right _ List.mem_cons_self
  refine ⟨fun c hc => ?_, fun g G hG hrec hok => ?_, fun k q g hq hphase => ?_,
    fun key t ht => ?_, fun k q hq hphase => ?_⟩
  · simp only [Cohorts.setFlight_flight]
    rcases List.mem_append.mp hc with hc | hc
    · obtain ⟨hinstant, G, hG, hrec⟩ := hS.sound c hc
      refine ⟨hinstant, ?_⟩
      split
      · exact ⟨_, rfl, rfl⟩
      · exact ⟨G, hG, hrec⟩
    · rw [List.mem_singleton.mp hc, if_pos rfl]
      exact ⟨Nat.le_refl _, _, rfl, rfl⟩
  · simp only [Cohorts.setFlight_flight] at hG
    split at hG
    · rename_i hg
      cases hG
      exact ⟨_, hlast, rfl, hg.symm⟩
    · obtain ⟨c, hc, hrest⟩ := hS.full g G hG hrec hok
      exact ⟨c, List.mem_append_left _ hc, hrest⟩
  · obtain ⟨hle, hbefore⟩ := hS.later k q g hq hphase
    refine ⟨Nat.le_trans hle (by simp), fun c hc => hbefore c ?_⟩
    rw [List.take_append_of_le_length hle] at hc
    exact hc
  · simp only [Function.update_apply] at ht
    split at ht
    · rename_i hkey
      cases ht
      exact ⟨_, hlast, hkey.symm, rfl⟩
    · obtain ⟨c, hc, hrest⟩ := hS.lastOk key t ht
      exact ⟨c, List.mem_append_left _ hc, hrest⟩
  · exact (hS.skips k q hq hphase).append rfl

theorem Books.follow (hS : Books windowSecs S) {id f : Nat} {p : Prepare} {F F' : Flight}
    (hF : S.flight f = some F) (hopen : F.stage.recorded = false) (hstage : F'.stage = F.stage) :
    Books windowSecs ((S.setFlight f F').setPrepare id
      ⟨p.key, .following f, p.joinedAt, S.completed.length⟩) := by
  have hmoved : Books windowSecs (S.setFlight f F') := by
    refine hS.setFlight_of_failed hF hopen fun hrec => ?_
    rw [hstage, hopen] at hrec
    cases hrec
  refine ⟨hmoved.sound, hmoved.full, fun k q g hq hphase => ?_, hmoved.lastOk,
    fun k q hq hphase => ?_⟩
  · rw [Cohorts.setPrepare_prepares] at hq
    split at hq
    · cases hq
      cases hphase
      refine ⟨Nat.le_refl _, fun c hc hflight => ?_⟩
      obtain ⟨-, G, hG, hrec⟩ := hS.sound c (List.mem_of_mem_take hc)
      rw [hflight, hF] at hG
      cases hG
      rw [hopen] at hrec
      cases hrec
    · exact hmoved.later k q g hq hphase
  · rw [Cohorts.setPrepare_prepares] at hq
    split at hq
    · cases hq
      cases hphase
    · exact hmoved.skips k q hq hphase

/-- A follower that hears of a success skips, and that success came after it
joined. -/
theorem Books.justified (hS : Books windowSecs S) (hmail : Mail S) {id f : Nat} {p : Prepare}
    {rest : List FetchOutcome} (hp : S.prepares id = some p) (hphase : p.phase = .following f)
    (hchannel : S.channels id = .ok :: rest) (phase : Phase) :
    Justified windowSecs S { p with phase := phase } := by
  obtain ⟨F, hF, hkey, ⟨-, hempty⟩ | ⟨-, hrec, o, ho, hone⟩⟩ := hmail.followers id p f hp hphase
  · rw [hchannel] at hempty
    cases hempty
  · rw [hchannel] at hone
    cases hone
    obtain ⟨c, hc, hckey, hflight⟩ := hS.full f F hF hrec ho
    obtain ⟨-, hbefore⟩ := hS.later id p f hp hphase
    refine .inl ⟨c, ?_, hckey.trans hkey⟩
    rw [← List.take_append_drop p.joinedAfter S.completed] at hc
    rcases List.mem_append.mp hc with hc | hc
    · exact absurd hflight (hbefore c hc)
    · exact hc

theorem Books.fresh (hS : Books windowSecs S) {key : String}
    (h : S.fresh windowSecs key = true) (phase : Phase) (joinedAfter : Nat) :
    Justified windowSecs S ⟨key, phase, S.clock, joinedAfter⟩ := by
  unfold Cohorts.fresh at h
  obtain ⟨-, hwindow⟩ := Bool.and_eq_true_iff.mp h
  obtain ⟨t, ht, hrecent⟩ := (Option.any_eq_true _ _).mp hwindow
  obtain ⟨c, hc, hkey, rfl⟩ := hS.lastOk key t ht
  exact .inr ⟨c, hc, hkey, (hS.sound c hc).1, of_decide_eq_true hrecent⟩

theorem Books.change {S' : Cohorts} (hS : Books windowSecs S) (hreg : Registry S) (hmail : Mail S)
    (h : Change windowSecs S S') : Books windowSecs S' := by
  cases h with
  | @joined id key hnew phase hphase =>
      refine hS.setPrepare (fun f => ?_) fun hskip => ?_
      · rcases hphase with rfl | ⟨rfl, -⟩ <;> exact nofun
      · rcases hphase with rfl | ⟨rfl, hfresh⟩
        · cases hskip
        · exact hS.fresh hfresh _ _
  | @led id p hp hjoining hnone =>
      have hmoved : Books windowSecs (S.setFlight S.nextFlight { key := p.key }) := by
        refine hS.setFlight (fun F hF => ?_) nofun
        exact absurd (hreg.bound _ F hF) (Nat.lt_irrefl _)
      have hled : Books windowSecs ((S.setFlight S.nextFlight { key := p.key }).setPrepare id
          ⟨p.key, .leading S.nextFlight, p.joinedAt, S.completed.length⟩) :=
        hmoved.setPrepare (fun _ hf => by cases hf) (fun hskip => by cases hskip)
      exact ⟨hled.sound, hled.full, hled.later, hled.lastOk, hled.skips⟩
  | @followed id f p F hp hjoining hcurrent hF =>
      obtain ⟨G, hG, -, hregistered⟩ := (hreg.current p.key f).mp hcurrent
      rw [hF] at hG
      cases hG
      refine hS.follow hF ?_ rfl
      cases hstage : F.stage <;> rw [hstage] at hregistered <;> first | rfl | cases hregistered
  | finished hF hstage o =>
      refine hS.setFlight_of_failed hF ?_ nofun
      rw [hstage]
      rfl
  | @removed f F o hF hstage =>
      have hmoved : Books windowSecs (S.setFlight f { F with stage := .recording o }) :=
        hS.setFlight_of_failed hF
        (by rw [hstage]; rfl) nofun
      exact ⟨hmoved.sound, hmoved.full, hmoved.later, hmoved.lastOk, hmoved.skips⟩
  | recordedOk hF hstage => exact hS.record _ _
  | recordedErr hF hstage =>
      refine hS.setFlight_of_failed hF ?_ fun _ hok => ?_
      · rw [hstage]
        rfl
      · cases hok
  | drained hF hstage =>
      refine hS.setFlight_of_recorded hF ?_ rfl rfl ?_ <;> rw [hstage] <;> rfl
  | @sent f id F o rest hF hstage =>
      have hmoved : Books windowSecs (S.setFlight f { F with stage := .sending o rest }) :=
        hS.setFlight_of_recorded hF
        (by rw [hstage]; rfl) rfl rfl (by rw [hstage]; rfl)
      exact ⟨hmoved.sound, hmoved.full, hmoved.later, hmoved.lastOk, hmoved.skips⟩
  | closed hF hstage =>
      refine hS.setFlight_of_recorded hF ?_ rfl rfl ?_ <;> rw [hstage] <;> rfl
  | @received id f p o rest hp hphase hchannel =>
      have hmoved : Books windowSecs (S.setPrepare id { p with phase := .going (o != .ok) }) := by
        refine hS.setPrepare (fun _ hf => by cases hf) fun hskip => ?_
        have hok : o = .ok := by simpa using hskip
        rw [hok] at hchannel
        exact hS.justified hmail hp hphase hchannel _
      exact ⟨hmoved.sound, hmoved.full, hmoved.later, hmoved.lastOk, hmoved.skips⟩
  | @timedOut id f p hp hphase hchannel =>
      exact hS.setPrepare (fun _ hf => by cases hf) (fun hskip => by cases hskip)
  | ticked nanos =>
      refine ⟨fun c hc => ?_, hS.full, hS.later, hS.lastOk, hS.skips⟩
      obtain ⟨hinstant, hflight⟩ := hS.sound c hc
      exact ⟨Nat.le_trans hinstant (Nat.le_add_right _ _), hflight⟩

end Books

/-! ## Runs -/

structure Safe (windowSecs : Nat) (S : Cohorts) : Prop where
  registry : Registry S
  mail : Mail S
  books : Books windowSecs S

theorem safe_empty (windowSecs : Nat) : Safe windowSecs {} := by
  refine ⟨⟨nofun, fun key f => ⟨nofun, fun ⟨F, hF, _⟩ => nomatch hF⟩, nofun, nofun⟩,
    ⟨nofun, nofun, nofun, fun _ _ => rfl⟩, ⟨nofun, nofun, nofun, nofun, nofun⟩⟩

theorem Safe.run {windowSecs : Nat} {S S' : Cohorts} {es : List Event}
    (h : Runs (Steps windowSecs) S es S') (hS : Safe windowSecs S) : Safe windowSecs S' := by
  refine h.invariant (Safe windowSecs) (fun hS hstep => ?_) hS
  have hchange := Steps.change hstep
  exact ⟨hS.registry.change hchange, hS.mail.change hS.registry hchange,
    hS.books.change hS.registry hS.mail hchange⟩

/-- The prepare leads the flight that is in the map for the key. -/
def Cohorts.leads (S : Cohorts) (id : Nat) (key : String) : Prop :=
  ∃ p f F, S.prepares id = some p ∧ p.phase = .leading f ∧ S.flight f = some F ∧ F.key = key ∧
    F.stage.registered = true

/-- A flight that is not finished has its leader at work: the fetch is running, or
a step of `finish_flight` is due. -/
def Flight.atWork (F : Flight) : Prop := ∀ o, F.stage ≠ .finished o

/-- One prepare leads, one follows and hears of the success, and a third comes
ten seconds later. -/
def shared : List Event :=
  [.join 0 "r|web", .enter 0, .join 1 "r|web", .enter 1, .complete 0 .ok, .remove 0, .record 0,
    .drain 0, .send 0, .send 0, .receive 1, .tick (10 * 10 ^ 9), .join 2 "r|web"]

end AgentGrid.Node.Cohort
