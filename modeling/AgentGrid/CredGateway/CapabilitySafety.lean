import AgentGrid.CredGateway.Capabilities
import Mathlib.Data.List.Nodup

/-!
# What a capability is good for

`Guarded` is kept by every step of the gateway: a request is forwarded on a
capability of its own route that was neither expired nor revoked when it was
presented, each use is counted against the quota, and the tokens of the providers
are no capabilities.  That the upstream does not see the capability needs clients
that put it nowhere but in the credential header of the route.
-/

namespace AgentGrid.CredGateway

open AgentGrid.Foundation
open AgentGrid.Store (isWhitespace trim startsWith toAsciiLowercase)

/-! ## The invariant -/

def Proxied.uses (token : String) (p : Proxied) : Bool :=
  p.phase.grant.any fun g => g.token == token

def State.uses (S : State) (token : String) : Nat := S.requests.countP (Proxied.uses token)

structure Standing (S : State) (token : String) (cap : Cap) : Prop where
  minted : ⟨token, cap.route, cap.expires, cap.quota⟩ ∈ S.minted
  standing : token ∉ S.revoked
  counted : ∀ quota, cap.quota = some quota →
    S.uses token ≤ cap.used.toNat ∧ cap.used.toNat ≤ quota.toNat

structure Granted (G : Gateway) (S : State) (request : Request) (g : Grant) : Prop where
  presented : ∃ route, G.routes.lookup request.route = some route ∧
    capabilityFrom request.headers route.header = some g.token
  minted : ∃ m ∈ S.minted, m.token = g.token ∧ m.route = request.route ∧ g.instant < m.expires
  standing : g.token ∉ g.revoked

def Built (G : Gateway) (request : Request) (out : Outgoing) : Prop :=
  ∃ route secret, G.routes.lookup request.route = some route ∧
    G.keys.lookup request.route = some secret ∧ out = route.outgoing secret request

structure Guarded (G : Gateway) (S : State) : Prop where
  issued : S.issued.Nodup
  drawn : ∀ m ∈ S.minted, isNewToken m.token = true ∧ G.hides m.token = true
  caps : ∀ token cap, S.caps token = some cap → Standing S token cap
  exchanges : ∀ token handle, S.exchanges token = some handle → token ∈ S.exchanged
  quota : ∀ m ∈ S.minted, ∀ quota, m.quota = some quota → S.uses m.token ≤ quota.toNat
  granted : ∀ p ∈ S.requests, ∀ g, p.phase.grant = some g → Granted G S p.request g
  forwarded : ∀ p ∈ S.requests, ∀ g out, p.phase = .forwarded g out → Built G p.request out

theorem guarded_init (G : Gateway) : Guarded G {} where
  issued := List.nodup_nil
  drawn _ hm := absurd hm List.not_mem_nil
  caps _ _ hcap := by cases hcap
  exchanges _ _ hhandle := by cases hhandle
  quota _ hm := absurd hm List.not_mem_nil
  granted _ hp := absurd hp List.not_mem_nil
  forwarded _ hp := absurd hp List.not_mem_nil

theorem update_some {β : Type} {f : String → Option β} {token other : String} {now : Option β}
    {found : β} (h : Function.update f token now other = some found) :
    (other = token ∧ now = some found) ∨ (other ≠ token ∧ f other = some found) := by
  by_cases hother : other = token
  · rw [hother, Function.update_self] at h
    exact .inl ⟨hother, h⟩
  · rw [Function.update_of_ne hother] at h
    exact .inr ⟨hother, h⟩

section Steps

variable {G : Gateway} {S S' : State} {i : Nat} {p : Proxied} {phase : Phase}

theorem Granted.mono {request : Request} {g : Grant} (h : Granted G S request g)
    (hminted : S.minted ⊆ S'.minted) : Granted G S' request g where
  presented := h.presented
  minted := by
    obtain ⟨m, hm, hfacts⟩ := h.minted
    exact ⟨m, hminted hm, hfacts⟩
  standing := h.standing

theorem Standing.mono {token : String} {cap : Cap} (h : Standing S token cap)
    (hminted : S.minted ⊆ S'.minted) (hrevoked : token ∉ S'.revoked)
    (huses : S'.uses token ≤ S.uses token) : Standing S' token cap where
  minted := hminted h.minted
  standing := hrevoked
  counted quota hquota := by
    obtain ⟨hused, hle⟩ := h.counted quota hquota
    exact ⟨huses.trans hused, hle⟩

theorem Guarded.minted_not_exchanged (h : Guarded G S) {m : Minted} (hm : m ∈ S.minted) :
    m.token ∉ S.exchanged := by
  intro hx
  exact List.disjoint_of_nodup_append h.issued (List.mem_map_of_mem hm) hx

/-- A token nobody was given has not been used. -/
theorem Guarded.uses_of_new (h : Guarded G S) {token : String}
    (hnew : token ∉ S.minted.map Minted.token) : S.uses token = 0 := by
  rw [State.uses, List.countP_eq_zero]
  intro p hp huses
  obtain ⟨g, hg, htoken⟩ := (Option.any_eq_true _ _).mp huses
  obtain ⟨m, hm, hmtoken, -⟩ := (h.granted p hp g hg).minted
  refine hnew (List.mem_map.mpr ⟨m, hm, ?_⟩)
  rw [hmtoken]
  exact eq_of_beq htoken

theorem uses_setPhase (hi : S.requests[i]? = some p) (phase : Phase) (token : String) :
    ∃ others, S.uses token = others + (p.uses token).toNat ∧
      (S.setPhase i p phase).uses token =
        others + (phase.grant.any fun g => g.token == token).toNat := by
  obtain ⟨others, hbefore, hafter⟩ :=
    countP_set_add (f := Proxied.uses token) { p with phase := phase } hi
  exact ⟨others, hbefore, hafter⟩

theorem mem_setPhase {q : Proxied} (hq : q ∈ (S.setPhase i p phase).requests) :
    q = { p with phase := phase } ∨ q ∈ S.requests := by
  rcases List.mem_or_eq_of_mem_set hq with hold | hnew
  · exact .inr hold
  · exact .inl hnew

theorem uses_setPhase_le (hi : S.requests[i]? = some p)
    (hgrant : ∀ g, phase.grant = some g → p.phase.grant = some g) (token : String) :
    (S.setPhase i p phase).uses token ≤ S.uses token := by
  obtain ⟨others, hbefore, hafter⟩ := uses_setPhase hi phase token
  rw [hbefore, hafter, Proxied.uses]
  cases hphase : phase.grant with
  | none => exact Nat.le_add_right _ _
  | some g => rw [hgrant g hphase]

/-- A request moves on with the grant it has, or loses it. -/
theorem Guarded.settle (h : Guarded G S) (hi : S.requests[i]? = some p)
    (hgrant : ∀ g, phase.grant = some g → p.phase.grant = some g)
    (hout : ∀ g out, phase = .forwarded g out → Built G p.request out) :
    Guarded G (S.setPhase i p phase) where
  issued := h.issued
  drawn := h.drawn
  caps token cap hcap :=
    (h.caps token cap hcap).mono (List.Subset.refl _) (h.caps token cap hcap).standing
      (uses_setPhase_le hi hgrant token)
  exchanges := h.exchanges
  quota m hm quota hquota :=
    (uses_setPhase_le hi hgrant m.token).trans (h.quota m hm quota hquota)
  granted q hq g hg := by
    rcases mem_setPhase hq with rfl | hold
    · exact (h.granted p (List.mem_of_getElem? hi) g (hgrant g hg)).mono (List.Subset.refl _)
    · exact (h.granted q hold g hg).mono (List.Subset.refl _)
  forwarded q hq g out hphase := by
    rcases mem_setPhase hq with rfl | hold
    · exact hout g out hphase
    · exact h.forwarded q hold g out hphase

theorem Guarded.refuse (h : Guarded G S) (hi : S.requests[i]? = some p) (status : Nat) :
    Guarded G (S.setPhase i p (.refused status)) :=
  h.settle hi (fun _ hg => by cases hg) (fun _ _ hphase => by cases hphase)

theorem Guarded.drop (h : Guarded G S) (token : String) :
    Guarded G { S with caps := Function.update S.caps token none } where
  issued := h.issued
  drawn := h.drawn
  caps other cap hcap := by
    obtain ⟨-, hnow⟩ | ⟨-, hcap⟩ := update_some hcap
    · cases hnow
    · have hold := h.caps other cap hcap
      exact ⟨hold.minted, hold.standing, hold.counted⟩
  exchanges := h.exchanges
  quota := h.quota
  granted p hp g hg := (h.granted p hp g hg).mono (List.Subset.refl _)
  forwarded := h.forwarded

/-- The request takes one use of a capability that is good for it. -/
theorem Guarded.grant {route : Route} {token : String} {cap : Cap} (h : Guarded G S)
    (hi : S.requests[i]? = some p) (hp : p.phase = .received)
    (hroute : G.routes.lookup p.request.route = some route)
    (htoken : capabilityFrom p.request.headers route.header = some token)
    (hcap : S.caps token = some cap) (hlive : S.clock < cap.expires)
    (hfor : cap.route = p.request.route)
    (hleft : ∀ quota, cap.quota = some quota → cap.used < quota) :
    Guarded G { S.setPhase i p (.accepted ⟨token, S.clock, S.revoked⟩) with
      caps := Function.update S.caps token (some { cap with used := cap.used + 1 }) } := by
  have hstanding := h.caps token cap hcap
  have hcount : ∀ other, (S.setPhase i p (.accepted ⟨token, S.clock, S.revoked⟩)).uses other =
      S.uses other + (token == other).toNat := by
    intro other
    obtain ⟨others, hbefore, hafter⟩ :=
      uses_setPhase hi (.accepted ⟨token, S.clock, S.revoked⟩) other
    rw [Proxied.uses, hp] at hbefore
    rw [hafter, hbefore]
    rfl
  have hused : ∀ quota, cap.quota = some quota → (cap.used + 1).toNat = cap.used.toNat + 1 := by
    intro quota hquota
    have hlt := UInt32.lt_iff_toNat_lt.mp (hleft quota hquota)
    have hbound := quota.toNat_lt
    rw [UInt32.toNat_add, UInt32.toNat_one]
    omega
  have hspent : ∀ quota, cap.quota = some quota → S.uses token + 1 ≤ (cap.used + 1).toNat ∧
      (cap.used + 1).toNat ≤ quota.toNat := by
    intro quota hquota
    obtain ⟨hle, -⟩ := hstanding.counted quota hquota
    have hlt := UInt32.lt_iff_toNat_lt.mp (hleft quota hquota)
    rw [hused quota hquota]
    omega
  refine ⟨h.issued, h.drawn, ?_, h.exchanges, ?_, ?_, ?_⟩
  · intro other c hc
    obtain ⟨rfl, hnow⟩ | ⟨hother, hc⟩ := update_some hc
    · cases hnow
      refine ⟨hstanding.minted, hstanding.standing, ?_⟩
      intro quota hquota
      change (S.setPhase i p _).uses other ≤ _ ∧ _
      rw [hcount, beq_self_eq_true, Bool.toNat_true]
      exact hspent quota hquota
    · have hold := h.caps other c hc
      refine hold.mono (List.Subset.refl _) hold.standing ?_
      change (S.setPhase i p _).uses other ≤ _
      rw [hcount, beq_false_of_ne (Ne.symm hother)]
      exact le_rfl
  · intro m hm quota hquota
    change (S.setPhase i p _).uses m.token ≤ _
    rw [hcount]
    by_cases hm' : token = m.token
    · subst hm'
      rw [beq_self_eq_true, Bool.toNat_true]
      have hsame : m = ⟨m.token, cap.route, cap.expires, cap.quota⟩ :=
        row_unique (List.Nodup.of_append_left h.issued) hm hstanding.minted rfl
      rw [hsame] at hquota
      obtain ⟨hle, hle'⟩ := hspent quota hquota
      exact hle.trans hle'
    · rw [beq_false_of_ne hm']
      exact h.quota m hm quota hquota
  · intro q hq g hg
    rcases mem_setPhase hq with rfl | hold
    · cases hg
      exact ⟨⟨route, hroute, htoken⟩, ⟨_, hstanding.minted, rfl, hfor, hlive⟩, hstanding.standing⟩
    · exact (h.granted q hold g hg).mono (List.Subset.refl _)
  · intro q hq g out hphase
    rcases mem_setPhase hq with rfl | hold
    · cases hphase
    · exact h.forwarded q hold g out hphase

theorem Guarded.validate {request : Request} (h : Guarded G S)
    (hi : S.requests[i]? = some ⟨request, .received⟩) :
    Guarded G (S.validate G i ⟨request, .received⟩) := by
  rw [State.validate]
  split
  · exact h.refuse hi 404
  · rename_i route hroute
    split
    · exact h.refuse hi 401
    · rename_i token htoken
      rw [State.accept]
      split
      · exact h.refuse hi 401
      · rename_i cap hcap
        split
        · exact (h.refuse hi 401).drop token
        · rename_i hlive
          split
          · exact h.refuse hi 403
          · rename_i hfor
            split
            · exact h.refuse hi 429
            · rename_i hleft
              refine h.grant hi rfl hroute htoken hcap (Nat.lt_of_not_le hlive)
                (not_not.mp hfor) ?_
              intro quota hquota
              rw [hquota] at hleft
              simpa using hleft

theorem Guarded.send {request : Request} {g : Grant} (h : Guarded G S)
    (hi : S.requests[i]? = some ⟨request, .accepted g⟩) :
    Guarded G (S.send G i ⟨request, .accepted g⟩ g) := by
  rw [State.send]
  split
  · rename_i route secret hroute hkey
    split
    · exact h.refuse hi 413
    · refine h.settle hi (fun _ hg => hg) ?_
      intro g' out hphase
      cases hphase
      exact ⟨route, secret, hroute, hkey, rfl⟩
  · exact h.refuse hi 500

structure Fresh (G : Gateway) (S : State) (token : String) : Prop where
  text : isNewToken token = true
  issued : token ∉ S.issued
  unnamed : token ∉ S.revoked
  hidden : G.hides token = true

theorem fresh_of_unguessed {token : String} (h : S.unguessed G token = true) : Fresh G S token := by
  simp only [State.unguessed, Bool.and_eq_true, Bool.not_eq_true'] at h
  obtain ⟨⟨htext, hnew⟩, hhidden⟩ := h
  have hnew : token ∉ S.issued ++ S.revoked := by simpa using hnew
  rw [List.mem_append, not_or] at hnew
  exact ⟨htext, hnew.1, hnew.2, hhidden⟩

theorem Fresh.unminted {token : String} (h : Fresh G S token) :
    token ∉ S.minted.map Minted.token :=
  fun hm => h.issued (List.mem_append_left _ hm)

theorem mint_cases {req : MintRequest} {token : String} (h : S.mint G req token = some S') :
    Fresh G S token ∧ ∃ expires, S' = { S with
      caps := Function.update (fun t => (S.caps t).filter fun c => S.clock < c.expires) token
        (some ⟨req.attemptId, req.route, expires, req.quota, 0⟩)
      minted := S.minted ++ [⟨token, req.route, expires, req.quota⟩] } := by
  rw [State.mint] at h
  split at h
  · cases h
  · rename_i hguard
    cases h
    simp only [Bool.or_eq_true, Bool.not_eq_true', not_or, Bool.not_eq_false] at hguard
    exact ⟨fresh_of_unguessed hguard.2, _, rfl⟩

theorem Guarded.mint {req : MintRequest} {token : String} (h : Guarded G S)
    (hmint : S.mint G req token = some S') : Guarded G S' := by
  obtain ⟨hfresh, expires, rfl⟩ := mint_cases hmint
  have hzero := h.uses_of_new hfresh.unminted
  refine ⟨?_, ?_, ?_, h.exchanges, ?_, ?_, h.forwarded⟩
  · have hissued := h.issued
    have hnew := hfresh.issued
    simp only [State.issued, List.map_append, List.map_cons, List.map_nil] at hissued hnew ⊢
    rw [List.append_assoc, List.singleton_append, List.nodup_middle]
    exact List.nodup_cons.mpr ⟨hnew, hissued⟩
  · intro m hm
    rcases List.mem_append.mp hm with hold | hnew
    · exact h.drawn m hold
    · rw [List.mem_singleton.mp hnew]
      exact ⟨hfresh.text, hfresh.hidden⟩
  · intro other cap hcap
    dsimp only at hcap
    obtain ⟨rfl, hnow⟩ | ⟨-, hcap⟩ := update_some hcap
    · cases hnow
      refine ⟨List.mem_append_right _ (List.mem_singleton.mpr rfl), hfresh.unnamed, ?_⟩
      intro quota _
      exact ⟨hzero.le, Nat.zero_le _⟩
    · have hold := h.caps other cap (Option.filter_eq_some_iff.mp hcap).1
      exact hold.mono (List.subset_append_left _ _) hold.standing le_rfl
  · intro m hm quota hquota
    rcases List.mem_append.mp hm with hold | hnew
    · exact h.quota m hold quota hquota
    · rw [List.mem_singleton.mp hnew]
      exact hzero.le.trans (Nat.zero_le _)
  · intro p hp g hg
    exact (h.granted p hp g hg).mono (List.subset_append_left _ _)

theorem Guarded.exchange {req : MintRequest} {token : String} {expiresIn : Nat} (h : Guarded G S)
    (hmint : S.exchange G req token expiresIn = some S') : Guarded G S' := by
  rw [State.exchange] at hmint
  split at hmint
  · rename_i hguard
    cases hmint
    rw [Bool.and_eq_true, Bool.not_eq_true'] at hguard
    have hnew : token ∉ S.issued := by simpa using hguard.2
    refine ⟨?_, h.drawn, ?_, ?_, h.quota, ?_, h.forwarded⟩
    · rw [State.issued, ← List.append_assoc, List.nodup_append]
      refine ⟨h.issued, List.nodup_singleton _, ?_⟩
      intro a ha b hb hab
      rw [hab, List.mem_singleton.mp hb] at ha
      exact hnew ha
    · intro other cap hcap
      have hold := h.caps other cap hcap
      exact ⟨hold.minted, hold.standing, hold.counted⟩
    · intro other handle hhandle
      dsimp only at hhandle
      obtain ⟨hother, -⟩ | ⟨-, hhandle⟩ := update_some hhandle
      · exact List.mem_append_right _ (List.mem_singleton.mpr hother)
      · exact List.mem_append_left _
          (h.exchanges other handle (Option.filter_eq_some_iff.mp hhandle).1)
    · intro p hp g hg
      exact (h.granted p hp g hg).mono (List.Subset.refl _)
  · cases hmint

/-- A token that is no capability any more is noted as revoked. -/
theorem Guarded.note {token : String} (h : Guarded G S) (hcap : S.caps token = none) :
    Guarded G { S with revoked := S.revoked ++ [token] } where
  issued := h.issued
  drawn := h.drawn
  caps other cap hother := by
    have hold := h.caps other cap hother
    refine hold.mono (List.Subset.refl _) ?_ le_rfl
    intro hrevoked
    rcases List.mem_append.mp hrevoked with hbefore | hnow
    · exact hold.standing hbefore
    · change S.caps other = some cap at hother
      rw [List.mem_singleton.mp hnow, hcap] at hother
      cases hother
  exchanges := h.exchanges
  quota := h.quota
  granted p hp g hg := (h.granted p hp g hg).mono (List.Subset.refl _)
  forwarded := h.forwarded

theorem Guarded.same {S S' : State} (h : Guarded G S) (hcaps : S'.caps = S.caps)
    (hexchanges : ∀ token handle, S'.exchanges token = some handle →
      S.exchanges token = some handle)
    (hrequests : S'.requests = S.requests) (hminted : S'.minted = S.minted)
    (hexchanged : S'.exchanged = S.exchanged) (hrevoked : S'.revoked = S.revoked) :
    Guarded G S' := by
  obtain ⟨caps, exchanges, revoking, requests, clock, minted, exchanged, revoked⟩ := S'
  cases hcaps
  cases hrequests
  cases hminted
  cases hexchanged
  cases hrevoked
  exact ⟨h.issued, h.drawn,
    fun token cap hcap => ⟨(h.caps token cap hcap).minted, (h.caps token cap hcap).standing,
      (h.caps token cap hcap).counted⟩,
    fun token handle hhandle => h.exchanges token handle (hexchanges token handle hhandle),
    h.quota, fun p hp g hg => (h.granted p hp g hg).mono (List.Subset.refl _), h.forwarded⟩

theorem Guarded.revoke (h : Guarded G S) (token : String) : Guarded G (S.revoke token) := by
  rw [State.revoke]
  split
  · rename_i handle hhandle
    have hcap : S.caps token = none := by
      cases hcap : S.caps token with
      | none => rfl
      | some cap =>
          exact absurd (h.exchanges token handle hhandle)
            (h.minted_not_exchanged (h.caps token cap hcap).minted)
    refine (h.note hcap).same rfl ?_ rfl rfl rfl rfl
    intro other found hfound
    obtain ⟨-, hnow⟩ | ⟨-, hfound⟩ := update_some hfound
    · cases hnow
    · exact hfound
  · exact h.same rfl (fun _ _ hfound => hfound) rfl rfl rfl rfl

theorem Guarded.revokeCap (h : Guarded G S) (hrevoke : S.revokeCap i = some S') :
    Guarded G S' := by
  rw [State.revokeCap] at hrevoke
  split at hrevoke
  · cases hrevoke
  · rename_i token _
    cases hrevoke
    exact ((h.drop token).note (Function.update_self _ _ _)).same rfl
      (fun _ _ hfound => hfound) rfl rfl rfl rfl

theorem Guarded.arrive (h : Guarded G S) (request : Request) :
    Guarded G { S with requests := S.requests ++ [⟨request, .received⟩] } := by
  have huses : ∀ token,
      State.uses { S with requests := S.requests ++ [⟨request, .received⟩] } token =
        S.uses token := by
    intro token
    rw [State.uses, List.countP_append]
    rfl
  refine ⟨h.issued, h.drawn, ?_, h.exchanges, ?_, ?_, ?_⟩
  · intro token cap hcap
    have hold := h.caps token cap hcap
    exact hold.mono (List.Subset.refl _) hold.standing (huses token).le
  · intro m hm quota hquota
    rw [huses]
    exact h.quota m hm quota hquota
  · intro p hp g hg
    rcases List.mem_append.mp hp with hold | hnew
    · exact (h.granted p hold g hg).mono (List.Subset.refl _)
    · rw [List.mem_singleton.mp hnew] at hg
      cases hg
  · intro p hp g out hphase
    rcases List.mem_append.mp hp with hold | hnew
    · exact h.forwarded p hold g out hphase
    · rw [List.mem_singleton.mp hnew] at hphase
      cases hphase

theorem Guarded.step {e : Event} (h : Guarded G S) (hstep : Steps G S e S') : Guarded G S' := by
  cases e with
  | mint headers req token =>
      simp only [Steps, CredGateway.step] at hstep
      split at hstep
      · exact h.mint hstep
      · cases hstep
        exact h
  | exchange headers req token expiresIn =>
      simp only [Steps, CredGateway.step] at hstep
      split at hstep
      · exact h.exchange hstep
      · cases hstep
        exact h
  | revoke headers token =>
      simp only [Steps, CredGateway.step] at hstep
      split at hstep <;> cases hstep
      · exact h.revoke token
      · exact h
  | revokeCap i => exact h.revokeCap hstep
  | arrive request =>
      cases hstep
      exact h.arrive request
  | validate i =>
      simp only [Steps, CredGateway.step] at hstep
      split at hstep <;> cases hstep
      rename_i request hi
      exact h.validate hi
  | send i =>
      simp only [Steps, CredGateway.step] at hstep
      split at hstep <;> cases hstep
      rename_i request g hi
      exact h.send hi
  | tick n =>
      cases hstep
      exact h.same rfl (fun _ _ hfound => hfound) rfl rfl rfl rfl

end Steps

/-! ## What the upstream sees -/

/-- The text of the token occurs in what the client has forwarded. -/
def Request.repeats (request : Request) (route : Route) (token : String) : Bool :=
  decide (token.toList <:+: request.method.toList) ||
    decide (token.toList <:+: request.rest.toList) ||
    request.query.any (fun q => decide (token.toList <:+: q.toList)) ||
    request.headers.any (fun h => !route.drops h && h.shows token) ||
    decide (bytes token <:+: request.body)

/-- A request that is sent has its capability in the credential header alone. -/
def Discreet (G : Gateway) (S : State) : Event → Bool
  | .send i =>
      match S.requests[i]? with
      | some ⟨request, .accepted g⟩ =>
          maxRequestBytes < request.body.length ||
            (G.routes.lookup request.route).all fun route => !request.repeats route g.token
      | _ => true
  | _ => true

private theorem infix_cut {α : Type} {c : α} {part before after : List α} (hc : c ∉ part)
    (h : part <:+: before ++ c :: after) : part <:+: before ∨ part <:+: after := by
  obtain ⟨left, right, h⟩ := h
  rcases List.append_eq_append_iff.mp h with ⟨gap, hbefore, -⟩ | ⟨gap, hleft, hright⟩
  · exact .inl ⟨left, gap, hbefore.symm⟩
  · cases gap with
    | nil => exact .inl ⟨left, [], by simpa using hleft⟩
    | cons d gap =>
        obtain ⟨rfl, hafter⟩ := List.cons_eq_cons.mp hright
        rcases List.append_eq_append_iff.mp hleft with ⟨cut, -, hpart⟩ | ⟨cut, -, hcut⟩
        · exact absurd (hpart ▸ List.mem_append_right cut List.mem_cons_self) hc
        · cases cut with
          | nil =>
              rw [List.nil_append] at hcut
              exact absurd (hcut ▸ List.mem_cons_self) hc
          | cons d cut =>
              obtain ⟨-, hgap⟩ := List.cons_eq_cons.mp hcut
              refine .inr ⟨cut, right, ?_⟩
              rw [hafter, hgap]
              rfl

private theorem not_mem_newToken {token : String} (h : isNewToken token = true) {c : Char}
    (hc : (('0' ≤ c && c ≤ '9') || ('a' ≤ c && c ≤ 'f')) = false) : c ∉ token.toList := by
  intro hmem
  rw [isNewToken, Bool.and_eq_true, List.all_eq_true] at h
  rw [h.2 c hmem] at hc
  cases hc

theorem trimEndSlash_initial (text : String) : (trimEndSlash text).toList <+: text.toList := by
  rw [trimEndSlash, String.toList_ofList, ← List.reverse_suffix, List.reverse_reverse]
  exact List.dropWhile_suffix _

section Sight

variable {G : Gateway} {route : Route} {request : Request} {token : String}

theorem url_hides (htext : isNewToken token = true)
    (hupstream : ¬token.toList <:+: route.upstream.toList)
    (hrest : ¬token.toList <:+: request.rest.toList)
    (hquery : ∀ q, request.query = some q → ¬token.toList <:+: q.toList) :
    ¬token.toList <:+: (route.url request).toList := by
  have hslash : '/' ∉ token.toList := not_mem_newToken htext (by decide)
  have hmark : '?' ∉ token.toList := not_mem_newToken htext (by decide)
  have hbase : ¬token.toList <:+: (trimEndSlash route.upstream ++ "/" ++ request.rest).toList := by
    intro h
    rw [String.toList_append, String.toList_append, List.append_assoc] at h
    rcases infix_cut hslash h with hleft | hright
    · exact hupstream (hleft.trans (trimEndSlash_initial _).isInfix)
    · exact hrest hright
  rw [Route.url]
  split
  · rename_i q hq
    intro h
    rw [String.toList_append, String.toList_append, List.append_assoc] at h
    rcases infix_cut hmark h with hleft | hright
    · exact hbase hleft
    · exact hquery q (Option.filter_eq_some_iff.mp hq).1 hright
  · exact hbase

/-- The gateway adds nothing that shows a token it has drawn. -/
theorem outgoing_hides {secret : String} (htext : isNewToken token = true)
    (hhidden : G.hides token = true) (hroute : G.routes.lookup request.route = some route)
    (hkey : G.keys.lookup request.route = some secret)
    (hrepeats : request.repeats route token = false) :
    (route.outgoing secret request).shows token = false := by
  obtain ⟨before, after, hroutes, -⟩ := List.lookup_eq_some_iff.mp hroute
  have hmem : (request.route, route) ∈ G.routes := by
    rw [hroutes]
    exact List.mem_append_right _ List.mem_cons_self
  have hentry := List.all_eq_true.mp hhidden _ hmem
  simp only [hkey, Option.all_some, Bool.and_eq_true, Bool.not_eq_true',
    decide_eq_false_iff_not] at hentry
  simp only [Request.repeats, Bool.or_eq_false_iff, decide_eq_false_iff_not] at hrepeats
  obtain ⟨⟨⟨⟨hmethod, hrest⟩, hquery⟩, hheaders⟩, hbody⟩ := hrepeats
  have hurl : ¬token.toList <:+: (route.url request).toList := by
    refine url_hides htext hentry.1 hrest ?_
    intro q hq
    rw [hq] at hquery
    simpa using hquery
  simp only [Outgoing.shows, Bool.or_eq_false_iff, Route.outgoing]
  refine ⟨⟨⟨decide_eq_false hmethod, decide_eq_false hurl⟩, ?_⟩, decide_eq_false hbody⟩
  · rw [List.any_append, Bool.or_eq_false_iff]
    refine ⟨?_, ?_⟩
    · rw [List.any_filter]
      exact hheaders
    · rw [List.any_cons, List.any_nil, Bool.or_false]
      exact hentry.2

/-- The only credential header that goes on is the gateway's own. -/
theorem outgoing_credential {secret : String} :
    (route.outgoing secret request).headers.filter
        (fun h => toAsciiLowercase h.name == route.header) = [route.credential secret] := by
  rw [Route.outgoing, List.filter_append, List.filter_filter]
  have hclient : request.headers.filter
      (fun h => (toAsciiLowercase h.name == route.header) && !route.drops h) = [] := by
    rw [List.filter_eq_nil_iff]
    intro h _ hkept
    rw [Bool.and_eq_true, Bool.not_eq_true', Route.drops, Bool.or_eq_false_iff] at hkept
    rw [hkept.1] at hkept
    cases hkept.2.2
  rw [hclient, List.nil_append, List.filter_cons_of_pos, List.filter_nil]
  rw [Route.credential, route.lower, beq_self_eq_true]

end Sight

def Concealed (S : State) : Prop :=
  ∀ p ∈ S.requests, ∀ g out, p.phase = .forwarded g out → out.shows g.token = false

section Concealment

variable {G : Gateway} {S S' : State} {i : Nat} {p : Proxied} {phase : Phase}

theorem Concealed.settle (h : Concealed S)
    (hout : ∀ g out, phase = .forwarded g out → out.shows g.token = false) :
    Concealed (S.setPhase i p phase) := by
  intro q hq g out hphase
  rcases mem_setPhase hq with rfl | hold
  · exact hout g out hphase
  · exact h q hold g out hphase

theorem Concealed.refuse (h : Concealed S) (status : Nat) :
    Concealed (S.setPhase i p (.refused status)) :=
  h.settle fun _ _ hphase => by cases hphase

theorem Concealed.validate (h : Concealed S) : Concealed (S.validate G i p) := by
  rw [State.validate]
  split
  · exact h.refuse 404
  · split
    · exact h.refuse 401
    · rw [State.accept]
      split
      · exact h.refuse 401
      · split
        · exact h.refuse (i := i) (p := p) 401
        · split
          · exact h.refuse 403
          · split
            · exact h.refuse 429
            · exact h.settle (i := i) (p := p) fun _ _ hphase => by cases hphase

theorem Concealed.send {request : Request} {g : Grant} (h : Concealed S) (hguarded : Guarded G S)
    (hi : S.requests[i]? = some ⟨request, .accepted g⟩)
    (hdiscreet : Discreet G S (.send i) = true) :
    Concealed (S.send G i ⟨request, .accepted g⟩ g) := by
  rw [State.send]
  split
  · rename_i route secret hroute hkey
    split
    · exact h.refuse 413
    · rename_i hbody
      refine h.settle ?_
      intro g' out hphase
      cases hphase
      simp only [Discreet, hi, hbody, decide_false, Bool.false_or] at hdiscreet
      simp only [hroute, Option.all_some, Bool.not_eq_true'] at hdiscreet
      obtain ⟨m, hm, htoken, -⟩ :=
        (hguarded.granted _ (List.mem_of_getElem? hi) g rfl).minted
      obtain ⟨htext, hhidden⟩ := hguarded.drawn m hm
      rw [htoken] at htext hhidden
      exact outgoing_hides htext hhidden hroute hkey hdiscreet
  · exact h.refuse 500

theorem Concealed.step {e : Event} (h : Concealed S) (hguarded : Guarded G S)
    (hstep : Steps G S e S') (hdiscreet : Discreet G S e = true) : Concealed S' := by
  cases e with
  | mint headers req token =>
      simp only [Steps, CredGateway.step] at hstep
      split at hstep
      · obtain ⟨-, expires, rfl⟩ := mint_cases hstep
        exact h
      · cases hstep
        exact h
  | exchange headers req token expiresIn =>
      simp only [Steps, CredGateway.step, State.exchange] at hstep
      split at hstep
      · split at hstep <;> cases hstep
        exact h
      · cases hstep
        exact h
  | revoke headers token =>
      simp only [Steps, CredGateway.step, State.revoke] at hstep
      split at hstep
      · split at hstep <;> cases hstep <;> exact h
      · cases hstep
        exact h
  | revokeCap i =>
      simp only [Steps, CredGateway.step, State.revokeCap] at hstep
      split at hstep <;> cases hstep
      exact h
  | arrive request =>
      cases hstep
      intro p hp g out hphase
      rcases List.mem_append.mp hp with hold | hnew
      · exact h p hold g out hphase
      · rw [List.mem_singleton.mp hnew] at hphase
        cases hphase
  | validate i =>
      simp only [Steps, CredGateway.step] at hstep
      split at hstep <;> cases hstep
      exact h.validate
  | send i =>
      simp only [Steps, CredGateway.step] at hstep
      split at hstep <;> cases hstep
      rename_i request g hi
      exact h.send hguarded hi hdiscreet
  | tick n =>
      cases hstep
      exact h

end Concealment

/-! ## The gateway over whole runs -/

/-- What stands behind a request that was forwarded. -/
structure Forwarded (G : Gateway) (S : State) (request : Request) (g : Grant) (out : Outgoing) :
    Prop where
  presented : ∃ route secret, G.routes.lookup request.route = some route ∧
    G.keys.lookup request.route = some secret ∧
    capabilityFrom request.headers route.header = some g.token ∧
    out.headers.filter (fun h => toAsciiLowercase h.name == route.header) =
      [route.credential secret]
  minted : ∃ m ∈ S.minted, m.token = g.token ∧ m.route = request.route ∧ g.instant < m.expires
  standing : g.token ∉ g.revoked

/-- In every run a request is forwarded with the key of a route only on a capability for it
that was good when it was presented, at most as often as the quota says, and never on a
token of a provider; and no capability goes on in a run in which each request that is
sent has it in the credential header of the route alone. -/
theorem capability_safe {G : Gateway} {es : List Event} {S : State}
    (h : Runs (Steps G) {} es S) :
    (∀ p ∈ S.requests, ∀ g out, p.phase = .forwarded g out → Forwarded G S p.request g out) ∧
      (∀ m ∈ S.minted, ∀ quota, m.quota = some quota → S.uses m.token ≤ quota.toNat) ∧
      (∀ p ∈ S.requests, ∀ g, p.phase.grant = some g → g.token ∉ S.exchanged) ∧
      (Runs (During (Steps G) fun s e => Discreet G s e = true) {} es S → Concealed S) := by
  have hguarded : Guarded G S := h.invariant (Guarded G) Guarded.step (guarded_init G)
  refine ⟨?_, hguarded.quota, ?_, ?_⟩
  · intro p hp g out hphase
    have hgrant : p.phase.grant = some g := by
      rw [hphase]
      rfl
    have hgranted := hguarded.granted p hp g hgrant
    obtain ⟨route, secret, hroute, hkey, rfl⟩ := hguarded.forwarded p hp g out hphase
    obtain ⟨route', hroute', htoken⟩ := hgranted.presented
    obtain rfl : route = route' := Option.some.inj (hroute.symm.trans hroute')
    exact ⟨⟨route, secret, hroute, hkey, htoken, outgoing_credential⟩, hgranted.minted,
      hgranted.standing⟩
  · intro p hp g hg
    obtain ⟨m, hm, htoken, -⟩ := (hguarded.granted p hp g hg).minted
    rw [← htoken]
    exact hguarded.minted_not_exchanged hm
  · intro hdiscreet
    have hboth : Guarded G S ∧ Concealed S := by
      refine hdiscreet.invariant (fun s => Guarded G s ∧ Concealed s) ?_ ⟨guarded_init G, ?_⟩
      · intro s e t hs hstep
        exact ⟨hs.1.step hstep.1, hs.2.step hs.1 hstep.1 hstep.2⟩
      · intro p hp
        exact absurd hp List.not_mem_nil
    exact hboth.2

def anthropic : Gateway where
  routes := [("anthropic", ⟨"https://api.anthropic.com", "x-api-key", rfl⟩)]
  keys := [("anthropic", "sk-ant-real")]
  exchange := []
  admin := "admin"
  keyed := by simp

def anthropicToken : String := "0123456789abcdef0123456789abcdef0123456789abcdef0123456789abcdef"

/-- A capability is minted for one request, and presented in the header. -/
def presentedIn (header start : String) : List Event :=
  [.mint [⟨"authorization", bytes "Bearer admin"⟩] ⟨"attempt", "anthropic", 60, some 1⟩
      anthropicToken,
    .arrive ⟨"anthropic", "v1/messages", none, "POST",
      [⟨header, bytes (start ++ anthropicToken)⟩], []⟩,
    .validate 0, .send 0]

theorem unguessed_anthropicToken : State.unguessed anthropic {} anthropicToken = true := by
  unfold State.unguessed isNewToken Gateway.hides Header.shows
  rw [← String.length_toList]
  simp only [show anthropicToken.toList = _ from String.toList_ofList]
  rfl

theorem nonEmpty_anthropicToken : nonEmpty anthropicToken = some anthropicToken := by
  have hkept : ((anthropicToken.toList.dropWhile isWhitespace).reverse.dropWhile
      isWhitespace).reverse = anthropicToken.toList := by
    rw [show anthropicToken.toList = _ from String.toList_ofList]
    rfl
  have htrim : trim anthropicToken = anthropicToken := by
    rw [trim, hkept, String.ofList_toList]
  rw [nonEmpty, htrim, if_neg (by decide)]

/-- The headers that the token is taken from. -/
theorem capabilityFrom_direct :
    capabilityFrom [⟨"x-api-key", bytes ("" ++ anthropicToken)⟩] "x-api-key" =
      some anthropicToken := by
  have hvisible : (bytes ("" ++ anthropicToken)).all visibleAscii = true := rfl
  have hchars : ((bytes ("" ++ anthropicToken)).map fun b => Char.ofNat b.toNat) =
      anthropicToken.toList := by
    rw [show anthropicToken.toList = _ from String.toList_ofList]
    rfl
  have hheader : getHeader [⟨"x-api-key", bytes ("" ++ anthropicToken)⟩] "x-api-key" =
      some anthropicToken := by
    change Header.toStr ⟨"x-api-key", bytes ("" ++ anthropicToken)⟩ = _
    rw [Header.toStr, if_pos hvisible, hchars, String.ofList_toList]
  rw [capabilityFrom, hheader, Option.bind_some, nonEmpty_anthropicToken,
    if_neg (by decide)]
  rfl

theorem bytes_append (start text : String) : bytes (start ++ text) = bytes start ++ bytes text := by
  simp [bytes]

theorem capabilityFrom_bearer :
    capabilityFrom [⟨"authorization", bytes ("Bearer " ++ anthropicToken)⟩] "x-api-key" =
      some anthropicToken := by
  have hvisible : (bytes ("Bearer " ++ anthropicToken)).all visibleAscii = true := by
    rw [bytes_append]
    rfl
  have hchars : ((bytes ("Bearer " ++ anthropicToken)).map fun b => Char.ofNat b.toNat) =
      ("Bearer " ++ anthropicToken).toList := by
    rw [bytes_append, String.toList_append,
      show anthropicToken.toList = _ from String.toList_ofList]
    rfl
  have hdirect : getHeader [⟨"authorization", bytes ("Bearer " ++ anthropicToken)⟩]
      "x-api-key" = none := rfl
  have hheader : getHeader [⟨"authorization", bytes ("Bearer " ++ anthropicToken)⟩]
      "authorization" = some ("Bearer " ++ anthropicToken) := by
    change Header.toStr ⟨"authorization", bytes ("Bearer " ++ anthropicToken)⟩ = _
    rw [Header.toStr, if_pos hvisible, hchars, String.ofList_toList]
  have hstrip : stripPrefix "Bearer " ("Bearer " ++ anthropicToken) = some anthropicToken := by
    have hstart : startsWith ("Bearer " ++ anthropicToken) "Bearer " = true := by
      rw [startsWith, String.toList_append, List.isPrefixOf_iff_prefix]
      exact List.prefix_append _ _
    rw [stripPrefix, if_pos hstart, String.toList_append, List.drop_left' (by rfl),
      String.ofList_toList]
  rw [capabilityFrom, hdirect, hheader, Option.bind_some, hstrip, Option.bind_some,
    nonEmpty_anthropicToken, if_neg (by decide)]
  rfl

def presentedRequest (headers : List Header) : Request :=
  ⟨"anthropic", "v1/messages", none, "POST", headers, []⟩

/-- A capability is minted, and taken from the headers of one request. -/
theorem run_presented {headers : List Header}
    (h : capabilityFrom headers "x-api-key" = some anthropicToken) : ∃ S g,
      Runs (During (Steps anthropic) fun s e => Discreet anthropic s e = true) {}
        [.mint [⟨"authorization", bytes "Bearer admin"⟩] ⟨"attempt", "anthropic", 60, some 1⟩
            anthropicToken,
          .arrive (presentedRequest headers), .validate 0] S ∧
        S.requests = [⟨presentedRequest headers, .accepted g⟩] ∧ g.token = anthropicToken := by
  have hadmin : adminOk anthropic [⟨"authorization", bytes "Bearer admin"⟩] = true := by
    rfl
  have hopen : (anthropic.exchange.contains "anthropic" ||
      (anthropic.routes.lookup "anthropic").isNone) = false := by decide
  have hlookup : anthropic.routes.lookup (presentedRequest headers).route =
      some ⟨"https://api.anthropic.com", "x-api-key", rfl⟩ := rfl
  have hshown : capabilityFrom (presentedRequest headers).headers "x-api-key" =
      some anthropicToken := h
  have hlive : ¬ 0 + nanos (min (max 60 1) (24 * 60 * 60)) ≤ 0 := by decide
  have hroute : ¬ "anthropic" ≠ (presentedRequest headers).route := fun hne => hne rfl
  have hquota : (some (1 : UInt32)).any (fun quota => decide (quota ≤ 0)) = false := rfl
  have heval : ∃ S g, [Event.mint [⟨"authorization", bytes "Bearer admin"⟩]
        ⟨"attempt", "anthropic", 60, some 1⟩ anthropicToken,
      .arrive (presentedRequest headers), .validate 0].foldlM (fun s e =>
        if Discreet anthropic s e then step anthropic s e else none) {} = some S ∧
      S.requests = [⟨presentedRequest headers, .accepted g⟩] ∧ g.token = anthropicToken := by
    simp only [List.foldlM_cons, List.foldlM_nil, Discreet, step, hadmin, if_true, State.mint,
      hopen, unguessed_anthropicToken, Bool.not_true, Bool.or_false, Bool.false_eq_true, if_false,
      Option.bind_eq_bind, Option.bind_some, List.nil_append, List.getElem?_cons_zero,
      State.validate, hlookup, hshown, State.accept, Function.update_self, hlive, hroute, hquota]
    exact ⟨_, _, rfl, rfl, rfl⟩
  obtain ⟨S, g, hS, hrequests, htoken⟩ := heval
  exact ⟨S, g, Runs.foldlM hS, hrequests, htoken⟩

theorem send_presented {headers : List Header} {S : State} {g : Grant} {route : Route}
    (hroute : anthropic.routes.lookup "anthropic" = some route)
    (hS : S.requests = [⟨presentedRequest headers, .accepted g⟩]) :
    ∃ S', Steps anthropic S (.send 0) S' ∧ S'.requests = [⟨presentedRequest headers,
      .forwarded g (route.outgoing "sk-ant-real" (presentedRequest headers))⟩] := by
  refine ⟨S.setPhase 0 ⟨presentedRequest headers, .accepted g⟩
    (.forwarded g (route.outgoing "sk-ant-real" (presentedRequest headers))), ?_, ?_⟩
  · unfold Steps step
    simp only [hS, List.getElem?_cons_zero, State.send]
    rw [show anthropic.routes.lookup (presentedRequest headers).route = some route from hroute]
    rfl
  · simp only [State.setPhase, hS, List.set_cons_zero]

theorem capability_safe_api_key : ∃ S,
    Runs (Steps anthropic) {} (presentedIn "x-api-key" "") S ∧
      (∃ p ∈ S.requests, ∃ g out, p.phase = .forwarded g out ∧
        Forwarded anthropic S p.request g out) ∧ Concealed S := by
  obtain ⟨S, g, hrun, hrequests, htoken⟩ := run_presented capabilityFrom_direct
  obtain ⟨route, hroute⟩ : ∃ route, anthropic.routes.lookup "anthropic" = some route := ⟨_, rfl⟩
  obtain ⟨S', hsend, hrequests'⟩ := send_presented hroute hrequests
  have hkept : (presentedRequest [⟨"x-api-key", bytes ("" ++ anthropicToken)⟩]).repeats route
      anthropicToken = false := by
    cases hroute
    unfold Request.repeats
    simp only [show anthropicToken.toList = _ from String.toList_ofList]
    rfl
  have hdiscreet : Discreet anthropic S (.send 0) = true := by
    simp only [Discreet, hrequests, List.getElem?_cons_zero, htoken]
    rw [show (presentedRequest _).route = "anthropic" from rfl, hroute, Option.all_some,
      hkept]
    exact Bool.or_true _
  have hall := hrun.trans (.single ⟨hsend, hdiscreet⟩)
  have hplain := hall.mono fun hstep => hstep.1
  obtain ⟨hforwarded, -, -, hconcealed⟩ := capability_safe hplain
  have hmem : _ ∈ S'.requests := hrequests' ▸ List.mem_singleton_self _
  exact ⟨S', hplain, ⟨_, hmem, _, _, rfl, hforwarded _ hmem _ _ rfl⟩, hconcealed hall⟩

/-- Presented as a bearer token on a route with another header, it goes on with the request. -/
theorem bearer_capability_forwarded : ∃ S,
    Runs (Steps anthropic) {} (presentedIn "authorization" "Bearer ") S ∧
      ∃ p ∈ S.requests, ∃ g out, p.phase = .forwarded g out ∧ out.shows g.token = true := by
  obtain ⟨S, g, hrun, hrequests, htoken⟩ := run_presented capabilityFrom_bearer
  obtain ⟨route, hroute, hheader⟩ : ∃ route, anthropic.routes.lookup "anthropic" = some route ∧
      route.header = "x-api-key" := ⟨_, rfl, rfl⟩
  obtain ⟨S', hsend, hrequests'⟩ := send_presented hroute hrequests
  have hplain := (hrun.mono fun hstep => hstep.1).trans (.single hsend)
  have hmem : _ ∈ S'.requests := hrequests' ▸ List.mem_singleton_self _
  refine ⟨S', hplain, _, hmem, g, _, rfl, ?_⟩
  have hdrops : route.drops ⟨"authorization", bytes ("Bearer " ++ anthropicToken)⟩ = false := by
    rw [Route.drops, hheader]
    rfl
  have hshows : Header.shows ⟨"authorization", bytes ("Bearer " ++ anthropicToken)⟩ g.token =
      true := by
    rw [Header.shows, htoken, bytes_append, Bool.or_eq_true]
    exact .inr (decide_eq_true ⟨bytes "Bearer ", [], List.append_nil _⟩)
  have hsent : (⟨"authorization", bytes ("Bearer " ++ anthropicToken)⟩ : Header) ∈
      (route.outgoing "sk-ant-real" (presentedRequest
        [⟨"authorization", bytes ("Bearer " ++ anthropicToken)⟩])).headers :=
    List.mem_append_left _ (List.mem_filter.mpr ⟨List.mem_singleton_self _, by simp [hdrops]⟩)
  rw [Outgoing.shows, List.any_eq_true.mpr ⟨_, hsent, hshows⟩, Bool.or_true, Bool.true_or]

end AgentGrid.CredGateway
