import AgentGrid.Foundation.Transition
import AgentGrid.Store.OpencodeProfiles

/-!
# Pulls of the opencode profile

A node asks the control plane for the profile it is assigned and writes it to its
`opencode.json`, unless the file hashes to what the control plane says.  The hash
that the heartbeat reports is a value in memory, beside the file.  Pulls may
overlap: each trigger starts one of its own.

A config goes as the text it is stored as, since what is parsed prints as that
text.  `fresh` says of a pull that the assigned config has not changed since it
was answered, and `settled` that a pull has completed so and it has not since.
-/

namespace AgentGrid.Node.ProfilePull

open AgentGrid.Foundation AgentGrid.Store.Opencode

structure Files where
  /-- `opencode.json`. -/
  config : Option String := none
  /-- `opencode.json.tmp`. -/
  tmp : Option String := none
  /-- `opencode.json.agentgrid.bak`. -/
  backup : Option String := none
deriving DecidableEq

inductive Phase
  | requested
  | answered (active : Option Body)
  | compared (body : Body)
  | staged (body : Body)
  | installed (body : Body)
  | reported (body : Body)
deriving DecidableEq

structure Pull where
  phase : Phase := .requested
  fresh : Bool := true
deriving DecidableEq

structure World where
  db : ProfileDb := {}
  files : Files := {}
  /-- `APPLIED_HASH`. -/
  applied : Option String := none
  pulls : List Pull := []
  settled : Bool := false
deriving DecidableEq

inductive Event
  | control (tx : ProfileTx)
  | start
  | answer (i : Nat)
  /-- The answer is no success. -/
  | refuse (i : Nat)
  | compare (i : Nat)
  | stage (i : Nat)
  | install (i : Nat)
  | report (i : Nat)
  | finish (i : Nat)
  /-- The pull returns an error. -/
  | fail (i : Nat)
  | restart

namespace World

variable (w : World)

def advance (i : Nat) (p : Pull) (phase : Phase) : World :=
  { w with pulls := w.pulls.set i { p with phase := phase } }

def drop (i : Nat) : World := { w with pulls := w.pulls.eraseIdx i }

/-- A pull returns `Ok`. -/
def complete (i : Nat) (p : Pull) : World :=
  { w with pulls := w.pulls.eraseIdx i, settled := w.settled || p.fresh }

end World

section Node

variable (sha256Hex : String → String) (nodeId : String)

/-- `node_opencode_profile`. -/
def nodeOpencodeProfile (db : ProfileDb) : Option Body :=
  (lookup NodeProfile.id nodeId db.nodes).bind fun node =>
    node.opencodeProfileId.bind fun id =>
      (lookup Profile.id id db.profiles).map fun row => (row.configJson, row.hash)

def currentHash (files : Files) : Option String := files.config.map sha256Hex

/-- The bodies of a transaction come with their hash, as `normalize_config` makes them. -/
def issued : ProfileTx → Bool
  | .upsertRow _ body _ _ _ _ | .addRevision _ body _ => body.2 == sha256Hex body.1
  | _ => true

def control (w : World) (tx : ProfileTx) : World :=
  let db := (exec tx w.db).1
  if nodeOpencodeProfile nodeId db = nodeOpencodeProfile nodeId w.db then { w with db := db }
  else
    { w with
      db := db
      settled := false
      pulls := w.pulls.map fun p => { p with fresh := false } }

def compareHash (w : World) (i : Nat) (p : Pull) (active : Option Body) : World :=
  if currentHash sha256Hex w.files = active.map Prod.snd then w.complete i p
  else
    match active with
    | none => w.complete i p
    | some body => w.advance i p (.compared body)

/-- The start of `apply_config`, up to the temporary file. -/
def stageConfig (w : World) (i : Nat) (p : Pull) (body : Body) : World :=
  if currentHash sha256Hex w.files = some (sha256Hex body.1) then w.advance i p (.installed body)
  else
    { w.advance i p (.staged body) with
      files := { w.files with
        tmp := some body.1
        backup := w.files.config.or w.files.backup } }

/-- The rename, which fails when another pull has moved the temporary file. -/
def installConfig (w : World) (i : Nat) (p : Pull) (body : Body) : World :=
  match w.files.tmp with
  | none => w.drop i
  | some text =>
      { w.advance i p (.installed body) with
        files := { w.files with config := some text, tmp := none } }

def setAppliedHash (w : World) (i : Nat) (p : Pull) (body : Body) : World :=
  { w.advance i p (.reported body) with applied := some (sha256Hex body.1) }

def step (w : World) : Event → Option World
  | .control tx => if issued sha256Hex tx then some (control nodeId w tx) else none
  | .start => some { w with pulls := w.pulls ++ [{}] }
  | .answer i =>
      match w.pulls[i]? with
      | some ⟨.requested, _⟩ =>
          some (w.advance i ⟨.requested, true⟩ (.answered (nodeOpencodeProfile nodeId w.db)))
      | _ => none
  | .refuse i =>
      match w.pulls[i]? with
      | some ⟨.requested, fresh⟩ => some (w.complete i ⟨.requested, fresh⟩)
      | _ => none
  | .compare i =>
      match w.pulls[i]? with
      | some ⟨.answered active, fresh⟩ =>
          some (compareHash sha256Hex w i ⟨.answered active, fresh⟩ active)
      | _ => none
  | .stage i =>
      match w.pulls[i]? with
      | some ⟨.compared body, fresh⟩ =>
          some (stageConfig sha256Hex w i ⟨.compared body, fresh⟩ body)
      | _ => none
  | .install i =>
      match w.pulls[i]? with
      | some ⟨.staged body, fresh⟩ => some (installConfig w i ⟨.staged body, fresh⟩ body)
      | _ => none
  | .report i =>
      match w.pulls[i]? with
      | some ⟨.installed body, fresh⟩ =>
          some (setAppliedHash sha256Hex w i ⟨.installed body, fresh⟩ body)
      | _ => none
  | .finish i =>
      match w.pulls[i]? with
      | some ⟨.reported body, fresh⟩ => some (w.complete i ⟨.reported body, fresh⟩)
      | _ => none
  | .fail i => some (w.drop i)
  | .restart => some { w with applied := none, pulls := [] }

def Steps (w : World) (e : Event) (w' : World) : Prop := step sha256Hex nodeId w e = some w'

/-- A pull that is left alone, as far as its comparison. -/
def furtherPull (w : World) : Option World :=
  (step sha256Hex nodeId w .start).bind fun w₁ =>
    (step sha256Hex nodeId w₁ (.answer w.pulls.length)).bind fun w₂ =>
      step sha256Hex nodeId w₂ (.compare w.pulls.length)

/-- The file and the heartbeat say what the profile says. -/
def Converged (w : World) : Prop :=
  w.settled = true → ∀ body, nodeOpencodeProfile nodeId w.db = some body →
    currentHash sha256Hex w.files = some body.2 ∧
    (∃ w', furtherPull sha256Hex nodeId w = some w' ∧ w'.files = w.files ∧
      w'.pulls = w.pulls) ∧
    w.applied = some body.2

end Node

/-! ## Hashes -/

section Hashes

variable {sha256Hex : String → String} {db : ProfileDb}

def Hashed (sha256Hex : String → String) (body : Body) : Prop := body.2 = sha256Hex body.1

/-- Every body that the tables hold has its hash beside it. -/
structure AllHashed (sha256Hex : String → String) (db : ProfileDb) : Prop where
  live : ∀ row ∈ db.profiles, Hashed sha256Hex (row.configJson, row.hash)
  prev : ∀ row ∈ db.profiles, ∀ body ∈ row.prev, Hashed sha256Hex body
  revisions : ∀ r ∈ db.revisions, Hashed sha256Hex r.body

theorem normalizeConfig_hashed {v : Json} {body : Body}
    (h : normalizeConfig sha256Hex v = some body) : Hashed sha256Hex body := by
  rw [normalizeConfig.eq_def] at h
  split at h
  · split at h
    · exact Option.some_inj.mp h ▸ rfl
    · cases h
  · cases h

theorem AllHashed.congr {db' : ProfileDb} (h : AllHashed sha256Hex db)
    (hprofiles : ∀ row ∈ db'.profiles, row ∈ db.profiles)
    (hrevisions : ∀ r ∈ db'.revisions, r ∈ db.revisions) : AllHashed sha256Hex db' where
  live row hrow := h.live row (hprofiles row hrow)
  prev row hrow := h.prev row (hprofiles row hrow)
  revisions r hr := h.revisions r (hrevisions r hr)

theorem AllHashed.addRevision (h : AllHashed sha256Hex db) (profileId : String) {body : Body}
    (hbody : Hashed sha256Hex body) (now : String) :
    AllHashed sha256Hex (db.addRevision profileId body now) where
  live := h.live
  prev := h.prev
  revisions r hr := by
    rcases List.mem_append.mp hr with hold | hnew
    · exact h.revisions r hold
    · rw [List.mem_singleton.mp hnew]
      exact hbody

theorem AllHashed.upsertRow (h : AllHashed sha256Hex db) (name : String) {body : Body}
    (hbody : Hashed sha256Hex body) (expiresAt pinned : Option String) (now newId : String) :
    AllHashed sha256Hex (db.upsertRow name body expiresAt pinned now newId).1 := by
  rw [ProfileDb.upsertRow]
  split
  · rename_i row hrow
    have hmem : row ∈ db.profiles := (lookup_mem hrow).1
    constructor
    · intro row' hrow'
      obtain ⟨old, hold, rfl⟩ := mem_updateWhere.mp hrow'
      split
      · exact hbody
      · exact h.live old hold
    · intro row' hrow' body' hbody'
      obtain ⟨old, hold, rfl⟩ := mem_updateWhere.mp hrow'
      split at hbody'
      · obtain rfl := Option.some_inj.mp hbody'
        exact h.live row hmem
      · exact h.prev old hold body' hbody'
    · exact h.revisions
  · constructor
    · intro row hrow
      rcases List.mem_append.mp hrow with hold | hnew
      · exact h.live row hold
      · rw [List.mem_singleton.mp hnew]
        exact hbody
    · intro row hrow body' hbody'
      rcases List.mem_append.mp hrow with hold | hnew
      · exact h.prev row hold body' hbody'
      · rw [List.mem_singleton.mp hnew] at hbody'
        cases hbody'
    · exact h.revisions

theorem AllHashed.walkBack (profileId now : String) (k : Nat) {stack : List Body} {cur : Body}
    (h : AllHashed sha256Hex db) (hstack : ∀ body ∈ stack, Hashed sha256Hex body)
    (hcur : Hashed sha256Hex cur) :
    (∀ body ∈ (ProfileDb.walkBack profileId now k stack cur db).1, Hashed sha256Hex body) ∧
      Hashed sha256Hex (ProfileDb.walkBack profileId now k stack cur db).2.1 ∧
      AllHashed sha256Hex (ProfileDb.walkBack profileId now k stack cur db).2.2 := by
  induction k generalizing stack cur db with
  | zero => exact ⟨hstack, hcur, h⟩
  | succ k ih =>
      rw [ProfileDb.walkBack]
      split
      · exact ⟨hstack, hcur, h⟩
      · rename_i top htop
        exact ih (h.addRevision profileId hcur now)
          (fun body hbody => hstack body (List.dropLast_subset stack hbody))
          (hstack top (List.mem_of_getLast? htop))

theorem AllHashed.rollback (h : AllHashed sha256Hex db) (name : String) (steps : Nat)
    (now : String) : AllHashed sha256Hex (db.rollback name steps now).1 := by
  rw [ProfileDb.rollback]
  split
  · exact h
  · rename_i row hrow
    have hmem : row ∈ db.profiles := (lookup_mem hrow).1
    have hstack : ∀ body ∈ row.prev.toList ++ db.revisionsOf row.id, Hashed sha256Hex body := by
      intro body hbody
      rcases List.mem_append.mp hbody with hprev | hrevision
      · exact h.prev row hmem body (Option.mem_toList.mp hprev)
      · obtain ⟨r, hr, rfl⟩ := List.mem_map.mp hrevision
        exact h.revisions r (List.mem_filter.mp hr).1
    simp only
    split
    · exact h
    · obtain ⟨hrest, hcur, hdb⟩ :=
        h.walkBack row.id now (max steps 1) hstack (h.live row hmem)
      constructor
      · intro row' hrow'
        obtain ⟨old, hold, rfl⟩ := mem_updateWhere.mp hrow'
        split
        · exact hcur
        · exact hdb.live old hold
      · intro row' hrow' body hbody
        obtain ⟨old, hold, rfl⟩ := mem_updateWhere.mp hrow'
        split at hbody
        · rw [Profile.prev.eq_def] at hbody
          simp only at hbody
          split at hbody
          · rename_i json hash hjson hhash
            obtain ⟨top, htop, rfl⟩ := Option.map_eq_some_iff.mp hjson
            rw [htop, Option.map_some, Option.some_inj] at hhash
            rw [← Option.some_inj.mp hbody, ← hhash]
            exact hrest top (List.mem_of_getLast? htop)
          · cases hbody
        · exact hdb.prev old hold body hbody
      · exact hdb.revisions

theorem AllHashed.delete (h : AllHashed sha256Hex db) (name : String) :
    AllHashed sha256Hex (db.delete name).1 := by
  rw [ProfileDb.delete]
  split
  · exact h
  · exact h.congr (fun row hrow => (List.mem_filter.mp hrow).1)
      fun r hr => (List.mem_filter.mp hr).1

theorem AllHashed.assign (h : AllHashed sha256Hex db) (nodeId : String)
    (profileId : Option String) : AllHashed sha256Hex (db.assign nodeId profileId).1 :=
  ⟨h.live, h.prev, h.revisions⟩

theorem AllHashed.exec (h : AllHashed sha256Hex db) {tx : ProfileTx}
    (htx : issued sha256Hex tx = true) : AllHashed sha256Hex (exec tx db).1 := by
  cases tx with
  | upsertRow name body expiresAt pinned now newId =>
      exact h.upsertRow name (beq_iff_eq.mp htx) expiresAt pinned now newId
  | addRevision profileId body now => exact h.addRevision profileId (beq_iff_eq.mp htx) now
  | rollback name steps now => exact h.rollback name steps now
  | delete name => exact h.delete name
  | move targets =>
      have hall : ∀ (targets : List (String × String)) (db : ProfileDb),
          AllHashed sha256Hex db →
          AllHashed sha256Hex (targets.foldl (fun db t => (db.assign t.1 (some t.2)).1) db) := by
        intro targets
        induction targets with
        | nil => exact fun _ hdb => hdb
        | cons t targets ih => exact fun db hdb => ih _ (hdb.assign t.1 (some t.2))
      exact hall targets db h
  | deleteWithFallback name fallbackId =>
      simp only [Store.Opencode.exec, ProfileDb.deleteWithFallback]
      split
      · exact h.delete name
      · refine AllHashed.delete ?_ name
        exact ⟨h.live, h.prev, h.revisions⟩
  | assign nodeId profileId => exact h.assign nodeId profileId
  | audit profileName => exact ⟨h.live, h.prev, h.revisions⟩
  | getProfile name => exact h
  | onArms keepId otherId => exact h
  | expired now => exact h
  | nodesFor profileId => exact h
  | hashOf profileId => exact h

theorem AllHashed.assigned {nodeId : String} (h : AllHashed sha256Hex db) {body : Body}
    (hbody : nodeOpencodeProfile nodeId db = some body) : body.2 = sha256Hex body.1 := by
  obtain ⟨node, -, hrow⟩ := Option.bind_eq_some_iff.mp hbody
  obtain ⟨id, -, hrow⟩ := Option.bind_eq_some_iff.mp hrow
  obtain ⟨row, hlookup, rfl⟩ := Option.map_eq_some_iff.mp hrow
  exact h.live row (lookup_mem hlookup).1

end Hashes

/-! ## Pulls whose answer still holds -/

def Phase.late : Phase → Bool
  | .staged _ | .installed _ | .reported _ => true
  | _ => false

/-- What a pull has seen and done, when its answer still holds. -/
def Phase.Fits (sha256Hex : String → String) (active : Option Body) (files : Files)
    (applied : Option String) : Phase → Prop
  | .requested => True
  | .answered answer => answer = active
  | .compared body => active = some body
  | .staged body => active = some body ∧ (files.tmp = none ∨ files.tmp = some body.1)
  | .installed body => active = some body ∧ currentHash sha256Hex files = some body.2
  | .reported body =>
      active = some body ∧ currentHash sha256Hex files = some body.2 ∧ applied = some body.2

section Agreement

variable (sha256Hex : String → String) (nodeId : String)

structure Agreed (w : World) : Prop where
  hashed : AllHashed sha256Hex w.db
  pulls : ∀ p ∈ w.pulls, p.fresh = true →
    p.phase.Fits sha256Hex (nodeOpencodeProfile nodeId w.db) w.files w.applied
  settled : w.settled = true → ∀ body, nodeOpencodeProfile nodeId w.db = some body →
    currentHash sha256Hex w.files = some body.2 ∧ w.applied = some body.2

/-- The node is assigned a profile and has settled on it. -/
def World.holding (w : World) : Bool := w.settled && (nodeOpencodeProfile nodeId w.db).isSome

/-- No pull that still holds has begun to write, and the node has not settled. -/
def World.clear (w : World) : Bool :=
  !w.holding nodeId && w.pulls.all fun p => !(p.fresh && p.phase.late)

/-- The steps that keep the node to its profile. -/
def keeps (w : World) : Event → Bool
  | .refuse i =>
      w.settled || (nodeOpencodeProfile nodeId w.db).isNone || (w.pulls[i]?).all fun p => !p.fresh
  | .compare i =>
      match w.pulls[i]? with
      | some ⟨.answered (some body), true⟩ =>
          currentHash sha256Hex w.files != some body.2 || w.applied == some body.2
      | _ => true
  | .stage i | .install i | .report i => (w.pulls[i]?).all fun p => p.fresh || w.clear nodeId
  | .restart => !w.holding nodeId
  | _ => true

end Agreement

section Preservation

variable {sha256Hex : String → String} {nodeId : String} {w : World} {i : Nat} {p : Pull}

theorem Agreed.init (nodes : List NodeProfile) (files : Files) :
    Agreed sha256Hex nodeId { db := { nodes := nodes }, files := files } where
  hashed := ⟨fun _ h => absurd h List.not_mem_nil, fun _ h => absurd h List.not_mem_nil,
    fun _ h => absurd h List.not_mem_nil⟩
  pulls _ h := absurd h List.not_mem_nil
  settled h := Bool.noConfusion h

theorem Agreed.advance (h : Agreed sha256Hex nodeId w) {phase : Phase}
    (hphase : p.fresh = true →
      phase.Fits sha256Hex (nodeOpencodeProfile nodeId w.db) w.files w.applied) :
    Agreed sha256Hex nodeId (w.advance i p phase) where
  hashed := h.hashed
  pulls q hq hfresh := by
    rcases List.mem_or_eq_of_mem_set hq with hold | rfl
    · exact h.pulls q hold hfresh
    · exact hphase hfresh
  settled := h.settled

theorem Agreed.drop (h : Agreed sha256Hex nodeId w) : Agreed sha256Hex nodeId (w.drop i) where
  hashed := h.hashed
  pulls q hq := h.pulls q (List.mem_of_mem_eraseIdx hq)
  settled := h.settled

theorem Agreed.complete (h : Agreed sha256Hex nodeId w)
    (hdone : p.fresh = true → ∀ body, nodeOpencodeProfile nodeId w.db = some body →
      currentHash sha256Hex w.files = some body.2 ∧ w.applied = some body.2) :
    Agreed sha256Hex nodeId (w.complete i p) where
  hashed := h.hashed
  pulls q hq := h.pulls q (List.mem_of_mem_eraseIdx hq)
  settled hsettled := by
    rcases Bool.or_eq_true_iff.mp hsettled with hold | hfresh
    · exact h.settled hold
    · exact hdone hfresh

theorem Agreed.control (h : Agreed sha256Hex nodeId w) {tx : ProfileTx}
    (htx : issued sha256Hex tx = true) : Agreed sha256Hex nodeId (control nodeId w tx) := by
  have hhashed := h.hashed.exec htx
  rw [ProfilePull.control]
  split
  · rename_i hsame
    constructor
    · exact hhashed
    · simp only [hsame]
      exact h.pulls
    · simp only [hsame]
      exact h.settled
  · constructor
    · exact hhashed
    · intro q hq hfresh
      obtain ⟨old, -, rfl⟩ := List.mem_map.mp hq
      cases hfresh
    · intro hsettled
      cases hsettled

theorem Agreed.start (h : Agreed sha256Hex nodeId w) :
    Agreed sha256Hex nodeId { w with pulls := w.pulls ++ [{}] } where
  hashed := h.hashed
  pulls q hq hfresh := by
    rcases List.mem_append.mp hq with hold | hnew
    · exact h.pulls q hold hfresh
    · rw [List.mem_singleton.mp hnew]
      exact True.intro
  settled := h.settled

theorem Agreed.compare (h : Agreed sha256Hex nodeId w) {active : Option Body} {fresh : Bool}
    (hp : w.pulls[i]? = some ⟨.answered active, fresh⟩)
    (hkeeps : keeps sha256Hex nodeId w (.compare i) = true) :
    Agreed sha256Hex nodeId (compareHash sha256Hex w i ⟨.answered active, fresh⟩ active) := by
  have hfits : fresh = true → active = nodeOpencodeProfile nodeId w.db := fun hfresh =>
    h.pulls _ (List.mem_of_getElem? hp) hfresh
  rw [compareHash.eq_def]
  split
  · rename_i hhash
    refine h.complete fun hfresh body hbody => ?_
    have hactive : active = some body := (hfits hfresh).trans hbody
    have hmatch : currentHash sha256Hex w.files = some body.2 := by rw [hhash, hactive]; rfl
    rw [keeps, hp, hactive, show fresh = true from hfresh] at hkeeps
    simp only [hmatch, bne_self_eq_false, Bool.false_or, beq_iff_eq] at hkeeps
    exact ⟨hmatch, hkeeps⟩
  · cases active with
    | none =>
        refine h.complete fun hfresh body hbody => ?_
        cases (hfits hfresh).trans hbody
    | some body => exact h.advance fun hfresh => (hfits hfresh).symm

theorem not_holding {body : Body} (h : w.holding nodeId = false) (hsettled : w.settled = true)
    (hbody : nodeOpencodeProfile nodeId w.db = some body) : False := by
  rw [World.holding, hsettled, hbody] at h
  cases h

/-- A stale pull that writes meets none that has begun to. -/
theorem writes_fresh {phase phase' : Phase} {fresh : Bool}
    (hkeeps : ((w.pulls[i]?).all fun p => p.fresh || w.clear nodeId) = true)
    (hp : w.pulls[i]? = some ⟨phase, fresh⟩) (hlate : phase'.late = true)
    (hq : ⟨phase', true⟩ ∈ w.pulls) : fresh = true := by
  rw [hp, Option.all_some] at hkeeps
  refine (Bool.or_eq_true_iff.mp hkeeps).resolve_right fun hclear => ?_
  have hearly := List.all_eq_true.mp (Bool.and_eq_true_iff.mp hclear).2 _ hq
  rw [hlate] at hearly
  cases hearly

theorem settled_fresh {phase : Phase} {fresh : Bool} {body : Body}
    (hkeeps : ((w.pulls[i]?).all fun p => p.fresh || w.clear nodeId) = true)
    (hp : w.pulls[i]? = some ⟨phase, fresh⟩) (hsettled : w.settled = true)
    (hbody : nodeOpencodeProfile nodeId w.db = some body) : fresh = true := by
  rw [hp, Option.all_some] at hkeeps
  refine (Bool.or_eq_true_iff.mp hkeeps).resolve_right fun hclear => ?_
  exact not_holding (Bool.not_eq_true' _ ▸ (Bool.and_eq_true_iff.mp hclear).1) hsettled hbody

theorem Agreed.stage (h : Agreed sha256Hex nodeId w) {body : Body} {fresh : Bool}
    (hp : w.pulls[i]? = some ⟨.compared body, fresh⟩)
    (hkeeps : keeps sha256Hex nodeId w (.stage i) = true) :
    Agreed sha256Hex nodeId (stageConfig sha256Hex w i ⟨.compared body, fresh⟩ body) := by
  have hactive (hfresh : fresh = true) : nodeOpencodeProfile nodeId w.db = some body :=
    h.pulls _ (List.mem_of_getElem? hp) hfresh
  rw [stageConfig]
  split
  · rename_i hhash
    refine h.advance fun hfresh => ⟨hactive hfresh, ?_⟩
    rw [hhash, h.hashed.assigned (hactive hfresh)]
  · constructor
    · exact h.hashed
    · intro q hq hfresh
      rcases List.mem_or_eq_of_mem_set hq with hold | rfl
      · have hfits := h.pulls q hold hfresh
        obtain ⟨phase, _⟩ := q
        subst hfresh
        cases phase with
        | requested => exact True.intro
        | answered answer => exact hfits
        | compared body' => exact hfits
        | staged body' =>
            have hsame := hactive (writes_fresh hkeeps hp rfl hold)
            refine ⟨hfits.1, .inr ?_⟩
            exact congrArg (fun b : Body => some b.1) (Option.some_inj.mp (hsame.symm.trans hfits.1))
        | installed body' => exact hfits
        | reported body' => exact hfits
      · exact ⟨hactive hfresh, .inr rfl⟩
    · exact h.settled

theorem Agreed.install (h : Agreed sha256Hex nodeId w) {body : Body} {fresh : Bool}
    (hp : w.pulls[i]? = some ⟨.staged body, fresh⟩)
    (hkeeps : keeps sha256Hex nodeId w (.install i) = true) :
    Agreed sha256Hex nodeId (installConfig w i ⟨.staged body, fresh⟩ body) := by
  have hfits (hfresh : fresh = true) :
      nodeOpencodeProfile nodeId w.db = some body ∧
        (w.files.tmp = none ∨ w.files.tmp = some body.1) :=
    h.pulls _ (List.mem_of_getElem? hp) hfresh
  rw [installConfig]
  split
  · exact h.drop
  · rename_i text htmp
    have hwritten (hfresh : fresh = true) :
        nodeOpencodeProfile nodeId w.db = some body ∧ some (sha256Hex text) = some body.2 := by
      obtain ⟨hactive, hnone | hsome⟩ := hfits hfresh
      · cases hnone.symm.trans htmp
      · rw [h.hashed.assigned hactive, Option.some_inj.mp (htmp.symm.trans hsome)]
        exact ⟨hactive, rfl⟩
    have hother {body' : Body} (hfresh : fresh = true)
        (hbody' : nodeOpencodeProfile nodeId w.db = some body') :
        some (sha256Hex text) = some body'.2 := by
      obtain ⟨hactive, hhash⟩ := hwritten hfresh
      rw [hhash, Option.some_inj.mp (hactive.symm.trans hbody')]
    constructor
    · exact h.hashed
    · intro q hq hfresh
      rcases List.mem_or_eq_of_mem_set hq with hold | rfl
      · have hq' := h.pulls q hold hfresh
        obtain ⟨phase, _⟩ := q
        subst hfresh
        cases phase with
        | requested => exact True.intro
        | answered answer => exact hq'
        | compared body' => exact hq'
        | staged body' => exact ⟨hq'.1, .inl rfl⟩
        | installed body' =>
            exact ⟨hq'.1, hother (writes_fresh hkeeps hp rfl hold) hq'.1⟩
        | reported body' =>
            exact ⟨hq'.1, hother (writes_fresh hkeeps hp rfl hold) hq'.1, hq'.2.2⟩
      · exact hwritten hfresh
    · intro hsettled body' hbody'
      exact ⟨hother (settled_fresh hkeeps hp hsettled hbody') hbody',
        (h.settled hsettled body' hbody').2⟩

theorem Agreed.report (h : Agreed sha256Hex nodeId w) {body : Body} {fresh : Bool}
    (hp : w.pulls[i]? = some ⟨.installed body, fresh⟩)
    (hkeeps : keeps sha256Hex nodeId w (.report i) = true) :
    Agreed sha256Hex nodeId (setAppliedHash sha256Hex w i ⟨.installed body, fresh⟩ body) := by
  have hfits (hfresh : fresh = true) :
      nodeOpencodeProfile nodeId w.db = some body ∧
        currentHash sha256Hex w.files = some body.2 :=
    h.pulls _ (List.mem_of_getElem? hp) hfresh
  have hother {body' : Body} (hfresh : fresh = true)
      (hbody' : nodeOpencodeProfile nodeId w.db = some body') :
      some (sha256Hex body.1) = some body'.2 := by
    rw [← h.hashed.assigned (hfits hfresh).1,
      Option.some_inj.mp ((hfits hfresh).1.symm.trans hbody')]
  constructor
  · exact h.hashed
  · intro q hq hfresh
    rcases List.mem_or_eq_of_mem_set hq with hold | rfl
    · have hq' := h.pulls q hold hfresh
      obtain ⟨phase, _⟩ := q
      subst hfresh
      cases phase with
      | requested => exact True.intro
      | answered answer => exact hq'
      | compared body' => exact hq'
      | staged body' => exact hq'
      | installed body' => exact hq'
      | reported body' =>
          exact ⟨hq'.1, hq'.2.1, hother (writes_fresh hkeeps hp rfl hold) hq'.1⟩
    · exact ⟨(hfits hfresh).1, (hfits hfresh).2, hother hfresh (hfits hfresh).1⟩
  · intro hsettled body' hbody'
    exact ⟨(h.settled hsettled body' hbody').1,
      hother (settled_fresh hkeeps hp hsettled hbody') hbody'⟩

theorem Agreed.step {w' : World} {e : Event} (h : Agreed sha256Hex nodeId w)
    (hstep : Steps sha256Hex nodeId w e w') (hkeeps : keeps sha256Hex nodeId w e = true) :
    Agreed sha256Hex nodeId w' := by
  unfold Steps at hstep
  cases e with
  | control tx =>
      simp only [ProfilePull.step] at hstep
      split at hstep
      · rename_i htx
        exact Option.some_inj.mp hstep ▸ h.control htx
      · cases hstep
  | start => exact Option.some_inj.mp hstep ▸ h.start
  | answer i =>
      simp only [ProfilePull.step] at hstep
      split at hstep
      · exact Option.some_inj.mp hstep ▸ h.advance fun _ => rfl
      · cases hstep
  | refuse i =>
      simp only [ProfilePull.step] at hstep
      split at hstep
      · rename_i fresh hp
        refine Option.some_inj.mp hstep ▸ h.complete fun hfresh body hbody => ?_
        rw [keeps, hbody, hp, Option.all_some, show fresh = true from hfresh] at hkeeps
        have hsettled : w.settled = true := by simpa using hkeeps
        exact h.settled hsettled body hbody
      · cases hstep
  | compare i =>
      simp only [ProfilePull.step] at hstep
      split at hstep
      · rename_i active fresh hp
        exact Option.some_inj.mp hstep ▸ h.compare hp hkeeps
      · cases hstep
  | stage i =>
      simp only [ProfilePull.step] at hstep
      split at hstep
      · rename_i body fresh hp
        exact Option.some_inj.mp hstep ▸ h.stage hp hkeeps
      · cases hstep
  | install i =>
      simp only [ProfilePull.step] at hstep
      split at hstep
      · rename_i body fresh hp
        exact Option.some_inj.mp hstep ▸ h.install hp hkeeps
      · cases hstep
  | report i =>
      simp only [ProfilePull.step] at hstep
      split at hstep
      · rename_i body fresh hp
        exact Option.some_inj.mp hstep ▸ h.report hp hkeeps
      · cases hstep
  | finish i =>
      simp only [ProfilePull.step] at hstep
      split at hstep
      · rename_i body fresh hp
        refine Option.some_inj.mp hstep ▸ h.complete fun hfresh body' hbody' => ?_
        have hfits := h.pulls _ (List.mem_of_getElem? hp) hfresh
        obtain rfl := Option.some_inj.mp (hbody'.symm.trans hfits.1)
        exact hfits.2
      · cases hstep
  | fail i => exact Option.some_inj.mp hstep ▸ h.drop
  | restart =>
      refine Option.some_inj.mp hstep ▸ ⟨h.hashed, fun _ hq => absurd hq List.not_mem_nil, ?_⟩
      intro hsettled body hbody
      exact (not_holding (Bool.not_eq_true' _ ▸ hkeeps) hsettled hbody).elim

/-- A pull that finds the file as it should be returns there. -/
theorem furtherPull_idle {body : Body} (hbody : nodeOpencodeProfile nodeId w.db = some body)
    (hhash : currentHash sha256Hex w.files = some body.2) :
    ∃ w', furtherPull sha256Hex nodeId w = some w' ∧ w'.files = w.files ∧ w'.pulls = w.pulls := by
  have hstart : step sha256Hex nodeId w .start = some { w with pulls := w.pulls ++ [{}] } := rfl
  have hasked : (w.pulls ++ [({} : Pull)])[w.pulls.length]? = some {} :=
    List.getElem?_concat_length
  have hanswer : step sha256Hex nodeId { w with pulls := w.pulls ++ [{}] }
      (.answer w.pulls.length) =
        some { w with pulls := w.pulls ++ [⟨.answered (some body), true⟩] } := by
    simp only [step, hasked, World.advance, hbody]
    rw [List.set_append_right _ _ (Nat.le_refl _), Nat.sub_self, List.set_cons_zero]
  have hanswered : (w.pulls ++ [(⟨.answered (some body), true⟩ : Pull)])[w.pulls.length]? =
      some ⟨.answered (some body), true⟩ := List.getElem?_concat_length
  have hcompare : step sha256Hex nodeId
      { w with pulls := w.pulls ++ [⟨.answered (some body), true⟩] }
      (.compare w.pulls.length) = some { w with settled := true } := by
    simp only [step, hanswered, compareHash, hhash, Option.map_some, if_true, World.complete]
    rw [List.eraseIdx_append_of_length_le (Nat.le_refl _), Nat.sub_self, List.eraseIdx_cons_zero,
      List.append_nil, Bool.or_true]
  refine ⟨{ w with settled := true }, ?_, rfl, rfl⟩
  rw [furtherPull, hstart, Option.bind_some, hanswer, Option.bind_some, hcompare]

theorem Agreed.converged (h : Agreed sha256Hex nodeId w) : Converged sha256Hex nodeId w := by
  intro hsettled body hbody
  obtain ⟨hhash, happlied⟩ := h.settled hsettled body hbody
  exact ⟨hhash, furtherPull_idle hbody hhash, happlied⟩

/-- Whatever the control plane does, as long as the steps keep the node to its profile. -/
theorem pulls_converge {nodes : List NodeProfile} {files : Files} {events : List Event}
    (h : Runs (During (Steps sha256Hex nodeId) fun w e => keeps sha256Hex nodeId w e = true)
      { db := { nodes := nodes }, files := files } events w) : Converged sha256Hex nodeId w := by
  have hagreed : Agreed sha256Hex nodeId w :=
    h.invariant (Agreed sha256Hex nodeId) (fun hw hstep => hw.step hstep.1 hstep.2)
      (Agreed.init nodes files)
  exact hagreed.converged

end Preservation

/-! ## One profile -/

/-- The config without members. -/
def emptyBody : Body :=
  ("\x7b\x7d", "44136fa355b3678a1146ad16f7e8649e94fb4fc21fe77e8310c060f61caaff8a")

def assigned : List Event :=
  [.control (.upsertRow "p" emptyBody none none "t0" "p1"), .control (.assign "n1" (some "p1"))]

def wholePull : List Event :=
  [.start, .answer 0, .compare 0, .stage 0, .install 0, .report 0, .finish 0]

def oneNode : World := { db := { nodes := [{ id := "n1" }] } }

/-- The node after its pull. -/
def pulled : World where
  db := ((assigned ++ wholePull).foldlM (step (fun _ => emptyBody.2) "n1") oneNode).elim {} World.db
  files := { config := some emptyBody.1 }
  applied := some emptyBody.2
  settled := true

theorem pulled_run : Runs (During (Steps (fun _ => emptyBody.2) "n1") fun w e =>
    keeps (fun _ => emptyBody.2) "n1" w e = true) oneNode (assigned ++ wholePull) pulled :=
  Runs.foldlM (by rfl)

theorem pulled_converged :
    Converged (fun _ => emptyBody.2) "n1" pulled ∧ pulled.settled = true ∧
      nodeOpencodeProfile "n1" pulled.db = some emptyBody :=
  ⟨pulls_converge pulled_run, rfl, by rfl⟩

/-- After a restart a pull finds the file in place and reports nothing. -/
theorem restart_unreported : ¬ ∀ (sha256Hex : String → String) (nodeId : String)
    (nodes : List NodeProfile) (files : Files) (events : List Event) (w : World),
    Runs (Steps sha256Hex nodeId) { db := { nodes := nodes }, files := files } events w →
      Converged sha256Hex nodeId w := by
  intro h
  have hrun : Runs (Steps (fun _ => emptyBody.2) "n1") oneNode
      (assigned ++ wholePull ++ [Event.restart, .start, .answer 0, .compare 0])
      { pulled with applied := none } := Runs.of_foldlM (by rfl)
  have happlied := (h _ "n1" [{ id := "n1" }] {} _ _ hrun rfl emptyBody (by rfl)).2.2
  cases happlied

end AgentGrid.Node.ProfilePull
