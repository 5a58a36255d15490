import AgentGrid.Store.Artifacts

/-!
# Reconciling artifacts while uploads run

`storage_reconcile` lists the rows, walks the directories, unlinks the files
that belong to no listed row and deletes the listed rows whose file is gone.
An upload writes a temporary file, renames it into place, unlinks the plain
file of a compressed artifact and commits its row.  The steps of both
interleave; a failed or crashed upload ends at any of them.
-/

namespace AgentGrid.Store

open AgentGrid.Foundation

def stripZst (file : String) : Option String :=
  if endsWith file ".zst" then some (String.ofList (file.toList.take (file.toList.length - 4)))
  else none

/-- The row name the walk takes a file for. -/
def baseName (file : String) : String := (stripZst file).getD file

def isTmpName (file : String) : Bool := endsWith file ".tmp.upload" || endsWith file ".tmp"

inductive UploadStage
  | written | renamed | ready
deriving DecidableEq

/-- An upload under way; `lost` when its file was unlinked under it. -/
structure Upload where
  req : SaveRequest
  stage : UploadStage := .written
  lost : Bool := false

def Upload.published (u : Upload) : Bool := u.stage != .written

inductive SweepPhase
  | walking | unlinking | checking
deriving DecidableEq

/-- A reconcile under way: the rows it listed with their flag, the files it
will unlink, the frames it did not find and the rows it will delete. -/
structure Sweep where
  dryRun : Bool
  live : String → String → Option Bool
  phase : SweepPhase := .walking
  orphans : List (String × String) := []
  absent : List (String × String) := []
  missing : List (String × String) := []

inductive Loss
  | file (attemptId file : String)
  | row (attemptId name : String)
deriving DecidableEq

/-- `losses` collects the live files and the rows a reconcile destroyed. -/
structure Depot where
  store : ArtifactStore := {}
  uploads : Nat → Option Upload := fun _ => none
  sweep : Option Sweep := none
  losses : List Loss := []

inductive DepotOp
  | start (id : Nat) (req : SaveRequest)
  | rename (id : Nat)
  | dropPlain (id : Nat) (unlinked : Bool)
  | commit (id : Nat) (now : String)
  | abort (id : Nat)
  | list (dryRun : Bool)
  | scan (attemptId file : String)
  | endWalk
  | unlink
  | endUnlink
  | statFrame (attemptId name : String)
  | statPlain (attemptId name : String)
  | prune (attemptId name : String)
  | finish

namespace Depot

def setUpload (d : Depot) (id : Nat) (u : Option Upload) : Depot :=
  { d with uploads := fun id' => if id' = id then u else d.uploads id' }

def live (d : Depot) (attemptId name : String) : Option Bool :=
  (d.store.rows attemptId name).map ArtifactRow.storedCompressed

/-- A row is served from the file. -/
def backed (d : Depot) (attemptId file : String) : Bool :=
  (d.store.files attemptId file).isSome &&
    ((d.store.rows attemptId file).any (fun row => !row.storedCompressed) ||
      (stripZst file).any fun name =>
        (d.store.rows attemptId name).any (·.storedCompressed))

/-- `remove_file` by the reconcile. -/
def unlinkFile (c : Codec) (d : Depot) (attemptId file : String) : Depot :=
  { d with
    store := d.store.put attemptId file none
    losses := if d.backed attemptId file then d.losses ++ [.file attemptId file] else d.losses
    uploads := fun id => (d.uploads id).map fun u =>
      if u.published ∧ u.req.attemptId = attemptId ∧ u.req.onDiskName c = file then
        { u with lost := true }
      else u }

def pruneRow (d : Depot) (attemptId name : String) : Depot :=
  { d with
    store := d.store.record attemptId name none
    losses := if (d.store.rows attemptId name).isSome then d.losses ++ [.row attemptId name]
      else d.losses }

end Depot

/-- One step of an upload. -/
def uploadStep (c : Codec) (d : Depot) (id : Nat) (u : Upload) : DepotOp → Option Depot
  | .rename _ =>
      if u.stage = .written then
        some { (d.setUpload id (some { u with
            stage := if u.req.storedCompressed c then .renamed else .ready })) with
          store := d.store.put u.req.attemptId (u.req.onDiskName c)
            (some (u.req.writeBytes c)) }
      else none
  | .dropPlain _ unlinked =>
      if u.stage = .renamed then
        some { (d.setUpload id (some { u with stage := .ready })) with
          store := if unlinked then d.store.put u.req.attemptId u.req.name none
            else d.store }
      else none
  | .commit _ now =>
      if u.stage = .ready then
        some { (d.setUpload id none) with
          store := d.store.record u.req.attemptId u.req.name (some (u.req.row c now))
          losses := if u.lost then
            d.losses ++ [.file u.req.attemptId (u.req.onDiskName c)] else d.losses }
      else none
  | .abort _ => some (d.setUpload id none)
  | _ => none

/-- One step of the reconcile. -/
def sweepStep (c : Codec) (d : Depot) (sw : Sweep) : DepotOp → Option Depot
  | .scan attemptId file =>
      if sw.phase = .walking then
        if (d.store.files attemptId file).isSome ∧ isTmpName file = false ∧
            sw.live attemptId (baseName file) = none then
          some { d with sweep := some { sw with
            orphans := sw.orphans ++ [(attemptId, file)] } }
        else some d
      else none
  | .endWalk =>
      if sw.phase = .walking then
        some { d with sweep := some { sw with phase := .unlinking } }
      else none
  | .unlink =>
      match sw.orphans with
      | (attemptId, file) :: orphans =>
          if sw.phase = .unlinking ∧ sw.dryRun = false then
            some { (d.unlinkFile c attemptId file) with
              sweep := some { sw with orphans := orphans } }
          else none
      | [] => none
  | .endUnlink =>
      if sw.phase = .unlinking ∧ (sw.dryRun = true ∨ sw.orphans = []) then
        some { d with sweep := some { sw with phase := .checking } }
      else none
  | .statFrame attemptId name =>
      if sw.phase = .checking ∧ sw.live attemptId name = some true then
        if (d.store.files attemptId (zst name)).isSome then some d
        else some { d with sweep := some { sw with
          absent := sw.absent ++ [(attemptId, name)] } }
      else none
  | .statPlain attemptId name =>
      if sw.phase = .checking ∧ (sw.live attemptId name = some false ∨
          (attemptId, name) ∈ sw.absent) then
        if (d.store.files attemptId name).isSome then some d
        else some { d with sweep := some { sw with
          missing := sw.missing ++ [(attemptId, name)] } }
      else none
  | .prune attemptId name =>
      if (attemptId, name) ∈ sw.missing then
        if sw.dryRun then some d else some (d.pruneRow attemptId name)
      else none
  | .finish => some { d with sweep := none }
  | _ => none

def DepotOp.upload : DepotOp → Option Nat
  | .rename id | .dropPlain id _ | .commit id _ | .abort id => some id
  | _ => none

def depotStep (c : Codec) (d : Depot) (op : DepotOp) : Option Depot :=
  match op with
  | .start id req =>
      match d.uploads id, req.check c with
      | none, .ok () => some (d.setUpload id (some { req := req }))
      | _, _ => none
  | .list dryRun =>
      match d.sweep with
      | none => some { d with sweep := some { dryRun := dryRun, live := d.live } }
      | some _ => none
  | op =>
      match op.upload with
      | some id => (d.uploads id).bind fun u => uploadStep c d id u op
      | none => d.sweep.bind fun sw => sweepStep c d sw op

def DepotStep (c : Codec) (d : Depot) (op : DepotOp) (d' : Depot) : Prop :=
  depotStep c d op = some d'

/-- The listed rows account for the file of the upload: its name is listed,
as compressed if the upload compresses; a plain name less `.zst` is listed
too. -/
structure Covered (c : Codec) (live : String → String → Option Bool) (req : SaveRequest) :
    Prop where
  known : ∃ flag, live req.attemptId req.name = some flag ∧
    (req.storedCompressed c = true → flag = true)
  base : req.storedCompressed c = false → ∀ base, req.name = zst base →
    live req.attemptId base ≠ none

/-- The reconcile starts when every plain row under a name `base.zst` has a
row `base` beside it and every file put into place is accounted for, and no
file is put into place under it that is not. -/
structure ListClear (c : Codec) (d : Depot) : Prop where
  rows : ∀ a n row, d.store.rows a n = some row → row.storedCompressed = false →
    ∀ base, n = zst base → d.live a base ≠ none
  uploads : ∀ id u, d.uploads id = some u → u.published = true → Covered c d.live u.req

/-- The plain file an upload unlinks is not the frame of another artifact nor
the file of a plain upload of the same name. -/
structure DropClear (c : Codec) (d : Depot) (req : SaveRequest) : Prop where
  same : ∀ id u, d.uploads id = some u → u.published = true →
    u.req.attemptId = req.attemptId → u.req.name = req.name →
      u.req.storedCompressed c = true
  rows : ∀ base row, req.name = zst base → d.store.rows req.attemptId base = some row →
    row.storedCompressed = false
  uploads : ∀ base id u, req.name = zst base → d.uploads id = some u →
    u.published = true → u.req.attemptId = req.attemptId → u.req.name = base →
      u.req.storedCompressed c = false
  sweep : ∀ base sw, req.name = zst base → d.sweep = some sw → sw.dryRun = false →
    sw.live req.attemptId base ≠ some true

def DepotOp.Clear (c : Codec) (d : Depot) : DepotOp → Prop
  | .list dryRun => dryRun = false → ListClear c d
  | .rename id => ∀ sw u, d.sweep = some sw → sw.dryRun = false → d.uploads id = some u →
      Covered c sw.live u.req
  | .dropPlain id _ => ∀ u, d.uploads id = some u → DropClear c d u.req
  | .abort id => ∀ u row, d.uploads id = some u → u.stage = .ready →
      d.store.rows u.req.attemptId u.req.name = some row → row.storedCompressed = false →
        d.store.files u.req.attemptId u.req.name ≠ none
  | _ => True

section Names

theorem stripZst_zst (name : String) : stripZst (zst name) = some name := by
  have hends : endsWith (zst name) ".zst" = true := by
    simp [endsWith, zst, List.isSuffixOf_iff_suffix]
  simp only [stripZst, hends, if_true, Option.some.injEq]
  apply String.toList_inj.mp
  simp [zst]

theorem eq_zst_of_stripZst {file name : String} (h : stripZst file = some name) :
    file = zst name := by
  unfold stripZst at h
  split at h
  · rename_i hends
    obtain ⟨front, hfront⟩ := List.isSuffixOf_iff_suffix.mp hends
    obtain rfl := Option.some.inj h
    apply String.toList_inj.mp
    rw [zst, String.toList_append, String.toList_ofList, ← hfront]
    simp
  · cases h

theorem baseName_zst (name : String) : baseName (zst name) = name := by
  simp [baseName, stripZst_zst]

/-- The walk takes a listed plain artifact for a listed row. -/
theorem baseName_listed {live : String → Option Bool} {name : String}
    (hname : live name ≠ none) (hbase : ∀ base, name = zst base → live base ≠ none) :
    live (baseName name) ≠ none := by
  unfold baseName
  cases hstrip : stripZst name with
  | none => exact hname
  | some base => exact hbase base (eq_zst_of_stripZst hstrip)

end Names

section Files

variable {s : ArtifactStore}

theorem put_ne {a a' f f' : String} {content : Option (List UInt8)}
    (h : a' = a → f' ≠ f) : (s.put a f content).files a' f' = s.files a' f' := by
  have hother : ¬ (a' = a ∧ f' = f) := fun hsame => h hsame.1 hsame.2
  simp [ArtifactStore.put, hother]

theorem put_some_present {a a' f f' : String} {bytes : List UInt8}
    (h : s.files a' f' ≠ none) : (s.put a f (some bytes)).files a' f' ≠ none := by
  simp only [ArtifactStore.put]
  split
  · simp
  · exact h

end Files

/-- The listed rows account for every row and every file put into place, and
each listed row still has its file. -/
structure Sweeping (c : Codec) (d : Depot) (sw : Sweep) : Prop where
  rows : ∀ a n row, d.store.rows a n = some row → sw.live a n ≠ none ∧
    (row.storedCompressed = false → ∀ base, n = zst base → sw.live a base ≠ none)
  uploads : ∀ id u, d.uploads id = some u → u.published = true → Covered c sw.live u.req
  orphans : ∀ a f, (a, f) ∈ sw.orphans → sw.live a (baseName f) = none
  plain : ∀ a n, sw.live a n = some false → d.store.files a n ≠ none ∧
    ∀ base, n = zst base → sw.live a base ≠ none
  frame : ∀ a n, sw.live a n = some true → d.store.files a (zst n) ≠ none
  absent : sw.absent = []
  missing : sw.missing = []

structure Guarded (c : Codec) (d : Depot) : Prop where
  frames : ∀ a n row, d.store.rows a n = some row → row.storedCompressed = true →
    d.store.files a (zst n) ≠ none
  plains : ∀ a n row, d.store.rows a n = some row → row.storedCompressed = false →
    d.store.files a n ≠ none ∨ ∃ id u, d.uploads id = some u ∧ u.stage = .ready ∧
      u.req.attemptId = a ∧ u.req.name = n ∧ u.req.storedCompressed c = true
  placed : ∀ id u, d.uploads id = some u → u.published = true →
    d.store.files u.req.attemptId (u.req.onDiskName c) ≠ none
  renamed : ∀ id u, d.uploads id = some u → u.stage = .renamed →
    u.req.storedCompressed c = true
  found : ∀ id u, d.uploads id = some u → u.lost = false
  sweep : ∀ sw, d.sweep = some sw → sw.dryRun = false → Sweeping c d sw
  losses : d.losses = []

section Uploads

variable {c : Codec} {d : Depot} {id : Nat} {u : Upload}

theorem onDiskName_compressed {req : SaveRequest} (h : req.storedCompressed c = true) :
    req.onDiskName c = zst req.name := by
  simp [SaveRequest.onDiskName, h]

theorem onDiskName_plain {req : SaveRequest} (h : req.storedCompressed c = false) :
    req.onDiskName c = req.name := by
  simp [SaveRequest.onDiskName, h]

theorem Guarded.start (h : Guarded c d) (hfree : d.uploads id = none) (req : SaveRequest) :
    Guarded c (d.setUpload id (some { req := req })) := by
  have hold : ∀ id' u', (d.setUpload id (some { req := req })).uploads id' = some u' →
      d.uploads id' = some u' ∨ u'.stage = .written ∧ u'.lost = false := by
    intro id' u' hu'
    simp only [Depot.setUpload] at hu'
    split at hu'
    · obtain rfl := Option.some.inj hu'
      exact .inr ⟨rfl, rfl⟩
    · exact .inl hu'
  have hkept : ∀ id' u', d.uploads id' = some u' →
      (d.setUpload id (some { req := req })).uploads id' = some u' := by
    intro id' u' hu'
    have hne : id' ≠ id := by
      rintro rfl
      rw [hfree] at hu'
      cases hu'
    simpa [Depot.setUpload, hne] using hu'
  constructor
  · exact h.frames
  · intro a n row hrow hplain
    rcases h.plains a n row hrow hplain with hfile | ⟨id', u', hu', hrest⟩
    · exact .inl hfile
    · exact .inr ⟨id', u', hkept id' u' hu', hrest⟩
  · intro id' u' hu' hpublished
    rcases hold id' u' hu' with hu' | ⟨hstage, _⟩
    · exact h.placed id' u' hu' hpublished
    · simp [Upload.published, hstage] at hpublished
  · intro id' u' hu' hrenamed
    rcases hold id' u' hu' with hu' | ⟨hstage, _⟩
    · exact h.renamed id' u' hu' hrenamed
    · rw [hstage] at hrenamed
      cases hrenamed
  · intro id' u' hu'
    rcases hold id' u' hu' with hu' | ⟨_, hlost⟩
    · exact h.found id' u' hu'
    · exact hlost
  · intro sw hsw hdry
    have hs := h.sweep sw hsw hdry
    refine ⟨hs.rows, ?_, hs.orphans, hs.plain, hs.frame, hs.absent, hs.missing⟩
    intro id' u' hu' hpublished
    rcases hold id' u' hu' with hu' | ⟨hstage, _⟩
    · exact hs.uploads id' u' hu' hpublished
    · simp [Upload.published, hstage] at hpublished
  · exact h.losses

theorem setUpload_cases {v : Option Upload} {id' : Nat} {u' : Upload}
    (h : (d.setUpload id v).uploads id' = some u') :
    v = some u' ∨ id' ≠ id ∧ d.uploads id' = some u' := by
  simp only [Depot.setUpload] at h
  split at h
  · exact .inl h
  · rename_i hne
    exact .inr ⟨hne, h⟩

theorem setUpload_other {v : Option Upload} {id' : Nat} {u' : Upload} (hne : id' ≠ id)
    (h : d.uploads id' = some u') : (d.setUpload id v).uploads id' = some u' := by
  simpa [Depot.setUpload, hne] using h

theorem Guarded.rename (h : Guarded c d) (hu : d.uploads id = some u)
    (hstage : u.stage = .written)
    (hclear : ∀ sw, d.sweep = some sw → sw.dryRun = false → Covered c sw.live u.req)
    {d' : Depot} (hd' : d' = { (d.setUpload id (some { u with
        stage := if u.req.storedCompressed c then .renamed else .ready })) with
      store := d.store.put u.req.attemptId (u.req.onDiskName c)
        (some (u.req.writeBytes c)) }) : Guarded c d' := by
  subst hd'
  constructor
  · exact fun a n row hrow hframe => put_some_present (h.frames a n row hrow hframe)
  · intro a n row hrow hplain
    rcases h.plains a n row hrow hplain with hfile | ⟨id', u', hu', hready, hrest⟩
    · exact .inl (put_some_present hfile)
    · refine .inr ⟨id', u', setUpload_other ?_ hu', hready, hrest⟩
      rintro rfl
      rw [Option.some.inj (hu.symm.trans hu'), hready] at hstage
      cases hstage
  · intro id' u' hu' hpublished
    rcases setUpload_cases hu' with hown | ⟨_, hother⟩
    · obtain rfl := Option.some.inj hown
      simp [ArtifactStore.put]
    · exact put_some_present (h.placed id' u' hother hpublished)
  · intro id' u' hu' hrenamed
    rcases setUpload_cases hu' with hown | ⟨_, hother⟩
    · obtain rfl := Option.some.inj hown
      cases hshape : u.req.storedCompressed c with
      | true => rfl
      | false => simp [hshape] at hrenamed
    · exact h.renamed id' u' hother hrenamed
  · intro id' u' hu'
    rcases setUpload_cases hu' with hown | ⟨_, hother⟩
    · obtain rfl := Option.some.inj hown
      exact h.found id u hu
    · exact h.found id' u' hother
  · intro sw hsw hdry
    have hs := h.sweep sw hsw hdry
    refine ⟨hs.rows, ?_, hs.orphans, ?_, ?_, hs.absent, hs.missing⟩
    · intro id' u' hu' hpublished
      rcases setUpload_cases hu' with hown | ⟨_, hother⟩
      · obtain rfl := Option.some.inj hown
        exact hclear sw hsw hdry
      · exact hs.uploads id' u' hother hpublished
    · intro a n hlive
      obtain ⟨hfile, hbase⟩ := hs.plain a n hlive
      exact ⟨put_some_present hfile, hbase⟩
    · exact fun a n hlive => put_some_present (hs.frame a n hlive)
  · exact h.losses

/-- The plain file of a compressed upload goes. -/
theorem Guarded.dropPlain (h : Guarded c d) (hu : d.uploads id = some u)
    (hstage : u.stage = .renamed) (hclear : DropClear c d u.req) {s : ArtifactStore}
    (hrows : s.rows = d.store.rows)
    (hfiles : ∀ a f, (a = u.req.attemptId → f ≠ u.req.name) →
      d.store.files a f ≠ none → s.files a f ≠ none) {d' : Depot}
    (hd' : d' = { (d.setUpload id (some { u with stage := .ready })) with store := s }) :
    Guarded c d' := by
  subst hd'
  have hshape := h.renamed id u hu hstage
  have hpub : u.published = true := by simp [Upload.published, hstage]
  have hold : ∀ id' u', (d.setUpload id (some { u with stage := .ready })).uploads id' =
      some u' → ∃ v, d.uploads id' = some v ∧ u'.req = v.req ∧ u'.lost = v.lost ∧
        (u'.published = true → v.published = true) ∧
        (u'.stage = .renamed → v.stage = .renamed) := by
    intro id' u' hu'
    simp only [Depot.setUpload] at hu'
    split at hu'
    · rename_i hid
      obtain rfl := Option.some.inj hu'
      exact ⟨u, hid ▸ hu, rfl, rfl, fun _ => hpub, fun hrenamed => by cases hrenamed⟩
    · exact ⟨u', hu', rfl, rfl, fun hpublished => hpublished, fun hrenamed => hrenamed⟩
  constructor
  · intro a n row hrow hframe
    simp only [hrows] at hrow
    refine hfiles a (zst n) ?_ (h.frames a n row hrow hframe)
    rintro rfl hname
    rw [hclear.rows n row hname.symm hrow] at hframe
    cases hframe
  · intro a n row hrow hplain
    simp only [hrows] at hrow
    by_cases hown : a = u.req.attemptId ∧ n = u.req.name
    · refine .inr ⟨id, { u with stage := .ready }, by simp [Depot.setUpload], rfl, ?_⟩
      exact ⟨hown.1.symm, hown.2.symm, hshape⟩
    · rcases h.plains a n row hrow hplain with hfile | ⟨id', u', hu', hready, hrest⟩
      · exact .inl (hfiles a n (fun ha hn => hown ⟨ha, hn⟩) hfile)
      · refine .inr ⟨id', u', setUpload_other ?_ hu', hready, hrest⟩
        rintro rfl
        rw [Option.some.inj (hu.symm.trans hu'), hready] at hstage
        cases hstage
  · intro id' u' hu' hpublished
    obtain ⟨v, hv, hreq, _, hvpub, _⟩ := hold id' u' hu'
    have hplaced := h.placed id' v hv (hvpub hpublished)
    rw [← hreq] at hplaced
    refine hfiles _ _ ?_ hplaced
    intro ha hname
    rw [hreq] at ha hname
    cases hframe : v.req.storedCompressed c with
    | true =>
        rw [onDiskName_compressed hframe] at hname
        rw [hclear.uploads v.req.name id' v hname.symm hv (hvpub hpublished) ha rfl] at hframe
        cases hframe
    | false =>
        rw [onDiskName_plain hframe] at hname
        rw [hclear.same id' v hv (hvpub hpublished) ha hname] at hframe
        cases hframe
  · intro id' u' hu' hrenamed
    obtain ⟨v, hv, hreq, _, _, hvrenamed⟩ := hold id' u' hu'
    rw [hreq]
    exact h.renamed id' v hv (hvrenamed hrenamed)
  · intro id' u' hu'
    obtain ⟨v, hv, _, hlost, _⟩ := hold id' u' hu'
    rw [hlost]
    exact h.found id' v hv
  · intro sw hsw hdry
    have hs := h.sweep sw hsw hdry
    refine ⟨?_, ?_, hs.orphans, ?_, ?_, hs.absent, hs.missing⟩
    · intro a n row hrow
      simp only [hrows] at hrow
      exact hs.rows a n row hrow
    · intro id' u' hu' hpublished
      obtain ⟨v, hv, hreq, _, hvpub, _⟩ := hold id' u' hu'
      rw [hreq]
      exact hs.uploads id' v hv (hvpub hpublished)
    · intro a n hlive
      obtain ⟨hfile, hbase⟩ := hs.plain a n hlive
      refine ⟨hfiles a n ?_ hfile, hbase⟩
      rintro rfl rfl
      obtain ⟨flag, hflag, hcompressed⟩ := (hs.uploads id u hu hpub).known
      rw [hlive] at hflag
      rw [← Option.some.inj hflag] at hcompressed
      cases hcompressed hshape
    · intro a n hlive
      refine hfiles a (zst n) ?_ (hs.frame a n hlive)
      rintro rfl hname
      exact hclear.sweep n sw hname.symm hsw hdry hlive
  · exact h.losses

theorem Guarded.commit (h : Guarded c d) (hu : d.uploads id = some u)
    (hstage : u.stage = .ready) (now : String) {d' : Depot}
    (hd' : d' = { (d.setUpload id none) with
      store := d.store.record u.req.attemptId u.req.name (some (u.req.row c now))
      losses := if u.lost then
        d.losses ++ [.file u.req.attemptId (u.req.onDiskName c)] else d.losses }) :
    Guarded c d' := by
  subst hd'
  have hpub : u.published = true := by simp [Upload.published, hstage]
  have hplaced := h.placed id u hu hpub
  have hother : ∀ id' u', (d.setUpload id none).uploads id' = some u' →
      d.uploads id' = some u' := by
    intro id' u' hu'
    rcases setUpload_cases hu' with hnone | ⟨_, hother⟩
    · cases hnone
    · exact hother
  have hrow : ∀ {a n row}, (d.store.record u.req.attemptId u.req.name
      (some (u.req.row c now))).rows a n = some row →
        a = u.req.attemptId ∧ n = u.req.name ∧ row = u.req.row c now ∨
          ¬ (a = u.req.attemptId ∧ n = u.req.name) ∧ d.store.rows a n = some row := by
    intro a n row hrow
    simp only [ArtifactStore.record] at hrow
    split at hrow
    · rename_i hsame
      exact .inl ⟨hsame.1, hsame.2, (Option.some.inj hrow).symm⟩
    · rename_i hne
      exact .inr ⟨hne, hrow⟩
  constructor
  · intro a n row hnew hframe
    rcases hrow hnew with ⟨rfl, rfl, rfl⟩ | ⟨_, hold⟩
    · rw [onDiskName_compressed hframe] at hplaced
      exact hplaced
    · exact h.frames a n row hold hframe
  · intro a n row hnew hplain
    rcases hrow hnew with ⟨rfl, rfl, rfl⟩ | ⟨hne, hold⟩
    · rw [onDiskName_plain hplain] at hplaced
      exact .inl hplaced
    · rcases h.plains a n row hold hplain with hfile | ⟨id', u', hu', hready, ha, hn, hrest⟩
      · exact .inl hfile
      · refine .inr ⟨id', u', setUpload_other ?_ hu', hready, ha, hn, hrest⟩
        rintro rfl
        obtain rfl := Option.some.inj (hu.symm.trans hu')
        exact hne ⟨ha.symm, hn.symm⟩
  · exact fun id' u' hu' hpublished => h.placed id' u' (hother id' u' hu') hpublished
  · exact fun id' u' hu' hrenamed => h.renamed id' u' (hother id' u' hu') hrenamed
  · exact fun id' u' hu' => h.found id' u' (hother id' u' hu')
  · intro sw hsw hdry
    have hs := h.sweep sw hsw hdry
    refine ⟨?_, ?_, hs.orphans, hs.plain, hs.frame, hs.absent, hs.missing⟩
    · intro a n row hnew
      rcases hrow hnew with ⟨rfl, rfl, rfl⟩ | ⟨_, hold⟩
      · have hcovered := hs.uploads id u hu hpub
        obtain ⟨flag, hflag, _⟩ := hcovered.known
        exact ⟨by simp [hflag], hcovered.base⟩
      · exact hs.rows a n row hold
    · exact fun id' u' hu' hpublished => hs.uploads id' u' (hother id' u' hu') hpublished
  · simp [h.found id u hu, h.losses]

theorem Guarded.abort (h : Guarded c d) (hu : d.uploads id = some u)
    (hclear : ∀ row, u.stage = .ready → d.store.rows u.req.attemptId u.req.name = some row →
      row.storedCompressed = false → d.store.files u.req.attemptId u.req.name ≠ none) :
    Guarded c (d.setUpload id none) := by
  have hother : ∀ id' u', (d.setUpload id none).uploads id' = some u' →
      d.uploads id' = some u' := by
    intro id' u' hu'
    rcases setUpload_cases hu' with hnone | ⟨_, hother⟩
    · cases hnone
    · exact hother
  constructor
  · exact h.frames
  · intro a n row hrow hplain
    rcases h.plains a n row hrow hplain with hfile | ⟨id', u', hu', hready, ha, hn, hrest⟩
    · exact .inl hfile
    · by_cases hid : id' = id
      · subst hid
        obtain rfl := Option.some.inj (hu.symm.trans hu')
        subst ha hn
        exact .inl (hclear row hready hrow hplain)
      · exact .inr ⟨id', u', setUpload_other hid hu', hready, ha, hn, hrest⟩
  · exact fun id' u' hu' hpublished => h.placed id' u' (hother id' u' hu') hpublished
  · exact fun id' u' hu' hrenamed => h.renamed id' u' (hother id' u' hu') hrenamed
  · exact fun id' u' hu' => h.found id' u' (hother id' u' hu')
  · intro sw hsw hdry
    have hs := h.sweep sw hsw hdry
    exact ⟨hs.rows, fun id' u' hu' hpublished => hs.uploads id' u' (hother id' u' hu')
      hpublished, hs.orphans, hs.plain, hs.frame, hs.absent, hs.missing⟩
  · exact h.losses

end Uploads

section Sweeps

variable {c : Codec} {d : Depot} {sw : Sweep}

/-- A step that only moves the reconcile on. -/
theorem Guarded.resweep (h : Guarded c d) {next : Option Sweep}
    (hnext : ∀ sw', next = some sw' → sw'.dryRun = false → Sweeping c d sw') :
    Guarded c { d with sweep := next } :=
  ⟨h.frames, h.plains, h.placed, h.renamed, h.found,
    fun sw' hsw' hdry =>
      have hs := hnext sw' hsw' hdry
      ⟨hs.rows, hs.uploads, hs.orphans, hs.plain, hs.frame, hs.absent, hs.missing⟩,
    h.losses⟩

theorem Guarded.list (h : Guarded c d) (hclear : ListClear c d) :
    Sweeping c d { dryRun := false, live := d.live } where
  rows a n row hrow := by
    refine ⟨by simp [Depot.live, hrow], ?_⟩
    exact hclear.rows a n row hrow
  uploads := hclear.uploads
  orphans a f hmem := by simp at hmem
  plain a n hlive := by
    obtain ⟨row, hrow, hplain⟩ := Option.map_eq_some_iff.mp hlive
    refine ⟨?_, hclear.rows a n row hrow hplain⟩
    rcases h.plains a n row hrow hplain with hfile | ⟨id, u, hu, hready, rfl, rfl, hshape⟩
    · exact hfile
    · have hpub : u.published = true := by simp [Upload.published, hready]
      obtain ⟨flag, hflag, hcompressed⟩ := (hclear.uploads id u hu hpub).known
      have hsame := hlive.symm.trans hflag
      rw [← Option.some.inj hsame] at hcompressed
      cases hcompressed hshape
  frame a n hlive := by
    obtain ⟨row, hrow, hframe⟩ := Option.map_eq_some_iff.mp hlive
    exact h.frames a n row hrow hframe
  absent := rfl
  missing := rfl

/-- The file of a published upload is accounted for. -/
theorem Covered.listed {live : String → String → Option Bool} {req : SaveRequest}
    (h : Covered c live req) : live req.attemptId (baseName (req.onDiskName c)) ≠ none := by
  obtain ⟨flag, hflag, _⟩ := h.known
  cases hshape : req.storedCompressed c with
  | true =>
      rw [onDiskName_compressed hshape, baseName_zst, hflag]
      simp
  | false =>
      rw [onDiskName_plain hshape]
      exact baseName_listed (by simp [hflag]) (h.base hshape)

/-- An orphan backs no row and no upload, so unlinking it loses nothing. -/
theorem Guarded.unlink (h : Guarded c d) (hsw : d.sweep = some sw) (hdry : sw.dryRun = false)
    {a f : String} {orphans : List (String × String)} (horphans : sw.orphans = (a, f) :: orphans)
    {d' : Depot} (hd' : d' = { (d.unlinkFile c a f) with
      sweep := some { sw with orphans := orphans } }) : Guarded c d' := by
  subst hd'
  have hs := h.sweep sw hsw hdry
  have horphan : sw.live a (baseName f) = none := hs.orphans a f (by simp [horphans])
  have hkept : ∀ {a' f'}, sw.live a' (baseName f') ≠ none → d.store.files a' f' ≠ none →
      (d.store.put a f none).files a' f' ≠ none := by
    intro a' f' hlisted hfile
    rw [put_ne]
    · exact hfile
    · rintro rfl rfl
      exact hlisted horphan
  have hframe : ∀ {a' n'}, sw.live a' n' ≠ none → d.store.files a' (zst n') ≠ none →
      (d.store.put a f none).files a' (zst n') ≠ none := by
    intro a' n' hlisted
    exact hkept (by rw [baseName_zst]; exact hlisted)
  have hnobacking : d.backed a f = false := by
    cases hbacked : d.backed a f with
    | false => rfl
    | true =>
        exfalso
        simp only [Depot.backed, Bool.and_eq_true, Bool.or_eq_true] at hbacked
        rcases hbacked.2 with hplain | hcompressed
        · obtain ⟨row, hrow, hplain⟩ := (Option.any_eq_true _ _).mp hplain
          obtain ⟨hlisted, hbase⟩ := hs.rows a f row hrow
          exact baseName_listed hlisted (hbase (by simpa using hplain)) horphan
        · obtain ⟨n, hstrip, hrows⟩ := (Option.any_eq_true _ _).mp hcompressed
          obtain ⟨row, hrow, _⟩ := (Option.any_eq_true _ _).mp hrows
          have hbase : baseName f = n := by simp [baseName, hstrip]
          exact (hs.rows a n row hrow).1 (hbase ▸ horphan)
  have hsame : (d.unlinkFile c a f).uploads = d.uploads := by
    funext id
    simp only [Depot.unlinkFile]
    cases hu : d.uploads id with
    | none => rfl
    | some u =>
        have hnot : ¬ (u.published ∧ u.req.attemptId = a ∧ u.req.onDiskName c = f) := by
          rintro ⟨hpub, rfl, rfl⟩
          exact (hs.uploads id u hu hpub).listed horphan
        simp [hnot]
  constructor
  · intro a' n' row hrow hcompressed
    exact hframe (hs.rows a' n' row hrow).1 (h.frames a' n' row hrow hcompressed)
  · intro a' n' row hrow hplain
    dsimp only
    rw [hsame]
    rcases h.plains a' n' row hrow hplain with hfile | hready
    · obtain ⟨hlisted, hbase⟩ := hs.rows a' n' row hrow
      exact .inl (hkept (baseName_listed hlisted (hbase hplain)) hfile)
    · exact .inr hready
  · intro id u hu hpub
    dsimp only at hu
    rw [hsame] at hu
    exact hkept (hs.uploads id u hu hpub).listed (h.placed id u hu hpub)
  · intro id u hu
    dsimp only at hu
    rw [hsame] at hu
    exact h.renamed id u hu
  · intro id u hu
    dsimp only at hu
    rw [hsame] at hu
    exact h.found id u hu
  · rintro sw' hsw' hdry'
    obtain rfl := Option.some.inj hsw'
    refine ⟨hs.rows, ?_, ?_, ?_, ?_, hs.absent, hs.missing⟩
    · intro id u hu
      dsimp only at hu
      rw [hsame] at hu
      exact hs.uploads id u hu
    · intro a' f' hmem
      exact hs.orphans a' f' (by rw [horphans]; exact List.mem_cons_of_mem _ hmem)
    · intro a' n' hlive
      dsimp only at hlive
      obtain ⟨hfile, hbase⟩ := hs.plain a' n' hlive
      have hlisted : sw.live a' n' ≠ none := by simp [hlive]
      exact ⟨hkept (baseName_listed hlisted hbase) hfile, hbase⟩
    · intro a' n' hlive
      dsimp only at hlive
      have hlisted : sw.live a' n' ≠ none := by simp [hlive]
      exact hframe hlisted (hs.frame a' n' hlive)
  · simp [Depot.unlinkFile, hnobacking, h.losses]

/-- Every step of a reconcile. -/
theorem Guarded.sweepStep (h : Guarded c d) (hsw : d.sweep = some sw) {op : DepotOp}
    {d' : Depot} (hstep : Store.sweepStep c d sw op = some d') : Guarded c d' := by
  have hkeep : ∀ sw' : Sweep, sw'.dryRun = sw.dryRun → sw'.live = sw.live →
      (∀ a f, (a, f) ∈ sw'.orphans → (a, f) ∈ sw.orphans ∨ sw.live a (baseName f) = none) →
      (sw.dryRun = false → sw.absent = [] → sw.missing = [] →
        sw'.absent = [] ∧ sw'.missing = []) →
      Guarded c { d with sweep := some sw' } := by
    intro sw' hdry hlive horphans hclean
    refine h.resweep ?_
    rintro _ hnext hdry'
    obtain rfl := Option.some.inj hnext
    rw [hdry] at hdry'
    have hs := h.sweep sw hsw hdry'
    obtain ⟨habsent, hmissing⟩ := hclean hdry' hs.absent hs.missing
    refine ⟨?_, ?_, ?_, ?_, ?_, habsent, hmissing⟩
    · rw [hlive]
      exact hs.rows
    · rw [hlive]
      exact hs.uploads
    · intro a f hmem
      rw [hlive]
      rcases horphans a f hmem with hold | hnone
      · exact hs.orphans a f hold
      · exact hnone
    · rw [hlive]
      exact hs.plain
    · rw [hlive]
      exact hs.frame
  cases op with
  | scan a f =>
      simp only [Store.sweepStep] at hstep
      split at hstep
      · split at hstep
        · rename_i hfound
          obtain rfl := Option.some.inj hstep
          refine hkeep _ rfl rfl ?_ fun _ habsent hmissing => ⟨habsent, hmissing⟩
          intro a' f' hmem
          rcases List.mem_append.mp hmem with hold | hnew
          · exact .inl hold
          · obtain ⟨rfl, rfl⟩ := Prod.mk.inj (List.mem_singleton.mp hnew)
            exact .inr hfound.2.2
        · obtain rfl := Option.some.inj hstep
          exact h
      · cases hstep
  | endWalk =>
      simp only [Store.sweepStep] at hstep
      split at hstep
      · obtain rfl := Option.some.inj hstep
        exact hkeep _ rfl rfl (fun _ _ => .inl) fun _ habsent hmissing => ⟨habsent, hmissing⟩
      · cases hstep
  | unlink =>
      simp only [Store.sweepStep] at hstep
      split at hstep
      · rename_i a f orphans horphans
        split at hstep
        · rename_i hphase
          exact h.unlink hsw hphase.2 horphans (Option.some.inj hstep).symm
        · cases hstep
      · cases hstep
  | endUnlink =>
      simp only [Store.sweepStep] at hstep
      split at hstep
      · obtain rfl := Option.some.inj hstep
        exact hkeep _ rfl rfl (fun _ _ => .inl) fun _ habsent hmissing => ⟨habsent, hmissing⟩
      · cases hstep
  | statFrame a n =>
      simp only [Store.sweepStep] at hstep
      split at hstep
      · rename_i hlive
        split at hstep
        · obtain rfl := Option.some.inj hstep
          exact h
        · rename_i hnone
          obtain rfl := Option.some.inj hstep
          refine hkeep _ rfl rfl (fun _ _ => .inl) fun hdry _ hmissing => ?_
          exact absurd ((h.sweep sw hsw hdry).frame a n hlive.2) (by simpa using hnone)
      · cases hstep
  | statPlain a n =>
      simp only [Store.sweepStep] at hstep
      split at hstep
      · rename_i hlive
        split at hstep
        · obtain rfl := Option.some.inj hstep
          exact h
        · rename_i hnone
          obtain rfl := Option.some.inj hstep
          refine hkeep _ rfl rfl (fun _ _ => .inl) fun hdry habsent hmissing => ?_
          rcases hlive.2 with hplain | hmem
          · exact absurd ((h.sweep sw hsw hdry).plain a n hplain).1 (by simpa using hnone)
          · rw [habsent] at hmem
            simp at hmem
      · cases hstep
  | prune a n =>
      simp only [Store.sweepStep] at hstep
      split at hstep
      · rename_i hmem
        split at hstep
        · obtain rfl := Option.some.inj hstep
          exact h
        · rename_i hdry
          rw [(h.sweep sw hsw (by simpa using hdry)).missing] at hmem
          simp at hmem
      · cases hstep
  | finish =>
      obtain rfl := Option.some.inj hstep
      exact h.resweep (by simp)
  | _ => cases hstep

end Sweeps

section Runs

variable {c : Codec}

theorem Guarded.uploadStep {d d' : Depot} {id : Nat} {u : Upload} {op : DepotOp}
    (h : Guarded c d) (hu : d.uploads id = some u) (hid : op.upload = some id)
    (hclear : op.Clear c d) (hstep : Store.uploadStep c d id u op = some d') :
    Guarded c d' := by
  cases op with
  | rename id' =>
      obtain rfl := Option.some.inj hid
      simp only [Store.uploadStep] at hstep
      split at hstep
      · rename_i hstage
        exact h.rename hu hstage (fun sw hsw hdry => hclear sw u hsw hdry hu)
          (Option.some.inj hstep).symm
      · cases hstep
  | dropPlain id' unlinked =>
      obtain rfl := Option.some.inj hid
      simp only [Store.uploadStep] at hstep
      split at hstep
      · rename_i hstage
        refine h.dropPlain hu hstage (hclear u hu) ?_ ?_ (Option.some.inj hstep).symm
        · split <;> rfl
        · intro a f hne hfile
          split
          · rw [put_ne hne]
            exact hfile
          · exact hfile
      · cases hstep
  | commit id' now =>
      obtain rfl := Option.some.inj hid
      simp only [Store.uploadStep] at hstep
      split at hstep
      · rename_i hstage
        exact h.commit hu hstage now (Option.some.inj hstep).symm
      · cases hstep
  | abort id' =>
      obtain rfl := Option.some.inj hid
      obtain rfl := Option.some.inj hstep
      exact h.abort hu fun row hready hrow hplain => hclear u row hu hready hrow hplain
  | _ => cases hid

theorem Guarded.step {d d' : Depot} {op : DepotOp} (h : Guarded c d)
    (hclear : op.Clear c d) (hstep : DepotStep c d op d') : Guarded c d' := by
  unfold DepotStep depotStep at hstep
  split at hstep
  · rename_i id req
    split at hstep
    · rename_i hfree _
      obtain rfl := Option.some.inj hstep
      exact h.start hfree req
    · cases hstep
  · rename_i dryRun
    split at hstep
    · obtain rfl := Option.some.inj hstep
      refine h.resweep ?_
      rintro _ hnext hdry
      obtain rfl := Option.some.inj hnext
      obtain rfl : dryRun = false := hdry
      exact h.list (hclear rfl)
    · cases hstep
  · split at hstep
    · rename_i id hid
      obtain ⟨u, hu, hstep⟩ := Option.bind_eq_some_iff.mp hstep
      exact h.uploadStep hu hid hclear hstep
    · obtain ⟨sw, hsw, hstep⟩ := Option.bind_eq_some_iff.mp hstep
      exact h.sweepStep hsw hstep

/-- Over every run whose steps are clear a reconcile unlinks no file of a row
or of an upload that commits, and deletes no row. -/
theorem reconcile_keeps_live {d : Depot} {ops : List DepotOp}
    (h : Runs (During (DepotStep c) fun d op => op.Clear c d) {} ops d) :
    d.losses = [] := by
  have hguarded : Guarded c d := by
    refine Runs.invariant (Guarded c) ?_ h ?_
    · rintro s op s' hs ⟨hstep, hclear⟩
      exact hs.step hclear hstep
    · constructor <;> simp
  exact hguarded.losses

def textSave (name : String) : SaveRequest where
  attemptId := "a1"
  name := name
  bytes := [104, 105]

def uploadText (name : String) : List DepotOp :=
  [.start 0 (textSave name), .rename 0, .commit 0 ""]

def reconcileFile (file : String) : List DepotOp :=
  [.list false, .scan "a1" file, .endWalk, .unlink, .endUnlink, .statPlain "a1" file,
   .prune "a1" file]

/-- An uploaded text, listed, walked past and found again. -/
theorem reconcile_keeps_text :
    ∃ d, Runs (During (DepotStep linesCodec) fun d op => op.Clear linesCodec d) {}
        (uploadText "x.txt" ++
          [DepotOp.list false, .scan "a1" "x.txt", .endWalk, .endUnlink, .statPlain "a1" "x.txt",
            .finish]) d ∧
      d.store.files "a1" "x.txt" = some [104, 105] ∧ d.losses = [] := by
  have hrename : ∀ d : Depot, d.sweep = none →
      (DepotOp.rename 0).Clear linesCodec d := by
    intro d hd sw u hsw
    rw [hd] at hsw
    cases hsw
  have hlist : ∀ (d : Depot) (row : ArtifactRow), (∀ id, d.uploads id = none) →
      (∀ a n, d.store.rows a n = if a = "a1" ∧ n = "x.txt" then some row else none) →
        (DepotOp.list false).Clear linesCodec d := by
    intro d row huploads hrows _
    refine ⟨?_, ?_⟩
    · intro a n row' hrow _ base hname
      rw [hrows] at hrow
      split at hrow
      · rename_i hsame
        exact absurd (hsame.2.symm.trans hname) (not_zst (by decide) base)
      · cases hrow
    · intro id u hu
      rw [huploads] at hu
      cases hu
  have hrun : ∃ d, Runs (During (DepotStep linesCodec) fun d op => op.Clear linesCodec d) {}
      (uploadText "x.txt" ++
        [DepotOp.list false, .scan "a1" "x.txt", .endWalk, .endUnlink, .statPlain "a1" "x.txt",
          .finish]) d ∧ d.store.files "a1" "x.txt" = some [104, 105] := by
    refine ⟨_, .next ⟨rfl, trivial⟩ (.next ⟨rfl, hrename _ rfl⟩ (.next ⟨rfl, trivial⟩
      (.next ⟨rfl, hlist _ ((textSave "x.txt").row linesCodec "") ?_ ?_⟩
        (.next ⟨rfl, trivial⟩ (.next ⟨rfl, trivial⟩ (.next ⟨rfl, trivial⟩
          (.next ⟨rfl, trivial⟩ (.next ⟨rfl, trivial⟩ (.refl _))))))))), by decide⟩
    · intro id
      simp only [Depot.setUpload]
      split <;> rfl
    · exact fun a n => rfl
  obtain ⟨d, hrun, hfile⟩ := hrun
  exact ⟨d, hrun, hfile, reconcile_keeps_live hrun⟩

/-- A plain artifact under a name that ends in `.zst`, with no upload under
way, and an artifact whose row is committed between the listing and the
unlinking. -/
theorem reconcile_destroys :
    ((uploadText "x.zst" ++ reconcileFile "x.zst").foldlM (depotStep linesCodec) {}).map
        Depot.losses = some [.file "a1" "x.zst", .row "a1" "x.zst"] ∧
    ([.start 0 (textSave "x.txt"), .rename 0, .list false, .scan "a1" "x.txt", .endWalk,
        .commit 0 "", .unlink].foldlM (depotStep linesCodec) {}).map Depot.losses =
      some [.file "a1" "x.txt"] := by
  constructor <;> decide

end Runs

end AgentGrid.Store
