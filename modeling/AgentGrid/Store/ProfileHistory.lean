import AgentGrid.Store.OpencodeProfiles

/-!
# The history of a profile

What a sequence of puts leaves of the earlier configs, and where a rollback by
any number of steps lands.  A revision row is written after the put has been
committed, and the put succeeds without it.
-/

namespace AgentGrid.Store.Opencode

open AgentGrid.Foundation AgentGrid.Node

/-- A call of `upsert_opencode_profile`, and whether its revision is written. -/
structure Put where
  config : Json
  expiresAt : Option String := none
  pinnedSkills : Option (List String) := none
  now : String := ""
  newId : String
  saved : Bool := true

def execPut (saved : Bool) (tx : ProfileTx) (db : ProfileDb) : ProfileDb × tx.Reply :=
  match tx with
  | .addRevision profileId body now =>
      if saved then (db.addRevision profileId body now, some ()) else (db, none)
  | tx => exec tx db

def put (sha256Hex : String → String) (name : String) (db : ProfileDb) (p : Put) : ProfileDb :=
  ((upsertOpencodeProfile sha256Hex name p.config p.expiresAt p.pinnedSkills p.now p.newId).eval
    (execPut p.saved) db).1

def putAll (sha256Hex : String → String) (name : String) (db : ProfileDb) (puts : List Put) :
    ProfileDb :=
  puts.foldl (put sha256Hex name) db

/-- No profile of the name, and ids that are new. -/
structure Fresh (db : ProfileDb) (name : String) (puts : List Put) : Prop where
  unnamed : db.getProfile name = none
  ids : (db.profiles.map Profile.id).Nodup
  names : (db.profiles.map Profile.name).Nodup
  new : ∀ p ∈ puts, (∀ row ∈ db.profiles, row.id ≠ p.newId) ∧
    ∀ r ∈ db.revisions, r.profileId ≠ p.newId

/-- Rolled back by `k`, the profile has the body of `k` puts ago; with fewer
puts before the last, nothing changes. -/
def WalksHistory (db : ProfileDb) (name : String) (bodies : List Body) (k : Nat)
    (now : String) : Prop :=
  let after := (rollbackOpencodeProfile name k now).eval exec db
  (k < bodies.length → ∃ row, after.2 = .done (some row) ∧ after.1.getProfile name = some row ∧
    bodies[bodies.length - 1 - k]? = some (row.configJson, row.hash)) ∧
  (bodies.length ≤ k → after.2 = .done none ∧ after.1 = db)

section History

variable {sha256Hex : String → String} {name : String} {db : ProfileDb}

/-- The bodies whose successor was put with its revision. -/
def keptBodies (bodies : List Body) (saved : List Bool) : List Body :=
  ((bodies.zip saved.tail).filter Prod.snd).map Prod.fst

/-- The live row is the last body put, its columns have the one before, and the
revisions are those that were written. -/
structure Recorded (db : ProfileDb) (name : String) (bodies : List Body) (saved : List Bool) :
    Prop where
  ids : (db.profiles.map Profile.id).Nodup
  names : (db.profiles.map Profile.name).Nodup
  row : ∃ row, db.getProfile name = some row ∧
    bodies.getLast? = some (row.configJson, row.hash) ∧
    row.prev = bodies.dropLast.getLast? ∧
    db.revisionsOf row.id = keptBodies bodies saved

/-- What a rollback takes its bodies from, the newest last. -/
def historyStack (bodies : List Body) (saved : List Bool) : List Body :=
  bodies.dropLast.getLast?.toList ++ keptBodies bodies saved

theorem keptBodies_snoc {bodies : List Body} {saved : List Bool} (hsaved : saved ≠ [])
    (hlength : bodies.length = saved.length) {last body : Body} (flag : Bool)
    (hlast : bodies.getLast? = some last) :
    keptBodies (bodies ++ [body]) (saved ++ [flag]) =
      keptBodies bodies saved ++ if flag then [last] else [] := by
  obtain ⟨front, rfl⟩ := List.getLast?_eq_some_iff.mp hlast
  obtain ⟨first, rest, rfl⟩ := List.exists_cons_of_ne_nil hsaved
  have hrest : front.length = rest.length := by simpa using hlength
  have hfront : (front ++ [last]).zip rest = front.zip rest := by
    conv_lhs => rw [← List.append_nil rest]
    rw [List.zip_append hrest]
    simp
  have hall : (front ++ [last] ++ [body]).zip (rest ++ [flag]) =
      front.zip rest ++ [(last, flag)] := by
    rw [List.append_assoc, List.zip_append hrest]
    rfl
  simp only [keptBodies, List.cons_append, List.tail_cons, hfront, hall, List.filter_append,
    List.map_append]
  cases flag <;> rfl

theorem revisionsOf_addRevision (db : ProfileDb) (profileId : String) (body : Body)
    (now : String) :
    (db.addRevision profileId body now).revisionsOf profileId =
      db.revisionsOf profileId ++ [body] := by
  simp [ProfileDb.revisionsOf, ProfileDb.addRevision, List.filter_append]

theorem put_first {puts : List Put} (hfresh : Fresh db name puts) {p : Put} (hp : p ∈ puts)
    {body : Body} (hbody : normalizeConfig sha256Hex p.config = some body) :
    Recorded (put sha256Hex name db p) name [body] [p.saved] := by
  obtain ⟨hids, hrevisions⟩ := hfresh.new p hp
  let row : Profile := {
    id := p.newId
    name := name
    configJson := body.1
    hash := body.2
    expiresAt := p.expiresAt
    pinnedSkillsJson := canonicalizePinned (p.pinnedSkills.getD [])
    createdAt := p.now
    updatedAt := p.now }
  have hput : put sha256Hex name db p = { db with profiles := db.profiles ++ [row] } := by
    simp [put, upsertOpencodeProfile, hbody, ask, Prog.eval, execPut, exec, ProfileDb.upsertRow,
      hfresh.unnamed, row]
  have hnone : db.profiles.find? (fun row => row.name == name) = none := hfresh.unnamed
  have hnew : db.revisions.filter (·.profileId == p.newId) = [] := by
    simpa using hrevisions
  rw [hput]
  constructor
  · rw [List.map_append, List.nodup_append]
    refine ⟨hfresh.ids, by simp, ?_⟩
    intro id hid id' hid'
    obtain ⟨other, hother, rfl⟩ := List.mem_map.mp hid
    rw [List.map_singleton, List.mem_singleton] at hid'
    rw [hid']
    exact hids other hother
  · rw [List.map_append, List.nodup_append]
    refine ⟨hfresh.names, by simp, ?_⟩
    intro n hn n' hn'
    obtain ⟨other, hother, rfl⟩ := List.mem_map.mp hn
    rw [List.map_singleton, List.mem_singleton] at hn'
    rw [hn']
    exact lookup_none hfresh.unnamed other hother
  · refine ⟨row, ?_, rfl, rfl, ?_⟩
    · rw [ProfileDb.getProfile, lookup, List.find?_append, hnone, Option.none_or]
      simp [row]
    · simp only [ProfileDb.revisionsOf, row, hnew]
      rfl

theorem put_next {bodies : List Body} {saved : List Bool} (hsaved : saved ≠ [])
    (hlength : bodies.length = saved.length) (hdb : Recorded db name bodies saved) {p : Put}
    {body : Body} (hbody : normalizeConfig sha256Hex p.config = some body) :
    Recorded (put sha256Hex name db p) name (bodies ++ [body]) (saved ++ [p.saved]) := by
  obtain ⟨row, hrow, hlast, hprev, hrevisions⟩ := hdb.row
  have hname : row.name = name := (lookup_mem hrow).2
  let next : Profile := { row with
    prevConfigJson := some row.configJson
    prevHash := some row.hash
    configJson := body.1
    hash := body.2
    expiresAt := p.expiresAt
    pinnedSkillsJson := canonicalizePinned (p.pinnedSkills.getD [])
    updatedAt := p.now }
  have hupsert : db.upsertRow name body p.expiresAt
      (canonicalizePinned (p.pinnedSkills.getD [])) p.now p.newId =
      ({ db with profiles := updateWhere (·.name == name) (fun _ => next) db.profiles }, next) := by
    rw [ProfileDb.upsertRow, hrow]
  have hput : put sha256Hex name db p =
      if p.saved then
        ({ db with profiles := updateWhere (·.name == name) (fun _ => next) db.profiles }
          : ProfileDb).addRevision row.id (row.configJson, row.hash) p.now
      else { db with profiles := updateWhere (·.name == name) (fun _ => next) db.profiles } := by
    cases hflag : p.saved <;>
      simp [put, upsertOpencodeProfile, hbody, ask, Prog.eval, execPut, exec, hupsert, hflag, next]
  have hprofiles : (put sha256Hex name db p).profiles =
      updateWhere (·.name == name) (fun _ => next) db.profiles := by
    rw [hput]
    split <;> rfl
  have hrevs : (put sha256Hex name db p).revisionsOf row.id =
      db.revisionsOf row.id ++ if p.saved then [(row.configJson, row.hash)] else [] := by
    rw [hput]
    split
    · exact revisionsOf_addRevision _ _ _ _
    · exact (List.append_nil _).symm
  have hsame : ∀ r ∈ db.profiles, (r.name == name) = true → r = row := by
    intro r hr hrname
    refine row_unique hdb.names hr (lookup_mem hrow).1 ?_
    rw [hname]
    exact eq_of_beq hrname
  have hnames : (updateWhere (·.name == name) (fun _ => next) db.profiles).map Profile.name =
      db.profiles.map Profile.name :=
    map_updateWhere_of_eq fun r hr hrname => by rw [hsame r hr hrname]
  constructor
  · rw [hprofiles, map_updateWhere_of_eq fun r hr hrname => by rw [hsame r hr hrname]]
    exact hdb.ids
  · rw [hprofiles, hnames]
    exact hdb.names
  · refine ⟨next, ?_, ?_, ?_, ?_⟩
    · have hmem : next ∈ updateWhere (·.name == name) (fun _ => next) db.profiles :=
        mem_updateWhere.mpr ⟨row, (lookup_mem hrow).1, if_pos (by simp [hname])⟩
      have hfound := lookup_of_mem (by rw [hnames]; exact hdb.names) hmem
      rw [ProfileDb.getProfile, hprofiles, ← hfound]
      exact congrArg (lookup Profile.name · _) hname.symm
    · rw [List.getLast?_append, List.getLast?_singleton]
      rfl
    · rw [List.dropLast_concat, hlast]
      rfl
    · change (put sha256Hex name db p).revisionsOf row.id = _
      rw [hrevs, hrevisions, keptBodies_snoc hsaved hlength p.saved hlast]

theorem putAll_recorded {puts : List Put} {bodies added : List Body} {saved : List Bool}
    (hsaved : saved ≠ []) (hlength : bodies.length = saved.length)
    (hdb : Recorded db name bodies saved)
    (hadded : puts.map (fun p => normalizeConfig sha256Hex p.config) = added.map some) :
    Recorded (putAll sha256Hex name db puts) name (bodies ++ added)
      (saved ++ puts.map Put.saved) := by
  induction puts generalizing db bodies added saved with
  | nil =>
      obtain rfl : added = [] := List.map_eq_nil_iff.mp hadded.symm
      simpa [putAll] using hdb
  | cons p puts ih =>
      cases added with
      | nil => cases hadded
      | cons body added =>
          obtain ⟨hbody, hrest⟩ := List.cons.inj hadded
          have hnext := ih (by simp) (by simp [hlength]) (put_next hsaved hlength hdb hbody) hrest
          simpa [putAll] using hnext

theorem puts_recorded {puts : List Put} {bodies : List Body} (hfresh : Fresh db name puts)
    (hbodies : puts.map (fun p => normalizeConfig sha256Hex p.config) = bodies.map some)
    (hne : puts ≠ []) :
    Recorded (putAll sha256Hex name db puts) name bodies (puts.map Put.saved) := by
  obtain ⟨p, rest, rfl⟩ := List.exists_cons_of_ne_nil hne
  cases bodies with
  | nil => cases hbodies
  | cons body bodies =>
      obtain ⟨hbody, hrest⟩ := List.cons.inj hbodies
      exact putAll_recorded (by simp) rfl (put_first hfresh List.mem_cons_self hbody) hrest

/-- The walk pops as many bodies as it takes steps and touches no profile. -/
theorem walkBack_spec (profileId now : String) {k : Nat} {stack : List Body} {cur : Body}
    {db : ProfileDb} (hk : k ≤ stack.length) :
    (ProfileDb.walkBack profileId now k stack cur db).1 = stack.take (stack.length - k) ∧
      (cur :: stack.reverse)[k]? = some (ProfileDb.walkBack profileId now k stack cur db).2.1 ∧
      (ProfileDb.walkBack profileId now k stack cur db).2.2.profiles = db.profiles := by
  induction k generalizing stack cur db with
  | zero => simp [ProfileDb.walkBack]
  | succ k ih =>
      rcases List.eq_nil_or_concat stack with rfl | ⟨front, top, rfl⟩
      · cases hk
      · rw [List.concat_eq_append] at hk ⊢
        have hfront : k ≤ front.length := by simpa using hk
        obtain ⟨hstack, hcur, hprofiles⟩ := @ih front top (db.addRevision profileId cur now) hfront
        have hwalk : ProfileDb.walkBack profileId now (k + 1) (front ++ [top]) cur db =
            ProfileDb.walkBack profileId now k front top (db.addRevision profileId cur now) := by
          simp [ProfileDb.walkBack]
        rw [hwalk]
        refine ⟨?_, ?_, hprofiles⟩
        · rw [hstack, List.length_append, List.length_singleton, Nat.add_sub_add_right,
            List.take_append_of_le_length (Nat.sub_le _ _)]
        · rw [List.reverse_append, List.reverse_singleton, List.singleton_append,
            List.getElem?_cons_succ]
          exact hcur

theorem rollback_eval (db : ProfileDb) (name : String) (k : Nat) (now : String) :
    (rollbackOpencodeProfile name k now).eval exec db =
      ((db.rollback name k now).1, .done (if (db.rollback name k now).2 then
        (db.rollback name k now).1.getProfile name else none)) := by
  cases hfound : (db.rollback name k now).2 <;>
    simp [rollbackOpencodeProfile, ask, Prog.eval, exec, hfound]

/-- What a rollback of a recorded profile finds on its stack. -/
theorem rollback_spec {bodies : List Body} {saved : List Bool}
    (hdb : Recorded db name bodies saved) {k : Nat} (hk : 1 ≤ k) (now : String) :
    let stack := historyStack bodies saved
    let after := (rollbackOpencodeProfile name k now).eval exec db
    (stack.length < k → after.2 = .done none ∧ after.1 = db) ∧
      (k ≤ stack.length → ∃ row, after.2 = .done (some row) ∧
        after.1.getProfile name = some row ∧
        stack.reverse[k - 1]? = some (row.configJson, row.hash)) := by
  obtain ⟨row, hrow, hlast, hprev, hrevisions⟩ := hdb.row
  intro stack after
  have hafter : after = _ := rollback_eval db name k now
  have hstack : row.prev.toList ++ db.revisionsOf row.id = stack := by
    rw [hprev, hrevisions]
    rfl
  have hmax : max k 1 = k := Nat.max_eq_left hk
  cases hwalk : ProfileDb.walkBack row.id now k stack (row.configJson, row.hash) db with
  | mk left rest =>
      obtain ⟨cur, db'⟩ := rest
      have hrollback : db.rollback name k now = if stack.length < k then (db, false) else
          ({ db' with profiles := updateWhere (·.id == row.id) (fun r => { r with
              configJson := cur.1
              hash := cur.2
              prevConfigJson := left.getLast?.map Prod.fst
              prevHash := left.getLast?.map Prod.snd
              updatedAt := now }) db'.profiles }, true) := by
        rw [ProfileDb.rollback, hrow]
        simp only [hstack, hmax, hwalk]
      rw [hafter, hrollback]
      constructor
      · intro hshort
        rw [if_pos hshort]
        exact ⟨rfl, rfl⟩
      · intro hdeep
        obtain ⟨-, hcur, hprofiles⟩ :=
          @walkBack_spec row.id now k stack (row.configJson, row.hash) db hdeep
        rw [hwalk] at hcur hprofiles
        have hfound : lookup Profile.name name db'.profiles = some row := by
          rw [hprofiles]
          exact hrow
        rw [if_neg (Nat.not_lt.mpr hdeep)]
        simp only [if_true, ProfileDb.getProfile]
        rw [lookup_updateWhere (fun r => by rfl), hfound]
        obtain ⟨k, rfl⟩ := Nat.exists_eq_succ_of_ne_zero (Nat.one_le_iff_ne_zero.mp hk)
        refine ⟨_, rfl, rfl, ?_⟩
        simpa using hcur

theorem walksHistory_iff {bodies : List Body} {saved : List Bool}
    (hdb : Recorded db name bodies saved) {k : Nat} (hk : 1 ≤ k) (now : String) :
    WalksHistory db name bodies k now ↔
      (historyStack bodies saved).reverse[k - 1]? =
        if k < bodies.length then bodies[bodies.length - 1 - k]? else none := by
  obtain ⟨hshort, hdeep⟩ := rollback_spec hdb hk now
  have hnone : (historyStack bodies saved).reverse[k - 1]? = none ↔
      (historyStack bodies saved).length < k := by
    rw [List.getElem?_eq_none_iff, List.length_reverse]
    omega
  constructor
  · rintro ⟨hwithin, hbeyond⟩
    by_cases hlength : k < bodies.length
    · rw [if_pos hlength]
      obtain ⟨row, hreply, -, hbody⟩ := hwithin hlength
      rcases Nat.lt_or_ge (historyStack bodies saved).length k with hlt | hge
      · rw [(hshort hlt).1] at hreply
        cases hreply
      · obtain ⟨found, hfound, -, hstack⟩ := hdeep hge
        rw [hfound] at hreply
        cases hreply
        rw [hstack, hbody]
    · rw [if_neg hlength, hnone]
      by_contra hge
      obtain ⟨found, hfound, -, -⟩ := hdeep (Nat.not_lt.mp hge)
      rw [(hbeyond (Nat.not_lt.mp hlength)).1] at hfound
      cases hfound
  · intro hstack
    constructor
    · intro hlength
      rw [if_pos hlength] at hstack
      have hbody : bodies.length - 1 - k < bodies.length := by omega
      have hge : k ≤ (historyStack bodies saved).length := by
        by_contra hlt
        rw [hnone.mpr (Nat.not_le.mp hlt), List.getElem?_eq_getElem hbody] at hstack
        cases hstack
      obtain ⟨row, hreply, hrow, hfound⟩ := hdeep hge
      exact ⟨row, hreply, hrow, by rw [← hstack, hfound]⟩
    · intro hlength
      rw [if_neg (Nat.not_lt.mpr hlength), hnone] at hstack
      exact hshort hstack

theorem keptBodies_saved {bodies : List Body} {saved : List Bool}
    (hlength : bodies.length = saved.length) (hsaved : ∀ flag ∈ saved, flag = true) :
    keptBodies bodies saved = bodies.dropLast := by
  have htail : saved.tail = List.replicate (bodies.length - 1) true := by
    rw [List.eq_replicate_iff, List.length_tail, hlength]
    exact ⟨rfl, fun flag hflag => hsaved flag (List.mem_of_mem_tail hflag)⟩
  have hfirst : ∀ front : List Body,
      ((front.zip (List.replicate front.length true)).filter Prod.snd).map Prod.fst = front := by
    intro front
    rw [List.filter_eq_self.mpr, List.map_fst_zip (by simp)]
    intro pair hpair
    exact (List.mem_replicate.mp (List.of_mem_zip hpair).2).2
  rcases List.eq_nil_or_concat bodies with rfl | ⟨front, last, rfl⟩
  · rfl
  · rw [List.concat_eq_append] at htail ⊢
    have hzip : (front ++ [last]).zip (List.replicate front.length true) =
        front.zip (List.replicate front.length true) := by
      conv_lhs => rw [← List.append_nil (List.replicate front.length true)]
      rw [List.zip_append (by simp)]
      simp
    rw [List.length_append, List.length_singleton, Nat.add_sub_cancel] at htail
    rw [keptBodies, htail, hzip, hfirst, List.dropLast_concat]

/-- With every revision written, the stack has the body before the last twice. -/
theorem saved_history {bodies : List Body} {k : Nat} (hk : 1 ≤ k) (hne : bodies ≠ []) :
    (bodies.dropLast.getLast?.toList ++ bodies.dropLast).reverse[k - 1]? =
        (if k < bodies.length then bodies[bodies.length - 1 - k]? else none) ↔
      ¬ (k = bodies.length ∧ 2 ≤ bodies.length) := by
  obtain ⟨front, last, rfl⟩ := List.eq_nil_or_concat bodies |>.resolve_left hne
  rw [List.concat_eq_append, List.dropLast_concat, List.length_append, List.length_singleton,
    List.reverse_append]
  rcases Nat.lt_trichotomy k (front.length + 1) with hlt | heq | hgt
  · have hbody : (front.reverse ++ front.getLast?.toList.reverse)[k - 1]? =
        (front ++ [last])[front.length + 1 - 1 - k]? := by
      rw [List.getElem?_append_left (by rw [List.length_reverse]; omega),
        List.getElem?_reverse (by omega), List.getElem?_append_left (by omega)]
      congr 1
      omega
    rw [if_pos hlt, hbody]
    refine iff_of_true rfl ?_
    rintro ⟨hk', -⟩
    omega
  · rw [if_neg (by omega), List.getElem?_append_right (by rw [List.length_reverse]; omega)]
    rcases List.eq_nil_or_concat front with rfl | ⟨start, top, rfl⟩
    · simp
    · refine iff_of_false ?_ ?_
      · rw [List.concat_eq_append, List.getLast?_concat, heq, List.concat_eq_append]
        simp
      · intro hnot
        exact hnot ⟨heq, by simp⟩
  · have hshort : (front.reverse ++ front.getLast?.toList.reverse).length ≤ k - 1 := by
      rcases List.eq_nil_or_concat front with rfl | ⟨start, top, rfl⟩
      · simp
      · simp at hgt ⊢
        omega
    rw [if_neg (by omega), List.getElem?_eq_none hshort]
    refine iff_of_true rfl ?_
    rintro ⟨hk', -⟩
    omega

/-- A rollback lands on the body of `k` puts ago exactly when that body is at
the `k`-th place of the stack; where every revision was written, it does so
unless it is asked for one step more than there were puts before the last. -/
theorem rollback_walks {puts : List Put} {bodies : List Body} (hfresh : Fresh db name puts)
    (hbodies : puts.map (fun p => normalizeConfig sha256Hex p.config) = bodies.map some)
    (hne : puts ≠ []) {k : Nat} (hk : 1 ≤ k) (now : String) :
    (WalksHistory (putAll sha256Hex name db puts) name bodies k now ↔
      (historyStack bodies (puts.map Put.saved)).reverse[k - 1]? =
        if k < bodies.length then bodies[bodies.length - 1 - k]? else none) ∧
    ((∀ p ∈ puts, p.saved = true) →
      (WalksHistory (putAll sha256Hex name db puts) name bodies k now ↔
        ¬ (k = bodies.length ∧ 2 ≤ bodies.length))) := by
  have hrecorded := puts_recorded hfresh hbodies hne
  have hlength : bodies.length = (puts.map Put.saved).length := by
    rw [← List.length_map (f := some), ← hbodies, List.length_map, List.length_map]
  have hwalks := walksHistory_iff hrecorded hk now
  refine ⟨hwalks, ?_⟩
  intro hsaved
  have hflags : ∀ flag ∈ puts.map Put.saved, flag = true := by
    intro flag hflag
    obtain ⟨p, hp, rfl⟩ := List.mem_map.mp hflag
    exact hsaved p hp
  have hbodies' : bodies ≠ [] := by
    rintro rfl
    exact hne (List.map_eq_nil_iff.mp hbodies)
  rw [hwalks, historyStack, keptBodies_saved hlength hflags]
  exact saved_history hk hbodies'

end History

/-! ## Two puts -/

/-- A put of a config with this model. -/
def ofModel (model : String) : Put where
  config := .object [("model", .string model)]
  newId := "p"

def modelBody (model : String) : Body :=
  let json := String.ofList (Json.object [("model", .string model)]).text
  (json, json)

theorem rollback_walks_two :
    WalksHistory (putAll id "base" {} [ofModel "a", ofModel "b", ofModel "c"]) "base"
      [modelBody "a", modelBody "b", modelBody "c"] 2 "" := by
  have hfresh : Fresh {} "base" [ofModel "a", ofModel "b", ofModel "c"] :=
    ⟨rfl, List.nodup_nil, List.nodup_nil, by decide⟩
  have hbodies : [ofModel "a", ofModel "b", ofModel "c"].map
        (fun p => normalizeConfig id p.config) =
      [modelBody "a", modelBody "b", modelBody "c"].map some := rfl
  have hsteps : 1 ≤ 2 := by decide
  have hwalks := (rollback_walks hfresh hbodies (List.cons_ne_nil _ _) hsteps "").2
  exact (hwalks (by decide)).mpr (by decide)

/-- Two steps back from the second put there is nothing, yet the rollback goes
one step back. -/
theorem one_step_too_deep :
    [ofModel "a", ofModel "b"].map (fun p => normalizeConfig id p.config) =
        [some (modelBody "a"), some (modelBody "b")] ∧
      ¬ WalksHistory (putAll id "base" {} [ofModel "a", ofModel "b"]) "base"
        [modelBody "a", modelBody "b"] 2 "" := by
  refine ⟨rfl, ?_⟩
  rintro ⟨-, hbeyond⟩
  have hreply := (hbeyond (by decide)).1
  rw [rollback_eval] at hreply
  cases hreply

end AgentGrid.Store.Opencode
