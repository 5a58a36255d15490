import AgentGrid.Store.AdapterEnv

/-!
# Sealed blobs stay current

Each transaction keeps the ciphertexts current when it finds what its call read
before it; the calls of a pool then keep them current together.
-/

namespace AgentGrid.Store.AdapterEnv

open AgentGrid.Foundation

section Transactions

variable {C : Crypto} {db : EnvDb}

theorem mem_nodes_of_publicKey {node pub : String} (h : db.publicKey node = some pub) :
    ∃ n ∈ db.nodes, n.id = node := by
  unfold EnvDb.publicKey at h
  obtain ⟨n, hn, _⟩ := Option.bind_eq_some_iff.mp h
  obtain ⟨hmem, hid⟩ := lookup_mem hn
  exact ⟨n, hmem, hid⟩

/-- What `stillReads` says of a node in the scope of the entry. -/
theorem reads_of_stillReads {id : Option Nat} {nodeId : String} {keys : List (String × String)}
    (h : db.stillReads id nodeId keys = true) {n : NodeRow} (hn : n ∈ db.nodes)
    (hscope : nodeId = "" ∨ nodeId = n.id) :
    (∃ pub, keys.lookup n.id = some pub ∧ db.publicKey n.id = some pub) ∨
      keys.lookup n.id = none ∧ ∀ i, id = some i → db.sealedRows i n.id = none := by
  have hreads := List.all_eq_true.mp h n hn
  have hmeant : (nodeId.isEmpty || nodeId == n.id) = true := by
    rcases hscope with rfl | rfl
    · rfl
    · simp
  rw [hmeant] at hreads
  cases hkey : keys.lookup n.id with
  | some pub =>
      simp only [hkey, Bool.not_true, Bool.false_or, beq_iff_eq] at hreads
      exact .inl ⟨pub, rfl, hreads⟩
  | none =>
      simp only [hkey, Bool.not_true, Bool.false_or] at hreads
      refine .inr ⟨rfl, ?_⟩
      rintro i rfl
      simpa using hreads

theorem mem_of_lookup {keys : List (String × String)} {n pub : String}
    (h : keys.lookup n = some pub) : (n, pub) ∈ keys := by
  obtain ⟨l₁, l₂, hkeys, _⟩ := List.lookup_eq_some_iff.mp h
  rw [hkeys]
  simp

theorem mem_of_entryFor {adapter key nodeId : String} {e : Entry}
    (h : db.entryFor adapter key nodeId = some e) :
    e ∈ db.entries ∧ e.adapter = adapter ∧ e.key = key ∧ e.nodeId = nodeId := by
  have hfound := List.find?_some h
  simp only [Bool.and_eq_true, beq_iff_eq] at hfound
  exact ⟨List.mem_of_find?_eq_some h, hfound.1.1, hfound.1.2, hfound.2⟩

theorem putEntry_spec (hdb : Inv C db) {adapter key nodeId fingerprint : String}
    {valueLen : Nat} {stored : EnvDb} {id : Nat}
    (h : db.putEntry adapter key nodeId fingerprint valueLen = (stored, id)) :
    Rewritten db stored id adapter key nodeId fingerprint ∧
      stored.sealedRows = db.sealedRows ∧ (∃ e ∈ stored.entries, e.id = id) ∧
      ((∃ e, db.entryFor adapter key nodeId = some e ∧ e.id = id) ∨ id = db.lastId + 1) := by
  unfold EnvDb.putEntry at h
  split at h
  · rename_i e he
    cases h
    obtain ⟨hmem, ha, hk, hn⟩ := mem_of_entryFor he
    refine ⟨.update hdb rfl rfl rfl ?_ ?_ ?_, rfl, ?_, .inl ⟨e, he, rfl⟩⟩
    · exact fun _ => ⟨rfl, rfl, rfl, rfl⟩
    · exact fun _ => rfl
    · intro e' he' hid
      obtain rfl := row_unique hdb.ids he' hmem hid
      exact ⟨ha, hk, hn⟩
    · refine ⟨_, mem_updateWhere.mpr ⟨e, hmem, rfl⟩, ?_⟩
      rw [if_pos (beq_self_eq_true _)]
  · rename_i hnone
    cases h
    refine ⟨.insert hdb rfl rfl rfl rfl ⟨rfl, rfl, rfl, rfl⟩ ?_, rfl, ?_, .inr rfl⟩
    · intro e he hsame
      have hfalse := List.find?_eq_none.mp hnone e he
      simp [hsame] at hfalse
    · exact ⟨_, List.mem_append_right _ (List.mem_singleton.mpr rfl), rfl⟩

theorem Rewritten.congr {db' db'' : EnvDb} {id : Nat} {adapter key nodeId fingerprint : String}
    (h : Rewritten db db' id adapter key nodeId fingerprint) (hnodes : db''.nodes = db'.nodes)
    (hentries : db''.entries = db'.entries) (hlast : db''.lastId = db'.lastId) :
    Rewritten db db'' id adapter key nodeId fingerprint := by
  obtain ⟨nodes, entries, lastId, sealedRows⟩ := db''
  obtain rfl : nodes = db'.nodes := hnodes
  obtain rfl : entries = db'.entries := hentries
  obtain rfl : lastId = db'.lastId := hlast
  exact ⟨h.nodes, h.ids, h.triples, h.fresh, h.kept, h.old, h.entry, ⟨h.grows.nodes, h.grows.last,
    h.grows.entries⟩⟩

theorem Inv.storeEntry (hdb : Inv C db) {adapter key value : String} {nodeId : Option String}
    {keys : List (String × String)} {targets : List String}
    (hkeys : ∀ n pub, (n, pub) ∈ keys → ∃ r ∈ db.nodes, r.id = n)
    (hall : nodeId = none → ∀ n pub, (n, pub) ∈ keys → n ∈ targets)
    (hone : ∀ m, nodeId = some m → targets = [m])
    (hcond : undisturbed db (.storeEntry adapter key value nodeId keys targets) = true) :
    Inv C (db.storeEntry C adapter key value nodeId keys targets).1 ∧
      Grows db (db.storeEntry C adapter key value nodeId keys targets).1 := by
  obtain ⟨hnamed, hreads⟩ : nodeId ≠ some "" ∧ db.stillReads
      ((db.entryFor adapter key (nodeId.getD "")).map Entry.id) (nodeId.getD "") keys = true := by
    simpa [undisturbed] using hcond
  have hmeant : ∀ n ∈ targets, nodeId.getD "" = "" ∨ nodeId.getD "" = n := by
    intro n hn
    cases nodeId with
    | none => exact .inl rfl
    | some m =>
        rw [hone m rfl, List.mem_singleton] at hn
        exact .inr hn.symm
  have htargeted : ∀ n pub, keys.lookup n = some pub →
      (nodeId.getD "" = "" ∨ nodeId.getD "" = n) → n ∈ targets := by
    intro n pub hlookup hscope
    cases nodeId with
    | none => exact hall rfl n pub (mem_of_lookup hlookup)
    | some m =>
        have hm : m = n := hscope.resolve_left fun hempty => hnamed (congrArg some hempty)
        rw [hone m rfl, hm]
        exact List.mem_singleton_self n
  unfold EnvDb.storeEntry
  rcases hput : db.putEntry adapter key (nodeId.getD "") (C.fingerprint value) value.length
    with ⟨stored, id⟩
  obtain ⟨hwritten, hrowsStored, hexists, hsource⟩ := putEntry_spec hdb hput
  dsimp only
  split
  · exact ⟨hdb, .refl db⟩
  · rename_i done hdone
    obtain ⟨hnodes, hentries, hlast, _, hrows⟩ := sealAll_spec hdone
    rw [hrowsStored] at hrows
    have hdoneWritten := hwritten.congr hnodes hentries hlast
    refine ⟨hdb.reseal hdoneWritten (fun _ => ?_) hrows ?_ ?_, hdoneWritten.grows⟩
    · rw [hentries]
      exact hexists
    · intro n pub hmem
      obtain ⟨t, ht, hpair⟩ := List.mem_filterMap.mp hmem
      obtain ⟨pub', hlookup, heq⟩ := Option.map_eq_some_iff.mp hpair
      cases heq
      obtain ⟨r, hr, rfl⟩ := hkeys n pub (mem_of_lookup hlookup)
      refine ⟨?_, hmeant _ ht⟩
      obtain ⟨pub', hlookup', hpub⟩ | ⟨hnone, _⟩ := reads_of_stillReads hreads hr (hmeant _ ht)
      · rw [hlookup] at hlookup'
        cases hlookup'
        exact hpub
      · rw [hlookup] at hnone
        cases hnone
    · intro n blob hrow
      obtain ⟨e, he, heid, pub, hpub, _⟩ := hdb.current id n blob hrow
      obtain ⟨e', hfound, he'id⟩ | hnew := hsource
      · obtain ⟨hmem, _, _, hscopeOf⟩ := mem_of_entryFor hfound
        have hscope : nodeId.getD "" = "" ∨ nodeId.getD "" = n := by
          have := hdb.scope id n blob hrow e' hmem he'id
          rwa [hscopeOf] at this
        obtain ⟨r, hr, rfl⟩ := mem_nodes_of_publicKey hpub
        obtain ⟨pub', hlookup, _⟩ | ⟨_, hnone⟩ := reads_of_stillReads hreads hr hscope
        · refine ⟨pub', List.mem_filterMap.mpr ⟨r.id, htargeted _ _ hlookup hscope, ?_⟩⟩
          rw [hlookup]
          rfl
        · have hno := hnone id (by rw [hfound, ← he'id]; rfl)
          rw [hrow] at hno
          cases hno
      · have := hdb.fresh e he
        omega

/-- An entry is known by the name it was read under. -/
def Known (db : EnvDb) (row : Entry) : Prop :=
  row.id ≤ db.lastId ∧ ∀ e ∈ db.entries, e.id = row.id →
    e.adapter = row.adapter ∧ e.key = row.key ∧ e.nodeId = row.nodeId

theorem Known.grows {db' : EnvDb} {row : Entry} (h : Known db row) (hgrows : Grows db db') :
    Known db' row := by
  refine ⟨h.1.trans hgrows.last, fun e' he' hid => ?_⟩
  obtain ⟨e, he, heid, ha, hk, hn⟩ := hgrows.entries e' he' (by rw [hid]; exact h.1)
  obtain ⟨ha', hk', hn'⟩ := h.2 e he (heid.trans hid)
  exact ⟨ha.symm.trans ha', hk.symm.trans hk', hn.symm.trans hn'⟩

theorem Inv.sealEntry (hdb : Inv C db) {row : Entry} {keys : List (String × String)}
    (hkeys : ∀ n pub, (n, pub) ∈ keys → keys.lookup n = some pub)
    (hnodes : ∀ n pub, (n, pub) ∈ keys → ∃ r ∈ db.nodes, r.id = n) (hrow : Known db row)
    (hcond : undisturbed db (.sealEntry row keys) = true) :
    Inv C (db.sealEntry C row keys).1 ∧ Grows db (db.sealEntry C row keys).1 := by
  have hreads : db.stillReads (some row.id) row.nodeId keys = true := hcond
  unfold EnvDb.sealEntry
  dsimp only
  split
  · exact ⟨hdb, .refl db⟩
  · rename_i done hdone
    obtain ⟨hdoneNodes, hentries, hlast, hneeded, hrows⟩ := sealAll_spec hdone
    have hwritten : Rewritten db { done with
        entries := updateWhere (fun e => e.id == row.id)
          (fun e => { e with
            valueLegacy := ""
            fingerprint := C.fingerprint row.valueLegacy
            valueLen := row.valueLegacy.length }) done.entries } row.id row.adapter row.key
        row.nodeId (C.fingerprint row.valueLegacy) := by
      refine .update hdb hdoneNodes hlast (by rw [hentries]) ?_ ?_ hrow.2
      · exact fun _ => ⟨rfl, rfl, rfl, rfl⟩
      · exact fun _ => rfl
    refine ⟨hdb.reseal hwritten (fun hne => ?_) hrows ?_ ?_, hwritten.grows⟩
    · obtain ⟨e, he, hid⟩ := List.any_eq_true.mp (hneeded hne)
      refine ⟨_, mem_updateWhere.mpr ⟨e, by rw [hentries]; exact he, rfl⟩, ?_⟩
      rw [if_pos hid]
      exact beq_iff_eq.mp hid
    · intro n pub hmem
      obtain ⟨hmem, hmeant⟩ := List.mem_filter.mp hmem
      have hscope : row.nodeId = "" ∨ row.nodeId = n := by simpa using hmeant
      obtain ⟨r, hr, rfl⟩ := hnodes n pub hmem
      refine ⟨?_, hscope⟩
      obtain ⟨pub', hlookup, hpub⟩ | ⟨hnone, _⟩ := reads_of_stillReads hreads hr hscope
      · rw [hkeys _ _ hmem] at hlookup
        cases hlookup
        exact hpub
      · rw [hkeys _ _ hmem] at hnone
        cases hnone
    · intro n blob hblob
      obtain ⟨e, he, heid, pub, hpub, _⟩ := hdb.current row.id n blob hblob
      have hscope := hdb.scope row.id n blob hblob e he heid
      rw [(hrow.2 e he heid).2.2] at hscope
      obtain ⟨r, hr, rfl⟩ := mem_nodes_of_publicKey hpub
      obtain ⟨pub', hlookup, _⟩ | ⟨_, hnone⟩ := reads_of_stillReads hreads hr hscope
      · refine ⟨pub', List.mem_filter.mpr ⟨mem_of_lookup hlookup, ?_⟩⟩
        simpa using hscope
      · rw [hnone row.id rfl] at hblob
        cases hblob

theorem Inv.replaceKey (hdb : Inv C db) {node publicKey : String} {hadKey : Bool}
    (hcond : undisturbed db (.replaceKey node publicKey hadKey) = true) :
    Inv C (db.replaceKey node publicKey hadKey) ∧
      Grows db (db.replaceKey node publicKey hadKey) := by
  have hkept : ∀ {i n blob}, (db.replaceKey node publicKey hadKey).sealedRows i n = some blob →
      db.sealedRows i n = some blob ∧ n ≠ node := by
    intro i n blob hrow
    change (if hadKey = true ∧ n = node then none else db.sealedRows i n) = some blob at hrow
    split at hrow
    · cases hrow
    · rename_i hnot
      refine ⟨hrow, ?_⟩
      rintro rfl
      obtain ⟨_, _, _, pub, hpub, _⟩ := hdb.current i n blob hrow
      have hcases : hadKey = true ∨ db.publicKey n = none := by simpa [undisturbed] using hcond
      rcases hcases with hhad | hnone
      · exact hnot ⟨hhad, rfl⟩
      · rw [hnone] at hpub
        cases hpub
  refine ⟨⟨hdb.ids, hdb.triples, hdb.fresh, ?_, ?_⟩, ?_⟩
  · intro i n blob hrow
    exact hdb.scope i n blob (hkept hrow).1
  · intro i n blob hrow
    obtain ⟨hold, hne⟩ := hkept hrow
    obtain ⟨e, he, heid, pub, hpub, hopens⟩ := hdb.current i n blob hold
    refine ⟨e, he, heid, pub, ?_, hopens⟩
    have hlookup : lookup NodeRow.id n (db.replaceKey node publicKey hadKey).nodes = _ :=
      lookup_updateWhere (f := fun r : NodeRow => { r with publicKey := some publicKey })
        (fun _ => rfl) n db.nodes
    rw [EnvDb.publicKey, hlookup]
    unfold EnvDb.publicKey at hpub
    obtain ⟨r, hr, hrpub⟩ := Option.bind_eq_some_iff.mp hpub
    have hrid := (lookup_mem hr).2
    rw [hr, Option.map_some, Option.bind_some,
      if_neg (by rw [beq_iff_eq, hrid]; exact hne)]
    exact hrpub
  · refine ⟨fun n hn => ⟨_, mem_updateWhere.mpr ⟨n, hn, rfl⟩, ?_⟩, le_refl _,
      fun e he _ => ⟨e, he, rfl, rfl, rfl, rfl⟩⟩
    split <;> rfl

theorem Inv.deleteSealed (hdb : Inv C db) (id : Nat) :
    Inv C (db.deleteSealed id) ∧ Grows db (db.deleteSealed id) := by
  have hkept : ∀ {i n blob}, (db.deleteSealed id).sealedRows i n = some blob →
      db.sealedRows i n = some blob ∧ i ≠ id := by
    intro i n blob hrow
    change (if i = id then none else db.sealedRows i n) = some blob at hrow
    split at hrow
    · cases hrow
    · rename_i hne
      exact ⟨hrow, hne⟩
  refine ⟨⟨hdb.ids, hdb.triples, hdb.fresh, ?_, ?_⟩, ⟨fun n hn => ⟨n, hn, rfl⟩, le_refl _,
    fun e he _ => ⟨e, he, rfl, rfl, rfl, rfl⟩⟩⟩
  · exact fun i n blob hrow => hdb.scope i n blob (hkept hrow).1
  · exact fun i n blob hrow => hdb.current i n blob (hkept hrow).1

theorem Inv.deleteEntry (hdb : Inv C db) (id : Nat) :
    Inv C (db.deleteEntry id).1 ∧ Grows db (db.deleteEntry id).1 := by
  have hdeleted := (hdb.deleteSealed id).1
  refine ⟨⟨?_, ?_, ?_, ?_, ?_⟩, ⟨fun n hn => ⟨n, hn, rfl⟩, le_refl _, fun e he _ => ?_⟩⟩
  · exact hdb.ids.sublist (List.filter_sublist.map _)
  · exact fun e he e' he' => hdb.triples e (List.mem_of_mem_filter he) e' (List.mem_of_mem_filter he')
  · exact fun e he => hdb.fresh e (List.mem_of_mem_filter he)
  · exact fun i n blob hrow e he => hdeleted.scope i n blob hrow e (List.mem_of_mem_filter he)
  · intro i n blob hrow
    obtain ⟨e, he, heid, hrest⟩ := hdeleted.current i n blob hrow
    refine ⟨e, List.mem_filter.mpr ⟨he, ?_⟩, heid, hrest⟩
    change (if i = id then none else db.sealedRows i n) = some blob at hrow
    split at hrow
    · cases hrow
    · rename_i hne
      rw [bne_iff_ne, heid]
      exact hne
  · exact ⟨e, List.mem_of_mem_filter he, rfl, rfl, rfl, rfl⟩

theorem Inv.enroll (hdb : Inv C db) {e : Enroll} {db' : EnvDb} (h : e.apply db = some db') :
    Inv C db' ∧ Grows db db' := by
  unfold Enroll.apply at h
  split at h
  · cases h
  · cases h
    refine ⟨⟨hdb.ids, hdb.triples, hdb.fresh, hdb.scope, ?_⟩, ?_⟩
    · intro i n blob hrow
      obtain ⟨e', he, heid, pub, hpub, hopens⟩ := hdb.current i n blob hrow
      refine ⟨e', he, heid, pub, ?_, hopens⟩
      unfold EnvDb.publicKey lookup at hpub ⊢
      obtain ⟨r, hr, hrpub⟩ := Option.bind_eq_some_iff.mp hpub
      rw [List.find?_append, hr, Option.some_or, Option.bind_some]
      exact hrpub
    · exact ⟨fun n hn => ⟨n, List.mem_append_left _ hn, rfl⟩, le_refl _,
        fun e he _ => ⟨e, he, rfl, rfl, rfl, rfl⟩⟩

end Transactions

/-! ## The calls -/

def envTerms (C : Crypto) : Prog.Terms EnvTx Empty EnvDb Unit where
  rely := fun _ db db' => (Inv C db → Inv C db') ∧ Grows db db'
  grant := fun _ tx _ db => undisturbed db tx = true
  duty := fun _ _ _ _ db db' => Inv C db' ∧ Grows db db'

section Calls

variable {C : Crypto} {db : EnvDb}

theorem mem_allNodeIds {node : String} :
    node ∈ db.allNodeIds ↔ ∃ r ∈ db.nodes, r.id = node := by
  rw [EnvDb.allNodeIds, (List.perm_insertionSort _ _).mem_iff, List.mem_map]

theorem mem_nodePublicKeys {node pub : String} :
    (node, pub) ∈ db.nodePublicKeys ↔ node ∈ db.allNodeIds ∧ db.publicKey node = some pub := by
  simp only [EnvDb.nodePublicKeys, List.mem_filterMap, Option.map_eq_some_iff, Prod.mk.injEq]
  constructor
  · rintro ⟨id, hid, pub', hpub, rfl, rfl⟩
    exact ⟨hid, hpub⟩
  · rintro ⟨hid, hpub⟩
    exact ⟨node, hid, pub, hpub, rfl, rfl⟩

theorem lookup_nodePublicKeys {node pub : String} (h : (node, pub) ∈ db.nodePublicKeys) :
    db.nodePublicKeys.lookup node = some pub := by
  cases hlookup : db.nodePublicKeys.lookup node with
  | none => exact absurd rfl (bne_iff_ne.mp (List.lookup_eq_none_iff.mp hlookup _ h))
  | some pub' =>
      have hother := (mem_nodePublicKeys.mp (mem_of_lookup hlookup)).2
      rw [(mem_nodePublicKeys.mp h).2] at hother
      exact hother.symm

/-- The meaning of `Meets` for a program that begins with a transaction. -/
theorem meets_ask {α : Type} {tx : EnvTx} {next : tx.Reply → Program α} {db : EnvDb}
    (hdb : Inv C db)
    (h : ∀ db', Grows db db' → Inv C db' → undisturbed db' tx = true →
      Inv C (exec C tx db').1 ∧ Grows db' (exec C tx db').1 ∧
        (next (exec C tx db').2).Meets (fun _ tx db => exec C tx db) (envTerms C)
          (fun _ _ => True) (exec C tx db').1) :
    (Prog.bind (ask tx) next).Meets (fun _ tx db => exec C tx db) (envTerms C)
      (fun _ _ => True) db := by
  intro db' hrely
  refine ⟨trivial, fun _ hgrant => ?_⟩
  obtain ⟨hinv, hgrows, hnext⟩ := h db' hrely.2 (hrely.1 hdb) hgrant
  exact ⟨⟨hinv, hgrows⟩, hnext⟩

theorem meets_ret {α : Type} {value : α} {db : EnvDb} :
    (Prog.ret value : Program α).Meets (fun _ tx db => exec C tx db) (envTerms C)
      (fun _ _ => True) db :=
  fun _ _ => trivial

theorem meets_storeEntry (hdb : Inv C db) {adapter key value : String} {nodeId : Option String}
    {keys : List (String × String)} {targets : List String}
    (hkeys : ∀ n pub, (n, pub) ∈ keys → ∃ r ∈ db.nodes, r.id = n)
    (hall : nodeId = none → ∀ n pub, (n, pub) ∈ keys → n ∈ targets)
    (hone : ∀ m, nodeId = some m → targets = [m]) :
    (Prog.bind (ask (.storeEntry adapter key value nodeId keys targets)) fun
      | some outcome => pure (.stored outcome)
      | none => pure .failed : Program Answer).Meets (fun _ tx db => exec C tx db) (envTerms C)
      (fun _ _ => True) db := by
  refine meets_ask hdb fun db' hgrows hinv hcond => ?_
  have hkeys' : ∀ n pub, (n, pub) ∈ keys → ∃ r ∈ db'.nodes, r.id = n := by
    intro n pub hmem
    obtain ⟨r, hr, rfl⟩ := hkeys n pub hmem
    exact hgrows.nodes r hr
  obtain ⟨hinv', hgrows'⟩ := hinv.storeEntry hkeys' hall hone hcond
  refine ⟨hinv', hgrows', ?_⟩
  split <;> exact meets_ret

theorem meets_upsert (hdb : Inv C db) (adapter key value : String) (nodeId : Option String) :
    (upsertAdapterEnv adapter key value nodeId).Meets (fun _ tx db => exec C tx db) (envTerms C)
      (fun _ _ => True) db := by
  refine meets_ask hdb fun db₁ _ hinv₁ _ => ⟨hinv₁, .refl db₁, ?_⟩
  have hkeys : ∀ n pub, (n, pub) ∈ db₁.nodePublicKeys → ∃ r ∈ db₁.nodes, r.id = n :=
    fun n pub hmem => mem_allNodeIds.mp (mem_nodePublicKeys.mp hmem).1
  cases nodeId with
  | some m =>
      refine meets_storeEntry hinv₁ hkeys nofun fun m' hm => ?_
      cases hm
      rfl
  | none =>
      refine meets_ask hinv₁ fun db₂ hgrows₂ hinv₂ _ => ⟨hinv₂, .refl db₂, ?_⟩
      have hkeys₂ : ∀ n pub, (n, pub) ∈ db₁.nodePublicKeys → ∃ r ∈ db₂.nodes, r.id = n := by
        intro n pub hmem
        obtain ⟨r, hr, rfl⟩ := hkeys n pub hmem
        exact hgrows₂.nodes r hr
      exact meets_storeEntry hinv₂ hkeys₂
        (fun _ n pub hmem => mem_allNodeIds.mpr (hkeys₂ n pub hmem)) nofun

theorem meets_setKey (hdb : Inv C db) (nodeId publicKey : String) :
    (setNodePublicKey nodeId publicKey).Meets (fun _ tx db => exec C tx db) (envTerms C)
      (fun _ _ => True) db := by
  refine meets_ask hdb fun db₁ _ hinv₁ _ => ⟨hinv₁, .refl db₁, ?_⟩
  split
  · exact meets_ret
  · split
    · exact meets_ret
    · refine meets_ask hinv₁ fun db₂ _ hinv₂ hcond => ?_
      obtain ⟨hinv, hgrows⟩ := hinv₂.replaceKey hcond
      exact ⟨hinv, hgrows, meets_ret⟩

theorem meets_sealRows {keys : List (String × String)}
    (hkeys : ∀ n pub, (n, pub) ∈ keys → keys.lookup n = some pub) (rows : List Entry)
    (hdb : Inv C db) (hnodes : ∀ n pub, (n, pub) ∈ keys → ∃ r ∈ db.nodes, r.id = n)
    (hrows : ∀ row ∈ rows, Known db row) (entries blobs : Nat) :
    (sealRows keys rows entries blobs).Meets (fun _ tx db => exec C tx db) (envTerms C)
      (fun _ _ => True) db := by
  induction rows generalizing db entries blobs with
  | nil => exact meets_ret
  | cons row rest ih =>
      refine meets_ask hdb fun db' hgrows hinv hcond => ?_
      have hnodes' : ∀ {db'' : EnvDb}, Grows db db'' →
          ∀ n pub, (n, pub) ∈ keys → ∃ r ∈ db''.nodes, r.id = n := by
        intro db'' hgrows n pub hmem
        obtain ⟨r, hr, rfl⟩ := hnodes n pub hmem
        exact hgrows.nodes r hr
      obtain ⟨hinv', hgrows'⟩ := hinv.sealEntry hkeys (hnodes' hgrows)
        ((hrows row List.mem_cons_self).grows hgrows) hcond
      refine ⟨hinv', hgrows', ?_⟩
      split
      · exact meets_ret
      · refine ih hinv' (hnodes' (hgrows.trans hgrows')) (fun r hr => ?_) _ _
        exact (hrows r (List.mem_cons_of_mem _ hr)).grows (hgrows.trans hgrows')

theorem meets_sealLegacy (hdb : Inv C db) :
    sealLegacyAdapterEnv.Meets (fun _ tx db => exec C tx db) (envTerms C)
      (fun _ _ => True) db := by
  refine meets_ask hdb fun db₁ _ hinv₁ _ => ⟨hinv₁, .refl db₁, ?_⟩
  split
  · exact meets_ret
  · refine meets_ask hinv₁ fun db₂ hgrows₂ hinv₂ _ => ⟨hinv₂, .refl db₂, ?_⟩
    refine meets_sealRows (fun n pub hmem => lookup_nodePublicKeys hmem) _ hinv₂
      (fun n pub hmem => mem_allNodeIds.mp (mem_nodePublicKeys.mp hmem).1) (fun row hrow => ?_) 0 0
    have hmem : row ∈ db₁.entries := List.mem_of_mem_filter hrow
    refine Known.grows ⟨hinv₁.fresh row hmem, fun e he hid => ?_⟩ hgrows₂
    obtain rfl := row_unique hinv₁.ids he hmem hid
    exact ⟨rfl, rfl, rfl⟩

theorem meets_remove (hdb : Inv C db) (id : Nat) :
    (removeAdapterEnv id).Meets (fun _ tx db => exec C tx db) (envTerms C)
      (fun _ _ => True) db := by
  refine meets_ask hdb fun db₁ _ hinv₁ _ => ?_
  obtain ⟨hinv, hgrows⟩ := hinv₁.deleteSealed id
  refine ⟨hinv, hgrows, meets_ask hinv fun db₂ _ hinv₂ _ => ?_⟩
  obtain ⟨hinv', hgrows'⟩ := hinv₂.deleteEntry id
  exact ⟨hinv', hgrows', meets_ret⟩

theorem rules_kept (C : Crypto) : Pool.Kept (rules C) (envTerms C) (Inv C) where
  trans := fun h h' => ⟨fun hinv => h'.1 (h.1 hinv), h.2.trans h'.2⟩
  program := fun call db hdb => by
    cases call with
    | upsert adapter key value nodeId => exact meets_upsert hdb adapter key value nodeId
    | setKey nodeId publicKey => exact meets_setKey hdb nodeId publicKey
    | sealLegacy => exact meets_sealLegacy hdb
    | remove id => exact meets_remove hdb id
  duty := fun hduty => ⟨hduty.1, fun _ => ⟨fun _ => hduty.1, hduty.2⟩⟩
  other := fun hinv hother => by
    obtain ⟨hinv', hgrows⟩ := hinv.enroll hother
    exact ⟨hinv', fun _ => ⟨fun _ => hinv', hgrows⟩⟩
  refl := fun _ db => ⟨id, .refl db⟩

end Calls

/-- The rows as the migration leaves them: nothing is sealed yet. -/
structure Migrated (db : EnvDb) : Prop where
  ids : (db.entries.map Entry.id).Nodup
  triples : ∀ e ∈ db.entries, ∀ e' ∈ db.entries, e.adapter = e'.adapter → e.key = e'.key →
    e.nodeId = e'.nodeId → e = e'
  fresh : ∀ e ∈ db.entries, e.id ≤ db.lastId
  unsealed : ∀ id node, db.sealedRows id node = none

theorem Migrated.inv {C : Crypto} {db : EnvDb} (h : Migrated db) : Inv C db := by
  refine ⟨h.ids, h.triples, h.fresh, ?_, ?_⟩
  · intro id node blob hrow
    rw [h.unsealed] at hrow
    cases hrow
  · intro id node blob hrow
    rw [h.unsealed] at hrow
    cases hrow

/-- The transaction of the event is undisturbed. -/
def calm (P : EnvPool) : EnvEvent → Bool
  | .advance i _ =>
      match P.threads[i]? with
      | some (.call _ tx _) => undisturbed P.state tx
      | _ => true
  | _ => true

/-- In every run whose transactions find what their calls read, every ciphertext
is current, in every state. -/
theorem sealed_stay_current (C : Crypto) {db : EnvDb} (hdb : Migrated db) {es : List EnvEvent}
    {P : EnvPool}
    (h : Runs (During (Pool.Steps (rules C)) fun P e => calm P e = true) ⟨db, []⟩ es P) :
    Current C P.state := by
  have hgranted : Runs (During (Pool.Steps (rules C)) (Pool.granted (envTerms C))) ⟨db, []⟩ es P := by
    refine h.mono fun {P e P'} hstep => ⟨hstep.1, ?_⟩
    cases e with
    | advance i input =>
        intro keys tx next hthread
        have hcalm := hstep.2
        simp only [calm, hthread] at hcalm
        exact hcalm
    | _ => exact trivial
  exact (Pool.Fits.run (rules_kept C) hgranted ⟨hdb.inv, nofun⟩).state.current

section Rotation

def firstKey : String := "F5K6mEHtvD0LbCqD1Nq5b0b3CwyCcJ0k0u3xvZ1sVkE"

def secondKey : String := "Z8mHkzU1rJpQ3mC0bX9yT5sQe2w7n4l6a8d0f2h4j6k"

def sha : Crypto where
  validKey := fun key => key.length == 43
  fingerprint := fun value => if value = "sk-1" then "0f2c10bf" else ""

def oneNode : EnvDb := { nodes := [⟨"n1", some firstKey⟩] }

theorem oneNode_migrated : Migrated oneNode :=
  ⟨List.nodup_nil, nofun, nofun, fun _ _ => rfl⟩

def turns (i n : Nat) : List EnvEvent := List.replicate n (.advance i ())

def storing : EnvEvent := .start (.upsert "claude" "ANTHROPIC_API_KEY" "sk-1" none)

/-- A value is stored for the node. -/
theorem sealed_stay_current_stored :
    ∃ P, Runs (During (Pool.Steps (rules sha)) fun P e => calm P e = true) ⟨oneNode, []⟩
        ([storing] ++ turns 0 3) P ∧
      (P.state.sealedRows 1 "n1").isSome = true ∧ Current sha P.state := by
  have hend : (([storing] ++ turns 0 3).foldlM (fun P e =>
      if calm P e then Pool.step (rules sha) P e else none) (⟨oneNode, []⟩ : EnvPool)).any
      (fun P => (P.state.sealedRows 1 "n1").isSome) = true := by
    decide
  obtain ⟨P, hP, hrow⟩ := (Option.any_eq_true _ _).mp hend
  have hrun := Runs.foldlM hP
  exact ⟨P, hrun, hrow, sealed_stay_current sha oneNode_migrated hrun⟩

/-- The node announces another key between the reads of an upsert and its
transaction. -/
def rotating : List EnvEvent :=
  [storing] ++ turns 0 2 ++ ([Pool.Event.start (.setKey "n1" secondKey)] ++ turns 1 2) ++ turns 0 1

theorem sealed_to_old_key :
    Migrated oneNode ∧ ∃ P, Runs (Pool.Steps (rules sha)) ⟨oneNode, []⟩ rotating P ∧
      P.quiet = true ∧ ¬ Current sha P.state := by
  refine ⟨oneNode_migrated, ?_⟩
  have hend : (rotating.foldlM (Pool.step (rules sha)) (⟨oneNode, []⟩ : EnvPool)).any
      (fun P => P.quiet && P.state.publicKey "n1" == some secondKey &&
        P.state.sealedRows 1 "n1" == some ⟨firstKey,
          entryAad "n1" "claude" "ANTHROPIC_API_KEY", "sk-1"⟩) = true := by
    decide
  obtain ⟨P, hP, hlast⟩ := (Option.any_eq_true _ _).mp hend
  simp only [Bool.and_eq_true, beq_iff_eq] at hlast
  obtain ⟨⟨hquiet, hkey⟩, hrow⟩ := hlast
  refine ⟨P, Runs.of_foldlM hP, hquiet, fun hcurrent => ?_⟩
  obtain ⟨e, _, _, pub, hpub, value, hopens, _⟩ := hcurrent 1 "n1" _ hrow
  rw [hkey] at hpub
  cases hpub
  unfold SealedBlob.opens at hopens
  split at hopens
  · rename_i hsame
    exact absurd hsame.1 (by decide)
  · cases hopens

end Rotation

end AgentGrid.Store.AdapterEnv
