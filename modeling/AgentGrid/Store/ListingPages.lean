import AgentGrid.Store.Listings

/-!
# Every row once

The predicate and the order of the queries are those of the pairs of time and id,
so a page after a cursor is the next stretch of the listing, and the cursor that a
handler gives out comes back as the pair it was made of.
-/

namespace AgentGrid.Store.Listings

open AgentGrid.Foundation

/-! ## Cursors -/

/-- What the writers put into the rows: a time of `now_iso` and a UUID. -/
structure Stamped (mark : String × String) : Prop where
  createdAt : mark.1 ≠ ""
  noComma : ',' ∉ mark.1.toList
  id : mark.2 ≠ ""

theorem splitCursor_cursorText {mark : String × String} (h : Stamped mark) :
    splitCursor (cursorText mark) = some mark := by
  obtain ⟨createdAt, id⟩ := mark
  obtain ⟨hcreated, hcomma, -⟩ := h
  have hall : ∀ c ∈ createdAt.toList, (c != ',') = true := by
    intro c hc
    rw [bne_iff_ne]
    rintro rfl
    exact hcomma hc
  have htext : (cursorText (createdAt, id)).toList = createdAt.toList ++ ',' :: id.toList := by
    simp [cursorText]
  have hnonempty : createdAt.toList.isEmpty = false := by
    simpa using hcreated
  rw [splitCursor, htext, List.takeWhile_append_of_pos hall, List.dropWhile_append_of_pos hall]
  simp [hnonempty]

theorem pair_sendBack {cursor : Option (String × String)} (h : ∀ mark ∈ cursor, Stamped mark) :
    (sendBack cursor).pair = cursor := by
  cases cursor with
  | none => rfl
  | some mark =>
      obtain ⟨hcreated, -, hid⟩ := h mark rfl
      exact if_pos ⟨hcreated, hid⟩

/-! ## The order of the queries -/

abbrev Position : Type := String ×ₗ String

theorem keysetPredicate_iff (mark after : String × String) :
    keysetPredicate mark.1 mark.2 after = decide (toLex after < toLex mark) := by
  rw [Bool.eq_iff_iff, decide_eq_true_iff, Prod.Lex.toLex_lt_toLex]
  rw [keysetPredicate, Bool.or_eq_true, Bool.and_eq_true, decide_eq_true_iff, decide_eq_true_iff,
    beq_iff_eq, eq_comm (a := mark.1)]

theorem keysetBefore_iff (mark before : String × String) :
    keysetBefore mark.1 mark.2 before =
      decide (OrderDual.toDual (toLex before) < OrderDual.toDual (toLex mark)) := by
  rw [Bool.eq_iff_iff, decide_eq_true_iff, OrderDual.toDual_lt_toDual, Prod.Lex.toLex_lt_toLex]
  rw [keysetBefore, Bool.or_eq_true, Bool.and_eq_true, decide_eq_true_iff, decide_eq_true_iff,
    beq_iff_eq]

theorem keysetOrder_iff (mark mark' : String × String) :
    keysetOrder mark mark' ↔ toLex mark ≤ toLex mark' := by
  rw [Prod.Lex.toLex_le_toLex]
  rfl

theorem insertionSort_congr {ρ : Type} {r s : ρ → ρ → Prop} [DecidableRel r] [DecidableRel s]
    (h : ∀ x y, r x y ↔ s x y) (rows : List ρ) : rows.insertionSort r = rows.insertionSort s := by
  obtain rfl : r = s := by
    funext x y
    exact propext (h x y)
  congr

section Forward

variable {ρ : Type} {mark : ρ → String × String}

def forward (mark : ρ → String × String) (r : ρ) : Position := toLex (mark r)

def backward (mark : ρ → String × String) (r : ρ) : Positionᵒᵈ :=
  OrderDual.toDual (toLex (mark r))

/-- A forward query is a page of the rows beyond its cursor. -/
theorem forward_query (rows : List ρ) (admits : ρ → Bool) (after : Option (String × String))
    (size : Nat) :
    ((rows.filter fun r => after.all (keysetPredicate (mark r).1 (mark r).2) &&
        admits r).insertionSort fun r r' => keysetOrder (mark r) (mark r')).take size =
      page (forward mark) size (beyond (forward mark) (after.map toLex) (rows.filter admits)) := by
  have hwhere : (rows.filter fun r => after.all (keysetPredicate (mark r).1 (mark r).2) &&
      admits r) = beyond (forward mark) (after.map toLex) (rows.filter admits) := by
    rw [beyond, List.filter_filter]
    refine List.filter_congr fun r _ => ?_
    cases after with
    | none => rfl
    | some after => exact congrArg (· && admits r) (keysetPredicate_iff (mark r) after)
  rw [hwhere, insertionSort_congr fun r r' => keysetOrder_iff (mark r) (mark r')]
  rfl

theorem backward_query (rows : List ρ) (admits : ρ → Bool) (before : Option (String × String))
    (size : Nat) :
    ((rows.filter fun r => admits r &&
        before.all (keysetBefore (mark r).1 (mark r).2)).insertionSort
          fun r r' => keysetOrder (mark r') (mark r)).take size =
      page (backward mark) size (beyond (backward mark)
        (before.map fun m => OrderDual.toDual (toLex m)) (rows.filter admits)) := by
  have hwhere : (rows.filter fun r => admits r &&
      before.all (keysetBefore (mark r).1 (mark r).2)) =
      beyond (backward mark) (before.map fun m => OrderDual.toDual (toLex m))
        (rows.filter admits) := by
    rw [beyond, List.filter_filter]
    refine List.filter_congr fun r _ => ?_
    rw [Bool.and_comm]
    cases before with
    | none => rfl
    | some before => exact congrArg (· && admits r) (keysetBefore_iff (mark r) before)
  rw [hwhere, insertionSort_congr fun r r' => keysetOrder_iff (mark r') (mark r)]
  rfl

end Forward

/-! ## Following a listing -/

/-- A table whose ids are its primary key and whose rows are stamped by their writers. -/
structure Keyed {ρ : Type} (mark : ρ → String × String) (rows : List ρ) : Prop where
  ids : (rows.map fun r => (mark r).2).Nodup
  stamped : ∀ r ∈ rows, Stamped (mark r)

theorem Keyed.nil {ρ : Type} (mark : ρ → String × String) : Keyed mark [] :=
  ⟨List.nodup_nil, fun _ hr => absurd hr List.not_mem_nil⟩

theorem Keyed.filter {ρ : Type} {mark : ρ → String × String} {rows : List ρ}
    (h : Keyed mark rows) (admits : ρ → Bool) : Keyed mark (rows.filter admits) where
  ids := h.ids.sublist (List.filter_sublist.map _)
  stamped r hr := h.stamped r (List.mem_of_mem_filter hr)

theorem Keyed.marks {ρ : Type} {mark : ρ → String × String} {rows : List ρ}
    (h : Keyed mark rows) : (rows.map mark).Nodup := by
  refine List.Nodup.of_map Prod.snd ?_
  rw [List.map_map]
  exact h.ids

/-- What a handler answers with its page. -/
def respond {ρ : Type} (mark : ρ → String × String) (size : Nat) (items : List ρ) :
    ListResponse ρ :=
  ⟨items,
    if items.length = size then items.getLast?.map fun r => cursorText (mark r) else none⟩

theorem respond_answer {ρ : Type} {mark : ρ → String × String} {rest : List ρ}
    (h : ∀ r ∈ rest, Stamped (mark r)) (size : Nat) :
    ((respond mark size (rest.take size)).items,
      (respond mark size (rest.take size)).nextCursor.bind splitCursor) =
      pageAnswer mark size rest := by
  unfold respond pageAnswer
  refine Prod.ext rfl ?_
  dsimp only
  split
  · cases hlast : (rest.take size).getLast? with
    | none => rfl
    | some r =>
        have hmem := List.mem_of_mem_take (List.mem_of_getLast? hlast)
        exact splitCursor_cursorText (h r hmem)
  · rfl

theorem followListing_eq {ρ κ limit : Type} [LinearOrder κ] {key : ρ → κ}
    {mark : ρ → String × String} {place : String × String → κ} (hplace : ∀ r, place (mark r) = key r)
    {handler : CursorQuery → limit → ListResponse ρ} {limits : Nat → limit} {sizes : Nat → Nat}
    {rows : List ρ} (hrows : Keyed mark rows) (hkeys : (rows.map key).Nodup)
    (hsizes : ∀ i, 0 < sizes i)
    (hhandler : ∀ i cursor, handler cursor (limits i) = respond mark (sizes i)
      (page key (sizes i) (beyond key (cursor.pair.map place) rows)))
    {fuel : Nat} (hfuel : rows.length < fuel) :
    followListing handler limits fuel = some (listing key rows) := by
  have hperm : (listing key rows).Perm rows := listing_perm rows
  have hstamped : ∀ r ∈ listing key rows, Stamped (mark r) :=
    fun r hr => hrows.stamped r (hperm.mem_iff.mp hr)
  have hanswer : ∀ i front rest, listing key rows = front ++ rest →
      (fun i cursor => ((handler (sendBack cursor) (limits i)).items,
        (handler (sendBack cursor) (limits i)).nextCursor.bind splitCursor)) i
        (front.getLast?.map mark) = pageAnswer mark (sizes i) rest := by
    intro i front rest hsplit
    have hcursor : ∀ m ∈ front.getLast?.map mark, Stamped m := by
      intro m hm
      obtain ⟨r, hr, rfl⟩ := Option.map_eq_some_iff.mp hm
      exact hstamped r (hsplit ▸ List.mem_append_left _ (List.mem_of_getLast? hr))
    have hmarks : (front.getLast?.map mark).map place = front.getLast?.map key := by
      rw [Option.map_map]
      exact congrArg (Option.map · front.getLast?) (funext hplace)
    have hrest : ∀ r ∈ rest, Stamped (mark r) :=
      fun r hr => hstamped r (hsplit ▸ List.mem_append_right _ hr)
    dsimp only
    rw [hhandler, pair_sendBack hcursor, hmarks, page_beyond hkeys hsplit]
    exact respond_answer hrest (sizes i)
  have hlength : (listing key rows).length < fuel := hperm.length_eq ▸ hfuel
  exact follow_pages hsizes hanswer (List.nil_append _).symm hlength

/-! ## The three listings -/

theorem taskListing_respond (db : Database) (q : TaskFilter) (after : CursorQuery)
    (limit : Option Nat) :
    taskListing db q after limit = respond taskMark (pageLimit limit)
      (page (forward taskMark) (pageLimit limit)
        (beyond (forward taskMark) (after.pair.map toLex) (db.tasks.filter (q.admits db)))) := by
  rw [← forward_query]
  rfl

theorem nodeListing_respond (db : Database) (after : CursorQuery) (limit : Option Nat) :
    nodeListing db after limit = respond nodeMark (pageLimit limit)
      (page (forward nodeMark) (pageLimit limit)
        (beyond (forward nodeMark) (after.pair.map toLex) (db.nodes.filter fun _ => true))) := by
  rw [← forward_query]
  simp only [Bool.and_true]
  rfl

def auditLimit (limit : Option Int) : Int := max 1 (min (limit.getD 100) 500)

theorem auditLimit_pos (limit : Option Int) : 1 ≤ auditLimit limit := le_max_left _ _

def auditAdmits (action : Option String) (e : Consensus.AuditEvent) : Bool :=
  (action.filter (· != "")).all (e.action == ·)

theorem auditListing_respond (events : List Consensus.AuditEvent) (action : Option String)
    (before : CursorQuery) (limit : Option Int) :
    auditListing events action before limit = respond auditMark (auditLimit limit).toNat
      (page (backward auditMark) (auditLimit limit).toNat
        (beyond (backward auditMark) (before.pair.map fun m => OrderDual.toDual (toLex m))
          (events.filter (auditAdmits action)))) := by
  rw [← backward_query]
  have hlimit : ¬ auditLimit limit < 0 := by
    have hpos := auditLimit_pos limit
    omega
  have hpage : ∀ rows : List Consensus.AuditEvent,
      sqlLimit (auditLimit limit) rows = rows.take (auditLimit limit).toNat :=
    fun rows => if_neg hlimit
  rw [← hpage]
  rfl

theorem pageLimit_pos {limit : Option Nat} (h : limit ≠ some 0) : 0 < pageLimit limit := by
  cases limit with
  | none => decide
  | some n =>
      have hn : n ≠ 0 := fun hzero => h (congrArg some hzero)
      simp only [pageLimit, Option.getD_some]
      omega

/-- The order of a listing. -/
def Precedes (m m' : String × String) : Prop := m.1 < m'.1 ∨ m.1 = m'.1 ∧ m.2 < m'.2

/-- A client ended with the matching rows, each once and in order. -/
def ReadsOnce {ρ : Type} (mark : ρ → String × String)
    (before : String × String → String × String → Prop) (admits : ρ → Bool) (rows : List ρ)
    (result : Option (List ρ)) : Prop :=
  ∃ read, result = some read ∧ read.Perm (rows.filter admits) ∧
    read.Pairwise fun r r' => before (mark r) (mark r')

section Reads

variable {ρ limit : Type} {mark : ρ → String × String} {rows : List ρ} {limits : Nat → limit}
  {handler : CursorQuery → limit → ListResponse ρ} {sizes : Nat → Nat} {admits : ρ → Bool}

theorem readsOnce_forward (hrows : Keyed mark rows) (hsizes : ∀ i, 0 < sizes i)
    (hhandler : ∀ i cursor, handler cursor (limits i) = respond mark (sizes i)
      (page (forward mark) (sizes i)
        (beyond (forward mark) (cursor.pair.map toLex) (rows.filter admits))))
    {fuel : Nat} (hfuel : rows.length < fuel) :
    ReadsOnce mark Precedes admits rows (followListing handler limits fuel) := by
  have hmatching := hrows.filter admits
  have hkeys : ((rows.filter admits).map (forward mark)).Nodup := by
    have hinjective : Function.Injective fun m : String × String => toLex m := toLex.injective
    have hmap := hmatching.marks.map hinjective
    rwa [List.map_map] at hmap
  have hlength : (rows.filter admits).length < fuel :=
    (List.length_filter_le _ _).trans_lt hfuel
  refine ⟨_, followListing_eq (fun _ => rfl) hmatching hkeys hsizes hhandler hlength,
    listing_perm _, ?_⟩
  exact (listing_strict hkeys).imp fun hlt => Prod.Lex.toLex_lt_toLex.mp hlt

theorem readsOnce_backward (hrows : Keyed mark rows) (hsizes : ∀ i, 0 < sizes i)
    (hhandler : ∀ i cursor, handler cursor (limits i) = respond mark (sizes i)
      (page (backward mark) (sizes i) (beyond (backward mark)
        (cursor.pair.map fun m => OrderDual.toDual (toLex m)) (rows.filter admits))))
    {fuel : Nat} (hfuel : rows.length < fuel) :
    ReadsOnce mark (fun m m' => Precedes m' m) admits rows
      (followListing handler limits fuel) := by
  have hmatching := hrows.filter admits
  have hkeys : ((rows.filter admits).map (backward mark)).Nodup := by
    have hinjective : Function.Injective fun m : String × String => OrderDual.toDual (toLex m) :=
      OrderDual.toDual.injective.comp toLex.injective
    have hmap := hmatching.marks.map hinjective
    rwa [List.map_map] at hmap
  have hlength : (rows.filter admits).length < fuel :=
    (List.length_filter_le _ _).trans_lt hfuel
  refine ⟨_, followListing_eq (fun _ => rfl) hmatching hkeys hsizes hhandler hlength,
    listing_perm _, ?_⟩
  exact (listing_strict hkeys).imp fun hlt =>
    Prod.Lex.toLex_lt_toLex.mp (OrderDual.toDual_lt_toDual.mp hlt)

end Reads

theorem keyset_pages_exact {db : Database} {events : List Consensus.AuditEvent}
    (htasks : Keyed taskMark db.tasks) (hnodes : Keyed nodeMark db.nodes)
    (hevents : Keyed auditMark events) (q : TaskFilter) (action : Option String)
    {limits : Nat → Option Nat} (hlimits : ∀ i, limits i ≠ some 0)
    (auditLimits : Nat → Option Int) {fuel : Nat} (htaskFuel : db.tasks.length < fuel)
    (hnodeFuel : db.nodes.length < fuel) (heventFuel : events.length < fuel) :
    ReadsOnce taskMark Precedes (q.admits db) db.tasks
      (followListing (taskListing db q) limits fuel) ∧
    ReadsOnce nodeMark Precedes (fun _ => true) db.nodes
      (followListing (nodeListing db) limits fuel) ∧
    ReadsOnce auditMark (fun m m' => Precedes m' m) (auditAdmits action) events
      (followListing (auditListing events action) auditLimits fuel) := by
  have hsizes : ∀ i, 0 < pageLimit (limits i) := fun i => pageLimit_pos (hlimits i)
  have hauditSizes : ∀ i, 0 < (auditLimit (auditLimits i)).toNat := by
    intro i
    have hpos := auditLimit_pos (auditLimits i)
    omega
  refine ⟨?_, ?_, ?_⟩
  · exact readsOnce_forward htasks hsizes (fun i c => taskListing_respond db q c (limits i))
      htaskFuel
  · exact readsOnce_forward hnodes hsizes (fun i c => nodeListing_respond db c (limits i))
      hnodeFuel
  · exact readsOnce_backward hevents hauditSizes
      (fun i c => auditListing_respond events action c (auditLimits i)) heventFuel

/-- Two tasks of one moment, the later id first. -/
def tiedDb : Database where
  tasks := ["t2", "t1"].map fun id =>
    { id := id, repository := "app", prompt := "fix it", adapter := "claude", createdAt := "now" }

theorem keyset_pages_exact_tied :
    ReadsOnce taskMark Precedes (TaskFilter.admits {} tiedDb) tiedDb.tasks
      (followListing (taskListing tiedDb {}) (fun _ => some 1) 3) := by
  have hstamped : ∀ t ∈ tiedDb.tasks, Stamped (taskMark t) := by
    intro t ht
    obtain ⟨id, hid, rfl⟩ := List.mem_map.mp ht
    have hne : id ≠ "" := by
      rintro rfl
      exact absurd hid (by decide)
    have hnow : "now" ≠ "" := by decide
    have hcomma : ',' ∉ "now".toList := by decide
    exact ⟨hnow, hcomma, hne⟩
  have htasks : Keyed taskMark tiedDb.tasks := ⟨by decide, hstamped⟩
  have hnodes : Keyed nodeMark tiedDb.nodes := .nil nodeMark
  have hlimits : ∀ _ : Nat, some 1 ≠ some 0 := fun _ => by decide
  have htaskFuel : tiedDb.tasks.length < 3 := by decide
  have hnodeFuel : tiedDb.nodes.length < 3 := by decide
  have heventFuel : ([] : List Consensus.AuditEvent).length < 3 := by decide
  have hread := keyset_pages_exact htasks hnodes (.nil auditMark) {} none hlimits (fun _ => none)
    htaskFuel hnodeFuel heventFuel
  exact hread.1

end AgentGrid.Store.Listings
