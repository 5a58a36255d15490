import AgentGrid.Ha.Carriers

/-!
# Agreement of the replicas

Nothing but their numbers ties databases, snapshots and batches together.  They
agree with one timeline as long as a leader takes a number only while nothing else carries a larger one, and commits
without a number only while nothing else carries its current one.  Under these
conditions two replicas with one number have one history.
-/

namespace AgentGrid.Ha

open AgentGrid.Foundation

variable {δ κ : Type}

/-! ## Conditions on a step -/

def Fleet.noneAbove (S : Setup δ κ) (s : Fleet δ κ) (me : NodeId) : Bool :=
  (s.elsewhere S me).all fun item =>
    item.numbers.all fun n => decide (n ≤ (s.replica me).db.replSeq)

def Fleet.noneAt (S : Setup δ κ) (s : Fleet δ κ) (me : NodeId) : Bool :=
  (s.elsewhere S me).all fun item => !item.numbers.contains (s.replica me).db.replSeq

/-- A step that takes a fresh number finds no larger one elsewhere. -/
def ReplEvent.freshNumber (S : Setup δ κ) (s : Fleet δ κ) : ReplEvent κ → Bool
  | .commit me c => !S.numbers me c || s.noneAbove S me
  | .promote me _ => S.replicates me || s.noneAbove S me
  | .createSnapshot me _ =>
      S.replicates me || (reusable (s.replica me)).isSome || s.noneAbove S me
  | _ => true

def consecutive : List Nat → Bool
  | first :: second :: rest => second == first + 1 && consecutive (second :: rest)
  | _ => true

/-- A batch is made of changesets with consecutive numbers. -/
def ReplEvent.wholeBatch (s : Fleet δ κ) : ReplEvent κ → Bool
  | .push me count => consecutive (((s.replica me).queue.take count).map Job.seq)
  | _ => true

/-- A commit without a number finds its current number nowhere else. -/
def ReplEvent.ownNumber (S : Setup δ κ) (s : Fleet δ κ) : ReplEvent κ → Bool
  | .commit me c => S.numbers me c || s.noneAt S me
  | _ => true

/-- A commit without a number finds no changeset into or out of its current
number that a demotion may undo, and no snapshot is restored over a leader. -/
def ReplEvent.keepsRewind (S : Setup δ κ) (s : Fleet δ κ) : ReplEvent κ → Bool
  | .commit me c =>
      let seq := (s.replica me).db.replSeq
      S.numbers me c || S.data.all fun id =>
        (s.replica id).rewind.entries.all fun e =>
          decide (e.1 ≤ (s.replica id).lastReplicatedSeq) || (e.1 != seq && e.1 != seq + 1)
  | .install me => (s.replica me).role != .leader
  | _ => true

/-! ## Agreement with a timeline -/

/-- Every copy holds the version of its number, and every batch leads from one
number to another. -/
abbrev Agrees (S : Setup δ κ) (G : Nat → Version δ κ) (s : Fleet δ κ) : Prop :=
  s.All S fun item => item.Holds S.sql.toChanges G

section Agreement

variable {S : Setup δ κ} {G : Nat → Version δ κ} {s : Fleet δ κ} {me : NodeId}
  {r : Replica δ κ}

/-- A step that gives a new version to a number nothing else carries. -/
theorem agrees_update (h : Agrees S G s) (hme : me ∈ S.data) {k : Nat}
    {v : Version δ κ} (hk : ∀ item ∈ s.elsewhere S me, k ∉ item.numbers)
    (hdb : r.db.item.Holds S.sql.toChanges (Function.update G k v))
    (hcarried : ∀ item ∈ r.carried, item ∈ (s.replica me).carried ∨
      item.Holds S.sql.toChanges (Function.update G k v)) :
    Agrees S (Function.update G k v) (s.put me r) := by
  have helse : ∀ item ∈ s.elsewhere S me,
      item.Holds S.sql.toChanges (Function.update G k v) := fun item hitem =>
    (h.elsewhere hitem).update (hk item hitem) v
  refine .put_of helse fun _ => .of_carried hdb ?_
  intro item hitem
  rcases hcarried item hitem with hold | hnew
  · exact helse item (Fleet.carried_elsewhere hme hold)
  · exact hnew

theorem Fleet.not_mem_of_noneAbove (h : s.noneAbove S me = true) {item : Item δ κ}
    (hitem : item ∈ s.elsewhere S me) : (s.replica me).db.replSeq + 1 ∉ item.numbers := by
  intro hn
  have hle : (s.replica me).db.replSeq + 1 ≤ (s.replica me).db.replSeq := by
    simpa using (List.all_eq_true.mp (List.all_eq_true.mp h item hitem)) _ hn
  omega

theorem Fleet.not_mem_of_noneAt (h : s.noneAt S me = true) {item : Item δ κ}
    (hitem : item ∈ s.elsewhere S me) : (s.replica me).db.replSeq ∉ item.numbers := by
  simpa using List.all_eq_true.mp h item hitem

/-! ## One step of a node -/

section Commit

variable {c : κ} {contents : δ}

/-- The timeline after a commit: its number gets the new version. -/
def committed (S : Setup δ κ) (G : Nat → Version δ κ) (me : NodeId) (r : Replica δ κ)
    (c : κ) (contents : δ) : Nat → Version δ κ :=
  Function.update G (if S.numbers me c then r.db.replSeq + 1 else r.db.replSeq)
    ⟨contents, r.db.version.history ++ [c]⟩

/-- The changeset of a numbered commit leads to its number. -/
theorem committed_leads (hnumbers : S.numbers me c = true)
    (hdb : r.db.version = G r.db.replSeq)
    (happly : S.sql.apply r.db.version.contents c = some contents) :
    (Item.link r.db.replSeq (r.db.replSeq + 1) [c]).Holds S.sql.toChanges
      (committed S G me r c contents) := by
  unfold committed
  rw [if_pos hnumbers]
  apply Leads.single
  · simpa [← hdb] using happly
  · simp [← hdb]

theorem commit_agrees (h : Agrees S G s) (hme : me ∈ S.data)
    (happly : S.sql.apply (s.replica me).db.version.contents c = some contents)
    (hfresh : (ReplEvent.commit me c).freshNumber S s = true)
    (hown : (ReplEvent.commit me c).ownNumber S s = true) :
    Agrees S (committed S G me (s.replica me) c contents)
      (s.put me (commit S me (s.replica me) c contents)) := by
  have hdb : (s.replica me).db.version = G (s.replica me).db.replSeq :=
    (h.replicas me hme).db
  cases hnumbers : S.numbers me c with
  | true =>
      have hlink := committed_leads hnumbers hdb happly
      unfold committed at hlink ⊢
      rw [if_pos hnumbers] at hlink ⊢
      have habove : s.noneAbove S me = true := by
        simpa [ReplEvent.freshNumber, hnumbers] using hfresh
      refine agrees_update h hme (fun _ => Fleet.not_mem_of_noneAbove habove) ?_ ?_
      · simp [commit_of_numbers hnumbers, Database.item, Item.Holds, Database.write]
      · intro item hitem
        rw [commit_of_numbers hnumbers] at hitem
        simp only [Replica.carried, List.map_append, List.mem_append] at hitem ⊢
        rcases hitem with hkept | hqueued | hnew
        · exact .inl (.inl hkept)
        · exact .inl (.inr hqueued)
        · obtain rfl : item = Job.item ⟨(s.replica me).db.replSeq + 1, c⟩ := by
            simpa using hnew
          exact .inr hlink
  | false =>
      unfold committed
      rw [hnumbers]
      have hat : s.noneAt S me = true := by
        simpa [ReplEvent.ownNumber, hnumbers] using hown
      obtain ⟨request, hcommit⟩ :=
        commit_of_not_numbers (s.replica me) contents hnumbers
      rw [hcommit]
      refine agrees_update h hme (fun _ => Fleet.not_mem_of_noneAt hat) ?_ ?_
      · simp [Database.item, Item.Holds, Database.write]
      · exact fun item hitem => .inl hitem

end Commit

section Apply

variable {b : Batch κ}

theorem applyChangesetBatch_holds {db : Database δ κ}
    (hdb : db.item.Holds S.sql.toChanges G) (hb : b.item.Holds S.sql.toChanges G) :
    (applyChangesetBatch S db b).1.item.Holds S.sql.toChanges G := by
  unfold applyChangesetBatch
  dsimp only
  split
  · exact hdb
  · split
    · exact hdb
    · split
      · exact hdb
      · rename_i hfirst
        cases hcontents : S.sql.applyAll db.version.contents b.changes with
        | none => exact hdb
        | some contents =>
            have hstart : b.firstSeq - 1 = db.replSeq := by omega
            have hversion : db.version = G db.replSeq := hdb
            have hleads : Leads S.sql.toChanges db.version (G b.lastSeq) b.changes := by
              rw [hversion, ← hstart]
              exact hb
            exact hleads.unique hcontents rfl

theorem leads_of_jobs {jobs : List (Job κ)} {first : Job κ}
    (hjobs : ∀ j ∈ first :: jobs, j.item.Holds S.sql.toChanges G)
    (hnumbers : consecutive ((first :: jobs).map Job.seq) = true) :
    Leads S.sql.toChanges (G (first.seq - 1))
      (G ((first :: jobs).getLast (by simp)).seq) ((first :: jobs).map Job.change) := by
  induction jobs generalizing first with
  | nil => exact hjobs first (by simp)
  | cons second rest ih =>
      obtain ⟨hnext, hrest⟩ : second.seq = first.seq + 1 ∧
          consecutive ((second :: rest).map Job.seq) = true := by
        simpa [consecutive] using hnumbers
      have hfirst : Leads S.sql.toChanges (G (first.seq - 1)) (G first.seq)
          [first.change] := hjobs first (by simp)
      have htail := ih (fun j hj => hjobs j (List.mem_cons_of_mem _ hj)) hrest
      rw [hnext, Nat.add_sub_cancel] at htail
      simpa using hfirst.trans htail

theorem pushBatch_agrees {count : Nat} {r' : Replica δ κ}
    (hr : r.All fun item => item.Holds S.sql.toChanges G)
    (hnumbers : consecutive ((r.queue.take count).map Job.seq) = true)
    (h : pushBatch me r count = some (r', b)) :
    (r'.All fun item => item.Holds S.sql.toChanges G) ∧
      b.item.Holds S.sql.toChanges G := by
  unfold pushBatch at h
  split at h
  · cases h
  · rename_i job jobs htake
    obtain ⟨rfl, rfl⟩ := Prod.mk.inj (Option.some.inj h)
    have hmem : ∀ j ∈ job :: jobs, j ∈ r.queue := fun j hj =>
      List.mem_of_mem_take (htake ▸ hj)
    refine ⟨{ hr with queue := fun j hj => hr.queue j (List.mem_of_mem_drop hj) }, ?_⟩
    rw [htake] at hnumbers
    exact leads_of_jobs (fun j hj => hr.queue j (hmem j hj)) hnumbers

end Apply

section Snapshots

/-- A number taken without a change. -/
theorem bump_agrees (h : Agrees S G s) (hme : me ∈ S.data)
    (habove : s.noneAbove S me = true)
    (hseq : r.db.replSeq = (s.replica me).db.replSeq + 1)
    (hversion : r.db.version = (s.replica me).db.version)
    (hcarried : ∀ item ∈ r.carried, item ∈ (s.replica me).carried ∨
      item = r.db.item) :
    Agrees S (Function.update G ((s.replica me).db.replSeq + 1) (s.replica me).db.version)
      (s.put me r) := by
  have hdb : r.db.item.Holds S.sql.toChanges (Function.update G
      ((s.replica me).db.replSeq + 1) (s.replica me).db.version) := by
    simp [Database.item, Item.Holds, hseq, hversion]
  refine agrees_update h hme (fun _ => Fleet.not_mem_of_noneAbove habove) hdb ?_
  intro item hitem
  rcases hcarried item hitem with hold | rfl
  · exact .inl hold
  · exact .inr hdb

/-- `create` keeps the agreement; without a replicator it takes a fresh number. -/
theorem createSnapshot_agrees (h : Agrees S G s) (hme : me ∈ S.data) {createdUnix : Int}
    (hfresh : (ReplEvent.createSnapshot me createdUnix).freshNumber S s = true) :
    Agrees S (if S.replicates me || (reusable (s.replica me)).isSome then G
        else Function.update G ((s.replica me).db.replSeq + 1) (s.replica me).db.version)
      (s.put me (createSnapshot S me (s.replica me) createdUnix)) := by
  have hdb := createSnapshot_db S me (s.replica me) createdUnix
  split
  · rename_i hkeeps
    have hsame : (createSnapshot S me (s.replica me) createdUnix).db =
        (s.replica me).db := by
      rw [hdb]
      split
      · rfl
      · rename_i hcut
        have hreplicates : S.replicates me = true := by simpa [hcut] using hkeeps
        simp [snapshotSeq, hreplicates]
    have hr := h.replicas me hme
    exact h.put fun _ => createSnapshot_all hr (hsame ▸ hr.db)
  · rename_i hcut
    obtain ⟨hreplicates, hnew⟩ : S.replicates me = false ∧
        (reusable (s.replica me)).isSome = false := by simpa using hcut
    have habove : s.noneAbove S me = true := by
      simpa [ReplEvent.freshNumber, hreplicates, hnew] using hfresh
    rw [hnew] at hdb
    refine bump_agrees h hme habove ?_ ?_ fun _ => createSnapshot_carried
    · rw [hdb]
      simp [snapshotSeq, hreplicates]
    · rw [hdb]
      rfl

/-- `promote` keeps the agreement; without a replicator it takes a fresh number. -/
theorem promoteReplica_agrees (h : Agrees S G s) (hme : me ∈ S.data) (term : Nat)
    (hfresh : (ReplEvent.promote (κ := κ) me term).freshNumber S s = true) :
    Agrees S (if S.replicates me then G
        else Function.update G ((s.replica me).db.replSeq + 1) (s.replica me).db.version)
      (s.put me (promoteReplica S me (s.replica me) term)) := by
  have hr := h.replicas me hme
  split
  · rename_i hreplicates
    have hmode : S.rpoMode me ≠ .snapshot := by simpa [Setup.replicates] using hreplicates
    refine h.put fun _ => { hr with db := ?_ }
    simpa [promoteReplica, hmode, Database.item, Item.Holds] using hr.db
  · rename_i hreplicates
    have hmode : S.rpoMode me = .snapshot := by simpa [Setup.replicates] using hreplicates
    have habove : s.noneAbove S me = true := by
      simpa [ReplEvent.freshNumber, hreplicates] using hfresh
    exact bump_agrees h hme habove (by simp [promoteReplica, hmode]) rfl
      fun _ hitem => .inl hitem

end Snapshots

/-! ## Undoing writes -/

section Rewind

variable {entries newest : List (Nat × κ)} {n target : Nat}

/-- Changesets, newest first, numbered down from `n`. -/
def Descends : Nat → List (Nat × κ) → Prop
  | _, [] => True
  | n, e :: older => e.1 = n ∧ Descends (n - 1) older

theorem Descends.le (h : Descends n newest) : ∀ e ∈ newest, e.1 ≤ n := by
  induction newest generalizing n with
  | nil => simp
  | cons e older ih =>
      intro x hx
      rcases List.mem_cons.mp hx with rfl | hold
      · exact h.1.le
      · exact (ih h.2 x hold).trans (Nat.sub_le n 1)

def entryItem (e : Nat × κ) : Item δ κ := .link (e.1 - 1) e.1 [e.2]

/-- What `undoing` collects: a run of changesets numbered down from the current
number, all above the target. -/
theorem undoing_spec {last : Nat} {inverted : List κ}
    (h : RewindBuffer.undoing S.sql target n entries = some (last, inverted)) :
    ∃ newest, newest <+: entries ∧ Descends n newest ∧ (∀ e ∈ newest, target < e.1) ∧
      inverted = newest.map (fun e => S.sql.invert e.2) ∧
      (newest.length ≤ n → last = n - newest.length) := by
  induction entries generalizing n inverted with
  | nil =>
      obtain ⟨rfl, rfl⟩ : n = last ∧ [] = inverted := by
        simpa [RewindBuffer.undoing] using h
      exact ⟨[], List.nil_prefix, trivial, by simp, rfl, fun _ => rfl⟩
  | cons e older ih =>
      obtain ⟨seq, c⟩ := e
      unfold RewindBuffer.undoing at h
      split at h
      · obtain ⟨rfl, rfl⟩ : n = last ∧ [] = inverted := by simpa using h
        exact ⟨[], List.nil_prefix, trivial, by simp, rfl, fun _ => rfl⟩
      · rename_i habove
        split at h
        · cases h
        · rename_i hexpected
          obtain rfl : seq = n := not_not.mp hexpected
          split at h
          · rename_i last' rest hrest
            obtain ⟨rfl, rfl⟩ : last' = last ∧ _ = inverted := by simpa using h
            obtain ⟨newest, hnewest, hdescends, hall, rfl, hlast⟩ := ih hrest
            refine ⟨(seq, c) :: newest, ?_, ⟨rfl, hdescends⟩, ?_, rfl, ?_⟩
            · exact List.cons_prefix_cons.mpr ⟨rfl, hnewest⟩
            · intro x hx
              rcases List.mem_cons.mp hx with rfl | hold
              · exact Nat.lt_of_not_le habove
              · exact hall x hold
            · intro hlength
              rw [List.length_cons] at hlength ⊢
              rw [hlast (by omega)]
              omega
          · cases h

theorem leads_of_descends (hdescends : Descends n newest) (hlength : newest.length ≤ n)
    (hentries : ∀ e ∈ newest, (entryItem e).Holds S.sql.toChanges G) :
    Leads S.sql.toChanges (G (n - newest.length)) (G n) (newest.reverse.map Prod.snd) := by
  induction newest generalizing n with
  | nil => exact Leads.refl _
  | cons e older ih =>
      rw [List.length_cons] at hlength ⊢
      have holder := ih hdescends.2 (by omega) fun x hx =>
        hentries x (List.mem_cons_of_mem _ hx)
      have hnewest : Leads S.sql.toChanges (G (e.1 - 1)) (G e.1) [e.2] :=
        hentries e (List.mem_cons_self ..)
      rw [hdescends.1] at hnewest
      rw [show n - (older.length + 1) = n - 1 - older.length by omega]
      simpa using holder.trans hnewest

/-- Of the changesets a leader retains, those that lead down from its current
number and are above its watermark agree with the timeline. -/
def Retained (ops : Changes δ κ) (G : Nat → Version δ κ) (r : Replica δ κ) : Prop :=
  r.role = .leader → ∀ newest, newest <+: r.rewind.entries.reverse →
    Descends r.db.replSeq newest → (∀ e ∈ newest, r.lastReplicatedSeq < e.1) →
    ∀ e ∈ newest, (entryItem e).Holds ops G

theorem Descends.length_le (h : Descends n newest) (hall : ∀ e ∈ newest, target < e.1) :
    newest.length ≤ n - target := by
  induction newest generalizing n with
  | nil => simp
  | cons e older ih =>
      have hfirst := hall e (List.mem_cons_self ..)
      have holder := ih h.2 fun x hx => hall x (List.mem_cons_of_mem _ hx)
      rw [h.1] at hfirst
      rw [List.length_cons]
      omega

theorem rewindTo_holds {db : Database δ κ} (hdb : r.db.item.Holds S.sql.toChanges G)
    (hretained : ∀ newest, newest <+: r.rewind.entries.reverse →
      Descends r.db.replSeq newest → (∀ e ∈ newest, r.lastReplicatedSeq < e.1) →
      ∀ e ∈ newest, (entryItem e).Holds S.sql.toChanges G)
    (h : rewindTo S r = some db) : db.item.Holds S.sql.toChanges G := by
  unfold rewindTo at h
  dsimp only at h
  split at h
  · obtain rfl := Option.some.inj h
    exact hdb
  · split at h
    · cases h
    · split at h
      · cases h
      · rename_i last inverted hundoing
        split at h
        · cases h
        · rename_i htarget
          split at h
          · cases h
          · rename_i contents hcontents
            obtain rfl := Option.some.inj h
            obtain ⟨newest, hnewest, hdescends, hall, rfl, hlast⟩ := undoing_spec hundoing
            have hlength := (hdescends.length_le hall).trans (Nat.sub_le _ _)
            have hleads := leads_of_descends hdescends hlength
              (hretained newest hnewest hdescends hall)
            rw [← hlast hlength, not_not.mp htarget] at hleads
            have hversion : r.db.version = G r.db.replSeq := hdb
            rw [← hversion] at hleads
            have hundo : ((newest.reverse.map Prod.snd).reverse.map S.sql.invert) =
                newest.map fun e => S.sql.invert e.2 := by
              rw [← List.map_reverse, List.reverse_reverse, List.map_map]
              rfl
            rw [← hundo] at hcontents
            simpa [Database.item, Item.Holds] using hleads.undo hcontents

theorem demoteReplica_agrees {inTime : Bool}
    (hr : r.All fun item => item.Holds S.sql.toChanges G)
    (hretained : S.replicates me = true → Retained S.sql.toChanges G r) :
    (demoteReplica S me r inTime).All fun item => item.Holds S.sql.toChanges G := by
  unfold demoteReplica
  split
  · exact hr
  · rename_i hleader
    dsimp only
    split
    · split
      · rename_i hundo
        have hreplicates : S.replicates me = true := (Bool.and_eq_true_iff.mp hundo).1
        split
        · rename_i db hdb
          exact { hr with
            db := rewindTo_holds hr.db (hretained hreplicates (not_not.mp hleader)) hdb }
        · exact { hr with }
      · exact { hr with }
    · exact { hr with }

theorem Retained.mono {ops : Changes δ κ} {r' : Replica δ κ} (h : Retained ops G r)
    (hrole : r'.role = .leader → r.role = .leader)
    (hentries : r'.rewind.entries <:+ r.rewind.entries)
    (hseq : r'.db.replSeq = r.db.replSeq)
    (hmark : r.lastReplicatedSeq ≤ r'.lastReplicatedSeq) : Retained ops G r' := by
  intro hleader newest hnewest hdescends habove
  have hnewest' := hnewest.trans (List.reverse_prefix.mpr hentries)
  exact h (hrole hleader) newest hnewest' (hseq ▸ hdescends) fun e he =>
    hmark.trans_lt (habove e he)

theorem Retained.of_standby {ops : Changes δ κ} (h : r.role ≠ .leader) : Retained ops G r :=
  fun hleader => absurd hleader h

theorem Retained.update {ops : Changes δ κ} (h : Retained ops G r) {k : Nat}
    {v : Version δ κ}
    (hk : ∀ e ∈ r.rewind.entries, e.1 ≤ r.db.replSeq → r.lastReplicatedSeq < e.1 →
      k ∉ (entryItem (δ := δ) e).numbers) :
    Retained ops (Function.update G k v) r := by
  intro hleader newest hnewest hdescends habove e he
  have hmem : e ∈ r.rewind.entries := List.mem_reverse.mp (hnewest.subset he)
  exact (h hleader newest hnewest hdescends habove e he).update
    (hk e hmem (hdescends.le e he) (habove e he)) v

theorem entry_not_number {e : Nat × κ} {k : Nat} (hpositive : 0 < e.1) (hk : e.1 ≠ k)
    (hnext : e.1 ≠ k + 1) : k ∉ (entryItem (δ := δ) e).numbers := by
  simp only [entryItem, Item.numbers, List.mem_cons, List.not_mem_nil, or_false]
  omega

theorem evict_suffix (entries : List (Nat × κ)) (bytes : Nat) (floor : Option Nat) :
    (RewindBuffer.evict S.sql entries bytes floor).entries <:+ entries := by
  induction entries generalizing bytes floor with
  | nil => exact List.suffix_refl _
  | cons e rest ih =>
      obtain ⟨seq, c⟩ := e
      unfold RewindBuffer.evict
      split
      · exact (ih _ _).trans (List.suffix_cons _ _)
      · exact List.suffix_refl _

theorem trim_suffix (buf : RewindBuffer κ) (replicated : Nat) :
    (buf.trim S.sql replicated).entries <:+ buf.entries := by
  have hentries : ∀ (entries : List (Nat × κ)) (bytes : Nat),
      (RewindBuffer.trimEntries S.sql replicated entries bytes).1 <:+ entries := by
    intro entries
    induction entries with
    | nil => exact fun _ => List.suffix_refl _
    | cons e rest ih =>
        intro bytes
        obtain ⟨seq, c⟩ := e
        unfold RewindBuffer.trimEntries
        split
        · exact List.suffix_refl _
        · exact (ih _).trans (List.suffix_cons _ _)
  exact hentries buf.entries buf.bytes

/-- A numbered commit adds its changeset on top of the retained ones. -/
theorem commit_retained {c : κ} {contents : δ} (hnumbers : S.numbers me c = true)
    (h : Retained S.sql.toChanges G r)
    (hnew : (entryItem (r.db.replSeq + 1, c)).Holds S.sql.toChanges
      (committed S G me r c contents)) :
    Retained S.sql.toChanges (committed S G me r c contents)
      (commit S me r c contents) := by
  rw [commit_of_numbers hnumbers]
  intro hleader newest hnewest hdescends habove e he
  have hnewest' : newest <+: (r.db.replSeq + 1, c) :: r.rewind.entries.reverse := by
    have hsuffix := List.reverse_prefix.mpr
      (@evict_suffix _ _ S (r.rewind.entries ++ [(r.db.replSeq + 1, c)])
        (r.rewind.bytes + S.sql.bytes c) r.rewind.floor)
    rw [List.reverse_append] at hsuffix
    exact hnewest.trans hsuffix
  cases newest with
  | nil => cases he
  | cons first older =>
      obtain ⟨rfl, holder⟩ := List.cons_prefix_cons.mp hnewest'
      rcases List.mem_cons.mp he with rfl | hold
      · exact hnew
      · have hdescends' : Descends r.db.replSeq older := hdescends.2
        have hholds := h hleader older holder hdescends'
          (fun x hx => habove x (List.mem_cons_of_mem _ hx)) e hold
        unfold committed
        rw [if_pos hnumbers]
        have hle := hdescends'.le e hold
        refine hholds.update ?_ _
        simp only [entryItem, Item.numbers, List.mem_cons, List.not_mem_nil, or_false]
        omega

theorem promoteReplica_retained {term : Nat} (hreplicates : S.replicates me = true) :
    Retained S.sql.toChanges G (promoteReplica S me r term) := by
  have hmode : S.rpoMode me ≠ .snapshot := by simpa [Setup.replicates] using hreplicates
  intro _ newest _ hdescends habove e he
  cases newest with
  | nil => cases he
  | cons first older =>
      have hfirst := habove first (List.mem_cons_self ..)
      rw [hdescends.1] at hfirst
      simp only [promoteReplica, if_neg hmode] at hfirst
      omega

theorem createSnapshot_retained {createdUnix : Int} (hreplicates : S.replicates me = true)
    (h : Retained S.sql.toChanges G r) :
    Retained S.sql.toChanges G (createSnapshot S me r createdUnix) := by
  unfold createSnapshot
  dsimp only
  split
  · exact h.mono (fun hrole => hrole) (List.suffix_refl _) rfl le_rfl
  · refine h.mono (fun hrole => hrole) (List.suffix_refl _) ?_ le_rfl
    simp [snapshotSeq, hreplicates]

/-- A batch that changes a node finds it a standby. -/
theorem changeset_retained {b : Batch κ} (h : Retained S.sql.toChanges G r) :
    Retained S.sql.toChanges G (changeset S r b).1 := by
  unfold changeset
  split
  · exact h
  · rename_i hstandby
    split
    · exact h
    · split
      · exact h
      · dsimp only
        split <;> exact .of_standby hstandby

end Rewind

/-! ## Steps -/

section Steps

variable {s' : Fleet δ κ} {e : ReplEvent κ}

/-- The timeline after a step: a commit and a fresh number extend it. -/
def timelineAfter (S : Setup δ κ) (G : Nat → Version δ κ) (s : Fleet δ κ) :
    ReplEvent κ → Nat → Version δ κ
  | .commit me c =>
      match S.sql.apply (s.replica me).db.version.contents c with
      | some contents => committed S G me (s.replica me) c contents
      | none => G
  | .promote me _ =>
      if S.replicates me then G
      else Function.update G ((s.replica me).db.replSeq + 1) (s.replica me).db.version
  | .createSnapshot me _ =>
      if S.replicates me || (reusable (s.replica me)).isSome then G
      else Function.update G ((s.replica me).db.replSeq + 1) (s.replica me).db.version
  | _ => G

theorem timelineAfter_commit {c : κ} {contents : δ}
    (h : S.sql.apply (s.replica me).db.version.contents c = some contents) :
    timelineAfter S G s (.commit me c) = committed S G me (s.replica me) c contents := by
  simp only [timelineAfter, h]

/-- Every leader that ships changesets may undo what it retains. -/
def AllRetained (S : Setup δ κ) (G : Nat → Version δ κ) (s : Fleet δ κ) : Prop :=
  ∀ id ∈ S.data, S.replicates id = true → Retained S.sql.toChanges G (s.replica id)

/-- A new version of a number above every other database. -/
theorem Retained.fresh_number {id : NodeId} {v : Version δ κ}
    (h : Retained S.sql.toChanges G (s.replica id)) (hid : id ∈ S.data) (hne : id ≠ me)
    (habove : s.noneAbove S me = true) :
    Retained S.sql.toChanges (Function.update G ((s.replica me).db.replSeq + 1) v)
      (s.replica id) := by
  have hle : (s.replica id).db.replSeq ≤ (s.replica me).db.replSeq := by
    simpa [Database.item, Item.numbers] using
      List.all_eq_true.mp habove _ (Fleet.db_elsewhere hid hne)
  refine h.update fun e _ hseq _ => ?_
  simp only [entryItem, Item.numbers, List.mem_cons, List.not_mem_nil, or_false]
  omega

/-- A new version of a number no retained changeset leads into or out of. -/
theorem Retained.own_number {id : NodeId} {c : κ}
    (h : Retained S.sql.toChanges G (s.replica id)) (v : Version δ κ) (hid : id ∈ S.data)
    (hnumbers : S.numbers me c = false)
    (hkeeps : (ReplEvent.commit me c).keepsRewind S s = true) :
    Retained S.sql.toChanges (Function.update G (s.replica me).db.replSeq v)
      (s.replica id) := by
  refine h.update fun e he _ hmark => ?_
  simp only [ReplEvent.keepsRewind, hnumbers, Bool.false_or] at hkeeps
  have hentry := List.all_eq_true.mp (List.all_eq_true.mp hkeeps id hid) e he
  obtain ⟨hk, hnext⟩ : e.1 ≠ (s.replica me).db.replSeq ∧
      e.1 ≠ (s.replica me).db.replSeq + 1 := by
    simpa [Nat.not_le.mpr hmark] using hentry
  exact entry_not_number (by omega) hk hnext

/-- The new timeline still agrees with what the other nodes retain. -/
theorem timelineAfter_retained (h : AllRetained S G s)
    (hfresh : e.freshNumber S s = true) (hkeeps : e.keepsRewind S s = true) {id : NodeId}
    (hid : id ∈ S.data) (hreplicates : S.replicates id = true) (hne : id ≠ e.node) :
    Retained S.sql.toChanges (timelineAfter S G s e) (s.replica id) := by
  have hold := h id hid hreplicates
  cases e with
  | commit me c =>
      simp only [timelineAfter]
      split
      · unfold committed
        split
        · rename_i hnumbers
          have habove : s.noneAbove S me = true := by
            simpa [ReplEvent.freshNumber, hnumbers] using hfresh
          exact hold.fresh_number hid hne habove
        · rename_i hnumbers
          exact hold.own_number _ hid (by simpa using hnumbers) hkeeps
      · exact hold
  | promote me term =>
      simp only [timelineAfter]
      split
      · exact hold
      · rename_i hmode
        have habove : s.noneAbove S me = true := by
          simpa [ReplEvent.freshNumber, hmode] using hfresh
        exact hold.fresh_number hid hne habove
  | createSnapshot me createdUnix =>
      simp only [timelineAfter]
      split
      · exact hold
      · rename_i hcut
        have habove : s.noneAbove S me = true := by
          rw [ReplEvent.freshNumber, Bool.or_eq_true] at hfresh
          exact hfresh.resolve_left hcut
        exact hold.fresh_number hid hne habove
  | _ => exact hold

theorem AllRetained.put (h : AllRetained S G s)
    (hr : me ∈ S.data → S.replicates me = true → Retained S.sql.toChanges G r) :
    AllRetained S G (s.put me r) := by
  intro id hid hreplicates
  by_cases hme : id = me
  · subst hme
    rw [Fleet.replica_put_self]
    exact hr hid hreplicates
  · rw [Fleet.replica_put_ne hme]
    exact h id hid hreplicates

theorem AllRetained.answer (h : AllRetained S G s) {b : Batch κ} {peer : NodeId}
    (outcome : ApplyOutcome) : AllRetained S G (s.answer b peer outcome) := by
  cases outcome with
  | applied seq => exact h
  | duplicate => exact h
  | rejected appliedSeq why =>
      exact h.put fun hsender hreplicates => (h b.sender hsender hreplicates).mono
        (fun hrole => hrole) (List.suffix_refl _) rfl le_rfl

variable [DecidableEq κ]

/-- A step of one node keeps the agreement. -/
theorem replicaStep_agrees (h : Agrees S G s) (hme : e.node ∈ S.data) {r : Replica δ κ}
    (hstep : replicaStep S s e.node (s.replica e.node) e = some r)
    (hfresh : e.freshNumber S s = true) (hown : e.ownNumber S s = true)
    (hretained : ∀ id inTime, e = .demote id inTime → S.replicates id = true →
      Retained S.sql.toChanges G (s.replica id)) :
    Agrees S (timelineAfter S G s e) (s.put e.node r) := by
  have hr := h.replicas e.node hme
  have hsame : e.quiet = true → Agrees S G (s.put e.node r) := fun hquiet =>
    h.put fun _ => replicaStep_quiet h hme hstep hquiet
  cases e with
  | commit me c =>
      obtain ⟨_, hwritten⟩ := Option.ite_none_right_eq_some.mp hstep
      obtain ⟨contents, hcontents, rfl⟩ := Option.map_eq_some_iff.mp hwritten
      simp only [ReplEvent.node] at hcontents ⊢
      rw [timelineAfter_commit hcontents]
      exact commit_agrees h hme hcontents hfresh hown
  | createSnapshot me createdUnix =>
      obtain ⟨_, hcreated⟩ := Option.ite_none_right_eq_some.mp hstep
      obtain rfl := Option.some.inj hcreated
      exact createSnapshot_agrees h hme hfresh
  | promote me term =>
      obtain ⟨_, hpromoted⟩ := Option.ite_none_right_eq_some.mp hstep
      obtain rfl := Option.some.inj hpromoted
      exact promoteReplica_agrees h hme term hfresh
  | demote id inTime =>
      obtain rfl := Option.some.inj hstep
      exact h.put fun _ => demoteReplica_agrees hr (hretained id inTime rfl)
  | _ => exact hsame rfl

theorem step_agrees (h : Agrees S G s) (hstep : ReplStep S s e s')
    (hfresh : e.freshNumber S s = true) (hown : e.ownNumber S s = true)
    (hwhole : e.wholeBatch s = true)
    (hretained : ∀ id inTime, e = .demote id inTime → S.replicates id = true →
      Retained S.sql.toChanges G (s.replica id)) :
    Agrees S (timelineAfter S G s e) s' := by
  obtain ⟨hnode, hcases⟩ := hstep.cases
  obtain ⟨me, count, r, b, rfl, hpush, rfl⟩ | ⟨b, peer, replied, rfl, hsent, rfl⟩ |
    ⟨b, rfl, rfl⟩ | ⟨r, hr, rfl⟩ := hcases
  · obtain ⟨hr, hb⟩ := pushBatch_agrees (h.replicas me hnode) hwhole hpush
    have hput : Agrees S G (s.put me r) := h.put fun _ => hr
    refine ⟨hput.replicas, ?_⟩
    intro b' hb'
    rcases List.mem_cons.mp hb' with rfl | hold
    · exact hb
    · exact hput.batches b' hold
  · have hput : Agrees S G (s.put peer (changeset S (s.replica peer) b).1) :=
      h.put fun hpeer =>
        have hr := h.replicas peer hpeer
        changeset_all hr (applyChangesetBatch_holds hr.db (h.batches b hsent))
    split
    · exact hput.answer _
    · exact hput
  · exact ⟨h.replicas, fun b' hb' => h.batches b' (List.mem_of_mem_erase hb')⟩
  · exact replicaStep_agrees h hnode hr hfresh hown hretained

/-- What the acting node retains agrees with the new timeline. -/
theorem replicaStep_retained (h : AllRetained S G s) (hagrees : Agrees S G s)
    (hme : e.node ∈ S.data) (hreplicates : S.replicates e.node = true) {r : Replica δ κ}
    (hstep : replicaStep S s e.node (s.replica e.node) e = some r)
    (hkeeps : e.keepsRewind S s = true) :
    Retained S.sql.toChanges (timelineAfter S G s e) r := by
  have hold := h e.node hme hreplicates
  cases e with
  | push id count => cases hstep
  | deliver b peer replied => cases hstep
  | drop b => cases hstep
  | commit me c =>
      obtain ⟨_, hwritten⟩ := Option.ite_none_right_eq_some.mp hstep
      obtain ⟨contents, hcontents, rfl⟩ := Option.map_eq_some_iff.mp hwritten
      simp only [ReplEvent.node] at hcontents hold ⊢
      rw [timelineAfter_commit hcontents]
      cases hnumbers : S.numbers me c with
      | true =>
          exact commit_retained hnumbers hold
            (committed_leads hnumbers (hagrees.replicas me hme).db hcontents)
      | false =>
          have hkept := hold.own_number ⟨contents,
            (s.replica me).db.version.history ++ [c]⟩ hme hnumbers hkeeps
          obtain ⟨request, hcommit⟩ :=
            commit_of_not_numbers (s.replica me) contents hnumbers
          rw [hcommit]
          unfold committed
          rw [hnumbers]
          exact hkept.mono id (List.suffix_refl _) rfl le_rfl
  | replicated id b awaited =>
      obtain ⟨_, hnoted⟩ := Option.ite_none_right_eq_some.mp hstep
      obtain rfl := Option.some.inj hnoted
      exact hold.mono (fun hrole => hrole) (trim_suffix _ _) rfl (le_max_left ..)
  | missed id =>
      obtain rfl := Option.some.inj hstep
      exact hold.mono (fun hrole => hrole) (List.suffix_refl _) rfl le_rfl
  | createSnapshot me createdUnix =>
      obtain ⟨_, hcreated⟩ := Option.ite_none_right_eq_some.mp hstep
      obtain rfl := Option.some.inj hcreated
      have hsame : timelineAfter S G s (.createSnapshot me createdUnix) = G := by
        have hmode : S.replicates me = true := hreplicates
        simp [timelineAfter, hmode]
      rw [hsame]
      exact createSnapshot_retained hreplicates hold
  | download id leader =>
      obtain ⟨_, hfound⟩ := Option.ite_none_right_eq_some.mp hstep
      obtain ⟨f, _, rfl⟩ := Option.map_eq_some_iff.mp hfound
      exact hold.mono (fun hrole => hrole) (List.suffix_refl _) rfl le_rfl
  | abandon id =>
      obtain rfl := Option.some.inj hstep
      exact hold.mono (fun hrole => hrole) (List.suffix_refl _) rfl le_rfl
  | install id =>
      obtain ⟨f, _, rfl⟩ := Option.map_eq_some_iff.mp hstep
      have hstandby : (s.replica id).role ≠ .leader := by
        simpa [ReplEvent.keepsRewind] using hkeeps
      exact .of_standby (installSnapshot_role.trans_ne hstandby)
  | restoreBase id =>
      obtain ⟨hcan, hrestored⟩ := Option.ite_none_right_eq_some.mp hstep
      exact .of_standby ((restoreLocalBase_role hrestored).trans_ne hcan.1)
  | promote me term =>
      obtain ⟨_, hpromoted⟩ := Option.ite_none_right_eq_some.mp hstep
      obtain rfl := Option.some.inj hpromoted
      exact promoteReplica_retained hreplicates
  | demote id inTime =>
      obtain rfl := Option.some.inj hstep
      exact .of_standby demoteReplica_role
  | crash id =>
      obtain rfl := Option.some.inj hstep
      exact .of_standby (by simp [restart])

theorem step_retained (h : AllRetained S G s) (hagrees : Agrees S G s)
    (hstep : ReplStep S s e s') (hfresh : e.freshNumber S s = true)
    (hkeeps : e.keepsRewind S s = true) : AllRetained S (timelineAfter S G s e) s' := by
  obtain ⟨hnode, hcases⟩ := hstep.cases
  obtain ⟨me, count, r, b, rfl, hpush, rfl⟩ | ⟨b, peer, replied, rfl, _, rfl⟩ |
    ⟨b, rfl, rfl⟩ | ⟨r, hr, rfl⟩ := hcases
  · refine h.put fun hme hreplicates => ?_
    unfold pushBatch at hpush
    split at hpush
    · cases hpush
    · obtain ⟨rfl, _⟩ := Prod.mk.inj (Option.some.inj hpush)
      exact (h me hme hreplicates).mono (fun hrole => hrole) (List.suffix_refl _) rfl le_rfl
  · have hput : AllRetained S G (s.put peer (changeset S (s.replica peer) b).1) :=
      h.put fun hpeer hreplicates => changeset_retained (h peer hpeer hreplicates)
    split
    · exact hput.answer _
    · exact hput
  · exact h
  · intro id hid hreplicates
    by_cases hme : id = e.node
    · subst hme
      rw [Fleet.replica_put_self]
      exact replicaStep_retained h hagrees hnode hreplicates hr hkeeps
    · rw [Fleet.replica_put_ne hme]
      exact timelineAfter_retained h hfresh hkeeps hid hreplicates hme

end Steps

end Agreement

/-! ## Runs -/

/-- Standbys with one database, and nothing on the network. -/
structure Fleet.Fresh (S : Setup δ κ) (s : Fleet δ κ) (contents : δ) : Prop where
  replicas : ∀ id ∈ S.data, ∃ db : Database δ κ,
    s.replica id = { db := db } ∧ db.version = ⟨contents, []⟩ ∧ db.replSeq = 0
  batches : s.batches = []

/-- No step of the run gives one number to two versions. -/
def ReplEvent.Unclaimed (S : Setup δ κ) (s : Fleet δ κ) (e : ReplEvent κ) : Bool :=
  e.freshNumber S s && e.ownNumber S s && e.wholeBatch s && e.keepsRewind S s

section Runs

variable {S : Setup δ κ} {s s' : Fleet δ κ} {contents : δ}

theorem agrees_of_fresh (h : s.Fresh S contents) :
    Agrees S (fun _ => ⟨contents, []⟩) s ∧ AllRetained S (fun _ => ⟨contents, []⟩) s := by
  refine ⟨⟨?_, by simp [h.batches]⟩, ?_⟩
  · intro id hid
    obtain ⟨db, hdb, hversion, _⟩ := h.replicas id hid
    rw [hdb]
    exact ⟨hversion, by simp, by simp, by simp, by simp⟩
  · intro id hid _
    obtain ⟨db, hdb, _⟩ := h.replicas id hid
    rw [hdb]
    exact .of_standby (by simp)

variable [DecidableEq κ]

theorem consistent_run {es : List (ReplEvent κ)}
    (hrun : Runs (During (ReplStep S) fun s e => e.Unclaimed S s = true) s es s')
    (h : ∃ G, Agrees S G s ∧ AllRetained S G s) :
    ∃ G, Agrees S G s' ∧ AllRetained S G s' := by
  refine Runs.invariant (fun s => ∃ G, Agrees S G s ∧ AllRetained S G s) ?_ hrun h
  rintro s e s' ⟨G, hagrees, hretained⟩ ⟨hstep, hcond⟩
  simp only [ReplEvent.Unclaimed, Bool.and_eq_true] at hcond
  obtain ⟨⟨⟨hfresh, hown⟩, hwhole⟩, hkeeps⟩ := hcond
  refine ⟨timelineAfter S G s e, ?_, step_retained hretained hagrees hstep hfresh hkeeps⟩
  refine step_agrees hagrees hstep hfresh hown hwhole ?_
  rintro id inTime rfl hreplicates
  exact hretained id hstep.cases.1 hreplicates

/-- In every run in which a leader takes a number only while nothing else
carries a larger one, two replicas with one number have applied the same
changesets and hold the same tables. -/
theorem replicas_agree {es : List (ReplEvent κ)} (hfresh : s.Fresh S contents)
    (hrun : Runs (During (ReplStep S) fun s e => e.Unclaimed S s = true) s es s')
    {id id' : NodeId} (hid : id ∈ S.data) (hid' : id' ∈ S.data)
    (hseq : (s'.replica id).db.replSeq = (s'.replica id').db.replSeq) :
    (s'.replica id).db.version.history = (s'.replica id').db.version.history ∧
      (s'.replica id).db.version.contents = (s'.replica id').db.version.contents := by
  obtain ⟨G, hagrees, _⟩ := consistent_run hrun ⟨_, agrees_of_fresh hfresh⟩
  have hleft : (s'.replica id).db.version = G (s'.replica id).db.replSeq :=
    (hagrees.replicas id hid).db
  have hright : (s'.replica id').db.version = G (s'.replica id').db.replSeq :=
    (hagrees.replicas id' hid').db
  have heq : (s'.replica id).db.version = (s'.replica id').db.version := by
    rw [hleft, hright, hseq]
  rw [heq]
  exact ⟨rfl, rfl⟩

end Runs

/-- A table of one row, whose changesets carry the old and the new value. -/
def oneRow : Sqlite Nat (Nat × Nat) where
  apply value c := if value = c.1 then some c.2 else none
  invert c := (c.2, c.1)
  apply_invert := by
    intro x y c h
    obtain ⟨hold, hnew⟩ := Option.ite_none_right_eq_some.mp h
    rw [if_pos (Option.some.inj hnew).symm, hold]
  bytes c := c.1 + c.2

theorem threeNames_nodup : (["a", "b", "c"] ++ ([] : List String)).Nodup := by decide

def threeNodes : Setup Nat (Nat × Nat) where
  clusterId := "prod"
  data := ["a", "b", "c"]
  witnesses := []
  rpoMode := fun _ => .async
  electionTimeoutMs := fun _ => 600
  nodup := threeNames_nodup
  sql := oneRow
  maxChangesetBytes := 100

def emptyFleet : Fleet Nat (Nat × Nat) where
  replica := fun _ => { db := { version := ⟨0, []⟩ } }

theorem emptyFleet_fresh : emptyFleet.Fresh threeNodes 0 :=
  ⟨fun _ _ => ⟨_, rfl, rfl, rfl⟩, rfl⟩

def shipped (sender : NodeId) (epoch seq : Nat) (c : Nat × Nat) : Batch (Nat × Nat) :=
  ⟨sender, epoch, seq, seq, 0, [c]⟩

/-- `a` commits twice, the second time in vain; demoted, it undoes that commit
and takes the one of `b` in its place. -/
def failOver : List (ReplEvent (Nat × Nat)) :=
  [.promote "a" 1, .commit "a" (0, 1), .push "a" 1,
   .deliver (shipped "a" 1 1 (0, 1)) "b" true, .deliver (shipped "a" 1 1 (0, 1)) "c" true,
   .replicated "a" (shipped "a" 1 1 (0, 1)) false, .drop (shipped "a" 1 1 (0, 1)),
   .commit "a" (1, 2), .push "a" 1, .drop (shipped "a" 1 2 (1, 2)), .demote "a" true,
   .promote "b" 2, .commit "b" (1, 5), .push "b" 1,
   .deliver (shipped "b" 2 2 (1, 5)) "a" true]

theorem replicas_agree_failOver : ∃ s : Fleet Nat (Nat × Nat),
    (s.replica "a").db.replSeq = 2 ∧ (s.replica "b").db.replSeq = 2 ∧
      (s.replica "a").db.version.history = (s.replica "b").db.version.history := by
  have hsome : (failOver.foldlM (fun s e => if ReplEvent.Unclaimed threeNodes s e then
      replStep threeNodes s e else none) emptyFleet).isSome = true := by decide
  obtain ⟨s, hs⟩ := Option.isSome_iff_exists.mp hsome
  have hseqs : (failOver.foldlM (fun s e => if ReplEvent.Unclaimed threeNodes s e then
      replStep threeNodes s e else none) emptyFleet).map (fun s =>
        ((s.replica "a").db.replSeq, (s.replica "b").db.replSeq)) = some (2, 2) := by decide
  rw [hs] at hseqs
  obtain ⟨ha, hb⟩ := Prod.mk.inj (Option.some.inj hseqs)
  exact ⟨s, ha, hb, (replicas_agree emptyFleet_fresh (Runs.foldlM hs) (by decide)
    (by decide) (ha.trans hb.symm)).1⟩

/-- `a` dies with a commit it did not ship and comes back with it; `b` is
promoted and gives the same number to another commit, which `a` acknowledges as
a duplicate. -/
def restartWithTail : List (ReplEvent (Nat × Nat)) :=
  [.promote "a" 1, .commit "a" (0, 1), .crash "a", .promote "b" 2, .commit "b" (0, 7),
   .push "b" 1, .deliver (shipped "b" 2 1 (0, 7)) "a" true]

theorem replicas_diverge : ¬ ∀ (S : Setup Nat (Nat × Nat)) (s s' : Fleet Nat (Nat × Nat))
    (contents : Nat) (es : List (ReplEvent (Nat × Nat))), s.Fresh S contents →
    Runs (ReplStep S) s es s' → ∀ id ∈ S.data, ∀ id' ∈ S.data,
    (s'.replica id).db.replSeq = (s'.replica id').db.replSeq →
    (s'.replica id).db.version.history = (s'.replica id').db.version.history := by
  intro h
  have hsome : (restartWithTail.foldlM (fun s e => if true then
      replStep threeNodes s e else none) emptyFleet).isSome = true := by decide
  obtain ⟨s, hs⟩ := Option.isSome_iff_exists.mp hsome
  have hdbs : (restartWithTail.foldlM (fun s e => if true then
      replStep threeNodes s e else none) emptyFleet).map (fun s =>
        ((s.replica "a").db.replSeq, (s.replica "b").db.replSeq,
          (s.replica "a").db.version.history, (s.replica "b").db.version.history)) =
      some (1, 1, [(0, 1)], [(0, 7)]) := by decide
  rw [hs] at hdbs
  have hboth := Option.some.inj hdbs
  simp only [Prod.mk.injEq] at hboth
  obtain ⟨ha, hb, hhistory, hhistory'⟩ := hboth
  have hsame := h threeNodes emptyFleet s 0 restartWithTail emptyFleet_fresh
    ((Runs.foldlM hs).mono And.left) "a" (by decide) "b" (by decide) (ha.trans hb.symm)
  rw [hhistory, hhistory'] at hsame
  exact absurd hsame (by decide)

end AgentGrid.Ha
