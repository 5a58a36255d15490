import AgentGrid.Foundation.Streaks
import AgentGrid.Workflow.Handoffs

/-!
# The kept streak is the replayed one

Both count the last pair of the messages as a streak, and the longest one with
it.  They come apart only where 32 bits cannot hold the count.
-/

namespace AgentGrid.Workflow

open AgentGrid.Foundation

/-! ## What the columns are for -/

def idealColumns (handoffs : List (String × String)) : StreakColumns :=
  let streak := streakOf Direct handoffs
  ⟨streak.current, streak.longest, streak.last.map Prod.fst, streak.last.map Prod.snd⟩

theorem direct_exists : Direct ("", "") := by
  rw [Direct]
  decide

theorem advance_ideal (handoffs : List (String × String)) (sender receiver : String) :
    (idealColumns handoffs).advance sender receiver =
      idealColumns (handoffs ++ [(sender, receiver)]) := by
  have hle := current_le Direct handoffs
  simp only [idealColumns, streakOf_concat]
  generalize streakOf Direct handoffs = streak at hle
  by_cases hbroadcast : receiver = "*"
  · have hnot : ¬ Direct (sender, receiver) := not_not.mpr hbroadcast
    simp only [StreakColumns.advance, Streak.next, if_pos hbroadcast, if_neg hnot, Option.map_some,
      max_eq_left hle, Nat.max_zero]
  · have hdirect : Direct (sender, receiver) := hbroadcast
    have hagain : (streak.last.map Prod.snd ≠ none ∧ streak.last.map Prod.snd ≠ some "*" ∧
        streak.last.map Prod.fst = some sender ∧ streak.last.map Prod.snd = some receiver) ↔
        streak.last = some (sender, receiver) := by
      rcases streak.last with - | ⟨before, target⟩
      · simp
      · simp only [Option.map_some, Option.some.injEq, Prod.mk.injEq, ne_eq, reduceCtorEq,
          not_false_eq_true, true_and]
        refine ⟨fun h => h.2, fun h => ⟨fun heq => hbroadcast (h.2 ▸ heq), h⟩⟩
    simp only [StreakColumns.advance, Streak.next, if_neg hbroadcast, if_pos hdirect, hagain,
      Option.map_some]

/-! ## The replay counts the same below 2^32 -/

def pairOf (m : MessageRow) : String × String := (m.fromStepId, m.toStepId)

theorem toNat_max (a b : UInt32) : (max a b).toNat = max a.toNat b.toNat := by
  change (if a ≤ b then b else a).toNat = _
  split
  · rename_i hle
    rw [max_eq_right (UInt32.le_iff_toNat_le.mp hle)]
  · rename_i hle
    have hlt := not_le.mp (mt UInt32.le_iff_toNat_le.mpr hle)
    rw [max_eq_left hlt.le]

/-- No pair was handed over so often in a row that 32 bits cannot count it. -/
def Counted (handoffs : List (String × String)) : Prop := ¬ Repeats Direct handoffs (2 ^ 32)

theorem counted_iff {handoffs : List (String × String)} :
    Counted handoffs ↔ (streakOf Direct handoffs).longest < 2 ^ 32 := by
  rw [Counted, repeats_iff Direct direct_exists, not_le]

theorem Counted.init {handoffs : List (String × String)} {handoff : String × String}
    (h : Counted (handoffs ++ [handoff])) : Counted handoffs := by
  rw [counted_iff, streakOf_concat] at h
  exact counted_iff.mpr ((le_max_left _ _).trans_lt h)

structure HandoffReplay.Counts (r : HandoffReplay) (streak : Streak (String × String)) : Prop where
  cur : r.cur.toNat = streak.current
  longest : r.longest.toNat = streak.longest
  last : r.last = (streak.last.map Prod.fst, streak.last.map Prod.snd)
  tail : (r.tailFrom, r.tailTo) = r.last
  live : ∀ handoff, streak.last = some handoff → Direct handoff → 0 < streak.current

theorem HandoffReplay.Counts.next {r : HandoffReplay} {streak : Streak (String × String)}
    (h : r.Counts streak) {m : MessageRow}
    (hfits : (streak.next Direct (pairOf m)).longest < 2 ^ 32) :
    (r.next m).Counts (streak.next Direct (pairOf m)) := by
  by_cases hbroadcast : m.toStepId = "*"
  · have hnot : ¬ Direct (pairOf m) := not_not.mpr hbroadcast
    simp only [HandoffReplay.next, Streak.next, if_pos (congrArg some hbroadcast), if_neg hnot]
    refine ⟨rfl, h.longest.trans (Nat.max_zero _).symm, rfl, rfl, ?_⟩
    rintro handoff ⟨⟩ hdirect
    exact absurd hdirect hnot
  · have hdirect : Direct (pairOf m) := hbroadcast
    have hother : some m.toStepId ≠ some "*" := fun heq => hbroadcast (Option.some.inj heq)
    have hagain : (r.last = (some m.fromStepId, some m.toStepId) ∧ r.cur > 0) ↔
        streak.last = some (pairOf m) := by
      rw [h.last]
      constructor
      · rintro ⟨heq, -⟩
        rcases hlast : streak.last with - | ⟨before, target⟩
        · rw [hlast] at heq
          cases heq
        · rw [hlast] at heq
          cases heq
          rfl
      · intro heq
        refine ⟨by rw [heq]; rfl, UInt32.lt_iff_toNat_lt.mpr ?_⟩
        rw [h.cur]
        exact h.live _ heq hdirect
    have hcur : (if r.last = (some m.fromStepId, some m.toStepId) ∧ r.cur > 0 then r.cur + 1
        else 1).toNat = if streak.last = some (pairOf m) then streak.current + 1 else 1 := by
      by_cases hlast : streak.last = some (pairOf m)
      · rw [if_pos (hagain.mpr hlast), if_pos hlast, UInt32.toNat_add, h.cur]
        refine Nat.mod_eq_of_lt ?_
        simp only [Streak.next, if_pos hdirect, if_pos hlast] at hfits
        exact (le_max_right _ _).trans_lt hfits
      · rw [if_neg (mt hagain.mp hlast), if_neg hlast]
        rfl
    simp only [HandoffReplay.next, Streak.next, if_neg hother, if_pos hdirect]
    refine ⟨hcur, ?_, rfl, rfl, fun _ _ _ => ?_⟩
    · dsimp only
      rw [toNat_max, hcur, h.longest]
    · dsimp only
      split
      · exact Nat.succ_pos _
      · exact Nat.one_pos

theorem replay_counts {rows : List MessageRow} (h : Counted (rows.map pairOf)) :
    (replayHandoffs rows).Counts (streakOf Direct (rows.map pairOf)) := by
  induction rows using List.reverseRecOn with
  | nil => exact ⟨rfl, rfl, rfl, rfl, nofun⟩
  | append_singleton rows m ih =>
      rw [List.map_append, List.map_singleton] at h ⊢
      have hfits := counted_iff.mp h
      rw [streakOf_concat] at hfits ⊢
      rw [replayHandoffs, List.foldl_concat]
      exact (ih h.init).next hfits

theorem replay_ideal {rows : List MessageRow} (h : Counted (rows.map pairOf)) :
    (replayHandoffs rows).columns = idealColumns (rows.map pairOf) := by
  have hcounts := replay_counts h
  obtain ⟨hfrom, hto⟩ := Prod.mk.inj (hcounts.tail.trans hcounts.last)
  rw [HandoffReplay.columns, idealColumns, hcounts.cur, hcounts.longest, hfrom, hto]

/-- The replay never counts beyond the messages there are. -/
theorem replay_within (rows : List MessageRow) :
    (replayHandoffs rows).cur.toNat ≤ rows.length ∧
      (replayHandoffs rows).longest.toNat ≤ rows.length := by
  induction rows using List.reverseRecOn with
  | nil => exact ⟨Nat.le_refl _, Nat.le_refl _⟩
  | append_singleton rows m ih =>
      obtain ⟨hcur, hlongest⟩ := ih
      rw [replayHandoffs, List.foldl_concat, ← replayHandoffs, List.length_append,
        List.length_singleton]
      generalize replayHandoffs rows = r at *
      simp only [HandoffReplay.next]
      split
      · exact ⟨Nat.zero_le _, hlongest.trans (Nat.le_succ _)⟩
      · have hnow : (if r.last = (some m.fromStepId, some m.toStepId) ∧ r.cur > 0 then r.cur + 1
            else 1).toNat ≤ rows.length + 1 := by
          split
          · rw [UInt32.toNat_add]
            exact (Nat.mod_le _ _).trans (Nat.succ_le_succ hcur)
          · exact Nat.succ_le_succ (Nat.zero_le _)
        refine ⟨hnow, ?_⟩
        dsimp only
        rw [toNat_max]
        exact max_le (by omega) hnow

theorem advance_within {c : StreakColumns} {sender receiver : String} {n : Nat}
    (h : c.handoffStreak ≤ n ∧ c.handoffStreakMax ≤ n) :
    (c.advance sender receiver).handoffStreak ≤ n + 1 ∧
      (c.advance sender receiver).handoffStreakMax ≤ n + 1 := by
  simp only [StreakColumns.advance]
  split
  · exact ⟨Nat.zero_le _, max_le (by omega) (by omega)⟩
  · split
    · exact ⟨by omega, max_le (by omega) (by omega)⟩
    · exact ⟨by omega, max_le (by omega) (by omega)⟩

/-! ## What an operation does to one run -/

section Runs

variable {db : Mailbox} {runId : String}

/-- The messages of a run in the order of the table. -/
def Mailbox.mine (db : Mailbox) (runId : String) : List MessageRow :=
  db.messages.filter fun m => m.runId = runId

/-- What an operation leaves of a run. -/
inductive Turn (db db' : Mailbox) (runId : String) : Prop
  | idle (row : db'.runs runId = db.runs runId) (mine : db'.mine runId = db.mine runId)
  | opened (before : db.runs runId = none) (row : db'.runs runId = some {})
      (mine : db'.mine runId = db.mine runId)
  | marked (before row : MailboxRow) (was : db.runs runId = some before)
      (is : db'.runs runId = some row) (sequence : row.messageSequence = before.messageSequence)
      (streak : row.streak = before.streak ∨ row.streak = db.replayed runId)
      (mine : db'.mine runId = db.mine runId)
  | received (before : MailboxRow) (m : MessageRow) (was : db.runs runId = some before)
      (is : db'.runs runId = some { before with
        messageSequence := m.sequence, streak := before.streak.advance m.fromStepId m.toStepId })
      (sequence : m.sequence = before.messageSequence + 1) (fits : m.sequence < 2 ^ 63)
      (mine : db'.mine runId = db.mine runId ++ [m])

theorem mine_concat {m : MessageRow} {runs : String → Option MailboxRow} :
    Mailbox.mine ⟨runs, db.messages ++ [m]⟩ runId =
      if m.runId = runId then db.mine runId ++ [m] else db.mine runId := by
  rw [Mailbox.mine, List.filter_append, List.filter_singleton]
  split
  · rename_i heq
    rw [decide_eq_true heq]
    rfl
  · rename_i hne
    rw [decide_eq_false hne]
    exact List.append_nil _

theorem turn_emit (m : Emission) {db' : Mailbox} (h : emitWorkflowMessage m db = some db') :
    Turn db db' runId := by
  unfold emitWorkflowMessage at h
  cases hrow : db.runs m.runId with
  | none =>
      rw [hrow] at h
      cases h
  | some row =>
      rw [hrow] at h
      dsimp only at h
      split at h
      · cases h
      · rename_i hguard
        cases h
        by_cases hmine : m.runId = runId
        · subst hmine
          refine .received row ⟨m.id, m.runId, m.fromStepId, m.toStepId, m.kind, m.payload,
            row.messageSequence + 1, m.now⟩ hrow (Function.update_self ..) rfl ?_ ?_
          · exact not_le.mp fun hle => hguard (.inl hle)
          · rw [mine_concat, if_pos rfl]
        · refine .idle (Function.update_of_ne (Ne.symm hmine) ..) ?_
          rw [mine_concat, if_neg hmine]

theorem turn_apply (op : MailboxOp) : Turn db (db.apply op) runId := by
  cases op with
  | createRun created =>
      simp only [Mailbox.apply]
      split
      · rename_i hnone
        by_cases hmine : runId = created
        · subst hmine
          exact .opened hnone (Function.update_self ..) rfl
        · exact .idle (Function.update_of_ne hmine ..) rfl
      · exact .idle rfl rfl
  | setStatus changed status =>
      by_cases hmine : runId = changed
      · subst hmine
        cases hrow : db.runs runId with
        | none =>
            refine .idle ?_ rfl
            simp only [Mailbox.apply, Function.update_self, hrow, Option.map_none]
        | some row =>
            refine .marked row { row with status := status } hrow ?_ rfl (.inl rfl) rfl
            simp only [Mailbox.apply, Function.update_self, hrow, Option.map_some]
      · exact .idle (Function.update_of_ne hmine ..) rfl
  | emit m =>
      simp only [Mailbox.apply]
      cases hemit : emitWorkflowMessage m db with
      | none => exact .idle rfl rfl
      | some db' => exact turn_emit m hemit
  | restart =>
      cases hrow : db.runs runId with
      | none =>
          refine .idle ?_ rfl
          simp only [Mailbox.apply, rebuildHandoffStreaks, hrow, Option.map_none]
      | some row =>
          have his : (db.apply .restart).runs runId = some (if (row.status = .pending ∨
              row.status = .running) ∧ db.stored runId ≠ [] then
              { row with streak := db.replayed runId } else row) := by
            simp only [Mailbox.apply, rebuildHandoffStreaks, hrow, Option.map_some]
          split at his
          · exact .marked row _ hrow his rfl (.inr rfl) rfl
          · exact .marked row _ hrow his rfl (.inl rfl) rfl

/-! ## Over whole runs -/

/-- The row of a run and its messages: they are numbered in order, and the
columns are the streak of the pairs while 32 bits can count it. -/
structure Mailbox.Kept (db : Mailbox) (runId : String) : Prop where
  absent : db.runs runId = none → db.mine runId = []
  length : ∀ row, db.runs runId = some row → (db.mine runId).length = row.messageSequence
  fits : ∀ row, db.runs runId = some row → row.messageSequence < 2 ^ 63
  ascending : (db.mine runId).Pairwise fun a b => a.sequence ≤ b.sequence
  below : ∀ row, db.runs runId = some row → ∀ m ∈ db.mine runId,
    m.sequence ≤ row.messageSequence
  within : ∀ row, db.runs runId = some row → row.streak.handoffStreak ≤ row.messageSequence ∧
    row.streak.handoffStreakMax ≤ row.messageSequence
  streak : Counted ((db.mine runId).map pairOf) → ∀ row, db.runs runId = some row →
    row.streak = idealColumns ((db.mine runId).map pairOf)

theorem Mailbox.Kept.stored (h : db.Kept runId) : db.stored runId = db.mine runId :=
  List.mergeSort_of_pairwise (h.ascending.imp fun hle => decide_eq_true hle)

theorem Mailbox.Kept.handoffs (h : db.Kept runId) :
    db.handoffs runId = (db.mine runId).map pairOf := by
  rw [Mailbox.handoffs, h.stored]
  rfl

theorem Mailbox.Kept.replayed (h : db.Kept runId)
    (hcounted : Counted ((db.mine runId).map pairOf)) :
    db.replayed runId = idealColumns ((db.mine runId).map pairOf) := by
  rw [Mailbox.replayed, h.stored]
  exact replay_ideal hcounted

theorem Turn.kept {db' : Mailbox} (turn : Turn db db' runId) (h : db.Kept runId) :
    db'.Kept runId := by
  cases turn with
  | idle hrow hmine =>
      exact ⟨by rw [hrow, hmine]; exact h.absent, by rw [hrow, hmine]; exact h.length,
        by rw [hrow]; exact h.fits, by rw [hmine]; exact h.ascending,
        by rw [hrow, hmine]; exact h.below, by rw [hrow]; exact h.within,
        by rw [hrow, hmine]; exact h.streak⟩
  | opened hbefore hrow hmine =>
      have hnil : db'.mine runId = [] := hmine.trans (h.absent hbefore)
      refine ⟨fun _ => hnil, ?_, ?_, ?_, ?_, ?_, ?_⟩
      · rintro row hrow'
        cases hrow.symm.trans hrow'
        rw [hnil]
        rfl
      · rintro row hrow'
        cases hrow.symm.trans hrow'
        exact Nat.two_pow_pos 63
      · rw [hnil]
        exact .nil
      · rintro row - m hm
        rw [hnil] at hm
        exact absurd hm List.not_mem_nil
      · rintro row hrow'
        cases hrow.symm.trans hrow'
        exact ⟨Nat.le_refl _, Nat.le_refl _⟩
      · rintro - row hrow'
        cases hrow.symm.trans hrow'
        rw [hnil]
        rfl
  | marked before row hwas his hsequence hstreak hmine =>
      refine ⟨fun hnone => absurd (his.symm.trans hnone) nofun, ?_, ?_, ?_, ?_, ?_, ?_⟩
      · rintro row' hrow'
        cases his.symm.trans hrow'
        rw [hmine, hsequence]
        exact h.length before hwas
      · rintro row' hrow'
        cases his.symm.trans hrow'
        rw [hsequence]
        exact h.fits before hwas
      · rw [hmine]
        exact h.ascending
      · rintro row' hrow'
        cases his.symm.trans hrow'
        rw [hmine, hsequence]
        exact h.below before hwas
      · rintro row' hrow'
        cases his.symm.trans hrow'
        rw [hsequence]
        rcases hstreak with hstreak | hstreak
        · rw [hstreak]
          exact h.within before hwas
        · rw [hstreak, ← h.length before hwas, ← h.stored]
          exact replay_within _
      · rw [hmine]
        rintro hcounted row' hrow'
        cases his.symm.trans hrow'
        rcases hstreak with hstreak | hstreak
        · exact hstreak.trans (h.streak hcounted before hwas)
        · exact hstreak.trans (h.replayed hcounted)
  | received before m hwas his hsequence hfits hmine =>
      refine ⟨fun hnone => absurd (his.symm.trans hnone) nofun, ?_, ?_, ?_, ?_, ?_, ?_⟩
      · rintro row' hrow'
        cases his.symm.trans hrow'
        rw [hmine, List.length_append, h.length before hwas, List.length_singleton]
        exact hsequence.symm
      · rintro row' hrow'
        cases his.symm.trans hrow'
        exact hfits
      · rw [hmine, List.pairwise_append]
        refine ⟨h.ascending, List.pairwise_singleton _ _, fun a ha b hb => ?_⟩
        obtain rfl := List.mem_singleton.mp hb
        have hle := h.below before hwas a ha
        omega
      · rintro row' hrow' a ha
        cases his.symm.trans hrow'
        dsimp only
        rw [hmine, List.mem_append, List.mem_singleton] at ha
        rcases ha with ha | rfl
        · have hle := h.below before hwas a ha
          omega
        · exact Nat.le_refl _
      · rintro row' hrow'
        cases his.symm.trans hrow'
        dsimp only
        rw [hsequence]
        exact advance_within (h.within before hwas)
      · rw [hmine, List.map_append, List.map_singleton]
        rintro hcounted row' hrow'
        cases his.symm.trans hrow'
        dsimp only
        rw [h.streak hcounted.init before hwas]
        exact advance_ideal _ _ _

theorem kept_after (ops : List MailboxOp) (runId : String) : (Mailbox.after ops).Kept runId := by
  induction ops using List.reverseRecOn with
  | nil =>
      have hnone : ∀ row, (Mailbox.after []).runs runId ≠ some row := fun _ => nofun
      exact ⟨fun _ => rfl, fun row hrow => absurd hrow (hnone row),
        fun row hrow => absurd hrow (hnone row), .nil, fun row hrow => absurd hrow (hnone row),
        fun row hrow => absurd hrow (hnone row), fun _ row hrow => absurd hrow (hnone row)⟩
  | append_singleton ops op ih =>
      rw [Mailbox.after, List.foldl_concat]
      exact (turn_apply op).kept ih

/-- The columns are those of the replay, and their maximum is the longest streak. -/
def Mailbox.StreakRight (db : Mailbox) (runId : String) (row : MailboxRow) : Prop :=
  row.streak = db.replayed runId ∧
    IsGreatest {k | ∃ sender receiver, receiver ≠ "*" ∧
      List.replicate k (sender, receiver) <:+: db.handoffs runId} row.streak.handoffStreakMax

theorem repeats_pairs {handoffs : List (String × String)} {k : Nat} :
    (∃ sender receiver, receiver ≠ "*" ∧ List.replicate k (sender, receiver) <:+: handoffs) ↔
      Repeats Direct handoffs k :=
  ⟨fun ⟨sender, receiver, hdirect, hinfix⟩ => ⟨(sender, receiver), hdirect, hinfix⟩,
    fun ⟨handoff, hdirect, hinfix⟩ => ⟨handoff.1, handoff.2, hdirect, hinfix⟩⟩

/-- After any operations: right as long as no pair came 2^32 times in a row, which
the replay cannot count. -/
theorem handoff_streak_iff (ops : List MailboxOp) (runId : String) (row : MailboxRow)
    (hrow : (Mailbox.after ops).runs runId = some row) :
    (Mailbox.after ops).StreakRight runId row ↔
      ¬ ∃ sender receiver, receiver ≠ "*" ∧
        List.replicate (2 ^ 32) (sender, receiver) <:+: (Mailbox.after ops).handoffs runId := by
  have hkept := kept_after ops runId
  rw [repeats_pairs]
  constructor
  · rintro ⟨hreplayed, hgreatest⟩ hrepeats
    have hmax := hgreatest.2 (repeats_pairs.mpr hrepeats)
    rw [hreplayed] at hmax
    exact absurd hmax (not_le.mpr (UInt32.toNat_lt _))
  · intro hcounted
    rw [hkept.handoffs] at hcounted
    have hideal := hkept.streak hcounted row hrow
    refine ⟨hideal.trans (hkept.replayed hcounted).symm, ?_⟩
    have hset : {k | ∃ sender receiver, receiver ≠ "*" ∧
        List.replicate k (sender, receiver) <:+: (Mailbox.after ops).handoffs runId} =
        {k | Repeats Direct ((Mailbox.after ops).handoffs runId) k} :=
      Set.ext fun k => repeats_pairs
    rw [hset, hkept.handoffs, hideal]
    exact longest_isGreatest Direct direct_exists _

/-! ## One pair over and over -/

end Runs

def handover (n : Nat) : MailboxOp :=
  .emit ⟨"run", "build", "review", .output, "", String.ofList (List.replicate n 'm'), ""⟩

/-- A run in which one step hands over to another `n` times. -/
def pingPong (n : Nat) : List MailboxOp := .createRun "run" :: (List.range n).map handover

theorem pingPong_succ (n : Nat) :
    Mailbox.after (pingPong (n + 1)) = (Mailbox.after (pingPong n)).apply (handover n) := by
  rw [pingPong, List.range_succ, List.map_append, List.map_singleton, ← List.cons_append,
    ← pingPong, Mailbox.after, List.foldl_concat, ← Mailbox.after]

theorem pingPong_after {n : Nat} (hn : n < 2 ^ 63) :
    ((Mailbox.after (pingPong n)).runs "run").map MailboxRow.messageSequence = some n ∧
      (∀ m ∈ (Mailbox.after (pingPong n)).messages, m.id.length < n) ∧
      ((Mailbox.after (pingPong n)).mine "run").map pairOf =
        List.replicate n ("build", "review") := by
  induction n with
  | zero => exact ⟨rfl, nofun, rfl⟩
  | succ n ih =>
      obtain ⟨hrow, hids, hmine⟩ := ih (by omega)
      rw [pingPong_succ]
      generalize Mailbox.after (pingPong n) = db at *
      obtain ⟨row, hrun, hsequence⟩ := Option.map_eq_some_iff.mp hrow
      have hfresh : String.ofList (List.replicate n 'm') ∉ db.messages.map MessageRow.id := by
        intro hin
        obtain ⟨m, hm, hid⟩ := List.mem_map.mp hin
        have hlt := hids m hm
        rw [hid, String.length_ofList, List.length_replicate] at hlt
        exact absurd hlt (Nat.lt_irrefl n)
      have hguard : ¬ (2 ^ 63 ≤ row.messageSequence + 1 ∨
          String.ofList (List.replicate n 'm') ∈ db.messages.map MessageRow.id) := by
        rw [hsequence]
        exact not_or.mpr ⟨not_le.mpr hn, hfresh⟩
      simp only [Mailbox.apply, handover, emitWorkflowMessage, hrun, if_neg hguard,
        Option.getD_some]
      refine ⟨?_, fun m hm => ?_, ?_⟩
      · rw [Function.update_self, Option.map_some, hsequence]
      · rcases List.mem_append.mp hm with hm | hm
        · exact (hids m hm).trans (Nat.lt_succ_self n)
        · rw [List.mem_singleton.mp hm, String.length_ofList, List.length_replicate]
          exact Nat.lt_succ_self n
      · rw [mine_concat, if_pos rfl, List.map_append, hmine, List.replicate_succ']
        rfl

/-- After 2^32 handoffs the replay has counted round to zero. -/
theorem replay_wraps :
    ¬ ∀ (ops : List MailboxOp) (runId : String) (row : MailboxRow),
      (Mailbox.after ops).runs runId = some row → (Mailbox.after ops).StreakRight runId row := by
  intro hright
  have hsmall : 2 ^ 32 < 2 ^ 63 := Nat.pow_lt_pow_right (by omega) (by omega)
  obtain ⟨hrow, -, hmine⟩ := pingPong_after hsmall
  obtain ⟨row, hrun, -⟩ := Option.map_eq_some_iff.mp hrow
  obtain ⟨hreplayed, hgreatest⟩ := hright _ "run" row hrun
  have hmax := hgreatest.2 ⟨"build", "review", by decide, by
    rw [(kept_after _ _).handoffs, hmine]⟩
  rw [hreplayed] at hmax
  exact absurd hmax (not_le.mpr (UInt32.toNat_lt _))

/-- Two handoffs, a broadcast and another handoff. -/
def mixed : List MailboxOp :=
  [.createRun "run", .emit ⟨"run", "build", "review", .output, "", "1", ""⟩,
    .emit ⟨"run", "build", "review", .output, "", "2", ""⟩,
    .emit ⟨"run", "build", "*", .output, "", "3", ""⟩,
    .emit ⟨"run", "build", "review", .note, "", "4", ""⟩]

theorem handoff_streak_mixed :
    (Mailbox.after mixed).StreakRight "run"
      ⟨.pending, 4, ⟨1, 2, some "build", some "review"⟩⟩ := by
  refine (handoff_streak_iff mixed "run" _ ?_).mpr ?_
  · rfl
  · rintro ⟨sender, receiver, -, hinfix⟩
    have hlen := hinfix.length_le
    rw [List.length_replicate] at hlen
    have hfour : ((Mailbox.after mixed).handoffs "run").length = 4 := by
      rw [(kept_after _ _).handoffs]
      rfl
    omega

end AgentGrid.Workflow
