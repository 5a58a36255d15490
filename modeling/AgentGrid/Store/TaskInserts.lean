import AgentGrid.Store.TaskRows

/-!
# Two ways to insert a task

The insert of the agent path leaves `github_create` out, so its row is that of
`create_task` with the column's default.  A view that echoes the request is the
stored one unless a value changes on its way through the row.
-/

namespace AgentGrid.Store.TaskRows

open AgentGrid.Foundation

/-- The least value that `as i64` does not keep. -/
def i64Limit : Nat := 9223372036854775808

theorem toInt64_neg_iff (v : UInt64) : v.toInt64 < 0 ↔ i64Limit ≤ v.toNat := by
  rw [Int64.lt_iff_toInt_lt]
  have hv : v.toInt64.toInt = v.toBitVec.toInt := rfl
  have hzero : (0 : Int64).toInt = 0 := rfl
  have hnat : v.toBitVec.toNat = v.toNat := rfl
  have hlt := v.toNat_lt
  rw [hv, hzero, BitVec.toInt_eq_toNat_cond, hnat]
  unfold i64Limit
  split <;> omega

theorem readCeiling_eq_iff (v : UInt64) : readCeiling v.toInt64 = v ↔ v.toNat < i64Limit := by
  by_cases hneg : v.toInt64 < 0
  · have hge := (toInt64_neg_iff v).mp hneg
    rw [readCeiling, if_pos hneg]
    refine ⟨?_, fun hlt => absurd hlt (Nat.not_lt.mpr hge)⟩
    rintro rfl
    exact absurd hge (by decide)
  · rw [readCeiling, if_neg hneg, UInt64.toUInt64_toInt64]
    exact ⟨fun _ => Nat.lt_of_not_le fun hge => hneg ((toInt64_neg_iff v).mpr hge), fun _ => rfl⟩

theorem maxAttempts_kept (n : UInt32) : (Int64.ofNat n.toNat).toUInt64.toUInt32 = n := by
  have hwide : Int64.ofNat n.toNat = n.toUInt64.toInt64 :=
    Int64.toBitVec.inj (BitVec.ofNat_toNat 64 n.toBitVec)
  rw [hwide, UInt64.toUInt64_toInt64, UInt32.toUInt32_toUInt64]

theorem map_eq_self_iff {α : Type} {f : α → α} {o : Option α} :
    o.map f = o ↔ ∀ a ∈ o, f a = a := by
  cases o <;> simp

theorem bind_eq_self_iff {α : Type} {f : α → Option α} {o : Option α} :
    o.bind f = o ↔ ∀ a ∈ o, f a = some a := by
  cases o <;> simp

theorem filter_eq_self_iff {α : Type} {p : α → Bool} {o : Option α} :
    o.filter p = o ↔ ∀ a ∈ o, p a = true := by
  cases o <;> simp [Option.filter]

variable {Override : Type} {codec : Codec Override} {req : Request Override}

/-! ## Rows -/

theorem insertTaskTxRow_eq (id now : String) : insertTaskTxRow codec req id now =
    Function.update (createTaskRow codec req id now) .githubCreate (.int 0) := by
  exact inserted_leaving columnDefault
    (createTaskColumns.zip (createTaskValues codec req id now)) .githubCreate

/-- Both paths store the same but for the id and the time. -/
def SameRow (r r' : Row) : Prop := ∀ c, c ≠ .id → c ≠ .createdAt → r c = r' c

theorem createTaskRow_same (id now id' now' : String) :
    SameRow (createTaskRow codec req id now) (createTaskRow codec req id' now') := by
  intro c hid hcreated
  cases c with
  | id => exact absurd rfl hid
  | createdAt => exact absurd rfl hcreated
  | _ => rfl

theorem rows_iff (id now id' now' : String) :
    SameRow (createTaskRow codec req id now) (insertTaskTxRow codec req id' now') ↔
      req.githubCreate = false := by
  rw [insertTaskTxRow_eq]
  have hflag : createTaskRow codec req id now .githubCreate = .ofBool req.githubCreate := rfl
  constructor
  · intro h
    have hsame := h .githubCreate (by decide) (by decide)
    rw [hflag, Function.update_self] at hsame
    cases hgithub : req.githubCreate with
    | false => rfl
    | true =>
        rw [hgithub] at hsame
        exact absurd hsame (by decide)
  · intro h c hid hcreated
    by_cases hc : c = .githubCreate
    · rw [hc, Function.update_self, hflag, h]
      rfl
    · rw [Function.update_of_ne hc]
      exact createTaskRow_same id now id' now' c hid hcreated

/-! ## Views -/

/-- The values that pass through the row unchanged. -/
structure Kept (codec : Codec Override) (req : Request Override) : Prop where
  opencodeOverride : ∀ o ∈ req.opencodeOverride, codec.ofText (codec.toText o) = some o
  consensusMode : req.consensusMode ≠ some "solve"
  maxTokens : ∀ v ∈ req.maxTokens, v.toNat < i64Limit
  maxCostCents : ∀ v ∈ req.maxCostCents, v.toNat < i64Limit

theorem consensusMode_stored (mode : Option String) :
    (some (mode.getD "solve")).filter (· != "solve") = mode.filter (· != "solve") := by
  cases mode <;> rfl

theorem rowToTaskView_createTaskRow (id now : String) :
    rowToTaskView codec (createTaskRow codec req id now) none =
      { createTaskView req id now with
        opencodeOverride := req.opencodeOverride.bind fun o => codec.ofText (codec.toText o)
        consensusMode := req.consensusMode.filter (· != "solve")
        maxTokens := req.maxTokens.map fun v => readCeiling v.toInt64
        maxCostCents := req.maxCostCents.map fun v => readCeiling v.toInt64 } := by
  have hoverride : (createTaskRow codec req id now .opencodeOverride).asText =
      req.opencodeOverride.map codec.toText := SqlValue.asText_ofText _
  have htokens : (createTaskRow codec req id now .maxTokens).asInt =
      req.maxTokens.map UInt64.toInt64 := SqlValue.asInt_ofInt _
  have hcost : (createTaskRow codec req id now .maxCostCents).asInt =
      req.maxCostCents.map UInt64.toInt64 := SqlValue.asInt_ofInt _
  unfold rowToTaskView createTaskView
  congr 1
  -- the columns that hold the request's own texts
  all_goals try exact SqlValue.asText_ofText _
  · exact consensusMode_stored req.consensusMode
  · rw [hoverride, Option.bind_map]
    rfl
  · exact SqlValue.asInt_ofInt req.githubIssue
  · exact SqlValue.asBool_ofBool req.githubCreate
  · exact maxAttempts_kept req.maxAttempts
  · rw [htokens, Option.map_map]
    rfl
  · rw [hcost, Option.map_map]
    rfl

theorem ceilings_iff {o : Option UInt64} :
    (o.map fun v => readCeiling v.toInt64) = o ↔ ∀ v ∈ o, v.toNat < i64Limit :=
  map_eq_self_iff.trans (forall₂_congr fun v _ => readCeiling_eq_iff v)

theorem mode_iff {mode : Option String} :
    mode.filter (· != "solve") = mode ↔ mode ≠ some "solve" := by
  cases mode <;> simp [Option.filter]

theorem createTaskView_iff (id now : String) :
    rowToTaskView codec (createTaskRow codec req id now) none = createTaskView req id now ↔
      Kept codec req := by
  rw [rowToTaskView_createTaskRow]
  constructor
  · intro h
    exact {
      opencodeOverride := bind_eq_self_iff.mp (congrArg TaskView.opencodeOverride h)
      consensusMode := mode_iff.mp (congrArg TaskView.consensusMode h)
      maxTokens := ceilings_iff.mp (congrArg TaskView.maxTokens h)
      maxCostCents := ceilings_iff.mp (congrArg TaskView.maxCostCents h) }
  · rintro ⟨hoverride, hmode, htokens, hcost⟩
    rw [bind_eq_self_iff.mpr hoverride, mode_iff.mpr hmode, ceilings_iff.mpr htokens,
      ceilings_iff.mpr hcost]
    rfl

/-- What the view of the agent path and its row disagree about besides. -/
theorem rowToTaskView_insertTaskTxRow (id now : String) :
    rowToTaskView codec (insertTaskTxRow codec req id now) none =
      { rowToTaskView codec (createTaskRow codec req id now) none with githubCreate := false } := by
  rw [insertTaskTxRow_eq]
  rfl

theorem rowToTaskView_insertTaskTxRow_of (id now : String) (h : req.githubCreate = false) :
    rowToTaskView codec (insertTaskTxRow codec req id now) none =
      rowToTaskView codec (createTaskRow codec req id now) none := by
  rw [rowToTaskView_insertTaskTxRow, rowToTaskView_createTaskRow]
  simp only [createTaskView, h]

theorem insertTaskTxView_of (id now : String) (hgroup : req.consensusGroupId = none)
    (hmember : req.consensusMember = none) :
    insertTaskTxView req id now = createTaskView req id now := by
  simp only [insertTaskTxView, createTaskView, hgroup, hmember]

theorem insertTaskTxView_iff (id now : String) :
    rowToTaskView codec (insertTaskTxRow codec req id now) none = insertTaskTxView req id now ↔
      Kept codec req ∧ req.githubCreate = false ∧ req.consensusGroupId = none ∧
        req.consensusMember = none := by
  have hrow := @rowToTaskView_insertTaskTxRow _ codec req id now
  constructor
  · intro h
    have hcreate : req.githubCreate = false :=
      (congrArg TaskView.githubCreate (hrow.symm.trans h)).symm
    rw [rowToTaskView_insertTaskTxRow_of id now hcreate, rowToTaskView_createTaskRow] at h
    have hgroup : req.consensusGroupId = none := congrArg TaskView.consensusGroupId h
    have hmember : req.consensusMember = none := congrArg TaskView.consensusMember h
    rw [← rowToTaskView_createTaskRow, insertTaskTxView_of id now hgroup hmember] at h
    exact ⟨(createTaskView_iff id now).mp h, hcreate, hgroup, hmember⟩
  · rintro ⟨hkept, hcreate, hgroup, hmember⟩
    rw [rowToTaskView_insertTaskTxRow_of id now hcreate, insertTaskTxView_of id now hgroup hmember]
    exact (createTaskView_iff id now).mpr hkept

/-! ## The next `show_task` -/

theorem showTask_insert {db : TaskDb} {id : String} (h : db.Fresh id) {r : Row}
    (hid : r .id = .text id) :
    (db.insert r).showTask codec id = some (rowToTaskView codec r none) := by
  have hlookup : lookup (fun r : Row => r .id) (.text id) (db.tasks ++ [r]) = some r := by
    rw [lookup, List.find?_append, List.find?_eq_none.mpr]
    · rw [Option.none_or, List.find?_singleton, if_pos (beq_iff_eq.mpr hid)]
    · intro r' hr'
      rw [beq_iff_eq]
      exact h.tasks r' hr'
  have hnone : (db.insert r).latestProvenance id = none := by
    have hempty : db.attempts.filter (·.taskId == id) = [] := by
      refine List.filter_eq_nil_iff.mpr fun a ha => ?_
      rw [beq_iff_eq]
      exact h.attempts a ha
    unfold TaskDb.latestProvenance TaskDb.insert
    rw [hempty]
    rfl
  rw [TaskDb.showTask, hnone]
  exact congrArg (Option.map fun r => rowToTaskView codec r none) hlookup

theorem insertion_paths_agree_iff {db db' : TaskDb} {id now id' now' : String}
    (h : db.Fresh id) (h' : db'.Fresh id') :
    (SameRow (createTaskRow codec req id now) (insertTaskTxRow codec req id' now') ∧
      (db.insert (createTaskRow codec req id now)).showTask codec id =
        some (createTaskView req id now) ∧
      (db'.insert (insertTaskTxRow codec req id' now')).showTask codec id' =
        some (insertTaskTxView req id' now')) ↔
    Kept codec req ∧ req.githubCreate = false ∧ req.consensusGroupId = none ∧
      req.consensusMember = none := by
  rw [showTask_insert h rfl, showTask_insert h' rfl, Option.some.injEq, Option.some.injEq,
    rows_iff, createTaskView_iff, insertTaskTxView_iff]
  constructor
  · rintro ⟨-, -, hagree⟩
    exact hagree
  · intro hagree
    exact ⟨hagree.2.1, hagree.1, hagree⟩

def bareCodec : Codec Unit where
  toText _ := "\x7b\x7d"
  ofText s := if s = "\x7b\x7d" then some () else none
  profileOf _ := none

def bareTask : Request Unit := { prompt := "fix it", repository := "app", adapter := "claude" }

theorem fresh_empty (id : String) : TaskDb.Fresh {} id := ⟨by nofun, by nofun⟩

/-- A request of an agent for a member of a consensus group that creates its remote. -/
theorem agent_insert_differs :
    let req := { bareTask with
      agentId := some "a1", consensusGroupId := some "g", consensusMember := some "claude",
      githubCreate := true }
    ¬ SameRow (createTaskRow bareCodec req "t1" "now") (insertTaskTxRow bareCodec req "t1" "now") ∧
      (TaskDb.insert {} (insertTaskTxRow bareCodec req "t1" "now")).showTask bareCodec "t1" ≠
        some (insertTaskTxView req "t1" "now") ∧
      (TaskDb.insert {} (createTaskRow bareCodec { req with consensusMode := some "solve" }
        "t1" "now")).showTask bareCodec "t1" ≠
        some (createTaskView { req with consensusMode := some "solve" } "t1" "now") := by
  refine ⟨fun h => ?_, ?_, ?_⟩
  · exact absurd (h .githubCreate (by decide) (by decide)) (by decide)
  · decide +kernel
  · decide +kernel

theorem insertion_paths_agree_bare :
    SameRow (createTaskRow bareCodec bareTask "t1" "now")
      (insertTaskTxRow bareCodec bareTask "t2" "later") :=
  ((@insertion_paths_agree_iff _ bareCodec bareTask _ _ _ "now" _ "later" (fresh_empty "t1")
    (fresh_empty "t2")).mpr ⟨⟨by nofun, by nofun, by nofun, by nofun⟩, rfl, rfl, rfl⟩).1

end AgentGrid.Store.TaskRows
