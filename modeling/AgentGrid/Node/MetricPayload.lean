import AgentGrid.Node.PayloadText

/-!
# Metric payloads

What `push` stores of a metric payload: where the counters are unsigned
numbers, the stored payload counts the increment that `push` adds to the
totals, whichever of the three encodings the payload has.
-/

namespace AgentGrid.Node

section Fields

variable {fields : List (String × Json)} {key key' : String} {value : Json}

theorem get_object_iff (hkeys : (fields.map Prod.fst).Nodup) :
    (Json.object fields).get key = some value ↔ (key, value) ∈ fields := by
  rw [Json.get, Option.map_eq_some_iff]
  constructor
  · rintro ⟨f, hfind, rfl⟩
    obtain rfl : f.1 = key := by simpa using List.find?_some hfind
    exact List.mem_of_find?_eq_some hfind
  · intro hmem
    cases hfind : fields.find? fun f => f.1 == key with
    | none => exact absurd (by simp) (List.find?_eq_none.mp hfind _ hmem)
    | some f =>
        have hname : f.1 = key := by simpa using List.find?_some hfind
        have hsame := List.inj_on_of_nodup_map hkeys (List.mem_of_find?_eq_some hfind) hmem hname
        exact ⟨f, rfl, by rw [hsame]⟩

theorem removeField_perm (hkeys : (fields.map Prod.fst).Nodup) (key : String) :
    (removeField fields key).Perm (fields.filter fun f => f.1 != key) := by
  have hkept : ∀ part : List (String × Json), (∀ f ∈ part, f.1 ≠ key) →
      part.filter (fun f => f.1 != key) = part :=
    fun part hpart => List.filter_eq_self.mpr fun f hf => by simpa using hpart f hf
  rcases List.eq_nil_or_concat fields with rfl | ⟨front, last, rfl⟩
  · exact .nil
  · rw [List.concat_eq_append] at hkeys ⊢
    rw [List.map_append, List.map_singleton, List.nodup_append] at hkeys
    obtain ⟨hfront, -, hlast⟩ := hkeys
    have hlast : ∀ f ∈ front, f.1 ≠ last.1 := fun f hf =>
      hlast f.1 (List.mem_map_of_mem hf) last.1 (List.mem_singleton.mpr rfl)
    have hremove : removeField (front ++ [last]) key =
        if last.1 == key then front
        else if (front ++ [last]).any fun f => f.1 == key then
          front.map fun f => if f.1 == key then last else f
        else front ++ [last] := by
      simp [removeField]
    rw [hremove]
    by_cases hname : last.1 = key
    · rw [if_pos (by simpa using hname), List.filter_append,
        hkept front fun f hf => hname ▸ hlast f hf]
      simp [hname]
    · rw [if_neg (by simpa using hname)]
      by_cases hany : ∃ f ∈ front, f.1 = key
      · obtain ⟨f, hf, hfkey⟩ := hany
        obtain ⟨before, after, rfl⟩ := List.append_of_mem hf
        rw [List.map_append, List.map_cons, List.nodup_append, List.nodup_cons] at hfront
        obtain ⟨-, ⟨hafter, -⟩, hbefore⟩ := hfront
        have hbefore : ∀ g ∈ before, g.1 ≠ key := fun g hg =>
          hfkey ▸ hbefore g.1 (List.mem_map_of_mem hg) f.1 List.mem_cons_self
        have hafter : ∀ g ∈ after, g.1 ≠ key := fun g hg heq =>
          hafter (hfkey ▸ heq ▸ List.mem_map_of_mem hg)
        have hsame : ∀ part : List (String × Json), (∀ g ∈ part, g.1 ≠ key) →
            part.map (fun g => if g.1 == key then last else g) = part := by
          intro part hpart
          conv_rhs => rw [← List.map_id part]
          exact List.map_congr_left fun g hg => by simp [hpart g hg]
        rw [if_pos (by simp [hfkey]), List.map_append, List.map_cons, hsame before hbefore,
          hsame after hafter, List.filter_append, List.filter_append, List.filter_cons,
          hkept before hbefore, hkept after hafter]
        simp only [hfkey, hname, beq_self_eq_true, if_true, bne_self_eq_false, Bool.false_eq_true,
          if_false, bne_iff_ne, ne_eq, not_false_eq_true, List.filter_cons, List.filter_nil,
          List.append_assoc]
        exact List.Perm.append_left before (@List.perm_append_comm _ [last] after)
      · have hnone : ∀ f ∈ front ++ [last], f.1 ≠ key := by
          intro f hf
          rcases List.mem_append.mp hf with hf | hf
          · exact fun heq => hany ⟨f, hf, heq⟩
          · rw [List.mem_singleton.mp hf]
            exact hname
        have hany : ¬ (front ++ [last]).any (fun f => f.1 == key) = true := by
          rw [List.any_eq_true]
          rintro ⟨f, hf, hfkey⟩
          exact hnone f hf (eq_of_beq hfkey)
        rw [if_neg hany, hkept _ hnone]

theorem removeField_keys (hkeys : (fields.map Prod.fst).Nodup) (key : String) :
    ((removeField fields key).map Prod.fst).Nodup :=
  ((removeField_perm hkeys key).map Prod.fst).nodup_iff.mpr
    (hkeys.sublist (List.filter_sublist.map Prod.fst))

theorem get_removeField (hkeys : (fields.map Prod.fst).Nodup) (hne : key ≠ key') :
    (Json.object (removeField fields key')).get key = (Json.object fields).get key := by
  apply Option.ext
  intro value
  rw [get_object_iff (removeField_keys hkeys key'), get_object_iff hkeys,
    (removeField_perm hkeys key').mem_iff, List.mem_filter]
  simp [hne]

theorem get_insertField_self :
    (Json.object (insertField fields key value)).get key = some value := by
  rw [Json.get, insertField]
  cases hany : fields.any fun f => f.1 == key with
  | true =>
      have hfind : ((fields.map fun f => if f.1 == key then (key, value) else f).find?
          fun f => f.1 == key) = some (key, value) := by
        induction fields with
        | nil => cases hany
        | cons f fields ih =>
            by_cases hname : f.1 = key
            · simp [hname]
            · rw [List.any_cons, beq_false_of_ne hname, Bool.false_or] at hany
              rw [List.map_cons, if_neg (by simpa using hname), List.find?_cons,
                beq_false_of_ne hname]
              exact ih hany
      rw [if_pos rfl, hfind]
      rfl
  | false =>
      have hfind : (fields.find? fun f => f.1 == key) = none := by
        simpa using hany
      rw [if_neg (by simp), List.find?_append, hfind]
      simp

theorem get_insertField_of_ne (hne : key ≠ key') :
    (Json.object (insertField fields key' value)).get key = (Json.object fields).get key := by
  rw [Json.get, Json.get, insertField]
  split
  · rename_i hany
    clear hany
    congr 1
    induction fields with
    | nil => rfl
    | cons f fields ih =>
        rw [List.map_cons]
        by_cases hname : f.1 = key'
        · rw [if_pos (by simpa using hname), List.find?_cons, List.find?_cons, hname,
            beq_false_of_ne (Ne.symm hne)]
          exact ih
        · rw [if_neg (by simpa using hname), List.find?_cons, List.find?_cons, ih]
  · rw [List.find?_append]
    simp [Ne.symm hne]

theorem fieldsPrinted_iff :
    fieldsPrinted fields = true ↔ ∀ f ∈ fields, f.2.printed = true := by
  induction fields with
  | nil => simp [fieldsPrinted]
  | cons f fields ih => simp [fieldsPrinted, ih]

theorem removeField_printed (hkeys : (fields.map Prod.fst).Nodup)
    (h : fieldsPrinted fields = true) (key : String) :
    fieldsPrinted (removeField fields key) = true := by
  rw [fieldsPrinted_iff] at h ⊢
  intro f hf
  exact h f (List.mem_of_mem_filter ((removeField_perm hkeys key).mem_iff.mp hf))

theorem insertField_printed (h : fieldsPrinted fields = true) (hvalue : value.printed = true)
    (key : String) : fieldsPrinted (insertField fields key value) = true := by
  rw [fieldsPrinted_iff] at h ⊢
  intro f hf
  rw [insertField] at hf
  split at hf
  · obtain ⟨g, hg, rfl⟩ := List.mem_map.mp hf
    split
    · exact hvalue
    · exact h g hg
  · rcases List.mem_append.mp hf with hf | hf
    · exact h f hf
    · rw [List.mem_singleton.mp hf]
      exact hvalue

end Fields

namespace Json

/-- Under the key there is an unsigned number or nothing. -/
def Counts (payload : Json) (key : String) : Prop :=
  payload.get key = none ∨ ∃ n, payload.get key = some (.unsigned n)

def count (payload : Json) (key : String) : Nat := ((payload.get key).bind asU64).getD 0

/-- A map has a key once. -/
def DistinctKeys : Json → Prop
  | .object fields => (fields.map Prod.fst).Nodup
  | _ => True

/-- A metric payload with unsigned counters. -/
structure Metric (payload : Json) : Prop where
  printed : payload.printed = true
  keys : payload.DistinctKeys
  tokens : payload.Counts "tokens"
  cost : payload.Counts "cost_cents"

/-- A payload that counts so much. -/
structure Bills (payload : Json) (tokens cost : Nat) : Prop where
  printed : payload.printed = true
  tokens : payload.Counts "tokens" ∧ payload.count "tokens" = tokens
  cost : payload.Counts "cost_cents" ∧ payload.count "cost_cents" = cost

theorem Counts.of_get {payload payload' : Json} {key : String}
    (h : payload.Counts key) (hget : payload'.get key = payload.get key) :
    payload'.Counts key ∧ payload'.count key = payload.count key := by
  rw [Counts, count, hget]
  exact ⟨h, rfl⟩

theorem counts_of_unsigned {payload : Json} {key : String} {n : Nat}
    (h : payload.get key = some (.unsigned n)) : payload.Counts key ∧ payload.count key = n :=
  ⟨.inr ⟨n, h⟩, by rw [count, h]; rfl⟩

end Json

/-- The last two steps of `delta_payload`. -/
def setCost (fields : List (String × Json)) (cost : Nat) : List (String × Json) :=
  let fields :=
    match (Json.object fields).get "cost_cents" with
    | some raw => insertField fields "cost_cumulative_cents" raw
    | none => fields
  insertField fields "cost_cents" (.unsigned cost)

theorem get_setCost {fields : List (String × Json)} {cost : Nat} {key : String}
    (hcost : key ≠ "cost_cents") (hcumulative : key ≠ "cost_cumulative_cents") :
    (Json.object (setCost fields cost)).get key = (Json.object fields).get key := by
  rw [setCost, get_insertField_of_ne hcost]
  cases hraw : (Json.object fields).get "cost_cents" with
  | none => rfl
  | some raw => exact get_insertField_of_ne hcumulative

theorem setCost_printed {fields : List (String × Json)} (h : fieldsPrinted fields = true)
    (cost : Nat) : fieldsPrinted (setCost fields cost) = true := by
  apply insertField_printed _ rfl
  cases hraw : (Json.object fields).get "cost_cents" with
  | none => exact h
  | some raw =>
      obtain ⟨f, hfind, rfl⟩ := Option.map_eq_some_iff.mp hraw
      exact insertField_printed h
        (fieldsPrinted_iff.mp h f (List.mem_of_find?_eq_some hfind)) _

/-- The stored payload counts the increment. -/
theorem deltaPayload_bills (usage : Usage) {payload : Json} (h : payload.Metric) :
    (deltaPayload payload (metricDelta usage payload).2.1 (metricDelta usage payload).2.2).Bills
      (metricDelta usage payload).2.1 (metricDelta usage payload).2.2 := by
  generalize htokens : (metricDelta usage payload).2.1 = tokens
  generalize hcost : (metricDelta usage payload).2.2 = cost
  have htokens' : tokens = if (payload.get "tokens_gauge").bind Json.asBool = some true then
      payload.count "tokens" - usage.lastGaugeTokens else payload.count "tokens" := htokens.symm
  have hcost' : cost = if (payload.get "cost_cumulative").bind Json.asBool = some true then
      payload.count "cost_cents" - usage.lastCumulativeCostCents
      else payload.count "cost_cents" := hcost.symm
  clear htokens hcost
  by_cases hobject : ∃ fields, payload = .object fields
  · obtain ⟨fields, rfl⟩ := hobject
    have hkeys : (fields.map Prod.fst).Nodup := h.keys
    have hkeys1 := removeField_keys hkeys "tokens_gauge"
    have hprinted2 := removeField_printed hkeys1
      (removeField_printed hkeys h.printed "tokens_gauge") "cost_cumulative"
    have hget2 : ∀ key, key ≠ "tokens_gauge" → key ≠ "cost_cumulative" →
        (Json.object (removeField (removeField fields "tokens_gauge") "cost_cumulative")).get key =
          (Json.object fields).get key := fun key hgauge hcumulative =>
      (get_removeField hkeys1 hcumulative).trans (get_removeField hkeys hgauge)
    have hcumulative : (Json.object (removeField fields "tokens_gauge")).get "cost_cumulative" =
        (Json.object fields).get "cost_cumulative" := get_removeField hkeys (by decide)
    have hstored : deltaPayload (.object fields) tokens cost =
        let stored := removeField (removeField fields "tokens_gauge") "cost_cumulative"
        let stored := if ((Json.object fields).get "tokens_gauge").bind Json.asBool = some true then
          insertField stored "tokens" (.unsigned tokens) else stored
        .object (if ((Json.object fields).get "cost_cumulative").bind Json.asBool = some true then
          setCost stored cost else stored) := by
      simp only [deltaPayload, hcumulative]
      rfl
    rw [hstored]
    generalize removeField (removeField fields "tokens_gauge") "cost_cumulative" = stored
      at hprinted2 hget2
    dsimp only
    generalize hafter : (if ((Json.object fields).get "tokens_gauge").bind Json.asBool = some true
      then insertField stored "tokens" (.unsigned tokens) else stored) = after
    have hprinted : fieldsPrinted after = true := by
      rw [← hafter]
      split
      · exact insertField_printed hprinted2 rfl _
      · exact hprinted2
    have htokens : (Json.object after).Counts "tokens" ∧
        (Json.object after).count "tokens" = tokens := by
      rw [htokens', ← hafter]
      split
      · rename_i hgauge
        rw [htokens', if_pos hgauge]
        exact Json.counts_of_unsigned get_insertField_self
      · exact h.tokens.of_get (hget2 _ (by decide) (by decide))
    have hcents : (Json.object after).get "cost_cents" = (Json.object fields).get "cost_cents" := by
      rw [← hafter]
      split
      · rw [get_insertField_of_ne (by decide)]
        exact hget2 _ (by decide) (by decide)
      · exact hget2 _ (by decide) (by decide)
    rw [hcost']
    split
    · rename_i hcumulative
      refine ⟨setCost_printed hprinted _, ?_, Json.counts_of_unsigned get_insertField_self⟩
      have hsame := htokens.1.of_get (@get_setCost after
        ((Json.object fields).count "cost_cents" - usage.lastCumulativeCostCents) _
        (by decide) (by decide))
      exact ⟨hsame.1, hsame.2.trans htokens.2⟩
    · exact ⟨hprinted, htokens, h.cost.of_get hcents⟩
  · have hget : ∀ key, payload.get key = none := by
      intro key
      unfold Json.get
      split
      · exact absurd ⟨_, rfl⟩ hobject
      · rfl
    have hstored : deltaPayload payload tokens cost = payload := by
      unfold deltaPayload
      split
      · exact absurd ⟨_, rfl⟩ hobject
      · rfl
    rw [hget, Option.bind_none, if_neg (by simp)] at htokens' hcost'
    rw [hstored, htokens', hcost']
    exact ⟨h.printed, ⟨h.tokens, rfl⟩, ⟨h.cost, rfl⟩⟩

end AgentGrid.Node
