import AgentGrid.Store.Tables

/-!
# Event payloads and batches

A payload is a JSON value, measured by the text `to_string` prints.  Objects
keep the order of insertion, and removing a key moves the last field into its
place.
-/

namespace AgentGrid.Node

open AgentGrid.Store

inductive Json
  | null
  | bool (b : Bool)
  | unsigned (n : Nat)
  | negative (n : Nat)
  | float (text : String)
  | string (s : String)
  | array (items : List Json)
  | object (fields : List (String × Json))

def hexDigit (n : Nat) : Char :=
  if n < 10 then Char.ofNat (48 + n) else Char.ofNat (87 + n)

def escapeChar (c : Char) : List Char :=
  if c = '"' then ['\\', '"']
  else if c = '\\' then ['\\', '\\']
  else if c.toNat = 8 then ['\\', 'b']
  else if c.toNat = 9 then ['\\', 't']
  else if c.toNat = 10 then ['\\', 'n']
  else if c.toNat = 12 then ['\\', 'f']
  else if c.toNat = 13 then ['\\', 'r']
  else if c.toNat < 32 then
    ['\\', 'u', '0', '0', hexDigit (c.toNat / 16), hexDigit (c.toNat % 16)]
  else [c]

theorem escapeChar_cases (c : Char) :
    (c ≠ '"' ∧ c ≠ '\\' ∧ escapeChar c = [c]) ∨ (∃ d, escapeChar c = ['\\', d]) ∨
      (c.toNat < 32 ∧ escapeChar c =
        ['\\', 'u', '0', '0', hexDigit (c.toNat / 16), hexDigit (c.toNat % 16)]) := by
  unfold escapeChar
  by_cases hquote : c = '"'
  · exact .inr (.inl ⟨_, if_pos hquote⟩)
  by_cases hslash : c = '\\'
  · exact .inr (.inl ⟨_, (if_neg hquote).trans (if_pos hslash)⟩)
  rw [if_neg hquote, if_neg hslash]
  by_cases h8 : c.toNat = 8
  · exact .inr (.inl ⟨_, if_pos h8⟩)
  by_cases h9 : c.toNat = 9
  · exact .inr (.inl ⟨_, (if_neg h8).trans (if_pos h9)⟩)
  rw [if_neg h8, if_neg h9]
  by_cases h10 : c.toNat = 10
  · exact .inr (.inl ⟨_, if_pos h10⟩)
  by_cases h12 : c.toNat = 12
  · exact .inr (.inl ⟨_, (if_neg h10).trans (if_pos h12)⟩)
  rw [if_neg h10, if_neg h12]
  by_cases h13 : c.toNat = 13
  · exact .inr (.inl ⟨_, if_pos h13⟩)
  rw [if_neg h13]
  by_cases hcontrol : c.toNat < 32
  · exact .inr (.inr ⟨hcontrol, if_pos hcontrol⟩)
  · exact .inl ⟨hquote, hslash, if_neg hcontrol⟩
def quoted (s : List Char) : List Char :=
  '"' :: (s.flatMap escapeChar ++ ['"'])

mutual

/-- `serde_json::Value::to_string`. -/
def Json.text : Json → List Char
  | .null => "null".toList
  | .bool true => "true".toList
  | .bool false => "false".toList
  | .unsigned n => n.repr.toList
  | .negative n => '-' :: n.repr.toList
  | .float text => text.toList
  | .string s => quoted s.toList
  | .array items => '[' :: (itemsText items ++ [']'])
  | .object fields => '\x7b' :: (fieldsText fields ++ ['\x7d'])

def itemsText : List Json → List Char
  | [] => []
  | [item] => item.text
  | item :: items => item.text ++ ',' :: itemsText items

def fieldsText : List (String × Json) → List Char
  | [] => []
  | [(key, value)] => quoted key.toList ++ ':' :: value.text
  | (key, value) :: fields =>
      quoted key.toList ++ ':' :: (value.text ++ ',' :: fieldsText fields)

end

theorem Json.text_null : null.text = "null".toList := rfl

theorem Json.text_true : (bool true).text = "true".toList := rfl

theorem Json.text_false : (bool false).text = "false".toList := rfl

theorem Json.text_unsigned (n : Nat) : (unsigned n).text = n.repr.toList := rfl

theorem Json.text_negative (n : Nat) : (negative n).text = '-' :: n.repr.toList := rfl

theorem Json.text_string (s : String) : (string s).text = quoted s.toList := rfl

theorem Json.text_array (items : List Json) :
    (array items).text = '[' :: (itemsText items ++ [']']) := rfl

theorem Json.text_object (fields : List (String × Json)) :
    (object fields).text = '\x7b' :: (fieldsText fields ++ ['\x7d']) := rfl

theorem itemsText_nil : itemsText [] = [] := rfl

theorem fieldsText_nil : fieldsText [] = [] := rfl

theorem fieldsText_singleton (field : String × Json) :
    fieldsText [field] = quoted field.1.toList ++ ':' :: field.2.text := rfl

theorem fieldsText_cons (field next : String × Json) (fields : List (String × Json)) :
    fieldsText (field :: next :: fields) =
      quoted field.1.toList ++ ':' :: (field.2.text ++ ',' :: fieldsText (next :: fields)) := rfl

def utf8Bytes (s : List Char) : Nat := (s.map Char.utf8Size).sum

/-- `payload.to_string().len()`. -/
def Json.bytes (payload : Json) : Nat := utf8Bytes payload.text

namespace Json

def get (payload : Json) (key : String) : Option Json :=
  match payload with
  | .object fields => (fields.find? fun f => f.1 == key).map Prod.snd
  | _ => none

def asU64 : Json → Option Nat
  | .unsigned n => some n
  | _ => none

def asBool : Json → Option Bool
  | .bool b => some b
  | _ => none

def asStr : Json → Option String
  | .string s => some s
  | _ => none

end Json

/-- `Map::insert`: a key that is there keeps its place. -/
def insertField (fields : List (String × Json)) (key : String) (value : Json) :
    List (String × Json) :=
  if fields.any fun f => f.1 == key then
    fields.map fun f => if f.1 == key then (key, value) else f
  else fields ++ [(key, value)]

/-- `Map::remove`, a swap with the last field. -/
def removeField (fields : List (String × Json)) (key : String) :
    List (String × Json) :=
  match fields.getLast? with
  | none => fields
  | some last =>
      if last.1 == key then fields.dropLast
      else if fields.any fun f => f.1 == key then
        fields.dropLast.map fun f => if f.1 == key then last else f
      else fields

/-- The usage counters of a sink. -/
structure Usage where
  tokensTotal : Nat := 0
  costTotal : Nat := 0
  lastCumulativeCostCents : Nat := 0
  lastGaugeTokens : Nat := 0

/-- The increment a `metric` payload stands for, and the new readings. -/
def metricDelta (usage : Usage) (payload : Json) : Usage × Nat × Nat :=
  let tokens := ((payload.get "tokens").bind Json.asU64).getD 0
  let cost := ((payload.get "cost_cents").bind Json.asU64).getD 0
  let gauge := (payload.get "tokens_gauge").bind Json.asBool = some true
  let cumulative := (payload.get "cost_cumulative").bind Json.asBool = some true
  ({ usage with
      lastGaugeTokens := if gauge then tokens else usage.lastGaugeTokens
      lastCumulativeCostCents :=
        if cumulative then cost else usage.lastCumulativeCostCents },
    if gauge then tokens - usage.lastGaugeTokens else tokens,
    if cumulative then cost - usage.lastCumulativeCostCents else cost)

/-- The payload with increments in place of running totals. -/
def deltaPayload (payload : Json) (tokens cost : Nat) : Json :=
  match payload with
  | .object fields =>
      let gauge := (payload.get "tokens_gauge").bind Json.asBool = some true
      let fields := removeField fields "tokens_gauge"
      let cumulative :=
        ((Json.object fields).get "cost_cumulative").bind Json.asBool = some true
      let fields := removeField fields "cost_cumulative"
      let fields := if gauge then insertField fields "tokens" (.unsigned tokens) else fields
      let fields :=
        if cumulative then
          let fields :=
            match (Json.object fields).get "cost_cents" with
            | some raw => insertField fields "cost_cumulative_cents" raw
            | none => fields
          insertField fields "cost_cents" (.unsigned cost)
        else fields
      .object fields
  | other => other

/-- What `push` does to a payload before anything else. -/
def countUsage (usage : Usage) (type : EventType) (payload : Json) : Usage × Json :=
  if type = .metric then
    let (usage, tokens, cost) := metricDelta usage payload
    ({ usage with
        tokensTotal := usage.tokensTotal + tokens
        costTotal := usage.costTotal + cost },
      deltaPayload payload tokens cost)
  else (usage, payload)

structure SinkEvent where
  sequence : Nat
  type : EventType
  payload : Json

/-! ## Batches -/

/-- The variables both sides read, where they are set to a number. -/
structure BatchEnv where
  maxEventBatch : Option Nat := none
  maxEventBatchKb : Option Nat := none

namespace BatchEnv

def maxEvents (env : BatchEnv) : Nat := env.maxEventBatch.getD 500

def maxBytes (env : BatchEnv) : Nat :=
  (env.maxEventBatchKb.map fun kb => kb * 1024).getD (4 * 1024 * 1024)

/-- `(max_bytes as f64 * 0.9) as usize`, which is exact below 2^49. -/
def splitBytes (env : BatchEnv) : Nat := env.maxBytes * 9 / 10

end BatchEnv

/-- The loop of `split_batch`, with the chunk so far and its estimate. -/
def splitFrom (maxEvents maxBytes : Nat) :
    List SinkEvent → Nat → List SinkEvent → List (List SinkEvent)
  | cur, _, [] => if cur.isEmpty then [] else [cur]
  | cur, curBytes, e :: events =>
      let sz := e.payload.bytes + 64
      if (!cur.isEmpty && decide (maxEvents ≤ cur.length)) ||
          (!cur.isEmpty && decide (maxBytes < curBytes + sz)) then
        cur :: splitFrom maxEvents maxBytes [e] sz events
      else splitFrom maxEvents maxBytes (cur ++ [e]) (curBytes + sz) events

def splitBatch (env : BatchEnv) (events : List SinkEvent) : List (List SinkEvent) :=
  splitFrom env.maxEvents env.splitBytes [] 0 events

section Split

theorem splitFrom_flatten (maxEvents maxBytes : Nat) (cur : List SinkEvent) (curBytes : Nat)
    (events : List SinkEvent) :
    (splitFrom maxEvents maxBytes cur curBytes events).flatten = cur ++ events := by
  induction events generalizing cur curBytes with
  | nil => cases cur <;> simp [splitFrom]
  | cons e events ih =>
      rw [splitFrom]
      split
      · simp [ih]
      · simp [ih]

/-- The estimate `split_batch` keeps of a chunk. -/
def estimate (chunk : List SinkEvent) : Nat :=
  (chunk.map fun e => e.payload.bytes + 64).sum

theorem bytes_le_estimate (chunk : List SinkEvent) :
    (chunk.map fun e => e.payload.bytes).sum ≤ estimate chunk := by
  induction chunk with
  | nil => simp
  | cons e chunk ih =>
      simp only [estimate, List.map_cons, List.sum_cons] at ih ⊢
      omega

/-- What `split_batch` sees to: no more events than the cap, and a chunk of two
or more within the byte cap. -/
structure WithinCaps (maxEvents maxBytes : Nat) (chunk : List SinkEvent) : Prop where
  count : chunk.length ≤ max 1 maxEvents
  bytes : chunk.length ≤ 1 ∨ estimate chunk ≤ maxBytes

theorem splitFrom_withinCaps (maxEvents maxBytes : Nat) (cur events : List SinkEvent)
    (hcur : WithinCaps maxEvents maxBytes cur) :
    ∀ chunk ∈ splitFrom maxEvents maxBytes cur (estimate cur) events,
      WithinCaps maxEvents maxBytes chunk := by
  induction events generalizing cur with
  | nil =>
      intro chunk hchunk
      rw [splitFrom] at hchunk
      split at hchunk
      · cases hchunk
      · rw [List.mem_singleton.mp hchunk]
        exact hcur
  | cons e events ih =>
      have hsingle : WithinCaps maxEvents maxBytes [e] := by
        constructor
        · rw [List.length_singleton]
          omega
        · simp
      intro chunk hchunk
      rw [splitFrom] at hchunk
      split at hchunk
      · rcases List.mem_cons.mp hchunk with rfl | hlater
        · exact hcur
        · exact ih [e] hsingle chunk (by simpa [estimate] using hlater)
      · rename_i hfits
        have hnext : WithinCaps maxEvents maxBytes (cur ++ [e]) := by
          cases cur with
          | nil => exact hsingle
          | cons first cur =>
              simp only [List.isEmpty_cons, Bool.not_false, Bool.true_and, Bool.or_eq_true,
                decide_eq_true_eq, not_or, Nat.not_le, Nat.not_lt] at hfits
              constructor
              · rw [List.length_append, List.length_singleton]
                omega
              · right
                simpa [estimate, Nat.add_assoc] using hfits.2
        exact ih (cur ++ [e]) hnext chunk (by simpa [estimate] using hchunk)

theorem splitBatch_withinCaps (env : BatchEnv) (events : List SinkEvent) :
    ∀ chunk ∈ splitBatch env events, WithinCaps env.maxEvents env.splitBytes chunk := by
  have hnil : WithinCaps env.maxEvents env.splitBytes [] := by
    constructor <;> simp
  exact splitFrom_withinCaps env.maxEvents env.splitBytes [] events hnil

end Split

theorem splitBatch_flatten (env : BatchEnv) (events : List SinkEvent) :
    (splitBatch env events).flatten = events := by
  exact splitFrom_flatten env.maxEvents env.splitBytes [] 0 events

end AgentGrid.Node
