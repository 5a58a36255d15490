import AgentGrid.Node.Payload

/-!
# Reading printed payloads

A reader of the members of a JSON object, as far as `json_extract` has to read
one: it follows strings and brackets and cuts the text of the object at its
commas.
-/

namespace AgentGrid.Node

/-- Where a scan of JSON text stands. -/
structure Scan where
  depth : Nat := 0
  quoted : Bool := false
  escaped : Bool := false

namespace Scan

def next (s : Scan) (c : Char) : Scan :=
  if s.escaped then { s with escaped := false }
  else if s.quoted then
    if c = '\\' then { s with escaped := true }
    else if c = '"' then { s with quoted := false }
    else s
  else if c = '"' then { s with quoted := true }
  else if c = '[' ∨ c = '\x7b' then { s with depth := s.depth + 1 }
  else if c = ']' ∨ c = '\x7d' then { s with depth := s.depth - 1 }
  else s

/-- Outside of strings and brackets, where a comma and the closing brace count. -/
def outer (s : Scan) : Bool := s.depth == 0 && !s.quoted

end Scan

/-- The members in the text behind the opening brace, from `cur` on. -/
def membersFrom : Scan → List Char → List Char → List (List Char)
  | _, cur, [] => [cur]
  | s, cur, c :: cs =>
      if s.outer && c == ',' then cur :: membersFrom s [] cs
      else if s.outer && c == '\x7d' then [cur]
      else membersFrom (s.next c) (cur ++ [c]) cs

/-- The value of a member with this label. -/
def memberValue (key : String) (member : List Char) : Option (List Char) :=
  let label := quoted key.toList ++ [':']
  if label.isPrefixOf member then some (member.drop label.length) else none

/-- The text of the value that `$.key` names. -/
def jsonExtract (text : List Char) (key : String) : Option (List Char) :=
  match text with
  | '\x7b' :: body => (membersFrom {} [] body).findSome? (memberValue key)
  | _ => none

/-! ## Printed values -/

def numberChar (c : Char) : Bool := c.isDigit || c ∈ ['+', '-', '.', 'e', 'E']

mutual

/-- The texts of floating numbers are such. -/
def Json.printed : Json → Bool
  | .float text => text.toList.all numberChar
  | .array items => itemsPrinted items
  | .object fields => fieldsPrinted fields
  | _ => true

def itemsPrinted : List Json → Bool
  | [] => true
  | item :: items => item.printed && itemsPrinted items

def fieldsPrinted : List (String × Json) → Bool
  | [] => true
  | field :: fields => field.2.printed && fieldsPrinted fields

end

section Members

/-- The reader goes over a text and takes it into the member. -/
def Passes (depth : Nat) (text : List Char) : Prop :=
  ∀ cur rest, membersFrom ⟨depth, false, false⟩ cur (text ++ rest) =
    membersFrom ⟨depth, false, false⟩ (cur ++ text) rest

theorem Passes.append {depth : Nat} {text text' : List Char} (h : Passes depth text)
    (h' : Passes depth text') : Passes depth (text ++ text') := by
  intro cur rest
  rw [List.append_assoc, h, h', List.append_assoc]

/-- A character of no meaning to the reader. -/
def Ordinary (c : Char) : Prop :=
  c ≠ '"' ∧ c ≠ '[' ∧ c ≠ ']' ∧ c ≠ '\x7b' ∧ c ≠ '\x7d' ∧ c ≠ ','

theorem passes_ordinary {depth : Nat} {text : List Char} (h : ∀ c ∈ text, Ordinary c) :
    Passes depth text := by
  intro cur rest
  induction text generalizing cur with
  | nil => simp
  | cons c text ih =>
      obtain ⟨hquote, hopen, hclose, hbrace, hend, hcomma⟩ := h c List.mem_cons_self
      have hrest := ih (fun c hc => h c (List.mem_cons_of_mem _ hc)) (cur ++ [c])
      rw [List.append_assoc, List.singleton_append] at hrest
      simpa [membersFrom, Scan.next, hquote, hopen, hclose, hbrace, hend, hcomma] using hrest

theorem hexDigit_ordinary {n : Nat} (h : n < 16) : hexDigit n ≠ '"' ∧ hexDigit n ≠ '\\' := by
  revert n
  decide

/-- In a string, a character that does not end it and escapes nothing. -/
theorem membersFrom_plain (depth : Nat) {c : Char} (hquote : c ≠ '"') (hslash : c ≠ '\\')
    (cur rest : List Char) :
    membersFrom ⟨depth, true, false⟩ cur (c :: rest) =
      membersFrom ⟨depth, true, false⟩ (cur ++ [c]) rest := by
  simp [membersFrom, Scan.next, Scan.outer, hquote, hslash]

/-- In a string, a backslash with the character behind it. -/
theorem membersFrom_escape (depth : Nat) (c : Char) (cur rest : List Char) :
    membersFrom ⟨depth, true, false⟩ cur ('\\' :: c :: rest) =
      membersFrom ⟨depth, true, false⟩ (cur ++ ['\\', c]) rest := by
  simp [membersFrom, Scan.next, Scan.outer]

theorem membersFrom_escapeChar (depth : Nat) (c : Char) (cur rest : List Char) :
    membersFrom ⟨depth, true, false⟩ cur (escapeChar c ++ rest) =
      membersFrom ⟨depth, true, false⟩ (cur ++ escapeChar c) rest := by
  obtain ⟨hquote, hslash, hc⟩ | ⟨d, hc⟩ | ⟨hcontrol, hc⟩ := escapeChar_cases c
  · rw [hc]
    exact membersFrom_plain depth hquote hslash cur rest
  · rw [hc]
    exact membersFrom_escape depth d cur rest
  · rw [hc]
    obtain ⟨hhigh, hhigh'⟩ := @hexDigit_ordinary (c.toNat / 16) (by omega)
    obtain ⟨hlow, hlow'⟩ := @hexDigit_ordinary (c.toNat % 16) (by omega)
    simp only [List.cons_append, List.nil_append]
    rw [membersFrom_escape, membersFrom_plain depth (by decide) (by decide),
      membersFrom_plain depth (by decide) (by decide), membersFrom_plain depth hhigh hhigh',
      membersFrom_plain depth hlow hlow']
    simp

theorem passes_quoted (depth : Nat) (s : List Char) : Passes depth (quoted s) := by
  have hescaped : ∀ (s cur rest : List Char),
      membersFrom ⟨depth, true, false⟩ cur (s.flatMap escapeChar ++ rest) =
        membersFrom ⟨depth, true, false⟩ (cur ++ s.flatMap escapeChar) rest := by
    intro s
    induction s with
    | nil => simp
    | cons c s ih =>
        intro cur rest
        rw [List.flatMap_cons, List.append_assoc, membersFrom_escapeChar, ih, List.append_assoc]
  intro cur rest
  have hopen : membersFrom ⟨depth, false, false⟩ cur (quoted s ++ rest) =
      membersFrom ⟨depth, true, false⟩ (cur ++ ['"']) (s.flatMap escapeChar ++ '"' :: rest) := by
    simp [quoted, membersFrom, Scan.next]
  have hclose : ∀ cur, membersFrom ⟨depth, true, false⟩ cur ('"' :: rest) =
      membersFrom ⟨depth, false, false⟩ (cur ++ ['"']) rest := by
    simp [membersFrom, Scan.next, Scan.outer]
  rw [hopen, hescaped, hclose]
  simp [quoted]

theorem ordinary_of_numberChar {c : Char} (h : numberChar c = true) : Ordinary c := by
  refine ⟨?_, ?_, ?_, ?_, ?_, ?_⟩ <;> rintro rfl <;> exact absurd h (by decide)

theorem passes_repr (depth n : Nat) : Passes depth n.repr.toList := by
  apply passes_ordinary
  intro c hc
  rw [Nat.toList_repr] at hc
  apply ordinary_of_numberChar
  simp [numberChar, Nat.isDigit_of_mem_toDigits (by decide) (by decide) hc]

/-- Inside of brackets a comma is a character as the others. -/
theorem passes_comma (depth : Nat) : Passes (depth + 1) [','] := by
  intro cur rest
  simp [membersFrom, Scan.next, Scan.outer]

theorem passes_colon (depth : Nat) : Passes depth [':'] :=
  passes_ordinary (by simp [Ordinary])

theorem passes_bracketed {depth : Nat} {text : List Char} (h : Passes (depth + 1) text) :
    Passes depth ('[' :: (text ++ [']'])) ∧ Passes depth ('\x7b' :: (text ++ ['\x7d'])) := by
  constructor <;> intro cur rest
  · have hopen : membersFrom ⟨depth, false, false⟩ cur ('[' :: (text ++ [']']) ++ rest) =
        membersFrom ⟨depth + 1, false, false⟩ (cur ++ ['[']) (text ++ ']' :: rest) := by
      simp [membersFrom, Scan.next]
    rw [hopen, h]
    simp [membersFrom, Scan.next, Scan.outer]
  · have hopen : membersFrom ⟨depth, false, false⟩ cur ('\x7b' :: (text ++ ['\x7d']) ++ rest) =
        membersFrom ⟨depth + 1, false, false⟩ (cur ++ ['\x7b']) (text ++ '\x7d' :: rest) := by
      simp [membersFrom, Scan.next]
    rw [hopen, h]
    simp [membersFrom, Scan.next, Scan.outer]

mutual

theorem Json.passes (depth : Nat) :
    (v : Json) → v.printed = true → Passes depth v.text
  | .null, _ => passes_ordinary (by simp [Json.text_null, Ordinary])
  | .bool true, _ => passes_ordinary (by simp [Json.text_true, Ordinary])
  | .bool false, _ => passes_ordinary (by simp [Json.text_false, Ordinary])
  | .unsigned n, _ => passes_repr depth n
  | .negative n, _ =>
      @Passes.append depth ['-'] _ (passes_ordinary (by simp [Ordinary])) (passes_repr depth n)
  | .float text, h =>
      passes_ordinary fun _ hc => ordinary_of_numberChar (List.all_eq_true.mp h _ hc)
  | .string s, _ => passes_quoted depth s.toList
  | .array items, h => (passes_bracketed (items_pass depth items h)).1
  | .object fields, h => (passes_bracketed (fields_pass depth fields h)).2

theorem items_pass (depth : Nat) :
    (items : List Json) → itemsPrinted items = true → Passes (depth + 1) (itemsText items)
  | [], _ => fun cur rest => by simp [itemsText_nil]
  | [item], h => Json.passes (depth + 1) item (Bool.and_eq_true_iff.mp h).1
  | item :: item' :: items, h =>
      (Json.passes (depth + 1) item (Bool.and_eq_true_iff.mp h).1).append
        ((passes_comma depth).append
          (items_pass depth (item' :: items) (Bool.and_eq_true_iff.mp h).2))

theorem fields_pass (depth : Nat) :
    (fields : List (String × Json)) → fieldsPrinted fields = true →
      Passes (depth + 1) (fieldsText fields)
  | [], _ => fun cur rest => by simp [fieldsText_nil]
  | [(key, value)], h =>
      (passes_quoted (depth + 1) key.toList).append ((passes_colon (depth + 1)).append
        (Json.passes (depth + 1) value (Bool.and_eq_true_iff.mp h).1))
  | (key, value) :: field :: fields, h =>
      (passes_quoted (depth + 1) key.toList).append ((passes_colon (depth + 1)).append
        ((Json.passes (depth + 1) value (Bool.and_eq_true_iff.mp h).1).append
          ((passes_comma depth).append
            (fields_pass depth (field :: fields) (Bool.and_eq_true_iff.mp h).2))))

end

def fieldText (field : String × Json) : List Char :=
  quoted field.1.toList ++ ':' :: field.2.text

theorem passes_field (depth : Nat) {field : String × Json} (h : field.2.printed = true) :
    Passes depth (fieldText field) :=
  (passes_quoted depth field.1.toList).append ((passes_colon depth).append
    (Json.passes depth field.2 h))

/-- The members of a printed object are its fields. -/
theorem membersFrom_fields {field : String × Json} {fields : List (String × Json)}
    (h : fieldsPrinted (field :: fields) = true) :
    membersFrom {} [] (fieldsText (field :: fields) ++ ['\x7d']) =
      (field :: fields).map fieldText := by
  induction fields generalizing field with
  | nil =>
      have hfield := passes_field 0 (Bool.and_eq_true_iff.mp h).1 [] ['\x7d']
      have hend : membersFrom {} (fieldText field) ['\x7d'] = [fieldText field] := by
        simp [membersFrom, Scan.outer]
      rw [List.map_singleton, ← hend]
      exact hfield
  | cons next fields ih =>
      obtain ⟨hprinted, hrest⟩ := Bool.and_eq_true_iff.mp h
      have hfield := passes_field 0 hprinted []
        (',' :: (fieldsText (next :: fields) ++ ['\x7d']))
      have htext : fieldsText (field :: next :: fields) ++ ['\x7d'] =
          fieldText field ++ ',' :: (fieldsText (next :: fields) ++ ['\x7d']) := by
        simp [fieldsText_cons, fieldText]
      have hcomma : membersFrom {} (fieldText field)
          (',' :: (fieldsText (next :: fields) ++ ['\x7d'])) =
          fieldText field :: membersFrom {} [] (fieldsText (next :: fields) ++ ['\x7d']) := by
        simp [membersFrom, Scan.outer]
      rw [htext, List.map_cons, ← ih hrest, ← hcomma]
      exact hfield

/-- A label that is printed as it stands. -/
def PlainLabel (label : List Char) : Prop :=
  ∀ c ∈ label, escapeChar c = [c] ∧ c ≠ '\\' ∧ c ≠ '"'

theorem flatMap_escapeChar {label : List Char} (h : PlainLabel label) :
    label.flatMap escapeChar = label := by
  induction label with
  | nil => rfl
  | cons c label ih =>
      rw [List.flatMap_cons, (h c List.mem_cons_self).1,
        ih fun c hc => h c (List.mem_cons_of_mem _ hc)]
      rfl

/-- What an escaped character begins with. -/
theorem escapeChar_head (c : Char) : ∃ head tail, escapeChar c = head :: tail ∧
    (head = '\\' ∨ head = c ∧ tail = []) ∧ head ≠ '"' := by
  obtain ⟨hquote, -, hc⟩ | ⟨d, hc⟩ | ⟨-, hc⟩ := escapeChar_cases c
  · exact ⟨_, _, hc, .inr ⟨rfl, rfl⟩, hquote⟩
  · exact ⟨_, _, hc, .inl rfl, by decide⟩
  · exact ⟨_, _, hc, .inl rfl, by decide⟩

/-- The text of a string begins with the text of a plain one only if it is it. -/
theorem plain_of_initial {label : List Char} (h : PlainLabel label) {s more rest : List Char}
    (heq : s.flatMap escapeChar ++ '"' :: rest = label ++ '"' :: more) :
    s = label ∧ rest = more := by
  induction label generalizing s with
  | nil =>
      cases s with
      | nil => simpa using heq
      | cons c s =>
          obtain ⟨head, tail, hescape, -, hquote⟩ := escapeChar_head c
          rw [List.flatMap_cons, hescape] at heq
          exact absurd (List.cons.inj heq).1 hquote
  | cons d label ih =>
      obtain ⟨-, hslash, hquote⟩ := h d List.mem_cons_self
      cases s with
      | nil => exact absurd (List.cons.inj heq).1.symm hquote
      | cons c s =>
          obtain ⟨head, tail, hescape, hhead, -⟩ := escapeChar_head c
          rw [List.flatMap_cons, hescape] at heq
          obtain ⟨hfirst, hlater⟩ := List.cons.inj heq
          rcases hhead with hhead | ⟨hhead, htail⟩
          · exact absurd (hfirst.symm.trans hhead) hslash
          · rw [htail] at hlater
            obtain ⟨hs, hrest⟩ := ih (fun c hc => h c (List.mem_cons_of_mem _ hc)) hlater
            rw [← hhead, hfirst, hs]
            exact ⟨rfl, hrest⟩

theorem memberValue_field {key : String} (hkey : PlainLabel key.toList)
    (field : String × Json) :
    memberValue key (fieldText field) = if field.1 = key then some field.2.text else none := by
  have hlabel : quoted key.toList ++ [':'] = '"' :: (key.toList ++ ['"', ':']) := by
    simp [quoted, flatMap_escapeChar hkey]
  have hfield : fieldText field =
      '"' :: (field.1.toList.flatMap escapeChar ++ '"' :: ':' :: field.2.text) := by
    simp [fieldText, quoted]
  rw [memberValue, hlabel, hfield]
  split
  · rename_i hprefix
    obtain ⟨more, hmore⟩ := List.isPrefixOf_iff_prefix.mp hprefix
    have htexts : field.1.toList.flatMap escapeChar ++ '"' :: ':' :: field.2.text =
        key.toList ++ '"' :: ':' :: more := by
      simpa using (List.cons.inj hmore).2.symm
    obtain ⟨hname, hvalue⟩ := plain_of_initial hkey htexts
    have hkey' : field.1 = key := String.toList_inj.mp hname
    rw [if_pos hkey', ← hmore, List.drop_left, (List.cons.inj hvalue).2]
  · rename_i hprefix
    rw [if_neg]
    rintro rfl
    apply hprefix
    rw [List.isPrefixOf_iff_prefix, flatMap_escapeChar hkey]
    exact ⟨field.2.text, by simp⟩

/-- A value that is no object is not printed as one. -/
theorem text_head {payload : Json} (h : payload.printed = true)
    (hobject : ∀ fields, payload ≠ .object fields) (body : List Char) :
    payload.text ≠ '\x7b' :: body := by
  have hdigits : ∀ n : Nat, n.repr.toList ≠ '\x7b' :: body := by
    intro n hn
    have hmem : '\x7b' ∈ Nat.toDigits 10 n := by
      rw [← Nat.toList_repr, hn]
      exact List.mem_cons_self
    exact absurd (Nat.isDigit_of_mem_toDigits (by decide) (by decide) hmem) (by decide)
  cases payload with
  | null => simp [Json.text_null]
  | bool b => cases b <;> simp [Json.text_true, Json.text_false]
  | unsigned n => exact hdigits n
  | negative n => simp [Json.text_negative]
  | float text =>
      intro htext
      have hmem : '\x7b' ∈ text.toList := by
        rw [show text.toList = _ from htext]
        exact List.mem_cons_self
      exact absurd (List.all_eq_true.mp h _ hmem) (by decide)
  | string s => simp [Json.text_string, quoted]
  | array items => simp [Json.text_array]
  | object fields => exact absurd rfl (hobject fields)

/-- The reader finds in a printed payload what the payload has. -/
theorem jsonExtract_text {payload : Json} (h : payload.printed = true) {key : String}
    (hkey : PlainLabel key.toList) :
    jsonExtract payload.text key = (payload.get key).map Json.text := by
  by_cases hobject : ∃ fields, payload = .object fields
  · obtain ⟨fields, rfl⟩ := hobject
    cases fields with
    | nil => simp [jsonExtract, Json.text_object, fieldsText_nil, membersFrom, Scan.outer, memberValue,
        quoted, Json.get]
    | cons field fields =>
        have hmembers : jsonExtract (Json.object (field :: fields)).text key =
            ((field :: fields).map fieldText).findSome? (memberValue key) := by
          rw [← membersFrom_fields h]
          rfl
        rw [hmembers, List.findSome?_map, Json.get]
        generalize field :: fields = fields
        induction fields with
        | nil => rfl
        | cons field fields ih =>
            rw [List.findSome?_cons, List.find?_cons, Function.comp_apply,
              memberValue_field hkey]
            by_cases hname : field.1 = key
            · simp [hname]
            · rw [if_neg hname, beq_false_of_ne hname]
              exact ih
  · have hother : ∀ fields, payload ≠ .object fields := fun fields h => hobject ⟨fields, h⟩
    have hget : payload.get key = none := by
      unfold Json.get
      split
      · exact absurd rfl (hother _)
      · rfl
    rw [hget]
    unfold jsonExtract
    split
    · rename_i body htext
      exact absurd htext (text_head h hother body)
    · rfl

end Members

end AgentGrid.Node
