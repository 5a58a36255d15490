import AgentGrid.Node.EventOutbox
import AgentGrid.Store.Artifacts
import Mathlib.Data.List.Induction

/-!
# The frontmatter of a skill

`parse_skill_md` reads the lines between two `---` one by one, with the container
the last line left open.  Maps are kept as the list of their insertions.
-/

namespace AgentGrid.Skills

open AgentGrid.Store (isWhitespace trimChars)
open AgentGrid.Node (lines)

abbrev Text : Type := List Char

structure Skill where
  name : Text
  description : Text
  license : Option Text
  compatibility : Option Text
  allowedTools : List Text
  metadata : Text → Option Text
  body : Text

structure SkillParseError where
  errors : List Text
deriving DecidableEq

structure ParseResult where
  skill : Skill
  warnings : List Text

/-! ## Reading a line -/

def stripQuotes (s : Text) : Text :=
  let t := trimChars s
  let quoted := fun c => t.head? = some c ∧ t.getLast? = some c
  if (quoted '"' ∨ quoted '\'') ∧ 2 ≤ t.length then (t.drop 1).dropLast else t

def splitOnce (c : Char) (text : Text) : Option (Text × Text) :=
  if c ∈ text then some (text.takeWhile (· ≠ c), (text.dropWhile (· ≠ c)).drop 1) else none

/-- In characters: the code only asks whether there is any. -/
def indent (line : Text) : Nat := line.length - (line.dropWhile isWhitespace).length

def isItem (trimmed : Text) : Bool := "- ".toList.isPrefixOf trimmed || trimmed == ['-']

/-- `trim_start_matches("- ")`. -/
def trimBullets : Text → Text
  | '-' :: ' ' :: cs => trimBullets cs
  | cs => cs

def itemText (trimmed : Text) : Text := stripQuotes ((trimBullets trimmed).dropWhile (· = '-'))

def metadataKey : Text := "metadata".toList

def lineMessage (idx : Nat) (text : Text) : Text :=
  "line ".toList ++ (toString (idx + 1)).toList ++ ": ".toList ++ text

structure Parser where
  scalars : List (Text × Text) := []
  lists : List (Text × Text) := []
  metadata : List (Text × Text) := []
  warnings : List Text := []
  errors : List Text := []
  ctx : Option Text := none
deriving DecidableEq

namespace Parser

def error (p : Parser) (msg : Text) : Parser := { p with errors := p.errors ++ [msg] }

def warn (p : Parser) (msg : Text) : Parser := { p with warnings := p.warnings ++ [msg] }

def report (p : Parser) (strict : Bool) (msg : Text) : Parser :=
  if strict then p.error msg else p.warn msg

def readLine (strict : Bool) (idx : Nat) (p : Parser) (line : Text) : Parser :=
  let trimmed := trimChars line
  if trimmed = [] then p
  else if isItem trimmed then
    match p.ctx with
    | some k =>
        if k = metadataKey then
          p.error (lineMessage idx "list item under metadata map is not supported".toList)
        else { p with lists := p.lists ++ [(k, itemText trimmed)] }
    | none => p.report strict (lineMessage idx "list item with no parent key".toList)
  else if 0 < indent line ∧ p.ctx = some metadataKey then
    match splitOnce ':' trimmed with
    | some (k, v) => { p with metadata := p.metadata ++ [(trimChars k, stripQuotes v)] }
    | none => p.report strict (lineMessage idx "malformed metadata entry".toList)
  else
    match splitOnce ':' trimmed with
    | some (k, v) =>
        if trimChars v = [] then { p with ctx := some (trimChars k) }
        else
          { p with scalars := p.scalars ++ [(trimChars k, stripQuotes (trimChars v))], ctx := none }
    | none =>
        p.report strict
          (lineMessage idx ("cannot parse '".toList ++ trimmed ++ ['\'']))

/-- `get` of a map: the last insertion counts. -/
def get (entries : List (Text × Text)) (key : Text) : Option Text := entries.reverse.lookup key

def scalar (p : Parser) (key : String) : Option Text := get p.scalars key.toList

def missing (field : String) : Text :=
  "required field '".toList ++ field.toList ++ "' is missing or empty".toList

/-- The text of a required field, and what is wrong with it. -/
def required (p : Parser) (field : String) : Text × List Text :=
  let value := (p.scalar field).getD []
  (value, if trimChars value = [] then [missing field] else [])

end Parser

def scanFrom (strict : Bool) : Nat → Parser → List Text → Parser
  | _, p, [] => p
  | idx, p, line :: rest => scanFrom strict (idx + 1) (p.readLine strict idx line) rest

def scan (strict : Bool) (fm : List Text) : Parser := scanFrom strict 0 {} fm

/-! ## The parser -/

def isDelimiter (line : Text) : Bool := trimChars line == "---".toList

def extractFrontmatter (content : Text) : Except Text (List Text × Text) :=
  match lines content with
  | [] => .error "missing opening '---' frontmatter delimiter".toList
  | first :: rest =>
      if isDelimiter first then
        match rest.dropWhile (!isDelimiter ·) with
        | [] => .error "missing closing '---' frontmatter delimiter".toList
        | _ :: body => .ok (rest.takeWhile (!isDelimiter ·), ['\n'].intercalate body)
      else .error "missing opening '---' frontmatter delimiter".toList

def build (p : Parser) (body : Text) : Except SkillParseError ParseResult :=
  let (name, noName) := p.required "name"
  let (description, noDescription) := p.required "description"
  let errors := p.errors ++ noName ++ noDescription
  if errors = [] then
    .ok ⟨{ name, description
           license := p.scalar "license"
           compatibility := p.scalar "compatibility"
           allowedTools := (p.lists.filter (·.1 = "allowed-tools".toList)).map Prod.snd
           metadata := Parser.get p.metadata
           body := body.dropWhile (· = '\n') }, p.warnings⟩
  else .error ⟨errors⟩

def parseSkillMd (content : Text) (strict : Bool) : Except SkillParseError ParseResult :=
  match extractFrontmatter content with
  | .error e => .error ⟨[e]⟩
  | .ok (fm, body) => build (scan strict fm) body

/-- The lines that stand between the delimiters. -/
def frontmatter (content : Text) : List Text :=
  match extractFrontmatter content with
  | .error _ => []
  | .ok (fm, _) => fm

/-! ## Strict and lenient -/

/-- What a strict and a lenient parser have in common. -/
structure Alike (s l : Parser) : Prop where
  scalars : s.scalars = l.scalars
  lists : s.lists = l.lists
  metadata : s.metadata = l.metadata
  ctx : s.ctx = l.ctx
  quiet : s.warnings = []
  clean : s.errors = [] ↔ l.errors = [] ∧ l.warnings = []

namespace Alike

variable {s l : Parser}

theorem error (h : Alike s l) (msg : Text) : Alike (s.error msg) (l.error msg) :=
  { h with clean := by simp [Parser.error] }

theorem report (h : Alike s l) (msg : Text) : Alike (s.report true msg) (l.report false msg) :=
  { h with clean := by simp [Parser.report, Parser.error, Parser.warn] }

theorem readLine (h : Alike s l) (idx : Nat) (line : Text) :
    Alike (s.readLine true idx line) (l.readLine false idx line) := by
  unfold Parser.readLine
  simp only [h.ctx]
  split
  · exact h
  · split
    · split
      · split
        · exact h.error _
        · exact { h with lists := congrArg (· ++ _) h.lists, ctx := rfl }
      · exact h.report _
    · split
      · split
        · exact { h with metadata := congrArg (· ++ _) h.metadata, ctx := rfl }
        · exact h.report _
      · split
        · split
          · exact { h with ctx := rfl }
          · exact { h with scalars := congrArg (· ++ _) h.scalars, ctx := rfl }
        · exact h.report _

theorem scanFrom (h : Alike s l) (idx : Nat) (fm : List Text) :
    Alike (scanFrom true idx s fm) (scanFrom false idx l fm) := by
  induction fm generalizing idx s l with
  | nil => exact h
  | cons line rest ih => exact ih (h.readLine idx line) (idx + 1)

theorem build (h : Alike s l) (body : Text) (skill : Skill) :
    (∃ warnings, build s body = .ok ⟨skill, warnings⟩) ↔ build l body = .ok ⟨skill, []⟩ := by
  have hscalar : s.scalar = l.scalar := by
    funext key
    rw [Parser.scalar, h.scalars, Parser.scalar]
  have hrequired : s.required = l.required := by
    funext field
    rw [Parser.required, hscalar, Parser.required]
  unfold Skills.build
  rw [hrequired, hscalar, h.lists, h.metadata, h.quiet]
  dsimp only
  generalize (l.required "name").2 = noName
  generalize (l.required "description").2 = noDescription
  have herrors : s.errors ++ noName ++ noDescription = [] ↔
      l.errors ++ noName ++ noDescription = [] ∧ l.warnings = [] := by
    simp only [List.append_eq_nil_iff, h.clean]
    tauto
  by_cases hl : l.errors ++ noName ++ noDescription = []
  · rw [if_pos hl]
    by_cases hw : l.warnings = []
    · rw [if_pos (herrors.mpr ⟨hl, hw⟩), hw]
      simp
    · rw [if_neg fun hs => hw (herrors.mp hs).2]
      simp [hw]
  · rw [if_neg hl, if_neg fun hs => hl (herrors.mp hs).1]
    simp

end Alike

theorem alike_scan (fm : List Text) : Alike (scan true fm) (scan false fm) :=
  Alike.scanFrom ⟨rfl, rfl, rfl, rfl, rfl, by simp⟩ 0 fm

/-- Strict parsing gives a skill exactly when lenient parsing gives it without a warning. -/
theorem strict_iff_lenient (content : Text) (skill : Skill) :
    (∃ warnings, parseSkillMd content true = .ok ⟨skill, warnings⟩) ↔
      parseSkillMd content false = .ok ⟨skill, []⟩ := by
  unfold parseSkillMd
  cases extractFrontmatter content with
  | error e => simp
  | ok parts => exact (alike_scan parts.1).build parts.2 skill

/-! ## What the lines say -/

/-- The key of a line `key: value`, with the text after the colon. -/
def keyLine (line : Text) : Option (Text × Text) :=
  if isItem (trimChars line) then none
  else (splitOnce ':' (trimChars line)).map fun (k, v) => (trimChars k, v)

def topKey (line : Text) : Option (Text × Text) :=
  if indent line = 0 then keyLine line else none

/-- The container that the last unindented key line opens. -/
def openContainer (before : List Text) : Option Text :=
  match (before.filterMap topKey).getLast? with
  | some (k, v) => if trimChars v = [] then some k else none
  | none => none

/-- The nearest unindented container key. -/
def nearestContainer (before : List Text) : Option Text :=
  ((before.filterMap topKey).filter fun e => trimChars e.2 = []).getLast?.map Prod.fst

theorem openContainer_concat (before : List Text) (line : Text) :
    openContainer (before ++ [line]) =
      match topKey line with
      | some (k, v) => if trimChars v = [] then some k else none
      | none => openContainer before := by
  unfold openContainer
  rw [List.filterMap_append]
  cases hkey : topKey line with
  | none => rw [List.filterMap_cons_none hkey, List.filterMap_nil, List.append_nil]
  | some e => rw [List.filterMap_cons_some hkey, List.filterMap_nil, List.getLast?_concat]

theorem nearestContainer_of_open {before : List Text} {k : Text}
    (h : openContainer before = some k) : nearestContainer before = some k := by
  unfold openContainer at h
  split at h
  · rename_i k' v hlast
    obtain ⟨keys, hkeys⟩ := List.getLast?_eq_some_iff.mp hlast
    split at h
    · rename_i hv
      rw [nearestContainer, hkeys, List.filter_append, List.filter_cons_of_pos (by simpa using hv),
        List.filter_nil, List.getLast?_concat, Option.map_some]
      exact h
    · cases h
  · cases h

/-! ## One line -/

/-- What reading a line comes to. -/
inductive LineRead (p : Parser) (line : Text) : Parser → Prop
  | key {k v : Text} (h : keyLine line = some (k, v))
      (hout : ¬(0 < indent line ∧ p.ctx = some metadataKey)) :
      LineRead p line
        (if trimChars v = [] then { p with ctx := some k }
        else { p with scalars := p.scalars ++ [(k, stripQuotes (trimChars v))], ctx := none })
  | entry {k v : Text} (h : keyLine line = some (k, v)) (hindent : 0 < indent line)
      (hctx : p.ctx = some metadataKey) :
      LineRead p line { p with metadata := p.metadata ++ [(k, stripQuotes v)] }
  | item {k : Text} (h : keyLine line = none) (hitem : isItem (trimChars line) = true)
      (hctx : p.ctx = some k) (hk : k ≠ metadataKey) :
      LineRead p line { p with lists := p.lists ++ [(k, itemText (trimChars line))] }
  | other (h : keyLine line = none)
      (hitem : isItem (trimChars line) = true → ∀ k, p.ctx = some k → k = metadataKey)
      (warnings errors : List Text) : LineRead p line { p with warnings, errors }

theorem LineRead.error {p : Parser} {line : Text} (h : keyLine line = none)
    (hitem : isItem (trimChars line) = true → ∀ k, p.ctx = some k → k = metadataKey)
    (msg : Text) : LineRead p line (p.error msg) :=
  .other h hitem _ _

theorem LineRead.report {p : Parser} {line : Text} (h : keyLine line = none)
    (hitem : isItem (trimChars line) = true → ∀ k, p.ctx = some k → k = metadataKey)
    (strict : Bool) (msg : Text) : LineRead p line (p.report strict msg) := by
  cases strict with
  | true => exact .other h hitem _ _
  | false => exact .other h hitem _ _

theorem lineRead (strict : Bool) (idx : Nat) (p : Parser) (line : Text) :
    LineRead p line (p.readLine strict idx line) := by
  unfold Parser.readLine
  dsimp only
  split
  · rename_i hblank
    have hkey : keyLine line = none := by
      rw [keyLine, hblank]
      rfl
    refine .other hkey ?_ p.warnings p.errors
    rw [hblank]
    intro hitem
    cases hitem
  · split
    · rename_i hitem
      have hkey : keyLine line = none := if_pos hitem
      split
      · rename_i k hctx
        split
        · rename_i hk
          refine .error hkey ?_ _
          rintro - k' hk'
          rw [hctx] at hk'
          exact Option.some_inj.mp hk' ▸ hk
        · rename_i hk
          exact .item hkey hitem hctx hk
      · rename_i hctx
        refine .report hkey ?_ strict _
        rintro - k hk
        rw [hctx] at hk
        cases hk
    · rename_i hitem
      have hkey : keyLine line =
          (splitOnce ':' (trimChars line)).map fun (k, v) => (trimChars k, v) := if_neg hitem
      split
      · rename_i hin
        split
        · rename_i k v hsplit
          rw [hsplit] at hkey
          exact .entry hkey hin.1 hin.2
        · rename_i hsplit
          rw [hsplit] at hkey
          exact .report hkey (fun h => absurd h hitem) strict _
      · rename_i hout
        split
        · rename_i k v hsplit
          rw [hsplit] at hkey
          exact .key hkey hout
        · rename_i hsplit
          rw [hsplit] at hkey
          exact .report hkey (fun h => absurd h hitem) strict _

theorem scanFrom_append (strict : Bool) (idx : Nat) (p : Parser) (first second : List Text) :
    scanFrom strict idx p (first ++ second) =
      scanFrom strict (idx + first.length) (scanFrom strict idx p first) second := by
  induction first generalizing idx p with
  | nil => rfl
  | cons line first ih =>
      rw [List.cons_append, scanFrom, ih, scanFrom, List.length_cons, Nat.add_assoc,
        Nat.add_comm 1]

theorem scan_concat (strict : Bool) (fm : List Text) (line : Text) :
    scan strict (fm ++ [line]) = (scan strict fm).readLine strict fm.length line := by
  rw [scan, scanFrom_append, Nat.zero_add]
  rfl

/-! ## The schema -/

/-- What a property of a line and of the lines before it says of all of them. -/
def Everywhere (P : List Text → Text → Prop) (fm : List Text) : Prop :=
  ∀ before line after, fm = before ++ line :: after → P before line

theorem everywhere_nil (P : List Text → Text → Prop) : Everywhere P [] := by
  intro before line after h
  simp at h

theorem everywhere_concat {P : List Text → Text → Prop} {fm : List Text} {line : Text} :
    Everywhere P (fm ++ [line]) ↔ Everywhere P fm ∧ P fm line := by
  constructor
  · intro h
    refine ⟨fun before l after hfm => h before l (after ++ [line]) ?_, h fm line [] rfl⟩
    rw [hfm, List.append_assoc, List.cons_append]
  · rintro ⟨hfm, hline⟩ before l after h
    rcases List.eq_nil_or_concat after with rfl | ⟨after, last, rfl⟩
    · obtain ⟨rfl, hl⟩ := List.append_inj' h rfl
      obtain rfl : line = l := (List.cons.inj hl).1
      exact hline
    · rw [List.concat_eq_append, ← List.cons_append, ← List.append_assoc] at h
      exact hfm before l after (List.append_inj' h rfl).1

/-- No indented key line stands outside a `metadata:` that is open. -/
def Tidy : List Text → Prop :=
  Everywhere fun before line =>
    0 < indent line → (keyLine line).isSome = true → openContainer before = some metadataKey

/-- What the schema asks of a line, and of the parser before it and after. -/
structure LineExact (strict : Bool) (idx : Nat) (before : List Text) (line : Text)
    (p q : Parser) : Prop where
  topLevel : 0 < indent line → q.scalars = p.scalars ∧ q.ctx = p.ctx
  nested : 0 < indent line → (keyLine line).isSome = true →
    ∀ k, nearestContainer before = some k → k ≠ metadataKey →
      ∃ text, q = p.report strict (lineMessage idx text)
  items : ∀ e, q.lists = p.lists ++ [e] → nearestContainer before = some e.1
  entries : ∀ e, q.metadata = p.metadata ++ [e] → nearestContainer before = some metadataKey
  takesItem : isItem (trimChars line) = true →
    ∀ k, openContainer before = some k → k ≠ metadataKey →
      q.lists = p.lists ++ [(k, itemText (trimChars line))]
  takesEntry : 0 < indent line → ∀ k v, keyLine line = some (k, v) →
    openContainer before = some metadataKey → q.metadata = p.metadata ++ [(k, stripQuotes v)]

def SchemaExact (strict : Bool) : List Text → Prop :=
  Everywhere fun before line =>
    LineExact strict before.length before line (scan strict before)
      (scan strict (before ++ [line]))

theorem topKey_of_indented {line : Text} (h : 0 < indent line) : topKey line = none :=
  if_neg (Nat.ne_of_gt h)

/-- A key line that tidy lines allow outside `metadata` is not indented. -/
theorem unindented_of_key {line : Text} {e : Text × Text} {ctx : Option Text}
    (hline : 0 < indent line → (keyLine line).isSome = true → ctx = some metadataKey)
    (hkey : keyLine line = some e) (hout : ¬(0 < indent line ∧ ctx = some metadataKey)) :
    indent line = 0 := by
  by_contra hne
  have hpos := Nat.pos_of_ne_zero hne
  exact hout ⟨hpos, hline hpos (by rw [hkey]; rfl)⟩

theorem keyLine_of_item {line : Text} (h : isItem (trimChars line) = true) : keyLine line = none :=
  if_pos h

/-- In tidy lines the parser has the container open that the lines open. -/
theorem ctx_of_tidy {strict : Bool} {fm : List Text} (h : Tidy fm) :
    (scan strict fm).ctx = openContainer fm := by
  induction fm using List.reverseRecOn with
  | nil => rfl
  | append_singleton fm line ih =>
      obtain ⟨hfm, hline⟩ := everywhere_concat.mp h
      replace ih := ih hfm
      have hread := lineRead strict fm.length (scan strict fm) line
      rw [← scan_concat] at hread
      rw [openContainer_concat]
      generalize scan strict (fm ++ [line]) = q at hread ⊢
      cases hread with
      | @key k v hkey hout =>
          rw [ih] at hout
          have hindent := unindented_of_key hline hkey hout
          rw [topKey, if_pos hindent, hkey]
          dsimp only
          split <;> rfl
      | entry _ hindent _ =>
          rw [topKey_of_indented hindent]
          exact ih
      | item hkey _ _ _ =>
          rw [topKey, hkey, ite_self]
          exact ih
      | other hkey _ _ _ =>
          rw [topKey, hkey, ite_self]
          exact ih

theorem report_ne (p : Parser) (strict : Bool) (msg : Text) : p.report strict msg ≠ p := by
  intro h
  cases strict with
  | true =>
      have herrors := congrArg Parser.errors h
      exact absurd herrors (by simp [Parser.report, Parser.error])
  | false =>
      have hwarnings := congrArg Parser.warnings h
      exact absurd hwarnings (by simp [Parser.report, Parser.warn])

/-- Where the parser knows the open container, it does with a line what the schema asks unless
the line is an indented key outside `metadata`. -/
theorem lineExact_iff {strict : Bool} {idx : Nat} {before : List Text} {line : Text} {p q : Parser}
    (hread : LineRead p line q) (hctx : p.ctx = openContainer before) :
    LineExact strict idx before line p q ↔
      (0 < indent line → (keyLine line).isSome = true →
        openContainer before = some metadataKey) := by
  cases hread with
  | @key k v hkey hout =>
      rw [hctx] at hout
      have hnot : (0 < indent line → (keyLine line).isSome = true →
          openContainer before = some metadataKey) ↔ ¬0 < indent line := by
        rw [hkey]
        exact ⟨fun h hpos => hout ⟨hpos, h hpos rfl⟩, fun h hpos => absurd hpos h⟩
      rw [hnot]
      constructor
      · intro h hpos
        have htop := h.topLevel hpos
        by_cases hv : trimChars v = []
        · rw [if_pos hv] at h htop
          have hopen : openContainer before = some k := by rw [← hctx, ← htop.2]
          have hk : k ≠ metadataKey := by
            rintro rfl
            exact hout ⟨hpos, hopen⟩
          obtain ⟨text, hreport⟩ := h.nested hpos (by rw [hkey]; rfl) k
            (nearestContainer_of_open hopen) hk
          refine report_ne p strict _ (hreport.symm.trans ?_)
          rw [← hopen, ← hctx]
        · rw [if_neg hv] at htop
          exact absurd htop.1 (by simp)
      · intro hpos
        refine ⟨fun h => absurd h hpos, fun h => absurd h hpos, ?_, ?_, ?_, fun h => absurd h hpos⟩
        · intro e he
          split at he <;> simp at he
        · intro e he
          split at he <;> simp at he
        · intro hitem
          rw [keyLine_of_item hitem] at hkey
          cases hkey
  | @entry k v hkey hindent hmeta =>
      rw [hctx] at hmeta
      refine iff_of_true ?_ fun _ _ => hmeta
      have hnearest := nearestContainer_of_open hmeta
      refine ⟨fun _ => ⟨rfl, rfl⟩, ?_, ?_, fun _ _ => hnearest, ?_, ?_⟩
      · intro _ _ k' hk' hne
        rw [hnearest] at hk'
        exact absurd (Option.some_inj.mp hk').symm hne
      · intro e he
        simp at he
      · intro hitem
        rw [keyLine_of_item hitem] at hkey
        cases hkey
      · intro _ k' v' hkey' _
        rw [hkey] at hkey'
        cases hkey'
        rfl
  | @item k hkey hitem hk hne =>
      rw [hctx] at hk
      refine iff_of_true ?_ fun _ h => absurd h (by rw [hkey]; decide)
      refine ⟨fun _ => ⟨rfl, rfl⟩, fun _ h => absurd h (by rw [hkey]; decide), ?_, ?_, ?_, ?_⟩
      · intro e he
        obtain rfl := List.singleton_inj.mp (List.append_cancel_left he)
        exact nearestContainer_of_open hk
      · intro e he
        simp at he
      · intro _ k' hk' _
        rw [hk] at hk'
        cases hk'
        rfl
      · intro _ k' v hkey'
        rw [hkey] at hkey'
        cases hkey'
  | other hkey hitem warnings errors =>
      refine iff_of_true ?_ fun _ h => absurd h (by rw [hkey]; decide)
      refine ⟨fun _ => ⟨rfl, rfl⟩, fun _ h => absurd h (by rw [hkey]; decide), ?_, ?_, ?_, ?_⟩
      · intro e he
        simp at he
      · intro e he
        simp at he
      · intro hit k hk hne
        rw [← hctx] at hk
        exact absurd (hitem hit k hk) hne
      · intro _ k' v hkey'
        rw [hkey] at hkey'
        cases hkey'

theorem schemaExact_iff {strict : Bool} {fm : List Text} : SchemaExact strict fm ↔ Tidy fm := by
  induction fm using List.reverseRecOn with
  | nil => exact iff_of_true (everywhere_nil _) (everywhere_nil _)
  | append_singleton fm line ih =>
      rw [SchemaExact, everywhere_concat, Tidy, everywhere_concat]
      refine (and_congr_left fun _ => ih).trans (and_congr_right fun htidy => ?_)
      rw [scan_concat]
      exact lineExact_iff (lineRead ..) (ctx_of_tidy htidy)

/-- The value the schema reads off an unindented line. -/
def topScalar (line : Text) : Option (Text × Text) :=
  match topKey line with
  | some (k, v) => if trimChars v = [] then none else some (k, stripQuotes (trimChars v))
  | none => none

/-- In tidy lines exactly the unindented ones set the fields. -/
theorem scalars_of_tidy {strict : Bool} {fm : List Text} (h : Tidy fm) :
    (scan strict fm).scalars = fm.filterMap topScalar := by
  induction fm using List.reverseRecOn with
  | nil => rfl
  | append_singleton fm line ih =>
      obtain ⟨hfm, hline⟩ := everywhere_concat.mp h
      have hctx : (scan strict fm).ctx = openContainer fm := ctx_of_tidy hfm
      have hread := lineRead strict fm.length (scan strict fm) line
      rw [← scan_concat] at hread
      rw [List.filterMap_append, ← ih hfm]
      generalize scan strict (fm ++ [line]) = q at hread ⊢
      have hnone : topKey line = none → topScalar line = none := by
        intro hkey
        rw [topScalar, hkey]
      have hquiet : keyLine line = none →
          (scan strict fm).scalars = (scan strict fm).scalars ++ [line].filterMap topScalar := by
        intro hkey
        rw [List.filterMap_cons_none (hnone (by rw [topKey, hkey, ite_self])), List.filterMap_nil,
          List.append_nil]
      cases hread with
      | @key k v hkey hout =>
          rw [hctx] at hout
          have hindent := unindented_of_key hline hkey hout
          have htop : topKey line = some (k, v) := by rw [topKey, if_pos hindent, hkey]
          by_cases hv : trimChars v = []
          · rw [if_pos hv, List.filterMap_cons_none (by rw [topScalar, htop]; exact if_pos hv),
              List.filterMap_nil, List.append_nil]
          · rw [if_neg hv, List.filterMap_cons_some (by rw [topScalar, htop]; exact if_neg hv),
              List.filterMap_nil]
      | entry _ hindent _ =>
          rw [List.filterMap_cons_none (hnone (topKey_of_indented hindent)), List.filterMap_nil,
            List.append_nil]
      | item hkey _ _ _ => exact hquiet hkey
      | other hkey _ _ _ => exact hquiet hkey

/-- For every text strict parsing gives a skill exactly when lenient parsing gives it without a
warning, and its lines are read as the schema says exactly when they are tidy. -/
theorem frontmatter_exact_iff (content : Text) :
    (∀ skill, (∃ warnings, parseSkillMd content true = .ok ⟨skill, warnings⟩) ↔
        parseSkillMd content false = .ok ⟨skill, []⟩) ∧
      ∀ strict, SchemaExact strict (frontmatter content) ↔ Tidy (frontmatter content) :=
  ⟨strict_iff_lenient content, fun _ => schemaExact_iff⟩

/-! ## A nested name -/

def nestedName : Text :=
  "---\nname: helper\ndescription: d\nallowed-tools:\n  name: other\n---\n".toList

theorem nested_name_taken :
    ¬∀ content strict, (∀ skill, (∃ warnings,
        parseSkillMd content true = .ok ⟨skill, warnings⟩) ↔
          parseSkillMd content false = .ok ⟨skill, []⟩) ∧
        SchemaExact strict (frontmatter content) := by
  intro h
  have htop := (h nestedName true).2 ["name: helper".toList, "description: d".toList,
    "allowed-tools:".toList] "  name: other".toList [] (by decide)
  exact absurd (htop.topLevel (by decide)).1 (by decide)

end AgentGrid.Skills
