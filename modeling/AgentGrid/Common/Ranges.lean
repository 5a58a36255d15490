import AgentGrid.Common.Precedence
import AgentGrid.Common.Requirement

/-!
# Ranges

What the documented forms of a requirement mean: the interval of each form and the
versions with a pre-release that it admits.
-/

namespace AgentGrid.Common

open AgentGrid.Store (isWhitespace trimChars)

/-! ## Texts -/

/-- The components of the core of a version text. -/
def coreParts (s : Text) : List Text :=
  (cutAt '-' (cutAt '+' (versionBody s)).1).1.splitOn '.'

/-- Every component is a number of 64 bits. -/
def Numeric (s : Text) : Prop := ∀ p ∈ coreParts s, (num (some p)).isSome = true

instance (s : Text) : Decidable (Numeric s) := inferInstanceAs (Decidable (∀ p ∈ coreParts s, _))

/-- A version as its text says. -/
def Reads (s : Text) (v : SemVer) : Prop := parseVersion s = some v ∧ Numeric s

/-! ## Intervals -/

/-- A version with a pre-release needs a requirement that names its triple with a
pre-release of its own. -/
def Gate (v r : SemVer) : Prop := v.pre = [] ∨ ownTriple v r = true

structure Within (v floor ceil : SemVer) : Prop where
  above : cmpFull v floor ≠ .lt
  below : cmpFull v ceil = .lt

def caretCeil (r : SemVer) : SemVer :=
  if 0 < r.major then ⟨r.major + 1, 0, 0, []⟩
  else if 0 < r.minor then ⟨0, r.minor + 1, 0, []⟩
  else ⟨0, 0, r.patch + 1, []⟩

/-- One component leaves the minor version free. -/
def tildeCeil (body : Text) (r : SemVer) : SemVer :=
  if (coreParts body).length = 1 then ⟨r.major + 1, 0, 0, []⟩
  else ⟨r.major, r.minor + 1, 0, []⟩

def wildcardFloor (nums : List Text) : SemVer :=
  ⟨digitsValue (nums.head?.getD []), digitsValue (nums[1]?.getD []), 0, []⟩

def wildcardCeil (nums : List Text) : SemVer :=
  match nums with
  | [_] => ⟨(wildcardFloor nums).major + 1, 0, 0, []⟩
  | _ => ⟨(wildcardFloor nums).major, (wildcardFloor nums).minor + 1, 0, []⟩

namespace Comparator

def text : Comparator → Text
  | .ge => ['>', '=']
  | .le => ['<', '=']
  | .gt => ['>']
  | .lt => ['<']
  | .eq => ['=']
  | .bare => []

def Holds (op : Comparator) (v r : SemVer) : Prop :=
  match op with
  | .ge => cmpFull v r ≠ .lt
  | .le => cmpFull v r ≠ .gt
  | .gt => cmpFull v r = .gt
  | .lt => cmpFull v r = .lt
  | .eq | .bare => cmpFull v r = .eq

end Comparator

/-! ## Forms -/

abbrev Part : Type := Comparator × Text

def Part.text (part : Part) : Text := part.1.text ++ part.2

inductive Form
  | star
  | exact (body : Text)
  | equals (body : Text)
  | caret (body : Text)
  | tilde (body : Text)
  | wildcard (lead : Bool) (nums : List Text) (wilds : List Char)
  | comparators (parts : List Part)

namespace Form

def spell : Form → Text
  | .star => ['*']
  | .exact body => body
  | .equals body => '=' :: body
  | .caret body => '^' :: body
  | .tilde body => '~' :: body
  | .wildcard lead nums wilds =>
      (if lead then ['v'] else []) ++ ['.'].intercalate (nums ++ wilds.map ([·]))
  | .comparators parts => [' '].intercalate (parts.map Part.text)

/-- A text without blanks. -/
def IsWord (s : Text) : Prop := ∀ c ∈ s, isWhitespace c = false

/-- A comparator is read as such: no character after it belongs to it. -/
structure ProperPart (part : Part) : Prop where
  word : IsWord part.2
  shape : splitComparator part.text = part
  ne_nil : part.text ≠ []

/-- What is spelled is of the form and of no other. -/
def Proper : Form → Prop
  | .star => True
  | .exact body =>
      IsWord body ∧ body ≠ [] ∧ body.head?.any isOperator = false ∧ body ≠ ['*'] ∧
        wildcardParses body = false
  | .equals body => IsWord body
  | .caret body => IsWord body
  | .tilde body => IsWord body
  | .wildcard _ nums wilds =>
      (∀ p ∈ nums, isDigits p = true) ∧ (∀ c ∈ wilds, c ∈ ['*', 'x', 'X']) ∧ nums ≠ [] ∧
        wilds ≠ [] ∧ nums.length + wilds.length ≤ 3
  | .comparators parts =>
      (∀ part ∈ parts, ProperPart part) ∧
        (2 ≤ parts.length ∨ ∃ part, parts = [part] ∧ part.1 ≠ .eq ∧ part.1 ≠ .bare)

end Form

/-- A requirement of one of the documented forms. -/
structure Requirement where
  form : Form
  proper : form.Proper

/-! ## Meaning -/

/-- The version text satisfies the form: what it says lies in the interval, and passes the
gate if it has a pre-release. -/
def Form.Meant (version : Text) : Form → Prop
  | .star => trimChars version ≠ []
  | .exact body | .equals body =>
      ∃ v r, Reads version v ∧ Reads body r ∧ cmpFull v r = .eq ∧ Gate v r
  | .caret body =>
      ∃ v r, Reads version v ∧ Reads body r ∧ Within v r (caretCeil r) ∧ Gate v r
  | .tilde body =>
      ∃ v r, Reads version v ∧ Reads body r ∧ Within v r (tildeCeil body r) ∧ Gate v r
  | .wildcard _ nums _ =>
      ∃ v, Reads version v ∧ Within v (wildcardFloor nums) (wildcardCeil nums) ∧ v.pre = []
  | .comparators parts =>
      ∃ v, Reads version v ∧ (∀ part ∈ parts, ∃ r, Reads part.2 r ∧ part.1.Holds v r) ∧
        (v.pre = [] ∨ ∃ part ∈ parts, ∃ r, Reads part.2 r ∧ ownTriple v r = true)

/-- Where the matcher does with a version text what the form says.  For versions in the
interval by their leading numbers: every component is a number, an exact requirement has no
wildcard character, a tilde requirement with one component has no dot further on and the
version is not below its pre-release, and a wildcard has no `v`. -/
def Form.Sound (version : Text) : Form → Prop
  | .star => True
  | .exact body =>
      ∀ v r, parseVersion version = some v → parseVersion body = some r → cmpFull v r = .eq →
        ((Numeric version ∧ Numeric body) ↔ hasWild body = false)
  | .equals body =>
      ∀ v r, parseVersion version = some v → parseVersion body = some r → cmpFull v r = .eq →
        Numeric version ∧ Numeric body
  | .caret body =>
      ∀ v r, parseVersion version = some v → parseVersion body = some r →
        Within v r (caretCeil r) → Gate v r → Numeric version ∧ Numeric body
  | .tilde body =>
      ∀ v r, parseVersion version = some v → parseVersion body = some r →
        cmpRelease v r ≠ .lt → cmpFull v (tildeCeil body r) = .lt → Gate v r →
          ((Numeric version ∧ Numeric body ∧ cmpFull v r ≠ .lt) ↔
            ¬((coreParts body).length = 1 ∧ '.' ∈ body ∧ v.minor ≠ r.minor))
  | .wildcard lead nums _ =>
      ∀ v, parseVersion version = some v → Within v (wildcardFloor nums) (wildcardCeil nums) →
        v.pre = [] → (Numeric version ↔ lead = false)
  | .comparators parts =>
      ∀ v, parseVersion version = some v →
        (∀ part ∈ parts, ∃ r, parseVersion part.2 = some r ∧ part.1.Holds v r) →
        (v.pre = [] ∨ ∃ part ∈ parts, ∃ r, parseVersion part.2 = some r ∧ ownTriple v r = true) →
          Numeric version ∧ ∀ part ∈ parts, Numeric part.2

end AgentGrid.Common
