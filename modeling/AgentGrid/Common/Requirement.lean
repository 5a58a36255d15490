import AgentGrid.Common.Version

/-!
# Version requirements

`version_matches_req` with its matchers and `valid_version_req`.
-/

namespace AgentGrid.Common

open AgentGrid.Store (isWhitespace trimChars)

/-! ## Matchers -/

def matchExact (v : SemVer) (req : Text) : Bool :=
  match parseVersion req with
  | some r => cmpFull v r == .eq
  | none => false

/-- The requirement names the triple of the version with a pre-release of its own. -/
def ownTriple (v r : SemVer) : Bool := r.pre ≠ [] && cmpRelease r v == .eq

def prereleaseOk (v r : SemVer) : Bool := v.pre = [] || (cmpRelease v r == .eq && r.pre ≠ [])

/-- The leftmost component that is not zero pins the range. -/
def caretWithin (v r : SemVer) : Bool :=
  if 0 < r.major then v.major = r.major
  else if 0 < r.minor then v.major = 0 && v.minor = r.minor
  else v.major = 0 && v.minor = 0 && v.patch = r.patch

def matchCaret (v : SemVer) (req : Text) : Bool :=
  match parseVersion req with
  | some r => cmpFull v r != .lt && caretWithin v r && prereleaseOk v r
  | none => false

def matchTilde (v : SemVer) (req : Text) : Bool :=
  let dots := req.count '.'
  match parseVersion req with
  | some r =>
      let within :=
        if dots = 0 then decide (v.major = r.major) else v.major = r.major && v.minor = r.minor
      cmpRelease v r != .lt && within && prereleaseOk v r
  | none => false

def isWild (p : Text) : Bool := p = ['*'] || p = ['x'] || p = ['X']

/-- The loop of `wildcard_parses` from the part `i` on. -/
def wildcardLoop (i : Nat) (seenWild : Bool) : List Text → Bool
  | [] => seenWild
  | p :: parts =>
      if isWild p then i ≠ 0 && wildcardLoop (i + 1) true parts
      else !seenWild && (parseU64 p).isSome && wildcardLoop (i + 1) seenWild parts

def wildcardParses (req : Text) : Bool :=
  (req.splitOn '.').length ≤ 3 && wildcardLoop 0 false (req.splitOn '.')

def isComponent (p : Text) (n : Nat) : Bool := parseU64 p = some n

def matchWildcard (v : SemVer) (req : Text) : Bool :=
  wildcardParses req &&
    match req.splitOn '.' with
    | [] => false
    | [_] => true
    | major :: minor :: rest =>
        isComponent major v.major && (isWild minor || isComponent minor v.minor) &&
          rest.head?.all (fun patch => isWild (cutAt '-' patch).1 || isComponent patch v.patch) &&
            v.pre = []

/-! ## Comparators -/

inductive Comparator
  | ge
  | le
  | gt
  | lt
  | eq
  | bare
deriving DecidableEq

def splitComparator : Text → Comparator × Text
  | '>' :: '=' :: body => (.ge, body)
  | '<' :: '=' :: body => (.le, body)
  | '>' :: body => (.gt, body)
  | '<' :: body => (.lt, body)
  | '=' :: body => (.eq, body)
  | body => (.bare, body)

def startsWithComparator (body : Text) : Bool := body.head?.any (· ∈ ['=', '>', '<'])

def matchSingleComparator (v : SemVer) (body : Text) (less orEqual allowPre : Bool) : Bool :=
  let body := trimChars body
  !startsWithComparator body &&
    match parseVersion body with
    | some r =>
        (v.pre = [] || allowPre) &&
          let ord := cmpFull v r
          if less then ord == .lt || (orEqual && ord == .eq)
          else ord == .gt || (orEqual && ord == .eq)
    | none => false

def matchComparator (v : SemVer) (part : Text) : Bool :=
  match splitComparator part with
  | (.ge, body) => matchSingleComparator v body false true true
  | (.le, body) => matchSingleComparator v body true true true
  | (.gt, body) => matchSingleComparator v body false false true
  | (.lt, body) => matchSingleComparator v body true false true
  | (.eq, body) => matchExact v (trimChars body)
  | (.bare, body) => matchExact v body

def comparatorBody (part : Text) : Text := trimChars (splitComparator part).2

/-- `split_whitespace`. -/
def words (s : Text) : List Text := (s.splitOnP isWhitespace).filter (· ≠ [])

def setAllowsPrerelease (v : SemVer) (req : Text) : Bool :=
  v.pre = [] || (words req).any fun part => (parseVersion (comparatorBody part)).any (ownTriple v)

def matchComparators (v : SemVer) (req : Text) : Bool :=
  setAllowsPrerelease v req && (words req).all (matchComparator v)

def parsesAsComparatorSet (req : Text) : Bool :=
  (words req).all fun part => (parseVersion (comparatorBody part)).isSome

/-! ## Requirements -/

/-- A set of comparators, or one that allows equality. -/
def isSet (req : Text) : Bool :=
  ' ' ∈ req || ['>', '='].isPrefixOf req || ['<', '='].isPrefixOf req

def hasWild (req : Text) : Bool := '*' ∈ req || 'x' ∈ req || 'X' ∈ req

/-- The branches on a lone operator. -/
def matchForm (v : SemVer) (req : Text) : Bool :=
  match req with
  | '>' :: body =>
      matchSingleComparator v body false false ((parseVersion (trimChars body)).any (ownTriple v))
  | '<' :: body =>
      matchSingleComparator v body true false ((parseVersion (trimChars body)).any (ownTriple v))
  | '=' :: body => matchExact v (trimChars body)
  | '^' :: body => matchCaret v (trimChars body)
  | '~' :: body => matchTilde v (trimChars body)
  | _ => if hasWild req then matchWildcard v req else matchExact v req

def versionMatchesReq (version req : Text) : Bool :=
  let req := trimChars req
  if req = [] ∨ req = ['*'] then trimChars version ≠ []
  else
    match parseVersion version with
    | some v => if isSet req then matchComparators v req else matchForm v req
    | none => false

def canary : SemVer := ⟨1, 0, 0, []⟩

def isOperator (c : Char) : Bool := c ∈ ['>', '<', '=', '^', '~']

/-- The requirement without its operator. -/
def reqBody (req : Text) : Text := if req.head?.any isOperator then req.drop 1 else req

def validVersionReq (req : Text) : Bool :=
  let req := trimChars req
  if req = [] ∨ req = ['*'] then req = ['*']
  else if isSet req then matchComparators canary req || parsesAsComparatorSet req
  else if hasWild req then wildcardParses (reqBody req)
  else (parseVersion (reqBody req)).isSome

end AgentGrid.Common
