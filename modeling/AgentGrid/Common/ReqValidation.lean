import AgentGrid.Common.Precedence
import AgentGrid.Common.Requirement

/-!
# Validation of requirements

`valid_version_req` beside the versions that satisfy a requirement.
-/

namespace AgentGrid.Common

open AgentGrid.Store (isWhitespace trimChars isWhitespace_of_isDigit)

def Satisfiable (req : Text) : Prop := ∃ version, versionMatchesReq version req = true

/-- A single exact, caret, tilde, wildcard, `=` or `>=` requirement. -/
structure Single (req : Text) : Prop where
  word : ∀ c ∈ trimChars req, isWhitespace c = false
  form : ['>', '='] <+: trimChars req ∨ ∀ c, (trimChars req).head? = some c → c ≠ '>' ∧ c ≠ '<'

/-- What a requirement that is not blank owes: valid when some version satisfies it, and
satisfied by some version when it is single and valid. -/
structure Agrees (req : Text) : Prop where
  accepts : trimChars req ≠ [] → Satisfiable req → validVersionReq req = true
  satisfies : trimChars req ≠ [] → validVersionReq req = true → Single req → Satisfiable req

/-- The lone comparisons that no version satisfies: above the greatest release and below the
least version. -/
def Extreme (op : Char) (q : SemVer) : Prop :=
  (op = '>' ∧ q = ⟨2 ^ 64 - 1, 2 ^ 64 - 1, 2 ^ 64 - 1, []⟩) ∨
    (op = '<' ∧ (q = ⟨0, 0, 0, []⟩ ∨ q = ⟨0, 0, 0, [['-']]⟩))

/-- An operator before a text with a wildcard character, which validation takes for a wildcard
and the matcher for a version. -/
inductive Drift (req : Text) : Prop
  | dead {op : Char} {body : Text} (h : trimChars req = op :: body) (hop : op ∈ ['=', '^', '~'])
      (hset : isSet (op :: body) = false) (hchar : hasWild (op :: body) = true)
      (hwild : wildcardParses body = true) (hplus : body.head? = some '+')
  | rejected {op : Char} {body : Text} {q : SemVer} (h : trimChars req = op :: body)
      (hop : isOperator op = true) (hset : isSet (op :: body) = false)
      (hchar : hasWild (op :: body) = true) (hwild : wildcardParses body = false)
      (hq : parseVersion body = some q) (hroom : ¬Extreme op q)

/-! ## Satisfying a requirement -/

theorem matches_iff {version req : Text} (hne : ¬(trimChars req = [] ∨ trimChars req = ['*'])) :
    versionMatchesReq version req = true ↔
      ∃ v, parseVersion version = some v ∧
        (if isSet (trimChars req) then matchComparators v (trimChars req)
          else matchForm v (trimChars req)) = true := by
  rw [versionMatchesReq]
  simp only [if_neg hne]
  cases parseVersion version with
  | none => simp
  | some v => simp

theorem satisfiable_iff {req : Text} (hne : ¬(trimChars req = [] ∨ trimChars req = ['*'])) :
    Satisfiable req ↔
      ∃ v, Parsed v ∧ (if isSet (trimChars req) then matchComparators v (trimChars req)
        else matchForm v (trimChars req)) = true := by
  simp only [Satisfiable, matches_iff hne]
  constructor
  · rintro ⟨version, v, hv, hmatch⟩
    exact ⟨v, parsed_of_parse hv, hmatch⟩
  · rintro ⟨v, hv, hmatch⟩
    exact ⟨printVersion v, v, parseVersion_print hv, hmatch⟩

theorem not_startsWithComparator_of_parse {s : Text} {v : SemVer} (h : parseVersion s = some v) :
    startsWithComparator (trimChars s) = false := by
  obtain ⟨c, hc, hcase⟩ := head_of_parse h
  rw [startsWithComparator, hc, Option.any_some, decide_eq_false_iff_not]
  simp only [List.mem_cons, List.not_mem_nil, or_false, not_or]
  rcases hcase with rfl | hdigit
  · decide
  · refine ⟨?_, ?_, ?_⟩ <;>
      · rintro rfl
        exact absurd hdigit (by decide)

theorem matchSingleComparator_iff {v : SemVer} {body : Text} {less orEqual allowPre : Bool} :
    matchSingleComparator v body less orEqual allowPre = true ↔
      ∃ r, parseVersion body = some r ∧ (v.pre = [] ∨ allowPre = true) ∧
        (cmpFull v r = (if less then .lt else .gt) ∨ (orEqual = true ∧ cmpFull v r = .eq)) := by
  rw [matchSingleComparator]
  simp only [parseVersion_trim]
  cases hr : parseVersion body with
  | none => simp
  | some r =>
      rw [not_startsWithComparator_of_parse hr]
      cases less <;> simp

theorem matchExact_iff {v : SemVer} {req : Text} :
    matchExact v req = true ↔ ∃ r, parseVersion req = some r ∧ cmpFull v r = .eq := by
  rw [matchExact]
  cases parseVersion req <;> simp

/-! ## Sets -/

theorem parses_of_matchComparator {v : SemVer} {part : Text} (h : matchComparator v part = true) :
    (parseVersion (comparatorBody part)).isSome = true := by
  rw [comparatorBody, parseVersion_trim]
  unfold matchComparator at h
  split at h <;> rename_i body hpart <;> rw [hpart]
  · obtain ⟨r, hr, -⟩ := matchSingleComparator_iff.mp h
    exact Option.isSome_of_eq_some hr
  · obtain ⟨r, hr, -⟩ := matchSingleComparator_iff.mp h
    exact Option.isSome_of_eq_some hr
  · obtain ⟨r, hr, -⟩ := matchSingleComparator_iff.mp h
    exact Option.isSome_of_eq_some hr
  · obtain ⟨r, hr, -⟩ := matchSingleComparator_iff.mp h
    exact Option.isSome_of_eq_some hr
  · obtain ⟨r, hr, -⟩ := matchExact_iff.mp h
    rw [parseVersion_trim] at hr
    exact Option.isSome_of_eq_some hr
  · obtain ⟨r, hr, -⟩ := matchExact_iff.mp h
    exact Option.isSome_of_eq_some hr

theorem parsesAsComparatorSet_of_match {v : SemVer} {req : Text}
    (h : matchComparators v req = true) : parsesAsComparatorSet req = true := by
  rw [matchComparators, Bool.and_eq_true] at h
  refine List.all_eq_true.mpr fun part hpart => ?_
  exact parses_of_matchComparator (List.all_eq_true.mp h.2 part hpart)

theorem words_of_word {s : Text} (hne : s ≠ []) (h : ∀ c ∈ s, isWhitespace c = false) :
    words s = [s] := by
  rw [words, List.splitOnP_eq_singleton h, List.filter_cons_of_pos (by simpa using hne),
    List.filter_nil]

/-- A `>=` requirement is satisfied by its own bound. -/
theorem matchComparators_self {body : Text} {q : SemVer}
    (hword : ∀ c ∈ '>' :: '=' :: body, isWhitespace c = false)
    (hq : parseVersion body = some q) : matchComparators q ('>' :: '=' :: body) = true := by
  have hwords := words_of_word (List.cons_ne_nil _ _) hword
  have hbody : parseVersion (comparatorBody ('>' :: '=' :: body)) = some q := by
    rw [comparatorBody, parseVersion_trim]
    exact hq
  rw [matchComparators, setAllowsPrerelease, hwords, Bool.and_eq_true]
  constructor
  · have hself : cmpRelease q q = .eq := cmpRelease_eq.mpr ⟨rfl, rfl, rfl⟩
    simp only [List.any_cons, hbody, Option.any_some, ownTriple, hself]
    cases q.pre <;> simp
  · rw [List.all_cons, List.all_nil, Bool.and_true]
    show matchSingleComparator q body false true true = true
    exact matchSingleComparator_iff.mpr ⟨q, hq, .inr rfl, .inr ⟨rfl, cmpFull_self q⟩⟩

/-! ## Wildcards -/

/-- A number, then up to two parts that end in wildcards. -/
inductive WildcardParts : List Text → Prop
  | one {p p' : Text} (hnum : (parseU64 p).isSome = true) (hwild : isWild p' = true) :
      WildcardParts [p, p']
  | two {p p' p'' : Text} (hnum : (parseU64 p).isSome = true)
      (hmid : isWild p' = true ∨ (parseU64 p').isSome = true) (hwild : isWild p'' = true) :
      WildcardParts [p, p', p'']

theorem wildcardParts_of_parses {req : Text} (h : wildcardParses req = true) :
    WildcardParts (req.splitOn '.') := by
  rw [wildcardParses, Bool.and_eq_true, decide_eq_true_eq] at h
  obtain ⟨hlen, hloop⟩ := h
  generalize req.splitOn '.' = parts at hlen hloop
  match parts with
  | [] => cases hloop
  | [p] => simp [wildcardLoop] at hloop
  | [p, p'] =>
      cases hp : isWild p <;> cases hp' : isWild p' <;> simp [wildcardLoop, hp, hp'] at hloop
      exact .one hloop hp'
  | [p, p', p''] =>
      cases hp : isWild p <;> cases hp' : isWild p' <;> cases hp'' : isWild p'' <;>
        simp [wildcardLoop, hp, hp', hp''] at hloop
      · exact .two hloop.1 (.inr hloop.2) hp''
      · exact .two hloop (.inl hp') hp''
  | p :: p' :: p'' :: p''' :: rest =>
      simp only [List.length_cons] at hlen
      omega

theorem WildcardParts.part {parts : List Text} (h : WildcardParts parts) :
    ∀ p ∈ parts, isWild p = true ∨ (parseU64 p).isSome = true := by
  cases h with
  | one hnum hwild =>
      simp only [List.forall_mem_cons, List.not_mem_nil, false_imp_iff, implies_true, and_true]
      exact ⟨.inr hnum, .inl hwild⟩
  | two hnum hmid hwild =>
      simp only [List.forall_mem_cons, List.not_mem_nil, false_imp_iff, implies_true, and_true]
      exact ⟨.inr hnum, hmid, .inl hwild⟩

theorem isWild_iff {p : Text} : isWild p = true ↔ p = ['*'] ∨ p = ['x'] ∨ p = ['X'] := by
  simp [isWild, or_assoc]

theorem isDigits_of_parseU64 {p : Text} (h : (parseU64 p).isSome = true) :
    isDigits (stripOr '+' p) = true := by
  rw [parseU64] at h
  split at h
  · rename_i hdigits
    exact hdigits.1
  · cases h

/-- The characters of a wildcard requirement. -/
def isWildcardChar (c : Char) : Bool := c.isDigit || c ∈ ['.', '+', '*', 'x', 'X']

theorem isWildcardChar_of_parses {req : Text} (h : wildcardParses req = true) {c : Char}
    (hc : c ∈ req) : isWildcardChar c = true := by
  have hparts := wildcardParts_of_parses h
  have hreq : ['.'].intercalate (req.splitOn '.') = req := List.intercalate_splitOn '.'
  rw [← hreq] at hc
  rw [isWildcardChar, Bool.or_eq_true, decide_eq_true_eq]
  rcases mem_intercalate hc with rfl | ⟨p, hp, hc⟩
  · exact .inr (List.mem_cons_self ..)
  · rcases hparts.part p hp with hwild | hnum
    · right
      rcases isWild_iff.mp hwild with rfl | rfl | rfl <;> simp_all
    · have hdigits := (isDigits_iff.mp (isDigits_of_parseU64 hnum)).2
      rw [stripOr] at hdigits
      split at hdigits
      · rename_i hplus
        cases p with
        | nil => cases hc
        | cons c' p =>
            rcases List.mem_cons.mp hc with rfl | hc
            · rw [List.head?_cons, Option.some_inj] at hplus
              exact .inr (by simp [hplus])
            · exact .inl (hdigits c hc)
      · exact .inl (hdigits c hc)

theorem notMem_of_wildcard {req : Text} (h : wildcardParses req = true) {c : Char}
    (hc : isWildcardChar c = false) : c ∉ req := by
  intro hmem
  rw [isWildcardChar_of_parses h hmem] at hc
  cases hc

theorem matchWildcard_satisfiable {req : Text} (h : wildcardParses req = true) :
    ∃ v, Parsed v ∧ matchWildcard v req = true := by
  have hzero : 0 < 2 ^ 64 := Nat.two_pow_pos 64
  have hself : ∀ {p n}, parseU64 p = some n → isComponent p n = true := fun hp => decide_eq_true hp
  have hparts := wildcardParts_of_parses h
  generalize hsplit : req.splitOn '.' = parts at hparts
  cases hparts with
  | one hnum hwild =>
      obtain ⟨n, hn⟩ := Option.isSome_iff_exists.mp hnum
      refine ⟨⟨n, 0, 0, []⟩, ⟨parseU64_lt hn, hzero, hzero, by simp⟩, ?_⟩
      simp [matchWildcard, h, hsplit, hself hn, hwild]
  | two hnum hmid hwild =>
      obtain ⟨n, hn⟩ := Option.isSome_iff_exists.mp hnum
      rename_i p p' p''
      have hlast : isWild (cutAt '-' p'').1 = true := by
        rcases isWild_iff.mp hwild with rfl | rfl | rfl <;> decide
      rcases hmid with hmid | hmid
      · refine ⟨⟨n, 0, 0, []⟩, ⟨parseU64_lt hn, hzero, hzero, by simp⟩, ?_⟩
        simp [matchWildcard, h, hsplit, hself hn, hmid, hlast]
      · obtain ⟨m, hm⟩ := Option.isSome_iff_exists.mp hmid
        refine ⟨⟨n, m, 0, []⟩, ⟨parseU64_lt hn, parseU64_lt hm, hzero, by simp⟩, ?_⟩
        simp [matchWildcard, h, hsplit, hself hn, hself hm, hlast]

theorem length_splitOn_takeWhile (p : Char → Bool) (s : Text) :
    ((s.takeWhile p).splitOn '.').length ≤ (s.splitOn '.').length := by
  induction s with
  | nil => exact Nat.le_refl _
  | cons c s ih =>
      rw [List.takeWhile_cons]
      split
      · rw [List.splitOn_cons_eq_if_modifyHead, List.splitOn_cons_eq_if_modifyHead]
        split
        · simpa using ih
        · simpa using ih
      · exact List.length_pos_iff.mpr (List.splitOn_ne_nil '.' _)

theorem isWhitespace_of_wildcard {req : Text} (h : wildcardParses req = true) :
    ∀ c ∈ req, isWhitespace c = false := by
  intro c hc
  have hchar := isWildcardChar_of_parses h hc
  rw [isWildcardChar, Bool.or_eq_true, decide_eq_true_eq] at hchar
  rcases hchar with hdigit | hmem
  · exact isWhitespace_of_isDigit hdigit
  · simp only [List.mem_cons, List.not_mem_nil, or_false] at hmem
    rcases hmem with rfl | rfl | rfl | rfl | rfl <;> decide

/-- After an operator a wildcard is read as a version, unless it starts with a plus sign. -/
theorem parse_wildcard_iff {body : Text} (h : wildcardParses body = true) :
    (parseVersion body).isSome = true ↔ body.head? ≠ some '+' := by
  have hplain : versionBody body = body :=
    versionBody_of_plain (fun hv => notMem_of_wildcard h (by decide) (List.mem_of_head? hv))
      (isWhitespace_of_wildcard h)
  constructor
  · intro hsome hplus
    cases body with
    | nil => cases hplus
    | cons c body =>
        obtain rfl := Option.some_inj.mp hplus
        simp [parseVersion, hplain, cutAt] at hsome
  · intro hplus
    obtain ⟨p, rest, hparts, hnum, hlen⟩ : ∃ p rest, body.splitOn '.' = p :: rest ∧
        (parseU64 p).isSome = true ∧ (rest ≠ [] ∧ rest.length ≤ 2) := by
      have hparts := wildcardParts_of_parses h
      generalize body.splitOn '.' = parts at hparts
      cases hparts with
      | one hnum _ => exact ⟨_, _, rfl, hnum, by simp⟩
      | two hnum _ _ => exact ⟨_, _, rfl, hnum, by simp⟩
    have hbody : body = p ++ '.' :: ['.'].intercalate rest := by
      have hjoin : ['.'].intercalate (body.splitOn '.') = body := List.intercalate_splitOn '.'
      rw [hparts, List.intercalate_cons_of_ne_nil hlen.1] at hjoin
      simpa using hjoin.symm
    have hhead : p.head? ≠ some '+' := by
      intro hp
      rw [hbody, List.head?_append, hp] at hplus
      exact hplus rfl
    have hdigits : isDigits p = true := by
      have hstrip := isDigits_of_parseU64 hnum
      rwa [stripOr, if_neg hhead] at hstrip
    have hpos : ∀ c ∈ p, decide (c ≠ '+') = true := by
      intro c hc
      refine decide_eq_true fun hcp => ?_
      exact notMem_of_isDigits hdigits (c := '+') (by decide) (hcp ▸ hc)
    have hcut : (cutAt '+' body).1 =
        p ++ '.' :: (['.'].intercalate rest).takeWhile fun c => decide (c ≠ '+') := by
      rw [cutAt, hbody, List.takeWhile_append_of_pos hpos, List.takeWhile_cons_of_pos (by decide)]
    have hdash : '-' ∉ (cutAt '+' body).1 := fun hmem =>
      notMem_of_wildcard h (by decide) ((List.takeWhile_prefix _).subset hmem)
    have hsplit : (cutAt '+' body).1.splitOn '.' =
        p :: ((['.'].intercalate rest).takeWhile fun c => decide (c ≠ '+')).splitOn '.' := by
      rw [hcut, List.splitOn_append_cons_self_of_not_mem
        (notMem_of_isDigits hdigits (by decide))]
    have hfew : ((cutAt '+' body).1.splitOn '.').length ≤ 3 := by
      refine (length_splitOn_takeWhile _ body).trans ?_
      rw [hparts, List.length_cons]
      omega
    have hnone : ((cutAt '+' body).1.splitOn '.')[3]? = none := List.getElem?_eq_none hfew
    obtain ⟨n, hn⟩ := Option.isSome_iff_exists.mp hnum
    have hmajor : num ((cutAt '+' body).1.splitOn '.')[0]? = some n := by
      rw [hsplit]
      simp [num, hdigits, hn]
    have hne : (cutAt '+' body).1 ≠ [] := by
      rw [hcut]
      simp
    rw [parseVersion, hplain, cutAt_of_notMem hdash]
    simp [hne, hmajor, hnone, identifiers]

/-! ## Lone comparisons -/

theorem cmpRelease_lt {a b : SemVer} :
    cmpRelease a b = .lt ↔ a.major < b.major ∨ (a.major = b.major ∧
      (a.minor < b.minor ∨ (a.minor = b.minor ∧ a.patch < b.patch))) := by
  simp only [cmpRelease, Ordering.then_eq_lt, Nat.compare_eq_lt, Nat.compare_eq_eq]

theorem cmpRelease_gt {a b : SemVer} :
    cmpRelease a b = .gt ↔ b.major < a.major ∨ (a.major = b.major ∧
      (b.minor < a.minor ∨ (a.minor = b.minor ∧ b.patch < a.patch))) := by
  simp only [cmpRelease, Ordering.then_eq_gt, Nat.compare_eq_gt, Nat.compare_eq_eq]

/-- The versions that a lone comparison with `q` may take. -/
def Admitted (q v : SemVer) : Prop := Parsed v ∧ (v.pre = [] ∨ ownTriple v q = true)

theorem exists_above_iff {q : SemVer} (hq : Parsed q) :
    (∃ v, Admitted q v ∧ cmpFull v q = .gt) ↔
      q ≠ ⟨2 ^ 64 - 1, 2 ^ 64 - 1, 2 ^ 64 - 1, []⟩ := by
  have hzero : 0 < 2 ^ 64 := Nat.two_pow_pos 64
  constructor
  · rintro ⟨v, ⟨hv, -⟩, hgt⟩ rfl
    rw [cmpFull, Ordering.then_eq_gt, cmpRelease_gt] at hgt
    rcases hgt with hrel | ⟨-, hpre⟩
    · have hmajor := hv.major
      have hminor := hv.minor
      have hpatch := hv.patch
      dsimp only at hrel
      omega
    · cases hvpre : v.pre <;> rw [hvpre] at hpre <;> cases hpre
  · intro hne
    obtain ⟨major, minor, patch, pre⟩ := q
    obtain ⟨hmajor, hminor, hpatch, -⟩ := hq
    dsimp only at hmajor hminor hpatch
    have hrelease : ∀ a b c, a < 2 ^ 64 → b < 2 ^ 64 → c < 2 ^ 64 →
        Admitted ⟨major, minor, patch, pre⟩ ⟨a, b, c, []⟩ :=
      fun a b c ha hb hc => ⟨⟨ha, hb, hc, by simp⟩, .inl rfl⟩
    have habove : ∀ a b c, cmpRelease ⟨a, b, c, []⟩ ⟨major, minor, patch, pre⟩ = .gt →
        cmpFull ⟨a, b, c, []⟩ ⟨major, minor, patch, pre⟩ = .gt :=
      fun a b c h => Ordering.then_eq_gt.mpr (.inl h)
    simp only [cmpRelease_gt] at habove
    cases pre with
    | cons x pre =>
        refine ⟨⟨major, minor, patch, []⟩, hrelease _ _ _ hmajor hminor hpatch, ?_⟩
        exact Ordering.then_eq_gt.mpr (.inr ⟨cmpRelease_eq.mpr ⟨rfl, rfl, rfl⟩, rfl⟩)
    | nil =>
        by_cases hp : patch + 1 < 2 ^ 64
        · exact ⟨_, hrelease major minor (patch + 1) hmajor hminor hp, habove _ _ _ (by omega)⟩
        · by_cases hm : minor + 1 < 2 ^ 64
          · exact ⟨_, hrelease major (minor + 1) 0 hmajor hm hzero, habove _ _ _ (by omega)⟩
          · by_cases hM : major + 1 < 2 ^ 64
            · exact ⟨_, hrelease (major + 1) 0 0 hM hzero hzero, habove _ _ _ (by omega)⟩
            · refine absurd ?_ hne
              rw [SemVer.mk.injEq]
              exact ⟨by omega, by omega, by omega, rfl⟩

/-- No identifier ranks below the dash. -/
theorem cmpIdentifier_dash {y : Text} (hy : isIdentifier y = true) :
    y = ['-'] ∨ (cmpIdentifier ['-'] y = .lt ∧ cmpIdentifier y ['-'] = .gt) := by
  have hdash : parseU64 ['-'] = none := by decide
  have hleft : cmpIdentifier ['-'] y = cmpText ['-'] y := by
    rw [cmpIdentifier, hdash]
  have hright : cmpIdentifier y ['-'] = cmpText y ['-'] := by
    rw [cmpIdentifier, hdash]
    cases parseU64 y <;> rfl
  have hswap : cmpText y ['-'] = (cmpText ['-'] y).swap := Std.OrientedCmp.eq_swap
  rw [hleft, hright, hswap]
  obtain ⟨hne, hchars⟩ := isIdentifier_iff.mp hy
  cases y with
  | nil => exact absurd rfl hne
  | cons c cs =>
      have hchar := hchars c (List.mem_cons_self ..)
      have hrange := isVersionChar_range (c := c) (by rw [isVersionChar, hchar]; rfl)
      have hval : '-'.toNat = 45 := rfl
      rw [cmpText, List.compareLex_cons_cons, hval]
      rcases Nat.lt_or_eq_of_le hrange.1 with hlt | heq
      · right
        rw [Nat.compare_eq_lt.mpr hlt]
        exact ⟨rfl, rfl⟩
      · obtain rfl : '-' = c := Char.toNat_inj.mp heq
        rw [Nat.compare_eq_eq.mpr heq]
        cases cs with
        | nil => exact .inl rfl
        | cons c' cs => exact .inr ⟨rfl, rfl⟩

theorem exists_below_iff {q : SemVer} (hq : Parsed q) :
    (∃ v, Admitted q v ∧ cmpFull v q = .lt) ↔
      ¬(q = ⟨0, 0, 0, []⟩ ∨ q = ⟨0, 0, 0, [['-']]⟩) := by
  have hzero : 0 < 2 ^ 64 := Nat.two_pow_pos 64
  constructor
  · rintro ⟨v, ⟨hv, hgate⟩, hlt⟩ hleast
    rw [cmpFull, Ordering.then_eq_lt, cmpRelease_lt] at hlt
    rcases hleast with rfl | rfl
    · rcases hlt with hrel | ⟨-, hpre⟩
      · dsimp only at hrel
        omega
      · rcases hgate with hnil | hown
        · rw [hnil] at hpre
          cases hpre
        · simp [ownTriple] at hown
    · rcases hlt with hrel | ⟨-, hpre⟩
      · dsimp only at hrel
        omega
      · rw [cmpPre_eq] at hpre
        cases hvpre : v.pre with
        | nil =>
            rw [hvpre] at hpre
            cases hpre
        | cons y ys =>
            have hy := hv.pre y (by rw [hvpre]; exact List.mem_cons_self ..)
            have hlex : List.compareLex cmpIdentifier (y :: ys) [['-']] = .lt := by
              rw [hvpre] at hpre
              exact hpre
            rw [List.compareLex_cons_cons] at hlex
            rcases cmpIdentifier_dash hy with rfl | ⟨-, hgt⟩
            · rw [cmpIdentifier_self] at hlex
              cases ys <;> cases hlex
            · rw [hgt] at hlex
              cases hlex
  · intro hne
    by_cases hrel : cmpRelease ⟨0, 0, 0, []⟩ q = .lt
    · exact ⟨⟨0, 0, 0, []⟩, ⟨⟨hzero, hzero, hzero, by simp⟩, .inl rfl⟩,
        Ordering.then_eq_lt.mpr (.inl hrel)⟩
    · obtain ⟨major, minor, patch, pre⟩ := q
      rw [cmpRelease_lt] at hrel
      dsimp only at hrel
      obtain rfl : major = 0 := by omega
      obtain rfl : minor = 0 := by omega
      obtain rfl : patch = 0 := by omega
      cases pre with
      | nil => exact absurd (.inl rfl) hne
      | cons y ys =>
          have hy := hq.pre y (List.mem_cons_self ..)
          refine ⟨⟨0, 0, 0, [['-']]⟩, ⟨⟨hzero, hzero, hzero, by decide⟩, .inr ?_⟩, ?_⟩
          · simp [ownTriple, cmpRelease]
          · refine Ordering.then_eq_lt.mpr (.inr ⟨cmpRelease_eq.mpr ⟨rfl, rfl, rfl⟩, ?_⟩)
            rw [cmpPre_eq]
            show List.compareLex cmpIdentifier [['-']] (y :: ys) = .lt
            rw [List.compareLex_cons_cons]
            rcases cmpIdentifier_dash hy with rfl | ⟨hlt, -⟩
            · rw [cmpIdentifier_self]
              cases ys with
              | nil => exact absurd (.inr rfl) hne
              | cons y' ys => rfl
            · rw [hlt]
              rfl

/-! ## Operators -/

theorem prereleaseOk_self (q : SemVer) : prereleaseOk q q = true := by
  have hself : cmpRelease q q = .eq := cmpRelease_eq.mpr ⟨rfl, rfl, rfl⟩
  rw [prereleaseOk, hself]
  cases q.pre <;> simp

theorem caretWithin_self (q : SemVer) : caretWithin q q = true := by
  unfold caretWithin
  split
  · simp
  · split
    · simp
      omega
    · simp
      omega

theorem matchForm_bound {op : Char} {body : Text} {q : SemVer} (hop : op ∈ ['=', '^', '~'])
    (hq : parseVersion body = some q) : matchForm q (op :: body) = true := by
  have hself : cmpRelease q q = .eq := cmpRelease_eq.mpr ⟨rfl, rfl, rfl⟩
  simp only [List.mem_cons, List.not_mem_nil, or_false] at hop
  rcases hop with rfl | rfl | rfl
  · show matchExact q (trimChars body) = true
    exact matchExact_iff.mpr ⟨q, by rw [parseVersion_trim, hq], cmpFull_self q⟩
  · show matchCaret q (trimChars body) = true
    rw [matchCaret, parseVersion_trim, hq]
    simp [cmpFull_self, caretWithin_self, prereleaseOk_self]
  · show matchTilde q (trimChars body) = true
    rw [matchTilde, parseVersion_trim, hq]
    simp [hself, prereleaseOk_self]

theorem parses_of_matchForm {op : Char} {body : Text} {v : SemVer} (hop : op ∈ ['=', '^', '~'])
    (h : matchForm v (op :: body) = true) : ∃ q, parseVersion body = some q := by
  rw [← Option.isSome_iff_exists, ← parseVersion_trim]
  simp only [List.mem_cons, List.not_mem_nil, or_false] at hop
  rcases hop with rfl | rfl | rfl
  · replace h : matchExact v (trimChars body) = true := h
    rw [matchExact] at h
    cases hq : parseVersion (trimChars body) with
    | none => simp [hq] at h
    | some q => rfl
  · replace h : matchCaret v (trimChars body) = true := h
    rw [matchCaret] at h
    cases hq : parseVersion (trimChars body) with
    | none => simp [hq] at h
    | some q => rfl
  · replace h : matchTilde v (trimChars body) = true := h
    rw [matchTilde] at h
    cases hq : parseVersion (trimChars body) with
    | none => simp [hq] at h
    | some q => rfl

theorem matchForm_greater (v : SemVer) (body : Text) :
    matchForm v ('>' :: body) = matchSingleComparator v body false false
      ((parseVersion (trimChars body)).any (ownTriple v)) := rfl

theorem matchForm_less (v : SemVer) (body : Text) :
    matchForm v ('<' :: body) = matchSingleComparator v body true false
      ((parseVersion (trimChars body)).any (ownTriple v)) := rfl

theorem matchForm_above {body : Text} {v : SemVer} :
    matchForm v ('>' :: body) = true ↔
      ∃ q, parseVersion body = some q ∧ (v.pre = [] ∨ ownTriple v q = true) ∧
        cmpFull v q = .gt := by
  rw [matchForm_greater, matchSingleComparator_iff, parseVersion_trim]
  refine exists_congr fun q => and_congr_right fun hq => ?_
  simp [hq]

theorem matchForm_below {body : Text} {v : SemVer} :
    matchForm v ('<' :: body) = true ↔
      ∃ q, parseVersion body = some q ∧ (v.pre = [] ∨ ownTriple v q = true) ∧
        cmpFull v q = .lt := by
  rw [matchForm_less, matchSingleComparator_iff, parseVersion_trim]
  refine exists_congr fun q => and_congr_right fun hq => ?_
  simp [hq]

theorem not_extreme {op : Char} (hop : op ∈ ['=', '^', '~']) (q : SemVer) : ¬Extreme op q := by
  rintro (⟨rfl, -⟩ | ⟨rfl, -⟩) <;> exact absurd hop (by decide)

/-- A requirement on a lone operator is satisfiable when its bound is read and leaves room. -/
theorem exists_matchForm_iff {op : Char} {body : Text} (hop : isOperator op = true) :
    (∃ v, Parsed v ∧ matchForm v (op :: body) = true) ↔
      ∃ q, parseVersion body = some q ∧ ¬Extreme op q := by
  simp only [isOperator, List.mem_cons, List.not_mem_nil, or_false, decide_eq_true_eq] at hop
  have hbound : op ∈ ['=', '^', '~'] →
      ((∃ v, Parsed v ∧ matchForm v (op :: body) = true) ↔
        ∃ q, parseVersion body = some q ∧ ¬Extreme op q) := by
    intro hop
    have hnot := not_extreme hop
    constructor
    · rintro ⟨v, -, hv⟩
      obtain ⟨q, hq⟩ := parses_of_matchForm hop hv
      exact ⟨q, hq, hnot q⟩
    · rintro ⟨q, hq, -⟩
      exact ⟨q, parsed_of_parse hq, matchForm_bound hop hq⟩
  rcases hop with rfl | rfl | rfl | rfl | rfl
  · simp only [matchForm_above]
    constructor
    · rintro ⟨v, hv, q, hq, hgate, hgt⟩
      refine ⟨q, hq, ?_⟩
      rintro (⟨-, hmax⟩ | ⟨hop, -⟩)
      · exact (exists_above_iff (parsed_of_parse hq)).mp ⟨v, ⟨hv, hgate⟩, hgt⟩ hmax
      · exact absurd hop (by decide)
    · rintro ⟨q, hq, hroom⟩
      obtain ⟨v, ⟨hv, hgate⟩, hgt⟩ := (exists_above_iff (parsed_of_parse hq)).mpr fun hmax =>
        hroom (.inl ⟨rfl, hmax⟩)
      exact ⟨v, hv, q, hq, hgate, hgt⟩
  · simp only [matchForm_below]
    constructor
    · rintro ⟨v, hv, q, hq, hgate, hlt⟩
      refine ⟨q, hq, ?_⟩
      rintro (⟨hop, -⟩ | ⟨-, hleast⟩)
      · exact absurd hop (by decide)
      · exact (exists_below_iff (parsed_of_parse hq)).mp ⟨v, ⟨hv, hgate⟩, hlt⟩ hleast
    · rintro ⟨q, hq, hroom⟩
      obtain ⟨v, ⟨hv, hgate⟩, hlt⟩ := (exists_below_iff (parsed_of_parse hq)).mpr fun hleast =>
        hroom (.inr ⟨rfl, hleast⟩)
      exact ⟨v, hv, q, hq, hgate, hlt⟩
  · exact hbound (by decide)
  · exact hbound (by decide)
  · exact hbound (by decide)

/-! ## Validation and satisfaction -/

section Forms

variable {req : Text}

theorem validVersionReq_of_ne (hne : ¬(trimChars req = [] ∨ trimChars req = ['*'])) :
    validVersionReq req =
      if isSet (trimChars req) then
        matchComparators canary (trimChars req) || parsesAsComparatorSet (trimChars req)
      else if hasWild (trimChars req) then wildcardParses (reqBody (trimChars req))
      else (parseVersion (reqBody (trimChars req))).isSome := by
  rw [validVersionReq]
  simp only [if_neg hne]

theorem agrees_of_star (h : trimChars req = ['*']) : Agrees req := by
  refine ⟨fun _ _ => ?_, fun _ _ _ => ⟨['1'], ?_⟩⟩
  · simp [validVersionReq, h]
  · simp only [versionMatchesReq, h, or_true, if_true]
    decide

theorem agrees_of_set (hne : ¬(trimChars req = [] ∨ trimChars req = ['*']))
    (hset : isSet (trimChars req) = true) : Agrees req := by
  have hvalid : validVersionReq req = true ↔ parsesAsComparatorSet (trimChars req) = true := by
    rw [validVersionReq_of_ne hne, if_pos hset, Bool.or_eq_true]
    exact or_iff_right_of_imp parsesAsComparatorSet_of_match
  refine ⟨fun _ hsat => ?_, fun _ hval hsingle => ?_⟩
  · obtain ⟨v, -, hv⟩ := (satisfiable_iff hne).mp hsat
    rw [if_pos hset] at hv
    exact hvalid.mpr (parsesAsComparatorSet_of_match hv)
  · obtain ⟨body, hbody⟩ : ∃ body, trimChars req = '>' :: '=' :: body := by
      rcases hsingle.form with hge | hhead
      · obtain ⟨body, hbody⟩ := hge
        exact ⟨body, hbody.symm⟩
      · rw [isSet, Bool.or_eq_true, Bool.or_eq_true, decide_eq_true_eq, List.isPrefixOf_iff_prefix,
          List.isPrefixOf_iff_prefix] at hset
        rcases hset with (hblank | ⟨body, hbody⟩) | ⟨body, hbody⟩
        · exact absurd (hsingle.word ' ' hblank) (by decide)
        · exact ⟨body, hbody.symm⟩
        · exact absurd rfl (hhead '<' (by rw [← hbody]; rfl)).2
    have hword := hsingle.word
    have hparse := hvalid.mp hval
    rw [hbody] at hword hparse
    rw [parsesAsComparatorSet, words_of_word (List.cons_ne_nil _ _) hword, List.all_cons,
      List.all_nil, Bool.and_true, comparatorBody, parseVersion_trim] at hparse
    obtain ⟨q, hq⟩ := Option.isSome_iff_exists.mp hparse
    refine (satisfiable_iff hne).mpr ⟨q, parsed_of_parse hq, ?_⟩
    rw [if_pos hset, hbody]
    exact matchComparators_self hword hq

theorem matchForm_plain {t : Text} (h : t.head?.any isOperator = false) (v : SemVer) :
    matchForm v t = if hasWild t then matchWildcard v t else matchExact v t := by
  unfold matchForm
  split
  · cases h
  · cases h
  · cases h
  · cases h
  · cases h
  · rfl

theorem agrees_of_plain (hne : ¬(trimChars req = [] ∨ trimChars req = ['*']))
    (hset : isSet (trimChars req) = false)
    (hop : (trimChars req).head?.any isOperator = false) : Agrees req := by
  have hbody : reqBody (trimChars req) = trimChars req := by
    rw [reqBody, hop]
    rfl
  have hsat := satisfiable_iff hne
  simp only [hset, Bool.false_eq_true, if_false, matchForm_plain hop] at hsat
  have hvalid := validVersionReq_of_ne hne
  simp only [hset, Bool.false_eq_true, if_false, hbody] at hvalid
  by_cases hwild : hasWild (trimChars req) = true
  · simp only [hwild, if_true] at hsat hvalid
    refine ⟨fun _ h => ?_, fun _ h _ => ?_⟩
    · obtain ⟨v, -, hv⟩ := hsat.mp h
      rw [matchWildcard, Bool.and_eq_true] at hv
      rw [hvalid]
      exact hv.1
    · rw [hvalid] at h
      exact hsat.mpr (matchWildcard_satisfiable h)
  · rw [Bool.not_eq_true] at hwild
    simp only [hwild, Bool.false_eq_true, if_false] at hsat hvalid
    refine ⟨fun _ h => ?_, fun _ h _ => ?_⟩
    · obtain ⟨v, -, hv⟩ := hsat.mp h
      obtain ⟨q, hq, -⟩ := matchExact_iff.mp hv
      rw [hvalid]
      exact Option.isSome_of_eq_some hq
    · rw [hvalid] at h
      obtain ⟨q, hq⟩ := Option.isSome_iff_exists.mp h
      exact hsat.mpr ⟨q, parsed_of_parse hq, matchExact_iff.mpr ⟨q, hq, cmpFull_self q⟩⟩

/-- A single requirement on a lone operator asks for a bound, not for a side of it. -/
theorem bound_of_single {op : Char} {body : Text} (h : trimChars req = op :: body)
    (hop : isOperator op = true) (hset : isSet (op :: body) = false) (hsingle : Single req) :
    op ∈ ['=', '^', '~'] := by
  have hne : op ≠ '>' ∧ op ≠ '<' := by
    rcases hsingle.form with hge | hhead
    · rw [h, ← List.isPrefixOf_iff_prefix] at hge
      simp [isSet, hge] at hset
    · exact hhead op (by rw [h]; rfl)
  simp only [isOperator, List.mem_cons, List.not_mem_nil, or_false, decide_eq_true_eq] at hop ⊢
  tauto

theorem agrees_operator_iff {op : Char} {body : Text} (h : trimChars req = op :: body)
    (hop : isOperator op = true) (hset : isSet (op :: body) = false) :
    Agrees req ↔ ¬Drift req := by
  have hne : ¬(trimChars req = [] ∨ trimChars req = ['*']) := by
    rw [h]
    rintro (hnil | hstar)
    · cases hnil
    · obtain rfl : op = '*' := (List.cons.inj hstar).1
      cases hop
  have hblank : trimChars req ≠ [] := fun hnil => hne (.inl hnil)
  have hsat : Satisfiable req ↔ ∃ q, parseVersion body = some q ∧ ¬Extreme op q := by
    rw [satisfiable_iff hne, h, hset]
    exact exists_matchForm_iff hop
  have hbody : reqBody (op :: body) = body := by
    rw [reqBody, List.head?_cons, Option.any_some, hop]
    rfl
  have hvalid : validVersionReq req =
      if hasWild (op :: body) then wildcardParses body else (parseVersion body).isSome := by
    rw [validVersionReq_of_ne hne, h, hset, hbody]
    rfl
  constructor
  · intro hagrees hdrift
    cases hdrift with
    | dead h' hop' _ hchar hwild hplus =>
        rw [h] at h'
        cases h'
        have hval : validVersionReq req = true := by rw [hvalid, if_pos hchar, hwild]
        have hsingle : Single req := by
          refine ⟨?_, .inr ?_⟩
          · rw [h]
            refine List.forall_mem_cons.mpr ⟨?_, isWhitespace_of_wildcard hwild⟩
            simp only [List.mem_cons, List.not_mem_nil, or_false] at hop'
            rcases hop' with rfl | rfl | rfl <;> decide
          · rw [h]
            rintro c hc
            obtain rfl : op = c := Option.some_inj.mp hc
            constructor <;>
              · rintro rfl
                exact absurd hop' (by decide)
        obtain ⟨q, hq, -⟩ := hsat.mp (hagrees.satisfies hblank hval hsingle)
        exact (parse_wildcard_iff hwild).mp (Option.isSome_of_eq_some hq) hplus
    | rejected h' _ _ hchar hwild hq hroom =>
        rw [h] at h'
        cases h'
        have hval := hagrees.accepts hblank (hsat.mpr ⟨_, hq, hroom⟩)
        rw [hvalid, if_pos hchar, hwild] at hval
        cases hval
  · intro hdrift
    refine ⟨fun _ hs => ?_, fun _ hval hsingle => ?_⟩
    · obtain ⟨q, hq, hroom⟩ := hsat.mp hs
      rw [hvalid]
      split
      · rename_i hchar
        by_contra hwild
        exact hdrift (.rejected h hop hset hchar (Bool.eq_false_of_not_eq_true hwild) hq hroom)
      · exact Option.isSome_of_eq_some hq
    · have hop' := bound_of_single h hop hset hsingle
      have hparse : (parseVersion body).isSome = true := by
        rw [hvalid] at hval
        split at hval
        · rename_i hchar
          refine (parse_wildcard_iff hval).mpr fun hplus => ?_
          exact hdrift (.dead h hop' hset hchar hval hplus)
        · exact hval
      obtain ⟨q, hq⟩ := Option.isSome_iff_exists.mp hparse
      exact hsat.mpr ⟨q, hq, not_extreme hop' q⟩

theorem not_drift_of_set (hset : isSet (trimChars req) = true) : ¬Drift req := by
  rintro (⟨h, -, hset', -, -, -⟩ | ⟨h, -, hset', -, -, -, -⟩) <;>
    · rw [h, hset'] at hset
      cases hset

theorem not_drift_of_plain (hop : (trimChars req).head?.any isOperator = false) : ¬Drift req := by
  rintro (⟨h, hop', -, -, -, -⟩ | ⟨h, hop', -, -, -, -, -⟩)
  · rw [h, List.head?_cons, Option.any_some] at hop
    simp only [List.mem_cons, List.not_mem_nil, or_false] at hop'
    rcases hop' with rfl | rfl | rfl <;> cases hop
  · rw [h, List.head?_cons, Option.any_some, hop'] at hop
    cases hop

/-- Validation agrees with matching exactly where it takes the text after an operator for what
the matcher takes it for. -/
theorem validation_agrees_iff (req : Text) : Agrees req ↔ ¬Drift req := by
  by_cases hnil : trimChars req = []
  · refine iff_of_true ⟨fun h => absurd hnil h, fun h => absurd hnil h⟩ (not_drift_of_plain ?_)
    rw [hnil]
    rfl
  · by_cases hstar : trimChars req = ['*']
    · refine iff_of_true (agrees_of_star hstar) (not_drift_of_plain ?_)
      rw [hstar]
      rfl
    · have hne : ¬(trimChars req = [] ∨ trimChars req = ['*']) := not_or.mpr ⟨hnil, hstar⟩
      cases hset : isSet (trimChars req) with
      | true => exact iff_of_true (agrees_of_set hne hset) (not_drift_of_set hset)
      | false =>
          cases hop : (trimChars req).head?.any isOperator with
          | false => exact iff_of_true (agrees_of_plain hne hset hop) (not_drift_of_plain hop)
          | true =>
              obtain ⟨op, body, h⟩ := List.exists_cons_of_ne_nil hnil
              rw [h, List.head?_cons, Option.any_some] at hop
              rw [h] at hset
              exact agrees_operator_iff h hop hset

end Forms

def preReleaseFloor : Text := ">1.0.0-fix.1".toList

/-- Version 2.0.0 satisfies `>1.0.0-fix.1`, which is not valid. -/
theorem usable_floor_rejected : ¬∀ req, Agrees req := by
  intro h
  have hsat : Satisfiable preReleaseFloor := ⟨"2.0.0".toList, by decide⟩
  exact absurd ((h preReleaseFloor).accepts (by decide) hsat) (by decide)

end AgentGrid.Common
