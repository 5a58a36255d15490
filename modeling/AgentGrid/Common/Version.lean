import AgentGrid.Store.ArtifactRange
import Mathlib.Data.List.DropRight
import Mathlib.Data.List.TakeWhile

/-!
# Versions

`parse_version` and the comparison of the versions it reads.  Texts are lists of
characters; identifiers are ASCII, so the order of their bytes is the order of their
characters.
-/

namespace AgentGrid.Common

open AgentGrid.Store (isWhitespace trimChars trimChars_of_ends alphanum_range)

abbrev Text : Type := List Char

/-- Build metadata is not kept. -/
structure SemVer where
  major : Nat
  minor : Nat
  patch : Nat
  pre : List Text
deriving DecidableEq

/-! ## Reading -/

def isDigits (p : Text) : Bool := p ≠ [] && p.all Char.isDigit

def digitsValue (p : Text) : Nat := Nat.ofDigitChars 10 p 0

/-- `strip_prefix`, the text itself where it does not start so. -/
def stripOr (c : Char) (s : Text) : Text := if s.head? = some c then s.drop 1 else s

/-- `parse::<u64>()`, which takes a plus sign. -/
def parseU64 (p : Text) : Option Nat :=
  let digits := stripOr '+' p
  if isDigits digits ∧ digitsValue digits < 2 ^ 64 then some (digitsValue digits) else none

def num (p : Option Text) : Option Nat := p.bind fun p => if isDigits p then parseU64 p else none

/-- The two parts around the first `c`; the second is empty where there is none. -/
def cutAt (c : Char) (s : Text) : Text × Text :=
  (s.takeWhile (· ≠ c), (s.dropWhile (· ≠ c)).drop 1)

def isIdentifier (id : Text) : Bool := id ≠ [] && id.all fun c => c.isAlphanum || c = '-'

/-- What `parse_version` reads after the blanks and the `v`. -/
def versionBody (s : Text) : Text := trimChars (stripOr 'v' (trimChars s))

def identifiers (pre : Text) : Option (List Text) :=
  if pre = [] then some []
  else if (pre.splitOn '.').all isIdentifier then some (pre.splitOn '.') else none

def parseVersion (s : Text) : Option SemVer :=
  let (core, pre) := cutAt '-' (cutAt '+' (versionBody s)).1
  if core = [] ∨ '+' ∈ pre then none
  else
    let parts := core.splitOn '.'
    match num parts[0]? with
    | none => none
    | some major =>
        if parts[3]?.isSome then none
        else
          (identifiers pre).map fun pre =>
            ⟨major, (num parts[1]?).getD 0, (num parts[2]?).getD 0, pre⟩

/-! ## Comparing -/

def cmpText : Text → Text → Ordering := List.compareLex fun c d => compare c.toNat d.toNat

def cmpRelease (a b : SemVer) : Ordering :=
  (compare a.major b.major).then
    ((compare a.minor b.minor).then (compare a.patch b.patch))

def cmpIdentifier (x y : Text) : Ordering :=
  match parseU64 x, parseU64 y with
  | some nx, some ny => compare nx ny
  | _, _ => cmpText x y

def cmpPre (a b : List Text) : Ordering :=
  match a, b with
  | [], [] => .eq
  | [], _ :: _ => .gt
  | _ :: _, [] => .lt
  | _ :: _, _ :: _ =>
      (a.zip b).foldr (fun p rest => (cmpIdentifier p.1 p.2).then rest)
        (compare a.length b.length)

def cmpFull (a b : SemVer) : Ordering := (cmpRelease a b).then (cmpPre a.pre b.pre)

/-! ## Pieces of a text -/

theorem cutAt_append {c : Char} {first : Text} (h : c ∉ first) (rest : Text) :
    cutAt c (first ++ c :: rest) = (first, rest) := by
  have hne : ∀ x ∈ first, decide (x ≠ c) = true := by
    intro x hx
    exact decide_eq_true fun hxc => h (hxc ▸ hx)
  rw [cutAt, List.takeWhile_append_of_pos hne, List.dropWhile_append_of_pos hne]
  simp

theorem cutAt_of_notMem {c : Char} {s : Text} (h : c ∉ s) : cutAt c s = (s, []) := by
  have hne : ∀ x ∈ s, decide (x ≠ c) = true := by
    intro x hx
    exact decide_eq_true fun hxc => h (hxc ▸ hx)
  rw [cutAt, List.takeWhile_eq_self_iff.mpr hne, List.dropWhile_eq_nil_iff.mpr hne]
  rfl

theorem stripOr_of_notMem {c : Char} {s : Text} (h : c ∉ s) : stripOr c s = s :=
  if_neg fun hhead => h (List.mem_of_head? hhead)

theorem dropWhile_head {p : Char → Bool} {s : Text} {c : Char}
    (h : (s.dropWhile p).head? = some c) : p c = false := by
  have hnot := List.head?_dropWhile_not p s
  rw [h] at hnot
  simpa using hnot

/-- Trimming again changes nothing. -/
theorem trimChars_trimChars (s : Text) : trimChars (trimChars s) = trimChars s := by
  refine trimChars_of_ends (fun c hc => ?_) fun c hc => ?_
  · have hstart : trimChars s <+: s.dropWhile isWhitespace := List.rdropWhile_prefix isWhitespace _
    obtain ⟨rest, hrest⟩ := hstart
    refine dropWhile_head (s := s) ?_
    rw [← hrest, List.head?_append, hc]
    rfl
  · rw [trimChars, List.getLast?_reverse] at hc
    exact dropWhile_head hc

theorem isDigits_iff {p : Text} : isDigits p = true ↔ p ≠ [] ∧ ∀ c ∈ p, c.isDigit = true := by
  simp [isDigits]

theorem isIdentifier_iff {id : Text} :
    isIdentifier id = true ↔ id ≠ [] ∧ ∀ c ∈ id, (c.isAlphanum || c = '-') = true := by
  simp [isIdentifier]

theorem notMem_of_isDigits {p : Text} (h : isDigits p = true) {c : Char}
    (hc : c.isDigit = false) : c ∉ p := by
  intro hmem
  rw [(isDigits_iff.mp h).2 c hmem] at hc
  cases hc

theorem notMem_of_isIdentifier {id : Text} (h : isIdentifier id = true) {c : Char}
    (hc : (c.isAlphanum || c = '-') = false) : c ∉ id := by
  intro hmem
  rw [(isIdentifier_iff.mp h).2 c hmem] at hc
  cases hc

theorem parseU64_of_isDigits {p : Text} (h : isDigits p = true) :
    parseU64 p = if digitsValue p < 2 ^ 64 then some (digitsValue p) else none := by
  have hplus : '+' ∉ p := notMem_of_isDigits h (by decide)
  rw [parseU64, stripOr_of_notMem hplus]
  simp only [h, true_and]

theorem num_of_isDigits {p : Text} (h : isDigits p = true) :
    num (some p) = if digitsValue p < 2 ^ 64 then some (digitsValue p) else none := by
  rw [num, Option.bind_some, if_pos h, parseU64_of_isDigits h]

theorem parseU64_lt {p : Text} {n : Nat} (h : parseU64 p = some n) : n < 2 ^ 64 := by
  rw [parseU64] at h
  split at h
  · rename_i hfits
    exact Option.some_inj.mp h ▸ hfits.2
  · cases h

theorem num_lt {p : Option Text} {n : Nat} (h : num p = some n) : n < 2 ^ 64 := by
  obtain ⟨p, -, hp⟩ := Option.bind_eq_some_iff.mp h
  split at hp
  · exact parseU64_lt hp
  · cases hp

theorem num_getD_lt (p : Option Text) : (num p).getD 0 < 2 ^ 64 := by
  cases h : num p with
  | none => exact Nat.two_pow_pos 64
  | some n => exact num_lt h

theorem isIdentifier_of_identifiers {pre : Text} {ids : List Text}
    (h : identifiers pre = some ids) : ∀ id ∈ ids, isIdentifier id = true := by
  rw [identifiers] at h
  split at h
  · obtain rfl := Option.some_inj.mp h
    exact fun id hid => nomatch hid
  · split at h
    · rename_i hall
      obtain rfl := Option.some_inj.mp h
      exact List.all_eq_true.mp hall
    · cases h

/-- What `parse_version` gives: numbers of 64 bits and identifiers. -/
structure Parsed (v : SemVer) : Prop where
  major : v.major < 2 ^ 64
  minor : v.minor < 2 ^ 64
  patch : v.patch < 2 ^ 64
  pre : ∀ id ∈ v.pre, isIdentifier id = true

theorem parsed_of_parse {s : Text} {v : SemVer} (h : parseVersion s = some v) : Parsed v := by
  rw [parseVersion] at h
  dsimp only at h
  split at h
  · cases h
  · split at h
    · cases h
    · rename_i major hmajor
      split at h
      · cases h
      · obtain ⟨ids, hids, rfl⟩ := Option.map_eq_some_iff.mp h
        refine ⟨num_lt hmajor, ?_, ?_, isIdentifier_of_identifiers hids⟩
        · dsimp only
          exact num_getD_lt _
        · dsimp only
          exact num_getD_lt _

theorem parseVersion_trim (s : Text) : parseVersion (trimChars s) = parseVersion s := by
  rw [parseVersion, parseVersion, versionBody, trimChars_trimChars, ← versionBody]

theorem isDigit_of_num {p : Text} {n : Nat} (h : num (some p) = some n) : isDigits p = true := by
  by_contra hne
  rw [num, Option.bind_some, if_neg hne] at h
  cases h

/-- What `parse_version` accepts starts with a digit or a `v`. -/
theorem head_of_parse {s : Text} {v : SemVer} (h : parseVersion s = some v) :
    ∃ c, (trimChars s).head? = some c ∧ (c = 'v' ∨ c.isDigit = true) := by
  by_cases hv : (trimChars s).head? = some 'v'
  · exact ⟨'v', hv, .inl rfl⟩
  · have hbody : versionBody s = trimChars s := by
      rw [versionBody, stripOr, if_neg hv, trimChars_trimChars]
    rw [parseVersion, hbody] at h
    dsimp only at h
    split at h
    · cases h
    · rename_i hcore
      split at h
      · cases h
      · rename_i major hmajor
        cases ht : trimChars s with
        | nil =>
            rw [ht] at hcore
            exact absurd (.inl rfl) hcore
        | cons c rest =>
            refine ⟨c, rfl, .inr ?_⟩
            rw [ht] at hmajor hcore
            by_cases hplus : c = '+'
            · exact absurd (.inl (by simp [cutAt, hplus])) hcore
            · by_cases hdash : c = '-'
              · exact absurd (.inl (by simp [cutAt, hdash])) hcore
              · simp only [cutAt, List.takeWhile_cons, hplus, hdash, ne_eq, not_false_eq_true,
                  decide_true, if_true, List.splitOn_cons_eq_if_modifyHead] at hmajor
                split at hmajor
                · exact absurd (isDigit_of_num hmajor) (by decide)
                · obtain ⟨p, ps, hps⟩ := List.exists_cons_of_ne_nil (List.splitOn_ne_nil '.'
                    ((rest.takeWhile fun x => decide ¬x = '+').takeWhile fun x => decide ¬x = '-'))
                  rw [hps] at hmajor
                  exact (isDigits_iff.mp (isDigit_of_num hmajor)).2 c (List.mem_cons_self ..)

/-! ## Writing -/

def digitsOf (n : Nat) : Text := Nat.toDigits 10 n

def printCore (v : SemVer) : Text :=
  ['.'].intercalate [digitsOf v.major, digitsOf v.minor, digitsOf v.patch]

def printVersion (v : SemVer) : Text :=
  printCore v ++ if v.pre = [] then [] else '-' :: ['.'].intercalate v.pre

theorem isDigits_digitsOf (n : Nat) : isDigits (digitsOf n) = true := by
  refine isDigits_iff.mpr ⟨Nat.toDigits_ne_nil, ?_⟩
  intro c hc
  exact Nat.isDigit_of_mem_toDigits (by decide) (by decide) hc

theorem num_digitsOf {n : Nat} (h : n < 2 ^ 64) : num (some (digitsOf n)) = some n := by
  have hvalue : digitsValue (digitsOf n) = n := Nat.ofDigitChars_ten_toDigits
  rw [num_of_isDigits (isDigits_digitsOf n), hvalue, if_pos h]

theorem mem_intercalate {sep c : Char} {parts : List Text} (h : c ∈ [sep].intercalate parts) :
    c = sep ∨ ∃ part ∈ parts, c ∈ part := by
  induction parts with
  | nil =>
      rw [List.intercalate_nil] at h
      cases h
  | cons part parts ih =>
      cases parts with
      | nil => exact .inr ⟨part, List.mem_singleton_self _, by simpa using h⟩
      | cons part' parts =>
          rw [List.intercalate_cons_cons, List.mem_append, List.mem_append] at h
          rcases h with (h | h) | h
          · exact .inr ⟨part, List.mem_cons_self .., h⟩
          · exact .inl (List.mem_singleton.mp h)
          · rcases ih h with hsep | ⟨p, hp, hc⟩
            · exact .inl hsep
            · exact .inr ⟨p, List.mem_cons_of_mem _ hp, hc⟩

/-- The characters a version is written with. -/
def isVersionChar (c : Char) : Bool := c.isAlphanum || c = '-' || c = '.'

theorem isVersionChar_range {c : Char} (h : isVersionChar c = true) :
    45 ≤ c.toNat ∧ c.toNat ≤ 122 := by
  simp only [isVersionChar, Bool.or_eq_true, decide_eq_true_eq] at h
  rcases h with (h | rfl) | rfl
  · have hrange := alphanum_range h
    omega
  · decide
  · decide

theorem isWhitespace_of_isVersionChar {c : Char} (h : isVersionChar c = true) :
    isWhitespace c = false := by
  have hrange := isVersionChar_range h
  by_contra hne
  simp only [Bool.not_eq_false, isWhitespace, Bool.or_eq_true, Bool.and_eq_true,
    decide_eq_true_eq, beq_iff_eq] at hne
  omega

theorem digits_of_mem_printCore {v : SemVer} {c : Char} (h : c ∈ printCore v) :
    c = '.' ∨ c.isDigit = true := by
  rcases mem_intercalate h with hdot | ⟨part, hpart, hc⟩
  · exact .inl hdot
  · refine .inr ?_
    simp only [List.mem_cons, List.not_mem_nil, or_false] at hpart
    rcases hpart with rfl | rfl | rfl <;> exact (isDigits_iff.mp (isDigits_digitsOf _)).2 c hc

theorem notMem_printCore {v : SemVer} {c : Char} (hdot : c ≠ '.') (hdigit : c.isDigit = false) :
    c ∉ printCore v := by
  intro h
  rcases digits_of_mem_printCore h with hc | hc
  · exact hdot hc
  · rw [hdigit] at hc
    cases hc

theorem isVersionChar_of_mem_print {v : SemVer} (hv : Parsed v) {c : Char}
    (h : c ∈ printVersion v) : isVersionChar c = true := by
  simp only [isVersionChar, Bool.or_eq_true, decide_eq_true_eq]
  rcases List.mem_append.mp h with hc | hc
  · rcases digits_of_mem_printCore hc with rfl | hdigit
    · exact .inr rfl
    · exact .inl (.inl (by simp [Char.isAlphanum, hdigit]))
  · split at hc
    · cases hc
    · rcases List.mem_cons.mp hc with rfl | hc
      · exact .inl (.inr rfl)
      · rcases mem_intercalate hc with rfl | ⟨id, hid, hc⟩
        · exact .inr rfl
        · have hchar := (isIdentifier_iff.mp (hv.pre id hid)).2 c hc
          rw [Bool.or_eq_true, decide_eq_true_eq] at hchar
          exact .inl hchar

theorem head?_printVersion (v : SemVer) :
    ∃ c, (printVersion v).head? = some c ∧ c.isDigit = true := by
  have hdigits := isDigits_iff.mp (isDigits_digitsOf v.major)
  obtain ⟨c, rest, hmajor⟩ := List.exists_cons_of_ne_nil hdigits.1
  refine ⟨c, ?_, hdigits.2 c (by rw [hmajor]; exact List.mem_cons_self ..)⟩
  rw [printVersion, printCore, List.intercalate_cons_cons, hmajor]
  rfl

theorem versionBody_of_plain {s : Text} (hv : s.head? ≠ some 'v')
    (hs : ∀ c ∈ s, isWhitespace c = false) : versionBody s = s := by
  have htrim : trimChars s = s :=
    trimChars_of_ends (fun c hc => hs c (List.mem_of_head? hc))
      fun c hc => hs c (List.mem_of_getLast? hc)
  rw [versionBody, htrim, stripOr, if_neg hv, htrim]

theorem versionBody_print {v : SemVer} (hv : Parsed v) :
    versionBody (printVersion v) = printVersion v := by
  refine versionBody_of_plain ?_ fun c hc =>
    isWhitespace_of_isVersionChar (isVersionChar_of_mem_print hv hc)
  obtain ⟨c, hhead, hdigit⟩ := head?_printVersion v
  rw [hhead]
  rintro h
  obtain rfl := Option.some_inj.mp h
  exact absurd hdigit (by decide)

theorem identifiers_intercalate {pre : List Text} (h : ∀ id ∈ pre, isIdentifier id = true) :
    identifiers (if pre = [] then [] else ['.'].intercalate pre) = some pre := by
  by_cases hpre : pre = []
  · subst hpre
    rfl
  · have hsplit : (['.'].intercalate pre).splitOn '.' = pre :=
      List.splitOn_intercalate '.' (fun id hid => notMem_of_isIdentifier (h id hid) (by decide))
        hpre
    have hne : ['.'].intercalate pre ≠ [] := by
      intro hnil
      rw [hnil, List.splitOn_nil] at hsplit
      exact absurd (h [] (by rw [← hsplit]; exact List.mem_singleton_self _)) (by decide)
    rw [if_neg hpre, identifiers, if_neg hne, hsplit, if_pos (List.all_eq_true.mpr h)]

/-- What `parse_version` gives is read back from its text. -/
theorem parseVersion_print {v : SemVer} (hv : Parsed v) :
    parseVersion (printVersion v) = some v := by
  have hplus : '+' ∉ printVersion v := by
    intro h
    exact absurd (isVersionChar_of_mem_print hv h) (by decide)
  have hdash : '-' ∉ printCore v := notMem_printCore (by decide) (by decide)
  have hcut : cutAt '-' (printVersion v) =
      (printCore v, if v.pre = [] then [] else ['.'].intercalate v.pre) := by
    rw [printVersion]
    split
    · rw [List.append_nil, cutAt_of_notMem hdash]
    · exact cutAt_append hdash _
  have hcore : printCore v ≠ [] := by
    rw [printCore, List.intercalate_cons_cons]
    simp
  have hplus' : '+' ∉ (if v.pre = [] then [] else ['.'].intercalate v.pre) := by
    intro h
    refine hplus (List.mem_append_right _ ?_)
    split at h
    · cases h
    · rename_i hne
      rw [if_neg hne]
      exact List.mem_cons_of_mem _ h
  have hsplit : (printCore v).splitOn '.' =
      [digitsOf v.major, digitsOf v.minor, digitsOf v.patch] := by
    have hdot : ∀ n, '.' ∉ digitsOf n := fun n =>
      notMem_of_isDigits (isDigits_digitsOf n) (by decide)
    exact List.splitOn_intercalate '.' (by simp [hdot]) (by simp)
  rw [parseVersion, versionBody_print hv, cutAt_of_notMem hplus, hcut]
  simp only [hcore, hplus', or_self, if_false, hsplit, identifiers_intercalate hv.pre]
  simp [num_digitsOf hv.major, num_digitsOf hv.minor, num_digitsOf hv.patch]

end AgentGrid.Common
