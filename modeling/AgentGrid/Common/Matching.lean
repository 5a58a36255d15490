import AgentGrid.Common.Ranges
import AgentGrid.Common.ReqValidation

/-!
# Matching requirements

`version_matches_req` beside the meaning of the documented forms.
-/

namespace AgentGrid.Common

open AgentGrid.Store (isWhitespace trimChars trimChars_of_ends isWhitespace_of_isDigit)

/-! ## Bounds -/

theorem cmpRelease_eq_comm {a b : SemVer} : cmpRelease a b = .eq ↔ cmpRelease b a = .eq := by
  rw [cmpRelease_eq, cmpRelease_eq]
  exact ⟨fun h => ⟨h.1.symm, h.2.1.symm, h.2.2.symm⟩, fun h => ⟨h.1.symm, h.2.1.symm, h.2.2.symm⟩⟩

theorem ownTriple_iff {v r : SemVer} :
    ownTriple v r = true ↔ r.pre ≠ [] ∧ cmpRelease r v = .eq := by
  simp [ownTriple]

theorem prereleaseOk_iff {v r : SemVer} : prereleaseOk v r = true ↔ Gate v r := by
  rw [Gate, ownTriple_iff, cmpRelease_eq_comm]
  simp [prereleaseOk, and_comm]

theorem cmpPre_nil_right {pre : List Text} (h : pre ≠ []) : cmpPre pre [] = .lt := by
  cases pre with
  | nil => exact absurd rfl h
  | cons x pre => rfl

/-- Equal versions pass the gate. -/
theorem gate_of_eq {v r : SemVer} (h : cmpFull v r = .eq) : Gate v r := by
  obtain ⟨hrelease, hpre⟩ := Ordering.then_eq_eq.mp h
  by_cases hv : v.pre = []
  · exact .inl hv
  · refine .inr (ownTriple_iff.mpr ⟨fun hr => ?_, cmpRelease_eq_comm.mp hrelease⟩)
    rw [hr, cmpPre_nil_right hv] at hpre
    cases hpre

theorem release_not_lt {v r : SemVer} (h : cmpFull v r ≠ .lt) : cmpRelease v r ≠ .lt :=
  fun hrelease => h (Ordering.then_eq_lt.mpr (.inl hrelease))

/-- Past the gate a version is below a release above the requirement by its triple alone. -/
theorem below_release_iff {v r c : SemVer} (hgate : Gate v r) (hc : c.pre = [])
    (hrc : cmpRelease r c = .lt) : cmpFull v c = .lt ↔ cmpRelease v c = .lt := by
  rw [cmpFull, Ordering.then_eq_lt, hc]
  refine or_iff_left ?_
  rintro ⟨heq, hpre⟩
  rcases hgate with hv | hown
  · rw [hv] at hpre
    cases hpre
  · obtain ⟨hmajor, hminor, hpatch⟩ := cmpRelease_eq.mp (ownTriple_iff.mp hown).2
    obtain ⟨hmajor', hminor', hpatch'⟩ := cmpRelease_eq.mp heq
    have hsame : cmpRelease r c = .eq :=
      cmpRelease_eq.mpr ⟨hmajor.trans hmajor', hminor.trans hminor', hpatch.trans hpatch'⟩
    rw [hsame] at hrc
    cases hrc

theorem caretWithin_iff {v r : SemVer} (hgate : Gate v r) (hge : cmpRelease v r ≠ .lt) :
    caretWithin v r = true ↔ cmpFull v (caretCeil r) = .lt := by
  have hceil : (caretCeil r).pre = [] := by
    unfold caretCeil
    split
    · rfl
    · split <;> rfl
  have hrc : cmpRelease r (caretCeil r) = .lt := by
    rw [cmpRelease_lt]
    unfold caretCeil
    split
    · exact .inl (Nat.lt_succ_self _)
    · split
      · dsimp only
        omega
      · dsimp only
        omega
  rw [below_release_iff hgate hceil hrc, cmpRelease_lt]
  rw [ne_eq, cmpRelease_lt] at hge
  unfold caretWithin caretCeil
  split
  · rw [decide_eq_true_eq]
    dsimp only
    omega
  · split
    · simp only [Bool.and_eq_true, decide_eq_true_eq]
      omega
    · simp only [Bool.and_eq_true, decide_eq_true_eq]
      omega

theorem tildeCeil_iff {v r : SemVer} {body : Text} (hgate : Gate v r)
    (hge : cmpRelease v r ≠ .lt) :
    cmpFull v (tildeCeil body r) = .lt ↔
      v.major = r.major ∧ ((coreParts body).length = 1 ∨ v.minor = r.minor) := by
  have hceil : (tildeCeil body r).pre = [] := by
    unfold tildeCeil
    split <;> rfl
  have hrc : cmpRelease r (tildeCeil body r) = .lt := by
    rw [cmpRelease_lt]
    unfold tildeCeil
    split
    · exact .inl (Nat.lt_succ_self _)
    · exact .inr ⟨rfl, .inl (Nat.lt_succ_self _)⟩
  rw [below_release_iff hgate hceil hrc, cmpRelease_lt]
  rw [ne_eq, cmpRelease_lt] at hge
  unfold tildeCeil
  split
  · rename_i hone
    simp only [hone, true_or, and_true]
    omega
  · rename_i hone
    simp only [hone, false_or]
    omega

theorem cmpFull_release {v r : SemVer} (hv : v.pre = []) (hr : r.pre = []) :
    cmpFull v r = cmpRelease v r := by
  rw [cmpFull, hv, hr]
  exact Ordering.then_eq

theorem wildcardCeil_pre (nums : List Text) : (wildcardCeil nums).pre = [] := by
  unfold wildcardCeil
  split <;> rfl

theorem within_release_iff {v floor ceil : SemVer} (hv : v.pre = []) (hfloor : floor.pre = [])
    (hceil : ceil.pre = []) :
    Within v floor ceil ↔ cmpRelease v floor ≠ .lt ∧ cmpRelease v ceil = .lt := by
  rw [← cmpFull_release hv hfloor, ← cmpFull_release hv hceil]
  exact ⟨fun h => ⟨h.above, h.below⟩, fun h => ⟨h.1, h.2⟩⟩

theorem within_one_iff {v : SemVer} {p : Text} (hv : v.pre = []) :
    Within v (wildcardFloor [p]) (wildcardCeil [p]) ↔ v.major = digitsValue p := by
  have hzero : (wildcardFloor [p]).minor = 0 := rfl
  have hpatch : (wildcardFloor [p]).patch = 0 := rfl
  have hmajor : (wildcardFloor [p]).major = digitsValue p := rfl
  rw [within_release_iff hv rfl (wildcardCeil_pre _), ne_eq, cmpRelease_lt, cmpRelease_lt,
    wildcardCeil]
  simp only [hzero, hpatch, hmajor]
  omega

theorem within_two_iff {v : SemVer} {p p' : Text} (hv : v.pre = []) :
    Within v (wildcardFloor [p, p']) (wildcardCeil [p, p']) ↔
      v.major = digitsValue p ∧ v.minor = digitsValue p' := by
  have hminor : (wildcardFloor [p, p']).minor = digitsValue p' := rfl
  have hpatch : (wildcardFloor [p, p']).patch = 0 := rfl
  have hmajor : (wildcardFloor [p, p']).major = digitsValue p := rfl
  rw [within_release_iff hv rfl (wildcardCeil_pre _), ne_eq, cmpRelease_lt, cmpRelease_lt,
    wildcardCeil]
  · simp only [hminor, hpatch, hmajor]
    omega
  · simp

/-! ## One operator -/

/-- A word is trimmed, and a form that starts with anything but `>=` and `<=` is no set. -/
theorem isSet_of_word {s : Text} (hword : Form.IsWord s) (hge : ¬['>', '='] <+: s)
    (hle : ¬['<', '='] <+: s) : isSet s = false := by
  rw [isSet, Bool.or_eq_false_iff, Bool.or_eq_false_iff, decide_eq_false_iff_not]
  refine ⟨⟨fun hblank => ?_, ?_⟩, ?_⟩
  · exact absurd (hword ' ' hblank) (by decide)
  · rwa [← Bool.not_eq_true, List.isPrefixOf_iff_prefix]
  · rwa [← Bool.not_eq_true, List.isPrefixOf_iff_prefix]

theorem trimChars_of_word {s : Text} (hword : Form.IsWord s) : trimChars s = s :=
  trimChars_of_ends (fun c hc => hword c (List.mem_of_head? hc))
    fun c hc => hword c (List.mem_of_getLast? hc)

section Forms

variable {version req : Text}

/-- What decides a requirement that is no set. -/
theorem matches_form_iff (hne : trimChars req ≠ []) (hstar : trimChars req ≠ ['*'])
    (hset : isSet (trimChars req) = false) :
    versionMatchesReq version req = true ↔
      ∃ v, parseVersion version = some v ∧ matchForm v (trimChars req) = true := by
  rw [matches_iff (not_or.mpr ⟨hne, hstar⟩), hset]
  rfl

theorem matches_operator_iff {op : Char} {body : Text} (h : trimChars req = op :: body)
    (hword : Form.IsWord body) (hop : op ∈ ['=', '^', '~']) :
    versionMatchesReq version req = true ↔
      ∃ v, parseVersion version = some v ∧ matchForm v (op :: body) = true := by
  have hne : op ≠ '*' ∧ op ≠ '>' ∧ op ≠ '<' ∧ isWhitespace op = false := by
    simp only [List.mem_cons, List.not_mem_nil, or_false] at hop
    rcases hop with rfl | rfl | rfl <;> decide
  have hset : isSet (op :: body) = false := by
    refine isSet_of_word (List.forall_mem_cons.mpr ⟨hne.2.2.2, hword⟩) ?_ ?_
    · rintro ⟨rest, hrest⟩
      exact hne.2.1 (List.cons.inj hrest).1.symm
    · rintro ⟨rest, hrest⟩
      exact hne.2.2.1 (List.cons.inj hrest).1.symm
  rw [matches_form_iff (by rw [h]; exact List.cons_ne_nil _ _) ?_ (by rw [h]; exact hset), h]
  rw [h]
  intro hstar
  exact hne.1 (List.cons.inj hstar).1

theorem matches_equals_iff {body : Text} (h : trimChars req = '=' :: body)
    (hword : Form.IsWord body) :
    versionMatchesReq version req = true ↔
      ∃ v r, parseVersion version = some v ∧ parseVersion body = some r ∧ cmpFull v r = .eq := by
  rw [matches_operator_iff h hword (by decide)]
  refine exists_congr fun v => ?_
  rw [exists_and_left]
  refine and_congr_right fun _ => ?_
  show matchExact v (trimChars body) = true ↔ _
  rw [matchExact_iff, parseVersion_trim]

theorem matches_caret_iff {body : Text} (h : trimChars req = '^' :: body)
    (hword : Form.IsWord body) :
    versionMatchesReq version req = true ↔
      ∃ v r, parseVersion version = some v ∧ parseVersion body = some r ∧
        Within v r (caretCeil r) ∧ Gate v r := by
  rw [matches_operator_iff h hword (by decide)]
  refine exists_congr fun v => ?_
  rw [exists_and_left]
  refine and_congr_right fun _ => ?_
  show matchCaret v (trimChars body) = true ↔ _
  rw [matchCaret, parseVersion_trim]
  cases hr : parseVersion body with
  | none => simp
  | some r =>
      simp only [Bool.and_eq_true, bne_iff_ne, prereleaseOk_iff, Option.some_inj, exists_eq_left']
      constructor
      · rintro ⟨⟨hge, hwithin⟩, hgate⟩
        exact ⟨⟨hge, (caretWithin_iff hgate (release_not_lt hge)).mp hwithin⟩, hgate⟩
      · rintro ⟨⟨hge, hlt⟩, hgate⟩
        exact ⟨⟨hge, (caretWithin_iff hgate (release_not_lt hge)).mpr hlt⟩, hgate⟩

theorem dot_mem_of_parts {body : Text} (hword : Form.IsWord body)
    (h : (coreParts body).length ≠ 1) : '.' ∈ body := by
  by_contra hdot
  have hcore : '.' ∉ (cutAt '-' (cutAt '+' (versionBody body)).1).1 := by
    intro hmem
    have hbody := (List.takeWhile_prefix _).subset ((List.takeWhile_prefix _).subset hmem)
    rw [versionBody, trimChars_of_word hword] at hbody
    have hstrip : Form.IsWord (stripOr 'v' body) := by
      intro c hc
      rw [stripOr] at hc
      split at hc
      · exact hword c (List.mem_of_mem_drop hc)
      · exact hword c hc
    rw [trimChars_of_word hstrip, stripOr] at hbody
    split at hbody
    · exact hdot (List.mem_of_mem_drop hbody)
    · exact hdot hbody
  rw [coreParts, List.splitOn_eq_singleton hcore] at h
  exact h rfl

theorem matches_tilde_iff {body : Text} (h : trimChars req = '~' :: body)
    (hword : Form.IsWord body) :
    versionMatchesReq version req = true ↔
      ∃ v r, parseVersion version = some v ∧ parseVersion body = some r ∧
        (cmpRelease v r ≠ .lt ∧ cmpFull v (tildeCeil body r) = .lt ∧ Gate v r) ∧
          ¬((coreParts body).length = 1 ∧ '.' ∈ body ∧ v.minor ≠ r.minor) := by
  rw [matches_operator_iff h hword (by decide)]
  refine exists_congr fun v => ?_
  rw [exists_and_left]
  refine and_congr_right fun _ => ?_
  show matchTilde v (trimChars body) = true ↔ _
  rw [matchTilde, parseVersion_trim, trimChars_of_word hword]
  have hparts := dot_mem_of_parts hword
  cases hr : parseVersion body with
  | none => simp
  | some r =>
      simp only [Bool.and_eq_true, bne_iff_ne, prereleaseOk_iff, Option.some_inj, exists_eq_left',
        List.count_eq_zero]
      rw [and_assoc, and_assoc]
      refine and_congr_right fun hge => ?_
      rw [and_comm, and_assoc, and_comm (a := cmpFull _ _ = _), and_assoc]
      refine and_congr_right fun hgate => ?_
      rw [tildeCeil_iff hgate hge]
      by_cases hdot : '.' ∈ body
      · simp only [hdot, not_true_eq_false, if_false, Bool.and_eq_true, decide_eq_true_eq,
          true_and]
        by_cases hone : (coreParts body).length = 1
        · simp [hone, and_comm]
        · simp [hone]
      · have hone : (coreParts body).length = 1 := by
          by_contra hne
          exact hdot (hparts hne)
        simp [hdot, hone]

theorem matches_exact_iff {body : Text} (h : trimChars req = body)
    (hproper : (Form.exact body).Proper) :
    versionMatchesReq version req = true ↔
      ∃ v r, parseVersion version = some v ∧ parseVersion body = some r ∧
        cmpFull v r = .eq ∧ hasWild body = false := by
  obtain ⟨hword, hne, hop, hstar, hwild⟩ := hproper
  have hset : isSet body = false := by
    refine isSet_of_word hword ?_ ?_
    · rintro ⟨rest, rfl⟩
      cases hop
    · rintro ⟨rest, rfl⟩
      cases hop
  rw [matches_form_iff (by rwa [h]) (by rwa [h]) (by rwa [h]), h]
  refine exists_congr fun v => ?_
  rw [exists_and_left]
  refine and_congr_right fun _ => ?_
  rw [matchForm_plain hop]
  cases hw : hasWild body with
  | true => simp [matchWildcard, hwild]
  | false =>
      simp only [Bool.false_eq_true, if_false, and_true]
      exact matchExact_iff

/-! ## Wildcards -/

theorem wildcard_parts {nums : List Text} {wilds : List Char} {lead : Bool}
    (h : (Form.wildcard lead nums wilds).Proper) :
    ∀ p ∈ nums ++ wilds.map ([·]), isDigits p = true ∨ isWild p = true := by
  obtain ⟨hnums, hwilds, -, -, -⟩ := h
  intro p hp
  rcases List.mem_append.mp hp with hp | hp
  · exact .inl (hnums p hp)
  · obtain ⟨c, hc, rfl⟩ := List.mem_map.mp hp
    have hmem := hwilds c hc
    simp only [List.mem_cons, List.not_mem_nil, or_false] at hmem
    rcases hmem with rfl | rfl | rfl <;> exact .inr (by decide)

theorem mem_wildcard_part {p : Text} (h : isDigits p = true ∨ isWild p = true) {c : Char}
    (hc : c ∈ p) : c.isDigit = true ∨ c ∈ ['*', 'x', 'X'] := by
  rcases h with hdigits | hwild
  · exact .inl ((isDigits_iff.mp hdigits).2 c hc)
  · right
    rcases isWild_iff.mp hwild with rfl | rfl | rfl <;> simp_all

theorem not_isWild_of_isDigits {p : Text} (h : isDigits p = true) : isWild p = false := by
  by_contra hwild
  rw [Bool.not_eq_false, isWild_iff] at hwild
  rcases hwild with rfl | rfl | rfl <;> exact absurd h (by decide)

theorem isComponent_iff {p : Text} (hp : isDigits p = true) {n : Nat} (hn : n < 2 ^ 64) :
    isComponent p n = true ↔ n = digitsValue p := by
  rw [isComponent, parseU64_of_isDigits hp, decide_eq_true_eq]
  split
  · rw [Option.some_inj, eq_comm]
  · rename_i hbig
    refine iff_of_false nofun ?_
    rintro rfl
    exact hbig hn

/-- A part of a wildcard that the loop takes for a number. -/
theorem component_fits {p : Text} (hp : isDigits p = true) {n : Nat} (hn : n < 2 ^ 64)
    (h : n = digitsValue p) : (parseU64 p).isSome = true := by
  rw [parseU64_of_isDigits hp, if_pos (h ▸ hn)]
  rfl

theorem pre_of_matchWildcard {t : Text} {v : SemVer} (h : matchWildcard v t = true) :
    v.pre = [] := by
  rw [matchWildcard, Bool.and_eq_true] at h
  obtain ⟨hparses, hmatch⟩ := h
  have hparts := wildcardParts_of_parses hparses
  generalize t.splitOn '.' = parts at hparts hmatch
  cases hparts with
  | one _ _ =>
      rw [Bool.and_eq_true, decide_eq_true_eq] at hmatch
      exact hmatch.2
  | two _ _ _ =>
      rw [Bool.and_eq_true, decide_eq_true_eq] at hmatch
      exact hmatch.2

theorem and_congr_pre {a b c : Prop} (hab : a → b) (h : b → (a ↔ c)) : a ↔ b ∧ c :=
  ⟨fun ha => ⟨hab ha, (h (hab ha)).mp ha⟩, fun hbc => (h hbc.1).mpr hbc.2⟩

theorem matchWildcard_parts_iff {t : Text} {nums : List Text} {wilds : List Char} {lead : Bool}
    (hproper : (Form.wildcard lead nums wilds).Proper)
    (ht : t.splitOn '.' = nums ++ wilds.map ([·])) {v : SemVer} (hv : Parsed v) :
    matchWildcard v t = true ↔
      Within v (wildcardFloor nums) (wildcardCeil nums) ∧ v.pre = [] := by
  obtain ⟨hnums, hwilds, hnil, hnil', hlen⟩ := hproper
  have hstar : ∀ w ∈ wilds, isWild [w] = true ∧ isWild (cutAt '-' [w]).1 = true := by
    intro w hw
    have hmem := hwilds w hw
    simp only [List.mem_cons, List.not_mem_nil, or_false] at hmem
    rcases hmem with rfl | rfl | rfl <;> decide
  rw [and_comm]
  obtain ⟨p, nums, rfl⟩ := List.exists_cons_of_ne_nil hnil
  obtain ⟨w, wilds, rfl⟩ := List.exists_cons_of_ne_nil hnil'
  have hp := hnums p (List.mem_cons_self ..)
  have hw := hstar w (List.mem_cons_self ..)
  simp only [List.length_cons] at hlen
  refine and_congr_pre pre_of_matchWildcard fun hpre => ?_
  cases nums with
  | nil =>
      rw [within_one_iff hpre]
      cases wilds with
      | nil =>
          simp only [List.singleton_append, List.map_cons, List.map_nil] at ht
          simp [matchWildcard, wildcardParses, ht, wildcardLoop, hw, not_isWild_of_isDigits hp,
            isComponent_iff hp hv.major, hpre]
          exact component_fits hp hv.major
      | cons w' wilds =>
          cases wilds with
          | nil =>
              have hw' := hstar w' (List.mem_cons_of_mem _ (List.mem_cons_self ..))
              simp only [List.singleton_append, List.map_cons, List.map_nil] at ht
              simp [matchWildcard, wildcardParses, ht, wildcardLoop, hw, hw',
                not_isWild_of_isDigits hp, isComponent_iff hp hv.major, hpre]
              exact component_fits hp hv.major
          | cons w'' wilds => simp at hlen; omega
  | cons p' nums =>
      cases nums with
      | nil =>
          have hp' := hnums p' (List.mem_cons_of_mem _ (List.mem_cons_self ..))
          rw [within_two_iff hpre]
          cases wilds with
          | nil =>
              simp only [List.cons_append, List.nil_append, List.map_cons, List.map_nil] at ht
              simp [matchWildcard, wildcardParses, ht, wildcardLoop, hw, not_isWild_of_isDigits hp,
                not_isWild_of_isDigits hp', isComponent_iff hp hv.major,
                isComponent_iff hp' hv.minor, hpre]
              intro hmajor hminor
              exact ⟨component_fits hp hv.major hmajor, component_fits hp' hv.minor hminor⟩
          | cons w' wilds => simp at hlen; omega
      | cons p'' nums => simp at hlen; omega

theorem mem_intercalate_of_mem {sep : Text} {parts : List Text} {p : Text} {c : Char}
    (hp : p ∈ parts) (hc : c ∈ p) : c ∈ sep.intercalate parts := by
  induction parts with
  | nil => cases hp
  | cons part parts ih =>
      cases parts with
      | nil =>
          obtain rfl := List.mem_singleton.mp hp
          rwa [List.intercalate_singleton]
      | cons part' parts =>
          rw [List.intercalate_cons_cons]
          rcases List.mem_cons.mp hp with rfl | hp
          · exact List.mem_append_left _ (List.mem_append_left _ hc)
          · exact List.mem_append_right _ (ih hp)

theorem head?_spell_wildcard {nums : List Text} {wilds : List Char} {lead : Bool}
    (h : (Form.wildcard lead nums wilds).Proper) :
    ∃ c, (Form.wildcard lead nums wilds).spell.head? = some c ∧
      (c = 'v' ∧ lead = true ∨ c.isDigit = true ∧ lead = false) := by
  cases lead with
  | true => exact ⟨'v', rfl, .inl ⟨rfl, rfl⟩⟩
  | false =>
      obtain ⟨p, nums, rfl⟩ := List.exists_cons_of_ne_nil h.2.2.1
      have hp := isDigits_iff.mp (h.1 p (List.mem_cons_self ..))
      obtain ⟨c, rest, rfl⟩ := List.exists_cons_of_ne_nil hp.1
      refine ⟨c, ?_, .inr ⟨hp.2 c (List.mem_cons_self ..), rfl⟩⟩
      rw [Form.spell, List.cons_append]
      cases nums ++ wilds.map ([·]) with
      | nil => rw [List.intercalate_singleton]; rfl
      | cons p' parts => rw [List.intercalate_cons_cons]; rfl

theorem isWord_spell_wildcard {nums : List Text} {wilds : List Char} {lead : Bool}
    (h : (Form.wildcard lead nums wilds).Proper) :
    Form.IsWord (Form.wildcard lead nums wilds).spell := by
  intro c hc
  rcases List.mem_append.mp hc with hc | hc
  · split at hc
    · obtain rfl := List.mem_singleton.mp hc
      decide
    · cases hc
  · rcases mem_intercalate hc with rfl | ⟨p, hp, hc⟩
    · decide
    · rcases mem_wildcard_part (wildcard_parts h p hp) hc with hdigit | hwild
      · exact isWhitespace_of_isDigit hdigit
      · simp only [List.mem_cons, List.not_mem_nil, or_false] at hwild
        rcases hwild with rfl | rfl | rfl <;> decide

theorem hasWild_spell_wildcard {nums : List Text} {wilds : List Char} {lead : Bool}
    (h : (Form.wildcard lead nums wilds).Proper) :
    hasWild (Form.wildcard lead nums wilds).spell = true := by
  obtain ⟨w, wilds, rfl⟩ := List.exists_cons_of_ne_nil h.2.2.2.1
  have hmem : w ∈ (Form.wildcard lead nums (w :: wilds)).spell := by
    refine List.mem_append_right _
      (mem_intercalate_of_mem (p := [w]) ?_ (List.mem_singleton_self w))
    exact List.mem_append_right _ (List.mem_cons_self ..)
  have hw := h.2.1 w (List.mem_cons_self ..)
  simp only [List.mem_cons, List.not_mem_nil, or_false] at hw
  rw [hasWild]
  rcases hw with rfl | rfl | rfl <;> simp only [hmem, decide_true, Bool.or_true, Bool.true_or]

theorem splitOn_spell_wildcard {nums : List Text} {wilds : List Char}
    (h : (Form.wildcard false nums wilds).Proper) :
    (Form.wildcard false nums wilds).spell.splitOn '.' = nums ++ wilds.map ([·]) := by
  refine List.splitOn_intercalate '.' (fun p hp hdot => ?_) ?_
  · rcases mem_wildcard_part (wildcard_parts h p hp) hdot with hdigit | hwild
    · exact absurd hdigit (by decide)
    · exact absurd hwild (by decide)
  · intro hnil
    exact h.2.2.1 (List.append_eq_nil_iff.mp hnil).1

theorem matches_wildcard_iff {nums : List Text} {wilds : List Char} {lead : Bool}
    (h : trimChars req = (Form.wildcard lead nums wilds).spell)
    (hproper : (Form.wildcard lead nums wilds).Proper) :
    versionMatchesReq version req = true ↔
      ∃ v, parseVersion version = some v ∧
        (Within v (wildcardFloor nums) (wildcardCeil nums) ∧ v.pre = []) ∧ lead = false := by
  obtain ⟨c, hhead, hc⟩ := head?_spell_wildcard hproper
  have hplain : isOperator c = false ∧ c ≠ '*' ∧ c ≠ '>' ∧ c ≠ '<' := by
    rcases hc with ⟨rfl, -⟩ | ⟨hdigit, -⟩
    · decide
    · have hne : ∀ c' : Char, c'.isDigit = false → c ≠ c' := by
        rintro c' hc' rfl
        rw [hdigit] at hc'
        cases hc'
      refine ⟨?_, hne _ (by decide), hne _ (by decide), hne _ (by decide)⟩
      simp only [isOperator, List.mem_cons, List.not_mem_nil, or_false, decide_eq_false_iff_not,
        not_or]
      exact ⟨hne _ (by decide), hne _ (by decide), hne _ (by decide), hne _ (by decide),
        hne _ (by decide)⟩
  have hset : isSet (Form.wildcard lead nums wilds).spell = false := by
    refine isSet_of_word (isWord_spell_wildcard hproper) ?_ ?_
    · rintro ⟨rest, hrest⟩
      rw [← hrest] at hhead
      exact hplain.2.2.1 (Option.some_inj.mp hhead).symm
    · rintro ⟨rest, hrest⟩
      rw [← hrest] at hhead
      exact hplain.2.2.2 (Option.some_inj.mp hhead).symm
  have hne : (Form.wildcard lead nums wilds).spell ≠ [] := by
    intro hnil
    rw [hnil] at hhead
    cases hhead
  have hstar : (Form.wildcard lead nums wilds).spell ≠ ['*'] := by
    intro hstar
    rw [hstar] at hhead
    exact hplain.2.1 (Option.some_inj.mp hhead).symm
  rw [matches_form_iff (by rwa [h]) (by rwa [h]) (by rwa [h]), h]
  refine exists_congr fun v => and_congr_right fun hv => ?_
  rw [matchForm_plain (by rw [hhead, Option.any_some, hplain.1]), hasWild_spell_wildcard hproper,
    if_pos rfl]
  cases lead with
  | true =>
      refine iff_of_false (fun hmatch => ?_) (fun hand => by cases hand.2)
      rw [matchWildcard, Bool.and_eq_true] at hmatch
      exact notMem_of_wildcard hmatch.1 (c := 'v') (by decide) (List.mem_cons_self ..)
  | false =>
      rw [matchWildcard_parts_iff hproper (splitOn_spell_wildcard hproper) (parsed_of_parse hv)]
      exact (and_iff_left rfl).symm

/-! ## Comparators -/

theorem matchComparator_text_iff {part : Part} (hshape : splitComparator part.text = part)
    (hword : Form.IsWord part.2) {v : SemVer} :
    matchComparator v part.text = true ↔ ∃ r, parseVersion part.2 = some r ∧ part.1.Holds v r := by
  obtain ⟨op, body⟩ := part
  unfold matchComparator
  rw [hshape]
  cases op with
  | ge =>
      refine matchSingleComparator_iff.trans (exists_congr fun r => and_congr_right fun _ => ?_)
      simp only [or_true, true_and, Bool.false_eq_true, if_false, Comparator.Holds]
      cases cmpFull v r <;> decide
  | le =>
      refine matchSingleComparator_iff.trans (exists_congr fun r => and_congr_right fun _ => ?_)
      simp only [or_true, true_and, if_true, Comparator.Holds]
      cases cmpFull v r <;> decide
  | gt =>
      refine matchSingleComparator_iff.trans (exists_congr fun r => and_congr_right fun _ => ?_)
      simp [Comparator.Holds]
  | lt =>
      refine matchSingleComparator_iff.trans (exists_congr fun r => and_congr_right fun _ => ?_)
      simp [Comparator.Holds]
  | eq =>
      dsimp only
      rw [trimChars_of_word hword]
      exact matchExact_iff
  | bare => exact matchExact_iff

/-- The gate of a set: a release, or a comparator that names the triple with a pre-release. -/
theorem setAllows_iff {parts : List Part} (hproper : ∀ part ∈ parts, Form.ProperPart part)
    {req : Text} (hwords : words req = parts.map Part.text) {v : SemVer} :
    setAllowsPrerelease v req = true ↔ v.pre = [] ∨ ∃ part ∈ parts, ∃ r,
      parseVersion part.2 = some r ∧ ownTriple v r = true := by
  rw [setAllowsPrerelease, hwords, Bool.or_eq_true, decide_eq_true_eq, List.any_map,
    List.any_eq_true]
  refine or_congr_right (exists_congr fun part => and_congr_right fun hpart => ?_)
  have hbody : comparatorBody part.text = trimChars part.2 := by
    rw [comparatorBody, (hproper part hpart).shape]
  rw [Function.comp_apply, hbody, parseVersion_trim, Option.any_eq_true]

theorem matchComparators_iff {parts : List Part} (hproper : ∀ part ∈ parts, Form.ProperPart part)
    {req : Text} (hwords : words req = parts.map Part.text) {v : SemVer} :
    matchComparators v req = true ↔
      (∀ part ∈ parts, ∃ r, parseVersion part.2 = some r ∧ part.1.Holds v r) ∧
        (v.pre = [] ∨ ∃ part ∈ parts, ∃ r,
          parseVersion part.2 = some r ∧ ownTriple v r = true) := by
  rw [matchComparators, Bool.and_eq_true, setAllows_iff hproper hwords, hwords, and_comm,
    List.all_map, List.all_eq_true]
  refine and_congr_left fun _ => forall_congr' fun part => forall_congr' fun hpart => ?_
  exact matchComparator_text_iff (hproper part hpart).shape (hproper part hpart).word

theorem words_intercalate {parts : List Text} (h : ∀ p ∈ parts, Form.IsWord p ∧ p ≠ []) :
    words ([' '].intercalate parts) = parts := by
  induction parts with
  | nil =>
      rw [List.intercalate_nil, words, List.splitOnP_nil]
      rfl
  | cons p parts ih =>
      obtain ⟨⟨hword, hne⟩, hrest⟩ := List.forall_mem_cons.mp h
      cases parts with
      | nil =>
          rw [List.intercalate_singleton]
          exact words_of_word hne hword
      | cons p' parts =>
          have hsplit := ih hrest
          rw [words] at hsplit ⊢
          rw [List.intercalate_cons_cons, List.append_assoc, List.singleton_append,
            List.splitOnP_append_cons_of_forall_mem hword ' ' (by decide),
            List.filter_cons_of_pos (by simpa using hne), hsplit]

theorem isWord_partText {part : Part} (h : Form.ProperPart part) : Form.IsWord part.text := by
  intro c hc
  rcases List.mem_append.mp hc with hc | hc
  · have hall : ∀ op : Comparator, ∀ c ∈ op.text, isWhitespace c = false := by
      intro op
      cases op <;> simp [Comparator.text] <;> decide
    exact hall _ c hc
  · exact h.word c hc

/-- A set of comparators is matched as one. -/
theorem matches_set_iff {parts : List Part} (hproper : ∀ part ∈ parts, Form.ProperPart part)
    (h : trimChars req = (Form.comparators parts).spell) (hset : isSet (trimChars req) = true) :
    versionMatchesReq version req = true ↔
      ∃ v, parseVersion version = some v ∧
        (∀ part ∈ parts, ∃ r, parseVersion part.2 = some r ∧ part.1.Holds v r) ∧
          (v.pre = [] ∨ ∃ part ∈ parts, ∃ r,
            parseVersion part.2 = some r ∧ ownTriple v r = true) := by
  have hne : ¬(trimChars req = [] ∨ trimChars req = ['*']) := by
    rintro (hnil | hstar)
    · rw [hnil] at hset
      cases hset
    · rw [hstar] at hset
      exact absurd hset (by decide)
  have hwords : words (trimChars req) = parts.map Part.text := by
    rw [h, Form.spell, words_intercalate]
    intro p hp
    obtain ⟨part, hpart, rfl⟩ := List.mem_map.mp hp
    exact ⟨isWord_partText (hproper part hpart), (hproper part hpart).ne_nil⟩
  rw [matches_iff hne]
  refine exists_congr fun v => and_congr_right fun _ => ?_
  rw [if_pos hset, matchComparators_iff hproper hwords]

/-- A lone strict comparator is matched on its own. -/
theorem matches_lone_iff {op : Comparator} {body : Text} (hop : op = .gt ∨ op = .lt)
    (hproper : Form.ProperPart (op, body)) (h : trimChars req = op.text ++ body) :
    versionMatchesReq version req = true ↔
      ∃ v, parseVersion version = some v ∧
        ∃ r, parseVersion body = some r ∧ (v.pre = [] ∨ ownTriple v r = true) ∧ op.Holds v r := by
  have hset : isSet (op.text ++ body) = false := by
    refine isSet_of_word (isWord_partText hproper) ?_ ?_
    · rintro ⟨rest, hrest⟩
      have hshape := hproper.shape
      rw [Part.text, ← hrest] at hshape
      rcases hop with rfl | rfl <;> cases hshape
    · rintro ⟨rest, hrest⟩
      have hshape := hproper.shape
      rw [Part.text, ← hrest] at hshape
      rcases hop with rfl | rfl <;> cases hshape
  have hne : op.text ++ body ≠ [] := hproper.ne_nil
  have hstar : op.text ++ body ≠ ['*'] := by
    rcases hop with rfl | rfl <;>
      · intro hstar
        exact absurd (List.cons.inj hstar).1 (by decide)
  rw [matches_form_iff (by rwa [h]) (by rwa [h]) (by rwa [h]), h]
  refine exists_congr fun v => and_congr_right fun _ => ?_
  rcases hop with rfl | rfl
  · exact matchForm_above
  · exact matchForm_below

theorem matches_comparators_iff {parts : List Part} (hproper : (Form.comparators parts).Proper)
    (h : trimChars req = (Form.comparators parts).spell) :
    versionMatchesReq version req = true ↔
      ∃ v, parseVersion version = some v ∧
        (∀ part ∈ parts, ∃ r, parseVersion part.2 = some r ∧ part.1.Holds v r) ∧
          (v.pre = [] ∨ ∃ part ∈ parts, ∃ r,
            parseVersion part.2 = some r ∧ ownTriple v r = true) := by
  obtain ⟨hparts, hlong | ⟨⟨op, body⟩, rfl, heq, hbare⟩⟩ := hproper
  · refine matches_set_iff hparts h ?_
    obtain ⟨part, part', rest, rfl⟩ : ∃ part part' rest, parts = part :: part' :: rest := by
      match parts, hlong with
      | part :: part' :: rest, _ => exact ⟨part, part', rest, rfl⟩
    have hblank : ' ' ∈ (Form.comparators (part :: part' :: rest)).spell := by
      rw [Form.spell, List.map_cons, List.map_cons, List.intercalate_cons_cons]
      exact List.mem_append_left _ (List.mem_append_right _ (List.mem_singleton_self ' '))
    rw [h, isSet]
    simp only [hblank, decide_true, Bool.true_or]
  · have hpart := hparts _ (List.mem_singleton_self _)
    have hspell : (Form.comparators [(op, body)]).spell = op.text ++ body := by
      rw [Form.spell, List.map_cons, List.map_nil, List.intercalate_singleton]
      rfl
    rw [hspell] at h
    have hlone : op = .gt ∨ op = .lt → (versionMatchesReq version req = true ↔
        ∃ v, parseVersion version = some v ∧
          (∀ part ∈ [(op, body)], ∃ r, parseVersion part.2 = some r ∧ part.1.Holds v r) ∧
            (v.pre = [] ∨ ∃ part ∈ [(op, body)], ∃ r,
              parseVersion part.2 = some r ∧ ownTriple v r = true)) := by
      intro hop
      rw [matches_lone_iff hop hpart h]
      refine exists_congr fun v => and_congr_right fun _ => ?_
      simp only [List.mem_singleton, forall_eq, exists_eq_left]
      cases hr : parseVersion body with
      | none => simp
      | some r => simp [and_comm]
    have hset : ∀ op : Comparator, op = .ge ∨ op = .le → isSet (op.text ++ body) = true := by
      rintro op (rfl | rfl) <;> simp [isSet, Comparator.text]
    cases op with
    | ge => exact matches_set_iff hparts (h.trans hspell.symm) (h ▸ hset .ge (.inl rfl))
    | le => exact matches_set_iff hparts (h.trans hspell.symm) (h ▸ hset .le (.inr rfl))
    | gt => exact hlone (.inl rfl)
    | lt => exact hlone (.inr rfl)
    | eq => exact absurd rfl heq
    | bare => exact absurd rfl hbare

end Forms

/-! ## Agreement -/

theorem agree_one {α : Type} {o : Option α} {P Q : α → Prop} :
    ((∃ v, o = some v ∧ P v) ↔ ∃ v, o = some v ∧ Q v) ↔ ∀ v, o = some v → (P v ↔ Q v) := by
  cases o with
  | none => simp
  | some v => simp

theorem agree_two {α β : Type} {o : Option α} {o' : Option β} {P Q : α → β → Prop} :
    ((∃ v r, o = some v ∧ o' = some r ∧ P v r) ↔ ∃ v r, o = some v ∧ o' = some r ∧ Q v r) ↔
      ∀ v r, o = some v → o' = some r → (P v r ↔ Q v r) := by
  cases o with
  | none => simp
  | some v =>
      cases o' with
      | none => simp
      | some r => simp

theorem reads_two {s t : Text} {P : SemVer → SemVer → Prop} :
    (∃ v r, Reads s v ∧ Reads t r ∧ P v r) ↔
      ∃ v r, parseVersion s = some v ∧ parseVersion t = some r ∧
        (Numeric s ∧ Numeric t) ∧ P v r := by
  constructor
  · rintro ⟨v, r, ⟨hv, hs⟩, ⟨hr, ht⟩, hp⟩
    exact ⟨v, r, hv, hr, ⟨hs, ht⟩, hp⟩
  · rintro ⟨v, r, hv, hr, ⟨hs, ht⟩, hp⟩
    exact ⟨v, r, ⟨hv, hs⟩, ⟨hr, ht⟩, hp⟩

theorem eq_gate_iff {v r : SemVer} : cmpFull v r = .eq ∧ Gate v r ↔ cmpFull v r = .eq :=
  and_iff_left_of_imp gate_of_eq

section Agreement

variable {version req : Text}

theorem agrees_exact {body : Text} (h : trimChars req = body)
    (hproper : (Form.exact body).Proper) :
    (versionMatchesReq version req = true ↔ (Form.exact body).Meant version) ↔
      (Form.exact body).Sound version := by
  rw [matches_exact_iff h hproper, Form.Meant, reads_two, agree_two]
  refine forall_congr' fun v => forall_congr' fun r => imp_congr_right fun _ =>
    imp_congr_right fun _ => ?_
  rw [eq_gate_iff]
  by_cases heq : cmpFull v r = .eq
  · simp only [heq, true_and, and_true, true_imp_iff]
    exact iff_comm
  · simp [heq]

theorem agrees_equals {body : Text} (h : trimChars req = '=' :: body)
    (hword : Form.IsWord body) :
    (versionMatchesReq version req = true ↔ (Form.equals body).Meant version) ↔
      (Form.equals body).Sound version := by
  rw [matches_equals_iff h hword, Form.Meant, reads_two, agree_two]
  refine forall_congr' fun v => forall_congr' fun r => imp_congr_right fun _ =>
    imp_congr_right fun _ => ?_
  rw [eq_gate_iff]
  exact iff_and_self

theorem agrees_caret {body : Text} (h : trimChars req = '^' :: body)
    (hword : Form.IsWord body) :
    (versionMatchesReq version req = true ↔ (Form.caret body).Meant version) ↔
      (Form.caret body).Sound version := by
  rw [matches_caret_iff h hword, Form.Meant, reads_two, agree_two]
  refine forall_congr' fun v => forall_congr' fun r => imp_congr_right fun _ =>
    imp_congr_right fun _ => ?_
  rw [iff_and_self, and_imp]

theorem agrees_tilde {body : Text} (h : trimChars req = '~' :: body)
    (hword : Form.IsWord body) :
    (versionMatchesReq version req = true ↔ (Form.tilde body).Meant version) ↔
      (Form.tilde body).Sound version := by
  rw [matches_tilde_iff h hword, Form.Meant, reads_two, agree_two]
  refine forall_congr' fun v => forall_congr' fun r => imp_congr_right fun _ =>
    imp_congr_right fun _ => ?_
  by_cases hnear : cmpRelease v r ≠ .lt ∧ cmpFull v (tildeCeil body r) = .lt ∧ Gate v r
  · have hwithin : Within v r (tildeCeil body r) ↔ cmpFull v r ≠ .lt :=
      ⟨fun hw => hw.above, fun hge => ⟨hge, hnear.2.1⟩⟩
    rw [hwithin, and_iff_right hnear, and_iff_left hnear.2.2, and_assoc]
    exact ⟨fun hiff _ _ _ => hiff.symm, fun hsound => (hsound hnear.1 hnear.2.1 hnear.2.2).symm⟩
  · refine iff_of_true (iff_of_false (fun hand => hnear hand.1) ?_) ?_
    · rintro ⟨-, hwithin, hgate⟩
      exact hnear ⟨release_not_lt hwithin.above, hwithin.below, hgate⟩
    · intro hrel hlt hgate
      exact absurd ⟨hrel, hlt, hgate⟩ hnear

theorem agrees_wildcard {nums : List Text} {wilds : List Char} {lead : Bool}
    (h : trimChars req = (Form.wildcard lead nums wilds).spell)
    (hproper : (Form.wildcard lead nums wilds).Proper) :
    (versionMatchesReq version req = true ↔ (Form.wildcard lead nums wilds).Meant version) ↔
      (Form.wildcard lead nums wilds).Sound version := by
  rw [matches_wildcard_iff h hproper, Form.Meant]
  simp only [Reads, and_assoc]
  rw [agree_one]
  refine forall_congr' fun v => imp_congr_right fun _ => ?_
  by_cases hin : Within v (wildcardFloor nums) (wildcardCeil nums) ∧ v.pre = []
  · simp only [hin.1, hin.2, true_and, and_true, true_imp_iff]
    exact iff_comm
  · refine iff_of_true (iff_of_false (fun hand => hin ⟨hand.1, hand.2.1⟩)
      fun hand => hin hand.2) ?_
    intro hwithin hpre
    exact absurd ⟨hwithin, hpre⟩ hin

/-- With numbers for components a set means what its parts are read as. -/
theorem meant_parts_iff {parts : List Part} {v : SemVer} :
    (Numeric version ∧ (∀ part ∈ parts, ∃ r, Reads part.2 r ∧ part.1.Holds v r) ∧
        (v.pre = [] ∨ ∃ part ∈ parts, ∃ r, Reads part.2 r ∧ ownTriple v r = true)) ↔
      (Numeric version ∧ ∀ part ∈ parts, Numeric part.2) ∧
        (∀ part ∈ parts, ∃ r, parseVersion part.2 = some r ∧ part.1.Holds v r) ∧
          (v.pre = [] ∨ ∃ part ∈ parts, ∃ r,
            parseVersion part.2 = some r ∧ ownTriple v r = true) := by
  constructor
  · rintro ⟨hversion, hall, hgate⟩
    refine ⟨⟨hversion, fun part hpart => ?_⟩, fun part hpart => ?_, hgate.imp id ?_⟩
    · obtain ⟨r, hr, -⟩ := hall part hpart
      exact hr.2
    · obtain ⟨r, hr, hholds⟩ := hall part hpart
      exact ⟨r, hr.1, hholds⟩
    · rintro ⟨part, hpart, r, hr, hown⟩
      exact ⟨part, hpart, r, hr.1, hown⟩
  · rintro ⟨⟨hversion, hnumeric⟩, hall, hgate⟩
    refine ⟨hversion, fun part hpart => ?_, hgate.imp id ?_⟩
    · obtain ⟨r, hr, hholds⟩ := hall part hpart
      exact ⟨r, ⟨hr, hnumeric part hpart⟩, hholds⟩
    · rintro ⟨part, hpart, r, hr, hown⟩
      exact ⟨part, hpart, r, ⟨hr, hnumeric part hpart⟩, hown⟩

theorem agrees_comparators {parts : List Part} (hproper : (Form.comparators parts).Proper)
    (h : trimChars req = (Form.comparators parts).spell) :
    (versionMatchesReq version req = true ↔ (Form.comparators parts).Meant version) ↔
      (Form.comparators parts).Sound version := by
  have hmeant : (Form.comparators parts).Meant version ↔
      ∃ v, parseVersion version = some v ∧ Numeric version ∧
        (∀ part ∈ parts, ∃ r, Reads part.2 r ∧ part.1.Holds v r) ∧
          (v.pre = [] ∨ ∃ part ∈ parts, ∃ r, Reads part.2 r ∧ ownTriple v r = true) :=
    exists_congr fun v => and_assoc
  rw [matches_comparators_iff hproper h, hmeant, agree_one]
  refine forall_congr' fun v => imp_congr_right fun _ => ?_
  rw [meant_parts_iff, iff_and_self, and_imp]

end Agreement

/-- A version whose components are numbers means itself. -/
theorem meant_self {s : Text} {v : SemVer} (h : Reads s v) : (Form.exact s).Meant s :=
  ⟨v, v, h, h, cmpFull_self v, gate_of_eq (cmpFull_self v)⟩

theorem isWord_of_all {s : Text} (h : (s.all fun c => !isWhitespace c) = true) : Form.IsWord s := by
  intro c hc
  have hc' := List.all_eq_true.mp h c hc
  rwa [Bool.not_eq_true'] at hc'

def caretOneTwo : Requirement := ⟨.caret "1.2.0".toList, isWord_of_all (by decide)⟩

def fixOne : Text := "1.0.0-fix.1".toList

/-- The requirement that spells a version with an `x` among its identifiers. -/
def exactFix : Requirement :=
  ⟨.exact fixOne, isWord_of_all (by decide), by decide, by decide, by decide, by decide⟩

end AgentGrid.Common
