import Mathlib.Data.List.Chain
import Mathlib.Data.List.Infix
import AgentGrid.Node.Respelling

/-!
# The guard under rewritings of a command

A rewriting puts wrappers before a segment and writes its short-flag clusters in
another order or in parts.  The guard sees through it exactly when every word
before the segment is a wrapper or an option and no cluster is split that the
wrappers do not carry themselves.
-/

namespace AgentGrid.Node

/-! ## Rewritings -/

/-- The letters of short flags. -/
def FlagLetters (letters : List Char) : Prop :=
  letters ≠ [] ∧ ∀ c ∈ letters, c.isAlphanum = true

/-- A token as it stands, or a cluster of short flags in another order or in
several clusters. -/
def Respells (token : Token) (written : List Token) : Prop :=
  written = [token] ∨ ∃ letters parts, token = '-' :: letters ∧ FlagLetters letters ∧
    parts ≠ [] ∧ (∀ part ∈ parts, part ≠ []) ∧ parts.flatten.Perm letters ∧
    written = parts.map ('-' :: ·)

/-- Words before a segment, a wrapper first with whatever it is given after it, and
how the token at each place of the segment is written. -/
structure Rewriting where
  wrap : List Token
  write : Nat → Token → List Token
  wraps : ∀ t, wrap.head? = some t → isWrapper t = true
  respells : ∀ i t, Respells t (write i t)

namespace Rewriting

def tokensFrom (w : Rewriting) : Nat → List Token → List Token
  | _, [] => []
  | i, t :: ts => w.write i t ++ w.tokensFrom (i + 1) ts

/-- The tokens of the rewritten segment. -/
def tokens (w : Rewriting) (ts : List Token) : List Token := w.wrap ++ w.tokensFrom 0 ts

/-- The words before the segment are wrappers and options only. -/
def Bare (w : Rewriting) : Prop := ∀ t ∈ w.wrap, isWrapper t = true ∨ isOption t = true

/-- A cluster stays one token, or the wrappers carry it as well. -/
def Unsplit (w : Rewriting) : Prop :=
  ∀ i t, 1 ≤ i → (w.write i t).length = 1 ∨ normalizeToken t ∈ w.wrap.map normalizeToken

end Rewriting

/-- Some deny pattern describes the segment. -/
def CommandGuard.Denies (g : CommandGuard) (tokens : List Token) : Prop :=
  ∃ pat ∈ g.deny, segmentMatches pat tokens = true

/-- A segment that begins with a command, not with an option. -/
def Headed (tokens : List Token) : Prop := ∀ t, tokens.head? = some t → isOption t = false

/-- Whatever the guard and the command, what is denied stays denied when the
segment is rewritten, in any spelling and any line. -/
def SeenThrough (w : Rewriting) : Prop :=
  ∀ (deny allow : List String) (cmd : List Char), ∀ seg ∈ splitSegments cmd, Headed seg.tokens →
    (CommandGuard.ofLists deny allow).Denies seg.tokens →
    ∀ (pre post : List Char) (new : SpelledSegment), Opens pre → Closes post →
      new.values = w.tokens seg.tokens →
      (CommandGuard.ofLists deny allow).decide (pre ++ (new.text ++ post)) ≠ .allowed

/-! ## Flags -/

theorem isOption_cluster (letters : List Char) : isOption ('-' :: letters) = true := by
  simp [isOption]

theorem Respells.of_command {token : Token} {written : List Token} (h : Respells token written)
    (htoken : isOption token = false) : written = [token] := by
  rcases h with h | ⟨letters, parts, rfl, -⟩
  · exact h
  · rw [isOption_cluster] at htoken
    cases htoken

theorem Respells.options {token : Token} {written : List Token} (h : Respells token written)
    (htoken : isOption token = true) : ∀ t ∈ written, isOption t = true := by
  rcases h with rfl | ⟨letters, parts, -, -, -, -, -, rfl⟩
  · intro t ht
    rw [List.mem_singleton.mp ht]
    exact htoken
  · intro t ht
    obtain ⟨part, -, rfl⟩ := List.mem_map.mp ht
    exact isOption_cluster part

theorem normalize_cluster {letters : List Char} (h : FlagLetters letters) :
    normalizeToken ('-' :: letters) = '-' :: letters.insertionSort (· ≤ ·) := by
  obtain ⟨hne, hletters⟩ := h
  rw [normalizeToken]
  split
  · rfl
  · rename_i hshort
    obtain ⟨c, rest, rfl⟩ := List.exists_cons_of_ne_nil hne
    have hfirst : (c :: rest).head? ≠ some '-' := by
      rintro hdash
      have hc := hletters c List.mem_cons_self
      rw [Option.some.inj hdash] at hc
      exact absurd hc (by decide)
    have hone : rest = [] := by
      cases rest with
      | nil => rfl
      | cons d rest =>
          have hdash := Char.utf8Size_pos '-'
          have hc := Char.utf8Size_pos c
          have hd := Char.utf8Size_pos d
          refine absurd ⟨?_, hfirst⟩ hshort
          simp only [utf8Bytes, List.map_cons, List.sum_cons]
          omega
    subst hone
    rfl

theorem FlagLetters.perm {letters letters' : List Char} (h : FlagLetters letters)
    (hperm : letters'.Perm letters) : FlagLetters letters' := by
  refine ⟨?_, fun c hc => h.2 c (hperm.subset hc)⟩
  rintro rfl
  exact h.1 hperm.nil_eq.symm

/-- Sorted, two orders of the same letters are the same token. -/
theorem normalize_perm {letters letters' : List Char} (h : FlagLetters letters)
    (hperm : letters'.Perm letters) :
    normalizeToken ('-' :: letters') = normalizeToken ('-' :: letters) := by
  rw [normalize_cluster h, normalize_cluster (h.perm hperm)]
  congr 1
  have hsort : (letters'.insertionSort (· ≤ ·)).Perm (letters.insertionSort (· ≤ ·)) :=
    (List.perm_insertionSort _ _).trans (hperm.trans (List.perm_insertionSort _ _).symm)
  exact hsort.eq_of_pairwise' (List.pairwise_insertionSort _ _) (List.pairwise_insertionSort _ _)

theorem Respells.normalize {token : Token} {written : List Token} (h : Respells token written)
    (hone : written.length = 1) : ∃ t, written = [t] ∧ normalizeToken t = normalizeToken token := by
  rcases h with rfl | ⟨letters, parts, rfl, hletters, -, -, hperm, rfl⟩
  · exact ⟨token, rfl, rfl⟩
  · rw [List.length_map] at hone
    obtain ⟨part, rfl⟩ := List.length_eq_one_iff.mp hone
    refine ⟨'-' :: part, rfl, normalize_perm hletters ?_⟩
    simpa using hperm

/-! ## Command words -/

theorem commandWordFrom_options {options : List Token} (h : ∀ t ∈ options, isOption t = true)
    (ts : List Token) : commandWordFrom true (options ++ ts) = commandWordFrom true ts := by
  induction options with
  | nil => rfl
  | cons t options ih =>
      rw [List.cons_append, commandWordFrom, h t List.mem_cons_self]
      simpa using ih fun t ht => h t (List.mem_cons_of_mem _ ht)

theorem commandWordFrom_headed {ts : List Token} (h : Headed ts) :
    commandWordFrom true ts = commandWordFrom false ts := by
  cases ts with
  | nil => rfl
  | cons t ts => simp [commandWordFrom, h t rfl]

theorem commandWordFrom_bare {wrap : List Token}
    (h : ∀ t ∈ wrap, isWrapper t = true ∨ isOption t = true) (ts : List Token) :
    commandWordFrom true (wrap ++ ts) = commandWordFrom true ts := by
  induction wrap with
  | nil => rfl
  | cons t wrap ih =>
      have hrest := ih fun t ht => h t (List.mem_cons_of_mem _ ht)
      rw [List.cons_append, commandWordFrom]
      rcases h t List.mem_cons_self with ht | ht
      · simp [ht, hrest]
      · simp [ht, hrest]

namespace Rewriting

theorem headed (w : Rewriting) {ts : List Token} (h : Headed ts) (i : Nat) :
    Headed (w.tokensFrom i ts) := by
  cases ts with
  | nil => exact h
  | cons t ts =>
      intro u hu
      rw [tokensFrom, (w.respells i t).of_command (h t rfl)] at hu
      exact h u hu

theorem commandWord_tokensFrom (w : Rewriting) {wrapped : Bool} {ts : List Token}
    (h : wrapped = true ∨ Headed ts) (i : Nat) :
    commandWordFrom wrapped (w.tokensFrom i ts) = commandWordFrom wrapped ts := by
  induction ts generalizing wrapped i with
  | nil => rfl
  | cons t ts ih =>
      have hrest := @ih true (.inl rfl) (i + 1)
      rw [tokensFrom]
      cases hoption : isOption t with
      | true =>
          have hwrapped : wrapped = true := by
            rcases h with h | h
            · exact h
            · rw [h t rfl] at hoption
              cases hoption
          subst hwrapped
          rw [commandWordFrom_options ((w.respells i t).options hoption), hrest, commandWordFrom,
            hoption]
          rfl
      | false =>
          rw [(w.respells i t).of_command hoption, List.singleton_append, commandWordFrom,
            commandWordFrom, hrest]

theorem commandWord_tokens (w : Rewriting) (hbare : w.Bare) {ts : List Token}
    (h : Headed ts) : commandWord (w.tokens ts) = commandWord ts := by
  have hsegment : commandWordFrom false (w.tokensFrom 0 ts) = commandWordFrom false ts :=
    w.commandWord_tokensFrom (.inr h) 0
  rw [commandWord, commandWord, tokens, ← hsegment]
  cases hwrap : w.wrap with
  | nil => rfl
  | cons t wrap =>
      have ht : isWrapper t = true := w.wraps t (by rw [hwrap]; rfl)
      have hrest : commandWordFrom true (wrap ++ w.tokensFrom 0 ts) =
          commandWordFrom true (w.tokensFrom 0 ts) :=
        commandWordFrom_bare (fun t ht => hbare t (by rw [hwrap]; exact List.mem_cons_of_mem _ ht)) _
      rw [List.cons_append, commandWordFrom, ht, hrest, commandWordFrom_headed (w.headed h 0)]
      rfl

/-- A place of the segment, in the rewritten segment. -/
theorem mem_tokensFrom (w : Rewriting) {ts : List Token} {t : Token} (ht : t ∈ ts) (i : Nat) :
    ∃ j, i ≤ j ∧ (i = j → ts.head? = some t) ∧ ∀ u ∈ w.write j t, u ∈ w.tokensFrom i ts := by
  induction ts generalizing i with
  | nil => cases ht
  | cons t' ts ih =>
      rcases List.mem_cons.mp ht with rfl | ht
      · exact ⟨i, le_rfl, fun _ => rfl, fun u hu => List.mem_append_left _ hu⟩
      · obtain ⟨j, hj, -, hmem⟩ := ih ht (i + 1)
        exact ⟨j, by omega, fun h => by omega, fun u hu => List.mem_append_right _ (hmem u hu)⟩

/-- Every token is met in the rewritten segment under its normal form. -/
theorem normalize_mem (w : Rewriting) (hunsplit : w.Unsplit) {ts : List Token} (h : Headed ts)
    {t : Token} (ht : t ∈ ts) : normalizeToken t ∈ (w.tokens ts).map normalizeToken := by
  obtain ⟨j, -, hfirst, hmem⟩ := w.mem_tokensFrom ht 0
  have hone : (w.write j t).length = 1 ∨ normalizeToken t ∈ w.wrap.map normalizeToken := by
    cases j with
    | zero => exact .inl (by rw [(w.respells 0 t).of_command (h t (hfirst rfl))]; rfl)
    | succ j => exact hunsplit (j + 1) t (by omega)
  rcases hone with hone | hwrap
  · obtain ⟨u, hwrite, hu⟩ := (w.respells j t).normalize hone
    rw [← hu]
    refine List.mem_map_of_mem (List.mem_append_right _ (hmem u ?_))
    rw [hwrite]
    exact List.mem_singleton_self u
  · rw [tokens, List.map_append]
    exact List.mem_append_left _ hwrap

end Rewriting

/-! ## Denial -/

theorem segmentMatches_iff {pattern tokens : List Token} : segmentMatches pattern tokens = true ↔
    ∃ first others cmd, pattern = first :: others ∧ commandWord tokens = some cmd ∧
      (basename (normalizeToken cmd) = first ∨ tokenMatches first (normalizeToken cmd) = true) ∧
      ∀ p ∈ others, ∃ t ∈ tokens.map normalizeToken, tokenMatches p t = true := by
  cases pattern with
  | nil => simp [segmentMatches]
  | cons first others =>
      cases hcmd : commandWord tokens with
      | none => simp [segmentMatches, hcmd]
      | some cmd => simp [segmentMatches, hcmd]

theorem decide_of_denies {g : CommandGuard} {cmd : List Char} {seg : Segment}
    (hseg : seg ∈ splitSegments cmd) (h : g.Denies seg.tokens) : g.decide cmd = .deniedMatch := by
  obtain ⟨pat, hpat, hmatch⟩ := h
  exact CommandGuard.decide_of_segment hseg hpat hmatch

theorem denies_tokens (w : Rewriting) (hbare : w.Bare) (hunsplit : w.Unsplit)
    {g : CommandGuard} {ts : List Token} (hheaded : Headed ts) (h : g.Denies ts) :
    g.Denies (w.tokens ts) := by
  obtain ⟨pat, hpat, hmatch⟩ := h
  obtain ⟨first, others, cmd, rfl, hcmd, hnames, hothers⟩ := segmentMatches_iff.mp hmatch
  refine ⟨_, hpat, segmentMatches_iff.mpr ⟨first, others, cmd, rfl, ?_, hnames, ?_⟩⟩
  · rw [w.commandWord_tokens hbare hheaded, hcmd]
  · intro p hp
    obtain ⟨t, ht, hmatches⟩ := hothers p hp
    obtain ⟨token, htoken, rfl⟩ := List.mem_map.mp ht
    exact ⟨_, w.normalize_mem hunsplit hheaded htoken, hmatches⟩

/-! ## Escaped spellings -/

private def escapedGlyphs (token : Token) : List Glyph :=
  if token = [] then [.single []] else token.map .escaped

def escapedWord (token : Token) : Word where
  glyphs := escapedGlyphs token
  ne_nil := by
    rw [escapedGlyphs]
    split <;> simp_all
  valid := by
    intro g hg
    rw [escapedGlyphs] at hg
    split at hg
    · rw [List.mem_singleton.mp hg]
      rfl
    · obtain ⟨c, -, rfl⟩ := List.mem_map.mp hg
      rfl

/-- Any tokens can be spelled: a blank between two words, a backslash before every
character. -/
def spell (first : Token) (others : List Token) : SpelledSegment where
  lead := []
  first := escapedWord first
  others := others.map fun t => ⟨' ', [], escapedWord t, isBlank_space⟩
  trail := []
  lead_blank := by simp
  trail_blank := by simp

theorem escapedWord_value (token : Token) : (escapedWord token).value = token := by
  simp only [Word.value, escapedWord, escapedGlyphs]
  split
  · rename_i hnil
    rw [hnil]
    rfl
  · rw [List.flatMap_map]
    induction token with
    | nil => rfl
    | cons c token ih =>
        cases token with
        | nil => rfl
        | cons d token => simp [Glyph.value]

theorem spell_values (first : Token) (others : List Token) :
    (spell first others).values = first :: others := by
  simp [SpelledSegment.values, spell, escapedWord_value, Function.comp_def]

/-- Every parenthesis stands behind a backslash. -/
private def GuardedText (text : List Char) : Prop :=
  List.IsChain (fun a b => b = '(' → a = '\\') text ∧ text.head? ≠ some '('

private theorem GuardedText.append {text text' : List Char} (h : GuardedText text) (h' : GuardedText text') :
    GuardedText (text ++ text') := by
  refine ⟨h.1.append h'.1 ?_, ?_⟩
  · rintro a - b hb rfl
    exact absurd hb h'.2
  · cases text with
    | nil => exact h'.2
    | cons c text => exact h.2

private theorem guarded_word (token : Token) : GuardedText (escapedWord token).text := by
  have hglyphs : ∀ token : Token, GuardedText ((token.map Glyph.escaped).flatMap Glyph.text) := by
    intro token
    induction token with
    | nil => exact ⟨.nil, by simp⟩
    | cons c token ih =>
        have hfirst : GuardedText (Glyph.escaped c).text := ⟨by simp [Glyph.text], by simp [Glyph.text]⟩
        exact hfirst.append ih
  simp only [Word.text, escapedWord, escapedGlyphs]
  split
  · exact ⟨by simp [Glyph.text], by simp [Glyph.text]⟩
  · exact hglyphs token

private theorem guarded_spell (first : Token) (others : List Token) :
    GuardedText (spell first others).text := by
  have hothers : GuardedText ((spell first others).others.flatMap SpacedWord.text ++ []) := by
    rw [List.append_nil, spell]
    induction others with
    | nil => exact ⟨.nil, by simp⟩
    | cons t others ih =>
        have hblank : GuardedText [' '] := ⟨by simp, by simp⟩
        exact (hblank.append (guarded_word t)).append ih
  exact (guarded_word first).append hothers

private theorem toLower_cases (c : Char) : c.toLower = c ∨ 97 ≤ c.toLower.toNat := by
  by_cases h : c.val ≥ 'A'.val ∧ c.val ≤ 'Z'.val
  · right
    have hlow : 65 ≤ c.val.toNat := h.1
    have hhigh : c.val.toNat ≤ 90 := h.2
    have hval : c.toLower.val = c.val + ('a'.val - 'A'.val) := congrArg Char.val (dif_pos h)
    have hdiff : ('a'.val - 'A'.val).toNat = 32 := rfl
    change 97 ≤ c.toLower.val.toNat
    rw [hval, UInt32.toNat_add, hdiff]
    omega
  · exact .inl (dif_neg h)

private theorem GuardedText.raw {text : List Char} (h : GuardedText text) :
    (rawDeny.any fun pat => containsText (text.map Char.toLower) pat.toList) = false := by
  have hchain : List.IsChain (fun a b => b = '(' → a ≠ ':') (text.map Char.toLower) := by
    refine List.isChain_map_of_isChain Char.toLower ?_ h.1
    intro a b hab hb
    have hparen : b = '(' := by
      rcases toLower_cases b with hlower | hlower
      · rw [← hlower, hb]
      · rw [hb] at hlower
        exact absurd hlower (by decide)
    rw [hab hparen]
    decide
  by_contra hraw
  rw [Bool.not_eq_false, List.any_eq_true] at hraw
  obtain ⟨pat, hpat, hcontains⟩ := hraw
  obtain rfl : pat = ":()\x7b" := List.mem_singleton.mp hpat
  obtain ⟨rest, hrest, hprefix⟩ := List.any_eq_true.mp hcontains
  have hinfix : ":()\x7b".toList <:+: text.map Char.toLower :=
    (List.isPrefixOf_iff_prefix.mp hprefix).isInfix.trans ((List.mem_tails _ _).mp hrest).isInfix
  have hpair := hchain.infix hinfix
  exact absurd hpair (by decide)

/-- One pattern, one segment and no match: the guard lets it pass. -/
theorem allowed_of_not_matches {pattern first : _} {others : List Token}
    (h : segmentMatches pattern (first :: others) = false) :
    CommandGuard.decide ⟨[pattern], []⟩ (spell first others).text = .allowed := by
  have hraw := (guarded_spell first others).raw
  simp only [CommandGuard.decide, hraw, splitSegments_text, spell_values]
  simp [h, pipesIntoAnInterpreter]

theorem tokenizePatterns_spell (first : Token) (others : List Token) :
    tokenizePatterns [String.ofList (spell first others).text] =
      [(first :: others).map normalizeToken] := by
  simp [tokenizePatterns, tokenize, splitSegments_text, spell_values]

/-! ## What escapes -/

/-- The first word that is neither a wrapper nor an option is taken for the command. -/
theorem commandWord_of_value {wrap : List Token}
    (h : ¬ ∀ t ∈ wrap, isWrapper t = true ∨ isOption t = true) :
    ∃ v, isOption v = false ∧ ∀ ts, commandWordFrom true (wrap ++ ts) = some v := by
  induction wrap with
  | nil => simp at h
  | cons t wrap ih =>
      by_cases ht : isWrapper t = true ∨ isOption t = true
      · obtain ⟨v, hv, hword⟩ := ih (by
          intro hrest
          exact h (by simpa [ht] using hrest))
        refine ⟨v, hv, fun ts => ?_⟩
        rw [List.cons_append, commandWordFrom]
        rcases ht with ht | ht <;> simp [ht, hword]
      · rw [not_or, Bool.not_eq_true, Bool.not_eq_true] at ht
        refine ⟨t, ht.2, fun ts => ?_⟩
        simp [commandWordFrom, ht]

theorem normalize_of_command {t : Token} (h : isOption t = false) : normalizeToken t = t := by
  cases t with
  | nil => rfl
  | cons c t =>
      have hc : c ≠ '-' := by simpa [isOption] using h
      rw [normalizeToken]
      simpa using hc

theorem length_normalize (t : Token) : (normalizeToken t).length = t.length := by
  cases hoption : isOption t with
  | false => rw [normalize_of_command hoption]
  | true =>
      cases t with
      | nil => rfl
      | cons c t =>
          obtain rfl : c = '-' := by simpa [isOption] using hoption
          rw [normalizeToken]
          split <;> simp

/-- Behind its first wrapper the words before a segment are skipped alike. -/
theorem commandWord_wrapped {w : Rewriting} (hne : w.wrap ≠ []) (ts : List Token) :
    commandWord (w.wrap ++ ts) = commandWordFrom true (w.wrap ++ ts) := by
  cases hwrap : w.wrap with
  | nil => exact absurd hwrap hne
  | cons t wrap =>
      have ht : isWrapper t = true := w.wraps t (by rw [hwrap]; rfl)
      simp [commandWord, commandWordFrom, ht]

/-- A segment of one word that the rewriting hides behind a value. -/
theorem bare_of_seenThrough {w : Rewriting} (h : SeenThrough w) : w.Bare := by
  by_contra hbare
  obtain ⟨v, hoption, hword⟩ := commandWord_of_value hbare
  obtain ⟨c, hc, hcommand, hself, hbase⟩ : ∃ c : Token, normalizeToken c = c ∧ isOption c = false ∧
      segmentMatches [c] [c] = true ∧
      ¬ (basename (normalizeToken v) = c ∨ tokenMatches c (normalizeToken v) = true) := by
    rw [normalize_of_command hoption]
    by_cases hv : basename v = ['a']
    · refine ⟨['b'], by decide, by decide, by decide, ?_⟩
      rintro (hb | hb)
      · rw [hv] at hb
        cases hb
      · obtain rfl : ['b'] = v := by simpa [tokenMatches] using hb
        exact absurd hv (by decide)
    · refine ⟨['a'], by decide, by decide, by decide, ?_⟩
      rintro (ha | ha)
      · exact hv ha
      · obtain rfl : ['a'] = v := by simpa [tokenMatches] using ha
        exact absurd hv (by decide)
  have hne : w.wrap ≠ [] := by
    intro hnil
    apply hbare
    simp [Rewriting.Bare, hnil]
  obtain ⟨x, xs, hwrap⟩ := List.exists_cons_of_ne_nil hne
  have hguard : CommandGuard.ofLists [String.ofList (spell c []).text] [] = ⟨[[c]], []⟩ := by
    have hdeny := tokenizePatterns_spell c []
    rw [List.map_singleton, hc] at hdeny
    rw [CommandGuard.ofLists, List.isEmpty_cons, if_neg Bool.false_ne_true, hdeny]
    rfl
  have hmem : (⟨[c], false⟩ : Segment) ∈ splitSegments (spell c []).text := by
    rw [splitSegments_text, spell_values]
    exact List.mem_singleton_self _
  have htokens : w.tokens [c] = x :: (xs ++ [c]) := by
    simp [Rewriting.tokens, Rewriting.tokensFrom, (w.respells 0 c).of_command hcommand, hwrap]
  have hallowed : segmentMatches [c] (x :: (xs ++ [c])) = false := by
    rw [← Bool.not_eq_true, segmentMatches_iff]
    rintro ⟨first, others, cmd, hpattern, hcmd, hnames, -⟩
    cases hpattern
    have hfound : commandWord (w.wrap ++ [c]) = some v := by
      rw [commandWord_wrapped hne, hword]
    rw [hwrap, List.cons_append, hcmd] at hfound
    cases hfound
    exact hbase hnames
  have hdecide := h [String.ofList (spell c []).text] [] (spell c []).text ⟨[c], false⟩ hmem
    (by rintro t ht; cases ht; exact hcommand)
    (by rw [hguard]; exact ⟨[c], List.mem_singleton_self _, hself⟩)
    [] [] (spell x (xs ++ [c])) opens_nil closes_nil (by rw [spell_values, htokens])
  apply hdecide
  rw [hguard, List.nil_append, List.append_nil]
  exact allowed_of_not_matches hallowed

theorem tokensFrom_replicate (w : Rewriting) (t : Token) (n i : Nat) :
    w.tokensFrom i (List.replicate n ['a'] ++ [t]) =
      List.replicate n ['a'] ++ w.write (i + n) t := by
  have hword : isOption ['a'] = false := by decide
  induction n generalizing i with
  | zero => simp [Rewriting.tokensFrom]
  | succ n ih =>
      rw [List.replicate_succ, List.cons_append, Rewriting.tokensFrom,
        (w.respells i ['a']).of_command hword, ih, Nat.add_assoc, Nat.add_comm 1 n]
      rfl

theorem tokenMatches_cluster {letters : List Char} (h : FlagLetters letters) {t : Token}
    (hmatch : tokenMatches (normalizeToken ('-' :: letters)) t = true) :
    normalizeToken ('-' :: letters) = t := by
  have hsorted : ∀ c ∈ letters.insertionSort (· ≤ ·), c.isAlphanum = true := fun c hc =>
    h.2 c ((List.perm_insertionSort _ _).subset hc)
  rw [normalize_cluster h] at hmatch ⊢
  by_contra hne
  have hletter : ∀ c : Char, c.isAlphanum = false →
      c ≠ '-' → c ∉ '-' :: letters.insertionSort (· ≤ ·) := by
    intro c hc hdash hmem
    rcases List.mem_cons.mp hmem with hmem | hmem
    · exact hdash hmem
    · rw [hsorted c hmem] at hc
      cases hc
  have hlast : ∀ c, ('-' :: letters.insertionSort (· ≤ ·)).getLast? = some c →
      c ∈ '-' :: letters.insertionSort (· ≤ ·) := fun c hc => List.mem_of_getLast? hc
  have hslash := hletter '/' (by decide) (by decide)
  have hdot := hletter '.' (by decide) (by decide)
  have hequal := hletter '=' (by decide) (by decide)
  have hshape : ¬ (('-' :: letters.insertionSort (· ≤ ·)).getLast? = some '/' ∨
      ('-' :: letters.insertionSort (· ≤ ·)).getLast? = some '.' ∨
      '=' ∈ '-' :: letters.insertionSort (· ≤ ·)) := by
    rintro (hc | hc | hc)
    · exact hslash (hlast _ hc)
    · exact hdot (hlast _ hc)
    · exact hequal hc
  rw [tokenMatches, if_neg hne, if_neg (by simp), if_neg hshape] at hmatch
  cases hmatch

/-- The parts of a split cluster are shorter than the cluster. -/
theorem length_lt_of_split {parts : List (List Char)} {letters part : List Char}
    (hparts : parts.length ≠ 1) (hne : ∀ part ∈ parts, part ≠ [])
    (hperm : parts.flatten.Perm letters) (hpart : part ∈ parts) :
    part.length < letters.length := by
  obtain ⟨before, after, rfl⟩ := List.append_of_mem hpart
  have hlength := hperm.length_eq
  obtain ⟨other, hother, hpos⟩ : ∃ other ∈ before ++ after, 0 < other.length := by
    cases hrest : before ++ after with
    | nil =>
        obtain ⟨rfl, rfl⟩ := List.append_eq_nil_iff.mp hrest
        exact absurd rfl hparts
    | cons other others =>
        have hmem : other ∈ before ++ part :: after := by
          have hin : other ∈ before ++ after := by rw [hrest]; exact List.mem_cons_self
          rcases List.mem_append.mp hin with hin | hin
          · exact List.mem_append_left _ hin
          · exact List.mem_append_right _ (List.mem_cons_of_mem _ hin)
        exact ⟨other, List.mem_cons_self, List.length_pos_iff.mpr (hne other hmem)⟩
  have hsum : other.length ≤ (before ++ after).flatten.length :=
    (List.sublist_flatten_of_mem hother).length_le
  simp only [List.flatten_append, List.flatten_cons, List.length_append] at hlength hsum
  omega

/-- A flag cluster at its place behind plain words that the rewriting splits. -/
theorem unsplit_of_seenThrough {w : Rewriting} (h : SeenThrough w) : w.Unsplit := by
  intro i t hi
  by_contra hsplit
  rw [not_or] at hsplit
  obtain ⟨hlength, hwrap⟩ := hsplit
  obtain ⟨letters, parts, rfl, hletters, -, hne, hperm, hwrite⟩ :
      ∃ letters parts, t = '-' :: letters ∧ FlagLetters letters ∧ parts ≠ [] ∧
        (∀ part ∈ parts, part ≠ []) ∧ parts.flatten.Perm letters ∧
        w.write i t = parts.map ('-' :: ·) := by
    rcases w.respells i t with hone | hparts
    · rw [hone] at hlength
      exact absurd rfl hlength
    · exact hparts
  obtain ⟨n, rfl⟩ : ∃ n, i = n + 1 := ⟨i - 1, by omega⟩
  have hword : isOption ['a'] = false := by decide
  have hself : normalizeToken ['a'] = ['a'] := by decide
  have hsegment : List.replicate (n + 1) ['a'] ++ ['-' :: letters] =
      ['a'] :: (List.replicate n ['a'] ++ ['-' :: letters]) := rfl
  have hguard : CommandGuard.ofLists [String.ofList (spell ['a'] ['-' :: letters]).text] [] =
      ⟨[[['a'], normalizeToken ('-' :: letters)]], []⟩ := by
    have hdeny := tokenizePatterns_spell ['a'] ['-' :: letters]
    rw [List.map_cons, hself, List.map_singleton] at hdeny
    rw [CommandGuard.ofLists, List.isEmpty_cons, if_neg Bool.false_ne_true, hdeny]
    rfl
  have hmem : (⟨['a'] :: (List.replicate n ['a'] ++ ['-' :: letters]), false⟩ : Segment) ∈
      splitSegments (spell ['a'] (List.replicate n ['a'] ++ ['-' :: letters])).text := by
    rw [splitSegments_text, spell_values]
    exact List.mem_singleton_self _
  have hdenied : segmentMatches [['a'], normalizeToken ('-' :: letters)]
      (['a'] :: (List.replicate n ['a'] ++ ['-' :: letters])) = true := by
    refine segmentMatches_iff.mpr ⟨['a'], _, ['a'], rfl, ?_, .inl (by decide), ?_⟩
    · have hwrapper : isWrapper ['a'] = false := by decide
      simp [commandWord, commandWordFrom, hwrapper]
    · intro p hp
      obtain rfl := List.mem_singleton.mp hp
      exact ⟨normalizeToken ('-' :: letters), by simp, by simp [tokenMatches]⟩
  have htokens : w.tokens (['a'] :: (List.replicate n ['a'] ++ ['-' :: letters])) =
      w.wrap ++ (List.replicate (n + 1) ['a'] ++ parts.map ('-' :: ·)) := by
    rw [Rewriting.tokens, ← hsegment, tokensFrom_replicate, Nat.zero_add, hwrite]
  obtain ⟨x, xs, hxs⟩ : ∃ x xs, w.tokens (['a'] :: (List.replicate n ['a'] ++
      ['-' :: letters])) = x :: xs := by
    refine List.exists_cons_of_ne_nil ?_
    rw [htokens]
    simp
  have hallowed : segmentMatches [['a'], normalizeToken ('-' :: letters)] (x :: xs) = false := by
    rw [← Bool.not_eq_true, segmentMatches_iff]
    rintro ⟨first, others, cmd, hpattern, -, -, hothers⟩
    cases hpattern
    obtain ⟨u, hu, hmatch⟩ := hothers _ (List.mem_singleton_self _)
    have heq := tokenMatches_cluster hletters hmatch
    rw [← hxs, htokens, List.map_append, List.map_append] at hu
    rcases List.mem_append.mp hu with hu | hu
    · exact hwrap (heq ▸ hu)
    · rcases List.mem_append.mp hu with hu | hu
      · rw [List.map_replicate, hself] at hu
        rw [List.eq_of_mem_replicate hu, normalize_cluster hletters] at heq
        cases heq
      · obtain ⟨token, htoken, rfl⟩ := List.mem_map.mp hu
        obtain ⟨part, hpart, rfl⟩ := List.mem_map.mp htoken
        have hshort := length_lt_of_split (by
          rw [hwrite, List.length_map] at hlength
          exact hlength) hne hperm hpart
        have hequal := congrArg List.length heq
        rw [length_normalize, length_normalize, List.length_cons, List.length_cons] at hequal
        omega
  have hdecide := h _ [] _ _ hmem (by rintro t ht; cases ht; exact hword)
    (by rw [hguard]; exact ⟨_, List.mem_singleton_self _, hdenied⟩)
    [] [] (spell x xs) opens_nil closes_nil (by rw [spell_values, ← hxs])
  apply hdecide
  rw [hguard, List.nil_append, List.append_nil]
  exact allowed_of_not_matches hallowed

/-! ## Invariance -/

/-- The guard sees through a rewriting exactly when it puts nothing but wrappers and
options before the segment and splits no cluster that the wrappers do not carry. -/
theorem guard_sees_through (w : Rewriting) : SeenThrough w ↔ w.Bare ∧ w.Unsplit := by
  constructor
  · intro h
    exact ⟨bare_of_seenThrough h, unsplit_of_seenThrough h⟩
  · rintro ⟨hbare, hunsplit⟩ deny allow cmd seg - hheaded hdenies pre post new hpre hpost hvalues
    obtain ⟨found, hfound, htokens⟩ := spelled_mem hpre hpost new
    have hfoundDenies : (CommandGuard.ofLists deny allow).Denies found.tokens := by
      rw [htokens, hvalues]
      exact denies_tokens w hbare hunsplit hheaded hdenies
    rw [decide_of_denies hfound hfoundDenies]
    decide

/-- `sudo -u root` before a segment. -/
def sudoUser : Rewriting where
  wrap := ["sudo".toList, "-u".toList, "root".toList]
  write := fun _ t => [t]
  wraps := by
    intro t ht
    cases ht
    decide
  respells := fun _ _ => .inl rfl

def plainWord (token : Token) (hne : token ≠ [])
    (hplain : token.all (fun c => !isSpecial c) = true) : Word where
  glyphs := token.map .plain
  ne_nil := by simpa using hne
  valid := by
    intro g hg
    obtain ⟨c, hc, rfl⟩ := List.mem_map.mp hg
    exact List.all_eq_true.mp hplain c hc

/-- `sudo -u root rm -rf /` as it is typed. -/
def sudoUserRm : SpelledSegment where
  lead := []
  first := plainWord "sudo".toList (by decide) (by decide)
  others := [⟨' ', [], plainWord "-u".toList (by decide) (by decide), isBlank_space⟩,
    ⟨' ', [], plainWord "root".toList (by decide) (by decide), isBlank_space⟩,
    ⟨' ', [], plainWord "rm".toList (by decide) (by decide), isBlank_space⟩,
    ⟨' ', [], plainWord "-rf".toList (by decide) (by decide), isBlank_space⟩,
    ⟨' ', [], plainWord "/".toList (by decide) (by decide), isBlank_space⟩]
  trail := []
  lead_blank := by simp
  trail_blank := by simp

example : sudoUserRm.text = "sudo -u root rm -rf /".toList := by decide

/-- The built-in deny list refuses `rm -rf /` and lets it pass behind `sudo -u root`. -/
theorem sudo_user_escapes : ¬ ∀ w : Rewriting, SeenThrough w := by
  intro h
  have hdenied : segmentMatches ["rm".toList, "-fr".toList, "/".toList]
      ["rm".toList, "-rf".toList, "/".toList] = true := by decide
  have hescapes := h sudoUser [] [] "rm -rf /".toList
    ⟨["rm".toList, "-rf".toList, "/".toList], false⟩ (by decide +kernel)
    (by rintro t ht; cases ht; decide) ⟨_, by decide +kernel, hdenied⟩
    [] [] sudoUserRm opens_nil closes_nil (by decide)
  revert hescapes
  decide +kernel

end AgentGrid.Node
