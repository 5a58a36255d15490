import AgentGrid.Node.CommandGuard

/-!
# Spellings of a command

A word can be written with any mix of plain, escaped and quoted characters, and a
segment with any blanks around its words.  Wherever a spelled segment stands in a
command line, the lexer reads the words it spells.
-/

namespace AgentGrid.Node

/-! ## Words -/

inductive Glyph
  | plain (c : Char)
  | escaped (c : Char)
  | single (cs : List Char)
  | double (cs : List (Bool × Char))

def isSpecial (c : Char) : Bool := isWhitespace c || ['\\', '\'', '"', '|', '&', ';'].contains c

namespace Glyph

def valid : Glyph → Bool
  | plain c => !isSpecial c
  | escaped _ => true
  | single cs => !cs.contains '\''
  | double cs => cs.all fun q => q.1 || (q.2 != '"' && q.2 != '\\')

/-- A character between double quotes, with a backslash or without. -/
def doubleText (q : Bool × Char) : List Char := if q.1 then ['\\', q.2] else [q.2]

def text : Glyph → List Char
  | plain c => [c]
  | escaped c => ['\\', c]
  | single cs => '\'' :: (cs ++ ['\''])
  | double cs => '"' :: (cs.flatMap doubleText ++ ['"'])

def value : Glyph → List Char
  | plain c => [c]
  | escaped c => [c]
  | single cs => cs
  | double cs => cs.map Prod.snd

end Glyph

structure Word where
  glyphs : List Glyph
  ne_nil : glyphs ≠ []
  valid : ∀ g ∈ glyphs, g.valid = true

def Word.text (w : Word) : List Char := w.glyphs.flatMap Glyph.text

def Word.value (w : Word) : Token := w.glyphs.flatMap Glyph.value

/-! ## Segments -/

def isBlank (c : Char) : Bool := isWhitespace c && c != '\n'

theorem isBlank_space : ∀ c ∈ [' '], isBlank c = true :=
  List.forall_mem_singleton.mpr (by decide)

/-- Blanks, then a word; one blank at least. -/
structure SpacedWord where
  first : Char
  more : List Char
  word : Word
  blank : ∀ c ∈ first :: more, isBlank c = true

def SpacedWord.text (w : SpacedWord) : List Char := w.first :: w.more ++ w.word.text

structure SpelledSegment where
  lead : List Char
  first : Word
  others : List SpacedWord
  trail : List Char
  lead_blank : ∀ c ∈ lead, isBlank c = true
  trail_blank : ∀ c ∈ trail, isBlank c = true

namespace SpelledSegment

def text (s : SpelledSegment) : List Char :=
  s.lead ++ (s.first.text ++ (s.others.flatMap SpacedWord.text ++ s.trail))

def values (s : SpelledSegment) : List Token :=
  s.first.value :: s.others.map fun w => w.word.value

end SpelledSegment

/-! ## Reading a word -/

namespace Lexer

theorem run_single {out : List Segment} {tokens : List Token} {cur cs rest : List Char}
    {has : Bool} (hcs : '\'' ∉ cs) :
    run false (cs ++ '\'' :: rest) ⟨out, tokens, cur, has, true, false⟩ =
      run false rest ⟨out, tokens, cur ++ cs, true, false, false⟩ := by
  induction cs generalizing cur has with
  | nil => simp [run, step]
  | cons c cs ih =>
      have hc : c ≠ '\'' := fun h => hcs (by simp [h])
      have hrest := @ih (cur ++ [c]) true fun h => hcs (List.mem_cons_of_mem _ h)
      simpa [run, step, hc, quoted, push] using hrest

theorem run_double {out : List Segment} {tokens : List Token} {cur rest : List Char}
    {cs : List (Bool × Char)} {has : Bool} (hcs : (Glyph.double cs).valid = true) :
    run false (cs.flatMap Glyph.doubleText ++ '"' :: rest) ⟨out, tokens, cur, has, false, true⟩ =
      run false rest ⟨out, tokens, cur ++ cs.map Prod.snd, true, false, false⟩ := by
  induction cs generalizing cur has with
  | nil => simp [run, step]
  | cons q cs ih =>
      obtain ⟨escaped, c⟩ := q
      simp only [Glyph.valid, List.all_cons, Bool.and_eq_true] at hcs
      have hrest := @ih (cur ++ [c]) true hcs.2
      cases escaped with
      | true => simpa [run, step, Glyph.doubleText, push] using hrest
      | false =>
          have hc : c ≠ '"' ∧ c ≠ '\\' := by simpa using hcs.1
          simpa [run, step, Glyph.doubleText, push, quoted, hc] using hrest

theorem not_special {c : Char} (h : isSpecial c = false) :
    isWhitespace c = false ∧ c ≠ '\\' ∧ c ≠ '\'' ∧ c ≠ '"' ∧ c ≠ '|' ∧ c ≠ '&' ∧ c ≠ ';' := by
  simpa [isSpecial] using h

theorem run_glyph {out : List Segment} {tokens : List Token} {cur rest : List Char} {has : Bool}
    {g : Glyph} (hg : g.valid = true) :
    run false (g.text ++ rest) ⟨out, tokens, cur, has, false, false⟩ =
      run false rest ⟨out, tokens, cur ++ g.value, true, false, false⟩ := by
  cases g with
  | plain c =>
      have hc := not_special (by simpa [Glyph.valid] using hg)
      have hnewline : c ≠ '\n' := by
        rintro rfl
        exact absurd hc.1 (by decide)
      simp [run, step, Glyph.text, Glyph.value, quoted, push, hc, hnewline]
  | escaped c => simp [run, step, Glyph.text, Glyph.value, push]
  | single cs =>
      have hcs : '\'' ∉ cs := by simpa [Glyph.valid] using hg
      simpa [run, step, Glyph.text, Glyph.value] using @run_single _ _ _ _ _ true hcs
  | double cs => simpa [run, step, Glyph.text, Glyph.value] using @run_double _ _ _ _ _ true hg

theorem run_glyphs {out : List Segment} {tokens : List Token} {cur rest : List Char}
    {glyphs : List Glyph} (hne : glyphs ≠ []) (hvalid : ∀ g ∈ glyphs, g.valid = true)
    {has : Bool} :
    run false (glyphs.flatMap Glyph.text ++ rest) ⟨out, tokens, cur, has, false, false⟩ =
      run false rest ⟨out, tokens, cur ++ glyphs.flatMap Glyph.value, true, false, false⟩ := by
  induction glyphs generalizing cur has with
  | nil => exact absurd rfl hne
  | cons g glyphs ih =>
      rw [List.flatMap_cons, List.append_assoc, run_glyph (hvalid g List.mem_cons_self)]
      cases glyphs with
      | nil => simp
      | cons g' glyphs =>
          rw [ih (by simp) fun g hg => hvalid g (List.mem_cons_of_mem _ hg)]
          simp [List.flatMap_cons]

theorem run_word {out : List Segment} {tokens : List Token} {rest : List Char} (w : Word) :
    run false (w.text ++ rest) ⟨out, tokens, [], false, false, false⟩ =
      run false rest ⟨out, tokens, w.value, true, false, false⟩ :=
  run_glyphs w.ne_nil w.valid

/-! ## Reading a segment -/

theorem run_blank {c : Char} {rest : List Char} {s : Lexer} (hc : isBlank c = true)
    (hs : s.quoted = false) : run false (c :: rest) s = run false rest s.flushToken := by
  obtain ⟨hspace, hnewline⟩ : isWhitespace c = true ∧ c ≠ '\n' := by simpa [isBlank] using hc
  have hplain : c ≠ '\\' ∧ c ≠ '\'' ∧ c ≠ '"' := by
    refine ⟨?_, ?_, ?_⟩ <;> rintro rfl <;> exact absurd hspace (by decide)
  simp [run, step, hplain, hs, hspace, hnewline]

theorem run_blanks_idle {out : List Segment} {tokens : List Token} {blanks rest : List Char}
    (h : ∀ c ∈ blanks, isBlank c = true) :
    run false (blanks ++ rest) ⟨out, tokens, [], false, false, false⟩ =
      run false rest ⟨out, tokens, [], false, false, false⟩ := by
  induction blanks with
  | nil => rfl
  | cons c blanks ih =>
      rw [List.cons_append, run_blank (h c List.mem_cons_self) rfl]
      exact ih fun c hc => h c (List.mem_cons_of_mem _ hc)

theorem run_spaced {out : List Segment} {tokens : List Token} {cur rest : List Char}
    (w : SpacedWord) :
    run false (w.text ++ rest) ⟨out, tokens, cur, true, false, false⟩ =
      run false rest ⟨out, tokens ++ [cur], w.word.value, true, false, false⟩ := by
  have hmore : ∀ c ∈ w.more, isBlank c = true := fun c hc =>
    w.blank c (List.mem_cons_of_mem _ hc)
  rw [SpacedWord.text, List.append_assoc, List.cons_append,
    run_blank (w.blank w.first List.mem_cons_self) rfl]
  exact (run_blanks_idle hmore).trans (run_word w.word)

theorem run_others {out : List Segment} {tokens : List Token} {cur rest : List Char}
    (others : List SpacedWord) :
    ∃ tokens' cur', run false (others.flatMap SpacedWord.text ++ rest)
        ⟨out, tokens, cur, true, false, false⟩ =
        run false rest ⟨out, tokens', cur', true, false, false⟩ ∧
      tokens' ++ [cur'] = tokens ++ cur :: others.map fun w => w.word.value := by
  induction others generalizing tokens cur with
  | nil => exact ⟨tokens, cur, rfl, rfl⟩
  | cons w others ih =>
      obtain ⟨tokens', cur', hrun, hvalues⟩ := @ih (tokens ++ [cur]) w.word.value
      refine ⟨tokens', cur', ?_, ?_⟩
      · rw [List.flatMap_cons, List.append_assoc, run_spaced, hrun]
      · simpa using hvalues

/-- After the text of a segment its words are the tokens of the lexer. -/
theorem run_segment {out : List Segment} {rest : List Char} (s : SpelledSegment) :
    ∃ s', run false (s.text ++ rest) ⟨out, [], [], false, false, false⟩ = run false rest s' ∧
      s'.quoted = false ∧ s'.flushToken = ⟨out, s.values, [], false, false, false⟩ := by
  obtain ⟨tokens, cur, hrun, hvalues⟩ :=
    @run_others out [] s.first.value (s.trail ++ rest) s.others
  have hwords : run false (s.text ++ rest) ⟨out, [], [], false, false, false⟩ =
      run false (s.trail ++ rest) ⟨out, tokens, cur, true, false, false⟩ := by
    rw [← hrun, SpelledSegment.text, List.append_assoc, run_blanks_idle s.lead_blank,
      List.append_assoc, run_word, List.append_assoc]
  have hflush : flushToken ⟨out, tokens, cur, true, false, false⟩ =
      ⟨out, s.values, [], false, false, false⟩ := by
    simp only [flushToken, if_true, hvalues]
    rfl
  cases htrail : s.trail with
  | nil =>
      rw [htrail] at hwords
      exact ⟨_, hwords, rfl, hflush⟩
  | cons c blanks =>
      have hblank := s.trail_blank
      rw [htrail] at hblank hwords
      refine ⟨⟨out, s.values, [], false, false, false⟩, ?_, rfl, rfl⟩
      rw [hwords, List.cons_append, run_blank (hblank c List.mem_cons_self) rfl, hflush]
      exact run_blanks_idle fun c hc => hblank c (List.mem_cons_of_mem _ hc)

/-! ## A segment in its line -/

theorem mem_flushToken {seg : Segment} {s : Lexer} (h : seg ∈ s.out) : seg ∈ s.flushToken.out := by
  rw [flushToken]
  split <;> exact h

theorem mem_flushSegment {seg : Segment} {s : Lexer} (piped : Bool) (h : seg ∈ s.out) :
    seg ∈ (s.flushSegment piped).out := by
  rw [flushSegment]
  split
  · exact h
  · exact List.mem_append_left _ h

theorem mem_flush {seg : Segment} {s : Lexer} (piped : Bool) (h : seg ∈ s.out) :
    seg ∈ (s.flushToken.flushSegment piped).out :=
  mem_flushSegment piped (mem_flushToken h)

theorem mem_step {seg : Segment} {s : Lexer} (c : Char) (peek : Option Char)
    (h : seg ∈ s.out) : seg ∈ (s.step c peek).2.out := by
  fun_cases step s c peek
  all_goals first
    | exact h
    | exact mem_flush _ h
    | exact mem_flushToken h

/-- A segment that has been read stays. -/
theorem mem_run {seg : Segment} {cs : List Char} {s : Lexer} (skip : Bool) (h : seg ∈ s.out) :
    seg ∈ (run skip cs s).out := by
  induction cs generalizing skip s with
  | nil => cases skip <;> exact h
  | cons c cs ih =>
      cases skip with
      | true => exact ih false h
      | false => exact ih _ (mem_step c cs.head? h)

end Lexer

/-- Where a segment can begin: after a separator, or at the start of the line. -/
def Opens (pre : List Char) : Prop :=
  ∃ out, ∀ rest, rest.head? ≠ some '|' → rest.head? ≠ some '&' →
    Lexer.run false (pre ++ rest) {} = Lexer.run false rest ⟨out, [], [], false, false, false⟩

/-- What can follow a segment. -/
def Closes (post : List Char) : Prop :=
  ∀ c, post.head? = some c → c = '\n' ∨ c = ';' ∨ c = '|' ∨ c = '&'

def separators : List (List Char) := [['\n'], [';'], ['|'], ['&'], ['|', '|'], ['&', '&']]

theorem opens_nil : Opens [] := ⟨[], fun _ _ _ => rfl⟩

theorem closes_nil : Closes [] := by
  intro c h
  cases h

theorem Word.text_head (w : Word) (c : Char) (h : w.text.head? = some c) :
    c ≠ '|' ∧ c ≠ '&' := by
  obtain ⟨glyphs, hne, hvalid⟩ := w
  obtain ⟨g, glyphs, rfl⟩ := List.exists_cons_of_ne_nil hne
  have hg := hvalid g List.mem_cons_self
  cases g with
  | plain d =>
      obtain rfl : d = c := by simpa [Word.text, Glyph.text] using h
      have hd := Lexer.not_special (by simpa [Glyph.valid] using hg)
      exact ⟨hd.2.2.2.2.1, hd.2.2.2.2.2.1⟩
  | escaped d =>
      obtain rfl : '\\' = c := by simpa [Word.text, Glyph.text] using h
      decide
  | single cs =>
      obtain rfl : '\'' = c := by simpa [Word.text, Glyph.text] using h
      decide
  | double cs =>
      obtain rfl : '"' = c := by simpa [Word.text, Glyph.text] using h
      decide

theorem isBlank_ne {c : Char} (h : isBlank c = true) : c ≠ '|' ∧ c ≠ '&' := by
  refine ⟨?_, ?_⟩ <;> rintro rfl <;> exact absurd h (by decide)

theorem Word.text_ne_nil (w : Word) : w.text ≠ [] := by
  obtain ⟨glyphs, hne, hvalid⟩ := w
  obtain ⟨g, glyphs, rfl⟩ := List.exists_cons_of_ne_nil hne
  cases g <;> simp [Word.text, Glyph.text]

theorem SpelledSegment.text_head (s : SpelledSegment) (rest : List Char) :
    (s.text ++ rest).head? ≠ some '|' ∧ (s.text ++ rest).head? ≠ some '&' := by
  have hhead : ∀ c, (s.text ++ rest).head? = some c → c ≠ '|' ∧ c ≠ '&' := by
    intro c h
    rw [SpelledSegment.text] at h
    cases hlead : s.lead with
    | cons d lead =>
        have hd := s.lead_blank d (by simp [hlead])
        obtain rfl : d = c := by simpa [hlead] using h
        exact isBlank_ne hd
    | nil =>
        obtain ⟨d, tail, hword⟩ := List.exists_cons_of_ne_nil s.first.text_ne_nil
        obtain rfl : d = c := by simpa [hlead, hword] using h
        exact s.first.text_head d (by rw [hword]; rfl)
  exact ⟨fun h => (hhead _ h).1 rfl, fun h => (hhead _ h).2 rfl⟩

/-- A separator ends the segment before it and lets the next one begin. -/
theorem Opens.snoc {pre : List Char} (hpre : Opens pre) (s : SpelledSegment) {sep : List Char}
    (hsep : sep ∈ separators) : Opens (pre ++ (s.text ++ sep)) := by
  obtain ⟨out, hrun⟩ := hpre
  have hpiped : ∃ piped : Bool, ∀ rest : List Char, rest.head? ≠ some '|' →
      rest.head? ≠ some '&' →
      ∀ s' : Lexer, s'.quoted = false → s'.flushToken = ⟨out, s.values, [], false, false, false⟩ →
      Lexer.run false (sep ++ rest) s' =
        Lexer.run false rest ⟨out ++ [⟨s.values, piped⟩], [], [], false, false, false⟩ := by
    simp only [separators, List.mem_cons, List.not_mem_nil, or_false] at hsep
    rcases hsep with rfl | rfl | rfl | rfl | rfl | rfl
    case inr.inr.inl =>
      refine ⟨true, fun rest hpipe hamp s' hquoted hflush => ?_⟩
      have hspace : isWhitespace '|' = false := by decide
      simp [Lexer.run, Lexer.step, hquoted, hflush, Lexer.flushSegment, SpelledSegment.values,
        hspace, hpipe]
    all_goals
      refine ⟨false, fun rest hpipe hamp s' hquoted hflush => ?_⟩
      have hspace : isWhitespace ';' = false ∧ isWhitespace '|' = false ∧
        isWhitespace '&' = false := by decide
      simp [Lexer.run, Lexer.step, hquoted, hflush, Lexer.flushSegment, SpelledSegment.values,
        hspace, hamp]
  obtain ⟨piped, hpiped⟩ := hpiped
  refine ⟨out ++ [⟨s.values, piped⟩], fun rest hpipe hamp => ?_⟩
  obtain ⟨s', hsegment, hquoted, hflush⟩ :=
    @Lexer.run_segment out (sep ++ rest) s
  have hhead := s.text_head (sep ++ rest)
  rw [List.append_assoc, List.append_assoc, hrun _ hhead.1 hhead.2, hsegment,
    hpiped rest hpipe hamp s' hquoted hflush]

/-- In any line that it can stand in, a spelled segment is read as its words. -/
theorem spelled_mem {pre post : List Char} (hpre : Opens pre) (hpost : Closes post)
    (s : SpelledSegment) :
    ∃ seg ∈ splitSegments (pre ++ (s.text ++ post)), seg.tokens = s.values := by
  obtain ⟨out, hrun⟩ := hpre
  obtain ⟨s', hsegment, hquoted, hflush⟩ := @Lexer.run_segment out post s
  have hhead := s.text_head post
  have hread : ∀ piped, (⟨s.values, piped⟩ : Segment) ∈
      (s'.flushToken.flushSegment piped).out := by
    intro piped
    simp [hflush, Lexer.flushSegment, SpelledSegment.values]
  rw [splitSegments, hrun _ hhead.1 hhead.2, hsegment]
  cases post with
  | nil => exact ⟨_, hread false, rfl⟩
  | cons c rest =>
      have hspace : isWhitespace ';' = false ∧ isWhitespace '|' = false ∧
        isWhitespace '&' = false := by decide
      obtain ⟨piped, hstep⟩ : ∃ piped, (s'.step c rest.head?).2 =
          s'.flushToken.flushSegment piped := by
        rcases hpost c rfl with rfl | rfl | rfl | rfl
        · exact ⟨false, by simp [Lexer.step, hquoted]⟩
        · exact ⟨false, by simp [Lexer.step, hquoted, hspace]⟩
        · by_cases hpeek : rest.head? = some '|'
          · exact ⟨false, by simp [Lexer.step, hquoted, hspace, hpeek]⟩
          · exact ⟨true, by simp [Lexer.step, hquoted, hspace, hpeek]⟩
        · exact ⟨false, by simp [Lexer.step, hquoted, hspace]⟩
      refine ⟨⟨s.values, piped⟩, Lexer.mem_flush _ ?_, rfl⟩
      rw [Lexer.run]
      apply Lexer.mem_run
      rw [hstep]
      exact hread piped

theorem splitSegments_text (s : SpelledSegment) :
    splitSegments s.text = [⟨s.values, false⟩] := by
  obtain ⟨s', hsegment, -, hflush⟩ := @Lexer.run_segment [] [] s
  have hrun : Lexer.run false s.text {} = s' := by
    rw [List.append_nil] at hsegment
    exact hsegment
  rw [splitSegments, hrun, hflush]
  simp [Lexer.flushSegment, SpelledSegment.values]

end AgentGrid.Node
