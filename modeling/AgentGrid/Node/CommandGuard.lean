import Mathlib.Data.List.Infix
import Mathlib.Data.List.Sort
import AgentGrid.Node.OutputStream
import Mathlib.Algebra.Ring.Nat

/-!
# The command guard

A command line is cut into segments of tokens the way a shell would, and a segment
is refused when a deny pattern names its command word and all other tokens of the
pattern are among its own.
-/

namespace AgentGrid.Node

abbrev Token := List Char

/-- One command of a chain; whether the separator after it was a single `|`. -/
structure Segment where
  tokens : List Token
  pipedToNext : Bool
deriving DecidableEq, Repr

/-! ## Tokens -/

/-- `char::is_whitespace`. -/
def isWhitespace (c : Char) : Bool :=
  let n := c.toNat
  (9 ≤ n && n ≤ 13) || n == 0x20 || n == 0x85 || n == 0xA0 || n == 0x1680 ||
    (0x2000 ≤ n && n ≤ 0x200A) || n == 0x2028 || n == 0x2029 || n == 0x202F ||
    n == 0x205F || n == 0x3000

structure Lexer where
  out : List Segment := []
  tokens : List Token := []
  cur : Token := []
  hasToken : Bool := false
  inSingle : Bool := false
  inDouble : Bool := false

namespace Lexer

def push (c : Char) (s : Lexer) : Lexer := { s with cur := s.cur ++ [c], hasToken := true }

def flushToken (s : Lexer) : Lexer :=
  if s.hasToken then { s with tokens := s.tokens ++ [s.cur], cur := [], hasToken := false } else s

def flushSegment (piped : Bool) (s : Lexer) : Lexer :=
  if s.tokens.isEmpty then s else { s with out := s.out ++ [⟨s.tokens, piped⟩], tokens := [] }

def quoted (s : Lexer) : Bool := s.inSingle || s.inDouble

/-- One round of the loop of `split_segments`: whether it takes the character after
this one too, and the state it leaves. -/
def step (s : Lexer) (c : Char) (peek : Option Char) : Bool × Lexer :=
  if c = '\\' ∧ s.inSingle = false then
    match peek with
    | some next => (true, s.push next)
    | none => (false, s)
  else if c = '\'' ∧ s.inDouble = false then
    (false, { s with inSingle := !s.inSingle, hasToken := true })
  else if c = '"' ∧ s.inSingle = false then
    (false, { s with inDouble := !s.inDouble, hasToken := true })
  else if c = '\n' ∧ s.quoted = false then (false, s.flushToken.flushSegment false)
  else if isWhitespace c = true ∧ s.quoted = false then (false, s.flushToken)
  else if c = '|' ∧ s.quoted = false then
    if peek = some '|' then (true, s.flushToken.flushSegment false)
    else (false, s.flushToken.flushSegment true)
  else if c = '&' ∧ s.quoted = false then
    (peek = some '&', s.flushToken.flushSegment false)
  else if c = ';' ∧ s.quoted = false then (false, s.flushToken.flushSegment false)
  else (false, s.push c)

/-- The loop, when the next character has been taken already or not. -/
def run : Bool → List Char → Lexer → Lexer
  | _, [], s => s
  | true, _ :: rest, s => run false rest s
  | false, c :: rest, s => run (s.step c rest.head?).1 rest (s.step c rest.head?).2

end Lexer

def splitSegments (cmd : List Char) : List Segment :=
  ((Lexer.run false cmd {}).flushToken.flushSegment false).out

/-- The letters of a short-flag cluster in order. -/
def normalizeToken (token : Token) : Token :=
  match token with
  | '-' :: letters =>
      if 2 < utf8Bytes ('-' :: letters) ∧ letters.head? ≠ some '-' then
        '-' :: letters.insertionSort (· ≤ ·)
      else '-' :: letters
  | token => token

def tokenize (cmd : List Char) : List Token :=
  ((splitSegments cmd).flatMap Segment.tokens).map normalizeToken

def tokenizePatterns (patterns : List String) : List (List Token) :=
  (patterns.map fun p => tokenize p.toList).filter fun t => !t.isEmpty

/-- What stands after the last `/`. -/
def basename (token : Token) : Token := (token.reverse.takeWhile (· ≠ '/')).reverse

def tokenMatches (pat tok : Token) : Bool :=
  if pat = tok then true
  else if pat = ['/'] then
    tok.head? == some '/' && !(tok.dropWhile (· = '/')).contains '/' &&
      !(tok.dropWhile (· = '/')).isEmpty
  else if pat.getLast? = some '/' ∨ pat.getLast? = some '.' ∨ '=' ∈ pat then pat.isPrefixOf tok
  else false

/-! ## Segments -/

def wrappers : List String :=
  ["sudo", "doas", "env", "nohup", "time", "command", "exec", "xargs", "nice", "ionice",
    "stdbuf"]

def isWrapper (token : Token) : Bool := wrappers.any fun w => w.toList = basename token

def isOption (token : Token) : Bool := token.head? == some '-'

/-- `command_word`, once a wrapper has been seen or not. -/
def commandWordFrom : Bool → List Token → Option Token
  | _, [] => none
  | wrapped, token :: rest =>
      if wrapped && isOption token then commandWordFrom true rest
      else if isWrapper token then commandWordFrom true rest
      else some token

def commandWord (tokens : List Token) : Option Token := commandWordFrom false tokens

def segmentMatches (pattern : List Token) (tokens : List Token) : Bool :=
  match pattern, commandWord tokens with
  | first :: others, some cmd =>
      (basename (normalizeToken cmd) == first || tokenMatches first (normalizeToken cmd)) &&
        others.all fun p => tokens.any fun t => tokenMatches p (normalizeToken t)
  | _, _ => false

def prefixMatches (pattern : List Token) (tokens : List Token) : Bool :=
  !pattern.isEmpty && decide (pattern.length ≤ tokens.length) &&
    (pattern.zip tokens).all fun (p, t) =>
      tokenMatches p (normalizeToken t) || basename (normalizeToken t) == p

def downloaders : List String := ["curl", "wget"]

def interpreters : List String :=
  ["sh", "bash", "zsh", "dash", "ksh", "fish", "python", "python3", "perl", "ruby", "node"]

def pipesIntoAnInterpreter (segments : List Segment) (i : Nat) : Bool :=
  match segments[i]?, segments[i + 1]? with
  | some seg, some next =>
      seg.pipedToNext &&
        (match seg.tokens.head?, next.tokens.head? with
        | some cmd, some target =>
            downloaders.any (fun w => w.toList = basename cmd) &&
              interpreters.any (fun w => w.toList = basename target)
        | _, _ => false)
  | _, _ => false

/-! ## The decision -/

structure CommandGuard where
  deny : List (List Token)
  allow : List (List Token)

def rawDeny : List String := [":()\x7b"]

def defaultDeny : List String :=
  ["rm -rf /", "rm -rf /*", "git push --force", "git push -f", "git reset --hard", "dd of=/dev",
    "mkfs.", "chmod -R 777 /"]

/-- `str::contains`. -/
def containsText (text pat : List Char) : Bool := text.tails.any fun rest => pat.isPrefixOf rest

theorem containsText_iff {text pat : List Char} : containsText text pat = true ↔ pat <:+: text := by
  rw [containsText, List.any_eq_true]
  constructor
  · rintro ⟨rest, hrest, hpat⟩
    exact (List.isPrefixOf_iff_prefix.mp hpat).isInfix.trans ((List.mem_tails _ _).mp hrest).isInfix
  · rintro ⟨before, rest, rfl⟩
    refine ⟨pat ++ rest, ?_, List.isPrefixOf_iff_prefix.mpr (List.prefix_append _ _)⟩
    rw [List.mem_tails, List.append_assoc]
    exact List.suffix_append _ _

namespace CommandGuard

/-- `CommandGuard::new`. -/
def ofLists (deny allow : List String) : CommandGuard where
  deny := tokenizePatterns (if deny.isEmpty then defaultDeny else deny)
  allow := tokenizePatterns allow

def decide (g : CommandGuard) (cmd : List Char) : GuardDecision :=
  let segments := splitSegments cmd
  if rawDeny.any fun pat => containsText (cmd.map Char.toLower) pat.toList then .deniedMatch
  else if segments.isEmpty then .allowed
  else if (segments.zipIdx.any fun (seg, i) =>
      g.deny.any (fun pat => segmentMatches pat seg.tokens) ||
        pipesIntoAnInterpreter segments i) then .deniedMatch
  else if !g.allow.isEmpty &&
      !segments.all (fun seg => g.allow.any fun pat => prefixMatches pat seg.tokens) then
    .deniedNotAllowlisted
  else .allowed

theorem segments_clear_iff {g : CommandGuard} {segments : List Segment} :
    (segments.zipIdx.any fun (seg, i) =>
      g.deny.any (fun pat => segmentMatches pat seg.tokens) ||
        pipesIntoAnInterpreter segments i) = false ↔
      (∀ seg ∈ segments, ∀ pat ∈ g.deny, segmentMatches pat seg.tokens = false) ∧
        ∀ i, pipesIntoAnInterpreter segments i = false := by
  rw [List.any_eq_false]
  constructor
  · intro h
    have hat : ∀ i seg, segments[i]? = some seg →
        (∀ pat ∈ g.deny, segmentMatches pat seg.tokens = false) ∧
          pipesIntoAnInterpreter segments i = false := by
      intro i seg hi
      have hnot := h (seg, i) (List.mem_zipIdx_iff_getElem?.mpr hi)
      simpa [not_or] using hnot
    refine ⟨?_, ?_⟩
    · intro seg hseg
      obtain ⟨i, hi⟩ := List.mem_iff_getElem?.mp hseg
      exact (hat i seg hi).1
    · intro i
      cases hi : segments[i]? with
      | none => simp [pipesIntoAnInterpreter, hi]
      | some seg => exact (hat i seg hi).2
  · rintro ⟨hdeny, hpipe⟩ ⟨seg, i⟩ hmem
    have hseg := List.mem_of_getElem? (List.mem_zipIdx_iff_getElem?.mp hmem)
    have hnone := hdeny seg hseg
    simpa [hpipe i] using hnone

theorem decide_of_segment {g : CommandGuard} {cmd : List Char} {seg : Segment} {pat : List Token}
    (hseg : seg ∈ splitSegments cmd) (hpat : pat ∈ g.deny)
    (hmatch : segmentMatches pat seg.tokens = true) : g.decide cmd = .deniedMatch := by
  have hne : (splitSegments cmd).isEmpty = false := by
    rw [List.isEmpty_eq_false_iff]
    exact List.ne_nil_of_mem hseg
  unfold decide
  dsimp only
  rw [hne]
  split_ifs with hraw hempty hdenied
  · rfl
  · cases hempty
  · rfl
  all_goals
    have hclear := (segments_clear_iff.mp (Bool.eq_false_iff.mpr hdenied)).1 seg hseg pat hpat
    rw [hmatch] at hclear
    cases hclear

end CommandGuard

example : ((CommandGuard.ofLists [] []).decide "rm -fr /".toList,
    (CommandGuard.ofLists [] []).decide "rm -r -f /".toList) = (.deniedMatch, .allowed) := by
  decide +kernel

end AgentGrid.Node
