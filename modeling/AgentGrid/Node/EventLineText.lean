import AgentGrid.Node.EventOutbox

/-!
# The text of an event line

The compact JSON of a line whose payload is `null` or the name of an event
type, and a parser that reads it back.
-/

namespace AgentGrid.Node

open AgentGrid.Store

def typeName : EventType → List Char
  | .status => ['s', 't', 'a', 't', 'u', 's']
  | .stdout => ['s', 't', 'd', 'o', 'u', 't']
  | .stderr => ['s', 't', 'd', 'e', 'r', 'r']
  | .tool => ['t', 'o', 'o', 'l']
  | .artifact => ['a', 'r', 't', 'i', 'f', 'a', 'c', 't']
  | .metric => ['m', 'e', 't', 'r', 'i', 'c']
  | .result => ['r', 'e', 's', 'u', 'l', 't']
  | .error => ['e', 'r', 'r', 'o', 'r']

def valueText : Option EventType → List Char
  | none => ['n', 'u', 'l', 'l']
  | some type => '"' :: (typeName type ++ ['"'])

def seqKey : List Char := ['\x7b', '"', 's', 'e', 'q', '"', ':']

def typeKey : List Char := [',', '"', 't', 'y', 'p', 'e', '"', ':']

def payloadKey : List Char := [',', '"', 'p', 'a', 'y', 'l', 'o', 'a', 'd', '"', ':']

def enqueuedAtKey : List Char :=
  [',', '"', 'e', 'n', 'q', 'u', 'e', 'u', 'e', 'd', '_', 'a', 't', '"', ':']

def printLine (l : EventLine (Option EventType)) : List Char :=
  seqKey ++ (Nat.toDigits 10 l.seq ++
    (typeKey ++ (valueText l.ty ++
      (payloadKey ++ (valueText l.payload ++
        (enqueuedAtKey ++ (Nat.toDigits 10 l.enqueuedAt ++ ['\x7d'])))))))

def expect : List Char → List Char → Option (List Char)
  | [], text => some text
  | _ :: _, [] => none
  | c :: cs, d :: text => if c = d then expect cs text else none

def readNumber (text : List Char) : Option (Nat × List Char) :=
  let digits := text.takeWhile Char.isDigit
  if digits.isEmpty then none
  else some (Nat.ofDigitChars 10 digits 0, text.dropWhile Char.isDigit)

def values : List (Option EventType) :=
  [none, some .status, some .stdout, some .stderr, some .tool, some .artifact,
   some .metric, some .result, some .error]

def readValue (text : List Char) : Option (Option EventType × List Char) :=
  values.findSome? fun value => (expect (valueText value) text).map (value, ·)

def parseLine (text : List Char) : Option (EventLine (Option EventType)) := do
  let rest ← expect seqKey (text.rdropWhile (· == '\r'))
  let (seq, rest) ← readNumber rest
  let rest ← expect typeKey rest
  let (ty, rest) ← readValue rest
  let rest ← expect payloadKey rest
  let (payload, rest) ← readValue rest
  let rest ← expect enqueuedAtKey rest
  let (enqueuedAt, rest) ← readNumber rest
  let rest ← expect ['\x7d'] rest
  if rest.isEmpty then some { seq, ty, payload, enqueuedAt } else none

theorem expect_append (token rest : List Char) : expect token (token ++ rest) = some rest := by
  induction token with
  | nil => cases rest <;> rfl
  | cons c token ih => rw [List.cons_append, expect, if_pos rfl, ih]

theorem readNumber_append (n : Nat) {c : Char} (hc : c.isDigit = false) (rest : List Char) :
    readNumber (Nat.toDigits 10 n ++ c :: rest) = some (n, c :: rest) := by
  have hdigits : ∀ d ∈ Nat.toDigits 10 n, d.isDigit = true := by
    intro d hd
    exact Nat.isDigit_of_mem_toDigits (by decide) (by decide) hd
  have htake : (Nat.toDigits 10 n ++ c :: rest).takeWhile Char.isDigit =
      Nat.toDigits 10 n := by
    rw [List.takeWhile_append_of_pos hdigits, List.takeWhile_cons_of_neg (by simp [hc]),
      List.append_nil]
  have hdrop : (Nat.toDigits 10 n ++ c :: rest).dropWhile Char.isDigit = c :: rest := by
    rw [List.dropWhile_append_of_pos hdigits, List.dropWhile_cons_of_neg (by simp [hc])]
  have hne : (Nat.toDigits 10 n).isEmpty = false := by
    simp
  simp only [readNumber, htake, hdrop, hne, Nat.ofDigitChars_ten_toDigits]
  rfl

theorem readValue_append (value : Option EventType) (rest : List Char) :
    readValue (valueText value ++ rest) = some (value, rest) := by
  cases value with
  | none => rfl
  | some type => cases type <;> rfl

theorem getLast?_printLine (l : EventLine (Option EventType)) :
    (printLine l).getLast? = some '\x7d' := by
  simp [printLine, List.getLast?_append]

theorem rdropWhile_printLine (l : EventLine (Option EventType)) :
    (printLine l).rdropWhile (· == '\r') = printLine l := by
  rw [List.rdropWhile_eq_self_iff]
  intro hne
  have hlast := getLast?_printLine l
  rw [List.getLast?_eq_getLast_of_ne_nil hne] at hlast
  rw [Option.some.inj hlast]
  decide

theorem parseLine_printLine (l : EventLine (Option EventType)) :
    parseLine (printLine l) = some l := by
  have hseq : ∀ rest, readNumber (Nat.toDigits 10 l.seq ++ (typeKey ++ rest)) =
      some (l.seq, typeKey ++ rest) := fun _ => readNumber_append l.seq (by decide) _
  have hat : readNumber (Nat.toDigits 10 l.enqueuedAt ++ ['\x7d']) =
      some (l.enqueuedAt, ['\x7d']) := readNumber_append l.enqueuedAt (by decide) []
  rw [parseLine, rdropWhile_printLine, printLine]
  simp only [expect_append, hseq, readValue_append, hat, Option.bind_eq_bind, Option.bind_some]
  rfl

theorem newline_not_mem_printLine (l : EventLine (Option EventType)) :
    '\n' ∉ printLine l := by
  have hdigits : ∀ n, '\n' ∉ Nat.toDigits 10 n := by
    intro n hn
    have hdigit := Nat.isDigit_of_mem_toDigits (by decide) (by decide) hn
    revert hdigit
    decide
  have hvalue : ∀ value, '\n' ∉ valueText value := by
    intro value
    cases value with
    | none => decide
    | some type => cases type <;> decide
  simp only [printLine, List.mem_append, not_or]
  exact ⟨by decide, hdigits _, by decide, hvalue _, by decide, hvalue _, by decide, hdigits _,
    by decide⟩

def lineText : LineCodec (Option EventType) where
  typeValue := some
  typeOf := id
  print := printLine
  parse := parseLine
  typeOf_typeValue _ := rfl
  parse_print := parseLine_printLine
  newline_not_mem := newline_not_mem_printLine
  print_brace := getLast?_printLine
  parse_cr text := by
    rw [parseLine, parseLine, List.rdropWhile_concat_pos _ _ _ (by rfl)]

end AgentGrid.Node
