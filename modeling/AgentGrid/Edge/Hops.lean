import Mathlib.Data.Fintype.Pigeonhole
import Mathlib.Data.List.Chain
import AgentGrid.Edge.Headers

/-!
# Chains of forwarders

Every forwarder counts itself into a header of the request before it forwards it,
and one with a limit refuses a request whose count has reached it.
-/

namespace AgentGrid.Edge

def hopsHeader : String := "x-agentgrid-relay-hops"

/-- `HeaderValue::to_str`: visible ASCII and tabs. -/
def toStr (value : HeaderValue) : Option (List Char) :=
  if value.all fun c => (32 ≤ c.toNat && c.toNat < 127) || c == '\t' then some value else none

/-- `str::trim` of such a text. -/
def trimBlanks (text : List Char) : List Char :=
  let isBlank := fun c => c == ' ' || c == '\t'
  ((text.dropWhile isBlank).reverse.dropWhile isBlank).reverse

/-- What follows an optional sign. -/
def unsigned : List Char → List Char
  | '+' :: rest => rest
  | text => text

/-- `str::parse::<u32>`. -/
def parseU32 (text : List Char) : Option Nat :=
  let digits := unsigned text
  if digits = [] then none
  else if digits.all Char.isDigit then
    let n := Nat.ofDigitChars 10 digits 0
    if n < 2 ^ 32 then some n else none
  else none

def seenHops (header : Option (List Char)) : Nat :=
  (header.bind fun text => parseU32 (trimBlanks text)).getD 0

def nextHop (seen : Option (List Char)) (max : Nat) : Except Nat Nat :=
  let seen := seenHops seen
  if max ≤ seen then .error seen else .ok (seen + 1)

/-- The layer in front of both forwarding paths; an error is the answer `508`
with the count on the request. -/
def guardHops (maxHops : Option UInt32) (headers : HeaderMap) : Except Nat HeaderMap := do
  let seenHeader := (headers.get hopsHeader).bind toStr
  let next ← match maxHops with
    | some max => nextHop seenHeader max.toNat
    | none => .ok (min (seenHops seenHeader + 1) (2 ^ 32 - 1))
  return headers.insert hopsHeader (Nat.toDigits 10 next)

/-- The two paths a request takes to an upstream; the request of a bridge starts
from what the WebSocket client builds. -/
inductive Route
  | proxy
  | bridge (built : HeaderMap)

/-- The head of the request that a forwarder sends upstream. -/
def forward (maxHops : Option UInt32) (route : Route) (headers : HeaderMap) :
    Except Nat HeaderMap := do
  let guarded ← guardHops maxHops headers
  return match route with
    | .proxy => proxyHeaders guarded
    | .bridge built => bridgeHeaders built guarded

/-- Forwarders, and which of them another one may have as its upstream. -/
structure Topology where
  size : Nat
  maxHops : Fin size → Option UInt32
  upstream : Fin size → Fin size → Prop

namespace Topology

variable (T : Topology)

/-- The forwarder sends a request on to an upstream, which is a forwarder; the
connection leaves the count as it is. -/
def Forwards (f : Fin T.size) (headers : HeaderMap) (g : Fin T.size) (received : HeaderMap) :
    Prop :=
  T.upstream f g ∧ ∃ route sent, forward (T.maxHops f) route headers = .ok sent ∧
    received.getAll hopsHeader = sent.getAll hopsHeader

/-- A chain of forwards from the client on. -/
structure Chain (length : Nat) where
  station : Nat → Fin T.size
  headers : Nat → HeaderMap
  forwards : ∀ i < length, T.Forwards (station i) (headers i) (station (i + 1)) (headers (i + 1))

/-- A cycle of upstreams. -/
def Cycle (c : List (Fin T.size)) : Prop :=
  ∃ f rest, c = f :: rest ∧ (f :: rest ++ [f]).IsChain T.upstream

def Limited : Prop := ∀ c, T.Cycle c → ∃ f ∈ c, (T.maxHops f).isSome

end Topology

/-! ## The count -/

theorem toStr_digits (n : Nat) : toStr (Nat.toDigits 10 n) = some (Nat.toDigits 10 n) := by
  rw [toStr, if_pos]
  apply List.all_eq_true.mpr
  intro c hc
  have hdigit := Nat.isDigit_of_mem_toDigits (by decide) (by decide) hc
  simp only [Char.isDigit, Bool.and_eq_true, decide_eq_true_eq] at hdigit
  have hlow : 48 ≤ c.toNat := UInt32.le_iff_toNat_le.mp hdigit.1
  have hhigh : c.toNat ≤ 57 := UInt32.le_iff_toNat_le.mp hdigit.2
  simp only [Bool.or_eq_true, Bool.and_eq_true, decide_eq_true_eq]
  omega

theorem trimBlanks_digits (n : Nat) : trimBlanks (Nat.toDigits 10 n) = Nat.toDigits 10 n := by
  have hkept : ∀ text : List Char, (∀ c ∈ text, c.isDigit) →
      text.dropWhile (fun c => c == ' ' || c == '\t') = text := by
    intro text htext
    cases text with
    | nil => rfl
    | cons c text =>
        have hc := htext c List.mem_cons_self
        apply List.dropWhile_cons_of_neg
        intro hblank
        simp only [Bool.or_eq_true, beq_iff_eq] at hblank
        rcases hblank with rfl | rfl <;> exact absurd hc (by decide)
  have hdigits : ∀ c ∈ Nat.toDigits 10 n, c.isDigit :=
    fun c hc => Nat.isDigit_of_mem_toDigits (by decide) (by decide) hc
  rw [trimBlanks, hkept _ hdigits, hkept _ fun c hc => hdigits c (List.mem_reverse.mp hc),
    List.reverse_reverse]

theorem parseU32_digits {n : Nat} (h : n < 2 ^ 32) : parseU32 (Nat.toDigits 10 n) = some n := by
  have hdigits : ∀ c ∈ Nat.toDigits 10 n, c.isDigit :=
    fun c hc => Nat.isDigit_of_mem_toDigits (by decide) (by decide) hc
  have hplain : unsigned (Nat.toDigits 10 n) = Nat.toDigits 10 n := by
    rw [unsigned.eq_def]
    split
    · rename_i rest htext
      exact absurd (hdigits '+' (htext ▸ List.mem_cons_self)) (by decide)
    · rfl
  rw [parseU32, hplain, if_neg Nat.toDigits_ne_nil, if_pos (List.all_eq_true.mpr hdigits)]
  rw [Nat.ofDigitChars_ten_toDigits]
  exact if_pos h

/-- A count that a forwarder has written is read back. -/
theorem seenHops_digits {n : Nat} (h : n < 2 ^ 32) :
    seenHops (toStr (Nat.toDigits 10 n)) = n := by
  rw [toStr_digits, seenHops, Option.bind_some, trimBlanks_digits, parseU32_digits h,
    Option.getD_some]

/-- The count on a request as a forwarder reads it. -/
def countOf (headers : HeaderMap) : Nat := seenHops ((headers.get hopsHeader).bind toStr)

theorem parseU32_lt {text : List Char} {n : Nat} (h : parseU32 text = some n) : n < 2 ^ 32 := by
  unfold parseU32 at h
  dsimp only at h
  split at h
  · cases h
  split at h
  · split at h
    · rename_i hlt
      cases h
      exact hlt
    · cases h
  · cases h

theorem countOf_lt (headers : HeaderMap) : countOf headers < 2 ^ 32 := by
  rw [countOf, seenHops]
  cases hread : ((headers.get hopsHeader).bind toStr).bind fun text =>
      parseU32 (trimBlanks text) with
  | none => decide
  | some n =>
      obtain ⟨text, -, hparse⟩ := Option.bind_eq_some_iff.mp hread
      exact parseU32_lt hparse

/-- What a request that passes the guard has on it afterwards. -/
theorem guardHops_ok {maxHops : Option UInt32} {headers guarded : HeaderMap}
    (h : guardHops maxHops headers = .ok guarded) :
    (∀ max, maxHops = some max → countOf headers < max.toNat) ∧
      guarded.getAll hopsHeader =
        [Nat.toDigits 10 (min (countOf headers + 1) (2 ^ 32 - 1))] := by
  have hlt := countOf_lt headers
  cases maxHops with
  | none =>
      refine ⟨nofun, ?_⟩
      cases h
      exact HeaderMap.getAll_insert_self _ _
  | some max =>
      simp only [guardHops, nextHop, bind, Except.bind] at h
      split at h
      · cases h
      rename_i next hnext
      split at hnext <;> cases hnext
      rename_i hbelow
      cases h
      have hmax := max.toNat_lt
      have hcount : countOf headers < max.toNat := not_le.mp hbelow
      refine ⟨fun _ hsame => by cases hsame; exact hcount, ?_⟩
      rw [HeaderMap.getAll_insert_self, Nat.min_eq_left (by omega)]
      rfl

theorem bridgeHeaders_hops (built headers : HeaderMap) {value : HeaderValue}
    (h : headers.getAll hopsHeader = [value]) :
    (bridgeHeaders built headers).getAll hopsHeader = [value] := by
  rw [bridgeHeaders, insertKept_getAll (by decide)]
  change ((headers.getAll hopsHeader).getLast?.map fun value => [value]).getD _ = _
  rw [h]
  rfl

/-- A forwarder counts itself, on either path. -/
theorem forward_ok {maxHops : Option UInt32} {route : Route} {headers sent received : HeaderMap}
    (h : forward maxHops route headers = .ok sent)
    (hreceived : received.getAll hopsHeader = sent.getAll hopsHeader) :
    (∀ max, maxHops = some max → countOf headers < max.toNat) ∧
      countOf received = min (countOf headers + 1) (2 ^ 32 - 1) := by
  simp only [forward, bind, Except.bind] at h
  split at h
  · cases h
  rename_i guarded hguarded
  obtain ⟨hbelow, hcount⟩ := guardHops_ok hguarded
  refine ⟨hbelow, ?_⟩
  have hsent : sent.getAll hopsHeader = guarded.getAll hopsHeader := by
    cases route with
    | proxy =>
        cases h
        exact proxyHeaders_getAll guarded (by decide)
    | bridge built =>
        cases h
        rw [bridgeHeaders_hops built guarded hcount, hcount]
  have hlt : min (countOf headers + 1) (2 ^ 32 - 1) < 2 ^ 32 := by omega
  rw [countOf, HeaderMap.get, hreceived, hsent, hcount]
  exact seenHops_digits hlt

namespace Topology

variable {T : Topology}

/-- A request has been counted by every forwarder it has crossed, as far as the
counter goes. -/
theorem Chain.counted {length : Nat} (c : T.Chain length) :
    ∀ i ≤ length, min i (2 ^ 32 - 1) ≤ countOf (c.headers i) := by
  intro i
  induction i with
  | zero => simp
  | succ i ih =>
      intro hi
      obtain ⟨-, route, sent, hsent, hreceived⟩ := c.forwards i (by omega)
      have hcount := (forward_ok hsent hreceived).2
      have := ih (by omega)
      omega

/-- A forwarder with a limit does not forward what has crossed that many. -/
theorem Chain.refuses {length : Nat} (c : T.Chain length) {max : UInt32}
    (hmax : T.maxHops (c.station length) = some max) (hcrossed : max.toNat ≤ length)
    (route : Route) (sent : HeaderMap) :
    forward (T.maxHops (c.station length)) route (c.headers length) ≠ .ok sent := by
  intro hsent
  have hbelow := (forward_ok hsent rfl).1 max hmax
  have hcount := c.counted length (le_refl _)
  have hmaxlt := max.toNat_lt
  omega

theorem isChain_range {station : Nat → Fin T.size} {i k : Nat}
    (h : ∀ j, i ≤ j → j < i + k → T.upstream (station j) (station (j + 1))) :
    ((List.range (k + 1)).map fun j => station (i + j)).IsChain T.upstream := by
  induction k with
  | zero => simp
  | succ k ih =>
      rw [List.range_succ, List.map_append, List.map_singleton]
      refine (ih fun j hij hjk => h j hij (by omega)).append (.singleton _) ?_
      intro x hx y hy
      rw [List.range_succ, List.map_append, List.map_singleton, List.getLast?_concat] at hx
      cases hx
      cases hy
      exact h (i + k) (by omega) (by omega)

/-- Where every cycle has a forwarder with a limit, no chain goes on for ever, and
a forwarder with a limit never forwards what has crossed that many forwarders. -/
theorem relay_chains_terminate (T : Topology) (hlimited : T.Limited) :
    (¬ ∃ (station : Nat → Fin T.size) (headers : Nat → HeaderMap),
      ∀ i, T.Forwards (station i) (headers i) (station (i + 1)) (headers (i + 1))) ∧
    ∀ (length : Nat) (c : T.Chain length) (max : UInt32),
      T.maxHops (c.station length) = some max → max.toNat ≤ length →
      ∀ route sent, forward (T.maxHops (c.station length)) route (c.headers length) ≠ .ok sent := by
  refine ⟨?_, fun length c max hmax hcrossed => c.refuses hmax hcrossed⟩
  rintro ⟨station, headers, hforwards⟩
  -- beyond the largest limit the chain comes to some forwarder twice
  obtain ⟨a, b, hne, hsame⟩ :=
    Finite.exists_ne_map_eq_of_infinite fun k => station (2 ^ 32 + k)
  obtain ⟨i, k, hi, hreturn⟩ : ∃ i k, 2 ^ 32 ≤ i ∧ station (i + (k + 1)) = station i := by
    rcases Nat.lt_or_gt_of_ne hne with hlt | hlt
    · exact ⟨2 ^ 32 + a, b - a - 1, by omega, by
        rw [show 2 ^ 32 + a + (b - a - 1 + 1) = 2 ^ 32 + b by omega]
        exact hsame.symm⟩
    · exact ⟨2 ^ 32 + b, a - b - 1, by omega, by
        rw [show 2 ^ 32 + b + (a - b - 1 + 1) = 2 ^ 32 + a by omega]
        exact hsame⟩
  have hchain : ((List.range (k + 1 + 1)).map fun j => station (i + j)).IsChain T.upstream :=
    isChain_range fun j _ _ => (hforwards j).1
  have hcycle : T.Cycle ((List.range (k + 1)).map fun j => station (i + j)) := by
    refine ⟨station i, (List.range k).map fun j => station (i + (j + 1)), ?_, ?_⟩
    · rw [List.range_succ_eq_map, List.map_cons, List.map_map]
      rfl
    · rw [List.range_succ, List.map_append, List.map_singleton, hreturn,
        List.range_succ_eq_map, List.map_cons, List.map_map] at hchain
      exact hchain
  obtain ⟨f, hf, hmax⟩ := hlimited _ hcycle
  obtain ⟨j, -, rfl⟩ := List.mem_map.mp hf
  obtain ⟨max, hmax⟩ := Option.isSome_iff_exists.mp hmax
  obtain ⟨-, route, sent, hsent, -⟩ := hforwards (i + j)
  have hmaxlt := max.toNat_lt
  exact Chain.refuses ⟨station, headers, fun l _ => hforwards l⟩ hmax (by omega) route sent hsent

/-- A standalone edge and a relay with a limit of two, each the other's upstream. -/
def facing : Topology where
  size := 2
  maxHops f := if f = 0 then none else some 2
  upstream f g := f ≠ g

theorem relay_chains_terminate_facing :
    ¬ ∃ (station : Nat → Fin facing.size) (headers : Nat → HeaderMap),
      ∀ i, facing.Forwards (station i) (headers i) (station (i + 1)) (headers (i + 1)) := by
  refine (relay_chains_terminate facing ?_).1
  rintro c ⟨f, rest, rfl, hchain⟩
  have hcases : ∀ g : Fin 2, g = 0 ∨ (facing.maxHops g).isSome = true := by decide
  rcases hcases f with rfl | hmax
  · cases rest with
    | nil => exact absurd rfl (List.isChain_cons_cons.mp hchain).1
    | cons g rest =>
        have hne : (0 : Fin 2) ≠ g := (List.isChain_cons_cons.mp hchain).1
        exact ⟨g, .tail _ (.head _), (hcases g).resolve_left hne.symm⟩
  · exact ⟨f, .head _, hmax⟩

end Topology

end AgentGrid.Edge
