import Mathlib.Data.List.Basic

/-!
# Header lines

A header map keeps the lines of a message head.  A value is its bytes, each as
the character of the same number.  The forwarder copies maps line by line, on one
path by appending a line and on the others by `HeaderMap::insert`, which replaces
every line of the same name.
-/

namespace AgentGrid.Edge

abbrev HeaderValue := List Char

structure HeaderMap where
  lines : List (String × HeaderValue) := []
deriving Repr, DecidableEq

namespace HeaderMap

def getAll (headers : HeaderMap) (name : String) : List HeaderValue :=
  (headers.lines.filter fun line => line.1 == name).map Prod.snd

def get (headers : HeaderMap) (name : String) : Option HeaderValue := (headers.getAll name).head?

def insert (headers : HeaderMap) (name : String) (value : HeaderValue) : HeaderMap :=
  ⟨(headers.lines.filter fun line => line.1 != name) ++ [(name, value)]⟩

def append (headers : HeaderMap) (name : String) (value : HeaderValue) : HeaderMap :=
  ⟨headers.lines ++ [(name, value)]⟩

variable (headers : HeaderMap) {name other : String} (value : HeaderValue)

@[simp] theorem getAll_insert_self : (headers.insert name value).getAll name = [value] := by
  simp [getAll, insert, List.filter_append, List.filter_filter]

@[simp] theorem getAll_insert_of_ne (h : other ≠ name) :
    (headers.insert name value).getAll other = headers.getAll other := by
  have hkept : ∀ line : String × HeaderValue,
      (line.1 == other && line.1 != name) = (line.1 == other) := by
    intro line
    by_cases hline : line.1 = other <;> simp [hline, h]
  simp [getAll, insert, List.filter_append, List.filter_filter, hkept, h.symm]

@[simp] theorem getAll_append_self :
    (headers.append name value).getAll name = headers.getAll name ++ [value] := by
  simp [getAll, append]

@[simp] theorem getAll_append_of_ne (h : other ≠ name) :
    (headers.append name value).getAll other = headers.getAll other := by
  simp [getAll, append, h.symm]

end HeaderMap

def isHopByHop (name : String) : Bool :=
  name ∈ ["connection", "keep-alive", "proxy-authenticate", "proxy-authorization", "te",
    "trailer", "transfer-encoding", "upgrade", "host", "content-length"]

/-- The loop of `proxy` over the lines of a request. -/
def proxyHeaders (headers : HeaderMap) : HeaderMap :=
  headers.lines.foldl (fun out line =>
    if isHopByHop line.1 then out else out.append line.1 line.2) {}

/-- The loops that insert the lines that are kept into a map. -/
def insertKept (keep : String → Bool) (out : HeaderMap) (lines : List (String × HeaderValue)) :
    HeaderMap :=
  lines.foldl (fun out line => if keep line.1 then out.insert line.1 line.2 else out) out

/-- The loop of `forward_response` over the lines of a response. -/
def responseHeaders (headers : HeaderMap) : HeaderMap :=
  insertKept (fun name => !isHopByHop name) {} headers.lines

/-- The loop of `bridge_ws` into the request that `into_client_request` has built. -/
def bridgeHeaders (built headers : HeaderMap) : HeaderMap :=
  insertKept (fun name => !(isHopByHop name || name ∈ ["sec-websocket-key",
    "sec-websocket-version", "sec-websocket-extensions"])) built headers.lines

theorem proxyHeaders_getAll (headers : HeaderMap) {name : String} (h : isHopByHop name = false) :
    (proxyHeaders headers).getAll name = headers.getAll name := by
  have hall : ∀ (lines : List (String × HeaderValue)) (out : HeaderMap),
      (lines.foldl (fun out line => if isHopByHop line.1 then out else
        out.append line.1 line.2) out).getAll name = out.getAll name ++ HeaderMap.getAll ⟨lines⟩ name := by
    intro lines
    induction lines with
    | nil => simp [HeaderMap.getAll]
    | cons line lines ih =>
        intro out
        rw [List.foldl_cons, ih]
        by_cases hline : line.1 = name
        · subst hline
          simp [h, HeaderMap.getAll, HeaderMap.append]
        · have hother : (if isHopByHop line.1 then out else
              out.append line.1 line.2).getAll name = out.getAll name := by
            split
            · rfl
            · exact HeaderMap.getAll_append_of_ne _ _ (Ne.symm hline)
          rw [hother]
          simp [HeaderMap.getAll, hline]
  simpa [proxyHeaders, HeaderMap.getAll] using hall headers.lines {}

/-- Of a repeated name the last line is left. -/
theorem insertKept_getAll {keep : String → Bool} {name : String} (h : keep name = true)
    (out : HeaderMap) (lines : List (String × HeaderValue)) :
    (insertKept keep out lines).getAll name =
      (((HeaderMap.mk lines).getAll name).getLast?.map fun value => [value]).getD
        (out.getAll name) := by
  induction lines generalizing out with
  | nil => rfl
  | cons line lines ih =>
      rw [insertKept, List.foldl_cons, ← insertKept, ih]
      by_cases hline : line.1 = name
      · subst hline
        rw [if_pos h, HeaderMap.getAll_insert_self]
        cases hlast : ((HeaderMap.mk lines).getAll line.1).getLast? with
        | none =>
            have hnone := List.getLast?_eq_none_iff.mp hlast
            simp only [HeaderMap.getAll, List.map_eq_nil_iff] at hnone
            simp [HeaderMap.getAll, hnone]
        | some value =>
            have hcons : (HeaderMap.mk (line :: lines)).getAll line.1 =
                line.2 :: (HeaderMap.mk lines).getAll line.1 := by
              simp [HeaderMap.getAll]
            rw [hcons, List.getLast?_cons, hlast]
            rfl
      · have hsame : (HeaderMap.mk (line :: lines)).getAll name =
            (HeaderMap.mk lines).getAll name := by
          simp [HeaderMap.getAll, hline]
        rw [hsame]
        split
        · rw [HeaderMap.getAll_insert_of_ne _ _ (Ne.symm hline)]
        · rfl

end AgentGrid.Edge
