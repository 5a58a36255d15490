import AgentGrid.Edge.Forward

/-!
# Which paths reach the upstream

The forwarder compares the path of a request as it came with its prefixes and then
hands the URL to the HTTP client as text.  The client reads it as the URL standard
says: a backslash separates segments too, dot segments are taken out in any of
their spellings, and some characters are percent-encoded.
-/

namespace AgentGrid.Edge

/-! ## The path of a URL -/

def isSeparator (c : Char) : Bool := c == '/' || c == '\\'

/-- The characters of a segment that are not percent-encoded. -/
def isKept (c : Char) : Bool :=
  0x21 ≤ c.toNat && c.toNat ≤ 0x7E &&
    !(c ∈ ['"', '#', '<', '>', '?', Char.ofNat 0x60, '\x7b', '\x7d'])

def upperHexDigit (n : Nat) : Char := if n < 10 then Char.ofNat (48 + n) else Char.ofNat (55 + n)

def encodeChar (c : Char) : List Char :=
  if isKept c then [c]
  else (String.utf8EncodeChar c).flatMap fun b =>
    ['%', upperHexDigit (b.toNat / 16), upperHexDigit (b.toNat % 16)]

def singleDots : List (List Char) := [".".toList, "%2e".toList]

def isSingleDot (segment : List Char) : Bool := segment.map Char.toLower ∈ singleDots

def isDoubleDot (segment : List Char) : Bool :=
  segment.map Char.toLower ∈ singleDots.flatMap fun dot => singleDots.map fun dot' => dot ++ dot'

def segments : List Char → List (List Char)
  | [] => [[]]
  | c :: rest =>
      if isSeparator c then [] :: segments rest
      else
        match segments rest with
        | [] => [[c]]
        | segment :: others => (c :: segment) :: others

/-- The path state of the parser; a dot segment at the end leaves an empty one. -/
def resolve (path : List (List Char)) : List (List Char) → List (List Char)
  | [] => path
  | [last] =>
      if isDoubleDot last then path.dropLast ++ [[]]
      else if isSingleDot last then path ++ [[]]
      else path ++ [last.flatMap encodeChar]
  | segment :: others =>
      if isDoubleDot segment then resolve path.dropLast others
      else if isSingleDot segment then resolve path others
      else resolve (path ++ [segment.flatMap encodeChar]) others

/-- The path of the URL whose text after the authority is this one. -/
def urlPath (text : List Char) : List Char :=
  (resolve [] (segments (text.drop 1))).flatMap fun segment => '/' :: segment

/-! ## Requests -/

/-- The characters of a request path that the server takes. -/
def isPathChar (c : Char) : Bool :=
  let n := c.toNat
  n == 0x21 || (0x24 ≤ n && n ≤ 0x3B) || n == 0x3D || (0x40 ≤ n && n ≤ 0x5F) ||
    (0x61 ≤ n && n ≤ 0x7A) || n == 0x7C || n == 0x7E || n == 0x22 || n == 0x7B || n == 0x7D ||
    0x7F ≤ n

structure RequestPath where
  text : List Char
  rooted : text.head? = some '/'
  taken : ∀ c ∈ text, isPathChar c = true

/-- The path of the leader's base URL, without its trailing slashes. -/
structure BasePath where
  text : List Char := []
  rooted : text = [] ∨ text.head? = some '/' := by simp
  taken : ∀ c ∈ text, isPathChar c = true := by simp

def webSocketPath : List Char := "/v1/node/ws".toList

def ownRoutes : List (List Char) :=
  ["/health/live".toList, "/health/ready".toList, "/metrics".toList]

/-- A forwarder that `Edge::new` accepts with prefixes. -/
structure Relay extends EdgeConfig where
  restricted : allowedPaths ≠ []
  slashed : ∀ p ∈ allowedPaths, p.head? = some '/' ∧ p.getLast? = some '/'

/-- The path of the request that the forwarder makes for the client's, if it makes
one: the WebSocket route does not look at the prefixes. -/
def Relay.upstreamPath (relay : Relay) (base : BasePath) (path : RequestPath) (upgrade : Bool) :
    Option (List Char) :=
  if path.text ∈ ownRoutes then none
  else if path.text = webSocketPath then
    if upgrade then some (urlPath (base.text ++ webSocketPath)) else none
  else if relay.pathAllowed path.text then some (urlPath (base.text ++ path.text))
  else none

def Relay.Confined (relay : Relay) (base : BasePath) (path : RequestPath) (upgrade : Bool) : Prop :=
  ∀ out, relay.upstreamPath base path upgrade = some out → ∃ p ∈ relay.allowedPaths, p <+: out

/-- A path that the client's reading leaves as it is. -/
structure Plain (text : List Char) : Prop where
  kept : ∀ c ∈ text, isKept c = true
  slashes : '\\' ∉ text
  dotless : ∀ segment ∈ segments (text.drop 1), isSingleDot segment = false ∧
    isDoubleDot segment = false

/-! ## Reading a path -/

theorem segments_ne_nil (text : List Char) : segments text ≠ [] := by
  cases text with
  | nil => simp [segments]
  | cons c rest =>
      unfold segments
      split
      · simp
      · split <;> simp

theorem segments_append {c : Char} (hc : isSeparator c = true) (first second : List Char) :
    segments (first ++ c :: second) = segments first ++ segments second := by
  induction first with
  | nil => simp [segments, hc]
  | cons d first ih =>
      rw [List.cons_append, segments, segments]
      split
      · rw [ih, List.cons_append]
      · rw [ih]
        rcases hfirst : segments first with _ | ⟨segment, others⟩
        · exact absurd hfirst (segments_ne_nil first)
        · rfl

theorem length_segments_le (text : List Char) : (segments text).length ≤ text.length + 1 := by
  induction text with
  | nil => simp [segments]
  | cons c rest ih =>
      unfold segments
      split
      · simpa using ih
      · split
        · simp
        · rename_i hrest
          rw [hrest] at ih
          simp only [List.length_cons] at ih ⊢
          omega

theorem resolve_cons {path : List (List Char)} {segment : List Char} {others : List (List Char)}
    (h : others ≠ []) :
    resolve path (segment :: others) =
      if isDoubleDot segment then resolve path.dropLast others
      else if isSingleDot segment then resolve path others
      else resolve (path ++ [segment.flatMap encodeChar]) others := by
  cases others with
  | nil => exact absurd rfl h
  | cons next others =>
      rw [resolve]
      exact List.cons_ne_nil next others

/-- What stands before the last segments adds a segment each at most. -/
theorem resolve_append (path first : List (List Char)) {second : List (List Char)}
    (h : second ≠ []) :
    ∃ before, before.length ≤ path.length + first.length ∧
      resolve path (first ++ second) = resolve before second := by
  induction first generalizing path with
  | nil => exact ⟨path, by simp, rfl⟩
  | cons segment first ih =>
      have hne : first ++ second ≠ [] := by simp [h]
      rw [List.cons_append, resolve_cons hne]
      split
      · obtain ⟨before, hlength, hsame⟩ := ih path.dropLast
        refine ⟨before, ?_, hsame⟩
        simp only [List.length_dropLast, List.length_cons] at hlength ⊢
        omega
      split
      · obtain ⟨before, hlength, hsame⟩ := ih path
        exact ⟨before, by simp only [List.length_cons]; omega, hsame⟩
      · obtain ⟨before, hlength, hsame⟩ := ih (path ++ [segment.flatMap encodeChar])
        refine ⟨before, ?_, hsame⟩
        simp only [List.length_append, List.length_cons, List.length_nil] at hlength ⊢
        omega

theorem resolve_ne_nil (path : List (List Char)) {text : List (List Char)} (h : text ≠ []) :
    resolve path text ≠ [] := by
  have hlast : text = text.dropLast ++ [text.getLast h] := (List.dropLast_append_getLast h).symm
  obtain ⟨before, -, hsame⟩ :=
    resolve_append path text.dropLast (List.cons_ne_nil (text.getLast h) [])
  rw [hlast, hsame, resolve]
  split
  · simp
  split <;> simp

theorem urlPath_rooted (text : List Char) : ['/'] <+: urlPath text := by
  rw [urlPath]
  rcases hresolved : resolve [] (segments (text.drop 1)) with _ | ⟨segment, others⟩
  · exact absurd hresolved (resolve_ne_nil [] (segments_ne_nil _))
  · rw [List.flatMap_cons]
    exact ⟨segment ++ others.flatMap fun segment => '/' :: segment, rfl⟩

/-! ## A path that climbs -/

/-- Up as many segments as there may be. -/
def climb : Nat → List Char
  | 0 => []
  | k + 1 => '.' :: '.' :: '/' :: climb k

theorem segments_climb (k : Nat) :
    segments (climb k) = List.replicate k ['.', '.'] ++ [[]] := by
  induction k with
  | zero => rfl
  | succ k ih =>
      have hsplit := segments_append (c := '/') (by decide) ['.', '.'] (climb k)
      rw [List.replicate_succ, List.cons_append, ← ih]
      exact hsplit

theorem resolve_climb {path : List (List Char)} {k : Nat} (h : path.length ≤ k) :
    resolve path (List.replicate k ['.', '.'] ++ [[]]) = [[]] := by
  induction k generalizing path with
  | zero =>
      obtain rfl := List.length_eq_zero_iff.mp (Nat.le_zero.mp h)
      rfl
  | succ k ih =>
      rw [List.replicate_succ, List.cons_append, resolve_cons (by simp), if_pos (by decide)]
      exact ih (by rw [List.length_dropLast]; omega)

/-- Below any path that ends with a slash enough of them lead to the root. -/
theorem urlPath_climb {text : List Char} (hrooted : text.head? = some '/')
    (hended : text.getLast? = some '/') : urlPath (text ++ climb text.length) = ['/'] := by
  obtain ⟨start, rfl⟩ : ∃ start, text = start ++ ['/'] := by
    refine ⟨text.dropLast, ?_⟩
    have hne : text ≠ [] := by
      rintro rfl
      cases hended
    rw [List.getLast?_eq_some_getLast hne, Option.some_inj] at hended
    rw [← hended, List.dropLast_append_getLast]
  have hresolved : resolve [] (segments ((start ++ ['/'] ++
      climb (start ++ ['/']).length).drop 1)) = [[]] := by
    cases start with
    | nil =>
        change resolve [] (segments (climb 1)) = [[]]
        rw [segments_climb]
        exact resolve_climb (Nat.zero_le _)
    | cons c start =>
        have hdrop : (c :: start ++ ['/'] ++ climb (c :: start ++ ['/']).length).drop 1 =
            start ++ '/' :: climb (c :: start ++ ['/']).length := by simp
        rw [hdrop, segments_append (by decide), segments_climb]
        obtain ⟨before, hlength, hsame⟩ := resolve_append [] (segments start)
          (List.append_ne_nil_of_right_ne_nil
            (List.replicate (c :: start ++ ['/']).length ['.', '.']) (List.cons_ne_nil [] []))
        rw [hsame]
        apply resolve_climb
        have := length_segments_le start
        simp only [List.length_nil, List.length_append, List.length_cons] at hlength ⊢
        omega
  rw [urlPath, hresolved]
  rfl

/-! ## A plain path -/

theorem resolve_plain {path text : List (List Char)}
    (hdotless : ∀ segment ∈ text, isSingleDot segment = false ∧ isDoubleDot segment = false)
    (hkept : ∀ segment ∈ text, segment.flatMap encodeChar = segment) :
    resolve path text = path ++ text := by
  induction text generalizing path with
  | nil => simp [resolve]
  | cons segment others ih =>
      obtain ⟨hsingle, hdouble⟩ := hdotless segment List.mem_cons_self
      have hsegment := hkept segment List.mem_cons_self
      cases others with
      | nil => simp [resolve, hsingle, hdouble, hsegment]
      | cons next others =>
          rw [resolve_cons (by simp), hsingle, hdouble, hsegment]
          simp only [Bool.false_eq_true, if_false]
          rw [ih (fun s hs => hdotless s (List.mem_cons_of_mem _ hs))
            fun s hs => hkept s (List.mem_cons_of_mem _ hs)]
          simp

theorem mem_of_mem_segments {text segment : List Char} (h : segment ∈ segments text) {c : Char}
    (hc : c ∈ segment) : c ∈ text := by
  induction text generalizing segment with
  | nil =>
      simp only [segments, List.mem_singleton] at h
      rw [h] at hc
      cases hc
  | cons d rest ih =>
      unfold segments at h
      split at h
      · rcases List.mem_cons.mp h with rfl | h
        · cases hc
        · exact List.mem_cons_of_mem d (ih h hc)
      · split at h
        · rw [List.mem_singleton.mp h] at hc
          rw [List.mem_singleton.mp hc]
          exact List.mem_cons_self
        · rename_i first others hrest
          rcases List.mem_cons.mp h with rfl | h
          · rcases List.mem_cons.mp hc with rfl | hc
            · exact List.mem_cons_self
            · exact List.mem_cons_of_mem d (ih (hrest ▸ List.mem_cons_self) hc)
          · exact List.mem_cons_of_mem d (ih (hrest ▸ List.mem_cons_of_mem first h) hc)

/-- Segments joined by slashes. -/
theorem join_segments {text : List Char} (h : '\\' ∉ text) :
    ((segments text).flatMap fun segment => '/' :: segment) = '/' :: text := by
  induction text with
  | nil => rfl
  | cons c rest ih =>
      have hrest := ih fun hmem => h (List.mem_cons_of_mem c hmem)
      unfold segments
      split
      · rename_i hc
        have hslash : c = '/' := by
          simp only [isSeparator, Bool.or_eq_true, beq_iff_eq] at hc
          exact hc.resolve_right fun heq => h (heq ▸ List.mem_cons_self)
        rw [List.flatMap_cons, hrest, hslash]
        rfl
      · rcases hsegments : segments rest with _ | ⟨segment, others⟩
        · exact absurd hsegments (segments_ne_nil rest)
        · rw [hsegments, List.flatMap_cons] at hrest
          rw [List.flatMap_cons, List.cons_append, List.cons_append]
          rw [List.cons_append] at hrest
          rw [List.cons_inj_right] at hrest
          rw [hrest]

theorem urlPath_plain {text : List Char} (hrooted : text.head? = some '/') (h : Plain text) :
    urlPath text = text := by
  cases text with
  | nil => cases hrooted
  | cons c rest =>
      obtain rfl : c = '/' := Option.some.inj hrooted
      have hkept : ∀ segment ∈ segments rest, segment.flatMap encodeChar = segment := by
        intro segment hsegment
        have hchars : ∀ c ∈ segment, encodeChar c = [c] := fun c hc =>
          if_pos (h.kept c (List.mem_cons_of_mem _ (mem_of_mem_segments hsegment hc)))
        rw [List.flatMap_congr hchars, List.flatMap_singleton']
      rw [urlPath]
      change (resolve [] (segments rest)).flatMap _ = _
      have hresolved : resolve [] (segments rest) = segments rest := resolve_plain h.dotless hkept
      rw [hresolved, join_segments fun hmem => h.slashes (List.mem_cons_of_mem _ hmem)]

/-! ## The characters of a URL -/

theorem isPathChar_of_kept {c : Char} (h : isKept c = true) : isPathChar c = true := by
  have hall : ∀ n < 127, isKept (Char.ofNat n) = true → isPathChar (Char.ofNat n) = true := by
    decide
  have hbound : c.toNat < 127 := by
    simp only [isKept, Bool.and_eq_true, decide_eq_true_eq] at h
    omega
  have hc := hall c.toNat hbound
  rw [Char.ofNat_toNat] at hc
  exact hc h

theorem isPathChar_hexDigit {n : Nat} (h : n < 16) : isPathChar (upperHexDigit n) = true := by
  have hall : ∀ n < 16, isPathChar (upperHexDigit n) = true := by decide
  exact hall n h

theorem encodeChar_taken (c : Char) : ∀ d ∈ encodeChar c, isPathChar d = true := by
  intro d hd
  unfold encodeChar at hd
  split at hd
  · rename_i hkept
    rw [List.mem_singleton.mp hd]
    exact isPathChar_of_kept hkept
  · obtain ⟨b, -, hb⟩ := List.mem_flatMap.mp hd
    have hbyte := b.toNat_lt
    simp only [List.mem_cons, List.not_mem_nil, or_false] at hb
    rcases hb with rfl | rfl | rfl
    · decide
    · exact isPathChar_hexDigit (by omega)
    · exact isPathChar_hexDigit (Nat.mod_lt _ (by decide))

/-- Segments of characters that a path may have. -/
def Taken (path : List (List Char)) : Prop := ∀ segment ∈ path, ∀ c ∈ segment, isPathChar c = true

theorem Taken.append {path path' : List (List Char)} (h : Taken path) (h' : Taken path') :
    Taken (path ++ path') := by
  intro segment hsegment
  rcases List.mem_append.mp hsegment with hmem | hmem
  · exact h segment hmem
  · exact h' segment hmem

theorem taken_empty : Taken [[]] := by
  intro segment hsegment c hc
  rw [List.mem_singleton.mp hsegment] at hc
  cases hc

theorem taken_encoded (segment : List Char) : Taken [segment.flatMap encodeChar] := by
  intro encoded hencoded c hc
  rw [List.mem_singleton.mp hencoded] at hc
  obtain ⟨d, -, hd⟩ := List.mem_flatMap.mp hc
  exact encodeChar_taken d c hd

theorem Taken.dropLast {path : List (List Char)} (h : Taken path) : Taken path.dropLast :=
  fun segment hsegment => h segment (List.dropLast_subset path hsegment)

theorem Taken.resolve {path : List (List Char)} (h : Taken path) (text : List (List Char)) :
    Taken (resolve path text) := by
  induction text generalizing path with
  | nil => exact h
  | cons segment others ih =>
      cases others with
      | nil =>
          unfold Edge.resolve
          split
          · exact h.dropLast.append taken_empty
          split
          · exact h.append taken_empty
          · exact h.append (taken_encoded segment)
      | cons next others =>
          rw [resolve_cons (List.cons_ne_nil next others)]
          split
          · exact ih h.dropLast
          split
          · exact ih h
          · exact ih (h.append (taken_encoded segment))

theorem urlPath_taken (text : List Char) : ∀ c ∈ urlPath text, isPathChar c = true := by
  intro c hc
  obtain ⟨segment, hsegment, hmem⟩ := List.mem_flatMap.mp hc
  rcases List.mem_cons.mp hmem with rfl | hmem
  · decide
  · have hnil : Taken [] := fun _ h => by cases h
    exact hnil.resolve (segments (text.drop 1)) segment hsegment c hmem

/-! ## Confinement -/

theorem climb_taken (k : Nat) : ∀ c ∈ climb k, isPathChar c = true := by
  induction k with
  | zero => simp [climb]
  | succ k ih =>
      intro c hc
      simp only [climb, List.mem_cons] at hc
      rcases hc with rfl | rfl | rfl | hc
      · decide
      · decide
      · decide
      · exact ih c hc

theorem climb_ended (k : Nat) {text : List Char} (h : text.getLast? = some '/') :
    (text ++ climb k).getLast? = some '/' := by
  induction k generalizing text with
  | zero => simpa [climb] using h
  | succ k ih =>
      have hstep : text ++ climb (k + 1) = text ++ ['.', '.', '/'] ++ climb k := by
        simp [climb]
      rw [hstep]
      exact ih (by simp)

/-- The path that climbs out of a prefix. -/
def climbOut (base : BasePath) {p : List Char} (hrooted : p.head? = some '/')
    (htaken : ∀ c ∈ p, isPathChar c = true) : RequestPath where
  text := p ++ climb (base.text ++ p).length
  rooted := by
    cases p with
    | nil => cases hrooted
    | cons c p => exact hrooted
  taken c hc := (List.mem_append.mp hc).elim (htaken c) (climb_taken _ c)

variable (relay : Relay) (base : BasePath)

/-- Below a prefix that a path can have, some request gets to the root. -/
theorem upstreamPath_climbOut {p : List Char} (hp : p ∈ relay.allowedPaths)
    (htaken : ∀ c ∈ p, isPathChar c = true) :
    relay.upstreamPath base (climbOut base (relay.slashed p hp).1 htaken) false = some ['/'] := by
  obtain ⟨hrooted, hended⟩ := relay.slashed p hp
  have hlast : (climbOut base hrooted htaken).text.getLast? = some '/' := climb_ended _ hended
  have hown : (climbOut base hrooted htaken).text ∉ ownRoutes := by
    intro hmem
    have hall : ∀ route ∈ ownRoutes, route.getLast? ≠ some '/' := by decide
    exact hall _ hmem hlast
  have hsocket : (climbOut base hrooted htaken).text ≠ webSocketPath := by
    intro hsame
    rw [hsame] at hlast
    exact absurd hlast (by decide)
  have hallowed : relay.pathAllowed (climbOut base hrooted htaken).text = true := by
    simp only [EdgeConfig.pathAllowed, Bool.or_eq_true, List.any_eq_true]
    exact .inr ⟨p, hp, List.isPrefixOf_iff_prefix.mpr (List.prefix_append _ _)⟩
  have hbase : (base.text ++ p).head? = some '/' := by
    rcases base.rooted with hempty | hbase
    · rw [hempty]
      exact hrooted
    · rw [List.head?_append, hbase]
      rfl
  have hbaselast : (base.text ++ p).getLast? = some '/' := by
    rw [List.getLast?_append, hended]
    rfl
  have hpath := urlPath_climb hbase hbaselast
  rw [List.append_assoc] at hpath
  rw [Relay.upstreamPath, if_neg hown, if_neg hsocket, if_pos hallowed]
  exact congrArg some hpath

/-- A prefix of the root is the root. -/
theorem eq_root {p : List Char} (hrooted : p.head? = some '/') (h : p <+: ['/']) : p = ['/'] := by
  cases p with
  | nil => cases hrooted
  | cons c p =>
      obtain ⟨rest, hrest⟩ := h
      simp only [List.cons_append, List.cons.injEq, List.append_eq_nil_iff] at hrest
      rw [hrest.1, hrest.2.1]

theorem taken_of_all {text : List Char} (h : text.all isPathChar = true) :
    ∀ c ∈ text, isPathChar c = true :=
  List.all_eq_true.mp h

def socketRequest : RequestPath := ⟨webSocketPath, by decide, taken_of_all (by decide)⟩

/-- A relay carries requests below its prefixes only exactly if it carries every
path; one by one, a request whose path the client's reading leaves as it is stays
below a prefix. -/
theorem path_confinement :
    ((∀ path upgrade, relay.Confined base path upgrade) ↔ ['/'] ∈ relay.allowedPaths) ∧
      ∀ path upgrade, base.text = [] → Plain path.text →
        (path.text = webSocketPath → relay.pathAllowed webSocketPath = true) →
        relay.Confined base path upgrade := by
  refine ⟨⟨?_, ?_⟩, ?_⟩
  · intro h
    by_contra hroot
    by_cases hsome : ∃ p ∈ relay.allowedPaths, ∀ c ∈ p, isPathChar c = true
    · obtain ⟨p, hp, htaken⟩ := hsome
      obtain ⟨q, hq, hprefix⟩ := h _ _ _ (upstreamPath_climbOut relay base hp htaken)
      exact hroot (eq_root (relay.slashed q hq).1 hprefix ▸ hq)
    · have hout : relay.upstreamPath base socketRequest true =
          some (urlPath (base.text ++ webSocketPath)) := by
        have hown : socketRequest.text ∉ ownRoutes := by decide
        have hsocket : socketRequest.text = webSocketPath := rfl
        rw [Relay.upstreamPath, if_neg hown, if_pos hsocket, if_pos rfl]
      obtain ⟨q, hq, hprefix⟩ := h _ _ _ hout
      exact hsome ⟨q, hq, fun c hc => urlPath_taken _ c (List.IsPrefix.subset hprefix hc)⟩
  · intro hroot path upgrade out hout
    refine ⟨['/'], hroot, ?_⟩
    unfold Relay.upstreamPath at hout
    split at hout
    · cases hout
    split at hout
    · split at hout
      · cases hout
        exact urlPath_rooted _
      · cases hout
    split at hout
    · cases hout
      exact urlPath_rooted _
    · cases hout
  · intro path upgrade hbase hplain hsocket out hout
    have hpath : urlPath (base.text ++ path.text) = path.text := by
      rw [hbase, List.nil_append, urlPath_plain path.rooted hplain]
    have hallowed : relay.pathAllowed path.text = true →
        ∃ p ∈ relay.allowedPaths, p <+: path.text := by
      intro hallowed
      simp only [EdgeConfig.pathAllowed, Bool.or_eq_true, List.any_eq_true,
        List.isEmpty_iff] at hallowed
      obtain ⟨p, hp, hprefix⟩ := hallowed.resolve_left relay.restricted
      exact ⟨p, hp, List.isPrefixOf_iff_prefix.mp hprefix⟩
    unfold Relay.upstreamPath at hout
    split at hout
    · cases hout
    split at hout
    · rename_i hsame
      split at hout
      · cases hout
        rw [← hsame, hpath]
        exact hallowed (hsame ▸ hsocket hsame)
      · cases hout
    split at hout
    · rename_i hcarried
      cases hout
      rw [hpath]
      exact hallowed hcarried
    · cases hout

/-- The relay of a node. -/
def nodeRelay : Relay where
  allowedPaths := ["/v1/node/".toList]
  restricted := List.cons_ne_nil _ _
  slashed := by decide

/-- `/v1/node/../users` is let through as a path below `/v1/node/`. -/
theorem users_reached : ¬ ∀ (relay : Relay) (base : BasePath) (path : RequestPath)
    (upgrade : Bool), relay.Confined base path upgrade := by
  intro h
  let path : RequestPath := ⟨"/v1/node/../users".toList, by decide, taken_of_all (by decide)⟩
  have hout : nodeRelay.upstreamPath {} path false = some "/v1/users".toList := by decide
  obtain ⟨p, hp, hprefix⟩ := h nodeRelay {} path false _ hout
  rw [List.mem_singleton.mp hp] at hprefix
  exact absurd hprefix (by decide)

end AgentGrid.Edge
