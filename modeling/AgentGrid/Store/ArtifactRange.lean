import AgentGrid.Store.Artifacts

/-!
# Range requests

A download serves one range of an artifact.  The bounds come from the `Range`
header, as unsigned 64-bit numbers; sums and differences on them are checked or
wrap, as the program was built.
-/

namespace AgentGrid.Store

/-! ## Machine arithmetic -/

/-- The difference, or a panic where the build checks overflow. -/
def subU64 (checks : Bool) (a b : UInt64) : Option UInt64 :=
  if checks && a < b then none else some (a - b)

def addU64 (checks : Bool) (a b : UInt64) : Option UInt64 :=
  if checks && 2 ^ 64 ≤ a.toNat + b.toNat then none else some (a + b)

def minU64 (a b : UInt64) : UInt64 := if a ≤ b then a else b

def maxU64 : UInt64 := 0xffffffffffffffff

theorem subU64_of_le (checks : Bool) {a b : UInt64} (h : b ≤ a) :
    subU64 checks a b = some (a - b) := by
  have hnot : ¬ a < b := UInt64.not_lt.mpr h
  simp [subU64, hnot]

theorem addU64_of_fits (checks : Bool) {a b : UInt64} (h : a.toNat + b.toNat < 2 ^ 64) :
    addU64 checks a b = some (a + b) := by
  have hnot : ¬ 2 ^ 64 ≤ a.toNat + b.toNat := Nat.not_le.mpr h
  simp only [addU64, hnot, decide_false, Bool.and_false, Bool.false_eq_true, if_false]

theorem toNat_minU64 (a b : UInt64) : (minU64 a b).toNat = min a.toNat b.toNat := by
  rw [minU64, min_def]
  simp only [UInt64.le_iff_toNat_le]
  split <;> rfl

/-! ## The header -/

def bytesUnit : List Char := ['b', 'y', 't', 'e', 's', '=']

def stripPlus : List Char → List Char
  | '+' :: rest => rest
  | text => text

/-- `str::parse::<u64>`: digits, with an optional plus sign. -/
def parseU64 (text : List Char) : Option UInt64 :=
  let digits := stripPlus text
  if digits.isEmpty || !digits.all Char.isDigit then none
  else
    let value := Nat.ofDigitChars 10 digits 0
    if value < 2 ^ 64 then some (UInt64.ofNat value) else none

inductive RangeVerdict where
  | full
  | part (start take : UInt64)
  | unsatisfiable
  deriving DecidableEq, Repr

/-- The two ends of a single range, as written. -/
def splitSpec (spec : List Char) : Option (List Char × List Char) :=
  match (trimChars spec).dropPrefix? bytesUnit with
  | none => none
  | some rest =>
      if rest.contains ',' then none
      else if rest.contains '-' then
        some (trimChars (rest.takeWhile (· != '-')),
          trimChars (rest.dropWhile (· != '-')).tail)
      else none

def closedTake (checks : Bool) (start : UInt64) (stop : Option UInt64) (len : UInt64) :
    Option UInt64 :=
  match stop with
  | some e =>
      if start ≤ e then do
        let gap ← subU64 checks e start
        let width ← addU64 checks gap 1
        let left ← subU64 checks len start
        return minU64 width left
      else subU64 checks len start
  | none => subU64 checks len start

/-- Nothing is returned where an overflow check panics. -/
def parseSingleRange (checks : Bool) (spec : List Char) (len : UInt64) :
    Option RangeVerdict :=
  match splitSpec spec with
  | none => some .full
  | some (start, stop) =>
      if start.isEmpty then
        match parseU64 stop with
        | none => some .full
        | some n =>
            if n = 0 ∨ len = 0 then some .unsatisfiable
            else
              let take := minU64 n len
              (subU64 checks len take).map fun start => .part start take
      else
        match parseU64 start with
        | none => some .full
        | some start =>
            if len ≤ start then some .unsatisfiable
            else (closedTake checks start (parseU64 stop) len).map fun take =>
              .part start take

/-! ## The response -/

structure Response where
  status : Nat
  headers : List (String × String)
  /-- Nothing where the stream breaks off. -/
  body : Option (List UInt8)

def inlineSafe : List String :=
  ["application/octet-stream", "text/plain", "application/json", "application/zip",
    "application/gzip", "application/x-tar", "application/x-bzip2", "image/png", "image/jpeg",
    "image/gif", "image/webp"]

def activeTypes : List String :=
  ["text/html", "text/xml", "application/xml", "application/xhtml+xml", "image/svg+xml",
    "application/javascript", "text/javascript", "application/ecmascript"]

def servedType (mediaType : Option String) : String × Bool :=
  let stored := trim (mediaType.getD "application/octet-stream")
  if stored ∈ activeTypes then ("application/octet-stream", true)
  else if stored ∈ inlineSafe then (stored, false)
  else ("application/octet-stream", true)

def safeName (name : String) : String :=
  String.ofList ((name.toList.filter fun c =>
    c.toNat < 128 && !isControl c && c != '/' && c != '\\' && c != '"').dropWhile (· == '.'))

def contentRange (first last total : UInt64) : String :=
  "bytes " ++ toString first ++ "-" ++ toString last ++ "/" ++ toString total

/-- The slice to serve, or that there is none. -/
def resolveRange (checks : Bool) (artifact : OpenArtifact) (rangeSpec : Option (List Char)) :
    Option (Option (UInt64 × UInt64 × Bool)) :=
  let len := UInt64.ofNat artifact.len
  if artifact.compressed then some (some (0, len, false))
  else
    match rangeSpec with
    | none => some (some (0, len, false))
    | some spec =>
        match parseSingleRange checks spec len with
        | none => none
        | some .full => some (some (0, len, false))
        | some (.part start take) => some (some (start, take, true))
        | some .unsatisfiable => some none

def rangeHeader (checks : Bool) (serveFrom serveLen len : UInt64) :
    Option (List (String × String)) := do
  let stop ← addU64 checks serveFrom serveLen
  let last ← subU64 checks stop 1
  return [("content-range", contentRange serveFrom last len)]

def streamArtifactResponse (checks : Bool) (c : Codec) (artifact : OpenArtifact)
    (mediaType : Option String) (name : String) (sha256 : Option String)
    (rangeSpec : Option (List Char)) (seeks : Bool) : Option Response :=
  match resolveRange checks artifact rangeSpec with
  | none => none
  | some none =>
      some ⟨416, [("content-range", "bytes */" ++ toString (UInt64.ofNat artifact.len))], some []⟩
  | some (some (serveFrom, serveLen, isPart)) =>
      if 0 < serveFrom ∧ !seeks then some ⟨500, [], some []⟩
      else do
        let (contentType, attachment) := servedType mediaType
        let body :=
          if artifact.compressed then c.decodeAll artifact.file
          else some ((artifact.file.drop serveFrom.toNat).take serveLen.toNat)
        let ranged ←
          if isPart then rangeHeader checks serveFrom serveLen (UInt64.ofNat artifact.len)
          else some []
        let disposition :=
          if attachment then
            let safe := safeName name
            [("content-disposition",
              if safe == "" then "attachment"
              else "attachment; filename=\"" ++ safe ++ "\"")]
          else []
        return ⟨if isPart then 206 else 200,
          [("content-type", contentType), ("x-content-type-options", "nosniff"),
            ("content-security-policy", "default-src 'none'; frame-ancestors 'none'"),
            ("cross-origin-resource-policy", "same-origin"),
            ("content-length", toString serveLen), ("accept-ranges", "bytes")] ++
            ranged ++ disposition ++ (sha256.map (("x-artifact-sha256", ·))).toList,
          body⟩

/-! ## What is served -/

/-- `bytes=a-b`, both ends written in digits. -/
def ClosedSpec (spec : List Char) (a b : Nat) : Prop :=
  ∃ first last : List Char, first ≠ [] ∧ last ≠ [] ∧
    (∀ c ∈ first, c.isDigit = true) ∧ (∀ c ∈ last, c.isDigit = true) ∧
    spec = bytesUnit ++ (first ++ '-' :: last) ∧
    Nat.ofDigitChars 10 first 0 = a ∧ Nat.ofDigitChars 10 last 0 = b

/-- The range runs from the first to the last 64-bit position. -/
def asksAll (spec : List Char) : Bool :=
  match splitSpec spec with
  | none => false
  | some (start, stop) => parseU64 start == some 0 && parseU64 stop == some maxU64

/-- The verdict is one that the response can serve. -/
def Servable (len : UInt64) : RangeVerdict → Prop
  | .part start take => 1 ≤ take.toNat ∧ start.toNat + take.toNat ≤ len.toNat
  | _ => True

/-- The header is parsed without overflow into a slice of the artifact, which is
the one a closed range asks for, and the response sends that slice. -/
structure ExactRange (checks : Bool) (spec : List Char) (len : UInt64) : Prop where
  parsed : ∃ verdict, parseSingleRange checks spec len = some verdict ∧ Servable len verdict
  closed : ∀ a b, ClosedSpec spec a b → a ≤ b → ∀ start take : UInt64,
    parseSingleRange checks spec len = some (.part start take) ↔
      a < len.toNat ∧ start.toNat = a ∧ start.toNat + take.toNat = min (b + 1) len.toNat
  served : ∀ (c : Codec) (file : List UInt8) (mediaType : Option String) (name : String)
    (sha256 : Option String) (seeks : Bool),
    ∃ response, streamArtifactResponse checks c ⟨file, len.toNat, false⟩ mediaType name sha256
        (some spec) seeks = some response ∧
      ∀ start take : UInt64, parseSingleRange checks spec len = some (.part start take) →
        start = 0 ∨ seeks = true →
        response.status = 206 ∧
        response.body = some ((file.take (start.toNat + take.toNat)).drop start.toNat) ∧
        ∃ last : UInt64, last.toNat + 1 = start.toNat + take.toNat ∧
          ("content-range", contentRange start last len) ∈ response.headers

section Parsing

variable {checks : Bool}

theorem closedTake_fits {start len : UInt64} {stop : Option UInt64} (hstart : start < len)
    (hall : ¬ (start = 0 ∧ stop = some maxU64)) :
    ∃ take, closedTake checks start stop len = some take ∧ 1 ≤ take.toNat ∧
      (∀ e, stop = some e → start ≤ e →
        start.toNat + take.toNat = min (e.toNat + 1) len.toNat) ∧
      ((∀ e, stop = some e → ¬ start ≤ e) → start.toNat + take.toNat = len.toNat) := by
  have hle : start.toNat < len.toNat := UInt64.lt_iff_toNat_lt.mp hstart
  have hleft : subU64 checks len start = some (len - start) :=
    subU64_of_le checks (UInt64.le_of_lt hstart)
  have hrest : (len - start).toNat = len.toNat - start.toNat :=
    UInt64.toNat_sub_of_le _ _ (UInt64.le_of_lt hstart)
  cases stop with
  | none =>
      refine ⟨len - start, hleft, ?_, ?_, ?_⟩
      · omega
      · intro e he
        cases he
      · intro _
        omega
  | some e =>
      by_cases hclosed : start ≤ e
      · have hge : start.toNat ≤ e.toNat := UInt64.le_iff_toNat_le.mp hclosed
        have hgap : (e - start).toNat = e.toNat - start.toNat :=
          UInt64.toNat_sub_of_le _ _ hclosed
        have hroom : e.toNat - start.toNat + 1 < 2 ^ 64 := by
          have hbound := e.toNat_lt
          by_contra hfull
          apply hall
          constructor
          · apply UInt64.toNat_inj.mp
            simp only [UInt64.toNat_zero]
            omega
          · apply congrArg some
            apply UInt64.toNat_inj.mp
            simp only [maxU64]
            change e.toNat = 18446744073709551615
            omega
        have hwidth : (e - start + 1).toNat = e.toNat - start.toNat + 1 := by
          rw [UInt64.toNat_add, hgap]
          exact Nat.mod_eq_of_lt hroom
        have htake : closedTake checks start (some e) len =
            some (minU64 (e - start + 1) (len - start)) := by
          have hadd : addU64 checks (e - start) 1 = some (e - start + 1) :=
            addU64_of_fits checks (by rw [hgap]; exact hroom)
          simp [closedTake, hclosed, subU64_of_le checks hclosed, hadd, hleft]
        refine ⟨_, htake, ?_, ?_, ?_⟩
        · rw [toNat_minU64, hwidth, hrest]
          omega
        · rintro e' ⟨rfl⟩ -
          rw [toNat_minU64, hwidth, hrest]
          omega
        · intro hnone
          exact absurd hclosed (hnone e rfl)
      · refine ⟨len - start, ?_, ?_, ?_, ?_⟩
        · simp [closedTake, hclosed, hleft]
        · omega
        · rintro e' ⟨rfl⟩ hle'
          exact absurd hle' hclosed
        · intro _
          omega

theorem parseSingleRange_servable {spec : List Char} {len : UInt64}
    (hall : asksAll spec = true → len = 0) :
    ∃ verdict, parseSingleRange checks spec len = some verdict ∧ Servable len verdict := by
  cases hsplit : splitSpec spec with
  | none => exact ⟨.full, by rw [parseSingleRange, hsplit], trivial⟩
  | some ends =>
      obtain ⟨start, stop⟩ := ends
      cases hempty : start.isEmpty with
      | true =>
          cases hstop : parseU64 stop with
          | none => exact ⟨.full, by simp [parseSingleRange, hsplit, hempty, hstop], trivial⟩
          | some n =>
              by_cases hzero : n = 0 ∨ len = 0
              · refine ⟨.unsatisfiable, ?_, trivial⟩
                simp [parseSingleRange, hsplit, hempty, hstop, hzero]
              · have htake : (minU64 n len).toNat = min n.toNat len.toNat := toNat_minU64 n len
                have hle : minU64 n len ≤ len := by
                  rw [UInt64.le_iff_toNat_le, htake]
                  exact Nat.min_le_right _ _
                have hfrom := UInt64.toNat_sub_of_le _ _ hle
                have hn : n.toNat ≠ 0 := fun h => hzero (.inl (UInt64.toNat_inj.mp h))
                have hlen : len.toNat ≠ 0 := fun h => hzero (.inr (UInt64.toNat_inj.mp h))
                refine ⟨.part (len - minU64 n len) (minU64 n len), ?_, ?_, ?_⟩
                · simp [parseSingleRange, hsplit, hempty, hstop, hzero, subU64_of_le checks hle]
                · omega
                · omega
      | false =>
          cases hstart : parseU64 start with
          | none => exact ⟨.full, by simp [parseSingleRange, hsplit, hempty, hstart], trivial⟩
          | some n =>
              by_cases hpast : len ≤ n
              · refine ⟨.unsatisfiable, ?_, trivial⟩
                simp [parseSingleRange, hsplit, hempty, hstart, hpast]
              · have hnot : ¬ (n = 0 ∧ parseU64 stop = some maxU64) := by
                  rintro ⟨rfl, hstop⟩
                  have hlen : len = 0 := hall (by simp [asksAll, hsplit, hstart, hstop])
                  exact hpast (hlen ▸ UInt64.le_refl 0)
                obtain ⟨take, htake, hpos, hclosed, hopen⟩ :=
                  @closedTake_fits checks _ _ _ (UInt64.not_le.mp hpast) hnot
                refine ⟨.part n take, ?_, hpos, ?_⟩
                · simp [parseSingleRange, hsplit, hempty, hstart, hpast, htake]
                · by_cases hends : ∃ e, parseU64 stop = some e ∧ n ≤ e
                  · obtain ⟨e, he, hle⟩ := hends
                    rw [hclosed e he hle]
                    exact Nat.min_le_right _ _
                  · exact Nat.le_of_eq (hopen fun e he hle => hends ⟨e, he, hle⟩)

theorem rangeHeader_servable {start take len : UInt64}
    (hservable : Servable len (.part start take)) :
    ∃ last, rangeHeader checks start take len =
        some [("content-range", contentRange start last len)] ∧
      last.toNat + 1 = start.toNat + take.toNat := by
  obtain ⟨hpos, hwithin⟩ := hservable
  have hbound := len.toNat_lt
  have hfits : start.toNat + take.toNat < 2 ^ 64 := by omega
  have hsum : (start + take).toNat = start.toNat + take.toNat := by
    rw [UInt64.toNat_add]
    exact Nat.mod_eq_of_lt hfits
  have hone : (1 : UInt64) ≤ start + take := by
    rw [UInt64.le_iff_toNat_le, hsum]
    exact Nat.le_trans hpos (Nat.le_add_left _ _)
  refine ⟨start + take - 1, ?_, ?_⟩
  · simp [rangeHeader, addU64_of_fits checks hfits, subU64_of_le checks hone]
  · rw [UInt64.toNat_sub_of_le _ _ hone, hsum]
    have h1 : (1 : UInt64).toNat = 1 := rfl
    omega

end Parsing

section Closed

theorem isWhitespace_of_isDigit {c : Char} (h : c.isDigit = true) : isWhitespace c = false := by
  rw [Char.isDigit, Bool.and_eq_true, decide_eq_true_eq, decide_eq_true_eq] at h
  have hlow : 48 ≤ c.toNat := UInt32.le_iff_toNat_le.mp h.1
  have hhigh : c.toNat ≤ 57 := UInt32.le_iff_toNat_le.mp h.2
  simp only [isWhitespace, Bool.or_eq_false_iff, Bool.and_eq_false_iff, decide_eq_false_iff_not,
    beq_eq_false_iff_ne]
  omega

theorem alphanum_range {c : Char} (h : c.isAlphanum = true) : 48 ≤ c.toNat ∧ c.toNat ≤ 122 := by
  delta Char.isAlphanum Char.isAlpha Char.isUpper Char.isLower Char.isDigit at h
  simp only [Bool.or_eq_true, Bool.and_eq_true, decide_eq_true_eq, ge_iff_le,
    UInt32.le_iff_toNat_le] at h
  have hval : c.val.toNat = c.toNat := rfl
  have hupper : 'A'.val.toNat = 65 ∧ 'Z'.val.toNat = 90 := ⟨rfl, rfl⟩
  have hlower : 'a'.val.toNat = 97 ∧ 'z'.val.toNat = 122 := ⟨rfl, rfl⟩
  have hdigit : '0'.val.toNat = 48 ∧ '9'.val.toNat = 57 := ⟨rfl, rfl⟩
  omega

theorem trimChars_of_ends {text : List Char}
    (hhead : ∀ c, text.head? = some c → isWhitespace c = false)
    (hlast : ∀ c, text.getLast? = some c → isWhitespace c = false) : trimChars text = text := by
  have hdrop : ∀ {l : List Char}, (∀ c, l.head? = some c → isWhitespace c = false) →
      l.dropWhile isWhitespace = l := by
    intro l h
    cases l with
    | nil => rfl
    | cons c rest => rw [List.dropWhile_cons_of_neg (by simp [h c rfl])]
  rw [trimChars, hdrop hhead, hdrop, List.reverse_reverse]
  intro c hc
  rw [List.head?_reverse] at hc
  exact hlast c hc

theorem trimChars_of_digits {digits : List Char} (h : ∀ c ∈ digits, c.isDigit = true) :
    trimChars digits = digits :=
  trimChars_of_ends
    (fun c hc => isWhitespace_of_isDigit (h c (List.mem_of_head? hc)))
    (fun c hc => isWhitespace_of_isDigit (h c (List.mem_of_getLast? hc)))

theorem splitSpec_closed {first last : List Char} (hne : last ≠ [])
    (hfirst : ∀ c ∈ first, c.isDigit = true) (hlast : ∀ c ∈ last, c.isDigit = true) :
    splitSpec (bytesUnit ++ (first ++ '-' :: last)) = some (first, last) := by
  have htrim : trimChars (bytesUnit ++ (first ++ '-' :: last)) =
      bytesUnit ++ (first ++ '-' :: last) := by
    apply trimChars_of_ends
    · intro c hc
      obtain rfl : 'b' = c := Option.some.inj hc
      decide
    · intro c hc
      rw [← List.append_assoc, List.getLast?_append_cons, List.getLast?_cons,
        List.getLast?_eq_some_getLast hne] at hc
      obtain rfl := Option.some.inj hc
      exact isWhitespace_of_isDigit (hlast _ (List.getLast_mem hne))
  have hstrip : (bytesUnit ++ (first ++ '-' :: last)).dropPrefix? bytesUnit =
      some (first ++ '-' :: last) := by
    rw [List.dropPrefix?_eq_some_iff]
    exact ⟨bytesUnit, rfl, by simp⟩
  have hcomma : (first ++ '-' :: last).contains ',' = false := by
    rw [List.contains_eq_mem, decide_eq_false_iff_not, List.mem_append, List.mem_cons]
    rintro (hin | hin | hin)
    · exact absurd (hfirst _ hin) (by decide)
    · cases hin
    · exact absurd (hlast _ hin) (by decide)
  have hdash : (first ++ '-' :: last).contains '-' = true := by simp
  have hplain : ∀ c ∈ first, (c != '-') = true := by
    intro c hc
    rw [bne_iff_ne]
    rintro rfl
    exact absurd (hfirst _ hc) (by decide)
  have htake : (first ++ '-' :: last).takeWhile (· != '-') = first := by
    rw [List.takeWhile_append_of_pos hplain]
    simp
  have hdrop : (first ++ '-' :: last).dropWhile (· != '-') = '-' :: last := by
    rw [List.dropWhile_append_of_pos hplain]
    simp
  simp only [splitSpec, htrim, hstrip, hcomma, hdash, htake, hdrop, List.tail_cons,
    trimChars_of_digits hfirst, trimChars_of_digits hlast, Bool.false_eq_true, if_false, if_true]

theorem parseU64_digits {digits : List Char} (hne : digits ≠ [])
    (h : ∀ c ∈ digits, c.isDigit = true) :
    parseU64 digits = if Nat.ofDigitChars 10 digits 0 < 2 ^ 64 then
      some (UInt64.ofNat (Nat.ofDigitChars 10 digits 0)) else none := by
  have hplus : stripPlus digits = digits := by
    fun_cases stripPlus digits with
    | case1 rest => exact absurd (h '+' List.mem_cons_self) (by decide)
    | case2 => rfl
  have hall : digits.all Char.isDigit = true := List.all_eq_true.mpr h
  have hsome : digits.isEmpty = false := by simpa using hne
  simp only [parseU64, hplus, hsome, hall, Bool.not_true, Bool.or_self, Bool.false_eq_true,
    if_false]

/-- The verdict on a closed range. -/
theorem parseSingleRange_closed {checks : Bool} {spec : List Char} {len : UInt64} {a b : Nat}
    (hclosed : ClosedSpec spec a b) (hab : a ≤ b) (hall : asksAll spec = true → len = 0)
    (start take : UInt64) :
    parseSingleRange checks spec len = some (.part start take) ↔
      a < len.toNat ∧ start.toNat = a ∧ start.toNat + take.toNat = min (b + 1) len.toNat := by
  obtain ⟨first, last, hfirst, hlast, hfd, hld, rfl, rfl, rfl⟩ := hclosed
  have hsplit := splitSpec_closed hlast hfd hld
  have hempty : first.isEmpty = false := by simpa using hfirst
  have hbound := len.toNat_lt
  have hstart := parseU64_digits hfirst hfd
  have hstop := parseU64_digits hlast hld
  generalize Nat.ofDigitChars 10 first 0 = a at hab hstart ⊢
  generalize Nat.ofDigitChars 10 last 0 = b at hab hstop ⊢
  by_cases ha : a < 2 ^ 64
  · rw [if_pos ha] at hstart
    have hvalue : (UInt64.ofNat a).toNat = a := UInt64.toNat_ofNat_of_lt ha
    by_cases hpast : len ≤ UInt64.ofNat a
    · have hle := UInt64.le_iff_toNat_le.mp hpast
      rw [hvalue] at hle
      have hverdict : parseSingleRange checks (bytesUnit ++ (first ++ '-' :: last)) len =
          some .unsatisfiable := by
        simp [parseSingleRange, hsplit, hempty, hstart, hpast]
      rw [hverdict]
      exact iff_of_false (by simp) fun h => by omega
    · have hlt := UInt64.lt_iff_toNat_lt.mp (UInt64.not_le.mp hpast)
      rw [hvalue] at hlt
      have hnot : ¬ (UInt64.ofNat a = 0 ∧ parseU64 last = some maxU64) := by
        rintro ⟨hzero, hmax⟩
        have hlen : len = 0 := hall (by simp [asksAll, hsplit, hstart, hzero, hmax])
        rw [hlen] at hlt
        exact absurd hlt (Nat.not_lt_zero a)
      obtain ⟨width, hwidth, -, hclosed, hopen⟩ :=
        @closedTake_fits checks _ _ _ (UInt64.not_le.mp hpast) hnot
      rw [hvalue] at hclosed hopen
      have hsum : a + width.toNat = min (b + 1) len.toNat := by
        by_cases hb : b < 2 ^ 64
        · rw [if_pos hb] at hstop
          have hlast : (UInt64.ofNat b).toNat = b := UInt64.toNat_ofNat_of_lt hb
          have hle : UInt64.ofNat a ≤ UInt64.ofNat b := by
            rw [UInt64.le_iff_toNat_le, hvalue, hlast]
            exact hab
          rw [hclosed _ hstop hle, hlast]
        · rw [if_neg hb] at hstop
          rw [hopen fun e he => by rw [hstop] at he; cases he]
          omega
      have hverdict : parseSingleRange checks (bytesUnit ++ (first ++ '-' :: last)) len =
          some (.part (UInt64.ofNat a) width) := by
        simp [parseSingleRange, hsplit, hempty, hstart, hpast, hwidth]
      rw [hverdict, Option.some.injEq, RangeVerdict.part.injEq]
      constructor
      · rintro ⟨rfl, rfl⟩
        exact ⟨hlt, hvalue, by rw [hvalue, hsum]⟩
      · rintro ⟨-, rfl, htake⟩
        have hsame : width.toNat = take.toNat := by omega
        exact ⟨UInt64.ofNat_toNat, UInt64.toNat_inj.mp hsame⟩
  · rw [if_neg ha] at hstart
    have hverdict : parseSingleRange checks (bytesUnit ++ (first ++ '-' :: last)) len =
        some .full := by
      simp [parseSingleRange, hsplit, hempty, hstart]
    rw [hverdict]
    exact iff_of_false (by simp) fun h => by omega

end Closed

theorem streamArtifactResponse_served {checks : Bool} {spec : List Char} {len : UInt64}
    {verdict : RangeVerdict} (hparse : parseSingleRange checks spec len = some verdict)
    (hservable : Servable len verdict) (c : Codec) (file : List UInt8)
    (mediaType : Option String) (name : String) (sha256 : Option String) (seeks : Bool) :
    ∃ response, streamArtifactResponse checks c ⟨file, len.toNat, false⟩ mediaType name sha256
        (some spec) seeks = some response ∧
      ∀ start take : UInt64, verdict = .part start take → start = 0 ∨ seeks = true →
        response.status = 206 ∧
        response.body = some ((file.take (start.toNat + take.toNat)).drop start.toNat) ∧
        ∃ last : UInt64, last.toNat + 1 = start.toNat + take.toNat ∧
          ("content-range", contentRange start last len) ∈ response.headers := by
  have hlen : UInt64.ofNat len.toNat = len := UInt64.ofNat_toNat
  cases verdict with
  | full =>
      have hresolve : resolveRange checks ⟨file, len.toNat, false⟩ (some spec) =
          some (some (0, len, false)) := by
        simp [resolveRange, hparse, hlen]
      simp [streamArtifactResponse, hresolve]
  | unsatisfiable =>
      have hresolve : resolveRange checks ⟨file, len.toNat, false⟩ (some spec) = some none := by
        simp [resolveRange, hparse, hlen]
      simp [streamArtifactResponse, hresolve]
  | part start take =>
      have hresolve : resolveRange checks ⟨file, len.toNat, false⟩ (some spec) =
          some (some (start, take, true)) := by
        simp [resolveRange, hparse, hlen]
      obtain ⟨last, hheader, hlast⟩ := @rangeHeader_servable checks _ _ _ hservable
      by_cases hseek : 0 < start ∧ !seeks
      · refine ⟨⟨500, [], some []⟩, ?_, ?_⟩
        · simp only [streamArtifactResponse, hresolve, hseek]
          simp
        · rintro _ _ ⟨rfl, rfl⟩ (hzero | hseeks)
          · exact absurd hseek.1 (by rw [hzero]; decide)
          · exact absurd hseek.2 (by rw [hseeks]; decide)
      · simp only [streamArtifactResponse, hresolve, hseek, hlen, hheader]
        refine ⟨_, rfl, ?_⟩
        rintro _ _ ⟨rfl, rfl⟩ -
        refine ⟨rfl, ?_, last, hlast, ?_⟩
        · simp [List.drop_take]
        · simp

theorem parseSingleRange_asksAll (checks : Bool) {spec : List Char} {len : UInt64}
    (hall : asksAll spec = true) (hlen : len ≠ 0) :
    parseSingleRange checks spec len = if checks then none else some (.part 0 0) := by
  cases hsplit : splitSpec spec with
  | none => simp [asksAll, hsplit] at hall
  | some ends =>
      obtain ⟨start, stop⟩ := ends
      obtain ⟨hstart, hstop⟩ : parseU64 start = some 0 ∧ parseU64 stop = some maxU64 := by
        simpa [asksAll, hsplit] using hall
      have hempty : start.isEmpty = false := by
        cases start with
        | nil => cases hstart
        | cons c rest => rfl
      have hpos : 0 < len := by
        rw [UInt64.lt_iff_toNat_lt]
        exact Nat.pos_of_ne_zero fun h => hlen (UInt64.toNat_inj.mp h)
      have hnot : ¬ len ≤ 0 := UInt64.not_le.mpr hpos
      have hgap : ∀ n : UInt64, subU64 checks n 0 = some n := by
        intro n
        rw [subU64_of_le checks UInt64.zero_le, UInt64.sub_zero]
      have hwrap : addU64 checks maxU64 1 = if checks then none else some 0 := by
        cases checks <;> decide
      have hleast : minU64 0 len = 0 := if_pos UInt64.zero_le
      cases checks <;>
        simp [parseSingleRange, hsplit, hempty, hstart, hstop, hnot, closedTake, hgap, hwrap,
          hleast]

/-- Ranges are served exactly but for the one that runs over all 64-bit
positions. -/
theorem exactRange_iff (checks : Bool) (spec : List Char) (len : UInt64) :
    ExactRange checks spec len ↔ (asksAll spec = true → len = 0) := by
  constructor
  · intro hexact hall
    by_contra hlen
    obtain ⟨verdict, hparse, hservable⟩ := hexact.parsed
    rw [parseSingleRange_asksAll checks hall hlen] at hparse
    cases checks with
    | true => cases hparse
    | false =>
        cases hparse
        exact absurd hservable.1 (by decide)
  · intro hall
    obtain ⟨verdict, hparse, hservable⟩ := @parseSingleRange_servable checks _ _ hall
    refine ⟨⟨verdict, hparse, hservable⟩, ?_, ?_⟩
    · intro a b hclosed hab start take
      exact parseSingleRange_closed hclosed hab hall start take
    · intro c file mediaType name sha256 seeks
      obtain ⟨response, hresponse, hslice⟩ := streamArtifactResponse_served hparse hservable c
        file mediaType name sha256 seeks
      refine ⟨response, hresponse, fun start take hpart => hslice start take ?_⟩
      rw [hparse] at hpart
      exact Option.some.inj hpart

/-- The header `bytes=0-18446744073709551615`. -/
def wholeSpec : List Char :=
  bytesUnit ++ ['0', '-', '1', '8', '4', '4', '6', '7', '4', '4', '0', '7', '3', '7', '0', '9',
    '5', '5', '1', '6', '1', '5']

theorem wholeSpec_not_exact :
    ¬ ExactRange true wholeSpec 10 ∧ ¬ ExactRange false wholeSpec 10 := by
  constructor
  · intro hexact
    obtain ⟨verdict, hparse, -⟩ := hexact.parsed
    have hpanics : parseSingleRange true wholeSpec 10 = none := by decide
    rw [hpanics] at hparse
    cases hparse
  · intro hexact
    obtain ⟨verdict, hparse, hservable⟩ := hexact.parsed
    have hwraps : parseSingleRange false wholeSpec 10 = some (.part 0 0) := by decide
    rw [hwraps] at hparse
    cases hparse
    exact absurd hservable.1 (by decide)

end AgentGrid.Store
