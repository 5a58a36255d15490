import AgentGrid.Foundation.Grouping
import AgentGrid.Store.ArtifactText

/-!
# The scanner of skills

`scan_content` runs its catalog over a text and over what the encoded runs of the
text decode to, two layers deep.  The regular expressions are a parameter.  The
alphabets of the runs are ASCII, so runs are taken over characters and their offsets
are counted in bytes.
-/

namespace AgentGrid.Skills

open AgentGrid.Foundation
open AgentGrid.Store (utf8 fromUtf8 trimChars)

inductive Severity
  | warning
  | critical
deriving DecidableEq

structure ScanFinding where
  severity : Severity
  pattern : String
  detail : String
  offset : Nat
  snippet : List Char
deriving DecidableEq

/-! ## The catalog -/

structure Rule where
  name : String
  severity : Severity
  risk : String
deriving DecidableEq

def catalog : List Rule :=
  [⟨"override_ignore", .critical, "tells the agent to ignore its standing instructions"⟩,
    ⟨"override_system", .critical, "tries to impersonate the system/admin and escape its sandbox"⟩,
    ⟨"override_jailbreak", .critical, "explicit jailbreak / unfiltered-mode attempt"⟩,
    ⟨"override_inject", .critical,
      "forces specific reply framing (classic prompt-injection payload)"⟩,
    ⟨"override_secret_disclose", .critical, "asks the agent to disclose its own secrets"⟩,
    ⟨"exfil_webhook", .critical, "webhook sink commonly used to smuggle data out"⟩,
    ⟨"exfil_paste", .critical, "paste/upload service used to exfiltrate files"⟩,
    ⟨"exfil_ip_echo", .warning, "IP-echo endpoint — often part of exfiltration beacons"⟩,
    ⟨"shell_pipe_curl", .critical, "download-and-execute pattern (curl | sh)"⟩,
    ⟨"shell_eval", .critical, "dynamic code execution from a constructed string"⟩,
    ⟨"shell_backticks", .warning, "backtick shell substitution piped/redirected (hidden command)"⟩,
    ⟨"shell_base64", .critical, "base64 blob decoded into a pipe — classic obfuscated payload"⟩,
    ⟨"shell_python", .critical, "inline script reaching the network or shell"⟩,
    ⟨"shell_persist", .critical, "persistence hook installing a remote fetch or backdoor"⟩,
    ⟨"shell_reverse", .critical, "reverse shell (nc -e /bin/sh)"⟩,
    ⟨"shell_tmp_exec", .warning, "makes a temp/relative file executable (possible staged payload)"⟩,
    ⟨"secret_sk", .critical, "hard-coded API/token secret"⟩,
    ⟨"secret_env", .warning, "references a credential environment variable by name with a literal"⟩,
    ⟨"agent_secrecy", .critical,
      "instructs the agent to keep secrets from the user (MCP rug-pull pattern)"⟩,
    ⟨"agent_hide_from_user", .critical, "instructs the agent to hide its actions from the user"⟩,
    ⟨"agent_silent_exfil", .critical, "silent data transmission — covert exfiltration instruction"⟩,
    ⟨"cred_file_read", .critical, "reads/uploads credential files (ssh keys, aws, npm tokens)"⟩,
    ⟨"env_dump_net", .critical, "dumps the process environment into a network pipe"⟩,
    ⟨"git_hook_persist", .critical,
      "installs a git hook — persistence that re-runs on every git operation"⟩,
    ⟨"data_uri_payload", .critical, "base64 data: URI — encoded payload hidden from casual review"⟩,
    ⟨"url_shortener", .warning, "URL shortener hides the real destination"⟩,
    ⟨"zero_width_chars", .warning, "run of zero-width Unicode — invisible instruction smuggling"⟩,
    ⟨"sudo_fetch_exec", .warning, "privileged download-and-execute"⟩]

structure Match where
  start : Nat
  text : List Char
deriving DecidableEq

/-- `find_iter` of the regular expression of a rule. -/
abbrev Regexes : Type := String → List Char → List Match

def scanPlain (R : Regexes) (text : List Char) : List ScanFinding :=
  catalog.flatMap fun rule =>
    (R rule.name text).map fun m =>
      ⟨rule.severity, rule.name, rule.risk, m.start, (trimChars m.text).take 80⟩

/-! ## Runs -/

def maxDecodeBytes : Nat := 64 * 1024

def minEncodedRun : Nat := 24

def maxDecodedBlobs : Nat := 32

structure DecodedBlob where
  offset : Nat
  kind : String
  text : List Char
deriving DecidableEq

def byteLen (text : List Char) : Nat := (text.map Char.utf8Size).sum

def flush (min : Nat) : Option (Nat × List Char) → List (Nat × List Char)
  | none => []
  | some run => if min ≤ run.2.length then [run] else []

/-- The runs from `pos` on, with the run that is still open. -/
def runsFrom (min : Nat) (isEnc : Char → Bool) :
    Nat → Option (Nat × List Char) → List Char → List (Nat × List Char)
  | _, run, [] => flush min run
  | pos, run, c :: cs =>
      if isEnc c then
        runsFrom min isEnc (pos + c.utf8Size)
          (some (match run with | some (start, run) => (start, run ++ [c]) | none => (pos, [c]))) cs
      else flush min run ++ runsFrom min isEnc (pos + c.utf8Size) none cs

def runs (text : List Char) (min : Nat) (isEnc : Char → Bool) : List (Nat × List Char) :=
  runsFrom min isEnc 0 none text

/-! ## Decoders -/

def base64Value (c : Char) : Option Nat :=
  if c.isUpper then some (c.toNat - 65)
  else if c.isLower then some (c.toNat - 97 + 26)
  else if c.isDigit then some (c.toNat - 48 + 52)
  else if c = '+' ∨ c = '-' then some 62
  else if c = '/' ∨ c = '_' then some 63
  else none

/-- The loop of `b64_decode`, with `bits` bits in the buffer. -/
def b64From (buf bits : Nat) : List Char → Option (List UInt8)
  | [] => some []
  | c :: cs =>
      if c = '=' then b64From buf bits cs
      else
        match base64Value c with
        | none => none
        | some v =>
            if 8 ≤ bits + 6 then
              (b64From ((buf * 64 + v) % 2 ^ (bits - 2)) (bits - 2) cs).map fun bytes =>
                UInt8.ofNat ((buf * 64 + v) / 2 ^ (bits - 2)) :: bytes
            else b64From (buf * 64 + v) (bits + 6) cs

def b64Decode (run : List Char) : Option (List UInt8) := b64From 0 0 run

/-- `to_digit(16)`. -/
def hexValue (c : Char) : Option Nat :=
  if c.isDigit then some (c.toNat - 48)
  else if 'a' ≤ c ∧ c ≤ 'f' then some (c.toNat - 97 + 10)
  else if 'A' ≤ c ∧ c ≤ 'F' then some (c.toNat - 65 + 10)
  else none

def hexByte (high low : Char) : Option UInt8 :=
  match hexValue high, hexValue low with
  | some h, some l => some (UInt8.ofNat (h * 16 + l))
  | _, _ => none

def hexDecode : List Char → Option (List UInt8)
  | [] => some []
  | [_] => none
  | high :: low :: run =>
      match hexByte high low with
      | none => none
      | some b => (hexDecode run).map fun bytes => b :: bytes

def pctDecode : List Char → Option (List UInt8)
  | [] => some []
  | c :: run =>
      if c = '%' then
        match run with
        | high :: low :: run =>
            match hexByte high low with
            | none => none
            | some b => (pctDecode run).map fun bytes => b :: bytes
        | _ => none
      else (pctDecode run).map fun bytes => UInt8.ofNat c.toNat :: bytes

def isControl (c : Char) : Bool := c.toNat < 32 || (127 ≤ c.toNat && c.toNat ≤ 159)

def isPrintable (c : Char) : Bool := !isControl c || c == '\n' || c == '\t'

/-- What the bytes read as. -/
def looksLikeText (bytes : List UInt8) : Option (List Char) :=
  if bytes = [] ∨ maxDecodeBytes < bytes.length then none
  else
    match fromUtf8 bytes with
    | none => none
    | some s =>
        let chars := s.toList
        if chars.length < 8 then none
        else if chars.length * 9 ≤ (chars.filter isPrintable).length * 10 then some chars
        else none

def isB64 (c : Char) : Bool := c.isAlphanum || c ∈ ['+', '/', '=', '-', '_']

def isHex (c : Char) : Bool := (hexValue c).isSome

def isPct (c : Char) : Bool := c.isAlphanum || c ∈ ['%', '.', '_', '~', '-']

/-- A run that a decoder takes for the encoding of a text. -/
def blobOf (kind : String) (decode : List Char → Option (List UInt8))
    (run : Nat × List Char) : Option DecodedBlob :=
  ((decode run.2).bind looksLikeText).map fun text => ⟨run.1, kind, text⟩

def decodeOnce (text : List Char) : List DecodedBlob :=
  (runs text minEncodedRun isB64).filterMap (blobOf "base64" b64Decode) ++
    ((runs text 32 isHex).filter fun run => run.2.length % 2 = 0).filterMap
      (blobOf "hex" hexDecode) ++
    ((runs text 12 isPct).filter fun run => 3 ≤ run.2.count '%').filterMap
      (blobOf "percent" pctDecode)

/-! ## Layers -/

/-- An outer blob after those inside it. -/
def layersOf (outer : DecodedBlob) : List DecodedBlob :=
  (decodeOnce outer.text).map (fun inner => ⟨outer.offset, inner.kind, inner.text⟩) ++ [outer]

/-- The loop over the outer blobs, with `count` blobs so far. -/
def layersFrom (count : Nat) : List DecodedBlob → List DecodedBlob
  | [] => []
  | outer :: outers =>
      if maxDecodedBlobs ≤ count then []
      else layersOf outer ++ layersFrom (count + (layersOf outer).length) outers

def decodeLayers (text : List Char) : List DecodedBlob := layersFrom 0 (decodeOnce text)

def encodedName (name : String) : String := name ++ "_encoded"

def ScanFinding.inBlob (blob : DecodedBlob) (f : ScanFinding) : ScanFinding :=
  { f with
    pattern := encodedName f.pattern
    detail := f.detail ++ " (inside a " ++ blob.kind ++ "-encoded blob)"
    offset := blob.offset }

section Scan

variable (R : Regexes)

/-- The findings in the order they are made. -/
def rawFindings (text : List Char) : List ScanFinding :=
  scanPlain R text ++ (decodeLayers text).flatMap fun blob =>
    (scanPlain R blob.text).map (ScanFinding.inBlob blob)

def scanContent (text : List Char) : List ScanFinding :=
  ((rawFindings R text).mergeSort fun f f' => f.offset ≤ f'.offset).destutter fun f f' =>
    (f.offset, f.pattern) ≠ (f'.offset, f'.pattern)

end Scan

/-! ## The cap -/

/-- How many blobs each outer blob adds. -/
def blobCounts (text : List Char) : List Nat := (decodeOnce text).map fun b => (layersOf b).length

/-- No outer blob takes the number of blobs past the cap from below it. -/
def NeverPassed (text : List Char) : Prop :=
  ∀ k count, (blobCounts text)[k]? = some count →
    ((blobCounts text).take k).sum < maxDecodedBlobs →
      ((blobCounts text).take k).sum + count ≤ maxDecodedBlobs

theorem layersFrom_le_iff (outers : List DecodedBlob) {count : Nat}
    (hcount : count ≤ maxDecodedBlobs) :
    count + (layersFrom count outers).length ≤ maxDecodedBlobs ↔
      ∀ (k : Nat) size, (outers.map fun b => (layersOf b).length)[k]? = some size →
        count + ((outers.map fun b => (layersOf b).length).take k).sum < maxDecodedBlobs →
          count + ((outers.map fun b => (layersOf b).length).take k).sum + size ≤
            maxDecodedBlobs := by
  induction outers generalizing count with
  | nil => simpa [layersFrom] using hcount
  | cons outer outers ih =>
      rw [layersFrom]
      split
      · rename_i hfull
        simp only [List.length_nil, Nat.add_zero]
        refine iff_of_true hcount ?_
        intro k size _ hlt
        omega
      · rename_i hroom
        rw [List.length_append, ← Nat.add_assoc, List.map_cons]
        constructor
        · intro hle k size hk hlt
          have hfirst : count + (layersOf outer).length ≤ maxDecodedBlobs :=
            (Nat.le_add_right _ _).trans hle
          cases k with
          | zero =>
              obtain rfl : (layersOf outer).length = size := by simpa using hk
              simpa using hfirst
          | succ k =>
              simp only [List.take_succ_cons, List.sum_cons] at hlt ⊢
              have hrest := (ih hfirst).mp hle k size (by simpa using hk) (by omega)
              omega
        · intro h
          have hfirst : count + (layersOf outer).length ≤ maxDecodedBlobs := by
            simpa using h 0 (layersOf outer).length rfl (by simpa using hroom)
          refine (ih hfirst).mpr ?_
          intro k size hk hlt
          have hrest := h (k + 1) size (by simpa using hk) (by simp; omega)
          simp only [List.take_succ_cons, List.sum_cons] at hrest
          omega

theorem decodeLayers_le_iff (text : List Char) :
    (decodeLayers text).length ≤ maxDecodedBlobs ↔ NeverPassed text := by
  have h := layersFrom_le_iff (decodeOnce text) (Nat.zero_le maxDecodedBlobs)
  simp only [Nat.zero_add] at h
  exact h

/-- Up to the cap every blob of both layers is there. -/
theorem layersFrom_of_few (outers : List DecodedBlob) {count : Nat}
    (h : count + (outers.map fun b => (layersOf b).length).sum ≤ maxDecodedBlobs) :
    layersFrom count outers = outers.flatMap layersOf := by
  induction outers generalizing count with
  | nil => rfl
  | cons outer outers ih =>
      have hpos : 0 < (layersOf outer).length := by simp [layersOf]
      rw [List.map_cons, List.sum_cons] at h
      rw [layersFrom, if_neg (by omega), ih (by omega), List.flatMap_cons]

theorem decodeLayers_of_few {text : List Char} (h : (blobCounts text).sum ≤ maxDecodedBlobs) :
    decodeLayers text = (decodeOnce text).flatMap layersOf :=
  layersFrom_of_few _ (by rwa [Nat.zero_add])

/-! ## What is reported -/

section Report

variable {R : Regexes} {text : List Char}

/-- The patterns found at an offset, in the order they are found. -/
def patternsAt (R : Regexes) (text : List Char) (offset : Nat) : List String :=
  ((rawFindings R text).filter fun f => f.offset = offset).map ScanFinding.pattern

def findingKey (f : ScanFinding) : Nat × String := (f.offset, f.pattern)

theorem keys_scanContent : (scanContent R text).map findingKey =
    (((rawFindings R text).mergeSort fun f f' => f.offset ≤ f'.offset).map findingKey).destutter
      (· ≠ ·) :=
  List.map_destutter fun _ _ _ _ => Iff.rfl

/-- A finding may be dropped for another one of its pattern and offset. -/
theorem reported_iff (offset : Nat) (pattern : String) :
    (∃ f ∈ scanContent R text, f.offset = offset ∧ f.pattern = pattern) ↔
      ∃ f ∈ rawFindings R text, f.offset = offset ∧ f.pattern = pattern := by
  have hkey : ∀ l : List ScanFinding, (∃ f ∈ l, f.offset = offset ∧ f.pattern = pattern) ↔
      (offset, pattern) ∈ l.map findingKey := by
    intro l
    simp [findingKey]
  rw [hkey, hkey, keys_scanContent, mem_destutter_ne, List.mem_map, List.mem_map]
  simp only [List.mem_mergeSort]

/-- No pair of an offset and a pattern is reported twice exactly when at every offset a
pattern comes back only right after itself. -/
theorem nodup_scanContent_iff :
    ((scanContent R text).map findingKey).Nodup ↔
      ∀ offset, Grouped (patternsAt R text offset) := by
  have hsorted : ((rawFindings R text).mergeSort fun f f' => f.offset ≤ f'.offset).Pairwise
      fun f f' => f.offset ≤ f'.offset := by
    let le : ScanFinding → ScanFinding → Bool := fun f f' => f.offset ≤ f'.offset
    have htrans : ∀ f₁ f₂ f₃, le f₁ f₂ = true → le f₂ f₃ = true → le f₁ f₃ = true := by
      simp only [le, decide_eq_true_eq]
      omega
    have htotal : ∀ f₁ f₂, (le f₁ f₂ || le f₂ f₁) = true := by
      simp only [le, Bool.or_eq_true, decide_eq_true_eq]
      omega
    have h := List.pairwise_mergeSort htrans htotal (rawFindings R text)
    exact h.imp fun hle => of_decide_eq_true hle
  rw [keys_scanContent, nodup_destutter_iff]
  refine (grouped_of_sorted (g := ScanFinding.pattern) hsorted).trans ?_
  refine forall_congr' fun offset => ?_
  rw [filter_mergeSort ScanFinding.offset, patternsAt]

end Report

end AgentGrid.Skills
