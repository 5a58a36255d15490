import AgentGrid.Node.Payload
import AgentGrid.Store.DiffScan
import Mathlib.Data.List.Infix

/-!
# The scan for unrequested hashing

`scan_events` looks for hash commands in the events of an attempt whose prompt does
not speak of hashing.  Lower case and the parser of JSON are parameters.
-/

namespace AgentGrid.Store

open AgentGrid.Foundation AgentGrid.Node

structure ScopeFinding where
  kind : String
  detail : List Char
deriving DecidableEq

/-- `str::to_lowercase` and `serde_json::from_str`. -/
structure ScopeText where
  toLowercase : List Char → List Char
  parse : List Char → Option Json

def hashCmds : List (List Char) :=
  ["md5sum".toList, "sha1sum".toList, "sha224sum".toList, "sha256sum".toList,
    "sha384sum".toList, "sha512sum".toList, "shasum".toList, "b2sum".toList, "cksum".toList,
    "openssl dgst".toList, "gpg --print-md".toList]

def massMarkers : List (List Char) := ["find ".toList, "xargs".toList, "git ls-files".toList]

def promptHashWords : List (List Char) :=
  ["hash".toList, "checksum".toList, "sha256".toList, "sha512".toList, "sha384".toList,
    "sha1".toList, "md5".toList, "shasum".toList, "digest".toList, "fingerprint".toList]

def containsAny (markers : List (List Char)) (text : List Char) : Bool :=
  markers.any fun marker => decide (marker <:+: text)

mutual

def collectStrings : Json → List Char
  | .string s => s.toList ++ ['\n']
  | .array items => collectItems items
  | .object fields => collectFields fields
  | _ => []

def collectItems : List Json → List Char
  | [] => []
  | item :: items => collectStrings item ++ collectItems items

def collectFields : List (String × Json) → List Char
  | [] => []
  | field :: fields => collectStrings field.2 ++ collectFields fields

end

section Scan

variable (T : ScopeText)

def payloadLines (payload : List Char) : List (List Char) :=
  match T.parse payload with
  | none => [payload]
  | some v => if collectStrings v = [] then [payload] else textLines (collectStrings v)

def summarize (lines : List (List Char)) : List Char :=
  let sample := truncate (lines.headD [])
  if 1 < lines.length then
    Nat.toDigits 10 lines.length ++ " hash commands, e.g. \x60".toList ++ sample ++ "\x60".toList
  else "\x60".toList ++ sample ++ "\x60".toList

def scopeTypes : List EventType := [.tool, .stdout, .stderr, .error]

/-- The lines of an attempt that run a hash command. -/
def hashLines (events : List (EventType × String)) : List (List Char) :=
  ((events.filter fun ev => ev.1 ∈ scopeTypes).flatMap fun ev =>
    payloadLines T ev.2.toList).filter fun line => containsAny hashCmds (T.toLowercase line)

def scanEvents (prompt : String) (events : List (EventType × String)) : List ScopeFinding :=
  if containsAny promptHashWords (T.toLowercase prompt.toList) then []
  else
    let mass := (hashLines T events).filter fun line => containsAny massMarkers (T.toLowercase line)
    let plain := (hashLines T events).filter fun line =>
      !containsAny massMarkers (T.toLowercase line)
    (if plain = [] then [] else [⟨"unrequested_hash", summarize plain⟩]) ++
      if mass = [] then [] else [⟨"mass_hash", summarize mass⟩]

variable {T}

/-- A prompt that speaks of hashing silences the scan. -/
theorem scanEvents_requested {prompt : String}
    (h : containsAny promptHashWords (T.toLowercase prompt.toList) = true)
    (events : List (EventType × String)) : scanEvents T prompt events = [] := by
  rw [scanEvents, if_pos h]

/-- Each kind of finding comes once, however many lines there are. -/
theorem scanEvents_nodup (prompt : String) (events : List (EventType × String)) :
    ((scanEvents T prompt events).map ScopeFinding.kind).Nodup := by
  rw [scanEvents]
  split
  · exact List.nodup_nil
  · dsimp only
    split
    · split
      · exact List.nodup_nil
      · exact List.nodup_singleton _
    · split
      · exact List.nodup_singleton _
      · exact (by decide : ["unrequested_hash", "mass_hash"].Nodup)

/-- A finding tells of a line that runs a hash command. -/
theorem scanEvents_nonempty {prompt : String} {events : List (EventType × String)}
    (h : scanEvents T prompt events ≠ []) : hashLines T events ≠ [] := by
  rintro hnone
  refine h ?_
  rw [scanEvents]
  split
  · rfl
  · rw [hnone]
    rfl

end Scan

end AgentGrid.Store
