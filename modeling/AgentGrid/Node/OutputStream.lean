import AgentGrid.Node.Payload

/-!
# Adapter output, from bytes to admissible batches

`read_stream` cuts the bytes an adapter writes into lines, masks secrets and
pushes the events each line stands for; `split_batch` cuts the events into
chunks and the control plane checks each chunk it is sent.  Parsing a line as
JSON and the verdict of the command guard are parameters.
-/

namespace AgentGrid.Node

open AgentGrid.Store

/-! ## Text -/

def isContinuation (b : UInt8) : Bool := decide (0x80 ≤ b ∧ b ≤ 0xBF)

/-- Whether the second byte may follow the first of a longer sequence. -/
def isSecondByte (b0 b1 : UInt8) : Bool :=
  if b0 = 0xE0 then decide (0xA0 ≤ b1 ∧ b1 ≤ 0xBF)
  else if b0 = 0xED then decide (0x80 ≤ b1 ∧ b1 ≤ 0x9F)
  else if b0 = 0xF0 then decide (0x90 ≤ b1 ∧ b1 ≤ 0xBF)
  else if b0 = 0xF4 then decide (0x80 ≤ b1 ∧ b1 ≤ 0x8F)
  else isContinuation b1

def utf8Width (b : UInt8) : Nat :=
  if b < 0x80 then 1
  else if 0xC2 ≤ b ∧ b ≤ 0xDF then 2
  else if 0xE0 ≤ b ∧ b ≤ 0xEF then 3
  else if 0xF0 ≤ b ∧ b ≤ 0xF4 then 4
  else 0

def low (b : UInt8) : Nat := b.toNat % 64

def replacement : Char := Char.ofNat 0xFFFD

/-- The first character of the bytes, or a replacement for the longest start of
one, and how many bytes after the first it takes. -/
def decodeFirst (b0 : UInt8) (rest : List UInt8) : Char × Nat :=
  match utf8Width b0, rest with
  | 1, _ => (Char.ofNat b0.toNat, 0)
  | 2, b1 :: _ =>
      if isContinuation b1 then (Char.ofNat (b0.toNat % 32 * 64 + low b1), 1)
      else (replacement, 0)
  | 3, b1 :: tail =>
      if isSecondByte b0 b1 then
        match tail with
        | b2 :: _ =>
            if isContinuation b2 then
              (Char.ofNat (b0.toNat % 16 * 4096 + low b1 * 64 + low b2), 2)
            else (replacement, 1)
        | [] => (replacement, 1)
      else (replacement, 0)
  | 4, b1 :: tail =>
      if isSecondByte b0 b1 then
        match tail with
        | b2 :: b3 :: _ =>
            if isContinuation b2 then
              if isContinuation b3 then
                (Char.ofNat (b0.toNat % 8 * 262144 + low b1 * 4096 + low b2 * 64 + low b3), 3)
              else (replacement, 2)
            else (replacement, 1)
        | [b2] => (replacement, if isContinuation b2 then 2 else 1)
        | [] => (replacement, 1)
      else (replacement, 0)
  | _, _ => (replacement, 0)

/-- `String::from_utf8_lossy`, after `skip` bytes that were taken already. -/
def decodeLossy : Nat → List UInt8 → List Char
  | _, [] => []
  | skip + 1, _ :: rest => decodeLossy skip rest
  | 0, b :: rest => (decodeFirst b rest).1 :: decodeLossy (decodeFirst b rest).2 rest

def fromUtf8Lossy (bytes : List UInt8) : List Char := decodeLossy 0 bytes

/-- The matches of a non-empty pattern, from the left, after `skip` characters
of the last match. -/
def replaceFrom (pattern replacement : List Char) : Nat → List Char → List Char
  | _, [] => []
  | skip + 1, _ :: rest => replaceFrom pattern replacement skip rest
  | 0, c :: rest =>
      if pattern.isPrefixOf (c :: rest) then
        replacement ++ replaceFrom pattern replacement (pattern.length - 1) rest
      else c :: replaceFrom pattern replacement 0 rest

/-- `str::replace`; an empty pattern matches between any two characters. -/
def replaceAll (pattern replacement s : List Char) : List Char :=
  if pattern.isEmpty then replacement ++ s.flatMap fun c => c :: replacement
  else replaceFrom pattern replacement 0 s

def base64Char (n : Nat) : Char :=
  let n := n % 64
  if n < 26 then Char.ofNat (65 + n)
  else if n < 52 then Char.ofNat (97 + (n - 26))
  else if n < 62 then Char.ofNat (48 + (n - 52))
  else if n = 62 then '+'
  else '/'

def base64Encode : List UInt8 → List Char
  | [] => []
  | [b0] =>
      let n := b0.toNat * 65536
      [base64Char (n / 262144), base64Char (n / 4096), '=', '=']
  | [b0, b1] =>
      let n := b0.toNat * 65536 + b1.toNat * 256
      [base64Char (n / 262144), base64Char (n / 4096), base64Char (n / 64), '=']
  | b0 :: b1 :: b2 :: rest =>
      let n := b0.toNat * 65536 + b1.toNat * 256 + b2.toNat
      [base64Char (n / 262144), base64Char (n / 4096), base64Char (n / 64), base64Char n] ++
        base64Encode rest

def upperHex (n : Nat) : Char :=
  if n < 10 then Char.ofNat (48 + n) else Char.ofNat (55 + n)

def urlEncode (bytes : List UInt8) : List Char :=
  bytes.flatMap fun b =>
    let c := Char.ofNat b.toNat
    if b < 0x80 && (c.isAlphanum || ['-', '_', '.', '~'].contains c) then [c]
    else ['%', upperHex (b.toNat / 16), upperHex (b.toNat % 16)]

/-! ## The redactor -/

structure StreamingRedactor where
  secrets : List String := []
  minLen : Nat := 6
  lineCap : Nat := 1024 * 1024

def stars : List Char := ['*', '*', '*']

def maskSecrets (R : StreamingRedactor) (line : List Char) : List Char :=
  R.secrets.foldl (fun s secret =>
    if R.minLen ≤ secret.utf8ByteSize then
      let bytes := secret.toUTF8.data.toList
      replaceAll (urlEncode bytes) stars
        (replaceAll (base64Encode bytes) stars (replaceAll secret.toList stars s))
    else s) line

def maskLine (R : StreamingRedactor) (line : List UInt8) : List Char :=
  maskSecrets R (fromUtf8Lossy line)

def truncationMark : List Char := "... [truncated]".toList

namespace StreamingRedactor

def overlapLen (R : StreamingRedactor) : Nat :=
  min ((R.secrets.map String.utf8ByteSize).foldl max 0) (R.lineCap - 1)

def truncated (R : StreamingRedactor) (buf : List UInt8) : List Char :=
  maskLine R (buf.take R.lineCap) ++ truncationMark

/-- The loop of `feed`: the lines it emits and the bytes it keeps. -/
def drain (R : StreamingRedactor) : Nat → List UInt8 → List (List Char) × List UInt8
  | 0, buf => ([], buf)
  | fuel + 1, buf =>
      match buf.findIdx? (· == 10) with
      | some nl =>
          if R.lineCap ≤ nl then
            let (lines, kept) := R.drain fuel (buf.drop (R.lineCap - R.overlapLen))
            (R.truncated buf :: lines, kept)
          else
            let (lines, kept) := R.drain fuel (buf.drop (nl + 1))
            (maskLine R (buf.take nl) :: lines, kept)
      | none =>
          if R.lineCap ≤ buf.length then
            let (lines, kept) := R.drain fuel (buf.drop (R.lineCap - R.overlapLen))
            (R.truncated buf :: lines, kept)
          else ([], buf)

def feed (R : StreamingRedactor) (buf chunk : List UInt8) :
    List (List Char) × List UInt8 :=
  R.drain ((buf ++ chunk).length + 1) (buf ++ chunk)

def finish (R : StreamingRedactor) (buf : List UInt8) : Option (List Char) :=
  if buf.isEmpty then none
  else if R.lineCap ≤ buf.length then some (R.truncated buf)
  else some (maskLine R buf)

end StreamingRedactor

/-! ## Events of a line -/

inductive EventKind
  | plan | toolCall | toolResult | fileChange | permissionRequest | usage | handoff
  | cancel | status | log | progress | result | error
  | other (name : String)

def EventKind.toEventType : EventKind → EventType
  | .plan | .handoff | .status | .cancel => .status
  | .toolCall | .toolResult => .tool
  | .fileChange => .artifact
  | .permissionRequest | .log => .stdout
  | .usage | .progress => .metric
  | .result => .result
  | .error => .error
  | .other _ => .stdout

structure AgentEventEnvelope where
  kind : EventKind
  payload : Json

structure AdapterEvent where
  type : String
  payload : Json

def toEventType (type : String) : EventType :=
  if type = "log" then .stdout
  else if type = "tool_call" then .tool
  else if type = "file_change" then .artifact
  else if type = "progress" then .metric
  else if type = "result" then .result
  else if type = "error" then .error
  else .stdout

inductive GuardDecision
  | allowed | deniedMatch | deniedNotAllowlisted
deriving DecidableEq

def GuardDecision.reason : GuardDecision → String
  | .allowed => "allowed"
  | .deniedMatch => "denylist match"
  | .deniedNotAllowlisted => "not in allowlist"

/-- What `read_stream` is given: the two readings of a line as JSON and the
command guard. -/
structure LineReader where
  envelope : List Char → Option AgentEventEnvelope
  adapterEvent : List Char → Option AdapterEvent
  decide : String → GuardDecision

inductive OutputName
  | stdout | stderr
deriving DecidableEq

def toolCommand (payload : Json) : Option String :=
  ((payload.get "input").bind Json.asStr).or ((payload.get "tool").bind Json.asStr)

def guardBlocked (command : String) (decision : GuardDecision) : Json :=
  .object [("kind", .string "guard_blocked"), ("command", .string command),
    ("reason", .string decision.reason), ("enforced", .bool true)]

/-- The pushes of a structured event, with the refusal of its command. -/
def guardedPushes (L : LineReader) (isToolCall : Bool) (type : EventType) (payload : Json) :
    List (EventType × Json) :=
  match if isToolCall then toolCommand payload else none with
  | some command =>
      if L.decide command = .allowed then [(type, payload)]
      else [(type, payload), (.error, guardBlocked command (L.decide command))]
  | none => [(type, payload)]

def textPayload (line : List Char) : Json := .object [("text", .string (String.ofList line))]

/-- `emit_line_masked`: what is pushed for one line. -/
def emitLineMasked (L : LineReader) (stream : OutputName) (line : List Char) :
    List (EventType × Json) :=
  match L.envelope line with
  | some env =>
      guardedPushes L (match env.kind with | .toolCall => true | _ => false)
        env.kind.toEventType env.payload
  | none =>
      match L.adapterEvent line with
      | some ae => guardedPushes L (ae.type == "tool_call") (toEventType ae.type) ae.payload
      | none => [(if stream = .stderr then .stderr else .stdout, textPayload line)]

/-! ## A run of the two streams -/

structure StreamState where
  usage : Usage := {}
  stdout : List UInt8 := []
  stderr : List UInt8 := []

/-- What comes from the process: bytes on one of its streams, or its end. -/
inductive OutputOp
  | bytes (stream : OutputName) (chunk : List UInt8)
  | eof (stream : OutputName)

def StreamState.buf (st : StreamState) : OutputName → List UInt8
  | .stdout => st.stdout
  | .stderr => st.stderr

def StreamState.setBuf (st : StreamState) (stream : OutputName) (buf : List UInt8) :
    StreamState :=
  match stream with
  | .stdout => { st with stdout := buf }
  | .stderr => { st with stderr := buf }

def linesOf (R : StreamingRedactor) (st : StreamState) :
    OutputOp → OutputName × List (List Char) × List UInt8
  | .bytes stream chunk => (stream, R.feed (st.buf stream) chunk)
  | .eof stream => (stream, (R.finish (st.buf stream)).toList, [])

/-- The payloads as `push` queues them. -/
def queuePushes (usage : Usage) : List (EventType × Json) → Usage × List (EventType × Json)
  | [] => (usage, [])
  | (type, payload) :: pushes =>
      let (usage, payload) := countUsage usage type payload
      let (usage, queued) := queuePushes usage pushes
      (usage, (type, payload) :: queued)

def readStep (R : StreamingRedactor) (L : LineReader) (st : StreamState) (op : OutputOp) :
    StreamState × List (EventType × Json) :=
  let (stream, lines, kept) := linesOf R st op
  let (usage, queued) := queuePushes st.usage (lines.flatMap (emitLineMasked L stream))
  ({ st with usage := usage }.setBuf stream kept, queued)

/-- Everything `read_stream` pushes while the process runs. -/
def readStream (R : StreamingRedactor) (L : LineReader) :
    StreamState → List OutputOp → List (EventType × Json)
  | _, [] => []
  | st, op :: ops =>
      let (st, queued) := readStep R L st op
      queued ++ readStream R L st ops

/-! ## Admission -/

/-- The limits of the control plane on events, with those both sides read. -/
structure EventLimits where
  maxEventKb : Nat := 1024
  env : BatchEnv := {}

def EventLimits.event (limits : EventLimits) : Nat := limits.maxEventKb * 1024

/-- The status `ingest_events` refuses a batch with; `allowed` is the answer of
the rate limit. -/
def ingestRefusal (limits : EventLimits) (allowed : Bool) (events : List SinkEvent) :
    Option Nat :=
  if events.any fun e => decide (limits.event < e.payload.bytes) then some 413
  else if allowed = false then some 429
  else if limits.env.maxEvents < events.length then some 413
  else if limits.env.maxBytes < (events.map fun e => e.payload.bytes).sum then some 413
  else none

/-- A chunk within the caps is admitted exactly when its payloads are. -/
theorem withinCaps_admitted {limits : EventLimits} {chunk : List SinkEvent}
    (h : WithinCaps limits.env.maxEvents limits.env.splitBytes chunk)
    (hcount : 1 ≤ limits.env.maxEvents)
    (hevent : ∀ e ∈ chunk, e.payload.bytes ≤ limits.event)
    (hbytes : ∀ e ∈ chunk, e.payload.bytes ≤ limits.env.maxBytes) (allowed : Bool) :
    ingestRefusal limits allowed chunk ≠ some 413 := by
  have hany : (chunk.any fun e => decide (limits.event < e.payload.bytes)) = false := by
    rw [List.any_eq_false]
    intro e he
    simpa using hevent e he
  have hlength : ¬ limits.env.maxEvents < chunk.length := by
    have := h.count
    omega
  have hestimate := bytes_le_estimate chunk
  have htotal : ¬ limits.env.maxBytes < (chunk.map fun e => e.payload.bytes).sum := by
    rw [Nat.not_lt]
    rcases h.bytes with hone | hmany
    · match chunk, hone, hbytes with
      | [], _, _ => simp
      | [e], _, hbytes => simpa using hbytes e List.mem_cons_self
    · have hhead : limits.env.splitBytes ≤ limits.env.maxBytes := by
        rw [BatchEnv.splitBytes]
        omega
      omega
  cases allowed <;> simp [ingestRefusal, hany, hlength, htotal]

/-- With a positive line cap the loop of `feed` comes to an end: what is kept
holds no newline and is shorter than the cap. -/
theorem drain_done {R : StreamingRedactor} (hcap : 0 < R.lineCap) (fuel : Nat)
    (buf : List UInt8) (hfuel : buf.length < fuel) :
    (R.drain fuel buf).2.findIdx? (· == 10) = none ∧
      (R.drain fuel buf).2.length < R.lineCap := by
  have hoverlap : R.overlapLen < R.lineCap := by
    rw [StreamingRedactor.overlapLen]
    omega
  induction fuel generalizing buf with
  | zero => omega
  | succ fuel ih =>
      rw [StreamingRedactor.drain]
      split
      · rename_i nl hnl
        have hpos : nl < buf.length := (List.findIdx?_eq_some_iff_getElem.mp hnl).1
        split
        · apply ih
          rw [List.length_drop]
          omega
        · apply ih
          rw [List.length_drop]
          omega
      · rename_i hnone
        split
        · apply ih
          rw [List.length_drop]
          omega
        · rename_i hshort
          exact ⟨hnone, Nat.not_le.mp hshort⟩

theorem feed_done {R : StreamingRedactor} (hcap : 0 < R.lineCap) (buf chunk : List UInt8) :
    (R.feed buf chunk).2.findIdx? (· == 10) = none ∧
      (R.feed buf chunk).2.length < R.lineCap :=
  drain_done hcap _ _ (Nat.lt_succ_self _)

/-! ## A line at the cap -/

/-- Below the cap and without a newline the bytes are only kept. -/
theorem feed_short {R : StreamingRedactor} {buf chunk : List UInt8}
    (hline : (buf ++ chunk).findIdx? (· == 10) = none)
    (hshort : (buf ++ chunk).length < R.lineCap) :
    R.feed buf chunk = ([], buf ++ chunk) := by
  rw [StreamingRedactor.feed, StreamingRedactor.drain, hline]
  simp [Nat.not_le.mpr (by simpa using hshort)]

/-- A line without a newline that reaches the cap is emitted with the mark. -/
theorem feed_full {R : StreamingRedactor} {buf chunk : List UInt8}
    (hline : (buf ++ chunk).findIdx? (· == 10) = none)
    (hfull : R.lineCap ≤ (buf ++ chunk).length) :
    ∃ lines, (R.feed buf chunk).1 = R.truncated (buf ++ chunk) :: lines := by
  rw [StreamingRedactor.feed, StreamingRedactor.drain, hline]
  dsimp only
  rw [if_pos hfull]
  exact ⟨_, rfl⟩

def letterA : UInt8 := 97

theorem decodeLossy_replicate (n : Nat) :
    decodeLossy 0 (List.replicate n letterA) = List.replicate n 'a' := by
  induction n with
  | zero => rfl
  | succ n ih =>
      have hfirst : ∀ rest, decodeFirst letterA rest = ('a', 0) := fun rest => rfl
      rw [List.replicate_succ, decodeLossy, hfirst, List.replicate_succ, ih]

theorem findIdx_replicate (n : Nat) :
    (List.replicate n letterA).findIdx? (· == 10) = none := by
  rw [List.findIdx?_eq_none_iff]
  intro b hb
  rw [List.eq_of_mem_replicate hb]
  decide

theorem length_le_utf8Bytes (s : List Char) : s.length ≤ utf8Bytes s := by
  induction s with
  | nil => simp [utf8Bytes]
  | cons c s ih =>
      have hpos := Char.utf8Size_pos c
      simp only [utf8Bytes, List.map_cons, List.sum_cons, List.length_cons] at ih ⊢
      omega

theorem length_le_escaped (s : List Char) : s.length ≤ (s.flatMap escapeChar).length := by
  induction s with
  | nil => simp
  | cons c s ih =>
      have hchar : 1 ≤ (escapeChar c).length := by
        obtain ⟨-, -, hc⟩ | ⟨_, hc⟩ | ⟨-, hc⟩ := escapeChar_cases c
        all_goals simp [hc]
      rw [List.flatMap_cons, List.length_append, List.length_cons]
      omega

theorem length_lt_textPayload (line : List Char) : line.length < (textPayload line).bytes := by
  have htext : (textPayload line).text = '\x7b' :: (quoted "text".toList ++ ':' ::
      (quoted line ++ ['\x7d'])) := by
    simp [textPayload, Json.text_object, Json.text_string, fieldsText_singleton]
  have hescaped := length_le_escaped line
  have hlong : line.length < (textPayload line).text.length := by
    rw [htext]
    simp only [quoted, List.length_cons, List.length_append]
    omega
  exact Nat.lt_of_lt_of_le hlong (length_le_utf8Bytes _)

/-- Lines that are no JSON. -/
def plainReader : LineReader := ⟨fun _ => none, fun _ => none, fun _ => .allowed⟩

/-- What one read of an adapter that writes `a` without end brings. -/
def readOfA (size : Nat) : OutputOp := .bytes .stdout (List.replicate size letterA)

theorem queuePushes_plain (usage : Usage) (pushes : List (EventType × Json))
    (h : ∀ p ∈ pushes, p.1 ≠ .metric) : queuePushes usage pushes = (usage, pushes) := by
  induction pushes with
  | nil => rfl
  | cons p pushes ih =>
      have hfirst := h p List.mem_cons_self
      have hrest := ih fun q hq => h q (List.mem_cons_of_mem _ hq)
      simp [queuePushes, countUsage, hfirst, hrest]

/-- One read of plain text: the bytes kept and the lines pushed. -/
theorem readStream_plain (R : StreamingRedactor) (st : StreamState) (chunk : List UInt8)
    (ops : List OutputOp) :
    readStream R plainReader st (.bytes .stdout chunk :: ops) =
      (R.feed st.stdout chunk).1.map (fun line => (EventType.stdout, textPayload line)) ++
        readStream R plainReader { st with stdout := (R.feed st.stdout chunk).2 } ops := by
  have hpushes : (R.feed st.stdout chunk).1.flatMap (emitLineMasked plainReader .stdout) =
      (R.feed st.stdout chunk).1.map fun line => (.stdout, textPayload line) := by
    rw [List.map_eq_flatMap]
    rfl
  have hqueue := queuePushes_plain st.usage
    ((R.feed st.stdout chunk).1.map fun line => (.stdout, textPayload line)) (by simp)
  simp only [readStream, readStep, linesOf, StreamState.buf, hpushes, hqueue]
  rfl

/-- The reads up to the line cap keep the bytes, and the one that reaches it
pushes the line cut there. -/
theorem readStream_at_cap (R : StreamingRedactor) (size reads held : Nat) (st : StreamState)
    (hbuf : st.stdout = List.replicate held letterA)
    (hbelow : held + size * reads < R.lineCap)
    (hfull : R.lineCap ≤ held + size * (reads + 1)) :
    (.stdout, textPayload (R.truncated (List.replicate (held + size * (reads + 1)) letterA))) ∈
      readStream R plainReader st (List.replicate (reads + 1) (readOfA size)) := by
  have hjoin : st.stdout ++ List.replicate size letterA =
      List.replicate (held + size) letterA := by
    rw [hbuf, List.replicate_append_replicate]
  have hline := findIdx_replicate (held + size)
  rw [← hjoin] at hline
  induction reads generalizing held st with
  | zero =>
      have hcap : R.lineCap ≤ (st.stdout ++ List.replicate size letterA).length := by
        rw [hjoin, List.length_replicate]
        omega
      obtain ⟨lines, hlines⟩ := feed_full hline hcap
      rw [List.replicate_succ, readOfA, readStream_plain, hlines, hjoin]
      simp
  | succ reads ih =>
      have hgrow : size * (reads + 1) = size + size * reads := by
        rw [Nat.mul_add, Nat.mul_one, Nat.add_comm]
      have hgrow' : size * (reads + 1 + 1) = size + size * (reads + 1) := by
        rw [Nat.mul_add size (reads + 1), Nat.mul_one, Nat.add_comm]
      have hshort : (st.stdout ++ List.replicate size letterA).length < R.lineCap := by
        rw [hjoin, List.length_replicate]
        omega
      rw [List.replicate_succ, readOfA, readStream_plain, feed_short hline hshort, ← readOfA,
        hjoin, hgrow', ← Nat.add_assoc]
      apply List.mem_append_right
      refine ih (held + size) _ rfl (by omega) (by omega) List.replicate_append_replicate ?_
      change (List.replicate (held + size) letterA ++ _).findIdx? (· == 10) = none
      rw [List.replicate_append_replicate]
      exact findIdx_replicate _

theorem truncated_length {R : StreamingRedactor} (hsecrets : R.secrets = []) {n : Nat}
    (hn : R.lineCap ≤ n) : (R.truncated (List.replicate n letterA)).length =
      R.lineCap + truncationMark.length := by
  rw [StreamingRedactor.truncated, List.length_append, maskLine, maskSecrets, hsecrets,
    List.foldl_nil, fromUtf8Lossy, List.take_replicate, decodeLossy_replicate,
    List.length_replicate, Nat.min_eq_left hn]

end AgentGrid.Node
