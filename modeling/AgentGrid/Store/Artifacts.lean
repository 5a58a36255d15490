import Mathlib.Data.List.Sort
import AgentGrid.Foundation.Transition
import AgentGrid.Store.Tables

/-!
# Artifacts

An artifact is a row of metadata under its attempt and name and a file in the
attempt's directory.  Log-class content that compresses well is kept as
`<name>.zst` and the row says so; readers go by the row.  The codec and the
hash are parameters, and the outcome of each file and database operation of a
save is an input.
-/

namespace AgentGrid.Store

open AgentGrid.Foundation

/-- Zstandard and SHA-256. -/
structure Codec where
  encode : List UInt8 → Option (List UInt8)
  decodeAll : List UInt8 → Option (List UInt8)
  sha256Hex : List UInt8 → String

def Codec.Inverts (c : Codec) : Prop :=
  ∀ bytes frame, c.encode bytes = some frame → c.decodeAll frame = some bytes

def startsWith (text start : String) : Bool := start.toList.isPrefixOf text.toList

def endsWith (text ending : String) : Bool := ending.toList.isSuffixOf text.toList

def contains (text : String) (c : Char) : Bool := text.toList.any (· == c)

def isControl (c : Char) : Bool := c.toNat < 0x20 || (0x7f ≤ c.toNat && c.toNat ≤ 0x9f)

def isSafeOpaqueId (id : String) : Bool :=
  id != "" && id.utf8ByteSize ≤ 64 &&
    id.toList.all fun c => c.isAlphanum || c == '_' || c == '-'

def isSafeArtifactName (name : String) : Bool :=
  if name == "" || 255 < name.utf8ByteSize then false
  else if contains name '/' || contains name '\\' || contains name '\x00' then false
  else if name == "." || name == ".." || startsWith name "../" || startsWith name "..\\" then
    false
  else name.toList.all fun c => !isControl c

def isWhitespace (c : Char) : Bool :=
  (9 ≤ c.toNat && c.toNat ≤ 13) || c.toNat == 0x20 || c.toNat == 0x85 || c.toNat == 0xa0 ||
    c.toNat == 0x1680 || (0x2000 ≤ c.toNat && c.toNat ≤ 0x200a) || c.toNat == 0x2028 ||
    c.toNat == 0x2029 || c.toNat == 0x202f || c.toNat == 0x205f || c.toNat == 0x3000

def trimChars (text : List Char) : List Char :=
  ((text.dropWhile isWhitespace).reverse.dropWhile isWhitespace).reverse

def trim (text : String) : String :=
  String.ofList (((text.toList.dropWhile isWhitespace).reverse.dropWhile
    isWhitespace).reverse)

def toAsciiLowercase (text : String) : String := String.ofList (text.toList.map Char.toLower)

/-- The frame, when it is at least thirty percent smaller. -/
def compressIfWorthwhile (c : Codec) (bytes : List UInt8) : Option (List UInt8) :=
  match c.encode bytes with
  | some frame => if 10 * frame.length ≤ 7 * bytes.length then some frame else none
  | none => none

def zst (name : String) : String := name ++ ".zst"

structure SaveRequest where
  attemptId : String
  name : String
  bytes : List UInt8
  mediaType : Option String := none
  sha256 : Option String := none

namespace SaveRequest

def logClass (req : SaveRequest) : Bool :=
  endsWith req.name ".log" || req.mediaType.any (startsWith · "text/")

/-- The frame a save stores in place of its bytes. -/
def frame (req : SaveRequest) (c : Codec) : Option (List UInt8) :=
  if req.logClass ∧ 4096 ≤ req.bytes.length then compressIfWorthwhile c req.bytes else none

def writeBytes (req : SaveRequest) (c : Codec) : List UInt8 := (req.frame c).getD req.bytes

def storedCompressed (req : SaveRequest) (c : Codec) : Bool := (req.frame c).isSome

def onDiskName (req : SaveRequest) (c : Codec) : String :=
  if req.storedCompressed c then zst req.name else req.name

end SaveRequest

inductive StoreArtifactError
  | hashMismatch (expected computed : String)
  | invalidAttemptId
  | invalidName
  | storage
deriving DecidableEq

structure ArtifactRow where
  sizeBytes : Nat
  storedAt : String
  mediaType : Option String
  sha256 : String
  storedCompressed : Bool
  storedSha256 : String
deriving DecidableEq

/-- The metadata by attempt and name, the files by attempt and file name. -/
structure ArtifactStore where
  rows : String → String → Option ArtifactRow := fun _ _ => none
  files : String → String → Option (List UInt8) := fun _ _ => none

namespace ArtifactStore

def put (s : ArtifactStore) (attemptId file : String) (content : Option (List UInt8)) :
    ArtifactStore :=
  { s with
    files := fun a f => if a = attemptId ∧ f = file then content else s.files a f }

def record (s : ArtifactStore) (attemptId name : String) (row : Option ArtifactRow) :
    ArtifactStore :=
  { s with rows := fun a n => if a = attemptId ∧ n = name then row else s.rows a n }

end ArtifactStore

/-- What the file system and the database answer to the operations of a save. -/
structure SaveIo where
  written : Bool := true
  renamed : Bool := true
  unlinked : Bool := true
  committed : Bool := true

def SaveRequest.row (req : SaveRequest) (c : Codec) (now : String) : ArtifactRow where
  sizeBytes := req.bytes.length
  storedAt := now
  mediaType := req.mediaType
  sha256 := c.sha256Hex req.bytes
  storedCompressed := req.storedCompressed c
  storedSha256 := c.sha256Hex (req.writeBytes c)

/-- The checks a save makes before it touches a file of the artifact. -/
def SaveRequest.check (req : SaveRequest) (c : Codec) : Except StoreArtifactError Unit :=
  let computed := c.sha256Hex req.bytes
  let expected := toAsciiLowercase (trim (req.sha256.getD ""))
  if isSafeOpaqueId req.attemptId = false then .error .invalidAttemptId
  else if expected ≠ "" ∧ expected ≠ computed then .error (.hashMismatch expected computed)
  else if isSafeArtifactName req.name = false then .error .invalidName
  else .ok ()

structure ArtifactUploadResponse where
  name : String
  sizeBytes : Nat
  mediaType : Option String
  sha256 : String
deriving DecidableEq

/-- The temporary file has a fresh name and becomes the artifact's file by one
rename; the plain file goes after the compressed one has come. -/
def saveArtifactBytes (c : Codec) (s : ArtifactStore) (req : SaveRequest) (io : SaveIo)
    (now : String) : ArtifactStore × Except StoreArtifactError ArtifactUploadResponse :=
  match req.check c with
  | .error cause => (s, .error cause)
  | .ok () =>
      if io.written = false ∨ io.renamed = false then (s, .error .storage)
      else
        let s := s.put req.attemptId (req.onDiskName c) (some (req.writeBytes c))
        let s :=
          if req.onDiskName c ≠ req.name ∧ io.unlinked then
            s.put req.attemptId req.name none
          else s
        if io.committed = false then (s, .error .storage)
        else
          (s.record req.attemptId req.name (some (req.row c now)),
            .ok ⟨req.name, req.bytes.length, req.mediaType, c.sha256Hex req.bytes⟩)

/-- The file a reader opens and whether it holds a frame. -/
def resolveOnDisk (s : ArtifactStore) (attemptId name : String) : String × Bool :=
  if (s.rows attemptId name).any (·.storedCompressed) then
    if (s.files attemptId (zst name)).isSome then (zst name, true)
    else if (s.files attemptId name).isSome then (name, false)
    else (zst name, true)
  else (name, false)

def decompressBlocking (c : Codec) (bytes : List UInt8) : List UInt8 :=
  (c.decodeAll bytes).getD []

/-- `SELECT id FROM attempts WHERE task_id = ? ORDER BY number DESC LIMIT 1`. -/
def latestAttemptId (attempts : List Attempt) (taskId : String) : Option String :=
  (((attempts.filter fun a => a.taskId == taskId).insertionSort
    fun a b => b.number ≤ a.number).head?).map Attempt.id

def readArtifactBytes (c : Codec) (attempts : List Attempt) (s : ArtifactStore)
    (taskId name : String) : Option (List UInt8) :=
  match latestAttemptId attempts taskId with
  | none => none
  | some attemptId =>
      if isSafeOpaqueId attemptId && isSafeArtifactName name then
        let (file, compressed) := resolveOnDisk s attemptId name
        (s.files attemptId file).map fun bytes =>
          if compressed then decompressBlocking c bytes else bytes
      else none

structure OpenArtifact where
  file : List UInt8
  len : Nat
  compressed : Bool
deriving DecidableEq

def openArtifact (attempts : List Attempt) (s : ArtifactStore) (taskId name : String) :
    Option OpenArtifact :=
  match latestAttemptId attempts taskId with
  | none => none
  | some attemptId =>
      if isSafeOpaqueId attemptId && isSafeArtifactName name then
        let (file, compressed) := resolveOnDisk s attemptId name
        (s.files attemptId file).map fun bytes =>
          ⟨bytes, ((s.rows attemptId name).map ArtifactRow.sizeBytes).getD 0, compressed⟩
      else none

/-- What the serve path sends of an opened artifact. -/
def OpenArtifact.decoded (c : Codec) (o : OpenArtifact) : List UInt8 :=
  if o.compressed then decompressBlocking c o.file else o.file

structure SaveCall where
  req : SaveRequest
  io : SaveIo := {}
  now : String := ""

/-- The store, and for each attempt and name the bytes of the last save that
succeeded. -/
structure Shelf where
  store : ArtifactStore := {}
  saved : String → String → Option (List UInt8) := fun _ _ => none

def shelfStep (c : Codec) (shelf : Shelf) (call : SaveCall) : Shelf :=
  let (store, answer) := saveArtifactBytes c shelf.store call.req call.io call.now
  match answer with
  | .ok _ =>
      ⟨store, fun a n => if a = call.req.attemptId ∧ n = call.req.name then
        some call.req.bytes else shelf.saved a n⟩
  | .error _ => ⟨store, shelf.saved⟩

def ShelfStep (c : Codec) (shelf : Shelf) (call : SaveCall) (shelf' : Shelf) : Prop :=
  shelf' = shelfStep c shelf call

namespace SaveCall

/-- The save puts a file into place. -/
def publishes (call : SaveCall) (c : Codec) : Bool :=
  (call.req.check c).isOk && call.io.written && call.io.renamed

/-- A save that puts a file into place also commits its row, no compressed
artifact lives under its name less `.zst`, and when it compresses no plain
artifact lives under its name with `.zst`. -/
structure Clear (c : Codec) (s : ArtifactStore) (call : SaveCall) : Prop where
  committed : call.publishes c = true → call.io.committed = true
  base : call.publishes c = true → ∀ base row, call.req.name = zst base →
    s.rows call.req.attemptId base = some row → row.storedCompressed = false
  twin : call.publishes c = true → call.req.storedCompressed c = true →
    ∀ row, s.rows call.req.attemptId (zst call.req.name) = some row →
      row.storedCompressed = true

/-- When the save compresses, its name with `.zst` is no name a reader may ask
for, or the name of another compressed artifact. -/
def Alone (c : Codec) (s : ArtifactStore) (call : SaveCall) : Prop :=
  call.publishes c = true → call.req.storedCompressed c = true →
    isSafeArtifactName (zst call.req.name) = true →
      ∃ row, s.rows call.req.attemptId (zst call.req.name) = some row ∧
        row.storedCompressed = true

/-- The files once the save has put its own into place. -/
def publish (call : SaveCall) (c : Codec) (s : ArtifactStore) : ArtifactStore :=
  let s := s.put call.req.attemptId (call.req.onDiskName c) (some (call.req.writeBytes c))
  if call.req.onDiskName c ≠ call.req.name ∧ call.io.unlinked then
    s.put call.req.attemptId call.req.name none
  else s

end SaveCall

section Names

theorem zst_injective {name name' : String} (h : zst name = zst name') : name = name' := by
  have hlist := congrArg String.toList h
  simp only [zst, String.toList_append] at hlist
  exact String.toList_inj.mp (List.append_cancel_right hlist)

theorem zst_ne (name : String) : zst name ≠ name := by
  intro h
  have hlength := congrArg (fun text : String => text.toList.length) h
  simp [zst] at hlength

end Names

section Saves

variable {c : Codec} {s : ArtifactStore} {call : SaveCall}

theorem save_idle (h : call.publishes c = false) :
    ∃ cause, saveArtifactBytes c s call.req call.io call.now = (s, .error cause) := by
  unfold saveArtifactBytes
  cases hcheck : call.req.check c with
  | error cause => exact ⟨cause, rfl⟩
  | ok _ =>
      have hio : call.io.written = false ∨ call.io.renamed = false := by
        cases hwritten : call.io.written with
        | false => exact .inl rfl
        | true =>
            exact .inr (by simpa [SaveCall.publishes, hcheck, Except.isOk, Except.toBool,
              hwritten] using h)
      exact ⟨.storage, by simp only [if_pos hio]⟩

theorem save_published (h : call.publishes c = true) :
    saveArtifactBytes c s call.req call.io call.now =
      if call.io.committed = false then (call.publish c s, .error .storage)
      else ((call.publish c s).record call.req.attemptId call.req.name
          (some (call.req.row c call.now)),
        .ok ⟨call.req.name, call.req.bytes.length, call.req.mediaType,
          c.sha256Hex call.req.bytes⟩) := by
  unfold saveArtifactBytes
  cases hcheck : call.req.check c with
  | error cause => simp [SaveCall.publishes, hcheck, Except.isOk, Except.toBool] at h
  | ok _ =>
      have hio : ¬ (call.io.written = false ∨ call.io.renamed = false) := by
        simpa [SaveCall.publishes, hcheck, Except.isOk, Except.toBool] using h
      simp only [if_neg hio]
      rfl

theorem publishes_safe (h : call.publishes c = true) :
    isSafeOpaqueId call.req.attemptId = true ∧ isSafeArtifactName call.req.name = true := by
  have hcheck : (call.req.check c).isOk = true := by
    simp only [SaveCall.publishes, Bool.and_eq_true] at h
    exact h.1.1
  unfold SaveRequest.check at hcheck
  dsimp only at hcheck
  split at hcheck
  · cases hcheck
  · rename_i hid
    split at hcheck
    · cases hcheck
    · split at hcheck
      · cases hcheck
      · rename_i hname
        exact ⟨by simpa using hid, by simpa using hname⟩

theorem publish_rows (call : SaveCall) (c : Codec) (s : ArtifactStore) :
    (call.publish c s).rows = s.rows := by
  unfold SaveCall.publish
  dsimp only
  split <;> rfl

/-- A save touches the file it writes and the plain file of its name. -/
theorem publish_other {a file : String}
    (h : a = call.req.attemptId → file ≠ call.req.onDiskName c ∧ file ≠ call.req.name) :
    (call.publish c s).files a file = s.files a file := by
  have hdisk : ¬ (a = call.req.attemptId ∧ file = call.req.onDiskName c) :=
    fun hsame => (h hsame.1).1 hsame.2
  have hname : ¬ (a = call.req.attemptId ∧ file = call.req.name) :=
    fun hsame => (h hsame.1).2 hsame.2
  unfold SaveCall.publish
  dsimp only
  split <;> simp [ArtifactStore.put, hdisk, hname]

theorem publish_own :
    (call.publish c s).files call.req.attemptId (call.req.onDiskName c) =
      some (call.req.writeBytes c) := by
  unfold SaveCall.publish
  dsimp only
  split
  · rename_i hshape
    simp [ArtifactStore.put, hshape.1]
  · simp [ArtifactStore.put]

end Saves

/-- The row is backed by a file of its shape. -/
def ArtifactStore.Backs (s : ArtifactStore) (c : Codec) (attemptId name : String)
    (row : ArtifactRow) (bytes : List UInt8) : Prop :=
  if row.storedCompressed then
    ∃ frame, s.files attemptId (zst name) = some frame ∧ c.decodeAll frame = some bytes
  else s.files attemptId name = some bytes

/-- The row does not matter to the files. -/
theorem ArtifactStore.Backs.record {s : ArtifactStore} {c : Codec} {a n : String}
    {row : ArtifactRow} {bytes : List UInt8} (h : s.Backs c a n row bytes)
    (attemptId name : String) (row' : Option ArtifactRow) :
    (s.record attemptId name row').Backs c a n row bytes := h

/-- Every row is that of the last save under its name and is backed by its
bytes. -/
structure Shelf.Kept (c : Codec) (shelf : Shelf) : Prop where
  backed : ∀ a n row, shelf.store.rows a n = some row →
    isSafeOpaqueId a = true ∧ isSafeArtifactName n = true ∧
      ∃ bytes, shelf.saved a n = some bytes ∧ row.sizeBytes = bytes.length ∧
        shelf.store.Backs c a n row bytes
  unsaved : ∀ a n, shelf.store.rows a n = none → shelf.saved a n = none

/-- No file answers for a name that has no row. -/
def Shelf.Tidy (shelf : Shelf) : Prop :=
  ∀ a n, isSafeArtifactName n = true → shelf.store.rows a n = none →
    shelf.store.files a n = none

section Shelf

variable {c : Codec} {shelf : Shelf} {call : SaveCall}

theorem shelfStep_idle (h : call.publishes c = false) : shelfStep c shelf call = shelf := by
  obtain ⟨cause, hsave⟩ := @save_idle c shelf.store call h
  rw [shelfStep, hsave]

theorem shelfStep_committed (h : call.publishes c = true) (hio : call.io.committed = true) :
    shelfStep c shelf call =
      ⟨(call.publish c shelf.store).record call.req.attemptId call.req.name
          (some (call.req.row c call.now)),
        fun a n => if a = call.req.attemptId ∧ n = call.req.name then some call.req.bytes
          else shelf.saved a n⟩ := by
  have hcommitted : ¬ call.io.committed = false := by simp [hio]
  rw [shelfStep, save_published h, if_neg hcommitted]

theorem shelfStep_own (h : call.publishes c = true) (hio : call.io.committed = true) :
    (shelfStep c shelf call).store.rows call.req.attemptId call.req.name =
        some (call.req.row c call.now) ∧
      (shelfStep c shelf call).saved call.req.attemptId call.req.name =
        some call.req.bytes := by
  rw [shelfStep_committed h hio]
  simp [ArtifactStore.record]

/-- The save's own artifact. -/
theorem publish_backs (hc : c.Inverts) :
    (call.publish c shelf.store).Backs c call.req.attemptId call.req.name
      (call.req.row c call.now) call.req.bytes := by
  have hown := @publish_own c shelf.store call
  unfold ArtifactStore.Backs
  cases hframe : call.req.frame c with
  | none =>
      have hplain : (call.req.row c call.now).storedCompressed = false := by
        simp [SaveRequest.row, SaveRequest.storedCompressed, hframe]
      rw [hplain]
      simpa [SaveRequest.onDiskName, SaveRequest.storedCompressed, SaveRequest.writeBytes,
        hframe] using hown
  | some frame =>
      have hshape : (call.req.row c call.now).storedCompressed = true := by
        simp [SaveRequest.row, SaveRequest.storedCompressed, hframe]
      have hencode : c.encode call.req.bytes = some frame := by
        unfold SaveRequest.frame compressIfWorthwhile at hframe
        split at hframe
        · split at hframe
          · split at hframe
            · rename_i hsome _
              rw [hsome, ← hframe]
            · cases hframe
          · cases hframe
        · cases hframe
      rw [hshape]
      refine ⟨frame, ?_, hc _ _ hencode⟩
      simpa [SaveRequest.onDiskName, SaveRequest.storedCompressed, SaveRequest.writeBytes,
        hframe] using hown

/-- Another artifact keeps its file. -/
theorem publish_backs_other (hclear : call.Clear c shelf.store)
    (hpublishes : call.publishes c = true) {a n : String} {row : ArtifactRow}
    {bytes : List UInt8} (hrow : shelf.store.rows a n = some row)
    (hother : ¬ (a = call.req.attemptId ∧ n = call.req.name))
    (h : shelf.store.Backs c a n row bytes) :
    (call.publish c shelf.store).Backs c a n row bytes := by
  unfold ArtifactStore.Backs at h ⊢
  cases hshape : row.storedCompressed with
  | true =>
      rw [hshape] at h
      obtain ⟨frame, hfile, hdecode⟩ := h
      refine ⟨frame, ?_, hdecode⟩
      rw [publish_other, hfile]
      rintro rfl
      have hbase : zst n ≠ call.req.name := by
        intro hname
        have := hclear.base hpublishes n row hname.symm hrow
        rw [hshape] at this
        cases this
      refine ⟨?_, hbase⟩
      unfold SaveRequest.onDiskName
      split
      · exact fun hname => hother ⟨rfl, zst_injective hname⟩
      · exact hbase
  | false =>
      rw [hshape] at h
      simp only [Bool.false_eq_true, if_false] at h ⊢
      rw [publish_other, h]
      rintro rfl
      have hname : n ≠ call.req.name := fun hname => hother ⟨rfl, hname⟩
      refine ⟨?_, hname⟩
      unfold SaveRequest.onDiskName
      split
      · rename_i hcompressed
        rintro rfl
        have := hclear.twin hpublishes hcompressed row hrow
        rw [hshape] at this
        cases this
      · exact hname

theorem Shelf.Kept.step (hc : c.Inverts) (h : shelf.Kept c)
    (hclear : call.Clear c shelf.store) : (shelfStep c shelf call).Kept c := by
  cases hpublishes : call.publishes c with
  | false =>
      rw [shelfStep_idle hpublishes]
      exact h
  | true =>
      obtain ⟨hid, hname⟩ := publishes_safe hpublishes
      rw [shelfStep_committed hpublishes (hclear.committed hpublishes)]
      constructor
      · intro a n row hrow
        simp only [ArtifactStore.record] at hrow
        split at hrow
        · rename_i hsame
          obtain ⟨rfl, rfl⟩ := hsame
          obtain rfl := Option.some.inj hrow
          refine ⟨hid, hname, call.req.bytes, by simp, rfl, ?_⟩
          exact (publish_backs hc).record _ _ _
        · rename_i hother
          rw [publish_rows] at hrow
          obtain ⟨hid', hname', bytes, hsaved, hsize, hbacks⟩ := h.backed a n row hrow
          refine ⟨hid', hname', bytes, by simpa [hother] using hsaved, hsize, ?_⟩
          exact (publish_backs_other hclear hpublishes hrow hother hbacks).record _ _ _
      · intro a n hrow
        simp only [ArtifactStore.record] at hrow
        split at hrow
        · cases hrow
        · rename_i hother
          rw [publish_rows] at hrow
          simpa [hother] using h.unsaved a n hrow

theorem Shelf.Tidy.step (h : shelf.Tidy) (hclear : call.Clear c shelf.store)
    (halone : call.Alone c shelf.store) : (shelfStep c shelf call).Tidy := by
  cases hpublishes : call.publishes c with
  | false =>
      rw [shelfStep_idle hpublishes]
      exact h
  | true =>
      rw [shelfStep_committed hpublishes (hclear.committed hpublishes)]
      intro a n hsafe hrow
      simp only [ArtifactStore.record] at hrow ⊢
      split at hrow
      · cases hrow
      · rename_i hother
        rw [publish_rows] at hrow
        rw [publish_other]
        · exact h a n hsafe hrow
        · rintro rfl
          have hname : n ≠ call.req.name := fun hname => hother ⟨rfl, hname⟩
          refine ⟨?_, hname⟩
          unfold SaveRequest.onDiskName
          split
          · rename_i hcompressed
            rintro rfl
            obtain ⟨row, htwin, _⟩ := halone hpublishes hcompressed hsafe
            rw [hrow] at htwin
            cases htwin
          · exact hname

theorem Shelf.Kept.row (h : shelf.Kept c) {a n : String} {bytes : List UInt8}
    (hsaved : shelf.saved a n = some bytes) :
    ∃ row, shelf.store.rows a n = some row ∧ isSafeOpaqueId a = true ∧
      isSafeArtifactName n = true ∧ row.sizeBytes = bytes.length ∧
      shelf.store.Backs c a n row bytes := by
  cases hrow : shelf.store.rows a n with
  | none =>
      rw [h.unsaved a n hrow] at hsaved
      cases hsaved
  | some row =>
      obtain ⟨hid, hname, bytes', hsaved', hsize, hbacks⟩ := h.backed a n row hrow
      obtain rfl := Option.some.inj (hsaved.symm.trans hsaved')
      exact ⟨row, rfl, hid, hname, hsize, hbacks⟩

/-- The file a reader is sent to, and what it holds. -/
theorem resolveOnDisk_backs {s : ArtifactStore} {a n : String} {row : ArtifactRow}
    {bytes : List UInt8} (hrow : s.rows a n = some row) (h : s.Backs c a n row bytes) :
    ∃ content, s.files a (resolveOnDisk s a n).1 = some content ∧
      (if (resolveOnDisk s a n).2 then decompressBlocking c content else content) = bytes := by
  unfold ArtifactStore.Backs at h
  unfold resolveOnDisk
  cases hshape : row.storedCompressed with
  | true =>
      rw [hshape] at h
      obtain ⟨frame, hfile, hdecode⟩ := h
      refine ⟨frame, ?_, ?_⟩
      · simp [hrow, hshape, hfile]
      · simp [hrow, hshape, hfile, decompressBlocking, hdecode]
  | false =>
      rw [hshape] at h
      refine ⟨bytes, ?_, ?_⟩
      · simpa [hrow, hshape] using h
      · simp [hrow, hshape]

theorem Shelf.Kept.reads (h : shelf.Kept c) {attempts : List Attempt} {taskId a n : String}
    (hlatest : latestAttemptId attempts taskId = some a) {bytes : List UInt8}
    (hsaved : shelf.saved a n = some bytes) :
    readArtifactBytes c attempts shelf.store taskId n = some bytes ∧
      (openArtifact attempts shelf.store taskId n).map (fun o => (o.decoded c, o.len)) =
        some (bytes, bytes.length) := by
  obtain ⟨row, hrow, hid, hname, hsize, hbacks⟩ := h.row hsaved
  obtain ⟨content, hfile, hcontent⟩ := resolveOnDisk_backs hrow hbacks
  constructor
  · simp [readArtifactBytes, hlatest, hid, hname, hfile, hcontent]
  · simp [openArtifact, OpenArtifact.decoded, hlatest, hid, hname, hfile, hcontent, hrow,
      hsize]

theorem Shelf.Tidy.reads (h : shelf.Tidy) (hkept : shelf.Kept c) {attempts : List Attempt}
    {taskId a n : String} (hlatest : latestAttemptId attempts taskId = some a)
    (hsaved : shelf.saved a n = none) :
    readArtifactBytes c attempts shelf.store taskId n = none ∧
      openArtifact attempts shelf.store taskId n = none := by
  have hrow : shelf.store.rows a n = none := by
    cases hrow : shelf.store.rows a n with
    | none => rfl
    | some row =>
        obtain ⟨_, _, bytes, hsome, _⟩ := hkept.backed a n row hrow
        rw [hsaved] at hsome
        cases hsome
  have hfile : isSafeArtifactName n = true → shelf.store.files a n = none :=
    fun hsafe => h a n hsafe hrow
  cases hsafe : isSafeArtifactName n with
  | false => simp [readArtifactBytes, openArtifact, hlatest, hsafe]
  | true =>
      simp [readArtifactBytes, openArtifact, hlatest, resolveOnDisk, hrow, hfile hsafe]

/-- A plain save under `n.zst` over a compressed artifact `n`: its bytes are
decoded in place of the frame. -/
theorem save_over_frame (call : SaveCall) {attempts : List Attempt} {taskId a n : String}
    {row : ArtifactRow} (hpublishes : call.publishes c = true)
    (hcommitted : call.io.committed = true) (hattempt : call.req.attemptId = a)
    (hname : call.req.name = zst n) (hplain : call.req.frame c = none)
    (hrow : shelf.store.rows a n = some row) (hshape : row.storedCompressed = true)
    (hlatest : latestAttemptId attempts taskId = some a)
    (hsafe : (isSafeOpaqueId a && isSafeArtifactName n) = true) :
    readArtifactBytes c attempts (shelfStep c shelf call).store taskId n =
      some (decompressBlocking c call.req.bytes) := by
  have hdisk : call.req.onDiskName c = zst n := by
    simp [SaveRequest.onDiskName, SaveRequest.storedCompressed, hplain, hname]
  have hfile : (shelfStep c shelf call).store.files a (zst n) = some call.req.bytes := by
    have hown := @publish_own c shelf.store call
    rw [hdisk, hattempt, SaveRequest.writeBytes, hplain, Option.getD_none] at hown
    rw [shelfStep_committed hpublishes hcommitted]
    exact hown
  have hkept : (shelfStep c shelf call).store.rows a n = some row := by
    rw [shelfStep_committed hpublishes hcommitted]
    simp only [ArtifactStore.record, hname, publish_rows]
    rw [if_neg (fun hsame => zst_ne n hsame.2.symm), hrow]
  have hresolve : resolveOnDisk (shelfStep c shelf call).store a n = (zst n, true) := by
    simp [resolveOnDisk, hkept, hshape, hfile]
  simp [readArtifactBytes, hlatest, hsafe, hresolve, hfile]

theorem kept_run (hc : c.Inverts) {calls : List SaveCall}
    (h : Runs (During (ShelfStep c) fun shelf call => call.Clear c shelf.store) {} calls
      shelf) : shelf.Kept c := by
  refine Runs.invariant (fun shelf => shelf.Kept c) ?_ h ⟨by simp, by simp⟩
  rintro shelf call _ hkept ⟨rfl, hclear⟩
  exact hkept.step hc hclear

/-- Reads give back the last save under the name, and nothing where there is
none. -/
theorem artifact_store_map (hc : c.Inverts) {calls : List SaveCall} :
    (Runs (During (ShelfStep c) fun shelf call => call.Clear c shelf.store) {} calls shelf →
      ∀ attempts taskId a, latestAttemptId attempts taskId = some a →
        ∀ n bytes, shelf.saved a n = some bytes →
          readArtifactBytes c attempts shelf.store taskId n = some bytes ∧
            (openArtifact attempts shelf.store taskId n).map
              (fun o => (o.decoded c, o.len)) = some (bytes, bytes.length)) ∧
    (Runs (During (ShelfStep c) fun shelf call =>
        call.Clear c shelf.store ∧ call.Alone c shelf.store) {} calls shelf →
      ∀ attempts taskId a, latestAttemptId attempts taskId = some a →
        ∀ n, shelf.saved a n = none →
          readArtifactBytes c attempts shelf.store taskId n = none ∧
            openArtifact attempts shelf.store taskId n = none) := by
  constructor
  · intro h attempts taskId a hlatest n bytes hsaved
    exact (kept_run hc h).reads hlatest hsaved
  · intro h attempts taskId a hlatest n hsaved
    have hkept : shelf.Kept c := by
      refine kept_run hc (h.mono ?_)
      rintro s call s' ⟨hstep, hclear, _⟩
      exact ⟨hstep, hclear⟩
    have htidy : shelf.Tidy := by
      refine Runs.invariant Shelf.Tidy ?_ h (fun _ _ _ _ => rfl)
      rintro s call _ hs ⟨rfl, hclear, halone⟩
      exact hs.step hclear halone
    exact htidy.reads hkept hlatest hsaved

end Shelf

section Lines

@[irreducible] def lines : List UInt8 := List.replicate 4096 97

def linesFrame : List UInt8 :=
  [40, 181, 47, 253, 0, 88, 77, 0, 0, 16, 97, 97, 1, 0, 251, 247, 1, 22]

/-- Zstandard on one text. -/
def linesCodec : Codec where
  encode bytes := if bytes = lines then some linesFrame else none
  decodeAll frame := if frame = linesFrame then some lines else none
  sha256Hex _ := ""

theorem linesCodec_inverts : linesCodec.Inverts := by
  intro bytes frame h
  simp only [linesCodec] at h ⊢
  split at h
  · rename_i hbytes
    rw [if_pos (Option.some.inj h).symm, hbytes]
  · cases h

def logSave : SaveCall where
  req := { attemptId := "a1", name := "x.log", bytes := lines }

def shortSave (name : String) : SaveCall where
  req := { attemptId := "a1", name := name, bytes := [104, 105] }

def lineAttempts : List Attempt :=
  [{ id := "a1", taskId := "t1", number := 1, nodeId := "n1", status := .running,
     startedAt := "" }]

theorem lines_length : lines.length = 4096 := by
  rw [lines, List.length_replicate]

theorem logSave_frame : logSave.req.frame linesCodec = some linesFrame := by
  have hlog : logSave.req.logClass = true := by decide
  have hencode : linesCodec.encode lines = some linesFrame := by
    simp [linesCodec]
  have hbytes : logSave.req.bytes = lines := rfl
  rw [SaveRequest.frame, hbytes, lines_length, compressIfWorthwhile, hencode]
  simp [hlog, lines_length, linesFrame]

theorem not_zst {name : String} (h : endsWith name ".zst" = false) (base : String) :
    name ≠ zst base := by
  rintro rfl
  have hends : endsWith (zst base) ".zst" = true := by
    simp [endsWith, zst, List.isSuffixOf_iff_suffix]
  rw [hends] at h
  cases h

/-- A compressed log, then a short text under the same name. -/
theorem artifact_store_map_reshaped :
    readArtifactBytes linesCodec lineAttempts
      (shelfStep linesCodec (shelfStep linesCodec {} logSave) (shortSave "x.log")).store
        "t1" "x.log" = some [104, 105] := by
  have hlog : logSave.Clear linesCodec ({} : Shelf).store := by
    refine ⟨fun _ => rfl, fun _ base _ hname => ?_, fun _ _ _ hrow => by cases hrow⟩
    exact absurd hname (not_zst (by decide) base)
  have hplain : (shortSave "x.log").req.storedCompressed linesCodec = false := by decide
  have hshort : ∀ s, (shortSave "x.log").Clear linesCodec s := by
    intro s
    refine ⟨fun _ => rfl, fun _ base _ hname => ?_, fun _ hcompressed => ?_⟩
    · exact absurd hname (not_zst (by decide) base)
    · rw [hplain] at hcompressed
      cases hcompressed
  have hsaved : ∀ shelf, (shelfStep linesCodec shelf (shortSave "x.log")).saved "a1" "x.log" =
      some [104, 105] := by
    intro shelf
    rw [shelfStep_committed (by decide) rfl]
    rfl
  exact ((artifact_store_map linesCodec_inverts).1
    (.next ⟨rfl, hlog⟩ (.next ⟨rfl, hshort _⟩ (.refl _))) lineAttempts "t1" "a1" (by decide)
      "x.log" [104, 105] (hsaved _)).1

theorem saved_twin (shelf : Shelf) :
    (shelfStep linesCodec shelf (shortSave "x.log.zst")).saved logSave.req.attemptId
        logSave.req.name = shelf.saved logSave.req.attemptId logSave.req.name := by
  have hpublishes : (shortSave "x.log.zst").publishes linesCodec = true := by decide
  rw [shelfStep_committed hpublishes rfl]
  simp [shortSave, logSave]

/-- A short text saved as `x.log.zst` takes the place of the frame of `x.log`,
which then reads as empty. -/
theorem artifact_store_collides :
    ¬ ∀ (c : Codec) (shelf : Shelf) (calls : List SaveCall), c.Inverts →
      Runs (ShelfStep c) {} calls shelf →
        ∀ attempts taskId a, latestAttemptId attempts taskId = some a →
          ∀ n bytes, shelf.saved a n = some bytes →
            readArtifactBytes c attempts shelf.store taskId n = some bytes := by
  intro h
  have hlog : logSave.publishes linesCodec = true := by decide
  have htwin : (shortSave "x.log.zst").publishes linesCodec = true := by decide
  have hlatest : latestAttemptId lineAttempts "t1" = some logSave.req.attemptId := by decide
  obtain ⟨hrow, hsaved⟩ := @shelfStep_own linesCodec {} logSave hlog rfl
  have hshape : (logSave.req.row linesCodec logSave.now).storedCompressed = true := by
    simp [SaveRequest.row, SaveRequest.storedCompressed, logSave_frame]
  have hsame : (shortSave "x.log.zst").req.attemptId = logSave.req.attemptId := rfl
  have hname : (shortSave "x.log.zst").req.name = zst logSave.req.name := by decide
  have hread := save_over_frame (shortSave "x.log.zst") htwin rfl hsame hname (by decide)
    hrow hshape hlatest (by decide)
  have hlines := h linesCodec _ [logSave, shortSave "x.log.zst"] linesCodec_inverts
    (.next rfl (.next rfl (.refl _))) lineAttempts "t1" _ hlatest _ _
      ((saved_twin _).trans hsaved)
  have hempty : decompressBlocking linesCodec (shortSave "x.log.zst").req.bytes = [] := by
    decide
  have hbytes : logSave.req.bytes = lines := rfl
  rw [hread, hempty, hbytes] at hlines
  have hlength := lines_length
  rw [← Option.some.inj hlines, List.length_nil] at hlength
  omega

end Lines

end AgentGrid.Store
