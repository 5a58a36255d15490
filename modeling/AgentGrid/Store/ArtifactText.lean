import AgentGrid.Store.Artifacts

/-!
# Artifacts as text

The text reader opens the same file as the byte reader but reads it as UTF-8
before it looks at the shape, and no Zstandard frame is UTF-8.
-/

namespace AgentGrid.Store

/-! ## UTF-8 -/

def utf8 (text : String) : List UInt8 := text.toByteArray.data.toList

/-- `str::from_utf8`. -/
def fromUtf8 (bytes : List UInt8) : Option String := String.fromUTF8? bytes.toByteArray

/-- How many bytes follow the first byte of a character, and the range of the
second byte. -/
def followers (first : UInt8) : Option (Nat × Nat × Nat) :=
  let n := first.toNat
  if 0xC2 ≤ n ∧ n ≤ 0xDF then some (1, 0x80, 0xBF)
  else if n = 0xE0 then some (2, 0xA0, 0xBF)
  else if n = 0xED then some (2, 0x80, 0x9F)
  else if 0xE1 ≤ n ∧ n ≤ 0xEF then some (2, 0x80, 0xBF)
  else if n = 0xF0 then some (3, 0x90, 0xBF)
  else if 0xF1 ≤ n ∧ n ≤ 0xF3 then some (3, 0x80, 0xBF)
  else if n = 0xF4 then some (3, 0x80, 0x8F)
  else none

def isContinuation (b : UInt8) : Bool := 0x80 ≤ b.toNat && b.toNat ≤ 0xBF

/-- The length of the broken start of a character. -/
def brokenLength : List UInt8 → Nat
  | first :: second :: rest =>
      match followers first with
      | some (count, low, high) =>
          if low ≤ second.toNat ∧ second.toNat ≤ high then
            2 + ((rest.take (count - 1)).takeWhile isContinuation).length
          else 1
      | none => 1
  | _ => 1

/-- The loop of `String::from_utf8_lossy`: one replacement character for each
broken start. -/
def lossyFrom : Nat → List UInt8 → List Char
  | 0, _ => []
  | _ + 1, [] => []
  | fuel + 1, bytes =>
      match bytes.toByteArray.utf8DecodeChar? 0 with
      | some c => c :: lossyFrom fuel (bytes.drop c.utf8Size)
      | none => '\uFFFD' :: lossyFrom fuel (bytes.drop (brokenLength bytes))

def fromUtf8Lossy (bytes : List UInt8) : String :=
  String.ofList (lossyFrom bytes.length bytes)

theorem fromUtf8_utf8 (text : String) : fromUtf8 (utf8 text) = some text := by
  have hbytes : (utf8 text).toByteArray = text.toByteArray := by
    apply ByteArray.ext
    rw [utf8, List.data_toByteArray, Array.toArray_toList]
  rw [fromUtf8, hbytes, String.fromUTF8?, dif_pos text.isValidUTF8]
  rfl

/-- The first bytes of every frame. -/
def frameMagic : List UInt8 := [0x28, 0xB5, 0x2F, 0xFD]

/-- Zstandard frames begin with their magic number. -/
def Codec.Framed (c : Codec) : Prop :=
  ∀ bytes frame, c.encode bytes = some frame → frameMagic <+: frame

/-- The second byte of a frame begins no character. -/
theorem fromUtf8_frame {frame : List UInt8} (h : frameMagic <+: frame) :
    fromUtf8 frame = none := by
  obtain ⟨rest, rfl⟩ := h
  rw [fromUtf8, String.fromUTF8?, dif_neg]
  intro hvalid
  have hsplit : (frameMagic ++ rest).toByteArray =
      ['('].utf8Encode ++ (0xB5 :: 0x2F :: 0xFD :: rest).toByteArray := by
    rw [List.utf8Encode_singleton, ← List.toByteArray_append]
    rfl
  rw [hsplit, ByteArray.isValidUTF8_utf8Encode_singleton_append_iff] at hvalid
  have hfirst := hvalid.isUTF8FirstByte_getElem_zero (by simp)
  have hlong : 0 < (0xB5 :: 0x2F :: 0xFD :: rest).toByteArray.size := by simp
  have hbyte : (0xB5 :: 0x2F :: 0xFD :: rest).toByteArray[0] = (0xB5 : UInt8) := by simp
  rw [hbyte] at hfirst
  revert hfirst
  decide

/-! ## The readers -/

inductive ReadError
  | invalidUtf8
deriving DecidableEq

def readArtifactForAttempt (c : Codec) (s : ArtifactStore) (attemptId name : String) :
    Except ReadError (Option String) :=
  if isSafeOpaqueId attemptId && isSafeArtifactName name then
    let (file, compressed) := resolveOnDisk s attemptId name
    match s.files attemptId file with
    | none => .ok none
    | some bytes =>
        match fromUtf8 bytes with
        | none => .error .invalidUtf8
        | some text =>
            .ok (some (if compressed then fromUtf8Lossy (decompressBlocking c bytes) else text))
  else .ok none

def readArtifact (c : Codec) (attempts : List Attempt) (s : ArtifactStore)
    (taskId name : String) : Except ReadError (Option String) :=
  match latestAttemptId attempts taskId with
  | none => .ok none
  | some attemptId => readArtifactForAttempt c s attemptId name

theorem readArtifactForAttempt_invalid {c : Codec} {s : ArtifactStore}
    {attemptId name file : String} {compressed : Bool} {bytes : List UInt8}
    (hsafe : (isSafeOpaqueId attemptId && isSafeArtifactName name) = true)
    (hresolve : resolveOnDisk s attemptId name = (file, compressed))
    (hfile : s.files attemptId file = some bytes) (hinvalid : fromUtf8 bytes = none) :
    readArtifactForAttempt c s attemptId name = .error .invalidUtf8 := by
  simp only [readArtifactForAttempt, hsafe, if_true, hresolve, hfile, hinvalid]

/-- The row and the files of the artifact are the same in both stores. -/
def SameArtifact (s t : ArtifactStore) (attemptId name : String) : Prop :=
  t.rows attemptId name = s.rows attemptId name ∧
    t.files attemptId name = s.files attemptId name ∧
    t.files attemptId (zst name) = s.files attemptId (zst name)

section Readers

variable {c : Codec} {s t : ArtifactStore} {call : SaveCall}

theorem save_ok {answer : ArtifactUploadResponse}
    (h : (saveArtifactBytes c s call.req call.io call.now).2 = .ok answer) :
    call.publishes c = true ∧ (saveArtifactBytes c s call.req call.io call.now).1 =
      (call.publish c s).record call.req.attemptId call.req.name
        (some (call.req.row c call.now)) := by
  cases hpublishes : call.publishes c with
  | false =>
      obtain ⟨cause, hidle⟩ := save_idle (s := s) hpublishes
      rw [hidle] at h
      cases h
  | true =>
      rw [save_published hpublishes] at h ⊢
      split at h
      · cases h
      · rename_i hcommitted
        rw [if_neg hcommitted]
        exact ⟨rfl, rfl⟩

/-- The file that readers of a saved artifact open. -/
theorem SameArtifact.resolve {answer : ArtifactUploadResponse}
    (hsaved : (saveArtifactBytes c s call.req call.io call.now).2 = .ok answer)
    (hsame : SameArtifact (saveArtifactBytes c s call.req call.io call.now).1 t
      call.req.attemptId call.req.name) :
    resolveOnDisk t call.req.attemptId call.req.name =
        (call.req.onDiskName c, call.req.storedCompressed c) ∧
      t.files call.req.attemptId (call.req.onDiskName c) = some (call.req.writeBytes c) := by
  obtain ⟨hpublishes, hstore⟩ := save_ok hsaved
  rw [hstore] at hsame
  obtain ⟨hrow, hplain, hframe⟩ := hsame
  have hown : ((call.publish c s).record call.req.attemptId call.req.name
      (some (call.req.row c call.now))).files call.req.attemptId (call.req.onDiskName c) =
      some (call.req.writeBytes c) := publish_own
  have htrow : t.rows call.req.attemptId call.req.name = some (call.req.row c call.now) := by
    rw [hrow]
    simp [ArtifactStore.record]
  cases hshape : call.req.storedCompressed c with
  | true =>
      have hdisk : call.req.onDiskName c = zst call.req.name := by
        simp [SaveRequest.onDiskName, hshape]
      rw [hdisk] at hown ⊢
      have hfile := hframe.trans hown
      refine ⟨?_, hfile⟩
      simp [resolveOnDisk, htrow, SaveRequest.row, hshape, hfile]
  | false =>
      have hdisk : call.req.onDiskName c = call.req.name := by
        simp [SaveRequest.onDiskName, hshape]
      rw [hdisk] at hown ⊢
      refine ⟨?_, hplain.trans hown⟩
      simp [resolveOnDisk, htrow, SaveRequest.row, hshape]

theorem frame_encoded {frame : List UInt8} (h : call.req.frame c = some frame) :
    c.encode call.req.bytes = some frame := by
  unfold SaveRequest.frame compressIfWorthwhile at h
  split at h
  · split at h
    · rename_i z hz
      split at h
      · rw [hz, ← Option.some.inj h]
      · cases h
    · cases h
  · cases h

end Readers

/-- Where an artifact is still as its last save left it, the byte reader gives
its text back, and the text reader does so exactly when no frame was stored. -/
theorem text_reader_agrees {c : Codec} (hinverts : c.Inverts) (hframed : c.Framed)
    {s t : ArtifactStore} {call : SaveCall} {answer : ArtifactUploadResponse} {text : String}
    (hsaved : (saveArtifactBytes c s call.req call.io call.now).2 = .ok answer)
    (hsame : SameArtifact (saveArtifactBytes c s call.req call.io call.now).1 t
      call.req.attemptId call.req.name)
    (htext : call.req.bytes = utf8 text) {attempts : List Attempt} {taskId : String}
    (hlatest : latestAttemptId attempts taskId = some call.req.attemptId) :
    readArtifactBytes c attempts t taskId call.req.name = some (utf8 text) ∧
      ((readArtifact c attempts t taskId call.req.name = .ok (some text) ∧
        readArtifactForAttempt c t call.req.attemptId call.req.name = .ok (some text)) ↔
        call.req.storedCompressed c = false) := by
  obtain ⟨hresolve, hfile⟩ := hsame.resolve hsaved
  have hsafe : (isSafeOpaqueId call.req.attemptId && isSafeArtifactName call.req.name) =
      true := by
    rw [Bool.and_eq_true]
    exact publishes_safe (save_ok hsaved).1
  have hread : readArtifact c attempts t taskId call.req.name =
      readArtifactForAttempt c t call.req.attemptId call.req.name := by
    rw [readArtifact, hlatest]
  rw [hread, and_self]
  cases hframe : call.req.frame c with
  | none =>
      have hbytes : call.req.writeBytes c = utf8 text := by
        rw [SaveRequest.writeBytes, hframe, Option.getD_none, htext]
      have hshape : call.req.storedCompressed c = false := by
        rw [SaveRequest.storedCompressed, hframe]
        rfl
      rw [hbytes] at hfile
      rw [hshape] at hresolve ⊢
      constructor
      · simp [readArtifactBytes, hlatest, hsafe, hresolve, hfile]
      · refine iff_of_true ?_ rfl
        simp [readArtifactForAttempt, hsafe, hresolve, hfile, fromUtf8_utf8]
  | some frame =>
      have hencoded := frame_encoded hframe
      have hbytes : call.req.writeBytes c = frame := by
        rw [SaveRequest.writeBytes, hframe, Option.getD_some]
      have hshape : call.req.storedCompressed c = true := by
        rw [SaveRequest.storedCompressed, hframe]
        rfl
      have hdecoded : decompressBlocking c frame = utf8 text := by
        rw [decompressBlocking, hinverts _ _ hencoded, Option.getD_some, htext]
      have hbinary := fromUtf8_frame (hframed _ _ hencoded)
      rw [hbytes] at hfile
      rw [hshape] at hresolve ⊢
      constructor
      · simp [readArtifactBytes, hlatest, hsafe, hresolve, hfile, hdecoded]
      · refine iff_of_false ?_ (by simp)
        simp [readArtifactForAttempt_invalid hsafe hresolve hfile hbinary]

theorem linesCodec_framed : linesCodec.Framed := by
  intro bytes frame h
  simp only [linesCodec] at h
  split at h
  · rw [← Option.some.inj h]
    exact ⟨linesFrame.drop 4, rfl⟩
  · cases h

theorem text_reader_agrees_short :
    readArtifact linesCodec lineAttempts
      (saveArtifactBytes linesCodec {} (shortSave "x.log").req (shortSave "x.log").io "").1
        "t1" "x.log" = .ok (some "hi") := by
  have hsaved : (saveArtifactBytes linesCodec {} (shortSave "x.log").req (shortSave "x.log").io
      (shortSave "x.log").now).2 = .ok ⟨"x.log", 2, none, ""⟩ := by decide
  have htext : (shortSave "x.log").req.bytes = utf8 "hi" := by decide
  exact ((text_reader_agrees linesCodec_inverts linesCodec_framed hsaved ⟨rfl, rfl, rfl⟩
    htext (by decide)).2.mpr (by decide)).1

theorem utf8_replicate (n : Nat) :
    utf8 (String.ofList (List.replicate n 'a')) = List.replicate n 97 := by
  have hchar : String.utf8EncodeChar 'a' = [97] := by decide
  have hflat : (List.replicate n 'a').flatMap String.utf8EncodeChar = List.replicate n 97 := by
    induction n with
    | zero => rfl
    | succ n ih => rw [List.replicate_succ, List.flatMap_cons, ih, hchar]; rfl
  rw [utf8, String.toByteArray_ofList, List.utf8Encode, List.data_toByteArray, hflat]

/-- A log of one repeated letter is stored as a frame. -/
theorem compressed_text_unreadable : ¬ ∀ (c : Codec) (call : SaveCall)
    (answer : ArtifactUploadResponse) (text : String), c.Inverts →
    (saveArtifactBytes c {} call.req call.io call.now).2 = .ok answer →
    call.req.bytes = utf8 text →
    readArtifactForAttempt c (saveArtifactBytes c {} call.req call.io call.now).1
      call.req.attemptId call.req.name = .ok (some text) := by
  intro h
  have hpublishes : logSave.publishes linesCodec = true := by decide
  have hsaved : (saveArtifactBytes linesCodec {} logSave.req logSave.io logSave.now).2 =
      .ok ⟨"x.log", lines.length, none, ""⟩ := by
    rw [save_published hpublishes]
    rfl
  have htext : logSave.req.bytes = utf8 (String.ofList (List.replicate 4096 'a')) := by
    rw [utf8_replicate]
    exact lines.eq_1
  have hread := h linesCodec logSave _ _ linesCodec_inverts hsaved htext
  have hsame : SameArtifact (saveArtifactBytes linesCodec {} logSave.req logSave.io
      logSave.now).1 (saveArtifactBytes linesCodec {} logSave.req logSave.io logSave.now).1
      logSave.req.attemptId logSave.req.name := ⟨rfl, rfl, rfl⟩
  obtain ⟨hresolve, hfile⟩ := hsame.resolve hsaved
  have hbytes : logSave.req.writeBytes linesCodec = linesFrame := by
    rw [SaveRequest.writeBytes, logSave_frame, Option.getD_some]
  have hbinary : fromUtf8 linesFrame = none := fromUtf8_frame ⟨linesFrame.drop 4, rfl⟩
  have hsafe : (isSafeOpaqueId logSave.req.attemptId &&
      isSafeArtifactName logSave.req.name) = true := by decide
  rw [hbytes] at hfile
  have hfails := readArtifactForAttempt_invalid (c := linesCodec) hsafe hresolve hfile hbinary
  rw [hfails] at hread
  cases hread

end AgentGrid.Store
