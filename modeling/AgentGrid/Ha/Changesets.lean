import AgentGrid.Acp.Codec
import AgentGrid.Foundation.Numerals
import AgentGrid.Ha.S3Xml
import AgentGrid.Store.ArtifactRange

/-!
# Changeset objects

A batch of committed changes is one object: a magic number, the length of a JSON
header, the header and the bytes.  Its key holds both ends of its range as numerals of
one width.  The parser of JSON is a parameter; a slice outside its bounds is a panic.
-/

namespace AgentGrid.Ha

open AgentGrid.Foundation
open AgentGrid.Acp (asI64)
open AgentGrid.Acp.Codec (i64Value asI64_i64Value)
open AgentGrid.Node (Json fieldsText fieldsText_cons fieldsText_singleton quoted)
open AgentGrid.Store (parseU64 parseU64_digits)

/-! ## The envelope -/

def changesetMagic : List UInt8 := [65, 71, 67, 83]

def changesetVersion : UInt8 := 1

structure ChangesetObject where
  epoch : UInt64
  schemaVersion : Int64
  firstSeq : UInt64
  lastSeq : UInt64
  bytes : List UInt8
deriving DecidableEq

structure ChangesetHeader where
  v : UInt8
  epoch : UInt64
  schemaVersion : Int64
  firstSeq : UInt64
  lastSeq : UInt64
deriving DecidableEq

def u64Value (n : UInt64) : Json := .unsigned n.toNat

def ChangesetHeader.fields (h : ChangesetHeader) : List (String × Json) :=
  [("v", .unsigned h.v.toNat), ("epoch", u64Value h.epoch),
    ("schema_version", i64Value h.schemaVersion), ("first_seq", u64Value h.firstSeq),
    ("last_seq", u64Value h.lastSeq)]

/-- `serde_json::to_vec`. -/
def ChangesetHeader.toVec (h : ChangesetHeader) : List UInt8 :=
  (Json.object h.fields).text.flatMap String.utf8EncodeChar

def u32Max : Nat := 4294967295

/-- `to_be_bytes` of a number of 32 bits. -/
def toBeBytes (n : Nat) : List UInt8 :=
  [UInt8.ofNat (n / 16777216), UInt8.ofNat (n / 65536), UInt8.ofNat (n / 256), UInt8.ofNat n]

inductive ChangesetError
  | bail (text : String)
  | serde
deriving DecidableEq

/-- The body of `put_changeset`. -/
def encodeChangeset (epoch : UInt64) (schemaVersion : Int64) (firstSeq lastSeq : UInt64)
    (bytes : List UInt8) : Except ChangesetError (List UInt8) :=
  let header := ChangesetHeader.toVec ⟨changesetVersion, epoch, schemaVersion, firstSeq, lastSeq⟩
  if u32Max < header.length then .error (.bail "changeset header too large")
  else .ok (changesetMagic ++ toBeBytes header.length ++ header ++ bytes)

/-! ## Reading it back -/

def asU8 : Json → Option UInt8
  | .unsigned n => if n < 256 then some (UInt8.ofNat n) else none
  | _ => none

def asUInt64 : Json → Option UInt64
  | .unsigned n => if n < 2 ^ 64 then some (UInt64.ofNat n) else none
  | _ => none

/-- A member of a derived struct is there once; members it does not name are ignored. -/
def member (fields : List (String × Json)) (name : String) : Option Json :=
  match fields.filter fun f => f.1 == name with
  | [field] => some field.2
  | _ => none

def readHeader (v epoch schemaVersion firstSeq lastSeq : Json) : Option ChangesetHeader := do
  let v ← asU8 v
  let epoch ← asUInt64 epoch
  let schemaVersion ← asI64 schemaVersion
  let firstSeq ← asUInt64 firstSeq
  let lastSeq ← asUInt64 lastSeq
  return ⟨v, epoch, schemaVersion, firstSeq, lastSeq⟩

/-- The derived reader takes an object or a sequence. -/
def headerFromValue : Json → Option ChangesetHeader
  | .object fields => do
      let v ← member fields "v"
      let epoch ← member fields "epoch"
      let schemaVersion ← member fields "schema_version"
      let firstSeq ← member fields "first_seq"
      let lastSeq ← member fields "last_seq"
      readHeader v epoch schemaVersion firstSeq lastSeq
  | .array [v, epoch, schemaVersion, firstSeq, lastSeq] =>
      readHeader v epoch schemaVersion firstSeq lastSeq
  | _ => none

/-- A slice, or a panic. -/
def slice (b : List UInt8) (start stop : Nat) : Option (List UInt8) :=
  if start ≤ stop ∧ stop ≤ b.length then some ((b.drop start).take (stop - start)) else none

/-- `u32::from_be_bytes` of a slice that has to have four bytes, or a panic. -/
def fromBeBytes : List UInt8 → Option Nat
  | [a, b, c, d] =>
      some (a.toNat * 16777216 + b.toNat * 65536 + c.toNat * 256 + d.toNat)
  | _ => none

def usizeMax : Nat := 18446744073709551615

def checkedAdd (a b : Nat) : Option Nat := if a + b ≤ usizeMax then some (a + b) else none

/-- Nothing stands for a panic. -/
def decodeChangeset (parse : List UInt8 → Option Json) (body : List UInt8) :
    Option (Except ChangesetError ChangesetObject) :=
  if body.length < 8 then some (.error (.bail "not an agentgrid changeset object")) else do
    let magic ← slice body 0 4
    if magic ≠ changesetMagic then some (.error (.bail "not an agentgrid changeset object"))
    else do
      let hlen ← fromBeBytes (← slice body 4 8)
      match (checkedAdd 8 hlen).filter (· ≤ body.length) with
      | none => some (.error (.bail "truncated changeset header"))
      | some stop => do
          let text ← slice body 8 stop
          match (parse text).bind headerFromValue with
          | none => some (.error .serde)
          | some header =>
              if header.v ≠ changesetVersion then
                some (.error (.bail
                  ("unsupported changeset object version " ++ toString header.v)))
              else if header.lastSeq < header.firstSeq then
                some (.error (.bail "changeset sequence range is inverted"))
              else do
                let bytes ← slice body stop body.length
                some (.ok ⟨header.epoch, header.schemaVersion, header.firstSeq,
                  header.lastSeq, bytes⟩)

theorem slice_middle {body before middle after : List UInt8} {start stop : Nat}
    (hbody : body = before ++ middle ++ after) (hstart : before.length = start)
    (hstop : start + middle.length = stop) : slice body start stop = some middle := by
  subst hbody hstart hstop
  have hbounds : before.length ≤ before.length + middle.length ∧
      before.length + middle.length ≤ (before ++ middle ++ after).length := by
    simp only [List.length_append]
    omega
  rw [slice, if_pos hbounds]
  simp

theorem slice_isSome {b : List UInt8} {start stop : Nat} (hle : start ≤ stop)
    (hstop : stop ≤ b.length) :
    ∃ bytes, slice b start stop = some bytes ∧ bytes.length = stop - start := by
  refine ⟨_, if_pos ⟨hle, hstop⟩, ?_⟩
  rw [List.length_take, List.length_drop]
  omega

theorem fromBeBytes_toBeBytes {n : Nat} (h : n ≤ u32Max) :
    fromBeBytes (toBeBytes n) = some n := by
  simp only [u32Max] at h
  simp only [toBeBytes, fromBeBytes, UInt8.toNat_ofNat', Option.some_inj]
  omega

theorem fromBeBytes_isSome {bytes : List UInt8} (h : bytes.length = 4) :
    ∃ n, fromBeBytes bytes = some n := by
  obtain ⟨a, b, c, d, rfl⟩ := List.length_eq_four.mp h
  exact ⟨_, rfl⟩

/-- The end of the header lies in the body. -/
theorem headerEnd_le {hlen stop length : Nat}
    (h : (checkedAdd 8 hlen).filter (· ≤ length) = some stop) :
    stop = 8 + hlen ∧ stop ≤ length := by
  obtain ⟨hadd, hfits⟩ := Option.filter_eq_some_iff.mp h
  rw [checkedAdd] at hadd
  split at hadd
  · exact ⟨(Option.some_inj.mp hadd).symm, by simpa using hfits⟩
  · cases hadd

/-- No slice of the reader lies outside the body. -/
theorem decodeChangeset_total (parse : List UInt8 → Option Json) (body : List UInt8) :
    ∃ result, decodeChangeset parse body = some result := by
  unfold decodeChangeset
  by_cases hshort : body.length < 8
  · exact ⟨_, if_pos hshort⟩
  · rw [if_neg hshort]
    obtain ⟨magic, hmagic, -⟩ := @slice_isSome body 0 4 (by omega) (by omega)
    obtain ⟨word, hword, hfour⟩ := @slice_isSome body 4 8 (by omega) (by omega)
    obtain ⟨hlen, hhlen⟩ := fromBeBytes_isSome hfour
    simp only [hmagic, hword, hhlen, Option.bind_eq_bind, Option.bind_some]
    split
    · exact ⟨_, rfl⟩
    · split
      · exact ⟨_, rfl⟩
      · rename_i stop hstop
        obtain ⟨hend, hle⟩ := headerEnd_le hstop
        obtain ⟨text, htext, -⟩ := @slice_isSome body 8 stop (by omega) hle
        obtain ⟨bytes, hbytes, -⟩ := @slice_isSome body stop body.length hle (le_refl _)
        simp only [htext, hbytes, Option.bind_some]
        split
        · exact ⟨_, rfl⟩
        · split
          · exact ⟨_, rfl⟩
          · split
            · exact ⟨_, rfl⟩
            · exact ⟨_, rfl⟩

/-! ## The round trip -/

theorem asUInt64_u64Value (n : UInt64) : asUInt64 (u64Value n) = some n := by
  rw [u64Value, asUInt64, if_pos n.toNat_lt, UInt64.ofNat_toNat]

theorem headerFromValue_fields (h : ChangesetHeader) :
    headerFromValue (.object h.fields) = some h := by
  have hv : asU8 (.unsigned h.v.toNat) = some h.v := by
    rw [asU8, if_pos h.v.toNat_lt, UInt8.ofNat_toNat]
  have hmembers : headerFromValue (.object h.fields) =
      readHeader (.unsigned h.v.toNat) (u64Value h.epoch) (i64Value h.schemaVersion)
        (u64Value h.firstSeq) (u64Value h.lastSeq) := rfl
  rw [hmembers, readHeader]
  simp only [hv, asUInt64_u64Value, asI64_i64Value]
  rfl

theorem length_number {n : Nat} (h : n < 10 ^ 20) : n.repr.toList.length ≤ 20 := by
  rw [Nat.toList_repr]
  exact (Nat.length_toDigits_le_iff (by decide) (by decide)).mpr h

theorem length_u64Value (n : UInt64) : (u64Value n).text.length ≤ 20 := by
  have hn := n.toNat_lt
  rw [u64Value, Json.text_unsigned]
  exact length_number (by omega)

theorem length_i64Value (n : Int64) : (i64Value n).text.length ≤ 21 := by
  have hlow := Int64.le_toInt n
  have hhigh := Int64.toInt_lt n
  unfold i64Value
  split
  · have hnumber := @length_number n.toInt.toNat (by omega)
    rw [Json.text_unsigned]
    omega
  · have hnumber := @length_number (-n.toInt).toNat (by omega)
    rw [Json.text_negative, List.length_cons]
    omega

theorem length_utf8 (text : List Char) :
    (text.flatMap String.utf8EncodeChar).length ≤ 4 * text.length := by
  induction text with
  | nil => simp
  | cons c text ih =>
      have hchar := String.length_utf8EncodeChar c
      have hsize := c.utf8Size_le_four
      rw [List.flatMap_cons, List.length_append, List.length_cons]
      omega

theorem length_fieldsText (fields : List (String × Json)) :
    (fieldsText fields).length ≤
      (fields.map fun f => (quoted f.1.toList).length + f.2.text.length + 2).sum := by
  induction fields with
  | nil => exact Nat.le_refl _
  | cons field fields ih =>
      rw [List.map_cons, List.sum_cons]
      cases fields with
      | nil =>
          rw [fieldsText_singleton, List.length_append, List.length_cons]
          omega
      | cons next fields =>
          rw [fieldsText_cons, List.length_append, List.length_cons, List.length_append,
            List.length_cons]
          omega

theorem length_toVec (h : ChangesetHeader) : h.toVec.length ≤ 1000 := by
  have hutf8 := length_utf8 (Json.object h.fields).text
  have hfields := length_fieldsText h.fields
  have hv : (Json.unsigned h.v.toNat).text.length ≤ 20 := by
    have hbyte := h.v.toNat_lt
    rw [Json.text_unsigned]
    exact length_number (by omega)
  have hepoch := length_u64Value h.epoch
  have hschema := length_i64Value h.schemaVersion
  have hfirst := length_u64Value h.firstSeq
  have hlast := length_u64Value h.lastSeq
  have hnames : ∀ name ∈ ["v", "epoch", "schema_version", "first_seq", "last_seq"],
      (quoted name.toList).length ≤ 16 := by decide +kernel
  simp only [List.forall_mem_cons] at hnames
  obtain ⟨hn1, hn2, hn3, hn4, hn5, -⟩ := hnames
  have hsum : (h.fields.map fun f =>
      (quoted f.1.toList).length + f.2.text.length + 2).sum ≤ 200 := by
    simp only [ChangesetHeader.fields, List.map_cons, List.map_nil, List.sum_cons, List.sum_nil]
    omega
  have htext : (Json.object h.fields).text.length ≤ 202 := by
    rw [Json.text_object, List.length_cons, List.length_append, List.length_singleton]
    omega
  rw [ChangesetHeader.toVec]
  omega

theorem decodeChangeset_encode {parse : List UInt8 → Option Json} {header : ChangesetHeader}
    (hparse : parse header.toVec = some (.object header.fields))
    (hv : header.v = changesetVersion) (hrange : header.firstSeq ≤ header.lastSeq)
    (bytes : List UInt8) :
    decodeChangeset parse
        (changesetMagic ++ toBeBytes header.toVec.length ++ header.toVec ++ bytes) =
      some (.ok ⟨header.epoch, header.schemaVersion, header.firstSeq, header.lastSeq, bytes⟩) := by
  have hsmall := length_toVec header
  have hread : (parse header.toVec).bind headerFromValue = some header := by
    rw [hparse]
    exact headerFromValue_fields header
  generalize header.toVec = text at hsmall hread ⊢
  generalize hbody : changesetMagic ++ toBeBytes text.length ++ text ++ bytes = body
  have hfour : (toBeBytes text.length).length = 4 := rfl
  have hfront : body = [] ++ changesetMagic ++
      (toBeBytes text.length ++ text ++ bytes) := by
    rw [← hbody]
    simp
  have hmiddle : body = changesetMagic ++ toBeBytes text.length ++
      (text ++ bytes) := by
    rw [← hbody, List.append_assoc _ text]
  have hback : body = changesetMagic ++ toBeBytes text.length ++ text ++ bytes ++
      [] := by
    rw [← hbody, List.append_nil]
  have hmagic : slice body 0 4 = some changesetMagic := slice_middle hfront rfl rfl
  have hword : slice body 4 8 = some (toBeBytes text.length) :=
    slice_middle hmiddle rfl rfl
  have htext : slice body 8 (8 + text.length) = some text :=
    slice_middle hbody.symm rfl rfl
  have hlength : body.length = 8 + text.length + bytes.length := by
    rw [← hbody, List.length_append, List.length_append, List.length_append, hfour]
    rfl
  have hrest : slice body (8 + text.length) body.length = some bytes :=
    slice_middle hback (by rw [List.length_append, List.length_append, hfour]; rfl) (by omega)
  have hword' : fromBeBytes (toBeBytes text.length) = some text.length :=
    fromBeBytes_toBeBytes (by rw [u32Max]; omega)
  have hend : (checkedAdd 8 text.length).filter (· ≤ body.length) =
      some (8 + text.length) := by
    rw [checkedAdd, if_pos (by rw [usizeMax]; omega), Option.filter_some, if_pos]
    rw [decide_eq_true_eq]
    omega
  have hshort : ¬ body.length < 8 := by omega
  have horder : ¬ header.lastSeq < header.firstSeq := UInt64.not_lt.mpr hrange
  unfold decodeChangeset
  rw [if_neg hshort]
  rw [hmagic, Option.bind_eq_bind, Option.bind_some, if_neg (not_not_intro rfl), hword,
    Option.bind_some, hword', Option.bind_eq_bind, Option.bind_some, hend]
  change (slice body 8 (8 + text.length)).bind _ = _
  rw [htext, Option.bind_some, hread]
  change ite _ _ _ = _
  rw [if_neg (not_not_intro hv), if_neg horder, hrest]
  rfl

theorem encodeChangeset_eq (epoch : UInt64) (schemaVersion : Int64) (firstSeq lastSeq : UInt64)
    (bytes : List UInt8) :
    encodeChangeset epoch schemaVersion firstSeq lastSeq bytes = .ok (changesetMagic ++
      toBeBytes (ChangesetHeader.toVec
        ⟨changesetVersion, epoch, schemaVersion, firstSeq, lastSeq⟩).length ++
      ChangesetHeader.toVec ⟨changesetVersion, epoch, schemaVersion, firstSeq, lastSeq⟩ ++
      bytes) := by
  have hsmall := length_toVec ⟨changesetVersion, epoch, schemaVersion, firstSeq, lastSeq⟩
  have hfits : ¬ u32Max < (ChangesetHeader.toVec
      ⟨changesetVersion, epoch, schemaVersion, firstSeq, lastSeq⟩).length := by
    rw [u32Max]
    omega
  rw [encodeChangeset, if_neg hfits]

/-! ## Keys -/

def objectKey (ns key : Text) : Text := ns ++ '/' :: key

/-- `{n:020}`. -/
def padded20 (n : UInt64) : Text := Numeral.padded 20 n.toNat

def binSuffix : Text := ['.', 'b', 'i', 'n']

def changesetsPrefix : Text := "changesets/".toList

def changesetKey (ns : Text) (firstSeq lastSeq : UInt64) : Text :=
  objectKey ns (changesetsPrefix ++ (padded20 firstSeq ++ '-' :: (padded20 lastSeq ++ binSuffix)))

/-- `rsplit('/').next()`. -/
def lastSegment (key : Text) : Text := (key.reverse.takeWhile (· ≠ '/')).reverse

def changesetRange (key : Text) : Option (UInt64 × UInt64) := do
  let name ← (lastSegment key).dropSuffix? binSuffix
  let parts ← name.dropInfix? ['-']
  let first ← parseU64 parts.1
  let last ← parseU64 parts.2
  return (first, last)

theorem toNat_lt_pow (n : UInt64) : n.toNat < 10 ^ 20 := by
  have hn := n.toNat_lt
  omega

theorem parseU64_padded20 (n : UInt64) : parseU64 (padded20 n) = some n := by
  rw [padded20, parseU64_digits Numeral.padded_ne_nil fun _ => Numeral.isDigit_of_mem_padded,
    Numeral.value_padded, if_pos n.toNat_lt, UInt64.ofNat_toNat]

theorem not_mem_padded20 {c : Char} (hc : c.isDigit = false) (n : UInt64) : c ∉ padded20 n := by
  intro hmem
  rw [Numeral.isDigit_of_mem_padded hmem] at hc
  cases hc

theorem lastSegment_append {pre name : Text} (h : '/' ∉ name) :
    lastSegment (pre ++ '/' :: name) = name := by
  have hfree : '/' ∉ name.reverse := fun hmem => h (List.mem_reverse.mp hmem)
  have hreverse : (pre ++ '/' :: name).reverse = name.reverse ++ '/' :: pre.reverse := by simp
  rw [lastSegment, hreverse, takeWhile_ne_append hfree, List.reverse_reverse]

theorem changesetRange_key (ns : Text) (firstSeq lastSeq : UInt64) :
    changesetRange (changesetKey ns firstSeq lastSeq) = some (firstSeq, lastSeq) := by
  have hslash : '/' ∉ padded20 firstSeq ++ '-' :: (padded20 lastSeq ++ binSuffix) := by
    have hfirst := not_mem_padded20 (show Char.isDigit '/' = false from rfl) firstSeq
    have hlast := not_mem_padded20 (show Char.isDigit '/' = false from rfl) lastSeq
    simp [hfirst, hlast, binSuffix]
  have hdir : changesetsPrefix = "changesets".toList ++ ['/'] := by decide +kernel
  have hkey : changesetKey ns firstSeq lastSeq = ns ++ '/' :: "changesets".toList ++
      '/' :: (padded20 firstSeq ++ '-' :: (padded20 lastSeq ++ binSuffix)) := by
    rw [changesetKey, objectKey, hdir]
    simp only [List.append_assoc, List.cons_append, List.nil_append]
  have hname : (padded20 firstSeq ++ '-' :: (padded20 lastSeq ++ binSuffix)).dropSuffix?
      binSuffix = some (padded20 firstSeq ++ '-' :: padded20 lastSeq) := by
    rw [List.dropSuffix?_eq_some_iff]
    exact ⟨binSuffix, by simp, beq_self_eq_true _⟩
  have hdash : (padded20 firstSeq ++ '-' :: padded20 lastSeq).dropInfix? ['-'] =
      some (padded20 firstSeq, padded20 lastSeq) := by
    have hfree : ¬ ['-'] <:+: padded20 firstSeq := fun h =>
      not_mem_padded20 (show Char.isDigit '-' = false from rfl) firstSeq
        (h.subset List.mem_cons_self)
    have hfound := @dropInfix?_first _ _ '-' [] _ (padded20 lastSeq) List.not_mem_nil hfree
    simpa using hfound
  rw [changesetRange, hkey, lastSegment_append hslash, hname]
  change Option.bind _ _ = _
  rw [Option.bind_some, hdash]
  change Option.bind _ _ = _
  rw [Option.bind_some, parseU64_padded20]
  change Option.bind _ _ = _
  rw [Option.bind_some, parseU64_padded20]
  rfl

theorem changesetKey_lt_iff (ns : Text) (f l f' l' : UInt64) :
    changesetKey ns f l < changesetKey ns f' l' ↔ f < f' ∨ f = f' ∧ l < l' := by
  have htail : ¬ binSuffix < binSuffix := lt_irrefl binSuffix
  simp only [changesetKey, objectKey, padded20, Numeral.append_lt_append_left_iff,
    List.cons_lt_cons_iff, Numeral.padded_append_lt_iff (by decide) (toNat_lt_pow _)
    (toNat_lt_pow _), htail, lt_irrefl, and_false, or_false, false_or, true_and,
    UInt64.toNat_inj, UInt64.lt_iff_toNat_lt]

theorem changesetKey_inj {ns : Text} {f l f' l' : UInt64}
    (h : changesetKey ns f l = changesetKey ns f' l') : f = f' ∧ l = l' := by
  have hrange := changesetRange_key ns f l
  rw [h, changesetRange_key] at hrange
  obtain ⟨rfl, rfl⟩ := Prod.mk.inj (Option.some_inj.mp hrange)
  exact ⟨rfl, rfl⟩

end AgentGrid.Ha
