import AgentGrid.Skills.Scanner
import AgentGrid.Store.ArtifactRange
import Mathlib.Data.List.Perm.Subperm

/-!
# Payloads in an encoding

How a payload is spelled in base64, in hexadecimal or with percent escapes, and that
the scanner reads each of them back.
-/

namespace AgentGrid.Skills

open AgentGrid.Foundation
open AgentGrid.Store (utf8 fromUtf8 fromUtf8_utf8 isWhitespace alphanum_range)

/-! ## Spelling -/

def sextet (urlSafe : Bool) (n : Nat) : Char :=
  if n < 26 then Char.ofNat (65 + n)
  else if n < 52 then Char.ofNat (71 + n)
  else if n < 62 then Char.ofNat (n - 4)
  else if n = 62 then (if urlSafe then '-' else '+')
  else (if urlSafe then '_' else '/')

def padding (padded : Bool) (n : Nat) : List Char := if padded then List.replicate n '=' else []

def b64Encode (urlSafe padded : Bool) : List UInt8 → List Char
  | [] => []
  | [a] =>
      [sextet urlSafe (a.toNat / 4), sextet urlSafe (a.toNat % 4 * 16)] ++ padding padded 2
  | [a, b] =>
      [sextet urlSafe (a.toNat / 4), sextet urlSafe (a.toNat % 4 * 16 + b.toNat / 16),
        sextet urlSafe (b.toNat % 16 * 4)] ++ padding padded 1
  | a :: b :: c :: bytes =>
      [sextet urlSafe (a.toNat / 4), sextet urlSafe (a.toNat % 4 * 16 + b.toNat / 16),
        sextet urlSafe (b.toNat % 16 * 4 + c.toNat / 64), sextet urlSafe (c.toNat % 64)] ++
        b64Encode urlSafe padded bytes

def hexDigit (upper : Bool) (n : Nat) : Char :=
  if n < 10 then Char.ofNat (48 + n) else Char.ofNat ((if upper then 55 else 87) + n)

/-- Two digits for each byte, in either case. -/
inductive HexRun : List UInt8 → List Char → Prop
  | nil : HexRun [] []
  | cons (b : UInt8) (u u' : Bool) {bytes : List UInt8} {run : List Char} :
      HexRun bytes run →
        HexRun (b :: bytes) (hexDigit u (b.toNat / 16) :: hexDigit u' (b.toNat % 16) :: run)

def isUnreserved (c : Char) : Bool := c.isAlphanum || c ∈ ['.', '_', '~', '-']

/-- Bytes escaped, or unreserved characters as they are. -/
inductive PctRun : List UInt8 → List Char → Prop
  | nil : PctRun [] []
  | plain {c : Char} (h : isUnreserved c = true) {bytes : List UInt8} {run : List Char} :
      PctRun bytes run → PctRun (UInt8.ofNat c.toNat :: bytes) (c :: run)
  | escaped (b : UInt8) (u u' : Bool) {bytes : List UInt8} {run : List Char} :
      PctRun bytes run →
        PctRun (b :: bytes)
          ('%' :: hexDigit u (b.toNat / 16) :: hexDigit u' (b.toNat % 16) :: run)

inductive Encoding
  | base64 (urlSafe padded : Bool)
  | hex
  | percent
deriving DecidableEq

namespace Encoding

def kind : Encoding → String
  | .base64 _ _ => "base64"
  | .hex => "hex"
  | .percent => "percent"

def minRun : Encoding → Nat
  | .base64 _ _ => minEncodedRun
  | .hex => 32
  | .percent => 12

def alphabet : Encoding → Char → Bool
  | .base64 _ _ => isB64
  | .hex => isHex
  | .percent => isPct

def decode : Encoding → List Char → Option (List UInt8)
  | .base64 _ _ => b64Decode
  | .hex => hexDecode
  | .percent => pctDecode

def Spells : Encoding → List UInt8 → List Char → Prop
  | .base64 urlSafe padded, bytes, run => run = b64Encode urlSafe padded bytes
  | .hex, bytes, run => HexRun bytes run
  | .percent, bytes, run => PctRun bytes run

/-- The scanner reads percent escapes in a run that has three of them. -/
def Escaped (e : Encoding) (run : List Char) : Prop := e = .percent → 3 ≤ run.count '%'

end Encoding

/-! ## Digits -/

theorem base64Value_sextet (urlSafe : Bool) {n : Nat} (h : n < 64) :
    base64Value (sextet urlSafe n) = some n := by
  have hall : ∀ (urlSafe : Bool) (n : Fin 64), base64Value (sextet urlSafe n) = some n.val := by
    decide
  exact hall urlSafe ⟨n, h⟩

theorem sextet_spec (urlSafe : Bool) {n : Nat} (h : n < 64) :
    sextet urlSafe n ≠ '=' ∧ isB64 (sextet urlSafe n) = true := by
  have hall : ∀ (urlSafe : Bool) (n : Fin 64),
      sextet urlSafe n ≠ '=' ∧ isB64 (sextet urlSafe n) = true := by
    decide
  exact hall urlSafe ⟨n, h⟩

theorem hexDigit_spec (upper : Bool) {n : Nat} (h : n < 16) :
    hexValue (hexDigit upper n) = some n ∧ isPct (hexDigit upper n) = true := by
  have hall : ∀ (upper : Bool) (n : Fin 16),
      hexValue (hexDigit upper n) = some n.val ∧ isPct (hexDigit upper n) = true := by
    decide
  exact hall upper ⟨n, h⟩

theorem hexByte_hexDigit (u u' : Bool) (b : UInt8) :
    hexByte (hexDigit u (b.toNat / 16)) (hexDigit u' (b.toNat % 16)) = some b := by
  have hb := b.toNat_lt
  rw [hexByte, (hexDigit_spec u (by omega)).1, (hexDigit_spec u' (by omega)).1]
  dsimp only
  rw [Nat.div_add_mod' b.toNat 16, UInt8.ofNat_toNat]

/-! ## Reading back -/

theorem b64From_sextet (urlSafe : Bool) {n : Nat} (h : n < 64) (buf bits : Nat)
    (run : List Char) :
    b64From buf bits (sextet urlSafe n :: run) =
      if 8 ≤ bits + 6 then
        (b64From ((buf * 64 + n) % 2 ^ (bits - 2)) (bits - 2) run).map fun bytes =>
          UInt8.ofNat ((buf * 64 + n) / 2 ^ (bits - 2)) :: bytes
      else b64From (buf * 64 + n) (bits + 6) run := by
  rw [b64From, if_neg (sextet_spec urlSafe h).1, base64Value_sextet urlSafe h]

theorem b64From_padding (padded : Bool) (count buf bits : Nat) :
    b64From buf bits (padding padded count) = some [] := by
  unfold padding
  split
  · induction count with
    | zero => rfl
    | succ count ih =>
        rw [List.replicate_succ, b64From, if_pos rfl]
        exact ih
  · rfl

theorem b64Decode_b64Encode (urlSafe padded : Bool) (bytes : List UInt8) :
    b64Decode (b64Encode urlSafe padded bytes) = some bytes := by
  unfold b64Decode
  have hbyte : ∀ (b : UInt8) (n : Nat), n = b.toNat → UInt8.ofNat n = b := by
    rintro b n rfl
    exact UInt8.ofNat_toNat
  induction bytes using b64Encode.induct with
  | case1 => rfl
  | case2 a =>
      have ha := a.toNat_lt
      rw [b64Encode, List.cons_append, List.cons_append, b64From_sextet urlSafe (by omega),
        if_neg (by omega), b64From_sextet urlSafe (by omega), if_pos (by omega), List.nil_append,
        b64From_padding, Option.map_some]
      exact congrArg some (congrArg (· :: []) (hbyte a _ (by omega)))
  | case3 a b =>
      have ha := a.toNat_lt
      have hb := b.toNat_lt
      rw [b64Encode, List.cons_append, List.cons_append, List.cons_append,
        b64From_sextet urlSafe (by omega), if_neg (by omega), b64From_sextet urlSafe (by omega),
        if_pos (by omega), b64From_sextet urlSafe (by omega), if_pos (by omega), List.nil_append,
        b64From_padding, Option.map_some, Option.map_some]
      exact congrArg some (congrArg₂ (· :: ·) (hbyte a _ (by omega))
        (congrArg (· :: []) (hbyte b _ (by omega))))
  | case4 a b c bytes ih =>
      have ha := a.toNat_lt
      have hb := b.toNat_lt
      have hc := c.toNat_lt
      have hrest : ∀ buf bits, buf = 0 → bits = 0 →
          b64From buf bits (b64Encode urlSafe padded bytes) = some bytes := by
        rintro _ _ rfl rfl
        exact ih
      rw [b64Encode, List.cons_append, List.cons_append, List.cons_append, List.cons_append,
        b64From_sextet urlSafe (by omega), if_neg (by omega), b64From_sextet urlSafe (by omega),
        if_pos (by omega), b64From_sextet urlSafe (by omega), if_pos (by omega),
        b64From_sextet urlSafe (by omega), if_pos (by omega), List.nil_append,
        hrest _ _ (by omega) (by omega)]
      simp only [Option.map_some]
      exact congrArg some (congrArg₂ (· :: ·) (hbyte a _ (by omega))
        (congrArg₂ (· :: ·) (hbyte b _ (by omega)) (congrArg (· :: bytes) (hbyte c _ (by omega)))))

theorem hexDecode_run {bytes : List UInt8} {run : List Char} (h : HexRun bytes run) :
    hexDecode run = some bytes := by
  induction h with
  | nil => rfl
  | cons b u u' _ ih =>
      rw [hexDecode, hexByte_hexDigit]
      dsimp only
      rw [ih, Option.map_some]

theorem HexRun.even {bytes : List UInt8} {run : List Char} (h : HexRun bytes run) :
    run.length % 2 = 0 := by
  induction h with
  | nil => rfl
  | cons b u u' _ ih =>
      simp only [List.length_cons]
      omega

theorem pctDecode_plain {c : Char} (h : c ≠ '%') (run : List Char) :
    pctDecode (c :: run) = (pctDecode run).map fun bytes => UInt8.ofNat c.toNat :: bytes := by
  cases run with
  | nil => simp [pctDecode, h]
  | cons c' run => cases run <;> simp [pctDecode, h]

theorem pctDecode_run {bytes : List UInt8} {run : List Char} (h : PctRun bytes run) :
    pctDecode run = some bytes := by
  induction h with
  | nil => rfl
  | plain hc _ ih =>
      rename_i c bytes run _
      have hne : c ≠ '%' := by
        rintro rfl
        exact absurd hc (by decide)
      rw [pctDecode_plain hne, ih, Option.map_some]
  | escaped b u u' _ ih =>
      rw [pctDecode, if_pos rfl, hexByte_hexDigit]
      dsimp only
      rw [ih, Option.map_some]

namespace Encoding

theorem decode_spells {e : Encoding} {bytes : List UInt8} {run : List Char}
    (h : e.Spells bytes run) : e.decode run = some bytes := by
  cases e with
  | base64 urlSafe padded =>
      obtain rfl : run = _ := h
      exact b64Decode_b64Encode urlSafe padded bytes
  | hex => exact hexDecode_run h
  | percent => exact pctDecode_run h

/-- The characters of a run are of the alphabet. -/
theorem alphabet_of_spells {e : Encoding} {bytes : List UInt8} {run : List Char}
    (h : e.Spells bytes run) : ∀ c ∈ run, e.alphabet c = true := by
  cases e with
  | base64 urlSafe padded =>
      obtain rfl : run = _ := h
      have hpad : ∀ count, ∀ c ∈ padding padded count, isB64 c = true := by
        intro count c hc
        unfold padding at hc
        split at hc
        · rw [List.eq_of_mem_replicate hc]
          decide
        · cases hc
      show ∀ c ∈ b64Encode urlSafe padded bytes, isB64 c = true
      induction bytes using b64Encode.induct with
      | case1 => simp [b64Encode]
      | case2 a =>
          have ha := a.toNat_lt
          simp only [b64Encode, List.forall_mem_append, List.forall_mem_cons]
          exact ⟨⟨(sextet_spec urlSafe (by omega)).2, (sextet_spec urlSafe (by omega)).2,
            List.forall_mem_nil _⟩, hpad 2⟩
      | case3 a b =>
          have ha := a.toNat_lt
          have hb := b.toNat_lt
          simp only [b64Encode, List.forall_mem_append, List.forall_mem_cons]
          exact ⟨⟨(sextet_spec urlSafe (by omega)).2, (sextet_spec urlSafe (by omega)).2,
            (sextet_spec urlSafe (by omega)).2, List.forall_mem_nil _⟩, hpad 1⟩
      | case4 a b c bytes ih =>
          have ha := a.toNat_lt
          have hb := b.toNat_lt
          have hc := c.toNat_lt
          simp only [b64Encode, List.forall_mem_append, List.forall_mem_cons]
          exact ⟨⟨(sextet_spec urlSafe (by omega)).2, (sextet_spec urlSafe (by omega)).2,
            (sextet_spec urlSafe (by omega)).2, (sextet_spec urlSafe (by omega)).2,
            List.forall_mem_nil _⟩, ih⟩
  | hex =>
      replace h : HexRun bytes run := h
      show ∀ c ∈ run, isHex c = true
      induction h with
      | nil => simp
      | cons b u u' _ ih =>
          have hb := b.toNat_lt
          have hhigh := (hexDigit_spec u (n := b.toNat / 16) (by omega)).1
          have hlow := (hexDigit_spec u' (n := b.toNat % 16) (by omega)).1
          simp only [List.forall_mem_cons]
          exact ⟨by rw [isHex, hhigh]; rfl, by rw [isHex, hlow]; rfl, ih⟩
  | percent =>
      replace h : PctRun bytes run := h
      show ∀ c ∈ run, isPct c = true
      induction h with
      | nil => simp
      | plain hc _ ih =>
          simp only [List.forall_mem_cons]
          refine ⟨?_, ih⟩
          simp only [isUnreserved, isPct, Bool.or_eq_true, decide_eq_true_eq, List.mem_cons] at *
          tauto
      | escaped b u u' _ ih =>
          have hb := b.toNat_lt
          simp only [List.forall_mem_cons]
          exact ⟨by decide, (hexDigit_spec u (by omega)).2, (hexDigit_spec u' (by omega)).2, ih⟩

end Encoding

/-! ## Characters of the alphabets -/

/-- The alphabets are printable ASCII without blanks. -/
theorem Encoding.alphabet_range {e : Encoding} {c : Char} (h : e.alphabet c = true) :
    33 ≤ c.toNat ∧ c.toNat ≤ 126 := by
  have hlist : ∀ cs : List Char, (∀ x ∈ cs, 33 ≤ x.toNat ∧ x.toNat ≤ 126) →
      (c.isAlphanum || decide (c ∈ cs)) = true → 33 ≤ c.toNat ∧ c.toNat ≤ 126 := by
    intro cs hcs hc
    rcases Bool.or_eq_true_iff.mp hc with hc | hc
    · have := alphanum_range hc
      omega
    · exact hcs c (of_decide_eq_true hc)
  cases e with
  | base64 urlSafe padded => exact hlist _ (by simp) h
  | percent => exact hlist _ (by simp) h
  | hex =>
      simp only [Encoding.alphabet, isHex, hexValue] at h
      split at h
      · rename_i hdigit
        have := alphanum_range (c := c) (by simp [Char.isAlphanum, hdigit])
        omega
      · split at h
        · rename_i hrange
          have hlow : 97 ≤ c.toNat := hrange.1
          have hhigh : c.toNat ≤ 102 := hrange.2
          omega
        · split at h
          · rename_i hrange
            have hlow : 65 ≤ c.toNat := hrange.1
            have hhigh : c.toNat ≤ 70 := hrange.2
            omega
          · cases h

theorem Encoding.alphabet_whitespace (e : Encoding) {c : Char} (h : isWhitespace c = true) :
    e.alphabet c = false := by
  by_contra hne
  have hrange := e.alphabet_range (Bool.eq_true_of_not_eq_false hne)
  simp only [isWhitespace, Bool.or_eq_true, Bool.and_eq_true, decide_eq_true_eq,
    beq_iff_eq] at h
  omega

/-! ## Finding a run -/

section Runs

variable {min : Nat} {isEnc : Char → Bool}

theorem runsFrom_run {run : List Char} (hrun : ∀ c ∈ run, isEnc c = true) (pos start : Nat)
    (opened rest : List Char) :
    runsFrom min isEnc pos (some (start, opened)) (run ++ rest) =
      runsFrom min isEnc (pos + byteLen run) (some (start, opened ++ run)) rest := by
  induction run generalizing pos opened with
  | nil => simp [byteLen]
  | cons c run ih =>
      obtain ⟨hc, hrun⟩ := List.forall_mem_cons.mp hrun
      rw [List.cons_append, runsFrom, if_pos hc, ih hrun]
      simp [byteLen, Nat.add_assoc]

/-- A run that nothing of its alphabet follows, met with no run open. -/
theorem runsFrom_start {run rest : List Char} (hrun : ∀ c ∈ run, isEnc c = true)
    (hmin : min ≤ run.length) (hne : run ≠ [])
    (hrest : ∀ c, rest.head? = some c → isEnc c = false) (pos : Nat) :
    (pos, run) ∈ runsFrom min isEnc pos none (run ++ rest) := by
  cases run with
  | nil => exact absurd rfl hne
  | cons c run =>
      obtain ⟨hc, hrun⟩ := List.forall_mem_cons.mp hrun
      rw [List.cons_append, runsFrom, if_pos hc, runsFrom_run hrun]
      have hflush : (pos, c :: run) ∈ flush min (some (pos, [c] ++ run)) := by
        rw [flush, if_pos (by simpa using hmin)]
        exact List.mem_singleton_self _
      cases rest with
      | nil => exact hflush
      | cons c' rest =>
          rw [runsFrom, if_neg (by simp [hrest c' rfl])]
          exact List.mem_append_left _ hflush

/-- A text that is one run. -/
theorem runs_self {run : List Char} (hrun : ∀ c ∈ run, isEnc c = true) (hmin : min ≤ run.length)
    (hne : 0 < run.length) : runs run min isEnc = [(0, run)] := by
  cases run with
  | nil => cases hne
  | cons c run =>
      obtain ⟨hc, hrest⟩ := List.forall_mem_cons.mp hrun
      have hopen : runsFrom min isEnc (0 + c.utf8Size) (some (0, [c])) (run ++ []) =
          runsFrom min isEnc (0 + c.utf8Size + byteLen run) (some (0, [c] ++ run)) [] :=
        runsFrom_run hrest _ _ _ _
      rw [List.append_nil] at hopen
      rw [runs, runsFrom, if_pos hc, hopen, runsFrom, flush, if_pos (by simpa using hmin)]
      rfl

theorem mem_runsFrom {before run rest : List Char} (hrun : ∀ c ∈ run, isEnc c = true)
    (hmin : min ≤ run.length) (hne : run ≠ [])
    (hrest : ∀ c, rest.head? = some c → isEnc c = false) (pos : Nat)
    (opened : Option (Nat × List Char))
    (hbefore : ∀ c, before.getLast? = some c → isEnc c = false)
    (hopened : before = [] → opened = none) :
    (pos + byteLen before, run) ∈ runsFrom min isEnc pos opened (before ++ (run ++ rest)) := by
  induction before generalizing pos opened with
  | nil =>
      rw [hopened rfl]
      simpa [byteLen] using runsFrom_start hrun hmin hne hrest pos
  | cons c before ih =>
      have hlen : pos + byteLen (c :: before) = pos + c.utf8Size + byteLen before := by
        simp [byteLen, Nat.add_assoc]
      have hlast : ∀ c', before.getLast? = some c' → isEnc c' = false := by
        intro c' hc'
        refine hbefore c' ?_
        rw [List.getLast?_cons, hc']
        rfl
      rw [hlen, List.cons_append, runsFrom.eq_def]
      dsimp only
      split
      · rename_i hc
        refine ih _ _ hlast ?_
        rintro rfl
        rw [hbefore c rfl] at hc
        cases hc
      · exact List.mem_append_right _ (ih _ _ hlast fun _ => rfl)

end Runs

/-- A run between blanks, or at an end of the text. -/
def Delimited (text run : List Char) (offset : Nat) : Prop :=
  ∃ before rest, text = before ++ (run ++ rest) ∧ byteLen before = offset ∧
    (∀ c, before.getLast? = some c → isWhitespace c = true) ∧
      ∀ c, rest.head? = some c → isWhitespace c = true

theorem delimited_self (run : List Char) : Delimited run run 0 :=
  ⟨[], [], by simp, rfl, by simp, by simp⟩

namespace Encoding

variable {e : Encoding} {text run p : List Char} {offset : Nat} {bytes : List UInt8}

theorem mem_runs (h : e.Spells bytes run) (hat : Delimited text run offset)
    (hmin : e.minRun ≤ run.length) : (offset, run) ∈ runs text e.minRun e.alphabet := by
  obtain ⟨before, rest, rfl, rfl, hbefore, hrest⟩ := hat
  have hne : run ≠ [] := by
    rintro rfl
    cases e <;> simp [minRun, minEncodedRun] at hmin
  have hmem := mem_runsFrom (alphabet_of_spells h) hmin hne
    (fun c hc => e.alphabet_whitespace (hrest c hc)) 0 none
    (fun c hc => e.alphabet_whitespace (hbefore c hc)) fun _ => rfl
  rwa [Nat.zero_add] at hmem

theorem blobOf_spells (h : e.Spells bytes run) (htext : looksLikeText bytes = some p)
    (offset : Nat) : blobOf e.kind e.decode (offset, run) = some ⟨offset, e.kind, p⟩ := by
  rw [blobOf, decode_spells h, Option.bind_some, htext, Option.map_some]

theorem mem_decodeOnce (h : e.Spells bytes run) (hat : Delimited text run offset)
    (hmin : e.minRun ≤ run.length) (hescaped : e.Escaped run)
    (htext : looksLikeText bytes = some p) : ⟨offset, e.kind, p⟩ ∈ decodeOnce text := by
  have hmem := mem_runs h hat hmin
  have hblob := blobOf_spells h htext offset
  unfold decodeOnce
  cases e with
  | base64 urlSafe padded =>
      exact List.mem_append_left _ (List.mem_append_left _
        (List.mem_filterMap.mpr ⟨_, hmem, hblob⟩))
  | hex =>
      refine List.mem_append_left _ (List.mem_append_right _
        (List.mem_filterMap.mpr ⟨_, List.mem_filter.mpr ⟨hmem, ?_⟩, hblob⟩))
      exact decide_eq_true (HexRun.even h)
  | percent =>
      refine List.mem_append_right _
        (List.mem_filterMap.mpr ⟨_, List.mem_filter.mpr ⟨hmem, ?_⟩, hblob⟩)
      exact decide_eq_true (hescaped rfl)

end Encoding

/-! ## Text -/

def bytesOf (text : List Char) : List UInt8 := utf8 (String.ofList text)

/-- Printable text within the limits of the scanner. -/
structure Readable (p : List Char) : Prop where
  long : 8 ≤ p.length
  short : (bytesOf p).length ≤ maxDecodeBytes
  printable : ∀ c ∈ p, isPrintable c = true

theorem bytesOf_ne_nil {p : List Char} (h : p ≠ []) : bytesOf p ≠ [] := by
  intro hnil
  have hback := fromUtf8_utf8 (String.ofList p)
  rw [show utf8 (String.ofList p) = utf8 (String.ofList []) from hnil, fromUtf8_utf8] at hback
  exact h (String.ofList_injective (Option.some_inj.mp hback)).symm

theorem looksLikeText_bytesOf {p : List Char} (h : Readable p) :
    looksLikeText (bytesOf p) = some p := by
  have hne : p ≠ [] := by
    rintro rfl
    exact absurd h.long (by decide)
  have hlimits : ¬(bytesOf p = [] ∨ maxDecodeBytes < (bytesOf p).length) := by
    rintro (hnil | hlong)
    · exact bytesOf_ne_nil hne hnil
    · exact absurd h.short (by omega)
  have hall : p.filter isPrintable = p := List.filter_eq_self.mpr h.printable
  rw [looksLikeText, if_neg hlimits, bytesOf, fromUtf8_utf8]
  dsimp only
  rw [String.toList_ofList, hall, if_neg (by have := h.long; omega), if_pos (by omega)]

/-- A run is itself printable text. -/
theorem Encoding.readable {e : Encoding} {bytes : List UInt8} {run : List Char}
    (h : e.Spells bytes run) (hmin : e.minRun ≤ run.length)
    (hshort : (bytesOf run).length ≤ maxDecodeBytes) : Readable run where
  long := by
    refine le_trans ?_ hmin
    cases e <;> simp [Encoding.minRun, minEncodedRun]
  short := hshort
  printable := by
    intro c hc
    have hrange := e.alphabet_range (e.alphabet_of_spells h c hc)
    simp only [isPrintable, isControl, Bool.or_eq_true, Bool.not_eq_true', Bool.or_eq_false_iff,
      decide_eq_false_iff_not, Bool.and_eq_false_iff]
    exact .inl (.inl ⟨by omega, .inl (by omega)⟩)

theorem length_bytesOf (p : List Char) : (bytesOf p).length = byteLen p := by
  rw [bytesOf, utf8, String.toByteArray_ofList, List.utf8Encode, List.data_toByteArray]
  simp [byteLen, List.length_flatMap]

/-! ## Payloads -/

/-- The payload stands in the text in an encoding, alone or encoded twice, in runs that are
long enough; a percent run has three escapes. -/
inductive Hidden (text p : List Char) (offset : Nat) : Prop
  | once (e : Encoding) (run : List Char) (h : e.Spells (bytesOf p) run)
      (hat : Delimited text run offset) (hmin : e.minRun ≤ run.length) (hescaped : e.Escaped run)
  | twice (inner outer : Encoding) (run run' : List Char) (h : inner.Spells (bytesOf p) run)
      (h' : outer.Spells (bytesOf run) run') (hat : Delimited text run' offset)
      (hmin : inner.minRun ≤ run.length) (hmin' : outer.minRun ≤ run'.length)
      (hescaped : inner.Escaped run) (hescaped' : outer.Escaped run')
      (hshort : (bytesOf run).length ≤ maxDecodeBytes)

theorem outer_mem_layersOf (outer : DecodedBlob) : outer ∈ layersOf outer :=
  List.mem_append_right _ (List.mem_singleton_self outer)

/-- A hidden payload is one of the blobs, at the place of its run. -/
theorem Hidden.blob {text p : List Char} {offset : Nat} (h : Hidden text p offset)
    (hp : Readable p) :
    ∃ blob ∈ (decodeOnce text).flatMap layersOf, blob.offset = offset ∧ blob.text = p := by
  cases h with
  | once e run h hat hmin hescaped =>
      have hmem := Encoding.mem_decodeOnce h hat hmin hescaped (looksLikeText_bytesOf hp)
      exact ⟨_, List.mem_flatMap.mpr ⟨_, hmem, outer_mem_layersOf _⟩, rfl, rfl⟩
  | twice inner outer run run' h h' hat hmin hmin' hescaped hescaped' hshort =>
      have houter := Encoding.mem_decodeOnce h' hat hmin' hescaped'
        (looksLikeText_bytesOf (Encoding.readable h hmin hshort))
      have hinner := Encoding.mem_decodeOnce h (delimited_self run) hmin hescaped
        (looksLikeText_bytesOf hp)
      exact ⟨⟨offset, inner.kind, p⟩, List.mem_flatMap.mpr ⟨_, houter,
        List.mem_append_left _ (List.mem_map.mpr ⟨_, hinner, rfl⟩)⟩, rfl, rfl⟩

section Main

variable {R : Regexes} {text : List Char}

theorem Hidden.reported {p : List Char} {offset : Nat} {f : ScanFinding}
    (h : Hidden text p offset) (hfew : (blobCounts text).sum ≤ maxDecodedBlobs)
    (hp : Readable p) (hf : f ∈ scanPlain R p) :
    ∃ f' ∈ scanContent R text, f'.offset = offset ∧ f'.pattern = encodedName f.pattern := by
  obtain ⟨blob, hblob, hoffset, rfl⟩ := h.blob hp
  rw [reported_iff, rawFindings, decodeLayers_of_few hfew]
  exact ⟨f.inBlob blob, List.mem_append_right _
    (List.mem_flatMap.mpr ⟨blob, hblob, List.mem_map_of_mem hf⟩), hoffset, rfl⟩

/-- What the scan gives: the cap holds unless an outer blob passes it; up to the cap every
hidden payload is reported at its run; and no pair is reported twice unless a pattern comes
back at an offset after another one. -/
theorem scan_content_iff (R : Regexes) (text : List Char) :
    ((decodeLayers text).length ≤ maxDecodedBlobs ↔ NeverPassed text) ∧
      ((blobCounts text).sum ≤ maxDecodedBlobs →
        ∀ p offset, Readable p → Hidden text p offset → ∀ f ∈ scanPlain R p,
          ∃ f' ∈ scanContent R text, f'.offset = offset ∧ f'.pattern = encodedName f.pattern) ∧
      (((scanContent R text).map findingKey).Nodup ↔
        ∀ offset, Grouped (patternsAt R text offset)) := by
  refine ⟨decodeLayers_le_iff text, ?_, nodup_scanContent_iff⟩
  intro hfew p offset hp hhidden f hf
  exact hhidden.reported hfew hp hf

end Main

/-! ## A crowded text -/

def filler : List Char := List.replicate 18 'a'

def fillerRun : List Char := b64Encode false false (bytesOf filler)

/-- The filler in base64, again and again. -/
def crowd (n : Nat) : List Char := (List.replicate n (fillerRun ++ [' '])).flatten

theorem byteLen_append (first second : List Char) :
    byteLen (first ++ second) = byteLen first + byteLen second := by
  simp [byteLen]

theorem fillerRun_eq : fillerRun = (List.replicate 6 ['Y', 'W', 'F', 'h']).flatten := by
  have hbytes : bytesOf filler = List.replicate 18 97 := by
    rw [bytesOf, utf8, String.toByteArray_ofList, List.utf8Encode, List.data_toByteArray]
    rfl
  rw [fillerRun, hbytes]
  decide

theorem crowd_succ (n : Nat) : crowd (n + 1) = fillerRun ++ ' ' :: crowd n := by
  rw [crowd, List.replicate_succ, List.flatten_cons, List.append_assoc]
  rfl

theorem byteLen_crowd (n : Nat) : byteLen (crowd n) = n * 25 := by
  have hrun : byteLen fillerRun = 24 := by
    rw [fillerRun_eq]
    decide
  have hblank : byteLen [' '] = 1 := by decide
  induction n with
  | zero => rfl
  | succ n ih =>
      rw [crowd_succ, ← List.singleton_append, byteLen_append, byteLen_append, hrun, hblank, ih]
      omega

theorem crowd_add (i k : Nat) : crowd (i + (k + 1)) = crowd i ++ (fillerRun ++ ' ' :: crowd k) := by
  rw [← crowd_succ, crowd, List.replicate_add, List.flatten_append]
  rfl

theorem crowd_getLast? (n : Nat) (c : Char) (h : (crowd n).getLast? = some c) : c = ' ' := by
  cases n with
  | zero => cases h
  | succ n =>
      rw [crowd, List.replicate_succ', List.flatten_concat, ← List.append_assoc,
        List.getLast?_concat] at h
      exact (Option.some_inj.mp h).symm

theorem mem_crowd {n : Nat} {c : Char} (h : c ∈ crowd n) : c ∈ ['Y', 'W', 'F', 'h', ' '] := by
  rw [crowd, fillerRun_eq] at h
  obtain ⟨l, hl, hc⟩ := List.mem_flatten.mp h
  rw [List.eq_of_mem_replicate hl] at hc
  rcases List.mem_append.mp hc with hc | hc
  · obtain ⟨l, hl, hc⟩ := List.mem_flatten.mp hc
    rw [List.eq_of_mem_replicate hl] at hc
    exact List.mem_append_left [' '] hc
  · exact List.mem_append_right ['Y', 'W', 'F', 'h'] hc

theorem crowd_readable {n : Nat} (hn : 0 < n) (hshort : n * 25 ≤ maxDecodeBytes) :
    Readable (crowd n) where
  long := by
    obtain ⟨n, rfl⟩ := Nat.exists_eq_succ_of_ne_zero hn.ne'
    rw [crowd_succ, fillerRun_eq]
    simp
  short := by rwa [length_bytesOf, byteLen_crowd]
  printable := by
    have hall : ['Y', 'W', 'F', 'h', ' '].all isPrintable = true := by decide
    exact fun c hc => List.all_eq_true.mp hall c (mem_crowd hc)

theorem filler_readable : Readable filler where
  long := by decide
  short := by
    rw [length_bytesOf]
    decide
  printable := by
    intro c hc
    rw [List.eq_of_mem_replicate hc]
    decide

theorem crowd_blob {n i : Nat} (hi : i < n) :
    (⟨i * 25, "base64", filler⟩ : DecodedBlob) ∈ decodeOnce (crowd n) := by
  obtain ⟨k, rfl⟩ := Nat.exists_eq_add_of_lt hi
  have hspells : (Encoding.base64 false false).Spells (bytesOf filler) fillerRun := rfl
  refine Encoding.mem_decodeOnce hspells
    ⟨crowd i, ' ' :: crowd k, crowd_add i k, byteLen_crowd i, ?_, ?_⟩ ?_ (fun h => nomatch h)
    (looksLikeText_bytesOf filler_readable)
  · intro c hc
    rw [crowd_getLast? i c hc]
    decide
  · intro c hc
    obtain rfl : ' ' = c := by simpa using hc
    decide
  · rw [fillerRun_eq]
    decide

theorem crowd_blobs (n : Nat) : n ≤ (decodeOnce (crowd n)).length := by
  have hnodup : ((List.range n).map fun i => (⟨i * 25, "base64", filler⟩ : DecodedBlob)).Nodup := by
    refine List.nodup_range.map ?_
    intro i j hij
    have hoffset := (DecodedBlob.mk.injEq .. ▸ hij).1
    omega
  have hsub : ((List.range n).map fun i => (⟨i * 25, "base64", filler⟩ : DecodedBlob)) ⊆
      decodeOnce (crowd n) := by
    intro blob hblob
    obtain ⟨i, hi, rfl⟩ := List.mem_map.mp hblob
    exact crowd_blob (List.mem_range.mp hi)
  simpa using (hnodup.subperm hsub).length_le

theorem length_b64Encode (urlSafe padded : Bool) (bytes : List UInt8) :
    bytes.length ≤ (b64Encode urlSafe padded bytes).length := by
  induction bytes using b64Encode.induct with
  | case1 => exact Nat.le_refl _
  | case2 a => simp [b64Encode]
  | case3 a b => simp [b64Encode]
  | case4 a b c bytes ih =>
      simp only [b64Encode, List.length_append, List.length_cons, List.length_nil]
      omega

/-- One base64 run around as many blobs as the cap allows takes the scan past it. -/
theorem passed_of_nested {urlSafe padded : Bool} {text run : List Char}
    (h : (Encoding.base64 urlSafe padded).Spells (bytesOf text) run) (htext : Readable text)
    (hlong : minEncodedRun ≤ run.length) (hinner : maxDecodedBlobs ≤ (decodeOnce text).length) :
    ¬NeverPassed run := by
  have hruns : runs run minEncodedRun isB64 = [(0, run)] :=
    runs_self (Encoding.alphabet_of_spells h) hlong (by rw [minEncodedRun] at hlong; omega)
  have hcount : (blobCounts run)[0]? = some (layersOf ⟨0, "base64", text⟩).length := by
    have hblob : blobOf "base64" b64Decode (0, run) = some ⟨0, "base64", text⟩ :=
      Encoding.blobOf_spells h (looksLikeText_bytesOf htext) 0
    rw [blobCounts, decodeOnce, hruns, List.filterMap_cons_some hblob]
    rfl
  intro hpassed
  have hle := hpassed 0 _ hcount (by simp [maxDecodedBlobs])
  simp only [List.take_zero, List.sum_nil, layersOf, List.length_append, List.length_map,
    List.length_singleton] at hle
  omega

theorem cap_passed : ∃ text, ¬(decodeLayers text).length ≤ maxDecodedBlobs := by
  refine ⟨b64Encode false false (bytesOf (crowd 32)), ?_⟩
  rw [decodeLayers_le_iff]
  have hspells : (Encoding.base64 false false).Spells (bytesOf (crowd 32))
      (b64Encode false false (bytesOf (crowd 32))) := rfl
  refine passed_of_nested hspells
    (crowd_readable (by decide) (by decide)) ?_ (crowd_blobs 32)
  have h := length_b64Encode false false (bytesOf (crowd 32))
  rw [length_bytesOf, byteLen_crowd] at h
  rw [minEncodedRun]
  omega

end AgentGrid.Skills
