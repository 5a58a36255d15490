import AgentGrid.Foundation.Scanning
import AgentGrid.Node.RedactorLoop

/-!
# What a redacted line shows of a secret

Every character of an emitted line keeps the bytes of the stream it was decoded
from, through decoding, masking and the mark of a cut line.  An occurrence of a
secret leaks when a line shows enough of its bytes in a row.  The redactor hides
every occurrence that no split or newline cuts and no other match eats into.
-/

namespace AgentGrid.Node

open AgentGrid.Foundation

/-! ## Decoding -/

theorem isContinuation_iff {b : UInt8} :
    isContinuation b = true ↔ 128 ≤ b.toNat ∧ b.toNat ≤ 191 := by
  simp [isContinuation, UInt8.le_iff_toNat_le]

theorem isContinuation_of_second {b0 b1 : UInt8} (h : isSecondByte b0 b1 = true) :
    isContinuation b1 = true := by
  rw [isContinuation_iff]
  simp only [isSecondByte] at h
  split_ifs at h <;>
    simp only [isContinuation, UInt8.le_iff_toNat_le, decide_eq_true_eq, UInt8.reduceToNat] at h <;>
    omega

/-- Only continuation bytes are taken after the first. -/
theorem decodeFirst_taken (b : UInt8) (rest : List UInt8) :
    (decodeFirst b rest).2 ≤ rest.length ∧
      ∀ c ∈ rest.take (decodeFirst b rest).2, isContinuation c = true := by
  have hsecond := @isContinuation_of_second b
  fun_cases decodeFirst b rest
  case case11 => split <;> simp_all
  all_goals simp_all

theorem isSecondByte_of {b0 b1 : UInt8} (hlow : 128 ≤ b1.toNat) (hhigh : b1.toNat ≤ 191)
    (h0 : b0.toNat = 0xE0 → 0xA0 ≤ b1.toNat) (h1 : b0.toNat = 0xED → b1.toNat ≤ 0x9F)
    (h2 : b0.toNat = 0xF0 → 0x90 ≤ b1.toNat) (h3 : b0.toNat = 0xF4 → b1.toNat ≤ 0x8F) :
    isSecondByte b0 b1 = true := by
  simp only [isSecondByte, isContinuation, ← UInt8.toNat_inj, UInt8.le_iff_toNat_le,
    UInt8.reduceToNat]
  split_ifs <;> simp only [decide_eq_true_eq] <;> omega

theorem utf8Width_eq (b : UInt8) :
    utf8Width b = if b.toNat < 0x80 then 1 else if 0xC2 ≤ b.toNat ∧ b.toNat ≤ 0xDF then 2
      else if 0xE0 ≤ b.toNat ∧ b.toNat ≤ 0xEF then 3
      else if 0xF0 ≤ b.toNat ∧ b.toNat ≤ 0xF4 then 4 else 0 := rfl

theorem not_isContinuation_of_width {b : UInt8} (h : utf8Width b ≠ 0) :
    isContinuation b = false := by
  rw [← Bool.not_eq_true, isContinuation_iff]
  rw [utf8Width_eq] at h
  split_ifs at h <;> omega

theorem toNat_byte {n : Nat} (h : n < 256) : (UInt8.ofNat n).toNat = n := by
  rw [UInt8.toNat_ofNat', Nat.mod_eq_of_lt h]

/-- The bytes of a character are read as that character, whatever follows them. -/
theorem decodeFirst_encode (c : Char) (more : List UInt8) :
    ∃ b tail, String.utf8EncodeChar c = b :: tail ∧ utf8Width b = tail.length + 1 ∧
      decodeFirst b (tail ++ more) = (c, tail.length) := by
  have hvalid := c.valid
  rw [UInt32.isValidChar, Nat.isValidChar] at hvalid
  have hchar : ∀ n, n = c.val.toNat → Char.ofNat n = c := by
    rintro n rfl
    exact Char.ofNat_toNat c
  rw [String.utf8EncodeChar]
  generalize c.val.toNat = v at hvalid hchar
  have hlast : (UInt8.ofNat (v % 64 + 128)).toNat = v % 64 + 128 := toNat_byte (by omega)
  have hmid : (UInt8.ofNat (v / 64 % 64 + 128)).toNat = v / 64 % 64 + 128 := toNat_byte (by omega)
  split_ifs with h1 h2 h3
  · have hb : (UInt8.ofNat v).toNat = v := toNat_byte (by omega)
    have hw : utf8Width (UInt8.ofNat v) = 1 := by
      rw [utf8Width_eq, hb, if_pos (by omega)]
    refine ⟨_, _, rfl, hw, ?_⟩
    rw [decodeFirst, hb, hchar v rfl]
    · rfl
    · exact hw
  · have hb : (UInt8.ofNat (v / 64 % 32 + 192)).toNat = v / 64 % 32 + 192 := toNat_byte (by omega)
    have hw : utf8Width (UInt8.ofNat (v / 64 % 32 + 192)) = 2 := by
      rw [utf8Width_eq, hb, if_neg (by omega), if_pos (by omega)]
    have hc : isContinuation (UInt8.ofNat (v % 64 + 128)) = true := by
      rw [isContinuation_iff, hlast]
      omega
    refine ⟨_, _, rfl, hw, ?_⟩
    simp only [List.cons_append, List.nil_append, decodeFirst, hw, hc, if_true, low, hb, hlast]
    rw [hchar _ (by omega)]
    rfl
  · have hb : (UInt8.ofNat (v / 4096 % 16 + 224)).toNat = v / 4096 % 16 + 224 :=
      toNat_byte (by omega)
    have hw : utf8Width (UInt8.ofNat (v / 4096 % 16 + 224)) = 3 := by
      rw [utf8Width_eq, hb, if_neg (by omega), if_neg (by omega), if_pos (by omega)]
    have hs : isSecondByte (UInt8.ofNat (v / 4096 % 16 + 224))
        (UInt8.ofNat (v / 64 % 64 + 128)) = true := by
      apply isSecondByte_of <;> rw [hmid] <;> try rw [hb]
      all_goals omega
    have hc : isContinuation (UInt8.ofNat (v % 64 + 128)) = true := by
      rw [isContinuation_iff, hlast]
      omega
    refine ⟨_, _, rfl, hw, ?_⟩
    simp only [List.cons_append, List.nil_append, decodeFirst, hw, hs, hc, if_true, low, hb,
      hlast, hmid]
    rw [hchar _ (by omega)]
    rfl
  · have hb : (UInt8.ofNat (v / 262144 % 8 + 240)).toNat = v / 262144 % 8 + 240 :=
      toNat_byte (by omega)
    have hsnd : (UInt8.ofNat (v / 4096 % 64 + 128)).toNat = v / 4096 % 64 + 128 :=
      toNat_byte (by omega)
    have hw : utf8Width (UInt8.ofNat (v / 262144 % 8 + 240)) = 4 := by
      rw [utf8Width_eq, hb, if_neg (by omega), if_neg (by omega), if_neg (by omega),
        if_pos (by omega)]
    have hs : isSecondByte (UInt8.ofNat (v / 262144 % 8 + 240))
        (UInt8.ofNat (v / 4096 % 64 + 128)) = true := by
      apply isSecondByte_of <;> rw [hsnd] <;> try rw [hb]
      all_goals omega
    have hc : isContinuation (UInt8.ofNat (v % 64 + 128)) = true := by
      rw [isContinuation_iff, hlast]
      omega
    have hc' : isContinuation (UInt8.ofNat (v / 64 % 64 + 128)) = true := by
      rw [isContinuation_iff, hmid]
      omega
    refine ⟨_, _, rfl, hw, ?_⟩
    simp only [List.cons_append, List.nil_append, decodeFirst, hw, hs, hc, hc', if_true, low, hb,
      hlast, hmid, hsnd]
    rw [hchar _ (by omega)]
    rfl

theorem bytes_eq (s : String) :
    s.toUTF8.data.toList = s.toList.flatMap String.utf8EncodeChar := by
  rw [String.toUTF8_eq_toByteArray, ← String.utf8Encode_toList, List.utf8Encode]
  simp

theorem length_secretBytes (s : String) : s.toUTF8.data.toList.length = s.utf8ByteSize := by
  rw [String.toUTF8_eq_toByteArray, Array.length_toList]
  exact String.size_toByteArray

/-! ## Characters and the bytes they stand for -/

/-- A character with the place and number of the bytes it was decoded from. -/
structure Cell where
  char : Char
  origin : Option (Nat × Nat)
deriving DecidableEq

/-- `decodeLossy` on bytes that begin at a place of the stream. -/
def decodeCells : Nat → Nat → List UInt8 → List Cell
  | _, _, [] => []
  | pos, skip + 1, _ :: rest => decodeCells (pos + 1) skip rest
  | pos, 0, b :: rest =>
      ⟨(decodeFirst b rest).1,
        if (decodeFirst b rest).2 + 1 = utf8Width b then some (pos, (decodeFirst b rest).2 + 1)
        else none⟩ :: decodeCells (pos + 1) (decodeFirst b rest).2 rest

/-- The characters of a text that stands at a place of the stream. -/
def charCells : Nat → List Char → List Cell
  | _, [] => []
  | pos, c :: cs => ⟨c, some (pos, c.utf8Size)⟩ :: charCells (pos + c.utf8Size) cs

theorem decodeCells_char (pos skip : Nat) (bytes : List UInt8) :
    (decodeCells pos skip bytes).map Cell.char = decodeLossy skip bytes := by
  induction bytes generalizing pos skip with
  | nil => simp [decodeCells, decodeLossy]
  | cons b rest ih => cases skip <;> simp [decodeCells, decodeLossy, ih]

theorem charCells_char (pos : Nat) (cs : List Char) : (charCells pos cs).map Cell.char = cs := by
  induction cs generalizing pos with
  | nil => rfl
  | cons c cs ih => simp [charCells, ih]

theorem decodeCells_within {pos skip : Nat} {bytes : List UInt8} {cell : Cell} {p n : Nat}
    (h : cell ∈ decodeCells pos skip bytes) (horigin : cell.origin = some (p, n)) :
    pos + skip ≤ p ∧ p + n ≤ pos + bytes.length := by
  induction bytes generalizing pos skip with
  | nil => simp [decodeCells] at h
  | cons b rest ih =>
      cases skip with
      | succ skip =>
          have hrest := ih h
          simp only [List.length_cons]
          omega
      | zero =>
          rw [decodeCells, List.mem_cons] at h
          rcases h with rfl | h
          · have htaken := (decodeFirst_taken b rest).1
            dsimp only at horigin
            split at horigin
            · cases horigin
              simp only [List.length_cons]
              omega
            · cases horigin
          · have hrest := ih h
            simp only [List.length_cons]
            omega

theorem decodeCells_skip (pos : Nat) (taken rest : List UInt8) :
    decodeCells pos taken.length (taken ++ rest) = decodeCells (pos + taken.length) 0 rest := by
  induction taken generalizing pos with
  | nil => rfl
  | cons b taken ih =>
      rw [List.length_cons, List.cons_append, decodeCells, ih]
      congr 1
      omega

/-- Decoding is in step again at any byte that begins a character. -/
theorem decodeCells_append {rest : List UInt8}
    (hrest : ∀ b tail, rest = b :: tail → isContinuation b = false) (pos skip : Nat)
    (before : List UInt8) (hskip : skip ≤ before.length) :
    ∃ cells, decodeCells pos skip (before ++ rest) =
        cells ++ decodeCells (pos + before.length) 0 rest ∧
      ∀ cell ∈ cells, ∀ p n, cell.origin = some (p, n) → p + n ≤ pos + before.length := by
  induction before generalizing pos skip with
  | nil =>
      obtain rfl : skip = 0 := by simpa using hskip
      exact ⟨[], rfl, by simp⟩
  | cons b before ih =>
      cases skip with
      | succ skip =>
          obtain ⟨cells, hcells, hends⟩ := ih (pos + 1) skip (by simpa using hskip)
          refine ⟨cells, ?_, ?_⟩
          · rw [List.cons_append, decodeCells, hcells, List.length_cons]
            congr 2
            omega
          · intro cell hcell p n horigin
            have hend := hends cell hcell p n horigin
            simp only [List.length_cons]
            omega
      | zero =>
          obtain ⟨htaken, hcontinue⟩ := decodeFirst_taken b (before ++ rest)
          have hinside : (decodeFirst b (before ++ rest)).2 ≤ before.length := by
            by_contra hbeyond
            cases rest with
            | nil =>
                rw [List.append_nil] at htaken hbeyond
                omega
            | cons first tail =>
                have hmem : first ∈ (before ++ first :: tail).take
                    (decodeFirst b (before ++ first :: tail)).2 := by
                  rw [List.mem_take_iff_getElem]
                  refine ⟨before.length, by simp; omega, by simp⟩
                have hfirst := hcontinue first hmem
                rw [hrest first tail rfl] at hfirst
                cases hfirst
          obtain ⟨cells, hcells, hends⟩ :=
            ih (pos + 1) (decodeFirst b (before ++ rest)).2 hinside
          refine ⟨⟨(decodeFirst b (before ++ rest)).1,
            if (decodeFirst b (before ++ rest)).2 + 1 = utf8Width b then
              some (pos, (decodeFirst b (before ++ rest)).2 + 1) else none⟩ :: cells, ?_, ?_⟩
          · rw [List.cons_append, decodeCells, hcells, List.length_cons, List.cons_append]
            congr 3
            omega
          · intro cell hcell p n horigin
            rcases List.mem_cons.mp hcell with rfl | hcell
            · dsimp only at horigin
              split at horigin
              · cases horigin
                simp only [List.length_cons]
                omega
              · cases horigin
            · have hend := hends cell hcell p n horigin
              simp only [List.length_cons]
              omega

/-- The bytes of a text are decoded to its characters. -/
theorem decodeCells_chars (pos : Nat) (cs : List Char) (rest : List UInt8) :
    decodeCells pos 0 (cs.flatMap String.utf8EncodeChar ++ rest) =
      charCells pos cs ++
        decodeCells (pos + (cs.flatMap String.utf8EncodeChar).length) 0 rest := by
  induction cs generalizing pos with
  | nil => rfl
  | cons c cs ih =>
      have hsize := String.length_utf8EncodeChar c
      obtain ⟨b, tail, hbytes, hwidth, -⟩ := decodeFirst_encode c []
      obtain ⟨b', tail', hbytes', -, hfirst⟩ :=
        decodeFirst_encode c (cs.flatMap String.utf8EncodeChar ++ rest)
      rw [hbytes] at hbytes'
      cases hbytes'
      rw [hbytes, List.length_cons] at hsize
      rw [List.flatMap_cons, hbytes, List.append_assoc, List.cons_append, decodeCells, hfirst]
      dsimp only
      rw [if_pos hwidth.symm, decodeCells_skip, ih, charCells, hsize]
      simp only [List.cons_append, List.length_cons, List.length_append]
      congr 3
      · omega
      · omega

theorem starts_char {cs : List Char} {b : UInt8} {rest tail : List UInt8}
    (hcs : cs ≠ []) (h : cs.flatMap String.utf8EncodeChar ++ rest = b :: tail) :
    isContinuation b = false := by
  obtain ⟨c, cs, rfl⟩ := List.exists_cons_of_ne_nil hcs
  obtain ⟨first, others, hbytes, hwidth, -⟩ := decodeFirst_encode c []
  rw [List.flatMap_cons, hbytes] at h
  simp only [List.cons_append, List.cons.injEq] at h
  rw [← h.1]
  exact not_isContinuation_of_width (by omega)

/-! ## Masking -/

def starCells : List Cell := stars.map fun c => ⟨c, none⟩

def cellParts (pattern : List Char) (s : List Cell) : List (Passage Cell) :=
  if pattern.isEmpty then Passage.between s else Passage.scan Cell.char pattern 0 s

/-- `replaceAll` on characters that keep their bytes. -/
def replaceCells (s : List Cell) (pattern : List Char) : List Cell :=
  Passage.replaced starCells (cellParts pattern s)

theorem text_cellParts (pattern : List Char) (s : List Cell) :
    Passage.text (cellParts pattern s) = s := by
  rw [cellParts]
  split
  · exact Passage.text_between s
  · rename_i hpattern
    rw [Passage.text_scan _ (by simpa using hpattern), List.drop_zero]

theorem replaceCells_char (s : List Cell) (pattern : List Char) :
    (replaceCells s pattern).map Cell.char = replaceAll pattern stars (s.map Cell.char) := by
  have hstars : starCells.map Cell.char = stars := rfl
  rw [replaceCells, cellParts, replaceAll]
  split
  · have h : (Passage.replaced starCells (s.flatMap fun a => [Passage.kept a, .found []])).map
        Cell.char = (s.map Cell.char).flatMap fun c => c :: stars := by
      induction s with
      | nil => rfl
      | cons cell s ih => simp [ih, hstars]
    simp [Passage.between, h, hstars]
  · have h : ∀ skip, (Passage.replaced starCells (Passage.scan Cell.char pattern skip s)).map Cell.char =
        replaceFrom pattern stars skip (s.map Cell.char) := by
      induction s with
      | nil => simp [Passage.scan, replaceFrom]
      | cons cell s ih =>
          intro skip
          cases skip with
          | succ skip => simp [Passage.scan, replaceFrom, ih]
          | zero =>
              rw [Passage.scan, List.map_cons, replaceFrom]
              split <;> simp [ih, hstars]
    exact h 0

namespace StreamingRedactor

/-- What `mask_secrets` replaces, in its order. -/
def patterns (R : StreamingRedactor) : List (List Char) :=
  R.secrets.flatMap fun secret =>
    if R.minLen ≤ secret.utf8ByteSize then
      [secret.toList, base64Encode secret.toUTF8.data.toList, urlEncode secret.toUTF8.data.toList]
    else []

def maskCells (R : StreamingRedactor) (s : List Cell) : List Cell :=
  R.patterns.foldl replaceCells s

/-- The line of a piece that begins at a place of the stream. -/
def cells (R : StreamingRedactor) (start : Nat) (p : Piece) : List Cell :=
  if p.forced then
    R.maskCells (decodeCells start 0 p.window) ++ truncationMark.map fun c => ⟨c, none⟩
  else R.maskCells (decodeCells start 0 p.window)

theorem maskCells_char (R : StreamingRedactor) (s : List Cell) :
    (R.maskCells s).map Cell.char = maskSecrets R (s.map Cell.char) := by
  rw [maskCells, patterns, maskSecrets]
  induction R.secrets generalizing s with
  | nil => rfl
  | cons secret secrets ih =>
      rw [List.flatMap_cons, List.foldl_append, ih, List.foldl_cons]
      congr 1
      split <;> simp [replaceCells_char]

theorem cells_char (R : StreamingRedactor) (start : Nat) (p : Piece) :
    (R.cells start p).map Cell.char = R.line p := by
  have hmask : (R.maskCells (decodeCells start 0 p.window)).map Cell.char = maskLine R p.window := by
    rw [maskCells_char, decodeCells_char]
    rfl
  rw [cells, line]
  split
  · simp [hmask, Function.comp_def]
  · exact hmask

end StreamingRedactor

end AgentGrid.Node
