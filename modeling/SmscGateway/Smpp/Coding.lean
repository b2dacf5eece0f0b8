import SmscGateway.Common.BigEndian
import SmscGateway.Common.Bits
import SmscGateway.Common.Runes

/-!
# Data codings

How a text becomes the bytes of a message under a `data_coding`. The default
alphabet has a seven-bit code for each character, or two for a character of its
extension table, and packs the codes into bytes without gaps. `bitAt_packed`
says what the packing loops leave in every bit.
-/

namespace SmscGateway

open List

namespace Smpp

def dataCodingDefault : UInt8 := 0x00
def dataCodingIA5 : UInt8 := 0x01
def dataCodingLatin1 : UInt8 := 0x03
def dataCodingBinary : UInt8 := 0x04
def dataCodingUCS2 : UInt8 := 0x08

/-- The errors of this file, with what their texts name. -/
inductive CodingError
  /-- The character cannot be encoded in the GSM 7-bit alphabet. -/
  | gsm7 (r : Char)
  /-- The character cannot be encoded in Latin-1. -/
  | latin1 (r : Char)
  /-- The character cannot be encoded in IA5/ASCII. -/
  | ia5 (r : Char)
  /-- GSM7 data too short: the byte that is needed, and how many there are. -/
  | gsm7TooShort (bytePos length : ℕ)
  /-- UCS2 data has odd length. -/
  | oddLength (length : ℕ)
  /-- Unsupported data coding. -/
  | unsupported (coding : UInt8)
  deriving DecidableEq

/-! ## The default alphabet -/

/-- `gsm7Default`: the character of each code. -/
def gsm7Default : List Char := [
  '@', '£', '$', '¥', 'è', 'é', 'ù', 'ì',
  'ò', 'Ç', '\n', 'Ø', 'ø', '\r', 'Å', 'å',
  'Δ', '_', 'Φ', 'Γ', 'Λ', 'Ω', 'Π', 'Ψ',
  'Σ', 'Θ', 'Ξ', '\x1B', 'Æ', 'æ', 'ß', 'É',
  ' ', '!', '\x22', '#', '¤', '%', '&', '\x27',
  '(', ')', '*', '+', ',', '-', '.', '/',
  '0', '1', '2', '3', '4', '5', '6', '7',
  '8', '9', ':', ';', '<', '=', '>', '?',
  '¡', 'A', 'B', 'C', 'D', 'E', 'F', 'G',
  'H', 'I', 'J', 'K', 'L', 'M', 'N', 'O',
  'P', 'Q', 'R', 'S', 'T', 'U', 'V', 'W',
  'X', 'Y', 'Z', 'Ä', 'Ö', 'Ñ', 'Ü', '§',
  '¿', 'a', 'b', 'c', 'd', 'e', 'f', 'g',
  'h', 'i', 'j', 'k', 'l', 'm', 'n', 'o',
  'p', 'q', 'r', 's', 't', 'u', 'v', 'w',
  'x', 'y', 'z', 'ä', 'ö', 'ñ', 'ü', 'à']

/-- `gsm7Extension`: the characters behind an escape. -/
def gsm7Extension : List (UInt8 × Char) := [
  (0x0A, '\x0C'), (0x14, '^'), (0x28, '\x7b'), (0x29, '\x7d'), (0x2F, '\x5c'), (0x3C, '['),
  (0x3D, '~'), (0x3E, ']'), (0x40, '|'), (0x65, '€')]

/-- The escape code. -/
def gsm7Escape : UInt8 := 0x1B

/-- `unicodeToGSM7`, which has no entry for the escape. -/
def unicodeToGSM7 : List (Char × UInt8) :=
  (gsm7Default.zipIdx.filter fun (_, i) => i ≠ 0x1B).map fun (r, i) => (r, UInt8.ofNat i)

/-- `unicodeToGSM7Ext`. -/
def unicodeToGSM7Ext : List (Char × UInt8) := gsm7Extension.map fun (code, r) => (r, code)

/-- `isGSM7`. -/
def isGSM7 (r : Char) : Bool :=
  (unicodeToGSM7.lookup r).isSome || (unicodeToGSM7Ext.lookup r).isSome

/-- The codes of a character. -/
def gsm7Septets (r : Char) : Except CodingError Bytes :=
  match unicodeToGSM7.lookup r with
  | some code => .ok [code]
  | none =>
    match unicodeToGSM7Ext.lookup r with
    | some ext => .ok [gsm7Escape, ext]
    | none => .error (.gsm7 r)

/-- The first pass of `EncodeGSM7`. -/
def toSeptets : List Char → Except CodingError Bytes
  | [] => .ok []
  | r :: l =>
    match gsm7Septets r with
    | .error e => .error e
    | .ok codes => (toSeptets l).map (codes ++ ·)

/-- One turn of the packing loop. -/
def packSeptet (packed : Bytes) (i : ℕ) (s : UInt8) : Bytes :=
  let bytePos := i * 7 / 8
  let bitPos := i * 7 % 8
  let packed := packed.modify bytePos (· ||| s <<< UInt8.ofNat bitPos)
  if bitPos > 1 ∧ bytePos + 1 < packed.length then
    packed.modify (bytePos + 1) (· ||| s >>> UInt8.ofNat (8 - bitPos))
  else packed

/-- The packing loop from septet `i` on. -/
def packFrom (packed : Bytes) (i : ℕ) : Bytes → Bytes
  | [] => packed
  | s :: l => packFrom (packSeptet packed i s) (i + 1) l

/-- The fill code, a carriage return. -/
def gsm7CR : UInt8 := 0x0D

/-- The fill loop, `j` turns of it. -/
def fillCR (packed : Bytes) (startBit : ℕ) : ℕ → Bytes
  | 0 => packed
  | j + 1 =>
    let packed := fillCR packed startBit j
    let bitIdx := startBit + j
    if bitIdx / 8 < packed.length then
      packed.modify (bitIdx / 8)
        (· ||| ((gsm7CR >>> UInt8.ofNat j) &&& 1) <<< UInt8.ofNat (bitIdx % 8))
    else packed

/-- The second pass: packing, and filling when seven bits are left over. -/
def packed (septets : Bytes) : Bytes :=
  let numSeptets := septets.length
  let packedLen := (numSeptets * 7 + 7) / 8
  let packed := packFrom (List.replicate packedLen 0) 0 septets
  if packedLen * 8 - numSeptets * 7 = 7 ∧ 0 < packedLen then fillCR packed (numSeptets * 7) 7
  else packed

/-- `EncodeGSM7`: the bytes and the number of septets. -/
def encodeGSM7 (text : Bytes) : Except CodingError (Bytes × ℕ) :=
  (toSeptets (runes text)).map fun septets => (packed septets, septets.length)

/-- One turn of the unpacking loop of `DecodeGSM7`. -/
def septetAt (data : Bytes) (i : ℕ) : Except CodingError UInt8 :=
  let bytePos := i * 7 / 8
  let bitPos := i * 7 % 8
  if data.length ≤ bytePos then .error (.gsm7TooShort bytePos data.length)
  else
    let s := (data.getD bytePos 0 >>> UInt8.ofNat bitPos) &&& 0x7F
    if bitPos > 1 ∧ bytePos + 1 < data.length then
      .ok (s ||| (data.getD (bytePos + 1) 0 <<< UInt8.ofNat (8 - bitPos)) &&& 0x7F)
    else .ok s

/-- The second loop of `DecodeGSM7`; the flag is set behind an escape. -/
def fromSeptets : Bool → Bytes → List Char
  | _, [] => []
  | true, s :: l => (gsm7Extension.lookup s).getD ' ' :: fromSeptets false l
  | false, s :: l =>
    if s = gsm7Escape then fromSeptets true l
    else gsm7Default.getD s.toNat '@' :: fromSeptets false l

/-- `DecodeGSM7`. -/
def decodeGSM7 (data : Bytes) (numSeptets : ℕ) : Except CodingError Bytes :=
  ((List.range numSeptets).mapM (septetAt data)).map fun septets =>
    encodeRunes (fromSeptets false septets)

/-! ## The other codings -/

/-- The UTF-16 words of a character. -/
def utf16Words (r : Char) : List ℕ :=
  if r.toNat < 0x10000 then [r.toNat]
  else [0xD800 + (r.toNat - 0x10000) / 0x400, 0xDC00 + (r.toNat - 0x10000) % 0x400]

/-- `EncodeUCS2`. -/
def encodeUCS2 (text : Bytes) : Bytes :=
  ((runes text).flatMap utf16Words).flatMap (bigEndian 2)

/-- A word that is not part of a pair. -/
def utf16Single (w : ℕ) : Char :=
  if 0xD800 ≤ w ∧ w < 0xE000 then runeError else Char.ofNat w

/-- `utf16.Decode`. -/
def utf16Decode : List ℕ → List Char
  | [] => []
  | [w] => [utf16Single w]
  | w :: w' :: ws =>
    if (0xD800 ≤ w ∧ w < 0xDC00) ∧ 0xDC00 ≤ w' ∧ w' < 0xE000 then
      Char.ofNat (0x10000 + (w - 0xD800) * 0x400 + (w' - 0xDC00)) :: utf16Decode ws
    else utf16Single w :: utf16Decode (w' :: ws)

/-- The sixteen-bit words of data of even length. -/
def words : Bytes → List ℕ
  | a :: b :: l => ofBigEndian [a, b] :: words l
  | _ => []

/-- `DecodeUCS2`. -/
def decodeUCS2 (data : Bytes) : Except CodingError Bytes :=
  if data.length % 2 ≠ 0 then .error (.oddLength data.length)
  else .ok (encodeRunes (utf16Decode (words data)))

/-- One byte for each character up to a limit. -/
def narrow (limit : ℕ) (error : Char → CodingError) : List Char → Except CodingError Bytes
  | [] => .ok []
  | r :: l =>
    if limit < r.toNat then .error (error r)
    else (narrow limit error l).map (UInt8.ofNat r.toNat :: ·)

/-- `EncodeLatin1`. -/
def encodeLatin1 (text : Bytes) : Except CodingError Bytes := narrow 0xFF .latin1 (runes text)

/-- `DecodeLatin1`. -/
def decodeLatin1 (data : Bytes) : Bytes := encodeRunes (data.map fun b => Char.ofNat b.toNat)

/-- `EncodeIA5`. -/
def encodeIA5 (text : Bytes) : Except CodingError Bytes := narrow 0x7F .ia5 (runes text)

/-- `DecodeIA5`. -/
def decodeIA5 (data : Bytes) : Bytes := data

/-! ## Dispatch -/

/-- `Encode`. -/
def encode (text : Bytes) (coding : UInt8) : Except CodingError Bytes :=
  if coding = dataCodingDefault then (encodeGSM7 text).map Prod.fst
  else if coding = dataCodingIA5 then encodeIA5 text
  else if coding = dataCodingLatin1 then encodeLatin1 text
  else if coding = dataCodingBinary then .ok text
  else if coding = dataCodingUCS2 then .ok (encodeUCS2 text)
  else .error (.unsupported coding)

/-- `Decode`; for the default alphabet the number of septets is a guess. -/
def decode (data : Bytes) (coding : UInt8) : Except CodingError Bytes :=
  if coding = dataCodingDefault then decodeGSM7 data (data.length * 8 / 7)
  else if coding = dataCodingIA5 then .ok (decodeIA5 data)
  else if coding = dataCodingLatin1 then .ok (decodeLatin1 data)
  else if coding = dataCodingBinary then .ok data
  else if coding = dataCodingUCS2 then decodeUCS2 data
  else .error (.unsupported coding)

/-- `DetectCoding`. -/
def detectCoding (text : Bytes) : UInt8 :=
  if (runes text).all isGSM7 then dataCodingDefault else dataCodingUCS2

/-- The text "hi" packed, and "€" in both codings. -/
example : encode (ascii "hi") dataCodingDefault = .ok [0xE8, 0x34] ∧
    encode [0xE2, 0x82, 0xAC] dataCodingDefault = .ok [0x9B, 0x32] ∧
    encode [0xE2, 0x82, 0xAC] dataCodingUCS2 = .ok [0x20, 0xAC] ∧
    decode [0xE8, 0x34] dataCodingDefault = .ok (ascii "hi") := by decide +kernel

/-! ## Packing -/

/-- Septets have seven bits. -/
def IsSeptets (l : Bytes) : Prop := ∀ s ∈ l, s.toNat < 128

variable {r : Char} {septets l : Bytes}

/-- What is found in a table is in it. -/
theorem mem_of_lookup {l : List (Char × UInt8)} {code : UInt8} (h : l.lookup r = some code) :
    (r, code) ∈ l := by
  obtain ⟨l₁, l₂, rfl, -⟩ := lookup_eq_some_iff.mp h
  simp

theorem isSeptets_gsm7Septets {codes : Bytes} (h : gsm7Septets r = .ok codes) :
    IsSeptets codes := by
  have hbasic : ∀ p ∈ unicodeToGSM7, p.2.toNat < 128 := by decide +kernel
  have hext : ∀ p ∈ unicodeToGSM7Ext, p.2.toNat < 128 := by decide +kernel
  rw [gsm7Septets] at h
  split at h
  · rename_i code hcode
    obtain rfl := Except.ok.inj h
    intro s hs
    rw [mem_singleton.mp hs]
    exact hbasic _ (mem_of_lookup hcode)
  · split at h
    · rename_i ext hcode
      obtain rfl := Except.ok.inj h
      intro s hs
      rcases mem_cons.mp hs with rfl | hs
      · decide
      · rw [mem_singleton.mp hs]
        exact hext _ (mem_of_lookup hcode)
    · cases h

/-- The codes of a text, character by character. -/
theorem toSeptets_cons {l : List Char} (h : toSeptets (r :: l) = .ok septets) :
    ∃ codes rest, gsm7Septets r = .ok codes ∧ toSeptets l = .ok rest ∧ septets = codes ++ rest := by
  rw [toSeptets] at h
  cases hr : gsm7Septets r with
  | error e =>
    rw [hr] at h
    cases h
  | ok codes =>
    rw [hr] at h
    cases hl : toSeptets l with
    | error e =>
      rw [hl] at h
      cases h
    | ok rest =>
      rw [hl] at h
      exact ⟨codes, rest, rfl, rfl, (Except.ok.inj h).symm⟩

theorem isSeptets_toSeptets {l : List Char} (h : toSeptets l = .ok septets) :
    IsSeptets septets := by
  induction l generalizing septets with
  | nil =>
    obtain rfl := Except.ok.inj h
    exact fun s hs => absurd hs not_mem_nil
  | cons r l ih =>
    obtain ⟨codes, rest, hcodes, hrest, rfl⟩ := toSeptets_cons h
    intro s hs
    rcases mem_append.mp hs with hs | hs
    · exact isSeptets_gsm7Septets hcodes s hs
    · exact ih hrest s hs

theorem length_packSeptet (l : Bytes) (i : ℕ) (s : UInt8) : (packSeptet l i s).length = l.length := by
  rw [packSeptet]
  split <;> simp

/-- **One turn of the packing loop** sets the bits of its septet. -/
theorem bitAt_packSeptet {i : ℕ} {s : UInt8} (hs : s.toNat < 128)
    (hlen : 7 * (i + 1) ≤ 8 * l.length) (k : ℕ) : bitAt 8 (packSeptet l i s) k =
      (bitAt 8 l k || (decide (7 * i ≤ k ∧ k < 7 * i + 7) && s.toNat.testBit (k - 7 * i))) := by
  have hk : k % 8 < 8 := Nat.mod_lt _ (by omega)
  have hb : i * 7 % 8 < 8 := Nat.mod_lt _ (by omega)
  have hp : i * 7 / 8 < l.length := by omega
  -- the eighth bit of a septet is not set
  have hhigh : ∀ j, 7 ≤ j → s.toNat.testBit j = false := by
    intro j hj
    have hpow : 2 ^ 7 ≤ 2 ^ j := Nat.pow_le_pow_right (by decide) hj
    exact Nat.testBit_lt_two_pow (lt_of_lt_of_le hs hpow)
  have hfirst := bitAt_modify_or hp (s <<< UInt8.ofNat (i * 7 % 8)) k
  rw [testBit_shiftLeft s hb hk] at hfirst
  rw [packSeptet, length_modify]
  by_cases hsplit : i * 7 % 8 > 1 ∧ i * 7 / 8 + 1 < l.length
  · -- the septet goes on in the next byte
    have hp' : i * 7 / 8 + 1 < (l.modify (i * 7 / 8) (· ||| s <<< UInt8.ofNat (i * 7 % 8))).length := by
      rw [length_modify]
      exact hsplit.2
    rw [if_pos hsplit, bitAt_modify_or hp', hfirst,
      testBit_shiftRight s (by omega : 8 - i * 7 % 8 < 8)]
    rw [Bool.or_assoc]
    congr 1
    by_cases hk₁ : k / 8 = i * 7 / 8
    · have hne : ¬ k / 8 = i * 7 / 8 + 1 := by omega
      rw [decide_eq_true hk₁, decide_eq_false hne, Bool.true_and, Bool.false_and, Bool.or_false]
      by_cases hle : i * 7 % 8 ≤ k % 8
      · have hin : 7 * i ≤ k ∧ k < 7 * i + 7 := by omega
        rw [decide_eq_true hle, decide_eq_true hin, show k % 8 - i * 7 % 8 = k - 7 * i by omega]
      · have hout : ¬ (7 * i ≤ k ∧ k < 7 * i + 7) := by omega
        rw [decide_eq_false hle, decide_eq_false hout, Bool.false_and, Bool.false_and]
    · rw [decide_eq_false hk₁, Bool.false_and, Bool.false_or]
      by_cases hk₂ : k / 8 = i * 7 / 8 + 1
      · rw [decide_eq_true hk₂, Bool.true_and, show 8 - i * 7 % 8 + k % 8 = k - 7 * i by omega]
        by_cases hlt : k < 7 * i + 7
        · have hin : 7 * i ≤ k ∧ k < 7 * i + 7 := by omega
          rw [decide_eq_true hin, Bool.true_and]
        · rw [hhigh (k - 7 * i) (by omega), Bool.and_false]
      · have hout : ¬ (7 * i ≤ k ∧ k < 7 * i + 7) := by omega
        rw [decide_eq_false hk₂, decide_eq_false hout, Bool.false_and, Bool.false_and]
  · -- the septet ends in its byte
    have hsmall : i * 7 % 8 ≤ 1 := by omega
    rw [if_neg hsplit, hfirst]
    congr 1
    by_cases hk₁ : k / 8 = i * 7 / 8
    · rw [decide_eq_true hk₁, Bool.true_and]
      by_cases hle : i * 7 % 8 ≤ k % 8
      · rw [decide_eq_true hle, Bool.true_and, show k % 8 - i * 7 % 8 = k - 7 * i by omega]
        by_cases hlt : k < 7 * i + 7
        · have hin : 7 * i ≤ k ∧ k < 7 * i + 7 := by omega
          rw [decide_eq_true hin, Bool.true_and]
        · rw [hhigh (k - 7 * i) (by omega), Bool.and_false]
      · have hout : ¬ (7 * i ≤ k ∧ k < 7 * i + 7) := by omega
        rw [decide_eq_false hle, decide_eq_false hout, Bool.false_and, Bool.false_and]
    · have hout : ¬ (7 * i ≤ k ∧ k < 7 * i + 7) := by omega
      rw [decide_eq_false hk₁, decide_eq_false hout, Bool.false_and, Bool.false_and]

theorem length_packFrom (septets l : Bytes) (i : ℕ) : (packFrom l i septets).length = l.length := by
  induction septets generalizing l i with
  | nil => rfl
  | cons s septets ih => rw [packFrom, ih, length_packSeptet]

/-- The packing loop. -/
theorem bitAt_packFrom {i : ℕ} (hs : IsSeptets septets)
    (hlen : 7 * (i + septets.length) ≤ 8 * l.length) (k : ℕ) : bitAt 8 (packFrom l i septets) k =
      (bitAt 8 l k || (decide (7 * i ≤ k) && bitAt 7 septets (k - 7 * i))) := by
  induction septets generalizing l i with
  | nil => simp [packFrom]
  | cons s septets ih =>
    rw [length_cons] at hlen
    have hrest : IsSeptets septets := fun x hx => hs x (mem_cons_of_mem _ hx)
    have hlen' : 7 * (i + 1 + septets.length) ≤ 8 * (packSeptet l i s).length := by
      rw [length_packSeptet]
      omega
    rw [packFrom, ih hrest hlen', bitAt_packSeptet (hs s mem_cons_self) (by omega),
      bitAt_cons (by omega), Bool.or_assoc]
    congr 1
    -- the bit is before, in or behind the septet
    rcases lt_or_ge k (7 * i) with hbefore | hge
    · have h₁ : ¬ (7 * i ≤ k ∧ k < 7 * i + 7) := by omega
      have h₂ : ¬ 7 * (i + 1) ≤ k := by omega
      have h₃ : ¬ 7 * i ≤ k := by omega
      simp only [decide_eq_false h₁, decide_eq_false h₂, decide_eq_false h₃, Bool.false_and,
        Bool.or_false]
    · rcases lt_or_ge k (7 * i + 7) with hin | hbehind
      · have h₂ : ¬ 7 * (i + 1) ≤ k := by omega
        rw [decide_eq_true ⟨hge, hin⟩, decide_eq_false h₂, decide_eq_true hge,
          if_pos (by omega : k - 7 * i < 7), Bool.true_and, Bool.false_and, Bool.or_false]
      · have h₁ : ¬ (7 * i ≤ k ∧ k < 7 * i + 7) := by omega
        have h₂ : 7 * (i + 1) ≤ k := by omega
        rw [decide_eq_false h₁, decide_eq_true h₂, decide_eq_true hge,
          if_neg (by omega : ¬ k - 7 * i < 7), Bool.false_and, Bool.false_or, Bool.true_and,
          Bool.true_and, show k - 7 * (i + 1) = k - 7 * i - 7 by omega]

theorem length_fillCR (l : Bytes) (startBit j : ℕ) : (fillCR l startBit j).length = l.length := by
  induction j with
  | zero => rfl
  | succ j ih =>
    rw [fillCR]
    split
    · rw [length_modify, ih]
    · exact ih

/-- The bit one turn of the fill loop sets. -/
theorem testBit_fill {j n m : ℕ} (hj : j < 7) (hn : n < 8) (hm : m < 8) :
    (((gsm7CR >>> UInt8.ofNat j) &&& 1) <<< UInt8.ofNat n).toNat.testBit m =
      (decide (m = n) && gsm7CR.toNat.testBit j) := by
  interval_cases j <;> interval_cases n <;> interval_cases m <;> rfl

/-- The fill loop. -/
theorem bitAt_fillCR {startBit j : ℕ} (hj : j ≤ 7) (hlen : startBit + 7 ≤ 8 * l.length) (k : ℕ) :
    bitAt 8 (fillCR l startBit j) k =
      (bitAt 8 l k ||
        (decide (startBit ≤ k ∧ k < startBit + j) && gsm7CR.toNat.testBit (k - startBit))) := by
  induction j with
  | zero =>
    have hout : ¬ (startBit ≤ k ∧ k < startBit + 0) := by omega
    rw [fillCR, decide_eq_false hout, Bool.false_and, Bool.or_false]
  | succ j ih =>
    have hpos : (startBit + j) / 8 < (fillCR l startBit j).length := by
      rw [length_fillCR]
      omega
    rw [fillCR, if_pos hpos, bitAt_modify_or hpos, ih (by omega), Bool.or_assoc]
    congr 1
    rw [testBit_fill (by omega) (Nat.mod_lt _ (by omega)) (Nat.mod_lt _ (by omega))]
    by_cases hk : k = startBit + j
    · subst hk
      have h₁ : ¬ (startBit ≤ startBit + j ∧ startBit + j < startBit + j) := by omega
      have h₂ : startBit ≤ startBit + j ∧ startBit + j < startBit + (j + 1) := by omega
      rw [decide_eq_false h₁, decide_eq_true h₂, Nat.add_sub_cancel_left]
      simp
    · have hne : ¬ (k / 8 = (startBit + j) / 8 ∧ k % 8 = (startBit + j) % 8) := by omega
      have hiff : (startBit ≤ k ∧ k < startBit + j) ↔ (startBit ≤ k ∧ k < startBit + (j + 1)) := by
        omega
      have hfalse : (decide (k / 8 = (startBit + j) / 8) &&
          (decide (k % 8 = (startBit + j) % 8) && gsm7CR.toNat.testBit j)) = false := by
        rw [← Bool.and_assoc, ← Bool.decide_and, decide_eq_false hne, Bool.false_and]
      rw [hfalse, Bool.or_false, decide_eq_decide.mpr hiff]

theorem length_packed (septets : Bytes) : (packed septets).length = (septets.length * 7 + 7) / 8 := by
  rw [packed]
  split
  · rw [length_fillCR, length_packFrom, length_replicate]
  · rw [length_packFrom, length_replicate]

/-- The septets with the fill code, if there is one. -/
def filled (septets : Bytes) : Bytes :=
  if septets.length % 8 = 7 then septets ++ [gsm7CR] else septets

/-- **What packing leaves in every bit**: the septets one behind the other, and
the fill code when it fits in just what is left over. -/
theorem bitAt_packed (hs : IsSeptets septets) (k : ℕ) :
    bitAt 8 (packed septets) k = bitAt 7 (filled septets) k := by
  have hzero : bitAt 8 (replicate ((septets.length * 7 + 7) / 8) 0) k = false := by
    have hget : (replicate ((septets.length * 7 + 7) / 8) (0 : UInt8)).getD (k / 8) 0 = 0 := by
      rw [getD_eq_getElem?_getD, getElem?_replicate]
      split <;> rfl
    rw [bitAt, hget]
    simp
  have hloop : bitAt 8 (packFrom (replicate ((septets.length * 7 + 7) / 8) 0) 0 septets) k =
      bitAt 7 septets k := by
    have hlen : 7 * (0 + septets.length) ≤
        8 * (replicate ((septets.length * 7 + 7) / 8) (0 : UInt8)).length := by
      rw [length_replicate]
      omega
    rw [bitAt_packFrom hs hlen, hzero]
    simp
  rw [packed, filled]
  by_cases hfill : septets.length % 8 = 7
  · have hlen : septets.length * 7 + 7 ≤
        8 * (packFrom (replicate ((septets.length * 7 + 7) / 8) 0) 0 septets).length := by
      rw [length_packFrom, length_replicate]
      omega
    rw [if_pos (by omega), if_pos hfill, bitAt_fillCR le_rfl hlen, hloop, bitAt_append (by omega),
      bitAt_cons (by omega)]
    by_cases hk : k < 7 * septets.length
    · have hout : ¬ (septets.length * 7 ≤ k ∧ k < septets.length * 7 + 7) := by omega
      rw [if_pos hk, decide_eq_false hout, Bool.false_and, Bool.or_false]
    · rw [if_neg hk, bitAt_eq_false (by omega) (not_lt.mp hk), Bool.false_or, bitAt_nil,
        Nat.mul_comm 7]
      by_cases hin : k < septets.length * 7 + 7
      · have hmem : septets.length * 7 ≤ k ∧ k < septets.length * 7 + 7 := by omega
        rw [decide_eq_true hmem, Bool.true_and, if_pos (by omega)]
      · have hout : ¬ (septets.length * 7 ≤ k ∧ k < septets.length * 7 + 7) := by omega
        rw [decide_eq_false hout, Bool.false_and, if_neg (by omega)]
  · rw [if_neg (by omega), if_neg hfill, hloop]

end Smpp

end SmscGateway
