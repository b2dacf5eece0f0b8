import SmscGateway.Common.Bytes

/-!
# The SMPP bodies the gateway reads and writes

The gateway reads the addresses of a `submit_sm`, rewrites its source, builds
`deliver_sm` and `submit_sm` bodies, and reads and rewrites the text of a
delivery receipt. Everything is bytes: a Go string is not checked to be text.
-/

namespace SmscGateway

open List

namespace Smpp

/-! ## C-strings and addresses -/

/-- `ReadCString`: the bytes before the terminator and what stands behind
it. An offset past the end is an empty rest. -/
def readCString (data : Bytes) : Bytes × Bytes :=
  (data.takeWhile (· ≠ 0), (data.dropWhile (· ≠ 0)).drop 1)

/-- `appendCString` onto nothing. -/
def cString (s : Bytes) : Bytes := s ++ [0]

/-- `ParseSubmitSMAddresses`: source and destination of a `submit_sm` body;
a truncated body leaves what it does not reach empty. -/
def parseSubmitSMAddresses (body : Bytes) : Bytes × Bytes :=
  match (readCString body).2 with
  | _ton :: _npi :: r =>
    let source := readCString r
    match source.2 with
    | _ton :: _npi :: r => (source.1, (readCString r).1)
    | _ => (source.1, [])
  | _ => ([], [])

/-- `RewriteSubmitSMSource`: put another source address and its TON and NPI
into a `submit_sm` body; a malformed body is returned as it is. -/
def rewriteSubmitSMSource (body newAddr : Bytes) (newTON newNPI : UInt8) : Bytes :=
  let rest := (readCString body).2
  match rest with
  | _ton :: _npi :: r =>
    body.take (body.length - rest.length) ++ [newTON, newNPI] ++ cString newAddr ++
      (readCString r).2
  | _ => body

/-- The body both builders produce: a short message, or the `message_payload`
TLV when it does not fit one. -/
def smBody (sourceAddr destAddr : Bytes) (esmClass registeredDelivery : UInt8)
    (message : Bytes) : Bytes :=
  cString [] ++ [0, 0] ++ cString sourceAddr ++ [1, 1] ++ cString destAddr ++
    [esmClass, 0, 0] ++ cString [] ++ cString [] ++ [registeredDelivery, 0, 0, 0] ++
    if message.length > 254 then
      -- the TLV's length field is a uint16
      [0, 0x04, 0x24, UInt8.ofNat (message.length / 256), UInt8.ofNat message.length] ++ message
    else
      UInt8.ofNat message.length :: message

/-- `BuildDeliverSMBody`. -/
def buildDeliverSMBody (sourceAddr destAddr : Bytes) (esmClass : UInt8)
    (shortMessage : Bytes) : Bytes :=
  smBody sourceAddr destAddr esmClass 0 shortMessage

/-- `BuildSubmitSMBody`: what the REST API injects, asking for a receipt. -/
def buildSubmitSMBody (sourceAddr destAddr message : Bytes) : Bytes :=
  smBody sourceAddr destAddr 0 1 message

/-! ## Delivery receipts -/

/-- `IsDLR`: bit 2 of the ESM class. -/
def isDLR (esmClass : UInt8) : Bool := esmClass &&& 0x04 ≠ 0

/-- `\s` of Go's regular expressions. -/
def isRegexSpace (b : UInt8) : Bool := b = 9 ∨ b = 10 ∨ b = 12 ∨ b = 13 ∨ b = 32

/-- The encodings of the runes `strings.TrimSpace` removes. -/
def spaceRunes : List Bytes :=
  [[9], [10], [11], [12], [13], [32], [0xC2, 0x85], [0xC2, 0xA0], [0xE1, 0x9A, 0x80]] ++
    ((List.range 11).map fun i => [0xE2, 0x80, UInt8.ofNat (0x80 + i)]) ++
    [[0xE2, 0x80, 0xA8], [0xE2, 0x80, 0xA9], [0xE2, 0x80, 0xAF], [0xE2, 0x81, 0x9F],
      [0xE3, 0x80, 0x80]]

/-- Strip the given strings off the front for as long as one is there; the
first argument bounds the number of rounds. -/
def stripFront (runes : List Bytes) : ℕ → Bytes → Bytes
  | 0, s => s
  | n + 1, s =>
    match runes.find? fun r => r.isPrefixOf s with
    | some r => stripFront runes n (s.drop r.length)
    | none => s

/-- `strings.TrimSpace`. -/
def trimSpace (s : Bytes) : Bytes :=
  let s := stripFront spaceRunes s.length s
  (stripFront (spaceRunes.map List.reverse) s.length s.reverse).reverse

/-- The leftmost match of `tag([^\s]+)`: its group. -/
def findField (tag : Bytes) : Bytes → Option Bytes
  | [] => none
  | b :: bs =>
    if tag.isPrefixOf (b :: bs) then
      match ((b :: bs).drop tag.length).takeWhile (!isRegexSpace ·) with
      | [] => findField tag bs
      | f :: fs => some (f :: fs)
    else findField tag bs

/-- One letter of `(?i)[A-Za-z]`, uppercased, and the rest. Case folding also
admits the long s and the Kelvin sign. -/
def readLetter : Bytes → Option (Bytes × Bytes)
  | 0xC5 :: 0xBF :: r => some ([83], r)
  | 0xE2 :: 0x84 :: 0xAA :: r => some ([0xE2, 0x84, 0xAA], r)
  | b :: r =>
    if 65 ≤ b ∧ b ≤ 90 then some ([b], r)
    else if 97 ≤ b ∧ b ≤ 122 then some ([b - 32], r)
    else none
  | [] => none

/-- Up to `n` letters, uppercased one by one. -/
def readLetters : ℕ → Bytes → List Bytes
  | 0, _ => []
  | n + 1, s =>
    match readLetter s with
    | some (l, r) => l :: readLetters n r
    | none => []

/-- What stands behind `(?i)stat:` when the text starts with it. -/
def statTag (s : Bytes) : Option Bytes :=
  match readLetter s with
  | some ([83], t :: a :: t' :: 58 :: r) =>
    if (t = 84 ∨ t = 116) ∧ (a = 65 ∨ a = 97) ∧ (t' = 84 ∨ t' = 116) then some r else none
  | _ => none

/-- The leftmost match of `(?i)stat:([A-Za-z]{5,7})`: its group,
uppercased. -/
def findStat : Bytes → Option Bytes
  | [] => none
  | b :: bs =>
    match statTag (b :: bs) with
    | some r =>
      let letters := readLetters 7 r
      if 5 ≤ letters.length then some letters.flatten else findStat bs
    | none => findStat bs

/-- `DLRReceipt`. A field the text does not have is empty. -/
structure DLRReceipt where
  messageID : Bytes
  status : Bytes
  errorCode : Bytes
  deriving DecidableEq

/-- `ParseDLRReceipt`: `none` when the text does not look like a receipt. -/
def parseDLRReceipt (text : Bytes) : Option DLRReceipt :=
  let text := trimSpace text
  (findField (ascii "id:") text).map fun id =>
    { messageID := id
      status := (findStat text).getD []
      errorCode := (findField (ascii "err:") text).getD [] }

/-- `strings.Replace` with count 1. -/
def replaceFirst (old new : Bytes) : Bytes → Bytes
  | [] => if old = [] then new else []
  | b :: bs =>
    if old.isPrefixOf (b :: bs) then new ++ (b :: bs).drop old.length
    else b :: replaceFirst old new bs

/-- `translateDLRMessageID`: the receipt text with the SMSC's message id
replaced by the gateway's. -/
def translateDLRMessageID (receiptText smscMsgID gwMsgID : Bytes) : Bytes :=
  replaceFirst (ascii "id:" ++ smscMsgID) (ascii "id:" ++ gwMsgID) receiptText

/-! ## A translated receipt names the gateway's id -/

section Translation

variable {tag s g : Bytes}

/-- The text starts with the tag and a byte of a field. -/
def Begins (tag text : Bytes) : Prop := ∃ c, isRegexSpace c = false ∧ (tag ++ [c]) <+: text

/-- **What a search finds.** The match starts here, and the field runs to the
next space, or it starts further on. -/
theorem findField_cases {b : UInt8} {bs : Bytes} (h : findField tag (b :: bs) = some s) :
    (¬ Begins tag (b :: bs) ∧ findField tag bs = some s) ∨
    ∃ rest, b :: bs = tag ++ s ++ rest ∧ s ≠ [] ∧ rest.takeWhile (!isRegexSpace ·) = [] := by
  rw [findField] at h
  split at h
  · rename_i hpre
    obtain ⟨rest, hrest⟩ := isPrefixOf_iff_prefix.mp hpre
    rw [← hrest, drop_left] at h
    split at h
    · rename_i hempty
      refine Or.inl ⟨?_, h⟩
      rintro ⟨c, hc, hpc⟩
      rw [← hrest, prefix_append_right_inj] at hpc
      obtain ⟨r, rfl⟩ := hpc
      simp [hc] at hempty
    · rename_i f fs hf
      cases h
      refine Or.inr ⟨rest.dropWhile (!isRegexSpace ·), ?_, cons_ne_nil _ _, ?_⟩
      · rw [← hrest, ← hf, append_assoc, takeWhile_append_dropWhile]
      · rw [takeWhile_eq_nil_iff]
        intro hl
        simpa using dropWhile_get_zero_not (!isRegexSpace ·) rest hl
  · rename_i hpre
    refine Or.inl ⟨?_, h⟩
    rintro ⟨c, -, hpc⟩
    exact hpre (List.isPrefixOf_iff_prefix.mpr ((prefix_append _ _).trans hpc))

theorem findField_word {text : Bytes} (h : findField tag text = some s) :
    s ≠ [] ∧ ∀ b ∈ s, isRegexSpace b = false := by
  induction text with
  | nil => cases h
  | cons b bs ih =>
    rw [findField] at h
    split at h
    · split at h
      · exact ih h
      · rename_i f fs hf
        cases h
        refine ⟨cons_ne_nil _ _, fun c hc => ?_⟩
        rw [← hf] at hc
        simpa using mem_takeWhile_imp hc
    · exact ih h

theorem findField_of_not_begins {b : UInt8} {bs : Bytes} (h : ¬ Begins tag (b :: bs)) :
    findField tag (b :: bs) = findField tag bs := by
  cases hf : findField tag (b :: bs) with
  | none =>
    rw [findField] at hf
    split at hf
    · split at hf
      · exact hf.symm
      · cases hf
    · exact hf.symm
  | some f =>
    rcases findField_cases hf with ⟨-, h'⟩ | ⟨rest, heq, hne, -⟩
    · exact h'.symm
    · obtain ⟨c, cs, rfl⟩ := exists_cons_of_ne_nil hne
      refine absurd ⟨c, (findField_word hf).2 c mem_cons_self, cs ++ rest, ?_⟩ h
      simp [heq]

theorem findField_append {rest : Bytes} (htag : tag ≠ []) (hs : s ≠ [])
    (hword : ∀ b ∈ s, isRegexSpace b = false)
    (hrest : rest.takeWhile (!isRegexSpace ·) = []) :
    findField tag (tag ++ s ++ rest) = some s := by
  obtain ⟨t, ts, rfl⟩ := exists_cons_of_ne_nil htag
  obtain ⟨c, cs, rfl⟩ := exists_cons_of_ne_nil hs
  have hfield : (c :: cs ++ rest).takeWhile (!isRegexSpace ·) = c :: cs := by
    rw [takeWhile_append_of_pos (by simpa using hword), hrest, append_nil]
  have hpre : (t :: ts).isPrefixOf (t :: ts ++ (c :: cs) ++ rest) = true :=
    isPrefixOf_iff_prefix.mpr ⟨c :: cs ++ rest, by simp⟩
  rw [append_assoc, cons_append] at hpre ⊢
  rw [findField, if_pos hpre, ← cons_append, drop_left, hfield]

/-- Both texts carry the tag where they differ, so they agree on as many
bytes as the tag has. -/
theorem take_replaceFirst (text : Bytes) {n : ℕ} (hn : n ≤ tag.length) :
    (replaceFirst (tag ++ s) (tag ++ g) text).take n = text.take n := by
  induction text generalizing n with
  | nil =>
    rw [replaceFirst]
    split
    · rename_i h
      obtain ⟨rfl, rfl⟩ := append_eq_nil_iff.mp h
      obtain rfl : n = 0 := by simpa using hn
      simp
    · rfl
  | cons b bs ih =>
    rw [replaceFirst]
    split
    · rename_i h
      obtain ⟨rest, hrest⟩ := isPrefixOf_iff_prefix.mp h
      rw [← hrest]
      simp [take_append, Nat.sub_eq_zero_of_le hn]
    · cases n with
      | zero => rfl
      | succ n => simp [ih (Nat.le_of_succ_le hn)]

/-- **The engine reads the gateway's id.** Where the receipt carried the
SMSC's id, the translated text carries the gateway's, provided that is a
word. -/
theorem findField_replaceFirst {text : Bytes} (htag : tag ≠ []) (hg : g ≠ [])
    (hword : ∀ b ∈ g, isRegexSpace b = false) (h : findField tag text = some s) :
    findField tag (replaceFirst (tag ++ s) (tag ++ g) text) = some g := by
  induction text with
  | nil => cases h
  | cons b bs ih =>
    rw [replaceFirst]
    rcases findField_cases h with ⟨hno, h'⟩ | ⟨rest, heq, -, hrest⟩
    · have hpre : ¬ (tag ++ s).isPrefixOf (b :: bs) = true := by
        intro hp
        obtain ⟨hne, hsp⟩ := findField_word h
        obtain ⟨c, cs, rfl⟩ := exists_cons_of_ne_nil hne
        refine hno ⟨c, hsp c mem_cons_self, ?_⟩
        exact List.IsPrefix.trans ⟨cs, by simp⟩ (List.isPrefixOf_iff_prefix.mp hp)
      -- one byte past the tag is still common to both texts
      have hno' : ¬ Begins tag (b :: replaceFirst (tag ++ s) (tag ++ g) bs) := by
        rintro ⟨c, hc, hp⟩
        refine hno ⟨c, hc, ?_⟩
        rw [prefix_iff_eq_take] at hp ⊢
        simpa [take_replaceFirst bs le_rfl] using hp
      rw [if_neg hpre, findField_of_not_begins hno']
      exact ih h'
    · have hpre : (tag ++ s).isPrefixOf (b :: bs) = true :=
        isPrefixOf_iff_prefix.mpr ⟨rest, heq.symm⟩
      rw [if_pos hpre, heq, drop_left]
      exact findField_append htag hg hword hrest

end Translation

example : parseDLRReceipt (ascii " id:S-1 sub:001 dlvrd:001 stat:delivrd err:000 text:") =
    some ⟨ascii "S-1", ascii "DELIVRD", ascii "000"⟩ := by decide

end Smpp

end SmscGateway
