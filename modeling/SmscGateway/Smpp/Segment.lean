import SmscGateway.Common.Division
import SmscGateway.Smpp.Decoding

/-!
# Segmentation

`SplitMessage` puts a text into one segment when it fits, and otherwise cuts it
between characters and numbers the parts. The two codings differ in what a
character weighs and in the limits, their `Measure`. What comes out is said once
for both: the parts are a `Cutting` of the text, and each segment carries its
part (`splitMessage_ok`). Detection, counting, encoding and splitting agree on
which texts the default alphabet has (`codings_agree`).
-/

namespace SmscGateway

open List

namespace Smpp

/-- `Segment`. -/
structure Segment where
  data : Bytes
  refNum : UInt16
  seqNum : UInt8
  totalParts : UInt8
  dataCoding : UInt8
  deriving DecidableEq

/-- `SplitMethod`: how the numbering is carried. -/
inductive SplitMethod
  | splitSAR
  | splitUDH
  deriving DecidableEq

/-- The errors of this file, with what their texts name. -/
inductive SplitError
  /-- Empty message text. -/
  | emptyText
  /-- The text contains characters not in the GSM 7-bit alphabet. -/
  | notGSM7
  /-- Segmentation not supported for the data coding. -/
  | unsupported (coding : UInt8)
  /-- What an encoder returned. -/
  | encoder (e : CodingError)
  deriving DecidableEq

/-- `nextSegmentRef`: `segmentRefCounter` behind the call, and the
reference. -/
def nextSegmentRef (counter : UInt32) : UInt32 × UInt16 :=
  (counter + 1, ((counter + 1) &&& 0xFFFF).toUInt16)

/-! ## Counting -/

/-- `gsm7Len`. -/
def gsm7Len (r : Char) : ℤ :=
  if (unicodeToGSM7.lookup r).isSome then 1
  else if (unicodeToGSM7Ext.lookup r).isSome then 2
  else -1

/-- The loop of `gsm7CharCount`. -/
def gsm7CharCountFrom (count : ℤ) : List Char → ℤ
  | [] => count
  | r :: l => if gsm7Len r < 0 then -1 else gsm7CharCountFrom (count + gsm7Len r) l

/-- `gsm7CharCount`. -/
def gsm7CharCount (text : Bytes) : ℤ := gsm7CharCountFrom 0 (runes text)

def gsm7SingleMax : ℤ := 160
def gsm7SegmentMax : ℤ := 153
def ucs2SingleMax : ℕ := 70
def ucs2SegmentMax : ℕ := 67

/-! ## Splitting -/

/-- `splitTextBySeptets`. -/
def splitTextBySeptets (text : Bytes) (maxSeptets : ℤ) : List Bytes :=
  (greedy gsm7Len maxSeptets (runes text)).map encodeRunes

/-- The loop of `splitRuneChunks` from rune `i` on, `n` turns of it. -/
def runeChunksFrom (runes : List Char) (chunkSize : ℕ) : ℕ → ℕ → List (List Char)
  | 0, _ => []
  | n + 1, i =>
    if i < runes.length then
      (runes.drop i).take chunkSize :: runeChunksFrom runes chunkSize n (i + chunkSize)
    else []

/-- `splitRuneChunks`; it makes no more turns than there are runes. -/
def splitRuneChunks (runes : List Char) (chunkSize : ℕ) : List (List Char) :=
  runeChunksFrom runes chunkSize runes.length 0

/-- The header of `prependUDH`. -/
def udh (refNum : UInt16) (totalParts seqNum : UInt8) : Bytes :=
  [0x05, 0x00, 0x03, refNum.toUInt8, totalParts, seqNum]

/-- `prependUDH`. -/
def prependUDH (payload : Bytes) (refNum : UInt16) (totalParts seqNum : UInt8) : Bytes :=
  udh refNum totalParts seqNum ++ payload

/-- The one segment of a text that fits. -/
def singleSegment (data : Bytes) (coding : UInt8) : List Segment := [⟨data, 0, 1, 1, coding⟩]

section Loop

variable (encoder : Bytes → Except CodingError Bytes) (coding : UInt8) (method : SplitMethod)
  (refNum : UInt16) (totalParts : UInt8)

/-- The loop that makes segments of parts, from part `i` on. -/
def segmentsFrom : ℕ → List Bytes → Except SplitError (List Segment)
  | _, [] => .ok []
  | i, part :: parts =>
    match encoder part with
    | .error e => .error (.encoder e)
    | .ok encoded =>
      let seqNum := UInt8.ofNat (i + 1)
      let data := if method = .splitUDH then prependUDH encoded refNum totalParts seqNum else encoded
      (segmentsFrom (i + 1) parts).map (⟨data, refNum, seqNum, totalParts, coding⟩ :: ·)

end Loop

/-- `splitGSM7`: the counter behind the call, and what it returns. -/
def splitGSM7 (counter : UInt32) (text : Bytes) (method : SplitMethod) :
    UInt32 × Except SplitError (List Segment) :=
  let totalSeptets := gsm7CharCount text
  if totalSeptets < 0 then (counter, .error .notGSM7)
  else if totalSeptets ≤ gsm7SingleMax then
    match encodeGSM7 text with
    | .error e => (counter, .error (.encoder e))
    | .ok (packed, _) => (counter, .ok (singleSegment packed dataCodingDefault))
  else
    let parts := splitTextBySeptets text gsm7SegmentMax
    let (counter, refNum) := nextSegmentRef counter
    (counter, segmentsFrom (fun part => (encodeGSM7 part).map Prod.fst) dataCodingDefault method
      refNum (UInt8.ofNat parts.length) 0 parts)

/-- `splitUCS2`. -/
def splitUCS2 (counter : UInt32) (text : Bytes) (method : SplitMethod) :
    UInt32 × Except SplitError (List Segment) :=
  if (runes text).length ≤ ucs2SingleMax then
    (counter, .ok (singleSegment (encodeUCS2 text) dataCodingUCS2))
  else
    let parts := (splitRuneChunks (runes text) ucs2SegmentMax).map encodeRunes
    let (counter, refNum) := nextSegmentRef counter
    (counter, segmentsFrom (fun part => .ok (encodeUCS2 part)) dataCodingUCS2 method refNum
      (UInt8.ofNat parts.length) 0 parts)

/-- `SplitMessage`. -/
def splitMessage (counter : UInt32) (text : Bytes) (coding : UInt8) (method : SplitMethod) :
    UInt32 × Except SplitError (List Segment) :=
  if text.length = 0 then (counter, .error .emptyText)
  else if coding = dataCodingDefault then splitGSM7 counter text method
  else if coding = dataCodingUCS2 then splitUCS2 counter text method
  else (counter, .error (.unsupported coding))

/-! ## The default alphabet -/

variable {r : Char} {l : List Char} {text : Bytes} {μ : Measure} {parts : List (List Char)}
  {encoder : Bytes → Except CodingError Bytes} {coding : UInt8} {method : SplitMethod}
  {refNum : UInt16} {segments : List Segment} {counter : UInt32}

theorem gsm7Len_of_isGSM7 (h : isGSM7 r = true) : 1 ≤ gsm7Len r ∧ gsm7Len r ≤ 2 := by
  rw [isGSM7, Bool.or_eq_true] at h
  rw [gsm7Len]
  split
  · omega
  · rename_i hbasic
    rw [if_pos (h.resolve_left hbasic)]
    omega

theorem gsm7Len_of_not (h : ¬ isGSM7 r = true) : gsm7Len r = -1 := by
  rw [isGSM7, Bool.or_eq_true, not_or] at h
  rw [gsm7Len, if_neg h.1, if_neg h.2]

/-- The counting loop stops at the first character the alphabet has not. -/
theorem gsm7CharCountFrom_eq (count : ℤ) (l : List Char) :
    gsm7CharCountFrom count l =
      if ∀ r ∈ l, isGSM7 r = true then count + weight gsm7Len l else -1 := by
  induction l generalizing count with
  | nil => simp [gsm7CharCountFrom]
  | cons r l ih =>
    rw [gsm7CharCountFrom]
    by_cases hr : isGSM7 r = true
    · have hpos := gsm7Len_of_isGSM7 hr
      have hiff : (∀ x ∈ r :: l, isGSM7 x = true) ↔ ∀ x ∈ l, isGSM7 x = true := by
        rw [forall_mem_cons, and_iff_right hr]
      rw [if_neg (by omega), ih, weight_cons, ← add_assoc]
      exact if_congr hiff.symm rfl rfl
    · have hneg := gsm7Len_of_not hr
      have hnot : ¬ ∀ x ∈ r :: l, isGSM7 x = true := fun h => hr (h r mem_cons_self)
      rw [if_pos (by omega), if_neg hnot]

theorem isGSM7_iff : isGSM7 r = true ↔ ∃ codes, gsm7Septets r = .ok codes := by
  rw [isGSM7, gsm7Septets]
  cases unicodeToGSM7.lookup r with
  | some code => simp
  | none => cases unicodeToGSM7Ext.lookup r <;> simp

theorem length_gsm7Septets {codes : Bytes} (h : gsm7Septets r = .ok codes) :
    (codes.length : ℤ) = gsm7Len r := by
  rw [gsm7Septets] at h
  rw [gsm7Len]
  cases hbasic : unicodeToGSM7.lookup r with
  | some code =>
    rw [hbasic] at h
    obtain rfl := Except.ok.inj h
    rfl
  | none =>
    rw [hbasic] at h
    cases hext : unicodeToGSM7Ext.lookup r with
    | some ext =>
      rw [hext] at h
      obtain rfl := Except.ok.inj h
      rfl
    | none =>
      rw [hext] at h
      cases h

/-- How many septets a text has. -/
theorem length_toSeptets {septets : Bytes} (h : toSeptets l = .ok septets) :
    (septets.length : ℤ) = weight gsm7Len l := by
  induction l generalizing septets with
  | nil =>
    obtain rfl := Except.ok.inj h
    rfl
  | cons r l ih =>
    obtain ⟨codes, rest, hcodes, hrest, rfl⟩ := toSeptets_cons h
    rw [length_append, Nat.cast_add, length_gsm7Septets hcodes, ih hrest, weight_cons]

/-- The first pass of `EncodeGSM7` succeeds on the characters of the
alphabet. -/
theorem exists_toSeptets_iff :
    (∃ septets, toSeptets l = .ok septets) ↔ ∀ r ∈ l, isGSM7 r = true := by
  rw [toSeptets_ok_iff]
  exact forall₂_congr fun r _ => by rw [← gsm7Septets_ok_iff, isGSM7_iff]

/-- The characters of a part are characters of the text. -/
theorem exists_toSeptets_of_mem {part : List Char} (hl : ∀ r ∈ l, isGSM7 r = true)
    (hpart : part ∈ greedy gsm7Len gsm7SegmentMax l) : ∃ septets, toSeptets part = .ok septets := by
  refine exists_toSeptets_iff.mpr fun r hr => ?_
  have hmem := mem_flatten_of_mem hpart hr
  rw [greedy, flatten_greedyFrom] at hmem
  exact hl r hmem

/-- What an encoder makes of runes. -/
theorem encodeGSM7_encodeRunes (l : List Char) :
    encodeGSM7 (encodeRunes l) =
      (toSeptets l).map fun septets => (packed septets, septets.length) := by
  rw [encodeGSM7, runes_encodeRunes]

theorem encodeUCS2_encodeRunes (l : List Char) :
    encodeUCS2 (encodeRunes l) = (l.flatMap utf16Words).flatMap (bigEndian 2) := by
  rw [encodeUCS2, runes_encodeRunes]

theorem encodeGSM7_isOk_iff :
    (∃ out, encodeGSM7 text = .ok out) ↔ ∀ r ∈ runes text, isGSM7 r = true := by
  rw [← exists_toSeptets_iff, encodeGSM7]
  cases toSeptets (runes text) with
  | error e => simp [Except.map]
  | ok septets => simp [Except.map]

theorem gsm7CharCount_nonneg_iff : 0 ≤ gsm7CharCount text ↔ ∀ r ∈ runes text, isGSM7 r = true := by
  rw [gsm7CharCount, gsm7CharCountFrom_eq]
  split
  · rename_i hall
    have hnonneg : 0 ≤ weight gsm7Len (runes text) := weight_nonneg fun r hr =>
      zero_le_one.trans (gsm7Len_of_isGSM7 (hall r hr)).1
    exact iff_of_true (by omega) hall
  · rename_i hnot
    exact iff_of_false (by omega) hnot

theorem gsm7CharCount_eq (h : ∀ r ∈ runes text, isGSM7 r = true) :
    gsm7CharCount text = weight gsm7Len (runes text) := by
  rw [gsm7CharCount, gsm7CharCountFrom_eq, if_pos h, zero_add]

/-! ## Chunks -/

/-- When every character weighs one, a part weighs as much as it is long. -/
theorem weight_one (l : List Char) : weight (fun _ => (1 : ℤ)) l = l.length := by
  rw [weight, map_const', sum_replicate, nsmul_eq_mul, mul_one]

section Chunks

variable {l : List Char} {chunkSize : ℕ}

variable {n i : ℕ}

/-- The loop does not stop before the end, if there are turns enough. -/
theorem flatten_runeChunksFrom (h : l.length ≤ i + n * chunkSize) :
    (runeChunksFrom l chunkSize n i).flatten = l.drop i := by
  induction n generalizing i with
  | zero => rw [runeChunksFrom, drop_eq_nil_of_le (by omega), flatten_nil]
  | succ n ih =>
    rw [runeChunksFrom]
    split
    · rw [Nat.succ_mul] at h
      rw [flatten_cons, ih (by omega), ← drop_drop, take_append_drop]
    · rw [drop_eq_nil_of_le (by omega), flatten_nil]

/-- Chunk `j` begins at rune `chunkSize * j`. -/
theorem getElem?_runeChunksFrom {j : ℕ} (h : l.length ≤ i + n * chunkSize) :
    (runeChunksFrom l chunkSize n i)[j]? =
      if i + chunkSize * j < l.length then some ((l.drop (i + chunkSize * j)).take chunkSize)
      else none := by
  induction n generalizing i j with
  | zero =>
    have hend : ¬ i + chunkSize * j < l.length := by
      have := Nat.zero_le (chunkSize * j)
      omega
    rw [runeChunksFrom, if_neg hend, getElem?_nil]
  | succ n ih =>
    rw [Nat.succ_mul] at h
    rw [runeChunksFrom]
    cases j with
    | zero =>
      rw [Nat.mul_zero, Nat.add_zero]
      split
      · rw [getElem?_cons_zero]
      · rw [getElem?_nil]
    | succ j =>
      have hindex : i + chunkSize * (j + 1) = i + chunkSize + chunkSize * j := by
        rw [Nat.mul_succ]
        omega
      rw [hindex]
      split
      · rw [getElem?_cons_succ, ih (by omega)]
      · rename_i hend
        have := Nat.zero_le (chunkSize * j)
        rw [getElem?_nil, if_neg (by omega)]

theorem length_le_of_mem_runeChunksFrom :
    ∀ part ∈ runeChunksFrom l chunkSize n i, part.length ≤ chunkSize := by
  induction n generalizing i with
  | zero => exact fun part hpart => absurd hpart not_mem_nil
  | succ n ih =>
    intro part hpart
    rw [runeChunksFrom] at hpart
    split at hpart
    · rcases mem_cons.mp hpart with rfl | hpart
      · exact length_take_le _ _
      · exact ih part hpart
    · exact absurd hpart not_mem_nil

/-- Chunks are tight: there is a next one only when this one has its full
size. -/
theorem tight_runeChunksFrom (hsize : 0 < chunkSize) :
    Tight (fun _ => (1 : ℤ)) (chunkSize : ℤ) (runeChunksFrom l chunkSize n i) := by
  induction n generalizing i with
  | zero => exact ⟨fun part hpart => absurd hpart not_mem_nil, .nil⟩
  | succ n ih =>
    have hrest := ih (i := i + chunkSize)
    rw [runeChunksFrom]
    split
    · rename_i hi
      refine ⟨fun part hpart => ?_, hrest.full.cons fun next hnext => ?_⟩
      · rcases mem_cons.mp hpart with rfl | hpart
        · rw [← length_pos_iff, length_take, length_drop]
          omega
        · exact hrest.ne_nil part hpart
      · -- there are runes behind this chunk
        have hmore : i + chunkSize < l.length := by
          by_contra hend
          cases n with
          | zero => simp [runeChunksFrom] at hnext
          | succ n => simp [runeChunksFrom, hend] at hnext
        intro a _
        rw [weight_one, length_take, length_drop, Nat.min_eq_left (by omega)]
        omega
    · exact ⟨fun part hpart => absurd hpart not_mem_nil, .nil⟩

/-- As many turns as there are runes are enough. -/
theorem length_le_mul (hsize : 0 < chunkSize) : l.length ≤ 0 + l.length * chunkSize := by
  have := Nat.le_mul_of_pos_right l.length hsize
  omega

theorem getElem?_splitRuneChunks {j : ℕ} :
    (splitRuneChunks l ucs2SegmentMax)[j]? =
      if 67 * j < l.length then some ((l.drop (67 * j)).take 67) else none := by
  have hget := getElem?_runeChunksFrom (j := j)
    (length_le_mul (l := l) (by decide : 0 < ucs2SegmentMax))
  rwa [Nat.zero_add] at hget

end Chunks

/-! ## What the parts are -/

/-- What a character weighs in a coding, and how much goes into a message of
its own and into one of several. -/
structure Measure where
  weight : Char → ℤ
  singleMax : ℤ
  segmentMax : ℤ

def gsm7Measure : Measure := ⟨gsm7Len, gsm7SingleMax, gsm7SegmentMax⟩

def ucs2Measure : Measure := ⟨fun _ => 1, ucs2SingleMax, ucs2SegmentMax⟩

theorem singleMax_lt_ucs2 :
    ucs2Measure.singleMax < weight ucs2Measure.weight l ↔ ucs2SingleMax < l.length := by
  have hweight : weight ucs2Measure.weight l = l.length := weight_one l
  rw [hweight]
  exact Nat.cast_lt

/-- The measure of a coding that can be split. -/
def measure (coding : UInt8) : Measure :=
  if coding = dataCodingDefault then gsm7Measure else ucs2Measure

/-- **The cutting of a text**: one part if it fits, and else a tight
division. -/
inductive Cutting (μ : Measure) (l : List Char) : List (List Char) → Prop
  | single (hfits : weight μ.weight l ≤ μ.singleMax) : Cutting μ l [l]
  | several {parts : List (List Char)} (hlong : μ.singleMax < weight μ.weight l)
      (hdiv : Division μ.weight μ.segmentMax l parts)
      (htight : Tight μ.weight μ.segmentMax parts) : Cutting μ l parts

theorem Cutting.flatten (h : Cutting μ l parts) : parts.flatten = l := by
  cases h with
  | single => exact append_nil l
  | several _ hdiv _ => exact hdiv.flatten

/-- Every character of the alphabet fits into a part. -/
theorem gsm7Len_le_segmentMax (hl : ∀ r ∈ l, isGSM7 r = true) :
    ∀ r ∈ l, gsm7Len r ≤ gsm7SegmentMax := fun r hr =>
  (gsm7Len_of_isGSM7 (hl r hr)).2.trans (by decide)

theorem gsm7Len_nonneg (hl : ∀ r ∈ l, isGSM7 r = true) : ∀ r ∈ l, 0 ≤ gsm7Len r := fun r hr =>
  zero_le_one.trans (gsm7Len_of_isGSM7 (hl r hr)).1

theorem cutting_gsm7 (hl : ∀ r ∈ l, isGSM7 r = true) (hlong : gsm7SingleMax < weight gsm7Len l) :
    Cutting gsm7Measure l (greedy gsm7Len gsm7SegmentMax l) := by
  have hfit := gsm7Len_le_segmentMax hl
  exact .several hlong (division_greedy (by decide) hfit) (tight_greedy hfit)

theorem cutting_ucs2_single (hfits : l.length ≤ ucs2SingleMax) : Cutting ucs2Measure l [l] :=
  .single (not_lt.mp (mt singleMax_lt_ucs2.mp (not_lt.mpr hfits)))

theorem cutting_ucs2 (hlong : ucs2SingleMax < l.length) :
    Cutting ucs2Measure l (splitRuneChunks l ucs2SegmentMax) := by
  have hsize : 0 < ucs2SegmentMax := by decide
  refine .several (singleMax_lt_ucs2.mpr hlong) ⟨?_, fun part hpart => ?_⟩
    (tight_runeChunksFrom hsize)
  · rw [splitRuneChunks, flatten_runeChunksFrom (length_le_mul hsize), drop_zero]
  · change weight (fun _ => 1) part ≤ (ucs2SegmentMax : ℤ)
    rw [weight_one]
    exact_mod_cast length_le_of_mem_runeChunksFrom part hpart

/-- **There is one cutting.** -/
theorem Cutting.unique {parts' : List (List Char)} (hμ : ∀ r ∈ l, 0 ≤ μ.weight r)
    (h : Cutting μ l parts) (h' : Cutting μ l parts') : parts = parts' := by
  cases h with
  | single hfits =>
    cases h' with
    | single => rfl
    | several hlong => exact absurd hfits (not_le.mpr hlong)
  | several hlong hdiv htight =>
    cases h' with
    | single hfits => exact absurd hfits (not_le.mpr hlong)
    | several _ hdiv' htight' => exact htight.unique hμ hdiv htight' hdiv'

/-- Several parts are at least two, since one part has less room than a message
of its own. -/
theorem Cutting.one_lt (h : Cutting μ l parts) (hμ : μ.segmentMax ≤ μ.singleMax)
    (hzero : 0 ≤ μ.singleMax) (hlong : μ.singleMax < weight μ.weight l) : 1 < parts.length := by
  cases h with
  | single hfits => exact absurd hfits (not_le.mpr hlong)
  | several _ hdiv _ =>
    rcases parts with _ | ⟨part, _ | ⟨next, parts⟩⟩
    · rw [← hdiv.flatten] at hlong
      exact absurd hlong (not_lt.mpr hzero)
    · have hpart := hdiv.le part mem_cons_self
      rw [← hdiv.flatten, flatten_cons, flatten_nil, append_nil] at hlong
      omega
    · exact Nat.one_lt_succ_succ _

/-! ## What the segments are -/

/-- The header of segment `i` of `k`. -/
def headerOf (method : SplitMethod) (refNum : UInt16) (k i : ℕ) : Bytes :=
  if method = .splitUDH ∧ 1 < k then udh refNum (UInt8.ofNat k) (UInt8.ofNat (i + 1)) else []

/-- **The segments carry the parts**, one each and in order. -/
structure Carries (coding : UInt8) (method : SplitMethod) (refNum : UInt16)
    (parts : List (List Char)) (segments : List Segment) : Prop where
  length : segments.length = parts.length
  segment : ∀ (i : ℕ) (part : List Char), parts[i]? = some part → ∃ payload,
    encode (encodeRunes part) coding = .ok payload ∧
    segments[i]? = some ⟨headerOf method refNum parts.length i ++ payload, refNum,
      UInt8.ofNat (i + 1), UInt8.ofNat parts.length, coding⟩

/-- What the loop returns. -/
theorem segmentsFrom_ok {totalParts : UInt8} {i : ℕ} {parts : List Bytes}
    (h : segmentsFrom encoder coding method refNum totalParts i parts = .ok segments) :
    segments.length = parts.length ∧
    ∀ (j : ℕ) (part : Bytes), parts[j]? = some part → ∃ payload, encoder part = .ok payload ∧
      segments[j]? = some
        ⟨(if method = .splitUDH then udh refNum totalParts (UInt8.ofNat (i + j + 1)) else []) ++ payload,
          refNum, UInt8.ofNat (i + j + 1), totalParts, coding⟩ := by
  induction parts generalizing i segments with
  | nil =>
    obtain rfl := Except.ok.inj h
    exact ⟨rfl, fun j part hpart => by simp at hpart⟩
  | cons part parts ih =>
    rw [segmentsFrom] at h
    cases hpart : encoder part with
    | error e =>
      rw [hpart] at h
      cases h
    | ok payload =>
      rw [hpart] at h
      cases hrest : segmentsFrom encoder coding method refNum totalParts (i + 1) parts with
      | error e =>
        simp only [hrest] at h
        cases h
      | ok rest =>
        simp only [hrest] at h
        obtain rfl := Except.ok.inj h
        obtain ⟨hlen, hall⟩ := ih hrest
        refine ⟨by rw [length_cons, length_cons, hlen], fun j q hq => ?_⟩
        cases j with
        | zero =>
          cases hq
          refine ⟨payload, hpart, ?_⟩
          rw [getElem?_cons_zero, Nat.add_zero]
          by_cases hmethod : method = .splitUDH
          · rw [if_pos hmethod, if_pos hmethod]
            rfl
          · rw [if_neg hmethod, if_neg hmethod]
            rfl
        | succ j =>
          obtain ⟨p, hp, hseg⟩ := hall j q hq
          refine ⟨p, hp, ?_⟩
          rw [getElem?_cons_succ, hseg, show i + (j + 1) + 1 = i + 1 + j + 1 by omega]

/-- The loop succeeds when its encoder does. -/
theorem exists_segmentsFrom {totalParts : UInt8} {i : ℕ} {parts : List Bytes}
    (h : ∀ part ∈ parts, ∃ payload, encoder part = .ok payload) :
    ∃ segments, segmentsFrom encoder coding method refNum totalParts i parts = .ok segments := by
  induction parts generalizing i with
  | nil => exact ⟨[], rfl⟩
  | cons part parts ih =>
    obtain ⟨payload, hpayload⟩ := h part mem_cons_self
    obtain ⟨segments, hsegments⟩ := ih (i := i + 1) fun p hp => h p (mem_cons_of_mem _ hp)
    rw [segmentsFrom, hpayload]
    simp only [hsegments]
    exact ⟨_, rfl⟩

/-- Several segments. -/
theorem carries_of_segmentsFrom (hencoder : ∀ p, encoder p = encode p coding)
    (hone : 1 < parts.length)
    (h : segmentsFrom encoder coding method refNum (UInt8.ofNat (parts.map encodeRunes).length) 0
      (parts.map encodeRunes) = .ok segments) :
    Carries coding method refNum parts segments := by
  obtain ⟨hlen, hall⟩ := segmentsFrom_ok h
  rw [length_map] at hlen
  refine ⟨hlen, fun i part hpart => ?_⟩
  obtain ⟨payload, hpayload, hseg⟩ := hall i (encodeRunes part) (by rw [getElem?_map, hpart]; rfl)
  refine ⟨payload, by rw [← hencoder, hpayload], ?_⟩
  rw [hseg, length_map, Nat.zero_add, headerOf]
  simp only [hone, and_true]

/-- One segment. -/
theorem carries_single {data : Bytes} (h : encode (encodeRunes (runes text)) coding = .ok data) :
    Carries coding method 0 [runes text] (singleSegment data coding) where
  length := rfl
  segment := by
    intro i part hpart
    cases i with
    | zero =>
      cases hpart
      refine ⟨data, h, ?_⟩
      have hheader : headerOf method 0 [runes text].length 0 = [] := if_neg fun h => by simp at h
      rw [hheader]
      rfl
    | succ i => simp at hpart

theorem encode_default (text : Bytes) :
    encode text dataCodingDefault = (encodeGSM7 text).map Prod.fst := if_pos rfl

theorem encode_ucs2 (text : Bytes) : encode text dataCodingUCS2 = .ok (encodeUCS2 text) := rfl

theorem splitGSM7_ok (h : (splitGSM7 counter text method).2 = .ok segments) :
    (∀ r ∈ runes text, isGSM7 r = true) ∧ ∃ refNum parts,
      Cutting gsm7Measure (runes text) parts ∧
      Carries dataCodingDefault method refNum parts segments := by
  rw [splitGSM7] at h
  by_cases hneg : gsm7CharCount text < 0
  · simp only [if_pos hneg] at h
    cases h
  have hall := gsm7CharCount_nonneg_iff.mp (not_lt.mp hneg)
  have hcount := gsm7CharCount_eq hall
  refine ⟨hall, ?_⟩
  simp only [if_neg hneg] at h
  by_cases hfits : gsm7CharCount text ≤ gsm7SingleMax
  · simp only [if_pos hfits] at h
    obtain ⟨⟨out, n⟩, hout⟩ := encodeGSM7_isOk_iff.mpr hall
    rw [hout] at h
    obtain rfl := Except.ok.inj h
    refine ⟨0, [runes text], .single (hcount ▸ hfits), carries_single ?_⟩
    rw [encode_default, encodeGSM7, runes_encodeRunes, ← encodeGSM7, hout]
    rfl
  · simp only [if_neg hfits, splitTextBySeptets] at h
    have hlong : gsm7SingleMax < weight gsm7Len (runes text) := hcount ▸ not_le.mp hfits
    have hcut := cutting_gsm7 hall hlong
    exact ⟨_, _, hcut, carries_of_segmentsFrom (fun p => (encode_default p).symm)
      (hcut.one_lt (by decide) (by decide) hlong) h⟩

theorem splitUCS2_ok (h : (splitUCS2 counter text method).2 = .ok segments) :
    ∃ refNum parts, Cutting ucs2Measure (runes text) parts ∧
      Carries dataCodingUCS2 method refNum parts segments := by
  rw [splitUCS2] at h
  by_cases hfits : (runes text).length ≤ ucs2SingleMax
  · simp only [if_pos hfits] at h
    obtain rfl := Except.ok.inj h
    refine ⟨0, [runes text], cutting_ucs2_single hfits, carries_single ?_⟩
    rw [encode_ucs2, encodeUCS2_encodeRunes, encodeUCS2]
  · simp only [if_neg hfits] at h
    have hcut := cutting_ucs2 (not_le.mp hfits)
    have hlong := singleMax_lt_ucs2.mpr (not_le.mp hfits)
    exact ⟨_, _, hcut, carries_of_segmentsFrom (fun p => (encode_ucs2 p).symm)
      (hcut.one_lt (by decide) (by decide) hlong) h⟩

/-- The texts a coding can be split in. -/
def Splittable (text : Bytes) (coding : UInt8) : Prop :=
  text ≠ [] ∧ (coding = dataCodingDefault ∧ (∀ r ∈ runes text, isGSM7 r = true) ∨
    coding = dataCodingUCS2)

/-- **What `SplitMessage` returns**: segments that carry the parts of a cutting. -/
theorem splitMessage_ok (h : (splitMessage counter text coding method).2 = .ok segments) :
    Splittable text coding ∧ ∃ refNum parts,
      Cutting (measure coding) (runes text) parts ∧
      Carries coding method refNum parts segments := by
  rw [splitMessage] at h
  by_cases hempty : text.length = 0
  · rw [if_pos hempty] at h
    cases h
  have hne : text ≠ [] := fun h => hempty (by rw [h]; rfl)
  rw [if_neg hempty] at h
  by_cases hdefault : coding = dataCodingDefault
  · subst hdefault
    rw [if_pos rfl] at h
    obtain ⟨hall, hcut⟩ := splitGSM7_ok h
    exact ⟨⟨hne, .inl ⟨rfl, hall⟩⟩, hcut⟩
  · rw [if_neg hdefault] at h
    by_cases hucs2 : coding = dataCodingUCS2
    · subst hucs2
      rw [if_pos rfl] at h
      exact ⟨⟨hne, .inr rfl⟩, splitUCS2_ok h⟩
    · rw [if_neg hucs2] at h
      cases h

/-- `SplitMessage` returns segments for the texts of the coding. -/
theorem splitMessage_isOk_iff :
    (∃ segments, (splitMessage counter text coding method).2 = .ok segments) ↔
      Splittable text coding := by
  refine ⟨fun ⟨segments, h⟩ => (splitMessage_ok h).1, ?_⟩
  rintro ⟨hne, ⟨rfl, hall⟩ | rfl⟩
  · have hnonneg := gsm7CharCount_nonneg_iff.mpr hall
    have hlength : ¬ text.length = 0 := fun h => hne (length_eq_zero_iff.mp h)
    rw [splitMessage, if_neg hlength, if_pos rfl, splitGSM7]
    simp only [if_neg (not_lt.mpr hnonneg)]
    split
    · obtain ⟨⟨out, n⟩, hout⟩ := encodeGSM7_isOk_iff.mpr hall
      rw [hout]
      exact ⟨_, rfl⟩
    · refine exists_segmentsFrom fun part hpart => ?_
      obtain ⟨p, hp, rfl⟩ := mem_map.mp hpart
      obtain ⟨septets, hseptets⟩ := exists_toSeptets_of_mem hall hp
      exact ⟨packed septets, by rw [encodeGSM7_encodeRunes, hseptets]; rfl⟩
  · have hlength : ¬ text.length = 0 := fun h => hne (length_eq_zero_iff.mp h)
    rw [splitMessage, if_neg hlength, if_neg (by decide), if_pos rfl, splitUCS2]
    split
    · exact ⟨_, rfl⟩
    · exact exists_segmentsFrom fun part _ => ⟨_, rfl⟩

/-! ## Detection -/

/-- **Detection, counting, encoding and splitting agree** on every string,
whether it is text or not. -/
theorem codings_agree (text : Bytes) :
    (detectCoding text = dataCodingDefault ↔ ∃ out, encodeGSM7 text = .ok out) ∧
    ((∃ out, encodeGSM7 text = .ok out) ↔ 0 ≤ gsm7CharCount text) ∧
    (∀ out n, encodeGSM7 text = .ok (out, n) → gsm7CharCount text = n) ∧
    (text ≠ [] → ∀ counter method, ∃ segments,
      (splitMessage counter text (detectCoding text) method).2 = .ok segments) := by
  have hdetect : detectCoding text = dataCodingDefault ↔ ∀ r ∈ runes text, isGSM7 r = true := by
    rw [detectCoding, ← all_eq_true]
    cases (runes text).all isGSM7 <;> decide
  refine ⟨?_, ?_, fun out n h => ?_, fun hne counter method => ?_⟩
  · rw [hdetect, encodeGSM7_isOk_iff]
  · rw [encodeGSM7_isOk_iff, gsm7CharCount_nonneg_iff]
  · obtain ⟨septets, hseptets, -, rfl⟩ := encodeGSM7_eq_ok h
    rw [gsm7CharCount_eq (exists_toSeptets_iff.mp ⟨septets, hseptets⟩), length_toSeptets hseptets]
  · refine splitMessage_isOk_iff.mpr ⟨hne, ?_⟩
    by_cases hall : ∀ r ∈ runes text, isGSM7 r = true
    · exact .inl ⟨hdetect.mpr hall, hall⟩
    · have hnot : (runes text).all isGSM7 = false := by
        rwa [← Bool.not_eq_true, all_eq_true]
      exact .inr (by rw [detectCoding, hnot]; rfl)

end Smpp

end SmscGateway
