import SmscGateway.Smpp.Reassembly

/-!
# The octets of a segment

What the segments of `SplitMessage` look like to a network that carries 140
octets in a message. Septets fit. Under UCS2 the limits count characters, and a
character beyond U+FFFF takes two words, so a segment fits when it has few
enough of them (`segments_fit_iff`). A header of six octets has 48 bits, and the
septets follow it without the fill bit that would make it seven septets wide:
read as one septet field, a segment holds its part only when all its bits are
alike (`aligned_iff`).
-/

namespace SmscGateway

open List

namespace Smpp

/-! ## How long a segment is -/

/-- **Every segment fits an SMS**, and one of several without a header leaves
room for it. -/
structure Fits (method : SplitMethod) (segments : List Segment) : Prop where
  octets : ∀ seg ∈ segments, seg.data.length ≤ 140
  sar : method = .splitSAR → 1 < segments.length → ∀ seg ∈ segments, seg.data.length ≤ 134

/-- The octets a payload may have when there are `k` segments. -/
def payloadMax (k : ℕ) : ℕ := if 1 < k then 134 else 140

variable {k : ℕ} {l part : List Char} {parts : List (List Char)} {c : Char} {septets : Bytes}

/-- What the network asks of a segment, it asks of its payload. -/
theorem length_header_add_le_iff {method : SplitMethod} {refNum : UInt16} {i : ℕ}
    {payload : Bytes} :
    (headerOf method refNum k i ++ payload).length ≤ 140 ∧
      (method = .splitSAR → 1 < k → (headerOf method refNum k i ++ payload).length ≤ 134) ↔
    payload.length ≤ payloadMax k := by
  rw [length_append, headerOf, payloadMax]
  by_cases hone : 1 < k
  · cases method with
    | splitSAR =>
      simp only [hone, reduceCtorEq, false_and, if_false, if_true, length_nil, true_imp_iff]
      omega
    | splitUDH =>
      simp only [hone, reduceCtorEq, and_true, if_true, false_imp_iff, udh, length_cons,
        length_nil]
      omega
  · simp only [hone, and_false, if_false, length_nil, false_imp_iff, imp_true_iff, and_true]
    omega

section Length

variable {coding : UInt8} {method : SplitMethod} {refNum : UInt16} {parts : List (List Char)}
  {segments : List Segment}

/-- The segments fit when the parts do. -/
theorem Carries.fits_iff (h : Carries coding method refNum parts segments) :
    Fits method segments ↔ ∀ part ∈ parts, ∀ payload,
      encode (encodeRunes part) coding = .ok payload → payload.length ≤ payloadMax parts.length := by
  constructor
  · intro hfits part hpart payload hpayload
    obtain ⟨i, hi, rfl⟩ := getElem_of_mem hpart
    obtain ⟨payload', hpayload', hseg⟩ := h.segment i parts[i] (getElem?_eq_getElem hi)
    obtain rfl : payload' = payload := Except.ok.inj (hpayload'.symm.trans hpayload)
    have hmem := mem_of_getElem? hseg
    exact length_header_add_le_iff.mp
      ⟨hfits.octets _ hmem, fun hsar hone => hfits.sar hsar (h.length ▸ hone) _ hmem⟩
  · intro hall
    have hseg : ∀ seg ∈ segments, seg.data.length ≤ 140 ∧
        (method = .splitSAR → 1 < parts.length → seg.data.length ≤ 134) := by
      intro seg hseg
      obtain ⟨i, hi, rfl⟩ := getElem_of_mem hseg
      have hi' : i < parts.length := h.length ▸ hi
      obtain ⟨payload, hpayload, hget⟩ := h.segment i parts[i] (getElem?_eq_getElem hi')
      rw [getElem?_eq_getElem hi] at hget
      rw [Option.some.inj hget]
      exact length_header_add_le_iff.mpr (hall _ (getElem_mem hi') payload hpayload)
    exact ⟨fun seg hmem => (hseg seg hmem).1,
      fun hsar hone seg hmem => (hseg seg hmem).2 hsar (h.length ▸ hone)⟩

/-- Seven bits for each septet, and the last octet filled up. -/
theorem length_payload_gsm7 {part : List Char} {payload : Bytes}
    (h : encode (encodeRunes part) dataCodingDefault = .ok payload) :
    8 * (payload.length : ℤ) ≤ 7 * weight gsm7Len part + 7 := by
  rw [encode_default, encodeGSM7_encodeRunes] at h
  cases hseptets : toSeptets part with
  | error e =>
    rw [hseptets] at h
    cases h
  | ok septets =>
    rw [hseptets] at h
    obtain rfl : packed septets = payload := Except.ok.inj h
    have hlen := length_packed septets
    have hcount := length_toSeptets hseptets
    omega

/-- The character takes two words in UTF-16. -/
def isSupplementary (r : Char) : Bool := 0x10000 ≤ r.toNat

/-- The words a part takes in UTF-16. -/
def utf16Length (part : List Char) : ℕ := part.length + part.countP isSupplementary

theorem length_utf16Words (r : Char) :
    (utf16Words r).length = if isSupplementary r then 2 else 1 := by
  rw [utf16Words, isSupplementary]
  by_cases hr : r.toNat < 0x10000
  · rw [if_pos hr, decide_eq_false (by omega)]
    rfl
  · rw [if_neg hr, decide_eq_true (by omega)]
    rfl

theorem length_flatMap_utf16Words (part : List Char) :
    (part.flatMap utf16Words).length = utf16Length part := by
  induction part with
  | nil => rfl
  | cons r part ih =>
    rw [flatMap_cons, length_append, length_utf16Words, ih, utf16Length, utf16Length,
      length_cons, countP_cons]
    split <;> omega

/-- Two octets for each word. -/
theorem length_payload_ucs2 {part : List Char} {payload : Bytes}
    (h : encode (encodeRunes part) dataCodingUCS2 = .ok payload) :
    payload.length = 2 * utf16Length part := by
  rw [encode_ucs2, encodeUCS2_encodeRunes] at h
  obtain rfl := Except.ok.inj h
  rw [← length_flatMap_utf16Words, length_flatMap]
  simp [Nat.mul_comm]

end Length

/-- Block `i` of 67 characters. -/
def block (l : List Char) (i : ℕ) : List Char := (l.drop (67 * i)).take 67

/-- **The texts whose characters take few enough words**: all together if they
go into one message, and else in every block of 67. -/
def FitsUCS2 (l : List Char) : Prop :=
  if l.length ≤ 70 then utf16Length l ≤ 70 else ∀ i, utf16Length (block l i) ≤ 67

/-- Septets fit. -/
theorem Cutting.fits_gsm7 (h : Cutting gsm7Measure l parts) (hpart : part ∈ parts) {payload : Bytes}
    (hpayload : encode (encodeRunes part) dataCodingDefault = .ok payload) :
    payload.length ≤ payloadMax parts.length := by
  have hlen := length_payload_gsm7 hpayload
  cases h with
  | single hfits =>
    have hle : weight gsm7Len l ≤ 160 := hfits
    rw [mem_singleton.mp hpart] at hlen
    rw [payloadMax, if_neg (by simp)]
    omega
  | several _ hdiv _ =>
    have hle : weight gsm7Len part ≤ 153 := hdiv.le part hpart
    rw [payloadMax]
    split <;> omega

/-- Words fit when there are few enough. -/
theorem Cutting.fits_ucs2 (h : Cutting ucs2Measure l parts) :
    (∀ part ∈ parts, ∀ payload, encode (encodeRunes part) dataCodingUCS2 = .ok payload →
      payload.length ≤ payloadMax parts.length) ↔ FitsUCS2 l := by
  have hoctets : (∀ part ∈ parts, ∀ payload,
      encode (encodeRunes part) dataCodingUCS2 = .ok payload →
      payload.length ≤ payloadMax parts.length) ↔
      ∀ part ∈ parts, 2 * utf16Length part ≤ payloadMax parts.length := by
    refine forall₂_congr fun part _ => ⟨fun hall => ?_, fun hle payload hpayload => ?_⟩
    · have hlen := hall _ (encode_ucs2 _)
      rwa [length_payload_ucs2 (encode_ucs2 _)] at hlen
    · rwa [length_payload_ucs2 hpayload]
  rw [hoctets, FitsUCS2]
  by_cases hfits : l.length ≤ 70
  · rw [h.unique (fun _ _ => zero_le_one) (cutting_ucs2_single hfits), if_pos hfits, payloadMax,
      if_neg (by simp)]
    simp only [mem_singleton, forall_eq]
    omega
  · have hlong : ucs2SingleMax < l.length := not_le.mp hfits
    have hcut := cutting_ucs2 hlong
    have hone := hcut.one_lt (by decide) (by decide) (singleMax_lt_ucs2.mpr hlong)
    rw [h.unique (fun _ _ => zero_le_one) hcut, if_neg hfits, payloadMax, if_pos hone]
    constructor
    · intro hall i
      by_cases hi : 67 * i < l.length
      · have hget : (splitRuneChunks l ucs2SegmentMax)[i]? = some (block l i) := by
          rw [getElem?_splitRuneChunks, if_pos hi, block]
        have := hall _ (mem_of_getElem? hget)
        omega
      · -- there are no characters any more
        rw [block, drop_eq_nil_of_le (not_lt.mp hi)]
        decide
    · intro hall part hpart
      obtain ⟨i, hi, rfl⟩ := getElem_of_mem hpart
      have hget := getElem?_eq_getElem hi
      rw [getElem?_splitRuneChunks] at hget
      split at hget
      · have := hall i
        rw [← Option.some.inj hget]
        rw [block] at this
        omega
      · cases hget

/-- **Every segment fits, but for characters that take two words.** -/
theorem segments_fit_iff (counter : UInt32) (text : Bytes) (coding : UInt8) (method : SplitMethod) :
    (∀ segments, (splitMessage counter text coding method).2 = .ok segments →
      Fits method segments) ↔
    (coding = dataCodingUCS2 → FitsUCS2 (runes text)) := by
  constructor
  · rintro hall rfl
    by_cases hempty : text = []
    · rw [hempty, FitsUCS2, if_pos (by decide)]
      decide
    have hok : ∃ segments, (splitMessage counter text dataCodingUCS2 method).2 = .ok segments :=
      splitMessage_isOk_iff.mpr ⟨hempty, .inr rfl⟩
    obtain ⟨segments, h⟩ := hok
    obtain ⟨-, refNum, parts, hcut, hcarries⟩ := splitMessage_ok h
    exact hcut.fits_ucs2.mp (hcarries.fits_iff.mp (hall segments h))
  · intro hfits segments h
    obtain ⟨hsplit, refNum, parts, hcut, hcarries⟩ := splitMessage_ok h
    refine hcarries.fits_iff.mpr ?_
    rcases hsplit.coding_eq with rfl | rfl
    · exact fun part hpart payload hpayload => hcut.fits_gsm7 hpart hpayload
    · exact hcut.fits_ucs2.mpr (hfits rfl)

/-- Seventy characters that take two words each. -/
def emoji : Bytes := encodeRunes (List.replicate 70 '😀')

/-- They go into one segment, of 280 octets. -/
theorem emoji_do_not_fit :
    ∃ segments, (splitMessage 0 emoji dataCodingUCS2 .splitSAR).2 = .ok segments ∧
      segments.map (·.data.length) = [280] ∧ ¬ Fits .splitSAR segments := by
  have hne : emoji ≠ [] := by decide
  have hok : ∃ segments, (splitMessage 0 emoji dataCodingUCS2 .splitSAR).2 = .ok segments :=
    splitMessage_isOk_iff.mpr ⟨hne, .inr rfl⟩
  obtain ⟨segments, h⟩ := hok
  obtain ⟨-, refNum, parts, hcut, hcarries⟩ := splitMessage_ok h
  rw [emoji, runes_encodeRunes] at hcut
  have hsingle := cutting_ucs2_single
    (show (List.replicate 70 '😀').length ≤ ucs2SingleMax from length_replicate.le)
  obtain rfl := hcut.unique (fun _ _ => zero_le_one) hsingle
  obtain ⟨payload, hpayload, hget⟩ := hcarries.segment 0 _ rfl
  obtain ⟨seg, rfl⟩ := length_eq_one_iff.mp hcarries.length
  have hlen : payload.length = 280 := by
    rw [length_payload_ucs2 hpayload]
    decide
  cases hget
  have hdata : [headerOf .splitSAR refNum 1 0 ++ payload].map List.length = [280] := by
    rw [headerOf, if_neg (by decide), nil_append, map_singleton, hlen]
  refine ⟨_, h, hdata, fun hfits => ?_⟩
  have hle := hcarries.fits_iff.mp hfits _ mem_cons_self payload hpayload
  rw [hlen] at hle
  exact absurd hle (by decide)

/-! ## Where the septets are -/

/-- The `k` septets of a field behind a header that counts as seven, bit by
bit. -/
def fieldBits (data : Bytes) (k : ℕ) : List Bool := ((bits 8 data).drop 49).take (7 * k)

/-- **The septets are where a field of septets has them**, in every segment
with a header. -/
def Aligned (counter : UInt32) (text : Bytes) : Prop :=
  ∀ segments, (splitMessage counter text dataCodingDefault .splitUDH).2 = .ok segments →
    1 < segments.length → ∀ (i : ℕ) (part : Bytes) (seg : Segment) (septets : Bytes),
    (splitTextBySeptets text gsm7SegmentMax)[i]? = some part → segments[i]? = some seg →
    toSeptets (runes part) = .ok septets → fieldBits seg.data septets.length = bits 7 septets

/-- The bit behind `n` packed septets: none when they end with an octet, and
the first of the fill code when there is one. -/
def fillBit (n : ℕ) : Option Bool :=
  if n % 8 = 0 then none else if n % 8 = 7 then some true else some false

section Field

variable {septets : Bytes}

/-- Packed septets, and what the last octet is filled up with. -/
theorem bits_packed_eq_append (hs : IsSeptets septets) :
    ∃ fill, bits 8 (packed septets) = bits 7 septets ++ fill ∧
      fill.head? = fillBit septets.length := by
  have hlen := length_packed septets
  have hfilled := length_filled septets
  have hfit : 7 * (filled septets).length ≤ 8 * (packed septets).length := by omega
  have hbits := bits_eq_append (by decide) (by decide) hfit (bitAt_packed hs)
  rw [hbits, fillBit]
  by_cases hcr : septets.length % 8 = 7
  · rw [filled, if_pos hcr, bits_append, append_assoc]
    refine ⟨_, rfl, ?_⟩
    rw [if_neg (by omega), if_pos hcr]
    rfl
  · rw [filled, if_neg hcr]
    refine ⟨_, rfl, ?_⟩
    rw [if_neg hcr, head?_replicate]
    by_cases hzero : septets.length % 8 = 0
    · rw [if_pos hzero, if_pos (by omega)]
    · rw [if_neg hzero, if_neg (by omega)]

/-- **A header of six octets moves the septets by one bit.** They are read
only if all bits are the one behind them. -/
theorem fieldBits_eq_iff (hs : IsSeptets septets) (hne : septets ≠ []) (refNum : UInt16)
    (totalParts seqNum : UInt8) :
    fieldBits (udh refNum totalParts seqNum ++ packed septets) septets.length = bits 7 septets ↔
      ∃ b, fillBit septets.length = some b ∧
        bits 7 septets = replicate (7 * septets.length) b := by
  obtain ⟨fill, hfill, hhead⟩ := bits_packed_eq_append hs
  have hheader : (bits 8 (udh refNum totalParts seqNum)).length = 48 := length_bits 8 _
  have hshift : (bits 8 (udh refNum totalParts seqNum ++ packed septets)).drop 49 =
      (bits 7 septets ++ fill).drop 1 := by
    rw [bits_append, hfill, show 49 = (bits 8 (udh refNum totalParts seqNum)).length + 1 by
      rw [hheader], drop_length_add_append]
  have hlen : 7 * septets.length = (bits 7 septets).length := (length_bits 7 septets).symm
  have hbits : bits 7 septets ≠ [] := by
    rw [← length_pos_iff, length_bits]
    have := length_pos_iff.mpr hne
    omega
  rw [fieldBits, hshift, hlen, take_drop_one_eq_iff, or_iff_right hbits, hhead]

/-- Septets all of whose bits are alike. -/
theorem bits_eq_replicate_iff (hs : IsSeptets septets) (b : Bool) :
    bits 7 septets = replicate (7 * septets.length) b ↔
      septets = replicate septets.length (if b then 127 else 0) := by
  have hcheck : ∀ n < 128, ∀ b : Bool, (range 7).map n.testBit = replicate 7 b ↔
      n = if b then 127 else 0 := by decide +kernel
  induction septets with
  | nil => simp
  | cons s septets ih =>
    have hseptet : (range 7).map s.toNat.testBit = replicate 7 b ↔
        s = if b then 127 else 0 := by
      rw [hcheck _ (hs s mem_cons_self), ← UInt8.toNat_inj]
      cases b <;> rfl
    have hrest := ih fun x hx => hs x (mem_cons_of_mem _ hx)
    rw [bits_cons, length_cons, Nat.mul_succ, Nat.add_comm, replicate_add,
      replicate_succ]
    constructor
    · intro heq
      obtain ⟨hfirst, hlater⟩ := append_inj heq (by simp)
      exact congrArg₂ cons (hseptet.mp hfirst) (hrest.mp hlater)
    · intro heq
      obtain ⟨hfirst, hlater⟩ := cons.inj heq
      exact congrArg₂ _ (hseptet.mpr hfirst) (hrest.mpr hlater)

end Field

/-! ## Runs of one character -/

theorem toSeptets_replicate {code : UInt8} (h : gsm7Septets c = .ok [code]) (n : ℕ) :
    toSeptets (replicate n c) = .ok (replicate n code) := by
  induction n with
  | zero => rfl
  | succ n ih =>
    rw [replicate_succ, toSeptets, h]
    simp only [ih]
    rfl

/-- Septets spell one text. -/
theorem toSeptets_injective {l' : List Char} (h : toSeptets l = .ok septets)
    (h' : toSeptets l' = .ok septets) : l = l' := by
  have hread := (spells_of_toSeptets h).fromSeptets []
  have hread' := (spells_of_toSeptets h').fromSeptets []
  rw [hread, append_cancel_right_eq] at hread'
  exact hread'

/-- The runs of one character that read the same one bit late. -/
def Uniform (c : Char) (k : ℕ) : Prop :=
  c = '@' ∧ k % 8 ≠ 0 ∧ k % 8 ≠ 7 ∨ c = 'à' ∧ k % 8 = 7

theorem Uniform.gsm7Len_eq (h : Uniform c k) : gsm7Len c = 1 := by
  rcases h with ⟨rfl, -⟩ | ⟨rfl, -⟩ <;> decide +kernel

/-- The part is such a run. -/
def IsRun (part : List Char) : Prop :=
  ∃ c, Uniform c part.length ∧ part = List.replicate part.length c

theorem isRun_replicate (h : Uniform c k) : IsRun (replicate k c) :=
  ⟨c, by rwa [length_replicate], by rw [length_replicate]⟩

/-- The runs are the parts whose bits are all the one behind them. -/
theorem isRun_iff (h : toSeptets part = .ok septets) : (∃ b, fillBit septets.length = some b ∧
      bits 7 septets = replicate (7 * septets.length) b) ↔ IsRun part := by
  have hs := isSeptets_toSeptets h
  have hat : ∀ n, toSeptets (replicate n '@') = .ok (replicate n 0) :=
    toSeptets_replicate (by decide +kernel)
  have hgrave : ∀ n, toSeptets (replicate n 'à') = .ok (replicate n 127) :=
    toSeptets_replicate (by decide +kernel)
  constructor
  · rintro ⟨b, hfill, hbits⟩
    have hseptets := (bits_eq_replicate_iff hs b).mp hbits
    rw [fillBit] at hfill
    obtain ⟨hzero, hfill⟩ := Option.ite_none_left_eq_some.mp hfill
    split at hfill
    · rename_i hseven
      cases hfill
      have hpart := toSeptets_injective h ((hgrave _).trans (congrArg Except.ok hseptets.symm))
      exact hpart ▸ isRun_replicate (.inr ⟨rfl, hseven⟩)
    · rename_i hseven
      cases hfill
      have hpart := toSeptets_injective h ((hat _).trans (congrArg Except.ok hseptets.symm))
      exact hpart ▸ isRun_replicate (.inl ⟨rfl, hzero, hseven⟩)
  · rintro ⟨c, hc, hpart⟩
    generalize part.length = k at hc hpart
    subst hpart
    rcases hc with ⟨rfl, hzero, hseven⟩ | ⟨rfl, hseven⟩
    · obtain rfl : replicate k 0 = septets := Except.ok.inj ((hat k).symm.trans h)
      refine ⟨false, ?_, (bits_eq_replicate_iff hs false).mpr ?_⟩
      · rw [length_replicate, fillBit, if_neg hzero, if_neg hseven]
      · rw [length_replicate]
        rfl
    · obtain rfl : replicate k 127 = septets := Except.ok.inj ((hgrave k).symm.trans h)
      refine ⟨true, ?_, (bits_eq_replicate_iff hs true).mpr ?_⟩
      · rw [length_replicate, fillBit, if_neg (by omega), if_pos hseven]
      · rw [length_replicate]
        rfl

/-- **The texts that read the same one bit late**: full parts of `@`, and a last
part that is a run. -/
def AlignedText (l : List Char) : Prop :=
  ∃ q k c, l = List.replicate (153 * q) '@' ++ List.replicate k c ∧ 0 < k ∧ k ≤ 153 ∧ Uniform c k

/-- All parts are runs for just these texts. -/
theorem Cutting.isRun_iff (h : Cutting gsm7Measure l parts) (hl : ∀ r ∈ l, isGSM7 r = true)
    (hlong : gsm7SingleMax < weight gsm7Len l) : (∀ part ∈ parts, IsRun part) ↔ AlignedText l := by
  constructor
  · intro hruns
    cases h with
    | single hfits => exact absurd hfits (not_le.mpr hlong)
    | several _ hdiv htight =>
      have hheaviest : ∀ r ∈ parts.flatten, gsm7Len r ≤ 2 := fun r hr =>
        (gsm7Len_of_isGSM7 (hl r (hdiv.flatten ▸ hr))).2
      have hparts : parts ≠ [] := by
        rintro rfl
        rw [← hdiv.flatten] at hlong
        cases hlong
      have hmem := getLast_mem hparts
      obtain ⟨c, hc, hlast⟩ := hruns _ hmem
      -- 152 septets end with an octet, and 153 are read only as zeros
      have hfull : ∀ part ∈ parts.dropLast, part = replicate 153 '@' := by
        intro part hpart
        obtain ⟨c, hc, hrun⟩ := hruns part (mem_of_mem_dropLast hpart)
        have hle : weight gsm7Len part ≤ 153 := hdiv.le part (mem_of_mem_dropLast hpart)
        have hlt : 153 < weight gsm7Len part + 2 := htight.lt_of_mem_dropLast hheaviest part hpart
        rw [hrun, weight_replicate hc.gsm7Len_eq] at hle hlt
        rcases hc with ⟨rfl, hzero, -⟩ | ⟨rfl, hseven⟩
        · have hlen : part.length = 153 := by omega
          rwa [hlen] at hrun
        · omega
      have hq := eq_replicate_of_mem hfull
      have hpos : 0 < (parts.getLast hparts).length :=
        length_pos_iff.mpr (htight.ne_nil _ hmem)
      have hle : weight gsm7Len (parts.getLast hparts) ≤ 153 := hdiv.le _ hmem
      rw [hlast, weight_replicate hc.gsm7Len_eq] at hle
      have hblocks : parts =
          blocks '@' c parts.dropLast.length (parts.getLast hparts).length := by
        rw [blocks, ← hq, ← hlast, dropLast_append_getLast]
      refine ⟨parts.dropLast.length, _, c, ?_, hpos, by omega, hc⟩
      calc l = parts.flatten := hdiv.flatten.symm
        _ = (blocks '@' c parts.dropLast.length (parts.getLast hparts).length).flatten :=
          congrArg List.flatten hblocks
        _ = _ := flatten_blocks
  · rintro ⟨q, k, c, rfl, hpos, hk, hc⟩
    have hat : gsm7Len '@' = 1 := by decide +kernel
    have hsum : 160 < 153 * q + k := by
      rw [weight_append, weight_replicate hat, weight_replicate hc.gsm7Len_eq, gsm7SingleMax] at hlong
      omega
    rw [h.eq_blocks hat hc.gsm7Len_eq hpos hk hsum]
    intro part hpart
    rcases mem_append.mp hpart with hpart | hpart
    · rw [eq_of_mem_replicate hpart]
      exact isRun_replicate (.inl ⟨rfl, by decide⟩)
    · rw [mem_singleton.mp hpart]
      exact isRun_replicate hc

/-- What is read of a segment with a header. -/
theorem Carries.fieldBits_iff {refNum : UInt16} {segments : List Segment}
    (h : Carries dataCodingDefault .splitUDH refNum parts segments) (hone : 1 < parts.length)
    {i : ℕ} {seg : Segment} (hpart : parts[i]? = some part) (hne : part ≠ [])
    (hseg : segments[i]? = some seg) (hseptets : toSeptets part = .ok septets) :
    fieldBits seg.data septets.length = bits 7 septets ↔ IsRun part := by
  obtain ⟨payload, hpayload, hget⟩ := h.segment i part hpart
  rw [hseg] at hget
  cases hget
  rw [encode_default, encodeGSM7_encodeRunes, hseptets] at hpayload
  obtain rfl : packed septets = payload := Except.ok.inj hpayload
  have hsome : septets ≠ [] := by
    rintro rfl
    exact hne (toSeptets_injective hseptets rfl)
  rw [headerOf, if_pos ⟨rfl, hone⟩, fieldBits_eq_iff (isSeptets_toSeptets hseptets) hsome]
  exact isRun_iff hseptets

/-- **Almost no text is aligned.** -/
theorem aligned_iff_of_long {counter : UInt32} {text : Bytes}
    (hlong : 160 < gsm7CharCount text) :
    Aligned counter text ↔ AlignedText (runes text) := by
  have hall := gsm7CharCount_nonneg_iff.mp (show 0 ≤ gsm7CharCount text by omega)
  have hweight : gsm7SingleMax < weight gsm7Len (runes text) := gsm7CharCount_eq hall ▸ hlong
  have hcut := cutting_gsm7 hall hweight
  have hone := hcut.one_lt (by decide) (by decide) hweight
  have hne : ∀ part ∈ greedy gsm7Len gsm7SegmentMax (runes text), part ≠ [] :=
    (tight_greedy (gsm7Len_le_segmentMax hall)).ne_nil
  have hparts : ∀ i, (splitTextBySeptets text gsm7SegmentMax)[i]? =
      (greedy gsm7Len gsm7SegmentMax (runes text))[i]?.map encodeRunes := fun i => by
    rw [splitTextBySeptets, getElem?_map]
  -- the parts are those of the loop
  have hcarries : ∀ segments,
      (splitMessage counter text dataCodingDefault .splitUDH).2 = .ok segments →
      ∃ refNum, Carries dataCodingDefault .splitUDH refNum
        (greedy gsm7Len gsm7SegmentMax (runes text)) segments := by
    intro segments h
    obtain ⟨-, refNum, parts, hcut', hcarries⟩ := splitMessage_ok h
    exact ⟨refNum, hcut'.unique (gsm7Len_nonneg hall) hcut ▸ hcarries⟩
  rw [← hcut.isRun_iff hall hweight]
  constructor
  · intro haligned part hpart
    have hempty : text ≠ [] := by
      rintro rfl
      exact absurd hlong (by decide)
    have hok : ∃ segments, (splitMessage counter text dataCodingDefault .splitUDH).2 = .ok segments :=
      splitMessage_isOk_iff.mpr ⟨hempty, .inl ⟨rfl, hall⟩⟩
    obtain ⟨segments, h⟩ := hok
    obtain ⟨refNum, hcarries⟩ := hcarries segments h
    obtain ⟨septets, hseptets⟩ := exists_toSeptets_of_mem hall hpart
    obtain ⟨i, hget⟩ := mem_iff_getElem?.mp hpart
    have hi := (List.getElem?_eq_some_iff.mp hget).1
    have hseg := getElem?_eq_getElem (hcarries.length ▸ hi)
    refine (hcarries.fieldBits_iff hone hget (hne _ hpart) hseg hseptets).mp ?_
    have hpart' : (splitTextBySeptets text gsm7SegmentMax)[i]? = some (encodeRunes part) := by
      rw [hparts, hget]
      rfl
    refine haligned segments h (hcarries.length ▸ hone) i _ _ septets hpart' hseg ?_
    rwa [runes_encodeRunes]
  · intro hruns segments h _ i part seg septets hpart hseg hseptets
    obtain ⟨refNum, hcarries⟩ := hcarries segments h
    rw [hparts] at hpart
    obtain ⟨p, hget, rfl⟩ := Option.map_eq_some_iff.mp hpart
    rw [runes_encodeRunes] at hseptets
    have hmem := mem_of_getElem? hget
    exact (hcarries.fieldBits_iff hone hget (hne p hmem) hseg hseptets).mpr (hruns p hmem)

/-- **The septets are one bit early**, unless all of them are alike. -/
theorem aligned_iff (counter : UInt32) (text : Bytes) :
    Aligned counter text ↔ (160 < gsm7CharCount text → AlignedText (runes text)) := by
  constructor
  · intro h hlong
    exact (aligned_iff_of_long hlong).mp h
  · intro h
    by_cases hlong : 160 < gsm7CharCount text
    · exact (aligned_iff_of_long hlong).mpr (h hlong)
    · -- there is one segment, and no header
      intro segments hsegments hone
      obtain ⟨hsplit, refNum, parts, hcut, hcarries⟩ := splitMessage_ok hsegments
      rcases hsplit.2 with ⟨-, hall⟩ | hucs2
      · rw [gsm7CharCount_eq hall] at hlong
        cases hcut with
        | single => exact absurd hone (by rw [hcarries.length]; simp)
        | several hlong' => exact absurd hlong' hlong
      · cases hucs2

/-- A text of two segments that are not. -/
theorem long_text_is_not_aligned : 160 < gsm7CharCount longText ∧ ¬ Aligned 0 longText := by
  have hlong : 160 < gsm7CharCount longText := by
    rw [gsm7CharCount_eq isGSM7_longText, runes_longText, weight_replicate (by decide)]
    decide
  refine ⟨hlong, fun h => ?_⟩
  obtain ⟨q, k, c, heq, -, hk, -⟩ := (aligned_iff_of_long hlong).mp h
  rw [runes_longText] at heq
  have hlen := congrArg List.length heq
  rw [length_append, length_replicate, length_replicate, length_replicate] at hlen
  -- so there is an `@`
  have hmem : '@' ∈ List.replicate 161 'a' := by
    rw [heq]
    exact mem_append_left _ (mem_replicate.mpr ⟨by omega, rfl⟩)
  exact absurd (eq_of_mem_replicate hmem) (by decide)

end Smpp

end SmscGateway
