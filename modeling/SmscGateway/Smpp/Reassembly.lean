import SmscGateway.Smpp.Segment

/-!
# Putting segments together again

A receiver strips the header, decodes each segment and puts the texts one
behind the other. That gives the text back, because the parts are cut between
characters, and under the default alphabet no other way to cut has fewer parts
(`segments_reassemble`). The numbers of the segments are octets and wrap: they
are right for the texts that can be divided into 255 parts, and a text that
cannot is not refused (`numbering_exact_iff`).
-/

namespace SmscGateway

open List

namespace Smpp

/-! ## The receiver -/

/-- The payload of one of `k` segments. -/
def payloadOf (method : SplitMethod) (k : ℕ) (seg : Segment) : Bytes :=
  if method = .splitUDH ∧ 1 < k then seg.data.drop 6 else seg.data

/-- `DecodeGSM7` with the number of septets, or `DecodeUCS2`. -/
def decodePayload (coding : UInt8) (numSeptets : ℕ) (payload : Bytes) : Except CodingError Bytes :=
  if coding = dataCodingDefault then decodeGSM7 payload numSeptets else decodeUCS2 payload

/-- The segments in order, each with the number of septets of its part, decoded
and put one behind the other. -/
def reassemble (coding : UInt8) (method : SplitMethod) (segments : List Segment)
    (counts : List ℕ) : Except CodingError Bytes :=
  ((segments.zip counts).mapM fun (seg, numSeptets) =>
    decodePayload coding numSeptets (payloadOf method segments.length seg)).map List.flatten

/-- How many septets a part has. -/
def septetCount (part : List Char) : ℕ := (weight gsm7Len part).toNat

/-- **The parts of a text and the segments it comes back from**: each segment
is whole characters, and all of them together are the text. -/
structure Reassembles (text : Bytes) (coding : UInt8) (method : SplitMethod)
    (segments : List Segment) (parts : List (List Char)) : Prop where
  length : segments.length = parts.length
  characters : parts.flatten = runes text
  decoded : ∀ (i : ℕ) (part : List Char) (seg : Segment), parts[i]? = some part →
    segments[i]? = some seg →
    decodePayload coding (septetCount part) (payloadOf method segments.length seg) =
      .ok (encodeRunes part)
  joined : reassemble coding method segments (parts.map septetCount) = .ok text

/-- **No better cutting** of a text of the default alphabet. -/
structure Optimal (text : Bytes) (segments : List Segment) (parts : List (List Char)) : Prop where
  single : weight gsm7Len (runes text) ≤ 160 → segments.length = 1
  full : 160 < weight gsm7Len (runes text) →
    (∀ part ∈ parts, part ≠ [] ∧ weight gsm7Len part ≤ 153) ∧
    ∀ part ∈ parts.dropLast, 152 ≤ weight gsm7Len part
  fewest : 160 < weight gsm7Len (runes text) →
    ∀ parts', Division gsm7Len 153 (runes text) parts' → segments.length ≤ parts'.length

section Receiver

variable {coding : UInt8} {method : SplitMethod} {refNum : UInt16} {parts : List (List Char)}
  {segments : List Segment}

/-- The header is stripped. -/
theorem payloadOf_header (method : SplitMethod) (refNum : UInt16) (k i : ℕ) (payload : Bytes)
    (seqNum totalParts coding : UInt8) :
    payloadOf method k ⟨headerOf method refNum k i ++ payload, refNum, seqNum, totalParts, coding⟩ =
      payload := by
  rw [payloadOf, headerOf]
  split <;> rfl

/-- A part is decoded from what it was encoded to. -/
theorem decodePayload_encode {part : List Char} {payload : Bytes}
    (hcoding : coding = dataCodingDefault ∨ coding = dataCodingUCS2)
    (h : encode (encodeRunes part) coding = .ok payload) :
    decodePayload coding (septetCount part) payload = .ok (encodeRunes part) := by
  rcases hcoding with rfl | rfl
  · rw [encode_default] at h
    cases hpair : encodeGSM7 (encodeRunes part) with
    | error e =>
      rw [hpair] at h
      cases h
    | ok pair =>
      obtain ⟨out, n⟩ := pair
      rw [hpair] at h
      obtain rfl : out = payload := Except.ok.inj h
      obtain ⟨septets, hseptets, -, rfl⟩ := encodeGSM7_eq_ok hpair
      rw [runes_encodeRunes] at hseptets
      have hcount : septetCount part = septets.length := by
        rw [septetCount, ← length_toSeptets hseptets, Int.toNat_natCast]
      rw [hcount]
      exact decodeGSM7_encodeGSM7 hpair
  · rw [encode_ucs2] at h
    obtain rfl := Except.ok.inj h
    exact (decodeUCS2_encodeUCS2 _).trans (by rw [runes_encodeRunes])

theorem Carries.decoded (h : Carries coding method refNum parts segments)
    (hcoding : coding = dataCodingDefault ∨ coding = dataCodingUCS2) {i : ℕ} {part : List Char}
    {seg : Segment} (hpart : parts[i]? = some part) (hseg : segments[i]? = some seg) :
    decodePayload coding (septetCount part) (payloadOf method segments.length seg) =
      .ok (encodeRunes part) := by
  obtain ⟨payload, hpayload, hget⟩ := h.segment i part hpart
  rw [hseg] at hget
  cases hget
  rw [h.length, payloadOf_header]
  exact decodePayload_encode hcoding hpayload

/-- All segments are decoded, one after the other. -/
theorem Carries.reassemble_eq (h : Carries coding method refNum parts segments)
    (hcoding : coding = dataCodingDefault ∨ coding = dataCodingUCS2) :
    reassemble coding method segments (parts.map septetCount) =
      .ok (encodeRunes parts.flatten) := by
  have hloop : (segments.zip (parts.map septetCount)).mapM (fun (seg, numSeptets) =>
      decodePayload coding numSeptets (payloadOf method segments.length seg)) =
      .ok (parts.map encodeRunes) := by
    refine mapM_eq_ok (ext_getElem? fun i => ?_)
    rw [getElem?_map, getElem?_map, getElem?_map]
    cases hpart : parts[i]? with
    | none =>
      have hend : (segments.zip (parts.map septetCount)).length ≤ i := by
        have hlen := getElem?_eq_none_iff.mp hpart
        rw [length_zip, length_map]
        omega
      rw [getElem?_eq_none hend]
      rfl
    | some part =>
      obtain ⟨payload, -, hseg⟩ := h.segment i part hpart
      have hzip : (segments.zip (parts.map septetCount))[i]? = some (_, septetCount part) :=
        getElem?_zip_eq_some.mpr ⟨hseg, by rw [getElem?_map, hpart]; rfl⟩
      rw [hzip]
      exact congrArg some (h.decoded hcoding hpart hseg)
  rw [reassemble, hloop, encodeRunes_flatten]
  rfl

theorem Splittable.coding_eq {text : Bytes} (h : Splittable text coding) :
    coding = dataCodingDefault ∨ coding = dataCodingUCS2 := by
  rcases h.2 with ⟨hdefault, -⟩ | hucs2
  · exact .inl hdefault
  · exact .inr hucs2

end Receiver

/-- A tight cutting of a text of the default alphabet is the best. -/
theorem Cutting.optimal {text : Bytes} {parts : List (List Char)} {segments : List Segment}
    (hall : ∀ r ∈ runes text, isGSM7 r = true) (h : Cutting gsm7Measure (runes text) parts)
    (hlen : segments.length = parts.length) : Optimal text segments parts := by
  cases h with
  | single hfits => exact ⟨fun _ => hlen, fun hlong => absurd hfits (not_le.mpr hlong),
      fun hlong => absurd hfits (not_le.mpr hlong)⟩
  | several hlong hdiv htight =>
    have hheaviest : ∀ r ∈ parts.flatten, gsm7Len r ≤ 2 := fun r hr =>
      (gsm7Len_of_isGSM7 (hall r (hdiv.flatten ▸ hr))).2
    refine ⟨fun hfits => absurd hfits (not_le.mpr hlong), fun _ => ⟨?_, ?_⟩, fun _ parts' hdiv' => ?_⟩
    · exact fun part hpart => ⟨htight.ne_nil part hpart, hdiv.le part hpart⟩
    · intro part hpart
      have hlt : 153 < weight gsm7Len part + 2 := htight.lt_of_mem_dropLast hheaviest part hpart
      omega
    · rw [hlen]
      exact htight.length_le (gsm7Len_nonneg hall) hdiv.flatten hdiv'

/-- **Segmentation is undone by its receiver, and under the default alphabet it
is optimal.** -/
theorem segments_reassemble {counter : UInt32} {text : Bytes} {coding : UInt8}
    {method : SplitMethod} {segments : List Segment} (hvalid : IsText text)
    (h : (splitMessage counter text coding method).2 = .ok segments) :
    ∃ parts, Reassembles text coding method segments parts ∧
      (coding = dataCodingDefault → Optimal text segments parts) := by
  obtain ⟨hsplit, refNum, parts, hcut, hcarries⟩ := splitMessage_ok h
  refine ⟨parts, ⟨hcarries.length, hcut.flatten, fun i part seg => hcarries.decoded hsplit.coding_eq,
    ?_⟩, ?_⟩
  · rw [hcarries.reassemble_eq hsplit.coding_eq, hcut.flatten, hvalid.encodeRunes_runes]
  · rintro rfl
    rcases hsplit.2 with ⟨-, hall⟩ | hucs2
    · exact hcut.optimal hall hcarries.length
    · cases hucs2

/-- A text of 161 septets, one too many for a message of its own. -/
def longText : Bytes := encodeRunes (List.replicate 161 'a')

theorem runes_longText : runes longText = replicate 161 'a' := runes_encodeRunes _

theorem isGSM7_longText : ∀ r ∈ runes longText, isGSM7 r = true := by
  intro r hr
  rw [runes_longText] at hr
  rw [eq_of_mem_replicate hr]
  decide

theorem long_text_reassembles :
    ∃ segments parts, (splitMessage 0 longText dataCodingDefault .splitUDH).2 = .ok segments ∧
      Reassembles longText dataCodingDefault .splitUDH segments parts ∧
      Optimal longText segments parts := by
  have hne : longText ≠ [] := by decide
  obtain ⟨segments, h⟩ := splitMessage_isOk_iff.mpr
    (show Splittable longText dataCodingDefault from ⟨hne, .inl ⟨rfl, isGSM7_longText⟩⟩)
  obtain ⟨parts, hparts, hoptimal⟩ := segments_reassemble ⟨_, rfl⟩ h
  exact ⟨segments, parts, h, hparts, hoptimal rfl⟩

/-! ## Numbering -/

/-- **The numbers are right**: segment `i` is number `i + 1` of as many as there
are, under one reference, and its header says so. -/
def Numbered (method : SplitMethod) (segments : List Segment) : Prop :=
  ∃ refNum, ∀ (i : ℕ) (seg : Segment), segments[i]? = some seg →
    seg.seqNum.toNat = i + 1 ∧ seg.totalParts.toNat = segments.length ∧ seg.refNum = refNum ∧
    (method = .splitUDH → 1 < segments.length → ∃ totalParts seqNum payload,
      seg.data = udh refNum totalParts seqNum ++ payload ∧
      totalParts.toNat = segments.length ∧ seqNum.toNat = i + 1)

/-- The text can be divided into as many parts as an octet can count. -/
def Numberable (text : Bytes) (coding : UInt8) : Prop :=
  ∃ parts, Division (measure coding).weight (measure coding).segmentMax (runes text) parts ∧
    parts.length ≤ 255

section Numbering

variable {text : Bytes} {coding : UInt8} {method : SplitMethod} {refNum : UInt16}
  {parts : List (List Char)} {segments : List Segment}

theorem Carries.numbered (h : Carries coding method refNum parts segments)
    (hlen : parts.length ≤ 255) : Numbered method segments := by
  have hoctet : ∀ n ≤ 255, (UInt8.ofNat n).toNat = n := fun n hn => by
    rw [UInt8.toNat_ofNat', Nat.mod_eq_of_lt (by omega)]
  refine ⟨refNum, fun i seg hseg => ?_⟩
  have hi : i < parts.length := h.length ▸ (List.getElem?_eq_some_iff.mp hseg).1
  obtain ⟨payload, -, hget⟩ := h.segment i parts[i] (getElem?_eq_getElem hi)
  rw [hseg] at hget
  cases hget
  refine ⟨hoctet _ (by omega), (hoctet _ hlen).trans h.length.symm, rfl, fun hmethod hone => ?_⟩
  refine ⟨UInt8.ofNat parts.length, UInt8.ofNat (i + 1), payload, ?_, ?_, hoctet _ (by omega)⟩
  · dsimp only
    rw [headerOf, if_pos ⟨hmethod, h.length ▸ hone⟩]
  · exact (hoctet _ hlen).trans h.length.symm

/-- An octet counts no more than 255. -/
theorem Numbered.length_le (h : Numbered method segments) : segments.length ≤ 255 := by
  obtain ⟨refNum, hall⟩ := h
  rcases segments with _ | ⟨seg, segments⟩
  · exact Nat.zero_le _
  · obtain ⟨-, htotal, -⟩ := hall 0 seg rfl
    have hlt := seg.totalParts.toNat_lt
    omega

/-- What every character of a splittable text weighs. -/
theorem Splittable.weight_pos (h : Splittable text coding) :
    ∀ r ∈ runes text, 1 ≤ (measure coding).weight r ∧ (measure coding).weight r ≤ 2 := by
  intro r hr
  rcases h.2 with ⟨rfl, hall⟩ | rfl
  · exact gsm7Len_of_isGSM7 (hall r hr)
  · exact ⟨le_rfl, one_le_two⟩

/-- What the limits of both codings have in common. -/
theorem Splittable.limits (h : Splittable text coding) :
    2 ≤ (measure coding).segmentMax ∧ (measure coding).singleMax ≤ 160 := by
  rcases h.coding_eq with rfl | rfl <;> decide

/-- A text that fits into one message can be divided into its characters. -/
theorem Splittable.numberable_of_fits (h : Splittable text coding)
    (hfits : weight (measure coding).weight (runes text) ≤ (measure coding).singleMax) :
    Numberable text coding := by
  obtain ⟨hsegment, hsingle⟩ := h.limits
  refine ⟨(runes text).map fun r => [r], ⟨?_, fun part hpart => ?_⟩, ?_⟩
  · rw [← flatMap_def, flatMap_singleton']
  · obtain ⟨r, hr, rfl⟩ := mem_map.mp hpart
    have hle := (h.weight_pos r hr).2
    rw [weight_cons, weight_nil, add_zero]
    omega
  · have hcard : ((runes text).map (measure coding).weight).length • (1 : ℤ) ≤
        weight (measure coding).weight (runes text) := by
      refine card_nsmul_le_sum _ _ fun x hx => ?_
      obtain ⟨r, hr, rfl⟩ := mem_map.mp hx
      exact (h.weight_pos r hr).1
    rw [length_map, nsmul_eq_mul, mul_one] at hcard
    rw [length_map]
    omega

/-- The cutting has few parts just when the text can be divided into few. -/
theorem Cutting.length_le_iff (h : Cutting (measure coding) (runes text) parts)
    (hsplit : Splittable text coding) : parts.length ≤ 255 ↔ Numberable text coding := by
  cases h with
  | single hfits => exact iff_of_true (by simp) (hsplit.numberable_of_fits hfits)
  | several _ hdiv htight =>
    refine ⟨fun hlen => ⟨parts, hdiv, hlen⟩, fun ⟨parts', hdiv', hlen⟩ => ?_⟩
    have hnonneg : ∀ r ∈ runes text, 0 ≤ (measure coding).weight r := fun r hr => by
      have := hsplit.weight_pos r hr
      omega
    exact (htight.length_le hnonneg hdiv.flatten hdiv').trans hlen

/-- What `SplitMessage` returns is numbered right, when the text can be
divided into few enough parts. -/
theorem numbered_iff {counter : UInt32} (hsplit : Splittable text coding)
    (h : (splitMessage counter text coding method).2 = .ok segments) :
    Numbered method segments ↔ Numberable text coding := by
  obtain ⟨-, refNum, parts, hcut, hcarries⟩ := splitMessage_ok h
  rw [← hcut.length_le_iff hsplit]
  exact ⟨fun hnum => hcarries.length ▸ hnum.length_le, hcarries.numbered⟩

end Numbering

/-- **Numbering is exact**: what is returned is numbered right, and a text that
needs more parts than can be numbered is refused. -/
structure Exact (counter : UInt32) (text : Bytes) (coding : UInt8) (method : SplitMethod) :
    Prop where
  numbered : ∀ segments, (splitMessage counter text coding method).2 = .ok segments →
    Numbered method segments
  rejected : ¬ Numberable text coding → ∃ e, (splitMessage counter text coding method).2 = .error e

/-- **Numbering is exact for the texts that can be divided into 255 parts**, and
for those that cannot be split at all. -/
theorem numbering_exact_iff (counter : UInt32) (text : Bytes) (coding : UInt8)
    (method : SplitMethod) :
    Exact counter text coding method ↔ (Splittable text coding → Numberable text coding) := by
  constructor
  · intro h hsplit
    have hok : ∃ segments, (splitMessage counter text coding method).2 = .ok segments :=
      splitMessage_isOk_iff.mpr hsplit
    obtain ⟨segments, hsegments⟩ := hok
    exact (numbered_iff hsplit hsegments).mp (h.numbered segments hsegments)
  · intro h
    refine ⟨fun segments hsegments => ?_, fun hnot => ?_⟩
    · have hsplit := (splitMessage_ok hsegments).1
      exact (numbered_iff hsplit hsegments).mpr (h hsplit)
    · cases hresult : (splitMessage counter text coding method).2 with
      | error e => exact ⟨e, rfl⟩
      | ok segments => exact absurd (h (splitMessage_ok hresult).1) hnot

/-! ## Texts of blocks -/

section Blocks

variable {c c' : Char} {q k : ℕ}

theorem weight_replicate (hc : gsm7Len c = 1) (n : ℕ) :
    weight gsm7Len (replicate n c) = n := by
  rw [weight, map_replicate, hc, sum_replicate, nsmul_eq_mul, mul_one]

/-- Full parts of one character, and a last part of another. -/
def blocks (c c' : Char) (q k : ℕ) : List (List Char) :=
  List.replicate q (List.replicate 153 c) ++ [List.replicate k c']

theorem flatten_blocks : (blocks c c' q k).flatten =
    replicate (153 * q) c ++ replicate k c' := by
  rw [blocks, flatten_append, flatten_replicate_replicate, Nat.mul_comm,
    flatten_singleton]

theorem tight_blocks (hc : gsm7Len c = 1) (hc' : gsm7Len c' = 1) (hk : 0 < k) :
    Tight gsm7Len gsm7SegmentMax (blocks c c' q k) := by
  have hmem : ∀ part ∈ blocks c c' q k, part = replicate 153 c ∨ part = replicate k c' := by
    intro part hpart
    rcases mem_append.mp hpart with hpart | hpart
    · exact .inl (eq_of_mem_replicate hpart)
    · exact .inr (mem_singleton.mp hpart)
  have hone : ∀ part ∈ blocks c c' q k, ∀ a ∈ part.head?, gsm7Len a = 1 := by
    intro part hpart a ha
    rcases hmem part hpart with rfl | rfl
    · rw [eq_of_mem_replicate (mem_of_mem_head? ha), hc]
    · rw [eq_of_mem_replicate (mem_of_mem_head? ha), hc']
  constructor
  · intro part hpart hnil
    rcases hmem part hpart with rfl | rfl
    · cases hnil
    · exact hk.ne' (replicate_eq_nil_iff _ |>.mp hnil)
  · -- one full part at a time
    clear hmem
    induction q with
    | zero => exact .singleton _
    | succ q ih =>
      have hrest : blocks c c' (q + 1) k = replicate 153 c :: blocks c c' q k := rfl
      rw [hrest] at hone ⊢
      refine (ih fun part hpart => hone part (mem_cons_of_mem _ hpart)).cons
        fun next hnext a ha => ?_
      rw [weight_replicate hc, hone next (mem_cons_of_mem _ (mem_of_mem_head? hnext)) a ha]
      decide

theorem division_blocks (hc : gsm7Len c = 1) (hc' : gsm7Len c' = 1) (hk : k ≤ 153) :
    Division gsm7Len gsm7SegmentMax (replicate (153 * q) c ++ replicate k c')
      (blocks c c' q k) where
  flatten := flatten_blocks
  le := by
    intro part hpart
    rcases mem_append.mp hpart with hpart | hpart
    · rw [eq_of_mem_replicate hpart, weight_replicate hc]
      decide
    · rw [mem_singleton.mp hpart, weight_replicate hc', gsm7SegmentMax]
      exact_mod_cast hk

/-- **Such a text is cut into these parts.** -/
theorem Cutting.eq_blocks {parts : List (List Char)} (hc : gsm7Len c = 1) (hc' : gsm7Len c' = 1)
    (hpos : 0 < k) (hk : k ≤ 153) (hlong : 160 < 153 * q + k)
    (h : Cutting gsm7Measure (replicate (153 * q) c ++ replicate k c') parts) :
    parts = blocks c c' q k := by
  have hnonneg : ∀ r ∈ replicate (153 * q) c ++ replicate k c', 0 ≤ gsm7Len r := by
    intro r hr
    rcases mem_append.mp hr with hr | hr
    · rw [eq_of_mem_replicate hr, hc]
      decide
    · rw [eq_of_mem_replicate hr, hc']
      decide
  have hweight : gsm7SingleMax < weight gsm7Len
      (replicate (153 * q) c ++ replicate k c') := by
    rw [weight_append, weight_replicate hc, weight_replicate hc', gsm7SingleMax]
    omega
  exact h.unique hnonneg
    (.several hweight (division_blocks hc hc' hk) (tight_blocks hc hc' hpos))

end Blocks

/-- A text of blocks can be split. -/
theorem splittable_blocks {c c' : Char} {q k : ℕ} (hc : isGSM7 c = true) (hc' : isGSM7 c' = true)
    (hk : 0 < k) : Splittable
      (encodeRunes (replicate (153 * q) c ++ replicate k c')) dataCodingDefault := by
  have hrunes := runes_encodeRunes (replicate (153 * q) c ++ replicate k c')
  refine ⟨fun hnil => ?_, .inl ⟨rfl, fun r hr => ?_⟩⟩
  · rw [hnil] at hrunes
    have hlast := (append_eq_nil_iff.mp hrunes.symm).2
    exact hk.ne' (replicate_eq_nil_iff _ |>.mp hlast)
  · rw [hrunes] at hr
    rcases mem_append.mp hr with hr | hr
    · rwa [eq_of_mem_replicate hr]
    · rwa [eq_of_mem_replicate hr]

/-- One character more than 255 parts have room for. -/
def oversized : Bytes :=
  encodeRunes (List.replicate (153 * 255) 'a' ++ List.replicate 1 'a')

/-- It makes 256 segments, and each says that there are none. -/
theorem octet_count_wraps :
    ∃ segments, (splitMessage 0 oversized dataCodingDefault .splitUDH).2 = .ok segments ∧
      segments.length = 256 ∧ (∀ seg ∈ segments, seg.totalParts = 0) ∧
      ¬ Exact 0 oversized dataCodingDefault .splitUDH := by
  have hc : gsm7Len 'a' = 1 := by decide
  have hsplit : Splittable oversized dataCodingDefault :=
    splittable_blocks (by decide) (by decide) Nat.one_pos
  obtain ⟨segments, h⟩ := splitMessage_isOk_iff.mpr hsplit
  obtain ⟨-, refNum, parts, hcut, hcarries⟩ := splitMessage_ok h
  have hlen : parts.length = 256 := by
    rw [oversized, runes_encodeRunes] at hcut
    rw [hcut.eq_blocks hc hc Nat.one_pos (by decide) (by decide), blocks, length_append,
      length_replicate, length_singleton]
  refine ⟨segments, h, hcarries.length.trans hlen, fun seg hseg => ?_, fun hexact => ?_⟩
  · obtain ⟨i, hi, rfl⟩ := getElem_of_mem hseg
    have hi' : i < parts.length := hcarries.length ▸ hi
    obtain ⟨payload, -, hget⟩ := hcarries.segment i parts[i] (getElem?_eq_getElem hi')
    rw [getElem?_eq_getElem hi] at hget
    rw [Option.some.inj hget, hlen]
    rfl
  · have hle := (hexact.numbered segments h).length_le
    have := hcarries.length
    omega

end Smpp

end SmscGateway
