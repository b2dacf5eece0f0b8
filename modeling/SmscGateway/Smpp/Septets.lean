import SmscGateway.Smpp.Unpacked

/-!
# Reading septets back

What `DecodeGSM7` makes of packed septets. Its loop finds in septet `i` the bits
from `7 * i` on (`septetAt_of_lt`), and stops only when there is no byte at all
for a septet to begin in: one that begins in the last byte and goes on behind it
is filled up with zeros. Over what `EncodeGSM7` has packed, this gives the
septets back, and the fill code when the number of septets is guessed from the
number of bytes.
-/

namespace SmscGateway

open List

namespace Smpp

/-! ## The unpacking loop -/

theorem testBit_and_0x7F (x : UInt8) (j : ℕ) :
    (x &&& 0x7F).toNat.testBit j = (x.toNat.testBit j && decide (j < 7)) := by
  have hmask : (0x7F : UInt8).toNat = 2 ^ 7 - 1 := rfl
  rw [UInt8.toNat_and, Nat.testBit_and, hmask, Nat.testBit_two_pow_sub_one]

theorem testBit_eq_false_of_le (x : UInt8) {j : ℕ} (h : 8 ≤ j) : x.toNat.testBit j = false := by
  have hpow : 2 ^ 8 ≤ 2 ^ j := Nat.pow_le_pow_right (by decide) h
  exact Nat.testBit_lt_two_pow (lt_of_lt_of_le x.toNat_lt hpow)

variable {i n : ℕ} {data septets text : Bytes} {r : Char} {l : List Char}

/-- What the first byte of a septet contributes. -/
theorem testBit_low (data : Bytes) {j : ℕ} (hj : j < 7) :
    (data.getD (i * 7 / 8) 0).toNat.testBit (i * 7 % 8 + j) =
      (decide (i * 7 % 8 + j < 8) && bitAt 8 data (7 * i + j)) := by
  by_cases hlt : i * 7 % 8 + j < 8
  · rw [decide_eq_true hlt, Bool.true_and, bitAt, show (7 * i + j) / 8 = i * 7 / 8 by omega,
      show (7 * i + j) % 8 = i * 7 % 8 + j by omega]
  · rw [decide_eq_false hlt, Bool.false_and, testBit_eq_false_of_le _ (by omega)]

/-- **One turn of the unpacking loop** finds seven bits; those behind the end
of the data count as zeros. -/
theorem septetAt_of_lt (h : i * 7 / 8 < data.length) : ∃ s, septetAt data i = .ok s ∧
      ∀ j, s.toNat.testBit j = (decide (j < 7) && bitAt 8 data (7 * i + j)) := by
  have hpos : i * 7 % 8 < 8 := Nat.mod_lt _ (by omega)
  rw [septetAt, if_neg (by omega)]
  by_cases hsplit : i * 7 % 8 > 1 ∧ i * 7 / 8 + 1 < data.length
  · -- the septet may go on in the next byte
    refine ⟨_, if_pos hsplit, fun j => ?_⟩
    rw [UInt8.toNat_or, Nat.testBit_or, testBit_and_0x7F, testBit_and_0x7F,
      testBit_shiftRight _ hpos]
    by_cases hj : j < 7
    · rw [testBit_low data hj, testBit_shiftLeft _ (by omega) (by omega), decide_eq_true hj,
        Bool.and_true, Bool.and_true, Bool.true_and]
      by_cases hlt : i * 7 % 8 + j < 8
      · have hnot : ¬ 8 - i * 7 % 8 ≤ j := by omega
        rw [decide_eq_true hlt, decide_eq_false hnot, Bool.true_and, Bool.false_and, Bool.or_false]
      · have hle : 8 - i * 7 % 8 ≤ j := by omega
        rw [decide_eq_false hlt, decide_eq_true hle, Bool.false_and, Bool.false_or, Bool.true_and,
          bitAt, show (7 * i + j) / 8 = i * 7 / 8 + 1 by omega,
          show (7 * i + j) % 8 = j - (8 - i * 7 % 8) by omega]
    · rw [decide_eq_false hj, Bool.and_false, Bool.and_false, Bool.false_and, Bool.false_or]
  · refine ⟨_, if_neg hsplit, fun j => ?_⟩
    rw [testBit_and_0x7F, testBit_shiftRight _ hpos]
    by_cases hj : j < 7
    · rw [testBit_low data hj, decide_eq_true hj, Bool.and_true, Bool.true_and]
      by_cases hlt : i * 7 % 8 + j < 8
      · rw [decide_eq_true hlt, Bool.true_and]
      · -- there is no next byte
        rw [decide_eq_false hlt, Bool.false_and, bitAt_eq_false (by omega) (by omega)]
    · rw [decide_eq_false hj, Bool.and_false, Bool.false_and]

/-- A loop whose turns all succeed. -/
theorem mapM_eq_ok {α β : Type} {f : α → Except CodingError β} {l : List α} {l' : List β}
    (h : l.map f = l'.map .ok) : l.mapM f = .ok l' := by
  induction l generalizing l' with
  | nil =>
    obtain rfl := map_eq_nil_iff.mp h.symm
    rfl
  | cons x l ih =>
    cases l' with
    | nil => cases h
    | cons y l' =>
      obtain ⟨hx, hl⟩ := cons.inj h
      rw [mapM_cons, hx, ih hl]
      rfl

/-- A loop that gets through. -/
theorem ok_of_mapM {f : ℕ → Except CodingError UInt8} {l : List ℕ} {l' : Bytes}
    (h : l.mapM f = .ok l') : ∀ x ∈ l, ∃ y, f x = .ok y := by
  induction l generalizing l' with
  | nil => exact fun x hx => absurd hx not_mem_nil
  | cons x l ih =>
    rw [mapM_cons] at h
    cases hx : f x with
    | error e =>
      rw [hx] at h
      cases h
    | ok y =>
      rw [hx] at h
      cases hl : l.mapM f with
      | error e =>
        rw [hl] at h
        cases h
      | ok ys =>
        intro z hz
        rcases mem_cons.mp hz with rfl | hz
        · exact ⟨y, hx⟩
        · exact ih hl z hz

/-! ## Data that is too short -/

/-- `DecodeGSM7` succeeds when there is a byte for every septet to begin in. -/
theorem decodeGSM7_ok_iff :
    (∃ text, decodeGSM7 data n = .ok text) ↔ ∀ i < n, 7 * i < 8 * data.length := by
  constructor
  · rintro ⟨text, h⟩ i hi
    cases hloop : (range n).mapM (septetAt data) with
    | error e =>
      rw [decodeGSM7, hloop] at h
      cases h
    | ok septets =>
      obtain ⟨s, hs⟩ := ok_of_mapM hloop i (mem_range.mpr hi)
      by_contra hshort
      rw [septetAt, if_pos (by omega)] at hs
      cases hs
  · intro h
    have hturn : ∀ i : ℕ, ∃ s, i < n → septetAt data i = .ok s := by
      intro i
      by_cases hi : i < n
      · have hlen := h i hi
        have hbyte : i * 7 / 8 < data.length := by omega
        obtain ⟨s, hs, -⟩ := septetAt_of_lt hbyte
        exact ⟨s, fun _ => hs⟩
      · exact ⟨0, fun hi' => absurd hi' hi⟩
    choose s hs using hturn
    have hloop : (range n).mapM (septetAt data) = .ok ((range n).map s) := by
      refine mapM_eq_ok ?_
      rw [map_map]
      exact map_congr_left fun i hi => hs i (mem_range.mp hi)
    exact ⟨_, by rw [decodeGSM7, hloop]; rfl⟩

/-- **Truncated data is detected**: `DecodeGSM7` succeeds just when all of the
septets are there, and no bit of what it returns was missing. -/
structure Detects (data : Bytes) (n : ℕ) : Prop where
  succeeds : (∃ text, decodeGSM7 data n = .ok text) ↔ 7 * n ≤ 8 * data.length
  complete : ∀ text, decodeGSM7 data n = .ok text →
    ∀ i < n, ∀ j < 7, 7 * i + j < 8 * data.length

/-- **A septet that is cut in two is not noticed.** Truncated data is detected
unless the end of the data lies in the last of the septets. -/
theorem detects_iff (data : Bytes) (n : ℕ) :
    Detects data n ↔ 7 * n ≤ 8 * data.length ∨ 8 * data.length + 7 ≤ 7 * n := by
  constructor
  · intro h
    by_contra hcut
    push Not at hcut
    have hall : ∀ i < n, 7 * i < 8 * data.length := by
      intro i hi
      omega
    have hfits := h.succeeds.mp (decodeGSM7_ok_iff.mpr hall)
    omega
  · intro h
    have hfits : (∃ text, decodeGSM7 data n = .ok text) → 7 * n ≤ 8 * data.length := by
      intro hok
      rcases h with hfits | hcut
      · exact hfits
      · have hlast := decodeGSM7_ok_iff.mp hok (n - 1) (by omega)
        omega
    refine ⟨⟨hfits, fun hle => ?_⟩, fun text htext i hi j hj => ?_⟩
    · refine decodeGSM7_ok_iff.mpr fun i hi => ?_
      omega
    · have hle := hfits ⟨text, htext⟩
      omega

/-- Two septets out of one byte: the second is made of one bit and six that are
not there. -/
theorem not_detects_one_byte :
    decodeGSM7 [0xE8] 2 = .ok (encodeRunes ['h', '£']) ∧ decodeGSM7 [0xE8, 0x34] 2 = .ok (ascii "hi") ∧
      ¬ Detects [0xE8] 2 := by
  have hcut : decodeGSM7 [0xE8] 2 = .ok (encodeRunes ['h', '£']) := by decide +kernel
  refine ⟨hcut, by decide +kernel, fun h => ?_⟩
  have hfits := h.succeeds.mp ⟨_, hcut⟩
  simp at hfits

/-! ## Septets that were packed -/

theorem isSeptets_filled (hs : IsSeptets septets) : IsSeptets (filled septets) := by
  rw [filled]
  split
  · intro s hmem
    rcases mem_append.mp hmem with hmem | hmem
    · exact hs s hmem
    · rw [mem_singleton.mp hmem]
      decide
  · exact hs

/-- How many septets fit into the bytes that `n` septets take. -/
theorem septets_fit (n : ℕ) :
    (n * 7 + 7) / 8 * 8 / 7 = n + if n % 8 = 7 then 1 else 0 := by
  obtain ⟨q, t, ht, rfl⟩ : ∃ q t, t < 8 ∧ n = 8 * q + t :=
    ⟨n / 8, n % 8, Nat.mod_lt _ (by omega), (Nat.div_add_mod n 8).symm⟩
  rw [Nat.mul_add_mod, Nat.mod_eq_of_lt ht]
  interval_cases t <;> simp only [Nat.reduceEqDiff, if_true, if_false] <;> omega

theorem length_filled (septets : Bytes) :
    (filled septets).length = (packed septets).length * 8 / 7 := by
  rw [length_packed, septets_fit, filled]
  split
  · rw [length_append, length_singleton]
  · rfl

/-- **What was packed is found again.** -/
theorem septetAt_packed (hs : IsSeptets septets) {s : UInt8} (hi : (filled septets)[i]? = some s) :
    septetAt (packed septets) i = .ok s := by
  have hlt := (List.getElem?_eq_some_iff.mp hi).1
  rw [length_filled] at hlt
  have hbyte : i * 7 / 8 < (packed septets).length := by omega
  obtain ⟨s', hs', hbits⟩ := septetAt_of_lt hbyte
  rw [hs']
  refine congrArg Except.ok (UInt8.toNat_inj.mp (Nat.eq_of_testBit_eq fun j => ?_))
  rw [hbits, bitAt_packed hs]
  by_cases hj : j < 7
  · rw [decide_eq_true hj, Bool.true_and, bitAt, show (7 * i + j) / 7 = i by omega,
      show (7 * i + j) % 7 = j by omega, getD_eq_getElem?_getD, hi, Option.getD_some]
  · have hsmall : s.toNat < 2 ^ 7 := isSeptets_filled hs s (mem_of_getElem? hi)
    have hpow : 2 ^ 7 ≤ 2 ^ j := Nat.pow_le_pow_right (by decide) (by omega)
    rw [decide_eq_false hj, Bool.false_and, Nat.testBit_lt_two_pow (lt_of_lt_of_le hsmall hpow)]

/-- Reading as many of them as there are, or the fill code, too. -/
theorem decodeGSM7_packed (hs : IsSeptets septets) (hn : n ≤ (filled septets).length) :
    decodeGSM7 (packed septets) n =
      .ok (encodeRunes (fromSeptets false ((filled septets).take n))) := by
  have hloop : (range n).mapM (septetAt (packed septets)) =
      .ok ((filled septets).take n) := by
    refine mapM_eq_ok (ext_getElem? fun i => ?_)
    rw [getElem?_map, getElem?_map, getElem?_take]
    by_cases hi : i < n
    · have hget := getElem?_eq_getElem (show i < (filled septets).length by omega)
      rw [getElem?_range hi, if_pos hi, hget, Option.map_some, Option.map_some,
        septetAt_packed hs hget]
    · rw [getElem?_eq_none (by simpa using hi), if_neg hi, Option.map_none, Option.map_none]
  rw [decodeGSM7, hloop]
  rfl

/-! ## Characters and their codes -/

/-- The character has a code in the basic table, other than the escape. -/
def isBasic (r : Char) : Bool := (gsm7Default.eraseIdx gsm7Escape.toNat).contains r

/-- The character has a code in the extension table. -/
def isExtended (r : Char) : Bool := (gsm7Extension.map Prod.snd).contains r

/-- The septets that spell a text, read off the two tables. -/
inductive Spells : List Char → Bytes → Prop
  | nil : Spells [] []
  | basic {code : UInt8} {r : Char} {l : List Char} {septets : Bytes}
      (hr : gsm7Default[code.toNat]? = some r) (hcode : code ≠ gsm7Escape)
      (hl : Spells l septets) : Spells (r :: l) (code :: septets)
  | extended {code : UInt8} {r : Char} {l : List Char} {septets : Bytes}
      (hr : (code, r) ∈ gsm7Extension) (hl : Spells l septets) :
      Spells (r :: l) (gsm7Escape :: code :: septets)

/-- The two tables have no character in common. -/
theorem isBasic_of_getElem? {code : UInt8} (hr : gsm7Default[code.toNat]? = some r)
    (hcode : code ≠ gsm7Escape) : isBasic r = true ∧ isExtended r = false := by
  have hcheck : ∀ p ∈ gsm7Default.zipIdx, p.2 ≠ gsm7Escape.toNat →
      isBasic p.1 = true ∧ isExtended p.1 = false := by decide +kernel
  have hmem : (r, code.toNat) ∈ gsm7Default.zipIdx := mem_zipIdx_iff_getElem?.mpr hr
  exact hcheck _ hmem fun h => hcode (UInt8.toNat_inj.mp h)

theorem isExtended_of_mem {p : UInt8 × Char} (hp : p ∈ gsm7Extension) :
    isExtended p.2 = true ∧ isBasic p.2 = false := by
  have hcheck : ∀ p ∈ gsm7Extension, isExtended p.2 = true ∧ isBasic p.2 = false := by
    decide +kernel
  exact hcheck p hp

/-- How many septets spell a text. -/
theorem Spells.length (h : Spells l septets) :
    septets.length = l.countP isBasic + 2 * l.countP isExtended := by
  induction h with
  | nil => rfl
  | basic hr hcode _ ih =>
    obtain ⟨hbasic, hext⟩ := isBasic_of_getElem? hr hcode
    rw [length_cons, ih, countP_cons, countP_cons, hbasic, hext]
    simp only [if_true, Bool.false_eq_true, if_false]
    omega
  | extended hr _ ih =>
    obtain ⟨hext, hbasic⟩ := isExtended_of_mem hr
    rw [length_cons, length_cons, ih, countP_cons, countP_cons, hbasic, hext]
    simp only [if_true, Bool.false_eq_true, if_false]
    omega

/-- The codes are read back as what they spell. -/
theorem Spells.fromSeptets (h : Spells l septets) (rest : Bytes) :
    fromSeptets false (septets ++ rest) = l ++ Smpp.fromSeptets false rest := by
  induction h with
  | nil => rfl
  | basic hr hcode _ ih =>
    rw [cons_append, Smpp.fromSeptets, if_neg hcode, ih, getD_eq_getElem?_getD, hr]
    rfl
  | @extended code r _ _ hr _ ih =>
    have hcheck : ∀ p ∈ gsm7Extension, gsm7Extension.lookup p.1 = some p.2 := by decide +kernel
    have hlookup : gsm7Extension.lookup code = some r := hcheck _ hr
    rw [cons_append, cons_append, Smpp.fromSeptets, if_pos rfl, Smpp.fromSeptets, ih,
      hlookup]
    rfl

theorem isSome_lookup {l : List (Char × UInt8)} :
    (l.lookup r).isSome = (l.map Prod.fst).contains r := by
  induction l with
  | nil => rfl
  | cons p l ih =>
    obtain ⟨r', code⟩ := p
    rw [lookup_cons, map_cons, contains_cons]
    by_cases hr : r = r'
    · simp [hr]
    · have hne : (r == r') = false := by simpa using hr
      simp [hne, ih]

/-- A character has codes when it is in one of the tables. -/
theorem gsm7Septets_ok_iff :
    (∃ codes, gsm7Septets r = .ok codes) ↔ isBasic r = true ∨ isExtended r = true := by
  have hbasic : unicodeToGSM7.map Prod.fst = gsm7Default.eraseIdx gsm7Escape.toNat := by
    decide +kernel
  have hext : unicodeToGSM7Ext.map Prod.fst = gsm7Extension.map Prod.snd := by decide +kernel
  rw [isBasic, isExtended, ← hbasic, ← hext, ← isSome_lookup, ← isSome_lookup, gsm7Septets]
  cases unicodeToGSM7.lookup r with
  | some code => simp
  | none => cases unicodeToGSM7Ext.lookup r <;> simp

/-- The first pass succeeds when every character has codes. -/
theorem toSeptets_ok_iff : (∃ septets, toSeptets l = .ok septets) ↔
      ∀ r ∈ l, isBasic r = true ∨ isExtended r = true := by
  induction l with
  | nil => exact ⟨fun _ r hr => absurd hr not_mem_nil, fun _ => ⟨[], rfl⟩⟩
  | cons r l ih =>
    rw [forall_mem_cons, ← ih, ← gsm7Septets_ok_iff]
    constructor
    · rintro ⟨septets, h⟩
      obtain ⟨codes, rest, hcodes, hrest, -⟩ := toSeptets_cons h
      exact ⟨⟨codes, hcodes⟩, rest, hrest⟩
    · rintro ⟨⟨codes, hcodes⟩, rest, hrest⟩
      exact ⟨codes ++ rest, by rw [toSeptets, hcodes, hrest]; rfl⟩

/-- What the first pass makes of a text spells it. -/
theorem spells_of_toSeptets (h : toSeptets l = .ok septets) : Spells l septets := by
  induction l generalizing septets with
  | nil =>
    obtain rfl := Except.ok.inj h
    exact .nil
  | cons r l ih =>
    obtain ⟨codes, rest, hcodes, hrest, rfl⟩ := toSeptets_cons h
    have hbasic : ∀ p ∈ unicodeToGSM7, gsm7Default[p.2.toNat]? = some p.1 ∧ p.2 ≠ gsm7Escape := by
      decide +kernel
    rw [gsm7Septets] at hcodes
    split at hcodes
    · rename_i code hcode
      obtain rfl := Except.ok.inj hcodes
      obtain ⟨hr, hne⟩ := hbasic _ (mem_of_lookup hcode)
      exact .basic hr hne (ih hrest)
    · split at hcodes
      · rename_i ext hcode
        obtain rfl := Except.ok.inj hcodes
        have hmem := mem_of_lookup hcode
        obtain ⟨p, hp, heq⟩ := mem_map.mp hmem
        obtain ⟨rfl, rfl⟩ := Prod.mk.inj heq
        exact .extended hp (ih hrest)
      · cases hcodes

/-! ## Round trips in the default alphabet -/

theorem encodeGSM7_eq_ok {out : Bytes} (h : encodeGSM7 text = .ok (out, n)) :
    ∃ septets, toSeptets (runes text) = .ok septets ∧ out = packed septets ∧
      n = septets.length := by
  rw [encodeGSM7] at h
  cases hseptets : toSeptets (runes text) with
  | error e =>
    rw [hseptets] at h
    cases h
  | ok septets =>
    rw [hseptets] at h
    obtain ⟨hout, hn⟩ := Prod.mk.inj (Except.ok.inj h)
    exact ⟨septets, rfl, hout.symm, hn.symm⟩

/-- What the packing is, bit by bit. -/
structure Packs (septets out : Bytes) : Prop where
  length : out.length = (7 * septets.length + 7) / 8
  septet : ∀ i j, j < 7 → ∀ s, septets[i]? = some s → bitAt 8 out (7 * i + j) = s.toNat.testBit j
  fill : ∀ k, 7 * septets.length + k < 8 * out.length →
    bitAt 8 out (7 * septets.length + k) =
      (decide (8 * out.length = 7 * septets.length + 7) && gsm7CR.toNat.testBit k)

theorem packs_packed (hs : IsSeptets septets) : Packs septets (packed septets) where
  length := by rw [length_packed, Nat.mul_comm 7]
  septet := by
    intro i j hj s hi
    have hlt := (List.getElem?_eq_some_iff.mp hi).1
    have hfilled : (filled septets)[i]? = some s := by
      rw [filled]
      split
      · rw [getElem?_append_left hlt, hi]
      · exact hi
    rw [bitAt_packed hs, bitAt, show (7 * i + j) / 7 = i by omega,
      show (7 * i + j) % 7 = j by omega, getD_eq_getElem?_getD, hfilled, Option.getD_some]
  fill := by
    intro k hk
    rw [length_packed] at hk ⊢
    rw [bitAt_packed hs, filled]
    by_cases hfill : septets.length % 8 = 7
    · have hseven : 8 * ((septets.length * 7 + 7) / 8) = 7 * septets.length + 7 := by omega
      rw [if_pos hfill, decide_eq_true hseven, Bool.true_and, bitAt_append (by omega),
        if_neg (by omega), Nat.add_sub_cancel_left, bitAt_cons (by omega), if_pos (by omega)]
    · have hfewer : ¬ 8 * ((septets.length * 7 + 7) / 8) = 7 * septets.length + 7 := by omega
      rw [if_neg hfill, decide_eq_false hfewer, Bool.false_and,
        bitAt_eq_false (by omega) (by omega)]

/-- **What was encoded is read back**, given the number of its septets. -/
theorem decodeGSM7_encodeGSM7 {out : Bytes} (h : encodeGSM7 text = .ok (out, n)) :
    decodeGSM7 out n = .ok text := by
  obtain ⟨septets, hseptets, rfl, rfl⟩ := encodeGSM7_eq_ok h
  have hle : septets.length ≤ (filled septets).length := by
    rw [filled]
    split <;> simp
  have htake : (filled septets).take septets.length = septets := by
    rw [filled]
    split
    · exact take_left
    · exact take_length
  have hread := (spells_of_toSeptets hseptets).fromSeptets []
  rw [append_nil] at hread
  rw [decodeGSM7_packed (isSeptets_toSeptets hseptets) hle, htake, hread, fromSeptets,
    append_nil, encodeRunes_of_toSeptets hseptets]

/-- **Packing is lossless.** `EncodeGSM7` succeeds for the texts of the
alphabet. It packs the septets that spell the text, and `DecodeGSM7` gives the
text back. -/
theorem encodeGSM7_lossless (text : Bytes) :
    ((∃ out, encodeGSM7 text = .ok out) ↔
      ∀ r ∈ runes text, isBasic r = true ∨ isExtended r = true) ∧
    ∀ out n, encodeGSM7 text = .ok (out, n) →
      n = (runes text).countP isBasic + 2 * (runes text).countP isExtended ∧
      (∃ septets, Spells (runes text) septets ∧ septets.length = n ∧ Packs septets out) ∧
      decodeGSM7 out n = .ok text := by
  refine ⟨?_, fun out n h => ?_⟩
  · rw [← toSeptets_ok_iff, encodeGSM7]
    cases toSeptets (runes text) with
    | error e => simp [Except.map]
    | ok septets => simp [Except.map]
  · obtain ⟨septets, hseptets, rfl, rfl⟩ := encodeGSM7_eq_ok h
    have hspells := spells_of_toSeptets hseptets
    have hs := isSeptets_toSeptets hseptets
    exact ⟨hspells.length, ⟨septets, hspells, rfl, packs_packed hs⟩, decodeGSM7_encodeGSM7 h⟩

/-- **The guess is right but for one carriage return.** -/
theorem decode_default (h : encode text dataCodingDefault = .ok data) :
    ∃ n, encodeGSM7 text = .ok (data, n) ∧
      decode data dataCodingDefault = .ok (if n % 8 = 7 then text ++ ascii "\r" else text) := by
  rw [encode, if_pos rfl] at h
  cases hpair : encodeGSM7 text with
  | error e =>
    rw [hpair] at h
    cases h
  | ok p =>
    obtain ⟨out, n⟩ := p
    rw [hpair] at h
    obtain rfl : out = data := Except.ok.inj h
    obtain ⟨septets, hseptets, hout, hn⟩ := encodeGSM7_eq_ok hpair
    have hspells := spells_of_toSeptets hseptets
    have hs := isSeptets_toSeptets hseptets
    have hread : fromSeptets false (filled septets) =
        runes text ++ if septets.length % 8 = 7 then ['\r'] else [] := by
      rw [filled]
      split
      · rw [hspells.fromSeptets]
        rfl
      · have hall := hspells.fromSeptets []
        rwa [append_nil] at hall
    refine ⟨n, rfl, ?_⟩
    rw [decode, if_pos rfl, hout, ← length_filled, decodeGSM7_packed hs le_rfl, take_length,
      hread, encodeRunes, flatMap_append, hn]
    have hvalid := encodeRunes_of_toSeptets hseptets
    rw [encodeRunes] at hvalid
    rw [hvalid]
    split
    · rfl
    · rw [flatMap_nil, append_nil]

end Smpp

end SmscGateway
