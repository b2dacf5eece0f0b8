import SmscGateway.Common.TwoCodes
import SmscGateway.Smpp.Coding

/-!
# Texts that are their own packing

A message with the default coding has to hold packed septets. A sender that
puts the bytes of the text there instead sends the right message only if they
are the same. `encode_default_eq_self_iff` says when they are: for the empty
text, and for a single character that has the same code in both alphabets. In
any longer text the bits of the bytes run ahead of the bits of the septets by a
lead that no further characters catch up with.
-/

namespace SmscGateway

open List Prod

namespace Smpp

/-- The characters and their septets. -/
def alphabet : List (Char × Bytes) :=
  unicodeToGSM7.map (fun (r, code) => (r, [code])) ++
    unicodeToGSM7Ext.map fun (r, ext) => (r, [gsm7Escape, ext])

/-- A character in both codes: the bits of its bytes and of its septets. -/
def letter (p : Char × Bytes) : List Bool × List Bool :=
  (bits 8 (String.utf8EncodeChar p.1), bits 7 p.2)

/-- What may be left over in the last byte. -/
def fills : List (List Bool) := (List.range 7).map (List.replicate · false) ++ [bits 7 [gsm7CR]]

theorem mem_alphabet {r : Char} {codes : Bytes} (h : gsm7Septets r = .ok codes) :
    (r, codes) ∈ alphabet := by
  rw [gsm7Septets] at h
  split at h
  · rename_i code hcode
    obtain rfl := Except.ok.inj h
    exact mem_append_left _ (mem_map.mpr ⟨_, mem_of_lookup hcode, rfl⟩)
  · split at h
    · rename_i ext hcode
      obtain rfl := Except.ok.inj h
      exact mem_append_right _ (mem_map.mpr ⟨_, mem_of_lookup hcode, rfl⟩)
    · cases h

/-- A text that can be encoded is made of characters of the alphabet. -/
theorem exists_of_toSeptets {l : List Char} {septets : Bytes} (h : toSeptets l = .ok septets) :
    ∃ text : List (Char × Bytes), (∀ p ∈ text, p ∈ alphabet) ∧ l = text.map fst ∧
      septets = text.flatMap snd := by
  induction l generalizing septets with
  | nil =>
    obtain rfl := Except.ok.inj h
    exact ⟨[], by simp, rfl, rfl⟩
  | cons r l ih =>
    obtain ⟨codes, rest, hcodes, hrest, rfl⟩ := toSeptets_cons h
    obtain ⟨text, htext, rfl, rfl⟩ := ih hrest
    refine ⟨(r, codes) :: text, ?_, rfl, rfl⟩
    intro p hp
    rcases mem_cons.mp hp with rfl | hp
    · exact mem_alphabet hcodes
    · exact htext p hp

/-- U+FFFD is not in the alphabet, so an encoded text is valid. -/
theorem encodeRunes_of_toSeptets {text septets : Bytes} (h : toSeptets (runes text) = .ok septets) :
    encodeRunes (runes text) = text := by
  refine encodeRunes_runes fun hmem => ?_
  obtain ⟨letters, hletters, hrunes, -⟩ := exists_of_toSeptets h
  rw [hrunes] at hmem
  obtain ⟨p, hp, hr⟩ := mem_map.mp hmem
  have hnot : ∀ p ∈ alphabet, p.1 ≠ runeError := by decide +kernel
  exact hnot p (hletters p hp) hr

/-- The bits of a text in both codes. -/
theorem bits_letters (text : List (Char × Bytes)) :
    bits 8 (encodeRunes (text.map fst)) = (text.map letter).flatMap fst ∧
      bits 7 (text.flatMap snd) = (text.map letter).flatMap snd := by
  induction text with
  | nil => exact ⟨rfl, rfl⟩
  | cons p text ih =>
    obtain ⟨hbytes, hseptets⟩ := ih
    refine ⟨?_, ?_⟩
    · rw [map_cons, encodeRunes, flatMap_cons, bits_append, map_cons,
        flatMap_cons, ← hbytes]
      rfl
    · rw [flatMap_cons, bits_append, map_cons, flatMap_cons, ← hseptets]
      rfl

/-- The packing of septets, as bits. -/
theorem bits_packed {septets : Bytes} (hs : IsSeptets septets) :
    ∃ fill ∈ fills, bits 8 (packed septets) = bits 7 septets ++ fill := by
  have hlen : (filled septets).length = septets.length + if septets.length % 8 = 7 then 1 else 0 := by
    rw [filled]
    split <;> simp
  have hle : 7 * (filled septets).length ≤ 8 * (packed septets).length := by
    rw [hlen, length_packed]
    split <;> omega
  have hbits := bits_eq_append (by omega : 0 < 7) (by omega : 0 < 8) hle (bitAt_packed hs)
  rw [hlen, length_packed] at hbits
  by_cases hfill : septets.length % 8 = 7
  · rw [if_pos hfill] at hbits
    refine ⟨bits 7 [gsm7CR], mem_append_right _ (mem_singleton_self _), ?_⟩
    rw [hbits, filled, if_pos hfill, bits_append,
      show 8 * ((septets.length * 7 + 7) / 8) - 7 * (septets.length + 1) = 0 by omega,
      replicate_zero, append_nil]
  · rw [if_neg hfill] at hbits
    refine ⟨replicate (8 * ((septets.length * 7 + 7) / 8) - 7 * (septets.length + 0)) false,
      mem_append_left _ (mem_map.mpr ⟨_, mem_range.mpr ?_, rfl⟩), ?_⟩
    · omega
    · rw [hbits, filled, if_neg hfill]

/-! ## The search -/

/-- A single character leaves its bytes ahead by a zero, or the codes
disagree. -/
theorem letter_lead {p : Char × Bytes} (hp : p ∈ alphabet) {rest rest' : List Bool}
    (h : (letter p).1 ++ rest = (letter p).2 ++ rest') : false :: rest = rest' := by
  have hcheck : ∀ p ∈ alphabet, (letter p).1.isPrefixOf (letter p).2 = false ∧
      ∀ lead ∈ (letter p).2.isPrefixOf? (letter p).1, lead = [false] := by
    decide +kernel
  obtain ⟨hlonger, hlead⟩ := hcheck p hp
  -- one of the two is the front of the other
  rcases append_eq_append_iff.mp h with ⟨more, hsecond, -⟩ | ⟨lead, hfirst, hrest⟩
  · have hfront : (letter p).1 <+: (letter p).2 := hsecond ▸ prefix_append ..
    rw [List.isPrefixOf_iff_prefix.mpr hfront] at hlonger
    cases hlonger
  · rw [hlead lead (isPrefixOf?_eq_some_iff_append_eq.mpr hfirst.symm)] at hrest
    exact hrest.symm

/-- **Behind a lead of a zero nothing goes on.** -/
theorem deadEnd_zero : deadEnd (alphabet.map letter) fills 122 [false] = true := by decide +kernel

/-- A text whose bytes are its packing has at most one character. -/
theorem length_le_one {text : List (Char × Bytes)} (htext : ∀ p ∈ text, p ∈ alphabet)
    {fill : List Bool} (hfill : fill ∈ fills)
    (h : (text.map letter).flatMap fst = (text.map letter).flatMap snd ++ fill) :
    text.length ≤ 1 := by
  rcases text with _ | ⟨p, _ | ⟨q, text⟩⟩
  · exact Nat.zero_le _
  · exact le_rfl
  · exfalso
    rw [map_cons, flatMap_cons, flatMap_cons, append_assoc] at h
    have hrest := letter_lead (htext p mem_cons_self) h
    refine ne_of_deadEnd deadEnd_zero (cons_ne_nil _ _) ?_ hfill hrest
    intro l hl
    obtain ⟨p', hp', rfl⟩ := mem_map.mp (map_cons ▸ hl : l ∈ (q :: text).map letter)
    exact mem_map_of_mem (htext p' (mem_cons_of_mem _ hp'))

/-! ## The texts -/

/-- The byte is a character that has it as its code in the default alphabet. -/
def SameCode (b : UInt8) : Prop := unicodeToGSM7.lookup (Char.ofNat b.toNat) = some b
  deriving Decidable

/-- Such a character is encoded as it is, and decoded as it is. -/
theorem encode_sameCode {b : UInt8} (h : SameCode b) :
    encode [b] dataCodingDefault = .ok [b] ∧ decode [b] dataCodingDefault = .ok [b] ∧
      detectCoding [b] = dataCodingDefault := by
  have hcheck : ∀ p ∈ unicodeToGSM7, p.1 = Char.ofNat p.2.toNat →
      String.utf8EncodeChar p.1 = [p.2] ∧ packed [p.2] = [p.2] ∧ septetAt [p.2] 0 = .ok p.2 ∧
        fromSeptets false [p.2] = [p.1] := by
    decide +kernel
  obtain ⟨hutf8, hpacked, hunpacked, hchar⟩ := hcheck _ (mem_of_lookup h) rfl
  dsimp only at hutf8 hpacked hunpacked hchar
  have hrunes : runes [b] = [Char.ofNat b.toNat] := by
    have hone := runes_encodeRunes [Char.ofNat b.toNat]
    rwa [encodeRunes, flatMap_singleton, hutf8] at hone
  have hcodes : gsm7Septets (Char.ofNat b.toNat) = .ok [b] := by rw [gsm7Septets, h]
  refine ⟨?_, ?_, ?_⟩
  · rw [encode, if_pos rfl, encodeGSM7, hrunes, toSeptets, hcodes]
    exact congrArg Except.ok hpacked
  · have hloop : (range 1).mapM (septetAt [b]) = .ok [b] := by
      rw [range_one, mapM_cons, mapM_nil, hunpacked]
      rfl
    rw [decode, if_pos rfl, decodeGSM7, length_singleton, hloop, Except.map, hchar,
      encodeRunes, flatMap_singleton, hutf8]
  · have hgsm : isGSM7 (Char.ofNat b.toNat) = true := by rw [isGSM7, h, Option.isSome_some, Bool.true_or]
    rw [detectCoding, hrunes, all_cons, all_nil, hgsm, Bool.true_and, if_pos rfl]

/-- **The texts that are their own packing.** -/
theorem encode_default_eq_self_iff {text : Bytes} :
    encode text dataCodingDefault = .ok text ↔ text = [] ∨ ∃ b, text = [b] ∧ SameCode b := by
  constructor
  · intro h
    rw [encode, if_pos rfl, encodeGSM7] at h
    cases hseptets : toSeptets (runes text) with
    | error e =>
      rw [hseptets] at h
      cases h
    | ok septets =>
      rw [hseptets] at h
      have hpacked : packed septets = text := Except.ok.inj h
      have hvalid := encodeRunes_of_toSeptets hseptets
      obtain ⟨letters, hletters, hrunes, rfl⟩ := exists_of_toSeptets hseptets
      obtain ⟨fill, hfill, hbits⟩ := bits_packed (isSeptets_toSeptets hseptets)
      rw [hrunes] at hvalid
      rw [hpacked, ← hvalid, (bits_letters letters).1, (bits_letters letters).2] at hbits
      have hlen := length_le_one hletters hfill hbits
      rcases letters with _ | ⟨p, _ | ⟨q, letters⟩⟩
      · exact Or.inl hvalid.symm
      · -- one character: try them all
        have hcheck : ∀ p ∈ alphabet, packed p.2 = String.utf8EncodeChar p.1 →
            ∃ b ∈ p.2, String.utf8EncodeChar p.1 = [b] ∧ SameCode b := by
          decide +kernel
        have htext : text = String.utf8EncodeChar p.1 := by
          rw [← hvalid, map_singleton, encodeRunes, flatMap_singleton]
        rw [flatMap_singleton, htext] at hpacked
        obtain ⟨b, -, hb, hsame⟩ := hcheck p (hletters p mem_cons_self) hpacked
        exact Or.inr ⟨b, htext.trans hb, hsame⟩
      · simp at hlen
  · rintro (rfl | ⟨b, rfl, hb⟩)
    · decide +kernel
    · exact (encode_sameCode hb).1

end Smpp

end SmscGateway
