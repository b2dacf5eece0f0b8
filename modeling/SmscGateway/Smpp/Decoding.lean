import SmscGateway.Smpp.Septets

/-!
# `Decode` after `Encode`

Every coding but the default one gives a text back as it was. Under the default
coding `Decode` does not know how many septets there are and takes as many as
fit into the bytes. That is one too many when seven bits are left over, and
these hold a carriage return and not the zeros of an `@`.
-/

namespace SmscGateway

open List

namespace Smpp

/-! ## UTF-16 -/

theorem utf16Decode_cons {w : ℕ} (h : w < 0xD800 ∨ 0xE000 ≤ w) (ws : List ℕ) :
    utf16Decode (w :: ws) = Char.ofNat w :: utf16Decode ws := by
  have hsingle : utf16Single w = Char.ofNat w := if_neg (by omega)
  cases ws with
  | nil => simp only [utf16Decode, hsingle]
  | cons w' ws => rw [utf16Decode, if_neg (by omega), hsingle]

/-- A scalar value is no surrogate. -/
theorem toNat_not_surrogate (r : Char) : r.toNat < 0xD800 ∨ 0xE000 ≤ r.toNat := by
  rcases r.valid with h | ⟨h, -⟩
  · exact Or.inl h
  · exact Or.inr h

theorem toNat_lt (r : Char) : r.toNat < 0x110000 := by
  rcases r.valid with h | ⟨-, h⟩
  · have hlt : r.toNat < 0xD800 := h
    omega
  · exact h

/-- The words of a character are read as that character. -/
theorem utf16Decode_append (r : Char) (ws : List ℕ) :
    utf16Decode (utf16Words r ++ ws) = r :: utf16Decode ws := by
  rw [utf16Words]
  split
  · rw [singleton_append, utf16Decode_cons (toNat_not_surrogate r), Char.ofNat_toNat]
  · rename_i hlarge
    have hlt := toNat_lt r
    have hpair : (0xD800 ≤ 0xD800 + (r.toNat - 0x10000) / 0x400 ∧
          0xD800 + (r.toNat - 0x10000) / 0x400 < 0xDC00) ∧
        0xDC00 ≤ 0xDC00 + (r.toNat - 0x10000) % 0x400 ∧
          0xDC00 + (r.toNat - 0x10000) % 0x400 < 0xE000 := by omega
    have hvalue : 0x10000 + (0xD800 + (r.toNat - 0x10000) / 0x400 - 0xD800) * 0x400 +
        (0xDC00 + (r.toNat - 0x10000) % 0x400 - 0xDC00) = r.toNat := by omega
    rw [cons_append, singleton_append, utf16Decode, if_pos hpair, hvalue,
      Char.ofNat_toNat]

theorem utf16Decode_utf16Words (l : List Char) : utf16Decode (l.flatMap utf16Words) = l := by
  induction l with
  | nil => rfl
  | cons r l ih => rw [flatMap_cons, utf16Decode_append, ih]

theorem utf16Words_lt {r : Char} : ∀ w ∈ utf16Words r, w < 256 ^ 2 := by
  intro w hw
  have hlt := toNat_lt r
  rw [utf16Words] at hw
  split at hw
  · rw [mem_singleton.mp hw]
    omega
  · rcases mem_cons.mp hw with rfl | hw
    · omega
    · rw [mem_singleton.mp hw]
      omega

theorem words_bigEndian {ws : List ℕ} (h : ∀ w ∈ ws, w < 256 ^ 2) :
    words (ws.flatMap (bigEndian 2)) = ws := by
  induction ws with
  | nil => rfl
  | cons w ws ih =>
    have hw := ofBigEndian_bigEndian_of_lt (h w mem_cons_self)
    have hrest := ih fun w' hw' => h w' (mem_cons_of_mem _ hw')
    rw [flatMap_cons]
    exact congrArg₂ cons hw hrest

theorem length_encodeUCS2 (text : Bytes) : (encodeUCS2 text).length % 2 = 0 := by
  rw [encodeUCS2, length_flatMap]
  simp

theorem decodeUCS2_encodeUCS2 (text : Bytes) :
    decodeUCS2 (encodeUCS2 text) = .ok (encodeRunes (runes text)) := by
  have hlt : ∀ w ∈ (runes text).flatMap utf16Words, w < 256 ^ 2 := by
    intro w hw
    obtain ⟨r, -, hr⟩ := mem_flatMap.mp hw
    exact utf16Words_lt w hr
  rw [decodeUCS2, if_neg (by simp [length_encodeUCS2]), encodeUCS2, words_bigEndian hlt,
    utf16Decode_utf16Words]

/-! ## One byte for each character -/

variable {data text : Bytes}

/-- What fits into a byte is found there. -/
theorem map_ofNat_narrow {limit : ℕ} (hlimit : limit < 256) {error : Char → CodingError}
    {l : List Char} (h : narrow limit error l = .ok data) :
    (data.map fun b => Char.ofNat b.toNat) = l ∧ ∀ b ∈ data, b.toNat ≤ limit := by
  induction l generalizing data with
  | nil =>
    obtain rfl := Except.ok.inj h
    exact ⟨rfl, fun b hb => absurd hb not_mem_nil⟩
  | cons r l ih =>
    rw [narrow] at h
    split at h
    · cases h
    · rename_i hle
      cases hrest : narrow limit error l with
      | error e =>
        rw [hrest] at h
        cases h
      | ok rest =>
        rw [hrest] at h
        obtain rfl := Except.ok.inj h
        obtain ⟨hmap, hall⟩ := ih hrest
        have hr : (UInt8.ofNat r.toNat).toNat = r.toNat := by
          rw [UInt8.toNat_ofNat', Nat.mod_eq_of_lt (by omega)]
        refine ⟨?_, fun b hb => ?_⟩
        · rw [map_cons, hmap, hr, Char.ofNat_toNat]
        · rcases mem_cons.mp hb with rfl | hb
          · omega
          · exact hall b hb

/-- An ASCII character is its own byte. -/
theorem utf8EncodeChar_ofNat {b : UInt8} (h : b.toNat ≤ 0x7F) :
    String.utf8EncodeChar (Char.ofNat b.toNat) = [b] := by
  have hcheck : ∀ n < 0x80, String.utf8EncodeChar (Char.ofNat n) = [UInt8.ofNat n] := by
    decide +kernel
  rw [hcheck b.toNat (by omega), UInt8.ofNat_toNat]

theorem encodeRunes_map_ofNat (h : ∀ b ∈ data, b.toNat ≤ 0x7F) :
    encodeRunes (data.map fun b => Char.ofNat b.toNat) = data := by
  induction data with
  | nil => rfl
  | cons b data ih =>
    rw [map_cons, encodeRunes, flatMap_cons,
      utf8EncodeChar_ofNat (h b mem_cons_self)]
    exact congrArg (b :: ·) (ih fun b' hb' => h b' (mem_cons_of_mem _ hb'))

/-! ## All codings -/

/-- The bytes are those of a list of characters. -/
def IsText (text : Bytes) : Prop := ∃ l, text = encodeRunes l

theorem IsText.encodeRunes_runes (h : IsText text) : encodeRunes (runes text) = text := by
  obtain ⟨l, rfl⟩ := h
  rw [runes_encodeRunes]

theorem decode_latin1 (hvalid : IsText text) (h : encodeLatin1 text = .ok data) :
    decodeLatin1 data = text := by
  rw [decodeLatin1, (map_ofNat_narrow (by omega) h).1, hvalid.encodeRunes_runes]

theorem decode_ia5 (hvalid : IsText text) (h : encodeIA5 text = .ok data) :
    decodeIA5 data = text := by
  obtain ⟨hmap, hall⟩ := map_ofNat_narrow (by omega) h
  have hsame := encodeRunes_map_ofNat hall
  rw [hmap, hvalid.encodeRunes_runes] at hsame
  exact hsame.symm

/-- **`Decode` undoes `Encode`**, up to the carriage return that fills the last
byte under the default coding. -/
theorem decode_encode {text data : Bytes} {coding : UInt8} (hvalid : IsText text)
    (h : encode text coding = .ok data) :
    (coding ∈ [dataCodingIA5, dataCodingLatin1, dataCodingBinary, dataCodingUCS2] →
      decode data coding = .ok text) ∧
    (coding = dataCodingDefault → ∃ n, encodeGSM7 text = .ok (data, n) ∧
      decode data coding = .ok (if n % 8 = 7 then text ++ ascii "\r" else text)) := by
  refine ⟨fun hcoding => ?_, ?_⟩
  · simp only [mem_cons, not_mem_nil, or_false] at hcoding
    rcases hcoding with rfl | rfl | rfl | rfl
    · exact congrArg Except.ok (decode_ia5 hvalid h)
    · exact congrArg Except.ok (decode_latin1 hvalid h)
    · exact congrArg Except.ok (Except.ok.inj h).symm
    · have hdata : encodeUCS2 text = data := Except.ok.inj h
      exact hdata ▸ (decodeUCS2_encodeUCS2 text).trans
        (congrArg Except.ok hvalid.encodeRunes_runes)
  · rintro rfl
    exact decode_default h

/-- Seven septets leave room for an eighth. -/
theorem decode_seven_septets :
    encode (ascii "seven c") dataCodingDefault = .ok [0xF3, 0xB2, 0xBD, 0xEC, 0x06, 0x8D, 0x1B] ∧
      decode [0xF3, 0xB2, 0xBD, 0xEC, 0x06, 0x8D, 0x1B] dataCodingDefault =
        .ok (ascii "seven c\r") := by
  have henc : encode (ascii "seven c") dataCodingDefault =
      .ok [0xF3, 0xB2, 0xBD, 0xEC, 0x06, 0x8D, 0x1B] := by decide +kernel
  obtain ⟨n, hn, hdec⟩ := (decode_encode ⟨"seven c".toList, by decide +kernel⟩ henc).2 rfl
  have hseven : encodeGSM7 (ascii "seven c") =
      .ok ([0xF3, 0xB2, 0xBD, 0xEC, 0x06, 0x8D, 0x1B], 7) := by decide +kernel
  obtain rfl : n = 7 := (Prod.mk.inj (Except.ok.inj (hn.symm.trans hseven))).2
  exact ⟨henc, hdec⟩

end Smpp

end SmscGateway
