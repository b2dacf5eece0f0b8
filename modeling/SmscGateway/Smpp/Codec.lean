import SmscGateway.Smpp.Fields

/-!
# PDUs on the wire

`EncodePDU` writes a header of four 32-bit numbers, the first of them the
length of the whole PDU, then the body and the TLVs; `DecodePDU` reads a PDU
and leaves its TLVs in the body. The length field is a `uint32`, and so is the
size of the buffer that `EncodePDU` allocates.
-/

namespace SmscGateway

open List

namespace Smpp

/-- The whole of the record `PDU`: with its length field, and TLVs that are
not part of the body; `none` is a nil set. -/
structure WirePDU extends PDU where
  commandLength : UInt32 := 0
  tlvs : Option TLVSet := none
  deriving DecidableEq

def pduHeaderLen : ℕ := 16

namespace WirePDU

/-- The TLVs as bytes; a nil set has none. -/
def tlvBytes (pdu : WirePDU) : Bytes := (pdu.tlvs.map TLVSet.encode).getD []

/-- How many bytes there are to be written. -/
def size (pdu : WirePDU) : ℕ := pduHeaderLen + pdu.body.length + pdu.tlvBytes.length

end WirePDU

/-- The four numbers of a header. -/
def header (commandLength commandID commandStatus sequenceNumber : ℕ) : Bytes :=
  bigEndian 4 commandLength ++ (bigEndian 4 commandID ++
    (bigEndian 4 commandStatus ++ bigEndian 4 sequenceNumber))

/-- `EncodePDU`. The buffer has the size modulo `2 ^ 32`; `none` is a panic,
when the header, or the start of the TLVs, is not within it. -/
def encodePDU (pdu : WirePDU) : Option Bytes :=
  let commandLength := pdu.size % 2 ^ 32
  if commandLength < pduHeaderLen then none
  else if pdu.tlvBytes ≠ [] ∧ commandLength < pduHeaderLen + pdu.body.length then none
  else
    some ((header commandLength pdu.commandID.toNat pdu.commandStatus.toNat
      pdu.sequenceNumber.toNat ++ (pdu.body ++ pdu.tlvBytes)).take commandLength)

/-- What `DecodePDU` complains about. -/
inductive DecodeError
  | shortHeader (got : ℕ)
  | shortPDU (got : ℕ) (commandLength : UInt32)
  deriving DecidableEq

/-- The 32-bit number at an offset. -/
def word (data : Bytes) (offset : ℕ) : UInt32 :=
  UInt32.ofNat (ofBigEndian ((data.drop offset).take 4))

/-- `DecodePDU`; `uint32(len(data))` is compared with the length field. -/
def decodePDU (data : Bytes) : Except DecodeError WirePDU :=
  if data.length < pduHeaderLen then .error (.shortHeader data.length)
  else
    let cmdLen := word data 0
    if data.length % 2 ^ 32 < cmdLen.toNat then .error (.shortPDU data.length cmdLen)
    else
      .ok
        { commandLength := cmdLen
          commandID := word data 4
          commandStatus := word data 8
          sequenceNumber := word data 12
          body := (data.take cmdLen.toNat).drop pduHeaderLen }

/-! ## Headers -/

section Header

variable {l c s q : ℕ}

@[simp] theorem length_header : (header l c s q).length = pduHeaderLen := by
  simp [header, pduHeaderLen]

/-- The words of a header. -/
theorem word_header (l c s q : ℕ) (rest : Bytes) :
    word (header l c s q ++ rest) 0 = UInt32.ofNat (l % 2 ^ 32) ∧
    word (header l c s q ++ rest) 4 = UInt32.ofNat (c % 2 ^ 32) ∧
    word (header l c s q ++ rest) 8 = UInt32.ofNat (s % 2 ^ 32) ∧
    word (header l c s q ++ rest) 12 = UInt32.ofNat (q % 2 ^ 32) := by
  have htake : ∀ (n : ℕ) (tail : Bytes), (bigEndian 4 n ++ tail).take 4 = bigEndian 4 n :=
    fun n tail => take_left' (length_bigEndian 4 n)
  have hdrop : ∀ (n k : ℕ) (tail : Bytes), (bigEndian 4 n ++ tail).drop (4 + k) = tail.drop k :=
    fun n k tail => by rw [← drop_drop, drop_left' (length_bigEndian 4 n)]
  have hvalue : ∀ n, ofBigEndian (bigEndian 4 n) = n % 2 ^ 32 := fun n => ofBigEndian_bigEndian 4 n
  simp only [header, append_assoc]
  refine ⟨?_, ?_, ?_, ?_⟩
  · rw [word, drop_zero, htake, hvalue]
  · rw [word, hdrop l 0, drop_zero, htake, hvalue]
  · rw [word, hdrop l 4, hdrop c 0, drop_zero, htake, hvalue]
  · rw [word, hdrop l 8, hdrop c 4, hdrop s 0, drop_zero, htake, hvalue]

/-- A field's value is the word it was written from. -/
theorem word_toNat (x : UInt32) : UInt32.ofNat (x.toNat % 2 ^ 32) = x := by
  rw [Nat.mod_eq_of_lt x.toNat_lt, UInt32.ofNat_toNat]

theorem toNat_word (data : Bytes) (offset : ℕ) :
    (word data offset).toNat = ofBigEndian ((data.drop offset).take 4) := by
  have hlt := ofBigEndian_lt ((data.drop offset).take 4)
  have hle : ((data.drop offset).take 4).length ≤ 4 := length_take_le _ _
  have hpow : 256 ^ ((data.drop offset).take 4).length ≤ 256 ^ 4 :=
    Nat.pow_le_pow_right (by decide) hle
  exact Nat.mod_eq_of_lt (lt_of_lt_of_le hlt hpow)

/-- **Every sixteen bytes are a header.** -/
theorem header_word {data : Bytes} (h : pduHeaderLen ≤ data.length) :
    header (word data 0).toNat (word data 4).toNat (word data 8).toNat (word data 12).toNat =
      data.take pduHeaderLen := by
  have hword : ∀ offset, offset + 4 ≤ data.length →
      bigEndian 4 (word data offset).toNat = (data.drop offset).take 4 := by
    intro offset hle
    have hlen : ((data.drop offset).take 4).length = 4 := by
      rw [length_take, length_drop]
      omega
    have hback := bigEndian_ofBigEndian ((data.drop offset).take 4)
    rwa [hlen, ← toNat_word] at hback
  have hlen : 16 ≤ data.length := h
  rw [header, hword 0 (by omega), hword 4 (by omega), hword 8 (by omega), hword 12 (by omega)]
  rw [drop_zero, show pduHeaderLen = 4 + (4 + (4 + 4)) from rfl, take_add, take_add,
    take_add, drop_drop, drop_drop]

end Header

/-! ## Round trips -/

/-- What the reader gets of a PDU: the TLVs are behind the body. -/
def received (pdu : WirePDU) : WirePDU where
  commandLength := UInt32.ofNat pdu.size
  commandID := pdu.commandID
  commandStatus := pdu.commandStatus
  sequenceNumber := pdu.sequenceNumber
  body := pdu.body ++ pdu.tlvBytes

/-- A PDU that fits is written out. -/
theorem encodePDU_of_lt {pdu : WirePDU} (h : pdu.size < 2 ^ 32) :
    encodePDU pdu = some (header pdu.size pdu.commandID.toNat pdu.commandStatus.toNat
      pdu.sequenceNumber.toNat ++ (pdu.body ++ pdu.tlvBytes)) := by
  have hmod : pdu.size % 2 ^ 32 = pdu.size := Nat.mod_eq_of_lt h
  have hsize : pdu.size = pduHeaderLen + (pdu.body ++ pdu.tlvBytes).length := by
    rw [WirePDU.size, length_append, Nat.add_assoc]
  have hheader : ¬ pdu.size < pduHeaderLen := by omega
  have hbody : ¬ (pdu.tlvBytes ≠ [] ∧ pdu.size < pduHeaderLen + pdu.body.length) := by
    rintro ⟨-, hlt⟩
    rw [hsize, length_append] at hlt
    omega
  simp only [encodePDU, hmod, if_neg hheader, if_neg hbody]
  rw [take_of_length_le]
  rw [length_append, length_header, ← hsize]

/-- **What is written is read back.** -/
theorem decodePDU_encodePDU {pdu : WirePDU} (h : pdu.size < 2 ^ 32) {d : Bytes}
    (hd : encodePDU pdu = some d) : d.length = pdu.size ∧ decodePDU d = .ok (received pdu) := by
  rw [encodePDU_of_lt h] at hd
  cases hd
  obtain ⟨hlen, hcmd, hstatus, hseq⟩ := word_header pdu.size pdu.commandID.toNat
    pdu.commandStatus.toNat pdu.sequenceNumber.toNat (pdu.body ++ pdu.tlvBytes)
  have hlength : (header pdu.size pdu.commandID.toNat pdu.commandStatus.toNat
      pdu.sequenceNumber.toNat ++ (pdu.body ++ pdu.tlvBytes)).length = pdu.size := by
    rw [length_append, length_header, length_append, WirePDU.size, Nat.add_assoc]
  have hmod : pdu.size % 2 ^ 32 = pdu.size := Nat.mod_eq_of_lt h
  have hnat : (UInt32.ofNat pdu.size).toNat = pdu.size := hmod
  rw [hmod] at hlen
  rw [word_toNat] at hcmd hstatus hseq
  have hheader : ¬ pdu.size < pduHeaderLen := by
    rw [WirePDU.size]
    omega
  refine ⟨hlength, ?_⟩
  simp only [decodePDU, hlength, hlen, hcmd, hstatus, hseq, hnat, hmod, if_neg hheader,
    lt_irrefl, if_false, received]
  rw [take_of_length_le hlength.le, drop_left' length_header]

/-- **What is read is written back.** -/
theorem encodePDU_decodePDU {d : Bytes} (hlen : pduHeaderLen ≤ d.length)
    (hfield : ofBigEndian (d.take 4) = d.length) :
    ∃ pdu, decodePDU d = .ok pdu ∧ encodePDU pdu = some d := by
  have hword : (word d 0).toNat = d.length := by rw [toNat_word, drop_zero, hfield]
  have hlt : d.length < 2 ^ 32 := hword ▸ (word d 0).toNat_lt
  have hmod : d.length % 2 ^ 32 = d.length := Nat.mod_eq_of_lt hlt
  have hdecode : decodePDU d = .ok
      { commandLength := word d 0
        commandID := word d 4
        commandStatus := word d 8
        sequenceNumber := word d 12
        body := d.drop pduHeaderLen } := by
    simp only [decodePDU, if_neg (not_lt.mpr hlen), hword, hmod, lt_irrefl, if_false, take_length]
  refine ⟨_, hdecode, ?_⟩
  have hsize : pduHeaderLen + (d.drop pduHeaderLen).length = d.length := by
    rw [length_drop]
    omega
  rw [encodePDU_of_lt]
  · simp only [WirePDU.size, WirePDU.tlvBytes, Option.map_none, Option.getD_none, length_nil,
      Nat.add_zero, hsize, append_nil]
    rw [← hword, header_word hlen, take_append_drop]
  · simp only [WirePDU.size, WirePDU.tlvBytes, Option.map_none, Option.getD_none, length_nil,
      Nat.add_zero, hsize]
    exact hlt

/-- **PDUs and TLVs go around.** A PDU whose body is just the mandatory fields
of its command comes back from the wire with its TLVs behind the body, and
they are extracted; and every PDU whose length field is right is written as it
was read. -/
theorem pdu_round_trip :
    (∀ pdu : WirePDU, mandatoryBodyLen pdu.commandID pdu.body = some pdu.body.length →
      (pdu.commandID ∈ cStringOnly → pdu.body ≠ []) →
      (∀ t ∈ pdu.tlvs, ∀ v ∈ t.values, v.length ≤ 65535) → pdu.size < 2 ^ 32 →
      ∃ d back, encodePDU pdu = some d ∧ decodePDU d = .ok back ∧
        back.commandID = pdu.commandID ∧ back.commandStatus = pdu.commandStatus ∧
        back.sequenceNumber = pdu.sequenceNumber ∧ back.commandLength.toNat = d.length ∧
        back.body = pdu.body ++ TLVSet.encode (pdu.tlvs.getD .empty) ∧
        extractTLVs back.toPDU = .ok (some (pdu.tlvs.getD .empty))) ∧
    ∀ d : Bytes, pduHeaderLen ≤ d.length → ofBigEndian (d.take 4) = d.length →
      ∃ pdu, decodePDU d = .ok pdu ∧ encodePDU pdu = some d := by
  refine ⟨?_, fun d hlen hfield => encodePDU_decodePDU hlen hfield⟩
  intro pdu hmandatory hbody htlvs hsize
  have hencode := encodePDU_of_lt hsize
  obtain ⟨hlength, hdecode⟩ := decodePDU_encodePDU hsize hencode
  have hbytes : pdu.tlvBytes = TLVSet.encode (pdu.tlvs.getD .empty) := by
    rw [WirePDU.tlvBytes]
    cases pdu.tlvs <;> rfl
  have hvalues : ∀ v ∈ (pdu.tlvs.getD .empty).values, v.length ≤ 65535 := by
    intro v hv
    cases ht : pdu.tlvs with
    | none =>
      rw [ht] at hv
      cases hv
    | some t =>
      rw [ht] at hv
      exact htlvs t ht v hv
  refine ⟨_, received pdu, hencode, hdecode, rfl, rfl, rfl, ?_, ?_, ?_⟩
  · rw [hlength]
    exact Nat.mod_eq_of_lt hsize
  · rw [← hbytes]
    rfl
  · refine extractTLVs_append hvalues hbody hmandatory rfl ?_
    rw [← hbytes]
    rfl

/-- A `submit_sm_resp` with a message id and one TLV. -/
def taggedResp : WirePDU where
  commandID := cmdSubmitSMResp
  sequenceNumber := 7
  body := [49, 0]
  tlvs := some (SortedMap.empty.insert 0x001D [111, 107])

theorem tagged_resp_round_trip :
    (∃ d back, encodePDU taggedResp = some d ∧ decodePDU d = .ok back ∧
      back.body = [49, 0, 0, 0x1D, 0, 2, 111, 107] ∧
      extractTLVs back.toPDU = .ok (some (SortedMap.empty.insert 0x001D [111, 107]))) ∧
    ∃ pdu, decodePDU [0, 0, 0, 16, 0, 0, 0, 21, 0, 0, 0, 0, 0, 0, 0, 1] = .ok pdu ∧
      encodePDU pdu = some [0, 0, 0, 16, 0, 0, 0, 21, 0, 0, 0, 0, 0, 0, 0, 1] := by
  refine ⟨?_, pdu_round_trip.2 _ (by decide) (by decide)⟩
  obtain ⟨d, back, hencode, hdecode, -, -, -, -, hbody, htlvs⟩ :=
    pdu_round_trip.1 taggedResp (by decide) (by decide) (by decide) (by decide)
  exact ⟨d, back, hencode, hdecode, hbody, htlvs⟩

end Smpp

end SmscGateway
