import SmscGateway.Client.Model
import SmscGateway.Smpp.Bodies

/-!
# What a deliver handler gets

`dispatchPDU` hands over what `ParseDeliverSM` takes for the short message.
That is the message of every `deliver_sm` which has one in its short message;
a message that is carried in the `message_payload` TLV is not looked for, and
the handler gets nothing.
-/

namespace SmscGateway

namespace Client

open Smpp

/-- The payload a handler is called with, for a `deliver_sm`. -/
def handlerPayload (seq : UInt32) (body : Bytes) : Bytes :=
  (deliverMessage { commandID := cmdDeliverSM, sequenceNumber := seq, body }).payload

theorem handlerPayload_encode (seq : UInt32) (m : SMBody) :
    handlerPayload seq m.encode = m.shortMessage := by
  simp only [handlerPayload, deliverMessage, m.parseDeliverSM_encode]

/-- The gateway's own builder leaves the short message of a long one empty. -/
theorem handlerPayload_buildDeliverSMBody (seq : UInt32) {sourceAddr destAddr : Bytes}
    (hsource : NulFree sourceAddr) (hdest : NulFree destAddr) (esmClass : UInt8) (message : Bytes) :
    handlerPayload seq (buildDeliverSMBody sourceAddr destAddr esmClass message) =
      if message.length > 254 then [] else message := by
  rw [buildDeliverSMBody, smBody_eq_encodeSubmitSM, encodeSubmitSM_eq hsource hdest,
    handlerPayload_encode]
  rfl

/-- The handler got the message: the short message if there is one, else the
`message_payload` if there is one. -/
def Received (payload body : Bytes) (t : TLVSet) : Prop :=
  ∀ smLength short, shortMessageField body = some (smLength, short) →
    (0 < smLength.toNat → payload = short) ∧
    (smLength = 0 → ∀ v ∈ t.find? tagMessagePayload, payload = v)

/-- There is no message behind an empty short message. -/
def NoPayloadTLV (body : Bytes) (t : TLVSet) : Prop :=
  ∀ short, shortMessageField body = some (0, short) → ∀ v ∈ t.find? tagMessagePayload, v = []

/-- **A handler gets the message just when it is in the short message.** -/
theorem handler_gets_short_messages (seq : UInt32) :
    (∀ (body : Bytes) (n : ℕ) (t : TLVSet),
      mandatoryBodyLen cmdDeliverSM body = some n → decodeTLVs (body.drop n) = .ok t →
      (Received (handlerPayload seq body) body t ↔ NoPayloadTLV body t)) ∧
    ∀ (sourceAddr destAddr : Bytes) (esmClass : UInt8) (message : Bytes),
      NulFree sourceAddr → NulFree destAddr → message.length ≤ 65535 →
      (handlerPayload seq (buildDeliverSMBody sourceAddr destAddr esmClass message) = message ↔
        message.length ≤ 254) := by
  refine ⟨?_, ?_⟩
  · intro body n t hlen _
    rw [mandatoryBodyLen_submitDeliverSM (by decide)] at hlen
    obtain ⟨m, rfl, -⟩ := exists_smBody_of_mandatoryLen hlen
    rw [handlerPayload_encode, Received, NoPayloadTLV, shortMessageField_encode]
    constructor
    · -- the payload is empty, and so must be the TLV
      intro h short hshort v hv
      obtain ⟨hzero, rfl⟩ := Prod.mk.inj (Option.some.inj hshort)
      have hempty : m.shortMessage = [] := by
        rw [← List.length_eq_zero_iff, m.length_shortMessage, hzero]
        rfl
      have hpayload := (h m.smLength m.shortMessage rfl).2 hzero v hv
      rw [← hpayload, hempty]
    · intro h smLength short hshort
      obtain ⟨rfl, rfl⟩ := Prod.mk.inj (Option.some.inj hshort)
      refine ⟨fun _ => rfl, fun hzero v hv => ?_⟩
      have hempty : m.shortMessage = [] := by
        rw [← List.length_eq_zero_iff, m.length_shortMessage, hzero]
        rfl
      rw [h m.shortMessage (by rw [hzero]) v hv, hempty]
  · intro sourceAddr destAddr esmClass message hsource hdest _
    rw [handlerPayload_buildDeliverSMBody seq hsource hdest]
    split
    · rename_i hlong
      refine ⟨fun h => ?_, fun h => absurd h (by omega)⟩
      rw [← h]
      exact Nat.zero_le _
    · rename_i hshort
      exact ⟨fun _ => not_lt.mp hshort, fun _ => rfl⟩

/-- A short message is received, and a body without any has nothing to be
received. -/
theorem short_message_received :
    handlerPayload 7 (buildDeliverSMBody [49] [50] 4 [104, 105]) = [104, 105] ∧
    Received (handlerPayload 7 (buildDeliverSMBody [49] [50] 4 []))
      (buildDeliverSMBody [49] [50] 4 []) .empty :=
  ⟨((handler_gets_short_messages 7).2 [49] [50] 4 [104, 105] (by decide) (by decide) (by decide)).mpr
      (by decide),
    ((handler_gets_short_messages 7).1 _ _ .empty rfl (by decide)).mpr (by
      intro _ _ v hv
      cases hv)⟩

/-- The text "hi" in a `message_payload`, and a text of 255 bytes from the
gateway's own builder: the handler gets nothing. -/
theorem payload_tlv_ignored :
    (∃ t n, mandatoryBodyLen cmdDeliverSM
        [0, 0, 0, 49, 0, 1, 1, 50, 0, 0, 0, 0, 0, 0, 0, 0, 0, 0, 0, 4, 0x24, 0, 2, 104, 105] = some n ∧
      decodeTLVs (List.drop n
        [0, 0, 0, 49, 0, 1, 1, 50, 0, 0, 0, 0, 0, 0, 0, 0, 0, 0, 0, 4, 0x24, 0, 2, 104, 105]) = .ok t ∧
      t.find? tagMessagePayload = some [104, 105] ∧
      shortMessageField
        [0, 0, 0, 49, 0, 1, 1, 50, 0, 0, 0, 0, 0, 0, 0, 0, 0, 0, 0, 4, 0x24, 0, 2, 104, 105] =
          some (0, []) ∧
      handlerPayload 7
        [0, 0, 0, 49, 0, 1, 1, 50, 0, 0, 0, 0, 0, 0, 0, 0, 0, 0, 0, 4, 0x24, 0, 2, 104, 105] = []) ∧
    handlerPayload 7 (buildDeliverSMBody [49] [50] 4 (List.replicate 255 65)) = [] := by
  refine ⟨⟨SortedMap.empty.insert tagMessagePayload [104, 105], 19, by decide, by decide, by decide,
    by decide, by decide⟩, ?_⟩
  rw [handlerPayload_buildDeliverSMBody 7 (by decide) (by decide), List.length_replicate]
  rfl

end Client

end SmscGateway
