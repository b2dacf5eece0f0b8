import SmscGateway.Smpp.DeliverSM
import SmscGateway.Smpp.Fields

/-!
# The bodies of `submit_sm` and `deliver_sm`

An `SMBody` is a body with all mandatory fields of a `submit_sm` or a
`deliver_sm`, and what stands behind them. `MandatoryBodyLen` accepts just
these bodies (`exists_smBody_of_mandatoryLen`), and `ParseSubmitSMAddresses` and
`ParseDeliverSM` read their fields. The three builders, in two packages, write
such bodies, with a message that does not fit the short message in a TLV.
-/

namespace SmscGateway

open List

namespace Smpp

/-- A body, field by field; `optional` is everything behind the mandatory
fields. -/
structure SMBody where
  serviceType : Bytes
  sourceTON : UInt8
  sourceNPI : UInt8
  sourceAddr : Bytes
  destTON : UInt8
  destNPI : UInt8
  destAddr : Bytes
  esmClass : UInt8
  protocolID : UInt8
  priorityFlag : UInt8
  scheduleDeliveryTime : Bytes
  validityPeriod : Bytes
  registeredDelivery : UInt8
  replaceIfPresent : UInt8
  dataCoding : UInt8
  smDefaultMsgID : UInt8
  smLength : UInt8
  shortMessage : Bytes
  optional : Bytes
  serviceType_nulFree : NulFree serviceType
  sourceAddr_nulFree : NulFree sourceAddr
  destAddr_nulFree : NulFree destAddr
  scheduleDeliveryTime_nulFree : NulFree scheduleDeliveryTime
  validityPeriod_nulFree : NulFree validityPeriod
  length_shortMessage : shortMessage.length = smLength.toNat

namespace SMBody

variable (m : SMBody)

/-- What stands behind the destination. -/
def tail : Bytes :=
  m.esmClass :: m.protocolID :: m.priorityFlag :: (m.scheduleDeliveryTime ++ 0 ::
    (m.validityPeriod ++ 0 :: m.registeredDelivery :: m.replaceIfPresent :: m.dataCoding ::
      m.smDefaultMsgID :: m.smLength :: (m.shortMessage ++ m.optional)))

/-- The body up to its destination. -/
def toSubmitSM : SubmitSM where
  serviceType := m.serviceType
  sourceTON := m.sourceTON
  sourceNPI := m.sourceNPI
  sourceAddr := m.sourceAddr
  destTON := m.destTON
  destNPI := m.destNPI
  destAddr := m.destAddr
  tail := m.tail
  serviceType_nulFree := m.serviceType_nulFree
  sourceAddr_nulFree := m.sourceAddr_nulFree
  destAddr_nulFree := m.destAddr_nulFree

/-- The bytes. -/
def encode : Bytes := m.toSubmitSM.encode

/-- The mandatory fields that hold neither an address nor the message. -/
def options : List Bytes :=
  [m.serviceType, [m.sourceTON, m.sourceNPI], [m.destTON, m.destNPI],
    [m.esmClass, m.protocolID, m.priorityFlag], m.scheduleDeliveryTime, m.validityPeriod,
    [m.registeredDelivery, m.replaceIfPresent, m.dataCoding, m.smDefaultMsgID]]

/-- The fields before `sm_length`. -/
def front : List Bytes :=
  [m.serviceType ++ [0], [m.sourceTON, m.sourceNPI], m.sourceAddr ++ [0], [m.destTON, m.destNPI],
    m.destAddr ++ [0], [m.esmClass, m.protocolID, m.priorityFlag], m.scheduleDeliveryTime ++ [0],
    m.validityPeriod ++ [0],
    [m.registeredDelivery, m.replaceIfPresent, m.dataCoding, m.smDefaultMsgID]]

theorem layout_front : Layout submitDeliverSMFront m.front :=
  .cons ⟨_, m.serviceType_nulFree, rfl⟩ <| .cons rfl <| .cons ⟨_, m.sourceAddr_nulFree, rfl⟩ <|
    .cons rfl <| .cons ⟨_, m.destAddr_nulFree, rfl⟩ <| .cons rfl <|
    .cons ⟨_, m.scheduleDeliveryTime_nulFree, rfl⟩ <|
    .cons ⟨_, m.validityPeriod_nulFree, rfl⟩ <| .cons rfl .nil

theorem encode_eq_front :
    m.encode = m.front.flatten ++ (m.smLength :: m.shortMessage ++ m.optional) := by
  simp [encode, SubmitSM.encode, toSubmitSM, tail, front]

/-- The fields end before `optional`. -/
theorem mandatoryLen_encode :
    mandatoryLenSubmitDeliverSM m.encode = some (m.encode.length - m.optional.length) := by
  have hlayout : Layout (submitDeliverSMFront ++ [.shortMessage])
      (m.front ++ [m.smLength :: m.shortMessage]) :=
    rel_append m.layout_front (.cons ⟨_, _, rfl, m.length_shortMessage⟩ .nil)
  refine walk_eq_some_iff.mpr ⟨_, m.optional, hlayout, ?_, ?_⟩
  · rw [encode_eq_front]
    simp
  · rw [encode_eq_front]
    simp
    omega

/-- What stands behind the fields. -/
theorem drop_encode : m.encode.drop (m.encode.length - m.optional.length) = m.optional := by
  have hsplit : m.encode = m.front.flatten ++ m.smLength :: m.shortMessage ++ m.optional := by
    rw [encode_eq_front, append_assoc]
  rw [hsplit, length_append, Nat.add_sub_cancel, drop_left]

/-- The addresses are read. -/
theorem parseSubmitSMAddresses_encode :
    parseSubmitSMAddresses m.encode = (m.sourceAddr, m.destAddr) :=
  m.toSubmitSM.parse_encode

/-- **`ParseDeliverSM` reads the fields.** -/
theorem parseDeliverSM_encode :
    parseDeliverSM m.encode =
      { sourceAddr := m.sourceAddr
        destAddr := m.destAddr
        esmClass := m.esmClass
        shortMessage := m.shortMessage } := by
  have hshort : readShortMessage m.smLength (m.shortMessage ++ m.optional) = m.shortMessage := by
    rw [readShortMessage, ← m.length_shortMessage, if_pos (by simp), take_left]
  simp only [encode, SubmitSM.encode, toSubmitSM, tail, parseDeliverSM,
    readCString_append m.serviceType_nulFree, readCString_append m.sourceAddr_nulFree,
    readCString_append m.destAddr_nulFree, readCString_append m.scheduleDeliveryTime_nulFree,
    readCString_append m.validityPeriod_nulFree, hshort]

end SMBody

/-- Four bytes are a list of length four. -/
theorem exists_of_length_four {p : Bytes} (h : p.length = 4) : ∃ a b c d, p = [a, b, c, d] := by
  rcases p with _ | ⟨a, p⟩
  · cases h
  · obtain ⟨b, c, d, rfl⟩ := length_eq_three.mp (Nat.succ.inj h)
    exact ⟨a, b, c, d, rfl⟩

/-- **The bodies `MandatoryBodyLen` accepts** are those that have all fields. -/
theorem exists_smBody_of_mandatoryLen {body : Bytes} {n : ℕ}
    (h : mandatoryLenSubmitDeliverSM body = some n) :
    ∃ m : SMBody, body = m.encode ∧ m.optional = body.drop n := by
  obtain ⟨parts, rest, hparts, hbody, rfl⟩ := walk_eq_some_iff.mp h
  -- one inversion for each field
  rcases hparts with _ | ⟨⟨serviceType, hst, rfl⟩, hparts⟩
  rcases hparts with _ | ⟨hp₂, hparts⟩
  rcases hparts with _ | ⟨⟨source, hsource, rfl⟩, hparts⟩
  rcases hparts with _ | ⟨hp₄, hparts⟩
  rcases hparts with _ | ⟨⟨dest, hdest, rfl⟩, hparts⟩
  rcases hparts with _ | ⟨hp₆, hparts⟩
  rcases hparts with _ | ⟨⟨schedule, hschedule, rfl⟩, hparts⟩
  rcases hparts with _ | ⟨⟨validity, hvalidity, rfl⟩, hparts⟩
  rcases hparts with _ | ⟨hp₉, hparts⟩
  rcases hparts with _ | ⟨⟨smLen, message, rfl, hmessage⟩, hparts⟩
  rcases hparts with _ | _
  obtain ⟨sourceTON, sourceNPI, rfl⟩ := length_eq_two.mp hp₂
  obtain ⟨destTON, destNPI, rfl⟩ := length_eq_two.mp hp₄
  obtain ⟨esmClass, protocolID, priorityFlag, rfl⟩ := length_eq_three.mp hp₆
  obtain ⟨registered, replace, dataCoding, default, rfl⟩ := exists_of_length_four hp₉
  refine ⟨⟨serviceType, sourceTON, sourceNPI, source, destTON, destNPI, dest, esmClass, protocolID,
    priorityFlag, schedule, validity, registered, replace, dataCoding, default, smLen, message, rest,
    hst, hsource, hdest, hschedule, hvalidity, hmessage⟩, ?_, ?_⟩
  · rw [hbody]
    simp [SMBody.encode, SubmitSM.encode, SMBody.toSubmitSM, SMBody.tail]
  · rw [hbody, drop_left]

/-- For `submit_sm` and `deliver_sm`. -/
theorem mandatoryBodyLen_submitDeliverSM {commandID : UInt32}
    (h : commandID ∈ [cmdSubmitSM, cmdDeliverSM]) :
    mandatoryBodyLen commandID = mandatoryLenSubmitDeliverSM := if_pos h

/-! ## The message -/

/-- `sm_length` and `short_message` of a body. -/
def shortMessageField (body : Bytes) : Option (UInt8 × Bytes) :=
  (walk body submitDeliverSMFront 0).bind fun offset =>
    match body.drop offset with
    | [] => none
    | smLength :: rest => some (smLength, rest.take smLength.toNat)

theorem shortMessageField_encode (m : SMBody) :
    shortMessageField m.encode = some (m.smLength, m.shortMessage) := by
  have hwalk : walk m.encode submitDeliverSMFront 0 = some m.front.flatten.length :=
    walk_eq_some_iff.mpr ⟨_, _, m.layout_front, m.encode_eq_front, rfl⟩
  have hdrop : m.encode.drop m.front.flatten.length =
      m.smLength :: (m.shortMessage ++ m.optional) := by
    rw [m.encode_eq_front, drop_left, cons_append]
  rw [shortMessageField, hwalk, Option.bind_some, hdrop]
  simp only [← m.length_shortMessage, take_left]

/-- The message a body with these TLVs carries: the short message, or the
`message_payload` behind an empty one. -/
def carriedMessage (body : Bytes) (t : TLVSet) : Option Bytes :=
  (shortMessageField body).bind fun (smLength, short) =>
    if smLength = 0 then t.find? tagMessagePayload else some short

/-- **No message is longer than a TLV can be.** -/
theorem length_carriedMessage_le {body tlvBytes message : Bytes} {t : TLVSet}
    (ht : decodeTLVs tlvBytes = .ok t) (h : carriedMessage body t = some message) :
    message.length ≤ 65535 := by
  obtain ⟨⟨smLength, short⟩, hfield, h⟩ := Option.bind_eq_some_iff.mp h
  dsimp only at h
  split at h
  · exact values_of_decodeTLVs ht _ (SortedMap.mem_values_iff.mpr ⟨_, h⟩)
  · obtain rfl := Option.some.inj h
    have hle : short.length ≤ smLength.toNat := by
      obtain ⟨offset, -, hfield⟩ := Option.bind_eq_some_iff.mp hfield
      split at hfield
      · cases hfield
      · obtain ⟨rfl, rfl⟩ := Prod.mk.inj (Option.some.inj hfield)
        exact length_take_le _ _
    have hlt := smLength.toNat_lt
    omega

/-! ## Builders -/

/-- `EncodeSubmitSM`; `smBody` is the same with the values the gateway
gives. -/
def encodeSubmitSM (sourceAddr : Bytes) (sourceTON sourceNPI : UInt8) (destAddr : Bytes)
    (destTON destNPI esmClass protocolID dataCoding registeredDelivery : UInt8)
    (shortMessage : Bytes) : Bytes :=
  cString [] ++ [sourceTON, sourceNPI] ++ cString sourceAddr ++ [destTON, destNPI] ++
    cString destAddr ++ [esmClass, protocolID, 0] ++ cString [] ++ cString [] ++
    [registeredDelivery, 0, dataCoding, 0] ++
    if shortMessage.length > 254 then
      [0, 0x04, 0x24, UInt8.ofNat (shortMessage.length / 256), UInt8.ofNat shortMessage.length] ++
        shortMessage
    else
      UInt8.ofNat shortMessage.length :: shortMessage

theorem smBody_eq_encodeSubmitSM (sourceAddr destAddr : Bytes) (esmClass registered : UInt8)
    (message : Bytes) : smBody sourceAddr destAddr esmClass registered message =
      encodeSubmitSM sourceAddr 0 0 destAddr 1 1 esmClass 0 0 registered message := rfl

section Builders

variable {sourceAddr destAddr : Bytes} (hsource : NulFree sourceAddr) (hdest : NulFree destAddr)
  (sourceTON sourceNPI destTON destNPI esmClass protocolID dataCoding registered : UInt8)
  (message : Bytes)

/-- The fields the builders write. -/
def built : SMBody where
  serviceType := []
  sourceTON := sourceTON
  sourceNPI := sourceNPI
  sourceAddr := sourceAddr
  destTON := destTON
  destNPI := destNPI
  destAddr := destAddr
  esmClass := esmClass
  protocolID := protocolID
  priorityFlag := 0
  scheduleDeliveryTime := []
  validityPeriod := []
  registeredDelivery := registered
  replaceIfPresent := 0
  dataCoding := dataCoding
  smDefaultMsgID := 0
  smLength := if message.length > 254 then 0 else UInt8.ofNat message.length
  shortMessage := if message.length > 254 then [] else message
  optional := if message.length > 254 then encodeTLV (tagMessagePayload, message) else []
  serviceType_nulFree := not_mem_nil
  sourceAddr_nulFree := hsource
  destAddr_nulFree := hdest
  scheduleDeliveryTime_nulFree := not_mem_nil
  validityPeriod_nulFree := not_mem_nil
  length_shortMessage := by
    split
    · rfl
    · exact (Nat.mod_eq_of_lt (by omega)).symm

/-- The builders write them one behind the other. -/
theorem encodeSubmitSM_eq :
    encodeSubmitSM sourceAddr sourceTON sourceNPI destAddr destTON destNPI esmClass protocolID
      dataCoding registered message =
    (built hsource hdest sourceTON sourceNPI destTON destNPI esmClass protocolID dataCoding
      registered message).encode := by
  by_cases hlong : message.length > 254
  · simp [encodeSubmitSM, SMBody.encode, SubmitSM.encode, SMBody.toSubmitSM, SMBody.tail, built,
      hlong, cString, encodeTLV, tagMessagePayload, bigEndian]
  · simp [encodeSubmitSM, SMBody.encode, SubmitSM.encode, SMBody.toSubmitSM, SMBody.tail, built,
      hlong, cString]

/-- Addresses, `esm_class` and message are read back from a body: the message
as the `short_message`, or as the `message_payload` TLV when it is too long
for one. -/
structure Recovers (body sourceAddr destAddr : Bytes) (esmClass : UInt8) (message : Bytes) :
    Prop where
  addresses : parseSubmitSMAddresses body = (sourceAddr, destAddr)
  sourceAddr : (parseDeliverSM body).sourceAddr = sourceAddr
  destAddr : (parseDeliverSM body).destAddr = destAddr
  esmClass : (parseDeliverSM body).esmClass = esmClass
  short : message.length ≤ 254 → (parseDeliverSM body).shortMessage = message ∧
    ∀ commandID ∈ [cmdSubmitSM, cmdDeliverSM],
      mandatoryBodyLen commandID body = some body.length
  long : 254 < message.length → ∀ commandID ∈ [cmdSubmitSM, cmdDeliverSM],
    mandatoryBodyLen commandID body = some (body.length - 4 - message.length) ∧
    ∀ status seq, extractTLVs ⟨commandID, status, seq, body⟩ =
      .ok (some (SortedMap.empty.insert tagMessagePayload message))

/-- The only TLV of a long message. -/
theorem extractTLVs_of_payload {pdu : PDU} {n : ℕ} (hmessage : message.length ≤ 65535)
    (hlen : mandatoryBodyLen pdu.commandID pdu.body = some n)
    (hdrop : pdu.body.drop n = encodeTLV (tagMessagePayload, message)) :
    extractTLVs pdu = .ok (some (SortedMap.empty.insert tagMessagePayload message)) := by
  have hdecode : decodeTLVs (encodeTLV (tagMessagePayload, message)) =
      .ok (SortedMap.empty.insert tagMessagePayload message) := decodeTLVs_encodeTLV hmessage
  have hne : ¬ n = pdu.body.length := by
    rintro rfl
    rw [drop_length] at hdrop
    exact encodeTLV_ne_nil _ hdrop.symm
  simp only [extractTLVs, hlen, if_neg hne, hdrop, hdecode]
  rfl

theorem length_encodeTLV (r : Tag × Bytes) : (encodeTLV r).length = 4 + r.2.length := by
  simp [encodeTLV]
  omega

theorem recovers_built (hmessage : message.length ≤ 65535) :
    Recovers (built hsource hdest sourceTON sourceNPI destTON destNPI esmClass protocolID dataCoding
      registered message).encode sourceAddr destAddr esmClass message := by
  have hopt : (built hsource hdest sourceTON sourceNPI destTON destNPI esmClass protocolID dataCoding
      registered message).optional =
      if message.length > 254 then encodeTLV (tagMessagePayload, message) else [] := rfl
  have hshortMessage : (built hsource hdest sourceTON sourceNPI destTON destNPI esmClass protocolID
      dataCoding registered message).shortMessage =
      if message.length > 254 then [] else message := rfl
  have hlen := SMBody.mandatoryLen_encode (built hsource hdest sourceTON sourceNPI destTON destNPI
    esmClass protocolID dataCoding registered message)
  have hdrop := SMBody.drop_encode (built hsource hdest sourceTON sourceNPI destTON destNPI
    esmClass protocolID dataCoding registered message)
  have hparse := SMBody.parseDeliverSM_encode (built hsource hdest sourceTON sourceNPI destTON
    destNPI esmClass protocolID dataCoding registered message)
  refine ⟨SMBody.parseSubmitSMAddresses_encode _, ?_, ?_, ?_, fun hshort => ⟨?_, ?_⟩, ?_⟩
  · rw [hparse]
    rfl
  · rw [hparse]
    rfl
  · rw [hparse]
    rfl
  · rw [hparse, hshortMessage, if_neg (by omega)]
  · intro commandID hcmd
    rw [mandatoryBodyLen_submitDeliverSM hcmd, hlen, hopt, if_neg (by omega), length_nil,
      Nat.sub_zero]
  · intro hlong commandID hcmd
    rw [← mandatoryBodyLen_submitDeliverSM hcmd] at hlen
    rw [hopt, if_pos hlong] at hlen hdrop
    refine ⟨?_, fun status seq => extractTLVs_of_payload message hmessage hlen hdrop⟩
    rw [hlen, length_encodeTLV, ← Nat.sub_sub]

end Builders

/-- **The three builders and the three readers agree.** -/
theorem bodies_are_read_back {sourceAddr destAddr : Bytes} (hsource : NulFree sourceAddr)
    (hdest : NulFree destAddr) {message : Bytes} (hmessage : message.length ≤ 65535) :
    (∀ sourceTON sourceNPI destTON destNPI esmClass protocolID dataCoding registered : UInt8,
      Recovers (encodeSubmitSM sourceAddr sourceTON sourceNPI destAddr destTON destNPI esmClass
        protocolID dataCoding registered message) sourceAddr destAddr esmClass message) ∧
    Recovers (buildSubmitSMBody sourceAddr destAddr message) sourceAddr destAddr 0 message ∧
    ∀ esmClass, Recovers (buildDeliverSMBody sourceAddr destAddr esmClass message) sourceAddr
      destAddr esmClass message := by
  have hall : ∀ sourceTON sourceNPI destTON destNPI esmClass protocolID dataCoding registered,
      Recovers (encodeSubmitSM sourceAddr sourceTON sourceNPI destAddr destTON destNPI esmClass
        protocolID dataCoding registered message) sourceAddr destAddr esmClass message := by
    intro sourceTON sourceNPI destTON destNPI esmClass protocolID dataCoding registered
    rw [encodeSubmitSM_eq hsource hdest]
    exact recovers_built hsource hdest _ _ _ _ _ _ _ _ message hmessage
  refine ⟨hall, ?_, fun esmClass => ?_⟩
  · rw [buildSubmitSMBody, smBody_eq_encodeSubmitSM]
    exact hall ..
  · rw [buildDeliverSMBody, smBody_eq_encodeSubmitSM]
    exact hall ..

/-- A short message, and one of 255 bytes. -/
theorem short_and_long_message_read_back :
    (parseDeliverSM (buildSubmitSMBody [49] [50] [104, 105])).shortMessage = [104, 105] ∧
    extractTLVs ⟨cmdDeliverSM, 0, 1, buildDeliverSMBody [49] [50] 0 (List.replicate 255 65)⟩ =
      .ok (some (SortedMap.empty.insert tagMessagePayload (List.replicate 255 65))) := by
  have hone : NulFree [49] := by decide
  have htwo : NulFree [50] := by decide
  have hlen : (List.replicate 255 (65 : UInt8)).length = 255 := length_replicate
  refine ⟨((bodies_are_read_back hone htwo (show [104, 105].length ≤ 65535 by decide)).2.1.short
    (by decide)).1, ?_⟩
  exact (((bodies_are_read_back hone htwo (by omega)).2.2 0).long (by omega) cmdDeliverSM
    (by decide)).2 0 1

end Smpp

end SmscGateway
