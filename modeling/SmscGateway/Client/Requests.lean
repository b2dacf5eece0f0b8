import SmscGateway.Client.Model
import SmscGateway.Smpp.Boundary
import SmscGateway.Smpp.Codec

/-!
# The requests a client builds

The encoders of the request bodies, and what `MandatoryBodyLen` finds in them:
the end of the body, so TLVs behind it are extracted as they were attached
(`encoded_delimited`). A `submit_multi` and the body of `ReplaceSM` carry their
counts in octets without a check, so what they say of themselves is true up to
255 and wrong from there on (`counts_truthful_iff`).
-/

namespace SmscGateway

namespace Client

open Smpp

/-! ## Encoders -/

/-- `EncodeBind`; the mode only selects the command. -/
def encodeBind (_mode : BindMode) (systemID password systemType : Bytes)
    (interfaceVersion : UInt8) : Bytes :=
  cString systemID ++ cString password ++ cString systemType ++ [interfaceVersion, 0x00, 0x00] ++
    cString []

/-- `EncodeQuerySM`. -/
def encodeQuerySM (messageID sourceAddr : Bytes) (sourceTON sourceNPI : UInt8) : Bytes :=
  cString messageID ++ [sourceTON, sourceNPI] ++ cString sourceAddr

/-- `EncodeCancelSM`. -/
def encodeCancelSM (serviceType messageID sourceAddr : Bytes) (sourceTON sourceNPI : UInt8)
    (destAddr : Bytes) (destTON destNPI : UInt8) : Bytes :=
  cString serviceType ++ cString messageID ++ [sourceTON, sourceNPI] ++ cString sourceAddr ++
    [destTON, destNPI] ++ cString destAddr

/-- `EncodeReplaceSM`; it has no place for the data coding it is given. -/
def encodeReplaceSM (messageID sourceAddr : Bytes) (sourceTON sourceNPI : UInt8)
    (scheduleDeliveryTime validityPeriod : Bytes)
    (registeredDelivery _dataCoding smLength : UInt8) (shortMessage : Bytes) : Bytes :=
  cString messageID ++ [sourceTON, sourceNPI] ++ cString sourceAddr ++
    cString scheduleDeliveryTime ++ cString validityPeriod ++ [registeredDelivery, 0x00] ++
    [smLength] ++ shortMessage

/-- `EncodeDataSM`. -/
def encodeDataSM (serviceType : Bytes) (sourceTON sourceNPI : UInt8) (sourceAddr : Bytes)
    (destTON destNPI : UInt8) (destAddr : Bytes)
    (esmClass registeredDelivery dataCoding : UInt8) : Bytes :=
  cString serviceType ++ [sourceTON, sourceNPI] ++ cString sourceAddr ++ [destTON, destNPI] ++
    cString destAddr ++ [esmClass, registeredDelivery, dataCoding]

/-- `EncodeBroadcastSM`. -/
def encodeBroadcastSM (serviceType : Bytes) (sourceTON sourceNPI : UInt8)
    (sourceAddr messageID : Bytes) (priorityFlag : UInt8)
    (scheduleDeliveryTime validityPeriod : Bytes)
    (replaceIfPresent dataCoding smDefaultMsgID : UInt8) : Bytes :=
  cString serviceType ++ [sourceTON, sourceNPI] ++ cString sourceAddr ++ cString messageID ++
    [priorityFlag] ++ cString scheduleDeliveryTime ++ cString validityPeriod ++
    [replaceIfPresent, dataCoding, smDefaultMsgID]

/-- `EncodeQueryBroadcastSM`. -/
def encodeQueryBroadcastSM (messageID : Bytes) (sourceTON sourceNPI : UInt8)
    (sourceAddr : Bytes) : Bytes :=
  cString messageID ++ [sourceTON, sourceNPI] ++ cString sourceAddr

/-- `EncodeCancelBroadcastSM`. -/
def encodeCancelBroadcastSM (serviceType messageID : Bytes) (sourceTON sourceNPI : UInt8)
    (sourceAddr : Bytes) : Bytes :=
  cString serviceType ++ cString messageID ++ [sourceTON, sourceNPI] ++ cString sourceAddr

/-- **What the encoders build** of strings without a NUL, with its command. -/
inductive Encoded : UInt32 → Bytes → Prop
  | bind (mode : BindMode) {systemID password systemType : Bytes} (interfaceVersion : UInt8)
      (hsystem : NulFree systemID) (hpassword : NulFree password) (htype : NulFree systemType) :
      Encoded (bindCommandID mode) (encodeBind mode systemID password systemType interfaceVersion)
  | querySM {messageID sourceAddr : Bytes} (sourceTON sourceNPI : UInt8)
      (hid : NulFree messageID) (hsource : NulFree sourceAddr) :
      Encoded cmdQuerySM (encodeQuerySM messageID sourceAddr sourceTON sourceNPI)
  | cancelSM {serviceType messageID sourceAddr destAddr : Bytes}
      (sourceTON sourceNPI destTON destNPI : UInt8) (hservice : NulFree serviceType)
      (hid : NulFree messageID) (hsource : NulFree sourceAddr) (hdest : NulFree destAddr) :
      Encoded cmdCancelSM
        (encodeCancelSM serviceType messageID sourceAddr sourceTON sourceNPI destAddr destTON destNPI)
  | replaceSM {messageID sourceAddr scheduleDeliveryTime validityPeriod shortMessage : Bytes}
      (sourceTON sourceNPI registeredDelivery dataCoding smLength : UInt8)
      (hid : NulFree messageID) (hsource : NulFree sourceAddr)
      (hschedule : NulFree scheduleDeliveryTime) (hvalidity : NulFree validityPeriod)
      (hlength : smLength.toNat = shortMessage.length) :
      Encoded cmdReplaceSM (encodeReplaceSM messageID sourceAddr sourceTON sourceNPI
        scheduleDeliveryTime validityPeriod registeredDelivery dataCoding smLength shortMessage)
  | dataSM {serviceType sourceAddr destAddr : Bytes}
      (sourceTON sourceNPI destTON destNPI esmClass registeredDelivery dataCoding : UInt8)
      (hservice : NulFree serviceType) (hsource : NulFree sourceAddr) (hdest : NulFree destAddr) :
      Encoded cmdDataSM (encodeDataSM serviceType sourceTON sourceNPI sourceAddr destTON destNPI
        destAddr esmClass registeredDelivery dataCoding)
  | broadcastSM {serviceType sourceAddr messageID scheduleDeliveryTime validityPeriod : Bytes}
      (sourceTON sourceNPI priorityFlag replaceIfPresent dataCoding smDefaultMsgID : UInt8)
      (hservice : NulFree serviceType) (hsource : NulFree sourceAddr) (hid : NulFree messageID)
      (hschedule : NulFree scheduleDeliveryTime) (hvalidity : NulFree validityPeriod) :
      Encoded cmdBroadcastSM (encodeBroadcastSM serviceType sourceTON sourceNPI sourceAddr messageID
        priorityFlag scheduleDeliveryTime validityPeriod replaceIfPresent dataCoding smDefaultMsgID)
  | queryBroadcastSM {messageID sourceAddr : Bytes} (sourceTON sourceNPI : UInt8)
      (hid : NulFree messageID) (hsource : NulFree sourceAddr) :
      Encoded cmdQueryBroadcastSM (encodeQueryBroadcastSM messageID sourceTON sourceNPI sourceAddr)
  | cancelBroadcastSM {serviceType messageID sourceAddr : Bytes} (sourceTON sourceNPI : UInt8)
      (hservice : NulFree serviceType) (hid : NulFree messageID) (hsource : NulFree sourceAddr) :
      Encoded cmdCancelBroadcastSM
        (encodeCancelBroadcastSM serviceType messageID sourceTON sourceNPI sourceAddr)

/-! ## The end of the body -/

/-- **The body ends where `MandatoryBodyLen` says**, whatever stands behind it,
and TLVs are found there. -/
structure Delimited (commandID : UInt32) (body : Bytes) : Prop where
  boundary : ∀ suffix, mandatoryBodyLen commandID (body ++ suffix) = some body.length
  /-- `ExtractTLVs` decodes what stands behind the body. -/
  extracted : ∀ status seq suffix, extractTLVs ⟨commandID, status, seq, body ++ suffix⟩ =
    (decodeTLVs suffix).map some
  /-- That is what `EncodePDU` attached. -/
  attached : ∀ pdu : WirePDU, pdu.commandID = commandID → pdu.body = body →
    pdu.size < 2 ^ 32 → ∀ d, encodePDU pdu = some d → ∃ r, decodePDU d = .ok r ∧
      extractTLVs r.toPDU = (decodeTLVs pdu.tlvBytes).map some ∧
      ∀ t, pdu.tlvs = some t → (∀ v ∈ t.values, v.length ≤ 65535) →
        extractTLVs r.toPDU = .ok (some t)

section Delimited

variable {commandID : UInt32} {body : Bytes}

theorem delimited_of_boundary
    (h : ∀ suffix, mandatoryBodyLen commandID (body ++ suffix) = some body.length) :
    Delimited commandID body where
  boundary := h
  extracted status seq suffix := extractTLVs_suffix (h suffix) status seq
  attached := by
    rintro pdu rfl rfl hsize d hd
    have hread := (decodePDU_encodePDU hsize hd).2
    have hextract : extractTLVs (received pdu).toPDU = (decodeTLVs pdu.tlvBytes).map some :=
      extractTLVs_suffix (h pdu.tlvBytes) pdu.commandStatus pdu.sequenceNumber
    refine ⟨_, hread, hextract, fun t ht hvalues => ?_⟩
    rw [hextract, WirePDU.tlvBytes, ht]
    exact congrArg (Except.map some) (decodeTLVs_encode hvalues)

/-- A body made of the fields of its layout. -/
theorem delimited_of_layout {fs : List Field} {parts : List Bytes} (hparts : Layout fs parts)
    (hwalk : mandatoryBodyLen commandID = fun b => walk b fs 0) (hbody : body = parts.flatten) :
    Delimited commandID body := by
  refine delimited_of_boundary fun suffix => ?_
  rw [hwalk, hbody]
  exact walk_eq_some_iff.mpr ⟨parts, suffix, hparts, rfl, rfl⟩

end Delimited

/-- **The encoders match the layout table.** -/
theorem encoded_delimited {commandID : UInt32} {body : Bytes} (h : Encoded commandID body) :
    Delimited commandID body := by
  have hnil : NulFree [] := List.not_mem_nil
  -- each encoder writes the fields of its layout one behind the other
  cases h with
  | bind mode version hsystem hpassword htype =>
    refine delimited_of_layout (.cString hsystem <| .cString hpassword <| .cString htype <|
      .octets [version, 0, 0] <| .cString hnil .nil) ?_ (by simp [encodeBind])
    cases mode <;> rfl
  | querySM sourceTON sourceNPI hid hsource =>
    exact delimited_of_layout (.cString hid <| .octets [sourceTON, sourceNPI] <|
      .cString hsource .nil) rfl (by simp [encodeQuerySM])
  | cancelSM sourceTON sourceNPI destTON destNPI hservice hid hsource hdest =>
    exact delimited_of_layout (.cString hservice <| .cString hid <| .octets [sourceTON, sourceNPI] <|
      .cString hsource <| .octets [destTON, destNPI] <| .cString hdest .nil) rfl
      (by simp [encodeCancelSM])
  | replaceSM sourceTON sourceNPI registeredDelivery _ smLength hid hsource hschedule hvalidity
      hlength =>
    exact delimited_of_layout (.cString hid <| .octets [sourceTON, sourceNPI] <|
      .cString hsource <| .cString hschedule <| .cString hvalidity <|
      .octets [registeredDelivery, 0] <| .shortMessage hlength .nil) rfl (by simp [encodeReplaceSM])
  | dataSM sourceTON sourceNPI destTON destNPI esmClass registeredDelivery dataCoding hservice
      hsource hdest =>
    exact delimited_of_layout (.cString hservice <| .octets [sourceTON, sourceNPI] <|
      .cString hsource <| .octets [destTON, destNPI] <| .cString hdest <|
      .octets [esmClass, registeredDelivery, dataCoding] .nil) rfl (by simp [encodeDataSM])
  | broadcastSM sourceTON sourceNPI priorityFlag replaceIfPresent dataCoding smDefaultMsgID
      hservice hsource hid hschedule hvalidity =>
    exact delimited_of_layout (.cString hservice <| .octets [sourceTON, sourceNPI] <|
      .cString hsource <| .cString hid <| .octets [priorityFlag] <| .cString hschedule <|
      .cString hvalidity <| .octets [replaceIfPresent, dataCoding, smDefaultMsgID] .nil) rfl
      (by simp [encodeBroadcastSM])
  | queryBroadcastSM sourceTON sourceNPI hid hsource =>
    exact delimited_of_layout (.cString hid <| .octets [sourceTON, sourceNPI] <|
      .cString hsource .nil) rfl (by simp [encodeQueryBroadcastSM])
  | cancelBroadcastSM sourceTON sourceNPI hservice hid hsource =>
    exact delimited_of_layout (.cString hservice <| .cString hid <| .octets [sourceTON, sourceNPI] <|
      .cString hsource .nil) rfl (by simp [encodeCancelBroadcastSM])

/-- A `query_sm`, with bytes behind it that are no TLV. -/
theorem query_sm_delimited :
    Encoded cmdQuerySM (encodeQuerySM [49] [50] 1 1) ∧
      mandatoryBodyLen cmdQuerySM (encodeQuerySM [49] [50] 1 1 ++ [0, 0, 7]) = some 6 :=
  have h : Encoded cmdQuerySM (encodeQuerySM [49] [50] 1 1) :=
    .querySM 1 1 (by decide) (by decide)
  ⟨h, (encoded_delimited h).boundary [0, 0, 7]⟩

/-! ## Counts in octets -/

/-- `DestAddress`. -/
structure DestAddress where
  /-- `0x01` is an SME address, `0x02` a distribution list. -/
  flag : UInt8
  ton : UInt8
  npi : UInt8
  address : Bytes
  deriving DecidableEq

/-- One turn of the loop over the destinations. -/
def encodeDest (d : DestAddress) : Bytes :=
  d.flag :: if d.flag = 0x02 then cString d.address else [d.ton, d.npi] ++ cString d.address

/-- `EncodeSubmitMulti`. -/
def encodeSubmitMulti (serviceType : Bytes) (sourceTON sourceNPI : UInt8) (sourceAddr : Bytes)
    (dests : List DestAddress) (esmClass protocolID priorityFlag : UInt8)
    (scheduleDeliveryTime validityPeriod : Bytes) (registeredDelivery dataCoding : UInt8)
    (shortMessage : Bytes) : Bytes :=
  cString serviceType ++ [sourceTON, sourceNPI] ++ cString sourceAddr ++
    [UInt8.ofNat dests.length] ++ dests.flatMap encodeDest ++
    [esmClass, protocolID, priorityFlag] ++ cString scheduleDeliveryTime ++
    cString validityPeriod ++ [registeredDelivery, 0x00, dataCoding, 0x00] ++
    [UInt8.ofNat shortMessage.length] ++ shortMessage

/-- `ReplaceSM`: the request it sends when the client is bound. -/
def replaceSM (messageID sourceAddr : Bytes) (sourceTON sourceNPI : UInt8)
    (scheduleDeliveryTime validityPeriod : Bytes) (registeredDelivery dataCoding : UInt8)
    (shortMessage : Bytes) : Request where
  method := .replaceSM
  body := encodeReplaceSM messageID sourceAddr sourceTON sourceNPI scheduleDeliveryTime
    validityPeriod registeredDelivery dataCoding (UInt8.ofNat shortMessage.length) shortMessage

/-- Behind these fields stands an octet with that value, and behind it `rest`. -/
def Announces (fs : List Field) (body : Bytes) (n : ℕ) (rest : Bytes) : Prop :=
  ∃ offset octet, walk body fs 0 = some offset ∧ body.drop offset = octet :: rest ∧
    octet.toNat = n

/-- The fields of a `submit_multi` in front of `number_of_dests`. -/
def submitMultiFront : List Field := [.cString, .octets 2, .cString]

/-- The fields of a destination. -/
def destFields (d : DestAddress) : List Field :=
  .octets 1 :: if d.flag = 0x02 then [.cString] else [.octets 2, .cString]

/-- The fields of a `submit_multi` behind its destinations, up to `sm_length`. -/
def submitMultiBack : List Field := [.octets 3, .cString, .cString, .octets 4]

/-- The fields of a `replace_sm` in front of `sm_length`. -/
def replaceSMFront : List Field :=
  [.cString, .octets 2, .cString, .cString, .cString, .octets 2]

/-- **The counts of a `submit_multi` are true**: `number_of_dests` of its
destinations, `sm_length` of the message that follows. -/
structure TruthfulMulti (dests : List DestAddress) (message body : Bytes) : Prop where
  numberOfDests : ∃ rest, Announces submitMultiFront body dests.length rest
  smLength : Announces
    (submitMultiFront ++ .octets 1 :: dests.flatMap destFields ++ submitMultiBack) body
    message.length message

/-- **The length in a `replace_sm` is true**, and the body ends behind the
message. -/
structure TruthfulReplace (message body : Bytes) : Prop where
  smLength : Announces replaceSMFront body message.length message
  boundary : mandatoryBodyLen cmdReplaceSM body = some body.length

/-- An octet holds numbers up to 255. -/
theorem toNat_ofNat_eq_iff (n : ℕ) : (UInt8.ofNat n).toNat = n ↔ n ≤ 255 := by
  rw [UInt8.toNat_ofNat']
  omega

/-- What stands behind the fields of a layout. -/
theorem announces_iff {fs : List Field} {parts : List Bytes} (hparts : Layout fs parts)
    {body : Bytes} {octet : UInt8} {rest : Bytes} (hbody : body = parts.flatten ++ octet :: rest)
    {n : ℕ} {rest' : Bytes} : Announces fs body n rest' ↔ octet.toNat = n ∧ rest = rest' := by
  subst hbody
  have hwalk : walk (parts.flatten ++ octet :: rest) fs 0 = some parts.flatten.length :=
    walk_eq_some_iff.mpr ⟨parts, octet :: rest, hparts, rfl, rfl⟩
  constructor
  · rintro ⟨offset, octet', hoffset, hdrop, rfl⟩
    obtain rfl := Option.some.inj (hwalk.symm.trans hoffset)
    rw [List.drop_left] at hdrop
    obtain ⟨rfl, rfl⟩ := List.cons.inj hdrop
    exact ⟨rfl, rfl⟩
  · rintro ⟨rfl, rfl⟩
    exact ⟨_, octet, hwalk, List.drop_left, rfl⟩

/-- A destination is made of its fields. -/
theorem exists_layout_dest {d : DestAddress} (hd : NulFree d.address) :
    ∃ parts, Layout (destFields d) parts ∧ parts.flatten = encodeDest d := by
  unfold destFields encodeDest
  split
  · exact ⟨_, .octets [d.flag] <| .cString hd .nil, by simp⟩
  · exact ⟨_, .octets [d.flag] <| .octets [d.ton, d.npi] <| .cString hd .nil, by simp⟩

/-- So are several. -/
theorem exists_layout_dests {dests : List DestAddress} (hdests : ∀ d ∈ dests, NulFree d.address) :
    ∃ parts, Layout (dests.flatMap destFields) parts ∧
      parts.flatten = dests.flatMap encodeDest := by
  induction dests with
  | nil => exact ⟨[], .nil, rfl⟩
  | cons d dests ih =>
    obtain ⟨first, hfirst, hflat⟩ := exists_layout_dest (hdests d List.mem_cons_self)
    obtain ⟨rest, hrest, hflat'⟩ := ih fun d' hd' => hdests d' (List.mem_cons_of_mem d hd')
    exact ⟨first ++ rest, hfirst.append hrest, by simp [hflat, hflat']⟩

section Counts

variable {serviceType messageID sourceAddr scheduleDeliveryTime validityPeriod : Bytes}
  {sourceTON sourceNPI esmClass protocolID priorityFlag registeredDelivery dataCoding : UInt8}
  {message body : Bytes}

theorem truthfulMulti_iff (hservice : NulFree serviceType) (hsource : NulFree sourceAddr)
    (hschedule : NulFree scheduleDeliveryTime) (hvalidity : NulFree validityPeriod)
    {dests : List DestAddress} (hdests : ∀ d ∈ dests, NulFree d.address)
    (hbody : body = encodeSubmitMulti serviceType sourceTON sourceNPI sourceAddr dests
      esmClass protocolID priorityFlag scheduleDeliveryTime validityPeriod registeredDelivery
      dataCoding message) :
    TruthfulMulti dests message body ↔ dests.length ≤ 255 ∧ message.length ≤ 255 := by
  obtain ⟨parts, hparts, hflat⟩ := exists_layout_dests hdests
  have hfront : Layout submitMultiFront _ :=
    .cString hservice <| .octets [sourceTON, sourceNPI] <| .cString hsource .nil
  have hback : Layout submitMultiBack _ :=
    .octets [esmClass, protocolID, priorityFlag] <| .cString hschedule <| .cString hvalidity <|
      .octets [registeredDelivery, 0, dataCoding, 0] .nil
  have hbefore := (hfront.append (.octets [UInt8.ofNat dests.length] hparts)).append hback
  -- what stands behind each of the two fronts is the length cut to an octet
  obtain ⟨rest, hcount⟩ : ∃ rest, ∀ n rest', Announces submitMultiFront body n rest' ↔
      (UInt8.ofNat dests.length).toNat = n ∧ rest = rest' :=
    ⟨_, fun _ _ => announces_iff hfront (by simp [hbody, encodeSubmitMulti]; rfl)⟩
  have hlength : ∀ n rest', Announces _ body n rest' ↔
      (UInt8.ofNat message.length).toNat = n ∧ message = rest' :=
    fun _ _ => announces_iff hbefore (by simp [hbody, encodeSubmitMulti, hflat])
  constructor
  · rintro ⟨⟨rest', hdests'⟩, hmessage⟩
    exact ⟨(toNat_ofNat_eq_iff _).mp ((hcount _ _).mp hdests').1,
      (toNat_ofNat_eq_iff _).mp ((hlength _ _).mp hmessage).1⟩
  · rintro ⟨hdests', hmessage⟩
    exact ⟨⟨rest, (hcount _ _).mpr ⟨(toNat_ofNat_eq_iff _).mpr hdests', rfl⟩⟩,
      (hlength _ _).mpr ⟨(toNat_ofNat_eq_iff _).mpr hmessage, rfl⟩⟩

theorem truthfulReplace_iff (hid : NulFree messageID) (hsource : NulFree sourceAddr)
    (hschedule : NulFree scheduleDeliveryTime) (hvalidity : NulFree validityPeriod)
    (hbody : body = (replaceSM messageID sourceAddr sourceTON sourceNPI scheduleDeliveryTime
      validityPeriod registeredDelivery dataCoding message).body) :
    TruthfulReplace message body ↔ message.length ≤ 255 := by
  have hfront : Layout replaceSMFront _ :=
    .cString hid <| .octets [sourceTON, sourceNPI] <| .cString hsource <| .cString hschedule <|
      .cString hvalidity <| .octets [registeredDelivery, 0] .nil
  have hlength : ∀ n rest', Announces _ body n rest' ↔
      (UInt8.ofNat message.length).toNat = n ∧ message = rest' :=
    fun _ _ => announces_iff hfront (by simp [hbody, replaceSM, encodeReplaceSM])
  constructor
  · intro h
    exact (toNat_ofNat_eq_iff _).mp ((hlength _ _).mp h.smLength).1
  · intro hle
    have hoctet := (toNat_ofNat_eq_iff _).mpr hle
    refine ⟨(hlength _ _).mpr ⟨hoctet, rfl⟩, ?_⟩
    have hparts := hfront.append (.shortMessage hoctet .nil)
    refine walk_eq_some_iff.mpr ⟨_, [], hparts, ?_, ?_⟩ <;>
      simp [hbody, replaceSM, encodeReplaceSM]

variable (sourceTON sourceNPI esmClass protocolID priorityFlag registeredDelivery dataCoding message)

/-- **The counts are true up to 255**, and cut to an octet from there on. -/
theorem counts_truthful_iff (hservice : NulFree serviceType) (hid : NulFree messageID)
    (hsource : NulFree sourceAddr) (hschedule : NulFree scheduleDeliveryTime)
    (hvalidity : NulFree validityPeriod) {dests : List DestAddress}
    (hdests : ∀ d ∈ dests, NulFree d.address) :
    (TruthfulMulti dests message (encodeSubmitMulti serviceType sourceTON sourceNPI sourceAddr dests
        esmClass protocolID priorityFlag scheduleDeliveryTime validityPeriod registeredDelivery
        dataCoding message) ↔ dests.length ≤ 255 ∧ message.length ≤ 255) ∧
    (TruthfulReplace message (replaceSM messageID sourceAddr sourceTON sourceNPI
        scheduleDeliveryTime validityPeriod registeredDelivery dataCoding message).body ↔
      message.length ≤ 255) :=
  ⟨truthfulMulti_iff hservice hsource hschedule hvalidity hdests rfl,
    truthfulReplace_iff hid hsource hschedule hvalidity rfl⟩

end Counts

/-- Two subscribers and a distribution list. -/
def threeDests : List DestAddress :=
  [⟨0x01, 1, 1, ascii "200"⟩, ⟨0x01, 1, 1, ascii "201"⟩, ⟨0x02, 0, 0, ascii "staff"⟩]

/-- Three destinations and five bytes, one of them NUL. -/
theorem three_counts_truthful :
    TruthfulMulti threeDests [104, 0, 108, 108, 111]
        (encodeSubmitMulti (ascii "CMT") 5 0 (ascii "100") threeDests 0 0 0 [] [] 1 0
          [104, 0, 108, 108, 111]) ∧
      TruthfulReplace [104, 0, 108, 108, 111]
        (replaceSM (ascii "m7") (ascii "100") 5 0 [] [] 1 0 [104, 0, 108, 108, 111]).body :=
  have hnil : NulFree [] := List.not_mem_nil
  have hservice : NulFree (ascii "CMT") := by decide
  have hid : NulFree (ascii "m7") := by decide
  have hsource : NulFree (ascii "100") := by decide
  have hdests : ∀ d ∈ threeDests, NulFree d.address := by decide
  have h := counts_truthful_iff 5 0 0 0 0 1 0 [104, 0, 108, 108, 111] hservice hid hsource hnil
    hnil hdests
  ⟨h.1.mpr (by decide), h.2.mpr (by decide)⟩

/-- 256 destinations are announced as none, and so are 256 bytes. -/
theorem counts_cut :
    ¬ TruthfulMulti (List.replicate 256 ⟨0x01, 1, 1, [50]⟩) [65] (encodeSubmitMulti [] 5 0 [49]
        (List.replicate 256 ⟨0x01, 1, 1, [50]⟩) 0 0 0 [] [] 1 0 [65]) ∧
      ¬ TruthfulReplace (List.replicate 256 65)
        (replaceSM [55] [49] 5 0 [] [] 1 0 (List.replicate 256 65)).body := by
  have hnil : NulFree [] := List.not_mem_nil
  constructor
  · intro h
    have hdests : ∀ d ∈ List.replicate 256 (⟨0x01, 1, 1, [50]⟩ : DestAddress), NulFree d.address :=
      fun d hd => by rw [List.eq_of_mem_replicate hd]; decide
    have hle := ((truthfulMulti_iff hnil (by decide) hnil hnil hdests rfl).mp h).1
    rw [List.length_replicate] at hle
    omega
  · intro h
    have hle := (truthfulReplace_iff (by decide) (by decide) hnil hnil rfl).mp h
    rw [List.length_replicate] at hle
    omega

end Client

end SmscGateway
