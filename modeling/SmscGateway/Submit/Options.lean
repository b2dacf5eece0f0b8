import SmscGateway.Smpp.Unpacked
import SmscGateway.Submit.Request

/-!
# The options of a REST request

A request may ask for a coding of its text and for no delivery receipt. Nothing
reads these options: whatever a request asks for, its message is sent with the
default coding, with the bytes of the text as they are and with a receipt
requested. That is what was asked for only in the few cases in which the bytes
of a text are its packed septets.
-/

namespace SmscGateway

open Smpp List

/-- The coding a request asks for: the field's comment names the three values
and the default. -/
def SMSSubmitRequest.askedCoding (m : SMSSubmitRequest) : Option UInt8 :=
  if m.encoding = ascii "gsm7" then some dataCodingDefault
  else if m.encoding = ascii "ucs2" then some dataCodingUCS2
  else if m.encoding = ascii "auto" ∨ m.encoding = [] then some (detectCoding m.body)
  else none

/-- The body is a `submit_sm` between the addresses of the request with the
coding, the message and the receipt it asks for, and the message is decoded to
the text of the request. -/
def AsAsked (m : SMSSubmitRequest) (coding : UInt8) (message rawBody : Bytes) : Prop :=
  ∃ sourceTON sourceNPI destTON destNPI esmClass protocolID registered,
    rawBody = encodeSubmitSM m.fromAddr sourceTON sourceNPI m.toAddr destTON destNPI esmClass
      protocolID coding registered message ∧
    (registered = 0 ↔ m.registeredDelivery = some false) ∧ decode message coding = .ok m.body

/-- The request asks for nothing but what is always done. -/
structure AsksForDefaults (m : SMSSubmitRequest) : Prop where
  encoding : m.encoding ≠ ascii "ucs2"
  body : m.body = [] ∨ ∃ b, m.body = [b] ∧ SameCode b
  registeredDelivery : m.registeredDelivery ≠ some false

/-! ## What a body was built from -/

/-- The end of a body determines the message. -/
theorem message_of_tail {message message' : Bytes}
    (h : (if message.length > 254 then
        [0, 0x04, 0x24, UInt8.ofNat (message.length / 256), UInt8.ofNat message.length] ++ message
      else UInt8.ofNat message.length :: message) =
      if message'.length > 254 then
        [0, 0x04, 0x24, UInt8.ofNat (message'.length / 256), UInt8.ofNat message'.length] ++ message'
      else UInt8.ofNat message'.length :: message') :
    message = message' := by
  -- a short message is empty if its length byte is zero
  have hempty : ∀ {l : Bytes}, ¬ l.length > 254 → UInt8.ofNat l.length = 0 → l = [] := by
    intro l hshort hzero
    have hnat := congrArg UInt8.toNat hzero
    rw [UInt8.toNat_ofNat', Nat.mod_eq_of_lt (by omega)] at hnat
    exact length_eq_zero_iff.mp hnat
  by_cases hlong : message.length > 254
  · by_cases hlong' : message'.length > 254
    · rw [if_pos hlong, if_pos hlong'] at h
      exact (append_inj h rfl).2
    · rw [if_pos hlong, if_neg hlong'] at h
      have hnil := hempty hlong' (cons.inj h).1.symm
      rw [hnil] at h
      simp at h
  · by_cases hlong' : message'.length > 254
    · rw [if_neg hlong, if_pos hlong'] at h
      have hnil := hempty hlong (cons.inj h).1
      rw [hnil] at h
      simp at h
    · rw [if_neg hlong, if_neg hlong'] at h
      exact (cons.inj h).2

/-- **Bodies between the same addresses are the same only if their fields
are.** -/
theorem encodeSubmitSM_inj {sourceAddr destAddr message message' : Bytes}
    {sourceTON sourceNPI destTON destNPI esmClass protocolID coding registered sourceTON' sourceNPI'
      destTON' destNPI' esmClass' protocolID' coding' registered' : UInt8}
    (h : encodeSubmitSM sourceAddr sourceTON sourceNPI destAddr destTON destNPI esmClass protocolID
        coding registered message =
      encodeSubmitSM sourceAddr sourceTON' sourceNPI' destAddr destTON' destNPI' esmClass'
        protocolID' coding' registered' message') :
    coding = coding' ∧ registered = registered' ∧ message = message' := by
  simp only [encodeSubmitSM, cString, append_assoc, cons_append, nil_append,
    cons.injEq, append_cancel_left_eq, true_and] at h
  obtain ⟨-, -, -, -, -, -, hregistered, hcoding, htail⟩ := h
  exact ⟨hcoding, hregistered, message_of_tail htail⟩

/-! ## Requests -/

theorem askedCoding_of_ne {m : SMSSubmitRequest} {coding : UInt8} (h : m.askedCoding = some coding)
    (hne : m.encoding ≠ ascii "ucs2") (hdetect : detectCoding m.body = dataCodingDefault) :
    coding = dataCodingDefault := by
  rw [SMSSubmitRequest.askedCoding, if_neg hne, hdetect] at h
  split at h
  · exact (Option.some.inj h).symm
  · split at h
    · exact (Option.some.inj h).symm
    · cases h

theorem askedCoding_ucs2 {m : SMSSubmitRequest} (h : m.encoding = ascii "ucs2") :
    m.askedCoding = some dataCodingUCS2 := by
  rw [SMSSubmitRequest.askedCoding, h, if_neg (by decide), if_pos rfl]

/-- **The options of a request are met just when it asks for what is always
done.** -/
theorem options_reach_the_smsc {cfg : RouterConfig} {handler : SubmitAction} {m : SMSSubmitRequest}
    {r : GatewayEffect} (h : AcceptedREST cfg handler m r) {coding : UInt8} {message : Bytes}
    (hcoding : m.askedCoding = some coding) (hmessage : encode m.body coding = .ok message) :
    (∃ task, offered r = [task] ∧ AsAsked m coding message task.rawBody) ↔ AsksForDefaults m := by
  obtain ⟨s, i, rest, ids, rfl⟩ := h.effect
  have htask := offered_acceptRESTMessage s i m rest ids
  have hbody : buildSubmitSMBody m.fromAddr m.toAddr m.body =
      encodeSubmitSM m.fromAddr 0 0 m.toAddr 1 1 0 0 0 1 m.body := smBody_eq_encodeSubmitSM ..
  constructor
  · rintro ⟨task, htask', sourceTON, sourceNPI, destTON, destNPI, esmClass, protocolID, registered,
      hraw, hregistered, -⟩
    rw [htask] at htask'
    obtain rfl := (List.cons.inj htask').1
    rw [hbody] at hraw
    obtain ⟨rfl, rfl, rfl⟩ := encodeSubmitSM_inj hraw
    refine ⟨?_, encode_default_eq_self_iff.mp hmessage, ?_⟩
    · intro hucs2
      rw [askedCoding_ucs2 hucs2] at hcoding
      exact absurd (Option.some.inj hcoding) (by decide)
    · intro hfalse
      exact absurd (hregistered.mpr hfalse) (by decide)
  · rintro ⟨hucs2, htext, hregistered⟩
    -- the text is in the default alphabet, and both its encodings are itself
    have hdetect : detectCoding m.body = dataCodingDefault ∧
        decode m.body dataCodingDefault = .ok m.body := by
      rcases htext with hnil | ⟨b, hb, hsame⟩
      · rw [hnil]
        decide +kernel
      · rw [hb]
        exact ⟨(encode_sameCode hsame).2.2, (encode_sameCode hsame).2.1⟩
    obtain rfl := askedCoding_of_ne hcoding hucs2 hdetect.1
    rw [encode_default_eq_self_iff.mpr htext] at hmessage
    obtain rfl := Except.ok.inj hmessage
    refine ⟨_, htask, 0, 0, 1, 1, 0, 0, 1, hbody, ?_, hdetect.2⟩
    exact ⟨fun h => absurd h (by decide), fun h => absurd h hregistered⟩

/-- A request whose text is one letter. -/
def letterRequest : SMSSubmitRequest := { plainRequest with body := ascii "A" }

/-- A single letter is sent as it should be. -/
theorem letter_is_sent_as_asked :
    ∃ task, offered (acceptRESTMessage Gateway.start {} letterRequest [] []) = [task] ∧
      AsAsked letterRequest dataCodingDefault (ascii "A") task.rawBody :=
  (options_reach_the_smsc (acceptedREST_start (by decide) (by decide)) (by decide +kernel)
    (by decide +kernel)).mpr ⟨by decide, Or.inr ⟨65, by decide, by decide +kernel⟩, by decide⟩

/-- The text "hi", whose septets are packed as E8 34, is sent as 68 69; a
request for UCS-2 is sent with the default coding; and a request without a
receipt asks for one. -/
theorem options_are_ignored :
    (encode plainRequest.body dataCodingDefault = .ok [0xE8, 0x34] ∧
      ∃ r task, AcceptedREST .loadConfig (.handleHTTPSubmit plainRequest) plainRequest r ∧
        offered r = [task] ∧
        shortMessageField task.rawBody = some (2, [0x68, 0x69]) ∧
        ¬ AsAsked plainRequest dataCodingDefault [0xE8, 0x34] task.rawBody) ∧
    (∃ r task, AcceptedREST .loadConfig
        (.handleHTTPSubmit { letterRequest with encoding := ascii "ucs2" })
        { letterRequest with encoding := ascii "ucs2" } r ∧ offered r = [task] ∧
      encode letterRequest.body dataCodingUCS2 = .ok [0, 65] ∧
      ¬ AsAsked { letterRequest with encoding := ascii "ucs2" } dataCodingUCS2 [0, 65]
        task.rawBody) ∧
    ∃ r task, AcceptedREST .loadConfig
        (.handleHTTPSubmit { letterRequest with registeredDelivery := some false })
        { letterRequest with registeredDelivery := some false } r ∧ offered r = [task] ∧
      ¬ AsAsked { letterRequest with registeredDelivery := some false } dataCodingDefault
        (ascii "A") task.rawBody := by
  -- the builder's coding, receipt and message are the only ones a body has
  have hbuilt : ∀ {m : SMSSubmitRequest} {coding : UInt8} {message : Bytes},
      AsAsked m coding message (buildSubmitSMBody m.fromAddr m.toAddr m.body) →
        coding = 0 ∧ message = m.body ∧ m.registeredDelivery ≠ some false := by
    rintro m coding message ⟨_, _, _, _, _, _, registered, hraw, hregistered, -⟩
    rw [buildSubmitSMBody, smBody_eq_encodeSubmitSM] at hraw
    obtain ⟨rfl, rfl, rfl⟩ := encodeSubmitSM_inj hraw
    exact ⟨rfl, rfl, fun h => absurd (hregistered.mpr h) (by decide)⟩
  refine ⟨⟨by decide +kernel, _, _, acceptedREST_start (by decide) (by decide),
    offered_acceptRESTMessage .., by decide, fun h => ?_⟩,
    ⟨_, _, acceptedREST_start (by decide) (by decide), offered_acceptRESTMessage ..,
      by decide +kernel, fun h => ?_⟩,
    _, _, acceptedREST_start (by decide) (by decide), offered_acceptRESTMessage .., fun h => ?_⟩
  · exact absurd (hbuilt h).2.1 (by decide)
  · exact absurd (hbuilt h).1 (by decide)
  · exact (hbuilt h).2.2 rfl

end SmscGateway
