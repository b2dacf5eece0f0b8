import SmscGateway.Gateway.Step
import SmscGateway.Smpp.Bodies

/-!
# A REST request on the wire

The strings of a REST request go from the JSON into `BuildSubmitSMBody` as they
are. A body made of them is read as the request meant it as long as they fit
the fields they are put in: an address ends at its first NUL, and the length of
a `message_payload` has sixteen bits. Where one does not fit, its bytes are read
as other fields, while the records and the routing still have the address of
the request.
-/

namespace SmscGateway

open Smpp List

/-! ## Accepted messages -/

/-- The message is one of a request that the handler passes on, and `r` is what
happens when it is accepted. Other goroutines may run in between, so each of
the two steps has its own state. -/
structure AcceptedREST (cfg : RouterConfig) (handler : SubmitAction) (m : SMSSubmitRequest)
    (r : GatewayEffect) : Prop where
  handled : ∃ s i r₀ messages, exec cfg s i (.submit handler) = some r₀ ∧
    .submit (.acceptREST messages []) ∈ r₀.next ∧ m ∈ messages
  accepted : ∃ s i rest ids, exec cfg s i (.submit (.acceptREST (m :: rest) ids)) = some r

/-- The messages offered to the forward queue. -/
def offered (r : GatewayEffect) : List ForwardTask :=
  r.next.filterMap fun
    | .submit (.offer task _) => some task
    | _ => none

section Accepted

variable {cfg : RouterConfig} {handler : SubmitAction} {req m : SMSSubmitRequest}
  {r : GatewayEffect}

theorem AcceptedREST.effect (h : AcceptedREST cfg handler m r) :
    ∃ s i rest ids, r = acceptRESTMessage s i m rest ids := by
  obtain ⟨s, i, rest, ids, hr⟩ := h.accepted
  exact ⟨s, i, rest, ids, (Option.some.inj hr).symm⟩

/-- `HandleHTTPSubmit` wants a destination and a text. -/
theorem AcceptedREST.ne_nil (h : AcceptedREST cfg (.handleHTTPSubmit req) m r) :
    m = req ∧ req.toAddr ≠ [] ∧ req.body ≠ [] := by
  obtain ⟨s, i, r₀, messages, hr₀, hmem, hm⟩ := h.handled
  simp only [exec, execSubmit] at hr₀
  split at hr₀
  · cases hr₀
    cases hmem
  · rename_i hne
    cases hr₀
    obtain ⟨rfl, -⟩ : messages = [req] ∧ True := by simpa using hmem
    exact ⟨mem_singleton.mp hm, not_or.mp hne⟩

theorem offered_acceptRESTMessage (s : Gateway) (i : Input) (m : SMSSubmitRequest)
    (rest : List SMSSubmitRequest) (ids : List Bytes) :
    offered (acceptRESTMessage s i m rest ids) =
      [⟨none, gwMsgIDOf (s.msgSeq + 1), m.toAddr, m.fromAddr,
        buildSubmitSMBody m.fromAddr m.toAddr m.body⟩] := by
  simp only [offered, acceptRESTMessage]
  split <;> rfl

end Accepted

/-! ## The body -/

/-- A `submit_sm` body from and to these addresses with this message: the
readers find them, and find in every other field what `BuildSubmitSMBody`
always writes there. -/
structure CarriesOnly (fromAddr toAddr message rawBody : Bytes) : Prop where
  wellFormed : ∃ n t, mandatoryBodyLen cmdSubmitSM rawBody = some n ∧
    decodeTLVs (rawBody.drop n) = .ok t ∧ carriedMessage rawBody t = some message ∧
    ∀ tag ≠ tagMessagePayload, t.find? tag = none
  addresses : parseSubmitSMAddresses rawBody = (fromAddr, toAddr)
  options : ∃ m : SMBody, rawBody = m.encode ∧
    m.options = [[], [0, 0], [1, 1], [0, 0, 0], [], [], [1, 0, 0, 0]]

/-- The strings fit the fields they are put in. -/
structure FitsFields (fromAddr toAddr message : Bytes) : Prop where
  fromAddr : NulFree fromAddr
  toAddr : NulFree toAddr
  message : message.length ≤ 65535

section Body

variable {fromAddr toAddr message : Bytes}

theorem CarriesOnly.fits {rawBody : Bytes} (h : CarriesOnly fromAddr toAddr message rawBody) :
    FitsFields fromAddr toAddr message := by
  obtain ⟨n, t, -, ht, hmessage, -⟩ := h.wellFormed
  have hnul := nulFree_parseSubmitSMAddresses rawBody
  rw [h.addresses] at hnul
  exact ⟨hnul.1, hnul.2, length_carriedMessage_le ht hmessage⟩

/-- The builder's body, read field by field. -/
theorem carriesOnly_of_fits (h : FitsFields fromAddr toAddr message) (hne : message ≠ []) :
    CarriesOnly fromAddr toAddr message (buildSubmitSMBody fromAddr toAddr message) := by
  let m := built h.fromAddr h.toAddr 0 0 1 1 0 0 0 1 message
  have hbody : buildSubmitSMBody fromAddr toAddr message = m.encode := by
    rw [buildSubmitSMBody, smBody_eq_encodeSubmitSM, encodeSubmitSM_eq h.fromAddr h.toAddr]
  rw [hbody]
  have hlen : mandatoryBodyLen cmdSubmitSM m.encode =
      some (m.encode.length - m.optional.length) := by
    rw [mandatoryBodyLen_submitDeliverSM (by decide), m.mandatoryLen_encode]
  refine ⟨?_, m.parseSubmitSMAddresses_encode, m, rfl, rfl⟩
  by_cases hlong : message.length > 254
  · -- the short message is empty, and the message is the only TLV
    have hoptional : m.optional = encodeTLV (tagMessagePayload, message) := if_pos hlong
    have hzero : m.smLength = 0 := if_pos hlong
    refine ⟨_, SortedMap.empty.insert tagMessagePayload message, hlen, ?_, ?_, ?_⟩
    · rw [m.drop_encode, hoptional, decodeTLVs_encodeTLV h.message]
    · rw [carriedMessage, shortMessageField_encode, Option.bind_some, hzero]
      simp
    · intro tag htag
      simp [htag]
  · -- the message is the short message, and nothing stands behind it
    have hoptional : m.optional = [] := if_neg hlong
    have hshort : m.shortMessage = message := if_neg hlong
    have hpos : 0 < message.length := length_pos_iff.mpr hne
    have hzero : m.smLength ≠ 0 := by
      intro h0
      have hlength := m.length_shortMessage
      rw [h0, hshort] at hlength
      exact absurd hlength (by simpa using hne)
    refine ⟨_, .empty, hlen, ?_, ?_, fun _ _ => rfl⟩
    · rw [m.drop_encode, hoptional]
      rfl
    · rw [carriedMessage, shortMessageField_encode, Option.bind_some, hshort]
      exact if_neg hzero

end Body

/-! ## The records -/

/-- The addresses in the correlation, the submit record, the status and the
task of a message. -/
structure RecordsAddresses (fromAddr toAddr : Bytes) (task : ForwardTask) (r : GatewayEffect) :
    Prop where
  correlation : ∃ corr, r.state.gwCorrelation.find? task.gwMsgID = some corr ∧ corr.msisdn = toAddr
  submit : ∃ record, .record (.storeSubmit record) ∈ r.next ∧ record.gwMsgID = task.gwMsgID ∧
    record.msisdn = toAddr ∧ record.sourceAddr = fromAddr ∧ record.payload = task.rawBody
  status : ∃ st, .record (.setMessageStatus st) ∈ r.next ∧ st.gwMsgID = task.gwMsgID ∧
    st.toAddr = toAddr ∧ st.fromAddr = fromAddr
  destAddr : task.destAddr = toAddr
  sourceAddr : task.sourceAddr = fromAddr

theorem recordsAddresses_acceptRESTMessage (s : Gateway) (i : Input) (m : SMSSubmitRequest)
    (rest : List SMSSubmitRequest) (ids : List Bytes) {task : ForwardTask}
    (htask : offered (acceptRESTMessage s i m rest ids) = [task]) :
    RecordsAddresses m.fromAddr m.toAddr task (acceptRESTMessage s i m rest ids) := by
  rw [offered_acceptRESTMessage] at htask
  obtain rfl := (cons.inj htask).1
  have hcorr : (acceptRESTMessage s i m rest ids).state.gwCorrelation.find?
      (gwMsgIDOf (s.msgSeq + 1)) = some ⟨gwMsgIDOf (s.msgSeq + 1), restApi, m.toAddr, i.now⟩ := by
    simp [acceptRESTMessage]
  exact ⟨⟨_, hcorr, rfl⟩, ⟨_, mem_cons_self, rfl, rfl, rfl, rfl⟩,
    ⟨_, mem_cons_of_mem _ mem_cons_self, rfl, rfl, rfl⟩, rfl, rfl⟩

/-! ## Requests -/

/-- One message is offered for the request, with the body the request asks for
and under the addresses of the request. -/
def OwnFields (req : SMSSubmitRequest) (r : GatewayEffect) : Prop :=
  ∃ task, offered r = [task] ∧ CarriesOnly req.fromAddr req.toAddr req.body task.rawBody ∧
    RecordsAddresses req.fromAddr req.toAddr task r

/-- **A request controls its own fields only, just when its strings fit
them.** -/
theorem request_controls_own_fields {cfg : RouterConfig} {req : SMSSubmitRequest}
    {r : GatewayEffect} (h : AcceptedREST cfg (.handleHTTPSubmit req) req r) :
    OwnFields req r ↔ FitsFields req.fromAddr req.toAddr req.body := by
  obtain ⟨-, -, hbody⟩ := h.ne_nil
  obtain ⟨s, i, rest, ids, rfl⟩ := h.effect
  have htask := offered_acceptRESTMessage s i req rest ids
  constructor
  · rintro ⟨task, -, hcarries, -⟩
    exact hcarries.fits
  · intro hfits
    exact ⟨_, htask, carriesOnly_of_fits hfits hbody,
      recordsAddresses_acceptRESTMessage s i req rest ids htask⟩

/-- A request whose strings fit. -/
def plainRequest : SMSSubmitRequest :=
  { toAddr := ascii "200", fromAddr := ascii "100", body := ascii "hi" }

/-- What happens to a request that a fresh gateway gets. -/
theorem acceptedREST_start {req : SMSSubmitRequest} (hto : req.toAddr ≠ []) (hbody : req.body ≠ []) :
    AcceptedREST .loadConfig (.handleHTTPSubmit req) req
      (acceptRESTMessage Gateway.start {} req [] []) := by
  have hok : ¬ (req.toAddr = [] ∨ req.body = []) := not_or.mpr ⟨hto, hbody⟩
  refine ⟨⟨Gateway.start, {}, _, [req], if_neg hok, ?_, mem_singleton_self req⟩,
    Gateway.start, {}, [], [], rfl⟩
  exact mem_singleton_self _

/-- A plain request has the fields it asks for. -/
theorem plain_request_controls_own_fields :
    OwnFields plainRequest (acceptRESTMessage Gateway.start {} plainRequest [] []) :=
  (request_controls_own_fields (acceptedREST_start (by decide) (by decide))).mpr
    ⟨by decide, by decide, by decide⟩

/-- A sender with two NULs, which brings a destination of its own. -/
def redirectingRequest : SMSSubmitRequest :=
  { plainRequest with fromAddr := [49, 0, 1, 1, 57, 0] }

/-- A text of 65536 bytes. -/
def longRequest : SMSSubmitRequest :=
  { plainRequest with body := List.replicate 65536 65 }

/-- The redirecting request is recorded and routed for 200, and its body is a
message from 1 to 9; the text of the long one does not fit. -/
theorem request_redirects_its_message :
    (∃ r task, AcceptedREST .loadConfig (.handleHTTPSubmit redirectingRequest) redirectingRequest r ∧
      offered r = [task] ∧ task.destAddr = ascii "200" ∧
      parseSubmitSMAddresses task.rawBody = (ascii "1", ascii "9") ∧
      ¬ OwnFields redirectingRequest r) ∧
    ∃ r, AcceptedREST .loadConfig (.handleHTTPSubmit longRequest) longRequest r ∧
      ¬ OwnFields longRequest r := by
  have hlen : longRequest.body.length = 65536 := List.length_replicate
  have hbody : longRequest.body ≠ [] := List.ne_nil_of_length_pos (by omega)
  refine ⟨⟨_, _, acceptedREST_start (by decide) (by decide), offered_acceptRESTMessage .., rfl,
    by decide, ?_⟩, _, acceptedREST_start (by decide) hbody, ?_⟩
  · rintro ⟨task, -, hcarries, -⟩
    exact absurd hcarries.fits.fromAddr (by decide)
  · rintro ⟨task, -, hcarries, -⟩
    have hle := hcarries.fits.message
    omega

end SmscGateway
