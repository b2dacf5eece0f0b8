import SmscGateway.Submit.Dossier

/-!
# Where a message came from

The origin of a message is copied through five kinds of records. Every copy
is a claim: the message's id with the connection id the record gives for it.
What holds of the claims made at acceptance holds of all of them in every run
in which the sessions of the tasks taken are the right ones (`step_claims`).
-/

namespace SmscGateway

open List Dossier

/-! ## Claims -/

def SubmitRecord.claim (r : SubmitRecord) : Claim := (r.gwMsgID, r.northConnID)

def PendingSubmit.claim (p : PendingSubmit) : Claim := (p.gwMsgID, p.connID)

/-- The claims of the correlation tables, the submit records and the
submit-retry queue. -/
def Gateway.claims (s : Gateway) : List Claim :=
  s.gwCorrelation.values.map Correlation.claim ++
  s.smscCorrelation.values.map Correlation.claim ++
  s.store.submits.records.map SubmitRecord.claim ++
  s.store.submitRetries.values.map PendingSubmit.claim

variable {s : Gateway} {Q : Claim → Prop} {cfg : RouterConfig} {c : GatewayConf} {g : Bytes}
  {o : Origin}

theorem mem_claims {x : Claim} : x ∈ s.claims ↔
      (∃ v ∈ s.gwCorrelation.values, v.claim = x) ∨
      (∃ v ∈ s.smscCorrelation.values, v.claim = x) ∨
      (∃ v ∈ s.store.submits.records, v.claim = x) ∨
      (∃ v ∈ s.store.submitRetries.values, v.claim = x) := by
  simp only [Gateway.claims, mem_append, mem_map, or_assoc]

/-- What is known of the messages is a property of all claims. -/
def Dossier.claims (Q : Claim → Prop) : Dossier where
  parcel connID g _ _ _ := Q (g, connID)
  claim g connID _ := Q (g, connID)
  kept _ _ := True

theorem claims_lawful
    (hjson : ∀ g connID, Q (g, connID) → Q (jsonString g, jsonString connID)) :
    (claims Q).Lawful :=
  ⟨fun h => h, fun _ => trivial, fun _ => trivial, fun _ => trivial, fun h => hjson _ _ h,
    fun h => hjson _ _ h⟩

theorem claims_mono {Q' : Claim → Prop} (h : ∀ x, Q x → Q' x) :
    (claims Q).Le (claims Q') :=
  ⟨fun hx => h _ hx, fun hx => h _ hx, fun _ => trivial⟩

theorem Dossier.OnState.claims (h : (claims Q).OnState s) {x : Claim} (hx : x ∈ s.claims) :
    Q x := by
  rcases mem_claims.mp hx with ⟨v, hv, rfl⟩ | ⟨v, hv, rfl⟩ | ⟨v, hv, rfl⟩ | ⟨v, hv, rfl⟩
  · exact h.gw v hv
  · exact h.smsc v hv
  · exact h.submits v hv
  · exact h.submitRetries v hv

/-- A message is offered to the queue under the id it was just given, and with
the connection it was accepted from. -/
theorem offer_of_next {i : Input} {a : Action} {r : GatewayEffect} (h : exec cfg s i a = some r)
    {t : ForwardTask} {connID : Bytes} (hb : .submit (.offer t connID) ∈ r.next) :
    t.gwMsgID = gwMsgIDOf (s.msgSeq + 1) ∧ r.state.msgSeq = s.msgSeq + 1 ∧
      ∃ o : Origin, .message t.gwMsgID (.accepted o) ∈ r.seen ∧ o.connID = connID := by
  obtain ⟨a, rfl, hcont⟩ := submit_of_next h hb
  cases hcont with
  | submitted connID seqNum body m hm =>
    simp only [exec, execSubmit, hm] at h
    cases h
    exact ⟨rfl, rfl, .smpp connID, mem_cons_self, rfl⟩
  | requested m rest ids =>
    cases h
    exact ⟨rfl, rfl, .rest, mem_cons_self, rfl⟩

/-- **Where claims come from.** A property that JSON keeps, that every
acceptance has and that every session a worker reads an origin from has, is a
property of all claims. -/
theorem step_claims {c' : GatewayConf} {e : Event Input Action}
    (h : (gateway cfg).step c e = some c') (hc : (claims Q).OnRun c)
    (hjson : ∀ g connID, Q (g, connID) → Q (jsonString g, jsonString connID))
    (haccept : ∀ g o, .message g (.accepted o) ∈ c'.trace → Q (g, o.connID))
    (hworker : ∀ i input, e = .run i input → c.head i = some (.submit .forwardWorker) →
      ∀ t ∈ c.shared.forwardCh.head?, Q (t.gwMsgID, c.shared.server.idOf t.conn)) :
    (claims Q).OnRun c' := by
  have hnew : ∀ j i a r, e = .run j i → c.head j = some a → exec cfg c.shared i a = some r →
      ∀ t connID, .submit (.offer t connID) ∈ r.next → Q (t.gwMsgID, connID) := by
    rintro j i a r rfl hhead hexec t connID hmem
    obtain ⟨-, -, o, ho, rfl⟩ := offer_of_next hexec hmem
    obtain ⟨rest, hthread⟩ := Conf.head_eq_some_iff.mp hhead
    obtain ⟨r', hexec', -, -, htr⟩ := Program.step_run_cases hthread h
    obtain rfl := Option.some.inj (hexec.symm.trans hexec')
    exact haccept _ o (htr ▸ mem_append_right _ ho)
  obtain ⟨hon, hseen⟩ := hc.step (claims_lawful hjson) h hnew
    fun j i he hhead t ht _ => hworker j i he hhead t ht
  exact ⟨hon, fun o ho => (hseen o ho).elim (hc.trace o) id⟩

/-! ## Acceptance -/

/-- A message is accepted from an engine or by REST. -/
theorem exec_accepts {i : Input} {a : Action} {r : GatewayEffect} (h : exec cfg s i a = some r)
    (ho : .message g (.accepted o) ∈ r.seen) :
    (∃ connID seqNum body, a = .submit (.handleSubmit connID seqNum body) ∧ o = .smpp connID) ∨
      o = .rest := by
  have hw := exec_writes h ho
  unfold Action.Writes at hw
  split at hw
  · exact Or.inl ⟨_, _, _, rfl, Label.accepted.inj hw⟩
  · exact Or.inr (Label.accepted.inj hw)
  · simp [Label.afterFailure] at hw
  · cases hw
  · simp [Label.afterFailure] at hw
  · cases hw.2
  · cases hw
  · simp [Label.afterFailure] at hw
  · cases hw

/-- The word of a message holds one acceptance. -/
theorem accepted_of_traced {w : List Label} {φ : Pipeline.Phase}
    (h : (Pipeline.rules cfg).Traced w φ) : ∃ o, ∀ o', .accepted o' ∈ w → o' = o := by
  induction h with
  | enter he =>
    obtain ⟨⟨o, rfl⟩, -⟩ := he
    exact ⟨o, fun o' ho' => Label.accepted.inj (mem_singleton.mp ho')⟩
  | next _ hl ih =>
    obtain ⟨o, ho⟩ := ih
    refine ⟨o, fun o' ho' => ?_⟩
    rcases mem_append.mp ho' with h | h
    · exact ho o' h
    · rw [← mem_singleton.mp h] at hl
      cases hl

/-- **A message has one origin.** -/
theorem accepted_unique (hc : Pipeline.Inv cfg c) {o' : Origin}
    (ho : .message g (.accepted o) ∈ c.trace) (ho' : .message g (.accepted o') ∈ c.trace) :
    o = o' := by
  have hlog : (g, Label.accepted o) ∈ (Pipeline.track c).log :=
    mem_filterMap.mpr ⟨_, ho, rfl⟩
  have hlog' : (g, Label.accepted o') ∈ (Pipeline.track c).log :=
    mem_filterMap.mpr ⟨_, ho', rfl⟩
  obtain ⟨φ, hφ⟩ := hc.faithful.exists_of_mem_log hlog
  obtain ⟨o₀, h₀⟩ := accepted_of_traced (hc.faithful.traced g φ hφ)
  rw [h₀ o (mem_wordOf.mpr hlog), h₀ o' (mem_wordOf.mpr hlog')]

/-! ## Origin preservation -/

/-- Every record of a message names the message's origin, and receipts take
the REST branch for REST messages only. -/
structure OriginPreserved (c : GatewayConf) : Prop where
  records : ∀ g o connID, .message g (.accepted o) ∈ c.trace → (g, connID) ∈ c.shared.claims →
    connID = o.connID
  rest : ∀ n corr o, .matched n (.rest corr) ∈ c.trace →
    .message corr.gwMsgID (.accepted o) ∈ c.trace → o = .rest
  smpp : ∀ n corr k o, .matched n (.smpp corr k) ∈ c.trace →
    .message corr.gwMsgID (.accepted o) ∈ c.trace → o = .smpp corr.northConnID
  synthetic : ∀ g connID o, .message g (.synthetic connID) ∈ c.trace →
    .message g (.accepted o) ∈ c.trace → connID = o.connID ∧ (connID = restApi ↔ o = .rest)

/-- The origin under which a message was accepted. -/
def originOf (trace : List Obs) (gwMsgID : Bytes) : Option Origin :=
  trace.findSome? fun
    | .message g (.accepted o) => if g = gwMsgID then some o else none
    | _ => none

/-- The engine whose submit an action handles. -/
def Action.engine : Action → Option Bytes
  | .submit (.handleSubmit connID _ _) => some connID
  | _ => none

/-- What the actions of a run have to respect: an engine's id is valid UTF-8
and not the marker of REST messages, and the session a worker reads the
connection id from has the id the message was submitted under. -/
def KeepsOrigin (c : GatewayConf) (_ : Input) (a : Action) : Prop :=
  (∀ connID ∈ a.engine, ValidUtf8 connID ∧ connID ≠ restApi) ∧
  (a = .submit .forwardWorker → ∀ t ∈ c.shared.forwardCh.head?,
    (originOf c.trace t.gwMsgID).map Origin.connID = some (c.shared.server.idOf t.conn))
  deriving Decidable

/-- An origin that its connection id stands for, in JSON as well. -/
def Origin.Plain (o : Origin) : Prop :=
  jsonString o.connID = o.connID ∧ (o.connID = restApi ↔ o = .rest)

theorem plain_rest : Origin.rest.Plain := ⟨by decide, by simp [Origin.connID]⟩

theorem mem_of_originOf {trace : List Obs} (h : originOf trace g = some o) :
    .message g (.accepted o) ∈ trace := by
  obtain ⟨x, hx, hxo⟩ := exists_of_findSome?_eq_some h
  split at hxo
  · obtain ⟨hg, rfl⟩ := eq_of_guard hxo
    exact hg ▸ hx
  · cases hxo

/-- What holds in every run that keeps origins. -/
structure OriginInv (c : GatewayConf) : Prop where
  plain : ∀ g o, .message g (.accepted o) ∈ c.trace → o.Plain
  claims : (Dossier.claims fun x =>
    ∃ o, .message x.1 (.accepted o) ∈ c.trace ∧ x.2 = o.connID).OnRun c

/-- An acceptance in a run that keeps origins is of a plain origin. -/
theorem plain_of_accepts {c' : GatewayConf} {e : Event Input Action}
    (hplain : ∀ g o, .message g (.accepted o) ∈ c.trace → o.Plain)
    (hok : Program.When KeepsOrigin c e) (hs : (gateway cfg).step c e = some c')
    (ho : .message g (.accepted o) ∈ c'.trace) : o.Plain := by
  rcases Program.mem_trace_of_step hs ho with ho | ⟨j, input, a, r, rest, rfl, hran, ho⟩
  · exact hplain g o ho
  · rcases exec_accepts hran.exec ho with ⟨connID, seqNum, body, rfl, rfl⟩ | rfl
    · obtain ⟨hv, hr⟩ := (hok _ hran.head).1 connID rfl
      exact ⟨jsonString_of_valid hv, by simpa [Origin.connID] using hr⟩
    · exact plain_rest

/-- **Claims are true in every run that keeps origins.** -/
theorem reaches_originInv
    (h : (gateway cfg).Reaches (Program.When KeepsOrigin) GatewayConf.start c) :
    OriginInv c := by
  induction h with
  | start => exact ⟨fun _ _ h => absurd h not_mem_nil, onRun_start⟩
  | @step c c' e hr hok hs ih =>
    have hinv := Pipeline.reaches_inv (hr.step hok hs)
    have hgrows := (Program.trace_of_step hs).subset
    have hplain : ∀ g o, .message g (.accepted o) ∈ c'.trace → o.Plain := fun g o ho =>
      plain_of_accepts ih.plain hok hs ho
    have hold : (claims fun x =>
        ∃ o, .message x.1 (.accepted o) ∈ c'.trace ∧ x.2 = o.connID).OnRun c :=
      ih.claims.mono (claims_mono fun x ⟨o, ho, hx⟩ => ⟨o, hgrows ho, hx⟩)
    refine ⟨hplain, step_claims hs hold ?_ (fun g o ho => ⟨o, ho, rfl⟩) ?_⟩
    · -- neither the id nor the origin of a message changes in JSON
      rintro g connID ⟨o, ho, rfl⟩
      obtain ⟨n, rfl⟩ := hinv.gwMsgID ho
      simp only [jsonString_gwMsgIDOf, (hplain _ o ho).1]
      exact ⟨o, ho, rfl⟩
    · rintro i input rfl hhead t ht
      obtain ⟨o, ho, hid⟩ := Option.map_eq_some_iff.mp ((hok _ hhead).2 rfl t ht)
      exact ⟨o, hgrows (mem_of_originOf ho), hid.symm⟩

/-- **Origin preservation.** In every run whose workers read the connection
id from a session that still has the message's origin for its id, and whose
engines have ids that are valid UTF-8 and not `rest-api`, every record of a
message carries the message's origin, and receipts and synthetic failures take
the REST branch exactly for messages that came in by REST. -/
theorem origin_preserved (cfg : RouterConfig) {c : GatewayConf}
    (h : (gateway cfg).Reaches (Program.When KeepsOrigin) GatewayConf.start c) :
    OriginPreserved c := by
  have hpipe := Pipeline.reaches_inv h
  have hinv := reaches_originInv h
  refine ⟨?_, ?_, ?_, ?_⟩
  · intro g o connID ho hx
    obtain ⟨o', ho', hid⟩ := hinv.claims.state.claims hx
    rw [accepted_unique hpipe ho ho']
    exact hid
  · intro n corr o hm ho
    obtain ⟨-, o', ho', hid⟩ := hinv.claims.trace _ hm _ (mem_singleton_self _)
    obtain rfl := accepted_unique hpipe ho ho'
    have hrest : corr.northConnID = restApi := reaches_branched h hm
    exact (hinv.plain _ o ho).2.mp (hid.symm.trans hrest)
  · intro n corr k o hm ho
    obtain ⟨-, o', ho', hid⟩ := hinv.claims.trace _ hm _ (mem_singleton_self _)
    obtain rfl := accepted_unique hpipe ho ho'
    have hrest : corr.northConnID ≠ restApi := reaches_branched h hm
    cases o with
    | rest => exact absurd hid hrest
    | smpp connID => exact congrArg Origin.smpp hid.symm
  · intro g connID o hm ho
    obtain ⟨-, o', ho', hid⟩ := hinv.claims.trace _ hm _ (mem_singleton_self _)
    obtain rfl := accepted_unique hpipe ho ho'
    have hplain := (hinv.plain g o ho).2
    rw [← hid] at hplain
    exact ⟨hid, hplain⟩

/-- An engine's message is forwarded over the session it came in on. -/
theorem forwarded_originPreserved :
    ∃ c, (gateway .loadConfig).Reaches (Program.When KeepsOrigin) GatewayConf.start c ∧
      (gwMsgIDOf 1, engineID) ∈ c.shared.smscCorrelation.values.map Correlation.claim ∧
      OriginPreserved c := by
  exact Program.exists_reached (engineSubmits ++ goroutine 3 (.submit .forwardWorker) [{},
    { attempt := .accepted 0 (ascii "s1") }, {}, {}]) (by decide) fun hreach => ⟨by decide,
    origin_preserved _ hreach⟩

/-- A REST message whose first attempt fails waits in the retry queue as if
it came from an engine with an empty connection id. -/
theorem restRetry_loses_origin :
    ∃ c, (gateway .loadConfig).Reaches Program.Anything GatewayConf.start c ∧
      .message (gwMsgIDOf 1) (.accepted .rest) ∈ c.trace ∧
      c.shared.store.submitRetries.values.map PendingSubmit.claim = [(gwMsgIDOf 1, [])] ∧
      ¬ OriginPreserved c := by
  refine Program.exists_reached (restSubmits ++ goroutine 1 (.submit .forwardWorker) [{}, {}]) (by
    decide) fun _ => ⟨by decide, by decide, fun hpres => ?_⟩
  have hid := hpres.records (gwMsgIDOf 1) .rest [] (by decide) (by decide)
  exact absurd hid (by decide)

end SmscGateway
