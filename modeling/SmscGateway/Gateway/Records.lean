import SmscGateway.Gateway.Frame

/-!
# What is recorded of a message

The status record and the log entry of a message are rewritten as a whole by
every write, and its submit record is stored anew when the SMSC id is known.
`exec_recorded` says what the two tables are after an action, and
`record_of_next` where an action comes from that is about to write one of the
three: the message was just accepted, the SMSC took it, or the gateway gave
up on it.
-/

namespace SmscGateway

open List

/-- The status record `handleDLR` writes. -/
def receiptStatus (i : Input) (r : Receipt) (corr : Correlation) : MessageStatus :=
  { gwMsgID := corr.gwMsgID, toAddr := corr.msisdn, status := .delivered,
    dlrStatus := r.parsed.status, updatedAt := i.now }

/-- The status records after an action. -/
def statusAfter (cfg : RouterConfig) (i : Input) (m : SortedMap Bytes MessageStatus) :
    Action → SortedMap Bytes MessageStatus
  | .record (.setMessageStatus st) => m.insert st.gwMsgID { st.json with updatedAt := i.now }
  | .record .cleanup => m.filter fun _ st => (i.now - cfg.messageTTL : ℤ) ≤ st.updatedAt
  | .back (.settle r corr .setMessageStatus) => m.insert corr.gwMsgID (receiptStatus i r corr).json
  | _ => m

/-- The message log after an action. -/
def logAfter (cfg : RouterConfig) (i : Input) (m : SortedMap Bytes MessageLogEntry) :
    Action → SortedMap Bytes MessageLogEntry
  | .record (.logMessage e) =>
    m.insert e.gwMsgID { e.json with createdAt := i.now, updatedAt := i.now }
  | .record (.writeLog gwMsgID e) => m.insert gwMsgID e.json
  | .record .cleanup => m.filter fun _ e => (i.now - cfg.messageTTL : ℤ) ≤ e.updatedAt
  | .back (.settle _ corr (.writeLog e)) => m.insert corr.gwMsgID e.json
  | _ => m

@[simp] theorem MessageStatus.json_status (st : MessageStatus) : st.json.status = st.status := rfl

@[simp] theorem MessageLogEntry.json_status (e : MessageLogEntry) : e.json.status = e.status := rfl

/-- Does the action write a status record, a log entry or a submit record, or
prepare to? -/
def RecordAction.tells : RecordAction → Bool
  | .storeSubmit _ | .setMessageStatus _ | .logMessage _ | .updateMessageLog .. | .writeLog .. =>
    true
  | _ => false

/-- Does this state come before the outcome of a message? -/
def MessageState.early : MessageState → Bool
  | .accepted | .forwarded => true
  | _ => false

/-- The action is not about to tell anything of a message, unless it is
`handleDLR` writing an outcome to the log. -/
def Action.late : Action → Bool
  | .record b => !b.tells
  | .back (.settle _ _ (.writeLog e)) => !e.status.early
  | _ => true

/-- The SMSC took the message: the worker goes on with its correlation, or the
drain pass has just succeeded. -/
def Forwards (i : Input) (a : Action) (f : Forward) (smscMsgID : Bytes) : Prop :=
  a = .submit (.getCorrelation f smscMsgID) ∨
    ∃ p pool, a = .submit (.retrySubmit p) ∧ i.attempt = .accepted pool smscMsgID ∧
      f = ⟨p.connID, p.gwMsgID, p.msisdn, p.sourceAddr, p.rawBody⟩

/-- The gateway may give up on the message with this action. -/
def GivesUp (a : Action) (connID gwMsgID destAddr sourceAddr : Bytes) : Prop :=
  (∃ task, a = .submit (.offer task connID) ∧ task.gwMsgID = gwMsgID ∧
    task.destAddr = destAddr ∧ task.sourceAddr = sourceAddr) ∨
  (∃ f, a = .submit (.forwardSubmitRaw f) ∧ f.connID = connID ∧ f.gwMsgID = gwMsgID ∧
    f.destAddr = destAddr ∧ f.sourceAddr = sourceAddr) ∨
  ∃ p, a = .submit (.retrySubmit p) ∧ p.connID = connID ∧ p.gwMsgID = gwMsgID ∧
    p.msisdn = destAddr ∧ p.sourceAddr = sourceAddr

section Exec

variable {cfg : RouterConfig} {s : Gateway} {i : Input} {r : GatewayEffect}

/-! ## The two tables -/

/-- What the two tables are after an action. -/
structure Recorded (cfg : RouterConfig) (s : Gateway) (i : Input) (a : Action)
    (r : GatewayEffect) : Prop where
  status : r.state.store.status = statusAfter cfg i s.store.status a
  log : r.state.store.log = logAfter cfg i s.store.log a

theorem execRecord_recorded {a : RecordAction} (h : execRecord cfg s i a = some r) :
    Recorded cfg s i (.record a) r := by
  cases a with
  | updateMessageLog g u =>
    simp only [execRecord] at h
    split at h <;> obtain rfl := Option.some.inj h <;> exact ⟨rfl, rfl⟩
  | postCallback cb payload =>
    cases h
    simp only [postCallback]
    split <;> exact ⟨rfl, rfl⟩
  | batchWriteLoop =>
    obtain ⟨submits, -, rfl⟩ := Option.map_eq_some_iff.mp h
    exact ⟨rfl, rfl⟩
  | _ =>
    cases h
    exact ⟨rfl, rfl⟩

theorem routeReceipt_store (n : ℕ) (rc : Receipt) (corr : Correlation) :
    (routeReceipt s n rc corr).state.store = s.store := by
  unfold routeReceipt
  split <;> rfl

theorem execReturn_recorded {a : ReturnAction} (h : execReturn cfg s i a = some r) :
    Recorded cfg s i (.back a) r := by
  have hkept : r.state.store = s.store → statusAfter cfg i s.store.status (.back a) =
      s.store.status → logAfter cfg i s.store.log (.back a) = s.store.log →
      Recorded cfg s i (.back a) r := by
    intro hstore hstatus hlog
    exact ⟨(congrArg _ hstore).trans hstatus.symm, (congrArg _ hstore).trans hlog.symm⟩
  cases execReturn_moves h with
  | found rc corr =>
    exact hkept (routeReceipt_store (s := { s with arrivals := s.arrivals + 1 }) _ rc corr) rfl rfl
  | stored n rc rec => exact hkept (routeReceipt_store n rc _) rfl rfl
  | settle rc corr st =>
    cases st with
    | updateMessageLog =>
      simp only [execSettle]
      split <;> exact ⟨rfl, rfl⟩
    | _ => exact ⟨rfl, rfl⟩
  | _ => exact ⟨rfl, rfl⟩

variable {a : Action} {b : RecordAction}

/-- **What any action does to the status records and to the log.** -/
theorem exec_recorded (h : exec cfg s i a = some r) : Recorded cfg s i a r := by
  cases a with
  | submit a =>
    cases execSubmit_moves h with
    | overflowed | unsent | unresent =>
      unfold enqueueSubmitRetryOrFail
      split
      · exact ⟨rfl, rfl⟩
      · unfold sendSyntheticDLR
        split
        · exact ⟨rfl, rfl⟩
        · exact ⟨rfl, rfl⟩
    | _ => exact ⟨rfl, rfl⟩
  | record a => exact execRecord_recorded h
  | back a => exact execReturn_recorded h
  | serve a =>
    obtain ⟨hst, -, -⟩ := execServe_frame h
    refine ⟨?_, ?_⟩ <;> rw [hst] <;> rfl

/-! ## Where the writes come from -/

/-- Where an action that tells something of a message comes from. -/
inductive Origination (cfg : RouterConfig) (s : Gateway) (i : Input) (a : Action)
    (r : GatewayEffect) (b : RecordAction) : Prop
  /-- The submit was rejected and is logged under an id of its own. -/
  | rejected (e : MessageLogEntry) (hid : e.gwMsgID = ascii "rejected-" ++ decimal (s.msgSeq + 1))
      (hstatus : e.status = .rejected) (hb : b = .logMessage e)
  /-- An engine's message was accepted. -/
  | submitted (connID : Bytes) (seqNum : UInt32) (conn : Option ℕ) (m : Screened)
      (hb : .record b ∈ (acceptSubmit cfg s i connID seqNum conn m).next)
  /-- A REST message was accepted. -/
  | requested (m : SMSSubmitRequest) (rest : List SMSSubmitRequest) (ids : List Bytes)
      (ha : a = .submit (.acceptREST (m :: rest) ids))
      (hb : .record b ∈ (acceptRESTMessage s i m rest ids).next)
  | forwarded (f : Forward) (id : Bytes) (t : Time) (ha : Forwards i a f id)
      (hb : .record b ∈ recordForwarded f id t)
  | gaveUp (connID g d f : Bytes) (ha : GivesUp a connID g d f)
      (hseen : .message g (.synthetic connID) ∈ r.seen)
      (hb : .record b ∈ (sendSyntheticDLR s connID g d f).next)
  /-- `UpdateMessageLog` has read the entry it rewrites. -/
  | updated (g : Bytes) (u : LogUpdate) (e : MessageLogEntry)
      (ha : a = .record (.updateMessageLog g u)) (he : s.store.log.find? g = some e)
      (hb : b = .writeLog g (u.apply e i.now))

theorem callbackActions_late (now : Time) (g st d f : Bytes) :
    ∀ b ∈ callbackActions s now g st d f, b.late = true := by
  intro b hb
  unfold callbackActions at hb
  split at hb
  · cases hb
  · rw [mem_singleton.mp hb]
    rfl

/-- **The return side writes outcomes**, and what a receipt says it writes by
itself. -/
theorem execReturn_late {a : ReturnAction} (h : execReturn cfg s i a = some r) :
    ∀ b ∈ r.next, b.late = true := by
  cases execReturn_moves h with
  | found | stored =>
    unfold routeReceipt
    split <;> simp [Effect.after, Action.late]
  | took pool it connID next hkind hesm hnext => rcases hnext with rfl | rfl <;> simp [Action.late]
  | settle rc corr st =>
    cases st with
    | updateMessageLog =>
      simp only [execSettle]
      split
      · simp
      · simp only [mem_singleton, forall_eq, Action.late, LogUpdate.apply]
        split <;> rfl
    | deliverDLRCallback => exact callbackActions_late _ _ _ _ _
    | _ => simp [execSettle]
  | absent c | unwritten c | unacked c => exact (by cases c <;> simp [Caller.failed, Action.late])
  | acked c =>
    unfold Caller.acked
    split
    · split <;> simp [Action.late]
    · split <;> simp [Action.late]
    · simp
  | drained =>
    intro b hb
    obtain ⟨e, -, rfl⟩ := mem_map.mp hb
    rfl
  | _ => simp [Action.late]

/-- What follows a failed attempt follows from giving up. -/
theorem gaveUp_of_next {now : Time} {g connID d f body : Bytes} {n : ℕ} {seen : List Obs}
    {b : Action}
    (hb : b ∈ ((enqueueSubmitRetryOrFail cfg s now g connID d f body n).after seen).next) :
    b ∈ (sendSyntheticDLR s connID g d f).next ∧ .message g (.synthetic connID) ∈
      ((enqueueSubmitRetryOrFail cfg s now g connID d f body n).after seen).seen := by
  simp only [Effect.after, enqueueSubmitRetryOrFail] at hb ⊢
  split at hb
  · cases hb
  · rename_i hbudget
    refine ⟨hb, mem_append_right _ ?_⟩
    rw [if_neg hbudget]
    unfold sendSyntheticDLR
    split <;> exact mem_cons_self

theorem execSubmit_originates {a : SubmitAction} (h : execSubmit cfg s i a = some r)
    (hb : .record b ∈ r.next) : Origination cfg s i (.submit a) r b := by
  cases execSubmit_moves h with
  | rejected =>
    obtain rfl := Action.record.inj (mem_singleton.mp hb)
    exact .rejected _ rfl rfl rfl
  | accepted connID seqNum => exact .submitted connID seqNum _ _ hb
  | acceptedREST m rest ids => exact .requested m rest ids rfl hb
  | overflowed task connID =>
    obtain ⟨hmem, hseen⟩ := gaveUp_of_next hb
    exact .gaveUp _ _ _ _ (.inl ⟨task, rfl, rfl, rfl, rfl⟩) hseen hmem
  | unsent f =>
    obtain ⟨hmem, hseen⟩ := gaveUp_of_next hb
    exact .gaveUp _ _ _ _ (.inr (.inl ⟨f, rfl, rfl, rfl, rfl, rfl⟩)) hseen hmem
  | getCorrelation f id =>
    rcases mem_cons.mp hb with hb | hb
    · cases hb
    · exact .forwarded f id _ (.inl rfl) hb
  | resent p pool id hatt =>
    rcases mem_cons.mp hb with hb | hb
    · cases hb
    · exact .forwarded _ id _ (.inr ⟨p, pool, rfl, hatt, rfl⟩) hb
  | unresent p =>
    obtain ⟨hmem, hseen⟩ := gaveUp_of_next hb
    exact .gaveUp _ _ _ _ (.inr (.inr ⟨p, rfl, rfl, rfl, rfl, rfl⟩)) hseen hmem
  | _ => simp at hb

theorem execRecord_originates {a : RecordAction} (h : execRecord cfg s i a = some r)
    (hb : .record b ∈ r.next) : b.tells = false ∨ Origination cfg s i (.record a) r b := by
  cases a with
  | updateMessageLog g u =>
    simp only [execRecord] at h
    split at h <;> cases h
    · cases hb
    · rename_i e he
      exact .inr (.updated g u e rfl he (Action.record.inj (mem_singleton.mp hb)))
  | deliverDLRCallback g st d f =>
    cases h
    exact .inl (Bool.not_eq_true' _ ▸ callbackActions_late _ _ _ _ _ _ hb)
  | batchWriteLoop =>
    obtain ⟨submits, -, rfl⟩ := Option.map_eq_some_iff.mp h
    obtain rfl := Action.record.inj (mem_singleton.mp hb)
    exact .inl rfl
  | cleanupCorrelations =>
    cases h
    rcases mem_append.mp hb with hb | hb
    · obtain ⟨e, -, he⟩ := mem_map.mp hb
      obtain rfl := Action.record.inj he
      exact .inl rfl
    · obtain rfl := Action.record.inj (mem_singleton.mp hb)
      exact .inl rfl
  | collectGw cutoff =>
    cases h
    obtain ⟨e, -, he⟩ := mem_map.mp hb
    obtain rfl := Action.record.inj he
    exact .inl rfl
  | _ =>
    cases h
    cases hb

/-- **Where a write comes from**: the message was accepted, forwarded or given
up, or `UpdateMessageLog` goes on. -/
theorem record_of_next (h : exec cfg s i a = some r) (hb : .record b ∈ r.next) :
    b.tells = false ∨ Origination cfg s i a r b := by
  cases a with
  | submit a => exact .inr (execSubmit_originates h hb)
  | record a => exact execRecord_originates h hb
  | back a => exact .inl (Bool.not_eq_true' _ ▸ execReturn_late h _ hb)
  | serve a =>
    obtain ⟨-, hnext, -⟩ := execServe_frame h
    obtain ⟨p, hp⟩ := hnext _ hb
    cases hp

/-- A receipt is settled on the return side. -/
theorem settle_of_next (h : exec cfg s i a = some r) {rc : Receipt} {corr : Correlation}
    {st : Settlement} (hb : .back (.settle rc corr st) ∈ r.next) :
    ∃ a', a = .back a' ∧ execReturn cfg s i a' = some r := by
  cases a with
  | submit a =>
    rcases execSubmit_cases h with hoff | ⟨connID, g, d, f, l, hrest, rfl⟩
    · have := all_eq_true.mp hoff.next _ hb
      cases this
    · rw [sendSyntheticDLR, if_neg hrest] at hb
      simp [Effect.after] at hb
  | record a =>
    obtain ⟨b, hrec, -⟩ := (execRecord_frame h).next _ hb
    cases hrec
  | back a => exact ⟨a, rfl, h⟩
  | serve a =>
    obtain ⟨p, hp⟩ := (execServe_frame h).2.1 _ hb
    cases hp

/-! ## What a submit goes on with -/

/-- What an action of the submit side goes on with on its own side. -/
inductive Continues (cfg : RouterConfig) (s : Gateway) (i : Input) :
    SubmitAction → SubmitAction → Prop
  | submitted (connID : Bytes) (seqNum : UInt32) (body : Bytes) (m : Screened)
      (hm : screen cfg ((s.server.getConnection connID).bind fun p => s.server.heap[p]?) i.now
        body = .ok m) :
      Continues cfg s i (.handleSubmit connID seqNum body)
        (.offer ⟨s.server.getConnection connID, gwMsgIDOf (s.msgSeq + 1), m.destAddr,
          m.sourceAddr, m.body⟩ connID)
  | request (req : SMSSubmitRequest) :
      Continues cfg s i (.handleHTTPSubmit req) (.acceptREST [req] [])
  | batch (b : SMSBatchRequest) :
      Continues cfg s i (.handleHTTPBatchSubmit b) (.acceptREST b.requests [])
  | requested (m : SMSSubmitRequest) (rest : List SMSSubmitRequest) (ids : List Bytes) :
      Continues cfg s i (.acceptREST (m :: rest) ids)
        (.offer ⟨none, gwMsgIDOf (s.msgSeq + 1), m.toAddr, m.fromAddr,
          Smpp.buildSubmitSMBody m.fromAddr m.toAddr m.body⟩ restApi)
  | others (m : SMSSubmitRequest) (rest : List SMSSubmitRequest) (ids : List Bytes) :
      Continues cfg s i (.acceptREST (m :: rest) ids)
        (.acceptREST rest (ids ++ [gwMsgIDOf (s.msgSeq + 1)]))
  | took (task : ForwardTask) (rest : List ForwardTask) (hch : s.forwardCh = task :: rest) :
      Continues cfg s i .forwardWorker (.forwardSubmitRaw
        ⟨s.server.idOf task.conn, task.gwMsgID, task.destAddr, task.sourceAddr, task.rawBody⟩)
  | loops : Continues cfg s i .forwardWorker .forwardWorker
  | accepted (f : Forward) (pool : ℕ) (id : Bytes) (hi : i.attempt = .accepted pool id) :
      Continues cfg s i (.forwardSubmitRaw f) (.getCorrelation f id)
  | found (f : Forward) (id : Bytes) (corr : Correlation) :
      Continues cfg s i (.getCorrelation f id) (.setCorrelation .worker f.gwMsgID id corr)
  | drained (p : PendingSubmit)
      (hp : p ∈ (drainSubmitRetries cfg.submitRetryLimit s.store.submitRetries).1) :
      Continues cfg s i .drainSubmitRetries (.retrySubmit p)
  | retried (p : PendingSubmit) (pool : ℕ) (id : Bytes) (corr : Correlation)
      (hi : i.attempt = .accepted pool id) :
      Continues cfg s i (.retrySubmit p) (.setCorrelation .drainPass p.gwMsgID id corr)

/-- Failing a submit starts nothing on its own side. -/
theorem submit_not_mem_enqueue {now : Time} {g connID d f body : Bytes} {n : ℕ}
    {seen : List Obs} {b : SubmitAction} :
    .submit b ∉ ((enqueueSubmitRetryOrFail cfg s now g connID d f body n).after seen).next := by
  intro hb
  have hmem := (gaveUp_of_next hb).1
  unfold sendSyntheticDLR at hmem
  split at hmem <;> simp at hmem

theorem submit_not_mem_recordForwarded {f : Forward} {id : Bytes} {t : Time} {b : SubmitAction} :
    .submit b ∉ recordForwarded f id t := by
  unfold recordForwarded
  split <;> simp

/-- **What an action of the submit side goes on with.** No other action starts
one. -/
theorem submit_of_next (h : exec cfg s i a = some r) {b : SubmitAction} (hb : .submit b ∈ r.next) :
    ∃ a', a = .submit a' ∧ Continues cfg s i a' b := by
  by_cases hside : a.onSubmit = false
  · have := all_eq_true.mp (exec_offSubmit hside h).next _ hb
    cases this
  cases a with
  | submit a =>
    refine ⟨a, rfl, ?_⟩
    cases execSubmit_moves h with
    | accepted connID seqNum body m hm =>
      simp only [acceptSubmit, mem_cons, not_mem_nil, or_false, reduceCtorEq,
        false_or, Action.submit.injEq] at hb
      rw [hb]
      exact .submitted connID seqNum body m hm
    | requested req =>
      obtain rfl := Action.submit.inj (mem_singleton.mp hb)
      exact .request req
    | batchRequested batch =>
      obtain rfl := Action.submit.inj (mem_singleton.mp hb)
      exact .batch batch
    | acceptedREST m rest ids =>
      simp only [acceptRESTMessage, mem_append, mem_cons, not_mem_nil, or_false,
        reduceCtorEq, false_or, Action.submit.injEq] at hb
      rcases hb with hb | rfl | rfl
      · split at hb <;> simp at hb
      · exact .requested m rest ids
      · exact .others m rest ids
    | overflowed | unsent | unresent => exact absurd hb submit_not_mem_enqueue
    | taken task rest hch =>
      simp only [mem_cons, not_mem_nil, or_false, Action.submit.injEq] at hb
      rcases hb with rfl | rfl
      · exact .took task rest hch
      · exact .loops
    | sent f pool id hatt =>
      obtain rfl := Action.submit.inj (mem_singleton.mp hb)
      exact .accepted f pool id hatt
    | getCorrelation f id =>
      rcases mem_cons.mp hb with hb | hb
      · obtain rfl := Action.submit.inj hb
        exact .found f id _
      · exact absurd hb submit_not_mem_recordForwarded
    | drained out hout =>
      obtain ⟨p, hp, hpb⟩ := mem_map.mp hb
      obtain rfl := Action.submit.inj hpb
      exact .drained p (hout ▸ hp)
    | resent p pool id hatt =>
      rcases mem_cons.mp hb with hb | hb
      · obtain rfl := Action.submit.inj hb
        exact .retried p pool id _ hatt
      · exact absurd hb submit_not_mem_recordForwarded
    | _ => simp at hb
  | _ => exact absurd rfl hside

end Exec

end SmscGateway
