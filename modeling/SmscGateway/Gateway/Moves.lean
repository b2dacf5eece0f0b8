import SmscGateway.Gateway.Step

/-!
# What a step of the gateway can do

The branches of `execSubmit` and `execReturn`, each with the condition under
which it is taken and the effect it has. A fact about the steps of the gateway
is a case analysis of `SubmitMoves` or `ReturnMoves`: the branches are told
apart in `execSubmit_moves` and `execReturn_moves` and nowhere else.
-/

namespace SmscGateway

variable {cfg : RouterConfig} {s : Gateway} {i : Input} {r : GatewayEffect}

/-! ## The submit side -/

/-- The branches of `execSubmit`. -/
inductive SubmitMoves (cfg : RouterConfig) (s : Gateway) (i : Input) :
    SubmitAction → GatewayEffect → Prop
  | rejected (connID : Bytes) (seqNum : UInt32) (body : Bytes) (m : Screened)
      (hscreen : ∃ err, screen cfg ((s.server.getConnection connID).bind fun p => s.server.heap[p]?)
        i.now body = .error (err, m)) :
    SubmitMoves cfg s i (.handleSubmit connID seqNum body)
      { state := { s with msgSeq := s.msgSeq + 1 }
        next := [.record (.logMessage
          { gwMsgID := ascii "rejected-" ++ decimal (s.msgSeq + 1), connID,
            sourceAddr := m.sourceAddr, destAddr := m.destAddr, status := .rejected })] }
  | accepted (connID : Bytes) (seqNum : UInt32) (body : Bytes) (m : Screened)
      (hscreen : screen cfg ((s.server.getConnection connID).bind fun p => s.server.heap[p]?)
        i.now body = .ok m) :
    SubmitMoves cfg s i (.handleSubmit connID seqNum body)
      (acceptSubmit cfg s i connID seqNum (s.server.getConnection connID) m)
  | refused (req : SMSSubmitRequest) : SubmitMoves cfg s i (.handleHTTPSubmit req) { state := s }
  | requested (req : SMSSubmitRequest) (hreq : ¬(req.toAddr = [] ∨ req.body = [])) :
    SubmitMoves cfg s i (.handleHTTPSubmit req)
      { state := s, next := [.submit (.acceptREST [req] [])] }
  | batchRefused (batch : SMSBatchRequest) :
    SubmitMoves cfg s i (.handleHTTPBatchSubmit batch) { state := s }
  | batchRequested (batch : SMSBatchRequest) :
    SubmitMoves cfg s i (.handleHTTPBatchSubmit batch)
      { state := s, next := [.submit (.acceptREST batch.requests [])] }
  | answered (ids : List Bytes) :
    SubmitMoves cfg s i (.acceptREST [] ids) { state := s, seen := ids.map .answered }
  | acceptedREST (m : SMSSubmitRequest) (rest : List SMSSubmitRequest) (ids : List Bytes) :
    SubmitMoves cfg s i (.acceptREST (m :: rest) ids) (acceptRESTMessage s i m rest ids)
  | queued (task : ForwardTask) (connID : Bytes) (hroom : s.forwardCh.length < cfg.queueSize) :
    SubmitMoves cfg s i (.offer task connID)
      { state := { s with forwardCh := s.forwardCh ++ [task] }
        seen := [.message task.gwMsgID .queued] }
  | overflowed (task : ForwardTask) (connID : Bytes)
      (hfull : ¬s.forwardCh.length < cfg.queueSize) :
    SubmitMoves cfg s i (.offer task connID)
      ((enqueueSubmitRetryOrFail cfg s i.now task.gwMsgID connID task.destAddr task.sourceAddr
        task.rawBody 0).after [.message task.gwMsgID .overflowed])
  | taken (task : ForwardTask) (rest : List ForwardTask) (hch : s.forwardCh = task :: rest) :
    SubmitMoves cfg s i .forwardWorker
      { state := { s with forwardCh := rest }
        next := [.submit (.forwardSubmitRaw ⟨s.server.idOf task.conn, task.gwMsgID, task.destAddr,
          task.sourceAddr, task.rawBody⟩), .submit .forwardWorker]
        seen := [.message task.gwMsgID .taken] }
  | sent (f : Forward) (pool : ℕ) (id : Bytes) (hatt : i.attempt = .accepted pool id) :
    SubmitMoves cfg s i (.forwardSubmitRaw f)
      { state := s
        next := [.submit (.getCorrelation f id)]
        seen := [.message f.gwMsgID (.attempted i.attempt)] }
  | unsent (f : Forward) (hatt : ∀ pool id, i.attempt ≠ .accepted pool id) :
    SubmitMoves cfg s i (.forwardSubmitRaw f)
      ((enqueueSubmitRetryOrFail cfg s i.now f.gwMsgID f.connID f.destAddr f.sourceAddr
        f.rawBody 0).after [.message f.gwMsgID (.attempted i.attempt)])
  | getCorrelation (f : Forward) (id : Bytes) (corr : Correlation)
      (hcorr : corr = (s.gwCorrelation.find? f.gwMsgID).getD
        ⟨f.gwMsgID, f.connID, f.destAddr, i.now⟩) :
    SubmitMoves cfg s i (.getCorrelation f id)
      { state := s
        next := .submit (.setCorrelation .worker f.gwMsgID id corr) ::
          recordForwarded f id corr.submittedAt }
  | setCorrelation (holder : Holder) (g id : Bytes) (corr : Correlation) :
    SubmitMoves cfg s i (.setCorrelation holder g id corr)
      { state := { s with smscCorrelation := s.smscCorrelation.insert id corr }
        seen := [.message g .correlated] }
  | drained (out : List PendingSubmit × SortedMap Bytes PendingSubmit)
      (hout : drainSubmitRetries cfg.submitRetryLimit s.store.submitRetries = out) :
    SubmitMoves cfg s i .drainSubmitRetries
      { state := { s with store := { s.store with submitRetries := out.2 } }
        next := out.1.map fun p => .submit (.retrySubmit p)
        seen := out.1.map fun p => .message p.gwMsgID .drained }
  | resent (p : PendingSubmit) (pool : ℕ) (id : Bytes) (hatt : i.attempt = .accepted pool id) :
    SubmitMoves cfg s i (.retrySubmit p)
      { state := s
        next := .submit (.setCorrelation .drainPass p.gwMsgID id
            ⟨p.gwMsgID, p.connID, p.msisdn, i.now⟩) ::
          recordForwarded ⟨p.connID, p.gwMsgID, p.msisdn, p.sourceAddr, p.rawBody⟩ id i.now
        seen := [.message p.gwMsgID (.attempted i.attempt)] }
  | unresent (p : PendingSubmit) (hatt : ∀ pool id, i.attempt ≠ .accepted pool id) :
    SubmitMoves cfg s i (.retrySubmit p)
      ((enqueueSubmitRetryOrFail cfg s i.now p.gwMsgID p.connID p.msisdn p.sourceAddr p.rawBody
        p.retryCount).after [.message p.gwMsgID (.attempted i.attempt)])

/-- **What a step of the submit side does.** -/
theorem execSubmit_moves {a : SubmitAction} (h : execSubmit cfg s i a = some r) :
    SubmitMoves cfg s i a r := by
  cases a with
  | handleSubmit connID seqNum body =>
    simp only [execSubmit] at h
    split at h <;> cases h
    · exact .rejected connID seqNum body _ ⟨_, ‹_›⟩
    · exact .accepted connID seqNum body _ ‹_›
  | handleHTTPSubmit req =>
    simp only [execSubmit] at h
    split at h <;> cases h
    · exact .refused req
    · exact .requested req ‹_›
  | handleHTTPBatchSubmit batch =>
    simp only [execSubmit] at h
    split at h <;> cases h
    · exact .batchRefused batch
    · exact .batchRequested batch
  | acceptREST rest ids =>
    cases rest <;> cases h
    · exact .answered ids
    · exact .acceptedREST _ _ ids
  | offer task connID =>
    simp only [execSubmit] at h
    split at h <;> cases h
    · exact .queued task connID ‹_›
    · exact .overflowed task connID ‹_›
  | forwardWorker =>
    simp only [execSubmit] at h
    split at h
    · cases h
    · cases h
      exact .taken _ _ ‹_›
  | forwardSubmitRaw f =>
    simp only [execSubmit] at h
    split at h <;> cases h
    · exact .sent f _ _ ‹_›
    · exact .unsent f ‹_›
  | getCorrelation f id =>
    cases h
    exact .getCorrelation f id _ rfl
  | setCorrelation holder g id corr =>
    cases h
    exact .setCorrelation holder g id corr
  | drainSubmitRetries =>
    cases h
    exact .drained _ rfl
  | retrySubmit p =>
    simp only [execSubmit] at h
    split at h <;> cases h
    · exact .resent p _ _ ‹_›
    · exact .unresent p ‹_›

/-! ## The return side -/

/-- **What `handleMO` does**: it posts the message, or takes it on to buffer
it or to deliver it to some engine. -/
theorem handleMO_cases (cfg : RouterConfig) (s : Gateway) (i : Input) (src dst : Bytes)
    (esm : UInt8) (payload : Bytes) :
    (∃ route, resolveMO cfg.moRoutes src dst = some route ∧ route.targetType = .http ∧
      handleMO cfg s i src dst esm payload =
        { state := s, seen := [.postedMO route.callbackURL src dst payload] }) ∨
    ∃ connID next, (next = .buffer (moJob s.tickets i.now ⟨.mo, src, dst, esm, payload⟩ connID) ∨
        next = .deliverToConn
          (.direct (moJob s.tickets i.now ⟨.mo, src, dst, esm, payload⟩ connID)) connID) ∧
      handleMO cfg s i src dst esm payload =
        { state := { s with tickets := s.tickets + 1 }
          next := [.back next]
          seen := [.read i.now, .item s.tickets (.took ⟨.mo, src, dst, esm, payload⟩)] } := by
  simp only [handleMO]
  split
  · rename_i route hroute
    split
    · rename_i htype
      exact .inl ⟨route, hroute, htype, rfl⟩
    · split
      · split
        · exact .inr ⟨_, _, .inl rfl, rfl⟩
        · exact .inr ⟨_, _, .inr rfl, rfl⟩
      · exact .inr ⟨_, _, .inr rfl, rfl⟩
    · split
      · exact .inr ⟨_, _, .inl rfl, rfl⟩
      · exact .inr ⟨_, _, .inr rfl, rfl⟩
  · split
    · exact .inr ⟨_, _, .inl rfl, rfl⟩
    · exact .inr ⟨_, _, .inr rfl, rfl⟩

/-- The branches of `execReturn`. -/
inductive ReturnMoves (cfg : RouterConfig) (s : Gateway) (i : Input) :
    ReturnAction → GatewayEffect → Prop
  | unreadable (pool : ℕ) (src dst : Bytes) (esm : UInt8) (payload : Bytes)
      (hesm : Smpp.isDLR esm = true) (hparse : Smpp.parseDLRReceipt payload = none) :
    ReturnMoves cfg s i (.handleDeliver pool src dst esm payload) { state := s }
  | found (rc : Receipt) (corr : Correlation) (hesm : Smpp.isDLR rc.esmClass = true)
      (hparse : Smpp.parseDLRReceipt rc.payload = some rc.parsed)
      (hfind : s.smscCorrelation.find? rc.parsed.messageID = some corr) :
    ReturnMoves cfg s i
      (.handleDeliver rc.pool rc.sourceAddr rc.destAddr rc.esmClass rc.payload)
      ((routeReceipt { s with arrivals := s.arrivals + 1 } s.arrivals rc corr).after
        [.arrived s.arrivals rc.pool rc.parsed.messageID])
  | missed (rc : Receipt) (hesm : Smpp.isDLR rc.esmClass = true)
      (hparse : Smpp.parseDLRReceipt rc.payload = some rc.parsed)
      (hfind : s.smscCorrelation.find? rc.parsed.messageID = none) :
    ReturnMoves cfg s i
      (.handleDeliver rc.pool rc.sourceAddr rc.destAddr rc.esmClass rc.payload)
      { state := { s with arrivals := s.arrivals + 1 }
        next := [.back (.getSubmit s.arrivals rc)]
        seen := [.arrived s.arrivals rc.pool rc.parsed.messageID] }
  | posted (pool : ℕ) (src dst : Bytes) (esm : UInt8) (payload : Bytes) (route : MORoute)
      (hesm : Smpp.isDLR esm = false) (hroute : resolveMO cfg.moRoutes src dst = some route)
      (htype : route.targetType = .http) :
    ReturnMoves cfg s i (.handleDeliver pool src dst esm payload)
      { state := s, seen := [.postedMO route.callbackURL src dst payload] }
  | took (pool : ℕ) (it : Item) (connID : Bytes) (next : ReturnAction) (hkind : it.kind = .mo)
      (hesm : Smpp.isDLR it.esmClass = false)
      (hnext : next = .buffer (moJob s.tickets i.now it connID) ∨
        next = .deliverToConn (.direct (moJob s.tickets i.now it connID)) connID) :
    ReturnMoves cfg s i (.handleDeliver pool it.sourceAddr it.destAddr it.esmClass it.payload)
      { state := { s with tickets := s.tickets + 1 }
        next := [.back next]
        seen := [.read i.now, .item s.tickets (.took it)] }
  | stored (n : ℕ) (rc : Receipt) (rec : SubmitRecord)
      (hfind : s.store.submits.getSubmit rc.parsed.messageID = some rec) :
    ReturnMoves cfg s i (.getSubmit n rc)
      (routeReceipt s n rc ⟨rec.gwMsgID, rec.northConnID, rec.msisdn, 0⟩)
  | unknown (n : ℕ) (rc : Receipt)
      (hfind : s.store.submits.getSubmit rc.parsed.messageID = none) :
    ReturnMoves cfg s i (.getSubmit n rc) { state := s, seen := [.matched n .unknown] }
  | settle (rc : Receipt) (corr : Correlation) (st : Settlement) :
    ReturnMoves cfg s i (.settle rc corr st) (execSettle s i rc corr st)
  | absent (c : Caller) (connID : Bytes) (hconn : s.server.getConnection connID = none) :
    ReturnMoves cfg s i (.deliverToConn c connID) { state := s, next := c.failed }
  | present (c : Caller) (connID : Bytes) (p : ℕ) (hconn : s.server.getConnection connID = some p) :
    ReturnMoves cfg s i (.deliverToConn c connID)
      { state := s, next := [.back (.write c connID p)] }
  | written (c : Caller) (connID : Bytes) (p : ℕ) (hopen : s.server.isClosed p = false) :
    ReturnMoves cfg s i (.write c connID p)
      { state := s, next := [.back (.await c)], seen := [.wrote p c.item c.body] }
  | unwritten (c : Caller) (connID : Bytes) (p : ℕ) :
    ReturnMoves cfg s i (.write c connID p) { state := s, next := c.failed }
  | acked (c : Caller) :
    ReturnMoves cfg s i (.await c)
      { state := s, next := c.acked, seen := .item c.item .delivered :: c.releases }
  | unacked (c : Caller) : ReturnMoves cfg s i (.await c) { state := s, next := c.failed }
  | held (j : Job) : ReturnMoves cfg s i (.grace j) { state := s, next := [.back (.buffer j)] }
  | fallsBack (j : Job) (hgrace : ¬withinGrace cfg s.server i.now j.connID)
      (hdlr : j.isDLR = false) (hpick : s.server.roundRobinConnID i.pick ≠ []) :
    ReturnMoves cfg s i (.grace j)
      { state := s
        next := [.back (.deliverToConn (.fallback j) (s.server.roundRobinConnID i.pick))] }
  | buffer (j : Job) :
    ReturnMoves cfg s i (.buffer j)
      { state := { s with store := s.store.enqueueRetry j.retryID j.item (j.pending i.now) }
        seen := [.item j.item (.buffered i.now)] }
  | drained (out : List (Bytes × Numbered))
      (hout : retriesTaken i.now cfg.retryLimit s.store.retries = out) :
    ReturnMoves cfg s i .drainRetries
      { state := { s with
          store := { s.store with retries := s.store.retries.dropFirst out.length } }
        next := (out.filter fun e => ¬Stale i.later cfg.maxRetryAge e.2.pending).map fun e =>
          .back (.redeliver e.2)
        seen := [.read i.now, .read i.later] ++ out.map fun e =>
          if Stale i.later cfg.maxRetryAge e.2.pending then .item e.2.item (.expired i.later)
          else .item e.2.item .drained }
  | redirected (e : Numbered) (connID : Bytes)
      (hconn : connID = e.pending.targetConnID ∧ connID ≠ [] ∧
          (s.server.getConnection connID).isSome = true ∨
        connID = s.server.roundRobinConnID i.pick ∧ connID ≠ [] ∧
          ¬(e.pending.targetConnID ≠ [] ∧
            (s.server.getConnection e.pending.targetConnID).isSome = true) ∧
          Smpp.isDLR e.pending.esmClass = false) :
    ReturnMoves cfg s i (.redeliver e)
      { state := s, next := [.back (.deliverToConn (.redeliver e) connID)] }
  | returned (e : Numbered) :
    ReturnMoves cfg s i (.redeliver e) { state := s, next := [.back (.requeue e)] }
  | requeue (e : Numbered) :
    ReturnMoves cfg s i (.requeue e)
      { state := { s with
          store := s.store.enqueueRetry (ascii "retry-" ++ decimal i.now) e.item e.pending }
        seen := [.read i.now, .item e.item .requeued] }

/-- **What a step of the return side does.** -/
theorem execReturn_moves {a : ReturnAction} (h : execReturn cfg s i a = some r) :
    ReturnMoves cfg s i a r := by
  cases a with
  | handleDeliver pool src dst esm payload =>
    simp only [execReturn] at h
    split at h
    · split at h
      · cases h
        exact .unreadable pool src dst esm payload ‹_› ‹_›
      · rename_i parsed hparse
        split at h <;> cases h
        · exact .found ⟨pool, src, dst, esm, payload, parsed⟩ _ ‹_› hparse ‹_›
        · exact .missed ⟨pool, src, dst, esm, payload, parsed⟩ ‹_› hparse ‹_›
    · rename_i hesm
      have hbit : Smpp.isDLR esm = false := by simpa using hesm
      cases h
      rcases handleMO_cases cfg s i src dst esm payload with
        ⟨route, hroute, htype, heq⟩ | ⟨connID, next, hnext, heq⟩
      · rw [heq]
        exact .posted pool src dst esm payload route hbit hroute htype
      · rw [heq]
        exact .took pool ⟨.mo, src, dst, esm, payload⟩ connID next rfl hbit hnext
  | getSubmit n rc =>
    simp only [execReturn] at h
    split at h <;> cases h
    · exact .stored n rc _ ‹_›
    · exact .unknown n rc ‹_›
  | settle rc corr st =>
    cases h
    exact .settle rc corr st
  | deliverToConn c connID =>
    simp only [execReturn] at h
    split at h <;> cases h
    · exact .absent c connID ‹_›
    · exact .present c connID _ ‹_›
  | write c connID p =>
    simp only [execReturn] at h
    split at h <;> cases h
    · rename_i hopen
      exact .written c connID p hopen.2
    · exact .unwritten c connID p
  | await c =>
    simp only [execReturn] at h
    split at h <;> cases h
    · exact .acked c
    · exact .unacked c
  | grace j =>
    simp only [execReturn] at h
    split at h
    · cases h
      exact .held j
    · rename_i hgrace
      split at h <;> cases h
      · exact .held j
      · exact .fallsBack j (fun hw => hgrace (.inl hw)) (by simpa using fun hd => hgrace (.inr hd))
          ‹_›
  | buffer j =>
    cases h
    exact .buffer j
  | drainRetries =>
    cases h
    exact .drained _ rfl
  | redeliver e =>
    simp only [execReturn] at h
    split at h
    · rename_i hthere
      cases h
      exact .redirected e _ (.inl ⟨rfl, hthere⟩)
    · rename_i hgone
      split at h
      · cases h
        exact .returned e
      · rename_i hesm
        split at h <;> cases h
        · exact .returned e
        · exact .redirected e _ (.inr ⟨rfl, ‹_›, hgone, by simpa using hesm⟩)
  | requeue e =>
    cases h
    exact .requeue e

end SmscGateway
