import SmscGateway.Gateway.Model

/-!
# The gateway: what each action does

One function for each group of actions, in the order the source has them. An
action that only computes what its goroutine does next leaves the state as it
is. Store writes succeed and the process does not crash.
-/

namespace SmscGateway

/-- What one action of the gateway does. -/
abbrev GatewayEffect := Effect Gateway Action Obs

/-- Observations made before the ones of an effect. -/
def Effect.after {σ α ω : Type} (seen : List ω) (e : Effect σ α ω) : Effect σ α ω :=
  { e with seen := seen ++ e.seen }

/-! ## Failing a submit -/

/-- The receipt status of a synthetic failure. -/
def undeliv : Bytes := ascii "UNDELIV"

/-- The receipt text of `sendSyntheticDLR`. -/
def syntheticReceipt (gwMsgID : Bytes) : Bytes :=
  ascii "id:" ++ gwMsgID ++ ascii " sub:001 dlvrd:000 submit date:0000000000 " ++
    ascii "done date:0000000000 stat:UNDELIV err:001 text:"

/-- `sendSyntheticDLR`. A REST message has its status and callback updated;
for an engine the receipt takes the return path. -/
def sendSyntheticDLR (s : Gateway) (connID gwMsgID destAddr sourceAddr : Bytes) :
    GatewayEffect :=
  let log := Action.record (.updateMessageLog gwMsgID
    { status := .failed, dlrStatus := some undeliv })
  if connID = restApi then
    { state := s
      next := [log,
        .record (.setMessageStatus
          { gwMsgID, toAddr := destAddr, fromAddr := sourceAddr, status := .failed,
            dlrStatus := undeliv }),
        .record (.deliverDLRCallback gwMsgID undeliv destAddr sourceAddr),
        .record (.deleteGwCorrelation gwMsgID)]
      seen := [.message gwMsgID (.synthetic connID)] }
  else
    let it : Item := ⟨.synthetic connID, sourceAddr, destAddr, 0x04, syntheticReceipt gwMsgID⟩
    let j : Job :=
      { item := s.tickets, connID, body := it.body, msisdn := destAddr, esmClass := 0x04,
        sourceAddr, destAddr, retryID := ascii "synth-" ++ gwMsgID, isDLR := true,
        cause := .other }
    { state := { s with tickets := s.tickets + 1 }
      next := [log, .back (.deliverToConn (.direct j) connID),
        .record (.deleteGwCorrelation gwMsgID)]
      seen := [.message gwMsgID (.synthetic connID), .item s.tickets (.took it)] }

/-- `enqueueSubmitRetryOrFail`. -/
def enqueueSubmitRetryOrFail (cfg : RouterConfig) (s : Gateway) (now : Time)
    (gwMsgID connID destAddr sourceAddr rawBody : Bytes) (retryCount : ℕ) : GatewayEffect :=
  if 0 < cfg.maxSubmitRetries ∧ (retryCount : ℤ) < cfg.maxSubmitRetries then
    { state := { s with
        store := s.store.enqueueSubmitRetry
          ⟨gwMsgID, connID, destAddr, sourceAddr, rawBody, retryCount + 1, now⟩ }
      seen := [.message gwMsgID (.enqueued (retryCount + 1))] }
  else sendSyntheticDLR s connID gwMsgID destAddr sourceAddr

/-! ## Submits -/

/-- The records of a forwarded message: what `forwardSubmitRaw` and
`drainSubmitRetries` do after the correlation is set. -/
def recordForwarded (f : Forward) (smscMsgID : Bytes) (submittedAt : Time) : List Action :=
  [.record (.storeSubmit
      ⟨f.gwMsgID, smscMsgID, f.connID, 0, f.destAddr, f.sourceAddr, f.rawBody, submittedAt⟩),
    .record (.deleteSubmitByGwID f.gwMsgID)] ++
  (if f.connID = restApi then
    [.record (.setMessageStatus
      { gwMsgID := f.gwMsgID, toAddr := f.destAddr, fromAddr := f.sourceAddr,
        status := .forwarded, smscMsgID })]
  else []) ++
  [.record (.updateMessageLog f.gwMsgID { status := .forwarded, smscMsgID := some smscMsgID })]

/-- The messages of a batch with the batch's defaults filled in. -/
def SMSBatchRequest.requests (b : SMSBatchRequest) : List SMSSubmitRequest :=
  b.messages.zipIdx.map fun (m, i) =>
    { m with
      callbackURL := if m.callbackURL = [] then b.callbackURL else m.callbackURL
      reference :=
        if m.reference = [] ∧ b.referencePrefix ≠ [] then b.referencePrefix ++ 45 :: decimal i
        else m.reference }

/-- `HandleSubmit` once the submit passed its checks: the id is given out,
the engine answered and the correlation stored. -/
def acceptSubmit (cfg : RouterConfig) (s : Gateway) (i : Input) (connID : Bytes)
    (seqNum : UInt32) (conn : Option ℕ) (m : Screened) : GatewayEffect :=
  let gwMsgID := gwMsgIDOf (s.msgSeq + 1)
  { state := { s with
      msgSeq := s.msgSeq + 1
      msisdnAffinity :=
        if m.destAddr = [] then s.msisdnAffinity else s.msisdnAffinity.insert m.destAddr connID
      gwCorrelation := s.gwCorrelation.insert gwMsgID ⟨gwMsgID, connID, m.destAddr, i.now⟩
      server := match conn with
        | some p => s.server.modify p fun c =>
          if 0 < effectiveTPS cfg c then c.recordSubmit i.now else c
        | none => s.server }
    next := [
      .record (.storeSubmit
        ⟨gwMsgID, [], connID, seqNum, m.destAddr, m.sourceAddr, m.body, i.later⟩),
      .record (.logMessage
        { gwMsgID, connID, sourceAddr := m.sourceAddr, destAddr := m.destAddr,
          status := .accepted }),
      .submit (.offer ⟨conn, gwMsgID, m.destAddr, m.sourceAddr, m.body⟩ connID)]
    seen := .message gwMsgID (.accepted (.smpp connID)) ::
      if conn.isSome then [.answered gwMsgID] else [] }

/-- One message of `HandleHTTPSubmit` or `HandleHTTPBatchSubmit`, with the
ones after it. -/
def acceptRESTMessage (s : Gateway) (i : Input) (m : SMSSubmitRequest)
    (rest : List SMSSubmitRequest) (ids : List Bytes) : GatewayEffect :=
  let gwMsgID := gwMsgIDOf (s.msgSeq + 1)
  let rawBody := Smpp.buildSubmitSMBody m.fromAddr m.toAddr m.body
  { state := { s with
      msgSeq := s.msgSeq + 1
      gwCorrelation := s.gwCorrelation.insert gwMsgID ⟨gwMsgID, restApi, m.toAddr, i.now⟩ }
    next := [
      .record (.storeSubmit
        ⟨gwMsgID, [], restApi, 0, m.toAddr, m.fromAddr, rawBody, i.later⟩),
      .record (.setMessageStatus
        { gwMsgID, toAddr := m.toAddr, fromAddr := m.fromAddr, reference := m.reference,
          status := .accepted })] ++
      (if m.callbackURL = [] then []
      else [.record (.setCallback
        { gwMsgID, callbackURL := m.callbackURL, reference := m.reference })]) ++
      [.submit (.offer ⟨none, gwMsgID, m.toAddr, m.fromAddr, rawBody⟩ restApi),
        .submit (.acceptREST rest (ids ++ [gwMsgID]))]
    seen := [.message gwMsgID (.accepted .rest)] }

/-- The submit side. -/
def execSubmit (cfg : RouterConfig) (s : Gateway) (i : Input) :
    SubmitAction → Option GatewayEffect
  | .handleSubmit connID seqNum body =>
    let conn := s.server.getConnection connID
    match screen cfg (conn.bind fun p => s.server.heap[p]?) i.now body with
    | .error (_, m) =>
      some
        { state := { s with msgSeq := s.msgSeq + 1 }
          next := [.record (.logMessage
            { gwMsgID := ascii "rejected-" ++ decimal (s.msgSeq + 1), connID,
              sourceAddr := m.sourceAddr, destAddr := m.destAddr, status := .rejected })] }
    | .ok m => some (acceptSubmit cfg s i connID seqNum conn m)
  | .handleHTTPSubmit req =>
    if req.toAddr = [] ∨ req.body = [] then some { state := s }
    else some { state := s, next := [.submit (.acceptREST [req] [])] }
  | .handleHTTPBatchSubmit batch =>
    if batch.messages = [] ∨ 1000 < batch.messages.length then some { state := s }
    else some { state := s, next := [.submit (.acceptREST batch.requests [])] }
  | .acceptREST [] ids => some { state := s, seen := ids.map .answered }
  | .acceptREST (m :: rest) ids => some (acceptRESTMessage s i m rest ids)
  | .offer task connID =>
    if s.forwardCh.length < cfg.queueSize then
      some
        { state := { s with forwardCh := s.forwardCh ++ [task] }
          seen := [.message task.gwMsgID .queued] }
    else
      some ((enqueueSubmitRetryOrFail cfg s i.now task.gwMsgID connID task.destAddr
        task.sourceAddr task.rawBody 0).after [.message task.gwMsgID .overflowed])
  | .forwardWorker =>
    match s.forwardCh with
    | [] => none
    | task :: rest =>
      -- the connection id is read from the captured session, not from the task
      let f : Forward :=
        ⟨s.server.idOf task.conn, task.gwMsgID, task.destAddr, task.sourceAddr, task.rawBody⟩
      some
        { state := { s with forwardCh := rest }
          next := [.submit (.forwardSubmitRaw f), .submit .forwardWorker]
          seen := [.message task.gwMsgID .taken] }
  | .forwardSubmitRaw f =>
    match i.attempt with
    | .accepted _ smscMsgID =>
      some
        { state := s
          next := [.submit (.getCorrelation f smscMsgID)]
          seen := [.message f.gwMsgID (.attempted i.attempt)] }
    | _ =>
      some ((enqueueSubmitRetryOrFail cfg s i.now f.gwMsgID f.connID f.destAddr f.sourceAddr
        f.rawBody 0).after [.message f.gwMsgID (.attempted i.attempt)])
  | .getCorrelation f smscMsgID =>
    let corr := (s.gwCorrelation.find? f.gwMsgID).getD ⟨f.gwMsgID, f.connID, f.destAddr, i.now⟩
    some
      { state := s
        next := .submit (.setCorrelation .worker f.gwMsgID smscMsgID corr) ::
          recordForwarded f smscMsgID corr.submittedAt }
  | .setCorrelation _ gwMsgID smscMsgID corr =>
    some
      { state := { s with smscCorrelation := s.smscCorrelation.insert smscMsgID corr }
        seen := [.message gwMsgID .correlated] }
  | .drainSubmitRetries =>
    let drained := drainSubmitRetries cfg.submitRetryLimit s.store.submitRetries
    some
      { state := { s with store := { s.store with submitRetries := drained.2 } }
        next := drained.1.map fun p => .submit (.retrySubmit p)
        seen := drained.1.map fun p => .message p.gwMsgID .drained }
  | .retrySubmit p =>
    match i.attempt with
    | .accepted _ smscMsgID =>
      let f : Forward := ⟨p.connID, p.gwMsgID, p.msisdn, p.sourceAddr, p.rawBody⟩
      some
        { state := s
          next := .submit (.setCorrelation .drainPass p.gwMsgID smscMsgID
              ⟨p.gwMsgID, p.connID, p.msisdn, i.now⟩) ::
            recordForwarded f smscMsgID i.now
          seen := [.message p.gwMsgID (.attempted i.attempt)] }
    | _ =>
      some ((enqueueSubmitRetryOrFail cfg s i.now p.gwMsgID p.connID p.msisdn p.sourceAddr
        p.rawBody p.retryCount).after [.message p.gwMsgID (.attempted i.attempt)])

/-! ## Records and clean-up -/

/-- The `updater` applied, and `UpdatedAt` set. -/
def LogUpdate.apply (u : LogUpdate) (e : MessageLogEntry) (now : Time) : MessageLogEntry :=
  { e with
    status := u.status
    smscMsgID := u.smscMsgID.getD e.smscMsgID
    dlrStatus := u.dlrStatus.getD e.dlrStatus
    updatedAt := now }

/-- The delays of `enqueueCallbackRetry`. -/
def callbackDelay : ℕ → ℕ
  | 0 => 5 * second
  | 1 => 30 * second
  | _ => 180 * second

/-- `postCallback` and what follows its outcome: the record goes, or the
callback is scheduled again, at most three times. -/
def postCallback (store : MessageStore) (i : Input) (cb : CallbackRecord) : MessageStore :=
  if i.posted ∨ 3 ≤ cb.retries then
    { store with callbacks := store.callbacks.erase cb.gwMsgID }
  else
    let cb' := { cb with
      retries := cb.retries + 1
      nextAttempt := i.now + callbackDelay cb.retries }
    { store with
      callbackRetries := store.callbackRetries.insert
        (ascii "callback-retry:" ++ decimal cb'.nextAttempt ++ 58 :: cb.gwMsgID) cb'
      callbacks := store.callbacks.insert cb.gwMsgID cb' }

/-- `deliverDLRCallback` up to the POST: nothing without a registered
callback. -/
def callbackActions (s : Gateway) (now : Time) (gwMsgID status toAddr fromAddr : Bytes) :
    List Action :=
  match s.store.callbacks.find? gwMsgID with
  | none => []
  | some cb =>
    [.record (.postCallback cb ⟨gwMsgID, status, toAddr, fromAddr, cb.reference, now⟩)]

/-- Records and correlation tables. -/
def execRecord (cfg : RouterConfig) (s : Gateway) (i : Input) :
    RecordAction → Option GatewayEffect
  | .storeSubmit r =>
    some { state := { s with
      store := { s.store with submits := s.store.submits.storeSubmit r } } }
  | .deleteSubmitByGwID gwMsgID =>
    some { state := { s with
      store := { s.store with submits := s.store.submits.deleteSubmitByGwID gwMsgID } } }
  | .setMessageStatus st =>
    some { state := { s with store := s.store.setMessageStatus { st with updatedAt := i.now } } }
  | .setCallback cb =>
    some { state := { s with
      store := { s.store with callbacks := s.store.callbacks.insert cb.gwMsgID cb } } }
  | .logMessage e =>
    some { state := { s with
      store := s.store.logMessage { e with createdAt := i.now, updatedAt := i.now } } }
  | .updateMessageLog gwMsgID u =>
    match s.store.log.find? gwMsgID with
    | none => some { state := s }
    | some e => some { state := s, next := [.record (.writeLog gwMsgID (u.apply e i.now))] }
  | .writeLog gwMsgID e =>
    some { state := { s with store := s.store.writeLog gwMsgID e } }
  | .deliverDLRCallback gwMsgID status toAddr fromAddr =>
    some { state := s, next := callbackActions s i.now gwMsgID status toAddr fromAddr }
  | .postCallback cb payload =>
    some
      { state := { s with store := postCallback s.store i cb }
        seen := [.postedDLR cb.callbackURL payload] }
  | .deleteGwCorrelation gwMsgID =>
    some { state := { s with gwCorrelation := s.gwCorrelation.erase gwMsgID } }
  | .batchWriteLoop =>
    (if i.tick then some s.store.submits.flush else s.store.submits.receive).map fun submits =>
      { state := { s with store := { s.store with submits } }
        next := [.record .batchWriteLoop] }
  | .cleanup => some { state := { s with store := s.store.cleanup (i.now - cfg.messageTTL) } }
  | .cleanupCorrelations =>
    -- collect the expired keys first, delete them one by one afterwards
    let cutoff : ℤ := i.now - cfg.correlationAge
    let expired := s.smscCorrelation.entries.filter fun e => e.2.submittedAt < cutoff
    some
      { state := s
        next := (expired.map fun e => .record (.expireSmsc e.1)) ++ [.record (.collectGw cutoff)] }
  | .expireSmsc smscMsgID =>
    some { state := { s with smscCorrelation := s.smscCorrelation.erase smscMsgID } }
  | .collectGw cutoff =>
    let expired := s.gwCorrelation.entries.filter fun e => e.2.submittedAt < cutoff
    some { state := s, next := expired.map fun e => .record (.expireGw e.1) }
  | .expireGw gwMsgID =>
    some { state := { s with gwCorrelation := s.gwCorrelation.erase gwMsgID } }

/-! ## Receipts and MO messages -/

/-- `handleDLR` once the correlation is found. For a REST message the
callback is the delivery; for an engine the receipt goes to
`deliverWithGrace` under the gateway's message id. -/
def routeReceipt (s : Gateway) (n : ℕ) (r : Receipt) (corr : Correlation) : GatewayEffect :=
  let log := Action.back (.settle r corr .updateMessageLog)
  if corr.northConnID = restApi then
    { state := s
      next := [log, .back (.settle r corr .deliverDLRCallback),
        .back (.settle r corr .setMessageStatus), .back (.settle r corr .deleteSmscCorrelation),
        .back (.settle r corr .deleteGwCorrelation), .back (.settle r corr .deleteSubmit)]
      seen := [.matched n (.rest corr), .released corr.gwMsgID] }
  else
    let it : Item :=
      ⟨.receipt corr.northConnID, r.sourceAddr, r.destAddr, r.esmClass,
        Smpp.translateDLRMessageID r.payload r.parsed.messageID corr.gwMsgID⟩
    let j : Job :=
      { item := s.tickets, connID := corr.northConnID, body := it.body, msisdn := corr.msisdn,
        esmClass := r.esmClass, sourceAddr := r.sourceAddr, destAddr := r.destAddr,
        retryID := corr.gwMsgID, isDLR := true, cause := .receipt r corr }
    { state := { s with tickets := s.tickets + 1 }
      next := [log, .back (.deliverToConn (.direct j) corr.northConnID)]
      seen := [.matched n (.smpp corr s.tickets), .item s.tickets (.took it)] }

/-- What `handleMO` hands to `deliverWithGrace` for a message. -/
def moJob (k : ℕ) (now : Time) (it : Item) (connID : Bytes) : Job :=
  { item := k, connID, body := it.body, msisdn := it.sourceAddr, esmClass := it.esmClass,
    sourceAddr := it.sourceAddr, destAddr := it.destAddr,
    retryID := ascii "mo-" ++ decimal now, isDLR := false, cause := .other }

/-- `handleMO`. -/
def handleMO (cfg : RouterConfig) (s : Gateway) (i : Input) (sourceAddr destAddr : Bytes)
    (esmClass : UInt8) (payload : Bytes) : GatewayEffect :=
  let it : Item := ⟨.mo, sourceAddr, destAddr, esmClass, payload⟩
  let job := moJob s.tickets i.now it
  let take (next : ReturnAction) : GatewayEffect :=
    { state := { s with tickets := s.tickets + 1 }
      next := [.back next]
      seen := [.read i.now, .item s.tickets (.took it)] }
  let byAffinity : GatewayEffect :=
    let connID := (s.msisdnAffinity.find? sourceAddr).getD (s.server.roundRobinConnID i.pick)
    -- an affinity entry is used even when it is the empty id
    if (s.msisdnAffinity.find? sourceAddr).isNone ∧ connID = [] then take (.buffer (job []))
    else take (.deliverToConn (.direct (job connID)) connID)
  match resolveMO cfg.moRoutes sourceAddr destAddr with
  | some route =>
    match route.targetType with
    | .http =>
      { state := s, seen := [.postedMO route.callbackURL sourceAddr destAddr payload] }
    | .smpp =>
      if route.targetConnID = [] then byAffinity
      else take (.deliverToConn (.direct (job route.targetConnID)) route.targetConnID)
    | .other => byAffinity
  | none => byAffinity

/-- The last steps of `handleDLR`. -/
def execSettle (s : Gateway) (i : Input) (r : Receipt) (corr : Correlation) :
    Settlement → GatewayEffect
  | .updateMessageLog =>
    let u : LogUpdate :=
      { status := if r.parsed.status = ascii "DELIVRD" then .delivered else .failed
        dlrStatus := some r.parsed.status }
    match s.store.log.find? corr.gwMsgID with
    | none => { state := s }
    | some e => { state := s, next := [.back (.settle r corr (.writeLog (u.apply e i.now)))] }
  | .writeLog e =>
    { state := { s with store := s.store.writeLog corr.gwMsgID e } }
  | .deliverDLRCallback =>
    { state := s
      next := callbackActions s i.now corr.gwMsgID r.parsed.status r.destAddr r.sourceAddr }
  | .setMessageStatus =>
    { state := { s with
        store := s.store.setMessageStatus
          { gwMsgID := corr.gwMsgID, toAddr := corr.msisdn, status := .delivered,
            dlrStatus := r.parsed.status, updatedAt := i.now } } }
  | .deleteSmscCorrelation =>
    { state := { s with smscCorrelation := s.smscCorrelation.erase r.parsed.messageID } }
  | .deleteGwCorrelation =>
    { state := { s with gwCorrelation := s.gwCorrelation.erase corr.gwMsgID } }
  | .deleteSubmit =>
    { state := { s with
        store := { s.store with submits := s.store.submits.deleteSubmit r.parsed.messageID } } }

/-! ## Deliveries -/

namespace Caller

/-- The item a call of `DeliverToConn` is about. -/
def item : Caller → ℕ
  | direct j => j.item
  | fallback j => j.item
  | redeliver e => e.item

/-- The body it sends. -/
def body : Caller → Bytes
  | direct j => j.body
  | fallback j => j.body
  | redeliver e => e.pending.pduBody

/-- What the caller does when the call returns an error. -/
def failed : Caller → List Action
  | direct j => [.back (.grace j)]
  | fallback j => [.back (.buffer j)]
  | redeliver e => [.back (.requeue e)]

/-- What the caller does when the engine has acknowledged: a receipt that
`handleDLR` delivered has its correlation cleaned up. -/
def acked : Caller → List Action
  | direct j | fallback j =>
    match j.cause with
    | .receipt r corr =>
      [.back (.settle r corr .deleteSmscCorrelation), .back (.settle r corr .deleteGwCorrelation),
        .back (.settle r corr .deleteSubmit), .back (.settle r corr .deliverDLRCallback)]
    | .other => []
  | redeliver _ => []

/-- The message whose correlation goes with an acknowledgement. -/
def releases : Caller → List Obs
  | direct j | fallback j =>
    match j.cause with
    | .receipt _ corr => [.released corr.gwMsgID]
    | .other => []
  | redeliver _ => []

end Caller

/-- The queue entry `deliverWithGrace` stores. -/
def Job.pending (j : Job) (now : Time) : PendingDeliver :=
  ⟨j.connID, j.msisdn, j.body, j.esmClass, j.sourceAddr, j.destAddr, now⟩

/-- `withinGrace`. -/
def withinGrace (cfg : RouterConfig) (s : Server) (now : Time) (connID : Bytes) : Prop :=
  ∃ t ∈ s.disconnects.find? connID, (now : ℤ) - t < cfg.reconnectGrace
  deriving Decidable

/-- The return side. -/
def execReturn (cfg : RouterConfig) (s : Gateway) (i : Input) :
    ReturnAction → Option GatewayEffect
  | .handleDeliver pool sourceAddr destAddr esmClass payload =>
    if Smpp.isDLR esmClass then
      match Smpp.parseDLRReceipt payload with
      | none => some { state := s }
      | some parsed =>
        let r : Receipt := ⟨pool, sourceAddr, destAddr, esmClass, payload, parsed⟩
        let s' := { s with arrivals := s.arrivals + 1 }
        let arrived := Obs.arrived s.arrivals pool parsed.messageID
        match s.smscCorrelation.find? parsed.messageID with
        | some corr => some ((routeReceipt s' s.arrivals r corr).after [arrived])
        | none =>
          some { state := s', next := [.back (.getSubmit s.arrivals r)], seen := [arrived] }
    else some (handleMO cfg s i sourceAddr destAddr esmClass payload)
  | .getSubmit n r =>
    match s.store.submits.getSubmit r.parsed.messageID with
    | some rec => some (routeReceipt s n r ⟨rec.gwMsgID, rec.northConnID, rec.msisdn, 0⟩)
    | none => some { state := s, seen := [.matched n .unknown] }
  | .settle r corr st => some (execSettle s i r corr st)
  | .deliverToConn c connID =>
    match s.server.getConnection connID with
    | none => some { state := s, next := c.failed }
    | some p => some { state := s, next := [.back (.write c connID p)] }
  | .write c _ p =>
    if i.written ∧ s.server.isClosed p = false then
      some { state := s, next := [.back (.await c)], seen := [.wrote p c.item c.body] }
    else some { state := s, next := c.failed }
  | .await c =>
    if i.acked then
      some { state := s, next := c.acked, seen := .item c.item .delivered :: c.releases }
    else some { state := s, next := c.failed }
  | .grace j =>
    if withinGrace cfg s.server i.now j.connID ∨ j.isDLR then
      some { state := s, next := [.back (.buffer j)] }
    else
      let fallbackID := s.server.roundRobinConnID i.pick
      if fallbackID = [] then some { state := s, next := [.back (.buffer j)] }
      else some { state := s, next := [.back (.deliverToConn (.fallback j) fallbackID)] }
  | .buffer j =>
    some
      { state := { s with store := s.store.enqueueRetry j.retryID j.item (j.pending i.now) }
        seen := [.item j.item (.buffered i.now)] }
  | .drainRetries =>
    let taken := retriesTaken i.now cfg.retryLimit s.store.retries
    let fresh := taken.filter fun e => ¬ Stale i.later cfg.maxRetryAge e.2.pending
    some
      { state := { s with
          store := { s.store with retries := s.store.retries.dropFirst taken.length } }
        next := fresh.map fun e => .back (.redeliver e.2)
        seen := [.read i.now, .read i.later] ++ taken.map fun e =>
          if Stale i.later cfg.maxRetryAge e.2.pending then .item e.2.item (.expired i.later)
          else .item e.2.item .drained }
  | .redeliver e =>
    let connID := e.pending.targetConnID
    if connID ≠ [] ∧ (s.server.getConnection connID).isSome then
      some { state := s, next := [.back (.deliverToConn (.redeliver e) connID)] }
    else if Smpp.isDLR e.pending.esmClass then
      some { state := s, next := [.back (.requeue e)] }
    else
      let fallbackID := s.server.roundRobinConnID i.pick
      if fallbackID = [] then some { state := s, next := [.back (.requeue e)] }
      else some { state := s, next := [.back (.deliverToConn (.redeliver e) fallbackID)] }
  | .requeue e =>
    some
      { state := { s with
          store := s.store.enqueueRetry (ascii "retry-" ++ decimal i.now) e.item e.pending }
        seen := [.read i.now, .item e.item .requeued] }

/-! ## The program -/

/-- Sessions. -/
def execServe (s : Gateway) (i : Input) : ServerAction → Option GatewayEffect
  | .accept => some { state := { s with server := s.server.accept } }
  | .bind p systemID config =>
    if s.server.isReading p then
      some { state := { s with server := s.server.onBind p systemID config } }
    else none
  | .disconnect p =>
    if s.server.isReading p then
      some
        { state := { s with server := s.server.disconnect p i.now }
          next := [.serve (.close p)] }
    else none
  | .close p => some { state := { s with server := s.server.close p } }

/-- Any action of the gateway. -/
def exec (cfg : RouterConfig) (s : Gateway) (i : Input) : Action → Option GatewayEffect
  | .submit a => execSubmit cfg s i a
  | .record a => execRecord cfg s i a
  | .back a => execReturn cfg s i a
  | .serve a => execServe s i a

/-- The actions a goroutine may begin with: requests, workers and loops. -/
def entry : Action → Bool
  | .submit (.handleSubmit ..) | .submit (.handleHTTPSubmit _)
  | .submit (.handleHTTPBatchSubmit _) | .submit .forwardWorker
  | .submit .drainSubmitRetries => true
  | .record .batchWriteLoop | .record .cleanup | .record .cleanupCorrelations => true
  | .back (.handleDeliver ..) | .back .drainRetries => true
  | .serve .accept | .serve (.bind ..) | .serve (.disconnect _) => true
  | _ => false

/-- The gateway under a configuration. -/
def gateway (cfg : RouterConfig) : Program Gateway Input Action Obs := ⟨entry, exec cfg⟩

/-- The configuration a gateway starts in. -/
def GatewayConf.start : GatewayConf := { shared := Gateway.start }

/-! ## Two short schedules -/

/-- Start the goroutine that becomes number `i` and run it once on each of the
inputs. -/
def goroutine (i : ℕ) (a : Action) (inputs : List Input) : List (Event Input Action) :=
  .start a :: inputs.map (.run i)

/-- The system id an engine binds with. -/
def engineID : Bytes := ascii "eng"

/-- Goroutines 0 to 2: an engine connects, binds and submits a message, which
ends up in `forwardCh`. -/
def engineSubmits : List (Event Input Action) :=
  goroutine 0 (.serve .accept) [{}] ++
  goroutine 1 (.serve (.bind 0 engineID none)) [{}] ++
  goroutine 2 (.submit (.handleSubmit engineID 7
    (Smpp.buildSubmitSMBody (ascii "100") (ascii "200") (ascii "hi")))) [{}, {}, {}, {}]

/-- Goroutine 0: the same by REST. -/
def restSubmits : List (Event Input Action) :=
  goroutine 0
    (.submit (.handleHTTPSubmit
      { toAddr := ascii "200", fromAddr := ascii "100", body := ascii "hi" }))
    [{}, {}, {}, {}, {}, {}]

end SmscGateway
