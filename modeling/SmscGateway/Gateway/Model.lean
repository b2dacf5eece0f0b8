import SmscGateway.Common.Goroutine
import SmscGateway.Gateway.Screen

/-!
# The gateway: state, actions, observations

The router's tables and queues, the store and the northbound server are one
shared state. Request handlers, forward workers, deliver workers, the drain
loops, the batch writer and the clean-up loops are goroutines over it. A
local variable of a goroutine is an argument of its actions.

Two counters, `tickets` and `arrivals`, number what passes through so that
observations can refer to it; no code reads them.
-/

namespace SmscGateway

/-! ## State -/

/-- `correlation`. -/
structure Correlation where
  gwMsgID : Bytes
  northConnID : Bytes
  msisdn : Bytes
  submittedAt : Time := 0
  deriving DecidableEq

/-- `forwardTask`. -/
structure ForwardTask where
  conn : Option ℕ
  gwMsgID : Bytes
  destAddr : Bytes
  sourceAddr : Bytes
  rawBody : Bytes
  deriving DecidableEq

/-- The shared state of the gateway. -/
structure Gateway where
  msgSeq : ℕ
  msisdnAffinity : SortedMap Bytes Bytes
  gwCorrelation : SortedMap Bytes Correlation
  smscCorrelation : SortedMap Bytes Correlation
  forwardCh : List ForwardTask
  server : Server
  store : MessageStore
  /-- How many messages the return path has taken on. -/
  tickets : ℕ
  /-- How many receipts were looked up. -/
  arrivals : ℕ
  deriving DecidableEq

/-- `nextMsgID` for the given value of the counter. -/
def gwMsgIDOf (n : ℕ) : Bytes := ascii "GW-" ++ decimal n

theorem gwMsgIDOf_injective : Function.Injective gwMsgIDOf := fun _ _ h =>
  decimal_injective (List.append_cancel_left h)

/-- A gateway id is ASCII, so JSON keeps it. -/
theorem jsonString_gwMsgIDOf (n : ℕ) : jsonString (gwMsgIDOf n) = gwMsgIDOf n :=
  jsonString_numbered (by decide) n

/-- A gateway that has just started on an empty data directory. -/
def Gateway.start : Gateway where
  msgSeq := 0
  msisdnAffinity := .empty
  gwCorrelation := .empty
  smscCorrelation := .empty
  forwardCh := []
  server := .empty
  store := .empty
  tickets := 0
  arrivals := 0

/-! ## What the environment contributes -/

/-- The outcome of one southbound attempt. A pool is known by a number. -/
inductive Attempt
  | noSubmitter
  | transportError
  | rejected
  | accepted (pool : ℕ) (smscMsgID : Bytes)
  deriving DecidableEq

/-- What one action reads from outside the shared state. -/
structure Input where
  /-- The clock, and a later reading of it by the same action. -/
  now : Time := 0
  later : Time := 0
  attempt : Attempt := .transportError
  /-- Did the write to the engine's socket succeed? -/
  written : Bool := true
  /-- Did the engine answer the `deliver_sm` with `StatusOK` in time? -/
  acked : Bool := true
  /-- The entry a map iteration meets first. -/
  pick : Bytes := []
  /-- Did the callback's server answer with a 2xx status? -/
  posted : Bool := true
  /-- Does the batch writer's ticker fire before its channel is read? -/
  tick : Bool := false
  deriving DecidableEq

/-! ## Observations -/

/-- Where a message came from. -/
inductive Origin
  | smpp (connID : Bytes)
  | rest
  deriving DecidableEq

/-- The connection id that stands for an origin. -/
def Origin.connID : Origin → Bytes
  | smpp id => id
  | rest => restApi

/-- What happens to an accepted message on its way south. -/
inductive Label
  | accepted (origin : Origin)
  | queued
  | overflowed
  | taken
  | attempted (outcome : Attempt)
  | enqueued (retryCount : ℕ)
  | drained
  | correlated
  | synthetic (connID : Bytes)
  deriving DecidableEq

/-- Why something is on the return path. The owner of a receipt is the
connection id it has to go back to. -/
inductive Kind
  | receipt (owner : Bytes)
  | synthetic (owner : Bytes)
  | mo
  deriving DecidableEq

/-- A message on the return path. -/
structure Item where
  kind : Kind
  sourceAddr : Bytes
  destAddr : Bytes
  esmClass : UInt8
  payload : Bytes
  deriving DecidableEq

/-- The `deliver_sm` body of an item. -/
def Item.body (it : Item) : Bytes :=
  Smpp.buildDeliverSMBody it.sourceAddr it.destAddr it.esmClass it.payload

/-- What happens to an item. -/
inductive ItemLabel
  | took (it : Item)
  | delivered
  | buffered (enqueuedAt : Time)
  | drained
  /-- Back in the queue, with the time it was first enqueued. -/
  | requeued
  | expired (now : Time)
  deriving DecidableEq

/-- How the look-up of a receipt ends. -/
inductive Match
  | unknown
  | rest (corr : Correlation)
  | smpp (corr : Correlation) (item : ℕ)
  deriving DecidableEq

/-- `DLRCallbackPayload`. -/
structure DLRCallbackPayload where
  id : Bytes
  status : Bytes
  toAddr : Bytes
  fromAddr : Bytes
  reference : Bytes
  timestamp : Time
  deriving DecidableEq

/-- What an observer of the gateway sees. -/
inductive Obs
  | message (gwMsgID : Bytes) (l : Label)
  /-- `submit_sm_resp` with `StatusOK`, or HTTP 202. -/
  | answered (gwMsgID : Bytes)
  | item (k : ℕ) (l : ItemLabel)
  /-- A `deliver_sm` goes out to a session. -/
  | wrote (conn : ℕ) (k : ℕ) (body : Bytes)
  /-- A receipt from a pool is looked up. -/
  | arrived (n : ℕ) (pool : ℕ) (smscMsgID : Bytes)
  | matched (n : ℕ) (m : Match)
  /-- A receipt was handed over and its correlation is about to go. -/
  | released (gwMsgID : Bytes)
  /-- A reading of the clock on the return path that no other observation
  shows. -/
  | read (t : Time)
  | postedDLR (url : Bytes) (payload : DLRCallbackPayload)
  | postedMO (url sourceAddr destAddr payload : Bytes)
  deriving DecidableEq

/-! ## Actions -/

/-- `SMSSubmitRequest`; what is absent from the JSON is empty or `none`. -/
structure SMSSubmitRequest where
  toAddr : Bytes
  fromAddr : Bytes
  body : Bytes
  encoding : Bytes := []
  callbackURL : Bytes := []
  reference : Bytes := []
  registeredDelivery : Option Bool := none
  deriving DecidableEq

/-- `SMSBatchRequest`. -/
structure SMSBatchRequest where
  messages : List SMSSubmitRequest
  callbackURL : Bytes := []
  referencePrefix : Bytes := []
  deriving DecidableEq

/-- The local variables of `forwardSubmitRaw`. -/
structure Forward where
  connID : Bytes
  gwMsgID : Bytes
  destAddr : Bytes
  sourceAddr : Bytes
  rawBody : Bytes
  deriving DecidableEq

/-- Who holds a message while it is tried southbound. -/
inductive Holder
  | worker
  | drainPass
  deriving DecidableEq

/-- The submit side: acceptance, forwarding, retries. -/
inductive SubmitAction
  | handleSubmit (connID : Bytes) (seqNum : UInt32) (body : Bytes)
  | handleHTTPSubmit (req : SMSSubmitRequest)
  | handleHTTPBatchSubmit (batch : SMSBatchRequest)
  /-- The loop over REST messages, with the ids given out so far. -/
  | acceptREST (rest : List SMSSubmitRequest) (ids : List Bytes)
  /-- The `select` that offers a task to `forwardCh`. -/
  | offer (task : ForwardTask) (connID : Bytes)
  | forwardWorker
  | forwardSubmitRaw (f : Forward)
  /-- `gwCorrelation.Get` after a successful response. -/
  | getCorrelation (f : Forward) (smscMsgID : Bytes)
  /-- `smscCorrelation.Set`. -/
  | setCorrelation (holder : Holder) (gwMsgID smscMsgID : Bytes) (corr : Correlation)
  | drainSubmitRetries
  | retrySubmit (p : PendingSubmit)
  deriving DecidableEq

/-- The `updater` of `UpdateMessageLog`. -/
structure LogUpdate where
  status : MessageState
  smscMsgID : Option Bytes := none
  dlrStatus : Option Bytes := none
  deriving DecidableEq

/-- Records of the store and entries of the correlation tables, written and
removed on behalf of a submit or by the clean-up loops. -/
inductive RecordAction
  | storeSubmit (r : SubmitRecord)
  | deleteSubmitByGwID (gwMsgID : Bytes)
  | setMessageStatus (st : MessageStatus)
  | setCallback (cb : CallbackRecord)
  | logMessage (e : MessageLogEntry)
  | updateMessageLog (gwMsgID : Bytes) (u : LogUpdate)
  | writeLog (gwMsgID : Bytes) (e : MessageLogEntry)
  | deliverDLRCallback (gwMsgID status toAddr fromAddr : Bytes)
  | postCallback (cb : CallbackRecord) (payload : DLRCallbackPayload)
  | deleteGwCorrelation (gwMsgID : Bytes)
  | batchWriteLoop
  | cleanup
  | cleanupCorrelations
  | expireSmsc (smscMsgID : Bytes)
  /-- The second phase of `CleanupCorrelations`. -/
  | collectGw (cutoff : ℤ)
  | expireGw (gwMsgID : Bytes)
  deriving DecidableEq

/-- A receipt as `handleDLR` got it from a pool, parsed. -/
structure Receipt where
  pool : ℕ
  sourceAddr : Bytes
  destAddr : Bytes
  esmClass : UInt8
  payload : Bytes
  parsed : Smpp.DLRReceipt
  deriving DecidableEq

/-- What is left to do once a receipt was matched: `handleDLR` after the
look-up, with the correlation it found. -/
inductive Settlement
  | updateMessageLog
  | writeLog (e : MessageLogEntry)
  | deliverDLRCallback
  | setMessageStatus
  | deleteSmscCorrelation
  | deleteGwCorrelation
  | deleteSubmit
  deriving DecidableEq

/-- A receipt that `deliverWithGrace` delivers, with its correlation. -/
inductive Cause
  | receipt (r : Receipt) (corr : Correlation)
  | other
  deriving DecidableEq

/-- The arguments of `deliverWithGrace`, and the item they are about. -/
structure Job where
  item : ℕ
  connID : Bytes
  body : Bytes
  msisdn : Bytes
  esmClass : UInt8
  sourceAddr : Bytes
  destAddr : Bytes
  retryID : Bytes
  isDLR : Bool
  cause : Cause
  deriving DecidableEq

/-- The three places that call `DeliverToConn`. -/
inductive Caller
  | direct (j : Job)
  | fallback (j : Job)
  | redeliver (e : Numbered)
  deriving DecidableEq

/-- The return side: receipts, MO messages, deliveries, the retry queue. -/
inductive ReturnAction
  | handleDeliver (pool : ℕ) (sourceAddr destAddr : Bytes) (esmClass : UInt8) (payload : Bytes)
  /-- The fallback look-up of receipt `n` in the store. -/
  | getSubmit (n : ℕ) (r : Receipt)
  | settle (r : Receipt) (corr : Correlation) (s : Settlement)
  /-- `DeliverToConn` reads the table of sessions. -/
  | deliverToConn (c : Caller) (connID : Bytes)
  /-- `DeliverToConn` writes to the session it read. -/
  | write (c : Caller) (connID : Bytes) (conn : ℕ)
  /-- `DeliverToConn` waits for the engine's answer. -/
  | await (c : Caller)
  /-- `deliverWithGrace` after the direct delivery failed. -/
  | grace (j : Job)
  | buffer (j : Job)
  | drainRetries
  | redeliver (e : Numbered)
  | requeue (e : Numbered)
  deriving DecidableEq

/-- Sessions come and go. -/
inductive ServerAction
  | accept
  | bind (conn : ℕ) (systemID : Bytes) (config : Option ConnectionConfig)
  | disconnect (conn : ℕ)
  | close (conn : ℕ)
  deriving DecidableEq

/-- An atomic action of a goroutine of the gateway. -/
inductive Action
  | submit (a : SubmitAction)
  | record (a : RecordAction)
  | back (a : ReturnAction)
  | serve (a : ServerAction)
  deriving DecidableEq

/-- A configuration of the gateway. -/
abbrev GatewayConf := Conf Gateway Action Obs

end SmscGateway
