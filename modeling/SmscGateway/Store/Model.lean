import SmscGateway.Common.Utf8
import SmscGateway.Common.SortedMap

/-!
# The message store

The Pebble database behind the gateway. Its key namespaces are disjoint and
every iterator stays inside one, so each namespace is a map of its own, in
key order. Values are JSON: what is written is what reading it back gives,
which coerces strings that are not UTF-8. Only a callback record is kept as it
is: its strings come out of a JSON request.

Submit records are written through a channel and a batch; everything else,
deletions of submit records included, goes to the database at once.
-/

namespace SmscGateway

open SortedMap

/-- A clock reading in nanoseconds. -/
abbrev Time := ℕ

/-- The origin marker of messages that came in by REST. -/
def restApi : Bytes := ascii "rest-api"

/-! ## Records -/

/-- `SubmitRecord`. -/
structure SubmitRecord where
  gwMsgID : Bytes
  smscMsgID : Bytes
  northConnID : Bytes
  origSeqNum : UInt32
  msisdn : Bytes
  sourceAddr : Bytes
  payload : Bytes
  submittedAt : Time
  deriving DecidableEq

/-- `PendingSubmit`: a failed southbound submit that waits for a retry. -/
structure PendingSubmit where
  gwMsgID : Bytes
  connID : Bytes
  msisdn : Bytes
  sourceAddr : Bytes
  rawBody : Bytes
  retryCount : ℕ
  enqueuedAt : Time
  deriving DecidableEq

/-- `PendingDeliver`: a receipt or an MO message no engine took yet. -/
structure PendingDeliver where
  targetConnID : Bytes
  msisdn : Bytes
  pduBody : Bytes
  esmClass : UInt8
  sourceAddr : Bytes
  destAddr : Bytes
  enqueuedAt : Time
  deriving DecidableEq

/-- The lifecycle states of a status record and of a log entry. -/
inductive MessageState
  | accepted
  | forwarded
  | delivered
  | failed
  | rejected
  deriving DecidableEq

/-- `MessageStatus`. -/
structure MessageStatus where
  gwMsgID : Bytes
  toAddr : Bytes
  fromAddr : Bytes := []
  reference : Bytes := []
  status : MessageState
  dlrStatus : Bytes := []
  smscMsgID : Bytes := []
  updatedAt : Time := 0
  deriving DecidableEq

/-- `MessageLogEntry`. -/
structure MessageLogEntry where
  gwMsgID : Bytes
  smscMsgID : Bytes := []
  connID : Bytes
  sourceAddr : Bytes
  destAddr : Bytes
  status : MessageState
  dlrStatus : Bytes := []
  createdAt : Time := 0
  updatedAt : Time := 0
  deriving DecidableEq

/-- `CallbackRecord`. -/
structure CallbackRecord where
  gwMsgID : Bytes
  callbackURL : Bytes
  reference : Bytes
  retries : ℕ := 0
  nextAttempt : Time := 0
  deriving DecidableEq

/-- The record as `Unmarshal` reads it back. A `[]byte` survives any bytes,
a string only if it is UTF-8. -/
def SubmitRecord.json (r : SubmitRecord) : SubmitRecord :=
  { r with
    gwMsgID := jsonString r.gwMsgID
    smscMsgID := jsonString r.smscMsgID
    northConnID := jsonString r.northConnID
    msisdn := jsonString r.msisdn
    sourceAddr := jsonString r.sourceAddr }

@[inherit_doc SubmitRecord.json]
def PendingSubmit.json (p : PendingSubmit) : PendingSubmit :=
  { p with
    gwMsgID := jsonString p.gwMsgID
    connID := jsonString p.connID
    msisdn := jsonString p.msisdn
    sourceAddr := jsonString p.sourceAddr }

@[inherit_doc SubmitRecord.json]
def PendingDeliver.json (p : PendingDeliver) : PendingDeliver :=
  { p with
    targetConnID := jsonString p.targetConnID
    msisdn := jsonString p.msisdn
    sourceAddr := jsonString p.sourceAddr
    destAddr := jsonString p.destAddr }

@[inherit_doc SubmitRecord.json]
def MessageStatus.json (st : MessageStatus) : MessageStatus :=
  { st with
    gwMsgID := jsonString st.gwMsgID
    toAddr := jsonString st.toAddr
    fromAddr := jsonString st.fromAddr
    reference := jsonString st.reference
    dlrStatus := jsonString st.dlrStatus
    smscMsgID := jsonString st.smscMsgID }

@[inherit_doc SubmitRecord.json]
def MessageLogEntry.json (e : MessageLogEntry) : MessageLogEntry :=
  { e with
    gwMsgID := jsonString e.gwMsgID
    smscMsgID := jsonString e.smscMsgID
    connID := jsonString e.connID
    sourceAddr := jsonString e.sourceAddr
    destAddr := jsonString e.destAddr
    dlrStatus := jsonString e.dlrStatus }

/-! ## Keys -/

/-- `msg:{smscMsgID}`. -/
def msgKey (smscMsgID : Bytes) : Bytes := ascii "msg:" ++ smscMsgID

/-- `gw:{gwMsgID}`. -/
def gwKey (gwMsgID : Bytes) : Bytes := ascii "gw:" ++ gwMsgID

/-- `retry:%020d:%s`. -/
def retryKey (enqueuedAt : Time) (id : Bytes) : Bytes :=
  ascii "retry:" ++ (padded 20 enqueuedAt ++ 58 :: id)

/-- `submit-retry:%020d:%s`. -/
def submitRetryKey (enqueuedAt : Time) (gwMsgID : Bytes) : Bytes :=
  ascii "submit-retry:" ++ (padded 20 enqueuedAt ++ 58 :: gwMsgID)

/-- The two parts of a queue key can be read back. -/
theorem timedKey_inj {t t' : Time} {x y : Bytes}
    (h : padded 20 t ++ 58 :: x = padded 20 t' ++ 58 :: y) : t = t' ∧ x = y := by
  have hcolon : ¬ IsDigit 58 := fun h => absurd h.2 (by decide)
  obtain ⟨ht, hx⟩ := eq_of_digits_append hcolon (fun _ => isDigit_of_mem_padded)
    (fun _ => isDigit_of_mem_padded) h
  exact ⟨padded_injective 20 ht, hx⟩

theorem submitRetryKey_inj {t t' : Time} {x y : Bytes}
    (h : submitRetryKey t x = submitRetryKey t' y) : t = t' ∧ x = y :=
  timedKey_inj (List.append_cancel_left h)

theorem retryKey_inj {t t' : Time} {x y : Bytes} (h : retryKey t x = retryKey t' y) :
    t = t' ∧ x = y :=
  timedKey_inj (List.append_cancel_left h)

theorem msgKey_inj {s s' : Bytes} (h : msgKey s = msgKey s') : s = s' :=
  List.append_cancel_left h

theorem msgKey_ne_gwKey (s g : Bytes) : msgKey s ≠ gwKey g := by
  intro h
  have hhead : (109 : UInt8) = 103 := (List.cons.inj h).1
  exact absurd hhead (by decide)

/-- A submit record is kept under the SMSC's id once that is known, before
under the gateway's. -/
def SubmitRecord.key (r : SubmitRecord) : Bytes :=
  if r.smscMsgID = [] then gwKey r.gwMsgID else msgKey r.smscMsgID

/-! ## Submit records: the asynchronous writer -/

/-- `writeOp`. -/
structure WriteOp where
  key : Bytes
  data : SubmitRecord
  deriving DecidableEq

/-- The `msg:` and `gw:` namespaces with the writer in front of them: the
channel, and the batch `batchWriteLoop` has taken from it and not yet
committed. -/
structure Submits where
  db : SortedMap Bytes SubmitRecord
  writeCh : List WriteOp
  batch : List WriteOp
  closed : Bool
  deriving DecidableEq

/-- The capacity of `writeCh`. -/
def writeChCap : ℕ := 4096

/-- `maxBatch`. -/
def maxBatch : ℕ := 500

namespace Submits

/-- The store of a new process over an empty data directory. -/
def empty : Submits := ⟨SortedMap.empty, [], [], false⟩

/-- Does the next `StoreSubmit` go through the channel? -/
def Queues (s : Submits) : Prop := s.closed = false ∧ s.writeCh.length < writeChCap
  deriving Decidable

/-- `StoreSubmit`: through the channel, or at once when it is full or the
store is shutting down. -/
def storeSubmit (s : Submits) (r : SubmitRecord) : Submits :=
  if s.Queues then { s with writeCh := s.writeCh ++ [⟨r.key, r.json⟩] }
  else { s with db := s.db.insert r.key r.json }

/-- `GetSubmit`. -/
def getSubmit (s : Submits) (smppMsgID : Bytes) : Option SubmitRecord :=
  s.db.find? (msgKey smppMsgID)

/-- `DeleteSubmit`. -/
def deleteSubmit (s : Submits) (smscMsgID : Bytes) : Submits :=
  { s with db := s.db.erase (msgKey smscMsgID) }

/-- `DeleteSubmitByGwID`. -/
def deleteSubmitByGwID (s : Submits) (gwMsgID : Bytes) : Submits :=
  { s with db := s.db.erase (gwKey gwMsgID) }

/-- Commit a batch: later writes of a key overwrite earlier ones. -/
def commit (ops : List WriteOp) (db : SortedMap Bytes SubmitRecord) :
    SortedMap Bytes SubmitRecord :=
  ops.foldl (fun m op => m.insert op.key op.data) db

/-- The `flush` of `batchWriteLoop`. -/
def flush (s : Submits) : Submits := { s with db := commit s.batch s.db, batch := [] }

/-- `batchWriteLoop` receives one write, and flushes when the batch is
full. -/
def receive (s : Submits) : Option Submits :=
  match s.writeCh with
  | [] => none
  | op :: rest =>
    let s' := { s with writeCh := rest, batch := s.batch ++ [op] }
    some (if maxBatch ≤ s'.batch.length then s'.flush else s')

/-- The part of `Cleanup` that concerns submit records. Its iterators stop at
`msg:\xff` and `gw:\xff`, so the ids that begin with this byte stay. -/
def cleanup (s : Submits) (cutoff : ℤ) : Submits :=
  { s with db := s.db.filter fun k r =>
      msgKey [0xFF] <+: k ∨ gwKey [0xFF] <+: k ∨ cutoff ≤ r.submittedAt }

end Submits

/-! ## The retry queues -/

/-- A queue entry together with the number of the message it carries on the
return path, which no code reads. -/
structure Numbered where
  item : ℕ
  pending : PendingDeliver
  deriving DecidableEq

/-- The first entries of a drain: at most `limit`, all of them for
`limit ≤ 0`. -/
def upTo {α : Type} (limit : ℤ) (l : List α) : List α :=
  if 0 < limit then l.take limit.toNat else l

/-- `DrainSubmitRetries`: what is taken and what stays. -/
def drainSubmitRetries (limit : ℤ) (queue : SortedMap Bytes PendingSubmit) :
    List PendingSubmit × SortedMap Bytes PendingSubmit :=
  let taken := upTo limit queue.entries
  (taken.map Prod.snd, queue.dropFirst taken.length)

theorem prefix_upTo {α : Type} (limit : ℤ) (l : List α) : upTo limit l <+: l := by
  unfold upTo
  split
  · exact List.take_prefix _ _
  · exact List.prefix_refl l

/-- **A drain splits the queue**: nothing is lost and nothing is taken
twice. -/
theorem drainSubmitRetries_values (limit : ℤ) (queue : SortedMap Bytes PendingSubmit) :
    (drainSubmitRetries limit queue).1 ++ (drainSubmitRetries limit queue).2.values =
      queue.values := by
  have h := List.prefix_iff_eq_append.mp (prefix_upTo limit queue.entries)
  simp only [drainSubmitRetries, values, dropFirst, ← List.map_append, h]

/-- What stays after a drain was there before. -/
theorem find?_drainSubmitRetries {limit : ℤ} {queue : SortedMap Bytes PendingSubmit} {k : Bytes}
    {p : PendingSubmit} (h : (drainSubmitRetries limit queue).2.find? k = some p) :
    queue.find? k = some p :=
  mem_entries_iff.mp
    (mem_of_mem_dropFirst (mem_entries_iff.mpr h))

/-- What a `DrainRetries` pass removes: of the entries below the key of the
clock reading, the first `limit`. -/
def retriesTaken (upper : Time) (limit : ℤ) (queue : SortedMap Bytes Numbered) :
    List (Bytes × Numbered) :=
  upTo limit (queue.entries.takeWhile fun e => e.1 < retryKey upper [])

/-- `EnqueuedAt.Before(staleThreshold)`, the threshold being `maxAge` before
the clock reading. -/
def Stale (now : Time) (maxAge : ℤ) (p : PendingDeliver) : Prop := p.enqueuedAt + maxAge < now
  deriving Decidable

/-- The database and its writer. -/
structure MessageStore where
  submits : Submits
  retries : SortedMap Bytes Numbered
  submitRetries : SortedMap Bytes PendingSubmit
  /-- `status:{gwMsgID}`. -/
  status : SortedMap Bytes MessageStatus
  /-- `callback:{gwMsgID}`. -/
  callbacks : SortedMap Bytes CallbackRecord
  callbackRetries : SortedMap Bytes CallbackRecord
  /-- The log entry `logidx:{gwMsgID}` leads to. -/
  log : SortedMap Bytes MessageLogEntry
  deriving DecidableEq

namespace MessageStore

/-- The store of a new process over an empty data directory. -/
def empty : MessageStore :=
  ⟨.empty, .empty, .empty, .empty, .empty, .empty, .empty⟩

/-- `EnqueueRetry`. -/
def enqueueRetry (s : MessageStore) (id : Bytes) (item : ℕ) (p : PendingDeliver) : MessageStore :=
  { s with retries := s.retries.insert (retryKey p.enqueuedAt id) ⟨item, p.json⟩ }

/-- `EnqueueSubmitRetry`. -/
def enqueueSubmitRetry (s : MessageStore) (p : PendingSubmit) : MessageStore :=
  { s with submitRetries := s.submitRetries.insert (submitRetryKey p.enqueuedAt p.gwMsgID) p.json }

/-- `SetMessageStatus`. -/
def setMessageStatus (s : MessageStore) (st : MessageStatus) : MessageStore :=
  { s with status := s.status.insert st.gwMsgID st.json }

/-- The `Set` of a log entry in `LogMessage` and `UpdateMessageLog`. -/
def writeLog (s : MessageStore) (gwMsgID : Bytes) (e : MessageLogEntry) : MessageStore :=
  { s with log := s.log.insert gwMsgID e.json }

/-- `LogMessage`. -/
def logMessage (s : MessageStore) (e : MessageLogEntry) : MessageStore := s.writeLog e.gwMsgID e

/-- `Cleanup`. The ids of status records and log entries begin with a letter, so
the iterators reach them. -/
def cleanup (s : MessageStore) (cutoff : ℤ) : MessageStore :=
  { s with
    submits := s.submits.cleanup cutoff
    status := s.status.filter fun _ st => cutoff ≤ st.updatedAt
    log := s.log.filter fun _ e => cutoff ≤ e.updatedAt }

end MessageStore

end SmscGateway
