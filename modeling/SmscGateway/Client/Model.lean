import SmscGateway.Common.SortedMap
import SmscGateway.Common.Goroutine
import SmscGateway.Smpp.Wire
import SmscGateway.Smpp.DeliverSM

/-!
# The southbound client step by step

A `Client` is one SMPP connection to the SMSC, with the goroutines that share
it: callers of its request methods, `Connect`, `Close`, the `ReadLoop`, the
deliver workers and the keep-alive loop of each session. `Connect` replaces
the fields `conn`, `done` and `deliverQ` while goroutines of an earlier
session may still run. They read the fields without a lock, each time anew,
except for the workers, which were given their `done` and their queue.

A session is what one `Connect` made: a TCP connection, a `done` channel and
a queue. The fields are pointers into the list of sessions; the session at 0
is what `NewClient` made, which has no TCP connection. Response channels are
pointers into the list of all that were ever made.
-/

namespace SmscGateway

namespace Client

open Smpp

/-! ## State -/

/-- `BindMode`. -/
inductive BindMode
  | transceiver
  | transmitter
  | receiver
  deriving DecidableEq

/-- `bindCommandID`. -/
def bindCommandID : BindMode → UInt32
  | .transceiver => cmdBindTransceiver
  | .transmitter => cmdBindTransmitter
  | .receiver => cmdBindReceiver

/-- What a client is made with. The number of workers and the size of the
queue are positive: `NewClientWithWorkers` replaces others. -/
structure Config where
  /-- Is there a deliver handler? -/
  hasHandler : Bool := true
  deliverWorkers : ℕ
  deliverQueueSize : ℕ
  bindMode : BindMode := .transceiver
  /-- The body of the bind PDU. -/
  bindBody : Bytes := []
  deliverWorkers_pos : 0 < deliverWorkers
  deliverQueueSize_pos : 0 < deliverQueueSize

/-- A parameter that is not positive is replaced. -/
def positiveOr (n : ℤ) (other : ℕ) : ℕ := if n ≤ 0 then other else n.toNat

theorem positiveOr_pos {other : ℕ} (h : 0 < other) (n : ℤ) : 0 < positiveOr n other := by
  unfold positiveOr
  split <;> omega

/-- `NewClientWithWorkers`, with its defaults. -/
def newClientWithWorkers (hasHandler : Bool) (deliverWorkers deliverQueueSize : ℤ)
    (bindMode : BindMode) (bindBody : Bytes) : Config where
  hasHandler := hasHandler
  deliverWorkers := positiveOr deliverWorkers 8
  deliverQueueSize := positiveOr deliverQueueSize 25000
  bindMode := bindMode
  bindBody := bindBody
  deliverWorkers_pos := positiveOr_pos (by decide) _
  deliverQueueSize_pos := positiveOr_pos (by decide) _

/-- `deliverMessage`. -/
structure DeliverMessage where
  sourceAddr : Bytes
  destAddr : Bytes
  esmClass : UInt8
  payload : Bytes
  seqNum : UInt32
  deriving DecidableEq

/-- A `deliver_sm` that was dispatched: its message, its number among all of
them, and the session it was read from. -/
structure Arrival where
  ticket : ℕ
  session : ℕ
  msg : DeliverMessage
  deriving DecidableEq

/-- A session. -/
structure Session where
  /-- Did the client close the TCP connection? -/
  connClosed : Bool := false
  /-- Is its `done` channel closed? -/
  done : Bool := false
  deliverQ : List Arrival := []
  deriving DecidableEq

/-- A channel that `registerPending` made, with the sequence number it was
made for, everything that was sent on it, and how much of that was
received. -/
structure RespCh where
  seq : UInt32
  sent : List PDU := []
  taken : ℕ := 0
  deriving DecidableEq

/-- The channel takes a PDU without blocking: it holds one. -/
def RespCh.hasRoom (ch : RespCh) : Bool := ch.sent.length < ch.taken + 1

/-- The goroutines a client starts. -/
inductive Loop
  | worker (done deliverQ : ℕ)
  | readLoop
  | enquireLinkLoop
  deriving DecidableEq

/-- The shared state. -/
structure State where
  mu : Bool := false
  pendingMu : Bool := false
  conn : Option ℕ := none
  done : ℕ := 0
  deliverQ : ℕ := 0
  bound : Bool := false
  /-- How many sequence numbers `nextSeq` handed out. -/
  issued : ℕ := 0
  pending : SortedMap UInt32 ℕ := .empty
  respChs : List RespCh := []
  sessions : List Session := [{}]
  /-- What a `go` statement started and did not run yet. -/
  spawned : List Loop := []
  /-- How many `deliver_sm` were dispatched. -/
  arrivals : ℕ := 0
  deriving DecidableEq

namespace State

/-- The sequence number of the latest `nextSeq`, a `uint32` that wraps. -/
def seqNum (s : State) : UInt32 := UInt32.ofNat s.issued

/-- Is the `done` channel closed? -/
def isDone (s : State) (d : ℕ) : Bool := (s.sessions[d]?).any (·.done)

/-- What waits in a queue. -/
def queue (s : State) (q : ℕ) : List Arrival := ((s.sessions[q]?).map (·.deliverQ)).getD []

/-- Has a session's connection not been closed by the client? -/
def isOpen (s : State) (x : ℕ) : Bool := (s.sessions[x]?).any (!·.connClosed)

/-- Has the client's connection not been closed by the client? -/
def connOpen (s : State) : Bool := s.conn.any s.isOpen

def modifySession (s : State) (x : ℕ) (f : Session → Session) : State :=
  { s with sessions := s.sessions.modify x f }

def modifyCh (s : State) (ch : ℕ) (f : RespCh → RespCh) : State :=
  { s with respChs := s.respChs.modify ch f }

/-- `close(c.done)`. -/
def closeDone (s : State) : State := s.modifySession s.done fun x => { x with done := true }

/-- `conn.Close()` on a session. -/
def hangUp (s : State) (x : ℕ) : State :=
  s.modifySession x fun x => { x with connClosed := true }

/-- `c.conn.Close()`. -/
def closeConn (s : State) : State :=
  match s.conn with
  | some x => s.hangUp x
  | none => s

/-- `ch <- pdu`. -/
def send (s : State) (ch : ℕ) (pdu : PDU) : State :=
  s.modifyCh ch fun c => { c with sent := c.sent ++ [pdu] }

/-- Does a send on the channel go through at once? -/
def hasRoom (s : State) (ch : ℕ) : Bool := (s.respChs[ch]?).any RespCh.hasRoom

/-- What a receive on the channel returns now. -/
def nextIn (s : State) (ch : ℕ) : Option PDU := (s.respChs[ch]?).bind fun c => c.sent[c.taken]?

end State

/-! ## Actions -/

/-- The methods that send a request and wait for its response. -/
inductive Method
  | submit
  | submitRaw
  | querySM
  | cancelSM
  | replaceSM
  | broadcastSM
  | queryBroadcastSM
  | cancelBroadcastSM
  deriving DecidableEq

def Method.commandID : Method → UInt32
  | .submit | .submitRaw => cmdSubmitSM
  | .querySM => cmdQuerySM
  | .cancelSM => cmdCancelSM
  | .replaceSM => cmdReplaceSM
  | .broadcastSM => cmdBroadcastSM
  | .queryBroadcastSM => cmdQueryBroadcastSM
  | .cancelBroadcastSM => cmdCancelBroadcastSM

/-- A call of one of them with the body it encodes. -/
structure Request where
  method : Method
  body : Bytes
  deriving DecidableEq

/-- Who registers a response channel: `Connect`, for its bind on the
connection it dialled, or a request. -/
inductive Caller
  | connect (conn : ℕ)
  | request (r : Request)
  deriving DecidableEq

/-- The PDU a caller writes. -/
def Caller.pdu (cfg : Config) (seq : UInt32) : Caller → PDU
  | .connect _ => ⟨bindCommandID cfg.bindMode, statusOK, seq, cfg.bindBody⟩
  | .request r => ⟨r.method.commandID, statusOK, seq, r.body⟩

/-- What a caller gets. -/
inductive Outcome
  /-- Not bound, or already bound for `Connect`. -/
  | refused
  | dialFailed
  | sendFailed
  | answered (resp : PDU)
  | timedOut
  deriving DecidableEq

/-- Steps of a request method; the bind of `Connect` shares them. -/
inductive CallAction
  /-- The method locks and looks at `bound`. -/
  | begin (r : Request)
  | nextSeq (who : Caller)
  | registerPending (who : Caller) (seq : UInt32)
  | writePDU (who : Caller) (seq : UInt32) (ch : ℕ)
  /-- The `select` on the response and the timer. -/
  | await (who : Caller) (seq : UInt32) (ch : ℕ)
  /-- The caller gives up; this is what it returns then. -/
  | unregisterPending (who : Caller) (seq : UInt32) (outcome : Outcome)
  /-- `Connect` closes the connection it dialled and returns. -/
  | hangUp (conn : ℕ) (outcome : Outcome)
  deriving DecidableEq

/-- Steps of `Connect`, `Close` and `handleDisconnect`, which hold `mu`. -/
inductive LinkAction
  | connect
  | dial
  | setConn (x : ℕ)
  | setDone (x : ℕ)
  | setDeliverQ (x : ℕ)
  | startDeliverLoop (x : ℕ)
  | startReadLoop (x : ℕ)
  | close
  /-- `Close` writes its unbind. -/
  | writeUnbind (seq : UInt32)
  | closeDone
  | handleDisconnect
  /-- `handleDisconnect` takes `pendingMu`. -/
  | drainLock
  /-- A round of its loop over `pending`. -/
  | drain
  /-- `c.conn.Close()` and the unlocking of `mu`. -/
  | closeConn
  deriving DecidableEq

/-- A header, and how many bytes it says are to follow. -/
structure Header where
  commandID : UInt32
  commandStatus : UInt32
  sequenceNumber : UInt32
  rest : ℕ
  deriving DecidableEq

/-- The PDU of a header and a body. -/
def Header.pdu (h : Header) (body : Bytes) : PDU :=
  ⟨h.commandID, h.commandStatus, h.sequenceNumber, body⟩

/-- Steps of a `ReadLoop`. Each of its two reads looks `c.conn` up and then
waits on what it found there. -/
inductive ReadAction
  | readLoop
  | readPDU
  | readHeader (x : ℕ)
  /-- A header was read from session `x`, and a body is to follow. -/
  | readRest (x : ℕ) (h : Header)
  | readBody (x y : ℕ) (h : Header)
  /-- The read failed: is that a closing on purpose? -/
  | readFailed
  /-- A PDU whose header was read from session `x`. -/
  | dispatchPDU (x : ℕ) (pdu : PDU)
  | send (ch : ℕ) (pdu : PDU)
  deriving DecidableEq

/-- Steps of `enqueueDeliver` and of the deliver workers. -/
inductive DeliverAction
  | enqueueDeliver (a : Arrival)
  /-- The queue was full: `enqueueDeliver` comes to its second `select`. -/
  | enqueueSelect (a : Arrival)
  /-- It is blocked on the channels the fields pointed to. -/
  | enqueueBlocked (a : Arrival) (done deliverQ : ℕ)
  | worker (done deliverQ : ℕ)
  | handle (done deliverQ : ℕ) (a : Arrival)
  | respond (done deliverQ : ℕ) (a : Arrival) (ok : Bool)
  deriving DecidableEq

/-- Steps of `enquireLinkLoop`. -/
inductive KeepAction
  | enquireLinkLoop
  | writeEnquireLink (seq : UInt32)
  deriving DecidableEq

/-- An atomic action of a goroutine. -/
inductive Action
  /-- A goroutine that was started begins to run. -/
  | go
  | call (a : CallAction)
  | link (a : LinkAction)
  | read (a : ReadAction)
  | deliver (a : DeliverAction)
  | keep (a : KeepAction)
  deriving DecidableEq

/-- The first action of a loop. -/
def Loop.first : Loop → Action
  | .worker d q => .deliver (.worker d q)
  | .readLoop => .read .readLoop
  | .enquireLinkLoop => .keep .enquireLinkLoop

/-- What a read of `ReadLoop` returns. -/
inductive Incoming
  | header (h : Header)
  /-- A header whose `command_length` is less than a header. -/
  | badLength
  | headerFailed
  | body (b : Bytes)
  | bodyFailed
  deriving DecidableEq

/-- What the environment contributes. -/
structure Input where
  /-- Which started goroutine begins to run. -/
  spawned : ℕ := 0
  dialed : Bool := true
  /-- Does the TCP connection take the write? -/
  written : Bool := true
  /-- Is it the timer, or the context, that the caller's `select` sees? -/
  timedOut : Bool := false
  incoming : Incoming := .headerFailed
  /-- Which channel a `select` takes when `done` is closed and another one is
  ready, too. -/
  stop : Bool := false
  /-- The entry that the loop over `pending` comes to. -/
  seq : UInt32 := 0
  /-- Does the deliver handler return an error? -/
  handlerErr : Bool := false
  deriving DecidableEq

/-- What happens to a `deliver_sm`. -/
inductive DeliverLabel
  | dispatched (a : Arrival)
  | queued
  /-- The session was over before it could be queued. -/
  | dropped
  | taken
  /-- The handler returned; without an error? -/
  | returned (ok : Bool)
  /-- A worker writes a response on a session. -/
  | attempted (conn : Option ℕ) (resp : PDU)
  deriving DecidableEq

/-- What an observer sees. -/
inductive Obs
  /-- A write on a session's connection, and whether it went through. -/
  | wrote (conn : Option ℕ) (pdu : PDU) (ok : Bool)
  /-- A PDU is read from a session's connection, all of it. -/
  | read (conn : ℕ) (pdu : PDU)
  /-- A response channel leaves `pending` otherwise than by the drain. -/
  | left (ch : ℕ)
  /-- A request returns; `none` is `Connect`. -/
  | returned (who : Option Request) (outcome : Outcome)
  | deliver (ticket : ℕ) (l : DeliverLabel)
  deriving DecidableEq

/-! ## Steps -/

abbrev ClientEffect := Effect State Action Obs

/-- Does `writePDU` return without an error? -/
def State.writes (s : State) (i : Input) : Bool := i.written && s.connOpen

/-- What a caller does when it gets no response; `Connect` does not
unregister. -/
def giveUp (seq : UInt32) : Caller → Action
  | .connect x => .call (.hangUp x .timedOut)
  | .request r => .call (.unregisterPending (.request r) seq .timedOut)

def execCall (cfg : Config) (s : State) (i : Input) : CallAction → Option ClientEffect
  | .begin r =>
    if s.mu then none
    else if s.bound then some { state := s, next := [.call (.nextSeq (.request r))] }
    else some { state := s, seen := [.returned (some r) .refused] }
  | .nextSeq who =>
    let s := { s with issued := s.issued + 1 }
    some { state := s, next := [.call (.registerPending who s.seqNum)] }
  | .registerPending who seq =>
    if s.pendingMu then none
    else
      some
        { state := { s with
            pending := s.pending.insert seq s.respChs.length
            respChs := s.respChs ++ [{ seq }] }
          next := [.call (.writePDU who seq s.respChs.length)]
          seen := (s.pending.find? seq).toList.map .left }
  | .writePDU who seq ch =>
    if s.writes i then
      some
        { state := s
          next := [.call (.await who seq ch)]
          seen := [.wrote s.conn (who.pdu cfg seq) true] }
    else
      some
        { state := s
          next := [.call (.unregisterPending who seq .sendFailed)]
          seen := [.wrote s.conn (who.pdu cfg seq) false] }
  | .await who seq ch =>
    if i.timedOut then
      some { state := s, next := [giveUp seq who] }
    else
      match s.nextIn ch with
      | none => none
      | some resp =>
        let s := s.modifyCh ch fun c => { c with taken := c.taken + 1 }
        match who with
        | .request r => some { state := s, seen := [.returned (some r) (.answered resp)] }
        | .connect x =>
          if resp.commandStatus = statusOK then
            some
              { state := { s with
                  bound := true
                  mu := false
                  spawned := s.spawned ++ [.enquireLinkLoop] }
                seen := [.returned none (.answered resp)] }
          else some { state := s, next := [.call (.hangUp x (.answered resp))] }
  | .unregisterPending who seq outcome =>
    if s.pendingMu then none
    else
      let left := (s.pending.find? seq).toList.map .left
      let s := { s with pending := s.pending.erase seq }
      match who with
      | .connect x => some { state := s, next := [.call (.hangUp x outcome)], seen := left }
      | .request r => some { state := s, seen := left ++ [.returned (some r) outcome] }
  | .hangUp x outcome =>
    some { state := { s.hangUp x with mu := false }, seen := [.returned none outcome] }

/-- The error PDU that `handleDisconnect` sends. -/
def disconnectNack : PDU := ⟨cmdGenericNack, statusSysErr, 0, []⟩

def execLink (cfg : Config) (s : State) (i : Input) : LinkAction → Option ClientEffect
  | .connect =>
    if s.mu then none
    else if s.bound then some { state := s, seen := [.returned none .refused] }
    else some { state := { s with mu := true }, next := [.link .dial] }
  | .dial =>
    if i.dialed then
      some
        { state := { s with sessions := s.sessions ++ [{}] }
          next := [.link (.setConn s.sessions.length)] }
    else some { state := { s with mu := false }, seen := [.returned none .dialFailed] }
  | .setConn x => some { state := { s with conn := some x }, next := [.link (.setDone x)] }
  | .setDone x => some { state := { s with done := x }, next := [.link (.setDeliverQ x)] }
  | .setDeliverQ x =>
    some { state := { s with deliverQ := x }, next := [.link (.startDeliverLoop x)] }
  | .startDeliverLoop x =>
    some
      { state := { s with
          spawned := s.spawned ++ List.replicate cfg.deliverWorkers (.worker s.done s.deliverQ) }
        next := [.link (.startReadLoop x)] }
  | .startReadLoop x =>
    some
      { state := { s with spawned := s.spawned ++ [.readLoop] }
        next := [.call (.nextSeq (.connect x))] }
  | .close =>
    if s.mu then none
    else if s.bound then
      let s := { s with mu := true, issued := s.issued + 1 }
      some { state := s, next := [.link (.writeUnbind s.seqNum)] }
    else some { state := s }
  | .writeUnbind seq =>
    some
      { state := s
        next := [.link .closeDone]
        seen := [.wrote s.conn ⟨cmdUnbind, statusOK, seq, []⟩ (s.writes i)] }
  | .closeDone =>
    some { state := { s.closeDone with bound := false }, next := [.link .closeConn] }
  | .handleDisconnect =>
    if s.mu then none
    else if s.bound then
      some
        { state := { s.closeDone with mu := true, bound := false }
          next := [.link .drainLock] }
    else some { state := s }
  | .drainLock =>
    if s.pendingMu then none
    else some { state := { s with pendingMu := true }, next := [.link .drain] }
  | .drain =>
    if s.pending = .empty then
      some { state := { s with pendingMu := false }, next := [.link .closeConn] }
    else
      match s.pending.find? i.seq with
      | none => none
      | some ch =>
        if s.hasRoom ch then
          some
            { state := { s.send ch disconnectNack with pending := s.pending.erase i.seq }
              next := [.link .drain] }
        else none
  | .closeConn => some { state := { s.closeConn with mu := false } }

/-- The commands `dispatchPDU` takes to a response channel. -/
def responses : List UInt32 :=
  [cmdBindTransceiverResp, cmdBindTransmitterResp, cmdBindReceiverResp,
    cmdSubmitSMResp, cmdUnbindResp,
    cmdQuerySMResp, cmdCancelSMResp, cmdReplaceSMResp,
    cmdDataSMResp, cmdSubmitMultiResp,
    cmdBroadcastSMResp, cmdQueryBroadcastSMResp, cmdCancelBroadcastSMResp]

/-- The message `dispatchPDU` makes of a `deliver_sm`. -/
def deliverMessage (pdu : PDU) : DeliverMessage :=
  let f := parseDeliverSM pdu.body
  ⟨f.sourceAddr, f.destAddr, f.esmClass, f.shortMessage, pdu.sequenceNumber⟩

/-- `dispatchPDU`, and back to the loop. -/
def dispatchPDU (s : State) (i : Input) (x : ℕ) (pdu : PDU) : Option ClientEffect :=
  if pdu.commandID ∈ responses then
    if s.pendingMu then none
    else
      match s.pending.find? pdu.sequenceNumber with
      | some ch =>
        some
          { state := { s with pending := s.pending.erase pdu.sequenceNumber }
            next := [.read (.send ch pdu), .read .readLoop]
            seen := [.left ch] }
      | none => some { state := s, next := [.read .readLoop] }
  else if pdu.commandID = cmdDeliverSM then
    let a : Arrival := ⟨s.arrivals, x, deliverMessage pdu⟩
    some
      { state := { s with arrivals := s.arrivals + 1 }
        next := [.deliver (.enqueueDeliver a), .read .readLoop]
        seen := [.deliver s.arrivals (.dispatched a)] }
  else if pdu.commandID = cmdEnquireLink then
    some
      { state := s
        next := [.read .readLoop]
        seen := [.wrote s.conn ⟨cmdEnquireLinkResp, statusOK, pdu.sequenceNumber, []⟩
          (s.writes i)] }
  else if pdu.commandID = cmdUnbind then
    some
      { state := s
        next := [.link .handleDisconnect, .read .readLoop]
        seen := [.wrote s.conn ⟨cmdUnbindResp, statusOK, pdu.sequenceNumber, []⟩ (s.writes i)] }
  else
    -- an enquire_link_resp, or a command nothing is done about
    some { state := s, next := [.read .readLoop] }

def execRead (s : State) (i : Input) : ReadAction → Option ClientEffect
  | .readLoop => some { state := s, next := if s.isDone s.done then [] else [.read .readPDU] }
  | .readPDU => s.conn.map fun x => { state := s, next := [.read (.readHeader x)] }
  | .readHeader x =>
    match i.incoming with
    | .headerFailed => some { state := s, next := [.read .readFailed] }
    | .badLength =>
      if s.isOpen x then some { state := s, next := [.link .handleDisconnect] } else none
    | .header h =>
      if s.isOpen x then
        if h.rest = 0 then
          some
            { state := s
              next := [.read (.dispatchPDU x (h.pdu []))]
              seen := [.read x (h.pdu [])] }
        else some { state := s, next := [.read (.readRest x h)] }
      else none
    | .body _ | .bodyFailed => none
  | .readRest x h => s.conn.map fun y => { state := s, next := [.read (.readBody x y h)] }
  | .readBody x y h =>
    match i.incoming with
    | .bodyFailed => some { state := s, next := [.link .handleDisconnect] }
    | .body b =>
      if s.isOpen y ∧ b.length = h.rest then
        -- header and body may come from different connections
        some
          { state := s
            next := [.read (.dispatchPDU x (h.pdu b))]
            seen := if x = y then [.read x (h.pdu b)] else [] }
      else none
    | .header _ | .badLength | .headerFailed => none
  | .readFailed =>
    some { state := s, next := if s.isDone s.done then [] else [.link .handleDisconnect] }
  | .dispatchPDU x pdu => dispatchPDU s i x pdu
  | .send ch pdu => if s.hasRoom ch then some { state := s.send ch pdu } else none

/-- Put a message into a queue. -/
def push (s : State) (q : ℕ) (a : Arrival) : ClientEffect where
  state := s.modifySession q fun x => { x with deliverQ := x.deliverQ ++ [a] }
  seen := [.deliver a.ticket .queued]

/-- The session is over. -/
def discard (s : State) (a : Arrival) : ClientEffect where
  state := s
  seen := [.deliver a.ticket .dropped]

/-- The `select` of `enqueueDeliver` on `done` and a queue: either, when both
are ready; `none` when neither is. -/
def selectEnqueue (cfg : Config) (s : State) (i : Input) (d q : ℕ) (a : Arrival) :
    Option ClientEffect :=
  let hasRoom := decide ((s.queue q).length < cfg.deliverQueueSize)
  if s.isDone d && (i.stop || !hasRoom) then some (discard s a)
  else if hasRoom then some (push s q a)
  else none

/-- `deliver_sm_resp` for a message; `ok` when the handler returned nil. -/
def deliverResp (a : Arrival) (ok : Bool) : PDU :=
  encodeDeliverSMRespWithStatus a.msg.seqNum (if ok then statusOK else statusSysErr)

def execDeliver (cfg : Config) (s : State) (i : Input) : DeliverAction → Option ClientEffect
  | .enqueueDeliver a =>
    match selectEnqueue cfg s i s.done s.deliverQ a with
    | some r => some r
    | none => some { state := s, next := [.deliver (.enqueueSelect a)] }
  | .enqueueSelect a =>
    some { state := s, next := [.deliver (.enqueueBlocked a s.done s.deliverQ)] }
  | .enqueueBlocked a d q => selectEnqueue cfg s i d q a
  | .worker d q =>
    if s.isDone d && (i.stop || (s.queue q).isEmpty) then some { state := s }
    else
      match s.queue q with
      | [] => none
      | a :: rest =>
        some
          { state := s.modifySession q fun x => { x with deliverQ := rest }
            next := [.deliver (.handle d q a)]
            seen := [.deliver a.ticket .taken] }
  | .handle d q a =>
    let ok := !(cfg.hasHandler && i.handlerErr)
    some
      { state := s
        next := [.deliver (.respond d q a ok)]
        seen := [.deliver a.ticket (.returned ok)] }
  | .respond d q a ok =>
    some
      { state := s
        next := [.deliver (.worker d q)]
        seen := [.wrote s.conn (deliverResp a ok) (s.writes i),
          .deliver a.ticket (.attempted s.conn (deliverResp a ok))] }

def execKeep (s : State) (i : Input) : KeepAction → Option ClientEffect
  | .enquireLinkLoop =>
    if i.stop then if s.isDone s.done then some { state := s } else none
    else
      let s := { s with issued := s.issued + 1 }
      some { state := s, next := [.keep (.writeEnquireLink s.seqNum)] }
  | .writeEnquireLink seq =>
    some
      { state := s
        next := if s.writes i then [.keep .enquireLinkLoop] else []
        seen := [.wrote s.conn ⟨cmdEnquireLink, statusOK, seq, []⟩ (s.writes i)] }

/-- Execute an action. -/
def exec (cfg : Config) (s : State) (i : Input) : Action → Option ClientEffect
  | .go =>
    match s.spawned[i.spawned]? with
    | none => none
    | some l =>
      some { state := { s with spawned := s.spawned.eraseIdx i.spawned }, next := [l.first] }
  | .call a => execCall cfg s i a
  | .link a => execLink cfg s i a
  | .read a => execRead s i a
  | .deliver a => execDeliver cfg s i a
  | .keep a => execKeep s i a

/-- What the users of a client may call at any time, and started
goroutines. -/
def entry : Action → Bool
  | .go | .call (.begin _) | .link .connect | .link .close => true
  | _ => false

/-- The client as a program. -/
def program (cfg : Config) : Program State Input Action Obs where
  entry := entry
  exec := exec cfg

abbrev ClientConf := Conf State Action Obs

/-- A new client. -/
def ClientConf.start : ClientConf := { shared := {} }

/-- What happens in some run. -/
abbrev Runs (cfg : Config) (c : ClientConf) : Prop :=
  (program cfg).Reaches Program.Anything ClientConf.start c

/-! ## Short schedules -/

/-- One worker and a queue of one. -/
def smallConfig : Config :=
  { deliverWorkers := 1
    deliverQueueSize := 1
    deliverWorkers_pos := Nat.one_pos
    deliverQueueSize_pos := Nat.one_pos }

/-- Where a schedule leads. -/
def reached (es : List (Event Input Action)) : ClientConf :=
  (program smallConfig).outcome Program.Anything ClientConf.start es

theorem runs_reached (es : List (Event Input Action))
    (h : ((program smallConfig).runs Program.Anything ClientConf.start es).isSome = true) :
    Runs smallConfig (reached es) :=
  (program smallConfig).reaches_outcome Program.Anything ClientConf.start es h

/-- Goroutine `i` takes `n` steps. -/
def steps (i n : ℕ) : List (Event Input Action) := List.replicate n (.run i {})

/-- The header of a PDU. -/
def headerOf (pdu : PDU) : Header :=
  ⟨pdu.commandID, pdu.commandStatus, pdu.sequenceNumber, pdu.body.length⟩

/-- The rest of a PDU, if there is any, comes in. -/
def readsRest (i : ℕ) (body : Bytes) : List (Event Input Action) :=
  if body = [] then [] else [.run i {}, .run i { incoming := .body body }]

/-- Goroutine `i`, a `ReadLoop`, reads a PDU and takes `n` steps on it. -/
def reads (i : ℕ) (pdu : PDU) (n : ℕ) : List (Event Input Action) :=
  steps i 2 ++ .run i { incoming := .header (headerOf pdu) } :: readsRest i pdu.body ++ steps i n

/-- A response without an error. -/
def response (commandID seq : UInt32) : PDU := { commandID, sequenceNumber := seq }

/-- `Connect` on goroutine `i` takes sequence number `seq`; the workers it
starts wait to run, its `ReadLoop` is goroutine `i + 1`. -/
def connects (i : ℕ) (seq : UInt32) : List (Event Input Action) :=
  .start (.link .connect) :: steps i 10 ++
    .start .go :: .run (i + 1) { spawned := smallConfig.deliverWorkers } ::
    reads (i + 1) (response cmdBindTransceiverResp seq) 2 ++ steps i 1

/-- A `submit_sm` goes out on goroutine `i`. -/
def submits (i : ℕ) : List (Event Input Action) :=
  .start (.call (.begin ⟨.submitRaw, []⟩)) :: steps i 4

end Client

end SmscGateway
