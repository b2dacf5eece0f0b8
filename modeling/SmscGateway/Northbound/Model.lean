import SmscGateway.Auth.Revocation
import SmscGateway.Smpp.Wire

/-!
# The northbound server step by step

The gateway's model takes a bind and a disconnect as one step each. Here they
are as many steps as other goroutines can see: a session is handled by one
goroutine, which reads a PDU, acts on it, and reads the next one, while
`DeliverToConn`, the sweeps of `RunEnquireLink` and `RunStaleChecker`, the
administration of client configurations and the start-up and shutdown of
`run` go on around it. Between any two steps anything else may happen.

The handler of a session is a goroutine with one pending action (`Action.session`):
what it does next is part of each step.
-/

namespace SmscGateway

/-- `onBind` under the lock: the old holder of the id is closed. -/
def Server.register (s : Server) (p : ℕ) (systemID : Bytes) : Server :=
  let s := match s.conns.find? systemID with
    | some old => s.close old
    | none => s
  { s with
    conns := s.conns.insert systemID p
    disconnects := s.disconnects.erase systemID }

/-- The end of `Stop`: every registered session is closed and the table is
made new. -/
def Server.closeAll (s : Server) : Server :=
  { s.conns.values.foldl Server.close s with conns := .empty }

namespace Northbound

open Smpp

/-! ## State -/

/-- The part of the configuration that binds read, and the primitives
`Authenticate` rests on. -/
structure Config where
  crypto : Auth.Crypto
  serverPassword : Bytes := []
  allowedEngines : List Bytes := []
  serverSystemID : Bytes := []
  smppVersion : Bytes := ascii "3.4"

/-- What a `Connection` has besides what the table's users read. -/
structure Link where
  /-- The host of the remote address. -/
  remoteIP : Bytes
  /-- Is the `ConnConfigStore` that `handleConnection` passes on not nil? -/
  connConfigStore : Bool := false
  seqNum : UInt32 := 0
  /-- The channels of outstanding `deliver_sm`, by sequence number. -/
  pendingDelivers : SortedMap UInt32 ℕ := .empty
  deriving DecidableEq

/-- A channel that `RegisterDeliverWait` made, with the `deliver_sm` it was
made for and the status in it. -/
structure Wait where
  conn : ℕ
  seqNum : UInt32
  status : Option UInt32 := none
  deriving DecidableEq

/-- The shared state. -/
structure State where
  server : Server := .empty
  /-- At the pointers of the sessions. -/
  links : List Link := []
  waits : List Wait := []
  /-- Does the listener accept connections? -/
  listening : Bool := false
  /-- Is the `connConfigStore` of the server not nil? -/
  connConfigStore : Bool := false
  /-- Is the channel `done` closed? -/
  stopped : Bool := false
  auth : Auth.Store
  /-- How many PDUs have been read. -/
  reads : ℕ := 0
  deriving DecidableEq

namespace State

/-- Change a session's link in place. -/
def modifyLink (s : State) (p : ℕ) (f : Link → Link) : State :=
  { s with links := s.links.modify p f }

/-- `pendingDelivers.Delete`. -/
def deletePending (s : State) (p : ℕ) (seqNum : UInt32) : State :=
  s.modifyLink p fun l => { l with pendingDelivers := l.pendingDelivers.erase seqNum }

/-- The channel that waits on a session for a sequence number. -/
def pending? (s : State) (p : ℕ) (seqNum : UInt32) : Option ℕ :=
  (s.links[p]?).bind fun l => l.pendingDelivers.find? seqNum

/-- `ResolveDeliverResp`. A channel gets one status, since `LoadAndDelete`
takes it off the map. -/
def resolveDeliverResp (s : State) (p : ℕ) (seqNum status : UInt32) : State :=
  match s.pending? p seqNum with
  | none => s
  | some ch =>
    let s := s.deletePending p seqNum
    { s with waits := s.waits.modify ch fun w => { w with status := some status } }

end State

/-! ## Binds -/

/-- `bindRespCommandID`. -/
def bindRespCommandID (cmdID : UInt32) : UInt32 :=
  if cmdID = cmdBindTransmitter then cmdBindTransmitterResp
  else if cmdID = cmdBindReceiver then cmdBindReceiverResp
  else cmdBindTransceiverResp

/-- `bindModeFromCommandID`. -/
def bindModeFromCommandID (cmdID : UInt32) : Auth.BindMode :=
  if cmdID = cmdBindTransmitter then .transmitter
  else if cmdID = cmdBindReceiver then .receiver
  else .transceiver

/-- Is this a request to bind? -/
def isBind (pdu : PDU) : Bool :=
  pdu.commandID = cmdBindTransceiver ∨ pdu.commandID = cmdBindTransmitter ∨
    pdu.commandID = cmdBindReceiver

/-- The system id of a bind request. -/
def bindSystemID (pdu : PDU) : Bytes := (readCString pdu.body).1

/-- Its password. -/
def bindPassword (pdu : PDU) : Bytes := (readCString (readCString pdu.body).2).1

/-- The path of `handleBind` without a `ConnConfigStore`: does the global
configuration let the engine in? -/
def legacyAccepts (cfg : Config) (systemID password : Bytes) : Bool :=
  (cfg.serverPassword = [] ∨ password = cfg.serverPassword) ∧
    (cfg.allowedEngines = [] ∨ systemID ∈ cfg.allowedEngines)

/-- The checks of `handleBind`: the status it rejects the request with, or the
client configuration it found, if it looked for one. -/
def checkBind (cfg : Config) (auth : Auth.Store) (link : Link) (pdu : PDU) :
    Except UInt32 (Option Auth.ClientConfig) :=
  let systemID := bindSystemID pdu
  let password := bindPassword pdu
  if link.connConfigStore then
    match Auth.authenticate cfg.crypto auth systemID password with
    | .found connCfg =>
      if connCfg.allowedIPs ≠ [] ∧ link.remoteIP ∉ connCfg.allowedIPs then
        .error statusInvBnd
      else if connCfg.allowedBindModes ≠ [] ∧
          (bindModeFromCommandID pdu.commandID).name ∉ connCfg.allowedBindModes then
        .error statusInvBnd
      else .ok (some connCfg)
    | .refused => .error statusInvPaswd
    | .notFound => .error statusInvBnd
  else if legacyAccepts cfg systemID password then .ok none
  else .error statusInvBnd

/-- The body of a positive bind response; for SMPP 5.0 with the TLV
`sc_interface_version`. -/
def bindRespBody (cfg : Config) : Bytes :=
  cString (if cfg.serverSystemID = [] then ascii "SMSCGW" else cfg.serverSystemID) ++
    if cfg.smppVersion = ascii "5.0" then [0x02, 0x10, 0x00, 0x01, 0x50] else []

/-! ## Actions -/

/-- What the handler of a session does next. -/
inductive SessionAction
  /-- `handleConnection` builds the `BindConfig`. -/
  | handleConnection
  /-- The top of `ReadLoop`: is the server stopped? -/
  | readLoop
  | readPDU
  | handleBind (n : ℕ) (pdu : PDU)
  /-- The checks of `handleBind`. -/
  | authenticate (n : ℕ) (pdu : PDU)
  /-- The end of `handleBind`: the positive response. -/
  | acceptBind (n : ℕ) (pdu : PDU) (connCfg : Option Auth.ClientConfig)
  /-- `onBind` counts binds. -/
  | onBind (systemID : Bytes)
  /-- `onBind` sets the id, without a lock. -/
  | setID (systemID : Bytes)
  /-- `onBind` under the lock. -/
  | register (systemID : Bytes)
  /-- `HandleSubmit` looks the session up by its id. -/
  | onSubmit (n : ℕ) (connID : Bytes) (seqNum : UInt32)
  /-- `HandleSubmit` answers on the session it found. -/
  | sendSubmitSMResp (n conn : ℕ) (seqNum : UInt32)
  /-- `onDeliverResp` looks the session up by its id. -/
  | onDeliverResp (connID : Bytes) (seqNum status : UInt32)
  | resolveDeliverResp (conn : ℕ) (seqNum status : UInt32)
  /-- The deferred function of `handleConnection`, under the lock. -/
  | cleanUp
  | close
  deriving DecidableEq

/-- What `RunEnquireLink` and `RunStaleChecker` do with the sessions they
collect. -/
inductive Sweep
  | enquireLink
  | close
  deriving DecidableEq

/-- An atomic action of a goroutine. -/
inductive Action
  /-- `server.Start` in `run`. -/
  | start
  | setConnConfigStore
  /-- `Stop` until the drain. -/
  | stop
  /-- `Stop` after the drain. -/
  | closeAll
  /-- A function of the credential stores. -/
  | admin (a : Auth.Action)
  | accept (remoteIP : Bytes)
  | session (p : ℕ) (a : SessionAction)
  | deliverToConn (connID body : Bytes)
  /-- `DeliverToConn` takes a sequence number and registers its channel. -/
  | registerDeliverWait (conn : ℕ) (body : Bytes)
  | writeDeliverSM (conn ch : ℕ) (seqNum : UInt32) (body : Bytes)
  /-- `DeliverToConn` waits for the engine's answer. -/
  | awaitDeliverResp (conn ch : ℕ) (seqNum : UInt32)
  /-- A sweep collects a bound session from the table. -/
  | collect (w : Sweep) (conn : ℕ)
  | sweep (w : Sweep) (conn : ℕ)
  deriving DecidableEq

/-- What the environment contributes. -/
structure Input where
  /-- The PDU that arrives; `none` when the connection is lost or what arrives
  is no PDU. -/
  pdu : Option PDU := none
  now : Time := 0
  /-- Does the TCP connection take the write? -/
  written : Bool := true
  /-- Have the ten seconds passed? -/
  expired : Bool := false
  /-- What `HandleSubmit` answers. -/
  status : UInt32 := statusOK
  messageID : Bytes := []
  auth : Auth.Input := {}

/-- What an observer sees. PDUs read are numbered, and an answer tells which
of them it is for. -/
inductive Obs
  | read (n conn : ℕ) (pdu : PDU)
  /-- A response to PDU `n` is written on a session. -/
  | answered (n conn : ℕ) (resp : PDU)
  /-- A request is written on a session. -/
  | wrote (conn : ℕ) (pdu : PDU)
  /-- `DeliverToConn` returns without an error. -/
  | delivered (conn : ℕ) (seqNum : UInt32)
  deriving DecidableEq

/-! ## Steps -/

/-- What a step of a session's handler does; it is over when nothing comes
next. -/
structure SessionEffect where
  state : State
  next : Option SessionAction
  seen : List Obs := []

/-- `sendResponse`. -/
def sendResponse (p n : ℕ) (cmdID status seqNum : UInt32) (body : Bytes) : List Obs :=
  [.answered n p ⟨cmdID, status, seqNum, body⟩]

/-- The `switch` of `ReadLoop`. -/
def dispatch (s : State) (p n : ℕ) (pdu : PDU) : SessionEffect :=
  let connID := s.server.idOf (some p)
  let seqNum := pdu.sequenceNumber
  if isBind pdu then { state := s, next := some (.handleBind n pdu) }
  else if pdu.commandID = cmdSubmitSM then
    if s.server.isBound p then { state := s, next := some (.onSubmit n connID seqNum) }
    else
      { state := s
        next := some .readLoop
        seen := sendResponse p n cmdSubmitSMResp statusInvBnd seqNum [0] }
  else if pdu.commandID = cmdEnquireLink then
    { state := s
      next := some .readLoop
      seen := sendResponse p n cmdEnquireLinkResp statusOK seqNum [] }
  else if pdu.commandID = cmdDeliverSMResp then
    { state := s, next := some (.onDeliverResp connID seqNum pdu.commandStatus) }
  else if pdu.commandID = cmdUnbind then
    { state := s
      next := some .cleanUp
      seen := sendResponse p n cmdUnbindResp statusOK seqNum [] }
  else
    { state := s
      next := some .readLoop
      seen := sendResponse p n cmdGenericNack statusInvCmdID seqNum [] }

/-- The `MaxBinds` of a session's client configuration, 0 for none. -/
def maxBinds (s : Server) (p : ℕ) : ℤ :=
  (((s.heap[p]?).bind Connection.config).map ConnectionConfig.maxBinds).getD 0

/-- The handler of a session. -/
def execSession (cfg : Config) (s : State) (i : Input) (p : ℕ) :
    SessionAction → Option SessionEffect
  | .handleConnection =>
    some
      { state := s.modifyLink p fun l => { l with connConfigStore := s.connConfigStore }
        next := some .readLoop }
  | .readLoop => some { state := s, next := some (if s.stopped then .cleanUp else .readPDU) }
  | .readPDU =>
    match i.pdu with
    | none => some { state := s, next := some .cleanUp }
    | some pdu =>
      if s.server.isClosed p then none
      else
        let r := dispatch { s with reads := s.reads + 1 } p s.reads pdu
        some { r with seen := .read s.reads p pdu :: r.seen }
  | .handleBind n pdu =>
    some
      { state := { s with
          server := s.server.modify p fun c => { c with systemID := bindSystemID pdu } }
        next := some (.authenticate n pdu) }
  | .authenticate n pdu =>
    match s.links[p]? with
    | none => none
    | some link =>
      match checkBind cfg s.auth link pdu with
      | .error status =>
        some
          { state := s
            next := some .readLoop
            seen := sendResponse p n (bindRespCommandID pdu.commandID) status
              pdu.sequenceNumber [0] }
      | .ok connCfg => some { state := s, next := some (.acceptBind n pdu connCfg) }
  | .acceptBind n pdu connCfg =>
    some
      { state := { s with
          server := s.server.modify p fun c =>
            { c with
              bound := true
              -- without a store the session keeps the configuration it has
              config := (connCfg.map Auth.ClientConfig.session).or c.config } }
        next := some (.onBind (bindSystemID pdu))
        seen := sendResponse p n (bindRespCommandID pdu.commandID) statusOK
          pdu.sequenceNumber (bindRespBody cfg) }
  | .onBind systemID =>
    if 0 < maxBinds s.server p ∧ maxBinds s.server p ≤ s.server.bindCount systemID then
      some { state := { s with server := s.server.close p }, next := some .readLoop }
    else some { state := s, next := some (.setID systemID) }
  | .setID systemID =>
    some
      { state := { s with server := s.server.modify p fun c => { c with id := systemID } }
        next := some (.register systemID) }
  | .register systemID =>
    some { state := { s with server := s.server.register p systemID }, next := some .readLoop }
  | .onSubmit n connID seqNum =>
    match s.server.getConnection connID with
    | none => some { state := s, next := some .readLoop }
    | some conn => some { state := s, next := some (.sendSubmitSMResp n conn seqNum) }
  | .sendSubmitSMResp n conn seqNum =>
    some
      { state := s
        next := some .readLoop
        seen := sendResponse conn n cmdSubmitSMResp i.status seqNum (cString i.messageID) }
  | .onDeliverResp connID seqNum status =>
    match s.server.conns.find? connID with
    | none => some { state := s, next := some .readLoop }
    | some conn => some { state := s, next := some (.resolveDeliverResp conn seqNum status) }
  | .resolveDeliverResp conn seqNum status =>
    some { state := s.resolveDeliverResp conn seqNum status, next := some .readLoop }
  | .cleanUp =>
    some { state := { s with server := s.server.disconnect p i.now }, next := some .close }
  | .close => some { state := { s with server := s.server.close p }, next := none }

/-- What a step does. -/
abbrev NorthEffect := Effect State Action Obs

/-- Any action. -/
def exec (cfg : Config) (s : State) (i : Input) : Action → Option NorthEffect
  | .start => some { state := { s with listening := true } }
  | .setConnConfigStore => some { state := { s with connConfigStore := true } }
  | .stop => some { state := { s with listening := false, stopped := true } }
  | .closeAll => some { state := { s with server := s.server.closeAll } }
  | .admin a =>
    (Auth.exec cfg.crypto s.auth i.auth a).map fun r =>
      { state := { s with auth := r.state }, next := r.next.map .admin }
  | .accept remoteIP =>
    if s.listening then
      some
        { state := { s with server := s.server.accept, links := s.links ++ [{ remoteIP }] }
          next := [.session s.server.heap.length .handleConnection] }
    else none
  | .session p a =>
    (execSession cfg s i p a).map fun r =>
      { state := r.state, next := (r.next.map (Action.session p)).toList, seen := r.seen }
  | .deliverToConn connID body =>
    match s.server.getConnection connID with
    | none => some { state := s }
    | some conn => some { state := s, next := [.registerDeliverWait conn body] }
  | .registerDeliverWait conn body =>
    (s.links[conn]?).map fun link =>
      let seqNum := link.seqNum + 1
      let ch := s.waits.length
      let s := s.modifyLink conn fun l =>
        { l with seqNum, pendingDelivers := l.pendingDelivers.insert seqNum ch }
      { state := { s with waits := s.waits ++ [{ conn, seqNum }] }
        next := [.writeDeliverSM conn ch seqNum body] }
  | .writeDeliverSM conn ch seqNum body =>
    if i.written ∧ s.server.isClosed conn = false then
      some
        { state := s
          next := [.awaitDeliverResp conn ch seqNum]
          seen := [.wrote conn ⟨cmdDeliverSM, statusOK, seqNum, body⟩] }
    else some { state := s.deletePending conn seqNum }
  | .awaitDeliverResp conn ch seqNum =>
    if i.expired then some { state := s.deletePending conn seqNum }
    else
      match (s.waits[ch]?).bind Wait.status with
      | none => none
      | some status =>
        some { state := s, seen := if status = statusOK then [.delivered conn seqNum] else [] }
  | .collect w conn =>
    if conn ∈ s.server.conns.values ∧ s.server.isBound conn then
      some { state := s, next := [.sweep w conn] }
    else none
  | .sweep .enquireLink conn =>
    (s.links[conn]?).map fun link =>
      { state := s.modifyLink conn fun l => { l with seqNum := link.seqNum + 1 }
        seen := if i.written ∧ s.server.isClosed conn = false then
            [.wrote conn ⟨cmdEnquireLink, statusOK, link.seqNum + 1, []⟩]
          else [] }
  | .sweep .close conn => some { state := { s with server := s.server.close conn } }

/-- Connections arrive, and deliveries, sweeps and administration begin, at
any time. -/
def entry : Action → Bool
  | .admin a => Auth.entry a
  | .accept _ | .deliverToConn .. | .collect .. => true
  | _ => false

/-- The northbound server under a configuration. -/
def program (cfg : Config) : Program State Input Action Obs := ⟨entry, exec cfg⟩

/-- A configuration of the server. -/
abbrev NorthConf := Conf State Action Obs

/-- The process starts over the credential stores in its data directory:
`run` starts the listener, attaches the store of client configurations, and
at last stops the server. -/
def NorthConf.start (auth : Auth.Store) : NorthConf :=
  { shared := { auth }, threads := [[.start, .setConnConfigStore, .stop, .closeAll]] }

/-! ## Short schedules -/

/-- A server without a password of its own. -/
def plainConfig : Config := { crypto := Auth.plainCrypto }

/-- Two system ids. -/
def alpha : Bytes := ascii "alpha"

@[inherit_doc alpha]
def beta : Bytes := ascii "beta"

/-- Both are clients, with their own names as passwords. -/
def clients : Auth.Store :=
  let client (password : Bytes) : Auth.ClientConfig := { password, enabled := true }
  { Auth.Store.empty with
    connConfigs := (SortedMap.empty.insert alpha (client alpha)).insert beta (client beta) }

/-- A request to bind. -/
def bindTransceiver (systemID password : Bytes) : PDU :=
  { commandID := cmdBindTransceiver, sequenceNumber := 1,
    body := cString systemID ++ cString password }

/-- Goroutine `i` takes `n` steps. -/
def steps (i n : ℕ) : List (Event Input Action) := List.replicate n (.run i {})

/-- An engine connects, and goroutine `i` handles it. -/
def connects (i : ℕ) (remoteIP : Bytes) : List (Event Input Action) :=
  .start (.accept remoteIP) :: steps i 2

/-- Goroutine `i` reads a PDU and takes `n` steps on it. -/
def reads (i : ℕ) (pdu : PDU) (n : ℕ) : List (Event Input Action) :=
  .run i {} :: .run i { pdu := some pdu } :: steps i n

/-- An engine binds successfully. -/
def binds (i : ℕ) (systemID : Bytes) : List (Event Input Action) :=
  reads i (bindTransceiver systemID systemID) 6

/-- An engine hangs up, and its session is cleaned up. -/
def hangsUp (i : ℕ) : List (Event Input Action) := steps i 4

end Northbound

end SmscGateway
