import SmscGateway.Northbound.Model

/-!
# What a step of the northbound server can do

The branches of a session's handler (`SessionMoves`) and of the other
goroutines of the server (`NorthMoves`), each with what it finds and the effect
it has.
-/

namespace SmscGateway

namespace Northbound

open Smpp

variable {cfg : Config} {s : State} {i : Input}

/-- The `switch` of `ReadLoop` changes nothing itself. -/
theorem dispatch_state (s : State) (p n : ℕ) (pdu : PDU) : (dispatch s p n pdu).state = s := by
  unfold dispatch
  dsimp only
  repeat' split
  all_goals rfl

/-- **What a step of a session's handler does.** -/
inductive SessionMoves (cfg : Config) (s : State) (i : Input) (p : ℕ) :
    SessionAction → SessionEffect → Prop
  | handles :
      SessionMoves cfg s i p .handleConnection
        { state := s.modifyLink p fun l => { l with connConfigStore := s.connConfigStore }
          next := some .readLoop }
  | reads : SessionMoves cfg s i p .readLoop { state := s, next := some .readPDU }
  | stops : SessionMoves cfg s i p .readLoop { state := s, next := some .cleanUp }
  | eof (hpdu : i.pdu = none) :
      SessionMoves cfg s i p .readPDU { state := s, next := some .cleanUp }
  | readPDU (pdu : PDU) (hpdu : i.pdu = some pdu) :
      SessionMoves cfg s i p .readPDU
        { state := { s with reads := s.reads + 1 }
          next := (dispatch { s with reads := s.reads + 1 } p s.reads pdu).next
          seen := .read s.reads p pdu ::
            (dispatch { s with reads := s.reads + 1 } p s.reads pdu).seen }
  | handleBind (n : ℕ) (pdu : PDU) :
      SessionMoves cfg s i p (.handleBind n pdu)
        { state := { s with
            server := s.server.modify p fun c => { c with systemID := bindSystemID pdu } }
          next := some (.authenticate n pdu) }
  | rejects (n : ℕ) (pdu : PDU) (status : UInt32) :
      SessionMoves cfg s i p (.authenticate n pdu)
        { state := s
          next := some .readLoop
          seen := sendResponse p n (bindRespCommandID pdu.commandID) status
            pdu.sequenceNumber [0] }
  | authenticates (n : ℕ) (pdu : PDU) (link : Link) (connCfg : Option Auth.ClientConfig)
      (hlink : s.links[p]? = some link) (hcheck : checkBind cfg s.auth link pdu = .ok connCfg) :
      SessionMoves cfg s i p (.authenticate n pdu)
        { state := s, next := some (.acceptBind n pdu connCfg) }
  | acceptBind (n : ℕ) (pdu : PDU) (connCfg : Option Auth.ClientConfig) :
      SessionMoves cfg s i p (.acceptBind n pdu connCfg)
        { state := { s with
            server := s.server.modify p fun c =>
              { c with
                bound := true
                config := (connCfg.map Auth.ClientConfig.session).or c.config } }
          next := some (.onBind (bindSystemID pdu))
          seen := sendResponse p n (bindRespCommandID pdu.commandID) statusOK
            pdu.sequenceNumber (bindRespBody cfg) }
  | tooMany (systemID : Bytes) :
      SessionMoves cfg s i p (.onBind systemID)
        { state := { s with server := s.server.close p }, next := some .readLoop }
  | admits (systemID : Bytes) :
      SessionMoves cfg s i p (.onBind systemID) { state := s, next := some (.setID systemID) }
  | setID (systemID : Bytes) :
      SessionMoves cfg s i p (.setID systemID)
        { state := { s with server := s.server.modify p fun c => { c with id := systemID } }
          next := some (.register systemID) }
  | register (systemID : Bytes) :
      SessionMoves cfg s i p (.register systemID)
        { state := { s with server := s.server.register p systemID }, next := some .readLoop }
  | unanswered (n : ℕ) (connID : Bytes) (seqNum : UInt32)
      (hfind : s.server.getConnection connID = none) :
      SessionMoves cfg s i p (.onSubmit n connID seqNum) { state := s, next := some .readLoop }
  | submits (n : ℕ) (connID : Bytes) (seqNum : UInt32) (conn : ℕ)
      (hfind : s.server.getConnection connID = some conn) :
      SessionMoves cfg s i p (.onSubmit n connID seqNum)
        { state := s, next := some (.sendSubmitSMResp n conn seqNum) }
  | answers (n conn : ℕ) (seqNum : UInt32) :
      SessionMoves cfg s i p (.sendSubmitSMResp n conn seqNum)
        { state := s
          next := some .readLoop
          seen := sendResponse conn n cmdSubmitSMResp i.status seqNum (cString i.messageID) }
  | unclaimed (connID : Bytes) (seqNum status : UInt32) :
      SessionMoves cfg s i p (.onDeliverResp connID seqNum status)
        { state := s, next := some .readLoop }
  | responds (connID : Bytes) (seqNum status : UInt32) (conn : ℕ)
      (hfind : s.server.conns.find? connID = some conn) :
      SessionMoves cfg s i p (.onDeliverResp connID seqNum status)
        { state := s, next := some (.resolveDeliverResp conn seqNum status) }
  | resolves (conn : ℕ) (seqNum status : UInt32) :
      SessionMoves cfg s i p (.resolveDeliverResp conn seqNum status)
        { state := s.resolveDeliverResp conn seqNum status, next := some .readLoop }
  | cleanUp :
      SessionMoves cfg s i p .cleanUp
        { state := { s with server := s.server.disconnect p i.now }, next := some .close }
  | close :
      SessionMoves cfg s i p .close
        { state := { s with server := s.server.close p }, next := none }

theorem execSession_moves {p : ℕ} {a : SessionAction} {e : SessionEffect}
    (h : execSession cfg s i p a = some e) : SessionMoves cfg s i p a e := by
  cases a with
  | readLoop =>
    cases h
    split
    · exact .stops
    · exact .reads
  | readPDU =>
    simp only [execSession] at h
    split at h
    · cases h
      exact .eof ‹_›
    · obtain ⟨-, rfl⟩ := eq_of_refusal h
      rw [dispatch_state]
      exact .readPDU _ ‹_›
  | authenticate n pdu =>
    simp only [execSession] at h
    split at h
    · cases h
    · split at h <;> cases h
      · exact .rejects n pdu _
      · exact .authenticates n pdu _ _ ‹_› ‹_›
  | onBind systemID =>
    simp only [execSession] at h
    split at h <;> cases h
    · exact .tooMany systemID
    · exact .admits systemID
  | onSubmit n connID seqNum =>
    simp only [execSession] at h
    split at h <;> cases h
    · exact .unanswered n connID seqNum ‹_›
    · exact .submits n connID seqNum _ ‹_›
  | onDeliverResp connID seqNum status =>
    simp only [execSession] at h
    split at h <;> cases h
    · exact .unclaimed connID seqNum status
    · exact .responds connID seqNum status _ ‹_›
  | handleConnection | handleBind n pdu | acceptBind n pdu connCfg | setID systemID
  | register systemID | sendSubmitSMResp n conn seqNum | resolveDeliverResp conn seqNum status
  | cleanUp | close =>
    cases h
    constructor

/-- **What a step of the server does.** -/
inductive NorthMoves (cfg : Config) (s : State) (i : Input) : Action → NorthEffect → Prop
  | start : NorthMoves cfg s i .start { state := { s with listening := true } }
  | setConnConfigStore :
      NorthMoves cfg s i .setConnConfigStore { state := { s with connConfigStore := true } }
  | stop :
      NorthMoves cfg s i .stop { state := { s with listening := false, stopped := true } }
  | closeAll : NorthMoves cfg s i .closeAll { state := { s with server := s.server.closeAll } }
  | admin (a : Auth.Action) (e : Auth.AuthEffect)
      (he : Auth.exec cfg.crypto s.auth i.auth a = some e) :
      NorthMoves cfg s i (.admin a) { state := { s with auth := e.state }, next := e.next.map .admin }
  | accept (remoteIP : Bytes) :
      NorthMoves cfg s i (.accept remoteIP)
        { state := { s with server := s.server.accept, links := s.links ++ [{ remoteIP }] }
          next := [.session s.server.heap.length .handleConnection] }
  | session (p : ℕ) (a : SessionAction) (e : SessionEffect)
      (he : execSession cfg s i p a = some e) :
      NorthMoves cfg s i (.session p a)
        { state := e.state, next := (e.next.map (Action.session p)).toList, seen := e.seen }
  | undeliverable (connID body : Bytes) :
      NorthMoves cfg s i (.deliverToConn connID body) { state := s }
  | delivers (connID body : Bytes) (conn : ℕ)
      (hfind : s.server.getConnection connID = some conn) :
      NorthMoves cfg s i (.deliverToConn connID body)
        { state := s, next := [.registerDeliverWait conn body] }
  | registers (conn : ℕ) (body : Bytes) (link : Link) (hlink : s.links[conn]? = some link) :
      NorthMoves cfg s i (.registerDeliverWait conn body)
        { state := { s.modifyLink conn fun l =>
              { l with
                seqNum := link.seqNum + 1
                pendingDelivers := l.pendingDelivers.insert (link.seqNum + 1) s.waits.length } with
            waits := s.waits ++ [{ conn, seqNum := link.seqNum + 1 }] }
          next := [.writeDeliverSM conn s.waits.length (link.seqNum + 1) body] }
  | writes (conn ch : ℕ) (seqNum : UInt32) (body : Bytes) :
      NorthMoves cfg s i (.writeDeliverSM conn ch seqNum body)
        { state := s
          next := [.awaitDeliverResp conn ch seqNum]
          seen := [.wrote conn ⟨cmdDeliverSM, statusOK, seqNum, body⟩] }
  | unwritten (conn ch : ℕ) (seqNum : UInt32) (body : Bytes) :
      NorthMoves cfg s i (.writeDeliverSM conn ch seqNum body)
        { state := s.deletePending conn seqNum }
  | expires (conn ch : ℕ) (seqNum : UInt32) :
      NorthMoves cfg s i (.awaitDeliverResp conn ch seqNum)
        { state := s.deletePending conn seqNum }
  | acknowledged (conn ch : ℕ) (seqNum : UInt32) (w : Wait) (hw : s.waits[ch]? = some w)
      (hok : w.status = some statusOK) :
      NorthMoves cfg s i (.awaitDeliverResp conn ch seqNum)
        { state := s, seen := [.delivered conn seqNum] }
  | refused (conn ch : ℕ) (seqNum : UInt32) :
      NorthMoves cfg s i (.awaitDeliverResp conn ch seqNum) { state := s, seen := [] }
  | collects (w : Sweep) (conn : ℕ) (hconn : conn ∈ s.server.conns.values)
      (hbound : s.server.isBound conn = true) :
      NorthMoves cfg s i (.collect w conn) { state := s, next := [.sweep w conn] }
  | enquires (conn : ℕ) (link : Link) (seen : List Obs) (hlink : s.links[conn]? = some link)
      (hseen : seen = [.wrote conn ⟨cmdEnquireLink, statusOK, link.seqNum + 1, []⟩] ∨ seen = []) :
      NorthMoves cfg s i (.sweep .enquireLink conn)
        { state := s.modifyLink conn fun l => { l with seqNum := link.seqNum + 1 }, seen }
  | closes (conn : ℕ) :
      NorthMoves cfg s i (.sweep .close conn) { state := { s with server := s.server.close conn } }

theorem exec_northMoves {a : Action} {r : NorthEffect} (h : exec cfg s i a = some r) :
    NorthMoves cfg s i a r := by
  cases a with
  | start | setConnConfigStore | stop | closeAll =>
    cases h
    constructor
  | admin a =>
    obtain ⟨e, he, rfl⟩ := Option.map_eq_some_iff.mp h
    exact .admin a e he
  | accept remoteIP =>
    simp only [exec] at h
    obtain ⟨-, rfl⟩ := eq_of_guard h
    exact .accept remoteIP
  | session p a =>
    obtain ⟨e, he, rfl⟩ := Option.map_eq_some_iff.mp h
    exact .session p a e he
  | deliverToConn connID body =>
    simp only [exec] at h
    split at h <;> cases h
    · exact .undeliverable connID body
    · exact .delivers connID body _ ‹_›
  | registerDeliverWait conn body =>
    obtain ⟨link, hlink, rfl⟩ := Option.map_eq_some_iff.mp h
    exact .registers conn body link hlink
  | writeDeliverSM conn ch seqNum body =>
    simp only [exec] at h
    split at h <;> cases h
    · exact .writes conn ch seqNum body
    · exact .unwritten conn ch seqNum body
  | awaitDeliverResp conn ch seqNum =>
    simp only [exec] at h
    split at h
    · cases h
      exact .expires conn ch seqNum
    · split at h
      · cases h
      · rename_i status hstatus
        cases h
        split
        · rename_i hok
          obtain ⟨w, hw, hws⟩ := Option.bind_eq_some_iff.mp hstatus
          exact .acknowledged conn ch seqNum w hw (hok ▸ hws)
        · exact .refused conn ch seqNum
  | collect w conn =>
    simp only [exec] at h
    obtain ⟨hbound, rfl⟩ := eq_of_guard h
    exact .collects w conn hbound.1 hbound.2
  | sweep w conn =>
    cases w with
    | enquireLink =>
      obtain ⟨link, hlink, rfl⟩ := Option.map_eq_some_iff.mp h
      refine .enquires conn link _ hlink ?_
      split
      · exact Or.inl rfl
      · exact Or.inr rfl
    | close =>
      cases h
      exact .closes conn

end Northbound

end SmscGateway
