import SmscGateway.Common.Handlers
import SmscGateway.Northbound.Moves

/-!
# What a step of the northbound server does

Everything the results about the server need to know of its steps, from five
sides: what a step does to the sessions and their table (`ServerStep`), to the
channels of outstanding deliveries (`WaitStep`), what it shows (`Shown`), what
the handler of a session does next (`Follows`), and that a session has one
handler (`handlers`).
-/

namespace SmscGateway

open List Option

namespace Server

/-- A session is as it was, except that it may have become bound or closed. -/
def Same (s s' : Server) (p : ℕ) : Prop :=
  ∀ conn, s.heap[p]? = some conn → ∃ conn', s'.heap[p]? = some conn' ∧ conn'.id = conn.id ∧
    conn'.ended = conn.ended ∧ (conn.bound = true → conn'.bound = true)

theorem Same.refl (s : Server) (p : ℕ) : s.Same s p := fun conn h => ⟨conn, h, rfl, rfl, id⟩

variable {s : Server} {p q : ℕ}

theorem Same.trans {s' s'' : Server} (h : s.Same s' p) (h' : s'.Same s'' p) : s.Same s'' p := by
  intro conn hconn
  obtain ⟨conn', hconn', hid, hended, hbound⟩ := h conn hconn
  obtain ⟨conn'', hconn'', hid', hended', hbound'⟩ := h' conn' hconn'
  exact ⟨conn'', hconn'', hid'.trans hid, hended'.trans hended, fun hb => hbound' (hbound hb)⟩

/-- A change of a session that leaves its id and its end alone. -/
def Harmless (f : Connection → Connection) : Prop :=
  ∀ conn, (f conn).id = conn.id ∧ (f conn).ended = conn.ended ∧
    (conn.bound = true → (f conn).bound = true)

theorem same_modify {f : Connection → Connection} (hf : Harmless f) (p : ℕ) :
    s.Same (s.modify q f) p := by
  intro conn hconn
  rw [heap_modify, hconn]
  by_cases hqp : q = p
  · exact ⟨f conn, by simp [hqp], hf conn⟩
  · exact ⟨conn, by simp [hqp], rfl, rfl, id⟩

/-- A change of one session leaves the others alone. -/
theorem same_modify_of_ne (f : Connection → Connection) (h : q ≠ p) : s.Same (s.modify q f) p := by
  intro conn hconn
  rw [heap_modify, hconn]
  exact ⟨conn, by simp [h], rfl, rfl, id⟩

theorem same_close (s : Server) (q p : ℕ) : s.Same (s.close q) p :=
  same_modify (f := fun c => { c with closed := true }) (fun _ => ⟨rfl, rfl, id⟩) p

theorem same_accept (s : Server) (p : ℕ) : s.Same s.accept p := by
  intro conn hconn
  refine ⟨conn, ?_, rfl, rfl, id⟩
  rw [accept, getElem?_append_left (List.getElem?_eq_some_iff.mp hconn).1]
  exact hconn

theorem same_register (s : Server) (q : ℕ) (systemID : Bytes) (p : ℕ) :
    s.Same (s.register q systemID) p := by
  unfold register
  split
  · exact same_close s _ p
  · exact Same.refl s p

theorem same_foldl_close (l : List ℕ) (s : Server) (p : ℕ) : s.Same (l.foldl close s) p := by
  induction l generalizing s with
  | nil => exact Same.refl s p
  | cons q l ih => exact (same_close s q p).trans (ih (s.close q))

theorem heap_disconnect (s : Server) (p : ℕ) (now : Time) :
    (s.disconnect p now).heap = (s.modify p fun c => { c with ended := true }).heap := by
  unfold disconnect
  dsimp only
  split <;> rfl

theorem same_disconnect_of_ne (s : Server) (now : Time) (h : q ≠ p) :
    s.Same (s.disconnect q now) p := by
  rw [Same, heap_disconnect]
  exact same_modify_of_ne _ h

end Server

namespace Northbound

open Smpp

/-! ## What a step does to the server -/

/-- The steps, by what they do to the sessions and their table. -/
inductive ServerStep (i : Input) (s : Server) : Action → Server → Prop
  | same {a : Action} : ServerStep i s a s
  | touch {a : Action} (q : ℕ) {f : Connection → Connection} (hf : Server.Harmless f)
      (hbound : ∀ conn, (f conn).bound = conn.bound) : ServerStep i s a (s.modify q f)
  | bind (p n : ℕ) (pdu : PDU) (connCfg : Option Auth.ClientConfig) {f : Connection → Connection}
      (hf : Server.Harmless f) :
      ServerStep i s (.session p (.acceptBind n pdu connCfg)) (s.modify p f)
  | accept (remoteIP : Bytes) : ServerStep i s (.accept remoteIP) s.accept
  | setID (p : ℕ) (systemID : Bytes) : ServerStep i s (.session p (.setID systemID))
      (s.modify p fun c => { c with id := systemID })
  | register (p : ℕ) (systemID : Bytes) :
      ServerStep i s (.session p (.register systemID)) (s.register p systemID)
  | cleanUp (p : ℕ) : ServerStep i s (.session p .cleanUp) (s.disconnect p i.now)
  | closeAll : ServerStep i s .closeAll s.closeAll

theorem ServerStep.close (i : Input) (s : Server) (a : Action) (q : ℕ) :
    ServerStep i s a (s.close q) :=
  .touch q (fun _ => ⟨rfl, rfl, id⟩) fun _ => rfl

theorem resolveDeliverResp_server (s : State) (p : ℕ) (seqNum status : UInt32) :
    (s.resolveDeliverResp p seqNum status).server = s.server := by
  unfold State.resolveDeliverResp
  split <;> rfl

variable {cfg : Config} {s : State} {i : Input}

variable {p : ℕ} {r : NorthEffect} {a : Action} {b : SessionAction} {pdu : PDU} {e : SessionEffect}
  {o : Obs}

/-- A step of a handler is a step of its session. -/
theorem exec_session {a : SessionAction} (h : exec cfg s i (.session p a) = some r) :
    ∃ e, execSession cfg s i p a = some e ∧ r.state = e.state ∧
      r.next = (e.next.map (Action.session p)).toList ∧ r.seen = e.seen := by
  obtain ⟨e, he, rfl⟩ := map_eq_some_iff.mp h
  exact ⟨e, he, rfl, rfl, rfl⟩

/-- **What a step does to the server.** -/
theorem exec_server (h : exec cfg s i a = some r) : ServerStep i s.server a r.state.server := by
  cases exec_northMoves h with
  | closeAll => exact .closeAll
  | accept remoteIP => exact .accept remoteIP
  | session p a e he =>
    cases execSession_moves he with
    | handleBind n pdu => exact .touch p (fun _ => ⟨rfl, rfl, id⟩) fun _ => rfl
    | acceptBind n pdu connCfg => exact .bind p n pdu connCfg fun _ => ⟨rfl, rfl, fun _ => rfl⟩
    | tooMany | close => exact .close _ _ _ p
    | setID systemID => exact .setID p systemID
    | register systemID => exact .register p systemID
    | resolves conn seqNum status =>
      dsimp only
      rw [resolveDeliverResp_server]
      exact .same
    | cleanUp => exact .cleanUp p
    | _ => exact .same
  | closes conn => exact .close _ _ _ conn
  | _ => exact .same

namespace ServerStep

variable {i : Input} {s s' : Server} {a : Action}

/-- Only its own handler gives a session another id, or ends it. -/
theorem same_of (h : ServerStep i s a s') (p : ℕ)
    (hset : ∀ systemID, a ≠ .session p (.setID systemID)) (hclean : a ≠ .session p .cleanUp) :
    s.Same s' p := by
  cases h with
  | same => exact Server.Same.refl s p
  | touch q hf hbound => exact Server.same_modify hf p
  | bind q n pdu connCfg hf => exact Server.same_modify hf p
  | accept remoteIP => exact Server.same_accept s p
  | setID q systemID =>
    exact Server.same_modify_of_ne _ fun hqp => hset systemID (by rw [hqp])
  | register q systemID => exact Server.same_register s q systemID p
  | cleanUp q => exact Server.same_disconnect_of_ne s _ fun hqp => hclean (by rw [hqp])
  | closeAll => exact Server.same_foldl_close _ s p

theorem length_le (h : ServerStep i s a s') : s.heap.length ≤ s'.heap.length := by
  have hmod : ∀ (t : Server) (q : ℕ) (f : Connection → Connection),
      (t.modify q f).heap.length = t.heap.length := fun t q f => by simp [Server.modify]
  cases h with
  | same => exact le_rfl
  | touch q hf hbound => exact (hmod s q _).ge
  | bind q n pdu connCfg hf => exact (hmod s q _).ge
  | accept remoteIP => simp [Server.accept]
  | setID p systemID => exact (hmod s p _).ge
  | register p systemID =>
    unfold Server.register
    split
    · exact (hmod s _ _).ge
    · exact le_rfl
  | cleanUp p => exact (Server.heap_disconnect s p i.now ▸ hmod s p _).ge
  | closeAll =>
    have hfold : ∀ (l : List ℕ) (t : Server), (l.foldl Server.close t).heap.length = t.heap.length := by
      intro l
      induction l with
      | nil => exact fun _ => rfl
      | cons q l ih => exact fun t => (ih (t.close q)).trans (hmod t q _)
    exact (hfold _ s).ge

end ServerStep

/-! ## Handlers -/

/-- The session whose handler an action belongs to. -/
def owner : Action → Option ℕ
  | .session p _ => some p
  | _ => none

/-- How many sessions there are. -/
def sessions (s : State) : ℕ := s.server.heap.length

/-- **Where the actions of a handler come from**: from the handler, or from the
connection being accepted. -/
theorem exec_owner (h : exec cfg s i a = some r) : (∃ p b, a = .session p b) ∨
    (∃ remoteIP, a = .accept remoteIP ∧ r.state.server = s.server.accept ∧
      r.next = [.session s.server.heap.length .handleConnection]) ∨
    r.next.filterMap owner = [] := by
  cases exec_northMoves h with
  | session p b => exact .inl ⟨p, b, rfl⟩
  | accept remoteIP => exact .inr (.inl ⟨remoteIP, rfl, rfl, rfl⟩)
  | admin a e =>
    refine .inr (.inr ?_)
    simp [filterMap_map, Function.comp_def, owner]
  | _ => exact .inr (.inr rfl)

/-- The same for one action that a step puts next. -/
theorem session_of_next (h : exec cfg s i a = some r) (hb : .session p b ∈ r.next) :
    (∃ a' e, a = .session p a' ∧ execSession cfg s i p a' = some e ∧ r.state = e.state ∧
      r.seen = e.seen ∧ b ∈ e.next) ∨
    (∃ remoteIP, a = .accept remoteIP ∧ r.state.server = s.server.accept ∧
      p = s.server.heap.length ∧ b = .handleConnection) := by
  rcases exec_owner h with ⟨q, a', rfl⟩ | ⟨remoteIP, rfl, hserver, hnext⟩ | hnone
  · obtain ⟨e, he, hstate, hnext, hseen⟩ := exec_session h
    rw [hnext] at hb
    obtain ⟨b', hb', heq⟩ := map_eq_some_iff.mp (mem_toList.mp hb)
    obtain ⟨rfl, rfl⟩ := Action.session.inj heq
    exact .inl ⟨a', e, rfl, he, hstate, hseen, hb'⟩
  · rw [hnext] at hb
    obtain ⟨rfl, rfl⟩ := Action.session.inj (mem_singleton.mp hb)
    exact .inr ⟨remoteIP, rfl, hserver, rfl, rfl⟩
  · have hmem : p ∈ r.next.filterMap owner := mem_filterMap.mpr ⟨_, hb, rfl⟩
    rw [hnone] at hmem
    cases hmem

/-- A session is handled by one goroutine, action by action. -/
theorem handlers (cfg : Config) : Handlers (program cfg) owner sessions where
  entry a ha := by
    cases a with
    | session p a => cases ha
    | _ => rfl
  exec s i a r h := by
    refine ⟨(exec_server h).length_le, ?_⟩
    rcases exec_owner h with ⟨p, b, rfl⟩ | ⟨remoteIP, rfl, hserver, hnext⟩ | hnone
    · obtain ⟨e, -, -, hnext, -⟩ := exec_session h
      rw [hnext]
      refine .inl ?_
      cases e.next with
      | none => exact nil_sublist _
      | some b => exact List.Sublist.refl _
    · refine .inr ⟨by rw [hnext]; rfl, ?_⟩
      simp [sessions, hserver, Server.accept]
    · rw [hnone]
      exact .inl (nil_sublist _)

theorem serial_start (auth : Auth.Store) : Serial owner sessions (NorthConf.start auth) := by
  have hnone : (NorthConf.start auth).actions.filterMap owner = 0 := rfl
  refine ⟨hnone ▸ Multiset.nodup_zero, fun k hk => ?_⟩
  rw [hnone] at hk
  cases hk

/-! ## What a handler does next -/

/-- **Which action of a handler follows which**, with what the step found. -/
inductive Follows (cfg : Config) (s : State) (i : Input) (p : ℕ) :
    SessionAction → SessionAction → Prop
  | readLoop {a : SessionAction} : Follows cfg s i p a .readLoop
  | readPDU : Follows cfg s i p .readLoop .readPDU
  | cleanUp {a : SessionAction} (ha : a = .readLoop ∨ a = .readPDU) : Follows cfg s i p a .cleanUp
  | close : Follows cfg s i p .cleanUp .close
  | handleBind {pdu : PDU} (hpdu : i.pdu = some pdu) (hcmd : isBind pdu = true) :
      Follows cfg s i p .readPDU (.handleBind s.reads pdu)
  | onSubmit {pdu : PDU} (hpdu : i.pdu = some pdu) (hcmd : pdu.commandID = cmdSubmitSM) :
      Follows cfg s i p .readPDU
        (.onSubmit s.reads (s.server.idOf (some p)) pdu.sequenceNumber)
  | onDeliverResp {pdu : PDU} (hpdu : i.pdu = some pdu) (hcmd : pdu.commandID = cmdDeliverSMResp) :
      Follows cfg s i p .readPDU
        (.onDeliverResp (s.server.idOf (some p)) pdu.sequenceNumber pdu.commandStatus)
  | authenticate (n : ℕ) (pdu : PDU) : Follows cfg s i p (.handleBind n pdu) (.authenticate n pdu)
  | acceptBind {n : ℕ} {pdu : PDU} {link : Link} {connCfg : Option Auth.ClientConfig}
      (hlink : s.links[p]? = some link) (hcheck : checkBind cfg s.auth link pdu = .ok connCfg) :
      Follows cfg s i p (.authenticate n pdu) (.acceptBind n pdu connCfg)
  | onBind (n : ℕ) (pdu : PDU) (connCfg : Option Auth.ClientConfig) :
      Follows cfg s i p (.acceptBind n pdu connCfg) (.onBind (bindSystemID pdu))
  | setID (systemID : Bytes) : Follows cfg s i p (.onBind systemID) (.setID systemID)
  | register (systemID : Bytes) : Follows cfg s i p (.setID systemID) (.register systemID)
  | sendSubmitSMResp {n conn : ℕ} {connID : Bytes} {seqNum : UInt32}
      (hfind : s.server.getConnection connID = some conn) :
      Follows cfg s i p (.onSubmit n connID seqNum) (.sendSubmitSMResp n conn seqNum)
  | resolveDeliverResp {conn : ℕ} {connID : Bytes} {seqNum status : UInt32}
      (hfind : s.server.conns.find? connID = some conn) :
      Follows cfg s i p (.onDeliverResp connID seqNum status)
        (.resolveDeliverResp conn seqNum status)

theorem execSession_follows {a : SessionAction} (h : execSession cfg s i p a = some e)
    (hb : b ∈ e.next) : Follows cfg s i p a b := by
  cases execSession_moves h with
  | readPDU pdu hpdu =>
    unfold dispatch at hb
    dsimp only at hb
    split at hb
    · rename_i hbind
      cases hb
      exact .handleBind hpdu hbind
    split at hb
    · rename_i hcmd
      split at hb
      · cases hb
        exact .onSubmit hpdu hcmd
      · cases hb
        exact .readLoop
    split at hb
    · cases hb
      exact .readLoop
    split at hb
    · rename_i hcmd
      cases hb
      exact .onDeliverResp hpdu hcmd
    split at hb
    · cases hb
      exact .cleanUp (.inr rfl)
    · cases hb
      exact .readLoop
  | close => cases hb
  | reads =>
    cases hb
    exact .readPDU
  | stops =>
    cases hb
    exact .cleanUp (.inl rfl)
  | eof =>
    cases hb
    exact .cleanUp (.inr rfl)
  | handleBind n pdu =>
    cases hb
    exact .authenticate n pdu
  | authenticates n pdu link connCfg hlink hcheck =>
    cases hb
    exact .acceptBind hlink hcheck
  | acceptBind n pdu connCfg =>
    cases hb
    exact .onBind n pdu connCfg
  | admits systemID =>
    cases hb
    exact .setID systemID
  | setID systemID =>
    cases hb
    exact .register systemID
  | submits n connID seqNum conn hfind =>
    cases hb
    exact .sendSubmitSMResp hfind
  | responds connID seqNum status conn hfind =>
    cases hb
    exact .resolveDeliverResp hfind
  | cleanUp =>
    cases hb
    exact .close
  | _ =>
    cases hb
    exact .readLoop

/-! ## Channels -/

theorem pending?_modifyLink (s : State) (p q : ℕ) (f : Link → Link) (seqNum : UInt32) :
    (s.modifyLink p f).pending? q seqNum =
      (s.links[q]?).bind fun l => (if p = q then f l else l).pendingDelivers.find? seqNum := by
  simp only [State.pending?, State.modifyLink, getElem?_modify]
  cases s.links[q]? with
  | none => simp
  | some l => by_cases hpq : p = q <;> simp [hpq]

/-- A change that leaves the map alone. -/
theorem pending?_modifyLink_of_same {f : Link → Link}
    (hf : ∀ l, (f l).pendingDelivers = l.pendingDelivers) (q : ℕ) (seqNum : UInt32) :
    (s.modifyLink p f).pending? q seqNum = s.pending? q seqNum := by
  rw [pending?_modifyLink, State.pending?]
  cases s.links[q]? with
  | none => rfl
  | some l => by_cases hpq : p = q <;> simp [hpq, hf]

theorem pending?_of_deletePending {q : ℕ} {seqNum seq : UInt32} {ch : ℕ}
    (h : (s.deletePending p seqNum).pending? q seq = some ch) : s.pending? q seq = some ch := by
  rw [State.deletePending, pending?_modifyLink] at h
  obtain ⟨l, hl, hfind⟩ := bind_eq_some_iff.mp h
  rw [State.pending?, hl, bind_some]
  split at hfind
  · rw [SortedMap.find?_erase] at hfind
    split at hfind
    · cases hfind
    · exact hfind
  · exact hfind

/-- What a step does to the channels: it leaves them alone, except that it may
take some off their map; it makes a new one; or it puts a status into one. -/
inductive WaitStep (s : State) : Action → State → Prop
  | quiet {a : Action} {s' : State} (hwaits : s'.waits = s.waits)
      (hpending : ∀ p seqNum ch, s'.pending? p seqNum = some ch → s.pending? p seqNum = some ch) :
      WaitStep s a s'
  | register {conn : ℕ} {body : Bytes} {s' : State} (seqNum : UInt32)
      (hwaits : s'.waits = s.waits ++ [⟨conn, seqNum, none⟩])
      (hpending : ∀ p seq ch, s'.pending? p seq = some ch →
        s.pending? p seq = some ch ∨ (p = conn ∧ seq = seqNum ∧ ch = s.waits.length)) :
      WaitStep s (.registerDeliverWait conn body) s'
  | resolve {p conn : ℕ} {seqNum status : UInt32} {s' : State} (ch : ℕ)
      (hch : s.pending? conn seqNum = some ch)
      (hwaits : s'.waits = s.waits.modify ch fun w => { w with status := some status })
      (hpending : ∀ p seq ch, s'.pending? p seq = some ch → s.pending? p seq = some ch) :
      WaitStep s (.session p (.resolveDeliverResp conn seqNum status)) s'

/-- The channels are not part of what the step changes. -/
theorem WaitStep.of_links {s' : State} (hwaits : s'.waits = s.waits) (hlinks : s'.links = s.links) :
    WaitStep s a s' :=
  .quiet hwaits fun p seqNum ch h => by rwa [State.pending?, hlinks] at h

theorem WaitStep.of_same {f : Link → Link} (hf : ∀ l, (f l).pendingDelivers = l.pendingDelivers) :
    WaitStep s a (s.modifyLink p f) :=
  .quiet rfl fun q seqNum ch h => by rwa [pending?_modifyLink_of_same hf] at h

theorem WaitStep.of_delete (s : State) (a : Action) (p : ℕ) (seqNum : UInt32) :
    WaitStep s a (s.deletePending p seqNum) :=
  .quiet rfl fun _ _ _ => pending?_of_deletePending

/-- **What a step does to the channels.** -/
theorem exec_waits (h : exec cfg s i a = some r) : WaitStep s a r.state := by
  cases exec_northMoves h with
  | accept remoteIP =>
    refine .quiet rfl fun p seqNum ch hch => ?_
    -- the new session has no outstanding `deliver_sm`
    obtain ⟨l, hl, hfind⟩ := bind_eq_some_iff.mp hch
    rw [getElem?_append] at hl
    split at hl
    · exact bind_eq_some_iff.mpr ⟨l, hl, hfind⟩
    · obtain rfl := mem_singleton.mp (mem_of_getElem? hl)
      cases hfind
  | session p a e he =>
    cases execSession_moves he with
    | handles => exact .of_same fun _ => rfl
    | resolves conn seqNum status =>
      dsimp only [State.resolveDeliverResp]
      split
      · exact .of_links rfl rfl
      · rename_i ch hch
        exact .resolve ch hch rfl fun _ _ _ => pending?_of_deletePending
    | _ => exact .of_links rfl rfl
  | registers conn body link hlink =>
    refine .register (link.seqNum + 1) rfl fun p seq ch hch => ?_
    have hpend := (pending?_modifyLink s conn p _ seq).symm.trans hch
    obtain ⟨l, hl, hfind⟩ := bind_eq_some_iff.mp hpend
    have hold : l.pendingDelivers.find? seq = some ch → s.pending? p seq = some ch := fun hf =>
      bind_eq_some_iff.mpr ⟨l, hl, hf⟩
    split at hfind
    · rename_i heq
      rw [SortedMap.find?_insert] at hfind
      split at hfind
      · rename_i hseq
        exact .inr ⟨heq.symm, hseq, (some.inj hfind).symm⟩
      · exact .inl (hold hfind)
    · exact .inl (hold hfind)
  | unwritten conn ch seqNum body => exact .of_delete s _ conn seqNum
  | expires conn ch seqNum => exact .of_delete s _ conn seqNum
  | enquires => exact .of_same fun _ => rfl
  | _ => exact .of_links rfl rfl

/-- A channel stays the channel of its `deliver_sm`. -/
theorem WaitStep.waits {s' : State} (h : WaitStep s a s') {ch : ℕ} {w : Wait}
    (hw : s.waits[ch]? = some w) :
    ∃ w', s'.waits[ch]? = some w' ∧ w'.conn = w.conn ∧ w'.seqNum = w.seqNum := by
  cases h with
  | quiet hwaits hpending => exact ⟨w, hwaits ▸ hw, rfl, rfl⟩
  | register seqNum hwaits hpending =>
    refine ⟨w, ?_, rfl, rfl⟩
    rw [hwaits, getElem?_append_left (List.getElem?_eq_some_iff.mp hw).1, hw]
  | @resolve p conn seqNum status _ k hk hwaits hpending =>
    rw [hwaits, getElem?_modify]
    by_cases hkc : k = ch
    · exact ⟨{ w with status := some status }, by simp [hkc, hw], rfl, rfl⟩
    · exact ⟨w, by simp [hkc, hw], rfl, rfl⟩

/-! ## What is read and what is shown -/

/-- A response is one to this PDU. -/
def RespondsTo (pdu resp : PDU) : Prop :=
  resp.sequenceNumber = pdu.sequenceNumber ∧
    (pdu.commandID = cmdSubmitSM → resp.commandID = cmdSubmitSMResp)

theorem isBind_ne_submitSM (h : isBind pdu = true) : pdu.commandID ≠ cmdSubmitSM := by
  intro heq
  simp only [isBind, heq, decide_eq_true_eq] at h
  revert h
  decide

/-- What `ReadLoop` answers itself. -/
theorem dispatch_seen {n : ℕ} (h : o ∈ (dispatch s p n pdu).seen) :
    ∃ resp, o = .answered n p resp ∧ RespondsTo pdu resp := by
  unfold dispatch at h
  dsimp only at h
  split at h
  · cases h
  split at h
  · split at h
    · cases h
    · exact ⟨_, mem_singleton.mp h, rfl, fun _ => rfl⟩
  · rename_i hne
    split at h
    · exact ⟨_, mem_singleton.mp h, rfl, fun heq => absurd heq hne⟩
    split at h
    · cases h
    split at h
    · exact ⟨_, mem_singleton.mp h, rfl, fun heq => absurd heq hne⟩
    · exact ⟨_, mem_singleton.mp h, rfl, fun heq => absurd heq hne⟩

/-- A `submit_sm` is answered at once, or handed to `HandleSubmit`. -/
theorem dispatch_submitSM {n : ℕ} (h : pdu.commandID = cmdSubmitSM) :
    (∃ resp, .answered n p resp ∈ (dispatch s p n pdu).seen) ∨
    (dispatch s p n pdu).next =
      some (.onSubmit n (s.server.idOf (some p)) pdu.sequenceNumber) := by
  have hbind : isBind pdu = false := by
    cases hb : isBind pdu with
    | false => rfl
    | true => exact absurd h (isBind_ne_submitSM hb)
  simp only [dispatch, hbind, h, if_true, Bool.false_eq_true, if_false]
  split
  · exact .inr rfl
  · exact .inl ⟨_, mem_singleton_self _⟩

/-- **What a step shows.** -/
inductive Shown (s : State) (seen : List Obs) : Action → Obs → Prop
  | read (p : ℕ) (pdu : PDU) : Shown s seen (.session p .readPDU) (.read s.reads p pdu)
  | dispatched {p : ℕ} {pdu resp : PDU} (hread : .read s.reads p pdu ∈ seen)
      (hresp : RespondsTo pdu resp) :
      Shown s seen (.session p .readPDU) (.answered s.reads p resp)
  | rejected {p n : ℕ} {pdu resp : PDU} (hseq : resp.sequenceNumber = pdu.sequenceNumber) :
      Shown s seen (.session p (.authenticate n pdu)) (.answered n p resp)
  | accepted {p n : ℕ} {pdu resp : PDU} {connCfg : Option Auth.ClientConfig}
      (hseq : resp.sequenceNumber = pdu.sequenceNumber) :
      Shown s seen (.session p (.acceptBind n pdu connCfg)) (.answered n p resp)
  | submitted {p n conn : ℕ} {seqNum : UInt32} {resp : PDU}
      (hcmd : resp.commandID = cmdSubmitSMResp) (hseq : resp.sequenceNumber = seqNum) :
      Shown s seen (.session p (.sendSubmitSMResp n conn seqNum)) (.answered n conn resp)
  | wrote {a : Action} (conn : ℕ) (pdu : PDU) : Shown s seen a (.wrote conn pdu)
  | delivered {conn ch : ℕ} {seqNum : UInt32} {w : Wait} (hw : s.waits[ch]? = some w)
      (hok : w.status = some statusOK) :
      Shown s seen (.awaitDeliverResp conn ch seqNum) (.delivered conn seqNum)

/-- The step that reads a PDU. -/
structure ReadStep (s : State) (p : ℕ) (pdu : PDU) (r : NorthEffect) : Prop where
  state : r.state = { s with reads := s.reads + 1 }
  next : r.next = ((dispatch { s with reads := s.reads + 1 } p s.reads pdu).next.map
    (Action.session p)).toList
  seen : r.seen =
    .read s.reads p pdu :: (dispatch { s with reads := s.reads + 1 } p s.reads pdu).seen

/-- A PDU that is read is shown. -/
theorem read_mem_seen (h : execSession cfg s i p .readPDU = some e) (hpdu : i.pdu = some pdu) :
    .read s.reads p pdu ∈ e.seen := by
  cases execSession_moves h with
  | eof hnone => cases hpdu.symm.trans hnone
  | readPDU pdu' hpdu' =>
    obtain rfl := some.inj (hpdu.symm.trans hpdu')
    exact mem_cons_self

theorem exec_shown (h : exec cfg s i a = some r) (ho : o ∈ r.seen) : Shown s r.seen a o := by
  cases exec_northMoves h with
  | session p a e he =>
    cases execSession_moves he with
    | readPDU pdu =>
      rcases mem_cons.mp ho with rfl | ho
      · exact .read p pdu
      · obtain ⟨resp, rfl, hresp⟩ := dispatch_seen ho
        exact .dispatched mem_cons_self hresp
    | rejects =>
      obtain rfl := mem_singleton.mp ho
      exact .rejected rfl
    | acceptBind =>
      obtain rfl := mem_singleton.mp ho
      exact .accepted rfl
    | answers =>
      obtain rfl := mem_singleton.mp ho
      exact .submitted rfl rfl
    | _ => cases ho
  | writes =>
    obtain rfl := mem_singleton.mp ho
    exact .wrote _ _
  | acknowledged conn ch seqNum w hw hok =>
    obtain rfl := mem_singleton.mp ho
    exact .delivered hw hok
  | enquires conn link seen hlink hseen =>
    rcases hseen with rfl | rfl
    · obtain rfl := mem_singleton.mp ho
      exact .wrote _ _
    · cases ho
  | _ => cases ho

/-- A step that reads no PDU leaves their number alone. -/
theorem exec_reads (h : exec cfg s i a = some r) :
    (r.state.reads = s.reads ∧ ∀ n p pdu, .read n p pdu ∉ r.seen) ∨
    ∃ p pdu, a = .session p .readPDU ∧ ReadStep s p pdu r := by
  -- only `readPDU` shows a PDU that was read
  have hnot : (∀ p, a ≠ .session p .readPDU) → ∀ n p pdu, .read n p pdu ∉ r.seen := by
    intro hne n p pdu hmem
    cases exec_shown h hmem with
    | read p pdu => exact hne p rfl
  cases exec_northMoves h with
  | session p a e he =>
    cases execSession_moves he with
    | eof => exact .inl ⟨rfl, fun n p pdu hmem => by cases hmem⟩
    | readPDU pdu => exact .inr ⟨p, pdu, rfl, rfl, rfl, rfl⟩
    | resolves conn seqNum status =>
      refine .inl ⟨?_, hnot fun q heq => by cases heq⟩
      dsimp only [State.resolveDeliverResp]
      split <;> rfl
    | _ => exact .inl ⟨rfl, hnot fun q heq => by cases heq⟩
  | _ => exact .inl ⟨rfl, hnot fun p heq => by cases heq⟩

end Northbound

end SmscGateway
