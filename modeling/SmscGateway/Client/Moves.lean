import SmscGateway.Client.Model

/-!
# What a step of the client can do

The branches of the functions of the client, each with the condition under
which it is taken and the effect it has: of a request (`CallStep`), of
`Connect`, `Close` and `handleDisconnect` (`LinkStep`), of a `ReadLoop`
(`ReadStep`), of `enqueueDeliver` and the workers (`DeliverStep`) and of the
keep-alive loop (`KeepStep`). What a step does to the locks, to the requests in
flight, to the connections and to a `deliver_sm` is read off them.
-/

namespace SmscGateway

namespace Client

open Smpp

/-! ## The steps of a request -/

/-- **What a step of a request does**, or of the bind of `Connect`. -/
inductive CallStep (cfg : Config) (s : State) (i : Input) : CallAction → ClientEffect → Prop
  | refused (q : Request) (hfree : s.mu = false) :
      CallStep cfg s i (.begin q) { state := s, seen := [.returned (some q) .refused] }
  | begins (q : Request) (hfree : s.mu = false) (hbound : s.bound = true) :
      CallStep cfg s i (.begin q) { state := s, next := [.call (.nextSeq (.request q))] }
  | nextSeq (who : Caller) :
      CallStep cfg s i (.nextSeq who)
        { state := { s with issued := s.issued + 1 }
          next := [.call (.registerPending who (UInt32.ofNat (s.issued + 1)))] }
  | registers (who : Caller) (seq : UInt32) (hfree : s.pendingMu = false) :
      CallStep cfg s i (.registerPending who seq)
        { state := { s with
            pending := s.pending.insert seq s.respChs.length
            respChs := s.respChs ++ [{ seq }] }
          next := [.call (.writePDU who seq s.respChs.length)]
          seen := (s.pending.find? seq).toList.map .left }
  | written (who : Caller) (seq : UInt32) (ch : ℕ) :
      CallStep cfg s i (.writePDU who seq ch)
        { state := s
          next := [.call (.await who seq ch)]
          seen := [.wrote s.conn (who.pdu cfg seq) true] }
  | unwritten (who : Caller) (seq : UInt32) (ch : ℕ) :
      CallStep cfg s i (.writePDU who seq ch)
        { state := s
          next := [.call (.unregisterPending who seq .sendFailed)]
          seen := [.wrote s.conn (who.pdu cfg seq) false] }
  | timesOut (who : Caller) (seq : UInt32) (ch : ℕ) :
      CallStep cfg s i (.await who seq ch) { state := s, next := [giveUp seq who] }
  | answered (q : Request) (seq : UInt32) (ch : ℕ) (resp : PDU) (hin : s.nextIn ch = some resp) :
      CallStep cfg s i (.await (.request q) seq ch)
        { state := s.modifyCh ch fun c => { c with taken := c.taken + 1 }
          seen := [.returned (some q) (.answered resp)] }
  | bound (x : ℕ) (seq : UInt32) (ch : ℕ) (resp : PDU) (hin : s.nextIn ch = some resp) :
      CallStep cfg s i (.await (.connect x) seq ch)
        { state := { s.modifyCh ch fun c => { c with taken := c.taken + 1 } with
            bound := true
            mu := false
            spawned := s.spawned ++ [.enquireLinkLoop] }
          seen := [.returned none (.answered resp)] }
  | rejected (x : ℕ) (seq : UInt32) (ch : ℕ) (resp : PDU) (hin : s.nextIn ch = some resp) :
      CallStep cfg s i (.await (.connect x) seq ch)
        { state := s.modifyCh ch fun c => { c with taken := c.taken + 1 }
          next := [.call (.hangUp x (.answered resp))] }
  | unregisters (q : Request) (seq : UInt32) (outcome : Outcome) (hfree : s.pendingMu = false) :
      CallStep cfg s i (.unregisterPending (.request q) seq outcome)
        { state := { s with pending := s.pending.erase seq }
          seen := (s.pending.find? seq).toList.map .left ++ [.returned (some q) outcome] }
  | unbinds (x : ℕ) (seq : UInt32) (outcome : Outcome) (hfree : s.pendingMu = false) :
      CallStep cfg s i (.unregisterPending (.connect x) seq outcome)
        { state := { s with pending := s.pending.erase seq }
          next := [.call (.hangUp x outcome)]
          seen := (s.pending.find? seq).toList.map .left }
  | hangUp (x : ℕ) (outcome : Outcome) :
      CallStep cfg s i (.hangUp x outcome)
        { state := { s.hangUp x with mu := false }, seen := [.returned none outcome] }

variable {cfg : Config} {s : State} {i : Input} {r : ClientEffect}

theorem execCall_callStep {a : CallAction} (h : execCall cfg s i a = some r) :
    CallStep cfg s i a r := by
  cases a with
  | begin q =>
    simp only [execCall] at h
    split at h
    · cases h
    · rename_i hfree
      split at h <;> cases h
      · exact .begins q (by simpa using hfree) ‹_›
      · exact .refused q (by simpa using hfree)
  | nextSeq who =>
    cases h
    exact .nextSeq who
  | registerPending who seq =>
    simp only [execCall] at h
    obtain ⟨hfree, rfl⟩ := eq_of_refusal h
    exact .registers who seq (by simpa using hfree)
  | writePDU who seq ch =>
    simp only [execCall] at h
    split at h <;> cases h
    · exact .written who seq ch
    · exact .unwritten who seq ch
  | await who seq ch =>
    simp only [execCall] at h
    split at h
    · cases h
      exact .timesOut who seq ch
    · split at h
      · cases h
      · rename_i resp hin
        split at h
        · cases h
          exact .answered _ seq ch resp hin
        · split at h <;> cases h
          · exact .bound _ seq ch resp hin
          · exact .rejected _ seq ch resp hin
  | unregisterPending who seq outcome =>
    simp only [execCall] at h
    split at h
    · cases h
    · rename_i hfree
      split at h <;> cases h
      · exact .unbinds _ seq outcome (by simpa using hfree)
      · exact .unregisters _ seq outcome (by simpa using hfree)
  | hangUp x outcome =>
    cases h
    exact .hangUp x outcome

/-! ## The steps of `Connect`, `Close` and `handleDisconnect` -/

/-- **What a step of `Connect`, `Close` or `handleDisconnect` does.** -/
inductive LinkStep (cfg : Config) (s : State) (i : Input) : LinkAction → ClientEffect → Prop
  | refused (hfree : s.mu = false) :
      LinkStep cfg s i .connect { state := s, seen := [.returned none .refused] }
  | connect (hfree : s.mu = false) (hbound : s.bound = false) :
      LinkStep cfg s i .connect { state := { s with mu := true }, next := [.link .dial] }
  | dialled :
      LinkStep cfg s i .dial
        { state := { s with sessions := s.sessions ++ [{}] }
          next := [.link (.setConn s.sessions.length)] }
  | dialFailed :
      LinkStep cfg s i .dial
        { state := { s with mu := false }, seen := [.returned none .dialFailed] }
  | setConn (x : ℕ) :
      LinkStep cfg s i (.setConn x)
        { state := { s with conn := some x }, next := [.link (.setDone x)] }
  | setDone (x : ℕ) :
      LinkStep cfg s i (.setDone x)
        { state := { s with done := x }, next := [.link (.setDeliverQ x)] }
  | setDeliverQ (x : ℕ) :
      LinkStep cfg s i (.setDeliverQ x)
        { state := { s with deliverQ := x }, next := [.link (.startDeliverLoop x)] }
  | startDeliverLoop (x : ℕ) :
      LinkStep cfg s i (.startDeliverLoop x)
        { state := { s with
            spawned := s.spawned ++ List.replicate cfg.deliverWorkers (.worker s.done s.deliverQ) }
          next := [.link (.startReadLoop x)] }
  | startReadLoop (x : ℕ) :
      LinkStep cfg s i (.startReadLoop x)
        { state := { s with spawned := s.spawned ++ [.readLoop] }
          next := [.call (.nextSeq (.connect x))] }
  | close (hfree : s.mu = false) (hbound : s.bound = true) :
      LinkStep cfg s i .close
        { state := { s with mu := true, issued := s.issued + 1 }
          next := [.link (.writeUnbind (UInt32.ofNat (s.issued + 1)))] }
  | closeIdle (hfree : s.mu = false) : LinkStep cfg s i .close { state := s }
  | writeUnbind (seq : UInt32) :
      LinkStep cfg s i (.writeUnbind seq)
        { state := s
          next := [.link .closeDone]
          seen := [.wrote s.conn ⟨cmdUnbind, statusOK, seq, []⟩ (s.writes i)] }
  | closeDone :
      LinkStep cfg s i .closeDone
        { state := { s.closeDone with bound := false }, next := [.link .closeConn] }
  | disconnect (hfree : s.mu = false) (hbound : s.bound = true) :
      LinkStep cfg s i .handleDisconnect
        { state := { s.closeDone with mu := true, bound := false }
          next := [.link .drainLock] }
  | disconnectIdle (hfree : s.mu = false) : LinkStep cfg s i .handleDisconnect { state := s }
  | drainLock (hfree : s.pendingMu = false) :
      LinkStep cfg s i .drainLock
        { state := { s with pendingMu := true }, next := [.link .drain] }
  | drained (hempty : s.pending = .empty) :
      LinkStep cfg s i .drain
        { state := { s with pendingMu := false }, next := [.link .closeConn] }
  | drain (ch : ℕ) (hfind : s.pending.find? i.seq = some ch) (hroom : s.hasRoom ch = true) :
      LinkStep cfg s i .drain
        { state := { s.send ch disconnectNack with pending := s.pending.erase i.seq }
          next := [.link .drain] }
  | closeConn : LinkStep cfg s i .closeConn { state := { s.closeConn with mu := false } }

theorem execLink_linkStep {a : LinkAction} (h : execLink cfg s i a = some r) :
    LinkStep cfg s i a r := by
  cases a with
  | connect =>
    simp only [execLink] at h
    split at h
    · cases h
    · rename_i hfree
      split at h <;> cases h
      · exact .refused (by simpa using hfree)
      · rename_i hbound
        exact .connect (by simpa using hfree) (by simpa using hbound)
  | dial =>
    simp only [execLink] at h
    split at h <;> cases h
    · exact .dialled
    · exact .dialFailed
  | close =>
    simp only [execLink] at h
    split at h
    · cases h
    · rename_i hfree
      split at h <;> cases h
      · exact .close (by simpa using hfree) ‹_›
      · exact .closeIdle (by simpa using hfree)
  | handleDisconnect =>
    simp only [execLink] at h
    split at h
    · cases h
    · rename_i hfree
      split at h <;> cases h
      · exact .disconnect (by simpa using hfree) ‹_›
      · exact .disconnectIdle (by simpa using hfree)
  | drainLock =>
    simp only [execLink] at h
    obtain ⟨hfree, rfl⟩ := eq_of_refusal h
    exact .drainLock (by simpa using hfree)
  | drain =>
    simp only [execLink] at h
    split at h
    · cases h
      exact .drained ‹_›
    · split at h
      · cases h
      · split at h
        · cases h
          exact .drain _ ‹_› ‹_›
        · cases h
  | setConn x | setDone x | setDeliverQ x | startDeliverLoop x | startReadLoop x | writeUnbind seq
  | closeDone | closeConn =>
    cases h
    constructor

/-! ## The steps of a `ReadLoop` -/

/-- **What a step of a `ReadLoop` does.** -/
inductive ReadStep (s : State) (i : Input) : ReadAction → ClientEffect → Prop
  | goesOn (hdone : s.isDone s.done = false) :
      ReadStep s i .readLoop { state := s, next := [.read .readPDU] }
  | stops (hdone : s.isDone s.done = true) : ReadStep s i .readLoop { state := s }
  | readPDU (x : ℕ) (hconn : s.conn = some x) :
      ReadStep s i .readPDU { state := s, next := [.read (.readHeader x)] }
  | headerFailed (x : ℕ) (hin : i.incoming = .headerFailed) :
      ReadStep s i (.readHeader x) { state := s, next := [.read .readFailed] }
  | badLength (x : ℕ) (hin : i.incoming = .badLength) (hopen : s.isOpen x = true) :
      ReadStep s i (.readHeader x) { state := s, next := [.link .handleDisconnect] }
  | bare (x : ℕ) (h : Header) (hin : i.incoming = .header h) (hopen : s.isOpen x = true) :
      ReadStep s i (.readHeader x)
        { state := s
          next := [.read (.dispatchPDU x (h.pdu []))]
          seen := [.read x (h.pdu [])] }
  | header (x : ℕ) (h : Header) (hin : i.incoming = .header h) (hopen : s.isOpen x = true) :
      ReadStep s i (.readHeader x) { state := s, next := [.read (.readRest x h)] }
  | readRest (x y : ℕ) (h : Header) (hconn : s.conn = some y) :
      ReadStep s i (.readRest x h) { state := s, next := [.read (.readBody x y h)] }
  | bodyFailed (x y : ℕ) (h : Header) (hin : i.incoming = .bodyFailed) :
      ReadStep s i (.readBody x y h) { state := s, next := [.link .handleDisconnect] }
  | body (x y : ℕ) (h : Header) (b : Bytes) (hin : i.incoming = .body b)
      (hopen : s.isOpen y = true) (hlen : b.length = h.rest) :
      ReadStep s i (.readBody x y h)
        { state := s
          next := [.read (.dispatchPDU x (h.pdu b))]
          seen := if x = y then [.read x (h.pdu b)] else [] }
  | closed (hdone : s.isDone s.done = true) : ReadStep s i .readFailed { state := s }
  | lost (hdone : s.isDone s.done = false) :
      ReadStep s i .readFailed { state := s, next := [.link .handleDisconnect] }
  | response (x : ℕ) (pdu : PDU) (ch : ℕ) (hresp : pdu.commandID ∈ responses)
      (hfree : s.pendingMu = false) (hfind : s.pending.find? pdu.sequenceNumber = some ch) :
      ReadStep s i (.dispatchPDU x pdu)
        { state := { s with pending := s.pending.erase pdu.sequenceNumber }
          next := [.read (.send ch pdu), .read .readLoop]
          seen := [.left ch] }
  | unknown (x : ℕ) (pdu : PDU) (hresp : pdu.commandID ∈ responses) :
      ReadStep s i (.dispatchPDU x pdu) { state := s, next := [.read .readLoop] }
  | deliver (x : ℕ) (pdu : PDU) (hcmd : pdu.commandID = cmdDeliverSM) :
      ReadStep s i (.dispatchPDU x pdu)
        { state := { s with arrivals := s.arrivals + 1 }
          next := [.deliver (.enqueueDeliver ⟨s.arrivals, x, deliverMessage pdu⟩),
            .read .readLoop]
          seen := [.deliver s.arrivals (.dispatched ⟨s.arrivals, x, deliverMessage pdu⟩)] }
  | enquireLink (x : ℕ) (pdu : PDU) (hcmd : pdu.commandID = cmdEnquireLink) :
      ReadStep s i (.dispatchPDU x pdu)
        { state := s
          next := [.read .readLoop]
          seen := [.wrote s.conn ⟨cmdEnquireLinkResp, statusOK, pdu.sequenceNumber, []⟩
            (s.writes i)] }
  | unbind (x : ℕ) (pdu : PDU) (hcmd : pdu.commandID = cmdUnbind) :
      ReadStep s i (.dispatchPDU x pdu)
        { state := s
          next := [.link .handleDisconnect, .read .readLoop]
          seen := [.wrote s.conn ⟨cmdUnbindResp, statusOK, pdu.sequenceNumber, []⟩
            (s.writes i)] }
  | ignored (x : ℕ) (pdu : PDU) (hunbind : pdu.commandID ≠ cmdUnbind) :
      ReadStep s i (.dispatchPDU x pdu) { state := s, next := [.read .readLoop] }
  | send (ch : ℕ) (pdu : PDU) (hroom : s.hasRoom ch = true) :
      ReadStep s i (.send ch pdu) { state := s.send ch pdu }

theorem dispatchPDU_readStep {x : ℕ} {pdu : PDU} (h : dispatchPDU s i x pdu = some r) :
    ReadStep s i (.dispatchPDU x pdu) r := by
  unfold dispatchPDU at h
  split at h
  · rename_i hresp
    split at h
    · cases h
    · rename_i hfree
      split at h <;> cases h
      · rename_i ch hfind
        exact .response x pdu ch hresp (by simpa using hfree) hfind
      · exact .unknown x pdu hresp
  · split at h
    · rename_i hcmd
      cases h
      exact .deliver x pdu hcmd
    · split at h
      · rename_i hcmd
        cases h
        exact .enquireLink x pdu hcmd
      · split at h <;> cases h
        · rename_i hcmd
          exact .unbind x pdu hcmd
        · rename_i hunbind
          exact .ignored x pdu hunbind

theorem execRead_readStep {a : ReadAction} (h : execRead s i a = some r) : ReadStep s i a r := by
  cases a with
  | readLoop =>
    cases hdone : s.isDone s.done <;> simp only [execRead, hdone] at h <;>
      cases h
    · exact .goesOn hdone
    · exact .stops hdone
  | readPDU =>
    obtain ⟨x, hconn, rfl⟩ := Option.map_eq_some_iff.mp h
    exact .readPDU x hconn
  | readHeader x =>
    simp only [execRead] at h
    split at h
    · rename_i hin
      cases h
      exact .headerFailed x hin
    · rename_i hin
      obtain ⟨hopen, rfl⟩ := eq_of_guard h
      exact .badLength x hin hopen
    · rename_i hd hin
      split at h
      · rename_i hopen
        split at h <;> cases h
        · exact .bare x hd hin hopen
        · exact .header x hd hin hopen
      · cases h
    · cases h
    · cases h
  | readRest x hd =>
    obtain ⟨y, hconn, rfl⟩ := Option.map_eq_some_iff.mp h
    exact .readRest x y hd hconn
  | readBody x y hd =>
    simp only [execRead] at h
    split at h
    · rename_i hin
      cases h
      exact .bodyFailed x y hd hin
    · rename_i b hin
      obtain ⟨hopen, rfl⟩ := eq_of_guard h
      exact .body x y hd b hin hopen.1 hopen.2
    all_goals cases h
  | readFailed =>
    cases hdone : s.isDone s.done <;> simp only [execRead, hdone] at h <;>
      cases h
    · exact .lost hdone
    · exact .closed hdone
  | dispatchPDU x pdu => exact dispatchPDU_readStep h
  | send ch pdu =>
    simp only [execRead] at h
    obtain ⟨hroom, rfl⟩ := eq_of_guard h
    exact .send ch pdu hroom

/-! ## The steps of a delivery -/

/-- **What a step of `enqueueDeliver` or of a worker does.** -/
inductive DeliverStep (cfg : Config) (s : State) (i : Input) : DeliverAction → ClientEffect → Prop
  | dropped (b : Arrival) (hdone : s.isDone s.done = true) :
      DeliverStep cfg s i (.enqueueDeliver b) (discard s b)
  | queued (b : Arrival) (hroom : (s.queue s.deliverQ).length < cfg.deliverQueueSize) :
      DeliverStep cfg s i (.enqueueDeliver b) (push s s.deliverQ b)
  | full (b : Arrival) :
      DeliverStep cfg s i (.enqueueDeliver b) { state := s, next := [.deliver (.enqueueSelect b)] }
  | blocks (b : Arrival) :
      DeliverStep cfg s i (.enqueueSelect b)
        { state := s, next := [.deliver (.enqueueBlocked b s.done s.deliverQ)] }
  | blockedDropped (b : Arrival) (d q : ℕ) (hdone : s.isDone d = true) :
      DeliverStep cfg s i (.enqueueBlocked b d q) (discard s b)
  | blockedQueued (b : Arrival) (d q : ℕ) (hroom : (s.queue q).length < cfg.deliverQueueSize) :
      DeliverStep cfg s i (.enqueueBlocked b d q) (push s q b)
  | stops (d q : ℕ) (hdone : s.isDone d = true) : DeliverStep cfg s i (.worker d q) { state := s }
  | takes (d q : ℕ) (b : Arrival) (rest : List Arrival) (hqueue : s.queue q = b :: rest) :
      DeliverStep cfg s i (.worker d q)
        { state := s.modifySession q fun x => { x with deliverQ := rest }
          next := [.deliver (.handle d q b)]
          seen := [.deliver b.ticket .taken] }
  | handle (d q : ℕ) (b : Arrival) (ok : Bool) :
      DeliverStep cfg s i (.handle d q b)
        { state := s
          next := [.deliver (.respond d q b ok)]
          seen := [.deliver b.ticket (.returned ok)] }
  | respond (d q : ℕ) (b : Arrival) (ok : Bool) :
      DeliverStep cfg s i (.respond d q b ok)
        { state := s
          next := [.deliver (.worker d q)]
          seen := [.wrote s.conn (deliverResp b ok) (s.writes i),
            .deliver b.ticket (.attempted s.conn (deliverResp b ok))] }

/-- The two ways out of the `select`. -/
theorem selectEnqueue_cases {d q : ℕ} {b : Arrival} (h : selectEnqueue cfg s i d q b = some r) :
    (r = discard s b ∧ s.isDone d = true) ∨
      (r = push s q b ∧ (s.queue q).length < cfg.deliverQueueSize) := by
  simp only [selectEnqueue] at h
  split at h
  · rename_i hdone
    exact .inl ⟨(Option.some.inj h).symm, (Bool.and_eq_true_iff.mp hdone).1⟩
  · split at h
    · rename_i hroom
      exact .inr ⟨(Option.some.inj h).symm, of_decide_eq_true hroom⟩
    · cases h

theorem execDeliver_deliverStep {a : DeliverAction} (h : execDeliver cfg s i a = some r) :
    DeliverStep cfg s i a r := by
  cases a with
  | enqueueDeliver b =>
    simp only [execDeliver] at h
    split at h
    · rename_i r' hr
      cases h
      rcases selectEnqueue_cases hr with ⟨rfl, hdone⟩ | ⟨rfl, hroom⟩
      · exact .dropped b hdone
      · exact .queued b hroom
    · cases h
      exact .full b
  | enqueueBlocked b d q =>
    rcases selectEnqueue_cases h with ⟨rfl, hdone⟩ | ⟨rfl, hroom⟩
    · exact .blockedDropped b d q hdone
    · exact .blockedQueued b d q hroom
  | worker d q =>
    simp only [execDeliver] at h
    split at h
    · rename_i hdone
      cases h
      exact .stops d q (Bool.and_eq_true_iff.mp hdone).1
    · split at h
      · cases h
      · cases h
        exact .takes d q _ _ ‹_›
  | enqueueSelect b | handle d q b | respond d q b ok =>
    cases h
    constructor

/-! ## The steps of the keep-alive loop -/

/-- **What a step of the keep-alive loop does.** -/
inductive KeepStep (s : State) (i : Input) : KeepAction → ClientEffect → Prop
  | stops (hdone : s.isDone s.done = true) : KeepStep s i .enquireLinkLoop { state := s }
  | ticks :
      KeepStep s i .enquireLinkLoop
        { state := { s with issued := s.issued + 1 }
          next := [.keep (.writeEnquireLink (UInt32.ofNat (s.issued + 1)))] }
  | writes (seq : UInt32) (next : List Action) (hnext : next = [.keep .enquireLinkLoop] ∨ next = []) :
      KeepStep s i (.writeEnquireLink seq)
        { state := s
          next
          seen := [.wrote s.conn ⟨cmdEnquireLink, statusOK, seq, []⟩ (s.writes i)] }

theorem execKeep_keepStep {a : KeepAction} (h : execKeep s i a = some r) : KeepStep s i a r := by
  cases a with
  | enquireLinkLoop =>
    simp only [execKeep] at h
    split at h
    · split at h
      · cases h
        exact .stops ‹_›
      · cases h
    · cases h
      exact .ticks
  | writeEnquireLink seq =>
    cases h
    refine .writes seq _ ?_
    split
    · exact .inl rfl
    · exact .inr rfl

/-- A loop that was spawned begins. -/
theorem exec_go (h : exec cfg s i .go = some r) : ∃ l, s.spawned[i.spawned]? = some l ∧
      r = { state := { s with spawned := s.spawned.eraseIdx i.spawned }, next := [l.first] } := by
  simp only [exec] at h
  split at h
  · cases h
  · exact ⟨_, ‹_›, (Option.some.inj h).symm⟩

end Client

end SmscGateway
