import SmscGateway.Client.Moves

/-!
# What a step does to the requests in flight and to the locks

To the requests in flight (`Traffic`): a step hands out a sequence number,
registers a channel, takes one off `pending`, or sends on one; everything
else leaves `pending` and what was sent alone. To the locks (`LockStep`): a
step takes one, gives one back, or passes on what its goroutine holds. Who
holds a lock is seen from its next action.
-/

namespace SmscGateway

namespace Client

open Smpp State

/-! ## Requests in flight -/

/-- The sequence number an action is going to register. -/
def Action.registers : Action → Option UInt32
  | .call (.registerPending _ seq) => some seq
  | _ => none

/-- The channel an action is going to send on. -/
def Action.sendsOn : Action → Option ℕ
  | .read (.send ch _) => some ch
  | _ => none

/-- The action has a sequence number to register or a PDU to send. -/
def Action.carries (a : Action) : Bool := a.registers.isSome || a.sendsOn.isSome

/-- The channel that leaves `pending`. -/
def Obs.leaves : Obs → Option ℕ
  | .left ch => some ch
  | _ => none

/-- A step that has nothing to do with requests in flight. -/
structure Quiet (s : State) (a : Action) (r : ClientEffect) : Prop where
  action : a.carries = false
  next : r.next.all (!·.carries) = true
  issued : s.issued ≤ r.state.issued
  pending : r.state.pending = s.pending
  respChs : r.state.respChs = s.respChs
  seen : r.seen.filterMap Obs.leaves = []

/-- **What an action does to the requests in flight.** -/
inductive Traffic (s : State) : Action → ClientEffect → Prop
  | quiet {a : Action} {r : ClientEffect} : Quiet s a r → Traffic s a r
  | issue (who : Caller) :
      Traffic s (.call (.nextSeq who))
        { state := { s with issued := s.issued + 1 }
          next := [.call (.registerPending who (UInt32.ofNat (s.issued + 1)))] }
  | register (who : Caller) (seq : UInt32) (hfree : s.pendingMu = false) :
      Traffic s (.call (.registerPending who seq))
        { state := { s with
            pending := s.pending.insert seq s.respChs.length
            respChs := s.respChs ++ [{ seq }] }
          next := [.call (.writePDU who seq s.respChs.length)]
          seen := (s.pending.find? seq).toList.map .left }
  | receive {a : Action} {r : ClientEffect} (ch : ℕ) (ha : a.carries = false)
      (hnext : r.next.all (!·.carries) = true) (hissued : r.state.issued = s.issued)
      (hpending : r.state.pending = s.pending)
      (hchs : r.state.respChs = s.respChs.modify ch fun c => { c with taken := c.taken + 1 })
      (hsome : (s.nextIn ch).isSome = true)
      (hseen : r.seen.filterMap Obs.leaves = []) : Traffic s a r
  | unregister {a : Action} {r : ClientEffect} (seq : UInt32) (hfree : s.pendingMu = false)
      (ha : a.carries = false)
      (hnext : r.next.all (!·.carries) = true)
      (hstate : r.state = { s with pending := s.pending.erase seq })
      (hseen : r.seen.filterMap Obs.leaves = (s.pending.find? seq).toList) : Traffic s a r
  | take (x : ℕ) (pdu : PDU) (ch : ℕ) (hfree : s.pendingMu = false)
      (hresp : pdu.commandID ∈ responses)
      (hfind : s.pending.find? pdu.sequenceNumber = some ch) :
      Traffic s (.read (.dispatchPDU x pdu))
        { state := { s with pending := s.pending.erase pdu.sequenceNumber }
          next := [.read (.send ch pdu), .read .readLoop]
          seen := [.left ch] }
  | send (ch : ℕ) (pdu : PDU) (hroom : s.hasRoom ch = true) :
      Traffic s (.read (.send ch pdu)) { state := s.send ch pdu }
  | drain (seq : UInt32) (ch : ℕ) (hfind : s.pending.find? seq = some ch)
      (hroom : s.hasRoom ch = true) :
      Traffic s (.link .drain)
        { state := { s.send ch disconnectNack with pending := s.pending.erase seq }
          next := [.link .drain] }

section Exec

variable {cfg : Config} {s : State} {i : Input} {r : ClientEffect}

theorem leaves_left (o : Option ℕ) (rest : List Obs) :
    (o.toList.map Obs.left ++ rest).filterMap Obs.leaves =
      o.toList ++ rest.filterMap Obs.leaves := by
  cases o <;> rfl

/-- A request goes on as one. -/
theorem execCall_next {a : CallAction} (h : execCall cfg s i a = some r) :
    ∀ b ∈ r.next, ∃ a', b = .call a' := by
  cases execCall_callStep h with
  | timesOut who => cases who <;> simp [giveUp]
  | _ => simp

theorem execCall_traffic {a : CallAction} (h : execCall cfg s i a = some r) :
    Traffic s (.call a) r := by
  cases execCall_callStep h with
  | nextSeq who => exact .issue who
  | registers who seq hfree => exact .register who seq hfree
  | timesOut who => cases who <;> exact .quiet ⟨rfl, rfl, le_rfl, rfl, rfl, rfl⟩
  | answered q seq ch resp hin =>
    exact .receive ch rfl rfl rfl rfl rfl (Option.isSome_iff_exists.mpr ⟨resp, hin⟩) rfl
  | bound x seq ch resp hin | rejected x seq ch resp hin =>
    exact .receive ch rfl rfl rfl rfl rfl (Option.isSome_iff_exists.mpr ⟨resp, hin⟩) rfl
  | unregisters q seq outcome hfree =>
    refine .unregister seq hfree rfl rfl rfl ?_
    exact (leaves_left (s.pending.find? seq) [.returned _ outcome]).trans (by simp [Obs.leaves])
  | unbinds x seq outcome hfree =>
    refine .unregister seq hfree rfl rfl rfl ?_
    simpa using leaves_left (s.pending.find? seq) []
  | _ => exact .quiet ⟨rfl, rfl, le_rfl, rfl, rfl, rfl⟩

/-- **Every step is traffic.** -/
theorem exec_traffic {a : Action} (h : exec cfg s i a = some r) : Traffic s a r := by
  cases a with
  | go =>
    obtain ⟨l, -, rfl⟩ := exec_go h
    exact .quiet ⟨rfl, by cases l <;> rfl, le_rfl, rfl, rfl, rfl⟩
  | call a => exact execCall_traffic h
  | link a =>
    cases execLink_linkStep h with
    | drain ch hfind hroom => exact .drain i.seq ch hfind hroom
    | close => exact .quiet ⟨rfl, rfl, Nat.le_succ _, rfl, rfl, rfl⟩
    | closeConn =>
      refine .quiet ⟨rfl, rfl, ?_, ?_, ?_, rfl⟩ <;>
        · simp only [closeConn, hangUp, modifySession]
          split <;> rfl
    | _ => exact .quiet ⟨rfl, rfl, le_rfl, rfl, rfl, rfl⟩
  | read a =>
    cases execRead_readStep h with
    | response x pdu ch hresp hfree hfind => exact .take x pdu ch hfree hresp hfind
    | send ch pdu hroom => exact .send ch pdu hroom
    | body x y hd b =>
      refine .quiet ⟨rfl, rfl, le_rfl, rfl, rfl, ?_⟩
      dsimp only
      split <;> rfl
    | _ => exact .quiet ⟨rfl, rfl, le_rfl, rfl, rfl, rfl⟩
  | deliver a => cases execDeliver_deliverStep h <;> exact .quiet ⟨rfl, rfl, le_rfl, rfl, rfl, rfl⟩
  | keep a =>
    cases execKeep_keepStep h with
    | stops => exact .quiet ⟨rfl, rfl, le_rfl, rfl, rfl, rfl⟩
    | ticks => exact .quiet ⟨rfl, rfl, Nat.le_succ _, rfl, rfl, rfl⟩
    | writes seq next hnext =>
      rcases hnext with rfl | rfl <;> exact .quiet ⟨rfl, rfl, le_rfl, rfl, rfl, rfl⟩

/-- **Only a `ReadLoop` goes on with a step of one**, once it has begun. -/
theorem read_of_next {a : Action} (h : exec cfg s i a = some r) {b : ReadAction}
    (hb : .read b ∈ r.next) :
    (a = .go ∧ b = .readLoop) ∨ ∃ a', a = .read a' ∧ ReadStep s i a' r := by
  cases a with
  | go =>
    obtain ⟨l, -, rfl⟩ := exec_go h
    refine Or.inl ⟨rfl, ?_⟩
    cases l with
    | readLoop => exact Action.read.inj (List.mem_singleton.mp hb)
    | worker d q => simp [Loop.first] at hb
    | enquireLinkLoop => simp [Loop.first] at hb
  | call a =>
    obtain ⟨a', ha'⟩ := execCall_next h _ hb
    cases ha'
  | link a => cases execLink_linkStep h <;> simp at hb
  | read a => exact Or.inr ⟨a, rfl, execRead_readStep h⟩
  | deliver a => cases execDeliver_deliverStep h <;> simp [discard, push] at hb
  | keep a =>
    cases execKeep_keepStep h with
    | stops | ticks => simp at hb
    | writes seq next hnext => rcases hnext with rfl | rfl <;> simp at hb

/-! ## Locks -/

/-- Is it `Connect`, which holds `mu` all the time? -/
def Caller.isConnect : Caller → Bool
  | .connect _ => true
  | .request _ => false

/-- The goroutine holds `mu` before this action. -/
def Action.holdsMu : Action → Bool
  | .link .connect | .link .close | .link .handleDisconnect => false
  | .link _ => true
  | .call (.nextSeq who) | .call (.registerPending who _) | .call (.writePDU who _ _)
  | .call (.await who _ _) | .call (.unregisterPending who _ _) => who.isConnect
  | .call (.hangUp _ _) => true
  | _ => false

/-- The goroutine holds `pendingMu` before this action. -/
def Action.holdsPendingMu : Action → Bool
  | .link .drain => true
  | _ => false

/-- How many of the actions come from a holder of `mu`. -/
abbrev holders (next : List Action) : ℕ := next.countP Action.holdsMu

abbrev pendingHolders (next : List Action) : ℕ := next.countP Action.holdsPendingMu

/-- **What an action does to the locks.** -/
inductive LockStep (s : State) : Action → ClientEffect → Prop
  | keep {a : Action} {r : ClientEffect} (hmu : r.state.mu = s.mu)
      (hpending : r.state.pendingMu = s.pendingMu) (hnext : holders r.next = a.holdsMu.toNat)
      (hnext' : pendingHolders r.next = a.holdsPendingMu.toNat) : LockStep s a r
  | lock {a : LinkAction} {r : ClientEffect} (ha : (Action.link a).holdsMu = false)
      (ha' : (Action.link a).holdsPendingMu = false) (hfree : s.mu = false)
      (hmu : r.state.mu = true) (hpending : r.state.pendingMu = s.pendingMu)
      (hnext : holders r.next = 1) (hnext' : pendingHolders r.next = 0) : LockStep s (.link a) r
  | unlock {a : Action} {r : ClientEffect} (ha : a.holdsMu = true)
      (ha' : a.holdsPendingMu = false) (hmu : r.state.mu = false)
      (hpending : r.state.pendingMu = s.pendingMu) (hnext : r.next = []) : LockStep s a r
  | lockPending (hfree : s.pendingMu = false) :
      LockStep s (.link .drainLock)
        { state := { s with pendingMu := true }, next := [.link .drain] }
  | unlockPending (hempty : s.pending = .empty) :
      LockStep s (.link .drain)
        { state := { s with pendingMu := false }, next := [.link .closeConn] }

theorem exec_lockStep {a : Action} (h : exec cfg s i a = some r) : LockStep s a r := by
  cases a with
  | go =>
    obtain ⟨l, -, rfl⟩ := exec_go h
    cases l <;> exact .keep rfl rfl rfl rfl
  | call a =>
    cases execCall_callStep h with
    | nextSeq who | registers who | written who | unwritten who | timesOut who =>
      cases who <;> exact .keep rfl rfl rfl rfl
    | bound | hangUp => exact .unlock rfl rfl rfl rfl rfl
    | _ => exact .keep rfl rfl rfl rfl
  | link a =>
    cases execLink_linkStep h with
    | connect hfree | close hfree | disconnect hfree => exact .lock rfl rfl hfree rfl rfl rfl rfl
    | dialFailed => exact .unlock rfl rfl rfl rfl rfl
    | drainLock hfree => exact .lockPending hfree
    | drained hempty => exact .unlockPending hempty
    | closeConn =>
      refine .unlock rfl rfl rfl ?_ rfl
      simp only [closeConn, hangUp, modifySession]
      split <;> rfl
    | _ => exact .keep rfl rfl rfl rfl
  | read a => exact (by cases execRead_readStep h <;> exact .keep rfl rfl rfl rfl)
  | deliver a => exact (by cases execDeliver_deliverStep h <;> exact .keep rfl rfl rfl rfl)
  | keep a =>
    cases execKeep_keepStep h with
    | stops | ticks => exact .keep rfl rfl rfl rfl
    | writes seq next hnext => rcases hnext with rfl | rfl <;> exact .keep rfl rfl rfl rfl

end Exec

end Client

end SmscGateway
