import SmscGateway.Client.Connection
import SmscGateway.Client.Deliver

/-!
# Which session a response goes to

A worker writes its response through the field `conn`, which `Connect`
replaces. So a `deliver_sm` is answered on the session it came from if no
`deliver_sm` is under way when the field is replaced: none at hand of a
goroutine, and none in a queue that a worker takes from (`Quiescent`). Then
whatever is under way later was read from the connection of the field
(`Current`).
-/

namespace SmscGateway

open List Program

namespace Client

open Smpp

/-! ## What is under way -/

/-- The session of the `deliver_sm` an action has at hand. -/
def Action.session : Action → Option ℕ
  | .read (.readRest x h) | .read (.readBody x _ h) =>
    if h.commandID = cmdDeliverSM then some x else none
  | .read (.dispatchPDU x pdu) => if pdu.commandID = cmdDeliverSM then some x else none
  | .deliver (.enqueueDeliver a) | .deliver (.enqueueSelect a) | .deliver (.enqueueBlocked a _ _)
  | .deliver (.handle _ _ a) | .deliver (.respond _ _ a _) => some a.session
  | _ => none

/-- The queue a worker takes from. -/
def Action.serves : Action → Option ℕ
  | .deliver (.worker _ q) | .deliver (.handle _ q _) | .deliver (.respond _ q _ _) => some q
  | _ => none

@[inherit_doc Action.serves]
def Loop.serves : Loop → Option ℕ
  | .worker _ q => some q
  | _ => none

/-- Some worker takes from the queue, or is going to. -/
def Served (c : ClientConf) (q : ℕ) : Prop :=
  (∃ a ∈ c.actions, a.serves = some q) ∨ ∃ l ∈ c.shared.spawned, l.serves = some q

/-- **No `deliver_sm` is under way.** -/
def Quiescent (c : ClientConf) : Prop :=
  (∀ a ∈ c.threads.flatten, a.session = none ∧ ∀ q ∈ a.serves, c.shared.queue q = []) ∧
    ∀ l ∈ c.shared.spawned, ∀ q ∈ l.serves, c.shared.queue q = []

instance (c : ClientConf) : Decidable (Quiescent c) := inferInstanceAs (Decidable (_ ∧ _))

/-- The connection an action puts into the field `conn`. -/
def Action.setsConn : Action → Option ℕ
  | .link (.setConn x) => some x
  | _ => none

/-- When `Connect` replaces the connection, no `deliver_sm` is under way. -/
def QuietReconnect (c : ClientConf) (_ : Input) (a : Action) : Prop :=
  ∀ _x ∈ a.setsConn, Quiescent c
  deriving Decidable

/-! ## What a step does to it -/

section Exec

variable {cfg : Config} {s : State} {i : Input} {r : ClientEffect} {a : Action}

/-- A step that leaves everything under way where it is. -/
structure Bystander (s : State) (r : ClientEffect) : Prop where
  conn : r.state.conn = s.conn
  deliverQ : r.state.deliverQ = s.deliverQ
  queue : ∀ q, r.state.queue q = s.queue q
  spawned : ∀ l ∈ r.state.spawned, l.serves.isSome = true → l ∈ s.spawned
  next : ∀ b ∈ r.next, b.session = none ∧ b.serves = none

theorem queue_modifySession (s : State) (x : ℕ) {f : Session → Session}
    (hf : ∀ y, (f y).deliverQ = y.deliverQ) (q : ℕ) : (s.modifySession x f).queue q = s.queue q := by
  simp only [State.queue, State.modifySession, getElem?_modify]
  cases s.sessions[q]? with
  | none => rfl
  | some y => by_cases hx : x = q <;> simp [hx, hf]

variable {seen : List Obs}

/-- What a step puts in its place, when it is the loop of a reader or the next
step of a caller. -/
theorem bystander_of_same {s' : State} {next : List Action} (hconn : s'.conn = s.conn)
    (hq : s'.deliverQ = s.deliverQ) (hsessions : s'.sessions = s.sessions)
    (hspawned : s'.spawned = s.spawned) (hnext : ∀ b ∈ next, b.session = none ∧ b.serves = none) :
    Bystander s { state := s', next, seen } where
  conn := hconn
  deliverQ := hq
  queue := fun q => by rw [State.queue, State.queue, hsessions]
  spawned := fun l hl _ => hspawned ▸ hl
  next := hnext

theorem execCall_bystander {a : CallAction} (h : execCall cfg s i a = some r) : Bystander s r := by
  cases execCall_callStep h with
  | timesOut who =>
    refine bystander_of_same rfl rfl rfl rfl ?_
    cases who <;> simp [giveUp, Action.session, Action.serves]
  | bound =>
    -- the keep-alive loop is started, which serves no queue
    refine ⟨rfl, rfl, fun _ => rfl, fun l hl hs => ?_, by simp⟩
    rcases mem_append.mp hl with hl | hl
    · exact hl
    · obtain rfl := mem_singleton.mp hl
      cases hs
  | hangUp x outcome =>
    exact ⟨rfl, rfl, queue_modifySession s x fun _ => rfl, fun _ hl _ => hl, by simp⟩
  | _ => exact bystander_of_same rfl rfl rfl rfl (by simp [Action.session, Action.serves])

/-- The steps of `Connect` that replace a field or start the workers. -/
def LinkAction.replaces : LinkAction → Bool
  | .setConn _ | .setDeliverQ _ | .startDeliverLoop _ => true
  | _ => false

theorem execLink_bystander {a : LinkAction} (ha : a.replaces = false)
    (h : execLink cfg s i a = some r) : Bystander s r := by
  cases execLink_linkStep h with
  | setConn | setDeliverQ | startDeliverLoop => cases ha
  | dialled =>
    refine ⟨rfl, rfl, fun q => ?_, fun _ hl _ => hl, by simp [Action.session, Action.serves]⟩
    simp only [State.queue, getElem?_append]
    split
    · rfl
    · rename_i hlt
      rw [getElem?_eq_none (by omega : s.sessions.length ≤ q), getElem?_singleton]
      split <;> rfl
  | startReadLoop x =>
    refine ⟨rfl, rfl, fun _ => rfl, fun l hl hs => ?_, by simp [Action.session, Action.serves]⟩
    rcases mem_append.mp hl with hl | hl
    · exact hl
    · obtain rfl := mem_singleton.mp hl
      cases hs
  | closeDone | disconnect =>
    exact ⟨rfl, rfl, queue_modifySession s s.done fun _ => rfl, fun _ hl _ => hl,
      by simp [Action.session, Action.serves]⟩
  | closeConn =>
    have hclose : s.closeConn.conn = s.conn ∧ s.closeConn.deliverQ = s.deliverQ ∧
        (∀ q, s.closeConn.queue q = s.queue q) ∧ s.closeConn.spawned = s.spawned := by
      unfold State.closeConn
      split
      · exact ⟨rfl, rfl, queue_modifySession s _ fun _ => rfl, rfl⟩
      · exact ⟨rfl, rfl, fun _ => rfl, rfl⟩
    exact ⟨hclose.1, hclose.2.1, hclose.2.2.1, fun l hl _ => hclose.2.2.2 ▸ hl, by simp⟩
  | _ => exact bystander_of_same rfl rfl rfl rfl (by simp [Action.session, Action.serves])

/-- **What a step does to the `deliver_sm` under way.** -/
structure Carries (s : State) (a : Action) (r : ClientEffect) : Prop where
  conn : r.state.conn = s.conn ∨ ∃ x, a = .link (.setConn x)
  deliverQ : r.state.deliverQ = s.deliverQ ∨ ∃ x, a = .link (.setDeliverQ x) ∧ r.state.deliverQ = x
  /-- What is new in a queue was at hand, and the queue was that of the field,
  now or when the goroutine blocked. -/
  queue : ∀ q, ∀ b ∈ r.state.queue q, b ∈ s.queue q ∨ (a.session = some b.session ∧
    (q = s.deliverQ ∨ ∃ b d, a = .deliver (.enqueueBlocked b d q)))
  /-- What is at hand was so before, or is read now, or comes from a queue. -/
  session : ∀ b ∈ r.next, ∀ x ∈ b.session, a.session = some x ∨
    (a.waitsOn = some x ∧ s.isOpen x = true) ∨
    ∃ q, a.serves = some q ∧ ∃ m ∈ s.queue q, m.session = x
  serves : ∀ b ∈ r.next, ∀ q ∈ b.serves, a.serves = some q ∨ ∃ l ∈ s.spawned, l.serves = some q
  spawned : ∀ l ∈ r.state.spawned, ∀ q ∈ l.serves, l ∈ s.spawned ∨
    ((∃ x, a = .link (.startDeliverLoop x)) ∧ q = s.deliverQ)

theorem Bystander.carries (h : Bystander s r) (a : Action) : Carries s a r where
  conn := .inl h.conn
  deliverQ := .inl h.deliverQ
  queue := fun q b hb => .inl (h.queue q ▸ hb)
  session := fun b hb x hx => by
    rw [(h.next b hb).1] at hx
    cases hx
  serves := fun b hb q hq => by
    rw [(h.next b hb).2] at hq
    cases hq
  spawned := fun l hl q hq => .inl (h.spawned l hl (Option.isSome_iff_exists.mpr ⟨q, hq⟩))

theorem execLink_carries {a : LinkAction} (h : execLink cfg s i a = some r) :
    Carries s (.link a) r := by
  cases execLink_linkStep h with
  | setConn x =>
    exact ⟨.inr ⟨x, rfl⟩, .inl rfl, fun _ _ hb => .inl hb,
      by simp [Action.session], by simp [Action.serves], fun _ hl _ _ => .inl hl⟩
  | setDeliverQ x =>
    exact ⟨.inl rfl, .inr ⟨x, rfl, rfl⟩, fun _ _ hb => .inl hb,
      by simp [Action.session], by simp [Action.serves], fun _ hl _ _ => .inl hl⟩
  | startDeliverLoop x =>
    refine ⟨.inl rfl, .inl rfl, fun _ _ hb => .inl hb,
      by simp [Action.session], by simp [Action.serves], fun l hl q hq => ?_⟩
    rcases mem_append.mp hl with hl | hl
    · exact .inl hl
    · obtain rfl := (mem_replicate.mp hl).2
      exact .inr ⟨⟨x, rfl⟩, (Option.some.inj hq).symm⟩
  | _ => exact (execLink_bystander rfl h).carries _

/-- A step of a `ReadLoop` that leaves the queues alone. -/
theorem carries_of_read {next : List Action}
    (hsession : ∀ b ∈ next, ∀ x ∈ b.session, a.session = some x ∨
      (a.waitsOn = some x ∧ s.isOpen x = true))
    (hserves : ∀ b ∈ next, b.serves = none) : Carries s a { state := s, next, seen } where
  conn := .inl rfl
  deliverQ := .inl rfl
  queue := fun _ _ hb => .inl hb
  session := fun b hb x hx => (hsession b hb x hx).imp_right .inl
  serves := fun b hb q hq => by
    rw [hserves b hb] at hq
    cases hq
  spawned := fun _ hl _ _ => .inl hl

theorem execRead_carries {a : ReadAction} (h : execRead s i a = some r) :
    Carries s (.read a) r := by
  cases execRead_readStep h with
  | bare x hd _ hopen | header x hd _ hopen =>
    -- a header is read from the connection the read waits on
    refine carries_of_read (fun b hb y hy => .inr ?_) (by simp [Action.serves])
    obtain rfl := mem_singleton.mp hb
    simp only [Action.session, Option.mem_def] at hy
    obtain ⟨-, rfl⟩ := eq_of_guard hy
    exact ⟨rfl, hopen⟩
  | readRest x y hd | body x y hd b =>
    refine carries_of_read (fun b hb z hz => .inl ?_) (by simp [Action.serves])
    obtain rfl := mem_singleton.mp hb
    exact hz
  | deliver x pdu hcmd =>
    refine ⟨.inl rfl, .inl rfl, fun _ _ hb => .inl hb, fun b hb y hy => ?_,
      by simp [Action.serves], fun _ hl _ _ => .inl hl⟩
    simp only [mem_cons, not_mem_nil, or_false] at hb
    rcases hb with rfl | rfl
    · refine .inl ?_
      rw [Action.session, if_pos hcmd]
      exact hy
    · cases hy
  | _ =>
    refine Bystander.carries ?_ _
    refine bystander_of_same rfl rfl rfl rfl ?_
    simp [Action.session, Action.serves]

/-- What a queue holds after one more message is put into it. -/
theorem mem_queue_push {q q' : ℕ} {b m : Arrival} (h : m ∈ (push s q b).state.queue q') :
    m ∈ s.queue q' ∨ (q' = q ∧ m = b) := by
  simp only [push, State.queue, State.modifySession, getElem?_modify] at h ⊢
  cases hx : s.sessions[q']? with
  | none =>
    rw [hx] at h
    cases h
  | some y =>
    rw [hx] at h
    by_cases hq : q = q'
    · simp only [hq, if_true, Option.map_some, Option.getD_some, Option.map_eq_map,
        mem_append, mem_singleton] at h ⊢
      exact h.imp_right fun hm => ⟨trivial, hm⟩
    · left
      simpa [hq] using h

theorem carries_push {q : ℕ} {b : Arrival} (ha : a.session = some b.session)
    (hq : q = s.deliverQ ∨ ∃ b d, a = .deliver (.enqueueBlocked b d q)) :
    Carries s a (push s q b) := by
  refine ⟨.inl rfl, .inl rfl, fun q' m hm => ?_, by simp [push], by simp [push],
    fun _ hl _ _ => .inl hl⟩
  rcases mem_queue_push hm with hm | ⟨rfl, rfl⟩
  · exact .inl hm
  · exact .inr ⟨ha, hq⟩

/-- A step that hands its `deliver_sm` on, or goes back to the queue. -/
theorem carries_of_next {b : Action} (hsession : ∀ x ∈ b.session, a.session = some x)
    (hserves : ∀ q ∈ b.serves, a.serves = some q) :
    Carries s a { state := s, next := [b], seen } := by
  refine ⟨.inl rfl, .inl rfl, fun _ _ hb => .inl hb, fun c hc x hx => ?_, fun c hc q hq => ?_,
    fun _ hl _ _ => .inl hl⟩
  · obtain rfl := mem_singleton.mp hc
    exact .inl (hsession x hx)
  · obtain rfl := mem_singleton.mp hc
    exact .inl (hserves q hq)

theorem execDeliver_carries {a : DeliverAction} (h : execDeliver cfg s i a = some r) :
    Carries s (.deliver a) r := by
  cases execDeliver_deliverStep h with
  | dropped | blockedDropped | stops =>
    refine Bystander.carries ?_ _
    exact bystander_of_same rfl rfl rfl rfl (by simp)
  | queued b => exact carries_push rfl (.inl rfl)
  | blockedQueued b d q => exact carries_push rfl (.inr ⟨b, d, rfl⟩)
  | full b | blocks b => exact carries_of_next (fun _ hx => hx) (fun _ hq => by cases hq)
  | takes d q b rest hqueue =>
    refine ⟨.inl rfl, .inl rfl, fun q' m hm => .inl ?_, fun c hc x hx => ?_,
      fun c hc q' hq => ?_, fun _ hl _ _ => .inl hl⟩
    · -- the queue got shorter
      by_cases hq : q = q'
      · subst hq
        rw [hqueue]
        refine mem_cons_of_mem _ ?_
        simp only [State.queue, State.modifySession, getElem?_modify] at hm
        cases hx : s.sessions[q]? with
        | none => simp [hx] at hm
        | some y => simpa [hx] using hm
      · simpa [State.queue, State.modifySession, getElem?_modify, hq] using hm
    · obtain rfl := mem_singleton.mp hc
      exact .inr (.inr ⟨q, rfl, b, by rw [hqueue]; exact mem_cons_self,
        Option.some.inj hx⟩)
    · obtain rfl := mem_singleton.mp hc
      exact .inl hq
  | handle d q b => exact carries_of_next (fun _ hx => hx) (fun _ hq => hq)
  | respond d q b ok => exact carries_of_next (fun _ hx => by cases hx) (fun _ hq => hq)

theorem exec_carries (h : exec cfg s i a = some r) : Carries s a r := by
  cases a with
  | go =>
    obtain ⟨l, hl, rfl⟩ := exec_go h
    refine ⟨.inl rfl, .inl rfl, fun _ _ hb => .inl hb, fun b hb x hx => ?_,
      fun b hb q hq => ?_, fun _ hl _ _ => .inl (mem_of_mem_eraseIdx hl)⟩
    · obtain rfl := mem_singleton.mp hb
      cases l <;> cases hx
    · obtain rfl := mem_singleton.mp hb
      refine .inr ⟨l, mem_of_getElem? hl, ?_⟩
      cases l <;> exact hq
  | call a => exact (execCall_bystander h).carries _
  | link a => exact execLink_carries h
  | read a => exact execRead_carries h
  | deliver a => exact execDeliver_carries h
  | keep a =>
    refine Bystander.carries ?_ _
    cases execKeep_keepStep h with
    | stops | ticks =>
      exact bystander_of_same rfl rfl rfl rfl (by simp [Action.session, Action.serves])
    | writes seq next hnext =>
      rcases hnext with rfl | rfl <;>
        exact bystander_of_same rfl rfl rfl rfl (by simp [Action.session, Action.serves])

/-- What a goroutine on its way through `Connect` relies on: the new queue is
empty and nobody knows it yet; once the field points to it, what comes into it
is from the connection of the field. -/
def Action.Expects (s : State) : Action → Prop
  | .link (.setConn x) | .link (.setDone x) | .link (.setDeliverQ x) =>
    s.queue x = [] ∧ s.deliverQ < x
  | .link (.startDeliverLoop _) => ∀ b ∈ s.queue s.deliverQ, s.conn = some b.session
  | _ => True

theorem expects_of_not_holdsMu (ha : a.holdsMu = false) : a.Expects s := by
  cases a with
  | link a => cases a <;> trivial
  | go | call a | read a | deliver a | keep a => trivial

theorem execLink_expects {a : LinkAction} (hs : Sound s) (ha : (Action.link a).Expects s)
    (h : execLink cfg s i a = some r) : ∀ b ∈ r.next, b.Expects r.state := by
  cases execLink_linkStep h with
  | dialled =>
    have hnew : State.queue { s with sessions := s.sessions ++ [{}] } s.sessions.length = [] := by
      simp [State.queue]
    simpa [Action.Expects] using ⟨hnew, hs.deliverQ⟩
  | setConn x | setDone x => simpa [Action.Expects, State.queue] using ha
  | setDeliverQ x =>
    have hempty : State.queue { s with deliverQ := x } x = [] := ha.1
    simp [Action.Expects, hempty]
  | _ => simp [Action.Expects]

/-- What a goroutine relies on next. -/
theorem exec_expects (hs : Sound s) (ha : a.Expects s) (h : exec cfg s i a = some r) :
    ∀ b ∈ r.next, b.Expects r.state := by
  intro b hb
  cases a with
  | link a => exact execLink_expects hs ha h b hb
  | call a =>
    obtain ⟨a', rfl⟩ := execCall_next h b hb
    trivial
  | go | read a | deliver a | keep a =>
    -- who does not hold `mu` does not get it without a `Lock`
    cases exec_lockStep h with
    | keep _ _ hnext _ =>
      refine expects_of_not_holdsMu ?_
      simpa using countP_eq_zero.mp hnext b hb
    | unlock ha => cases ha

end Exec

/-! ## Runs -/

/-- **What is under way came from the connection of the field.** -/
structure Current (c : ClientConf) : Prop where
  hand : ∀ a ∈ c.actions, ∀ x ∈ a.session, c.shared.conn = some x
  served : ∀ q, Served c q → ∀ b ∈ c.shared.queue q, c.shared.conn = some b.session
  blocked : ∀ b d q, .deliver (.enqueueBlocked b d q) ∈ c.actions → q ≤ c.shared.deliverQ
  expects : ∀ a ∈ c.actions, a.Expects c.shared

theorem current_start : Current .start where
  hand := by simp [ClientConf.start, Conf.actions]
  served := by simp [ClientConf.start, Conf.actions, Served]
  blocked := by simp [ClientConf.start, Conf.actions]
  expects := by simp [ClientConf.start, Conf.actions]

section Step

variable {cfg : Config} {c c' : ClientConf} {j : ℕ} {input : Input} {a : Action}
  {r : ClientEffect} {rest : Multiset Action}

/-- A queue that is served was so before, unless its workers start now. -/
theorem served_of_step (hran : (program cfg).Ran c j input a r rest c') {q : ℕ}
    (hq : Served c' q) :
    Served c q ∨ ((∃ x, a = .link (.startDeliverLoop x)) ∧ q = c.shared.deliverQ) := by
  have hcarries := exec_carries hran.exec
  rcases hq with ⟨b, hb, hbq⟩ | ⟨l, hl, hlq⟩
  · rcases hran.cases hb with hb | hb
    · rcases hcarries.serves b hb q hbq with haq | hspawned
      · exact .inl (.inl ⟨a, hran.mem, haq⟩)
      · exact .inl (.inr hspawned)
    · exact .inl (.inl ⟨b, hran.pending hb, hbq⟩)
  · rw [hran.shared] at hl
    rcases hcarries.spawned l hl q hlq with hl | hstart
    · exact .inl (.inr ⟨l, hl, hlq⟩)
    · exact .inr hstart

/-- The connection is replaced while nothing is under way. -/
theorem current_setConn {x : ℕ} (hc : Current c) (hlocks : Locks c) (hquiet : Quiescent c)
    (hran : (program cfg).Ran c j input (.link (.setConn x)) r rest c') : Current c' := by
  obtain rfl := Option.some.inj hran.exec
  have hqueue : ∀ q, c'.shared.queue q = c.shared.queue q := fun q => by
    rw [hran.shared]
    rfl
  have hcases : ∀ b ∈ c'.actions, b = .link (.setDone x) ∨ b ∈ rest := fun b hb =>
    (hran.cases hb).imp_left mem_singleton.mp
  refine ⟨?_, ?_, ?_, ?_⟩
  · intro b hb y hy
    rcases hcases b hb with rfl | hb
    · cases hy
    · rw [(hquiet.1 b (hran.pending hb)).1] at hy
      cases hy
  · intro q hq b hb
    rw [hqueue] at hb
    have hempty : c.shared.queue q = [] := by
      rcases served_of_step hran hq with hq | ⟨⟨y, hy⟩, -⟩
      · rcases hq with ⟨b, hb, hbq⟩ | ⟨l, hl, hlq⟩
        · exact (hquiet.1 b hb).2 q hbq
        · exact hquiet.2 l hl q hlq
      · cases hy
    rw [hempty] at hb
    cases hb
  · intro b d q hmem
    rw [hran.shared]
    rcases hcases _ hmem with hmem | hmem
    · cases hmem
    · exact hc.blocked b d q (hran.pending hmem)
  · intro b hb
    rcases hcases b hb with rfl | hb
    · have hx := hc.expects _ hran.mem
      rw [hran.shared]
      exact hx
    · exact expects_of_not_holdsMu (hlocks.alone hran.before (.inl rfl) b hb)

/-- While the fields stand, a goroutine finds what it relies on. -/
theorem Carries.expects {s : State} {b : Action} (h : Carries s a r)
    (hconn : r.state.conn = s.conn) (hdq : r.state.deliverQ = s.deliverQ)
    (ha : ∀ x ∈ a.session, s.conn = some x)
    (hblocked : ∀ m d q, a = .deliver (.enqueueBlocked m d q) → q ≤ s.deliverQ)
    (hb : b.Expects s) : b.Expects r.state := by
  have hfresh : ∀ x, s.queue x = [] ∧ s.deliverQ < x →
      r.state.queue x = [] ∧ r.state.deliverQ < x := by
    rintro x ⟨hx, hlt⟩
    refine ⟨eq_nil_iff_forall_not_mem.mpr fun m hm => ?_, hdq ▸ hlt⟩
    rcases h.queue x m hm with hm | ⟨-, rfl | ⟨m', d, hblock⟩⟩
    · rw [hx] at hm
      cases hm
    · exact absurd hlt (lt_irrefl _)
    · have hle := hblocked m' d x hblock
      omega
  unfold Action.Expects at hb ⊢
  split at hb
  · exact hfresh _ hb
  · exact hfresh _ hb
  · exact hfresh _ hb
  · intro m hm
    rw [hdq] at hm
    rw [hconn]
    rcases h.queue _ m hm with hm | ⟨hm, -⟩
    · exact hb m hm
    · exact ha _ hm
  · trivial

theorem current_step (hrun : Runs cfg c) (hc : Current c)
    (hconn : r.state.conn = c.shared.conn) (hran : (program cfg).Ran c j input a r rest c') :
    Current c' := by
  have hcarries := exec_carries hran.exec
  have ha := hran.mem
  have hdq : c.shared.deliverQ ≤ r.state.deliverQ := by
    rcases hcarries.deliverQ with h | ⟨x, rfl, hx⟩
    · exact h.ge
    · rw [hx]
      exact (hc.expects _ ha).2.le
  refine ⟨?_, ?_, ?_, ?_⟩ <;> rw [hran.shared]
  · intro b hb x hx
    rw [hconn]
    rcases hran.cases hb with hb | hb
    · rcases hcarries.session b hb x hx with hsame | hread | ⟨q, hq, m, hm, rfl⟩
      · exact hc.hand a ha x hsame
      · exact conn_of_open hrun ha hread.1 hread.2
      · exact hc.served q (.inl ⟨a, ha, hq⟩) m hm
    · exact hc.hand b (hran.pending hb) x hx
  · intro q hq m hm
    rw [hconn]
    rcases hcarries.queue q m hm with hm | ⟨hm, -⟩
    · rcases served_of_step hran hq with hq | ⟨⟨x, rfl⟩, rfl⟩
      · exact hc.served q hq m hm
      · exact hc.expects _ ha m hm
    · exact hc.hand a ha _ hm
  · intro b d q hmem
    rcases hran.cases hmem with hmem | hmem
    · rw [exec_blocked hran.exec hmem]
      exact hdq
    · exact (hc.blocked b d q (hran.pending hmem)).trans hdq
  · intro b hb
    rcases hran.cases hb with hb | hb
    · exact exec_expects (linked hrun).sound (hc.expects a ha) hran.exec b hb
    · rcases hcarries.deliverQ with hdq | ⟨x, rfl, -⟩
      · exact hcarries.expects hconn hdq (hc.hand a ha)
          (fun m d q hm => hc.blocked m d q (hm ▸ ha)) (hc.expects b (hran.pending hb))
      · exact expects_of_not_holdsMu ((locks hrun).alone hran.before (.inl rfl) b hb)

theorem entry_session (h : entry a = true) :
    a.session = none ∧ a.serves = none ∧ a.holdsMu = false := by
  unfold entry at h
  split at h <;> first | exact ⟨rfl, rfl, rfl⟩ | cases h

theorem step_current {e : Event Input Action} (hrun : Runs cfg c) (hc : Current c)
    (hok : Program.When QuietReconnect c e)
    (h : (program cfg).step c e = some c') : Current c' := by
  rcases step_cases h with ⟨a, -, hst⟩ | ⟨j, input, a, r, rest, rfl, hran⟩
  · obtain ⟨hsession, hserves, hmu⟩ := entry_session hst.entry
    refine ⟨?_, ?_, ?_, ?_⟩ <;> rw [hst.shared]
    · intro b hb x hx
      rcases hst.cases hb with rfl | hb
      · rw [hsession] at hx
        cases hx
      · exact hc.hand b hb x hx
    · intro q hq
      refine hc.served q ?_
      rcases hq with ⟨b, hb, hbq⟩ | hq
      · rcases hst.cases hb with rfl | hb
        · rw [hserves] at hbq
          cases hbq
        · exact .inl ⟨b, hb, hbq⟩
      · exact .inr (hst.shared ▸ hq)
    · intro b d q hmem
      rcases hst.cases hmem with rfl | hmem
      · cases hst.entry
      · exact hc.blocked b d q hmem
    · intro b hb
      rcases hst.cases hb with rfl | hb
      · exact expects_of_not_holdsMu hmu
      · exact hc.expects b hb
  · rcases (exec_carries hran.exec).conn with hconn | ⟨x, rfl⟩
    · exact current_step hrun hc hconn hran
    · exact current_setConn hc (locks hrun) (hok _ hran.head x rfl) hran

end Step

variable {cfg : Config}

/-- What happens in some run in which `Connect` replaces the connection only
when no `deliver_sm` is under way. -/
abbrev QuietRuns (cfg : Config) (c : ClientConf) : Prop :=
  (program cfg).Reaches (Program.When QuietReconnect) ClientConf.start c

variable {c : ClientConf}

theorem QuietRuns.runs (h : QuietRuns cfg c) : Runs cfg c :=
  h.mono fun _ _ _ => trivial

theorem current (h : QuietRuns cfg c) : Current c := by
  induction h with
  | start => exact current_start
  | step hrun hok hs ih => exact step_current (QuietRuns.runs hrun) ih hok hs

/-! ## Where a `deliver_sm` was read -/

section Seen

variable {s : State} {i : Input} {r : ClientEffect} {a : Action}

/-- What is dispatched is read now, unless its header and its body came from
different connections. -/
theorem exec_reads (h : exec cfg s i a = some r) {x : ℕ} {pdu : PDU}
    (hmem : .read (.dispatchPDU x pdu) ∈ r.next) : .read x pdu ∈ r.seen ∨
      ∃ y hd, a = .read (.readBody x y hd) ∧ hd.commandID = pdu.commandID ∧ x ≠ y := by
  rcases read_of_next h hmem with ⟨-, hb⟩ | ⟨a, rfl, hstep⟩
  · cases hb
  · cases hstep with
    | bare y hd =>
      obtain ⟨rfl, rfl⟩ := ReadAction.dispatchPDU.inj (Action.read.inj (mem_singleton.mp hmem))
      exact .inl mem_cons_self
    | body z y hd b =>
      obtain ⟨rfl, rfl⟩ := ReadAction.dispatchPDU.inj (Action.read.inj (mem_singleton.mp hmem))
      by_cases hy : x = y
      · refine .inl ?_
        rw [if_pos hy]
        exact mem_cons_self
      · exact .inr ⟨y, hd, rfl, rfl, hy⟩
    | _ => simp at hmem

/-- The rest is read from the connection the field points to then. -/
theorem exec_readBody (h : exec cfg s i a = some r) {x y : ℕ} {hd : Header}
    (hmem : .read (.readBody x y hd) ∈ r.next) :
    a = .read (.readRest x hd) ∧ s.conn = some y := by
  rcases read_of_next h hmem with ⟨-, hb⟩ | ⟨a, rfl, hstep⟩
  · cases hb
  · cases hstep with
    | readRest x' y' hd' hconn =>
      obtain ⟨rfl, rfl, rfl⟩ := ReadAction.readBody.inj (Action.read.inj (mem_singleton.mp hmem))
      exact ⟨rfl, hconn⟩
    | _ => simp at hmem

variable {k : ℕ}

/-- What a worker, or `enqueueDeliver`, shows. -/
theorem execDeliver_label {a : DeliverAction} (h : execDeliver cfg s i a = some r)
    {l : DeliverLabel} (hmem : .deliver k l ∈ r.seen) :
    (∀ b, l ≠ .dispatched b) ∧ ∀ conn resp, l = .attempted conn resp →
      ∃ d q b ok, a = .respond d q b ok ∧ k = b.ticket ∧ conn = s.conn := by
  cases execDeliver_deliverStep h with
  | full | blocks | stops => cases hmem
  | dropped | blockedDropped | queued | blockedQueued | takes | handle =>
    obtain ⟨-, rfl⟩ := Obs.deliver.inj (mem_singleton.mp hmem)
    exact ⟨fun _ hl => (by cases hl), fun _ _ hl => (by cases hl)⟩
  | respond d q b ok =>
    simp only [mem_cons, reduceCtorEq, not_mem_nil, or_false, false_or,
      Obs.deliver.injEq] at hmem
    obtain ⟨rfl, rfl⟩ := hmem
    refine ⟨fun _ hl => (by cases hl), fun conn resp hl => ⟨d, q, b, ok, rfl, rfl, ?_⟩⟩
    cases hl
    rfl

/-- What is dispatched is the PDU at hand. -/
theorem exec_dispatched (h : exec cfg s i a = some r) {b : Arrival}
    (hmem : .deliver k (.dispatched b) ∈ r.seen) : ∃ pdu,
      a = .read (.dispatchPDU b.session pdu) ∧ pdu.commandID = cmdDeliverSM ∧
        b.msg = deliverMessage pdu := by
  rcases exec_cases h with ⟨haside, -⟩ | ⟨x, pdu, rfl, hcmd, rfl⟩ | ⟨a, rfl, ha⟩
  · have hnone := filterMap_eq_nil_iff.mp haside.seen _ hmem
    cases hnone
  · simp only [mem_singleton, Obs.deliver.injEq, DeliverLabel.dispatched.injEq] at hmem
    obtain ⟨-, rfl⟩ := hmem
    exact ⟨pdu, rfl, hcmd, rfl⟩
  · exact absurd rfl ((execDeliver_label ha hmem).1 b)

/-- A response is written on the connection of the field. -/
theorem exec_attempted (h : exec cfg s i a = some r) {conn : Option ℕ} {resp : PDU}
    (hmem : .deliver k (.attempted conn resp) ∈ r.seen) :
    ∃ d q b ok, a = .deliver (.respond d q b ok) ∧ k = b.ticket ∧ conn = s.conn := by
  rcases exec_cases h with ⟨haside, -⟩ | ⟨x, pdu, rfl, -, rfl⟩ | ⟨a, rfl, ha⟩
  · have hnone := filterMap_eq_nil_iff.mp haside.seen _ hmem
    cases hnone
  · simp at hmem
  · obtain ⟨d, q, b, ok, rfl, hk, hconn⟩ := (execDeliver_label ha hmem).2 conn resp rfl
    exact ⟨d, q, b, ok, rfl, hk, hconn⟩

end Seen

/-- Every `deliver_sm` was read from the session it is said to be of. -/
structure Sourced (c : ClientConf) : Prop where
  body : ∀ x y hd, .read (.readBody x y hd) ∈ c.actions → hd.commandID = cmdDeliverSM → x = y
  read : ∀ x pdu, .read (.dispatchPDU x pdu) ∈ c.actions → pdu.commandID = cmdDeliverSM →
    .read x pdu ∈ c.trace
  dispatched : ∀ k a, .deliver k (.dispatched a) ∈ c.trace → ∃ pdu,
    .read a.session pdu ∈ c.trace ∧ pdu.commandID = cmdDeliverSM ∧ a.msg = deliverMessage pdu

theorem step_sourced {c' : ClientConf} {e : Event Input Action} (hcurrent : Current c)
    (hc : Sourced c) (h : (program cfg).step c e = some c') : Sourced c' := by
  have hgrows := (trace_of_step h).subset
  refine ⟨fun x y hd => ?_, fun x pdu => ?_, fun k b hmem => ?_⟩
  · intro hmem hcmd
    rcases step_cases h with ⟨a, -, hst⟩ | ⟨j, input, a, r, rest, -, hran⟩
    · rcases hst.cases hmem with rfl | hmem
      · cases hst.entry
      · exact hc.body x y hd hmem hcmd
    · rcases hran.cases hmem with hmem | hmem
      · -- the field still points to where the header came from
        obtain ⟨rfl, hconn⟩ := exec_readBody hran.exec hmem
        have hhand := hcurrent.hand _ hran.mem x (if_pos hcmd)
        exact Option.some.inj (hhand.symm.trans hconn)
      · exact hc.body x y hd (hran.pending hmem) hcmd
  · intro hmem hcmd
    rcases step_cases h with ⟨a, -, hst⟩ | ⟨j, input, a, r, rest, -, hran⟩
    · rcases hst.cases hmem with rfl | hmem
      · cases hst.entry
      · exact hgrows (hc.read x pdu hmem hcmd)
    · rcases hran.cases hmem with hmem | hmem
      · rcases exec_reads hran.exec hmem with hread | ⟨y, hd, rfl, hsame, hne⟩
        · exact hran.trace ▸ mem_append_right _ hread
        · exact absurd (hc.body x y hd hran.mem (hsame.trans hcmd)) hne
      · exact hgrows (hc.read x pdu (hran.pending hmem) hcmd)
  · obtain ⟨pdu, hread, hpdu⟩ : ∃ pdu, .read b.session pdu ∈ c.trace ∧
        pdu.commandID = cmdDeliverSM ∧ b.msg = deliverMessage pdu := by
      rcases mem_trace_of_step h hmem with hmem | ⟨j, input, a, r, rest, -, hran, hmem⟩
      · exact hc.dispatched k b hmem
      · obtain ⟨pdu, rfl, hcmd, hmsg⟩ := exec_dispatched hran.exec hmem
        exact ⟨pdu, hc.read _ _ hran.mem hcmd, hcmd, hmsg⟩
    exact ⟨pdu, hgrows hread, hpdu⟩

theorem sourced (h : QuietRuns cfg c) : Sourced c := by
  induction h with
  | start => exact ⟨by simp [ClientConf.start, Conf.actions],
      by simp [ClientConf.start, Conf.actions], by simp [ClientConf.start]⟩
  | step hrun _ hs ih => exact step_sourced (current hrun) ih hs

/-! ## Answers -/

/-- A worker that is about to respond holds a `deliver_sm` that was
dispatched. -/
theorem dispatched_of_respond (hd : Delivering c) {d q : ℕ} {b : Arrival} {ok : Bool}
    (hmem : .deliver (.respond d q b ok) ∈ c.actions) :
    .deliver b.ticket (.dispatched b) ∈ c.trace := by
  have htok : (b.ticket, Phase.handled b ok) ∈ (custody.track c).tokens := by
    refine Multiset.mem_add.mpr (.inl (Multiset.mem_add.mpr (.inr ?_)))
    exact (Multiset.mem_filterMap _ _).mpr ⟨_, hmem, rfl⟩
  have hword := traced_word (hd.faithful.traced _ _ htok)
  have hlabel : DeliverLabel.dispatched b ∈ wordOf (custody.track c).log b.ticket := by
    simp [hword]
  obtain ⟨o, ho, hlabel⟩ := mem_filterMap.mp (mem_wordOf.mp hlabel)
  have hobs : o = .deliver b.ticket (.dispatched b) := by
    cases o <;> simp [custody, Obs.labelOf] at hlabel
    rw [hlabel.1, hlabel.2]
  exact hobs ▸ ho

/-- Every response was written on the session of its `deliver_sm`. -/
def Home (c : ClientConf) : Prop :=
  ∀ k conn resp, .deliver k (.attempted conn resp) ∈ c.trace →
    ∃ a, .deliver k (.dispatched a) ∈ c.trace ∧ conn = some a.session

theorem home (h : QuietRuns cfg c) : Home c := by
  induction h with
  | start => simp [Home, ClientConf.start]
  | @step c c' e hrun hok hs ih =>
    intro k conn resp hmem
    have hgrows := (trace_of_step hs).subset
    rcases mem_trace_of_step hs hmem with hmem | ⟨j, input, a, r, rest, -, hran, hmem⟩
    · obtain ⟨b, hb, hconn⟩ := ih k conn resp hmem
      exact ⟨b, hgrows hb, hconn⟩
    · obtain ⟨d, q, b, ok, rfl, rfl, rfl⟩ := exec_attempted hran.exec hmem
      have hdispatched := dispatched_of_respond (delivering (QuietRuns.runs hrun)) hran.mem
      exact ⟨b, hgrows hdispatched, (current hrun).hand _ hran.mem _ rfl⟩

/-- The response was written on the session from which the `deliver_sm` with
its sequence number was read, the one that was dispatched, queued and
handled. -/
def AnsweredAtHome (c : ClientConf) (k : ℕ) (conn : Option ℕ) (resp : PDU) : Prop :=
  ∃ a ok pdu,
    history c k = [.dispatched a, .queued, .taken, .returned ok, .attempted conn resp] ∧
    .read a.session pdu ∈ c.trace ∧ pdu.commandID = cmdDeliverSM ∧
    resp.sequenceNumber = pdu.sequenceNumber ∧ conn = some a.session

/-- **A `deliver_sm` is answered on the session it came from**, if none is
under way whenever the connection is replaced. -/
theorem answered_on_own_session {c : ClientConf} (h : QuietRuns cfg c) (k : ℕ)
    (conn : Option ℕ) (resp : PDU) (hmem : .deliver k (.attempted conn resp) ∈ c.trace) :
    AnsweredAtHome c k conn resp := by
  have hd := delivering h.runs
  have hlog : (k, DeliverLabel.attempted conn resp) ∈ (custody.track c).log :=
    mem_filterMap.mpr ⟨_, hmem, rfl⟩
  have hattempted := mem_wordOf.mpr hlog
  obtain ⟨a, hdispatched, hconn⟩ := home h k conn resp hmem
  have hfirst : DeliverLabel.dispatched a ∈ wordOf (custody.track c).log k :=
    mem_wordOf.mpr (mem_filterMap.mpr ⟨_, hdispatched, rfl⟩)
  obtain ⟨pdu, hread, hcmd, hmsg⟩ := (sourced h).dispatched k a hdispatched
  obtain ⟨φ, hφ⟩ := hd.faithful.exists_of_mem_log hlog
  have hword := traced_word (hd.faithful.traced k φ hφ)
  cases φ with
  | answered conn' resp' =>
    obtain ⟨b, ok, rfl, hword⟩ := hword
    obtain rfl : a = b := by simpa [hword] using hfirst
    obtain ⟨rfl, rfl⟩ : conn = conn' ∧ resp = deliverResp a ok := by simpa [hword] using hattempted
    refine ⟨a, ok, pdu, hword, hread, hcmd, ?_, hconn⟩
    change a.msg.seqNum = pdu.sequenceNumber
    rw [hmsg]
    rfl
  | waiting b | queued b | held b | handled b ok => simp [hword] at hattempted
  | dropped =>
    obtain ⟨b, hword⟩ := hword
    simp [hword] at hattempted

/-- The `ReadLoop` on goroutine 1 fails and disconnects. -/
def disconnects : List (Event Input Action) := steps 1 8

/-- The next `Connect`, on goroutine 3; its `ReadLoop` is goroutine 4. -/
def reconnects : List (Event Input Action) :=
  .start (.link .connect) :: steps 3 10 ++
    .start .go :: .run 4 { spawned := 2 } ::
    reads 4 (response cmdBindTransceiverResp 2) 2 ++ steps 3 1

/-- A `deliver_sm` is answered, and after a reconnect the next one is, by the
workers of the new session. -/
theorem deliver_after_reconnect_answered :
    ∃ c, QuietRuns smallConfig c ∧
      (∃ resp, .deliver 0 (.attempted (some 1) resp) ∈ c.trace ∧
        AnsweredAtHome c 0 (some 1) resp) ∧
      ∃ resp, .deliver 1 (.attempted (some 2) resp) ∈ c.trace ∧
        AnsweredAtHome c 1 (some 2) resp := by
  exact Program.exists_reached (delivers ++ steps 2 3 ++ disconnects ++ reconnects ++ reads 4
    (deliverSM 7) 2 ++ .start .go :: .run 5 { spawned := 1 } :: steps 5 3) (by decide) fun h =>
    ⟨⟨deliverResp ⟨0, 1, deliverMessage (deliverSM 7)⟩ true, by decide, answered_on_own_session h _
    _ _ (by decide)⟩, deliverResp ⟨1, 2, deliverMessage (deliverSM 7)⟩ true, by decide,
    answered_on_own_session h _ _ _ (by decide)⟩

/-- A worker is at its handler when the session ends; it answers on the next
session. -/
theorem handler_outlives_session :
    ∃ c, Runs smallConfig c ∧ c.shared.bound = true ∧
      history c 0 = [.dispatched ⟨0, 1, deliverMessage (deliverSM 7)⟩, .queued, .taken,
        .returned true, .attempted (some 2) (deliverResp ⟨0, 1, deliverMessage (deliverSM 7)⟩ true)] ∧
      ¬ AnsweredAtHome c 0 (some 2)
        (deliverResp ⟨0, 1, deliverMessage (deliverSM 7)⟩ true) := by
  have h := runs_reached (delivers ++ steps 2 1 ++ disconnects ++ reconnects ++ steps 2 2) (by decide)
  have hhistory : history (reached (delivers ++ steps 2 1 ++ disconnects ++ reconnects ++ steps 2 2)) 0
      = [.dispatched ⟨0, 1, deliverMessage (deliverSM 7)⟩, .queued, .taken,
        .returned true, .attempted (some 2) (deliverResp ⟨0, 1, deliverMessage (deliverSM 7)⟩ true)] := by
    decide
  refine ⟨_, h, by decide, hhistory, ?_⟩
  rintro ⟨a, ok, pdu, hother, -, -, -, hconn⟩
  rw [hhistory] at hother
  obtain rfl : (⟨0, 1, deliverMessage (deliverSM 7)⟩ : Arrival) = a := by
    simpa using (List.cons.inj hother).1
  cases hconn

end Client

end SmscGateway
