import SmscGateway.Common.Custody
import SmscGateway.Client.Locks

/-!
# The life of a `deliver_sm`

From `dispatchPDU` on, a `deliver_sm` waits in `enqueueDeliver`, lies in a
queue, is held by a worker, and is answered, or it is dropped because the
session is over. `rules` are these moves, and every step of the client is one
of them or none (`exec_moves`), so each `deliver_sm` is in one place, and the
history of it is that of its place (`traced_word`).
-/

namespace SmscGateway

open List Custody

namespace Client

open Smpp

/-! ## The rules -/

/-- Where a `deliver_sm` is. -/
inductive Phase
  | waiting (a : Arrival)
  | queued (a : Arrival)
  | held (a : Arrival)
  /-- A worker holds it, and the handler has returned. -/
  | handled (a : Arrival) (ok : Bool)
  | answered (conn : Option ℕ) (resp : PDU)
  | dropped
  deriving DecidableEq

/-- The moves of a `deliver_sm`. -/
inductive Move : Phase → DeliverLabel → Phase → Prop
  | queued (a : Arrival) : Move (.waiting a) .queued (.queued a)
  | dropped (a : Arrival) : Move (.waiting a) .dropped .dropped
  | taken (a : Arrival) : Move (.queued a) .taken (.held a)
  | returned (a : Arrival) (ok : Bool) : Move (.held a) (.returned ok) (.handled a ok)
  | attempted (a : Arrival) (ok : Bool) (conn : Option ℕ) :
      Move (.handled a ok) (.attempted conn (deliverResp a ok)) (.answered conn (deliverResp a ok))

def rules : Lifecycle Phase DeliverLabel where
  enter l φ := ∃ a, l = .dispatched a ∧ φ = .waiting a
  next := Move

/-- The `deliver_sm` in a queue. -/
def stored (s : State) : Multiset (ℕ × Phase) :=
  ((s.sessions.flatMap (·.deliverQ)).map fun a => (a.ticket, Phase.queued a) : List _)

/-- The `deliver_sm` an action has at hand. -/
def Action.holds : Action → Option (ℕ × Phase)
  | .deliver (.enqueueDeliver a) | .deliver (.enqueueSelect a)
  | .deliver (.enqueueBlocked a _ _) => some (a.ticket, .waiting a)
  | .deliver (.handle _ _ a) => some (a.ticket, .held a)
  | .deliver (.respond _ _ a ok) => some (a.ticket, .handled a ok)
  | _ => none

/-- The `deliver_sm` whose life is over. -/
def Obs.ends : Obs → Option (ℕ × Phase)
  | .deliver k .dropped => some (k, .dropped)
  | .deliver k (.attempted conn resp) => some (k, .answered conn resp)
  | _ => none

def Obs.labelOf : Obs → Option (ℕ × DeliverLabel)
  | .deliver k l => some (k, l)
  | _ => none

/-- Who has a `deliver_sm`. -/
def custody : Custody State Action Obs ℕ Phase DeliverLabel where
  stored := stored
  holds := Action.holds
  ends := Obs.ends
  labelOf := Obs.labelOf

/-! ## Queues -/

section Queues

variable {s : State}

/-- What one element contributes to a list of lists, before and after it is
modified. -/
theorem exists_flatMap_modify {α β : Type} {l : List α} {n : ℕ} {x : α} (h : l[n]? = some x)
    (g : α → List β) (f : α → α) :
    ∃ others : Multiset β, (l.flatMap g : Multiset β) = (g x : Multiset β) + others ∧
      ((l.modify n f).flatMap g : Multiset β) = (g (f x) : Multiset β) + others := by
  induction l generalizing n with
  | nil => simp at h
  | cons y l ih =>
    cases n with
    | zero =>
      obtain rfl : y = x := by simpa using h
      exact ⟨(l.flatMap g : Multiset β), by simp, by simp⟩
    | succ n =>
      obtain ⟨others, hbefore, hafter⟩ := ih (n := n) (by simpa using h)
      refine ⟨(g y : Multiset β) + others, ?_, ?_⟩
      · rw [flatMap_cons, ← Multiset.coe_add, hbefore]
        abel
      · rw [modify_succ_cons, flatMap_cons, ← Multiset.coe_add, hafter]
        abel

/-- The tokens of a queue. -/
def queueTokens (q : List Arrival) : Multiset (ℕ × Phase) :=
  (q.map fun a => (a.ticket, Phase.queued a) : List _)

theorem exists_stored_modify {q : ℕ} {x : Session} (h : s.sessions[q]? = some x)
    (f : Session → Session) :
    ∃ others, stored s = queueTokens x.deliverQ + others ∧
      stored (s.modifySession q f) = queueTokens (f x).deliverQ + others := by
  obtain ⟨others, hbefore, hafter⟩ := exists_flatMap_modify h (·.deliverQ) f
  refine ⟨others.map fun a => (a.ticket, Phase.queued a), ?_, ?_⟩
  · rw [stored, ← Multiset.map_coe, hbefore, Multiset.map_add]
    rfl
  · rw [stored, ← Multiset.map_coe, State.modifySession, hafter, Multiset.map_add]
    rfl

theorem stored_modifySession (s : State) (q : ℕ) {f : Session → Session}
    (hf : ∀ x, (f x).deliverQ = x.deliverQ) : stored (s.modifySession q f) = stored s := by
  cases h : s.sessions[q]? with
  | none =>
    have hsame : s.modifySession q f = s := by
      simp only [State.modifySession, modify_eq_self (getElem?_eq_none_iff.mp h)]
    rw [hsame]
  | some x =>
    obtain ⟨others, hbefore, hafter⟩ := exists_stored_modify h f
    rw [hafter, hbefore, hf]

end Queues

/-! ## Every step is a move or none -/

/-- A step that has nothing to do with a `deliver_sm`. -/
structure Aside (s : State) (r : ClientEffect) : Prop where
  stored : stored r.state = stored s
  arrivals : r.state.arrivals = s.arrivals
  next : r.next.filterMap Action.holds = []
  seen : r.seen.filterMap Obs.labelOf = []

section Exec

variable {cfg : Config} {s : State} {i : Input} {r : ClientEffect} {a : Action}

theorem ends_of_labelOf {seen : List Obs} (h : seen.filterMap Obs.labelOf = []) :
    seen.filterMap Obs.ends = [] := by
  refine filterMap_eq_nil_iff.mpr fun o ho => ?_
  have hl := filterMap_eq_nil_iff.mp h o ho
  cases o <;> first | rfl | cases hl

theorem Aside.shifts (h : Aside s r) (ha : a.holds = none) : custody.Shifts rules s a r :=
  shifts_of_quiet a ha h.stored h.next (ends_of_labelOf h.seen) h.seen

theorem labelOf_left (o : Option ℕ) : (o.toList.map Obs.left).filterMap Obs.labelOf = [] := by
  cases o <;> rfl

theorem execCall_aside {a : CallAction} (h : execCall cfg s i a = some r) : Aside s r := by
  cases execCall_callStep h with
  | registers | unbinds => exact ⟨rfl, rfl, rfl, labelOf_left _⟩
  | timesOut who => cases who <;> exact ⟨rfl, rfl, rfl, rfl⟩
  | unregisters =>
    refine ⟨rfl, rfl, rfl, ?_⟩
    rw [filterMap_append, labelOf_left]
    rfl
  | hangUp x outcome => exact ⟨stored_modifySession s x fun _ => rfl, rfl, rfl, rfl⟩
  | _ => exact ⟨rfl, rfl, rfl, rfl⟩

theorem execLink_aside {a : LinkAction} (h : execLink cfg s i a = some r) : Aside s r := by
  cases execLink_linkStep h with
  | dialled => exact ⟨by simp [stored], rfl, rfl, rfl⟩
  | closeDone | disconnect => exact ⟨stored_modifySession s _ fun _ => rfl, rfl, rfl, rfl⟩
  | closeConn =>
    have hstored : stored s.closeConn = stored s ∧ s.closeConn.arrivals = s.arrivals := by
      unfold State.closeConn
      split
      · exact ⟨stored_modifySession s _ fun _ => rfl, rfl⟩
      · exact ⟨rfl, rfl⟩
    exact ⟨hstored.1, hstored.2, rfl, rfl⟩
  | _ => exact ⟨rfl, rfl, rfl, rfl⟩

/-- A message that `enqueueDeliver` queues. -/
theorem shifts_push {q : ℕ} {b : Arrival} (hq : q < s.sessions.length)
    (ha : a.holds = some (b.ticket, .waiting b)) : custody.Shifts rules s a (push s q b) := by
  obtain ⟨others, hbefore, hafter⟩ := exists_stored_modify (getElem?_eq_getElem hq)
    fun x => { x with deliverQ := x.deliverQ ++ [b] }
  refine shifts_of_move a (queueTokens s.sessions[q].deliverQ + others) ?_ ?_ rfl
    (Move.queued b)
  · intro rest
    rw [before_of_holds ha]
    exact congrArg _ (congrArg (· + rest) hbefore)
  · intro rest
    rw [after_eq]
    have hstored : custody.stored (push s q b).state =
        (b.ticket, Phase.queued b) ::ₘ (queueTokens s.sessions[q].deliverQ + others) := by
      refine hafter.trans ?_
      simp only [queueTokens, map_append, map_singleton, ← Multiset.coe_add,
        Multiset.coe_singleton, ← Multiset.singleton_add]
      abel
    rw [hstored]
    simp [push, custody, Obs.ends]

theorem execDeliver_moves {a : DeliverAction} (hq : s.deliverQ < s.sessions.length)
    (ha : ∀ b d q, a = .enqueueBlocked b d q → q < s.sessions.length)
    (h : execDeliver cfg s i a = some r) :
    custody.Shifts rules s (.deliver a) r ∧ r.state.arrivals = s.arrivals := by
  cases execDeliver_deliverStep h with
  | dropped b | blockedDropped b =>
    exact ⟨shifts_of_holds (V := custody) _ rfl rfl rfl rfl (Move.dropped b), rfl⟩
  | queued b => exact ⟨shifts_push hq rfl, rfl⟩
  | blockedQueued b d q => exact ⟨shifts_push (ha b d q rfl) rfl, rfl⟩
  | full b | blocks b =>
    exact ⟨shifts_of_passes (V := custody) _ rfl rfl rfl rfl rfl, rfl⟩
  | stops d q => exact ⟨Aside.shifts ⟨rfl, rfl, rfl, rfl⟩ rfl, rfl⟩
  | takes d q b rest hqueue =>
    -- the message leaves the queue
    have hsome : ∃ x, s.sessions[q]? = some x ∧ x.deliverQ = b :: rest := by
      unfold State.queue at hqueue
      cases hx : s.sessions[q]? with
      | none => rw [hx] at hqueue; cases hqueue
      | some x => exact ⟨x, rfl, by simpa [hx] using hqueue⟩
    obtain ⟨x, hx, hxq⟩ := hsome
    obtain ⟨others, hbefore, hafter⟩ := exists_stored_modify hx
      fun x => { x with deliverQ := rest }
    refine ⟨shifts_of_move _ (queueTokens rest + others) ?_ ?_ rfl
      (Move.taken b), rfl⟩
    · intro others'
      rw [before_of_none rfl]
      change stored s + others' = _
      rw [hbefore, hxq]
      simp [queueTokens, ← Multiset.cons_coe, Multiset.cons_add]
    · intro others'
      rw [after_eq]
      change stored _ + _ + others' = _
      rw [hafter]
      simp only [custody, filterMap, Action.holds, Obs.ends, append_nil,
        Multiset.coe_singleton, ← Multiset.singleton_add]
      abel
  | handle d q b ok =>
    exact ⟨shifts_of_holds (V := custody) _ rfl rfl rfl rfl (Move.returned b ok), rfl⟩
  | respond d q b ok =>
    exact ⟨shifts_of_holds (V := custody) _ rfl rfl rfl rfl
      (Move.attempted b ok s.conn), rfl⟩

/-- The effect of a step on the `deliver_sm`: nothing, or one comes, or
`enqueueDeliver` or a worker is at work. -/
theorem exec_cases (h : exec cfg s i a = some r) :
    (Aside s r ∧ a.holds = none) ∨
    (∃ x pdu, a = .read (.dispatchPDU x pdu) ∧ pdu.commandID = cmdDeliverSM ∧
      r = { state := { s with arrivals := s.arrivals + 1 }
            next := [.deliver (.enqueueDeliver ⟨s.arrivals, x, deliverMessage pdu⟩),
              .read .readLoop]
            seen := [.deliver s.arrivals (.dispatched ⟨s.arrivals, x, deliverMessage pdu⟩)] }) ∨
    (∃ b, a = .deliver b ∧ execDeliver cfg s i b = some r) := by
  cases a with
  | go =>
    obtain ⟨l, -, rfl⟩ := exec_go h
    exact .inl ⟨⟨rfl, rfl, by cases l <;> rfl, rfl⟩, rfl⟩
  | call a => exact .inl ⟨execCall_aside h, rfl⟩
  | link a => exact .inl ⟨execLink_aside h, rfl⟩
  | read a =>
    cases execRead_readStep h with
    | deliver x pdu hcmd => exact .inr (.inl ⟨x, pdu, rfl, hcmd, rfl⟩)
    | body x y hd b =>
      refine .inl ⟨⟨rfl, rfl, rfl, ?_⟩, rfl⟩
      dsimp only
      split <;> rfl
    | _ => exact .inl ⟨⟨rfl, rfl, rfl, rfl⟩, rfl⟩
  | deliver b => exact .inr (.inr ⟨b, rfl, h⟩)
  | keep a =>
    refine .inl ⟨?_, rfl⟩
    cases execKeep_keepStep h with
    | stops | ticks => exact ⟨rfl, rfl, rfl, rfl⟩
    | writes seq next hnext => rcases hnext with rfl | rfl <;> exact ⟨rfl, rfl, rfl, rfl⟩

/-- **Every step moves `deliver_sm` on**, or lets the next one enter. -/
theorem exec_moves (hq : s.deliverQ < s.sessions.length)
    (ha : ∀ b d q, a = .deliver (.enqueueBlocked b d q) → q < s.sessions.length)
    (h : exec cfg s i a = some r) :
    (custody.Shifts rules s a r ∧ r.state.arrivals = s.arrivals) ∨
      (custody.Enters rules s a r s.arrivals ∧ r.state.arrivals = s.arrivals + 1) := by
  rcases exec_cases h with ⟨haside, hholds⟩ | ⟨x, pdu, rfl, -, rfl⟩ | ⟨b, rfl, hb⟩
  · exact .inl ⟨haside.shifts hholds, haside.arrivals⟩
  · refine .inr ⟨enters_of_next (V := custody) _ rfl rfl rfl rfl rfl ⟨_, rfl, rfl⟩, rfl⟩
  · exact .inl (execDeliver_moves hq (fun b' d q hb' => ha b' d q (by rw [hb'])) hb)

/-- Who blocks on a queue blocks on that of the field. -/
theorem exec_blocked (h : exec cfg s i a = some r) {b : Arrival} {d q : ℕ}
    (hmem : .deliver (.enqueueBlocked b d q) ∈ r.next) : q = s.deliverQ := by
  rcases exec_cases h with ⟨haside, -⟩ | ⟨x, pdu, rfl, -, rfl⟩ | ⟨a, rfl, ha⟩
  · have hnone := filterMap_eq_nil_iff.mp haside.next _ hmem
    cases hnone
  · simp at hmem
  · cases execDeliver_deliverStep ha with
    | blocks b' =>
      simp only [mem_singleton, Action.deliver.injEq, DeliverAction.enqueueBlocked.injEq] at hmem
      exact hmem.2.2
    | _ => simp [discard, push] at hmem

/-- A `deliver_sm` is dropped only at a closed `done` channel. -/
theorem exec_dropped (h : exec cfg s i a = some r) {k : ℕ}
    (hmem : .deliver k .dropped ∈ r.seen) : ∃ d, s.isDone d = true := by
  rcases exec_cases h with ⟨haside, -⟩ | ⟨x, pdu, rfl, -, rfl⟩ | ⟨a, rfl, ha⟩
  · have hnone := filterMap_eq_nil_iff.mp haside.seen _ hmem
    cases hnone
  · simp at hmem
  · cases execDeliver_deliverStep ha with
    | dropped b hdone | blockedDropped b d q hdone => exact ⟨_, hdone⟩
    | _ => simp [push] at hmem

/-! ## Sessions stay -/

/-- Sessions are added, and a closed `done` channel stays closed. -/
structure Grows (s s' : State) : Prop where
  length : s.sessions.length ≤ s'.sessions.length
  isDone : ∀ d, s.isDone d = true → s'.isDone d = true

theorem Grows.of_sessions {s' : State} (h : s'.sessions = s.sessions) : Grows s s' where
  length := h ▸ le_rfl
  isDone := fun d hd => by
    rw [State.isDone, h]
    exact hd

theorem SameLink.grows {s' : State} (h : SameLink s s') : Grows s s' :=
  ⟨h.length.ge, fun d hd => (h.isDone d).trans hd⟩

theorem grows_closeDone (s : State) : Grows s s.closeDone where
  length := by simp [State.closeDone, State.modifySession]
  isDone := fun d hd => by
    simp only [State.isDone, State.closeDone, State.modifySession, getElem?_modify] at hd ⊢
    cases hx : s.sessions[d]? with
    | none =>
      rw [hx] at hd
      cases hd
    | some x =>
      rw [hx] at hd
      by_cases hdone : s.done = d <;> simp_all

theorem execLink_grows {a : LinkAction} (h : execLink cfg s i a = some r) : Grows s r.state := by
  cases execLink_linkStep h with
  | dialled =>
    refine ⟨by simp, fun d hd => ?_⟩
    simp only [State.isDone] at hd ⊢
    obtain ⟨x, hx, hxd⟩ := (Option.any_eq_true _ _).mp hd
    rw [getElem?_append_left (List.getElem?_eq_some_iff.mp hx).1, hx]
    exact hxd
  | closeDone | disconnect => exact ⟨(grows_closeDone s).length, (grows_closeDone s).isDone⟩
  | closeConn =>
    have hgrows := (sameLink_closeConn s).grows
    exact ⟨hgrows.length, hgrows.isDone⟩
  | _ => exact .of_sessions rfl

theorem exec_grows (h : exec cfg s i a = some r) : Grows s r.state := by
  cases a with
  | link a => exact execLink_grows h
  | call a =>
    cases execCall_callStep h with
    | hangUp x outcome =>
      have hsame : SameLink s (s.hangUp x) := sameLink_modifySession s x fun _ => rfl
      exact ⟨hsame.grows.length, hsame.grows.isDone⟩
    | _ => exact .of_sessions rfl
  | go | read a | deliver a | keep a =>
    exact (exec_without_mu rfl (.inr fun _ h => by cases h) h).grows

end Exec

/-! ## Runs -/

variable {cfg : Config}

/-- **What is known of the `deliver_sm`** in every run. -/
structure Delivering (c : ClientConf) : Prop where
  faithful : rules.Faithful (custody.track c)
  /-- Each that was dispatched has its token. -/
  tickets : (custody.track c).tokens.map Prod.fst = Multiset.range c.shared.arrivals
  blocked : ∀ b d q, .deliver (.enqueueBlocked b d q) ∈ c.actions → q < c.shared.sessions.length
  dropped : ∀ k, .deliver k .dropped ∈ c.trace → ∃ d, c.shared.isDone d = true

theorem entry_holds (a : Action) (h : entry a = true) : a.holds = none := by
  unfold entry at h
  split at h <;> first | rfl | cases h

theorem delivering_start : Delivering .start where
  faithful := Lifecycle.faithful_empty
  tickets := rfl
  blocked := by simp [ClientConf.start, Conf.actions]
  dropped := by simp [ClientConf.start]

theorem step_delivering {c c' : ClientConf} {e : Event Input Action} (hl : Linked c)
    (hc : Delivering c) (h : (program cfg).step c e = some c') : Delivering c' := by
  have htrack : rules.Faithful (custody.track c') ∧
      (custody.track c').tokens.map Prod.fst = Multiset.range c'.shared.arrivals := by
    rcases step_cases (V := custody) entry_holds h with ⟨-, hs, -, htr⟩ |
      ⟨j, input, a, r, others, -, hhead, hexec, hs, -, hbefore, hafter⟩
    · rw [htr, hs]
      exact ⟨hc.faithful, hc.tickets⟩
    · have hf := hc.faithful
      have ht := hc.tickets
      rw [hbefore] at hf ht
      rw [hafter, hs]
      have hmem := Conf.mem_actions_of_head hhead
      rcases exec_moves hl.sound.deliverQ (fun b d q ha => hc.blocked b d q (ha ▸ hmem)) hexec with
        ⟨hshift, harr⟩ | ⟨henter, harr⟩
      · refine ⟨hshift.faithful hf, ?_⟩
        rw [harr, ← ht]
        exact hshift.map_fst others
      · -- the new ticket is above all others
        have hfresh : ∀ φ, (c.shared.arrivals, φ) ∉ custody.before c.shared a others := by
          intro φ hφ
          have hlt : c.shared.arrivals ∈ Multiset.range c.shared.arrivals :=
            ht ▸ Multiset.mem_map.mpr ⟨_, hφ, rfl⟩
          exact absurd (Multiset.mem_range.mp hlt) (lt_irrefl _)
        refine ⟨henter.faithful hf hfresh, ?_⟩
        rw [harr, Multiset.range_succ, ← ht]
        exact henter.map_fst others
  refine ⟨htrack.1, htrack.2, ?_, ?_⟩
  all_goals
    rcases Program.step_cases h with ⟨a, -, hst⟩ | ⟨j, input, a, r, rest, -, hran⟩
  · intro b d q hmem
    rw [hst.shared]
    rcases hst.cases hmem with rfl | hmem
    · cases hst.entry
    · exact hc.blocked b d q hmem
  · intro b d q hmem
    rw [hran.shared]
    have hgrows := (exec_grows hran.exec).length
    rcases hran.cases hmem with hmem | hmem
    · have hq := hl.sound.deliverQ
      rw [exec_blocked hran.exec hmem]
      omega
    · have hq := hc.blocked b d q (hran.pending hmem)
      omega
  · rw [hst.shared, hst.trace]
    exact hc.dropped
  · intro k hmem
    rw [hran.trace] at hmem
    rw [hran.shared]
    have hdone : ∃ d, c.shared.isDone d = true := by
      rcases mem_append.mp hmem with hmem | hmem
      · exact hc.dropped k hmem
      · exact exec_dropped hran.exec hmem
    obtain ⟨d, hd⟩ := hdone
    exact ⟨d, (exec_grows hran.exec).isDone d hd⟩

theorem delivering {c : ClientConf} (h : Runs cfg c) : Delivering c := by
  induction h with
  | start => exact delivering_start
  | step hrun _ hs ih => exact step_delivering (linked hrun) ih hs

/-! ## Histories -/

/-- What happened to a `deliver_sm` so far. -/
def history (c : ClientConf) (k : ℕ) : List DeliverLabel := wordOf (custody.track c).log k

/-- **The place tells the history.** -/
theorem traced_word {w : List DeliverLabel} {φ : Phase} (h : rules.Traced w φ) :
    match φ with
    | .waiting a => w = [.dispatched a]
    | .queued a => w = [.dispatched a, .queued]
    | .held a => w = [.dispatched a, .queued, .taken]
    | .handled a ok => w = [.dispatched a, .queued, .taken, .returned ok]
    | .answered conn resp => ∃ a ok, resp = deliverResp a ok ∧
        w = [.dispatched a, .queued, .taken, .returned ok, .attempted conn resp]
    | .dropped => ∃ a, w = [.dispatched a, .dropped] := by
  induction h with
  | enter h =>
    obtain ⟨a, rfl, rfl⟩ := h
    rfl
  | next _ hmove ih =>
    cases hmove with
    | queued a | taken a | returned a ok => simp only [ih, cons_append, nil_append]
    | dropped a => exact ⟨a, by simp only [ih, cons_append, nil_append]⟩
    | attempted a ok conn =>
      exact ⟨a, ok, rfl, by simp only [ih, cons_append, nil_append]⟩

/-- The places a `deliver_sm` can be in. -/
inductive Place
  | enqueueDeliver
  | deliverQ
  | worker
  | answered
  deriving DecidableEq

/-- The place a phase stands for; what was dropped is in none. -/
def Phase.place : Phase → Option Place
  | .waiting _ => some .enqueueDeliver
  | .queued _ => some .deliverQ
  | .held _ | .handled _ _ => some .worker
  | .answered _ _ => some .answered
  | .dropped => none

/-- Every place a `deliver_sm` is in, as often as it is there. -/
def places (c : ClientConf) (k : ℕ) : Multiset Place :=
  ((custody.track c).tokens.filter fun t => t.1 = k).filterMap fun t => t.2.place

/-- The `deliver_sm` was answered once: its handler returned, `ok` if without an
error, and then a worker wrote a response with its sequence number, which is
`StatusOK` just when the handler returned nil. -/
def AnsweredOnce (a : Arrival) (history : List DeliverLabel) : Prop :=
  ∃ ok conn resp, history =
      [.dispatched a, .queued, .taken, .returned ok, .attempted conn resp] ∧
    resp.commandID = cmdDeliverSMResp ∧ resp.sequenceNumber = a.msg.seqNum ∧
    (resp.commandStatus = statusOK ↔ ok = true)

/-- No response was written. -/
def Unanswered (history : List DeliverLabel) : Prop :=
  ∀ conn resp, .attempted conn resp ∉ history

theorem answeredOnce_deliverResp (a : Arrival) (ok : Bool) (conn : Option ℕ) :
    AnsweredOnce a [.dispatched a, .queued, .taken, .returned ok,
      .attempted conn (deliverResp a ok)] := by
  refine ⟨ok, conn, deliverResp a ok, rfl, rfl, rfl, ?_⟩
  cases ok <;> simp [deliverResp, encodeDeliverSMRespWithStatus, statusOK, statusSysErr]

/-- A `deliver_sm` is dropped at a closed channel, and neither of the two is
closed. -/
theorem dropped_not_mem_history {c : ClientConf} (h : Runs cfg c)
    (hone : c.shared.sessions.length ≤ 2) (hopen : c.shared.isDone 1 = false) {k : ℕ} :
    DeliverLabel.dropped ∉ history c k := by
  intro hdrop
  obtain ⟨o, ho, hlabel⟩ := mem_filterMap.mp (mem_wordOf.mp hdrop)
  have hobs : o = .deliver k .dropped := by
    cases o <;> simp [custody, Obs.labelOf] at hlabel
    rw [hlabel.1, hlabel.2]
  obtain ⟨d, hdone⟩ := (delivering h).dropped k (hobs ▸ ho)
  have hlt : d < c.shared.sessions.length := by
    obtain ⟨x, hx, -⟩ := (Option.any_eq_true _ _).mp hdone
    exact (List.getElem?_eq_some_iff.mp hx).1
  have hcases : d = 0 ∨ d = 1 := by omega
  rcases hcases with rfl | rfl
  · rw [(linked h).sound.first] at hdone
    cases hdone
  · rw [hopen] at hdone
    cases hdone

/-- **No `deliver_sm` is lost while the session is open.** -/
theorem delivered_while_open {c : ClientConf} (h : Runs cfg c)
    (hone : c.shared.sessions.length ≤ 2) (hopen : c.shared.isDone 1 = false) {k : ℕ} {a : Arrival}
    (hk : .deliver k (.dispatched a) ∈ c.trace) :
    ∃ p, places c k = {p} ∧ (if p = .answered then AnsweredOnce a (history c k)
      else Unanswered (history c k)) := by
  have hd := delivering h
  have hlog : (k, DeliverLabel.dispatched a) ∈ (custody.track c).log :=
    mem_filterMap.mpr ⟨_, hk, rfl⟩
  obtain ⟨φ, hφ⟩ := hd.faithful.exists_of_mem_log hlog
  have htok := hd.faithful.filter_eq_singleton hφ
  have hword := traced_word (hd.faithful.traced k φ hφ)
  have hmem : DeliverLabel.dispatched a ∈ wordOf (custody.track c).log k := mem_wordOf.mpr hlog
  have hplaces : places c k = (φ.place.toList : List Place) := by
    rw [places, htok, ← Multiset.coe_singleton, Multiset.filterMap_coe]
    cases φ <;> rfl
  rw [hplaces]
  cases φ with
  | waiting b =>
    refine ⟨.enqueueDeliver, rfl, ?_⟩
    rw [if_neg (by decide), history, hword]
    simp [Unanswered]
  | queued b =>
    refine ⟨.deliverQ, rfl, ?_⟩
    rw [if_neg (by decide), history, hword]
    simp [Unanswered]
  | held b | handled b ok =>
    refine ⟨.worker, rfl, ?_⟩
    rw [if_neg (by decide), history, hword]
    simp [Unanswered]
  | answered conn resp =>
    obtain ⟨b, ok, rfl, hword⟩ := hword
    obtain rfl : a = b := by simpa [hword] using hmem
    refine ⟨.answered, rfl, ?_⟩
    rw [if_pos rfl, history, hword]
    exact answeredOnce_deliverResp a ok conn
  | dropped =>
    obtain ⟨b, hword⟩ := hword
    refine absurd ?_ (dropped_not_mem_history h hone hopen (k := k))
    rw [history, hword]
    exact mem_cons_of_mem _ mem_cons_self

/-- A `deliver_sm` with a sequence number of the SMSC. -/
def deliverSM (seq : UInt32) : PDU := { commandID := cmdDeliverSM, sequenceNumber := seq }

/-- The `ReadLoop` reads a `deliver_sm` and queues it; goroutine 2 is the
worker. -/
def delivers : List (Event Input Action) :=
  connects 0 1 ++ reads 1 (deliverSM 7) 2 ++ .start .go :: steps 2 1

/-- One `deliver_sm` is answered while the next one waits in the queue. -/
theorem first_answered_second_queued :
    ∃ c, Runs smallConfig c ∧
      (∃ a, .deliver 0 (.dispatched a) ∈ c.trace ∧ places c 0 = {.answered} ∧
        ∃ p, places c 0 = {p} ∧ (if p = .answered then AnsweredOnce a (history c 0)
          else Unanswered (history c 0))) ∧
      ∃ a, .deliver 1 (.dispatched a) ∈ c.trace ∧ places c 1 = {.deliverQ} := by
  have h := runs_reached (delivers ++ steps 2 3 ++ reads 1 (deliverSM 8) 2) (by decide)
  refine ⟨_, h, ⟨⟨0, 1, deliverMessage (deliverSM 7)⟩, by decide, by decide, ?_⟩,
    ⟨1, 1, deliverMessage (deliverSM 8)⟩, by decide, by decide⟩
  exact delivered_while_open h (by decide) (by decide) (by decide)

end Client

end SmscGateway
