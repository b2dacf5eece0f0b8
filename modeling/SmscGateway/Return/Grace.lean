import SmscGateway.Gateway.Sessions
import SmscGateway.Return.Pipeline

/-!
# The reconnect grace

An MO message has a target: the engine its route names, or the one its sender
has an affinity to. While that engine is away for less than the grace period
the message is to wait for it, and only afterwards to go to whoever is
connected. `deliverWithGrace` asks how long the engine is away; a drain pass,
where the messages that wait end up, does not, and `deliverWithGrace` itself
takes an engine that is connected but did not acknowledge for one that was
never there. `grace_protects_iff` says of every attempt in every run when the
promise is kept.

What `deliverWithGrace` holds of a message, and what the queue holds of it, can
be followed back to the moment it was taken on (`exec_traces`); and the tables of
the server remember every id that was ever registered (`exec_presence`).
-/

namespace SmscGateway

open List SortedMap

/-! ## Who is present -/

namespace Server

/-- Registered sessions are bound, and an id that is registered is not down as
disconnected. -/
structure Presence (s : Server) : Prop where
  bound : ∀ id p, s.conns.find? id = some p → s.isBound p = true
  apart : ∀ id p, s.conns.find? id = some p → s.disconnects.find? id = none

/-- Neither connected nor disconnected, which is to say never connected
(`exec_presence`). -/
def NeverConnected (s : Server) (id : Bytes) : Prop :=
  s.conns.find? id = none ∧ s.disconnects.find? id = none
  deriving Decidable

/-- What a change leaves of the tables: they stay in order, and no id is
forgotten. -/
structure Remembers (s s' : Server) : Prop where
  presence : s.Presence → s'.Presence
  known : ∀ id, s'.NeverConnected id → s.NeverConnected id

theorem Remembers.refl (s : Server) : s.Remembers s := ⟨id, fun _ => id⟩

variable {s : Server} {p : ℕ}

theorem isBound_of_modify {q : ℕ} {f : Connection → Connection}
    (hf : ∀ c, c.bound = true → (f c).bound = true) (h : s.isBound q = true) :
    (s.modify p f).isBound q = true := by
  obtain ⟨c, hc, hb⟩ := (Option.any_eq_true _ _).mp h
  refine (Option.any_eq_true _ _).mpr ⟨if p = q then f c else c, ?_, ?_⟩
  · rw [heap_modify, hc]
    rfl
  · split
    · exact hf c hb
    · exact hb

theorem remembers_modify (s : Server) (p : ℕ) {f : Connection → Connection}
    (hf : ∀ c, c.bound = true → (f c).bound = true) : s.Remembers (s.modify p f) :=
  ⟨fun h => ⟨fun id q hq => isBound_of_modify hf (h.bound id q hq), h.apart⟩, fun _ h => h⟩

theorem Remembers.trans {s' s'' : Server} (h : s.Remembers s') (h' : s'.Remembers s'') :
    s.Remembers s'' :=
  ⟨fun hp => h'.presence (h.presence hp), fun id hn => h.known id (h'.known id hn)⟩

theorem remembers_close (s : Server) (p : ℕ) : s.Remembers (s.close p) :=
  remembers_modify s p fun _ h => h

theorem remembers_accept (s : Server) : s.Remembers s.accept := by
  refine ⟨fun h => ⟨fun id p hp => ?_, h.apart⟩, fun _ h => h⟩
  obtain ⟨c, hc, hb⟩ := (Option.any_eq_true _ _).mp (h.bound id p hp)
  refine (Option.any_eq_true _ _).mpr ⟨c, ?_, hb⟩
  exact (getElem?_append_left (List.getElem?_eq_some_iff.mp hc).1).trans hc

/-- Putting a bound session under an id. -/
theorem remembers_register (id : Bytes) (hp : s.isBound p = true) :
    s.Remembers { s with conns := s.conns.insert id p, disconnects := s.disconnects.erase id } := by
  refine ⟨fun h => ⟨fun id' q hq => ?_, fun id' q hq => ?_⟩, fun id' hn => ?_⟩
  · rw [find?_insert] at hq
    split at hq
    · cases hq
      exact hp
    · exact h.bound id' q hq
  · rw [find?_erase]
    rw [find?_insert] at hq
    split
    · rfl
    · rename_i hne
      rw [if_neg hne] at hq
      exact h.apart id' q hq
  · obtain ⟨hc, hd⟩ := hn
    rw [find?_insert] at hc
    rw [find?_erase] at hd
    split at hc
    · cases hc
    · rename_i hne
      rw [if_neg hne] at hd
      exact ⟨hc, hd⟩

theorem remembers_onBind (hp : s.isReading p = true) (systemID : Bytes)
    (config : Option ConnectionConfig) : s.Remembers (s.onBind p systemID config) := by
  have hbind : s.Remembers (s.modify p fun c => { c with systemID, bound := true, config }) :=
    remembers_modify s p fun _ _ => rfl
  have hbound : (s.modify p fun c => { c with systemID, bound := true, config }).isBound p =
      true := by
    obtain ⟨c, hc, -⟩ := (Option.any_eq_true _ _).mp hp
    refine (Option.any_eq_true _ _).mpr ⟨{ c with systemID, bound := true, config }, ?_, rfl⟩
    rw [heap_modify, hc]
    simp
  unfold onBind
  dsimp only
  split
  · exact hbind.trans (remembers_close _ p)
  · have hid : ∀ t : Server, t.Remembers (t.modify p fun c => { c with id := systemID }) :=
      fun t => remembers_modify t p fun _ h => h
    have hidBound := isBound_of_modify (p := p) (f := fun c => { c with id := systemID })
      (fun _ h => h) hbound
    refine (hbind.trans (hid _)).trans ?_
    split
    · rename_i old _
      exact (remembers_close _ old).trans
        (remembers_register systemID (isBound_of_modify (fun _ h => h) hidBound))
    · exact remembers_register systemID hidBound

theorem remembers_disconnect (s : Server) (p : ℕ) (now : Time) :
    s.Remembers (s.disconnect p now) := by
  have hended : ∀ t : Server, t.Remembers (t.modify p fun c => { c with ended := true }) :=
    fun t => remembers_modify t p fun _ h => h
  unfold disconnect
  dsimp only
  split
  · refine Remembers.trans ⟨fun h => ⟨fun id q hq => ?_, fun id q hq => ?_⟩, fun id hn => ?_⟩
      (hended _)
    · rw [find?_erase] at hq
      split at hq
      · cases hq
      · exact h.bound id q hq
    · rw [find?_erase] at hq
      rw [find?_insert]
      split
      · rename_i he
        rw [if_pos he] at hq
        cases hq
      · rename_i hne
        rw [if_neg hne] at hq
        exact h.apart id q hq
    · obtain ⟨hc, hd⟩ := hn
      rw [find?_erase] at hc
      rw [find?_insert] at hd
      split at hd
      · cases hd
      · rename_i hne
        rw [if_neg hne] at hc
        exact ⟨hc, hd⟩
  · exact hended s

/-- A bound id that is not empty stands to be picked. -/
theorem roundRobinConnID_connected {pick : Bytes} (h : s.roundRobinConnID pick ≠ []) :
    (s.getConnection (s.roundRobinConnID pick)).isSome = true := by
  unfold roundRobinConnID at h ⊢
  split
  · assumption
  · rename_i hpick
    rw [if_neg hpick] at h
    cases hfind : s.conns.entries.find? fun e => s.isBound e.2 with
    | none =>
      rw [hfind] at h
      exact absurd rfl h
    | some e =>
      have hmem := mem_entries_iff.mp (mem_of_find?_eq_some hfind)
      have hbound : s.isBound e.2 = true :=
        find?_some (p := fun e : Bytes × ℕ => s.isBound e.2) hfind
      rw [Option.map_some, Option.getD_some, getConnection, hmem]
      simp [Option.filter, hbound]

theorem getConnection_isSome_iff (h : s.Presence) (id : Bytes) :
    (s.getConnection id).isSome = true ↔ s.conns.find? id ≠ none := by
  rw [getConnection]
  cases hfind : s.conns.find? id with
  | none => simp
  | some p => simp [Option.filter, h.bound id p hfind]

end Server

namespace ReturnPath

section Exec

variable {cfg : RouterConfig} {s : Gateway} {i : Input} {r : GatewayEffect} {a : Action}

theorem acceptSubmit_remembers (connID : Bytes) (seqNum : UInt32) (conn : Option ℕ)
    (m : Screened) :
    s.server.Remembers (acceptSubmit cfg s i connID seqNum conn m).state.server := by
  cases conn with
  | none => exact .refl _
  | some p =>
    refine Server.remembers_modify _ p fun c hc => ?_
    unfold Connection.recordSubmit
    split
    · split <;> exact hc
    · exact hc

/-- **No action forgets who was connected.** -/
theorem exec_presence (h : exec cfg s i a = some r) : s.server.Remembers r.state.server := by
  cases a with
  | submit a =>
    have hsame : ∀ {t : Server}, t = s.server → s.server.Remembers t := by
      rintro t rfl
      exact .refl _
    cases execSubmit_moves h with
    | accepted => exact acceptSubmit_remembers ..
    | overflowed | unsent | unresent => exact hsame enqueueSubmitRetryOrFail_server
    | _ => exact .refl _
  | record a =>
    rw [(execRecord_frame h).server]
    exact .refl _
  | back a =>
    rw [execReturn_server h]
    exact .refl _
  | serve a =>
    change execServe s i a = some r at h
    cases a with
    | accept =>
      cases h
      exact s.server.remembers_accept
    | bind p systemID config =>
      simp only [execServe] at h
      obtain ⟨hp, rfl⟩ := eq_of_guard h
      exact Server.remembers_onBind hp systemID config
    | disconnect p =>
      simp only [execServe] at h
      obtain ⟨-, rfl⟩ := eq_of_guard h
      exact s.server.remembers_disconnect p i.now
    | close p =>
      cases h
      exact s.server.remembers_close p

/-! ## What is carried of a message -/

/-- What a pending action carries of a message: the arguments of
`deliverWithGrace`, or an entry that was taken off the queue. -/
inductive Load where
  | job (j : Job)
  | entry (e : Numbered)

namespace Load

def item : Load → ℕ
  | job j => j.item
  | entry e => e.item

def esmClass : Load → UInt8
  | job j => j.esmClass
  | entry e => e.pending.esmClass

end Load

def callerLoad : Caller → Load
  | .direct j | .fallback j => .job j
  | .redeliver e => .entry e

/-- The load of a pending action. -/
def loadOf : Action → Option Load
  | .back (.deliverToConn c _) | .back (.write c _ _) | .back (.await c) => some (callerLoad c)
  | .back (.grace j) | .back (.buffer j) => some (.job j)
  | .back (.redeliver e) | .back (.requeue e) => some (.entry e)
  | _ => none

/-- An entry stands for a load. -/
def StoredAs (x : Load) (e : Numbered) : Prop :=
  e.item = x.item ∧ e.pending.esmClass = x.esmClass

/-- **Where the loads after an action come from**: from the action's own load,
from the queue, or from a message that gets the next ticket. -/
structure Traces (s : Gateway) (a : Action) (r : GatewayEffect) : Prop where
  next : ∀ b ∈ r.next, ∀ x ∈ loadOf b, x ∈ loadOf a ∨
    (∃ e ∈ s.store.retries.values, x = .entry e) ∨
    (x.item = s.tickets ∧ r.state.tickets = s.tickets + 1)
  queue : ∀ e ∈ r.state.store.retries.values,
    e ∈ s.store.retries.values ∨ ∃ x ∈ loadOf a, StoredAs x e
  tickets : s.tickets ≤ r.state.tickets

theorem loadOf_of_offReturn {b : Action} (h : b.onReturn = false) : loadOf b = none := by
  cases b with
  | back b => cases h
  | _ => rfl

theorem traces_of_offReturn (h : OffReturn s r) : Traces s a r := by
  refine ⟨fun b hb x hx => ?_, fun e he => .inl (h.retries ▸ he), h.tickets.ge⟩
  have hoff : b.onReturn = false := by simpa using all_eq_true.mp h.next b hb
  rw [loadOf_of_offReturn hoff] at hx
  cases hx

/-- An action that leaves the queue alone and passes its load on. -/
theorem traces_of_next (hq : r.state.store.retries = s.store.retries)
    (ht : r.state.tickets = s.tickets)
    (hn : ∀ b ∈ r.next, ∀ x ∈ loadOf b, x ∈ loadOf a) : Traces s a r :=
  ⟨fun b hb x hx => .inl (hn b hb x hx), fun _ he => .inl (hq ▸ he), ht.ge⟩

/-- A message that is taken on. -/
theorem traces_of_new (hq : r.state.store.retries = s.store.retries)
    (ht : r.state.tickets = s.tickets + 1)
    (hn : ∀ b ∈ r.next, ∀ x ∈ loadOf b, x.item = s.tickets) : Traces s a r :=
  ⟨fun b hb x hx => .inr (.inr ⟨hn b hb x hx, ht⟩), fun _ he => .inl (hq ▸ he), by omega⟩

theorem traces_of_enqueue {id : Bytes} {item : ℕ} {p : PendingDeliver} {seen : List Obs}
    {x : Load} (hx : x ∈ loadOf a) (hp : StoredAs x ⟨item, p.json⟩) :
    Traces s a { state := { s with store := s.store.enqueueRetry id item p }, seen } := by
  refine ⟨by simp, fun e he => ?_, le_rfl⟩
  rcases mem_values_insert he with rfl | he
  · exact .inr ⟨x, hx, hp⟩
  · exact .inl he

theorem routeReceipt_traces (n : ℕ) (rc : Receipt) (corr : Correlation) :
    Traces s a (routeReceipt s n rc corr) := by
  unfold routeReceipt
  split
  · exact traces_of_next rfl rfl (by simp [loadOf])
  · refine traces_of_new rfl rfl fun b hb x hx => ?_
    simp only [mem_cons, not_mem_nil, or_false] at hb
    rcases hb with rfl | rfl
    · cases hx
    · cases hx
      rfl

theorem failed_loadOf (c : Caller) : ∀ b ∈ c.failed, loadOf b = some (callerLoad c) := by
  cases c <;> intro b hb <;> obtain rfl := mem_singleton.mp hb <;> rfl

theorem acked_loadOf (c : Caller) : ∀ b ∈ c.acked, loadOf b = none := by
  unfold Caller.acked
  split <;> [split; split; skip] <;> simp [loadOf]

theorem execReturn_traces {a : ReturnAction} (h : execReturn cfg s i a = some r) :
    Traces s (.back a) r := by
  have hfail : ∀ {c : Caller} {b : ReturnAction}, loadOf (.back b) = some (callerLoad c) →
      Traces s (.back b) { state := s, next := c.failed } := by
    intro c b hb
    refine traces_of_next rfl rfl fun d hd x hx => ?_
    rw [failed_loadOf c d hd] at hx
    rw [hb]
    exact hx
  have hone : ∀ {b d : ReturnAction} {seen : List Obs}, loadOf (.back d) = loadOf (.back b) →
      Traces s (.back b) { state := s, next := [.back d], seen } := by
    intro b d seen hd
    refine traces_of_next rfl rfl fun d' hd' x hx => ?_
    obtain rfl := mem_singleton.mp hd'
    exact hd ▸ hx
  cases execReturn_moves h with
  | unreadable | missed | posted | unknown => exact traces_of_next rfl rfl (by simp [loadOf])
  | found rc corr =>
    have hroute := routeReceipt_traces
      (a := .back (.handleDeliver rc.pool rc.sourceAddr rc.destAddr rc.esmClass rc.payload))
      (s := { s with arrivals := s.arrivals + 1 }) s.arrivals rc corr
    exact ⟨hroute.next, hroute.queue, hroute.tickets⟩
  | took pool it connID next hkind hesm hnext =>
    refine traces_of_new rfl rfl fun b hb x hx => ?_
    obtain rfl := mem_singleton.mp hb
    rcases hnext with rfl | rfl <;> obtain rfl := Option.some.inj hx <;> rfl
  | stored n rc => exact routeReceipt_traces n rc _
  | settle rc corr st =>
    obtain ⟨ht, hq, -, -⟩ := execSettle_quiet (s := s) (i := i) rc corr st
    refine traces_of_next hq ht fun b hb x hx => ?_
    rcases execSettle_next hb with ⟨e, rfl⟩ | ⟨b, rfl, -⟩
    · cases hx
    · cases hx
  | absent | unwritten | unacked => exact hfail rfl
  | present | written | held | fallsBack | redirected | returned => exact hone rfl
  | acked c =>
    refine traces_of_next rfl rfl fun b hb x hx => ?_
    rw [acked_loadOf c b hb] at hx
    cases hx
  | buffer | requeue => exact traces_of_enqueue rfl ⟨rfl, rfl⟩
  | drained out hout =>
    refine ⟨fun b hb x hx => ?_, fun e he => .inl ?_, le_rfl⟩
    · obtain ⟨e, he, rfl⟩ := mem_map.mp hb
      cases hx
      have hmem := (prefix_retriesTaken _ _ _).subset (hout ▸ (mem_filter.mp he).1)
      exact .inr (.inl ⟨e.2, mem_map.mpr ⟨e, hmem, rfl⟩, rfl⟩)
    · obtain ⟨k, hk⟩ := mem_values_iff.mp he
      exact mem_values_iff.mpr ⟨k, mem_entries_iff.mp
        (mem_of_mem_dropFirst (mem_entries_iff.mpr hk))⟩

/-- **Where loads come from**, for any action. -/
theorem exec_traces (h : exec cfg s i a = some r) : Traces s a r := by
  cases a with
  | submit a =>
    rcases execSubmit_cases h with hoff | ⟨connID, g, d, f, l, hrest, rfl⟩
    · exact traces_of_offReturn hoff
    · rw [sendSyntheticDLR, if_neg hrest]
      refine traces_of_new rfl rfl fun b hb x hx => ?_
      simp only [Effect.after, mem_cons, not_mem_nil, or_false] at hb
      rcases hb with rfl | rfl | rfl
      · cases hx
      · cases hx
        rfl
      · cases hx
  | record a => exact traces_of_offReturn (execRecord_frame h).offReturn
  | back a => exact execReturn_traces h
  | serve a => exact traces_of_offReturn (execServe_offReturn h)

/-- **Where an attempt is decided**: on a message that is just taken on, in
`deliverWithGrace` after the direct attempt failed, or in a drain pass. -/
theorem exec_attempt (h : exec cfg s i a = some r) {c : Caller} {connID : Bytes}
    (hc : .back (.deliverToConn c connID) ∈ r.next) :
    c.item = s.tickets ∨
    (∃ j, a = .back (.grace j) ∧ c = .fallback j ∧ connID = s.server.roundRobinConnID i.pick ∧
      connID ≠ [] ∧ ¬withinGrace cfg s.server i.now j.connID) ∨
    (∃ e, a = .back (.redeliver e) ∧ c = .redeliver e ∧
      ((connID = e.pending.targetConnID ∧ connID ≠ [] ∧
          (s.server.getConnection connID).isSome = true) ∨
        (connID = s.server.roundRobinConnID i.pick ∧ connID ≠ [] ∧
          ¬(e.pending.targetConnID ≠ [] ∧
            (s.server.getConnection e.pending.targetConnID).isSome = true)))) := by
  have hoff : ∀ {t : Gateway}, OffReturn t r → False := by
    intro t ht
    have := all_eq_true.mp ht.next _ hc
    cases this
  have hroute : ∀ {t : Gateway} {n : ℕ} {rc : Receipt} {corr : Correlation},
      .back (.deliverToConn c connID) ∈ (routeReceipt t n rc corr).next → c.item = t.tickets := by
    intro t n rc corr hmem
    unfold routeReceipt at hmem
    split at hmem
    · simp at hmem
    · simp only [mem_cons, not_mem_nil, or_false, Action.back.injEq, reduceCtorEq,
        ReturnAction.deliverToConn.injEq, false_or] at hmem
      obtain ⟨rfl, -⟩ := hmem
      rfl
  have hone : ∀ {c' : Caller} {id : Bytes},
      .back (.deliverToConn c connID) ∈ [Action.back (.deliverToConn c' id)] →
      c = c' ∧ connID = id := fun hmem =>
    ReturnAction.deliverToConn.inj (Action.back.inj (mem_singleton.mp hmem))
  cases a with
  | submit a =>
    rcases execSubmit_cases h with ho | ⟨id, g, d, f, l, hrest, rfl⟩
    · exact (hoff ho).elim
    · rw [sendSyntheticDLR, if_neg hrest] at hc
      simp only [Effect.after, mem_cons, not_mem_nil, or_false, Action.back.injEq,
        reduceCtorEq, ReturnAction.deliverToConn.injEq, false_or] at hc
      obtain ⟨rfl, -⟩ := hc
      exact .inl rfl
  | record a => exact (hoff (execRecord_frame h).offReturn).elim
  | serve a => exact (hoff (execServe_offReturn h)).elim
  | back a =>
    cases execReturn_moves h with
    | found rc corr => exact .inl (hroute (t := { s with arrivals := s.arrivals + 1 }) hc)
    | took pool it id next hkind hesm hnext =>
      have hnext' := mem_singleton.mp hc
      rcases hnext with rfl | rfl
      · cases hnext'
      · obtain ⟨rfl, -⟩ := ReturnAction.deliverToConn.inj (Action.back.inj hnext')
        exact .inl rfl
    | stored => exact .inl (hroute hc)
    | settle rc corr st =>
      rcases execSettle_next hc with ⟨e, hb⟩ | ⟨b, hb, -⟩
      · cases hb
      · cases hb
    | absent c' | unwritten c' | unacked c' => cases c' <;> cases mem_singleton.mp hc
    | acked c' => cases acked_loadOf c' _ hc
    | fallsBack j hgrace hmo hpick =>
      obtain ⟨rfl, rfl⟩ := hone hc
      exact .inr (.inl ⟨j, rfl, rfl, rfl, hpick, hgrace⟩)
    | redirected e id hconn =>
      obtain ⟨rfl, rfl⟩ := hone hc
      refine .inr (.inr ⟨e, rfl, rfl, ?_⟩)
      rcases hconn with hthere | ⟨heq, hpick, hgone, -⟩
      · exact .inl hthere
      · exact .inr ⟨heq, hpick, hgone⟩
    | _ => simp at hc

end Exec

/-! ## The promise -/

/-- The target of an MO message: the engine its route names, or else the one its
sender has an affinity to. -/
def moTarget (cfg : RouterConfig) (s : Gateway) (sourceAddr destAddr : Bytes) : Option Bytes :=
  match resolveMO cfg.moRoutes sourceAddr destAddr with
  | none => s.msisdnAffinity.find? sourceAddr
  | some route =>
    match route.targetType with
    | .http => none
    | .smpp =>
      if route.targetConnID = [] then s.msisdnAffinity.find? sourceAddr
      else some route.targetConnID
    | .other => s.msisdnAffinity.find? sourceAddr

/-- A step takes on message `k`, an MO message with a target. -/
def MOArrives (cfg : RouterConfig) (c : GatewayConf) (e : Event Input Action) (k : ℕ)
    (target : Bytes) : Prop :=
  ∃ n i pool sourceAddr destAddr esmClass payload, e = .run n i ∧
    c.head n = some (.back (.handleDeliver pool sourceAddr destAddr esmClass payload)) ∧
    Smpp.isDLR esmClass = false ∧ moTarget cfg c.shared sourceAddr destAddr = some target ∧
    k = c.shared.tickets

/-- When a message may go to another engine: its target is away for at least the
grace period, or was never connected. -/
def MayFallBack (cfg : RouterConfig) (s : Server) (now : Time) (target : Bytes) : Prop :=
  (∃ t ∈ s.disconnects.find? target, cfg.reconnectGrace ≤ (now : ℤ) - t) ∨
    s.NeverConnected target

/-- Is a call of `DeliverToConn` a fallback? In a drain pass it is one if it is not
for the target of the entry. -/
def isFallback (connID : Bytes) : Caller → Bool
  | .direct _ => false
  | .fallback _ => true
  | .redeliver e => connID ≠ e.pending.targetConnID

/-- An action attempts message `k` at its target, or falls back when it may. -/
def Protects (cfg : RouterConfig) (s : Gateway) (i : Input) (k : ℕ) (target : Bytes)
    (r : GatewayEffect) : Prop :=
  ∀ c connID, .back (.deliverToConn c connID) ∈ r.next → c.item = k →
    (connID = target ∧ isFallback connID c = false) ∨ MayFallBack cfg s.server i.now target

/-- Nobody is there whom a drain pass could give an entry to. -/
def NobodyFor (s : Server) (pick : Bytes) (e : Numbered) : Prop :=
  s.roundRobinConnID pick = [] ∧
    (e.pending.targetConnID = [] ∨ s.getConnection e.pending.targetConnID = none)

/-- When it does. After a direct attempt of the message failed, its target is off
the table, or there is nobody to fall back to. And when a drain pass comes to the
message, its target is not away for less than the grace period, and if it is there
the queue has kept its id; or there is nobody at all. -/
def GraceKept (cfg : RouterConfig) (k : ℕ) (target : Bytes) (s : Gateway) (i : Input) :
    Action → Prop
  | .back (.grace j) => j.item = k →
    s.server.conns.find? target = none ∨ s.server.roundRobinConnID i.pick = []
  | .back (.redeliver e) => e.item = k →
    (¬withinGrace cfg s.server i.now target ∧
      (s.server.conns.find? target ≠ none → target ≠ [] ∧ e.pending.targetConnID = target)) ∨
    NobodyFor s.server i.pick e
  | _ => True

/-! ## In every run -/

variable {cfg : RouterConfig} {c c' : GatewayConf} {k : ℕ} {target : Bytes}

/-- Whatever is carried of message `k` is not taken for a receipt, and before it is
stored it is for its target. -/
structure Bound (k : ℕ) (target : Bytes) (c : GatewayConf) : Prop where
  tickets : k < c.shared.tickets
  jobs : ∀ a ∈ c.actions, ∀ j, .job j ∈ loadOf a → j.item = k →
    j.connID = target ∧ j.isDLR = false
  loads : ∀ a ∈ c.actions, ∀ x ∈ loadOf a, x.item = k → Smpp.isDLR x.esmClass = false
  queue : ∀ e ∈ c.shared.store.retries.values, e.item = k →
    Smpp.isDLR e.pending.esmClass = false

/-- Nothing has a ticket that was not given out, and the server's tables are in
order. -/
structure Orderly (c : GatewayConf) : Prop where
  actions : ∀ a ∈ c.actions, ∀ x ∈ loadOf a, x.item < c.shared.tickets
  queue : ∀ e ∈ c.shared.store.retries.values, e.item < c.shared.tickets
  presence : c.shared.server.Presence

theorem loadOf_of_entry {a : Action} (h : entry a = true) : loadOf a = none := by
  unfold entry at h
  split at h <;> first | rfl | cases h

variable {e : Event Input Action} {i : Input} {r : GatewayEffect}

theorem step_orderly (hc : Orderly c) (hs : (gateway cfg).step c e = some c') : Orderly c' := by
  rcases Program.step_cases hs with ⟨a, -, hst⟩ | ⟨j, input, a, r, rest, -, hran⟩
  · refine ⟨fun b hb x hx => ?_, hst.shared ▸ hc.queue, hst.shared ▸ hc.presence⟩
    rw [hst.shared]
    rcases hst.cases hb with rfl | hb
    · rw [loadOf_of_entry hst.entry] at hx
      cases hx
    · exact hc.actions b hb x hx
  · have htr := exec_traces hran.exec
    refine ⟨fun b hb x hx => ?_, fun e he => ?_, ?_⟩
    · rw [hran.shared]
      rcases hran.cases hb with hb | hb
      · rcases htr.next b hb x hx with hx | ⟨e, he, rfl⟩ | ⟨hk, ht⟩
        · exact (hc.actions a hran.mem x hx).trans_le htr.tickets
        · exact (hc.queue e he).trans_le htr.tickets
        · omega
      · exact (hc.actions b (hran.pending hb) x hx).trans_le htr.tickets
    · rw [hran.shared] at he ⊢
      rcases htr.queue e he with he | ⟨x, hx, hitem, -⟩
      · exact (hc.queue e he).trans_le htr.tickets
      · rw [hitem]
        exact (hc.actions a hran.mem x hx).trans_le htr.tickets
    · rw [hran.shared]
      exact (exec_presence hran.exec).presence hc.presence

theorem reaches_orderly {ok : GatewayConf → Event Input Action → Prop}
    (h : (gateway cfg).Reaches ok GatewayConf.start c) : Orderly c := by
  refine h.invariant ⟨?_, fun e he => ?_, ⟨fun _ _ h => ?_, fun _ _ h => ?_⟩⟩
    fun c e c' hc _ hs => step_orderly hc hs
  · intro a ha
    exact absurd ha (Multiset.notMem_zero a)
  · cases he
  · cases h
  · cases h

/-- **What is carried of a message stays as it was taken on.** -/
theorem step_bound (hc : Bound k target c) (hs : (gateway cfg).step c e = some c') :
    Bound k target c' := by
  rcases Program.step_cases hs with ⟨a, -, hst⟩ | ⟨n, input, a, r, rest, -, hran⟩
  · have hnone := loadOf_of_entry hst.entry
    refine ⟨hst.shared ▸ hc.tickets, fun b hb j hj => ?_, fun b hb x hx => ?_,
      hst.shared ▸ hc.queue⟩
    · rcases hst.cases hb with rfl | hb
      · rw [hnone] at hj
        cases hj
      · exact hc.jobs b hb j hj
    · rcases hst.cases hb with rfl | hb
      · rw [hnone] at hx
        cases hx
      · exact hc.loads b hb x hx
  · have htr := exec_traces hran.exec
    have hlt := hc.tickets
    refine ⟨hran.shared ▸ hc.tickets.trans_le htr.tickets, fun b hb j hj hk => ?_,
      fun b hb x hx hk => ?_, fun e he hk => ?_⟩
    · rcases hran.cases hb with hb | hb
      · rcases htr.next b hb _ hj with hj | ⟨e, -, he⟩ | ⟨hnew, -⟩
        · exact hc.jobs a hran.mem j hj hk
        · cases he
        · have hnew' : j.item = c.shared.tickets := hnew
          omega
      · exact hc.jobs b (hran.pending hb) j hj hk
    · rcases hran.cases hb with hb | hb
      · rcases htr.next b hb x hx with hx | ⟨e, he, rfl⟩ | ⟨hnew, -⟩
        · exact hc.loads a hran.mem x hx hk
        · exact hc.queue e he hk
        · omega
      · exact hc.loads b (hran.pending hb) x hx hk
    · rw [hran.shared] at he
      rcases htr.queue e he with he | ⟨x, hx, hitem, hesm⟩
      · exact hc.queue e he hk
      · rw [hesm]
        exact hc.loads a hran.mem x hx (hitem.symm.trans hk)

/-- What `handleMO` does with a message that has a target. -/
theorem handleMO_of_target {s : Gateway} {src dst : Bytes} {esm : UInt8} {payload : Bytes}
    (h : moTarget cfg s src dst = some target) : (handleMO cfg s i src dst esm payload).next =
      [.back (.deliverToConn (.direct (moJob s.tickets i.now ⟨.mo, src, dst, esm, payload⟩
        target)) target)] := by
  unfold moTarget at h
  simp only [handleMO]
  split at h <;> rename_i hroute
  · rw [hroute]
    simp [h]
  · rw [hroute]
    split at h <;> rename_i htype
    · cases h
    · split at h <;> rename_i hid
      · simp [htype, hid, h]
      · cases h
        simp [htype, hid]
    · simp [htype, h]

/-- The message arrives, and its first attempt is made at its target. -/
theorem bound_of_arrives (hc : Orderly c) (harr : MOArrives cfg c e k target)
    (hs : (gateway cfg).step c e = some c') :
    Bound k target c' ∧ ∀ caller connID, .back (.deliverToConn caller connID) ∈ c'.actions →
      caller.item = k → connID = target ∧ isFallback connID caller = false := by
  obtain ⟨n, i, pool, src, dst, esm, payload, rfl, hhead, hesm, htarget, rfl⟩ := harr
  obtain ⟨r, rest, hran⟩ := Program.ran_of_head hs hhead
  have hexec : exec cfg c.shared i (.back (.handleDeliver pool src dst esm payload)) = some r :=
    hran.exec
  have htr := exec_traces hexec
  obtain rfl : handleMO cfg c.shared i src dst esm payload = r := by
    simpa [exec, execReturn, hesm] using hexec
  have hnext : (handleMO cfg c.shared i src dst esm payload).next = _ :=
    handleMO_of_target htarget
  have htick : c'.shared.tickets = c.shared.tickets + 1 := by
    rw [hran.shared]
    rcases handleMO_cases cfg c.shared i src dst esm payload with
      ⟨route, -, -, heq⟩ | ⟨id, next, -, heq⟩
    · rw [heq] at hnext
      cases hnext
    · rw [heq]
  -- all else that is pending has an older ticket
  have hnew : ∀ b ∈ c'.actions, ∀ x ∈ loadOf b, x.item = c.shared.tickets →
      b = .back (.deliverToConn (.direct (moJob c.shared.tickets i.now
        ⟨.mo, src, dst, esm, payload⟩ target)) target) := by
    intro b hb x hx hk
    rcases hran.cases hb with hb | hb
    · rw [hnext] at hb
      exact mem_singleton.mp hb
    · have := hc.actions b (hran.pending hb) x hx
      omega
  refine ⟨⟨by omega, fun b hb j hj hk => ?_, fun b hb x hx hk => ?_, fun e he hk => ?_⟩,
    fun caller connID hb hk => ?_⟩
  · obtain rfl := hnew b hb _ hj hk
    obtain rfl := Load.job.inj (Option.some.inj hj)
    exact ⟨rfl, rfl⟩
  · obtain rfl := hnew b hb x hx hk
    cases hx
    exact hesm
  · rw [hran.shared] at he
    rcases htr.queue e he with he | ⟨x, hx, -⟩
    · have := hc.queue e he
      omega
    · cases hx
  · have hload : (callerLoad caller).item = c.shared.tickets := by
      rw [← hk]
      cases caller <;> rfl
    obtain ⟨rfl, rfl⟩ := ReturnAction.deliverToConn.inj
      (Action.back.inj (hnew _ hb _ rfl hload))
    exact ⟨rfl, rfl⟩

/-- A target that is off the table and not within the grace period may be passed
over. -/
theorem mayFallBack_of {s : Server} {now : Time} (hoff : s.conns.find? target = none)
    (hgrace : ¬withinGrace cfg s now target) : MayFallBack cfg s now target := by
  cases hdisc : s.disconnects.find? target with
  | none => exact .inr ⟨hoff, hdisc⟩
  | some t =>
    refine .inl ⟨t, hdisc, ?_⟩
    by_contra hlt
    exact hgrace ⟨t, hdisc, not_le.mp hlt⟩

/-- And no other. -/
theorem not_mayFallBack {s : Server} {now : Time} (hpres : s.Presence)
    (h : withinGrace cfg s now target ∨ s.conns.find? target ≠ none) :
    ¬MayFallBack cfg s now target := by
  rintro (⟨t, ht, hle⟩ | ⟨hoff, hdisc⟩)
  · rcases h with ⟨t', ht', hlt⟩ | hon
    · obtain rfl := Option.some.inj (ht.symm.trans ht')
      omega
    · obtain ⟨p, hp⟩ := Option.ne_none_iff_exists'.mp hon
      rw [hpres.apart _ p hp] at ht
      cases ht
  · rcases h with ⟨t', ht', -⟩ | hon
    · rw [hdisc] at ht'
      cases ht'
    · exact hon hoff

/-- `deliverWithGrace` after a direct attempt failed. -/
theorem protects_grace_iff (hbound : Bound k target c) (hpres : c.shared.server.Presence) {j : Job}
    (ha : .back (.grace j) ∈ c.actions) (hexec : exec cfg c.shared i (.back (.grace j)) = some r) :
    Protects cfg c.shared i k target r ↔ GraceKept cfg k target c.shared i (.back (.grace j)) := by
  constructor
  · intro hprot hk
    obtain ⟨rfl, hmo⟩ := hbound.jobs _ ha j rfl hk
    by_contra hbad
    rw [not_or] at hbad
    obtain ⟨p, hp⟩ := Option.ne_none_iff_exists'.mp hbad.1
    -- a connected engine is not down as disconnected, so it counts as out of grace
    have hgrace : ¬(withinGrace cfg c.shared.server i.now j.connID ∨ j.isDLR = true) := by
      rintro (⟨t, ht, -⟩ | hdlr)
      · rw [hpres.apart _ p hp] at ht
        cases ht
      · exact absurd (hmo.symm.trans hdlr) (by decide)
    simp only [exec, execReturn, if_neg hgrace, if_neg hbad.2] at hexec
    cases hexec
    rcases hprot _ _ (mem_singleton_self _) hk with ⟨-, hfall⟩ | hmay
    · cases hfall
    · exact not_mayFallBack hpres (.inr hbad.1) hmay
  · intro hkept caller connID hc hk
    rcases exec_attempt hexec hc with hnew | ⟨j', hj, rfl, rfl, hrr, hgrace⟩ | ⟨e, he, -⟩
    · have := hbound.tickets
      omega
    · obtain rfl := ReturnAction.grace.inj (Action.back.inj hj)
      obtain ⟨rfl, -⟩ := hbound.jobs _ ha j rfl hk
      exact .inr (mayFallBack_of ((hkept hk).resolve_right hrr) hgrace)
    · cases he

/-- A drain pass that comes to an entry. -/
theorem protects_redeliver_iff (hbound : Bound k target c) (hpres : c.shared.server.Presence)
    {e : Numbered} (ha : .back (.redeliver e) ∈ c.actions)
    (hexec : exec cfg c.shared i (.back (.redeliver e)) = some r) :
    Protects cfg c.shared i k target r ↔
      GraceKept cfg k target c.shared i (.back (.redeliver e)) := by
  constructor
  · intro hprot hk
    have hesm : Smpp.isDLR e.pending.esmClass = false := hbound.loads _ ha _ rfl hk
    have hmo : ¬Smpp.isDLR e.pending.esmClass = true := by simp [hesm]
    refine or_iff_not_imp_right.mpr fun hsome => ?_
    by_cases hthere : e.pending.targetConnID ≠ [] ∧
        (c.shared.server.getConnection e.pending.targetConnID).isSome = true
    · -- the pass goes to the stored target
      simp only [exec, execReturn, if_pos hthere] at hexec
      cases hexec
      by_cases hsame : e.pending.targetConnID = target
      · have hon := (Server.getConnection_isSome_iff hpres _).mp hthere.2
        obtain ⟨p, hp⟩ := Option.ne_none_iff_exists'.mp hon
        refine ⟨?_, fun _ => ⟨hsame ▸ hthere.1, hsame⟩⟩
        rintro ⟨t, ht, -⟩
        rw [← hsame, hpres.apart _ p hp] at ht
        cases ht
      · have hmay := (hprot _ _ (mem_singleton_self _) hk).resolve_left fun h => hsame h.1
        refine ⟨fun hw => not_mayFallBack hpres (.inl hw) hmay, fun hon => ?_⟩
        exact absurd hmay (not_mayFallBack hpres (.inr hon))
    · -- the pass falls back
      have hrr : ¬c.shared.server.roundRobinConnID i.pick = [] := by
        intro hrr
        refine hsome ⟨hrr, ?_⟩
        by_cases hempty : e.pending.targetConnID = []
        · exact .inl hempty
        · exact .inr (Option.not_isSome_iff_eq_none.mp fun h => hthere ⟨hempty, h⟩)
      simp only [exec, execReturn, if_neg hthere, if_neg hmo, if_neg hrr] at hexec
      cases hexec
      have hother : c.shared.server.roundRobinConnID i.pick ≠ e.pending.targetConnID := by
        intro heq
        exact hthere ⟨heq ▸ hrr, heq ▸ Server.roundRobinConnID_connected hrr⟩
      have hmay := (hprot _ _ (mem_singleton_self _) hk).resolve_left fun h => by
        simp [isFallback, hother] at h
      refine ⟨fun hw => not_mayFallBack hpres (.inl hw) hmay, fun hon => ?_⟩
      exact absurd hmay (not_mayFallBack hpres (.inr hon))
  · intro hkept caller connID hc hk
    rcases exec_attempt hexec hc with hnew | ⟨j, hj, -⟩ | ⟨e', he, rfl, hway⟩
    · have := hbound.tickets
      omega
    · cases hj
    obtain rfl := ReturnAction.redeliver.inj (Action.back.inj he)
    rcases hkept hk with ⟨hgrace, hkeeps⟩ | ⟨hrr, hnobody⟩
    · by_cases hon : c.shared.server.conns.find? target = none
      · exact .inr (mayFallBack_of hon hgrace)
      · obtain ⟨hne, hsame⟩ := hkeeps hon
        rcases hway with ⟨hto, -⟩ | ⟨-, -, hgone⟩
        · exact .inl ⟨hto.trans hsame, by simp [isFallback, hto]⟩
        · rw [hsame] at hgone
          exact absurd ⟨hne, (Server.getConnection_isSome_iff hpres _).mpr hon⟩ hgone
    · rcases hway with ⟨rfl, hne, hthere⟩ | ⟨rfl, hne, -⟩
      · rcases hnobody with hempty | hnone
        · exact absurd hempty hne
        · rw [hnone] at hthere
          cases hthere
      · exact absurd hrr hne

/-- **An attempt keeps the promise exactly when the grace is kept.** -/
theorem protects_iff (hbound : Bound k target c) (hord : Orderly c) {a : Action}
    (ha : a ∈ c.actions) (hexec : exec cfg c.shared i a = some r) :
    Protects cfg c.shared i k target r ↔ GraceKept cfg k target c.shared i a := by
  have hidle : (∀ j, a ≠ .back (.grace j)) → (∀ e, a ≠ .back (.redeliver e)) →
      Protects cfg c.shared i k target r := by
    intro hj he caller connID hc hk
    rcases exec_attempt hexec hc with hnew | ⟨j, rfl, -⟩ | ⟨e, rfl, -⟩
    · have := hbound.tickets
      omega
    · exact absurd rfl (hj j)
    · exact absurd rfl (he e)
  cases a with
  | back a =>
    cases a with
    | grace j => exact protects_grace_iff hbound hord.presence ha hexec
    | redeliver e => exact protects_redeliver_iff hbound hord.presence ha hexec
    | _ => exact ⟨fun _ => trivial, fun _ => hidle (by simp) (by simp)⟩
  | _ => exact ⟨fun _ => trivial, fun _ => hidle (by simp) (by simp)⟩

/-- **The reconnect grace, for every attempt of every run.** An MO message with a
target arrives: its first attempt is made at its target. Whatever action is taken in
the run from there on, it attempts the message at its target, or falls back when the
target is away for at least the grace period or was never connected, if and only if
the grace is kept. -/
theorem grace_protects_iff (cfg : RouterConfig) {c₁ c₂ : GatewayConf} {e : Event Input Action}
    {k : ℕ} {target : Bytes}
    (hstart : (gateway cfg).Reaches Program.Anything GatewayConf.start c₁)
    (harrives : MOArrives cfg c₁ e k target) (hstep : (gateway cfg).step c₁ e = some c₂) :
    (∀ caller connID, .back (.deliverToConn caller connID) ∈ c₂.actions → caller.item = k →
      connID = target ∧ isFallback connID caller = false) ∧
    ∀ c, (gateway cfg).Reaches Program.Anything c₂ c → ∀ n i a r, c.head n = some a →
      exec cfg c.shared i a = some r →
      (Protects cfg c.shared i k target r ↔ GraceKept cfg k target c.shared i a) := by
  have hord := reaches_orderly hstart
  obtain ⟨hnew, hfirst⟩ := bound_of_arrives hord harrives hstep
  refine ⟨hfirst, fun c hrun n i a r hhead hexec => ?_⟩
  have hbound : Bound k target c :=
    hrun.invariant hnew fun c e c' hc _ hs => step_bound hc hs
  have hord' : Orderly c :=
    hrun.invariant (step_orderly hord hstep) fun c e c' hc _ hs => step_orderly hc hs
  exact protects_iff hbound hord' (Conf.mem_actions_of_head hhead) hexec

/-- The system id of another engine. -/
def otherID : Bytes := ascii "other"

/-- Goroutines 3 to 6 after `engineSubmits`: another engine binds, the first one
disconnects after ten seconds, and a reply to its message is about to be handled. -/
def replyComes : List (Event Input Action) :=
  engineSubmits ++ goroutine 3 (.serve .accept) [{}] ++
  goroutine 4 (.serve (.bind 1 otherID none)) [{}] ++
  goroutine 5 (.serve (.disconnect 0)) [{ now := 10 * second }] ++
  [.start (.back (.handleDeliver 0 (ascii "200") (ascii "100") 0x00 (ascii "yes")))]

/-- The reply is taken on a second later. -/
def replyTaken : Event Input Action := .run 6 { now := 11 * second }

/-- It finds its engine gone and is buffered; then a drain pass takes it up. -/
def replyWaits : List (Event Input Action) :=
  [.run 6 {}, .run 6 { now := 11 * second }, .run 6 { now := 11 * second }] ++
  goroutine 7 (.back .drainRetries) [{ now := 12 * second, later := 12 * second }]

/-- The reply. -/
def replyItem : Item := ⟨.mo, ascii "200", ascii "100", 0x00, ascii "yes"⟩

/-- Where the reply comes in. -/
def replyConf : GatewayConf :=
  (gateway .loadConfig).outcome Program.Anything GatewayConf.start replyComes

/-- Where it was taken on. -/
def replyTakenConf : GatewayConf :=
  (gateway .loadConfig).outcome Program.Anything replyConf [replyTaken]

theorem reply_arrives : MOArrives .loadConfig replyConf replyTaken 0 engineID :=
  ⟨6, { now := 11 * second }, 0, ascii "200", ascii "100", 0x00, ascii "yes", rfl,
    by decide, by decide, by decide, by decide⟩

theorem reply_taken :
    (gateway .loadConfig).step replyConf replyTaken = some replyTakenConf :=
  (gateway .loadConfig).step_outcome _ _ (by decide)

/-- What the queue holds of the reply. -/
def replyEntry : Numbered :=
  ⟨0, ⟨engineID, ascii "200", replyItem.body, 0x00, ascii "200", ascii "100", 11 * second⟩⟩

/-- A minute and more after the engine left, the drain pass may give the reply to the
other engine. -/
theorem reply_may_fall_back :
    let c := (gateway .loadConfig).outcome Program.Anything replyTakenConf replyWaits
    ∃ r, c.head 7 = some (.back (.redeliver replyEntry)) ∧
      exec .loadConfig c.shared { now := 80 * second } (.back (.redeliver replyEntry)) = some r ∧
      .back (.deliverToConn (.redeliver replyEntry) otherID) ∈ r.next ∧
      Protects .loadConfig c.shared { now := 80 * second } 0 engineID r := by
  have hstart := (gateway .loadConfig).reaches_outcome Program.Anything GatewayConf.start
    replyComes (by decide)
  have hrun := (gateway .loadConfig).reaches_outcome Program.Anything replyTakenConf
    replyWaits (by decide)
  have hhead : ((gateway .loadConfig).outcome Program.Anything replyTakenConf replyWaits).head 7 =
      some (.back (.redeliver replyEntry)) := by decide
  obtain ⟨r, hr, hnext⟩ : ∃ r, exec .loadConfig
      ((gateway .loadConfig).outcome Program.Anything replyTakenConf replyWaits).shared
      { now := 80 * second } (.back (.redeliver replyEntry)) = some r ∧
      .back (.deliverToConn (.redeliver replyEntry) otherID) ∈ r.next := ⟨_, rfl, by decide⟩
  refine ⟨r, hhead, hr, hnext, ?_⟩
  refine ((grace_protects_iff .loadConfig hstart reply_arrives reply_taken).2 _ hrun 7 _ _ r
    hhead hr).mpr fun _ => .inl ⟨?_, ?_⟩
  · decide
  · decide

/-- **A drain pass does not wait for the engine**: two seconds after it left, with a
grace period of a minute, its reply is written to the session of another engine. -/
theorem drain_ignores_grace :
    ∃ c, (gateway .loadConfig).Reaches Program.Anything GatewayConf.start replyConf ∧
      MOArrives .loadConfig replyConf replyTaken 0 engineID ∧
      (gateway .loadConfig).step replyConf replyTaken = some replyTakenConf ∧
      (gateway .loadConfig).Reaches Program.Anything replyTakenConf c ∧
      (gateway .loadConfig).Shows c (.wrote 1 0 replyItem.body) ∧
      c.shared.server.conns.find? otherID = some 1 ∧
      c.shared.server.conns.find? engineID = none ∧
      withinGrace .loadConfig c.shared.server (12 * second) engineID := by
  have hstart := (gateway .loadConfig).reaches_outcome Program.Anything GatewayConf.start
    replyComes (by decide)
  have hrun := (gateway .loadConfig).reaches_outcome Program.Anything replyTakenConf
    (replyWaits ++ [.run 7 { now := 12 * second }, .run 7 { now := 12 * second }]) (by decide)
  exact ⟨_, hstart, reply_arrives, reply_taken, hrun,
    (gateway .loadConfig).shows_of_head 7 { now := 12 * second } (by decide), by decide, by decide,
    by decide⟩

end ReturnPath

end SmscGateway
