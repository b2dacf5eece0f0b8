import SmscGateway.Gateway.Sessions
import SmscGateway.Return.Pipeline
import SmscGateway.Submit.Origin

/-!
# The target of a receipt

On its way north a receipt passes through `deliverWithGrace`, the retry queue
and any number of drain passes, next to MO messages that may go to whoever is
connected. What all these places hold of a message is an errand: whom to
deliver what to. `exec_errands` says where errands come from: from a message
that was just taken on, from an errand before, through JSON, or, for an MO
message, from one with another target. So a receipt's errands all name its
owner.

The session written to is looked up under the target. It may be off the table
by the time of the write, but only when its own handler has just ended and has
yet to close it.
-/

namespace SmscGateway

open List SortedMap Program

namespace ReturnPath

/-! ## Errands -/

/-- What is to be delivered to whom, and whether the delivering code takes it
for a receipt. -/
structure Errand where
  item : ℕ
  target : Bytes
  body : Bytes
  esmClass : UInt8
  isDLR : Bool

/-- The errand with another target. -/
def Errand.to (x : Errand) (connID : Bytes) : Errand := { x with target := connID }

def jobErrand (j : Job) : Errand := ⟨j.item, j.connID, j.body, j.esmClass, j.isDLR⟩

/-- A drain pass tells receipts from MO messages by the stored byte. -/
def entryErrand (e : Numbered) : Errand :=
  ⟨e.item, e.pending.targetConnID, e.pending.pduBody, e.pending.esmClass,
    Smpp.isDLR e.pending.esmClass⟩

def callerErrand : Caller → Errand
  | .direct j | .fallback j => jobErrand j
  | .redeliver e => entryErrand e

/-- The errands of a pending action are all good, and so is the session it is
about to write to. -/
def Carries (Q : Errand → Prop) (W : Bytes → ℕ → Prop) : Action → Prop
  | .back (.getSubmit _ r) => Smpp.isDLR r.esmClass = true
  | .back (.deliverToConn c connID) => Q (callerErrand c) ∧ Q ((callerErrand c).to connID)
  | .back (.write c connID p) =>
    (Q (callerErrand c) ∧ Q ((callerErrand c).to connID)) ∧ W connID p
  | .back (.await c) => Q (callerErrand c)
  | .back (.grace j) => Q (jobErrand j)
  | .back (.buffer j) => Q (jobErrand j)
  | .back (.redeliver e) => Q (entryErrand e)
  | .back (.requeue e) => Q (entryErrand e)
  | _ => True

/-- What the delivering code may do to an errand. -/
structure Lasting (Q : Errand → Prop) : Prop where
  isDLR : ∀ x, Q x → x.isDLR = Smpp.isDLR x.esmClass
  json : ∀ x, Q x → Q (x.to (jsonString x.target))
  /-- An MO message may go to anyone. -/
  free : ∀ x connID, Q x → x.isDLR = false → Q (x.to connID)

/-- The errand of a message that is taken on: a receipt goes to its owner. -/
def Assigned (k : ℕ) (it : Item) (x : Errand) : Prop :=
  x.item = k ∧ x.body = it.body ∧ x.esmClass = it.esmClass ∧ x.isDLR = Smpp.isDLR it.esmClass ∧
    (x.isDLR = true → it.kind = .receipt x.target ∨ it.kind = .synthetic x.target)

section Exec

variable {cfg : RouterConfig} {s : Gateway} {i : Input} {r : GatewayEffect}
variable {Q : Errand → Prop} {W : Bytes → ℕ → Prop}

/-- The errands an effect leaves behind are all good. -/
structure Delegates (Q : Errand → Prop) (W : Bytes → ℕ → Prop) (r : GatewayEffect) : Prop where
  queue : ∀ e ∈ r.state.store.retries.values, Q (entryErrand e)
  next : ∀ a ∈ r.next, Carries Q W a

variable {a : Action}

theorem carries_of_not_onReturn (h : a.onReturn = false) : Carries Q W a := by
  cases a with
  | back a => cases h
  | _ => trivial

theorem delegates_of_offReturn (hs : ∀ e ∈ s.store.retries.values, Q (entryErrand e))
    (h : OffReturn s r) : Delegates Q W r :=
  ⟨h.retries ▸ hs, fun a ha =>
    carries_of_not_onReturn (by simpa using all_eq_true.mp h.next a ha)⟩

/-- An action with the queue left alone. -/
theorem delegates_of_next (hs : ∀ e ∈ s.store.retries.values, Q (entryErrand e))
    (hq : r.state.store.retries = s.store.retries) (hn : ∀ a ∈ r.next, Carries Q W a) :
    Delegates Q W r :=
  ⟨hq ▸ hs, hn⟩

/-- A stored errand is read back from JSON. -/
theorem delegates_enqueueRetry (hQ : Lasting Q) {id : Bytes} {item : ℕ} {p : PendingDeliver}
    {seen : List Obs} (hs : ∀ e ∈ s.store.retries.values, Q (entryErrand e))
    (hp : Q (entryErrand ⟨item, p⟩)) :
    Delegates Q W { state := { s with store := s.store.enqueueRetry id item p }, seen } := by
  exact ⟨forall_values_insert hs (hQ.json _ hp), by simp⟩

theorem routeReceipt_delegates {n : ℕ} {rc : Receipt} {corr : Correlation}
    (hesm : Smpp.isDLR rc.esmClass = true)
    (hs : ∀ e ∈ s.store.retries.values, Q (entryErrand e))
    (hnew : ∀ k it, .item k (.took it) ∈ (routeReceipt s n rc corr).seen →
      ∀ x, Assigned k it x → Q x) :
    Delegates Q W (routeReceipt s n rc corr) := by
  unfold routeReceipt at hnew ⊢
  split
  · exact delegates_of_next hs rfl (by simp [Carries])
  · rename_i hrest
    rw [if_neg hrest] at hnew
    have hx := hnew _ _ (mem_cons_of_mem _ mem_cons_self)
      ⟨_, corr.northConnID, _, _, true⟩ ⟨rfl, rfl, rfl, hesm.symm, fun _ => .inl rfl⟩
    refine delegates_of_next hs rfl fun a ha => ?_
    simp only [mem_cons, not_mem_nil, or_false] at ha
    rcases ha with rfl | rfl
    · trivial
    · exact ⟨hx, hx⟩

theorem failed_carries {c : Caller} (h : Q (callerErrand c)) : ∀ a ∈ c.failed, Carries Q W a := by
  cases c <;> intro a ha <;> obtain rfl := mem_singleton.mp ha <;> exact h

theorem acked_carries (c : Caller) : ∀ a ∈ c.acked, Carries Q W a := by
  unfold Caller.acked
  split <;> [split; split; skip] <;> simp [Carries]

/-- What an action of the return side does to errands. -/
theorem execReturn_delegates {a : ReturnAction} (h : execReturn cfg s i a = some r)
    (hQ : Lasting Q) (hs : ∀ e ∈ s.store.retries.values, Q (entryErrand e))
    (ha : Carries Q W (.back a))
    (hlook : ∀ connID p, s.server.getConnection connID = some p → W connID p)
    (hnew : ∀ k it, .item k (.took it) ∈ r.seen → ∀ x, Assigned k it x → Q x) :
    Delegates Q W r := by
  have hone : ∀ {b : Action} {seen : List Obs}, Carries Q W b →
      Delegates Q W { state := s, next := [b], seen } := by
    intro b seen hb
    refine delegates_of_next hs rfl fun b' hb' => ?_
    exact mem_singleton.mp hb' ▸ hb
  cases execReturn_moves h with
  | unreadable | posted | unknown => exact delegates_of_next hs rfl (by simp)
  | found rc corr hesm =>
    have hroute : Delegates Q W (routeReceipt { s with arrivals := s.arrivals + 1 } s.arrivals
        rc corr) :=
      routeReceipt_delegates hesm hs fun k it hk => hnew k it (mem_append_right _ hk)
    exact ⟨hroute.queue, hroute.next⟩
  | missed rc hesm =>
    refine delegates_of_next hs rfl fun b hb => ?_
    obtain rfl := mem_singleton.mp hb
    exact hesm
  | took pool it connID next hkind hesm hnext =>
    have hx := hnew _ _ (mem_cons_of_mem _ mem_cons_self)
      ⟨_, connID, _, _, false⟩ ⟨rfl, rfl, rfl, hesm.symm, fun h => by cases h⟩
    refine delegates_of_next hs rfl fun a ha => ?_
    obtain rfl := mem_singleton.mp ha
    rcases hnext with rfl | rfl
    · exact hx
    · exact ⟨hx, hx⟩
  | stored => exact routeReceipt_delegates ha hs hnew
  | settle rc corr st =>
    obtain ⟨-, hq, -, -⟩ := execSettle_quiet (s := s) (i := i) rc corr st
    refine delegates_of_next hs hq fun b hb => ?_
    rcases execSettle_next hb with ⟨e, rfl⟩ | ⟨b, rfl, -⟩
    · trivial
    · trivial
  | absent => exact delegates_of_next hs rfl (failed_carries ha.1)
  | present c connID p hp => exact hone ⟨ha, hlook connID p hp⟩
  | written => exact hone ha.1.1
  | unwritten => exact delegates_of_next hs rfl (failed_carries ha.1.1)
  | acked c => exact delegates_of_next hs rfl (acked_carries c)
  | unacked => exact delegates_of_next hs rfl (failed_carries ha)
  | held | returned => exact hone ha
  | fallsBack j hgrace hmo =>
    -- only what is not taken for a receipt goes to another engine
    exact hone ⟨ha, hQ.free _ _ ha hmo⟩
  | buffer j =>
    refine delegates_enqueueRetry hQ hs ?_
    have hbit : j.isDLR = Smpp.isDLR j.esmClass := hQ.isDLR _ ha
    have heq : entryErrand ⟨j.item, j.pending i.now⟩ = jobErrand j := by
      simp only [entryErrand, jobErrand, Job.pending, hbit]
    exact heq ▸ ha
  | drained out hout =>
    refine ⟨fun e he => ?_, fun b hb => ?_⟩
    · obtain ⟨k, hk⟩ := mem_values_iff.mp he
      exact hs e (mem_values_iff.mpr ⟨k, mem_entries_iff.mp
        (mem_of_mem_dropFirst (mem_entries_iff.mpr hk))⟩)
    · obtain ⟨e, he, rfl⟩ := mem_map.mp hb
      have hmem := (prefix_retriesTaken _ _ _).subset (hout ▸ (mem_filter.mp he).1)
      exact hs e.2 (mem_map.mpr ⟨e, hmem, rfl⟩)
  | redirected e connID hconn =>
    rcases hconn with ⟨rfl, -⟩ | ⟨-, -, -, hbit⟩
    · exact hone ⟨ha, ha⟩
    · exact hone ⟨ha, hQ.free _ _ ha hbit⟩
  | requeue => exact delegates_enqueueRetry hQ hs ha

/-- **Where errands come from.** A property that lasts and that every message
taken on starts with is a property of all errands. -/
theorem exec_errands (h : exec cfg s i a = some r) (hQ : Lasting Q)
    (hs : ∀ e ∈ s.store.retries.values, Q (entryErrand e)) (ha : Carries Q W a)
    (hlook : ∀ connID p, s.server.getConnection connID = some p → W connID p)
    (hnew : ∀ k it, .item k (.took it) ∈ r.seen → ∀ x, Assigned k it x → Q x) :
    Delegates Q W r := by
  cases a with
  | submit a =>
    rcases execSubmit_cases h with hoff | ⟨connID, g, d, f, l, hrest, rfl⟩
    · exact delegates_of_offReturn hs hoff
    · rw [sendSyntheticDLR, if_neg hrest] at hnew ⊢
      have hbit : Smpp.isDLR 0x04 = true := by decide
      have hx := hnew _ _ (mem_cons_of_mem _ (mem_cons_of_mem _ mem_cons_self))
        ⟨_, connID, _, _, true⟩ ⟨rfl, rfl, rfl, hbit.symm, fun _ => .inr rfl⟩
      refine delegates_of_next hs rfl fun a ha => ?_
      simp only [Effect.after, mem_cons, not_mem_nil, or_false] at ha
      rcases ha with rfl | rfl | rfl
      · trivial
      · exact ⟨hx, hx⟩
      · trivial
  | record a => exact delegates_of_offReturn hs (execRecord_frame h).offReturn
  | back a => exact execReturn_delegates h hQ hs ha hlook hnew
  | serve a => exact delegates_of_offReturn hs (execServe_offReturn h)

/-! ## Taking messages on -/

/-- The message an observation shows to be taken on. -/
def tookOf : Obs → Option (ℕ × Item)
  | .item k (.took it) => some (k, it)
  | _ => none

/-- Why a message is on the return path: the correlation its receipt was
matched with, or the submit that was given up. -/
def Sourced (seen : List Obs) (k : ℕ) (it : Item) : Prop :=
  match it.kind with
  | .receipt owner => ∃ n corr, .matched n (.smpp corr k) ∈ seen ∧ corr.northConnID = owner
  | .synthetic owner => ∃ g, .message g (.synthetic owner) ∈ seen
  | .mo => Smpp.isDLR it.esmClass = false

/-- The effect takes on one message. -/
structure Takes (s : Gateway) (r : GatewayEffect) (it : Item) : Prop where
  tickets : r.state.tickets = s.tickets + 1
  seen : r.seen.filterMap tookOf = [(s.tickets, it)]
  source : Sourced r.seen s.tickets it

/-- The effect takes on no message. -/
def TakesNone (s : Gateway) (r : GatewayEffect) : Prop :=
  r.state.tickets = s.tickets ∧ r.seen.filterMap tookOf = []

theorem takesNone_of_offReturn (h : OffReturn s r) : TakesNone s r :=
  ⟨h.tickets, OffReturn.seen_filterMap h fun o ho => by cases o <;> first | rfl | cases ho⟩

theorem takesNone_of_follows (h : Follows s r) : TakesNone s r := by
  refine ⟨h.tickets, filterMap_eq_nil_iff.mpr fun o ho => ?_⟩
  have hoff := h.seen o ho
  cases o with
  | item k l => cases l <;> first | rfl | cases hoff
  | _ => rfl

/-- **What an action takes on.** -/
theorem exec_takes (h : exec cfg s i a = some r) : TakesNone s r ∨ ∃ it, Takes s r it := by
  cases a with
  | submit a =>
    rcases execSubmit_cases h with hoff | ⟨connID, g, d, f, l, hrest, rfl⟩
    · exact .inl (takesNone_of_offReturn hoff)
    · rw [sendSyntheticDLR, if_neg hrest]
      exact .inr ⟨_, rfl, rfl, g, mem_cons_of_mem _ mem_cons_self⟩
  | record a => exact .inl (takesNone_of_offReturn (execRecord_frame h).offReturn)
  | serve a => exact .inl (takesNone_of_offReturn (execServe_offReturn h))
  | back a =>
    cases hmoves : a.begins with
    | false => exact .inl (takesNone_of_follows (execReturn_follows hmoves h))
    | true =>
      cases execReturn_moves h with
      | found rc corr =>
        unfold routeReceipt
        split
        · exact .inl ⟨rfl, rfl⟩
        · exact .inr ⟨_, rfl, rfl, s.arrivals, corr,
            mem_cons_of_mem _ mem_cons_self, rfl⟩
      | took pool it connID next hkind hesm =>
        refine .inr ⟨it, rfl, rfl, ?_⟩
        simp only [Sourced, hkind]
        exact hesm
      | stored n rc =>
        unfold routeReceipt
        split
        · exact .inl ⟨rfl, rfl⟩
        · exact .inr ⟨_, rfl, rfl, n, _, mem_cons_self, rfl⟩
      | unreadable | missed | posted | unknown => exact .inl ⟨rfl, rfl⟩
      | _ => cases hmoves

/-- **Where a `deliver_sm` is written**: in `DeliverToConn`, on a session that
is open. -/
theorem exec_wrote (h : exec cfg s i a = some r) {p k : ℕ} {body : Bytes}
    (hw : .wrote p k body ∈ r.seen) :
    ∃ c connID, a = .back (.write c connID p) ∧ k = c.item ∧ body = c.body ∧
      s.server.isClosed p = false := by
  have hroute : ∀ {t : Gateway} {n : ℕ} {rc : Receipt} {corr : Correlation},
      .wrote p k body ∉ (routeReceipt t n rc corr).seen := by
    intro t n rc corr
    unfold routeReceipt
    split <;> simp
  cases a with
  | submit a => rcases execSubmit_seen h hw with h | ⟨k, it, h⟩ <;> cases h
  | record a =>
    obtain ⟨url, payload, h⟩ := (execRecord_frame h).seen _ hw
    cases h
  | serve a =>
    rw [(execServe_frame h).2.2] at hw
    cases hw
  | back a =>
    cases execReturn_moves h with
    | found =>
      rcases mem_cons.mp hw with hw | hw
      · cases hw
      · exact absurd hw hroute
    | stored => exact absurd hw hroute
    | settle rc corr st =>
      rw [(execSettle_quiet rc corr st).2.2.2] at hw
      cases hw
    | written c connID q hopen =>
      obtain ⟨rfl, rfl, rfl⟩ := Obs.wrote.inj (mem_singleton.mp hw)
      exact ⟨c, connID, rfl, rfl, rfl, hopen⟩
    | acked c =>
      rcases mem_cons.mp hw with hw | hw
      · cases hw
      · unfold Caller.releases at hw
        split at hw <;> [split at hw; split at hw; skip] <;> simp at hw
    | drained =>
      simp only [mem_append, mem_map] at hw
      rcases hw with hw | ⟨e, -, hw⟩
      · simp at hw
      · split at hw <;> cases hw
    | _ => simp at hw

end Exec

/-! ## Ids that survive JSON -/

/-- The system id an action binds a session under. -/
def bindsAs : Action → Option Bytes
  | .serve (.bind _ systemID _) => some systemID
  | _ => none

/-- Engines submit and bind under ids that are valid UTF-8. -/
def ValidIDs (_ : GatewayConf) (_ : Input) (a : Action) : Prop :=
  (∀ connID ∈ a.engine, ValidUtf8 connID) ∧ ∀ systemID ∈ bindsAs a, ValidUtf8 systemID
  deriving Decidable

/-- Every connection id survives JSON: those of the sessions, those messages
were accepted under, and those of all records. -/
structure PlainIDs (c : GatewayConf) : Prop where
  sessions : ∀ (p : ℕ) (conn : Connection), c.shared.server.heap[p]? = some conn →
    jsonString conn.id = conn.id
  accepted : ∀ g o, .message g (.accepted o) ∈ c.trace → jsonString o.connID = o.connID
  claims : (Dossier.claims fun x => jsonString x.2 = x.2).OnRun c

variable {cfg : RouterConfig} {c c' : GatewayConf}

variable {s : Server} {e : Event Input Action} {k : ℕ} {it : Item} {a : Action}

theorem jsonString_idOf
    (h : ∀ (p : ℕ) (conn : Connection), s.heap[p]? = some conn → jsonString conn.id = conn.id)
    (conn : Option ℕ) : jsonString (s.idOf conn) = s.idOf conn := by
  unfold Server.idOf
  cases hc : conn.bind fun p => s.heap[p]? with
  | none => rfl
  | some x =>
    obtain ⟨p, -, hp⟩ := Option.bind_eq_some_iff.mp hc
    exact h p x hp

theorem step_plainIDs (hc : PlainIDs c) (hok : Program.When ValidIDs c e)
    (hs : (gateway cfg).step c e = some c') : PlainIDs c' := by
  have haccepted : ∀ g o, .message g (.accepted o) ∈ c'.trace →
      jsonString o.connID = o.connID := by
    intro g o ho
    rcases mem_trace_of_step hs ho with ho | ⟨j, input, a, r, rest, rfl, hran, ho⟩
    · exact hc.accepted g o ho
    · rcases exec_accepts hran.exec ho with ⟨connID, seqNum, body, rfl, rfl⟩ | rfl
      · exact jsonString_of_valid ((hok _ hran.head).1 connID rfl)
      · decide
  refine ⟨fun p conn hp => ?_, haccepted, ?_⟩
  · rcases step_cases hs with ⟨a, -, hst⟩ | ⟨j, input, a, r, rest, rfl, hran⟩
    · exact hc.sessions p conn (hst.shared ▸ hp)
    · rw [hran.shared] at hp
      rcases (exec_sessions hran.exec).renames p conn hp with ⟨old, hold, hid⟩ | ⟨n, hid⟩ |
        ⟨q, config, rfl⟩
      · rw [hid]
        exact hc.sessions p old hold
      · rw [hid]
        exact jsonString_numbered (by decide) n
      · exact jsonString_of_valid ((hok _ hran.head).2 conn.id rfl)
  · refine step_claims hs hc.claims (fun g connID hx => ?_) haccepted fun _ _ _ _ t _ => ?_
    · simp only [hx]
    · exact jsonString_idOf hc.sessions t.conn

theorem reaches_plainIDs
    (h : (gateway cfg).Reaches (Program.When ValidIDs) GatewayConf.start c) : PlainIDs c := by
  refine h.invariant ?_ fun c e c' hc hok hs => step_plainIDs hc hok hs
  refine ⟨fun p conn h => ?_, fun _ _ h => ?_, Dossier.onRun_start⟩ <;> cases h

/-! ## One message for each ticket -/

theorem mem_tooks {l : List Obs} : .item k (.took it) ∈ l ↔ (k, it) ∈ l.filterMap tookOf := by
  refine ⟨fun h => mem_filterMap.mpr ⟨_, h, rfl⟩, fun h => ?_⟩
  obtain ⟨o, ho, hk⟩ := mem_filterMap.mp h
  unfold tookOf at hk
  split at hk
  · obtain ⟨rfl, rfl⟩ := Prod.mk.inj (Option.some.inj hk)
    exact ho
  · cases hk

/-- What an action takes on gets the next ticket. -/
theorem exec_took {s : Gateway} {i : Input} {r : GatewayEffect} (h : exec cfg s i a = some r)
    (htook : .item k (.took it) ∈ r.seen) :
    k = s.tickets ∧ r.state.tickets = s.tickets + 1 ∧ Sourced r.seen k it := by
  rw [mem_tooks] at htook
  rcases exec_takes h with ⟨-, hnone⟩ | ⟨new, htick, hone, hsource⟩
  · rw [hnone] at htook
    cases htook
  · rw [hone] at htook
    obtain ⟨rfl, rfl⟩ := Prod.mk.inj (mem_singleton.mp htook)
    exact ⟨rfl, htick, hsource⟩

/-- What was taken on got the tickets given out so far, one each. -/
structure Ticketed (c : GatewayConf) : Prop where
  lt : ∀ k it, .item k (.took it) ∈ c.trace → k < c.shared.tickets
  unique : ∀ k it it', .item k (.took it) ∈ c.trace → .item k (.took it') ∈ c.trace → it = it'

theorem step_ticketed (hc : Ticketed c) (hs : (gateway cfg).step c e = some c') : Ticketed c' := by
  rcases step_cases hs with ⟨a, -, -, hshared, -, htr⟩ |
    ⟨j, input, a, r, rest, -, -, hexec, -, hshared, -, htr⟩
  · exact ⟨hshared ▸ htr ▸ hc.lt, htr ▸ hc.unique⟩
  · rcases exec_takes hexec with ⟨htick, hnone⟩ | ⟨new, htick, hone, -⟩
    · have hold : ∀ k it, .item k (.took it) ∈ c'.trace → .item k (.took it) ∈ c.trace := by
        intro k it h
        rw [htr] at h
        rcases mem_append.mp h with h | h
        · exact h
        · rw [mem_tooks, hnone] at h
          cases h
      refine ⟨fun k it h => ?_, fun k it it' h h' => hc.unique k it it' (hold _ _ h) (hold _ _ h')⟩
      rw [hshared, htick]
      exact hc.lt k it (hold k it h)
    · have hcases : ∀ k it, .item k (.took it) ∈ c'.trace →
          .item k (.took it) ∈ c.trace ∨ k = c.shared.tickets ∧ it = new := by
        intro k it h
        rw [htr] at h
        rcases mem_append.mp h with h | h
        · exact .inl h
        · rw [mem_tooks, hone] at h
          exact .inr (Prod.mk.inj (mem_singleton.mp h))
      refine ⟨fun k it h => ?_, fun k it it' h h' => ?_⟩
      · rw [hshared, htick]
        rcases hcases k it h with h | ⟨rfl, -⟩
        · have := hc.lt k it h
          omega
        · omega
      · rcases hcases k it h with h | ⟨hk, hit⟩ <;> rcases hcases k it' h' with h' | ⟨hk', hit'⟩
        · exact hc.unique k it it' h h'
        · have := hc.lt k it h
          omega
        · have := hc.lt k it' h'
          omega
        · exact hit.trans hit'.symm

theorem reaches_ticketed {ok : GatewayConf → Event Input Action → Prop}
    (h : (gateway cfg).Reaches ok GatewayConf.start c) : Ticketed c := by
  refine h.invariant ⟨fun _ _ h => ?_, fun _ _ _ h => ?_⟩ fun c e c' hc _ hs => step_ticketed hc hs
  · cases h
  · cases h

/-- What is on the return path has a source. -/
theorem reaches_sourced {ok : GatewayConf → Event Input Action → Prop}
    (h : (gateway cfg).Reaches ok GatewayConf.start c) (htook : .item k (.took it) ∈ c.trace) :
    Sourced c.trace k it := by
  refine h.linked (q := fun o seen => ∀ k it, o = .item k (.took it) → Sourced seen k it) ?_ rfl ?_
    _ htook k it rfl
  · intro o l l' hsub hq k it ho
    have hsource := hq k it ho
    unfold Sourced at hsource ⊢
    split at hsource
    · obtain ⟨n, corr, hm, hid⟩ := hsource
      exact ⟨n, corr, hsub hm, hid⟩
    · obtain ⟨g, hm⟩ := hsource
      exact ⟨g, hsub hm⟩
    · exact hsource
  · rintro s i a r hr o ho k it rfl
    exact (exec_took hr ho).2.2

/-! ## Errands and sessions in every run -/

/-- An errand of a message that was taken on. -/
def Good (trace : List Obs) (x : Errand) : Prop :=
  ∃ it, .item x.item (.took it) ∈ trace ∧ Assigned x.item it x ∧
    (x.isDLR = true → jsonString x.target = x.target)

theorem Good.mono {l l' : List Obs} (h : l ⊆ l') {x : Errand} (hx : Good l x) : Good l' x := by
  obtain ⟨it, htook, hrest⟩ := hx
  exact ⟨it, h htook, hrest⟩

theorem lasting_good (trace : List Obs) : Lasting (Good trace) where
  isDLR := by
    rintro x ⟨it, -, ⟨-, -, hesm, hbit, -⟩, -⟩
    rw [hbit, hesm]
  json := by
    rintro x ⟨it, htook, ⟨hk, hbody, hesm, hbit, howner⟩, hjson⟩
    refine ⟨it, htook, ⟨hk, hbody, hesm, hbit, fun h => ?_⟩, fun h => ?_⟩
    · simp only [Errand.to, hjson h]
      exact howner h
    · simp only [Errand.to, hjson h]
  free := by
    rintro x connID ⟨it, htook, ⟨hk, hbody, hesm, hbit, -⟩, -⟩ hmo
    refine ⟨it, htook, ⟨hk, hbody, hesm, hbit, fun h => ?_⟩, fun h => ?_⟩
    · exact absurd (hmo.symm.trans h) (by decide)
    · exact absurd (hmo.symm.trans h) (by decide)

/-- A session that was looked up under an id is still there, closed, or has
departed. -/
def Addressed (s : Server) (connID : Bytes) (p : ℕ) : Prop :=
  p < s.heap.length ∧
    (s.conns.find? connID = some p ∨ s.isClosed p = true ∨ s.Departed connID p)

theorem addressed_of_getConnection {connID : Bytes} {p : ℕ} (h : s.getConnection connID = some p) :
    Addressed s connID p := by
  obtain ⟨hfind, hbound⟩ := Option.filter_eq_some_iff.mp h
  obtain ⟨conn, hconn, -⟩ := (Option.any_eq_true _ _).mp hbound
  exact ⟨(List.getElem?_eq_some_iff.mp hconn).1, .inl hfind⟩

theorem Addressed.step {s' : Server} (hs : Sessions s s' a) {connID : Bytes} {p : ℕ}
    (h : Addressed s connID p) : Addressed s' connID p := by
  obtain ⟨hp, hreg | hclosed | hdep⟩ := h
  · exact ⟨hs.ages.length hp, hs.keeps connID p hp hreg⟩
  · exact ⟨hs.ages.length hp, .inr (.inl (hs.ages.isClosed hclosed))⟩
  · exact ⟨hs.ages.length hp, .inr (.inr (hs.ages.departed hdep))⟩

theorem Carries.imp {Q Q' : Errand → Prop} {W W' : Bytes → ℕ → Prop} (h : Carries Q W a)
    (hQ : ∀ x, Q x → Q' x) (hW : ∀ connID p, W connID p → W' connID p) : Carries Q' W' a := by
  unfold Carries at h ⊢
  split
  · exact h
  · exact ⟨hQ _ h.1, hQ _ h.2⟩
  · exact ⟨⟨hQ _ h.1.1, hQ _ h.1.2⟩, hW _ _ h.2⟩
  · exact hQ _ h
  · exact hQ _ h
  · exact hQ _ h
  · exact hQ _ h
  · exact hQ _ h
  · trivial

/-- The errands of a configuration are all good. -/
structure Errands (c : GatewayConf) : Prop where
  queue : ∀ e ∈ c.shared.store.retries.values, Good c.trace (entryErrand e)
  actions : ∀ a ∈ c.actions, Carries (Good c.trace) (Addressed c.shared.server) a

theorem carries_of_entry {Q : Errand → Prop} {W : Bytes → ℕ → Prop} (h : entry a = true) :
    Carries Q W a := by
  unfold entry at h
  split at h <;> trivial

/-- The owner of a receipt that is taken on survives JSON. -/
theorem jsonString_owner (hplain : PlainIDs c) {owner : Bytes} (hsource : Sourced c.trace k it)
    (howner : it.kind = .receipt owner ∨ it.kind = .synthetic owner) :
    jsonString owner = owner := by
  unfold Sourced at hsource
  rcases howner with hkind | hkind
  · rw [hkind] at hsource
    obtain ⟨n, corr, hm, rfl⟩ := hsource
    exact (hplain.claims.trace _ hm _ (mem_singleton_self _)).choose_spec
  · rw [hkind] at hsource
    obtain ⟨g, hm⟩ := hsource
    exact (hplain.claims.trace _ hm _ (mem_singleton_self _)).choose_spec

theorem step_errands (hc : Errands c) (hs : (gateway cfg).step c e = some c') (hplain : PlainIDs c')
    (hsource : ∀ k it, .item k (.took it) ∈ c'.trace → Sourced c'.trace k it) : Errands c' := by
  have hgrows := (trace_of_step hs).subset
  rcases step_cases hs with ⟨a, -, hst⟩ | ⟨j, input, a, r, rest, -, hran⟩
  · refine ⟨?_, fun b hb => ?_⟩
    · rw [hst.shared, hst.trace]
      exact hc.queue
    · rcases hst.cases hb with rfl | hb
      · exact carries_of_entry hst.entry
      · rw [hst.shared, hst.trace]
        exact hc.actions b hb
  · have hshared := hran.shared
    have hsess := exec_sessions hran.exec
    have hmono : ∀ b, Carries (Good c.trace) (Addressed c.shared.server) b →
        Carries (Good c'.trace) (Addressed c'.shared.server) b := fun b hb =>
      hb.imp (fun _ => Good.mono hgrows) fun _ _ h => hshared ▸ h.step hsess
    have hdel : Delegates (Good c'.trace) (Addressed c'.shared.server) r := by
      refine exec_errands hran.exec (lasting_good _) (fun e he => (hc.queue e he).mono hgrows)
        (hmono a (hc.actions a hran.mem)) (fun connID p hp => ?_) ?_
      · exact hshared ▸ (addressed_of_getConnection hp).step hsess
      · intro k it hk x hx
        have hk' : .item k (.took it) ∈ c'.trace := hran.trace ▸ mem_append_right _ hk
        obtain rfl := hx.1
        exact ⟨it, hk', hx, fun h => jsonString_owner hplain (hsource _ it hk') (hx.2.2.2.2 h)⟩
    refine ⟨hshared ▸ hdel.queue, fun b hb => ?_⟩
    rcases hran.cases hb with hb | hb
    · exact hdel.next b hb
    · exact hmono b (hc.actions b (hran.pending hb))

theorem reaches_errands
    (h : (gateway cfg).Reaches (Program.When ValidIDs) GatewayConf.start c) : Errands c := by
  induction h with
  | start =>
    refine ⟨fun _ h => ?_, fun _ h => ?_⟩ <;> cases h
  | step hr hok hs ih =>
    have hr' := hr.step hok hs
    exact step_errands ih hs (reaches_plainIDs hr') fun k it => reaches_sourced hr'

/-! ## The target of a receipt -/

/-- What is written is a message that was taken on, and a receipt is written
where `session` says its owner is. -/
def Written (session : Bytes → Prop) (c : GatewayConf) (k : ℕ) (body : Bytes) : Prop :=
  ∃ it, (∀ it', .item k (.took it') ∈ c.trace ↔ it' = it) ∧ Sourced c.trace k it ∧
    body = it.body ∧ (Smpp.isDLR it.esmClass = true →
      ∃ owner, (it.kind = .receipt owner ∨ it.kind = .synthetic owner) ∧ session owner)

/-- **A receipt never changes its target.** Whatever engines connect, leave
and return, and however often it was stored and drained, a receipt is written
to a session of its owner: the one registered under the owner's id, or one that
has just ended under that id and is about to be closed. -/
theorem receipt_keeps_target (cfg : RouterConfig) {c : GatewayConf}
    (h : (gateway cfg).Reaches (Program.When ValidIDs) GatewayConf.start c) {p k : ℕ}
    {body : Bytes} (hw : (gateway cfg).Shows c (.wrote p k body)) :
    Written (fun owner => c.shared.server.conns.find? owner = some p ∨
      c.shared.server.Departed owner p) c k body := by
  obtain ⟨i, input, a, r, hhead, hexec, hw⟩ := hw
  obtain ⟨caller, connID, rfl, rfl, rfl, hopen⟩ := exec_wrote hexec hw
  obtain ⟨⟨-, hgood⟩, -, haddr⟩ :=
    (reaches_errands h).actions _ (Conf.mem_actions_of_head hhead)
  obtain ⟨it, htook, ⟨-, hbody, hesm, hbit, howner⟩, -⟩ := hgood
  have hitem : ((callerErrand caller).to connID).item = caller.item := by cases caller <;> rfl
  have hsame : ((callerErrand caller).to connID).body = caller.body := by cases caller <;> rfl
  rw [hitem] at htook
  have htickets := reaches_ticketed h
  refine ⟨it, fun it' => ⟨fun h' => htickets.unique _ _ _ h' htook, fun h' => h' ▸ htook⟩,
    reaches_sourced h htook, hsame.symm.trans hbody, fun hdlr => ?_⟩
  refine ⟨connID, howner (hbit.trans hdlr), ?_⟩
  rcases haddr with hreg | hclosed | hdep
  · exact .inl hreg
  · exact absurd (hclosed.symm.trans hopen) (by decide)
  · exact .inr hdep

/-- Goroutines 3 and 4 after `engineSubmits`: the message goes south, and its
receipt is about to be written to the engine's session. -/
def receiptLooksUp : List (Event Input Action) :=
  engineSubmits ++ goroutine 3 (.submit .forwardWorker)
    [{}, { attempt := .accepted 0 (ascii "s1") }, {}, {}] ++
  goroutine 4 (.back (.handleDeliver 0 (ascii "200") (ascii "100") 0x04
    (ascii "id:s1 stat:DELIVRD"))) [{}, {}, {}, {}]

/-- The receipt the engine gets. -/
def receiptItem : Item :=
  ⟨.receipt engineID, ascii "200", ascii "100", 0x04, ascii "id:GW-1 stat:DELIVRD"⟩

/-- The receipt goes to the session of the engine. -/
theorem receipt_written_to_engine :
    ∃ c, (gateway .loadConfig).Reaches (Program.When ValidIDs) GatewayConf.start c ∧
      (gateway .loadConfig).Shows c (.wrote 0 0 receiptItem.body) ∧
      Written (fun owner => c.shared.server.conns.find? owner = some 0 ∨
        c.shared.server.Departed owner 0) c 0 receiptItem.body := by
  have hreach := (gateway .loadConfig).reaches_outcome (Program.When ValidIDs) GatewayConf.start
    receiptLooksUp (by decide)
  have hshows := (gateway .loadConfig).shows_of_head (c := (gateway .loadConfig).outcome
    (Program.When ValidIDs) GatewayConf.start receiptLooksUp)
    (o := .wrote 0 0 receiptItem.body) 4 {} (by decide)
  exact ⟨_, hreach, hshows, receipt_keeps_target _ hreach hshows⟩

/-- The engine unbinds and binds again over a new session, number 1, after the
look-up and before session 0 is closed: the receipt is written to session 0,
while session 1 is the one registered. -/
theorem receipt_written_to_departed :
    ∃ c, (gateway .loadConfig).Reaches (Program.When ValidIDs) GatewayConf.start c ∧
      (gateway .loadConfig).Shows c (.wrote 0 0 receiptItem.body) ∧
      c.shared.server.conns.find? engineID = some 1 ∧
      ¬ Written (fun owner => c.shared.server.conns.find? owner = some 0) c 0
        receiptItem.body := by
  refine Program.exists_reached (receiptLooksUp ++ goroutine 5 (.serve (.disconnect 0)) [{}] ++
    goroutine 6 (.serve .accept) [{}] ++ goroutine 7 (.serve (.bind 1 engineID none)) [{}]) (by
    decide) fun _ => ⟨(gateway .loadConfig).shows_of_head 4 {} (by decide), by decide, ?_⟩
  rintro ⟨it, hit, -, -, hto⟩
  obtain rfl : receiptItem = it := (hit receiptItem).mp (by decide)
  obtain ⟨owner, howner, hreg⟩ := hto (by decide)
  obtain rfl : engineID = owner := by
    rcases howner with h | h
    · exact Kind.receipt.inj h
    · cases h
  exact absurd hreg (by decide)

end ReturnPath

end SmscGateway
