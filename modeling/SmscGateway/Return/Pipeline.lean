import SmscGateway.Common.Custody
import SmscGateway.Gateway.Frame

/-!
# The return path as a lifecycle

A receipt for an engine, a synthetic receipt and an MO message are tokens,
numbered by the ticket they got when the return path took them on. A token is
held by the handler that delivers it, stored in the retry queue under the time
it was first enqueued, held by a drain pass, or at its end.

An entry is stored under a key that starts with its time, so two entries do
not collide when their times differ. Times are clock readings: a phase weighs
the time it carries, only buffering hands times out, and it hands out the
reading it just took (`handed_le_reads`). When no reading occurs twice, no two
tokens carry the same time.
-/

namespace SmscGateway

open List SortedMap Custody

namespace ReturnPath

/-- Where a message on the return path is. -/
inductive Phase
  /-- Held by the handler that delivers it. -/
  | held
  | done
  | stored (enqueuedAt : Time)
  /-- Held by a drain pass. -/
  | draining (enqueuedAt : Time)
  | expired
  deriving DecidableEq

/-- The moves between phases, for `MaxRetryAge = maxAge`. -/
inductive Next (maxAge : ℤ) : Phase → ItemLabel → Phase → Prop
  | deliver : Next maxAge .held .delivered .done
  | buffer {t : Time} : Next maxAge .held (.buffered t) (.stored t)
  | drain {t : Time} : Next maxAge (.stored t) .drained (.draining t)
  | expire {t now : Time} : t + maxAge < now → Next maxAge (.stored t) (.expired now) .expired
  | redeliver {t : Time} : Next maxAge (.draining t) .delivered .done
  | requeue {t : Time} : Next maxAge (.draining t) .requeued (.stored t)

/-- The lifecycle of a message on the return path. -/
def rules (cfg : RouterConfig) : Lifecycle Phase ItemLabel where
  enter l φ := (∃ it, l = .took it) ∧ φ = .held
  next := Next cfg.maxRetryAge

/-! ## The tokens of a configuration -/

/-- What a call of `DeliverToConn` holds. -/
def callerToken : Caller → ℕ × Phase
  | .direct j => (j.item, .held)
  | .fallback j => (j.item, .held)
  | .redeliver e => (e.item, .draining e.pending.enqueuedAt)

/-- What a pending action holds. -/
def holds : Action → Option (ℕ × Phase)
  | .back (.deliverToConn c _) => some (callerToken c)
  | .back (.write c _ _) => some (callerToken c)
  | .back (.await c) => some (callerToken c)
  | .back (.grace j) => some (j.item, .held)
  | .back (.buffer j) => some (j.item, .held)
  | .back (.redeliver e) => some (e.item, .draining e.pending.enqueuedAt)
  | .back (.requeue e) => some (e.item, .draining e.pending.enqueuedAt)
  | _ => none

/-- What an observation ends. -/
def ends : Obs → Option (ℕ × Phase)
  | .item k .delivered => some (k, .done)
  | .item k (.expired _) => some (k, .expired)
  | _ => none

/-- The label an observation writes. -/
def labelOf : Obs → Option (ℕ × ItemLabel)
  | .item k l => some (k, l)
  | _ => none

/-- An entry of the retry queue. -/
def entryToken (e : Numbered) : ℕ × Phase := (e.item, .stored e.pending.enqueuedAt)

/-- The entries of the retry queue. -/
def stored (s : Gateway) : Multiset (ℕ × Phase) :=
  (s.store.retries.values.map entryToken : List (ℕ × Phase))

/-- Where the messages on the return path are. -/
def custody : Custody Gateway Action Obs ℕ Phase ItemLabel := ⟨stored, holds, ends, labelOf⟩

/-- The messages on the return path and their history. -/
def track (c : GatewayConf) : Track ℕ Phase ItemLabel := custody.track c

/-- An entry of the retry queue is stored under its own time. -/
def Keyed (s : Gateway) : Prop :=
  ∀ k e, s.store.retries.find? k = some e → ∃ id, k = retryKey e.pending.enqueuedAt id

/-- The time under which an action is about to store an entry. -/
def enqueues (i : Input) : Action → Option Time
  | .back (.buffer _) => some i.now
  | .back (.requeue e) => some e.pending.enqueuedAt
  | _ => none

/-- No entry has the time of the one about to be stored. -/
def Fresh (s : Gateway) (i : Input) (a : Action) : Prop :=
  ∀ t ∈ enqueues i a, ∀ e ∈ s.store.retries.values, e.pending.enqueuedAt ≠ t

/-- The key under which an action is about to store an entry. -/
def storesUnder (i : Input) : Action → Option Bytes
  | .back (.buffer j) => some (retryKey i.now j.retryID)
  | .back (.requeue e) => some (retryKey e.pending.enqueuedAt (ascii "retry-" ++ decimal i.now))
  | _ => none

/-- No entry is overwritten. -/
def Free (s : Gateway) (i : Input) (a : Action) : Prop :=
  ∀ k ∈ storesUnder i a, s.store.retries.find? k = none
  deriving Decidable

/-! ## What one action does -/

section Exec

variable {cfg : RouterConfig} {s : Gateway} {i : Input} {r : GatewayEffect}

/-- What an action does to the return path: it takes on one message, or it
moves messages on. -/
def Accounts (cfg : RouterConfig) (s : Gateway) (a : Action) (r : GatewayEffect) : Prop :=
  (r.state.tickets = s.tickets + 1 ∧ custody.Enters (rules cfg) s a r s.tickets) ∨
  (r.state.tickets = s.tickets ∧ custody.Shifts (rules cfg) s a r)

/-! ### The other sides -/

variable {β : Type} {a : Action} {id : Bytes} {item : ℕ} {p : PendingDeliver}

theorem OffReturn.seen_filterMap {f : Obs → Option β} (h : OffReturn s r)
    (hf : ∀ o, o.onReturn = false → f o = none) : r.seen.filterMap f = [] :=
  filterMap_eq_nil_iff.mpr fun o ho => hf o (by simpa using all_eq_true.mp h.seen o ho)

theorem accounts_of_offReturn (ha : holds a = none) (h : OffReturn s r) : Accounts cfg s a r := by
  refine .inr ⟨h.tickets, shifts_of_quiet a ha ?_ ?_ ?_ ?_⟩
  · simp only [custody, stored, h.retries]
  · refine filterMap_eq_nil_iff.mpr fun b hb => ?_
    have hoff := all_eq_true.mp h.next b hb
    cases b with
    | back b => cases hoff
    | _ => rfl
  · exact OffReturn.seen_filterMap h fun o ho => by cases o <;> first | rfl | cases ho
  · exact OffReturn.seen_filterMap h fun o ho => by cases o <;> first | rfl | cases ho

/-- Giving up on an engine's submit takes on a synthetic receipt. -/
theorem execSubmit_accounts {a : SubmitAction} (h : execSubmit cfg s i a = some r) :
    Accounts cfg s (.submit a) r := by
  rcases execSubmit_cases h with hoff | ⟨connID, g, d, f, l, hrest, rfl⟩
  · exact accounts_of_offReturn rfl hoff
  · rw [sendSyntheticDLR, if_neg hrest]
    exact .inl ⟨rfl, enters_of_next _ rfl rfl rfl rfl rfl ⟨⟨_, rfl⟩, rfl⟩⟩

/-- The submit side does not touch the retry queue. -/
theorem execSubmit_retries {a : SubmitAction} (h : execSubmit cfg s i a = some r) :
    r.state.store.retries = s.store.retries := by
  rcases execSubmit_cases h with hoff | ⟨connID, g, d, f, l, hrest, rfl⟩
  · exact hoff.retries
  · rw [sendSyntheticDLR, if_neg hrest]
    rfl

/-! ### The queue -/

/-- A fresh time makes a free key. -/
theorem free_of_fresh (hk : Keyed s) (h : Fresh s i a) : Free s i a := by
  have hkey : ∀ (t : Time) (id : Bytes), t ∈ enqueues i a →
      s.store.retries.find? (retryKey t id) = none := by
    intro t id ht
    by_contra hsome
    obtain ⟨e, he⟩ := Option.ne_none_iff_exists'.mp hsome
    obtain ⟨id', hid⟩ := hk _ _ he
    exact h t ht e (mem_values_iff.mpr ⟨_, he⟩) (retryKey_inj hid).1.symm
  intro k hkk
  unfold storesUnder at hkk
  split at hkk
  · cases hkk
    exact hkey i.now _ rfl
  · cases hkk
    exact hkey _ _ rfl
  · cases hkk

/-- An entry under a free key is one more. -/
theorem stored_enqueueRetry (hnone : s.store.retries.find? (retryKey p.enqueuedAt id) = none) :
    stored { s with store := s.store.enqueueRetry id item p } =
      (item, .stored p.enqueuedAt) ::ₘ stored s := by
  have hvals := values_insert_of_none (v := (⟨item, p.json⟩ : Numbered)) hnone
  simp only [stored, MessageStore.enqueueRetry, ← Multiset.map_coe, hvals, Multiset.map_cons]
  rfl

theorem keyed_enqueueRetry (hk : Keyed s) :
    Keyed { s with store := s.store.enqueueRetry id item p } := by
  intro k e he
  simp only [MessageStore.enqueueRetry, find?_insert] at he
  split at he
  · rename_i hkey
    cases he
    exact ⟨id, hkey⟩
  · exact hk k e he

/-- The action stores the message it holds. -/
theorem enqueue_shifts (a : Action) {φ : Phase} {l : ItemLabel} {seen : List Obs}
    (hfree : s.store.retries.find? (retryKey p.enqueuedAt id) = none)
    (ha : holds a = some (item, φ)) (hends : seen.filterMap ends = [])
    (hlab : seen.filterMap labelOf = [(item, l)])
    (hl : Next cfg.maxRetryAge φ l (.stored p.enqueuedAt)) : custody.Shifts (rules cfg) s a
      { state := { s with store := s.store.enqueueRetry id item p }, seen } := by
  refine shifts_of_move a (stored s) (before_of_holds ha) (fun rest => ?_) hlab hl
  have hnone : seen.filterMap custody.ends = [] := hends
  rw [after_eq, hnone, ← Multiset.cons_add, ← stored_enqueueRetry hfree]
  exact congrArg (· + rest) (add_zero _)

/-- What a drain takes: an initial part of the queue. -/
theorem prefix_retriesTaken (upper : Time) (limit : ℤ) (queue : SortedMap Bytes Numbered) :
    retriesTaken upper limit queue <+: queue.entries :=
  (prefix_upTo limit _).trans (List.takeWhile_prefix _)

/-- What a drain takes leaves the queue. -/
theorem stored_drainRetries {taken : List (Bytes × Numbered)}
    (h : taken <+: s.store.retries.entries) :
    stored s = (taken.map fun e => entryToken e.2 : List (ℕ × Phase)) +
      stored { s with store :=
        { s.store with retries := s.store.retries.dropFirst taken.length } } := by
  have hsplit := prefix_iff_eq_append.mp h
  have hvals : s.store.retries.values =
      taken.map Prod.snd ++ (s.store.retries.dropFirst taken.length).values := by
    simp only [SortedMap.values, SortedMap.dropFirst, ← map_append, hsplit]
  simp only [stored, hvals, map_append, map_map, ← Multiset.coe_add]
  rfl

/-- Splitting a list by a condition loses nothing. -/
theorem coe_map_ite {α : Type} (p : α → Prop) [DecidablePred p] (f g : α → β) (l : List α) :
    ((l.filter fun x => ¬ p x).map g ++ (l.filter fun x => p x).map f : Multiset β) =
      (l.map fun x => if p x then f x else g x : List β) := by
  induction l with
  | nil => rfl
  | cons x l ih =>
    by_cases hx : p x
    · simp only [hx, filter_cons, not_true_eq_false, decide_false, decide_true,
        Bool.false_eq_true, if_false, if_true, map_cons, ← Multiset.cons_coe, ← ih]
      rw [Multiset.cons_coe]
      exact Multiset.coe_eq_coe.mpr perm_middle
    · simp only [hx, filter_cons, not_false_eq_true, decide_false, decide_true,
        Bool.false_eq_true, if_false, if_true, map_cons, cons_append,
        ← Multiset.cons_coe, ← ih]

theorem filterMap_ite {α : Type} (p : α → Prop) [DecidablePred p] (f : α → β) (l : List α) :
    l.filterMap (fun x => if p x then some (f x) else none) =
      (l.filter fun x => p x).map f := by
  induction l with
  | nil => rfl
  | cons x l ih =>
    by_cases hx : p x
    · simp [hx, ih]
    · simp [hx, ih]

/-- Every entry a drain takes has expired or is held by its pass. -/
theorem drainRetries_shifts (h : execReturn cfg s i .drainRetries = some r) :
    custody.Shifts (rules cfg) s (.back .drainRetries) r := by
  cases h
  intro rest log
  set taken := retriesTaken i.now cfg.retryLimit s.store.retries with htaken
  set old : Bytes × Numbered → Prop := fun e => Stale i.later cfg.maxRetryAge e.2.pending
  have hbefore : custody.before s (.back .drainRetries) rest =
      (taken.map fun e => (e.2.item, Phase.stored e.2.pending.enqueuedAt) :
        List (ℕ × Phase)) +
      (stored { s with store :=
        { s.store with retries := s.store.retries.dropFirst taken.length } } + rest) := by
    rw [before_of_none rfl, ← add_assoc]
    exact congrArg (· + rest) (stored_drainRetries (htaken ▸ prefix_retriesTaken ..))
  have hnext : ((taken.filter fun e => ¬ old e).map fun e => Action.back (.redeliver e.2)).filterMap
      custody.holds =
      (taken.filter fun e => ¬ old e).map
        fun e => (e.2.item, Phase.draining e.2.pending.enqueuedAt) := by
    rw [filterMap_map]
    exact congrFun filterMap_eq_map _
  have hends : ([Obs.read i.now, .read i.later] ++ taken.map fun e =>
      if old e then Obs.item e.2.item (.expired i.later) else .item e.2.item .drained).filterMap
      custody.ends = (taken.filter fun e => old e).map fun e => (e.2.item, Phase.expired) := by
    rw [filterMap_append, filterMap_map, ← filterMap_ite]
    refine (nil_append _).trans (filterMap_congr fun e _ => ?_)
    simp only [Function.comp_apply]
    split <;> rfl
  have hlab : ([Obs.read i.now, .read i.later] ++ taken.map fun e =>
      if old e then Obs.item e.2.item (.expired i.later) else .item e.2.item .drained).filterMap
      custody.labelOf =
      taken.map fun e => (e.2.item, if old e then .expired i.later else .drained) := by
    rw [filterMap_append, filterMap_map, ← filterMap_eq_map]
    refine (nil_append _).trans (filterMap_congr fun e _ => ?_)
    simp only [Function.comp_apply]
    split <;> rfl
  have hall := Lifecycle.Advances.all (R := rules cfg)
    (t := ⟨custody.before s (.back .drainRetries) rest, log⟩) taken
    (fun e => e.2.item) (fun e => .stored e.2.pending.enqueuedAt)
    (fun e => if old e then .expired else .draining e.2.pending.enqueuedAt)
    (fun e => if old e then .expired i.later else .drained) hbefore fun e _ => by
      by_cases he : old e
      · simp only [he, if_true]
        exact Next.expire he
      · simp only [he, if_false]
        exact Next.drain
  have hsplit := coe_map_ite old (fun e => (e.2.item, Phase.expired))
    (fun e => (e.2.item, Phase.draining e.2.pending.enqueuedAt)) taken
  have hpair : (taken.map fun e => if old e then (e.2.item, Phase.expired)
      else (e.2.item, Phase.draining e.2.pending.enqueuedAt)) =
      taken.map fun e =>
        (e.2.item, if old e then Phase.expired else .draining e.2.pending.enqueuedAt) :=
    map_congr_left fun e _ => by split <;> rfl
  rw [after_eq, hnext, hends, hlab, hsplit, hpair, add_comm (custody.stored _), add_assoc]
  exact hall

theorem keyed_drainRetries (h : execReturn cfg s i .drainRetries = some r) (hk : Keyed s) :
    Keyed r.state := by
  cases h
  intro k e he
  exact hk k e (mem_entries_iff.mp
    (mem_of_mem_dropFirst (mem_entries_iff.mpr he)))

/-! ### Receipts, MO messages, deliveries -/

theorem routeReceipt_accounts (a : Action) (ha : holds a = none) (n : ℕ) (rc : Receipt)
    (corr : Correlation) : Accounts cfg s a (routeReceipt s n rc corr) := by
  unfold routeReceipt
  split
  · exact .inr ⟨rfl, shifts_of_quiet a ha rfl rfl rfl rfl⟩
  · exact .inl ⟨rfl, enters_of_next a ha rfl rfl rfl rfl ⟨⟨_, rfl⟩, rfl⟩⟩

theorem execSettle_quiet (rc : Receipt) (corr : Correlation) (st : Settlement) :
    (execSettle s i rc corr st).state.tickets = s.tickets ∧
    (execSettle s i rc corr st).state.store.retries = s.store.retries ∧
    (execSettle s i rc corr st).next.filterMap holds = [] ∧
    (execSettle s i rc corr st).seen = [] := by
  cases st with
  | updateMessageLog =>
    simp only [execSettle]
    split <;> exact ⟨rfl, rfl, rfl, rfl⟩
  | deliverDLRCallback =>
    refine ⟨rfl, rfl, filterMap_eq_nil_iff.mpr fun b hb => ?_, rfl⟩
    obtain ⟨b, rfl, -⟩ := callbackActions_record _ _ _ _ _ _ hb
    rfl
  | _ => exact ⟨rfl, rfl, rfl, rfl⟩

theorem acked_holds (c : Caller) : c.acked.filterMap holds = [] := by
  unfold Caller.acked
  split <;> [split; split; skip] <;> rfl

theorem releases_quiet (c : Caller) :
    c.releases.filterMap ends = [] ∧ c.releases.filterMap labelOf = [] := by
  unfold Caller.releases
  split <;> [split; split; skip] <;> exact ⟨rfl, rfl⟩

/-- An acknowledged message is done, whoever held it. -/
theorem next_delivered (c : Caller) :
    Next cfg.maxRetryAge (callerToken c).2 .delivered .done := by
  cases c with
  | direct | fallback => exact Next.deliver
  | redeliver e => exact Next.redeliver

theorem callerToken_fst (c : Caller) : (callerToken c).1 = c.item := by
  cases c <;> rfl

/-- What an action of the return side does to the return path. -/
theorem execReturn_accounts {a : ReturnAction} (h : execReturn cfg s i a = some r)
    (hk : Keyed s) (hfree : Free s i (.back a)) :
    Keyed r.state ∧ Accounts cfg s (.back a) r := by
  have hquiet : ∀ {r : GatewayEffect}, r.state.tickets = s.tickets →
      r.state.store.retries = s.store.retries → holds (.back a) = none →
      r.next.filterMap holds = [] → r.seen.filterMap ends = [] →
      r.seen.filterMap labelOf = [] → Keyed r.state ∧ Accounts cfg s (.back a) r := by
    intro r ht hq ha hn he hl
    refine ⟨?_, .inr ⟨ht, shifts_of_quiet _ ha ?_ hn he hl⟩⟩
    · rw [Keyed, hq]
      exact hk
    · simp only [custody, stored, hq]
  cases execReturn_moves h with
  | unreadable | missed | posted | unknown => exact hquiet rfl rfl rfl rfl rfl rfl
  | found rc corr =>
    unfold routeReceipt
    split
    · exact hquiet rfl rfl rfl rfl rfl rfl
    · exact ⟨hk, .inl ⟨rfl, enters_of_next _ rfl rfl rfl rfl rfl ⟨⟨_, rfl⟩, rfl⟩⟩⟩
  | took pool it connID next hkind hesm hnext =>
    refine ⟨hk, .inl ⟨rfl, enters_of_next _ rfl rfl ?_ rfl rfl ⟨⟨_, rfl⟩, rfl⟩⟩⟩
    rcases hnext with rfl | rfl <;> rfl
  | stored n rc =>
    refine ⟨?_, routeReceipt_accounts _ rfl n rc _⟩
    unfold routeReceipt
    split <;> exact hk
  | settle rc corr st =>
    obtain ⟨ht, hq, hn, ho⟩ := execSettle_quiet (s := s) (i := i) rc corr st
    exact hquiet ht hq rfl hn (by rw [ho]; rfl) (by rw [ho]; rfl)
  | absent c | unwritten c | unacked c =>
    exact ⟨hk, .inr ⟨rfl, shifts_of_passes _ rfl rfl ((by cases c <;> rfl)) rfl rfl⟩⟩
  | acked c =>
    obtain ⟨hends, hlab⟩ := releases_quiet c
    refine ⟨hk, .inr ⟨rfl, shifts_of_holds _ (i := c.item) (ψ := .done) ?_ rfl ?_ ?_
      (next_delivered c)⟩⟩
    · rw [← callerToken_fst c]
      rfl
    · simp only [custody, filterMap_cons, acked_holds, ends, hends, nil_append]
    · simp only [custody, filterMap_cons, labelOf, hlab]
  | present | written | held | fallsBack | redirected | returned =>
    exact ⟨hk, .inr ⟨rfl, shifts_of_passes _ rfl rfl rfl rfl rfl⟩⟩
  | buffer =>
    exact ⟨keyed_enqueueRetry hk, .inr ⟨rfl,
      enqueue_shifts _ (hfree _ rfl) rfl rfl rfl Next.buffer⟩⟩
  | drained out hout => exact ⟨keyed_drainRetries h hk, .inr ⟨rfl, drainRetries_shifts h⟩⟩
  | requeue =>
    exact ⟨keyed_enqueueRetry hk, .inr ⟨rfl,
      enqueue_shifts _ (hfree _ rfl) rfl rfl rfl Next.requeue⟩⟩

/-- What any action does to the return path. -/
theorem exec_accounts (h : exec cfg s i a = some r) (hk : Keyed s) (hfree : Free s i a) :
    Keyed r.state ∧ Accounts cfg s a r := by
  have hkeep : r.state.store.retries = s.store.retries → Keyed r.state := fun hq => by
    rw [Keyed, hq]
    exact hk
  cases a with
  | submit a => exact ⟨hkeep (execSubmit_retries h), execSubmit_accounts h⟩
  | record a =>
    have hoff := (execRecord_frame h).offReturn
    exact ⟨hkeep hoff.retries, accounts_of_offReturn rfl hoff⟩
  | back a => exact execReturn_accounts h hk hfree
  | serve a =>
    have hoff := execServe_offReturn h
    exact ⟨hkeep hoff.retries, accounts_of_offReturn rfl hoff⟩

end Exec

/-! ## Clock readings -/

/-- The time a phase carries. -/
def timeOf : Phase → Multiset Time
  | .stored t => {t}
  | .draining t => {t}
  | _ => 0

/-- The time a label hands out. -/
def timeHanded : ItemLabel → Multiset Time
  | .buffered t => {t}
  | _ => 0

/-- The clock reading an observation shows. -/
def readOf : Obs → Option Time
  | .read t => some t
  | .item _ (.buffered t) => some t
  | _ => none

/-- The clock readings of the return path. -/
def reads (c : GatewayConf) : List Time := c.trace.filterMap readOf

theorem timeOf_next {maxAge : ℤ} {φ ψ : Phase} {l : ItemLabel} (h : Next maxAge φ l ψ) :
    timeOf ψ ≤ timeOf φ + timeHanded l := by
  cases h with
  | expire => exact Multiset.zero_le _
  | _ => simp [timeOf, timeHanded]

/-- Every time that is handed out was read. -/
theorem handed_le_reads (trace : List Obs) :
    Lifecycle.handed timeHanded (trace.filterMap labelOf) ≤
      (trace.filterMap readOf : Multiset Time) := by
  induction trace with
  | nil => exact le_rfl
  | cons o trace ih =>
    have hcons : ∀ (t : Time), Lifecycle.handed timeHanded (trace.filterMap labelOf) ≤
        (t :: trace.filterMap readOf : List Time) := fun t =>
      ih.trans (Multiset.coe_le.mpr (sublist_cons_self t _).subperm)
    cases o with
    | read t => exact hcons t
    | item k l =>
      cases l with
      | buffered t =>
        simp only [filterMap_cons, labelOf, readOf, Lifecycle.handed, map_cons,
          sum_cons, timeHanded, ← Multiset.cons_coe]
        exact Multiset.cons_le_cons t ih
      | _ => exact (zero_add _).le.trans ih
    | _ => exact ih

/-! ## Runs -/

/-- What holds of the return path in every run. -/
structure Inv (cfg : RouterConfig) (c : GatewayConf) : Prop where
  faithful : (rules cfg).Faithful (track c)
  /-- Every token has a ticket. -/
  tickets : ∀ k ∈ (track c).tokens.map Prod.fst, k < c.shared.tickets
  keyed : Keyed c.shared
  /-- The times tokens carry were handed out. -/
  times : Lifecycle.weight timeOf (track c).tokens ≤ Lifecycle.handed timeHanded (track c).log

variable {cfg : RouterConfig}

theorem holds_of_entry {a : Action} (h : entry a = true) : holds a = none := by
  unfold entry at h
  split at h <;> first | rfl | cases h

theorem inv_start : Inv cfg GatewayConf.start where
  faithful := Lifecycle.faithful_empty
  tickets := by
    intro k hk
    cases hk
  keyed := by
    intro k e he
    cases he
  times := le_rfl

/-- The times of the queue are among those the tokens carry. -/
theorem weight_stored (s : Gateway) :
    Lifecycle.weight timeOf (stored s) =
      (s.store.retries.values.map fun e => e.pending.enqueuedAt : List Time) := by
  simp only [Lifecycle.weight, stored]
  induction s.store.retries.values with
  | nil => rfl
  | cons e l ih =>
    simp only [map_cons, ← Multiset.cons_coe, Multiset.map_cons, Multiset.sum_cons, ih]
    rfl

variable {c c' : GatewayConf} {e : Event Input Action}

/-- **Distinct readings keep entries apart**: an action that stores an entry
finds no other one with its time. -/
theorem fresh_of_reads {i : Input} {a : Action} {r : GatewayEffect} {others : Multiset (ℕ × Phase)}
    (hexec : exec cfg c.shared i a = some r) (hreads : ((c.trace ++ r.seen).filterMap readOf).Nodup)
    (htimes : Lifecycle.weight timeOf (custody.before c.shared a others) ≤
      Lifecycle.handed timeHanded (c.trace.filterMap labelOf)) :
    Fresh c.shared i a := by
  have hle := htimes.trans (handed_le_reads c.trace)
  rw [filterMap_append] at hreads
  intro t ht e he heq
  have hmem : t ∈ Lifecycle.weight timeOf (stored c.shared) := by
    rw [weight_stored]
    exact Multiset.mem_coe.mpr (mem_map.mpr ⟨e, he, heq⟩)
  unfold enqueues at ht
  split at ht
  · -- the reading just taken is not one of those taken before
    rename_i j
    cases hexec
    obtain rfl : i.now = t := Option.some.inj ht
    have hold : i.now ∈ c.trace.filterMap readOf := by
      refine Multiset.mem_coe.mp (Multiset.mem_of_le hle ?_)
      rw [before_of_holds rfl, Lifecycle.weight_cons, Lifecycle.weight_add]
      exact Multiset.mem_add.mpr (.inr (Multiset.mem_add.mpr (.inl hmem)))
    exact (nodup_append.mp hreads).2.2 _ hold _ (mem_singleton_self _) rfl
  · -- the message the action holds already carries the time
    rename_i e'
    obtain rfl : e'.pending.enqueuedAt = t := Option.some.inj ht
    have hnd := Multiset.nodup_of_le hle (Multiset.coe_nodup.mpr (nodup_append.mp hreads).1)
    rw [before_of_holds rfl, Lifecycle.weight_cons, Lifecycle.weight_add] at hnd
    have hself : e'.pending.enqueuedAt ∈ timeOf (.draining e'.pending.enqueuedAt) :=
      Multiset.mem_singleton_self _
    exact Multiset.disjoint_left.mp (Multiset.nodup_add.mp hnd).2.2 hself
      (Multiset.mem_add.mpr (.inl hmem))
  · cases ht

/-- **A step that overwrites no entry keeps every message on the return path
accounted for.** -/
theorem step_inv_of_free (hc : Inv cfg c) (h : (gateway cfg).step c e = some c')
    (hfree : Program.When (fun c i a => Free c.shared i a) c e) : Inv cfg c' := by
  obtain ⟨hf, htick, hk, htimes⟩ := hc
  rcases step_cases (V := custody) (fun a ha => holds_of_entry ha) h with
    ⟨-, hs, -, htrack⟩ | ⟨j, input, a, r, others, rfl, hhead, hexec, hs, -, hbefore, hafter⟩
  · refine ⟨?_, ?_, hs ▸ hk, ?_⟩
    · rw [track, htrack]
      exact hf
    · rw [track, htrack, hs]
      exact htick
    · rw [track, htrack]
      exact htimes
  · rw [track, hbefore] at hf htick htimes
    obtain ⟨hk', ⟨hnext, henter⟩ | ⟨hnext, hshift⟩⟩ := exec_accounts hexec hk (hfree a hhead)
    · have hfresh : ∀ ψ, (c.shared.tickets, ψ) ∉ custody.before c.shared a others := by
        intro ψ hψ
        have := htick _ (Multiset.mem_map_of_mem Prod.fst hψ)
        omega
      refine ⟨?_, ?_, hs ▸ hk', ?_⟩
      · rw [track, hafter]
        exact henter.faithful hf hfresh
      · rw [track, hafter, henter.map_fst, hs, hnext]
        intro k hk
        rcases Multiset.mem_cons.mp hk with rfl | hk
        · omega
        · have := htick k hk
          omega
      · rw [track, hafter]
        obtain ⟨l, φ, ⟨-, rfl⟩, -, htok⟩ := henter
        rw [htok, Lifecycle.weight_cons, Lifecycle.handed_append]
        exact (zero_add _).le.trans (htimes.trans (Multiset.le_add_right _ _))
    · refine ⟨?_, ?_, hs ▸ hk', ?_⟩
      · rw [track, hafter]
        exact hshift.faithful hf
      · rw [track, hafter, hshift.map_fst, hs, hnext]
        exact htick
      · rw [track, hafter]
        exact (hshift others _).weight_le (fun _ _ _ => timeOf_next) htimes

/-- Distinct readings overwrite no entry. -/
theorem free_of_reads (hc : Inv cfg c) (h : (gateway cfg).step c e = some c')
    (hreads : (reads c').Nodup) : Program.When (fun c i a => Free c.shared i a) c e := by
  rcases step_cases (V := custody) (fun a ha => holds_of_entry ha) h with
    ⟨⟨a, rfl⟩, -⟩ | ⟨j, input, a, r, others, rfl, hhead, hexec, -, htr, hbefore, -⟩
  · trivial
  · have htimes := hc.times
    rw [track, hbefore] at htimes
    rw [reads, htr] at hreads
    intro b hb
    obtain rfl := Option.some.inj (hhead.symm.trans hb)
    exact free_of_fresh hc.keyed (fresh_of_reads hexec hreads htimes)

/-- A step keeps every message accounted for if no reading occurs twice. -/
theorem step_inv (hc : Inv cfg c) (h : (gateway cfg).step c e = some c')
    (hreads : (reads c').Nodup) :
    Inv cfg c' :=
  step_inv_of_free hc h (free_of_reads hc h hreads)

/-- **In every run in which no entry is overwritten every message on the return
path is accounted for.** -/
theorem reaches_inv_of_free
    (h : (gateway cfg).Reaches (Program.When fun c i a => Free c.shared i a)
      GatewayConf.start c) :
    Inv cfg c :=
  h.invariant inv_start fun _ _ _ hc hfree hs => step_inv_of_free hc hs hfree

/-- **In every run with distinct clock readings every message on the return
path is accounted for.** -/
theorem reaches_inv {ok : GatewayConf → Event Input Action → Prop}
    (h : (gateway cfg).Reaches ok GatewayConf.start c) (hreads : (reads c).Nodup) : Inv cfg c := by
  induction h with
  | start => exact inv_start
  | step _ _ hs ih =>
    have hprefix := (Program.trace_of_step hs).sublist.filterMap readOf
    exact step_inv (ih (hreads.sublist hprefix)) hs hreads

end ReturnPath

end SmscGateway
