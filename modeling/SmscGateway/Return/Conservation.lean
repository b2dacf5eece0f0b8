import SmscGateway.Return.Pipeline

/-!
# Nothing is lost on the return path

Every receipt matched to an engine's message, every synthetic receipt for an
engine and every MO message without an HTTP route gets a ticket when the
gateway takes it on. From then on it is in exactly one place, whatever drains,
re-enqueues, limits and expiries do.
-/

namespace SmscGateway

open List

namespace ReturnPath

/-- The places a message on the return path can be in. -/
inductive Place
  /-- Held by the handler that delivers it. -/
  | handler
  /-- A `DeliverToConn` call for it returned without error. -/
  | done
  /-- An entry of the retry queue. -/
  | retryQueue
  /-- Held by a drain pass. -/
  | drainPass
  /-- Removed by a drain as too old. -/
  | expired
  deriving DecidableEq

/-- The place a phase stands for. -/
def Phase.place : Phase → Place
  | .held => .handler
  | .done => .done
  | .stored _ => .retryQueue
  | .draining _ => .drainPass
  | .expired => .expired

/-- Every place a message is in, as often as it is there. -/
def places (c : GatewayConf) (k : ℕ) : Multiset Place :=
  ((track c).tokens.filter fun t => t.1 = k).map fun t => t.2.place

/-- What was seen of a message on the return path. -/
def history (c : GatewayConf) (k : ℕ) : List ItemLabel := wordOf (c.trace.filterMap labelOf) k

/-- What it means that the return path loses nothing. -/
structure Conserved (cfg : RouterConfig) (c : GatewayConf) : Prop where
  /-- A matched receipt for an engine is taken on. -/
  receipts : ∀ n corr k, .matched n (.smpp corr k) ∈ c.trace →
    ∃ it, .item k (.took it) ∈ c.trace ∧ it.kind = .receipt corr.northConnID
  /-- A synthetic receipt for an engine is taken on. -/
  synthetics : ∀ g connID, .message g (.synthetic connID) ∈ c.trace → connID ≠ restApi →
    ∃ k it, .item k (.took it) ∈ c.trace ∧ it.kind = .synthetic connID
  /-- An MO message that comes in without an HTTP route is taken on. -/
  mos : ∀ i pool sourceAddr destAddr esmClass payload, Smpp.isDLR esmClass = false →
    (∀ route, resolveMO cfg.moRoutes sourceAddr destAddr = some route →
      route.targetType ≠ .http) →
    ∃ r, exec cfg c.shared i
        (.back (.handleDeliver pool sourceAddr destAddr esmClass payload)) = some r ∧
      .item c.shared.tickets (.took ⟨.mo, sourceAddr, destAddr, esmClass, payload⟩) ∈ r.seen
  /-- What is taken on is in one place. It is done when it was delivered, once;
  it has expired only when the time it was first enqueued at was too long
  ago. -/
  places : ∀ k it, .item k (.took it) ∈ c.trace → ∃ p, places c k = {p} ∧
    (p = .done → ∃ past, history c k = past ++ [.delivered] ∧ .delivered ∉ past) ∧
    (p = .expired → ∃ (past : List ItemLabel) (now enqueuedAt : Time),
      history c k = past ++ [.expired now] ∧ (∀ t, .buffered t ∈ past ↔ t = enqueuedAt) ∧
      enqueuedAt + cfg.maxRetryAge < now)

/-! ## Words -/

variable {cfg : RouterConfig}

/-- The times a word hands out: none before the message is buffered, one
afterwards. -/
def Stamped (w : List ItemLabel) : Phase → Prop
  | .held => ∀ t, .buffered t ∉ w
  | .stored t => ∀ t', .buffered t' ∈ w ↔ t' = t
  | .draining t => ∀ t', .buffered t' ∈ w ↔ t' = t
  | _ => True

variable {w : List ItemLabel}

theorem stamped_of_traced {φ : Phase} (h : (rules cfg).Traced w φ) : Stamped w φ := by
  induction h with
  | enter he =>
    obtain ⟨⟨it, rfl⟩, rfl⟩ := he
    intro t ht
    cases mem_singleton.mp ht
  | next _ hl ih =>
    cases hl with
    | deliver => trivial
    | expire => trivial
    | redeliver => trivial
    | @buffer t =>
      intro t'
      simp only [Stamped] at ih
      simp [ih]
    | drain => simpa [Stamped] using ih
    | requeue => simpa [Stamped] using ih

/-- A message is delivered at most once: no move leads on from there. -/
theorem delivered_not_mem {φ : Phase} (h : (rules cfg).Traced w φ) (hφ : φ ≠ .done) :
    .delivered ∉ w := by
  induction h with
  | enter he =>
    obtain ⟨⟨it, rfl⟩, -⟩ := he
    simp
  | next _ hl ih =>
    intro hmem
    rcases mem_append.mp hmem with hmem | hmem
    · refine ih ?_ hmem
      rintro rfl
      cases hl
    · rw [← mem_singleton.mp hmem] at hl
      cases hl <;> exact hφ rfl

theorem history_of_done (h : (rules cfg).Traced w .done) :
    ∃ past, w = past ++ [.delivered] ∧ .delivered ∉ past := by
  generalize hφ : Phase.done = φ at h
  cases h with
  | enter he => cases hφ.trans he.2
  | next hpast hl =>
    subst hφ
    cases hl with
    | deliver => exact ⟨_, rfl, delivered_not_mem hpast (by simp)⟩
    | redeliver => exact ⟨_, rfl, delivered_not_mem hpast (by simp)⟩

theorem history_of_expired (h : (rules cfg).Traced w .expired) :
    ∃ (past : List ItemLabel) (now enqueuedAt : Time), w = past ++ [.expired now] ∧
      (∀ t, .buffered t ∈ past ↔ t = enqueuedAt) ∧ enqueuedAt + cfg.maxRetryAge < now := by
  generalize hφ : Phase.expired = φ at h
  cases h with
  | enter he => cases hφ.trans he.2
  | next hpast hl =>
    subst hφ
    cases hl with
    | expire hold => exact ⟨_, _, _, rfl, stamped_of_traced hpast, hold⟩

/-! ## What is taken on -/

section Taken

variable {ok : GatewayConf → Event Input Action → Prop} {c : GatewayConf}

variable {n k : ℕ} {corr : Correlation}

theorem took_of_routeReceipt {s : Gateway} {n' : ℕ} {rc : Receipt} {corr' : Correlation}
    (h : .matched n (.smpp corr k) ∈ (routeReceipt s n' rc corr').seen) :
    ∃ it, .item k (.took it) ∈ (routeReceipt s n' rc corr').seen ∧
      it.kind = .receipt corr.northConnID := by
  unfold routeReceipt at h ⊢
  split at h
  · simp at h
  · rename_i hrest
    obtain ⟨-, rfl, rfl⟩ : n = n' ∧ corr = corr' ∧ k = s.tickets := by simpa using h
    rw [if_neg hrest]
    exact ⟨_, mem_cons_of_mem _ (mem_singleton_self _), rfl⟩

/-- A matched receipt for an engine is taken on, at once. -/
theorem exec_receipt_took {s : Gateway} {i : Input} {a : Action} {r : GatewayEffect}
    (h : exec cfg s i a = some r) (hm : .matched n (.smpp corr k) ∈ r.seen) :
    ∃ it, .item k (.took it) ∈ r.seen ∧ it.kind = .receipt corr.northConnID := by
  rcases exec_matched h hm with ⟨_, _, _, _, _, _, _, -, -, -, -, rfl⟩ |
    ⟨_, _, -, -, rfl⟩ | ⟨_, -, -, hm, -⟩
  · rcases mem_cons.mp hm with hm | hm
    · cases hm
    · obtain ⟨it, hit, hkind⟩ := took_of_routeReceipt hm
      exact ⟨it, mem_cons_of_mem _ hit, hkind⟩
  · exact took_of_routeReceipt hm
  · cases hm

theorem reaches_receipts (h : (gateway cfg).Reaches ok GatewayConf.start c)
    (hm : .matched n (.smpp corr k) ∈ c.trace) :
    ∃ it, .item k (.took it) ∈ c.trace ∧ it.kind = .receipt corr.northConnID := by
  refine h.linked (q := fun o seen => ∀ n corr k, o = .matched n (.smpp corr k) →
    ∃ it, .item k (.took it) ∈ seen ∧ it.kind = .receipt corr.northConnID) ?_ rfl ?_ _ hm
    n corr k rfl
  · intro o l l' hsub hq n corr k ho
    obtain ⟨it, hit, hkind⟩ := hq n corr k ho
    exact ⟨it, hsub hit, hkind⟩
  · rintro s i a r hr o ho n corr k rfl
    exact exec_receipt_took hr ho

/-- A synthetic receipt for an engine is taken on. -/
theorem reaches_synthetics (h : (gateway cfg).Reaches ok GatewayConf.start c) {g connID : Bytes}
    (hm : .message g (.synthetic connID) ∈ c.trace) (hrest : connID ≠ restApi) :
    ∃ k it, .item k (.took it) ∈ c.trace ∧ it.kind = .synthetic connID := by
  refine h.linked (q := fun o seen => ∀ g connID, o = .message g (.synthetic connID) →
    connID ≠ restApi → ∃ k it, .item k (.took it) ∈ seen ∧ it.kind = .synthetic connID) ?_ rfl ?_
    _ hm g connID rfl hrest
  · intro o l l' hsub hq g connID ho hrest
    obtain ⟨k, it, hit, hkind⟩ := hq g connID ho hrest
    exact ⟨k, it, hsub hit, hkind⟩
  · rintro s i a r hr o ho g connID rfl hrest
    obtain ⟨now, d, f, body, n, l, hl, rfl⟩ := exec_synthetic hr ho
    have hgive : .message g (.synthetic connID) ∈
        (enqueueSubmitRetryOrFail cfg s now g connID d f body n).seen := by
      rcases mem_cons.mp ho with ho | ho
      · exact absurd (Obs.message.inj ho).2.symm hl
      · exact ho
    have htook : ∃ k it, .item k (.took it) ∈
        (enqueueSubmitRetryOrFail cfg s now g connID d f body n).seen ∧
        it.kind = .synthetic connID := by
      unfold enqueueSubmitRetryOrFail at hgive ⊢
      split at hgive
      · simp at hgive
      · rename_i hM
        rw [if_neg hM, sendSyntheticDLR, if_neg hrest]
        exact ⟨_, _, mem_cons_of_mem _ (mem_singleton_self _), rfl⟩
    obtain ⟨k, it, hit, hkind⟩ := htook
    exact ⟨k, it, mem_cons_of_mem _ hit, hkind⟩

end Taken

/-- `handleMO` takes on what has no HTTP route. -/
theorem took_of_handleMO (s : Gateway) (i : Input) {sourceAddr destAddr : Bytes}
    (esmClass : UInt8) (payload : Bytes)
    (hroute : ∀ route, resolveMO cfg.moRoutes sourceAddr destAddr = some route →
      route.targetType ≠ .http) :
    .item s.tickets (.took ⟨.mo, sourceAddr, destAddr, esmClass, payload⟩) ∈
      (handleMO cfg s i sourceAddr destAddr esmClass payload).seen := by
  rcases handleMO_cases cfg s i sourceAddr destAddr esmClass payload with
    ⟨route, hr, htype, -⟩ | ⟨connID, next, -, heq⟩
  · exact absurd htype (hroute route hr)
  · rw [heq]
    exact mem_cons_of_mem _ mem_cons_self

/-! ## Conservation -/

/-- A message that was taken on is in the place of its phase and nowhere
else. -/
theorem places_of_took {c : GatewayConf} (hc : Inv cfg c) {k : ℕ} {it : Item}
    (h : .item k (.took it) ∈ c.trace) :
    ∃ φ, places c k = {φ.place} ∧ (rules cfg).Traced (history c k) φ := by
  obtain ⟨φ, hφ⟩ := hc.faithful.exists_of_mem_log
    (mem_filterMap.mpr ⟨_, h, rfl⟩ : (k, ItemLabel.took it) ∈ (track c).log)
  refine ⟨φ, ?_, hc.faithful.traced k φ hφ⟩
  rw [places, hc.faithful.filter_eq_singleton hφ, Multiset.map_singleton]

/-- **Return-path conservation.** In every state of every run whose clock
readings are distinct, what the return path took on is in exactly one place:
no drain, re-enqueue, limit or expiry loses it, doubles it or overwrites it. -/
theorem reaches_conserved (cfg : RouterConfig) {c : GatewayConf}
    (h : (gateway cfg).Reaches Program.Anything GatewayConf.start c) (hreads : (reads c).Nodup) :
    Conserved cfg c := by
  refine ⟨fun n corr k hm => reaches_receipts h hm,
    fun g connID hm hrest => reaches_synthetics h hm hrest,
    fun i pool src dst esm payload hesm hroute =>
      ⟨_, by rw [exec, execReturn, if_neg (by simp [hesm])],
        took_of_handleMO c.shared i esm payload hroute⟩,
    fun k it htook => ?_⟩
  obtain ⟨φ, hplaces, hword⟩ := places_of_took (reaches_inv h hreads) htook
  refine ⟨φ.place, hplaces, fun hdone => ?_, fun hexp => ?_⟩
  · cases φ with
    | done => exact history_of_done hword
    | _ => cases hdone
  · cases φ with
    | expired => exact history_of_expired hword
    | _ => cases hexp

/-- Goroutines 3 to 5 after `engineSubmits`: the message goes south, the
engine leaves, and the receipt of the message comes in. -/
def receiptFindsNobody : List (Event Input Action) :=
  engineSubmits ++ goroutine 3 (.submit .forwardWorker)
    [{}, { attempt := .accepted 0 (ascii "s1") }, {}, {}] ++
  goroutine 4 (.serve (.disconnect 0)) [{}, {}] ++
  goroutine 5 (.back (.handleDeliver 0 (ascii "200") (ascii "100") 0x04
    (ascii "id:s1 stat:DELIVRD"))) [{}, {}, {}, {}, {}, { now := 5 }]

/-- The receipt waits in the retry queue, and once a later drain took it, it
is held by that pass. -/
theorem receipt_waits_and_is_drained :
    ∃ c, (gateway .loadConfig).Reaches Program.Anything GatewayConf.start c ∧ (reads c).Nodup ∧
      history c 0 = [.took ⟨.receipt engineID, ascii "200", ascii "100", 0x04,
        ascii "id:GW-1 stat:DELIVRD"⟩, .buffered 5, .drained] ∧ Conserved .loadConfig c := by
  exact Program.exists_reached (receiptFindsNobody ++ goroutine 6 (.back .drainRetries)
    [{ now := 9, later := 10 }]) (by decide) fun hreach => ⟨by decide, by decide, reaches_conserved
    _ hreach (by decide)⟩

end ReturnPath

end SmscGateway
