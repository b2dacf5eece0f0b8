import SmscGateway.Common.Custody
import SmscGateway.Gateway.Frame

/-!
# The submit pipeline as a lifecycle

An accepted message is a token. Where it is in the gateway is its phase: a
handler or a worker that has yet to act on it, `forwardCh`, the retry queue,
or the record of how it ended. Every step of the gateway lets one message
enter, lets messages move on as the rules allow, or leaves all of them alone
(`step_track`), so the whole history of a message is a word of the rules
(`Pipeline.reaches_inv`).
-/

namespace SmscGateway

open List

namespace Pipeline

/-- Where an accepted message is. -/
inductive Phase
  /-- Its handler has not offered it to `forwardCh` yet. -/
  | accepting
  | queued
  | forwarding
  /-- An attempt failed, or there was no room for one; no step of the
  gateway leaves a message here. -/
  | failing (retryCount : ℕ)
  | retrying (retryCount : ℕ)
  | draining (retryCount : ℕ)
  /-- The SMSC has accepted it; the correlation is not recorded yet. -/
  | correlating (holder : Holder)
  | forwarded
  | failed
  deriving DecidableEq

/-- An attempt the SMSC did not accept. -/
def Failed (o : Attempt) : Prop := ∀ pool id, o ≠ .accepted pool id

/-- The moves between phases, for `MaxSubmitRetries = M`. -/
inductive Next (M : ℤ) : Phase → Label → Phase → Prop
  | queue : Next M .accepting .queued .queued
  | overflow : Next M .accepting .overflowed (.failing 0)
  | take : Next M .queued .taken .forwarding
  | forward {pool : ℕ} {id : Bytes} :
      Next M .forwarding (.attempted (.accepted pool id)) (.correlating .worker)
  | forwardFails {o : Attempt} : Failed o → Next M .forwarding (.attempted o) (.failing 0)
  | retry {n pool : ℕ} {id : Bytes} :
      Next M (.draining n) (.attempted (.accepted pool id)) (.correlating .drainPass)
  | retryFails {n : ℕ} {o : Attempt} :
      Failed o → Next M (.draining n) (.attempted o) (.failing n)
  | enqueue {n : ℕ} : 0 < M → (n : ℤ) < M → Next M (.failing n) (.enqueued (n + 1)) (.retrying (n + 1))
  | giveUp {n : ℕ} {connID : Bytes} :
      ¬ (0 < M ∧ (n : ℤ) < M) → Next M (.failing n) (.synthetic connID) .failed
  | drain {n : ℕ} : Next M (.retrying n) .drained (.draining n)
  | correlate {h : Holder} : Next M (.correlating h) .correlated .forwarded

/-- The lifecycle of a message. -/
def rules (cfg : RouterConfig) : Lifecycle Phase Label where
  enter l φ := (∃ o, l = .accepted o) ∧ φ = .accepting
  next := Next cfg.maxSubmitRetries

/-! ## The tokens of a configuration -/

/-- The message a pending action holds. -/
def holds : Action → Option (Bytes × Phase)
  | .submit (.offer task _) => some (task.gwMsgID, .accepting)
  | .submit (.forwardSubmitRaw f) => some (f.gwMsgID, .forwarding)
  | .submit (.getCorrelation f _) => some (f.gwMsgID, .correlating .worker)
  | .submit (.setCorrelation h gwMsgID _ _) => some (gwMsgID, .correlating h)
  | .submit (.retrySubmit p) => some (p.gwMsgID, .draining p.retryCount)
  | _ => none

/-- The message an observation ends. -/
def ends : Obs → Option (Bytes × Phase)
  | .message gwMsgID .correlated => some (gwMsgID, .forwarded)
  | .message gwMsgID (.synthetic _) => some (gwMsgID, .failed)
  | _ => none

/-- The label an observation writes. -/
def labelOf : Obs → Option (Bytes × Label)
  | .message gwMsgID l => some (gwMsgID, l)
  | _ => none

/-- The messages in the two queues. -/
def stored (s : Gateway) : Multiset (Bytes × Phase) :=
  (s.forwardCh.map fun t => (t.gwMsgID, Phase.queued) : List (Bytes × Phase)) +
    (s.store.submitRetries.values.map fun p => (p.gwMsgID, Phase.retrying p.retryCount) :
      List (Bytes × Phase))

/-- Where the messages are. -/
def custody : Custody Gateway Action Obs Bytes Phase Label := ⟨stored, holds, ends, labelOf⟩

/-- The messages of a configuration and their history. -/
def track (c : GatewayConf) : Track Bytes Phase Label := custody.track c

/-- An entry of the submit-retry queue is stored under its own key. -/
def Keyed (s : Gateway) : Prop :=
  ∀ k p, s.store.submitRetries.find? k = some p → k = submitRetryKey p.enqueuedAt p.gwMsgID

/-- What holds of the pipeline in every run. -/
structure Inv (cfg : RouterConfig) (c : GatewayConf) : Prop where
  faithful : (rules cfg).Faithful (track c)
  /-- Every message has an id `nextMsgID` gave out. -/
  ids : ∀ g ∈ (track c).tokens.map Prod.fst, ∃ n ≤ c.shared.msgSeq, g = gwMsgIDOf n
  keyed : Keyed c.shared

/-! ## What one action does -/

section Exec

variable {cfg : RouterConfig} {s : Gateway} {i : Input}

/-- The action does not touch the pipeline. -/
structure Quiet (s : Gateway) (r : GatewayEffect) : Prop where
  msgSeq : s.msgSeq ≤ r.state.msgSeq
  forwardCh : r.state.forwardCh = s.forwardCh
  submitRetries : r.state.store.submitRetries = s.store.submitRetries
  next : r.next.filterMap holds = []
  ends : r.seen.filterMap ends = []
  labels : r.seen.filterMap labelOf = []

variable {r : GatewayEffect} {g : Bytes}

/-- No other side touches it. -/
theorem quiet_of_offSubmit (h : OffSubmit s r) : Quiet s r where
  msgSeq := h.msgSeq.ge
  forwardCh := h.forwardCh
  submitRetries := h.submitRetries
  next := h.next_filterMap fun a ha => by cases a <;> first | rfl | cases ha
  ends := h.seen_filterMap fun o ho => by cases o <;> first | rfl | cases ho
  labels := h.seen_filterMap fun o ho => by cases o <;> first | rfl | cases ho

theorem Quiet.stored_eq (hq : Quiet s r) : stored r.state = stored s := by
  simp only [stored, hq.forwardCh, hq.submitRetries]

theorem Quiet.shifts {a : Action} (hq : Quiet s r) (ha : holds a = none) :
    custody.Shifts (rules cfg) s a r :=
  Custody.shifts_of_quiet a ha hq.stored_eq hq.next hq.ends hq.labels

/-- Giving up ends the message and touches no queue. -/
theorem sendSyntheticDLR_spec (connID g d f : Bytes) :
    (sendSyntheticDLR s connID g d f).state.msgSeq = s.msgSeq ∧
    (sendSyntheticDLR s connID g d f).state.forwardCh = s.forwardCh ∧
    (sendSyntheticDLR s connID g d f).state.store = s.store ∧
    (sendSyntheticDLR s connID g d f).next.filterMap holds = [] ∧
    (sendSyntheticDLR s connID g d f).seen.filterMap ends = [(g, .failed)] ∧
    (sendSyntheticDLR s connID g d f).seen.filterMap labelOf = [(g, .synthetic connID)] := by
  unfold sendSyntheticDLR
  split <;> exact ⟨rfl, rfl, rfl, rfl, rfl, rfl⟩

/-- The key of a queue entry names its message, so a message that is not
queued finds its key free. -/
theorem submitRetries_free (now : Time) (hk : Keyed s) (hfresh : ∀ φ, (g, φ) ∉ stored s) :
    s.store.submitRetries.find? (submitRetryKey now g) = none := by
  by_contra hsome
  obtain ⟨p, hp⟩ := Option.ne_none_iff_exists'.mp hsome
  obtain ⟨-, hgp⟩ := submitRetryKey_inj (hk _ _ hp)
  refine hfresh (.retrying p.retryCount) (Multiset.mem_add.mpr (.inr ?_))
  rw [hgp]
  exact Multiset.mem_coe.mpr (mem_map.mpr ⟨p, SortedMap.mem_values_iff.mpr ⟨_, hp⟩, rfl⟩)

theorem stored_enqueueSubmitRetry {p : PendingSubmit} (hk : Keyed s)
    (hfresh : ∀ φ, (p.gwMsgID, φ) ∉ stored s) (hjson : jsonString p.gwMsgID = p.gwMsgID) :
    stored { s with store := s.store.enqueueSubmitRetry p } =
      (p.gwMsgID, .retrying p.retryCount) ::ₘ stored s := by
  have hvals := SortedMap.values_insert_of_none (v := p.json)
    (submitRetries_free p.enqueuedAt hk hfresh)
  simp only [stored, MessageStore.enqueueSubmitRetry, ← Multiset.map_coe, hvals,
    Multiset.map_cons, Multiset.add_cons]
  simp only [PendingSubmit.json, hjson]

theorem keyed_enqueueSubmitRetry {p : PendingSubmit} (hk : Keyed s)
    (hjson : jsonString p.gwMsgID = p.gwMsgID) :
    Keyed { s with store := s.store.enqueueSubmitRetry p } := by
  intro k q hq
  simp only [MessageStore.enqueueSubmitRetry, SortedMap.find?_insert] at hq
  split at hq
  · cases hq
    simp_all [PendingSubmit.json]
  · exact hk k q hq

/-- **A message that cannot be sent is queued or given up.** -/
theorem enqueueSubmitRetryOrFail_track {now : Time} {connID d f body : Bytes} {n m : ℕ}
    (hk : Keyed s) (hg : g = gwMsgIDOf m) (hfresh : ∀ φ, (g, φ) ∉ stored s)
    (hr : enqueueSubmitRetryOrFail cfg s now g connID d f body n = r) :
    Keyed r.state ∧ r.state.msgSeq = s.msgSeq ∧
    ∀ rest log, (rules cfg).Advances ⟨(g, .failing n) ::ₘ (stored s + rest), log⟩
      ⟨custody.after r rest, log ++ r.seen.filterMap labelOf⟩ := by
  have hjson : jsonString g = g := hg ▸ jsonString_gwMsgIDOf m
  rw [enqueueSubmitRetryOrFail] at hr
  split at hr
  · rename_i hM
    subst hr
    refine ⟨keyed_enqueueSubmitRetry hk hjson, rfl, fun rest log => ?_⟩
    have htok : ∀ st : Gateway, custody.after
        { state := st, seen := [.message g (.enqueued (n + 1))] } rest = stored st + rest :=
      fun st => congrArg (· + rest) ((add_zero _).trans (add_zero _))
    rw [htok, stored_enqueueSubmitRetry hk hfresh hjson, Multiset.cons_add]
    exact .single (.mk rfl (Next.enqueue hM.1 hM.2))
  · rename_i hM
    obtain ⟨hseq, hch, hst, hnext, hends, hlab⟩ := sendSyntheticDLR_spec (s := s) connID g d f
    rw [hr] at hseq hch hst hnext hends hlab
    refine ⟨?_, hseq, fun rest log => ?_⟩
    · intro k p hp
      rw [hst] at hp
      exact hk k p hp
    · have hstored : stored r.state = stored s := by simp only [stored, hch, hst]
      have htok : custody.after r rest = (g, .failed) ::ₘ (stored s + rest) := by
        have hpass : r.next.filterMap custody.holds ++ r.seen.filterMap custody.ends =
            [(g, .failed)] := congrArg₂ (· ++ ·) hnext hends
        have hkeep : custody.stored r.state = stored s := hstored
        rw [Custody.after_eq, hpass, hkeep, Multiset.coe_singleton, ← Multiset.singleton_add]
        abel
      rw [htok, hlab]
      exact .single (.mk rfl (Next.giveUp hM))

/-- The same after a label that says why it could not be sent. -/
theorem fails_shifts (a : Action) {now : Time} {connID d f body : Bytes} {n m : ℕ} {φ : Phase}
    {l : Label} (hk : Keyed s) (hg : g = gwMsgIDOf m) (hfresh : ∀ φ, (g, φ) ∉ stored s)
    (ha : holds a = some (g, φ)) (hl : Next cfg.maxSubmitRetries φ l (.failing n))
    (hr : (enqueueSubmitRetryOrFail cfg s now g connID d f body n).after [.message g l] = r) :
    Keyed r.state ∧ r.state.msgSeq = s.msgSeq ∧ custody.Shifts (rules cfg) s a r := by
  obtain ⟨hk', hseq, hadv⟩ := enqueueSubmitRetryOrFail_track hk hg hfresh
    (rfl : enqueueSubmitRetryOrFail cfg s now g connID d f body n = _)
  have hends : ends (.message g l) = none := by cases hl <;> rfl
  subst hr
  refine ⟨hk', hseq, fun rest log => ?_⟩
  have hafter := hadv rest (log ++ [(g, l)])
  refine Relation.ReflTransGen.head (.mk (Custody.before_of_holds ha rest) hl) ?_
  simpa [Effect.after, Custody.after, custody, hends, labelOf, Lifecycle.Advances] using hafter

theorem recordForwarded_quiet (f : Forward) (id : Bytes) (t : Time) :
    (recordForwarded f id t).filterMap holds = [] := by
  unfold recordForwarded
  split <;> rfl

theorem stored_push (t : ForwardTask) :
    stored { s with forwardCh := s.forwardCh ++ [t] } = (t.gwMsgID, .queued) ::ₘ stored s := by
  simp only [stored, map_append, map_cons, map_nil, ← Multiset.coe_add,
    Multiset.coe_singleton, ← Multiset.singleton_add]
  abel

theorem stored_pop {t : ForwardTask} {ts : List ForwardTask} (h : s.forwardCh = t :: ts) :
    stored s = (t.gwMsgID, .queued) ::ₘ stored { s with forwardCh := ts } := by
  simp only [stored, h, map_cons, ← Multiset.cons_coe, Multiset.cons_add]

/-- What a drain takes leaves the queue for the pass that holds it. -/
theorem stored_drain (limit : ℤ) {drained : List PendingSubmit × SortedMap Bytes PendingSubmit}
    (h : drainSubmitRetries limit s.store.submitRetries = drained) :
    stored s = (drained.1.map fun p => (p.gwMsgID, Phase.retrying p.retryCount) :
        List (Bytes × Phase)) +
      stored { s with store := { s.store with submitRetries := drained.2 } } := by
  have hsplit := drainSubmitRetries_values limit s.store.submitRetries
  rw [h] at hsplit
  simp only [stored, ← hsplit, map_append, ← Multiset.coe_add]
  abel

/-- The message a drain takes is held by its pass afterwards. -/
theorem drain_shifts {drained : List PendingSubmit × SortedMap Bytes PendingSubmit}
    (h : drainSubmitRetries cfg.submitRetryLimit s.store.submitRetries = drained) :
    custody.Shifts (rules cfg) s (.submit .drainSubmitRetries)
      { state := { s with store := { s.store with submitRetries := drained.2 } }
        next := drained.1.map fun p => .submit (.retrySubmit p)
        seen := drained.1.map fun p => .message p.gwMsgID .drained } := by
  intro rest log
  have hbefore : custody.before s (.submit .drainSubmitRetries) rest =
      (drained.1.map fun p => (p.gwMsgID, Phase.retrying p.retryCount) : List (Bytes × Phase)) +
      (stored { s with store := { s.store with submitRetries := drained.2 } } + rest) := by
    rw [Custody.before_of_none rfl, ← add_assoc, ← stored_drain cfg.submitRetryLimit h]
    rfl
  have hlab : (drained.1.map fun p => Obs.message p.gwMsgID .drained).filterMap custody.labelOf =
      drained.1.map fun p => (p.gwMsgID, .drained) := by
    rw [filterMap_map]
    exact congrFun filterMap_eq_map _
  have hnext : (drained.1.map fun p => Action.submit (.retrySubmit p)).filterMap custody.holds =
      drained.1.map fun p => (p.gwMsgID, .draining p.retryCount) := by
    rw [filterMap_map]
    exact congrFun filterMap_eq_map _
  have hends : (drained.1.map fun p => Obs.message p.gwMsgID .drained).filterMap custody.ends =
      [] := by
    simp [custody, ends]
  have hall := Lifecycle.Advances.all (R := rules cfg)
    (t := ⟨custody.before s (.submit .drainSubmitRetries) rest, log⟩) drained.1
    (fun p => p.gwMsgID) (fun p => .retrying p.retryCount) (fun p => .draining p.retryCount)
    (fun _ => .drained) hbefore fun _ _ => Next.drain
  rw [Custody.after_eq, hnext, hends, hlab, append_nil, add_comm (custody.stored _),
    add_assoc]
  exact hall

/-- The action takes a new message on. -/
def TakesOn (cfg : RouterConfig) (s : Gateway) (a : Action) (r : GatewayEffect) : Prop :=
  r.state.msgSeq = s.msgSeq + 1 ∧
    custody.Enters (rules cfg) s a r (gwMsgIDOf (s.msgSeq + 1))

/-- What an action of the submit side does to the pipeline. -/
theorem execSubmit_track {a : SubmitAction} (h : execSubmit cfg s i a = some r) (hk : Keyed s)
    (ha : ∀ g φ, holds (.submit a) = some (g, φ) →
      (∃ m, g = gwMsgIDOf m) ∧ ∀ ψ, (g, ψ) ∉ stored s) :
    Keyed r.state ∧ s.msgSeq ≤ r.state.msgSeq ∧
      (TakesOn cfg s (.submit a) r ∨ custody.Shifts (rules cfg) s (.submit a) r) := by
  cases execSubmit_moves h with
  | rejected =>
    refine ⟨hk, Nat.le_succ _, .inr (Quiet.shifts ?_ rfl)⟩
    exact ⟨Nat.le_succ _, rfl, rfl, rfl, rfl, rfl⟩
  | accepted connID =>
    refine ⟨hk, Nat.le_succ _, .inl ⟨rfl, Custody.enters_of_next _ rfl rfl rfl ?_ ?_
      ⟨⟨.smpp connID, rfl⟩, rfl⟩⟩⟩
    · simp only [acceptSubmit]
      split <;> rfl
    · simp only [acceptSubmit]
      split <;> rfl
  | refused | requested | batchRefused | batchRequested =>
    exact ⟨hk, le_rfl, .inr (Quiet.shifts ⟨le_rfl, rfl, rfl, rfl, rfl, rfl⟩ rfl)⟩
  | answered =>
    refine ⟨hk, le_rfl, .inr (Quiet.shifts ⟨le_rfl, rfl, rfl, rfl, ?_, ?_⟩ rfl)⟩
    · simp [ends]
    · simp [labelOf]
  | acceptedREST =>
    refine ⟨hk, Nat.le_succ _, .inl ⟨rfl, Custody.enters_of_next _ rfl rfl ?_ rfl rfl
      ⟨⟨.rest, rfl⟩, rfl⟩⟩⟩
    simp only [acceptRESTMessage]
    split <;> rfl
  | queued =>
    refine ⟨hk, le_rfl, .inr (Custody.shifts_of_move _ (stored s) (Custody.before_of_holds rfl)
      (fun rest => ?_) rfl Next.queue)⟩
    rw [← Multiset.cons_add, ← stored_push]
    exact congrArg (· + rest) ((add_zero _).trans (add_zero _))
  | overflowed task connID =>
    obtain ⟨⟨m, hm⟩, hfresh⟩ := ha _ _ rfl
    obtain ⟨hk', hseq, hs⟩ := fails_shifts (.submit (.offer task connID)) hk hm hfresh rfl
      Next.overflow rfl
    exact ⟨hk', hseq.ge, .inr hs⟩
  | taken task rest hch =>
    refine ⟨hk, le_rfl, .inr (Custody.shifts_of_move _ (stored { s with forwardCh := rest })
      (fun others => ?_) (fun others => ?_) rfl Next.take)⟩
    · rw [Custody.before_of_none rfl, ← Multiset.cons_add, ← stored_pop hch]
      rfl
    · rw [Custody.after_eq, ← Multiset.singleton_add, ← add_assoc]
      exact congrArg (· + others) (add_comm _ _)
  | sent f pool id hatt =>
    refine ⟨hk, le_rfl, .inr (Custody.shifts_of_holds _ rfl rfl rfl rfl ?_)⟩
    rw [hatt]
    exact Next.forward
  | unsent f hatt =>
    obtain ⟨⟨m, hm⟩, hfresh⟩ := ha _ _ rfl
    obtain ⟨hk', hseq, hs⟩ := fails_shifts (.submit (.forwardSubmitRaw f)) hk hm hfresh rfl
      (Next.forwardFails hatt) rfl
    exact ⟨hk', hseq.ge, .inr hs⟩
  | getCorrelation =>
    refine ⟨hk, le_rfl, .inr (Custody.shifts_of_passes _ rfl rfl ?_ rfl rfl)⟩
    simp only [custody, filterMap_cons, holds, recordForwarded_quiet]
  | setCorrelation =>
    exact ⟨hk, le_rfl, .inr (Custody.shifts_of_holds _ rfl rfl rfl rfl Next.correlate)⟩
  | drained out hout =>
    refine ⟨fun k p hp => hk k p ?_, le_rfl, .inr (drain_shifts hout)⟩
    rw [← hout] at hp
    exact find?_drainSubmitRetries hp
  | resent p pool id hatt =>
    refine ⟨hk, le_rfl, .inr (Custody.shifts_of_holds (ψ := .correlating .drainPass) _ rfl rfl
      ?_ rfl ?_)⟩
    · simp [custody, holds, ends, recordForwarded_quiet]
    · rw [hatt]
      exact Next.retry
  | unresent p hatt =>
    obtain ⟨⟨m, hm⟩, hfresh⟩ := ha _ _ rfl
    obtain ⟨hk', hseq, hs⟩ := fails_shifts (.submit (.retrySubmit p)) hk hm hfresh rfl
      (Next.retryFails hatt) rfl
    exact ⟨hk', hseq.ge, .inr hs⟩

/-- What any action does to the pipeline. -/
theorem exec_track {a : Action} (h : exec cfg s i a = some r) (hk : Keyed s)
    (ha : ∀ g φ, holds a = some (g, φ) → (∃ m, g = gwMsgIDOf m) ∧ ∀ ψ, (g, ψ) ∉ stored s) :
    Keyed r.state ∧ s.msgSeq ≤ r.state.msgSeq ∧
      (TakesOn cfg s a r ∨ custody.Shifts (rules cfg) s a r) := by
  cases hside : a.onSubmit with
  | true =>
    cases a with
    | submit a => exact execSubmit_track h hk ha
    | _ => cases hside
  | false =>
    have hq := quiet_of_offSubmit (exec_offSubmit hside h)
    have hn : holds a = none := by
      cases a with
      | submit a => cases hside
      | _ => rfl
    refine ⟨fun k p hp => hk k p ?_, hq.msgSeq, .inr (hq.shifts hn)⟩
    rw [← hq.submitRetries]
    exact hp

end Exec

/-! ## Runs -/

variable {cfg : RouterConfig}

theorem holds_of_entry {a : Action} (h : entry a = true) : holds a = none := by
  unfold entry at h
  split at h <;> first | rfl | cases h

theorem inv_start : Inv cfg GatewayConf.start where
  faithful := Lifecycle.faithful_empty
  ids := by
    intro g hg
    cases hg
  keyed := by
    intro k p hp
    cases hp

variable {c : GatewayConf}

/-- **A step keeps every message accounted for.** -/
theorem step_inv {c' : GatewayConf} {e : Event Input Action} (hc : Inv cfg c)
    (h : (gateway cfg).step c e = some c') : Inv cfg c' := by
  obtain ⟨hf, hids, hk⟩ := hc
  rcases Custody.step_cases (V := custody) (fun a ha => holds_of_entry ha) h with
    ⟨-, hs, -, htrack⟩ | ⟨-, input, a, r, others, -, -, hexec, hs, -, hbefore, hafter⟩
  · refine ⟨?_, ?_, hs ▸ hk⟩
    · rw [track, htrack]
      exact hf
    · rw [track, htrack, hs]
      exact hids
  · rw [track, hbefore] at hf hids
    have ha : ∀ g φ, holds a = some (g, φ) →
        (∃ m, g = gwMsgIDOf m) ∧ ∀ ψ, (g, ψ) ∉ stored c.shared := by
      intro g φ hφ
      refine ⟨?_, Custody.not_mem_stored hφ hf.nodup⟩
      rw [Custody.before_of_holds hφ, Multiset.map_cons] at hids
      obtain ⟨n, -, hgn⟩ := hids g (Multiset.mem_cons_self _ _)
      exact ⟨n, hgn⟩
    obtain ⟨hk', hseq, ⟨hnext, henter⟩ | hshift⟩ := exec_track hexec hk ha
    · have hfresh : ∀ ψ, (gwMsgIDOf (c.shared.msgSeq + 1), ψ) ∉
          custody.before c.shared a others := by
        intro ψ hψ
        obtain ⟨n, hn, hgn⟩ := hids _ (Multiset.mem_map_of_mem Prod.fst hψ)
        have := gwMsgIDOf_injective hgn
        omega
      refine ⟨?_, ?_, hs ▸ hk'⟩
      · rw [track, hafter]
        exact henter.faithful hf hfresh
      · rw [track, hafter, henter.map_fst, hs, hnext]
        intro g hg
        rcases Multiset.mem_cons.mp hg with rfl | hg
        · exact ⟨_, le_rfl, rfl⟩
        · obtain ⟨n, hn, hgn⟩ := hids g hg
          exact ⟨n, Nat.le_succ_of_le hn, hgn⟩
    · refine ⟨?_, ?_, hs ▸ hk'⟩
      · rw [track, hafter]
        exact hshift.faithful hf
      · rw [track, hafter, hshift.map_fst, hs]
        intro g hg
        obtain ⟨n, hn, hgn⟩ := hids g hg
        exact ⟨n, hn.trans hseq, hgn⟩

/-- **In every run every message is accounted for.** -/
theorem reaches_inv {ok : GatewayConf → Event Input Action → Prop}
    (h : (gateway cfg).Reaches ok GatewayConf.start c) : Inv cfg c :=
  h.invariant inv_start fun _ _ _ hc _ hs => step_inv hc hs

/-- **Where a token is**: in one of the queues, in the hands of a goroutine, or
in the record of how the message ended. -/
theorem mem_tokens_iff {g : Bytes} {φ : Phase} : (g, φ) ∈ (track c).tokens ↔
      (∃ t ∈ c.shared.forwardCh, t.gwMsgID = g ∧ .queued = φ) ∨
      (∃ p ∈ c.shared.store.submitRetries.values, p.gwMsgID = g ∧ .retrying p.retryCount = φ) ∨
      (∃ a ∈ c.actions, holds a = some (g, φ)) ∨ ∃ o ∈ c.trace, ends o = some (g, φ) := by
  have hstored : (g, φ) ∈ stored c.shared ↔
      (∃ t ∈ c.shared.forwardCh, t.gwMsgID = g ∧ .queued = φ) ∨
      ∃ p ∈ c.shared.store.submitRetries.values, p.gwMsgID = g ∧ .retrying p.retryCount = φ := by
    simp only [stored, Multiset.mem_add, Multiset.mem_coe, mem_map, Prod.mk.injEq]
  have htok : (track c).tokens =
      stored c.shared + c.actions.filterMap holds + (c.trace.filterMap ends : List _) := rfl
  rw [htok, Multiset.mem_add, Multiset.mem_add, hstored, Multiset.mem_filterMap, Multiset.mem_coe,
    mem_filterMap, or_assoc, or_assoc]

/-- A message that was ever seen has an id `nextMsgID` gave out. -/
theorem Inv.gwMsgID (hc : Inv cfg c) {g : Bytes} {l : Label} (h : .message g l ∈ c.trace) :
    ∃ n, g = gwMsgIDOf n := by
  obtain ⟨φ, hφ⟩ := hc.faithful.exists_of_mem_log
    (mem_filterMap.mpr ⟨_, h, rfl⟩ : (g, l) ∈ (track c).log)
  obtain ⟨n, -, hn⟩ := hc.ids g (Multiset.mem_map.mpr ⟨(g, φ), hφ, rfl⟩)
  exact ⟨n, hn⟩

end Pipeline

end SmscGateway
