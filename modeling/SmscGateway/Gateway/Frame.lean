import SmscGateway.Gateway.Moves

/-!
# What an action leaves alone

The submit side and the return side meet in the store and in the correlation
tables. `OffSubmit` says that an action is invisible to the submit side: its
queues and its counter stay, no action of it is started, nothing it shows is
shown. `OffReturn` says the same of the return side. Every group of actions
is off the sides it does not belong to, with one exception: giving up on a
submit hands a receipt to the return side.
-/

namespace SmscGateway

open List

/-- Is this an action of the submit side? -/
def Action.onSubmit : Action → Bool
  | .submit _ => true
  | _ => false

/-- Does the observation concern an accepted message? -/
def Obs.onSubmit : Obs → Bool
  | .message .. | .answered _ => true
  | _ => false

/-- Is this an action of the return side? -/
def Action.onReturn : Action → Bool
  | .back _ => true
  | _ => false

/-- Does the observation concern a message on the return path? -/
def Obs.onReturn : Obs → Bool
  | .item .. | .wrote .. | .arrived .. | .matched .. | .released _ | .read _ => true
  | _ => false

/-- An effect the submit side does not notice. -/
structure OffSubmit (s : Gateway) (r : GatewayEffect) : Prop where
  msgSeq : r.state.msgSeq = s.msgSeq
  forwardCh : r.state.forwardCh = s.forwardCh
  submitRetries : r.state.store.submitRetries = s.store.submitRetries
  next : r.next.all (fun a => !a.onSubmit) = true
  seen : r.seen.all (fun o => !o.onSubmit) = true

/-- An effect the return side does not notice. -/
structure OffReturn (s : Gateway) (r : GatewayEffect) : Prop where
  tickets : r.state.tickets = s.tickets
  arrivals : r.state.arrivals = s.arrivals
  retries : r.state.store.retries = s.store.retries
  next : r.next.all (fun a => !a.onReturn) = true
  seen : r.seen.all (fun o => !o.onReturn) = true

section Frame

variable {cfg : RouterConfig} {s : Gateway} {i : Input} {r : GatewayEffect}

/-! ## Sessions -/

/-- Sessions are all that a server action changes. -/
theorem execServe_frame {a : ServerAction} (h : execServe s i a = some r) :
    r.state = { s with server := r.state.server } ∧ (∀ b ∈ r.next, ∃ p, b = .serve (.close p)) ∧
      r.seen = [] := by
  cases a with
  | accept =>
    cases h
    exact ⟨rfl, by simp, rfl⟩
  | bind p systemID config =>
    simp only [execServe] at h
    obtain ⟨-, rfl⟩ := eq_of_guard h
    exact ⟨rfl, by simp, rfl⟩
  | disconnect p =>
    simp only [execServe] at h
    obtain ⟨-, rfl⟩ := eq_of_guard h
    exact ⟨rfl, by simp, rfl⟩
  | close p =>
    cases h
    exact ⟨rfl, by simp, rfl⟩

theorem execServe_offReturn {a : ServerAction} (h : execServe s i a = some r) :
    OffReturn s r := by
  obtain ⟨hs, hn, ho⟩ := execServe_frame h
  refine ⟨?_, ?_, ?_, ?_, ?_⟩
  · rw [hs]
  · rw [hs]
  · rw [hs]
  · refine all_eq_true.mpr fun b hb => ?_
    obtain ⟨p, rfl⟩ := hn b hb
    rfl
  · rw [ho]; rfl

/-! ## Records -/

/-- The submit record an action is about to store. -/
def RecordAction.stores : RecordAction → Option SubmitRecord
  | .storeSubmit r => some r
  | _ => none

/-- What the record actions keep, on either side. They store no submit record
of their own accord. -/
structure RecordFrame (s : Gateway) (r : GatewayEffect) : Prop where
  msgSeq : r.state.msgSeq = s.msgSeq
  forwardCh : r.state.forwardCh = s.forwardCh
  server : r.state.server = s.server
  tickets : r.state.tickets = s.tickets
  arrivals : r.state.arrivals = s.arrivals
  retries : r.state.store.retries = s.store.retries
  submitRetries : r.state.store.submitRetries = s.store.submitRetries
  next : ∀ a ∈ r.next, ∃ b, a = .record b ∧ b.stores = none
  seen : ∀ o ∈ r.seen, ∃ url payload, o = .postedDLR url payload

theorem callbackActions_record (now : Time) (gwMsgID status toAddr fromAddr : Bytes) :
    ∀ a ∈ callbackActions s now gwMsgID status toAddr fromAddr,
      ∃ b, a = .record b ∧ b.stores = none := by
  intro a ha
  unfold callbackActions at ha
  split at ha
  · cases ha
  · exact ⟨_, mem_singleton.mp ha, rfl⟩

/-- A clean-up after a receipt goes on with the log entry it has read, or with
the callback of the message. -/
theorem execSettle_next {rc : Receipt} {corr : Correlation} {st : Settlement} {b : Action}
    (hb : b ∈ (execSettle s i rc corr st).next) :
    (∃ e, b = .back (.settle rc corr (.writeLog e))) ∨ ∃ a, b = .record a ∧ a.stores = none := by
  cases st with
  | updateMessageLog =>
    simp only [execSettle] at hb
    split at hb
    · cases hb
    · exact .inl ⟨_, mem_singleton.mp hb⟩
  | deliverDLRCallback => exact .inr (callbackActions_record _ _ _ _ _ b hb)
  | _ => cases hb

theorem execRecord_frame {a : RecordAction} (h : execRecord cfg s i a = some r) :
    RecordFrame s r := by
  have hmap : ∀ {α : Type} (l : List α) (f : α → RecordAction), (∀ e, (f e).stores = none) →
      ∀ a ∈ l.map fun e => Action.record (f e), ∃ b, a = .record b ∧ b.stores = none := by
    intro α l f hf a ha
    obtain ⟨e, -, rfl⟩ := mem_map.mp ha
    exact ⟨_, rfl, hf e⟩
  cases a with
  | updateMessageLog gwMsgID u =>
    simp only [execRecord] at h
    split at h <;> obtain rfl := Option.some.inj h <;>
      exact ⟨rfl, rfl, rfl, rfl, rfl, rfl, rfl, by simp [RecordAction.stores], by simp⟩
  | deliverDLRCallback gwMsgID status toAddr fromAddr =>
    cases h
    exact ⟨rfl, rfl, rfl, rfl, rfl, rfl, rfl, callbackActions_record _ _ _ _ _, by simp⟩
  | postCallback cb payload =>
    cases h
    refine ⟨rfl, rfl, rfl, rfl, rfl, ?_, ?_, by simp, by simp⟩ <;>
      (unfold postCallback; split <;> rfl)
  | batchWriteLoop =>
    obtain ⟨submits, -, rfl⟩ := Option.map_eq_some_iff.mp h
    exact ⟨rfl, rfl, rfl, rfl, rfl, rfl, rfl, by simp [RecordAction.stores], by simp⟩
  | cleanupCorrelations =>
    cases h
    refine ⟨rfl, rfl, rfl, rfl, rfl, rfl, rfl, fun a ha => ?_, by simp⟩
    rcases mem_append.mp ha with ha | ha
    · exact hmap _ _ (fun _ => rfl) a ha
    · exact ⟨_, mem_singleton.mp ha, rfl⟩
  | collectGw cutoff =>
    cases h
    exact ⟨rfl, rfl, rfl, rfl, rfl, rfl, rfl, hmap _ _ fun _ => rfl, by simp⟩
  | _ =>
    cases h
    exact ⟨rfl, rfl, rfl, rfl, rfl, rfl, rfl, by simp, by simp⟩

theorem RecordFrame.offSubmit (h : RecordFrame s r) : OffSubmit s r := by
  refine ⟨h.msgSeq, h.forwardCh, h.submitRetries, all_eq_true.mpr fun a ha => ?_,
    all_eq_true.mpr fun o ho => ?_⟩
  · obtain ⟨b, rfl, -⟩ := h.next a ha
    rfl
  · obtain ⟨url, payload, rfl⟩ := h.seen o ho
    rfl

theorem RecordFrame.offReturn (h : RecordFrame s r) : OffReturn s r := by
  refine ⟨h.tickets, h.arrivals, h.retries, all_eq_true.mpr fun a ha => ?_,
    all_eq_true.mpr fun o ho => ?_⟩
  · obtain ⟨b, rfl, -⟩ := h.next a ha
    rfl
  · obtain ⟨url, payload, rfl⟩ := h.seen o ho
    rfl

/-! ## The return side -/

theorem OffSubmit.after {seen : List Obs} (hr : OffSubmit s r)
    (hs : seen.all (fun o => !o.onSubmit) = true) : OffSubmit s (r.after seen) :=
  { hr with seen := by simp only [Effect.after, all_append, hs, hr.seen, Bool.and_self] }

theorem routeReceipt_offSubmit (n : ℕ) (rc : Receipt) (corr : Correlation) :
    OffSubmit s (routeReceipt s n rc corr) := by
  unfold routeReceipt
  split <;> exact ⟨rfl, rfl, rfl, rfl, rfl⟩

theorem callbackActions_offSubmit (now : Time) (gwMsgID status toAddr fromAddr : Bytes) :
    (callbackActions s now gwMsgID status toAddr fromAddr).all (fun a => !a.onSubmit) = true :=
  all_eq_true.mpr fun a ha => by
    obtain ⟨b, rfl, -⟩ := callbackActions_record _ _ _ _ _ a ha
    rfl

theorem acked_offSubmit (c : Caller) : c.acked.all (fun a => !a.onSubmit) = true := by
  unfold Caller.acked
  split <;> [split; split; skip] <;> rfl

theorem releases_offSubmit (c : Caller) : c.releases.all (fun o => !o.onSubmit) = true := by
  unfold Caller.releases
  split <;> [split; split; skip] <;> rfl

theorem execReturn_offSubmit {a : ReturnAction} (h : execReturn cfg s i a = some r) :
    OffSubmit s r := by
  cases execReturn_moves h with
  | found rc corr =>
    obtain ⟨h₁, h₂, h₃, h₄, h₅⟩ :=
      routeReceipt_offSubmit (s := { s with arrivals := s.arrivals + 1 }) s.arrivals rc corr
    exact OffSubmit.after ⟨h₁, h₂, h₃, h₄, h₅⟩ rfl
  | stored n rc rec => exact routeReceipt_offSubmit n rc _
  | settle rc corr st =>
    cases st with
    | updateMessageLog =>
      simp only [execSettle]
      split <;> exact ⟨rfl, rfl, rfl, rfl, rfl⟩
    | deliverDLRCallback => exact ⟨rfl, rfl, rfl, callbackActions_offSubmit .., rfl⟩
    | _ => exact ⟨rfl, rfl, rfl, rfl, rfl⟩
  | absent c | unwritten c | unacked c => exact ⟨rfl, rfl, rfl, (by cases c <;> rfl), rfl⟩
  | acked c => exact ⟨rfl, rfl, rfl, acked_offSubmit c, releases_offSubmit c⟩
  | drained out =>
    refine ⟨rfl, rfl, rfl, ?_, ?_⟩
    · exact all_map.trans (all_eq_true.mpr fun _ _ => rfl)
    · simp only [all_append, all_map, Bool.and_eq_true]
      refine ⟨rfl, all_eq_true.mpr fun e _ => ?_⟩
      simp only [Function.comp_apply]
      split <;> rfl
  | _ => exact ⟨rfl, rfl, rfl, rfl, rfl⟩

/-- **Only the submit side touches the submit side.** -/
theorem exec_offSubmit {a : Action} (ha : a.onSubmit = false) (h : exec cfg s i a = some r) :
    OffSubmit s r := by
  cases a with
  | submit a => cases ha
  | record a => exact (execRecord_frame h).offSubmit
  | back a => exact execReturn_offSubmit h
  | serve a =>
    obtain ⟨hs, hn, ho⟩ := execServe_frame h
    refine ⟨?_, ?_, ?_, ?_, ?_⟩
    · rw [hs]
    · rw [hs]
    · rw [hs]
    · refine all_eq_true.mpr fun b hb => ?_
      obtain ⟨p, rfl⟩ := hn b hb
      rfl
    · rw [ho]; rfl

/-! ## The submit side -/

/-- `enqueueSubmitRetryOrFail` gives up on an engine's message, or the return
side notices nothing. -/
theorem enqueueSubmitRetryOrFail_cases (cfg : RouterConfig) (s : Gateway) (now : Time)
    (g connID d f body : Bytes) (n : ℕ) (l : Label) :
    OffReturn s ((enqueueSubmitRetryOrFail cfg s now g connID d f body n).after [.message g l]) ∨
    (connID ≠ restApi ∧ (enqueueSubmitRetryOrFail cfg s now g connID d f body n).after
      [.message g l] = (sendSyntheticDLR s connID g d f).after [.message g l]) := by
  unfold enqueueSubmitRetryOrFail
  split
  · exact .inl ⟨rfl, rfl, rfl, rfl, rfl⟩
  · by_cases hrest : connID = restApi
    · rw [sendSyntheticDLR, if_pos hrest]
      exact .inl ⟨rfl, rfl, rfl, rfl, rfl⟩
    · exact .inr ⟨hrest, rfl⟩

theorem recordForwarded_offReturn (f : Forward) (id : Bytes) (t : Time) :
    (recordForwarded f id t).all (fun a => !a.onReturn) = true := by
  unfold recordForwarded
  split <;> rfl

/-- **The submit side meets the return side in one place**: where it gives up
on an engine's message. -/
theorem execSubmit_cases {a : SubmitAction} (h : execSubmit cfg s i a = some r) :
    OffReturn s r ∨ ∃ connID g d f l, connID ≠ restApi ∧
      r = (sendSyntheticDLR s connID g d f).after [.message g l] := by
  have hfail : ∀ {now : Time} {g connID d f body : Bytes} {n : ℕ} {l : Label},
      r = (enqueueSubmitRetryOrFail cfg s now g connID d f body n).after [.message g l] →
      OffReturn s r ∨ ∃ connID g d f l, connID ≠ restApi ∧
        r = (sendSyntheticDLR s connID g d f).after [.message g l] := by
    rintro now g connID d f body n l rfl
    rcases enqueueSubmitRetryOrFail_cases cfg s now g connID d f body n l with
      hoff | ⟨hrest, heq⟩
    · exact .inl hoff
    · exact .inr ⟨_, _, _, _, _, hrest, heq⟩
  cases execSubmit_moves h with
  | overflowed | unsent | unresent => exact hfail rfl
  | accepted =>
    refine .inl ⟨rfl, rfl, rfl, rfl, ?_⟩
    simp only [acceptSubmit]
    split <;> rfl
  | answered =>
    exact .inl ⟨rfl, rfl, rfl, rfl, all_map.trans (all_eq_true.mpr fun _ _ => rfl)⟩
  | acceptedREST =>
    refine .inl ⟨rfl, rfl, rfl, ?_, rfl⟩
    simp only [acceptRESTMessage]
    split <;> rfl
  | getCorrelation | resent =>
    refine .inl ⟨rfl, rfl, rfl, ?_, rfl⟩
    rw [all_cons, recordForwarded_offReturn]
    rfl
  | drained =>
    exact .inl ⟨rfl, rfl, rfl, all_map.trans (all_eq_true.mpr fun _ _ => rfl),
      all_map.trans (all_eq_true.mpr fun _ _ => rfl)⟩
  | _ => exact .inl ⟨rfl, rfl, rfl, rfl, rfl⟩

/-- All a submit shows on the return side is a synthetic receipt. -/
theorem execSubmit_seen {a : SubmitAction} (h : execSubmit cfg s i a = some r) {o : Obs}
    (ho : o ∈ r.seen) : o.onReturn = false ∨ ∃ k it, o = .item k (.took it) := by
  rcases execSubmit_cases h with hoff | ⟨connID, g, d, f, l, hrest, rfl⟩
  · exact .inl (by simpa using all_eq_true.mp hoff.seen o ho)
  · rw [sendSyntheticDLR, if_neg hrest] at ho
    simp only [Effect.after, cons_append, nil_append, mem_cons,
      not_mem_nil, or_false] at ho
    rcases ho with rfl | rfl | rfl
    · exact .inl rfl
    · exact .inl rfl
    · exact .inr ⟨_, _, rfl⟩

/-- The label is what `enqueueSubmitRetryOrFail` writes. -/
def Label.afterFailure : Label → Bool
  | .enqueued _ | .synthetic _ => true
  | _ => false

/-- May the action write the label for the message? -/
def Action.Writes (i : Input) (g : Bytes) (l : Label) : Action → Prop
  | .submit (.handleSubmit connID _ _) => l = .accepted (.smpp connID)
  | .submit (.acceptREST _ _) => l = .accepted .rest
  | .submit (.offer task _) =>
    g = task.gwMsgID ∧ (l = .queued ∨ l = .overflowed ∨ l.afterFailure = true)
  | .submit .forwardWorker => l = .taken
  | .submit (.forwardSubmitRaw f) =>
    g = f.gwMsgID ∧ (l = .attempted i.attempt ∨ l.afterFailure = true)
  | .submit (.setCorrelation _ gwMsgID _ _) => g = gwMsgID ∧ l = .correlated
  | .submit .drainSubmitRetries => l = .drained
  | .submit (.retrySubmit p) =>
    g = p.gwMsgID ∧ (l = .attempted i.attempt ∨ l.afterFailure = true)
  | _ => False

theorem writes_of_enqueueSubmitRetryOrFail {now : Time} {g' connID d f body : Bytes} {n : ℕ}
    {l' : Label} {g : Bytes} {l : Label}
    (h : .message g l ∈ ((enqueueSubmitRetryOrFail cfg s now g' connID d f body n).after
      [.message g' l']).seen) : g = g' ∧ (l = l' ∨ l.afterFailure = true) := by
  rcases mem_cons.mp h with h | h
  · obtain ⟨rfl, rfl⟩ := Obs.message.inj h
    exact ⟨rfl, .inl rfl⟩
  · unfold enqueueSubmitRetryOrFail at h
    split at h
    · obtain ⟨rfl, rfl⟩ := Obs.message.inj (mem_singleton.mp h)
      exact ⟨rfl, .inr rfl⟩
    · unfold sendSyntheticDLR at h
      split at h
      · obtain ⟨rfl, rfl⟩ := Obs.message.inj (mem_singleton.mp h)
        exact ⟨rfl, .inr rfl⟩
      · rcases mem_cons.mp h with h | h
        · obtain ⟨rfl, rfl⟩ := Obs.message.inj h
          exact ⟨rfl, .inr rfl⟩
        · cases mem_singleton.mp h

/-- **Which action writes which label.** -/
theorem exec_writes {a : Action} (h : exec cfg s i a = some r) {g : Bytes} {l : Label}
    (ho : .message g l ∈ r.seen) : a.Writes i g l := by
  cases a with
  | submit a =>
    cases execSubmit_moves h with
    | accepted =>
      simp only [acceptSubmit] at ho
      rcases mem_cons.mp ho with ho | ho
      · exact (Obs.message.inj ho).2
      · split at ho <;> simp at ho
    | answered => simp at ho
    | acceptedREST | taken => exact (Obs.message.inj (mem_singleton.mp ho)).2
    | queued | sent | resent =>
      obtain ⟨rfl, rfl⟩ := Obs.message.inj (mem_singleton.mp ho)
      exact ⟨rfl, .inl rfl⟩
    | overflowed =>
      obtain ⟨rfl, hl⟩ := writes_of_enqueueSubmitRetryOrFail ho
      exact ⟨rfl, .inr hl⟩
    | unsent | unresent => exact writes_of_enqueueSubmitRetryOrFail ho
    | setCorrelation => exact Obs.message.inj (mem_singleton.mp ho)
    | drained =>
      obtain ⟨p, -, hp⟩ := mem_map.mp ho
      exact (Obs.message.inj hp).2.symm
    | _ => cases ho
  | _ =>
    have hoff := all_eq_true.mp (exec_offSubmit rfl h).seen _ ho
    cases hoff

/-- **Where the gateway gives up on a message**: in `enqueueSubmitRetryOrFail`,
after the label that says why the message could not be sent. -/
theorem exec_synthetic {a : Action} (h : exec cfg s i a = some r) {g connID : Bytes}
    (ho : .message g (.synthetic connID) ∈ r.seen) :
    ∃ now d f body n l, l ≠ .synthetic connID ∧
      r = (enqueueSubmitRetryOrFail cfg s now g connID d f body n).after [.message g l] := by
  -- what the function shows besides its label names its own message
  have hself : ∀ {now : Time} {g' connID' d f body : Bytes} {n : ℕ} {l : Label},
      l ≠ .synthetic connID →
      .message g (.synthetic connID) ∈ ((enqueueSubmitRetryOrFail cfg s now g' connID' d f body n).after
        [.message g' l]).seen → g = g' ∧ connID = connID' := by
    intro now g' connID' d f body n l hl h
    rcases mem_cons.mp h with h | h
    · exact absurd (Obs.message.inj h).2.symm hl
    · unfold enqueueSubmitRetryOrFail at h
      split at h
      · simp at h
      · unfold sendSyntheticDLR at h
        split at h <;> simpa using h
  have hwrites := exec_writes h ho
  cases a with
  | submit a =>
    cases execSubmit_moves h with
    | overflowed | unsent | unresent =>
      obtain ⟨rfl, rfl⟩ := hself (by simp) ho
      exact ⟨_, _, _, _, _, _, by simp, rfl⟩
    | queued | sent | resent => simp at ho
    | _ => simp [Action.Writes] at hwrites
  | _ => exact hwrites.elim

/-- What the sender of a message that is given up gets to know: over REST the
status and the callback, an engine a receipt. -/
def Notified (s : Gateway) (r : GatewayEffect) (g connID d f : Bytes) : Prop :=
  if connID = restApi then
    .record (.setMessageStatus
      { gwMsgID := g, toAddr := d, fromAddr := f, status := .failed, dlrStatus := undeliv }) ∈ r.next ∧
    .record (.deliverDLRCallback g undeliv d f) ∈ r.next
  else
    let it : Item := ⟨.synthetic connID, f, d, 0x04, syntheticReceipt g⟩
    .item s.tickets (.took it) ∈ r.seen ∧
    ∃ j : Job, j.item = s.tickets ∧ j.body = it.body ∧
      .back (.deliverToConn (.direct j) connID) ∈ r.next

/-- In the state `s` no message is given up without notice. -/
def Notifies (cfg : RouterConfig) (s : Gateway) (g : Bytes) : Prop :=
  ∀ i a r connID, exec cfg s i a = some r → .message g (.synthetic connID) ∈ r.seen →
    ∃ d f, Notified s r g connID d f

theorem notifies (cfg : RouterConfig) (s : Gateway) (g : Bytes) : Notifies cfg s g := by
  intro i a r connID h ho
  obtain ⟨now, d, f, body, n, l, hl, rfl⟩ := exec_synthetic h ho
  refine ⟨d, f, ?_⟩
  rcases mem_cons.mp ho with ho | ho
  · exact absurd (Obs.message.inj ho).2.symm hl
  · unfold enqueueSubmitRetryOrFail at ho ⊢
    split
    case isTrue hbudget => simp [hbudget] at ho
    case isFalse =>
      unfold Notified sendSyntheticDLR
      split <;> simp [Effect.after]

/-! ## After the look-up -/

/-- Does the action begin the way of a message north? -/
def ReturnAction.begins : ReturnAction → Bool
  | .handleDeliver .. | .getSubmit .. => true
  | _ => false

/-- Does the observation belong to such an action? -/
def Obs.begins : Obs → Bool
  | .arrived .. | .matched .. | .item _ (.took _) => true
  | _ => false

/-- The SMSC id an action is about to look up in the store. -/
def Action.looksUp : Action → Option Bytes
  | .back (.getSubmit _ r) => some r.parsed.messageID
  | _ => none

/-- What the actions that follow have in common. -/
structure Follows (s : Gateway) (r : GatewayEffect) : Prop where
  server : r.state.server = s.server
  tickets : r.state.tickets = s.tickets
  arrivals : r.state.arrivals = s.arrivals
  next : ∀ b ∈ r.next, b.looksUp = none
  seen : ∀ o ∈ r.seen, o.begins = false

theorem releases_begins (c : Caller) : ∀ o ∈ c.releases, o.begins = false := by
  unfold Caller.releases
  split <;> [split; split; skip] <;> simp [Obs.begins]

theorem failed_looksUp (c : Caller) : ∀ b ∈ c.failed, b.looksUp = none := by
  cases c <;> simp [Caller.failed, Action.looksUp]

theorem acked_looksUp (c : Caller) : ∀ b ∈ c.acked, b.looksUp = none := by
  unfold Caller.acked
  split <;> [split; split; skip] <;> simp [Action.looksUp]

theorem execReturn_follows {a : ReturnAction} (ha : a.begins = false)
    (h : execReturn cfg s i a = some r) : Follows s r := by
  cases execReturn_moves h with
  | unreadable | found | missed | posted | took | stored | unknown => cases ha
  | settle rc corr st =>
    cases st with
    | updateMessageLog =>
      simp only [execSettle]
      split <;> exact ⟨rfl, rfl, rfl, by simp [Action.looksUp], by simp⟩
    | deliverDLRCallback =>
      refine ⟨rfl, rfl, rfl, fun b hb => ?_, by simp [execSettle]⟩
      obtain ⟨b, rfl, -⟩ := callbackActions_record _ _ _ _ _ b hb
      rfl
    | _ => exact ⟨rfl, rfl, rfl, by simp [execSettle], by simp [execSettle]⟩
  | absent c | unwritten c | unacked c => exact ⟨rfl, rfl, rfl, failed_looksUp c, by simp⟩
  | acked c =>
    refine ⟨rfl, rfl, rfl, acked_looksUp c, fun o ho => ?_⟩
    rcases mem_cons.mp ho with rfl | ho
    · rfl
    · exact releases_begins c o ho
  | drained =>
    refine ⟨rfl, rfl, rfl, fun b hb => ?_, fun o ho => ?_⟩
    · obtain ⟨e, -, rfl⟩ := mem_map.mp hb
      rfl
    · simp only [mem_append, mem_cons, not_mem_nil, or_false, mem_map] at ho
      rcases ho with (rfl | rfl) | ⟨e, -, rfl⟩
      · rfl
      · rfl
      · split <;> rfl
  | _ => exact ⟨rfl, rfl, rfl, by simp [Action.looksUp], by simp [Obs.begins]⟩

/-! ## Matched receipts -/

/-- **Where a receipt is matched**: in `handleDeliver` when the memory knows
its id, otherwise in the look-up of the store. -/
theorem exec_matched {a : Action} (h : exec cfg s i a = some r) {n : ℕ} {m : Match}
    (hm : .matched n m ∈ r.seen) :
    (∃ pool src dst esm payload parsed corr,
      a = .back (.handleDeliver pool src dst esm payload) ∧ n = s.arrivals ∧
      Smpp.parseDLRReceipt payload = some parsed ∧
      s.smscCorrelation.find? parsed.messageID = some corr ∧
      r = (routeReceipt { s with arrivals := s.arrivals + 1 } n
        ⟨pool, src, dst, esm, payload, parsed⟩ corr).after [.arrived n pool parsed.messageID]) ∨
    (∃ rc rec, a = .back (.getSubmit n rc) ∧
      s.store.submits.getSubmit rc.parsed.messageID = some rec ∧
      r = routeReceipt s n rc ⟨rec.gwMsgID, rec.northConnID, rec.msisdn, 0⟩) ∨
    (∃ rc, a = .back (.getSubmit n rc) ∧
      s.store.submits.getSubmit rc.parsed.messageID = none ∧ m = .unknown ∧
      r = { state := s, seen := [.matched n .unknown] }) := by
  have hroute : ∀ {s : Gateway} {n' : ℕ} {rc : Receipt} {corr : Correlation},
      .matched n m ∈ (routeReceipt s n' rc corr).seen → n = n' := by
    intro s n' rc corr h
    unfold routeReceipt at h
    split at h <;> simp at h <;> exact h.1
  cases a with
  | submit a => rcases execSubmit_seen h hm with h | ⟨k, it, h⟩ <;> cases h
  | record a =>
    obtain ⟨url, payload, h⟩ := (execRecord_frame h).seen _ hm
    cases h
  | serve a =>
    rw [(execServe_frame h).2.2] at hm
    cases hm
  | back a =>
    cases hmoves : a.begins with
    | false => cases (execReturn_follows hmoves h).seen _ hm
    | true =>
      cases execReturn_moves h with
      | found rc corr hesm hparse hfind =>
        rcases mem_cons.mp hm with hm | hm
        · cases hm
        · obtain rfl := hroute hm
          exact .inl ⟨_, _, _, _, _, _, corr, rfl, rfl, hparse, hfind, rfl⟩
      | stored n' rc rec hfind =>
        obtain rfl := hroute hm
        exact .inr (.inl ⟨rc, rec, rfl, hfind, rfl⟩)
      | unknown n' rc hfind =>
        obtain ⟨rfl, rfl⟩ := Obs.matched.inj (mem_singleton.mp hm)
        exact .inr (.inr ⟨rc, rfl, hfind, rfl, rfl⟩)
      | unreadable | missed | posted | took => simp at hm
      | _ => cases hmoves

/-- An observation off the submit side, read by a function that only
answers on it. -/
theorem OffSubmit.seen_filterMap {β : Type} {f : Obs → Option β} (h : OffSubmit s r)
    (hf : ∀ o, o.onSubmit = false → f o = none) : r.seen.filterMap f = [] :=
  filterMap_eq_nil_iff.mpr fun o ho => hf o (by simpa using all_eq_true.mp h.seen o ho)

theorem OffSubmit.next_filterMap {β : Type} {f : Action → Option β} (h : OffSubmit s r)
    (hf : ∀ a, a.onSubmit = false → f a = none) : r.next.filterMap f = [] :=
  filterMap_eq_nil_iff.mpr fun a ha => hf a (by simpa using all_eq_true.mp h.next a ha)

end Frame

/-- What the branch a receipt took says about its correlation. -/
def Match.Branched : Match → Prop
  | .unknown => True
  | .rest corr => corr.northConnID = restApi
  | .smpp corr _ => corr.northConnID ≠ restApi

theorem branched_of_routeReceipt {s : Gateway} {n n' : ℕ} {rc : Receipt} {corr : Correlation}
    {m : Match} (h : .matched n m ∈ (routeReceipt s n' rc corr).seen) : m.Branched := by
  unfold routeReceipt at h
  split at h
  · rename_i hrest
    obtain ⟨-, rfl⟩ : n = n' ∧ m = .rest corr := by simpa using h
    exact hrest
  · rename_i hrest
    obtain ⟨-, rfl⟩ : n = n' ∧ m = .smpp corr s.tickets := by simpa using h
    exact hrest

/-- **A receipt takes the REST branch when its correlation says so.** -/
theorem reaches_branched {cfg : RouterConfig} {ok : GatewayConf → Event Input Action → Prop}
    {c : GatewayConf} (h : (gateway cfg).Reaches ok GatewayConf.start c) {n : ℕ} {m : Match}
    (hm : .matched n m ∈ c.trace) : m.Branched := by
  refine h.forall_trace (p := fun o => ∀ n m, o = .matched n m → m.Branched) rfl ?_ _ hm n m rfl
  rintro s i a r hr o ho n m rfl
  rcases exec_matched hr ho with ⟨_, _, _, _, _, _, _, -, -, -, -, rfl⟩ | ⟨_, _, -, -, rfl⟩ |
    ⟨_, -, -, rfl, -⟩
  · rcases mem_cons.mp ho with ho | ho
    · cases ho
    · exact branched_of_routeReceipt ho
  · exact branched_of_routeReceipt ho
  · trivial

end SmscGateway
