import SmscGateway.Submit.Pipeline

/-!
# The retry budget

The history of a message is the word of its labels. Counting in the word
shows how often the message was tried and with what result: each phase fixes
these counts (`ledger_of_traced`), since the retry counter that a queue entry
carries is the number of attempts so far, one less when the message never got
into `forwardCh`. The budget of a message (`Budget`) is read off the count in
its last phase.
-/

namespace SmscGateway

open List Bool

namespace Pipeline

/-- What was seen of a message so far. -/
def history (c : GatewayConf) (gwMsgID : Bytes) : List Label :=
  wordOf (c.trace.filterMap labelOf) gwMsgID

/-! ## Counting -/

/-- An attempt to send the message southbound. -/
def isAttempt : Label → Bool
  | .attempted _ => true
  | _ => false

/-- The message is handed to `SubmitRaw`: there was a submitter for it. -/
def isSubmitRaw : Label → Bool
  | .attempted .noSubmitter => false
  | .attempted _ => true
  | _ => false

def isSuccess : Label → Bool
  | .attempted (.accepted ..) => true
  | _ => false

def isSynthetic : Label → Bool
  | .synthetic _ => true
  | _ => false

def attempts (w : List Label) : ℕ := w.countP isAttempt

def submitRaws (w : List Label) : ℕ := w.countP isSubmitRaw

def successes (w : List Label) : ℕ := w.countP isSuccess

def synthetics (w : List Label) : ℕ := w.countP isSynthetic

/-- How often a message may be tried, for `MaxSubmitRetries = M`. -/
def permitted (M : ℤ) (w : List Label) : ℕ :=
  if .overflowed ∈ w then M.toNat else 1 + M.toNat

theorem submitRaws_le_attempts (w : List Label) : submitRaws w ≤ attempts w := by
  refine countP_mono_left fun l _ h => ?_
  cases l with
  | attempted o => rfl
  | _ => cases h

theorem isSuccess_of_failed {o : Attempt} (h : Failed o) : isSuccess (.attempted o) = false := by
  cases o with
  | accepted pool id => exact absurd rfl (h pool id)
  | _ => rfl

/-- One for a message that did not find room in `forwardCh`. -/
def passedOver (w : List Label) : ℕ := if .overflowed ∈ w then 1 else 0

theorem permitted_add_passedOver (M : ℤ) (w : List Label) :
    permitted M w + passedOver w = 1 + M.toNat := by
  unfold permitted passedOver
  split <;> omega

/-- What a phase says about the history: how many attempts there were, how
many of them succeeded, and whether the gateway gave up. -/
def Ledger (M : ℤ) (w : List Label) : Phase → Prop
  | .accepting =>
    attempts w = 0 ∧ passedOver w = 0 ∧ successes w = 0 ∧ synthetics w = 0
  | .queued | .forwarding =>
    attempts w = 0 ∧ passedOver w = 0 ∧ successes w = 0 ∧ synthetics w = 0
  | .failing n =>
    attempts w + passedOver w = n + 1 ∧ n ≤ M.toNat ∧ successes w = 0 ∧ synthetics w = 0
  | .retrying n | .draining n =>
    attempts w + passedOver w = n ∧ n ≤ M.toNat ∧ successes w = 0 ∧ synthetics w = 0
  | .correlating _ | .forwarded =>
    attempts w + passedOver w ≤ 1 + M.toNat ∧ successes w = 1 ∧ synthetics w = 0
  | .failed =>
    attempts w + passedOver w = 1 + M.toNat ∧ successes w = 0 ∧ synthetics w = 1

theorem attempts_append (w : List Label) (l : Label) :
    attempts (w ++ [l]) = attempts w + (isAttempt l).toNat := by
  simp only [attempts, countP_append, countP_singleton]
  cases isAttempt l <;> rfl

theorem successes_append (w : List Label) (l : Label) :
    successes (w ++ [l]) = successes w + (isSuccess l).toNat := by
  simp only [successes, countP_append, countP_singleton]
  cases isSuccess l <;> rfl

theorem synthetics_append (w : List Label) (l : Label) :
    synthetics (w ++ [l]) = synthetics w + (isSynthetic l).toNat := by
  simp only [synthetics, countP_append, countP_singleton]
  cases isSynthetic l <;> rfl

variable {w : List Label} {l : Label} {M : ℤ} {φ : Phase} {cfg : RouterConfig} {c : GatewayConf}
  {g : Bytes}

theorem passedOver_append (h : l ≠ .overflowed) : passedOver (w ++ [l]) = passedOver w := by
  simp [passedOver, h.symm]

theorem passedOver_overflowed (w : List Label) : passedOver (w ++ [.overflowed]) = 1 := by
  simp [passedOver]

/-- A move keeps the books. -/
theorem ledger_next {ψ : Phase} (hw : Ledger M w φ) (hl : Next M φ l ψ) :
    Ledger M (w ++ [l]) ψ := by
  -- only the overflow changes who was passed over
  have hover : l ≠ .overflowed → passedOver (w ++ [l]) = passedOver w := passedOver_append
  cases hl with
  | overflow =>
    simp only [Ledger, attempts_append, successes_append, synthetics_append,
      passedOver_overflowed, isAttempt, isSuccess, isSynthetic, toNat_false] at hw ⊢
    omega
  | forwardFails ho | retryFails ho =>
    have hs := isSuccess_of_failed ho
    simp only [Ledger, attempts_append, successes_append, synthetics_append,
      hover (by simp), hs, isAttempt, isSynthetic, toNat_false, toNat_true] at hw ⊢
    omega
  | enqueue hM hn =>
    simp only [Ledger, attempts_append, successes_append, synthetics_append,
      hover (by simp), isAttempt, isSuccess, isSynthetic, toNat_false] at hw ⊢
    omega
  | giveUp | _ =>
    simp only [Ledger, attempts_append, successes_append, synthetics_append,
      hover (by simp), isAttempt, isSuccess, isSynthetic, toNat_false,
      toNat_true] at hw ⊢
    omega

/-- **The phase of a message says how often it was tried.** -/
theorem ledger_of_traced (h : (rules cfg).Traced w φ) : Ledger cfg.maxSubmitRetries w φ := by
  induction h with
  | enter he =>
    obtain ⟨⟨o, rfl⟩, rfl⟩ := he
    exact ⟨rfl, rfl, rfl, rfl⟩
  | next _ hl ih => exact ledger_next ih hl

/-- Nothing but the correlation follows a success. -/
theorem correlated_of_success (h : (rules cfg).Traced w φ) {w₁ w₂ : List Label} {pool : ℕ}
    {id : Bytes} (hw : w = w₁ ++ .attempted (.accepted pool id) :: w₂) :
    ∀ l ∈ w₂, l = .correlated := by
  induction h generalizing w₂ with
  | enter he =>
    obtain ⟨⟨o, rfl⟩, rfl⟩ := he
    obtain ⟨rfl, h⟩ | ⟨w', rfl, h⟩ := cons_eq_append_iff.mp hw
    · cases h
    · cases w' <;> cases h
  | @next w φ ψ l hprev hl ih =>
    rcases eq_nil_or_concat w₂ with rfl | ⟨w₂', l', rfl⟩
    · simp
    · rw [concat_eq_append, ← cons_append, ← append_assoc] at hw
      obtain ⟨hpast, hlast⟩ := append_inj' hw rfl
      obtain rfl : l = l' := (cons.inj hlast).1
      -- the success is in the past, so the message is in one of its last two phases
      have hsucc : 0 < successes w := by
        rw [hpast, successes, countP_append, countP_cons_of_pos rfl]
        omega
      have hled := ledger_of_traced hprev
      have hcorr : l = .correlated := by
        cases hl <;> simp only [Ledger] at hled <;> first | rfl | omega
      intro x hx
      rcases mem_append.mp (concat_eq_append .. ▸ hx) with hx | hx
      · exact ih hpast x hx
      · rw [mem_singleton.mp hx, hcorr]

/-- A correlation follows a success. -/
theorem success_of_correlated (h : (rules cfg).Traced w φ) (hw : .correlated ∈ w) :
    0 < successes w := by
  induction h with
  | enter he =>
    obtain ⟨⟨o, rfl⟩, -⟩ := he
    cases mem_singleton.mp hw
  | next hprev hl ih =>
    rw [successes_append]
    rcases mem_append.mp hw with hw | hw
    · have := ih hw
      omega
    · obtain rfl := mem_singleton.mp hw
      have hled := ledger_of_traced hprev
      cases hl
      simp only [Ledger] at hled
      omega

theorem correlated_of_forwarded (h : (rules cfg).Traced w .forwarded) : .correlated ∈ w := by
  generalize hφ : Phase.forwarded = φ at h
  cases h with
  | enter he => cases hφ.trans he.2
  | next _ hl =>
    subst hφ
    cases hl
    exact mem_append_right _ (mem_singleton_self _)

theorem mem_history : l ∈ history c g ↔ .message g l ∈ c.trace := by
  rw [history, mem_wordOf]
  constructor
  · intro h
    obtain ⟨o, ho, hlabel⟩ := mem_filterMap.mp h
    unfold labelOf at hlabel
    split at hlabel
    · obtain ⟨rfl, rfl⟩ := Prod.mk.inj (Option.some.inj hlabel)
      exact ho
    · cases hlabel
  · exact fun h => mem_filterMap.mpr ⟨_, h, rfl⟩

/-- What is known of a message that was seen: where it is, and its
history. -/
theorem Inv.phase (hc : Inv cfg c) (h : .message g l ∈ c.trace) :
    ∃ φ, (g, φ) ∈ (track c).tokens ∧ (rules cfg).Traced (history c g) φ := by
  obtain ⟨φ, hφ⟩ := hc.faithful.exists_of_mem_log (mem_wordOf.mp (mem_history.mpr h))
  exact ⟨φ, hφ, hc.faithful.traced g φ hφ⟩

theorem successes_le_one (h : Ledger M w φ) : successes w ≤ 1 := by
  cases φ <;> simp only [Ledger] at h <;> omega

/-- A message is accepted by the SMSC once. -/
theorem success_unique (hc : Inv cfg c) {l' : Label} (h : .message g l ∈ c.trace)
    (h' : .message g l' ∈ c.trace) (hl : isSuccess l = true) (hl' : isSuccess l' = true) :
    l = l' := by
  obtain ⟨φ, hφ, htr⟩ := hc.phase h
  have hle := successes_le_one (ledger_of_traced htr)
  rw [successes, countP_eq_length_filter] at hle
  have hx : l ∈ (history c g).filter isSuccess := mem_filter.mpr ⟨mem_history.mpr h, hl⟩
  have hx' : l' ∈ (history c g).filter isSuccess := mem_filter.mpr ⟨mem_history.mpr h', hl'⟩
  obtain ⟨x, hfilter⟩ := length_eq_one_iff.mp (le_antisymm hle (length_pos_of_mem hx))
  rw [hfilter] at hx hx'
  rw [mem_singleton.mp hx, mem_singleton.mp hx']

/-- A message the SMSC has accepted is forwarded, or its correlation is about to
be recorded. -/
theorem phase_of_success (hc : Inv cfg c) (h : .message g l ∈ c.trace) (hl : isSuccess l = true)
    (hφ : (g, φ) ∈ (track c).tokens) : φ = .forwarded ∨ ∃ holder, φ = .correlating holder := by
  have hsucc : 0 < successes (history c g) := countP_pos_iff.mpr ⟨l, mem_history.mpr h, hl⟩
  have hled : Ledger cfg.maxSubmitRetries (history c g) φ :=
    ledger_of_traced (hc.faithful.traced g φ hφ)
  cases φ <;> simp only [Ledger] at hled <;> first | omega | simp

/-! ## The budget -/

/-- What the gateway may do with one message, for `MaxSubmitRetries = M`. -/
structure Budget (M : ℤ) (w : List Label) : Prop where
  /-- Once for the queue and `max M 0` times for the retries. -/
  queued : .queued ∈ w → submitRaws w ≤ 1 + M.toNat
  overflowed : .overflowed ∈ w → submitRaws w ≤ M.toNat
  offered : .queued ∉ w → .overflowed ∉ w → attempts w = 0
  synthetic_once : synthetics w ≤ 1
  /-- The gateway gives up when all it may do was done in vain. -/
  synthetic_iff : synthetics w = 1 ↔ attempts w = permitted M w ∧ successes w = 0
  /-- A message that went through is left alone. -/
  settled : ∀ w₁ w₂ pool id, w = w₁ ++ .attempted (.accepted pool id) :: w₂ →
    attempts w₂ = 0 ∧ synthetics w₂ = 0

/-- A message that was offered is in the queue or was passed over. -/
theorem offered_of_traced (h : (rules cfg).Traced w φ) :
    φ = .accepting ∨ .queued ∈ w ∨ .overflowed ∈ w := by
  induction h with
  | enter he => exact .inl he.2
  | next _ hl ih =>
    refine .inr ?_
    rcases ih with rfl | hq | ho
    · cases hl with
      | queue => exact .inl (mem_append_right _ (mem_singleton_self _))
      | overflow => exact .inr (mem_append_right _ (mem_singleton_self _))
    · exact .inl (mem_append_left _ hq)
    · exact .inr (mem_append_left _ ho)

/-- In no phase is a message over its budget. -/
theorem Ledger.le (h : Ledger M w φ) :
    attempts w + passedOver w ≤ 1 + M.toNat ∧ synthetics w ≤ 1 := by
  cases φ <;> simp only [Ledger] at h <;> omega

/-- The gateway has given up on a message when its budget is used up. -/
theorem Ledger.synthetics_eq_one_iff (h : Ledger M w φ) (hφ : ∀ n, φ ≠ .failing n) :
    synthetics w = 1 ↔ attempts w + passedOver w = 1 + M.toNat ∧ successes w = 0 := by
  cases φ with
  | failing n => exact absurd rfl (hφ n)
  | _ => simp only [Ledger] at h; omega

theorem budget_of_traced (h : (rules cfg).Traced w φ) (hφ : ∀ n, φ ≠ .failing n) :
    Budget cfg.maxSubmitRetries w := by
  have hled := ledger_of_traced h
  have hraw := submitRaws_le_attempts w
  have hperm := permitted_add_passedOver cfg.maxSubmitRetries w
  obtain ⟨hle, hone⟩ := hled.le
  refine ⟨fun _ => by omega, fun hover => ?_, fun hq ho => ?_, hone, ?_, ?_⟩
  · have : passedOver w = 1 := if_pos hover
    omega
  · obtain rfl : φ = .accepting := by
      rcases offered_of_traced h with h | h | h
      · exact h
      · exact absurd h hq
      · exact absurd h ho
    exact hled.1
  · rw [hled.synthetics_eq_one_iff hφ]
    omega
  · intro w₁ w₂ pool id hw
    have hcorr := correlated_of_success h hw
    refine ⟨countP_eq_zero.mpr fun l hl => ?_, countP_eq_zero.mpr fun l hl => ?_⟩
    · rw [hcorr l hl]
      exact false_ne_true
    · rw [hcorr l hl]
      exact false_ne_true

theorem budget_nil (M : ℤ) : Budget M [] := by
  refine ⟨nofun, nofun, fun _ _ => rfl, Nat.zero_le 1, ?_, ?_⟩
  · simp [synthetics, attempts, permitted]
    omega
  · intro w₁ w₂ pool id h
    cases w₁ <;> cases h

/-- Between two steps no message is about to be queued or given up: that
happens within the step that tried it. -/
theorem phase_ne_failing (h : (g, φ) ∈ (track c).tokens) (n : ℕ) : φ ≠ .failing n := by
  rintro rfl
  rcases mem_tokens_iff.mp h with ⟨t, -, -, hφ⟩ | ⟨p, -, -, hφ⟩ | ⟨a, -, ha⟩ | ⟨o, -, ho⟩
  · cases hφ
  · cases hφ
  · unfold holds at ha
    split at ha <;> cases ha
  · unfold ends at ho
    split at ho <;> cases ho

/-- **Retry budget and failure notification.** Whatever the outcomes of its
attempts and however the drain passes fall, a message is tried at most as
often as `MaxSubmitRetries` allows, and exactly the messages for which all
of that failed get a synthetic receipt, once. With its label goes what the sender
is told. -/
theorem reaches_budget (cfg : RouterConfig) {c : GatewayConf}
    (h : (gateway cfg).Reaches Program.Anything GatewayConf.start c) (gwMsgID : Bytes) :
    Budget cfg.maxSubmitRetries (history c gwMsgID) ∧ Notifies cfg c.shared gwMsgID := by
  have hinv := reaches_inv h
  refine ⟨?_, notifies cfg c.shared gwMsgID⟩
  by_cases htok : ∃ φ, (gwMsgID, φ) ∈ (track c).tokens
  · obtain ⟨φ, hφ⟩ := htok
    exact budget_of_traced (hinv.faithful.traced gwMsgID φ hφ) (phase_ne_failing hφ)
  · have hsilent := hinv.faithful.silent gwMsgID fun φ hφ => htok ⟨φ, hφ⟩
    have hnil : history c gwMsgID = [] := hsilent
    rw [hnil]
    exact budget_nil _

/-- One retry is allowed, both attempts fail, and the gateway gives up. -/
theorem givenUp_within_budget :
    ∃ c, (gateway { maxSubmitRetries := 1 }).Reaches Program.Anything GatewayConf.start c ∧
      history c (gwMsgIDOf 1) =
        [.accepted (.smpp engineID), .queued, .taken, .attempted .transportError, .enqueued 1,
          .drained, .attempted .noSubmitter, .synthetic engineID] ∧
      .item 0 (.took ⟨.synthetic engineID, ascii "100", ascii "200", 0x04,
        syntheticReceipt (gwMsgIDOf 1)⟩) ∈ c.trace ∧
      Budget 1 (history c (gwMsgIDOf 1)) := by
  exact Program.exists_reached (engineSubmits ++ goroutine 3 (.submit .forwardWorker) [{}, {}] ++
    goroutine 4 (.submit .drainSubmitRetries) [{}, { attempt := .noSubmitter }]) (by decide) fun
    hreach => ⟨by decide, by decide, (reaches_budget _ hreach _).1⟩

end Pipeline

end SmscGateway
