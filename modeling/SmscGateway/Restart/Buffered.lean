import SmscGateway.Restart.Crash
import SmscGateway.Return.Conservation

/-!
# What a crash leaves of a buffered delivery

When `HandleDeliver` has returned, a message that no engine acknowledged is in
the retry queue, which is on disk. A drain pass takes entries off the queue
before it tries them, and puts back those that fail: in between, for as long as
the engines before it in the pass take to answer, an entry is only in memory.
`buffered_survives_iff` says that this is the one place a crash can find a
message in, as long as no entry overwrites another.
-/

namespace SmscGateway

namespace Restart

open ReturnPath Multiset

/-- Which message a pending action holds, and on whose behalf. -/
def heldAt (a : Action) : Option (ℕ × Place) := (holds a).map fun x => (x.1, x.2.place)

/-- The handler that took a message on has returned. -/
def Returned (c : GatewayConf) (k : ℕ) : Prop := (k, .handler) ∉ c.actions.filterMap heldAt
  deriving Decidable

/-- A drain pass has taken the message off the queue and not yet put it back. -/
def InDrainPass (c : GatewayConf) (k : ℕ) : Prop := (k, .drainPass) ∈ c.actions.filterMap heldAt
  deriving Decidable

/-- The message is in the retry queue. -/
def Buffered (s : Gateway) (k : ℕ) : Prop := ∃ e ∈ s.store.retries.values, e.item = k
  deriving Decidable

/-- What an observation says about the age of a message at time `now`: it was
buffered less than the maximal age ago, and no drain pass is ahead of `now`. -/
def YoungAt (cfg : RouterConfig) (k : ℕ) (now : Time) : Obs → Prop
  | .item n (.buffered t) => n = k → (now : ℤ) - t < cfg.maxRetryAge
  | .item n (.expired t) => n = k → t ≤ now
  | _ => True

instance (cfg : RouterConfig) (k : ℕ) (now : Time) : DecidablePred (YoungAt cfg k now)
  | .item n (.buffered t) => inferInstanceAs (Decidable (n = k → (now : ℤ) - t < cfg.maxRetryAge))
  | .item n (.expired t) => inferInstanceAs (Decidable (n = k → t ≤ now))
  | .item _ (.took _) | .item _ .delivered | .item _ .drained | .item _ .requeued
  | .message .. | .answered _ | .wrote .. | .arrived .. | .matched .. | .released _ | .read _
  | .postedDLR .. | .postedMO .. => .isTrue trivial

/-- At time `now` the message is younger than the maximal age. -/
def Young (cfg : RouterConfig) (c : GatewayConf) (k : ℕ) (now : Time) : Prop :=
  ∀ o ∈ c.trace, YoungAt cfg k now o
  deriving Decidable

/-- No entry of the retry queue is overwritten by another. -/
def NoOverwrite (c : GatewayConf) (i : Input) (a : Action) : Prop := Free c.shared i a
  deriving Decidable

variable {cfg : RouterConfig} {c : GatewayConf} {k : ℕ}

/-- **Where a message on the return path is**: in the queue, in the hands of a
goroutine, or at its end. -/
theorem mem_returnTokens_iff {φ : ReturnPath.Phase} :
    (k, φ) ∈ (ReturnPath.track c).tokens ↔
      (∃ e ∈ c.shared.store.retries.values, e.item = k ∧ .stored e.pending.enqueuedAt = φ) ∨
      (∃ a ∈ c.actions, ReturnPath.holds a = some (k, φ)) ∨
      ∃ o ∈ c.trace, ReturnPath.ends o = some (k, φ) := by
  have hstored : (k, φ) ∈ ReturnPath.stored c.shared ↔
      ∃ e ∈ c.shared.store.retries.values, e.item = k ∧ .stored e.pending.enqueuedAt = φ := by
    simp only [ReturnPath.stored, entryToken, mem_coe, List.mem_map, Prod.mk.injEq]
  have htok : (ReturnPath.track c).tokens = ReturnPath.stored c.shared +
      c.actions.filterMap ReturnPath.holds + (c.trace.filterMap ReturnPath.ends : List _) := rfl
  rw [htok, mem_add, mem_add, hstored, mem_filterMap, mem_coe,
    List.mem_filterMap, or_assoc]

/-- The phase of a stored message is `stored`, and of no other. -/
theorem buffered_iff {c : GatewayConf} :
    Buffered c.shared k ↔ ∃ t, (k, .stored t) ∈ (ReturnPath.track c).tokens := by
  constructor
  · rintro ⟨e, he, hk⟩
    exact ⟨_, mem_returnTokens_iff.mpr (Or.inl ⟨e, he, hk, rfl⟩)⟩
  · rintro ⟨t, ht⟩
    rcases mem_returnTokens_iff.mp ht with ⟨e, he, hk, -⟩ | ⟨a, -, ha⟩ | ⟨o, -, ho⟩
    · exact ⟨e, he, hk⟩
    · unfold ReturnPath.holds callerToken at ha
      split at ha <;> (try split at ha) <;> cases ha
    · unfold ReturnPath.ends at ho
      split at ho <;> cases ho

/-- A message that is held in a place is held in a phase of the place. -/
theorem mem_heldAt_iff {p : Place} :
    (k, p) ∈ c.actions.filterMap heldAt ↔
      ∃ a ∈ c.actions, ∃ φ, holds a = some (k, φ) ∧ φ.place = p := by
  rw [mem_filterMap]
  refine exists_congr fun a => and_congr_right fun _ => ?_
  rw [heldAt, Option.map_eq_some_iff]
  constructor
  · rintro ⟨⟨n, φ⟩, hφ, heq⟩
    obtain ⟨rfl, rfl⟩ := Prod.mk.inj heq
    exact ⟨φ, hφ, rfl⟩
  · rintro ⟨φ, hφ, rfl⟩
    exact ⟨(k, φ), hφ, rfl⟩

theorem inDrainPass_iff :
    InDrainPass c k ↔ ∃ t, (k, .draining t) ∈ (ReturnPath.track c).tokens := by
  constructor
  · intro hpass
    obtain ⟨a, ha, φ, hφ, hp⟩ := mem_heldAt_iff.mp hpass
    cases φ with
    | draining t => exact ⟨t, mem_returnTokens_iff.mpr (Or.inr (Or.inl ⟨a, ha, hφ⟩))⟩
    | _ => cases hp
  · rintro ⟨t, ht⟩
    rcases mem_returnTokens_iff.mp ht with ⟨e, -, -, he⟩ | ⟨a, ha, hholds⟩ | ⟨o, -, ho⟩
    · cases he
    · exact mem_heldAt_iff.mpr ⟨a, ha, _, hholds, rfl⟩
    · unfold ReturnPath.ends at ho
      split at ho <;> cases ho

/-- A message younger than the maximal age has not expired. -/
theorem Young.not_expired (hinv : ReturnPath.Inv cfg c) {now : Time} (h : Young cfg c k now) :
    (k, .expired) ∉ (ReturnPath.track c).tokens := by
  intro htok
  have hword : (rules cfg).Traced (history c k) .expired := hinv.faithful.traced k _ htok
  obtain ⟨past, t, enqueuedAt, heq, hbuf, hold⟩ := history_of_expired hword
  have hmem : ∀ l ∈ past ++ [.expired t], .item k l ∈ c.trace := by
    intro l hl
    rw [← heq, history, mem_wordOf] at hl
    obtain ⟨o, ho, hlab⟩ := List.mem_filterMap.mp hl
    unfold ReturnPath.labelOf at hlab
    split at hlab
    · obtain ⟨rfl, rfl⟩ := Prod.mk.inj (Option.some.inj hlab)
      exact ho
    · cases hlab
  have hbuffered := (hbuf enqueuedAt).mpr rfl
  have hlast : .expired t ∈ past ++ [ItemLabel.expired t] := by simp
  have hle : t ≤ now := h (.item k (.expired t)) (hmem _ hlast) rfl
  have hage : (now : ℤ) - enqueuedAt < cfg.maxRetryAge :=
    h (.item k (.buffered enqueuedAt)) (hmem _ (List.mem_append_left _ hbuffered)) rfl
  have hle' : (t : ℤ) ≤ now := by exact_mod_cast hle
  omega

/-- **Buffered deliveries survive a crash outside a drain pass.** In every state of
every run in which no entry is overwritten: a message whose handler has returned,
which no engine acknowledged and which is younger than the maximal age is in the
retry queue after a crash and the restart exactly when no drain pass holds it. -/
theorem buffered_survives_iff (cfg : RouterConfig) {c : GatewayConf}
    (h : (gateway cfg).Reaches (Program.When NoOverwrite) GatewayConf.start c) {k : ℕ} {it : Item}
    (htook : .item k (.took it) ∈ c.trace) (hreturned : Returned c k)
    (hopen : .item k .delivered ∉ c.trace) {now : Time} (hyoung : Young cfg c k now) :
    Buffered c.shared.restart k ↔ ¬InDrainPass c k := by
  have hinv : ReturnPath.Inv cfg c := reaches_inv_of_free h
  have hdisk : Buffered c.shared.restart k ↔ Buffered c.shared k := Iff.rfl
  rw [hdisk, buffered_iff, inDrainPass_iff]
  constructor
  · rintro ⟨t, ht⟩ ⟨t', ht'⟩
    cases hinv.faithful.phase_unique ht ht'
  · intro hpass
    obtain ⟨φ, hφ⟩ := hinv.faithful.exists_of_mem_log
      (List.mem_filterMap.mpr ⟨_, htook, rfl⟩ : (k, ItemLabel.took it) ∈ (ReturnPath.track c).log)
    cases φ with
    | held =>
      rcases mem_returnTokens_iff.mp hφ with ⟨e, -, -, he⟩ | ⟨a, ha, hholds⟩ | ⟨o, -, ho⟩
      · cases he
      · exact absurd (mem_heldAt_iff.mpr ⟨a, ha, _, hholds, rfl⟩) hreturned
      · unfold ReturnPath.ends at ho
        split at ho <;> cases ho
    | done =>
      rcases mem_returnTokens_iff.mp hφ with ⟨e, -, -, he⟩ | ⟨a, -, ha⟩ | ⟨o, hmem, ho⟩
      · cases he
      · unfold ReturnPath.holds callerToken at ha
        split at ha <;> (try split at ha) <;> cases ha
      · unfold ReturnPath.ends at ho
        split at ho <;> cases ho
        exact absurd hmem hopen
    | stored t => exact ⟨t, hφ⟩
    | draining t => exact absurd ⟨t, hφ⟩ hpass
    | expired => exact absurd hφ (hyoung.not_expired hinv)

/-- The receipt that found nobody. -/
def waitingReceipt : Item :=
  ⟨.receipt engineID, ascii "200", ascii "100", 0x04, ascii "id:GW-1 stat:DELIVRD"⟩

/-- It waits in the retry queue, also after a crash. -/
theorem waiting_receipt_survives :
    ∃ c, (gateway .loadConfig).Reaches (Program.When NoOverwrite) GatewayConf.start c ∧
      .item 0 (.took waitingReceipt) ∈ c.trace ∧ Returned c 0 ∧ .item 0 .delivered ∉ c.trace ∧
      Young .loadConfig c 0 10 ∧ Buffered c.shared.restart 0 := by
  exact Program.exists_reached receiptFindsNobody (by decide) fun h => ⟨by decide, by decide,
    by decide, by decide, (buffered_survives_iff _ h
      (by decide : Obs.item 0 (.took waitingReceipt) ∈ _) (by decide) (by decide)
      (by decide : Young _ _ _ 10)).mpr (by decide)⟩

/-- **A crash in a drain pass loses what the pass has taken**: the receipt was
acknowledged to the SMSC and is five nanoseconds old, no engine has it, and it is not
on disk. -/
theorem drained_receipt_is_lost :
    ∃ c, (gateway .loadConfig).Reaches (Program.When NoOverwrite) GatewayConf.start c ∧
      .item 0 (.took waitingReceipt) ∈ c.trace ∧ Returned c 0 ∧ .item 0 .delivered ∉ c.trace ∧
      Young .loadConfig c 0 10 ∧ ¬Buffered c.shared.restart 0 := by
  exact Program.exists_reached (receiptFindsNobody ++ goroutine 6 (.back .drainRetries)
    [{ now := 9, later := 10 }]) (by decide) fun _ => ⟨by decide, by decide, by decide, by decide,
    by decide⟩

end Restart

end SmscGateway
