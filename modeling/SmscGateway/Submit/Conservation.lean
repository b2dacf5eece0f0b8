import SmscGateway.Submit.Budget

/-!
# No acknowledged message is lost or doubled

A message that was answered is in exactly one place. The places of a message
are the phases of its tokens (`places`); that there is one token is the
faithfulness of the pipeline, and that there is a token at all is because an
answer only goes out for an accepted message (`reaches_answers`).
-/

namespace SmscGateway

open List

namespace Pipeline

/-- The places a message can be in. -/
inductive Place
  /-- Still being accepted by its handler. -/
  | handler
  | forwardCh
  /-- Held by a forward worker. -/
  | worker
  /-- An entry of the submit-retry queue. -/
  | retryQueue
  /-- Held by a drain pass. -/
  | drainPass
  /-- The correlation of an SMSC id was recorded for it. -/
  | forwarded
  /-- Finished by a synthetic receipt. -/
  | finished
  deriving DecidableEq

/-- The place a phase stands for; a message is `failing` only within a
step. -/
def Phase.place : Phase → Option Place
  | .accepting => some .handler
  | .queued => some .forwardCh
  | .forwarding | .correlating .worker => some .worker
  | .failing _ => none
  | .retrying _ => some .retryQueue
  | .draining _ | .correlating .drainPass => some .drainPass
  | .forwarded => some .forwarded
  | .failed => some .finished

/-- Every place a message is in, as often as it is there. -/
def places (c : GatewayConf) (gwMsgID : Bytes) : Multiset Place :=
  ((track c).tokens.filter fun t => t.1 = gwMsgID).filterMap fun t => t.2.place

/-! ## Answers -/

/-- The message an observation answers. -/
def answerOf : Obs → Option Bytes
  | .answered gwMsgID => some gwMsgID
  | _ => none

/-- The messages an action is going to answer. -/
def awaits : Action → List Bytes
  | .submit (.acceptREST _ ids) => ids
  | _ => []

/-- What is answered, or is going to be. -/
def Answers (c : GatewayConf) (gwMsgID : Bytes) : Prop :=
  .answered gwMsgID ∈ c.trace ∨ ∃ a ∈ c.actions, gwMsgID ∈ awaits a

/-- The message was accepted. -/
def Accepted (seen : List Obs) (gwMsgID : Bytes) : Prop :=
  ∃ o, .message gwMsgID (.accepted o) ∈ seen

section Exec

variable {cfg : RouterConfig} {s : Gateway} {i : Input} {r : GatewayEffect}

/-- The answers an effect gives or announces. -/
def effectAnswers (r : GatewayEffect) : List Bytes :=
  r.seen.filterMap answerOf ++ r.next.flatMap awaits

theorem effectAnswers_of_offSubmit (h : OffSubmit s r) : effectAnswers r = [] := by
  have hseen : r.seen.filterMap answerOf = [] :=
    h.seen_filterMap fun o ho => by cases o <;> first | rfl | cases ho
  have hnext : r.next.flatMap awaits = [] := by
    refine flatMap_eq_nil_iff.mpr fun a ha => ?_
    have hoff := all_eq_true.mp h.next a ha
    cases a <;> first | rfl | cases hoff
  rw [effectAnswers, hseen, hnext, append_nil]

theorem effectAnswers_enqueueSubmitRetryOrFail (now : Time) (g connID d f body : Bytes) (n : ℕ)
    (l : Label) :
    effectAnswers ((enqueueSubmitRetryOrFail cfg s now g connID d f body n).after
      [.message g l]) = [] := by
  unfold enqueueSubmitRetryOrFail
  split
  · rfl
  · unfold sendSyntheticDLR
    split <;> rfl

theorem awaits_recordForwarded (f : Forward) (id : Bytes) (t : Time) :
    (recordForwarded f id t).flatMap awaits = [] := by
  unfold recordForwarded
  split <;> rfl

/-- An answer is for a message accepted just now, or one the action was
waiting to answer. -/
theorem execSubmit_answers {a : SubmitAction} (h : execSubmit cfg s i a = some r) {g : Bytes}
    (hg : g ∈ effectAnswers r) : g ∈ awaits (.submit a) ∨ Accepted r.seen g := by
  cases execSubmit_moves h with
  | accepted connID =>
    refine .inr ⟨.smpp connID, ?_⟩
    have hid : g = gwMsgIDOf (s.msgSeq + 1) := by
      by_cases hconn : (s.server.getConnection connID).isSome
      · simpa [effectAnswers, acceptSubmit, hconn, answerOf, awaits, eq_comm] using hg
      · simp [effectAnswers, acceptSubmit, hconn, answerOf, awaits] at hg
    rw [hid]
    exact mem_cons_self
  | answered =>
    refine .inl ?_
    simpa [effectAnswers, answerOf, awaits] using hg
  | acceptedREST m rest ids =>
    have hids : g ∈ ids ++ [gwMsgIDOf (s.msgSeq + 1)] := by
      unfold effectAnswers acceptRESTMessage at hg
      split at hg <;> simpa [answerOf, awaits] using hg
    rcases mem_append.mp hids with hg | hg
    · exact .inl hg
    · rw [mem_singleton.mp hg]
      exact .inr ⟨.rest, mem_cons_self⟩
  | overflowed | unsent | unresent =>
    rw [effectAnswers_enqueueSubmitRetryOrFail] at hg
    cases hg
  | getCorrelation | drained | resent =>
    simp [effectAnswers, answerOf, awaits, awaits_recordForwarded] at hg
  | _ => cases hg

theorem exec_answers {a : Action} (h : exec cfg s i a = some r) {g : Bytes}
    (hg : g ∈ effectAnswers r) : g ∈ awaits a ∨ Accepted r.seen g := by
  cases hside : a.onSubmit with
  | true =>
    cases a with
    | submit a => exact execSubmit_answers h hg
    | _ => cases hside
  | false =>
    rw [effectAnswers_of_offSubmit (exec_offSubmit hside h)] at hg
    cases hg

end Exec

theorem awaits_of_entry {a : Action} (h : entry a = true) : awaits a = [] := by
  unfold entry at h
  split at h <;> first | rfl | cases h

variable {cfg : RouterConfig} {φ : Phase}

/-- **Only accepted messages are answered.** -/
theorem reaches_answers {ok : GatewayConf → Event Input Action → Prop} {c : GatewayConf}
    (h : (gateway cfg).Reaches ok GatewayConf.start c) : ∀ g, Answers c g → Accepted c.trace g := by
  refine h.invariant (I := fun c => ∀ g, Answers c g → Accepted c.trace g) ?_ ?_
  · rintro g (hg | ⟨a, ha, -⟩)
    · cases hg
    · cases ha
  · intro c e c' hc _ hstep g hg
    have hkeep : Answers c g → Accepted c'.trace g := fun h => by
      obtain ⟨o, ho⟩ := hc g h
      exact ⟨o, (Program.trace_of_step hstep).subset ho⟩
    rcases Program.step_cases hstep with ⟨a, -, hst⟩ | ⟨j, input, a, r, rest, -, hran⟩
    · refine hkeep ?_
      rcases hg with hg | ⟨b, hb, hgb⟩
      · exact .inl (hst.trace ▸ hg)
      · rcases hst.cases hb with rfl | hb
        · -- an entry action answers nothing yet
          rw [awaits_of_entry hst.entry] at hgb
          cases hgb
        · exact .inr ⟨b, hb, hgb⟩
    · have hnew : g ∈ effectAnswers r → Accepted c'.trace g := fun h => by
        rcases exec_answers hran.exec h with h | ⟨o, ho⟩
        · exact hkeep (.inr ⟨a, hran.mem, h⟩)
        · exact ⟨o, hran.trace ▸ mem_append_right _ ho⟩
      rcases hg with hg | ⟨b, hb, hgb⟩
      · rw [hran.trace] at hg
        rcases mem_append.mp hg with hg | hg
        · exact hkeep (.inl hg)
        · exact hnew (mem_append_left _ (mem_filterMap.mpr ⟨_, hg, rfl⟩))
      · rcases hran.cases hb with hb | hb
        · exact hnew (mem_append_right _ (mem_flatMap.mpr ⟨b, hb, hgb⟩))
        · exact hkeep (.inr ⟨b, hran.pending hb, hgb⟩)

/-! ## One place -/

/-- A message with a token is in the place of its phase and nowhere else. -/
theorem places_of_mem {c : GatewayConf} (hc : Inv cfg c) {g : Bytes}
    (hφ : (g, φ) ∈ (track c).tokens) : ∃ p, φ.place = some p ∧ places c g = {p} := by
  obtain ⟨p, hp⟩ : ∃ p, φ.place = some p := by
    cases φ with
    | failing n => exact absurd rfl (phase_ne_failing hφ n)
    | correlating h => cases h <;> exact ⟨_, rfl⟩
    | _ => exact ⟨_, rfl⟩
  refine ⟨p, hp, ?_⟩
  rw [places, hc.faithful.filter_eq_singleton hφ, ← Multiset.cons_zero]
  exact Multiset.filterMap_cons_some (fun t : Bytes × Phase => t.2.place) (g, φ) 0 hp

/-- A message is forwarded right after its only success. -/
theorem history_of_forwarded {w : List Label} (h : (rules cfg).Traced w .forwarded) :
    ∃ past pool id, w = past ++ [.attempted (.accepted pool id), .correlated] ∧
      successes past = 0 ∧ synthetics past = 0 := by
  generalize hφ : Phase.forwarded = φ at h
  cases h with
  | enter he => cases hφ.trans he.2
  | next hprev hl =>
    subst hφ
    cases hl
    cases hprev with
    | enter he => cases he.2
    | next hpast hl =>
      have hled := ledger_of_traced hpast
      cases hl with
      | forward => exact ⟨_, _, _, append_assoc .., hled.2.2.1, hled.2.2.2⟩
      | retry => exact ⟨_, _, _, append_assoc .., hled.2.2.1, hled.2.2.2⟩

/-- A message is finished by the only synthetic receipt, never having gone
through. -/
theorem history_of_failed {w : List Label} (h : (rules cfg).Traced w .failed) :
    ∃ past connID, w = past ++ [.synthetic connID] ∧ successes past = 0 ∧
      synthetics past = 0 := by
  generalize hφ : Phase.failed = φ at h
  cases h with
  | enter he => cases hφ.trans he.2
  | next hpast hl =>
    subst hφ
    have hled := ledger_of_traced hpast
    cases hl
    exact ⟨_, _, rfl, hled.2.2.1, hled.2.2.2⟩

theorem phase_of_forwarded (h : φ.place = some .forwarded) : φ = .forwarded := by
  unfold Phase.place at h
  split at h <;> first | rfl | cases h

theorem phase_of_finished (h : φ.place = some .finished) : φ = .failed := by
  unfold Phase.place at h
  split at h <;> first | rfl | cases h

/-- **Submit-pipeline conservation.** In every state of every run, a message
that was answered with `StatusOK` or HTTP 202 is in exactly one place. Where
it is forwarded, the correlation was recorded once, after the only successful
response; where it is finished, the synthetic receipt was the only one and no
response was a success. With the label of the receipt goes what the sender is told. -/
theorem answered_in_one_place (cfg : RouterConfig) {c : GatewayConf}
    (h : (gateway cfg).Reaches Program.Anything GatewayConf.start c) {gwMsgID : Bytes}
    (hans : .answered gwMsgID ∈ c.trace) :
    ∃ p, places c gwMsgID = {p} ∧
      (p = .forwarded → ∃ past pool id,
        history c gwMsgID = past ++ [.attempted (.accepted pool id), .correlated] ∧
        successes past = 0 ∧ synthetics past = 0) ∧
      (p = .finished → ∃ past connID, history c gwMsgID = past ++ [.synthetic connID] ∧
        successes past = 0 ∧ synthetics past = 0) ∧
      Notifies cfg c.shared gwMsgID := by
  have hinv := reaches_inv h
  obtain ⟨o, ho⟩ := reaches_answers h gwMsgID (.inl hans)
  obtain ⟨φ, hφ⟩ := hinv.faithful.exists_of_mem_log
    (mem_filterMap.mpr ⟨_, ho, rfl⟩ : (gwMsgID, Label.accepted o) ∈ (track c).log)
  obtain ⟨p, hp, hplaces⟩ := places_of_mem hinv hφ
  have hword := hinv.faithful.traced gwMsgID φ hφ
  refine ⟨p, hplaces, ?_, ?_, notifies cfg c.shared gwMsgID⟩
  · rintro rfl
    obtain rfl := phase_of_forwarded hp
    exact history_of_forwarded hword
  · rintro rfl
    obtain rfl := phase_of_finished hp
    exact history_of_failed hword

/-- The engine has its answer and the message waits for a worker. -/
theorem answered_waits_in_forwardCh :
    ∃ c, (gateway .loadConfig).Reaches Program.Anything GatewayConf.start c ∧
      .answered (gwMsgIDOf 1) ∈ c.trace ∧ places c (gwMsgIDOf 1) = {.forwardCh} := by
  refine Program.exists_reached engineSubmits (by decide) fun hreach => ⟨by decide, ?_⟩
  obtain ⟨p, hp, -⟩ := @answered_in_one_place _ _ hreach (gwMsgIDOf 1) (by decide)
  have hmem : Place.forwardCh ∈ ({p} : Multiset Place) := by
    rw [← hp]
    decide
  rw [hp, Multiset.mem_singleton.mp hmem]

end Pipeline

end SmscGateway
