import SmscGateway.Receipts.Delivery
import SmscGateway.Submit.Parcel

/-!
# The status of a REST message

A REST client asks for the status record of its message. Five places write it,
each the whole record with the fields it happens to know: the acceptance, the
two that forward, the one that gives up and `handleDLR`. Only the first knows
the reference, `handleDLR` does not know the source and always writes
`delivered`, and the others write only if the connection id at hand is
`rest-api`, which it is not in a worker. So the record is right after every
event of the message if each event finds the connection id and has nothing to
say that it would drop (`Told`).
-/

namespace SmscGateway

open List Option Dossier Prod

namespace RestStatus

/-- The receipt status of a delivered message. -/
def delivrd : Bytes := ascii "DELIVRD"

/-- The strings of a request come out of `Decode`, so JSON keeps them. -/
structure Decoded (m : SMSSubmitRequest) : Prop where
  toAddr : jsonString m.toAddr = m.toAddr
  fromAddr : jsonString m.fromAddr = m.fromAddr
  reference : jsonString m.reference = m.reference

/-! ## Events of a message -/

/-- What becomes known of a message: the SMSC took it, or a receipt tells how
it ended. -/
inductive News
  | forwarded (smscMsgID : Bytes)
  | receipt (status : Bytes)
  deriving DecidableEq

/-- Does JSON keep what there is to say? -/
def News.isUtf8 : News → Bool
  | .forwarded smscMsgID => jsonString smscMsgID = smscMsgID
  | .receipt _ => true

/-- May a message be queued for another attempt? -/
def RetriesLeft (cfg : RouterConfig) (retryCount : ℕ) : Prop :=
  0 < cfg.maxSubmitRetries ∧ (retryCount : ℤ) < cfg.maxSubmitRetries
  deriving Decidable

/-- A southbound attempt, and whether the gateway gives up after it. -/
def attemptNews (cfg : RouterConfig) (retryCount : ℕ) : Attempt → Option News
  | .accepted _ smscMsgID => some (.forwarded smscMsgID)
  | _ => if RetriesLeft cfg retryCount then none else some (.receipt undeliv)

/-- The news an action has of a message, with the connection id the code goes
by: the synthetic receipt says `UNDELIV`, a receipt from the SMSC what it
says. -/
def news (cfg : RouterConfig) (g : Bytes) (s : Gateway) (i : Input) :
    Action → Option (News × Bytes)
  | .submit (.offer task connID) =>
    if task.gwMsgID = g ∧ ¬ s.forwardCh.length < cfg.queueSize ∧ ¬ RetriesLeft cfg 0 then
      some (.receipt undeliv, connID)
    else none
  | .submit (.forwardSubmitRaw f) =>
    if f.gwMsgID = g then (attemptNews cfg 0 i.attempt).map (·, f.connID) else none
  | .submit (.retrySubmit p) =>
    if p.gwMsgID = g then (attemptNews cfg p.retryCount i.attempt).map (·, p.connID) else none
  | .back (.handleDeliver _ _ _ esmClass payload) =>
    if Smpp.isDLR esmClass then
      (Smpp.parseDLRReceipt payload).bind fun rc =>
        (s.smscCorrelation.find? rc.messageID).bind fun corr =>
          if corr.gwMsgID = g then some (.receipt rc.status, corr.northConnID) else none
    else none
  | .back (.getSubmit _ rc) =>
    (s.store.submits.getSubmit rc.parsed.messageID).bind fun rec =>
      if rec.gwMsgID = g then some (.receipt rc.parsed.status, rec.northConnID) else none
  | _ => none

/-! ## What the record should say -/

/-- The record names what was submitted. -/
structure Repeats (m : SMSSubmitRequest) (st : MessageStatus) : Prop where
  toAddr : st.toAddr = m.toAddr
  fromAddr : st.fromAddr = m.fromAddr
  reference : st.reference = m.reference

/-- The record tells the latest news. -/
def Tells : Option News → MessageStatus → Prop
  | none, st => st.status = .accepted
  | some (.forwarded smscMsgID), st => st.status = .forwarded ∧ st.smscMsgID = smscMsgID
  | some (.receipt status), st =>
    (st.status = .delivered ↔ status = delivrd) ∧ (st.status = .failed ↔ status ≠ delivrd)

/-- Is the action about to write the status of the message? -/
def setsStatus (g : Bytes) : Action → Bool
  | .record (.setMessageStatus st) => st.gwMsgID = g
  | .back (.settle _ corr .setMessageStatus) => corr.gwMsgID = g
  | .submit (.getCorrelation f _) => f.gwMsgID = g ∧ f.connID = restApi
  | _ => false

/-- No write of the status is under way. -/
def Still (c : GatewayConf) (g : Bytes) : Prop := ∀ b ∈ c.actions, setsStatus g b = false
  deriving Decidable

/-- **When the code that brings news can tell them**: it goes by `rest-api`, the
message has no reference, no other write is under way, an SMSC id is UTF-8; and
`handleDLR` needs that the message has no source and the receipt says `DELIVRD`. -/
def Told (cfg : RouterConfig) (m : SMSSubmitRequest) (g : Bytes) (c : GatewayConf) (i : Input)
    (a : Action) : Prop :=
  ∀ x ∈ news cfg g c.shared i a, x.2 = restApi ∧ m.reference = [] ∧ Still c g ∧
    x.1.isUtf8 = true ∧ (a.onReturn = true → m.fromAddr = [] ∧ x.1 = .receipt delivrd)
  deriving Decidable

/-- The action has no news of the message. -/
def NoNews (cfg : RouterConfig) (g : Bytes) (c : GatewayConf) (i : Input) (a : Action) : Prop :=
  news cfg g c.shared i a = none
  deriving Decidable

/-! ## Where the status is written -/

/-- What `forwardSubmitRaw` and `drainSubmitRetries` write. -/
def forwardedStatus (f : Forward) (smscMsgID : Bytes) : MessageStatus :=
  { gwMsgID := f.gwMsgID, toAddr := f.destAddr, fromAddr := f.sourceAddr, status := .forwarded,
    smscMsgID }

/-- What `sendSyntheticDLR` writes. -/
def failedStatus (g d f : Bytes) : MessageStatus :=
  { gwMsgID := g, toAddr := d, fromAddr := f, status := .failed, dlrStatus := undeliv }

/-- How an action brings news into the record. -/
inductive Announces (g : Bytes) : Action → Action → News → Prop
  | worker (f : Forward) (id : Bytes) (hg : f.gwMsgID = g) (hrest : f.connID = restApi) :
      Announces g (.submit (.forwardSubmitRaw f)) (.submit (.getCorrelation f id)) (.forwarded id)
  | drainPass (p : PendingSubmit) (id : Bytes) (hg : p.gwMsgID = g) :
      Announces g (.submit (.retrySubmit p))
        (.record (.setMessageStatus
          (forwardedStatus ⟨p.connID, p.gwMsgID, p.msisdn, p.sourceAddr, p.rawBody⟩ id)))
        (.forwarded id)
  | gaveUp (a : Action) (d f : Bytes) (ha : GivesUp a restApi g d f) :
      Announces g a (.record (.setMessageStatus (failedStatus g d f))) (.receipt undeliv)
  | matched (a : ReturnAction) (rc : Receipt) (corr : Correlation) (hg : corr.gwMsgID = g) :
      Announces g (.back a) (.back (.settle rc corr .setMessageStatus))
        (.receipt rc.parsed.status)

section Exec

variable {cfg : RouterConfig} {s : Gateway} {i : Input} {r : GatewayEffect} {g : Bytes}

/-- What a failed attempt leads to. -/
theorem enqueueSubmitRetryOrFail_eq (now : Time) (g connID d f body : Bytes) (n : ℕ) :
    enqueueSubmitRetryOrFail cfg s now g connID d f body n =
      if RetriesLeft cfg n then
        { state := { s with
            store := s.store.enqueueSubmitRetry ⟨g, connID, d, f, body, n + 1, now⟩ }
          seen := [.message g (.enqueued (n + 1))] }
      else sendSyntheticDLR s connID g d f := rfl

/-- Giving up a REST message writes its status. -/
theorem failedStatus_mem (g d f : Bytes) :
    .record (.setMessageStatus (failedStatus g d f)) ∈ (sendSyntheticDLR s restApi g d f).next := by
  rw [sendSyntheticDLR, if_pos rfl]
  exact mem_cons_of_mem _ mem_cons_self

theorem eq_failedStatus_of_mem {connID g' d f : Bytes} {st : MessageStatus}
    (h : .record (.setMessageStatus st) ∈ (sendSyntheticDLR s connID g' d f).next) :
    connID = restApi ∧ st = failedStatus g' d f := by
  unfold sendSyntheticDLR at h
  split at h
  · rename_i hrest
    exact ⟨hrest, by simpa [failedStatus] using h⟩
  · simp at h

/-- Forwarding a REST message writes its status. -/
theorem forwardedStatus_mem {f : Forward} {id : Bytes} {t : Time} (hrest : f.connID = restApi) :
    .record (.setMessageStatus (forwardedStatus f id)) ∈ recordForwarded f id t := by
  rw [recordForwarded, if_pos hrest]
  simp [forwardedStatus]

theorem eq_forwardedStatus_of_mem {f : Forward} {id : Bytes} {t : Time} {st : MessageStatus}
    (h : .record (.setMessageStatus st) ∈ recordForwarded f id t) :
    f.connID = restApi ∧ st = forwardedStatus f id := by
  unfold recordForwarded at h
  split at h
  · rename_i hrest
    exact ⟨hrest, by simpa [forwardedStatus] using h⟩
  · simp at h

/-- After a failed attempt a synthetic receipt goes out when no retry is
left. -/
theorem gaveUp_iff {now : Time} {g g' connID connID' d f body : Bytes} {n : ℕ} {l : Label}
    (hl : l ≠ .synthetic connID) :
    .message g (.synthetic connID) ∈
        ((enqueueSubmitRetryOrFail cfg s now g' connID' d f body n).after [.message g' l]).seen ↔
      ¬ RetriesLeft cfg n ∧ g' = g ∧ connID' = connID := by
  rw [enqueueSubmitRetryOrFail_eq]
  split
  · rename_i hleft
    simp [Effect.after, hleft, hl.symm]
  · rename_i hleft
    unfold sendSyntheticDLR
    split <;> simp [Effect.after, hleft, hl.symm, eq_comm]

variable {n : ℕ} {a : Action} {rc : Receipt} {corr : Correlation}

theorem attemptNews_of_rejected {attempt : Attempt} (h : ∀ pool id, attempt ≠ .accepted pool id)
    (hleft : ¬ RetriesLeft cfg n) : attemptNews cfg n attempt = some (.receipt undeliv) := by
  cases attempt with
  | accepted pool id => exact absurd rfl (h pool id)
  | _ => exact if_neg hleft

/-- A synthetic receipt is news. -/
theorem news_of_synthetic (h : exec cfg s i a = some r) {connID : Bytes}
    (hseen : .message g (.synthetic connID) ∈ r.seen) :
    news cfg g s i a = some (.receipt undeliv, connID) := by
  have hwrites := exec_writes h hseen
  cases a with
  | submit a =>
    cases execSubmit_moves h with
    | queued | sent | resent => simp at hseen
    | overflowed task connID' hfull =>
      obtain ⟨hleft, hg, rfl⟩ := (gaveUp_iff (by simp)).mp hseen
      exact if_pos ⟨hg, hfull, hleft⟩
    | unsent f hatt | unresent p hatt =>
      obtain ⟨hleft, hg, rfl⟩ := (gaveUp_iff (by simp)).mp hseen
      simp only [news, if_pos hg, attemptNews_of_rejected hatt hleft, map_some]
    | _ => simp [Action.Writes] at hwrites
  | _ => exact hwrites.elim

/-- What `handleDLR` does with a message it has matched. -/
theorem setMessageStatus_mem_routeReceipt {rc' : Receipt} {corr' : Correlation} :
    .back (.settle rc corr .setMessageStatus) ∈ (routeReceipt s n rc' corr').next ↔
      rc = rc' ∧ corr = corr' ∧ corr'.northConnID = restApi := by
  unfold routeReceipt
  split
  · rename_i hrest
    simp [hrest]
  · rename_i hrest
    simp [hrest]

/-- The return side comes to write a status by matching a receipt. -/
theorem execReturn_matches {a : ReturnAction} (h : execReturn cfg s i a = some r)
    (hb : .back (.settle rc corr .setMessageStatus) ∈ r.next) :
    news cfg corr.gwMsgID s i (.back a) = some (.receipt rc.parsed.status, restApi) := by
  cases execReturn_moves h with
  | found rc' corr' hesm hparse hfind =>
    obtain ⟨rfl, rfl, hrest⟩ := setMessageStatus_mem_routeReceipt.mp hb
    simp only [news, hesm, if_true, hparse, bind_some, hfind, hrest]
  | took pool it connID next hkind hesm hnext => rcases hnext with rfl | rfl <;> simp at hb
  | stored n rc' rec hfind =>
    obtain ⟨rfl, rfl, hrest⟩ := setMessageStatus_mem_routeReceipt.mp hb
    have hconn : rec.northConnID = restApi := hrest
    simp only [news, hfind, bind_some, if_true, hconn]
  | settle rc' corr' st =>
    rcases execSettle_next hb with ⟨e, hset⟩ | ⟨b, hrec, -⟩
    · cases hset
    · cases hrec
  | absent c | unwritten c | unacked c => cases c <;> simp [Caller.failed] at hb
  | acked c =>
    unfold Caller.acked at hb
    split at hb
    · split at hb <;> simp at hb
    · split at hb <;> simp at hb
    · simp at hb
  | _ => simp at hb

/-- **Where the status of a message is written**: it was just accepted, a worker
goes on with a message it sent under `rest-api`, or there is news. -/
theorem exec_announces (h : exec cfg s i a = some r) {b : Action} (hb : b ∈ r.next)
    (hsets : setsStatus g b = true) : g = gwMsgIDOf (s.msgSeq + 1) ∨
    (∃ f id, a = .submit (.getCorrelation f id) ∧ f.gwMsgID = g ∧ f.connID = restApi ∧
      b = .record (.setMessageStatus (forwardedStatus f id))) ∨
    ∃ σ, news cfg g s i a = some (σ, restApi) ∧ Announces g a b σ := by
  cases b with
  | submit b =>
    cases b with
    | getCorrelation f id =>
      obtain ⟨hg, hrest⟩ : f.gwMsgID = g ∧ f.connID = restApi := of_decide_eq_true hsets
      obtain ⟨a, rfl, hcont⟩ := submit_of_next h hb
      cases hcont with
      | accepted f pool id hi =>
        refine .inr (.inr ⟨.forwarded id, ?_, .worker f id hg hrest⟩)
        simp only [news, if_pos hg, hi, attemptNews, map_some, hrest]
    | _ => cases hsets
  | record b =>
    cases b with
    | setMessageStatus st =>
      have hst : st.gwMsgID = g := of_decide_eq_true hsets
      rcases record_of_next h hb with htells | horigin
      · cases htells
      · cases horigin with
        | rejected e hid hstatus hlog => cases hlog
        | submitted connID seqNum conn m hmem => simp [acceptSubmit] at hmem
        | requested m rest ids ha hmem =>
          left
          simp only [acceptRESTMessage, mem_append, mem_cons, Action.record.injEq,
            not_mem_nil, or_false, reduceCtorEq, false_or,
            RecordAction.setMessageStatus.injEq] at hmem
          rcases hmem with rfl | hmem
          · exact hst.symm
          · split at hmem <;> simp at hmem
        | forwarded f id t ha hmem =>
          obtain ⟨hrest, rfl⟩ := eq_forwardedStatus_of_mem hmem
          rcases ha with rfl | ⟨p, pool, rfl, hi, rfl⟩
          · exact .inr (.inl ⟨f, id, rfl, hst, hrest, rfl⟩)
          · refine .inr (.inr ⟨.forwarded id, ?_, .drainPass p id hst⟩)
            have hg : p.gwMsgID = g := hst
            have hconn : p.connID = restApi := hrest
            simp only [news, if_pos hg, hi, attemptNews, map_some, hconn]
        | gaveUp connID g' d f ha hseen hmem =>
          obtain ⟨rfl, rfl⟩ := eq_failedStatus_of_mem hmem
          obtain rfl : g' = g := hst
          exact .inr (.inr ⟨_, news_of_synthetic h hseen, .gaveUp a d f ha⟩)
        | updated g' u e ha he hwrite => cases hwrite
    | _ => cases hsets
  | back b =>
    cases b with
    | settle rc corr st =>
      cases st with
      | setMessageStatus =>
        obtain rfl : corr.gwMsgID = g := of_decide_eq_true hsets
        obtain ⟨a, rfl, hreturn⟩ := settle_of_next h hb
        exact .inr (.inr ⟨_, execReturn_matches hreturn hb, .matched a rc corr rfl⟩)
      | _ => cases hsets
    | _ => cases hsets
  | serve b => cases hsets

/-- News of an attempt that was not accepted is that no retry is left. -/
theorem not_retriesLeft_of_news {attempt : Attempt} {σ : News}
    (h : ∀ pool id, attempt ≠ .accepted pool id) (hnews : attemptNews cfg n attempt = some σ) :
    ¬ RetriesLeft cfg n := by
  intro hleft
  cases attempt with
  | accepted pool id => exact h pool id rfl
  | _ =>
    simp only [attemptNews, if_pos hleft] at hnews
    cases hnews

/-- A message that is given up under `rest-api` has its status written. -/
theorem setsStatus_of_gaveUp {now : Time} {g' d f body : Bytes} {seen : List Obs}
    (hleft : ¬ RetriesLeft cfg n) (hg : g' = g) :
    ∃ b ∈ ((enqueueSubmitRetryOrFail cfg s now g' restApi d f body n).after seen).next,
      setsStatus g b = true := by
  rw [enqueueSubmitRetryOrFail_eq, if_neg hleft]
  exact ⟨_, failedStatus_mem (s := s) g' d f, decide_eq_true hg⟩

/-- **Who has news under `rest-api` is about to write the status.** -/
theorem exec_news (h : exec cfg s i a = some r) {σ : News}
    (hnews : news cfg g s i a = some (σ, restApi)) : ∃ b ∈ r.next, setsStatus g b = true := by
  unfold news at hnews
  split at hnews
  · split at hnews
    · rename_i hcond
      obtain ⟨hg, hfull, hleft⟩ := hcond
      obtain ⟨-, rfl⟩ := mk.inj (some.inj hnews)
      simp only [exec, execSubmit, if_neg hfull] at h
      cases h
      exact setsStatus_of_gaveUp hleft hg
    · cases hnews
  · rename_i f
    obtain ⟨hg, hnews⟩ := ite_none_right_eq_some.mp hnews
    obtain ⟨σ', hσ', heq⟩ := map_eq_some_iff.mp hnews
    obtain ⟨-, hrest⟩ := mk.inj heq
    simp only [exec, execSubmit] at h
    split at h <;> cases h
    · exact ⟨_, mem_singleton_self _, decide_eq_true ⟨hg, hrest⟩⟩
    · rename_i hattempt
      rw [hrest]
      exact setsStatus_of_gaveUp (not_retriesLeft_of_news hattempt hσ') hg
  · rename_i p
    obtain ⟨hg, hnews⟩ := ite_none_right_eq_some.mp hnews
    obtain ⟨σ', hσ', heq⟩ := map_eq_some_iff.mp hnews
    obtain ⟨-, hrest⟩ := mk.inj heq
    simp only [exec, execSubmit] at h
    split at h <;> cases h
    · refine ⟨_, mem_cons_of_mem _ (forwardedStatus_mem ?_), decide_eq_true ?_⟩
      · exact hrest
      · exact hg
    · rename_i hattempt
      rw [hrest]
      exact setsStatus_of_gaveUp (not_retriesLeft_of_news hattempt hσ') hg
  · rename_i pool src dst esm payload
    obtain ⟨hdlr, hnews⟩ := ite_none_right_eq_some.mp hnews
    obtain ⟨parsed, hparsed, hnews⟩ := bind_eq_some_iff.mp hnews
    obtain ⟨corr, hfind, hnews⟩ := bind_eq_some_iff.mp hnews
    split at hnews
    · rename_i hg
      obtain ⟨-, hrest⟩ := mk.inj (some.inj hnews)
      simp only [exec, execReturn, hdlr, if_true, hparsed, hfind] at h
      cases h
      exact ⟨_, setMessageStatus_mem_routeReceipt.mpr ⟨rfl, rfl, hrest⟩, decide_eq_true hg⟩
    · cases hnews
  · rename_i n rc
    obtain ⟨rec, hfind, hnews⟩ := bind_eq_some_iff.mp hnews
    split at hnews
    · rename_i hg
      obtain ⟨-, hrest⟩ := mk.inj (some.inj hnews)
      simp only [exec, execReturn, hfind] at h
      cases h
      exact ⟨_, setMessageStatus_mem_routeReceipt.mpr ⟨rfl, rfl, hrest⟩, decide_eq_true hg⟩
    · cases hnews
  · cases hnews

end Exec

/-! ## Runs -/

/-- What a pending write is going to say. -/
def Promises (m : SMSSubmitRequest) (g : Bytes) (σ : Option News) : Action → Prop
  | .record (.setMessageStatus st) => st.gwMsgID = g → Repeats m st ∧ Tells σ st.json
  | .back (.settle rc corr .setMessageStatus) => corr.gwMsgID = g →
    m.fromAddr = [] ∧ m.reference = [] ∧ rc.parsed.status = delivrd ∧ σ = some (.receipt delivrd)
  | .submit (.getCorrelation f id) => f.gwMsgID = g → f.connID = restApi →
    m.reference = [] ∧ σ = some (.forwarded id) ∧ jsonString id = id
  | _ => True

/-- The record and the writes to come tell the latest news. -/
structure Truthful (m : SMSSubmitRequest) (g : Bytes) (σ : Option News) (c : GatewayConf) :
    Prop where
  pending : ∀ b ∈ c.actions, Promises m g σ b
  record : ∀ st, c.shared.store.status.find? g = some st →
    Repeats m st ∧ (Still c g → Tells σ st)

/-- The addresses that go with a message are those of the request. -/
def Sent (m : SMSSubmitRequest) (d f _ : Bytes) : Prop := d = m.toAddr ∧ f = m.fromAddr

section Runs

variable {cfg : RouterConfig} {m : SMSSubmitRequest} {g : Bytes} {σ : Option News}
  {c c' : GatewayConf}

variable {b a : Action} {i : Input}

theorem promises_of_not_sets (h : setsStatus g b = false) : Promises m g σ b := by
  cases b with
  | submit b =>
    cases b with
    | getCorrelation f id => exact fun hg hrest => absurd ⟨hg, hrest⟩ (of_decide_eq_false h)
    | _ => trivial
  | record b =>
    cases b with
    | setMessageStatus st => exact fun hg => absurd hg (of_decide_eq_false h)
    | _ => trivial
  | back b =>
    cases b with
    | settle rc corr st =>
      cases st with
      | setMessageStatus => exact fun hg => absurd hg (of_decide_eq_false h)
      | _ => trivial
    | _ => trivial
  | serve b => trivial

theorem sent_of_forward {f : Forward} (h : (about g (Sent m)).OnForward f)
    (hg : f.gwMsgID = g) (href : m.reference = []) (id : Bytes) :
    Repeats m (forwardedStatus f id) :=
  ⟨(h.2 hg).1, (h.2 hg).2, href.symm⟩

theorem Tells.congr {st st' : MessageStatus} (h : Tells σ st) (hstatus : st'.status = st.status)
    (hid : st'.smscMsgID = st.smscMsgID) : Tells σ st' := by
  cases σ with
  | none => exact hstatus.trans h
  | some x =>
    cases x with
    | forwarded id => exact ⟨hstatus.trans h.1, hid.trans h.2⟩
    | receipt x =>
      simp only [Tells, hstatus]
      exact h

theorem tells_failedStatus (g d f : Bytes) :
    Tells (some (.receipt undeliv)) (failedStatus g d f).json := by
  have hne : undeliv ≠ delivrd := by decide
  simp [Tells, failedStatus, hne]

theorem tells_receiptStatus (i : Input) (rc : Receipt) (corr : Correlation) :
    Tells (some (.receipt delivrd)) (receiptStatus i rc corr).json := by
  simp [Tells, receiptStatus]

/-- JSON keeps what a record repeats of a request. -/
theorem Repeats.json {st : MessageStatus} (hm : Decoded m) (h : Repeats m st) :
    Repeats m st.json := by
  refine ⟨?_, ?_, ?_⟩
  · exact (congrArg jsonString h.toAddr).trans hm.toAddr
  · exact (congrArg jsonString h.fromAddr).trans hm.fromAddr
  · exact (congrArg jsonString h.reference).trans hm.reference

/-- A message that is given up still has the addresses of the request. -/
theorem sent_of_givesUp (h : (about g (Sent m)).OnAction a) {connID d f : Bytes}
    (ha : GivesUp a connID g d f) : d = m.toAddr ∧ f = m.fromAddr := by
  rcases ha with ⟨task, rfl, hg, rfl, rfl⟩ | ⟨f, rfl, -, hg, rfl, rfl⟩ | ⟨p, rfl, -, hg, rfl, rfl⟩
  · exact h.2 hg
  · exact h.2 hg
  · exact h.2 hg

/-- **What the writes that an action starts are going to say.** -/
theorem promises_of_next {r : GatewayEffect} (hdos : (about g (Sent m)).OnAction a)
    (hid : g ≠ gwMsgIDOf (c.shared.msgSeq + 1)) (ha : Promises m g σ a)
    (hexec : exec cfg c.shared i a = some r) (htold : Told cfg m g c i a) (hb : b ∈ r.next) :
    Promises m g (((news cfg g c.shared i a).map fst).or σ) b := by
  by_cases hsets : setsStatus g b = false
  · exact promises_of_not_sets hsets
  rcases exec_announces hexec hb (Bool.eq_true_of_not_eq_false hsets) with
    hfresh | ⟨f, id, rfl, hg, hrest, rfl⟩ | ⟨σ₁, hnews, hann⟩
  · exact absurd hfresh hid
  · obtain ⟨href, rfl, hutf8⟩ := ha hg hrest
    exact fun _ => ⟨sent_of_forward hdos hg href id, rfl, hutf8⟩
  · obtain ⟨-, href, -, hutf8, hback⟩ := htold _ hnews
    rw [hnews, map_some, some_or]
    cases hann with
    | worker f id hg hrest => exact fun _ _ => ⟨href, rfl, of_decide_eq_true hutf8⟩
    | drainPass p id hg =>
      exact fun _ => ⟨sent_of_forward (f := ⟨p.connID, p.gwMsgID, p.msisdn, p.sourceAddr, p.rawBody⟩)
        hdos hg href id, rfl, of_decide_eq_true hutf8⟩
    | gaveUp a d f ha =>
      obtain ⟨hd, hf⟩ := sent_of_givesUp hdos ha
      exact fun _ => ⟨⟨hd, hf, href.symm⟩, tells_failedStatus g d f⟩
    | matched a rc corr hg =>
      obtain ⟨hfrom, hstatus⟩ := hback rfl
      exact fun _ => ⟨hfrom, href, News.receipt.inj hstatus, congrArg some hstatus⟩

/-- **A step of a run keeps the record truthful**, and it tells the news of the
step from then on. -/
theorem Truthful.step {j : ℕ} (hm : Decoded m) (hdos : (about g (Sent m)).On c)
    (hid : g ≠ gwMsgIDOf (c.shared.msgSeq + 1)) (hc : Truthful m g σ c) (hhead : c.head j = some a)
    (htold : Told cfg m g c i a) (hs : (gateway cfg).step c (.run j i) = some c') :
    Truthful m g (((news cfg g c.shared i a).map fst).or σ) c' := by
  obtain ⟨r, rest, hran⟩ := Program.ran_of_head hs hhead
  have hexec : exec cfg c.shared i a = some r := hran.exec
  have ha := hran.mem
  refine ⟨fun b hb => ?_, fun st hst => ?_⟩
  · rcases hran.cases hb with hb | hb
    · exact promises_of_next (hdos.actions a ha) hid (hc.pending a ha) hexec htold hb
    · -- news find no other write under way
      cases hnews : news cfg g c.shared i a with
      | none =>
        simpa using hc.pending b (hran.pending hb)
      | some x => exact promises_of_not_sets ((htold x hnews).2.2.1 b (hran.pending hb))
  · -- a record that the action leaves alone
    have hold : ∀ st, c.shared.store.status.find? g = some st →
        (setsStatus g a = true → ∃ b ∈ r.next, setsStatus g b = true) →
        Repeats m st ∧ (Still c' g → Tells (((news cfg g c.shared i a).map fst).or σ) st) := by
      intro st hst hgoes
      obtain ⟨hrep, htells⟩ := hc.record st hst
      refine ⟨hrep, fun hstill => ?_⟩
      have hnone : ∀ b ∈ r.next, setsStatus g b = false := fun b hb =>
        hstill b (hran.next hb)
      cases hnews : news cfg g c.shared i a with
      | some x =>
        obtain ⟨σ₁, connID⟩ := x
        obtain rfl : connID = restApi := (htold _ hnews).1
        obtain ⟨b, hb, hsets⟩ := exec_news hexec hnews
        rw [hnone b hb] at hsets
        cases hsets
      | none =>
        have htold' := htells fun b hb => ?_
        · simpa using htold'
        · by_cases hba : b = a
          · subst hba
            by_contra hsets
            obtain ⟨b', hb', hsets'⟩ := hgoes (Bool.eq_true_of_not_eq_false hsets)
            rw [hnone b' hb'] at hsets'
            cases hsets'
          · exact hstill b (hran.keeps hb hba)
    rw [hran.shared, (exec_recorded hexec).status] at hst
    have hpromise := hc.pending a ha
    unfold statusAfter at hst
    split at hst
    · rename_i st'
      rw [SortedMap.find?_insert] at hst
      split at hst
      · rename_i hkey
        cases hst
        obtain ⟨hrep, htells⟩ := hpromise hkey.symm
        obtain ⟨hto, hfrom, href⟩ := hrep.json hm
        exact ⟨⟨hto, hfrom, href⟩, fun _ => htells.congr rfl rfl⟩
      · rename_i hkey
        exact hold st hst fun hsets => absurd (of_decide_eq_true hsets).symm hkey
    · rw [SortedMap.find?_filter] at hst
      exact hold st (filter_eq_some_iff.mp hst).1 fun hsets => by cases hsets
    · rename_i rc corr
      rw [SortedMap.find?_insert] at hst
      split at hst
      · rename_i hkey
        cases hst
        obtain ⟨hfrom, href, -, rfl⟩ := hpromise hkey.symm
        obtain ⟨d, f, hd, -⟩ := (hdos.actions _ ha).2 hkey.symm
        have hrep : Repeats m (receiptStatus i rc corr) := ⟨hd, hfrom.symm, href.symm⟩
        exact ⟨hrep.json hm, fun _ => tells_receiptStatus i rc corr⟩
      · rename_i hkey
        exact hold st hst fun hsets => absurd (of_decide_eq_true hsets).symm hkey
    · rename_i hstatus _ hsettle
      refine hold st hst fun hsets => ?_
      cases a with
      | submit a =>
        cases a with
        | getCorrelation f id =>
          obtain ⟨hg, hrest⟩ : f.gwMsgID = g ∧ f.connID = restApi := of_decide_eq_true hsets
          cases hexec
          exact ⟨_, mem_cons_of_mem _ (forwardedStatus_mem hrest), decide_eq_true hg⟩
        | _ => cases hsets
      | record a =>
        cases a with
        | setMessageStatus st' => exact absurd rfl (hstatus st')
        | _ => cases hsets
      | back a =>
        cases a with
        | settle rc corr st' =>
          cases st' with
          | setMessageStatus => exact absurd rfl (hsettle rc corr)
          | _ => cases hsets
        | _ => cases hsets
      | serve a => cases hsets

theorem not_sets_of_entry (h : entry a = true) : setsStatus g a = false := by
  cases a with
  | submit a => cases a <;> first | rfl | cases h
  | record a => cases a <;> first | rfl | cases h
  | back a => cases a <;> first | rfl | cases h
  | serve a => rfl

/-- A new goroutine has nothing to say. -/
theorem Truthful.start (hc : Truthful m g σ c) (hs : (gateway cfg).step c (.start a) = some c') :
    Truthful m g σ c' := by
  rcases Program.step_cases hs with ⟨b, -, hstart⟩ | ⟨_, _, _, _, _, he, -⟩
  · refine ⟨fun b' hb => ?_, fun st hst => ?_⟩
    · rcases hstart.cases hb with rfl | hb
      · exact promises_of_not_sets (not_sets_of_entry hstart.entry)
      · exact hc.pending b' hb
    · rw [hstart.shared] at hst
      obtain ⟨hrep, htells⟩ := hc.record st hst
      exact ⟨hrep, fun hstill => htells fun b' hb => hstill b' (hstart.keeps hb)⟩
  · cases he

/-- **Any step keeps the record truthful**, and without news it goes on telling
the same. -/
theorem Truthful.event {e : Event Input Action} (hm : Decoded m) (hdos : (about g (Sent m)).On c)
    (hid : g ≠ gwMsgIDOf (c.shared.msgSeq + 1)) (hc : Truthful m g σ c)
    (hok : Program.When (Told cfg m g) c e) (hs : (gateway cfg).step c e = some c') :
    ∃ σ', Truthful m g σ' c' ∧ (Program.When (NoNews cfg g) c e → σ' = σ) := by
  cases e with
  | start a => exact ⟨σ, hc.start hs, fun _ => rfl⟩
  | run j i =>
    obtain ⟨a, hhead⟩ : ∃ a, c.head j = some a := by
      rcases Program.step_cases hs with ⟨b, he, -⟩ | ⟨j', i', a, _, _, he, hhead, -⟩
      · cases he
      · obtain ⟨rfl, -⟩ := Event.run.inj he
        exact ⟨a, hhead⟩
    refine ⟨_, hc.step hm hdos hid hhead (hok a hhead) hs, fun hno => ?_⟩
    rw [hno a hhead]
    rfl

/-- Before its id is given out nobody writes the status of a message. -/
theorem not_sets_of_current (hc : Restart.Current c) (hb : b ∈ c.actions) :
    setsStatus (gwMsgIDOf (c.shared.msgSeq + 1)) b = false := by
  have hnext := Restart.not_issued_next c.shared.msgSeq c.trace
  rw [← Bool.not_eq_true]
  intro hsets
  unfold setsStatus at hsets
  split at hsets
  · rename_i st
    have hg : st.gwMsgID = gwMsgIDOf (c.shared.msgSeq + 1) := of_decide_eq_true hsets
    exact hnext (hg ▸ (hc.ids.actions _ hb).2)
  · rename_i rc corr
    have hg : corr.gwMsgID = gwMsgIDOf (c.shared.msgSeq + 1) := of_decide_eq_true hsets
    exact hnext (hg ▸ hc.ids.actions _ hb)
  · rename_i f id
    have hg : f.gwMsgID = gwMsgIDOf (c.shared.msgSeq + 1) := (of_decide_eq_true hsets).1
    exact hnext (hg ▸ hc.ids.actions _ hb)
  · cases hsets

/-- **The acceptance of a message is told as it is.** -/
theorem truthful_of_accepted {n : ℕ} {rest : List SMSSubmitRequest} {ids : List Bytes}
    (hc : Restart.Current c) (hhead : c.head n = some (.submit (.acceptREST (m :: rest) ids)))
    (hs : (gateway cfg).step c (.run n i) = some c') :
    Truthful m (gwMsgIDOf (c.shared.msgSeq + 1)) none c' := by
  obtain ⟨r, others, hran⟩ := Program.ran_of_head hs hhead
  obtain rfl := some.inj hran.exec
  refine ⟨fun b hb => ?_, fun st hst => ?_⟩
  · rcases hran.cases hb with hb | hb
    · simp only [acceptRESTMessage, mem_append, mem_cons, not_mem_nil, or_false] at hb
      rcases hb with ((rfl | rfl) | hb) | rfl | rfl
      · trivial
      · exact fun _ => ⟨⟨rfl, rfl, rfl⟩, rfl⟩
      · split at hb
        · cases hb
        · rw [mem_singleton.mp hb]
          trivial
      · trivial
      · trivial
    · exact promises_of_not_sets (not_sets_of_current hc (hran.pending hb))
  · rw [hran.shared] at hst
    exact absurd (hc.ids.state.status _ (isSome_iff_exists.mpr ⟨st, hst⟩)).2
      (Restart.not_issued_next _ _)

/-- **The status of a REST message is true** in every run in which each event of
the message can tell its news: the record names what was submitted, and once
nothing more is being written it tells the latest news, whatever else
happens. -/
theorem rest_status_is_true (cfg : RouterConfig) {c₀ c₁ c : GatewayConf} {n : ℕ} {i : Input}
    {m : SMSSubmitRequest} {rest : List SMSSubmitRequest} {ids : List Bytes} (hm : Decoded m)
    (h₀ : (gateway cfg).Reaches Program.Anything GatewayConf.start c₀)
    (hhead : c₀.head n = some (.submit (.acceptREST (m :: rest) ids)))
    (hstep : (gateway cfg).step c₀ (.run n i) = some c₁)
    (hrun : (gateway cfg).Reaches
      (Program.When (Told cfg m (gwMsgIDOf (c₀.shared.msgSeq + 1)))) c₁ c) :
    (∀ st, c.shared.store.status.find? (gwMsgIDOf (c₀.shared.msgSeq + 1)) = some st →
      Repeats m st) ∧
    ∀ j input a σ connID c₂ c₃, c.head j = some a →
      news cfg (gwMsgIDOf (c₀.shared.msgSeq + 1)) c.shared input a = some (σ, connID) →
      Told cfg m (gwMsgIDOf (c₀.shared.msgSeq + 1)) c input a →
      (gateway cfg).step c (.run j input) = some c₂ →
      (gateway cfg).Reaches (Program.When (Program.Both
        (Told cfg m (gwMsgIDOf (c₀.shared.msgSeq + 1)))
        (NoNews cfg (gwMsgIDOf (c₀.shared.msgSeq + 1))))) c₂ c₃ →
      Still c₃ (gwMsgIDOf (c₀.shared.msgSeq + 1)) →
      ∀ st, c₃.shared.store.status.find? (gwMsgIDOf (c₀.shared.msgSeq + 1)) = some st →
        Tells (some σ) st := by
  have hsent : ∀ d f b, Sent m d f b → Sent m (jsonString d) (jsonString f) b := by
    rintro d f b ⟨rfl, rfl⟩
    exact ⟨hm.toAddr, hm.fromAddr⟩
  have hexec : exec cfg c₀.shared i (.submit (.acceptREST (m :: rest) ids)) =
      some (acceptRESTMessage c₀.shared i m rest ids) := rfl
  have htask : ∀ task connID,
      .submit (.offer task connID) ∈ (acceptRESTMessage c₀.shared i m rest ids).next →
      Sent m task.destAddr task.sourceAddr task.rawBody :=
    fun task connID => Dossier.addresses_of_offer
  -- the request's addresses go with the message, and its id is not given out again
  have hknown : ∀ {ok : GatewayConf → Event Input Action → Prop} {d : GatewayConf},
      (gateway cfg).Reaches ok c₁ d →
      (Dossier.about (gwMsgIDOf (c₀.shared.msgSeq + 1)) (Sent m)).On d ∧
        gwMsgIDOf (c₀.shared.msgSeq + 1) ≠ gwMsgIDOf (d.shared.msgSeq + 1) := by
    intro ok d hd
    obtain ⟨hon, hle⟩ := Dossier.on_about_of_accepted hsent h₀ hhead hexec hstep rfl htask hd
    refine ⟨hon, fun heq => ?_⟩
    have := gwMsgIDOf_injective heq
    omega
  have hfirst := truthful_of_accepted (Restart.reaches_current h₀) hhead hstep
  obtain ⟨⟨σ₀, hc⟩, hreach⟩ := hrun.invariant
    (I := fun d => (∃ σ, Truthful m (gwMsgIDOf (c₀.shared.msgSeq + 1)) σ d) ∧
      (gateway cfg).Reaches Program.Anything c₁ d) ⟨⟨none, hfirst⟩, .start⟩ (by
    rintro d e d' ⟨⟨σ, hd⟩, hreach⟩ hok hs
    obtain ⟨hdos, hid⟩ := hknown hreach
    obtain ⟨σ', hd', -⟩ := hd.event hm hdos hid hok hs
    exact ⟨⟨σ', hd'⟩, hreach.step trivial hs⟩)
  refine ⟨fun st hst => (hc.record st hst).1, ?_⟩
  intro j input a σ connID c₂ c₃ hhead' hnews htold hs hafter hstill st hst
  obtain ⟨hdos, hid⟩ := hknown hreach
  have hc₂ := hc.step hm hdos hid hhead' htold hs
  rw [hnews, Option.map_some, Option.some_or] at hc₂
  obtain ⟨hc₃, -⟩ := hafter.invariant
    (I := fun d => Truthful m (gwMsgIDOf (c₀.shared.msgSeq + 1)) (some σ) d ∧
      (gateway cfg).Reaches Program.Anything c₁ d) ⟨hc₂, hreach.step trivial hs⟩ (by
    rintro d e d' ⟨hd, hreach⟩ hok hs
    obtain ⟨hdos, hid⟩ := hknown hreach
    obtain ⟨σ', hd', hsame⟩ := hd.event hm hdos hid (hok.imp fun _ _ _ h => h.1) hs
    obtain rfl := hsame (hok.imp fun _ _ _ h => h.2)
    exact ⟨hd', hreach.step trivial hs⟩)
  exact (hc₃.record st hst).2 hstill

end Runs

/-! ## Two runs -/

/-- A request without a source and without a reference. -/
def bareRequest : SMSSubmitRequest := { toAddr := ascii "200", fromAddr := [], body := ascii "hi" }

/-- A gateway whose queue holds one message. -/
def shortQueue : RouterConfig := { RouterConfig.loadConfig with forwardQueueSize := 1 }

/-- The queue is full when the request comes in. -/
def bareComes : GatewayConf :=
  (gateway shortQueue).outcome Program.Anything GatewayConf.start
    (restSubmits ++ goroutine 1 (.submit (.handleHTTPSubmit bareRequest)) [{}])

def bareAccepted : GatewayConf :=
  (gateway shortQueue).outcome Program.Anything bareComes [.run 1 {}]

/-- So its message goes to the submit-retry queue, and a drain pass takes it. -/
def bareDrained : GatewayConf :=
  (gateway shortQueue).outcome (Program.When (Told shortQueue bareRequest (gwMsgIDOf 2))) bareAccepted
    (List.replicate 4 (.run 1 {}) ++ goroutine 2 (.submit .drainSubmitRetries) [{}])

def barePending : PendingSubmit :=
  ⟨gwMsgIDOf 2, restApi, ascii "200", [], Smpp.buildSubmitSMBody [] (ascii "200") (ascii "hi"), 1, 0⟩

/-- The SMSC takes the message. -/
def bareForwarded : GatewayConf :=
  (gateway shortQueue).outcome Program.Anything bareDrained
    [.run 2 { attempt := .accepted 0 Receipts.shortID }]

/-- The drain pass is done with it. -/
def bareRecorded : GatewayConf :=
  (gateway shortQueue).outcome (Program.When (Program.Both
    (Told shortQueue bareRequest (gwMsgIDOf 2)) (NoNews shortQueue (gwMsgIDOf 2)))) bareForwarded
    (List.replicate 5 (.run 2 {}))

/-- The status of a message that the drain pass forwarded. -/
theorem bare_status_is_true :
    ∃ st, bareRecorded.shared.store.status.find? (gwMsgIDOf 2) = some st ∧
      Tells (some (.forwarded Receipts.shortID)) st := by
  have hcomes := (gateway shortQueue).reaches_outcome Program.Anything GatewayConf.start
    (restSubmits ++ goroutine 1 (.submit (.handleHTTPSubmit bareRequest)) [{}]) (by decide)
  have haccepted := (gateway shortQueue).step_outcome bareComes (.run 1 {}) (by decide)
  have hdrained := (gateway shortQueue).reaches_outcome
    (Program.When (Told shortQueue bareRequest (gwMsgIDOf 2))) bareAccepted
    (List.replicate 4 (.run 1 {}) ++ goroutine 2 (.submit .drainSubmitRetries) [{}]) (by decide)
  have hforwarded := (gateway shortQueue).step_outcome bareDrained
    (.run 2 { attempt := .accepted 0 Receipts.shortID }) (by decide)
  have hrecorded := (gateway shortQueue).reaches_outcome (Program.When (Program.Both
    (Told shortQueue bareRequest (gwMsgIDOf 2)) (NoNews shortQueue (gwMsgIDOf 2)))) bareForwarded
    (List.replicate 5 (.run 2 {})) (by decide)
  have hsome : (bareRecorded.shared.store.status.find? (gwMsgIDOf 2)).isSome = true := by decide
  obtain ⟨st, hst⟩ := Option.isSome_iff_exists.mp hsome
  refine ⟨st, hst, ?_⟩
  exact (rest_status_is_true shortQueue ⟨by decide, by decide, by decide⟩ hcomes
    (by decide : bareComes.head 1 = some (.submit (.acceptREST [bareRequest] []))) haccepted
    hdrained).2 2 { attempt := .accepted 0 Receipts.shortID } (.submit (.retrySubmit barePending))
    (.forwarded Receipts.shortID) restApi _ _ (by decide) (by decide) (by decide) hforwarded
    hrecorded (by decide) st hst

/-- A request with a source and a reference. -/
def fullRequest : SMSSubmitRequest :=
  { toAddr := ascii "200", fromAddr := ascii "100", body := ascii "hi", reference := ascii "ref" }

/-- The request comes in and its message is accepted, a worker sends it, and a
receipt says that it could not be delivered. -/
def fullComes : GatewayConf :=
  (gateway .loadConfig).outcome Program.Anything GatewayConf.start
    (goroutine 0 (.submit (.handleHTTPSubmit fullRequest)) [{}])

@[inherit_doc fullComes]
def fullAccepted : GatewayConf :=
  (gateway .loadConfig).outcome Program.Anything fullComes [.run 0 {}]

@[inherit_doc fullComes]
def fullForwarded : GatewayConf :=
  (gateway .loadConfig).outcome Program.Anything fullAccepted
    (List.replicate 4 (.run 0 {}) ++ goroutine 1 (.submit .forwardWorker)
      [{}, { attempt := .accepted 0 Receipts.shortID }, {}, {}, {}, {}, {}])

@[inherit_doc fullComes]
def fullReceived : GatewayConf :=
  (gateway .loadConfig).outcome Program.Anything fullForwarded
    (goroutine 2 (Receipts.shortReceipt 0 "UNDELIV") (List.replicate 7 {}))

/-- **The status of an ordinary REST message is wrong after every event.** The
SMSC has taken it and the status is still `accepted`; the receipt says
`UNDELIV` and the status is `delivered`, with the source and the reference
gone. -/
theorem rest_status_is_wrong :
    (gateway .loadConfig).Reaches Program.Anything GatewayConf.start fullComes ∧
    fullComes.head 0 = some (.submit (.acceptREST [fullRequest] [])) ∧
    (gateway .loadConfig).step fullComes (.run 0 {}) = some fullAccepted ∧
    (gateway .loadConfig).Reaches Program.Anything fullAccepted fullForwarded ∧
    (gateway .loadConfig).Reaches Program.Anything fullForwarded fullReceived ∧
    .message (gwMsgIDOf 1) (.attempted (.accepted 0 Receipts.shortID)) ∈ fullForwarded.trace ∧
    Still fullForwarded (gwMsgIDOf 1) ∧
    (∃ st ∈ fullForwarded.shared.store.status.find? (gwMsgIDOf 1),
      st.status = .accepted ∧ st.smscMsgID = []) ∧
    Still fullReceived (gwMsgIDOf 1) ∧
    ∃ st ∈ fullReceived.shared.store.status.find? (gwMsgIDOf 1),
      st.dlrStatus = ascii "UNDELIV" ∧ st.status = .delivered ∧ st.fromAddr = [] ∧
        st.reference = [] := by
  have hcomes := (gateway .loadConfig).reaches_outcome Program.Anything GatewayConf.start
    (goroutine 0 (.submit (.handleHTTPSubmit fullRequest)) [{}]) (by decide)
  have hforwarded := (gateway .loadConfig).reaches_outcome Program.Anything fullAccepted
    (List.replicate 4 (.run 0 {}) ++ goroutine 1 (.submit .forwardWorker)
      [{}, { attempt := .accepted 0 Receipts.shortID }, {}, {}, {}, {}, {}]) (by decide)
  have hreceived := (gateway .loadConfig).reaches_outcome Program.Anything fullForwarded
    (goroutine 2 (Receipts.shortReceipt 0 "UNDELIV") (List.replicate 7 {})) (by decide)
  exact ⟨hcomes, by decide, (gateway .loadConfig).step_outcome _ _ (by decide), hforwarded, hreceived,
    by decide, by decide, by decide, by decide, by decide⟩

end RestStatus

end SmscGateway
