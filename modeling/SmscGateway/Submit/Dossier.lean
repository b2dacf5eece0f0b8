import SmscGateway.Gateway.Records
import SmscGateway.Submit.Pipeline

/-!
# What goes with a message

A message is accepted with a connection, two addresses and a body. They go with
it through `forwardCh`, the workers and the submit-retry queue (a *parcel*); the
connection and the destination are copied into correlations and submit records
and from there to the handlers of its receipts (a *claim*), and `status:`,
`callback:` and `logidx:` records are kept under its id. `exec_dossier` says
that nothing on the way changes them, JSON aside: what holds of the messages
that are accepted holds of all that is kept and passed on.

There is one exception. A forward worker does not read the connection from the
task it took but from the session the task captured, and a REST task has none.
-/

namespace SmscGateway

open List SortedMap Submits

/-! ## Records and claims -/

/-- A message id with the connection id that some record gives for it. -/
abbrev Claim := Bytes × Bytes

def Correlation.claim (corr : Correlation) : Claim := (corr.gwMsgID, corr.northConnID)

/-- All submit records, in the database or on their way to it. -/
def Submits.records (s : Submits) : List SubmitRecord :=
  s.db.values ++ s.batch.map WriteOp.data ++ s.writeCh.map WriteOp.data

/-- The claims a receipt was routed by. -/
def Obs.claims : Obs → List Claim
  | .matched _ (.rest corr) => [corr.claim]
  | .matched _ (.smpp corr _) => [corr.claim]
  | .message gwMsgID (.synthetic connID) => [(gwMsgID, connID)]
  | _ => []

section Records

variable {s : Submits}

theorem mem_records_of_find? {k : Bytes} {r : SubmitRecord} (h : s.db.find? k = some r) :
    r ∈ s.records := by
  simp only [records, mem_append]
  exact .inl (.inl (mem_values_iff.mpr ⟨k, h⟩))

variable {v : SubmitRecord}

theorem mem_records_storeSubmit {r : SubmitRecord} (h : v ∈ (s.storeSubmit r).records) :
    v = r.json ∨ v ∈ s.records := by
  unfold storeSubmit at h
  split at h
  · simp only [records, map_append, mem_append, map_cons, map_nil,
      mem_singleton] at h ⊢
    tauto
  · simp only [records, mem_append] at h ⊢
    rcases h with (h | h) | h
    · rcases mem_values_insert h with h | h
      · exact .inl h
      · exact .inr (.inl (.inl h))
    · exact .inr (.inl (.inr h))
    · exact .inr (.inr h)

theorem mem_values_commit {ops : List WriteOp} {db : SortedMap Bytes SubmitRecord}
    (h : v ∈ (commit ops db).values) : v ∈ db.values ∨ v ∈ ops.map WriteOp.data := by
  induction ops generalizing db with
  | nil => exact .inl h
  | cons op ops ih =>
    rcases ih h with h | h
    · rcases mem_values_insert h with rfl | h
      · exact .inr mem_cons_self
      · exact .inl h
    · exact .inr (mem_cons_of_mem _ h)

theorem mem_records_flush (h : v ∈ s.flush.records) : v ∈ s.records := by
  simp only [records, flush, map_nil, append_nil, mem_append] at h ⊢
  rcases h with h | h
  · exact .inl (mem_values_commit h)
  · exact .inr h

theorem mem_records_receive {s' : Submits} (hs : s.receive = some s') (h : v ∈ s'.records) :
    v ∈ s.records := by
  unfold receive at hs
  split at hs
  · cases hs
  · rename_i op rest hch
    cases hs
    have hmoved : v ∈ ({ s with writeCh := rest, batch := s.batch ++ [op] } : Submits).records := by
      dsimp only at h
      split at h
      · exact mem_records_flush h
      · exact h
    simp only [records, hch, map_append, map_cons, map_nil, mem_append,
      mem_cons, not_mem_nil, or_false] at hmoved ⊢
    tauto

theorem mem_records_filter {p : Bytes → SubmitRecord → Bool}
    (h : v ∈ ({ s with db := s.db.filter p } : Submits).records) : v ∈ s.records := by
  simp only [records, mem_append] at h ⊢
  rcases h with (h | h) | h
  · exact .inl (.inl (mem_values_filter h))
  · exact .inl (.inr h)
  · exact .inr h

end Records

/-! ## What is known -/

/-- What is known of the messages. -/
structure Dossier where
  /-- Of a message on its way out: the connection it is said to come from, its
  id, its destination, its source and its body. -/
  parcel : Bytes → Bytes → Bytes → Bytes → Bytes → Prop
  /-- Of a correlation or a submit record: the message's id, its connection and
  its destination. -/
  claim : Bytes → Bytes → Bytes → Prop
  /-- Of a `status:`, `callback:` or `logidx:` record: the id it is kept under
  and the one it names. -/
  kept : Bytes → Bytes → Prop

/-- The id `HandleSubmit` logs a rejected submit under. -/
def rejectedID (n : ℕ) : Bytes := ascii "rejected-" ++ decimal n

namespace Dossier

variable (D : Dossier)

def name (g : Bytes) : Prop := D.kept g g

/-- A task captures a session, not a connection id. -/
def OnTask (t : ForwardTask) : Prop :=
  ∃ connID, D.parcel connID t.gwMsgID t.destAddr t.sourceAddr t.rawBody

def OnForward (f : Forward) : Prop :=
  D.parcel f.connID f.gwMsgID f.destAddr f.sourceAddr f.rawBody

def OnPending (p : PendingSubmit) : Prop :=
  D.parcel p.connID p.gwMsgID p.msisdn p.sourceAddr p.rawBody

def OnCorrelation (corr : Correlation) : Prop :=
  D.claim corr.gwMsgID corr.northConnID corr.msisdn

def OnRecord (rec : SubmitRecord) : Prop := D.claim rec.gwMsgID rec.northConnID rec.msisdn

def OnCause : Cause → Prop
  | .receipt _ corr => D.OnCorrelation corr
  | .other => True

def OnCaller : Caller → Prop
  | .direct j | .fallback j => D.OnCause j.cause
  | .redeliver _ => True

/-- The action passes on what is known. -/
@[simp] def OnAction : Action → Prop
  | .submit (.offer t connID) =>
    D.parcel connID t.gwMsgID t.destAddr t.sourceAddr t.rawBody
  | .submit (.forwardSubmitRaw f) => D.OnForward f
  | .submit (.getCorrelation f _) => D.OnForward f
  | .submit (.setCorrelation _ _ _ corr) => D.OnCorrelation corr
  | .submit (.retrySubmit p) => D.OnPending p
  | .record (.storeSubmit rec) => D.OnRecord rec
  | .record (.setMessageStatus st) => D.name st.gwMsgID
  | .record (.setCallback cb) => D.name cb.gwMsgID
  | .record (.logMessage e) => D.name e.gwMsgID
  | .record (.updateMessageLog g _) => D.name g
  | .record (.writeLog g _) => D.name g
  | .record (.postCallback cb _) => D.name cb.gwMsgID
  | .back (.settle _ corr _) => D.OnCorrelation corr
  | .back (.deliverToConn c _) => D.OnCaller c
  | .back (.write c _ _) => D.OnCaller c
  | .back (.await c) => D.OnCaller c
  | .back (.grace j) => D.OnCause j.cause
  | _ => True

/-- What is shown is known. -/
def OnObs (o : Obs) : Prop := ∀ x ∈ o.claims, ∃ d, D.claim x.1 x.2 d

structure OnState (s : Gateway) : Prop where
  forwardCh : ∀ t ∈ s.forwardCh, D.OnTask t
  submitRetries : ∀ p ∈ s.store.submitRetries.values, D.OnPending p
  gw : ∀ corr ∈ s.gwCorrelation.values, D.OnCorrelation corr
  smsc : ∀ corr ∈ s.smscCorrelation.values, D.OnCorrelation corr
  submits : ∀ rec ∈ s.store.submits.records, D.OnRecord rec
  status : ∀ g, (s.store.status.find? g).isSome = true → D.name g
  callbacks : ∀ g cb, s.store.callbacks.find? g = some cb → D.kept g cb.gwMsgID
  log : ∀ g, (s.store.log.find? g).isSome = true → D.name g

/-- A parcel shows what is claimed of it and a claim the id, and JSON changes
nothing of what is known. Rejections have ids of their own. -/
structure Lawful : Prop where
  claim_of_parcel : ∀ {connID g d f b}, D.parcel connID g d f b → D.claim g connID d
  name_of_claim : ∀ {g connID d}, D.claim g connID d → D.name g
  name_of_kept : ∀ {g g'}, D.kept g g' → D.name g'
  rejected : ∀ n, D.name (rejectedID n)
  json : ∀ {connID g d f b}, D.parcel connID g d f b →
    D.parcel (jsonString connID) (jsonString g) (jsonString d) (jsonString f) b
  json_claim : ∀ {g connID d}, D.claim g connID d →
    D.claim (jsonString g) (jsonString connID) (jsonString d)

variable {D}

section Exec

variable {cfg : RouterConfig} {s : Gateway} {i : Input} {r : GatewayEffect}

/-- What an effect leaves is in order. -/
structure Keeps (D : Dossier) (r : GatewayEffect) : Prop where
  state : D.OnState r.state
  next : ∀ b ∈ r.next, D.OnAction b
  seen : ∀ o ∈ r.seen, D.OnObs o

theorem onObs_of_silent {l : List Obs} (h : l.all (fun o => o.claims.isEmpty) = true) :
    ∀ o ∈ l, D.OnObs o := by
  intro o ho x hx
  rw [isEmpty_iff.mp (all_eq_true.mp h o ho)] at hx
  cases hx

/-- The tables that speak of messages stay as they are, and nothing is shown of
one. -/
theorem Keeps.still (hs : D.OnState s)
    (h : (r.state.forwardCh, r.state.gwCorrelation, r.state.smscCorrelation,
      r.state.store.submits, r.state.store.submitRetries, r.state.store.status,
      r.state.store.callbacks, r.state.store.log) =
      (s.forwardCh, s.gwCorrelation, s.smscCorrelation, s.store.submits, s.store.submitRetries,
        s.store.status, s.store.callbacks, s.store.log))
    (hn : ∀ b ∈ r.next, D.OnAction b)
    (ho : r.seen.all (fun o => o.claims.isEmpty) = true) : D.Keeps r := by
  simp only [Prod.mk.injEq] at h
  obtain ⟨h₁, h₂, h₃, h₄, h₅, h₆, h₇, h₈⟩ := h
  exact ⟨⟨h₁ ▸ hs.forwardCh, h₅ ▸ hs.submitRetries, h₂ ▸ hs.gw, h₃ ▸ hs.smsc, h₄ ▸ hs.submits,
    h₆ ▸ hs.status, h₇ ▸ hs.callbacks, h₈ ▸ hs.log⟩, hn, onObs_of_silent ho⟩

theorem Keeps.after {seen : List Obs} (hr : D.Keeps r)
    (hseen : seen.all (fun o => o.claims.isEmpty) = true) : D.Keeps (r.after seen) := by
  refine ⟨hr.state, hr.next, fun o ho => ?_⟩
  rcases mem_append.mp ho with ho | ho
  · exact onObs_of_silent hseen o ho
  · exact hr.seen o ho

/-- A record under a good id joins. -/
theorem name_insert {B : Bytes → Prop} {β : Type} {m : SortedMap Bytes β} {k : Bytes} (v : β)
    (hm : ∀ g, (m.find? g).isSome = true → B g) (hk : B k) :
    ∀ g, ((m.insert k v).find? g).isSome = true → B g := by
  intro g hg
  rw [find?_insert] at hg
  split at hg
  · rename_i heq
    exact heq ▸ hk
  · exact hm g hg

/-- Records go. -/
theorem name_filter {B : Bytes → Prop} {β : Type} {m : SortedMap Bytes β} {p : Bytes → β → Bool}
    (hm : ∀ g, (m.find? g).isSome = true → B g) :
    ∀ g, ((m.filter p).find? g).isSome = true → B g := by
  intro g hg
  rw [SortedMap.find?_filter] at hg
  obtain ⟨v, hv⟩ := Option.isSome_iff_exists.mp hg
  exact hm g (Option.isSome_iff_exists.mpr ⟨v, (Option.filter_eq_some_iff.mp hv).1⟩)

theorem kept_insert (hs : D.OnState s) {cb : CallbackRecord} {k : Bytes} (hcb : D.kept k cb.gwMsgID) :
    ∀ g cb', (s.store.callbacks.insert k cb).find? g = some cb' → D.kept g cb'.gwMsgID := by
  intro g cb' hg
  rw [find?_insert] at hg
  split at hg
  · rename_i heq
    cases hg
    exact heq ▸ hcb
  · exact hs.callbacks g cb' hg

theorem callbackActions_keeps (hlaw : D.Lawful) (hs : D.OnState s) (now : Time)
    (g st d f : Bytes) : ∀ a ∈ callbackActions s now g st d f, D.OnAction a := by
  unfold callbackActions
  split
  · simp
  · rename_i cb hcb
    intro a ha
    rw [mem_singleton.mp ha]
    exact hlaw.name_of_kept (hs.callbacks _ _ hcb)

/-! ### The return side -/

theorem routeReceipt_keeps (hs : D.OnState s) (n : ℕ) (rc : Receipt) {corr : Correlation}
    (hcorr : D.OnCorrelation corr) : D.Keeps (routeReceipt s n rc corr) := by
  have hseen : ∀ {o o' : Obs}, o.claims = [corr.claim] → o'.claims = [] →
      ∀ p ∈ [o, o'], D.OnObs p := by
    intro o o' ho ho' p hp x hx
    rcases mem_cons.mp hp with rfl | hp
    · rw [ho] at hx
      rw [mem_singleton.mp hx]
      exact ⟨_, hcorr⟩
    · rw [mem_singleton.mp hp, ho'] at hx
      cases hx
  unfold routeReceipt
  split
  · exact ⟨⟨hs.1, hs.2, hs.3, hs.4, hs.5, hs.6, hs.7, hs.8⟩, by simpa using hcorr,
      hseen rfl rfl⟩
  · exact ⟨⟨hs.1, hs.2, hs.3, hs.4, hs.5, hs.6, hs.7, hs.8⟩,
      by simpa [OnCaller, OnCause] using hcorr, hseen rfl rfl⟩

theorem failed_keeps {c : Caller} (hc : D.OnCaller c) : ∀ b ∈ c.failed, D.OnAction b := by
  cases c with
  | direct j => simpa [Caller.failed, OnCaller] using hc
  | _ => simp [Caller.failed]

theorem acked_keeps {c : Caller} (hc : D.OnCaller c) : ∀ b ∈ c.acked, D.OnAction b := by
  have hjob : ∀ j : Job, D.OnCause j.cause → ∀ b ∈ (Caller.direct j).acked, D.OnAction b := by
    intro j hj
    cases hcause : j.cause with
    | other => simp [Caller.acked, hcause]
    | receipt rc corr =>
      rw [hcause] at hj
      simpa [Caller.acked, hcause, OnCause] using hj
  cases c with
  | redeliver e => simp [Caller.acked]
  | direct j => exact hjob j hc
  | fallback j => exact hjob j hc

theorem releases_silent (c : Caller) : c.releases.all (fun o => o.claims.isEmpty) = true := by
  unfold Caller.releases
  split <;> [split; split; skip] <;> rfl

theorem execSettle_keeps (hlaw : D.Lawful) (hs : D.OnState s) (rc : Receipt) {corr : Correlation}
    (hcorr : D.OnCorrelation corr) (st : Settlement) : D.Keeps (execSettle s i rc corr st) := by
  have hname := hlaw.name_of_claim hcorr
  cases st with
  | updateMessageLog =>
    simp only [execSettle]
    split
    · exact .still hs rfl (by simp) rfl
    · exact .still hs rfl (by simpa using hcorr) rfl
  | writeLog e =>
    exact ⟨{ hs with log := name_insert _ hs.log hname }, by simp [execSettle],
      onObs_of_silent rfl⟩
  | deliverDLRCallback => exact .still hs rfl (callbackActions_keeps hlaw hs _ _ _ _ _) rfl
  | setMessageStatus =>
    exact ⟨{ hs with status := name_insert _ hs.status hname }, by simp [execSettle],
      onObs_of_silent rfl⟩
  | deleteSmscCorrelation =>
    exact ⟨{ hs with smsc := fun v hv => hs.smsc v (mem_values_filter hv) },
      by simp [execSettle], onObs_of_silent rfl⟩
  | deleteGwCorrelation =>
    exact ⟨{ hs with gw := fun v hv => hs.gw v (mem_values_filter hv) },
      by simp [execSettle], onObs_of_silent rfl⟩
  | deleteSubmit =>
    exact ⟨{ hs with submits := fun v hv => hs.submits v (mem_records_filter hv) },
      by simp [execSettle], onObs_of_silent rfl⟩

theorem execReturn_keeps {a : ReturnAction} (hlaw : D.Lawful) (h : execReturn cfg s i a = some r)
    (hs : D.OnState s) (ha : D.OnAction (.back a)) : D.Keeps r := by
  cases execReturn_moves h with
  | found rc corr hesm hparse hfind =>
    have hroute := routeReceipt_keeps (s := { s with arrivals := s.arrivals + 1 })
      { hs with } s.arrivals rc (hs.smsc corr (mem_values_iff.mpr ⟨_, hfind⟩))
    exact hroute.after rfl
  | took pool it connID next hkind hesm hnext =>
    refine .still hs rfl ?_ rfl
    rcases hnext with rfl | rfl <;> simp [OnCaller, OnCause, moJob]
  | stored n rc rec hfind =>
    exact routeReceipt_keeps hs n rc (hs.submits rec (mem_records_of_find? hfind))
  | settle rc corr st => exact execSettle_keeps hlaw hs rc ha st
  | absent | unwritten | unacked => exact .still hs rfl (failed_keeps ha) rfl
  | acked c => exact .still hs rfl (acked_keeps ha) (releases_silent c)
  | present | written | fallsBack =>
    exact .still hs rfl (by simpa [OnCaller] using ha) rfl
  | drained =>
    refine .still hs rfl (fun b hb => ?_) ?_
    · obtain ⟨e, -, rfl⟩ := mem_map.mp hb
      trivial
    · simp only [all_append, all_map, Bool.and_eq_true]
      refine ⟨rfl, all_eq_true.mpr fun e _ => ?_⟩
      simp only [Function.comp_apply]
      split <;> rfl
  | _ => exact .still hs rfl (by simp [OnCaller]) rfl

/-! ### Records -/

theorem execRecord_keeps {a : RecordAction} (hlaw : D.Lawful)
    (h : execRecord cfg s i a = some r) (hs : D.OnState s) (ha : D.OnAction (.record a)) :
    D.Keeps r := by
  -- a record action shows nothing of a message
  have hkeeps : D.OnState r.state → (∀ b ∈ r.next, D.OnAction b) → D.Keeps r := by
    refine fun hstate hnext => ⟨hstate, hnext, fun o ho => ?_⟩
    obtain ⟨url, payload, rfl⟩ := (execRecord_frame h).seen o ho
    exact fun x hx => by cases hx
  cases a with
  | storeSubmit rec =>
    cases h
    refine hkeeps { hs with submits := fun v hv => ?_ } (by simp)
    rcases mem_records_storeSubmit hv with rfl | hv
    · exact hlaw.json_claim ha
    · exact hs.submits v hv
  | setMessageStatus st =>
    cases h
    exact hkeeps { hs with status := name_insert _ hs.status ha } (by simp)
  | setCallback cb =>
    cases h
    exact hkeeps { hs with callbacks := kept_insert hs ha } (by simp)
  | logMessage e =>
    cases h
    exact hkeeps { hs with log := name_insert _ hs.log ha } (by simp)
  | updateMessageLog g u =>
    simp only [execRecord] at h
    split at h <;> cases h
    · exact .still hs rfl (by simp) rfl
    · exact .still hs rfl (by simpa using ha) rfl
  | writeLog g e =>
    cases h
    exact hkeeps { hs with log := name_insert _ hs.log ha } (by simp)
  | deliverDLRCallback g st d f =>
    cases h
    exact .still hs rfl (callbackActions_keeps hlaw hs _ _ _ _ _) rfl
  | postCallback cb payload =>
    cases h
    refine hkeeps ?_ (by simp)
    simp only [postCallback]
    split
    · refine { hs with callbacks := fun g cb' hg => ?_ }
      have hold := find?_erase s.store.callbacks cb.gwMsgID g
      rw [hg] at hold
      split at hold
      · cases hold
      · exact hs.callbacks g cb' hold.symm
    · exact { hs with callbacks := kept_insert hs ha }
  | batchWriteLoop =>
    obtain ⟨submits, hsub, rfl⟩ := Option.map_eq_some_iff.mp h
    refine hkeeps { hs with submits := fun v hv => hs.submits v ?_ } (by simp)
    split at hsub
    · cases hsub
      exact mem_records_flush hv
    · exact mem_records_receive hsub hv
  | deleteSubmitByGwID =>
    cases h
    exact hkeeps { hs with submits := fun v hv => hs.submits v (mem_records_filter hv) } (by simp)
  | cleanup =>
    cases h
    exact hkeeps { hs with
      submits := fun v hv => hs.submits v (mem_records_filter hv)
      status := name_filter hs.status
      log := name_filter hs.log } (by simp)
  | deleteGwCorrelation | expireGw =>
    cases h
    exact hkeeps { hs with gw := fun v hv => hs.gw v (mem_values_filter hv) } (by simp)
  | expireSmsc =>
    cases h
    exact hkeeps { hs with smsc := fun v hv => hs.smsc v (mem_values_filter hv) }
      (by simp)
  | cleanupCorrelations =>
    cases h
    refine .still hs rfl (fun b hb => ?_) rfl
    rcases mem_append.mp hb with hb | hb
    · obtain ⟨e, -, rfl⟩ := mem_map.mp hb
      trivial
    · rw [mem_singleton.mp hb]
      trivial
  | collectGw cutoff =>
    cases h
    refine .still hs rfl (fun b hb => ?_) rfl
    obtain ⟨e, -, rfl⟩ := mem_map.mp hb
    trivial

/-! ### The submit side -/

/-- A failed attempt keeps the parcel. -/
theorem enqueueSubmitRetryOrFail_keeps (hlaw : D.Lawful) (hs : D.OnState s) {now : Time}
    {g connID d f body : Bytes} {n : ℕ} (hg : D.parcel connID g d f body) :
    D.Keeps (enqueueSubmitRetryOrFail cfg s now g connID d f body n) := by
  have hclaim := hlaw.claim_of_parcel hg
  have hname : D.kept g g := hlaw.name_of_claim hclaim
  unfold enqueueSubmitRetryOrFail
  split
  · exact ⟨{ hs with submitRetries := forall_values_insert hs.submitRetries (hlaw.json hg) },
      by simp, onObs_of_silent rfl⟩
  · unfold sendSyntheticDLR
    split
    · exact ⟨{ hs with }, by simpa [name] using hname,
        by simpa [OnObs, Obs.claims] using ⟨d, hclaim⟩⟩
    · exact ⟨{ hs with }, by simpa [OnCaller, OnCause, name] using hname,
        by simpa [OnObs, Obs.claims] using ⟨d, hclaim⟩⟩

theorem recordForwarded_keeps (hlaw : D.Lawful) {f : Forward} (hf : D.OnForward f) (id : Bytes)
    (t : Time) : ∀ b ∈ recordForwarded f id t, D.OnAction b := by
  have hrec : D.claim f.gwMsgID f.connID f.destAddr := hlaw.claim_of_parcel hf
  have hname : D.kept f.gwMsgID f.gwMsgID := hlaw.name_of_claim hrec
  unfold recordForwarded
  split <;> simpa [OnRecord, name] using ⟨hrec, hname⟩

theorem execSubmit_keeps {a : SubmitAction} (hlaw : D.Lawful)
    (h : execSubmit cfg s i a = some r) (hs : D.OnState s) (ha : D.OnAction (.submit a))
    (hnew : ∀ t connID, .submit (.offer t connID) ∈ r.next → D.OnAction (.submit (.offer t connID)))
    (hworker : a = .forwardWorker → ∀ t ∈ s.forwardCh.head?, D.OnTask t →
      D.parcel (s.server.idOf t.conn) t.gwMsgID t.destAddr t.sourceAddr t.rawBody) :
    D.Keeps r := by
  cases execSubmit_moves h with
  | rejected =>
    refine .still hs rfl ?_ rfl
    simpa [rejectedID] using hlaw.rejected (s.msgSeq + 1)
  | accepted =>
    have htask := hnew _ _ (mem_cons_of_mem _ (mem_cons_of_mem _ mem_cons_self))
    have hclaim := hlaw.claim_of_parcel htask
    refine ⟨{ hs with gw := forall_values_insert hs.gw hclaim }, ?_, ?_⟩
    · have hname := hlaw.name_of_claim hclaim
      simpa [acceptSubmit, OnRecord] using ⟨hclaim, hname, htask⟩
    · refine onObs_of_silent ?_
      simp only [acceptSubmit]
      split <;> rfl
  | answered =>
    exact .still hs rfl (by simp)
      (all_map.trans (all_eq_true.mpr fun _ _ => rfl))
  | acceptedREST =>
    have htask := hnew _ _ (mem_append_right _ mem_cons_self)
    have hclaim := hlaw.claim_of_parcel htask
    have hname := hlaw.name_of_claim hclaim
    refine ⟨{ hs with gw := forall_values_insert hs.gw hclaim }, ?_, onObs_of_silent rfl⟩
    simp only [acceptRESTMessage]
    split <;> simpa [OnRecord] using ⟨hclaim, hname, htask⟩
  | queued task =>
    refine ⟨{ hs with forwardCh := fun t ht => ?_ }, by simp, onObs_of_silent rfl⟩
    rcases mem_append.mp ht with ht | ht
    · exact hs.forwardCh t ht
    · exact mem_singleton.mp ht ▸ ⟨_, ha⟩
  | overflowed | unsent | unresent => exact (enqueueSubmitRetryOrFail_keeps hlaw hs ha).after rfl
  | taken task rest hch =>
    have htasks : ∀ t ∈ task :: rest, D.OnTask t := hch ▸ hs.forwardCh
    refine ⟨{ hs with forwardCh := fun t ht => htasks t (mem_cons_of_mem _ ht) }, ?_,
      onObs_of_silent rfl⟩
    simpa [OnForward] using
      hworker rfl task (by rw [hch]; rfl) (htasks task mem_cons_self)
  | sent => exact .still hs rfl (by simpa using ha) rfl
  | getCorrelation f id corr hcorr =>
    refine .still hs rfl (fun b hb => ?_) rfl
    rcases mem_cons.mp hb with rfl | hb
    · simp only [OnAction, hcorr]
      cases hfind : s.gwCorrelation.find? f.gwMsgID with
      | none => exact hlaw.claim_of_parcel ha
      | some corr => exact hs.gw corr (mem_values_iff.mpr ⟨_, hfind⟩)
    · exact recordForwarded_keeps hlaw ha _ _ b hb
  | setCorrelation =>
    exact ⟨{ hs with smsc := forall_values_insert hs.smsc ha }, by simp,
      onObs_of_silent rfl⟩
  | drained out hout =>
    have hsplit := drainSubmitRetries_values cfg.submitRetryLimit s.store.submitRetries
    have hmem := hs.submitRetries
    rw [← hsplit, hout] at hmem
    refine ⟨{ hs with submitRetries := fun p hp => hmem p (mem_append_right _ hp) },
      fun b hb => ?_, onObs_of_silent ?_⟩
    · obtain ⟨p, hp, rfl⟩ := mem_map.mp hb
      exact hmem p (mem_append_left _ hp)
    · simp [Obs.claims]
  | resent p =>
    refine .still hs rfl (fun b hb => ?_) rfl
    rcases mem_cons.mp hb with rfl | hb
    · exact hlaw.claim_of_parcel ha
    · have hf : D.OnForward ⟨p.connID, p.gwMsgID, p.msisdn, p.sourceAddr, p.rawBody⟩ := ha
      exact recordForwarded_keeps hlaw hf _ _ b hb
  | _ => exact .still hs rfl (by simp) rfl

/-- **What goes with a message is not changed**, if the session a worker reads
the connection from is the right one. -/
theorem exec_dossier {a : Action} (hlaw : D.Lawful) (h : exec cfg s i a = some r)
    (hs : D.OnState s) (ha : D.OnAction a)
    (hnew : ∀ t connID, .submit (.offer t connID) ∈ r.next → D.OnAction (.submit (.offer t connID)))
    (hworker : a = .submit .forwardWorker → ∀ t ∈ s.forwardCh.head?, D.OnTask t →
      D.parcel (s.server.idOf t.conn) t.gwMsgID t.destAddr t.sourceAddr t.rawBody) :
    D.Keeps r := by
  cases a with
  | submit a => exact execSubmit_keeps hlaw h hs ha hnew fun ha => hworker (ha ▸ rfl)
  | record a => exact execRecord_keeps hlaw h hs ha
  | back a => exact execReturn_keeps hlaw h hs ha
  | serve a =>
    obtain ⟨hst, hnext, hseen⟩ := execServe_frame h
    refine .still hs (by rw [hst]) (fun b hb => ?_) (by rw [hseen]; rfl)
    obtain ⟨p, rfl⟩ := hnext b hb
    trivial

end Exec

/-! ## Runs -/

/-- All that a configuration holds is in order. -/
structure On (D : Dossier) (c : GatewayConf) : Prop where
  state : D.OnState c.shared
  actions : ∀ a ∈ c.actions, D.OnAction a

/-- Nor was anything shown that is not. -/
structure OnRun (D : Dossier) (c : GatewayConf) : Prop extends D.On c where
  trace : ∀ o ∈ c.trace, D.OnObs o

variable {cfg : RouterConfig} {c c' : GatewayConf} {e : Event Input Action}

theorem onRun_start : D.OnRun GatewayConf.start := by
  refine ⟨⟨⟨?_, ?_, ?_, ?_, ?_, ?_, fun _ _ h => ?_, ?_⟩, ?_⟩, ?_⟩
  all_goals first | cases h | exact fun _ h => by cases h

/-- Nothing is known yet of what comes in. -/
theorem onAction_of_entry {a : Action} (h : entry a = true) : D.OnAction a := by
  unfold entry at h
  split at h <;> trivial

/-- **A step keeps what is known**, if it is known of the messages it
accepts and of those a worker takes. Nor is anything shown that is not known. -/
theorem On.step (hlaw : D.Lawful) (hc : D.On c) (hs : (gateway cfg).step c e = some c')
    (hnew : ∀ j i a r, e = .run j i → c.head j = some a → exec cfg c.shared i a = some r →
      ∀ t connID, .submit (.offer t connID) ∈ r.next → D.OnAction (.submit (.offer t connID)))
    (hworker : ∀ j i, e = .run j i → c.head j = some (.submit .forwardWorker) →
      ∀ t ∈ c.shared.forwardCh.head?, D.OnTask t →
        D.parcel (c.shared.server.idOf t.conn) t.gwMsgID t.destAddr t.sourceAddr t.rawBody) :
    D.On c' ∧ ∀ o ∈ c'.trace, o ∈ c.trace ∨ D.OnObs o := by
  have hkeeps {j i a r rest} (he : e = .run j i) (hran : (gateway cfg).Ran c j i a r rest c') :=
    exec_dossier hlaw hran.exec hc.state (hc.actions a hran.mem)
      (hnew j i a r he hran.head hran.exec) fun ha => hworker j i he (ha ▸ hran.head)
  refine ⟨⟨?_, ?_⟩, fun o ho => ?_⟩
  · rcases Program.step_cases hs with ⟨a, -, hst⟩ | ⟨j, i, a, r, rest, he, hran⟩
    · exact hst.shared ▸ hc.state
    · exact hran.shared ▸ (hkeeps he hran).state
  · exact Program.forall_of_step hs hc.actions (fun _ => onAction_of_entry)
      fun j i a r rest he hran => (hkeeps he hran).next
  · rcases Program.mem_trace_of_step hs ho with ho | ⟨j, i, a, r, rest, he, hran, ho⟩
    · exact .inl ho
    · exact .inr ((hkeeps he hran).seen o ho)

/-! ## Knowing less -/

/-- The second dossier says less. -/
structure Le (D D' : Dossier) : Prop where
  parcel : ∀ {connID g d f b}, D.parcel connID g d f b → D'.parcel connID g d f b
  claim : ∀ {g connID d}, D.claim g connID d → D'.claim g connID d
  kept : ∀ {g g'}, D.kept g g' → D'.kept g g'

variable {D' : Dossier}

theorem OnState.mono {s : Gateway} (h : D.Le D') (hs : D.OnState s) : D'.OnState s :=
  ⟨fun t ht => (hs.forwardCh t ht).imp fun _ => h.parcel, fun p hp => h.parcel (hs.submitRetries p hp),
    fun corr hcorr => h.claim (hs.gw corr hcorr), fun corr hcorr => h.claim (hs.smsc corr hcorr),
    fun rec hrec => h.claim (hs.submits rec hrec), fun g hg => h.kept (hs.status g hg),
    fun g cb hg => h.kept (hs.callbacks g cb hg), fun g hg => h.kept (hs.log g hg)⟩

theorem OnAction.mono (h : D.Le D') {a : Action} (ha : D.OnAction a) : D'.OnAction a := by
  have hcause : ∀ {x : Cause}, D.OnCause x → D'.OnCause x := by
    intro x hx
    cases x with
    | receipt rc corr => exact h.claim hx
    | other => trivial
  have hcaller : ∀ {k : Caller}, D.OnCaller k → D'.OnCaller k := by
    intro k hk
    cases k with
    | redeliver e => trivial
    | direct j | fallback j => exact hcause hk
  unfold OnAction at ha ⊢
  split at ha
  all_goals first
    | exact h.parcel ha
    | exact h.claim ha
    | exact h.kept ha
    | exact hcaller ha
    | exact hcause ha
    | trivial

theorem On.mono (h : D.Le D') (hc : D.On c) : D'.On c :=
  ⟨hc.state.mono h, fun a ha => (hc.actions a ha).mono h⟩

theorem OnRun.mono (h : D.Le D') (hc : D.OnRun c) : D'.OnRun c :=
  ⟨hc.toOn.mono h, fun o ho x hx => (hc.trace o ho x hx).imp fun _ => h.claim⟩

end Dossier

end SmscGateway
