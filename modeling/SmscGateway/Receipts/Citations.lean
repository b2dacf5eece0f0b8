import SmscGateway.Gateway.Tables

/-!
# What an SMSC id stands for

When the SMSC accepts a message it assigns an id to it, and from then on the
id is all a receipt says about the message. The correlation table, the submit
records, the worker that is about to store them and the handlers of matched
receipts all cite a message under an SMSC id. `exec_marks` says that every
citation goes back to an assignment, that clean-up of a correlation follows
its release, and that a pending look-up belongs to a receipt that arrived.
-/

namespace SmscGateway

open List

namespace Receipts

/-- The SMSC id an observation assigns, and to which message. -/
def assignmentOf : Obs → Option (Bytes × Bytes)
  | .message g (.attempted (.accepted _ id)) => some (id, g)
  | _ => none

/-- The id was assigned to the message. -/
def Assigned (trace : List Obs) (id g : Bytes) : Prop := (id, g) ∈ trace.filterMap assignmentOf

instance (trace : List Obs) (id g : Bytes) : Decidable (Assigned trace id g) :=
  inferInstanceAs (Decidable (_ ∈ _))

theorem assigned_iff {trace : List Obs} {id g : Bytes} :
    Assigned trace id g ↔ ∃ pool, .message g (.attempted (.accepted pool id)) ∈ trace := by
  constructor
  · intro h
    obtain ⟨o, ho, hx⟩ := mem_filterMap.mp h
    unfold assignmentOf at hx
    split at hx
    · rename_i g' pool id'
      obtain ⟨rfl, rfl⟩ := Prod.mk.inj (Option.some.inj hx)
      exact ⟨pool, ho⟩
    · cases hx
  · rintro ⟨pool, h⟩
    exact mem_filterMap.mpr ⟨_, h, rfl⟩

theorem assigned_append {l m : List Obs} {id g : Bytes} :
    Assigned (l ++ m) id g ↔ Assigned l id g ∨ Assigned m id g := by
  rw [Assigned, filterMap_append, mem_append]
  rfl

theorem Assigned.mono {l l' : List Obs} (h : l ⊆ l') {id g : Bytes} (ha : Assigned l id g) :
    Assigned l' id g := by
  obtain ⟨pool, hp⟩ := assigned_iff.mp ha
  exact assigned_iff.mpr ⟨pool, h hp⟩

/-- The SMSC id an action gets for its message. -/
def assigns (i : Input) : Action → Option Bytes
  | .submit (.forwardSubmitRaw _) | .submit (.retrySubmit _) =>
    match i.attempt with
    | .accepted _ id => some id
    | _ => none
  | _ => none

/-- The connection id an action goes by that tries a message southbound. -/
def sender : Action → Option Bytes
  | .submit (.forwardSubmitRaw f) => some f.connID
  | .submit (.retrySubmit p) => some p.connID
  | _ => none

/-! ## Marks -/

/-- What the gateway holds about receipts: which id stands for which message,
which messages are released, and which look-ups are under way; and what
connection id a correlation names for a message (`names`), a submit record
of an SMSC id, in JSON (`files`), and the entry of `gwCorrelation` (`owns`). -/
structure Marks where
  cites : Bytes → Bytes → Prop
  names : Bytes → Bytes → Bytes → Prop
  files : Bytes → Bytes → Prop
  owns : Bytes → Bytes → Prop
  released : Bytes → Prop
  looks : ℕ → Receipt → Prop

/-- Does this step of `handleDLR` remove what a later receipt is matched
with? -/
def forgets : Settlement → Bool
  | .deleteSmscCorrelation | .deleteSubmit => true
  | _ => false

namespace Marks

variable (K : Marks)

def OnJob (j : Job) : Prop :=
  ∀ r corr, j.cause = .receipt r corr → K.cites r.parsed.messageID corr.gwMsgID

def OnCaller : Caller → Prop
  | .direct j | .fallback j => K.OnJob j
  | .redeliver _ => True

/-- The marks of a pending action. -/
@[simp] def OnAction : Action → Prop
  | .submit (.getCorrelation f id) => K.cites id f.gwMsgID ∧ K.files id (jsonString f.connID)
  | .submit (.setCorrelation _ g id corr) =>
    corr.gwMsgID = g ∧ K.cites id g ∧ K.names id g corr.northConnID
  | .record a => ∀ r ∈ a.stores, r.smscMsgID ≠ [] →
    K.cites r.smscMsgID r.gwMsgID ∧ K.files r.smscMsgID (jsonString r.northConnID)
  | .back (.getSubmit n r) => K.looks n r
  | .back (.settle r corr st) =>
    K.cites r.parsed.messageID corr.gwMsgID ∧ (forgets st = true → K.released corr.gwMsgID)
  | .back (.deliverToConn c _) => K.OnCaller c
  | .back (.write c _ _) => K.OnCaller c
  | .back (.await c) => K.OnCaller c
  | .back (.grace j) => K.OnJob j
  | .back (.buffer j) => K.OnJob j
  | _ => True

/-- A write on its way to the database. -/
def OnWrite (op : WriteOp) : Prop :=
  ∀ id, op.key = msgKey id → K.cites id op.data.gwMsgID ∧ K.files id op.data.northConnID

structure OnSubmits (s : Submits) : Prop where
  db : ∀ id rec, s.db.find? (msgKey id) = some rec →
    K.cites id rec.gwMsgID ∧ K.files id rec.northConnID
  batch : ∀ op ∈ s.batch, K.OnWrite op
  writeCh : ∀ op ∈ s.writeCh, K.OnWrite op

structure OnState (s : Gateway) : Prop where
  memory : ∀ id corr, s.smscCorrelation.find? id = some corr →
    K.cites id corr.gwMsgID ∧ K.names id corr.gwMsgID corr.northConnID
  submits : K.OnSubmits s.store.submits
  gw : ∀ g corr, s.gwCorrelation.find? g = some corr →
    corr.gwMsgID = g ∧ K.owns g corr.northConnID

/-- What the marks have to admit for an action to keep them. -/
structure Admits (s : Gateway) (i : Input) (a : Action) (r : GatewayEffect) : Prop where
  assigned : ∀ id g, Assigned r.seen id g → K.cites id g
  filed : ∀ id connID, assigns i a = some id → sender a = some connID →
    K.files id (jsonString connID)
  named : ∀ f id, a = .submit (.getCorrelation f id) →
    K.names id f.gwMsgID
      (((s.gwCorrelation.find? f.gwMsgID).map Correlation.northConnID).getD f.connID)
  retried : ∀ p id, a = .submit (.retrySubmit p) → assigns i a = some id →
    K.names id p.gwMsgID p.connID
  owned : ∀ g o, .message g (.accepted o) ∈ r.seen → K.owns g o.connID
  released : ∀ g, .released g ∈ r.seen → K.released g
  looks : ∀ n rc, .arrived n rc.pool rc.parsed.messageID ∈ r.seen →
    Smpp.parseDLRReceipt rc.payload = some rc.parsed → K.looks n rc

variable {K}

/-! ### Submit records -/

section Submits

variable {s : Submits}

theorem onWrite_key {r : SubmitRecord} (hjson : ∀ id g, K.cites id g → K.cites id (jsonString g))
    (hr : r.smscMsgID ≠ [] →
      K.cites r.smscMsgID r.gwMsgID ∧ K.files r.smscMsgID (jsonString r.northConnID)) :
    K.OnWrite ⟨r.key, r.json⟩ := by
  intro id hid
  by_cases hempty : r.smscMsgID = []
  · simp only [SubmitRecord.key, hempty, if_true] at hid
    exact absurd hid.symm (msgKey_ne_gwKey _ _)
  · simp only [SubmitRecord.key, hempty, if_false] at hid
    obtain rfl := msgKey_inj hid
    exact ⟨hjson _ _ (hr hempty).1, (hr hempty).2⟩

theorem onDb_insert {db : SortedMap Bytes SubmitRecord} {op : WriteOp}
    (hdb : ∀ id rec, db.find? (msgKey id) = some rec →
      K.cites id rec.gwMsgID ∧ K.files id rec.northConnID)
    (hop : K.OnWrite op) : ∀ id rec, (db.insert op.key op.data).find? (msgKey id) = some rec →
      K.cites id rec.gwMsgID ∧ K.files id rec.northConnID := by
  intro id rec h
  rw [SortedMap.find?_insert] at h
  split at h
  · rename_i hkey
    cases h
    exact hop id hkey.symm
  · exact hdb id rec h

theorem OnSubmits.storeSubmit (h : K.OnSubmits s) {r : SubmitRecord}
    (hr : K.OnWrite ⟨r.key, r.json⟩) : K.OnSubmits (s.storeSubmit r) := by
  unfold Submits.storeSubmit
  split
  · refine ⟨h.db, h.batch, fun op hop => ?_⟩
    rcases mem_append.mp hop with hop | hop
    · exact h.writeCh op hop
    · rw [mem_singleton.mp hop]
      exact hr
  · exact ⟨onDb_insert h.db hr, h.batch, h.writeCh⟩

theorem onDb_commit {ops : List WriteOp} {db : SortedMap Bytes SubmitRecord}
    (hdb : ∀ id rec, db.find? (msgKey id) = some rec →
      K.cites id rec.gwMsgID ∧ K.files id rec.northConnID)
    (hops : ∀ op ∈ ops, K.OnWrite op) :
    ∀ id rec, (Submits.commit ops db).find? (msgKey id) = some rec →
      K.cites id rec.gwMsgID ∧ K.files id rec.northConnID := by
  induction ops generalizing db with
  | nil => exact hdb
  | cons op ops ih =>
    exact ih (onDb_insert hdb (hops op mem_cons_self))
      fun op' h => hops op' (mem_cons_of_mem _ h)

theorem OnSubmits.flush (h : K.OnSubmits s) : K.OnSubmits s.flush :=
  ⟨onDb_commit h.db h.batch, by simp [Submits.flush], h.writeCh⟩

theorem OnSubmits.receive {s' : Submits} (h : K.OnSubmits s) (hs : s.receive = some s') :
    K.OnSubmits s' := by
  unfold Submits.receive at hs
  split at hs
  · cases hs
  · rename_i op rest hch
    cases hs
    have hmoved : K.OnSubmits { s with writeCh := rest, batch := s.batch ++ [op] } := by
      refine ⟨h.db, fun o ho => ?_, fun o ho => ?_⟩
      · rcases mem_append.mp ho with ho | ho
        · exact h.batch o ho
        · rw [mem_singleton.mp ho]
          exact h.writeCh op (hch ▸ mem_cons_self)
      · exact h.writeCh o (hch ▸ mem_cons_of_mem _ ho)
    dsimp only
    split
    · exact hmoved.flush
    · exact hmoved

theorem OnSubmits.filter (h : K.OnSubmits s) (p : Bytes → SubmitRecord → Bool) :
    K.OnSubmits { s with db := s.db.filter p } := by
  refine ⟨fun id rec hf => ?_, h.batch, h.writeCh⟩
  rw [SortedMap.find?_filter] at hf
  exact h.db id rec (Option.filter_eq_some_iff.mp hf).1

end Submits

/-! ### What one action does -/

section Exec

variable {cfg : RouterConfig} {s : Gateway} {i : Input} {r : GatewayEffect}

theorem onState_of_tables {a : Action} (ht : Tables cfg s i a r)
    (hjson : ∀ id g, K.cites id g → K.cites id (jsonString g)) (hs : K.OnState s)
    (ha : K.OnAction a) (hadm : K.Admits s i a r) : K.OnState r.state := by
  refine ⟨?_, ?_, ?_⟩
  · intro id corr hid
    rw [ht.smsc] at hid
    unfold smscAfter at hid
    split at hid
    · rw [SortedMap.find?_insert] at hid
      split at hid
      · rename_i hkey
        cases hid
        obtain ⟨rfl, hcites, hnames⟩ := ha
        exact hkey ▸ ⟨hcites, hnames⟩
      · exact hs.memory id corr hid
    · rw [SortedMap.find?_erase] at hid
      split at hid
      · cases hid
      · exact hs.memory id corr hid
    · rw [SortedMap.find?_erase] at hid
      split at hid
      · cases hid
      · exact hs.memory id corr hid
    · exact hs.memory id corr hid
  · rw [ht.submits]
    unfold submitsAfter
    split
    · exact hs.submits.storeSubmit (onWrite_key hjson (ha _ rfl))
    · exact hs.submits.filter _
    · split
      · exact hs.submits.flush
      · cases hrec : s.store.submits.receive with
        | none => exact hs.submits
        | some submits => exact hs.submits.receive hrec
    · exact hs.submits.filter _
    · exact hs.submits.filter _
    · exact hs.submits
  · intro g corr hg
    rcases ht.gw g corr hg with hold | ⟨hkey, o, ho, hconn⟩
    · exact hs.gw g corr hold
    · exact ⟨hkey, hconn ▸ hadm.owned g o ho⟩

theorem onAction_recordForwarded {f : Forward} {id : Bytes} {t : Time}
    (hf : K.cites id f.gwMsgID ∧ K.files id (jsonString f.connID)) :
    ∀ a ∈ recordForwarded f id t, K.OnAction a := by
  unfold recordForwarded
  split <;> simpa [RecordAction.stores] using fun _ => hf

theorem execSubmit_marks {a : SubmitAction} (h : execSubmit cfg s i a = some r) (hs : K.OnState s)
    (ha : K.OnAction (.submit a)) (hadm : K.Admits s i (.submit a) r) :
    ∀ b ∈ r.next, K.OnAction b := by
  cases execSubmit_moves h with
  | acceptedREST =>
    simp only [acceptRESTMessage]
    split <;> simp [RecordAction.stores]
  | overflowed | unsent | unresent =>
    unfold enqueueSubmitRetryOrFail
    split
    · simp [Effect.after]
    · unfold sendSyntheticDLR
      split <;> simp [Effect.after, OnCaller, OnJob, RecordAction.stores]
  | sent f pool id hatt =>
    have hseen : Assigned [.message f.gwMsgID (.attempted i.attempt)] id f.gwMsgID := by
      rw [hatt]
      exact assigned_iff.mpr ⟨pool, mem_singleton_self _⟩
    intro b hb
    obtain rfl := mem_singleton.mp hb
    exact ⟨hadm.assigned _ _ hseen, hadm.filed id _ (by simp [assigns, hatt]) rfl⟩
  | getCorrelation f id corr hcorr =>
    intro b hb
    rcases mem_cons.mp hb with rfl | hb
    · -- the correlation found under the message's id is the message's
      have hnamed := hadm.named f id rfl
      subst hcorr
      cases hfind : s.gwCorrelation.find? f.gwMsgID with
      | none => exact ⟨rfl, ha.1, by simpa [hfind] using hnamed⟩
      | some corr => exact ⟨(hs.gw _ _ hfind).1, ha.1, by simpa [hfind] using hnamed⟩
    · exact onAction_recordForwarded ha b hb
  | drained =>
    intro b hb
    obtain ⟨p, -, rfl⟩ := mem_map.mp hb
    trivial
  | resent p pool id hatt =>
    have hseen : Assigned [.message p.gwMsgID (.attempted i.attempt)] id p.gwMsgID := by
      rw [hatt]
      exact assigned_iff.mpr ⟨pool, mem_singleton_self _⟩
    have hid : K.cites id p.gwMsgID := hadm.assigned _ _ hseen
    have hassigns : assigns i (.submit (.retrySubmit p)) = some id := by simp [assigns, hatt]
    intro b hb
    rcases mem_cons.mp hb with rfl | hb
    · exact ⟨rfl, hid, hadm.retried p id rfl hassigns⟩
    · exact onAction_recordForwarded ⟨hid, hadm.filed id _ hassigns rfl⟩ b hb
  | _ => simp [acceptSubmit, RecordAction.stores]

theorem routeReceipt_marks {n : ℕ} {rc : Receipt} {corr : Correlation}
    (hcites : K.cites rc.parsed.messageID corr.gwMsgID)
    (hreleased : ∀ g, .released g ∈ (routeReceipt s n rc corr).seen → K.released g) :
    ∀ b ∈ (routeReceipt s n rc corr).next, K.OnAction b := by
  unfold routeReceipt at hreleased ⊢
  split
  · rename_i hrest
    rw [if_pos hrest] at hreleased
    have hrel := hreleased corr.gwMsgID (by simp)
    intro b hb
    simp only [mem_cons, not_mem_nil, or_false] at hb
    rcases hb with rfl | rfl | rfl | rfl | rfl | rfl <;> exact ⟨hcites, fun _ => hrel⟩
  · intro b hb
    simp only [mem_cons, not_mem_nil, or_false] at hb
    rcases hb with rfl | rfl
    · exact ⟨hcites, fun h => by cases h⟩
    · intro r' corr' hcause
      obtain ⟨rfl, rfl⟩ := Cause.receipt.inj hcause
      exact hcites

theorem onAction_failed {c : Caller} (h : K.OnCaller c) : ∀ a ∈ c.failed, K.OnAction a := by
  cases c <;> intro a ha <;> obtain rfl := mem_singleton.mp ha <;> exact h

theorem onAction_acked {c : Caller} (h : K.OnCaller c)
    (hreleased : ∀ g, .released g ∈ c.releases → K.released g) : ∀ a ∈ c.acked, K.OnAction a := by
  have hjob : ∀ j : Job, K.OnJob j →
      (∀ r corr, j.cause = .receipt r corr → K.released corr.gwMsgID) →
      ∀ r corr, j.cause = .receipt r corr → ∀ st,
        K.OnAction (.back (.settle r corr st)) := fun j hj hrel r corr hc st =>
    ⟨hj r corr hc, fun _ => hrel r corr hc⟩
  cases c with
  | redeliver e => simp [Caller.acked]
  | direct j =>
    cases hc : j.cause with
    | other => simp [Caller.acked, hc]
    | receipt r corr =>
      have hst := hjob j h (fun r' corr' hc' => hreleased _ (by simp [Caller.releases, hc'])) r corr hc
      simpa only [Caller.acked, hc, mem_cons, not_mem_nil, or_false, forall_eq_or_imp,
        forall_eq] using ⟨hst _, hst _, hst _, hst _⟩
  | fallback j =>
    cases hc : j.cause with
    | other => simp [Caller.acked, hc]
    | receipt r corr =>
      have hst := hjob j h (fun r' corr' hc' => hreleased _ (by simp [Caller.releases, hc'])) r corr hc
      simpa only [Caller.acked, hc, mem_cons, not_mem_nil, or_false, forall_eq_or_imp,
        forall_eq] using ⟨hst _, hst _, hst _, hst _⟩

theorem execReturn_marks {a : ReturnAction} (h : execReturn cfg s i a = some r) (hs : K.OnState s)
    (ha : K.OnAction (.back a)) (hadm : K.Admits s i (.back a) r) :
    ∀ b ∈ r.next, K.OnAction b := by
  have hone : ∀ {b : Action}, K.OnAction b → ∀ b' ∈ [b], K.OnAction b' := by
    intro b hb b' hb'
    exact mem_singleton.mp hb' ▸ hb
  cases execReturn_moves h with
  | found rc corr hesm hparse hfind =>
    exact routeReceipt_marks (hs.memory _ _ hfind).1
      fun g hg => hadm.released g (mem_append_right _ hg)
  | missed rc hesm hparse => exact hone (hadm.looks _ rc (mem_singleton_self _) hparse)
  | took pool it connID next hkind hesm hnext =>
    rcases hnext with rfl | rfl <;> simp [OnCaller, OnJob, moJob]
  | stored n rc rec hfind => exact routeReceipt_marks (hs.submits.db _ _ hfind).1 hadm.released
  | settle rc corr st =>
    intro b hb
    rcases execSettle_next hb with ⟨e, rfl⟩ | ⟨b, rfl, hstores⟩
    · exact ⟨ha.1, fun h => by cases h⟩
    · intro r' hr'
      rw [hstores] at hr'
      cases hr'
  | absent | unwritten | unacked => exact onAction_failed ha
  | acked => exact onAction_acked ha fun g hg => hadm.released g (mem_cons_of_mem _ hg)
  | present | written | held | fallsBack => exact hone ha
  | drained =>
    intro b hb
    obtain ⟨e, -, rfl⟩ := mem_map.mp hb
    trivial
  | _ => simp [OnCaller]

/-- **Every citation goes back to an assignment**, every clean-up to a
release, every look-up to an arrival. -/
theorem exec_marks {a : Action} (h : exec cfg s i a = some r)
    (hjson : ∀ id g, K.cites id g → K.cites id (jsonString g)) (hs : K.OnState s)
    (ha : K.OnAction a) (hadm : K.Admits s i a r) :
    K.OnState r.state ∧ ∀ b ∈ r.next, K.OnAction b := by
  refine ⟨onState_of_tables (exec_tables h) hjson hs ha hadm, ?_⟩
  cases a with
  | submit a => exact execSubmit_marks h hs ha hadm
  | record a =>
    intro b hb
    obtain ⟨b, rfl, hstores⟩ := (execRecord_frame h).next b hb
    intro r' hr'
    rw [hstores] at hr'
    cases hr'
  | back a => exact execReturn_marks h hs ha hadm
  | serve a =>
    intro b hb
    obtain ⟨p, rfl⟩ := (execServe_frame h).2.1 b hb
    trivial

end Exec

end Marks

end Receipts

end SmscGateway
