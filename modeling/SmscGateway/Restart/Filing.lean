import SmscGateway.Store.Writer
import SmscGateway.Receipts.Memory

/-!
# How the record of a forwarded message gets to disk

When the SMSC accepts a message, the record that will route its receipts is
stored under the SMSC id: the worker is going to store it, then it is queued
for the writer, then it waits in the writer's batch, and then it is in the
database. An assignment of an id brings exactly one such record into being
(`filings_le`), and unless the id is assigned twice it stays until a receipt
of the message has been handed over or `Cleanup` finds it too old
(`Filed.kept`).
-/

namespace SmscGateway

open List Submits

namespace Restart

open Receipts

variable {cfg : RouterConfig} {c c' : GatewayConf}

/-! ## Who is going to store a record -/

/-- The SMSC id under which an action is going to store a record. -/
def filesUnder : Action → Option Bytes
  | .submit (.getCorrelation _ id) => if id = [] then none else some id
  | .record a => a.stores.bind fun r => if r.smscMsgID = [] then none else some r.smscMsgID
  | _ => none

/-- The SMSC id under which an action stores a record itself. -/
def storesUnder : Action → Option Bytes
  | .record a => filesUnder (.record a)
  | _ => none

/-- The SMSC id under which the goroutine is going to store a record after the
action: the one it just got, or the one it already had. -/
def filesNext (i : Input) (a : Action) : Option Bytes :=
  match a with
  | .submit (.getCorrelation f id) => filesUnder (.submit (.getCorrelation f id))
  | _ => (assigns i a).filter fun id => id ≠ []

section Exec

variable {s : Gateway} {i : Input} {r : GatewayEffect}

theorem acked_back (cl : Caller) : ∀ b ∈ cl.acked, ∃ x, b = .back x := by
  unfold Caller.acked
  split <;> [split; split; skip] <;> simp

/-- The return side stores no submit record. -/
theorem execReturn_filesUnder {a : ReturnAction} (h : execReturn cfg s i a = some r) :
    ∀ b ∈ r.next, filesUnder b = none := by
  have hback : ∀ {l : List Action}, (∀ b ∈ l, ∃ x, b = .back x) →
      ∀ b ∈ l, filesUnder b = none := by
    intro l hl b hb
    obtain ⟨x, rfl⟩ := hl b hb
    rfl
  cases execReturn_moves h with
  | found | stored =>
    refine hback ?_
    simp only [Effect.after, routeReceipt]
    split <;> simp
  | settle rc corr st =>
    intro b hb
    rcases execSettle_next hb with ⟨e, rfl⟩ | ⟨b, rfl, hstores⟩
    · rfl
    · simp [filesUnder, hstores]
  | absent cl | unwritten cl | unacked cl => exact hback (by cases cl <;> simp [Caller.failed])
  | acked cl => exact hback (acked_back cl)
  | drained =>
    refine hback fun b hb => ?_
    obtain ⟨e, -, rfl⟩ := mem_map.mp hb
    exact ⟨_, rfl⟩
  | _ => simp [filesUnder]

theorem enqueueSubmitRetryOrFail_filesUnder {now : Time} {g connID d f body : Bytes} {n : ℕ} :
    (enqueueSubmitRetryOrFail cfg s now g connID d f body n).next.filterMap filesUnder = [] := by
  unfold enqueueSubmitRetryOrFail
  split
  · rfl
  · unfold sendSyntheticDLR
    split <;> rfl

theorem recordForwarded_filesUnder (f : Forward) (id : Bytes) (t : Time) :
    (recordForwarded f id t).filterMap filesUnder = if id = [] then [] else [id] := by
  unfold recordForwarded
  by_cases hid : id = []
  · split <;> simp [filesUnder, RecordAction.stores, hid]
  · split <;> simp [filesUnder, RecordAction.stores, hid]

theorem assigns_eq_none (hatt : ∀ pool id, i.attempt = .accepted pool id → False) (a : Action) :
    assigns i a = none := by
  cases hi : i.attempt with
  | accepted pool id => exact (hatt pool id hi).elim
  | _ =>
    unfold assigns
    split <;> simp [hi]

/-- **A record is going to be stored once for every id**: whoever gets the id
hands the task on, and nobody else takes it up. -/
theorem exec_filesUnder {a : Action} (h : exec cfg s i a = some r) :
    r.next.filterMap filesUnder = (filesNext i a).toList := by
  have hnone : (∀ b ∈ r.next, filesUnder b = none) → filesNext i a = none →
      r.next.filterMap filesUnder = (filesNext i a).toList := by
    intro hb ha
    rw [ha, filterMap_eq_nil_iff.mpr hb]
    rfl
  cases a with
  | submit a =>
    cases execSubmit_moves h with
    | acceptedREST =>
      simp only [acceptRESTMessage]
      split <;> rfl
    | overflowed => exact enqueueSubmitRetryOrFail_filesUnder
    | sent f pool id hatt =>
      by_cases hid : id = [] <;>
        simp [filesNext, assigns, hatt, filesUnder, Option.filter_some, hid]
    | unsent f hatt | unresent p hatt =>
      simp only [filesNext, assigns_eq_none hatt]
      exact enqueueSubmitRetryOrFail_filesUnder
    | getCorrelation f id =>
      rw [filterMap_cons_none rfl, recordForwarded_filesUnder]
      by_cases hid : id = [] <;> simp [filesNext, filesUnder, hid]
    | drained =>
      refine hnone (fun b hb => ?_) rfl
      obtain ⟨p, -, rfl⟩ := mem_map.mp hb
      rfl
    | resent p pool id hatt =>
      rw [filterMap_cons_none rfl, recordForwarded_filesUnder]
      by_cases hid : id = [] <;> simp [filesNext, assigns, hatt, Option.filter_some, hid]
    | _ => rfl
  | record a =>
    refine hnone (fun b hb => ?_) rfl
    obtain ⟨b, rfl, hstores⟩ := (execRecord_frame h).next b hb
    simp [filesUnder, hstores]
  | back a => exact hnone (execReturn_filesUnder h) rfl
  | serve a =>
    refine hnone (fun b hb => ?_) rfl
    obtain ⟨p, rfl⟩ := (execServe_frame h).2.1 b hb
    rfl

end Exec

/-! ## Where the record is on its way -/

variable {id : Bytes} {a : Action} {s : Gateway} {i : Input} {r : GatewayEffect}

/-- The key of a submit record names an SMSC id exactly when the record does. -/
theorem key_eq_msgKey_iff {r : SubmitRecord} :
    r.key = msgKey id ↔ filesUnder (.record (.storeSubmit r)) = some id := by
  by_cases hid : r.smscMsgID = []
  · simp only [SubmitRecord.key, hid, if_true, filesUnder, RecordAction.stores, Option.bind_some,
      reduceCtorEq, iff_false]
    exact fun h => msgKey_ne_gwKey _ _ h.symm
  · simp only [SubmitRecord.key, hid, if_false, filesUnder, RecordAction.stores, Option.bind_some,
      Option.some.injEq]
    exact ⟨msgKey_inj, fun h => h ▸ rfl⟩

/-- How many writes of a key are under way or done. -/
def underWay (s : Submits) (k : Bytes) : ℕ :=
  (s.batch ++ s.writeCh).countP (fun op => op.key = k) +
    if (s.db.find? k).isSome then 1 else 0

section UnderWay

variable (s : Submits) (k : Bytes)

theorem underWay_flush : underWay s.flush k ≤ underWay s k := by
  simp only [underWay, flush, nil_append, countP_append, find?_commit,
    Option.isSome_or, Bool.or_eq_true]
  by_cases hdb : (s.db.find? k).isSome = true
  · simp only [hdb, or_true, if_true]
    omega
  · simp only [hdb]
    split
    · rename_i hlast
      -- a key the batch writes is counted there
      obtain ⟨op, hop⟩ : ∃ op, s.batch.findRev? (fun op => op.key = k) = some op := by
        simpa [lastWrite, Option.isSome_iff_exists] using hlast
      rw [findRev?_eq_find?_reverse] at hop
      have hmem : op ∈ s.batch := mem_reverse.mp (mem_of_find?_eq_some hop)
      have hpos : 0 < s.batch.countP fun op => op.key = k :=
        countP_pos_iff.mpr ⟨op, hmem, by simpa using find?_some hop⟩
      omega
    · omega

theorem underWay_receive {s' : Submits} (h : s.receive = some s') :
    underWay s' k ≤ underWay s k := by
  unfold receive at h
  split at h
  · cases h
  · rename_i op rest hch
    have hmoved : underWay { s with writeCh := rest, batch := s.batch ++ [op] } k =
        underWay s k := by
      simp [underWay, hch]
    cases h
    dsimp only
    split
    · exact (underWay_flush _ k).trans hmoved.le
    · exact hmoved.le

theorem underWay_filter (p : Bytes → SubmitRecord → Bool) :
    underWay { s with db := s.db.filter p } k ≤ underWay s k := by
  simp only [underWay, SortedMap.find?_filter]
  cases s.db.find? k with
  | none => simp
  | some rec => cases hp : p k rec <;> simp [Option.filter_some, hp]

theorem underWay_storeSubmit (r : SubmitRecord) :
    underWay (s.storeSubmit r) k ≤ underWay s k + if r.key = k then 1 else 0 := by
  unfold storeSubmit
  split
  · simp only [underWay, countP_append, countP_cons, countP_nil,
      decide_eq_true_eq]
    omega
  · simp only [underWay, SortedMap.find?_insert]
    by_cases hk : k = r.key
    · simp only [hk, if_true, Option.isSome_some]
      omega
    · simp [hk]

/-- No action but `StoreSubmit` adds a write. -/
theorem underWay_submitsAfter (cfg : RouterConfig) (i : Input) (a : Action) (id : Bytes) :
    underWay (submitsAfter cfg i s a) (msgKey id) ≤ underWay s (msgKey id) +
      if storesUnder a = some id then 1 else 0 := by
  unfold submitsAfter
  split
  · rename_i r
    have hstore := underWay_storeSubmit s (msgKey id) r
    by_cases hid : storesUnder (.record (.storeSubmit r)) = some id
    · rw [if_pos hid]
      rwa [if_pos (key_eq_msgKey_iff.mpr hid)] at hstore
    · rw [if_neg hid]
      rwa [if_neg fun hk => hid (key_eq_msgKey_iff.mp hk)] at hstore
  · exact le_add_right (underWay_filter s _ _)
  · refine le_add_right ?_
    split
    · exact underWay_flush s _
    · cases hrec : s.receive with
      | none => exact le_rfl
      | some s' => exact underWay_receive s _ hrec
  · exact le_add_right (underWay_filter s _ _)
  · exact le_add_right (underWay_filter s _ _)
  · exact Nat.le_add_right _ _

end UnderWay

/-- How many records of an SMSC id there are: on disk, on the way there, or
still to be stored. -/
def filings (c : GatewayConf) (id : Bytes) : ℕ :=
  (c.actions.filterMap filesUnder).count id + underWay c.shared.store.submits (msgKey id)

theorem filesUnder_of_entry (h : entry a = true) : filesUnder a = none := by
  unfold entry at h
  split at h <;> first | rfl | cases h

theorem count_filterMap_cons (a : Action) (rest : Multiset Action) (id : Bytes) :
    ((a ::ₘ rest).filterMap filesUnder).count id =
      (if filesUnder a = some id then 1 else 0) + (rest.filterMap filesUnder).count id := by
  cases ha : filesUnder a with
  | none => simp [Multiset.filterMap_cons_none _ _ ha]
  | some id' =>
    rw [Multiset.filterMap_cons_some _ _ _ ha, Multiset.count_cons, add_comm]
    simp [eq_comm]

theorem count_filterMap_next (h : exec cfg s i a = some r) (rest : Multiset Action) (id : Bytes) :
    (((r.next : Multiset Action) + rest).filterMap filesUnder).count id =
      (if filesNext i a = some id then 1 else 0) + (rest.filterMap filesUnder).count id := by
  rw [Multiset.filterMap_add, Multiset.count_add, Multiset.filterMap_coe, Multiset.coe_count,
    exec_filesUnder h]
  cases filesNext i a with
  | none => simp
  | some id' => simp [count_singleton, beq_iff_eq]

/-- The assignments of an id. -/
def assignments (trace : List Obs) (id : Bytes) : ℕ :=
  ((trace.filterMap assignmentOf).map Prod.fst).count id

theorem assignments_append (l m : List Obs) (id : Bytes) :
    assignments (l ++ m) id = assignments l id + assignments m id := by
  simp [assignments]

/-- An id that was assigned once stands for one message. -/
theorem assigned_unique {trace : List Obs} {g g' : Bytes} (hle : assignments trace id ≤ 1)
    (h : Assigned trace id g) (h' : Assigned trace id g') : g = g' := by
  rw [assignments, count_eq_length_filter, filter_map, length_map] at hle
  have hmem : ∀ {g}, Assigned trace id g → (id, g) ∈
      (trace.filterMap assignmentOf).filter ((fun x => x == id) ∘ Prod.fst) :=
    fun hg => mem_filter.mpr ⟨hg, by simp⟩
  have hx := hmem h
  have hx' := hmem h'
  obtain ⟨x, hone⟩ := length_eq_one_iff.mp (le_antisymm hle (length_pos_of_mem hx))
  rw [hone, mem_singleton] at hx hx'
  exact (Prod.mk.inj (hx.trans hx'.symm)).2

/-- What an action is going to store it had to store before, or the id was
assigned to its message just now. -/
theorem filesNext_cases (h : exec cfg s i a = some r) (id : Bytes) :
    ((if filesNext i a = some id then 1 else 0) + if storesUnder a = some id then 1 else 0) ≤
      (if filesUnder a = some id then 1 else 0) + assignments r.seen id := by
  have hnew : assigns i a = some id → assignments r.seen id = 1 := by
    intro hassign
    obtain ⟨g, pool, hseen, -⟩ := seen_of_assigns h hassign
    simp [assignments, hseen, assignmentOf]
  have hother : filesNext i a = (assigns i a).filter (fun id => id ≠ []) →
      (if filesNext i a = some id then 1 else 0) ≤ assignments r.seen id := by
    intro heq
    split
    · rename_i hnext
      rw [heq] at hnext
      exact (hnew (Option.filter_eq_some_iff.mp hnext).1).ge
    · exact Nat.zero_le _
  cases a with
  | submit a =>
    cases a with
    | getCorrelation f id' => exact Nat.le_add_right _ _
    | _ => exact (hother rfl).trans (Nat.le_add_left _ _)
  | record a =>
    have hsame : storesUnder (.record a) = filesUnder (.record a) := rfl
    rw [hsame]
    have hle := hother rfl
    omega
  | back a => exact (hother rfl).trans (Nat.le_add_left _ _)
  | serve a => exact (hother rfl).trans (Nat.le_add_left _ _)

/-- **Every record goes back to an assignment of its own.** -/
theorem filings_le {ok : GatewayConf → Event Input Action → Prop}
    (h : (gateway cfg).Reaches ok GatewayConf.start c) (id : Bytes) :
    filings c id ≤ assignments c.trace id := by
  refine h.invariant (I := fun c => filings c id ≤ assignments c.trace id) le_rfl ?_
  intro c e c' hc _ hs
  rcases Program.step_cases hs with ⟨a, -, ha, hshared, hact, htr⟩ |
    ⟨j, i, a, r, rest, -, -, hexec, hact, hshared, hact', htr⟩
  · rw [filings, hact, hshared, htr, count_filterMap_cons, filesUnder_of_entry ha]
    simpa [filings] using hc
  · have hsub := underWay_submitsAfter c.shared.store.submits cfg i a id
    rw [← (exec_tables hexec).submits] at hsub
    have hcases := filesNext_cases hexec id
    rw [filings, hact, count_filterMap_cons] at hc
    rw [filings, hact', hshared, htr, count_filterMap_next hexec, assignments_append]
    omega

/-! ## The record stays -/

/-- A write of a key makes it hold something. -/
theorem isSome_view_storeSubmit (s : Submits) (r : SubmitRecord) :
    ((s.storeSubmit r).view r.key).isSome = true := by
  unfold storeSubmit
  split
  · simp [view, pendingWrite, ← append_assoc, lastWrite_append _ [_],
      lastWrite_singleton]
  · simp [view]

/-- What is stored or under way under an SMSC id stays until it is too old or
is cleaned up. -/
theorem view_submitsAfter_keeps (cfg : RouterConfig) (i : Input) (a : Action) {s : Submits}
    (h : (s.view (msgKey id)).isSome = true) :
    ((submitsAfter cfg i s a).view (msgKey id)).isSome = true ∨
      (a = .record .cleanup ∧ ∃ rec, s.getSubmit id = some rec ∧
        (rec.submittedAt : ℤ) < i.now - cfg.messageTTL) ∨
      ∃ rc corr, a = .back (.settle rc corr .deleteSubmit) ∧ rc.parsed.messageID = id := by
  unfold submitsAfter
  split
  · rename_i r
    refine .inl ?_
    by_cases hk : msgKey id = r.key
    · rw [hk]
      exact isSome_view_storeSubmit s r
    · have hne := view_perform_of_ne (s := s) (c := .storeSubmit r) hk
      exact hne ▸ h
  · rename_i g
    have hne := view_perform_of_ne (s := s) (c := .deleteSubmitByGwID g)
      (msgKey_ne_gwKey id g)
    exact .inl (hne ▸ h)
  · refine .inl ?_
    split
    · rwa [view_flush]
    · cases hrec : s.receive with
      | none => exact h
      | some s' =>
        rw [Option.getD_some, view_receive hrec]
        exact h
  · by_cases hpend : (s.pendingWrite (msgKey id)).isSome = true
    · refine .inl ?_
      have hsame : (s.cleanup (i.now - cfg.messageTTL)).pendingWrite (msgKey id) =
          s.pendingWrite (msgKey id) := rfl
      rw [view, hsame, Option.isSome_or, hpend, Bool.true_or]
    · have hnone : s.pendingWrite (msgKey id) = none := by simpa using hpend
      have hdb : (s.getSubmit id).isSome = true := by
        simpa [view, hnone, getSubmit] using h
      rcases submitsAfter_keeps cfg i (.record .cleanup) hdb with hkeep | hold | ⟨rc, corr, ha, -⟩
      · refine .inl ?_
        rw [view, Option.isSome_or, Bool.or_eq_true]
        exact .inr hkeep
      · exact .inr (.inl hold)
      · cases ha
  · rename_i rc corr
    by_cases hid : rc.parsed.messageID = id
    · exact .inr (.inr ⟨rc, corr, rfl, hid⟩)
    · have hkey : msgKey id ≠ msgKey rc.parsed.messageID := fun hk => hid (msgKey_inj hk).symm
      have hne := view_perform_of_ne (s := s) (c := .deleteSubmit rc.parsed.messageID) hkey
      exact .inl (hne ▸ h)
  · exact .inl h

/-- The message an action tries southbound, and the connection id it goes
by. -/
def tries : Action → Option (Bytes × Bytes)
  | .submit (.forwardSubmitRaw f) => some (f.gwMsgID, f.connID)
  | .submit (.retrySubmit p) => some (p.gwMsgID, p.connID)
  | _ => none

/-- What the actions of a run have to respect for the record of a forwarded
message to stay good: the SMSC gives it a new id, the worker goes by the
connection id of the submitter, and `Cleanup` leaves the record alone while
its receipt is awaited. -/
structure Retained (cfg : RouterConfig) (c : GatewayConf) (i : Input) (a : Action) : Prop where
  fresh : ∀ id ∈ assigns i a, id ≠ [] ∧ ∀ x ∈ c.trace.filterMap assignmentOf, x.1 ≠ id
  named : ∀ x ∈ tries a, (assigns i a).isSome = true →
    submitterOf c.trace x.1 = some (jsonString x.2)
  aged : a = .record .cleanup → ∀ x ∈ c.trace.filterMap assignmentOf, .released x.2 ∉ c.trace →
    ∀ rec ∈ c.shared.store.submits.getSubmit x.1,
      (i.now - cfg.messageTTL : ℤ) ≤ rec.submittedAt

instance (cfg : RouterConfig) (c : GatewayConf) (i : Input) (a : Action) :
    Decidable (Retained cfg c i a) :=
  decidable_of_iff
    ((∀ id ∈ assigns i a, id ≠ [] ∧ ∀ x ∈ c.trace.filterMap assignmentOf, x.1 ≠ id) ∧
      (∀ x ∈ tries a, (assigns i a).isSome = true →
        submitterOf c.trace x.1 = some (jsonString x.2)) ∧
      (a = .record .cleanup → ∀ x ∈ c.trace.filterMap assignmentOf, .released x.2 ∉ c.trace →
        ∀ rec ∈ c.shared.store.submits.getSubmit x.1,
          (i.now - cfg.messageTTL : ℤ) ≤ rec.submittedAt))
    ⟨fun h => ⟨h.1, h.2.1, h.2.2⟩, fun h => ⟨h.fresh, h.named, h.aged⟩⟩

/-- The marks of a run that retains its records: the record of an id names the
submitter of its message. -/
def marksAt (trace : List Obs) : Marks where
  cites id g := Assigned trace id g
  names _ _ _ := True
  files id connID := ∀ g, Assigned trace id g → submitterOf trace g = some connID
  owns _ _ := True
  released g := .released g ∈ trace
  looks _ _ := True

/-- What holds in a run that retains its records. -/
structure Filed (c : GatewayConf) : Prop where
  once : ∀ id, assignments c.trace id ≤ 1
  named : ∀ id g, Assigned c.trace id g → id ≠ []
  marks : (marksAt c.trace).On c
  /-- The record of an assigned id is on disk or on its way there. -/
  kept : ∀ id g, Assigned c.trace id g → .released g ∈ c.trace ∨
    (∃ a ∈ c.actions, filesUnder a = some id) ∨
    (c.shared.store.submits.view (msgKey id)).isSome = true

/-- Whoever gets an id gets it for the message it tries. -/
theorem tries_of_assigned (h : exec cfg s i a = some r) {g connID : Bytes}
    (hg : Assigned r.seen id g) (hsender : sender a = some connID) :
    tries a = some (g, connID) := by
  obtain ⟨pool, hp⟩ := assigned_iff.mp hg
  have hw := exec_writes h hp
  unfold sender at hsender
  split at hsender
  · cases hsender
    rw [hw.1]
    rfl
  · cases hsender
    rw [hw.1]
    rfl
  · cases hsender

section Step

variable {j : ℕ} {i : Input} {a : Action} {r : GatewayEffect}

/-- A new id had not been assigned. -/
theorem assignments_step (hc : Filed c) (hok : Retained cfg c i a)
    (hexec : exec cfg c.shared i a = some r) (htr : c'.trace = c.trace ++ r.seen) (id : Bytes) :
    assignments c'.trace id ≤ 1 := by
  rw [htr, assignments_append]
  by_cases hassign : assigns i a = some id
  · have hnone : assignments c.trace id = 0 := by
      rw [assignments, count_eq_zero, mem_map]
      rintro ⟨x, hx, rfl⟩
      exact (hok.fresh x.1 hassign).2 x hx rfl
    obtain ⟨g, pool, hseen, -⟩ := seen_of_assigns hexec hassign
    have hone : assignments r.seen id = 1 := by simp [assignments, hseen, assignmentOf]
    omega
  · have hzero : assignments r.seen id = 0 := by
      rw [assignments, count_eq_zero, mem_map]
      rintro ⟨⟨id', g⟩, hx, rfl⟩
      exact hassign (assigns_of_assigned hexec hx)
    have := hc.once id
    omega

theorem marks_step (hc : Filed c) (hok : Retained cfg c i a)
    (hs : (gateway cfg).step c (.run j i) = some c') (hhead : c.head j = some a)
    (hexec : exec cfg c.shared i a = some r) (hinv' : Pipeline.Inv cfg c')
    (hunique : ∀ id g g', Assigned c'.trace id g → Assigned c'.trace id g' → g = g') :
    (marksAt c'.trace).On c' := by
  have htr := Program.seen_of_step hs hhead hexec
  have hgrows : c.trace ⊆ c'.trace := (Program.trace_of_step hs).subset
  have hseen : r.seen ⊆ c'.trace := htr ▸ subset_append_right _ _
  refine hc.marks.step ⟨fun _ _ => Assigned.mono hgrows, fun _ _ _ _ _ => trivial, ?_,
    fun _ _ _ => trivial, fun _ hg => hgrows hg, fun _ _ _ => trivial⟩ hs
    (fun _ _ => assigned_json hinv') ?_
  · intro id g connID hcites hfiles g' hg'
    obtain rfl := hunique id g' g hg' (Assigned.mono hgrows hcites)
    rw [htr]
    exact submitterOf_append _ (hfiles g' hcites)
  · intro j' i' a' r' he hhead' hexec' _
    obtain ⟨rfl, rfl⟩ := Event.run.inj he
    obtain rfl := Option.some.inj (hhead.symm.trans hhead')
    obtain rfl := Option.some.inj (hexec.symm.trans hexec')
    refine ⟨fun _ _ => Assigned.mono hseen, ?_, fun _ _ _ => trivial, fun _ _ _ _ => trivial,
      fun _ _ _ => trivial, fun _ hg => hseen hg, fun _ _ _ _ => trivial⟩
    intro id connID hassign hsender g hg
    obtain ⟨g₀, pool, hshown, -⟩ := seen_of_assigns hexec hassign
    have hg₀ : Assigned r.seen id g₀ := assigned_iff.mpr ⟨pool, hshown ▸ mem_singleton_self _⟩
    obtain rfl := hunique id g g₀ hg (Assigned.mono hseen hg₀)
    rw [htr]
    exact submitterOf_append _
      (hok.named (g, connID) (tries_of_assigned hexec hg₀ hsender) (hassign ▸ rfl))

/-- **The record of an assigned id is not lost on its way.** -/
theorem kept_step (hc : Filed c) (hok : Retained cfg c i a) {j : ℕ} {rest : Multiset Action}
    (hran : (gateway cfg).Ran c j i a r rest c') {id g : Bytes} (hg : Assigned c'.trace id g) :
    .released g ∈ c'.trace ∨ (∃ b ∈ c'.actions, filesUnder b = some id) ∨
      (c'.shared.store.submits.view (msgKey id)).isSome = true := by
  have hexec : exec cfg c.shared i a = some r := hran.exec
  have hgrows : c.trace ⊆ c'.trace := hran.trace ▸ subset_append_left _ _
  -- the goroutine goes on to store the record
  have hnext : filesNext i a = some id → ∃ b ∈ c'.actions, filesUnder b = some id := by
    intro h
    have hmem : id ∈ r.next.filterMap filesUnder := by
      rw [exec_filesUnder hexec, h]
      exact mem_singleton_self _
    obtain ⟨b, hb, hid⟩ := mem_filterMap.mp hmem
    exact ⟨b, hran.next hb, hid⟩
  have hview : c'.shared.store.submits = submitsAfter cfg i c.shared.store.submits a := by
    rw [hran.shared, (exec_tables hexec).submits]
  rw [hran.trace] at hg
  rcases assigned_append.mp hg with hg | hg
  · rcases hc.kept id g hg with hrel | ⟨b, hb, hid⟩ | hsome
    · exact .inl (hgrows hrel)
    · by_cases hba : b = a
      · subst hba
        unfold filesUnder at hid
        split at hid
        · exact .inr (.inl (hnext hid))
        · rename_i b
          obtain ⟨rec, hrec, hrid⟩ := Option.bind_eq_some_iff.mp hid
          cases b with
          | storeSubmit rec' =>
            obtain rfl := Option.some.inj hrec
            have hkey : rec'.key = msgKey id := key_eq_msgKey_iff.mpr hid
            refine .inr (.inr ?_)
            rw [hview, ← hkey]
            exact isSome_view_storeSubmit _ rec'
          | _ => cases hrec
        · cases hid
      · exact .inr (.inl ⟨b, hran.keeps hb hba, hid⟩)
    · rcases view_submitsAfter_keeps cfg i a hsome with
        hkeep | ⟨ha, rec, hrec, hold⟩ | ⟨rc, corr, rfl, hid⟩
      · exact .inr (.inr (hview ▸ hkeep))
      · by_cases hrel : .released g ∈ c.trace
        · exact .inl (hgrows hrel)
        · exact absurd hold (not_lt.mpr (hok.aged ha (id, g) hg hrel rec hrec))
      · -- what is cleaned up under the id belongs to the message, which is released
        obtain ⟨hcites, hrel⟩ := hc.marks.actions _ hran.mem
        rw [hid] at hcites
        obtain rfl := assigned_unique (hc.once id) hg hcites
        exact .inl (hgrows (hrel rfl))
  · have hassign := assigns_of_assigned hexec hg
    have hne := (hok.fresh id hassign).1
    refine .inr (.inl (hnext ?_))
    unfold filesNext
    split
    · cases hassign
    · rw [hassign, Option.filter_some]
      simp [hne]

end Step

/-- **In every run that retains its records they are on disk or on their way
there.** -/
theorem reaches_filed (h : (gateway cfg).Reaches (Program.When (Retained cfg)) GatewayConf.start c) :
    Filed c := by
  induction h with
  | start =>
    refine ⟨fun id => Nat.zero_le _, fun _ _ h => ?_, Marks.on_start, fun _ _ h => ?_⟩ <;> cases h
  | @step c c' e hr hok hs hc =>
    have hinv' := Pipeline.reaches_inv (hr.step hok hs)
    rcases Program.step_cases hs with ⟨a, rfl, hst⟩ | ⟨j, i, a, r, rest, rfl, hran⟩
    · have htr := hst.trace
      refine ⟨htr ▸ hc.once, htr ▸ hc.named, ⟨?_, fun b hb => ?_⟩, fun id g hg => ?_⟩
      · rw [htr, hst.shared]
        exact hc.marks.state
      · rw [htr]
        rcases hst.cases hb with rfl | hb
        · exact Marks.onAction_of_entry hst.entry
        · exact hc.marks.actions b hb
      · rw [htr] at hg ⊢
        rw [hst.shared]
        rcases hc.kept id g hg with hrel | ⟨b, hb, hid⟩ | hsome
        · exact .inl hrel
        · exact .inr (.inl ⟨b, hst.keeps hb, hid⟩)
        · exact .inr (.inr hsome)
    · have hret : Retained cfg c i a := hok a hran.head
      have hexec : exec cfg c.shared i a = some r := hran.exec
      have honce := assignments_step hc hret hexec hran.trace
      have hnamed : ∀ id g, Assigned c'.trace id g → id ≠ [] := by
        intro id g hg
        rw [hran.trace] at hg
        rcases assigned_append.mp hg with hg | hg
        · exact hc.named id g hg
        · exact (hret.fresh id (assigns_of_assigned hexec hg)).1
      exact ⟨honce, hnamed,
        marks_step hc hret hs hran.head hexec hinv' fun id _ _ => assigned_unique (honce id),
        fun id g => kept_step hc hret hran⟩

end Restart

end SmscGateway
