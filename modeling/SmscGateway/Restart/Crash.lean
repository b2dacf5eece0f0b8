import SmscGateway.Restart.Filing
import SmscGateway.Submit.Conservation

/-!
# What a crash leaves of an accepted message

A crash loses everything but what Pebble has committed, and `run` reads back
nothing but configuration: the submit-retry queue goes on because it is
drained from disk, the forward queue starts empty, and a `gw:` record is never
looked at. So a message that was answered and is not finished survives a crash
exactly when the crash does not find it in memory: in a handler, in
`forwardCh`, with a worker or a drain pass, or with its `msg:` record not yet
committed (`survives_iff`).
-/

namespace SmscGateway

/-- What a new process starts with on the data directory a crash leaves: what
was committed. -/
def Gateway.restart (s : Gateway) : Gateway :=
  { Gateway.start with
    store := { s.store with submits := { Submits.empty with db := s.store.submits.db } }
    tickets := s.tickets
    arrivals := s.arrivals }

namespace Restart

open Receipts Multiset Pipeline List

variable {cfg : RouterConfig} {c : GatewayConf}

/-- The message an observation finishes: it failed for good, or a receipt of it
was handed over. -/
def finishes : Obs → Option Bytes
  | .message gwMsgID (.synthetic _) => some gwMsgID
  | .released gwMsgID => some gwMsgID
  | _ => none

/-- The message has reached a terminal outcome. -/
def Finished (trace : List Obs) (gwMsgID : Bytes) : Prop := gwMsgID ∈ trace.filterMap finishes

instance (trace : List Obs) (gwMsgID : Bytes) : Decidable (Finished trace gwMsgID) :=
  inferInstanceAs (Decidable (_ ∈ _))

/-- A process in this state still has the message: in the submit-retry queue,
in the forward queue, or in a `msg:` record under its SMSC id that names it and
its submitter. -/
def Survives (trace : List Obs) (s : Gateway) (gwMsgID : Bytes) : Prop :=
  (∃ p ∈ s.store.submitRetries.values, p.gwMsgID = gwMsgID) ∨
  (∃ t ∈ s.forwardCh, t.gwMsgID = gwMsgID) ∨
  ∃ x ∈ trace.filterMap assignmentOf, x.2 = gwMsgID ∧
    ∃ rec ∈ s.store.submits.getSubmit x.1,
      rec.gwMsgID = gwMsgID ∧ submitterOf trace gwMsgID = some rec.northConnID

instance (trace : List Obs) (s : Gateway) (gwMsgID : Bytes) :
    Decidable (Survives trace s gwMsgID) :=
  inferInstanceAs (Decidable (_ ∨ _ ∨ ∃ x ∈ _, _ ∧ ∃ rec ∈ _, _))

/-- The message an action is the only one to know of: it is about to queue it,
to try it, or to store the record of its SMSC id. -/
def carries : Action → Option Bytes
  | .submit (.offer task _) => some task.gwMsgID
  | .submit (.forwardSubmitRaw f) => some f.gwMsgID
  | .submit (.retrySubmit p) => some p.gwMsgID
  | .submit (.getCorrelation f _) => some f.gwMsgID
  | .record a => a.stores.bind fun r => if r.smscMsgID = [] then none else some r.gwMsgID
  | _ => none

/-- The write is of a `msg:` record. -/
def isMsg (op : WriteOp) : Bool := (ascii "msg:").isPrefixOf op.key

/-- The message is only in memory. -/
def Volatile (c : GatewayConf) (gwMsgID : Bytes) : Prop :=
  (∃ t ∈ c.shared.forwardCh, t.gwMsgID = gwMsgID) ∨
  gwMsgID ∈ c.actions.filterMap carries ∨
  ∃ op ∈ c.shared.store.submits.batch ++ c.shared.store.submits.writeCh,
    isMsg op = true ∧ op.data.gwMsgID = gwMsgID
  deriving Decidable

theorem isMsg_iff {op : WriteOp} : isMsg op = true ↔ ∃ id, op.key = msgKey id := by
  rw [isMsg, isPrefixOf_iff_prefix]
  exact ⟨fun ⟨id, h⟩ => ⟨id, h.symm⟩, fun ⟨id, h⟩ => ⟨id, h.symm⟩⟩

/-! ## Before the SMSC has accepted it -/

variable {g id : Bytes}

/-- A message that is still to be tried is in memory, unless it waits in the
submit-retry queue. -/
theorem volatile_of_phase {φ : Pipeline.Phase} (hφ : (g, φ) ∈ (track c).tokens)
    (hopen : ¬ Finished c.trace g) (hnew : φ ≠ .forwarded) (hcorr : ∀ h, φ ≠ .correlating h) :
    Volatile c g ∨ ∃ p ∈ c.shared.store.submitRetries.values, p.gwMsgID = g := by
  rcases mem_tokens_iff.mp hφ with
    ⟨t, ht, hg, -⟩ | ⟨p, hp, hg, -⟩ | ⟨a, ha, hholds⟩ | ⟨o, ho, hends⟩
  · exact .inl (.inl ⟨t, ht, hg⟩)
  · exact .inr ⟨p, hp, hg⟩
  · refine .inl (.inr (.inl ((mem_filterMap carries _).mpr ⟨a, ha, ?_⟩)))
    unfold holds at hholds
    split at hholds <;> cases hholds
    · rfl
    · rfl
    · exact absurd rfl (hcorr _)
    · exact absurd rfl (hcorr _)
    · rfl
  · unfold ends at hends
    split at hends <;> cases hends
    · exact absurd rfl hnew
    · exact absurd (mem_filterMap.mpr ⟨_, ho, rfl⟩ : Finished c.trace g) hopen

/-! ## Once the SMSC has accepted it -/

theorem onWrite_of_mem {K : Marks} {s : Submits} (h : K.OnSubmits s) {op : WriteOp}
    (hop : op ∈ s.batch ++ s.writeCh) : K.OnWrite op := by
  rcases mem_append.mp hop with hop | hop
  · exact h.batch op hop
  · exact h.writeCh op hop

/-- A message past its last attempt has an SMSC id. -/
theorem assigned_of_phase {φ : Pipeline.Phase}
    (htr : (rules cfg).Traced (history c g) φ)
    (hφ : φ = .forwarded ∨ ∃ h, φ = .correlating h) : ∃ id, Assigned c.trace id g := by
  have hled := ledger_of_traced htr
  have hone : successes (history c g) = 1 := by
    rcases hφ with rfl | ⟨h, rfl⟩ <;> simp only [Pipeline.Ledger] at hled <;> omega
  obtain ⟨l, hl, hsucc⟩ := countP_pos_iff.mp (hone ▸ Nat.one_pos :
    0 < successes (history c g))
  have hmem := mem_history.mp hl
  unfold isSuccess at hsucc
  split at hsucc
  · rename_i pool id
    exact ⟨id, assigned_iff.mpr ⟨pool, hmem⟩⟩
  · cases hsucc

/-- The action that is going to store the record of an id carries the message
of the id. -/
theorem carries_of_filesUnder (hc : Filed c) {a : Action} (ha : a ∈ c.actions)
    (hid : filesUnder a = some id) (hg : Assigned c.trace id g) : carries a = some g := by
  have hmark := hc.marks.actions a ha
  unfold filesUnder at hid
  split at hid
  · obtain ⟨-, rfl⟩ := eq_of_refusal hid
    exact congrArg some (assigned_unique (hc.once _) hmark.1 hg)
  · obtain ⟨rec, hrec, hrid⟩ := Option.bind_eq_some_iff.mp hid
    obtain ⟨hne, rfl⟩ := eq_of_refusal hrid
    have heq := assigned_unique (hc.once _) (hmark rec hrec hne).1 hg
    simp [carries, hrec, hne, heq]
  · cases hid

/-- The record of a message the SMSC has accepted is on disk, or the message is
in memory. -/
theorem volatile_or_stored (hc : Filed c) (hg : Assigned c.trace id g)
    (hopen : ¬ Finished c.trace g) :
    Volatile c g ∨ ∃ rec, c.shared.store.submits.getSubmit id = some rec ∧ rec.gwMsgID = g ∧
      submitterOf c.trace g = some rec.northConnID := by
  rcases hc.kept id g hg with hrel | ⟨a, ha, hid⟩ | hsome
  · exact absurd (mem_filterMap.mpr ⟨_, hrel, rfl⟩ : Finished c.trace g) hopen
  · exact .inl (.inr (.inl ((mem_filterMap carries _).mpr
      ⟨a, ha, carries_of_filesUnder hc ha hid hg⟩)))
  · cases hpend : c.shared.store.submits.pendingWrite (msgKey id) with
    | some d =>
      -- a write of the key is queued or batched
      obtain ⟨op, hop, -⟩ := Option.map_eq_some_iff.mp hpend
      rw [findRev?_eq_find?_reverse] at hop
      have hmem := mem_reverse.mp (mem_of_find?_eq_some hop)
      have hkey : op.key = msgKey id := by simpa using find?_some hop
      have hcites := (onWrite_of_mem hc.marks.state.submits hmem id hkey).1
      exact .inl (.inr (.inr ⟨op, hmem, isMsg_iff.mpr ⟨id, hkey⟩,
        assigned_unique (hc.once id) hcites hg⟩))
    | none =>
      have hdb : (c.shared.store.submits.getSubmit id).isSome = true := by
        simpa [Submits.view, hpend, Submits.getSubmit] using hsome
      obtain ⟨rec, hrec⟩ := Option.isSome_iff_exists.mp hdb
      obtain ⟨hcites, hfiles⟩ := hc.marks.state.submits.db id rec hrec
      exact .inr ⟨rec, hrec, assigned_unique (hc.once id) hcites hg, hfiles g hg⟩

/-- The message is on its way to the SMSC. -/
def Untried (c : GatewayConf) (g : Bytes) : Prop :=
  ∃ φ, (g, φ) ∈ (Pipeline.track c).tokens ∧ φ ≠ .forwarded ∧ (∀ h, φ ≠ .correlating h) ∧
    ∀ n, φ ≠ .retrying n

/-- **What it means to be in memory**: the message is on its way to the SMSC,
or the record of the id it got there is still to be committed. -/
theorem volatile_cases (hc : Filed c) (h : Volatile c g) :
    Untried c g ∨ ∃ id, Assigned c.trace id g ∧
      ((∃ a ∈ c.actions, filesUnder a = some id) ∨
        ∃ op ∈ c.shared.store.submits.batch ++ c.shared.store.submits.writeCh,
          op.key = msgKey id) := by
  rcases h with ⟨t, ht, rfl⟩ | hcarried | ⟨op, hop, hmsg, rfl⟩
  · exact .inl ⟨.queued, mem_tokens_iff.mpr (.inl ⟨t, ht, rfl, rfl⟩), by simp, by simp,
      by simp⟩
  · obtain ⟨a, ha, hg⟩ := (mem_filterMap carries _).mp hcarried
    have htok : ∀ {φ}, holds a = some (g, φ) → (g, φ) ∈ (track c).tokens :=
      fun h => mem_tokens_iff.mpr (.inr (.inr (.inl ⟨a, ha, h⟩)))
    have hmark := hc.marks.actions a ha
    unfold carries at hg
    split at hg
    · cases hg
      exact .inl ⟨.accepting, htok rfl, by simp, by simp, by simp⟩
    · cases hg
      exact .inl ⟨.forwarding, htok rfl, by simp, by simp, by simp⟩
    · rename_i p
      cases hg
      exact .inl ⟨.draining p.retryCount, htok rfl, by simp, by simp, by simp⟩
    · rename_i f id
      cases hg
      have hassigned : Assigned c.trace id f.gwMsgID := hmark.1
      exact .inr ⟨id, hassigned, .inl ⟨_, ha, if_neg (hc.named id _ hassigned)⟩⟩
    · obtain ⟨rec, hrec, hid⟩ := Option.bind_eq_some_iff.mp hg
      obtain ⟨hne, rfl⟩ := eq_of_refusal hid
      exact .inr ⟨rec.smscMsgID, (hmark rec hrec hne).1,
        .inl ⟨_, ha, by simp [filesUnder, hrec, hne]⟩⟩
    · cases hg
  · obtain ⟨id, hkey⟩ := isMsg_iff.mp hmsg
    have hcites := (onWrite_of_mem hc.marks.state.submits hop id hkey).1
    exact .inr ⟨id, hcites, .inr ⟨op, hop, hkey⟩⟩

/-- A message in the submit-retry queue is not in memory. -/
theorem not_volatile_of_retrying (hinv : Pipeline.Inv cfg c) (hc : Filed c) {p : PendingSubmit}
    (hp : p ∈ c.shared.store.submitRetries.values) : ¬ Volatile c p.gwMsgID := by
  have htok : (p.gwMsgID, .retrying p.retryCount) ∈ (track c).tokens :=
    mem_tokens_iff.mpr (.inr (.inl ⟨p, hp, rfl, rfl⟩))
  intro hvol
  rcases volatile_cases hc hvol with ⟨φ, hφ, -, -, hretry⟩ | ⟨id, hid, -⟩
  · exact hretry _ (hinv.faithful.phase_unique hφ htok)
  · -- a message the SMSC has accepted is not tried again
    obtain ⟨pool, hpool⟩ := assigned_iff.mp hid
    rcases phase_of_success hinv hpool rfl htok with h | ⟨_, h⟩ <;> cases h

/-- **A record on disk is the only one**: nobody is going to store it once more,
and no write of it is under way. -/
theorem not_volatile_of_stored (hinv : Pipeline.Inv cfg c) (hc : Filed c)
    (hle : ∀ id, filings c id ≤ assignments c.trace id) (hg : Assigned c.trace id g)
    (hrec : (c.shared.store.submits.getSubmit id).isSome = true) : ¬ Volatile c g := by
  have hone : filings c id ≤ 1 := (hle id).trans (hc.once id)
  have hdb : (c.shared.store.submits.db.find? (msgKey id)).isSome = true := hrec
  simp only [filings, underWay, hdb, if_true] at hone
  intro hvol
  rcases volatile_cases hc hvol with ⟨φ, hφ, hnew, hcorr, -⟩ | ⟨id', hid', hpending⟩
  · obtain ⟨pool, hp⟩ := assigned_iff.mp hg
    rcases phase_of_success hinv hp rfl hφ with h | ⟨h, hh⟩
    · exact hnew h
    · exact hcorr h hh
  · obtain rfl := assigned_id_unique hinv hid' hg
    rcases hpending with ⟨a, ha, hid⟩ | ⟨op, hop, hkey⟩
    · have hcount : 0 < (c.actions.filterMap filesUnder).count id' :=
        count_pos.mpr ((mem_filterMap filesUnder _).mpr ⟨a, ha, hid⟩)
      omega
    · have hcount : 0 < (c.shared.store.submits.batch ++ c.shared.store.submits.writeCh).countP
          fun op => op.key = msgKey id' :=
        countP_pos_iff.mpr ⟨op, hop, by simpa using hkey⟩
      omega

/-! ## The result -/

/-- **What survives a crash.** In every state of every run that retains its
records, a message that was answered and is not finished survives a crash and
the restart after it exactly when it is not in memory. -/
theorem survives_iff
    (h : (gateway cfg).Reaches (Program.When (Retained cfg)) GatewayConf.start c) {gwMsgID : Bytes}
    (hans : .answered gwMsgID ∈ c.trace) (hopen : ¬ Finished c.trace gwMsgID) :
    Survives c.trace c.shared.restart gwMsgID ↔ ¬ Volatile c gwMsgID := by
  have hinv := Pipeline.reaches_inv h
  have hc := reaches_filed h
  constructor
  · rintro (⟨p, hp, rfl⟩ | ⟨t, ht, -⟩ | ⟨⟨id, g⟩, hx, rfl, rec, hrec, -⟩)
    · exact not_volatile_of_retrying hinv hc hp
    · cases ht
    · exact not_volatile_of_stored hinv hc (filings_le h) hx (Option.isSome_iff_exists.mpr ⟨rec, hrec⟩)
  · intro hvol
    obtain ⟨o, ho⟩ := Pipeline.reaches_answers h gwMsgID (.inl hans)
    obtain ⟨φ, hφ, htr⟩ := hinv.phase ho
    by_cases hsucc : φ = .forwarded ∨ ∃ h, φ = .correlating h
    · -- the SMSC has accepted it, so it has an id there
      obtain ⟨id, hid⟩ := assigned_of_phase htr hsucc
      rcases volatile_or_stored hc hid hopen with hv | ⟨rec, hrec, hg, hsub⟩
      · exact absurd hv hvol
      · exact .inr (.inr ⟨(id, gwMsgID), hid, rfl, rec, hrec, hg, hsub⟩)
    · push Not at hsucc
      rcases volatile_of_phase hφ hopen hsucc.1 hsucc.2 with hv | hp
      · exact absurd hv hvol
      · exact .inl hp

/-- A worker forwards the engine's message and stores its record, which the
writer commits. -/
def storedSubmit : List (Event Input Action) :=
  engineSubmits ++
  goroutine 3 (.submit .forwardWorker)
    [{}, { attempt := .accepted 0 (ascii "s1") }, {}, {}, {}] ++
  goroutine 4 (.record .batchWriteLoop) [{}, {}, { tick := true }]

theorem stored_message_survives :
    ∃ c, (gateway .loadConfig).Reaches (Program.When (Retained .loadConfig)) GatewayConf.start c ∧
      .answered (gwMsgIDOf 1) ∈ c.trace ∧ ¬ Finished c.trace (gwMsgIDOf 1) ∧
      Survives c.trace c.shared.restart (gwMsgIDOf 1) := by
  exact Program.exists_reached storedSubmit (by decide) fun h => ⟨by decide, by decide,
    (survives_iff h (by decide) (by decide)).mpr (by decide)⟩

/-- The engine's message waits in `forwardCh` when the crash comes, its `gw:`
record on disk. -/
def queuedSubmit : List (Event Input Action) :=
  engineSubmits ++ goroutine 3 (.record .batchWriteLoop) [{}, { tick := true }]

theorem queued_message_is_lost :
    ∃ c, (gateway .loadConfig).Reaches Program.Anything GatewayConf.start c ∧
      .answered (gwMsgIDOf 1) ∈ c.trace ∧ ¬ Finished c.trace (gwMsgIDOf 1) ∧
      (c.shared.restart.store.submits.db.find? (gwKey (gwMsgIDOf 1))).isSome = true ∧
      ¬ Survives c.trace c.shared.restart (gwMsgIDOf 1) := by
  exact Program.exists_reached queuedSubmit (by decide) fun _ => ⟨by decide, by decide, by decide,
    by decide⟩

end Restart

end SmscGateway
