import SmscGateway.Receipts.Lookup
import SmscGateway.Submit.Origin

/-!
# When a receipt finds its message

A message has a correlation in memory once the worker that got its SMSC id
has set it, and a record in the store once the writer has flushed it. The
memory entry goes when a receipt of the message has been handed over or when
it expires, the record when a receipt has been handed over or when `Cleanup`
finds it too old. So between the correlation and the release one of the two
is there, provided that the id is not given to a second message, that the
memory entry expires only when the record can stand in for it, and that the
record is dropped only while the memory entry is there (`Keeps`).
-/

namespace SmscGateway

open List Option Submits Pipeline Program

namespace Receipts

variable {cfg : RouterConfig} {ok : GatewayConf → Event Input Action → Prop} {c c' : GatewayConf}

/-! ## One SMSC id for a message -/

/-- The SMSC id an action is about to record the correlation of. -/
def correlates : Action → Option Bytes
  | .submit (.getCorrelation _ id) => some id
  | .submit (.setCorrelation _ _ id _) => some id
  | _ => none

variable {id g connID : Bytes} {i : Input} {a : Action} {r : GatewayEffect}

theorem assigned_id_unique (hc : Pipeline.Inv cfg c) {id' : Bytes} (h : Assigned c.trace id g)
    (h' : Assigned c.trace id' g) : id = id' := by
  obtain ⟨pool, hp⟩ := assigned_iff.mp h
  obtain ⟨pool', hp'⟩ := assigned_iff.mp h'
  have heq := success_unique hc hp hp' rfl rfl
  exact (Attempt.accepted.inj (Label.attempted.inj heq)).2

/-- A message that got an SMSC id is correlated, or somebody is about to. -/
theorem correlated_or_pending (hc : Pipeline.Inv cfg c) (hm : (marksOf c.trace).On c)
    (h : Assigned c.trace id g) :
    .message g .correlated ∈ c.trace ∨ ∃ b ∈ c.actions, correlates b = some id := by
  obtain ⟨pool, hp⟩ := assigned_iff.mp h
  obtain ⟨φ, hφ, htr⟩ := hc.phase hp
  rcases phase_of_success hc hp rfl hφ with rfl | ⟨holder, rfl⟩
  · exact .inl (mem_history.mp (correlated_of_forwarded htr))
  · refine .inr ?_
    rcases mem_tokens_iff.mp hφ with
      ⟨t, -, -, hq⟩ | ⟨p, -, -, hq⟩ | ⟨a, ha, hholds⟩ | ⟨o, -, ho⟩
    · cases hq
    · cases hq
    · refine ⟨a, ha, ?_⟩
      have hmark := hm.actions a ha
      unfold holds at hholds
      split at hholds <;> cases hholds
      · exact congrArg some (assigned_id_unique hc hmark.1 h)
      · exact congrArg some (assigned_id_unique hc hmark.2.1 h)
    · -- no observation has ended it
      unfold ends at ho
      split at ho <;> cases ho

/-- An action that shows an assignment made it. -/
theorem assigns_of_assigned {s : Gateway} (h : exec cfg s i a = some r)
    (hg : Assigned r.seen id g) :
    assigns i a = some id := by
  obtain ⟨pool, hp⟩ := assigned_iff.mp hg
  have hw := exec_writes h hp
  unfold Action.Writes at hw
  split at hw
  · cases hw
  · cases hw
  · simp [Label.afterFailure] at hw
  · cases hw
  · have hatt : i.attempt = .accepted pool id := by
      simpa [Label.afterFailure, eq_comm] using hw.2
    simp [assigns, hatt]
  · cases hw.2
  · cases hw
  · have hatt : i.attempt = .accepted pool id := by
      simpa [Label.afterFailure, eq_comm] using hw.2
    simp [assigns, hatt]
  · cases hw

/-- An action that gets an SMSC id does nothing else to receipts. -/
theorem seen_of_assigns {s : Gateway} (h : exec cfg s i a = some r) (ha : assigns i a = some id) :
    ∃ g pool, r.seen = [.message g (.attempted (.accepted pool id))] ∧ r.state = s := by
  unfold assigns at ha
  split at ha
  · rename_i f
    split at ha
    · rename_i pool id' hatt
      cases ha
      simp only [exec, execSubmit, hatt] at h
      cases h
      exact ⟨f.gwMsgID, pool, rfl, rfl⟩
    · cases ha
  · rename_i p
    split at ha
    · rename_i pool id' hatt
      cases ha
      simp only [exec, execSubmit, hatt] at h
      cases h
      exact ⟨p.gwMsgID, pool, rfl, rfl⟩
    · cases ha
  · cases ha

/-! ## What an action does to memory and store -/

section Tables

variable (cfg : RouterConfig) (i : Input) (a : Action)

/-- An entry of `smscCorrelation` stays until it expires or is cleaned up. -/
theorem smscAfter_keeps {m : SortedMap Bytes Correlation} {id : Bytes}
    (h : (m.find? id).isSome = true) :
    ((smscAfter m a).find? id).isSome = true ∨ a = .record (.expireSmsc id) ∨
      ∃ rc corr, a = .back (.settle rc corr .deleteSmscCorrelation) ∧
        rc.parsed.messageID = id := by
  unfold smscAfter
  split
  · refine .inl ?_
    rw [SortedMap.find?_insert]
    split
    · rfl
    · exact h
  · rename_i id'
    by_cases hid : id = id'
    · exact .inr (.inl (hid ▸ rfl))
    · refine .inl ?_
      rw [SortedMap.find?_erase, if_neg hid]
      exact h
  · rename_i rc corr
    by_cases hid : id = rc.parsed.messageID
    · exact .inr (.inr ⟨rc, corr, rfl, hid.symm⟩)
    · refine .inl ?_
      rw [SortedMap.find?_erase, if_neg hid]
      exact h
  · exact .inl h

theorem isSome_find?_insert {m : SortedMap Bytes SubmitRecord} {k k' : Bytes} {v : SubmitRecord}
    (h : (m.find? k).isSome = true) : ((m.insert k' v).find? k).isSome = true := by
  rw [SortedMap.find?_insert]
  split
  · rfl
  · exact h

theorem isSome_find?_commit {ops : List WriteOp} {db : SortedMap Bytes SubmitRecord} {k : Bytes}
    (h : (db.find? k).isSome = true) : ((commit ops db).find? k).isSome = true := by
  induction ops generalizing db with
  | nil => exact h
  | cons op ops ih => exact ih (isSome_find?_insert h)

/-- A submit record stays until it is too old or is cleaned up. -/
theorem submitsAfter_keeps {s : Submits} {id : Bytes} (h : (s.getSubmit id).isSome = true) :
    ((submitsAfter cfg i s a).getSubmit id).isSome = true ∨
      (a = .record .cleanup ∧ ∃ rec, s.getSubmit id = some rec ∧
        (rec.submittedAt : ℤ) < i.now - cfg.messageTTL) ∨
      ∃ rc corr, a = .back (.settle rc corr .deleteSubmit) ∧ rc.parsed.messageID = id := by
  have hflush : ∀ s' : Submits, (s'.getSubmit id).isSome = true →
      (s'.flush.getSubmit id).isSome = true := fun s' h' => isSome_find?_commit h'
  unfold submitsAfter
  split
  · refine .inl ?_
    unfold storeSubmit
    split
    · exact h
    · exact isSome_find?_insert h
  · refine .inl ?_
    simp only [getSubmit, deleteSubmitByGwID, SortedMap.find?_erase,
      if_neg (msgKey_ne_gwKey _ _)]
    exact h
  · refine .inl ?_
    split
    · exact hflush s h
    · cases hrec : s.receive with
      | none => exact h
      | some s' =>
        unfold receive at hrec
        split at hrec
        · cases hrec
        · cases hrec
          dsimp only [getD_some]
          split
          · exact hflush _ h
          · exact h
  · obtain ⟨rec, hrec⟩ := isSome_iff_exists.mp h
    by_cases hold : (i.now - cfg.messageTTL : ℤ) ≤ rec.submittedAt
    · refine .inl ?_
      simp only [getSubmit] at hrec
      simp only [getSubmit, cleanup, SortedMap.find?_filter, hrec,
        filter_some, hold, or_true, decide_true, if_true, isSome_some]
    · exact .inr (.inl ⟨rfl, rec, hrec, not_le.mp hold⟩)
  · rename_i rc corr
    by_cases hid : rc.parsed.messageID = id
    · exact .inr (.inr ⟨rc, corr, rfl, hid⟩)
    · refine .inl ?_
      have hkey : msgKey id ≠ msgKey rc.parsed.messageID := fun hk => hid (msgKey_inj hk).symm
      simp only [getSubmit, deleteSubmit, SortedMap.find?_erase, if_neg hkey]
      exact h
  · exact .inl h

end Tables

/-! ## What a run has to respect -/

/-- The connection id under which a message was accepted. -/
def submitterOf (trace : List Obs) (g : Bytes) : Option Bytes :=
  (originOf trace g).map Origin.connID

theorem originOf_of_accepted (hc : Pipeline.Inv cfg c) {o : Origin}
    (h : .message g (.accepted o) ∈ c.trace) : originOf c.trace g = some o := by
  cases ho : originOf c.trace g with
  | none =>
    have hnone := findSome?_eq_none_iff.mp ho _ h
    simp at hnone
  | some o' => exact congrArg some (accepted_unique hc (mem_of_originOf ho) h)

theorem submitterOf_append {l : List Obs} (m : List Obs) (h : submitterOf l g = some connID) :
    submitterOf (l ++ m) g = some connID := by
  obtain ⟨o, ho, hid⟩ := map_eq_some_iff.mp h
  refine map_eq_some_iff.mpr ⟨o, ?_, hid⟩
  rw [originOf, findSome?_append, or_eq_some_iff]
  exact .inl ho

/-- No message the id was assigned to has been released. -/
def Awaiting (c : GatewayConf) (id : Bytes) : Prop :=
  ∀ x ∈ c.trace.filterMap assignmentOf, x.1 = id → .released x.2 ∉ c.trace

instance (c : GatewayConf) (id : Bytes) : Decidable (Awaiting c id) :=
  inferInstanceAs (Decidable (∀ x ∈ _, _))

/-- The store's record of the id names the submitter of its message. -/
def StandsIn (c : GatewayConf) (id : Bytes) : Prop :=
  ∃ rec ∈ c.shared.store.submits.getSubmit id,
    submitterOf c.trace rec.gwMsgID = some rec.northConnID
  deriving Decidable

/-- The id is not assigned a second time. -/
def AssignsOnce (id : Bytes) (c : GatewayConf) (i : Input) (a : Action) : Prop :=
  assigns i a = some id → ∀ x ∈ c.trace.filterMap assignmentOf, x.1 ≠ id

instance (id : Bytes) (c : GatewayConf) (i : Input) (a : Action) :
    Decidable (AssignsOnce id c i a) :=
  inferInstanceAs (Decidable (_ → _))

/-- The message and the connection id that the correlation of the id is made
from when it does not come from `gwCorrelation`. -/
def madeFrom (id : Bytes) (s : Gateway) (i : Input) : Action → Option (Bytes × Bytes)
  | .submit (.getCorrelation f id') =>
    if id' = id ∧ s.gwCorrelation.find? f.gwMsgID = none then some (f.gwMsgID, f.connID) else none
  | .submit (.retrySubmit p) =>
    if assigns i (.submit (.retrySubmit p)) = some id then some (p.gwMsgID, p.connID) else none
  | _ => none

/-- The correlation recorded under the id names the submitter, and no engine
has the connection id that stands for REST. -/
def NamesSubmitter (id : Bytes) (c : GatewayConf) (i : Input) (a : Action) : Prop :=
  (∀ connID ∈ a.engine, connID ≠ restApi) ∧
  ∀ x ∈ madeFrom id c.shared i a, submitterOf c.trace x.1 = some x.2
  deriving Decidable

/-- While a receipt is awaited, the memory entry of the id expires only when
the store's record stands in for it, and the record is dropped for its age
only when the memory entry is there and nobody is looking for the record. -/
def Retains (cfg : RouterConfig) (id : Bytes) (c : GatewayConf) (i : Input) (a : Action) : Prop :=
  (a = .record (.expireSmsc id) → Awaiting c id →
    (c.shared.smscCorrelation.find? id).isSome = true → StandsIn c id) ∧
  (a = .record .cleanup → Awaiting c id → ∀ rec ∈ c.shared.store.submits.getSubmit id,
    (rec.submittedAt : ℤ) < i.now - cfg.messageTTL →
      (c.shared.smscCorrelation.find? id).isSome = true ∧ ∀ b ∈ c.actions, b.looksUp ≠ some id)
  deriving Decidable

/-- What the actions of a run have to respect for the id to stay known. -/
structure Keeps (cfg : RouterConfig) (id : Bytes) (c : GatewayConf) (i : Input) (a : Action) :
    Prop where
  once : AssignsOnce id c i a
  named : NamesSubmitter id c i a
  retains : Retains cfg id c i a

instance (cfg : RouterConfig) (id : Bytes) (c : GatewayConf) (i : Input) (a : Action) :
    Decidable (Keeps cfg id c i a) :=
  decidable_of_iff (AssignsOnce id c i a ∧ NamesSubmitter id c i a ∧ Retains cfg id c i a)
    ⟨fun h => ⟨h.1, h.2.1, h.2.2⟩, fun h => ⟨h.once, h.named, h.retains⟩⟩

/-! ## The id stays known -/

/-- The marks of a run that keeps one id: its correlations name the
submitter, and its records name `connID`, all the same. -/
def marksFor (id connID : Bytes) (trace : List Obs) : Marks where
  cites id' g := Assigned trace id' g
  names id' g x := id' = id → submitterOf trace g = some x
  files id' x := id' = id → x = connID
  owns g x := submitterOf trace g = some x
  released g := .released g ∈ trace
  looks n rc := .arrived n rc.pool rc.parsed.messageID ∈ trace ∧
    Smpp.parseDLRReceipt rc.payload = some rc.parsed

/-- The match is with the message, and its correlation names the submitter. -/
def Fits (trace : List Obs) (g : Bytes) : Match → Prop
  | .unknown => False
  | .rest corr | .smpp corr _ => corr.gwMsgID = g ∧ submitterOf trace g = some corr.northConnID

theorem Fits.append {l : List Obs} (l' : List Obs) {m : Match} (h : Fits l g m) :
    Fits (l ++ l') g m := by
  cases m with
  | unknown => exact h
  | rest | smpp => exact ⟨h.1, submitterOf_append l' h.2⟩

/-- What holds in a run that keeps the id. `E` exempts receipts whose message
was released before the store was asked. -/
structure Known (id connID : Bytes) (E : List Obs → ℕ → Bytes → Prop) (c : GatewayConf) :
    Prop where
  once : ∀ g g', Assigned c.trace id g → Assigned c.trace id g' → g = g'
  marks : (marksFor id connID c.trace).On c
  engines : ∀ g x, .message g (.accepted (.smpp x)) ∈ c.trace → x ≠ restApi
  /-- A correlated message is released or can be found. -/
  kept : ∀ g, Assigned c.trace id g → .message g .correlated ∈ c.trace →
    .released g ∈ c.trace ∨ (c.shared.smscCorrelation.find? id).isSome = true ∨ StandsIn c id
  /-- A receipt that came after the correlation and is not in memory any more
  will find the record. -/
  looked : ∀ n rc g, .back (.getSubmit n rc) ∈ c.actions → rc.parsed.messageID = id →
    Assigned c.trace id g → Precedes c.trace (.message g .correlated) (.arrived n rc.pool id) →
    .released g ∈ c.trace ∨ StandsIn c id
  matched : ∀ n m pool g, .matched n m ∈ c.trace → .arrived n pool id ∈ c.trace →
    Assigned c.trace id g → Precedes c.trace (.message g .correlated) (.arrived n pool id) →
    Fits c.trace g m ∨ E c.trace n g

theorem released_of_not_awaiting
    (honce : ∀ g g', Assigned c.trace id g → Assigned c.trace id g' → g = g')
    (hg : Assigned c.trace id g) (h : ¬ Awaiting c id) : .released g ∈ c.trace := by
  unfold Awaiting at h
  push Not at h
  obtain ⟨⟨id', g'⟩, hx, rfl, hrel⟩ := h
  exact honce g g' hg hx ▸ hrel

/-- A record that is still there, or written again, still stands in. -/
theorem StandsIn.step {seen : List Obs} (h : StandsIn c id) (hc : (marksFor id connID c.trace).On c)
    (hc' : (marksFor id connID c'.trace).On c')
    (honce : ∀ g g', Assigned c'.trace id g → Assigned c'.trace id g' → g = g')
    (htr : c'.trace = c.trace ++ seen)
    (hsome : (c'.shared.store.submits.getSubmit id).isSome = true) : StandsIn c' id := by
  obtain ⟨rec, hrec, hsub⟩ := h
  obtain ⟨rec', hrec'⟩ := isSome_iff_exists.mp hsome
  obtain ⟨hcites, hfiles⟩ := hc.state.submits.db id rec hrec
  obtain ⟨hcites', hfiles'⟩ := hc'.state.submits.db id rec' hrec'
  have hg : rec'.gwMsgID = rec.gwMsgID :=
    honce _ _ hcites' (htr ▸ assigned_append.mpr (.inl hcites))
  refine ⟨rec', hrec', ?_⟩
  rw [hg, hfiles' rfl, ← hfiles rfl, htr]
  exact submitterOf_append seen hsub

/-- No correlation precedes the assignment of the id. -/
theorem not_correlated_of_new (hinv : Pipeline.Inv cfg c) (hinv' : Pipeline.Inv cfg c')
    (hsub : c.trace ⊆ c'.trace) (hnone : ∀ g, ¬ Assigned c.trace id g)
    (hg : Assigned c'.trace id g) :
    .message g .correlated ∉ c.trace := by
  intro hcorr
  obtain ⟨φ, -, htr⟩ := hinv.phase hcorr
  obtain ⟨l, hl, hsucc⟩ := countP_pos_iff.mp
    (success_of_correlated htr (mem_history.mpr hcorr))
  have hold := mem_history.mp hl
  obtain ⟨pool, hp⟩ := assigned_iff.mp hg
  -- the message got its id once, so this is the same success
  have heq := success_unique hinv' (hsub hold) hp hsucc rfl
  exact hnone g (assigned_iff.mpr ⟨pool, heq ▸ hold⟩)

/-- The marks of one id after a step: its records name the connection id the
worker goes by that gets the id. -/
theorem step_marksFor {connID' : Bytes} {j : ℕ} (hc : (marksFor id connID c.trace).On c)
    (hs : (gateway cfg).step c (.run j i) = some c') (hinv' : Pipeline.Inv cfg c')
    (hhead : c.head j = some a) (hexec : exec cfg c.shared i a = some r) (hok : Keeps cfg id c i a)
    (hsame : assigns i a ≠ some id → connID' = connID)
    (hnew : ∀ x, assigns i a = some id → sender a = some x → jsonString x = connID') :
    (marksFor id connID' c'.trace).On c' := by
  have htr := seen_of_step hs hhead hexec
  have hgrows : c.trace ⊆ c'.trace := (trace_of_step hs).subset
  have hseen : r.seen ⊆ c'.trace := htr ▸ subset_append_right _ _
  have hmono : ∀ {g x : Bytes}, submitterOf c.trace g = some x → submitterOf c'.trace g = some x :=
    fun h => htr ▸ submitterOf_append r.seen h
  refine hc.step ⟨fun _ _ => Assigned.mono hgrows, fun _ _ _ _ hn hid => hmono (hn hid), ?_,
    fun _ _ => hmono, fun _ hg => hgrows hg, fun _ _ hl => ⟨hgrows hl.1, hl.2⟩⟩ hs
    (fun _ _ => assigned_json hinv') ?_
  · intro id' g x hcites hfiles hid
    by_cases hassign : assigns i a = some id
    · exact absurd hid (hok.once hassign (id', g) hcites)
    · rw [hsame hassign]
      exact hfiles hid
  · intro j' i' a' r' he hhead' hexec' hold
    obtain ⟨rfl, rfl⟩ := Event.run.inj he
    obtain rfl := some.inj (hhead.symm.trans hhead')
    obtain rfl := some.inj (hexec.symm.trans hexec')
    refine ⟨fun _ _ => Assigned.mono hseen, ?_, ?_, ?_, ?_, fun _ hg => hseen hg,
      fun _ _ hl hp => ⟨hseen hl, hp⟩⟩
    · rintro id' x hassign hsender rfl
      exact hnew x hassign hsender
    · rintro f id' rfl rfl
      cases hfind : c.shared.gwCorrelation.find? f.gwMsgID with
      | none => exact hmono (hok.named.2 (f.gwMsgID, f.connID) (by simp [madeFrom, hfind]))
      | some corr => exact (hold.state.gw _ _ hfind).2
    · rintro p id' rfl hassign rfl
      exact hmono (hok.named.2 (p.gwMsgID, p.connID) (by simp [madeFrom, hassign]))
    · intro g o ho
      exact map_eq_some_iff.mpr ⟨o, originOf_of_accepted hinv' (hseen ho), rfl⟩

section Step

variable {id connID : Bytes} {E : List Obs → ℕ → Bytes → Prop} {j : ℕ} {i : Input} {a : Action}
  {r : GatewayEffect}

/-- What the proof of a step has at hand. -/
structure Stepping (cfg : RouterConfig) (id connID : Bytes) (c c' : GatewayConf) (i : Input)
    (a : Action) (r : GatewayEffect) : Prop where
  keeps : Keeps cfg id c i a
  exec : exec cfg c.shared i a = some r
  pending : a ∈ c.actions
  shared : c'.shared = r.state
  trace : c'.trace = c.trace ++ r.seen
  actions : ∀ b ∈ c'.actions, b ∈ r.next ∨ b ∈ c.actions
  inv : Pipeline.Inv cfg c
  looked : Looked c
  looked' : Looked c'
  marks' : (marksFor id connID c'.trace).On c'
  /-- The step does not assign the id. -/
  assigned : ∀ g, Assigned c'.trace id g → Assigned c.trace id g

variable (hc : Known id connID E c) (st : Stepping cfg id connID c c' i a r)

include hc st

variable {g : Bytes}

theorem Known.once_step {g' : Bytes} (hg : Assigned c'.trace id g) (hg' : Assigned c'.trace id g') :
    g = g' :=
  hc.once g g' (st.assigned g hg) (st.assigned g' hg')

/-- What is cleaned up under the id belongs to a released message. -/
theorem Known.released_of_settle {rc : Receipt} {corr : Correlation} {t : Settlement}
    (ha : a = .back (.settle rc corr t)) (hid : rc.parsed.messageID = id) (ht : forgets t = true)
    (hg : Assigned c.trace id g) : .released g ∈ c.trace := by
  obtain ⟨hcites, hrel⟩ := ha ▸ hc.marks.actions a st.pending
  rw [hid] at hcites
  exact hc.once _ _ hcites hg ▸ hrel ht

theorem Known.standsIn_step (h : StandsIn c id)
    (hsome : ((submitsAfter cfg i c.shared.store.submits a).getSubmit id).isSome = true) :
    StandsIn c' id := by
  refine h.step hc.marks st.marks' (fun g g' => hc.once_step st) st.trace ?_
  rw [st.shared, (exec_tables st.exec).submits]
  exact hsome

/-- A record that stands in goes only for its age or with its message. -/
theorem Known.standsIn_cases (h : StandsIn c id) (hg : Assigned c.trace id g) :
    StandsIn c' id ∨ .released g ∈ c.trace ∨
      (a = .record .cleanup ∧ (c.shared.smscCorrelation.find? id).isSome = true ∧
        ∀ b ∈ c.actions, b.looksUp ≠ some id) := by
  have ⟨rec, hrec, _⟩ := h
  rcases submitsAfter_keeps cfg i a (isSome_iff_exists.mpr ⟨rec, hrec⟩) with
    hsome | ⟨ha, rec', hrec', hold⟩ | ⟨rc, corr, ha, hid⟩
  · exact .inl (hc.standsIn_step st h hsome)
  · by_cases hwait : Awaiting c id
    · exact .inr (.inr ⟨ha, st.keeps.retains.2 ha hwait rec' hrec' hold⟩)
    · exact .inr (.inl (released_of_not_awaiting hc.once hg hwait))
  · exact .inr (.inl (hc.released_of_settle st ha hid rfl hg))

theorem Known.kept_step (hg : Assigned c'.trace id g) (hcorr : .message g .correlated ∈ c'.trace) :
    .released g ∈ c'.trace ∨ (c'.shared.smscCorrelation.find? id).isSome = true ∨
      StandsIn c' id := by
  have hg₀ := st.assigned g hg
  have hgrows : c.trace ⊆ c'.trace := st.trace ▸ subset_append_left _ _
  have hmem : c'.shared.smscCorrelation = smscAfter c.shared.smscCorrelation a := by
    rw [st.shared, (exec_tables st.exec).smsc]
  rw [st.trace] at hcorr
  rcases mem_append.mp hcorr with hcorr | hcorr
  · rcases hc.kept g hg₀ hcorr with hrel | hsome | hstand
    · exact .inl (hgrows hrel)
    · rcases smscAfter_keeps a hsome with hsome' | ha | ⟨rc, corr, ha, hid⟩
      · exact .inr (.inl (hmem ▸ hsome'))
      · by_cases hwait : Awaiting c id
        · have hstand := st.keeps.retains.1 ha hwait hsome
          rcases hc.standsIn_cases st hstand hg₀ with h | h | ⟨ha', -⟩
          · exact .inr (.inr h)
          · exact .inl (hgrows h)
          · cases ha.symm.trans ha'
        · exact .inl (hgrows (released_of_not_awaiting hc.once hg₀ hwait))
      · exact .inl (hgrows (hc.released_of_settle st ha hid rfl hg₀))
    · rcases hc.standsIn_cases st hstand hg₀ with h | h | ⟨rfl, hsome, -⟩
      · exact .inr (.inr h)
      · exact .inl (hgrows h)
      · exact .inr (.inl (hmem ▸ hsome))
  · -- the correlation is set now, under the id the message was assigned
    have hw := exec_writes st.exec hcorr
    unfold Action.Writes at hw
    split at hw
    · cases hw
    · cases hw
    · simp [Label.afterFailure] at hw
    · cases hw
    · simp [Label.afterFailure] at hw
    · rename_i holder g' id' corr
      obtain ⟨rfl, -⟩ := hw
      obtain ⟨-, hcites, -⟩ := hc.marks.actions _ st.pending
      obtain rfl := assigned_id_unique st.inv hcites hg₀
      refine .inr (.inl ?_)
      rw [hmem, smscAfter, SortedMap.find?_insert, if_pos rfl]
      rfl
    · cases hw
    · simp [Label.afterFailure] at hw
    · cases hw

theorem Known.looked_step {n : ℕ} {rc : Receipt} (hpend : .back (.getSubmit n rc) ∈ c'.actions)
    (hid : rc.parsed.messageID = id) (hg : Assigned c'.trace id g)
    (hprec : Precedes c'.trace (.message g .correlated) (.arrived n rc.pool id)) :
    .released g ∈ c'.trace ∨ StandsIn c' id := by
  have hg₀ := st.assigned g hg
  have hgrows : c.trace ⊆ c'.trace := st.trace ▸ subset_append_left _ _
  rw [st.trace] at hprec
  rcases st.actions _ hpend with hnext | hold
  · -- the look-up begins: the memory did not know the id
    rcases exec_receipt st.exec with ⟨rc', rfl, -, -, ⟨corr, -, rfl⟩ | ⟨hnone, rfl⟩⟩ |
      ⟨n', rc', -, ⟨rec, -, rfl⟩ | ⟨-, rfl⟩⟩ | haside
    · exact absurd ((looksUp_routeReceipt _ _ _ _).2 _ hnext) (by simp [Action.looksUp])
    · obtain ⟨rfl, rfl⟩ := ReturnAction.getSubmit.inj (Action.back.inj (mem_singleton.mp hnext))
      have hfresh : .arrived c.shared.arrivals rc.pool id ∉ c.trace :=
        fun h => lt_irrefl _ (st.looked.lt _ _ _ h)
      rcases (precedes_append_of_not_mem hfresh).mp hprec with ⟨-, hcorr⟩ | hin
      · rcases hc.kept g hg₀ hcorr with hrel | hsome | hstand
        · exact .inl (hgrows hrel)
        · rw [← hid, hnone] at hsome
          cases hsome
        · exact .inr (hc.standsIn_step st hstand
            (isSome_iff_exists.mpr (Exists.imp (fun _ h => h.1) hstand)))
      · cases mem_singleton.mp hin.mem
    · exact absurd ((looksUp_routeReceipt _ _ _ _).2 _ hnext) (by simp [Action.looksUp])
    · cases hnext
    · exact absurd (haside.next _ hnext) (by simp [Action.looksUp])
  · have harr : .arrived n rc.pool id ∈ c.trace := hid ▸ (hc.marks.actions _ hold).1
    rcases hc.looked n rc g hold hid hg₀ ((precedes_append_of_mem harr).mp hprec) with hrel | hstand
    · exact .inl (hgrows hrel)
    · rcases hc.standsIn_cases st hstand hg₀ with h | h | ⟨-, -, hnobody⟩
      · exact .inr h
      · exact .inl (hgrows h)
      · exact absurd (congrArg some hid) (hnobody _ hold)

theorem Known.matched_step
    (happ : ∀ l l' n g pool, .arrived n pool id ∈ l → E l n g → E (l ++ l') n g)
    (hlook : ∀ n rc g, a = .back (.getSubmit n rc) → rc.parsed.messageID = id →
      Assigned c.trace id g → .released g ∈ c.trace → E c.trace n g)
    {n : ℕ} {m : Match} {pool : ℕ} (hm : .matched n m ∈ c'.trace)
    (harr : .arrived n pool id ∈ c'.trace) (hg : Assigned c'.trace id g)
    (hprec : Precedes c'.trace (.message g .correlated) (.arrived n pool id)) :
    Fits c'.trace g m ∨ E c'.trace n g := by
  have hg₀ := st.assigned g hg
  have hgrows : c.trace ⊆ c'.trace := st.trace ▸ subset_append_left _ _
  have hnew : r.seen ⊆ c'.trace := st.trace ▸ subset_append_right _ _
  rw [st.trace] at hm hprec ⊢
  rcases mem_append.mp hm with hm | hm
  · obtain ⟨pool', id', harr', -⟩ := st.looked.routes n m hm
    obtain ⟨rfl, rfl⟩ := st.looked'.unique n _ _ _ _ harr (hgrows harr')
    rcases hc.matched n m pool g hm harr' hg₀ ((precedes_append_of_mem harr').mp hprec) with h | h
    · exact .inl (h.append _)
    · exact .inr (happ _ _ _ _ _ harr' h)
  · rcases exec_receipt st.exec with ⟨rc, rfl, -, -, ⟨corr, hfind, rfl⟩ | ⟨-, rfl⟩⟩ |
      ⟨n', rc, rfl, ⟨rec, hfind, rfl⟩ | ⟨hfind, rfl⟩⟩ | haside
    · rcases mem_cons.mp hm with hm | hm
      · cases hm
      · obtain ⟨rfl, hcorr⟩ := matched_routeReceipt_cases hm
        obtain ⟨-, rfl⟩ := st.looked'.unique _ _ _ _ _ harr (hnew mem_cons_self)
        obtain ⟨hcites, hnames⟩ := hc.marks.state.memory _ _ hfind
        have hfits : corr.gwMsgID = g ∧ submitterOf c.trace g = some corr.northConnID := by
          obtain rfl := hc.once _ _ hcites hg₀
          exact ⟨rfl, hnames rfl⟩
        refine .inl ?_
        rcases hcorr with rfl | ⟨k, rfl⟩
        · exact ⟨hfits.1, submitterOf_append _ hfits.2⟩
        · exact ⟨hfits.1, submitterOf_append _ hfits.2⟩
    · cases mem_singleton.mp hm
    · obtain ⟨rfl, hcorr⟩ := matched_routeReceipt_cases hm
      have harr' := (hc.marks.actions _ st.pending).1
      obtain ⟨rfl, rfl⟩ := st.looked'.unique _ _ _ _ _ harr (hgrows harr')
      rcases hc.looked n rc g st.pending rfl hg₀ ((precedes_append_of_mem harr').mp hprec) with
        hrel | ⟨rec', hrec', hsub⟩
      · exact .inr (happ _ _ _ _ _ harr' (hlook n rc g rfl rfl hg₀ hrel))
      · obtain rfl := some.inj (hfind.symm.trans hrec')
        have hfits : rec.gwMsgID = g ∧ submitterOf c.trace g = some rec.northConnID := by
          obtain rfl := hc.once _ _ (hc.marks.state.submits.db _ _ hfind).1 hg₀
          exact ⟨rfl, hsub⟩
        refine .inl ?_
        rcases hcorr with rfl | ⟨k, rfl⟩
        · exact ⟨hfits.1, submitterOf_append _ hfits.2⟩
        · exact ⟨hfits.1, submitterOf_append _ hfits.2⟩
    · obtain ⟨rfl, rfl⟩ := Obs.matched.inj (mem_singleton.mp hm)
      have harr' := (hc.marks.actions _ st.pending).1
      obtain ⟨rfl, rfl⟩ := st.looked'.unique _ _ _ _ _ harr (hgrows harr')
      rcases hc.looked n rc g st.pending rfl hg₀ ((precedes_append_of_mem harr').mp hprec) with
        hrel | ⟨rec', hrec', hsub⟩
      · exact .inr (happ _ _ _ _ _ harr' (hlook n rc g rfl rfl hg₀ hrel))
      · cases hfind.symm.trans hrec'
    · exact absurd (haside.seen _ hm) (by simp [isLookup])

end Step

section Run

variable {id connID : Bytes} {E : List Obs → ℕ → Bytes → Prop} {j : ℕ} {i : Input} {a : Action}
  {r : GatewayEffect}

/-- A goroutine starts. -/
theorem Known.started (hc : Known id connID E c) (hst : (gateway cfg).Started c a c') :
    Known id connID E c' := by
  have ha := hst.entry
  have hshared := hst.shared
  have htr := hst.trace
  have hpend : ∀ n rc, .back (.getSubmit n rc) ∈ c'.actions →
      .back (.getSubmit n rc) ∈ c.actions := by
    intro n rc hb
    rcases hst.cases hb with rfl | hb
    · cases ha
    · exact hb
  refine ⟨htr ▸ hc.once, ⟨?_, fun b hb => ?_⟩, htr ▸ hc.engines, ?_, ?_, htr ▸ hc.matched⟩
  · rw [htr, hshared]
    exact hc.marks.state
  · rw [htr]
    rcases hst.cases hb with rfl | hb
    · exact Marks.onAction_of_entry ha
    · exact hc.marks.actions b hb
  · unfold StandsIn
    rw [htr, hshared]
    exact hc.kept
  · intro n rc g hb
    unfold StandsIn
    rw [htr, hshared]
    exact hc.looked n rc g (hpend n rc hb)

/-- No engine is registered under the id that stands for REST. -/
theorem Known.engines_step (hc : Known id connID E c) (hkeep : Keeps cfg id c i a)
    (hexec : exec cfg c.shared i a = some r) {g x : Bytes}
    (hx : .message g (.accepted (.smpp x)) ∈ c.trace ++ r.seen) : x ≠ restApi := by
  rcases mem_append.mp hx with hx | hx
  · exact hc.engines g x hx
  · rcases exec_accepts hexec hx with ⟨y, seqNum, body, rfl, hy⟩ | hy
    · exact hkeep.named.1 x (Origin.smpp.inj hy ▸ rfl)
    · cases hy

/-- The id is assigned now, so no message can have been correlated under it. -/
theorem Known.assigned_step (hc : Known id connID E c) (hinv : Pipeline.Inv cfg c)
    (hinv' : Pipeline.Inv cfg c') (hs : (gateway cfg).step c (.run j i) = some c')
    (hhead : c.head j = some a) (hexec : exec cfg c.shared i a = some r)
    (hkeep : Keeps cfg id c i a) (hassign : assigns i a = some id) :
    Known id (jsonString ((sender a).getD [])) E c' := by
  have htr := seen_of_step hs hhead hexec
  obtain ⟨g₀, pool, hseen, -⟩ := seen_of_assigns hexec hassign
  have hnone : ∀ g, ¬ Assigned c.trace id g := fun g hg => hkeep.once hassign (id, g) hg rfl
  have hgrows : c.trace ⊆ c'.trace := (trace_of_step hs).subset
  have hnot : ∀ g, Assigned c'.trace id g → .message g .correlated ∉ c'.trace := by
    intro g hg hcorr
    rw [htr, hseen] at hcorr
    rcases mem_append.mp hcorr with hcorr | hcorr
    · exact not_correlated_of_new hinv hinv' hgrows hnone hg hcorr
    · cases mem_singleton.mp hcorr
  have honly : ∀ g, Assigned c'.trace id g → g = g₀ := by
    intro g hg
    rw [htr, hseen] at hg
    rcases assigned_append.mp hg with hg | hg
    · exact absurd hg (hnone g)
    · obtain ⟨pool', hp⟩ := assigned_iff.mp hg
      exact (Obs.message.inj (mem_singleton.mp hp)).1
  refine ⟨fun g g' hg hg' => ?_,
    step_marksFor hc.marks hs hinv' hhead hexec hkeep (fun h => absurd hassign h) ?_,
    fun g x hx => hc.engines_step hkeep hexec (htr ▸ hx),
    fun g hg hcorr => absurd hcorr (hnot g hg),
    fun _ _ g _ _ hg hprec => absurd hprec.mem (hnot g hg),
    fun _ _ _ g _ _ hg hprec => absurd hprec.mem (hnot g hg)⟩
  · rw [honly g hg, honly g' hg']
  · intro x _ hx
    rw [hx]
    rfl

end Run

/-- **The id stays known** in every run that keeps it. -/
theorem reaches_known {E : List Obs → ℕ → Bytes → Prop}
    (hkeeps : ∀ c e, ok c e → Program.When (Keeps cfg id) c e)
    (happ : ∀ l l' n g pool, .arrived n pool id ∈ l → E l n g → E (l ++ l') n g)
    (hlook : ∀ c j i n rc g, ok c (.run j i) → c.head j = some (.back (.getSubmit n rc)) →
      rc.parsed.messageID = id → Assigned c.trace id g → .released g ∈ c.trace → E c.trace n g)
    (h : (gateway cfg).Reaches ok GatewayConf.start c) : ∃ connID, Known id connID E c := by
  induction h with
  | start =>
    refine ⟨[], fun _ _ h => ?_, Marks.on_start, fun _ _ h => ?_, fun _ h => ?_,
      fun _ _ _ h => ?_, fun _ _ _ _ h => ?_⟩ <;> cases h
  | @step c c' e hr hok hs ih =>
    obtain ⟨connID, hc⟩ := ih
    have hinv := reaches_inv hr
    have hinv' := reaches_inv (hr.step hok hs)
    rcases step_cases hs with ⟨a, rfl, hst⟩ | ⟨j, i, a, r, rest, rfl, hran⟩
    · exact ⟨connID, hc.started hst⟩
    · have hhead := hran.head
      have hexec : exec cfg c.shared i a = some r := hran.exec
      have htr := hran.trace
      have hkeep : Keeps cfg id c i a := hkeeps _ _ hok a hhead
      by_cases hassign : assigns i a = some id
      · exact ⟨_, hc.assigned_step hinv hinv' hs hhead hexec hkeep hassign⟩
      · have st : Stepping cfg id connID c c' i a r := by
          refine ⟨hkeep, hexec, hran.mem, hran.shared, htr,
            fun b hb => (hran.cases hb).imp_right hran.pending,
            hinv, reaches_looked hr, reaches_looked (hr.step hok hs),
            step_marksFor hc.marks hs hinv' hhead hexec hkeep (fun _ => rfl)
              (fun _ h => absurd h hassign), fun g hg => ?_⟩
          rw [htr] at hg
          rcases assigned_append.mp hg with hg | hg
          · exact hg
          · exact absurd (assigns_of_assigned hexec hg) hassign
        refine ⟨connID, fun g g' => hc.once_step st, st.marks',
          fun g x hx => hc.engines_step hkeep hexec (htr ▸ hx), fun g => hc.kept_step st,
          fun n rc g => hc.looked_step st, fun n m pool g => hc.matched_step st happ ?_⟩
        rintro n rc g rfl
        exact hlook c j i n rc g hok hhead

end Receipts

end SmscGateway
