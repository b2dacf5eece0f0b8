import SmscGateway.Gateway.Records
import SmscGateway.Receipts.Delivery

/-!
# The outcome of a message

`handleDLR` leaves the outcome of a message in three places: it rewrites the
log entry, it rewrites the status record of a REST message, and it deletes the
`msg:` record. The goroutine that forwarded the message writes to the same
three places, after it has published the correlation a receipt is matched
with, and nothing orders the two. So the outcome stays once it is recorded if
nobody is about to write an earlier stage at that moment (`Unopposed`), and a
receipt that comes early is undone.
-/

namespace SmscGateway

open List Pipeline

namespace Receipts

/-- Where `handleDLR` leaves the outcome. -/
inductive Place
  | log
  | status
  | record
  deriving DecidableEq

/-- The place a step of `handleDLR` writes to. -/
def placeOf : Settlement → Option Place
  | .writeLog _ => some .log
  | .setMessageStatus => some .status
  | .deleteSubmit => some .record
  | _ => none

/-- An earlier stage of the message stands at the place: the state before the
outcome, or the record its receipts are matched with. -/
def Regressed (id g : Bytes) (s : Gateway) : Place → Prop
  | .log => ∃ e ∈ s.store.log.find? g, e.status.early = true
  | .status => ∃ st ∈ s.store.status.find? g, st.status.early = true
  | .record => ∃ rec ∈ s.store.submits.getSubmit id, rec.gwMsgID = g

instance (id g : Bytes) (s : Gateway) : (π : Place) → Decidable (Regressed id g s π)
  | .log => inferInstanceAs (Decidable (∃ e ∈ s.store.log.find? g, e.status.early = true))
  | .status => inferInstanceAs (Decidable (∃ st ∈ s.store.status.find? g, st.status.early = true))
  | .record => inferInstanceAs (Decidable (∃ rec ∈ s.store.submits.getSubmit id, rec.gwMsgID = g))

/-- Is the action about to write an earlier stage of the message there? A
worker that has not yet looked up the correlation has all its writes before
it. -/
def regresses (id g : Bytes) : Place → Action → Bool
  | .log, .record (.logMessage e) => e.gwMsgID = g ∧ e.status.early = true
  | .log, .record (.updateMessageLog g' u) => g' = g ∧ u.status.early = true
  | .log, .record (.writeLog g' e) => g' = g ∧ e.status.early = true
  | .status, .record (.setMessageStatus st) => st.gwMsgID = g ∧ st.status.early = true
  | .record, .record (.storeSubmit rec) => rec.key = msgKey id ∧ rec.gwMsgID = g
  | _, .submit (.getCorrelation f _) => f.gwMsgID = g
  | _, _ => false

/-- Nothing is about to write an earlier stage of the message to the place. -/
structure Unopposed (c : GatewayConf) (id g : Bytes) (π : Place) : Prop where
  actions : ∀ b ∈ c.actions, regresses id g π b = false
  /-- The batch writer has no record of the message before it. -/
  writer : π = .record → ∀ op ∈ c.shared.store.submits.batch ++ c.shared.store.submits.writeCh,
    op.key = msgKey id → op.data.gwMsgID ≠ g

/-! ## What is at a place -/

/-- The `msg:` record of the id does not lead to the message. -/
def avoids (id g : Bytes) : Marks where
  cites id' g' := id' = id → g' ≠ g
  names _ _ _ := True
  files _ _ := True
  owns _ _ := True
  released _ := True
  looks _ _ := True

/-- No earlier stage is at the place or in the queue before it. -/
def Clear (id g : Bytes) (s : Gateway) : Place → Prop
  | .log => ∀ e, s.store.log.find? g = some e → e.status.early = false
  | .status => ∀ st, s.store.status.find? g = some st → st.status.early = false
  | .record => (avoids id g).OnSubmits s.store.submits

theorem Clear.not_regressed {id g : Bytes} {s : Gateway} {π : Place} (h : Clear id g s π) :
    ¬ Regressed id g s π := by
  cases π with
  | log =>
    rintro ⟨e, he, hearly⟩
    rw [h e he] at hearly
    cases hearly
  | status =>
    rintro ⟨st, hst, hearly⟩
    rw [h st hst] at hearly
    cases hearly
  | record =>
    rintro ⟨rec, hrec, hg⟩
    exact (h.db id rec hrec).1 rfl hg

section Exec

variable {cfg : RouterConfig} {s : Gateway} {i : Input} {r : GatewayEffect} {id g : Bytes}

/-- A late value joins a table of which one key matters. -/
theorem late_insert {β : Type} {state : β → MessageState} {m : SortedMap Bytes β} {k : Bytes}
    {v : β} (hm : ∀ e, m.find? g = some e → (state e).early = false)
    (hv : k = g → (state v).early = false) :
    ∀ e, (m.insert k v).find? g = some e → (state e).early = false := by
  intro e he
  rw [SortedMap.find?_insert] at he
  split at he
  · rename_i hkey
    exact Option.some.inj he ▸ hv hkey.symm
  · exact hm e he

theorem late_filter {β : Type} {state : β → MessageState} {m : SortedMap Bytes β}
    {p : Bytes → β → Bool} (hm : ∀ e, m.find? g = some e → (state e).early = false) :
    ∀ e, (m.filter p).find? g = some e → (state e).early = false := by
  intro e he
  rw [SortedMap.find?_filter] at he
  exact hm e (Option.filter_eq_some_iff.mp he).1

/-- What a pending action has to be so that it leaves a place clear. -/
structure Late (id g : Bytes) (π : Place) (a : Action) : Prop where
  keeps : regresses id g π a = false
  outcome : ∀ rc corr e, a = .back (.settle rc corr (.writeLog e)) → e.status.early = false
  json : ∀ rec, a = .record (.storeSubmit rec) → rec.smscMsgID ≠ [] →
    jsonString rec.gwMsgID = rec.gwMsgID

theorem onWrite_of_late {rec : SubmitRecord} (h : Late id g .record (.record (.storeSubmit rec))) :
    (avoids id g).OnWrite ⟨rec.key, rec.json⟩ := by
  intro id' hid'
  refine ⟨?_, trivial⟩
  rintro rfl
  have hsmsc : rec.smscMsgID ≠ [] := by
    intro hempty
    simp only [SubmitRecord.key, hempty, if_true] at hid'
    exact msgKey_ne_gwKey _ _ hid'.symm
  have hjson : rec.json.gwMsgID = rec.gwMsgID := h.json rec rfl hsmsc
  have hne : ¬ (rec.key = msgKey id' ∧ rec.gwMsgID = g) := of_decide_eq_false h.keeps
  intro hg
  exact hne ⟨hid', hjson.symm.trans hg⟩

variable {π : Place} {b : RecordAction}

/-- **An action that is not about an earlier stage leaves a place clear.** -/
theorem exec_clear {a : Action} (h : exec cfg s i a = some r) (hs : Clear id g s π)
    (ha : Late id g π a) : Clear id g r.state π := by
  cases π with
  | log =>
    have hlog := (exec_recorded h).log
    simp only [Clear, hlog]
    unfold logAfter
    split
    · rename_i e
      exact late_insert hs fun hkey => by
        have := of_decide_eq_false ha.keeps
        simpa [hkey] using this
    · rename_i g' e
      exact late_insert hs fun hkey => by
        have := of_decide_eq_false ha.keeps
        simpa [hkey] using this
    · exact late_filter hs
    · rename_i rc corr e
      exact late_insert hs fun _ => ha.outcome rc corr e rfl
    · exact hs
  | status =>
    have hstatus := (exec_recorded h).status
    simp only [Clear, hstatus]
    unfold statusAfter
    split
    · rename_i st
      exact late_insert hs fun hkey => by
        have := of_decide_eq_false ha.keeps
        simpa [hkey] using this
    · exact late_filter hs
    · exact late_insert hs fun _ => rfl
    · exact hs
  | record =>
    have hsubmits := (exec_tables h).submits
    have hs : (avoids id g).OnSubmits s.store.submits := hs
    simp only [Clear, hsubmits]
    unfold submitsAfter
    split
    · exact hs.storeSubmit (onWrite_of_late ha)
    · exact hs.filter _
    · split
      · exact hs.flush
      · cases hrec : s.store.submits.receive with
        | none => exact hs
        | some submits => exact hs.receive hrec
    · exact hs.filter _
    · exact hs.filter _
    · exact hs

/-! ## Who is about to write an earlier stage -/

/-- The message an action tries southbound. -/
def tries : Action → Option Bytes
  | .submit (.forwardSubmitRaw f) => some f.gwMsgID
  | .submit (.retrySubmit p) => some p.gwMsgID
  | _ => none

theorem not_regresses_of_tells (hb : b.tells = false) : regresses id g π (.record b) = false := by
  cases b <;> cases π <;> first | rfl | cases hb

/-- What a worker is about to write is about the message it forwarded. -/
theorem forwarded_of_regresses {f : Forward} {id' : Bytes} {t : Time}
    (hb : .record b ∈ recordForwarded f id' t) (hreg : regresses id g π (.record b) = true) :
    f.gwMsgID = g := by
  simp only [recordForwarded, mem_append, mem_cons, not_mem_nil, or_false,
    Action.record.injEq] at hb
  rcases hb with ((rfl | rfl) | hb) | rfl
  · cases π <;> first | cases hreg | exact (of_decide_eq_true hreg).2
  · cases π <;> cases hreg
  · split at hb
    · obtain rfl := Action.record.inj (mem_singleton.mp hb)
      cases π <;> first | cases hreg | exact (of_decide_eq_true hreg).1
    · cases hb
  · cases π <;> first | cases hreg | exact (of_decide_eq_true hreg).1

/-- Giving up is an outcome. -/
theorem not_regresses_sendSyntheticDLR {connID g' d f : Bytes}
    (hb : .record b ∈ (sendSyntheticDLR s connID g' d f).next) :
    regresses id g π (.record b) = false := by
  unfold sendSyntheticDLR at hb
  split at hb
  · simp only [mem_cons, Action.record.injEq, not_mem_nil, or_false] at hb
    rcases hb with rfl | rfl | rfl | rfl <;> cases π <;> simp [regresses, MessageState.early]
  · simp only [mem_cons, Action.record.injEq, not_mem_nil, or_false, reduceCtorEq,
      false_or] at hb
    rcases hb with rfl | rfl <;> cases π <;> simp [regresses, MessageState.early]

/-- **Where an earlier stage comes from**: the action was about it already,
the message is tried southbound, or it has just been given its id. -/
theorem exec_regresses {a : Action} (h : exec cfg s i a = some r) {b : Action} (hb : b ∈ r.next)
    (hreg : regresses id g π b = true) :
    regresses id g π a = true ∨ tries a = some g ∨ g = gwMsgIDOf (s.msgSeq + 1) := by
  cases b with
  | submit b =>
    cases b with
    | getCorrelation f id' =>
      obtain ⟨a, rfl, hcont⟩ := submit_of_next h hb
      have hg : f.gwMsgID = g := by cases π <;> exact of_decide_eq_true hreg
      cases hcont
      exact .inr (.inl (congrArg some hg))
    | _ => cases π <;> cases hreg
  | record b =>
    rcases record_of_next h hb with htells | horigin
    · rw [not_regresses_of_tells htells] at hreg
      cases hreg
    · cases horigin with
      | rejected e hid hstatus hlog =>
        subst hlog
        cases π <;> simp [regresses, hstatus, MessageState.early] at hreg
      | submitted connID seqNum conn m hmem =>
        simp only [acceptSubmit, mem_cons, Action.record.injEq, not_mem_nil, or_false,
          reduceCtorEq] at hmem
        rcases hmem with rfl | rfl
        · cases π <;>
            simp [regresses, SubmitRecord.key, (msgKey_ne_gwKey _ _).symm] at hreg
        · cases π <;> first | cases hreg | exact .inr (.inr (of_decide_eq_true hreg).1.symm)
      | requested m rest ids ha hmem =>
        simp only [acceptRESTMessage, mem_append, mem_cons, Action.record.injEq,
          not_mem_nil, or_false, reduceCtorEq] at hmem
        rcases hmem with (rfl | rfl) | hmem
        · cases π <;>
            simp [regresses, SubmitRecord.key, (msgKey_ne_gwKey _ _).symm] at hreg
        · cases π <;> first | cases hreg | exact .inr (.inr (of_decide_eq_true hreg).1.symm)
        · split at hmem
          · cases hmem
          · obtain rfl := Action.record.inj (mem_singleton.mp hmem)
            cases π <;> cases hreg
      | forwarded f id' t ha hmem =>
        have hg := forwarded_of_regresses hmem hreg
        rcases ha with rfl | ⟨p, pool, rfl, -, rfl⟩
        · refine .inl ?_
          cases π <;> exact decide_eq_true hg
        · exact .inr (.inl (congrArg some hg))
      | gaveUp connID g' d f ha hseen hmem =>
        rw [not_regresses_sendSyntheticDLR hmem] at hreg
        cases hreg
      | updated g' u e ha he hwrite =>
        subst ha hwrite
        cases π <;> first | cases hreg | exact .inl hreg
  | back b => cases π <;> cases hreg
  | serve b => cases π <;> cases hreg

end Exec

/-! ## Runs -/

section Runs

variable {cfg : RouterConfig} {ok ok' : GatewayConf → Event Input Action → Prop}
  {c c₁ c₂ : GatewayConf} {id g : Bytes} {π : Place}

theorem reaches_outcomes (h : (gateway cfg).Reaches ok GatewayConf.start c) :
    ∀ a ∈ c.actions, ∀ rc corr e, a = .back (.settle rc corr (.writeLog e)) →
      e.status.early = false := by
  refine h.invariant (I := fun c => ∀ a ∈ c.actions, ∀ rc corr e,
    a = .back (.settle rc corr (.writeLog e)) → e.status.early = false) ?_ ?_
  · intro a ha
    cases ha
  · intro c e c' hc _ hs
    refine Program.forall_of_step hs hc ?_ ?_
    · rintro a hentry rc corr entry rfl
      cases hentry
    · rintro j i a r rest - hran b hb rc corr entry rfl
      obtain ⟨a, rfl, hreturn⟩ := settle_of_next hran.exec hb
      exact Bool.not_eq_true' _ ▸ execReturn_late hreturn _ hb

/-- What is pending in a run, if it is not about an earlier stage. -/
theorem late_of_mem (h : (gateway cfg).Reaches ok GatewayConf.start c) {a : Action}
    (ha : a ∈ c.actions) (hkeeps : regresses id g π a = false) : Late id g π a := by
  refine ⟨hkeeps, reaches_outcomes h a ha, ?_⟩
  rintro rec rfl hsmsc
  have hmark := (reaches_marked h).actions _ ha rec rfl hsmsc
  obtain ⟨pool, hp⟩ := assigned_iff.mp hmark.1
  obtain ⟨n, hn⟩ := (reaches_inv h).gwMsgID hp
  rw [hn, jsonString_gwMsgIDOf]

/-- A message the SMSC has taken is not tried again. -/
theorem not_tries_of_assigned (hc : Pipeline.Inv cfg c) (hg : Assigned c.trace id g) {a : Action}
    (ha : a ∈ c.actions) : tries a ≠ some g := by
  intro htries
  obtain ⟨pool, hp⟩ := assigned_iff.mp hg
  have hphase : ∀ φ, holds a = some (g, φ) →
      φ = .forwarded ∨ ∃ holder, φ = .correlating holder := fun φ hφ =>
    phase_of_success hc hp rfl
      (mem_tokens_iff.mpr (.inr (.inr (.inl ⟨a, ha, hφ⟩))))
  unfold tries at htries
  split at htries
  · cases htries
    rcases hphase _ rfl with heq | ⟨holder, heq⟩ <;> cases heq
  · cases htries
    rcases hphase _ rfl with heq | ⟨holder, heq⟩ <;> cases heq
  · cases htries

/-- An id that was given out is not the next one. -/
theorem ne_next_of_assigned (hc : Pipeline.Inv cfg c) (hg : Assigned c.trace id g) :
    g ≠ gwMsgIDOf (c.shared.msgSeq + 1) := by
  intro heq
  obtain ⟨pool, hp⟩ := assigned_iff.mp hg
  obtain ⟨φ, hφ, -⟩ := hc.phase hp
  obtain ⟨n, hn, hgn⟩ := hc.ids g (Multiset.mem_map.mpr ⟨(g, φ), hφ, rfl⟩)
  have := gwMsgIDOf_injective (heq.symm.trans hgn)
  omega

/-- Nobody starts to write an earlier stage of a message that the SMSC took. -/
theorem step_unopposed (h : (gateway cfg).Reaches ok GatewayConf.start c)
    (hassigned : Assigned c.trace id g) (hc : ∀ b ∈ c.actions, regresses id g π b = false)
    {e : Event Input Action} {c' : GatewayConf} (hs : (gateway cfg).step c e = some c') :
    ∀ b ∈ c'.actions, regresses id g π b = false := by
  refine Program.forall_of_step hs hc (fun b hentry => ?_) fun j i a r rest _ hran b hb => ?_
  · cases b with
    | submit b => cases b <;> cases π <;> first | rfl | cases hentry
    | record b => cases b <;> cases π <;> first | rfl | cases hentry
    | _ => cases π <;> rfl
  · -- the three ways such a write could join are all closed
    have hinv := reaches_inv h
    by_contra hreg
    rcases exec_regresses hran.exec hb (Bool.eq_true_of_not_eq_false hreg) with
      hold | htries | hfresh
    · rw [hc a hran.mem] at hold
      cases hold
    · exact not_tries_of_assigned hinv hassigned hran.mem htries
    · exact ne_next_of_assigned hinv hassigned hfresh

/-- The outcome of a message that the SMSC took is recorded at the place, and
nothing is about to undo it. -/
structure Final (c : GatewayConf) (id g : Bytes) (π : Place) : Prop where
  assigned : Assigned c.trace id g
  clear : Clear id g c.shared π
  actions : ∀ b ∈ c.actions, regresses id g π b = false

/-- **A step keeps the outcome.** -/
theorem Final.step (h : (gateway cfg).Reaches ok GatewayConf.start c) (hc : Final c id g π)
    {e : Event Input Action} {c' : GatewayConf} (hs : (gateway cfg).step c e = some c') :
    Final c' id g π := by
  refine ⟨hc.assigned.mono (Program.trace_of_step hs).subset, ?_,
    step_unopposed h hc.assigned hc.actions hs⟩
  rcases Program.step_cases hs with ⟨a, -, hst⟩ | ⟨j, i, a, r, rest, -, hran⟩
  · rw [hst.shared]
    exact hc.clear
  · rw [hran.shared]
    exact exec_clear hran.exec hc.clear (late_of_mem h hran.mem (hc.actions a hran.mem))

theorem Final.run (h : (gateway cfg).Reaches Program.Anything GatewayConf.start c)
    (hc : Final c id g π) (hrun : (gateway cfg).Reaches ok c c₁) : Final c₁ id g π := by
  have hboth : (gateway cfg).Reaches Program.Anything GatewayConf.start c₁ ∧ Final c₁ id g π := by
    refine hrun.invariant (I := fun c => (gateway cfg).Reaches Program.Anything
      GatewayConf.start c ∧ Final c id g π) ⟨h, hc⟩ ?_
    intro d e d' hd _ hs
    exact ⟨hd.1.step trivial hs, hd.2.step hd.1 hs⟩
  exact hboth.2

/-- The step of `handleDLR` leaves the outcome at its place. -/
theorem clear_of_settle {s : Gateway} {i : Input} {rc : Receipt} {corr : Correlation}
    {st : Settlement} (hplace : placeOf st = some π)
    (houtcome : ∀ e, st = .writeLog e → e.status.early = false)
    (hwriter : π = .record → ∀ op ∈ s.store.submits.batch ++ s.store.submits.writeCh,
      op.key = msgKey rc.parsed.messageID → op.data.gwMsgID ≠ corr.gwMsgID) :
    Clear rc.parsed.messageID corr.gwMsgID (execSettle s i rc corr st).state π := by
  unfold placeOf at hplace
  split at hplace
  · rename_i e
    cases hplace
    intro e' he'
    simp only [execSettle, MessageStore.writeLog, SortedMap.find?_insert, if_true] at he'
    exact Option.some.inj he' ▸ houtcome e rfl
  · cases hplace
    intro st' hst'
    simp only [execSettle, MessageStore.setMessageStatus, SortedMap.find?_insert, if_true] at hst'
    exact Option.some.inj hst' ▸ rfl
  · cases hplace
    have hqueue : ∀ op ∈ s.store.submits.batch ++ s.store.submits.writeCh,
        (avoids rc.parsed.messageID corr.gwMsgID).OnWrite op := by
      intro op hop id' hid'
      refine ⟨?_, trivial⟩
      rintro rfl
      exact hwriter rfl op hop hid'
    refine ⟨fun id' rec hrec => ⟨?_, trivial⟩, fun op hop => hqueue op (mem_append_left _ hop),
      fun op hop => hqueue op (mem_append_right _ hop)⟩
    rintro rfl
    simp only [execSettle, Submits.deleteSubmit, SortedMap.find?_erase, if_true] at hrec
    cases hrec
  · cases hplace

/-- **Once `handleDLR` has recorded the outcome of a message, no earlier stage
comes back**, if at that moment nobody is about to write one. -/
theorem outcome_is_final (cfg : RouterConfig)
    (h : (gateway cfg).Reaches Program.Anything GatewayConf.start c) {n : ℕ} {i : Input}
    {rc : Receipt} {corr : Correlation} {st : Settlement}
    (hhead : c.head n = some (.back (.settle rc corr st))) (hplace : placeOf st = some π)
    (hstep : (gateway cfg).step c (.run n i) = some c₁)
    (hlast : Unopposed c rc.parsed.messageID corr.gwMsgID π)
    (hrun : (gateway cfg).Reaches Program.Anything c₁ c₂) :
    ¬ Regressed rc.parsed.messageID corr.gwMsgID c₂.shared π := by
  have hmem := Conf.mem_actions_of_head hhead
  have hassigned : Assigned c.trace rc.parsed.messageID corr.gwMsgID :=
    ((reaches_marked h).actions _ hmem).1
  have hclear : Clear rc.parsed.messageID corr.gwMsgID c₁.shared π := by
    obtain ⟨rest, hthread⟩ := Conf.head_eq_some_iff.mp hhead
    obtain ⟨r, hexec, hshared, -, -⟩ := Program.step_run_cases hthread hstep
    cases hexec
    rw [hshared]
    exact clear_of_settle hplace (fun e he => reaches_outcomes h _ hmem rc corr e (he ▸ rfl))
      hlast.writer
  have hfinal : Final c₁ rc.parsed.messageID corr.gwMsgID π :=
    ⟨hassigned.mono (Program.trace_of_step hstep).subset, hclear,
      step_unopposed h hassigned hlast.actions hstep⟩
  exact (hfinal.run (h.step trivial hstep) hrun).clear.not_regressed

end Runs

/-- A receipt that comes when the worker is done with the message. -/
def lateReceipt : List (Event Input Action) :=
  engineSubmits ++
  goroutine 3 (.submit .forwardWorker)
    [{}, { attempt := .accepted 0 shortID }, {}, {}, {}, {}, {}, {}] ++
  goroutine 4 (shortReceipt 0 "DELIVRD") [{}, {}]

/-- A receipt that comes late has the last word in the log. -/
theorem late_receipt_stays :
    let c := (gateway .loadConfig).outcome Program.Anything GatewayConf.start lateReceipt
    ∃ rc corr e c₁, c.head 4 = some (.back (.settle rc corr (.writeLog e))) ∧
      rc.parsed.messageID = shortID ∧ corr.gwMsgID = gwMsgIDOf 1 ∧
      (gateway .loadConfig).step c (.run 4 {}) = some c₁ ∧
      ∀ c₂, (gateway .loadConfig).Reaches Program.Anything c₁ c₂ →
        ¬ Regressed shortID (gwMsgIDOf 1) c₂.shared .log := by
  intro c
  have hrun := (gateway .loadConfig).reaches_outcome Program.Anything GatewayConf.start
    lateReceipt (by decide)
  have hhead : c.head 4 = some (.back (.settle
      ⟨0, ascii "200", ascii "100", 0x04, ascii "id:s1 stat:DELIVRD", ⟨shortID, ascii "DELIVRD", []⟩⟩
      ⟨gwMsgIDOf 1, engineID, ascii "200", 0⟩
      (.writeLog ⟨gwMsgIDOf 1, shortID, engineID, ascii "100", ascii "200", .delivered,
        ascii "DELIVRD", 0, 0⟩))) := by decide
  have hstep := (gateway .loadConfig).step_outcome c (.run 4 {}) (by decide)
  refine ⟨_, _, _, _, hhead, rfl, rfl, hstep, fun c₂ hafter => ?_⟩
  exact outcome_is_final .loadConfig hrun hhead rfl hstep ⟨by decide, fun h => by cases h⟩ hafter

/-! ## An early receipt -/

/-- A gateway whose queue holds one message. -/
def oneInQueue : RouterConfig := { RouterConfig.loadConfig with forwardQueueSize := 1 }

/-- An engine's message is forwarded as far as the correlation, then its
receipt is looked up. -/
def engineReceipt : List (Event Input Action) :=
  engineSubmits ++
  goroutine 3 (.submit .forwardWorker) [{}, { attempt := .accepted 0 shortID }, {}, {}] ++
  goroutine 4 (shortReceipt 0 "DELIVRD") [{}]

/-- The same for a REST message that found the queue full and was sent by the
drain pass. -/
def restReceipt : List (Event Input Action) :=
  restSubmits ++
  goroutine 1
    (.submit (.handleHTTPSubmit
      { toAddr := ascii "200", fromAddr := ascii "100", body := ascii "hi" }))
    [{}, {}, {}, {}, {}, {}] ++
  goroutine 2 (.submit .drainSubmitRetries) [{}, { attempt := .accepted 0 shortID }, {}] ++
  goroutine 3 (shortReceipt 0 "DELIVRD") [{}]

/-- `handleDLR` up to its write to the place. -/
def beforePlace : Place → List (Event Input Action)
  | .log => engineReceipt ++ [.run 4 {}]
  | .status => restReceipt ++ [.run 3 {}, .run 3 {}]
  | .record => engineReceipt ++ List.replicate 7 (.run 4 {})

/-- The goroutine that handles the receipt. -/
def handlerOf : Place → ℕ
  | .log | .record => 4
  | .status => 3

/-- What the goroutine that forwarded the message still does, and the batch
writer after it. -/
def afterPlace : Place → List (Event Input Action)
  | .log => List.replicate 4 (.run 3 {})
  | .status => List.replicate 3 (.run 2 {})
  | .record => .run 3 {} :: goroutine 5 (.record .batchWriteLoop) [{}, {}, { tick := true }]

/-- The receipt, and the correlations it finds. -/
def earlyReceipt : Receipt :=
  ⟨0, ascii "200", ascii "100", 0x04, ascii "id:s1 stat:DELIVRD",
    { messageID := shortID, status := ascii "DELIVRD", errorCode := [] }⟩

def earlyCorrelation : Place → Correlation
  | .log | .record => ⟨gwMsgIDOf 1, engineID, ascii "200", 0⟩
  | .status => ⟨gwMsgIDOf 2, restApi, ascii "200", 0⟩

/-- What `handleDLR` writes there. -/
def earlySettlement : Place → Settlement
  | .log => .writeLog
    { gwMsgID := gwMsgIDOf 1, connID := engineID, sourceAddr := ascii "100",
      destAddr := ascii "200", status := .delivered, dlrStatus := ascii "DELIVRD" }
  | .status => .setMessageStatus
  | .record => .deleteSubmit

/-- In some run `handleDLR` records an outcome at the place, and later on there
is an earlier stage there. -/
def Undone (π : Place) : Prop :=
  ∃ (cfg : RouterConfig) (c c₁ c₂ : GatewayConf) (n : ℕ) (i : Input) (rc : Receipt)
    (corr : Correlation) (st : Settlement),
    (gateway cfg).Reaches Program.Anything GatewayConf.start c ∧
    c.head n = some (.back (.settle rc corr st)) ∧ placeOf st = some π ∧
    (gateway cfg).step c (.run n i) = some c₁ ∧
    (gateway cfg).Reaches Program.Anything c₁ c₂ ∧
    Regressed rc.parsed.messageID corr.gwMsgID c₂.shared π

theorem undone (π : Place) : Undone π := by
  have hrun := (gateway oneInQueue).reaches_outcome Program.Anything GatewayConf.start
    (beforePlace π) (by cases π <;> decide)
  have hstep := (gateway oneInQueue).step_outcome
    ((gateway oneInQueue).outcome Program.Anything GatewayConf.start (beforePlace π))
    (.run (handlerOf π) {}) (by cases π <;> decide)
  have hafter := (gateway oneInQueue).reaches_outcome Program.Anything
    ((gateway oneInQueue).outcome Program.Anything
      ((gateway oneInQueue).outcome Program.Anything GatewayConf.start (beforePlace π))
      [.run (handlerOf π) {}]) (afterPlace π) (by cases π <;> decide)
  refine ⟨oneInQueue, _, _, _, handlerOf π, {}, earlyReceipt, earlyCorrelation π,
    earlySettlement π, hrun, ?_, ?_, hstep, hafter, ?_⟩
  · cases π <;> decide
  · cases π <;> rfl
  · cases π <;> decide

/-- **A receipt that comes early is undone**, at each of the three places: it is
handled while the goroutine that forwarded the message is about to make its
own writes. -/
theorem early_receipt_is_undone : Undone .log ∧ Undone .status ∧ Undone .record :=
  ⟨undone .log, undone .status, undone .record⟩

end Receipts

end SmscGateway
