import SmscGateway.Restart.Crash
import SmscGateway.Return.Conservation
import SmscGateway.Return.Target

/-!
# Message ids over the life of a data directory

`nextMsgID` counts from one in every process, while the records that are kept
under an id outlive the process. Within one life no id is given out twice and
all records are of messages of this life (`Current`). A restart is harmless
exactly when it finds no record of an accepted message: otherwise the counter
comes to that message's number again (`id_not_reused`).
-/

namespace SmscGateway

open List

namespace Restart

open ReturnPath

/-! ## The records of a message -/

/-- Item `k` of the return path is a receipt of the message: one that was
matched with it, or the synthetic one. -/
def OwnedBy (trace : List Obs) (k : ℕ) (gwMsgID : Bytes) : Prop :=
  (∃ n corr, .matched n (.smpp corr k) ∈ trace ∧ corr.gwMsgID = gwMsgID) ∨
  ∃ it owner, .item k (.took it) ∈ trace ∧ it.kind = .synthetic owner ∧
    it.payload = syntheticReceipt gwMsgID

variable {l l' : List Obs} {g : Bytes} {n : ℕ}

theorem OwnedBy.mono (h : l ⊆ l') {k : ℕ} (hk : OwnedBy l k g) : OwnedBy l' k g := by
  rcases hk with ⟨n, corr, hm, hg⟩ | ⟨it, owner, ht, hkind, hp⟩
  · exact .inl ⟨n, corr, h hm, hg⟩
  · exact .inr ⟨it, owner, h ht, hkind, hp⟩

theorem ownedBy_append {k : ℕ} (h : OwnedBy (l ++ l') k g) : OwnedBy l k g ∨ OwnedBy l' k g := by
  rcases h with ⟨n, corr, hm, hg⟩ | ⟨it, owner, ht, hkind, hp⟩
  · rcases mem_append.mp hm with hm | hm
    · exact .inl (.inl ⟨n, corr, hm, hg⟩)
    · exact .inr (.inl ⟨n, corr, hm, hg⟩)
  · rcases mem_append.mp ht with ht | ht
    · exact .inl (.inr ⟨it, owner, ht, hkind, hp⟩)
    · exact .inr (.inr ⟨it, owner, ht, hkind, hp⟩)

/-- The data directory has a record of the message: a `status:`, `callback:` or
`logidx:` record under its id, a `gw:` or `msg:` record or a `submit-retry:`
entry that names it, or a `retry:` entry with a receipt of it. -/
def Recorded (trace : List Obs) (s : MessageStore) (gwMsgID : Bytes) : Prop :=
  (s.status.find? gwMsgID).isSome = true ∨
  (s.callbacks.find? gwMsgID).isSome = true ∨
  (s.log.find? gwMsgID).isSome = true ∨
  (∃ rec ∈ s.submits.db.values, rec.gwMsgID = gwMsgID) ∨
  (∃ p ∈ s.submitRetries.values, p.gwMsgID = gwMsgID) ∨
  ∃ e ∈ s.retries.values, OwnedBy trace e.item gwMsgID

/-! ## What is new in an action -/

section Exec

variable {cfg : RouterConfig} {s : Gateway} {i : Input} {r : GatewayEffect}

variable {a : Action}

/-- A message is accepted under the next id. -/
theorem exec_accepted_id (h : exec cfg s i a = some r) {g : Bytes} {o : Origin}
    (ho : .message g (.accepted o) ∈ r.seen) :
    g = gwMsgIDOf (s.msgSeq + 1) ∧ r.state.msgSeq = s.msgSeq + 1 := by
  have hw := exec_writes h ho
  cases a with
  | submit a =>
    cases execSubmit_moves h with
    | accepted =>
      refine ⟨?_, rfl⟩
      simp only [acceptSubmit] at ho
      rcases mem_cons.mp ho with ho | ho
      · exact (Obs.message.inj ho).1
      · split at ho <;> simp at ho
    | acceptedREST => exact ⟨(Obs.message.inj (mem_singleton.mp ho)).1, rfl⟩
    | rejected | answered => simp at ho
    | _ => simp [Action.Writes, Label.afterFailure] at hw
  | _ => exact hw.elim

theorem enqueueSubmitRetryOrFail_msgSeq (now : Time) (g connID d f body : Bytes) (n : ℕ) :
    (enqueueSubmitRetryOrFail cfg s now g connID d f body n).state.msgSeq = s.msgSeq := by
  unfold enqueueSubmitRetryOrFail
  split
  · rfl
  · exact (Pipeline.sendSyntheticDLR_spec connID g d f).1

/-- The counter only grows. -/
theorem exec_msgSeq_le (h : exec cfg s i a = some r) : s.msgSeq ≤ r.state.msgSeq := by
  by_cases ha : a.onSubmit = false
  · exact (exec_offSubmit ha h).msgSeq.ge
  cases a with
  | submit a =>
    cases execSubmit_moves h with
    | rejected | accepted | acceptedREST => exact Nat.le_succ _
    | overflowed | unsent | unresent => exact (enqueueSubmitRetryOrFail_msgSeq _ _ _ _ _ _ _).ge
    | _ => exact le_rfl
  | _ => exact absurd rfl ha

theorem syntheticReceipt_injective : Function.Injective syntheticReceipt := by
  intro g g' h
  unfold syntheticReceipt at h
  exact append_cancel_left (append_cancel_right (append_cancel_right h))

/-- An item that becomes a receipt of a message is a new one, and the message
was just read from a correlation or given up. -/
theorem exec_owned (h : exec cfg s i a = some r) {k : ℕ} {g : Bytes} (hown : OwnedBy r.seen k g) :
    k = s.tickets ∧ r.state.tickets = s.tickets + 1 ∧
      ∃ o ∈ r.seen, ∃ x ∈ o.claims, x.1 = g := by
  rcases hown with ⟨n, corr, hm, hg⟩ | ⟨it, owner, ht, hkind, hp⟩
  · obtain ⟨it, hit, -⟩ := exec_receipt_took h hm
    obtain ⟨hk, htick, -⟩ := exec_took h hit
    exact ⟨hk, htick, _, hm, corr.claim, mem_singleton_self _, hg⟩
  · obtain ⟨hk, htick, hsource⟩ := exec_took h ht
    refine ⟨hk, htick, ?_⟩
    unfold Sourced at hsource
    rw [hkind] at hsource
    obtain ⟨g', hg'⟩ := hsource
    cases a with
    | submit a =>
      rcases execSubmit_cases h with hoff | ⟨connID, g'', d, f, l, hrest, rfl⟩
      · exact absurd (all_eq_true.mp hoff.seen _ ht) (by simp [Obs.onReturn])
      · rw [sendSyntheticDLR, if_neg hrest] at ht ⊢
        obtain ⟨-, rfl⟩ : k = s.tickets ∧
            it = ⟨.synthetic connID, f, d, 0x04, syntheticReceipt g''⟩ := by
          simpa [Effect.after] using ht
        exact ⟨_, mem_cons_of_mem _ mem_cons_self, (g'', connID),
          mem_singleton_self _, syntheticReceipt_injective hp⟩
    -- only the submit side gives a message up
    | _ =>
      have hoff := (exec_offSubmit rfl h).seen
      exact absurd (all_eq_true.mp hoff _ hg') (by simp [Obs.onSubmit])

end Exec

/-! ## One life -/

/-- An id that is not going to be given out in this life: that of a message
accepted so far, or of a rejected submit. -/
def Issued (n : ℕ) (trace : List Obs) (gwMsgID : Bytes) : Prop :=
  (∃ m ≤ n, gwMsgID = gwMsgIDOf m ∧ ∃ o, .message gwMsgID (.accepted o) ∈ trace) ∨
    ∃ m, gwMsgID = rejectedID m

theorem Issued.mono {n' : ℕ} (hn : n ≤ n') (hl : l ⊆ l') (h : Issued n l g) : Issued n' l' g := by
  rcases h with ⟨m, hm, hg, o, ho⟩ | h
  · exact .inl ⟨m, hm.trans hn, hg, o, hl ho⟩
  · exact .inr h

theorem gwMsgIDOf_ne_rejectedID (n m : ℕ) : gwMsgIDOf n ≠ rejectedID m := by
  intro h
  have hhead : (71 : UInt8) = 114 := (cons.inj h).1
  exact absurd hhead (by decide)

/-- The next id is none of them. -/
theorem not_issued_next (n : ℕ) (trace : List Obs) : ¬ Issued n trace (gwMsgIDOf (n + 1)) := by
  rintro (⟨m, hm, hg, -⟩ | ⟨m, hg⟩)
  · have := gwMsgIDOf_injective hg
    omega
  · exact gwMsgIDOf_ne_rejectedID _ _ hg

theorem issued_json {trace : List Obs} (h : Issued n trace g) : Issued n trace (jsonString g) := by
  have hsame : jsonString g = g := by
    rcases h with ⟨m, -, rfl, -⟩ | ⟨m, rfl⟩
    · exact jsonString_gwMsgIDOf m
    · exact jsonString_numbered (by decide) m
  rw [hsame]
  exact h

/-- The errand is about an item taken on earlier, and of a message of this
life if it is one of a message. -/
def Ours (n tickets : ℕ) (trace : List Obs) (x : Errand) : Prop :=
  x.isDLR = Smpp.isDLR x.esmClass ∧ x.item < tickets ∧
    ∀ g, OwnedBy trace x.item g → Issued n trace g

theorem lasting_ours (n tickets : ℕ) (trace : List Obs) : Lasting (Ours n tickets trace) where
  isDLR := fun _ h => h.1
  json := fun _ h => h
  free := fun _ _ h _ => h

/-- No session matters here. -/
abbrev AnySession : Bytes → ℕ → Prop := fun _ _ => True

/-- All ids are of this life. -/
def issued (n : ℕ) (trace : List Obs) : Dossier where
  parcel _ g _ _ _ := Issued n trace g
  claim g _ _ := Issued n trace g
  kept g g' := g' = g ∧ Issued n trace g

theorem issued_lawful (n : ℕ) (trace : List Obs) : (issued n trace).Lawful :=
  ⟨fun h => h, fun h => ⟨rfl, h⟩, fun h => ⟨rfl, h.1 ▸ h.2⟩, fun m => ⟨rfl, .inr ⟨m, rfl⟩⟩,
    issued_json, issued_json⟩

theorem issued_le {n' : ℕ} (hn : n ≤ n') (hl : l ⊆ l') : (issued n l).Le (issued n' l') :=
  ⟨fun h => h.mono hn hl, fun h => h.mono hn hl, fun h => h.imp_right fun h => h.mono hn hl⟩

/-- **What holds in one life of the process**: every id that is kept, queued or
about to be used is one that was given out in this life. -/
structure Current (c : GatewayConf) : Prop where
  ids : (issued c.shared.msgSeq c.trace).On c
  retries : ∀ e ∈ c.shared.store.retries.values,
    Ours c.shared.msgSeq c.shared.tickets c.trace (entryErrand e)
  errands : ∀ a ∈ c.actions,
    Carries (Ours c.shared.msgSeq c.shared.tickets c.trace) AnySession a
  /-- Items of messages have tickets. -/
  owned : ∀ k g, OwnedBy c.trace k g → k < c.shared.tickets
  /-- Messages are numbered from one. -/
  accepted : ∀ g o, .message g (.accepted o) ∈ c.trace → ∃ n, g = gwMsgIDOf (n + 1)

variable {cfg : RouterConfig} {c c' : GatewayConf}

/-- What an action does to the ids of this life. -/
theorem current_of_exec {i : Input} {a : Action} {r : GatewayEffect} (hc : Current c)
    (ha : a ∈ c.actions) (hexec : exec cfg c.shared i a = some r) :
    (issued r.state.msgSeq (c.trace ++ r.seen)).Keeps r ∧
    Delegates (Ours r.state.msgSeq r.state.tickets (c.trace ++ r.seen)) AnySession r ∧
    (∀ x, Ours c.shared.msgSeq c.shared.tickets c.trace x →
      Ours r.state.msgSeq r.state.tickets (c.trace ++ r.seen) x) := by
  have hgrows : ∀ {g}, Issued c.shared.msgSeq c.trace g →
      Issued r.state.msgSeq (c.trace ++ r.seen) g := fun h =>
    h.mono (exec_msgSeq_le hexec) (subset_append_left _ _)
  have htickets : c.shared.tickets ≤ r.state.tickets := by
    rcases exec_takes hexec with ⟨htick, -⟩ | ⟨-, htick, -, -⟩ <;> omega
  have hkeeps : (issued r.state.msgSeq (c.trace ++ r.seen)).Keeps r := by
    have hon := hc.ids.mono (issued_le (exec_msgSeq_le hexec) (subset_append_left _ r.seen))
    refine Dossier.exec_dossier (issued_lawful _ _) hexec hon.state (hon.actions a ha) ?_
      fun _ t _ ht => ht.choose_spec
    intro t connID hmem
    obtain ⟨hg, hseq, o, ho, -⟩ := offer_of_next hexec hmem
    exact .inl ⟨_, hseq.ge, hg, o, mem_append_right _ ho⟩
  -- an item that was taken on earlier is made no one else's
  have hours : ∀ x, Ours c.shared.msgSeq c.shared.tickets c.trace x →
      Ours r.state.msgSeq r.state.tickets (c.trace ++ r.seen) x := by
    rintro x ⟨hbit, hlt, hx⟩
    refine ⟨hbit, by omega, fun g hg => ?_⟩
    rcases ownedBy_append hg with hg | hg
    · exact hgrows (hx g hg)
    · have := (exec_owned hexec hg).1
      omega
  refine ⟨hkeeps, ?_, hours⟩
  refine exec_errands hexec (lasting_ours _ _ _) (fun e he => hours _ (hc.retries e he))
    ((hc.errands a ha).imp hours fun _ _ _ => trivial) (fun _ _ _ => trivial) ?_
  rintro k it hk x ⟨rfl, -, hesm, hbit, -⟩
  obtain ⟨hnew, htick, -⟩ := exec_took hexec hk
  refine ⟨by rw [hbit, hesm], by omega, fun g hg => ?_⟩
  rcases ownedBy_append hg with hg | hg
  · have := hc.owned _ _ hg
    omega
  · obtain ⟨-, -, o, ho, y, hy, rfl⟩ := exec_owned hexec hg
    exact (hkeeps.seen o ho y hy).choose_spec

theorem step_current {e : Event Input Action} (hc : Current c)
    (hs : (gateway cfg).step c e = some c') : Current c' := by
  rcases Program.step_cases hs with ⟨a, -, hst⟩ | ⟨j, input, a, r, rest, -, hran⟩
  · refine ⟨⟨?_, fun b hmem => ?_⟩, ?_, fun b hmem => ?_, ?_, ?_⟩ <;>
      rw [hst.trace] <;> try rw [hst.shared]
    · exact hc.ids.state
    · rcases hst.cases hmem with rfl | hmem
      · exact Dossier.onAction_of_entry hst.entry
      · exact hc.ids.actions b hmem
    · exact hc.retries
    · rcases hst.cases hmem with rfl | hmem
      · exact carries_of_entry hst.entry
      · exact hc.errands b hmem
    · exact hc.owned
    · exact hc.accepted
  · have hexec : exec cfg c.shared input a = some r := hran.exec
    obtain ⟨hkeeps, hdel, hours⟩ := current_of_exec hc hran.mem hexec
    have hold := hc.ids.mono (issued_le (exec_msgSeq_le hexec) (subset_append_left _ r.seen))
    refine ⟨⟨?_, fun b hmem => ?_⟩, ?_, fun b hmem => ?_, ?_, ?_⟩ <;>
      rw [hran.trace] <;> try rw [hran.shared]
    · exact hkeeps.state
    · rcases hran.cases hmem with hmem | hmem
      · exact hkeeps.next b hmem
      · exact hold.actions b (hran.pending hmem)
    · exact hdel.queue
    · rcases hran.cases hmem with hmem | hmem
      · exact hdel.next b hmem
      · exact (hc.errands b (hran.pending hmem)).imp hours fun _ _ _ => trivial
    · intro k g hown
      rcases ownedBy_append hown with hown | hown
      · have hlt := hc.owned k g hown
        rcases exec_takes hexec with ⟨htick, -⟩ | ⟨-, htick, -, -⟩ <;> omega
      · obtain ⟨hk, htick, -⟩ := exec_owned hexec hown
        omega
    · intro g o ho
      rcases mem_append.mp ho with ho | ho
      · exact hc.accepted g o ho
      · exact ⟨_, (exec_accepted_id hexec ho).1⟩

/-! ## Restarts -/

/-- The data directory has no record of any message that was accepted. -/
def Clean (c : GatewayConf) : Prop :=
  ∀ g o, .message g (.accepted o) ∈ c.trace → ¬ Recorded c.trace c.shared.store g

/-- The next message is about to get the id of an earlier one of which there
still is a record. -/
def Clashes (cfg : RouterConfig) (c : GatewayConf) : Prop :=
  ∃ g o o', (gateway cfg).Shows c (.message g (.accepted o)) ∧
    .message g (.accepted o') ∈ c.trace ∧ Recorded c.trace c.shared.store g

/-- The configuration after a restart: the goroutines are gone, the trace is
the observer's. -/
def restarted (c : GatewayConf) : GatewayConf := ⟨c.shared.restart, [], c.trace⟩

/-- A record that is left is then none of an accepted message. -/
theorem issued_of_clean {trace : List Obs} (h : Issued n trace g)
    (hclean : ∀ o, .message g (.accepted o) ∉ trace) : Issued 0 trace g := by
  rcases h with ⟨m, -, -, o, ho⟩ | h
  · exact absurd ho (hclean o)
  · exact .inr h

/-- A clean restart begins a new life. -/
theorem current_restart (hc : Current c) (hclean : Clean c) : Current (restarted c) := by
  have hleft : ∀ g, Recorded c.trace c.shared.store g → Issued c.shared.msgSeq c.trace g →
      Issued 0 c.trace g := fun g hrec hg =>
    issued_of_clean hg fun o ho => hclean g o ho hrec
  have hids := hc.ids.state
  refine ⟨⟨⟨fun t ht => ?_, fun p hp => ?_, fun v hv => ?_, fun v hv => ?_, fun v hv => ?_,
    fun g hg => ?_, fun g cb hcb => ?_, fun g hg => ?_⟩, fun _ ha => ?_⟩,
    fun e he => ?_, fun _ ha => ?_, hc.owned, hc.accepted⟩
  · cases ht
  · exact hleft _ (.inr (.inr (.inr (.inr (.inl ⟨p, hp, rfl⟩))))) (hids.submitRetries p hp)
  · cases hv
  · cases hv
  · have hdb : v ∈ c.shared.store.submits.db.values := by
      simpa [Submits.records, restarted, Gateway.restart, Submits.empty] using hv
    exact hleft _ (.inr (.inr (.inr (.inl ⟨v, hdb, rfl⟩))))
      (hids.submits v (mem_append_left _ (mem_append_left _ hdb)))
  · exact ⟨rfl, hleft g (.inl hg) (hids.status g hg).2⟩
  · obtain ⟨hkey, hg⟩ := hids.callbacks g cb hcb
    exact ⟨hkey, hleft g (.inr (.inl (Option.isSome_iff_exists.mpr ⟨cb, hcb⟩))) hg⟩
  · exact ⟨rfl, hleft g (.inr (.inr (.inl hg))) (hids.log g hg).2⟩
  · cases ha
  · obtain ⟨hbit, hlt, hown⟩ := hc.retries e he
    refine ⟨hbit, hlt, fun g hg => ?_⟩
    exact hleft g (.inr (.inr (.inr (.inr (.inr ⟨e, he, hg⟩))))) (hown g hg)
  · cases ha

theorem current_start : Current GatewayConf.start := by
  refine ⟨Dossier.onRun_start.toOn, fun _ he => ?_, fun _ ha => ?_, fun k g hown => ?_, fun _ _ ho => ?_⟩
  · cases he
  · cases ha
  · rcases hown with ⟨_, _, hm, -⟩ | ⟨_, _, hm, -⟩ <;> cases hm
  · cases ho

theorem lives_current (h : (gateway cfg).Lives Gateway.restart Clean GatewayConf.start c) :
    Current c :=
  h.invariant current_start (fun _ _ _ hc hs => step_current hc hs)
    fun _ hc hclean => current_restart hc hclean

theorem reaches_current {ok : GatewayConf → Event Input Action → Prop}
    (h : (gateway cfg).Reaches ok GatewayConf.start c) : Current c :=
  h.invariant current_start fun _ _ _ hc _ hs => step_current hc hs

/-- Everything that is recorded is of this life. -/
theorem issued_of_recorded (hc : Current c) (h : Recorded c.trace c.shared.store g) :
    Issued c.shared.msgSeq c.trace g := by
  rcases h with h | h | h | ⟨rec, hrec, rfl⟩ | ⟨p, hp, rfl⟩ | ⟨e, he, hown⟩
  · exact (hc.ids.state.status g h).2
  · obtain ⟨cb, hcb⟩ := Option.isSome_iff_exists.mp h
    exact (hc.ids.state.callbacks g cb hcb).2
  · exact (hc.ids.state.log g h).2
  · exact hc.ids.state.submits rec (mem_append_left _ (mem_append_left _ hrec))
  · exact hc.ids.state.submitRetries p hp
  · exact (hc.retries e he).2.2 g hown

theorem not_clashes_of_current (hc : Current c) : ¬ Clashes cfg c := by
  rintro ⟨g, o, -, ⟨i, input, a, r, -, hexec, ho⟩, -, hrec⟩
  have hissued := issued_of_recorded hc hrec
  rw [(exec_accepted_id hexec ho).1] at hissued
  exact not_issued_next _ _ hissued

/-! ## A restart that is not clean -/

/-- A REST request that passes its checks. -/
def someRequest : SMSSubmitRequest where
  toAddr := ascii "200"
  fromAddr := ascii "100"
  body := ascii "hi"

/-- A new request is about to be given an id. -/
theorem reaches_request (cfg : RouterConfig) {c₀ c : GatewayConf}
    (h : (gateway cfg).Reaches Program.Anything c₀ c) :
    ∃ (c' : GatewayConf) (i : ℕ), (gateway cfg).Reaches Program.Anything c₀ c' ∧
      c'.shared = c.shared ∧ c'.trace = c.trace ∧
      c'.threads[i]? = some [.submit (.acceptREST [someRequest] [])] := by
  let started : GatewayConf :=
    ⟨c.shared, c.threads ++ [[.submit (.handleHTTPSubmit someRequest)]], c.trace⟩
  have hstart : (gateway cfg).step c (.start (.submit (.handleHTTPSubmit someRequest))) =
      some started := rfl
  have hthread : started.threads[c.threads.length]? =
      some [.submit (.handleHTTPSubmit someRequest)] := by simp [started]
  have hexec : exec cfg c.shared {} (.submit (.handleHTTPSubmit someRequest)) =
      some { state := c.shared, next := [.submit (.acceptREST [someRequest] [])] } := rfl
  have hrun : (gateway cfg).step started (.run c.threads.length {}) =
      some ⟨c.shared, started.threads.set c.threads.length
        [.submit (.acceptREST [someRequest] [])], c.trace ++ []⟩ := by
    simp only [Program.step, hthread]
    exact congrArg _ hexec
  refine ⟨_, c.threads.length, (h.step trivial hstart).step trivial hrun, rfl,
    append_nil _, ?_⟩
  simp [started]

/-- The counter can be brought to any value while the store stays as the crash
left it. -/
theorem reaches_msgSeq (cfg : RouterConfig) (c : GatewayConf) (n : ℕ) :
    ∃ (c' : GatewayConf) (i : ℕ), (gateway cfg).Reaches Program.Anything (restarted c) c' ∧
      c'.shared.msgSeq = n ∧ c'.shared.store = c.shared.restart.store ∧ c.trace ⊆ c'.trace ∧
      c'.threads[i]? = some [.submit (.acceptREST [someRequest] [])] := by
  induction n with
  | zero =>
    have hstart : (gateway cfg).Reaches Program.Anything (restarted c) (restarted c) := .start
    obtain ⟨c', i, hr, hshared, htr, hi⟩ := reaches_request cfg hstart
    exact ⟨c', i, hr, by rw [hshared]; rfl, by rw [hshared]; rfl,
      htr ▸ List.Subset.refl _, hi⟩
  | succ n ih =>
    obtain ⟨c', i, hr, hseq, hstore, htr, hi⟩ := ih
    let r := acceptRESTMessage c'.shared {} someRequest [] []
    have hrun : (gateway cfg).step c' (.run i {}) =
        some ⟨r.state, c'.threads.set i (r.next ++ []), c'.trace ++ r.seen⟩ := by
      simp only [Program.step, hi]
      rfl
    obtain ⟨c'', j, hr', hshared, htr', hj⟩ := reaches_request cfg (hr.step trivial hrun)
    refine ⟨c'', j, hr', ?_, ?_, ?_, hj⟩
    · rw [hshared, ← hseq]
      rfl
    · rw [hshared, ← hstore]
      rfl
    · rw [htr']
      exact List.Subset.trans htr (subset_append_left _ _)

theorem Recorded.mono (hl : l ⊆ l') {s : MessageStore} (h : Recorded l s g) : Recorded l' s g := by
  rcases h with h | h | h | h | h | ⟨e, he, hown⟩
  · exact .inl h
  · exact .inr (.inl h)
  · exact .inr (.inr (.inl h))
  · exact .inr (.inr (.inr (.inl h)))
  · exact .inr (.inr (.inr (.inr (.inl h))))
  · exact .inr (.inr (.inr (.inr (.inr ⟨e, he, hown.mono hl⟩))))

/-- After a restart that leaves a record of a message the gateway can come to
give its id to another. -/
theorem clashes_of_not_clean (cfg : RouterConfig) {c : GatewayConf} (hc : Current c)
    (h : ¬ Clean c) :
    ∃ c', (gateway cfg).Reaches Program.Anything (restarted c) c' ∧ Clashes cfg c' := by
  obtain ⟨g, hg⟩ := not_forall.mp h
  obtain ⟨o, hgo⟩ := not_forall.mp hg
  obtain ⟨ho, hrec⟩ := Classical.not_imp.mp hgo
  rw [not_not] at hrec
  obtain ⟨n, rfl⟩ := hc.accepted g o ho
  obtain ⟨c', i, hr, hseq, hstore, htr, hi⟩ := reaches_msgSeq cfg c n
  refine ⟨c', hr, gwMsgIDOf (n + 1), .rest, o, ⟨i, {}, .submit (.acceptREST [someRequest] []),
    acceptRESTMessage c'.shared {} someRequest [] [], ?_, rfl, ?_⟩, htr ho, ?_⟩
  · simp [Conf.head, hi]
  · rw [← hseq]
    exact mem_singleton_self _
  · rw [hstore]
    exact hrec.mono htr

/-! ## The result -/

/-- **When ids are unique.** In every run, restarts included, in which each
restart finds no record of an accepted message, no message is given an id of
which a record exists. A restart that does find one can be followed by a run in
which the id is given out again. -/
theorem id_not_reused (cfg : RouterConfig) {c : GatewayConf}
    (h : (gateway cfg).Lives Gateway.restart Clean GatewayConf.start c) :
    ¬ Clashes cfg c ∧
    (Clean c ↔ ∀ c', (gateway cfg).Reaches Program.Anything (restarted c) c' →
      ¬ Clashes cfg c') := by
  have hc := lives_current h
  refine ⟨not_clashes_of_current hc, fun hclean c' hr => ?_, fun hno => ?_⟩
  · exact not_clashes_of_current (lives_current ((h.restart hclean).run hr))
  · by_contra hclean
    obtain ⟨c', hr, hclash⟩ := clashes_of_not_clean cfg hc hclean
    exact hno c' hr hclash

/-- Goroutines 0 to 2: a REST message is accepted, the writer flushes its `gw:`
record, and the clean-up runs when the message is older than the TTL. -/
def submitsAndExpires : List (Event Input Action) :=
  restSubmits ++
  goroutine 1 (.record .batchWriteLoop) [{}, { tick := true }] ++
  goroutine 2 (.record .cleanup) [{ now := 86401 * second }]

/-- A message is accepted and its records expire. The request after the restart
is given the same id, of which there is no record any more. -/
theorem expired_id_is_fresh :
    ∃ c₁ c, (gateway .loadConfig).Reaches Program.Anything GatewayConf.start c₁ ∧
      .message (gwMsgIDOf 1) (.accepted .rest) ∈ c₁.trace ∧ Clean c₁ ∧
      (gateway .loadConfig).Reaches Program.Anything (restarted c₁) c ∧
      (gateway .loadConfig).Shows c (.message (gwMsgIDOf 1) (.accepted .rest)) ∧
      ¬ Clashes .loadConfig c := by
  have hfirst := (gateway .loadConfig).reaches_outcome Program.Anything GatewayConf.start
    submitsAndExpires (by decide)
  have hempty : ((gateway .loadConfig).outcome Program.Anything GatewayConf.start
      submitsAndExpires).shared.store = .empty := by decide
  have hclean : Clean ((gateway .loadConfig).outcome Program.Anything GatewayConf.start
      submitsAndExpires) := by
    intro g o _ hrec
    rw [hempty] at hrec
    rcases hrec with h | h | h | ⟨_, h, -⟩ | ⟨_, h, -⟩ | ⟨_, h, -⟩ <;> cases h
  have hsecond := (gateway .loadConfig).reaches_outcome Program.Anything
    (restarted ((gateway .loadConfig).outcome Program.Anything GatewayConf.start
      submitsAndExpires))
    (goroutine 0 (.submit (.handleHTTPSubmit someRequest)) [{}]) (by decide)
  have hlives := ((Program.Lives.start.run hfirst).restart hclean).run hsecond
  exact ⟨_, _, hfirst, by decide, hclean, hsecond,
    (gateway .loadConfig).shows_of_head 0 {} (by decide), (id_not_reused .loadConfig hlives).1⟩

/-- A REST message is accepted and its `status:` record written. The process is
restarted, and the next request is given the same id. -/
theorem restart_reuses_id :
    ∃ c, (gateway .loadConfig).Lives Gateway.restart (fun _ => True) GatewayConf.start c ∧
      Clashes .loadConfig c := by
  have hfirst := (gateway .loadConfig).reaches_outcome Program.Anything GatewayConf.start
    restSubmits (by decide)
  have hsecond := (gateway .loadConfig).reaches_outcome Program.Anything
    (restarted ((gateway .loadConfig).outcome Program.Anything GatewayConf.start restSubmits))
    (goroutine 0 (.submit (.handleHTTPSubmit someRequest)) [{}]) (by decide)
  refine ⟨_, ((Program.Lives.start.run hfirst).restart trivial).run hsecond,
    gwMsgIDOf 1, .rest, .rest, (gateway .loadConfig).shows_of_head 0 {} (by decide),
    by decide, .inl (by decide)⟩

end Restart

end SmscGateway
