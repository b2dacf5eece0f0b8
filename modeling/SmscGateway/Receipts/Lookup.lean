import SmscGateway.Receipts.Citations
import SmscGateway.Submit.Budget

/-!
# The look-up of a receipt

A receipt arrives, and the message it is about is looked up by the SMSC id it
carries, first in memory and, if the memory does not know the id, in the
store. Every receipt that arrived is still being looked up or was matched, and
a match that found something found the message the id was assigned to.
-/

namespace SmscGateway

open List Program

namespace Receipts

/-- The SMSC id of the receipt an action takes in. -/
def receives : Action → Option Bytes
  | .back (.handleDeliver _ _ _ esmClass payload) =>
    if Smpp.isDLR esmClass then
      (Smpp.parseDLRReceipt payload).map Smpp.DLRReceipt.messageID
    else none
  | _ => none

/-- Is the observation about the look-up of a receipt? -/
def isLookup : Obs → Bool
  | .arrived .. | .matched .. => true
  | _ => false

/-! ## What one action does -/

section Exec

variable {cfg : RouterConfig} {s : Gateway} {i : Input} {r : GatewayEffect} {a : Action}

/-- An action that has to do with no look-up. -/
structure Aside (s : Gateway) (a : Action) (r : GatewayEffect) : Prop where
  receives : receives a = none
  looksUp : a.looksUp = none
  arrivals : r.state.arrivals = s.arrivals
  next : ∀ b ∈ r.next, b.looksUp = none
  seen : ∀ o ∈ r.seen, isLookup o = false

theorem aside_of_offReturn (ha : a.onReturn = false) (h : OffReturn s r) : Aside s a r := by
  have hnone : ∀ b : Action, b.onReturn = false → Receipts.receives b = none ∧ b.looksUp = none := by
    intro b hb
    cases b with
    | back b => cases hb
    | _ => exact ⟨rfl, rfl⟩
  refine ⟨(hnone a ha).1, (hnone a ha).2, h.arrivals, fun b hb => ?_, fun o ho => ?_⟩
  · exact (hnone b (by simpa using all_eq_true.mp h.next b hb)).2
  · have hoff := all_eq_true.mp h.seen o ho
    cases o with
    | arrived => cases hoff
    | matched => cases hoff
    | _ => rfl

theorem isLookup_of_begins {o : Obs} (h : o.begins = false) : isLookup o = false := by
  cases o with
  | arrived => cases h
  | matched => cases h
  | _ => rfl

/-- **What an action does about look-ups.** A receipt arrives and is matched
or handed on to the store; the store answers; or nothing happens. -/
theorem exec_receipt (h : exec cfg s i a = some r) :
    (∃ rc : Receipt,
      a = .back (.handleDeliver rc.pool rc.sourceAddr rc.destAddr rc.esmClass rc.payload) ∧
      receives a = some rc.parsed.messageID ∧
      Smpp.parseDLRReceipt rc.payload = some rc.parsed ∧
      ((∃ corr, s.smscCorrelation.find? rc.parsed.messageID = some corr ∧
        r = (routeReceipt { s with arrivals := s.arrivals + 1 } s.arrivals rc corr).after
          [.arrived s.arrivals rc.pool rc.parsed.messageID]) ∨
      (s.smscCorrelation.find? rc.parsed.messageID = none ∧
        r = { state := { s with arrivals := s.arrivals + 1 }
              next := [.back (.getSubmit s.arrivals rc)]
              seen := [.arrived s.arrivals rc.pool rc.parsed.messageID] }))) ∨
    (∃ n rc, a = .back (.getSubmit n rc) ∧
      ((∃ rec, s.store.submits.getSubmit rc.parsed.messageID = some rec ∧
        r = routeReceipt s n rc ⟨rec.gwMsgID, rec.northConnID, rec.msisdn, 0⟩) ∨
      (s.store.submits.getSubmit rc.parsed.messageID = none ∧
        r = { state := s, seen := [.matched n .unknown] }))) ∨
    Aside s a r := by
  cases a with
  | submit a =>
    refine .inr (.inr ?_)
    rcases execSubmit_cases h with hoff | ⟨connID, g, d, f, l, hrest, rfl⟩
    · exact aside_of_offReturn rfl hoff
    · rw [sendSyntheticDLR, if_neg hrest]
      exact ⟨rfl, rfl, rfl, by simp [Effect.after, Action.looksUp],
        by simp [Effect.after, isLookup]⟩
  | record a => exact .inr (.inr (aside_of_offReturn rfl (execRecord_frame h).offReturn))
  | serve a => exact .inr (.inr (aside_of_offReturn rfl (execServe_offReturn h)))
  | back a =>
    have hreads : ∀ rc : Receipt, Smpp.isDLR rc.esmClass = true →
        Smpp.parseDLRReceipt rc.payload = some rc.parsed → receives (.back
          (.handleDeliver rc.pool rc.sourceAddr rc.destAddr rc.esmClass rc.payload)) =
          some rc.parsed.messageID := by
      intro rc hesm hparse
      rw [receives, if_pos hesm, hparse]
      rfl
    cases hmoves : a.begins with
    | false =>
      have hfol := execReturn_follows hmoves h
      have hnone : receives (.back a) = none ∧ (Action.back a).looksUp = none := by
        cases a <;> first | exact ⟨rfl, rfl⟩ | cases hmoves
      exact .inr (.inr ⟨hnone.1, hnone.2, hfol.arrivals, hfol.next,
        fun o ho => isLookup_of_begins (hfol.seen o ho)⟩)
    | true =>
      cases execReturn_moves h with
      | unreadable pool src dst esm payload hesm hparse =>
        refine .inr (.inr ⟨?_, rfl, rfl, by simp, by simp⟩)
        rw [receives, if_pos hesm, hparse]
        rfl
      | found rc corr hesm hparse hfind =>
        exact .inl ⟨rc, rfl, hreads rc hesm hparse, hparse, .inl ⟨corr, hfind, rfl⟩⟩
      | missed rc hesm hparse hfind =>
        exact .inl ⟨rc, rfl, hreads rc hesm hparse, hparse, .inr ⟨hfind, rfl⟩⟩
      | posted pool src dst esm payload route hesm =>
        refine .inr (.inr ⟨?_, rfl, rfl, by simp, by simp [isLookup]⟩)
        simp [receives, hesm]
      | took pool it connID next hkind hesm hnext =>
        refine .inr (.inr ⟨?_, rfl, rfl, ?_, by simp [isLookup]⟩)
        · simp [receives, hesm]
        · rcases hnext with rfl | rfl <;> simp [Action.looksUp]
      | stored n rc rec hfind => exact .inr (.inl ⟨n, rc, rfl, .inl ⟨rec, hfind, rfl⟩⟩)
      | unknown n rc hfind => exact .inr (.inl ⟨n, rc, rfl, .inr ⟨hfind, rfl⟩⟩)
      | _ => cases hmoves

end Exec

/-! ## Marks in every run -/

namespace Marks

variable {K K' : Marks}

/-- One set of marks implies another. -/
structure Le (K K' : Marks) : Prop where
  cites : ∀ id g, K.cites id g → K'.cites id g
  names : ∀ id g connID, K.cites id g → K.names id g connID → K'.names id g connID
  files : ∀ id g connID, K.cites id g → K.files id connID → K'.files id connID
  owns : ∀ g connID, K.owns g connID → K'.owns g connID
  released : ∀ g, K.released g → K'.released g
  looks : ∀ n rc, K.looks n rc → K'.looks n rc

theorem OnJob.mono (h : K.Le K') {j : Job} (hj : K.OnJob j) : K'.OnJob j :=
  fun r corr hc => h.cites _ _ (hj r corr hc)

theorem OnCaller.mono (h : K.Le K') {c : Caller} (hc : K.OnCaller c) : K'.OnCaller c := by
  cases c with
  | direct j => exact OnJob.mono h hc
  | fallback j => exact OnJob.mono h hc
  | redeliver e => trivial

theorem OnAction.mono (h : K.Le K') {a : Action} (ha : K.OnAction a) : K'.OnAction a := by
  unfold OnAction at ha ⊢
  split
  · exact ⟨h.cites _ _ ha.1, h.files _ _ _ ha.1 ha.2⟩
  · exact ⟨ha.1, h.cites _ _ ha.2.1, h.names _ _ _ ha.2.1 ha.2.2⟩
  · intro r hr hne
    obtain ⟨hcites, hfiles⟩ := ha r hr hne
    exact ⟨h.cites _ _ hcites, h.files _ _ _ hcites hfiles⟩
  · exact h.looks _ _ ha
  · exact ⟨h.cites _ _ ha.1, fun hst => h.released _ (ha.2 hst)⟩
  · exact OnCaller.mono h ha
  · exact OnCaller.mono h ha
  · exact OnCaller.mono h ha
  · exact OnJob.mono h ha
  · exact OnJob.mono h ha
  · trivial

theorem OnState.mono (h : K.Le K') {s : Gateway} (hs : K.OnState s) : K'.OnState s := by
  have hfiled : ∀ {id g connID : Bytes}, K.cites id g ∧ K.files id connID →
      K'.cites id g ∧ K'.files id connID := fun hx => ⟨h.cites _ _ hx.1, h.files _ _ _ hx.1 hx.2⟩
  refine ⟨fun id corr hf => ?_, ⟨fun id rec hf => hfiled (hs.submits.db id rec hf),
    fun op hop id hid => hfiled (hs.submits.batch op hop id hid),
    fun op hop id hid => hfiled (hs.submits.writeCh op hop id hid)⟩, fun g corr hf => ?_⟩
  · obtain ⟨hcites, hnames⟩ := hs.memory id corr hf
    exact ⟨h.cites _ _ hcites, h.names _ _ _ hcites hnames⟩
  · obtain ⟨hkey, howns⟩ := hs.gw g corr hf
    exact ⟨hkey, h.owns _ _ howns⟩

theorem onAction_of_entry {a : Action} (h : entry a = true) : K.OnAction a := by
  unfold entry at h
  split at h <;> first | trivial | (intro r hr; cases hr)

/-- The marks are all a configuration bears. -/
structure On (K : Marks) (c : GatewayConf) : Prop where
  state : K.OnState c.shared
  actions : ∀ a ∈ c.actions, K.OnAction a

theorem on_start : K.On GatewayConf.start := by
  refine ⟨⟨fun _ _ h => ?_, ⟨fun _ _ h => ?_, fun _ h => ?_, fun _ h => ?_⟩, fun _ _ h => ?_⟩,
    fun _ h => ?_⟩ <;> cases h

/-- **A step keeps marks that admit its action.** -/
theorem On.step {cfg : RouterConfig} {c c' : GatewayConf} {e : Event Input Action} (hc : K.On c)
    (hle : K.Le K') (hs : (gateway cfg).step c e = some c')
    (hjson : ∀ id g, K'.cites id g → K'.cites id (jsonString g))
    (hadm : ∀ j i a r, e = .run j i → c.head j = some a → exec cfg c.shared i a = some r →
      K'.On c → K'.Admits c.shared i a r) : K'.On c' := by
  have hold : K'.On c := ⟨hc.state.mono hle, fun a ha => (hc.actions a ha).mono hle⟩
  have hmarks {j i a r rest} (he : e = .run j i) (hran : (gateway cfg).Ran c j i a r rest c') :=
    exec_marks hran.exec hjson hold.state (hold.actions a hran.mem)
      (hadm j i a r he hran.head hran.exec hold)
  refine ⟨?_, forall_of_step hs hold.actions (fun _ => onAction_of_entry)
    fun j i a r rest he hran => (hmarks he hran).2⟩
  rcases step_cases hs with ⟨a, -, hst⟩ | ⟨j, i, a, r, rest, he, hran⟩
  · exact hst.shared ▸ hold.state
  · exact hran.shared ▸ (hmarks he hran).1

end Marks

variable {cfg : RouterConfig} {ok : GatewayConf → Event Input Action → Prop} {c c' : GatewayConf}

variable {id : Bytes} {m : Match} {s : Gateway} {n n' : ℕ} {rc : Receipt} {corr : Correlation}

/-- JSON does not change the id of a message. -/
theorem assigned_json (hc : Pipeline.Inv cfg c) {g : Bytes} (h : Assigned c.trace id g) :
    Assigned c.trace id (jsonString g) := by
  obtain ⟨pool, hp⟩ := assigned_iff.mp h
  obtain ⟨n, rfl⟩ := hc.gwMsgID hp
  rw [jsonString_gwMsgIDOf]
  exact h

/-- The marks a trace leaves, whatever connection ids are about. -/
def marksOf (trace : List Obs) : Marks where
  cites id g := Assigned trace id g
  names _ _ _ := True
  files _ _ := True
  owns _ _ := True
  released g := .released g ∈ trace
  looks n rc := .arrived n rc.pool rc.parsed.messageID ∈ trace ∧
    Smpp.parseDLRReceipt rc.payload = some rc.parsed

theorem reaches_marked (h : (gateway cfg).Reaches ok GatewayConf.start c) :
    (marksOf c.trace).On c := by
  induction h with
  | start => exact Marks.on_start
  | @step c c' e hr hok hs ih =>
    have hgrows := (trace_of_step hs).subset
    refine ih.step ⟨fun _ _ => Assigned.mono hgrows, fun _ _ _ _ _ => trivial,
      fun _ _ _ _ _ => trivial, fun _ _ _ => trivial, fun _ hg => hgrows hg,
      fun _ _ hl => ⟨hgrows hl.1, hl.2⟩⟩ hs
      (fun _ _ => assigned_json (Pipeline.reaches_inv (hr.step hok hs))) ?_
    intro j i a r he hhead hexec _
    have hseen : r.seen ⊆ c'.trace := by
      rw [seen_of_step (he ▸ hs) hhead hexec]
      exact subset_append_right _ _
    exact ⟨fun _ _ => Assigned.mono hseen, fun _ _ _ _ => trivial, fun _ _ _ => trivial,
      fun _ _ _ _ => trivial, fun _ _ _ => trivial, fun _ hg => hseen hg,
      fun _ _ hl hp => ⟨hseen hl, hp⟩⟩

/-! ## Every receipt is looked up -/

/-- What a match says of a receipt with an SMSC id: the message it found is
one the id was assigned to, and a receipt for an engine went on its way with
the id translated. -/
def Routes (trace : List Obs) (id : Bytes) : Match → Prop
  | .unknown => True
  | .rest corr => Assigned trace id corr.gwMsgID
  | .smpp corr k => Assigned trace id corr.gwMsgID ∧ ∃ rc : Receipt, rc.parsed.messageID = id ∧
      Smpp.parseDLRReceipt rc.payload = some rc.parsed ∧
      .item k (.took ⟨.receipt corr.northConnID, rc.sourceAddr, rc.destAddr, rc.esmClass,
        Smpp.translateDLRMessageID rc.payload id corr.gwMsgID⟩) ∈ trace

theorem Routes.mono {l l' : List Obs} (h : l ⊆ l') (hm : Routes l id m) : Routes l' id m := by
  cases m with
  | unknown => trivial
  | rest corr => exact Assigned.mono h hm
  | smpp corr k =>
    obtain ⟨ha, rc, hid, hp, htook⟩ := hm
    exact ⟨ha.mono h, rc, hid, hp, h htook⟩

/-- A match that `routeReceipt` shows is with the correlation it was given. -/
theorem matched_routeReceipt_cases (hm : .matched n' m ∈ (routeReceipt s n rc corr).seen) :
    n' = n ∧ (m = .rest corr ∨ ∃ k, m = .smpp corr k) := by
  unfold routeReceipt at hm
  split at hm
  · obtain ⟨rfl, rfl⟩ : n' = n ∧ m = .rest corr := by simpa using hm
    exact ⟨rfl, .inl rfl⟩
  · obtain ⟨rfl, rfl⟩ : n' = n ∧ m = .smpp corr s.tickets := by simpa using hm
    exact ⟨rfl, .inr ⟨_, rfl⟩⟩

theorem routes_of_routeReceipt {l : List Obs} (hcites : Assigned l rc.parsed.messageID corr.gwMsgID)
    (hp : Smpp.parseDLRReceipt rc.payload = some rc.parsed)
    (hsub : (routeReceipt s n rc corr).seen ⊆ l)
    (hm : .matched n' m ∈ (routeReceipt s n rc corr).seen) :
    n' = n ∧ Routes l rc.parsed.messageID m := by
  unfold routeReceipt at hm hsub
  split at hm
  · obtain ⟨rfl, rfl⟩ : n' = n ∧ m = .rest corr := by simpa using hm
    exact ⟨rfl, hcites⟩
  · rename_i hrest
    rw [if_neg hrest] at hsub
    obtain ⟨rfl, rfl⟩ : n' = n ∧ m = .smpp corr s.tickets := by simpa using hm
    exact ⟨rfl, hcites, rc, rfl, hp, hsub (mem_cons_of_mem _ mem_cons_self)⟩

theorem matched_of_routeReceipt (s : Gateway) (n : ℕ) (rc : Receipt) (corr : Correlation) :
    ∃ m, .matched n m ∈ (routeReceipt s n rc corr).seen := by
  unfold routeReceipt
  split
  · exact ⟨_, mem_cons_self⟩
  · exact ⟨_, mem_cons_self⟩

theorem not_arrived_routeReceipt {pool : ℕ} :
    .arrived n' pool id ∉ (routeReceipt s n rc corr).seen := by
  unfold routeReceipt
  split <;> simp

theorem looksUp_routeReceipt (s : Gateway) (n : ℕ) (rc : Receipt) (corr : Correlation) :
    (routeReceipt s n rc corr).state.arrivals = s.arrivals ∧
      ∀ b ∈ (routeReceipt s n rc corr).next, b.looksUp = none := by
  unfold routeReceipt
  split <;> simp [Action.looksUp]

/-- What is known of the receipts that arrived. -/
structure Looked (c : GatewayConf) : Prop where
  lt : ∀ n pool id, .arrived n pool id ∈ c.trace → n < c.shared.arrivals
  unique : ∀ n pool id pool' id', .arrived n pool id ∈ c.trace →
    .arrived n pool' id' ∈ c.trace → pool = pool' ∧ id = id'
  routes : ∀ n m, .matched n m ∈ c.trace →
    ∃ pool id, .arrived n pool id ∈ c.trace ∧ Routes c.trace id m
  answered : ∀ n pool id, .arrived n pool id ∈ c.trace →
    (∃ rc, .back (.getSubmit n rc) ∈ c.actions) ∨ ∃ m, .matched n m ∈ c.trace

/-- A receipt arrives: it is matched at once or its look-up goes on. -/
theorem Looked.arrives (hc : Looked c) {pool : ℕ} {seen : List Obs}
    (htr : c'.trace = c.trace ++ .arrived c.shared.arrivals pool id :: seen)
    (harr : c'.shared.arrivals = c.shared.arrivals + 1)
    (hact : ∀ b ∈ c.actions, b.looksUp ≠ none → b ∈ c'.actions)
    (hnone : ∀ n pool' id', .arrived n pool' id' ∉ seen)
    (hroutes : ∀ n m, .matched n m ∈ seen → n = c.shared.arrivals ∧ Routes c'.trace id m)
    (hnew : (∃ rc, .back (.getSubmit c.shared.arrivals rc) ∈ c'.actions) ∨
      ∃ m, .matched c.shared.arrivals m ∈ seen) :
    Looked c' := by
  have hsub : c.trace ⊆ c'.trace := htr ▸ subset_append_left _ _
  have hcases : ∀ n pool' id', .arrived n pool' id' ∈ c'.trace →
      .arrived n pool' id' ∈ c.trace ∨ (n = c.shared.arrivals ∧ pool' = pool ∧ id' = id) := by
    intro n pool' id' h
    rw [htr] at h
    rcases mem_append.mp h with h | h
    · exact .inl h
    · rcases mem_cons.mp h with h | h
      · exact .inr (Obs.arrived.inj h)
      · exact absurd h (hnone _ _ _)
  refine ⟨fun n pool' id' h => ?_, fun n p₁ i₁ p₂ i₂ h₁ h₂ => ?_, fun n m h => ?_,
    fun n pool' id' h => ?_⟩
  · rcases hcases n pool' id' h with h | ⟨rfl, -, -⟩
    · have := hc.lt n pool' id' h
      omega
    · omega
  · rcases hcases n p₁ i₁ h₁ with h₁ | ⟨hn₁, hp₁, hi₁⟩ <;>
      rcases hcases n p₂ i₂ h₂ with h₂ | ⟨hn₂, hp₂, hi₂⟩
    · exact hc.unique n p₁ i₁ p₂ i₂ h₁ h₂
    · have := hc.lt n p₁ i₁ h₁
      omega
    · have := hc.lt n p₂ i₂ h₂
      omega
    · exact ⟨hp₁.trans hp₂.symm, hi₁.trans hi₂.symm⟩
  · rw [htr] at h
    rcases mem_append.mp h with h | h
    · obtain ⟨pool', id', ha, hr⟩ := hc.routes n m h
      exact ⟨pool', id', hsub ha, hr.mono hsub⟩
    · rcases mem_cons.mp h with h | h
      · cases h
      · obtain ⟨rfl, hr⟩ := hroutes n m h
        exact ⟨pool, id, htr ▸ mem_append_right _ mem_cons_self, hr⟩
  · rcases hcases n pool' id' h with h | ⟨rfl, -, -⟩
    · rcases hc.answered n pool' id' h with ⟨rc, hrc⟩ | ⟨m, hm⟩
      · exact .inl ⟨rc, hact _ hrc (by simp [Action.looksUp])⟩
      · exact .inr ⟨m, hsub hm⟩
    · rcases hnew with h | ⟨m, hm⟩
      · exact .inl h
      · exact .inr ⟨m, htr ▸ mem_append_right _ (mem_cons_of_mem _ hm)⟩

/-- Nothing arrives: what was looked up and is no longer was matched. -/
theorem Looked.goesOn (hc : Looked c) {seen : List Obs} (htr : c'.trace = c.trace ++ seen)
    (harr : c'.shared.arrivals = c.shared.arrivals)
    (hnone : ∀ n pool id, .arrived n pool id ∉ seen)
    (hroutes : ∀ n m, .matched n m ∈ seen →
      ∃ pool id, .arrived n pool id ∈ c.trace ∧ Routes c'.trace id m)
    (hact : ∀ n rc, .back (.getSubmit n rc) ∈ c.actions →
      .back (.getSubmit n rc) ∈ c'.actions ∨ ∃ m, .matched n m ∈ seen) : Looked c' := by
  have hsub : c.trace ⊆ c'.trace := htr ▸ subset_append_left _ _
  have hold : ∀ n pool id, .arrived n pool id ∈ c'.trace → .arrived n pool id ∈ c.trace := by
    intro n pool id h
    rw [htr] at h
    rcases mem_append.mp h with h | h
    · exact h
    · exact absurd h (hnone _ _ _)
  refine ⟨fun n pool id h => harr ▸ hc.lt n pool id (hold _ _ _ h),
    fun n p₁ i₁ p₂ i₂ h₁ h₂ => hc.unique n p₁ i₁ p₂ i₂ (hold _ _ _ h₁) (hold _ _ _ h₂),
    fun n m h => ?_, fun n pool id h => ?_⟩
  · rw [htr] at h
    rcases mem_append.mp h with h | h
    · obtain ⟨pool, id, ha, hr⟩ := hc.routes n m h
      exact ⟨pool, id, hsub ha, hr.mono hsub⟩
    · obtain ⟨pool, id, ha, hr⟩ := hroutes n m h
      exact ⟨pool, id, hsub ha, hr⟩
  · rcases hc.answered n pool id (hold _ _ _ h) with ⟨rc, hrc⟩ | ⟨m, hm⟩
    · rcases hact n rc hrc with h | ⟨m, hm⟩
      · exact .inl ⟨rc, h⟩
      · exact .inr ⟨m, htr ▸ mem_append_right _ hm⟩
    · exact .inr ⟨m, hsub hm⟩

theorem step_looked {e : Event Input Action} (hc : Looked c) (hm : (marksOf c.trace).On c)
    (hs : (gateway cfg).step c e = some c') : Looked c' := by
  rcases step_cases hs with ⟨a, -, hst⟩ | ⟨j, input, a, r, rest, -, hran⟩
  · have htr : c'.trace = c.trace ++ [] := by rw [hst.trace, append_nil]
    refine hc.goesOn htr (by rw [hst.shared]) (by simp) (by simp) ?_
    exact fun n rc h => .inl (hst.keeps h)
  · have hmark := hm.actions a hran.mem
    have htr := hran.trace
    have hshared := hran.shared
    have hsub : c.trace ⊆ c'.trace := htr ▸ subset_append_left _ _
    have hnew : r.seen ⊆ c'.trace := htr ▸ subset_append_right _ _
    rcases exec_receipt hran.exec with ⟨rc, rfl, -, hp, ⟨corr, hfind, rfl⟩ | ⟨-, rfl⟩⟩ |
      ⟨n, rc, rfl, ⟨rec, hfind, rfl⟩ | ⟨-, rfl⟩⟩ | haside
    · have hcites := Assigned.mono hsub (hm.state.memory _ _ hfind).1
      obtain ⟨hctr, -⟩ :=
        looksUp_routeReceipt { c.shared with arrivals := c.shared.arrivals + 1 } c.shared.arrivals
          rc corr
      refine hc.arrives htr (by rw [hshared]; exact hctr)
        (fun b hb hne => hran.keeps hb (by rintro rfl; exact hne rfl))
        (fun _ _ _ => not_arrived_routeReceipt)
        (fun n m h => routes_of_routeReceipt hcites hp
          (fun o ho => hnew (mem_cons_of_mem _ ho)) h)
        (.inr (matched_of_routeReceipt _ _ _ _))
    · refine hc.arrives htr (by rw [hshared])
        (fun b hb hne => hran.keeps hb (by rintro rfl; exact hne rfl)) (by simp) (by simp)
        (.inl ⟨rc, hran.next (mem_singleton_self _)⟩)
    · have hcites := Assigned.mono hsub (hm.state.submits.db _ _ hfind).1
      obtain ⟨hctr, -⟩ := looksUp_routeReceipt c.shared n rc
        ⟨rec.gwMsgID, rec.northConnID, rec.msisdn, 0⟩
      refine hc.goesOn htr (by rw [hshared]; exact hctr) (fun _ _ _ => not_arrived_routeReceipt)
        (fun n' m h => ?_) fun n' rc' h => ?_
      · obtain ⟨rfl, hr⟩ := routes_of_routeReceipt hcites hmark.2 hnew h
        exact ⟨rc.pool, _, hmark.1, hr⟩
      · by_cases hn : Action.back (.getSubmit n' rc') = .back (.getSubmit n rc)
        · obtain ⟨rfl, rfl⟩ := ReturnAction.getSubmit.inj (Action.back.inj hn)
          exact .inr (matched_of_routeReceipt _ _ _ _)
        · exact .inl (hran.keeps h hn)
    · refine hc.goesOn htr (by rw [hshared]) (by simp) (fun n' m h => ?_) fun n' rc' h => ?_
      · obtain ⟨rfl, rfl⟩ := Obs.matched.inj (mem_singleton.mp h)
        exact ⟨rc.pool, _, hmark.1, trivial⟩
      · by_cases hn : Action.back (.getSubmit n' rc') = .back (.getSubmit n rc)
        · obtain ⟨rfl, rfl⟩ := ReturnAction.getSubmit.inj (Action.back.inj hn)
          exact .inr ⟨.unknown, mem_singleton_self _⟩
        · exact .inl (hran.keeps h hn)
    · refine hc.goesOn htr (by rw [hshared]; exact haside.arrivals) (fun n pool id h => ?_)
        (fun n m h => ?_) fun n rc h => .inl (hran.keeps h ?_)
      · exact absurd (haside.seen _ h) (by simp [isLookup])
      · exact absurd (haside.seen _ h) (by simp [isLookup])
      · rintro rfl
        exact absurd haside.looksUp (by simp [Action.looksUp])

theorem reaches_looked (h : (gateway cfg).Reaches ok GatewayConf.start c) : Looked c := by
  induction h with
  | start =>
    refine ⟨fun _ _ _ h => ?_, fun _ _ _ _ _ h => ?_, fun _ _ h => ?_, fun _ _ _ h => ?_⟩ <;> cases h
  | step hr _ hs ih => exact step_looked ih (reaches_marked hr) hs

end Receipts

end SmscGateway
