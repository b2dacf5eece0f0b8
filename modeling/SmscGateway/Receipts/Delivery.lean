import SmscGateway.Receipts.Memory
import SmscGateway.Return.Conservation

/-!
# A receipt reaches the submitter of its message

Three things can come between a receipt and the engine or callback it is for:
it is looked up before the worker has set the correlation, its id stands for
more than one message, or an earlier receipt of the same message has cleaned
up what the look-up needs. Runs in which none of them happens route every
receipt to the submitter; for each of the three there is a run in which it is
lost or goes astray.
-/

namespace SmscGateway

namespace Receipts

/-! ## What it means -/

/-- The match routes a receipt with the id to the submitter of the message:
to its callback, or on the return path with the message's own id, where it is
in exactly one place. -/
def RoutedTo (c : GatewayConf) (id g : Bytes) : Match → Prop
  | .unknown => False
  | .rest corr => corr.gwMsgID = g ∧ .message g (.accepted .rest) ∈ c.trace
  | .smpp corr k =>
    corr.gwMsgID = g ∧ .message g (.accepted (.smpp corr.northConnID)) ∈ c.trace ∧
    (∃ rc : Receipt, Smpp.parseDLRReceipt rc.payload = some rc.parsed ∧
      rc.parsed.messageID = id ∧
      .item k (.took ⟨.receipt corr.northConnID, rc.sourceAddr, rc.destAddr, rc.esmClass,
        Smpp.translateDLRMessageID rc.payload id g⟩) ∈ c.trace) ∧
    ((ReturnPath.reads c).Nodup → ∃ p, ReturnPath.places c k = {p})

/-- Receipt `n` is being looked up or was matched, and it is routed to the
submitter of the message and nowhere else. -/
structure Handled (c : GatewayConf) (n : ℕ) (id g : Bytes) : Prop where
  answered : (∃ rc, .back (.getSubmit n rc) ∈ c.actions) ∨ ∃ m, .matched n m ∈ c.trace
  routed : ∀ m, .matched n m ∈ c.trace → RoutedTo c id g m

variable {cfg : RouterConfig} {ok : GatewayConf → Event Input Action → Prop} {c c' : GatewayConf}

variable {g id : Bytes} {n pool : ℕ} {s : Gateway}

theorem origin_of_submitterOf {trace : List Obs} {x : Bytes}
    (hengines : ∀ g x, .message g (.accepted (.smpp x)) ∈ trace → x ≠ restApi)
    (h : submitterOf trace g = some x) : (x = restApi → .message g (.accepted .rest) ∈ trace) ∧
      (x ≠ restApi → .message g (.accepted (.smpp x)) ∈ trace) := by
  obtain ⟨o, ho, hx⟩ := Option.map_eq_some_iff.mp h
  have hmem := mem_of_originOf ho
  cases o with
  | rest => exact ⟨fun _ => hmem, fun hne => absurd hx.symm hne⟩
  | smpp y =>
    obtain rfl : y = x := hx
    exact ⟨fun hr => absurd hr (hengines g y hmem), fun _ => hmem⟩

/-- A match that fits routes the receipt to the submitter. -/
theorem routedTo_of_fits (h : (gateway cfg).Reaches ok GatewayConf.start c)
    (hengines : ∀ g x, .message g (.accepted (.smpp x)) ∈ c.trace → x ≠ restApi) {m : Match}
    (hm : .matched n m ∈ c.trace) (harr : .arrived n pool id ∈ c.trace) (hfits : Fits c.trace g m) :
    RoutedTo c id g m := by
  have hlooked := reaches_looked h
  obtain ⟨pool', id', harr', hroutes⟩ := hlooked.routes n m hm
  obtain ⟨rfl, rfl⟩ := hlooked.unique n _ _ _ _ harr harr'
  have hbranch := reaches_branched h hm
  cases m with
  | unknown => exact hfits
  | rest corr => exact ⟨hfits.1, (origin_of_submitterOf hengines hfits.2).1 hbranch⟩
  | smpp corr k =>
    obtain ⟨hg, hsub⟩ := hfits
    obtain ⟨-, rc, hid, hp, htook⟩ := hroutes
    rw [hg] at htook
    refine ⟨hg, (origin_of_submitterOf hengines hsub).2 hbranch, ⟨rc, hp, hid, htook⟩, fun hreads => ?_⟩
    obtain ⟨φ, hplaces, -⟩ := ReturnPath.places_of_took (ReturnPath.reaches_inv h hreads) htook
    exact ⟨φ.place, hplaces⟩

/-! ## Overtaken receipts -/

/-- The SMSC id of a receipt that arrived. -/
def arrivedID : Obs → Option Bytes
  | .arrived _ _ id => some id
  | _ => none

/-- No receipt with the id is taken in before the worker that was assigned it
has set the correlation. -/
def NotOvertaken (id : Bytes) (c : GatewayConf) (i : Input) (a : Action) : Prop :=
  (receives a = some id → ∀ b ∈ c.actions, correlates b ≠ some id) ∧
  (assigns i a = some id → ∀ o ∈ c.trace, arrivedID o ≠ some id)
  deriving Decidable

/-- **The correlation comes first** in a run without overtaking. -/
theorem correlated_first (hok : ∀ c e, ok c e → Program.When (NotOvertaken id) c e)
    (h : (gateway cfg).Reaches ok GatewayConf.start c) (harr : .arrived n pool id ∈ c.trace)
    (hg : Assigned c.trace id g) :
    Precedes c.trace (.message g .correlated) (.arrived n pool id) := by
  induction h with
  | start => cases harr
  | @step c c' e hr hev hs ih =>
    rcases Program.step_cases hs with ⟨a, -, -, -, -, htr⟩ |
      ⟨j, i, a, r, rest, rfl, hhead, hexec, hact, -, -, htr⟩
    · rw [htr] at harr hg ⊢
      exact ih harr hg
    · have hgate : NotOvertaken id c i a := hok _ _ hev a hhead
      rw [htr] at harr hg ⊢
      rcases List.mem_append.mp harr with harr | harr
      · refine (precedes_append_of_mem harr).mpr (ih harr ?_)
        rcases assigned_append.mp hg with hg | hg
        · exact hg
        · exact absurd rfl (hgate.2 (assigns_of_assigned hexec hg) _ harr)
      · -- the receipt comes in now: nobody is about to set the correlation
        have hfresh : .arrived n pool id ∉ c.trace → .message g .correlated ∈ c.trace →
            Precedes (c.trace ++ r.seen) (.message g .correlated) (.arrived n pool id) :=
          fun hnew hcorr => (precedes_append_of_not_mem hnew).mpr (Or.inl ⟨harr, hcorr⟩)
        have hrec : receives a = some id ∧ n = c.shared.arrivals := by
          rcases exec_receipt hexec with ⟨rc, rfl, hid, -, ⟨corr, -, rfl⟩ | ⟨-, rfl⟩⟩ |
            ⟨n', rc, -, ⟨rec, -, rfl⟩ | ⟨-, rfl⟩⟩ | haside
          · rcases List.mem_cons.mp harr with harr | harr
            · obtain ⟨rfl, rfl, rfl⟩ := Obs.arrived.inj harr
              exact ⟨hid, rfl⟩
            · exact absurd harr not_arrived_routeReceipt
          · obtain ⟨rfl, rfl, rfl⟩ := Obs.arrived.inj (List.mem_singleton.mp harr)
            exact ⟨hid, rfl⟩
          · exact absurd harr not_arrived_routeReceipt
          · cases List.mem_singleton.mp harr
          · exact absurd (haside.seen _ harr) (by simp [isLookup])
        obtain ⟨hrecv, rfl⟩ := hrec
        refine hfresh (fun hold => lt_irrefl _ ((reaches_looked hr).lt _ _ _ hold)) ?_
        have hg₀ : Assigned c.trace id g := by
          rcases assigned_append.mp hg with hg | hg
          · exact hg
          · have hassign := assigns_of_assigned hexec hg
            unfold assigns at hassign
            split at hassign
            · cases hrecv
            · cases hrecv
            · cases hassign
        rcases correlated_or_pending (Pipeline.reaches_inv hr) (reaches_marked hr) hg₀ with
          hcorr | ⟨b, hb, hid⟩
        · exact hcorr
        · exact absurd hid (hgate.1 hrecv b hb)

/-! ## Later receipts -/

/-- The store is asked for the id only while its message awaits a receipt. -/
def Awaited (id : Bytes) (c : GatewayConf) (_ : Input) (a : Action) : Prop :=
  a.looksUp = some id → Awaiting c id
  deriving Decidable

/-- In a run that asks the store only for awaited receipts, every receipt that
came after the correlation is handled. -/
theorem handled_of_awaited (hkeeps : ∀ c e, ok c e → Program.When (Keeps cfg id) c e)
    (hawait : ∀ c e, ok c e → Program.When (Awaited id) c e)
    (h : (gateway cfg).Reaches ok GatewayConf.start c) (harr : .arrived n pool id ∈ c.trace)
    (hg : Assigned c.trace id g)
    (hprec : Precedes c.trace (.message g .correlated) (.arrived n pool id)) :
    Handled c n id g := by
  obtain ⟨connID, hknown⟩ := reaches_known (E := fun _ _ _ => False) hkeeps
    (fun _ _ _ _ _ _ h => h)
    (fun c j i n rc g hev hhead hid hg hrel =>
      hawait c _ hev _ hhead (congrArg some hid) (id, g) hg rfl hrel) h
  refine ⟨(reaches_looked h).answered n pool id harr, fun m hm => ?_⟩
  rcases hknown.matched n m pool g hm harr hg hprec with hfits | hno
  · exact routedTo_of_fits h hknown.engines hm harr hfits
  · exact hno.elim

/-- **No receipt overtakes its correlation** in a run that keeps the id, takes
its receipts in only once the correlation is set, and asks the store only
while one is awaited: every receipt with the id is being looked up or goes to
the submitter of the message the id was assigned to. -/
theorem receipt_not_overtaken (cfg : RouterConfig) (id : Bytes) {c : GatewayConf}
    (h : (gateway cfg).Reaches (Program.When
      (Program.Both (Keeps cfg id) (Program.Both (NotOvertaken id) (Awaited id))))
      GatewayConf.start c) {n pool : ℕ} {g : Bytes} (harr : .arrived n pool id ∈ c.trace)
    (hg : Assigned c.trace id g) : Handled c n id g := by
  refine handled_of_awaited (fun c e => Program.When.imp fun _ _ _ h => h.1)
    (fun c e => Program.When.imp fun _ _ _ h => h.2.2) h harr hg ?_
  exact correlated_first (fun c e => Program.When.imp fun _ _ _ h => h.2.1) h harr hg

/-- The SMSC id the short runs below use. -/
def shortID : Bytes := ascii "s1"

/-- A receipt for it from the given pool. -/
def shortReceipt (pool : ℕ) (stat : String) : Action :=
  .back (.handleDeliver pool (ascii "200") (ascii "100") 0x04 (ascii "id:s1 stat:" ++ ascii stat))

/-- A message is forwarded before its receipt comes in. -/
theorem receipt_in_order :
    ∃ c, (gateway .loadConfig).Reaches (Program.When (Program.Both (Keeps .loadConfig shortID)
        (Program.Both (NotOvertaken shortID) (Awaited shortID)))) GatewayConf.start c ∧
      .arrived 0 0 shortID ∈ c.trace ∧ Assigned c.trace shortID (gwMsgIDOf 1) ∧
      Handled c 0 shortID (gwMsgIDOf 1) := by
  exact Program.exists_reached (engineSubmits ++ goroutine 3 (.submit .forwardWorker) [{},
    { attempt := .accepted 0 shortID }, {}, {}] ++ goroutine 4 (shortReceipt 0 "DELIVRD") [{}]) (by
    decide) fun hreach => ⟨by decide, by decide, receipt_not_overtaken _ _ hreach (by decide :
    Obs.arrived 0 0 shortID ∈ _) (by decide)⟩

/-- `SubmitRaw` has returned the id and the worker is about to set the
correlation when the receipt comes in: it is dropped as unknown. -/
theorem overtaken_receipt_is_unknown :
    ∃ c, (gateway .loadConfig).Reaches
        (Program.When (Program.Both (Keeps .loadConfig shortID) (Awaited shortID)))
        GatewayConf.start c ∧
      Precedes c.trace (.message (gwMsgIDOf 1) (.attempted (.accepted 0 shortID)))
        (.arrived 0 0 shortID) ∧
      .matched 0 .unknown ∈ c.trace ∧ ¬ Handled c 0 shortID (gwMsgIDOf 1) := by
  refine Program.exists_reached (engineSubmits ++ goroutine 3 (.submit .forwardWorker) [{}, {
    attempt := .accepted 0 shortID }] ++ goroutine 4 (shortReceipt 0 "DELIVRD") [{}, {}]) (by
    decide) fun _ => ⟨by decide, by decide, fun h => ?_⟩
  exact h.routed .unknown (by decide)

/-- **Every receipt of a message reaches its submitter**, however many there
are, in a run that keeps the id and asks the store only while no receipt of
the message has been handed over: each one that comes in after the message was
forwarded is being looked up or goes to the submitter. -/
theorem every_receipt_handled (cfg : RouterConfig) (id : Bytes) {c : GatewayConf}
    (h : (gateway cfg).Reaches (Program.When (Program.Both (Keeps cfg id) (Awaited id)))
      GatewayConf.start c) {n pool : ℕ} {g : Bytes} (hg : Assigned c.trace id g)
    (hprec : Precedes c.trace (.message g .correlated) (.arrived n pool id)) :
    Handled c n id g :=
  handled_of_awaited (fun _ _ => Program.When.imp fun _ _ _ h => h.1)
    (fun _ _ => Program.When.imp fun _ _ _ h => h.2) h hprec.1 hg hprec

/-- The second receipt comes in while the first is on its way. -/
theorem both_receipts_handled :
    ∃ c, (gateway .loadConfig).Reaches
        (Program.When (Program.Both (Keeps .loadConfig shortID) (Awaited shortID)))
        GatewayConf.start c ∧
      Handled c 0 shortID (gwMsgIDOf 1) ∧ Handled c 1 shortID (gwMsgIDOf 1) := by
  have hreach := (gateway .loadConfig).reaches_outcome
    (Program.When (Program.Both (Keeps .loadConfig shortID) (Awaited shortID))) GatewayConf.start
    (engineSubmits ++ goroutine 3 (.submit .forwardWorker)
      [{}, { attempt := .accepted 0 shortID }, {}, {}] ++
      goroutine 4 (shortReceipt 0 "ACCEPTD") [{}] ++ goroutine 5 (shortReceipt 0 "DELIVRD") [{}])
    (by decide)
  exact ⟨_, hreach,
    every_receipt_handled _ _ hreach (by decide)
      (by decide : Precedes _ _ (Obs.arrived 0 0 shortID)),
    every_receipt_handled _ _ hreach (by decide)
      (by decide : Precedes _ _ (Obs.arrived 1 0 shortID))⟩

/-- Goroutines 3 to 5 after `engineSubmits`: the message goes south, its
records are written, and the engine acknowledges a first receipt. -/
def firstReceiptDelivered : List (Event Input Action) :=
  engineSubmits ++ goroutine 3 (.submit .forwardWorker)
    [{}, { attempt := .accepted 0 shortID }, {}, {}, {}, {}, {}, {}] ++
  goroutine 4 (.record .batchWriteLoop) [{}, {}, { tick := true }] ++
  goroutine 5 (shortReceipt 0 "ACCEPTD") [{}, {}, {}, {}, {}, {}, {}, {}, {}, {}]

/-- Once the engine has acknowledged the first receipt, the final one is
dropped as unknown. -/
theorem final_receipt_is_unknown :
    ∃ c, (gateway .loadConfig).Reaches (Program.When (Keeps .loadConfig shortID))
        GatewayConf.start c ∧
      Assigned c.trace shortID (gwMsgIDOf 1) ∧
      Precedes c.trace (.message (gwMsgIDOf 1) .correlated) (.arrived 1 0 shortID) ∧
      .item 0 .delivered ∈ c.trace ∧ .matched 1 .unknown ∈ c.trace ∧
      ¬ Handled c 1 shortID (gwMsgIDOf 1) := by
  refine Program.exists_reached (firstReceiptDelivered ++ goroutine 6 (shortReceipt 0 "DELIVRD")
    [{}, {}]) (by decide) fun _ => ⟨by decide, by decide, by decide, by decide, fun h => ?_⟩
  exact h.routed .unknown (by decide)

/-! ## Several pools -/

/-- The look-up of the store that an action makes. -/
def lookupOf : Action → Option (ℕ × Receipt)
  | .back (.getSubmit n rc) => some (n, rc)
  | _ => none

/-- No message the id was assigned to is released while the store is asked
for a receipt of it. -/
def Undisturbed (id : Bytes) (c : GatewayConf) (_ : Input) (a : Action) : Prop :=
  ∀ x ∈ lookupOf a, x.2.parsed.messageID = id →
    ∀ y ∈ c.trace.filterMap assignmentOf, y.1 = id → .released y.2 ∈ c.trace →
      Precedes c.trace (.released y.2) (.arrived x.1 x.2.pool id)

instance (id : Bytes) (c : GatewayConf) (i : Input) (a : Action) :
    Decidable (Undisturbed id c i a) :=
  inferInstanceAs (Decidable (∀ x ∈ _, _))

/-- The SMSC id of the receipt a job delivers. -/
def Job.receiptID (j : Job) : Option Bytes :=
  match j.cause with
  | .receipt rc _ => some rc.parsed.messageID
  | .other => none

/-- The SMSC id of the receipt an action handles. -/
def receiptID : Action → Option Bytes
  | .back (.handleDeliver pool src dst esm payload) =>
    receives (.back (.handleDeliver pool src dst esm payload))
  | .back (.getSubmit _ rc) => some rc.parsed.messageID
  | .back (.settle rc _ _) => some rc.parsed.messageID
  | .back (.deliverToConn (.direct j) _) | .back (.deliverToConn (.fallback j) _)
  | .back (.write (.direct j) _ _) | .back (.write (.fallback j) _ _)
  | .back (.await (.direct j)) | .back (.await (.fallback j))
  | .back (.grace j) | .back (.buffer j) => Job.receiptID j
  | _ => none

/-- What is kept about messages other than `g` and ids other than `id` stays
as it is: correlations, submit records and those on their way to the
database, status records, log entries. -/
structure Confined (id g : Bytes) (s s' : Gateway) : Prop where
  gw : ∀ g', g' ≠ g → s'.gwCorrelation.find? g' = s.gwCorrelation.find? g'
  smsc : ∀ id', id' ≠ id → s'.smscCorrelation.find? id' = s.smscCorrelation.find? id'
  records : ∀ k, k ≠ msgKey id → s'.store.submits.db.find? k = s.store.submits.db.find? k
  writes : s'.store.submits.writeCh = s.store.submits.writeCh ∧
    s'.store.submits.batch = s.store.submits.batch
  status : ∀ g', g' ≠ g → s'.store.status.find? g' = s.store.status.find? g'
  log : ∀ g', g' ≠ g → s'.store.log.find? g' = s.store.log.find? g'

theorem Confined.of_eq {s' : Gateway} (hgw : s'.gwCorrelation = s.gwCorrelation)
    (hsmsc : s'.smscCorrelation = s.smscCorrelation) (hsub : s'.store.submits = s.store.submits)
    (hstatus : s'.store.status = s.store.status) (hlog : s'.store.log = s.store.log) :
    Confined id g s s' := by
  refine ⟨?_, ?_, ?_, ?_, ?_, ?_⟩
  · simp [hgw]
  · simp [hsmsc]
  · simp [hsub]
  · simp [hsub]
  · simp [hstatus]
  · simp [hlog]

theorem confined_settle (i : Input) (rc : Receipt) (corr : Correlation) (t : Settlement) :
    Confined rc.parsed.messageID corr.gwMsgID s (execSettle s i rc corr t).state := by
  cases t with
  | updateMessageLog =>
    simp only [execSettle]
    split <;> exact Confined.of_eq rfl rfl rfl rfl rfl
  | writeLog e =>
    refine ⟨fun _ _ => rfl, fun _ _ => rfl, fun _ _ => rfl, ⟨rfl, rfl⟩, fun _ _ => rfl,
      fun g' hne => ?_⟩
    simp [execSettle, MessageStore.writeLog, hne]
  | deliverDLRCallback => exact Confined.of_eq rfl rfl rfl rfl rfl
  | setMessageStatus =>
    refine ⟨fun _ _ => rfl, fun _ _ => rfl, fun _ _ => rfl, ⟨rfl, rfl⟩, fun g' hne => ?_,
      fun _ _ => rfl⟩
    simp [execSettle, MessageStore.setMessageStatus, hne]
  | deleteSmscCorrelation =>
    refine ⟨fun _ _ => rfl, fun id' hne => ?_, fun _ _ => rfl, ⟨rfl, rfl⟩, fun _ _ => rfl,
      fun _ _ => rfl⟩
    simp [execSettle, hne]
  | deleteGwCorrelation =>
    refine ⟨fun g' hne => ?_, fun _ _ => rfl, fun _ _ => rfl, ⟨rfl, rfl⟩, fun _ _ => rfl,
      fun _ _ => rfl⟩
    simp [execSettle, hne]
  | deleteSubmit =>
    refine ⟨fun _ _ => rfl, fun _ _ => rfl, fun k hne => ?_, ⟨rfl, rfl⟩, fun _ _ => rfl,
      fun _ _ => rfl⟩
    simp [execSettle, Submits.deleteSubmit, hne]

theorem confined_routeReceipt (n : ℕ) (rc : Receipt) (corr : Correlation) :
    Confined id g s (routeReceipt s n rc corr).state := by
  unfold routeReceipt
  split <;> exact Confined.of_eq rfl rfl rfl rfl rfl

/-- Handling a receipt touches nothing but what belongs to the message it is
settled for. -/
theorem exec_confined {i : Input} {a : Action} {r : GatewayEffect} (h : exec cfg s i a = some r)
    (ha : receiptID a = some id)
    (hg : ∀ rc corr t, a = .back (.settle rc corr t) → corr.gwMsgID = g) :
    Confined id g s r.state := by
  cases a with
  | submit a => cases ha
  | record a => cases ha
  | serve a => cases ha
  | back a =>
    cases execReturn_moves h with
    | found rc corr =>
      have hroute : Confined id g { s with arrivals := s.arrivals + 1 }
          (routeReceipt { s with arrivals := s.arrivals + 1 } s.arrivals rc corr).state :=
        confined_routeReceipt s.arrivals rc corr
      exact ⟨hroute.gw, hroute.smsc, hroute.records, hroute.writes, hroute.status, hroute.log⟩
    | stored n rc => exact confined_routeReceipt n rc _
    | settle rc corr t =>
      cases ha
      rw [← hg rc corr t rfl]
      exact confined_settle i rc corr t
    | drained | requeue => cases ha
    | _ => exact Confined.of_eq rfl rfl rfl rfl rfl

/-- **Receipts go back to the submitter whatever pool they come from**, in a
run that keeps the id, so that no second SMSC assigns it, and in which no
receipt is overtaken or disturbed: a receipt for a message that still awaits
one is handled for that message, and handling it leaves what is kept about all
others alone. -/
theorem receipt_goes_back (cfg : RouterConfig) (id : Bytes) {c : GatewayConf}
    (h : (gateway cfg).Reaches (Program.When
      (Program.Both (Keeps cfg id) (Program.Both (NotOvertaken id) (Undisturbed id))))
      GatewayConf.start c) {pool : ℕ} {g : Bytes}
    (hg : .message g (.attempted (.accepted pool id)) ∈ c.trace) :
    (∀ n, .arrived n pool id ∈ c.trace → ¬ Precedes c.trace (.released g) (.arrived n pool id) →
      Handled c n id g) ∧
    ∀ i a r, a ∈ c.actions → receiptID a = some id → exec cfg c.shared i a = some r →
      Confined id g c.shared r.state := by
  have hassigned : Assigned c.trace id g := assigned_iff.mpr ⟨pool, hg⟩
  obtain ⟨connID, hknown⟩ := reaches_known
    (E := fun l n g => ∃ pool, Precedes l (.released g) (.arrived n pool id))
    (fun c e => Program.When.imp fun _ _ _ h => h.1)
    (fun l l' n g pool _ ⟨pool', hp⟩ => ⟨pool', (precedes_append_of_mem hp.1).mpr hp⟩)
    (fun c j i n rc g hev hhead hid hg hrel =>
      ⟨rc.pool, (hev _ hhead).2.2 (n, rc) rfl hid (id, g) hg rfl hrel⟩) h
  refine ⟨fun n harr hawait => ⟨(reaches_looked h).answered n pool id harr, fun m hm => ?_⟩,
    fun i a r ha hid hexec => exec_confined hexec hid ?_⟩
  · have hfirst := correlated_first (fun c e => Program.When.imp fun _ _ _ h => h.2.1) h harr
      hassigned
    rcases hknown.matched n m pool g hm harr hassigned hfirst with hfits | ⟨pool', hrel⟩
    · exact routedTo_of_fits h hknown.engines hm harr hfits
    · obtain ⟨rfl, -⟩ := (reaches_looked h).unique n _ _ _ _ harr hrel.1
      exact absurd hrel hawait
  · rintro rc corr t rfl
    obtain ⟨hcites, -⟩ := hknown.marks.actions _ ha
    rw [Option.some.inj hid] at hcites
    exact hknown.once _ _ hcites hassigned

/-- The system id of a second engine. -/
def secondEngineID : Bytes := ascii "eng2"

/-- Goroutines 3 to 7 after `engineSubmits`: a second engine connects, binds
and submits `GW-2`; both messages go south, each over its own pool, under the
given ids. -/
def twoEnginesForward (id₁ id₂ : Bytes) : List (Event Input Action) :=
  engineSubmits ++ goroutine 3 (.serve .accept) [{}] ++
  goroutine 4 (.serve (.bind 1 secondEngineID none)) [{}] ++
  goroutine 5 (.submit (.handleSubmit secondEngineID 7
    (Smpp.buildSubmitSMBody (ascii "100") (ascii "300") (ascii "ho")))) [{}, {}, {}, {}] ++
  goroutine 6 (.submit .forwardWorker) [{}, { attempt := .accepted 0 id₁ }, {}, {}] ++
  goroutine 7 (.submit .forwardWorker) [{}, { attempt := .accepted 1 id₂ }, {}, {}]

/-- Two pools with ids of their own: the receipt of the first message is
handled for it. -/
theorem receipt_of_first_pool :
    ∃ c, (gateway .loadConfig).Reaches (Program.When (Program.Both (Keeps .loadConfig shortID)
        (Program.Both (NotOvertaken shortID) (Undisturbed shortID)))) GatewayConf.start c ∧
      .message (gwMsgIDOf 1) (.attempted (.accepted 0 shortID)) ∈ c.trace ∧
      .message (gwMsgIDOf 2) (.attempted (.accepted 1 (ascii "s2"))) ∈ c.trace ∧
      Handled c 0 shortID (gwMsgIDOf 1) := by
  refine Program.exists_reached (twoEnginesForward shortID (ascii "s2") ++ goroutine 8 (shortReceipt
    0 "DELIVRD") [{}]) (by decide) fun hreach => ⟨by decide, by decide, ?_⟩
  exact (receipt_goes_back _ _ hreach
    (by decide : Obs.message (gwMsgIDOf 1) (.attempted (.accepted 0 shortID)) ∈ _)).1 0
    (by decide) (by decide)

/-- The pool that assigns an id, and the id. -/
def poolAssignmentOf : Obs → Option (ℕ × Bytes)
  | .message _ (.attempted (.accepted pool id)) => some (pool, id)
  | _ => none

/-- Two pools assign the same id, each of them once: the receipt the first
pool sends for the first engine's message is taken for the second engine's. -/
theorem receipt_goes_astray :
    ∃ c, (gateway .loadConfig).Reaches
        (Program.When (Program.Both (NotOvertaken shortID) (Undisturbed shortID)))
        GatewayConf.start c ∧
      (c.trace.filterMap poolAssignmentOf).Nodup ∧
      .message (gwMsgIDOf 1) (.accepted (.smpp engineID)) ∈ c.trace ∧
      .message (gwMsgIDOf 1) (.attempted (.accepted 0 shortID)) ∈ c.trace ∧
      .arrived 0 0 shortID ∈ c.trace ∧
      ¬ Precedes c.trace (.released (gwMsgIDOf 1)) (.arrived 0 0 shortID) ∧
      .matched 0 (.smpp ⟨gwMsgIDOf 2, secondEngineID, ascii "300", 0⟩ 0) ∈ c.trace ∧
      ¬ Handled c 0 shortID (gwMsgIDOf 1) := by
  refine Program.exists_reached (twoEnginesForward shortID shortID ++ goroutine 8 (shortReceipt 0
    "DELIVRD") [{}]) (by decide) fun _ => ⟨by decide, by decide, by decide, by decide, by decide, by
    decide, fun h => ?_⟩
  have hrouted := h.routed (.smpp ⟨gwMsgIDOf 2, secondEngineID, ascii "300", 0⟩ 0) (by decide)
  exact absurd hrouted.1 (by decide)

end Receipts

end SmscGateway
