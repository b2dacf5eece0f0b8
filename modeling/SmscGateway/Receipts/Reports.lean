import SmscGateway.Receipts.Callbacks
import SmscGateway.Submit.Parcel

/-!
# What callbacks report

A callback is to say which message it is about, with the reference and the
addresses of its request, and how the message ended. The first attempt passes on
what `handleDLR` or `sendSyntheticDLR` was given. A retry has only the record,
which keeps neither the addresses nor the status.
-/

namespace SmscGateway

open List SortedMap

namespace Callbacks

variable {s s' : State} {e : Event} {ps : List Post}

/-! ## Messages and notices -/

/-- The REST messages of a history, with their ids. -/
def accepted (es : List Event) : List (Bytes × SMSSubmitRequest) :=
  es.filterMap fun
    | .accept g m => some (g, m)
    | _ => none

/-- No id is given to two messages. -/
def DistinctIDs (es : List Event) : Prop := ((accepted es).map Prod.fst).Nodup

/-- **The POST reports what happened** to the message. -/
structure Reports (m : SMSSubmitRequest) (p : Post) : Prop where
  id : p.payload.id = p.notice.gwMsgID
  reference : p.payload.reference = m.reference
  toAddr : p.payload.toAddr = m.toAddr
  fromAddr : p.payload.fromAddr = m.fromAddr
  status : p.payload.status = p.notice.status

/-- What the event finds is such that its POST, if it makes one, reports what
happened. The receipt of a message that still has its callback has the
message's addresses, and a retry that still finds the record is for a
`DELIVRD` receipt of a message without addresses. -/
def Event.Faithful (es : List Event) (s : State) : Event → Prop
  | .handleDLR _ g _ sourceAddr destAddr =>
    (s.store.callbacks.find? g).isSome = true → ∀ m, (g, m) ∈ accepted es →
      destAddr = m.toAddr ∧ sourceAddr = m.fromAddr
  | .retry _ =>
    ∀ item rest, s.toProcess = item :: rest →
      (s.store.callbacks.find? item.cb.gwMsgID).isSome = true →
      ∀ m, (item.cb.gwMsgID, m) ∈ accepted es →
        m.toAddr = [] ∧ m.fromAddr = [] ∧ item.notice.status = ascii "DELIVRD"
  | _ => True

/-- Every event of the history was faithful when it happened. -/
def Faithful (es : List Event) : Prop :=
  ∀ (k : ℕ) (e : Event), es[k]? = some e → ∀ x, run (es.take k) = some x →
    e.Faithful (es.take k) x.1

/-! ## Where the data come from -/

/-- Records, parcels and markers are of the messages of the history. -/
structure Sourced (es : List Event) (s : State) : Prop where
  records : ∀ g cb, s.store.callbacks.find? g = some cb →
    cb.gwMsgID = g ∧ ∃ m, (g, m) ∈ accepted es ∧ cb.reference = m.reference
  parcels : ∀ g x, s.parcels.find? g = some x →
    ∃ m, (g, m) ∈ accepted es ∧ x = (m.toAddr, m.fromAddr)
  markers : ∀ key cb, s.store.callbackRetries.find? key = some cb →
    ∃ n, s.notices.find? key = some n ∧ n.gwMsgID = cb.gwMsgID
  items : ∀ item ∈ s.toProcess, item.notice.gwMsgID = item.cb.gwMsgID

variable {es : List Event} {g : Bytes}

theorem Sourced.keyed (h : Sourced es s) : Keyed s :=
  fun g cb hcb => (h.records g cb hcb).1

theorem accepted_append (es es' : List Event) :
    accepted (es ++ es') = accepted es ++ accepted es' := filterMap_append ..

/-- Messages stay in the history. -/
theorem Sourced.mono (h : Sourced es s) (e : Event) : Sourced (es ++ [e]) s := by
  have hmem : ∀ {x}, x ∈ accepted es → x ∈ accepted (es ++ [e]) := by
    intro x hx
    rw [accepted_append]
    exact mem_append_left _ hx
  refine ⟨fun g cb hcb => ?_, fun g x hx => ?_, h.markers, h.items⟩
  · obtain ⟨hkey, m, hm, href⟩ := h.records g cb hcb
    exact ⟨hkey, m, hmem hm, href⟩
  · obtain ⟨m, hm, hx⟩ := h.parcels g x hx
    exact ⟨m, hmem hm, hx⟩

/-- A POST for a record leaves everything sourced, if the notice is about the
record's message. -/
theorem Sourced.attempt (h : Sourced es s) {i : Input} {cb : CallbackRecord} {n : Notice}
    (hcb : s.store.callbacks.find? g = some cb) (hn : n.gwMsgID = cb.gwMsgID) :
    Sourced es (attempted s i cb n) := by
  obtain ⟨hkey, m, hm, href⟩ := h.records g cb hcb
  refine ⟨fun g' cb' hcb' => ?_, h.parcels, fun key v hv => ?_, h.items⟩
  · rw [attempted_find?] at hcb'
    split at hcb'
    · rename_i heq
      obtain ⟨-, rfl⟩ := eq_of_refusal hcb'
      refine ⟨heq.symm, m, ?_, href⟩
      rw [heq, hkey]
      exact hm
    · exact h.records g' cb' hcb'
  · rcases attempted_markers s i cb n with ⟨hsame, hnotices⟩ | ⟨key', w, hid, -, hnew, hnotices⟩
    · rw [hsame] at hv
      rw [hnotices]
      exact h.markers key v hv
    · rw [hnew, find?_insert] at hv
      rw [hnotices, find?_insert]
      split at hv
      · rename_i heq
        cases hv
        exact ⟨n, if_pos heq, hn.trans hid.symm⟩
      · rename_i hne
        rw [if_neg hne]
        exact h.markers key v hv

/-- Taking a marker. -/
theorem Sourced.taken (h : Sourced es s) {item : Item} {rest : List Item}
    (hnext : s.toProcess = item :: rest) : Sourced es (taken s item rest) := by
  refine ⟨h.records, h.parcels, fun key cb hcb => ?_, fun it hit => ?_⟩
  · simp only [Callbacks.taken, find?_erase] at hcb
    split at hcb
    · cases hcb
    · exact h.markers key cb hcb
  · exact h.items it (hnext ▸ mem_cons_of_mem _ hit)

theorem Moves.sourced (h : Moves s e s' ps) (hs : Sourced es s) : Sourced (es ++ [e]) s' := by
  cases h with
  | accepts g m =>
    have hs' := hs.mono (.accept g m)
    have hnew : (g, m) ∈ accepted (es ++ [.accept g m]) := by
      rw [accepted_append]
      exact mem_append_right _ (mem_singleton_self _)
    refine ⟨fun g' cb hcb => ?_, fun g' x hx => ?_, fun key cb hcb => ?_, hs.items⟩
    · by_cases hurl : m.callbackURL = []
      · simp only [if_pos hurl] at hcb
        exact hs'.records g' cb hcb
      · simp only [if_neg hurl, find?_insert] at hcb
        split at hcb
        · rename_i heq
          cases hcb
          exact ⟨heq.symm, m, heq ▸ hnew, rfl⟩
        · exact hs'.records g' cb hcb
    · simp only [find?_insert] at hx
      split at hx
      · rename_i heq
        exact ⟨m, heq ▸ hnew, (Option.some.inj hx).symm⟩
      · exact hs'.parcels g' x hx
    · refine hs.markers key cb ?_
      by_cases hurl : m.callbackURL = []
      · simpa only [if_pos hurl] using hcb
      · simpa only [if_neg hurl] using hcb
  | reports he hcb => exact ((hs.mono _).attempt hcb (hs.keyed _ _ hcb).symm)
  | retries hnext hcb =>
    refine ((hs.mono _).taken hnext).attempt hcb ?_
    rw [hs.keyed _ _ hcb]
    exact hs.items _ (hnext ▸ mem_cons_self)
  | @collects now hidle =>
    have hs' := hs.mono (.drainCallbackRetries now)
    refine ⟨hs'.records, hs'.parcels, hs'.markers, fun item hitem => ?_⟩
    obtain ⟨entry, hentry, rfl⟩ := mem_map.mp hitem
    have hfind := mem_entries_iff.mp (mem_of_mem_filter hentry)
    obtain ⟨n, hn, hid⟩ := hs.markers _ _ hfind
    simp only [hn, Option.getD_some]
    exact hid
  | outdated hnext hcb => exact (hs.mono _).taken hnext
  | restarts =>
    have hs' := hs.mono .restart
    exact ⟨hs'.records, hs'.parcels, hs'.markers, fun item hitem => absurd hitem not_mem_nil⟩
  | _ => exact hs.mono _

/-- A POST is about a message of the history. -/
theorem Moves.known (h : Moves s e s' ps) (hs : Sourced es s) :
    ∀ p ∈ ps, ∃ m, (p.notice.gwMsgID, m) ∈ accepted es := by
  cases h with
  | reports he hcb =>
    intro p hp
    obtain ⟨-, m, hm, -⟩ := hs.records _ _ hcb
    rw [mem_singleton.mp hp]
    exact ⟨m, hm⟩
  | retries hnext hcb =>
    intro p hp
    obtain ⟨-, m, hm, -⟩ := hs.records _ _ hcb
    rw [mem_singleton.mp hp]
    refine ⟨m, ?_⟩
    rw [hs.items _ (hnext ▸ mem_cons_self)]
    exact hm
  | _ => exact fun p hp => absurd hp not_mem_nil

theorem sourced (es : List Event) : ∃ s posts, run es = some (s, posts) ∧ Sourced es s ∧
    ∀ p ∈ posts, ∃ m, (p.notice.gwMsgID, m) ∈ accepted es := by
  refine run_invariant (I := fun es s posts => Sourced es s ∧
    ∀ p ∈ posts, ∃ m, (p.notice.gwMsgID, m) ∈ accepted es) ⟨⟨?_, ?_, ?_, ?_⟩, ?_⟩
    (fun h => h.1.keyed) ?_ es
  · intro g cb h
    cases h
  · intro g x h
    cases h
  · intro key cb h
    cases h
  · intro item h
    cases h
  · intro p h
    cases h
  · rintro es s posts e s' ps ⟨hs, hknown⟩ hmoves
    refine ⟨hmoves.sourced hs, fun p hp => ?_⟩
    have hold : ∃ m, (p.notice.gwMsgID, m) ∈ accepted es := by
      rcases mem_append.mp hp with hp | hp
      · exact hknown p hp
      · exact hmoves.known hs p hp
    obtain ⟨m, hm⟩ := hold
    refine ⟨m, ?_⟩
    rw [accepted_append]
    exact mem_append_left _ hm

theorem DistinctIDs.eq (h : DistinctIDs es) {m m' : SMSSubmitRequest} (hm : (g, m) ∈ accepted es)
    (hm' : (g, m') ∈ accepted es) : m = m' :=
  congrArg Prod.snd (inj_on_of_nodup_map h hm hm' rfl)

/-! ## Faithful histories -/

/-- **One event**: its POST reports what happened exactly if it is faithful. -/
theorem Moves.reports_iff (h : Moves s e s' ps) (hs : Sourced es s) (hids : DistinctIDs es) :
    (∀ p ∈ ps, ∀ m, (p.notice.gwMsgID, m) ∈ accepted es → Reports m p) ↔ e.Faithful es s := by
  cases h with
  | @reports e i n d f cb he hcb =>
    obtain ⟨-, m, hm, href⟩ := hs.records _ _ hcb
    cases he with
    | receipt =>
      constructor
      · intro hrep _ m' hm'
        have hr := hrep _ (mem_singleton_self _) m' hm'
        exact ⟨hr.toAddr, hr.fromAddr⟩
      · intro hfaith p hp m' hm'
        rw [mem_singleton.mp hp] at hm' ⊢
        obtain ⟨hto, hfrom⟩ := hfaith (by rw [hcb]; rfl) m' hm'
        obtain rfl := hids.eq hm hm'
        exact ⟨rfl, href, hto, hfrom, rfl⟩
    | failure hstatus hparcel =>
      refine ⟨fun _ => trivial, fun _ p hp m' hm' => ?_⟩
      rw [mem_singleton.mp hp] at hm' ⊢
      -- the addresses came back with the message itself
      obtain ⟨m₁, hm₁, hx⟩ := hs.parcels _ _ hparcel
      obtain rfl := hids.eq hm hm'
      obtain rfl := hids.eq hm hm₁
      obtain ⟨hto, hfrom⟩ := Prod.mk.inj hx
      exact ⟨rfl, href, hto, hfrom, rfl⟩
  | @retries i item rest cb hnext hcb =>
    obtain ⟨hkey, m, hm, href⟩ := hs.records _ _ hcb
    have hitem := hs.items item (hnext ▸ mem_cons_self)
    constructor
    · intro hrep item' rest' hnext' _ m' hm'
      obtain ⟨rfl, rfl⟩ := cons.inj (hnext.symm.trans hnext')
      have hr := hrep _ (mem_singleton_self _) m' (hitem ▸ hm')
      exact ⟨hr.toAddr.symm, hr.fromAddr.symm, hr.status.symm⟩
    · intro hfaith p hp m' hm'
      rw [mem_singleton.mp hp] at hm' ⊢
      rw [hitem] at hm'
      obtain ⟨hto, hfrom, hstatus⟩ := hfaith item rest hnext (by rw [hcb]; rfl) m' hm'
      obtain rfl := hids.eq hm hm'
      exact ⟨hkey.trans hitem.symm, href, hto.symm, hfrom.symm, hstatus.symm⟩
  | @unregistered e i n d f he hcb =>
    refine ⟨fun _ => ?_, fun _ p hp => absurd hp not_mem_nil⟩
    cases he with
    | receipt =>
      intro hsome
      rw [hcb] at hsome
      cases hsome
    | failure => trivial
  | @outdated i item rest hnext hcb =>
    refine ⟨fun _ item' rest' hnext' hsome => ?_, fun _ p hp => absurd hp not_mem_nil⟩
    obtain ⟨rfl, rfl⟩ := cons.inj (hnext.symm.trans hnext')
    rw [hcb] at hsome
    cases hsome
  | nothingDue hnext =>
    refine ⟨fun _ item rest hnext' => ?_, fun _ p hp => absurd hp not_mem_nil⟩
    cases hnext.symm.trans hnext'
  | _ => exact ⟨fun _ => trivial, fun _ p hp => absurd hp not_mem_nil⟩

theorem faithful_concat (es : List Event) (e : Event) : Faithful (es ++ [e]) ↔
    Faithful es ∧ ∀ x, run es = some x → e.Faithful es x.1 := by
  have hlast : (es ++ [e])[es.length]? = some e := by simp
  have htake : (es ++ [e]).take es.length = es := by simp
  have hold : ∀ {k : ℕ}, k < es.length →
      (es ++ [e])[k]? = es[k]? ∧ (es ++ [e]).take k = es.take k := fun hk =>
    ⟨getElem?_append_left hk, take_append_of_le_length hk.le⟩
  constructor
  · intro h
    refine ⟨fun k e' hk x hx => ?_, fun x hx => ?_⟩
    · obtain ⟨hget, htake'⟩ := hold (List.getElem?_eq_some_iff.mp hk).1
      have hf := h k e' (hget.trans hk) x (htake' ▸ hx)
      rwa [htake'] at hf
    · have hf := h es.length e hlast x (htake.symm ▸ hx)
      rwa [htake] at hf
  · rintro ⟨hes, he⟩ k e' hk x hx
    rcases Nat.lt_or_ge k es.length with hlt | hge
    · obtain ⟨hget, htake'⟩ := hold hlt
      rw [htake'] at hx ⊢
      exact hes k e' (hget ▸ hk) x hx
    · have hlen := (List.getElem?_eq_some_iff.mp hk).1
      rw [length_append, length_singleton] at hlen
      obtain rfl : k = es.length := by omega
      obtain rfl := Option.some.inj (hlast.symm.trans hk)
      rw [htake] at hx ⊢
      exact he x hx

theorem DistinctIDs.of_append {es' : List Event} (h : DistinctIDs (es ++ es')) :
    DistinctIDs es := by
  rw [DistinctIDs, accepted_append, map_append] at h
  exact List.Nodup.of_append_left h

/-- The id of a message that was accepted is not given out again. -/
theorem DistinctIDs.mem_append_iff {es' : List Event} (h : DistinctIDs (es ++ es'))
    (hold : ∃ m, (g, m) ∈ accepted es) (m : SMSSubmitRequest) :
    (g, m) ∈ accepted (es ++ es') ↔ (g, m) ∈ accepted es := by
  have hmem : ∀ {x}, x ∈ accepted es → x ∈ accepted (es ++ es') := fun hx => by
    rw [accepted_append]
    exact mem_append_left _ hx
  refine ⟨fun hm => ?_, hmem⟩
  obtain ⟨m', hm'⟩ := hold
  obtain rfl := h.eq hm (hmem hm')
  exact hm'

/-- **Callbacks report what happened exactly in faithful histories**, for first
attempts and retries, before and after restarts. -/
theorem callbacks_report_iff {es : List Event} (hids : DistinctIDs es) :
    ∃ s posts, run es = some (s, posts) ∧
      ((∀ p ∈ posts, ∀ m, (p.notice.gwMsgID, m) ∈ accepted es → Reports m p) ↔ Faithful es) := by
  induction es using List.reverseRecOn with
  | nil =>
    refine ⟨{}, [], rfl, fun _ k e hk => ?_, fun _ p hp => absurd hp not_mem_nil⟩
    simp at hk
  | append_singleton es e ih =>
    have hids' := hids.of_append
    obtain ⟨s, posts, hrun, hiff⟩ := ih hids'
    obtain ⟨s₁, posts₁, hrun₁, hs, hknown⟩ := sourced es
    obtain ⟨rfl, rfl⟩ := Prod.mk.inj (Option.some.inj (hrun.symm.trans hrun₁))
    obtain ⟨s', ps, hstep, hmoves⟩ := step_moves hs.keyed e
    refine ⟨s', posts ++ ps, ?_, ?_⟩
    · rw [run_concat, hrun]
      show extend (s, posts) e = _
      rw [extend, hstep]
      rfl
    · have hsame : ∀ p ∈ posts ++ ps, ∀ m, (p.notice.gwMsgID, m) ∈ accepted (es ++ [e]) ↔
          (p.notice.gwMsgID, m) ∈ accepted es := by
        intro p hp m
        refine hids.mem_append_iff ?_ m
        rcases mem_append.mp hp with hp | hp
        · exact hknown p hp
        · exact hmoves.known hs p hp
      have hevent : (∀ x, run es = some x → e.Faithful es x.1) ↔ e.Faithful es s := by
        refine ⟨fun h => h _ hrun, fun h x hx => ?_⟩
        obtain rfl := Option.some.inj (hrun.symm.trans hx)
        exact h
      rw [faithful_concat, hevent, ← hiff, ← hmoves.reports_iff hs hids']
      constructor
      · intro h
        exact ⟨fun p hp m hm => h p (mem_append_left _ hp) m
            ((hsame p (mem_append_left _ hp) m).mpr hm),
          fun p hp m hm => h p (mem_append_right _ hp) m
            ((hsame p (mem_append_right _ hp) m).mpr hm)⟩
      · rintro ⟨hold, hnew⟩ p hp m hm
        have hm' := (hsame p hp m).mp hm
        rcases mem_append.mp hp with hp | hp
        · exact hold p hp m hm'
        · exact hnew p hp m hm'

/-- A receipt that has the addresses of the message. -/
def firstAttempt : List Event :=
  [.accept (gwMsgIDOf 1) request,
    .handleDLR {} (gwMsgIDOf 1) undeliv (ascii "SHOP") (ascii "2547")]

def firstReport : Post :=
  ⟨ascii "http://c", ⟨gwMsgIDOf 1, undeliv, ascii "2547", ascii "SHOP", ascii "r1", 0⟩, true,
    ⟨gwMsgIDOf 1, undeliv⟩⟩

theorem first_attempt_reports : DistinctIDs firstAttempt ∧ Faithful firstAttempt := by
  have hids : DistinctIDs firstAttempt := nodup_singleton _
  obtain ⟨s, posts, hrun, hiff⟩ := callbacks_report_iff hids
  have hposts : (run firstAttempt).map Prod.snd = some [firstReport] := by decide
  rw [hrun] at hposts
  obtain rfl : posts = [firstReport] := Option.some.inj hposts
  refine ⟨hids, hiff.mp fun p hp m hm => ?_⟩
  obtain rfl := mem_singleton.mp hp
  obtain ⟨-, rfl⟩ := Prod.mk.inj (mem_singleton.mp hm)
  exact ⟨rfl, rfl, rfl, rfl, rfl⟩

/-- The first POST of an `UNDELIV` receipt fails; after a restart the retry
succeeds. -/
def secondAttempt : List Event :=
  [.accept (gwMsgIDOf 1) request,
    .handleDLR unanswered (gwMsgIDOf 1) undeliv (ascii "SHOP") (ascii "2547"), .restart,
    .drainCallbackRetries (6 * second), .retry {}]

/-- The endpoint is told that the message was delivered, and not to whom. -/
def lateReport : Post :=
  ⟨ascii "http://c", ⟨gwMsgIDOf 1, ascii "DELIVRD", [], [], ascii "r1", 0⟩, true,
    ⟨gwMsgIDOf 1, undeliv⟩⟩

theorem retry_misreports :
    ∃ s posts, run secondAttempt = some (s, posts) ∧ lateReport ∈ posts ∧
      (lateReport.notice.gwMsgID, request) ∈ accepted secondAttempt ∧
      ¬ Reports request lateReport := by
  have hlast : (run secondAttempt).map (fun x => x.2.getLast?) = some (some lateReport) := by
    decide
  obtain ⟨⟨s, posts⟩, hrun, hposts⟩ := Option.map_eq_some_iff.mp hlast
  refine ⟨s, posts, hrun, mem_of_getLast? hposts, mem_singleton_self _, fun h => ?_⟩
  have hstatus : ascii "DELIVRD" = undeliv := h.status
  exact absurd hstatus (by decide)

/-! ## Parcels in the gateway -/

/-- **What is given up comes back with its addresses.** An action of the gateway
that may give up on a REST message has the addresses of the request, wherever
the message has been since; JSON keeps what it has decoded before. -/
theorem addresses_of_givesUp {cfg : RouterConfig}
    {ok ok' : GatewayConf → SmscGateway.Event Input Action → Prop} {c₀ c₁ c : GatewayConf} {n : ℕ}
    {i : Input} {m : SMSSubmitRequest} {rest : List SMSSubmitRequest} {ids : List Bytes}
    (hto : jsonString m.toAddr = m.toAddr) (hfrom : jsonString m.fromAddr = m.fromAddr)
    (h₀ : (gateway cfg).Reaches ok GatewayConf.start c₀)
    (hhead : c₀.head n = some (.submit (.acceptREST (m :: rest) ids)))
    (hstep : (gateway cfg).step c₀ (.run n i) = some c₁) (hrun : (gateway cfg).Reaches ok' c₁ c)
    {a : Action} (ha : a ∈ c.actions) {connID d f : Bytes}
    (hgives : GivesUp a connID (gwMsgIDOf (c₀.shared.msgSeq + 1)) d f) :
    d = m.toAddr ∧ f = m.fromAddr := by
  obtain ⟨hon, -⟩ := Dossier.on_about_of_accepted
    (P := fun d f _ => d = m.toAddr ∧ f = m.fromAddr)
    (fun d f b h => ⟨by rw [h.1, hto], by rw [h.2, hfrom]⟩) h₀ hhead rfl hstep rfl
    (fun task connID => Dossier.addresses_of_offer) hrun
  have hparcel := hon.actions a ha
  rcases hgives with ⟨task, rfl, hg, rfl, rfl⟩ | ⟨w, rfl, -, hg, rfl, rfl⟩ | ⟨p, rfl, -, hg, rfl, rfl⟩
  · exact hparcel.2 hg
  · exact hparcel.2 hg
  · exact hparcel.2 hg

end Callbacks

end SmscGateway
