import SmscGateway.Common.Rounds
import SmscGateway.Return.Pipeline

/-!
# Draining the retry queue in rounds

`drainRetries` takes the first entries of the queue, up to the limit, and
puts back what it cannot deliver. The key of an entry begins with the time it
was first enqueued, and an entry that is put back keeps that time, so it comes
back to its place in front of all younger entries. A call is therefore a round
in the sense of `Rounds`: entries for engines that stay away use up places of
every later call, and the entries behind them wait the longer.
-/

namespace SmscGateway

open List

namespace ReturnPath

/-! ## The queue in the order of time -/

section Order

/-- The keys of two entries compare as their times do, as long as the times
have no more than the twenty digits that are printed. -/
theorem retryKey_lt {t t' : Time} (ht : t < 10 ^ 20) (ht' : t' < 10 ^ 20) (h : t < t')
    (x y : Bytes) : retryKey t x < retryKey t' y := by
  have hlen : (padded 20 t).length = (padded 20 t').length := by
    rw [length_padded (by omega) ht, length_padded (by omega) ht']
  rw [retryKey, retryKey, append_lt_append_left, append_lt_append_of_length hlen]
  exact Or.inl ((padded_lt_padded (by omega) ht ht').mpr h)

theorem le_of_retryKey_lt {t t' : Time} (ht : t < 10 ^ 20) (ht' : t' < 10 ^ 20) {x y : Bytes}
    (h : retryKey t x < retryKey t' y) : t ≤ t' := by
  by_contra hlt
  exact lt_asymm h (retryKey_lt ht' ht (not_le.mp hlt) y x)

/-- A retry queue that holds the given entries, in this order. -/
structure Holds (m : SortedMap Bytes Numbered) (es : List Numbered) : Prop where
  values : m.values = es
  /-- Every entry is under the key `EnqueueRetry` gave it. -/
  keyed : ∀ x ∈ m.entries, ∃ id, x.1 = retryKey x.2.pending.enqueuedAt id
  /-- Its time has no more than twenty digits. -/
  printed : ∀ e ∈ es, e.pending.enqueuedAt < 10 ^ 20

/-- The order of time. -/
def InTime (es : List Numbered) : Prop :=
  es.Pairwise fun e e' => e.pending.enqueuedAt < e'.pending.enqueuedAt

theorem InTime.nodup {es : List Numbered} (h : InTime es) : es.Nodup :=
  h.imp fun hlt heq => absurd (heq ▸ hlt) (lt_irrefl _)

/-- Entries with different times are in the order of time. -/
theorem Holds.inTime {m : SortedMap Bytes Numbered} {es : List Numbered} (h : Holds m es)
    (hne : (es.map fun e => e.pending.enqueuedAt).Nodup) : InTime es := by
  obtain ⟨rfl, hkeyed, hprinted⟩ := h
  have hle : m.values.Pairwise fun e e' => e.pending.enqueuedAt ≤ e'.pending.enqueuedAt := by
    refine pairwise_map.mpr (m.sorted.imp_of_mem fun {x y} hx hy hlt => ?_)
    obtain ⟨id, hid⟩ := hkeyed x hx
    obtain ⟨id', hid'⟩ := hkeyed y hy
    rw [hid, hid'] at hlt
    exact le_of_retryKey_lt (hprinted _ (mem_map.mpr ⟨x, hx, rfl⟩))
      (hprinted _ (mem_map.mpr ⟨y, hy, rfl⟩)) hlt
  have hdiff := pairwise_map.mp (nodup_iff_pairwise_ne.mp hne)
  exact (hle.and hdiff).imp fun h => lt_of_le_of_ne h.1 h.2

/-- **An entry goes back to its place.** -/
theorem Holds.insert {m : SortedMap Bytes Numbered} {A B : List Numbered} {e : Numbered}
    (h : Holds m (A ++ B)) (htime : InTime (A ++ e :: B))
    (hprinted : e.pending.enqueuedAt < 10 ^ 20) (hstored : e.pending.json = e.pending) (id : Bytes) :
    Holds (m.insert (retryKey e.pending.enqueuedAt id) ⟨e.item, e.pending.json⟩)
      (A ++ e :: B) := by
  obtain ⟨hvalues, hkeyed, hall⟩ := h
  obtain ⟨l₁, l₂, hentries, hA, hB⟩ := map_eq_append_iff.mp hvalues
  obtain ⟨-, heB, hAe⟩ := pairwise_append.mp htime
  have hself : (⟨e.item, e.pending.json⟩ : Numbered) = e := by rw [hstored]
  have hins := SortedMap.entries_insert_between (m := m) (k := retryKey e.pending.enqueuedAt id)
    (⟨e.item, e.pending.json⟩ : Numbered) hentries ?_ ?_
  · refine ⟨?_, ?_, ?_⟩
    · rw [SortedMap.values, hins, hself, map_append, map_cons, hA, hB]
    · intro x hx
      rw [hins, hself] at hx
      rcases mem_append.mp hx with hx | hx
      · exact hkeyed x (hentries ▸ mem_append_left _ hx)
      · rcases mem_cons.mp hx with rfl | hx
        · exact ⟨id, rfl⟩
        · exact hkeyed x (hentries ▸ mem_append_right _ hx)
    · intro x hx
      rcases mem_append.mp hx with hx | hx
      · exact hall x (mem_append_left _ hx)
      · rcases mem_cons.mp hx with rfl | hx
        · exact hprinted
        · exact hall x (mem_append_right _ hx)
  · intro x hx
    have hxA : x.2 ∈ A := hA ▸ mem_map.mpr ⟨x, hx, rfl⟩
    obtain ⟨id', hid'⟩ := hkeyed x (hentries ▸ mem_append_left _ hx)
    rw [hid']
    exact retryKey_lt (hall _ (mem_append_left _ hxA)) hprinted
      (hAe x.2 hxA e mem_cons_self) _ _
  · intro x hx
    have hxB : x.2 ∈ B := hB ▸ mem_map.mpr ⟨x, hx, rfl⟩
    obtain ⟨id', hid'⟩ := hkeyed x (hentries ▸ mem_append_right _ hx)
    rw [hid']
    exact retryKey_lt hprinted (hall _ (mem_append_right _ hxB))
      ((pairwise_cons.mp heB).1 x.2 hxB) _ _

end Order

/-! ## One entry -/

/-- The engine does not take what an action sends it for an entry that is for
`X`. -/
def refuses (X : Bytes) : Action × Input → Bool
  | (.back (.write (.redeliver e) _ _), i) => e.pending.targetConnID = X && !i.written
  | (.back (.await (.redeliver e)), i) => e.pending.targetConnID = X && !i.acked
  | _ => false

/-- What is sent for an entry that is for `X` is written and acknowledged. -/
def Answers (X : Bytes) (trail : List (Action × Input)) : Prop :=
  ∀ x ∈ trail, refuses X x = false
  deriving Decidable

/-- `X` is connected: it is found under its id and its session is open. -/
structure Connected (s : Server) (X : Bytes) (p : ℕ) : Prop where
  named : X ≠ []
  found : s.getConnection X = some p
  opened : s.isClosed p = false

/-- The gateway after `drainRetries` has put an entry back. -/
def putBack (s : Gateway) (now : Time) (e : Numbered) : Gateway :=
  { s with store := s.store.enqueueRetry (ascii "retry-" ++ decimal now) e.item e.pending }

/-- An entry is delivered. -/
def delivered (p : ℕ) (e : Numbered) : List Obs :=
  [.wrote p e.item e.pending.pduBody, .item e.item .delivered]

def isRequeue : Obs → Bool
  | .item _ .requeued => true
  | _ => false

/-- How the turn of an entry ends. -/
inductive Outcome (s : Gateway) (e : Numbered) : Gateway → List Obs → Prop
  | delivered (p : ℕ) : Outcome s e s (delivered p e)
  | putBack (now : Time) {seen : List Obs} : (∀ o ∈ seen, ∃ p, o = .wrote p e.item e.pending.pduBody) →
      Outcome s e (putBack s now e) (seen ++ [.read now, .item e.item .requeued])

variable {cfg : RouterConfig} {s s' : Gateway} {e : Numbered} {rest : List Action}
  {trail : List (Action × Input)} {seen : List Obs}

/-- The rest of a goroutine's run, after the turn of an entry. -/
structure Turn (cfg : RouterConfig) (s : Gateway) (e : Numbered) (rest : List Action)
    (trail : List (Action × Input)) (s' : Gateway) (seen : List Obs) (mid : Gateway)
    (trail' : List (Action × Input)) (seen₁ seen₂ : List Obs) : Prop where
  run : (gateway cfg).Alone mid rest trail' s' seen₂
  trail : trail' ⊆ trail
  seen : seen = seen₁ ++ seen₂
  outcome : Outcome s e mid seen₁

theorem Turn.cons {mid : Gateway} {trail' : List (Action × Input)} {seen₁ seen₂ : List Obs}
    (h : Turn cfg s e rest trail s' seen mid trail' seen₁ seen₂) (x : Action × Input) :
    Turn cfg s e rest (x :: trail) s' seen mid trail' seen₁ seen₂ :=
  { h with trail := List.Subset.trans h.trail (subset_cons_self x trail) }

theorem alone_requeue (h : (gateway cfg).Alone s (.back (.requeue e) :: rest) trail s' seen)
    {before : List Obs} (hbefore : ∀ o ∈ before, ∃ p, o = .wrote p e.item e.pending.pduBody) :
    ∃ mid trail' seen₁ seen₂, Turn cfg s e rest trail s' (before ++ seen) mid trail' seen₁ seen₂ := by
  cases h with
  | @step _ _ _ input r _ trail seen hexec hrest =>
    cases hexec
    refine ⟨_, trail, _, seen, hrest, subset_cons_self _ _, ?_, .putBack input.now hbefore⟩
    rw [append_assoc]

/-- `DeliverToConn` for an entry of the queue, and what follows it. -/
theorem alone_deliverToConn {connID : Bytes}
    (h : (gateway cfg).Alone s (.back (.deliverToConn (.redeliver e) connID) :: rest) trail s' seen) :
    ∃ mid trail' seen₁ seen₂, Turn cfg s e rest trail s' seen mid trail' seen₁ seen₂ ∧
      ∀ p, s.server.getConnection connID = some p → s.server.isClosed p = false →
        Answers e.pending.targetConnID trail → mid = s ∧ seen₁ = delivered p e := by
  have hnone : ∀ o ∈ ([] : List Obs), ∃ p, o = .wrote p e.item e.pending.pduBody := by simp
  cases h with
  | @step _ _ _ i₁ r₁ _ trail₁ seen₁ hexec₁ hrest₁ =>
    change execReturn cfg s i₁ (.deliverToConn (.redeliver e) connID) = some r₁ at hexec₁
    simp only [execReturn] at hexec₁
    split at hexec₁ <;> cases hexec₁
    · -- nobody is registered
      rename_i hconn
      obtain ⟨mid, trail', o₁, o₂, hturn⟩ := alone_requeue hrest₁ hnone
      refine ⟨mid, trail', o₁, o₂, hturn.cons _, fun p hp => ?_⟩
      cases hconn.symm.trans hp
    · rename_i q hconn
      cases hrest₁ with
      | @step _ _ _ i₂ r₂ _ trail₂ seen₂ hexec₂ hrest₂ =>
        change execReturn cfg s i₂ (.write (.redeliver e) connID q) = some r₂ at hexec₂
        simp only [execReturn] at hexec₂
        split at hexec₂ <;> cases hexec₂
        · cases hrest₂ with
          | @step _ _ _ i₃ r₃ _ trail₃ seen₃ hexec₃ hrest₃ =>
            change execReturn cfg s i₃ (.await (.redeliver e)) = some r₃ at hexec₃
            simp only [execReturn] at hexec₃
            split at hexec₃ <;> cases hexec₃
            · -- written and acknowledged
              refine ⟨s, trail₃, delivered q e, seen₃, ⟨hrest₃, ?_, rfl, .delivered q⟩,
                fun p hp _ _ => ⟨rfl, ?_⟩⟩
              · exact fun x hx =>
                  mem_cons_of_mem _ (mem_cons_of_mem _ (mem_cons_of_mem _ hx))
              · rw [Option.some.inj (hconn.symm.trans hp)]
            · -- written but not acknowledged
              rename_i hacked
              have hwrote : ∀ o ∈ [Obs.wrote q e.item e.pending.pduBody],
                  ∃ p, o = .wrote p e.item e.pending.pduBody := by simp
              obtain ⟨mid, trail', o₁, o₂, hturn⟩ := alone_requeue hrest₃ hwrote
              refine ⟨mid, trail', o₁, o₂, ((hturn.cons _).cons _).cons _, fun p _ _ hans => ?_⟩
              have hr := hans _ (mem_cons_of_mem _ (mem_cons_of_mem _ mem_cons_self))
              simp [refuses, hacked] at hr
        · -- not written
          rename_i hwritten
          obtain ⟨mid, trail', o₁, o₂, hturn⟩ := alone_requeue hrest₂ hnone
          refine ⟨mid, trail', o₁, o₂, (hturn.cons _).cons _, fun p hp hopen hans => ?_⟩
          have hr := hans _ (mem_cons_of_mem _ mem_cons_self)
          obtain rfl := Option.some.inj (hconn.symm.trans hp)
          simp [refuses] at hr
          exact absurd ⟨hr, hopen⟩ hwritten

/-- **The turn of an entry.** It is delivered or put back, and an entry for a
connected engine that answers is delivered to it. -/
theorem alone_redeliver
    (h : (gateway cfg).Alone s (.back (.redeliver e) :: rest) trail s' seen) :
    ∃ mid trail' seen₁ seen₂, Turn cfg s e rest trail s' seen mid trail' seen₁ seen₂ ∧
      ∀ p, Connected s.server e.pending.targetConnID p → Answers e.pending.targetConnID trail →
        mid = s ∧ seen₁ = delivered p e := by
  have hnone : ∀ o ∈ ([] : List Obs), ∃ p, o = .wrote p e.item e.pending.pduBody := by simp
  cases h with
  | @step _ _ _ i r _ trail seen hexec hrest =>
    change execReturn cfg s i (.redeliver e) = some r at hexec
    have hmore : ∀ {x : Action × Input} {l : List (Action × Input)}, Answers e.pending.targetConnID
        (x :: l) → Answers e.pending.targetConnID l := fun h y hy => h y (mem_cons_of_mem _ hy)
    simp only [execReturn] at hexec
    split at hexec
    · cases hexec
      obtain ⟨mid, trail', o₁, o₂, hturn, hX⟩ := alone_deliverToConn hrest
      refine ⟨mid, trail', o₁, o₂, hturn.cons _, fun p hp hans => ?_⟩
      exact hX p hp.found hp.opened (hmore hans)
    · rename_i haway
      have hno : ∀ p, ¬ Connected s.server e.pending.targetConnID p := by
        intro p hp
        refine haway ⟨hp.named, ?_⟩
        rw [hp.found]
        rfl
      have hr : r = { state := s, next := [.back (.requeue e)] } ∨
          ∃ id, r = { state := s, next := [.back (.deliverToConn (.redeliver e) id)] } := by
        split at hexec
        · exact .inl (Option.some.inj hexec).symm
        · split at hexec
          · exact .inl (Option.some.inj hexec).symm
          · exact .inr ⟨_, (Option.some.inj hexec).symm⟩
      rcases hr with rfl | ⟨id, rfl⟩
      · obtain ⟨mid, trail', o₁, o₂, hturn⟩ := alone_requeue hrest hnone
        exact ⟨mid, trail', o₁, o₂, hturn.cons _, fun p hp => absurd hp (hno p)⟩
      · obtain ⟨mid, trail', o₁, o₂, hturn, -⟩ := alone_deliverToConn hrest
        exact ⟨mid, trail', o₁, o₂, hturn.cons _, fun p hp => absurd hp (hno p)⟩

/-! ## One call -/

/-- What the entries of a call come to: those that are put back, and how the
others fared. -/
structure Served (s : Gateway) (es : List Numbered) (trail : List (Action × Input)) (s' : Gateway)
    (seen : List Obs) (back : List Numbered) : Prop where
  sublist : back.Sublist es
  server : s'.server = s.server
  count : seen.countP isRequeue = back.length
  /-- Nothing but the entries is delivered. -/
  only : ∀ k, .item k .delivered ∈ seen → ∃ e ∈ es, e.item = k
  /-- An entry for a connected engine that answers is delivered to it. -/
  reaches : ∀ e ∈ es, ∀ p, Connected s.server e.pending.targetConnID p →
    Answers e.pending.targetConnID trail →
      e ∉ back ∧ .wrote p e.item e.pending.pduBody ∈ seen ∧ .item e.item .delivered ∈ seen

section Serve

variable {mid : Gateway} {es back : List Numbered} {trail' : List (Action × Input)}
  {before : List Obs}

/-- An entry is delivered before the others. -/
theorem Served.delivered {p : ℕ} (h : Served s es trail' s' seen back) (he : e ∉ es)
    (htrail : trail' ⊆ trail)
    (hX : ∀ q, Connected s.server e.pending.targetConnID q →
      Answers e.pending.targetConnID trail → delivered p e = delivered q e) :
    Served s (e :: es) trail s' (delivered p e ++ seen) back := by
  refine ⟨h.sublist.trans (sublist_cons_self e es), h.server, ?_, ?_, ?_⟩
  · rw [countP_append, h.count]
    simp [ReturnPath.delivered, isRequeue]
  · intro k hk
    rcases mem_append.mp hk with hk | hk
    · have hitem : k = e.item := by simpa [ReturnPath.delivered] using hk
      exact ⟨e, mem_cons_self, hitem.symm⟩
    · obtain ⟨e', he', hitem⟩ := h.only k hk
      exact ⟨e', mem_cons_of_mem _ he', hitem⟩
  · intro e' he' q hconn hans
    rcases mem_cons.mp he' with rfl | he'
    · rw [hX q hconn hans]
      exact ⟨fun hback => he (h.sublist.subset hback), by simp [ReturnPath.delivered],
        by simp [ReturnPath.delivered]⟩
    · obtain ⟨hback, hwrote, hdone⟩ := h.reaches e' he' q hconn fun x hx => hans x (htrail hx)
      exact ⟨hback, mem_append_right _ hwrote, mem_append_right _ hdone⟩

/-- An entry is put back before the others have their turn. -/
theorem Served.putBack {now : Time} (h : Served mid es trail' s' seen back)
    (hmid : mid.server = s.server) (he : e ∉ es) (htrail : trail' ⊆ trail)
    (hbefore : ∀ o ∈ before, ∃ p, o = .wrote p e.item e.pending.pduBody)
    (hX : ∀ q, Connected s.server e.pending.targetConnID q →
      ¬ Answers e.pending.targetConnID trail) :
    Served s (e :: es) trail s' (before ++ [.read now, .item e.item .requeued] ++ seen)
      (e :: back) := by
  refine ⟨h.sublist.cons_cons e, h.server.trans hmid, ?_, ?_, ?_⟩
  · have hzero : before.countP isRequeue = 0 := by
      refine countP_eq_zero.mpr fun o ho => ?_
      obtain ⟨p, rfl⟩ := hbefore o ho
      simp [isRequeue]
    rw [countP_append, countP_append, hzero, h.count, length_cons]
    simp [isRequeue]
    omega
  · intro k hk
    rcases mem_append.mp hk with hk | hk
    · rcases mem_append.mp hk with hk | hk
      · obtain ⟨p, hp⟩ := hbefore _ hk
        cases hp
      · simp at hk
    · obtain ⟨e', he', hitem⟩ := h.only k hk
      exact ⟨e', mem_cons_of_mem _ he', hitem⟩
  · intro e' he' q hconn hans
    rcases mem_cons.mp he' with rfl | htail
    · exact absurd hans (hX q hconn)
    · obtain ⟨hback, hwrote, hdone⟩ := h.reaches e' htail q (hmid ▸ hconn)
        fun x hx => hans x (htrail hx)
      refine ⟨fun hmem => ?_, mem_append_right _ hwrote, mem_append_right _ hdone⟩
      rcases mem_cons.mp hmem with rfl | hmem
      · exact he htail
      · exact hback hmem

end Serve

variable {es : List Numbered}

/-- The loop over the entries that `DrainRetries` returned, with what is before
and after them in the queue. -/
theorem alone_redelivers {A B : List Numbered}
    (h : (gateway cfg).Alone s (es.map fun e => .back (.redeliver e)) trail s' seen)
    (hq : Holds s.store.retries (A ++ B)) (htime : InTime (A ++ es ++ B))
    (hprinted : ∀ e ∈ es, e.pending.enqueuedAt < 10 ^ 20)
    (hstored : ∀ e ∈ es, e.pending.json = e.pending) :
    ∃ back, Served s es trail s' seen back ∧ Holds s'.store.retries (A ++ back ++ B) := by
  induction es generalizing s A trail seen with
  | nil =>
    cases h with
    | done =>
      refine ⟨[], ⟨List.Sublist.refl _, rfl, rfl, by simp, by simp⟩, ?_⟩
      rw [append_nil]
      exact hq
  | cons e es ih =>
    obtain ⟨mid, trail', o₁, o₂, hturn, hX⟩ := alone_redeliver h
    have hrest : ∀ e' ∈ es, e'.pending.json = e'.pending := fun e' h' =>
      hstored e' (mem_cons_of_mem _ h')
    have hrest' : ∀ e' ∈ es, e'.pending.enqueuedAt < 10 ^ 20 := fun e' h' =>
      hprinted e' (mem_cons_of_mem _ h')
    have hnotin : e ∉ es := by
      have hnd := htime.nodup
      rw [append_assoc] at hnd
      have hmid := (nodup_append.mp hnd).2.1
      exact fun hmem => (nodup_cons.mp hmid).1 (mem_append_left _ hmem)
    rw [hturn.seen]
    cases hturn.outcome with
    | delivered p =>
      have htime' : InTime (A ++ es ++ B) := by
        refine htime.sublist ?_
        exact ((List.Sublist.refl A).append (sublist_cons_self e es)).append
          (List.Sublist.refl B)
      obtain ⟨back, hserved, hholds⟩ := ih hturn.run hq htime' hrest' hrest
      exact ⟨back, hserved.delivered hnotin hturn.trail fun q hconn hans => (hX q hconn hans).2,
        hholds⟩
    | putBack now hwrote =>
      have htime' : InTime (A ++ [e] ++ es ++ B) := by simpa [append_assoc] using htime
      have hplace : InTime (A ++ e :: B) := by
        refine htime.sublist ?_
        rw [append_assoc]
        refine (List.Sublist.refl A).append ?_
        exact (sublist_append_right es B).cons_cons e
      have hq' : Holds (putBack s now e).store.retries (A ++ [e] ++ B) := by
        rw [append_assoc]
        exact hq.insert hplace (hprinted e mem_cons_self) (hstored e mem_cons_self) _
      obtain ⟨back, hserved, hholds⟩ := ih hturn.run hq' htime' hrest' hrest
      refine ⟨e :: back, hserved.putBack rfl hnotin hturn.trail hwrote fun q hconn hans => ?_, ?_⟩
      · -- a connected engine that answers gets its entry, so it is not put back
        obtain ⟨-, hseen⟩ := hX q hconn hans
        have hlast := congrArg getLast? hseen
        simp [delivered] at hlast
      · simpa [append_assoc] using hholds

/-- What a call reads from the clock: all entries are older, and the reading
can be printed. -/
def clockOf : Action × Input → Option Input
  | (.back .drainRetries, i) => some i
  | _ => none

/-- The clock of a call is past the time of every entry. -/
def Timely (es : List Numbered) (trail : List (Action × Input)) : Prop :=
  ∀ i ∈ trail.filterMap clockOf, i.now < 10 ^ 20 ∧ ∀ e ∈ es, e.pending.enqueuedAt < i.now

instance (es : List Numbered) (trail : List (Action × Input)) : Decidable (Timely es trail) :=
  inferInstanceAs (Decidable (∀ i ∈ _, _))

/-- The entry is not older than `maxAge` at a call. -/
def NotStale (cfg : RouterConfig) (e : Numbered) (trail : List (Action × Input)) : Prop :=
  ∀ i ∈ trail.filterMap clockOf, ¬ Stale i.later cfg.maxRetryAge e.pending

instance (cfg : RouterConfig) (e : Numbered) (trail : List (Action × Input)) :
    Decidable (NotStale cfg e trail) :=
  inferInstanceAs (Decidable (∀ i ∈ _, _))

/-- How many entries a call takes. -/
def drainLimit (cfg : RouterConfig) : ℕ := cfg.retryLimit.toNat

/-- All entries are below the key that bounds the drain. -/
theorem retriesTaken_eq (cfg : RouterConfig) {m : SortedMap Bytes Numbered} (hq : Holds m es)
    {now : Time} (hnow : now < 10 ^ 20) (hold : ∀ e ∈ es, e.pending.enqueuedAt < now) :
    retriesTaken now cfg.retryLimit m = m.entries.take (drainLimit cfg) := by
  have hall : (m.entries.takeWhile fun x => x.1 < retryKey now []) = m.entries := by
    refine takeWhile_eq_self_iff.mpr fun x hx => decide_eq_true ?_
    obtain ⟨id, hid⟩ := hq.keyed x hx
    have hmem : x.2 ∈ es := hq.values ▸ mem_map.mpr ⟨x, hx, rfl⟩
    rw [hid]
    exact retryKey_lt (hq.printed _ hmem) hnow (hold _ hmem) _ _
  rw [retriesTaken, hall, upTo, if_pos cfg.retryLimit_pos, drainLimit]

/-- What is left when the first entries are taken. -/
theorem Holds.drop {m : SortedMap Bytes Numbered} (h : Holds m es) (n : ℕ) :
    Holds (m.dropFirst (m.entries.take n).length) (es.drop n) := by
  have hlen : m.entries.drop (m.entries.take n).length = m.entries.drop n := by
    rw [length_take]
    rcases Nat.le_total n m.entries.length with hle | hle
    · rw [Nat.min_eq_left hle]
    · rw [Nat.min_eq_right hle, drop_length, drop_eq_nil_of_le hle]
  refine ⟨?_, fun x hx => h.keyed x (mem_of_mem_drop hx), fun e he =>
    h.printed e (mem_of_mem_drop he)⟩
  change (m.entries.drop _).map Prod.snd = _
  rw [hlen, ← h.values, SortedMap.values, map_drop]

/-- The drain itself shows neither a delivery nor a put back. -/
theorem drained_quiet (cfg : RouterConfig) (i : Input) (taken : List (Bytes × Numbered)) :
    ∀ o ∈ [Obs.read i.now, .read i.later] ++ taken.map (fun e =>
        if Stale i.later cfg.maxRetryAge e.2.pending then Obs.item e.2.item (.expired i.later)
        else .item e.2.item .drained), isRequeue o = false ∧ ∀ k, o ≠ .item k .delivered := by
  intro o ho
  rcases mem_append.mp ho with ho | ho
  · simp only [mem_cons, not_mem_nil, or_false] at ho
    rcases ho with rfl | rfl <;> simp [isRequeue]
  · obtain ⟨x, -, rfl⟩ := mem_map.mp ho
    split <;> simp [isRequeue]

/-- **A call is a round.** The first entries leave the queue; some of them are
put back in front of the others; of those that are not too old, the ones for a
connected engine that answers are delivered to it. -/
theorem alone_drainRetries (h : (gateway cfg).Alone s [.back .drainRetries] trail s' seen)
    (hq : Holds s.store.retries es) (htime : InTime es)
    (hstored : ∀ e ∈ es, e.pending.json = e.pending) (htimely : Timely es trail) :
    ∃ back, back.Sublist (es.take (drainLimit cfg)) ∧
      Holds s'.store.retries (back ++ es.drop (drainLimit cfg)) ∧ s'.server = s.server ∧
      seen.countP isRequeue = back.length ∧
      (∀ k, .item k .delivered ∈ seen → ∃ e ∈ es.take (drainLimit cfg), e.item = k) ∧
      ∀ e ∈ es.take (drainLimit cfg), NotStale cfg e trail →
        ∀ p, Connected s.server e.pending.targetConnID p → Answers e.pending.targetConnID trail →
          e ∉ back ∧ .wrote p e.item e.pending.pduBody ∈ seen ∧ .item e.item .delivered ∈ seen := by
  cases h with
  | @step _ _ _ i r _ trail seen hexec hrest =>
    cases hexec
    obtain ⟨hnow, hold⟩ := htimely i (by simp [clockOf])
    have htaken := retriesTaken_eq cfg hq hnow hold
    simp only [htaken, append_nil] at hrest ⊢
    -- what is not too old, as entries of the list
    obtain ⟨fresh, hfresh⟩ : ∃ fresh, fresh = (es.take (drainLimit cfg)).filter
        (fun e => ¬ Stale i.later cfg.maxRetryAge e.pending) := ⟨_, rfl⟩
    have hnext : (((s.store.retries.entries.take (drainLimit cfg)).filter
        fun e => ¬ Stale i.later cfg.maxRetryAge e.2.pending).map
          fun e => Action.back (.redeliver e.2)) = fresh.map fun e => .back (.redeliver e) := by
      rw [hfresh, ← hq.values, SortedMap.values, ← map_take, filter_map, map_map]
      rfl
    have hsub : fresh.Sublist (es.take (drainLimit cfg)) := hfresh ▸ filter_sublist
    have hsubset : ∀ e ∈ fresh, e ∈ es := fun e he => mem_of_mem_take (hsub.subset he)
    have horder : InTime ([] ++ fresh ++ es.drop (drainLimit cfg)) := by
      refine htime.sublist ?_
      have happ := hsub.append (List.Sublist.refl (es.drop (drainLimit cfg)))
      rwa [take_append_drop] at happ
    rw [hnext] at hrest
    obtain ⟨back, hserved, hholds⟩ := alone_redelivers hrest (hq.drop (drainLimit cfg)) horder
      (fun e he => hq.printed e (hsubset e he)) fun e he => hstored e (hsubset e he)
    have hquiet := drained_quiet cfg i (s.store.retries.entries.take (drainLimit cfg))
    refine ⟨back, hserved.sublist.trans hsub, hholds, hserved.server, ?_, ?_, ?_⟩
    · rw [countP_append, hserved.count, countP_eq_zero.mpr, Nat.zero_add]
      exact fun o ho => by simp [(hquiet o ho).1]
    · intro k hk
      rcases mem_append.mp hk with hk | hk
      · exact absurd rfl ((hquiet _ hk).2 k)
      · obtain ⟨e, he, hitem⟩ := hserved.only k hk
        exact ⟨e, hsub.subset he, hitem⟩
    · intro e he hns p hconn hans
      have hmem : e ∈ fresh := by
        rw [hfresh]
        exact mem_filter.mpr ⟨he, by simpa using hns i (by simp [clockOf])⟩
      obtain ⟨hback, hwrote, hdone⟩ := hserved.reaches e hmem p hconn
        fun x hx => hans x (mem_cons_of_mem _ hx)
      exact ⟨hback, mem_append_right _ hwrote, mem_append_right _ hdone⟩

/-! ## Consecutive calls -/

/-- Calls of `drainRetries` one after the other, with nothing in between. -/
inductive Calls (cfg : RouterConfig) :
    Gateway → List (List (Action × Input) × List Obs) → Gateway → Prop
  | done {s : Gateway} : Calls cfg s [] s
  | call {s mid s' : Gateway} {trail : List (Action × Input)} {seen : List Obs}
      {calls : List (List (Action × Input) × List Obs)} :
      (gateway cfg).Alone s [.back .drainRetries] trail mid seen → Calls cfg mid calls s' →
      Calls cfg s ((trail, seen) :: calls) s'

/-- How many entries the calls put back. -/
def putBacks (calls : List (List (Action × Input) × List Obs)) : ℕ :=
  (calls.map fun x => x.2.countP isRequeue).sum

/-- The entry is delivered to a session in one of the calls. -/
def DeliveredIn (calls : List (List (Action × Input) × List Obs)) (p : ℕ) (e : Numbered) : Prop :=
  ∃ x ∈ calls, .wrote p e.item e.pending.pduBody ∈ x.2 ∧ .item e.item .delivered ∈ x.2
  deriving Decidable

/-- **Calls are rounds**, and an entry for a connected engine that answers is
delivered to it in the call that takes it, and in no other. -/
theorem calls_rounds {calls : List (List (Action × Input) × List Obs)} (h : Calls cfg s calls s')
    (hq : Holds s.store.retries es) (htime : InTime es)
    (hstored : ∀ e ∈ es, e.pending.json = e.pending) (htimely : ∀ x ∈ calls, Timely es x.1)
    {e : Numbered} (hitem : ∀ e' ∈ es, e'.item = e.item → e' = e)
    (hns : ∀ x ∈ calls, NotStale cfg e x.1) {p : ℕ}
    (hconn : Connected s.server e.pending.targetConnID p)
    (hans : ∀ x ∈ calls, Answers e.pending.targetConnID x.1) :
    ∃ backs es', Rounds (drainLimit cfg) es backs es' ∧ s'.store.retries.values = es' ∧
      (∀ back ∈ backs, e ∉ back) ∧ backs.length = calls.length ∧
      Rounds.putBack backs.dropLast = putBacks calls.dropLast ∧
      (DeliveredIn calls p e ↔ e ∈ es ∧ e ∉ es') := by
  induction h generalizing es with
  | done =>
    refine ⟨[], es, .done, hq.values, by simp, rfl, rfl, ?_⟩
    simp [DeliveredIn]
  | @call s mid s' trail seen calls hcall hrest ih =>
    obtain ⟨back, hsub, hholds, hserver, hcount, honly, hreach⟩ :=
      alone_drainRetries hcall hq htime hstored (htimely _ mem_cons_self)
    have hsplit : (back ++ es.drop (drainLimit cfg)).Sublist es := by
      have happ := hsub.append (List.Sublist.refl (es.drop (drainLimit cfg)))
      rwa [take_append_drop] at happ
    have hin : ∀ e' ∈ back ++ es.drop (drainLimit cfg), e' ∈ es := fun e' h => hsplit.subset h
    obtain ⟨backs, es', hrounds, hvalues, hnever, hlen, hput, hiff⟩ := ih hholds
      (htime.sublist hsplit) (fun e' h => hstored e' (hin e' h))
      (fun x hx i hi => ⟨(htimely x (mem_cons_of_mem _ hx) i hi).1, fun e' he' =>
        (htimely x (mem_cons_of_mem _ hx) i hi).2 e' (hin e' he')⟩)
      (fun e' h => hitem e' (hin e' h)) (fun x hx => hns x (mem_cons_of_mem _ hx))
      (hserver ▸ hconn) (fun x hx => hans x (mem_cons_of_mem _ hx))
    have htaken : e ∈ es.take (drainLimit cfg) → e ∉ back ∧
        .wrote p e.item e.pending.pduBody ∈ seen ∧ .item e.item .delivered ∈ seen := fun he =>
      hreach e he (hns _ mem_cons_self) p hconn (hans _ mem_cons_self)
    have hback : e ∉ back := fun hmem => (htaken (hsub.subset hmem)).1 hmem
    have hgone : e ∈ es.take (drainLimit cfg) → e ∉ es' := by
      intro he hmem
      rcases mem_append.mp (hrounds.sublist.subset hmem) with h | h
      · exact hback h
      · have hnd := htime.nodup
        rw [← take_append_drop (drainLimit cfg) es] at hnd
        exact (nodup_append.mp hnd).2.2 e he e h rfl
    refine ⟨back :: backs, es', .round hsub hrounds, hvalues, ?_, by simp [hlen], ?_, ?_⟩
    · intro b hb
      rcases mem_cons.mp hb with rfl | hb
      · exact hback
      · exact hnever b hb
    · cases calls with
      | nil =>
        obtain rfl := length_eq_zero_iff.mp hlen
        rfl
      | cons x calls =>
        cases backs with
        | nil => cases hlen
        | cons b backs =>
          rw [dropLast_cons_cons, dropLast_cons_cons, Rounds.putBack_cons, hput,
            putBacks, putBacks, map_cons, sum_cons, hcount]
    · constructor
      · rintro ⟨x, hx, hwrote, hdone⟩
        rcases mem_cons.mp hx with rfl | hx
        · obtain ⟨e', he', hk⟩ := honly _ hdone
          obtain rfl := hitem e' (mem_of_mem_take he') hk
          exact ⟨mem_of_mem_take he', hgone he'⟩
        · obtain ⟨hmem, hout⟩ := hiff.mp ⟨x, hx, hwrote, hdone⟩
          exact ⟨hin e hmem, hout⟩
      · rintro ⟨hmem, hout⟩
        rw [← take_append_drop (drainLimit cfg) es] at hmem
        rcases mem_append.mp hmem with h | h
        · obtain ⟨-, hwrote, hdone⟩ := htaken h
          exact ⟨_, mem_cons_self, hwrote, hdone⟩
        · obtain ⟨x, hx, hsent⟩ := hiff.mpr ⟨mem_append_right _ h, hout⟩
          exact ⟨x, mem_cons_of_mem _ hx, hsent⟩

/-- **When an entry is delivered.** An entry for an engine that stays connected
and answers, with `j` older entries ahead of it, has been delivered by
consecutive calls of `drainRetries` exactly when `j`, together with the number
of entries that all calls but the last have put back, is below the number of
places the calls have; otherwise it is still in the queue. -/
theorem delivered_within_iff (cfg : RouterConfig) {s s' : Gateway}
    {calls : List (List (Action × Input) × List Obs)} (h : Calls cfg s calls s')
    {es : List Numbered} (hq : Holds s.store.retries es)
    (htimes : (es.map fun e => e.pending.enqueuedAt).Nodup) (hitems : (es.map Numbered.item).Nodup)
    (hstored : ∀ e ∈ es, e.pending.json = e.pending) (htimely : ∀ x ∈ calls, Timely es x.1)
    {X : Bytes} {p : ℕ} (hconn : Connected s.server X p) (hans : ∀ x ∈ calls, Answers X x.1)
    {j : ℕ} {e : Numbered} (he : es[j]? = some e) (htarget : e.pending.targetConnID = X)
    (hns : ∀ x ∈ calls, NotStale cfg e x.1) :
    (DeliveredIn calls p e ↔ j + putBacks calls.dropLast < calls.length * drainLimit cfg) ∧
      (e ∈ s'.store.retries.values ↔ ¬ DeliveredIn calls p e) := by
  subst htarget
  have hmem : e ∈ es := mem_of_getElem? he
  have htime := hq.inTime htimes
  have hitem : ∀ e' ∈ es, e'.item = e.item → e' = e := fun e' he' hk =>
    inj_on_of_nodup_map hitems he' hmem hk
  obtain ⟨backs, es', hrounds, hvalues, hnever, hlen, hput, hiff⟩ :=
    calls_rounds h hq htime hstored htimely hitem hns hconn hans
  have hleft := hrounds.left_iff htime.nodup he hnever
  have hout : DeliveredIn calls p e ↔ e ∉ es' := hiff.trans (and_iff_right hmem)
  refine ⟨?_, ?_⟩
  · rw [hout, hleft, hput, hlen]
  · rw [hvalues, hout, not_not]

/-- Make calls on the given inputs, one list for each call. -/
def drainCalls (cfg : RouterConfig) : List (List Input) → Gateway →
    Option (List (List (Action × Input) × List Obs) × Gateway)
  | [], s => some ([], s)
  | inputs :: more, s => ((gateway cfg).alone inputs s [.back .drainRetries]).bind fun x =>
    (drainCalls cfg more x.2.1).map fun y => ((x.1, x.2.2) :: y.1, y.2)

theorem calls_of_drainCalls (cfg : RouterConfig) (inputs : List (List Input)) (s : Gateway)
    (h : (drainCalls cfg inputs s).isSome = true) :
    Calls cfg s ((drainCalls cfg inputs s).getD ([], s)).1
      ((drainCalls cfg inputs s).getD ([], s)).2 := by
  obtain ⟨x, hx⟩ := Option.isSome_iff_exists.mp h
  rw [hx, Option.getD_some]
  clear h
  induction inputs generalizing s x with
  | nil =>
    cases hx
    exact .done
  | cons input inputs ih =>
    obtain ⟨y, hy, hrest⟩ := Option.bind_eq_some_iff.mp hx
    obtain ⟨z, hz, rfl⟩ := Option.map_eq_some_iff.mp hrest
    exact .call (Program.alone_sound hy) (ih _ z hz)

/-! ### An engine that stays away -/

/-- An older receipt for an engine that is not connected. -/
def olderWaiting : Numbered :=
  ⟨0, ⟨ascii "gone", ascii "200", ascii "a", 0x04, ascii "200", ascii "100", 1⟩⟩

/-- A younger one for an engine that is. -/
def youngerWaiting : Numbered :=
  ⟨1, ⟨engineID, ascii "200", ascii "b", 0x04, ascii "200", ascii "100", 2⟩⟩

/-- A gateway with the two receipts in its retry queue. -/
def twoWaiting : Gateway :=
  { Gateway.start with
    server := Server.empty.accept.onBind 0 engineID none
    store := (MessageStore.empty.enqueueRetry (ascii "GW-1") 0 olderWaiting.pending).enqueueRetry
      (ascii "GW-2") 1 youngerWaiting.pending }

theorem twoWaiting_holds : Holds twoWaiting.store.retries [olderWaiting, youngerWaiting] := by
  have hempty : Holds (SortedMap.empty : SortedMap Bytes Numbered) ([] ++ []) :=
    ⟨rfl, nofun, nofun⟩
  have hone := hempty.insert (e := olderWaiting) (by simp [InTime]) (by decide) (by decide)
    (ascii "GW-1")
  exact Holds.insert (A := [olderWaiting]) (B := []) (e := youngerWaiting) hone
    (by simp [InTime, olderWaiting, youngerWaiting]) (by decide) (by decide) (ascii "GW-2")

theorem twoWaiting_connected : Connected twoWaiting.server engineID 0 :=
  ⟨by decide, by decide, by decide⟩

/-- The configuration with the given limit. -/
def limited (n : ℤ) : RouterConfig := { retryDrainLimit := n }

/-- With two places a single call gets to the second entry. -/
theorem younger_delivered :
    ∃ calls s', Calls (limited 2) twoWaiting calls s' ∧ calls.length = 1 ∧
      DeliveredIn calls 0 youngerWaiting := by
  have hcalls := calls_of_drainCalls (limited 2)
    [[{ now := 10, later := 10 }, {}, { now := 11 }, {}, {}, {}, {}]] twoWaiting (by decide)
  refine ⟨_, _, hcalls, by decide, ?_⟩
  exact (delivered_within_iff (limited 2) hcalls twoWaiting_holds (by decide) (by decide) (by decide)
    (by decide) twoWaiting_connected (by decide) (j := 1) rfl rfl (by decide)).1.mpr (by decide)

/-- With one place, two calls for two entries are not enough: the older one
comes back to the front each time, and the engine that is connected does not
get its receipt. -/
theorem younger_waits :
    ∃ calls s', Calls (limited 1) twoWaiting calls s' ∧
      Holds twoWaiting.store.retries [olderWaiting, youngerWaiting] ∧
      Connected twoWaiting.server engineID 0 ∧
      drainLimit (limited 1) = 1 ∧ calls.length = 2 ∧ (∀ x ∈ calls, Answers engineID x.1) ∧
      (∀ x ∈ calls, Timely [olderWaiting, youngerWaiting] x.1) ∧
      youngerWaiting.pending.targetConnID = engineID ∧
      (∀ x ∈ calls, NotStale (limited 1) youngerWaiting x.1) ∧
      ¬ DeliveredIn calls 0 youngerWaiting := by
  have hcalls := calls_of_drainCalls (limited 1) [[{ now := 10, later := 10 }, {}, { now := 11 }],
    [{ now := 20, later := 20 }, {}, { now := 21 }]] twoWaiting (by decide)
  exact ⟨_, _, hcalls, twoWaiting_holds, twoWaiting_connected, by decide, by decide, by decide,
    by decide, rfl, by decide, by decide⟩

end ReturnPath

end SmscGateway
