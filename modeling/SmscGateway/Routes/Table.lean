import Mathlib
import SmscGateway.Common.Bytes
import SmscGateway.Common.SortSlice

/-!
# The MT route table

`MTRouteTable` keeps its routes in a slice sorted by the length of the prefix,
with `"*"` last, and `Resolve` takes the first route that matches. This file
shows that the first match is the longest one whatever calls filled the table:
the slice always holds one route for each live prefix, the last one added
(`represents_table`), in an order in which no match stands before a longer one.

`sort.Slice` is any `SortSlice`, and pool health is what the `PoolManager`
answers at the time of the call.
-/

namespace SmscGateway

open List Function

namespace Routes

/-- `RoutePool`. A cost comes from a JSON number, which is finite. -/
structure RoutePool where
  name : Bytes
  cost : ℚ := 0
deriving DecidableEq

/-- `MTRoute`. -/
structure MTRoute where
  msisdnPrefix : Bytes
  strategy : Bytes
  pools : List RoutePool
  rrIndex : UInt64 := 0
deriving DecidableEq

/-- The route as it was configured: all but the round-robin counter. -/
def MTRoute.definition (r : MTRoute) : MTRoute := { r with rrIndex := 0 }

@[simp] theorem MTRoute.definition_msisdnPrefix (r : MTRoute) :
    r.definition.msisdnPrefix = r.msisdnPrefix := rfl

@[simp] theorem MTRoute.definition_definition (r : MTRoute) :
    r.definition.definition = r.definition := rfl

/-- The prefix of the default route. -/
def star : Bytes := ascii "*"

/-- What `Health` and `GetSubmitter` answer for a pool name; a submitter is known
by a number. -/
structure PoolView where
  healthy : Bytes → Bool
  getSubmitter : Bytes → Option ℕ

/-- The errors of `applyStrategy`; an index outside the slice is a panic. -/
inductive StrategyError where
  | unknownStrategy (strategy : Bytes)
  | noHealthyFailover
  | noPoolsRoundRobin
  | noHealthyRoundRobin
  | noHealthyLeastCost
  | indexOutOfRange (index : ℤ)
deriving DecidableEq

/-- The errors of `Resolve`. -/
inductive ResolveError where
  | noRoute (msisdn : Bytes)
  | matched (msisdnPrefix : Bytes) (err : StrategyError)
deriving DecidableEq

/-! ## Strategies -/

/-- The pool's submitter, if the pool is healthy and has one. -/
def PoolView.usable (pm : PoolView) (rp : RoutePool) : Option (ℕ × Bytes) :=
  if pm.healthy rp.name then (pm.getSubmitter rp.name).map fun sub => (sub, rp.name) else none

/-- The loop of `resolveFailover` and of `resolveLeastCost`. -/
def firstUsable (pm : PoolView) : List RoutePool → Option (ℕ × Bytes)
  | [] => none
  | rp :: l => (pm.usable rp).or (firstUsable pm l)

/-- `resolveFailover`. -/
def resolveFailover (route : MTRoute) (pm : PoolView) : Except StrategyError (ℕ × Bytes) :=
  match firstUsable pm route.pools with
  | some found => .ok found
  | none => .error .noHealthyFailover

/-- The loop of `resolveRoundRobin` from `i` on, with `left` rounds to go. The sum
is that of Go's `int`, and `%` truncates, so that the index can be negative. -/
def roundRobinFrom (pools : List RoutePool) (pm : PoolView) (idx : ℤ) (i : ℕ) :
    ℕ → Except StrategyError (ℕ × Bytes)
  | 0 => .error .noHealthyRoundRobin
  | left + 1 =>
    let k := ((idx + i).bmod (2 ^ 64)).tmod pools.length
    if k < 0 then .error (.indexOutOfRange k)
    else
      match pools[k.toNat]? with
      | none => .error (.indexOutOfRange k)
      | some candidate =>
        match pm.usable candidate with
        | some found => .ok found
        | none => roundRobinFrom pools pm idx (i + 1) left

/-- `resolveRoundRobin`: the counter moves whenever there is a pool. -/
def resolveRoundRobin (route : MTRoute) (pm : PoolView) :
    Except StrategyError (ℕ × Bytes) × MTRoute :=
  if route.pools.length = 0 then (.error .noPoolsRoundRobin, route)
  else
    (roundRobinFrom route.pools pm ((route.rrIndex.toNat : ℤ).bmod (2 ^ 64)) 0 route.pools.length,
      { route with rrIndex := route.rrIndex + 1 })

/-- `resolveLeastCost`. -/
def resolveLeastCost (S : SortSlice) (route : MTRoute) (pm : PoolView) :
    Except StrategyError (ℕ × Bytes) :=
  match firstUsable pm (S.sort (fun a b => a.cost < b.cost) route.pools) with
  | some found => .ok found
  | none => .error .noHealthyLeastCost

/-- `applyStrategy`, with the route as it leaves it. -/
def applyStrategy (S : SortSlice) (route : MTRoute) (pm : PoolView) :
    Except StrategyError (ℕ × Bytes) × MTRoute :=
  if route.strategy = ascii "failover" then (resolveFailover route pm, route)
  else if route.strategy = ascii "round_robin" then resolveRoundRobin route pm
  else if route.strategy = ascii "least_cost" then (resolveLeastCost S route pm, route)
  else (.error (.unknownStrategy route.strategy), route)

/-- A strategy moves the counter and nothing else. -/
theorem definition_applyStrategy (S : SortSlice) (route : MTRoute) (pm : PoolView) :
    (applyStrategy S route pm).2.definition = route.definition := by
  unfold applyStrategy resolveRoundRobin
  split_ifs <;> rfl

/-! ## The table -/

/-- The routes in evaluation order. -/
abbrev MTRouteTable := List MTRoute

/-- The match `Resolve` looks for. -/
def MTRoute.covers (r : MTRoute) (msisdn : Bytes) : Bool :=
  r.msisdnPrefix = star || r.msisdnPrefix.isPrefixOf msisdn

/-- `Resolve`, with the table as it leaves it. -/
def MTRouteTable.resolve (S : SortSlice) (msisdn : Bytes) (pm : PoolView) :
    MTRouteTable → Except ResolveError (ℕ × Bytes) × MTRouteTable
  | [] => (.error (.noRoute msisdn), [])
  | route :: t =>
    if route.covers msisdn then
      ((applyStrategy S route pm).1.mapError (.matched route.msisdnPrefix),
        (applyStrategy S route pm).2 :: t)
    else
      ((resolve S msisdn pm t).1, route :: (resolve S msisdn pm t).2)

/-- `removeByPrefixLocked`, which is `RemoveRoute`: whether there was such a route
is the caller's to ignore. -/
def MTRouteTable.removeRoute (t : MTRouteTable) (p : Bytes) : Bool × MTRouteTable :=
  (t.any fun r => r.msisdnPrefix = p, t.eraseP fun r => r.msisdnPrefix = p)

/-- The comparison `AddRoute` sorts with. -/
def mtLess (a b : MTRoute) : Bool :=
  if a.msisdnPrefix = star then false
  else if b.msisdnPrefix = star then true
  else a.msisdnPrefix.length > b.msisdnPrefix.length

/-- `AddRoute`. -/
def MTRouteTable.addRoute (S : SortSlice) (t : MTRouteTable) (route : MTRoute) : MTRouteTable :=
  S.sort mtLess ((t.removeRoute route.msisdnPrefix).2 ++ [route])

/-- A call of the table. -/
inductive TableOp where
  | add (route : MTRoute)
  | remove (p : Bytes)
  | resolve (msisdn : Bytes) (pm : PoolView)

/-- One call. -/
def MTRouteTable.apply (S : SortSlice) (t : MTRouteTable) : TableOp → MTRouteTable
  | .add route => t.addRoute S route
  | .remove p => (t.removeRoute p).2
  | .resolve msisdn pm => (t.resolve S msisdn pm).2

/-- The table after some calls, from an empty one. -/
def tableAfter (S : SortSlice) (ops : List TableOp) : MTRouteTable :=
  ops.foldl (MTRouteTable.apply S) []

/-! ## What the table stands for -/

/-- The routes that were last added under their prefix and not removed since. -/
abbrev Live := Bytes → Option MTRoute

/-- What a call does to the live routes. -/
def Live.apply (live : Live) : TableOp → Live
  | .add route => Function.update live route.msisdnPrefix (some route.definition)
  | .remove p => Function.update live p none
  | .resolve _ _ => live

/-- The live routes after some calls. -/
def liveAfter (ops : List TableOp) : Live := ops.foldl Live.apply fun _ => none

/-- The route an MSISDN is to take: the live one with the longest prefix of the
MSISDN, the default route if there is none, no route if there is no default either. -/
def IsBest (live : Live) (msisdn : Bytes) : Option MTRoute → Prop
  | some r => live r.msisdnPrefix = some r ∧
      ((r.msisdnPrefix ≠ star ∧ r.msisdnPrefix <+: msisdn ∧
          ∀ p, p ≠ star → p <+: msisdn → live p ≠ none → p.length ≤ r.msisdnPrefix.length) ∨
        (r.msisdnPrefix = star ∧ ∀ p, p ≠ star → p <+: msisdn → live p = none))
  | none => live star = none ∧ ∀ p, p ≠ star → p <+: msisdn → live p = none

/-- What the table sorts by. -/
def MTRoute.rank (r : MTRoute) : ℤ :=
  if r.msisdnPrefix = star then -1 else r.msisdnPrefix.length

theorem mtLess_iff (a b : MTRoute) : mtLess a b = true ↔ b.rank < a.rank := by
  unfold mtLess MTRoute.rank
  split_ifs
  all_goals simp
  all_goals omega

/-- **A table stands for its live routes**: one route for each live prefix, and no
route before one of a longer prefix. -/
structure Represents (t : MTRouteTable) (live : Live) : Prop where
  unique : (t.map MTRoute.msisdnPrefix).Nodup
  ordered : t.Pairwise fun a b => b.rank ≤ a.rank
  holds : ∀ p d, live p = some d ↔ d ∈ t.map MTRoute.definition ∧ d.msisdnPrefix = p

variable {S : SortSlice} {t : MTRouteTable} {live : Live}

/-! ## The calls -/

theorem Represents.removeRoute_eq (h : Represents t live) (p : Bytes) :
    (t.removeRoute p).2 = t.filter fun r => r.msisdnPrefix ≠ p :=
  eraseP_eq_filter h.unique p

/-- A prefix is gone once it is removed. -/
theorem Represents.mem_removeRoute (h : Represents t live) (p : Bytes) (d : MTRoute) :
    d ∈ (t.removeRoute p).2.map MTRoute.definition ↔
      d ∈ t.map MTRoute.definition ∧ d.msisdnPrefix ≠ p := by
  rw [h.removeRoute_eq]
  constructor
  · intro hd
    obtain ⟨r, hr, rfl⟩ := mem_map.mp hd
    obtain ⟨hr, hp⟩ := mem_filter.mp hr
    exact ⟨mem_map_of_mem hr, by simpa using hp⟩
  · rintro ⟨hd, hp⟩
    obtain ⟨r, hr, rfl⟩ := mem_map.mp hd
    exact mem_map_of_mem (mem_filter.mpr ⟨hr, by simpa using hp⟩)

theorem Represents.remove (h : Represents t live) (p : Bytes) :
    Represents (t.removeRoute p).2 (live.apply (.remove p)) := by
  have hsub : ((t.removeRoute p).2).Sublist t := eraseP_sublist
  refine ⟨h.unique.sublist (hsub.map _), h.ordered.sublist hsub, fun q d => ?_⟩
  rw [h.mem_removeRoute, Live.apply]
  by_cases hq : q = p
  · subst hq
    simp only [update_self, reduceCtorEq, false_iff]
    rintro ⟨⟨-, hne⟩, he⟩
    exact hne he
  · rw [update_of_ne hq, h.holds]
    constructor
    · rintro ⟨hd, rfl⟩
      exact ⟨⟨hd, hq⟩, rfl⟩
    · rintro ⟨⟨hd, -⟩, he⟩
      exact ⟨hd, he⟩

theorem Represents.add (h : Represents t live) (route : MTRoute) :
    Represents (t.addRoute S route) (live.apply (.add route)) := by
  have hperm : (t.addRoute S route).Perm ((t.removeRoute route.msisdnPrefix).2 ++ [route]) :=
    S.perm _ _
  have hrest := h.remove route.msisdnPrefix
  -- the new prefix was just taken out
  have hfresh : route.msisdnPrefix ∉ (t.removeRoute route.msisdnPrefix).2.map MTRoute.msisdnPrefix := by
    intro hmem
    obtain ⟨r, hr, he⟩ := mem_map.mp hmem
    exact ((h.mem_removeRoute _ _).mp (mem_map_of_mem hr)).2 he
  refine ⟨?_, ?_, fun q d => ?_⟩
  · rw [(hperm.map _).nodup_iff, map_append, nodup_append_comm]
    exact nodup_cons.mpr ⟨hfresh, hrest.unique⟩
  · refine (S.ordered (StrictWeak.of_key MTRoute.rank mtLess_iff) _).imp fun {a b} hab => ?_
    rw [← Bool.not_eq_true, mtLess_iff] at hab
    exact not_lt.mp hab
  · rw [(hperm.map _).mem_iff, map_append, mem_append, h.mem_removeRoute, Live.apply]
    simp only [map_cons, map_nil, mem_singleton]
    by_cases hq : q = route.msisdnPrefix
    · subst hq
      rw [update_self, Option.some_inj]
      constructor
      · rintro rfl
        exact ⟨.inr rfl, rfl⟩
      · rintro ⟨⟨-, hne⟩ | rfl, he⟩
        · exact absurd he hne
        · rfl
    · rw [update_of_ne hq, h.holds]
      constructor
      · rintro ⟨hd, rfl⟩
        exact ⟨.inl ⟨hd, hq⟩, rfl⟩
      · rintro ⟨⟨hd, -⟩ | rfl, he⟩
        · exact ⟨hd, he⟩
        · exact absurd he.symm hq

/-- Resolving leaves the configured routes as they are. -/
theorem definition_resolve (S : SortSlice) (t : MTRouteTable) (msisdn : Bytes) (pm : PoolView) :
    (t.resolve S msisdn pm).2.map MTRoute.definition = t.map MTRoute.definition := by
  induction t with
  | nil => rfl
  | cons r t ih =>
    rw [MTRouteTable.resolve]
    split_ifs
    · simp [definition_applyStrategy]
    · simp [ih]

/-- A table is known by its configured routes. -/
theorem Represents.of_definition {t' : MTRouteTable} (h : Represents t live)
    (hd : t'.map MTRoute.definition = t.map MTRoute.definition) : Represents t' live := by
  have hkeys : ∀ u : MTRouteTable, u.map MTRoute.msisdnPrefix =
      (u.map MTRoute.definition).map MTRoute.msisdnPrefix := fun u => by simp [comp_def]
  have hranks : ∀ u : MTRouteTable, (u.Pairwise fun a b => b.rank ≤ a.rank) ↔
      (u.map MTRoute.definition).Pairwise fun a b => b.rank ≤ a.rank := fun u => by
    rw [pairwise_map]
    rfl
  refine ⟨?_, ?_, fun p d => ?_⟩
  · rw [hkeys, hd, ← hkeys]
    exact h.unique
  · rw [hranks, hd, ← hranks]
    exact h.ordered
  · rw [h.holds, hd]

/-- **Every call keeps the table and its live routes together.** -/
theorem Represents.apply (h : Represents t live) (op : TableOp) :
    Represents (t.apply S op) (live.apply op) := by
  cases op with
  | add route => exact h.add route
  | remove p => exact h.remove p
  | resolve msisdn pm => exact h.of_definition (definition_resolve S t msisdn pm)

/-- **After any calls the table stands for its live routes.** -/
theorem represents_table (S : SortSlice) (ops : List TableOp) :
    Represents (tableAfter S ops) (liveAfter ops) := by
  have hrun : ∀ (ops : List TableOp) (t : MTRouteTable) (live : Live), Represents t live →
      Represents (ops.foldl (MTRouteTable.apply S) t) (ops.foldl Live.apply live) := by
    intro ops
    induction ops with
    | nil => exact fun t live h => h
    | cons op ops ih => exact fun t live h => ih _ _ (h.apply op)
  refine hrun ops [] _ ⟨nodup_nil, List.Pairwise.nil, fun p d => ?_⟩
  simp

/-! ## The choice -/

/-- The route `Resolve` applies its strategy to. -/
def MTRouteTable.select (t : MTRouteTable) (msisdn : Bytes) : Option MTRoute :=
  t.find? fun r => r.covers msisdn

/-- `Resolve` in terms of the route it finds. -/
theorem resolve_eq (S : SortSlice) (t : MTRouteTable) (msisdn : Bytes) (pm : PoolView) :
    (t.resolve S msisdn pm).1 =
      match t.select msisdn with
      | none => .error (.noRoute msisdn)
      | some r => (applyStrategy S r pm).1.mapError (.matched r.msisdnPrefix) := by
  induction t with
  | nil => rfl
  | cons r t ih =>
    rw [MTRouteTable.resolve, MTRouteTable.select, find?_cons]
    by_cases hr : r.covers msisdn = true
    · simp [hr]
    · simp only [hr, if_false, Bool.false_eq_true]
      exact ih

theorem covers_iff (r : MTRoute) (msisdn : Bytes) :
    r.covers msisdn = true ↔ r.msisdnPrefix = star ∨ r.msisdnPrefix <+: msisdn := by
  simp [MTRoute.covers]

/-- The route of a live prefix that matches stands in the table and is no longer
than the first match. -/
theorem Represents.rank_le (h : Represents t live) {msisdn p : Bytes} {r d : MTRoute}
    (hr : t.select msisdn = some r) (hp : live p = some d) (hcover : p = star ∨ p <+: msisdn) :
    d.rank ≤ r.rank := by
  obtain ⟨hd, rfl⟩ := (h.holds p d).mp hp
  obtain ⟨r', hr', rfl⟩ := mem_map.mp hd
  have hle : r'.rank ≤ r.rank := le_of_find? h.ordered hr hr' ((covers_iff r' msisdn).mpr hcover)
  exact hle

/-- **The first match is the best route.** -/
theorem Represents.isBest (h : Represents t live) (msisdn : Bytes) :
    IsBest live msisdn ((t.select msisdn).map MTRoute.definition) := by
  cases hsel : t.select msisdn with
  | none =>
    have hnone : ∀ p, p = star ∨ p <+: msisdn → live p = none := by
      intro p hcover
      by_contra hp
      obtain ⟨d, hd⟩ := Option.ne_none_iff_exists'.mp hp
      obtain ⟨hmem, rfl⟩ := (h.holds p d).mp hd
      obtain ⟨r, hr, rfl⟩ := mem_map.mp hmem
      exact find?_eq_none.mp hsel r hr ((covers_iff r msisdn).mpr hcover)
    exact ⟨hnone star (.inl rfl), fun p _ hp => hnone p (.inr hp)⟩
  | some r =>
    have hmem : r ∈ t := mem_of_find?_eq_some hsel
    have hfound : r.covers msisdn = true :=
      find?_some (p := fun q : MTRoute => q.covers msisdn) hsel
    have hcover := (covers_iff r msisdn).mp hfound
    refine ⟨(h.holds _ _).mpr ⟨mem_map_of_mem hmem, rfl⟩, ?_⟩
    by_cases hstar : r.msisdnPrefix = star
    · refine .inr ⟨hstar, fun p hp hpre => ?_⟩
      by_contra hlive
      obtain ⟨d, hd⟩ := Option.ne_none_iff_exists'.mp hlive
      -- a route of its own length would stand before the default one
      have hle := h.rank_le hsel hd (.inr hpre)
      obtain ⟨-, rfl⟩ := (h.holds p d).mp hd
      rw [MTRoute.rank, MTRoute.rank, if_neg hp, if_pos hstar] at hle
      omega
    · refine .inl ⟨hstar, hcover.resolve_left hstar, fun p hp hpre hlive => ?_⟩
      obtain ⟨d, hd⟩ := Option.ne_none_iff_exists'.mp hlive
      have hle := h.rank_le hsel hd (.inr hpre)
      obtain ⟨-, rfl⟩ := (h.holds p d).mp hd
      rw [MTRoute.rank, MTRoute.rank, if_neg hp, if_neg hstar] at hle
      simpa using hle

/-- **There is one best route.** -/
theorem IsBest.unique {msisdn : Bytes} {a b : Option MTRoute} (ha : IsBest live msisdn a)
    (hb : IsBest live msisdn b) : a = b := by
  have hne : ∀ {p : Bytes} {d : MTRoute}, live p = some d → live p ≠ none := fun h => by simp [h]
  match a, b with
  | none, none => rfl
  | none, some r =>
    obtain ⟨hlive, ⟨hstar, hpre, -⟩ | ⟨hstar, -⟩⟩ := hb
    · exact absurd (ha.2 _ hstar hpre) (hne hlive)
    · exact absurd (hstar ▸ ha.1) (hne hlive)
  | some r, none =>
    obtain ⟨hlive, ⟨hstar, hpre, -⟩ | ⟨hstar, -⟩⟩ := ha
    · exact absurd (hb.2 _ hstar hpre) (hne hlive)
    · exact absurd (hstar ▸ hb.1) (hne hlive)
  | some r, some q =>
    have hsame : r.msisdnPrefix = q.msisdnPrefix := by
      obtain ⟨hr, ⟨hrs, hrp, hrmax⟩ | ⟨hrs, hrnone⟩⟩ := ha <;>
        obtain ⟨hq, ⟨hqs, hqp, hqmax⟩ | ⟨hqs, hqnone⟩⟩ := hb
      · -- two prefixes of one number, each at least as long as the other
        have hle := hrmax _ hqs hqp (hne hq)
        have hge := hqmax _ hrs hrp (hne hr)
        exact (prefix_of_prefix_length_le hrp hqp hge).eq_of_length (by omega)
      · exact absurd (hqnone _ hrs hrp) (hne hr)
      · exact absurd (hrnone _ hqs hqp) (hne hq)
      · rw [hrs, hqs]
    have hlive := ha.1
    rw [hsame, hb.1] at hlive
    exact hlive.symm

/-- **Longest-prefix routing over any history.** After any calls the table holds one
route for each live prefix, the last one added. `Resolve` applies the strategy of the
one best route of the MSISDN, and reports that there is none exactly when neither a
live prefix matches nor a default route is live. Calls that leave the same routes live
lead to the same choice, wherever the sorts put equal lengths. -/
theorem longest_prefix_routing (S : SortSlice) (ops : List TableOp) :
    ((tableAfter S ops).map MTRoute.msisdnPrefix).Nodup ∧
    (∀ p d, liveAfter ops p = some d ↔
      d ∈ (tableAfter S ops).map MTRoute.definition ∧ d.msisdnPrefix = p) ∧
    ∀ msisdn,
      (∀ choice, IsBest (liveAfter ops) msisdn choice ↔
        choice = ((tableAfter S ops).select msisdn).map MTRoute.definition) ∧
      (∀ pm, ((tableAfter S ops).resolve S msisdn pm).1 =
        match (tableAfter S ops).select msisdn with
        | none => .error (.noRoute msisdn)
        | some r => (applyStrategy S r pm).1.mapError (.matched r.msisdnPrefix)) ∧
      (∀ pm, ((tableAfter S ops).resolve S msisdn pm).1 = .error (.noRoute msisdn) ↔
        liveAfter ops star = none ∧
          ∀ p, p ≠ star → p <+: msisdn → liveAfter ops p = none) ∧
      ∀ (S' : SortSlice) (ops' : List TableOp), liveAfter ops' = liveAfter ops →
        ((tableAfter S' ops').select msisdn).map MTRoute.definition =
          ((tableAfter S ops).select msisdn).map MTRoute.definition := by
  have h := represents_table S ops
  refine ⟨h.unique, h.holds, fun msisdn => ?_⟩
  have hbest := h.isBest msisdn
  refine ⟨fun choice => ⟨fun hc => hc.unique hbest, fun hc => hc ▸ hbest⟩,
    resolve_eq S _ msisdn, fun pm => ?_, fun S' ops' hsame => ?_⟩
  · rw [resolve_eq]
    constructor
    · intro herr
      cases hsel : (tableAfter S ops).select msisdn with
      | none =>
        rw [hsel] at hbest
        exact hbest
      | some r =>
        rw [hsel] at herr
        cases hs : (applyStrategy S r pm).1 <;> simp [hs, Except.mapError] at herr
    · intro hnone
      have heq := IsBest.unique (b := none) hbest hnone
      rw [Option.map_eq_none_iff.mp heq]
  · have hbest' := (represents_table S' ops').isBest msisdn
    rw [hsame] at hbest'
    exact hbest'.unique hbest

end Routes

end SmscGateway
