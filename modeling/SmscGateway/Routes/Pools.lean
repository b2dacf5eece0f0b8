import Mathlib
import SmscGateway.Routes.Table

/-!
# Pools and their selection

A route names pools, and its strategy takes one of them. `Health` and `GetSubmitter`
answer for the `PoolManager`; a pool is usable when it has a submitter and is healthy.
This file shows that every strategy finds a usable pool of the route if there is one
(`pool_selection`): failover the first, `least_cost` one that none undercuts, and
`round_robin` the first at or behind its counter, so that as long as all pools are
usable each has its turn equally often (`round_robin_fair`).

The counter is a `uint64` that is read as an `int`, so all this is for counters that
have not reached `2^63`.
-/

namespace SmscGateway

open List

namespace Routes

/-! ## The pool manager -/

/-- `SouthboundPoolConfig`, the part that names the pool and tells it from others. -/
structure SouthboundPoolConfig where
  name : Bytes
  host : Bytes := []
  port : ℤ := 0
  systemID : Bytes := []
  password : Bytes := []
  sourceAddr : Bytes := []
  connections : ℤ := 0
  windowSize : ℤ := 0
  tlsEnabled : Bool := false
  tlsInsecureSkipVerify : Bool := false
  bindMode : Bytes := []
  interfaceVersion : Bytes := []
deriving DecidableEq

/-- `PoolManager`. A pool and its submitter are known by numbers. -/
structure PoolManager where
  pools : Bytes → Option ℕ := fun _ => none
  submitters : Bytes → Option ℕ := fun _ => none
  configs : Bytes → Option SouthboundPoolConfig := fun _ => none

/-- What submitters and pools report of their connections at the time of a call. -/
structure Runtime where
  isHealthy : ℕ → Bool
  activeConnections : ℕ → ℕ
  poolConnections : ℕ → ℕ

/-- `PoolHealth`. -/
structure PoolHealth where
  name : Bytes
  activeConnections : ℕ := 0
  healthy : Bool
deriving DecidableEq

/-- `GetSubmitter`. -/
def PoolManager.getSubmitter (pm : PoolManager) (name : Bytes) : Option ℕ := pm.submitters name

/-- `Health`: what the submitter says, else what a pool without one has. -/
def PoolManager.health (pm : PoolManager) (rt : Runtime) (name : Bytes) : PoolHealth :=
  match pm.submitters name with
  | some sub => ⟨name, rt.activeConnections sub, rt.isHealthy sub⟩
  | none =>
    match pm.pools name with
    | some p => ⟨name, rt.poolConnections p, 0 < rt.poolConnections p⟩
    | none => ⟨name, 0, false⟩

/-- What the strategies see of it. -/
def PoolManager.view (pm : PoolManager) (rt : Runtime) : PoolView where
  healthy name := (pm.health rt name).healthy
  getSubmitter := pm.getSubmitter

/-- A pool of a route that is registered and healthy, with what a strategy returns for
it. -/
def Serves (pm : PoolManager) (rt : Runtime) (rp : RoutePool) (r : ℕ × Bytes) : Prop :=
  (pm.health rt rp.name).healthy = true ∧ pm.getSubmitter rp.name = some r.1 ∧ r.2 = rp.name

/-- A registered healthy pool. -/
def Usable (pm : PoolManager) (rt : Runtime) (rp : RoutePool) : Prop :=
  (pm.health rt rp.name).healthy = true ∧ pm.getSubmitter rp.name ≠ none

section View

variable {pm : PoolManager} {rt : Runtime} {rp : RoutePool} {r : ℕ × Bytes}

theorem usable_eq_some : (pm.view rt).usable rp = some r ↔ Serves pm rt rp r := by
  rw [PoolView.usable, Serves]
  change (if (pm.health rt rp.name).healthy = true then
    (pm.getSubmitter rp.name).map (fun sub => (sub, rp.name)) else none) = some r ↔ _
  split_ifs with hhealthy
  · rw [Option.map_eq_some_iff]
    constructor
    · rintro ⟨sub, hsub, rfl⟩
      exact ⟨hhealthy, hsub, rfl⟩
    · rintro ⟨-, hsub, hname⟩
      exact ⟨r.1, hsub, Prod.ext rfl hname.symm⟩
  · simp [hhealthy]

theorem usable_iff : Usable pm rt rp ↔ ∃ r, Serves pm rt rp r := by
  constructor
  · rintro ⟨hhealthy, hsub⟩
    obtain ⟨sub, hsub⟩ := Option.ne_none_iff_exists'.mp hsub
    exact ⟨(sub, rp.name), hhealthy, hsub, rfl⟩
  · rintro ⟨r, hhealthy, hsub, -⟩
    exact ⟨hhealthy, by simp [hsub]⟩

theorem usable_eq_none : (pm.view rt).usable rp = none ↔ ¬ Usable pm rt rp := by
  rw [usable_iff, Option.eq_none_iff_forall_not_mem, not_exists]
  exact forall_congr' fun r => not_congr usable_eq_some

end View

/-! ## One choice -/

theorem firstUsable_eq (pm : PoolView) (l : List RoutePool) :
    firstUsable pm l = l.findSome? pm.usable := by
  induction l with
  | nil => rfl
  | cons rp l ih =>
    rw [firstUsable, findSome?_cons, ih]
    cases pm.usable rp <;> rfl

/-- The position `resolveRoundRobin` tries in round `i`. -/
def MTRoute.turn (route : MTRoute) (i : ℕ) : ℕ :=
  (route.rrIndex.toNat + i) % route.pools.length

/-- The first usable position at or cyclically behind the counter. -/
def MTRoute.position (route : MTRoute) (pm : PoolView) : Option ℕ :=
  ((List.range route.pools.length).map route.turn).find? fun p =>
    (route.pools[p]?.bind pm.usable).isSome

/-- Below `2^63` the index of a round is the remainder. -/
theorem roundRobin_index {c i n : ℕ} (h : c + i < 2 ^ 63) :
    (((c : ℤ).bmod (2 ^ 64) + i).bmod (2 ^ 64)).tmod n = ((c + i) % n : ℕ) := by
  have hbmod : ∀ m : ℕ, m < 2 ^ 63 → (m : ℤ).bmod (2 ^ 64) = m := fun m hm =>
    Int.bmod_eq_of_le (by omega) (by omega)
  rw [hbmod c (by omega), ← Nat.cast_add, hbmod _ h, Int.tmod_eq_emod_of_nonneg (by positivity),
    Int.natCast_mod]

/-- **The rounds that are left.** The loop returns the first usable pool among the
positions it has yet to try. -/
theorem roundRobinFrom_eq (route : MTRoute) (pm : PoolView) (hne : route.pools ≠ []) :
    ∀ left i, route.rrIndex.toNat + i + left ≤ 2 ^ 63 →
      roundRobinFrom route.pools pm ((route.rrIndex.toNat : ℤ).bmod (2 ^ 64)) i left =
        match (List.range' i left).findSome? fun j =>
          route.pools[route.turn j]?.bind pm.usable with
        | some r => .ok r
        | none => .error .noHealthyRoundRobin := by
  intro left
  induction left with
  | zero => exact fun i _ => rfl
  | succ left ih =>
    intro i hi
    have hlt : route.turn i < route.pools.length := Nat.mod_lt _ (length_pos_of_ne_nil hne)
    have hat : route.pools[(route.rrIndex.toNat + i) % route.pools.length]? =
      some route.pools[route.turn i] := getElem?_eq_getElem hlt
    rw [roundRobinFrom, roundRobin_index (by omega), List.range'_succ, findSome?_cons,
      if_neg (by omega), Int.toNat_natCast, hat, getElem?_eq_getElem hlt, Option.bind_some]
    cases hu : pm.usable route.pools[route.turn i] with
    | some r => simp only [hu]
    | none =>
      simp only [hu]
      exact ih (i + 1) (by omega)

/-- What `resolveRoundRobin` returns, with a counter that cannot overflow. -/
theorem resolveRoundRobin_eq (route : MTRoute) (pm : PoolView)
    (hcounter : route.rrIndex.toNat < 2 ^ 63 - route.pools.length) :
    (resolveRoundRobin route pm).1 =
      match (List.range route.pools.length).findSome? fun j =>
        route.pools[route.turn j]?.bind pm.usable with
      | some r => .ok r
      | none => .error (if route.pools = [] then .noPoolsRoundRobin else .noHealthyRoundRobin) := by
  rw [resolveRoundRobin]
  by_cases hne : route.pools = []
  · rw [if_pos (by simp [hne]), if_pos hne, hne]
    rfl
  · rw [if_neg (by simpa using hne), if_neg hne, range_eq_range']
    exact roundRobinFrom_eq route pm hne _ 0 (by omega)

variable {p : ℕ} {route : MTRoute}

/-- Every position has its round. -/
theorem exists_turn (route : MTRoute) (hp : p < route.pools.length) :
    ∃ i < route.pools.length, route.turn i = p := by
  have hmod := Nat.mod_lt route.rrIndex.toNat (show 0 < route.pools.length by omega)
  have hturn : ∀ i, route.turn i =
      (route.rrIndex.toNat % route.pools.length + i) % route.pools.length := fun i =>
    (Nat.mod_add_mod _ _ _).symm
  by_cases hle : route.rrIndex.toNat % route.pools.length ≤ p
  · refine ⟨p - route.rrIndex.toNat % route.pools.length, by omega, ?_⟩
    rw [hturn, Nat.add_sub_cancel' hle, Nat.mod_eq_of_lt hp]
  · -- once around
    refine ⟨p + route.pools.length - route.rrIndex.toNat % route.pools.length, by omega, ?_⟩
    rw [hturn, Nat.add_sub_cancel' (by omega), Nat.add_mod_right, Nat.mod_eq_of_lt hp]

/-! ## Soundness, completeness, order -/

/-- **What a strategy chooses** for a route: a usable pool of the route if it has one,
otherwise an error, and which one if there are several. -/
structure Selects (S : SortSlice) (route : MTRoute) (pm : PoolManager) (rt : Runtime) : Prop where
  sound : ∀ r, (applyStrategy S route (pm.view rt)).1 = .ok r →
    ∃ rp ∈ route.pools, Serves pm rt rp r
  complete : (∃ rp ∈ route.pools, Usable pm rt rp) →
    ∃ r, (applyStrategy S route (pm.view rt)).1 = .ok r
  refused : (¬ ∃ rp ∈ route.pools, Usable pm rt rp) →
    ∃ e, (applyStrategy S route (pm.view rt)).1 = .error e ∧ ∀ k, e ≠ .indexOutOfRange k
  failover : route.strategy = ascii "failover" →
    ∀ r, (applyStrategy S route (pm.view rt)).1 = .ok r →
      ∃ before rp behind, route.pools = before ++ rp :: behind ∧ Serves pm rt rp r ∧
        ∀ q ∈ before, ¬ Usable pm rt q
  leastCost : route.strategy = ascii "least_cost" →
    ∀ r, (applyStrategy S route (pm.view rt)).1 = .ok r →
      ∃ rp ∈ route.pools, Serves pm rt rp r ∧ ∀ q ∈ route.pools, Usable pm rt q → rp.cost ≤ q.cost
  roundRobin : route.strategy = ascii "round_robin" →
    ∀ r, (applyStrategy S route (pm.view rt)).1 = .ok r →
      ∃ p rp, route.position (pm.view rt) = some p ∧ route.pools[p]? = some rp ∧ Serves pm rt rp r
  /-- No strategy touches the pools of the route or their order. -/
  stored : (applyStrategy S route (pm.view rt)).2.definition = route.definition

/-- A choice that is the first usable of some candidates. -/
structure FirstOf (pm : PoolManager) (rt : Runtime) (pools candidates : List RoutePool)
    (choice : Except StrategyError (ℕ × Bytes)) : Prop where
  same : ∀ rp, rp ∈ candidates ↔ rp ∈ pools
  found : ∀ r, choice = .ok r ↔ candidates.findSome? (pm.view rt).usable = some r
  refused : candidates.findSome? (pm.view rt).usable = none →
    ∃ e, choice = .error e ∧ ∀ k, e ≠ .indexOutOfRange k

section FirstOf

variable {pm : PoolManager} {rt : Runtime} {pools candidates : List RoutePool}
  {choice : Except StrategyError (ℕ × Bytes)}

theorem FirstOf.split (h : FirstOf pm rt pools candidates choice) {r : ℕ × Bytes}
    (hr : choice = .ok r) :
    ∃ before rp behind, candidates = before ++ rp :: behind ∧ Serves pm rt rp r ∧
      ∀ q ∈ before, ¬ Usable pm rt q := by
  obtain ⟨before, rp, behind, hsplit, hrp, hbefore⟩ :=
    findSome?_eq_some_iff.mp ((h.found r).mp hr)
  exact ⟨before, rp, behind, hsplit, usable_eq_some.mp hrp,
    fun q hq => usable_eq_none.mp (hbefore q hq)⟩

theorem FirstOf.sound (h : FirstOf pm rt pools candidates choice) {r : ℕ × Bytes}
    (hr : choice = .ok r) : ∃ rp ∈ pools, Serves pm rt rp r := by
  obtain ⟨before, rp, behind, rfl, hrp, -⟩ := h.split hr
  exact ⟨rp, (h.same rp).mp (by simp), hrp⟩

theorem FirstOf.complete (h : FirstOf pm rt pools candidates choice)
    (hex : ∃ rp ∈ pools, Usable pm rt rp) : ∃ r, choice = .ok r := by
  cases hfind : candidates.findSome? (pm.view rt).usable with
  | some r => exact ⟨r, (h.found r).mpr hfind⟩
  | none =>
    obtain ⟨rp, hrp, husable⟩ := hex
    have hnone := findSome?_eq_none_iff.mp hfind rp ((h.same rp).mpr hrp)
    exact absurd husable (usable_eq_none.mp hnone)

theorem FirstOf.error (h : FirstOf pm rt pools candidates choice)
    (hex : ¬ ∃ rp ∈ pools, Usable pm rt rp) :
    ∃ e, choice = .error e ∧ ∀ k, e ≠ .indexOutOfRange k := by
  refine h.refused (findSome?_eq_none_iff.mpr fun rp hrp => usable_eq_none.mpr ?_)
  exact fun husable => hex ⟨rp, (h.same rp).mp hrp, husable⟩

/-- A loop that returns the first usable candidate, or an error of its own. -/
theorem firstOf_match {e : StrategyError} (he : ∀ k, e ≠ .indexOutOfRange k)
    (hsame : ∀ rp, rp ∈ candidates ↔ rp ∈ pools)
    (hchoice : choice = match candidates.findSome? (pm.view rt).usable with
      | some r => .ok r
      | none => .error e) : FirstOf pm rt pools candidates choice := by
  refine ⟨hsame, fun r => ?_, fun hnone => ⟨e, ?_, he⟩⟩
  · rw [hchoice]
    cases candidates.findSome? (pm.view rt).usable with
    | some r' => rw [Except.ok.injEq, Option.some_inj]
    | none => simp
  · rw [hchoice, hnone]

end FirstOf

section Strategies

variable (S : SortSlice) (route : MTRoute) (pm : PoolManager) (rt : Runtime)

theorem firstOf_failover :
    FirstOf pm rt route.pools route.pools (resolveFailover route (pm.view rt)) :=
  firstOf_match (e := .noHealthyFailover) (by simp) (fun _ => Iff.rfl)
    (by rw [← firstUsable_eq]; rfl)

/-- The pools `resolveLeastCost` goes through. -/
def byCost : List RoutePool := S.sort (fun a b => a.cost < b.cost) route.pools

theorem firstOf_leastCost :
    FirstOf pm rt route.pools (byCost S route) (resolveLeastCost S route (pm.view rt)) :=
  firstOf_match (e := .noHealthyLeastCost) (by simp) (fun _ => (S.perm _ _).mem_iff)
    (by rw [resolveLeastCost, firstUsable_eq]; rfl)

/-- The pools `resolveRoundRobin` goes through. -/
def byTurn : List RoutePool :=
  (List.range route.pools.length).filterMap fun i => route.pools[route.turn i]?

theorem mem_byTurn (rp : RoutePool) : rp ∈ byTurn route ↔ rp ∈ route.pools := by
  rw [byTurn, mem_filterMap]
  constructor
  · rintro ⟨i, -, hi⟩
    exact mem_of_getElem? hi
  · intro hrp
    obtain ⟨p, hp, rfl⟩ := getElem_of_mem hrp
    obtain ⟨i, hi, rfl⟩ := exists_turn route hp
    exact ⟨i, mem_range.mpr hi, getElem?_eq_getElem hp⟩

theorem firstOf_roundRobin (hcounter : route.rrIndex.toNat < 2 ^ 63 - route.pools.length) :
    FirstOf pm rt route.pools (byTurn route) (resolveRoundRobin route (pm.view rt)).1 := by
  refine firstOf_match (e := if route.pools = [] then .noPoolsRoundRobin else .noHealthyRoundRobin)
    (by split_ifs <;> simp) (mem_byTurn route) ?_
  rw [resolveRoundRobin_eq route _ hcounter, byTurn, ← head?_filterMap, ← head?_filterMap,
    filterMap_filterMap]

/-- The costs of the pools, as they are gone through. -/
theorem ordered_byCost : (byCost S route).Pairwise fun a b => a.cost ≤ b.cost := by
  have hless : ∀ a b : RoutePool, decide (a.cost < b.cost) = true ↔
      OrderDual.toDual b.cost < OrderDual.toDual a.cost := fun a b => by
    rw [decide_eq_true_iff, OrderDual.toDual_lt_toDual]
  refine (S.ordered (StrictWeak.of_key (fun rp => OrderDual.toDual rp.cost) hless) _).imp
    fun {a b} hab => ?_
  rw [← Bool.not_eq_true, decide_eq_true_iff, not_lt] at hab
  exact hab

/-- **No usable pool undercuts the chosen one.** -/
theorem leastCost_minimal {r : ℕ × Bytes} (hr : resolveLeastCost S route (pm.view rt) = .ok r) :
    ∃ rp ∈ route.pools, Serves pm rt rp r ∧
      ∀ q ∈ route.pools, Usable pm rt q → rp.cost ≤ q.cost := by
  have hfirst := firstOf_leastCost S route pm rt
  obtain ⟨before, rp, behind, hsplit, hserves, hbefore⟩ := hfirst.split hr
  have hordered := ordered_byCost S route
  rw [hsplit] at hordered
  refine ⟨rp, (hfirst.same rp).mp (by simp [hsplit]), hserves, fun q hq husable => ?_⟩
  have hq' := (hfirst.same q).mpr hq
  rw [hsplit, mem_append, mem_cons] at hq'
  rcases hq' with hmem | rfl | hmem
  · exact absurd husable (hbefore q hmem)
  · exact le_rfl
  · exact (pairwise_cons.mp (pairwise_append.mp hordered).2.1).1 q hmem

/-- **The chosen position is the first usable one.** -/
theorem roundRobin_position (hcounter : route.rrIndex.toNat < 2 ^ 63 - route.pools.length)
    {r : ℕ × Bytes} (hr : (resolveRoundRobin route (pm.view rt)).1 = .ok r) :
    ∃ p rp, route.position (pm.view rt) = some p ∧ route.pools[p]? = some rp ∧
      Serves pm rt rp r := by
  have hfound : (List.range route.pools.length).findSome?
      (fun j => route.pools[route.turn j]?.bind (pm.view rt).usable) = some r := by
    rw [resolveRoundRobin_eq route _ hcounter] at hr
    split at hr
    · rename_i r' hr'
      rw [hr', Except.ok.inj hr]
    · cases hr
  obtain ⟨before, i, behind, hsplit, hi, hbefore⟩ := findSome?_eq_some_iff.mp hfound
  obtain ⟨rp, hrp, hserves⟩ := Option.bind_eq_some_iff.mp hi
  refine ⟨route.turn i, rp, ?_, hrp, usable_eq_some.mp hserves⟩
  rw [MTRoute.position, hsplit, map_append, map_cons, find?_append,
    find?_eq_none.mpr, Option.none_or, find?_cons_of_pos (by rw [hi]; rfl)]
  intro p hp
  obtain ⟨j, hj, rfl⟩ := mem_map.mp hp
  rw [hbefore j hj]
  simp

end Strategies

/-- The strategies a route may have. -/
def strategies : List Bytes := [ascii "failover", ascii "round_robin", ascii "least_cost"]

/-- **Every known strategy selects.** -/
theorem selects (S : SortSlice) (hknown : route.strategy ∈ strategies)
    (hcounter : route.rrIndex.toNat < 2 ^ 63 - route.pools.length) (pm : PoolManager)
    (rt : Runtime) :
    Selects S route pm rt := by
  have hstored := definition_applyStrategy S route (pm.view rt)
  simp only [strategies, mem_cons, not_mem_nil, or_false] at hknown
  rcases hknown with hs | hs | hs
  · have hchoice : (applyStrategy S route (pm.view rt)).1 = resolveFailover route (pm.view rt) := by
      rw [applyStrategy, if_pos hs]
    have h := hchoice ▸ firstOf_failover route pm rt
    refine ⟨fun r => h.sound, h.complete, h.error, fun _ r => h.split, fun hs' => ?_, fun hs' => ?_,
      hstored⟩
    all_goals exact absurd (hs.symm.trans hs') (by decide)
  · have hchoice : (applyStrategy S route (pm.view rt)).1 =
        (resolveRoundRobin route (pm.view rt)).1 := by
      rw [applyStrategy, if_neg (by rw [hs]; decide), if_pos hs]
    have h := hchoice ▸ firstOf_roundRobin route pm rt hcounter
    refine ⟨fun r => h.sound, h.complete, h.error, fun hs' => ?_, fun hs' => ?_, fun _ r hr => ?_,
      hstored⟩
    · exact absurd (hs.symm.trans hs') (by decide)
    · exact absurd (hs.symm.trans hs') (by decide)
    · exact roundRobin_position route pm rt hcounter (hchoice ▸ hr)
  · have hchoice : (applyStrategy S route (pm.view rt)).1 =
        resolveLeastCost S route (pm.view rt) := by
      rw [applyStrategy, if_neg (by rw [hs]; decide), if_neg (by rw [hs]; decide), if_pos hs]
    have h := hchoice ▸ firstOf_leastCost S route pm rt
    refine ⟨fun r => h.sound, h.complete, h.error, fun hs' => ?_, fun _ r hr => ?_, fun hs' => ?_,
      hstored⟩
    · exact absurd (hs.symm.trans hs') (by decide)
    · exact leastCost_minimal S route pm rt (hchoice ▸ hr)
    · exact absurd (hs.symm.trans hs') (by decide)

/-! ## Turns -/

/-- A route after `j` resolutions, each with the pools as it finds them. -/
def MTRoute.resolved (S : SortSlice) (route : MTRoute) (views : ℕ → PoolView) : ℕ → MTRoute
  | 0 => route
  | j + 1 => (applyStrategy S (route.resolved S views j) (views j)).2

/-- A resolution moves the counter by one. -/
theorem resolved_eq (S : SortSlice) (hs : route.strategy = ascii "round_robin")
    (hne : route.pools ≠ []) (views : ℕ → PoolView) (j : ℕ) :
    route.resolved S views j = { route with rrIndex := route.rrIndex + UInt64.ofNat j } := by
  induction j with
  | zero => exact congrArg (fun c => { route with rrIndex := c }) (UInt64.add_zero _).symm
  | succ j ih =>
    have hlen : ¬ route.pools.length = 0 := by simpa using hne
    rw [MTRoute.resolved, ih, applyStrategy, if_neg (by rw [hs]; decide), if_pos hs,
      resolveRoundRobin, if_neg hlen]
    simp only [UInt64.ofNat_add, UInt64.add_assoc]
    rfl

/-- Where every pool is usable the counter's own position is taken. -/
theorem position_eq {pm : PoolView} (hne : route.pools ≠ [])
    (h : ∀ rp ∈ route.pools, (pm.usable rp).isSome) :
    route.position pm = some (route.rrIndex.toNat % route.pools.length) := by
  have hpos := length_pos_of_ne_nil hne
  have hlt := Nat.mod_lt route.rrIndex.toNat hpos
  obtain ⟨n, hn⟩ := Nat.exists_eq_succ_of_ne_zero (Nat.pos_iff_ne_zero.mp hpos)
  have hfirst : (List.range route.pools.length).map route.turn =
      route.rrIndex.toNat % route.pools.length ::
        ((List.range n).map Nat.succ).map route.turn := by
    rw [hn, range_succ_eq_map, map_cons, MTRoute.turn, Nat.add_zero, hn]
  rw [MTRoute.position, hfirst, find?_cons_of_pos]
  rw [getElem?_eq_getElem hlt, Option.bind_some]
  exact h _ (getElem_mem hlt)

/-- Among `k * n` consecutive numbers every remainder occurs `k` times. -/
theorem count_mod (c k : ℕ) {n : ℕ} (hp : p < n) :
    Nat.count (fun j => (c + j) % n = p) (k * n) = k := by
  have hn : 0 < n := by omega
  have hall : ∀ b, Nat.count (fun j => j % n = p) b = b / n + if p % n < b % n then 1 else 0 := by
    intro b
    rw [← Nat.count_modEq_card b hn]
    simp only [Nat.ModEq, Nat.mod_eq_of_lt hp]
  -- those in front of `c` and those up to the end differ by whole rounds
  have hsplit := Nat.count_add (fun j => j % n = p) c (k * n)
  rw [hall, hall, Nat.add_mul_mod_self_right, Nat.add_mul_div_right _ _ hn] at hsplit
  omega

/-- **Each pool has its turn.** -/
theorem round_robin_fair (S : SortSlice) (hs : route.strategy = ascii "round_robin") {k : ℕ}
    {views : ℕ → PoolView}
    (hcounter : ∀ j < k * route.pools.length,
      route.rrIndex.toNat + j < 2 ^ 63 - route.pools.length)
    (hall : ∀ j < k * route.pools.length, ∀ rp ∈ route.pools, ((views j).usable rp).isSome)
    (hp : p < route.pools.length) :
    Nat.count (fun j => (route.resolved S views j).position (views j) = some p)
      (k * route.pools.length) = k := by
  have hne : route.pools ≠ [] := ne_nil_of_length_pos (by omega)
  have hposition : ∀ j < k * route.pools.length,
      (route.resolved S views j).position (views j) = some p ↔
        (route.rrIndex.toNat + j) % route.pools.length = p := by
    intro j hj
    have hlt := hcounter j hj
    have hindex : (route.rrIndex + UInt64.ofNat j).toNat = route.rrIndex.toNat + j := by
      rw [UInt64.toNat_add, UInt64.toNat_ofNat', Nat.mod_eq_of_lt (a := j) (by omega)]
      exact Nat.mod_eq_of_lt (by omega)
    have hfirst : (route.resolved S views j).position (views j) =
        some ((route.rrIndex + UInt64.ofNat j).toNat % route.pools.length) := by
      rw [resolved_eq S hs hne]
      exact position_eq hne (hall j hj)
    rw [hfirst, hindex, Option.some_inj]
  refine Eq.trans ?_ (count_mod route.rrIndex.toNat k hp)
  rw [Nat.count_eq_card_filter_range, Nat.count_eq_card_filter_range]
  exact congrArg Finset.card (Finset.filter_congr fun j hj => hposition j (Finset.mem_range.mp hj))

/-- **Pool selection is sound, complete and fair.** -/
theorem pool_selection (S : SortSlice) (route : MTRoute) :
    (∀ pm rt, route.strategy ∈ strategies →
      route.rrIndex.toNat < 2 ^ 63 - route.pools.length → Selects S route pm rt) ∧
    (route.strategy = ascii "round_robin" → ∀ (k : ℕ) (pms : ℕ → PoolManager) (rts : ℕ → Runtime),
      (∀ j < k * route.pools.length, route.rrIndex.toNat + j < 2 ^ 63 - route.pools.length) →
      (∀ j < k * route.pools.length, ∀ rp ∈ route.pools, Usable (pms j) (rts j) rp) →
      ∀ p < route.pools.length,
        Nat.count (fun j => (route.resolved S (fun i => (pms i).view (rts i)) j).position
          ((pms j).view (rts j)) = some p) (k * route.pools.length) = k) := by
  refine ⟨fun pm rt hknown hcounter => selects S hknown hcounter pm rt, ?_⟩
  intro hs k pms rts hcounter hall p hp
  refine round_robin_fair S hs hcounter (fun j hj rp hrp => ?_) hp
  exact Option.isSome_iff_ne_none.mpr fun hnone => usable_eq_none.mp hnone (hall j hj rp hrp)

/-- Two pools that take turns. -/
def twoTurns : MTRoute where
  msisdnPrefix := ascii "27"
  strategy := ascii "round_robin"
  pools := [⟨ascii "a", 2⟩, ⟨ascii "b", 1⟩]
  rrIndex := 5

/-- Both of them are registered, -/
def bothRegistered : PoolManager where
  submitters name := if name = ascii "a" then some 0 else if name = ascii "b" then some 1 else none

/-- and connected. -/
def allHealthy : Runtime := ⟨fun _ => true, fun _ => 1, fun _ => 1⟩

/-- Six resolutions select each of them three times. -/
theorem two_pools_take_turns :
    Selects .insertion twoTurns bothRegistered allHealthy ∧
      (applyStrategy .insertion twoTurns (bothRegistered.view allHealthy)).1 =
        .ok (1, ascii "b") ∧
      ∀ p < 2, Nat.count (fun j =>
        (twoTurns.resolved .insertion (fun _ => bothRegistered.view allHealthy) j).position
          (bothRegistered.view allHealthy) = some p) 6 = 3 := by
  obtain ⟨hselects, hfair⟩ := pool_selection .insertion twoTurns
  refine ⟨hselects bothRegistered allHealthy (by decide) (by decide), by decide, ?_⟩
  refine hfair rfl 3 (fun _ => bothRegistered) (fun _ => allHealthy) (fun j hj => ?_) fun _ _ => ?_
  · have hlt : j < 6 := hj
    change 5 + j < 2 ^ 63 - 2
    omega
  · unfold Usable
    decide

end Routes

end SmscGateway
