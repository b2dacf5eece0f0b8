import Mathlib
import SmscGateway.Common.SortedMap
import SmscGateway.Common.Utf8
import SmscGateway.Routes.Table

/-!
# MT routes and the store

The admin API changes the live table and the persisted routes one after the other,
under different keys: the table looks for a route by its prefix, the store by
`route:mt:` and the prefix, and a start adds what the store holds in key order.
This file shows that the two never part: whatever requests and restarts came
before, a restart gives for every prefix the route that is live
(`persisted_mt_routes_are_live`).

A request is handled as a whole, its store write succeeds, and a route is what
`encoding/json` decodes, whose strings are valid UTF-8.
-/

namespace SmscGateway

open List SortedMap

namespace Routes

/-! ## Persisted routes -/

/-- `ScanPrefix`: the entries between the bounds of a prefix, which are those whose
key starts with it, in key order. -/
def scanPrefix {β : Type} (m : SortedMap Bytes β) (p : Bytes) : List (Bytes × β) :=
  m.entries.filter fun e => p.isPrefixOf e.1

/-- The key of an MT route. -/
def mtKey (p : Bytes) : Bytes := ascii "route:mt:" ++ p

/-- A route after a trip through JSON; the counter is not exported. -/
def MTRoute.json (r : MTRoute) : MTRoute where
  msisdnPrefix := jsonString r.msisdnPrefix
  strategy := jsonString r.strategy
  pools := r.pools.map fun rp => { rp with name := jsonString rp.name }

/-- A route that `encoding/json` decoded. -/
structure MTRoute.Decoded (r : MTRoute) : Prop where
  msisdnPrefix : ValidUtf8 r.msisdnPrefix
  strategy : ValidUtf8 r.strategy
  pools : ∀ rp ∈ r.pools, ValidUtf8 rp.name
  rrIndex : r.rrIndex = 0

/-- The persisted MT routes, by key. -/
abbrev MTRecords := SortedMap Bytes MTRoute

/-- `SaveMTRoute`. -/
def saveMTRoute (m : MTRecords) (route : MTRoute) : MTRecords :=
  m.insert (mtKey route.msisdnPrefix) route.json

/-- `DeleteMTRoute`. -/
def deleteMTRoute (m : MTRecords) (p : Bytes) : MTRecords := m.erase (mtKey p)

/-- `LoadAllMTRoutes`. -/
def loadAllMTRoutes (m : MTRecords) : List MTRoute :=
  (scanPrefix m (ascii "route:mt:")).map Prod.snd

/-- `SetMTRoutes` on a new table. -/
def setMTRoutes (S : SortSlice) (routes : List MTRoute) : MTRouteTable :=
  routes.foldl (MTRouteTable.addRoute S) []

/-! ## The admin API -/

/-- The routing side of the gateway: the live table and the store. -/
structure MTConfig where
  table : MTRouteTable
  records : MTRecords

/-- What happens to it. -/
inductive MTEvent where
  | create (route : MTRoute) (decoded : route.Decoded)
  | delete (p : Bytes)
  | resolve (msisdn : Bytes) (pm : PoolView)
  | restart

/-- The table a start builds. -/
def MTConfig.reloaded (S : SortSlice) (c : MTConfig) : MTRouteTable :=
  setMTRoutes S (loadAllMTRoutes c.records)

/-- `handleCreateMTRoute`, `handleDeleteMTRoute`, a routing decision, a restart. -/
def MTConfig.step (S : SortSlice) (c : MTConfig) : MTEvent → MTConfig
  | .create route _ =>
    { table := c.table.addRoute S route, records := saveMTRoute c.records route }
  | .delete p => { table := (c.table.removeRoute p).2, records := deleteMTRoute c.records p }
  | .resolve msisdn pm => { c with table := (c.table.resolve S msisdn pm).2 }
  | .restart => { c with table := c.reloaded S }

/-- The first start finds an empty store. -/
def MTConfig.first : MTConfig := { table := [], records := .empty }

/-- The gateway after some events. -/
def MTConfig.after (S : SortSlice) (events : List MTEvent) : MTConfig :=
  events.foldl (MTConfig.step S) .first

/-! ## One collection of routes -/

/-- JSON keeps what it decoded. -/
theorem MTRoute.Decoded.json {r : MTRoute} (h : r.Decoded) : r.json = r.definition := by
  have hpools : (r.pools.map fun rp => { rp with name := jsonString rp.name }) = r.pools := by
    refine (map_congr_left fun rp hrp => ?_).trans (map_id r.pools)
    rw [jsonString_of_valid (h.pools rp hrp)]
    rfl
  rw [MTRoute.json, jsonString_of_valid h.msisdnPrefix, jsonString_of_valid h.strategy, hpools]
  rfl

theorem mtKey_inj {p q : Bytes} : mtKey p = mtKey q ↔ p = q :=
  append_right_inj _

/-- **The store keeps the live routes**, each under the key of its prefix. -/
structure Persists (m : MTRecords) (live : Live) : Prop where
  holds : ∀ p, m.find? (mtKey p) = live p
  keyed : ∀ k d, m.find? k = some d → k = mtKey d.msisdnPrefix

variable {S : SortSlice} {m : MTRecords} {live : Live}

theorem Persists.save (h : Persists m live) {route : MTRoute} (hr : route.Decoded) :
    Persists (saveMTRoute m route) (live.apply (.add route)) := by
  refine ⟨fun p => ?_, fun k d hk => ?_⟩
  · rw [saveMTRoute, find?_insert, hr.json, Live.apply, Function.update_apply]
    simp only [mtKey_inj, h.holds]
  · rw [saveMTRoute, find?_insert] at hk
    by_cases hkey : k = mtKey route.msisdnPrefix
    · rw [if_pos hkey, Option.some_inj, hr.json] at hk
      rw [hkey, ← hk]
      rfl
    · rw [if_neg hkey] at hk
      exact h.keyed k d hk

theorem Persists.delete (h : Persists m live) (p : Bytes) :
    Persists (deleteMTRoute m p) (live.apply (.remove p)) := by
  refine ⟨fun q => ?_, fun k d hk => ?_⟩
  · rw [deleteMTRoute, find?_erase, Live.apply, Function.update_apply]
    simp only [mtKey_inj, h.holds]
  · rw [deleteMTRoute, find?_erase] at hk
    by_cases hkey : k = mtKey p
    · rw [if_pos hkey] at hk
      cases hk
    · rw [if_neg hkey] at hk
      exact h.keyed k d hk

/-- Every stored route is loaded. -/
theorem Persists.loadAll_eq (h : Persists m live) : loadAllMTRoutes m = m.values := by
  have hall : ∀ e ∈ m.entries, (ascii "route:mt:").isPrefixOf e.1 = true := by
    intro e he
    have hkey := h.keyed e.1 e.2 (mem_entries_iff.mp he)
    rw [hkey, isPrefixOf_iff_prefix]
    exact prefix_append _ _
  rw [loadAllMTRoutes, scanPrefix, filter_eq_self.mpr hall, SortedMap.values]

theorem Persists.nodup_loadAll (h : Persists m live) :
    ((loadAllMTRoutes m).map MTRoute.msisdnPrefix).Nodup := by
  have hkeys : (m.values.map MTRoute.msisdnPrefix).map mtKey = m.entries.map Prod.fst := by
    rw [SortedMap.values, map_map, map_map]
    refine map_congr_left fun e he => ?_
    exact (h.keyed e.1 e.2 (mem_entries_iff.mp he)).symm
  have hsorted : (m.entries.map Prod.fst).Nodup := by
    rw [List.Nodup, pairwise_map]
    exact m.sorted.imp fun hlt => ne_of_lt hlt
  rw [h.loadAll_eq]
  rw [← hkeys] at hsorted
  exact hsorted.of_map _

/-- Adding routes of different prefixes makes just these live. -/
theorem liveAfter_add {routes : List MTRoute}
    (hr : (routes.map MTRoute.msisdnPrefix).Nodup) (p : Bytes) (d : MTRoute) :
    liveAfter (routes.map .add) p = some d ↔
      ∃ r ∈ routes, r.definition = d ∧ r.msisdnPrefix = p := by
  induction routes using List.reverseRecOn with
  | nil => simp [liveAfter]
  | append_singleton routes route ih =>
    rw [map_append, nodup_append_comm] at hr
    obtain ⟨hfresh, hr⟩ := nodup_cons.mp hr
    have hlast : liveAfter ((routes ++ [route]).map .add) =
        (liveAfter (routes.map .add)).apply (.add route) := by
      simp [liveAfter]
    rw [hlast, Live.apply]
    by_cases hp : p = route.msisdnPrefix
    · subst hp
      rw [Function.update_self, Option.some_inj]
      constructor
      · rintro rfl
        exact ⟨route, by simp, rfl, rfl⟩
      · rintro ⟨r, hmem, rfl, he⟩
        rcases mem_append.mp hmem with hmem | hmem
        · exact absurd (he ▸ mem_map_of_mem hmem) hfresh
        · rw [mem_singleton.mp hmem]
    · rw [Function.update_of_ne hp, ih hr]
      constructor
      · rintro ⟨r, hmem, hd, he⟩
        exact ⟨r, mem_append_left _ hmem, hd, he⟩
      · rintro ⟨r, hmem, hd, he⟩
        rcases mem_append.mp hmem with hmem | hmem
        · exact ⟨r, hmem, hd, he⟩
        · rw [mem_singleton.mp hmem] at he
          exact absurd he.symm hp

/-- **A start makes the persisted routes live.** -/
theorem Persists.reload (h : Persists m live) (hdef : ∀ p d, live p = some d → d.definition = d) :
    Represents (setMTRoutes S (loadAllMTRoutes m)) live := by
  have hops : setMTRoutes S (loadAllMTRoutes m) =
      tableAfter S ((loadAllMTRoutes m).map .add) := by
    rw [setMTRoutes, tableAfter, foldl_map]
    rfl
  have hlive : liveAfter ((loadAllMTRoutes m).map .add) = live := by
    funext p
    refine Option.ext fun d => ?_
    rw [liveAfter_add h.nodup_loadAll, h.loadAll_eq]
    constructor
    · rintro ⟨r, hmem, rfl, rfl⟩
      obtain ⟨k, hk⟩ := mem_values_iff.mp hmem
      have hr : live r.msisdnPrefix = some r := by
        rw [← h.holds, ← h.keyed k r hk, hk]
      rw [hr, hdef _ _ hr]
    · intro hd
      have hfind := (h.holds p).trans hd
      have hkey := mtKey_inj.mp (h.keyed _ d hfind)
      exact ⟨d, mem_values_iff.mpr ⟨_, hfind⟩, hdef p d hd, hkey.symm⟩
  rw [hops, ← hlive]
  exact represents_table S _

/-- **Table and store stand for the same routes.** -/
structure Agree (c : MTConfig) (live : Live) : Prop where
  table : Represents c.table live
  records : Persists c.records live

theorem Agree.reloaded {c : MTConfig} (h : Agree c live) : Represents (c.reloaded S) live := by
  refine h.records.reload fun p d hd => ?_
  obtain ⟨hmem, -⟩ := (h.table.holds p d).mp hd
  obtain ⟨r, -, rfl⟩ := mem_map.mp hmem
  rfl

/-- No event parts them. -/
theorem Agree.step {c : MTConfig} (h : Agree c live) (e : MTEvent) :
    ∃ live', Agree (c.step S e) live' := by
  cases e with
  | create route hr => exact ⟨_, h.table.add route, h.records.save hr⟩
  | delete p => exact ⟨_, h.table.remove p, h.records.delete p⟩
  | resolve msisdn pm => exact ⟨live, h.table.apply (.resolve msisdn pm), h.records⟩
  | restart => exact ⟨live, h.reloaded, h.records⟩

theorem agree_after (S : SortSlice) (events : List MTEvent) :
    ∃ live, Agree (MTConfig.after S events) live := by
  induction events using List.reverseRecOn with
  | nil =>
    refine ⟨fun _ => none, represents_table S [], fun p => ?_, fun k d hk => ?_⟩
    · exact find?_empty _
    · cases hk
  | append_singleton events e ih =>
    obtain ⟨live, hlive⟩ := ih
    rw [MTConfig.after, foldl_append]
    exact hlive.step e

/-- What the table holds under a prefix. -/
theorem Represents.at_prefix {t : MTRouteTable} (h : Represents t live) (p : Bytes) :
    (t.filter fun r => r.msisdnPrefix = p).map MTRoute.definition = (live p).toList := by
  have hmem : ∀ d, d ∈ (t.filter fun r => r.msisdnPrefix = p).map MTRoute.definition ↔
      d ∈ (live p).toList := by
    intro d
    rw [Option.mem_toList, h.holds]
    constructor
    · intro hd
      obtain ⟨r, hr, rfl⟩ := mem_map.mp hd
      obtain ⟨hr, hp⟩ := mem_filter.mp hr
      exact ⟨mem_map_of_mem hr, by simpa using hp⟩
    · rintro ⟨hd, hp⟩
      obtain ⟨r, hr, rfl⟩ := mem_map.mp hd
      exact mem_map_of_mem (mem_filter.mpr ⟨hr, by simpa using hp⟩)
  have hkeys : (((t.filter fun r => r.msisdnPrefix = p).map MTRoute.definition).map
      MTRoute.msisdnPrefix).Nodup := by
    rw [map_map]
    exact h.unique.sublist (filter_sublist.map _)
  -- two lists without repetition and with at most one element
  have hperm := (perm_ext_iff_of_nodup (hkeys.of_map _) (by cases live p <;> simp)).mpr hmem
  cases hp : live p with
  | none =>
    rw [hp] at hperm
    exact perm_nil.mp hperm
  | some d =>
    rw [hp] at hperm
    exact perm_singleton.mp hperm

/-- **Persisted MT routes are the live ones.** After any requests, routing decisions
and restarts, a further restart gives a table with the same routes under every prefix,
and with a route of the same prefix, strategy and pools for every MSISDN. -/
theorem persisted_mt_routes_are_live (S : SortSlice) (events : List MTEvent) :
    (∀ p, (((MTConfig.after S events).reloaded S).filter fun r => r.msisdnPrefix = p).map
        MTRoute.definition =
      ((MTConfig.after S events).table.filter fun r => r.msisdnPrefix = p).map
        MTRoute.definition) ∧
    ∀ msisdn, (((MTConfig.after S events).reloaded S).select msisdn).map MTRoute.definition =
      ((MTConfig.after S events).table.select msisdn).map MTRoute.definition := by
  obtain ⟨live, h⟩ := agree_after S events
  have hreload := h.reloaded (S := S)
  refine ⟨fun p => ?_, fun msisdn => ?_⟩
  · rw [hreload.at_prefix, h.table.at_prefix]
  · exact (hreload.isBest msisdn).unique (h.table.isBest msisdn)

end Routes

end SmscGateway
