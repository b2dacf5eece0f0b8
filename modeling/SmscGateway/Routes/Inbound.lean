import Mathlib
import SmscGateway.Gateway.Screen
import SmscGateway.Routes.Config

/-!
# MO routes and the store

MO routes are kept like the MT ones, in a live table and in the store, but the two
sides know a route by different names. The table appends every route it is given and
removes the first one with a destination pattern and a source prefix; the store
overwrites by a key that joins the two with `:`, and a delete request is split at its
first `:`. `mo_routes_agree_iff` says exactly when the two stay together: as long as
no created route has the key of a live one, and no delete request names a live route
whose pattern holds a `:`. What the table itself does with its routes, whatever calls
it was given, is `mo_resolution_by_priority`.
-/

namespace SmscGateway

open List SortedMap

namespace Routes

/-- `MOTarget`. -/
structure MOTarget where
  type : Bytes
  connID : Bytes := []
  callbackURL : Bytes := []
deriving DecidableEq

/-- `MORoute`. -/
structure MORoute where
  destPattern : Bytes
  sourcePrefix : Bytes
  target : MOTarget
  priority : ℤ
deriving DecidableEq

/-- The route as the router reads it. -/
def MORoute.entry (r : MORoute) : SmscGateway.MORoute where
  destPattern := r.destPattern
  sourcePrefix := r.sourcePrefix
  targetType :=
    if r.target.type = ascii "smpp" then .smpp
    else if r.target.type = ascii "http" then .http else .other
  targetConnID := r.target.connID
  callbackURL := r.target.callbackURL

/-- The match `Resolve` looks for. -/
def MORoute.accepts (r : MORoute) (sourceAddr destAddr : Bytes) : Bool :=
  r.entry.accepts sourceAddr destAddr

/-- The routes in evaluation order. -/
abbrev MORouteTable := List MORoute

/-- `Resolve`. -/
def MORouteTable.resolve (t : MORouteTable) (sourceAddr destAddr : Bytes) : Option MOTarget :=
  (t.find? fun r => r.accepts sourceAddr destAddr).map MORoute.target

/-- The comparison `AddRoute` sorts with. -/
def moLess (a b : MORoute) : Bool := a.priority > b.priority

/-- `AddRoute`. -/
def MORouteTable.addRoute (S : SortSlice) (t : MORouteTable) (route : MORoute) : MORouteTable :=
  S.sort moLess (t ++ [route])

/-- `RemoveRoute`. -/
def MORouteTable.removeRoute (t : MORouteTable) (destPattern sourcePrefix : Bytes) :
    MORouteTable :=
  t.eraseP fun r => (r.destPattern, r.sourcePrefix) = (destPattern, sourcePrefix)

/-- The router's table is this one, read route by route. -/
theorem resolveMO_entry (t : MORouteTable) (sourceAddr destAddr : Bytes) :
    resolveMO (t.map MORoute.entry) sourceAddr destAddr =
      (t.find? fun r => r.accepts sourceAddr destAddr).map MORoute.entry := by
  rw [resolveMO, find?_map]
  rfl

/-! ## Persisted routes -/

/-- The separator of the key. -/
def colon : UInt8 := 58

/-- The key of an MO route, after `route:mo:`. -/
def moKey (destPattern sourcePrefix : Bytes) : Bytes := destPattern ++ colon :: sourcePrefix

/-- The key a route is stored under. -/
def MORoute.key (r : MORoute) : Bytes :=
  ascii "route:mo:" ++ moKey r.destPattern r.sourcePrefix

/-- A route after a trip through JSON. -/
def MORoute.json (r : MORoute) : MORoute where
  destPattern := jsonString r.destPattern
  sourcePrefix := jsonString r.sourcePrefix
  target := ⟨jsonString r.target.type, jsonString r.target.connID, jsonString r.target.callbackURL⟩
  priority := r.priority

/-- A route that `encoding/json` decoded. -/
structure MORoute.Decoded (r : MORoute) : Prop where
  destPattern : ValidUtf8 r.destPattern
  sourcePrefix : ValidUtf8 r.sourcePrefix
  type : ValidUtf8 r.target.type
  connID : ValidUtf8 r.target.connID
  callbackURL : ValidUtf8 r.target.callbackURL

/-- The persisted MO routes, by key. -/
abbrev MORecords := SortedMap Bytes MORoute

/-- `SaveMORoute`. -/
def saveMORoute (m : MORecords) (route : MORoute) : MORecords := m.insert route.key route.json

/-- `DeleteMORoute`. -/
def deleteMORoute (m : MORecords) (destPattern sourcePrefix : Bytes) : MORecords :=
  m.erase (ascii "route:mo:" ++ moKey destPattern sourcePrefix)

/-- `LoadAllMORoutes`. -/
def loadAllMORoutes (m : MORecords) : List MORoute :=
  (scanPrefix m (ascii "route:mo:")).map Prod.snd

/-- `SetMORoutes` on a new table. -/
def setMORoutes (S : SortSlice) (routes : List MORoute) : MORouteTable :=
  routes.foldl (MORouteTable.addRoute S) []

/-! ## The admin API -/

/-- The live table and the store. -/
structure MOConfig where
  table : MORouteTable
  records : MORecords

/-- What happens to them. -/
inductive MOEvent where
  | create (route : MORoute) (decoded : route.Decoded)
  | delete (id : Bytes)
  | restart

/-- The table a start builds. -/
def MOConfig.reloaded (S : SortSlice) (c : MOConfig) : MORouteTable :=
  setMORoutes S (loadAllMORoutes c.records)

/-- The pattern a delete request is read as: what stands before the first `:`. -/
def idDest (id : Bytes) : Bytes := id.takeWhile (· ≠ colon)

/-- The source prefix it is read as, empty if there is no `:`. -/
def idSource (id : Bytes) : Bytes := (id.dropWhile (· ≠ colon)).tail

/-- `handleCreateMORoute`, `handleDeleteMORoute`, a restart. -/
def MOConfig.step (S : SortSlice) (c : MOConfig) : MOEvent → MOConfig
  | .create route _ =>
    { table := c.table.addRoute S route, records := saveMORoute c.records route }
  | .delete id =>
    { table := c.table.removeRoute (idDest id) (idSource id)
      records := deleteMORoute c.records (idDest id) (idSource id) }
  | .restart => { c with table := c.reloaded S }

/-- The first start finds an empty store. -/
def MOConfig.first : MOConfig := { table := [], records := .empty }

/-- The gateway after some events. -/
def MOConfig.after (S : SortSlice) (events : List MOEvent) : MOConfig :=
  events.foldl (MOConfig.step S) .first

/-! ## What is asked of them -/

/-- **A restart would change nothing**: the same collection of routes, and the same
target wherever the matching routes have different priorities. -/
structure SameAfterRestart (S : SortSlice) (c : MOConfig) : Prop where
  routes : (c.reloaded S).Perm c.table
  targets : ∀ sourceAddr destAddr,
    ((c.table.filter fun r => r.accepts sourceAddr destAddr).map MORoute.priority).Nodup →
      (c.reloaded S).resolve sourceAddr destAddr = c.table.resolve sourceAddr destAddr

/-- A delete request names a pattern and a source prefix: `dest:source`, or just
`dest` when there is no source prefix. -/
def MOEvent.Names (destPattern sourcePrefix : Bytes) : MOEvent → Prop
  | .delete id =>
    id = moKey destPattern sourcePrefix ∨ (sourcePrefix = [] ∧ id = destPattern)
  | _ => False

/-- No route with this pattern and source prefix is live or would be loaded. -/
def MOConfig.Without (S : SortSlice) (c : MOConfig) (destPattern sourcePrefix : Bytes) : Prop :=
  ∀ r, r ∈ c.table ∨ r ∈ c.reloaded S →
    ¬(r.destPattern = destPattern ∧ r.sourcePrefix = sourcePrefix)

/-- What an event is to leave behind. -/
structure Kept (S : SortSlice) (c : MOConfig) (e : MOEvent) : Prop where
  same : SameAfterRestart S (c.step S e)
  deleted : ∀ destPattern sourcePrefix, e.Names destPattern sourcePrefix →
    (c.step S e).Without S destPattern sourcePrefix

/-- The events that leave it behind: a created route's key is not the key of a live
route, and no live route that a delete request names has a `:` in its pattern. -/
def MOEvent.Clean (c : MOConfig) : MOEvent → Prop
  | .create route _ => ∀ r ∈ c.table, r.key ≠ route.key
  | .delete id => ∀ r ∈ c.table, (MOEvent.delete id).Names r.destPattern r.sourcePrefix →
      colon ∉ r.destPattern
  | .restart => True

/-! ## Names and keys -/

theorem colon_notMem_idDest (id : Bytes) : colon ∉ idDest id := by
  intro h
  simpa using mem_takeWhile_imp h

variable {d id s : Bytes} {route : MORoute}

/-- **A pattern without `:` is read back.** -/
theorem idDest_moKey (hd : colon ∉ d) (s : Bytes) : idDest (moKey d s) = d := by
  have hall : ∀ b ∈ d, decide (b ≠ colon) = true := fun b hb => by
    simpa using fun he : b = colon => hd (he ▸ hb)
  rw [idDest, moKey, takeWhile_append_of_pos hall]
  simp

theorem idSource_moKey (hd : colon ∉ d) (s : Bytes) : idSource (moKey d s) = s := by
  have hall : ∀ b ∈ d, decide (b ≠ colon) = true := fun b hb => by
    simpa using fun he : b = colon => hd (he ▸ hb)
  rw [idSource, moKey, dropWhile_append_of_pos hall]
  simp

/-- An id without `:` is a pattern. -/
theorem id_of_notMem (h : colon ∉ id) : idDest id = id ∧ idSource id = [] := by
  have hall : ∀ b ∈ id, decide (b ≠ colon) = true := fun b hb => by
    simpa using fun he : b = colon => h (he ▸ hb)
  refine ⟨takeWhile_eq_self_iff.mpr hall, ?_⟩
  rw [idSource, dropWhile_eq_nil_iff.mpr hall]
  rfl

/-- An id with a `:` is a key. -/
theorem moKey_of_mem (h : colon ∈ id) : moKey (idDest id) (idSource id) = id := by
  obtain ⟨d, s, rfl, hd⟩ := eq_append_cons_of_mem h
  have hid : d ++ colon :: s = moKey d s := rfl
  rw [hid, idDest_moKey hd, idSource_moKey hd]

/-- Patterns without `:` make keys of their own. -/
theorem moKey_inj {d' s' : Bytes} (hd : colon ∉ d) (hd' : colon ∉ d')
    (h : moKey d s = moKey d' s') :
    d = d' ∧ s = s' := by
  refine ⟨?_, ?_⟩
  · rw [← idDest_moKey hd s, h, idDest_moKey hd']
  · rw [← idSource_moKey hd s, h, idSource_moKey hd']

/-- What a request names, if the pattern has no `:`. -/
theorem read_of_names (h : (MOEvent.delete id).Names d s) (hd : colon ∉ d) :
    idDest id = d ∧ idSource id = s := by
  rcases h with rfl | ⟨rfl, rfl⟩
  · exact ⟨idDest_moKey hd s, idSource_moKey hd s⟩
  · exact id_of_notMem hd

/-- **A clean request takes from the store what it takes from the table.** -/
theorem key_eq_iff {c : MOConfig} (hclean : (MOEvent.delete id).Clean c) {r : MORoute}
    (hr : r ∈ c.table) : r.key = ascii "route:mo:" ++ moKey (idDest id) (idSource id) ↔
      (r.destPattern, r.sourcePrefix) = (idDest id, idSource id) := by
  rw [MORoute.key, append_right_inj, Prod.mk.injEq]
  constructor
  · intro hkey
    by_cases hid : colon ∈ id
    · rw [moKey_of_mem hid] at hkey
      have hd := hclean r hr (.inl hkey.symm)
      rw [← hkey, idDest_moKey hd, idSource_moKey hd]
      exact ⟨rfl, rfl⟩
    · -- the only `:` of the key is its last byte
      obtain ⟨hdest, hsource⟩ := id_of_notMem hid
      rw [hdest, hsource] at hkey ⊢
      have hcount := congrArg (count colon) hkey
      simp only [moKey, count_append, count_cons_self, count_nil,
        count_eq_zero_of_not_mem hid] at hcount
      have hd : colon ∉ r.destPattern := count_eq_zero.mp (by omega)
      exact moKey_inj hd hid hkey
  · rintro ⟨hd, hs⟩
    rw [hd, hs]

/-! ## The table and the store -/

theorem MORoute.Decoded.json {r : MORoute} (h : r.Decoded) : r.json = r := by
  rw [MORoute.json, jsonString_of_valid h.destPattern, jsonString_of_valid h.sourcePrefix,
    jsonString_of_valid h.type, jsonString_of_valid h.connID, jsonString_of_valid h.callbackURL]

theorem moLess_iff (a b : MORoute) : moLess a b = true ↔ b.priority < a.priority := by
  simp [moLess]

theorem perm_addRoute (S : SortSlice) (t : MORouteTable) (route : MORoute) :
    (t.addRoute S route).Perm (t ++ [route]) := S.perm _ _

theorem ordered_addRoute (S : SortSlice) (t : MORouteTable) (route : MORoute) :
    (t.addRoute S route).Pairwise fun a b => b.priority ≤ a.priority := by
  refine (S.ordered (StrictWeak.of_key MORoute.priority moLess_iff) _).imp fun {a b} hab => ?_
  rw [← Bool.not_eq_true, moLess_iff] at hab
  exact not_lt.mp hab

/-- A start loads every route it is given, in the order of priorities. -/
theorem setMORoutes_spec (S : SortSlice) (routes : List MORoute) :
    (setMORoutes S routes).Perm routes ∧
      (setMORoutes S routes).Pairwise fun a b => b.priority ≤ a.priority := by
  induction routes using reverseRecOn with
  | nil => exact ⟨List.Perm.refl _, List.Pairwise.nil⟩
  | append_singleton routes route ih =>
    have hlast : setMORoutes S (routes ++ [route]) =
        (setMORoutes S routes).addRoute S route := by
      simp [setMORoutes]
    rw [hlast]
    exact ⟨(perm_addRoute S _ _).trans (ih.1.append_right _), ordered_addRoute S _ _⟩

/-- Every record stands under the key of its route. -/
def Keyed (m : MORecords) : Prop := ∀ k r, m.find? k = some r → k = r.key

variable {S : SortSlice} {c : MOConfig}

theorem Keyed.save {m : MORecords} (h : Keyed m) (hr : route.Decoded) :
    Keyed (saveMORoute m route) := by
  intro k r hk
  rw [saveMORoute, find?_insert] at hk
  by_cases hkey : k = route.key
  · rw [if_pos hkey, Option.some_inj, hr.json] at hk
    rw [hkey, hk]
  · rw [if_neg hkey] at hk
    exact h k r hk

theorem Keyed.loadAll_eq {m : MORecords} (h : Keyed m) : loadAllMORoutes m = m.values := by
  have hall : ∀ e ∈ m.entries, (ascii "route:mo:").isPrefixOf e.1 = true := by
    intro e he
    rw [h e.1 e.2 (mem_entries_iff.mp he), isPrefixOf_iff_prefix]
    exact prefix_append _ _
  rw [loadAllMORoutes, scanPrefix, filter_eq_self.mpr hall, SortedMap.values]

/-- **A start loads one route for each key.** -/
theorem Keyed.nodup_reloaded (h : Keyed c.records) : ((c.reloaded S).map MORoute.key).Nodup := by
  have hperm := (setMORoutes_spec S (loadAllMORoutes c.records)).1
  rw [MOConfig.reloaded, (hperm.map _).nodup_iff, h.loadAll_eq]
  have hkeys : c.records.values.map MORoute.key = c.records.entries.map Prod.fst := by
    rw [SortedMap.values, map_map]
    refine map_congr_left fun e he => ?_
    exact (h e.1 e.2 (mem_entries_iff.mp he)).symm
  rw [hkeys, List.Nodup, pairwise_map]
  exact c.records.sorted.imp fun hlt => ne_of_lt hlt

/-- **The live routes have keys of their own, and the store holds them under these.** -/
structure InStep (c : MOConfig) : Prop where
  keys : (c.table.map MORoute.key).Nodup
  ordered : c.table.Pairwise fun a b => b.priority ≤ a.priority
  keyed : Keyed c.records
  holds : ∀ r, c.records.find? r.key = some r ↔ r ∈ c.table

theorem InStep.perm_reloaded (h : InStep c) : (c.reloaded S).Perm c.table := by
  have hmem : ∀ r, r ∈ c.records.values ↔ r ∈ c.table := by
    intro r
    rw [mem_values_iff, ← h.holds]
    constructor
    · rintro ⟨k, hk⟩
      rw [← h.keyed k r hk]
      exact hk
    · intro hr
      exact ⟨r.key, hr⟩
  have hloaded := (setMORoutes_spec S (loadAllMORoutes c.records)).1
  refine (perm_ext_iff_of_nodup ((h.keyed.nodup_reloaded (S := S)).of_map _)
    (h.keys.of_map _)).mpr fun r => ?_
  rw [MOConfig.reloaded, hloaded.mem_iff, h.keyed.loadAll_eq, hmem]

/-- Two tables with the same routes in the order of priorities agree wherever the
priorities tell the matches apart. -/
theorem resolve_eq_of_perm {t u : MORouteTable} (hperm : t.Perm u)
    (ht : t.Pairwise fun a b => b.priority ≤ a.priority)
    (hu : u.Pairwise fun a b => b.priority ≤ a.priority) {sourceAddr destAddr : Bytes}
    (hdiff : ((u.filter fun r => r.accepts sourceAddr destAddr).map MORoute.priority).Nodup) :
    t.resolve sourceAddr destAddr = u.resolve sourceAddr destAddr := by
  rw [MORouteTable.resolve, MORouteTable.resolve]
  congr 1
  cases hfu : u.find? fun r => r.accepts sourceAddr destAddr with
  | none =>
    refine find?_eq_none.mpr fun r hr => ?_
    exact find?_eq_none.mp hfu r (hperm.mem_iff.mp hr)
  | some r =>
    have hru : r ∈ u := mem_of_find?_eq_some hfu
    have hra : r.accepts sourceAddr destAddr = true :=
      find?_some (p := fun q : MORoute => q.accepts sourceAddr destAddr) hfu
    cases hft : t.find? fun r => r.accepts sourceAddr destAddr with
    | none => exact absurd hra (find?_eq_none.mp hft r (hperm.mem_iff.mpr hru))
    | some q =>
      have hqu : q ∈ u := hperm.mem_iff.mp (mem_of_find?_eq_some hft)
      have hqa : q.accepts sourceAddr destAddr = true :=
        find?_some (p := fun q : MORoute => q.accepts sourceAddr destAddr) hft
      -- each has the greatest priority of the matches
      have hle : q.priority ≤ r.priority := le_of_find? hu hfu hqu hqa
      have hge : r.priority ≤ q.priority := le_of_find? ht hft (hperm.mem_iff.mpr hru) hra
      have hsame := inj_on_of_nodup_map hdiff (mem_filter.mpr ⟨hqu, hqa⟩)
        (mem_filter.mpr ⟨hru, hra⟩) (le_antisymm hle hge)
      rw [hsame]

theorem InStep.sameAfterRestart (h : InStep c) : SameAfterRestart S c where
  routes := h.perm_reloaded
  targets _ _ hdiff := resolve_eq_of_perm h.perm_reloaded
    (setMORoutes_spec S (loadAllMORoutes c.records)).2 h.ordered hdiff

/-! ## One event -/

theorem InStep.create (h : InStep c) {hr : route.Decoded}
    (hclean : (MOEvent.create route hr).Clean c) : InStep (c.step S (.create route hr)) := by
  have hperm := perm_addRoute S c.table route
  have hfresh : route.key ∉ c.table.map MORoute.key := by
    intro hmem
    obtain ⟨r, hr, hkey⟩ := mem_map.mp hmem
    exact hclean r hr hkey
  refine ⟨?_, ordered_addRoute S _ _, h.keyed.save hr, fun r => ?_⟩
  · have hcons : ((c.table ++ [route]).map MORoute.key).Nodup := by
      rw [map_append, nodup_append_comm]
      exact nodup_cons.mpr ⟨hfresh, h.keys⟩
    exact (hperm.map _).nodup_iff.mpr hcons
  · have hmem : r ∈ (c.step S (.create route hr)).table ↔ r ∈ c.table ∨ r = route := by
      rw [MOConfig.step, hperm.mem_iff, mem_append, mem_singleton]
    rw [hmem, MOConfig.step, saveMORoute, find?_insert, hr.json]
    by_cases hkey : r.key = route.key
    · rw [if_pos hkey, Option.some_inj]
      constructor
      · exact fun he => .inr he.symm
      · rintro (hlive | rfl)
        · exact absurd hkey (hclean r hlive)
        · rfl
    · rw [if_neg hkey, h.holds]
      constructor
      · exact .inl
      · rintro (hlive | rfl)
        · exact hlive
        · exact absurd rfl hkey

/-- **A key that is live already cannot be created again**: a start would load one
route where the table has two. -/
theorem InStep.clean_of_kept (h : InStep c) {hr : route.Decoded}
    (hkept : Kept S c (.create route hr)) : (MOEvent.create route hr).Clean c := by
  have hkeyed : Keyed (c.step S (.create route hr)).records := h.keyed.save hr
  have hnodup := hkeyed.nodup_reloaded (S := S)
  rw [(hkept.same.routes.map _).nodup_iff, MOConfig.step,
    ((perm_addRoute S c.table route).map _).nodup_iff, map_append,
    nodup_append_comm] at hnodup
  intro r hmem hkey
  exact (nodup_cons.mp hnodup).1 (hkey ▸ mem_map_of_mem hmem)

/-- A pattern and a source prefix are those of one live route at most. -/
theorem InStep.removeRoute_eq (h : InStep c) (d s : Bytes) :
    c.table.removeRoute d s =
      c.table.filter fun r => (r.destPattern, r.sourcePrefix) ≠ (d, s) := by
  have hpairs : (c.table.map fun r => (r.destPattern, r.sourcePrefix)).Nodup := by
    refine List.Nodup.of_map (fun p : Bytes × Bytes => ascii "route:mo:" ++ moKey p.1 p.2) ?_
    rw [map_map]
    exact h.keys
  exact eraseP_eq_filter hpairs (d, s)

theorem InStep.delete (h : InStep c) (hclean : (MOEvent.delete id).Clean c) :
    InStep (c.step S (.delete id)) := by
  have hsub : (c.step S (.delete id)).table.Sublist c.table := eraseP_sublist
  refine ⟨h.keys.sublist (hsub.map _), h.ordered.sublist hsub, fun k r hk => ?_, fun r => ?_⟩
  · rw [MOConfig.step, deleteMORoute, find?_erase] at hk
    by_cases hkey : k = ascii "route:mo:" ++ moKey (idDest id) (idSource id)
    · rw [if_pos hkey] at hk
      cases hk
    · rw [if_neg hkey] at hk
      exact h.keyed k r hk
  · rw [MOConfig.step, deleteMORoute, find?_erase, h.removeRoute_eq, mem_filter,
      decide_eq_true_iff]
    constructor
    · intro hfind
      by_cases hkey : r.key = ascii "route:mo:" ++ moKey (idDest id) (idSource id)
      · rw [if_pos hkey] at hfind
        cases hfind
      · rw [if_neg hkey, h.holds] at hfind
        exact ⟨hfind, fun hpair => hkey ((key_eq_iff hclean hfind).mpr hpair)⟩
    · rintro ⟨hr, hpair⟩
      rw [if_neg fun hkey => hpair ((key_eq_iff hclean hr).mp hkey), h.holds]
      exact hr

/-- **A pattern with `:` cannot be deleted**: the request is read as one for a shorter
pattern, and the route stays. -/
theorem InStep.clean_of_deleted (h : InStep c) (hkept : Kept S c (.delete id)) :
    (MOEvent.delete id).Clean c := by
  intro r hr hnames hcolon
  refine hkept.deleted _ _ hnames r (.inl ?_) ⟨rfl, rfl⟩
  rw [MOConfig.step, h.removeRoute_eq, mem_filter, decide_eq_true_iff]
  refine ⟨hr, fun hpair => ?_⟩
  have hdest : r.destPattern = idDest id := congrArg Prod.fst hpair
  exact colon_notMem_idDest id (hdest ▸ hcolon)

theorem InStep.restart (h : InStep c) : InStep (c.step S .restart) := by
  have hperm : (c.reloaded S).Perm c.table := h.perm_reloaded
  refine ⟨?_, (setMORoutes_spec S (loadAllMORoutes c.records)).2, h.keyed, fun r => ?_⟩
  · exact (hperm.map _).nodup_iff.mpr h.keys
  · exact (h.holds r).trans hperm.mem_iff.symm

/-- A clean event keeps table and store in step. -/
theorem InStep.step (h : InStep c) {e : MOEvent} (hclean : e.Clean c) : InStep (c.step S e) := by
  cases e with
  | create route hr => exact h.create hclean
  | delete id => exact h.delete hclean
  | restart => exact h.restart

/-- **An event leaves behind what it should exactly when it is clean.** -/
theorem InStep.kept_iff (h : InStep c) (e : MOEvent) : Kept S c e ↔ e.Clean c := by
  constructor
  · intro hkept
    cases e with
    | create route hr => exact h.clean_of_kept hkept
    | delete id => exact h.clean_of_deleted hkept
    | restart => trivial
  · intro hclean
    refine ⟨(h.step hclean).sameAfterRestart, fun d s hnames => ?_⟩
    cases e with
    | create | restart => exact hnames.elim
    | delete id =>
      have hlive : ∀ r ∈ (c.step S (.delete id)).table,
          ¬(r.destPattern = d ∧ r.sourcePrefix = s) := by
        rintro r hr ⟨rfl, rfl⟩
        rw [MOConfig.step, h.removeRoute_eq, mem_filter, decide_eq_true_iff] at hr
        obtain ⟨hdest, hsource⟩ := read_of_names hnames (hclean r hr.1 hnames)
        rw [hdest, hsource] at hr
        exact hr.2 rfl
      rintro r (hr | hr)
      · exact hlive r hr
      · exact hlive r ((h.delete hclean).perm_reloaded.mem_iff.mp hr)

/-! ## Any history -/

theorem inStep_first : InStep MOConfig.first := by
  refine ⟨nodup_nil, List.Pairwise.nil, fun k r hk => ?_, fun r => ?_⟩
  · cases hk
  · rw [MOConfig.first, find?_empty]
    simp

/-- Clean events lead to a table and a store in step. -/
theorem inStep_after {events : List MOEvent}
    (h : ∀ past e, past ++ [e] <+: events → e.Clean (MOConfig.after S past)) :
    InStep (MOConfig.after S events) := by
  induction events using reverseRecOn with
  | nil => exact inStep_first
  | append_singleton events e ih =>
    have hpast : InStep (MOConfig.after S events) :=
      ih fun past e' hpre => h past e' (hpre.trans (prefix_append _ _))
    rw [MOConfig.after, foldl_append]
    exact hpast.step (h events e (prefix_refl _))

/-- **Persisted MO routes are the live ones exactly as long as names are.** In any
history of requests and restarts, every event leaves a table that a restart would
give again, and every delete request leaves no route it names, if and only if every
event was clean in the state it found. -/
theorem mo_routes_agree_iff (S : SortSlice) (events : List MOEvent) :
    (∀ past e, past ++ [e] <+: events → Kept S (MOConfig.after S past) e) ↔
      ∀ past e, past ++ [e] <+: events → e.Clean (MOConfig.after S past) := by
  constructor
  · intro hkept past
    -- up to an event that is not clean the events were, and there nothing is lost yet
    induction hn : past.length using Nat.strong_induction_on generalizing past with
    | _ n ih =>
      intro e hpre
      have hpast : InStep (MOConfig.after S past) := by
        refine inStep_after fun past' e' hpre' => ?_
        have hlen := hpre'.length_le
        rw [length_append, length_singleton] at hlen
        exact ih past'.length (by omega) past' rfl e'
          (hpre'.trans ((prefix_append _ _).trans hpre))
      exact (hpast.kept_iff e).mp (hkept past e hpre)
  · intro hclean past e hpre
    have hpast : InStep (MOConfig.after S past) := inStep_after fun past' e' hpre' =>
      hclean past' e' (hpre'.trans ((prefix_append _ _).trans hpre))
    exact (hpast.kept_iff e).mpr (hclean past e hpre)

/-! ## Resolution by priority -/

/-- A call that changes the table. -/
inductive MOTableOp where
  | add (route : MORoute)
  | remove (destPattern sourcePrefix : Bytes)

/-- One call. -/
def MORouteTable.apply (S : SortSlice) (t : MORouteTable) : MOTableOp → MORouteTable
  | .add route => t.addRoute S route
  | .remove destPattern sourcePrefix => t.removeRoute destPattern sourcePrefix

/-- The table after some calls, from an empty one. -/
def moTableAfter (S : SortSlice) (ops : List MOTableOp) : MORouteTable :=
  ops.foldl (MORouteTable.apply S) []

/-- What a route is for: the destinations that are its pattern, or start with it up to
a trailing `*`, from sources that start with its source prefix if it has one. -/
def MORoute.Matches (r : MORoute) (sourceAddr destAddr : Bytes) : Prop :=
  (destAddr = r.destPattern ∨ ∃ p, r.destPattern = p ++ ascii "*" ∧ p <+: destAddr) ∧
    (r.sourcePrefix ≠ [] → r.sourcePrefix <+: sourceAddr)

theorem accepts_iff (r : MORoute) (sourceAddr destAddr : Bytes) :
    r.accepts sourceAddr destAddr = true ↔ r.Matches sourceAddr destAddr := by
  have hsource : (decide (r.sourcePrefix = []) || r.sourcePrefix.isPrefixOf sourceAddr) = true ↔
      (r.sourcePrefix ≠ [] → r.sourcePrefix <+: sourceAddr) := by
    rw [Bool.or_eq_true, decide_eq_true_iff, isPrefixOf_iff_prefix, or_iff_not_imp_left]
  rw [MORoute.accepts, SmscGateway.MORoute.accepts, Bool.and_eq_true, MORoute.Matches]
  refine and_congr ?_ hsource
  by_cases hstar : r.destPattern.getLast? = some 42
  · -- a pattern with a `*` is also a prefix of itself
    obtain ⟨p, hp⟩ := getLast?_eq_some_iff.mp hstar
    have hpattern : r.entry.destPattern = p ++ [42] := hp
    rw [hpattern, hp, if_pos (by simp), dropLast_concat, isPrefixOf_iff_prefix]
    constructor
    · exact fun hpre => .inr ⟨p, rfl, hpre⟩
    · rintro (rfl | ⟨q, hq, hpre⟩)
      · exact prefix_append p [42]
      · rwa [append_inj_left' hq rfl]
  · have hpattern : ¬ r.entry.destPattern.getLast? = some 42 := hstar
    rw [if_neg hpattern, decide_eq_true_iff]
    constructor
    · exact .inl
    · rintro (hsame | ⟨q, hq, -⟩)
      · exact hsame
      · exact absurd (by rw [hq]; exact getLast?_concat) hstar

/-- **Every call leaves the routes in the order of priorities.** -/
theorem ordered_moTableAfter (S : SortSlice) (ops : List MOTableOp) :
    (moTableAfter S ops).Pairwise fun a b => b.priority ≤ a.priority := by
  induction ops using reverseRecOn with
  | nil => exact List.Pairwise.nil
  | append_singleton ops op ih =>
    rw [moTableAfter, foldl_append]
    cases op with
    | add route => exact ordered_addRoute S _ route
    | remove destPattern sourcePrefix => exact ih.sublist eraseP_sublist

/-- **The target of a message.** It has none exactly when no route of the table matches
it; otherwise it is that of a match of the greatest priority, and where the priorities
of the matches differ any calls that lead to the same routes lead to the same target. -/
theorem mo_resolution_by_priority (S : SortSlice) (ops : List MOTableOp)
    (sourceAddr destAddr : Bytes) :
    ((moTableAfter S ops).resolve sourceAddr destAddr = none ↔
      ∀ r ∈ moTableAfter S ops, ¬ r.Matches sourceAddr destAddr) ∧
    (∀ target, (moTableAfter S ops).resolve sourceAddr destAddr = some target →
      ∃ r ∈ moTableAfter S ops, r.Matches sourceAddr destAddr ∧ r.target = target ∧
        ∀ q ∈ moTableAfter S ops, q.Matches sourceAddr destAddr → q.priority ≤ r.priority) ∧
    ((moTableAfter S ops).Pairwise (fun r q => r.Matches sourceAddr destAddr →
        q.Matches sourceAddr destAddr → r.priority ≠ q.priority) →
      ∀ (S' : SortSlice) (ops' : List MOTableOp),
        (moTableAfter S' ops').Perm (moTableAfter S ops) →
        (moTableAfter S' ops').resolve sourceAddr destAddr =
          (moTableAfter S ops).resolve sourceAddr destAddr) := by
  have hordered := ordered_moTableAfter S ops
  refine ⟨?_, fun target htarget => ?_, fun hdiff S' ops' hperm => ?_⟩
  · rw [MORouteTable.resolve, Option.map_eq_none_iff, find?_eq_none]
    simp only [accepts_iff]
  · obtain ⟨r, hfind, rfl⟩ := Option.map_eq_some_iff.mp htarget
    have hr : r.accepts sourceAddr destAddr = true :=
      find?_some (p := fun q : MORoute => q.accepts sourceAddr destAddr) hfind
    refine ⟨r, mem_of_find?_eq_some hfind, (accepts_iff _ _ _).mp hr, rfl, ?_⟩
    intro q hq hmatch
    exact le_of_find? hordered hfind hq ((accepts_iff _ _ _).mpr hmatch)
  · refine resolve_eq_of_perm hperm (ordered_moTableAfter S' ops') hordered ?_
    rw [List.Nodup, pairwise_map, pairwise_filter]
    refine hdiff.imp fun {r q} hne hr hq => ?_
    exact hne ((accepts_iff _ _ _).mp hr) ((accepts_iff _ _ _).mp hq)

/-- A route for the short code `5` to a named connection. -/
def shortCode (conn : String) : MORoute where
  destPattern := ascii "5"
  sourcePrefix := []
  target := ⟨ascii "smpp", ascii conn, []⟩
  priority := 1

theorem shortCode_decoded_a : (shortCode "a").Decoded := ⟨rfl, rfl, rfl, rfl, rfl⟩

theorem shortCode_decoded_b : (shortCode "b").Decoded := ⟨rfl, rfl, rfl, rfl, rfl⟩

/-- **An updated route stands twice in the table and once in the store**, and a delete
request that names it leaves one of the two behind. -/
theorem updated_mo_route_is_kept_twice :
    let updated := MOConfig.after .insertion
      [.create (shortCode "a") shortCode_decoded_a, .create (shortCode "b") shortCode_decoded_b]
    updated.table = [shortCode "a", shortCode "b"] ∧
    updated.reloaded .insertion = [shortCode "b"] ∧
    (updated.step .insertion (.delete (ascii "5"))).table = [shortCode "b"] ∧
    (updated.step .insertion (.delete (ascii "5"))).reloaded .insertion = [] := by
  decide

end Routes

end SmscGateway
