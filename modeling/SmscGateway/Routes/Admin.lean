import Mathlib
import SmscGateway.Routes.Inbound
import SmscGateway.Routes.Pools

/-!
# Requests that fail

A create request of the admin API changes the live side first, a route table or the
`PoolManager`, and writes the store behind it. When the write fails the answer is an
error and the live side stays changed. So a request that is answered with an error
leaves the routes and pools as they were only if it failed before the write, or put in
an MT route that was there already (`failed_change_kept_iff`).
-/

namespace SmscGateway

namespace Routes

/-! ## Adding a pool -/

/-- The errors of `Add`. -/
inductive AddError where
  | alreadyExists (name : Bytes)
  | connect (name : Bytes) (err : Bytes)
deriving DecidableEq

/-- `Add` and `addSMPP`. Whether a pool of this configuration connects, and which pool
it is, is up to the SMSC. -/
def PoolManager.add (connect : SouthboundPoolConfig → Except Bytes ℕ) (pm : PoolManager)
    (cfg : SouthboundPoolConfig) : Except AddError Unit × PoolManager :=
  if (pm.submitters cfg.name).isSome ∨ (pm.pools cfg.name).isSome then
    (.error (.alreadyExists cfg.name), pm)
  else
    match connect cfg with
    | .error err => (.error (.connect cfg.name err), pm)
    | .ok pool =>
      (.ok (),
        { pools := Function.update pm.pools cfg.name (some pool)
          submitters := Function.update pm.submitters cfg.name (some pool)
          configs := Function.update pm.configs cfg.name (some cfg) })

section Add

variable {connect : SouthboundPoolConfig → Except Bytes ℕ} {pm pm' : PoolManager}
  {cfg : SouthboundPoolConfig}

theorem add_error {e : AddError} (h : pm.add connect cfg = (.error e, pm')) : pm' = pm := by
  rw [PoolManager.add] at h
  split_ifs at h
  · exact (Prod.mk.inj h).2.symm
  · split at h
    · exact (Prod.mk.inj h).2.symm
    · cases (Prod.mk.inj h).1

/-- `Add` refuses a name that is taken and a pool that does not connect. -/
theorem add_refused_iff : (∃ e, (pm.add connect cfg).1 = .error e) ↔
    (pm.submitters cfg.name).isSome ∨ (pm.pools cfg.name).isSome ∨
      ∃ err, connect cfg = .error err := by
  rw [PoolManager.add, ← or_assoc]
  split_ifs with hexists
  · exact iff_of_true ⟨_, rfl⟩ (.inl hexists)
  · rw [or_iff_right hexists]
    cases connect cfg <;> simp

/-- An added pool is new. -/
theorem add_ok (h : pm.add connect cfg = (.ok (), pm')) :
    pm.submitters cfg.name = none ∧ (pm'.submitters cfg.name).isSome := by
  rw [PoolManager.add] at h
  split_ifs at h with hexists
  · cases (Prod.mk.inj h).1
  · rw [not_or, Option.not_isSome_iff_eq_none] at hexists
    split at h
    · cases (Prod.mk.inj h).1
    · rw [← (Prod.mk.inj h).2]
      exact ⟨hexists.1, by simp⟩

end Add

/-! ## Create requests -/

/-- What the admin API changes: the live side and the store. -/
structure Admin where
  mtRoutes : MTRouteTable := []
  moRoutes : MORouteTable := []
  poolManager : PoolManager := {}
  mtRecords : MTRecords := .empty
  moRecords : MORecords := .empty
  poolRecords : SortedMap Bytes SouthboundPoolConfig := .empty

/-- A create request, with what its body was decoded to, if it was JSON. -/
inductive Change where
  | mtRoute (body : Option MTRoute)
  | moRoute (body : Option MORoute)
  | pool (body : Option SouthboundPoolConfig)

/-- What is answered. -/
inductive Answer where
  | created
  | badRequest (error : Bytes)
  | refused (error : AddError)
  | internalServerError (error : Bytes)
deriving DecidableEq

/-- The statuses of 400 and more. -/
def Answer.isError : Answer → Bool
  | .created => false
  | _ => true

/-- A store write and the answer: the error it failed with, or its effect. -/
def Admin.saved (a : Admin) (failure : Option Bytes) (write : Admin → Admin) : Answer × Admin :=
  match failure with
  | some err => (.internalServerError err, a)
  | none => (.created, write a)

section Handlers

variable (S : SortSlice) (connect : SouthboundPoolConfig → Except Bytes ℕ)

/-- `handleCreateMTRoute`, with the failure of its store write, if any. -/
def handleCreateMTRoute (failure : Option Bytes) (a : Admin) : Option MTRoute → Answer × Admin
  | none => (.badRequest (ascii "invalid JSON"), a)
  | some route =>
    { a with mtRoutes := a.mtRoutes.addRoute S route }.saved failure fun a =>
      { a with mtRecords := saveMTRoute a.mtRecords route }

/-- `handleCreateMORoute`. -/
def handleCreateMORoute (failure : Option Bytes) (a : Admin) : Option MORoute → Answer × Admin
  | none => (.badRequest (ascii "invalid JSON"), a)
  | some route =>
    { a with moRoutes := a.moRoutes.addRoute S route }.saved failure fun a =>
      { a with moRecords := saveMORoute a.moRecords route }

/-- `handleCreatePool`. -/
def handleCreatePool (failure : Option Bytes) (a : Admin) :
    Option SouthboundPoolConfig → Answer × Admin
  | none => (.badRequest (ascii "invalid JSON"), a)
  | some cfg =>
    match a.poolManager.add connect cfg with
    | (.error e, pm) => (.refused e, { a with poolManager := pm })
    | (.ok (), pm) =>
      { a with poolManager := pm }.saved failure fun a =>
        { a with poolRecords := a.poolRecords.insert (ascii "pool:" ++ cfg.name) cfg }

/-- The handler of a request. -/
def Admin.handle (failure : Option Bytes) (a : Admin) : Change → Answer × Admin
  | .mtRoute body => handleCreateMTRoute S failure a body
  | .moRoute body => handleCreateMORoute S failure a body
  | .pool body => handleCreatePool connect failure a body

end Handlers

/-! ## What a failure leaves behind -/

/-- The same live side: the same routes in both tables, and pools of the same names. -/
structure SameLive (a b : Admin) : Prop where
  mtRoutes : a.mtRoutes.Perm b.mtRoutes
  moRoutes : a.moRoutes.Perm b.moRoutes
  pools : ∀ name, (a.poolManager.getSubmitter name).isSome = (b.poolManager.getSubmitter name).isSome

theorem SameLive.refl (a : Admin) : SameLive a a := ⟨.refl _, .refl _, fun _ => rfl⟩

/-- The requests that cannot leave a change behind: the store write succeeds or is not
reached, because the body is no JSON, the name of the pool is taken or its pool does not
connect; or the MT route is the very one that the table has under its prefix. -/
def Change.Harmless (connect : SouthboundPoolConfig → Except Bytes ℕ) (failure : Option Bytes)
    (a : Admin) : Change → Prop
  | .mtRoute (some route) => failure = none ∨
      (a.mtRoutes.find? fun r => r.msisdnPrefix = route.msisdnPrefix) = some route
  | .moRoute (some _) => failure = none
  | .pool (some cfg) => failure = none ∨
      (a.poolManager.submitters cfg.name).isSome ∨ (a.poolManager.pools cfg.name).isSome ∨
      ∃ err, connect cfg = .error err
  | _ => True

/-- Adding an MT route leaves the same routes exactly when it replaces itself. -/
theorem addRoute_perm_iff (S : SortSlice) (t : MTRouteTable) (route : MTRoute) :
    (t.addRoute S route).Perm t ↔
      (t.find? fun r => r.msisdnPrefix = route.msisdnPrefix) = some route := by
  have hperm : (t.addRoute S route).Perm
      (route :: t.eraseP fun r => r.msisdnPrefix = route.msisdnPrefix) :=
    (S.perm _ _).trans (List.perm_append_singleton _ _)
  rw [List.Perm.congr_left hperm]
  cases hfind : t.find? fun r => r.msisdnPrefix = route.msisdnPrefix with
  | none =>
    rw [List.eraseP_of_forall_not (List.find?_eq_none.mp hfind)]
    simp only [reduceCtorEq, iff_false]
    exact fun h => absurd h.length_eq (by simp)
  | some r =>
    obtain ⟨hr, before, behind, rfl, hbefore⟩ := List.find?_eq_some_iff_append.mp hfind
    have hrest : ((before ++ r :: behind).eraseP fun r => r.msisdnPrefix = route.msisdnPrefix) =
        before ++ behind := by
      rw [List.eraseP_append_right _ (by simpa using hbefore)]
      exact congrArg (before ++ ·) (List.eraseP_cons_of_pos hr)
    rw [hrest, List.Perm.congr_right List.perm_middle, ← Multiset.coe_eq_coe,
      ← Multiset.cons_coe, ← Multiset.cons_coe, Multiset.cons_inj_left, Option.some_inj, eq_comm]

/-- **A request that is answered with an error leaves the live side as it was exactly
when it is harmless.** -/
theorem failed_change_kept_iff (S : SortSlice)
    (connect : SouthboundPoolConfig → Except Bytes ℕ) (failure : Option Bytes) (a : Admin)
    (c : Change) :
    ((a.handle S connect failure c).1.isError = true →
      SameLive (a.handle S connect failure c).2 a) ↔ c.Harmless connect failure a := by
  cases c with
  | mtRoute body =>
    cases body with
    | none => exact iff_of_true (fun _ => .refl a) trivial
    | some route =>
      cases failure with
      | none => exact iff_of_true (fun h => nomatch h) (.inl rfl)
      | some err =>
        have hsame : SameLive { a with mtRoutes := a.mtRoutes.addRoute S route } a ↔
            (a.mtRoutes.addRoute S route).Perm a.mtRoutes :=
          ⟨fun h => h.mtRoutes, fun h => ⟨h, .refl _, fun _ => rfl⟩⟩
        rw [addRoute_perm_iff] at hsame
        refine ⟨fun h => .inr (hsame.mp (h rfl)), fun h _ => hsame.mpr (h.resolve_left ?_)⟩
        exact Option.some_ne_none err
  | moRoute body =>
    cases body with
    | none => exact iff_of_true (fun _ => .refl a) trivial
    | some route =>
      cases failure with
      | none => exact iff_of_true (fun h => nomatch h) rfl
      | some err =>
        refine iff_of_false (fun h => ?_) (Option.some_ne_none err)
        -- the table has one route more
        have hlength := (((S.perm _ _).symm.trans (h rfl).moRoutes)).length_eq
        exact absurd hlength (by simp)
  | pool body =>
    cases body with
    | none => exact iff_of_true (fun _ => .refl a) trivial
    | some cfg =>
      simp only [Admin.handle, handleCreatePool, Change.Harmless, ← add_refused_iff]
      rcases hadd : a.poolManager.add connect cfg with ⟨e | ⟨⟩, pm⟩
      · exact iff_of_true (fun _ => add_error hadd ▸ .refl a) (.inr ⟨e, rfl⟩)
      · cases failure with
        | none => exact iff_of_true (fun h => nomatch h) (.inl rfl)
        | some err =>
          obtain ⟨hold, hnew⟩ := add_ok hadd
          refine iff_of_false (fun h => ?_) (by simp)
          have hname := (h rfl).pools cfg.name
          simp only [PoolManager.getSubmitter, Admin.saved, hold, hnew] at hname
          cases hname

/-- A route that sends all to one pool. -/
def sendsTo (pool : String) : MTRoute where
  msisdnPrefix := star
  strategy := ascii "failover"
  pools := [⟨ascii pool, 0⟩]

/-- A route replaces the one of its prefix, its write fails, and the answer is 500: the
table has the new route and the store still has the old one. -/
theorem refused_route_is_live :
    let a : Admin := { mtRoutes := [sendsTo "old"], mtRecords := saveMTRoute .empty (sendsTo "old") }
    let refused := a.handle .insertion (fun _ => .ok 0) (some (ascii "disk full"))
      (.mtRoute (some (sendsTo "new")))
    refused.1 = .internalServerError (ascii "disk full") ∧
      refused.2.mtRecords = a.mtRecords ∧ ¬ SameLive refused.2 a := by
  refine ⟨rfl, rfl, fun h => ?_⟩
  have hkept := (addRoute_perm_iff .insertion [sendsTo "old"] (sendsTo "new")).mp h.mtRoutes
  exact absurd hkept (by decide)

end Routes

end SmscGateway
