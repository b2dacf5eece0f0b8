import SmscGateway.Auth.Revocation

/-!
# Accounts and their history

`Update` merges a request into the stored record, and an empty password keeps the
old hash. So what a client has to present depends on the whole history of its
account. Here the calls of `ConnectionConfigStore` are made one after the other,
and `Authenticate` is compared with what the history says
(`authenticate_follows_history`).
-/

namespace SmscGateway

open List Option

namespace Auth

/-! ## Calls, one after the other -/

/-- A call of `ConnectionConfigStore` that changes an account. -/
inductive Call
  | create (systemID : Bytes) (cfg : ClientConfig)
  | update (systemID : Bytes) (cfg : ClientConfig)
  | delete (systemID : Bytes)
  deriving DecidableEq

def Call.systemID : Call → Bytes
  | create systemID _ | update systemID _ | delete systemID => systemID

def Call.action : Call → Action
  | create systemID cfg => .createConfig systemID cfg
  | update systemID cfg => .updateConfig systemID cfg
  | delete systemID => .deleteConfig systemID

/-- A call that nothing interrupts: the store it leaves, `none` when it returns an
error. `Create` and `Update` succeed with their `SetJSON`, `Delete` is a single
step. -/
def perform (crypto : Crypto) (s : Store) (i : Input) (call : Call) : Option Store :=
  (exec crypto s i call.action).bind fun r =>
    match r.next with
    | [] => if r.seen = [] then none else some r.state
    | b :: _ => if i.written then (exec crypto r.state i b).map (·.state) else none

/-- The store after some calls, and which of them succeeded, the last one first. -/
def administer (crypto : Crypto) : List (Call × Input) → Store × List Call :=
  foldl (fun (s, done) (call, i) =>
    match perform crypto s i call with
    | none => (s, done)
    | some s' => (s', call :: done)) (.empty, [])

/-- The configurations that successful calls gave an account since its creation,
the last one first. -/
def since (id : Bytes) : List Call → List ClientConfig
  | [] => []
  | .create systemID cfg :: done => if systemID = id then [cfg] else since id done
  | .update systemID cfg :: done => if systemID = id then cfg :: since id done else since id done
  | .delete systemID :: done => if systemID = id then [] else since id done

/-- bcrypt as far as the store relies on it. -/
structure Crypto.Bcrypt (crypto : Crypto) : Prop where
  refuses : ∀ salt p, crypto.generate salt p = none ↔ 72 < p.length
  compares : ∀ {salt p h}, crypto.generate salt p = some h → ∀ q, crypto.compare h q = true ↔ q = p

/-- What `Authenticate` has to say of a client with this history. -/
def Follows (id p : Bytes) (done : List Call) (r : Authenticated) : Prop :=
  match done.find? (·.systemID = id) with
  | none | some (.delete _) => r = .notFound
  | some (.create _ cfg) | some (.update _ cfg) =>
    r ≠ .notFound ∧ ((∃ stored, r = .found stored) ↔ cfg.enabled = true ∧
      ((since id done).find? (·.password ≠ [])).map (·.password) = some p)

/-! ## What a call does -/

variable {crypto : Crypto} {s s' : Store} {i : Input} {call : Call} {id p : Bytes} {done : List Call}

/-- **What a successful call does.** -/
theorem perform_cases (h : perform crypto s i call = some s') :
    (∃ id cfg password, call = .create id cfg ∧ cfg.password ≠ [] ∧
      crypto.generate i.salt cfg.password = some password ∧
      s' = s.setJSON (.connConfig id { cfg with password, createdAt := i.now, updatedAt := i.now })) ∨
    (∃ id cfg existing merged, call = .update id cfg ∧ s.connConfigs.find? id = some existing ∧
      mergeConfig crypto i.salt i.now existing cfg = some merged ∧
      s' = s.setJSON (.connConfig id merged)) ∨
    ∃ id, call = .delete id ∧ s' = s.deleteKey (.connConfig id) := by
  obtain ⟨r, hexec, h⟩ := bind_eq_some_iff.mp h
  cases call with
  | create id cfg =>
    simp only [Call.action, exec] at hexec
    split at hexec
    · cases hexec
      cases h
    · rename_i hnew
      split at hexec <;> cases hexec
      · cases h
      · rename_i password hhash
        obtain ⟨hwritten, h⟩ := ite_none_right_eq_some.mp h
        simp only [exec, hwritten, if_true, map_some, some.injEq] at h
        exact .inl ⟨id, cfg, password, rfl, (not_or.mp (not_or.mp hnew).2).2, hhash, h.symm⟩
  | update id cfg =>
    simp only [Call.action, exec] at hexec
    split at hexec
    · cases hexec
      cases h
    · split at hexec
      · cases hexec
        cases h
      · rename_i existing hfind
        split at hexec <;> cases hexec
        · cases h
        · rename_i merged hmerge
          obtain ⟨hwritten, h⟩ := ite_none_right_eq_some.mp h
          simp only [exec, hwritten, if_true, map_some, some.injEq] at h
          exact .inr (.inl ⟨id, cfg, existing, merged, rfl, hfind, hmerge, h.symm⟩)
  | delete id =>
    simp only [Call.action, exec, deleting] at hexec
    split at hexec <;> cases hexec <;> cases h
    exact .inr (.inr ⟨id, rfl, rfl⟩)

/-- A call changes its own account only. -/
theorem find?_perform (h : perform crypto s i call = some s') (hid : id ≠ call.systemID) :
    s'.connConfigs.find? id = s.connConfigs.find? id := by
  obtain ⟨id', cfg, password, rfl, -, -, rfl⟩ | ⟨id', cfg, existing, merged, rfl, -, -, rfl⟩ |
    ⟨id', rfl, rfl⟩ := perform_cases h
  · exact (SortedMap.find?_insert ..).trans (if_neg hid)
  · exact (SortedMap.find?_insert ..).trans (if_neg hid)
  · exact (SortedMap.find?_erase ..).trans (if_neg hid)

theorem since_of_ne (hid : id ≠ call.systemID) : since id (call :: done) = since id done := by
  cases call <;> exact if_neg (Ne.symm hid)

/-- The record of an account that was given these configurations, the last one
first: enabled as the last one says, with a hash of the last password. -/
def Kept (crypto : Crypto) (stored : Option ClientConfig) : List ClientConfig → Prop
  | [] => stored = none
  | last :: cfgs => ∃ cfg, stored = some cfg ∧ cfg.enabled = last.enabled ∧
      ∃ given, (last :: cfgs).find? (·.password ≠ []) = some given ∧
        ∃ salt, crypto.generate salt given.password = some cfg.password

theorem given_of_kept {existing : ClientConfig} {cfgs : List ClientConfig}
    (h : Kept crypto (some existing) cfgs) : ∃ given, cfgs.find? (·.password ≠ []) = some given ∧
      ∃ salt, crypto.generate salt given.password = some existing.password := by
  cases cfgs with
  | nil => cases h
  | cons last cfgs =>
    obtain ⟨_, ⟨⟩, -, hgiven⟩ := h
    exact hgiven

/-- **A call keeps record and history together.** -/
theorem kept_perform (h : perform crypto s i call = some s')
    (hs : ∀ id, Kept crypto (s.connConfigs.find? id) (since id done)) (id : Bytes) :
    Kept crypto (s'.connConfigs.find? id) (since id (call :: done)) := by
  by_cases hid : id = call.systemID
  · subst hid
    obtain ⟨id, cfg, password, rfl, hgiven, hhash, rfl⟩ |
      ⟨id, cfg, existing, merged, rfl, hfind, hmerge, rfl⟩ | ⟨id, rfl, rfl⟩ := perform_cases h
    · simp [Call.systemID, since, Kept, Store.setJSON, hgiven]
      exact ⟨i.salt, hhash⟩
    · obtain ⟨given, hold, salt, hsalt⟩ := given_of_kept (hfind ▸ hs id)
      unfold mergeConfig at hmerge
      split at hmerge
      · rename_i hempty
        cases hmerge
        simp [Call.systemID, since, Kept, Store.setJSON, hempty]
        exact ⟨given, by simpa using hold, salt, hsalt⟩
      · rename_i hgiven
        obtain ⟨password, hhash, rfl⟩ := map_eq_some_iff.mp hmerge
        simp [Call.systemID, since, Kept, Store.setJSON, hgiven]
        exact ⟨i.salt, hhash⟩
    · simp [Call.systemID, since, Kept, Store.deleteKey]
  · rw [find?_perform h hid, since_of_ne hid]
    exact hs id

theorem administer_concat (calls : List (Call × Input)) (call : Call) (i : Input) :
    administer crypto (calls ++ [(call, i)]) =
      match perform crypto (administer crypto calls).1 i call with
      | none => administer crypto calls
      | some s' => (s', call :: (administer crypto calls).2) := by
  rw [administer, foldl_concat]

theorem kept_administer (crypto : Crypto) (calls : List (Call × Input)) (id : Bytes) :
    Kept crypto ((administer crypto calls).1.connConfigs.find? id)
      (since id (administer crypto calls).2) := by
  induction calls using reverseRecOn generalizing id with
  | nil => rfl
  | append_singleton calls x ih =>
    rw [administer_concat]
    split
    · exact ih id
    · exact kept_perform ‹_› ih id

/-! ## Authentication -/

/-- The last call for an account says whether it exists. -/
theorem since_eq (id : Bytes) (done : List Call) :
    match done.find? (·.systemID = id) with
    | none | some (.delete _) => since id done = []
    | some (.create _ cfg) | some (.update _ cfg) => ∃ cfgs, since id done = cfg :: cfgs := by
  induction done with
  | nil => rfl
  | cons call done ih =>
    by_cases hid : id = call.systemID
    · subst hid
      cases call <;> simp [since, Call.systemID]
    · rw [since_of_ne hid, find?_cons_of_neg (by simpa using Ne.symm hid)]
      exact ih

/-- A stored record lets in who has its last password, while it is enabled. -/
theorem authenticate_kept (hb : crypto.Bcrypt) {last : ClientConfig} {cfgs : List ClientConfig}
    (h : Kept crypto (s.connConfigs.find? id) (last :: cfgs)) :
    authenticate crypto s id p ≠ .notFound ∧
      ((∃ stored, authenticate crypto s id p = .found stored) ↔ last.enabled = true ∧
        ((last :: cfgs).find? (·.password ≠ [])).map (·.password) = some p) := by
  obtain ⟨cfg, hfind, henabled, given, hgiven, salt, hhash⟩ := h
  have hpassword := (hb.compares hhash p).trans eq_comm
  rw [authenticate, hfind, hgiven, ← henabled, map_some, some.injEq, ← hpassword]
  cases hon : cfg.enabled <;> cases hcmp : crypto.compare cfg.password p <;> simp [hon, hcmp]

/-- **Authentication follows the history of the account**, whatever was done to
others and whatever failed. -/
theorem authenticate_follows_history (hb : crypto.Bcrypt) (calls : List (Call × Input))
    (id p : Bytes) :
    Follows id p (administer crypto calls).2 (authenticate crypto (administer crypto calls).1 id p) ∧
      ∀ call i, call.systemID ≠ id ∨ perform crypto (administer crypto calls).1 i call = none →
        authenticate crypto (administer crypto (calls ++ [(call, i)])).1 id p =
          authenticate crypto (administer crypto calls).1 id p := by
  have hkept := kept_administer crypto calls id
  constructor
  · have hsince := since_eq id (administer crypto calls).2
    have habsent : since id (administer crypto calls).2 = [] →
        authenticate crypto (administer crypto calls).1 id p = .notFound := by
      intro h
      rw [h] at hkept
      rw [authenticate, hkept]
    unfold Follows
    cases hlast : (administer crypto calls).2.find? (·.systemID = id) with
    | none => exact habsent (by simpa only [hlast] using hsince)
    | some call =>
      rw [hlast] at hsince
      cases call with
      | delete => exact habsent hsince
      | create _ cfg | update _ cfg =>
        obtain ⟨cfgs, heq⟩ := hsince
        rw [heq] at hkept ⊢
        exact authenticate_kept hb hkept
  · intro call i h
    rw [administer_concat]
    cases hperform : perform crypto (administer crypto calls).1 i call with
    | none => rfl
    | some s' =>
      have hid : id ≠ call.systemID := by
        rcases h with h | h
        · exact Ne.symm h
        · cases hperform.symm.trans h
      simp only [authenticate, find?_perform hperform hid]

/-- Primitives that hide nothing, with bcrypt's limit. -/
def limitedCrypto : Crypto :=
  { plainCrypto with generate := fun _ p => if 72 < p.length then none else some p }

theorem bcrypt_limitedCrypto : limitedCrypto.Bcrypt where
  refuses _ p := by simp [limitedCrypto]
  compares {_ p h} heq q := by
    obtain ⟨-, ⟨⟩⟩ := ite_none_left_eq_some.mp heq
    exact decide_eq_true_iff.trans eq_comm

/-- An account is created, and its description is updated without a password. -/
theorem first_password_stays :
    let cfg : ClientConfig := { password := [112], enabled := true }
    let calls : List (Call × Input) :=
      [(.create [97] cfg, {}), (.update [97] { cfg with password := [] }, {})]
    (administer limitedCrypto calls).2.length = 2 ∧
      ∃ stored, authenticate limitedCrypto (administer limitedCrypto calls).1 [97] [112] =
        .found stored := by
  refine ⟨by decide, ?_⟩
  have h := (authenticate_follows_history bcrypt_limitedCrypto
    [(.create [97] { password := [112], enabled := true }, {}),
      (.update [97] { password := [], enabled := true }, {})] [97] [112]).1
  exact h.2.mpr (by decide)

end Auth

end SmscGateway
