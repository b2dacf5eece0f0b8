import SmscGateway.Auth.Credentials
import SmscGateway.Common.Goroutine

/-!
# Revocation

`Validate`, `ChangePassword` and `Update` read a record, change it and write it
back. Nothing ties the write to the read: a `Revoke` or `Delete` that falls
between them is undone by it. Only such a late write can bring a revoked
credential back (`revoked_stays_revoked`); every other function that succeeds
has found the record.
-/

namespace SmscGateway

open List

namespace Auth

/-! ## The functions step by step -/

/-- A call of one of the stores' functions, or the store step it ends with. -/
inductive Action
  | createKey (plainKey id label : Bytes) (rateLimit : ℤ)
  | validate (bearerToken : Bytes)
  | revoke (id : Bytes)
  | createUser (username password role : Bytes)
  | authenticateUser (username password : Bytes)
  | validateJWT (token : Bytes)
  | changePassword (username oldPass newPass : Bytes)
  | deleteUser (username : Bytes)
  | createConfig (systemID : Bytes) (cfg : ClientConfig)
  | updateConfig (systemID : Bytes) (cfg : ClientConfig)
  | authenticateConfig (systemID plainPassword : Bytes)
  | deleteConfig (systemID : Bytes)
  /-- The `SetJSON` that ends a `Create`. -/
  | create (r : Record)
  /-- The `SetJSON` with a record that was read before. -/
  | writeBack (r : Record)
  | deleteKey (c : Credential)
  deriving DecidableEq

/-- What the environment contributes. -/
structure Input where
  now : Time := 0
  /-- The salt bcrypt draws. -/
  salt : ℕ := 0
  /-- Does the database take the write or the deletion? -/
  written : Bool := true
  deriving DecidableEq

/-- What an observer sees. -/
inductive Obs
  /-- A `Validate`, `Authenticate` or `ValidateJWT` succeeds. -/
  | granted (c : Credential)
  | created (c : Credential)
  /-- A `Revoke` or `Delete` returns success. -/
  | revoked (c : Credential)
  deriving DecidableEq

/-- What a step of the stores does. -/
abbrev AuthEffect := Effect Store Action Obs

/-- `DeleteKey` at the end of a `Revoke` or `Delete`. -/
def deleting (s : Store) (i : Input) (c : Credential) : AuthEffect :=
  if i.written then { state := s.deleteKey c, seen := [.revoked c] } else { state := s }

/-- One step. -/
def exec (crypto : Crypto) (s : Store) (i : Input) : Action → Option AuthEffect
  | .createKey plainKey id label rateLimit =>
    let keyHash := crypto.sha256 plainKey
    some
      { state := s
        next := [.create (.apiKey keyHash ⟨id, keyHash, label, rateLimit, i.now, 0⟩)] }
  | .validate bearerToken =>
    let keyHash := crypto.sha256 bearerToken
    match s.apiKeys.find? keyHash with
    | none => some { state := s }
    | some k =>
      some
        { state := s
          next := [.writeBack (.apiKey keyHash { k with lastUsed := i.now })]
          seen := [.granted (.apiKey keyHash)] }
  | .revoke id =>
    match s.findKeyByID id with
    | none => some { state := s }
    | some keyHash => some { state := s, next := [.deleteKey (.apiKey keyHash)] }
  | .createUser username password role =>
    match crypto.generate i.salt password with
    | none => some { state := s }
    | some passwordHash =>
      some
        { state := s
          next := [.create (.user username ⟨username, passwordHash, role, i.now, false⟩)] }
  | .authenticateUser username password =>
    match s.users.find? username with
    | none => some { state := s }
    | some u =>
      if crypto.compare u.passwordHash password then
        some { state := s, seen := [.granted (.user username)] }
      else some { state := s }
  | .validateJWT token =>
    match crypto.verify token with
    | none => some { state := s }
    | some claims =>
      if i.now > claims.exp then some { state := s }
      else
        match s.users.find? claims.sub with
        | none => some { state := s }
        | some _ => some { state := s, seen := [.granted (.user claims.sub)] }
  | .changePassword username oldPass newPass =>
    match s.users.find? username with
    | none => some { state := s }
    | some u =>
      if crypto.compare u.passwordHash oldPass then
        match crypto.generate i.salt newPass with
        | none => some { state := s }
        | some passwordHash =>
          some
            { state := s
              next := [.writeBack (.user username { u with passwordHash, mustChange := false })] }
      else some { state := s }
  | .deleteUser username => some (deleting s i (.user username))
  | .createConfig systemID cfg =>
    if systemID = [] ∨ (s.connConfigs.find? systemID).isSome ∨ cfg.password = [] then
      some { state := s }
    else
      match crypto.generate i.salt cfg.password with
      | none => some { state := s }
      | some password =>
        some
          { state := s
            next := [.create (.connConfig systemID
              { cfg with password, createdAt := i.now, updatedAt := i.now })] }
  | .updateConfig systemID cfg =>
    if systemID = [] then some { state := s }
    else
      match s.connConfigs.find? systemID with
      | none => some { state := s }
      | some existing =>
        match mergeConfig crypto i.salt i.now existing cfg with
        | none => some { state := s }
        | some merged =>
          some { state := s, next := [.writeBack (.connConfig systemID merged)] }
  | .authenticateConfig systemID plainPassword =>
    match authenticate crypto s systemID plainPassword with
    | .found _ => some { state := s, seen := [.granted (.connConfig systemID)] }
    | .notFound => some { state := s }
    | .refused => some { state := s }
  | .deleteConfig systemID => some (deleting s i (.connConfig systemID))
  | .create r =>
    if i.written then some { state := s.setJSON r, seen := [.created r.credential] }
    else some { state := s }
  | .writeBack r => some { state := if i.written then s.setJSON r else s }
  | .deleteKey c => some (deleting s i c)

/-- Any of the functions may be called at any time. -/
def entry : Action → Bool
  | .create _ | .writeBack _ | .deleteKey _ => false
  | _ => true

/-- The three stores as a program. -/
def program (crypto : Crypto) : Program Store Input Action Obs := ⟨entry, exec crypto⟩

/-! ## What a step can do -/

variable {crypto : Crypto} {s : Store} {i : Input} {a : Action} {r : AuthEffect}

/-- **What a step does**: it leaves the store alone and grants only what is
there, or it is the store step of a creation, of a write-back or of a
deletion. -/
theorem exec_cases (h : exec crypto s i a = some r) :
    (r.state = s ∧ ∀ o ∈ r.seen, ∃ c, o = .granted c ∧ s.has c = true) ∨
    (∃ rec, r.state = s.setJSON rec ∧ r.seen = [.created rec.credential]) ∨
    (∃ rec, a = .writeBack rec ∧ r.state = s.setJSON rec ∧ r.seen = []) ∨
    (∃ c, r.state = s.deleteKey c ∧ r.seen = [.revoked c]) := by
  have hquiet : ∀ {next : List Action}, some ({ state := s, next } : AuthEffect) = some r →
      r.state = s ∧ ∀ o ∈ r.seen, ∃ c, o = .granted c ∧ s.has c = true := by
    intro next h
    cases h
    exact ⟨rfl, fun o ho => by cases ho⟩
  have hgrant : ∀ {next : List Action} {c : Credential}, s.has c = true →
      some ({ state := s, next, seen := [.granted c] } : AuthEffect) = some r →
      r.state = s ∧ ∀ o ∈ r.seen, ∃ c, o = .granted c ∧ s.has c = true := by
    intro next c hc h
    cases h
    exact ⟨rfl, fun o ho => ⟨c, mem_singleton.mp ho, hc⟩⟩
  have hdelete : ∀ {c : Credential}, some (deleting s i c) = some r →
      (r.state = s ∧ ∀ o ∈ r.seen, ∃ c, o = .granted c ∧ s.has c = true) ∨
      ∃ c, r.state = s.deleteKey c ∧ r.seen = [.revoked c] := by
    intro c h
    unfold deleting at h
    split at h
    · cases h
      exact .inr ⟨c, rfl, rfl⟩
    · exact .inl (hquiet h)
  cases a with
  | createKey | revoke | createUser | changePassword | createConfig | updateConfig =>
    simp only [exec] at h
    repeat' split at h
    all_goals exact .inl (hquiet h)
  | validate bearerToken =>
    simp only [exec] at h
    split at h
    · exact .inl (hquiet h)
    · rename_i k hfind
      exact .inl (hgrant (by simp [Store.has, hfind]) h)
  | authenticateUser username password =>
    simp only [exec] at h
    split at h
    · exact .inl (hquiet h)
    · rename_i u hfind
      split at h
      · exact .inl (hgrant (by simp [Store.has, hfind]) h)
      · exact .inl (hquiet h)
  | validateJWT token =>
    simp only [exec] at h
    split at h
    · exact .inl (hquiet h)
    · split at h
      · exact .inl (hquiet h)
      · split at h
        · exact .inl (hquiet h)
        · rename_i u hfind
          exact .inl (hgrant (by simp [Store.has, hfind]) h)
  | authenticateConfig systemID plainPassword =>
    simp only [exec] at h
    split at h
    · rename_i cfg hfound
      refine .inl (hgrant ?_ h)
      simp [Store.has, (authenticate_found hfound).1]
    · exact .inl (hquiet h)
    · exact .inl (hquiet h)
  | deleteUser | deleteConfig | deleteKey =>
    rcases hdelete h with h | h
    · exact .inl h
    · exact .inr (.inr (.inr h))
  | create rec =>
    simp only [exec] at h
    split at h
    · cases h
      exact .inr (.inl ⟨rec, rfl, rfl⟩)
    · exact .inl (hquiet h)
  | writeBack rec =>
    cases h
    dsimp only
    split
    · exact .inr (.inr (.inl ⟨rec, rfl, rfl, rfl⟩))
    · exact .inl ⟨rfl, fun o ho => by cases ho⟩

/-! ## Runs -/

/-- The credential was revoked and not created again since. -/
def Gone (trace : List Obs) (c : Credential) : Prop :=
  ∃ before after, trace = before ++ .revoked c :: after ∧ .created c ∉ after

/-- A record is written back only while there still is one. -/
def Fresh (conf : Conf Store Action Obs) (_ : Input) (a : Action) : Prop :=
  ∀ rec, a = .writeBack rec → conf.shared.has rec.credential = true

instance (conf : Conf Store Action Obs) (i : Input) (a : Action) : Decidable (Fresh conf i a) :=
  match a with
  | .writeBack rec =>
    decidable_of_iff (conf.shared.has rec.credential = true)
      ⟨fun h _ hrec => Action.writeBack.inj hrec ▸ h, fun h => h rec rfl⟩
  | .createKey .. | .validate _ | .revoke _ | .createUser .. | .authenticateUser ..
  | .validateJWT _ | .changePassword .. | .deleteUser _ | .createConfig .. | .updateConfig ..
  | .authenticateConfig .. | .deleteConfig _ | .create _ | .deleteKey _ =>
    .isTrue fun _ h => by cases h

/-- A credential is gone after more has been seen only if it was before, or has
just been revoked. -/
theorem gone_append {trace seen : List Obs} {c : Credential} (h : Gone (trace ++ seen) c) :
    .revoked c ∈ seen ∨ (Gone trace c ∧ .created c ∉ seen) := by
  obtain ⟨before, after, heq, hnot⟩ := h
  rcases append_eq_append_iff.mp heq with ⟨l, hbefore, hseen⟩ | ⟨l, htrace, hafter⟩
  · -- the revocation is among what was seen last
    exact .inl (hseen ▸ mem_append_right _ mem_cons_self)
  · cases l with
    | nil =>
      simp only [nil_append] at hafter
      exact .inl (hafter ▸ mem_cons_self)
    | cons o l =>
      obtain ⟨rfl, rfl⟩ := cons.inj hafter
      refine .inr ⟨⟨before, l, htrace, fun hmem => ?_⟩, fun hmem => ?_⟩
      · exact hnot (mem_append_left _ hmem)
      · exact hnot (mem_append_right _ hmem)

variable {s₀ : Store} {conf : Conf Store Action Obs}

/-- What is gone is not in the store. -/
theorem has_of_gone
    (h : (program crypto).Reaches (Program.When Fresh) ⟨s₀, [], []⟩ conf) {c : Credential}
    (hgone : Gone conf.trace c) : conf.shared.has c = false := by
  refine h.invariant (I := fun conf => ∀ c, Gone conf.trace c → conf.shared.has c = false)
    ?_ ?_ c hgone
  · rintro c ⟨before, after, heq, -⟩
    simp at heq
  · intro conf e conf' ih hok hs c hgone
    rcases Program.step_cases hs with ⟨-, -, -, hshared, -, htr⟩ |
      ⟨j, input, a, r, -, rfl, hhead, hexec, -, hshared, -, htr⟩
    · rw [hshared]
      exact ih c (htr ▸ hgone)
    · rw [htr] at hgone
      rw [hshared]
      rcases exec_cases hexec with ⟨hstate, hseen⟩ | ⟨rec, hstate, hseen⟩ |
        ⟨rec, rfl, hstate, hseen⟩ | ⟨d, hstate, hseen⟩
      · rw [hstate]
        rcases gone_append hgone with hrev | ⟨hgone, -⟩
        · obtain ⟨c', hc', -⟩ := hseen _ hrev
          cases hc'
        · exact ih c hgone
      · rcases gone_append hgone with hrev | ⟨hgone, hnot⟩
        · rw [hseen] at hrev
          cases mem_singleton.mp hrev
        · have hne : c ≠ rec.credential := by
            rintro rfl
            exact hnot (hseen ▸ mem_singleton_self _)
          rw [hstate, Store.has_setJSON, if_neg hne]
          exact ih c hgone
      · -- the record that is written back is still there, so it is not `c`'s
        rw [hseen, append_nil] at hgone
        have hold := ih c hgone
        have hne : c ≠ rec.credential := by
          rintro rfl
          have hfresh := hok _ hhead rec rfl
          exact absurd (hold.symm.trans hfresh) (by decide)
        rw [hstate, Store.has_setJSON, if_neg hne]
        exact hold
      · rw [hstate, Store.has_deleteKey]
        split
        · rfl
        · rename_i hne
          rcases gone_append hgone with hrev | ⟨hgone, -⟩
          · rw [hseen] at hrev
            exact absurd (Obs.revoked.inj (mem_singleton.mp hrev)) hne
          · exact ih c hgone

/-- **When revocation is permanent.** In every run in which no record is
written back after it was deleted, a credential whose `Revoke` or `Delete` has
returned, and that was not created again, is not granted any more. -/
theorem revoked_stays_revoked (crypto : Crypto) (s₀ : Store) {conf : Conf Store Action Obs}
    (h : (program crypto).Reaches (Program.When Fresh) ⟨s₀, [], []⟩ conf) {c : Credential}
    (hgone : Gone conf.trace c) : ¬ (program crypto).Shows conf (.granted c) := by
  rintro ⟨i, input, a, r, -, hexec, hshown⟩
  have hnot := has_of_gone h hgone
  rcases exec_cases hexec with ⟨-, hseen⟩ | ⟨rec, -, hseen⟩ | ⟨rec, -, -, hseen⟩ | ⟨d, -, hseen⟩
  · obtain ⟨c', hc', hhas⟩ := hseen _ hshown
    obtain rfl := Obs.granted.inj hc'
    exact absurd (hnot.symm.trans hhas) (by decide)
  · rw [hseen] at hshown
    cases mem_singleton.mp hshown
  · rw [hseen] at hshown
    cases hshown
  · rw [hseen] at hshown
    cases mem_singleton.mp hshown

/-! ## A key is revoked while it is used -/

/-- Primitives that hide nothing. -/
def plainCrypto : Crypto where
  sha256 := id
  generate _ password := some password
  compare hash password := hash = password
  verify token := some ⟨token, 0⟩

/-- Goroutine `i` makes a call and takes its first `n` steps. -/
def calls (i : ℕ) (a : Action) (n : ℕ) : List (Event Input Action) :=
  .start a :: List.replicate n (.run i {})

/-- The token of a key and the id of the key. -/
def token : Bytes := ascii "sk_live_1"

@[inherit_doc token]
def keyID : Bytes := ascii "key_1"

/-- A key is created, used, and revoked after its use was recorded; then it is
presented again. -/
theorem recorded_use_stays_revoked :
    ∃ conf, (program plainCrypto).Reaches (Program.When Fresh) ⟨.empty, [], []⟩ conf ∧
      .granted (.apiKey token) ∈ conf.trace ∧ Gone conf.trace (.apiKey token) ∧
      conf.head 3 = some (.validate token) ∧
      ¬ (program plainCrypto).Shows conf (.granted (.apiKey token)) := by
  have h := (program plainCrypto).reaches_outcome (Program.When Fresh) ⟨.empty, [], []⟩
    (calls 0 (.createKey token keyID [] 0) 2 ++ calls 1 (.validate token) 2 ++
      calls 2 (.revoke keyID) 2 ++ calls 3 (.validate token) 0) (by decide)
  have hgone : Gone ((program plainCrypto).outcome (Program.When Fresh) ⟨.empty, [], []⟩
      (calls 0 (.createKey token keyID [] 0) 2 ++ calls 1 (.validate token) 2 ++
        calls 2 (.revoke keyID) 2 ++ calls 3 (.validate token) 0)).trace (.apiKey token) :=
    ⟨[.created (.apiKey token), .granted (.apiKey token)], [], by decide, by decide⟩
  exact ⟨_, h, by decide, hgone, by decide, revoked_stays_revoked plainCrypto _ h hgone⟩

/-- The key is revoked between the read of a `Validate` and its write, which
brings the record back: the key is accepted again. -/
theorem late_write_undoes_revocation :
    ∃ conf, (program plainCrypto).Reaches Program.Anything ⟨.empty, [], []⟩ conf ∧
      Gone conf.trace (.apiKey token) ∧
      (program plainCrypto).Shows conf (.granted (.apiKey token)) := by
  refine Program.exists_reached (calls 0 (.createKey token keyID [] 0) 2 ++ calls 1 (.validate
    token) 1 ++ calls 2 (.revoke keyID) 2 ++ [.run 1 {}] ++ calls 3 (.validate token) 0) (by decide)
    fun _ => ⟨⟨[.created (.apiKey token), .granted (.apiKey token)], [], by decide, by decide⟩,
    (program plainCrypto).shows_of_head 3 {} (by decide)⟩

end Auth

end SmscGateway
