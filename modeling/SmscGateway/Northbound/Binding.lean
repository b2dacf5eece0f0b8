import SmscGateway.Northbound.Answers

/-!
# Who may bind

`handleBind` verifies the credentials against the stored client configurations
when `handleConnection` found the store attached, and falls back to the global
password, which may be empty, when it did not. `run` starts the listener
before it attaches the store, so a connection may be handled in between; it
keeps the fallback for as long as it lasts. `bound_was_verified` says when no
session is bound without verification.
-/

namespace SmscGateway

namespace Auth

/-- bcrypt accepts a password for a hash exactly if the hash was made from
it. -/
def Crypto.Exact (crypto : Crypto) : Prop :=
  ∀ salt secret hash plain, crypto.generate salt secret = some hash →
    (crypto.compare hash plain = true ↔ plain = secret)

end Auth

/-! ## Becoming bound -/

namespace Server

theorem isBound_modify {s : Server} {q : ℕ} {f : Connection → Connection}
    (hf : ∀ conn, (f conn).bound = conn.bound) (p : ℕ) :
    (s.modify q f).isBound p = s.isBound p := by
  rw [isBound, isBound, heap_modify]
  cases s.heap[p]? with
  | none => rfl
  | some conn => by_cases hqp : q = p <;> simp [hqp, hf]

theorem isBound_foldl_close (l : List ℕ) (s : Server) (p : ℕ) :
    (l.foldl close s).isBound p = s.isBound p := by
  induction l generalizing s with
  | nil => rfl
  | cons q l ih =>
    rw [List.foldl_cons, ih (s.close q)]
    exact isBound_modify (f := fun c => { c with closed := true }) (fun _ => rfl) p

theorem isBound_disconnect (s : Server) (q : ℕ) (now : Time) (p : ℕ) :
    (s.disconnect q now).isBound p = s.isBound p := by
  have hheap := heap_disconnect s q now
  have hmod := isBound_modify (s := s) (q := q) (f := fun c => { c with ended := true })
    (fun _ => rfl) p
  rw [← hmod, isBound, isBound, hheap]

theorem isBound_register (s : Server) (q : ℕ) (systemID : Bytes) (p : ℕ) :
    (s.register q systemID).isBound p = s.isBound p := by
  unfold register
  split
  · rename_i old _
    exact isBound_modify (s := s) (q := old) (f := fun c => { c with closed := true })
      (fun _ => rfl) p
  · rfl

theorem isBound_accept {s : Server} {p : ℕ} (h : s.accept.isBound p = true) :
    s.isBound p = true := by
  obtain ⟨conn, hconn, hbound⟩ := (Option.any_eq_true _ _).mp h
  rw [accept, List.getElem?_append] at hconn
  split at hconn
  · exact (Option.any_eq_true _ _).mpr ⟨conn, hconn, hbound⟩
  · obtain rfl := List.mem_singleton.mp (List.mem_of_getElem? hconn)
    cases hbound

end Server

namespace Northbound

open Smpp Server

/-- Only the end of `handleBind` binds a session. -/
theorem ServerStep.bound {i : Input} {s s' : Server} {a : Action} (h : ServerStep i s a s') {p : ℕ}
    (hnot : s.isBound p = false) (hbound : s'.isBound p = true) :
    ∃ n pdu connCfg, a = .session p (.acceptBind n pdu connCfg) := by
  have hsame : ∀ {b : Bool}, s.isBound p = b → b = true → False := by
    rintro b hb rfl
    rw [hnot] at hb
    cases hb
  cases h with
  | same => exact (hsame rfl hbound).elim
  | touch q hf hkeep => exact (hsame (isBound_modify hkeep p).symm hbound).elim
  | bind q n pdu connCfg hf =>
    by_cases hqp : q = p
    · exact ⟨n, pdu, connCfg, by rw [hqp]⟩
    · have hother : ∀ f, (s.modify q f).isBound p = s.isBound p := by
        intro f
        rw [isBound, isBound, heap_modify]
        simp [hqp]
      exact (hsame (hother _).symm hbound).elim
  | accept remoteIP => exact (hsame (isBound_accept hbound) rfl).elim
  | setID q systemID =>
    have hkeep := isBound_modify (s := s) (q := q)
      (f := fun c => { c with id := systemID }) (fun _ => rfl) p
    exact (hsame hkeep.symm hbound).elim
  | register q systemID => exact (hsame (isBound_register s q systemID p).symm hbound).elim
  | cleanUp q => exact (hsame (isBound_disconnect s q i.now p).symm hbound).elim
  | closeAll => exact (hsame (isBound_foldl_close _ s p).symm hbound).elim

/-! ## Verification -/

/-- **The credentials of a bind request are good**: `Authenticate` finds an
enabled client configuration with this password, which admits the session's
remote address and the bind mode. -/
structure Verified (crypto : Auth.Crypto) (auth : Auth.Store) (link : Link) (pdu : PDU)
    (connCfg : Auth.ClientConfig) : Prop where
  authenticated :
    Auth.authenticate crypto auth (bindSystemID pdu) (bindPassword pdu) = .found connCfg
  stored : auth.connConfigs.find? (bindSystemID pdu) = some connCfg
  enabled : connCfg.enabled = true
  password : ∀ salt secret, crypto.generate salt secret = some connCfg.password →
    bindPassword pdu = secret
  remoteIP : connCfg.allowedIPs ≠ [] → link.remoteIP ∈ connCfg.allowedIPs
  bindMode : connCfg.allowedBindModes ≠ [] →
    (bindModeFromCommandID pdu.commandID).name ∈ connCfg.allowedBindModes

variable {pdu : PDU} {found : Option Auth.ClientConfig}

/-- What `handleBind` establishes when it has a store. -/
theorem checkBind_verified {cfg : Config} (hexact : cfg.crypto.Exact) {auth : Auth.Store}
    {link : Link} (hstore : link.connConfigStore = true)
    (h : checkBind cfg auth link pdu = .ok found) :
    ∃ connCfg, Verified cfg.crypto auth link pdu connCfg := by
  simp only [checkBind, hstore, if_true] at h
  split at h
  · rename_i connCfg hauth
    split at h
    · cases h
    · rename_i hip
      split at h
      · cases h
      · rename_i hmode
        obtain ⟨hfind, henabled, hcompare⟩ := Auth.authenticate_found hauth
        refine ⟨connCfg, hauth, hfind, henabled, ?_, ?_, ?_⟩
        · intro salt secret hhash
          exact (hexact salt secret _ _ hhash).mp hcompare
        · intro hne
          by_contra hnot
          exact hip ⟨hne, hnot⟩
        · intro hne
          by_contra hnot
          exact hmode ⟨hne, hnot⟩
  · cases h
  · cases h

/-- Without a store the global configuration decides. -/
theorem legacyAccepts_of_checkBind {cfg : Config} {auth : Auth.Store} {link : Link}
    (hstore : link.connConfigStore ≠ true) (h : checkBind cfg auth link pdu = .ok found) :
    legacyAccepts cfg (bindSystemID pdu) (bindPassword pdu) = true := by
  simp only [checkBind, if_neg hstore] at h
  split at h
  · assumption
  · cases h

/-! ## Runs -/

/-- The session and the request that are checked. -/
def Action.authenticates : Action → Option (ℕ × PDU)
  | .session p (.authenticate _ pdu) => some (p, pdu)
  | _ => none

/-- A request is checked against the store, or the global configuration turns
it down. -/
def Guarded (cfg : Config) (c : NorthConf) (_ : Input) (a : Action) : Prop :=
  ∀ x ∈ a.authenticates, ∀ link ∈ c.shared.links[x.1]?, link.connConfigStore = true ∨
    legacyAccepts cfg (bindSystemID x.2) (bindPassword x.2) = false
  deriving Decidable

/-- In the run that led to `c`, the request was verified. -/
def WasVerified (cfg : Config) (ok : NorthConf → Event Input Action → Prop) (c₀ c : NorthConf)
    (p : ℕ) (pdu : PDU) : Prop :=
  ∃ c₁ link connCfg, (program cfg).Reaches ok c₀ c₁ ∧ (program cfg).Reaches ok c₁ c ∧
    c₁.shared.links[p]? = some link ∧ Verified cfg.crypto c₁.shared.auth link pdu connCfg

variable {cfg : Config} {auth : Auth.Store} {c : NorthConf}

/-- A request that is about to be accepted was verified. -/
theorem verified_of_accept (hexact : cfg.crypto.Exact)
    (h : (program cfg).Reaches (Program.When (Guarded cfg)) (NorthConf.start auth) c) {p n : ℕ}
    (hmem : .session p (.acceptBind n pdu found) ∈ c.actions) :
    WasVerified cfg (Program.When (Guarded cfg)) (NorthConf.start auth) c p pdu := by
  induction h with
  | start => simp [NorthConf.start, Conf.actions] at hmem
  | @step c c' e hreach hok hs ih =>
    -- what was verified before the step was verified before what follows it
    have hold : .session p (.acceptBind n pdu found) ∈ c.actions →
        WasVerified cfg (Program.When (Guarded cfg)) (NorthConf.start auth) c' p pdu := by
      intro hbefore
      obtain ⟨c₁, link, connCfg, hfirst, hthen, hlink, hver⟩ := ih hbefore
      exact ⟨c₁, link, connCfg, hfirst, hthen.step hok hs, hlink, hver⟩
    rcases Program.step_cases hs with ⟨a, -, hst⟩ | ⟨j, input, a, r, rest, rfl, hran⟩
    · rcases hst.cases hmem with rfl | hmem
      · cases hst.entry
      · exact hold hmem
    · rcases hran.cases hmem with hmem | hmem
      · rcases session_of_next hran.exec hmem with ⟨a', e, rfl, he, -, -, hb⟩ | ⟨-, -, -, -, heq⟩
        · cases execSession_follows he hb with
          | @acceptBind _ _ link _ hlink hcheck =>
            have hguard := hok _ hran.head (p, pdu) rfl link hlink
            have hstore : link.connConfigStore = true := by
              by_contra hnot
              have hlegacy := legacyAccepts_of_checkBind hnot hcheck
              rcases hguard with hstore | hreject
              · exact hnot hstore
              · rw [hreject] at hlegacy
                cases hlegacy
            obtain ⟨connCfg, hver⟩ := checkBind_verified hexact hstore hcheck
            exact ⟨c, link, connCfg, hreach, Program.Reaches.start.step hok hs, hlink, hver⟩
        · cases heq
      · exact hold (hran.pending hmem)

/-- **When every bound session was verified.** In every run in which each bind
request is checked against the store or turned down by the global
configuration: a step that binds a session follows a bind request that was read
on it and whose credentials were verified. -/
theorem bound_was_verified (cfg : Config) (hexact : cfg.crypto.Exact) (auth : Auth.Store)
    {c c' : NorthConf} {e : Event Input Action} {p : ℕ}
    (h : (program cfg).Reaches (Program.When (Guarded cfg)) (NorthConf.start auth) c)
    (hs : (program cfg).step c e = some c') (hnot : c.shared.server.isBound p = false)
    (hbound : c'.shared.server.isBound p = true) :
    ∃ n pdu, .read n p pdu ∈ c.trace ∧ isBind pdu = true ∧
      ∃ c₁ link connCfg,
        (program cfg).Reaches (Program.When (Guarded cfg)) (NorthConf.start auth) c₁ ∧
        (program cfg).Reaches (Program.When (Guarded cfg)) c₁ c ∧
        c₁.shared.links[p]? = some link ∧
        Verified cfg.crypto c₁.shared.auth link pdu connCfg := by
  have htraced : Traced c := h.invariant (traced_start auth) fun _ _ _ hc _ hs => step_traced hc hs
  rcases Program.step_cases hs with ⟨a, -, hst⟩ | ⟨j, input, a, r, rest, rfl, hran⟩
  · rw [hst.shared, hnot] at hbound
    cases hbound
  · rw [hran.shared] at hbound
    obtain ⟨n, pdu, connCfg, rfl⟩ := (exec_server hran.exec).bound hnot hbound
    obtain ⟨hread, hbind⟩ := htraced p _ hran.mem
    exact ⟨n, pdu, hread, hbind, verified_of_accept hexact h hran.mem⟩

theorem exact_plainCrypto : Auth.plainCrypto.Exact := by
  intro salt secret hash plain h
  cases h
  simp only [Auth.plainCrypto, decide_eq_true_eq]
  exact eq_comm

/-- A client connects after the store was attached and asks to bind; its
credentials are checked. -/
def asksToBind : List (Event Input Action) :=
  steps 0 2 ++ connects 1 [] ++ reads 1 (bindTransceiver alpha alpha) 2

/-- The next step binds it. -/
theorem client_is_verified :
    ∃ c c', (program plainConfig).Reaches (Program.When (Guarded plainConfig))
        (NorthConf.start clients) c ∧
      (program plainConfig).step c (.run 1 {}) = some c' ∧
      c.shared.server.isBound 0 = false ∧ c'.shared.server.isBound 0 = true ∧
      ∃ auth link pdu connCfg, Verified plainConfig.crypto auth link pdu connCfg := by
  have h := (program plainConfig).reaches_outcome (Program.When (Guarded plainConfig))
    (NorthConf.start clients) asksToBind (by decide)
  have hnext : (((program plainConfig).step ((program plainConfig).outcome
      (Program.When (Guarded plainConfig)) (NorthConf.start clients) asksToBind) (.run 1 {})).any
      fun c' => c'.shared.server.isBound 0) = true := by decide
  obtain ⟨c', hc', hbound⟩ := (Option.any_eq_true _ _).mp hnext
  obtain ⟨n, pdu, -, -, c₁, link, connCfg, -, -, -, hver⟩ :=
    bound_was_verified _ exact_plainCrypto _ h hc' (by decide) hbound
  exact ⟨_, c', h, hc', by decide, hbound, c₁.shared.auth, link, pdu, connCfg, hver⟩

/-- The server password is the default of `LoadConfig`. -/
def defaultConfig : Config := { plainConfig with serverPassword := ascii "password" }

/-- There is no client configuration at all. An engine connects between the
start of the listener and the moment the store is attached, and binds
afterwards under any system id with the server password. -/
theorem early_connection_binds_unverified :
    ∃ c, (program defaultConfig).Reaches Program.Anything
        (NorthConf.start Auth.Store.empty) c ∧
      c.shared.connConfigStore = true ∧ c.shared.auth = Auth.Store.empty ∧
      c.shared.server.isBound 0 = true ∧ c.shared.server.getConnection alpha = some 0 := by
  exact Program.exists_reached (steps 0 1 ++ connects 1 [] ++ steps 0 1 ++ reads 1 (bindTransceiver
    alpha (ascii "password")) 6) (by decide) fun _ => ⟨by decide, by decide, by decide, by decide⟩

end Northbound

end SmscGateway
