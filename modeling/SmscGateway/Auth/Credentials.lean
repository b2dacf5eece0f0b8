import SmscGateway.Gateway.Server

/-!
# The credential stores

API keys, admin users and client configurations: three namespaces of one
database without transactions. What the functions compute is here; the order
in which their store steps happen is up to their callers.

SHA-256, bcrypt and the signature of a JWT are not modelled: they are given as
functions (`Crypto`). The strings of these records come from JSON requests, so
JSON keeps them.
-/

namespace SmscGateway

namespace Auth

/-! ## Records -/

/-- `jwtClaims`, without the role and the time of issue, which nothing reads
back. -/
structure JWTClaims where
  sub : Bytes
  exp : ℕ
  deriving DecidableEq

/-- The primitives the stores rest on. -/
structure Crypto where
  /-- The hexadecimal SHA-256 of a token. -/
  sha256 : Bytes → Bytes
  /-- `bcrypt.GenerateFromPassword` with the salt it draws; it refuses a
  password that is too long. -/
  generate : ℕ → Bytes → Option Bytes
  /-- `bcrypt.CompareHashAndPassword` returns nil. -/
  compare : Bytes → Bytes → Bool
  /-- The claims of a token that is well formed and signed with the secret. -/
  verify : Bytes → Option JWTClaims

/-- `APIKey`. -/
structure APIKey where
  id : Bytes
  keyHash : Bytes
  label : Bytes
  rateLimit : ℤ
  createdAt : Time
  lastUsed : Time
  deriving DecidableEq

/-- `AdminUser`. -/
structure AdminUser where
  username : Bytes
  passwordHash : Bytes
  role : Bytes
  createdAt : Time
  mustChange : Bool
  deriving DecidableEq

/-- `BindMode` as a bind request has it. -/
inductive BindMode
  | transceiver
  | transmitter
  | receiver
  deriving DecidableEq

/-- `bindModeName`. -/
def BindMode.name : BindMode → Bytes
  | transmitter => ascii "transmitter"
  | receiver => ascii "receiver"
  | transceiver => ascii "transceiver"

/-- A `ConnectionConfig` as it is stored: what binds are checked against, and
what the session then works with. The system id is the key it is stored
under. -/
structure ClientConfig where
  /-- A bcrypt hash; in a request the password itself. -/
  password : Bytes
  enabled : Bool
  allowedIPs : List Bytes := []
  allowedBindModes : List Bytes := []
  session : ConnectionConfig := {}
  createdAt : Time := 0
  updatedAt : Time := 0
  deriving DecidableEq

/-- What can be revoked: an API key, known by its hash, a user or a client
configuration. -/
inductive Credential
  | apiKey (keyHash : Bytes)
  | user (username : Bytes)
  | connConfig (systemID : Bytes)
  deriving DecidableEq

/-- A record with the key `SetJSON` writes it under. -/
inductive Record
  | apiKey (keyHash : Bytes) (k : APIKey)
  | user (username : Bytes) (u : AdminUser)
  | connConfig (systemID : Bytes) (cfg : ClientConfig)
  deriving DecidableEq

/-- The credential a record is of. -/
def Record.credential : Record → Credential
  | apiKey keyHash _ => .apiKey keyHash
  | user username _ => .user username
  | connConfig systemID _ => .connConfig systemID

/-! ## The database -/

/-- The namespaces `apikey:`, `user:` and `connconfig:`. -/
structure Store where
  apiKeys : SortedMap Bytes APIKey
  users : SortedMap Bytes AdminUser
  connConfigs : SortedMap Bytes ClientConfig
  deriving DecidableEq

namespace Store

/-- An empty data directory. -/
def empty : Store := ⟨.empty, .empty, .empty⟩

/-- Is there a record of the credential? -/
def has (s : Store) : Credential → Bool
  | .apiKey keyHash => (s.apiKeys.find? keyHash).isSome
  | .user username => (s.users.find? username).isSome
  | .connConfig systemID => (s.connConfigs.find? systemID).isSome

/-- `SetJSON`. -/
def setJSON (s : Store) : Record → Store
  | .apiKey keyHash k => { s with apiKeys := s.apiKeys.insert keyHash k }
  | .user username u => { s with users := s.users.insert username u }
  | .connConfig systemID cfg => { s with connConfigs := s.connConfigs.insert systemID cfg }

/-- `DeleteKey`. -/
def deleteKey (s : Store) : Credential → Store
  | .apiKey keyHash => { s with apiKeys := s.apiKeys.erase keyHash }
  | .user username => { s with users := s.users.erase username }
  | .connConfig systemID => { s with connConfigs := s.connConfigs.erase systemID }

/-- A write makes its own credential appear and no other. -/
theorem has_setJSON (s : Store) (r : Record) (c : Credential) :
    (s.setJSON r).has c = if c = r.credential then true else s.has c := by
  cases r <;> cases c <;> simp only [has, setJSON, Record.credential, Credential.apiKey.injEq,
    Credential.user.injEq, Credential.connConfig.injEq, reduceCtorEq, if_false,
    SortedMap.find?_insert] <;> split <;> rfl

/-- A deletion removes its own credential and no other. -/
theorem has_deleteKey (s : Store) (d c : Credential) :
    (s.deleteKey d).has c = if c = d then false else s.has c := by
  cases d <;> cases c <;> simp only [has, deleteKey, Credential.apiKey.injEq,
    Credential.user.injEq, Credential.connConfig.injEq, reduceCtorEq, if_false,
    SortedMap.find?_erase] <;> split <;> rfl

/-- The `apikey:` entry `Revoke` finds: of several with the id the last. -/
def findKeyByID (s : Store) (id : Bytes) : Option Bytes :=
  ((s.apiKeys.entries.filter fun e => e.2.id = id).getLast?).map Prod.fst

end Store

/-! ## Client configurations -/

/-- How `ConnectionConfigStore.Authenticate` ends. -/
inductive Authenticated
  | found (cfg : ClientConfig)
  | notFound
  /-- Disabled, or the wrong password. -/
  | refused
  deriving DecidableEq

/-- `ConnectionConfigStore.Authenticate`. -/
def authenticate (crypto : Crypto) (s : Store) (systemID plainPassword : Bytes) : Authenticated :=
  match s.connConfigs.find? systemID with
  | none => .notFound
  | some cfg =>
    if cfg.enabled = false then .refused
    else if crypto.compare cfg.password plainPassword = false then .refused
    else .found cfg

/-- **What `Authenticate` establishes.** -/
theorem authenticate_found {crypto : Crypto} {s : Store} {systemID plainPassword : Bytes}
    {cfg : ClientConfig} (h : authenticate crypto s systemID plainPassword = .found cfg) :
    s.connConfigs.find? systemID = some cfg ∧ cfg.enabled = true ∧
      crypto.compare cfg.password plainPassword = true := by
  unfold authenticate at h
  split at h
  · cases h
  · rename_i cfg' hfind
    split at h
    · cases h
    · rename_i henabled
      split at h
      · cases h
      · rename_i hpassword
        obtain rfl := Authenticated.found.inj h
        exact ⟨hfind, by simpa using henabled, by simpa using hpassword⟩

/-- `Update`: the stored configuration with the changes merged in; an empty
password keeps the old hash. `none` when the hash cannot be made. -/
def mergeConfig (crypto : Crypto) (salt : ℕ) (now : Time) (existing cfg : ClientConfig) :
    Option ClientConfig :=
  let merged (password : Bytes) : ClientConfig :=
    { cfg with password, createdAt := existing.createdAt, updatedAt := now }
  if cfg.password = [] then some (merged existing.password)
  else (crypto.generate salt cfg.password).map merged

end Auth

end SmscGateway
