import SmscGateway.Smpp.Pdu
import SmscGateway.Gateway.Server

/-!
# What the router decides before it acts

The checks a `submit_sm` passes before it is accepted, in the order
`HandleSubmit` makes them, and the table that routes MO messages.
-/

namespace SmscGateway

/-! ## MO routes -/

/-- The type of an `MOTarget`. -/
inductive MOTargetType
  | smpp
  | http
  | other
  deriving DecidableEq

/-- `MORoute` with its target, in evaluation order in the table. -/
structure MORoute where
  destPattern : Bytes
  sourcePrefix : Bytes
  targetType : MOTargetType
  targetConnID : Bytes
  callbackURL : Bytes
  deriving DecidableEq

/-- A trailing `*` makes the destination pattern a prefix. -/
def MORoute.accepts (r : MORoute) (sourceAddr destAddr : Bytes) : Bool :=
  (if r.destPattern.getLast? = some 42 then r.destPattern.dropLast.isPrefixOf destAddr
    else destAddr = r.destPattern) &&
  (r.sourcePrefix = [] || r.sourcePrefix.isPrefixOf sourceAddr)

/-- `MORouteTable.Resolve`. -/
def resolveMO (routes : List MORoute) (sourceAddr destAddr : Bytes) : Option MORoute :=
  routes.find? fun r => r.accepts sourceAddr destAddr

/-! ## Configuration -/

/-- The part of the gateway's configuration the router reads, with the
defaults of `LoadConfig` and `main`. Durations are in nanoseconds. -/
structure RouterConfig where
  forwardQueueSize : ℤ := 10000
  maxSubmitRetries : ℤ := 3
  retryDrainLimit : ℤ := 200
  submitRetryDrainLimit : ℤ := 100
  reconnectGrace : ℤ := 60 * second
  rateLimitTPS : ℤ := 0
  maxRetryAge : ℤ := 3600 * second
  /-- The age at which `CleanupCorrelations` forgets. -/
  correlationAge : ℤ := 300 * second
  messageTTL : ℤ := 86400 * second
  /-- The MSISDNs `LoadBlacklist` read. -/
  blacklist : List Bytes := []
  moRoutes : List MORoute := []

namespace RouterConfig

/-- `LoadConfig` in an empty environment. -/
def loadConfig : RouterConfig := {}

variable (cfg : RouterConfig)

/-- The capacity of `forwardCh`. -/
def queueSize : ℕ := if cfg.forwardQueueSize ≤ 0 then 10000 else cfg.forwardQueueSize.toNat

/-- The limit `drainRetries` passes on. -/
def retryLimit : ℤ := if cfg.retryDrainLimit ≤ 0 then 200 else cfg.retryDrainLimit

/-- The limit `drainSubmitRetries` passes on. -/
def submitRetryLimit : ℤ :=
  if cfg.submitRetryDrainLimit ≤ 0 then 100 else cfg.submitRetryDrainLimit

theorem retryLimit_pos : 0 < cfg.retryLimit := by
  unfold retryLimit
  split <;> omega

end RouterConfig

/-! ## Screening a submit -/

/-- The status of a `submit_sm_resp` that refuses a submit. -/
inductive Refusal
  | submitFail
  | throttled
  deriving DecidableEq

/-- A submit as it stands while it is screened: the body to forward and the
addresses read from it or forced on it. -/
structure Screened where
  body : Bytes
  sourceAddr : Bytes
  destAddr : Bytes
  deriving DecidableEq

/-- Source address enforcement; `none` when the whitelist refuses the
source. -/
def enforceSource (config : ConnectionConfig) (m : Screened) : Option Screened :=
  match config.sourceAddrMode with
  | .override =>
    if config.forceSourceAddr = [] then some m
    else some { m with
      body := Smpp.rewriteSubmitSMSource m.body config.forceSourceAddr config.forceSourceTON
        config.forceSourceNPI
      sourceAddr := config.forceSourceAddr }
  | .default =>
    if m.sourceAddr = [] ∧ config.defaultSourceAddr ≠ [] then
      some { m with
        body := Smpp.rewriteSubmitSMSource m.body config.defaultSourceAddr config.defaultSourceTON
          config.defaultSourceNPI
        sourceAddr := config.defaultSourceAddr }
    else some m
  | .whitelist =>
    if config.allowedSourceAddrs = [] ∨ m.sourceAddr ∈ config.allowedSourceAddrs then some m
    else none
  | .passthrough => some m

/-- The prefix filter: a leading `+` of the destination is not compared. -/
def prefixAllowed (config : ConnectionConfig) (destAddr : Bytes) : Bool :=
  let dest := if destAddr.head? = some 43 then destAddr.drop 1 else destAddr
  config.allowedPrefixes = [] || config.allowedPrefixes.any fun p => p.isPrefixOf dest

/-- The rate limit that applies to a session. -/
def effectiveTPS (cfg : RouterConfig) (c : Connection) : ℤ :=
  match c.config with
  | some config => if 0 < config.maxTPS then config.maxTPS else cfg.rateLimitTPS
  | none => cfg.rateLimitTPS

/-- The checks of `HandleSubmit` in their order: source address, blacklist,
prefixes, rate. A refusal comes with the submit as far as it got, which is
what is logged. -/
def screen (cfg : RouterConfig) (conn : Option Connection) (now : Time) (body : Bytes) :
    Except (Refusal × Screened) Screened :=
  let addrs := Smpp.parseSubmitSMAddresses body
  let m : Screened := ⟨body, addrs.1, addrs.2⟩
  match conn with
  | none => if m.destAddr ≠ [] ∧ m.destAddr ∈ cfg.blacklist then .error (.submitFail, m) else .ok m
  | some c =>
    match (c.config.map fun config => enforceSource config m).getD (some m) with
    | none => .error (.submitFail, m)
    | some m =>
      if m.destAddr ≠ [] ∧ m.destAddr ∈ cfg.blacklist then .error (.submitFail, m)
      else if (c.config.map fun config => prefixAllowed config m.destAddr).getD true = false then
        .error (.submitFail, m)
      else if 0 < effectiveTPS cfg c ∧ effectiveTPS cfg c ≤ c.currentTPS now then
        .error (.throttled, m)
      else .ok m

end SmscGateway
