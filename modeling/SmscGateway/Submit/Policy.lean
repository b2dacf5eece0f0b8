import SmscGateway.Smpp.SubmitSM
import SmscGateway.Submit.Dossier

/-!
# What may be forwarded

The checks of `HandleSubmit` and the body that is forwarded are made from one
`submit_sm`: the body is rewritten before it is checked. So what was checked is
what is forwarded, as long as the address a client's configuration puts in has
no NUL (`checked_is_forwarded`).

A body enters the queues when its message is accepted and is never changed on
its way through `forwardCh`, the retry queue and the workers (`exec_bodies`).
The REST handlers accept without looking at the blacklist, so it holds for the
messages they do not let through (`blacklist_holds`).
-/

namespace SmscGateway

namespace Policy

open Smpp Option

/-! ## The checks -/

/-- The destination in a `submit_sm` body. -/
def destinationOf (body : Bytes) : Bytes := (parseSubmitSMAddresses body).2

/-- The number is on the blacklist. `LoadBlacklist` skips empty lines. -/
def Blacklisted (cfg : RouterConfig) (destAddr : Bytes) : Prop :=
  destAddr ≠ [] ∧ destAddr ∈ cfg.blacklist
  deriving Decidable

/-- The addresses a client's configuration may put in have no NUL. -/
def PlainSources (config : ConnectionConfig) : Prop :=
  NulFree config.forceSourceAddr ∧ NulFree config.defaultSourceAddr
  deriving Decidable

/-- The configuration `HandleSubmit` finds for a connection id. -/
def configOf (s : Server) (connID : Bytes) : Option ConnectionConfig :=
  ((s.getConnection connID).bind fun p => s.heap[p]?).bind Connection.config

/-- The source the client's configuration asks for, given the one the client
sent. -/
def SourceRule (config : Option ConnectionConfig) (sent source : Bytes) : Prop :=
  match config with
  | none => source = sent
  | some config =>
    match config.sourceAddrMode with
    | .override =>
      source = if config.forceSourceAddr = [] then sent else config.forceSourceAddr
    | .default =>
      source = if sent = [] ∧ config.defaultSourceAddr ≠ [] then config.defaultSourceAddr else sent
    | .whitelist =>
      source = sent ∧ (config.allowedSourceAddrs ≠ [] → source ∈ config.allowedSourceAddrs)
    | .passthrough => source = sent

/-- The destination without one leading `+`. -/
def withoutPlus : Bytes → Bytes
  | 43 :: d => d
  | d => d

/-- The destination has one of the client's prefixes, if it has any. -/
def PrefixRule (config : Option ConnectionConfig) (destAddr : Bytes) : Prop :=
  ∀ c ∈ config, c.allowedPrefixes ≠ [] → ∃ p ∈ c.allowedPrefixes, p <+: withoutPlus destAddr

/-- **What may be forwarded for a client's body**: the same body with a source
that the configuration asks for, to a destination that passes the filters. -/
structure Permitted (cfg : RouterConfig) (config : Option ConnectionConfig) (m : SubmitSM)
    (body : Bytes) : Prop where
  addresses : ∃ source, parseSubmitSMAddresses body = (source, m.destAddr) ∧
    SourceRule config m.sourceAddr source
  /-- Outside the source and its TON and NPI the bytes are the client's. -/
  bytes : ∃ ton npi source h, body = (m.withSource ton npi source h).encode
  blacklist : ¬ Blacklisted cfg m.destAddr
  prefixes : PrefixRule config m.destAddr

/-! ## What the checks establish -/

section Screen

variable {cfg : RouterConfig} {conn : Option Connection} {now : Time} {body : Bytes}
variable {config : ConnectionConfig} {m m' : Screened}

theorem withoutPlus_eq (d : Bytes) :
    (if d.head? = some 43 then d.drop 1 else d) = withoutPlus d := by
  cases d with
  | nil => rfl
  | cons b d =>
    by_cases hb : b = 43
    · subst hb
      rfl
    · simp only [List.head?_cons, some.injEq, hb, if_false]
      unfold withoutPlus
      split
      · rename_i heq
        exact absurd (List.cons.inj heq).1 hb
      · rfl

theorem prefixRule_of_prefixAllowed {config : Option ConnectionConfig} {d : Bytes}
    (h : (config.map fun c => prefixAllowed c d).getD true = true) : PrefixRule config d := by
  rintro c hc hne
  obtain rfl := mem_def.mp hc
  simp only [map_some, getD_some, prefixAllowed, withoutPlus_eq, Bool.or_eq_true,
    decide_eq_true_eq, hne, false_or] at h
  obtain ⟨p, hp, hpre⟩ := List.any_eq_true.mp h
  exact ⟨p, hp, List.isPrefixOf_iff_prefix.mp hpre⟩

/-- **What an accepted submit has passed.** -/
theorem screen_ok (h : screen cfg conn now body = .ok m) :
    ((conn.bind Connection.config).map fun config => enforceSource config
      ⟨body, (parseSubmitSMAddresses body).1, (parseSubmitSMAddresses body).2⟩).getD
        (some ⟨body, (parseSubmitSMAddresses body).1, (parseSubmitSMAddresses body).2⟩) = some m ∧
    ¬ Blacklisted cfg m.destAddr ∧ PrefixRule (conn.bind Connection.config) m.destAddr := by
  unfold screen at h
  cases conn with
  | none =>
    dsimp only at h
    split at h
    · cases h
    · rename_i hblack
      obtain rfl := Except.ok.inj h
      exact ⟨rfl, hblack, fun _ hc => by cases hc⟩
  | some c =>
    dsimp only at h
    split at h
    · cases h
    · rename_i m₀ hsource
      split at h
      · cases h
      · rename_i hblack
        split at h
        · cases h
        · rename_i hprefix
          split at h
          · cases h
          · obtain rfl := Except.ok.inj h
            exact ⟨hsource, hblack, prefixRule_of_prefixAllowed (by simpa using hprefix)⟩

/-- Putting in an address without a NUL changes no destination. -/
theorem destination_enforceSource (hplain : PlainSources config)
    (h : enforceSource config m = some m') :
    destinationOf m'.body = destinationOf m.body ∧ m'.destAddr = m.destAddr := by
  unfold enforceSource at h
  split at h
  · split at h <;> cases h
    · exact ⟨rfl, rfl⟩
    · exact ⟨destination_rewriteSubmitSMSource _ hplain.1 _ _, rfl⟩
  · split at h <;> cases h
    · exact ⟨destination_rewriteSubmitSMSource _ hplain.2 _ _, rfl⟩
    · exact ⟨rfl, rfl⟩
  · obtain ⟨-, rfl⟩ := eq_of_guard h
    exact ⟨rfl, rfl⟩
  · cases h
    exact ⟨rfl, rfl⟩

/-- **The body that passed has the destination that was checked.** -/
theorem destination_screen (hplain : ∀ config ∈ conn.bind Connection.config, PlainSources config)
    (h : screen cfg conn now body = .ok m) : destinationOf m.body = m.destAddr := by
  obtain ⟨hsource, -, -⟩ := screen_ok h
  cases hconfig : conn.bind Connection.config with
  | none =>
    rw [hconfig] at hsource
    cases hsource
    rfl
  | some config =>
    rw [hconfig] at hsource
    obtain ⟨hdest, haddr⟩ := destination_enforceSource (hplain config hconfig) hsource
    exact hdest.trans haddr.symm

/-- The source a configuration puts into a terminated body. -/
theorem enforceSource_encode {sm : SubmitSM} (hplain : PlainSources config)
    (h : enforceSource config ⟨sm.encode, sm.sourceAddr, sm.destAddr⟩ = some m) :
    ∃ ton npi source hs, m = ⟨(sm.withSource ton npi source hs).encode, source, sm.destAddr⟩ ∧
      SourceRule (some config) sm.sourceAddr source := by
  have hsame : ∀ {m : Screened}, m = ⟨sm.encode, sm.sourceAddr, sm.destAddr⟩ →
      m = ⟨(sm.withSource sm.sourceTON sm.sourceNPI sm.sourceAddr sm.sourceAddr_nulFree).encode,
        sm.sourceAddr, sm.destAddr⟩ := fun h => h
  unfold enforceSource at h
  split at h
  · rename_i hmode
    split at h <;> cases h
    · rename_i hforce
      refine ⟨_, _, _, _, hsame rfl, ?_⟩
      simp only [SourceRule, hmode, if_pos hforce]
    · rename_i hforce
      refine ⟨config.forceSourceTON, config.forceSourceNPI, config.forceSourceAddr, hplain.1, ?_, ?_⟩
      · rw [sm.rewrite_encode _ _ hplain.1]
      · simp only [SourceRule, hmode, if_neg hforce]
  · rename_i hmode
    split at h <;> cases h
    · rename_i hdef
      refine ⟨config.defaultSourceTON, config.defaultSourceNPI, config.defaultSourceAddr, hplain.2,
        ?_, ?_⟩
      · rw [sm.rewrite_encode _ _ hplain.2]
      · simp only [SourceRule, hmode, if_pos hdef]
    · rename_i hdef
      refine ⟨_, _, _, _, hsame rfl, ?_⟩
      simp only [SourceRule, hmode, if_neg hdef]
  · rename_i hmode
    obtain ⟨hallowed, rfl⟩ := eq_of_guard h
    refine ⟨_, _, _, _, hsame rfl, ?_⟩
    simp only [SourceRule, hmode, true_and]
    exact fun hne => hallowed.resolve_left hne
  · rename_i hmode
    cases h
    refine ⟨_, _, _, _, hsame rfl, ?_⟩
    simp only [SourceRule, hmode]

/-- **What passes the checks may be forwarded.** -/
theorem permitted_of_screen {sm : SubmitSM}
    (hplain : ∀ config ∈ conn.bind Connection.config, PlainSources config)
    (h : screen cfg conn now sm.encode = .ok m) :
    Permitted cfg (conn.bind Connection.config) sm m.body := by
  obtain ⟨hsource, hblack, hprefix⟩ := screen_ok h
  rw [sm.parse_encode] at hsource
  obtain ⟨ton, npi, source, hs, rfl, hrule⟩ : ∃ ton npi source hs,
      m = ⟨(sm.withSource ton npi source hs).encode, source, sm.destAddr⟩ ∧
        SourceRule (conn.bind Connection.config) sm.sourceAddr source := by
    cases hconfig : conn.bind Connection.config with
    | none =>
      rw [hconfig] at hsource
      cases hsource
      exact ⟨sm.sourceTON, sm.sourceNPI, sm.sourceAddr, sm.sourceAddr_nulFree, rfl, rfl⟩
    | some config =>
      rw [hconfig] at hsource
      exact enforceSource_encode (hplain config hconfig) hsource
  exact ⟨⟨source, SubmitSM.parse_encode _, hrule⟩, ⟨ton, npi, source, hs, rfl⟩, hblack, hprefix⟩

end Screen

/-! ## Bodies on their way south -/

/-- The bodies in the forward queue and in the submit-retry queue. -/
def queued (s : Gateway) : List Bytes :=
  s.forwardCh.map ForwardTask.rawBody ++ s.store.submitRetries.values.map PendingSubmit.rawBody

/-- The body a pending action is going to queue or to submit. -/
def carried : Action → Option Bytes
  | .submit (.offer task _) => some task.rawBody
  | .submit (.forwardSubmitRaw f) => some f.rawBody
  | .submit (.retrySubmit p) => some p.rawBody
  | _ => none

/-- The body of the message an action accepts. -/
def accepted (cfg : RouterConfig) (s : Gateway) (i : Input) : Action → Option Bytes
  | .submit (.handleSubmit connID _ body) =>
    match screen cfg ((s.server.getConnection connID).bind fun p => s.server.heap[p]?) i.now body
    with
    | .ok m => some m.body
    | .error _ => none
  | .submit (.acceptREST (m :: _) _) => some (buildSubmitSMBody m.fromAddr m.toAddr m.body)
  | _ => none

/-- The bodies an effect queues and passes on are all good. -/
structure Bodies (Q : Bytes → Prop) (r : GatewayEffect) : Prop where
  state : ∀ b ∈ queued r.state, Q b
  next : ∀ a ∈ r.next, ∀ b ∈ carried a, Q b

section Exec

variable {cfg : RouterConfig} {s : Gateway} {i : Input} {r : GatewayEffect} {Q : Bytes → Prop}

/-- What is known of the bodies alone. -/
def bodies (Q : Bytes → Prop) : Dossier :=
  ⟨fun _ _ _ _ b => Q b, fun _ _ _ => True, fun _ _ => True⟩

theorem bodies_lawful : (bodies Q).Lawful :=
  ⟨fun _ => trivial, fun _ => trivial, fun _ => trivial, fun _ => trivial, fun h => h,
    fun _ => trivial⟩

theorem onState_bodies_iff : (bodies Q).OnState s ↔ ∀ b ∈ queued s, Q b := by
  simp only [queued, List.mem_append, List.mem_map]
  constructor
  · rintro h b (⟨t, ht, rfl⟩ | ⟨p, hp, rfl⟩)
    · exact (h.forwardCh t ht).choose_spec
    · exact h.submitRetries p hp
  · intro h
    exact ⟨fun t ht => ⟨[], h _ (Or.inl ⟨t, ht, rfl⟩)⟩, fun p hp => h _ (Or.inr ⟨p, hp, rfl⟩),
      fun _ _ => trivial, fun _ _ => trivial, fun _ _ => trivial, fun _ _ => trivial,
      fun _ _ _ => trivial, fun _ _ => trivial⟩

theorem carried_of_onAction {a : Action} (h : (bodies Q).OnAction a) : ∀ b ∈ carried a, Q b := by
  intro b hb
  unfold carried at hb
  split at hb
  · exact some.inj hb ▸ h
  · exact some.inj hb ▸ h
  · exact some.inj hb ▸ h
  · cases hb

/-- A message is offered to the queue with the body it was accepted with. -/
theorem accepted_of_offer {a : Action} (h : exec cfg s i a = some r) {task : ForwardTask}
    {connID : Bytes} (hb : .submit (.offer task connID) ∈ r.next) :
    accepted cfg s i a = some task.rawBody := by
  obtain ⟨a, rfl, hcont⟩ := submit_of_next h hb
  cases hcont with
  | submitted connID seqNum body m hm => simp only [accepted, hm]
  | requested m rest ids => rfl

/-- **Bodies are not changed on their way.** A property of the bodies that are
accepted is a property of all that are queued or about to be submitted. -/
theorem exec_bodies {a : Action} (h : exec cfg s i a = some r) (hs : ∀ b ∈ queued s, Q b)
    (ha : (bodies Q).OnAction a) (hnew : ∀ b ∈ accepted cfg s i a, Q b) : Bodies Q r := by
  have hkeeps := Dossier.exec_dossier bodies_lawful h (onState_bodies_iff.mpr hs) ha
    (fun task connID hb => hnew _ (accepted_of_offer h hb)) fun _ t _ ht => ht.choose_spec
  exact ⟨onState_bodies_iff.mp hkeeps.state, fun b hb => carried_of_onAction (hkeeps.next b hb)⟩

end Exec

/-! ## What is checked is what is forwarded -/

/-- **What is checked is what is forwarded.** Whatever state the router is in,
a terminated `submit_sm` that `HandleSubmit` accepts is offered to the queues
in a form that may be forwarded under the configuration found for the
connection: the client's bytes but for the source, the source the mode asks
for, and a destination that passes the blacklist and the prefixes. -/
theorem checked_is_forwarded (cfg : RouterConfig) {s : Gateway} {i : Input} {connID : Bytes}
    {seqNum : UInt32} {m : SubmitSM} {r : GatewayEffect}
    (hplain : ∀ config ∈ configOf s.server connID, PlainSources config)
    (h : exec cfg s i (.submit (.handleSubmit connID seqNum m.encode)) = some r) {g : Bytes}
    {o : Origin} (haccepted : .message g (.accepted o) ∈ r.seen) :
    ∃ task, r.next.filter Action.onSubmit = [.submit (.offer task connID)] ∧
      queued r.state = queued s ∧
      Permitted cfg (configOf s.server connID) m task.rawBody ∧
      ∀ s' i' r', exec cfg s' i' (.submit (.offer task connID)) = some r' →
        ∀ b ∈ queued r'.state, b ∈ queued s' ∨ b = task.rawBody := by
  simp only [exec, execSubmit] at h
  split at h <;> cases h
  · cases haccepted
  · rename_i m' hscreen
    refine ⟨_, rfl, rfl, permitted_of_screen hplain hscreen, fun s' i' r' h' => ?_⟩
    refine (exec_bodies (Q := fun b => b ∈ queued s' ∨ b = m'.body) h' (fun b hb => Or.inl hb)
      (Or.inr rfl) fun b hb => ?_).state
    cases hb

/-- A client with a forced source. -/
def forcedClient : ConnectionConfig :=
  { sourceAddrMode := .override, forceSourceAddr := ascii "555", allowedPrefixes := [ascii "2"] }

/-- A submit from source 100 to +200. -/
def plusSubmit : SubmitSM :=
  ⟨[], 0, 0, ascii "100", 1, 1, ascii "+200", [0, 0, 0], by decide, by decide, by decide⟩

/-- A gateway to which the client is connected. -/
def forcedGateway : Gateway :=
  ((gateway .loadConfig).outcome Program.Anything GatewayConf.start
    (goroutine 0 (.serve .accept) [{}] ++
      goroutine 1 (.serve (.bind 0 engineID (some forcedClient))) [{}])).shared

/-- The client's submit is forwarded from 555. -/
theorem forced_source_is_forwarded :
    ∃ r task, exec .loadConfig forcedGateway {}
        (.submit (.handleSubmit engineID 7 plusSubmit.encode)) = some r ∧
      r.next.filter Action.onSubmit = [.submit (.offer task engineID)] ∧
      parseSubmitSMAddresses task.rawBody = (ascii "555", ascii "+200") ∧
      Permitted .loadConfig (configOf forcedGateway.server engineID) plusSubmit task.rawBody := by
  have hsome : (exec .loadConfig forcedGateway {}
      (.submit (.handleSubmit engineID 7 plusSubmit.encode))).isSome = true := by decide
  obtain ⟨r, hr⟩ := Option.isSome_iff_exists.mp hsome
  have hseen : (exec .loadConfig forcedGateway {}
      (.submit (.handleSubmit engineID 7 plusSubmit.encode))).map Effect.seen =
        some [.message (gwMsgIDOf 1) (.accepted (.smpp engineID)), .answered (gwMsgIDOf 1)] := by
    decide
  rw [hr] at hseen
  have haccepted : Obs.message (gwMsgIDOf 1) (.accepted (.smpp engineID)) ∈ r.seen := by
    rw [Option.some.inj hseen]
    exact List.mem_cons_self
  obtain ⟨task, htask, -, hpermitted, -⟩ :=
    checked_is_forwarded .loadConfig (by decide) hr haccepted
  obtain ⟨source, hparse, hrule⟩ := hpermitted.addresses
  have hconfig : configOf forcedGateway.server engineID = some forcedClient := by decide
  have hsource : source = ascii "555" := by
    rw [hconfig] at hrule
    exact hrule
  exact ⟨r, task, hr, htask, hsource ▸ hparse, hpermitted⟩

/-! ## The blacklist -/

/-- The body an action passes to a southbound `SubmitRaw`: there is no call
when no submitter was found. -/
def submitRaw (i : Input) (a : Action) : Option Bytes :=
  match a with
  | .submit (.forwardSubmitRaw f) => if i.attempt = .noSubmitter then none else some f.rawBody
  | .submit (.retrySubmit p) => if i.attempt = .noSubmitter then none else some p.rawBody
  | _ => none

/-- The body of a message that is accepted is not for a blacklisted number. -/
def Unlisted (cfg : RouterConfig) (c : GatewayConf) (i : Input) (a : Action) : Prop :=
  ∀ body ∈ accepted cfg c.shared i a, ¬ Blacklisted cfg (destinationOf body)
  deriving Decidable

theorem carried_of_submitRaw {i : Input} {a : Action} {body : Bytes}
    (h : submitRaw i a = some body) : carried a = some body := by
  unfold submitRaw at h
  split at h
  · split at h
    · cases h
    · exact h
  · split at h
    · cases h
    · exact h
  · cases h

variable {cfg : RouterConfig} {c : GatewayConf}

/-- What every accepted body has, every body of a run has. -/
theorem reaches_bodies {Q : Bytes → Prop}
    (h : (gateway cfg).Reaches
      (Program.When fun c i a => ∀ body ∈ accepted cfg c.shared i a, Q body) GatewayConf.start c) :
    (∀ b ∈ queued c.shared, Q b) ∧ ∀ a ∈ c.actions, ∀ b ∈ carried a, Q b := by
  have hon : (bodies Q).On c := by
    refine h.invariant Dossier.onRun_start.toOn fun c e c' hc hok hs => ?_
    refine (hc.step bodies_lawful hs ?_ fun _ _ _ _ t _ ht => ht.choose_spec).1
    rintro j i a r rfl hhead hexec task connID hb
    exact hok a hhead _ (accepted_of_offer hexec hb)
  exact ⟨onState_bodies_iff.mp hon.state, fun a ha => carried_of_onAction (hon.actions a ha)⟩

/-- **When the blacklist holds.** In every run in which no message to a
blacklisted number is accepted, none is passed to `SubmitRaw`. For an engine's
submit that is no condition when the addresses in the client's configuration
have no NUL: `HandleSubmit` refuses it. -/
theorem blacklist_holds (cfg : RouterConfig) {c : GatewayConf}
    (h : (gateway cfg).Reaches (Program.When (Unlisted cfg)) GatewayConf.start c) :
    (∀ i input a body, c.head i = some a → submitRaw input a = some body →
      ¬ Blacklisted cfg (destinationOf body)) ∧
    ∀ input connID seqNum body,
      (∀ config ∈ configOf c.shared.server connID, PlainSources config) →
      Unlisted cfg c input (.submit (.handleSubmit connID seqNum body)) := by
  refine ⟨fun i input a body hhead hraw => ?_, fun input connID seqNum body hplain b hb => ?_⟩
  · exact (reaches_bodies h).2 a (Conf.mem_actions_of_head hhead) body (carried_of_submitRaw hraw)
  · simp only [accepted] at hb
    split at hb
    · rename_i m hscreen
      cases hb
      rw [destination_screen hplain hscreen]
      exact (screen_ok hscreen).2.1
    · cases hb

/-- A gateway with one number on its blacklist. -/
def listed (number : Bytes) : RouterConfig := { blacklist := [number] }

/-- An engine's message to 200 while 300 is blacklisted: a worker is about to
submit it. -/
theorem unlisted_is_submitted :
    ∃ c, (gateway (listed (ascii "300"))).Reaches
        (Program.When (Unlisted (listed (ascii "300")))) GatewayConf.start c ∧
      ∃ a body, c.head 3 = some a ∧ submitRaw {} a = some body ∧
        destinationOf body = ascii "200" ∧
        ¬ Blacklisted (listed (ascii "300")) (destinationOf body) := by
  refine Program.exists_reached (engineSubmits ++ goroutine 3 (.submit .forwardWorker) [{}])
    (by decide) fun h => (Option.bind_eq_some_iff.mp ?_).imp fun a ⟨ha, hbody⟩ =>
    ⟨Smpp.buildSubmitSMBody (ascii "100") (ascii "200") (ascii "hi"), ha, hbody, by decide,
      (blacklist_holds _ h).1 3 {} a _ ha hbody⟩
  decide

/-- A REST message to a blacklisted number is passed to `SubmitRaw`. -/
theorem rest_ignores_blacklist :
    ∃ c, (gateway (listed (ascii "200"))).Reaches Program.Anything GatewayConf.start c ∧
      ∃ a body, c.head 1 = some a ∧ submitRaw {} a = some body ∧
        Blacklisted (listed (ascii "200")) (destinationOf body) := by
  refine Program.exists_reached (restSubmits ++ goroutine 1 (.submit .forwardWorker) [{}])
    (by decide) fun _ => (Option.bind_eq_some_iff.mp ?_).imp fun a ⟨ha, hbody⟩ =>
    ⟨Smpp.buildSubmitSMBody (ascii "100") (ascii "200") (ascii "hi"), ha, hbody, by decide⟩
  decide

end Policy

end SmscGateway
