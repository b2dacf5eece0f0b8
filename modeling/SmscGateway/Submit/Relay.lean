import SmscGateway.Client.Moves
import SmscGateway.Client.Pool
import SmscGateway.Smpp.Stream
import SmscGateway.Submit.Parcel
import SmscGateway.Submit.Policy

/-!
# The way of a body to the SMSC

`HandleSubmit` promises to forward a body byte for byte. On its way it passes
through `forwardCh` or, once or many times, the submit-retry queue, `SubmitRaw`
of a pool, `SubmitRaw` of one of its clients, and `EncodePDU`. What a message is
accepted with stays with it up to the call of a pool (`Dossier`); here are the
rest of the way and the whole of it (`relay_is_transparent`).
-/

namespace SmscGateway

open Smpp Option

/-! ## What a client writes for a call -/

namespace Client

/-- A step of a call of this request. -/
def CallAction.IsOf (r : Request) : CallAction → Prop
  | .begin r' => r' = r
  | .nextSeq who | .registerPending who _ | .writePDU who _ _ | .await who _ _
  | .unregisterPending who _ _ => who = .request r
  | .hangUp .. => False

@[inherit_doc CallAction.IsOf]
def Action.IsOf (r : Request) : Action → Prop
  | .call a => a.IsOf r
  | _ => False

section Call

variable {cfg : Config} {s : State} {i : Input} {r : ClientEffect} {q : Request}

/-- A call goes on as a call of the same request. -/
theorem exec_isOf {a : Action} (ha : a.IsOf q) (h : exec cfg s i a = some r) :
    ∀ b ∈ r.next, b.IsOf q := by
  cases a with
  | call a =>
    cases execCall_callStep h with
    | begins q' =>
      obtain rfl : q' = q := ha
      simp [Action.IsOf, CallAction.IsOf]
    | nextSeq who | registers who | written who | unwritten who =>
      simpa [Action.IsOf, CallAction.IsOf] using ha
    | timesOut who =>
      obtain rfl : who = .request q := ha
      simp [giveUp, Action.IsOf, CallAction.IsOf]
    | bound | rejected | unbinds | hangUp => cases ha
    | refused | answered | unregisters => simp
  | _ => cases ha

/-- **What a call writes is its request.** -/
theorem exec_isOf_wrote {a : Action} (ha : a.IsOf q) (h : exec cfg s i a = some r)
    {conn : Option ℕ} {pdu : PDU} {ok : Bool} (hwrote : .wrote conn pdu ok ∈ r.seen) :
    ∃ seq, pdu = ⟨q.method.commandID, statusOK, seq, q.body⟩ := by
  cases a with
  | call a =>
    cases execCall_callStep h with
    | written who seq | unwritten who seq =>
      obtain rfl : who = .request q := ha
      obtain ⟨-, rfl, -⟩ := Obs.wrote.inj (List.mem_singleton.mp hwrote)
      exact ⟨seq, rfl⟩
    | bound | rejected | unbinds | hangUp => cases ha
    | _ => simp at hwrote
  | _ => cases ha

end Call

/-- A PDU that the client writes for a call of the request: a goroutine is
started with the call, and at some step of some run it writes the PDU. -/
inductive WritesFor (q : Request) (pdu : PDU) : Prop
  | intro (cfg : Config) (d₀ d₁ d d' : ClientConf) (i : Input) (conn : Option ℕ) (ok : Bool)
      (hstart : (program cfg).step d₀ (.start (.call (.begin q))) = some d₁)
      (hrun : (program cfg).Reaches Program.Anything d₁ d)
      (hstep : (program cfg).step d (.run d₀.threads.length i) = some d')
      (hwrote : .wrote conn pdu ok ∈ d'.trace.drop d.trace.length)

/-- **A client writes the request it was called with**, whatever its other
goroutines do. -/
theorem eq_of_writesFor {q : Request} {pdu : PDU} (h : WritesFor q pdu) :
    ∃ seq, pdu = ⟨q.method.commandID, statusOK, seq, q.body⟩ := by
  obtain ⟨cfg, d₀, d₁, d, d', i, conn, ok, hstart, hrun, hstep, hwrote⟩ := h
  have hthread : d₁.threads[d₀.threads.length]? = some [.call (.begin q)] := by
    simp only [Program.step, program, entry, if_true, some.injEq] at hstart
    obtain rfl := hstart
    simp
  obtain ⟨stack, hstack, hof⟩ := hrun.keeps (p := Action.IsOf q)
    (fun _ _ _ _ ha hexec => exec_isOf ha hexec) hthread (by simp [Action.IsOf, CallAction.IsOf])
  cases stack with
  | nil => simp [Program.step, hstack] at hstep
  | cons a rest =>
    obtain ⟨r, hexec, -, -, htrace⟩ := Program.step_run_cases hstack hstep
    rw [htrace, List.drop_left] at hwrote
    exact exec_isOf_wrote (hof a List.mem_cons_self) hexec hwrote

end Client

/-! ## What a pool passes on -/

namespace Pool

variable {β : Type}

/-- Whichever connection a pool chooses, its client is given the body. -/
theorem payload_of_submitRaw {conns : Conns} {body : Bytes} {turns : List Turn}
    {call : SubmitCall Bytes} (h : submitRaw conns body turns = .ok (.ok call)) :
    call.payload = body := by
  unfold submitRaw at h
  split at h
  · cases Except.ok.inj h
  · induction turns with
    | nil => simp [windowed] at h
    | cons turn turns ih =>
      rw [windowed] at h
      split at h
      · cases h
      · obtain rfl := Except.ok.inj (Except.ok.inj h)
        rfl
      · exact ih h

end Pool

namespace Relay

open Policy (submitRaw configOf screen_ok)

/-! ## On the wire -/

/-- A PDU as it is written; the client sets no TLVs. -/
def onWire (pdu : PDU) : Option Bytes := encodePDU { pdu with }

/-- What a connection read off the wire can be written again. -/
theorem size_of_received {chunks : List Bytes} {p : WirePDU}
    (h : p ∈ connectionReadLoop chunks) : pduHeaderLen + p.body.length < 2 ^ 32 := by
  rw [connectionReadLoop, readLoop_eq] at h
  have hframe : IsFrame p := (frames.read_spec _ _ le_rfl).2.1 p h
  rw [← hframe.1]
  exact p.commandLength.toNat_lt

theorem drop_onWire {pdu : PDU} (h : pduHeaderLen + pdu.body.length < 2 ^ 32) :
    ∃ data, onWire pdu = some data ∧ data.drop pduHeaderLen = pdu.body := by
  have hsize : WirePDU.size { pdu with } < 2 ^ 32 := h
  refine ⟨_, encodePDU_of_lt hsize, ?_⟩
  rw [List.drop_left' length_header]
  exact List.append_nil _

/-! ## The way of a message -/

/-- The message whose body an action passes to `SubmitRaw`. -/
def messageOf : Action → Option Bytes
  | .submit (.forwardSubmitRaw f) => some f.gwMsgID
  | .submit (.retrySubmit p) => some p.gwMsgID
  | _ => none

/-- A PDU that is written for the message: a goroutine of the gateway comes to
the call of `SubmitRaw`, at the first attempt or at a retry, some pool takes the
call and chooses some connection, and its client writes the PDU for it. -/
inductive WrittenFor (c : GatewayConf) (g : Bytes) (pdu : PDU) : Prop
  | intro (n : ℕ) (i : Input) (a : Action) (body : Bytes) (conns : Pool.Conns)
      (turns : List Pool.Turn) (call : Pool.SubmitCall Bytes) (hhead : c.head n = some a)
      (hmessage : messageOf a = some g) (hraw : submitRaw i a = some body)
      (hpool : Pool.submitRaw conns body turns = .ok (.ok call))
      (hwrites : Client.WritesFor ⟨.submitRaw, call.payload⟩ pdu)

/-- The modes in which a client's body is to be forwarded as it is; without a
configuration it always is. -/
def Transparent (config : Option ConnectionConfig) : Prop :=
  ∀ c ∈ config, c.sourceAddrMode = .passthrough ∨ c.sourceAddrMode = .whitelist
  deriving Decidable

variable {cfg : RouterConfig}

/-- The checks leave such a body alone. -/
theorem body_of_screen {conn : Option Connection} {now : Time} {body : Bytes} {m : Screened}
    (hmode : Transparent (conn.bind Connection.config)) (h : screen cfg conn now body = .ok m) :
    m.body = body := by
  obtain ⟨hsource, -, -⟩ := screen_ok h
  cases hconfig : conn.bind Connection.config with
  | none =>
    rw [hconfig] at hsource
    cases hsource
    rfl
  | some config =>
    rw [hconfig] at hsource hmode
    simp only [map_some, getD_some, enforceSource] at hsource
    rcases hmode config rfl with hmode | hmode <;> rw [hmode] at hsource
    · cases hsource
      rfl
    · dsimp only at hsource
      obtain ⟨-, rfl⟩ := eq_of_guard hsource
      rfl

/-- The body that goes with a message is the one that is passed to a pool. -/
theorem body_of_submitRaw {c : GatewayConf} {g body b : Bytes}
    (hon : (Dossier.about g fun _ _ b => b = body).On c) {n : ℕ} {i : Input} {a : Action}
    (hhead : c.head n = some a) (hmessage : messageOf a = some g)
    (hraw : submitRaw i a = some b) : b = body := by
  have ha := hon.actions a (Conf.mem_actions_of_head hhead)
  unfold messageOf at hmessage
  split at hmessage
  · obtain rfl := some.inj (Policy.carried_of_submitRaw hraw)
    exact ha.2 (some.inj hmessage)
  · obtain rfl := some.inj (Policy.carried_of_submitRaw hraw)
    exact ha.2 (some.inj hmessage)
  · cases hmessage

/-- **The relay is transparent.** Take a body that `HandleSubmit` accepts from a
connection without a configuration or with a mode that leaves bodies alone. In
whatever state the gateway gets to from there, every PDU that a client of
whichever pool writes for the message is a `submit_sm` with this body; and if
the body was read off a connection, the bytes behind the header are its. -/
theorem relay_is_transparent (cfg : RouterConfig) {c₀ c₁ c : GatewayConf} {n : ℕ} {i : Input}
    {connID : Bytes} {seqNum : UInt32} {body : Bytes} {r : GatewayEffect} {g : Bytes} {o : Origin}
    (h₀ : (gateway cfg).Reaches Program.Anything GatewayConf.start c₀)
    (hhead : c₀.head n = some (.submit (.handleSubmit connID seqNum body)))
    (hmode : Transparent (configOf c₀.shared.server connID))
    (hexec : exec cfg c₀.shared i (.submit (.handleSubmit connID seqNum body)) = some r)
    (haccepted : .message g (.accepted o) ∈ r.seen)
    (hstep : (gateway cfg).step c₀ (.run n i) = some c₁)
    (hrun : (gateway cfg).Reaches Program.Anything c₁ c) {pdu : PDU}
    (hwritten : WrittenFor c g pdu) :
    pdu.commandID = cmdSubmitSM ∧ pdu.body = body ∧
      ∀ chunks p, p ∈ connectionReadLoop chunks → p.body = body →
        ∃ data, onWire pdu = some data ∧ data.drop pduHeaderLen = body := by
  obtain ⟨hg, hseq⟩ := Restart.exec_accepted_id hexec haccepted
  have hnew : ∀ task connID', .submit (.offer task connID') ∈ r.next → task.rawBody = body := by
    intro task connID' hmem
    obtain ⟨a, ha, hcont⟩ := submit_of_next hexec hmem
    obtain rfl := Action.submit.inj ha
    cases hcont with
    | submitted _ _ _ m hm => exact body_of_screen hmode hm
  have hon := (Dossier.on_about_of_accepted (P := fun _ _ b => b = body) (fun _ _ _ h => h) h₀ hhead
    hexec hstep hseq hnew hrun).1
  obtain ⟨m, i', a, b, conns, turns, call, hhead', hmessage, hraw, hpool, hwrites⟩ := hwritten
  have hbody : b = body := body_of_submitRaw (hg ▸ hon) hhead' hmessage hraw
  obtain ⟨seq, rfl⟩ := Client.eq_of_writesFor hwrites
  have hpdu : call.payload = body := (Pool.payload_of_submitRaw hpool).trans hbody
  refine ⟨rfl, hpdu, fun chunks p hp hpbody => ?_⟩
  have hsize := size_of_received hp
  rw [hpbody, ← hpdu] at hsize
  rw [← hpdu]
  exact drop_onWire hsize

/-- A body that is no `submit_sm`. -/
def garbled : Bytes := [0xFF, 0x00, 0x80]

/-- A client with an empty whitelist binds and submits the garbled body; it is
accepted, a worker fails to send it, and a drain pass is about to send it
again. -/
def garbledComes : GatewayConf :=
  (gateway .loadConfig).outcome Program.Anything GatewayConf.start
    (goroutine 0 (.serve .accept) [{}] ++
      goroutine 1 (.serve (.bind 0 engineID (some { sourceAddrMode := .whitelist }))) [{}] ++
      goroutine 2 (.submit (.handleSubmit engineID 7 garbled)) [])

@[inherit_doc garbledComes]
def garbledAccepted : GatewayConf :=
  (gateway .loadConfig).outcome Program.Anything garbledComes [.run 2 {}]

@[inherit_doc garbledComes]
def garbledRetried : GatewayConf :=
  (gateway .loadConfig).outcome Program.Anything garbledAccepted
    (List.replicate 3 (.run 2 {}) ++
      goroutine 3 (.submit .forwardWorker) [{}, { attempt := .rejected }] ++
      goroutine 4 (.submit .drainSubmitRetries) [{}])

/-- A bound client is called with the garbled body and comes to write it. -/
def clientCalled : Client.ClientConf :=
  (Client.program Client.smallConfig).outcome Program.Anything
    (Client.reached (Client.connects 0 1)) [.start (.call (.begin ⟨.submitRaw, garbled⟩))]

@[inherit_doc clientCalled]
def clientWriting : Client.ClientConf :=
  (Client.program Client.smallConfig).outcome Program.Anything clientCalled (Client.steps 2 3)

theorem writesFor_garbled :
    Client.WritesFor ⟨.submitRaw, garbled⟩ ⟨cmdSubmitSM, statusOK, 2, garbled⟩ := by
  have hstart := (Client.program Client.smallConfig).step_outcome
    (Client.reached (Client.connects 0 1)) (.start (.call (.begin ⟨.submitRaw, garbled⟩)))
    (by decide)
  have hrun := (Client.program Client.smallConfig).reaches_outcome Program.Anything clientCalled
    (Client.steps 2 3) (by decide)
  have hstep := (Client.program Client.smallConfig).step_outcome clientWriting (.run 2 {})
    (by decide)
  exact ⟨_, _, clientCalled, clientWriting, _, {}, some 1, true, hstart, hrun, hstep, by decide⟩

/-- The retry of a garbled body is written as it was received. -/
theorem garbled_is_relayed :
    ∃ pdu, WrittenFor garbledRetried (gwMsgIDOf 1) pdu ∧ pdu.body = [0xFF, 0x00, 0x80] := by
  have hcomes := (gateway .loadConfig).reaches_outcome Program.Anything GatewayConf.start
    (goroutine 0 (.serve .accept) [{}] ++
      goroutine 1 (.serve (.bind 0 engineID (some { sourceAddrMode := .whitelist }))) [{}] ++
      goroutine 2 (.submit (.handleSubmit engineID 7 garbled)) []) (by decide)
  have hseen : (exec .loadConfig garbledComes.shared {}
      (.submit (.handleSubmit engineID 7 garbled))).any
        (fun r => .message (gwMsgIDOf 1) (.accepted (.smpp engineID)) ∈ r.seen) = true := by decide
  obtain ⟨r, hexec, haccepted⟩ := (Option.any_eq_true _ _).mp hseen
  have hstep := (gateway .loadConfig).step_outcome garbledComes (.run 2 {}) (by decide)
  have hretried := (gateway .loadConfig).reaches_outcome Program.Anything garbledAccepted
    (List.replicate 3 (.run 2 {}) ++
      goroutine 3 (.submit .forwardWorker) [{}, { attempt := .rejected }] ++
      goroutine 4 (.submit .drainSubmitRetries) [{}]) (by decide)
  have hraw : ((garbledRetried.head 4).filter fun a => messageOf a = some (gwMsgIDOf 1)).bind
      (submitRaw {}) = some garbled := by decide
  obtain ⟨a, ha, hraw⟩ := Option.bind_eq_some_iff.mp hraw
  obtain ⟨ha, hmessage⟩ := Option.filter_eq_some_iff.mp ha
  have hwritten : WrittenFor garbledRetried (gwMsgIDOf 1) ⟨cmdSubmitSM, statusOK, 2, garbled⟩ :=
    ⟨4, {}, a, garbled, [some ⟨0, 1⟩], [⟨0, fun _ => .free⟩], ⟨⟨0, 1⟩, garbled⟩, ha,
      of_decide_eq_true hmessage, hraw, rfl, writesFor_garbled⟩
  exact ⟨_, hwritten, (relay_is_transparent .loadConfig hcomes (by decide) (by decide) hexec
    (of_decide_eq_true haccepted) hstep hretried hwritten).2.1⟩

end Relay

end SmscGateway
