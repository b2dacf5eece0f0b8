import SmscGateway.Northbound.Step

/-!
# Who answers whom

`onDeliverResp` and `HandleSubmit` know a session by its id, not by its
connection. When an engine has reconnected, the id leads to the new session
while PDUs of the old one are still being handled: the old session's
`deliver_sm_resp` then resolves a wait of the new one, since both number their
`deliver_sm` from 1, and the answer to its `submit_sm` goes out on the new one
or nowhere. `answers_stay_on_session` says when neither happens.
-/

namespace SmscGateway

open List Option

namespace Northbound

open Smpp

variable {cfg : Config} {s : State} {i : Input}

/-! ## Pending actions and what they go back to -/

/-- A `deliver_sm_resp` with this sequence number and status was read on the
session. -/
def ReadResp (trace : List Obs) (p : ℕ) (seqNum status : UInt32) : Prop :=
  ∃ n pdu, .read n p pdu ∈ trace ∧ pdu.commandID = cmdDeliverSMResp ∧
    pdu.commandStatus = status ∧ pdu.sequenceNumber = seqNum

/-- Such a PDU. -/
def Obs.isResp (p : ℕ) (seqNum status : UInt32) : Obs → Bool
  | .read _ conn pdu => conn = p ∧ pdu.commandID = cmdDeliverSMResp ∧
      pdu.commandStatus = status ∧ pdu.sequenceNumber = seqNum
  | _ => false

variable {trace trace' : List Obs} {p : ℕ} {a : Action}

theorem readResp_iff {seqNum status : UInt32} :
    ReadResp trace p seqNum status ↔ ∃ o ∈ trace, o.isResp p seqNum status = true := by
  constructor
  · rintro ⟨n, pdu, hread, hcmd⟩
    exact ⟨_, hread, decide_eq_true ⟨rfl, hcmd⟩⟩
  · rintro ⟨o, ho, hresp⟩
    cases o with
    | read n conn pdu =>
      obtain ⟨rfl, hcmd⟩ := of_decide_eq_true hresp
      exact ⟨n, pdu, ho, hcmd⟩
    | _ => cases hresp

instance (trace : List Obs) (p : ℕ) (seqNum status : UInt32) :
    Decidable (ReadResp trace p seqNum status) :=
  decidable_of_iff' _ readResp_iff

/-- The PDU number `n` was a `submit_sm` with this sequence number, read on the
session. -/
def ReadSubmit (trace : List Obs) (p n : ℕ) (seqNum : UInt32) : Prop :=
  ∃ pdu, .read n p pdu ∈ trace ∧ pdu.commandID = cmdSubmitSM ∧ pdu.sequenceNumber = seqNum

/-- A `deliver_sm` with this sequence number was written on the session. -/
def Sent (trace : List Obs) (p : ℕ) (seqNum : UInt32) : Prop :=
  ∃ body, .wrote p ⟨cmdDeliverSM, statusOK, seqNum, body⟩ ∈ trace

/-- The PDU that the next action of a handler is about was read on its
session. -/
def Backed (trace : List Obs) (p : ℕ) : SessionAction → Prop
  | .handleBind n pdu | .authenticate n pdu | .acceptBind n pdu _ =>
    .read n p pdu ∈ trace ∧ isBind pdu = true
  | .onSubmit n _ seqNum | .sendSubmitSMResp n _ seqNum => ReadSubmit trace p n seqNum
  | .onDeliverResp _ seqNum status | .resolveDeliverResp _ seqNum status =>
    ReadResp trace p seqNum status
  | _ => True

theorem Backed.mono (hsub : trace ⊆ trace') {a : SessionAction} (h : Backed trace p a) :
    Backed trace' p a := by
  have hsubmit : ∀ {n : ℕ} {seqNum : UInt32}, ReadSubmit trace p n seqNum →
      ReadSubmit trace' p n seqNum := fun ⟨pdu, hread, hcmd⟩ => ⟨pdu, hsub hread, hcmd⟩
  have hresp : ∀ {seqNum status : UInt32}, ReadResp trace p seqNum status →
      ReadResp trace' p seqNum status := fun ⟨n, pdu, hread, hcmd⟩ => ⟨n, pdu, hsub hread, hcmd⟩
  cases a with
  | handleBind | authenticate | acceptBind => exact ⟨hsub h.1, h.2⟩
  | onSubmit | sendSubmitSMResp => exact hsubmit h
  | onDeliverResp | resolveDeliverResp => exact hresp h
  | _ => trivial

/-- What the handler does next goes back to what it did before. -/
theorem execSession_backed {a : SessionAction} {e : SessionEffect}
    (h : execSession cfg s i p a = some e) (hbacked : Backed trace p a) {b : SessionAction}
    (hb : b ∈ e.next) : Backed (trace ++ e.seen) p b := by
  have hmono : Backed (trace ++ e.seen) p a := hbacked.mono (subset_append_left _ _)
  have hread : ∀ {pdu : PDU}, a = .readPDU → i.pdu = some pdu →
      .read s.reads p pdu ∈ trace ++ e.seen := by
    rintro pdu rfl hpdu
    exact mem_append_right _ (read_mem_seen h hpdu)
  cases execSession_follows h hb with
  | readLoop | readPDU | cleanUp | close | onBind | setID | register => trivial
  | handleBind hpdu hcmd => exact ⟨hread rfl hpdu, hcmd⟩
  | onSubmit hpdu hcmd => exact ⟨_, hread rfl hpdu, hcmd, rfl⟩
  | onDeliverResp hpdu hcmd => exact ⟨_, _, hread rfl hpdu, hcmd, rfl, rfl⟩
  | authenticate | acceptBind | sendSubmitSMResp | resolveDeliverResp => exact hmono

/-- Every handler is at work on a PDU of its own session. -/
def Traced (c : NorthConf) : Prop := ∀ p a, .session p a ∈ c.actions → Backed c.trace p a

/-- A step of the server keeps every handler at work on its own PDU. -/
theorem step_traced {c c' : NorthConf} (hc : Traced c) {e : Event Input Action}
    (hs : (program cfg).step c e = some c') : Traced c' := by
  intro p b hb
  rcases Program.step_cases hs with ⟨a, -, hst⟩ | ⟨j, input, a, r, rest, -, hran⟩
  · rw [hst.trace]
    rcases hst.cases hb with rfl | hb
    · cases hst.entry
    · exact hc p b hb
  · rw [hran.trace]
    rcases hran.cases hb with hb | hb
    · rcases session_of_next hran.exec hb with ⟨a', e, rfl, he, -, hseen, hb'⟩ | ⟨-, -, -, -, rfl⟩
      · rw [hseen]
        exact execSession_backed he (hc p a' hran.mem) hb'
      · trivial
    · exact (hc p b (hran.pending hb)).mono (subset_append_left _ _)

theorem traced_start (auth : Auth.Store) : Traced (NorthConf.start auth) := by
  intro p a ha
  simp [NorthConf.start, Conf.actions] at ha

/-- The channel a delivery waits on is the one made for it, and what it waits
for was written. -/
def Awaits (s : State) (trace : List Obs) : Action → Prop
  | .writeDeliverSM conn ch seqNum _ =>
    ∃ w, s.waits[ch]? = some w ∧ w.conn = conn ∧ w.seqNum = seqNum
  | .awaitDeliverResp conn ch seqNum =>
    (∃ w, s.waits[ch]? = some w ∧ w.conn = conn ∧ w.seqNum = seqNum) ∧ Sent trace conn seqNum
  | _ => True

theorem Awaits.mono {s s' : State} {b : Action} (hw : WaitStep s b s') (hsub : trace ⊆ trace')
    (h : Awaits s trace a) : Awaits s' trace' a := by
  have hwait : ∀ {conn ch : ℕ} {seqNum : UInt32},
      (∃ w, s.waits[ch]? = some w ∧ w.conn = conn ∧ w.seqNum = seqNum) →
      ∃ w, s'.waits[ch]? = some w ∧ w.conn = conn ∧ w.seqNum = seqNum := by
    rintro conn ch seqNum ⟨w, hget, hconn, hseq⟩
    obtain ⟨w', hget', hconn', hseq'⟩ := hw.waits hget
    exact ⟨w', hget', hconn'.trans hconn, hseq'.trans hseq⟩
  cases a with
  | writeDeliverSM conn ch seqNum body => exact hwait h
  | awaitDeliverResp conn ch seqNum =>
    obtain ⟨hw, body, hsent⟩ := h
    exact ⟨hwait hw, body, hsub hsent⟩
  | _ => trivial

theorem exec_awaits {r : NorthEffect} (h : exec cfg s i a = some r) (ha : Awaits s trace a)
    {b : Action} (hb : b ∈ r.next) : Awaits r.state (trace ++ r.seen) b := by
  cases exec_northMoves h with
  | registers conn body link =>
    obtain rfl := mem_singleton.mp hb
    exact ⟨⟨conn, link.seqNum + 1, none⟩, getElem?_concat_length, rfl, rfl⟩
  | writes conn ch seqNum body =>
    obtain rfl := mem_singleton.mp hb
    exact ⟨ha, body, mem_append_right _ (mem_singleton_self _)⟩
  | session p a e =>
    obtain ⟨b', -, rfl⟩ := map_eq_some_iff.mp (mem_toList.mp hb)
    trivial
  | admin a e =>
    obtain ⟨b', -, rfl⟩ := mem_map.mp hb
    trivial
  | accept | delivers | collects =>
    obtain rfl := mem_singleton.mp hb
    trivial
  | _ => cases hb

/-! ## The condition and the invariant -/

/-- The session, and the session, sequence number and status it resolves. -/
def Action.resolves : Action → Option (ℕ × ℕ × UInt32 × UInt32)
  | .session p (.resolveDeliverResp conn seqNum status) => some (p, conn, seqNum, status)
  | _ => none

/-- The session whose `submit_sm` `HandleSubmit` handles, and the id it looks
it up by. -/
def Action.submits : Action → Option (ℕ × Bytes)
  | .session p (.onSubmit _ connID _) => some (p, connID)
  | _ => none

/-- The session found by the id is the one the PDU came from: a positive
`deliver_sm_resp` finds no wait of another session, and a `submit_sm` finds
its own. -/
def OwnAnswers (c : NorthConf) (_ : Input) (a : Action) : Prop :=
  (∀ x ∈ a.resolves, x.2.1 = x.1 ∨ x.2.2.2 ≠ statusOK ∨
    c.shared.pending? x.2.1 x.2.2.1 = none) ∧
  ∀ x ∈ a.submits, c.shared.server.getConnection x.2 = some x.1
  deriving Decidable

/-- `HandleSubmit` is still at work on PDU `n` of the session. -/
def InHand (actions : Multiset Action) (p n : ℕ) : Prop :=
  ∃ seqNum, (∃ connID, .session p (.onSubmit n connID seqNum) ∈ actions) ∨
    .session p (.sendSubmitSMResp n p seqNum) ∈ actions

/-- The invariant. -/
structure Answering (c : NorthConf) : Prop where
  fresh : ∀ n p pdu, .read n p pdu ∈ c.trace → n < c.shared.reads
  once : ∀ n p pdu p' pdu', .read n p pdu ∈ c.trace → .read n p' pdu' ∈ c.trace →
    p' = p ∧ pdu' = pdu
  traced : Traced c
  own : ∀ p n conn seqNum, .session p (.sendSubmitSMResp n conn seqNum) ∈ c.actions → conn = p
  awaits : ∀ a ∈ c.actions, Awaits c.shared c.trace a
  pending : ∀ p seqNum ch, c.shared.pending? p seqNum = some ch →
    ∃ w, c.shared.waits[ch]? = some w ∧ w.conn = p ∧ w.seqNum = seqNum
  acked : ∀ (ch : ℕ) (w : Wait), c.shared.waits[ch]? = some w → w.status = some statusOK →
    ReadResp c.trace w.conn w.seqNum statusOK
  delivered : ∀ p seqNum, .delivered p seqNum ∈ c.trace →
    Sent c.trace p seqNum ∧ ReadResp c.trace p seqNum statusOK
  answered : ∀ n q resp, .answered n q resp ∈ c.trace →
    ∃ pdu, .read n q pdu ∈ c.trace ∧ RespondsTo pdu resp
  handled : ∀ n p pdu, .read n p pdu ∈ c.trace → pdu.commandID = cmdSubmitSM →
    (∃ resp, .answered n p resp ∈ c.trace) ∨ InHand c.actions p n

theorem ReadResp.mono (hsub : trace ⊆ trace') {seqNum status : UInt32}
    (h : ReadResp trace p seqNum status) : ReadResp trace' p seqNum status := by
  obtain ⟨n, pdu, hread, hcmd⟩ := h
  exact ⟨n, pdu, hsub hread, hcmd⟩

section Step

variable {c c' : NorthConf} {j : ℕ} {a : Action} {r : NorthEffect} {rest : Multiset Action}
  {n p : ℕ} {pdu : PDU} {seqNum : UInt32}

variable (hc : Answering c) (hran : (program cfg).Ran c j i a r rest c')

include hc hran

theorem Answering.fresh_step (h : .read n p pdu ∈ c'.trace) : n < c'.shared.reads := by
  have hexec := hran.exec
  rw [hran.shared]
  rcases mem_append.mp (hran.trace ▸ h) with h | h
  · have hlt := hc.fresh n p pdu h
    rcases exec_reads hexec with ⟨hreads, -⟩ | ⟨q, pdu', -, hstep⟩
    · omega
    · rw [hstep.state]
      dsimp only
      omega
  · rcases exec_reads hexec with ⟨-, hnone⟩ | ⟨q, pdu', -, hstep⟩
    · exact absurd h (hnone n p pdu)
    · cases exec_shown hexec h with
      | read p pdu =>
        rw [hstep.state]
        exact Nat.lt_succ_self _

/-- A step reads at most one PDU, under a number no other has. -/
theorem Answering.once_step {p' : ℕ} {pdu' : PDU} (h : .read n p pdu ∈ c'.trace)
    (h' : .read n p' pdu' ∈ c'.trace) : p' = p ∧ pdu' = pdu := by
  rw [hran.trace] at h h'
  -- what is read in this step is the PDU of the step
  have hnew : ∀ {q : ℕ} {pd : PDU}, .read n q pd ∈ r.seen →
      n = c.shared.reads ∧ ∃ p pdu, q = p ∧ pd = pdu ∧ ReadStep c.shared p pdu r := by
    intro q pd hmem
    rcases exec_reads hran.exec with ⟨-, hnone⟩ | ⟨p, pdu, -, hstep⟩
    · exact absurd hmem (hnone _ _ _)
    · rw [hstep.seen] at hmem
      rcases mem_cons.mp hmem with heq | hmem
      · obtain ⟨rfl, rfl, rfl⟩ := Obs.read.inj heq
        exact ⟨rfl, _, _, rfl, rfl, hstep⟩
      · obtain ⟨resp, heq, -⟩ := dispatch_seen hmem
        cases heq
  rcases mem_append.mp h with h | h <;> rcases mem_append.mp h' with h' | h'
  · exact hc.once n p pdu p' pdu' h h'
  · have hlt := hc.fresh n p pdu h
    have heq := (hnew h').1
    omega
  · have hlt := hc.fresh n p' pdu' h'
    have heq := (hnew h).1
    omega
  · obtain ⟨-, q, pd, rfl, rfl, hstep⟩ := hnew h
    obtain ⟨-, q', pd', rfl, rfl, hstep'⟩ := hnew h'
    have hseen := hstep.seen.symm.trans hstep'.seen
    have hhead := (cons.inj hseen).1
    obtain ⟨-, rfl, rfl⟩ := Obs.read.inj hhead
    exact ⟨rfl, rfl⟩

/-- The look-up by id finds the session the `submit_sm` came from. -/
theorem Answering.own_step (hok : OwnAnswers c i a) {conn : ℕ}
    (hb : .session p (.sendSubmitSMResp n conn seqNum) ∈ c'.actions) : conn = p := by
  rcases hran.cases hb with hb | hb
  · rcases session_of_next hran.exec hb with ⟨a', e, rfl, he, -, -, hb'⟩ | ⟨-, -, -, -, heq⟩
    · cases execSession_follows he hb' with
      | @sendSubmitSMResp _ _ connID _ hfind =>
        exact some.inj (hfind.symm.trans (hok.2 (p, connID) rfl))
    · cases heq
  · exact hc.own p n conn seqNum (hran.pending hb)

theorem Answering.awaits_step {b : Action} (hb : b ∈ c'.actions) :
    Awaits c'.shared c'.trace b := by
  rw [hran.shared, hran.trace]
  rcases hran.cases hb with hb | hb
  · exact exec_awaits hran.exec (hc.awaits a hran.mem) hb
  · exact (hc.awaits b (hran.pending hb)).mono (exec_waits hran.exec)
      (subset_append_left _ _)

theorem Answering.pending_step {ch : ℕ} (h : c'.shared.pending? p seqNum = some ch) :
    ∃ w, c'.shared.waits[ch]? = some w ∧ w.conn = p ∧ w.seqNum = seqNum := by
  have hstep := exec_waits hran.exec
  rw [hran.shared] at h ⊢
  have hold : c.shared.pending? p seqNum = some ch →
      ∃ w, r.state.waits[ch]? = some w ∧ w.conn = p ∧ w.seqNum = seqNum := by
    intro hpend
    obtain ⟨w, hget, hconn, hseq⟩ := hc.pending p seqNum ch hpend
    obtain ⟨w', hget', hconn', hseq'⟩ := hstep.waits hget
    exact ⟨w', hget', hconn'.trans hconn, hseq'.trans hseq⟩
  cases hstep with
  | quiet hwaits hpending => exact hold (hpending _ _ _ h)
  | register seq hwaits hpending =>
    rcases hpending _ _ _ h with hpend | ⟨rfl, rfl, rfl⟩
    · exact hold hpend
    · exact ⟨_, hwaits ▸ getElem?_concat_length, rfl, rfl⟩
  | resolve k hk hwaits hpending => exact hold (hpending _ _ _ h)

/-- A status reaches the channel of the session it was read on, or it is not
the positive one. -/
theorem Answering.acked_step (hok : OwnAnswers c i a) {ch : ℕ} {w : Wait}
    (hw : c'.shared.waits[ch]? = some w) (hstatus : w.status = some statusOK) :
    ReadResp c'.trace w.conn w.seqNum statusOK := by
  have hsub : c.trace ⊆ c'.trace := hran.trace ▸ subset_append_left _ _
  rw [hran.shared] at hw
  cases exec_waits hran.exec with
  | quiet hwaits hpending =>
    rw [hwaits] at hw
    exact (hc.acked ch w hw hstatus).mono hsub
  | register seq hwaits hpending =>
    rw [hwaits, getElem?_append] at hw
    split at hw
    · exact (hc.acked ch w hw hstatus).mono hsub
    · obtain rfl := mem_singleton.mp (mem_of_getElem? hw)
      cases hstatus
  | @resolve p conn seqNum status _ k hk hwaits hpending =>
    rw [hwaits, getElem?_modify] at hw
    obtain ⟨old, hold, rfl⟩ := map_eq_some_iff.mp hw
    by_cases hkc : k = ch
    · -- the resolved channel: the condition leaves only its own session
      subst hkc
      rw [if_pos rfl] at hstatus ⊢
      cases hstatus
      obtain ⟨w', hw', hconn, hseq⟩ := hc.pending conn seqNum k hk
      obtain rfl := some.inj (hold.symm.trans hw')
      have hread := hc.traced p _ hran.mem
      rcases hok.1 (p, conn, seqNum, statusOK) rfl with heq | hne | hnone
      · obtain rfl : conn = p := heq
        dsimp only
        rw [hconn, hseq]
        exact ReadResp.mono hsub hread
      · exact absurd rfl hne
      · exact absurd (hk.symm.trans hnone) (by simp)
    · rw [if_neg hkc] at hstatus ⊢
      exact (hc.acked ch old hold hstatus).mono hsub

theorem Answering.delivered_step (h : .delivered p seqNum ∈ c'.trace) :
    Sent c'.trace p seqNum ∧ ReadResp c'.trace p seqNum statusOK := by
  have hsub : c.trace ⊆ c'.trace := hran.trace ▸ subset_append_left _ _
  have hmono : Sent c.trace p seqNum ∧ ReadResp c.trace p seqNum statusOK →
      Sent c'.trace p seqNum ∧ ReadResp c'.trace p seqNum statusOK := by
    rintro ⟨⟨body, hsent⟩, hread⟩
    exact ⟨⟨body, hsub hsent⟩, hread.mono hsub⟩
  rcases mem_append.mp (hran.trace ▸ h) with h | h
  · exact hmono (hc.delivered p seqNum h)
  · cases exec_shown hran.exec h with
    | @delivered conn ch seq w hw hstatus =>
      obtain ⟨⟨w', hw', hconn, hseq⟩, hsent⟩ := hc.awaits _ hran.mem
      obtain rfl := some.inj (hw.symm.trans hw')
      have hread := hc.acked ch w hw hstatus
      rw [hconn, hseq] at hread
      exact hmono ⟨hsent, hread⟩

theorem Answering.answered_step {q : ℕ} {resp : PDU} (h : .answered n q resp ∈ c'.trace) :
    ∃ pdu, .read n q pdu ∈ c'.trace ∧ RespondsTo pdu resp := by
  have hmem := hran.mem
  rw [hran.trace] at h ⊢
  have hsub : c.trace ⊆ c.trace ++ r.seen := subset_append_left _ _
  rcases mem_append.mp h with h | h
  · obtain ⟨pdu, hread, hresp⟩ := hc.answered n q resp h
    exact ⟨pdu, hsub hread, hresp⟩
  · cases exec_shown hran.exec h with
    | dispatched hread hresp => exact ⟨_, mem_append_right _ hread, hresp⟩
    | @rejected p n pdu resp hseq =>
      obtain ⟨hread, hbind⟩ := hc.traced _ _ hmem
      exact ⟨pdu, hsub hread, hseq, fun hcmd => absurd hcmd (isBind_ne_submitSM hbind)⟩
    | @accepted p n pdu resp connCfg hseq =>
      obtain ⟨hread, hbind⟩ := hc.traced _ _ hmem
      exact ⟨pdu, hsub hread, hseq, fun hcmd => absurd hcmd (isBind_ne_submitSM hbind)⟩
    | submitted hcmd hseq =>
      obtain ⟨pdu, hread, -, hpdu⟩ := hc.traced _ _ hmem
      obtain rfl := hc.own _ _ _ _ hmem
      exact ⟨pdu, hsub hread, hseq.trans hpdu.symm, fun _ => hcmd⟩

/-- A `submit_sm` that was read is answered or still in hand. -/
theorem Answering.handled_step (hok : OwnAnswers c i a) (h : .read n p pdu ∈ c'.trace)
    (hcmd : pdu.commandID = cmdSubmitSM) :
    (∃ resp, .answered n p resp ∈ c'.trace) ∨ InHand c'.actions p n := by
  have hexec : exec cfg c.shared i a = some r := hran.exec
  rw [hran.trace] at h ⊢
  rcases mem_append.mp h with h | h
  · rcases hc.handled n p pdu h hcmd with ⟨resp, hresp⟩ | ⟨seqNum, ⟨connID, hb⟩ | hb⟩
    · exact .inl ⟨resp, mem_append_left _ hresp⟩
    · by_cases heq : Action.session p (.onSubmit n connID seqNum) = a
      · -- the look-up finds the session itself
        subst heq
        have hfind := hok.2 (p, connID) rfl
        obtain ⟨e, he, -, hnext, -⟩ := exec_session hexec
        simp only [execSession, hfind] at he
        cases he
        refine .inr ⟨seqNum, .inr (hran.next ?_)⟩
        rw [hnext]
        exact mem_singleton_self _
      · exact .inr ⟨seqNum, .inl ⟨connID, hran.keeps hb heq⟩⟩
    · by_cases heq : Action.session p (.sendSubmitSMResp n p seqNum) = a
      · subst heq
        obtain ⟨e, he, -, -, hseen⟩ := exec_session hexec
        cases he
        refine .inl ⟨⟨cmdSubmitSMResp, i.status, seqNum, cString i.messageID⟩,
          mem_append_right _ ?_⟩
        rw [hseen]
        exact mem_singleton_self _
      · exact .inr ⟨seqNum, .inr (hran.keeps hb heq)⟩
  · rcases exec_reads hexec with ⟨-, hnone⟩ | ⟨q, pdu', rfl, hstep⟩
    · exact absurd h (hnone n p pdu)
    · have hread := h
      rw [hstep.seen] at hread
      rcases mem_cons.mp hread with heq | hmem
      · obtain ⟨rfl, rfl, rfl⟩ := Obs.read.inj heq
        rcases dispatch_submitSM (s := { c.shared with reads := c.shared.reads + 1 }) (p := p)
            (n := c.shared.reads) hcmd with ⟨resp, hresp⟩ | hnext
        · refine .inl ⟨resp, mem_append_right _ ?_⟩
          rw [hstep.seen]
          exact mem_cons_of_mem _ hresp
        · refine .inr ⟨pdu.sequenceNumber, .inl ⟨c.shared.server.idOf (some p),
            hran.next ?_⟩⟩
          rw [hstep.next, hnext]
          exact mem_singleton_self _
      · obtain ⟨resp, heq, -⟩ := dispatch_seen hmem
        cases heq

end Step

variable {c c' : NorthConf}

/-- **One step.** -/
theorem step_answering (hc : Answering c) {e : Event Input Action}
    (hok : Program.When OwnAnswers c e) (hs : (program cfg).step c e = some c') :
    Answering c' := by
  rcases Program.step_cases hs with ⟨a, -, hst⟩ | ⟨j, input, a, r, rest, rfl, hran⟩
  · -- a goroutine starts: it is nobody's handler and waits for nothing
    have ha := hst.entry
    have htr := hst.trace
    have hsh := hst.shared
    have hnew : ∀ p b, a ≠ .session p b := by
      rintro p b rfl
      cases ha
    have hwaits : Awaits c.shared c.trace a := by
      cases a with
      | writeDeliverSM | awaitDeliverResp => cases ha
      | _ => trivial
    refine ⟨?_, ?_, step_traced hc.traced hs, ?_, ?_, ?_, ?_, ?_, ?_, ?_⟩
    · rw [htr, hsh]
      exact hc.fresh
    · rw [htr]
      exact hc.once
    · intro p n conn seqNum hb
      exact hc.own p n conn seqNum ((hst.cases hb).resolve_left fun heq => hnew p _ heq.symm)
    · intro b hb
      rw [htr, hsh]
      rcases hst.cases hb with rfl | hb
      · exact hwaits
      · exact hc.awaits b hb
    · rw [hsh]
      exact hc.pending
    · rw [htr, hsh]
      exact hc.acked
    · rw [htr]
      exact hc.delivered
    · rw [htr]
      exact hc.answered
    · intro n p pdu hread hcmd
      rw [htr] at hread ⊢
      rcases hc.handled n p pdu hread hcmd with hdone | ⟨seqNum, ⟨connID, hb⟩ | hb⟩
      · exact .inl hdone
      · exact .inr ⟨seqNum, .inl ⟨connID, hst.keeps hb⟩⟩
      · exact .inr ⟨seqNum, .inr (hst.keeps hb)⟩
  · have hcond := hok a hran.head
    exact {
      fresh := fun n p pdu => hc.fresh_step hran
      once := fun n p pdu p' pdu' => hc.once_step hran
      traced := step_traced hc.traced hs
      own := fun p n conn seqNum => hc.own_step hran hcond
      awaits := fun b => hc.awaits_step hran
      pending := fun p seqNum ch => hc.pending_step hran
      acked := fun ch w => hc.acked_step hran hcond
      delivered := fun p seqNum => hc.delivered_step hran
      answered := fun n q resp => hc.answered_step hran
      handled := fun n p pdu => hc.handled_step hran hcond }

theorem answering_start (auth : Auth.Store) : Answering (NorthConf.start auth) := by
  refine ⟨?_, ?_, traced_start auth, ?_, ?_, ?_, ?_, ?_, ?_, ?_⟩
  · intro n p pdu h
    cases h
  · intro n p pdu p' pdu' h
    cases h
  · intro p n conn seqNum ha
    simp [NorthConf.start, Conf.actions] at ha
  · intro a ha
    have hrun : a ∈ [Action.start, .setConnConfigStore, .stop, .closeAll] := ha
    simp only [mem_cons, not_mem_nil, or_false] at hrun
    rcases hrun with rfl | rfl | rfl | rfl <;> trivial
  · intro p seqNum ch h
    simp [NorthConf.start, State.pending?] at h
  · intro ch w h
    simp [NorthConf.start] at h
  · intro p seqNum h
    cases h
  · intro n q resp h
    cases h
  · intro n p pdu h
    cases h

/-! ## The result -/

/-- **Sessions do not answer for each other.** -/
structure OwnSession (c : NorthConf) : Prop where
  /-- A delivery is reported only if its own session acknowledged it. -/
  delivered : ∀ p seqNum, .delivered p seqNum ∈ c.trace →
    (∃ body, .wrote p ⟨cmdDeliverSM, statusOK, seqNum, body⟩ ∈ c.trace) ∧
    ∃ n pdu, .read n p pdu ∈ c.trace ∧ pdu.commandID = cmdDeliverSMResp ∧
      pdu.commandStatus = statusOK ∧ pdu.sequenceNumber = seqNum
  /-- A `submit_sm` is answered on its own session, and on no other. -/
  answered : ∀ n p pdu, .read n p pdu ∈ c.trace → pdu.commandID = cmdSubmitSM →
    (∀ q resp, .answered n q resp ∈ c.trace → q = p ∧ resp.commandID = cmdSubmitSMResp ∧
      resp.sequenceNumber = pdu.sequenceNumber) ∧
    ((∃ resp, .answered n p resp ∈ c.trace) ∨ InHand c.actions p n)

/-- **When answers stay on their session.** In every run in which the id of a
session whose PDU is handled still leads to that session, whenever it
matters. -/
theorem answers_stay_on_session (cfg : Config) (auth : Auth.Store) {c : NorthConf}
    (h : (program cfg).Reaches (Program.When OwnAnswers) (NorthConf.start auth) c) :
    OwnSession c := by
  have hc : Answering c :=
    h.invariant (answering_start auth) fun _ _ _ hc hok hs => step_answering hc hok hs
  refine ⟨hc.delivered, fun n p pdu hread hcmd => ⟨fun q resp hresp => ?_, ?_⟩⟩
  · obtain ⟨pdu', hread', hseq, hcommand⟩ := hc.answered n q resp hresp
    obtain ⟨rfl, rfl⟩ := hc.once n p pdu q pdu' hread hread'
    exact ⟨rfl, hcommand hcmd, hseq⟩
  · exact hc.handled n p pdu hread hcmd

/-- A `submit_sm`. -/
def submitSM : PDU := { commandID := cmdSubmitSM, sequenceNumber := 7 }

/-- The acknowledgement of the first `deliver_sm` of a session. -/
def firstAck : PDU := { commandID := cmdDeliverSMResp, sequenceNumber := 1 }

/-- An engine submits a message and acknowledges one. -/
theorem single_session_answers_itself :
    ∃ c, (program plainConfig).Reaches (Program.When OwnAnswers)
        (NorthConf.start clients) c ∧
      .delivered 0 1 ∈ c.trace ∧ .read 1 0 submitSM ∈ c.trace ∧ OwnSession c := by
  exact Program.exists_reached (steps 0 2 ++ connects 1 [] ++ binds 1 alpha ++ reads 1 submitSM 2 ++
    .start (.deliverToConn alpha []) :: steps 2 3 ++ reads 1 firstAck 2 ++ steps 2 1) (by decide)
    fun h => ⟨by decide, by decide, answers_stay_on_session _ _ h⟩

/-- An engine reconnects while the acknowledgement of its first `deliver_sm`
is being handled: the first `deliver_sm` of the new session is reported as
delivered, although no acknowledgement was read on it. In the same way the
answer to a `submit_sm` of the old session goes out on the new one. -/
theorem old_session_answers_for_new :
    (∃ c, (program plainConfig).Reaches Program.Anything
        (NorthConf.start clients) c ∧ .delivered 1 1 ∈ c.trace ∧
      ¬ ReadResp c.trace 1 1 statusOK) ∧
    ∃ c, (program plainConfig).Reaches Program.Anything
        (NorthConf.start clients) c ∧ .read 1 0 submitSM ∈ c.trace ∧
      .answered 1 1 ⟨cmdSubmitSMResp, statusOK, 7, cString []⟩ ∈ c.trace := by
  have hack := (program plainConfig).reaches_outcome Program.Anything
    (NorthConf.start clients)
    (steps 0 2 ++ connects 1 [] ++ binds 1 alpha ++ connects 2 [] ++
      .start (.deliverToConn alpha []) :: steps 3 3 ++ reads 1 firstAck 0 ++ binds 2 alpha ++
      .start (.deliverToConn alpha []) :: steps 4 3 ++ steps 1 2 ++ steps 4 1)
    (by decide)
  have hsubmit := (program plainConfig).reaches_outcome Program.Anything
    (NorthConf.start clients)
    (steps 0 2 ++ connects 1 [] ++ binds 1 alpha ++ connects 2 [] ++ reads 1 submitSM 0 ++
      binds 2 alpha ++ steps 1 2)
    (by decide)
  exact ⟨⟨_, hack, by decide, by decide⟩, _, hsubmit, by decide, by decide⟩

end Northbound

end SmscGateway
