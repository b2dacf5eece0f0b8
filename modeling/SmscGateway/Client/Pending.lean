import SmscGateway.Client.Matching
import SmscGateway.Client.Locks

/-!
# Requests that wait

What becomes of a request that is in `pending`. A response that
`dispatchPDU` knows is handed to it, whatever else goes on; any other one,
`generic_nack` among them, is not. When the `ReadLoop` ends a session,
`handleDisconnect` fails every request that is in `pending`; when `Close`
does, they are left there.

Every channel that was made is in `pending`, or was taken off it, or holds
the NACK of a disconnect and nothing else (`Accounted`).
-/

namespace SmscGateway

open List Option Program

namespace Client

open Smpp

variable {cfg : Config} {s : State} {a : Action} {r : ClientEffect}

/-! ## Where a channel is -/

/-- What was sent on a channel. -/
def sentTo (s : State) (ch : ℕ) : List PDU := ((s.respChs[ch]?).map (·.sent)).getD []

theorem length_sentTo (s : State) (ch : ℕ) : (sentTo s ch).length = sentOn s ch := by
  simp only [sentTo, sentOn]
  cases s.respChs[ch]? <;> rfl

variable {ch i : ℕ} {c c' d : ClientConf} {rest : List Action} {input : Input}

theorem sentTo_of_sentOn (h : sentOn s ch = 0) : sentTo s ch = [] :=
  length_eq_zero_iff.mp ((length_sentTo s ch).trans h)

theorem sentTo_send (hlt : ch < s.respChs.length) (pdu : PDU) (k : ℕ) :
    sentTo (s.send ch pdu) k = if k = ch then sentTo s k ++ [pdu] else sentTo s k := by
  simp only [sentTo, State.send, State.modifyCh, getElem?_modify]
  by_cases hk : k = ch
  · subst hk
    simp [hlt]
  · cases s.respChs[k]? <;> simp [hk, Ne.symm hk]

/-- A step sends on a channel, or leaves what was sent. -/
theorem Traffic.sentTo_eq (h : Traffic s a r) (hlt : ch < s.respChs.length) :
    sentTo r.state ch = sentTo s ch ∨ (∃ pdu, a = .read (.send ch pdu)) ∨
      (∃ seq, a = .link .drain ∧ s.pending.find? seq = some ch ∧
        sentTo r.state ch = sentTo s ch ++ [disconnectNack]) := by
  cases h with
  | quiet hq => exact .inl (by rw [sentTo, sentTo, hq.respChs])
  | issue | take => exact .inl rfl
  | register who seq hfree =>
    exact .inl (by simp only [sentTo, getElem?_append_left hlt])
  | receive k _ _ _ _ hchs =>
    refine .inl ?_
    simp only [sentTo, hchs, getElem?_modify]
    cases s.respChs[ch]? with
    | none => rfl
    | some x => by_cases hk : k = ch <;> simp [hk]
  | unregister _ _ _ _ hstate => exact .inl (by rw [sentTo, sentTo, hstate])
  | send k pdu hroom =>
    by_cases hk : ch = k
    · exact .inr (.inl ⟨pdu, by rw [hk]⟩)
    · have hlt' : k < s.respChs.length := by
        obtain ⟨x, hx, -⟩ := (any_eq_true _ _).mp hroom
        exact (List.getElem?_eq_some_iff.mp hx).1
      exact .inl ((sentTo_send hlt' pdu ch).trans (if_neg hk))
  | drain seq k hfind hroom =>
    have hlt' : k < s.respChs.length := by
      obtain ⟨x, hx, -⟩ := (any_eq_true _ _).mp hroom
      exact (List.getElem?_eq_some_iff.mp hx).1
    have hsent : sentTo { s.send k disconnectNack with pending := s.pending.erase seq } ch =
        sentTo (s.send k disconnectNack) ch := rfl
    rw [sentTo_send hlt'] at hsent
    by_cases hk : ch = k
    · subst hk
      rw [if_pos rfl] at hsent
      exact .inr (.inr ⟨seq, rfl, hfind, hsent⟩)
    · rw [if_neg hk] at hsent
      exact .inl hsent

/-- What was in `pending` is there still, or was seen to leave, or was
drained. -/
theorem Traffic.pending_kept (h : Traffic s a r) {seq : UInt32}
    (hf : s.pending.find? seq = some ch) :
    r.state.pending.find? seq = some ch ∨ .left ch ∈ r.seen ∨
      (a = .link .drain ∧ sentTo r.state ch = sentTo s ch ++ [disconnectNack]) := by
  have hleft : ∀ {o : Option ℕ}, o = some ch → .left ch ∈ o.toList.map Obs.left := by
    rintro o rfl
    exact mem_singleton.mpr rfl
  cases h with
  | quiet hq => exact .inl (hq.pending ▸ hf)
  | issue | send => exact .inl hf
  | register who seq' hfree =>
    by_cases hseq : seq = seq'
    · exact .inr (.inl (hleft (hseq ▸ hf)))
    · exact .inl (by simp [hseq, hf])
  | receive _ _ _ _ hpending => exact .inl (hpending ▸ hf)
  | unregister seq' _ _ _ hstate hseen =>
    by_cases hseq : seq = seq'
    · refine .inr (.inl ?_)
      have hmem : ch ∈ r.seen.filterMap Obs.leaves := by rw [hseen, ← hseq, hf]; simp
      obtain ⟨o, ho, hl⟩ := mem_filterMap.mp hmem
      cases o <;> cases hl
      exact ho
    · exact .inl (by simp [hstate, hseq, hf])
  | take x pdu k _ hresp hfind =>
    by_cases hseq : seq = pdu.sequenceNumber
    · have hk : k = ch := some.inj (hfind.symm.trans (hseq ▸ hf))
      exact .inr (.inl (by simp [hk]))
    · exact .inl (by simp [hseq, hf])
  | drain seq' k hfind hroom =>
    by_cases hseq : seq = seq'
    · have hk : k = ch := some.inj (hfind.symm.trans (hseq ▸ hf))
      subst hk
      have hlt : k < s.respChs.length := by
        obtain ⟨x, hx, -⟩ := (any_eq_true _ _).mp hroom
        exact (List.getElem?_eq_some_iff.mp hx).1
      exact .inr (.inr ⟨rfl, (sentTo_send hlt disconnectNack k).trans (if_pos rfl)⟩)
    · exact .inl (by simp [hseq, hf])

/-- **Where each channel is.** -/
def Accounted (c : ClientConf) : Prop :=
  ∀ ch < c.shared.respChs.length, (∃ seq, c.shared.pending.find? seq = some ch) ∨
    .left ch ∈ c.trace ∨ sentTo c.shared ch = [disconnectNack]

theorem step_accounted {e : Event Input Action} (hf : InFlight c) (hc : Accounted c)
    (h : (program cfg).step c e = some c') : Accounted c' := by
  rcases step_cases h with ⟨a, -, hst⟩ | ⟨j, input, a, r, rest, -, hran⟩
  · rw [Accounted, hst.shared, hst.trace]
    exact hc
  · have ht := exec_traffic hran.exec
    intro ch hlt
    rw [hran.shared] at hlt ⊢
    rw [hran.trace]
    by_cases hold : ch < c.shared.respChs.length
    · rcases hc ch hold with ⟨seq, hseq⟩ | hleft | hnack
      · rcases ht.pending_kept hseq with hkept | hleft | ⟨-, hsent⟩
        · exact .inl ⟨seq, hkept⟩
        · exact .inr (.inl (mem_append_right _ hleft))
        · rw [sentTo_of_sentOn (hf.sentOn_of_pending hseq)] at hsent
          exact .inr (.inr hsent)
      · exact .inr (.inl (mem_append_left _ hleft))
      · -- nothing more is sent on a channel that holds a PDU
        have hone : sentOn c.shared ch = 1 := by rw [← length_sentTo, hnack]; rfl
        rcases ht.sentTo_eq hold with hsame | ⟨pdu, rfl⟩ | ⟨seq, -, hseq, -⟩
        · exact .inr (.inr (hsame.trans hnack))
        · have := hf.sentOn_of_sending hran.mem
          omega
        · have := hf.sentOn_of_pending hseq
          omega
    · -- the channel was made just now
      refine .inl ?_
      cases ht with
      | register who seq hfree =>
        have hch : ch = c.shared.respChs.length := by
          simp only [length_append, length_singleton] at hlt
          omega
        exact ⟨seq, by simp [hch]⟩
      | quiet hq => exact absurd (hq.respChs ▸ hlt) hold
      | receive k _ _ _ _ hchs => exact absurd (by simpa [hchs] using hlt) hold
      | unregister _ _ _ _ hstate => exact absurd (by simpa [hstate] using hlt) hold
      | issue | take => exact absurd hlt hold
      | send | drain => exact absurd (by simpa [State.send, State.modifyCh] using hlt) hold

theorem accounted (h : Runs cfg c) : Accounted c := by
  have hboth : InFlight c ∧ Accounted c := by
    refine h.invariant (I := fun c => InFlight c ∧ Accounted c) ?_ ?_
    · exact ⟨inFlight_start, fun ch hlt => nomatch hlt⟩
    · intro c e c' hc _ hs
      exact ⟨step_inFlight hc.1 hs, step_accounted hc.1 hc.2 hs⟩
  exact hboth.2

/-! ## Responses -/

/-- Is it the command id of a response? -/
def isResponse (commandID : UInt32) : Bool := 0x80000000 ≤ commandID

/-- Goroutine `i` hands the PDU to a channel with its next step, whatever the
others do before. -/
def Delivers (cfg : Config) (c : ClientConf) (i : ℕ) (pdu : PDU) (ch : ℕ) : Prop :=
  ∀ d, (program cfg).Reaches (Program.Others i) c d → ∀ input, ∃ d',
    (program cfg).step d (.run i input) = some d' ∧ pdu ∈ sentTo d'.shared ch

/-- Who is about to send on a channel delivers. -/
theorem delivers_of_send (hc : Runs cfg c) {pdu : PDU}
    (hi : c.threads[i]? = some (.read (.send ch pdu) :: rest)) : Delivers cfg c i pdu ch := by
  intro d hd input
  have hf := inFlight (Program.Reaches.trans hc (hd.mono fun _ _ _ => trivial))
  have hi' := hd.thread hi
  have hmem : .read (.send ch pdu) ∈ d.actions :=
    Conf.mem_actions_of_head (Conf.head_eq_some_iff.mpr ⟨rest, hi'⟩)
  have hroom := hf.hasRoom_of_sending hmem
  have hexec : exec cfg d.shared input (.read (.send ch pdu)) =
      some { state := d.shared.send ch pdu } := by
    simp [exec, execRead, hroom]
  refine ⟨_, step_run hi' hexec, ?_⟩
  obtain ⟨x, hx, -⟩ := (any_eq_true _ _).mp hroom
  simp [sentTo_send (List.getElem?_eq_some_iff.mp hx).1]

/-- **A response that was read for a request in `pending` is delivered to it
just when `dispatchPDU` knows its command.** -/
theorem delivers_iff (hc : Runs cfg c) {x : ℕ} {pdu : PDU}
    (hhead : c.head i = some (.read (.dispatchPDU x pdu))) (hresp : isResponse pdu.commandID = true)
    (hfind : c.shared.pending.find? pdu.sequenceNumber = some ch)
    (hstep : (program cfg).step c (.run i input) = some c') :
    Delivers cfg c' i pdu ch ↔ pdu.commandID ∈ responses := by
  obtain ⟨rest, hi⟩ := Conf.head_eq_some_iff.mp hhead
  obtain ⟨r, hexec, hs, hi', htr⟩ := step_run_cases hi hstep
  have hexec' : dispatchPDU c.shared input x pdu = some r := hexec
  by_cases hknown : pdu.commandID ∈ responses
  · refine iff_of_true ?_ hknown
    simp only [dispatchPDU, if_pos hknown, hfind] at hexec'
    obtain ⟨-, rfl⟩ := eq_of_refusal hexec'
    exact delivers_of_send (.step hc trivial hstep) hi'
  · refine iff_of_false (fun hdel => ?_) hknown
    -- none of the commands it handles otherwise is a response
    have hne : ∀ cmd, isResponse cmd = false → pdu.commandID ≠ cmd := fun cmd hno heq => by
      rw [← heq, hresp] at hno
      cases hno
    simp only [dispatchPDU, if_neg hknown, if_neg (hne cmdDeliverSM rfl),
      if_neg (hne cmdEnquireLink rfl), if_neg (hne cmdUnbind rfl)] at hexec'
    cases hexec'
    obtain ⟨d', hd', hmem⟩ := hdel c' .start input
    obtain ⟨r', hr', hs', -, -⟩ := step_run_cases hi' hd'
    cases hr'
    rw [hs', hs, sentTo_of_sentOn ((inFlight hc).sentOn_of_pending hfind)] at hmem
    cases hmem

/-! ## The end of a session -/

/-- The two routines that end a session of a bound client. -/
inductive Ending
  | close
  | disconnect
  deriving DecidableEq

/-- The action with which the client is no longer bound. -/
def Ending.action : Ending → Action
  | .close => .link .closeDone
  | .disconnect => .link .handleDisconnect

/-- The ways in which a `ReadLoop` ends the session: an unbind, a failed read
that is not due to a closing, or a bad length. -/
def EndsRead : ReadAction → Incoming → Prop
  | .dispatchPDU _ pdu, _ => pdu.commandID = cmdUnbind
  | .readFailed, _ => True
  | .readHeader _, incoming => incoming = .badLength
  | .readBody .., incoming => incoming = .bodyFailed
  | _, _ => False

/-- Goroutine `i` moves only while it has pending requests to fail. -/
def Within (i : ℕ) (c : ClientConf) (e : Event Input Action) : Prop :=
  ∀ input, e = .run i input →
    c.head i = some (.link .drainLock) ∨ c.head i = some (.link .drain)

/-- Goroutine `i`, which ended the session in `c`, has just come to where only
the TCP connection is left to close. -/
def Finished (cfg : Config) (c : ClientConf) (i : ℕ) (d : ClientConf) : Prop :=
  d.head i = some (.link .closeConn) ∧
    (d = c ∨ ∃ d₀ input, (program cfg).Reaches (Within i) c d₀ ∧ Within i d₀ (.run i input) ∧
      (program cfg).step d₀ (.run i input) = some d)

/-- **The end of a session fails the requests that wait**: when the routine is
through with them, `pending` is empty, and whatever channel was not taken off
it before holds exactly one PDU, the NACK. And it gets there: none of its
steps blocks. -/
structure Settles (cfg : Config) (c : ClientConf) (i : ℕ) : Prop where
  failed : ∀ d, Finished cfg c i d → d.shared.pending = .empty ∧
    ∀ ch < d.shared.respChs.length,
      .left ch ∈ d.trace ∨ sentTo d.shared ch = [disconnectNack]
  goesOn : ∀ d, (program cfg).Reaches (Within i) c d →
    ∃ input d', (program cfg).step d (.run i input) = some d'

theorem runs_of_within (hc : Runs cfg c) (h : (program cfg).Reaches (Within i) c d) : Runs cfg d :=
  Program.Reaches.trans hc (h.mono fun _ _ _ => trivial)

/-- When `pending` is empty, every channel is settled. -/
theorem settled_of_empty (hd : Runs cfg d) (hempty : d.shared.pending = .empty) :
    ∀ ch < d.shared.respChs.length,
      .left ch ∈ d.trace ∨ sentTo d.shared ch = [disconnectNack] := by
  intro ch hlt
  rcases accounted hd ch hlt with ⟨seq, hseq⟩ | h
  · rw [hempty] at hseq
    cases hseq
  · exact h

/-- Where the routine is on its way. -/
theorem within_thread {a : LinkAction} (hi : c.threads[i]? = some (.link a :: rest))
    (ha : a ∈ [.drainLock, .drain, .closeConn]) (h : (program cfg).Reaches (Within i) c d) :
    ∃ b, d.threads[i]? = some (.link b :: rest) ∧ b ∈ [.drainLock, .drain, .closeConn] ∧
      (a = .closeConn → b = .closeConn) := by
  refine h.invariant (I := fun d => ∃ b, d.threads[i]? = some (.link b :: rest) ∧
    b ∈ [LinkAction.drainLock, .drain, .closeConn] ∧ (a = .closeConn → b = .closeConn))
    ⟨a, hi, ha, id⟩ ?_
  rintro c e c' ⟨b, hb, hmem, hclose⟩ hok hs
  by_cases he : ∃ input, e = .run i input
  · obtain ⟨input, rfl⟩ := he
    have hhead := hok input rfl
    obtain ⟨r, hexec, -, hi', -⟩ := step_run_cases hb hs
    rw [Conf.head_eq_some_iff.mpr ⟨rest, hb⟩] at hhead
    have hnot : b ≠ .closeConn := by rintro rfl; simp at hhead
    -- one of the two steps of the drain
    have hnext : ∃ b', r.next = [.link b'] ∧ b' ∈ [LinkAction.drainLock, .drain, .closeConn] := by
      rcases hhead with hhead | hhead
      all_goals
        obtain rfl : b = _ := by simpa using hhead
        simp only [program, exec, execLink] at hexec
        repeat' split at hexec
        all_goals first
          | (obtain rfl := some.inj hexec
             exact ⟨_, rfl, by decide⟩)
          | cases hexec
    obtain ⟨b', hb', hmem'⟩ := hnext
    rw [hb'] at hi'
    exact ⟨b', hi', hmem', fun h => absurd (hclose h) hnot⟩
  · have hother : ∀ input, e ≠ .run i input := fun input h => he ⟨input, h⟩
    exact ⟨b, thread_of_step hs hother hb, hmem, hclose⟩

/-- The routine never blocks. -/
theorem goesOn_of_thread (hd : Runs cfg d) {b : LinkAction}
    (hi : d.threads[i]? = some (.link b :: rest))
    (hb : b ∈ [LinkAction.drainLock, .drain, .closeConn]) :
    ∃ input d', (program cfg).step d (.run i input) = some d' := by
  have hmem : .link b ∈ d.actions :=
    Conf.mem_actions_of_head (Conf.head_eq_some_iff.mpr ⟨rest, hi⟩)
  have hexec : ∃ input r, exec cfg d.shared input (.link b) = some r := by
    rcases mem_cons.mp hb with rfl | hb
    · have hfree := (locks hd).pendingMu_of_drainLock hmem
      exact ⟨{}, _, by simp only [exec, execLink, hfree]; rfl⟩
    · rcases mem_cons.mp hb with rfl | hb
      · by_cases hempty : d.shared.pending = .empty
        · exact ⟨{}, _, by simp only [exec, execLink, if_pos hempty]; rfl⟩
        · obtain ⟨seq, hseq⟩ := not_forall.mp (mt SortedMap.eq_empty_iff.mpr hempty)
          obtain ⟨ch, hch⟩ := ne_none_iff_exists'.mp hseq
          have hroom := (inFlight hd).hasRoom_of_pending hch
          exact ⟨{ seq }, _, by simp only [exec, execLink, if_neg hempty, hch, hroom]; rfl⟩
      · obtain rfl := mem_singleton.mp hb
        exact ⟨{}, _, rfl⟩
  obtain ⟨input, r, hr⟩ := hexec
  exact ⟨input, _, step_run hi hr⟩

/-- Who drained `pending` settles everything. -/
theorem settles_of_drainLock (hc : Runs cfg c)
    (hi : c.threads[i]? = some (.link .drainLock :: rest)) : Settles cfg c i := by
  refine ⟨?_, ?_⟩
  · rintro d ⟨hhead, rfl | ⟨d₀, input, hd₀, hok, hs⟩⟩
    · rw [Conf.head_eq_some_iff.mpr ⟨rest, hi⟩] at hhead
      cases hhead
    · obtain ⟨b, hb, -, -⟩ := within_thread hi (by decide) hd₀
      have hd : Runs cfg d := .step (runs_of_within hc hd₀) trivial hs
      obtain ⟨r, hexec, hsd, hi', -⟩ := step_run_cases hb hs
      have hhead₀ := hok input rfl
      rw [Conf.head_eq_some_iff.mpr ⟨rest, hb⟩] at hhead₀
      have hlast : r.next.head? = some (.link .closeConn) ∨ r.next = [] := by
        rw [Conf.head, hi'] at hhead
        cases hn : r.next with
        | nil => exact .inr rfl
        | cons y ys =>
          rw [hn] at hhead
          exact .inl hhead
      have hempty : d.shared.pending = .empty := by
        rw [hsd]
        rcases hhead₀ with hhead₀ | hhead₀
        all_goals
          obtain rfl : b = _ := by simpa using hhead₀
          simp only [program, exec, execLink] at hexec
        · obtain ⟨-, rfl⟩ := eq_of_refusal hexec
          simp at hlast
        · split at hexec
          · rename_i hempty
            cases hexec
            exact hempty
          · split at hexec
            · cases hexec
            · obtain ⟨-, rfl⟩ := eq_of_guard hexec
              simp at hlast
      exact ⟨hempty, settled_of_empty hd hempty⟩
  · intro d hd
    obtain ⟨b, hb, hmem, -⟩ := within_thread hi (by decide) hd
    exact goesOn_of_thread (runs_of_within hc hd) hb hmem

/-- Who goes straight on to close the connection settles everything only if
there is nothing to settle. -/
theorem settles_iff_of_closeConn (hc : Runs cfg c)
    (hi : c.threads[i]? = some (.link .closeConn :: rest)) :
    Settles cfg c i ↔ c.shared.pending = .empty := by
  refine ⟨fun hset => (hset.failed c ⟨Conf.head_eq_some_iff.mpr ⟨rest, hi⟩, .inl rfl⟩).1, ?_⟩
  intro hempty
  refine ⟨?_, ?_⟩
  · rintro d ⟨-, rfl | ⟨d₀, input, hd₀, hok, -⟩⟩
    · exact ⟨hempty, settled_of_empty hc hempty⟩
    · obtain ⟨b, hb, -, hclose⟩ := within_thread hi (by decide) hd₀
      have hhead₀ := hok input rfl
      rw [Conf.head_eq_some_iff.mpr ⟨rest, hb⟩, hclose rfl] at hhead₀
      simp at hhead₀
  · intro d hd
    obtain ⟨b, hb, hmem, -⟩ := within_thread hi (by decide) hd
    exact goesOn_of_thread (runs_of_within hc hd) hb hmem

/-- **What each way to end a session leaves behind.** -/
theorem settles_iff (hc : Runs cfg c) (hbound : c.shared.bound = true) {e : Ending}
    (hhead : c.head i = some e.action) (hstep : (program cfg).step c (.run i input) = some c') :
    Settles cfg c' i ↔ e = .disconnect ∨ c.shared.pending = .empty := by
  obtain ⟨rest, hi⟩ := Conf.head_eq_some_iff.mp hhead
  obtain ⟨r, hexec, hs, hi', -⟩ := step_run_cases hi hstep
  have hc' : Runs cfg c' := .step hc trivial hstep
  cases e with
  | close =>
    cases hexec
    rw [settles_iff_of_closeConn hc' hi', hs]
    simp [State.closeDone, State.modifySession]
  | disconnect =>
    simp only [program, exec, Ending.action, execLink, hbound, if_true] at hexec
    obtain ⟨-, rfl⟩ := eq_of_refusal hexec
    exact iff_of_true (settles_of_drainLock hc' hi') (.inl rfl)

/-- The `ReadLoop` of a bound client comes to `handleDisconnect`. -/
theorem disconnect_of_endsRead (hc : Runs cfg c) (hbound : c.shared.bound = true) {a : ReadAction}
    (hhead : c.head i = some (.read a)) (hends : EndsRead a input.incoming)
    (hstep : (program cfg).step c (.run i input) = some c') :
    c'.head i = some Ending.disconnect.action := by
  obtain ⟨rest, hi⟩ := Conf.head_eq_some_iff.mp hhead
  obtain ⟨r, hexec, hs, hi', -⟩ := step_run_cases hi hstep
  have hnext : r.next.head? = some (.link .handleDisconnect) := by
    cases execRead_readStep hexec with
    | badLength | bodyFailed | lost | unbind => rfl
    | closed hdone =>
      rw [((linked hc).sound.bound hbound).1] at hdone
      cases hdone
    | headerFailed x hin | bare x hd hin | header x hd hin | body x y hd b hin =>
      have hends' := hin.symm.trans hends
      cases hends'
    | response x pdu ch hresp | unknown x pdu hresp =>
      have hcmd : pdu.commandID = cmdUnbind := hends
      rw [hcmd] at hresp
      exact absurd hresp (by decide)
    | deliver x pdu hother | enquireLink x pdu hother =>
      have hcmd : pdu.commandID = cmdUnbind := hends
      exact absurd (hcmd.symm.trans hother) (by decide)
    | ignored x pdu hunbind => exact absurd hends hunbind
    | goesOn | stops | readPDU | readRest | send => cases hends
  obtain ⟨ys, hys⟩ := head?_eq_some_iff.mp hnext
  rw [hys] at hi'
  exact Conf.head_eq_some_iff.mpr ⟨_, hi'⟩

/-! ## The result -/

/-- **Requests that wait are answered** when `dispatchPDU` knows the response,
and failed when the `ReadLoop` ends the session; when `Close` ends it, only if
none waits. -/
theorem waiting_requests_are_answered {c : ClientConf} (hc : Runs cfg c)
    (hbound : c.shared.bound = true) :
    (∀ i x pdu ch input c', c.head i = some (.read (.dispatchPDU x pdu)) →
      isResponse pdu.commandID = true →
      c.shared.pending.find? pdu.sequenceNumber = some ch →
      (program cfg).step c (.run i input) = some c' →
      (Delivers cfg c' i pdu ch ↔ pdu.commandID ∈ responses)) ∧
    (∀ i a input c', c.head i = some (.read a) → EndsRead a input.incoming →
      (program cfg).step c (.run i input) = some c' →
      c'.head i = some Ending.disconnect.action) ∧
    (∀ i e input c', c.head i = some (Ending.action e) →
      (program cfg).step c (.run i input) = some c' →
      (Settles cfg c' i ↔ e = .disconnect ∨ c.shared.pending = .empty)) := by
  refine ⟨?_, ?_, ?_⟩
  · intro i x pdu ch input c' hhead hresp hfind hstep
    exact delivers_iff hc hhead hresp hfind hstep
  · intro i a input c' hhead hends hstep
    exact disconnect_of_endsRead hc hbound hhead hends hstep
  · intro i e input c' hhead hstep
    exact settles_iff hc hbound hhead hstep

/-- A request waits under sequence number 2 when the `ReadLoop` reads
something. -/
def waiting (incoming : Incoming) : List (Event Input Action) :=
  connects 0 1 ++ submits 2 ++ steps 1 2 ++ [.run 1 { incoming }]

/-- `Close` ends the session while a request waits. -/
def closing : List (Event Input Action) :=
  connects 0 1 ++ submits 2 ++ .start (.link .close) :: steps 3 2

/-- A `submit_sm_resp` is delivered, and after a bad length the request is
failed. -/
theorem response_or_disconnect_reaches_request :
    (∃ c c', Runs smallConfig c ∧ c.shared.pending.find? 2 = some 1 ∧
      (program smallConfig).step c (.run 1 {}) = some c' ∧
      Delivers smallConfig c' 1 (response cmdSubmitSMResp 2) 1) ∧
    (∃ c c', Runs smallConfig c ∧ c.shared.pending.find? 2 = some 1 ∧
      (program smallConfig).step c (.run 1 {}) = some c' ∧ Settles smallConfig c' 1) := by
  refine ⟨?_, ?_⟩
  · have h := runs_reached (waiting (.header (headerOf (response cmdSubmitSMResp 2)))) (by decide)
    obtain ⟨c', hc'⟩ := Option.isSome_iff_exists.mp
      (show ((program smallConfig).step (reached (waiting (.header (headerOf (response cmdSubmitSMResp 2)))))
        (.run 1 {})).isSome = true by decide)
    exact ⟨_, c', h, by decide, hc', ((waiting_requests_are_answered h (by decide)).1 1 1 _ 1 {} c'
      (by decide) (by decide) (by decide) hc').mpr (by decide)⟩
  · have h := runs_reached (waiting .badLength) (by decide)
    obtain ⟨c', hc'⟩ := Option.isSome_iff_exists.mp
      (show ((program smallConfig).step (reached (waiting .badLength)) (.run 1 {})).isSome = true by decide)
    exact ⟨_, c', h, by decide, hc', ((waiting_requests_are_answered h (by decide)).2.2 1 .disconnect
      {} c' (by decide) hc').mpr (.inl rfl)⟩

/-- The SMSC answers a request with a `generic_nack`, which the client does
not hand on; and `Close` leaves the request waiting. -/
theorem nack_and_close_leave_request_waiting :
    (∃ c c', Runs smallConfig c ∧ c.shared.bound = true ∧
      c.head 1 = some (.read (.dispatchPDU 1 (response cmdGenericNack 2))) ∧
      c.shared.pending.find? 2 = some 1 ∧
      (program smallConfig).step c (.run 1 {}) = some c' ∧
      ¬ Delivers smallConfig c' 1 (response cmdGenericNack 2) 1) ∧
    (∃ c c', Runs smallConfig c ∧ c.shared.bound = true ∧
      c.head 3 = some Ending.close.action ∧ c.shared.pending.find? 2 = some 1 ∧
      (program smallConfig).step c (.run 3 {}) = some c' ∧ ¬ Settles smallConfig c' 3) := by
  refine ⟨?_, ?_⟩
  · have h := runs_reached (waiting (.header (headerOf (response cmdGenericNack 2)))) (by decide)
    obtain ⟨c', hc'⟩ := Option.isSome_iff_exists.mp
      (show ((program smallConfig).step (reached (waiting (.header (headerOf (response cmdGenericNack 2)))))
        (.run 1 {})).isSome = true by decide)
    refine ⟨_, c', h, by decide, by decide, by decide, hc', ?_⟩
    rw [delivers_iff h (x := 1) (by decide) (by decide) (by decide) hc']
    decide
  · have h := runs_reached closing (by decide)
    obtain ⟨c', hc'⟩ := Option.isSome_iff_exists.mp
      (show ((program smallConfig).step (reached closing) (.run 3 {})).isSome = true by decide)
    refine ⟨_, c', h, by decide, by decide, by decide, hc', ?_⟩
    rw [settles_iff h (by decide) (e := .close) (by decide) hc']
    decide

end Client

end SmscGateway
