import SmscGateway.Client.Step

/-!
# Responses and requests

A response channel is in `pending`, or some goroutine is about to send on it,
or something was sent on it: at most one of these, and at most once
(`InFlight`). That is what keeps a second PDU off a channel and a sender from
blocking. It does not depend on sequence numbers. What needs them not to wrap
is that the channel of a response is that of the request it answers
(`Distinct`).
-/

namespace SmscGateway

open List SortedMap Option

namespace Client

open Smpp

/-! ## One PDU for a channel -/

/-- How much was sent on a channel. -/
def sentOn (s : State) (ch : ℕ) : ℕ := ((s.respChs[ch]?).map (·.sent.length)).getD 0

/-- How often a channel is in `pending`, about to be sent on, or was sent
on; `sends` are the sends that are to come. -/
def load (s : State) (sends : Multiset ℕ) (ch : ℕ) : ℕ :=
  (s.pending.values : Multiset ℕ).count ch + sends.count ch + sentOn s ch

/-- The sends that are to come. -/
def sends (c : ClientConf) : Multiset ℕ := c.actions.filterMap Action.sendsOn

/-- The channel was made for the sequence number. -/
def MadeFor (s : State) (ch : ℕ) (seq : UInt32) : Prop :=
  (s.respChs[ch]?).map (·.seq) = some seq

/-- The PDU may be sent on a channel made for `seq`. -/
def Answers (seq : UInt32) (pdu : PDU) : Prop :=
  (pdu.commandID ∈ responses ∧ pdu.sequenceNumber = seq) ∨ pdu = disconnectNack

section Load

variable {s : State} {rest : Multiset ℕ}

theorem load_add (l : List ℕ) (k : ℕ) :
    load s ((l : Multiset ℕ) + rest) k =
      (s.pending.values : Multiset ℕ).count k + l.count k + rest.count k + sentOn s k := by
  rw [load, Multiset.count_add, Multiset.coe_count, Multiset.coe_count, ← add_assoc]

variable {ch : ℕ} {seq : UInt32} {a : Action} {r : ClientEffect}

theorem sentOn_modify {f : RespCh → RespCh} (hf : ∀ x, (f x).sent = x.sent) {s' : State}
    (hs : s'.respChs = s.respChs.modify ch f) (k : ℕ) : sentOn s' k = sentOn s k := by
  simp only [sentOn, hs, getElem?_modify]
  cases s.respChs[k]? with
  | none => rfl
  | some x => by_cases hk : ch = k <;> simp [hk, hf]

theorem sentOn_send (ch : ℕ) (pdu : PDU) (k : ℕ) :
    sentOn (s.send ch pdu) k ≤ sentOn s k + if ch = k then 1 else 0 := by
  simp only [sentOn, State.send, State.modifyCh, getElem?_modify]
  cases s.respChs[k]? with
  | none => simp
  | some x => by_cases hk : ch = k <;> simp [hk]

/-- A new channel has nothing in it. -/
theorem sentOn_register (seq : UInt32) (k : ℕ) :
    sentOn { s with
      pending := s.pending.insert seq s.respChs.length
      respChs := s.respChs ++ [{ seq }] } k = sentOn s k := by
  simp only [sentOn, getElem?_append]
  split
  · rfl
  · rename_i hlt
    have hnone : s.respChs[k]? = none := getElem?_eq_none (by omega)
    rw [hnone]
    cases k - s.respChs.length <;> rfl

theorem count_values_erase (h : s.pending.find? seq = some ch) (k : ℕ) :
    (s.pending.values : Multiset ℕ).count k =
      ((s.pending.erase seq).values : Multiset ℕ).count k + if ch = k then 1 else 0 := by
  rw [values_erase h, Multiset.count_cons]
  simp only [eq_comm]

theorem count_values_insert (seq : UInt32) (ch k : ℕ) :
    ((s.pending.insert seq ch).values : Multiset ℕ).count k ≤
      (s.pending.values : Multiset ℕ).count k + if ch = k then 1 else 0 := by
  have hle := Multiset.count_le_of_le k (erase_values_le s.pending seq)
  rw [values_insert, Multiset.count_cons]
  simp only [eq_comm (a := k)]
  omega

theorem sendsOn_of_not_carries (h : a.carries = false) : a.sendsOn = none := by
  simpa using (Bool.or_eq_false_iff.mp h).2

theorem sendsOn_next_of_not_carries {next : List Action} (h : next.all (!·.carries) = true) :
    next.filterMap Action.sendsOn = [] := by
  refine filterMap_eq_nil_iff.mpr fun b hb => sendsOn_of_not_carries ?_
  simpa using all_eq_true.mp h b hb

/-- **A step adds to the load of no channel but one it makes.** -/
theorem Traffic.load_le (h : Traffic s a r) (k : ℕ) :
    load r.state ((r.next.filterMap Action.sendsOn : List ℕ) + rest) k ≤
      load s ((a.sendsOn.toList : List ℕ) + rest) k +
        if s.respChs.length = k ∧ a.registers.isSome then 1 else 0 := by
  rw [load_add, load_add]
  cases h with
  | quiet hq =>
    have hsent : sentOn r.state k = sentOn s k := by rw [sentOn, sentOn, hq.respChs]
    rw [sendsOn_next_of_not_carries hq.next, sendsOn_of_not_carries hq.action, hq.pending, hsent]
    exact Nat.le_add_right _ _
  | issue who => exact Nat.le_add_right _ _
  | register who seq hfree =>
    have hin := count_values_insert (s := s) seq s.respChs.length k
    simp only [sentOn_register, Action.registers, isSome_some, and_true] at hin ⊢
    change _ + 0 + _ + _ ≤ _ + 0 + _ + _ + _
    omega
  | receive ch ha hnext _ hpending hchs _ _ =>
    have hsent : sentOn r.state k = sentOn s k :=
      sentOn_modify (f := fun c => { c with taken := c.taken + 1 }) (fun _ => rfl) hchs k
    rw [sendsOn_next_of_not_carries hnext, sendsOn_of_not_carries ha, hpending, hsent]
    exact Nat.le_add_right _ _
  | unregister seq _ ha hnext hstate _ =>
    have hle := Multiset.count_le_of_le k (erase_values_le s.pending seq)
    have hsent : sentOn r.state k = sentOn s k := by rw [hstate]; rfl
    rw [sendsOn_next_of_not_carries hnext, sendsOn_of_not_carries ha, hsent, hstate]
    change ((s.pending.erase seq).values : Multiset ℕ).count k + 0 + _ + _ ≤ _ + 0 + _ + _ + _
    omega
  | take x pdu ch _ hresp hfind =>
    have hout := count_values_erase hfind k
    have hcount : [ch].count k = if ch = k then 1 else 0 := by simp [count_singleton]
    change ((s.pending.erase pdu.sequenceNumber).values : Multiset ℕ).count k + [ch].count k + _ +
      sentOn s k ≤ _ + 0 + _ + _ + _
    omega
  | send ch pdu hroom =>
    have hsent := sentOn_send (s := s) ch pdu k
    have hcount : [ch].count k = if ch = k then 1 else 0 := by simp [count_singleton]
    change (s.pending.values : Multiset ℕ).count k + 0 + _ + sentOn (s.send ch pdu) k ≤
      _ + [ch].count k + _ + _ + _
    omega
  | drain seq ch hfind hroom =>
    have hout := count_values_erase hfind k
    have hsent := sentOn_send (s := s) ch disconnectNack k
    change ((s.pending.erase seq).values : Multiset ℕ).count k + 0 + _ +
      sentOn (s.send ch disconnectNack) k ≤ _ + 0 + _ + _ + _
    omega

/-! ## What a step makes of the channels -/

/-- Channels stay where they are, each with its sequence number. -/
theorem Traffic.madeFor (h : Traffic s a r) (hm : MadeFor s ch seq) : MadeFor r.state ch seq := by
  have hmodify : ∀ (k : ℕ) (f : RespCh → RespCh), (∀ x, (f x).seq = x.seq) →
      ((s.respChs.modify k f)[ch]?).map (·.seq) = some seq := by
    intro k f hf
    obtain ⟨x, hx, rfl⟩ := map_eq_some_iff.mp hm
    rw [getElem?_modify, hx]
    by_cases hk : k = ch <;> simp [hk, hf]
  cases h with
  | quiet hq => rwa [MadeFor, hq.respChs]
  | issue who => exact hm
  | register who seq' hfree =>
    obtain ⟨x, hx, rfl⟩ := map_eq_some_iff.mp hm
    have hlt := (List.getElem?_eq_some_iff.mp hx).1
    simp [MadeFor, getElem?_append_left hlt, hx]
  | receive k ha hnext _ hpending hchs _ _ =>
    rw [MadeFor, hchs]
    exact hmodify k _ fun _ => rfl
  | unregister seq' _ ha hnext hstate _ => rwa [MadeFor, hstate]
  | take x pdu k _ hresp hfind => exact hm
  | send k pdu hroom => exact hmodify k _ fun _ => rfl
  | drain seq' k hfind hroom => exact hmodify k _ fun _ => rfl

/-- What `pending` holds after a step, it held before, or it is the channel
just made. -/
theorem Traffic.pending (h : Traffic s a r) (hf : r.state.pending.find? seq = some ch) :
    s.pending.find? seq = some ch ∨
      (a.registers = some seq ∧ ch = s.respChs.length ∧ MadeFor r.state ch seq) := by
  have herase : ∀ k, (s.pending.erase k).find? seq = some ch → s.pending.find? seq = some ch := by
    intro k hk
    rw [find?_erase] at hk
    split at hk
    · cases hk
    · exact hk
  cases h with
  | quiet hq => exact .inl (hq.pending ▸ hf)
  | issue who => exact .inl hf
  | register who seq' hfree =>
    simp only [find?_insert] at hf
    split at hf
    · rename_i hseq
      cases hf
      exact .inr ⟨congrArg some hseq.symm, rfl, by simp [MadeFor, hseq]⟩
    · exact .inl hf
  | receive k ha hnext _ hpending hchs _ _ => exact .inl (hpending ▸ hf)
  | unregister seq' _ ha hnext hstate _ => exact .inl (herase seq' (by rwa [hstate] at hf))
  | take x pdu k _ hresp hfind => exact .inl (herase _ hf)
  | send k pdu hroom => exact .inl hf
  | drain seq' k hfind hroom => exact .inl (herase _ hf)

/-- A send that is to come is for the channel of its sequence number. -/
theorem Traffic.next_send (h : Traffic s a r) {pdu : PDU} (hmem : .read (.send ch pdu) ∈ r.next) :
    pdu.commandID ∈ responses ∧ s.pending.find? pdu.sequenceNumber = some ch := by
  have hno : ∀ {next : List Action}, next.all (!·.carries) = true →
      .read (.send ch pdu) ∉ next := fun hall hin => by
    have hc := all_eq_true.mp hall _ hin
    simp [Action.carries, Action.sendsOn] at hc
  cases h with
  | quiet hq => exact absurd hmem (hno hq.next)
  | receive _ _ hnext => exact absurd hmem (hno hnext)
  | unregister _ _ _ hnext => exact absurd hmem (hno hnext)
  | take x p k _ hresp hfind =>
    obtain ⟨rfl, rfl⟩ : ch = k ∧ pdu = p := by simpa using hmem
    exact ⟨hresp, hfind⟩
  | issue | register | send | drain => simp at hmem

/-- What a channel holds after a step, it held before, or it was sent just
now: by an action that was about to, or by the drain. -/
theorem Traffic.sent (h : Traffic s a r) {x : RespCh} (hx : r.state.respChs[ch]? = some x)
    {pdu : PDU} (hpdu : pdu ∈ x.sent) :
    (∃ y, s.respChs[ch]? = some y ∧ y.seq = x.seq ∧ pdu ∈ y.sent) ∨
      (a = .read (.send ch pdu) ∧ MadeFor s ch x.seq) ∨ pdu = disconnectNack := by
  have hsend : ∀ k p, (s.respChs.modify k fun c => { c with sent := c.sent ++ [p] })[ch]? = some x →
      (∃ y, s.respChs[ch]? = some y ∧ y.seq = x.seq ∧ pdu ∈ y.sent) ∨
        (k = ch ∧ p = pdu ∧ MadeFor s ch x.seq) := by
    intro k p hk
    rw [getElem?_modify] at hk
    obtain ⟨y, hy, rfl⟩ := map_eq_some_iff.mp hk
    by_cases hkch : k = ch
    · subst hkch
      simp only [if_true, mem_append, mem_singleton] at hpdu ⊢
      rcases hpdu with hpdu | rfl
      · exact .inl ⟨y, hy, rfl, hpdu⟩
      · exact .inr ⟨trivial, rfl, by simp [MadeFor, hy]⟩
    · simp only [hkch, if_false] at hpdu ⊢
      exact .inl ⟨y, hy, rfl, hpdu⟩
  cases h with
  | quiet hq => exact .inl ⟨x, hq.respChs ▸ hx, rfl, hpdu⟩
  | issue who => exact .inl ⟨x, hx, rfl, hpdu⟩
  | register who seq' hfree =>
    simp only [getElem?_append] at hx
    split at hx
    · exact .inl ⟨x, hx, rfl, hpdu⟩
    · rw [getElem?_singleton] at hx
      obtain ⟨-, rfl⟩ := eq_of_guard hx
      cases hpdu
  | receive k ha hnext _ hpending hchs _ _ =>
    rw [hchs, getElem?_modify] at hx
    obtain ⟨y, hy, rfl⟩ := map_eq_some_iff.mp hx
    refine .inl ⟨y, hy, ?_, ?_⟩
    · by_cases hk : k = ch <;> simp [hk]
    · by_cases hk : k = ch <;> simpa [hk] using hpdu
  | unregister seq' _ ha hnext hstate _ =>
    rw [hstate] at hx
    exact .inl ⟨x, hx, rfl, hpdu⟩
  | take _ _ k _ hresp hfind => exact .inl ⟨x, hx, rfl, hpdu⟩
  | send k p hroom =>
    rcases hsend k p hx with h | ⟨rfl, rfl, hm⟩
    · exact .inl h
    · exact .inr (.inl ⟨rfl, hm⟩)
  | drain seq' k hfind hroom =>
    rcases hsend k disconnectNack hx with h | ⟨-, rfl, -⟩
    · exact .inl h
    · exact .inr (.inr rfl)

end Load

/-- **What holds of the requests in flight**, whatever their sequence
numbers. -/
structure InFlight (c : ClientConf) : Prop where
  /-- A channel takes one PDU at most. -/
  once : ∀ ch, load c.shared (sends c) ch ≤ 1
  made : ∀ ch, c.shared.respChs.length ≤ ch → load c.shared (sends c) ch = 0
  pending : ∀ seq ch, c.shared.pending.find? seq = some ch → MadeFor c.shared ch seq
  sending : ∀ ch pdu, .read (.send ch pdu) ∈ c.actions →
    pdu.commandID ∈ responses ∧ MadeFor c.shared ch pdu.sequenceNumber
  sent : ∀ (ch : ℕ) (x : RespCh), c.shared.respChs[ch]? = some x →
    ∀ pdu ∈ x.sent, Answers x.seq pdu

theorem entry_carries {a : Action} (h : entry a = true) : a.carries = false := by
  unfold entry at h
  split at h <;> first | rfl | cases h

section Run

variable {cfg : Config}

theorem load_start (ch : ℕ) : load ClientConf.start.shared (sends .start) ch = 0 := by
  simp [load, sends, sentOn, ClientConf.start, Conf.actions, SortedMap.values, SortedMap.empty]

theorem inFlight_start : InFlight .start where
  once := fun ch => (load_start ch).le.trans zero_le_one
  made := fun ch _ => load_start ch
  pending := by simp [ClientConf.start]
  sending := by simp [ClientConf.start, Conf.actions]
  sent := by simp [ClientConf.start]

variable {s : State} {a : Action} {c : ClientConf} {ch : ℕ} {seq : UInt32}

theorem length_respChs_le {r : ClientEffect} (h : Traffic s a r) :
    s.respChs.length ≤ r.state.respChs.length ∧
      (a.registers.isSome = true → r.state.respChs.length = s.respChs.length + 1) := by
  cases h with
  | quiet hq =>
    have hreg := (Bool.or_eq_false_iff.mp hq.action).1
    exact ⟨hq.respChs ▸ le_rfl, fun h => absurd h (by simp [hreg])⟩
  | receive k ha _ _ _ hchs =>
    have hreg := (Bool.or_eq_false_iff.mp ha).1
    exact ⟨by simp [hchs], fun h => absurd h (by simp [hreg])⟩
  | unregister _ _ ha _ hstate =>
    have hreg := (Bool.or_eq_false_iff.mp ha).1
    exact ⟨by simp [hstate], fun h => absurd h (by simp [hreg])⟩
  | register => exact ⟨by simp, fun _ => by simp⟩
  | issue | take => exact ⟨le_rfl, fun h => by cases h⟩
  | send | drain => exact ⟨by simp [State.send, State.modifyCh], fun h => by cases h⟩

theorem step_inFlight {c' : ClientConf} {e : Event Input Action} (hc : InFlight c)
    (h : (program cfg).step c e = some c') : InFlight c' := by
  rcases Program.step_cases h with ⟨a, -, hst⟩ | ⟨j, input, a, r, rest, -, hran⟩
  · have hnone := sendsOn_of_not_carries (entry_carries hst.entry)
    have hsends : sends c' = sends c := by
      rw [sends, hst.actions, Multiset.filterMap_cons_none _ _ hnone]
      rfl
    refine ⟨?_, ?_, ?_, ?_, ?_⟩ <;> rw [hst.shared]
    · rw [hsends]
      exact hc.once
    · rw [hsends]
      exact hc.made
    · exact hc.pending
    · intro ch pdu hmem
      rcases hst.cases hmem with rfl | hmem
      · cases hst.entry
      · exact hc.sending ch pdu hmem
    · exact hc.sent
  · have ht := exec_traffic hran.exec
    have hs := hran.shared
    have hsends : sends c = (a.sendsOn.toList : List ℕ) + rest.filterMap Action.sendsOn := by
      rw [sends, hran.before, Conf.filterMap_cons_toList]
    have hsends' : sends c' =
        (r.next.filterMap Action.sendsOn : List ℕ) + rest.filterMap Action.sendsOn := by
      rw [sends, hran.actions, Multiset.filterMap_add]
      rfl
    have hload : ∀ k, load c'.shared (sends c') k ≤ load c.shared (sends c) k +
        if c.shared.respChs.length = k ∧ a.registers.isSome then 1 else 0 := by
      intro k
      rw [hs, hsends, hsends']
      exact ht.load_le k
    have hlen := length_respChs_le ht
    refine ⟨?_, ?_, ?_, ?_, ?_⟩
    · intro ch
      have hch := hload ch
      split at hch
      · rename_i hnew
        have := hc.made ch hnew.1.le
        omega
      · exact hch.trans (hc.once ch)
    · intro ch hge
      rw [hs] at hge
      have hch := hload ch
      have hzero := hc.made ch (by omega)
      split at hch
      · rename_i hnew
        have := hlen.2 hnew.2
        omega
      · omega
    · intro seq ch hfind
      rw [hs] at hfind ⊢
      rcases ht.pending hfind with hold | ⟨-, -, hnew⟩
      · exact ht.madeFor (hc.pending seq ch hold)
      · exact hnew
    · intro ch pdu hmem
      rw [hs]
      rcases hran.cases hmem with hmem | hmem
      · obtain ⟨hresp, hfind⟩ := ht.next_send hmem
        exact ⟨hresp, ht.madeFor (hc.pending _ ch hfind)⟩
      · obtain ⟨hresp, hm⟩ := hc.sending ch pdu (hran.pending hmem)
        exact ⟨hresp, ht.madeFor hm⟩
    · intro ch x hx pdu hpdu
      rw [hs] at hx
      rcases ht.sent hx hpdu with ⟨y, hy, hseq, hold⟩ | ⟨rfl, hm⟩ | rfl
      · exact hseq ▸ hc.sent ch y hy pdu hold
      · obtain ⟨hresp, hm'⟩ := hc.sending ch pdu hran.mem
        exact .inl ⟨hresp, some.inj (hm'.symm.trans hm)⟩
      · exact .inr rfl

theorem inFlight (h : Runs cfg c) : InFlight c :=
  h.invariant inFlight_start fun _ _ _ hc _ hs => step_inFlight hc hs

/-! ## A sender does not block -/

/-- A channel on which nothing was sent takes a PDU. -/
theorem hasRoom_of_sentOn (hm : MadeFor s ch seq) (h : sentOn s ch = 0) : s.hasRoom ch = true := by
  obtain ⟨x, hx, -⟩ := map_eq_some_iff.mp hm
  have hlen : x.sent.length = 0 := by simpa [sentOn, hx] using h
  simp [State.hasRoom, hx, RespCh.hasRoom, hlen]

theorem InFlight.sentOn_of_sending (hc : InFlight c) {pdu : PDU}
    (h : .read (.send ch pdu) ∈ c.actions) : sentOn c.shared ch = 0 := by
  have hpos : 0 < (sends c).count ch :=
    Multiset.count_pos.mpr ((Multiset.mem_filterMap _ _).mpr ⟨_, h, rfl⟩)
  have hone := hc.once ch
  rw [load] at hone
  omega

theorem InFlight.sentOn_of_pending (hc : InFlight c) (h : c.shared.pending.find? seq = some ch) :
    sentOn c.shared ch = 0 := by
  have hpos : 0 < (c.shared.pending.values : Multiset ℕ).count ch :=
    Multiset.count_pos.mpr (mem_values_iff.mpr ⟨seq, h⟩)
  have hone := hc.once ch
  rw [load] at hone
  omega

theorem InFlight.hasRoom_of_sending (hc : InFlight c) {pdu : PDU}
    (h : .read (.send ch pdu) ∈ c.actions) : c.shared.hasRoom ch = true :=
  hasRoom_of_sentOn (hc.sending ch pdu h).2 (hc.sentOn_of_sending h)

theorem InFlight.hasRoom_of_pending (hc : InFlight c) (h : c.shared.pending.find? seq = some ch) :
    c.shared.hasRoom ch = true :=
  hasRoom_of_sentOn (hc.pending seq ch h) (hc.sentOn_of_pending h)

/-! ## One channel for a sequence number -/

/-- The sequence numbers that were handed out for a channel. -/
def seqs (c : ClientConf) : Multiset UInt32 :=
  c.actions.filterMap Action.registers + (c.shared.respChs.map (·.seq) : List UInt32)

/-- As long as they do not wrap, sequence numbers are handed out in
ascending order. -/
structure Distinct (c : ClientConf) : Prop where
  nodup : (seqs c).Nodup
  le_issued : ∀ seq ∈ seqs c, seq.toNat ≤ c.shared.issued

theorem map_seq_modify (l : List RespCh) (ch : ℕ) {f : RespCh → RespCh}
    (hf : ∀ x, (f x).seq = x.seq) : (l.modify ch f).map (·.seq) = l.map (·.seq) := by
  refine ext_getElem? fun k => ?_
  rw [getElem?_map, getElem?_map, getElem?_modify]
  cases l[k]? with
  | none => rfl
  | some x => by_cases hk : ch = k <;> simp [hk, hf]

theorem map_seq_send (s : State) (ch : ℕ) (pdu : PDU) :
    (s.send ch pdu).respChs.map (·.seq) = s.respChs.map (·.seq) :=
  map_seq_modify _ _ fun _ => rfl

theorem registers_of_not_carries (h : a.carries = false) : a.registers = none := by
  simpa using (Bool.or_eq_false_iff.mp h).1

theorem registers_next_of_not_carries {next : List Action} (h : next.all (!·.carries) = true) :
    next.filterMap Action.registers = [] := by
  refine filterMap_eq_nil_iff.mpr fun b hb => registers_of_not_carries ?_
  simpa using all_eq_true.mp h b hb

/-- **A step hands out the next sequence number**, or it hands out none. -/
theorem Traffic.seqs {r : ClientEffect} (h : Traffic s a r) :
    ((r.next.filterMap Action.registers : List UInt32) +
          (r.state.respChs.map (·.seq) : List UInt32) : Multiset UInt32) =
        (a.registers.toList : List UInt32) + (s.respChs.map (·.seq) : List UInt32) ∧
      s.issued ≤ r.state.issued ∨
    ((r.next.filterMap Action.registers : List UInt32) +
          (r.state.respChs.map (·.seq) : List UInt32) : Multiset UInt32) =
        UInt32.ofNat (s.issued + 1) ::ₘ
          ((a.registers.toList : List UInt32) + (s.respChs.map (·.seq) : List UInt32)) ∧
      r.state.issued = s.issued + 1 := by
  cases h with
  | quiet hq =>
    refine .inl ⟨?_, hq.issued⟩
    rw [registers_next_of_not_carries hq.next, registers_of_not_carries hq.action, hq.respChs]
    rfl
  | issue who => exact .inr ⟨rfl, rfl⟩
  | register who seq hfree =>
    refine .inl ⟨?_, le_rfl⟩
    simp [Action.registers, ← Multiset.coe_add, add_comm]
  | receive ch ha hnext hissued _ hchs _ _ =>
    refine .inl ⟨?_, hissued.ge⟩
    have hmap : r.state.respChs.map (·.seq) = s.respChs.map (·.seq) := by
      rw [hchs]
      exact map_seq_modify _ _ fun _ => rfl
    rw [registers_next_of_not_carries hnext, registers_of_not_carries ha, hmap]
    rfl
  | unregister seq _ ha hnext hstate _ =>
    refine .inl ⟨?_, by rw [hstate]⟩
    rw [registers_next_of_not_carries hnext, registers_of_not_carries ha, hstate]
    rfl
  | take x pdu ch => exact .inl ⟨rfl, le_rfl⟩
  | send ch pdu hroom =>
    refine .inl ⟨?_, le_rfl⟩
    dsimp only
    rw [map_seq_send]
    rfl
  | drain seq ch hfind hroom =>
    refine .inl ⟨?_, le_rfl⟩
    dsimp only
    rw [map_seq_send]
    rfl

theorem step_distinct {c' : ClientConf} {e : Event Input Action}
    (hc : c.shared.issued < 2 ^ 32 → Distinct c) (h : (program cfg).step c e = some c')
    (hissued : c'.shared.issued < 2 ^ 32) : Distinct c' := by
  rcases Program.step_cases h with ⟨a, -, hst⟩ | ⟨j, input, a, r, rest, -, hran⟩
  · have hnone := registers_of_not_carries (entry_carries hst.entry)
    have hseqs : seqs c' = seqs c := by
      rw [seqs, hst.actions, hst.shared, Multiset.filterMap_cons_none _ _ hnone]
      rfl
    have hd := hc (hst.shared ▸ hissued)
    exact ⟨hseqs ▸ hd.nodup, by rw [hseqs, hst.shared]; exact hd.le_issued⟩
  · have hs := hran.shared
    have hbefore : seqs c = (a.registers.toList : List UInt32) +
        (c.shared.respChs.map (·.seq) : List UInt32) + rest.filterMap Action.registers := by
      rw [seqs, hran.before, Conf.filterMap_cons_toList]
      abel
    have hafter : seqs c' = (r.next.filterMap Action.registers : List UInt32) +
        (r.state.respChs.map (·.seq) : List UInt32) + rest.filterMap Action.registers := by
      rw [seqs, hran.actions, hs, Multiset.filterMap_add, Multiset.filterMap_coe]
      abel
    rcases (exec_traffic hran.exec).seqs with ⟨hsame, hle⟩ | ⟨hnew, hsucc⟩
    · have hseqs : seqs c' = seqs c := by rw [hafter, hsame, hbefore]
      have hd := hc (by rw [hs] at hissued; omega)
      refine ⟨hseqs ▸ hd.nodup, fun seq hseq => ?_⟩
      rw [hseqs] at hseq
      rw [hs]
      exact (hd.le_issued seq hseq).trans hle
    · have hseqs : seqs c' = UInt32.ofNat (c.shared.issued + 1) ::ₘ seqs c := by
        rw [hafter, hnew, hbefore, Multiset.cons_add]
      rw [hs, hsucc] at hissued
      have hd := hc (by omega)
      -- the counter did not wrap, so the new number is above all others
      have hval : (UInt32.ofNat (c.shared.issued + 1)).toNat = c.shared.issued + 1 :=
        UInt32.toNat_ofNat_of_lt' hissued
      have hfresh : UInt32.ofNat (c.shared.issued + 1) ∉ seqs c := fun hmem => by
        have := hd.le_issued _ hmem
        omega
      refine ⟨hseqs ▸ Multiset.nodup_cons.mpr ⟨hfresh, hd.nodup⟩, fun seq hseq => ?_⟩
      rw [hs, hsucc]
      rw [hseqs] at hseq
      rcases Multiset.mem_cons.mp hseq with rfl | hseq
      · omega
      · exact (hd.le_issued seq hseq).trans (Nat.le_succ _)

theorem distinct (h : Runs cfg c) (hissued : c.shared.issued < 2 ^ 32) : Distinct c := by
  refine h.invariant (I := fun c => c.shared.issued < 2 ^ 32 → Distinct c) ?_ ?_ hissued
  · intro _
    exact ⟨by simp [seqs, ClientConf.start, Conf.actions], by simp [seqs, ClientConf.start, Conf.actions]⟩
  · intro c e c' hc _ hs hissued
    exact step_distinct hc hs hissued

/-! ## The result -/

/-- **Responses match requests.** -/
structure Matched (cfg : Config) (c : ClientConf) : Prop where
  /-- The channel of a request receives at most one PDU. -/
  once : ∀ x ∈ c.shared.respChs, x.sent.length ≤ 1
  /-- It is a response with the request's sequence number, or the NACK of a
  disconnect. -/
  answers : ∀ x ∈ c.shared.respChs, ∀ pdu ∈ x.sent, Answers x.seq pdu
  /-- No other request has that sequence number. -/
  own : ∀ (i j : ℕ) (x y : RespCh), c.shared.respChs[i]? = some x →
    c.shared.respChs[j]? = some y → x.seq = y.seq → i = j
  /-- `dispatchPDU` does not block on its send. -/
  dispatch : ∀ ch pdu, .read (.send ch pdu) ∈ c.actions → ∀ input,
    (exec cfg c.shared input (.read (.send ch pdu))).isSome = true
  /-- `handleDisconnect` does not block on its send, whichever entry its loop
  comes to. -/
  drain : .link .drain ∈ c.actions → ∀ input,
    (c.shared.pending.find? input.seq).isSome = true →
    (exec cfg c.shared input (.link .drain)).isSome = true

/-- **Every response finds its request.** In every run that has issued fewer
than 2^32 sequence numbers. -/
theorem responses_match_requests {c : ClientConf} (h : Runs cfg c)
    (hissued : c.shared.issued < 2 ^ 32) : Matched cfg c := by
  have hf := inFlight h
  have hd := distinct h hissued
  refine ⟨?_, ?_, ?_, ?_, ?_⟩
  · intro x hx
    obtain ⟨ch, hch⟩ := mem_iff_getElem?.mp hx
    have hone := hf.once ch
    have hsent : sentOn c.shared ch = x.sent.length := by simp [sentOn, hch]
    rw [load, hsent] at hone
    omega
  · intro x hx pdu hpdu
    obtain ⟨ch, hch⟩ := mem_iff_getElem?.mp hx
    exact hf.sent ch x hch pdu hpdu
  · intro i j x y hi hj hseq
    have hnd : (c.shared.respChs.map (·.seq)).Nodup :=
      Multiset.coe_nodup.mp (Multiset.nodup_of_le (Multiset.le_add_left _ _) hd.nodup)
    have hlt : i < (c.shared.respChs.map (·.seq)).length := by
      simpa using (List.getElem?_eq_some_iff.mp hi).1
    refine (getElem?_inj hlt hnd).mp ?_
    rw [getElem?_map, getElem?_map, hi, hj, Option.map_some, Option.map_some, hseq]
  · intro ch pdu hmem input
    simp [exec, execRead, hf.hasRoom_of_sending hmem]
  · intro _ input hsome
    obtain ⟨ch, hfind⟩ := Option.isSome_iff_exists.mp hsome
    have hne : c.shared.pending ≠ .empty := fun hempty => by
      rw [hempty] at hfind
      cases hfind
    simp [exec, execLink, hne, hfind, hf.hasRoom_of_pending hfind]

end Run

/-- Two requests in flight, answered in the other order; the second answer to
one of them finds nobody. -/
theorem swapped_responses_match :
    ∃ c, Runs smallConfig c ∧
      c.shared.respChs.map (·.sent) =
        [[response cmdBindTransceiverResp 1], [response cmdSubmitSMResp 2],
          [response cmdSubmitSMResp 3]] ∧
      Matched smallConfig c := by
  have h := runs_reached
    (connects 0 1 ++ submits 2 ++ submits 3 ++ reads 1 (response cmdSubmitSMResp 3) 2 ++
      reads 1 (response cmdSubmitSMResp 2) 2 ++ reads 1 (response cmdSubmitSMResp 3) 1)
    (by decide)
  exact ⟨_, h, by decide, responses_match_requests h (by decide)⟩

end Client

end SmscGateway
