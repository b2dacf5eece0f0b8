import SmscGateway.Restart.Ids

/-!
# What goes with one message

The addresses and the body that a message is accepted with are those of every
parcel under its id, in every state the gateway gets to from there: the id was
of no use before, and it is not given out again.
-/

namespace SmscGateway

namespace Dossier

variable {cfg : RouterConfig} {c : GatewayConf} {g : Bytes} {P : Bytes → Bytes → Bytes → Prop}

/-- What is known of one message: its addresses and its body. Every id is one
that JSON keeps. -/
def about (g : Bytes) (P : Bytes → Bytes → Bytes → Prop) : Dossier where
  parcel _ g' d f b := jsonString g' = g' ∧ (g' = g → P d f b)
  claim g' _ d := jsonString g' = g' ∧ (g' = g → ∃ f b, P d f b)
  kept _ _ := True

theorem about_lawful (hP : ∀ d f b, P d f b → P (jsonString d) (jsonString f) b) :
    (about g P).Lawful where
  claim_of_parcel := fun h => ⟨h.1, fun hg => ⟨_, _, h.2 hg⟩⟩
  name_of_claim := fun _ => trivial
  name_of_kept := fun _ => trivial
  rejected := fun _ => trivial
  json := by
    rintro connID g' d f b ⟨hid, hparcel⟩
    simp only [about, hid, true_and]
    exact fun hg => hP d f b (hparcel hg)
  json_claim := by
    rintro g' connID d ⟨hid, hdest⟩
    simp only [about, hid, true_and]
    intro hg
    obtain ⟨f, b, h⟩ := hdest hg
    exact ⟨_, _, hP d f b h⟩

/-- A REST message is offered with the addresses of its request. -/
theorem addresses_of_offer {s : Gateway} {i : Input} {m : SMSSubmitRequest}
    {rest : List SMSSubmitRequest} {ids : List Bytes} {task : ForwardTask} {connID : Bytes}
    (h : .submit (.offer task connID) ∈ (acceptRESTMessage s i m rest ids).next) :
    task.destAddr = m.toAddr ∧ task.sourceAddr = m.fromAddr := by
  have hexec : exec {} s i (.submit (.acceptREST (m :: rest) ids)) =
      some (acceptRESTMessage s i m rest ids) := rfl
  obtain ⟨a, ha, hcont⟩ := submit_of_next hexec h
  obtain rfl := Action.submit.inj ha
  cases hcont
  exact ⟨rfl, rfl⟩

/-- Before its id is given out nothing is known of a message. -/
theorem on_about_of_current (hc : Restart.Current c) (hg : g = gwMsgIDOf (c.shared.msgSeq + 1)) :
    (about g P).On c := by
  have hold : ∀ {g'}, Restart.Issued c.shared.msgSeq c.trace g' → jsonString g' = g' ∧ g' ≠ g := by
    intro g' hg'
    refine ⟨?_, ?_⟩
    · rcases hg' with ⟨m, -, rfl, -⟩ | ⟨m, rfl⟩
      · exact jsonString_gwMsgIDOf m
      · exact jsonString_numbered (by decide) m
    · rintro rfl
      exact Restart.not_issued_next _ _ (hg ▸ hg')
  exact hc.ids.mono ⟨fun h => ⟨(hold h).1, fun heq => absurd heq (hold h).2⟩,
    fun h => ⟨(hold h).1, fun heq => absurd heq (hold h).2⟩, fun _ => trivial⟩

/-- **What a message is accepted with goes with it for good.** -/
theorem on_about_of_accepted {ok ok' : GatewayConf → Event Input Action → Prop}
    {c₀ c₁ : GatewayConf} {n : ℕ} {i : Input} {a : Action} {r : GatewayEffect}
    (hP : ∀ d f b, P d f b → P (jsonString d) (jsonString f) b)
    (h₀ : (gateway cfg).Reaches ok GatewayConf.start c₀) (hhead : c₀.head n = some a)
    (hexec : exec cfg c₀.shared i a = some r) (hstep : (gateway cfg).step c₀ (.run n i) = some c₁)
    (hseq : r.state.msgSeq = c₀.shared.msgSeq + 1)
    (hnew : ∀ task connID, .submit (.offer task connID) ∈ r.next →
      P task.destAddr task.sourceAddr task.rawBody)
    (hrun : (gateway cfg).Reaches ok' c₁ c) :
    (about (gwMsgIDOf (c₀.shared.msgSeq + 1)) P).On c ∧
      c₀.shared.msgSeq + 1 ≤ c.shared.msgSeq := by
  have hlaw := about_lawful (g := gwMsgIDOf (c₀.shared.msgSeq + 1)) hP
  refine hrun.invariant (I := fun c => (about (gwMsgIDOf (c₀.shared.msgSeq + 1)) P).On c ∧
    c₀.shared.msgSeq + 1 ≤ c.shared.msgSeq) ⟨?_, ?_⟩ ?_
  · refine ((on_about_of_current (Restart.reaches_current h₀) rfl).step hlaw hstep ?_
      fun _ _ _ _ t _ ht => ht.choose_spec).1
    intro j i' a' r' he hhead' hexec' task connID hmem
    obtain ⟨rfl, rfl⟩ := Event.run.inj he
    obtain rfl := Option.some.inj (hhead.symm.trans hhead')
    obtain rfl := Option.some.inj (hexec.symm.trans hexec')
    refine ⟨?_, fun _ => hnew task connID hmem⟩
    rw [(offer_of_next hexec hmem).1, jsonString_gwMsgIDOf]
  · obtain ⟨r', rest, hran⟩ := Program.ran_of_head hstep hhead
    obtain rfl := Option.some.inj (hexec.symm.trans hran.exec)
    rw [hran.shared, hseq]
  · rintro c e c' ⟨hc, hle⟩ - hs
    refine ⟨(hc.step hlaw hs ?_ fun _ _ _ _ t _ ht => ht.choose_spec).1, ?_⟩
    · -- a later message has a later id
      intro j i' a' r' _ _ hexec' task connID hmem
      have hid := (offer_of_next hexec' hmem).1
      refine ⟨by rw [hid, jsonString_gwMsgIDOf], fun heq => ?_⟩
      have := gwMsgIDOf_injective (hid.symm.trans heq)
      omega
    · rcases Program.step_cases hs with ⟨b, -, hst⟩ | ⟨j, i', b, r', rest, -, hran⟩
      · rw [hst.shared]
        exact hle
      · rw [hran.shared]
        exact hle.trans (Restart.exec_msgSeq_le hran.exec)

end Dossier

end SmscGateway
