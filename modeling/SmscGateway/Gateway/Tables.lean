import SmscGateway.Gateway.Frame

/-!
# What an action does to the correlation tables

`smscCorrelation` and the submit records after an action are functions of what
they were before and of the action. `gwCorrelation` gains an entry when a
message is accepted, and only then.
-/

namespace SmscGateway

/-- `smscCorrelation` after an action. -/
def smscAfter (m : SortedMap Bytes Correlation) : Action → SortedMap Bytes Correlation
  | .submit (.setCorrelation _ _ smscMsgID corr) => m.insert smscMsgID corr
  | .record (.expireSmsc smscMsgID) => m.erase smscMsgID
  | .back (.settle r _ .deleteSmscCorrelation) => m.erase r.parsed.messageID
  | _ => m

/-- The submit records after an action. -/
def submitsAfter (cfg : RouterConfig) (i : Input) (s : Submits) : Action → Submits
  | .record (.storeSubmit r) => s.storeSubmit r
  | .record (.deleteSubmitByGwID gwMsgID) => s.deleteSubmitByGwID gwMsgID
  | .record .batchWriteLoop => if i.tick then s.flush else s.receive.getD s
  | .record .cleanup => s.cleanup (i.now - cfg.messageTTL)
  | .back (.settle r _ .deleteSubmit) => s.deleteSubmit r.parsed.messageID
  | _ => s

/-- `gwCorrelation` gains nothing but the correlations of messages that are
accepted. -/
def Gains (m m' : SortedMap Bytes Correlation) (seen : List Obs) : Prop :=
  ∀ g corr, m'.find? g = some corr → m.find? g = some corr ∨
    (corr.gwMsgID = g ∧ ∃ o, .message g (.accepted o) ∈ seen ∧ corr.northConnID = o.connID)

theorem Gains.refl (m : SortedMap Bytes Correlation) (seen : List Obs) : Gains m m seen :=
  fun _ _ h => .inl h

theorem Gains.insert (m : SortedMap Bytes Correlation) (corr : Correlation) {seen : List Obs}
    {o : Origin} (hseen : .message corr.gwMsgID (.accepted o) ∈ seen)
    (ho : corr.northConnID = o.connID) : Gains m (m.insert corr.gwMsgID corr) seen := by
  intro g corr' hg
  rw [SortedMap.find?_insert] at hg
  split at hg
  · rename_i hkey
    cases hg
    exact .inr ⟨hkey.symm, o, hkey ▸ hseen, ho⟩
  · exact .inl hg

theorem Gains.erase (m : SortedMap Bytes Correlation) (k : Bytes) (seen : List Obs) :
    Gains m (m.erase k) seen := by
  intro g corr hg
  rw [SortedMap.find?_erase] at hg
  split at hg
  · cases hg
  · exact .inl hg

section Exec

variable {cfg : RouterConfig} {s : Gateway} {i : Input} {r : GatewayEffect}

/-- What the three tables are after an action. -/
structure Tables (cfg : RouterConfig) (s : Gateway) (i : Input) (a : Action) (r : GatewayEffect) :
    Prop where
  smsc : r.state.smscCorrelation = smscAfter s.smscCorrelation a
  submits : r.state.store.submits = submitsAfter cfg i s.store.submits a
  gw : Gains s.gwCorrelation r.state.gwCorrelation r.seen

theorem execRecord_tables {a : RecordAction} (h : execRecord cfg s i a = some r) :
    Tables cfg s i (.record a) r := by
  cases a with
  | updateMessageLog g u =>
    simp only [execRecord] at h
    split at h <;> obtain rfl := Option.some.inj h <;> exact ⟨rfl, rfl, Gains.refl _ _⟩
  | postCallback cb payload =>
    cases h
    refine ⟨rfl, ?_, Gains.refl _ _⟩
    simp only [postCallback]
    split <;> rfl
  | deleteGwCorrelation g =>
    cases h
    exact ⟨rfl, rfl, Gains.erase _ _ _⟩
  | expireGw g =>
    cases h
    exact ⟨rfl, rfl, Gains.erase _ _ _⟩
  | batchWriteLoop =>
    obtain ⟨submits, hsub, rfl⟩ := Option.map_eq_some_iff.mp h
    refine ⟨rfl, ?_, Gains.refl _ _⟩
    simp only [submitsAfter]
    split at hsub
    · rename_i htick
      rw [if_pos htick]
      exact (Option.some.inj hsub).symm
    · rename_i htick
      rw [if_neg htick, hsub]
      rfl
  | _ =>
    cases h
    exact ⟨rfl, rfl, Gains.refl _ _⟩

theorem execReturn_tables {a : ReturnAction} (h : execReturn cfg s i a = some r) :
    Tables cfg s i (.back a) r := by
  cases execReturn_moves h with
  | found rc corr =>
    unfold routeReceipt
    split <;> exact ⟨rfl, rfl, Gains.refl _ _⟩
  | stored n rc rec =>
    unfold routeReceipt
    split
    · exact ⟨rfl.symm, rfl.symm, Gains.refl _ _⟩
    · exact ⟨rfl.symm, rfl.symm, Gains.refl _ _⟩
  | settle rc corr st =>
    cases st with
    | updateMessageLog =>
      simp only [execSettle]
      split <;> exact ⟨rfl, rfl, Gains.refl _ _⟩
    | deleteGwCorrelation => exact ⟨rfl, rfl, Gains.erase _ _ _⟩
    | _ => exact ⟨rfl, rfl, Gains.refl _ _⟩
  | _ => exact ⟨rfl, rfl, Gains.refl _ _⟩

/-- **What any action does to the tables.** -/
theorem exec_tables {a : Action} (h : exec cfg s i a = some r) : Tables cfg s i a r := by
  cases a with
  | submit a =>
    cases execSubmit_moves h with
    | accepted | acceptedREST =>
      exact ⟨rfl, rfl, Gains.insert _ ⟨_, _, _, _⟩ List.mem_cons_self rfl⟩
    | overflowed | unsent | unresent =>
      unfold enqueueSubmitRetryOrFail
      split
      · exact ⟨rfl.symm, rfl.symm, Gains.refl _ _⟩
      · unfold sendSyntheticDLR
        split
        · exact ⟨rfl.symm, rfl.symm, Gains.refl _ _⟩
        · exact ⟨rfl.symm, rfl.symm, Gains.refl _ _⟩
    | _ => exact ⟨rfl, rfl, Gains.refl _ _⟩
  | record a => exact execRecord_tables h
  | back a => exact execReturn_tables h
  | serve a =>
    obtain ⟨hst, -, -⟩ := execServe_frame h
    refine ⟨?_, ?_, ?_⟩
    · rw [hst]
      rfl
    · rw [hst]
      rfl
    · rw [hst]
      exact Gains.refl _ _

end Exec

end SmscGateway
