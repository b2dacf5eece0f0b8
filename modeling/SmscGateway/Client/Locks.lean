import SmscGateway.Client.Step

/-!
# Who holds the locks

At most one goroutine holds `mu`, and at most one holds `pendingMu`
(`Locks`). So what is only written under `mu` stands still while another
goroutine holds it: `bound`, the field `done`, and whether a `done` channel is
closed (`exec_without_mu`). A goroutine in the middle of `Connect`, `Close` or
`handleDisconnect` therefore still finds what it left (`Linked`), and the
`done` channel of a bound client is open (`Sound`).
-/

namespace SmscGateway

namespace Client

open Smpp Multiset State

variable {cfg : Config} {s : State} {i : Input} {r : ClientEffect} {a : Action}

/-! ## Mutual exclusion -/

/-- One holder for a lock that is taken, none for one that is free. -/
structure Locks (c : ClientConf) : Prop where
  mu : c.actions.countP (·.holdsMu) = c.shared.mu.toNat
  pendingMu : c.actions.countP (·.holdsPendingMu) = c.shared.pendingMu.toNat

theorem entry_holdsMu (h : entry a = true) : a.holdsMu = false ∧ a.holdsPendingMu = false := by
  unfold entry at h
  split at h <;> first | exact ⟨rfl, rfl⟩ | cases h

theorem countP_cons_eq (p : Action → Bool) (a : Action) (rest : Multiset Action) :
    (a ::ₘ rest).countP (p ·) = (p a).toNat + rest.countP (p ·) := by
  rw [countP_cons, add_comm]
  cases p a <;> rfl

theorem countP_coe (p : Action → Bool) (l : List Action) :
    (l : Multiset Action).countP (p ·) = l.countP p := by
  simp [coe_countP]

variable {c : ClientConf} {s' : State}

theorem step_locks {c' : ClientConf} {e : Event Input Action} (hc : Locks c)
    (h : (program cfg).step c e = some c') : Locks c' := by
  rcases Program.step_cases h with ⟨a, -, ha, hs, hacts, -⟩ |
    ⟨-, input, a, r, rest, -, -, hexec, hacts, hs, hacts', -⟩
  · obtain ⟨hmu, hpending⟩ := entry_holdsMu ha
    refine ⟨?_, ?_⟩
    · rw [hacts, countP_cons_eq, hmu, hs]
      simpa using hc.mu
    · rw [hacts, countP_cons_eq, hpending, hs]
      simpa using hc.pendingMu
  · have hmu := hc.mu
    have hpending := hc.pendingMu
    rw [hacts, countP_cons_eq] at hmu hpending
    have hmu' : c'.actions.countP (·.holdsMu) =
        holders r.next + rest.countP (·.holdsMu) := by
      rw [hacts', countP_add, countP_coe]
    have hpending' : c'.actions.countP (·.holdsPendingMu) =
        pendingHolders r.next + rest.countP (·.holdsPendingMu) := by
      rw [hacts', countP_add, countP_coe]
    refine ⟨?_, ?_⟩ <;> rw [hs]
    · rw [hmu']
      cases exec_lockStep hexec with
      | keep h _ hn => rw [hn, h]; omega
      | lock ha _ hfree h _ hn =>
        rw [ha, hfree] at hmu
        rw [h, hn]
        simpa using hmu
      | unlock ha _ h _ hn =>
        have hle := Bool.toNat_le c.shared.mu
        rw [ha, Bool.toNat_true] at hmu
        rw [hn, h]
        simp
        omega
      | lockPending => exact hmu
      | unlockPending => exact hmu
    · rw [hpending']
      cases exec_lockStep hexec with
      | keep _ h _ hn => rw [hn, h]; omega
      | lock _ ha _ _ h _ hn =>
        rw [ha] at hpending
        rw [h, hn]
        simpa using hpending
      | unlock _ ha _ h hn =>
        rw [ha] at hpending
        rw [hn, h]
        simpa using hpending
      | lockPending hfree =>
        rw [hfree] at hpending
        simp [Action.holdsPendingMu] at hpending ⊢
        omega
      | unlockPending =>
        have hle := Bool.toNat_le c.shared.pendingMu
        simp [Action.holdsPendingMu] at hpending ⊢
        omega

theorem locks (h : Runs cfg c) : Locks c :=
  h.invariant ⟨rfl, rfl⟩ fun _ _ _ hc _ hs => step_locks hc hs

/-- Nobody else holds `mu`. -/
theorem Locks.alone (hc : Locks c) {rest : Multiset Action} (hacts : c.actions = a ::ₘ rest)
    (ha : a.holdsMu = true ∨ c.shared.mu = false) : ∀ b ∈ rest, b.holdsMu = false := by
  have hle := Bool.toNat_le c.shared.mu
  have hmu := hc.mu
  rw [hacts, countP_cons_eq] at hmu
  have hzero : rest.countP (·.holdsMu) = 0 := by
    rcases ha with ha | ha
    · rw [ha, Bool.toNat_true] at hmu
      omega
    · rw [ha, Bool.toNat_false] at hmu
      omega
  intro b hb
  simpa using countP_eq_zero.mp hzero b hb

/-- A holder of `mu` finds it taken. -/
theorem Locks.mu_of_mem (hc : Locks c) (hmem : a ∈ c.actions) (ha : a.holdsMu = true) :
    c.shared.mu = true := by
  have hpos : 0 < c.actions.countP (·.holdsMu) := countP_pos.mpr ⟨a, hmem, ha⟩
  rw [hc.mu] at hpos
  cases hmu : c.shared.mu
  · rw [hmu] at hpos
    cases hpos
  · rfl

/-- Who is about to drain finds `pendingMu` free. -/
theorem Locks.pendingMu_of_drainLock (hc : Locks c) (hmem : .link .drainLock ∈ c.actions) :
    c.shared.pendingMu = false := by
  obtain ⟨rest, hacts⟩ := exists_cons_of_mem hmem
  have halone := hc.alone hacts (.inl rfl)
  have hzero : c.actions.countP (·.holdsPendingMu) = 0 := by
    refine countP_eq_zero.mpr fun b hb hdrain => ?_
    rw [hacts] at hb
    rcases mem_cons.mp hb with rfl | hb
    · cases hdrain
    · -- only the drain holds `pendingMu`, and it holds `mu`, too
      have hmu := halone b hb
      unfold Action.holdsPendingMu at hdrain
      split at hdrain
      · cases hmu
      · cases hdrain
  have hnone := hc.pendingMu
  rw [hzero] at hnone
  cases hp : c.shared.pendingMu
  · rfl
  · rw [hp] at hnone
    cases hnone

/-! ## What stands still -/

theorem isDone_modifySession (s : State) (x : ℕ) {f : Session → Session}
    (hf : ∀ y, (f y).done = y.done) (d : ℕ) : (s.modifySession x f).isDone d = s.isDone d := by
  simp only [isDone, modifySession, List.getElem?_modify]
  cases s.sessions[d]? with
  | none => rfl
  | some y => by_cases hx : x = d <;> simp [hx, hf]

/-- What is written under `mu` is as it was. -/
structure SameLink (s s' : State) : Prop where
  bound : s'.bound = s.bound
  done : s'.done = s.done
  deliverQ : s'.deliverQ = s.deliverQ
  isDone : ∀ d, s'.isDone d = s.isDone d
  length : s'.sessions.length = s.sessions.length

theorem SameLink.refl (s : State) : SameLink s s := ⟨rfl, rfl, rfl, fun _ => rfl, rfl⟩

theorem sameLink_modifySession (s : State) (x : ℕ) {f : Session → Session}
    (hf : ∀ y, (f y).done = y.done) : SameLink s (s.modifySession x f) :=
  ⟨rfl, rfl, rfl, isDone_modifySession s x hf, List.length_modify _ _ _⟩

theorem sameLink_closeConn (s : State) : SameLink s s.closeConn := by
  unfold closeConn
  split
  · exact sameLink_modifySession s _ fun _ => rfl
  · exact .refl s

/-- **Who does not hold `mu` leaves the link alone**, unless it takes `mu`
now. -/
theorem exec_without_mu (ha : a.holdsMu = false) (hmu : s.mu = true ∨ ∀ l, a ≠ .link l)
    (h : exec cfg s i a = some r) : SameLink s r.state := by
  cases a with
  | go =>
    obtain ⟨l, -, rfl⟩ := exec_go h
    exact ⟨rfl, rfl, rfl, fun _ => rfl, rfl⟩
  | call a =>
    cases execCall_callStep h with
    | bound | hangUp => cases ha
    | _ => exact ⟨rfl, rfl, rfl, fun _ => rfl, rfl⟩
  | link a =>
    have hmu' : s.mu = true := hmu.resolve_right fun hno => hno _ rfl
    cases execLink_linkStep h with
    | refused | closeIdle | disconnectIdle => exact .refl s
    | connect hfree | close hfree | disconnect hfree => cases hmu'.symm.trans hfree
    | _ => cases ha
  | read a => exact (by cases execRead_readStep h <;> exact ⟨rfl, rfl, rfl, fun _ => rfl, rfl⟩)
  | deliver a =>
    cases execDeliver_deliverStep h with
    | queued | blockedQueued | takes => exact sameLink_modifySession s _ fun _ => rfl
    | _ => exact ⟨rfl, rfl, rfl, fun _ => rfl, rfl⟩
  | keep a => cases execKeep_keepStep h <;> exact ⟨rfl, rfl, rfl, fun _ => rfl, rfl⟩

/-! ## In the middle of `Connect`, `Close` and `handleDisconnect` -/

/-- The field `deliverQ` points to a queue, the `done` channel `NewClient`
made is never closed, and that of a bound client is open. -/
structure Sound (s : State) : Prop where
  deliverQ : s.deliverQ < s.sessions.length
  first : s.isDone 0 = false
  bound : s.bound = true → s.isDone s.done = false ∧ 0 < s.done

/-- Session `x` was dialled and is open. -/
structure Dialled (sessions : List Session) (x : ℕ) : Prop where
  isDone : (sessions[x]?).any (·.done) = false
  pos : 0 < x
  lt : x < sessions.length

/-- What `Connect` finds once it has set the field `done`. -/
def Caller.Finds (s : State) : Caller → Prop
  | .connect x => s.bound = false ∧ Dialled s.sessions x ∧ s.done = x
  | .request _ => True

/-- What a goroutine finds when it comes to an action. -/
def CallAction.Finds (s : State) : CallAction → Prop
  | .begin _ => True
  | .nextSeq who | .registerPending who _ | .writePDU who _ _ | .await who _ _ => who.Finds s
  | .unregisterPending who _ _ => who.isConnect = true → s.bound = false
  | .hangUp _ _ => s.bound = false

@[inherit_doc CallAction.Finds]
def LinkAction.Finds (s : State) : LinkAction → Prop
  | .connect | .close | .handleDisconnect => True
  | .dial | .drainLock | .drain | .closeConn => s.bound = false
  | .writeUnbind _ | .closeDone => s.bound = true
  | .setConn x | .setDone x => s.bound = false ∧ Dialled s.sessions x
  | .setDeliverQ x | .startDeliverLoop x | .startReadLoop x => (Caller.connect x).Finds s

@[inherit_doc CallAction.Finds]
def Action.Finds (s : State) : Action → Prop
  | .call a => a.Finds s
  | .link a => a.Finds s
  | _ => True

/-- The link is sound, and every goroutine finds what it left. -/
structure Linked (c : ClientConf) : Prop where
  sound : Sound c.shared
  finds : ∀ a ∈ c.actions, a.Finds c.shared

/-- Who does not hold `mu` relies on nothing. -/
theorem finds_of_not_holdsMu (ha : a.holdsMu = false) : a.Finds s := by
  cases a with
  | link a => cases a <;> trivial
  | call a =>
    cases a with
    | begin q => trivial
    | nextSeq who | registerPending who | writePDU who | await who | unregisterPending who =>
      cases who with
      | connect x => cases ha
      | request q => first | trivial | exact fun h => by cases h
    | hangUp x outcome => cases ha
  | go | read a | deliver a | keep a => trivial

theorem SameLink.dialled (h : SameLink s s') {x : ℕ} (hx : Dialled s.sessions x) :
    Dialled s'.sessions x :=
  ⟨(h.isDone x).trans hx.isDone, hx.pos, h.length ▸ hx.lt⟩

theorem SameLink.finds (h : SameLink s s') (ha : a.Finds s) : a.Finds s' := by
  have hcaller : ∀ who : Caller, who.Finds s → who.Finds s' := by
    intro who hwho
    cases who with
    | connect x =>
      obtain ⟨hbound, hdialled, hdone⟩ := hwho
      exact ⟨h.bound.trans hbound, h.dialled hdialled, h.done.trans hdone⟩
    | request q => trivial
  cases a with
  | link a =>
    cases a with
    | setDeliverQ x | startDeliverLoop x | startReadLoop x => exact hcaller (.connect x) ha
    | connect | close | handleDisconnect => trivial
    | setConn x | setDone x => exact ⟨h.bound.trans ha.1, h.dialled ha.2⟩
    | _ => exact h.bound.trans ha
  | call a =>
    cases a with
    | begin q => trivial
    | nextSeq who | registerPending who | writePDU who | await who => exact hcaller who ha
    | unregisterPending | hangUp =>
      simpa only [Action.Finds, CallAction.Finds, h.bound] using ha
  | go | read a | deliver a | keep a => trivial

theorem SameLink.sound (h : SameLink s s') (hs : Sound s) : Sound s' where
  deliverQ := by
    rw [h.deliverQ, h.length]
    exact hs.deliverQ
  first := (h.isDone 0).trans hs.first
  bound := fun hb => by
    rw [h.done, h.isDone]
    exact hs.bound (h.bound ▸ hb)

/-- A client that is not bound owes nothing but its sessions. -/
theorem Sound.unbound (hs : Sound s) (hsessions : s'.sessions = s.sessions)
    (hq : s'.deliverQ < s.sessions.length) (hb : s'.bound = false) : Sound s' where
  deliverQ := hsessions ▸ hq
  first := by
    rw [isDone, hsessions]
    exact hs.first
  bound := fun h => by
    rw [hb] at h
    cases h

theorem isDone_closeDone_zero (hs : Sound s) (hb : s.bound = true) :
    s.closeDone.isDone 0 = false := by
  have hne : s.done ≠ 0 := (hs.bound hb).2.ne'
  have hfirst := hs.first
  simp only [isDone] at hfirst
  simp only [isDone, closeDone, modifySession, List.getElem?_modify, if_neg hne]
  simpa using hfirst

/-- The `done` channel of a bound client is closed, and it is not bound any
more. -/
theorem Sound.closed (hs : Sound s) (hb : s.bound = true)
    (hsessions : s'.sessions = s.closeDone.sessions) (hq : s'.deliverQ = s.deliverQ)
    (hb' : s'.bound = false) : Sound s' where
  deliverQ := by
    have hlen : s.closeDone.sessions.length = s.sessions.length := List.length_modify _ _ _
    rw [hsessions, hlen, hq]
    exact hs.deliverQ
  first := by
    rw [isDone, hsessions]
    exact isDone_closeDone_zero hs hb
  bound := fun h => by
    rw [hb'] at h
    cases h

/-- The session that was just dialled is open. -/
theorem dialled_dial (hs : Sound s) :
    Dialled (s.sessions ++ [({} : Session)]) s.sessions.length where
  isDone := by simp
  pos := Nat.zero_lt_of_lt hs.deliverQ
  lt := by simp

theorem sound_dial (hs : Sound s) (hb : s.bound = false) :
    Sound { s with sessions := s.sessions ++ [{}] } where
  deliverQ := by
    have := hs.deliverQ
    simp only [List.length_append, List.length_singleton]
    omega
  first := by
    have hfirst := hs.first
    simp only [isDone] at hfirst ⊢
    rwa [List.getElem?_append_left (Nat.zero_lt_of_lt hs.deliverQ)]
  bound := fun h => by
    rw [hb] at h
    cases h

/-- What a step leaves behind. -/
structure Leaves (r : ClientEffect) : Prop where
  next : ∀ b ∈ r.next, b.Finds r.state
  sound : Sound r.state

theorem leaves_one {b : Action} {seen : List Obs} (hb : b.Finds s') (hs : Sound s') :
    Leaves { state := s', next := [b], seen } :=
  ⟨fun _ hmem => List.mem_singleton.mp hmem ▸ hb, hs⟩

theorem leaves_nil {seen : List Obs} (hs : Sound s') : Leaves { state := s', next := [], seen } :=
  ⟨fun _ hb => absurd hb List.not_mem_nil, hs⟩

theorem execLink_leaves {a : LinkAction} (hf : (Action.link a).Finds s) (hs : Sound s)
    (h : execLink cfg s i a = some r) : Leaves r := by
  cases execLink_linkStep h with
  | refused | closeIdle | disconnectIdle => exact leaves_nil hs
  | connect hfree hbound => exact leaves_one hbound (hs.unbound rfl hs.deliverQ hbound)
  | dialled => exact leaves_one ⟨hf, dialled_dial hs⟩ (sound_dial hs hf)
  | dialFailed => exact leaves_nil (hs.unbound rfl hs.deliverQ hf)
  | setConn x => exact leaves_one hf (hs.unbound rfl hs.deliverQ hf.1)
  | setDone x => exact leaves_one ⟨hf.1, hf.2, rfl⟩ (hs.unbound rfl hs.deliverQ hf.1)
  | setDeliverQ x => exact leaves_one hf (hs.unbound rfl hf.2.1.lt hf.1)
  | startDeliverLoop x | startReadLoop x =>
    exact leaves_one hf (hs.unbound rfl hs.deliverQ hf.1)
  | close hfree hbound => exact leaves_one hbound ⟨hs.deliverQ, hs.first, hs.bound⟩
  | writeUnbind seq => exact leaves_one hf hs
  | closeDone => exact leaves_one rfl (hs.closed hf rfl rfl rfl)
  | disconnect hfree hbound => exact leaves_one rfl (hs.closed hbound rfl rfl rfl)
  | drainLock | drained | drain => exact leaves_one hf (hs.unbound rfl hs.deliverQ hf)
  | closeConn =>
    have hsame := sameLink_closeConn s
    have hs' := hsame.sound hs
    exact leaves_nil (hs'.unbound rfl hs'.deliverQ (hsame.bound.trans hf))

theorem execCall_leaves {a : CallAction} (ha : (Action.call a).holdsMu = true)
    (hf : (Action.call a).Finds s) (hs : Sound s) (h : execCall cfg s i a = some r) :
    Leaves r := by
  cases execCall_callStep h with
  | refused | begins | answered | unregisters => cases ha
  | nextSeq who | registers who =>
    cases who with
    | request q => cases ha
    | connect x => exact leaves_one hf (hs.unbound rfl hs.deliverQ hf.1)
  | written who =>
    cases who with
    | request q => cases ha
    | connect x => exact leaves_one hf hs
  | unwritten who =>
    cases who with
    | request q => cases ha
    | connect x => exact leaves_one (fun _ => hf.1) hs
  | timesOut who =>
    cases who with
    | request q => cases ha
    | connect x => exact leaves_one hf.1 hs
  | bound x =>
    -- the bind is accepted: the session is the one that was dialled
    obtain ⟨-, hdialled, hdone⟩ := hf
    exact leaves_nil ⟨hs.deliverQ, hs.first, fun _ => hdone ▸ ⟨hdialled.isDone, hdialled.pos⟩⟩
  | rejected x => exact leaves_one hf.1 (hs.unbound rfl hs.deliverQ hf.1)
  | unbinds x => exact leaves_one (hf rfl) (hs.unbound rfl hs.deliverQ (hf rfl))
  | hangUp x outcome =>
    have hsame : SameLink s (s.hangUp x) := sameLink_modifySession s x fun _ => rfl
    have hs' := hsame.sound hs
    exact leaves_nil (hs'.unbound rfl hs'.deliverQ hf)

/-- A step that does not take `mu` puts no holder in its place. -/
theorem next_not_holdsMu (ha : a.holdsMu = false) (hmu : s.mu = true ∨ ∀ l, a ≠ .link l)
    (h : exec cfg s i a = some r) : ∀ b ∈ r.next, b.holdsMu = false := by
  have hzero : holders r.next = 0 := by
    cases exec_lockStep h with
    | keep _ _ hn => rw [hn, ha]; rfl
    | lock _ _ hfree =>
      rcases hmu with hmu | hno
      · rw [hmu] at hfree
        cases hfree
      · exact absurd rfl (hno _)
    | unlock ha' => rw [ha] at ha'; cases ha'
    | lockPending => cases ha
    | unlockPending => cases ha
  intro b hb
  simpa using List.countP_eq_zero.mp hzero b hb

theorem leaves_of_sameLink (ha : a.holdsMu = false) (hmu : s.mu = true ∨ ∀ l, a ≠ .link l)
    (hs : Sound s) (h : exec cfg s i a = some r) : Leaves r :=
  ⟨fun b hmem => finds_of_not_holdsMu (next_not_holdsMu ha hmu h b hmem),
    (exec_without_mu ha hmu h).sound hs⟩

/-- **Every step leaves what the next one needs.** -/
theorem exec_leaves (hf : a.Finds s) (hs : Sound s) (h : exec cfg s i a = some r) : Leaves r := by
  cases a with
  | link a => exact execLink_leaves hf hs h
  | call a =>
    cases hmu : (Action.call a).holdsMu with
    | true => exact execCall_leaves hmu hf hs h
    | false => exact leaves_of_sameLink hmu (.inr fun _ h => by cases h) hs h
  | go | read a | deliver a | keep a =>
    exact leaves_of_sameLink rfl (.inr fun _ h => by cases h) hs h

theorem step_linked {c' : ClientConf} {e : Event Input Action} (hl : Locks c) (hc : Linked c)
    (h : (program cfg).step c e = some c') : Linked c' := by
  rcases Program.step_cases h with ⟨a, -, hst⟩ | ⟨j, input, a, r, rest, -, hran⟩
  · refine ⟨hst.shared ▸ hc.sound, fun b hb => ?_⟩
    rw [hst.shared]
    rcases hst.cases hb with rfl | hb
    · exact finds_of_not_holdsMu (entry_holdsMu hst.entry).1
    · exact hc.finds b hb
  · have hleaves := exec_leaves (hc.finds a hran.mem) hc.sound hran.exec
    refine ⟨hran.shared ▸ hleaves.sound, fun b hb => ?_⟩
    rw [hran.shared]
    rcases hran.cases hb with hb | hb
    · exact hleaves.next b hb
    · -- either the step holds `mu` and nobody else does, or it leaves the link alone
      by_cases halone : a.holdsMu = true ∨ c.shared.mu = false
      · exact finds_of_not_holdsMu (hl.alone hran.before halone b hb)
      · have hnot : a.holdsMu = false := by simpa using mt .inl halone
        have hmu : c.shared.mu = true := by simpa using mt .inr halone
        have hsame := exec_without_mu hnot (.inl hmu) hran.exec
        exact hsame.finds (hc.finds b (hran.pending hb))

theorem linked (h : Runs cfg c) : Linked c := by
  have hboth : Locks c ∧ Linked c := by
    refine h.invariant (I := fun c => Locks c ∧ Linked c) ?_ ?_
    · refine ⟨⟨rfl, rfl⟩, ⟨⟨Nat.one_pos, rfl, (fun hbound => nomatch hbound)⟩, ?_⟩⟩
      simp [ClientConf.start, Conf.actions]
    · intro c e c' hc _ hs
      exact ⟨step_locks hc.1 hs, step_linked hc.1 hc.2 hs⟩
  exact hboth.2

end Client

end SmscGateway
