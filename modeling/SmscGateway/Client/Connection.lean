import SmscGateway.Client.Locks

/-!
# One open connection

`Connect` dials only when the client is not bound, and hangs up before it gives
`mu` back if the bind does not succeed; `Close` and `handleDisconnect` close the
connection of the field before they do. So at most one TCP connection is open at
any time, that of the field `conn` or the one that was just dialled (`Tidy`),
and a bound client is at its latest session.
-/

namespace SmscGateway

open List

namespace Client

open Smpp

variable {cfg : Config} {s s' : State} {i : Input} {r : ClientEffect} {a : Action}

/-- The field points to session `x`, and that is the latest one. -/
def Latest (s : State) (x : ℕ) : Prop := s.conn = some x ∧ s.sessions.length = x + 1

/-- The connection a read waits on. -/
def Action.waitsOn : Action → Option ℕ
  | .read (.readHeader x) | .read (.readBody _ x _) => some x
  | _ => none

/-! ## What a goroutine finds -/

def Caller.Meets (s : State) : Caller → Prop
  | .connect x => Latest s x
  | .request _ => True

/-- What a goroutine finds of the connections when it comes to an action. -/
def CallAction.Meets (s : State) : CallAction → Prop
  | .begin _ => True
  | .nextSeq who | .registerPending who _ | .writePDU who _ _ | .await who _ _
  | .unregisterPending who _ _ => who.Meets s
  | .hangUp x _ => Latest s x

@[inherit_doc CallAction.Meets]
def LinkAction.Meets (s : State) : LinkAction → Prop
  | .connect | .close | .handleDisconnect => True
  | .dial => s.connOpen = false
  | .setConn x => s.connOpen = false ∧ s.sessions.length = x + 1 ∧ 0 < x ∧ ∀ y ∈ s.conn, y < x
  | .setDone x | .setDeliverQ x | .startDeliverLoop x | .startReadLoop x => Latest s x
  | .writeUnbind _ | .closeDone | .drainLock | .drain | .closeConn => ∃ x, Latest s x

@[inherit_doc CallAction.Meets]
def Action.Meets (s : State) : Action → Prop
  | .call a => a.Meets s
  | .link a => a.Meets s
  -- a read waits on a connection the field pointed to
  | .read a => ∀ x ∈ (Action.read a).waitsOn, 0 < x ∧ ∃ y ∈ s.conn, x ≤ y
  | _ => True

/-- The connections between two steps. -/
structure Orderly (s : State) : Prop where
  range : ∀ y ∈ s.conn, 0 < y ∧ y < s.sessions.length
  bound : s.bound = true → ∃ x, Latest s x
  idle : s.mu = false → s.bound = false → s.connOpen = false

/-- **One open connection.** -/
structure Tidy (c : ClientConf) : Prop where
  orderly : Orderly c.shared
  opened : ∀ x, 0 < x → c.shared.isOpen x = true →
    c.shared.conn = some x ∨ .link (.setConn x) ∈ c.actions
  meets : ∀ a ∈ c.actions, a.Meets c.shared

/-- What a step does to the connections. -/
structure Tidies (s : State) (a : Action) (r : ClientEffect) : Prop where
  orderly : Orderly r.state
  next : ∀ b ∈ r.next, b.Meets r.state
  conn : r.state.conn = s.conn ∨ ∃ x, a = .link (.setConn x) ∧ r.state.conn = some x
  opened : ∀ x, 0 < x → r.state.isOpen x = true →
    s.isOpen x = true ∨ .link (.setConn x) ∈ r.next

/-! ## Steps that leave the connections alone -/

/-- The connections are as they were. -/
structure SameConn (s s' : State) : Prop where
  conn : s'.conn = s.conn
  isOpen : ∀ x, s'.isOpen x = s.isOpen x
  length : s'.sessions.length = s.sessions.length

theorem sameConn_of_eq (hconn : s'.conn = s.conn) (hsessions : s'.sessions = s.sessions) :
    SameConn s s' :=
  ⟨hconn, fun x => by rw [State.isOpen, State.isOpen, hsessions], by rw [hsessions]⟩

theorem isOpen_modifySession (s : State) (x : ℕ) {f : Session → Session}
    (hf : ∀ y, (f y).connClosed = y.connClosed) (y : ℕ) :
    (s.modifySession x f).isOpen y = s.isOpen y := by
  simp only [State.isOpen, State.modifySession, getElem?_modify]
  cases s.sessions[y]? with
  | none => rfl
  | some z => by_cases hx : x = y <;> simp [hx, hf]

theorem sameConn_modifySession (s : State) (x : ℕ) {f : Session → Session}
    (hf : ∀ y, (f y).connClosed = y.connClosed) : SameConn s (s.modifySession x f) :=
  ⟨rfl, isOpen_modifySession s x hf, length_modify _ _ _⟩

namespace SameConn

theorem connOpen (h : SameConn s s') : s'.connOpen = s.connOpen := by
  have hopen : s'.isOpen = s.isOpen := funext h.isOpen
  rw [State.connOpen, State.connOpen, h.conn, hopen]

theorem latest (h : SameConn s s') {x : ℕ} (hx : Latest s x) : Latest s' x :=
  ⟨h.conn.trans hx.1, h.length.trans hx.2⟩

theorem orderly (h : SameConn s s') (hs : Orderly s) (hbound : s'.bound = true → s.bound = true)
    (hidle : s'.mu = false → s'.bound = false → s.connOpen = false) : Orderly s' where
  range := by
    rw [h.conn, h.length]
    exact hs.range
  bound := fun hb => by
    obtain ⟨x, hx⟩ := hs.bound (hbound hb)
    exact ⟨x, h.latest hx⟩
  idle := fun hmu hb => h.connOpen.trans (hidle hmu hb)

theorem meets (h : SameConn s s') (ha : a.Meets s) : a.Meets s' := by
  have hcaller : ∀ who : Caller, who.Meets s → who.Meets s' := by
    intro who hwho
    cases who with
    | connect x => exact h.latest hwho
    | request q => trivial
  cases a with
  | link a =>
    cases a with
    | connect | close | handleDisconnect => trivial
    | dial => exact h.connOpen.trans ha
    | setConn x =>
      obtain ⟨hopen, hlen, hpos, hlt⟩ := ha
      exact ⟨h.connOpen.trans hopen, h.length.trans hlen, hpos, h.conn ▸ hlt⟩
    | setDone x | setDeliverQ x | startDeliverLoop x | startReadLoop x => exact h.latest ha
    | writeUnbind | closeDone | drainLock | drain | closeConn =>
      obtain ⟨x, hx⟩ := ha
      exact ⟨x, h.latest hx⟩
  | call a =>
    cases a with
    | begin q => trivial
    | nextSeq who | registerPending who | writePDU who | await who | unregisterPending who =>
      exact hcaller who ha
    | hangUp x outcome => exact h.latest ha
  | read a =>
    simp only [Action.Meets, h.conn] at ha ⊢
    exact ha
  | go | deliver a | keep a => trivial

theorem tidies (h : SameConn s r.state) (ho : Orderly r.state) (hnext : ∀ b ∈ r.next, b.Meets s) :
    Tidies s a r :=
  ⟨ho, fun b hb => h.meets (hnext b hb), .inl h.conn, fun x _ hx => .inl (h.isOpen x ▸ hx)⟩

end SameConn

theorem sameConn_closeDone (s : State) : SameConn s s.closeDone :=
  sameConn_modifySession s s.done (f := fun x => { x with done := true }) fun _ => rfl

variable {seen : List Obs} {x : ℕ}

/-- A step that leaves the connections alone. -/
theorem tidies_of_same {next : List Action} (hs : Orderly s) (hsame : SameConn s s')
    (hbound : s'.bound = true → s.bound = true)
    (hidle : s'.mu = false → s'.bound = false → s.connOpen = false)
    (hnext : ∀ b ∈ next, b.Meets s) :
    Tidies s a { state := s', next, seen } :=
  hsame.tidies (hsame.orderly hs hbound hidle) hnext

theorem tidies_rest {next : List Action} (hs : Orderly s) (hnext : ∀ b ∈ next, b.Meets s) :
    Tidies s a { state := s, next, seen } :=
  ⟨hs, hnext, .inl rfl, fun _ _ hx => .inl hx⟩

/-- Only `Connect` on its way out closes a connection in a call. -/
theorem execCall_sameConn {a : CallAction} (ha : ∀ x outcome, a ≠ .hangUp x outcome)
    (h : execCall cfg s i a = some r) : SameConn s r.state := by
  cases execCall_callStep h with
  | hangUp x outcome => exact absurd rfl (ha x outcome)
  | _ => exact sameConn_of_eq rfl rfl

/-- **Who does not hold `mu` leaves the connections alone**, unless it takes
`mu` now. -/
theorem exec_sameConn (ha : a.holdsMu = false) (hmu : s.mu = true ∨ ∀ l, a ≠ .link l)
    (h : exec cfg s i a = some r) : SameConn s r.state := by
  cases a with
  | go =>
    obtain ⟨l, -, rfl⟩ := exec_go h
    exact sameConn_of_eq rfl rfl
  | call a => exact execCall_sameConn (fun x outcome hx => by rw [hx] at ha; cases ha) h
  | link a =>
    have hmu' : s.mu = true := hmu.resolve_right fun hno => hno _ rfl
    cases execLink_linkStep h with
    | refused | closeIdle | disconnectIdle => exact sameConn_of_eq rfl rfl
    | connect hfree | close hfree | disconnect hfree => cases hmu'.symm.trans hfree
    | _ => cases ha
  | read a => cases execRead_readStep h <;> exact sameConn_of_eq rfl rfl
  | deliver a =>
    cases execDeliver_deliverStep h with
    | queued | blockedQueued | takes => exact sameConn_modifySession s _ fun _ => rfl
    | _ => exact sameConn_of_eq rfl rfl
  | keep a => cases execKeep_keepStep h <;> exact sameConn_of_eq rfl rfl

/-- A read waits on the connection that it found in the field. -/
theorem exec_waitsOn (h : exec cfg s i a = some r) :
    ∀ b ∈ r.next, ∀ x ∈ b.waitsOn, s.conn = some x := by
  intro b hb x hx
  cases b with
  | read b =>
    rcases read_of_next h hb with ⟨-, rfl⟩ | ⟨a, rfl, hstep⟩
    · cases hx
    · cases hstep with
      | readPDU y hconn =>
        obtain rfl := Action.read.inj (mem_singleton.mp hb)
        exact hconn.trans hx
      | readRest z y hd hconn =>
        obtain rfl := Action.read.inj (mem_singleton.mp hb)
        exact hconn.trans hx
      | _ =>
        simp only [mem_cons, not_mem_nil, or_false, reduceCtorEq, false_or,
          Action.read.injEq] at hb <;> (rcases hb with rfl | rfl <;> cases hx)
  | _ => cases hx

/-- Who does not hold `mu` relies on nothing but the connection it waits on. -/
theorem meets_of_not_holdsMu (ha : a.holdsMu = false)
    (hwaits : ∀ x ∈ a.waitsOn, 0 < x ∧ ∃ y ∈ s.conn, x ≤ y) : a.Meets s := by
  cases a with
  | link a => cases a <;> trivial
  | call a =>
    cases a with
    | begin q => trivial
    | nextSeq who | registerPending who | writePDU who | await who | unregisterPending who =>
      cases who with
      | connect x => cases ha
      | request q => trivial
    | hangUp x outcome => cases ha
  | read a => exact hwaits
  | go | deliver a | keep a => trivial

theorem Action.Meets.waitsOn (ha : a.Meets s) :
    ∀ x ∈ a.waitsOn, 0 < x ∧ ∃ y ∈ s.conn, x ≤ y := by
  cases a with
  | read a => exact ha
  | _ => intro x hx; cases hx

/-- A step that does not take `mu`. -/
theorem tidies_of_not_holdsMu (ha : a.holdsMu = false) (hmu : s.mu = true ∨ ∀ l, a ≠ .link l)
    (hs : Orderly s) (h : exec cfg s i a = some r) : Tidies s a r := by
  have hbound : r.state.bound = s.bound := (exec_without_mu ha hmu h).bound
  have hmu' : r.state.mu = s.mu := by
    cases exec_lockStep h with
    | keep h => exact h
    | lock _ _ hfree =>
      rcases hmu with hmu | hno
      · rw [hmu] at hfree
        cases hfree
      · exact absurd rfl (hno _)
    | unlock ha' => rw [ha] at ha'; cases ha'
    | lockPending => rfl
    | unlockPending => rfl
  have hsame := exec_sameConn ha hmu h
  refine hsame.tidies (hsame.orderly hs (hbound ▸ id) ?_) fun b hb => ?_
  · rw [hmu', hbound]
    exact hs.idle
  · refine meets_of_not_holdsMu (next_not_holdsMu ha hmu h b hb) fun x hx => ?_
    have hconn := exec_waitsOn h b hb x hx
    exact ⟨(hs.range x hconn).1, x, hconn, le_rfl⟩

/-! ## Dialling and hanging up -/

/-- A connection that was hung up is not open, and no other was opened. -/
theorem isOpen_hangUp (s : State) (x y : ℕ) :
    (s.hangUp x).isOpen y = true ↔ y ≠ x ∧ s.isOpen y = true := by
  simp only [State.hangUp, State.isOpen, State.modifySession, getElem?_modify]
  cases s.sessions[y]? with
  | none => simp
  | some z =>
    by_cases hx : x = y
    · simp [hx]
    · simp [hx, Ne.symm hx]

theorem connOpen_hangUp (hx : s.conn = some x) : (s.hangUp x).connOpen = false := by
  have hconn : (s.hangUp x).conn = some x := hx
  rw [State.connOpen, hconn, Option.any_some]
  cases hopen : (s.hangUp x).isOpen x with
  | false => rfl
  | true => exact absurd rfl ((isOpen_hangUp s x x).mp hopen).1

/-- `mu` is given back once the connection of the field is closed. -/
theorem tidies_hangUp (hs : Orderly s) (hx : s.conn = some x) (hbound : s.bound = false) :
    Tidies s a { state := { s.hangUp x with mu := false }, seen } := by
  refine ⟨⟨?_, fun hb => ?_, fun _ _ => ?_⟩, by simp, .inl rfl, fun y _ hy => .inl ?_⟩
  · have hlen : (s.hangUp x).sessions.length = s.sessions.length := length_modify _ _ _
    intro y hy
    have hrange := hs.range y hy
    rw [← hlen] at hrange
    exact hrange
  · exact absurd hb (Bool.eq_false_iff.mp hbound)
  · exact connOpen_hangUp hx
  · exact ((isOpen_hangUp s x y).mp hy).2

theorem isOpen_dial (h : State.isOpen { s with sessions := s.sessions ++ [{}] } x = true) :
    s.isOpen x = true ∨ x = s.sessions.length := by
  simp only [State.isOpen, getElem?_append] at h ⊢
  split at h
  · exact .inl h
  · rename_i hlt
    right
    by_contra hne
    rw [getElem?_eq_none (by simp; omega)] at h
    cases h

theorem connOpen_dial (hs : Orderly s) (h : s.connOpen = false) :
    State.connOpen { s with sessions := s.sessions ++ [{}] } = false := by
  simp only [State.connOpen] at h ⊢
  cases hconn : s.conn with
  | none => rfl
  | some y =>
    rw [hconn] at h
    have hlt := (hs.range y hconn).2
    simpa [State.isOpen, getElem?_append_left hlt] using h

/-- The steps of `Connect`, `Close` and `handleDisconnect`. -/
theorem execLink_tidies {a : LinkAction} (hs : Orderly s) (hf : (Action.link a).Finds s)
    (ha : (Action.link a).Meets s) (hlen : 0 < s.sessions.length)
    (hmu : (Action.link a).holdsMu = true → s.mu = true)
    (h : execLink cfg s i a = some r) : Tidies s (.link a) r := by
  cases execLink_linkStep h with
  | refused | closeIdle | disconnectIdle => exact tidies_rest hs (by simp)
  | connect hfree hbound =>
    have hidle := hs.idle hfree hbound
    refine tidies_of_same hs (sameConn_of_eq rfl rfl) id (fun _ _ => hidle) ?_
    simpa [Action.Meets, LinkAction.Meets] using hidle
  | dialled =>
    have hopen := connOpen_dial hs ha
    refine ⟨⟨fun y hy => ?_, fun hb => ?_, fun _ _ => hopen⟩, ?_, .inl rfl, fun x _ hx => ?_⟩
    · have := hs.range y hy
      simp only [length_append, length_singleton]
      omega
    · exact absurd hb (Bool.eq_false_iff.mp hf)
    · have hnew : ∀ y ∈ s.conn, y < s.sessions.length := fun y hy => (hs.range y hy).2
      simpa [Action.Meets, LinkAction.Meets] using ⟨hopen, hlen, hnew⟩
    · rcases isOpen_dial hx with hx | rfl
      · exact .inl hx
      · exact .inr mem_cons_self
  | dialFailed => exact tidies_of_same hs (sameConn_of_eq rfl rfl) id (fun _ _ => ha) (by simp)
  | setConn x =>
    obtain ⟨hopen, hx, hpos, hlt⟩ := ha
    refine ⟨⟨fun y hy => ?_, fun hb => ?_, fun hfree => ?_⟩, ?_, .inr ⟨x, rfl, rfl⟩,
      fun y _ hy => .inl hy⟩
    · cases hy
      have hlen' : s.sessions.length = x + 1 := hx
      exact ⟨hpos, by dsimp only; omega⟩
    · exact absurd hb (Bool.eq_false_iff.mp hf.1)
    · exact absurd (hmu rfl) (Bool.eq_false_iff.mp hfree)
    · simpa [Action.Meets, LinkAction.Meets, Latest] using hx
  | setDone x | setDeliverQ x | startDeliverLoop x | startReadLoop x =>
    refine tidies_of_same hs (sameConn_of_eq rfl rfl) id hs.idle ?_
    simpa [Action.Meets, LinkAction.Meets, CallAction.Meets, Caller.Meets] using ha
  | close hfree hbound =>
    refine tidies_of_same hs (sameConn_of_eq rfl rfl) id (by simp) ?_
    simpa [Action.Meets, LinkAction.Meets] using hs.bound hbound
  | writeUnbind seq =>
    refine tidies_rest hs ?_
    simpa [Action.Meets, LinkAction.Meets] using ha
  | closeDone =>
    have hsame := sameConn_closeDone s
    refine tidies_of_same hs ⟨hsame.conn, hsame.isOpen, hsame.length⟩ (by simp)
      (fun hfree => ?_) ?_
    · exact absurd (hmu rfl) (Bool.eq_false_iff.mp hfree)
    · simpa [Action.Meets, LinkAction.Meets] using ha
  | disconnect hfree hbound =>
    have hsame := sameConn_closeDone s
    refine tidies_of_same hs ⟨hsame.conn, hsame.isOpen, hsame.length⟩ (by simp) (by simp) ?_
    simpa [Action.Meets, LinkAction.Meets] using hs.bound hbound
  | drainLock | drained | drain =>
    refine tidies_of_same hs (sameConn_of_eq rfl rfl) id hs.idle ?_
    simpa [Action.Meets, LinkAction.Meets] using ha
  | closeConn =>
    obtain ⟨x, hx, -⟩ := ha
    have hclose : s.closeConn = s.hangUp x := by rw [State.closeConn, hx]
    rw [hclose]
    exact tidies_hangUp hs hx hf

/-- The bind of `Connect`. -/
theorem execCall_tidies {a : CallAction} (hs : Orderly s) (hf : (Action.call a).Finds s)
    (ha : (Action.call a).Meets s) (hmu : (Action.call a).holdsMu = true)
    (h : execCall cfg s i a = some r) : Tidies s (.call a) r := by
  cases execCall_callStep h with
  | refused | begins | answered | unregisters => cases hmu
  | nextSeq who | registers who =>
    refine tidies_of_same hs (sameConn_of_eq rfl rfl) id hs.idle ?_
    simpa [Action.Meets, CallAction.Meets] using ha
  | written who | unwritten who =>
    refine tidies_rest hs ?_
    simpa [Action.Meets, CallAction.Meets] using ha
  | timesOut who =>
    cases who with
    | request q => cases hmu
    | connect x =>
      refine tidies_rest hs ?_
      simpa [giveUp, Action.Meets, CallAction.Meets, Caller.Meets] using ha
  | bound x =>
    -- the bind is accepted
    exact ⟨⟨hs.range, fun _ => ⟨x, ha⟩, fun _ hb => by cases hb⟩, by simp, .inl rfl,
      fun _ _ hy => .inl hy⟩
  | rejected x | unbinds x =>
    refine tidies_of_same hs (sameConn_of_eq rfl rfl) id hs.idle ?_
    simpa [Action.Meets, CallAction.Meets, Caller.Meets] using ha
  | hangUp x outcome => exact tidies_hangUp hs ha.1 hf

theorem exec_tidies (hs : Orderly s) (hlen : 0 < s.sessions.length) (hf : a.Finds s)
    (ha : a.Meets s) (hheld : a.holdsMu = true → s.mu = true) (h : exec cfg s i a = some r) :
    Tidies s a r := by
  cases a with
  | link a => exact execLink_tidies hs hf ha hlen hheld h
  | call a =>
    cases hmu : (Action.call a).holdsMu with
    | true => exact execCall_tidies hs hf ha hmu h
    | false => exact tidies_of_not_holdsMu hmu (.inr fun _ h => by cases h) hs h
  | go | read a | deliver a | keep a =>
    exact tidies_of_not_holdsMu rfl (.inr fun _ h => by cases h) hs h

/-! ## Runs -/

section Step

variable {c c' : ClientConf} {e : Event Input Action}

theorem entry_waitsOn (h : entry a = true) : a.waitsOn = none := by
  unfold entry at h
  split at h <;> first | rfl | cases h

theorem step_tidy (hlocks : Locks c) (hl : Linked c) (hc : Tidy c)
    (h : (program cfg).step c e = some c') : Tidy c' := by
  rcases Program.step_cases h with ⟨a, -, hst⟩ | ⟨j, input, a, r, rest, -, hran⟩
  · refine ⟨hst.shared ▸ hc.orderly, fun x hpos hx => ?_, fun b hb => ?_⟩ <;> rw [hst.shared] at *
    · exact (hc.opened x hpos hx).imp_right hst.keeps
    · rcases hst.cases hb with rfl | hb
      · refine meets_of_not_holdsMu (entry_holdsMu hst.entry).1 fun x hx => ?_
        rw [entry_waitsOn hst.entry] at hx
        cases hx
      · exact hc.meets b hb
  · have hmem := hran.mem
    have htidies := exec_tidies hc.orderly (Nat.zero_lt_of_lt hl.sound.deliverQ)
      (hl.finds a hmem) (hc.meets a hmem) (hlocks.mu_of_mem hmem) hran.exec
    refine ⟨hran.shared ▸ htidies.orderly, fun x hpos hx => ?_, fun b hb => ?_⟩
    · rw [hran.shared] at hx ⊢
      rcases htidies.opened x hpos hx with hopen | hnew
      · rcases hc.opened x hpos hopen with hconn | hset
        · rcases htidies.conn with hsame | ⟨y, rfl, -⟩
          · exact .inl (hsame.trans hconn)
          · -- `Connect` found the connection of the field closed
            have hclosed : c.shared.connOpen = false := (hc.meets _ hmem).1
            rw [State.connOpen, hconn, Option.any_some, hopen] at hclosed
            cases hclosed
        · by_cases hset' : .link (.setConn x) = a
          · subst hset'
            obtain rfl := Option.some.inj hran.exec
            exact .inl rfl
          · exact .inr (hran.keeps hset hset')
      · exact .inr (hran.next hnew)
    · rw [hran.shared]
      rcases hran.cases hb with hb | hb
      · exact htidies.next b hb
      · -- either the step holds `mu` and nobody else does, or it leaves the connections alone
        by_cases halone : a.holdsMu = true ∨ c.shared.mu = false
        · refine meets_of_not_holdsMu (hlocks.alone hran.before halone b hb) fun x hx => ?_
          obtain ⟨hpos, y, hy, hle⟩ := (hc.meets b (hran.pending hb)).waitsOn x hx
          rcases htidies.conn with hsame | ⟨z, rfl, hz⟩
          · exact ⟨hpos, y, hsame.trans hy, hle⟩
          · have hlt : y < z := (hc.meets _ hmem).2.2.2 y hy
            exact ⟨hpos, z, hz, hle.trans hlt.le⟩
        · have hnot : a.holdsMu = false := by simpa using mt .inl halone
          have hmu : c.shared.mu = true := by simpa using mt .inr halone
          exact (exec_sameConn hnot (.inl hmu) hran.exec).meets (hc.meets b (hran.pending hb))

end Step

theorem tidy {c : ClientConf} (h : Runs cfg c) : Tidy c := by
  induction h with
  | start =>
    refine ⟨⟨fun y hy => ?_, fun hb => ?_, fun _ _ => rfl⟩, fun x hpos hx => ?_, fun a ha => ?_⟩
    · cases hy
    · cases hb
    · have hnone : (ClientConf.start.shared.sessions)[x]? = none :=
        getElem?_eq_none hpos
      rw [State.isOpen, hnone] at hx
      cases hx
    · cases ha
  | step hrun _ hs ih => exact step_tidy (locks hrun) (linked hrun) ih hs

/-- **What is read is read from the connection of the field.** -/
theorem conn_of_open {c : ClientConf} (h : Runs cfg c) {b : Action} (hmem : b ∈ c.actions)
    (hx : x ∈ b.waitsOn) (hopen : c.shared.isOpen x = true) : c.shared.conn = some x := by
  have htidy := tidy h
  obtain ⟨hpos, y, hy, hle⟩ := (htidy.meets b hmem).waitsOn x hx
  rcases htidy.opened x hpos hopen with hconn | hset
  · exact hconn
  · -- a connection that was just dialled has not been in the field yet
    have hlt : y < x := (htidy.meets _ hset).2.2.2 y hy
    omega

end Client

end SmscGateway
