import SmscGateway.Gateway.Frame

/-!
# Sessions

What an action does to the northbound sessions. Closing a session and the end
of its `ReadLoop` are final, and after the end nothing changes its id any
more. A session leaves the table in two ways only: another one binds under its
id, which closes it under the same lock, or it departs: its own handler takes
it off at its end, and closes it a moment later.
-/

namespace SmscGateway

namespace Server

/-- A session that ended under an id. -/
def Departed (s : Server) (connID : Bytes) (p : ℕ) : Prop :=
  ∃ conn ∈ s.heap[p]?, conn.ended = true ∧ conn.id = connID
  deriving Decidable

/-- No session is reopened, and none is bound after its end. -/
def Ages (s s' : Server) : Prop :=
  ∀ (p : ℕ) (conn : Connection), s.heap[p]? = some conn →
    ∃ conn' : Connection, s'.heap[p]? = some conn' ∧
    (conn.closed = true → conn'.closed = true) ∧
    (conn.ended = true → conn'.ended = true ∧ conn'.id = conn.id)

/-- Every id after a step is an old one, a temporary one, or new. -/
def Renames (s s' : Server) (new : Bytes → Prop) : Prop :=
  ∀ (p : ℕ) (conn' : Connection), s'.heap[p]? = some conn' →
    (∃ conn : Connection, s.heap[p]? = some conn ∧ conn'.id = conn.id) ∨
    (∃ n, conn'.id = ascii "pending-" ++ decimal n) ∨ new conn'.id

variable {s s' s'' : Server}

theorem Ages.refl (s : Server) : s.Ages s := fun _ conn h => ⟨conn, h, id, fun he => ⟨he, rfl⟩⟩

theorem Ages.trans (h : s.Ages s') (h' : s'.Ages s'') : s.Ages s'' := by
  intro p conn hp
  obtain ⟨conn', hp', hclosed, hended⟩ := h p conn hp
  obtain ⟨conn'', hp'', hclosed', hended'⟩ := h' p conn' hp'
  refine ⟨conn'', hp'', fun hc => hclosed' (hclosed hc), fun he => ?_⟩
  obtain ⟨he', hid⟩ := hended he
  obtain ⟨he'', hid'⟩ := hended' he'
  exact ⟨he'', hid'.trans hid⟩

variable {p : ℕ} {connID : Bytes} {new : Bytes → Prop}

theorem Ages.isClosed (h : s.Ages s') (hp : s.isClosed p = true) : s'.isClosed p = true := by
  obtain ⟨conn, hconn, hc⟩ := (Option.any_eq_true _ _).mp hp
  obtain ⟨conn', hconn', hclosed, -⟩ := h p conn hconn
  exact (Option.any_eq_true _ _).mpr ⟨conn', hconn', hclosed hc⟩

theorem Ages.departed (h : s.Ages s') (hp : s.Departed connID p) : s'.Departed connID p := by
  obtain ⟨conn, hconn, he, hid⟩ := hp
  obtain ⟨conn', hconn', -, hended⟩ := h p conn hconn
  obtain ⟨he', hid'⟩ := hended he
  exact ⟨conn', hconn', he', hid'.trans hid⟩

theorem Ages.length (h : s.Ages s') (hp : p < s.heap.length) : p < s'.heap.length := by
  obtain ⟨conn', hconn', -⟩ := h p _ (List.getElem?_eq_getElem hp)
  exact (List.getElem?_eq_some_iff.mp hconn').1

theorem ages_modify {f : Connection → Connection}
    (hf : ∀ conn : Connection, s.heap[p]? = some conn → (conn.closed = true → (f conn).closed = true) ∧
      (conn.ended = true → (f conn).ended = true ∧ (f conn).id = conn.id)) :
    s.Ages (s.modify p f) := by
  intro q conn hq
  rw [heap_modify, hq]
  by_cases hpq : p = q
  · subst hpq
    exact ⟨f conn, by simp, hf conn hq⟩
  · exact ⟨conn, by simp [hpq], id, fun he => ⟨he, rfl⟩⟩

theorem ages_close (s : Server) (p : ℕ) : s.Ages (s.close p) :=
  ages_modify fun _ _ => ⟨fun _ => rfl, fun he => ⟨he, rfl⟩⟩

theorem isClosed_close (hp : p < s.heap.length) : (s.close p).isClosed p = true := by
  rw [isClosed, close, heap_modify, List.getElem?_eq_getElem hp]
  simp

theorem Renames.of_same
    (h : ∀ (p : ℕ) (conn' : Connection), s'.heap[p]? = some conn' →
      ∃ conn : Connection, s.heap[p]? = some conn ∧ conn'.id = conn.id) :
    s.Renames s' new := fun p conn' hp => .inl (h p conn' hp)

theorem Renames.trans (h : s.Renames s' new) (h' : s'.Renames s'' new) : s.Renames s'' new := by
  intro p conn'' hp
  rcases h' p conn'' hp with ⟨conn', hp', hid⟩ | hnew
  · rw [hid]
    exact h p conn' hp'
  · exact .inr hnew

theorem renames_modify {f : Connection → Connection}
    (hf : ∀ conn, (f conn).id = conn.id ∨ new (f conn).id) : s.Renames (s.modify p f) new := by
  intro q conn' hq
  rw [heap_modify] at hq
  obtain ⟨conn, hconn, rfl⟩ := Option.map_eq_some_iff.mp hq
  split
  · rcases hf conn with hid | hnew
    · exact .inl ⟨conn, hconn, hid⟩
    · exact .inr (.inr hnew)
  · exact .inl ⟨conn, hconn, rfl⟩

/-! ## Binds -/

theorem accept_ages (s : Server) : s.Ages s.accept := fun p conn hp => by
  refine ⟨conn, ?_, id, fun he => ⟨he, rfl⟩⟩
  rw [accept, List.getElem?_append_left (List.getElem?_eq_some_iff.mp hp).1]
  exact hp

theorem accept_renames (s : Server) : s.Renames s.accept new := by
  intro p conn' hp
  rw [accept, List.getElem?_append] at hp
  split at hp
  · exact .inl ⟨conn', hp, rfl⟩
  · obtain rfl := List.mem_singleton.mp (List.mem_of_getElem? hp)
    exact .inr (.inl ⟨_, rfl⟩)

theorem onBind_ages (hp : s.isReading p = true) (systemID : Bytes)
    (config : Option ConnectionConfig) : s.Ages (s.onBind p systemID config) := by
  have hbound : s.Ages (s.modify p fun c => { c with systemID, bound := true, config }) :=
    ages_modify fun _ _ => ⟨id, fun he => ⟨he, rfl⟩⟩
  unfold onBind
  dsimp only
  split
  · exact hbound.trans (ages_close _ p)
  · -- only a session that has not ended gets a new id
    have hid : ∀ t : Server, t.isReading p = true →
        t.Ages (t.modify p fun c => { c with id := systemID }) := by
      intro t ht
      refine ages_modify fun conn hconn => ⟨id, fun he => ?_⟩
      rw [isReading, hconn] at ht
      simp [he] at ht
    refine (hbound.trans (hid _ ?_)).trans ?_
    · simp only [isReading, heap_modify, if_true]
      obtain ⟨conn, hconn, he⟩ := (Option.any_eq_true _ _).mp hp
      rw [hconn]
      exact he
    · split
      · exact ages_close _ _
      · exact Ages.refl _

theorem onBind_renames (p : ℕ) (systemID : Bytes) (config : Option ConnectionConfig) :
    s.Renames (s.onBind p systemID config) (· = systemID) := by
  have hbound : s.Renames (s.modify p fun c => { c with systemID, bound := true, config })
      (· = systemID) := renames_modify fun _ => .inl rfl
  have hclose : ∀ (t : Server) (q : ℕ), t.Renames (t.close q) (· = systemID) :=
    fun _ _ => renames_modify fun _ => .inl rfl
  unfold onBind
  dsimp only
  split
  · exact hbound.trans (hclose _ p)
  · have hid : ∀ t : Server, t.Renames (t.modify p fun c => { c with id := systemID })
        (· = systemID) := fun _ => renames_modify fun _ => .inr rfl
    refine (hbound.trans (hid _)).trans ?_
    split
    · exact hclose _ _
    · exact .of_same fun _ conn h => ⟨conn, h, rfl⟩

/-- Whoever binds under the id of a session closes it. -/
theorem onBind_keeps {q : ℕ} (systemID : Bytes) (config : Option ConnectionConfig)
    (hq : q < s.heap.length) (h : s.conns.find? connID = some q) :
    (s.onBind p systemID config).conns.find? connID = some q ∨
      (s.onBind p systemID config).isClosed q = true := by
  unfold onBind
  dsimp only
  split
  · exact .inl h
  · by_cases hid : connID = systemID
    · subst hid
      refine .inr ?_
      simp only [modify, h]
      exact isClosed_close (by simpa using hq)
    · refine .inl ?_
      simp only [modify, SortedMap.find?_insert, hid, if_false]
      split
      · exact h
      · exact h

/-! ## The end of a session -/

theorem disconnect_ages (s : Server) (p : ℕ) (now : Time) : s.Ages (s.disconnect p now) := by
  have hmod : ∀ t : Server, t.Ages (t.modify p fun c => { c with ended := true }) :=
    fun _ => ages_modify fun _ _ => ⟨id, fun _ => ⟨rfl, rfl⟩⟩
  unfold disconnect
  dsimp only
  split
  · exact hmod _
  · exact hmod _

theorem disconnect_renames (s : Server) (p : ℕ) (now : Time) :
    s.Renames (s.disconnect p now) new := by
  unfold disconnect
  dsimp only
  split
  · exact renames_modify fun _ => .inl rfl
  · exact renames_modify fun _ => .inl rfl

/-- A session leaves the table with the id it ends under. -/
theorem disconnect_keeps (s : Server) (p : ℕ) (now : Time) {q : ℕ} (hq : q < s.heap.length)
    (h : s.conns.find? connID = some q) : (s.disconnect p now).conns.find? connID = some q ∨
      (s.disconnect p now).Departed connID q := by
  unfold disconnect
  dsimp only
  split
  · rename_i hreg
    by_cases hid : connID = s.idOf (some p)
    · refine .inr ?_
      obtain rfl : q = p := Option.some.inj (h.symm.trans (hid ▸ hreg.2))
      refine ⟨{ s.heap[q] with ended := true }, ?_, rfl, ?_⟩
      · rw [heap_modify, List.getElem?_eq_getElem hq]
        simp
      · rw [hid]
        simp [idOf, List.getElem?_eq_getElem hq]
    · refine .inl ?_
      simp only [modify, SortedMap.find?_erase, hid, if_false]
      exact h
  · exact .inl h

end Server

/-! ## What an action does to the sessions -/

/-- The effect of an action on the sessions. -/
structure Sessions (s s' : Server) (a : Action) : Prop where
  ages : s.Ages s'
  renames : s.Renames s' fun connID => ∃ p config, a = .serve (.bind p connID config)
  /-- A registered session stays registered, is closed, or departs. -/
  keeps : ∀ connID p, p < s.heap.length → s.conns.find? connID = some p →
    s'.conns.find? connID = some p ∨ s'.isClosed p = true ∨ s'.Departed connID p

section Exec

variable {cfg : RouterConfig} {s : Gateway} {i : Input} {r : GatewayEffect} {a : Action}

theorem Sessions.of_eq {t t' : Server} (h : t' = t) : Sessions t t' a := by
  subst h
  exact ⟨.refl t', .of_same fun _ conn hp => ⟨conn, hp, rfl⟩, fun _ _ _ hc => .inl hc⟩

/-- A submit counts against the engine's rate. -/
theorem acceptSubmit_sessions (connID : Bytes) (seqNum : UInt32) (conn : Option ℕ) (m : Screened) :
    Sessions s.server (acceptSubmit cfg s i connID seqNum conn m).state.server a := by
  cases conn with
  | none => exact .of_eq rfl
  | some p =>
    have hf : ∀ c : Connection,
        (if 0 < effectiveTPS cfg c then c.recordSubmit i.now else c).id = c.id ∧
        (if 0 < effectiveTPS cfg c then c.recordSubmit i.now else c).closed = c.closed ∧
        (if 0 < effectiveTPS cfg c then c.recordSubmit i.now else c).ended = c.ended := by
      intro c
      unfold Connection.recordSubmit
      split
      · split <;> exact ⟨rfl, rfl, rfl⟩
      · exact ⟨rfl, rfl, rfl⟩
    refine ⟨Server.ages_modify fun c _ => ?_, Server.renames_modify fun c => .inl (hf c).1,
      fun _ _ _ h => .inl h⟩
    obtain ⟨hid, hclosed, hended⟩ := hf c
    exact ⟨fun h => hclosed.trans h, fun h => ⟨hended.trans h, hid⟩⟩

theorem enqueueSubmitRetryOrFail_server {now : Time} {g connID d f body : Bytes} {n : ℕ} :
    (enqueueSubmitRetryOrFail cfg s now g connID d f body n).state.server = s.server := by
  unfold enqueueSubmitRetryOrFail
  split
  · rfl
  · unfold sendSyntheticDLR
    split <;> rfl

theorem execReturn_server {a : ReturnAction} (h : execReturn cfg s i a = some r) :
    r.state.server = s.server := by
  have hroute : ∀ (t : Gateway) (n : ℕ) (rc : Receipt) (corr : Correlation),
      (routeReceipt t n rc corr).state.server = t.server := by
    intro t n rc corr
    unfold routeReceipt
    split <;> rfl
  cases hmoves : a.begins with
  | false => exact (execReturn_follows hmoves h).server
  | true =>
    cases execReturn_moves h with
    | found | stored => exact hroute ..
    | unreadable | missed | posted | took | unknown => rfl
    | _ => cases hmoves

theorem execServe_sessions {a : ServerAction} (h : execServe s i a = some r) :
    Sessions s.server r.state.server (.serve a) := by
  cases a with
  | accept =>
    cases h
    exact ⟨s.server.accept_ages, s.server.accept_renames, fun _ _ _ h => .inl h⟩
  | bind p systemID config =>
    simp only [execServe] at h
    obtain ⟨hp, rfl⟩ := eq_of_guard h
    refine ⟨Server.onBind_ages hp _ _, fun q conn' hq => ?_, fun _ _ hq hc => ?_⟩
    · rcases Server.onBind_renames p systemID config q conn' hq with h | h | rfl
      · exact .inl h
      · exact .inr (.inl h)
      · exact .inr (.inr ⟨p, config, rfl⟩)
    · rcases Server.onBind_keeps systemID config hq hc with h | h
      · exact .inl h
      · exact .inr (.inl h)
  | disconnect p =>
    simp only [execServe] at h
    obtain ⟨-, rfl⟩ := eq_of_guard h
    refine ⟨s.server.disconnect_ages p i.now, s.server.disconnect_renames p i.now,
      fun _ _ hq hc => ?_⟩
    rcases s.server.disconnect_keeps p i.now hq hc with h | h
    · exact .inl h
    · exact .inr (.inr h)
  | close p =>
    cases h
    exact ⟨s.server.ages_close p, Server.renames_modify fun _ => .inl rfl,
      fun _ _ _ h => .inl h⟩

/-- **What any action does to the sessions.** -/
theorem exec_sessions (h : exec cfg s i a = some r) : Sessions s.server r.state.server a := by
  cases a with
  | submit a =>
    cases execSubmit_moves h with
    | accepted => exact acceptSubmit_sessions ..
    | overflowed | unsent | unresent => exact .of_eq enqueueSubmitRetryOrFail_server
    | _ => exact .of_eq rfl
  | record a => exact .of_eq (execRecord_frame h).server
  | back a => exact .of_eq (execReturn_server h)
  | serve a => exact execServe_sessions h

end Exec

end SmscGateway
