import SmscGateway.Northbound.Step

/-!
# The table of sessions

Every entry of `conns` should lead to a session that goes by the entry's id,
and none to a session whose handler is gone. Both rest on the id being given
once: `onBind` gives a session that binds again a new id and a second entry,
and the clean-up at its end removes only the entry of the last id. Along runs
in which no session binds under another id than the one it is registered
under, the table is sound in every configuration (`table_is_sound`); one step
that does otherwise breaks it at once (`not_named_of_setID`).
-/

namespace SmscGateway

open SortedMap Option Server

namespace Server

/-! ## The table after each operation -/

theorem conns_register (s : Server) (p : ℕ) (systemID : Bytes) :
    (s.register p systemID).conns = s.conns.insert systemID p := by
  unfold register
  split <;> rfl

theorem disconnects_register (s : Server) (p : ℕ) (systemID : Bytes) :
    (s.register p systemID).disconnects = s.disconnects.erase systemID := by
  unfold register
  split <;> rfl

/-- **What the clean-up of a session does**: at most it moves the entry of its
own id to `disconnects`. -/
theorem disconnect_table (s : Server) (p : ℕ) (now : Time) :
    ((s.disconnect p now).conns = s.conns ∧ (s.disconnect p now).disconnects = s.disconnects ∧
      ¬ (s.isBound p = true ∧ s.conns.find? (s.idOf (some p)) = some p)) ∨
    ((s.disconnect p now).conns = s.conns.erase (s.idOf (some p)) ∧
      (s.disconnect p now).disconnects = s.disconnects.insert (s.idOf (some p)) now ∧
      s.conns.find? (s.idOf (some p)) = some p) := by
  unfold disconnect
  dsimp only
  split
  · rename_i h
    exact .inr ⟨rfl, rfl, h.2⟩
  · rename_i h
    exact .inl ⟨rfl, rfl, h⟩

variable {p : ℕ}

/-- The clean-up removes no entry of another session. -/
theorem find?_disconnect_of_ne {s : Server} {q : ℕ} (now : Time) {connID : Bytes}
    (hfind : s.conns.find? connID = some q) (hne : q ≠ p) :
    (s.disconnect p now).conns.find? connID = some q := by
  rcases disconnect_table s p now with ⟨hconns, -, -⟩ | ⟨hconns, -, hown⟩
  · rw [hconns, hfind]
  · have hid : connID ≠ s.idOf (some p) := by
      rintro rfl
      exact hne (some.inj (hfind.symm.trans hown))
    rw [hconns, find?_erase, if_neg hid, hfind]

/-- What a clean-up leaves in the table was there before. -/
theorem find?_of_disconnect {s : Server} {q : ℕ} {now : Time} {connID : Bytes}
    (h : (s.disconnect p now).conns.find? connID = some q) : s.conns.find? connID = some q := by
  rcases disconnect_table s p now with ⟨hconns, -, -⟩ | ⟨hconns, -, -⟩
  · rw [hconns] at h
    exact h
  · rw [hconns, find?_erase] at h
    split at h
    · cases h
    · exact h

/-! ## Soundness -/

/-- Every entry leads to a bound session of that id whose handler is not done
with it, and no id is both connected and disconnected. -/
structure Sound (s : Server) : Prop where
  named : ∀ connID p, s.conns.find? connID = some p →
    ∃ conn, s.heap[p]? = some conn ∧ conn.id = connID ∧ conn.bound = true ∧ conn.ended = false
  disjoint : ∀ connID, (s.conns.find? connID).isSome → s.disconnects.find? connID = none

variable {s s' : Server}

/-- Nothing happened to the table or to the sessions in it. -/
theorem Sound.of_same (h : s.Sound) (hconns : s'.conns = s.conns)
    (hdis : s'.disconnects = s.disconnects)
    (hsame : ∀ connID p, s.conns.find? connID = some p → s.Same s' p) : s'.Sound := by
  refine ⟨fun connID p hp => ?_, fun connID hsome => ?_⟩
  · rw [hconns] at hp
    obtain ⟨conn, hconn, hid, hbound, hended⟩ := h.named connID p hp
    obtain ⟨conn', hconn', hid', hended', hbound'⟩ := hsame connID p hp conn hconn
    exact ⟨conn', hconn', hid'.trans hid, hbound' hbound, hended'.trans hended⟩
  · rw [hconns] at hsome
    rw [hdis]
    exact h.disjoint connID hsome

/-- A session gets the id it has in the table. -/
theorem Sound.setID (h : s.Sound) {systemID : Bytes}
    (hown : ∀ connID, s.conns.find? connID = some p → connID = systemID) :
    (s.modify p fun c => { c with id := systemID }).Sound := by
  refine ⟨fun connID q hq => ?_, h.disjoint⟩
  obtain ⟨conn, hconn, hid, hbound, hended⟩ := h.named connID q hq
  rw [heap_modify, hconn]
  by_cases hpq : p = q
  · subst hpq
    exact ⟨{ conn with id := systemID }, by simp, (hown connID hq).symm, hbound, hended⟩
  · exact ⟨conn, by simp [hpq], hid, hbound, hended⟩

/-- A session is registered under its id. -/
theorem Sound.register (h : s.Sound) {systemID : Bytes} {conn : Connection}
    (hconn : s.heap[p]? = some conn) (hid : conn.id = systemID) (hbound : conn.bound = true)
    (hended : conn.ended = false) : (s.register p systemID).Sound := by
  refine ⟨fun connID q hq => ?_, fun connID hsome => ?_⟩
  · rw [conns_register, find?_insert] at hq
    -- the entry is the new one, or an old one of another id
    have hold : ∃ conn, s.heap[q]? = some conn ∧ conn.id = connID ∧ conn.bound = true ∧
        conn.ended = false := by
      split at hq
      · rename_i heq
        cases hq
        exact ⟨conn, hconn, hid.trans heq.symm, hbound, hended⟩
      · exact h.named connID q hq
    obtain ⟨old, hget, hoid, hobound, hoended⟩ := hold
    obtain ⟨new, hnew, hnid, hnended, hnbound⟩ := same_register s p systemID q old hget
    exact ⟨new, hnew, hnid.trans hoid, hnbound hobound, hnended.trans hoended⟩
  · rw [conns_register, find?_insert] at hsome
    rw [disconnects_register, find?_erase]
    split
    · rfl
    · rename_i hne
      rw [if_neg hne] at hsome
      exact h.disjoint connID hsome

/-- A sound table has no entry for a session that is cleaned up. -/
theorem Sound.find?_disconnect_ne (h : s.Sound) (p : ℕ) (now : Time) (connID : Bytes) :
    (s.disconnect p now).conns.find? connID ≠ some p := by
  intro hfind
  have hfind' := find?_of_disconnect hfind
  obtain ⟨conn, hconn, hid, hbound, -⟩ := h.named connID p hfind'
  have hidOf : s.idOf (some p) = connID := by simp [idOf, hconn, hid]
  have hisBound : s.isBound p = true := by simp [isBound, hconn, hbound]
  rcases disconnect_table s p now with ⟨-, -, hnot⟩ | ⟨hconns, -, -⟩
  · exact hnot ⟨hisBound, hidOf ▸ hfind'⟩
  · rw [hconns, hidOf, find?_erase, if_pos rfl] at hfind
    cases hfind

/-- A session is cleaned up. -/
theorem Sound.disconnect (h : s.Sound) (p : ℕ) (now : Time) : (s.disconnect p now).Sound := by
  refine ⟨fun connID q hq => ?_, fun connID hsome => ?_⟩
  · have hqp : p ≠ q := by
      rintro rfl
      exact h.find?_disconnect_ne p now connID hq
    obtain ⟨conn, hconn, hid, hbound, hended⟩ := h.named connID q (find?_of_disconnect hq)
    obtain ⟨conn', hconn', hid', hended', hbound'⟩ := same_disconnect_of_ne s now hqp conn hconn
    exact ⟨conn', hconn', hid'.trans hid, hbound' hbound, hended'.trans hended⟩
  · rcases disconnect_table s p now with ⟨hconns, hdis, -⟩ | ⟨hconns, hdis, -⟩
    · rw [hconns] at hsome
      rw [hdis]
      exact h.disjoint connID hsome
    · rw [hconns, find?_erase] at hsome
      rw [hdis, find?_insert]
      split at hsome
      · cases hsome
      · rename_i hne
        rw [if_neg hne]
        exact h.disjoint connID hsome

end Server

namespace Northbound

open Smpp

variable {i : Input} {conn : Connection}

/-- A step leaves the table sound if it renames no registered session and
registers one that is ready. -/
theorem ServerStep.sound {s s' : Server} {a : Action} (h : ServerStep i s a s') (hs : s.Sound)
    (hset : ∀ p systemID, a = .session p (.setID systemID) →
      ∀ connID, s.conns.find? connID = some p → connID = systemID)
    (hreg : ∀ p systemID, a = .session p (.register systemID) →
      ∃ conn, s.heap[p]? = some conn ∧ conn.id = systemID ∧ conn.bound = true ∧
        conn.ended = false) :
    s'.Sound := by
  cases h with
  | same => exact hs
  | touch q hf hbound => exact hs.of_same rfl rfl fun _ p _ => same_modify hf p
  | bind q n pdu connCfg hf => exact hs.of_same rfl rfl fun _ p _ => same_modify hf p
  | accept remoteIP => exact hs.of_same rfl rfl fun _ p _ => same_accept s p
  | setID p systemID => exact hs.setID (hset p systemID rfl)
  | register p systemID =>
    obtain ⟨conn, hconn, hid, hbound, hended⟩ := hreg p systemID rfl
    exact hs.register hconn hid hbound hended
  | cleanUp p => exact hs.disconnect p i.now
  | closeAll =>
    refine ⟨fun connID p hp => ?_, fun connID hsome => ?_⟩
    · cases hp
    · cases hsome

variable {cfg : Config} {s : State} {i : Input} {p : ℕ} {a : SessionAction} {r : SessionEffect}

/-! ## Handlers -/

/-- What the next action of a session's handler relies on. -/
def Ready (conn : Connection) : SessionAction → Prop
  | .close => True
  | .onBind _ | .setID _ => conn.ended = false ∧ conn.bound = true
  | .register systemID => conn.ended = false ∧ conn.bound = true ∧ conn.id = systemID
  | _ => conn.ended = false

/-- Others leave it alone. -/
theorem Ready.of_same {conn' : Connection} {a : SessionAction} (h : Ready conn a)
    (hid : conn'.id = conn.id) (hended : conn'.ended = conn.ended)
    (hbound : conn.bound = true → conn'.bound = true) : Ready conn' a := by
  cases a with
  | close => trivial
  | onBind systemID => exact ⟨hended.trans h.1, hbound h.2⟩
  | setID systemID => exact ⟨hended.trans h.1, hbound h.2⟩
  | register systemID => exact ⟨hended.trans h.1, hbound h.2.1, hid.trans h.2.2⟩
  | _ => exact hended.trans h

theorem dispatch_ready {s : State} {n : ℕ} {pdu : PDU} (h : conn.ended = false) {b : SessionAction}
    (hb : b ∈ (dispatch s p n pdu).next) : Ready conn b := by
  unfold dispatch at hb
  dsimp only at hb
  repeat' split at hb
  all_goals
    cases hb
    exact h

/-- The handler finds what it relies on. -/
theorem execSession_ready (h : execSession cfg s i p a = some r)
    (hconn : s.server.heap[p]? = some conn) (hready : Ready conn a) :
    ∃ conn', r.state.server.heap[p]? = some conn' ∧ ∀ b ∈ r.next, Ready conn' b := by
  have hkeep : ∀ {b : SessionAction}, r.state.server = s.server → r.next = some b → Ready conn b →
      ∃ conn', r.state.server.heap[p]? = some conn' ∧ ∀ b ∈ r.next, Ready conn' b := by
    intro b hserver hnext hb
    refine ⟨conn, hserver ▸ hconn, fun b' hb' => ?_⟩
    rw [hnext] at hb'
    cases hb'
    exact hb
  have hmod : ∀ {b : SessionAction} {f : Connection → Connection},
      r.state.server = s.server.modify p f → r.next = some b → Ready (f conn) b →
      ∃ conn', r.state.server.heap[p]? = some conn' ∧ ∀ b ∈ r.next, Ready conn' b := by
    intro b f hserver hnext hb
    refine ⟨f conn, by rw [hserver, heap_modify, hconn]; simp, fun b' hb' => ?_⟩
    rw [hnext] at hb'
    cases hb'
    exact hb
  cases a with
  | handleConnection => obtain rfl := some.inj h; exact hkeep rfl rfl hready
  | readLoop =>
    cases h
    refine hkeep rfl rfl ?_
    split
    · exact hready
    · exact hready
  | readPDU =>
    simp only [execSession] at h
    split at h
    · cases h
      exact hkeep rfl rfl hready
    · obtain ⟨-, rfl⟩ := eq_of_refusal h
      refine ⟨conn, ?_, fun b hb => dispatch_ready hready hb⟩
      dsimp only
      rw [dispatch_state]
      exact hconn
  | handleBind n pdu => obtain rfl := some.inj h; exact hmod rfl rfl hready
  | authenticate n pdu =>
    simp only [execSession] at h
    split at h
    · cases h
    · split at h <;> obtain rfl := some.inj h <;> exact hkeep rfl rfl hready
  | acceptBind n pdu connCfg => obtain rfl := some.inj h; exact hmod rfl rfl ⟨hready, rfl⟩
  | onBind systemID =>
    simp only [execSession] at h
    split at h
    · cases h
      exact hmod (f := fun c => { c with closed := true }) rfl rfl hready.1
    · cases h
      exact hkeep rfl rfl hready
  | setID systemID => obtain rfl := some.inj h; exact hmod rfl rfl ⟨hready.1, hready.2, rfl⟩
  | register systemID =>
    cases h
    obtain ⟨conn', hconn', -, hended, -⟩ := same_register s.server p systemID p conn hconn
    refine ⟨conn', hconn', fun b hb => ?_⟩
    cases hb
    exact hended.trans hready.1
  | onSubmit n connID seqNum =>
    simp only [execSession] at h
    split at h <;> obtain rfl := some.inj h <;> exact hkeep rfl rfl hready
  | sendSubmitSMResp n conn' seqNum => obtain rfl := some.inj h; exact hkeep rfl rfl hready
  | onDeliverResp connID seqNum status =>
    simp only [execSession] at h
    split at h <;> obtain rfl := some.inj h <;> exact hkeep rfl rfl hready
  | resolveDeliverResp conn' seqNum status =>
    cases h
    exact hkeep (resolveDeliverResp_server _ _ _ _) rfl hready
  | cleanUp =>
    cases h
    refine ⟨{ conn with ended := true }, ?_, fun b hb => ?_⟩
    · dsimp only
      rw [heap_disconnect, heap_modify, hconn]
      simp
    · cases hb
      trivial
  | close =>
    cases h
    refine ⟨{ conn with closed := true }, ?_, fun b hb => by cases hb⟩
    simp [close, heap_modify, hconn]

/-! ## Runs -/

/-- The session and the id of the step that gives a session its id. -/
def Action.setsID : Action → Option (ℕ × Bytes)
  | .session p (.setID systemID) => some (p, systemID)
  | _ => none

/-- A session that is in the table gets no other id than the one it is there
under. -/
def Settled (c : NorthConf) (_ : Input) (a : Action) : Prop :=
  ∀ x ∈ a.setsID, ∀ e ∈ c.shared.server.conns.entries, e.2 = x.1 → e.1 = x.2
  deriving Decidable

/-- The invariant: the table is sound, and every handler is ready for its next
action. -/
structure Tabled (c : NorthConf) : Prop where
  sound : c.shared.server.Sound
  ready : ∀ p a, .session p a ∈ c.actions →
    ∃ conn, c.shared.server.heap[p]? = some conn ∧ Ready conn a

variable {c c' : NorthConf}

theorem Settled.find? {systemID connID : Bytes} (h : Settled c i (.session p (.setID systemID)))
    (hfind : c.shared.server.conns.find? connID = some p) : connID = systemID :=
  h (p, systemID) rfl (connID, p) (mem_entries_iff.mpr hfind) rfl

/-- Every handler is still ready: its own step prepares its next one, and the
steps of others do not touch its session. -/
theorem Tabled.ready_of_exec (h : Tabled c) (hserial : Serial owner sessions c) {j : ℕ}
    {a : Action} {r : NorthEffect} {rest : Multiset Action}
    (hran : (program cfg).Ran c j i a r rest c') {b : SessionAction}
    (hb : .session p b ∈ c'.actions) :
    ∃ conn, c'.shared.server.heap[p]? = some conn ∧ Ready conn b := by
  rw [hran.shared]
  rcases hran.cases hb with hb | hb
  · rcases session_of_next hran.exec hb with
      ⟨a', e, rfl, he, hstate, -, hb'⟩ | ⟨remoteIP, rfl, hserver, rfl, rfl⟩
    · obtain ⟨conn, hconn, hready⟩ := h.ready p a' hran.mem
      obtain ⟨conn', hconn', hall⟩ := execSession_ready he hconn hready
      exact ⟨conn', hstate ▸ hconn', hall b hb'⟩
    · rw [hserver]
      exact ⟨_, List.getElem?_concat_length, rfl⟩
  · -- the handler of another session
    obtain ⟨conn, hconn, hready⟩ := h.ready p b (hran.pending hb)
    have hne : owner a ≠ some p := fun hown => hserial.owner_ne hran.before hown _ hb rfl
    have hsame := (exec_server hran.exec).same_of p (fun _ heq => hne (by rw [heq]; rfl))
      fun heq => hne (by rw [heq]; rfl)
    obtain ⟨conn', hconn', hid, hended, hbound⟩ := hsame conn hconn
    exact ⟨conn', hconn', hready.of_same hid hended hbound⟩

/-- **One step.** -/
theorem step_tabled (h : Tabled c) (hserial : Serial owner sessions c) {e : Event Input Action}
    (hok : Program.When Settled c e) (hs : (program cfg).step c e = some c') : Tabled c' := by
  rcases Program.step_cases hs with ⟨a, -, hst⟩ | ⟨j, input, a, r, rest, rfl, hran⟩
  · refine ⟨hst.shared ▸ h.sound, fun p b hb => ?_⟩
    rw [hst.shared]
    rcases hst.cases hb with rfl | hb
    · cases hst.entry
    · exact h.ready p b hb
  · have hsettled := hok a hran.head
    refine ⟨?_, fun p b => h.ready_of_exec hserial hran⟩
    rw [hran.shared]
    refine (exec_server hran.exec).sound h.sound ?_ ?_
    · rintro p systemID rfl connID hfind
      exact hsettled.find? hfind
    · rintro p systemID rfl
      obtain ⟨conn, hconn, hended, hbound, hid⟩ := h.ready p _ hran.mem
      exact ⟨conn, hconn, hid, hbound, hended⟩

/-- Along every run that meets the condition. -/
theorem reaches_tabled {auth : Auth.Store}
    (h : (program cfg).Reaches (Program.When Settled) (NorthConf.start auth) c) :
    Tabled c ∧ Serial owner sessions c := by
  refine h.invariant (I := fun c => Tabled c ∧ Serial owner sessions c)
    ⟨⟨⟨?_, ?_⟩, ?_⟩, serial_start auth⟩ ?_
  · intro connID p hp
    cases hp
  · intro connID hsome
    cases hsome
  · intro p a ha
    simp [NorthConf.start, Conf.actions] at ha
  · intro c e c' hc hok hs
    exact ⟨step_tabled hc.1 hc.2 hok hs, (handlers cfg).step hs hc.2⟩

/-- **The table of sessions**, as its users rely on it. -/
structure TableInvariant (cfg : Config) (c : NorthConf) : Prop where
  /-- An entry leads to a session that goes by its id. -/
  named : ∀ connID p, c.shared.server.conns.find? connID = some p →
    ∃ conn, c.shared.server.heap[p]? = some conn ∧ conn.id = connID
  /-- No entry leads to a session that was cleaned up. -/
  gone : ∀ p conn, c.shared.server.heap[p]? = some conn → conn.ended = true →
    ∀ connID, c.shared.server.conns.find? connID ≠ some p
  /-- A clean-up removes no entry of another session. -/
  kept : ∀ i input c' p, c.head i = some (.session p .cleanUp) →
    (program cfg).step c (.run i input) = some c' →
    ∀ connID q, q ≠ p → c.shared.server.conns.find? connID = some q →
      c'.shared.server.conns.find? connID = some q
  /-- No id is connected and disconnected. -/
  disjoint : ∀ connID, c.shared.server.conns.find? connID = none ∨
    c.shared.server.disconnects.find? connID = none

/-- The step of a clean-up. -/
theorem server_of_cleanUp {i : ℕ} {input : Input} (hhead : c.head i = some (.session p .cleanUp))
    (hs : (program cfg).step c (.run i input) = some c') :
    c'.shared.server = c.shared.server.disconnect p input.now := by
  obtain ⟨r, rest, hran⟩ := Program.ran_of_head hs hhead
  obtain rfl := some.inj hran.exec
  rw [hran.shared]

/-- **When the table is sound.** In every run in which a session that is
registered binds only under the id it is registered under, the table is as its
users rely on it in every configuration. -/
theorem table_is_sound (cfg : Config) (auth : Auth.Store) {c : NorthConf}
    (h : (program cfg).Reaches (Program.When Settled) (NorthConf.start auth) c) : TableInvariant cfg c := by
  obtain ⟨⟨hsound, -⟩, -⟩ := reaches_tabled h
  refine ⟨fun connID p hp => ?_, fun p conn hconn hended connID hp => ?_, ?_, fun connID => ?_⟩
  · obtain ⟨conn, hconn, hid, -, -⟩ := hsound.named connID p hp
    exact ⟨conn, hconn, hid⟩
  · obtain ⟨conn', hconn', -, -, hnot⟩ := hsound.named connID p hp
    obtain rfl := Option.some.inj (hconn.symm.trans hconn')
    rw [hended] at hnot
    cases hnot
  · intro i input c' p hhead hs connID q hne hfind
    rw [server_of_cleanUp hhead hs]
    exact Server.find?_disconnect_of_ne _ hfind hne
  · cases hfind : c.shared.server.conns.find? connID with
    | none => exact .inl rfl
    | some p => exact .inr (hsound.disjoint connID (by rw [hfind]; rfl))

/-- An engine is replaced by a second connection, and the handler of the first
one ends after that: the table still leads to the second. -/
theorem replaced_session_leaves_table :
    ∃ c, (program plainConfig).Reaches (Program.When Settled)
        (NorthConf.start clients) c ∧
      c.shared.server.conns.find? alpha = some 1 ∧
      ((c.shared.server.heap[0]?).any Connection.ended) = true ∧
      TableInvariant plainConfig c := by
  exact Program.exists_reached (steps 0 2 ++ connects 1 [] ++ connects 2 [] ++ binds 1 alpha ++
    binds 2 alpha ++ hangsUp 1) (by decide) fun h => ⟨by decide, by decide, table_is_sound _ _ h⟩

/-- An engine binds under two ids and hangs up: the entry of the first id still
leads to its session, which goes by the second one and is gone. -/
theorem rebound_session_stays_in_table :
    ∃ c, (program plainConfig).Reaches Program.Anything
        (NorthConf.start clients) c ∧
      c.shared.server.conns.find? alpha = some 0 ∧
      (c.shared.server.heap[0]?).map (fun conn => (conn.id, conn.ended)) = some (beta, true) := by
  exact Program.exists_reached (steps 0 2 ++ connects 1 [] ++ binds 1 alpha ++ binds 1 beta ++
    hangsUp 1) (by decide) fun _ => ⟨by decide, by decide⟩

/-- **The condition is needed at every step**: a step that gives a registered
session another id leaves an entry that leads to a session of that other
id. -/
theorem not_named_of_setID {i : ℕ} {input : Input} {systemID connID : Bytes}
    (hhead : c.head i = some (.session p (.setID systemID)))
    (hfind : c.shared.server.conns.find? connID = some p) (hne : connID ≠ systemID)
    (hs : (program cfg).step c (.run i input) = some c') :
    c'.shared.server.conns.find? connID = some p ∧
      ∀ conn, c'.shared.server.heap[p]? = some conn → conn.id ≠ connID := by
  obtain ⟨r, rest, hran⟩ := Program.ran_of_head hs hhead
  obtain rfl := some.inj hran.exec
  rw [hran.shared]
  refine ⟨hfind, fun conn hconn => ?_⟩
  dsimp only at hconn
  rw [heap_modify] at hconn
  obtain ⟨old, -, rfl⟩ := map_eq_some_iff.mp hconn
  rw [if_pos rfl]
  exact hne.symm

end Northbound

end SmscGateway
