import SmscGateway.Client.Connection

/-!
# One session after the other

`Connect` gives its workers their `done` channel and their queue as arguments,
but a `ReadLoop` and `handleDisconnect` go back to the fields each time. A
`ReadLoop` that outlives its session finds the next one there: it reads from
the new connection, or takes the end of its own for the end of the new one.
Nothing but the timing keeps that from happening: `Connect` does not wait for
the `ReadLoop` of a bind that failed.

For which session a goroutine was started is nowhere in the client, so a record
of it is kept beside the run (`Tags`). If no `ReadLoop` is left whenever
`Connect` replaces the connection (`Rested`), sessions stay apart.
-/

namespace SmscGateway

open List Option Program Function

namespace Client

open Smpp

variable {cfg : Config} {s s' : State} {i : Input} {r : ClientEffect} {a : Action}

/-! ## Which goroutine belongs to which session -/

/-- What is kept beside a run. -/
structure Tags where
  /-- The session each of `spawned` was started for. -/
  started : List ℕ := []
  /-- The session a goroutine was started for. -/
  home : ℕ → Option ℕ := fun _ => none
  /-- The session that a goroutine last read from or failed to read from. -/
  last : ℕ → Option ℕ := fun _ => none

/-- The session `Connect` is setting up when it starts goroutines. -/
def Action.setsUp : Action → Option ℕ
  | .link (.startDeliverLoop x) | .link (.startReadLoop x) | .call (.await (.connect x) _ _) =>
    some x
  | _ => none

/-- The session whose bytes, or whose failure, an action deals with. -/
def Action.eventOf : Action → Option ℕ
  | .read (.readHeader x) | .read (.readBody _ x _) | .read (.dispatchPDU x _) => some x
  | _ => none

/-- What a step of goroutine `n` makes of the record. -/
def Tags.after (t : Tags) (n : ℕ) (i : Input) (s s' : State) : Action → Tags
  | .go =>
    { t with
      started := t.started.eraseIdx i.spawned
      home := Function.update t.home n t.started[i.spawned]? }
  | a =>
    { t with
      started := t.started ++ a.setsUp.toList.flatMap
        (List.replicate (s'.spawned.length - s.spawned.length))
      last := if a.eventOf.isSome then Function.update t.last n a.eventOf else t.last }

def Tags.note (t : Tags) (c : ClientConf) : Event Input Action → ClientConf → Tags
  | .start _, _ => t
  | .run n i, c' =>
    match c.head n with
    | some a => t.after n i c.shared c'.shared a
    | none => t

/-- Runs with their record. -/
abbrev TaggedRuns (cfg : Config) (ok : ClientConf → Event Input Action → Prop) (c : ClientConf)
    (t : Tags) : Prop :=
  (program cfg).Tracks Tags.note ok ClientConf.start {} c t

/-- The steps with which `handleDisconnect` strikes at the session of the
fields: it marks it unbound, fails its requests or closes it. -/
def LinkAction.strikes (s : State) : LinkAction → Bool
  | .handleDisconnect => s.bound
  | .drainLock | .drain | .closeConn => true
  | _ => false

/-- **Sessions stay apart.** -/
structure Apart (c : ClientConf) (t : Tags) : Prop where
  /-- A `ReadLoop` reads from the connection of its own session. -/
  reads : ∀ n k a x, t.home n = some k → c.head n = some a → a.waitsOn = some x → x = k
  /-- What a session makes `handleDisconnect` do does not meet a later one. -/
  disconnects : ∀ n k a, t.last n = some k → c.head n = some (.link a) →
    a.strikes c.shared = true → c.shared.sessions.length ≤ k + 1

/-! ## The condition -/

/-- A step of a `ReadLoop`, and the call of `handleDisconnect` in it. -/
def Action.isRead : Action → Bool
  | .read _ | .link .handleDisconnect => true
  | _ => false

def Action.replacesConn : Action → Bool
  | .link (.setConn _) => true
  | _ => false

/-- No `ReadLoop` runs or is about to. -/
def Rested (c : ClientConf) : Prop :=
  (∀ a ∈ c.threads.flatten, a.isRead = false) ∧ Loop.readLoop ∉ c.shared.spawned

instance (c : ClientConf) : Decidable (Rested c) := inferInstanceAs (Decidable (_ ∧ _))

/-- `Connect` replaces the connection only when no `ReadLoop` is left. -/
def WaitsForReaders (c : ClientConf) (_ : Input) (a : Action) : Prop :=
  a.replacesConn = true → Rested c
  deriving Decidable

/-! ## What becomes of an action -/

/-- The steps of a `ReadLoop`, all of `handleDisconnect` included. -/
def Action.ofReader : Action → Bool
  | .read _ | .link .handleDisconnect | .link .drainLock | .link .drain | .link .closeConn => true
  | _ => false

/-- The steps of the goroutines that `Connect` starts. -/
def Action.isStarted : Action → Bool
  | .deliver _ | .keep _ => true
  | a => a.ofReader

/-- The sessions an action of a `ReadLoop` names. -/
def Action.names : Action → List ℕ
  | .read (.readHeader x) | .read (.readRest x _) | .read (.dispatchPDU x _) => [x]
  | .read (.readBody x y _) => [x, y]
  | _ => []

theorem mem_names_of_waitsOn {x : ℕ} (h : a.waitsOn = some x) : x ∈ a.names ∧ a.ofReader = true := by
  unfold Action.waitsOn at h
  split at h
  · cases h
    exact ⟨mem_singleton_self _, rfl⟩
  · cases h
    exact ⟨by simp [Action.names], rfl⟩
  · cases h

theorem mem_names_of_eventOf {x : ℕ} (h : a.eventOf = some x) : x ∈ a.names ∧ a.isRead = true := by
  unfold Action.eventOf at h
  split at h
  · cases h
    exact ⟨mem_singleton_self _, rfl⟩
  · cases h
    exact ⟨by simp [Action.names], rfl⟩
  · cases h
    exact ⟨mem_singleton_self _, rfl⟩
  · cases h

/-- What a step of a `ReadLoop` leads to. -/
theorem readStep_next {a : ReadAction} (h : ReadStep s i a r) :
    ∀ b ∈ r.next, b.isStarted = true ∧
      ∀ x ∈ b.names, s.conn = some x ∨ x ∈ (Action.read a).names := by
  cases h with
  | readPDU x hconn => simp [Action.isStarted, Action.ofReader, Action.names, hconn]
  | readRest x y hd hconn => simp [Action.isStarted, Action.ofReader, Action.names, hconn]
  | _ => simp [Action.isStarted, Action.ofReader, Action.names]

theorem execDeliver_next {a : DeliverAction} (h : execDeliver cfg s i a = some r) :
    ∀ b ∈ r.next, ∃ a', b = .deliver a' := by
  cases execDeliver_deliverStep h <;> simp [discard, push]

theorem execKeep_next {a : KeepAction} (h : execKeep s i a = some r) :
    ∀ b ∈ r.next, ∃ a', b = .keep a' := by
  cases execKeep_keepStep h with
  | stops | ticks => simp
  | writes seq next hnext => rcases hnext with rfl | rfl <;> simp

/-- Steps that hold `mu` do not call `handleDisconnect`, and those of
`handleDisconnect` lead to each other. -/
theorem execLink_next {a : LinkAction} (h : execLink cfg s i a = some r) :
    ∀ b ∈ r.next, b.isRead = false ∧ b ≠ .go ∧ b.names = [] ∧
      ((Action.link a).ofReader = true → b.ofReader = true) := by
  cases execLink_linkStep h <;> simp [Action.isRead, Action.ofReader, Action.names]

/-- **A started goroutine keeps to its own steps**, and what is a step of a
`ReadLoop` comes from one. -/
theorem exec_isStarted (ha : a.isStarted = true) (h : exec cfg s i a = some r) :
    ∀ b ∈ r.next, b.isStarted = true ∧ (b.ofReader = true → a.ofReader = true) ∧
      ∀ x ∈ b.names, s.conn = some x ∨ x ∈ a.names := by
  intro b hb
  cases a with
  | go | call a => cases ha
  | link a =>
    have hreader : (Action.link a).ofReader = true := ha
    obtain ⟨-, -, hnames, hof⟩ := execLink_next h b hb
    have hb' := hof hreader
    refine ⟨?_, fun _ => hreader, by simp [hnames]⟩
    cases b <;> first | exact hb' | cases hb'
  | read a =>
    obtain ⟨hstarted, hnames⟩ := readStep_next (execRead_readStep h) b hb
    exact ⟨hstarted, fun _ => rfl, hnames⟩
  | deliver a =>
    obtain ⟨a', rfl⟩ := execDeliver_next h b hb
    exact ⟨rfl, fun hb => absurd hb (by simp [Action.ofReader]), by simp [Action.names]⟩
  | keep a =>
    obtain ⟨a', rfl⟩ := execKeep_next h b hb
    exact ⟨rfl, fun hb => absurd hb (by simp [Action.ofReader]), by simp [Action.names]⟩

/-- The others do not come to read. -/
theorem exec_not_isRead (hgo : a ≠ .go) (ha : a.isRead = false) (h : exec cfg s i a = some r) :
    ∀ b ∈ r.next, b.isRead = false ∧ b ≠ .go := by
  intro b hb
  cases a with
  | go => exact absurd rfl hgo
  | call a =>
    obtain ⟨a', rfl⟩ := execCall_next h b hb
    exact ⟨rfl, by simp⟩
  | link a =>
    obtain ⟨hread, hgo', -, -⟩ := execLink_next h b hb
    exact ⟨hread, hgo'⟩
  | read a => cases ha
  | deliver a =>
    obtain ⟨a', rfl⟩ := execDeliver_next h b hb
    exact ⟨rfl, by simp⟩
  | keep a =>
    obtain ⟨a', rfl⟩ := execKeep_next h b hb
    exact ⟨rfl, by simp⟩

/-! ## What is started, and by whom -/

/-- What a step adds to `spawned`. -/
structure Starts (s : State) (a : Action) (r : ClientEffect) (new : List Loop) : Prop where
  spawned : r.state.spawned = s.spawned ++ new
  setsUp : new ≠ [] → ∃ x, a.setsUp = some x
  readLoop : Loop.readLoop ∈ new → ∃ x, a = .link (.startReadLoop x)

theorem starts_nil (h : r.state.spawned = s.spawned) : Starts s a r [] :=
  ⟨by simp [h], fun hnil => absurd rfl hnil, by simp⟩

/-- **Only `Connect` starts goroutines**, and its `ReadLoop` in one place. -/
theorem exec_starts (hgo : a ≠ .go) (h : exec cfg s i a = some r) : ∃ new, Starts s a r new := by
  cases a with
  | go => exact absurd rfl hgo
  | call a =>
    cases execCall_callStep h with
    | bound x => exact ⟨_, rfl, fun _ => ⟨x, rfl⟩, fun hmem => by simp at hmem⟩
    | _ => exact ⟨[], starts_nil rfl⟩
  | link a =>
    cases execLink_linkStep h with
    | startDeliverLoop x => exact ⟨_, rfl, fun _ => ⟨x, rfl⟩, fun hmem => by simp at hmem⟩
    | startReadLoop x => exact ⟨_, rfl, fun _ => ⟨x, rfl⟩, fun _ => ⟨x, rfl⟩⟩
    | closeConn =>
      refine ⟨[], starts_nil ?_⟩
      simp only [State.closeConn, State.hangUp, State.modifySession]
      split <;> rfl
    | _ => exact ⟨[], starts_nil rfl⟩
  | read a => exact ⟨[], starts_nil (by cases execRead_readStep h <;> rfl)⟩
  | deliver a => exact ⟨[], starts_nil (by cases execDeliver_deliverStep h <;> rfl)⟩
  | keep a => exact ⟨[], starts_nil (by cases execKeep_keepStep h <;> rfl)⟩

/-! ## The invariant -/

/-- What is true of a goroutine, from what the record says of it. Who was not
started by `Connect` does not read. A `ReadLoop` that has not returned works on
its own session, and the client is still there. -/
def Fits (s : State) (stack : List Action) : Option ℕ → Option ℕ → Prop
  | none, last =>
    last = none ∧ (∀ a ∈ stack, a.isRead = false) ∧ (.go ∈ stack → stack = [.go])
  | some k, last =>
    (∀ a ∈ stack, a.isStarted = true) ∧
      ((∃ a ∈ stack, a.ofReader = true) →
        s.conn = some k ∧ (∀ a ∈ stack, ∀ x ∈ a.names, x = k) ∧ ∀ x ∈ last, x = k)

structure Consistent (c : ClientConf) (t : Tags) : Prop where
  length : t.started.length = c.shared.spawned.length
  spawned : ∀ j k : ℕ, c.shared.spawned[j]? = some Loop.readLoop → t.started[j]? = some k →
    c.shared.conn = some k
  fresh : ∀ n, c.threads.length ≤ n → t.home n = none ∧ t.last n = none
  threads : ∀ n stack, c.threads[n]? = some stack → Fits c.shared stack (t.home n) (t.last n)

theorem Fits.of_conn {stack : List Action} {home last : Option ℕ} (h : Fits s stack home last)
    (hconn : s'.conn = s.conn) : Fits s' stack home last := by
  cases home with
  | none => exact h
  | some k => exact ⟨h.1, fun hreader => hconn ▸ h.2 hreader⟩

/-- A goroutine that is no reader does not notice a new connection. -/
theorem Fits.of_not_reader {stack : List Action} {home last : Option ℕ}
    (h : Fits s stack home last) (hno : ∀ a ∈ stack, a.ofReader = false) :
    Fits s' stack home last := by
  cases home with
  | none => exact h
  | some k =>
    refine ⟨h.1, ?_⟩
    rintro ⟨a, ha, hreader⟩
    rw [hno a ha] at hreader
    cases hreader

/-- A goroutine begins to run. -/
theorem fits_first {l : Loop} {k : ℕ} (h : l = .readLoop → s.conn = some k) :
    Fits s [l.first] (some k) none := by
  refine ⟨?_, ?_⟩
  · cases l <;> simp [Loop.first, Action.isStarted, Action.ofReader]
  · rintro ⟨a, ha, hreader⟩
    obtain rfl := mem_singleton.mp ha
    cases l with
    | readLoop => exact ⟨h rfl, by simp [Loop.first, Action.names], by simp⟩
    | worker d q => cases hreader
    | enquireLinkLoop => cases hreader

/-- A goroutine takes a step. -/
theorem Fits.next {rest : List Action} {home last : Option ℕ}
    (h : Fits s (a :: rest) home last) (hgo : a ≠ .go) (hexec : exec cfg s i a = some r)
    (hconn : a.isStarted = true → r.state.conn = s.conn) :
    Fits r.state (r.next ++ rest) home (if a.eventOf.isSome then a.eventOf else last) := by
  cases home with
  | none =>
    obtain ⟨hlast, hread, hstack⟩ := h
    have ha := hread a mem_cons_self
    have hevent : a.eventOf = none := by
      cases hx : a.eventOf with
      | none => rfl
      | some x =>
        have hread' := (mem_names_of_eventOf hx).2
        rw [ha] at hread'
        cases hread'
    have hnext := exec_not_isRead hgo ha hexec
    have hno : Action.go ∉ a :: rest := by
      intro hmem
      exact hgo (cons.inj (hstack hmem)).1
    refine ⟨by simp [hevent, hlast], fun b hb => ?_, fun hmem => ?_⟩
    · rcases mem_append.mp hb with hb | hb
      · exact (hnext b hb).1
      · exact hread b (mem_cons_of_mem _ hb)
    · rcases mem_append.mp hmem with hb | hb
      · exact absurd rfl (hnext _ hb).2
      · exact absurd (mem_cons_of_mem _ hb) hno
  | some k =>
    obtain ⟨hstarted, hreads⟩ := h
    have ha := hstarted a mem_cons_self
    have hnext := exec_isStarted ha hexec
    refine ⟨fun b hb => ?_, ?_⟩
    · rcases mem_append.mp hb with hb | hb
      · exact (hnext b hb).1
      · exact hstarted b (mem_cons_of_mem _ hb)
    · rintro ⟨b, hb, hreader⟩
      -- a reader that goes on was one before
      have hold : ∃ b ∈ a :: rest, b.ofReader = true := by
        rcases mem_append.mp hb with hb | hb
        · exact ⟨a, mem_cons_self, (hnext b hb).2.1 hreader⟩
        · exact ⟨b, mem_cons_of_mem _ hb, hreader⟩
      obtain ⟨hk, hnames, hlast⟩ := hreads hold
      refine ⟨(hconn ha).trans hk, fun b hb x hx => ?_, fun x hx => ?_⟩
      · rcases mem_append.mp hb with hb | hb
        · rcases (hnext b hb).2.2 x hx with hx | hx
          · exact some.inj (hx.symm.trans hk)
          · exact hnames a mem_cons_self x hx
        · exact hnames b (mem_cons_of_mem _ hb) x hx
      · split at hx
        · exact hnames a mem_cons_self x (mem_names_of_eventOf hx).1
        · exact hlast x hx

/-! ## Steps -/

section Step

variable {c c' : ClientConf} {t : Tags}

theorem conn_of_not_replacesConn (htidies : Tidies s a r) (h : a.replacesConn = false) :
    r.state.conn = s.conn := by
  rcases htidies.conn with hsame | ⟨x, rfl, -⟩
  · exact hsame
  · cases h

/-- When `Connect` replaces the connection, there is no reader. -/
theorem not_ofReader_of_rested (hlocks : Locks c) (hrest : Rested c) {x : ℕ}
    (hset : .link (.setConn x) ∈ c.actions) {b : Action} (hb : b ∈ c.actions) :
    b.ofReader = false := by
  cases hreader : b.ofReader with
  | false => rfl
  | true =>
    have hread : b.isRead = false := hrest.1 b (Multiset.mem_coe.mp hb)
    -- what is left of `handleDisconnect` holds `mu`, and so does `Connect`
    have hmu : b.holdsMu = true := by
      unfold Action.ofReader at hreader
      split at hreader
      · cases hread
      · cases hread
      · rfl
      · rfl
      · rfl
      · cases hreader
    obtain ⟨rest, hacts⟩ := Multiset.exists_cons_of_mem hset
    rw [hacts] at hb
    rcases Multiset.mem_cons.mp hb with rfl | hb
    · cases hreader
    · have hfree := hlocks.alone hacts (Or.inl rfl) b hb
      rw [hmu] at hfree
      cases hfree

/-- A goroutine starts to run for the session it was started for. -/
theorem consistent_go (hc : Consistent c t) {n : ℕ} {rest : List Action}
    (hn : c.threads[n]? = some (.go :: rest))
    (hs : (program cfg).step c (.run n i) = some c')
    (hexec : exec cfg c.shared i .go = some r) (hshared : c'.shared = r.state) :
    Consistent c' (t.after n i c.shared c'.shared .go) := by
  simp only [exec] at hexec
  split at hexec
  · cases hexec
  · rename_i l hl
    cases hexec
    have hfits := hc.threads n _ hn
    obtain ⟨k, hk⟩ : ∃ k, t.started[i.spawned]? = some k := by
      have hlt := (List.getElem?_eq_some_iff.mp hl).1
      exact ⟨_, getElem?_eq_getElem (hc.length ▸ hlt)⟩
    have hhome : t.home n = none := by
      cases hhome : t.home n with
      | none => rfl
      | some k' =>
        rw [hhome] at hfits
        exact absurd (hfits.1 _ mem_cons_self) (by simp [Action.isStarted, Action.ofReader])
    rw [hhome] at hfits
    obtain ⟨hlast, -, hstack⟩ := hfits
    obtain rfl : rest = [] := (cons.inj (hstack mem_cons_self)).2
    refine ⟨?_, fun j k' hj hk' => ?_, fun m hm => ?_, fun m stack hm => ?_⟩
    · simp only [Tags.after, hshared, length_eraseIdx, hc.length]
    · rw [hshared] at hj ⊢
      simp only [Tags.after, getElem?_eraseIdx] at hj hk'
      split at hj
      · rename_i hlt
        rw [if_pos hlt] at hk'
        exact hc.spawned j k' hj hk'
      · rename_i hlt
        rw [if_neg hlt] at hk'
        exact hc.spawned _ k' hj hk'
    · have hrange := (List.getElem?_eq_some_iff.mp hn).1
      have hlen := length_of_step hs
      have hne : m ≠ n := by omega
      simp only [Tags.after, update_of_ne hne]
      exact hc.fresh m (by omega)
    · rw [hshared]
      rcases stack_of_step hs hm with ⟨hm, hother⟩ | ⟨b, he, -⟩ |
        ⟨input, b, r', rest', he, hb, hr', rfl⟩
      · have hne : m ≠ n := fun h => hother i (by rw [h])
        simp only [Tags.after, update_of_ne hne]
        exact (hc.threads m stack hm).of_conn rfl
      · cases he
      · obtain ⟨rfl, rfl⟩ := Event.run.inj he
        obtain ⟨rfl, rfl⟩ := cons.inj (some.inj (hn.symm.trans hb))
        have hr : r'.next = [l.first] := by
          simp only [program, exec, hl] at hr'
          rw [← some.inj hr']
        simp only [Tags.after, update_self, hk, hlast, hr, append_nil]
        exact fits_first fun hread => hc.spawned i.spawned k (hread ▸ hl) hk

theorem after_started (hgo : a ≠ .go) (n : ℕ) (i : Input) {new : List Loop}
    (h : Starts s a r new) :
    (t.after n i s r.state a).started =
      t.started ++ a.setsUp.toList.flatMap (replicate new.length) := by
  have hlen : r.state.spawned.length - s.spawned.length = new.length := by
    rw [h.spawned, length_append]
    omega
  cases a with
  | go => exact absurd rfl hgo
  | _ => simp only [Tags.after, hlen]

theorem after_home (hgo : a ≠ .go) (n : ℕ) (i : Input) : (t.after n i s s' a).home = t.home := by
  cases a with
  | go => exact absurd rfl hgo
  | _ => rfl

theorem after_last (hgo : a ≠ .go) (n : ℕ) (i : Input) :
    (t.after n i s s' a).last =
      if a.eventOf.isSome then update t.last n a.eventOf else t.last := by
  cases a with
  | go => exact absurd rfl hgo
  | _ => rfl

theorem after_last_of_ne (hgo : a ≠ .go) {m n : ℕ} (hne : m ≠ n) (i : Input) :
    (t.after n i s s' a).last m = t.last m := by
  rw [after_last hgo]
  split
  · rw [update_of_ne hne]
  · rfl

theorem after_last_self (hgo : a ≠ .go) (n : ℕ) (i : Input) :
    (t.after n i s s' a).last n = if a.eventOf.isSome then a.eventOf else t.last n := by
  rw [after_last hgo]
  split
  · rw [update_self]
  · rfl

/-- What `Connect` starts, it starts for the session it sets up. -/
theorem spawned_after {new : List Loop} (hlen : t.started.length = s.spawned.length)
    (hold : ∀ j k : ℕ, s.spawned[j]? = some Loop.readLoop → t.started[j]? = some k →
      r.state.conn = some k)
    (hgo : a ≠ .go) (hstarts : Starts s a r new)
    (hnew : ∀ x, a = .link (.startReadLoop x) → r.state.conn = some x) (n : ℕ) (i : Input) :
    (t.after n i s r.state a).started.length = r.state.spawned.length ∧
      ∀ j k : ℕ, r.state.spawned[j]? = some Loop.readLoop →
        (t.after n i s r.state a).started[j]? = some k → r.state.conn = some k := by
  rw [after_started hgo n i hstarts, hstarts.spawned]
  by_cases hnil : new = []
  · have htags : a.setsUp.toList.flatMap (replicate new.length) = [] := by simp [hnil]
    rw [htags, hnil, append_nil, append_nil]
    exact ⟨hlen, hold⟩
  · obtain ⟨x, hx⟩ := hstarts.setsUp hnil
    have htags : a.setsUp.toList.flatMap (replicate new.length) =
        replicate new.length x := by simp [hx]
    rw [htags]
    refine ⟨by simp [hlen], fun j k hj hk => ?_⟩
    by_cases hlt : j < s.spawned.length
    · rw [getElem?_append_left hlt] at hj
      rw [getElem?_append_left (hlen ▸ hlt)] at hk
      exact hold j k hj hk
    · rw [getElem?_append_right (by omega)] at hj hk
      obtain ⟨y, rfl⟩ := hstarts.readLoop (mem_of_getElem? hj)
      obtain rfl : y = x := some.inj hx
      obtain rfl : k = y := eq_of_mem_replicate (mem_of_getElem? hk)
      exact hnew k rfl

/-- Any other step. -/
theorem consistent_run (hrun : Runs cfg c) (hc : Consistent c t) {n : ℕ} {rest : List Action}
    (hn : c.threads[n]? = some (a :: rest)) (hgo : a ≠ .go) (hok : WaitsForReaders c i a)
    (hs : (program cfg).step c (.run n i) = some c')
    (hexec : exec cfg c.shared i a = some r) (hshared : c'.shared = r.state) :
    Consistent c' (t.after n i c.shared c'.shared a) := by
  have hmem : a ∈ c.actions :=
    Conf.mem_actions_of_head (Conf.head_eq_some_iff.mpr ⟨rest, hn⟩)
  have htidy := tidy hrun
  have hlocks := locks hrun
  have htidies := exec_tidies htidy.orderly (Nat.zero_lt_of_lt (linked hrun).sound.deliverQ)
    ((linked hrun).finds a hmem) (htidy.meets a hmem) (hlocks.mu_of_mem hmem) hexec
  obtain ⟨new, hstarts⟩ := exec_starts hgo hexec
  -- the connection stays, or there is no reader that would notice
  have hold : r.state.conn = c.shared.conn ∨
      Rested c ∧ ∀ b ∈ c.actions, b.ofReader = false := by
    cases hset : a.replacesConn with
    | false => exact Or.inl (conn_of_not_replacesConn htidies hset)
    | true =>
      have hrest := hok hset
      obtain ⟨x, rfl⟩ : ∃ x, a = .link (.setConn x) := by
        unfold Action.replacesConn at hset
        split at hset
        · exact ⟨_, rfl⟩
        · cases hset
      exact Or.inr ⟨hrest, fun b hb => not_ofReader_of_rested hlocks hrest hmem hb⟩
  have hspawned := spawned_after (t := t) hc.length
    (fun j k hj hk => by
      rcases hold with hsame | ⟨hrest, -⟩
      · exact hsame.trans (hc.spawned j k hj hk)
      · exact absurd (mem_of_getElem? hj) hrest.2)
    hgo hstarts
    (fun x hx => by
      subst hx
      have hlatest : Latest c.shared x := htidy.meets _ hmem
      exact (conn_of_not_replacesConn htidies rfl).trans hlatest.1) n i
  rw [hshared]
  refine ⟨?_, ?_, fun m hm => ?_, fun m stack hm => ?_⟩
  · rw [hshared]
    exact hspawned.1
  · rw [hshared]
    exact hspawned.2
  · have hrange := (List.getElem?_eq_some_iff.mp hn).1
    have hlen := length_of_step hs
    rw [after_home hgo, after_last_of_ne hgo (by omega)]
    exact hc.fresh m (by omega)
  · rw [hshared, after_home hgo]
    rcases stack_of_step hs hm with ⟨hm, hother⟩ | ⟨b, he, -⟩ |
      ⟨input, b, r', rest', he, hb, hr', rfl⟩
    · have hne : m ≠ n := fun h => hother i (by rw [h])
      rw [after_last_of_ne hgo hne]
      rcases hold with hsame | ⟨-, hno⟩
      · exact (hc.threads m stack hm).of_conn hsame
      · refine (hc.threads m stack hm).of_not_reader fun b hb => hno b ?_
        exact Multiset.mem_coe.mpr (mem_flatten.mpr ⟨stack, mem_of_getElem? hm, hb⟩)
    · cases he
    · obtain ⟨rfl, rfl⟩ := Event.run.inj he
      obtain ⟨rfl, rfl⟩ := cons.inj (some.inj (hn.symm.trans hb))
      obtain rfl : r' = r := some.inj (hr'.symm.trans hexec)
      rw [after_last_self hgo]
      refine (hc.threads n _ hn).next hgo hexec fun hstarted => ?_
      refine conn_of_not_replacesConn htidies ?_
      cases hset : a.replacesConn with
      | false => rfl
      | true =>
        unfold Action.replacesConn at hset
        split at hset
        · cases hstarted
        · cases hset

theorem entry_isRead (h : entry a = true) : a.isRead = false := by
  unfold entry at h
  split at h <;> first | rfl | cases h

/-- **One step.** -/
theorem step_consistent (hrun : Runs cfg c) (hc : Consistent c t) {e : Event Input Action}
    (hok : Program.When WaitsForReaders c e) (hs : (program cfg).step c e = some c') :
    Consistent c' (t.note c e c') := by
  cases e with
  | start a =>
    have hshared : c'.shared = c.shared := by
      rcases step_cases hs with ⟨-, -, -, hshared, -⟩ | ⟨n, input, -, -, -, he, -⟩
      · exact hshared
      · cases he
    have hlen := length_of_step hs
    refine ⟨hshared ▸ hc.length, hshared ▸ hc.spawned, fun m hm => hc.fresh m (by omega),
      fun m stack hm => ?_⟩
    rw [hshared]
    rcases stack_of_step hs hm with ⟨hm, -⟩ | ⟨b, -, hb, rfl, rfl⟩ |
      ⟨input, b, r', rest', he, -⟩
    · exact hc.threads m stack hm
    · obtain ⟨hhome, hlast⟩ := hc.fresh c.threads.length le_rfl
      show Fits _ _ (t.home _) (t.last _)
      rw [hhome, hlast]
      refine ⟨rfl, ?_, fun hmem => ?_⟩
      · simpa using entry_isRead hb
      · rw [mem_singleton.mp hmem]
    · cases he
  | run n i =>
    rcases step_cases hs with ⟨a, he, -⟩ | ⟨m, input, a, r, others, he, hran⟩
    · cases he
    · obtain ⟨rfl, rfl⟩ := Event.run.inj he
      obtain ⟨rest, hn⟩ := Conf.head_eq_some_iff.mp hran.head
      simp only [Tags.note, hran.head]
      by_cases hgo : a = .go
      · subst hgo
        exact consistent_go hc hn hs hran.exec hran.shared
      · exact consistent_run hrun hc hn hgo (hok a hran.head) hs hran.exec hran.shared

end Step

/-! ## Runs -/

theorem TaggedRuns.runs {ok : ClientConf → Event Input Action → Prop} {c : ClientConf} {t : Tags}
    (h : TaggedRuns cfg ok c t) : Runs cfg c :=
  (Program.Tracks.reaches h).mono fun _ _ _ => trivial

theorem consistent {c : ClientConf} {t : Tags}
    (h : TaggedRuns cfg (Program.When WaitsForReaders) c t) : Consistent c t := by
  induction h with
  | start =>
    refine ⟨rfl, fun j k hj => ?_, fun _ _ => ⟨rfl, rfl⟩, fun n stack hn => ?_⟩
    · cases hj
    · cases hn
  | step hrun hok hs ih => exact step_consistent (TaggedRuns.runs hrun) ih hok hs

/-- **Sessions stay apart when `Connect` waits for readers.** In every run in
which no `ReadLoop` is left whenever `Connect` replaces the connection, each
reads from the connection of its own session, and no `handleDisconnect` strikes
at a session later than the one it is about. -/
theorem apart_of_waits {c : ClientConf} {t : Tags}
    (h : TaggedRuns cfg (Program.When WaitsForReaders) c t) : Apart c t := by
  have hc := consistent h
  have htidy := tidy (TaggedRuns.runs h)
  refine ⟨fun n k a x hhome hhead hx => ?_, fun n k a hlast hhead hstrikes => ?_⟩
  · obtain ⟨rest, hn⟩ := Conf.head_eq_some_iff.mp hhead
    have hfits := hc.threads n _ hn
    rw [hhome] at hfits
    obtain ⟨hnames, hreader⟩ := mem_names_of_waitsOn hx
    obtain ⟨-, hk, -⟩ := hfits.2 ⟨a, mem_cons_self, hreader⟩
    exact hk a mem_cons_self x hnames
  · obtain ⟨rest, hn⟩ := Conf.head_eq_some_iff.mp hhead
    have hfits := hc.threads n _ hn
    rw [hlast] at hfits
    have hreader : (Action.link a).ofReader = true := by
      cases a <;> first | rfl | cases hstrikes
    have hlatest : ∃ x, Latest c.shared x := by
      have hmeets : LinkAction.Meets c.shared a := htidy.meets _ (Conf.mem_actions_of_head hhead)
      cases a with
      | handleDisconnect => exact htidy.orderly.bound hstrikes
      | drainLock | drain | closeConn => exact hmeets
      | _ => cases hstrikes
    obtain ⟨x, hconn, hx⟩ := hlatest
    cases hhome : t.home n with
    | none =>
      rw [hhome] at hfits
      cases hfits.1
    | some k' =>
      rw [hhome] at hfits
      obtain ⟨hk', -, hlast'⟩ := hfits.2 ⟨_, mem_cons_self, hreader⟩
      obtain rfl : k = k' := hlast' k rfl
      obtain rfl : x = k := Option.some.inj (hconn.symm.trans hk')
      omega

/-- The first session is over and its `ReadLoop` has returned; that of the
second one waits for its first header. -/
def handover : ClientConf × Tags :=
  (program smallConfig).account Tags.note (Program.When WaitsForReaders) ClientConf.start {}
    (connects 0 1 ++ steps 1 8 ++
      .start (.link .connect) :: steps 2 10 ++ .start .go :: .run 3 { spawned := 3 } :: steps 3 2)

theorem apart_handover :
    TaggedRuns smallConfig (Program.When WaitsForReaders) handover.1 handover.2 ∧
      handover.2.home 3 = some 2 ∧ handover.1.head 3 = some (.read (.readHeader 2)) ∧
      Apart handover.1 handover.2 := by
  have hrun : TaggedRuns smallConfig (Program.When WaitsForReaders) handover.1 handover.2 :=
    Program.tracks_account (by decide)
  exact ⟨hrun, by decide, by decide, apart_of_waits hrun⟩

/-- Where a schedule leads, whatever `Connect` finds. -/
def tagged (es : List (Event Input Action)) : ClientConf × Tags :=
  (program smallConfig).account Tags.note Program.Anything ClientConf.start {} es

/-- A bind is refused. The `ReadLoop` that has read the answer looks at the
fields again when the next `Connect` has replaced them. -/
def refusedBind : List (Event Input Action) :=
  .start (.link .connect) :: steps 0 10 ++ .start .go :: .run 1 { spawned := 1 } ::
    reads 1 { commandID := cmdBindTransceiverResp, commandStatus := 0x0D, sequenceNumber := 1 } 2 ++
    steps 0 2 ++ .start (.link .connect) :: steps 2 4 ++ steps 1 2

/-- A bind times out. The next `Connect` succeeds and a request is in flight
when the `ReadLoop` of the first learns that its connection was closed. -/
def timedOutBind : List (Event Input Action) :=
  .start (.link .connect) :: steps 0 10 ++ .start .go :: .run 1 { spawned := 1 } :: steps 1 2 ++
    .run 0 { timedOut := true } :: steps 0 1 ++
    .start (.link .connect) :: steps 2 10 ++ .start .go :: .run 3 { spawned := 2 } ::
    reads 3 (response cmdBindTransceiverResp 2) 2 ++ steps 2 1 ++ submits 4 ++ steps 1 2

/-- **A `ReadLoop` that outlives its session meets the next one.** That of a
refused bind reads from the next connection. That of a bind which timed out
ends the next session: it is unbound and closed, and its request fails. -/
theorem stale_reader_interferes :
    (TaggedRuns smallConfig Program.Anything (tagged refusedBind).1 (tagged refusedBind).2 ∧
      (tagged refusedBind).2.home 1 = some 1 ∧
      (tagged refusedBind).1.head 1 = some (.read (.readHeader 2)) ∧
      ¬ Apart (tagged refusedBind).1 (tagged refusedBind).2) ∧
    (TaggedRuns smallConfig Program.Anything (tagged timedOutBind).1 (tagged timedOutBind).2 ∧
      (tagged timedOutBind).2.last 1 = some 1 ∧
      (tagged timedOutBind).1.head 1 = some (.link .handleDisconnect) ∧
      ¬ Apart (tagged timedOutBind).1 (tagged timedOutBind).2 ∧
      let ended := reached
        (timedOutBind ++ steps 1 2 ++ .run 1 { seq := 1 } :: .run 1 { seq := 3 } :: steps 1 2)
      Runs smallConfig ended ∧ ended.shared.conn = some 2 ∧ ended.shared.bound = false ∧
        ended.shared.isOpen 2 = false ∧
        (ended.shared.respChs[2]?).map (·.sent) = some [disconnectNack]) := by
  refine ⟨⟨Program.tracks_account (by decide), by decide, by decide, fun hapart => ?_⟩,
    Program.tracks_account (by decide), by decide, by decide, fun hapart => ?_,
    runs_reached _ (by decide), by decide, by decide, by decide, by decide⟩
  · have hreads := hapart.reads 1 1 (.read (.readHeader 2)) 2 (by decide) (by decide) rfl
    cases hreads
  · have hlater := hapart.disconnects 1 1 .handleDisconnect (by decide) (by decide) (by decide)
    exact absurd hlater (by decide)

end Client

end SmscGateway
