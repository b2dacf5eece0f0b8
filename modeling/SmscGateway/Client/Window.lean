import SmscGateway.Client.Pool

/-!
# The windows of a pool

Any number of calls of `Submit` and `SubmitRaw` share the connections of a pool.
A call passes over the connections from where the shared counter sends it, looks
for one that is bound and takes a slot of its window, which it gives back when
the client's own submit has returned. The window is a buffered channel; what it
holds is how many slots are taken.

`Submit` and `SubmitRaw` have the same loop, so they are one call here with two
payloads. The connections are those `Connect` leaves when it fills every entry.
-/

namespace SmscGateway

open List Function

namespace Pool

namespace Window

variable {β : Type}

/-- A call, with what it hands to the client. -/
inductive Call (β : Type)
  | submit (req : β)
  | submitRaw (body : Bytes)

/-- How a call ends. -/
inductive Result
  | poolError (e : PoolError)
  /-- What the client's submit returned. -/
  | client (outcome : Client.Outcome)

/-- What the calls share. -/
structure State where
  /-- The round-robin counter, a `uint64`. -/
  nextConn : ℕ := 0
  /-- How many slots of a connection's window are taken. -/
  slots : ℕ → ℕ := fun _ => 0

/-- The steps of a call. A pass is known by the value the counter gave it. -/
inductive Action (β : Type)
  | begin (call : Call β)
  | startPass (call : Call β)
  /-- The turn `i` of a pass asks whether its connection is bound. -/
  | probe (call : Call β) (start i : ℕ)
  /-- The connection was bound: the `select` on its window. -/
  | acquire (call : Call β) (start i : ℕ)
  | clientSubmit (call : Call β) (start conn : ℕ)
  | release (conn : ℕ) (outcome : Client.Outcome)
  /-- The pass is over: is the deadline, too? -/
  | checkDeadline (call : Call β)

/-- What the environment contributes. -/
structure Input where
  bound : Bool := true
  expired : Bool := false
  outcome : Client.Outcome := .timedOut

inductive Obs (β : Type)
  | probed (start conn : ℕ) (bound : Bool)
  /-- A pass found no slot. -/
  | passed (start : ℕ)
  | sent (start conn : ℕ) (call : Call β)
  | returned (r : Result)

abbrev WindowEffect (β : Type) := Effect State (Action β) (Obs β)

/-- The connection of a turn: `(start + i) % numConns`, in `uint64`. -/
def connIndex (cfg : PoolConfig) (start i : ℕ) : ℕ := (start + i) % 2 ^ 64 % cfg.connections

def exec (cfg : PoolConfig) (s : State) (i : Input) : Action β → Option (WindowEffect β)
  | .begin call =>
    if cfg.connections = 0 then
      some { state := s, seen := [.returned (.poolError .notConnected)] }
    else some { state := s, next := [.startPass call] }
  | .startPass call =>
    let start := (s.nextConn + 1) % 2 ^ 64
    some { state := { s with nextConn := start }, next := [.probe call start 0] }
  | .probe call start j =>
    if j < cfg.connections then
      some
        { state := s
          next := [if i.bound then .acquire call start j else .probe call start (j + 1)]
          seen := [.probed start (connIndex cfg start j) i.bound] }
    else some { state := s, next := [.checkDeadline call], seen := [.passed start] }
  | .acquire call start j =>
    let conn := connIndex cfg start j
    if s.slots conn < cfg.windowSize then
      some
        { state := { s with slots := Function.update s.slots conn (s.slots conn + 1) }
          next := [.clientSubmit call start conn] }
    else some { state := s, next := [.probe call start (j + 1)] }
  | .clientSubmit call start conn =>
    some { state := s, next := [.release conn i.outcome], seen := [.sent start conn call] }
  | .release conn outcome =>
    some
      { state := { s with slots := Function.update s.slots conn (s.slots conn - 1) }
        seen := [.returned (.client outcome)] }
  | .checkDeadline call =>
    if i.expired then some { state := s, seen := [.returned (.poolError .noWindow)] }
    else some { state := s, next := [.startPass call] }

def entry : Action β → Bool
  | .begin _ => true
  | _ => false

/-- The calls on a pool. -/
def program (β : Type) (cfg : PoolConfig) : Program State Input (Action β) (Obs β) where
  entry := entry
  exec := exec cfg

abbrev WindowConf (β : Type) := Conf State (Action β) (Obs β)

/-- The counter is below `2 ^ 64 - n` when a pass takes its value. -/
def CounterBelow (cfg : PoolConfig) (c : WindowConf β) (_ : Input) : Action β → Prop
  | .startPass _ => c.shared.nextConn + cfg.connections < 2 ^ 64
  | _ => True

instance (cfg : PoolConfig) (c : WindowConf β) (i : Input) :
    (a : Action β) → Decidable (CounterBelow cfg c i a)
  | .startPass _ => inferInstanceAs (Decidable (_ < _))
  | .begin _ | .probe .. | .acquire .. | .clientSubmit .. | .release .. | .checkDeadline _ =>
    .isTrue trivial

/-- What happens in some run. -/
abbrev Runs (cfg : PoolConfig) (c : WindowConf β) : Prop :=
  (program β cfg).Reaches (Program.When (CounterBelow cfg)) { shared := {} } c

/-! ## What a step does -/

/-- **What a step of a call does.** -/
inductive Moves (cfg : PoolConfig) (s : State) : Action β → WindowEffect β → Prop
  | begins (call : Call β) : Moves cfg s (.begin call) { state := s, next := [.startPass call] }
  | starts (call : Call β) :
      Moves cfg s (.startPass call)
        { state := { s with nextConn := (s.nextConn + 1) % 2 ^ 64 }
          next := [.probe call ((s.nextConn + 1) % 2 ^ 64) 0] }
  | probed (call : Call β) (start j : ℕ) (bound : Bool) (hj : j < cfg.connections) :
      Moves cfg s (.probe call start j)
        { state := s
          next := [if bound then .acquire call start j else .probe call start (j + 1)]
          seen := [.probed start (connIndex cfg start j) bound] }
  | passed (call : Call β) (start j : ℕ) (hj : cfg.connections ≤ j) :
      Moves cfg s (.probe call start j)
        { state := s, next := [.checkDeadline call], seen := [.passed start] }
  | acquired (call : Call β) (start j : ℕ)
      (hroom : s.slots (connIndex cfg start j) < cfg.windowSize) :
      Moves cfg s (.acquire call start j)
        { state := { s with
            slots := Function.update s.slots (connIndex cfg start j)
              (s.slots (connIndex cfg start j) + 1) }
          next := [.clientSubmit call start (connIndex cfg start j)] }
  | full (call : Call β) (start j : ℕ) :
      Moves cfg s (.acquire call start j) { state := s, next := [.probe call start (j + 1)] }
  | sends (call : Call β) (start conn : ℕ) (outcome : Client.Outcome) :
      Moves cfg s (.clientSubmit call start conn)
        { state := s, next := [.release conn outcome], seen := [.sent start conn call] }
  | releases (conn : ℕ) (outcome : Client.Outcome) :
      Moves cfg s (.release conn outcome)
        { state := { s with slots := Function.update s.slots conn (s.slots conn - 1) }
          seen := [.returned (.client outcome)] }
  | gaveUp (call : Call β) :
      Moves cfg s (.checkDeadline call)
        { state := s, seen := [.returned (.poolError .noWindow)] }
  | again (call : Call β) :
      Moves cfg s (.checkDeadline call) { state := s, next := [.startPass call] }

variable {cfg : PoolConfig} {s : State} {a : Action β} {r : WindowEffect β} {start j : ℕ}
  {c : WindowConf β} {T : Multiset ℕ} {trace : List (Obs β)}

theorem exec_moves {i : Input} (h : exec cfg s i a = some r) : Moves cfg s a r := by
  cases a with
  | begin call =>
    rw [exec, if_neg cfg.connections_pos.ne'] at h
    cases h
    exact .begins call
  | startPass call =>
    cases h
    exact .starts call
  | probe call start j =>
    rw [exec] at h
    split at h <;> cases h
    · exact .probed call start j i.bound ‹_›
    · exact .passed call start j (by omega)
  | acquire call start j =>
    simp only [exec] at h
    split at h <;> cases h
    · exact .acquired call start j ‹_›
    · exact .full call start j
  | clientSubmit call start conn =>
    cases h
    exact .sends call start conn i.outcome
  | release conn outcome =>
    cases h
    exact .releases conn outcome
  | checkDeadline call =>
    rw [exec] at h
    split at h <;> cases h
    · exact .gaveUp call
    · exact .again call

/-! ## Slots -/

/-- The call has a slot of the connection's window. -/
def Action.holds (k : ℕ) : Action β → Bool
  | .clientSubmit _ _ conn | .release conn _ => conn = k
  | _ => false

/-- The pass in which the call found the connection bound. -/
def Action.foundBound (cfg : PoolConfig) : Action β → Option (ℕ × ℕ)
  | .acquire _ start j => some (start, connIndex cfg start j)
  | .clientSubmit _ start conn => some (start, conn)
  | _ => none

/-- Slots are taken by who holds them, and a submit goes to a connection that
was found bound. -/
structure Flow (cfg : PoolConfig) (c : WindowConf β) : Prop where
  slots : ∀ k, c.shared.slots k = c.actions.countP (·.holds k)
  room : ∀ k, c.shared.slots k ≤ cfg.windowSize
  found : ∀ a ∈ c.actions, ∀ p ∈ a.foundBound cfg, .probed p.1 p.2 true ∈ c.trace
  sent : ∀ i start k call, c.trace[i]? = some (.sent start k call) →
    .probed start k true ∈ c.trace.take i

/-- What a step does to the windows. -/
theorem Moves.slots (h : Moves cfg s a r) {k n : ℕ}
    (hk : s.slots k = (if a.holds k then 1 else 0) + n) :
    r.state.slots k = r.next.countP (·.holds k) + n := by
  cases h with
  | probed call start j bound => cases bound <;> simpa [Action.holds] using hk
  | acquired call start j hroom =>
    by_cases hconn : connIndex cfg start j = k
    · subst hconn
      simp only [update_self]
      simp [Action.holds] at hk ⊢
      omega
    · have hne : k ≠ connIndex cfg start j := Ne.symm hconn
      simp only [update_of_ne hne]
      simpa [Action.holds, hconn] using hk
  | releases conn outcome =>
    by_cases hconn : conn = k
    · subst hconn
      simp only [update_self]
      simp [Action.holds] at hk ⊢
      omega
    · have hne : k ≠ conn := Ne.symm hconn
      simp only [update_of_ne hne]
      simpa [Action.holds, hconn] using hk
  | sends call start conn outcome => simpa [Action.holds] using hk
  | begins | starts | passed | full | gaveUp | again => simpa [Action.holds] using hk

theorem Moves.room (h : Moves cfg s a r) (hs : ∀ k, s.slots k ≤ cfg.windowSize) (k : ℕ) :
    r.state.slots k ≤ cfg.windowSize := by
  cases h with
  | acquired call start j hroom =>
    by_cases hk : k = connIndex cfg start j
    · subst hk
      simp only [update_self]
      omega
    · simpa only [update_of_ne hk] using hs k
  | releases conn outcome =>
    have hle := hs k
    by_cases hk : k = conn
    · subst hk
      simp only [update_self]
      omega
    · simpa only [update_of_ne hk] using hle
  | _ => exact hs k

/-- A connection is found bound by a probe. -/
theorem Moves.foundBound (h : Moves cfg s a r) : ∀ b ∈ r.next, ∀ p ∈ b.foundBound cfg,
      p ∈ a.foundBound cfg ∨ .probed p.1 p.2 true ∈ r.seen := by
  cases h with
  | probed call start j bound hj =>
    cases bound <;> simp [Action.foundBound]
  | _ => simp [Action.foundBound]

theorem Moves.sent (h : Moves cfg s a r) {k : ℕ} {call : Call β}
    (hmem : .sent start k call ∈ r.seen) :
    r.seen = [.sent start k call] ∧ a.foundBound cfg = some (start, k) := by
  cases h with
  | sends call start conn outcome =>
    obtain ⟨rfl, rfl, rfl⟩ := Obs.sent.inj (mem_singleton.mp hmem)
    exact ⟨rfl, rfl⟩
  | _ => simp at hmem

theorem step_flow {c' : WindowConf β} {e : Event Input (Action β)} (hc : Flow cfg c)
    (h : (program β cfg).step c e = some c') : Flow cfg c' := by
  rcases Program.step_cases h with ⟨a, -, hst⟩ | ⟨j, input, a, r, rest, -, hran⟩
  · have hentry : (∀ k, a.holds k = false) ∧ a.foundBound cfg = none := by
      have ha := hst.entry
      cases a <;> first | exact ⟨fun _ => rfl, rfl⟩ | cases ha
    refine ⟨fun k => ?_, hst.shared ▸ hc.room, fun b hb p hp => ?_, hst.trace ▸ hc.sent⟩
    · rw [hst.shared, hst.actions, Multiset.countP_cons_of_neg _ (by simp [hentry.1 k])]
      exact hc.slots k
    · rw [hst.trace]
      rcases hst.cases hb with rfl | hb
      · rw [hentry.2] at hp
        cases hp
      · exact hc.found b hb p hp
  · have hmoves : Moves cfg c.shared a r := exec_moves hran.exec
    have hmem := hran.mem
    refine ⟨fun k => ?_, fun k => ?_, fun b hb p hp => ?_, fun i start k call hi => ?_⟩
    · have hk := hc.slots k
      rw [hran.before, Multiset.countP_cons, Nat.add_comm] at hk
      rw [hran.shared, hran.actions, Multiset.countP_add, Multiset.coe_countP, hmoves.slots hk]
      simp only [Bool.decide_eq_true]
    · rw [hran.shared]
      exact hmoves.room hc.room k
    · rw [hran.trace]
      rcases hran.cases hb with hb | hb
      · rcases hmoves.foundBound b hb p hp with hp | hp
        · exact mem_append_left _ (hc.found a hmem p hp)
        · exact mem_append_right _ hp
      · exact mem_append_left _ (hc.found b (hran.pending hb) p hp)
    · rw [hran.trace] at hi ⊢
      by_cases hlt : i < c.trace.length
      · rw [getElem?_append_left hlt] at hi
        rw [take_append_of_le_length hlt.le]
        exact hc.sent i start k call hi
      · rw [getElem?_append_right (not_lt.mp hlt)] at hi
        obtain ⟨hseen, hfound⟩ := hmoves.sent (mem_of_getElem? hi)
        have hprobed := hc.found a hmem _ hfound
        rw [take_append, take_of_length_le (not_lt.mp hlt)]
        exact mem_append_left _ hprobed

theorem flow (h : Runs cfg c) : Flow cfg c := by
  refine Program.Reaches.invariant ⟨?_, ?_, ?_, ?_⟩ (fun _ _ _ hc _ hstep => step_flow hc hstep) h
  · intro k
    rfl
  · intro k
    exact Nat.zero_le _
  · intro a ha
    exact absurd ha (Multiset.notMem_zero a)
  · intro i start k call hi
    simp at hi

/-! ## Passes -/

/-- The connection an observation says a pass has probed. -/
def Obs.probeOf (start : ℕ) : Obs β → Option ℕ
  | .probed start' conn _ => if start' = start then some conn else none
  | _ => none

/-- The connections a pass has probed. -/
def probes (trace : List (Obs β)) (start : ℕ) : List ℕ := trace.filterMap (Obs.probeOf start)

/-- How many connections of a pass the call has probed, if it is in that pass. -/
def Action.turnOf (start : ℕ) : Action β → Option ℕ
  | .probe _ start' j => if start' = start then some j else none
  | .acquire _ start' j => if start' = start then some (j + 1) else none
  | _ => none

/-- A pass that has probed `j` connections. It has at most one call in it, none
when it is over, and none before the counter, at `next`, has given its value. -/
structure Stands (cfg : PoolConfig) (start next : ℕ) (turns : Multiset ℕ) (trace : List (Obs β))
    (j : ℕ) : Prop where
  le : j ≤ cfg.connections
  probed : probes trace start = (List.range j).map (connIndex cfg start)
  calls : turns = 0 ∨ turns = {j}
  passed : .passed start ∈ trace → j = cfg.connections ∧ turns = 0
  unborn : start = 0 ∨ next < start → j = 0 ∧ turns = 0 ∧ .passed start ∉ trace

theorem Stands.alone {next x : ℕ} (h : Stands cfg start next ({x} + T) trace j) :
    x = j ∧ T = 0 ∧ .passed start ∉ trace ∧ ¬ (start = 0 ∨ next < start) := by
  have hne : ({x} + T : Multiset ℕ) ≠ 0 := by simp
  rcases h.calls with h0 | h1
  · exact absurd h0 hne
  · have hT : T = 0 := by
      have hcard := congrArg Multiset.card h1
      rw [Multiset.card_add, Multiset.card_singleton, Multiset.card_singleton] at hcard
      exact Multiset.card_eq_zero.mp (by omega)
    subst hT
    rw [add_zero, Multiset.singleton_inj] at h1
    exact ⟨h1, rfl, fun hp => hne (h.passed hp).2, fun hu => hne (h.unborn hu).2.1⟩

/-- A step that is no part of the pass. -/
theorem Stands.other {next next' : ℕ} {seen : List (Obs β)} (h : Stands cfg start next T trace j)
    (hnext : next ≤ next') (hseen : seen.filterMap (Obs.probeOf start) = [])
    (hpassed : .passed start ∉ seen) : Stands cfg start next' T (trace ++ seen) j := by
  have hmem : .passed start ∈ trace ++ seen → .passed start ∈ trace := fun hm =>
    (mem_append.mp hm).resolve_right hpassed
  refine ⟨h.le, ?_, h.calls, fun hm => h.passed (hmem hm), fun hu => ?_⟩
  · rw [probes, filterMap_append, hseen, append_nil]
    exact h.probed
  · obtain ⟨hj, hT, hno⟩ := h.unborn (hu.imp_right (lt_of_le_of_lt hnext))
    exact ⟨hj, hT, fun hm => hno (hmem hm)⟩

/-- **A step keeps every pass in order.** -/
theorem Moves.stands (h : Moves cfg s a r)
    (hok : ∀ call, a = .startPass call → s.nextConn + cfg.connections < 2 ^ 64)
    (hs : Stands cfg start s.nextConn (((a.turnOf start).toList : Multiset ℕ) + T) trace j) :
    ∃ j', Stands cfg start r.state.nextConn
      ((r.next.filterMap (Action.turnOf start) : Multiset ℕ) + T) (trace ++ r.seen) j' := by
  cases h with
  | begins | sends | releases | gaveUp | again =>
    refine ⟨j, Stands.other ?_ le_rfl ?_ ?_⟩
    · simpa [Action.turnOf, filterMap_cons] using hs
    · simp [Obs.probeOf]
    · simp
  | starts call =>
    have hpos := cfg.connections_pos
    have hlt := hok call rfl
    have hnew : (s.nextConn + 1) % 2 ^ 64 = s.nextConn + 1 := Nat.mod_eq_of_lt (by omega)
    have hs' : Stands cfg start s.nextConn T trace j := by simpa [Action.turnOf] using hs
    simp only [hnew]
    by_cases hstart : s.nextConn + 1 = start
    · -- The value is new, so nothing is known of the pass yet.
      obtain ⟨rfl, hT, hno⟩ := hs'.unborn (.inr (by omega))
      refine ⟨0, Nat.zero_le _, ?_, ?_, ?_, ?_⟩
      · simpa using hs'.probed
      · right
        simp [Action.turnOf, hstart, hT]
      · intro hm
        exact absurd (by simpa using hm) hno
      · intro hu
        omega
    · refine ⟨j, Stands.other ?_ (Nat.le_succ _) rfl (by simp)⟩
      simpa [Action.turnOf, hstart] using hs'
  | probed call st x bound hx =>
    by_cases hst : st = start
    · subst hst
      have hturn : ((Action.probe call st x).turnOf st).toList = [x] := by simp [Action.turnOf]
      rw [hturn] at hs
      obtain ⟨rfl, rfl, hno, hborn⟩ := hs.alone
      refine ⟨x + 1, hx, ?_, ?_, ?_, fun hu => absurd hu hborn⟩
      · have hp := hs.probed
        rw [probes] at hp
        rw [probes, filterMap_append, hp, range_succ, map_append]
        simp [Obs.probeOf]
      · right
        cases bound <;> simp [Action.turnOf]
      · intro hm
        exact absurd (by simpa using hm) hno
    · refine ⟨j, Stands.other ?_ le_rfl ?_ ?_⟩
      · cases bound <;> simpa [Action.turnOf, hst] using hs
      · simp [Obs.probeOf, hst]
      · simp
  | passed call st x hx =>
    by_cases hst : st = start
    · subst hst
      have hturn : ((Action.probe call st x).turnOf st).toList = [x] := by simp [Action.turnOf]
      rw [hturn] at hs
      obtain ⟨rfl, rfl, hno, hborn⟩ := hs.alone
      refine ⟨x, hs.le, ?_, ?_, ?_, fun hu => absurd hu hborn⟩
      · have hp := hs.probed
        rw [probes] at hp
        rw [probes, filterMap_append, hp]
        simp [Obs.probeOf]
      · left
        simp [Action.turnOf]
      · intro _
        exact ⟨le_antisymm hs.le hx, by simp [Action.turnOf]⟩
    · refine ⟨j, Stands.other ?_ le_rfl ?_ ?_⟩
      · simpa [Action.turnOf, filterMap_cons, hst] using hs
      · simp [Obs.probeOf]
      · simpa using fun h => hst h.symm
  | acquired call st x hroom =>
    refine ⟨j, Stands.other ?_ le_rfl rfl (by simp)⟩
    by_cases hst : st = start
    · subst hst
      have hturn : ((Action.acquire call st x).turnOf st).toList = [x + 1] := by
        simp [Action.turnOf]
      rw [hturn] at hs
      obtain ⟨-, rfl, hno, hborn⟩ := hs.alone
      exact ⟨hs.le, hs.probed, .inl (by simp [Action.turnOf]), fun hm => absurd hm hno,
        fun hu => absurd hu hborn⟩
    · simpa [Action.turnOf, filterMap_cons, hst] using hs
  | full call st x =>
    refine ⟨j, Stands.other ?_ le_rfl rfl (by simp)⟩
    by_cases hst : st = start <;> simpa [Action.turnOf, hst] using hs

/-- The counter gives every pass a value of its own, so what a pass has probed is
read off the trace. -/
structure Passes (cfg : PoolConfig) (c : WindowConf β) : Prop where
  counter : c.shared.nextConn = 0 ∨ c.shared.nextConn + cfg.connections ≤ 2 ^ 64
  stands : ∀ start, ∃ j,
    Stands cfg start c.shared.nextConn (c.actions.filterMap (Action.turnOf start)) c.trace j

theorem Moves.counter (h : Moves cfg s a r)
    (hok : ∀ call, a = .startPass call → s.nextConn + cfg.connections < 2 ^ 64)
    (hs : s.nextConn = 0 ∨ s.nextConn + cfg.connections ≤ 2 ^ 64) :
    r.state.nextConn = 0 ∨ r.state.nextConn + cfg.connections ≤ 2 ^ 64 := by
  cases h with
  | starts call =>
    have hlt := hok call rfl
    have hpos := cfg.connections_pos
    right
    show (s.nextConn + 1) % 2 ^ 64 + cfg.connections ≤ 2 ^ 64
    rw [Nat.mod_eq_of_lt (by omega)]
    omega
  | _ => exact hs

theorem step_passes {c' : WindowConf β} {e : Event Input (Action β)} (hc : Passes cfg c)
    (hok : Program.When (CounterBelow cfg) c e) (h : (program β cfg).step c e = some c') :
    Passes cfg c' := by
  rcases Program.step_cases h with ⟨a, -, ha, hs, hacts, htr⟩ | ⟨k, input, a, r, rest, rfl, hran⟩
  · refine ⟨hs ▸ hc.counter, fun start => ?_⟩
    have hturn : a.turnOf start = none := by
      cases a <;> first | rfl | cases ha
    rw [hs, hacts, htr, Multiset.filterMap_cons_none _ _ hturn]
    exact hc.stands start
  · have hmoves : Moves cfg c.shared a r := exec_moves hran.exec
    have hbelow : ∀ call, a = .startPass call →
        c.shared.nextConn + cfg.connections < 2 ^ 64 := by
      rintro call rfl
      exact hok _ hran.head
    refine ⟨hran.shared ▸ hmoves.counter hbelow hc.counter, fun start => ?_⟩
    obtain ⟨j, hj⟩ := hc.stands start
    rw [hran.before, Conf.filterMap_cons_toList] at hj
    rw [hran.shared, hran.actions, hran.trace, Multiset.filterMap_add, Multiset.filterMap_coe]
    exact hmoves.stands hbelow hj

theorem passes (h : Runs cfg c) : Passes cfg c := by
  refine Program.Reaches.invariant ⟨.inl rfl, fun start => ⟨0, ?_⟩⟩
    (fun _ _ _ hc hok hstep => step_passes hc hok hstep) h
  exact ⟨Nat.zero_le _, rfl, .inl rfl, fun hm => absurd hm (not_mem_nil),
    fun _ => ⟨rfl, rfl, not_mem_nil⟩⟩

/-- A pass takes its connections one after another, round the pool. -/
theorem connIndex_eq {i : ℕ} (hfits : start + cfg.connections ≤ 2 ^ 64) (hi : i < cfg.connections) :
    connIndex cfg start i = (start + i) % cfg.connections := by
  have hlt : start + i < 2 ^ 64 := by omega
  rw [connIndex, Nat.mod_eq_of_lt hlt]

theorem nodup_turns (hfits : start + cfg.connections ≤ 2 ^ 64) (hj : j ≤ cfg.connections) :
    ((range j).map (connIndex cfg start)).Nodup := by
  refine List.Nodup.map_on (fun x hx y hy hxy => ?_) nodup_range
  have hx' : x < cfg.connections := by
    have := mem_range.mp hx
    omega
  have hy' : y < cfg.connections := by
    have := mem_range.mp hy
    omega
  rw [connIndex_eq hfits hx', connIndex_eq hfits hy'] at hxy
  have hmod : x ≡ y [MOD cfg.connections] := Nat.ModEq.add_left_cancel' start hxy
  exact Nat.ModEq.eq_of_lt_of_lt hmod hx' hy'

/-- All of them make up the pool. -/
theorem turns_perm (hfits : start + cfg.connections ≤ 2 ^ 64) :
    ((range cfg.connections).map (connIndex cfg start)).Perm (range cfg.connections) := by
  have hsub : (range cfg.connections).map (connIndex cfg start) ⊆
      range cfg.connections := by
    intro k hk
    obtain ⟨i, -, rfl⟩ := mem_map.mp hk
    exact mem_range.mpr (Nat.mod_lt _ cfg.connections_pos)
  refine ((nodup_turns hfits le_rfl).subperm hsub).perm_of_length_le ?_
  simp

/-- A pass that has probed anything got its value from a counter below the bound. -/
theorem Passes.fits (h : Passes cfg c)
    (hs : Stands cfg start c.shared.nextConn (c.actions.filterMap (Action.turnOf start)) c.trace j)
    (hj : j ≠ 0) : start + cfg.connections ≤ 2 ^ 64 := by
  have hborn : ¬ (start = 0 ∨ c.shared.nextConn < start) := fun hu => hj (hs.unborn hu).1
  have hcounter := h.counter
  omega

theorem Passes.nodup (h : Passes cfg c) (start : ℕ) : (probes c.trace start).Nodup := by
  obtain ⟨j, hs⟩ := h.stands start
  rw [hs.probed]
  rcases Nat.eq_zero_or_pos j with rfl | hj
  · exact nodup_nil
  · exact nodup_turns (h.fits hs hj.ne') hs.le

theorem Passes.whole (h : Passes cfg c) (hpassed : .passed start ∈ c.trace) :
    (probes c.trace start).Perm (range cfg.connections) := by
  obtain ⟨j, hs⟩ := h.stands start
  obtain ⟨rfl, -⟩ := hs.passed hpassed
  rw [hs.probed]
  exact turns_perm (h.fits hs cfg.connections_pos.ne')

/-- **The windows of a pool.** A slot is taken for every call on its way through
the connection's client, and there are never more than the window has; a submit
goes to a connection the same pass found bound; a pass probes no connection
twice, and all of them when it ends without a slot; an idle pool has all its
windows empty. -/
theorem window_discipline (cfg : PoolConfig) {c : WindowConf β} (h : Runs cfg c) :
    (∀ k, c.shared.slots k = c.actions.countP (·.holds k) ∧ c.shared.slots k ≤ cfg.windowSize) ∧
    (∀ i start k call, c.trace[i]? = some (.sent start k call) →
      .probed start k true ∈ c.trace.take i) ∧
    (∀ start, (probes c.trace start).Nodup) ∧
    (∀ start, .passed start ∈ c.trace →
      (probes c.trace start).Perm (List.range cfg.connections)) ∧
    (c.actions = 0 → ∀ k, c.shared.slots k = 0) := by
  have hf := flow h
  have hp := passes h
  refine ⟨fun k => ⟨hf.slots k, hf.room k⟩, hf.sent, hp.nodup, fun start => hp.whole, ?_⟩
  intro hidle k
  rw [hf.slots k, hidle, Multiset.countP_zero]

/-- Two connections with a window of one slot each. -/
def twoNarrow : PoolConfig := ⟨2, 1, by decide, by decide⟩

/-- One call is with its client; the other has met an unbound connection and a
full window. -/
def crowded : WindowConf ℕ :=
  (program ℕ twoNarrow).outcome (Program.When (CounterBelow twoNarrow)) { shared := {} }
    [.start (.begin (.submit 7)), .start (.begin (.submitRaw [0])),
      .run 0 {}, .run 0 {}, .run 0 {}, .run 0 {}, .run 0 {},
      .run 1 {}, .run 1 {}, .run 1 { bound := false }, .run 1 {}, .run 1 {}, .run 1 {}]

theorem crowded_discipline :
    crowded.shared.slots 1 = 1 ∧ crowded.actions.countP (·.holds 1) = 1 ∧
      (probes crowded.trace 2).Perm (List.range 2) := by
  have hrun : Runs twoNarrow crowded :=
    (program ℕ twoNarrow).reaches_outcome (Program.When (CounterBelow twoNarrow)) { shared := {} }
      _ (by decide)
  obtain ⟨hslots, -, -, hwhole, -⟩ := window_discipline twoNarrow hrun
  have htaken : crowded.shared.slots 1 = 1 := by decide
  have hpassed : Obs.passed 2 ∈ crowded.trace := by
    have hlast : crowded.trace.getLast? = some (.passed 2) := rfl
    exact mem_of_getLast? hlast
  exact ⟨htaken, (hslots 1).1 ▸ htaken, hwhole 2 hpassed⟩

end Window

end Pool

end SmscGateway
