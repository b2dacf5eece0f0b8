import SmscGateway.Client.Model

/-!
# The connection pool

A `Pool` holds its connections in a slice of pointers. `Connect` makes the slice at
its full length and fills one entry after the other, with a wait before each; when
the context is cancelled in such a wait it leaves at once, and reports success if a
connection stands already. Every other operation follows the pointers it finds.
`pool_has_no_holes_iff` says when that is safe: exactly when no wait ends with the
context cancelled after a connection succeeded.

`Connect` holds the lock for all of its run and no other operation writes the slice,
so what an operation finds is what `Connect` left.
-/

namespace SmscGateway

open List

namespace Pool

open Client (positiveOr positiveOr_pos)

/-- `PoolConfig`, as `NewPool` completes it. -/
structure PoolConfig where
  connections : ℕ
  windowSize : ℕ
  connections_pos : 0 < connections
  windowSize_pos : 0 < windowSize

/-- The configuration `NewPool` keeps, with its defaults. -/
def newPool (connections windowSize : ℤ) : PoolConfig where
  connections := positiveOr connections 5
  windowSize := positiveOr windowSize 1000
  connections_pos := positiveOr_pos (by decide) _
  windowSize_pos := positiveOr_pos (by decide) _

/-- `poolConn`: its client is known by the index. -/
structure PoolConn where
  index : ℕ
  window : ℕ
deriving DecidableEq

/-- The slice of pointers. -/
abbrev Conns := List (Option PoolConn)

/-! ## Connect -/

/-- What one round of `Connect` meets: whether the context is cancelled when the wait
is over, whether the timer had fired as well and `select` took it, and how the
client's own `Connect` ends. -/
structure Round where
  cancelled : Bool := false
  picksTimer : Bool := false
  connected : Bool := true
deriving DecidableEq

/-- The wait ends with the context. -/
def Round.leaves (r : Round) : Bool := r.cancelled && !r.picksTimer

/-- The errors of `Connect`. -/
inductive ConnectError where
  | ctxErr
  | allFailed (connections : ℕ)
deriving DecidableEq

/-- The loop of `Connect` at round `i`, with `left` rounds to go. -/
def connectFrom (cfg : PoolConfig) (rounds : ℕ → Round) (i successCount : ℕ) (conns : Conns) :
    ℕ → Except ConnectError Conns
  | 0 => if successCount = 0 then .error (.allFailed cfg.connections) else .ok conns
  | left + 1 =>
    if 0 < i ∧ (rounds i).leaves = true then
      if 0 < successCount then .ok conns else .error .ctxErr
    else
      connectFrom cfg rounds (i + 1)
        (if (rounds i).connected = true then successCount + 1 else successCount)
        (conns.set i (some ⟨i, cfg.windowSize⟩)) left

/-- `Connect`: the entries it leaves, or its error. -/
def connect (cfg : PoolConfig) (rounds : ℕ → Round) : Except ConnectError Conns :=
  connectFrom cfg rounds 0 0 (List.replicate cfg.connections none) cfg.connections

/-! ## Operations -/

/-- What ends the program. -/
inductive Panic where
  | nilDereference
  | indexOutOfRange
deriving DecidableEq

/-- Why a submit fails without a client being called. -/
inductive PoolError where
  | notConnected
  | noWindow
deriving DecidableEq

/-- What a submit finds at a connection. -/
inductive Probe where
  | unbound
  | windowFull
  | free
deriving DecidableEq

/-- One turn over the connections: the counter's value, and what each look finds. -/
structure Turn where
  start : UInt64
  probe : ℕ → Probe

/-- The call a submit makes. -/
structure SubmitCall (β : Type) where
  conn : PoolConn
  payload : β
deriving DecidableEq

variable {β : Type}

/-- The inner loop of a submit from `i` on. -/
def tryEach (conns : Conns) (turn : Turn) (i : ℕ) : ℕ → Except Panic (Option PoolConn)
  | 0 => .ok none
  | left + 1 =>
    match conns[((turn.start.toNat + i) % 2 ^ 64) % conns.length]? with
    | none => .error .indexOutOfRange
    | some none => .error .nilDereference
    | some (some conn) =>
      match turn.probe i with
      | .free => .ok (some conn)
      | .unbound | .windowFull => tryEach conns turn (i + 1) left

/-- The outer loop of a submit: the turns it makes before the deadline. -/
def windowed (conns : Conns) (payload : β) :
    List Turn → Except Panic (Except PoolError (SubmitCall β))
  | [] => .ok (.error .noWindow)
  | turn :: turns =>
    match tryEach conns turn 0 conns.length with
    | .error p => .error p
    | .ok (some conn) => .ok (.ok ⟨conn, payload⟩)
    | .ok none => windowed conns payload turns

/-- `Submit`: which client is given the request. -/
def submit (conns : Conns) (req : β) (turns : List Turn) :
    Except Panic (Except PoolError (SubmitCall β)) :=
  if conns.length = 0 then .ok (.error .notConnected) else windowed conns req turns

/-- `SubmitRaw`: which client is given the body. -/
def submitRaw (conns : Conns) (body : Bytes) (turns : List Turn) :
    Except Panic (Except PoolError (SubmitCall Bytes)) :=
  if conns.length = 0 then .ok (.error .notConnected) else windowed conns body turns

/-- A loop over all entries. -/
def eachConn (f : PoolConn → β) : Conns → Except Panic (List β)
  | [] => .ok []
  | none :: _ => .error .nilDereference
  | some conn :: conns => (eachConn f conns).map (f conn :: ·)

/-- `Close`: the first error of a client's `Close`, errors being numbered. -/
def close (conns : Conns) (errs : ℕ → Option ℕ) : Except Panic (Option ℕ) :=
  (eachConn (fun conn => errs conn.index) conns).map fun l => (l.filterMap id).head?

/-- One tick of `reconnectLoop`: the connections it tries to bind again. -/
def reconnectTick (conns : Conns) (bound : ℕ → Bool) : Except Panic (List ℕ) :=
  (eachConn PoolConn.index conns).map fun l => l.filter fun i => !bound i

/-- `ActiveConnections`. -/
def activeConnections (conns : Conns) (bound : ℕ → Bool) : Except Panic ℕ :=
  (eachConn (fun conn => bound conn.index) conns).map fun l => l.count true

/-- `WindowUtilization`. -/
def windowUtilization (conns : Conns) (used : ℕ → ℕ) : Except Panic ℚ :=
  (eachConn (fun conn => (used conn.index, conn.window)) conns).map fun l =>
    if (l.map Prod.snd).sum = 0 then 0 else ((l.map Prod.fst).sum : ℚ) / (l.map Prod.snd).sum

/-- An operation on the pool, with what it meets. -/
inductive Op (β : Type) where
  | submit (req : β) (turns : List Turn)
  | submitRaw (body : Bytes) (turns : List Turn)
  | close (errs : ℕ → Option ℕ)
  | reconnectTick (bound : ℕ → Bool)
  | activeConnections (bound : ℕ → Bool)
  | windowUtilization (used : ℕ → ℕ)

/-- The panic an operation ends in. -/
def Op.panic (conns : Conns) : Op β → Option Panic
  | .submit req turns => failure (Pool.submit conns req turns)
  | .submitRaw body turns => failure (Pool.submitRaw conns body turns)
  | .close errs => failure (Pool.close conns errs)
  | .reconnectTick bound => failure (Pool.reconnectTick conns bound)
  | .activeConnections bound => failure (Pool.activeConnections conns bound)
  | .windowUtilization used => failure (Pool.windowUtilization conns used)
where
  failure {γ : Type} : Except Panic γ → Option Panic
    | .ok _ => none
    | .error p => some p

/-! ## Operations on a slice without holes -/

variable {conns : Conns}

theorem eachConn_of_full (h : none ∉ conns) (f : PoolConn → β) : ∃ l, eachConn f conns = .ok l := by
  induction conns with
  | nil => exact ⟨[], rfl⟩
  | cons c conns ih =>
    rw [mem_cons, not_or] at h
    obtain ⟨hc, hrest⟩ := h
    obtain ⟨conn, rfl⟩ := Option.ne_none_iff_exists'.mp (Ne.symm hc)
    obtain ⟨l, hl⟩ := ih hrest
    exact ⟨f conn :: l, by rw [eachConn, hl]; rfl⟩

/-- A loop over all entries meets every hole. -/
theorem eachConn_of_hole (h : none ∈ conns) (f : PoolConn → β) :
    eachConn f conns = .error .nilDereference := by
  induction conns with
  | nil => cases h
  | cons c conns ih =>
    cases c with
    | none => rfl
    | some conn =>
      have hrest : none ∈ conns := by simpa using h
      rw [eachConn, ih hrest]
      rfl

theorem tryEach_of_full (h : none ∉ conns) (hpos : 0 < conns.length) (turn : Turn) (i left : ℕ) :
    ∃ found, tryEach conns turn i left = .ok found := by
  induction left generalizing i with
  | zero => exact ⟨none, rfl⟩
  | succ left ih =>
    have hlt : ((turn.start.toNat + i) % 2 ^ 64) % conns.length < conns.length :=
      Nat.mod_lt _ hpos
    have hget := getElem?_eq_getElem hlt
    have hmem := getElem_mem hlt
    obtain ⟨conn, hconn⟩ := Option.ne_none_iff_exists'.mp fun he => h (he ▸ hmem)
    rw [tryEach, hget, hconn]
    cases hprobe : turn.probe i with
    | free => exact ⟨some conn, rfl⟩
    | unbound => exact ih (i + 1)
    | windowFull => exact ih (i + 1)

theorem windowed_of_full (h : none ∉ conns) (hpos : 0 < conns.length) (payload : β)
    (turns : List Turn) : ∃ r, windowed conns payload turns = .ok r := by
  induction turns with
  | nil => exact ⟨_, rfl⟩
  | cons turn turns ih =>
    obtain ⟨found, hfound⟩ := tryEach_of_full h hpos turn 0 conns.length
    rw [windowed, hfound]
    cases found with
    | none => exact ih
    | some conn => exact ⟨_, rfl⟩

/-- **Without holes no operation panics.** -/
theorem panic_of_full (h : none ∉ conns) (op : Op β) : op.panic conns = none := by
  have hsub : ∀ {γ : Type} (payload : γ) (turns : List Turn),
      ∃ r, (if conns.length = 0 then .ok (.error .notConnected)
        else windowed conns payload turns : Except Panic (Except PoolError (SubmitCall γ))) =
        .ok r := by
    intro γ payload turns
    split_ifs with hzero
    · exact ⟨_, rfl⟩
    · exact windowed_of_full h (Nat.pos_of_ne_zero hzero) payload turns
  cases op with
  | submit req turns =>
    obtain ⟨r, hr⟩ := hsub req turns
    rw [Op.panic, Pool.submit, hr]
    rfl
  | submitRaw body turns =>
    obtain ⟨r, hr⟩ := hsub body turns
    rw [Op.panic, Pool.submitRaw, hr]
    rfl
  | close errs =>
    obtain ⟨l, hl⟩ := eachConn_of_full h fun conn => errs conn.index
    rw [Op.panic, Pool.close, hl]
    rfl
  | reconnectTick bound =>
    obtain ⟨l, hl⟩ := eachConn_of_full h PoolConn.index
    rw [Op.panic, Pool.reconnectTick, hl]
    rfl
  | activeConnections bound =>
    obtain ⟨l, hl⟩ := eachConn_of_full h fun conn => bound conn.index
    rw [Op.panic, Pool.activeConnections, hl]
    rfl
  | windowUtilization used =>
    obtain ⟨l, hl⟩ := eachConn_of_full h fun conn => (used conn.index, conn.window)
    rw [Op.panic, Pool.windowUtilization, hl]
    rfl

/-- With a hole, the next tick of the reconnect loop does. -/
theorem panic_of_hole (h : none ∈ conns) (bound : ℕ → Bool) :
    (Op.reconnectTick bound : Op β).panic conns = some .nilDereference := by
  rw [Op.panic, Pool.reconnectTick, eachConn_of_hole h]
  rfl

/-! ## What Connect leaves -/

variable (cfg : PoolConfig) (rounds : ℕ → Round)

/-- The slice with its first `i` entries made. -/
def filled (i : ℕ) : Conns :=
  (List.range cfg.connections).map fun k => if k < i then some ⟨k, cfg.windowSize⟩ else none

/-- The connections that succeeded before round `i`. -/
def successes (i : ℕ) : ℕ := (List.range i).countP fun k => (rounds k).connected

theorem filled_zero : filled cfg 0 = replicate cfg.connections none := by
  simp [filled, map_const']

theorem filled_set (i : ℕ) : (filled cfg i).set i (some ⟨i, cfg.windowSize⟩) =
    filled cfg (i + 1) := by
  refine ext_getElem (by simp [filled]) fun k hk hk' => ?_
  rw [getElem_set]
  simp only [filled, getElem_map, getElem_range]
  by_cases hik : i = k
  · simp [hik]
  · rw [if_neg hik]
    have hiff : k < i ↔ k < i + 1 := by omega
    simp only [hiff]

theorem successes_succ (i : ℕ) : successes rounds (i + 1) =
    if (rounds i).connected = true then successes rounds i + 1 else successes rounds i := by
  rw [successes, range_succ, countP_append, countP_singleton, ← successes]
  split_ifs <;> rfl

theorem successes_pos_iff (i : ℕ) :
    0 < successes rounds i ↔ ∃ j < i, (rounds j).connected = true := by
  rw [successes, countP_pos_iff]
  simp

theorem none_mem_filled_iff (i : ℕ) : none ∈ filled cfg i ↔ i < cfg.connections := by
  rw [filled, mem_map]
  constructor
  · rintro ⟨k, hk, hnone⟩
    have hki : ¬k < i := fun hlt => by simp [hlt] at hnone
    have hkn := mem_range.mp hk
    omega
  · intro hi
    exact ⟨i, mem_range.mpr hi, if_neg (lt_irrefl i)⟩

/-- **Until a wait ends with the context, `Connect` fills one entry a round.** -/
theorem connect_eq_connectFrom {j : ℕ} (hj : j ≤ cfg.connections)
    (hstay : ∀ k, 0 < k → k < j → (rounds k).leaves = false) :
    connect cfg rounds =
      connectFrom cfg rounds j (successes rounds j) (filled cfg j) (cfg.connections - j) := by
  induction j with
  | zero =>
    rw [filled_zero]
    rfl
  | succ j ih =>
    rw [ih (by omega) fun k hk hlt => hstay k hk (by omega)]
    have hleft : cfg.connections - j = (cfg.connections - (j + 1)) + 1 := by omega
    have hround : ¬(0 < j ∧ (rounds j).leaves = true) := by
      rintro ⟨hpos, hleaves⟩
      rw [hstay j hpos (by omega)] at hleaves
      cases hleaves
    rw [hleft, connectFrom, if_neg hround, filled_set, successes_succ]

/-- A wait of `Connect` ends with the context cancelled, after a connection succeeded
and before the last entry is made. -/
def CancelledAfterSuccess : Prop :=
  ∃ i, 0 < i ∧ i < cfg.connections ∧ (rounds i).leaves = true ∧
    (∀ k, 0 < k → k < i → (rounds k).leaves = false) ∧ ∃ j < i, (rounds j).connected = true

theorem connect_of_cancelled (h : CancelledAfterSuccess cfg rounds) :
    ∃ conns, connect cfg rounds = .ok conns ∧ none ∈ conns := by
  obtain ⟨i, hpos, hi, hleaves, hstay, hsucc⟩ := h
  refine ⟨filled cfg i, ?_, (none_mem_filled_iff cfg i).mpr hi⟩
  have hleft : cfg.connections - i = (cfg.connections - (i + 1)) + 1 := by omega
  rw [connect_eq_connectFrom cfg rounds hi.le hstay, hleft, connectFrom, if_pos ⟨hpos, hleaves⟩,
    if_pos ((successes_pos_iff rounds i).mpr hsucc)]

theorem connect_full (h : ¬CancelledAfterSuccess cfg rounds)
    (hok : connect cfg rounds = .ok conns) :
    none ∉ conns := by
  by_cases hex : ∃ i, 0 < i ∧ i < cfg.connections ∧ (rounds i).leaves = true
  · -- the first wait that ends with the context: nothing can have succeeded before it
    obtain ⟨hpos, hi, hleaves⟩ := Nat.find_spec hex
    have hstay : ∀ k, 0 < k → k < Nat.find hex → (rounds k).leaves = false := by
      intro k hk hlt
      by_contra hne
      exact Nat.find_min hex hlt ⟨hk, by omega, by simpa using hne⟩
    have hnone : ¬0 < successes rounds (Nat.find hex) := fun hsucc =>
      h ⟨_, hpos, hi, hleaves, hstay, (successes_pos_iff rounds _).mp hsucc⟩
    have hleft : cfg.connections - Nat.find hex = (cfg.connections - (Nat.find hex + 1)) + 1 := by
      omega
    rw [connect_eq_connectFrom cfg rounds hi.le hstay, hleft, connectFrom,
      if_pos ⟨hpos, hleaves⟩, if_neg hnone] at hok
    cases hok
  · have hstay : ∀ k, 0 < k → k < cfg.connections → (rounds k).leaves = false := by
      intro k hk hlt
      by_contra hne
      exact hex ⟨k, hk, hlt, by simpa using hne⟩
    rw [connect_eq_connectFrom cfg rounds le_rfl hstay, Nat.sub_self, connectFrom] at hok
    split_ifs at hok
    obtain rfl := Except.ok.inj hok
    rw [none_mem_filled_iff]
    omega

/-- **A connected pool has no holes unless its context ends too soon.** For every
number of connections and every course of `Connect`: if it returns without an error,
no operation on the pool panics, if and only if no wait ended with the context
cancelled after a connection succeeded. -/
theorem pool_has_no_holes_iff (connections windowSize : ℤ) (rounds : ℕ → Round) :
    (∀ conns, connect (newPool connections windowSize) rounds = .ok conns →
      ∀ op : Op β, op.panic conns = none) ↔
    ¬CancelledAfterSuccess (newPool connections windowSize) rounds := by
  constructor
  · intro hsafe hcancel
    obtain ⟨conns, hok, hhole⟩ := connect_of_cancelled _ rounds hcancel
    have hnone := hsafe conns hok (.reconnectTick fun _ => true)
    rw [panic_of_hole hhole] at hnone
    cases hnone
  · intro hstay conns hok op
    exact panic_of_full (connect_full _ rounds hstay hok) op

/-- **A request that ends after the first bind leaves a pool with a hole**, and the
next tick of the reconnect loop follows it. -/
theorem cancelled_connect_leaves_hole :
    let rounds : ℕ → Round := fun i => { cancelled := i = 1 }
    connect (newPool 2 1000) rounds = .ok [some ⟨0, 1000⟩, none] ∧
    (Op.reconnectTick (fun _ => true) : Op Bytes).panic [some ⟨0, 1000⟩, none] =
      some .nilDereference ∧
    (Op.close (fun _ => none) : Op Bytes).panic [some ⟨0, 1000⟩, none] =
      some .nilDereference := by
  decide

end Pool

end SmscGateway
