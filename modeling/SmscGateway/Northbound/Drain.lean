import SmscGateway.Gateway.Model
import SmscGateway.Northbound.Model

/-!
# The graceful drain

`Stop` waits until no submit is in flight. A submit in flight is counted at the
session it captured, from before it is offered to `forwardCh` until its worker
has done with it, and `totalInFlight` adds up the counters of the sessions in
the table. It reads one counter after the other: the table is locked while it
does so, the counters are not.

Sessions come and go by the steps of the gateway's own `Server`.
-/

namespace SmscGateway

open Multiset

namespace Drain

/-! ## The code -/

structure Config where
  queueSize : ℕ
  drainTimeoutSec : ℤ

structure State where
  server : Server := .empty
  /-- `InFlightCount` of a session, an `int32`. -/
  inFlight : ℕ → ℕ := fun _ => 0
  forwardCh : List ForwardTask := []
  /-- How many calls of `totalInFlight` hold the lock of the table. -/
  readers : ℕ := 0

/-- `InFlightAdd` on a captured session; nothing without one. -/
def State.inFlightAdd (s : State) (conn : Option ℕ) (delta : ℕ) : State :=
  match conn with
  | none => s
  | some p =>
    { s with inFlight := Function.update s.inFlight p ((s.inFlight p + delta) % 2 ^ 32) }

/-- `-1` as an `int32`. -/
def minusOne : ℕ := 2 ^ 32 - 1

inductive Action
  | serve (a : ServerAction)
  /-- `HandleSubmit`, which captures the session. -/
  | handleSubmit (connID : Bytes) (m : ForwardTask)
  | inFlightAdd (task : ForwardTask)
  /-- `HandleHTTPSubmit`, or one message of `HandleHTTPBatchSubmit`. -/
  | handleHTTPSubmit (m : ForwardTask)
  /-- The `select` that offers a task to `forwardCh`. -/
  | offer (task : ForwardTask)
  | inFlightSub (task : ForwardTask)
  | forwardWorker
  /-- `forwardSubmitRaw` up to its deferred function. -/
  | forwardSubmitRaw (task : ForwardTask)
  | stop
  | totalInFlight
  /-- The loop of `totalInFlight`, with the sessions it has still to read. -/
  | sum (conns : List ℕ) (total : ℕ)
  /-- `Stop` looks at the sum. -/
  | check (total : ℕ)
  /-- `Stop` after the drain. -/
  | closeAll
  deriving DecidableEq

/-- What the environment contributes. -/
structure Input where
  now : Time := 0
  /-- The order in which `range` gives the sessions, if it is one of them. -/
  order : List ℕ := []
  /-- Has the drain's deadline passed? -/
  expired : Bool := false

inductive Obs
  /-- `Stop` leaves the drain loop because the sum was zero. -/
  | drained
  | timedOut
  deriving DecidableEq

abbrev DrainEffect := Effect State Action Obs

/-- Sessions. The steps that take the lock of the table wait for its readers. -/
def execServe (s : State) (i : Input) : ServerAction → Option DrainEffect
  | .accept => some { state := { s with server := s.server.accept } }
  | .bind p systemID config =>
    if s.server.isReading p ∧ s.readers = 0 then
      some { state := { s with server := s.server.onBind p systemID config } }
    else none
  | .disconnect p =>
    if s.server.isReading p ∧ (s.server.isBound p = true → s.readers = 0) then
      some
        { state := { s with server := s.server.disconnect p i.now }
          next := [.serve (.close p)] }
    else none
  | .close p => some { state := { s with server := s.server.close p } }

def exec (cfg : Config) (s : State) (i : Input) : Action → Option DrainEffect
  | .serve a => execServe s i a
  | .handleSubmit connID m =>
    some { state := s, next := [.inFlightAdd { m with conn := s.server.getConnection connID }] }
  | .inFlightAdd task => some { state := s.inFlightAdd task.conn 1, next := [.offer task] }
  | .handleHTTPSubmit m => some { state := s, next := [.offer { m with conn := none }] }
  | .offer task =>
    if s.forwardCh.length < cfg.queueSize then
      some { state := { s with forwardCh := s.forwardCh ++ [task] } }
    else some { state := s, next := [.inFlightSub task] }
  | .inFlightSub task => some { state := s.inFlightAdd task.conn minusOne }
  | .forwardWorker =>
    match s.forwardCh with
    | [] => none
    | task :: rest =>
      some
        { state := { s with forwardCh := rest }
          next := [.forwardSubmitRaw task, .forwardWorker] }
  | .forwardSubmitRaw task => some { state := s, next := [.inFlightSub task] }
  | .stop =>
    some { state := s, next := [if 0 < cfg.drainTimeoutSec then .totalInFlight else .closeAll] }
  | .totalInFlight =>
    let conns := s.server.conns.values
    some
      { state := { s with readers := s.readers + 1 }
        next := [.sum (if i.order.Perm conns then i.order else conns) 0] }
  | .sum (p :: ps) total =>
    some { state := s, next := [.sum ps ((total + s.inFlight p) % 2 ^ 32)] }
  | .sum [] total =>
    some { state := { s with readers := s.readers - 1 }, next := [.check total] }
  | .check total =>
    if total = 0 then some { state := s, next := [.closeAll], seen := [.drained] }
    else if i.expired then some { state := s, next := [.closeAll], seen := [.timedOut] }
    else some { state := s, next := [.totalInFlight] }
  | .closeAll =>
    if s.readers = 0 then some { state := { s with server := s.server.closeAll } } else none

def entry : Action → Bool
  | .serve .accept | .serve (.bind ..) | .serve (.disconnect _) => true
  | .handleSubmit .. | .handleHTTPSubmit _ | .forwardWorker | .stop => true
  | _ => false

/-- Sessions, submits, workers and the shutdown. -/
def program (cfg : Config) : Program State Input Action Obs := ⟨entry, exec cfg⟩

abbrev DrainConf := Conf State Action Obs

/-! ## What is in flight -/

/-- The task a worker has. -/
def Action.held : Action → Option ForwardTask
  | .forwardSubmitRaw task => some task
  | _ => none

/-- The tasks in `forwardCh` and with the workers. -/
def tasks (c : DrainConf) : Multiset ForwardTask :=
  (c.shared.forwardCh : Multiset ForwardTask) + c.actions.filterMap Action.held

/-- The action has one unit of the session's counter. -/
def Action.holds (p : ℕ) : Action → Bool
  | .offer task | .forwardSubmitRaw task | .inFlightSub task => task.conn = some p
  | _ => false

/-- Is the table read? -/
def Action.summing : Action → Bool
  | .sum .. => true
  | _ => false

/-- If this is `Stop` with a sum that is zero so far, it still has to read the
counter of the session. -/
def Action.willCount (conn : Option ℕ) : Action → Bool
  | .sum ps total => total ≠ 0 ∨ conn.any (· ∈ ps)
  | .check total => total ≠ 0
  | _ => true

/-- `Stop` is about to leave its loop because the sum was zero. -/
def Leaves (c : DrainConf) : Prop := ∃ j, c.head j = some (.check 0)

/-- Nothing escapes the sum. No counter and no sum overflows; a task is put into
`forwardCh` only while its session is still to be read by every `Stop` that has
counted nothing so far; and when such a `Stop` has read all sessions, each task
belongs to a session of the table. -/
def Counted (cfg : Config) (c : DrainConf) (_ : Input) : Action → Prop
  | .inFlightAdd task => ∀ p ∈ task.conn, c.shared.inFlight p + 1 < 2 ^ 32
  | .offer task => c.shared.forwardCh.length < cfg.queueSize →
    ∀ a ∈ c.actions, a.willCount task.conn = true
  | .sum (p :: _) total => total + c.shared.inFlight p < 2 ^ 32
  | .sum [] total => total = 0 → ∀ task ∈ tasks c,
    task.conn.any (· ∈ c.shared.server.conns.values) = true
  | _ => True

instance (cfg : Config) (c : DrainConf) (i : Input) : (a : Action) → Decidable (Counted cfg c i a)
  | .inFlightAdd task => inferInstanceAs (Decidable (∀ p ∈ task.conn, _))
  | .offer _ => inferInstanceAs (Decidable (_ < _ → ∀ a ∈ c.actions, _))
  | .sum (_ :: _) _ => inferInstanceAs (Decidable (_ < _))
  | .sum [] total => inferInstanceAs (Decidable (total = 0 → ∀ task ∈ tasks c, _))
  | .serve _ | .handleSubmit .. | .handleHTTPSubmit _ | .inFlightSub _ | .forwardWorker
  | .forwardSubmitRaw _ | .stop | .totalInFlight | .check _ | .closeAll => .isTrue trivial

/-! ## What a step does -/

/-- **What a step does.** -/
inductive Moves (cfg : Config) (s : State) : Action → DrainEffect → Prop
  | serves {a : ServerAction} {server : Server} (next : List ServerAction)
      (hconns : s.readers ≠ 0 → server.conns = s.server.conns) :
      Moves cfg s (.serve a) { state := { s with server }, next := next.map .serve }
  | captures (connID : Bytes) (m : ForwardTask) :
      Moves cfg s (.handleSubmit connID m)
        { state := s, next := [.inFlightAdd { m with conn := s.server.getConnection connID }] }
  | adds (task : ForwardTask) :
      Moves cfg s (.inFlightAdd task)
        { state := s.inFlightAdd task.conn 1, next := [.offer task] }
  | requests (m : ForwardTask) :
      Moves cfg s (.handleHTTPSubmit m) { state := s, next := [.offer { m with conn := none }] }
  | queues {task : ForwardTask} (hroom : s.forwardCh.length < cfg.queueSize) :
      Moves cfg s (.offer task) { state := { s with forwardCh := s.forwardCh ++ [task] } }
  | overflows (task : ForwardTask) :
      Moves cfg s (.offer task) { state := s, next := [.inFlightSub task] }
  | subtracts (task : ForwardTask) :
      Moves cfg s (.inFlightSub task) { state := s.inFlightAdd task.conn minusOne }
  | takes {task : ForwardTask} {rest : List ForwardTask} (hch : s.forwardCh = task :: rest) :
      Moves cfg s .forwardWorker
        { state := { s with forwardCh := rest }
          next := [.forwardSubmitRaw task, .forwardWorker] }
  | forwards (task : ForwardTask) :
      Moves cfg s (.forwardSubmitRaw task) { state := s, next := [.inFlightSub task] }
  | drains : Moves cfg s .stop { state := s, next := [.totalInFlight] }
  | skips : Moves cfg s .stop { state := s, next := [.closeAll] }
  | locks {ps : List ℕ} (hps : ps.Perm s.server.conns.values) :
      Moves cfg s .totalInFlight
        { state := { s with readers := s.readers + 1 }, next := [.sum ps 0] }
  | reads (p : ℕ) (ps : List ℕ) (total : ℕ) :
      Moves cfg s (.sum (p :: ps) total)
        { state := s, next := [.sum ps ((total + s.inFlight p) % 2 ^ 32)] }
  | unlocks (total : ℕ) :
      Moves cfg s (.sum [] total)
        { state := { s with readers := s.readers - 1 }, next := [.check total] }
  | leaves (total : ℕ) (o : Obs) :
      Moves cfg s (.check total) { state := s, next := [.closeAll], seen := [o] }
  | waits (total : ℕ) : Moves cfg s (.check total) { state := s, next := [.totalInFlight] }
  | closes (hfree : s.readers = 0) :
      Moves cfg s .closeAll { state := { s with server := s.server.closeAll } }

/-- A session that is not bound is in no entry of the table on its own
account. -/
theorem conns_disconnect {s : Server} {p : ℕ} (hp : ¬ s.isBound p = true) (now : Time) :
    (s.disconnect p now).conns = s.conns := by
  simp [Server.disconnect, Server.modify, hp]

variable {cfg : Config} {s : State} {a : Action} {r : DrainEffect}

theorem exec_moves {i : Input} (h : exec cfg s i a = some r) : Moves cfg s a r := by
  cases a with
  | serve a =>
    cases a with
    | accept =>
      cases h
      exact .serves [] fun _ => rfl
    | bind p systemID config =>
      simp only [exec, execServe] at h
      obtain ⟨hfree, rfl⟩ := eq_of_guard h
      exact .serves [] fun hbusy => absurd hfree.2 hbusy
    | disconnect p =>
      simp only [exec, execServe] at h
      obtain ⟨hfree, rfl⟩ := eq_of_guard h
      exact .serves [.close p] fun hbusy =>
        conns_disconnect (fun hbound => hbusy (hfree.2 hbound)) _
    | close p =>
      cases h
      exact .serves [] fun _ => rfl
  | handleSubmit connID m =>
    cases h
    exact .captures connID m
  | inFlightAdd task =>
    cases h
    exact .adds task
  | handleHTTPSubmit m =>
    cases h
    exact .requests m
  | offer task =>
    rw [exec] at h
    split at h <;> cases h
    · exact .queues ‹_›
    · exact .overflows task
  | inFlightSub task =>
    cases h
    exact .subtracts task
  | forwardWorker =>
    simp only [exec] at h
    split at h
    · cases h
    · rename_i task rest hch
      cases h
      exact .takes hch
  | forwardSubmitRaw task =>
    cases h
    exact .forwards task
  | stop =>
    cases h
    split
    · exact .drains
    · exact .skips
  | totalInFlight =>
    cases h
    refine .locks ?_
    split
    · assumption
    · exact List.Perm.refl _
  | sum ps total =>
    cases ps with
    | nil =>
      cases h
      exact .unlocks total
    | cons p ps =>
      cases h
      exact .reads p ps total
  | check total =>
    rw [exec] at h
    split at h
    · cases h
      exact .leaves total .drained
    · split at h <;> cases h
      · exact .leaves total .timedOut
      · exact .waits total
  | closeAll =>
    rw [exec] at h
    split at h
    · cases h
      exact .closes ‹_›
    · cases h

/-! ## Counters -/

/-- Every counter is the number of its units, and the table is locked as often
as it is read. -/
structure Tally (c : DrainConf) : Prop where
  units : ∀ p, c.shared.inFlight p =
    c.shared.forwardCh.countP (·.conn = some p) + c.actions.countP (·.holds p)
  small : ∀ p, c.shared.inFlight p < 2 ^ 32
  readers : c.shared.readers = c.actions.countP (·.summing)

theorem inFlightAdd_some (s : State) (p q delta : ℕ) :
    (s.inFlightAdd (some p) delta).inFlight q =
      if q = p then (s.inFlight p + delta) % 2 ^ 32 else s.inFlight q :=
  Function.update_apply ..

theorem inFlightAdd_frame (s : State) (conn : Option ℕ) (delta : ℕ) :
    (s.inFlightAdd conn delta).forwardCh = s.forwardCh ∧
      (s.inFlightAdd conn delta).readers = s.readers ∧
      (s.inFlightAdd conn delta).server = s.server := by
  cases conn <;> exact ⟨rfl, rfl, rfl⟩

/-- **A step keeps each counter equal to its units**, in the arithmetic of the counter:
`n` are with the others. -/
theorem Moves.units_mod (h : Moves cfg s a r) {p n : ℕ}
    (hp : s.inFlight p % 2 ^ 32 =
      (s.forwardCh.countP (·.conn = some p) + ((if a.holds p then 1 else 0) + n)) % 2 ^ 32) :
    r.state.inFlight p % 2 ^ 32 =
      (r.state.forwardCh.countP (·.conn = some p) + (r.next.countP (·.holds p) + n)) % 2 ^ 32 := by
  cases h with
  | @serves _ _ next _ =>
    have hnone : (next.map Action.serve).countP (·.holds p) = 0 := by
      simp [List.countP_map, Action.holds, Function.comp_def]
    rw [hnone]
    simpa [Action.holds] using hp
  | adds task =>
    obtain ⟨hch, -, -⟩ := inFlightAdd_frame s task.conn 1
    rw [hch]
    cases hconn : task.conn with
    | none => simpa [Action.holds, hconn, State.inFlightAdd] using hp
    | some q =>
      rw [inFlightAdd_some]
      by_cases hq : p = q
      · subst hq
        simp [Action.holds, hconn] at hp ⊢
        omega
      · have hq' : ¬ q = p := fun h => hq h.symm
        simpa [Action.holds, hconn, hq, hq'] using hp
  | subtracts task =>
    obtain ⟨hch, -, -⟩ := inFlightAdd_frame s task.conn minusOne
    rw [hch]
    cases hconn : task.conn with
    | none => simpa [Action.holds, hconn, State.inFlightAdd] using hp
    | some q =>
      rw [inFlightAdd_some]
      by_cases hq : p = q
      · subst hq
        simp [Action.holds, hconn, minusOne] at hp ⊢
        omega
      · have hq' : ¬ q = p := fun h => hq h.symm
        simpa [Action.holds, hconn, hq, hq'] using hp
  | @queues task hroom =>
    by_cases hq : task.conn = some p
    · simp [Action.holds, hq, List.countP_append] at hp ⊢
      omega
    · simpa [Action.holds, hq, List.countP_append] using hp
  | @takes task rest hch =>
    rw [hch] at hp
    by_cases hq : task.conn = some p
    · simp [Action.holds, hq] at hp ⊢
      omega
    · simpa [Action.holds, hq] using hp
  | forwards task =>
    by_cases hq : task.conn = some p <;> simpa [Action.holds, hq] using hp
  | overflows task =>
    by_cases hq : task.conn = some p <;> simpa [Action.holds, hq] using hp
  | _ => simpa [Action.holds] using hp

/-- Only `HandleSubmit` makes a unit. -/
theorem Moves.units_le (h : Moves cfg s a r) (p : ℕ) :
    r.state.forwardCh.countP (·.conn = some p) + r.next.countP (·.holds p) ≤
        s.forwardCh.countP (·.conn = some p) + (if a.holds p then 1 else 0) ∨
      ∃ task, a = .inFlightAdd task ∧ task.conn = some p ∧
        r.state.forwardCh.countP (·.conn = some p) + r.next.countP (·.holds p) =
          s.forwardCh.countP (·.conn = some p) + 1 := by
  cases h with
  | @serves _ _ next _ =>
    left
    simp [List.countP_map, Action.holds, Function.comp_def]
  | adds task =>
    obtain ⟨hch, -, -⟩ := inFlightAdd_frame s task.conn 1
    rw [hch]
    by_cases hq : task.conn = some p
    · exact Or.inr ⟨task, rfl, hq, by simp [Action.holds, hq]⟩
    · left
      simp [Action.holds, hq]
  | subtracts task =>
    obtain ⟨hch, -, -⟩ := inFlightAdd_frame s task.conn minusOne
    rw [hch]
    left
    simp
  | @queues task hroom =>
    left
    by_cases hq : task.conn = some p <;> simp [Action.holds, hq, List.countP_append]
  | @takes task rest hch =>
    left
    rw [hch]
    by_cases hq : task.conn = some p <;> simp [Action.holds, hq]
  | forwards task | overflows task =>
    left
    by_cases hq : task.conn = some p <;> simp [Action.holds, hq]
  | _ =>
    left
    simp [Action.holds]

/-- Without overflow the counter is the number. -/
theorem Moves.units (h : Moves cfg s a r) (hsmall : ∀ p, s.inFlight p < 2 ^ 32)
    (hsmall' : ∀ p, r.state.inFlight p < 2 ^ 32)
    (hok : ∀ task, a = .inFlightAdd task → ∀ p ∈ task.conn, s.inFlight p + 1 < 2 ^ 32) {p n : ℕ}
    (hp : s.inFlight p =
      s.forwardCh.countP (·.conn = some p) + ((if a.holds p then 1 else 0) + n)) :
    r.state.inFlight p =
      r.state.forwardCh.countP (·.conn = some p) + (r.next.countP (·.holds p) + n) := by
  have hmod := h.units_mod (congrArg (· % 2 ^ 32) hp)
  have hlt := hsmall p
  rw [Nat.mod_eq_of_lt (hsmall' p)] at hmod
  rcases h.units_le p with hle | ⟨task, rfl, hconn, heq⟩
  · rw [hmod, Nat.mod_eq_of_lt (by omega)]
  · have hadd := hok task rfl p hconn
    rw [hmod, Nat.mod_eq_of_lt (by simp [Action.holds] at hp; omega)]

theorem Moves.small (h : Moves cfg s a r) (hs : ∀ p, s.inFlight p < 2 ^ 32) (p : ℕ) :
    r.state.inFlight p < 2 ^ 32 := by
  have hadd : ∀ conn delta, (s.inFlightAdd conn delta).inFlight p < 2 ^ 32 := by
    intro conn delta
    cases conn with
    | none => exact hs p
    | some q =>
      rw [inFlightAdd_some]
      split
      · exact Nat.mod_lt _ (by decide)
      · exact hs p
  cases h with
  | adds task => exact hadd _ _
  | subtracts task => exact hadd _ _
  | _ => exact hs p

theorem Moves.readers (h : Moves cfg s a r) {n : ℕ}
    (hn : s.readers = (if a.summing then 1 else 0) + n) :
    r.state.readers = r.next.countP (·.summing) + n := by
  cases h with
  | @serves _ _ next _ =>
    have hnone : (next.map Action.serve).countP (·.summing) = 0 := by
      simp [List.countP_map, Action.summing, Function.comp_def]
    rw [hnone]
    simpa [Action.summing] using hn
  | adds task =>
    obtain ⟨-, hreaders, -⟩ := inFlightAdd_frame s task.conn 1
    rw [hreaders]
    simpa [Action.summing] using hn
  | subtracts task =>
    obtain ⟨-, hreaders, -⟩ := inFlightAdd_frame s task.conn minusOne
    rw [hreaders]
    simpa [Action.summing] using hn
  | locks hps =>
    simp [Action.summing] at hn ⊢
    omega
  | unlocks total =>
    simp [Action.summing] at hn ⊢
    omega
  | _ => simpa [Action.summing] using hn

section Step

variable {cfg : Config} {c c' : DrainConf} {e : Event Input Action}

variable {a : Action} {task : ForwardTask} {s : State} {r : DrainEffect}

/-- A goroutine begins with nothing in flight. -/
theorem entry_idle (h : entry a = true) :
    a.held = none ∧ (∀ p, a.holds p = false) ∧ a.summing = false ∧ ∀ total, a ≠ .check total := by
  cases a with
  | inFlightAdd | offer | inFlightSub | forwardSubmitRaw | totalInFlight | sum | check | closeAll =>
    cases h
  | _ => exact ⟨rfl, fun _ => rfl, rfl, by simp⟩

theorem step_tally (hc : Tally c) (hok : Program.When (Counted cfg) c e)
    (h : (program cfg).step c e = some c') : Tally c' := by
  rcases Program.step_cases h with ⟨a, -, hst⟩ | ⟨j, input, a, r, rest, rfl, hran⟩
  · obtain ⟨-, hholds, hsum, -⟩ := entry_idle hst.entry
    refine ⟨fun p => ?_, hst.shared ▸ hc.small, ?_⟩ <;> rw [hst.shared, hst.actions]
    · rw [countP_cons_of_neg _ (by simp [hholds p])]
      exact hc.units p
    · rw [countP_cons_of_neg _ (by simp [hsum])]
      exact hc.readers
  · have hmoves : Moves cfg c.shared a r := exec_moves hran.exec
    have hp := hc.units
    have hn := hc.readers
    simp only [hran.before, countP_cons, Nat.add_comm (countP _ rest)] at hp hn
    refine ⟨fun p => ?_, fun p => ?_, ?_⟩ <;> rw [hran.shared]
    · rw [hran.actions, countP_add, coe_countP,
        hmoves.units hc.small (hmoves.small hc.small) (fun task htask => ?_) (hp p)]
      · simp only [Bool.decide_eq_true]
      · subst htask
        exact hok _ hran.head
    · exact hmoves.small hc.small p
    · rw [hran.actions, countP_add, coe_countP, hmoves.readers hn]
      simp only [Bool.decide_eq_true]

/-- A task in flight shows in its session's counter. -/
theorem Tally.pos (hc : Tally c) (ht : task ∈ tasks c) {p : ℕ} (hp : task.conn = some p) :
    0 < c.shared.inFlight p := by
  rw [hc.units p]
  rcases mem_add.mp ht with ht | ht
  · have hpos : 0 < c.shared.forwardCh.countP (·.conn = some p) :=
      List.countP_pos_iff.mpr ⟨task, mem_coe.mp ht, by simp [hp]⟩
    omega
  · obtain ⟨a, ha, hheld⟩ := (mem_filterMap _ _).mp ht
    have hholds : a.holds p = true := by
      cases a <;> simp [Action.held] at hheld
      subst hheld
      simp [Action.holds, hp]
    have hpos : 0 < c.actions.countP (·.holds p) :=
      countP_pos.mpr ⟨a, ha, hholds⟩
    omega

/-! ## The sum -/

/-- A `Stop` that has counted nothing so far has every session with a task
still ahead, and one that has a sum of zero has nothing left. -/
structure Complete (c : DrainConf) : Prop where
  ahead : ∀ ps, .sum ps 0 ∈ c.actions → ∀ task ∈ tasks c, ∀ p ∈ task.conn,
    p ∈ c.shared.server.conns.values → p ∈ ps
  left : .check 0 ∈ c.actions → tasks c = 0

/-- Only the `select` puts a task in flight. -/
theorem Moves.tasks (h : Moves cfg s a r)
    (ht : task ∈ r.state.forwardCh ∨ .forwardSubmitRaw task ∈ r.next) :
    task ∈ s.forwardCh ∨ a = .forwardSubmitRaw task ∨
      a = .offer task ∧ s.forwardCh.length < cfg.queueSize := by
  cases h with
  | serves next hconns =>
    rcases ht with ht | ht
    · exact .inl ht
    · simp at ht
  | adds t =>
    obtain ⟨hch, -, -⟩ := inFlightAdd_frame s t.conn 1
    rw [hch] at ht
    exact .inl (by simpa using ht)
  | subtracts t =>
    obtain ⟨hch, -, -⟩ := inFlightAdd_frame s t.conn minusOne
    rw [hch] at ht
    exact .inl (by simpa using ht)
  | @queues t hroom =>
    have hcases : task ∈ s.forwardCh ∨ task = t := by simpa using ht
    rcases hcases with ht | rfl
    · exact .inl ht
    · exact .inr (.inr ⟨rfl, hroom⟩)
  | @takes t rest hch =>
    rw [hch]
    left
    rcases ht with ht | ht
    · exact List.mem_cons_of_mem _ ht
    · have heq : task = t := by simpa using ht
      rw [heq]
      exact List.mem_cons_self
  | _ => exact .inl (by simpa using ht)

/-- The table does not change while it is read. -/
theorem Moves.conns (h : Moves cfg s a r) (hbusy : s.readers ≠ 0) :
    r.state.server.conns = s.server.conns := by
  cases h with
  | serves next hconns => exact hconns hbusy
  | adds t => rw [(inFlightAdd_frame s t.conn 1).2.2]
  | subtracts t => rw [(inFlightAdd_frame s t.conn minusOne).2.2]
  | closes hfree => exact absurd hfree hbusy
  | _ => rfl

/-- Where a sum comes from. -/
theorem Moves.sum_of_next (h : Moves cfg s a r) {ps : List ℕ} {total : ℕ}
    (hb : .sum ps total ∈ r.next) : (ps.Perm s.server.conns.values ∧ r.state.server = s.server) ∨
      ∃ p t, a = .sum (p :: ps) t ∧ total = (t + s.inFlight p) % 2 ^ 32 ∧ r.state = s := by
  cases h with
  | locks hps =>
    obtain ⟨rfl, -⟩ : ps = _ ∧ total = 0 := by simpa using hb
    exact .inl ⟨hps, rfl⟩
  | reads p ps' t =>
    obtain ⟨rfl, rfl⟩ : ps = ps' ∧ total = (t + s.inFlight p) % 2 ^ 32 := by simpa using hb
    exact .inr ⟨p, t, rfl, rfl, rfl⟩
  | _ => simp at hb

theorem Moves.check_of_next (h : Moves cfg s a r) {total : ℕ} (hb : .check total ∈ r.next) :
    a = .sum [] total := by
  cases h with
  | unlocks t =>
    obtain rfl : total = t := by simpa using hb
    rfl
  | _ => simp at hb

theorem mem_tasks :
    task ∈ tasks c ↔ task ∈ c.shared.forwardCh ∨ .forwardSubmitRaw task ∈ c.actions := by
  rw [tasks, mem_add, mem_coe, mem_filterMap]
  refine or_congr_right ⟨?_, fun h => ⟨_, h, rfl⟩⟩
  rintro ⟨a, ha, hheld⟩
  cases a <;> simp [Action.held] at hheld
  exact hheld ▸ ha

/-- A goroutine starts. -/
theorem Complete.started (hc : Complete c) (hst : (program cfg).Started c a c') : Complete c' := by
  obtain ⟨hheld, -, hsum, hcheck⟩ := entry_idle hst.entry
  have htasks : tasks c' = tasks c := by
    rw [tasks, hst.shared, hst.actions, filterMap_cons_none _ _ hheld, tasks]
  refine ⟨fun ps hps => ?_, fun hleft => ?_⟩
  · rw [htasks, hst.shared]
    rcases hst.cases hps with rfl | hps
    · cases hsum
    · exact hc.ahead ps hps
  · rw [htasks]
    rcases hst.cases hleft with heq | hleft
    · exact absurd heq.symm (hcheck 0)
    · exact hc.left hleft

section Run

variable {j : ℕ} {input : Input} {a : Action} {r : DrainEffect} {rest : Multiset Action}
  {task : ForwardTask}

/-- What is in flight was so before, or has just been put into `forwardCh`. -/
theorem mem_tasks_of_run (hran : (program cfg).Ran c j input a r rest c')
    (hmem : task ∈ tasks c') :
    task ∈ tasks c ∨ (a = .offer task ∧ c.shared.forwardCh.length < cfg.queueSize) := by
  have hmoves : Moves cfg c.shared a r := exec_moves hran.exec
  rw [mem_tasks, hran.shared, hran.actions, mem_add, mem_coe, ← or_assoc] at hmem
  rcases hmem with hnew | hmem
  · rcases hmoves.tasks hnew with hmem | rfl | hoffer
    · exact .inl (mem_tasks.mpr (.inl hmem))
    · exact .inl (mem_tasks.mpr (.inr hran.mem))
    · exact .inr hoffer
  · exact .inl (mem_tasks.mpr (.inr (hran.pending hmem)))

/-- A sum that is still zero has every session with a task ahead. -/
theorem Complete.ahead_of_next (ht : Tally c) (hc : Complete c) (hok : Counted cfg c input a)
    (hmoves : Moves cfg c.shared a r) (ha : a ∈ c.actions)
    (hold : task ∈ tasks c ∨ (a = .offer task ∧ c.shared.forwardCh.length < cfg.queueSize))
    {ps : List ℕ} (hps : .sum ps 0 ∈ r.next) {p : ℕ} (hp : p ∈ task.conn)
    (hreg : p ∈ r.state.server.conns.values) : p ∈ ps := by
  rcases hmoves.sum_of_next hps with ⟨hperm, hserver⟩ | ⟨q, t, rfl, htotal, hstate⟩
  · rw [hserver] at hreg
    exact hperm.mem_iff.mpr hreg
  · -- the session just read has no task
    have hlt : t + c.shared.inFlight q < 2 ^ 32 := hok
    obtain ⟨rfl, hzero⟩ : t = 0 ∧ c.shared.inFlight q = 0 := by omega
    have hmem : task ∈ tasks c := by
      rcases hold with hmem | ⟨heq, -⟩
      · exact hmem
      · cases heq
    rw [hstate] at hreg
    rcases List.mem_cons.mp (hc.ahead _ ha task hmem p hp hreg) with rfl | hps
    · have hpos := ht.pos hmem hp
      omega
    · exact hps

/-- A sum of zero that is complete leaves no task. -/
theorem Complete.left_of_next (hc : Complete c) (hok : Counted cfg c input a)
    (hmoves : Moves cfg c.shared a r) (ha : a ∈ c.actions)
    (hold : task ∈ tasks c ∨ (a = .offer task ∧ c.shared.forwardCh.length < cfg.queueSize))
    (hleft : .check 0 ∈ r.next) : False := by
  obtain rfl := hmoves.check_of_next hleft
  have hmem : task ∈ tasks c := by
    rcases hold with hmem | ⟨heq, -⟩
    · exact hmem
    · cases heq
  have hreg : task.conn.any (· ∈ c.shared.server.conns.values) = true := hok rfl task hmem
  cases hconn : task.conn with
  | none =>
    rw [hconn] at hreg
    cases hreg
  | some p =>
    rw [hconn] at hreg
    have hread := hc.ahead [] ha task hmem p hconn (by simpa using hreg)
    cases hread

end Run

theorem step_complete (ht : Tally c) (hc : Complete c) (hok : Program.When (Counted cfg) c e)
    (h : (program cfg).step c e = some c') : Complete c' := by
  rcases Program.step_cases h with ⟨a, -, hst⟩ | ⟨j, input, a, r, rest, rfl, hran⟩
  · exact hc.started hst
  · have hmoves : Moves cfg c.shared a r := exec_moves hran.exec
    have hself := hran.mem
    have hcount : ∀ {task}, a = .offer task → c.shared.forwardCh.length < cfg.queueSize →
        ∀ b ∈ c.actions, b.willCount task.conn = true := by
      rintro task rfl hroom
      exact hok _ hran.head hroom
    refine ⟨fun ps hps task hmem p hp hreg => ?_, fun hleft => ?_⟩
    · have hold := mem_tasks_of_run hran hmem
      rw [hran.shared] at hreg
      rcases hran.cases hps with hps | hps
      · exact hc.ahead_of_next ht (hok _ hran.head) hmoves hself hold hps hp hreg
      · have hpending := hran.pending hps
        have hbusy : c.shared.readers ≠ 0 := by
          have hpos : 0 < c.actions.countP (·.summing) :=
            countP_pos.mpr ⟨_, hpending, rfl⟩
          rw [ht.readers]
          omega
        rw [hmoves.conns hbusy] at hreg
        rcases hold with hmem | ⟨heq, hroom⟩
        · exact hc.ahead ps hpending task hmem p hp hreg
        · have hwill := hcount heq hroom _ hpending
          have hp' : task.conn = some p := hp
          simpa [Action.willCount, hp'] using hwill
    · refine eq_zero_of_forall_notMem fun task hmem => ?_
      have hold := mem_tasks_of_run hran hmem
      rcases hran.cases hleft with hleft | hleft
      · exact hc.left_of_next (hok _ hran.head) hmoves hself hold hleft
      · rcases hold with hmem | ⟨heq, hroom⟩
        · rw [hc.left (hran.pending hleft)] at hmem
          exact absurd hmem (notMem_zero _)
        · have hwill := hcount heq hroom _ (hran.pending hleft)
          simp [Action.willCount] at hwill

end Step

/-- **The drain is complete if nothing escapes the sum.** -/
theorem drain_complete (cfg : Config) {c : DrainConf}
    (h : (program cfg).Reaches (Program.When (Counted cfg)) { shared := {} } c)
    (hleaves : Leaves c) : tasks c = 0 := by
  have hstart : Tally { shared := {} } ∧ Complete { shared := {} } := by
    refine ⟨⟨fun _ => rfl, fun _ => Nat.two_pow_pos 32, rfl⟩, ?_, ?_⟩
    · intro ps hps
      exact absurd hps (Multiset.notMem_zero _)
    · intro hleft
      exact absurd hleft (Multiset.notMem_zero _)
  have hinv : Tally c ∧ Complete c := h.invariant (I := fun c => Tally c ∧ Complete c) hstart
    fun _ _ _ hc hok hstep => ⟨step_tally hc.1 hok hstep, step_complete hc.1 hc.2 hok hstep⟩
  obtain ⟨j, hj⟩ := hleaves
  exact hinv.2.left (Conf.mem_actions_of_head hj)

/-! ## In-flight accounting -/

/-- `InFlightCount`, which is signed. -/
def State.inFlightCount (s : State) (p : ℕ) : ℤ := (s.inFlight p : ℤ).bmod (2 ^ 32)

/-- The number of forward tasks captured with a session: those `HandleSubmit` is about to
put into `forwardCh` or to take back, those in `forwardCh`, and those a worker is
executing, up to its deferred function. -/
def captured (c : DrainConf) (p : ℕ) : ℕ :=
  c.shared.forwardCh.countP (·.conn = some p) + c.actions.countP (·.holds p)

theorem step_captured {c c' : DrainConf} {e : Event Input Action} {p : ℕ}
    (hc : c.shared.inFlight p % 2 ^ 32 = captured c p % 2 ^ 32)
    (h : (program cfg).step c e = some c') :
    c'.shared.inFlight p % 2 ^ 32 = captured c' p % 2 ^ 32 := by
  rw [captured] at hc ⊢
  rcases Program.step_cases h with ⟨a, -, hst⟩ | ⟨j, input, a, r, rest, -, hran⟩
  · obtain ⟨-, hholds, -, -⟩ := entry_idle hst.entry
    rw [hst.shared, hst.actions, countP_cons_of_neg _ (by simp [hholds p])]
    exact hc
  · have hmoves : Moves cfg c.shared a r := exec_moves hran.exec
    rw [hran.before, countP_cons, Nat.add_comm (countP _ rest)] at hc
    rw [hran.shared, hran.actions, countP_add, coe_countP, hmoves.units_mod hc]
    simp only [Bool.decide_eq_true]

/-- **In-flight accounting.** In every interleaving the counter of a session, whatever has
become of its registration, is the number of the tasks captured with it in the arithmetic
of an `int32`: so it is that number while an `int32` can hold it, and it is zero when all
of them have finished. -/
theorem in_flight_is_captured (cfg : Config) {c : DrainConf}
    (h : (program cfg).Reaches Program.Anything { shared := {} } c) (p : ℕ) :
    c.shared.inFlightCount p = (captured c p : ℤ).bmod (2 ^ 32) ∧
      (captured c p < 2 ^ 31 → c.shared.inFlightCount p = captured c p) ∧
      (captured c p = 0 → c.shared.inFlightCount p = 0) := by
  have hmod : c.shared.inFlight p % 2 ^ 32 = captured c p % 2 ^ 32 := by
    refine h.invariant (I := fun c => c.shared.inFlight p % 2 ^ 32 = captured c p % 2 ^ 32) ?_
      fun _ _ _ hc _ hstep => step_captured hc hstep
    simp [captured, Conf.actions]
  have hcount : c.shared.inFlightCount p = (captured c p : ℤ).bmod (2 ^ 32) := by
    calc c.shared.inFlightCount p
        = ((c.shared.inFlight p : ℤ) % (2 ^ 32 : ℕ)).bmod (2 ^ 32) := (Int.emod_bmod _ _).symm
      _ = ((captured c p : ℤ) % (2 ^ 32 : ℕ)).bmod (2 ^ 32) := by
        rw [← Int.natCast_emod, hmod, Int.natCast_emod]
      _ = (captured c p : ℤ).bmod (2 ^ 32) := Int.emod_bmod _ _
  refine ⟨hcount, fun hlt => ?_, fun hzero => ?_⟩
  · rw [hcount]
    exact Int.bmod_eq_of_le (by omega) (by omega)
  · rw [hcount, hzero]
    rfl

def config : Config := ⟨10, 5⟩

def message : ForwardTask := ⟨none, gwMsgIDOf 1, ascii "200", ascii "100", []⟩

/-- An engine binds and submits a message, which a worker has forwarded when
`Stop` adds up. -/
def orderlyStop : List (Event Input Action) :=
  [.start (.serve .accept), .run 0 {}, .start (.serve (.bind 0 (ascii "eng") none)), .run 1 {},
    .start (.handleSubmit (ascii "eng") message), .run 2 {}, .run 2 {}, .run 2 {},
    .start .forwardWorker, .run 3 {}, .run 3 {}, .run 3 {},
    .start .stop, .run 4 {}, .run 4 {}, .run 4 {}, .run 4 {}]

def settled : DrainConf :=
  (program config).outcome (Program.When (Counted config)) { shared := {} } orderlyStop

theorem settled_complete : Leaves settled ∧ tasks settled = 0 := by
  have hrun := (program config).reaches_outcome (Program.When (Counted config)) { shared := {} }
    orderlyStop (by decide)
  have hleaves : Leaves settled := ⟨4, by decide⟩
  exact ⟨hleaves, drain_complete config hrun hleaves⟩

/-- An engine binds anew while a worker executes its task. -/
def replaced : List (Event Input Action) :=
  orderlyStop.take 8 ++ [.start (.serve .accept), .run 3 {},
    .start (.serve (.bind 1 (ascii "eng") none)), .run 4 {}, .start .forwardWorker, .run 5 {}]

/-- The session that the task was captured with still counts it. -/
theorem replaced_session_counts :
    let c := (program config).outcome Program.Anything { shared := {} } replaced
    c.shared.server.getConnection (ascii "eng") = some 1 ∧ captured c 0 = 1 ∧
      c.shared.inFlightCount 0 = 1 := by
  have hrun := (program config).reaches_outcome Program.Anything { shared := {} } replaced
    (by decide)
  have hone : captured ((program config).outcome Program.Anything { shared := {} } replaced) 0 = 1 :=
    by decide
  have hcount := (in_flight_is_captured config hrun 0).2.1 (by rw [hone]; norm_num)
  rw [hone] at hcount
  exact ⟨by decide, hone, hcount⟩

/-- A REST message is in `forwardCh` when `Stop` has left its loop: there is no
session to count it at. -/
def overlooked : DrainConf :=
  (program config).outcome Program.Anything { shared := {} }
    [.start (.handleHTTPSubmit message), .run 0 {}, .run 0 {},
      .start .stop, .run 1 {}, .run 1 {}, .run 1 {}]

theorem drain_overlooks_rest :
    (program config).Reaches Program.Anything { shared := {} } overlooked ∧
      Leaves overlooked ∧ tasks overlooked = {message} := by
  refine ⟨(program config).reaches_outcome Program.Anything { shared := {} } _ (by decide),
    ⟨1, by decide⟩, by decide⟩

end Drain

end SmscGateway
