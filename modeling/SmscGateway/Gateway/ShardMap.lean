import SmscGateway.Common.Goroutine
import SmscGateway.Common.Bytes
import SmscGateway.Common.Sharded

/-!
# The sharded map

A `ShardMap` keeps its entries in 64 maps, each behind a lock of its own, and
counts them apart. Each locked section is one step; the counter follows in a
step of its own, so it may lag behind for as long as calls are in progress.
Against one map that sees the same locked sections (`single`), no `Get` can tell
the difference.
-/

namespace SmscGateway

open List SortedMap

namespace ShardMap

/-- `numShards`. -/
def numShards : ℕ := 64

/-- `fnv.New32a` over a key. -/
def fnv32a (key : Bytes) : UInt32 :=
  key.foldl (fun h b => (h ^^^ b.toUInt32) * 16777619) 2166136261

/-- `shardIndex`. -/
def shardIndex (key : Bytes) : Fin numShards :=
  ⟨(fnv32a key &&& 63).toNat, by
    rw [UInt32.toNat_and]
    exact lt_of_le_of_lt Nat.and_le_right (by decide)⟩

variable {V : Type}

/-- `ShardMap`. -/
structure State (V : Type) where
  shards : Fin numShards → SortedMap Bytes V := fun _ => .empty
  count : ℤ := 0

/-- The map of a key's shard. -/
def State.shard (s : State V) (key : Bytes) : SortedMap Bytes V := s.shards (shardIndex key)

def State.setShard (s : State V) (key : Bytes) (m : SortedMap Bytes V) : State V :=
  { s with shards := Function.update s.shards (shardIndex key) m }

/-- `Len`. -/
def State.len (s : State V) : ℤ := s.count

/-- The steps of the calls. -/
inductive Action (V : Type)
  | get (key : Bytes)
  | set (key : Bytes) (val : V)
  | delete (key : Bytes)
  /-- `Set` added a key, and has the counter to increment. -/
  | increment
  /-- `Delete` removed a key, and has the counter to decrement. -/
  | decrement

/-- The locked sections, and what a `Get` returns. -/
inductive Obs (V : Type)
  | got (key : Bytes) (val : Option V)
  | stored (key : Bytes) (val : V)
  | deleted (key : Bytes)

def exec (s : State V) (_ : Unit) : Action V → Option (Effect (State V) (Action V) (Obs V))
  | .get key => some { state := s, seen := [.got key ((s.shard key).find? key)] }
  | .set key val =>
    some
      { state := s.setShard key ((s.shard key).insert key val)
        next := if ((s.shard key).find? key).isSome then [] else [.increment]
        seen := [.stored key val] }
  | .delete key =>
    if ((s.shard key).find? key).isSome then
      some
        { state := s.setShard key ((s.shard key).erase key)
          next := [.decrement]
          seen := [.deleted key] }
    else some { state := s, seen := [.deleted key] }
  | .increment => some { state := { s with count := s.count + 1 } }
  | .decrement => some { state := { s with count := s.count - 1 } }

def entry : Action V → Bool
  | .get _ | .set _ _ | .delete _ => true
  | .increment | .decrement => false

/-- Calls of `Get`, `Set` and `Delete`. -/
def program (V : Type) : Program (State V) Unit (Action V) (Obs V) where
  entry := entry
  exec := exec

abbrev ShardConf (V : Type) := Conf (State V) (Action V) (Obs V)

/-- What happens in some run on a new map. -/
abbrev Runs (c : ShardConf V) : Prop :=
  (program V).Reaches Program.Anything { shared := {} } c

/-- The visited pairs of one shard, in the order of its iteration, and whether
the callback asked for more. -/
def rangeShard (fn : Bytes → V → Bool) : List (Bytes × V) → List (Bytes × V) × Bool
  | [] => ([], true)
  | (k, v) :: l =>
    if fn k v then ((k, v) :: (rangeShard fn l).1, (rangeShard fn l).2) else ([(k, v)], false)

/-- `Range`: the pairs it calls `fn` with. -/
def range (fn : Bytes → V → Bool) : List (List (Bytes × V)) → List (Bytes × V)
  | [] => []
  | l :: ls =>
    if (rangeShard fn l).2 then (rangeShard fn l).1 ++ range fn ls else (rangeShard fn l).1

/-! ## One map -/

/-- A locked section on one map. -/
def Obs.apply (m : SortedMap Bytes V) : Obs V → SortedMap Bytes V
  | .got _ _ => m
  | .stored key val => m.insert key val
  | .deleted key => m.erase key

/-- One map after the locked sections so far. -/
def single (trace : List (Obs V)) : SortedMap Bytes V := trace.foldl Obs.apply .empty

theorem single_append (trace : List (Obs V)) (o : Obs V) :
    single (trace ++ [o]) = Obs.apply (single trace) o := by
  rw [single, foldl_append]
  rfl

/-- How much the map grows. -/
theorem length_insert (m : SortedMap Bytes V) (k : Bytes) (v : V) :
    (m.insert k v).entries.length =
      m.entries.length + if (m.find? k).isSome then 0 else 1 := by
  have hinsert := congrArg Multiset.card (values_insert m k v)
  cases hk : m.find? k with
  | none =>
    rw [erase_of_none hk] at hinsert
    simpa [SortedMap.values] using hinsert
  | some w =>
    have herase := congrArg Multiset.card (values_erase hk)
    simp only [SortedMap.values, Multiset.coe_card, Multiset.card_cons, length_map] at *
    simp only [Option.isSome_some, if_true]
    omega

theorem length_erase (m : SortedMap Bytes V) (k : Bytes) :
    m.entries.length = (m.erase k).entries.length + if (m.find? k).isSome then 1 else 0 := by
  cases hk : m.find? k with
  | none =>
    rw [erase_of_none hk]
    rfl
  | some w =>
    have herase := congrArg Multiset.card (values_erase hk)
    simpa [SortedMap.values] using herase

/-! ## Runs -/

/-- The pending increments. -/
def Action.isIncrement : Action V → Bool
  | .increment => true
  | _ => false

/-- The pending decrements. -/
def Action.isDecrement : Action V → Bool
  | .decrement => true
  | _ => false

/-- **The shards are one map**, and the counter is on its way to the number of
its keys. -/
structure Refines (c : ShardConf V) : Prop where
  holds : Holds shardIndex c.shared.shards (single c.trace)
  count : c.shared.count =
    (single c.trace).entries.length - (c.actions.countP (·.isIncrement) : ℤ) +
      c.actions.countP (·.isDecrement)
  gets : ∀ i key val, c.trace[i]? = some (.got key val) →
    val = (single (c.trace.take i)).find? key

/-- What an action does: to the one map, and to the counter with what is pending
of it. -/
structure Steps (s : State V) (m : SortedMap Bytes V) (a : Action V)
    (r : Effect (State V) (Action V) (Obs V)) (m' : SortedMap Bytes V) : Prop where
  holds : Holds shardIndex r.state.shards m'
  count : r.state.count - s.count =
    (m'.entries.length : ℤ) - m.entries.length -
      (r.next.countP (·.isIncrement) - if a.isIncrement then 1 else 0) +
      (r.next.countP (·.isDecrement) - if a.isDecrement then 1 else 0)
  seen : r.seen = [] ∧ m' = m ∨ ∃ o, r.seen = [o] ∧ m' = Obs.apply m o ∧
    ∀ key val, o = .got key val → val = m.find? key

theorem exec_steps {s : State V} {m : SortedMap Bytes V} (h : Holds shardIndex s.shards m)
    {i : Unit} {a : Action V} {r : Effect (State V) (Action V) (Obs V)}
    (hexec : exec s i a = some r) : ∃ m', Steps s m a r m' := by
  cases a with
  | get key =>
    cases hexec
    refine ⟨m, h, by simp [Action.isIncrement, Action.isDecrement], .inr ⟨_, rfl, rfl, ?_⟩⟩
    intro key' val heq
    obtain ⟨rfl, rfl⟩ := Obs.got.inj heq
    exact h.find? key
  | set key val =>
    cases hexec
    have hfind : (s.shard key).find? key = m.find? key := h.find? key
    refine ⟨m.insert key val, h.insert key val, ?_, .inr ⟨_, rfl, rfl, fun _ _ heq => ?_⟩⟩
    · have hlen := length_insert m key val
      dsimp only
      rw [hlen, hfind]
      cases (m.find? key).isSome <;>
        simp [State.setShard, Action.isIncrement, Action.isDecrement]
    · cases heq
  | delete key =>
    have hfind : (s.shard key).find? key = m.find? key := h.find? key
    have hlen := length_erase m key
    simp only [exec, hfind] at hexec
    split at hexec <;> cases hexec
    · rename_i hsome
      rw [if_pos hsome] at hlen
      refine ⟨m.erase key, h.erase key, ?_, .inr ⟨_, rfl, rfl, fun _ _ heq => ?_⟩⟩
      · simp only [State.setShard, Action.isIncrement, Action.isDecrement]
        simp
        omega
      · cases heq
    · rename_i hnone
      have hsame : m.erase key = m := erase_of_none (by simpa using hnone)
      refine ⟨m, h, by simp [Action.isIncrement, Action.isDecrement],
        .inr ⟨_, rfl, hsame.symm, fun _ _ heq => ?_⟩⟩
      cases heq
  | increment | decrement =>
    cases hexec
    exact ⟨m, h, by simp [Action.isIncrement, Action.isDecrement], .inl ⟨rfl, rfl⟩⟩

/-- **One step.** -/
theorem step_refines {c c' : ShardConf V} {e : Event Unit (Action V)} (hc : Refines c)
    (h : (program V).step c e = some c') : Refines c' := by
  rcases Program.step_cases h with ⟨a, -, ha, hs, hacts, htr⟩ |
    ⟨-, input, a, r, rest, -, -, hexec, hacts, hs, hacts', htr⟩
  · refine ⟨by rw [hs, htr]; exact hc.holds, ?_, by rw [htr]; exact hc.gets⟩
    have hpending : a.isIncrement = false ∧ a.isDecrement = false := by
      cases a <;> first | exact ⟨rfl, rfl⟩ | cases ha
    have hcount := hc.count
    rw [hs, htr, hacts, Multiset.countP_cons_of_neg, Multiset.countP_cons_of_neg]
    · exact hcount
    · simp [hpending.2]
    · simp [hpending.1]
  · have hexec' : exec c.shared input a = some r := hexec
    obtain ⟨m', hsteps⟩ := exec_steps hc.holds hexec'
    have hsingle : single c'.trace = m' := by
      rw [htr]
      rcases hsteps.seen with ⟨hseen, rfl⟩ | ⟨o, hseen, rfl, -⟩
      · rw [hseen, append_nil]
      · rw [hseen, single_append]
    refine ⟨by rw [hs, hsingle]; exact hsteps.holds, ?_, fun i key val hi => ?_⟩
    · have hcount := hc.count
      have hdiff := hsteps.count
      rw [hacts, Multiset.countP_cons, Multiset.countP_cons] at hcount
      rw [hs, hsingle, hacts', Multiset.countP_add, Multiset.countP_add, Multiset.coe_countP,
        Multiset.coe_countP]
      push_cast at hcount ⊢
      simp only [Bool.decide_eq_true] at hdiff ⊢
      linarith
    · rw [htr] at hi ⊢
      rcases hsteps.seen with ⟨hseen, -⟩ | ⟨o, hseen, -, hgot⟩
      · rw [hseen, append_nil] at hi ⊢
        exact hc.gets i key val hi
      · rw [hseen] at hi ⊢
        by_cases hlt : i < c.trace.length
        · rw [getElem?_append_left hlt] at hi
          rw [take_append_of_le_length hlt.le]
          exact hc.gets i key val hi
        · have hrange := (List.getElem?_eq_some_iff.mp hi).1
          rw [length_append, length_singleton] at hrange
          obtain rfl : i = c.trace.length := by omega
          rw [getElem?_concat_length] at hi
          rw [take_left]
          exact hgot key val (Option.some.inj hi)

theorem refines {c : ShardConf V} (h : Runs c) : Refines c := by
  refine Program.Reaches.invariant (I := Refines) ⟨.empty, rfl, fun i key val hi => ?_⟩
    (fun _ _ _ hc _ hs => step_refines hc hs) h
  cases hi

/-! ## `Range` -/

/-- A callback that never stops sees all there is. -/
theorem range_true (ls : List (List (Bytes × V))) : range (fun _ _ => true) ls = ls.flatten := by
  have hshard : ∀ l : List (Bytes × V), rangeShard (fun _ _ => true) l = (l, true) := by
    intro l
    induction l with
    | nil => rfl
    | cons p l ih => rw [rangeShard, if_pos rfl, ih]
  induction ls with
  | nil => rfl
  | cons l ls ih => rw [range, hshard, if_pos rfl, ih, flatten_cons]

/-- The shards in the orders in which their maps are iterated. -/
def visited (order : Fin numShards → List (Bytes × V)) : List (List (Bytes × V)) :=
  (List.finRange numShards).map order

/-- **A sharded map is one map.** -/
theorem shardMap_is_one_map {c : ShardConf V} (h : Runs c) :
    (∀ i key val, c.trace[i]? = some (.got key val) →
      val = (single (c.trace.take i)).find? key) ∧
    c.shared.count =
      (single c.trace).entries.length - (c.actions.countP (·.isIncrement) : ℤ) +
        c.actions.countP (·.isDecrement) ∧
    (c.actions = 0 → c.shared.len = (single c.trace).entries.length) ∧
    ∀ order, (∀ i, (order i).Perm (c.shared.shards i).entries) →
      (range (fun _ _ => true) (visited order)).Nodup ∧
      ∀ key val, (key, val) ∈ range (fun _ _ => true) (visited order) ↔
        (single c.trace).find? key = some val := by
  have hc := refines h
  refine ⟨hc.gets, hc.count, fun hidle => ?_, fun order horder => ?_⟩
  · have hcount := hc.count
    rw [hidle] at hcount
    simpa [State.len] using hcount
  · rw [range_true, visited, ← flatMap_def]
    exact hc.holds.visits (nodup_finRange _) (mem_finRange) horder

/-- A key was added and read, and the counter does not know of it yet. -/
def lagging : ShardConf ℕ :=
  (program ℕ).outcome Program.Anything { shared := {} }
    [.start (.set (ascii "k") 7), .start (.get (ascii "k")), .run 0 (), .run 1 ()]

theorem lagging_is_one_map :
    lagging.shared.count = 0 ∧ lagging.actions.countP (·.isIncrement) = 1 ∧
      lagging.actions.countP (·.isDecrement) = 0 ∧ (single lagging.trace).entries.length = 1 := by
  have hrun : Runs lagging :=
    (program ℕ).reaches_outcome Program.Anything { shared := {} } _ (by decide)
  have hcount : lagging.shared.count = 0 := by decide
  have hinc : lagging.actions.countP (·.isIncrement) = 1 := by decide
  have hdec : lagging.actions.countP (·.isDecrement) = 0 := by decide
  have hsize := (shardMap_is_one_map hrun).2.1
  rw [hcount, hinc, hdec] at hsize
  refine ⟨hcount, hinc, hdec, ?_⟩
  omega

end ShardMap

end SmscGateway
