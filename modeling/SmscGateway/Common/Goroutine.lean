import Mathlib

/-!
# Goroutines over a shared state

A goroutine is the stack of atomic actions it still has to perform: one
action is what the code does between two points at which another goroutine
may be seen to run. Executing the top action changes the shared state,
replaces the action by the ones that follow it, and may show something to an
observer. Any goroutine with an action left may be the next to run, and the
environment may start new ones, so a run is any interleaving.

Invariants are proved over the bag of pending actions (`Conf.actions`) and
the observations so far (`Conf.trace`): `step_cases` says everything a step
does to them, and `Reaches.invariant` is the induction over runs. A run may
be restricted to steps that meet a condition (`ok`), which is how a result
that needs one is stated.
-/

namespace SmscGateway

open List Multiset Option

variable {σ ι α ω : Type}

/-- What executing one action does: the state after it, what its goroutine
does next, and what an observer sees. -/
structure Effect (σ α ω : Type) where
  state : σ
  next : List α := []
  seen : List ω := []

/-- What the goroutines of a program do: `σ` is the shared state, `ι` what
the environment contributes to one action, `α` the atomic actions, `ω` the
observations. -/
structure Program (σ ι α ω : Type) where
  /-- May the environment start a goroutine with this action? -/
  entry : α → Bool
  /-- Execute an action; `none` when it cannot be taken. -/
  exec : σ → ι → α → Option (Effect σ α ω)

/-- An action with a guard was taken, so the guard held. -/
theorem eq_of_guard {β : Type} {p : Prop} [Decidable p] {x r : β}
    (h : (if p then some x else none) = some r) : p ∧ x = r := by
  rw [ite_none_right_eq_some, some_inj] at h
  exact h

/-- An action that something stops was taken, so nothing did. -/
theorem eq_of_refusal {β : Type} {p : Prop} [Decidable p] {x r : β}
    (h : (if p then none else some x) = some r) : ¬p ∧ x = r := by
  rw [ite_none_left_eq_some, some_inj] at h
  exact h

/-- The shared state, the goroutines over it, and what was observed so
far. -/
structure Conf (σ α ω : Type) where
  shared : σ
  threads : List (List α) := []
  trace : List ω := []

/-- `o` was observed before `o'` first was. -/
def Precedes [DecidableEq ω] (trace : List ω) (o o' : ω) : Prop :=
  o' ∈ trace ∧ o ∈ trace.takeWhile fun x => x ≠ o'
  deriving Decidable

variable {o o' : ω} {l : List ω}

theorem Precedes.mem [DecidableEq ω] {trace : List ω} (h : Precedes trace o o') : o ∈ trace :=
  (List.takeWhile_prefix _).subset h.2

theorem takeWhile_ne_of_not_mem [DecidableEq ω] (h : o ∉ l) : (l.takeWhile fun x => x ≠ o) = l :=
  takeWhile_eq_self_iff.mpr fun _ hx => decide_eq_true (ne_of_mem_of_not_mem hx h)

/-- What comes later does not change the order of what was seen. -/
theorem precedes_append_of_mem [DecidableEq ω] {m : List ω} (h : o' ∈ l) :
    Precedes (l ++ m) o o' ↔ Precedes l o o' := by
  have hstop : ((l ++ m).takeWhile fun x => x ≠ o') = l.takeWhile fun x => x ≠ o' := by
    rw [takeWhile_append, if_neg]
    intro hlen
    have hself := (List.takeWhile_prefix (fun x => decide (x ≠ o'))).eq_of_length hlen
    exact absurd rfl (of_decide_eq_true (takeWhile_eq_self_iff.mp hself o' h))
  simp only [Precedes, hstop, h, mem_append, true_or, true_and]

/-- What is seen first in `m` comes after all of `l`. -/
theorem precedes_append_of_not_mem [DecidableEq ω] {m : List ω} (h : o' ∉ l) :
    Precedes (l ++ m) o o' ↔ (o' ∈ m ∧ o ∈ l) ∨ Precedes m o o' := by
  have hall := takeWhile_ne_of_not_mem h
  have hgo : ((l ++ m).takeWhile fun x => x ≠ o') = l ++ m.takeWhile fun x => x ≠ o' := by
    rw [takeWhile_append, if_pos (by rw [hall])]
  simp only [Precedes, hgo, mem_append, h, false_or]
  tauto

/-- A step is a goroutine starting or a goroutine taking its next action. -/
inductive Event (ι α : Type)
  | start (a : α)
  | run (i : ℕ) (input : ι)

namespace Conf

/-- The pending actions of all goroutines. -/
def actions (c : Conf σ α ω) : Multiset α := (c.threads.flatten : List α)

/-- The next action of a goroutine. -/
def head (c : Conf σ α ω) (i : ℕ) : Option α := (c.threads[i]?).bind List.head?

theorem filterMap_cons_toList {β : Type} (f : α → Option β) (a : α) (rest : Multiset α) :
    (a ::ₘ rest).filterMap f = ((f a).toList : List β) + rest.filterMap f := by
  cases h : f a with
  | none => simp [filterMap_cons_none a rest h]
  | some t => simp [filterMap_cons_some f a rest h]

theorem head_eq_some_iff {c : Conf σ α ω} {i : ℕ} {a : α} :
    c.head i = some a ↔ ∃ rest, c.threads[i]? = some (a :: rest) := by
  rw [head, bind_eq_some_iff]
  constructor
  · rintro ⟨l, hl, ha⟩
    obtain ⟨rest, rfl⟩ := head?_eq_some_iff.mp ha
    exact ⟨rest, hl⟩
  · rintro ⟨rest, hl⟩
    exact ⟨a :: rest, hl, rfl⟩

theorem mem_actions_of_head {c : Conf σ α ω} {i : ℕ} {a : α} (h : c.head i = some a) :
    a ∈ c.actions := by
  obtain ⟨l, hl, ha⟩ := bind_eq_some_iff.mp h
  exact mem_coe.mpr
    (mem_flatten.mpr ⟨l, mem_of_getElem? hl, mem_of_head? ha⟩)

end Conf

namespace Program

variable (P : Program σ ι α ω)

/-- One step of the interleaving. -/
def step (c : Conf σ α ω) : Event ι α → Option (Conf σ α ω)
  | .start a => if P.entry a then some ⟨c.shared, c.threads ++ [[a]], c.trace⟩ else none
  | .run i input =>
    match c.threads[i]? with
    | some (a :: rest) =>
      (P.exec c.shared input a).map fun r =>
        ⟨r.state, c.threads.set i (r.next ++ rest), c.trace ++ r.seen⟩
    | _ => none

/-- The configurations a run from `c₀` visits when each of its steps meets
`ok`. -/
inductive Reaches (ok : Conf σ α ω → Event ι α → Prop) (c₀ : Conf σ α ω) : Conf σ α ω → Prop
  | start : Reaches ok c₀ c₀
  | step {c c' : Conf σ α ω} {e : Event ι α} :
      Reaches ok c₀ c → ok c e → P.step c e = some c' → Reaches ok c₀ c'

/-- Some goroutine shows `o` with its next action. -/
def Shows (c : Conf σ α ω) (o : ω) : Prop :=
  ∃ i input a r, c.head i = some a ∧ P.exec c.shared input a = some r ∧ o ∈ r.seen

/-- Every step is admitted. -/
def Anything : Conf σ α ω → Event ι α → Prop := fun _ _ => True

/-- Every action that is taken meets a condition. -/
def When (ok : Conf σ α ω → ι → α → Prop) (c : Conf σ α ω) : Event ι α → Prop
  | .start _ => True
  | .run i input => ∀ a ∈ c.head i, ok c input a

/-- A goroutine does not move. -/
def Others (i : ℕ) (_ : Conf σ α ω) (e : Event ι α) : Prop := ∀ input, e ≠ .run i input

/-- Two conditions at once. -/
def Both (p q : Conf σ α ω → ι → α → Prop) (c : Conf σ α ω) (input : ι) (a : α) : Prop :=
  p c input a ∧ q c input a

instance {p q : Conf σ α ω → ι → α → Prop} [∀ c i a, Decidable (p c i a)]
    [∀ c i a, Decidable (q c i a)] (c : Conf σ α ω) (input : ι) (a : α) :
    Decidable (Both p q c input a) :=
  inferInstanceAs (Decidable (_ ∧ _))

variable {c c' c₀ : Conf σ α ω} {e : Event ι α} {i : ℕ} {input : ι} {a : α} {stack : List α}
  {ok : Conf σ α ω → Event ι α → Prop}

theorem When.imp {p q : Conf σ α ω → ι → α → Prop} (himp : ∀ c i a, p c i a → q c i a)
    (h : When p c e) : When q c e := by
  cases e with
  | start a => trivial
  | run i input => exact fun a ha => himp c input a (h a ha)

instance {ok : Conf σ α ω → ι → α → Prop} [∀ c i a, Decidable (ok c i a)] (c : Conf σ α ω) :
    (e : Event ι α) → Decidable (When ok c e)
  | .start _ => .isTrue trivial
  | .run i input => inferInstanceAs (Decidable (∀ a ∈ c.head i, ok c input a))

/-- A step that starts a goroutine: the shared state is left alone. -/
structure Started (c : Conf σ α ω) (a : α) (c' : Conf σ α ω) : Prop where
  entry : P.entry a = true
  shared : c'.shared = c.shared
  actions : c'.actions = a ::ₘ c.actions
  trace : c'.trace = c.trace

/-- A step in which a goroutine takes its next action and puts its successors in its place;
`rest` is pending before and after. -/
structure Ran (c : Conf σ α ω) (i : ℕ) (input : ι) (a : α) (r : Effect σ α ω)
    (rest : Multiset α) (c' : Conf σ α ω) : Prop where
  head : c.head i = some a
  exec : P.exec c.shared input a = some r
  before : c.actions = a ::ₘ rest
  shared : c'.shared = r.state
  actions : c'.actions = (r.next : Multiset α) + rest
  trace : c'.trace = c.trace ++ r.seen

variable {P}

/-- **What a step does.** -/
theorem step_cases (h : P.step c e = some c') :
    (∃ a, e = .start a ∧ P.Started c a c') ∨
      ∃ i input a r rest, e = .run i input ∧ P.Ran c i input a r rest c' := by
  cases e with
  | start a =>
    simp only [step] at h
    obtain ⟨ha, ⟨⟩⟩ := ite_none_right_eq_some.mp h
    refine .inl ⟨a, rfl, ha, rfl, ?_, rfl⟩
    simp only [Conf.actions, flatten_append, flatten_cons, flatten_nil,
      append_nil, cons_coe, coe_eq_coe]
    exact perm_append_comm
  | run i input =>
    simp only [step] at h
    split at h
    · rename_i a rest hi
      obtain ⟨r, hr, rfl⟩ := map_eq_some_iff.mp h
      obtain ⟨hlt, hget⟩ := List.getElem?_eq_some_iff.mp hi
      refine .inr ⟨i, input, a, r,
        (rest ++ (c.threads.eraseIdx i).flatten : List α), rfl, by simp [Conf.head, hi],
        hr, ?_, rfl, ?_, rfl⟩
      · have hp := (getElem_cons_eraseIdx_perm hlt).flatten
        rw [hget] at hp
        simp only [Conf.actions, cons_coe, coe_eq_coe]
        exact hp.symm
      · rw [Conf.actions, set_eq_take_append_cons_drop, if_pos hlt,
          eraseIdx_eq_take_drop_succ]
        simp only [coe_add, coe_eq_coe, flatten_append,
          flatten_cons, append_assoc]
        refine perm_append_comm.trans ?_
        simp only [append_assoc]
        exact (perm_append_comm.append_left _).append_left _
    · cases h

section Pending

variable {b : α} {r : Effect σ α ω} {rest : Multiset α}

theorem Started.cases (h : P.Started c a c') (hb : b ∈ c'.actions) : b = a ∨ b ∈ c.actions :=
  mem_cons.mp (h.actions ▸ hb)

theorem Started.keeps (h : P.Started c a c') (hb : b ∈ c.actions) : b ∈ c'.actions :=
  h.actions ▸ mem_cons_of_mem hb

theorem Ran.mem (h : P.Ran c i input a r rest c') : a ∈ c.actions :=
  h.before ▸ mem_cons_self a rest

theorem Ran.pending (h : P.Ran c i input a r rest c') (hb : b ∈ rest) : b ∈ c.actions :=
  h.before ▸ mem_cons_of_mem hb

theorem Ran.cases (h : P.Ran c i input a r rest c') (hb : b ∈ c'.actions) :
    b ∈ r.next ∨ b ∈ rest :=
  (mem_add.mp (h.actions ▸ hb)).imp_left mem_coe.mp

theorem Ran.next (h : P.Ran c i input a r rest c') (hb : b ∈ r.next) : b ∈ c'.actions :=
  h.actions ▸ mem_add.mpr (.inl (mem_coe.mpr hb))

/-- An action that is not taken stays. -/
theorem Ran.keeps (h : P.Ran c i input a r rest c') (hb : b ∈ c.actions) (hne : b ≠ a) :
    b ∈ c'.actions := by
  rcases mem_cons.mp (h.before ▸ hb) with hba | hb
  · exact absurd hba hne
  · exact h.actions ▸ mem_add.mpr (.inr hb)

/-- What a goroutine did is what its next action does. -/
theorem ran_of_head (h : P.step c (.run i input) = some c') (hhead : c.head i = some a) :
    ∃ r rest, P.Ran c i input a r rest c' := by
  rcases step_cases h with ⟨b, he, -⟩ | ⟨j, input', b, r, rest, he, hran⟩
  · cases he
  · obtain ⟨rfl, rfl⟩ := Event.run.inj he
    obtain rfl := some.inj (hhead.symm.trans hran.head)
    exact ⟨r, rest, hran⟩

/-- What is in the trace after a step was there before, or is shown by the action that was
taken. -/
theorem mem_trace_of_step {o : ω} (h : P.step c e = some c') (ho : o ∈ c'.trace) :
    o ∈ c.trace ∨ ∃ i input a r rest, e = .run i input ∧ P.Ran c i input a r rest c' ∧
      o ∈ r.seen := by
  rcases step_cases h with ⟨a, -, hst⟩ | ⟨i, input, a, r, rest, he, hran⟩
  · exact .inl (hst.trace ▸ ho)
  · rw [hran.trace] at ho
    exact (mem_append.mp ho).imp_right fun ho => ⟨i, input, a, r, rest, he, hran, ho⟩

/-- **What holds of every pending action** after a step: of those that were pending, of an
entry, and of what the action that was taken puts in its place. -/
theorem forall_of_step {p : α → Prop} (h : P.step c e = some c') (hold : ∀ b ∈ c.actions, p b)
    (hentry : ∀ b, P.entry b = true → p b)
    (hnext : ∀ i input a r rest, e = .run i input → P.Ran c i input a r rest c' →
      ∀ b ∈ r.next, p b) : ∀ b ∈ c'.actions, p b := by
  intro b hb
  rcases step_cases h with ⟨a, -, hst⟩ | ⟨i, input, a, r, rest, he, hran⟩
  · rcases hst.cases hb with rfl | hb
    · exact hentry b hst.entry
    · exact hold b hb
  · rcases hran.cases hb with hb | hb
    · exact hnext i input a r rest he hran b hb
    · exact hold b (hran.pending hb)

end Pending

/-- A goroutine takes its next action. -/
theorem step_run {rest : List α} {r : Effect σ α ω} (hi : c.threads[i]? = some (a :: rest))
    (hexec : P.exec c.shared input a = some r) : P.step c (.run i input) =
      some ⟨r.state, c.threads.set i (r.next ++ rest), c.trace ++ r.seen⟩ := by
  simp only [step, hi, hexec, map_some]

/-- What it was that a goroutine did. -/
theorem step_run_cases {rest : List α} (hi : c.threads[i]? = some (a :: rest))
    (h : P.step c (.run i input) = some c') :
    ∃ r, P.exec c.shared input a = some r ∧ c'.shared = r.state ∧
      c'.threads[i]? = some (r.next ++ rest) ∧ c'.trace = c.trace ++ r.seen := by
  simp only [step, hi] at h
  obtain ⟨r, hr, rfl⟩ := map_eq_some_iff.mp h
  have hlt := (List.getElem?_eq_some_iff.mp hi).1
  exact ⟨r, hr, rfl, by simp [hlt], rfl⟩

/-- The others leave a goroutine where it is. -/
theorem thread_of_step (h : P.step c e = some c') (he : ∀ input, e ≠ .run i input)
    (hi : c.threads[i]? = some stack) : c'.threads[i]? = some stack := by
  have hlt := (List.getElem?_eq_some_iff.mp hi).1
  cases e with
  | start a =>
    simp only [step] at h
    obtain ⟨-, ⟨⟩⟩ := ite_none_right_eq_some.mp h
    exact (getElem?_append_left hlt).trans hi
  | run j input =>
    have hne : j ≠ i := fun hj => he input (by rw [hj])
    simp only [step] at h
    split at h
    · obtain ⟨r, -, rfl⟩ := map_eq_some_iff.mp h
      exact (getElem?_set_ne hne).trans hi
    · cases h

/-- **Where the pending actions of a goroutine come from.** -/
theorem stack_of_step (h : P.step c e = some c') (hi : c'.threads[i]? = some stack) :
    (c.threads[i]? = some stack ∧ ∀ input, e ≠ .run i input) ∨
    (∃ a, e = .start a ∧ P.entry a = true ∧ i = c.threads.length ∧ stack = [a]) ∨
    ∃ input a r rest, e = .run i input ∧ c.threads[i]? = some (a :: rest) ∧
      P.exec c.shared input a = some r ∧ stack = r.next ++ rest := by
  cases e with
  | start a =>
    simp only [step] at h
    obtain ⟨ha, ⟨⟩⟩ := ite_none_right_eq_some.mp h
    by_cases hlt : i < c.threads.length
    · rw [getElem?_append_left hlt] at hi
      exact .inl ⟨hi, fun _ he => by cases he⟩
    · have hrange := (List.getElem?_eq_some_iff.mp hi).1
      simp only [length_append, length_singleton] at hrange
      obtain rfl : i = c.threads.length := by omega
      rw [getElem?_concat_length] at hi
      exact .inr (.inl ⟨a, rfl, ha, rfl, (some.inj hi).symm⟩)
  | run j input =>
    simp only [step] at h
    split at h
    · rename_i a rest hj
      obtain ⟨r, hr, rfl⟩ := map_eq_some_iff.mp h
      by_cases hji : j = i
      · subst hji
        have hlt := (List.getElem?_eq_some_iff.mp hj).1
        have hset : (c.threads.set j (r.next ++ rest))[j]? = some (r.next ++ rest) := by
          simp [hlt]
        exact .inr (.inr
          ⟨input, a, r, rest, rfl, hj, hr, some.inj (hi.symm.trans hset)⟩)
      · rw [getElem?_set_ne hji] at hi
        exact .inl ⟨hi, fun _ he => hji (Event.run.inj he).1⟩
    · cases h

/-- No goroutine is forgotten. -/
theorem length_of_step (h : P.step c e = some c') : c.threads.length ≤ c'.threads.length := by
  cases e with
  | start a =>
    simp only [step] at h
    obtain ⟨-, ⟨⟩⟩ := ite_none_right_eq_some.mp h
    simp
  | run j input =>
    simp only [step] at h
    split at h
    · obtain ⟨r, -, rfl⟩ := map_eq_some_iff.mp h
      simp
    · cases h

/-- What was observed stays observed. -/
theorem trace_of_step (h : P.step c e = some c') : c.trace <+: c'.trace := by
  rcases step_cases h with ⟨a, -, hst⟩ | ⟨i, input, a, r, rest, -, hran⟩
  · exact hst.trace ▸ prefix_refl _
  · exact hran.trace ▸ prefix_append _ _

/-- What an action shows is in the trace after its step. -/
theorem seen_of_step {r : Effect σ α ω} (h : P.step c (.run i input) = some c')
    (hhead : c.head i = some a) (hexec : P.exec c.shared input a = some r) :
    c'.trace = c.trace ++ r.seen := by
  obtain ⟨r', rest, hran⟩ := ran_of_head h hhead
  obtain rfl := some.inj (hexec.symm.trans hran.exec)
  exact hran.trace

/-- **The induction over runs.** -/
theorem Reaches.invariant {I : Conf σ α ω → Prop} (h₀ : I c₀)
    (hstep : ∀ c e c', I c → ok c e → P.step c e = some c' → I c') (h : P.Reaches ok c₀ c) :
    I c := by
  induction h with
  | start => exact h₀
  | step _ hok hs ih => exact hstep _ _ _ ih hok hs

/-- What comes with an observation in every action comes with it in every
run; `q o seen` says that it is among `seen`. -/
theorem Reaches.linked {q : ω → List ω → Prop} (hmono : ∀ o l l', l ⊆ l' → q o l → q o l')
    (h₀ : c₀.trace = []) (hexec : ∀ s i a r, P.exec s i a = some r → ∀ o ∈ r.seen, q o r.seen)
    (h : P.Reaches ok c₀ c) : ∀ o ∈ c.trace, q o c.trace := by
  refine h.invariant (I := fun c => ∀ o ∈ c.trace, q o c.trace) ?_ ?_
  · simp [h₀]
  · intro c e c' hc _ hs o ho
    rcases step_cases hs with ⟨a, -, hst⟩ | ⟨i, input, a, r, rest, -, hran⟩
    · rw [hst.trace] at ho ⊢
      exact hc o ho
    · rw [hran.trace] at ho ⊢
      rcases mem_append.mp ho with ho | ho
      · exact hmono o _ _ (subset_append_left _ _) (hc o ho)
      · exact hmono o _ _ (subset_append_right _ _) (hexec _ input a r hran.exec o ho)

/-- What every action only shows, every run only shows. -/
theorem Reaches.forall_trace {p : ω → Prop} (h₀ : c₀.trace = [])
    (hexec : ∀ s i a r, P.exec s i a = some r → ∀ o ∈ r.seen, p o) (h : P.Reaches ok c₀ c) :
    ∀ o ∈ c.trace, p o :=
  h.linked (q := fun o _ => p o) (fun _ _ _ _ h => h) h₀ hexec

/-- A goroutine that does not move stays where it is. -/
theorem Reaches.thread (h : P.Reaches (Others i) c c') (hi : c.threads[i]? = some stack) :
    c'.threads[i]? = some stack :=
  h.invariant (I := fun c => c.threads[i]? = some stack) hi fun _ _ _ hc hok hs =>
    thread_of_step hs hok hc

/-- A goroutine keeps to a kind of actions that lead only to each other. -/
theorem Reaches.keeps {p : α → Prop}
    (hnext : ∀ s input a r, p a → P.exec s input a = some r → ∀ b ∈ r.next, p b)
    (h : P.Reaches ok c c') (hi : c.threads[i]? = some stack) (hp : ∀ a ∈ stack, p a) :
    ∃ stack', c'.threads[i]? = some stack' ∧ ∀ a ∈ stack', p a := by
  refine h.invariant (I := fun c => ∃ stack, c.threads[i]? = some stack ∧ ∀ a ∈ stack, p a)
    ⟨stack, hi, hp⟩ ?_
  rintro c e c' ⟨stack, hi, hp⟩ - hs
  by_cases he : ∃ input, e = .run i input
  · obtain ⟨input, rfl⟩ := he
    cases stack with
    | nil => simp [Program.step, hi] at hs
    | cons a rest =>
      obtain ⟨r, hexec, -, hi', -⟩ := step_run_cases hi hs
      refine ⟨_, hi', fun b hb => ?_⟩
      rcases mem_append.mp hb with hb | hb
      · exact hnext _ _ _ _ (hp a mem_cons_self) hexec b hb
      · exact hp b (mem_cons_of_mem _ hb)
  · exact ⟨stack, thread_of_step hs (not_exists.mp he) hi, hp⟩

/-- A run goes on. -/
theorem Reaches.trans (h : P.Reaches ok c₀ c) (h' : P.Reaches ok c c') : P.Reaches ok c₀ c' := by
  induction h' with
  | start => exact h
  | step _ hok hs ih => exact .step ih hok hs

/-- A weaker condition admits every run a stronger one does. -/
theorem Reaches.mono {ok' : Conf σ α ω → Event ι α → Prop} (himp : ∀ c e, ok c e → ok' c e)
    (h : P.Reaches ok c₀ c) : P.Reaches ok' c₀ c := by
  induction h with
  | start => exact .start
  | step _ hok hs ih => exact .step ih (himp _ _ hok) hs

variable (P)

/-- Execute a schedule, checking each step against a condition. -/
def runs (ok : Conf σ α ω → Event ι α → Prop) [∀ c e, Decidable (ok c e)] :
    Conf σ α ω → List (Event ι α) → Option (Conf σ α ω)
  | c, [] => some c
  | c, e :: es => if ok c e then (P.step c e).bind fun c' => runs ok c' es else none

variable {P}

theorem reaches_of_runs [∀ c e, Decidable (ok c e)] {es : List (Event ι α)} (h : P.Reaches ok c₀ c)
    (hr : P.runs ok c es = some c') : P.Reaches ok c₀ c' := by
  induction es generalizing c with
  | nil => exact some.inj hr ▸ h
  | cons e es ih =>
    rw [runs] at hr
    split at hr
    · rename_i hok
      obtain ⟨d, hd, hes⟩ := bind_eq_some_iff.mp hr
      exact ih (.step h hok hd) hes
    · cases hr

variable (P) in
/-- Where a schedule leads. -/
def outcome (ok : Conf σ α ω → Event ι α → Prop) [∀ c e, Decidable (ok c e)] (c : Conf σ α ω)
    (es : List (Event ι α)) : Conf σ α ω :=
  (P.runs ok c es).getD c

variable (P) in
theorem reaches_outcome (ok : Conf σ α ω → Event ι α → Prop) [∀ c e, Decidable (ok c e)]
    (c : Conf σ α ω) (es : List (Event ι α)) (h : (P.runs ok c es).isSome = true) :
    P.Reaches ok c (P.outcome ok c es) := by
  obtain ⟨c', hc'⟩ := isSome_iff_exists.mp h
  refine reaches_of_runs .start (hc'.trans ?_)
  rw [outcome, hc', getD_some]

/-- A schedule shows that something is reached. -/
theorem exists_reached {ok : Conf σ α ω → Event ι α → Prop} [∀ c e, Decidable (ok c e)]
    {Q : Conf σ α ω → Prop} (es : List (Event ι α)) (h : (P.runs ok c es).isSome = true)
    (hQ : P.Reaches ok c (P.outcome ok c es) → Q (P.outcome ok c es)) :
    ∃ c', P.Reaches ok c c' ∧ Q c' :=
  ⟨_, P.reaches_outcome ok c es h, hQ (P.reaches_outcome ok c es h)⟩

variable (P) in
theorem shows_of_head [DecidableEq ω] {o : ω} (i : ℕ) (input : ι)
    (h : ((c.head i).bind (P.exec c.shared input)).any (fun r => o ∈ r.seen) = true) :
    P.Shows c o := by
  obtain ⟨r, hr, ho⟩ := (any_eq_true _ _).mp h
  obtain ⟨a, ha, hexec⟩ := bind_eq_some_iff.mp hr
  exact ⟨i, input, a, r, ha, hexec, of_decide_eq_true ho⟩

instance (c : Conf σ α ω) (e : Event ι α) : Decidable (Anything c e) := .isTrue trivial

variable (P) in
/-- A schedule of one step leads where the step does. -/
theorem step_outcome (c : Conf σ α ω) (e : Event ι α) (h : (P.step c e).isSome = true) :
    P.step c e = some (P.outcome Anything c [e]) := by
  obtain ⟨c', hc'⟩ := isSome_iff_exists.mp h
  have htrue : Anything c e := trivial
  rw [outcome, runs, if_pos htrue, hc']
  rfl

/-! ## Runs with a record beside them -/

section Record

variable {τ : Type} {note : τ → Conf σ α ω → Event ι α → Conf σ α ω → τ}
variable {ok : Conf σ α ω → Event ι α → Prop} {c₀ c : Conf σ α ω} {t₀ t : τ}

variable (P note) in
/-- The configurations a run visits, with a record that is kept of it: `note`
says what a step makes of the record. -/
inductive Tracks (ok : Conf σ α ω → Event ι α → Prop) (c₀ : Conf σ α ω) (t₀ : τ) :
    Conf σ α ω → τ → Prop
  | start : Tracks ok c₀ t₀ c₀ t₀
  | step {c c' : Conf σ α ω} {t : τ} {e : Event ι α} :
      Tracks ok c₀ t₀ c t → ok c e → P.step c e = some c' → Tracks ok c₀ t₀ c' (note t c e c')

/-- The record is no part of the run. -/
theorem Tracks.reaches (h : P.Tracks note ok c₀ t₀ c t) : P.Reaches ok c₀ c := by
  induction h with
  | start => exact .start
  | step _ hok hs ih => exact .step ih hok hs

variable (P note) in
/-- Execute a schedule and keep the record. -/
def recorded (ok : Conf σ α ω → Event ι α → Prop) [∀ c e, Decidable (ok c e)] :
    Conf σ α ω → τ → List (Event ι α) → Option (Conf σ α ω × τ)
  | c, t, [] => some (c, t)
  | c, t, e :: es =>
    if ok c e then (P.step c e).bind fun c' => recorded ok c' (note t c e c') es else none

theorem tracks_of_recorded [∀ c e, Decidable (ok c e)] {es : List (Event ι α)}
    {d : Conf σ α ω × τ} (h : P.Tracks note ok c₀ t₀ c t)
    (hr : P.recorded note ok c t es = some d) : P.Tracks note ok c₀ t₀ d.1 d.2 := by
  induction es generalizing c t with
  | nil => exact some.inj hr ▸ h
  | cons e es ih =>
    rw [recorded] at hr
    split at hr
    · rename_i hok
      obtain ⟨c', hc', hes⟩ := bind_eq_some_iff.mp hr
      exact ih (.step h hok hc') hes
    · cases hr

variable (P note) in
/-- Where a schedule leads, and what is on record then. -/
def account (ok : Conf σ α ω → Event ι α → Prop) [∀ c e, Decidable (ok c e)] (c : Conf σ α ω)
    (t : τ) (es : List (Event ι α)) : Conf σ α ω × τ :=
  (P.recorded note ok c t es).getD (c, t)

theorem tracks_account [∀ c e, Decidable (ok c e)] {es : List (Event ι α)}
    (h : (P.recorded note ok c t es).isSome = true) :
    P.Tracks note ok c t (P.account note ok c t es).1 (P.account note ok c t es).2 := by
  obtain ⟨d, hd⟩ := isSome_iff_exists.mp h
  refine tracks_of_recorded .start (hd.trans ?_)
  rw [account, hd, getD_some]

end Record

/-! ## Restarts -/

variable (P) in
/-- The configurations of a run in which the process may also be restarted,
each time in a configuration that meets `ok`: its goroutines are gone and the
shared state is what `reset` makes of it. -/
inductive Lives (reset : σ → σ) (ok : Conf σ α ω → Prop) (c₀ : Conf σ α ω) : Conf σ α ω → Prop
  | start : Lives reset ok c₀ c₀
  | step {c c' : Conf σ α ω} {e : Event ι α} :
      Lives reset ok c₀ c → P.step c e = some c' → Lives reset ok c₀ c'
  | restart {c : Conf σ α ω} :
      Lives reset ok c₀ c → ok c → Lives reset ok c₀ ⟨reset c.shared, [], c.trace⟩

/-- The induction over runs with restarts. -/
theorem Lives.invariant {reset : σ → σ} {ok : Conf σ α ω → Prop} {I : Conf σ α ω → Prop} (h₀ : I c₀)
    (hstep : ∀ c e c', I c → P.step c e = some c' → I c')
    (hrestart : ∀ c, I c → ok c → I ⟨reset c.shared, [], c.trace⟩) (h : P.Lives reset ok c₀ c) :
    I c := by
  induction h with
  | start => exact h₀
  | step _ hs ih => exact hstep _ _ _ ih hs
  | restart _ hok ih => exact hrestart _ ih hok

/-- A run goes on after a restart. -/
theorem Lives.run {reset : σ → σ} {ok : Conf σ α ω → Prop} {cond : Conf σ α ω → Event ι α → Prop}
    (h : P.Lives reset ok c₀ c) (hr : P.Reaches cond c c') : P.Lives reset ok c₀ c' := by
  induction hr with
  | start => exact h
  | step _ _ hs ih => exact ih.step hs

/-! ## A goroutine on its own -/

/-- A goroutine runs its actions to the end while no other does anything: the
actions with what the environment contributes to each, the state it leaves and
what was observed. -/
inductive Alone (P : Program σ ι α ω) : σ → List α → List (α × ι) → σ → List ω → Prop
  | done {s : σ} : Alone P s [] [] s []
  | step {s s' : σ} {a : α} {input : ι} {r : Effect σ α ω} {rest : List α}
      {trail : List (α × ι)} {seen : List ω} : P.exec s input a = some r →
      Alone P r.state (r.next ++ rest) trail s' seen →
      Alone P s (a :: rest) ((a, input) :: trail) s' (r.seen ++ seen)

variable (P) in
/-- Run a goroutine on its own on the given inputs. -/
def alone : List ι → σ → List α → Option (List (α × ι) × σ × List ω)
  | [], s, [] => some ([], s, [])
  | input :: inputs, s, a :: rest =>
    (P.exec s input a).bind fun r => (alone inputs r.state (r.next ++ rest)).map fun x =>
      ((a, input) :: x.1, x.2.1, r.seen ++ x.2.2)
  | _, _, _ => none

theorem alone_sound {inputs : List ι} {s : σ} {x : List (α × ι) × σ × List ω}
    (h : P.alone inputs s stack = some x) : P.Alone s stack x.1 x.2.1 x.2.2 := by
  induction inputs generalizing s stack x with
  | nil =>
    cases stack with
    | nil =>
      cases h
      exact .done
    | cons a rest => cases h
  | cons input inputs ih =>
    cases stack with
    | nil => cases h
    | cons a rest =>
      obtain ⟨r, hexec, hrest⟩ := bind_eq_some_iff.mp h
      obtain ⟨y, hy, rfl⟩ := map_eq_some_iff.mp hrest
      exact .step hexec (ih hy)

end Program

end SmscGateway
