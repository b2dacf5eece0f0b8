import SmscGateway.Common.Goroutine
import SmscGateway.Common.Lifecycle

/-!
# Who holds a token

A program keeps the tokens of a lifecycle in three places: in its shared
state, in the actions its goroutines still have to perform, and, once a
token's life is over, in what an observer has seen. A `Custody` says how to
find them. The tokens of a configuration then change as one action changes
them, with everything else left where it was: `Custody.step_cases` cuts a
step down to the effect of its action (`before` and `after`), and what is
left to show for each action is that it lets one token enter or lets tokens
move on (`Enters`, `Shifts`).
-/

namespace SmscGateway

open Multiset

variable {σ ι α ω Id Phase Label : Type}

/-- Where a program keeps the tokens of a lifecycle, and which observation
writes which label. -/
structure Custody (σ α ω Id Phase Label : Type) where
  stored : σ → Multiset (Id × Phase)
  holds : α → Option (Id × Phase)
  ends : ω → Option (Id × Phase)
  labelOf : ω → Option (Id × Label)

namespace Custody

variable (V : Custody σ α ω Id Phase Label)

/-- The tokens of a configuration and their history. -/
def track (c : Conf σ α ω) : Track Id Phase Label where
  tokens := V.stored c.shared + c.actions.filterMap V.holds + (c.trace.filterMap V.ends : List _)
  log := c.trace.filterMap V.labelOf

/-- The tokens before an action, with those it does not touch. -/
def before (s : σ) (a : α) (rest : Multiset (Id × Phase)) : Multiset (Id × Phase) :=
  V.stored s + ((V.holds a).toList : List _) + rest

/-- The tokens after it. -/
def after (r : Effect σ α ω) (rest : Multiset (Id × Phase)) : Multiset (Id × Phase) :=
  V.stored r.state + (r.next.filterMap V.holds : List _) + (r.seen.filterMap V.ends : List _) + rest

variable {V}

theorem before_of_holds {s : σ} {a : α} {t : Id × Phase} (h : V.holds a = some t)
    (rest : Multiset (Id × Phase)) : V.before s a rest = t ::ₘ (V.stored s + rest) := by
  simp only [before, h, Option.toList_some, coe_singleton, ← singleton_add]
  abel

theorem before_of_none {s : σ} {a : α} (h : V.holds a = none) (rest : Multiset (Id × Phase)) :
    V.before s a rest = V.stored s + rest := by
  simp only [before, h, Option.toList_none, coe_nil, add_zero]

/-- What an effect passes on and what it ends, taken together. -/
theorem after_eq (r : Effect σ α ω) (rest : Multiset (Id × Phase)) :
    V.after r rest =
      V.stored r.state + (r.next.filterMap V.holds ++ r.seen.filterMap V.ends : List _) + rest := by
  rw [after, add_assoc (V.stored r.state), coe_add]

/-- **A step is the effect of its action.** A goroutine that starts holds no
token; an action that is taken changes its own part of the tokens and adds
its labels. -/
theorem step_cases {P : Program σ ι α ω} (hentry : ∀ a, P.entry a = true → V.holds a = none)
    {c c' : Conf σ α ω} {e : Event ι α} (h : P.step c e = some c') :
    ((∃ a, e = .start a) ∧ c'.shared = c.shared ∧ c'.trace = c.trace ∧
      V.track c' = V.track c) ∨
    (∃ j input a r others, e = .run j input ∧ c.head j = some a ∧
      P.exec c.shared input a = some r ∧ c'.shared = r.state ∧ c'.trace = c.trace ++ r.seen ∧
      V.track c = ⟨V.before c.shared a others, c.trace.filterMap V.labelOf⟩ ∧
      V.track c' = ⟨V.after r others,
        c.trace.filterMap V.labelOf ++ r.seen.filterMap V.labelOf⟩) := by
  rcases Program.step_cases h with ⟨a, he, ha, hs, hact, htr⟩ |
    ⟨j, input, a, r, rest, he, hhead, hexec, hact, hs, hact', htr⟩
  · refine Or.inl ⟨⟨a, he⟩, hs, htr, ?_⟩
    simp only [track, hs, hact, htr, filterMap_cons_none a _ (hentry a ha)]
  · refine Or.inr ⟨j, input, a, r,
      rest.filterMap V.holds + (c.trace.filterMap V.ends : List (Id × Phase)), he, hhead, hexec,
      hs, htr, ?_, ?_⟩
    · rw [track, hact, Conf.filterMap_cons_toList, before]
      congr 1
      abel
    · rw [track, hs, hact', htr, filterMap_add, filterMap_coe,
        List.filterMap_append, List.filterMap_append, ← coe_add, after]
      congr 1
      abel

variable (V) in
/-- The action moves tokens on, and its labels say how. -/
def Shifts (R : Lifecycle Phase Label) (s : σ) (a : α) (r : Effect σ α ω) : Prop :=
  ∀ rest log, R.Advances ⟨V.before s a rest, log⟩
    ⟨V.after r rest, log ++ r.seen.filterMap V.labelOf⟩

variable (V) in
/-- The action lets a new token enter. -/
def Enters (R : Lifecycle Phase Label) (s : σ) (a : α) (r : Effect σ α ω) (i : Id) : Prop :=
  ∃ l φ, R.enter l φ ∧ r.seen.filterMap V.labelOf = [(i, l)] ∧
    ∀ rest, V.after r rest = (i, φ) ::ₘ V.before s a rest

variable {R : Lifecycle Phase Label} {s : σ} {r : Effect σ α ω}

/-- The tokens are where they were. -/
theorem shifts_of_same (a : α) (htok : ∀ rest, V.after r rest = V.before s a rest)
    (hlab : r.seen.filterMap V.labelOf = []) : V.Shifts R s a r := by
  intro rest log
  rw [htok, hlab, List.append_nil]
  exact .refl

/-- One token moves on; `others` is what stays in the shared state. -/
theorem shifts_of_move (a : α) {i : Id} {φ ψ : Phase} {l : Label}
    (others : Multiset (Id × Phase))
    (hbefore : ∀ rest, V.before s a rest = (i, φ) ::ₘ (others + rest))
    (hafter : ∀ rest, V.after r rest = (i, ψ) ::ₘ (others + rest))
    (hlab : r.seen.filterMap V.labelOf = [(i, l)]) (hl : R.next φ l ψ) : V.Shifts R s a r := by
  intro rest log
  rw [hafter, hlab]
  exact .single (.mk (hbefore rest) hl)

/-- The action holds a token, and passes it on or ends it; the shared tokens
stay. -/
theorem shifts_of_holds (a : α) {i : Id} {φ ψ : Phase} {l : Label}
    (ha : V.holds a = some (i, φ)) (hstored : V.stored r.state = V.stored s)
    (hψ : r.next.filterMap V.holds ++ r.seen.filterMap V.ends = [(i, ψ)])
    (hlab : r.seen.filterMap V.labelOf = [(i, l)]) (hl : R.next φ l ψ) : V.Shifts R s a r := by
  refine shifts_of_move a (V.stored s) (before_of_holds ha) (fun rest => ?_) hlab hl
  rw [after_eq, hψ, hstored, coe_singleton, ← singleton_add]
  abel

/-- The action holds a token and passes it on as it is. -/
theorem shifts_of_passes (a : α) {t : Id × Phase} (ha : V.holds a = some t)
    (hstored : V.stored r.state = V.stored s) (hnext : r.next.filterMap V.holds = [t])
    (hends : r.seen.filterMap V.ends = []) (hlab : r.seen.filterMap V.labelOf = []) :
    V.Shifts R s a r := by
  refine shifts_of_same a (fun rest => ?_) hlab
  rw [before_of_holds ha, after_eq, hnext, hends, hstored, List.append_nil,
    coe_singleton, ← singleton_add]
  abel

/-- The action has nothing to do with tokens. -/
theorem shifts_of_quiet (a : α) (ha : V.holds a = none) (hstored : V.stored r.state = V.stored s)
    (hnext : r.next.filterMap V.holds = []) (hends : r.seen.filterMap V.ends = [])
    (hlab : r.seen.filterMap V.labelOf = []) : V.Shifts R s a r := by
  refine shifts_of_same a (fun rest => ?_) hlab
  rw [before_of_none ha, after_eq, hnext, hends, hstored]
  simp

theorem enters_of_next (a : α) {i : Id} {φ : Phase} {l : Label} (ha : V.holds a = none)
    (hstored : V.stored r.state = V.stored s) (hnext : r.next.filterMap V.holds = [(i, φ)])
    (hends : r.seen.filterMap V.ends = []) (hlab : r.seen.filterMap V.labelOf = [(i, l)])
    (hl : R.enter l φ) : V.Enters R s a r i := by
  refine ⟨l, φ, hl, hlab, fun rest => ?_⟩
  rw [before_of_none ha, after_eq, hnext, hends, hstored, List.append_nil,
    coe_singleton, ← singleton_add]
  abel

section Faithful

variable [DecidableEq Id] {log : List (Id × Label)} {rest : Multiset (Id × Phase)} {a : α}

theorem Shifts.faithful (h : V.Shifts R s a r) (hf : R.Faithful ⟨V.before s a rest, log⟩) :
    R.Faithful ⟨V.after r rest, log ++ r.seen.filterMap V.labelOf⟩ :=
  (h rest log).faithful hf

omit [DecidableEq Id] in
/-- No identity comes or goes. -/
theorem Shifts.map_fst (h : V.Shifts R s a r) (rest : Multiset (Id × Phase)) :
    (V.after r rest).map Prod.fst = (V.before s a rest).map Prod.fst :=
  (h rest []).map_fst

theorem Enters.faithful {i : Id} (h : V.Enters R s a r i)
    (hf : R.Faithful ⟨V.before s a rest, log⟩) (hfresh : ∀ φ, (i, φ) ∉ V.before s a rest) :
    R.Faithful ⟨V.after r rest, log ++ r.seen.filterMap V.labelOf⟩ := by
  obtain ⟨l, φ, hl, hlab, htok⟩ := h
  rw [htok, hlab]
  exact hf.enter hl hfresh

omit [DecidableEq Id] in
/-- One identity comes. -/
theorem Enters.map_fst {i : Id} (h : V.Enters R s a r i) (rest : Multiset (Id × Phase)) :
    (V.after r rest).map Prod.fst = i ::ₘ (V.before s a rest).map Prod.fst := by
  obtain ⟨l, φ, -, -, htok⟩ := h
  rw [htok, map_cons]

omit [DecidableEq Id] in
/-- The token an action holds is not among the shared ones. -/
theorem not_mem_stored {i : Id} {φ : Phase} (ha : V.holds a = some (i, φ))
    (hnd : ((V.before s a rest).map Prod.fst).Nodup) (ψ : Phase) : (i, ψ) ∉ V.stored s := by
  intro hψ
  rw [before_of_holds ha, map_cons, nodup_cons] at hnd
  exact hnd.1 (mem_map.mpr ⟨(i, ψ), mem_add.mpr (Or.inl hψ), rfl⟩)

end Faithful

end Custody

end SmscGateway
