import Mathlib

/-!
# Lifecycles

Things that pass through phases. Each is a token: its identity with the
phase it is in. A token enters once, moves from phase to phase as the rules
allow, and never leaves the bag: the phases it ends in are phases too. Every
move writes a label to a log.

What a system must show is that each of its steps lets a fresh identity
enter or lets tokens move on. Then `Faithful` holds of it: no identity has
two tokens, and the labels written for an identity are a word of the rules
that ends in the token's phase, so what the word says about the past can be
read off the phase.
-/

namespace SmscGateway

open Multiset

variable {Id Phase Label : Type}

/-- The rules of a lifecycle: the phases a thing may enter in and the moves
between phases, each with its label. -/
structure Lifecycle (Phase Label : Type) where
  enter : Label → Phase → Prop
  next : Phase → Label → Phase → Prop

/-- The tokens and the log of a lifecycle in progress. -/
structure Track (Id Phase Label : Type) where
  tokens : Multiset (Id × Phase)
  log : List (Id × Label)

namespace Lifecycle

variable (R : Lifecycle Phase Label)

/-- The words of labels that lead to a phase. -/
inductive Traced : List Label → Phase → Prop
  | enter {l : Label} {φ : Phase} : R.enter l φ → Traced [l] φ
  | next {w : List Label} {φ ψ : Phase} {l : Label} :
      Traced w φ → R.next φ l ψ → Traced (w ++ [l]) ψ

/-- One token moves on. -/
inductive Advance : Track Id Phase Label → Track Id Phase Label → Prop
  | mk {t : Track Id Phase Label} {i : Id} {l : Label} {φ ψ : Phase}
      {rest : Multiset (Id × Phase)} :
      t.tokens = (i, φ) ::ₘ rest → R.next φ l ψ →
      Advance t ⟨(i, ψ) ::ₘ rest, t.log ++ [(i, l)]⟩

/-- Any number of tokens move on, any number of times. -/
def Advances : Track Id Phase Label → Track Id Phase Label → Prop :=
  Relation.ReflTransGen R.Advance

end Lifecycle

/-- The labels a log holds for one identity. -/
def wordOf [DecidableEq Id] (log : List (Id × Label)) (i : Id) : List Label :=
  log.filterMap fun e => if e.1 = i then some e.2 else none

section Words

variable [DecidableEq Id]

@[simp] theorem wordOf_nil (i : Id) : wordOf ([] : List (Id × Label)) i = [] := rfl

@[simp] theorem wordOf_append (log log' : List (Id × Label)) (i : Id) :
    wordOf (log ++ log') i = wordOf log i ++ wordOf log' i := by
  simp [wordOf]

@[simp] theorem wordOf_cons_self (log : List (Id × Label)) (i : Id) (l : Label) :
    wordOf ((i, l) :: log) i = l :: wordOf log i := by
  simp [wordOf]

theorem wordOf_cons_of_ne (log : List (Id × Label)) {i j : Id} (l : Label) (h : j ≠ i) :
    wordOf ((j, l) :: log) i = wordOf log i := by
  simp [wordOf, h]

theorem mem_wordOf {log : List (Id × Label)} {i : Id} {l : Label} :
    l ∈ wordOf log i ↔ (i, l) ∈ log := by
  simp only [wordOf, List.mem_filterMap]
  constructor
  · rintro ⟨⟨j, m⟩, hmem, h⟩
    split at h
    · rename_i hj
      obtain rfl : m = l := Option.some.inj h
      exact hj ▸ hmem
    · cases h
  · intro h
    exact ⟨(i, l), h, by simp⟩

end Words

namespace Lifecycle

variable {R : Lifecycle Phase Label} [DecidableEq Id]

variable (R) in
/-- What is kept: one token for each identity, and a word of labels
that leads to its phase; an identity without a token has no label. -/
structure Faithful (t : Track Id Phase Label) : Prop where
  nodup : (t.tokens.map Prod.fst).Nodup
  traced : ∀ i φ, (i, φ) ∈ t.tokens → R.Traced (wordOf t.log i) φ
  silent : ∀ i, (∀ φ, (i, φ) ∉ t.tokens) → wordOf t.log i = []

theorem faithful_empty : R.Faithful (⟨0, []⟩ : Track Id Phase Label) where
  nodup := by simp
  traced := by simp
  silent := by simp

variable {t t' : Track Id Phase Label} {i : Id} {φ : Phase}

/-- **A fresh identity enters.** -/
theorem Faithful.enter (ht : R.Faithful t) {l : Label} (hl : R.enter l φ)
    (hfresh : ∀ ψ, (i, ψ) ∉ t.tokens) : R.Faithful ⟨(i, φ) ::ₘ t.tokens, t.log ++ [(i, l)]⟩ := by
  refine ⟨?_, ?_, ?_⟩
  · rw [map_cons, nodup_cons]
    refine ⟨?_, ht.nodup⟩
    simp only [mem_map, not_exists, not_and]
    rintro ⟨j, ψ⟩ hmem rfl
    exact hfresh ψ hmem
  · intro j ψ hmem
    rcases mem_cons.mp hmem with h | h
    · obtain ⟨rfl, rfl⟩ := Prod.mk.inj h
      simpa [ht.silent j hfresh] using Traced.enter hl
    · have hne : i ≠ j := by
        rintro rfl
        exact hfresh ψ h
      simpa [wordOf_cons_of_ne _ _ hne] using ht.traced j ψ h
  · intro j hj
    have hne : i ≠ j := by
      rintro rfl
      exact hj φ (mem_cons_self _ _)
    have hold := ht.silent j fun ψ hψ => hj ψ (mem_cons_of_mem hψ)
    simp [wordOf_cons_of_ne _ _ hne, hold]

theorem Advance.faithful (hm : R.Advance t t') (ht : R.Faithful t) : R.Faithful t' := by
  obtain @⟨i, l, φ, ψ, rest, heq, hl⟩ := hm
  have hnd := ht.nodup
  rw [heq, map_cons, nodup_cons] at hnd
  have hother : ∀ χ, (i, χ) ∉ rest := fun χ hχ =>
    hnd.1 (mem_map.mpr ⟨(i, χ), hχ, rfl⟩)
  refine ⟨?_, ?_, ?_⟩
  · rw [map_cons, nodup_cons]
    exact hnd
  · intro j χ hmem
    rcases mem_cons.mp hmem with h | h
    · obtain ⟨rfl, rfl⟩ := Prod.mk.inj h
      have hw := ht.traced j φ (heq ▸ mem_cons_self _ _)
      simpa using hw.next hl
    · have hne : i ≠ j := by
        rintro rfl
        exact hother χ h
      have hw := ht.traced j χ (heq ▸ mem_cons_of_mem h)
      simpa [wordOf_cons_of_ne _ _ hne] using hw
  · intro j hj
    have hne : i ≠ j := by
      rintro rfl
      exact hj ψ (mem_cons_self _ _)
    have hold := ht.silent j fun χ hχ => by
      rw [heq] at hχ
      rcases mem_cons.mp hχ with h | h
      · exact hne (Prod.mk.inj h).1.symm
      · exact hj χ (mem_cons_of_mem h)
    simp [wordOf_cons_of_ne _ _ hne, hold]

/-- **Tokens that move on keep the game faithful.** -/
theorem Advances.faithful (hm : R.Advances t t') (ht : R.Faithful t) : R.Faithful t' := by
  induction hm with
  | refl => exact ht
  | tail _ hlast ih => exact hlast.faithful ih

/-- An identity has at most one token. -/
theorem Faithful.phase_unique (ht : R.Faithful t) {ψ : Phase} (hφ : (i, φ) ∈ t.tokens)
    (hψ : (i, ψ) ∈ t.tokens) : φ = ψ := by
  have h := inj_on_of_nodup_map ht.nodup (i, φ) hφ (i, ψ) hψ rfl
  exact (Prod.mk.inj h).2

/-- The tokens of an identity are a single one. -/
theorem Faithful.filter_eq_singleton (ht : R.Faithful t) (h : (i, φ) ∈ t.tokens) :
    (t.tokens.filter fun x => x.1 = i) = {(i, φ)} := by
  obtain ⟨rest, hrest⟩ := exists_cons_of_mem h
  have hnd := ht.nodup
  rw [hrest, map_cons, nodup_cons] at hnd
  have hnil : (rest.filter fun x => x.1 = i) = 0 := by
    refine filter_eq_nil.mpr fun x hx hi => hnd.1 ?_
    exact mem_map.mpr ⟨x, hx, hi⟩
  have hself : (fun x : Id × Phase => x.1 = i) (i, φ) := rfl
  rw [hrest, filter_cons_of_pos rest hself, hnil]
  rfl

/-- An identity some label was written for has a token. -/
theorem Faithful.exists_of_mem_log (ht : R.Faithful t) {l : Label} (h : (i, l) ∈ t.log) :
    ∃ φ, (i, φ) ∈ t.tokens := by
  by_contra hno
  have hw := ht.silent i fun φ hφ => hno ⟨φ, hφ⟩
  have hl : l ∈ wordOf t.log i := mem_wordOf.mpr h
  rw [hw] at hl
  cases hl

omit [DecidableEq Id] in
/-- No identity comes or goes while tokens move on. -/
theorem Advances.map_fst (hm : R.Advances t t') :
    t'.tokens.map Prod.fst = t.tokens.map Prod.fst := by
  induction hm with
  | refl => rfl
  | tail _ hlast ih =>
    obtain @⟨i, l, φ, ψ, rest, heq, -⟩ := hlast
    rw [← ih, heq, map_cons, map_cons]

omit [DecidableEq Id] in
/-- Several tokens may move on together, one label each. -/
theorem Advances.all {β : Type} (xs : List β) (i : β → Id) (φ ψ : β → Phase) (l : β → Label)
    {rest : Multiset (Id × Phase)}
    (htok : t.tokens = (xs.map fun x => (i x, φ x) : List (Id × Phase)) + rest)
    (hnext : ∀ x ∈ xs, R.next (φ x) (l x) (ψ x)) :
    R.Advances t ⟨(xs.map fun x => (i x, ψ x) : List (Id × Phase)) + rest,
      t.log ++ xs.map fun x => (i x, l x)⟩ := by
  induction xs generalizing t rest with
  | nil =>
    obtain ⟨tokens, log⟩ := t
    simp only [List.map_nil, coe_nil, zero_add] at htok
    subst htok
    simpa [Advances] using Relation.ReflTransGen.refl
  | cons x xs ih =>
    simp only [List.map_cons, ← cons_coe, cons_add] at htok ⊢
    refine Relation.ReflTransGen.head
      (Advance.mk htok (hnext x List.mem_cons_self)) ?_
    have hrest := @ih
      ⟨(i x, ψ x) ::ₘ (↑(xs.map fun x => (i x, φ x)) + rest), t.log ++ [(i x, l x)]⟩
      ((i x, ψ x) ::ₘ rest) (by rw [add_cons])
      fun y hy => hnext y (List.mem_cons_of_mem _ hy)
    simpa [Advances, add_cons] using hrest

/-! ## What tokens weigh

A phase may stand for something a token has to have been given by its labels,
such as a time stamp. If every move hands out at least what the phase it
leads to weighs more than the one it comes from, then all tokens together
weigh no more than was handed out. -/

section Weight

variable {M : Type} [AddCommMonoid M] [PartialOrder M] [IsOrderedAddMonoid M]

/-- What the tokens weigh. -/
def weight (m : Phase → M) (tokens : Multiset (Id × Phase)) : M := (tokens.map fun x => m x.2).sum

/-- What the labels handed out. -/
def handed (b : Label → M) (log : List (Id × Label)) : M := (log.map fun x => b x.2).sum

omit [PartialOrder M] [IsOrderedAddMonoid M] [DecidableEq Id] in
@[simp] theorem weight_cons (m : Phase → M) (x : Id × Phase) (tokens : Multiset (Id × Phase)) :
    weight m (x ::ₘ tokens) = m x.2 + weight m tokens := by
  simp [weight]

omit [PartialOrder M] [IsOrderedAddMonoid M] [DecidableEq Id] in
@[simp] theorem weight_add (m : Phase → M) (x y : Multiset (Id × Phase)) :
    weight m (x + y) = weight m x + weight m y := by
  simp [weight]

omit [PartialOrder M] [IsOrderedAddMonoid M] [DecidableEq Id] in
@[simp] theorem handed_append (b : Label → M) (log log' : List (Id × Label)) :
    handed b (log ++ log') = handed b log + handed b log' := by
  simp [handed]

omit [DecidableEq Id] in
theorem Advances.weight_le {m : Phase → M} {b : Label → M}
    (hmb : ∀ φ l ψ, R.next φ l ψ → m ψ ≤ m φ + b l) {t t' : Track Id Phase Label}
    (h : R.Advances t t') (ht : weight m t.tokens ≤ handed b t.log) :
    weight m t'.tokens ≤ handed b t'.log := by
  induction h with
  | refl => exact ht
  | tail _ hlast ih =>
    obtain @⟨i, l, φ, ψ, rest, heq, hl⟩ := hlast
    rw [heq, weight_cons] at ih
    rw [weight_cons, handed_append]
    calc m ψ + weight m rest
        ≤ m φ + b l + weight m rest := add_le_add_left (hmb φ l ψ hl) _
      _ = m φ + weight m rest + b l := by abel
      _ ≤ handed b _ + b l := add_le_add_left ih _
      _ = handed b _ + handed b [(i, l)] := by simp [handed]

end Weight

end Lifecycle

end SmscGateway
