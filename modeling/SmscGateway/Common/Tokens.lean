import Mathlib

/-!
# Searches in separated text

A search whose matches never reach over a separator finds in a text what it
finds first in one of its tokens (`Splits.joined`), so the separators do not
matter, and no token matters to what is found in another.
-/

namespace SmscGateway

open List

variable {α β : Type}

/-- **A search that stops at separators.** What it finds in a text with a
separator in it, it finds before or behind that. -/
structure Splits (sep : α → Bool) (find : List α → Option β) : Prop where
  nil : find [] = none
  append : ∀ a c rest, sep c = true → find (a ++ c :: rest) = (find a).or (find rest)

/-- Tokens, each but the first behind what separates it from the last one. -/
def joined (first : List α) (rest : List (List α × List α)) : List α :=
  first ++ rest.flatMap fun p => p.1 ++ p.2

namespace Splits

variable {sep : α → Bool} {find : List α → Option β}

theorem skip (h : Splits sep find) {w : List α} (hw : ∀ c ∈ w, sep c = true) (l : List α) :
    find (w ++ l) = find l := by
  induction w with
  | nil => rfl
  | cons c w ih =>
    have hc := h.append [] c (w ++ l) (hw c mem_cons_self)
    rw [nil_append, h.nil, Option.none_or] at hc
    rw [cons_append, hc]
    exact ih fun c' hc' => hw c' (mem_cons_of_mem _ hc')

/-- A token, and what separates it from the rest. -/
theorem append_token (h : Splits sep find) {w : List α} (hne : w ≠ [])
    (hw : ∀ c ∈ w, sep c = true) (a l : List α) :
    find (a ++ (w ++ l)) = (find a).or (find l) := by
  obtain ⟨c, w, rfl⟩ := exists_cons_of_ne_nil hne
  rw [cons_append, h.append a c (w ++ l) (hw c mem_cons_self),
    h.skip fun c' hc' => hw c' (mem_cons_of_mem _ hc')]

/-- A text that begins where a token does. -/
theorem append_of_begins (h : Splits sep find) {q : List α}
    (hq : q = [] ∨ ∃ c q', sep c = true ∧ q = c :: q') (a : List α) :
    find (a ++ q) = (find a).or (find q) := by
  rcases hq with rfl | ⟨c, q, hc, rfl⟩
  · rw [append_nil, h.nil, Option.or_none]
  · have hskip := h.append [] c q hc
    rw [nil_append, h.nil, Option.none_or] at hskip
    rw [h.append a c q hc, hskip]

/-- **A token in the middle of a text.** -/
theorem middle (h : Splits sep find) {p q : List α}
    (hp : p = [] ∨ ∃ p' c, sep c = true ∧ p = p' ++ [c])
    (hq : q = [] ∨ ∃ c q', sep c = true ∧ q = c :: q') (w : List α) :
    find (p ++ (w ++ q)) = (find p).or ((find w).or (find q)) := by
  rw [← h.append_of_begins hq]
  rcases hp with rfl | ⟨p, c, hc, rfl⟩
  · rw [nil_append, h.nil, Option.none_or]
  · rw [append_assoc, singleton_append, h.append p c _ hc, h.append p c [] hc, h.nil,
      Option.or_none]

/-- **The tokens decide.** -/
theorem joined (h : Splits sep find) (first : List α) {rest : List (List α × List α)}
    (hsep : ∀ p ∈ rest, p.1 ≠ [] ∧ ∀ c ∈ p.1, sep c = true) :
    find (joined first rest) = (first :: rest.map Prod.snd).findSome? find := by
  induction rest generalizing first with
  | nil =>
    rw [SmscGateway.joined, flatMap_nil, append_nil, map_nil, findSome?_cons]
    cases find first <;> rfl
  | cons p rest ih =>
    obtain ⟨hne, hw⟩ := hsep p mem_cons_self
    have hrest := ih p.2 fun p' hp' => hsep p' (mem_cons_of_mem _ hp')
    rw [SmscGateway.joined, flatMap_cons, append_assoc p.1, h.append_token hne hw]
    rw [SmscGateway.joined] at hrest
    rw [hrest, map_cons]
    cases hfirst : find first <;> simp [findSome?_cons, hfirst]

end Splits

/-- A search in which only one thing is to be found. -/
theorem findSome?_eq_of_unique {find : α → Option β} {l : List α} {x : α} {v : β} (hx : x ∈ l)
    (hv : find x = some v) (hall : ∀ y ∈ l, find y = none ∨ find y = some v) :
    l.findSome? find = some v := by
  cases hf : l.findSome? find with
  | none =>
    rw [findSome?_eq_none_iff.mp hf x hx] at hv
    cases hv
  | some v' =>
    obtain ⟨y, hy, hv'⟩ := exists_of_findSome?_eq_some hf
    rcases hall y hy with hnone | hsome
    · rw [hnone] at hv'
      cases hv'
    · exact hv'.symm.trans hsome

/-- Where a word does not begin, it is not. -/
theorem infix_append_iff {t : α} {tag u v : List α} (h : t ∉ u) :
    (t :: tag) <:+: u ++ v ↔ (t :: tag) <:+: v := by
  induction u with
  | nil => rfl
  | cons b u ih =>
    have hb : t ≠ b := fun hb => h (hb ▸ mem_cons_self)
    have hu := ih fun hmem => h (mem_cons_of_mem _ hmem)
    rw [cons_append, infix_cons_iff, hu]
    constructor
    · rintro (hpre | hin)
      · exact absurd (cons_prefix_cons.mp hpre).1 hb
      · exact hin
    · exact Or.inr

end SmscGateway
