import Mathlib.Algebra.Order.Group.Int
import Mathlib.Algebra.Order.BigOperators.Group.List
import Mathlib.Data.List.Infix

/-!
# Dividing a list into parts of bounded weight

A list is cut into parts, each no heavier than a limit, and no element is cut.
`greedy` puts an element into the part under way for as long as it fits. Its
parts are **tight**: none of them has room for the first element of the next.
A tight division is the only one (`Tight.unique`), and no division has fewer
parts (`Tight.length_le`).
-/

namespace SmscGateway

open List

section Division

variable {α M : Type*} [AddCommMonoid M]

/-- What a part weighs. -/
def weight (w : α → M) (part : List α) : M := (part.map w).sum

@[simp] theorem weight_nil (w : α → M) : weight w [] = 0 := rfl

@[simp] theorem weight_cons (w : α → M) (a : α) (l : List α) :
    weight w (a :: l) = w a + weight w l := by
  rw [weight, map_cons, sum_cons, weight]

@[simp] theorem weight_append (w : α → M) (l l' : List α) :
    weight w (l ++ l') = weight w l + weight w l' := by
  rw [weight, map_append, sum_append, weight, weight]

variable [LinearOrder M]

/-- **A division** of a list into parts no heavier than `max`. -/
structure Division (w : α → M) (max : M) (l : List α) (parts : List (List α)) : Prop where
  flatten : parts.flatten = l
  le : ∀ part ∈ parts, weight w part ≤ max

/-- **No part has room** for the first element of the next, and no part is
empty. -/
structure Tight (w : α → M) (max : M) (parts : List (List α)) : Prop where
  ne_nil : ∀ part ∈ parts, part ≠ []
  full : parts.IsChain fun part next => ∀ a ∈ next.head?, max < weight w part + w a

/-! ## The greedy loop -/

/-- The greedy loop, with the part under way and its weight. -/
def greedyFrom (w : α → M) (max : M) : List α → M → List α → List (List α)
  | current, _, [] => if current.isEmpty then [] else [current]
  | current, sum, a :: l =>
    if max < sum + w a then current :: greedyFrom w max [a] (0 + w a) l
    else greedyFrom w max (current ++ [a]) (sum + w a) l

/-- The greedy division. -/
def greedy (w : α → M) (max : M) (l : List α) : List (List α) := greedyFrom w max [] 0 l

variable {w : α → M} {max : M}

theorem flatten_greedyFrom (current : List α) (sum : M) (l : List α) :
    (greedyFrom w max current sum l).flatten = current ++ l := by
  induction l generalizing current sum with
  | nil =>
    rw [greedyFrom]
    cases current <;> simp
  | cons a l ih =>
    rw [greedyFrom]
    split
    · rw [flatten_cons, ih, singleton_append]
    · rw [ih, append_assoc, singleton_append]

variable {current l part : List α} {parts : List (List α)}

/-- No part is too heavy, if no element is. -/
theorem weight_le_of_mem_greedyFrom {sum : M} (hsum : weight w current = sum) (hle : sum ≤ max)
    (hl : ∀ a ∈ l, w a ≤ max) : ∀ part ∈ greedyFrom w max current sum l, weight w part ≤ max := by
  induction l generalizing current sum with
  | nil =>
    intro part hpart
    rw [greedyFrom] at hpart
    split at hpart
    · exact absurd hpart not_mem_nil
    · rw [mem_singleton.mp hpart, hsum]
      exact hle
  | cons a l ih =>
    intro part hpart
    have hfits : w a ≤ max := hl a mem_cons_self
    have hrest : ∀ b ∈ l, w b ≤ max := fun b hb => hl b (mem_cons_of_mem _ hb)
    rw [greedyFrom] at hpart
    split at hpart
    · rcases mem_cons.mp hpart with rfl | hpart
      · rw [hsum]
        exact hle
      · refine ih ?_ ?_ hrest part hpart
        · simp
        · rwa [zero_add]
    · rename_i hroom
      refine ih ?_ (not_lt.mp hroom) hrest part hpart
      rw [weight_append, weight_cons, weight_nil, add_zero, hsum]

/-- What the loop begins with is the part under way, or that part and what is
added to it. -/
theorem head_greedyFrom (hne : current ≠ []) (sum : M) (l : List α) :
    ∃ first rest, greedyFrom w max current sum l = first :: rest ∧ current <+: first := by
  induction l generalizing current sum with
  | nil =>
    have hnonempty : current.isEmpty = false := by simpa using hne
    exact ⟨current, [], by rw [greedyFrom, hnonempty]; rfl, prefix_rfl⟩
  | cons a l ih =>
    rw [greedyFrom]
    split
    · exact ⟨current, _, rfl, prefix_rfl⟩
    · obtain ⟨first, rest, heq, hfirst⟩ := ih (show current ++ [a] ≠ [] by simp) (sum + w a)
      exact ⟨first, rest, heq, (prefix_append _ _).trans hfirst⟩

/-- The parts are tight. The part under way may be empty, but then it is never
closed, for every element fits. -/
theorem tight_greedyFrom {sum : M} (hsum : weight w current = sum) (hl : ∀ a ∈ l, w a ≤ max) :
    Tight w max (greedyFrom w max current sum l) := by
  induction l generalizing current sum with
  | nil =>
    rw [greedyFrom]
    split
    · exact ⟨fun part hpart => absurd hpart not_mem_nil, .nil⟩
    · rename_i hne
      refine ⟨fun part hpart => ?_, .singleton _⟩
      rw [mem_singleton.mp hpart]
      simpa using hne
  | cons a l ih =>
    have hfits : w a ≤ max := hl a mem_cons_self
    have hrest : ∀ b ∈ l, w b ≤ max := fun b hb => hl b (mem_cons_of_mem _ hb)
    rw [greedyFrom]
    split
    · rename_i hfull
      have htail := ih (show weight w [a] = 0 + w a by simp) hrest
      have hnext : ∃ first rest, greedyFrom w max [a] (0 + w a) l = first :: rest ∧ [a] <+: first :=
        head_greedyFrom (cons_ne_nil a []) _ l
      obtain ⟨first, rest, heq, t, hfirst⟩ := hnext
      rw [heq] at htail ⊢
      refine ⟨fun part hpart => ?_, .cons_cons ?_ htail.full⟩
      · rcases mem_cons.mp hpart with rfl | hpart
        · rintro rfl
          rw [← hsum, weight_nil, zero_add] at hfull
          exact absurd hfits (not_le.mpr hfull)
        · exact htail.ne_nil part hpart
      · -- the next part begins with the element that did not fit
        intro b hb
        rw [← hfirst, singleton_append, head?_cons, Option.mem_some_iff] at hb
        rw [← hb, hsum]
        exact hfull
    · refine ih ?_ hrest
      rw [weight_append, weight_cons, weight_nil, add_zero, hsum]

/-- **The greedy division is one**, if every element fits into a part. -/
theorem division_greedy (hmax : 0 ≤ max) (hl : ∀ a ∈ l, w a ≤ max) :
    Division w max l (greedy w max l) where
  flatten := flatten_greedyFrom [] 0 l
  le := weight_le_of_mem_greedyFrom (weight_nil w) hmax hl

/-- **And it is tight.** -/
theorem tight_greedy (hl : ∀ a ∈ l, w a ≤ max) : Tight w max (greedy w max l) :=
  tight_greedyFrom (weight_nil w) hl

/-! ## Tight divisions -/

theorem Tight.tail (h : Tight w max (part :: parts)) : Tight w max parts :=
  ⟨fun p hp => h.ne_nil p (mem_cons_of_mem _ hp), h.full.of_cons⟩

variable [IsOrderedAddMonoid M]

/-- When no element is heavy, all parts but the last are nearly full. -/
theorem Tight.lt_of_mem_dropLast (h : Tight w max parts) {heaviest : M}
    (hle : ∀ a ∈ parts.flatten, w a ≤ heaviest) :
    ∀ part ∈ parts.dropLast, max < weight w part + heaviest := by
  induction parts with
  | nil => exact fun part hpart => absurd hpart not_mem_nil
  | cons part parts ih =>
    rcases parts with _ | ⟨next, parts⟩
    · exact fun part hpart => absurd hpart not_mem_nil
    have hrest := ih h.tail fun a ha => hle a (mem_append_right _ ha)
    intro p hp
    rw [dropLast_cons_cons] at hp
    rcases mem_cons.mp hp with rfl | hp
    · obtain ⟨a, t, rfl⟩ := exists_cons_of_ne_nil (h.tail.ne_nil next mem_cons_self)
      have hfull : max < weight w p + w a := (isChain_cons_cons.mp h.full).1 a rfl
      have ha : w a ≤ heaviest := hle a (by simp)
      calc max < weight w p + w a := hfull
        _ ≤ weight w p + heaviest := by gcongr
    · exact hrest p hp

theorem weight_nonneg (h : ∀ a ∈ part, 0 ≤ w a) : 0 ≤ weight w part := by
  refine sum_nonneg fun x hx => ?_
  obtain ⟨a, ha, rfl⟩ := mem_map.mp hx
  exact h a ha

/-- **A tight part cannot be outgrown**: with anything of what follows it, it is
too heavy. -/
theorem Tight.not_le (h : Tight w max (part :: parts)) {t rest : List α} (hne : t ≠ [])
    (heq : parts.flatten = t ++ rest) (ht : ∀ a ∈ t, 0 ≤ w a) :
    max < weight w part + weight w t := by
  obtain ⟨a, t, rfl⟩ := exists_cons_of_ne_nil hne
  rcases parts with _ | ⟨next, parts⟩
  · cases heq
  obtain ⟨b, next, rfl⟩ := exists_cons_of_ne_nil
    (h.tail.ne_nil next mem_cons_self)
  obtain ⟨rfl, -⟩ := cons.inj heq
  have hfull : max < weight w part + w b := (isChain_cons_cons.mp h.full).1 b rfl
  have hnonneg : 0 ≤ weight w t := weight_nonneg fun a ha => ht a (mem_cons_of_mem _ ha)
  calc max < weight w part + w b := hfull
    _ ≤ weight w part + w b + weight w t := le_add_of_nonneg_right hnonneg
    _ = weight w part + weight w (b :: t) := by rw [weight_cons, add_assoc]

/-- **No division has fewer parts** than a tight one. -/
theorem Tight.length_le {parts' : List (List α)} (hw : ∀ a ∈ l, 0 ≤ w a)
    (htight : Tight w max parts) (hparts : parts.flatten = l) (hdiv : Division w max l parts') :
    parts.length ≤ parts'.length := by
  -- the other division is never ahead: it has at least as much left to divide
  suffices H : ∀ (qs : List (List α)) (parts : List (List α)), (∀ a ∈ qs.flatten, 0 ≤ w a) →
      (∀ q ∈ qs, weight w q ≤ max) → Tight w max parts → parts.flatten <:+ qs.flatten →
      parts.length ≤ qs.length by
    refine H parts' parts ?_ hdiv.le htight ?_
    · rwa [hdiv.flatten]
    · rw [hparts, hdiv.flatten]
  intro qs
  induction qs with
  | nil =>
    intro parts _ _ htight hsuffix
    rcases parts with _ | ⟨part, parts⟩
    · exact le_rfl
    · have hnil := append_eq_nil_iff.mp (suffix_nil.mp hsuffix)
      exact absurd hnil.1 (htight.ne_nil part mem_cons_self)
  | cons q qs ih =>
    intro parts hw hle htight hsuffix
    rcases parts with _ | ⟨part, parts⟩
    · exact Nat.zero_le _
    have hlater : parts.flatten <:+ qs.flatten := by
      have hleft : parts.flatten <:+ (q :: qs).flatten :=
        (suffix_append part parts.flatten).trans hsuffix
      rcases suffix_or_suffix_of_suffix hleft (suffix_append q qs.flatten) with h | ⟨t, ht⟩
      · exact h
      by_cases hnil : t = []
      · rw [hnil, nil_append] at ht
        exact ht ▸ suffix_rfl
      -- otherwise `q` has the whole of `part` in it and some of what follows
      obtain ⟨x, hx⟩ := hsuffix
      rw [flatten_cons, flatten_cons, ← ht, ← append_assoc, ← append_assoc] at hx
      have hq : x ++ part ++ t = q := append_cancel_right hx
      have hnonneg : ∀ a ∈ q, 0 ≤ w a := fun a ha => hw a (by simp [ha])
      have hover := htight.not_le hnil ht.symm fun a ha => hnonneg a (by rw [← hq]; simp [ha])
      have hfront : 0 ≤ weight w x := weight_nonneg fun a ha => hnonneg a (by rw [← hq]; simp [ha])
      have hlight := hle q mem_cons_self
      rw [← hq, weight_append, weight_append, add_assoc] at hlight
      exact absurd (hover.trans_le (le_add_of_nonneg_left hfront)) (not_lt.mpr hlight)
    have hrest := ih parts (fun a ha => hw a (by simp [ha]))
      (fun p hp => hle p (mem_cons_of_mem _ hp)) htight.tail hlater
    exact Nat.succ_le_succ hrest

/-- **A tight division is the only one.** -/
theorem Tight.unique {parts' : List (List α)} (hw : ∀ a ∈ l, 0 ≤ w a) (htight : Tight w max parts)
    (hdiv : Division w max l parts) (htight' : Tight w max parts')
    (hdiv' : Division w max l parts') :
    parts = parts' := by
  induction parts generalizing parts' l with
  | nil =>
    have hnil : l = [] := hdiv.flatten.symm
    rcases parts' with _ | ⟨part, parts⟩
    · rfl
    · have h := hdiv'.flatten
      rw [hnil, flatten_cons] at h
      exact absurd (append_eq_nil_iff.mp h).1 (htight'.ne_nil part mem_cons_self)
  | cons part parts ih =>
    rcases parts' with _ | ⟨part', parts'⟩
    · have h : (part :: parts).flatten = [] := hdiv.flatten.trans hdiv'.flatten.symm
      exact absurd (append_eq_nil_iff.mp h).1 (htight.ne_nil part mem_cons_self)
    have heq : part ++ parts.flatten = part' ++ parts'.flatten :=
      hdiv.flatten.trans hdiv'.flatten.symm
    have hl : part ++ parts.flatten = l := hdiv.flatten
    have hsame : part = part' := by
      rcases append_eq_append_iff.mp heq with ⟨t, rfl, ht⟩ | ⟨t, rfl, ht⟩
      · by_cases hnil : t = []
        · rw [hnil, append_nil]
        have hover := htight.not_le hnil ht fun a ha => hw a (by rw [← hl, ht]; simp [ha])
        have hlight := hdiv'.le _ mem_cons_self
        rw [weight_append] at hlight
        exact absurd hover (not_lt.mpr hlight)
      · by_cases hnil : t = []
        · rw [hnil, append_nil]
        have hover := htight'.not_le hnil ht fun a ha => hw a (by rw [← hl]; simp [ha])
        have hlight := hdiv.le _ mem_cons_self
        rw [weight_append] at hlight
        exact absurd hover (not_lt.mpr hlight)
    subst hsame
    have hrest : parts.flatten = parts'.flatten := append_cancel_left heq
    have hdivRest : Division w max parts.flatten parts :=
      ⟨rfl, fun p hp => hdiv.le p (mem_cons_of_mem _ hp)⟩
    have hdivRest' : Division w max parts.flatten parts' :=
      ⟨hrest.symm, fun p hp => hdiv'.le p (mem_cons_of_mem _ hp)⟩
    have hwRest : ∀ a ∈ parts.flatten, 0 ≤ w a := fun a ha => hw a (by
      rw [← hl]
      exact mem_append_right _ ha)
    rw [ih hwRest htight.tail hdivRest htight'.tail hdivRest']

end Division

end SmscGateway
