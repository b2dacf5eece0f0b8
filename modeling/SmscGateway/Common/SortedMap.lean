import Mathlib

/-!
# Ordered maps

A finite map kept as the list of its entries in ascending key order, which
is how an ordered store iterates. Sortedness is a field, so a key occurs at
most once and two maps with the same lookups are the same map.
-/

namespace SmscGateway

open List

variable {κ β : Type*} [LinearOrder κ]

/-- A finite map with its entries in ascending key order. -/
structure SortedMap (κ β : Type*) [LinearOrder κ] where
  entries : List (κ × β)
  sorted : entries.Pairwise fun a b => a.1 < b.1

namespace SortedMap

/-- The map without entries. -/
def empty : SortedMap κ β := ⟨[], List.Pairwise.nil⟩

instance : Inhabited (SortedMap κ β) := ⟨empty⟩

instance [DecidableEq β] : DecidableEq (SortedMap κ β) := fun m n =>
  decidable_of_iff (m.entries = n.entries)
    ⟨fun h => by cases m; cases n; congr, fun h => by rw [h]⟩

/-- The value under a key. -/
def find? (m : SortedMap κ β) (k : κ) : Option β :=
  (m.entries.find? fun e => e.1 = k).map Prod.snd

/-- The stored values, in key order. -/
def values (m : SortedMap κ β) : List β := m.entries.map Prod.snd

/-- Put an entry at its place, replacing what the key held. -/
def insertEntry (k : κ) (v : β) : List (κ × β) → List (κ × β)
  | [] => [(k, v)]
  | e :: l =>
    if k < e.1 then (k, v) :: e :: l
    else if k = e.1 then (k, v) :: l
    else e :: insertEntry k v l

variable {k : κ} {v : β} {m : SortedMap κ β}

theorem mem_insertEntry {l : List (κ × β)} {e : κ × β} (h : e ∈ insertEntry k v l) :
    e = (k, v) ∨ e ∈ l := by
  induction l with
  | nil => simpa [insertEntry] using h
  | cons f l ih =>
    rw [insertEntry] at h
    split at h
    · simpa using h
    · split at h
      · rcases mem_cons.mp h with h | h
        · exact .inl h
        · exact .inr (mem_cons_of_mem _ h)
      · rcases mem_cons.mp h with rfl | h
        · exact .inr (by simp)
        · exact (ih h).imp id (mem_cons_of_mem _)

theorem sorted_insertEntry {l : List (κ × β)} (h : l.Pairwise fun a b => a.1 < b.1) :
    (insertEntry k v l).Pairwise fun a b => a.1 < b.1 := by
  induction l with
  | nil => simp [insertEntry]
  | cons f l ih =>
    obtain ⟨hf, hl⟩ := pairwise_cons.mp h
    rw [insertEntry]
    split
    · rename_i hlt
      refine pairwise_cons.mpr ⟨fun e he => ?_, h⟩
      rcases mem_cons.mp he with rfl | he
      · exact hlt
      · exact lt_trans hlt (hf e he)
    · split
      · rename_i heq
        exact pairwise_cons.mpr ⟨fun e he => heq ▸ hf e he, hl⟩
      · refine pairwise_cons.mpr ⟨fun e he => ?_, ih hl⟩
        rcases mem_insertEntry he with rfl | he
        · exact lt_of_le_of_ne (not_lt.mp ‹_›) (Ne.symm ‹_›)
        · exact hf e he

/-- Store a value under a key. -/
def insert (m : SortedMap κ β) (k : κ) (v : β) : SortedMap κ β :=
  ⟨insertEntry k v m.entries, sorted_insertEntry m.sorted⟩

/-- Keep the entries that satisfy a predicate. -/
def filter (m : SortedMap κ β) (p : κ → β → Bool) : SortedMap κ β :=
  ⟨m.entries.filter fun e => p e.1 e.2, m.sorted.filter _⟩

/-- Remove a key. -/
def erase (m : SortedMap κ β) (k : κ) : SortedMap κ β := m.filter fun k' _ => k' ≠ k

/-- Remove the first entries. -/
def dropFirst (m : SortedMap κ β) (n : ℕ) : SortedMap κ β :=
  ⟨m.entries.drop n, m.sorted.drop⟩

/-! ## Lookups -/

/-- **Lookups and entries agree**: a key occurs at most once. -/
theorem mem_entries_iff : (k, v) ∈ m.entries ↔ m.find? k = some v := by
  obtain ⟨l, hl⟩ := m
  simp only [find?]
  induction l with
  | nil => simp
  | cons e l ih =>
    obtain ⟨he, hl'⟩ := pairwise_cons.mp hl
    rw [find?_cons]
    by_cases hk : e.1 = k
    · subst hk
      simp only [decide_true, Option.map_some, Option.some.injEq, mem_cons]
      constructor
      · rintro (h | h)
        · rw [← h]
        · exact absurd (he _ h) (lt_irrefl _)
      · rintro rfl
        exact .inl rfl
    · simp only [hk, decide_false, mem_cons, ih hl']
      constructor
      · rintro (rfl | h)
        · exact absurd rfl hk
        · exact h
      · exact .inr

theorem mem_values_iff : v ∈ m.values ↔ ∃ k, m.find? k = some v := by
  simp [values, ← mem_entries_iff]

@[simp] theorem find?_empty (k : κ) : (empty : SortedMap κ β).find? k = none := rfl

@[simp] theorem find?_insert (m : SortedMap κ β) (k k' : κ) (v : β) [Decidable (k' = k)] :
    (m.insert k v).find? k' = if k' = k then some v else m.find? k' := by
  obtain ⟨l, hl⟩ := m
  simp only [find?, insert]
  induction l with
  | nil =>
    by_cases h : k' = k
    · simp [insertEntry, h]
    · simp [insertEntry, h, Ne.symm h]
  | cons e l ih =>
    obtain ⟨he, hl'⟩ := pairwise_cons.mp hl
    rw [insertEntry]
    split
    · by_cases h : k' = k
      · simp [h]
      · simp [h, Ne.symm h, find?_cons]
    · split
      · rename_i heq
        by_cases h : k' = k
        · simp [h]
        · simp [h, Ne.symm h, ← heq]
      · rename_i hne
        rw [find?_cons, find?_cons]
        by_cases h : e.1 = k'
        · simp [h, show k' ≠ k from fun hk => hne (by rw [h, hk])]
        · simp only [h, decide_false]
          exact ih hl'

@[simp] theorem find?_filter (m : SortedMap κ β) (p : κ → β → Bool) (k : κ) :
    (m.filter p).find? k = (m.find? k).filter (p k) := by
  obtain ⟨l, hl⟩ := m
  simp only [find?, filter]
  induction l with
  | nil => rfl
  | cons e l ih =>
    obtain ⟨he, hl'⟩ := pairwise_cons.mp hl
    by_cases h : e.1 = k
    · subst h
      by_cases hp : p e.1 e.2
      · simp [hp, Option.filter]
      · have hnone : l.find? (fun e' => p e'.1 e'.2 && decide (e'.1 = e.1)) = none := by
          rw [find?_eq_none]
          intro e' he' hk
          simp only [Bool.and_eq_true, decide_eq_true_eq] at hk
          exact absurd (he e' he') (by rw [hk.2]; exact lt_irrefl _)
        simp [hp, hnone, Option.filter]
    · by_cases hp : p e.1 e.2
      · simp only [filter_cons, hp, if_true, find?_cons, h, decide_false]
        exact ih hl'
      · simp only [filter_cons, hp, find?_cons, h, decide_false]
        exact ih hl'

@[simp] theorem find?_erase (m : SortedMap κ β) (k k' : κ) [Decidable (k' = k)] :
    (m.erase k).find? k' = if k' = k then none else m.find? k' := by
  rw [erase, find?_filter]
  by_cases h : k' = k
  · simp [h]
  · cases hm : m.find? k' <;> simp [h]

/-- **Maps with the same lookups are equal.** -/
theorem ext_find? {n : SortedMap κ β} (h : ∀ k, m.find? k = n.find? k) : m = n := by
  obtain ⟨l, hl⟩ := m
  obtain ⟨l', hl'⟩ := n
  congr 1
  refine @List.Perm.eq_of_pairwise _ (fun a b => a.1 ≤ b.1) _ _ ?_ (hl.imp le_of_lt)
    (hl'.imp le_of_lt) ?_
  · rintro ⟨k, v⟩ ⟨k', v'⟩ hm hn h₁ h₂
    obtain rfl : k = k' := le_antisymm h₁ h₂
    have e₁ := (mem_entries_iff (m := ⟨l, hl⟩)).mp hm
    have e₂ := (mem_entries_iff (m := ⟨l', hl'⟩)).mp hn
    rw [h, e₂] at e₁
    rw [Option.some.inj e₁]
  · have nd : ∀ {l : List (κ × β)}, (l.Pairwise fun a b => a.1 < b.1) → l.Nodup := fun h =>
      h.imp fun hlt heq => absurd (heq ▸ hlt) (lt_irrefl _)
    refine (perm_ext_iff_of_nodup (nd hl) (nd hl')).mpr ?_
    rintro ⟨k, v⟩
    rw [show (k, v) ∈ l ↔ _ from mem_entries_iff (m := ⟨l, hl⟩),
      show (k, v) ∈ l' ↔ _ from mem_entries_iff (m := ⟨l', hl'⟩), h]

/-! ## What an update does to the stored values -/

/-- **A fresh key adds one value and touches no other.** -/
theorem values_insert_of_none (h : m.find? k = none) :
    ((m.insert k v).values : Multiset β) = v ::ₘ (m.values : Multiset β) := by
  have hk : ∀ e ∈ m.entries, e.1 ≠ k := by
    rintro ⟨k', w⟩ he rfl
    rw [mem_entries_iff.mp he] at h
    cases h
  obtain ⟨l, hl⟩ := m
  simp only [values, insert] at hk ⊢
  induction l with
  | nil => rfl
  | cons e l ih =>
    have hne : ¬ k = e.1 := fun he => hk e (by simp) he.symm
    rw [insertEntry, if_neg hne]
    split
    · rfl
    · have hl' := (pairwise_cons.mp hl).2
      have := ih hl' (by
        simp only [find?, find?_eq_none, Option.map_eq_none_iff]
        intro e' he'
        simpa using hk e' (mem_cons_of_mem _ he')) fun e' he' => hk e' (mem_cons_of_mem _ he')
      rw [map_cons, map_cons, ← Multiset.cons_coe, ← Multiset.cons_coe, this,
        Multiset.cons_swap]

/-- Removing an entry removes its value and no other. -/
theorem values_erase (h : m.find? k = some v) :
    (m.values : Multiset β) = v ::ₘ ((m.erase k).values : Multiset β) := by
  have hback : m = (m.erase k).insert k v := ext_find? fun k' => by
    rw [find?_insert, find?_erase]
    split
    · rename_i hk
      rw [hk, h]
    · rfl
  have hnone : (m.erase k).find? k = none := by simp
  conv_lhs => rw [hback]
  exact values_insert_of_none hnone

theorem erase_of_none (h : m.find? k = none) : m.erase k = m :=
  ext_find? fun k' => by
    rw [find?_erase]
    split
    · rename_i hk
      rw [hk, h]
    · rfl

/-- What is stored under a key takes the place of what was. -/
theorem values_insert (m : SortedMap κ β) (k : κ) (v : β) :
    ((m.insert k v).values : Multiset β) = v ::ₘ ((m.erase k).values : Multiset β) := by
  have hback : m.insert k v = (m.erase k).insert k v := ext_find? fun k' => by
    rw [find?_insert, find?_insert, find?_erase]
    split <;> rfl
  rw [hback]
  exact values_insert_of_none (by simp)

theorem erase_values_le (m : SortedMap κ β) (k : κ) :
    ((m.erase k).values : Multiset β) ≤ (m.values : Multiset β) := by
  cases h : m.find? k with
  | none => rw [erase_of_none h]
  | some v => exact values_erase h ▸ Multiset.le_cons_self _ _

theorem eq_empty_iff : m = .empty ↔ ∀ k, m.find? k = none := by
  refine ⟨fun h k => h ▸ rfl, fun h => ext_find? fun k => ?_⟩
  rw [h k, find?_empty]

/-- A new key goes between the keys below it and those above it. -/
theorem entries_insert_between {l₁ l₂ : List (κ × β)} (v : β) (hm : m.entries = l₁ ++ l₂)
    (hbelow : ∀ e ∈ l₁, e.1 < k) (habove : ∀ e ∈ l₂, k < e.1) :
    (m.insert k v).entries = l₁ ++ (k, v) :: l₂ := by
  change insertEntry k v m.entries = _
  rw [hm]
  clear hm
  induction l₁ with
  | nil =>
    cases l₂ with
    | nil => rfl
    | cons e l₂ => rw [nil_append, insertEntry, if_pos (habove e mem_cons_self)]; rfl
  | cons e l₁ ih =>
    have hlt := hbelow e mem_cons_self
    rw [cons_append, insertEntry, if_neg (not_lt_of_gt hlt), if_neg hlt.ne',
      ih fun e' he' => hbelow e' (mem_cons_of_mem _ he')]
    rfl

theorem mem_of_mem_dropFirst {n : ℕ} {e : κ × β} (h : e ∈ (m.dropFirst n).entries) :
    e ∈ m.entries :=
  mem_of_mem_drop h

theorem mem_values_insert {w : β} (h : w ∈ (m.insert k v).values) : w = v ∨ w ∈ m.values := by
  obtain ⟨k', hk'⟩ := mem_values_iff.mp h
  rw [find?_insert] at hk'
  split at hk'
  · exact .inl (Option.some.inj hk').symm
  · exact .inr (mem_values_iff.mpr ⟨k', hk'⟩)

theorem forall_values_insert {p : β → Prop} (hm : ∀ w ∈ m.values, p w) (hv : p v) :
    ∀ w ∈ (m.insert k v).values, p w := by
  intro w hw
  rcases mem_values_insert hw with rfl | hw
  · exact hv
  · exact hm w hw

theorem mem_values_filter {p : κ → β → Bool} {w : β} (h : w ∈ (m.filter p).values) :
    w ∈ m.values := by
  obtain ⟨e, he, rfl⟩ := mem_map.mp h
  exact mem_map.mpr ⟨e, (mem_filter.mp he).1, rfl⟩

end SortedMap

end SmscGateway
