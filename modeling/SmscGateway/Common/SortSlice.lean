import Mathlib

/-!
# Sorting as Go does it

`sort.Slice` promises an order and nothing about elements that compare equal.
A `SortSlice` is any function that keeps this promise, so what is proved of a
table for every `SortSlice` does not depend on where equal elements end up. In a
table sorted by a key the first match is a match with the greatest key, and in a
table whose keys differ removing the first entry of a key removes the key.
-/

namespace SmscGateway

open List

/-- A comparison `sort.Slice` may be used with. -/
structure StrictWeak {α : Type} (less : α → α → Bool) : Prop where
  irrefl : ∀ a, less a a = false
  trans : ∀ a b c, less a b = true → less b c = true → less a c = true
  incomparable : ∀ a b c, less b a = false → less c b = false → less c a = false

/-- Comparing by a key, the greatest first. -/
theorem StrictWeak.of_key {α κ : Type} [LinearOrder κ] {less : α → α → Bool} (key : α → κ)
    (h : ∀ a b, less a b = true ↔ key b < key a) : StrictWeak less := by
  have hnot : ∀ a b, less a b = false ↔ key a ≤ key b := by
    intro a b
    rw [← Bool.not_eq_true, h, not_lt]
  refine ⟨fun a => (hnot a a).mpr le_rfl, fun a b c hab hbc => ?_, fun a b c hba hcb => ?_⟩
  · exact (h a c).mpr (lt_trans ((h b c).mp hbc) ((h a b).mp hab))
  · exact (hnot c a).mpr (le_trans ((hnot c b).mp hcb) ((hnot b a).mp hba))

/-- `sort.Slice`: the same elements, and none before one that is less. -/
structure SortSlice where
  sort : {α : Type} → (α → α → Bool) → List α → List α
  perm : ∀ {α : Type} (less : α → α → Bool) (l : List α), (sort less l).Perm l
  ordered : ∀ {α : Type} {less : α → α → Bool}, StrictWeak less → ∀ l : List α,
    (sort less l).Pairwise fun a b => less b a = false

/-- Insertion sort is one. -/
def SortSlice.insertion : SortSlice where
  sort less l := l.insertionSort fun a b => less b a = false
  perm less l := perm_insertionSort _ l
  ordered {α less} h l := by
    have htotal : Std.Total fun a b => less b a = false := by
      refine ⟨fun a b => ?_⟩
      by_contra hboth
      rw [not_or, Bool.not_eq_false, Bool.not_eq_false] at hboth
      have hself := h.trans b a b hboth.1 hboth.2
      rw [h.irrefl b] at hself
      cases hself
    have htrans : IsTrans α fun a b => less b a = false := ⟨fun a b c => h.incomparable a b c⟩
    exact pairwise_insertionSort _ l

instance : Inhabited SortSlice := ⟨.insertion⟩

/-- **The first match is a greatest one.** -/
theorem le_of_find? {α κ : Type} [LinearOrder κ] {key : α → κ} {l : List α}
    (hl : l.Pairwise fun a b => key b ≤ key a) {p : α → Bool} {a : α} (ha : l.find? p = some a)
    {b : α} (hb : b ∈ l) (hpb : p b = true) : key b ≤ key a := by
  induction l with
  | nil => cases hb
  | cons c l ih =>
    obtain ⟨hc, hl⟩ := pairwise_cons.mp hl
    by_cases hpc : p c = true
    · rw [find?_cons_of_pos hpc] at ha
      cases ha
      rcases mem_cons.mp hb with rfl | hb
      · exact le_rfl
      · exact hc b hb
    · rw [find?_cons_of_neg hpc] at ha
      rcases mem_cons.mp hb with rfl | hb
      · exact absurd hpb hpc
      · exact ih hl ha hb

/-- **Where keys differ, the first of a key is all of it.** -/
theorem eraseP_eq_filter {α κ : Type} [DecidableEq κ] {key : α → κ} {l : List α}
    (hl : (l.map key).Nodup) (k : κ) :
    (l.eraseP fun a => key a = k) = l.filter fun a => key a ≠ k := by
  induction l with
  | nil => rfl
  | cons c l ih =>
    obtain ⟨hc, hl⟩ := nodup_cons.mp hl
    by_cases hk : key c = k
    · have hrest : ∀ a ∈ l, decide (key a ≠ k) = true := by
        intro a ha
        refine decide_eq_true fun hak => hc ?_
        rw [hk, ← hak]
        exact mem_map_of_mem ha
      rw [eraseP_cons_of_pos (by simpa using hk), filter_cons_of_neg (by simpa using hk),
        filter_eq_self.mpr hrest]
    · rw [eraseP_cons_of_neg (by simpa using hk), filter_cons_of_pos (by simpa using hk),
        ih hl]

end SmscGateway
