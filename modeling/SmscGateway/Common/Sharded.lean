import SmscGateway.Common.SortedMap

/-!
# A map in pieces

A map that is kept as a family of maps, each key in the piece an index function
gives. The family holds a map when every piece finds what the map does of the
keys that belong there and nothing else (`Holds`). Updates of one piece are
updates of the whole, and what the pieces list together is what the map lists.
-/

namespace SmscGateway

open SortedMap Function

variable {κ β ι : Type} [LinearOrder κ] [DecidableEq ι]

/-- **The pieces hold a map.** -/
def Holds (index : κ → ι) (pieces : ι → SortedMap κ β) (m : SortedMap κ β) : Prop :=
  ∀ i k, (pieces i).find? k = if index k = i then m.find? k else none

theorem nodup_entries (m : SortedMap κ β) : m.entries.Nodup :=
  m.sorted.imp fun hlt heq => absurd (heq ▸ hlt) (lt_irrefl _)

namespace Holds

variable {index : κ → ι} {pieces : ι → SortedMap κ β} {m : SortedMap κ β}

theorem empty : Holds index (fun _ => (.empty : SortedMap κ β)) .empty := by
  intro i k
  split <;> rfl

theorem find? (h : Holds index pieces m) (k : κ) : (pieces (index k)).find? k = m.find? k := by
  rw [h (index k) k, if_pos rfl]

theorem insert (h : Holds index pieces m) (k : κ) (v : β) :
    Holds index (update pieces (index k) ((pieces (index k)).insert k v))
      (m.insert k v) := by
  intro i k'
  by_cases hi : i = index k
  · subst hi
    rw [update_self, find?_insert, find?_insert, h (index k) k']
    by_cases hk : k' = k
    · rw [if_pos hk, if_pos hk, hk, if_pos rfl]
    · rw [if_neg hk, if_neg hk]
  · rw [update_of_ne hi, h i k', find?_insert]
    by_cases hk : k' = k
    · rw [hk, if_neg (Ne.symm hi), if_neg (Ne.symm hi)]
    · rw [if_neg hk]

theorem erase (h : Holds index pieces m) (k : κ) :
    Holds index (update pieces (index k) ((pieces (index k)).erase k)) (m.erase k) := by
  intro i k'
  by_cases hi : i = index k
  · subst hi
    rw [update_self, find?_erase, find?_erase, h (index k) k']
    by_cases hk : k' = k
    · rw [if_pos hk, if_pos hk, ite_self]
    · rw [if_neg hk, if_neg hk]
  · rw [update_of_ne hi, h i k', find?_erase]
    by_cases hk : k' = k
    · rw [hk, if_neg (Ne.symm hi), if_neg (Ne.symm hi)]
    · rw [if_neg hk]

theorem mem_entries_iff (h : Holds index pieces m) {i : ι} {k : κ} {v : β} :
    (k, v) ∈ (pieces i).entries ↔ index k = i ∧ m.find? k = some v := by
  rw [SortedMap.mem_entries_iff, h i k]
  by_cases hi : index k = i
  · rw [if_pos hi, and_iff_right hi]
  · rw [if_neg hi]
    exact ⟨fun hnone => (by cases hnone), fun hand => absurd hand.1 hi⟩

/-- **The pieces list the map**, each entry once, whatever the order in which
they list their own. -/
theorem visits (h : Holds index pieces m) {is : List ι} (hnodup : is.Nodup)
    (hall : ∀ i, i ∈ is) {order : ι → List (κ × β)}
    (horder : ∀ i, (order i).Perm (pieces i).entries) :
    (is.flatMap order).Nodup ∧ ∀ k v, (k, v) ∈ is.flatMap order ↔ m.find? k = some v := by
  have hmem : ∀ i k v, (k, v) ∈ order i ↔ index k = i ∧ m.find? k = some v := fun i k v =>
    (horder i).mem_iff.trans h.mem_entries_iff
  refine ⟨List.nodup_flatMap.mpr ⟨fun i _ => ?_, ?_⟩, fun k v => ?_⟩
  · exact (horder i).nodup_iff.mpr (nodup_entries _)
  · -- a key is in one piece only
    refine hnodup.imp fun hne => ?_
    rintro ⟨k, v⟩ hi hj
    exact hne (((hmem _ k v).mp hi).1.symm.trans ((hmem _ k v).mp hj).1)
  · rw [List.mem_flatMap]
    constructor
    · rintro ⟨i, -, hi⟩
      exact ((hmem i k v).mp hi).2
    · intro hk
      exact ⟨index k, hall _, (hmem _ k v).mpr ⟨rfl, hk⟩⟩

end Holds

end SmscGateway
