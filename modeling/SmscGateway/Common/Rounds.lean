import Mathlib

/-!
# A queue served in rounds

In each round at most `L` entries are taken from the front of a queue, and
some of them are put back where they were, in front of everything that waited
behind them. An entry that is not put back leaves the queue in the round that
takes it. Every round has `L` places, and every entry that is put back uses up
a place of the next round, so the round in which an entry is taken depends on
how many entries were ahead of it and on how many were put back.
-/

namespace SmscGateway

open List

variable {α : Type*}

/-- Rounds over a queue, each with the entries it puts back. -/
inductive Rounds (L : ℕ) : List α → List (List α) → List α → Prop
  | done {q : List α} : Rounds L q [] q
  | round {q q' back : List α} {backs : List (List α)} : back.Sublist (q.take L) →
      Rounds L (back ++ q.drop L) backs q' → Rounds L q (back :: backs) q'

namespace Rounds

variable {L : ℕ} {q q' : List α} {backs : List (List α)}

/-- How many entries were put back. -/
def putBack (backs : List (List α)) : ℕ := (backs.map List.length).sum

@[simp] theorem putBack_nil : putBack ([] : List (List α)) = 0 := rfl

@[simp] theorem putBack_cons (back : List α) (backs : List (List α)) :
    putBack (back :: backs) = back.length + putBack backs := rfl

/-- A round puts back at most what it took. -/
theorem putBack_dropLast_le (h : Rounds L q backs q') :
    putBack backs.dropLast ≤ (backs.length - 1) * L := by
  induction h with
  | done => simp
  | @round q q' back backs hback hrest ih =>
    cases hrest with
    | done => simp
    | round hback' hrest' =>
      have hlen := hback.length_le
      rw [length_take] at hlen
      rw [dropLast_cons_cons, putBack_cons]
      simp only [length_cons, Nat.add_sub_cancel] at ih ⊢
      rw [Nat.add_mul]
      omega

/-- What remains was there before. -/
theorem sublist (h : Rounds L q backs q') : q'.Sublist q := by
  induction h with
  | done => exact List.Sublist.refl _
  | @round q q' back backs hback _ ih =>
    refine ih.trans ?_
    have happ := hback.append (List.Sublist.refl (q.drop L))
    rwa [take_append_drop] at happ

/-- **When an entry is taken.** An entry with `j` others ahead of it that is
never put back has left the queue after the rounds exactly when `j`, together
with what all rounds but the last put back, is less than the number of places;
otherwise it is still there. -/
theorem left_iff (h : Rounds L q backs q') (hq : q.Nodup) {j : ℕ} {e : α} (he : q[j]? = some e)
    (hnever : ∀ back ∈ backs, e ∉ back) :
    e ∉ q' ↔ j + putBack backs.dropLast < backs.length * L := by
  induction h generalizing j with
  | done =>
    have hmem := mem_of_getElem? he
    simp [hmem]
  | @round q q' back backs hback hrest ih =>
    have hsplit : (back ++ q.drop L).Sublist q := by
      have happ := hback.append (List.Sublist.refl (q.drop L))
      rwa [take_append_drop] at happ
    have hq₁ : (back ++ q.drop L).Nodup := hq.sublist hsplit
    have hback_e : e ∉ back := hnever back mem_cons_self
    obtain ⟨hlt, hget⟩ := List.getElem?_eq_some_iff.mp he
    by_cases hj : j < L
    · -- taken in this round, for good
      have hdrop : e ∉ q.drop L := by
        intro hmem
        have htake : e ∈ q.take L := by
          rw [← hget]
          exact mem_take_iff_getElem.mpr ⟨j, by omega, rfl⟩
        have hnd := hq
        rw [← take_append_drop L q] at hnd
        exact (nodup_append.mp hnd).2.2 e htake e hmem rfl
      have hgone : e ∉ q' := by
        intro hmem
        rcases mem_append.mp (hrest.sublist.subset hmem) with h | h
        · exact hback_e h
        · exact hdrop h
      have hcount := (Rounds.round hback hrest).putBack_dropLast_le
      simp only [length_cons, Nat.add_sub_cancel] at hcount
      refine iff_of_true hgone ?_
      rw [length_cons, Nat.add_mul]
      omega
    · -- it moves up by the places that were not used for entries put back
      have hshift : (back ++ q.drop L)[back.length + (j - L)]? = some e := by
        rw [getElem?_append_right (Nat.le_add_right _ _), getElem?_drop]
        have hidx : L + (back.length + (j - L) - back.length) = j := by omega
        rw [hidx]
        exact he
      rw [ih hq₁ hshift fun b hb => hnever b (mem_cons_of_mem _ hb)]
      have hlen := hback.length_le
      rw [length_take] at hlen
      cases hrest with
      | done =>
        simp only [dropLast_nil, putBack_nil, length_nil, length_cons,
          dropLast_singleton]
        omega
      | round =>
        rw [dropLast_cons_cons, putBack_cons]
        simp only [length_cons]
        rw [Nat.add_mul (_ + 1) 1 L]
        omega

end Rounds

end SmscGateway
