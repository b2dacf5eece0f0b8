import SmscGateway.Common.Goroutine

/-!
# Handlers

Objects such as connections are numbered as they are created, and each has a
handler: a goroutine that performs one action on the object after the other.
So of each object there is at most one pending action (`Serial`), and what
that action relies on can only be changed by the others.
-/

namespace SmscGateway

open Multiset

variable {σ ι α ω : Type}

/-- How a program treats the handlers of its objects: `owner` tells which
object's handler an action belongs to, and `size` how many objects there are.
An action of a handler is followed by at most one; a new handler comes with a
new object. -/
structure Handlers (P : Program σ ι α ω) (owner : α → Option ℕ) (size : σ → ℕ) : Prop where
  entry : ∀ a, P.entry a = true → owner a = none
  exec : ∀ s i a r, P.exec s i a = some r → size s ≤ size r.state ∧
    ((r.next.filterMap owner).Sublist (owner a).toList ∨
      r.next.filterMap owner = [size s] ∧ size s < size r.state)

/-- **One action at a time**: no object has two pending actions, and only
objects that exist have one. -/
structure Serial (owner : α → Option ℕ) (size : σ → ℕ) (c : Conf σ α ω) : Prop where
  nodup : (c.actions.filterMap owner).Nodup
  lt_size : ∀ k ∈ c.actions.filterMap owner, k < size c.shared

variable {P : Program σ ι α ω} {owner : α → Option ℕ} {size : σ → ℕ} {c c' : Conf σ α ω}

/-- While a handler takes its action it has no other one. -/
theorem Serial.owner_ne (h : Serial owner size c) {a : α} {rest : Multiset α}
    (hact : c.actions = a ::ₘ rest) {k : ℕ} (hk : owner a = some k) :
    ∀ b ∈ rest, owner b ≠ some k := by
  intro b hb hbk
  have hnd := h.nodup
  rw [hact, filterMap_cons_some owner a rest hk, nodup_cons] at hnd
  exact hnd.1 ((mem_filterMap _ _).mpr ⟨b, hb, hbk⟩)

/-- A step keeps the handlers apart. -/
theorem Handlers.step (hP : Handlers P owner size) {e : Event ι α}
    (hs : P.step c e = some c') (h : Serial owner size c) : Serial owner size c' := by
  rcases Program.step_cases hs with ⟨a, -, ha, hsh, hact, -⟩ |
    ⟨j, input, a, r, rest, -, -, hexec, hact, hsh, hact', -⟩
  · have hsame : c'.actions.filterMap owner = c.actions.filterMap owner := by
      rw [hact, filterMap_cons_none a _ (hP.entry a ha)]
    exact ⟨hsame ▸ h.nodup, fun k hk => hsh ▸ h.lt_size k (hsame ▸ hk)⟩
  · obtain ⟨hle, hnext⟩ := hP.exec _ _ _ _ hexec
    have hbefore : c.actions.filterMap owner =
        ((owner a).toList : List ℕ) + rest.filterMap owner := by
      rw [hact, Conf.filterMap_cons_toList]
    have hafter : c'.actions.filterMap owner =
        (r.next.filterMap owner : List ℕ) + rest.filterMap owner := by
      rw [hact', filterMap_add, filterMap_coe]
    have hold : ∀ k ∈ rest.filterMap owner, k < size c.shared := by
      intro k hk
      exact h.lt_size k (hbefore ▸ mem_add.mpr (Or.inr hk))
    have hnd := h.nodup
    rw [hbefore] at hnd
    rcases hnext with hsub | ⟨hnew, hlt⟩
    · -- the handler goes on, or ends
      have hle' : ((r.next.filterMap owner : List ℕ) : Multiset ℕ) ≤ ((owner a).toList : List ℕ) :=
        coe_le.mpr hsub.subperm
      have hmono : c'.actions.filterMap owner ≤ c.actions.filterMap owner := by
        rw [hafter, hbefore]
        exact add_le_add_left hle' _
      refine ⟨nodup_of_le hmono h.nodup, fun k hk => ?_⟩
      have := h.lt_size k (mem_of_le hmono hk)
      rw [hsh]
      omega
    · -- a new object, whose number nobody has yet
      have hfresh : size c.shared ∉ rest.filterMap owner := by
        intro hmem
        have := hold _ hmem
        omega
      have hrest : (rest.filterMap owner).Nodup := nodup_of_le (le_add_left _ _) hnd
      rw [hnew] at hafter
      refine ⟨?_, fun k hk => ?_⟩
      · rw [hafter, coe_singleton, singleton_add]
        exact nodup_cons.mpr ⟨hfresh, hrest⟩
      · rw [hafter, coe_singleton, singleton_add] at hk
        rw [hsh]
        rcases mem_cons.mp hk with rfl | hk
        · exact hlt
        · have := hold k hk
          omega

end SmscGateway
