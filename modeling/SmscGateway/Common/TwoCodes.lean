import SmscGateway.Common.Bytes

/-!
# Texts with the same form in two codes

Each letter has a code word in two codes. When is a text in the one code the
same as in the other, up to one of a few ends? Reading a text letter by letter,
the one code is ahead of the other by some lead, and the lead has to be what
the other code makes of the letters to come. `deadEnd` follows all letters that
agree with a lead; if all these ways end, no text goes on from there.
-/

namespace SmscGateway

open List

section TwoCodes

variable {β : Type*} [DecidableEq β]

/-- From this lead no letters lead to an end. A letter whose second word is
longer than what the first code has so far is not followed. -/
def deadEnd (letters : List (List β × List β)) (ends : List (List β)) : ℕ → List β → Bool
  | 0, _ => false
  | n + 1, lead => letters.all fun (first, second) =>
    match second.isPrefixOf? (lead ++ first) with
    | some lead' => !ends.contains lead' && deadEnd letters ends n lead'
    | none => !(lead ++ first).isPrefixOf second

variable {letters : List (List β × List β)} {ends : List (List β)}

/-- What one letter does. -/
theorem deadEnd_succ {n : ℕ} {lead : List β} (h : deadEnd letters ends (n + 1) lead = true)
    {first second : List β} (hmem : (first, second) ∈ letters) {rest rest' : List β}
    (heq : lead ++ first ++ rest = second ++ rest') :
    ∃ lead', lead ++ first = second ++ lead' ∧ lead' ∉ ends ∧
      deadEnd letters ends n lead' = true := by
  have hletter := all_eq_true.mp h _ hmem
  dsimp only at hletter
  -- both are the front of one list, so one is the front of the other
  have hfirst : lead ++ first <+: second ++ rest' := heq ▸ prefix_append ..
  have hsecond : second <+: second ++ rest' := prefix_append ..
  cases hstrip : second.isPrefixOf? (lead ++ first) with
  | some lead' =>
    rw [hstrip] at hletter
    have hsplit := isPrefixOf?_eq_some_iff_append_eq.mp hstrip
    simp only [Bool.and_eq_true, Bool.not_eq_true', contains_eq_mem,
      decide_eq_false_iff_not] at hletter
    exact ⟨lead', hsplit.symm, hletter⟩
  | none =>
    rw [hstrip] at hletter
    have hnot : ¬ lead ++ first <+: second := by
      intro hle
      rw [List.isPrefixOf_iff_prefix.mpr hle] at hletter
      cases hletter
    rcases prefix_or_prefix_of_prefix hfirst hsecond with hle | ⟨lead', hle⟩
    · exact absurd hle hnot
    · rw [isPrefixOf?_eq_some_iff_append_eq.mpr hle] at hstrip
      cases hstrip

/-- **No text goes on from a dead end.** -/
theorem ne_of_deadEnd {n : ℕ} {lead : List β} (h : deadEnd letters ends n lead = true)
    {text : List (List β × List β)} (hne : text ≠ []) (htext : ∀ p ∈ text, p ∈ letters)
    {last : List β} (hlast : last ∈ ends) :
    lead ++ text.flatMap Prod.fst ≠ text.flatMap Prod.snd ++ last := by
  induction n generalizing lead text with
  | zero => cases h
  | succ n ih =>
    obtain ⟨⟨first, second⟩, rest, rfl⟩ := exists_cons_of_ne_nil hne
    intro heq
    rw [flatMap_cons, flatMap_cons, append_assoc, ← append_assoc] at heq
    obtain ⟨lead', hlead, hend, hdead⟩ := deadEnd_succ h (htext _ mem_cons_self) heq
    rw [hlead, append_assoc] at heq
    have hrest := append_cancel_left heq
    -- either the text ends here, or it goes on from the new lead
    cases rest with
    | nil =>
      rw [flatMap_nil, flatMap_nil, append_nil, nil_append] at hrest
      exact hend (hrest ▸ hlast)
    | cons p rest =>
      exact ih hdead (cons_ne_nil _ _)
        (fun q hq => htext q (mem_cons_of_mem _ hq)) hrest

end TwoCodes

end SmscGateway
