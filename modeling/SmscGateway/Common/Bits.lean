import SmscGateway.Common.Bytes

/-!
# Bit streams

Bytes read as a stream of `w`-bit words, each from its lowest bit on. Packing
words of one width into words of another keeps the stream, so it is the stream
that a packing loop is proved against: what one assignment of the loop does to
every bit, and from that what the loop does.
-/

namespace SmscGateway

open List

/-- Bit `k` of the stream, `false` behind its end. -/
def bitAt (w : ℕ) (l : Bytes) (k : ℕ) : Bool := (l.getD (k / w) 0).toNat.testBit (k % w)

/-- The stream. -/
def bits (w : ℕ) (l : Bytes) : List Bool := l.flatMap fun b => (List.range w).map b.toNat.testBit

section Stream

variable {w : ℕ}

@[simp] theorem bits_nil : bits w [] = [] := rfl

theorem bits_cons (b : UInt8) (l : Bytes) :
    bits w (b :: l) = (range w).map b.toNat.testBit ++ bits w l := rfl

theorem bits_append (l l' : Bytes) : bits w (l ++ l') = bits w l ++ bits w l' :=
  flatMap_append

theorem length_bits (w : ℕ) (l : Bytes) : (bits w l).length = w * l.length := by
  induction l with
  | nil => simp
  | cons b l ih =>
    rw [bits_cons, length_append, ih, length_map, length_range, length_cons,
      Nat.mul_succ, Nat.add_comm]

@[simp] theorem bitAt_nil (k : ℕ) : bitAt w [] k = false := by
  simp [bitAt]

/-- The first word, and the rest. -/
theorem bitAt_cons (hw : 0 < w) (b : UInt8) (l : Bytes) (k : ℕ) :
    bitAt w (b :: l) k = if k < w then b.toNat.testBit k else bitAt w l (k - w) := by
  split
  · rename_i hlt
    rw [bitAt, Nat.div_eq_of_lt hlt, Nat.mod_eq_of_lt hlt, getD_cons_zero]
  · rename_i hge
    have hk : k = k - w + w := by omega
    have hdiv : k / w = (k - w) / w + 1 := by
      conv_lhs => rw [hk]
      exact Nat.add_div_right _ hw
    have hmod : k % w = (k - w) % w := by
      conv_lhs => rw [hk]
      exact Nat.add_mod_right _ _
    rw [bitAt, bitAt, hdiv, hmod, getD_cons_succ]

theorem bitAt_append (hw : 0 < w) (l l' : Bytes) (k : ℕ) :
    bitAt w (l ++ l') k =
      if k < w * l.length then bitAt w l k else bitAt w l' (k - w * l.length) := by
  have hdiv : k / w < l.length ↔ k < w * l.length := by
    rw [Nat.div_lt_iff_lt_mul hw, Nat.mul_comm]
  by_cases hk : k < w * l.length
  · rw [if_pos hk, bitAt, bitAt, getD_append _ _ _ _ (hdiv.mpr hk)]
  · have hle : w * l.length ≤ k := not_lt.mp hk
    have hquot : k / w - l.length = (k - w * l.length) / w := (Nat.sub_mul_div k w l.length).symm
    have hrem : k % w = (k - w * l.length) % w := (Nat.sub_mul_mod hle).symm
    rw [if_neg hk, bitAt, bitAt, getD_append_right _ _ _ _ (not_lt.mp (mt hdiv.mp hk)), hquot,
      hrem]

/-- Nothing is set behind the end. -/
theorem bitAt_eq_false {l : Bytes} {k : ℕ} (hw : 0 < w) (h : w * l.length ≤ k) :
    bitAt w l k = false := by
  have hle : l.length ≤ k / w := (Nat.le_div_iff_mul_le hw).mpr (by rwa [Nat.mul_comm])
  rw [bitAt, getD_eq_default _ _ hle]
  simp

/-- A stream bit by bit. -/
theorem getElem?_bits (hw : 0 < w) {l : Bytes} {k : ℕ} (h : k < w * l.length) :
    (bits w l)[k]? = some (bitAt w l k) := by
  induction l generalizing k with
  | nil => simp at h
  | cons b l ih =>
    rw [bits_cons, bitAt_cons hw]
    split
    · rename_i hlt
      rw [getElem?_append_left (by simpa using hlt)]
      simp [hlt]
    · rename_i hge
      rw [length_cons, Nat.mul_succ] at h
      rw [getElem?_append_right (by simpa using hge), length_map, length_range]
      exact ih (by omega)

/-- **Words of two widths with the same bits** are the same stream, up to
zeros behind the end of the shorter one. -/
theorem bits_eq_append {v : ℕ} (hv : 0 < v) (hw : 0 < w) {l l' : Bytes}
    (hle : v * l'.length ≤ w * l.length) (h : ∀ k, bitAt w l k = bitAt v l' k) :
    bits w l = bits v l' ++ replicate (w * l.length - v * l'.length) false := by
  refine ext_getElem? fun k => ?_
  by_cases hk : k < w * l.length
  · rw [getElem?_bits hw hk, h k]
    by_cases hk' : k < v * l'.length
    · rw [getElem?_append_left (by rwa [length_bits]), getElem?_bits hv hk']
    · rw [getElem?_append_right (by rw [length_bits]; omega), length_bits,
        bitAt_eq_false hv (not_lt.mp hk'), getElem?_replicate, if_pos (by omega)]
  · rw [getElem?_eq_none (by rw [length_bits]; omega), getElem?_eq_none]
    rw [length_append, length_bits, length_replicate]
    omega

end Stream

/-! ## Reading one bit late -/

/-- What is the same one place on is the same all over. -/
theorem eq_replicate_of_append_eq_cons {β : Type*} {a b : β} {s : List β}
    (h : s ++ [b] = a :: s) : a :: s = replicate (s.length + 1) b := by
  induction s generalizing a with
  | nil =>
    obtain ⟨rfl, -⟩ := cons.inj h
    rfl
  | cons x s ih =>
    obtain ⟨rfl, hrest⟩ := cons.inj h
    have hall := ih hrest
    have hx : x = b := (cons.inj (hall.trans replicate_succ)).1
    rw [length_cons, replicate_succ, ← hall, hx]

/-- **A stream read one bit late is itself** only if all its bits are the one
that follows. -/
theorem take_drop_one_eq_iff {β : Type*} {s fill : List β} :
    ((s ++ fill).drop 1).take s.length = s ↔
      s = [] ∨ ∃ b, fill.head? = some b ∧ s = replicate s.length b := by
  cases s with
  | nil => simp
  | cons a s =>
    rw [cons_append, drop_one, tail_cons, length_cons]
    cases fill with
    | nil =>
      have hshort : (s ++ []).take (s.length + 1) ≠ a :: s := fun h => by
        have := congrArg length h
        simp at this
      refine iff_of_false hshort ?_
      rintro (hnil | ⟨b, hb, -⟩)
      · cases hnil
      · cases hb
    | cons b fill =>
      have htake : (s ++ b :: fill).take (s.length + 1) = s ++ [b] := by
        rw [take_length_add_append]
        rfl
      rw [htake]
      constructor
      · intro h
        exact .inr ⟨b, rfl, eq_replicate_of_append_eq_cons h⟩
      · rintro (hnil | ⟨b', hb', h⟩)
        · cases hnil
        · cases hb'
          have hs : s = replicate s.length b := (cons.inj h).2
          rw [h, replicate_succ', ← hs]

/-! ## Setting bits of a byte stream -/

/-- **One assignment.** Setting bits of one byte sets these bits of the
stream. -/
theorem bitAt_modify_or {l : Bytes} {p : ℕ} (hp : p < l.length) (x : UInt8) (k : ℕ) :
    bitAt 8 (l.modify p (· ||| x)) k =
      (bitAt 8 l k || (decide (k / 8 = p) && x.toNat.testBit (k % 8))) := by
  have hget : (l.modify p (· ||| x)).getD (k / 8) 0 =
      if k / 8 = p then l.getD (k / 8) 0 ||| x else l.getD (k / 8) 0 := by
    rw [getD_eq_getElem?_getD, getElem?_modify, getD_eq_getElem?_getD]
    by_cases hk : k / 8 = p
    · rw [hk, getElem?_eq_getElem hp]
      simp
    · simp [hk, Ne.symm hk]
  rw [bitAt, bitAt, hget]
  by_cases hk : k / 8 = p
  · rw [if_pos hk, UInt8.toNat_or, Nat.testBit_or, decide_eq_true hk, Bool.true_and]
  · rw [if_neg hk, decide_eq_false hk, Bool.false_and, Bool.or_false]

theorem testBit_shiftLeft (x : UInt8) {n j : ℕ} (hn : n < 8) (hj : j < 8) :
    (x <<< UInt8.ofNat n).toNat.testBit j = (decide (n ≤ j) && x.toNat.testBit (j - n)) := by
  have hmod : (UInt8.ofNat n).toNat % 8 = n := by
    rw [UInt8.toNat_ofNat', Nat.mod_eq_of_lt (show n < 2 ^ 8 by omega), Nat.mod_eq_of_lt hn]
  rw [UInt8.toNat_shiftLeft, hmod, Nat.testBit_mod_two_pow, Nat.testBit_shiftLeft,
    decide_eq_true hj, Bool.true_and]

theorem testBit_shiftRight (x : UInt8) {n : ℕ} (hn : n < 8) (j : ℕ) :
    (x >>> UInt8.ofNat n).toNat.testBit j = x.toNat.testBit (n + j) := by
  have hmod : (UInt8.ofNat n).toNat % 8 = n := by
    rw [UInt8.toNat_ofNat', Nat.mod_eq_of_lt (show n < 2 ^ 8 by omega), Nat.mod_eq_of_lt hn]
  rw [UInt8.toNat_shiftRight, hmod, Nat.testBit_shiftRight]

end SmscGateway
