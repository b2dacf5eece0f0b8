import Mathlib

/-!
# Byte strings

A Go string is a byte string, compared byte by byte. This file gives the
bytes their linear order, the decimal numerals `fmt` prints, and the two
facts a key built from a zero-padded number relies on: the padded numeral
determines the number, and byte order on padded numerals is the order of
the numbers.
-/

namespace SmscGateway

open List Nat

/-- A Go string or byte slice. -/
abbrev Bytes := List UInt8

instance instLinearOrderUInt8 : LinearOrder UInt8 where
  le_refl := UInt8.le_refl
  le_trans := fun _ _ _ => UInt8.le_trans
  le_antisymm := fun _ _ => UInt8.le_antisymm
  le_total := UInt8.le_total
  lt_iff_le_not_ge := fun a b => by
    rw [UInt8.lt_iff_toNat_lt, UInt8.le_iff_toNat_le, UInt8.le_iff_toNat_le]; omega
  toDecidableLE := inferInstance
  toDecidableEq := inferInstance
  toDecidableLT := inferInstance

instance instLawfulBEqBytes : LawfulBEq Bytes := inferInstance

/-- The bytes of an ASCII literal. -/
def ascii (s : String) : Bytes := s.toList.map fun c => UInt8.ofNat c.toNat

/-! ## Order on concatenations -/

/-- Behind a common head, byte order is the order of the tails. -/
theorem append_lt_append_left (p : Bytes) {x y : Bytes} : p ++ x < p ++ y ↔ x < y := by
  induction p with
  | nil => simp
  | cons b p ih => simp [ih]

/-- **Fields of equal width compare first.** -/
theorem append_lt_append_of_length {a b x y : Bytes} (h : a.length = b.length) :
    a ++ x < b ++ y ↔ a < b ∨ (a = b ∧ x < y) := by
  induction a generalizing b with
  | nil =>
    obtain rfl : b = [] := length_eq_zero_iff.mp h.symm
    simp
  | cons c a ih =>
    cases b with
    | nil => simp at h
    | cons d b =>
      have hlen : a.length = b.length := by simpa using h
      simp only [cons_append, cons_lt_cons_iff, ih hlen, cons.injEq]
      tauto

/-! ## Decimal numerals -/

/-- The digit bytes `'0'` to `'9'`. -/
def IsDigit (b : UInt8) : Prop := 48 ≤ b.toNat ∧ b.toNat ≤ 57

/-- What `%d` prints for a natural number. -/
def decimal (n : ℕ) : Bytes := (Nat.toDigits 10 n).map fun c => UInt8.ofNat c.toNat

/-- What `%0wd` prints for a natural number. -/
def padded (w n : ℕ) : Bytes := List.replicate (w - (decimal n).length) 48 ++ decimal n

/-- The number a string of digits stands for. -/
def numeral (l : Bytes) : ℕ := l.foldl (fun acc b => 10 * acc + (b.toNat - 48)) 0

theorem foldl_numeral (l : Bytes) (acc : ℕ) :
    l.foldl (fun acc b => 10 * acc + (b.toNat - 48)) acc = 10 ^ l.length * acc + numeral l := by
  induction l generalizing acc with
  | nil => simp [numeral]
  | cons b l ih =>
    rw [numeral, foldl_cons, foldl_cons, ih (10 * acc + (b.toNat - 48)),
      ih (10 * 0 + (b.toNat - 48)), length_cons]
    ring

theorem numeral_cons (b : UInt8) (l : Bytes) :
    numeral (b :: l) = 10 ^ l.length * (b.toNat - 48) + numeral l := by
  rw [numeral, foldl_cons, foldl_numeral]
  simp

theorem numeral_lt {l : Bytes} (h : ∀ b ∈ l, IsDigit b) : numeral l < 10 ^ l.length := by
  induction l with
  | nil => simp [numeral]
  | cons b l ih =>
    have hb : b.toNat - 48 ≤ 9 := by have := h b (by simp); unfold IsDigit at this; omega
    have hl := ih fun c hc => h c (mem_cons_of_mem _ hc)
    rw [numeral_cons, length_cons, pow_succ]
    nlinarith

/-- **On digit strings of one length, byte order is numeric order.** -/
theorem lt_iff_numeral_lt {l m : Bytes} (hlen : l.length = m.length)
    (hl : ∀ b ∈ l, IsDigit b) (hm : ∀ b ∈ m, IsDigit b) : l < m ↔ numeral l < numeral m := by
  induction l generalizing m with
  | nil =>
    obtain rfl : m = [] := length_eq_zero_iff.mp hlen.symm
    simp
  | cons b l ih =>
    cases m with
    | nil => simp at hlen
    | cons c m =>
      have hlen' : l.length = m.length := by simpa using hlen
      have hl' : ∀ x ∈ l, IsDigit x := fun x hx => hl x (mem_cons_of_mem _ hx)
      have hm' : ∀ x ∈ m, IsDigit x := fun x hx => hm x (mem_cons_of_mem _ hx)
      have hb := hl b (by simp)
      have hc := hm c (by simp)
      have hlt := numeral_lt hl'
      have hmt := numeral_lt hm'
      rw [hlen'] at hlt
      rw [cons_lt_cons_iff, ih hlen' hl' hm', numeral_cons, numeral_cons, hlen',
        UInt8.lt_iff_toNat_lt, ← UInt8.toNat_inj]
      unfold IsDigit at hb hc
      -- the leading digits decide, unless they are equal
      rcases lt_trichotomy b.toNat c.toNat with hbc | hbc | hbc
      · have : (b.toNat - 48) + 1 ≤ c.toNat - 48 := by omega
        have := mul_le_mul_left (10 ^ m.length) this
        rw [mul_add] at this
        constructor
        · intro _; omega
        · intro _; exact Or.inl hbc
      · rw [hbc]; omega
      · have : (c.toNat - 48) + 1 ≤ b.toNat - 48 := by omega
        have := mul_le_mul_left (10 ^ m.length) this
        rw [mul_add] at this
        constructor
        · rintro (h | h) <;> omega
        · intro _; omega

theorem isDigit_of_mem_decimal {n : ℕ} {b : UInt8} (h : b ∈ decimal n) : IsDigit b := by
  obtain ⟨c, hc, rfl⟩ := mem_map.mp h
  have hd := isDigit_of_mem_toDigits (by norm_num) (by norm_num) hc
  simp only [Char.isDigit, Bool.and_eq_true, decide_eq_true_eq] at hd
  have h1 : 48 ≤ c.toNat := hd.1
  have h2 : c.toNat ≤ 57 := hd.2
  unfold IsDigit
  rw [UInt8.toNat_ofNat']
  omega

theorem numeral_decimal (n : ℕ) : numeral (decimal n) = n := by
  have key : ∀ (cs : List Char) (acc : ℕ), (∀ c ∈ cs, c.isDigit) →
      (cs.map fun c => UInt8.ofNat c.toNat).foldl (fun acc b => 10 * acc + (b.toNat - 48)) acc =
        ofDigitChars 10 cs acc := by
    intro cs
    induction cs with
    | nil => intro acc _; rfl
    | cons c cs ih =>
      intro acc h
      have hc := h c (by simp)
      simp only [Char.isDigit, Bool.and_eq_true, decide_eq_true_eq] at hc
      have h2 : c.toNat ≤ 57 := hc.2
      rw [map_cons, foldl_cons, ih _ fun d hd => h d (mem_cons_of_mem _ hd),
        ofDigitChars_cons, UInt8.toNat_ofNat', mod_eq_of_lt (by omega)]
      rfl
  rw [numeral, decimal, key _ _ fun c hc => isDigit_of_mem_toDigits (by norm_num) (by norm_num) hc]
  exact ofDigitChars_ten_toDigits

theorem decimal_injective : Function.Injective decimal := fun m n h => by
  rw [← numeral_decimal m, h, numeral_decimal]

theorem isDigit_of_mem_padded {w n : ℕ} {b : UInt8} (h : b ∈ padded w n) : IsDigit b := by
  rcases mem_append.mp h with h | h
  · rw [eq_of_mem_replicate h]
    exact ⟨by decide, by decide⟩
  · exact isDigit_of_mem_decimal h

theorem numeral_padded (w n : ℕ) : numeral (padded w n) = n := by
  have zeros : ∀ k, numeral (replicate k 48) = 0 := by
    intro k
    induction k with
    | zero => rfl
    | succ k ih => rw [replicate_succ, numeral_cons, ih]; simp
  rw [numeral, padded, foldl_append, foldl_numeral, ← numeral, zeros, numeral_decimal]
  simp

theorem padded_injective (w : ℕ) : Function.Injective (padded w) := fun m n h => by
  rw [← numeral_padded w m, h, numeral_padded]

theorem length_padded {w n : ℕ} (hw : 0 < w) (h : n < 10 ^ w) : (padded w n).length = w := by
  have hle : (decimal n).length ≤ w := by
    rw [decimal, length_map]
    exact (length_toDigits_le_iff (by norm_num) hw).mpr h
  simp [padded]
  omega

/-- **Zero-padded numerals sort as their numbers.** -/
theorem padded_lt_padded {w m n : ℕ} (hw : 0 < w) (hm : m < 10 ^ w) (hn : n < 10 ^ w) :
    padded w m < padded w n ↔ m < n := by
  rw [lt_iff_numeral_lt (by rw [length_padded hw hm, length_padded hw hn])
    (fun _ => isDigit_of_mem_padded) (fun _ => isDigit_of_mem_padded), numeral_padded,
    numeral_padded]

/-- A numeral followed by a non-digit is read back whole, whatever comes
after it. -/
theorem eq_of_digits_append {a b x y : Bytes} {c : UInt8} (hc : ¬ IsDigit c)
    (ha : ∀ d ∈ a, IsDigit d) (hb : ∀ d ∈ b, IsDigit d)
    (h : a ++ c :: x = b ++ c :: y) : a = b ∧ x = y := by
  induction a generalizing b with
  | nil =>
    cases b with
    | nil => simpa using h
    | cons d b =>
      simp only [nil_append, cons_append, cons.injEq] at h
      exact absurd (hb d (by simp)) (h.1 ▸ hc)
  | cons e a ih =>
    cases b with
    | nil =>
      simp only [nil_append, cons_append, cons.injEq] at h
      exact absurd (ha e (by simp)) (h.1 ▸ hc)
    | cons d b =>
      simp only [cons_append, cons.injEq] at h
      obtain ⟨rfl, rfl⟩ := ih (fun z hz => ha z (mem_cons_of_mem _ hz))
        (fun z hz => hb z (mem_cons_of_mem _ hz)) h.2
      exact ⟨by rw [h.1], rfl⟩

end SmscGateway
