import SmscGateway.Routes.Config

/-!
# Prefix scans

`ScanPrefix` iterates from the prefix up to `prefixUpperBound`, which adds one to
the last byte that is not 0xFF. The 0xFF bytes behind it have wrapped to zero by
then and stay part of the bound. A prefix that ends in 0xFF therefore has a bound
that is too long: the shorter keys in front of it are scanned too, although they do
not start with the prefix (`scan_sees_prefix_iff`).
-/

namespace SmscGateway

open List

namespace Store

variable {β : Type} {p k : Bytes}

/-- The loop of `prefixUpperBound`, from the last byte on. -/
def carry : Bytes → Option Bytes
  | [] => none
  | b :: rest => if b + 1 ≠ 0 then some ((b + 1) :: rest) else (carry rest).map ((b + 1) :: ·)

/-- `prefixUpperBound`; `none` is nil, for which Pebble has no upper bound. -/
def prefixUpperBound (p : Bytes) : Option Bytes := (carry p.reverse).map List.reverse

/-- The keys an iterator with the bounds of `ScanPrefix` stops at. -/
def InBounds (p k : Bytes) : Prop := p ≤ k ∧ ∀ u ∈ prefixUpperBound p, k < u
  deriving Decidable

/-- The loop of `ScanPrefix`: the keys `fn` is called with, and how it ends. The
first error ends it. -/
def scanLoop {σ ε : Type} (fn : σ → Bytes → β → σ × Option ε) :
    List (Bytes × β) → σ → List Bytes × σ × Option ε
  | [], s => ([], s, none)
  | (k, v) :: rest, s =>
    match fn s k v with
    | (s', some err) => ([k], s', some err)
    | (s', none) =>
      let (calls, r) := scanLoop fn rest s'
      (k :: calls, r)

/-- `ScanPrefix`. -/
def scanPrefix {σ ε : Type} (m : SortedMap Bytes β) (p : Bytes)
    (fn : σ → Bytes → β → σ × Option ε) (s : σ) : List Bytes × σ × Option ε :=
  scanLoop fn (m.entries.filter fun e => InBounds p e.1) s

/-- The scan calls a function that does not fail once for each stored key that
starts with `p`, in byte order, and for no other key. -/
def SeesPrefix (m : SortedMap Bytes β) (p : Bytes) : Prop :=
  ∀ (σ ε : Type) (fn : σ → Bytes → β → σ × Option ε) (s : σ), (∀ s k v, (fn s k v).2 = none) →
    (scanPrefix m p fn s).1.Pairwise (· < ·) ∧
      ∀ k, k ∈ (scanPrefix m p fn s).1 ↔ (m.find? k).isSome ∧ p <+: k

/-- A key in front of a bound with wrapped bytes: the bound cut off among them. -/
def Overshoot (p k : Bytes) : Prop :=
  ∃ (q : Bytes) (b : UInt8) (n j : ℕ), b ≠ 255 ∧ p = q ++ b :: replicate n 255 ∧ j < n ∧
    k = q ++ (b + 1) :: replicate j 0

/-! ## The bound -/

theorem succ_eq_zero_iff {b : UInt8} : b + 1 = 0 ↔ b = 255 := by
  revert b; decide +kernel

theorem carry_ff (n : ℕ) (l : Bytes) :
    carry (replicate n 255 ++ l) = (carry l).map (replicate n 0 ++ ·) := by
  induction n with
  | zero => simp
  | succ n ih =>
    have hwrap : (255 : UInt8) + 1 = 0 := rfl
    simp [replicate_succ, carry, hwrap, ih, Function.comp_def]

/-- A prefix is all 0xFF, or has a last byte that is not. -/
theorem ff_or_split (p : Bytes) : (∃ n, p = replicate n 255) ∨
    ∃ (q : Bytes) (b : UInt8) (n : ℕ), b ≠ 255 ∧ p = q ++ b :: replicate n 255 := by
  induction p with
  | nil => exact .inl ⟨0, rfl⟩
  | cons a p ih =>
    rcases ih with ⟨n, rfl⟩ | ⟨q, b, n, hb, rfl⟩
    · by_cases ha : a = 255
      · exact .inl ⟨n + 1, by rw [ha]; rfl⟩
      · exact .inr ⟨[], a, n, ha, rfl⟩
    · exact .inr ⟨a :: q, b, n, hb, rfl⟩

theorem prefixUpperBound_ff (n : ℕ) : prefixUpperBound (replicate n 255) = none := by
  have h := carry_ff n []
  simp_all [prefixUpperBound, carry]

theorem prefixUpperBound_split {q : Bytes} {b : UInt8} (hb : b ≠ 255) (n : ℕ) :
    prefixUpperBound (q ++ b :: replicate n 255) =
      some (q ++ (b + 1) :: replicate n 0) := by
  have h := carry_ff n (b :: q.reverse)
  simp_all [prefixUpperBound, carry, succ_eq_zero_iff]

/-! ## What lies in front of it -/

/-- Nothing is greater than 0xFF. -/
theorem ff_le_iff (n : ℕ) (k : Bytes) :
    replicate n 255 ≤ k ↔ replicate n 255 <+: k := by
  rw [← not_lt]
  induction n generalizing k with
  | zero => simp
  | succ n ih =>
    cases k with
    | nil => simp [replicate_succ]
    | cons c k =>
      have htop : ¬ c < 255 ↔ 255 = c := by revert c; decide +kernel
      rw [replicate_succ, cons_lt_cons_iff, cons_prefix_cons, ← ih k, not_or, htop]
      constructor
      · rintro ⟨rfl, h⟩
        exact ⟨rfl, fun hlt => h ⟨rfl, hlt⟩⟩
      · rintro ⟨rfl, h⟩
        exact ⟨rfl, fun hlt => h hlt.2⟩

/-- In front of zeros there are only fewer zeros. -/
theorem lt_zeros_iff (n : ℕ) (k : Bytes) :
    k < replicate n 0 ↔ ∃ j < n, k = replicate j 0 := by
  induction n generalizing k with
  | zero => simp
  | succ n ih =>
    cases k with
    | nil => exact ⟨fun _ => ⟨0, n.succ_pos, rfl⟩, fun _ => by simp [replicate_succ]⟩
    | cons c k =>
      have hbot : ¬ c < 0 := by simp
      simp only [replicate_succ, cons_lt_cons_iff, hbot, false_or, ih k]
      constructor
      · rintro ⟨rfl, j, hj, rfl⟩
        exact ⟨j + 1, Nat.succ_lt_succ hj, rfl⟩
      · rintro ⟨_ | j, hj, h⟩
        · cases h
        · cases h
          exact ⟨rfl, j, Nat.lt_of_succ_lt_succ hj, rfl⟩

/-- Between two strings with a common head everything has that head. -/
theorem between_append {q x y : Bytes} :
    q ++ x ≤ k ∧ k < q ++ y ↔ ∃ z, k = q ++ z ∧ x ≤ z ∧ z < y := by
  simp only [← not_lt]
  induction q generalizing k with
  | nil => simp
  | cons a q ih =>
    cases k with
    | nil => simp
    | cons c k =>
      simp only [cons_append, cons_lt_cons_iff, cons.injEq, not_or, not_and]
      constructor
      · rintro ⟨⟨hac, hle⟩, hca | ⟨rfl, hlt⟩⟩
        · exact absurd hca hac
        · obtain ⟨z, rfl, hz⟩ := ih.mp ⟨hle rfl, hlt⟩
          exact ⟨z, ⟨rfl, rfl⟩, hz⟩
      · rintro ⟨z, ⟨rfl, rfl⟩, hz⟩
        have h := ih.mpr ⟨z, rfl, hz⟩
        exact ⟨⟨lt_irrefl _, fun _ => h.1⟩, .inr ⟨rfl, h.2⟩⟩

/-- The first byte between `b` and `b + 1` is one of them. -/
theorem between_cons {b c : UInt8} {x y z : Bytes} (hb : b ≠ 255) :
    b :: x ≤ c :: z ∧ c :: z < (b + 1) :: y ↔ b = c ∧ x ≤ z ∨ c = b + 1 ∧ z < y := by
  have hsucc : b < b + 1 := by revert b; decide +kernel
  have hgap : c < b + 1 ↔ ¬ b < c := by
    have htoNat : (b + 1).toNat = b.toNat + 1 := by revert b; decide +kernel
    rw [UInt8.lt_iff_toNat_lt, UInt8.lt_iff_toNat_lt, htoNat]
    omega
  simp only [← not_lt, cons_lt_cons_iff, hgap, not_or, not_and]
  constructor
  · rintro ⟨⟨hcb, hle⟩, hbc | ⟨rfl, hlt⟩⟩
    · have heq : b = c := le_antisymm (not_lt.mp hcb) (not_lt.mp hbc)
      exact .inl ⟨heq, hle heq.symm⟩
    · exact .inr ⟨rfl, hlt⟩
  · rintro (⟨rfl, hle⟩ | ⟨rfl, hlt⟩)
    · exact ⟨⟨lt_irrefl _, fun _ => hle⟩, .inl (lt_irrefl _)⟩
    · exact ⟨⟨lt_asymm hsucc, fun h => absurd h hsucc.ne'⟩, .inr ⟨rfl, hlt⟩⟩

theorem inBounds_split {q : Bytes} {b : UInt8} {n : ℕ} (hb : b ≠ 255) :
    InBounds (q ++ b :: replicate n 255) k ↔ q ++ b :: replicate n 255 <+: k ∨
      ∃ j < n, k = q ++ (b + 1) :: replicate j 0 := by
  simp only [InBounds, prefixUpperBound_split hb, Option.mem_some_iff, forall_eq', between_append]
  constructor
  · rintro ⟨_ | ⟨c, z⟩, rfl, h⟩
    · exact absurd h.1 (not_le.mpr (nil_lt_cons _ _))
    · rcases (between_cons hb).mp h with ⟨rfl, hle⟩ | ⟨rfl, hlt⟩
      · refine .inl ((prefix_append_right_inj q).mpr (cons_prefix_cons.mpr ⟨rfl, ?_⟩))
        exact (ff_le_iff n z).mp hle
      · obtain ⟨j, hj, rfl⟩ := (lt_zeros_iff n z).mp hlt
        exact .inr ⟨j, hj, rfl⟩
  · rintro (⟨z, rfl⟩ | ⟨j, hj, rfl⟩)
    · refine ⟨b :: (replicate n 255 ++ z), by simp, (between_cons hb).mpr (.inl ⟨rfl, ?_⟩)⟩
      exact (ff_le_iff n _).mpr (prefix_append _ z)
    · exact ⟨_, rfl, (between_cons hb).mpr (.inr ⟨rfl, (lt_zeros_iff n _).mpr ⟨j, hj, rfl⟩⟩)⟩

/-- **The interval** holds the keys with the prefix and those it overshoots to. -/
theorem inBounds_iff : InBounds p k ↔ p <+: k ∨ Overshoot p k := by
  constructor
  · intro h
    rcases ff_or_split p with ⟨n, rfl⟩ | ⟨q, b, n, hb, rfl⟩
    · exact .inl ((ff_le_iff n k).mp h.1)
    · refine ((inBounds_split hb).mp h).imp id ?_
      rintro ⟨j, hj, hk⟩
      exact ⟨q, b, n, j, hb, rfl, hj, hk⟩
  · rintro (h | ⟨q, b, n, j, hb, rfl, hj, hk⟩)
    · rcases ff_or_split p with ⟨n, rfl⟩ | ⟨q, b, n, hb, rfl⟩
      · exact ⟨(ff_le_iff n k).mpr h, by simp [prefixUpperBound_ff]⟩
      · exact (inBounds_split hb).mpr (.inl h)
    · exact (inBounds_split hb).mpr (.inr ⟨j, hj, hk⟩)

/-- What the scan overshoots to is shorter than the prefix. -/
theorem Overshoot.not_prefix (h : Overshoot p k) : ¬ p <+: k := by
  obtain ⟨q, b, n, j, -, rfl, hj, rfl⟩ := h
  intro hprefix
  have hlen := hprefix.length_le
  simp only [length_append, length_cons, length_replicate] at hlen
  omega

/-- Only a prefix that ends in 0xFF behind another byte overshoots. -/
theorem exists_overshoot_iff :
    (∃ k, Overshoot p k) ↔ p.getLast? = some 255 ∧ ∃ b ∈ p, b ≠ 255 := by
  constructor
  · rintro ⟨-, q, b, n, j, hb, rfl, hj, -⟩
    obtain ⟨n, rfl⟩ := Nat.exists_eq_add_one.mpr (Nat.zero_lt_of_lt hj)
    refine ⟨?_, b, by simp, hb⟩
    rw [replicate_succ', ← cons_append, ← append_assoc, getLast?_concat]
  · rintro ⟨hlast, c, hc, hne⟩
    rcases ff_or_split p with ⟨n, rfl⟩ | ⟨q, b, _ | n, hb, rfl⟩
    · exact absurd (mem_replicate.mp hc).2 hne
    · simp [hb] at hlast
    · exact ⟨_, q, b, n + 1, 0, hb, rfl, n.succ_pos, rfl⟩

/-! ## The calls -/

theorem calls_scanLoop {σ ε : Type} {fn : σ → Bytes → β → σ × Option ε}
    (hfn : ∀ s k v, (fn s k v).2 = none) (l : List (Bytes × β)) (s : σ) :
    (scanLoop fn l s).1 = l.map Prod.fst := by
  induction l generalizing s with
  | nil => rfl
  | cons e l ih =>
    have hok := hfn s e.1 e.2
    rw [scanLoop]
    split
    · simp_all
    · simp [ih]

theorem calls_scanPrefix {σ ε : Type} {fn : σ → Bytes → β → σ × Option ε}
    (hfn : ∀ s k v, (fn s k v).2 = none) (m : SortedMap Bytes β) (p : Bytes) (s : σ) :
    (scanPrefix m p fn s).1.Pairwise (· < ·) ∧
      ∀ k, k ∈ (scanPrefix m p fn s).1 ↔ (m.find? k).isSome ∧ InBounds p k := by
  rw [scanPrefix, calls_scanLoop hfn]
  refine ⟨pairwise_map.mpr (m.sorted.filter _), fun k => ?_⟩
  simp [Option.isSome_iff_exists, ← SortedMap.mem_entries_iff]

/-- **Which prefixes are scanned exactly.** A scan sees the keys with its prefix and
no other unless a key is stored that it overshoots to. -/
theorem scan_sees_prefix_iff (m : SortedMap Bytes β) (p : Bytes) :
    (SeesPrefix m p ↔ ∀ k, (m.find? k).isSome → ¬ Overshoot p k) ∧
      (∀ k, (p <+: k ↔ InBounds p k) ↔ ¬ Overshoot p k) ∧
      ((∀ k, p <+: k ↔ InBounds p k) ↔ ¬ (p.getLast? = some 255 ∧ ∃ b ∈ p, b ≠ 255)) := by
  have hkey : ∀ k, (p <+: k ↔ InBounds p k) ↔ ¬ Overshoot p k := by
    intro k
    rw [inBounds_iff]
    exact ⟨fun h hover => hover.not_prefix (h.mpr (.inr hover)), fun h => by simp [h]⟩
  refine ⟨?_, hkey, ?_⟩
  · constructor
    · intro hsees k hk hover
      have hfn : ∀ (s : Unit) (k : Bytes) (v : β), ((s, none) : Unit × Option Unit).2 = none :=
        fun _ _ _ => rfl
      have hcalled := ((calls_scanPrefix hfn m p ()).2 k).mpr ⟨hk, inBounds_iff.mpr (.inr hover)⟩
      exact hover.not_prefix (((hsees Unit Unit _ () hfn).2 k).mp hcalled).2
    · intro hnone σ ε fn s hfn
      obtain ⟨hsorted, hmem⟩ := calls_scanPrefix hfn m p s
      refine ⟨hsorted, fun k => (hmem k).trans (and_congr_right fun hk => ?_)⟩
      exact ((hkey k).mpr (hnone k hk)).symm
  · rw [← exists_overshoot_iff, not_exists]
    exact forall_congr' hkey

/-- The prefix `a\xff` has the bound `b\x00`, and the key `b` lies in front of it. -/
theorem scan_overshoots :
    ¬ SeesPrefix (SortedMap.empty.insert [98] () : SortedMap Bytes Unit) [97, 255] := by
  intro h
  have hmem := ((h Unit Unit (fun s _ _ => (s, none)) () fun _ _ _ => rfl).2 [98]).mp (by decide)
  exact absurd hmem.2 (by decide)

/-- The prefixes the gateway scans end in a colon, so the routes are loaded from the
keys that start with theirs. -/
theorem calls_eq_scanPrefix {σ ε : Type} {fn : σ → Bytes → β → σ × Option ε}
    (hfn : ∀ s k v, (fn s k v).2 = none) (m : SortedMap Bytes β) (hp : p.getLast? = some 58)
    (s : σ) : (scanPrefix m p fn s).1 = (Routes.scanPrefix m p).map Prod.fst := by
  rw [scanPrefix, calls_scanLoop hfn, Routes.scanPrefix]
  congr 1
  refine filter_congr fun e _ => ?_
  have hnone : ¬ Overshoot p e.1 := by
    intro hover
    have hlast := (exists_overshoot_iff.mp ⟨_, hover⟩).1
    rw [hp] at hlast
    exact absurd hlast (by decide)
  rw [Bool.eq_iff_iff, isPrefixOf_iff_prefix, decide_eq_true_iff, inBounds_iff]
  simp [hnone]

end Store

end SmscGateway
