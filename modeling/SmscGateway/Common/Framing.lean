import Mathlib

/-!
# Streams of records

A `Framing` writes records so that the reader finds where each one ends: what
`next` takes off the front of a stream is a whole record, and a whole record
at the front is taken. Then a concatenation of records is read back, the
records in it are the only ones it can be read as, and of a stream that breaks
off just the records before the break are read.
-/

namespace SmscGateway

open List

/-- A way to write records one behind the other. -/
structure Framing (α β : Type*) where
  /-- The records that can be written. -/
  Valid : α → Prop
  encode : α → List β
  /-- Take a record off the front of a stream. -/
  next : List β → Option (α × List β)
  encode_ne_nil : ∀ a, Valid a → encode a ≠ []
  next_encode : ∀ a rest, Valid a → next (encode a ++ rest) = some (a, rest)
  encode_of_next : ∀ l a rest, next l = some (a, rest) → Valid a ∧ l = encode a ++ rest

namespace Framing

variable {α β : Type*} (F : Framing α β)

/-- Take records off the front as long as there is one; the first argument
bounds the number of rounds. -/
def read : ℕ → List β → List α × List β
  | 0, l => ([], l)
  | n + 1, l =>
    match F.next l with
    | none => ([], l)
    | some (a, rest) => ((a :: (read n rest).1), (read n rest).2)

theorem next_nil : F.next [] = none := by
  cases h : F.next [] with
  | none => rfl
  | some x =>
    obtain ⟨a, rest⟩ := x
    obtain ⟨hvalid, hnil⟩ := F.encode_of_next _ _ _ h
    have hne := F.encode_ne_nil a hvalid
    exact absurd (append_eq_nil_iff.mp hnil.symm).1 hne

variable {l : List β} {records : List α} {n : ℕ}

/-- Reading a record makes the stream shorter. -/
theorem length_of_next {rest : List β} {a : α} (h : F.next l = some (a, rest)) :
    rest.length < l.length := by
  obtain ⟨hvalid, rfl⟩ := F.encode_of_next _ _ _ h
  have hpos := length_pos_iff.mpr (F.encode_ne_nil a hvalid)
  rw [length_append]
  omega

/-- **What is read was written**: the records and the rest make up the stream,
and nothing can be read of the rest. -/
theorem read_spec (n : ℕ) (l : List β) (hn : l.length ≤ n) :
    l = (F.read n l).1.flatMap F.encode ++ (F.read n l).2 ∧
      (∀ a ∈ (F.read n l).1, F.Valid a) ∧ F.next (F.read n l).2 = none := by
  induction n generalizing l with
  | zero =>
    obtain rfl := length_eq_zero_iff.mp (Nat.le_zero.mp hn)
    exact ⟨rfl, fun a ha => absurd ha not_mem_nil, F.next_nil⟩
  | succ n ih =>
    rw [read]
    split
    · rename_i hnext
      exact ⟨rfl, fun a ha => absurd ha not_mem_nil, hnext⟩
    · rename_i a rest hnext
      have hlt := F.length_of_next hnext
      obtain ⟨hvalid, hl⟩ := F.encode_of_next _ _ _ hnext
      obtain ⟨hrest, hall, hstop⟩ := ih rest (by omega)
      refine ⟨?_, ?_, hstop⟩
      · rw [flatMap_cons, append_assoc, ← hrest, hl]
      · intro b hb
        rcases mem_cons.mp hb with rfl | hb
        · exact hvalid
        · exact hall b hb

/-- **What was written is read**, up to where nothing can be read. -/
theorem read_append (hvalid : ∀ a ∈ records, F.Valid a) {tail : List β} (htail : F.next tail = none)
    (hn : records.length ≤ n) : F.read n (records.flatMap F.encode ++ tail) = (records, tail) := by
  induction records generalizing n with
  | nil =>
    cases n with
    | zero => rfl
    | succ n => simp only [flatMap_nil, nil_append, read, htail]
  | cons a records ih =>
    cases n with
    | zero => simp at hn
    | succ n =>
      have hnext := F.next_encode a (records.flatMap F.encode ++ tail) (hvalid a mem_cons_self)
      have hrest := ih (fun b hb => hvalid b (mem_cons_of_mem _ hb))
        (n := n) (Nat.le_of_succ_le_succ hn)
      rw [flatMap_cons, append_assoc, read, hnext]
      simp only [hrest]

/-- No more records than elements. -/
theorem length_le_flatMap (hvalid : ∀ a ∈ records, F.Valid a) :
    records.length ≤ (records.flatMap F.encode).length := by
  induction records with
  | nil => simp
  | cons a records ih =>
    have hpos := length_pos_iff.mpr (F.encode_ne_nil a (hvalid a mem_cons_self))
    have hle := ih fun b hb => hvalid b (mem_cons_of_mem _ hb)
    rw [flatMap_cons, length_append, length_cons]
    omega

/-- The whole stream is read just when it is a concatenation of records. -/
theorem read_eq_nil_iff (hn : l.length ≤ n) : (F.read n l).2 = [] ↔
      ∃ records : List α, (∀ a ∈ records, F.Valid a) ∧ l = records.flatMap F.encode := by
  obtain ⟨hl, hvalid, -⟩ := F.read_spec n l hn
  constructor
  · intro hnil
    rw [hnil, append_nil] at hl
    exact ⟨_, hvalid, hl⟩
  · rintro ⟨records, hrecords, rfl⟩
    have hlen := F.length_le_flatMap hrecords
    have hread := F.read_append hrecords F.next_nil (n := n) (by omega)
    rw [append_nil] at hread
    rw [hread]

/-! ## Streams that break off -/

/-- How many of the frames are whole in the first `n` elements of their
concatenation. -/
def whole : List (List β) → ℕ → ℕ
  | [], _ => 0
  | f :: fs, n => if f.length ≤ n then 1 + whole fs (n - f.length) else 0

/-- Nothing is read of a record that breaks off. -/
theorem next_of_prefix {a : α} (ha : F.Valid a) {t : List β} (ht : t <+: F.encode a)
    (hlt : t.length < (F.encode a).length) : F.next t = none := by
  obtain ⟨x, hx⟩ := ht
  cases h : F.next t with
  | none => rfl
  | some y =>
    -- the record read would be at the front of the whole one, too
    obtain ⟨b, r⟩ := y
    obtain ⟨hb, rfl⟩ := F.encode_of_next _ _ _ h
    have hwhole := F.next_encode a [] ha
    have hother := F.next_encode b (r ++ x) hb
    rw [append_nil, ← hx, append_assoc, hother] at hwhole
    have hempty : r ++ x = [] := (Prod.mk.inj (Option.some.inj hwhole)).2
    rw [← hx, (append_eq_nil_iff.mp hempty).2, append_nil] at hlt
    exact absurd hlt (lt_irrefl _)

/-- **Of a stream that breaks off, the whole records are read**, and no
more. -/
theorem read_of_prefix (hvalid : ∀ a ∈ records, F.Valid a) (hl : l <+: records.flatMap F.encode)
    (hn : l.length ≤ n) :
    (F.read n l).1 = records.take (whole (records.map F.encode) l.length) := by
  induction records generalizing l n with
  | nil =>
    have hnil : l = [] := prefix_nil.mp hl
    subst hnil
    cases n with
    | zero => rfl
    | succ n => simp only [read, F.next_nil, take_nil]
  | cons a records ih =>
    have ha := hvalid a mem_cons_self
    rw [flatMap_cons] at hl
    rw [map_cons, whole]
    by_cases hlen : (F.encode a).length ≤ l.length
    · -- the first record is whole
      obtain ⟨rest, rfl⟩ : F.encode a <+: l :=
        prefix_of_prefix_length_le (prefix_append _ _) hl hlen
      have hrest := (prefix_append_right_inj _).mp hl
      have hpos := length_pos_iff.mpr (F.encode_ne_nil a ha)
      rw [length_append] at hn
      cases n with
      | zero => omega
      | succ n =>
        have hread := ih (fun b hb => hvalid b (mem_cons_of_mem _ hb)) hrest
          (n := n) (by omega)
        rw [read, F.next_encode a rest ha, if_pos hlen, length_append, Nat.add_sub_cancel_left,
          Nat.add_comm, take_succ_cons]
        simp only [hread]
    · have hshort : l.length < (F.encode a).length := by omega
      have hpre : l <+: F.encode a :=
        prefix_of_prefix_length_le hl (prefix_append _ _) hshort.le
      have hnone := F.next_of_prefix ha hpre hshort
      rw [if_neg hlen, take_zero]
      cases n with
      | zero => rfl
      | succ n => simp only [read, hnone]

end Framing

end SmscGateway
