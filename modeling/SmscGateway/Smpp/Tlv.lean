import SmscGateway.Common.BigEndian
import SmscGateway.Common.Framing
import SmscGateway.Common.SortedMap

/-!
# Optional parameters

A TLV is a tag, the length of its value, and the value. `TLVSet` is a map from
tags to values; `Encode` writes its TLVs in the order of their tags, whatever
order the map is ranged over, and `DecodeTLVs` puts what it reads into a map,
so that of several TLVs with one tag the last one stays.
-/

namespace SmscGateway

open List SortedMap Option

instance instLinearOrderUInt16 : LinearOrder UInt16 where
  le_refl := UInt16.le_refl
  le_trans := fun _ _ _ => UInt16.le_trans
  le_antisymm := fun _ _ => UInt16.le_antisymm
  le_total := UInt16.le_total
  lt_iff_le_not_ge := fun a b => by
    rw [UInt16.lt_iff_toNat_lt, UInt16.le_iff_toNat_le, UInt16.le_iff_toNat_le]; omega
  toDecidableLE := inferInstance
  toDecidableEq := inferInstance
  toDecidableLT := inferInstance

namespace Smpp

abbrev Tag := UInt16

def tagMessagePayload : Tag := 0x0424

/-- `TLVSet`. -/
abbrev TLVSet := SortedMap Tag Bytes

/-- Tag, length and value; the length field is a `uint16`. -/
def encodeTLV (r : Tag × Bytes) : Bytes :=
  bigEndian 2 r.1.toNat ++ bigEndian 2 r.2.length ++ r.2

namespace TLVSet

/-- The tags of a set. -/
def tags (t : TLVSet) : List Tag := t.entries.map Prod.fst

/-- `Encode`, when ranging over the map yields the tags in this order. -/
def encodeFrom (t : TLVSet) (order : List Tag) : Bytes :=
  (order.insertionSort (· ≤ ·)).flatMap fun tag => encodeTLV (tag, (t.find? tag).getD [])

/-- `Encode`. -/
def encode (t : TLVSet) : Bytes := encodeFrom t (tags t)

end TLVSet

/-- What `DecodeTLVs` complains about. -/
inductive TLVError
  | truncatedHeader (offset available : ℕ)
  | truncatedValue (tag : Tag) (offset need available : ℕ)
  deriving DecidableEq

/-- The loop of `DecodeTLVs` over what stands at `offset`; the first argument
bounds the number of rounds. -/
def decodeFrom : ℕ → TLVSet → ℕ → Bytes → Except TLVError TLVSet
  | 0, t, _, _ => .ok t
  | n + 1, t, offset, data =>
    match data with
    | [] => .ok t
    | t₁ :: t₂ :: l₁ :: l₂ :: rest =>
      let tag := UInt16.ofNat (ofBigEndian [t₁, t₂])
      let length := ofBigEndian [l₁, l₂]
      if length ≤ rest.length then
        decodeFrom n (t.insert tag (rest.take length)) (offset + 4 + length) (rest.drop length)
      else .error (.truncatedValue tag (offset + 4) length rest.length)
    | short => .error (.truncatedHeader offset short.length)

/-- `DecodeTLVs`. -/
def decodeTLVs (data : Bytes) : Except TLVError TLVSet := decodeFrom data.length .empty 0 data

/-! ## Records -/

/-- Take one TLV off the front. -/
def nextTLV : Bytes → Option ((Tag × Bytes) × Bytes)
  | t₁ :: t₂ :: l₁ :: l₂ :: rest =>
    let length := ofBigEndian [l₁, l₂]
    if length ≤ rest.length then
      some ((UInt16.ofNat (ofBigEndian [t₁, t₂]), rest.take length), rest.drop length)
    else none
  | _ => none

/-- Two bytes are a list of length two. -/
theorem exists_pair_bigEndian (n : ℕ) : ∃ a b, bigEndian 2 n = [a, b] := ⟨_, _, rfl⟩

theorem ofBigEndian_pair_lt (a b : UInt8) : ofBigEndian [a, b] < 65536 := by
  simpa using ofBigEndian_lt [a, b]

theorem bigEndian_ofBigEndian_pair (a b : UInt8) : bigEndian 2 (ofBigEndian [a, b]) = [a, b] :=
  bigEndian_ofBigEndian [a, b]

theorem tag_ofBigEndian (tag : Tag) : UInt16.ofNat (ofBigEndian (bigEndian 2 tag.toNat)) = tag := by
  rw [ofBigEndian_bigEndian_of_lt tag.toNat_lt, UInt16.ofNat_toNat]

/-- A TLV whose length fits is read back. -/
theorem nextTLV_encodeTLV (r : Tag × Bytes) (rest : Bytes) (h : r.2.length ≤ 65535) :
    nextTLV (encodeTLV r ++ rest) = some (r, rest) := by
  obtain ⟨tag, v⟩ := r
  obtain ⟨t₁, t₂, htag⟩ := exists_pair_bigEndian tag.toNat
  obtain ⟨l₁, l₂, hlen⟩ := exists_pair_bigEndian v.length
  have hlength : ofBigEndian [l₁, l₂] = v.length := by
    rw [← hlen, ofBigEndian_bigEndian_of_lt (Nat.lt_succ_of_le h)]
  have hread : UInt16.ofNat (ofBigEndian [t₁, t₂]) = tag := by
    rw [← htag, tag_ofBigEndian]
  simp only [encodeTLV, htag, hlen, cons_append, nil_append, nextTLV, hlength, hread,
    length_append, Nat.le_add_right, if_true, take_left, drop_left]

/-- What is read is a TLV whose length fits. -/
theorem encodeTLV_of_nextTLV (data : Bytes) (r : Tag × Bytes) (rest : Bytes)
    (h : nextTLV data = some (r, rest)) : r.2.length ≤ 65535 ∧ data = encodeTLV r ++ rest := by
  unfold nextTLV at h
  split at h
  · rename_i t₁ t₂ l₁ l₂ behind
    simp only at h
    obtain ⟨hle, h⟩ := ite_none_right_eq_some.mp h
    obtain ⟨rfl, rfl⟩ := Prod.mk.inj (some.inj h)
    have hlt := ofBigEndian_pair_lt l₁ l₂
    have hlen : (behind.take (ofBigEndian [l₁, l₂])).length = ofBigEndian [l₁, l₂] :=
      length_take_of_le hle
    have htag : (UInt16.ofNat (ofBigEndian [t₁, t₂])).toNat = ofBigEndian [t₁, t₂] :=
      Nat.mod_eq_of_lt (ofBigEndian_pair_lt t₁ t₂)
    refine ⟨by rw [hlen]; omega, ?_⟩
    rw [encodeTLV, hlen, htag, bigEndian_ofBigEndian_pair, bigEndian_ofBigEndian_pair]
    simp
  · cases h

theorem encodeTLV_ne_nil (r : Tag × Bytes) : encodeTLV r ≠ [] := by
  obtain ⟨a, b, htag⟩ := exists_pair_bigEndian r.1.toNat
  simp [encodeTLV, htag]

/-- **TLVs one behind the other.** -/
def tlvs : Framing (Tag × Bytes) UInt8 where
  Valid := fun r => r.2.length ≤ 65535
  encode := encodeTLV
  next := nextTLV
  encode_ne_nil := fun r _ => encodeTLV_ne_nil r
  next_encode := nextTLV_encodeTLV
  encode_of_next := encodeTLV_of_nextTLV

/-! ## Decoding -/

/-- Put TLVs into a map, one after the other. -/
def insertAll (t : TLVSet) (records : List (Tag × Bytes)) : TLVSet :=
  records.foldl (fun t r => t.insert r.1 r.2) t

section Loop

variable {n offset : ℕ} {t : TLVSet} {data : Bytes}

/-- Where no TLV can be read, the loop stops: at the end of the data, or with
an error. -/
theorem decodeFrom_of_none (h : nextTLV data = none) :
    if data = [] then decodeFrom (n + 1) t offset data = .ok t
    else ∃ e, decodeFrom (n + 1) t offset data = .error e := by
  rcases data with _ | ⟨t₁, _ | ⟨t₂, _ | ⟨l₁, _ | ⟨l₂, rest⟩⟩⟩⟩
  · rfl
  · exact ⟨_, rfl⟩
  · exact ⟨_, rfl⟩
  · exact ⟨_, rfl⟩
  · have hlong : ¬ ofBigEndian [l₁, l₂] ≤ rest.length := by
      intro hle
      simp only [nextTLV, hle, if_true] at h
      cases h
    exact ⟨_, by simp only [decodeFrom, if_neg hlong]; rfl⟩

/-- A TLV that can be read goes into the map. -/
theorem decodeFrom_of_some {r : Tag × Bytes} {rest : Bytes} (h : nextTLV data = some (r, rest)) :
    ∃ offset', decodeFrom (n + 1) t offset data =
      decodeFrom n (t.insert r.1 r.2) offset' rest := by
  rcases data with _ | ⟨t₁, _ | ⟨t₂, _ | ⟨l₁, _ | ⟨l₂, behind⟩⟩⟩⟩
  · cases h
  · cases h
  · cases h
  · cases h
  · by_cases hle : ofBigEndian [l₁, l₂] ≤ behind.length
    · simp only [nextTLV, hle, if_true] at h
      obtain ⟨rfl, rfl⟩ := Prod.mk.inj (some.inj h)
      exact ⟨_, by simp only [decodeFrom, if_pos hle]; rfl⟩
    · simp only [nextTLV, hle, if_false] at h
      cases h

end Loop

/-- **What the loop returns**: everything is put into the map, unless
something is left that is no TLV. -/
theorem decodeFrom_spec (n : ℕ) (t : TLVSet) (offset : ℕ) (data : Bytes) (hn : data.length ≤ n) :
    if (tlvs.read n data).2 = [] then
      decodeFrom n t offset data = .ok (insertAll t (tlvs.read n data).1)
    else ∃ e, decodeFrom n t offset data = .error e := by
  induction n generalizing t offset data with
  | zero =>
    obtain rfl := length_eq_zero_iff.mp (Nat.le_zero.mp hn)
    rfl
  | succ n ih =>
    cases hnext : tlvs.next data with
    | none =>
      have hread : tlvs.read (n + 1) data = ([], data) := by simp only [Framing.read, hnext]
      rw [hread]
      exact decodeFrom_of_none hnext
    | some x =>
      obtain ⟨r, rest⟩ := x
      have hread : tlvs.read (n + 1) data =
          (r :: (tlvs.read n rest).1, (tlvs.read n rest).2) := by
        simp only [Framing.read, hnext]
      have hlt := tlvs.length_of_next hnext
      obtain ⟨offset', hloop⟩ : ∃ offset', decodeFrom (n + 1) t offset data =
          decodeFrom n (t.insert r.1 r.2) offset' rest := decodeFrom_of_some hnext
      rw [hread, hloop]
      exact ih (t.insert r.1 r.2) offset' rest (by omega)

/-- **`DecodeTLVs` accepts concatenations of TLVs**, and nothing else. -/
theorem decodeTLVs_isOk_iff (d : Bytes) :
    (∃ t, decodeTLVs d = .ok t) ↔
      ∃ records : List (Tag × Bytes), (∀ r ∈ records, r.2.length ≤ 65535) ∧
        d = records.flatMap encodeTLV := by
  have hspec := decodeFrom_spec d.length .empty 0 d le_rfl
  refine Iff.trans ?_ (tlvs.read_eq_nil_iff le_rfl)
  split at hspec
  · rename_i hnil
    exact ⟨fun _ => hnil, fun _ => ⟨_, hspec⟩⟩
  · rename_i hne
    obtain ⟨e, he⟩ := hspec
    refine ⟨?_, fun h => absurd h hne⟩
    rintro ⟨t, ht⟩
    rw [decodeTLVs, he] at ht
    cases ht

variable {records : List (Tag × Bytes)} {t : TLVSet}

/-- What it makes of a concatenation. -/
theorem decodeTLVs_flatMap (h : ∀ r ∈ records, r.2.length ≤ 65535) :
    decodeTLVs (records.flatMap encodeTLV) = .ok (insertAll .empty records) := by
  have hlen : records.length ≤ (records.flatMap encodeTLV).length := tlvs.length_le_flatMap h
  have hread := tlvs.read_append h tlvs.next_nil hlen
  rw [append_nil] at hread
  have hspec := decodeFrom_spec (records.flatMap encodeTLV).length .empty 0
    (records.flatMap encodeTLV) le_rfl
  rw [show tlvs.read (records.flatMap encodeTLV).length (records.flatMap encodeTLV) =
    (records, []) from hread, if_pos rfl] at hspec
  exact hspec

/-- What it makes of a single one. -/
theorem decodeTLVs_encodeTLV {r : Tag × Bytes} (h : r.2.length ≤ 65535) :
    decodeTLVs (encodeTLV r) = .ok (SortedMap.empty.insert r.1 r.2) := by
  have hone : ∀ r' ∈ [r], r'.2.length ≤ 65535 := by
    intro r' hr'
    rwa [mem_singleton.mp hr']
  have hdecode := decodeTLVs_flatMap hone
  rwa [flatMap_singleton] at hdecode

/-- The value of the last TLV with a tag. -/
def lastValue (records : List (Tag × Bytes)) (tag : Tag) : Option Bytes :=
  ((records.filter fun r => r.1 = tag).getLast?).map Prod.snd

theorem find?_insertAll (t : TLVSet) (records : List (Tag × Bytes)) (tag : Tag) :
    (insertAll t records).find? tag = (lastValue records tag).or (t.find? tag) := by
  induction records generalizing t with
  | nil => rfl
  | cons r records ih =>
    have hstep : insertAll t (r :: records) = insertAll (t.insert r.1 r.2) records := rfl
    rw [hstep, ih, find?_insert]
    by_cases htag : r.1 = tag
    · subst htag
      rw [if_pos rfl, lastValue, lastValue, filter_cons_of_pos (by simp), getLast?_cons]
      cases (records.filter fun x => x.1 = r.1).getLast? <;> rfl
    · rw [if_neg (Ne.symm htag), lastValue, lastValue, filter_cons_of_neg (by simpa using htag)]

/-! ## Encoding -/

theorem tags_pairwise (t : TLVSet) : (TLVSet.tags t).Pairwise (· < ·) :=
  pairwise_map.mpr t.sorted

/-- Sorting undoes the order in which the map was ranged over. -/
theorem insertionSort_of_perm {order : List Tag} (h : order.Perm (TLVSet.tags t)) :
    order.insertionSort (· ≤ ·) = TLVSet.tags t := by
  have hsorted : (order.insertionSort (· ≤ ·)).Pairwise (· ≤ ·) :=
    pairwise_insertionSort (· ≤ ·) order
  have hperm : (order.insertionSort (· ≤ ·)).Perm (TLVSet.tags t) :=
    (perm_insertionSort (· ≤ ·) order).trans h
  exact hperm.eq_of_pairwise (fun a b _ _ hab hba => le_antisymm hab hba) hsorted
    ((tags_pairwise t).imp le_of_lt)

/-- **`Encode` writes the entries of the map in the order of their tags.** -/
theorem encodeFrom_eq {order : List Tag} (h : order.Perm (TLVSet.tags t)) :
    TLVSet.encodeFrom t order = t.entries.flatMap encodeTLV := by
  rw [TLVSet.encodeFrom, insertionSort_of_perm h, TLVSet.tags, flatMap_map]
  refine flatMap_congr fun e he => ?_
  rw [mem_entries_iff.mp (show (e.1, e.2) ∈ t.entries from he)]
  rfl

theorem encode_eq (t : TLVSet) : TLVSet.encode t = t.entries.flatMap encodeTLV :=
  encodeFrom_eq (List.Perm.refl _)

/-- The last TLV with a tag is one of them. -/
theorem mem_of_lastValue {tag : Tag} {v : Bytes} (h : lastValue records tag = some v) :
    (tag, v) ∈ records := by
  obtain ⟨e, he, rfl⟩ := map_eq_some_iff.mp h
  obtain ⟨hmem, htag⟩ := mem_filter.mp (mem_of_getLast? he)
  obtain rfl : e.1 = tag := of_decide_eq_true htag
  exact hmem

theorem exists_lastValue {tag : Tag} {v : Bytes} (h : (tag, v) ∈ records) :
    ∃ w, lastValue records tag = some w := by
  have hmem : (tag, v) ∈ records.filter fun r => r.1 = tag :=
    mem_filter.mpr ⟨h, decide_eq_true rfl⟩
  have hne : (records.filter fun r => r.1 = tag) ≠ [] := ne_nil_of_mem hmem
  exact ⟨_, by rw [lastValue, getLast?_eq_some_getLast hne]; rfl⟩

/-- Putting the entries of a map into an empty one gives the map. -/
theorem insertAll_entries (t : TLVSet) : insertAll .empty t.entries = t := by
  refine ext_find? fun tag => ?_
  rw [find?_insertAll, find?_empty, or_none]
  refine ext fun v => ⟨fun h => ?_, fun h => ?_⟩
  · exact mem_entries_iff.mp (mem_of_lastValue h)
  · -- the map has one value for the tag
    obtain ⟨w, hw⟩ := exists_lastValue (mem_entries_iff.mpr h)
    have hfind := mem_entries_iff.mp (mem_of_lastValue hw)
    rw [h] at hfind
    rw [hw, hfind]

/-- **A map is read back from its TLVs.** -/
theorem decodeTLVs_encode (h : ∀ v ∈ t.values, v.length ≤ 65535) :
    decodeTLVs (TLVSet.encode t) = .ok t := by
  have hvalid : ∀ r ∈ t.entries, r.2.length ≤ 65535 := fun r hr =>
    h r.2 (mem_map.mpr ⟨r, hr, rfl⟩)
  rw [encode_eq, decodeTLVs_flatMap hvalid, insertAll_entries]

/-- The values of a map that was decoded fit. -/
theorem values_of_decodeTLVs {d : Bytes} (h : decodeTLVs d = .ok t) :
    ∀ v ∈ t.values, v.length ≤ 65535 := by
  obtain ⟨records, hvalid, rfl⟩ := (decodeTLVs_isOk_iff d).mp ⟨t, h⟩
  rw [decodeTLVs_flatMap hvalid] at h
  obtain rfl := Except.ok.inj h
  intro v hv
  obtain ⟨tag, htag⟩ := mem_values_iff.mp hv
  rw [find?_insertAll, find?_empty, or_none] at htag
  exact hvalid _ (mem_of_lastValue htag)

/-- `Encode` after `DecodeTLVs`. -/
def normalise (d : Bytes) : Option Bytes := (decodeTLVs d).toOption.map TLVSet.encode

/-- **The wire format of optional parameters.** `DecodeTLVs` accepts just the
concatenations of TLVs and keeps the last value of each tag; `Encode` writes
each tag once, in ascending order, in whatever order the map is ranged over,
and is read back; one after the other they normalise. -/
theorem tlv_wire_format :
    (∀ d, (∃ t, decodeTLVs d = .ok t) ↔
      ∃ records : List (Tag × Bytes), (∀ r ∈ records, r.2.length ≤ 65535) ∧
        d = records.flatMap encodeTLV) ∧
    (∀ records : List (Tag × Bytes), (∀ r ∈ records, r.2.length ≤ 65535) →
      ∃ t, decodeTLVs (records.flatMap encodeTLV) = .ok t ∧
        ∀ tag, t.find? tag = lastValue records tag) ∧
    (∀ t : TLVSet, (∀ v ∈ t.values, v.length ≤ 65535) → ∀ order, order.Perm (TLVSet.tags t) →
      (∃ records : List (Tag × Bytes),
        TLVSet.encodeFrom t order = records.flatMap encodeTLV ∧
        (records.map Prod.fst).Pairwise (· < ·) ∧
        ∀ r, r ∈ records ↔ t.find? r.1 = some r.2) ∧
      decodeTLVs (TLVSet.encodeFrom t order) = .ok t) ∧
    ∀ d d', normalise d = some d' → normalise d' = some d' ∧ decodeTLVs d' = decodeTLVs d := by
  refine ⟨decodeTLVs_isOk_iff, ?_, ?_, ?_⟩
  · intro records hvalid
    refine ⟨_, decodeTLVs_flatMap hvalid, fun tag => ?_⟩
    rw [find?_insertAll, find?_empty, Option.or_none]
  · intro t hvalues order horder
    rw [encodeFrom_eq horder]
    refine ⟨⟨t.entries, rfl, tags_pairwise t, fun r => mem_entries_iff⟩, ?_⟩
    rw [← encode_eq]
    exact decodeTLVs_encode hvalues
  · intro d d' h
    obtain ⟨t, ht, rfl⟩ := Option.map_eq_some_iff.mp h
    have hdecode : decodeTLVs d = .ok t := by
      cases hd : decodeTLVs d with
      | error e =>
        rw [hd] at ht
        cases ht
      | ok t' =>
        rw [hd] at ht
        rw [Option.some.inj ht]
    have hback := decodeTLVs_encode (values_of_decodeTLVs hdecode)
    refine ⟨?_, by rw [hback, hdecode]⟩
    rw [normalise, hback]
    rfl

/-- Two TLVs with one tag, and one with a lower tag: the map has two entries,
and `Encode` sorts them. -/
theorem repeated_tag_normalised :
    (∃ records : List (Tag × Bytes),
      TLVSet.encodeFrom ((SortedMap.empty.insert 7 [1]).insert 5 []) [7, 5] =
        records.flatMap encodeTLV ∧
      (records.map Prod.fst).Pairwise (· < ·) ∧
      ∀ r, r ∈ records ↔
        ((SortedMap.empty.insert 7 [1]).insert 5 [] : TLVSet).find? r.1 = some r.2) ∧
    normalise [0, 5, 0, 0, 0, 7, 0, 1, 1] = some [0, 5, 0, 0, 0, 7, 0, 1, 1] := by
  obtain ⟨-, -, hencode, hnormal⟩ := tlv_wire_format
  refine ⟨(hencode _ (by decide) [7, 5] (by decide)).1, ?_⟩
  exact (hnormal [0, 7, 0, 0, 0, 7, 0, 1, 1, 0, 5, 0, 0] _ (by decide)).1

end Smpp

end SmscGateway
