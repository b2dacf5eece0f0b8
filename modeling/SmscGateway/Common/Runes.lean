import SmscGateway.Common.Bytes

/-!
# The runes of a Go string

A Go string holds bytes, and a loop over it sees runes: the characters its
UTF-8 sequences stand for, and U+FFFD for each byte that belongs to none. A
string all of whose runes are characters is their UTF-8 form.
-/

namespace SmscGateway

open List

/-- `utf8.RuneError`. -/
def runeError : Char := '\uFFFD'

/-- `utf8.DecodeRune`: the rune a non-empty string starts with, and its
width. -/
def decodeRune (s : Bytes) : Char × ℕ :=
  match s.toByteArray.utf8DecodeChar? 0 with
  | some c => (c, c.utf8Size)
  | none => (runeError, 1)

def runesUpto : ℕ → Bytes → List Char
  | 0, _ => []
  | _ + 1, [] => []
  | n + 1, b :: s => (decodeRune (b :: s)).1 :: runesUpto n ((b :: s).drop (decodeRune (b :: s)).2)

/-- The runes a `range` loop over a string gets, with the string's length as
fuel. -/
def runes (s : Bytes) : List Char := runesUpto s.length s

/-- A string from runes. -/
def encodeRunes (l : List Char) : Bytes := l.flatMap String.utf8EncodeChar

theorem utf8EncodeChar_length_pos (c : Char) : 0 < (String.utf8EncodeChar c).length := by
  rw [String.length_utf8EncodeChar]
  exact c.utf8Size_pos

theorem decodeRune_width_pos (s : Bytes) : 0 < (decodeRune s).2 := by
  rw [decodeRune]
  split
  · exact Char.utf8Size_pos _
  · exact Nat.one_pos

/-- A character is read back. -/
theorem decodeRune_append (c : Char) (rest : Bytes) :
    decodeRune (String.utf8EncodeChar c ++ rest) = (c, c.utf8Size) := by
  have hone : (String.utf8EncodeChar c).toByteArray.utf8DecodeChar? 0 = some c := by
    have h := utf8DecodeChar?_utf8Encode_singleton (c := c)
    rwa [utf8Encode, flatMap_singleton] at h
  rw [decodeRune, toByteArray_append, ByteArray.utf8DecodeChar?_append_eq_some hone]

/-- What is read as a character is its UTF-8 form. -/
theorem eq_append_of_decodeRune {s : Bytes} (h : (decodeRune s).1 ≠ runeError) :
    s = String.utf8EncodeChar (decodeRune s).1 ++ s.drop (decodeRune s).2 := by
  cases hc : s.toByteArray.utf8DecodeChar? 0 with
  | none =>
    rw [decodeRune, hc] at h
    exact absurd rfl h
  | some c =>
    have hsplit := ByteArray.eq_of_utf8DecodeChar?_eq_some hc
    have hdecode : decodeRune s = (c, c.utf8Size) := by rw [decodeRune, hc]
    rw [hdecode]
    have hlist := congrArg (fun b => b.data.toList) hsplit
    simp only [ByteArray.data_append, ByteArray.data_extract, data_toByteArray,
      Array.toList_append, Array.toList_extract, extract, size_toByteArray] at hlist
    rwa [take_of_length_le (by simp)] at hlist

/-- More fuel than bytes changes nothing. -/
theorem runesUpto_of_le {n : ℕ} {s : Bytes} (h : s.length ≤ n) : runesUpto n s = runes s := by
  suffices H : ∀ (m n : ℕ) (s : Bytes), s.length ≤ m → s.length ≤ n →
      runesUpto n s = runesUpto m s from H _ _ _ le_rfl h
  intro m
  induction m with
  | zero =>
    intro n s hm _
    obtain rfl : s = [] := length_eq_zero_iff.mp (by omega)
    cases n <;> rfl
  | succ m ih =>
    intro n s hm hn
    cases s with
    | nil => cases n <;> rfl
    | cons b s =>
      cases n with
      | zero => simp at hn
      | succ n =>
        have hpos := decodeRune_width_pos (b :: s)
        have hdrop : ((b :: s).drop (decodeRune (b :: s)).2).length ≤ s.length := by
          rw [length_drop, length_cons]
          omega
        rw [length_cons] at hm hn
        rw [runesUpto, runesUpto, ih n _ (by omega) (by omega)]

theorem runes_of_ne_nil {s : Bytes} (h : s ≠ []) :
    runes s = (decodeRune s).1 :: runes (s.drop (decodeRune s).2) := by
  cases s with
  | nil => exact absurd rfl h
  | cons b s =>
    have hpos := decodeRune_width_pos (b :: s)
    have hdrop : ((b :: s).drop (decodeRune (b :: s)).2).length ≤ s.length := by
      rw [length_drop, length_cons]
      omega
    rw [← runesUpto_of_le hdrop]
    rfl

theorem runes_append (c : Char) (rest : Bytes) :
    runes (String.utf8EncodeChar c ++ rest) = c :: runes rest := by
  have hne : String.utf8EncodeChar c ++ rest ≠ [] := by
    have hpos := utf8EncodeChar_length_pos c
    exact ne_nil_of_length_pos (by rw [length_append]; omega)
  rw [runes_of_ne_nil hne, decodeRune_append, drop_left' (String.length_utf8EncodeChar c)]

/-- **A string made of runes has these runes.** -/
theorem runes_encodeRunes (l : List Char) : runes (encodeRunes l) = l := by
  induction l with
  | nil => rfl
  | cons c l ih =>
    rw [encodeRunes, flatMap_cons, runes_append]
    exact congrArg _ ih

/-- Strings made one behind the other. -/
theorem encodeRunes_flatten (parts : List (List Char)) :
    encodeRunes parts.flatten = (parts.map encodeRunes).flatten := by
  induction parts with
  | nil => rfl
  | cons part parts ih =>
    rw [flatten_cons, map_cons, flatten_cons, ← ih]
    exact flatMap_append

/-- **A string of characters is made of its runes.** -/
theorem encodeRunes_runes {s : Bytes} (h : runeError ∉ runes s) : encodeRunes (runes s) = s := by
  induction hn : s.length using Nat.strong_induction_on generalizing s with
  | _ n ih =>
    subst hn
    by_cases hs : s = []
    · rw [hs]
      rfl
    · have hpos := decodeRune_width_pos s
      have hlen : 0 < s.length := length_pos_iff.mpr hs
      rw [runes_of_ne_nil hs, mem_cons, not_or] at h
      have hdrop : (s.drop (decodeRune s).2).length < s.length := by
        rw [length_drop]
        omega
      have hrest := ih _ hdrop h.2 rfl
      rw [runes_of_ne_nil hs, encodeRunes, flatMap_cons]
      rw [encodeRunes] at hrest
      rw [hrest, ← eq_append_of_decodeRune (Ne.symm h.1)]

/-- Two characters, and a byte that belongs to none. -/
example : runes [0x61, 0xE2, 0x82, 0xAC, 0x80] = ['a', '€', runeError] := by decide

end SmscGateway
