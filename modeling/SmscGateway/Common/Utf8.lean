import SmscGateway.Common.Bytes

/-!
# UTF-8 in Go strings

A Go string may hold any bytes. `encoding/json` writes each byte that does
not belong to a well-formed UTF-8 sequence as U+FFFD, so a string that
passes through JSON comes back coerced. What survives unchanged is exactly
what is valid, and every ASCII string is.
-/

namespace SmscGateway

/-- A continuation byte. -/
def isCont (b : UInt8) : Bool := 0x80 ≤ b && b ≤ 0xBF

/-- The length of the well-formed sequence a string starts with, `0` when
it starts with none. The ranges of the second byte are those that exclude
overlong forms, surrogates and code points above U+10FFFF. -/
def runeLen : Bytes → ℕ
  | [] => 0
  | a :: l =>
    if a < 0x80 then 1
    else if a < 0xC2 then 0
    else if a < 0xE0 then
      match l with
      | b :: _ => if isCont b then 2 else 0
      | _ => 0
    else if a < 0xF0 then
      match l with
      | b :: c :: _ =>
        let lo : UInt8 := if a = 0xE0 then 0xA0 else 0x80
        let hi : UInt8 := if a = 0xED then 0x9F else 0xBF
        if lo ≤ b && b ≤ hi && isCont c then 3 else 0
      | _ => 0
    else if a < 0xF5 then
      match l with
      | b :: c :: d :: _ =>
        let lo : UInt8 := if a = 0xF0 then 0x90 else 0x80
        let hi : UInt8 := if a = 0xF4 then 0x8F else 0xBF
        if lo ≤ b && b ≤ hi && isCont c && isCont d then 4 else 0
      | _ => 0
    else 0

/-- `utf8.ValidString`, with the string's length as fuel. -/
def validUpto : ℕ → Bytes → Bool
  | _, [] => true
  | 0, _ :: _ => false
  | n + 1, a :: l =>
    match runeLen (a :: l) with
    | 0 => false
    | k + 1 => validUpto n (l.drop k)

/-- The string is valid UTF-8. -/
def ValidUtf8 (s : Bytes) : Prop := validUpto s.length s = true
  deriving Decidable

/-- The three bytes of U+FFFD. -/
def replacement : Bytes := [0xEF, 0xBF, 0xBD]

def coerceUpto : ℕ → Bytes → Bytes
  | _, [] => []
  | 0, _ :: _ => []
  | n + 1, a :: l =>
    match runeLen (a :: l) with
    | 0 => replacement ++ coerceUpto n l
    | k + 1 => a :: l.take k ++ coerceUpto n (l.drop k)

/-- What a Go string reads as after a trip through `encoding/json`. -/
def jsonString (s : Bytes) : Bytes := coerceUpto s.length s

theorem coerceUpto_of_valid {n : ℕ} {s : Bytes} (h : validUpto n s = true) :
    coerceUpto n s = s := by
  induction n generalizing s with
  | zero =>
    cases s with
    | nil => rfl
    | cons a l => simp [validUpto] at h
  | succ n ih =>
    cases s with
    | nil => rfl
    | cons a l =>
      rw [validUpto] at h
      rw [coerceUpto]
      rcases hk : runeLen (a :: l) with _ | k
      · simp [hk] at h
      · simp only [hk] at h ⊢
        rw [ih h, List.cons_append, List.take_append_drop]

/-- **Valid strings survive JSON.** -/
theorem jsonString_of_valid {s : Bytes} (h : ValidUtf8 s) : jsonString s = s :=
  coerceUpto_of_valid h

theorem validUpto_of_ascii {n : ℕ} {s : Bytes} (hn : s.length ≤ n) (h : ∀ b ∈ s, b < 0x80) :
    validUpto n s = true := by
  induction n generalizing s with
  | zero =>
    obtain rfl : s = [] := List.length_eq_zero_iff.mp (by omega)
    rfl
  | succ n ih =>
    cases s with
    | nil => rfl
    | cons a l =>
      have ha : runeLen (a :: l) = 1 := by simp [runeLen, h a (by simp)]
      rw [validUpto, ha]
      exact ih (by simpa using hn) fun b hb => h b (List.mem_cons_of_mem _ (by simpa using hb))

theorem validUtf8_of_ascii {s : Bytes} (h : ∀ b ∈ s, b < 0x80) : ValidUtf8 s :=
  validUpto_of_ascii le_rfl h

/-- A numeral is ASCII. -/
theorem ascii_of_isDigit {b : UInt8} (h : IsDigit b) : b < 0x80 := by
  unfold IsDigit at h
  rw [UInt8.lt_iff_toNat_lt]
  have : (0x80 : UInt8).toNat = 128 := rfl
  omega

/-- JSON keeps a numbered name. -/
theorem jsonString_numbered {name : Bytes} (hname : name.all (· < 0x80) = true) (n : ℕ) :
    jsonString (name ++ decimal n) = name ++ decimal n := by
  refine jsonString_of_valid (validUtf8_of_ascii fun b hb => ?_)
  rcases List.mem_append.mp hb with h | h
  · simpa using List.all_eq_true.mp hname b h
  · exact ascii_of_isDigit (isDigit_of_mem_decimal h)

/-- A lone continuation byte does not survive. -/
example : jsonString [0x61, 0x80] = [0x61, 0xEF, 0xBF, 0xBD] := by decide

end SmscGateway
