import SmscGateway.Common.Bytes

/-!
# Big-endian numbers

The `w` bytes `encoding/binary` writes for a number, most significant first,
and the number it reads from bytes. A number that does not fit is written
modulo `256 ^ w`.
-/

namespace SmscGateway

open Nat

/-- `binary.BigEndian.PutUint`, with `w` bytes. -/
def bigEndian : ℕ → ℕ → Bytes
  | 0, _ => []
  | w + 1, n => UInt8.ofNat (n / 256 ^ w) :: bigEndian w n

/-- `binary.BigEndian.Uint`, of as many bytes as there are. -/
def ofBigEndian : Bytes → ℕ
  | [] => 0
  | b :: l => b.toNat * 256 ^ l.length + ofBigEndian l

@[simp] theorem length_bigEndian (w n : ℕ) : (bigEndian w n).length = w := by
  induction w with
  | zero => rfl
  | succ w ih => simp [bigEndian, ih]

theorem ofBigEndian_lt (l : Bytes) : ofBigEndian l < 256 ^ l.length := by
  induction l with
  | nil => simp [ofBigEndian]
  | cons b l ih =>
    have hb : b.toNat + 1 ≤ 256 := b.toNat_lt
    have hmul := mul_le_mul_right (256 ^ l.length) hb
    rw [ofBigEndian, List.length_cons, pow_succ]
    rw [add_mul] at hmul
    omega

/-- **What is written is read back**, modulo what fits. -/
theorem ofBigEndian_bigEndian (w n : ℕ) : ofBigEndian (bigEndian w n) = n % 256 ^ w := by
  induction w with
  | zero => simp [bigEndian, ofBigEndian, mod_one]
  | succ w ih =>
    have hsplit : n % (256 ^ w * 256) = n % 256 ^ w + 256 ^ w * (n / 256 ^ w % 256) :=
      mod_mul
    have hbyte : (UInt8.ofNat (n / 256 ^ w)).toNat = n / 256 ^ w % 256 := UInt8.toNat_ofNat'
    rw [bigEndian, ofBigEndian, ih, length_bigEndian, hbyte, pow_succ, hsplit]
    ring

theorem ofBigEndian_bigEndian_of_lt {w n : ℕ} (h : n < 256 ^ w) :
    ofBigEndian (bigEndian w n) = n := by
  rw [ofBigEndian_bigEndian, mod_eq_of_lt h]

/-- Only the low bytes of a number are written. -/
theorem bigEndian_add_mul (w n k : ℕ) : bigEndian w (n + k * 256 ^ w) = bigEndian w n := by
  induction w generalizing k with
  | zero => rfl
  | succ w ih =>
    have hhead : (n + k * 256 ^ (w + 1)) / 256 ^ w = n / 256 ^ w + 256 * k := by
      rw [pow_succ, ← add_mul_div_right n (256 * k) (pow_pos (by decide : 0 < 256) w)]
      ring_nf
    have htail : n + k * 256 ^ (w + 1) = n + k * 256 * 256 ^ w := by
      rw [pow_succ]
      ring
    rw [bigEndian, bigEndian, hhead, htail, ih]
    congr 1
    apply UInt8.toNat_inj.mp
    simp

/-- **What is read is written back.** -/
theorem bigEndian_ofBigEndian (l : Bytes) : bigEndian l.length (ofBigEndian l) = l := by
  induction l with
  | nil => rfl
  | cons b l ih =>
    have hlt := ofBigEndian_lt l
    have hhead : (b.toNat * 256 ^ l.length + ofBigEndian l) / 256 ^ l.length = b.toNat := by
      rw [add_comm, add_mul_div_right _ _ (pow_pos (by decide : 0 < 256) _),
        div_eq_of_lt hlt, zero_add]
    rw [List.length_cons, ofBigEndian, bigEndian, hhead, add_comm, bigEndian_add_mul, ih]
    simp

end SmscGateway
