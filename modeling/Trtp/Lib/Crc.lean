import Trtp.Lib.Bytes

/-!
# Reflected cyclic redundancy checks

The bit-reflected CRC over a register of any width `w`, with the all-ones start and the final
complement: `crc poly bytes`. A register that meets a byte is exclusive-ored with it and shifted
eight times (`byte`); a shift drops the low bit and, when that bit was set, adds the polynomial.

For a polynomial with its top bit set:
* `shift_injective`: the dropped bit can be read off the top of the result, so no two registers
  shift to one.
* `foldl_byte`: up to `w / 8` bytes act on the register as one number exclusive-ored into it
  before all the shifts.
* `crc_ne_of_burst`: **two strings that differ only inside a burst of at most `w` bits, aligned on
  bytes, never have the same CRC**.
-/

namespace Trtp.Crc

open Trtp.Bytes

variable {w : ℕ} (poly : BitVec w)

/-- One shift of the register. -/
def shift (c : BitVec w) : BitVec w :=
  if c.getLsbD 0 then (c >>> 1) ^^^ poly else c >>> 1

/-- `n` shifts of the register. -/
def shifts : ℕ → BitVec w → BitVec w
  | 0, c => c
  | n + 1, c => shifts n (shift poly c)

/-- The register after one more byte. -/
def byte (c : BitVec w) (b : UInt8) : BitVec w :=
  shifts poly 8 (c ^^^ BitVec.ofNat w b.toNat)

/-- The CRC of a byte string. -/
def crc (bytes : List UInt8) : BitVec w :=
  ~~~ bytes.foldl (byte poly) (BitVec.allOnes w)

/-! ## Shifts lose nothing -/

theorem xor_left_cancel {a b c : BitVec w} (h : a ^^^ b = a ^^^ c) : b = c := by
  have h' := congrArg (a ^^^ ·) h
  simpa [← BitVec.xor_assoc] using h'

theorem xor_right_cancel {a b c : BitVec w} (h : b ^^^ a = c ^^^ a) : b = c := by
  rw [BitVec.xor_comm b, BitVec.xor_comm c] at h
  exact xor_left_cancel h

/-- The top bit of a shifted register is the bit that fell out. -/
theorem msb_shift (hpoly : poly.msb = true) (c : BitVec w) :
    (shift poly c).msb = c.getLsbD 0 := by
  have hw : 0 < w := by
    rcases Nat.eq_zero_or_pos w with rfl | h
    · simp [BitVec.msb_eq_getLsbD_last] at hpoly
    · exact h
  have htop : (c >>> 1).msb = false := by simp [BitVec.msb_ushiftRight]
  unfold shift
  split
  · rename_i h
    rw [BitVec.msb_xor, htop, hpoly, h]
    rfl
  · rename_i h
    rw [htop]
    simpa using h

theorem shift_injective (hpoly : poly.msb = true) : Function.Injective (shift poly) := by
  intro a b h
  have hlow : a.getLsbD 0 = b.getLsbD 0 := by
    rw [← msb_shift poly hpoly a, ← msb_shift poly hpoly b, h]
  have hhigh : a >>> 1 = b >>> 1 := by
    unfold shift at h
    rw [hlow] at h
    split at h
    · exact xor_right_cancel h
    · exact h
  apply BitVec.eq_of_getLsbD_eq
  intro i hi
  cases i with
  | zero => exact hlow
  | succ i =>
    have := congrArg (fun x => x.getLsbD i) hhigh
    simpa [BitVec.getLsbD_ushiftRight, Nat.add_comm] using this

theorem shifts_injective (hpoly : poly.msb = true) (n : ℕ) :
    Function.Injective (shifts poly n) := by
  induction n with
  | zero => exact fun _ _ h => h
  | succ n ih => exact fun _ _ h => shift_injective poly hpoly (ih h)

theorem shifts_add (m n : ℕ) (c : BitVec w) :
    shifts poly (m + n) c = shifts poly n (shifts poly m c) := by
  induction m generalizing c with
  | zero => rw [Nat.zero_add]; rfl
  | succ m ih => rw [Nat.succ_add, shifts, ih, shifts]

/-- A number whose low bit is clear only moves down. -/
theorem shift_xor (x y : BitVec w) (hy : y.getLsbD 0 = false) :
    shift poly (x ^^^ y) = shift poly x ^^^ (y >>> 1) := by
  unfold shift
  rw [BitVec.getLsbD_xor, hy, Bool.xor_false, BitVec.ushiftRight_xor_distrib]
  split
  · rw [BitVec.xor_assoc, BitVec.xor_comm (y >>> 1), ← BitVec.xor_assoc]
  · rfl

theorem shifts_xor (n : ℕ) (x y : BitVec w) (hy : ∀ i < n, y.getLsbD i = false) :
    shifts poly n (x ^^^ y) = shifts poly n x ^^^ (y >>> n) := by
  induction n generalizing x y with
  | zero => simp [shifts]
  | succ n ih =>
    have hdown : ∀ i < n, (y >>> 1).getLsbD i = false := by
      intro i hi
      rw [BitVec.getLsbD_ushiftRight]
      exact hy (1 + i) (by omega)
    rw [shifts, shift_xor poly x y (hy 0 (by omega)), ih _ _ hdown, shifts,
      ← BitVec.shiftRight_add, Nat.add_comm 1 n]

/-! ## A few bytes at once -/

/-- A byte below a number that starts eight bits up. -/
theorem ofNat_byte_add (b : UInt8) (n : ℕ) :
    BitVec.ofNat w (b.toNat + 256 * n) = BitVec.ofNat w b.toNat ^^^ (BitVec.ofNat w n <<< 8) := by
  apply BitVec.eq_of_getLsbD_eq
  intro i hi
  have hb : b.toNat < 2 ^ 8 := b.toNat_lt
  have hsum : b.toNat + 256 * n = 2 ^ 8 * n + b.toNat := by omega
  simp only [BitVec.getLsbD_xor, BitVec.getLsbD_ofNat, BitVec.getLsbD_shiftLeft, hi, decide_true,
    Bool.true_and, hsum, Nat.testBit_two_pow_mul_add n hb]
  by_cases h8 : i < 8
  · simp [h8]
  · have hz : b.toNat.testBit i = false :=
      Nat.testBit_lt_two_pow (lt_of_lt_of_le hb (Nat.pow_le_pow_right (by omega) (by omega)))
    have hi' : i - 8 < w := by omega
    simp [h8, hz, hi']

/-- **Up to `w / 8` bytes are one number exclusive-ored in ahead of all their shifts.** -/
theorem foldl_byte (bs : List UInt8) (c : BitVec w) (hlen : 8 * bs.length ≤ w) :
    bs.foldl (byte poly) c = shifts poly (8 * bs.length) (c ^^^ BitVec.ofNat w (ofLE bs)) := by
  induction bs generalizing c with
  | nil => simp [shifts]
  | cons b bs ih =>
    rw [List.length_cons] at hlen
    have hsmall : ofLE bs < 2 ^ (w - 8) := by
      calc ofLE bs < 256 ^ bs.length := ofLE_lt bs
        _ = 2 ^ (8 * bs.length) := by rw [pow_mul]; norm_num
        _ ≤ 2 ^ (w - 8) := Nat.pow_le_pow_right (by omega) (by omega)
    have hback : (BitVec.ofNat w (ofLE bs) <<< 8) >>> 8 = BitVec.ofNat w (ofLE bs) := by
      apply BitVec.eq_of_getLsbD_eq
      intro i hi
      rw [BitVec.getLsbD_ushiftRight, BitVec.getLsbD_shiftLeft]
      by_cases hin : 8 + i < w
      · simp [hin]
      · have hz : (ofLE bs).testBit i = false :=
          Nat.testBit_lt_two_pow
            (lt_of_lt_of_le hsmall (Nat.pow_le_pow_right (by omega) (by omega)))
        simp [hin, BitVec.getLsbD_ofNat, hz]
    have hclear : ∀ i < 8, (BitVec.ofNat w (ofLE bs) <<< 8).getLsbD i = false := by
      intro i hi
      simp [BitVec.getLsbD_shiftLeft, hi]
    rw [List.foldl_cons, ih _ (by omega), byte, List.length_cons,
      show 8 * (bs.length + 1) = 8 + 8 * bs.length by omega, shifts_add, ofLE_cons,
      ofNat_byte_add, ← BitVec.xor_assoc, shifts_xor poly 8 _ _ hclear, hback]

theorem byte_injective (hpoly : poly.msb = true) (b : UInt8) :
    Function.Injective fun c => byte poly c b :=
  fun _ _ h => xor_right_cancel (shifts_injective poly hpoly 8 h)

theorem foldl_injective (hpoly : poly.msb = true) (bs : List UInt8) :
    Function.Injective fun c => bs.foldl (byte poly) c := by
  induction bs with
  | nil => exact fun _ _ h => h
  | cons b bs ih => exact fun _ _ h => byte_injective poly hpoly b (ih h)

/-- The register tells apart two strings of one length that fit into it. -/
theorem foldl_byte_injective (hpoly : poly.msb = true) {as bs : List UInt8} (c : BitVec w)
    (hlen : as.length = bs.length) (hw : 8 * as.length ≤ w)
    (h : as.foldl (byte poly) c = bs.foldl (byte poly) c) : as = bs := by
  rw [foldl_byte poly as c hw, foldl_byte poly bs c (hlen ▸ hw), hlen] at h
  have hnum := congrArg BitVec.toNat (xor_left_cancel (shifts_injective poly hpoly _ h))
  have hfit : ∀ cs : List UInt8, 8 * cs.length ≤ w → ofLE cs < 2 ^ w := fun cs hcs =>
    calc ofLE cs < 256 ^ cs.length := ofLE_lt cs
      _ = 2 ^ (8 * cs.length) := by rw [pow_mul]; norm_num
      _ ≤ 2 ^ w := Nat.pow_le_pow_right (by omega) hcs
  rw [BitVec.toNat_ofNat, BitVec.toNat_ofNat, Nat.mod_eq_of_lt (hfit as hw),
    Nat.mod_eq_of_lt (hfit bs (hlen ▸ hw))] at hnum
  exact ofLE_injective hlen hnum

/-! ## Bursts -/

/-- **Every burst that fits into the register is caught.** -/
theorem crc_ne_of_burst (hpoly : poly.msb = true) {as bs : List UInt8} (start k : ℕ)
    (hk : 8 * k ≤ w) (hlen : as.length = bs.length) (hbefore : as.take start = bs.take start)
    (hafter : as.drop (start + k) = bs.drop (start + k)) (hne : as ≠ bs) :
    crc poly as ≠ crc poly bs := by
  have split : ∀ cs : List UInt8,
      cs = cs.take start ++ ((cs.drop start).take k ++ cs.drop (start + k)) := by
    intro cs
    rw [← List.drop_drop, List.take_append_drop, List.take_append_drop]
  intro h
  apply hne
  have hreg : as.foldl (byte poly) (BitVec.allOnes w) =
      bs.foldl (byte poly) (BitVec.allOnes w) := by
    simpa [crc] using congrArg (fun x => ~~~ x) h
  rw [split as, split bs, hbefore, hafter, List.foldl_append, List.foldl_append,
    List.foldl_append, List.foldl_append] at hreg
  have hmid := foldl_byte_injective poly hpoly _
    (by simp only [List.length_take, List.length_drop, hlen])
    (by rw [List.length_take]; omega) (foldl_injective poly hpoly _ hreg)
  rw [split as, split bs, hbefore, hafter, hmid]

end Trtp.Crc
