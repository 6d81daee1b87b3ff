import Mathlib.Tactic.Ring
import Mathlib.Tactic.NormNum
import Mathlib.Data.Nat.Init

/-!
# Fixed-width byte strings

A natural written on `k` bytes, least significant first (`toLE`) or most significant first
(`toBE`), and read back (`ofLE`, `ofBE`); and `overwrite`, a copy into a buffer at an offset.

* `ofLE_toLE` / `ofBE_toBE`: reading back what was written gives the number modulo `256 ^ k`.
* `toLE_ofLE` / `toBE_ofBE`: the bytes read are the bytes written again.
* `ofLE_injective`: byte strings of one length are told apart by their number.
* `overwrite_append`: consecutive copies into a buffer lay their sources end to end.
* `getElem?_overwrite_of_le`, `overwrite_set`: what stands behind a copy is left as it is.
-/

namespace Trtp.Bytes

/-! ## Least significant byte first -/

/-- The `k` low bytes of `n`, least significant first. -/
def toLE : ℕ → ℕ → List UInt8
  | 0, _ => []
  | k + 1, n => UInt8.ofNat n :: toLE k (n / 256)

/-- The number whose bytes are given, least significant first. -/
def ofLE : List UInt8 → ℕ
  | [] => 0
  | b :: bs => b.toNat + 256 * ofLE bs

@[simp] theorem ofLE_nil : ofLE [] = 0 := rfl

theorem ofLE_cons (b : UInt8) (bs : List UInt8) : ofLE (b :: bs) = b.toNat + 256 * ofLE bs := rfl

@[simp] theorem length_toLE (k n : ℕ) : (toLE k n).length = k := by
  induction k generalizing n with
  | zero => rfl
  | succ k ih => rw [toLE, List.length_cons, ih]

theorem ofLE_lt (bs : List UInt8) : ofLE bs < 256 ^ bs.length := by
  induction bs with
  | nil => simp
  | cons b bs ih =>
    rw [ofLE_cons, List.length_cons, pow_succ]
    have hb : b.toNat < 256 := b.toNat_lt
    omega

/-- **Written, then read**: the number modulo `256 ^ k`. -/
theorem ofLE_toLE (k n : ℕ) : ofLE (toLE k n) = n % 256 ^ k := by
  induction k generalizing n with
  | zero => simp [toLE, Nat.mod_one]
  | succ k ih =>
    have hlow : (UInt8.ofNat n).toNat = n % 256 := UInt8.toNat_ofNat'
    rw [toLE, ofLE_cons, hlow, ih, pow_succ', Nat.mod_mul]

/-- **Read, then written**: the same bytes. -/
theorem toLE_ofLE (bs : List UInt8) : toLE bs.length (ofLE bs) = bs := by
  induction bs with
  | nil => rfl
  | cons b bs ih =>
    have hb : b.toNat < 256 := b.toNat_lt
    have hdiv : (b.toNat + 256 * ofLE bs) / 256 = ofLE bs := by omega
    have hlow : UInt8.ofNat (b.toNat + 256 * ofLE bs) = b := by
      apply UInt8.toNat_inj.mp
      rw [UInt8.toNat_ofNat']
      omega
    rw [List.length_cons, ofLE_cons, toLE, hdiv, ih, hlow]

theorem ofLE_injective {as bs : List UInt8} (hlen : as.length = bs.length)
    (h : ofLE as = ofLE bs) : as = bs := by
  rw [← toLE_ofLE as, ← toLE_ofLE bs, hlen, h]

/-! ## Most significant byte first (network order) -/

/-- The `k` low bytes of `n`, most significant first. -/
def toBE (k n : ℕ) : List UInt8 := (toLE k n).reverse

/-- The number whose bytes are given, most significant first. -/
def ofBE (bs : List UInt8) : ℕ := ofLE bs.reverse

@[simp] theorem length_toBE (k n : ℕ) : (toBE k n).length = k := by
  rw [toBE, List.length_reverse, length_toLE]

theorem ofBE_lt (bs : List UInt8) : ofBE bs < 256 ^ bs.length := by
  have h := ofLE_lt bs.reverse
  rwa [List.length_reverse] at h

theorem ofBE_toBE (k n : ℕ) : ofBE (toBE k n) = n % 256 ^ k := by
  rw [ofBE, toBE, List.reverse_reverse, ofLE_toLE]

theorem toBE_ofBE (bs : List UInt8) : toBE bs.length (ofBE bs) = bs := by
  have h := toLE_ofLE bs.reverse
  rw [List.length_reverse] at h
  rw [toBE, ofBE, h, List.reverse_reverse]

theorem ofBE_injective {as bs : List UInt8} (hlen : as.length = bs.length)
    (h : ofBE as = ofBE bs) : as = bs := by
  have h' : as.reverse = bs.reverse := ofLE_injective (by simpa using hlen) h
  simpa using h'

/-! ## Copies into a buffer -/

/-- `bytes` copied over `buf` from offset `off` on. -/
def overwrite (buf : List UInt8) (off : ℕ) (bytes : List UInt8) : List UInt8 :=
  buf.take off ++ bytes ++ buf.drop (off + bytes.length)

theorem length_overwrite {buf bytes : List UInt8} {off : ℕ}
    (h : off + bytes.length ≤ buf.length) : (overwrite buf off bytes).length = buf.length := by
  simp only [overwrite, List.length_append, List.length_take, List.length_drop]
  omega

theorem overwrite_zero (buf bytes : List UInt8) :
    overwrite buf 0 bytes = bytes ++ buf.drop bytes.length := by
  simp [overwrite]

/-- A copy right behind what has been written so far. -/
theorem overwrite_append (done rest bytes : List UInt8) {off : ℕ} (h : off = done.length) :
    overwrite (done ++ rest) off bytes = (done ++ bytes) ++ rest.drop bytes.length := by
  subst h
  simp [overwrite]

@[simp] theorem overwrite_nil (buf : List UInt8) (off : ℕ) : overwrite buf off [] = buf := by
  simp [overwrite]

section Behind

variable {buf bytes : List UInt8} {off : ℕ}

theorem drop_overwrite (h : off ≤ buf.length) :
    (overwrite buf off bytes).drop off = bytes ++ buf.drop (off + bytes.length) := by
  rw [overwrite, List.append_assoc, List.drop_left' (List.length_take_of_le h)]

/-- The copied bytes. -/
theorem getElem?_overwrite_add (h : off ≤ buf.length) {k : ℕ} (hk : k < bytes.length) :
    (overwrite buf off bytes)[off + k]? = bytes[k]? := by
  rw [← List.getElem?_drop, drop_overwrite h, List.getElem?_append_left hk]

/-- The bytes behind the copy. -/
theorem getElem?_overwrite_of_le (h : off ≤ buf.length) {i : ℕ} (hi : off + bytes.length ≤ i) :
    (overwrite buf off bytes)[i]? = buf[i]? := by
  obtain ⟨k, rfl⟩ := Nat.exists_eq_add_of_le hi
  rw [Nat.add_assoc, ← List.getElem?_drop, drop_overwrite h,
    List.getElem?_append_right (Nat.le_add_right _ _), Nat.add_sub_cancel_left,
    List.getElem?_drop, Nat.add_assoc]

/-- A byte behind the copy may be written before or after it. -/
theorem overwrite_set (h : off ≤ buf.length) {i : ℕ} (hi : off + bytes.length ≤ i) (b : UInt8) :
    overwrite (buf.set i b) off bytes = (overwrite buf off bytes).set i b := by
  have hfront : (buf.take off ++ bytes).length = off + bytes.length := by
    rw [List.length_append, List.length_take_of_le h]
  rw [overwrite, overwrite, List.take_set_of_le (by omega), List.drop_set, if_neg (by omega),
    List.set_append_right _ _ (hfront.trans_le hi), hfront]

end Behind

end Trtp.Bytes
