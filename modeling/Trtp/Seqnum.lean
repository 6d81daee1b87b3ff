import Trtp.Packet.Basic

/-!
# Sequence numbers (`read_write_loop_receiver.c:19-29`, `read_write_loop_sender.c:310-315`)

Packet `i` of a file carries the 8-bit number `i % 256` (`UInt8.ofNat i`). Sender and receiver
test the same window with the same code, each from a base of its own.

* `offset base s`: how far `s` is after `base`, modulo 256; `offset_ofNat` computes it for two
  packets.
* `inWindow_iff`: the test of both programs is `offset base s < 31`.
-/

namespace Trtp

/-- How far a number lies after another, counting from 255 on to 0. -/
def offset (base s : UInt8) : ℕ := (s - base).toNat

theorem offset_lt (base s : UInt8) : offset base s < 256 := (s - base).toNat_lt

/-- The distance of two packets by their indices. -/
theorem offset_ofNat (a b : ℕ) :
    offset (UInt8.ofNat a) (UInt8.ofNat b) = (b % 256 + 256 - a % 256) % 256 := by
  rw [offset, UInt8.toNat_sub, UInt8.toNat_ofNat', UInt8.toNat_ofNat']
  omega

/-- Less than a full turn ahead, the distance is the difference of the indices. -/
theorem offset_ofNat_of_le {a b : ℕ} (h : a ≤ b) (hlt : b < a + 256) :
    offset (UInt8.ofNat a) (UInt8.ofNat b) = b - a := by
  rw [offset_ofNat]
  omega

@[simp] theorem offset_self (s : UInt8) : offset s s = 0 := by
  simp [offset]

theorem offset_eq_zero {base s : UInt8} : offset base s = 0 ↔ s = base := by
  constructor
  · intro h
    have hz : s - base = 0 := UInt8.toNat_inj.mp h
    rw [← UInt8.sub_add_cancel s base, hz, UInt8.zero_add]
  · rintro rfl
    exact offset_self s

/-- A number is its distance after the base. -/
theorem ofNat_add_offset (a : ℕ) (s : UInt8) :
    UInt8.ofNat (a + offset (UInt8.ofNat a) s) = s := by
  rw [UInt8.ofNat_add, offset, UInt8.ofNat_toNat, UInt8.add_comm, UInt8.sub_add_cancel]

theorem ofNat_eq_iff {a b : ℕ} : UInt8.ofNat a = UInt8.ofNat b ↔ a % 256 = b % 256 := by
  rw [← UInt8.toNat_inj, UInt8.toNat_ofNat', UInt8.toNat_ofNat']

/-- Within one turn, a number names one packet. -/
theorem ofNat_inj_of_near {a b : ℕ} (h : UInt8.ofNat a = UInt8.ofNat b) (hab : a < b + 256)
    (hba : b < a + 256) : a = b := by
  rw [ofNat_eq_iff] at h
  omega

/-- Distances add up, modulo 256. -/
theorem offset_trans (a b c : UInt8) :
    offset a b + offset b c = offset a c ∨ offset a b + offset b c = offset a c + 256 := by
  have ha := a.toNat_lt
  have hb := b.toNat_lt
  have hc := c.toNat_lt
  unfold offset
  rw [UInt8.toNat_sub, UInt8.toNat_sub, UInt8.toNat_sub]
  omega

/-- The number in front. -/
theorem offset_pred {a s : UInt8} (h : offset a s ≠ 0) : offset a (s - 1) = offset a s - 1 := by
  have ha := a.toNat_lt
  have hs := s.toNat_lt
  unfold offset at h ⊢
  rw [UInt8.toNat_sub] at h
  rw [UInt8.toNat_sub, UInt8.toNat_sub, UInt8.toNat_sub, UInt8.toNat_one]
  omega

/-- Distances from one base tell numbers apart. -/
theorem offset_inj {base s s' : UInt8} (h : offset base s = offset base s') : s = s' := by
  have hsub : s - base = s' - base := UInt8.toNat_inj.mp h
  rw [← UInt8.sub_add_cancel s base, hsub, UInt8.sub_add_cancel]

/-- One further from the next base. -/
theorem offset_succ {a : ℕ} {s : UInt8} (h : s ≠ UInt8.ofNat a) :
    offset (UInt8.ofNat a) s = offset (UInt8.ofNat (a + 1)) s + 1 := by
  obtain ⟨b, rfl⟩ : ∃ b, s = UInt8.ofNat b := ⟨s.toNat, UInt8.ofNat_toNat.symm⟩
  rw [Ne, ofNat_eq_iff] at h
  rw [offset_ofNat, offset_ofNat]
  omega

/-- `(seqnum + 1) % 256`, in an `int` and cast back. -/
def incrementSeqnum (seqnum : UInt8) : UInt8 := UInt8.ofNat ((seqnum.toNat + 1) % 256)

theorem incrementSeqnum_eq (seqnum : UInt8) : incrementSeqnum seqnum = seqnum + 1 := by
  apply UInt8.toNat_inj.mp
  rw [incrementSeqnum, UInt8.toNat_ofNat', UInt8.toNat_add, UInt8.toNat_one]
  omega

@[simp] theorem incrementSeqnum_ofNat (i : ℕ) :
    incrementSeqnum (UInt8.ofNat i) = UInt8.ofNat (i + 1) := by
  rw [incrementSeqnum_eq, UInt8.ofNat_add]
  rfl

/-- The base moves on by one. -/
theorem offset_incrementSeqnum {base s : UInt8} (h : s ≠ base) :
    offset (incrementSeqnum base) s = offset base s - 1 := by
  have hb := base.toNat_lt
  have hs := s.toNat_lt
  have hne : s.toNat ≠ base.toNat := fun hc => h (UInt8.toNat_inj.mp hc)
  rw [incrementSeqnum_eq, offset, offset, UInt8.toNat_sub, UInt8.toNat_sub, UInt8.toNat_add,
    UInt8.toNat_one]
  omega

/-- The window test, in `int` arithmetic. -/
def inWindow (base seqnum : UInt8) : Prop :=
  let diff : ℤ := seqnum.toNat - base.toNat
  let diff := if diff < 0 then diff + 256 else diff
  diff < maxWindowSize

instance (base seqnum : UInt8) : Decidable (inWindow base seqnum) :=
  inferInstanceAs (Decidable (_ < _))

/-- **The window test is the distance modulo 256.** -/
theorem inWindow_iff (base seqnum : UInt8) : inWindow base seqnum ↔ offset base seqnum < 31 := by
  have hb := base.toNat_lt
  have hs := seqnum.toNat_lt
  unfold inWindow maxWindowSize
  rw [offset, UInt8.toNat_sub]
  simp only
  split <;> omega

/-- `isExpected`, against the receiver's `expectedSeqnum`. -/
abbrev isExpected (expectedSeqnum receivedSeqnum : UInt8) : Prop :=
  inWindow expectedSeqnum receivedSeqnum

/-- `isInRange`, against the sender's `lastSeqnumAcked`. -/
abbrev isInRange (lastSeqnumAcked seqnum : UInt8) : Prop := inWindow lastSeqnumAcked seqnum

end Trtp
