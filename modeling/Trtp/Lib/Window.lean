import Trtp.Lib.Reassembly

/-!
# Two windows over one numbered sequence

Selective repeat with the numbers taken modulo `M`. The sender still holds the items from `A` on,
below `N`. It sends items whose number lies within `W` behind a base, which should be `A` but may
be an old one: `d` is how far the base lies behind `A`, modulo `M`. The receiver accepted `S`
through its own window of `W`, and `js` is what is in flight to it, in order.

* `InFlight W M N A d S js`: what ties the two together. The receiver will be at most `2 W - 1`
  ahead of the sender once everything in flight has arrived, and nothing comes more than that too
  late, as long as an old base, read modulo `M`, lies behind everything the receiver can reach.
* `InFlight.send`: **a sender with `2 W ≤ M` keeps it**, whatever it sends inside the window.
* `InFlight.arrive`, `InFlight.sub`, `InFlight.dup`: arrivals, losses and repetitions keep it.
* `InFlight.advance`, `InFlight.rebase`: the sender moves on, or only its base does.
-/

namespace Trtp.Reassembly

/-- The items in flight between a sender's window and a receiver's. -/
structure InFlight (W M N A d : ℕ) (S : Finset ℕ) (js : List ℕ) : Prop where
  within : Within W S
  timely : Timely W (2 * W - 1) S js
  ahead : next (absorbAll W S js) ≤ A + (2 * W - 1)
  base : A < N → d = 0 ∨ next (absorbAll W S js) < A + d
  early : ∀ j ∈ js, j < A + M
  acked_le : A ≤ next S

variable {W M N A d : ℕ} {S : Finset ℕ} {js : List ℕ} {j : ℕ}

theorem inFlight_start (W M N : ℕ) : InFlight W M N 0 0 ∅ [] where
  within := fun i hi => absurd hi (Finset.notMem_empty i)
  timely := trivial
  ahead := by rw [absorbAll_nil, next_empty]; exact Nat.zero_le _
  base := fun _ => Or.inl rfl
  early := fun j hj => absurd hj List.not_mem_nil
  acked_le := Nat.zero_le _

/-- What is in flight can only move the receiver forward. -/
theorem InFlight.acked_le_ahead (h : InFlight W M N A d S js) :
    A ≤ next (absorbAll W S js) :=
  h.acked_le.trans (next_mono (subset_absorbAll S js))

/-- **The sender sends.** The item at distance `o` has its number `t` behind the base. -/
theorem InFlight.send (h : InFlight W M N A d S js) (hM : 2 * W ≤ M) (hA : A < N) {o t : ℕ}
    (hd : d < M) (ho : o < M) (ht : t < W) (hot : d + t = o ∨ d + t = o + M) :
    InFlight W M N A d S (js ++ [A + o]) := by
  have hbehind := h.acked_le_ahead
  have hahead := h.ahead
  have hX : Within W (absorbAll W S js) := within_absorbAll h.within js
  -- only the missing item moves the receiver, and then by a window at most
  have hmove : next (absorb W (absorbAll W S js) (A + o)) ≤ A + (2 * W - 1) ∧
      (d = 0 ∨ next (absorb W (absorbAll W S js) (A + o)) < A + d) := by
    by_cases hnext : A + o = next (absorbAll W S js)
    · have hle := next_absorb_le (j := A + o) hX
      rcases h.base hA with h0 | hold
      · exact ⟨by omega, Or.inl h0⟩
      · -- the base is an old one: the item in front of it was reached around the turn
        exact ⟨by omega, Or.inr (by omega)⟩
    · rw [next_absorb_of_ne hnext]
      exact ⟨hahead, h.base hA⟩
  refine ⟨h.within, h.timely.concat (by omega), ?_, fun _ => ?_, fun i hi => ?_, h.acked_le⟩
  · rw [absorbAll_concat]
    exact hmove.1
  · rw [absorbAll_concat]
    exact hmove.2
  · rcases List.mem_append.mp hi with hi | hi
    · exact h.early i hi
    · rw [List.mem_singleton] at hi
      omega

/-- Some of what was in flight is lost. -/
theorem InFlight.sub {js' : List ℕ} (h : InFlight W M N A d S js) (hsub : js'.Sublist js) :
    InFlight W M N A d S js' := by
  have hle : next (absorbAll W S js') ≤ next (absorbAll W S js) :=
    next_mono (absorbAll_mono hsub (Finset.Subset.refl S))
  refine ⟨h.within, h.timely.mono hsub (Finset.Subset.refl S), hle.trans h.ahead, fun hA => ?_,
    fun j hj => h.early j (hsub.subset hj), h.acked_le⟩
  rcases h.base hA with hd | hd
  · exact Or.inl hd
  · exact Or.inr (hle.trans_lt hd)

/-- An item is repeated in place. -/
theorem InFlight.dup {pre post : List ℕ} (h : InFlight W M N A d S (pre ++ j :: post)) :
    InFlight W M N A d S (pre ++ j :: j :: post) := by
  refine ⟨h.within, h.timely.dup (by omega) h.within, ?_, ?_, fun i hi => h.early i ?_,
    h.acked_le⟩
  · rw [absorbAll_dup]
    exact h.ahead
  · rw [absorbAll_dup]
    exact h.base
  · simpa using hi

/-- The oldest item arrives, in time. -/
theorem InFlight.arrive (h : InFlight W M N A d S (j :: js)) :
    InFlight W M N A d (absorb W S j) js where
  within := within_absorb h.within
  timely := h.timely.2
  ahead := h.ahead
  base := h.base
  early := fun i hi => h.early i (List.mem_cons_of_mem j hi)
  acked_le := h.acked_le.trans (next_le_next_absorb S j)

/-- The sender lets go of what the receiver has, and takes the new start for its base. -/
theorem InFlight.advance {A' : ℕ} (h : InFlight W M N A d S js) (hA : A ≤ A')
    (hle : A' ≤ next S) : InFlight W M N A' 0 S js where
  within := h.within
  timely := h.timely
  ahead := h.ahead.trans (Nat.add_le_add_right hA _)
  base := fun _ => Or.inl rfl
  early := fun j hj => (h.early j hj).trans_le (Nat.add_le_add_right hA _)
  acked_le := hle

/-- The base moves by itself. -/
theorem InFlight.rebase {d' : ℕ} (h : InFlight W M N A d S js)
    (hbase : A < N → d' = 0 ∨ next (absorbAll W S js) < A + d') : InFlight W M N A d' S js :=
  ⟨h.within, h.timely, h.ahead, hbase, h.early, h.acked_le⟩

end Trtp.Reassembly
