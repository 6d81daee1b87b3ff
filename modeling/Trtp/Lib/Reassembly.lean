import Mathlib.Data.Finset.Basic
import Mathlib.Data.Finset.Range
import Mathlib.Data.Fintype.EquivFin
import Mathlib.Order.Nat

/-!
# Reassembly of a numbered sequence through a window

What a receiver that accepts numbered items through a window of `W` is for, with no machine in
sight. The state is the finite set `S` of the items accepted so far; `next S` is the least item
still missing, so the items below it can be handed on in order. An arriving `j` is accepted when
`next S ≤ j < next S + W` (`absorb`).

* `absorbAll_mono`: with fewer arrivals, or a smaller start, no more is accepted. Losing items
  never helps.
* `absorb_absorb`: a second copy right behind the first changes nothing.
* `next_absorb_le`: one arrival `j` moves `next` to at most `j + W`.
* `Timely W k S js`: when its turn comes, no item of the line `js` is more than `k` behind `next`.
  A line stays timely when items are lost (`Timely.mono`), repeated in place (`Timely.dup`) or
  appended in time (`Timely.concat`).
-/

namespace Trtp.Reassembly

/-! ## The least missing item -/

/-- The least item not in `S`. -/
def next (S : Finset ℕ) : ℕ := Nat.find (Infinite.exists_notMem_finset S)

theorem next_notMem (S : Finset ℕ) : next S ∉ S :=
  Nat.find_spec (Infinite.exists_notMem_finset S)

theorem mem_of_lt_next {S : Finset ℕ} {i : ℕ} (h : i < next S) : i ∈ S :=
  not_not.mp (Nat.find_min (Infinite.exists_notMem_finset S) h)

theorem next_le {S : Finset ℕ} {i : ℕ} (h : i ∉ S) : next S ≤ i :=
  Nat.find_min' (Infinite.exists_notMem_finset S) h

theorem next_eq {S : Finset ℕ} {n : ℕ} (hbelow : ∀ i < n, i ∈ S) (hn : n ∉ S) : next S = n :=
  le_antisymm (next_le hn) (not_lt.mp fun h => next_notMem S (hbelow _ h))

@[simp] theorem next_empty : next ∅ = 0 :=
  next_eq (fun i hi => absurd hi (Nat.not_lt_zero i)) (Finset.notMem_empty 0)

@[simp] theorem next_range (n : ℕ) : next (Finset.range n) = n :=
  next_eq (fun _ hi => Finset.mem_range.mpr hi) Finset.notMem_range_self

theorem next_mono {S T : Finset ℕ} (h : S ⊆ T) : next S ≤ next T :=
  next_le fun hm => next_notMem T (h hm)

/-! ## Arrivals -/

variable (W : ℕ)

/-- One arrival: accepted when it lies in the window that starts at `next S`. -/
def absorb (S : Finset ℕ) (j : ℕ) : Finset ℕ :=
  if next S ≤ j ∧ j < next S + W then insert j S else S

/-- A line of arrivals. -/
def absorbAll (S : Finset ℕ) (js : List ℕ) : Finset ℕ := js.foldl (absorb W) S

/-- Nothing accepted lies beyond the window. -/
def Within (S : Finset ℕ) : Prop := ∀ i ∈ S, i < next S + W

variable {W} {S T : Finset ℕ} {j : ℕ} {js : List ℕ}

@[simp] theorem absorbAll_nil : absorbAll W S [] = S := rfl

theorem absorbAll_concat : absorbAll W S (js ++ [j]) = absorb W (absorbAll W S js) j := by
  rw [absorbAll, List.foldl_append]
  rfl

theorem subset_absorb (S : Finset ℕ) (j : ℕ) : S ⊆ absorb W S j := by
  unfold absorb
  split
  · exact Finset.subset_insert j S
  · exact Finset.Subset.refl S

theorem mem_absorb {i : ℕ} (h : i ∈ absorb W S j) : i ∈ S ∨ i = j := by
  unfold absorb at h
  split at h
  · exact (Finset.mem_insert.mp h).symm
  · exact Or.inl h

theorem mem_absorbAll {i : ℕ} (h : i ∈ absorbAll W S js) : i ∈ S ∨ i ∈ js := by
  induction js generalizing S with
  | nil => exact Or.inl h
  | cons j js ih =>
    rcases ih h with h' | h'
    · rcases mem_absorb h' with h' | rfl
      · exact Or.inl h'
      · exact Or.inr List.mem_cons_self
    · exact Or.inr (List.mem_cons_of_mem j h')

theorem subset_absorbAll (S : Finset ℕ) (js : List ℕ) : S ⊆ absorbAll W S js := by
  induction js generalizing S with
  | nil => exact Finset.Subset.refl S
  | cons j js ih => exact (subset_absorb S j).trans (ih (absorb W S j))

/-- An arrival other than `next S` does not move `next`. -/
theorem next_absorb_of_ne (h : j ≠ next S) : next (absorb W S j) = next S := by
  refine next_eq (fun i hi => subset_absorb S j (mem_of_lt_next hi)) fun hm => ?_
  rcases mem_absorb hm with hm | hm
  · exact next_notMem S hm
  · exact h hm.symm

theorem next_le_next_absorb (S : Finset ℕ) (j : ℕ) : next S ≤ next (absorb W S j) :=
  next_mono (subset_absorb S j)

/-- `next` moves only on the arrival of the missing item, and then at most one window further. -/
theorem next_absorb_le (hS : Within W S) : next (absorb W S j) ≤ max (next S) (j + W) := by
  by_cases h : j = next S
  · refine le_max_of_le_right (next_le fun hm => ?_)
    have hold : j + W ∈ S := by
      rcases mem_absorb hm with h' | h'
      · exact h'
      · rwa [absorb, if_neg (by omega)] at hm
    have := hS _ hold
    omega
  · rw [next_absorb_of_ne h]
    exact le_max_left _ _

theorem within_absorb (hS : Within W S) : Within W (absorb W S j) := by
  intro i hi
  have hle := next_le_next_absorb (W := W) S j
  by_cases hj : next S ≤ j ∧ j < next S + W
  · rcases mem_absorb hi with hi | rfl
    · have := hS i hi
      omega
    · omega
  · rw [absorb, if_neg hj] at hi ⊢
    exact hS i hi

theorem within_absorbAll (hS : Within W S) (js : List ℕ) : Within W (absorbAll W S js) := by
  induction js generalizing S with
  | nil => exact hS
  | cons j js ih => exact ih (within_absorb hS)

/-- An accepted or already delivered arrival is in the set afterwards. -/
theorem mem_absorb_self (h : j < next S + W) : j ∈ absorb W S j := by
  unfold absorb
  by_cases hj : next S ≤ j
  · rw [if_pos ⟨hj, h⟩]
    exact Finset.mem_insert_self j S
  · rw [if_neg (fun hc => hj hc.1)]
    exact mem_of_lt_next (not_le.mp hj)

theorem absorb_of_mem (h : j ∈ S) : absorb W S j = S := by
  unfold absorb
  split
  · exact Finset.insert_eq_of_mem h
  · rfl

/-- The first missing item is accepted. -/
theorem absorb_range (hW : 0 < W) (n : ℕ) :
    absorb W (Finset.range n) n = Finset.range (n + 1) := by
  rw [absorb, next_range, if_pos ⟨le_refl n, by omega⟩, Finset.range_add_one]

/-- A second copy right behind the first is refused or changes nothing. -/
theorem absorb_absorb (S : Finset ℕ) (j : ℕ) : absorb W (absorb W S j) j = absorb W S j := by
  by_cases hj : next S ≤ j ∧ j < next S + W
  · exact absorb_of_mem (mem_absorb_self hj.2)
  · have h : absorb W S j = S := if_neg hj
    rw [h, h]

theorem absorb_mono (h : S ⊆ T) (j : ℕ) : absorb W S j ⊆ absorb W T j := by
  intro i hi
  by_cases hj : next S ≤ j ∧ j < next S + W
  · rcases mem_absorb hi with hi | rfl
    · exact subset_absorb T j (h hi)
    · exact mem_absorb_self (lt_of_lt_of_le hj.2 (Nat.add_le_add_right (next_mono h) W))
  · rw [absorb, if_neg hj] at hi
    exact subset_absorb T j (h hi)

/-- **Fewer arrivals, fewer accepted items.** -/
theorem absorbAll_mono {js' : List ℕ} (hsub : js'.Sublist js) :
    ∀ {S T : Finset ℕ}, S ⊆ T → absorbAll W S js' ⊆ absorbAll W T js := by
  induction hsub with
  | slnil => exact fun h => h
  | cons j _ ih => exact fun h => ih (h.trans (subset_absorb _ j))
  | cons_cons j _ ih => exact fun h => ih (absorb_mono h j)

/-! ## Lines that are never too late -/

/-- At its turn, no item of the line is more than `k` behind `next`. -/
def Timely (W k : ℕ) : Finset ℕ → List ℕ → Prop
  | _, [] => True
  | S, j :: js => next S ≤ j + k ∧ Timely W k (absorb W S j) js

variable {k : ℕ}

/-- A shorter line from a smaller start is timely too. -/
theorem Timely.mono {js' : List ℕ} (hsub : js'.Sublist js) :
    ∀ {S T : Finset ℕ}, S ⊆ T → Timely W k T js → Timely W k S js' := by
  induction hsub with
  | slnil => exact fun _ h => h
  | cons j _ ih => exact fun h ht => ih (h.trans (subset_absorb _ j)) ht.2
  | cons_cons j _ ih =>
    exact fun h ht => ⟨(next_mono h).trans ht.1, ih (absorb_mono h j) ht.2⟩

/-- The bound for each item, from where the line starts. -/
theorem Timely.next_le (ht : Timely W k S js) (hj : j ∈ js) : next S ≤ j + k := by
  induction js generalizing S with
  | nil => exact absurd hj List.not_mem_nil
  | cons i js ih =>
    rcases List.mem_cons.mp hj with rfl | hj
    · exact ht.1
    · exact (next_le_next_absorb S i).trans (ih ht.2 hj)

theorem Timely.concat (ht : Timely W k S js) (hj : next (absorbAll W S js) ≤ j + k) :
    Timely W k S (js ++ [j]) := by
  induction js generalizing S with
  | nil => exact ⟨hj, trivial⟩
  | cons i js ih => exact ⟨ht.1, ih ht.2 hj⟩

/-- An item repeated in place stays in time. -/
theorem Timely.dup {pre post : List ℕ} (hW : W ≤ k) (hS : Within W S)
    (ht : Timely W k S (pre ++ j :: post)) : Timely W k S (pre ++ j :: j :: post) := by
  induction pre generalizing S with
  | nil =>
    refine ⟨ht.1, ?_, ?_⟩
    · have := next_absorb_le (j := j) hS
      have := ht.1
      omega
    · rw [absorb_absorb]
      exact ht.2
  | cons i pre ih => exact ⟨ht.1, ih (within_absorb hS) ht.2⟩

theorem absorbAll_dup (pre post : List ℕ) (S : Finset ℕ) :
    absorbAll W S (pre ++ j :: j :: post) = absorbAll W S (pre ++ j :: post) := by
  simp only [absorbAll, List.foldl_append, List.foldl_cons, absorb_absorb]

end Trtp.Reassembly
