import Mathlib.Data.List.Perm.Basic
import Mathlib.Logic.Function.Basic

/-!
# Allocated blocks

A memory as a partial function from addresses to the blocks that are allocated. `Owns blocks addrs`:
exactly the addresses in the list are allocated, each listed once. A list that is split into parts
says who has to free what.

* `Owns.alloc`, `Owns.free`: an allocation adds an address, `free` takes one away and cannot fail
  for an address of the list.
* `Owns.of_length`: as many allocated addresses as there are, each once, are all of them.
-/

namespace Trtp.Blocks

variable {ι β : Type*} {blocks : ι → Option β} {addrs addrs' : List ι} {addr : ι}

/-- Exactly these addresses are allocated. -/
structure Owns (blocks : ι → Option β) (addrs : List ι) : Prop where
  nodup : addrs.Nodup
  mem_iff : ∀ addr, addr ∈ addrs ↔ blocks addr ≠ none

theorem owns_empty : Owns (fun _ : ι => (none : Option β)) [] :=
  ⟨List.nodup_nil, fun _ => iff_of_false List.not_mem_nil fun h => h rfl⟩

theorem Owns.perm (h : Owns blocks addrs) (hp : addrs.Perm addrs') : Owns blocks addrs' :=
  ⟨hp.nodup_iff.mp h.nodup, fun addr => hp.mem_iff.symm.trans (h.mem_iff addr)⟩

theorem Owns.notMem (h : Owns blocks addrs) (hnew : blocks addr = none) : addr ∉ addrs :=
  fun hmem => (h.mem_iff addr).mp hmem hnew

/-- The contents of a block that is allocated. -/
theorem Owns.exists_block (h : Owns blocks addrs) (hmem : addr ∈ addrs) :
    ∃ b, blocks addr = some b := Option.ne_none_iff_exists'.mp ((h.mem_iff addr).mp hmem)

/-- As many allocated addresses as there are, each once, are all of them. -/
theorem Owns.of_length (h : Owns blocks addrs) (hnodup : addrs'.Nodup)
    (hall : ∀ addr ∈ addrs', blocks addr ≠ none) (hlen : addrs.length ≤ addrs'.length) :
    Owns blocks addrs' :=
  h.perm ((List.subperm_of_subset hnodup fun addr ha =>
    (h.mem_iff addr).mpr (hall addr ha)).perm_of_length_le hlen).symm

theorem Owns.congr {blocks' : ι → Option β} (h : Owns blocks addrs)
    (hsame : ∀ addr, blocks' addr = none ↔ blocks addr = none) : Owns blocks' addrs :=
  ⟨h.nodup, fun addr => (h.mem_iff addr).trans (not_congr (hsame addr)).symm⟩

theorem Owns.eq_none (h : Owns blocks []) : blocks = fun _ => none := by
  funext addr
  by_contra hne
  exact List.not_mem_nil ((h.mem_iff addr).mpr hne)

/-! ## `malloc` and `free` -/

variable [DecidableEq ι]

/-- `free`: an error for an address that is not allocated. -/
def free (blocks : ι → Option β) (addr : ι) : Option (ι → Option β) :=
  match blocks addr with
  | none => none
  | some _ => some (Function.update blocks addr none)

theorem Owns.alloc (h : Owns blocks addrs) (hnew : blocks addr = none) (b : β) :
    Owns (Function.update blocks addr (some b)) (addr :: addrs) := by
  refine ⟨List.nodup_cons.mpr ⟨h.notMem hnew, h.nodup⟩, fun x => ?_⟩
  rw [List.mem_cons]
  by_cases hx : x = addr
  · rw [hx, Function.update_self]
    exact iff_of_true (Or.inl rfl) (by simp)
  · rw [Function.update_of_ne hx, ← h.mem_iff]
    exact ⟨fun hm => hm.resolve_left hx, Or.inr⟩

/-- One address less is allocated. -/
theorem Owns.erase {blocks' : ι → Option β} (h : Owns blocks addrs)
    (hfree : ∀ x, blocks' x = none ↔ x = addr ∨ blocks x = none) :
    Owns blocks' (addrs.erase addr) := by
  refine ⟨h.nodup.erase addr, fun x => ?_⟩
  rw [h.nodup.mem_erase_iff, h.mem_iff, Ne, Ne, Ne, hfree, not_or]

theorem free_eq {b : β} (h : blocks addr = some b) :
    free blocks addr = some (Function.update blocks addr none) := by
  rw [free, h]

/-- **`free` takes its address out.** -/
theorem Owns.free (h : Owns blocks (addr :: addrs)) :
    Owns (Function.update blocks addr none) addrs := by
  have hnodup := List.nodup_cons.mp h.nodup
  refine ⟨hnodup.2, fun x => ?_⟩
  by_cases hx : x = addr
  · rw [hx, Function.update_self]
    exact iff_of_false hnodup.1 fun hne => hne rfl
  · rw [Function.update_of_ne hx, ← h.mem_iff, List.mem_cons]
    exact ⟨Or.inr, fun hm => hm.resolve_left hx⟩

end Trtp.Blocks
