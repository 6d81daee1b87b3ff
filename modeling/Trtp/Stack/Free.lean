import Trtp.Lib.Blocks
import Trtp.Stack.Circular

/-!
# The nodes in memory from `stack_init` to `stack_free` (`src/stack/stack.c:12-159`)

Which nodes are allocated. `Owned m cells`: the memory holds the stack, and its nodes are all that
is allocated.

* `stackRemove_frees`: a removal frees the node it took out and no other; `owned_call`: **every
  call keeps the nodes of the stack allocated and nothing else**.
* `stackFree_owned`: **`stack_free` ends, deletes the packets from first to last, and leaves
  nothing allocated**.
* `nothing_left`: a stack from `stack_init` to `stack_free`.
* `stackPrint_eq`: `stack_print` reads the numbers of the first nodes, without leaving the stack.

`stack_t` itself is not part of the heap.
-/

namespace Trtp.Pointers

open Trtp.Blocks Trtp.Links Trtp.Run

/-! ## The functions -/

/-- The loop of `stack_free`, with the packets that `pkt_del` got. -/
def stackFreeLoop (walk : ℕ) : ℕ → List Pkt → Memory → Option (List Pkt × Memory)
  | 0, _, _ => none
  | fuel + 1, deleted, m =>
    if m.first ≠ none then do
      let first ← m.heap.load m.first
      let (pkt, m) ← stackRemove walk m first.seqnum
      stackFreeLoop walk fuel (deleted ++ pkt.toList) m
    else some (deleted, m)

/-- `stack_free`. -/
def stackFree (fuel : ℕ) (m : Memory) : Option (List Pkt × Memory) := stackFreeLoop fuel fuel [] m

/-- The rounds of the loop of `stack_print` that are left. -/
def printLoop (heap : Heap) : ℕ → Ptr → Option (List UInt8)
  | 0, _ => some []
  | rounds + 1, runner => do
    let node ← heap.load runner
    return node.seqnum :: (← printLoop heap rounds node.next)

/-- The numbers that `stack_print` prints: `i <= (int) stack_size(stack) && i <= amount2`. -/
def stackPrint (m : Memory) (amount : ℤ) : Option (List UInt8) :=
  let amount2 := if amount = 0 then toInt m.size else amount
  printLoop m.heap (min (toInt m.size) amount2).toNat m.first

/-! ## Which nodes are allocated -/

variable {heap heap' : Heap} {m m' : Memory} {cells back : List (Addr × Node)} {p q : Ptr}

theorem store_none {assign : Cell → Cell} (h : heap.store p assign = some heap') (x : Addr) :
    heap' x = none ↔ heap x = none := by
  obtain ⟨addr, rfl, h⟩ := Option.bind_eq_some_iff.mp h
  obtain ⟨cell, hcell, h⟩ := Option.bind_eq_some_iff.mp h
  obtain rfl := Option.some.inj h
  by_cases hx : x = addr
  · subst hx
    rw [Function.update_self, hcell]
    exact iff_of_false (by simp) (by simp)
  · rw [Function.update_of_ne hx]

theorem load_ne_none {cell : Cell} (h : heap.load p = some cell) :
    ∃ addr, p = some addr ∧ heap addr ≠ none := by
  obtain ⟨addr, rfl, hcell⟩ := Option.bind_eq_some_iff.mp h
  exact ⟨addr, rfl, by simp [hcell]⟩

theorem unlink_none (h : heap.unlink p = some heap') (x : Addr) :
    heap' x = none ↔ heap x = none := by
  obtain ⟨cell, -, h⟩ := Option.bind_eq_some_iff.mp h
  obtain ⟨heap1, h1, h⟩ := Option.bind_eq_some_iff.mp h
  obtain ⟨cell', -, h2⟩ := Option.bind_eq_some_iff.mp h
  exact (store_none h2 x).trans (store_none h1 x)

/-- One node is freed. -/
def Frees (heap heap' : Heap) : Prop :=
  ∃ addr, heap addr ≠ none ∧ ∀ x, heap' x = none ↔ x = addr ∨ heap x = none

theorem free_none (heap : Heap) (addr x : Addr) :
    heap.free (some addr) x = none ↔ x = addr ∨ heap x = none := by
  unfold Heap.free
  by_cases hx : x = addr
  · simp [hx]
  · rw [if_neg fun hc => hx (Option.some.inj hc).symm]
    exact ⟨Or.inr, fun h => h.resolve_left hx⟩

theorem release_frees {r : Option Pkt} (h : m.release p = some (r, m')) :
    Frees m.heap m'.heap := by
  unfold Memory.release at h
  obtain ⟨heap1, h1, h⟩ := Option.bind_eq_some_iff.mp h
  obtain ⟨heap2, h2, h⟩ := Option.bind_eq_some_iff.mp h
  obtain ⟨cell, hload, h⟩ := Option.bind_eq_some_iff.mp h
  obtain ⟨addr, rfl, hne⟩ := load_ne_none hload
  obtain ⟨-, rfl⟩ := Prod.ext_iff.mp (Option.some.inj h)
  have hsame : ∀ x, heap2 x = none ↔ m.heap x = none := fun x => by
    rw [store_none h2, store_none h1]
    split <;> rfl
  refine ⟨addr, fun hnone => hne ((hsame addr).mpr hnone), fun x => ?_⟩
  rw [free_none, hsame]

/-- **A removal frees one node.** -/
theorem stackRemove_frees {fuel : ℕ} {seqnum : UInt8} {pkt : Pkt}
    (h : stackRemove fuel m seqnum = some (some pkt, m')) : Frees m.heap m'.heap := by
  have hrelease : ∀ {heap : Heap} {first last : Ptr} {runner : Ptr},
      m.heap.unlink runner = some heap →
      ({ m with heap := heap, first := first, last := last } : Memory).release runner =
        some (some pkt, m') → Frees m.heap m'.heap := by
    intro heap first last runner hunlink hrel
    obtain ⟨addr, hne, hall⟩ := release_frees hrel
    exact ⟨addr, fun hnone => hne ((unlink_none hunlink addr).mpr hnone),
      fun x => (hall x).trans (or_congr_right (unlink_none hunlink x))⟩
  unfold stackRemove at h
  split at h
  · exact absurd h (by simp)
  · obtain ⟨runner, -, h⟩ := Option.bind_eq_some_iff.mp h
    split at h
    · exact absurd h (by simp)
    · split at h
      · split at h
        · -- the only node
          obtain ⟨cell, hload, h⟩ := Option.bind_eq_some_iff.mp h
          obtain ⟨addr, rfl, hne⟩ := load_ne_none hload
          obtain ⟨-, rfl⟩ := Prod.ext_iff.mp (Option.some.inj h)
          exact ⟨addr, hne, free_none m.heap addr⟩
        · obtain ⟨heap, hunlink, h⟩ := Option.bind_eq_some_iff.mp h
          obtain ⟨first, -, h⟩ := Option.bind_eq_some_iff.mp h
          exact hrelease hunlink h
      · split at h
        · obtain ⟨heap, hunlink, h⟩ := Option.bind_eq_some_iff.mp h
          obtain ⟨last, -, h⟩ := Option.bind_eq_some_iff.mp h
          exact hrelease hunlink h
        · obtain ⟨heap, hunlink, h⟩ := Option.bind_eq_some_iff.mp h
          exact hrelease hunlink h

/-! ## Stacks that own their nodes -/

/-- The nodes of the stack are all that is allocated. -/
structure Owned (m : Memory) (cells : List (Addr × Node)) : Prop extends Holds m cells where
  owns : Owns m.heap (cells.map Prod.fst)

theorem node_eq_none {x : Addr} : heap.node x = none ↔ heap x = none := Option.map_eq_none_iff

theorem Cells.allocated (h : Cells heap cells) : ∀ x ∈ cells.map Prod.fst, heap x ≠ none := by
  intro x hx
  obtain ⟨c, hc, rfl⟩ := List.mem_map.mp hx
  rw [Ne, ← node_eq_none, h.node c hc]
  simp

/-- Nodes that are all of the stack's, by their number. -/
theorem Holds.owned {addrs : List Addr} (h : Holds m cells) (howns : Owns m.heap addrs)
    (hlen : addrs.length ≤ cells.length) : Owned m cells :=
  ⟨h, howns.of_length h.nodup h.allocated (by rwa [List.length_map])⟩

theorem owned_init : Owned stackInit [] := ⟨holds_init, owns_empty⟩

/-- One node less, of a stack with one node less. -/
theorem Owned.frees (h : Owned m cells) (hholds : Holds m' back) (hfrees : Frees m.heap m'.heap)
    (hlen : cells.length ≤ back.length + 1) : Owned m' back := by
  obtain ⟨addr, hne, hall⟩ := hfrees
  refine hholds.owned (h.owns.erase hall) ?_
  rw [List.length_erase_of_mem ((h.owns.mem_iff addr).mpr hne), List.length_map]
  omega

variable {fuel : ℕ} {seqnum : UInt8}

theorem Owned.enqueue {addr : Addr} (pkt : Pkt) (h : Owned m cells) (hnew : m.heap addr = none)
    (hfuel : cells.length ≤ fuel) :
    ∃ m' cells', stackEnqueue fuel m addr pkt = some m' ∧ Owned m' cells' := by
  obtain ⟨m', cells', henq, hholds, hlist, hnode⟩ := stackEnqueue_refines pkt h.toHolds hnew hfuel
  have hlen := congrArg List.length hlist
  rw [List.length_map, length_stackEnqueue, List.length_map] at hlen
  have hsame : ∀ x, m'.heap x = none ↔ m.heap.alloc addr pkt x = none := fun x => by
    rw [← node_eq_none, hnode, ← node_alloc, node_eq_none]
  exact ⟨m', cells', henq, hholds.owned ((h.owns.alloc hnew _).congr hsame)
    (by rw [List.length_cons, List.length_map, hlen])⟩

theorem Owned.remove (seqnum : UInt8) (h : Owned m cells) (hfuel : cells.length ≤ fuel) :
    ∃ r m' cells', stackRemove fuel m seqnum = some (r, m') ∧ Owned m' cells' ∧
      cells'.length ≤ cells.length := by
  obtain ⟨m', cells', hremove, hholds, hlist, hsame⟩ := stackRemove_refines h.toHolds hfuel
  have hlen := congrArg List.length hlist
  rcases stackRemove_cases (cells.map Prod.snd) seqnum with
    ⟨-, heq⟩ | ⟨front, node, rest, hsplit, -, -, heq⟩
  · rw [heq] at hremove hsame
    obtain rfl := hsame rfl
    exact ⟨_, m', cells, hremove, h, le_refl _⟩
  · have hlen' := congrArg List.length hsplit
    rw [heq] at hremove hlen
    simp only [List.length_map, List.length_append, List.length_cons] at hlen hlen'
    exact ⟨_, m', cells', hremove,
      h.frees hholds (stackRemove_frees hremove) (by omega), by omega⟩

theorem removeAckedLoop_owned {walk count n : ℕ} (h : Owned m cells) (hwalk : cells.length ≤ walk)
    (hloop : removeAckedLoop walk seqnum fuel count m = some (n, m')) :
    ∃ cells', Owned m' cells' := by
  induction fuel generalizing m cells count with
  | zero => exact absurd hloop (by simp [removeAckedLoop])
  | succ fuel ih =>
    rw [removeAckedLoop] at hloop
    obtain ⟨first, -, hloop⟩ := Option.bind_eq_some_iff.mp hloop
    split at hloop
    · obtain ⟨⟨pkt, m1⟩, hremove, hloop⟩ := Option.bind_eq_some_iff.mp hloop
      obtain ⟨r, m1', cells1, hremove', howned, hlen⟩ := h.remove first.seqnum hwalk
      rw [hremove, Option.some.injEq, Prod.mk.injEq] at hremove'
      obtain ⟨-, rfl⟩ := hremove'
      simp only at hloop
      split at hloop
      · obtain ⟨-, rfl⟩ := Prod.ext_iff.mp (Option.some.inj hloop)
        exact ⟨cells1, howned⟩
      · exact ih howned (hlen.trans hwalk) hloop
    · obtain ⟨-, rfl⟩ := Prod.ext_iff.mp (Option.some.inj hloop)
      exact ⟨cells, h⟩

/-- **A call** leaves the nodes of the stack allocated, and nothing else. -/
theorem owned_call {e : Event} (h : Owned m cells) (he : e.Possible m)
    (hfuel : cells.length ≤ fuel) :
    ∃ answer m' cells', runCall fuel m e = some (answer, m') ∧ Owned m' cells' ∧
      cells'.length ≤ cells.length + 1 := by
  obtain ⟨m', cells', hrun, hholds, hlist, -⟩ := runCall_refines h.toHolds he hfuel
  have hlen : cells'.length ≤ cells.length + 1 := by
    have hle := e.call.length_apply_le (cells.map Prod.snd)
    rw [← hlist, List.length_map, List.length_map] at hle
    exact hle
  have howned : ∃ cells1, Owned m' cells1 := by
    obtain ⟨addr, call⟩ := e
    cases call with
    | enqueue pkt =>
      obtain ⟨m1, cells1, henq, howned⟩ := h.enqueue pkt he hfuel
      simp only [runCall, henq, Option.map_some, Option.some.injEq, Prod.mk.injEq] at hrun
      exact ⟨cells1, hrun.2 ▸ howned⟩
    | remove seqnum =>
      obtain ⟨r, m1, cells1, hremove, howned, -⟩ := h.remove seqnum hfuel
      simp only [runCall, hremove, Option.map_some, Option.some.injEq, Prod.mk.injEq] at hrun
      exact ⟨cells1, hrun.2 ▸ howned⟩
    | removeAcked seqnum =>
      obtain ⟨⟨n, m1⟩, hacked, hpair⟩ := Option.map_eq_some_iff.mp hrun
      obtain ⟨-, rfl⟩ := Prod.ext_iff.mp hpair
      unfold stackRemoveAcked at hacked
      split at hacked
      · obtain ⟨-, rfl⟩ := Prod.ext_iff.mp (Option.some.inj hacked)
        exact ⟨cells, h⟩
      · exact removeAckedLoop_owned h hfuel hacked
  obtain ⟨cells1, howned⟩ := howned
  refine ⟨_, m', cells', hrun, hholds.owned howned.owns ?_, hlen⟩
  rw [List.length_map, ← howned.size, ← hholds.size]

/-! ## To the end -/

/-- **`stack_free` deletes the packets from first to last**, and frees every node. -/
theorem stackFreeLoop_owned {walk : ℕ} (deleted : List Pkt) (h : Owned m cells)
    (hwalk : cells.length ≤ walk) (hfuel : cells.length < fuel) :
    ∃ m', stackFreeLoop walk fuel deleted m =
        some (deleted ++ cells.map fun c => c.2.pkt, m') ∧ Owned m' [] := by
  induction cells generalizing m fuel deleted with
  | nil =>
    obtain ⟨fuel, rfl⟩ : ∃ n, fuel = n + 1 := ⟨fuel - 1, by omega⟩
    have hfirst : m.first = none := h.first
    rw [stackFreeLoop, if_neg (not_not.mpr hfirst), List.map_nil, List.append_nil]
    exact ⟨m, rfl, h⟩
  | cons c back ih =>
    obtain ⟨fuel, rfl⟩ : ∃ n, fuel = n + 1 := ⟨fuel - 1, by omega⟩
    have hfirst : m.first = some c.1 := h.first
    have hholds : Holds m ([] ++ c :: back) := h.toHolds
    obtain ⟨m1, hremove, h1⟩ := stackRemove_found hholds hwalk (by simp) rfl
    have howned : Owned m1 back := h.frees h1 (stackRemove_frees hremove) (le_refl _)
    obtain ⟨m', hloop, hend⟩ := ih (deleted ++ [c.2.pkt]) howned
      (Nat.le_of_succ_le hwalk) (Nat.lt_of_succ_lt_succ hfuel)
    refine ⟨m', ?_, hend⟩
    rw [stackFreeLoop, if_pos (by rw [hfirst]; simp), hfirst, h.load List.mem_cons_self,
      Option.bind_eq_bind, Option.bind_some, hremove, Option.bind_eq_bind, Option.bind_some]
    simp only [Option.toList_some]
    rw [hloop, List.append_assoc, List.map_cons]
    rfl

theorem stackFree_owned (h : Owned m cells) (hfuel : cells.length < fuel) :
    ∃ m', stackFree fuel m = some (m.contents.map Node.pkt, m') ∧ m'.heap = (fun _ => none) ∧
      m'.first = none ∧ m'.last = none ∧ m'.size = 0 := by
  obtain ⟨m', hloop, hend⟩ := stackFreeLoop_owned [] h hfuel.le hfuel
  refine ⟨m', ?_, hend.owns.eq_none, hend.first, hend.last, hend.size⟩
  rw [stackFree, hloop, List.nil_append, h.contents_eq, List.map_map]
  rfl

theorem exec_owned {events : List Event} {s : Option Memory} (h : Owned m cells)
    (hfuel : cells.length + events.length ≤ fuel)
    (hexec : exec (memStep fuel) (some m) events = some s) :
    ∃ m' cells', s = some m' ∧ Owned m' cells' ∧
      cells'.length ≤ cells.length + events.length := by
  induction events generalizing m cells with
  | nil =>
    rw [exec, Option.some.injEq] at hexec
    exact ⟨m, cells, hexec.symm, h, Nat.le_add_right _ _⟩
  | cons e events ih =>
    obtain ⟨s1, hstep, hexec'⟩ := exec_cons_inv hexec
    rw [List.length_cons] at hfuel
    rw [memStep] at hstep
    split at hstep
    · rename_i hposs
      have hle : cells.length ≤ fuel := by omega
      obtain ⟨answer, m1, cells1, hrun, howned, hlen⟩ := owned_call h hposs hle
      rw [hrun, Option.map_some, Option.some.injEq] at hstep
      subst hstep
      obtain ⟨m', cells', hs, howned', hlen'⟩ := ih howned (by omega) hexec'
      exact ⟨m', cells', hs, howned', by rw [List.length_cons]; omega⟩
    · exact absurd hstep (by simp)

/-- **A stack from `stack_init` to `stack_free`**: in between its nodes are all that is allocated,
at the end nothing is, and `pkt_del` got the packets that were in it. -/
theorem nothing_left {fuel : ℕ} {events : List Event} (hfuel : events.length < fuel)
    {s : Option Memory} (h : exec (memStep fuel) (some stackInit) events = some s) :
    ∃ m addrs, s = some m ∧ Owns m.heap addrs ∧ addrs.length = m.size ∧
      ∃ m', stackFree fuel m =
          some (((events.map Event.call).foldl Call.apply []).map Node.pkt, m') ∧
        m'.heap = (fun _ => none) ∧ m'.first = none ∧ m'.last = none ∧ m'.size = 0 := by
  have hfuel' : ([] : List (Addr × Node)).length + events.length ≤ fuel := by
    simpa using hfuel.le
  obtain ⟨m, cells, hs, howned, hlen⟩ := exec_owned owned_init hfuel' h
  obtain ⟨m1, hs1, -, hlist⟩ := exec_refines holds_init hfuel' h
  rw [hs, Option.some.injEq] at hs1
  subst hs1
  obtain ⟨m', hfree, hend⟩ := stackFree_owned howned
    (by rw [List.length_nil, Nat.zero_add] at hlen; exact hlen.trans_lt hfuel)
  rw [hlist] at hfree
  exact ⟨m, _, hs, howned.owns, by rw [List.length_map, howned.size], m', hfree, hend⟩

/-- Two numbers, one of them twice, and a removal. -/
theorem nothing_left_three :
    ∃ m addrs, exec (memStep 5) (some stackInit)
        [⟨7, .enqueue pktNew⟩, ⟨9, .enqueue { pktNew with seqnum := 3 }⟩, ⟨8, .enqueue pktNew⟩,
          ⟨0, .remove 0⟩] = some (some m) ∧ Owns m.heap addrs ∧ addrs.length = m.size ∧
      ∃ m' deleted, stackFree 5 m = some (deleted, m') ∧ m'.heap = (fun _ => none) := by
  obtain ⟨s, hs⟩ := Option.isSome_iff_exists.mp (by decide +kernel :
    (exec (memStep 5) (some stackInit)
      [⟨7, .enqueue pktNew⟩, ⟨9, .enqueue { pktNew with seqnum := 3 }⟩, ⟨8, .enqueue pktNew⟩,
        ⟨0, .remove 0⟩]).isSome)
  obtain ⟨m, addrs, rfl, howns, hlen, m', hfree, hheap, -⟩ := nothing_left (by decide) hs
  exact ⟨m, addrs, hs, howns, hlen, m', _, hfree, hheap⟩

/-! ## Printing -/

theorem printLoop_eq {front : List (Addr × Node)} (h : Cells heap (front ++ back))
    (hp : ∀ c ∈ back.head?, p = some c.1) {rounds : ℕ} (hrounds : rounds ≤ back.length) :
    printLoop heap rounds p = some ((back.take rounds).map fun c => c.2.seqnum) := by
  induction back generalizing front p rounds with
  | nil =>
    obtain rfl := Nat.le_zero.mp hrounds
    rfl
  | cons c back ih =>
    cases rounds with
    | zero => rfl
    | succ rounds =>
      have hcons : front ++ c :: back = (front ++ [c]) ++ back := by simp
      rw [hp c rfl, printLoop, h.load (by simp), Option.bind_eq_bind, Option.bind_some,
        ih (hcons ▸ h) h.next_head (Nat.le_of_succ_le_succ hrounds)]
      rfl

/-- **`stack_print` stays in the stack**: all numbers for 0, the first `amount` otherwise. -/
theorem stackPrint_eq (h : Holds m cells) (hsize : m.size < 2 ^ 31) (amount : ℤ) :
    stackPrint m amount = some (((m.contents.map Node.seqnum).take
      (if amount = 0 then m.size else amount.toNat))) := by
  have hcells : Cells m.heap ([] ++ cells) := h.toCells
  have hlen := h.size
  rw [stackPrint, toInt_of_lt hsize, printLoop_eq hcells h.first_eq (by split <;> omega),
    h.contents_eq, List.map_map, List.map_take]
  refine congrArg some (List.take_eq_take_iff.mpr ?_)
  rw [List.length_map]
  split <;> omega

end Trtp.Pointers
