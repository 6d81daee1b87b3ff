import Trtp.Lib.Run
import Trtp.Stack.Pointers

/-!
# The list in memory is the stack (`src/stack/stack.c`)

`Holds m cells`: the memory holds the nodes `cells`, addresses and contents, as a ring with `first`,
`last` and `size`. There every function of `Trtp.Stack.Pointers` returns, with fuel for the nodes
there are, and does what the function of the same name does to the list `cells.map Prod.snd`.

* `enqueueWalk_eq`, `findWalk_eq`: the walks end, where the recursion on the list ends.
* `insert_eq`, `unlink_eq`: the assignments to `next` and `prev` are the operations on rings.
* `stackEnqueue_refines`, `stackRemove_refines`, `stackRemoveAcked_refines`,
  `stackGetPkt_refines`, `isInStack_refines`; the last one while `size` is an `int`.
-/

namespace Trtp.Pointers

open Trtp.Links Trtp.Run

/-! ## The nodes of a stack -/

/-- A ring of nodes: the addresses from `first` to `last`, with what the nodes hold. -/
structure Cells (heap : Heap) (cells : List (Addr × Node)) : Prop where
  ring : Ring heap.next heap.prev (cells.map Prod.fst)
  node : ∀ c ∈ cells, heap.node c.1 = some c.2

/-- The memory holds a stack. -/
structure Holds (m : Memory) (cells : List (Addr × Node)) : Prop extends Cells m.heap cells where
  first : m.first = (cells.map Prod.fst).head?
  last : m.last = (cells.map Prod.fst).getLast?
  size : m.size = cells.length

variable {heap : Heap} {m : Memory} {cells front back : List (Addr × Node)} {c d : Addr × Node}

theorem Cells.nodup (h : Cells heap cells) : (cells.map Prod.fst).Nodup := h.ring.nodup

theorem Cells.load (h : Cells heap cells) (hc : c ∈ cells) :
    heap.load (some c.1) = some ⟨heap.next c.1, heap.prev c.1, c.2.pkt, c.2.seqnum⟩ :=
  load_eq (h.node c hc)

theorem Cells.link (h : Cells heap (front ++ c :: d :: back)) :
    heap.next c.1 = some d.1 ∧ heap.prev d.1 = some c.1 := by
  have hring := h.ring
  rw [List.map_append, List.map_cons, List.map_cons] at hring
  exact hring.link

/-- The node after a node, where there is one. -/
theorem Cells.next_head (h : Cells heap (front ++ c :: back)) :
    ∀ d ∈ back.head?, heap.next c.1 = some d.1 := by
  intro d hd
  cases back with
  | nil => exact absurd hd (by simp)
  | cons b back =>
    cases hd
    exact h.link.1

theorem Cells.next_eq (h : Cells heap (front ++ c :: back)) :
    heap.next c.1 = ((back ++ front ++ [c]).map Prod.fst).head? := by
  have hring := h.ring
  rw [List.map_append, List.map_cons] at hring
  rw [hring.next_eq, List.map_append, List.map_append]
  rfl

theorem Cells.prev_eq (h : Cells heap (front ++ c :: back)) :
    heap.prev c.1 = ((c :: (back ++ front)).map Prod.fst).getLast? := by
  have hring := h.ring
  rw [List.map_append, List.map_cons] at hring
  rw [hring.prev_eq, List.map_cons, List.map_append]

theorem Cells.exists_next (h : Cells heap (front ++ c :: back)) :
    ∃ s ∈ front ++ c :: back, heap.next c.1 = some s.1 := by
  have hnext := h.next_eq
  cases hl : back ++ front ++ [c] with
  | nil => exact absurd hl (by simp)
  | cons s rest =>
    rw [hl] at hnext
    refine ⟨s, ?_, hnext⟩
    have hs : s ∈ back ++ front ++ [c] := hl ▸ List.mem_cons_self
    simp only [List.mem_append, List.mem_singleton] at hs
    rw [List.mem_append, List.mem_cons]
    tauto

/-- The address of a node is none of the others'. -/
theorem Cells.ne_of_mem (h : Cells heap (front ++ c :: back)) (hd : d ∈ front ++ back) :
    c.1 ≠ d.1 := by
  have hperm : ((front ++ c :: back).map Prod.fst).Perm ((c :: (front ++ back)).map Prod.fst) :=
    List.perm_middle.map Prod.fst
  have hnodup := hperm.nodup_iff.mp h.nodup
  rw [List.map_cons, List.nodup_cons] at hnodup
  exact fun heq => hnodup.1 (List.mem_map.mpr ⟨d, hd, heq.symm⟩)

/-- Only the first node is at `first`. -/
theorem Cells.ne_first (h : Cells heap (front ++ c :: back)) (hne : front ≠ []) :
    some c.1 ≠ ((front ++ c :: back).map Prod.fst).head? := by
  cases front with
  | nil => exact absurd rfl hne
  | cons f front =>
    intro heq
    have hnodup := h.nodup
    rw [List.cons_append, List.map_cons, List.nodup_cons] at hnodup
    rw [List.cons_append, List.map_cons, List.head?_cons, Option.some.injEq] at heq
    exact hnodup.1 (List.mem_map.mpr ⟨c, by simp, heq⟩)

/-- Only the last node is at `last`. -/
theorem Cells.ne_last (h : Cells heap (front ++ c :: back)) (hne : back ≠ []) :
    some c.1 ≠ ((front ++ c :: back).map Prod.fst).getLast? := by
  intro heq
  have hnodup := h.nodup
  rw [List.map_append, List.map_cons] at hnodup heq
  rw [List.getLast?_append_of_ne_nil _ (by simp), List.getLast?_cons_of_ne_nil
    (by simpa using hne)] at heq
  exact (List.nodup_cons.mp (List.nodup_append.mp hnodup).2.1).1 (List.mem_of_getLast? heq.symm)

/-! ## The walks -/

/-- **The search ends**, at the first node with the number. -/
theorem findWalk_eq {seqnum : UInt8} {fuel : ℕ} (h : Cells heap (front ++ c :: back))
    (hfuel : back.length < fuel) :
    findWalk heap ((front ++ c :: back).map Prod.fst).head? seqnum fuel (some c.1) =
      some (((c :: back).find? fun d => d.2.seqnum = seqnum).map Prod.fst) := by
  induction back generalizing front c fuel with
  | nil =>
    cases fuel with
    | zero => exact absurd hfuel (by simp)
    | succ fuel =>
      have hnext := h.next_eq
      rw [List.nil_append] at hnext
      rw [findWalk, h.load (by simp)]
      by_cases hs : c.2.seqnum = seqnum
      · simp [hs]
      · simp [hs, hnext]
  | cons d back ih =>
    cases fuel with
    | zero => exact absurd hfuel (by simp)
    | succ fuel =>
      have hnext := h.link.1
      rw [findWalk, h.load (by simp)]
      by_cases hs : c.2.seqnum = seqnum
      · simp [hs]
      · have hcons : front ++ c :: d :: back = (front ++ [c]) ++ d :: back := by simp
        rw [hcons] at h
        have hne := h.ne_first (by simp)
        have hrest := ih h (by simpa using hfuel)
        rw [← hcons] at hne hrest
        have hfind : (c :: d :: back).find? (fun d => d.2.seqnum = seqnum) =
            (d :: back).find? fun d => d.2.seqnum = seqnum :=
          List.find?_cons_of_neg (by simpa using hs)
        rw [Option.bind_eq_bind, Option.bind_some, if_pos hs]
        simp only [hnext]
        rw [if_neg hne, hrest, hfind]

/-- **The walk back ends**, at the node behind which the list has the new one. -/
theorem enqueueWalk_eq (newNode : Node) {rev passed : List (Addr × Node)} {fuel : ℕ}
    (h : Cells heap (rev.reverse ++ c :: passed)) (hshort : rev ≠ [] ∨ passed = [])
    (hfuel : rev.length < fuel) :
    ∃ back d front, c :: rev = back ++ d :: front ∧
      enqueueWalk heap ((rev.reverse ++ c :: passed).map Prod.fst).head? newNode.seqnum fuel
        (some c.1) = some (some d.1) ∧
      enqueueBack newNode ((c :: rev).map Prod.snd) =
        back.map Prod.snd ++ newNode :: d.2 :: front.map Prod.snd := by
  induction rev generalizing c passed fuel with
  | nil =>
    obtain ⟨fuel, rfl⟩ : ∃ n, fuel = n + 1 := ⟨fuel - 1, by omega⟩
    obtain rfl : passed = [] := hshort.resolve_left (by simp)
    have hprev := h.prev_eq
    refine ⟨[], c, [], rfl, ?_, rfl⟩
    rw [enqueueWalk, h.load (by simp)]
    simp [hprev]
  | cons prev rest ih =>
    obtain ⟨fuel, rfl⟩ : ∃ n, fuel = n + 1 := ⟨fuel - 1, by omega⟩
    have hcons : (prev :: rest).reverse ++ c :: passed = rest.reverse ++ prev :: c :: passed := by
      simp
    rw [hcons] at h ⊢
    have hprev := h.link.2
    rw [enqueueWalk, h.load (by simp), List.map_cons, List.map_cons, enqueueBack,
      Option.bind_eq_bind, Option.bind_some]
    by_cases hbefore : goesBefore newNode.seqnum c.2.seqnum
    · rw [if_pos hbefore, if_pos hbefore]
      simp only [hprev]
      cases rest with
      | nil => exact ⟨[c], prev, [], rfl, if_pos rfl, rfl⟩
      | cons q rest =>
        obtain ⟨back, d, front, hsplit, hwalk, hput⟩ :=
          ih h (Or.inl (by simp)) (by simpa using hfuel)
        refine ⟨c :: back, d, front, by rw [hsplit]; rfl, ?_, ?_⟩
        · rw [if_neg (h.ne_first (by simp)), hwalk]
        · rw [← List.map_cons, hput]
          rfl
    · rw [if_neg hbefore, if_neg hbefore]
      exact ⟨[], c, prev :: rest, rfl, rfl, rfl⟩

/-! ## Changing the pointers -/

theorem Cells.of_views {heap' : Heap} (h : Cells heap cells)
    (hnext : ∀ c ∈ cells, heap'.next c.1 = heap.next c.1)
    (hprev : ∀ c ∈ cells, heap'.prev c.1 = heap.prev c.1)
    (hnode : ∀ c ∈ cells, heap'.node c.1 = heap.node c.1) : Cells heap' cells := by
  refine ⟨h.ring.congr ?_ ?_, fun c hc => (hnode c hc).trans (h.node c hc)⟩
  · intro x hx
    obtain ⟨c, hc, rfl⟩ := List.mem_map.mp hx
    exact hnext c hc
  · intro x hx
    obtain ⟨c, hc, rfl⟩ := List.mem_map.mp hx
    exact hprev c hc

/-- **A new node behind the runner.** -/
theorem insert_eq {addr : Addr} {newNode : Node} (h : Cells heap (front ++ c :: back))
    (hnew : heap.node addr = some newNode) (haddr : ∀ d ∈ front ++ c :: back, d.1 ≠ addr) :
    ∃ heap', heap.insert (some c.1) (some addr) = some heap' ∧ heap'.node = heap.node ∧
      heap'.next addr = heap.next c.1 ∧ Cells heap' (front ++ c :: (addr, newNode) :: back) := by
  have hc : heap.node c.1 = some c.2 := h.node c (by simp)
  obtain ⟨s, hsmem, hs⟩ := h.exists_next
  obtain ⟨heap1, h1, hnext1, hprev1, hnode1⟩ := setNext_eq (some s.1) hnew
  obtain ⟨heap2, h2, hnext2, hprev2, hnode2⟩ :=
    setPrev_eq (some c.1) (show heap1.node addr = some newNode by rw [hnode1, hnew])
  obtain ⟨heap3, h3, hnext3, hprev3, hnode3⟩ :=
    setPrev_eq (some addr) (show heap2.node s.1 = some s.2 by rw [hnode2, hnode1, h.node s hsmem])
  obtain ⟨heap4, h4, hnext4, hprev4, hnode4⟩ :=
    setNext_eq (some addr) (show heap3.node c.1 = some c.2 by rw [hnode3, hnode2, hnode1, hc])
  have hnode : heap4.node = heap.node := by rw [hnode4, hnode3, hnode2, hnode1]
  have hca : c.1 ≠ addr := haddr c (by simp)
  have hnext2c : heap2.next c.1 = some s.1 := by
    rw [hnext2, hnext1, Function.update_of_ne hca, hs]
  refine ⟨heap4, ?_, hnode, ?_, ?_, ?_⟩
  · unfold Heap.insert
    simp only [load_eq hc, hs, h1, h2, Option.bind_eq_bind, Option.bind_some,
      load_eq (show heap2.node c.1 = some c.2 by rw [hnode2, hnode1, hc]), hnext2c, h3, h4]
  · rw [hnext4, hnext3, hnext2, hnext1, Function.update_of_ne hca.symm, Function.update_self, hs]
  · have hring := h.ring
    rw [List.map_append, List.map_cons] at hring
    have hx : addr ∉ front.map Prod.fst ++ c.1 :: back.map Prod.fst := by
      rw [← List.map_cons, ← List.map_append, List.mem_map]
      rintro ⟨d, hd, heq⟩
      exact haddr d hd heq
    rw [hnext4, hnext3, hnext2, hnext1, hprev4, hprev3, hprev2, hprev1, List.map_append,
      List.map_cons, List.map_cons]
    exact hring.insert hs hx
  · intro d hd
    rw [hnode]
    rcases List.mem_append.mp hd with hd | hd
    · exact h.node d (List.mem_append_left _ hd)
    · rcases List.mem_cons.mp hd with rfl | hd
      · exact hc
      · rcases List.mem_cons.mp hd with rfl | hd
        · exact hnew
        · exact h.node d (List.mem_append_right _ (List.mem_cons_of_mem c hd))

/-- **The neighbours of a node are linked to each other.** -/
theorem unlink_eq (h : Cells heap (front ++ c :: back)) (hne : front ++ back ≠ []) :
    ∃ heap', heap.unlink (some c.1) = some heap' ∧ heap'.node = heap.node ∧
      heap'.next c.1 = heap.next c.1 ∧ heap'.prev c.1 = heap.prev c.1 ∧
      Cells heap' (front ++ back) := by
  have hc : heap.node c.1 = some c.2 := h.node c (by simp)
  have hne' : back ++ front ≠ [] := fun heq => hne (by
    rw [List.append_eq_nil_iff] at heq ⊢
    exact heq.symm)
  obtain ⟨p, hp⟩ : ∃ p, (back ++ front).getLast? = some p :=
    Option.isSome_iff_exists.mp (List.getLast?_isSome.mpr hne')
  obtain ⟨s, hs⟩ : ∃ s, (back ++ front).head? = some s :=
    Option.isSome_iff_exists.mp (List.isSome_head?.mpr hne')
  have hnext : heap.next c.1 = some s.1 := by
    rw [h.next_eq, List.head?_map, List.head?_append, hs]
    rfl
  have hprev : heap.prev c.1 = some p.1 := by
    rw [h.prev_eq, List.getLast?_map, List.getLast?_cons_of_ne_nil hne', hp]
    rfl
  have hmem : ∀ d ∈ back ++ front, d ∈ front ++ c :: back ∧ c.1 ≠ d.1 := by
    intro d hd
    have hd' : d ∈ front ++ back := List.perm_append_comm.mem_iff.mp hd
    exact ⟨List.perm_middle.mem_iff.mpr (List.mem_cons_of_mem c hd'), h.ne_of_mem hd'⟩
  have hpmem := hmem p (List.mem_of_getLast? hp)
  have hsmem := hmem s (List.mem_of_mem_head? hs)
  obtain ⟨heap1, h1, hnext1, hprev1, hnode1⟩ := setNext_eq (some s.1) (h.node p hpmem.1)
  obtain ⟨heap2, h2, hnext2, hprev2, hnode2⟩ :=
    setPrev_eq (some p.1) (show heap1.node s.1 = some s.2 by rw [hnode1, h.node s hsmem.1])
  have hnode : heap2.node = heap.node := by rw [hnode2, hnode1]
  have hnextc : heap1.next c.1 = heap.next c.1 := by
    rw [hnext1, Function.update_of_ne hpmem.2]
  refine ⟨heap2, ?_, hnode, ?_, ?_, ?_, ?_⟩
  · unfold Heap.unlink
    simp only [load_eq hc, hnext, hprev, h1, Option.bind_eq_bind, Option.bind_some,
      load_eq (show heap1.node c.1 = some c.2 by rw [hnode1, hc]), hnextc, hprev1, h2]
  · rw [hnext2, hnextc]
  · rw [hprev2, hprev1, Function.update_of_ne hsmem.2]
  · have hring := h.ring
    rw [List.map_append, List.map_cons] at hring
    rw [hnext2, hnext1, hprev2, hprev1, List.map_append]
    refine hring.remove ?_ ?_
    · rw [← List.map_append, List.getLast?_map, hp]
      rfl
    · rw [← List.map_append, List.head?_map, hs]
      rfl
  · intro d hd
    rw [hnode]
    exact h.node d (hmem d (List.perm_append_comm.mem_iff.mp hd)).1

/-! ## The functions -/

theorem holds_init : Holds stackInit [] :=
  ⟨⟨trivial, fun c hc => absurd hc (by simp)⟩, rfl, rfl, rfl⟩

theorem Holds.first_ne_none (h : Holds m cells) (hne : cells ≠ []) : m.first ≠ none := by
  rw [h.first]
  cases cells with
  | nil => exact absurd rfl hne
  | cons c back => simp

theorem Holds.first_eq (h : Holds m cells) : ∀ c ∈ cells.head?, m.first = some c.1 := by
  intro c hc
  rw [h.first, List.head?_map, hc]
  rfl

theorem Holds.last_eq (h : Holds m (front ++ [c])) : m.last = some c.1 := by
  rw [h.last, List.map_append, List.map_singleton, List.getLast?_concat]

theorem Holds.size_eq_zero (h : Holds m cells) : m.size = 0 ↔ cells = [] := by
  rw [h.size, List.length_eq_zero_iff]

theorem Holds.find_eq {seqnum : UInt8} {fuel : ℕ} (h : Holds m cells) (hne : cells ≠ [])
    (hfuel : cells.length ≤ fuel) :
    findWalk m.heap m.first seqnum fuel m.first =
      some ((cells.find? fun d => d.2.seqnum = seqnum).map Prod.fst) := by
  cases cells with
  | nil => exact absurd rfl hne
  | cons c back =>
    have hcells : Cells m.heap ([] ++ c :: back) := h.toCells
    rw [h.first]
    exact findWalk_eq hcells (by rw [List.length_cons] at hfuel; omega)

theorem getLast?_behind (front : List (Addr × Node)) (c : Addr × Node) (hne : back ≠ []) :
    ((front ++ c :: back).map Prod.fst).getLast? = (back.map Prod.fst).getLast? := by
  rw [List.map_append, List.getLast?_append_of_ne_nil _ (by simp), List.map_cons,
    List.getLast?_cons_of_ne_nil (by simpa using hne)]

/-- Memory for a new node: the ring is not concerned. -/
theorem Cells.alloc {addr : Addr} (h : Cells heap cells) (haddr : ∀ d ∈ cells, d.1 ≠ addr)
    (pkt : Pkt) : Cells (heap.alloc addr pkt) cells := by
  refine h.of_views ?_ ?_ ?_
  · intro d hd
    rw [next_alloc, Function.update_of_ne (haddr d hd)]
  · intro d hd
    rw [prev_alloc, Function.update_of_ne (haddr d hd)]
  · intro d hd
    rw [node_alloc, Function.update_of_ne (haddr d hd)]

theorem stackEnqueue_first (fuel : ℕ) {addr : Addr} {pkt : Pkt} (h : Holds m []) :
    ∃ m', stackEnqueue fuel m addr pkt = some m' ∧ Holds m' [(addr, ⟨pkt, pkt.seqnum⟩)] ∧
      m'.heap.node = Function.update m.heap.node addr (some ⟨pkt, pkt.seqnum⟩) := by
  have hnew : (m.heap.alloc addr pkt).node addr = some ⟨pkt, pkt.seqnum⟩ := by
    rw [node_alloc, Function.update_self]
  obtain ⟨heap1, h1, hnext1, hprev1, hnode1⟩ := setNext_eq (some addr) hnew
  obtain ⟨heap2, h2, hnext2, hprev2, hnode2⟩ :=
    setPrev_eq (some addr) (show heap1.node addr = some ⟨pkt, pkt.seqnum⟩ by rw [hnode1, hnew])
  refine ⟨⟨heap2, some addr, some addr, m.size + 1⟩, ?_,
    ⟨⟨⟨by simp, ?_, ?_⟩, ?_⟩, rfl, rfl, ?_⟩, ?_⟩
  · unfold stackEnqueue
    simp only [if_pos (h.size_eq_zero.mpr rfl), h1, h2, Option.bind_eq_bind, Option.bind_some]
    rfl
  · rw [hnext2, hnext1, Function.update_self]
  · rw [hprev2, Function.update_self]
  · intro d hd
    rw [List.mem_singleton.mp hd, hnode2, hnode1, hnew]
  · rw [h.size]
    rfl
  · rw [hnode2, hnode1, node_alloc]

/-- Behind the node the walk stopped at. -/
theorem stackEnqueue_behind {addr : Addr} {pkt : Pkt} {fuel : ℕ}
    (h : Holds m (front ++ c :: back)) (haddr : ∀ d ∈ front ++ c :: back, d.1 ≠ addr)
    (hwalk : enqueueWalk (m.heap.alloc addr pkt) m.first pkt.seqnum fuel m.last =
      some (some c.1)) :
    ∃ m', stackEnqueue fuel m addr pkt = some m' ∧
      Holds m' (front ++ c :: (addr, ⟨pkt, pkt.seqnum⟩) :: back) ∧
      m'.heap.node = Function.update m.heap.node addr (some ⟨pkt, pkt.seqnum⟩) := by
  have hmany : ¬ m.size = 0 := fun hz => absurd (h.size_eq_zero.mp hz) (by simp)
  have hnew : (m.heap.alloc addr pkt).node addr = some ⟨pkt, pkt.seqnum⟩ := by
    rw [node_alloc, Function.update_self]
  obtain ⟨heap', hinsert, hnode', -, hcells'⟩ := insert_eq (h.toCells.alloc haddr pkt) hnew haddr
  have hnode : heap'.node = Function.update m.heap.node addr (some ⟨pkt, pkt.seqnum⟩) := by
    rw [hnode', node_alloc]
  have hfirst : m.first =
      ((front ++ c :: (addr, ⟨pkt, pkt.seqnum⟩) :: back).map Prod.fst).head? := by
    rw [h.first]
    cases front <;> rfl
  have hsize : m.size + 1 =
      (front ++ c :: (addr, (⟨pkt, pkt.seqnum⟩ : Node)) :: back).length := by
    rw [h.size, List.length_append, List.length_append, List.length_cons, List.length_cons,
      List.length_cons]
    omega
  unfold stackEnqueue
  simp only [if_neg hmany, hwalk, hinsert, Option.bind_eq_bind, Option.bind_some]
  cases back with
  | nil =>
    rw [if_pos h.last_eq.symm]
    refine ⟨_, rfl, ⟨hcells', hfirst, ?_, hsize⟩, hnode⟩
    rw [getLast?_behind front c (by simp)]
    rfl
  | cons b back =>
    -- the next node is not `first`, so `first` stays
    have hcells1 : Cells heap' ((front ++ [c]) ++ (addr, ⟨pkt, pkt.seqnum⟩) :: b :: back) := by
      rwa [List.append_assoc]
    have hcells2 : Cells m.heap ((front ++ [c]) ++ b :: back) := by
      rw [List.append_assoc]
      exact h.toCells
    have hload := hcells1.load (c := (addr, ⟨pkt, pkt.seqnum⟩)) (by simp)
    have hnext : heap'.next addr = some b.1 := hcells1.link.1
    have hne : some b.1 ≠ m.first := by
      have hne' := hcells2.ne_first (by simp)
      rwa [List.append_assoc, List.singleton_append, ← h.first] at hne'
    rw [if_neg (by rw [h.last]; exact h.ne_last (by simp)), hload, Option.bind_some, hnext,
      if_neg hne]
    refine ⟨_, rfl, ⟨hcells', hfirst, ?_, hsize⟩, hnode⟩
    have hlast := h.last
    rw [getLast?_behind front c (by simp)] at hlast
    rw [getLast?_behind front c (by simp)]
    exact hlast

/-- **`stack_enqueue` puts the new node where the list has it.** -/
theorem stackEnqueue_refines {addr : Addr} {fuel : ℕ} (pkt : Pkt) (h : Holds m cells)
    (hnew : m.heap addr = none) (hfuel : cells.length ≤ fuel) :
    ∃ m' cells', stackEnqueue fuel m addr pkt = some m' ∧ Holds m' cells' ∧
      cells'.map Prod.snd = Trtp.stackEnqueue (cells.map Prod.snd) pkt ∧
      m'.heap.node = Function.update m.heap.node addr (some ⟨pkt, pkt.seqnum⟩) := by
  have haddr : ∀ d ∈ cells, d.1 ≠ addr := by
    intro d hd heq
    have hnode := h.node d hd
    rw [heq, Heap.node, hnew] at hnode
    exact absurd hnode (by simp)
  cases hrev : cells.reverse with
  | nil =>
    obtain rfl := List.reverse_eq_nil_iff.mp hrev
    obtain ⟨m', henq, hholds, hnode⟩ := stackEnqueue_first fuel h
    exact ⟨m', _, henq, hholds, rfl, hnode⟩
  | cons r rev =>
    -- the walk from `last` back: the list has the cells in reverse
    obtain rfl : cells = rev.reverse ++ [r] := by
      rw [← List.reverse_reverse cells, hrev, List.reverse_cons]
    have hlen : rev.length < fuel := by
      rw [List.length_append, List.length_reverse, List.length_singleton] at hfuel
      omega
    obtain ⟨back, c, front, hsplit, hwalk, hput⟩ :=
      enqueueWalk_eq ⟨pkt, pkt.seqnum⟩ (h.toCells.alloc haddr pkt) (Or.inr rfl) hlen
    have hwalk' : enqueueWalk (m.heap.alloc addr pkt) m.first pkt.seqnum fuel m.last =
        some (some c.1) := by
      rw [h.first, h.last_eq]
      exact hwalk
    have hcells : rev.reverse ++ [r] = front.reverse ++ c :: back.reverse := by
      rw [← List.reverse_cons, hsplit, List.reverse_append, List.reverse_cons, List.append_assoc]
      rfl
    have hlist : (front.reverse ++ c :: (addr, ⟨pkt, pkt.seqnum⟩) :: back.reverse).map Prod.snd =
        Trtp.stackEnqueue ((rev.reverse ++ [r]).map Prod.snd) pkt := by
      rw [Trtp.stackEnqueue, ← List.map_reverse, List.reverse_append, List.reverse_reverse,
        List.reverse_singleton, List.singleton_append, hput]
      simp
    rw [hcells] at h haddr
    obtain ⟨m', henq, hholds, hnode⟩ := stackEnqueue_behind h haddr hwalk'
    exact ⟨m', _, henq, hholds, hlist, hnode⟩

/-- A node out of the ring is freed. -/
theorem release_eq (h : Cells m.heap cells) (hc : m.heap.node c.1 = some c.2)
    (hnot : ∀ d ∈ cells, c.1 ≠ d.1) (hne : cells ≠ [])
    (hfirst : m.first = (cells.map Prod.fst).head?)
    (hlast : m.last = (cells.map Prod.fst).getLast?) (hsize : m.size = cells.length + 1) :
    ∃ m', m.release (some c.1) = some (some c.2.pkt, m') ∧ Holds m' cells := by
  have hsize' : m.size - 1 ≠ 0 := by
    have hpos := List.length_pos_of_ne_nil hne
    omega
  obtain ⟨heap1, h1, hnext1, hprev1, hnode1⟩ := setNext_eq none hc
  obtain ⟨heap2, h2, hnext2, hprev2, hnode2⟩ :=
    setPrev_eq none (show heap1.node c.1 = some c.2 by rw [hnode1, hc])
  refine ⟨{ m with heap := heap2.free (some c.1), size := m.size - 1 }, ?_, ?_⟩
  · unfold Memory.release
    simp only [if_neg hsize', h1, h2, Option.bind_eq_bind, Option.bind_some,
      load_eq (show heap2.node c.1 = some c.2 by rw [hnode2, hnode1, hc])]
    rfl
  · refine ⟨h.of_views ?_ ?_ ?_, hfirst, hlast, by simp only [hsize]; omega⟩
    · intro d hd
      have hdc := (hnot d hd).symm
      rw [next_free hdc, hnext2, hnext1, Function.update_of_ne hdc]
    · intro d hd
      have hdc := (hnot d hd).symm
      rw [prev_free hdc, hprev2, hprev1, Function.update_of_ne hdc]
    · intro d hd
      rw [node_free, Function.update_of_ne (hnot d hd).symm, hnode2, hnode1]

theorem stackRemove_absent {seqnum : UInt8} {fuel : ℕ} (h : Holds m cells)
    (hfuel : cells.length ≤ fuel) (habsent : ∀ d ∈ cells, d.2.seqnum ≠ seqnum) :
    stackRemove fuel m seqnum = some (none, m) := by
  unfold stackRemove
  by_cases hne : cells = []
  · subst hne
    rw [if_pos (show m.first = none from h.first)]
    rfl
  · have hfind : (cells.find? fun d => d.2.seqnum = seqnum) = none := by
      rw [List.find?_eq_none]
      exact fun d hd heq => habsent d hd (of_decide_eq_true heq)
    rw [if_neg (h.first_ne_none hne), h.find_eq hne hfuel, hfind]
    rfl

/-- **Removal from memory**: the only node, the first, the last or one in between. -/
theorem stackRemove_found {seqnum : UInt8} {fuel : ℕ} (h : Holds m (front ++ c :: back))
    (hfuel : (front ++ c :: back).length ≤ fuel) (hfront : ∀ d ∈ front, d.2.seqnum ≠ seqnum)
    (hc : c.2.seqnum = seqnum) :
    ∃ m', stackRemove fuel m seqnum = some (some c.2.pkt, m') ∧ Holds m' (front ++ back) := by
  have hne : front ++ c :: back ≠ [] := by simp
  have hnode : m.heap.node c.1 = some c.2 := h.node c (by simp)
  have hfind : ((front ++ c :: back).find? fun d => d.2.seqnum = seqnum) = some c := by
    rw [List.find?_eq_some_iff_append]
    exact ⟨decide_eq_true hc, front, back, rfl, fun d hd => by simpa using hfront d hd⟩
  have hsize : m.size = (front ++ back).length + 1 := by
    rw [h.size, List.length_append, List.length_append, List.length_cons]
    omega
  have hout : ∀ d ∈ front ++ back, c.1 ≠ d.1 := fun d hd => h.ne_of_mem hd
  unfold stackRemove
  simp only [if_neg (h.first_ne_none hne), h.find_eq hne hfuel, hfind, Option.map_some,
    Option.bind_eq_bind, Option.bind_some]
  rw [if_neg (by simp)]
  by_cases hrest : front ++ back = []
  · obtain ⟨rfl, rfl⟩ := List.append_eq_nil_iff.mp hrest
    have hfirst : some c.1 = m.first := h.first.symm
    rw [if_pos hfirst, if_pos (by rw [hsize]; simp), load_eq hnode]
    exact ⟨_, rfl, ⟨trivial, fun d hd => absurd hd (by simp)⟩, rfl, rfl, rfl⟩
  · have hmany : ¬ m.size ≤ 1 := by
      have hpos := List.length_pos_of_ne_nil hrest
      omega
    obtain ⟨heap', hunlink, hnode', hnext, hprev, hcells⟩ := unlink_eq h.toCells hrest
    have hc' : heap'.node c.1 = some c.2 := by rw [hnode', hnode]
    cases front with
    | nil =>
      -- the first one: its successor becomes `first`
      have hfirst : some c.1 = m.first := h.first.symm
      have hnextc : heap'.next c.1 = (back.map Prod.fst).head? := by
        rw [hnext, h.next_eq]
        cases back with
        | nil => exact absurd rfl hrest
        | cons b back => rfl
      have hlast : m.last = (back.map Prod.fst).getLast? := by
        rw [h.last, List.nil_append, List.map_cons]
        exact List.getLast?_cons_of_ne_nil (by simpa using hrest)
      rw [if_pos hfirst, if_neg hmany, hunlink, Option.bind_some, ← hfirst, load_eq hc',
        Option.bind_some]
      exact release_eq hcells hc' hout hrest hnextc hlast hsize
    | cons f front =>
      have hfirst : m.first = some f.1 := h.first
      rw [if_neg (by rw [h.first]; exact h.ne_first (by simp))]
      cases back with
      | nil =>
        -- the last one: its predecessor becomes `last`
        have hlast : some c.1 = m.last := h.last_eq.symm
        have hprevc : heap'.prev c.1 = ((f :: front ++ []).map Prod.fst).getLast? := by
          rw [hprev, h.prev_eq, List.nil_append, List.append_nil, List.map_cons]
          exact List.getLast?_cons_of_ne_nil (by simp)
        rw [if_pos hlast, hunlink, Option.bind_some, ← hlast, load_eq hc', Option.bind_some]
        exact release_eq hcells hc' hout hrest hfirst hprevc hsize
      | cons b back =>
        have hlast : m.last = ((f :: front ++ b :: back).map Prod.fst).getLast? := by
          rw [h.last, List.map_append, List.map_append, List.getLast?_append_of_ne_nil _ (by simp),
            List.getLast?_append_of_ne_nil _ (by simp), List.map_cons, List.map_cons,
            List.getLast?_cons_cons]
        rw [if_neg (by rw [h.last]; exact h.ne_last (by simp)), hunlink, Option.bind_some]
        exact release_eq hcells hc' hout hrest hfirst hlast hsize

/-- **`stack_remove` takes the node out that the list loses.** -/
theorem stackRemove_refines {seqnum : UInt8} {fuel : ℕ} (h : Holds m cells)
    (hfuel : cells.length ≤ fuel) :
    ∃ m' cells', stackRemove fuel m seqnum =
        some ((Trtp.stackRemove (cells.map Prod.snd) seqnum).1, m') ∧ Holds m' cells' ∧
      cells'.map Prod.snd = (Trtp.stackRemove (cells.map Prod.snd) seqnum).2 ∧
      ((Trtp.stackRemove (cells.map Prod.snd) seqnum).1 = none → m' = m) := by
  rcases stackRemove_cases (cells.map Prod.snd) seqnum with
    ⟨habsent, heq⟩ | ⟨front, node, back, hsplit, hfront, hnode, heq⟩
  · rw [heq]
    refine ⟨m, cells, stackRemove_absent h hfuel fun d hd => ?_, h, rfl, fun _ => rfl⟩
    exact habsent d.2 (List.mem_map.mpr ⟨d, hd, rfl⟩)
  · obtain ⟨front, rest, rfl, rfl, hrest⟩ := List.map_eq_append_iff.mp hsplit
    obtain ⟨c, back, rfl, rfl, rfl⟩ := List.map_eq_cons_iff.mp hrest
    rw [heq]
    obtain ⟨m', hremove, hholds⟩ := stackRemove_found h hfuel
      (fun d hd => hfront d.2 (List.mem_map.mpr ⟨d, hd, rfl⟩)) hnode
    exact ⟨m', front ++ back, hremove, hholds, List.map_append, fun hnone => absurd hnone (by simp)⟩

/-- `stack_remove_acked` takes the first node out until it has the number. -/
theorem removeAckedLoop_refines {seqnum : UInt8} {walk fuel count : ℕ} (h : Holds m cells)
    (hne : cells ≠ []) (hwalk : cells.length ≤ walk) (hfuel : cells.length ≤ fuel) :
    ∃ m' cells', removeAckedLoop walk seqnum fuel count m =
        some (count + (Trtp.stackRemoveAcked (cells.map Prod.snd) seqnum).1, m') ∧
      Holds m' cells' ∧
      cells'.map Prod.snd = (Trtp.stackRemoveAcked (cells.map Prod.snd) seqnum).2 := by
  induction cells generalizing m fuel count with
  | nil => exact absurd rfl hne
  | cons c back ih =>
    obtain ⟨fuel, rfl⟩ : ∃ n, fuel = n + 1 := ⟨fuel - 1, by rw [List.length_cons] at hfuel; omega⟩
    have hfirst : m.first = some c.1 := h.first
    rw [removeAckedLoop, hfirst, h.load (by simp), List.map_cons, Trtp.stackRemoveAcked,
      Option.bind_eq_bind, Option.bind_some]
    by_cases hs : seqnum ≠ c.2.seqnum
    · have hholds : Holds m ([] ++ c :: back) := h
      obtain ⟨m1, hremove, h1⟩ := stackRemove_found hholds hwalk (by simp) rfl
      rw [if_pos hs, if_pos hs, hremove, Option.bind_eq_bind, Option.bind_some]
      simp only
      cases back with
      | nil =>
        rw [if_pos (h1.size_eq_zero.mpr rfl)]
        exact ⟨m1, [], rfl, h1, rfl⟩
      | cons b back =>
        rw [if_neg fun hz => absurd (h1.size_eq_zero.mp hz) (by simp)]
        obtain ⟨m', cells', hloop, hholds', hcells'⟩ := ih h1 (by simp)
          (by rw [List.length_cons] at hwalk; omega) (by simpa using hfuel)
        exact ⟨m', cells', by rw [hloop, Nat.add_right_comm, Nat.add_assoc], hholds', hcells'⟩
    · rw [if_neg hs, if_neg hs]
      exact ⟨m, c :: back, rfl, h, rfl⟩

theorem stackRemoveAcked_refines {seqnum : UInt8} {fuel : ℕ} (h : Holds m cells)
    (hfuel : cells.length ≤ fuel) :
    ∃ m' cells', stackRemoveAcked fuel m seqnum =
        some ((Trtp.stackRemoveAcked (cells.map Prod.snd) seqnum).1, m') ∧ Holds m' cells' ∧
      cells'.map Prod.snd = (Trtp.stackRemoveAcked (cells.map Prod.snd) seqnum).2 := by
  unfold stackRemoveAcked
  by_cases hne : cells = []
  · subst hne
    rw [if_pos (h.size_eq_zero.mpr rfl)]
    exact ⟨m, [], rfl, h, rfl⟩
  · rw [if_neg fun hz => hne (h.size_eq_zero.mp hz)]
    obtain ⟨m', cells', hloop, hholds, hcells⟩ := removeAckedLoop_refines h hne hfuel hfuel
    exact ⟨m', cells', by rw [hloop, Nat.zero_add], hholds, hcells⟩

/-- `stack_get_pkt`. -/
theorem stackGetPkt_refines {seqnum : UInt8} {fuel : ℕ} (h : Holds m cells)
    (hfuel : cells.length ≤ fuel) :
    stackGetPkt fuel m seqnum = some (Trtp.stackGetPkt (cells.map Prod.snd) seqnum) := by
  unfold stackGetPkt
  by_cases hne : cells = []
  · subst hne
    rw [if_pos (h.size_eq_zero.mpr rfl)]
    rfl
  · simp only [if_neg fun hz => hne (h.size_eq_zero.mp hz), h.find_eq hne hfuel,
      Option.bind_eq_bind, Option.bind_some]
    rw [stackGetPkt_eq, List.find?_map]
    cases hfind : cells.find? fun d => d.2.seqnum = seqnum with
    | none =>
      have hfind' : cells.find? ((fun node : Node => decide (node.seqnum = seqnum)) ∘ Prod.snd) =
          none := hfind
      rw [hfind']
      rfl
    | some c =>
      have hfind' : cells.find? ((fun node : Node => decide (node.seqnum = seqnum)) ∘ Prod.snd) =
          some c := hfind
      rw [hfind', Option.map_some, if_neg (by simp), h.load (List.mem_of_find?_eq_some hfind)]
      rfl

theorem isInStackLoop_eq {seqnum : UInt8} {p : Ptr} (h : Cells heap (front ++ back))
    (hp : ∀ c ∈ back.head?, p = some c.1) :
    isInStackLoop heap seqnum back.length p =
      some (Trtp.isInStack (back.map Prod.snd) seqnum) := by
  induction back generalizing front p with
  | nil => rfl
  | cons c back ih =>
    have hcons : front ++ c :: back = (front ++ [c]) ++ back := by simp
    rw [hp c rfl, List.length_cons, isInStackLoop, h.load (by simp), Option.bind_eq_bind,
      Option.bind_some, ih (hcons ▸ h) h.next_head]
    by_cases hs : c.2.seqnum = seqnum
    · simp [hs, Trtp.isInStack]
    · simp [hs, Trtp.isInStack]

theorem toInt_of_lt {size : ℕ} (h : size < 2 ^ 31) : toInt size = size := by
  have hbound : ((2 ^ 32 : ℕ) : ℤ) = 4294967296 := rfl
  refine Int.bmod_eq_of_le ?_ ?_
  · rw [hbound]; omega
  · rw [hbound]; omega

/-- `is_in_stack`, while the size is an `int`. -/
theorem isInStack_refines {seqnum : UInt8} (h : Holds m cells) (hsize : m.size < 2 ^ 31) :
    isInStack m seqnum = some (Trtp.isInStack (cells.map Prod.snd) seqnum) := by
  unfold isInStack
  by_cases hne : cells = []
  · subst hne
    rw [if_pos (h.size_eq_zero.mpr rfl)]
    rfl
  · have hcells : Cells m.heap ([] ++ cells) := h.toCells
    rw [if_neg fun hz => hne (h.size_eq_zero.mp hz), toInt_of_lt hsize, Int.toNat_natCast, h.size]
    exact isInStackLoop_eq hcells h.first_eq

/-- With 2^31 nodes, the cast is negative and the loop does not run. -/
theorem isInStack_overflow {seqnum : UInt8} (hsize : m.size = 2 ^ 31) :
    isInStack m seqnum = some false := by
  have hint : (toInt (2 ^ 31)).toNat = 0 := by decide
  rw [isInStack, hsize, hint, if_neg (by simp)]
  rfl

end Trtp.Pointers
