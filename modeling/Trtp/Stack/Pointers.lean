import Trtp.Stack
import Trtp.Lib.Ring

/-!
# The stack in memory (`src/stack/stack.c`)

`stack.c` with its pointers. A `Heap` gives the node at an address, `none` where nothing is
allocated; a pointer is an address or `NULL`. Every function returns an `Option`: `none` is an
access through `NULL` or to a node that is not allocated, or a loop that is out of `fuel`. `malloc`
succeeds, at the address the caller gives.

* `size` is a number: as many nodes as would make the `size_t` overflow do not fit into memory. The
  `int` counter of `is_in_stack` is compared with `(int) stack_size(stack)`, which is `toInt`; the
  `int` that `stack_remove_acked` returns counts nodes of the stack.
* The fields of a node are read through three views of the heap, `Heap.next`, `Heap.prev` and
  `Heap.node`; `load_eq`, `setNext_eq`, `setPrev_eq` say what a load and a store do to them.
-/

namespace Trtp.Pointers

open Trtp.Links

abbrev Addr := ℕ

/-- A `struct node *`, `none` for `NULL`. -/
abbrev Ptr := Option Addr

/-- `struct node`. -/
structure Cell where
  next : Ptr
  prev : Ptr
  pkt : Pkt
  seqnum : UInt8
  deriving Repr, DecidableEq

/-- The packet and the number of a node. -/
def Cell.node (cell : Cell) : Node := ⟨cell.pkt, cell.seqnum⟩

abbrev Heap := Addr → Option Cell

/-- `struct stack`, and the nodes. -/
structure Memory where
  heap : Heap
  first : Ptr
  last : Ptr
  size : ℕ

/-! ## Memory accesses -/

/-- `*p`. -/
def Heap.load (heap : Heap) (p : Ptr) : Option Cell := p.bind heap

/-- A field of `*p` is assigned. -/
def Heap.store (heap : Heap) (p : Ptr) (assign : Cell → Cell) : Option Heap := do
  let addr ← p
  let cell ← heap addr
  return Function.update heap addr (some (assign cell))

/-- `p->next = q`. -/
def Heap.setNext (heap : Heap) (p q : Ptr) : Option Heap :=
  heap.store p fun cell => { cell with next := q }

/-- `p->prev = q`. -/
def Heap.setPrev (heap : Heap) (p q : Ptr) : Option Heap :=
  heap.store p fun cell => { cell with prev := q }

/-- `malloc` and the assignments of `pkt` and `seqnum`; the pointers are not set yet. -/
def Heap.alloc (heap : Heap) (addr : Addr) (pkt : Pkt) : Heap :=
  Function.update heap addr (some ⟨none, none, pkt, pkt.seqnum⟩)

/-- `node_free`. -/
def Heap.free (heap : Heap) (p : Ptr) : Heap :=
  fun addr => if p = some addr then none else heap addr

/-! ## The functions -/

/-- `stack_init`. -/
def stackInit : Memory := ⟨fun _ => none, none, none, 0⟩

/-- The walk of `stack_enqueue`. -/
def enqueueWalk (heap : Heap) (first : Ptr) (pktSeqnum : UInt8) : ℕ → Ptr → Option Ptr
  | 0, _ => none
  | fuel + 1, runner => do
    let node ← heap.load runner
    if goesBefore pktSeqnum node.seqnum then
      let runner := node.prev
      if runner = first then return runner
      else enqueueWalk heap first pktSeqnum fuel runner
    else return runner

/-- The assignments of `stack_enqueue` that put the new node behind the runner. -/
def Heap.insert (heap : Heap) (runner newNode : Ptr) : Option Heap := do
  let heap ← heap.setNext newNode (← heap.load runner).next
  let heap ← heap.setPrev newNode runner
  let heap ← heap.setPrev (← heap.load runner).next newNode
  heap.setNext runner newNode

/-- `stack_enqueue`, which returns 0. -/
def stackEnqueue (fuel : ℕ) (m : Memory) (addr : Addr) (pkt : Pkt) : Option Memory := do
  let newNode := some addr
  let heap := m.heap.alloc addr pkt
  if m.size = 0 then
    let heap ← heap.setNext newNode newNode
    let heap ← heap.setPrev newNode newNode
    return { heap := heap, first := newNode, last := newNode, size := m.size + 1 }
  else
    let runner ← enqueueWalk heap m.first pkt.seqnum fuel m.last
    let heap ← heap.insert runner newNode
    if runner = m.last then
      return { m with heap := heap, last := newNode, size := m.size + 1 }
    else if (← heap.load newNode).next = m.first then
      return { m with heap := heap, first := newNode, size := m.size + 1 }
    else return { m with heap := heap, size := m.size + 1 }

/-- The loop of `stack_remove` and of `stack_get_pkt`: the first node with the number, `NULL` when
it comes to `first` again. -/
def findWalk (heap : Heap) (first : Ptr) (seqnum : UInt8) : ℕ → Ptr → Option Ptr
  | 0, _ => none
  | fuel + 1, runner => do
    let node ← heap.load runner
    if node.seqnum ≠ seqnum then
      let runner := node.next
      if runner = first then return none
      else findWalk heap first seqnum fuel runner
    else return runner

/-- `runner->prev->next = runner->next; runner->next->prev = runner->prev`. -/
def Heap.unlink (heap : Heap) (runner : Ptr) : Option Heap := do
  let node ← heap.load runner
  let heap ← heap.setNext node.prev node.next
  let node ← heap.load runner
  heap.setPrev node.next node.prev

/-- `stack_remove` from `stack->size -= 1` on. -/
def Memory.release (m : Memory) (runner : Ptr) : Option (Option Pkt × Memory) := do
  let size := m.size - 1
  let m := if size = 0 then { m with first := none, last := none, size := size }
    else { m with size := size }
  let heap ← m.heap.setNext runner none
  let heap ← heap.setPrev runner none
  let toReturn := (← heap.load runner).pkt
  return (some toReturn, { m with heap := heap.free runner })

/-- `stack_remove`: the packet, `none` for `NULL`. -/
def stackRemove (fuel : ℕ) (m : Memory) (seqnum : UInt8) : Option (Option Pkt × Memory) := do
  if m.first = none then return (none, m)
  let runner ← findWalk m.heap m.first seqnum fuel m.first
  if runner = none then return (none, m)
  if runner = m.first then
    if m.size ≤ 1 then
      let packet := (← m.heap.load runner).pkt
      return (some packet, { heap := m.heap.free runner, first := none, last := none, size := 0 })
    let heap ← m.heap.unlink runner
    let first := (← heap.load m.first).next
    { m with heap := heap, first := first }.release runner
  else if runner = m.last then
    let heap ← m.heap.unlink runner
    let last := (← heap.load m.last).prev
    { m with heap := heap, last := last }.release runner
  else
    let heap ← m.heap.unlink runner
    { m with heap := heap }.release runner

/-- The loop of `stack_remove_acked`; `walk` is the fuel of the walks in `stack_remove`. -/
def removeAckedLoop (walk : ℕ) (seqnum : UInt8) : ℕ → ℕ → Memory → Option (ℕ × Memory)
  | 0, _, _ => none
  | fuel + 1, count, m => do
    let first ← m.heap.load m.first
    if seqnum ≠ first.seqnum then
      let (_, m) ← stackRemove walk m first.seqnum
      let count := count + 1
      if m.size = 0 then return (count, m)
      else removeAckedLoop walk seqnum fuel count m
    else return (count, m)

/-- `stack_remove_acked`. -/
def stackRemoveAcked (fuel : ℕ) (m : Memory) (seqnum : UInt8) : Option (ℕ × Memory) :=
  if m.size = 0 then some (0, m) else removeAckedLoop fuel seqnum fuel 0 m

/-- `stack_get_pkt`: `none` for `NULL`. -/
def stackGetPkt (fuel : ℕ) (m : Memory) (seqnum : UInt8) : Option (Option Pkt) := do
  if m.size = 0 then return none
  let runner ← findWalk m.heap m.first seqnum fuel m.first
  if runner = none then return none
  return some (← m.heap.load runner).pkt

/-- The cast `(int)` of a `size_t`. -/
def toInt (size : ℕ) : ℤ := (size : ℤ).bmod (2 ^ 32)

/-- The rounds of the loop of `is_in_stack` that are left. -/
def isInStackLoop (heap : Heap) (seqnum : UInt8) : ℕ → Ptr → Option Bool
  | 0, _ => some false
  | rounds + 1, runner => do
    let node ← heap.load runner
    if node.seqnum = seqnum then return true
    else isInStackLoop heap seqnum rounds node.next

/-- `is_in_stack`: `for (int i = 0; i < (int) stack_size(stack); i++)`. -/
def isInStack (m : Memory) (seqnum : UInt8) : Option Bool :=
  if m.size = 0 then some false
  else isInStackLoop m.heap seqnum (toInt m.size).toNat m.first

/-! ## Views of the heap -/

/-- The field `next` of the node at an address. -/
def Heap.next (heap : Heap) (addr : Addr) : Ptr := (heap addr).bind Cell.next

/-- The field `prev`. -/
def Heap.prev (heap : Heap) (addr : Addr) : Ptr := (heap addr).bind Cell.prev

/-- The packet and the number of the node at an address. -/
def Heap.node (heap : Heap) (addr : Addr) : Option Node := (heap addr).map Cell.node

variable {heap : Heap} {addr : Addr} {node : Node}

/-- What is loaded from a node. -/
theorem load_eq (h : heap.node addr = some node) :
    heap.load (some addr) = some ⟨heap.next addr, heap.prev addr, node.pkt, node.seqnum⟩ := by
  obtain ⟨cell, hcell, rfl⟩ := Option.map_eq_some_iff.mp h
  unfold Heap.load Heap.next Heap.prev
  rw [Option.bind_some, hcell]
  rfl

theorem next_update (cell : Cell) :
    Heap.next (Function.update heap addr (some cell)) =
      Function.update heap.next addr cell.next := by
  funext x
  by_cases hx : x = addr
  · subst hx; simp [Heap.next]
  · simp [Heap.next, hx]

theorem prev_update (cell : Cell) :
    Heap.prev (Function.update heap addr (some cell)) =
      Function.update heap.prev addr cell.prev := by
  funext x
  by_cases hx : x = addr
  · subst hx; simp [Heap.prev]
  · simp [Heap.prev, hx]

theorem node_update (cell : Cell) :
    Heap.node (Function.update heap addr (some cell)) =
      Function.update heap.node addr (some cell.node) := by
  funext x
  by_cases hx : x = addr
  · subst hx; simp [Heap.node]
  · simp [Heap.node, hx]

/-- A store to a node that is there: the views before it, and the heap after it. -/
theorem store_eq (assign : Cell → Cell) (h : heap.node addr = some node) :
    ∃ cell, heap.next addr = cell.next ∧ heap.prev addr = cell.prev ∧
      heap.node addr = some cell.node ∧
      heap.store (some addr) assign = some (Function.update heap addr (some (assign cell))) := by
  obtain ⟨cell, hcell, -⟩ := Option.map_eq_some_iff.mp h
  refine ⟨cell, ?_, ?_, ?_, ?_⟩
  · rw [Heap.next, hcell, Option.bind_some]
  · rw [Heap.prev, hcell, Option.bind_some]
  · rw [Heap.node, hcell, Option.map_some]
  · unfold Heap.store
    rw [Option.bind_eq_bind, Option.bind_some, hcell]
    rfl

/-- An assignment to `next` changes this view only. -/
theorem setNext_eq (q : Ptr) (h : heap.node addr = some node) :
    ∃ heap', heap.setNext (some addr) q = some heap' ∧
      heap'.next = Function.update heap.next addr q ∧ heap'.prev = heap.prev ∧
      heap'.node = heap.node := by
  obtain ⟨cell, -, hprev, hnode, hstore⟩ := store_eq (fun cell => { cell with next := q }) h
  refine ⟨_, hstore, next_update _, ?_, ?_⟩
  · rw [prev_update, Function.update_eq_self_iff]
    exact hprev.symm
  · rw [node_update, Function.update_eq_self_iff]
    exact hnode.symm

/-- An assignment to `prev` changes this view only. -/
theorem setPrev_eq (q : Ptr) (h : heap.node addr = some node) :
    ∃ heap', heap.setPrev (some addr) q = some heap' ∧
      heap'.next = heap.next ∧ heap'.prev = Function.update heap.prev addr q ∧
      heap'.node = heap.node := by
  obtain ⟨cell, hnext, -, hnode, hstore⟩ := store_eq (fun cell => { cell with prev := q }) h
  refine ⟨_, hstore, ?_, prev_update _, ?_⟩
  · rw [next_update, Function.update_eq_self_iff]
    exact hnext.symm
  · rw [node_update, Function.update_eq_self_iff]
    exact hnode.symm

@[simp] theorem next_alloc (pkt : Pkt) :
    (heap.alloc addr pkt).next = Function.update heap.next addr none :=
  next_update _

@[simp] theorem prev_alloc (pkt : Pkt) :
    (heap.alloc addr pkt).prev = Function.update heap.prev addr none :=
  prev_update _

@[simp] theorem node_alloc (pkt : Pkt) :
    (heap.alloc addr pkt).node = Function.update heap.node addr (some ⟨pkt, pkt.seqnum⟩) :=
  node_update _

@[simp] theorem next_free {x : Addr} (h : x ≠ addr) :
    (heap.free (some addr)).next x = heap.next x := by
  simp [Heap.free, Heap.next, Ne.symm h]

@[simp] theorem prev_free {x : Addr} (h : x ≠ addr) :
    (heap.free (some addr)).prev x = heap.prev x := by
  simp [Heap.free, Heap.prev, Ne.symm h]

@[simp] theorem node_free :
    (heap.free (some addr)).node = Function.update heap.node addr none := by
  funext x
  by_cases hx : x = addr
  · subst hx; simp [Heap.free, Heap.node]
  · simp [Heap.free, Heap.node, hx, Ne.symm hx]

end Trtp.Pointers
