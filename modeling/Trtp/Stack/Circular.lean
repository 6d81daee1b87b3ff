import Mathlib.Data.List.TakeWhile
import Trtp.Stack.Refine

/-!
# The circular list over a run of calls (`src/stack/stack.c`)

A run makes calls one after the other on the stack of `stack_init`; an event is a call with the
address that `malloc` returns to it, which must not be allocated. The state is the memory, `none`
after an access that is not allowed or a loop that is out of fuel.

* `Circular`: `first` and `last` are `NULL` exactly when `size` is 0; otherwise `size` distinct
  nodes are visited along `next` from `first`, ending at `last` and returning to `first`, and
  `prev` is the inverse.
* `CallSpec` and `Answers`: what a call does to the list that is read from `first` to `last`, and
  what `stack_get_pkt` and `is_in_stack` say about it.
* `memory_refines`: no run stops, and the list read after it is the stack of the same calls.
* `circular_iff`: with fuel for every call, all this holds along a run exactly when it never has
  2^31 nodes: `is_in_stack` compares an `int` with `(int) stack_size(stack)`.
-/

namespace Trtp.Pointers

open Trtp.Links Trtp.Run

/-! ## Reading the list -/

/-- The nodes of `n` steps along `next`. -/
def nodesFrom (heap : Heap) : ℕ → Ptr → Stack
  | 0, _ => []
  | n + 1, p =>
    match heap.load p with
    | none => []
    | some cell => cell.node :: nodesFrom heap n cell.next

/-- The list from `first` to `last`. -/
def Memory.contents (m : Memory) : Stack := nodesFrom m.heap m.size m.first

/-- The pointer after `i` steps from `first`. -/
def Memory.visit (m : Memory) (i : ℕ) : Ptr := follow m.heap.next i m.first

/-- The circular list is well formed. -/
structure Circular (m : Memory) : Prop where
  first_null : m.first = none ↔ m.size = 0
  last_null : m.last = none ↔ m.size = 0
  distinct : ∀ i < m.size, ∀ j < m.size, m.visit i = m.visit j → i = j
  nodes : ∀ i < m.size, (m.heap.load (m.visit i)).isSome
  ends : m.size ≠ 0 → m.visit (m.size - 1) = m.last
  returns : m.visit m.size = m.first
  inverse : ∀ i < m.size, ∃ a b, m.visit i = some a ∧ m.visit (i + 1) = some b ∧
    m.heap.next a = some b ∧ m.heap.prev b = some a

/-- What a call does to the list, and what it returns. -/
def CallSpec (m m' : Memory) : Call → Answer → Prop
  | .enqueue pkt, .enqueued => ∃ front back, m.contents = front ++ back ∧
      m'.contents = front ++ ⟨pkt, pkt.seqnum⟩ :: back
  | .remove seqnum, .removed (some pkt) => ∃ front node back,
      m.contents = front ++ node :: back ∧ (∀ n ∈ front, n.seqnum ≠ seqnum) ∧
        node.seqnum = seqnum ∧ node.pkt = pkt ∧ m'.contents = front ++ back
  | .remove seqnum, .removed none => (∀ n ∈ m.contents, n.seqnum ≠ seqnum) ∧ m' = m
  | .removeAcked seqnum, .acked count => ∃ dropped, m.contents = dropped ++ m'.contents ∧
      count = dropped.length ∧ (∀ n ∈ dropped, n.seqnum ≠ seqnum) ∧
        ∀ n ∈ m'.contents.head?, n.seqnum = seqnum
  | _, _ => False

/-- The two questions, asked with some fuel. -/
structure Answers (fuel : ℕ) (m : Memory) : Prop where
  getPkt : ∀ seqnum, stackGetPkt fuel m seqnum =
    some ((m.contents.find? fun n => n.seqnum = seqnum).map Node.pkt)
  inStack : ∀ seqnum, isInStack m seqnum = some (decide (∃ n ∈ m.contents, n.seqnum = seqnum))

variable {m : Memory} {cells front back : List (Addr × Node)} {fuel : ℕ}

theorem nodesFrom_eq {heap : Heap} {p : Ptr} (h : Cells heap (front ++ back))
    (hp : ∀ c ∈ back.head?, p = some c.1) :
    nodesFrom heap back.length p = back.map Prod.snd := by
  induction back generalizing front p with
  | nil => rfl
  | cons c back ih =>
    have hcons : front ++ c :: back = (front ++ [c]) ++ back := by simp
    rw [hp c rfl, List.length_cons, nodesFrom, h.load (by simp)]
    simp only
    rw [ih (hcons ▸ h) h.next_head]
    rfl

theorem Holds.contents_eq (h : Holds m cells) : m.contents = cells.map Prod.snd := by
  have hcells : Cells m.heap ([] ++ cells) := h.toCells
  rw [Memory.contents, h.size, nodesFrom_eq hcells h.first_eq]

theorem Holds.visit_eq (h : Holds m cells) {i : ℕ} (hi : i < m.size) :
    m.visit i = (cells.map Prod.fst)[i]? := by
  rw [Memory.visit, h.first, h.ring.follow_eq (by rw [List.length_map, ← h.size]; exact hi)]

/-- **A memory that holds a stack is a circular list.** -/
theorem Holds.circular (h : Holds m cells) : Circular m := by
  have hlen : (cells.map Prod.fst).length = m.size := by rw [List.length_map, h.size]
  have hget : ∀ i < m.size, ∃ c ∈ cells, m.visit i = some c.1 := by
    intro i hi
    have hi' : i < cells.length := h.size ▸ hi
    refine ⟨cells[i], List.getElem_mem hi', ?_⟩
    rw [h.visit_eq hi, List.getElem?_map, List.getElem?_eq_getElem hi']
    rfl
  refine ⟨?_, ?_, ?_, ?_, ?_, ?_, ?_⟩
  · rw [h.first, List.head?_eq_none_iff, List.map_eq_nil_iff, h.size_eq_zero]
  · rw [h.last, List.getLast?_eq_none_iff, List.map_eq_nil_iff, h.size_eq_zero]
  · intro i hi j hj heq
    rw [h.visit_eq hi, h.visit_eq hj] at heq
    exact (List.getElem?_inj (hlen ▸ hi) h.nodup).mp heq
  · intro i hi
    obtain ⟨c, hc, hvisit⟩ := hget i hi
    rw [hvisit, h.load hc]
    rfl
  · intro hne
    rw [h.visit_eq (by omega), h.last, List.getLast?_eq_getElem?, hlen]
  · rw [Memory.visit, ← hlen, h.first, h.ring.follow_length]
  · intro i hi
    obtain ⟨c, hc, hvisit⟩ := hget i hi
    obtain ⟨b, -, hlink⟩ := h.ring.exists_link (List.mem_map.mpr ⟨c, hc, rfl⟩)
    refine ⟨c.1, b, hvisit, ?_, hlink.1, hlink.2⟩
    rw [Memory.visit, follow_succ, ← Memory.visit, hvisit]
    exact hlink.1

theorem Holds.getPkt_eq (h : Holds m cells) (hfuel : cells.length ≤ fuel) (seqnum : UInt8) :
    stackGetPkt fuel m seqnum =
      some ((m.contents.find? fun n => n.seqnum = seqnum).map Node.pkt) := by
  rw [stackGetPkt_refines h hfuel, stackGetPkt_eq, h.contents_eq]

theorem Holds.inStack_eq (h : Holds m cells) (hsize : m.size < 2 ^ 31) (seqnum : UInt8) :
    isInStack m seqnum = some (decide (∃ n ∈ m.contents, n.seqnum = seqnum)) := by
  rw [isInStack_refines h hsize, h.contents_eq, Option.some.injEq, Bool.eq_iff_iff, isInStack_iff,
    decide_eq_true_iff]

/-! ## Calls -/

/-- A call, with the address that `malloc` returns in it. -/
structure Event where
  addr : Addr
  call : Call
  deriving Repr, DecidableEq

/-- `malloc` returns memory that is not allocated. -/
def Event.Possible (m : Memory) (e : Event) : Prop :=
  match e.call with
  | .enqueue _ => m.heap e.addr = none
  | .remove _ => True
  | .removeAcked _ => True

instance (m : Memory) (e : Event) : Decidable (e.Possible m) := by
  unfold Event.Possible
  cases e.call <;> infer_instance

/-- A call made: what it returns, and the memory after it. -/
def runCall (fuel : ℕ) (m : Memory) (e : Event) : Option (Answer × Memory) :=
  match e.call with
  | .enqueue pkt => (stackEnqueue fuel m e.addr pkt).map fun m' => (.enqueued, m')
  | .remove seqnum => (stackRemove fuel m seqnum).map fun r => (.removed r.1, r.2)
  | .removeAcked seqnum => (stackRemoveAcked fuel m seqnum).map fun r => (.acked r.1, r.2)

/-- A step of a run; nothing follows a call that did not return. -/
def memStep (fuel : ℕ) : Option Memory → Event → Option (Option Memory)
  | none, _ => none
  | some m, e => if e.Possible m then some ((runCall fuel m e).map Prod.snd) else none

/-- **One call** does to the memory what it does to the list, and returns the same. -/
theorem runCall_refines {e : Event} (h : Holds m cells) (he : e.Possible m)
    (hfuel : cells.length ≤ fuel) :
    ∃ m' cells', runCall fuel m e = some (e.call.answer (cells.map Prod.snd), m') ∧
      Holds m' cells' ∧ cells'.map Prod.snd = e.call.apply (cells.map Prod.snd) ∧
      (e.call.answer (cells.map Prod.snd) = .removed none → m' = m) := by
  obtain ⟨addr, call⟩ := e
  cases call with
  | enqueue pkt =>
    obtain ⟨m', cells', henq, hholds, hlist, -⟩ := stackEnqueue_refines pkt h he hfuel
    refine ⟨m', cells', ?_, hholds, hlist, fun hnone => absurd hnone (by simp [Call.answer])⟩
    simp only [runCall, henq, Option.map_some]
    rfl
  | remove seqnum =>
    obtain ⟨m', cells', hremove, hholds, hlist, hsame⟩ := stackRemove_refines h hfuel
    refine ⟨m', cells', ?_, hholds, hlist, fun hnone => hsame (Answer.removed.inj hnone)⟩
    simp only [runCall, hremove, Option.map_some]
    rfl
  | removeAcked seqnum =>
    obtain ⟨m', cells', hremove, hholds, hlist⟩ := stackRemoveAcked_refines h hfuel
    refine ⟨m', cells', ?_, hholds, hlist, fun hnone => absurd hnone (by simp [Call.answer])⟩
    simp only [runCall, hremove, Option.map_some]
    rfl

/-- What the list does in a call, in the words of `stack.h`. -/
theorem callSpec_of_apply {m m' : Memory} {call : Call}
    (hsame : call.answer m.contents = .removed none → m' = m)
    (hlist : m'.contents = call.apply m.contents) :
    CallSpec m m' call (call.answer m.contents) := by
  cases call with
  | enqueue pkt =>
    obtain ⟨front, back, hsplit, hput⟩ := stackEnqueue_split m.contents pkt
    exact ⟨front, back, hsplit, hlist.trans hput⟩
  | remove seqnum =>
    rcases stackRemove_cases m.contents seqnum with
      ⟨habsent, heq⟩ | ⟨front, node, back, hsplit, hfront, hnode, heq⟩
    · rw [Call.answer, heq] at hsame ⊢
      exact ⟨habsent, hsame rfl⟩
    · rw [Call.apply, heq] at hlist
      rw [Call.answer, heq]
      exact ⟨front, node, back, hsplit, hfront, hnode, rfl, hlist⟩
  | removeAcked seqnum =>
    rw [Call.apply, stackRemoveAcked_eq] at hlist
    rw [Call.answer, stackRemoveAcked_eq]
    refine ⟨m.contents.takeWhile fun n => n.seqnum ≠ seqnum, ?_, rfl, ?_, ?_⟩
    · rw [hlist, List.takeWhile_append_dropWhile]
    · intro n hn
      have hp := List.mem_takeWhile_imp (p := fun n : Node => decide (n.seqnum ≠ seqnum)) hn
      exact of_decide_eq_true hp
    · intro n hn
      rw [hlist] at hn
      have hhead := List.head?_dropWhile_not (fun n : Node => decide (n.seqnum ≠ seqnum)) m.contents
      rw [hn] at hhead
      simpa using hhead

/-! ## Runs -/

/-- A call that returned, on memories that hold a stack. -/
structure Refined (fuel : ℕ) (s : Option Memory) (e : Event) (s' : Option Memory) (m m' : Memory)
    (cells cells' : List (Addr × Node)) : Prop where
  before : s = some m
  after : s' = some m'
  holds : Holds m cells
  holds' : Holds m' cells'
  enough : cells'.length ≤ fuel
  returns : runCall fuel m e = some (e.call.answer m.contents, m')
  list : m'.contents = e.call.apply m.contents
  spec : CallSpec m m' e.call (e.call.answer m.contents)

/-- **One step**: with fuel for the stack, the call returns and refines the list. -/
theorem memStep_refined {e : Event} {s' : Option Memory} (h : Holds m cells)
    (hfuel : cells.length < fuel) (hstep : memStep fuel (some m) e = some s') :
    ∃ m' cells', Refined fuel (some m) e s' m m' cells cells' ∧
      cells'.length ≤ cells.length + 1 := by
  have hposs : e.Possible m := by
    by_contra hnot
    rw [memStep, if_neg hnot] at hstep
    exact absurd hstep (by simp)
  obtain ⟨m', cells', hrun, hholds, hcells, hsame⟩ := runCall_refines h hposs hfuel.le
  rw [memStep, if_pos hposs, hrun, Option.some.injEq] at hstep
  subst hstep
  rw [← h.contents_eq] at hrun hcells hsame
  have hlist : m'.contents = e.call.apply m.contents := by rw [hholds.contents_eq, hcells]
  have hlen : cells'.length ≤ cells.length + 1 := by
    have hle := e.call.length_apply_le m.contents
    rw [← hcells, List.length_map, h.contents_eq, List.length_map] at hle
    exact hle
  exact ⟨m', cells', ⟨rfl, rfl, h, hholds, by omega, hrun, hlist, callSpec_of_apply hsame hlist⟩,
    hlen⟩

/-- **A run**, with fuel for every call: each of them returns, and refines the list. -/
theorem along_refined {events : List Event} (h : Holds m cells)
    (hfuel : cells.length + events.length ≤ fuel) :
    Along (memStep fuel) (fun s e s' => ∃ m m' cells cells', Refined fuel s e s' m m' cells cells')
      (some m) events := by
  induction events generalizing m cells with
  | nil => trivial
  | cons e events ih =>
    intro s' hstep
    rw [List.length_cons] at hfuel
    obtain ⟨m', cells', hr, hlen⟩ := memStep_refined h (by omega) hstep
    refine ⟨⟨m, m', cells, cells', hr⟩, ?_⟩
    rw [hr.after]
    exact ih hr.holds' (by omega)

theorem exec_refines {events : List Event} {s : Option Memory} (h : Holds m cells)
    (hfuel : cells.length + events.length ≤ fuel)
    (hexec : exec (memStep fuel) (some m) events = some s) :
    ∃ m', s = some m' ∧ Circular m' ∧
      m'.contents = (events.map Event.call).foldl Call.apply m.contents := by
  induction events generalizing m cells with
  | nil =>
    rw [exec, Option.some.injEq] at hexec
    exact ⟨m, hexec.symm, h.circular, rfl⟩
  | cons e events ih =>
    obtain ⟨s1, hstep, hexec'⟩ := exec_cons_inv hexec
    rw [List.length_cons] at hfuel
    obtain ⟨m1, cells1, hr, hlen⟩ := memStep_refined h (by omega) hstep
    rw [hr.after] at hexec'
    rw [List.map_cons, List.foldl_cons, ← hr.list]
    exact ih hr.holds' (by omega) hexec'

/-- **The memory refines the list**: no run stops, and the list read after it is the stack after
the same calls. -/
theorem memory_refines {events : List Event} (hfuel : events.length ≤ fuel) {s : Option Memory}
    (h : exec (memStep fuel) (some stackInit) events = some s) :
    ∃ m, s = some m ∧ Circular m ∧
      m.contents = (events.map Event.call).foldl Call.apply [] :=
  exec_refines holds_init (by simpa using hfuel) h

/-- A call that did what `stack.h` says, and left a circular list that is read correctly. -/
def Correct (fuel : ℕ) (s : Option Memory) (e : Event) (s' : Option Memory) : Prop :=
  ∃ m m' answer, s = some m ∧ s' = some m' ∧ runCall fuel m e = some (answer, m') ∧
    CallSpec m m' e.call answer ∧ Circular m' ∧ Answers fuel m'

/-- The size is an `int`. -/
def SizeIsInt (s : Option Memory) : Prop := ∀ m ∈ s, m.size < 2 ^ 31

instance (s : Option Memory) : Decidable (SizeIsInt s) :=
  inferInstanceAs (Decidable (∀ m ∈ s, _))

section Step

variable {s s' : Option Memory} {e : Event} {m m' : Memory} {cells cells' : List (Addr × Node)}

theorem Refined.correct (h : Refined fuel s e s' m m' cells cells') (hsize : SizeIsInt s') :
    Correct fuel s e s' :=
  ⟨m, m', _, h.before, h.after, h.returns, h.spec, h.holds'.circular,
    h.holds'.getPkt_eq h.enough, h.holds'.inStack_eq (hsize m' h.after)⟩

/-- The size grows by one, and `is_in_stack` is wrong with 2^31 nodes. -/
theorem Refined.sizeIsInt (h : Refined fuel s e s' m m' cells cells') (hsize : SizeIsInt s)
    (hcorrect : Correct fuel s e s') : SizeIsInt s' := by
  obtain ⟨-, m1, answer, -, hafter, -, -, -, hanswers⟩ := hcorrect
  obtain rfl : m' = m1 := Option.some.inj (h.after.symm.trans hafter)
  have hlt : m.size < 2 ^ 31 := hsize m h.before
  have hle : m'.size ≤ m.size + 1 := by
    have hlen := e.call.length_apply_le m.contents
    rw [← h.list, h.holds.contents_eq, h.holds'.contents_eq, List.length_map, List.length_map,
      ← h.holds.size, ← h.holds'.size] at hlen
    exact hlen
  intro m2 hm2
  obtain rfl : m' = m2 := Option.some.inj (h.after.symm.trans hm2)
  by_contra hnot
  have hfull : m'.size = 2 ^ 31 := by omega
  -- the first node is in the list
  cases cells' with
  | nil => exact absurd (h.holds'.size ▸ hfull) (by simp)
  | cons c rest =>
    have hin := hanswers.inStack c.2.seqnum
    rw [isInStack_overflow hfull, Option.some.injEq, eq_comm, decide_eq_false_iff_not] at hin
    refine hin ⟨c.2, ?_, rfl⟩
    rw [h.holds'.contents_eq]
    exact List.mem_cons_self

end Step

/-- A run that is correct has less than 2^31 nodes. -/
theorem along_sizeIsInt {events : List Event} (hfuel : events.length ≤ fuel)
    (h : Along (memStep fuel) (Correct fuel) (some stackInit) events) :
    Along (memStep fuel) (fun _ _ s' => SizeIsInt s') (some stackInit) events := by
  have hrun := along_refined holds_init (by simpa using hfuel)
  have hinit : SizeIsInt (some stackInit) := by
    rintro m ⟨rfl⟩
    decide
  refine Along.of_inv (I := SizeIsInt) ?_ ?_ hinit (hrun.and h)
  · rintro s e s' hs ⟨⟨m, m', cells, cells', hr⟩, hc⟩ -
    exact hr.sizeIsInt hs hc
  · rintro s e s' hs ⟨⟨m, m', cells, cells', hr⟩, hc⟩ -
    exact hr.sizeIsInt hs hc

/-- **The circular list.** On the stack of `stack_init`, with fuel for every call, every call of
a run is correct exactly when the stack never has 2^31 nodes. -/
theorem circular_iff (fuel : ℕ) (events : List Event) (hfuel : events.length ≤ fuel) :
    (Circular stackInit ∧ Answers fuel stackInit ∧
      Along (memStep fuel) (Correct fuel) (some stackInit) events) ↔
      Along (memStep fuel) (fun _ _ s' => SizeIsInt s') (some stackInit) events := by
  constructor
  · rintro ⟨-, -, h⟩
    exact along_sizeIsInt hfuel h
  · intro h
    have hrun := along_refined holds_init (by simpa using hfuel)
    refine ⟨holds_init.circular, ⟨holds_init.getPkt_eq (Nat.zero_le _),
      holds_init.inStack_eq (by decide)⟩, (hrun.and h).mono ?_⟩
    rintro s e s' - ⟨⟨m, m', cells, cells', hr⟩, hs⟩
    exact hr.correct hs

/-- Two packets, the second one behind the first, and the first one taken out. -/
theorem circular_iff_two :
    Along (memStep 3) (Correct 3) (some stackInit)
      [⟨100, .enqueue { pktNew with seqnum := 5 }⟩, ⟨200, .enqueue { pktNew with seqnum := 7 }⟩,
        ⟨0, .remove 5⟩] :=
  ((circular_iff 3 _ (by decide)).mpr (by decide)).2.2

/-! ## A stack of 2^31 nodes -/

/-- Packets enqueued, at addresses from `addr` on. -/
def fill (addr : Addr) : ℕ → List Event
  | 0 => []
  | n + 1 => ⟨addr, .enqueue pktNew⟩ :: fill (addr + 1) n

theorem length_fill (addr : Addr) (n : ℕ) : (fill addr n).length = n := by
  induction n generalizing addr with
  | zero => rfl
  | succ n ih => rw [fill, List.length_cons, ih]

/-- The run is possible, whatever the number of packets. -/
theorem exec_fill {addr : Addr} {n : ℕ} (h : Holds m cells)
    (hfree : ∀ a, addr ≤ a → m.heap.node a = none) (hfuel : cells.length + n ≤ fuel) :
    ∃ m', exec (memStep fuel) (some m) (fill addr n) = some (some m') ∧
      m'.size = cells.length + n := by
  induction n generalizing m cells addr with
  | zero => exact ⟨m, rfl, h.size⟩
  | succ n ih =>
    have hnew : m.heap addr = none := Option.map_eq_none_iff.mp (hfree addr (Nat.le_refl _))
    obtain ⟨m1, cells1, henq, hholds, hlist, hnode⟩ :=
      stackEnqueue_refines pktNew h hnew (show cells.length ≤ fuel by omega)
    have hlen : cells1.length = cells.length + 1 := by
      have hlen' := congrArg List.length hlist
      rwa [List.length_map, length_stackEnqueue, List.length_map] at hlen'
    have hfree1 : ∀ a, addr + 1 ≤ a → m1.heap.node a = none := by
      intro a ha
      rw [hnode, Function.update_of_ne (Nat.ne_of_gt ha)]
      exact hfree a (Nat.le_of_lt ha)
    have hfuel1 : cells1.length + n ≤ fuel := by omega
    obtain ⟨m', hexec, hsize⟩ := ih hholds hfree1 hfuel1
    refine ⟨m', ?_, by omega⟩
    have hposs : Event.Possible m ⟨addr, .enqueue pktNew⟩ := hnew
    rw [fill, exec, memStep, if_pos hposs]
    simp only [runCall, henq, Option.map_some]
    exact hexec

/-- With 2^31 packets, `is_in_stack` does not find the first one. -/
theorem not_correct :
    (fill 0 (2 ^ 31)).length ≤ 2 ^ 31 ∧
      (∃ m, exec (memStep (2 ^ 31)) (some stackInit) (fill 0 (2 ^ 31)) = some (some m) ∧
        m.size = 2 ^ 31 ∧ isInStack m pktNew.seqnum = some false) ∧
      ¬ Along (memStep (2 ^ 31)) (Correct (2 ^ 31)) (some stackInit) (fill 0 (2 ^ 31)) := by
  have hlen := length_fill 0 (2 ^ 31)
  obtain ⟨m, hexec, hsize⟩ := exec_fill holds_init (fun a (_ : 0 ≤ a) => rfl)
    (show ([] : List (Addr × Node)).length + 2 ^ 31 ≤ 2 ^ 31 from (Nat.zero_add _).le)
  simp only [List.length_nil, Nat.zero_add] at hsize
  refine ⟨hlen.le, ⟨m, hexec, hsize, isInStack_overflow hsize⟩, fun h => ?_⟩
  have hsizes := along_sizeIsInt hlen.le h
  have hlast : SizeIsInt (some m) :=
    exec_inv (I := SizeIsInt) (fun _ _ _ _ hs _ => hs) (by rintro m ⟨rfl⟩; decide) hsizes hexec
  have hlt := hlast m rfl
  omega

end Trtp.Pointers
