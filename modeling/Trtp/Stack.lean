import Trtp.Seqnum

/-!
# The stack (`src/stack/stack.c`)

The circular list from `first` to `last`, as a list of nodes. `malloc` succeeds, so
`stack_enqueue` always returns 0. A pointer that `stack_get_pkt` returned is the first node with
that number: writing through it is `stackSetPkt`.

* `stackEnqueue_split`: the new node is put at one place; `stackEnqueue_append`: behind a last
  node with a smaller number, or across the wrap from above 200 to below 100, it is the end.
* `stackRemove_cases`: the first node with a number is taken out, or nothing happens.
* `Numbered a stack`: the nodes are numbered `a`, `a + 1`, ... modulo 256, any number of them.
  There every lookup is a position: **number `s` is found at `offset a s`**
  (`stackGetPkt_numbered`, `stackSetPkt_numbered`, `stackRemoveAcked_numbered`).
-/

namespace Trtp

/-- `struct node`. -/
structure Node where
  pkt : Pkt
  seqnum : UInt8
  deriving Repr, DecidableEq

/-- `struct stack`, from `first` to `last`. -/
abbrev Stack := List Node

/-- The test of the walk in `stack_enqueue`, "condition for separating two blocks of 256". -/
def goesBefore (pktSeqnum runnerSeqnum : UInt8) : Prop :=
  pktSeqnum < runnerSeqnum ∧ ¬ (runnerSeqnum > 200 ∧ pktSeqnum < 100)

instance (pktSeqnum runnerSeqnum : UInt8) : Decidable (goesBefore pktSeqnum runnerSeqnum) :=
  inferInstanceAs (Decidable (_ ∧ _))

/-- The walk of `stack_enqueue`, on the nodes from the runner back to `first`. The walk stops at
`first` without comparing with it. -/
def enqueueBack (newNode : Node) : List Node → List Node
  | [] => [newNode]
  | [first] => [newNode, first]
  | runner :: prev :: rest =>
    if goesBefore newNode.seqnum runner.seqnum then
      runner :: enqueueBack newNode (prev :: rest)
    else newNode :: runner :: prev :: rest

/-- `stack_enqueue`. -/
def stackEnqueue (stack : Stack) (pkt : Pkt) : Stack :=
  (enqueueBack ⟨pkt, pkt.seqnum⟩ stack.reverse).reverse

/-- `stack_remove`: the packet, `none` for `NULL`, and the stack left. -/
def stackRemove : Stack → UInt8 → Option Pkt × Stack
  | [], _ => (none, [])
  | runner :: next, seqnum =>
    if runner.seqnum ≠ seqnum then
      ((stackRemove next seqnum).1, runner :: (stackRemove next seqnum).2)
    else (some runner.pkt, next)

/-- `stack_remove_acked`: the number of removed nodes and the stack left. -/
def stackRemoveAcked : Stack → UInt8 → ℕ × Stack
  | [], _ => (0, [])
  | first :: next, seqnum =>
    if seqnum ≠ first.seqnum then
      ((stackRemoveAcked next seqnum).1 + 1, (stackRemoveAcked next seqnum).2)
    else (0, first :: next)

/-- `stack_get_pkt`. -/
def stackGetPkt : Stack → UInt8 → Option Pkt
  | [], _ => none
  | runner :: next, seqnum =>
    if runner.seqnum ≠ seqnum then stackGetPkt next seqnum else some runner.pkt

/-- The stack after the packet of `stack_get_pkt` was changed through its pointer. -/
def stackSetPkt : Stack → UInt8 → Pkt → Stack
  | [], _, _ => []
  | runner :: next, seqnum, pkt =>
    if runner.seqnum ≠ seqnum then runner :: stackSetPkt next seqnum pkt
    else { runner with pkt := pkt } :: next

/-- `is_in_stack`. -/
def isInStack (stack : Stack) (seqnum : UInt8) : Bool := stack.any fun node => node.seqnum = seqnum

/-! ## Enqueueing -/

theorem enqueueBack_split (newNode : Node) (nodes : List Node) :
    ∃ back front, nodes = back ++ front ∧ enqueueBack newNode nodes = back ++ newNode :: front := by
  induction nodes with
  | nil => exact ⟨[], [], rfl, rfl⟩
  | cons runner nodes ih =>
    cases nodes with
    | nil => exact ⟨[], [runner], rfl, rfl⟩
    | cons prev rest =>
      rw [enqueueBack]
      split
      · obtain ⟨back, front, hsplit, hput⟩ := ih
        exact ⟨runner :: back, front, by rw [hsplit, List.cons_append],
          by rw [hput, List.cons_append]⟩
      · exact ⟨[], runner :: prev :: rest, rfl, rfl⟩

/-- **One node more, the others in their order.** -/
theorem stackEnqueue_split (stack : Stack) (pkt : Pkt) :
    ∃ front back, stack = front ++ back ∧
      stackEnqueue stack pkt = front ++ ⟨pkt, pkt.seqnum⟩ :: back := by
  obtain ⟨back, front, hsplit, hput⟩ := enqueueBack_split ⟨pkt, pkt.seqnum⟩ stack.reverse
  refine ⟨front.reverse, back.reverse, ?_, ?_⟩
  · rw [← List.reverse_append, ← hsplit, List.reverse_reverse]
  · rw [stackEnqueue, hput, List.reverse_append, List.reverse_cons, List.append_assoc]
    rfl

/-- The runner starts at `last`: when the walk stops there, the node becomes the new last one. -/
theorem stackEnqueue_append {stack : Stack} {pkt : Pkt}
    (h : ∀ last ∈ stack.getLast?, ¬ goesBefore pkt.seqnum last.seqnum) :
    stackEnqueue stack pkt = stack ++ [⟨pkt, pkt.seqnum⟩] := by
  have hfront : enqueueBack ⟨pkt, pkt.seqnum⟩ stack.reverse =
      ⟨pkt, pkt.seqnum⟩ :: stack.reverse := by
    have hlast := h
    rw [List.getLast?_eq_head?_reverse] at hlast
    cases hrev : stack.reverse with
    | nil => rfl
    | cons runner nodes =>
      rw [hrev] at hlast
      cases nodes with
      | nil => rfl
      | cons prev rest => exact if_neg (hlast runner rfl)
  rw [stackEnqueue, hfront, List.reverse_cons, List.reverse_reverse]

/-! ## Taking out -/

theorem isInStack_iff {stack : Stack} {seqnum : UInt8} :
    isInStack stack seqnum = true ↔ ∃ node ∈ stack, node.seqnum = seqnum := by
  simp [isInStack]

theorem stackRemove_of_absent {stack : Stack} {seqnum : UInt8}
    (h : ∀ node ∈ stack, node.seqnum ≠ seqnum) : stackRemove stack seqnum = (none, stack) := by
  induction stack with
  | nil => rfl
  | cons runner next ih =>
    rw [stackRemove, if_pos (h runner List.mem_cons_self),
      ih fun node hn => h node (List.mem_cons_of_mem runner hn)]

/-- **The first node with the number is taken out.** -/
theorem stackRemove_split {front back : Stack} {node : Node} {seqnum : UInt8}
    (h : ∀ n ∈ front, n.seqnum ≠ seqnum) (hnode : node.seqnum = seqnum) :
    stackRemove (front ++ node :: back) seqnum = (some node.pkt, front ++ back) := by
  induction front with
  | nil => rw [List.nil_append, stackRemove, if_neg (not_not.mpr hnode), List.nil_append]
  | cons runner front ih =>
    rw [List.cons_append, stackRemove, if_pos (h runner List.mem_cons_self),
      ih fun n hn => h n (List.mem_cons_of_mem runner hn), List.cons_append]

/-- What `stack_remove` can do: nothing, or take out the first node with the number. -/
theorem stackRemove_cases (stack : Stack) (seqnum : UInt8) :
    (∀ node ∈ stack, node.seqnum ≠ seqnum) ∧ stackRemove stack seqnum = (none, stack) ∨
      ∃ front node back, stack = front ++ node :: back ∧ (∀ n ∈ front, n.seqnum ≠ seqnum) ∧
        node.seqnum = seqnum ∧ stackRemove stack seqnum = (some node.pkt, front ++ back) := by
  by_cases habsent : ∀ node ∈ stack, node.seqnum ≠ seqnum
  · exact Or.inl ⟨habsent, stackRemove_of_absent habsent⟩
  · refine Or.inr ?_
    induction stack with
    | nil => exact absurd (fun node hn => absurd hn (by simp)) habsent
    | cons runner next ih =>
      by_cases hs : runner.seqnum = seqnum
      · refine ⟨[], runner, next, rfl, by simp, hs, ?_⟩
        rw [stackRemove, if_neg (not_not.mpr hs), List.nil_append]
      · have hnext : ¬ ∀ node ∈ next, node.seqnum ≠ seqnum := by
          intro hall
          refine habsent fun node hn => ?_
          rcases List.mem_cons.mp hn with rfl | hn
          · exact hs
          · exact hall node hn
        obtain ⟨front, node, back, rfl, hfront, hnode, -⟩ := ih hnext
        have hfront' : ∀ n ∈ runner :: front, n.seqnum ≠ seqnum := by
          intro n hn
          rcases List.mem_cons.mp hn with rfl | hn
          · exact hs
          · exact hfront n hn
        exact ⟨runner :: front, node, back, rfl, hfront', hnode,
          stackRemove_split hfront' hnode⟩

theorem stackRemove_sublist (stack : Stack) (seqnum : UInt8) :
    (stackRemove stack seqnum).2.Sublist stack := by
  rcases stackRemove_cases stack seqnum with ⟨-, heq⟩ | ⟨front, node, back, rfl, -, -, heq⟩
  · have hsame : (stackRemove stack seqnum).2 = stack := congrArg Prod.snd heq
    exact hsame.symm ▸ List.Sublist.refl stack
  · rw [heq]
    exact (List.Sublist.refl front).append (List.sublist_cons_self node back)

/-- **Everything in front of the number goes.** -/
theorem stackRemoveAcked_eq (stack : Stack) (seqnum : UInt8) :
    stackRemoveAcked stack seqnum =
      ((stack.takeWhile fun node => node.seqnum ≠ seqnum).length,
        stack.dropWhile fun node => node.seqnum ≠ seqnum) := by
  induction stack with
  | nil => rfl
  | cons first next ih =>
    rw [stackRemoveAcked, ih]
    by_cases hs : seqnum = first.seqnum
    · simp [hs]
    · simp [hs, Ne.symm hs]

theorem stackGetPkt_eq (stack : Stack) (seqnum : UInt8) :
    stackGetPkt stack seqnum =
      (stack.find? fun node => node.seqnum = seqnum).map fun node => node.pkt := by
  induction stack with
  | nil => rfl
  | cons runner next ih =>
    rw [stackGetPkt, ih]
    by_cases hs : runner.seqnum = seqnum
    · simp [hs]
    · simp [hs]

theorem stackRemoveAcked_suffix (stack : Stack) (seqnum : UInt8) :
    (stackRemoveAcked stack seqnum).2 <:+ stack := by
  induction stack with
  | nil => exact List.suffix_refl []
  | cons first next ih =>
    rw [stackRemoveAcked]
    split
    · exact ih.trans (List.suffix_cons first next)
    · exact List.suffix_refl _

/-! ## Numbered stacks -/

/-- The nodes carry the numbers `a`, `a + 1`, ... modulo 256. -/
def Numbered : ℕ → Stack → Prop
  | _, [] => True
  | a, node :: rest => node.seqnum = UInt8.ofNat a ∧ Numbered (a + 1) rest

theorem Numbered.drop {a : ℕ} {stack : Stack} (h : Numbered a stack) (k : ℕ) :
    Numbered (a + k) (stack.drop k) := by
  induction k generalizing a stack with
  | zero => exact h
  | succ k ih =>
    cases stack with
    | nil => trivial
    | cons node rest =>
      have hrest := ih h.2
      rwa [Nat.add_right_comm] at hrest

theorem Numbered.getElem? {a i : ℕ} {stack : Stack} {node : Node} (h : Numbered a stack)
    (hi : stack[i]? = some node) : node.seqnum = UInt8.ofNat (a + i) := by
  induction stack generalizing a i with
  | nil => exact absurd hi (by simp)
  | cons runner next ih =>
    cases i with
    | zero =>
      rw [List.getElem?_cons_zero, Option.some.injEq] at hi
      exact hi ▸ h.1
    | succ i =>
      have hnode := ih h.2 hi
      rwa [Nat.add_right_comm] at hnode

theorem numbered_append {a : ℕ} {front back : Stack} :
    Numbered a (front ++ back) ↔ Numbered a front ∧ Numbered (a + front.length) back := by
  induction front generalizing a with
  | nil => simp [Numbered]
  | cons node front ih =>
    simp only [List.cons_append, Numbered, ih, List.length_cons, and_assoc]
    rw [show a + 1 + front.length = a + (front.length + 1) by omega]

/-- **A number is found at its distance from the head.** -/
theorem stackGetPkt_numbered {a : ℕ} {stack : Stack} (h : Numbered a stack) (seqnum : UInt8) :
    stackGetPkt stack seqnum =
      stack[offset (UInt8.ofNat a) seqnum]?.map fun node => node.pkt := by
  induction stack generalizing a with
  | nil => rfl
  | cons runner next ih =>
    rw [stackGetPkt, h.1]
    by_cases hs : UInt8.ofNat a = seqnum
    · rw [if_neg (not_not.mpr hs), ← hs, offset_self]
      rfl
    · rw [if_pos hs, ih h.2, offset_succ (Ne.symm hs)]
      rfl

theorem stackSetPkt_numbered {a : ℕ} {stack : Stack} (h : Numbered a stack) (seqnum : UInt8)
    (pkt : Pkt) :
    stackSetPkt stack seqnum pkt =
      stack.modify (offset (UInt8.ofNat a) seqnum) fun node => { node with pkt := pkt } := by
  induction stack generalizing a with
  | nil => simp [stackSetPkt]
  | cons runner next ih =>
    rw [stackSetPkt, h.1]
    by_cases hs : UInt8.ofNat a = seqnum
    · rw [if_neg (not_not.mpr hs), ← hs, offset_self]
      simp [h.1]
    · rw [if_pos hs, ih h.2, offset_succ (Ne.symm hs)]
      rfl

/-- Everything in front of the number goes; everything, when it is too far. -/
theorem stackRemoveAcked_numbered {a : ℕ} {stack : Stack} (h : Numbered a stack)
    (seqnum : UInt8) :
    stackRemoveAcked stack seqnum =
      (min (offset (UInt8.ofNat a) seqnum) stack.length,
        stack.drop (offset (UInt8.ofNat a) seqnum)) := by
  induction stack generalizing a with
  | nil => simp [stackRemoveAcked]
  | cons first next ih =>
    rw [stackRemoveAcked, h.1]
    by_cases hs : seqnum = UInt8.ofNat a
    · rw [if_neg (not_not.mpr hs), hs, offset_self]
      simp
    · rw [if_pos hs, ih h.2, offset_succ hs, List.length_cons, List.drop_succ_cons]
      simp only [Prod.mk.injEq, and_true]
      omega

/-! ## Calls -/

/-- A call that changes the stack. -/
inductive Call where
  | enqueue (pkt : Pkt)
  | remove (seqnum : UInt8)
  | removeAcked (seqnum : UInt8)
  deriving Repr, DecidableEq

/-- The stack after a call. -/
def Call.apply (stack : Stack) : Call → Stack
  | .enqueue pkt => stackEnqueue stack pkt
  | .remove seqnum => (stackRemove stack seqnum).2
  | .removeAcked seqnum => (stackRemoveAcked stack seqnum).2

theorem length_stackEnqueue (stack : Stack) (pkt : Pkt) :
    (stackEnqueue stack pkt).length = stack.length + 1 := by
  obtain ⟨front, back, rfl, hput⟩ := stackEnqueue_split stack pkt
  rw [hput, List.length_append, List.length_append, List.length_cons, Nat.add_assoc]

/-- A call makes the stack longer by one node at most. -/
theorem Call.length_apply_le (stack : Stack) (call : Call) :
    (call.apply stack).length ≤ stack.length + 1 := by
  cases call with
  | enqueue pkt => exact (length_stackEnqueue stack pkt).le
  | remove seqnum => exact (stackRemove_sublist stack seqnum).length_le.trans (Nat.le_succ _)
  | removeAcked seqnum =>
    exact (stackRemoveAcked_suffix stack seqnum).length_le.trans (Nat.le_succ _)

/-- What a call returns. -/
inductive Answer where
  | enqueued
  | removed (pkt : Option Pkt)
  | acked (count : ℕ)
  deriving Repr, DecidableEq

def Call.answer (stack : Stack) : Call → Answer
  | .enqueue _ => .enqueued
  | .remove seqnum => .removed (stackRemove stack seqnum).1
  | .removeAcked seqnum => .acked (stackRemoveAcked stack seqnum).1

end Trtp
