import Trtp.Lib.Run
import Trtp.Stack

/-!
# Is the stack sorted? (`src/stack/stack.c:15-51`)

`stack.h` says of `stack_enqueue` that it "keeps the stack sorted (first < last)". The walk
compares from `last` backwards and stops at `first` without comparing with it, so a packet in
front of the first one is put behind it; the branch that would make it the new first,
`newNode->next == stack->first`, is never reached. And the exception for the wrap, above 200
against below 100, is written for a new packet after the wrap only: a packet up to 255 is put
behind the packets from 0 on.

Results, for stacks in a span of 31 numbers without repetition (`InSpan`):
* `goesBefore_iff`: the test of the walk is the order of the span, as long as the count from 255
  to 0 is not in between.
* `stackEnqueue_sorted_iff`: a sorted stack stays sorted exactly when the packet lies behind
  `first`, and behind `last` or numerically below it (`Follows`).
* `sorted_iff`: a run of calls keeps the stack sorted exactly when every packet enqueued does.
-/

namespace Trtp

open Trtp.Run

/-! ## Spans -/

/-- The seqnums are pairwise distinct and lie in a span of 31 numbers. -/
def InSpan (stack : Stack) : Prop :=
  (stack.map Node.seqnum).Nodup ∧ ∃ base, ∀ node ∈ stack, offset base node.seqnum < 31

/-- From `first` to `last`, the distance from the start of the span increases. -/
def Sorted (stack : Stack) : Prop :=
  ∀ base, (∀ node ∈ stack, offset base node.seqnum < 31) →
    stack.Pairwise fun x y => offset base x.seqnum < offset base y.seqnum

section Span

variable {base s r : UInt8}

/-- Of two numbers in a span, the second one is at most 30 after the first, or the first one
after the second. -/
theorem offset_lt_iff (hs : offset base s < 31) (hr : offset base r < 31) (hne : s ≠ r) :
    offset base s < offset base r ↔ offset s r < 31 := by
  have htrans := offset_trans base s r
  have hpos : offset s r ≠ 0 := fun h => hne (offset_eq_zero.mp h).symm
  have hlt := offset_lt s r
  constructor <;> intro h <;> omega

/-- Without the count from 255 to 0 in between, the order of a span is the numerical one. -/
theorem goesBefore_iff (hs : offset base s < 31) (hr : offset base r < 31) :
    goesBefore s r ↔ offset base s < offset base r ∧ s < r := by
  have hb := base.toNat_lt
  have hs' := s.toNat_lt
  have hr' := r.toNat_lt
  unfold offset at hs hr ⊢
  rw [UInt8.toNat_sub] at hs hr
  unfold goesBefore
  rw [UInt8.toNat_sub, UInt8.toNat_sub, gt_iff_lt, UInt8.lt_iff_toNat_lt, UInt8.lt_iff_toNat_lt,
    UInt8.lt_iff_toNat_lt]
  have h200 : (200 : UInt8).toNat = 200 := rfl
  have h100 : (100 : UInt8).toNat = 100 := rfl
  rw [h200, h100]
  omega

/-- Where the farther number is not across the wrap, neither is the nearer one. -/
theorem lt_of_offset_lt {q : UInt8} (hr : offset base r < offset base q)
    (hq : offset base q < 31) (hs : offset base s < offset base r) (h : s < q) : s < r := by
  have hb := base.toNat_lt
  have hs' := s.toNat_lt
  have hr' := r.toNat_lt
  have hq' := q.toNat_lt
  unfold offset at hs hr hq
  rw [UInt8.toNat_sub, UInt8.toNat_sub] at hs hr
  rw [UInt8.toNat_sub] at hq
  rw [UInt8.lt_iff_toNat_lt] at h ⊢
  omega

end Span

/-- Any span a stack lies in orders it the same way. -/
theorem InSpan.sorted_of_base {stack : Stack} {base : UInt8} (hspan : InSpan stack)
    (hbase : ∀ node ∈ stack, offset base node.seqnum < 31)
    (h : stack.Pairwise fun x y => offset base x.seqnum < offset base y.seqnum) :
    Sorted stack := by
  intro base' hbase'
  have hne : stack.Pairwise fun x y => x.seqnum ≠ y.seqnum := List.pairwise_map.mp hspan.1
  refine (h.and hne).imp_of_mem ?_
  rintro x y hx hy ⟨hlt, hxy⟩
  rw [offset_lt_iff (hbase' x hx) (hbase' y hy) hxy]
  exact (offset_lt_iff (hbase x hx) (hbase y hy) hxy).mp hlt

theorem InSpan.sublist {stack stack' : Stack} (h : InSpan stack) (hsub : stack'.Sublist stack) :
    InSpan stack' := by
  obtain ⟨hnodup, base, hbase⟩ := h
  exact ⟨(hsub.map Node.seqnum).nodup hnodup, base, fun node hn => hbase node (hsub.subset hn)⟩

theorem Sorted.sublist {stack stack' : Stack} (h : Sorted stack) (hspan : InSpan stack)
    (hsub : stack'.Sublist stack) : Sorted stack' := by
  obtain ⟨base, hbase⟩ := hspan.2
  exact (hspan.sublist hsub).sorted_of_base (fun node hn => hbase node (hsub.subset hn))
    ((h base hbase).sublist hsub)

theorem inSpan_nil : InSpan [] := ⟨List.nodup_nil, 0, fun node hn => absurd hn (by simp)⟩

theorem sorted_nil : Sorted [] := fun _ _ => List.Pairwise.nil

/-! ## One packet more -/

/-- The packet lies behind `first`, and behind `last` or numerically below it. -/
def Follows (stack : Stack) (pkt : Pkt) : Prop :=
  ∀ first ∈ stack.head?, ∀ last ∈ stack.getLast?,
    offset first.seqnum pkt.seqnum < 31 ∧
      (offset last.seqnum pkt.seqnum < 31 ∨ pkt.seqnum < last.seqnum)

instance (stack : Stack) (pkt : Pkt) : Decidable (Follows stack pkt) :=
  inferInstanceAs (Decidable (∀ first ∈ stack.head?, ∀ last ∈ stack.getLast?, _))

theorem mem_enqueueBack {newNode node : Node} {nodes : List Node} :
    node ∈ enqueueBack newNode nodes ↔ node = newNode ∨ node ∈ nodes := by
  obtain ⟨back, front, rfl, hput⟩ := enqueueBack_split newNode nodes
  rw [hput, List.mem_append, List.mem_cons, List.mem_append]
  tauto

section Walk

variable {base : UInt8} (newNode : Node) {nodes : List Node}

/-- The walk seen from a base: in descending order, it stops in front of the first smaller node
when none of the greater ones is across the wrap. -/
theorem enqueueBack_descending
    (hbase : ∀ node ∈ nodes, offset base node.seqnum < 31)
    (hnew : offset base newNode.seqnum < 31)
    (hne : ∀ node ∈ nodes, node.seqnum ≠ newNode.seqnum)
    (hdesc : nodes.Pairwise fun x y => offset base y.seqnum < offset base x.seqnum)
    (hfirst : ∀ first ∈ nodes.getLast?, offset base first.seqnum < offset base newNode.seqnum)
    (hwrap : ∀ node ∈ nodes, offset base newNode.seqnum < offset base node.seqnum →
      newNode.seqnum < node.seqnum) :
    (enqueueBack newNode nodes).Pairwise
      fun x y => offset base y.seqnum < offset base x.seqnum := by
  induction nodes with
  | nil => exact List.pairwise_singleton _ _
  | cons runner nodes ih =>
    cases nodes with
    | nil =>
      refine List.pairwise_pair.mpr ?_
      exact hfirst runner rfl
    | cons prev rest =>
      have hrunner := hbase runner List.mem_cons_self
      rw [List.pairwise_cons] at hdesc
      rw [enqueueBack]
      split
      · next hbefore =>
        -- the runner is greater: it stays behind everything the walk goes on to
        rw [goesBefore_iff hnew hrunner] at hbefore
        refine List.pairwise_cons.mpr ⟨?_, ?_⟩
        · intro node hn
          rcases mem_enqueueBack.mp hn with rfl | hn
          · exact hbefore.1
          · exact hdesc.1 node hn
        · refine ih (fun n hn => hbase n (List.mem_cons_of_mem _ hn))
            (fun n hn => hne n (List.mem_cons_of_mem _ hn)) hdesc.2 ?_
            (fun n hn => hwrap n (List.mem_cons_of_mem _ hn))
          intro first hf
          exact hfirst first (by rwa [List.getLast?_cons_cons])
      · next hstop =>
        have hlt : offset base runner.seqnum < offset base newNode.seqnum := by
          by_contra hge
          have hneq : offset base newNode.seqnum ≠ offset base runner.seqnum :=
            fun heq => hne runner List.mem_cons_self (offset_inj heq).symm
          have hgt : offset base newNode.seqnum < offset base runner.seqnum := by omega
          exact hstop ((goesBefore_iff hnew hrunner).mpr
            ⟨hgt, hwrap runner List.mem_cons_self hgt⟩)
        refine List.pairwise_cons.mpr ⟨?_, List.pairwise_cons.mpr hdesc⟩
        intro node hn
        rcases List.mem_cons.mp hn with rfl | hn
        · exact hlt
        · exact (hdesc.1 node hn).trans hlt

/-- In a descending result, the new node is after `first`. -/
theorem first_lt_of_descending (h : (enqueueBack newNode nodes).Pairwise
      fun x y => offset base y.seqnum < offset base x.seqnum) :
    ∀ first ∈ nodes.getLast?, offset base first.seqnum < offset base newNode.seqnum := by
  induction nodes with
  | nil => simp
  | cons runner nodes ih =>
    intro first hf
    cases nodes with
    | nil =>
      cases hf
      exact (List.pairwise_cons.mp h).1 runner List.mem_cons_self
    | cons prev rest =>
      rw [List.getLast?_cons_cons] at hf
      rw [enqueueBack] at h
      split at h
      · exact ih (List.pairwise_cons.mp h).2 first hf
      · exact (List.pairwise_cons.mp h).1 first
          (List.mem_cons_of_mem runner (List.mem_of_getLast? hf))

/-- In a descending result, `last` is before the new node or was passed. -/
theorem last_of_descending (hnew : offset base newNode.seqnum < 31)
    (h : (enqueueBack newNode nodes).Pairwise
      fun x y => offset base y.seqnum < offset base x.seqnum) :
    ∀ last ∈ nodes.head?, offset base last.seqnum < 31 →
      offset base last.seqnum < offset base newNode.seqnum ∨ newNode.seqnum < last.seqnum := by
  intro last hlast hbase
  cases nodes with
  | nil => exact absurd hlast (by simp)
  | cons runner nodes =>
    cases hlast
    cases nodes with
    | nil => exact Or.inl ((List.pairwise_cons.mp h).1 last List.mem_cons_self)
    | cons prev rest =>
      rw [enqueueBack] at h
      split at h
      · next hbefore => exact Or.inr ((goesBefore_iff hnew hbase).mp hbefore).2
      · exact Or.inl ((List.pairwise_cons.mp h).1 last List.mem_cons_self)

end Walk

/-! ## The stack -/

/-- The last element of an increasing list is the greatest. -/
theorem le_getLast?_of_pairwise {stack : Stack} {f : Node → ℕ} {node last : Node}
    (h : stack.Pairwise fun x y => f x < f y) (hlast : stack.getLast? = some last)
    (hn : node ∈ stack) : f node ≤ f last := by
  obtain ⟨front, rfl⟩ := List.getLast?_eq_some_iff.mp hlast
  rcases List.mem_append.mp hn with hn | hn
  · exact le_of_lt ((List.pairwise_append.mp h).2.2 node hn last List.mem_cons_self)
  · rw [List.mem_singleton.mp hn]

theorem mem_stackEnqueue {stack : Stack} {pkt : Pkt} {node : Node} :
    node ∈ stackEnqueue stack pkt ↔ node = ⟨pkt, pkt.seqnum⟩ ∨ node ∈ stack := by
  rw [stackEnqueue, List.mem_reverse, mem_enqueueBack, List.mem_reverse]

/-- Distinct numbers after the call: the new one was not there. -/
theorem seqnum_ne_of_nodup {stack : Stack} {pkt : Pkt}
    (h : ((stackEnqueue stack pkt).map Node.seqnum).Nodup) :
    ∀ node ∈ stack, node.seqnum ≠ pkt.seqnum := by
  obtain ⟨front, back, rfl, hput⟩ := stackEnqueue_split stack pkt
  have hmiddle : (stackEnqueue (front ++ back) pkt).Perm (⟨pkt, pkt.seqnum⟩ :: (front ++ back)) :=
    hput ▸ List.perm_middle
  rw [(hmiddle.map Node.seqnum).nodup_iff, List.map_cons, List.nodup_cons, List.mem_map] at h
  exact fun node hn heq => h.1 ⟨node, hn, heq⟩

/-- **When one packet more leaves the stack sorted.** -/
theorem stackEnqueue_sorted_iff {stack : Stack} {pkt : Pkt} (h : Sorted stack)
    (hspan : InSpan (stackEnqueue stack pkt)) :
    Sorted (stackEnqueue stack pkt) ↔ Follows stack pkt := by
  have hne := seqnum_ne_of_nodup hspan.1
  obtain ⟨base, hall⟩ := hspan.2
  have hnode : ⟨pkt, pkt.seqnum⟩ ∈ stackEnqueue stack pkt := mem_stackEnqueue.mpr (Or.inl rfl)
  have hnew : offset base pkt.seqnum < 31 := hall _ hnode
  have hbase : ∀ node ∈ stack, offset base node.seqnum < 31 :=
    fun node hn => hall node (mem_stackEnqueue.mpr (Or.inr hn))
  -- the walk sees the stack from the back
  have hrev : (stackEnqueue stack pkt).Pairwise
        (fun x y => offset base x.seqnum < offset base y.seqnum) ↔
      (enqueueBack ⟨pkt, pkt.seqnum⟩ stack.reverse).Pairwise
        (fun x y => offset base y.seqnum < offset base x.seqnum) := by
    rw [stackEnqueue, List.pairwise_reverse]
  constructor
  · intro hsorted first hfirst last hlast
    have hdesc := hrev.mp (hsorted base hall)
    have hf : first ∈ stack := List.mem_of_mem_head? hfirst
    have hl : last ∈ stack := List.mem_of_getLast? hlast
    constructor
    · rw [← offset_lt_iff (hbase first hf) hnew (hne first hf)]
      exact first_lt_of_descending ⟨pkt, pkt.seqnum⟩ hdesc first (by rwa [List.getLast?_reverse])
    · rw [← offset_lt_iff (hbase last hl) hnew (hne last hl)]
      exact last_of_descending ⟨pkt, pkt.seqnum⟩ hnew hdesc last (by rwa [List.head?_reverse])
        (hbase last hl)
  · intro hfollows
    refine hspan.sorted_of_base hall (hrev.mpr ?_)
    have hasc := h base hbase
    refine enqueueBack_descending ⟨pkt, pkt.seqnum⟩
      (fun n hn => hbase n (List.mem_reverse.mp hn)) hnew
      (fun n hn => hne n (List.mem_reverse.mp hn)) (List.pairwise_reverse.mpr hasc) ?_ ?_
    · intro first hf
      rw [List.getLast?_reverse] at hf
      have hmem := List.mem_of_mem_head? hf
      obtain ⟨last, hl⟩ : ∃ last, stack.getLast? = some last :=
        Option.isSome_iff_exists.mp (List.getLast?_isSome.mpr (List.ne_nil_of_mem hmem))
      rw [offset_lt_iff (hbase first hmem) hnew (hne first hmem)]
      exact (hfollows first hf last hl).1
    · intro node hn hlt
      replace hlt : offset base pkt.seqnum < offset base node.seqnum := hlt
      -- the last node is at least as far, and not across the wrap
      rw [List.mem_reverse] at hn
      obtain ⟨first, hf⟩ : ∃ first, stack.head? = some first :=
        Option.isSome_iff_exists.mp (List.isSome_head?.mpr (List.ne_nil_of_mem hn))
      obtain ⟨last, hl⟩ : ∃ last, stack.getLast? = some last :=
        Option.isSome_iff_exists.mp (List.getLast?_isSome.mpr (List.ne_nil_of_mem hn))
      have hfar := le_getLast?_of_pairwise hasc hl hn
      have hlmem : last ∈ stack := List.mem_of_getLast? hl
      have hlast : pkt.seqnum < last.seqnum := by
        refine (hfollows first hf last hl).2.resolve_left fun hnear => ?_
        have hback := (offset_lt_iff (hbase last hlmem) hnew (hne last hlmem)).mpr hnear
        omega
      rcases hfar.lt_or_eq with hlt' | heq
      · exact lt_of_offset_lt hlt' (hbase last hlmem) hlt hlast
      · rw [offset_inj heq]
        exact hlast

/-- Two packets after the wrap do not let one in front of it in between. -/
example : ¬ Sorted (stackEnqueue [⟨pktNew, 250⟩, ⟨pktNew, 3⟩] { pktNew with seqnum := 255 }) :=
  fun h => absurd (h 250 (by decide)) (by decide)

/-! ## Runs of calls -/

/-- Every call is possible on every stack. -/
def callStep (stack : Stack) (call : Call) : Option Stack := some (call.apply stack)

/-- A packet enqueued follows the stack. -/
def Call.Ordered (stack : Stack) : Call → Prop
  | .enqueue pkt => Follows stack pkt
  | .remove _ => True
  | .removeAcked _ => True

instance (stack : Stack) (call : Call) : Decidable (call.Ordered stack) :=
  match call with
  | .enqueue pkt => inferInstanceAs (Decidable (Follows stack pkt))
  | .remove _ => isTrue trivial
  | .removeAcked _ => isTrue trivial

/-- **One call.** On a sorted stack, the next one is sorted exactly when the call is ordered. -/
theorem apply_sorted_iff {stack : Stack} {call : Call} (hspan : InSpan stack)
    (h : Sorted stack) (hnext : InSpan (call.apply stack)) :
    Sorted (call.apply stack) ↔ call.Ordered stack := by
  cases call with
  | enqueue pkt => exact stackEnqueue_sorted_iff h hnext
  | remove seqnum => exact iff_of_true (h.sublist hspan (stackRemove_sublist stack seqnum)) trivial
  | removeAcked seqnum =>
    exact iff_of_true (h.sublist hspan (stackRemoveAcked_suffix stack seqnum).sublist) trivial

/-- **When the stack stays sorted.** In a run of calls from the empty stack whose stacks all lie
in a span, all are sorted exactly when every packet enqueued follows its stack. -/
theorem sorted_iff (calls : List Call)
    (hspan : Along callStep (fun _ _ stack => InSpan stack) [] calls) :
    Along callStep (fun _ _ stack => Sorted stack) [] calls ↔
      Along callStep (fun stack call _ => call.Ordered stack) [] calls := by
  constructor
  · intro hsorted
    refine Along.of_inv (I := fun stack => InSpan stack ∧ Sorted stack) ?_ ?_
      ⟨inSpan_nil, sorted_nil⟩ (hspan.and hsorted)
    · rintro stack call stack' - hnext -
      exact hnext
    · rintro stack call stack' ⟨hin, hs⟩ hnext hstep
      cases hstep
      exact (apply_sorted_iff hin hs hnext.1).mp hnext.2
  · intro hordered
    refine Along.of_inv (I := fun stack => InSpan stack ∧ Sorted stack) ?_ ?_
      ⟨inSpan_nil, sorted_nil⟩ (hspan.and hordered)
    · rintro stack call stack' ⟨hin, hs⟩ hnext hstep
      cases hstep
      exact ⟨hnext.1, (apply_sorted_iff hin hs hnext.1).mpr hnext.2⟩
    · rintro stack call stack' ⟨hin, hs⟩ hnext hstep
      cases hstep
      exact (apply_sorted_iff hin hs hnext.1).mpr hnext.2

/-- A packet with a number, enqueued. -/
def enqueueNumber (seqnum : UInt8) : Call := .enqueue { pktNew with seqnum := seqnum }

/-- A span across the wrap, filled in order and in the middle, and a removal. -/
theorem sorted_iff_wrap :
    Along callStep (fun _ _ stack => Sorted stack) []
      [enqueueNumber 250, enqueueNumber 254, enqueueNumber 252, enqueueNumber 3,
        .remove 250, enqueueNumber 1] := by
  refine (sorted_iff _ ?_).mpr (by decide)
  have hin : ∀ stack : Stack, (stack.map Node.seqnum).Nodup ∧
      (∀ node ∈ stack, offset 250 node.seqnum < 31) → InSpan stack :=
    fun stack h => ⟨h.1, 250, h.2⟩
  exact Along.mono (fun _ _ stack _ h => hin stack h) (by decide)

/-- A packet smaller than the only one is put behind it. -/
theorem not_sorted :
    Along callStep (fun _ _ stack => InSpan stack) [] [enqueueNumber 5, enqueueNumber 3] ∧
      (exec callStep [] [enqueueNumber 5, enqueueNumber 3]).map (List.map Node.seqnum) =
        some [5, 3] ∧
      ¬ Along callStep (fun _ _ stack => Sorted stack) [] [enqueueNumber 5, enqueueNumber 3] := by
  have hspan : Along callStep (fun _ _ stack => InSpan stack) []
      [enqueueNumber 5, enqueueNumber 3] :=
    Along.mono (fun _ _ stack _ h => ⟨h.1, 3, h.2⟩)
      (show Along callStep (fun _ _ stack => (stack.map Node.seqnum).Nodup ∧
        ∀ node ∈ stack, offset 3 node.seqnum < 31) [] [enqueueNumber 5, enqueueNumber 3]
        by decide)
  refine ⟨hspan, by decide, fun h => ?_⟩
  have hsorted : Sorted [⟨{ pktNew with seqnum := 5 }, 5⟩, ⟨{ pktNew with seqnum := 3 }, 3⟩] :=
    ((h _ rfl).2 _ rfl).1
  exact absurd (hsorted 3 (by decide)) (by decide)

end Trtp
